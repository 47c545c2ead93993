/-
The status of every change.
-/
import ZeroDds.Lib.Runs
import ZeroDds.Rtps.KnownModel

namespace ZeroDds.Rtps

open RunMap SortedMap

/-! ### Recording a run -/

namespace NotAvailableRuns

variable {runs : RunMap NotAvailableKind} {lo hi : Int}

theorem joinBelow_spec (hr : runs.Apart) (kind : NotAvailableKind) (hle : lo ≤ hi)
    (hfree : runs.Free lo hi) :
    ∃ (r : RunMap NotAvailableKind) (l : Int), joinBelow runs lo hi kind = (r, l, hi) ∧ l ≤ lo ∧
      r.Apart ∧ r.Free l hi ∧ (∀ {s e}, r.get? s = some (e, kind) → e + 1 ≠ l) ∧
      ∀ n k, runs.labelAt n = some k ↔ r.labelAt n = some k ∨ (l ≤ n ∧ n < lo ∧ k = kind) := by
  -- a run that ends right before `lo` is the last one that starts at or before it
  have hlast : ∀ {s e k}, runs.get? s = some (e, k) → e + 1 = lo →
      (runs.filter fun s _ => s ≤ lo).last? = some (s, (e, k)) := by
    intro s e k hs htouch
    have hord := hr.ordered hs
    refine last?_eq_some.mpr
      ⟨get?_filter_le.mpr ⟨hs, by omega⟩, fun s' v' h' => ?_⟩
    obtain ⟨hs', hle'⟩ := get?_filter_le.mp h'
    by_contra hlt
    have := (hr.apart hs hs' (by omega)).1
    have := hr.ordered hs'
    have := hfree hs'
    omega
  by_cases htouch : ∃ s e, runs.get? s = some (e, kind) ∧ e + 1 = lo
  · obtain ⟨s, e, hs, htouch⟩ := htouch
    have hord := hr.ordered hs
    refine ⟨runs.erase s, s, ?_, by omega, hr.erase s, ?_, ?_, ?_⟩
    · unfold joinBelow
      rw [hlast hs htouch]
      simp only
      rw [if_pos ⟨trivial, by omega⟩, max_eq_left (by omega)]
    · intro s' e' k' hs'
      rw [get?_erase] at hs'
      split at hs'
      · cases hs'
      · next hne =>
        have hord' := hr.ordered hs'
        have hfree' := hfree hs'
        rcases lt_or_gt_of_ne hne with hlt | hgt
        · exact .inl (hr.apart hs' hs hlt).1
        · have := (hr.apart hs hs' hgt).1
          omega
    · intro s' e' hs' heq
      rw [get?_erase] at hs'
      split at hs'
      · cases hs'
      · have := hr.ordered hs'
        exact (hr.apart hs' hs (by omega)).2 heq rfl
    · intro n k
      rw [labelAt_erase hr hs]
      have : (s ≤ n ∧ n ≤ e ∧ k = kind) ↔ (s ≤ n ∧ n < lo ∧ k = kind) := by
        constructor <;> rintro ⟨h1, h2, h3⟩ <;> exact ⟨h1, by omega, h3⟩
      rw [this]
  · refine ⟨runs, lo, ?_, le_refl lo, hr, hfree, fun hs h => htouch ⟨_, _, hs, h⟩, ?_⟩
    · unfold joinBelow
      cases hfound : (runs.filter fun s _ => s ≤ lo).last? with
      | none => rfl
      | some entry =>
        obtain ⟨s, e, k⟩ := entry
        obtain ⟨hs, hsle⟩ := get?_filter_le.mp (last?_eq_some.mp hfound).1
        have := hfree hs
        simp only
        rw [if_neg]
        rintro ⟨rfl, hge⟩
        exact htouch ⟨s, e, hs, by omega⟩
    · intro n k
      exact ⟨.inl, fun h => h.resolve_right fun h => by omega⟩

theorem joinAbove_spec (hr : runs.Apart) (kind : NotAvailableKind) (hfree : runs.Free lo hi) :
    ∃ (r : RunMap NotAvailableKind) (h : Int), joinAbove runs hi kind = (r, h) ∧ hi ≤ h ∧
      r.Apart ∧ r.Free lo h ∧ (∀ {s v}, r.get? s = some v → runs.get? s = some v) ∧
      (∀ {s e}, r.get? s = some (e, kind) → s ≠ h + 1) ∧
      ∀ n k, runs.labelAt n = some k ↔ r.labelAt n = some k ∨ (hi < n ∧ n ≤ h ∧ k = kind) := by
  by_cases htouch : ∃ e, runs.get? (hi + 1) = some (e, kind)
  · obtain ⟨e, hs⟩ := htouch
    have hord := hr.ordered hs
    have hsub : ∀ {s v}, (runs.erase (hi + 1)).get? s = some v →
        s ≠ hi + 1 ∧ runs.get? s = some v := by
      intro s v h
      rw [get?_erase] at h
      split at h
      · cases h
      · next hne => exact ⟨hne, h⟩
    refine ⟨runs.erase (hi + 1), e, ?_, by omega, hr.erase _, ?_, fun h => (hsub h).2, ?_, ?_⟩
    · unfold joinAbove
      have hfirst : (runs.filter fun s _ => hi + 1 ≤ s).first? = some (hi + 1, (e, kind)) :=
        first?_eq_some.mpr ⟨get?_filter_ge.mpr ⟨hs, le_refl _⟩,
          fun s' v' h' => (get?_filter_ge.mp h').2⟩
      rw [hfirst]
      simp only
      rw [if_pos ⟨trivial, trivial⟩]
    · intro s' e' k' hs'
      obtain ⟨hne, hs'⟩ := hsub hs'
      have := hfree hs'
      rcases lt_or_gt_of_ne hne with hlt | hgt
      · exact .inl (by omega)
      · exact .inr (hr.apart hs hs' hgt).1
    · intro s' e' hs' heq
      obtain ⟨hne, hs'⟩ := hsub hs'
      exact (hr.apart hs hs' (by omega)).2 heq.symm rfl
    · intro n k
      rw [labelAt_erase hr hs]
      have : (hi + 1 ≤ n ∧ n ≤ e ∧ k = kind) ↔ (hi < n ∧ n ≤ e ∧ k = kind) := by
        constructor <;> rintro ⟨h1, h2, h3⟩ <;> exact ⟨by omega, h2, h3⟩
      rw [this]
  · refine ⟨runs, hi, ?_, le_refl hi, hr, hfree, id, ?_, ?_⟩
    · unfold joinAbove
      cases hfound : (runs.filter fun s _ => hi + 1 ≤ s).first? with
      | none => rfl
      | some entry =>
        obtain ⟨s, e, k⟩ := entry
        obtain ⟨hs, -⟩ := get?_filter_ge.mp (first?_eq_some.mp hfound).1
        simp only
        rw [if_neg]
        rintro ⟨rfl, rfl⟩
        exact htouch ⟨e, hs⟩
    · intro s e hs heq
      exact htouch ⟨e, heq ▸ hs⟩
    · intro n k
      exact ⟨.inl, fun h => h.resolve_right fun h => by omega⟩

def joined (runs : RunMap NotAvailableKind) (lo hi : Int) (kind : NotAvailableKind) :
    RunMap NotAvailableKind :=
  let below := joinBelow runs lo hi kind
  let above := joinAbove below.1 below.2.2 kind
  above.1.insert below.2.1 (above.2, kind)

theorem joined_spec (hr : runs.Apart) (kind : NotAvailableKind) (hle : lo ≤ hi)
    (hfree : runs.Free lo hi) :
    (joined runs lo hi kind).Apart ∧ ∀ n k, (joined runs lo hi kind).labelAt n = some k ↔
      runs.labelAt n = some k ∨ (lo ≤ n ∧ n ≤ hi ∧ k = kind) := by
  obtain ⟨r, l, hbelow, hl, hr', hfree', hnot, hlabels⟩ := joinBelow_spec hr kind hle hfree
  obtain ⟨r', h, habove, hh, hr'', hfree'', hsub, hnot', hlabels'⟩ :=
    joinAbove_spec hr' kind hfree'
  have hjoined : joined runs lo hi kind = r'.insert l (h, kind) := by
    simp [joined, hbelow, habove]
  have hapart : RunMap.Apart (r'.insert l (h, kind)) :=
    hr''.insert (by omega) hfree'' (fun hs => hnot (hsub hs)) hnot'
  rw [hjoined]
  refine ⟨hapart, fun n k => ?_⟩
  rw [labelAt_insert hr'' hapart hfree'' (by omega), hlabels, hlabels']
  constructor
  · rintro (h1 | ⟨h1, h2, h3⟩)
    · exact .inl (.inl (.inl h1))
    · by_cases hlo : n < lo
      · exact .inl (.inr ⟨h1, hlo, h3⟩)
      · by_cases hhi : n ≤ hi
        · exact .inr ⟨by omega, hhi, h3⟩
        · exact .inl (.inl (.inr ⟨by omega, h2, h3⟩))
  · rintro (((h1 | ⟨h1, h2, h3⟩) | ⟨h1, h2, h3⟩) | ⟨h1, h2, h3⟩)
    · exact .inl h1
    · exact .inr ⟨by omega, h2, h3⟩
    · exact .inr ⟨h1, by omega, h3⟩
    · exact .inr ⟨by omega, by omega, h3⟩

structure Kept (r : NotAvailableRuns) : Prop where
  apart : RunMap.Apart r.runs
  bounded : r.runs.size ≤ maxNotAvailableRuns

variable {r : NotAvailableRuns}

theorem trim_spec (fuel : Nat) (hr : RunMap.Apart r.runs) (hfuel : r.runs.size ≤ fuel) :
    (trim fuel r).Kept ∧ r.horizon ≤ (trim fuel r).horizon ∧
      (∀ n k, RunMap.labelAt (trim fuel r).runs n = some k → RunMap.labelAt r.runs n = some k) ∧
      ∀ n k, (trim fuel r).horizon ≤ n → RunMap.labelAt r.runs n = some k →
        RunMap.labelAt (trim fuel r).runs n = some k := by
  induction fuel generalizing r with
  | zero => exact ⟨⟨hr, by simp only [trim]; omega⟩, le_refl _, fun n k h => h, fun n k _ h => h⟩
  | succ fuel ih =>
    unfold trim
    split
    · cases hfirst : r.runs.first? with
      | none =>
        have hsize : ¬0 < r.runs.size := fun hpos => by
          obtain ⟨k, v, hv⟩ := size_pos_iff.mp hpos
          exact Option.some_ne_none v (hv.symm.trans (first?_eq_none.mp hfirst k))
        exact ⟨⟨hr, by omega⟩, le_refl _, fun n k h => h, fun n k _ h => h⟩
      | some entry =>
        obtain ⟨s, e, k₀⟩ := entry
        have hs := (first?_eq_some.mp hfirst).1
        have hsize := size_erase_lt hs
        obtain ⟨hkept, hhorizon, hsound, hcomplete⟩ := ih
          (r := ⟨r.runs.erase s, if e + 1 > r.horizon then e + 1 else r.horizon⟩) (hr.erase s)
          (by simp only; omega)
        simp only at hkept hhorizon hsound hcomplete ⊢
        refine ⟨hkept, by omega, fun n k h => ?_, fun n k hn h => hcomplete n k hn ?_⟩
        · exact (labelAt_erase hr hs).mpr (.inl (hsound n k h))
        · exact ((labelAt_erase hr hs).mp h).resolve_right fun h => by omega
    · next hle => exact ⟨⟨hr, by omega⟩, le_refl _, fun n k h => h, fun n k _ h => h⟩

/-- `r'` is `r` with the numbers of `S` entered under `kind`; below its horizon it may
have forgotten some. -/
structure Records (r r' : NotAvailableRuns) (S : Int → Prop) (kind : NotAvailableKind) : Prop where
  kept : r'.Kept
  horizon_le : r.horizon ≤ r'.horizon
  sound : ∀ {n k}, RunMap.labelAt r'.runs n = some k →
    RunMap.labelAt r.runs n = some k ∨ (S n ∧ k = kind)
  complete : ∀ {n k}, r'.horizon ≤ n →
    RunMap.labelAt r.runs n = some k ∨ (S n ∧ k = kind) → RunMap.labelAt r'.runs n = some k

variable {S : Int → Prop}

theorem Kept.records_none (hr : r.Kept) (hS : ∀ n, ¬S n) (kind : NotAvailableKind) :
    Records r r S kind where
  kept := hr
  horizon_le := le_refl _
  sound h := .inl h
  complete _ h := h.resolve_right fun h => hS _ h.1

variable {r' : NotAvailableRuns} {S' : Int → Prop} {kind : NotAvailableKind}

theorem Records.trans {r'' : NotAvailableRuns} (h : Records r r' S kind)
    (h' : Records r' r'' S' kind) :
    Records r r'' (fun n => S n ∨ S' n) kind where
  kept := h'.kept
  horizon_le := h.horizon_le.trans h'.horizon_le
  sound hlabel := by
    rcases h'.sound hlabel with h1 | ⟨h1, h2⟩
    · exact (h.sound h1).imp_right fun h1 => ⟨.inl h1.1, h1.2⟩
    · exact .inr ⟨.inr h1, h2⟩
  complete hn hlabel := by
    refine h'.complete hn ?_
    rcases hlabel with h1 | ⟨h1 | h1, h2⟩
    · exact .inl (h.complete (h'.horizon_le.trans hn) (.inl h1))
    · exact .inl (h.complete (h'.horizon_le.trans hn) (.inr ⟨h1, h2⟩))
    · exact .inr ⟨h1, h2⟩

theorem Records.congr (h : Records r r' S kind) (hS : ∀ n, S n ↔ S' n) : Records r r' S' kind := by
  have heq : S = S' := funext fun n => propext (hS n)
  exact heq ▸ h

theorem record_spec (hr : r.Kept) (kind : NotAvailableKind)
    (hnone : ∀ n, lo ≤ n → n ≤ hi → RunMap.labelAt r.runs n = none) :
    Records r (r.record lo hi kind) (fun n => lo ≤ n ∧ n ≤ hi) kind := by
  unfold record
  split
  · next hlt => exact hr.records_none (fun n h => by omega) kind
  · next hle =>
    obtain ⟨hapart, hlabels⟩ := joined_spec hr.apart kind (not_lt.mp hle)
      (hr.apart.free (not_lt.mp hle) hnone)
    obtain ⟨hkept, hhorizon, hsound, hcomplete⟩ :=
      trim_spec (joined r.runs lo hi kind).size (r := ⟨joined r.runs lo hi kind, r.horizon⟩) hapart
        (le_refl _)
    refine ⟨hkept, hhorizon, fun h => ?_, fun hn h => hcomplete _ _ hn ((hlabels _ _).mpr ?_)⟩
    · exact ((hlabels _ _).mp (hsound _ _ h)).imp_right fun h => ⟨⟨h.1, h.2.1⟩, h.2.2⟩
    · exact h.imp_right fun h => ⟨h.1.1, h.1.2, h.2⟩

end NotAvailableRuns

/-! ### What the operations record -/

namespace WriterProxy

open NotAvailableRuns (Kept Records)

variable {p : WriterProxy}

theorem recordStretches_spec (hp : p.notAvailableRuns.Kept) {stop cursor : Int} {ks : List Int}
    (hks : ks.Pairwise (· < ·)) (hcursor : ∀ k ∈ ks, cursor ≤ k ∧ k < stop)
    (hnone : ∀ n, cursor ≤ n → n < stop → n ∉ ks →
      RunMap.labelAt p.notAvailableRuns.runs n = none) :
    Records p.notAvailableRuns (recordStretches p stop cursor ks).notAvailableRuns
      (fun n => cursor ≤ n ∧ n < stop ∧ n ∉ ks) .removed := by
  induction ks generalizing p cursor with
  | nil =>
    have hrec := NotAvailableRuns.record_spec hp .removed
      fun n h1 (h2 : n ≤ stop - 1) => hnone n h1 (by omega) List.not_mem_nil
    refine hrec.congr fun n => ?_
    simp only [List.not_mem_nil, not_false_eq_true, and_true]
    omega
  | cons k ks ih =>
    obtain ⟨hk, hks⟩ := List.pairwise_cons.mp hks
    have hkstop := hcursor k List.mem_cons_self
    have hfirst : Records p.notAvailableRuns
        (p.recordNotAvailable cursor (k - 1) .removed).notAvailableRuns
        (fun n => cursor ≤ n ∧ n ≤ k - 1) .removed :=
      NotAvailableRuns.record_spec hp .removed fun n h1 h2 => hnone n h1 (by omega) fun hmem => by
        rcases List.mem_cons.mp hmem with rfl | hmem
        · omega
        · have := hk n hmem
          omega
    have hahead : ∀ k' ∈ ks, k + 1 ≤ k' ∧ k' < stop := fun k' hk' =>
      ⟨hk k' hk', (hcursor k' (List.mem_cons_of_mem k hk')).2⟩
    have hrest := ih (p := p.recordNotAvailable cursor (k - 1) .removed) hfirst.kept hks hahead
      fun n h1 h2 h3 => by
        -- what the first stretch entered lies before the cursor
        by_contra hsome
        obtain ⟨kind, hlabel⟩ := Option.ne_none_iff_exists'.mp hsome
        rcases hfirst.sound hlabel with h | h
        · have hold := hnone n (by omega) h2 fun hmem => by
            rcases List.mem_cons.mp hmem with rfl | hmem
            · omega
            · exact h3 hmem
          exact Option.some_ne_none kind (h.symm.trans hold)
        · omega
    refine (hfirst.trans hrest).congr fun n => ?_
    simp only [List.mem_cons, not_or]
    constructor
    · rintro (⟨h1, h2⟩ | ⟨h1, h2, h3⟩)
      · refine ⟨h1, by omega, by omega, fun hmem => ?_⟩
        have := hk n hmem
        omega
      · exact ⟨by omega, h2, by omega, h3⟩
    · rintro ⟨h1, h2, h3, h4⟩
      by_cases hlt : n ≤ k - 1
      · exact .inl ⟨h1, hlt⟩
      · exact .inr ⟨by omega, h2, h4⟩

theorem recordUnknownAsRemoved_spec (hp : p.Absorbed) (hkept : p.notAvailableRuns.Kept)
    (stop : Int) (hnone : ∀ n, p.firstAvailableSn ≤ n → p.isKnown n = false →
      RunMap.labelAt p.notAvailableRuns.runs n = none) :
    Records p.notAvailableRuns (p.recordUnknownAsRemoved stop).notAvailableRuns
      (fun n => p.firstAvailableSn ≤ n ∧ n < stop ∧ p.isKnown n = false) .removed := by
  have hfirst := hp.first_le
  have hcandidate := hp.firstUnknownCandidate_eq
  have hunknown : ∀ n, p.firstUnknownCandidate ≤ n →
      (p.isKnown n = false ↔ ¬(n ∈ p.received ∨ n ∈ p.irrelevant)) := by
    intro n hn
    rw [← Bool.not_eq_true, isKnown_iff]
    exact not_congr ⟨fun h => h.resolve_left (by omega), .inr⟩
  have hbelow : ∀ n, p.firstAvailableSn ≤ n → p.isKnown n = false →
      p.firstUnknownCandidate ≤ n := by
    intro n h1 h2
    by_contra hlt
    have hknown : p.isKnown n = true := isKnown_iff.mpr (.inl ⟨h1, by omega⟩)
    rw [h2] at hknown
    cases hknown
  unfold recordUnknownAsRemoved
  simp only
  split
  · next hle =>
    refine hkept.records_none (fun n h => ?_) .removed
    have := hbelow n h.1 h.2.2
    omega
  · have hmem : ∀ n, n ∈ (Int.range p.firstUnknownCandidate stop).filter
        (fun sn => sn ∈ p.received ∨ sn ∈ p.irrelevant) ↔
        (p.firstUnknownCandidate ≤ n ∧ n < stop) ∧ (n ∈ p.received ∨ n ∈ p.irrelevant) := by
      intro n
      rw [List.mem_filter, Int.mem_range_iff, decide_eq_true_iff]
    refine (recordStretches_spec hkept (List.Pairwise.filter _ (pairwise_range _ _))
      (fun k hk => ((hmem k).mp hk).1) fun n h1 h2 h3 => ?_).congr fun n => ?_
    · refine hnone n (by omega) ((hunknown n h1).mpr fun hset => h3 ((hmem n).mpr ⟨⟨h1, h2⟩, hset⟩))
    · constructor
      · rintro ⟨h1, h2, h3⟩
        exact ⟨by omega, h2, (hunknown n h1).mpr fun hset => h3 ((hmem n).mpr ⟨⟨h1, h2⟩, hset⟩)⟩
      · rintro ⟨h1, h2, h3⟩
        have hge := hbelow n h1 h3
        exact ⟨hge, h2, fun hset => (hunknown n hge).mp h3 ((hmem n).mp hset).2⟩

theorem changeStatus_eq (p : WriterProxy) (sn : Int) :
    p.changeStatus sn =
      if sn ≤ 0 ∨ sn < p.notAvailableRuns.horizon then none
      else some (((RunMap.labelAt p.notAvailableRuns.runs sn).map
        ChangeFromWriterStatus.notAvailable).getD (changeStatus.byRange p sn)) := by
  unfold changeStatus RunMap.labelAt
  split
  · rfl
  · cases (p.notAvailableRuns.runs.filter fun s _ => s ≤ sn).last? with
    | none => rfl
    | some entry =>
      simp only
      split <;> rfl

end WriterProxy

/-! ### One status for each number -/

structure StatusMap where
  first : Int
  last : Int
  status : Int → Option ChangeFromWriterStatus

namespace StatusMap

def initial : StatusMap := ⟨1, 0, fun sn => if 0 < sn then some .unknown else none⟩

def isOpen : Option ChangeFromWriterStatus → Bool
  | some .unknown => true
  | some .missing => true
  | _ => false

variable (m : StatusMap)

/-- A change that is waited for gets its final status; any other keeps the one it has. -/
def settle (sn : Int) (st : ChangeFromWriterStatus) : StatusMap :=
  { m with status := fun n => if n = sn ∧ isOpen (m.status n) then some st else m.status n }

/-- A received change that is taken back is waited for again. -/
def reopen (sn : Int) : StatusMap :=
  { m with status := fun n =>
      if n = sn ∧ m.status n = some .received then
        some (if n ≤ m.last then .missing else .unknown)
      else m.status n }

def raiseFirst (first : Int) : StatusMap :=
  { m with
    first := max m.first first
    status := fun n =>
      if n < first ∧ isOpen (m.status n) then some (.notAvailable .removed) else m.status n }

def announce (last : Int) : StatusMap :=
  { m with
    last := max m.last last
    status := fun n => if n ≤ last ∧ m.status n = some .unknown then some .missing else m.status n }

/-- One operation.  A change that is irrelevant without a reason counts as received. -/
def apply : ProxyOp → StatusMap
  | .received sn => m.settle sn .received
  | .irrelevant sn => m.settle sn .received
  | .notAvailable sn kind => m.settle sn (.notAvailable kind)
  | .unreceive sn => m.reopen sn
  | .lost first => m.raiseFirst first
  | .heartbeat first last => (m.raiseFirst first).announce last

end StatusMap

namespace WriterProxy

open NotAvailableRuns (Kept Records)

def TakesBackReceived (p : WriterProxy) : ProxyOp → Prop
  | .unreceive sn => p.changeStatus sn = some .received
  | _ => True

/-- What is taken back is received and still announced as available. -/
def TakesBackAvailable (p : WriterProxy) : ProxyOp → Prop
  | .unreceive sn => p.changeStatus sn = some .received ∧ p.firstAvailableSn ≤ sn
  | _ => True

def Final (st : Option ChangeFromWriterStatus) : Prop :=
  st = some .received ∨ ∃ kind, st = some (.notAvailable kind)

/-- The proxy keeps what the map keeps.  Below the horizon it may have forgotten why a
change is not available, but not that it is settled. -/
structure Follows (p : WriterProxy) (m : StatusMap) : Prop where
  absorbed : p.Absorbed
  kept : p.notAvailableRuns.Kept
  first_pos : 0 < p.firstAvailableSn
  first_eq : p.firstAvailableSn = m.first
  last_eq : p.lastAvailableSn = m.last
  nonpos : ∀ {n}, n ≤ 0 → m.status n = none
  waited : ∀ {n}, p.firstAvailableSn ≤ n → p.isKnown n = false →
    m.status n = some (if n ≤ m.last then .missing else .unknown)
  final : ∀ {n}, 0 < n → n < p.firstAvailableSn ∨ p.isKnown n = true → Final (m.status n)
  sound : ∀ {n k}, RunMap.labelAt p.notAvailableRuns.runs n = some k →
    m.status n = some (.notAvailable k)
  complete : ∀ {n k}, p.notAvailableRuns.horizon ≤ n → m.status n = some (.notAvailable k) →
    RunMap.labelAt p.notAvailableRuns.runs n = some k

theorem Final.isOpen {st : Option ChangeFromWriterStatus} (h : Final st) :
    StatusMap.isOpen st = false := by
  rcases h with rfl | ⟨kind, rfl⟩ <;> rfl

variable {p p' : WriterProxy} {m : StatusMap} {sn : Int} {n : Int}

theorem Follows.isOpen_iff (h : p.Follows m) :
    StatusMap.isOpen (m.status n) = true ↔ p.firstAvailableSn ≤ n ∧ p.isKnown n = false := by
  have hpos := h.first_pos
  by_cases hn : 0 < n
  · by_cases hopen : p.firstAvailableSn ≤ n ∧ p.isKnown n = false
    · rw [h.waited hopen.1 hopen.2]
      simp only [hopen, and_self, iff_true]
      split <;> rfl
    · have hfinal : n < p.firstAvailableSn ∨ p.isKnown n = true := by
        rw [not_and_or, not_le, Bool.not_eq_false] at hopen
        exact hopen
      rw [(h.final hn hfinal).isOpen]
      exact ⟨fun h => absurd h Bool.false_ne_true, fun h => absurd h hopen⟩
  · rw [h.nonpos (by omega)]
    exact ⟨fun h => absurd h Bool.false_ne_true, fun h => by omega⟩

theorem Follows.changeStatus (h : p.Follows m) (hsn : p.notAvailableRuns.horizon ≤ sn) :
    p.changeStatus sn = m.status sn := by
  rw [changeStatus_eq]
  by_cases hpos : sn ≤ 0
  · rw [if_pos (.inl hpos), h.nonpos hpos]
  · rw [if_neg (by omega)]
    cases hlabel : RunMap.labelAt p.notAvailableRuns.runs sn with
    | some k => exact (h.sound hlabel).symm
    | none =>
      simp only [Option.map_none, Option.getD_none, WriterProxy.changeStatus.byRange]
      split
      · next hfinal =>
        rcases h.final (by omega) hfinal with hst | ⟨k, hst⟩
        · exact hst.symm
        · exact absurd ((h.complete hsn hst).symm.trans hlabel) (Option.some_ne_none k)
      · next hopen =>
        rw [not_or, not_lt, Bool.not_eq_true] at hopen
        rw [h.waited hopen.1 hopen.2, h.last_eq]
        by_cases hlast : sn ≤ m.last
        · rw [if_neg (by omega), if_pos hlast]
        · rw [if_pos (by omega), if_neg hlast]

section

variable (p : WriterProxy)

@[simp] theorem absorb_notAvailableRuns :
    p.absorb.notAvailableRuns = p.notAvailableRuns := by
  obtain ⟨r, i, k, h⟩ := p.absorb_frame
  rw [h]

@[simp] theorem markKnown_notAvailableRuns (sn : Int) (b : Bool) :
    (p.markKnown sn b).notAvailableRuns = p.notAvailableRuns := by
  unfold markKnown
  split_ifs <;> simp

@[simp] theorem receivedChangeSet_notAvailableRuns (sn : Int) :
    (p.receivedChangeSet sn).notAvailableRuns = p.notAvailableRuns := by
  unfold receivedChangeSet
  split <;> simp

@[simp] theorem irrelevantChangeSet_notAvailableRuns (sn : Int) :
    (p.irrelevantChangeSet sn).notAvailableRuns = p.notAvailableRuns := by
  unfold irrelevantChangeSet
  split <;> simp

@[simp] theorem unreceiveChangeSet_notAvailableRuns (sn : Int) :
    (p.unreceiveChangeSet sn).notAvailableRuns = p.notAvailableRuns := by
  unfold unreceiveChangeSet
  split_ifs <;> rfl

end

section

variable (h : p.Follows m)
include h

theorem Follows.labelAt_of_open (hfirst : p.firstAvailableSn ≤ n)
    (hknown : p.isKnown n = false) : RunMap.labelAt p.notAvailableRuns.runs n = none := by
  by_contra hsome
  obtain ⟨k, hlabel⟩ := Option.ne_none_iff_exists'.mp hsome
  have hopen := h.isOpen_iff.mpr ⟨hfirst, hknown⟩
  rw [h.sound hlabel] at hopen
  cases hopen

theorem Follows.settle {st : ChangeFromWriterStatus} (hst : Final (some st))
    (hp' : p'.Absorbed) (hfirst : p'.firstAvailableSn = p.firstAvailableSn)
    (hlast : p'.lastAvailableSn = p.lastAvailableSn)
    (hknown : ∀ n, p'.isKnown n = true ↔ (p.firstAvailableSn ≤ sn ∧ n = sn) ∨ p.isKnown n = true)
    {S : Int → Prop} {kind : NotAvailableKind}
    (hrec : Records p.notAvailableRuns p'.notAvailableRuns S kind)
    (hS : ∀ n k, S n ∧ k = kind ↔ n = sn ∧ StatusMap.isOpen (m.status n) = true ∧
      st = .notAvailable k) :
    p'.Follows (m.settle sn st) where
  absorbed := hp'
  kept := hrec.kept
  first_pos := hfirst ▸ h.first_pos
  first_eq := hfirst.trans h.first_eq
  last_eq := hlast.trans h.last_eq
  nonpos {n} hn := by
    simp only [StatusMap.settle, h.nonpos hn]
    exact if_neg fun h => Bool.false_ne_true h.2
  waited {n} hle hnot := by
    have hne : ¬(n = sn ∧ StatusMap.isOpen (m.status n) = true) := fun hopen => by
      rw [(hknown n).mpr (.inl ⟨by omega, hopen.1⟩)] at hnot
      cases hnot
    have hnot' : p.isKnown n = false := by
      rw [← Bool.not_eq_true] at hnot ⊢
      exact fun hk => hnot ((hknown n).mpr (.inr hk))
    simp only [StatusMap.settle]
    rw [if_neg hne]
    exact h.waited (by omega) hnot'
  final {n} hpos hn := by
    simp only [StatusMap.settle]
    split
    · exact hst
    · next hopen =>
      rw [hknown, hfirst] at hn
      rcases hn with hn | ⟨hle, rfl⟩ | hn
      · exact h.final hpos (.inl hn)
      · refine h.final hpos (.inr ?_)
        by_contra hunknown
        exact hopen ⟨rfl, h.isOpen_iff.mpr ⟨hle, by simpa using hunknown⟩⟩
      · exact h.final hpos (.inr hn)
  sound {n k} hlabel := by
    simp only [StatusMap.settle]
    rcases hrec.sound hlabel with hold | hnew
    · have hstatus := h.sound hold
      rw [if_neg, hstatus]
      rw [hstatus]
      exact fun h => Bool.false_ne_true h.2
    · obtain ⟨heq, hopen, rfl⟩ := (hS n k).mp hnew
      rw [if_pos ⟨heq, hopen⟩]
  complete {n k} hn hstatus := by
    simp only [StatusMap.settle] at hstatus
    refine hrec.complete hn ?_
    split at hstatus
    · next hopen => exact .inr ((hS n k).mpr ⟨hopen.1, hopen.2, Option.some.inj hstatus⟩)
    · exact .inl (h.complete (hrec.horizon_le.trans hn) hstatus)

theorem Follows.settle_received (hp' : p'.Absorbed)
    (hfirst : p'.firstAvailableSn = p.firstAvailableSn)
    (hlast : p'.lastAvailableSn = p.lastAvailableSn)
    (hknown : ∀ n, p'.isKnown n = true ↔ (p.firstAvailableSn ≤ sn ∧ n = sn) ∨ p.isKnown n = true)
    (hruns : p'.notAvailableRuns = p.notAvailableRuns) : p'.Follows (m.settle sn .received) := by
  have hrec : Records p.notAvailableRuns p'.notAvailableRuns (fun _ => False) .removed := by
    rw [hruns]
    exact h.kept.records_none (fun _ => id) _
  exact h.settle (.inl rfl) hp' hfirst hlast hknown hrec fun n k => by simp

theorem Follows.received (sn : Int) :
    (p.receivedChangeSet sn).Follows (m.settle sn .received) := by
  obtain ⟨habs, hknown⟩ := receivedChangeSet_spec h.absorbed sn
  exact h.settle_received habs (by simp) (by simp) hknown (by simp)

theorem Follows.irrelevant (sn : Int) :
    (p.irrelevantChangeSet sn).Follows (m.settle sn .received) := by
  obtain ⟨habs, hknown⟩ := irrelevantChangeSet_spec h.absorbed sn
  exact h.settle_received habs (by simp) (by simp) hknown (by simp)

theorem Follows.records_notAvailable (sn : Int) (kind : NotAvailableKind) :
    Records p.notAvailableRuns (p.notAvailableChangeSet sn kind).notAvailableRuns
      (fun n => n = sn ∧ StatusMap.isOpen (m.status n) = true) kind := by
  unfold notAvailableChangeSet
  split
  · next hlt =>
    refine h.kept.records_none (fun n hn => ?_) kind
    have := h.isOpen_iff.mp hn.2
    omega
  · next hle =>
    rw [markKnown_notAvailableRuns]
    split
    · next hk =>
      refine h.kept.records_none (fun n hn => ?_) kind
      have hopen := (h.isOpen_iff.mp hn.2).2
      rw [hn.1, hk] at hopen
      cases hopen
    · next hk =>
      rw [Bool.not_eq_true] at hk
      have hopen := h.isOpen_iff.mpr ⟨not_lt.mp hle, hk⟩
      have hrec := NotAvailableRuns.record_spec h.kept kind (fun n (h1 : sn ≤ n) (h2 : n ≤ sn) =>
        (le_antisymm h2 h1) ▸ h.labelAt_of_open (not_lt.mp hle) hk)
      refine hrec.congr fun n => ?_
      constructor
      · rintro ⟨h1, h2⟩
        obtain rfl := le_antisymm h2 h1
        exact ⟨rfl, hopen⟩
      · rintro ⟨rfl, -⟩
        exact ⟨le_refl _, le_refl _⟩

theorem Follows.notAvailable (sn : Int) (kind : NotAvailableKind) :
    (p.notAvailableChangeSet sn kind).Follows (m.settle sn (.notAvailable kind)) := by
  obtain ⟨habs, hknown⟩ := notAvailableChangeSet_spec h.absorbed sn kind
  refine h.settle (.inr ⟨kind, rfl⟩) habs (by simp) (by simp) hknown
    (h.records_notAvailable sn kind) fun n k => ?_
  simp only [ChangeFromWriterStatus.notAvailable.injEq, and_assoc, eq_comm]

end

theorem lostChangesUpdate_notAvailableRuns (p : WriterProxy) {first : Int}
    (h : ¬first ≤ p.firstAvailableSn) :
    (p.lostChangesUpdate first).1.notAvailableRuns =
      (p.recordUnknownAsRemoved first).notAvailableRuns := by
  simp [lostChangesUpdate, h]

section

variable (h : p.Follows m)
include h

theorem Follows.records_lost (first : Int) :
    Records p.notAvailableRuns (p.lostChangesUpdate first).1.notAvailableRuns
      (fun n => n < first ∧ StatusMap.isOpen (m.status n) = true) .removed := by
  by_cases hle : first ≤ p.firstAvailableSn
  · have hsame : (p.lostChangesUpdate first).1 = p := by simp [lostChangesUpdate, hle]
    rw [hsame]
    refine h.kept.records_none (fun n hn => ?_) .removed
    have := h.isOpen_iff.mp hn.2
    omega
  · rw [lostChangesUpdate_notAvailableRuns p hle]
    refine (recordUnknownAsRemoved_spec h.absorbed h.kept first fun n h1 h2 =>
      h.labelAt_of_open h1 h2).congr fun n => ?_
    rw [h.isOpen_iff]
    exact ⟨fun ⟨h1, h2, h3⟩ => ⟨h2, h1, h3⟩, fun ⟨h2, h1, h3⟩ => ⟨h1, h2, h3⟩⟩

theorem Follows.lost (first : Int) :
    (p.lostChangesUpdate first).1.Follows (m.raiseFirst first) := by
  obtain ⟨habs, hknown⟩ := lostChangesUpdate_spec h.absorbed first
  have hrec := h.records_lost first
  have hpos := h.first_pos
  exact {
    absorbed := habs
    kept := hrec.kept
    first_pos := by rw [lostChangesUpdate_firstAvailableSn]; omega
    first_eq := by rw [lostChangesUpdate_firstAvailableSn, h.first_eq]; rfl
    last_eq := by rw [lostChangesUpdate_lastAvailableSn, h.last_eq]; rfl
    nonpos := fun {n} hn => by
      simp only [StatusMap.raiseFirst, h.nonpos hn]
      exact if_neg fun h => Bool.false_ne_true h.2
    waited := fun {n} hle hnot => by
      rw [lostChangesUpdate_firstAvailableSn] at hle
      have hnot' : p.isKnown n = false := by
        rw [← Bool.not_eq_true] at hnot ⊢
        exact fun hk => hnot ((hknown n).mpr ⟨by omega, hk⟩)
      simp only [StatusMap.raiseFirst]
      rw [if_neg (by omega)]
      exact h.waited (by omega) hnot'
    final := fun {n} hn hset => by
      simp only [StatusMap.raiseFirst]
      split
      · exact .inr ⟨_, rfl⟩
      · next hopen =>
        rw [h.isOpen_iff] at hopen
        refine h.final hn ?_
        rw [lostChangesUpdate_firstAvailableSn, hknown] at hset
        by_contra hnot
        rw [not_or, not_lt, Bool.not_eq_true] at hnot
        rcases hset with hlt | ⟨-, hk⟩
        · exact hopen ⟨by omega, hnot⟩
        · exact Bool.false_ne_true (hnot.2.symm.trans hk)
    sound := fun {n k} hlabel => by
      simp only [StatusMap.raiseFirst]
      rcases hrec.sound hlabel with hold | ⟨hnew, rfl⟩
      · have hstatus := h.sound hold
        rw [if_neg, hstatus]
        rw [hstatus]
        exact fun h => Bool.false_ne_true h.2
      · rw [if_pos hnew]
    complete := fun {n k} hn hstatus => by
      simp only [StatusMap.raiseFirst] at hstatus
      refine hrec.complete hn ?_
      split at hstatus
      · next hopen => exact .inr ⟨hopen, by simpa using hstatus.symm⟩
      · exact .inl (h.complete (hrec.horizon_le.trans hn) hstatus) }

theorem Follows.announce {last : Int}
    (hp' : p' = { p with lastAvailableSn := max p.lastAvailableSn last }) :
    p'.Follows (m.announce last) := by
  subst hp'
  have hknown : ∀ n, isKnown { p with lastAvailableSn := max p.lastAvailableSn last } n =
      p.isKnown n := fun n => rfl
  exact {
    absorbed := ⟨h.absorbed.first_le, h.absorbed.received_gt, h.absorbed.irrelevant_gt⟩
    kept := h.kept
    first_pos := h.first_pos
    first_eq := h.first_eq
    last_eq := by
      show max p.lastAvailableSn last = max m.last last
      rw [h.last_eq]
    nonpos := fun {n} hn => by simp [StatusMap.announce, h.nonpos hn]
    waited := fun {n} hle hnot => by
      have hstatus := h.waited hle ((hknown n).symm.trans hnot)
      simp only [StatusMap.announce, hstatus]
      by_cases h1 : n ≤ m.last
      · simp [h1]
      · by_cases h2 : n ≤ last
        · simp [h1, h2]
        · simp [h1, h2]
    final := fun {n} hn hset => by
      have hfinal := h.final hn (hset.imp_right fun hk => (hknown n).symm.trans hk)
      simp only [StatusMap.announce]
      rw [if_neg]
      · exact hfinal
      · rintro ⟨-, hun⟩
        rcases hfinal with hfinal | ⟨k, hfinal⟩ <;> rw [hun] at hfinal <;> cases hfinal
    sound := fun {n k} hlabel => by
      simp [StatusMap.announce, h.sound hlabel]
    complete := fun {n k} hn hstatus => by
      simp only [StatusMap.announce] at hstatus
      split at hstatus
      · cases hstatus
      · exact h.complete hn hstatus }

theorem Follows.heartbeat (first last : Int) :
    (p.updateFromHeartbeat first last).1.Follows ((m.raiseFirst first).announce last) := by
  refine (h.lost first).announce ?_
  simp only [updateFromHeartbeat]
  congr 1
  split <;> omega

theorem Follows.unreceive (hreceived : p.changeStatus sn = some .received)
    (hfirst : p.firstAvailableSn ≤ sn) :
    (p.unreceiveChangeSet sn).Follows (m.reopen sn) := by
  have hpos := h.first_pos
  have hsn : p.notAvailableRuns.horizon ≤ sn := by
    rw [changeStatus_eq] at hreceived
    by_contra hlt
    rw [if_pos (.inr (by omega))] at hreceived
    cases hreceived
  have hstatus : m.status sn = some .received := (h.changeStatus hsn).symm.trans hreceived
  obtain ⟨habs, hknown⟩ := unreceiveChangeSet_spec h.absorbed sn
  have hruns := p.unreceiveChangeSet_notAvailableRuns sn
  exact {
    absorbed := habs
    kept := hruns ▸ h.kept
    first_pos := by rw [unreceiveChangeSet_firstAvailableSn]; exact hpos
    first_eq := by rw [unreceiveChangeSet_firstAvailableSn]; exact h.first_eq
    last_eq := by rw [unreceiveChangeSet_lastAvailableSn]; exact h.last_eq
    nonpos := fun {n} hn => by simp [StatusMap.reopen, h.nonpos hn]
    waited := fun {n} hle hnot => by
      rw [unreceiveChangeSet_firstAvailableSn] at hle
      simp only [StatusMap.reopen]
      by_cases heq : n = sn
      · exact if_pos ⟨heq, heq ▸ hstatus⟩
      · rw [if_neg fun h => heq h.1]
        refine h.waited hle ?_
        rw [← Bool.not_eq_true] at hnot ⊢
        exact fun hk => hnot ((hknown n).mpr ⟨heq, hk⟩)
    final := fun {n} hn hset => by
      rw [unreceiveChangeSet_firstAvailableSn, hknown] at hset
      simp only [StatusMap.reopen]
      rw [if_neg]
      · exact h.final hn (hset.imp_right And.right)
      · rintro ⟨heq, -⟩
        rcases hset with hlt | hset
        · omega
        · exact hset.1 heq
    sound := fun {n k} hlabel => by
      have hold := h.sound (hruns ▸ hlabel)
      simp [StatusMap.reopen, hold]
    complete := fun {n k} hn hlabel => by
      simp only [StatusMap.reopen] at hlabel
      rw [hruns] at hn ⊢
      split at hlabel
      · split at hlabel <;> cases hlabel
      · exact h.complete hn hlabel }

end

theorem follows_initial (guid : Guid) (u ml : List Locator) (b : Bool) :
    (new guid u ml b).Follows StatusMap.initial where
  absorbed := new_absorbed guid u ml b
  kept := ⟨apart_empty, Nat.zero_le _⟩
  first_pos := Int.one_pos
  first_eq := rfl
  last_eq := rfl
  nonpos {n} hn := by simp [StatusMap.initial, hn]
  waited {n} hle _ := by
    have hpos : 0 < n := hle
    have hlast : ¬n ≤ 0 := by omega
    simp [StatusMap.initial, hpos, hlast]
  final {n} hpos hset := by
    rcases hset with hlt | hk
    · have : n < 1 := hlt
      omega
    · rw [isKnown_iff] at hk
      simp only [new, Finset.notMem_empty, or_false] at hk
      omega
  sound {n k} hlabel := by
    obtain ⟨s, e, hs, -⟩ := (labelAt_eq_some apart_empty).mp hlabel
    cases hs
  complete {n k} _ hstatus := by
    simp only [StatusMap.initial] at hstatus
    split at hstatus <;> cases hstatus

theorem Follows.step (h : p.Follows m) {op : ProxyOp} (hop : p.TakesBackAvailable op) :
    (p.step op).1.Follows (m.apply op) := by
  cases op with
  | received sn => exact h.received sn
  | irrelevant sn => exact h.irrelevant sn
  | notAvailable sn kind => exact h.notAvailable sn kind
  | unreceive sn => exact h.unreceive hop.1 hop.2
  | lost first => exact h.lost first
  | heartbeat first last => exact h.heartbeat first last

theorem Follows.run (h : p.Follows m) {ops : List ProxyOp}
    (hok : RunOk WriterProxy.step TakesBackAvailable p ops) :
    (ZeroDds.run WriterProxy.step p ops).1.Follows (ops.foldl StatusMap.apply m) := by
  induction ops generalizing p m with
  | nil => exact h
  | cons op ops ih => exact ih (h.step hok.1) hok.2

namespace Fixture

def mixedOps : List ProxyOp :=
  [.heartbeat 1 8, .notAvailable 3 .filtered, .notAvailable 4 .filtered, .received 5, .received 6,
    .unreceive 6, .lost 8]

def someWriter : Guid := ⟨GuidPrefix.repeated 1, EntityId.userWriterWithKey 1 2 3⟩

/-- A received change below `first_available_sn` is taken back in vain. -/
def passedOps : List ProxyOp := [.heartbeat 1 8, .received 6, .lost 8, .unreceive 6]

end Fixture

end WriterProxy
end ZeroDds.Rtps
