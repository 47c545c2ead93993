/-
The sums of a writer proxy.
-/
import ZeroDds.Rtps.WriterProxyState

namespace ZeroDds.Rtps

def InI64 (n : Int) : Prop := -9223372036854775808 ≤ n ∧ n ≤ i64Max

instance (n : Int) : Decidable (InI64 n) := inferInstanceAs (Decidable (_ ∧ _))

def AllInI64 (sums : List Int) : Prop := ∀ n ∈ sums, InI64 n

instance (sums : List Int) : Decidable (AllInI64 sums) := inferInstanceAs (Decidable (∀ n ∈ _, _))

@[simp] theorem allInI64_nil : AllInI64 [] := by
  intro n hn
  cases hn

variable {n : Int}

@[simp] theorem allInI64_cons {sums : List Int} :
    AllInI64 (n :: sums) ↔ InI64 n ∧ AllInI64 sums := List.forall_mem_cons

@[simp] theorem allInI64_append {sums sums' : List Int} :
    AllInI64 (sums ++ sums') ↔ AllInI64 sums ∧ AllInI64 sums' := List.forall_mem_append

/-- A number with a successor and a predecessor: a sequence number, or the 0 before the
first. -/
def Counts (n : Int) : Prop := 0 ≤ n ∧ n < i64Max

theorem Counts.succ (h : Counts n) : InI64 (n + 1) := by
  unfold Counts i64Max at h
  unfold InI64 i64Max
  omega

theorem Counts.pred (h : Counts n) : InI64 (n - 1) := by
  unfold Counts i64Max at h
  unfold InI64 i64Max
  omega

theorem inI64_sub {m : Int} (hm : 0 ≤ m) (hm' : m ≤ i64Max) (hn : 0 ≤ n) (hn' : n ≤ i64Max) :
    InI64 (m - n) := by
  unfold i64Max at hm' hn'
  unfold InI64 i64Max
  omega

/-! ### Runs of changes that are not available -/

namespace NotAvailableRuns

def InBounds (runs : SortedMap Int (Int × NotAvailableKind)) : Prop :=
  ∀ s e k, runs.get? s = some (e, k) → Counts e

variable {runs : SortedMap Int (Int × NotAvailableKind)}

theorem InBounds.erase (h : InBounds runs) (s : Int) : InBounds (runs.erase s) := by
  intro s' e k hget
  rw [SortedMap.get?_erase] at hget
  split at hget
  · cases hget
  · exact h s' e k hget

theorem InBounds.insert (h : InBounds runs) (s : Int) {e : Int} (he : Counts e)
    (k : NotAvailableKind) : InBounds (runs.insert s (e, k)) := by
  intro s' e' k' hget
  rw [SortedMap.get?_insert] at hget
  split at hget
  · obtain ⟨rfl, rfl⟩ := Prod.mk.inj (Option.some.inj hget)
    exact he
  · exact h s' e' k' hget

theorem InBounds.of_mem (h : InBounds runs) {p : Int → Int × NotAvailableKind → Bool} {s e : Int}
    {k : NotAvailableKind} (hmem : (s, (e, k)) ∈ (runs.filter p).entries) : Counts e :=
  h s e k (SortedMap.get?_eq_some.mpr (List.mem_of_mem_filter hmem))

def joinBelowSums (runs : SortedMap Int (Int × NotAvailableKind)) (lo : Int)
    (kind : NotAvailableKind) : List Int :=
  match (runs.filter fun s _ => s ≤ lo).last? with
  | some (_, (e, k)) => if k = kind then [e + 1] else []
  | none => []

def joinAboveSums (runs : SortedMap Int (Int × NotAvailableKind)) (hi : Int)
    (kind : NotAvailableKind) : List Int :=
  (hi + 1) ::
    match (runs.filter fun s _ => hi + 1 ≤ s).first? with
    | some (_, (_, k)) => if k = kind then [hi + 1] else []
    | none => []

def trimSums : Nat → NotAvailableRuns → List Int
  | 0, _ => []
  | fuel + 1, r =>
    if r.runs.size > maxNotAvailableRuns then
      match r.runs.first? with
      | none => []
      | some (s, (e, _)) =>
        (e + 1) :: (if e + 1 > r.horizon then [e + 1] else []) ++
          trimSums fuel ⟨r.runs.erase s, if e + 1 > r.horizon then e + 1 else r.horizon⟩
    else []

def recordSums (r : NotAvailableRuns) (lo hi : Int) (kind : NotAvailableKind) : List Int :=
  if hi < lo then []
  else
    let below := joinBelow r.runs lo hi kind
    let above := joinAbove below.1 below.2.2 kind
    let runs := above.1.insert below.2.1 (above.2, kind)
    joinBelowSums r.runs lo kind ++ joinAboveSums below.1 below.2.2 kind ++
      trimSums runs.size ⟨runs, r.horizon⟩

variable {hi : Int}

theorem joinBelow_bounds (h : InBounds runs) (lo : Int) (hhi : Counts hi)
    (kind : NotAvailableKind) :
    AllInI64 (joinBelowSums runs lo kind) ∧ InBounds (joinBelow runs lo hi kind).1 ∧
      Counts (joinBelow runs lo hi kind).2.2 := by
  unfold joinBelowSums joinBelow
  cases hlast : (runs.filter fun s _ => s ≤ lo).last? with
  | none => exact ⟨allInI64_nil, h, hhi⟩
  | some entry =>
    obtain ⟨s, e, k⟩ := entry
    have he : Counts e := h.of_mem (List.mem_of_getLast? hlast)
    simp only
    refine ⟨?_, ?_⟩
    · split
      · simpa using he.succ
      · exact allInI64_nil
    · split
      · refine ⟨h.erase s, ?_⟩
        rcases le_total hi e with hle | hle
        · rwa [max_eq_right hle]
        · rwa [max_eq_left hle]
      · exact ⟨h, hhi⟩

theorem joinAbove_bounds (h : InBounds runs) (hhi : Counts hi) (kind : NotAvailableKind) :
    AllInI64 (joinAboveSums runs hi kind) ∧ InBounds (joinAbove runs hi kind).1 ∧
      Counts (joinAbove runs hi kind).2 := by
  unfold joinAboveSums joinAbove
  cases hfirst : (runs.filter fun s _ => hi + 1 ≤ s).first? with
  | none => exact ⟨by simpa using hhi.succ, h, hhi⟩
  | some entry =>
    obtain ⟨s, e, k⟩ := entry
    have he : Counts e := h.of_mem (List.mem_of_head? hfirst)
    simp only
    refine ⟨allInI64_cons.mpr ⟨hhi.succ, ?_⟩, ?_⟩
    · split
      · simpa using hhi.succ
      · exact allInI64_nil
    · split
      · exact ⟨h.erase s, he⟩
      · exact ⟨h, hhi⟩

theorem trim_bounds (fuel : Nat) {r : NotAvailableRuns} (h : InBounds r.runs) :
    AllInI64 (trimSums fuel r) ∧ InBounds (trim fuel r).runs := by
  induction fuel generalizing r with
  | zero => exact ⟨allInI64_nil, h⟩
  | succ fuel ih =>
    simp only [trimSums, trim]
    split
    · cases hfirst : r.runs.first? with
      | none => exact ⟨allInI64_nil, h⟩
      | some entry =>
        obtain ⟨s, e, k⟩ := entry
        have he : Counts e := h s e k (SortedMap.get?_eq_some.mpr (List.mem_of_head? hfirst))
        have hrest := ih (r := ⟨r.runs.erase s, if e + 1 > r.horizon then e + 1 else r.horizon⟩)
          (h.erase s)
        refine ⟨?_, hrest.2⟩
        simp only [List.cons_append, allInI64_cons, allInI64_append]
        refine ⟨he.succ, ?_, hrest.1⟩
        split
        · simpa using he.succ
        · exact allInI64_nil
    · exact ⟨allInI64_nil, h⟩

theorem record_bounds {r : NotAvailableRuns} (h : InBounds r.runs) (lo : Int)
    (hhi : hi < lo ∨ Counts hi) (kind : NotAvailableKind) :
    AllInI64 (r.recordSums lo hi kind) ∧ InBounds (r.record lo hi kind).runs := by
  unfold recordSums record
  split
  · exact ⟨allInI64_nil, h⟩
  · next hle =>
    have hcounts : Counts hi := by
      rcases hhi with hlt | hcounts
      · exact absurd hlt hle
      · exact hcounts
    obtain ⟨hbelow, hruns, hend⟩ := joinBelow_bounds h lo hcounts kind
    obtain ⟨habove, hruns', hend'⟩ := joinAbove_bounds hruns hend kind
    have hfinal := hruns'.insert (joinBelow r.runs lo hi kind).2.1 hend' kind
    simp only [allInI64_append]
    exact ⟨⟨⟨hbelow, habove⟩, (trim_bounds _ hfinal).1⟩, (trim_bounds _ hfinal).2⟩

end NotAvailableRuns

namespace WriterProxy

variable {p : WriterProxy}

/-- The record holds no number without a successor; only the first available one may be
`i64Max`. -/
structure InBounds (p : WriterProxy) : Prop where
  first : 1 ≤ p.firstAvailableSn ∧ p.firstAvailableSn ≤ i64Max
  last : Counts p.lastAvailableSn
  known : Counts p.knownUpTo
  received : ∀ n ∈ p.received, 1 ≤ n ∧ Counts n
  irrelevant : ∀ n ∈ p.irrelevant, 1 ≤ n ∧ Counts n
  runs : NotAvailableRuns.InBounds p.notAvailableRuns.runs

def absorbLoopSums : Nat → WriterProxy → List Int
  | 0, p => [p.knownUpTo + 1]
  | fuel + 1, p =>
    let next := p.knownUpTo + 1
    next ::
      if next ∈ p.received ∨ next ∈ p.irrelevant then
        absorbLoopSums fuel { p with
          received := p.received.erase next
          irrelevant := p.irrelevant.erase next
          knownUpTo := next }
      else []

def absorbSums (p : WriterProxy) : List Int :=
  absorbLoopSums (p.received.card + p.irrelevant.card) p

def markKnownSums (p : WriterProxy) (sn : Int) : List Int :=
  (p.knownUpTo + 1) :: if sn = p.knownUpTo + 1 then absorbSums { p with knownUpTo := sn } else []

def firstUnknownCandidateSums (p : WriterProxy) : List Int := [p.knownUpTo + 1]

def unknownBeforeSums (p : WriterProxy) (stop : Int) : List Int :=
  p.firstUnknownCandidateSums ++
    if stop ≤ p.firstUnknownCandidate then [] else [stop - p.firstUnknownCandidate]

def recordStretchesSums (p : WriterProxy) (stop : Int) : Int → List Int → List Int
  | cursor, [] => (stop - 1) :: p.notAvailableRuns.recordSums cursor (stop - 1) .removed
  | cursor, k :: ks =>
    (k - 1) :: p.notAvailableRuns.recordSums cursor (k - 1) .removed ++ (k + 1) ::
      recordStretchesSums (p.recordNotAvailable cursor (k - 1) .removed) stop (k + 1) ks

def recordUnknownAsRemovedSums (p : WriterProxy) (stop : Int) : List Int :=
  p.firstUnknownCandidateSums ++
    if stop ≤ p.firstUnknownCandidate then []
    else
      recordStretchesSums p stop p.firstUnknownCandidate
        ((Int.range p.firstUnknownCandidate stop).filter fun sn =>
          sn ∈ p.received ∨ sn ∈ p.irrelevant)

def lostChangesUpdateSums (p : WriterProxy) (first : Int) : List Int :=
  if first ≤ p.firstAvailableSn then []
  else
    let lost := p.unknownBefore first
    let q := p.recordUnknownAsRemoved first
    let q := { q with
      notAvailable := q.notAvailable.add .removed lost
      firstAvailableSn := first
      received := q.received.filter fun sn => first ≤ sn
      irrelevant := q.irrelevant.filter fun sn => first ≤ sn
      knownUpTo := if q.knownUpTo < first - 1 then first - 1 else q.knownUpTo }
    p.unknownBeforeSums first ++ p.recordUnknownAsRemovedSums first ++ (first - 1) :: q.absorbSums

def receivedChangeSetSums (p : WriterProxy) (sn : Int) : List Int :=
  if sn < p.firstAvailableSn then [] else p.markKnownSums sn

def unreceiveChangeSetSums (p : WriterProxy) (sn : Int) : List Int :=
  if sn < p.firstAvailableSn then []
  else if sn ≤ p.knownUpTo then
    (sn + 1) :: (Int.range (sn + 1) (p.knownUpTo + 1)).map (· + 1) ++ [sn - 1]
  else []

def irrelevantChangeSetSums (p : WriterProxy) (sn : Int) : List Int :=
  if sn < p.firstAvailableSn then [] else p.markKnownSums sn

def notAvailableChangeSetSums (p : WriterProxy) (sn : Int) (kind : NotAvailableKind) :
    List Int :=
  if sn < p.firstAvailableSn then []
  else if p.isKnown sn then p.markKnownSums sn
  else
    p.notAvailableRuns.recordSums sn sn kind ++
      ({ p with notAvailable := p.notAvailable.add kind 1 }.recordNotAvailable sn sn
        kind).markKnownSums sn

def missingLoopSums (p : WriterProxy) : Nat → Int → Nat → List Int
  | 0, _, _ => []
  | fuel + 1, sn, left =>
    if sn ≤ p.lastAvailableSn ∧ 0 < left then
      (sn + 1) :: missingLoopSums p fuel (sn + 1) (if p.isKnown sn then left else left - 1)
    else []

def missingChangesSums (p : WriterProxy) (maxCount : Nat) : List Int :=
  if p.lastAvailableSn < p.firstAvailableSn then []
  else
    p.firstUnknownCandidateSums ++
      p.missingLoopSums (p.lastAvailableSn + 1 - p.firstUnknownCandidate).toNat
        p.firstUnknownCandidate maxCount

def acknackLoopSums (p : WriterProxy) : Nat → Int → List Int
  | 0, _ => [p.lastAvailableSn + 1]
  | fuel + 1, sn =>
    if sn ≤ p.lastAvailableSn then
      if p.isKnown sn then (sn + 1) :: acknackLoopSums p fuel (sn + 1) else []
    else [p.lastAvailableSn + 1]

def acknackBaseSums (p : WriterProxy) : List Int :=
  p.firstUnknownCandidateSums ++
    p.acknackLoopSums (p.lastAvailableSn + 1 - p.firstUnknownCandidate).toNat
      p.firstUnknownCandidate

theorem absorbLoop_bounds (fuel : Nat) (h : p.InBounds) :
    AllInI64 (absorbLoopSums fuel p) ∧ (absorbLoop fuel p).InBounds := by
  induction fuel generalizing p with
  | zero => exact ⟨by simpa [absorbLoopSums] using h.known.succ, h⟩
  | succ fuel ih =>
    simp only [absorbLoopSums, absorbLoop]
    split
    · next hnext =>
      have hcounts : Counts (p.knownUpTo + 1) := by
        rcases hnext with hr | hi
        · exact (h.received _ hr).2
        · exact (h.irrelevant _ hi).2
      have hbounds : InBounds { p with
          received := p.received.erase (p.knownUpTo + 1)
          irrelevant := p.irrelevant.erase (p.knownUpTo + 1)
          knownUpTo := p.knownUpTo + 1 } :=
        ⟨h.first, h.last, hcounts, fun n hn => h.received n (Finset.mem_of_mem_erase hn),
          fun n hn => h.irrelevant n (Finset.mem_of_mem_erase hn), h.runs⟩
      exact ⟨allInI64_cons.mpr ⟨h.known.succ, (ih hbounds).1⟩, (ih hbounds).2⟩
    · exact ⟨by simpa using h.known.succ, h⟩

theorem absorb_bounds (h : p.InBounds) : AllInI64 p.absorbSums ∧ p.absorb.InBounds :=
  absorbLoop_bounds _ h

variable {sn : Int}

theorem markKnown_bounds (h : p.InBounds) (hsn : 1 ≤ sn ∧ Counts sn) (b : Bool) :
    AllInI64 (p.markKnownSums sn) ∧ (p.markKnown sn b).InBounds := by
  have habsorb := absorb_bounds (p := { p with knownUpTo := sn })
    ⟨h.first, h.last, hsn.2, h.received, h.irrelevant, h.runs⟩
  simp only [markKnownSums, markKnown, allInI64_cons]
  refine ⟨⟨h.known.succ, ?_⟩, ?_⟩
  · split
    · exact habsorb.1
    · exact allInI64_nil
  · split
    · exact habsorb.2
    · split
      · split
        · refine ⟨h.first, h.last, h.known, fun n hn => ?_, h.irrelevant, h.runs⟩
          rcases Finset.mem_insert.mp hn with rfl | hn
          · exact hsn
          · exact h.received n hn
        · refine ⟨h.first, h.last, h.known, h.received, fun n hn => ?_, h.runs⟩
          rcases Finset.mem_insert.mp hn with rfl | hn
          · exact hsn
          · exact h.irrelevant n hn
      · exact h

theorem recordNotAvailable_bounds (h : p.InBounds) (lo : Int) {hi : Int}
    (hhi : hi < lo ∨ Counts hi) (kind : NotAvailableKind) :
    AllInI64 (p.notAvailableRuns.recordSums lo hi kind) ∧
      (p.recordNotAvailable lo hi kind).InBounds := by
  obtain ⟨hsums, hruns⟩ := NotAvailableRuns.record_bounds h.runs lo hhi kind
  exact ⟨hsums, h.first, h.last, h.known, h.received, h.irrelevant, hruns⟩

theorem candidate_bounds (h : p.InBounds) :
    1 ≤ p.firstUnknownCandidate ∧ p.firstUnknownCandidate ≤ i64Max := by
  have hfirst := h.first
  have hknown := h.known
  unfold Counts at hknown
  unfold firstUnknownCandidate
  split <;> omega

theorem candidateSums_bounds (h : p.InBounds) : AllInI64 p.firstUnknownCandidateSums := by
  simpa [firstUnknownCandidateSums] using h.known.succ

theorem counts_pred (h : 1 ≤ n) (h' : n ≤ i64Max) : Counts (n - 1) := by
  unfold Counts
  omega

section

variable (h : p.InBounds)
include h

theorem recordStretches_bounds {stop : Int} (hstop : 1 ≤ stop ∧ stop ≤ i64Max)
    (cursor : Int) {ks : List Int} (hks : ∀ k ∈ ks, 1 ≤ k ∧ Counts k) :
    AllInI64 (recordStretchesSums p stop cursor ks) ∧
      (recordStretches p stop cursor ks).InBounds := by
  induction ks generalizing p cursor with
  | nil =>
    have hlast := counts_pred hstop.1 hstop.2
    obtain ⟨hsums, hbounds⟩ := recordNotAvailable_bounds h cursor (.inr hlast) .removed
    refine ⟨?_, hbounds⟩
    rw [recordStretchesSums, allInI64_cons]
    exact ⟨inI64_sub (by omega) hstop.2 (by omega) (by decide), hsums⟩
  | cons k ks ih =>
    obtain ⟨hk, hcounts⟩ := hks k List.mem_cons_self
    have hpred : Counts (k - 1) := counts_pred hk (by unfold Counts at hcounts; omega)
    obtain ⟨hsums, hbounds⟩ := recordNotAvailable_bounds h cursor (.inr hpred) .removed
    obtain ⟨hrest, hdone⟩ := ih hbounds (k + 1) fun k hk => hks k (List.mem_cons_of_mem _ hk)
    refine ⟨?_, hdone⟩
    rw [recordStretchesSums]
    simp only [List.cons_append, allInI64_cons, allInI64_append]
    exact ⟨hcounts.pred, hsums, hcounts.succ, hrest⟩

theorem recordUnknownAsRemoved_bounds {stop : Int} (hstop : stop ≤ i64Max) :
    AllInI64 (p.recordUnknownAsRemovedSums stop) ∧ (p.recordUnknownAsRemoved stop).InBounds := by
  have hcandidate := candidate_bounds h
  simp only [recordUnknownAsRemovedSums, recordUnknownAsRemoved, allInI64_append]
  split
  · exact ⟨⟨candidateSums_bounds h, allInI64_nil⟩, h⟩
  · next hlt =>
    have hknown : ∀ k ∈ (Int.range p.firstUnknownCandidate stop).filter fun sn =>
        sn ∈ p.received ∨ sn ∈ p.irrelevant, 1 ≤ k ∧ Counts k := by
      intro k hk
      rcases of_decide_eq_true (List.mem_filter.mp hk).2 with hr | hi
      · exact h.received k hr
      · exact h.irrelevant k hi
    obtain ⟨hsums, hbounds⟩ :=
      recordStretches_bounds h ⟨by omega, hstop⟩ p.firstUnknownCandidate hknown
    exact ⟨⟨candidateSums_bounds h, hsums⟩, hbounds⟩

theorem lostChangesUpdate_bounds {first : Int} (hfirst : first ≤ i64Max) :
    AllInI64 (p.lostChangesUpdateSums first) ∧ (p.lostChangesUpdate first).1.InBounds := by
  unfold lostChangesUpdateSums lostChangesUpdate
  split
  · exact ⟨allInI64_nil, h⟩
  · next hlt =>
    have hone := h.first
    have hcandidate := candidate_bounds h
    obtain ⟨hrecord, hq⟩ := recordUnknownAsRemoved_bounds h hfirst
    have hfloor : Counts (first - 1) := counts_pred (by omega) hfirst
    have hcut : InBounds { p.recordUnknownAsRemoved first with
        notAvailable := (p.recordUnknownAsRemoved first).notAvailable.add .removed
          (p.unknownBefore first)
        firstAvailableSn := first
        received := (p.recordUnknownAsRemoved first).received.filter fun sn => first ≤ sn
        irrelevant := (p.recordUnknownAsRemoved first).irrelevant.filter fun sn => first ≤ sn
        knownUpTo := if (p.recordUnknownAsRemoved first).knownUpTo < first - 1 then first - 1
          else (p.recordUnknownAsRemoved first).knownUpTo } := by
      refine ⟨⟨by simp only; omega, hfirst⟩, hq.last, ?_,
        fun n hn => hq.received n (Finset.mem_of_mem_filter n hn),
        fun n hn => hq.irrelevant n (Finset.mem_of_mem_filter n hn), hq.runs⟩
      split
      · exact hfloor
      · exact hq.known
    obtain ⟨habsorb, hdone⟩ := absorb_bounds hcut
    refine ⟨?_, hdone⟩
    simp only [allInI64_append, allInI64_cons]
    refine ⟨⟨?_, hrecord⟩, ?_, habsorb⟩
    · refine allInI64_append.mpr ⟨candidateSums_bounds h, ?_⟩
      split
      · exact allInI64_nil
      · refine allInI64_cons.mpr ⟨?_, allInI64_nil⟩
        exact inI64_sub (by omega) hfirst (by omega) hcandidate.2
    · exact inI64_sub (by omega) hfirst (by omega) (by decide)

theorem updateFromHeartbeat_bounds {first last : Int} (hfirst : first ≤ i64Max)
    (hlast : last < i64Max) :
    AllInI64 (p.lostChangesUpdateSums first) ∧ (p.updateFromHeartbeat first last).1.InBounds := by
  obtain ⟨hsums, hq⟩ := lostChangesUpdate_bounds h hfirst
  refine ⟨hsums, hq.first, ?_, hq.known, hq.received, hq.irrelevant, hq.runs⟩
  have := hq.last
  unfold Counts at this
  show Counts (if last > (p.lostChangesUpdate first).1.lastAvailableSn then last
    else (p.lostChangesUpdate first).1.lastAvailableSn)
  unfold Counts
  split <;> omega

section

variable (hsn : 1 ≤ sn ∧ Counts sn)
include hsn

theorem receivedChangeSet_bounds :
    AllInI64 (p.receivedChangeSetSums sn) ∧ (p.receivedChangeSet sn).InBounds := by
  unfold receivedChangeSetSums receivedChangeSet
  split
  · exact ⟨allInI64_nil, h⟩
  · obtain ⟨hsums, hq⟩ := markKnown_bounds h hsn true
    exact ⟨hsums, hq.first, hq.last, hq.known, hq.received, hq.irrelevant, hq.runs⟩

theorem irrelevantChangeSet_bounds :
    AllInI64 (p.irrelevantChangeSetSums sn) ∧ (p.irrelevantChangeSet sn).InBounds := by
  unfold irrelevantChangeSetSums irrelevantChangeSet
  split
  · exact ⟨allInI64_nil, h⟩
  · exact markKnown_bounds h hsn false

theorem notAvailableChangeSet_bounds (kind : NotAvailableKind) :
    AllInI64 (p.notAvailableChangeSetSums sn kind) ∧
    (p.notAvailableChangeSet sn kind).InBounds := by
  unfold notAvailableChangeSetSums notAvailableChangeSet
  split
  · exact ⟨allInI64_nil, h⟩
  · split
    · exact markKnown_bounds h hsn false
    · obtain ⟨hrecord, hq⟩ := recordNotAvailable_bounds (p := { p with
          notAvailable := p.notAvailable.add kind 1 })
        ⟨h.first, h.last, h.known, h.received, h.irrelevant, h.runs⟩ sn (.inr hsn.2) kind
      obtain ⟨hmark, hdone⟩ := markKnown_bounds hq hsn false
      exact ⟨allInI64_append.mpr ⟨hrecord, hmark⟩, hdone⟩

end

theorem unreceiveChangeSet_bounds (sn : Int) :
    AllInI64 (p.unreceiveChangeSetSums sn) ∧ (p.unreceiveChangeSet sn).InBounds := by
  have hfirst := h.first
  have hknown := h.known
  unfold Counts at hknown
  unfold unreceiveChangeSetSums unreceiveChangeSet
  split
  · exact ⟨allInI64_nil, h⟩
  · split
    · have hsn : Counts sn := by
        unfold Counts
        omega
      have hrun : ∀ n ∈ Int.range (sn + 1) (p.knownUpTo + 1), 1 ≤ n ∧ Counts n := by
        intro n hn
        have := Int.mem_range_iff.mp hn
        unfold Counts
        omega
      refine ⟨?_, h.first, h.last, ?_, fun n hn => ?_, h.irrelevant, h.runs⟩
      · simp only [List.cons_append, allInI64_cons, allInI64_append]
        refine ⟨hsn.succ, fun n hn => ?_, hsn.pred, allInI64_nil⟩
        obtain ⟨m, hm, rfl⟩ := List.mem_map.mp hn
        exact (hrun m hm).2.succ
      · show Counts (sn - 1)
        unfold Counts
        omega
      · rcases Finset.mem_union.mp hn with hr | hr
        · exact h.received n hr
        · exact hrun n (List.mem_toFinset.mp hr)
    · exact ⟨allInI64_nil, h.first, h.last, h.known,
        fun n hn => h.received n (Finset.mem_of_mem_erase hn),
        fun n hn => h.irrelevant n (Finset.mem_of_mem_erase hn), h.runs⟩

theorem missingLoopSums_bounds (fuel : Nat) (hsn : 1 ≤ sn) (left : Nat) :
    AllInI64 (p.missingLoopSums fuel sn left) := by
  have hlast := h.last
  unfold Counts at hlast
  induction fuel generalizing sn left with
  | zero => exact allInI64_nil
  | succ fuel ih =>
    rw [missingLoopSums]
    split
    · next hin =>
      refine allInI64_cons.mpr ⟨Counts.succ ?_, ih (by omega) _⟩
      unfold Counts
      omega
    · exact allInI64_nil

theorem missingChangesSums_bounds (maxCount : Nat) :
    AllInI64 (p.missingChangesSums maxCount) := by
  unfold missingChangesSums
  split
  · exact allInI64_nil
  · exact allInI64_append.mpr ⟨candidateSums_bounds h,
      missingLoopSums_bounds h _ (candidate_bounds h).1 _⟩

theorem acknackLoopSums_bounds (fuel : Nat) (hsn : 1 ≤ sn) :
    AllInI64 (p.acknackLoopSums fuel sn) := by
  have hlast := h.last
  have hend : AllInI64 [p.lastAvailableSn + 1] := by simpa using hlast.succ
  unfold Counts at hlast
  induction fuel generalizing sn with
  | zero => exact hend
  | succ fuel ih =>
    rw [acknackLoopSums]
    split
    · split
      · refine allInI64_cons.mpr ⟨Counts.succ ?_, ih (by omega)⟩
        unfold Counts
        omega
      · exact allInI64_nil
    · exact hend

theorem acknackBaseSums_bounds : AllInI64 p.acknackBaseSums :=
  allInI64_append.mpr ⟨candidateSums_bounds h, acknackLoopSums_bounds h _ (candidate_bounds h).1⟩

end

end WriterProxy
end ZeroDds.Rtps
