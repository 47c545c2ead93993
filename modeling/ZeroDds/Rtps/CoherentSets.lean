/-
The verdict on a coherent set.
-/
import ZeroDds.Rtps.DeliveryOrder

namespace ZeroDds.Rtps

def HandOut.MemberOf (f : Int) (x : HandOut) : Prop :=
  x.change.coherentSetEnd = false ∧ x.change.coherentSetSn = some f

/-- Every number from `f` up to `e` is irrelevant or was handed out as a member of
the set. -/
def Whole (irrelevant : Int → Prop) (xs : List HandOut) (f e : Int) : Prop :=
  ∀ n, f ≤ n → n < e → irrelevant n ∨ ∃ x ∈ xs, x.MemberOf f ∧ x.sn = n

/-- A change that follows the rules of a set: no group information, and a member
names a first change that is not behind it and not irrelevant. -/
def WellSet (irrelevant : Int → Prop) (c : CacheChange) : Prop :=
  c.group = none ∧ (c.coherentSetEnd = false → ∀ f, c.coherentSetSn = some f →
    f ≤ c.sequenceNumber ∧ ¬irrelevant f)

variable {x : HandOut} {xs : List HandOut} {f : Int}

theorem whole_snoc {irrelevant : Int → Prop} (hx : x.MemberOf f) :
    Whole irrelevant (xs ++ [x]) f (x.sn + 1) ↔ Whole irrelevant xs f x.sn := by
  constructor
  · intro hw n hn hlt
    refine (hw n hn (by omega)).imp_right fun ⟨z, hz, hmember, hsn⟩ => ⟨z, ?_, hmember, hsn⟩
    rcases List.mem_append.mp hz with hz | hz
    · exact hz
    · rw [List.mem_singleton.mp hz] at hsn
      omega
  · intro hw n hn hlt
    by_cases heq : n = x.sn
    · exact .inr ⟨x, by simp, hx, heq.symm⟩
    · exact (hw n hn (by omega)).imp_right fun ⟨z, hz, h⟩ => ⟨z, by simp [hz], h⟩

namespace CoherentTrack

variable {c : CacheChange}

theorem follow_same {k : Int} (hgroup : c.group = none) (hend : c.coherentSetEnd = false)
    (hset : c.coherentSetSn = some f) : follow (some ⟨f, k⟩) c = (some ⟨f, k + 1⟩, none) := by
  simp [follow, hgroup, hend, hset]

theorem follow_other {tracked : Option CoherentTrack} (hgroup : c.group = none)
    (hother : ∀ t, tracked = some t → c.coherentSetEnd = false → c.coherentSetSn ≠ some t.first) :
    follow tracked c =
      (if c.coherentSetEnd then none else c.coherentSetSn.map fun first => ⟨first, 1⟩,
        tracked.map fun t => t.completeBefore c.sequenceNumber) := by
  unfold follow
  simp only [hgroup, Option.isSome_none, Bool.false_eq_true, if_false]
  split
  · rfl
  · next hend =>
    split
    · next t first hset =>
      have hne : ¬t.first = first := fun heq =>
        hother t rfl (Bool.eq_false_iff.mpr hend) (heq ▸ hset)
      simp [hne, hset]
    · rfl

end CoherentTrack

namespace Stream

/-- The count of the open set, what has been handed out and what is irrelevant
belong together. -/
structure Traced (irrelevant : Int → Prop) (xs : List HandOut) (s : Stream) : Prop where
  first : 1 ≤ s.first
  ordered : Ordered 0 xs s
  changes : AllChanges (WellSet irrelevant) xs s
  known : ∀ n, n ∈ s.known → s.delivered < n → s.held n ≠ none ∨ irrelevant n
  passed : ∀ n, s.first ≤ n → n ≤ s.delivered → irrelevant n ∨ n ∈ xs.map HandOut.sn
  coming : ∀ n, irrelevant n → s.delivered < n → s.first ≤ n ∧ n ∈ s.known ∧ s.held n = none
  apart : ∀ n, irrelevant n → n ∉ xs.map HandOut.sn
  opened : ∀ y f, xs.getLast? = some y → y.MemberOf f → ∃ k, s.track = some ⟨f, k⟩
  track : ∀ f k, s.track = some ⟨f, k⟩ →
    (∃ y, xs.getLast? = some y ∧ y.MemberOf f) ∧ f ≤ s.delivered ∧ k ≤ s.delivered + 1 - f ∧
      (k = s.delivered + 1 - f ↔ Whole irrelevant xs f (s.delivered + 1))
  verdict : ∀ pre y x post f, xs = pre ++ y :: x :: post → y.MemberOf f → ¬x.MemberOf f →
    ∃ b, x.ended = some b ∧ (b = true ↔ Whole irrelevant (pre ++ [y]) f x.sn)

variable {irrelevant : Int → Prop} {xs : List HandOut} {s t : Stream} {f e k : Int}

theorem Traced.not_whole (h : Traced irrelevant xs s) (hf : f ≤ s.delivered + 1)
    (he : s.delivered + 1 < e) (hnot : ¬irrelevant (s.delivered + 1)) :
    ¬Whole irrelevant xs f e := by
  intro hw
  rcases hw (s.delivered + 1) hf he with h' | ⟨x, hx, -, hsn⟩
  · exact hnot h'
  · have := (h.ordered.range x hx).2
    omega

theorem Traced.completeBefore_iff (h : Traced irrelevant xs s) (htrack : s.track = some ⟨f, k⟩)
    (he : s.delivered < e) (hgap : e = s.delivered + 1 ∨ ¬irrelevant (s.delivered + 1)) :
    CoherentTrack.completeBefore ⟨f, k⟩ e = true ↔ Whole irrelevant xs f e := by
  obtain ⟨-, hf, hle, hiff⟩ := h.track f k htrack
  rw [CoherentTrack.completeBefore, decide_eq_true_iff]
  by_cases heq : e = s.delivered + 1
  · rw [heq]
    exact hiff
  · have hnot := h.not_whole (f := f) (e := e) (by omega) (by omega) (hgap.resolve_left heq)
    exact ⟨fun hk => by simp only at hk; omega, fun hw => absurd hw hnot⟩

theorem Traced.whole_of_new (h : Traced irrelevant xs s) (hx : s.delivered < x.sn)
    (hset : WellSet irrelevant x.change) (hmember : x.MemberOf f)
    (hnew : ∀ k, s.track ≠ some ⟨f, k⟩) :
    (1 = x.sn + 1 - f ↔ Whole irrelevant (xs ++ [x]) f (x.sn + 1)) := by
  obtain ⟨hle, hnot⟩ := hset.2 hmember.1 f hmember.2
  have hle : f ≤ x.sn := hle
  constructor
  · intro heq n hn hlt
    exact .inr ⟨x, by simp, hmember, by omega⟩
  · intro hw
    by_contra hne
    rcases hw f (le_refl f) (by omega) with h' | ⟨z, hz, hzmem, hzsn⟩
    · exact hnot h'
    rcases List.mem_append.mp hz with hz | hz
    swap
    · rw [List.mem_singleton.mp hz] at hzsn
      omega
    -- the set was open before: the change that closed it is neither a member nor irrelevant
    obtain ⟨y, hy⟩ : ∃ y, xs.getLast? = some y := by
      cases hlast : xs.getLast? with
      | none => rw [List.getLast?_eq_none_iff.mp hlast] at hz; cases hz
      | some y => exact ⟨y, rfl⟩
    have hynot : ¬y.MemberOf f := fun hm => by
      obtain ⟨k, hk⟩ := h.opened y f hy hm
      exact hnew k hk
    have hymem : y ∈ xs := List.mem_of_getLast? hy
    have hysn := (h.ordered.range y hymem).2
    have hsorted : ∀ z ∈ xs, z.sn ≤ y.sn := by
      obtain ⟨init, rfl⟩ := List.getLast?_eq_some_iff.mp hy
      intro z hz
      rcases List.mem_append.mp hz with hz | hz
      · have hsort := h.ordered.sorted
        rw [List.map_append, List.pairwise_append] at hsort
        exact le_of_lt (hsort.2.2 _ (List.mem_map_of_mem hz) _ (by simp))
      · rw [List.mem_singleton.mp hz]
    have hfy := hsorted z hz
    rcases hw y.sn (by omega) (by omega) with h' | ⟨v, hv, hvmem, hvsn⟩
    · exact h.apart _ h' (List.mem_map_of_mem hymem)
    · rcases List.mem_append.mp hv with hv | hv
      · have hnodup : (xs.map HandOut.sn).Nodup := h.ordered.sorted.imp ne_of_lt
        exact hynot (List.inj_on_of_nodup_map hnodup hv hymem hvsn ▸ hvmem)
      · rw [List.mem_singleton.mp hv] at hvsn
        omega

def handing (s : Stream) (c : CacheChange) : HandOut := ⟨c, (CoherentTrack.follow s.track c).2⟩

theorem handing_cases (s : Stream) {c : CacheChange} (hgroup : c.group = none) :
    (∃ f k, s.track = some ⟨f, k⟩ ∧ (s.handing c).MemberOf f ∧
      CoherentTrack.follow s.track c = (some ⟨f, k + 1⟩, none)) ∨
    ((∀ f k, s.track = some ⟨f, k⟩ → ¬(s.handing c).MemberOf f) ∧
      (∀ f k, (CoherentTrack.follow s.track c).1 = some ⟨f, k⟩ ↔
        (s.handing c).MemberOf f ∧ k = 1) ∧
      (s.handing c).ended = s.track.map fun t => t.completeBefore c.sequenceNumber) := by
  by_cases hsame : ∃ f k, s.track = some ⟨f, k⟩ ∧ (s.handing c).MemberOf f
  · obtain ⟨f, k, hopen, hmember⟩ := hsame
    refine .inl ⟨f, k, hopen, hmember, ?_⟩
    rw [hopen]
    exact CoherentTrack.follow_same hgroup hmember.1 hmember.2
  · have hother : ∀ f k, s.track = some ⟨f, k⟩ → ¬(s.handing c).MemberOf f :=
      fun f k hopen hmember => hsame ⟨f, k, hopen, hmember⟩
    have hfollow := CoherentTrack.follow_other hgroup
      fun t (ht : s.track = some t) hend hset => hother t.first t.counted ht ⟨hend, hset⟩
    refine .inr ⟨hother, fun f k => ?_, by rw [handing, hfollow]⟩
    rw [hfollow]
    simp only [HandOut.MemberOf, handing]
    cases c.coherentSetEnd <;> cases c.coherentSetSn <;> simp [eq_comm]

/-- What a hand-out needs: the change follows everything handed out, and what lies
between is not irrelevant. -/
structure Ready (irrelevant : Int → Prop) (s : Stream) (c : CacheChange) : Prop where
  lt : s.delivered < c.sequenceNumber
  set : WellSet irrelevant c
  gap : c.sequenceNumber = s.delivered + 1 ∨ ¬irrelevant (s.delivered + 1)

variable {c : CacheChange} {y : HandOut}

theorem Traced.opened_hand (_ : Traced irrelevant xs s) (hc : Ready irrelevant s c)
    (hy : (xs ++ [s.handing c]).getLast? = some y) (hmember : y.MemberOf f) :
    ∃ k, (CoherentTrack.follow s.track c).1 = some ⟨f, k⟩ := by
  obtain rfl : s.handing c = y := by simpa using hy
  rcases s.handing_cases hc.set.1 with ⟨f', k, -, hmember', hfollow⟩ | ⟨-, hfollow, -⟩
  · obtain rfl : f' = f := Option.some.inj (hmember'.2.symm.trans hmember.2)
    exact ⟨k + 1, by rw [hfollow]⟩
  · exact ⟨1, (hfollow f 1).mpr ⟨hmember, rfl⟩⟩

section

variable (h : Traced irrelevant xs s)
include h

theorem Traced.track_hand (hc : Ready irrelevant s c)
    (htrack : (CoherentTrack.follow s.track c).1 = some ⟨f, k⟩) :
    (∃ y, (xs ++ [s.handing c]).getLast? = some y ∧ y.MemberOf f) ∧ f ≤ c.sequenceNumber ∧
      k ≤ c.sequenceNumber + 1 - f ∧
      (k = c.sequenceNumber + 1 - f ↔
        Whole irrelevant (xs ++ [s.handing c]) f (c.sequenceNumber + 1)) := by
  have hlast : (xs ++ [s.handing c]).getLast? = some (s.handing c) := by simp
  have hlt := hc.lt
  rcases s.handing_cases hc.set.1 with ⟨f', k', hopen, hmember, hfollow⟩ | ⟨hother, hfollow, -⟩
  · -- one more member of the open set
    rw [hfollow] at htrack
    obtain ⟨rfl, rfl⟩ : f' = f ∧ k' + 1 = k := by simpa using htrack
    obtain ⟨-, hf, hle, hiff⟩ := h.track f' k' hopen
    refine ⟨⟨_, hlast, hmember⟩, by omega, by omega, ?_⟩
    have hwhole : Whole irrelevant (xs ++ [s.handing c]) f' (c.sequenceNumber + 1) ↔
        Whole irrelevant xs f' c.sequenceNumber := whole_snoc hmember
    rw [hwhole, ← h.completeBefore_iff hopen hlt hc.gap, CoherentTrack.completeBefore,
      decide_eq_true_iff]
    simp only
    omega
  · obtain ⟨hmember, rfl⟩ := (hfollow f k).mp htrack
    have hle : f ≤ c.sequenceNumber := (hc.set.2 hmember.1 f hmember.2).1
    exact ⟨⟨_, hlast, hmember⟩, hle, by omega,
      h.whole_of_new (x := s.handing c) hlt hc.set hmember fun k' hopen =>
      hother f k' hopen hmember⟩

theorem Traced.verdict_hand (hc : Ready irrelevant s c)
    {pre post : List HandOut} {z : HandOut} (hsplit : xs ++ [s.handing c] = pre ++ y :: z :: post)
    (hy : y.MemberOf f) (hz : ¬z.MemberOf f) :
    ∃ b, z.ended = some b ∧ (b = true ↔ Whole irrelevant (pre ++ [y]) f z.sn) := by
  rcases List.eq_nil_or_concat post with rfl | ⟨post', v, rfl⟩
  · rw [show pre ++ [y, z] = (pre ++ [y]) ++ [z] by simp] at hsplit
    obtain ⟨hxs, hx⟩ := List.append_inj' hsplit rfl
    obtain rfl : s.handing c = z := by simpa using hx
    obtain ⟨k, hopen⟩ := h.opened y f (by simp [hxs]) hy
    rcases s.handing_cases hc.set.1 with ⟨f', k', hopen', hmember, -⟩ | ⟨-, -, hended⟩
    · obtain ⟨rfl, -⟩ : f = f' ∧ k = k' := by simpa using hopen.symm.trans hopen'
      exact absurd hmember hz
    · refine ⟨_, by rw [hended, hopen, Option.map_some], ?_⟩
      rw [← hxs]
      exact h.completeBefore_iff hopen hc.lt hc.gap
  · rw [List.concat_eq_append,
      show pre ++ y :: z :: (post' ++ [v]) = (pre ++ y :: z :: post') ++ [v] by simp] at hsplit
    obtain ⟨hxs, -⟩ := List.append_inj' hsplit rfl
    exact h.verdict pre y z post' f hxs hy hz

theorem Traced.pass (hfirst : s.first ≤ t.first)
    (hdel : s.delivered < t.delivered) (hheld : t.held = s.held)
    (hbehind : ∀ n, t.held n ≠ none → t.delivered < n) (hsub : ∀ n, n ∈ t.known → n ∈ s.known)
    (hkeep : ∀ n, n ∈ s.known → t.first ≤ n → n ∈ t.known)
    (hfloor : ∀ n, irrelevant n → t.delivered < n → t.first ≤ n)
    (hpassed : ∀ n, s.delivered < n → n ≤ t.delivered → t.first ≤ n → irrelevant n)
    (htrack : ∀ f k, s.track = some ⟨f, k⟩ → ∃ k', t.track = some ⟨f, k'⟩ ∧
      k' ≤ t.delivered + 1 - f ∧
      (k' = t.delivered + 1 - f ↔ Whole irrelevant xs f (t.delivered + 1)))
    (hnone : s.track = none → t.track = none) : Traced irrelevant (xs ++ []) t := by
  have hordered := h.ordered.pass (le_of_lt hdel) hbehind
  rw [List.append_nil] at hordered ⊢
  refine ⟨h.first.trans hfirst, hordered, ⟨h.changes.1, hheld ▸ h.changes.2⟩, ?_, ?_, ?_, h.apart,
    ?_, ?_, h.verdict⟩
  · intro n hn hlt
    rw [hheld]
    exact h.known n (hsub n hn) (hdel.trans hlt)
  · intro n hn hle
    by_cases hold : n ≤ s.delivered
    · exact h.passed n (hfirst.trans hn) hold
    · exact .inl (hpassed n (not_le.mp hold) hle hn)
  · intro n hn hlt
    obtain ⟨-, hknown, hfree⟩ := h.coming n hn (hdel.trans hlt)
    have hge := hfloor n hn hlt
    exact ⟨hge, hkeep n hknown hge, hheld ▸ hfree⟩
  · intro y f hy hmember
    obtain ⟨k, hk⟩ := h.opened y f hy hmember
    obtain ⟨k', hk', -⟩ := htrack f k hk
    exact ⟨k', hk'⟩
  · intro f k hk
    cases hopen : s.track with
    | none => rw [hnone hopen] at hk; cases hk
    | some tr =>
      obtain ⟨f₀, k₀⟩ := tr
      obtain ⟨hlast, hf, -, -⟩ := h.track f₀ k₀ hopen
      obtain ⟨k', hk', hle, hiff⟩ := htrack f₀ k₀ hopen
      obtain ⟨rfl, rfl⟩ : f₀ = f ∧ k' = k := by simpa using hk'.symm.trans hk
      exact ⟨hlast, by omega, hle, hiff⟩

theorem Traced.track_missing (hnot : ¬irrelevant (s.delivered + 1))
    (hopen : s.track = some ⟨f, k⟩) (he : s.delivered + 1 < e) :
    k ≤ e - f ∧ (k = e - f ↔ Whole irrelevant xs f e) := by
  obtain ⟨-, hf, hle, -⟩ := h.track f k hopen
  exact ⟨by omega, fun hk => by omega,
    fun hw => absurd hw (h.not_whole (by omega) he hnot)⟩

end

variable {be : Bool} {out : List HandOut}

theorem Traced.turn (h : Traced irrelevant xs s) (hturn : Turn be s out t) :
    Traced irrelevant (xs ++ out) t := by
  have hordered := hturn.ordered h.ordered
  have hchanges := hturn.allChanges h.changes
  cases hturn with
  | @cached c hget hsn =>
    have hready : Ready irrelevant s c :=
      ⟨by omega, h.changes.2 _ c hget, .inl hsn⟩
    have hnext : ¬irrelevant (s.delivered + 1) := fun hirr => by
      have hnone := (h.coming _ hirr (by omega)).2.2
      rw [hget] at hnone
      cases hnone
    have hheld : ∀ n, c.sequenceNumber < n →
        (if s.delivered + 1 < n then s.held n else none) = s.held n := fun n hn => by
      rw [if_pos (by omega)]
    refine ⟨h.first, hordered, hchanges, ?_, ?_, ?_, ?_, ?_, ?_, ?_⟩
    · intro n hn hlt
      simp only [hheld n hlt]
      exact h.known n hn (by simp only [advance] at hlt; omega)
    · intro n hn hle
      rw [List.map_append, List.mem_append]
      by_cases heq : n = c.sequenceNumber
      · exact .inr (.inr (by simp [HandOut.sn, heq]))
      · exact (h.passed n hn (by simp only [advance] at hle; omega)).imp_right .inl
    · intro n hn hlt
      simp only [hheld n hlt]
      exact h.coming n hn (by simp only [advance] at hlt; omega)
    · intro n hn hmem
      rw [List.map_append, List.mem_append] at hmem
      rcases hmem with hmem | hmem
      · exact h.apart n hn hmem
      · obtain rfl : n = c.sequenceNumber := by simpa [HandOut.sn] using hmem
        exact hnext (hsn ▸ hn)
    · exact fun y f hy hm => h.opened_hand hready hy hm
    · exact fun f k hk => h.track_hand hready hk
    · exact fun pre y z post f hsplit hy hz => h.verdict_hand hready hsplit hy hz
  | known hnone hmem =>
    have hirr : irrelevant (s.delivered + 1) :=
      (h.known _ hmem (by omega)).resolve_left (not_not_intro hnone)
    refine h.pass (le_refl _) (by simp) rfl hordered.held (fun _ => id) (fun _ hn _ => hn)
      (fun n hn hlt => (h.coming n hn (by simp only at hlt; omega)).1)
      (fun n hn hle _ => ?_) (fun f k hopen => ?_) (fun hopen => by simp [hopen])
    · obtain rfl : n = s.delivered + 1 := by simp only at hle; omega
      exact hirr
    · obtain ⟨-, hf, hle, hiff⟩ := h.track f k hopen
      refine ⟨k + 1, by simp [hopen], by simp only; omega, ?_⟩
      have hwhole : Whole irrelevant xs f (s.delivered + 1 + 1) ↔
          Whole irrelevant xs f (s.delivered + 1) := by
        refine ⟨fun hw n hn hlt => hw n hn (by omega), fun hw n hn hlt => ?_⟩
        by_cases heq : n = s.delivered + 1
        · exact .inl (heq ▸ hirr)
        · exact hw n hn (by omega)
      simp only
      rw [hwhole, ← hiff]
      omega
  | gone hnone hnot hlt =>
    have hmissing : ¬irrelevant (s.delivered + 1) := fun hirr => by
      have := (h.coming _ hirr (by omega)).1
      omega
    refine h.pass (le_refl _) (by simp) rfl hordered.held (fun _ => id) (fun _ hn _ => hn)
      (fun n hn hgt => (h.coming n hn (by simp only at hgt; omega)).1)
      (fun n hn hle hge => ?_) (fun f k hopen => ⟨k, hopen, ?_⟩) (fun hopen => hopen)
    · simp only at hle hge
      omega
    · exact h.track_missing hmissing hopen (by simp only; omega)
  | @skip low _ hnone hnot hfirst hlow hheld hmin =>
    have hmissing : ¬irrelevant (s.delivered + 1) := fun hirr =>
      hnot (h.coming _ hirr (by omega)).2.1
    refine h.pass (le_max_left _ _) (by simp only; omega) rfl hordered.held
      (fun _ hn => hn.1) (fun n hn hge => ⟨hn, (le_max_right _ _).trans hge⟩)
      (fun n hn hgt => ?_) (fun n hn hle hge => ?_) (fun f k hopen => ⟨k, hopen, ?_⟩)
      (fun hopen => hopen)
    · simp only [forgetBefore] at hgt ⊢
      omega
    · simp only [forgetBefore] at hle hge
      omega
    · exact h.track_missing hmissing hopen (by simp only; omega)

/-- The numbers an intake rules irrelevant: the ones it names that are neither held
nor handed out. -/
def RulesIrrelevant (xs : List HandOut) (s : Stream) (n : Int) : Intake → Prop
  | .rule ns => n ∈ ns ∧ s.held n = none ∧ n ∉ xs.map HandOut.sn
  | _ => False

/-- What may come in without the count missing a change: a member names a first
change that is not irrelevant, nothing is ruled irrelevant that a held member names
as its first or that is below `first`, and no announcement passes an irrelevant
change that is still to be counted. -/
def Judgeable (irrelevant : Int → Prop) (xs : List HandOut) (s : Stream) : Intake → Prop
  | .nothing => True
  | .rule ns => ∀ n ∈ ns, s.held n = none → ¬irrelevant n → n ∉ xs.map HandOut.sn →
      s.first ≤ n ∧ ∀ m c, s.held m = some c → c.coherentSetEnd = false → c.coherentSetSn ≠ some n
  | .announce first _ => ∀ n, irrelevant n → s.delivered < n → first ≤ n
  | .store c _ _ => WellSet irrelevant c
  | .hand c => WellSet irrelevant c

theorem whole_congr {irrelevant' : Int → Prop} (h : ∀ n, n < e → (irrelevant' n ↔ irrelevant n)) :
    Whole irrelevant' xs f e ↔ Whole irrelevant xs f e :=
  forall_congr' fun n => forall_congr' fun _ => forall_congr' fun hlt => or_congr_left (h n hlt)

theorem Traced.rule {ns : Set Int} (h : Traced irrelevant xs s)
    (hjudge : Judgeable irrelevant xs s (.rule ns)) :
    Traced (fun n => irrelevant n ∨ RulesIrrelevant xs s n (.rule ns)) xs (s.mark ns) := by
  -- what is newly irrelevant lies ahead
  have hnew : ∀ n, RulesIrrelevant xs s n (.rule ns) → irrelevant n ∨
      (s.delivered < n ∧ s.first ≤ n ∧
        ∀ m c, s.held m = some c → c.coherentSetEnd = false → c.coherentSetSn ≠ some n) := by
    rintro n ⟨hn, hnone, hhanded⟩
    by_cases hirr : irrelevant n
    · exact .inl hirr
    · obtain ⟨hfirst, hfree⟩ := hjudge n hn hnone hirr hhanded
      refine .inr ⟨not_le.mp fun hle => ?_, hfirst, hfree⟩
      rcases h.passed n hfirst hle with h' | h'
      · exact hirr h'
      · exact hhanded h'
  have hsame : ∀ n, n ≤ s.delivered →
      (irrelevant n ∨ RulesIrrelevant xs s n (.rule ns) ↔ irrelevant n) := fun n hn => by
    refine ⟨fun hirr => hirr.elim id fun hr => ?_, .inl⟩
    rcases hnew n hr with hirr | hahead
    · exact hirr
    · omega
  refine ⟨h.first, ⟨h.ordered.le, h.ordered.sorted, h.ordered.range, h.ordered.held⟩, ⟨?_, ?_⟩, ?_,
    ?_, ?_, ?_, h.opened, ?_, ?_⟩
  · intro x hx
    refine ⟨(h.changes.1 x hx).1, fun hend f hset => ?_⟩
    obtain ⟨hle, hnot⟩ := (h.changes.1 x hx).2 hend f hset
    have hrange := (h.ordered.range x hx).2
    have hsn : x.sn = x.change.sequenceNumber := rfl
    exact ⟨hle, fun hirr => hnot ((hsame f (by omega)).mp hirr)⟩
  · intro n c hc
    refine ⟨(h.changes.2 n c hc).1, fun hend f hset => ?_⟩
    obtain ⟨hle, hnot⟩ := (h.changes.2 n c hc).2 hend f hset
    refine ⟨hle, fun hirr => hirr.elim hnot fun hr => ?_⟩
    rcases hnew f hr with hirr | ⟨-, -, hfree⟩
    · exact hnot hirr
    · exact hfree n c hc hend hset
  · rintro n (hn | ⟨hn, -⟩) hlt
    · exact (h.known n hn hlt).imp_right .inl
    · by_cases hheld : s.held n = none
      · refine .inr (.inr ⟨hn, hheld, fun hmem => ?_⟩)
        obtain ⟨x, hx, rfl⟩ := List.mem_map.mp hmem
        have := (h.ordered.range x hx).2
        simp only [mark] at hlt
        omega
      · exact .inl hheld
  · exact fun n hn hle => (h.passed n hn hle).imp_left .inl
  · rintro n (hn | hn) hlt
    · obtain ⟨hfirst, hknown, hfree⟩ := h.coming n hn hlt
      exact ⟨hfirst, .inl hknown, hfree⟩
    · rcases hnew n hn with hirr | ⟨-, hfirst, -⟩
      · obtain ⟨hfirst, hknown, hfree⟩ := h.coming n hirr hlt
        exact ⟨hfirst, .inl hknown, hfree⟩
      · exact ⟨hfirst, .inr ⟨hn.1, hfirst⟩, hn.2.1⟩
  · exact fun n hn => hn.elim (h.apart n) fun hr => hr.2.2
  · intro f k hk
    obtain ⟨hlast, hf, hle, hiff⟩ := h.track f k hk
    refine ⟨hlast, hf, hle, hiff.trans (whole_congr fun n hn => ?_).symm⟩
    exact hsame n (Int.lt_add_one_iff.mp hn)
  · intro pre y x post f hsplit hy hx
    obtain ⟨b, hb, hiff⟩ := h.verdict pre y x post f hsplit hy hx
    have hrange := (h.ordered.range x (by simp [hsplit])).2
    exact ⟨b, hb, hiff.trans (whole_congr fun n hn => hsame n (by omega)).symm⟩

theorem Traced.announce {first last : Int} (h : Traced irrelevant xs s)
    (hjudge : Judgeable irrelevant xs s (.announce first last)) :
    Traced irrelevant xs (s.take (.announce first last)) := by
  refine ⟨h.first.trans (le_max_left _ _),
    ⟨h.ordered.le, h.ordered.sorted, h.ordered.range, h.ordered.held⟩, h.changes,
    fun n hn hlt => h.known n hn.1 hlt, fun n hn hle => h.passed n ((le_max_left _ _).trans hn) hle,
    fun n hn hlt => ?_, h.apart, h.opened, h.track, h.verdict⟩
  obtain ⟨hfirst, hknown, hfree⟩ := h.coming n hn hlt
  have hge := hjudge n hn hlt
  exact ⟨max_le hfirst hge, ⟨hknown, hge⟩, hfree⟩

theorem Traced.store {displaced : Option Int} {kept : Bool} (h : Traced irrelevant xs s)
    (haccepts : s.Accepts be (.store c displaced kept)) (hjudge : WellSet irrelevant c) :
    Traced irrelevant xs (s.take (.store c displaced kept)) := by
  have hheld := (haccepts.ordered h.ordered.held).held
  have hin := allChanges_take (s := s) (i := .store c displaced kept)
    (fun c' hc' => Option.some.inj hc' ▸ hjudge) h.changes.2
  obtain ⟨hnew, hdel, hdisplaced, -⟩ := haccepts
  refine ⟨h.first, ⟨h.ordered.le, h.ordered.sorted, h.ordered.range, hheld⟩, ⟨h.changes.1, hin.2⟩,
    ?_, h.passed, ?_, h.apart, h.opened, h.track, h.verdict⟩
  · rintro n ⟨hmem, hkeep, hkept⟩ hlt
    by_cases hc : kept = true ∧ n = c.sequenceNumber
    · exact .inl (by simp [Stream.take, hc])
    · have hheld : (s.take (.store c displaced kept)).held n = s.held n := by
        simp [Stream.take, hc, hkeep]
      rw [hheld]
      rcases hmem with hmem | ⟨hmem, -⟩
      · exact h.known n hmem hlt
      · cases kept with
        | false => exact absurd hmem (hkept rfl)
        | true => exact absurd ⟨rfl, hmem⟩ hc
  · intro n hn hlt
    obtain ⟨hfirst, hknown, hfree⟩ := h.coming n hn hlt
    have hne : n ≠ c.sequenceNumber := fun heq => hnew (heq ▸ hknown)
    have hkeep : displaced ≠ some n := fun hd => (hdisplaced n hd).2 hfree
    exact ⟨hfirst, ⟨.inl hknown, hkeep, fun _ => hne⟩, by simp [Stream.take, hne, hkeep, hfree]⟩

variable {u : Prop}

theorem Traced.direct (h : Traced irrelevant xs s) (haccepts : s.Accepts be (.hand c))
    (hsettled : s.Settled u) (hjudge : WellSet irrelevant c) :
    Traced irrelevant (xs ++ [s.handing c]) (s.take (.hand c)) := by
  have hheld := (haccepts.ordered h.ordered.held).held
  obtain ⟨hnew, hdel, hempty, -⟩ := haccepts
  -- the cache is empty, so what comes next is missing
  have hmissing : ¬irrelevant (s.delivered + 1) := fun hirr => by
    rcases hsettled with ⟨-, hsome⟩ | ⟨-, hunknown, -⟩
    · exact hsome (hempty _)
    · exact hunknown (h.coming _ hirr (by omega)).2.1
  have hready : Ready irrelevant s c := ⟨hdel, hjudge, .inr hmissing⟩
  obtain ⟨first, known, htake, hfirst, hknown, hfloor⟩ :
      ∃ first known, s.take (.hand c) = { s.advance c with first := first, known := known } ∧
        (first = s.first ∧ c.sequenceNumber = s.delivered + 1 ∨
          first = max s.first (c.sequenceNumber + 1)) ∧
        (∀ n, n ∈ known → n ∈ s.known ∨ n = c.sequenceNumber) ∧
        (∀ n, n ∈ s.known → c.sequenceNumber < n → n ∈ known) := by
    by_cases hgap : s.delivered + 1 < c.sequenceNumber
    · refine ⟨_, _, by simp only [Stream.take, hgap, if_true]; rfl, .inr rfl, ?_, ?_⟩
      · rintro n ⟨hn | ⟨hn, -⟩, -⟩
        · exact .inl hn
        · exact .inr hn
      · exact fun n hn hlt => ⟨.inl hn, hlt⟩
    · refine ⟨_, _, by simp only [Stream.take, hgap, if_false]; rfl, .inl ⟨rfl, by omega⟩, ?_, ?_⟩
      · rintro n (hn | ⟨hn, -⟩)
        · exact .inl hn
        · exact .inr hn
      · exact fun n hn _ => .inl hn
  rw [htake] at hheld ⊢
  have hapart : ¬irrelevant c.sequenceNumber := fun hirr => hnew (h.coming _ hirr hdel).2.1
  have hone := h.first
  refine ⟨by simp only; omega, h.ordered.hand hdel rfl hheld, ⟨?_, h.changes.2⟩, ?_, ?_, ?_, ?_,
    fun y f hy hm => h.opened_hand hready hy hm, fun f k hk => h.track_hand hready hk,
    fun pre y z post f hsplit hy hz => h.verdict_hand hready hsplit hy hz⟩
  · exact List.forall_mem_append.mpr ⟨h.changes.1, List.forall_mem_singleton.mpr hjudge⟩
  · intro n hn hlt
    simp only [advance] at hlt
    rcases hknown n hn with hn | hn
    · exact h.known n hn (by omega)
    · omega
  · intro n hn hle
    simp only [advance] at hle
    rw [List.map_append, List.mem_append]
    by_cases heq : n = c.sequenceNumber
    · exact .inr (.inr (by simp [handing, HandOut.sn, heq]))
    · have hn : first ≤ n := hn
      exact (h.passed n (by omega) (by omega)).imp_right .inl
  · intro n hn hlt
    simp only [advance] at hlt
    obtain ⟨hge, hmem, hfree⟩ := h.coming n hn (by omega)
    exact ⟨by simp only; omega, hfloor n hmem hlt, hfree⟩
  · intro n hn hmem
    rw [List.map_append, List.mem_append] at hmem
    rcases hmem with hmem | hmem
    · exact h.apart n hn hmem
    · obtain rfl : n = c.sequenceNumber := by simpa [handing, HandOut.sn] using hmem
      exact hapart hn

theorem Traced.call {i : Intake} (h : Traced irrelevant xs s) (hcall : Call be u s i out t)
    (hsettled : s.Settled u) (hjudge : Judgeable irrelevant xs s i) :
    Traced (fun n => irrelevant n ∨ RulesIrrelevant xs s n i) (xs ++ out) t := by
  have htake : Traced (fun n => irrelevant n ∨ RulesIrrelevant xs s n i) (xs ++ s.takeOut i)
      (s.take i) := by
    cases i with
    | nothing => simpa [RulesIrrelevant, takeOut, Stream.take] using h
    | rule ns => simpa [takeOut, Stream.take] using h.rule hjudge
    | announce first last => simpa [RulesIrrelevant, takeOut] using h.announce hjudge
    | store c displaced kept =>
      simpa [RulesIrrelevant, takeOut] using h.store hcall.accepts hjudge
    | hand c =>
      simpa [RulesIrrelevant, takeOut, handing] using h.direct hcall.accepts hsettled hjudge
  exact hcall.induct (P := fun out t => Traced _ (xs ++ out) t) htake
    fun done s out t hp hturn => by
    rw [← List.append_assoc]
    exact hp.turn hturn

end Stream

/-! ### What the consumer is told -/

/-- The changes among the deliveries, each with whether the marker of an incomplete
set stood in front of it; a marker bears the number of the change behind it. -/
def reports : List DeliveredSample → List (DeliveredSample × Bool)
  | [] => []
  | [x] => [(x, false)]
  | m :: x :: rest =>
    if m.coherentSetEnd = true ∧ m.sequenceNumber = x.sequenceNumber then
      (x, true) :: reports rest
    else (m, false) :: reports (x :: rest)

def reportsComplete (x : DeliveredSample × Bool) : Bool :=
  if x.1.coherentSetEnd then x.1.coherentSetComplete = some true else !x.2

def isMember (f : Int) (x : DeliveredSample) : Prop :=
  x.coherentSetEnd = false ∧ x.coherentSetSn = some f

instance (f : Int) (x : DeliveredSample) : Decidable (isMember f x) :=
  inferInstanceAs (Decidable (_ ∧ _))

def HandOut.report (w : Guid) (x : HandOut) : DeliveredSample × Bool :=
  if x.change.coherentSetEnd then
    ({ deliveredSampleOf w x.change with coherentSetComplete := x.ended }, false)
  else (deliveredSampleOf w x.change, x.ended = some false)

variable (w : Guid)

theorem HandOut.report_sn (x : HandOut) : (x.report w).1.sequenceNumber = x.sn := by
  unfold report
  split <;> rfl

theorem HandOut.isMember_report {w : Guid} : isMember f (x.report w).1 ↔ x.MemberOf f := by
  unfold report
  split <;> rfl

theorem HandOut.reportsComplete_report {b : Bool} (h : x.ended = some b) :
    reportsComplete (x.report w) = b ∧
      ((x.report w).1.coherentSetEnd = true → (x.report w).1.coherentSetComplete = some b) := by
  unfold reportsComplete report
  cases hend : x.change.coherentSetEnd <;> cases b <;> simp [deliveredSampleOf, hend, h]

theorem HandOut.deliveries_cases (x : HandOut) :
    (x.deliveries w = [(x.report w).1] ∧ (x.report w).2 = false) ∨
      (x.deliveries w = [DeliveredSample.incompleteSetEnd w x.sn, (x.report w).1] ∧
        (x.report w).2 = true) := by
  unfold deliveries report
  split
  · exact .inl ⟨rfl, rfl⟩
  · split
    · next h => exact .inr ⟨rfl, by simp [h]⟩
    · next h => exact .inl ⟨rfl, by simp [h]⟩

theorem reports_flatMap (hsorted : (xs.map HandOut.sn).Pairwise (· < ·)) :
    reports (xs.flatMap (HandOut.deliveries w)) = xs.map (HandOut.report w) := by
  induction xs with
  | nil => rfl
  | cons x xs ih =>
    rw [List.map_cons, List.pairwise_cons] at hsorted
    have ih := ih hsorted.2
    -- the delivery behind this one bears a higher number
    have hhead : ∀ y, y.sequenceNumber = x.sn →
        reports (y :: xs.flatMap (HandOut.deliveries w)) =
          (y, false) :: reports (xs.flatMap (HandOut.deliveries w)) := by
      intro y hy
      cases hrest : xs.flatMap (HandOut.deliveries w) with
      | nil => rfl
      | cons z rest =>
        obtain ⟨v, hv, hz⟩ := List.mem_flatMap.mp
          (show z ∈ xs.flatMap (HandOut.deliveries w) by simp [hrest])
        have hlt := hsorted.1 _ (List.mem_map_of_mem hv)
        rw [← HandOut.sequenceNumber_of_mem hz] at hlt
        rw [reports, if_neg (by omega)]
    rw [List.flatMap_cons, List.map_cons]
    rcases x.deliveries_cases w with ⟨heq, hflag⟩ | ⟨heq, hflag⟩
    · rw [heq, List.singleton_append, hhead _ (x.report_sn w), ih, ← hflag]
    · rw [heq, List.cons_append, List.singleton_append, reports,
        if_pos ⟨rfl, (x.report_sn w).symm⟩, ih, ← hflag]

/-- What a run has handed out and what was ruled irrelevant before the reader had
it. -/
structure SetLedger where
  handed : List Int
  irrelevant : List Int

namespace WriterProxyState

def heldSetFirsts (s : WriterProxyState) : List Int :=
  s.receivedCache.changes.values.filterMap fun c =>
    if c.coherentSetEnd then none else c.coherentSetSn

end WriterProxyState

namespace SetLedger

def empty : SetLedger := ⟨[], []⟩

def record (l : SetLedger) (r : ReliableReader) (op : ReaderOp) (out : ReaderOutput) :
    SetLedger where
  handed := l.handed ++ out.delivered.map DeliveredSample.sequenceNumber
  irrelevant := l.irrelevant ++ (r.writerProxies.flatMap (op.named r.guid)).filter fun n =>
    !r.holds n && n ∉ l.handed

end SetLedger

namespace ReliableReader

def setStep (x : ReliableReader × SetLedger) (op : ReaderOp) :
    (ReliableReader × SetLedger) × ReaderOutput :=
  let (r, out) := x.1.step op
  ((r, x.2.record x.1 op out), out)

instance (irrelevant : List Int) : DecidablePred (WellSet (· ∈ irrelevant)) := fun c =>
  inferInstanceAs (Decidable (_ ∧ (_ → ∀ f ∈ c.coherentSetSn, _)))

/-- A call that lets the count of an open set miss nothing it needs: a member names
a first change that is not behind it and not irrelevant; a change newly ruled
irrelevant is not below `first_available_sn` and no held member names it as its
first; and no HEARTBEAT moves `first_available_sn` past an irrelevant change that
has not been passed yet. -/
structure Judged (x : ReliableReader × SetLedger) (op : ReaderOp) : Prop where
  forward : x.1.NoForwarding op
  member : ∀ s ∈ x.1.writerProxies, op.Brought (WellSet (· ∈ x.2.irrelevant)) x.1.guid s
  ruling : ∀ s ∈ x.1.writerProxies, ∀ n ∈ op.named x.1.guid s, x.1.holds n = false →
    n ∉ x.2.irrelevant → n ∉ x.2.handed → s.proxy.firstAvailableSn ≤ n ∧ n ∉ s.heldSetFirsts
  floor : ∀ s ∈ x.1.writerProxies, ∀ first ∈ op.announcedFirst s, ∀ n ∈ x.2.irrelevant,
    s.deliveredUpTo < n → first ≤ n

instance (x : ReliableReader × SetLedger) (op : ReaderOp) : Decidable (Judged x op) :=
  decidable_of_iff
    (x.1.NoForwarding op ∧
      (∀ s ∈ x.1.writerProxies, op.Brought (WellSet (· ∈ x.2.irrelevant)) x.1.guid s) ∧
      (∀ s ∈ x.1.writerProxies, ∀ n ∈ op.named x.1.guid s, x.1.holds n = false →
        n ∉ x.2.irrelevant → n ∉ x.2.handed →
          s.proxy.firstAvailableSn ≤ n ∧ n ∉ s.heldSetFirsts) ∧
      ∀ s ∈ x.1.writerProxies, ∀ first ∈ op.announcedFirst s, ∀ n ∈ x.2.irrelevant,
        s.deliveredUpTo < n → first ≤ n)
    ⟨fun ⟨h₁, h₂, h₃, h₄⟩ => ⟨h₁, h₂, h₃, h₄⟩, fun ⟨h₁, h₂, h₃, h₄⟩ => ⟨h₁, h₂, h₃, h₄⟩⟩

structure Tracing (w : Guid) (h : History ReaderOp ReaderOutput) (x : ReliableReader × SetLedger)
    (s : WriterProxyState) (xs : List HandOut) : Prop where
  follows : x.1.Follows w s
  settled : s.stream.Settled False
  traced : s.stream.Traced (· ∈ x.2.irrelevant) xs
  delivered : deliveredIn h = xs.flatMap (HandOut.deliveries w)
  handed : ∀ n, n ∈ x.2.handed ↔ n ∈ xs.map HandOut.sn

theorem HandOut.mem_map_deliveries (xs : List HandOut) (n : Int) :
    n ∈ (xs.flatMap (HandOut.deliveries w)).map DeliveredSample.sequenceNumber ↔
      n ∈ xs.map HandOut.sn := by
  constructor
  · intro hn
    obtain ⟨y, hy, rfl⟩ := List.mem_map.mp hn
    obtain ⟨x, hx, hmem⟩ := List.mem_flatMap.mp hy
    rw [HandOut.sequenceNumber_of_mem hmem]
    exact List.mem_map_of_mem hx
  · intro hn
    obtain ⟨x, hx, rfl⟩ := List.mem_map.mp hn
    exact HandOut.sn_mem_deliveries w hx

variable {s : WriterProxyState} {w : Guid} {h : History ReaderOp ReaderOutput}
  {x : ReliableReader × SetLedger} {xs : List HandOut} {op : ReaderOp}

theorem mem_heldSetFirsts {m : Int} {c : CacheChange} (h : s.stream.held m = some c)
    (hend : c.coherentSetEnd = false) (hset : c.coherentSetSn = some f) : f ∈ s.heldSetFirsts :=
  List.mem_filterMap.mpr ⟨c, SortedMap.mem_values.mpr ⟨m, h⟩, by simp [hend, hset]⟩

variable {i : Intake}

theorem Judged.judgeable (hinv : Tracing w h x s xs) (hop : Judged x op)
    (hadmits : op.Admits x.1.guid s i) : s.stream.Judgeable (· ∈ x.2.irrelevant) xs i := by
  have hmem : s ∈ x.1.writerProxies := by simp [hinv.follows.one.proxies]
  cases i with
  | nothing => trivial
  | rule ns =>
    obtain ⟨ns', hns, hnamed⟩ | ⟨hne, -⟩ := hadmits.rules
    · obtain rfl := Intake.rule.inj hns
      intro n hn hnone hirr hhanded
      have hfree : x.1.holds n = false := by
        rw [Bool.eq_false_iff, ne_eq, hinv.follows.one.holds_iff]
        exact not_not_intro hnone
      obtain ⟨hfirst, hset⟩ := hop.ruling s hmem n ((hnamed n).mp hn) hfree hirr
        (mt (hinv.handed n).mp hhanded)
      exact ⟨hfirst, fun m c hc hend hcs => hset (mem_heldSetFirsts hc hend hcs)⟩
    · exact absurd rfl (hne ns)
  | announce first last => exact fun n hn => hop.floor s hmem first (hadmits.announces) n hn
  | store c displaced kept => exact (hop.member s hmem).of_change (hadmits.change rfl)
  | hand c => exact (hop.member s hmem).of_change (hadmits.change rfl)

theorem Tracing.irrelevant_iff (hinv : Tracing w h x s xs) (hadmits : op.Admits x.1.guid s i)
    (n : Int) :
    n ∈ (setStep x op).1.2.irrelevant ↔
      n ∈ x.2.irrelevant ∨ s.stream.RulesIrrelevant xs n i := by
  have hlist : (setStep x op).1.2.irrelevant = x.2.irrelevant ++
      (op.named x.1.guid s).filter fun n => !x.1.holds n && n ∉ x.2.handed := by
    simp [setStep, SetLedger.record, hinv.follows.one.proxies]
  have hfree : (!x.1.holds n && decide (n ∉ x.2.handed)) = true ↔
      s.stream.held n = none ∧ n ∉ xs.map HandOut.sn := by
    rw [Bool.and_eq_true, Bool.not_eq_true', decide_eq_true_iff, hinv.handed n, Bool.eq_false_iff,
      ne_eq, hinv.follows.one.holds_iff, not_ne_iff]
  rw [hlist, List.mem_append, List.mem_filter, hfree]
  refine or_congr_right ?_
  obtain ⟨ns, rfl, hnamed⟩ | ⟨hne, hidle⟩ := hadmits.rules
  · rw [← hnamed n]
    rfl
  · rw [hidle]
    cases i with
    | rule ns => exact absurd rfl (hne ns)
    | _ => simp [Stream.RulesIrrelevant]

theorem Tracing.step (hinv : Tracing w h x s xs) (hop : Judged x op) :
    ∃ s' xs', Tracing w (h ++ [(op, (setStep x op).2)]) (setStep x op).1 s' xs' := by
  obtain ⟨i, out, s', hstep, -⟩ := hinv.follows.step_spec (u := False)
    (hop.forward s (by simp [hinv.follows.one.proxies])) False.elim
  have htraced := hinv.traced.call hstep.call hinv.settled (hop.judgeable hinv hstep.admits)
  refine ⟨s', xs ++ out, hstep.follows, hstep.call.settled hinv.settled, ?_, ?_, fun n => ?_⟩
  · have heq : (fun n => n ∈ (setStep x op).1.2.irrelevant) =
        fun n => n ∈ x.2.irrelevant ∨ s.stream.RulesIrrelevant xs n i :=
      funext fun n => propext (hinv.irrelevant_iff hstep.admits n)
    rw [heq]
    exact htraced
  · rw [deliveredIn_snoc, hinv.delivered, List.flatMap_append]
    exact congrArg _ hstep.deliveries
  · have hhanded : (setStep x op).1.2.handed = x.2.handed ++
        (x.1.step op).2.delivered.map DeliveredSample.sequenceNumber := rfl
    rw [hhanded, hstep.deliveries, List.mem_append, HandOut.mem_map_deliveries, hinv.handed n,
      List.map_append, List.mem_append]

/-- In every run on one writer's ungrouped stream in which the count of an open set
misses nothing it needs, the reader's verdict on a set is exact: the set named `f`
that the change `x` ends is reported complete if and only if every number from `f`
up to `x` was handed out as a member of the set or ruled irrelevant. -/
theorem coherent_set_judged_exactly {w : Guid} {r₀ r : ReliableReader} {s₀ : WriterProxyState}
    {l : SetLedger} {h : History ReaderOp ReaderOutput} (hstart : r₀.JustMatched w s₀)
    (hrun : Reaches setStep Judged (r₀, SetLedger.empty) h (r, l))
    {pre post : List (DeliveredSample × Bool)} {y x : DeliveredSample × Bool} {f : Int}
    (hsplit : reports (deliveredIn h) = pre ++ y :: x :: post) (hy : isMember f y.1)
    (hx : ¬isMember f x.1) :
    (reportsComplete x = true ↔
      ∀ n, f ≤ n → n < x.1.sequenceNumber →
        n ∈ l.irrelevant ∨ ∃ z ∈ pre ++ [y], isMember f z.1 ∧ z.1.sequenceNumber = n) ∧
      (x.1.coherentSetEnd = true → x.1.coherentSetComplete ≠ none) := by
  have hfresh : s₀.stream.Traced (· ∈ SetLedger.empty.irrelevant) [] := by
    rw [hstart.stream]
    refine ⟨le_refl _, ⟨le_refl _, .nil, by simp, by simp⟩, ⟨by simp, by simp⟩, by simp, ?_, ?_, ?_,
      by simp, by simp, by simp⟩
    · intro n hn hle
      simp only at hn hle
      omega
    · intro n hn
      cases hn
    · intro n hn
      cases hn
  obtain ⟨s, xs, hinv⟩ := hrun.invariant (P := fun h x => ∃ s xs, Tracing w h x s xs)
    ⟨s₀, [], hstart.follows, hstart.settled, hfresh, rfl, fun n => by simp [SetLedger.empty]⟩
    fun h x op ⟨s, xs, hinv⟩ hop => hinv.step hop
  rw [hinv.delivered, reports_flatMap w hinv.traced.ordered.sorted] at hsplit
  obtain ⟨pre', rest, rfl, rfl, hrest⟩ := List.map_eq_append_iff.mp hsplit
  obtain ⟨y', rest', rfl, rfl, hrest'⟩ := List.map_eq_cons_iff.mp hrest
  obtain ⟨x', post', rfl, rfl, rfl⟩ := List.map_eq_cons_iff.mp hrest'
  obtain ⟨b, hb, hwhole⟩ := hinv.traced.verdict pre' y' x' post' f rfl
    (HandOut.isMember_report.mp hy) (mt HandOut.isMember_report.mpr hx)
  obtain ⟨hcomplete, hend⟩ := HandOut.reportsComplete_report w hb
  refine ⟨?_, fun hx => by simp [hend hx]⟩
  rw [hcomplete, hwhole, x'.report_sn w]
  refine forall_congr' fun n => forall_congr' fun _ => forall_congr' fun _ => or_congr_right ?_
  constructor
  · rintro ⟨z, hz, hmember, hsn⟩
    refine ⟨z.report w, ?_, HandOut.isMember_report.mpr hmember, (z.report_sn w).trans hsn⟩
    simpa using List.mem_map_of_mem (f := HandOut.report w) hz
  · rintro ⟨v, hv, hmember, hsn⟩
    rw [show pre'.map (HandOut.report w) ++ [y'.report w] = (pre' ++ [y']).map (HandOut.report w) by
      simp] at hv
    obtain ⟨z, hz, rfl⟩ := List.mem_map.mp hv
    exact ⟨z, hz, HandOut.isMember_report.mp hmember, (z.report_sn w).symm.trans hsn⟩

section Runs

open ReaderFixture

def secondRuledOut : List ReaderOp :=
  [dataOp (member 1 (some 1)), gapOp 2, dataOp (member 3 (some 1)), dataOp (setEnd 4)]

def firstRuledOut : List ReaderOp :=
  [gapOp 1, dataOp (member 2 (some 1)), dataOp (setEnd 3)]

/-- The set whose second change is irrelevant is judged right. -/
theorem secondRuledOut_judged :
    ∃ pre y x, reports (deliveredIn (run setStep (makeReader 4, SetLedger.empty)
        secondRuledOut).2) = pre ++ [y, x] ∧
      (reportsComplete x = true ↔
        ∀ n, 1 ≤ n → n < x.1.sequenceNumber →
          n ∈ (run setStep (makeReader 4, SetLedger.empty) secondRuledOut).1.2.irrelevant ∨
            ∃ z ∈ pre ++ [y], isMember 1 z.1 ∧ z.1.sequenceNumber = n) :=
  ⟨[_], _, _, rfl, (coherent_set_judged_exactly (makeReader_justMatched 4)
    (reaches_run
      (show RunOk setStep Judged (makeReader 4, SetLedger.empty) secondRuledOut by decide))
    (show reports (deliveredIn (run setStep (makeReader 4, SetLedger.empty) secondRuledOut).2) =
      [_] ++ _ :: _ :: [] from rfl) (by decide) (by decide)).1⟩

/-- Where the set's first change is the irrelevant one, everything in it is handed
out or irrelevant, and yet the set is reported incomplete. -/
theorem firstRuledOut_reported_incomplete :
    ∃ y x, reports (deliveredIn (run setStep (makeReader 4, SetLedger.empty)
        firstRuledOut).2) = [y, x] ∧ isMember 1 y.1 ∧ ¬isMember 1 x.1 ∧
      reportsComplete x = false ∧
      ∀ n, 1 ≤ n → n < x.1.sequenceNumber →
        n ∈ (run setStep (makeReader 4, SetLedger.empty) firstRuledOut).1.2.irrelevant ∨
          ∃ z ∈ [y], isMember 1 z.1 ∧ z.1.sequenceNumber = n :=
  ⟨_, _, rfl, by decide, by decide, by decide, by decide⟩

end Runs
end ReliableReader
end ZeroDds.Rtps
