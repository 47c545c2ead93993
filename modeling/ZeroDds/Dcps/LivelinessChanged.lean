/-
The counts of `LIVELINESS_CHANGED`.
-/
import ZeroDds.Dcps.LivelinessTracker
import ZeroDds.Lib.Run

namespace ZeroDds.Dcps

open SortedMap

namespace LivelinessTracker

/-! ### Counting writers -/

def weight (state : WriterLiveliness) (t : Tracked) : Nat := if t.state = state then 1 else 0

variable {state : WriterLiveliness}

theorem weight_eq_one {t : Tracked} (h : t.state = state) : weight state t = 1 := if_pos h

theorem weight_eq_zero {t : Tracked} (h : t.state ≠ state) : weight state t = 0 := if_neg h

def population (state : WriterLiveliness) (writers : SortedMap WriterGuid Tracked) : Nat :=
  (writers.values.map (weight state)).sum

section Population

variable (state : WriterLiveliness) {writers : SortedMap WriterGuid Tracked} {guid : WriterGuid}
  {tracked tracked' : Tracked}

theorem population_insert_new (h : writers.get? guid = none) :
    population state (writers.insert guid tracked) =
      population state writers + weight state tracked := by
  have hsum := writers.sum_values_insert (weight state) guid tracked
  rw [h] at hsum
  exact hsum

section

variable (h : writers.get? guid = some tracked)
include h

theorem population_insert_over :
    population state (writers.insert guid tracked') + weight state tracked =
      population state writers + weight state tracked' := by
  have hsum := writers.sum_values_insert (weight state) guid tracked'
  rw [h] at hsum
  exact hsum

theorem population_erase :
    population state (writers.erase guid) + weight state tracked = population state writers := by
  rw [← population_insert_new state (get?_erase_self _ _), insert_erase_of_some h]

theorem population_modify {f : Tracked → Tracked} :
    population state (writers.modify guid f) + weight state tracked =
      population state writers + weight state (f tracked) := by
  have hmodify : writers.modify guid f = writers.insert guid (f tracked) := by
    rw [SortedMap.modify, h]
  rw [hmodify, population_insert_over state h]

end

end Population

def writersIn (t : LivelinessTracker) (state : WriterLiveliness) : List WriterGuid :=
  (t.writers.entries.filter fun e => e.2.state = state).map Prod.fst

theorem length_writersIn (t : LivelinessTracker) (state : WriterLiveliness) :
    (t.writersIn state).length = population state t.writers := by
  rw [writersIn, List.length_map, population, SortedMap.values, List.map_map]
  induction t.writers.entries with
  | nil => rfl
  | cons e rest ih =>
    rw [List.map_cons, List.sum_cons, ← ih, List.filter_cons]
    by_cases hstate : e.2.state = state
    · simp only [hstate, decide_true, if_true, List.length_cons, Function.comp_apply, weight]
      omega
    · simp only [hstate, decide_false, Bool.false_eq_true, if_false, Function.comp_apply, weight]
      omega

structure Exact (t : LivelinessTracker) : Prop where
  alive : t.alive = population .alive t.writers
  notAlive : t.notAlive = population .notAlive t.writers + t.departed.size
  apart : ∀ guid, t.departed.contains guid = true → t.writers.get? guid = none

def drift (t : LivelinessTracker) : Int × Int :=
  (t.aliveChange - t.alive, t.notAliveChange - t.notAlive)

def Counts (t t' : LivelinessTracker) : Prop := (t.Exact → t'.Exact) ∧ t'.drift = t.drift

theorem Counts.refl (t : LivelinessTracker) : Counts t t := ⟨id, rfl⟩

variable {t : LivelinessTracker} {t' : LivelinessTracker}

theorem Counts.trans {t'' : LivelinessTracker} (h : Counts t t') (h' : Counts t' t'') :
    Counts t t'' :=
  ⟨h'.1 ∘ h.1, h'.2.trans h.2⟩

/-! ### Assertions count right -/

section Renew

variable (renewed : WriterGuid → Tracked → Bool) (now : Nat)

def gain (state : WriterLiveliness) (e : WriterGuid × Tracked) : Int :=
  weight state (afterRenewal renewed now e.1 e.2) - weight state e.2

/-- `m'` has `a` alive and `n` not alive writers more than `m`, and no transition where that is
nothing. -/
structure Moves.Adds (m m' : Moves) (a n : Int) : Prop where
  alive : m'.alive = m.alive + a
  notAlive : m'.notAlive = m.notAlive + n
  more : m.transitions ≤ m'.transitions
  quiet : m'.transitions = m.transitions → a = 0 ∧ n = 0

theorem Moves.Adds.trans {m m' m'' : Moves} {a a' n n' : Int} (h : m.Adds m' a n)
    (h' : m'.Adds m'' a' n') : m.Adds m'' (a + a') (n + n') := by
  refine ⟨?_, ?_, le_trans h.more h'.more, fun heq => ?_⟩
  · rw [h'.alive, h.alive, add_assoc]
  · rw [h'.notAlive, h.notAlive, add_assoc]
  · have hmore := h.more
    have hmore' := h'.more
    obtain ⟨ha, hn⟩ := h.quiet (by omega)
    obtain ⟨ha', hn'⟩ := h'.quiet (by omega)
    constructor <;> omega

theorem adds_revive (m : Moves) (e : WriterGuid × Tracked) :
    m.Adds (if renewed e.1 e.2 then m.revive e.1 e.2.state else m)
      (gain renewed now .alive e) (gain renewed now .notAlive e) := by
  unfold gain afterRenewal weight
  by_cases hr : renewed e.1 e.2 = true
  · simp only [hr, if_true]
    cases hstate : e.2.state with
    | unasserted => exact ⟨by simp [Moves.revive], by simp [Moves.revive], by simp [Moves.revive],
        by simp [Moves.revive]⟩
    | alive => exact ⟨by simp [Moves.revive], by simp [Moves.revive], by simp [Moves.revive],
        by simp⟩
    | notAlive => exact ⟨by simp [Moves.revive], by simp [Moves.revive]; omega,
        by simp [Moves.revive], by simp [Moves.revive]⟩
  · simp only [hr, Bool.false_eq_true, if_false]
    exact ⟨by omega, by omega, le_refl _, fun _ => ⟨by omega, by omega⟩⟩

theorem adds_walk (l : List (WriterGuid × Tracked)) (m : Moves) :
    m.Adds (walk renewed l m) (l.map (gain renewed now .alive)).sum
      (l.map (gain renewed now .notAlive)).sum := by
  induction l generalizing m with
  | nil => exact ⟨by simp [walk], by simp [walk], le_refl _, fun _ => ⟨rfl, rfl⟩⟩
  | cons e rest ih =>
    exact (adds_revive renewed now m e).trans (ih _)

theorem population_renewed (state : WriterLiveliness) (writers : SortedMap WriterGuid Tracked) :
    (population state (writers.mapWithKey (afterRenewal renewed now)) : Int) =
      population state writers + (writers.entries.map (gain renewed now state)).sum := by
  have hlist : ∀ l : List (WriterGuid × Tracked),
      ((l.map fun e => weight state (afterRenewal renewed now e.1 e.2)).sum : Int) =
        (l.map fun e => weight state e.2).sum + (l.map (gain renewed now state)).sum := by
    intro l
    induction l with
    | nil => rfl
    | cons e rest ih =>
      simp only [List.map_cons, List.sum_cons, Nat.cast_add, ih]
      unfold gain
      omega
  have h := hlist writers.entries
  simpa only [population, SortedMap.values, SortedMap.mapWithKey, List.map_map, Function.comp_def]
    using h

end Renew

theorem renew_counts (t : LivelinessTracker) (renewed : WriterGuid → Tracked → Bool) (now : Nat) :
    Counts t (t.renew renewed now).1 := by
  have hwalk := adds_walk renewed now t.writers.entries {}
  have halive := population_renewed renewed now .alive t.writers
  have hnotAlive := population_renewed renewed now .notAlive t.writers
  have hexact : t.Exact →
      ({ t with
        writers := t.writers.mapWithKey (afterRenewal renewed now)
        alive := t.alive + (walk renewed t.writers.entries {}).alive
        notAlive := t.notAlive + (walk renewed t.writers.entries {}).notAlive } :
          LivelinessTracker).Exact := by
    intro h
    refine ⟨?_, ?_, fun guid hguid => ?_⟩
    · rw [halive, h.alive, hwalk.alive]
      show _ + ((0 : Int) + _) = _
      omega
    · show t.notAlive + _ = (population .notAlive (t.writers.mapWithKey _) : Int) + t.departed.size
      rw [hnotAlive, h.notAlive, hwalk.notAlive]
      show _ + ((0 : Int) + _) = _
      omega
    · rw [get?_mapWithKey, h.apart guid hguid]
      rfl
  unfold renew
  simp only
  split
  · next hquiet =>
    obtain ⟨ha, hn⟩ := hwalk.quiet hquiet
    have ha' : (walk renewed t.writers.entries {}).alive = 0 := hwalk.alive.trans (by rw [ha]; rfl)
    have hn' : (walk renewed t.writers.entries {}).notAlive = 0 :=
      hwalk.notAlive.trans (by rw [hn]; rfl)
    refine ⟨fun h => ?_, rfl⟩
    obtain ⟨h1, h2, h3⟩ := hexact h
    rw [ha', add_zero] at h1
    rw [hn', add_zero] at h2
    exact ⟨h1, h2, h3⟩
  · refine ⟨fun h => ?_, ?_⟩
    · obtain ⟨h1, h2, h3⟩ := hexact h
      exact ⟨h1, h2, h3⟩
    · simp only [drift, Prod.mk.injEq]
      constructor <;> omega

/-! ### Matching counts right -/

theorem matched_counts (t : LivelinessTracker) (writer : WriterGuid) (kind : LivelinessKind)
    (lease : Option Nat) (now : Nat) : Counts t (t.matched writer kind lease now).1 := by
  unfold matched
  split
  · next tracked hget =>
    have hpop : ∀ state, population state
        (t.writers.insert writer { tracked with kind, lease }) = population state t.writers := by
      intro state
      have h : population state (t.writers.insert writer { tracked with kind, lease }) +
          weight state tracked = population state t.writers + weight state tracked :=
        population_insert_over state hget
      omega
    refine ⟨fun h => ⟨?_, ?_, fun guid hguid => ?_⟩, rfl⟩
    · rw [h.alive, hpop]
    · rw [h.notAlive, hpop]
    · have hnone := h.apart guid hguid
      have hne : guid ≠ writer := by
        rintro rfl
        rw [hget] at hnone
        cases hnone
      rw [get?_insert, if_neg hne, hnone]
  · next hget =>
    -- a departed writer takes its place among those not alive
    have hplaced : ∀ tracked : Tracked,
        tracked.state = (if t.departed.contains writer then .notAlive else .unasserted) →
        Counts t { t with
          departed := t.departed.erase writer
          writers := t.writers.insert writer tracked } := by
      intro tracked hstate
      refine ⟨fun h => ⟨?_, ?_, fun guid hguid => ?_⟩, rfl⟩
      · have hzero : weight .alive tracked = 0 := by
          refine weight_eq_zero ?_
          rw [hstate]
          split <;> simp
        rw [h.alive, population_insert_new _ hget, hzero, Nat.add_zero]
      · show t.notAlive = (population .notAlive (t.writers.insert writer tracked) : Int) +
          (t.departed.erase writer).size
        rw [h.notAlive, population_insert_new _ hget]
        by_cases hdeparted : t.departed.contains writer = true
        · rw [if_pos hdeparted] at hstate
          obtain ⟨u, hu⟩ := Option.isSome_iff_exists.mp hdeparted
          have hsize := size_erase_of_some hu
          rw [weight_eq_one hstate]
          omega
        · rw [if_neg hdeparted] at hstate
          have hnone : t.departed.get? writer = none := by
            simpa [SortedMap.contains] using hdeparted
          rw [weight_eq_zero (by rw [hstate]; decide), erase_of_none hnone]
          omega
      · have hne : guid ≠ writer := by
          rintro rfl
          simp [SortedMap.contains] at hguid
        have hmem : t.departed.contains guid = true := by
          simp only [SortedMap.contains, get?_erase, if_neg hne] at hguid
          exact hguid
        rw [get?_insert, if_neg hne, h.apart guid hmem]
    have hcounts := hplaced
      (if t.departed.contains writer then ⟨kind, lease, 0, .notAlive⟩
        else ⟨kind, lease, now, .unasserted⟩) (by split <;> rfl)
    simp only
    split
    · exact hcounts.trans (renew_counts _ _ now)
    · exact hcounts

variable {tracked : Tracked}

theorem erase_counts {writer : WriterGuid} (hget : t.writers.get? writer = some tracked)
    (hwriters : t'.writers = t.writers.erase writer)
    (halive : t'.alive + weight .alive tracked = t.alive)
    (hnotAlive : t'.notAlive + weight .notAlive tracked + t.departed.size =
      t.notAlive + t'.departed.size) (hdeparted : ∀ guid, t'.departed.contains guid = true →
      guid = writer ∨ t.departed.contains guid = true) (hdrift : t'.drift = t.drift) :
    Counts t t' := by
  have hpop := fun state => population_erase state hget
  refine ⟨fun h => ⟨?_, ?_, fun guid hguid => ?_⟩, hdrift⟩
  · have := hpop .alive
    have := h.alive
    rw [hwriters]
    omega
  · have := hpop .notAlive
    have := h.notAlive
    rw [hwriters]
    omega
  · rw [hwriters, get?_erase]
    rcases hdeparted guid hguid with rfl | hguid
    · exact if_pos rfl
    · rw [h.apart guid hguid, ite_self]

theorem unmatched_counts (t : LivelinessTracker) (writer : WriterGuid) :
    Counts t (t.unmatched writer).1 := by
  unfold unmatched
  split
  · exact .refl t
  · next tracked hget =>
    split
    · next hstate =>
      refine erase_counts hget rfl ?_ ?_ (fun guid => .inr) rfl
      · simp [weight, hstate]
      · simp [weight, hstate]
    · next hstate =>
      refine erase_counts hget rfl ?_ ?_ (fun guid => .inr) ?_
      · simp [weight, hstate, changed]
      · simp [weight, hstate, changed]
      · simp only [drift, changed, Prod.mk.injEq, and_true]
        omega
    · next hstate =>
      refine erase_counts hget rfl ?_ ?_ (fun guid => .inr) ?_
      · simp [weight, hstate, changed]
      · simp [weight, hstate, changed]
      · simp only [drift, changed, Prod.mk.injEq, true_and]
        omega

theorem lostWithParticipant_counts (writer : WriterGuid) (hexact : t.Exact) :
    Counts t (t.lostWithParticipant writer).1 := by
  unfold lostWithParticipant
  split
  · exact .refl t
  · next tracked hget =>
    have hnew : t.departed.get? writer = none := by
      by_contra hsome
      have hcontains := Option.isSome_iff_ne_none.mpr hsome
      rw [hexact.apart writer hcontains] at hget
      cases hget
    have hsize : (t.departed.insert writer ()).size = t.departed.size + 1 :=
      size_insert_of_none hnew
    have hdeparted : ∀ guid, (t.departed.insert writer ()).contains guid = true →
        guid = writer ∨ t.departed.contains guid = true := by
      intro guid hguid
      by_cases hk : guid = writer
      · exact .inl hk
      · rw [SortedMap.contains, get?_insert, if_neg hk] at hguid
        exact .inr hguid
    split
    · next hstate =>
      refine erase_counts hget rfl ?_ ?_ (fun guid => .inr) rfl
      · simp [weight, hstate]
      · simp [weight, hstate]
    · next hstate =>
      refine erase_counts hget rfl ?_ ?_ hdeparted ?_
      · simp [weight, hstate, changed]
      · simp only [changed, weight, hstate, hsize]
        simp
        omega
      · simp only [drift, changed, Prod.mk.injEq]
        omega
    · next hstate =>
      refine erase_counts hget rfl ?_ ?_ hdeparted rfl
      · simp [weight, hstate]
      · simp only [weight, hstate, hsize]
        simp
        omega

/-! ### Leases count right -/

theorem expireOne_counts {guid : WriterGuid} (hget : t.writers.get? guid = some tracked)
    (hstate : tracked.state = .alive) : Counts t (t.expireOne guid) := by
  have hmodify := fun state => population_modify state
    (f := fun tracked => { tracked with state := .notAlive }) hget
  have halive := hmodify .alive
  have hnotAlive := hmodify .notAlive
  simp only [weight, hstate] at halive hnotAlive
  simp only [reduceCtorEq, if_true, if_false] at halive hnotAlive
  refine ⟨fun h => ⟨?_, ?_, fun g hg => ?_⟩, ?_⟩
  · show t.alive - 1 = (population .alive (t.writers.modify guid _) : Int)
    have := h.alive
    omega
  · show t.notAlive + 1 = (population .notAlive (t.writers.modify guid _) : Int) + t.departed.size
    have := h.notAlive
    omega
  · show (t.writers.modify guid _).get? g = none
    have hnone := h.apart g hg
    have hne : g ≠ guid := by
      rintro rfl
      rw [hget] at hnone
      cases hnone
    rw [get?_modify, if_neg hne, hnone]
  · simp only [drift, expireOne, changed, Prod.mk.injEq]
    omega

theorem foldl_expireOne_counts {guids : List WriterGuid} (hnodup : guids.Nodup)
    (halive : ∀ g ∈ guids, ∃ tracked, t.writers.get? g = some tracked ∧ tracked.state = .alive) :
    Counts t (guids.foldl expireOne t) := by
  induction guids generalizing t with
  | nil => exact .refl t
  | cons guid rest ih =>
    obtain ⟨tracked, hget, hstate⟩ := halive guid List.mem_cons_self
    obtain ⟨hnew, hrest⟩ := List.nodup_cons.mp hnodup
    refine (expireOne_counts hget hstate).trans (ih hrest fun g hg => ?_)
    have hne : g ≠ guid := fun heq => hnew (heq ▸ hg)
    show ∃ tracked, (t.writers.modify guid _).get? g = some tracked ∧ _
    rw [get?_modify, if_neg hne]
    exact halive g (List.mem_cons_of_mem _ hg)

theorem expire_counts (t : LivelinessTracker) (now : Nat) : Counts t (t.expire now).1 := by
  refine foldl_expireOne_counts ?_ fun g hg => ?_
  · exact t.writers.keys_nodup.sublist (List.filter_sublist.map Prod.fst)
  · obtain ⟨e, he, rfl⟩ := List.mem_map.mp hg
    obtain ⟨hmem, hdue⟩ := List.mem_filter.mp he
    refine ⟨e.2, get?_eq_some.mpr hmem, ?_⟩
    by_contra hstate
    simp [due, hstate] at hdue

end LivelinessTracker

structure LivelinessLog where
  tracker : LivelinessTracker := {}
  /-- The statuses that wait to be acknowledged, each with how many were before it was taken. -/
  taken : List (LivelinessChangedStatus × Nat) := []
  acknowledged : Nat := 0
  last : LivelinessChangedStatus := {}

inductive LivelinessCall where
  | matched (writer : WriterGuid) (kind : LivelinessKind) (lease : Option Nat) (now : Nat)
  | unmatched (writer : WriterGuid)
  | lostWithParticipant (writer : WriterGuid)
  | writerAsserted (writer : WriterGuid) (now : Nat)
  | participantAsserted (guidPrefix : GuidPrefix) (manual : Bool) (now : Nat)
  | expire (now : Nat)
  /-- A status is taken for a listener, to be acknowledged once it was called. -/
  | status
  /-- The status at this place among those taken is acknowledged. -/
  | acknowledge (i : Nat)
  | takeStatus

namespace LivelinessLog

def call (s : LivelinessLog) : LivelinessCall → LivelinessTracker
  | .matched writer kind lease now => (s.tracker.matched writer kind lease now).1
  | .unmatched writer => (s.tracker.unmatched writer).1
  | .lostWithParticipant writer => (s.tracker.lostWithParticipant writer).1
  | .writerAsserted writer now => (s.tracker.writerAsserted writer now).1
  | .participantAsserted guidPrefix manual now =>
    (s.tracker.participantAsserted guidPrefix manual now).1
  | .expire now => (s.tracker.expire now).1
  | .status | .acknowledge _ | .takeStatus => s.tracker

def acknowledge (s : LivelinessLog) (reported : LivelinessChangedStatus) : LivelinessLog :=
  { s with
    tracker := s.tracker.acknowledge reported
    acknowledged := s.acknowledged + 1
    last := reported }

def step (s : LivelinessLog) (c : LivelinessCall) : LivelinessLog × Unit :=
  match c with
  | .status => ({ s with taken := s.taken ++ [(s.tracker.status, s.acknowledged)] }, ())
  | .acknowledge i =>
    match s.taken[i]? with
    | none => (s, ())
    | some reported => ({ s with taken := s.taken.eraseIdx i }.acknowledge reported.1, ())
  | .takeStatus => (s.acknowledge s.tracker.status, ())
  | c => ({ s with tracker := s.call c }, ())

def Undisturbed (s : LivelinessLog) : LivelinessCall → Prop
  | .acknowledge i => ∀ reported ∈ s.taken[i]?, reported.2 = s.acknowledged
  | _ => True

instance (s : LivelinessLog) : (c : LivelinessCall) → Decidable (s.Undisturbed c)
  | .acknowledge i =>
    inferInstanceAs (Decidable (∀ reported ∈ s.taken[i]?, reported.2 = s.acknowledged))
  | .matched .. | .unmatched _ | .lostWithParticipant _ | .writerAsserted .. |
    .participantAsserted .. | .expire _ | .status | .takeStatus => .isTrue trivial

variable {s : LivelinessLog}

theorem call_counts (h : s.tracker.Exact) (c : LivelinessCall) : s.tracker.Counts (s.call c) := by
  cases c with
  | matched writer kind lease now => exact s.tracker.matched_counts writer kind lease now
  | unmatched writer => exact s.tracker.unmatched_counts writer
  | lostWithParticipant writer => exact LivelinessTracker.lostWithParticipant_counts writer h
  | writerAsserted writer now => exact s.tracker.renew_counts _ now
  | participantAsserted guidPrefix manual now => exact s.tracker.renew_counts _ now
  | expire now => exact s.tracker.expire_counts now
  | status | acknowledge | takeStatus => exact .refl _

theorem step_cases (s : LivelinessLog) (c : LivelinessCall) :
    (s.step c).1 = { s with tracker := s.call c } ∨
      (s.step c).1 = { s with taken := s.taken ++ [(s.tracker.status, s.acknowledged)] } ∨
      (s.step c).1 = s.acknowledge s.tracker.status ∨
      ∃ i reported, c = .acknowledge i ∧ s.taken[i]? = some reported ∧
        (s.step c).1 = { s with taken := s.taken.eraseIdx i }.acknowledge reported.1 := by
  cases c with
  | status => exact .inr (.inl rfl)
  | takeStatus => exact .inr (.inr (.inl rfl))
  | acknowledge i =>
    simp only [step]
    split
    · exact .inl rfl
    · next reported htaken => exact .inr (.inr (.inr ⟨i, reported, rfl, htaken, rfl⟩))
  | _ => exact .inl rfl

theorem step_exact (h : s.tracker.Exact) (c : LivelinessCall) : (s.step c).1.tracker.Exact := by
  obtain ⟨halive, hnotAlive, hapart⟩ := h
  rcases s.step_cases c with heq | heq | heq | ⟨i, reported, -, -, heq⟩ <;> rw [heq]
  · exact (call_counts ⟨halive, hnotAlive, hapart⟩ c).1 ⟨halive, hnotAlive, hapart⟩
  · exact ⟨halive, hnotAlive, hapart⟩
  · exact ⟨halive, hnotAlive, hapart⟩
  · exact ⟨halive, hnotAlive, hapart⟩

def Moved (last status : LivelinessChangedStatus) : Prop :=
  status.aliveCountChange = status.aliveCount - last.aliveCount ∧
    status.notAliveCountChange = status.notAliveCount - last.notAliveCount

/-- The changes that are pending, in the tracker and in the statuses taken since the last one was
acknowledged. -/
structure Pending (s : LivelinessLog) : Prop where
  moved : Moved s.last s.tracker.status
  before : ∀ reported ∈ s.taken, reported.2 ≤ s.acknowledged
  taken : ∀ reported ∈ s.taken, reported.2 = s.acknowledged → Moved s.last reported.1

theorem Pending.acknowledge (h : s.Pending) {reported : LivelinessChangedStatus}
    (hreported : Moved s.last reported) : (s.acknowledge reported).Pending := by
  obtain ⟨halive, hnotAlive⟩ := h.moved
  obtain ⟨halive', hnotAlive'⟩ := hreported
  refine ⟨⟨?_, ?_⟩, fun r hr => Nat.le_succ_of_le (h.before r hr), fun r hr heq => ?_⟩
  · simp only [LivelinessTracker.status] at halive
    simp only [LivelinessLog.acknowledge, LivelinessTracker.acknowledge, LivelinessTracker.status]
    omega
  · simp only [LivelinessTracker.status] at hnotAlive
    simp only [LivelinessLog.acknowledge, LivelinessTracker.acknowledge, LivelinessTracker.status]
    omega
  · have hle := h.before r hr
    simp only [LivelinessLog.acknowledge] at heq
    omega

theorem step_pending (hexact : s.tracker.Exact) (h : s.Pending) {c : LivelinessCall}
    (hc : s.Undisturbed c) : (s.step c).1.Pending := by
  rcases s.step_cases c with heq | heq | heq | ⟨i, reported, rfl, htaken, heq⟩ <;> rw [heq]
  · refine ⟨?_, h.before, h.taken⟩
    have hdrift := (call_counts hexact c).2
    obtain ⟨halive, hnotAlive⟩ := h.moved
    simp only [LivelinessTracker.drift, Prod.mk.injEq] at hdrift
    simp only [LivelinessTracker.status] at halive hnotAlive
    constructor
    · simp only [LivelinessTracker.status]
      omega
    · simp only [LivelinessTracker.status]
      omega
  · refine ⟨h.moved, fun r hr => ?_, fun r hr hlast => ?_⟩
    · rcases List.mem_append.mp hr with hr | hr
      · exact h.before r hr
      · rw [List.mem_singleton.mp hr]
    · rcases List.mem_append.mp hr with hr | hr
      · exact h.taken r hr hlast
      · rw [List.mem_singleton.mp hr]
        exact h.moved
  · exact h.acknowledge h.moved
  · have hmoved := h.taken reported (List.mem_of_getElem? htaken) (hc reported htaken)
    have hrest : ({ s with taken := s.taken.eraseIdx i } : LivelinessLog).Pending :=
      ⟨h.moved, fun r hr => h.before r (List.mem_of_mem_eraseIdx hr),
        fun r hr => h.taken r (List.mem_of_mem_eraseIdx hr)⟩
    exact hrest.acknowledge hmoved

theorem exact_start : ({} : LivelinessLog).tracker.Exact :=
  ⟨rfl, rfl, fun _ _ => rfl⟩

variable {h : History LivelinessCall Unit}

theorem reaches_exact {ok : LivelinessLog → LivelinessCall → Prop} (hr : Reaches step ok {} h s) :
    s.tracker.Exact := by
  refine Reaches.invariant (P := fun _ s => s.tracker.Exact) exact_start ?_ hr
  intro _ s c hexact _
  exact step_exact hexact c

theorem reaches_pending (hr : Reaches step Undisturbed {} h s) : s.Pending := by
  refine (Reaches.invariant (P := fun _ s => s.tracker.Exact ∧ s.Pending)
    ⟨exact_start, ⟨rfl, rfl⟩, nofun, nofun⟩ ?_ hr).2
  rintro _ s c ⟨hexact, hpending⟩ hc
  exact ⟨step_exact hexact c, step_pending hexact hpending hc⟩

theorem nodup_counted {t : LivelinessTracker} (h : t.Exact) :
    (t.writersIn .alive ++ t.writersIn .notAlive ++ t.departed.keys).Nodup := by
  have hstate : ∀ guid state, guid ∈ t.writersIn state →
      ∃ tracked, t.writers.get? guid = some tracked ∧ tracked.state = state := by
    intro guid state hguid
    obtain ⟨e, he, rfl⟩ := List.mem_map.mp hguid
    obtain ⟨hmem, hstate⟩ := List.mem_filter.mp he
    exact ⟨e.2, get?_eq_some.mpr hmem, of_decide_eq_true hstate⟩
  have hnodup : ∀ state, (t.writersIn state).Nodup := fun state =>
    t.writers.keys_nodup.sublist (List.filter_sublist.map Prod.fst)
  refine List.nodup_append.mpr ⟨List.nodup_append.mpr ⟨hnodup _, hnodup _, ?_⟩,
    t.departed.keys_nodup, ?_⟩
  · rintro guid hguid _ hguid' rfl
    obtain ⟨tracked, hget, hs⟩ := hstate guid _ hguid
    obtain ⟨tracked', hget', hs'⟩ := hstate guid _ hguid'
    rw [hget] at hget'
    cases hget'
    rw [hs] at hs'
    cases hs'
  · rintro guid hguid _ hguid' rfl
    have hgone := h.apart guid (contains_iff.mpr (mem_keys.mp hguid'))
    rcases List.mem_append.mp hguid with hguid | hguid <;>
      obtain ⟨tracked, hget, -⟩ := hstate guid _ hguid <;>
      rw [hgone] at hget <;> cases hget

/-- After every run of calls the counts are the numbers of writers that are alive, and that are not
alive or have departed, and no writer is in both.  Where no other status is acknowledged between
the taking of a status and its acknowledgement, the changes are what the counts have moved since
the last status acknowledged. -/
theorem liveliness_changed_is_exact (h : History LivelinessCall Unit) (s : LivelinessLog) :
    (Reaches step unrestricted {} h s →
      s.tracker.status.aliveCount = (s.tracker.writersIn .alive).length ∧
      s.tracker.status.notAliveCount =
        (s.tracker.writersIn .notAlive).length + s.tracker.departed.size ∧
      (s.tracker.writersIn .alive ++ s.tracker.writersIn .notAlive ++
        s.tracker.departed.keys).Nodup) ∧
    (Reaches step Undisturbed {} h s →
      s.tracker.status.aliveCountChange =
        s.tracker.status.aliveCount - s.last.aliveCount ∧
      s.tracker.status.notAliveCountChange =
        s.tracker.status.notAliveCount - s.last.notAliveCount) := by
  refine ⟨fun hr => ?_, fun hr => (reaches_pending hr).moved⟩
  have hexact := reaches_exact hr
  refine ⟨?_, ?_, nodup_counted hexact⟩
  · rw [LivelinessTracker.length_writersIn]
    exact hexact.alive
  · rw [LivelinessTracker.length_writersIn]
    exact hexact.notAlive

/-- A writer is matched, lost with its participant and matched again while a status waits. -/
def returning : List LivelinessCall :=
  [.matched (Octets16.repeated 1) .manualByTopic (some 5) 0,
    .writerAsserted (Octets16.repeated 1) 1, .status, .expire 9,
    .lostWithParticipant (Octets16.repeated 1), .acknowledge 0,
    .matched (Octets16.repeated 1) .automatic none 10]

theorem returning_is_exact :
    (run step {} returning).1.tracker.status.aliveCount = 1 ∧
      (run step {} returning).1.tracker.status.aliveCountChange =
        (run step {} returning).1.tracker.status.aliveCount -
          (run step {} returning).1.last.aliveCount := by
  have hok : RunOk step Undisturbed {} returning := by decide +kernel
  refine ⟨by decide +kernel, ?_⟩
  exact ((liveliness_changed_is_exact _ _).2 (reaches_run hok)).1

/-- A status is taken for a listener, and read and reset before the listener's is acknowledged. -/
def readWithin : List LivelinessCall :=
  [.matched (Octets16.repeated 1) .automatic none 0, .status, .takeStatus, .acknowledge 0]

/-- The one alive writer is taken off the changes twice. -/
theorem status_taken_within_listener :
    (run step {} readWithin).1.taken = [] ∧
      (run step {} readWithin).1.tracker.status.aliveCount = 1 ∧
      (run step {} readWithin).1.last.aliveCount = 1 ∧
      (run step {} readWithin).1.tracker.status.aliveCountChange = -1 := by
  decide +kernel

end LivelinessLog

end ZeroDds.Dcps
