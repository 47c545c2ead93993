/-
The lives of the result instances.
-/
import ZeroDds.MultiTopic.Tuples

namespace ZeroDds.MultiTopic

open Dcps (KeyHash Time InstanceHandle InstanceStateKind)
open Rtps (ChangeKind)

variable {τ Expr Value : Type} [SqlFilter Expr Value]

/-! ### What a reader was told -/

def UserSample.isMarker : UserSample → Bool
  | lifecycle _ _ .notAliveDisposed _ => true
  | lifecycle _ _ .notAliveUnregistered _ => true
  | _ => false

def lastFor (k : KeyHash) (out : List UserSample) : Option UserSample :=
  (out.filter fun u => u.key = k).getLast?

variable (s : EngineState)

def Live (t : Tuple) : Prop := ∀ p ∈ t.zipIdx, s.state? p.2 p.1 = some .alive

def HasLive (k : KeyHash) : Prop :=
  ∃ e ∈ s.combos.entries, e.2.keyHash = k ∧ Live s e.1

/-- The last entry for each result instance is a data sample exactly when a live tuple
has its key, and a dispose or an unregister otherwise. -/
def Told (out : List UserSample) : Prop :=
  ∀ k u, lastFor k out = some u →
    (u.isAlive = true ↔ HasLive s k) ∧ (¬ HasLive s k → u.isMarker = true)

instance (s : EngineState) (t : Tuple) : Decidable (Live s t) :=
  inferInstanceAs (Decidable (∀ p ∈ t.zipIdx, s.state? p.2 p.1 = some .alive))

instance (s : EngineState) (k : KeyHash) : Decidable (HasLive s k) :=
  inferInstanceAs (Decidable (∃ e ∈ s.combos.entries, e.2.keyHash = k ∧ Live s e.1))

/-! ### The condition on a sample -/

def KeyStays (s₁ : EngineState) (rs : List (Tuple × SerializedSample)) (k : KeyHash) : Prop :=
  (∃ r ∈ rs, r.2.keyMaterial.1 = k) ∨
  ∃ e ∈ s.combos.entries, e.1 ∉ rs.map Prod.fst ∧ e.2.keyHash = k ∧ Live s₁ e.1

instance (s s₁ : EngineState) (rs : List (Tuple × SerializedSample)) (k : KeyHash) :
    Decidable (KeyStays s s₁ rs k) := inferInstanceAs (Decidable (_ ∨ _))

/-- Every recorded tuple that the sample makes live again gets a new result sample, and
a live tuple that takes another key leaves its old one to another live tuple. -/
def DataKeepsLives (s₁ : EngineState) (rs : List (Tuple × SerializedSample)) : Prop :=
  (∀ e ∈ s.combos.entries, ¬ Live s e.1 → Live s₁ e.1 → e.1 ∈ rs.map Prod.fst) ∧
  ∀ r ∈ rs, ∀ e ∈ s.combos.entries, e.1 = r.1 → Live s e.1 → r.2.keyMaterial.1 ≠ e.2.keyHash →
    KeyStays s s₁ rs e.2.keyHash

/-- A tuple that ends has a key of no live tuple, and a tuple that is live again has a key
that was live all along. -/
def ChangeKeepsLives (s₁ : EngineState) (i : Nat) (h : InstanceHandle) : Prop :=
  (∀ e ∈ s.combos.entries, Through i h e.1 → HasLive s₁ e.2.keyHash →
    tupleState s₁ e.1 = e.2.state ∨ tupleState s₁ e.1 = .alive) ∧
  ∀ e ∈ s.combos.entries, ¬ Live s e.1 → Live s₁ e.1 → HasLive s e.2.keyHash

def KeepsLives (plan : MultiTopicPlan τ Expr) (s : EngineState) (a : Nat × Taken Value) : Prop :=
  if a.2.validData then
    DataKeepsLives s (record s a.1 a.2)
      (results plan (record s a.1 a.2) a.2.parameters
        (tuples plan (record s a.1 a.2) a.1 a.2.instanceHandle))
  else
    ChangeKeepsLives s (change s a.1 a.2) a.1 a.2.instanceHandle

instance (s s₁ : EngineState) (rs : List (Tuple × SerializedSample)) :
    Decidable (DataKeepsLives s s₁ rs) := inferInstanceAs (Decidable (_ ∧ _))

instance (s s₁ : EngineState) (i : Nat) (h : InstanceHandle) :
    Decidable (ChangeKeepsLives s s₁ i h) := inferInstanceAs (Decidable (_ ∧ _))

instance (plan : MultiTopicPlan τ Expr) (s : EngineState) (a : Nat × Taken Value) :
    Decidable (KeepsLives plan s a) := inferInstanceAs (Decidable (ite _ _ _))

/-! ### Tuples and their states -/

variable {s : EngineState} {t : Tuple} {out : List UserSample}

theorem live_iff : Live s t ↔ ∀ i h, t[i]? = some h → s.state? i h = some .alive := by
  constructor
  · intro hl i h ht
    exact hl (h, i) (List.mem_zipIdx_iff_getElem?.mpr ht)
  · rintro hl ⟨h, i⟩ hp
    exact hl i h (List.mem_zipIdx_iff_getElem?.mp hp)

theorem tupleState_of_live (h : Live s t) : tupleState s t = .alive := by
  have hnone : ∀ k : InstanceStateKind, k ≠ .alive →
      ¬ (t.zipIdx.any fun p => s.state? p.2 p.1 = some k) = true := by
    intro k hk hany
    obtain ⟨p, hp, hstate⟩ := List.any_eq_true.mp hany
    have hp' := decide_eq_true_eq.mp hstate
    rw [h p hp] at hp'
    exact hk (Option.some.inj hp').symm
  refine (if_neg ?_).trans (if_neg ?_)
  · exact hnone _ (by decide)
  · exact hnone _ (by decide)

theorem live_of_tupleState (known : ∀ p ∈ t.zipIdx, (s.state? p.2 p.1).isSome)
    (h : tupleState s t = .alive) : Live s t := by
  intro p hp
  obtain ⟨k, hk⟩ := Option.isSome_iff_exists.mp (known p hp)
  rw [tupleState] at h
  split at h
  · cases h
  · next hdisposed =>
    split at h
    · cases h
    · next hwriters =>
      cases k with
      | alive => exact hk
      | notAliveDisposed =>
        exact absurd (List.any_eq_true.mpr ⟨p, hp, decide_eq_true hk⟩) hdisposed
      | notAliveNoWriters =>
        exact absurd (List.any_eq_true.mpr ⟨p, hp, decide_eq_true hk⟩) hwriters

theorem live_congr {s₁ : EngineState} {i : Nat} {h : InstanceHandle}
    (hother : ∀ j k, ¬ (j = i ∧ k = h) → s₁.state? j k = s.state? j k) (ht : ¬ Through i h t) :
    Live s₁ t ↔ Live s t := by
  have hsame : ∀ j k, t[j]? = some k → s₁.state? j k = s.state? j k := by
    intro j k hj
    refine hother j k ?_
    rintro ⟨rfl, rfl⟩
    exact ht hj
  rw [live_iff, live_iff]
  constructor
  · intro hl j k hj
    rw [← hsame j k hj]
    exact hl j k hj
  · intro hl j k hj
    rw [hsame j k hj]
    exact hl j k hj

theorem lastFor_append {k : KeyHash} {new : List UserSample} {u : UserSample}
    (h : lastFor k (out ++ new) = some u) :
    (u ∈ new ∧ u.key = k) ∨ ((∀ v ∈ new, v.key ≠ k) ∧ lastFor k out = some u) := by
  rw [lastFor, List.filter_append, List.getLast?_append] at h
  rcases Option.or_eq_some_iff.mp h with hnew | ⟨hnone, hout⟩
  · left
    obtain ⟨hmem, hkey⟩ := List.mem_filter.mp (List.mem_of_getLast? hnew)
    exact ⟨hmem, by simpa using hkey⟩
  · right
    refine ⟨fun v hv hk => ?_, hout⟩
    rw [List.getLast?_eq_none_iff, List.filter_eq_nil_iff] at hnone
    exact hnone v hv (by simpa using hk)

@[simp] theorem SerializedSample.key_entry (sample : SerializedSample) (stamp : Time) :
    (sample.entry stamp).key = sample.keyMaterial.1 := by
  unfold SerializedSample.entry SerializedSample.keyMaterial UserSample.key
  cases sample.key with
  | none => rfl
  | some k => rfl

theorem markerOf_spec {stamp : Time} {c : Combo} {u : UserSample}
    (h : markerOf s stamp t c = some u) :
    u.key = c.keyHash ∧ u.isAlive = false ∧ u.isMarker = true := by
  unfold markerOf at h
  split at h
  · cases h
  · obtain ⟨kind, hkind, rfl⟩ := Option.map_eq_some_iff.mp h
    refine ⟨rfl, rfl, ?_⟩
    cases hstate : tupleState s t with
    | alive =>
      rw [hstate] at hkind
      cases hkind
    | notAliveDisposed =>
      rw [hstate] at hkind
      cases hkind
      rfl
    | notAliveNoWriters =>
      rw [hstate] at hkind
      cases hkind
      rfl

/-- What holds between two samples: the instances of a recorded tuple are known, a live
tuple is recorded as alive, and the last entries tell which keys have a live tuple. -/
structure Kept (s : EngineState) (out : List UserSample) : Prop where
  known : ∀ e ∈ s.combos.entries, ∀ p ∈ e.1.zipIdx, (s.state? p.2 p.1).isSome
  alive : ∀ e ∈ s.combos.entries, Live s e.1 → e.2.state = .alive
  last : ∀ k u, lastFor k out = some u → (u.isAlive = true ↔ HasLive s k)
  entries : ∀ u ∈ out, u.isAlive = false → u.isMarker = true

theorem kept_new (n : Nat) : Kept (EngineState.new n) [] where
  known e he := by cases he
  alive e he := by cases he
  last k u h := by cases h
  entries u hu := by cases hu

theorem Kept.told (hk : Kept s out) : Told s out := by
  intro k u hu
  have hlast := hk.last k u hu
  refine ⟨hlast, fun hno => ?_⟩
  have hmem := (List.mem_filter.mp (List.mem_of_getLast? hu)).1
  exact hk.entries u hmem (Bool.eq_false_iff.mpr fun halive => hno (hlast.mp halive))

section Data

variable {plan : MultiTopicPlan τ Expr} {s : EngineState} {i : Nat} {sample : Taken Value}

theorem live_record (hi : i < s.instances.length) (h : Live s t) : Live (record s i sample) t := by
  intro p hp
  rw [state?_record hi]
  split
  · rfl
  · exact h p hp

omit [SqlFilter Expr Value] in
theorem live_of_mem_tuples (hi : i < s.instances.length)
    (ht : t ∈ tuples plan (record s i sample) i sample.instanceHandle) :
    Live (record s i sample) t := by
  obtain ⟨-, hall⟩ := mem_tuples.mp ht
  rw [live_iff]
  intro j a hj
  have hmem := (hall j a hj).1
  unfold candidates at hmem
  split at hmem
  · next hji =>
    rw [state?_record hi, if_pos ⟨hji, List.mem_singleton.mp hmem⟩]
  · exact (mem_liveInstances.mp hmem).2

theorem mem_entries_emitted {s₁ s' : EngineState} {rs : List (Tuple × SerializedSample)}
    (hem : Emitted s₁ rs s') (hnodup : (rs.map Prod.fst).Nodup) {e : Tuple × Combo} :
    e ∈ s'.combos.entries ↔
      (∃ r ∈ rs, e = (r.1, comboOf r.2)) ∨ (e.1 ∉ rs.map Prod.fst ∧ e ∈ s₁.combos.entries) := by
  have hkeys : (rs.map fun r => (r.1, comboOf r.2)).map Prod.fst = rs.map Prod.fst := by
    rw [List.map_map]
    rfl
  obtain ⟨t, c⟩ := e
  rw [← SortedMap.get?_eq_some, ← SortedMap.get?_eq_some, hem.combos]
  by_cases ht : t ∈ rs.map Prod.fst
  · obtain ⟨r, hr, rfl⟩ := List.mem_map.mp ht
    have hget := SortedMap.get?_insertAll_of_mem s₁.combos (hkeys ▸ hnodup)
      (List.mem_map.mpr ⟨r, hr, rfl⟩)
    rw [hget]
    constructor
    · intro hc
      exact .inl ⟨r, hr, by rw [← Option.some.inj hc]⟩
    · rintro (⟨r', hr', heq⟩ | ⟨hno, -⟩)
      · obtain ⟨hfst, hsnd⟩ := Prod.mk.inj heq
        have hrr : r = r' := List.inj_on_of_nodup_map hnodup hr hr' hfst
        rw [hrr, hsnd]
      · exact absurd ht hno
  · rw [SortedMap.get?_insertAll_of_not_mem _ (hkeys ▸ ht)]
    constructor
    · exact fun hc => .inr ⟨ht, hc⟩
    · rintro (⟨r', hr', heq⟩ | ⟨-, hc⟩)
      · exact absurd (List.mem_map.mpr ⟨r', hr', (Prod.mk.inj heq).1.symm⟩) ht
      · exact hc

theorem Kept.data (hk : Kept s out) (hi : i < s.instances.length)
    {rs : List (Tuple × SerializedSample)}
    (hrs : rs = results plan (record s i sample) sample.parameters
      (tuples plan (record s i sample) i sample.instanceHandle))
    (hok : DataKeepsLives s (record s i sample) rs) {s' : EngineState}
    (hem : Emitted (record s i sample) rs s') (stamp : Time) :
    Kept s' (out ++ rs.map fun r => r.2.entry stamp) := by
  obtain ⟨hrevived, hrekeyed⟩ := hok
  have hnodup : (rs.map Prod.fst).Nodup := hrs ▸ nodup_results nodup_tuples
  have hmem := @mem_entries_emitted _ s' rs hem hnodup
  have hlive : ∀ t, Live s' t ↔ Live (record s i sample) t := fun t => by
    unfold Live
    rw [hem.state]
  have hnew : ∀ r ∈ rs, Live (record s i sample) r.1 := by
    rintro ⟨t, x⟩ hr
    rw [hrs] at hr
    exact live_of_mem_tuples hi (mem_results.mp hr).1
  refine ⟨fun e he p hp => ?_, fun e he hl => ?_, fun k u hu => ?_, fun u hu hdead => ?_⟩
  · rw [hem.state]
    rcases hmem.mp he with ⟨r, hr, rfl⟩ | ⟨-, hold⟩
    · rw [hnew r hr p hp]
      rfl
    · rw [state?_record hi]
      split
      · rfl
      · exact hk.known e hold p hp
  · rcases hmem.mp he with ⟨r, hr, rfl⟩ | ⟨hno, hold⟩
    · rfl
    · by_cases hbefore : Live s e.1
      · exact hk.alive e hold hbefore
      · exact absurd (hrevived e hold hbefore ((hlive e.1).mp hl)) hno
  · rcases lastFor_append hu with ⟨hin, rfl⟩ | ⟨hnone, hlast⟩
    · obtain ⟨r, hr, rfl⟩ := List.mem_map.mp hin
      refine iff_of_true rfl ⟨_, hmem.mpr (.inl ⟨r, hr, rfl⟩), ?_, (hlive _).mpr (hnew r hr)⟩
      exact (SerializedSample.key_entry r.2 stamp).symm
    · have hother : ∀ r ∈ rs, r.2.keyMaterial.1 ≠ k := by
        intro r hr
        rw [← SerializedSample.key_entry r.2 stamp]
        exact hnone _ (List.mem_map.mpr ⟨r, hr, rfl⟩)
      rw [hk.last k u hlast]
      constructor
      · rintro ⟨e, he, rfl, hl⟩
        by_cases hin : e.1 ∈ rs.map Prod.fst
        · -- The tuple has a new key; its old one is left to another live tuple.
          obtain ⟨r, hr, hre⟩ := List.mem_map.mp hin
          rcases hrekeyed r hr e he hre.symm hl (hother r hr) with
            ⟨r', hr', hkey⟩ | ⟨e', he', hno, hkey, hl'⟩
          · exact absurd hkey (hother r' hr')
          · exact ⟨e', hmem.mpr (.inr ⟨hno, he'⟩), hkey, (hlive _).mpr hl'⟩
        · exact ⟨e, hmem.mpr (.inr ⟨hin, he⟩), rfl, (hlive _).mpr (live_record hi hl)⟩
      · rintro ⟨e, he, rfl, hl⟩
        rcases hmem.mp he with ⟨r, hr, rfl⟩ | ⟨hno, hold⟩
        · exact absurd rfl (hother r hr)
        · by_cases hbefore : Live s e.1
          · exact ⟨e, hold, rfl, hbefore⟩
          · exact absurd (hrevived e hold hbefore ((hlive e.1).mp hl)) hno
  · rcases List.mem_append.mp hu with hold | hin
    · exact hk.entries u hold hdead
    · obtain ⟨r, hr, rfl⟩ := List.mem_map.mp hin
      cases hdead

end Data

section Change

variable {s : EngineState} {i : Nat} {sample : Taken Value}

theorem mem_entries_retire {s₁ : EngineState} {h : InstanceHandle} {stamp : Time}
    {e : Tuple × Combo} :
    e ∈ (retire s₁ i h stamp).1.combos.entries ↔
      ∃ e' ∈ s₁.combos.entries, e =
        (e'.1, if Through i h e'.1 then { e'.2 with state := tupleState s₁ e'.1 } else e'.2) := by
  simp [retire, SortedMap.mapWithKey, eq_comm]

theorem mem_retire {s₁ : EngineState} {h : InstanceHandle} {stamp : Time} {u : UserSample} :
    u ∈ (retire s₁ i h stamp).2 ↔
      ∃ e ∈ s₁.combos.entries, Through i h e.1 ∧ markerOf s₁ stamp e.1 e.2 = some u := by
  simp [retire]

theorem Kept.change (hk : Kept s out) (hi : i < s.instances.length) (stamp : Time)
    (hok : ChangeKeepsLives s (change s i sample) i sample.instanceHandle) :
    Kept (retire (change s i sample) i sample.instanceHandle stamp).1
      (out ++ (retire (change s i sample) i sample.instanceHandle stamp).2) := by
  obtain ⟨htold, hrevived⟩ := hok
  have hother : ∀ j k, ¬ (j = i ∧ k = sample.instanceHandle) →
      (MultiTopic.change s i sample).state? j k = s.state? j k := by
    intro j k hne
    rw [state?_change hi, if_neg hne]
  have hknown : ∀ e ∈ s.combos.entries, ∀ p ∈ e.1.zipIdx,
      ((MultiTopic.change s i sample).state? p.2 p.1).isSome := by
    intro e he p hp
    rw [state?_change hi]
    split
    · rfl
    · exact hk.known e he p hp
  refine ⟨fun e he p hp => ?_, fun e he hl => ?_, fun k u hu => ?_, fun u hu hdead => ?_⟩
  · obtain ⟨e', he', rfl⟩ := mem_entries_retire.mp he
    exact hknown e' he' p hp
  · obtain ⟨e', he', rfl⟩ := mem_entries_retire.mp he
    by_cases hthrough : Through i sample.instanceHandle e'.1
    · rw [if_pos hthrough]
      exact tupleState_of_live hl
    · rw [if_neg hthrough]
      exact hk.alive e' he' ((live_congr hother hthrough).mp hl)
  · -- Retiring changes no key and no instance, so the keys with a live tuple can be read
    -- off before it.
    have hsame : HasLive (retire (MultiTopic.change s i sample) i sample.instanceHandle stamp).1 k ↔
        HasLive (MultiTopic.change s i sample) k := by
      constructor
      · rintro ⟨e, he, rfl, hl⟩
        obtain ⟨e', he', rfl⟩ := mem_entries_retire.mp he
        refine ⟨e', he', ?_, hl⟩
        dsimp only
        split <;> rfl
      · rintro ⟨e, he, rfl, hl⟩
        refine ⟨_, mem_entries_retire.mpr ⟨e, he, rfl⟩, ?_, hl⟩
        dsimp only
        split <;> rfl
    rw [hsame]
    rcases lastFor_append hu with ⟨hin, rfl⟩ | ⟨hnone, hlast⟩
    · obtain ⟨e, he, hthrough, hmarker⟩ := mem_retire.mp hin
      obtain ⟨hkey, hdead, -⟩ := markerOf_spec hmarker
      rw [hkey]
      refine iff_of_false (by rw [hdead]; decide) fun hl => ?_
      rw [markerOf_eq_none_iff.mpr (htold e he hthrough hl)] at hmarker
      cases hmarker
    · rw [hk.last k u hlast]
      constructor
      · rintro ⟨e, he, rfl, hl⟩
        refine ⟨e, he, rfl, ?_⟩
        by_cases hthrough : Through i sample.instanceHandle e.1
        · -- Were it not live any more, a marker for its key would have been told.
          refine live_of_tupleState (hknown e he) (by_contra fun hdead => ?_)
          have hstate := hk.alive e he hl
          cases hm : markerOf (MultiTopic.change s i sample) stamp e.1 e.2 with
          | some v =>
            exact hnone v (mem_retire.mpr ⟨e, he, hthrough, hm⟩) (markerOf_spec hm).1
          | none =>
            rw [markerOf_eq_none_iff, hstate, or_self] at hm
            exact hdead hm
        · exact (live_congr hother hthrough).mpr hl
      · rintro ⟨e, he, rfl, hl⟩
        by_cases hbefore : Live s e.1
        · exact ⟨e, he, rfl, hbefore⟩
        · exact hrevived e he hbefore hl
  · rcases List.mem_append.mp hu with hold | hin
    · exact hk.entries u hold hdead
    · obtain ⟨e, -, -, hmarker⟩ := mem_retire.mp hin
      exact (markerOf_spec hmarker).2.2

end Change

def LivesKept (plan : MultiTopicPlan τ Expr) (s : EngineState) (a : Nat × Taken Value) : Prop :=
  a.1 < s.instances.length ∧ KeepsLives plan s a

instance (plan : MultiTopicPlan τ Expr) (s : EngineState) (a : Nat × Taken Value) :
    Decidable (LivesKept plan s a) := inferInstanceAs (Decidable (_ ∧ _))

theorem Kept.arrive {plan : MultiTopicPlan τ Expr} {a : Nat × Taken Value} (hk : Kept s out)
    (hok : LivesKept plan s a) : Kept (arrive plan s a).1 (out ++ (arrive plan s a).2) := by
  obtain ⟨hi, hkeeps⟩ := hok
  unfold KeepsLives at hkeeps
  unfold MultiTopic.arrive
  by_cases hv : a.2.validData = true
  · rw [if_pos hv] at hkeeps ⊢
    obtain ⟨hem, hout⟩ := emit_eq plan (record s a.1 a.2) a.1 a.2.instanceHandle
      a.2.sourceTimestamp a.2.parameters
    rw [hout]
    exact hk.data hi rfl hkeeps hem a.2.sourceTimestamp
  · rw [if_neg hv] at hkeeps ⊢
    exact hk.change hi a.2.sourceTimestamp hkeeps

/-- In a run of samples that keep the lives, after every sample, the last entry for a
result key is a data sample exactly when a live tuple has the key. -/
theorem result_lives_follow_tuples (plan : MultiTopicPlan τ Expr) (n : Nat)
    {h : History (Nat × Taken Value) (List UserSample)} {s : EngineState}
    (hr : Reaches (arrive plan) (LivesKept plan) (EngineState.new n) h s) :
    Told s (produced h) := by
  refine Kept.told (Reaches.invariant (P := fun h s => Kept s (produced h)) (kept_new n) ?_ hr)
  intro h s a hk hok
  have := hk.arrive hok
  simpa [produced] using this

theorem not_told_of_live {k : KeyHash}
    (h : (lastFor k out).any (fun u => !u.isAlive) = true ∧ HasLive s k) : ¬ Told s out := by
  intro htold
  obtain ⟨u, hu, hdead⟩ := (Option.any_eq_true _ _).mp h.1
  have halive := (htold k u hu).1.mpr h.2
  rw [halive] at hdead
  cases hdead

namespace Fixture

def perCustomer : SerializedTypeSupport LongType :=
  longs "PerCustomer" [.customer, .country] [.customer]

def selectCustomer : Select := .fields [⟨"customer", none⟩, ⟨"country", none⟩]

def customerAndOrder : List (Nat × Taken Int) :=
  [(1, sampleOf 7 [(.customer, 5), (.country, 49)]),
   (0, sampleOf 3 [(.id, 1), (.customer, 5), (.amount, 20)])]

/-- The first of two orders of a customer is disposed, and the result instance of the
customer with it. -/
def oneOrderOfTwoEnds : List (Nat × Taken Int) :=
  customerAndOrder ++ [(0, sampleOf 4 [(.id, 2), (.customer, 5), (.amount, 30)]),
    (0, markerFor 3 .notAliveDisposed)]

/-- The only order of a customer is disposed and comes back with an amount that the
condition does not let through. -/
def orderComesBackSmaller : List (Nat × Taken Int) :=
  customerAndOrder ++ [(0, markerFor 3 .notAliveDisposed),
    (0, sampleOf 3 [(.id, 1), (.customer, 5), (.amount, 4)])]

/-- In both runs the last entry for the customer is a dispose, while a recorded tuple
with the key has only ALIVE instances. -/
theorem live_tuple_told_disposed :
    (∃ plan : MultiTopicPlan LongType Above,
      MultiTopicPlan.new ⟨selectCustomer, none⟩ [order, customer] perCustomer = .ok plan ∧
      ¬ Told (run (arrive plan) (.new 2) oneOrderOfTwoEnds).1
        (produced (run (arrive plan) (.new 2) oneOrderOfTwoEnds).2)) ∧
    ∃ plan : MultiTopicPlan LongType Above,
      MultiTopicPlan.new ⟨selectCustomer, some ⟨"amount", 10⟩⟩ [order, customer] perCustomer =
        .ok plan ∧
      ¬ Told (run (arrive plan) (.new 2) orderComesBackSmaller).1
        (produced (run (arrive plan) (.new 2) orderComesBackSmaller).2) := by
  constructor
  · obtain ⟨plan, hplan, h⟩ := exists_ok_of_any
      (r := MultiTopicPlan.new ⟨selectCustomer, none⟩ [order, customer] perCustomer)
      (P := fun plan : MultiTopicPlan LongType Above =>
        (lastFor (hashOf [0, 0, 0, 5])
          (produced (run (arrive plan) (.new 2) oneOrderOfTwoEnds).2)).any (fun u => !u.isAlive) =
            true ∧
        HasLive (run (arrive plan) (.new 2) oneOrderOfTwoEnds).1 (hashOf [0, 0, 0, 5]))
      (by decide +kernel)
    exact ⟨plan, hplan, not_told_of_live h⟩
  · obtain ⟨plan, hplan, h⟩ := exists_ok_of_any
      (r := MultiTopicPlan.new ⟨selectCustomer, some ⟨"amount", 10⟩⟩ [order, customer] perCustomer)
      (P := fun plan : MultiTopicPlan LongType Above =>
        (lastFor (hashOf [0, 0, 0, 5])
          (produced (run (arrive plan) (.new 2) orderComesBackSmaller).2)).any
            (fun u => !u.isAlive) = true ∧
        HasLive (run (arrive plan) (.new 2) orderComesBackSmaller).1 (hashOf [0, 0, 0, 5]))
      (by decide +kernel)
    exact ⟨plan, hplan, not_told_of_live h⟩

def orderComesBack : List (Nat × Taken Int) :=
  customerAndOrder ++ [(0, markerFor 3 .notAliveDisposed),
    (0, sampleOf 3 [(.id, 1), (.customer, 5), (.amount, 40)])]

theorem lives_of_returning_order :
    ∃ plan : MultiTopicPlan LongType Above,
      MultiTopicPlan.new ⟨selectCustomer, some ⟨"amount", 10⟩⟩ [order, customer] perCustomer =
        .ok plan ∧
      RunOk (arrive plan) (LivesKept plan) (.new 2) orderComesBack ∧
      Told (run (arrive plan) (.new 2) orderComesBack).1
        (produced (run (arrive plan) (.new 2) orderComesBack).2) := by
  obtain ⟨plan, hplan, hok⟩ := exists_ok_of_any
    (r := MultiTopicPlan.new ⟨selectCustomer, some ⟨"amount", 10⟩⟩ [order, customer] perCustomer)
    (P := fun plan : MultiTopicPlan LongType Above =>
      RunOk (arrive plan) (LivesKept plan) (.new 2) orderComesBack)
    (by decide +kernel)
  exact ⟨plan, hplan, hok, result_lives_follow_tuples plan 2 (reaches_run hok)⟩

end Fixture

end ZeroDds.MultiTopic
