/-
Takes that fail.
-/
import ZeroDds.Dcps.Access

namespace ZeroDds.Dcps.DataReader

variable {T : Type} (cfg : ReaderConfig T)

def errorOf {ε α : Type} : Except ε α → Option ε
  | .error e => some e
  | .ok _ => none

variable {α : Type}

@[simp] theorem errorOf_error {ε : Type} (e : ε) : errorOf (.error e : Except ε α) = some e := rfl

@[simp] theorem errorOf_ok {ε : Type} (a : α) : errorOf (.ok a : Except ε α) = none := rfl

def upTo {α : Type} : Option Nat → List α → List α
  | none, l => l
  | some n, l => l.take n

def leftOf (limit : Option Nat) (taken : Nat) : Option Nat := limit.map (· - taken)

@[simp] theorem leftOf_zero (limit : Option Nat) : leftOf limit 0 = limit := by
  cases limit <;> rfl

variable {limit : Option Nat}

theorem upTo_cons_of_under {taken : Nat} (a : α) (l : List α) (h : underLimit taken limit = true) :
    upTo (leftOf limit taken) (a :: l) = a :: upTo (leftOf limit (taken + 1)) l := by
  cases limit with
  | none => rfl
  | some n =>
    have hlt : taken < n := by simpa [underLimit] using h
    have hsub : n - taken = (n - (taken + 1)) + 1 := by omega
    simp [leftOf, upTo, hsub]

theorem upTo_of_not_under {taken : Nat} (l : List α) (h : underLimit taken limit = false) :
    upTo (leftOf limit taken) l = [] := by
  cases limit with
  | none => cases h
  | some n =>
    have hle : n ≤ taken := by simpa [underLimit] using h
    simp only [leftOf, Option.map_some, upTo, Nat.sub_eq_zero_of_le hle, List.take_zero]

/-! ### When a loop ends without an error -/

def Materialises (r : DataReader T) (s : CachedSample T) : Prop :=
  errorOf (materialize cfg r s) = none

theorem errorOf_drainWanted (r : DataReader T) (wanted : CachedSample T → Bool)
    (limit : Option Nat) (taken : Nat) (cache : List (CachedSample T)) :
    errorOf (drainWanted cfg r wanted limit taken cache).2 = none ↔
      ∀ s ∈ upTo (leftOf limit taken) (cache.filter wanted), Materialises cfg r s := by
  induction cache generalizing taken with
  | nil =>
    cases limit <;> simp [drainWanted, upTo, leftOf]
  | cons s rest ih =>
    cases hw : wanted s with
    | false =>
      rw [List.filter_cons_of_neg (by simp [hw]), ← ih taken]
      simp only [drainWanted, hw, Bool.and_false, Bool.false_eq_true, if_false]
      cases (drainWanted cfg r wanted limit taken rest).2 <;> simp [Except.map]
    | true =>
      rw [List.filter_cons_of_pos hw]
      cases hu : underLimit taken limit with
      | false =>
        rw [upTo_of_not_under _ hu, ← upTo_of_not_under (rest.filter wanted) hu, ← ih taken]
        simp only [drainWanted, hu, Bool.false_and, Bool.false_eq_true, if_false]
        cases (drainWanted cfg r wanted limit taken rest).2 <;> simp [Except.map]
      | true =>
        rw [upTo_cons_of_under _ _ hu, List.forall_mem_cons, ← ih (taken + 1), Materialises]
        simp only [drainWanted, hw, hu, Bool.and_self, if_true]
        cases materialize cfg r s <;> simp

/-- `take` hands the sample out or fails on it; it skips markers and discarded samples. -/
def yields (s : CachedSample T) : Bool :=
  s.bytes.any fun b => match s.decodedOr cfg.codec b with
    | .ok _ => true
    | .error e => !e.isDiscarded

def HasValue (s : CachedSample T) : Prop :=
  s.bytes.all fun b => (errorOf (s.decodedOr cfg.codec b)).isNone

instance (s : CachedSample T) : Decidable (HasValue cfg s) :=
  inferInstanceAs (Decidable (_ = true))

theorem errorOf_drainValues (limit : Option Nat) (taken : Nat) (cache : List (CachedSample T)) :
    errorOf (drainValues cfg limit taken cache).2 = none ↔
      ∀ s ∈ upTo (leftOf limit taken) (cache.filter (yields cfg)), HasValue cfg s := by
  induction cache generalizing taken with
  | nil => cases limit <;> simp [drainValues, upTo, leftOf]
  | cons s rest ih =>
    cases hu : underLimit taken limit with
    | false =>
      rw [upTo_of_not_under _ hu]
      simp [drainValues, hu]
    | true =>
      simp only [drainValues, hu, Bool.not_true, Bool.false_eq_true, if_false]
      cases hb : s.bytes with
      | none =>
        rw [List.filter_cons_of_neg (by simp [yields, hb]), ← ih taken]
      | some b =>
        cases hd : s.decodedOr cfg.codec b with
        | ok sample =>
          rw [List.filter_cons_of_pos (by simp [yields, hb, hd]), upTo_cons_of_under _ _ hu,
            List.forall_mem_cons, ← ih (taken + 1)]
          simp [HasValue, hb, hd]
        | error e =>
          cases he : e.isDiscarded with
          | true =>
            rw [List.filter_cons_of_neg (by simp [yields, hb, hd, he]), ← ih taken]
            simp [hd, he]
          | false =>
            rw [List.filter_cons_of_pos (by simp [yields, hb, hd, he]),
              upTo_cons_of_under _ _ hu, List.forall_mem_cons]
            simp [HasValue, hb, hd, he]

/-! ### The samples and instances of the ingest -/

/-- The same samples in the same order, their instance and view states as they are now,
and the same instances. -/
def Kept (before after : DataReader T) : Prop :=
  after.cache.map (refreshed before.instances) = before.cache.map (refreshed before.instances) ∧
    after.instances = before.instances

@[simp] theorem refreshed_handle (t : InstanceTracker) (s : CachedSample T) :
    (refreshed t s).info.instanceHandle = s.info.instanceHandle := by
  unfold refreshed
  split <;> rfl

@[simp] theorem refreshed_refreshed (t : InstanceTracker) (s : CachedSample T) :
    refreshed t (refreshed t s) = refreshed t s := by
  cases h : t.getByHandle s.info.instanceHandle <;> simp [refreshed, h]

theorem kept_refl (r : DataReader T) : Kept r r := ⟨rfl, rfl⟩

theorem kept_refreshStates (r : DataReader T) : Kept r r.refreshStates := by
  refine ⟨?_, rfl⟩
  simp [refreshStates, Function.comp_def]

theorem not_kept_of_drained {before after : DataReader T} (hne : before.cache ≠ [])
    (hdrained : after.cache = []) : ¬ Kept before after := by
  intro h
  have hnil := h.1
  rw [hdrained] at hnil
  exact hne (List.map_eq_nil_iff.mp hnil.symm)

/-! ### The part of a take after its ingest -/

inductive CacheTake (T : Type) where
  | values
  | selected (sel : Selection) (max : Option Nat)
  | ofInstance (handle : InstanceHandle)
  | query (cond : QueryCondition T)
  | nothing

def CacheTake.run : CacheTake T → DataReader T → DataReader T × Option DdsError
  | .values, r => ((takeValues cfg r).1, errorOf (takeValues cfg r).2)
  | .selected sel max, r => ((takeSelected cfg r sel max).1, errorOf (takeSelected cfg r sel max).2)
  | .ofInstance handle, r =>
    ((takeOfInstance cfg r handle).1, errorOf (takeOfInstance cfg r handle).2)
  | .query cond, r =>
    ((querySelected cfg r cond none true none).1,
      errorOf (querySelected cfg r cond none true none).2)
  | .nothing, r => (r, none)

def CleanLoop (r : DataReader T) (wanted : CachedSample T → Bool) (limit : Option Nat) : Prop :=
  (∃ s ∈ r.refreshStates.cache.filter wanted, r.refreshStates.knowsLifecycleHolder s = false) ∨
    ∀ s ∈ upTo limit (r.refreshStates.cache.filter wanted), Materialises cfg r.refreshStates s

def CacheTake.Clean (r : DataReader T) : CacheTake T → Prop
  | .values => ∀ s ∈ upTo cfg.presentationLimit (r.cache.filter (yields cfg)), HasValue cfg s
  | .selected sel max => CleanLoop cfg r sel.wants (tighter cfg.presentationLimit max)
  | .ofInstance handle => CleanLoop cfg r (DataReader.ofInstance handle) cfg.presentationLimit
  | .query _ | .nothing => True

theorem any_not_knows (r : DataReader T) (l : List (CachedSample T)) :
    (l.any fun s => !r.knowsLifecycleHolder s) = true ↔
      ∃ s ∈ l, r.knowsLifecycleHolder s = false := by
  simp

variable {r : DataReader T}

theorem CleanLoop.drains {wanted : CachedSample T → Bool} (hclean : CleanLoop cfg r wanted limit)
    (hpassed : ¬ ((r.refreshStates.cache.filter wanted).any fun s =>
      !r.refreshStates.knowsLifecycleHolder s) = true) :
    ∃ out keep, drainWanted cfg r.refreshStates wanted limit 0 r.refreshStates.cache =
      (out, .ok keep) := by
  have hloop := errorOf_drainWanted cfg r.refreshStates wanted limit 0 r.refreshStates.cache
  rw [leftOf_zero] at hloop
  rw [any_not_knows] at hpassed
  have hall := hloop.mpr (hclean.resolve_left hpassed)
  rcases hd : drainWanted cfg r.refreshStates wanted limit 0 r.refreshStates.cache with ⟨out, keep⟩
  rw [hd] at hall
  cases keep with
  | error e => cases hall
  | ok keep => exact ⟨out, keep, rfl⟩

theorem takeSelected_cases {sel : Selection} {max : Option Nat}
    (hclean : CleanLoop cfg r sel.wants (tighter cfg.presentationLimit max)) :
    takeSelected cfg r sel max = (r.refreshStates, .error (.badParameter unknownKeyText)) ∨
      ∃ out keep, drainWanted cfg r.refreshStates sel.wants (tighter cfg.presentationLimit max) 0
          r.refreshStates.cache = (out, .ok keep) ∧
        takeSelected cfg r sel max =
          ({ r.refreshStates with instances := noteTakenEach r.instances out, cache := keep },
            .ok (presentByAccessScope cfg (noteTakenEach r.instances out) out)) := by
  by_cases hpassed : ((r.refreshStates.cache.filter sel.wants).any fun s =>
      !r.refreshStates.knowsLifecycleHolder s) = true
  · left
    simp only [takeSelected, if_pos hpassed]
  · right
    obtain ⟨out, keep, hd⟩ := hclean.drains cfg hpassed
    refine ⟨out, keep, hd, ?_⟩
    simp only [takeSelected, if_neg hpassed, hd]
    rfl

theorem takeOfInstance_cases {handle : InstanceHandle}
    (hclean : CleanLoop cfg r (DataReader.ofInstance handle) cfg.presentationLimit) :
    takeOfInstance cfg r handle = (r.refreshStates, .error (.badParameter unknownKeyText)) ∨
      ∃ out keep, drainWanted cfg r.refreshStates (DataReader.ofInstance handle)
          cfg.presentationLimit 0 r.refreshStates.cache = (out, .ok keep) ∧
        ∃ t, t = (if out.isEmpty then r.instances
            else (r.instances.markViewSeen handle).drainSamples handle (out.length % 4294967296)) ∧
          takeOfInstance cfg r handle =
            ({ r.refreshStates with instances := t, cache := keep }, .ok (rankSamples t out)) := by
  by_cases hpassed : ((r.refreshStates.cache.filter (DataReader.ofInstance handle)).any fun s =>
      !r.refreshStates.knowsLifecycleHolder s) = true
  · left
    simp only [takeOfInstance, if_pos hpassed]
  · right
    obtain ⟨out, keep, hd⟩ := hclean.drains cfg hpassed
    refine ⟨out, keep, hd, _, rfl, ?_⟩
    simp only [takeOfInstance, if_neg hpassed, hd]
    rfl

theorem cache_ne_nil_of_error {wanted : CachedSample T → Bool}
    (h : ¬ ∀ s ∈ upTo limit (r.refreshStates.cache.filter wanted),
      Materialises cfg r.refreshStates s) : r.cache ≠ [] := by
  intro hnil
  apply h
  have hempty : r.refreshStates.cache.filter wanted = [] := by simp [refreshStates, hnil]
  rw [hempty]
  cases limit <;> simp [upTo]

section

variable (r : DataReader T)

theorem takeSelected_keeps_iff (sel : Selection) (max : Option Nat) :
    (errorOf (takeSelected cfg r sel max).2 ≠ none → Kept r (takeSelected cfg r sel max).1) ↔
      CleanLoop cfg r sel.wants (tighter cfg.presentationLimit max) := by
  have hloop := errorOf_drainWanted cfg r.refreshStates sel.wants
    (tighter cfg.presentationLimit max) 0 r.refreshStates.cache
  rw [leftOf_zero] at hloop
  simp only [takeSelected, CleanLoop, ← hloop]
  by_cases hblocked : (r.refreshStates.cache.filter sel.wants).any fun s =>
      !r.refreshStates.knowsLifecycleHolder s
  · simp only [if_pos hblocked, errorOf_error, ne_eq, reduceCtorEq, not_false_eq_true, forall_const]
    exact iff_of_true (kept_refreshStates r) (Or.inl ((any_not_knows _ _).mp hblocked))
  · rw [if_neg hblocked, ← any_not_knows, or_iff_right hblocked]
    cases hkeep : (drainWanted cfg r.refreshStates sel.wants
        (tighter cfg.presentationLimit max) 0 r.refreshStates.cache).2 with
    | ok keep => simp
    | error e =>
      have hne : r.cache ≠ [] := cache_ne_nil_of_error cfg (hloop.not.mp (by simp [hkeep]))
      simpa using not_kept_of_drained hne rfl

theorem takeOfInstance_keeps_iff (handle : InstanceHandle) :
    (errorOf (takeOfInstance cfg r handle).2 ≠ none → Kept r (takeOfInstance cfg r handle).1) ↔
      CleanLoop cfg r (ofInstance handle) cfg.presentationLimit := by
  have hloop := errorOf_drainWanted cfg r.refreshStates (ofInstance handle)
    cfg.presentationLimit 0 r.refreshStates.cache
  rw [leftOf_zero] at hloop
  simp only [takeOfInstance, CleanLoop, ← hloop]
  by_cases hblocked : (r.refreshStates.cache.filter (ofInstance handle)).any fun s =>
      !r.refreshStates.knowsLifecycleHolder s
  · simp only [if_pos hblocked, errorOf_error, ne_eq, reduceCtorEq, not_false_eq_true, forall_const]
    exact iff_of_true (kept_refreshStates r) (Or.inl ((any_not_knows _ _).mp hblocked))
  · rw [if_neg hblocked, ← any_not_knows, or_iff_right hblocked]
    cases hkeep : (drainWanted cfg r.refreshStates (ofInstance handle)
        cfg.presentationLimit 0 r.refreshStates.cache).2 with
    | ok keep => simp
    | error e =>
      have hne : r.cache ≠ [] := cache_ne_nil_of_error cfg (hloop.not.mp (by simp [hkeep]))
      simpa using not_kept_of_drained hne rfl

theorem takeValues_keeps_iff :
    (errorOf (takeValues cfg r).2 ≠ none → Kept r (takeValues cfg r).1) ↔
      ∀ s ∈ upTo cfg.presentationLimit (r.cache.filter (yields cfg)), HasValue cfg s := by
  have hloop := errorOf_drainValues cfg cfg.presentationLimit 0 r.cache
  rw [leftOf_zero] at hloop
  simp only [takeValues, ← hloop]
  cases hkeep : (drainValues cfg cfg.presentationLimit 0 r.cache).2 with
  | ok keep => simp
  | error e =>
    have hne : r.cache ≠ [] := by
      intro hnil
      rw [hnil] at hkeep
      cases hkeep
    simpa using not_kept_of_drained hne rfl

theorem querySelected_keeps (cond : QueryCondition T) (max : Option Nat)
    (take : Bool) (instance? : Option InstanceHandle)
    (h : errorOf (querySelected cfg r cond max take instance?).2 ≠ none) :
    Kept r (querySelected cfg r cond max take instance?).1 := by
  unfold querySelected at h ⊢
  simp only at h ⊢
  split
  · exact kept_refreshStates r
  · next hblocked =>
    rw [if_neg hblocked] at h
    split
    · exact kept_refreshStates r
    · next chosen hchosen =>
      rw [hchosen] at h
      cases take <;> simp at h

theorem run_keeps_iff (loop : CacheTake T) :
    ((loop.run cfg r).2 ≠ none → Kept r (loop.run cfg r).1) ↔ loop.Clean cfg r := by
  cases loop with
  | values => exact takeValues_keeps_iff cfg r
  | selected sel max => exact takeSelected_keeps_iff cfg r sel max
  | ofInstance handle => exact takeOfInstance_keeps_iff cfg r handle
  | query cond => exact iff_of_true (querySelected_keeps cfg r cond none true none) trivial
  | nothing => exact iff_of_true (fun _ => kept_refl r) trivial

end

inductive TakeCall (T : Type) where
  | take
  | filtered (masks : StateMasks)
  | instanceOf (handle : InstanceHandle)
  | withCondition (cond : QueryCondition T)
  | nextInstance (previous : InstanceHandle)

namespace TakeCall

def perform : TakeCall T → DataReader T → DataReader T × Option DdsError
  | .take, r => ((takeWithWire cfg r).1, errorOf (takeWithWire cfg r).2)
  | .filtered masks, r => ((takeFiltered cfg r masks).1, errorOf (takeFiltered cfg r masks).2)
  | .instanceOf handle, r => ((takeInstance cfg r handle).1, errorOf (takeInstance cfg r handle).2)
  | .withCondition cond, r =>
    ((takeWCondition cfg r cond).1, errorOf (takeWCondition cfg r cond).2)
  | .nextInstance previous, r =>
    ((takeNextInstance cfg r previous).1, errorOf (takeNextInstance cfg r previous).2)

def ingested (r : DataReader T) : Option (DataReader T) :=
  match ingestPending cfg r with
  | (_, .error _) => none
  | (r, .ok _) => some r

/-- The reader right after the call's ingest, its last where it has two, and what the call
does with the cache from there; none where the call ends before. -/
def rightAfterIngest : TakeCall T → DataReader T → Option (DataReader T × CacheTake T)
  | .take, r => (ingested cfg r).map fun r => (r, .values)
  | .filtered masks, r => (ingested cfg r).map fun r => (r, .selected ⟨masks, none⟩ none)
  | .instanceOf handle, r =>
    if handle = handleNil then none else (ingested cfg r).map fun r => (r, .ofInstance handle)
  | .withCondition cond, r => (ingested cfg r).map fun r => (r, .query cond)
  | .nextInstance previous, r => (ingested cfg r).bind fun r =>
    match r.nextInstanceWithSamples previous with
    | none => some (r, .nothing)
    | some next =>
      if next = handleNil then none else (ingested cfg r).map fun r => (r, .ofInstance next)

variable {r r₁ : DataReader T}

theorem afterIngest_of_ingested {op : DataReader T → DataReader T × Except DdsError α}
    (h : ingested cfg r = some r₁) : afterIngest cfg r op = op r₁ := by
  rcases heq : ingestPending cfg r with ⟨r₂, res⟩
  cases res with
  | error e => simp only [ingested, heq, reduceCtorEq] at h
  | ok u =>
    simp only [ingested, heq, Option.some.injEq] at h
    simp only [afterIngest, heq, h]

theorem takeInstance_of_ingested {handle : InstanceHandle} (hnil : handle ≠ handleNil)
    (h : ingested cfg r = some r₁) : takeInstance cfg r handle = takeOfInstance cfg r₁ handle := by
  rw [takeInstance, if_neg hnil]
  exact afterIngest_of_ingested cfg h

theorem perform_of_rightAfterIngest {call : TakeCall T} {loop : CacheTake T}
    (h : call.rightAfterIngest cfg r = some (r₁, loop)) : call.perform cfg r = loop.run cfg r₁ := by
  cases call with
  | take =>
    obtain ⟨r₂, hin, heq⟩ := Option.map_eq_some_iff.mp h
    cases heq
    simp [perform, CacheTake.run, takeWithWire, afterIngest_of_ingested cfg hin]
  | filtered masks =>
    obtain ⟨r₂, hin, heq⟩ := Option.map_eq_some_iff.mp h
    cases heq
    simp [perform, CacheTake.run, takeFiltered, takeCore, afterIngest_of_ingested cfg hin]
  | withCondition cond =>
    obtain ⟨r₂, hin, heq⟩ := Option.map_eq_some_iff.mp h
    cases heq
    simp [perform, CacheTake.run, takeWCondition, queryCore, afterIngest_of_ingested cfg hin]
  | instanceOf handle =>
    simp only [rightAfterIngest] at h
    split at h
    · cases h
    · next hnil =>
      obtain ⟨r₂, hin, heq⟩ := Option.map_eq_some_iff.mp h
      cases heq
      simp [perform, CacheTake.run, takeInstance_of_ingested cfg hnil hin]
  | nextInstance previous =>
    obtain ⟨r₂, hin, hnext⟩ := Option.bind_eq_some_iff.mp h
    simp only [perform, takeNextInstance, afterIngest_of_ingested cfg hin]
    cases hn : r₂.nextInstanceWithSamples previous with
    | none =>
      rw [hn] at hnext
      cases hnext
      rfl
    | some next =>
      simp only [hn] at hnext
      split at hnext
      · cases hnext
      · next hnil =>
        obtain ⟨r₃, hin', heq⟩ := Option.map_eq_some_iff.mp hnext
        cases heq
        simp [CacheTake.run, takeInstance_of_ingested cfg hnil hin']

end TakeCall

/-- An error of a take call after its ingest consumes nothing exactly when the pre-check
raised it or no sample the call gets to fails to materialise; a query never consumes
before it fails. -/
theorem failing_take_keeps_iff (r r₁ : DataReader T) (call : TakeCall T) (loop : CacheTake T)
    (h : call.rightAfterIngest cfg r = some (r₁, loop)) :
    ((call.perform cfg r).2 ≠ none → Kept r₁ (call.perform cfg r).1) ↔ loop.Clean cfg r₁ := by
  rw [TakeCall.perform_of_rightAfterIngest cfg h]
  exact run_keeps_iff cfg r₁ loop

def undecodableDispose : DataReader (UInt8 × UInt8) :=
  octetReader [octetSample 1 [1, 7] 1, octetMarker 1 2 [] .notAliveDisposed]

/-- The take fails on the marker and the sample of the other instance is gone. -/
theorem failing_take_loses_other_instance :
    ∃ r₁ loop, (TakeCall.filtered .any).rightAfterIngest (octetConfig reliableQos)
        undecodableDispose = some (r₁, loop) ∧
      ((TakeCall.filtered .any).perform (octetConfig reliableQos) undecodableDispose).2 ≠ none ∧
      ¬ Kept r₁
        ((TakeCall.filtered .any).perform (octetConfig reliableQos) undecodableDispose).1 := by
  have hsome : (TakeCall.ingested (octetConfig reliableQos) undecodableDispose).map
      (fun r => r.cache.length) = some 2 := by decide +kernel
  obtain ⟨r₁, hin, hlength⟩ := Option.map_eq_some_iff.mp hsome
  refine ⟨r₁, .selected ⟨.any, none⟩ none, ?_, by decide +kernel, ?_⟩
  · simp [TakeCall.rightAfterIngest, hin]
  · have hdrained : ((TakeCall.filtered .any).perform (octetConfig reliableQos)
        undecodableDispose).1.cache.length = 0 := by decide +kernel
    apply not_kept_of_drained _ (List.length_eq_zero_iff.mp hdrained)
    intro hnil
    rw [hnil] at hlength
    cases hlength

/-- With a key holder that decodes the take goes through. -/
theorem failing_take_keeps_decodable :
    ∃ r₁ loop, (TakeCall.filtered .any).rightAfterIngest (octetConfig reliableQos)
        (octetReader [octetSample 1 [1, 7] 1, octetMarker 1 2 [2] .notAliveDisposed]) =
          some (r₁, loop) ∧
      loop.Clean (octetConfig reliableQos) r₁ := by
  have hsome : (TakeCall.ingested (octetConfig reliableQos)
      (octetReader [octetSample 1 [1, 7] 1, octetMarker 1 2 [2] .notAliveDisposed])).isSome := by
    decide +kernel
  obtain ⟨r₁, hin⟩ := Option.isSome_iff_exists.mp hsome
  have hcall : (TakeCall.filtered .any).rightAfterIngest (octetConfig reliableQos)
      (octetReader [octetSample 1 [1, 7] 1, octetMarker 1 2 [2] .notAliveDisposed]) =
        some (r₁, .selected ⟨.any, none⟩ none) := by
    simp [TakeCall.rightAfterIngest, hin]
  refine ⟨r₁, _, hcall, (failing_take_keeps_iff _ _ _ _ _ hcall).mp ?_⟩
  intro herr
  exact absurd (by decide +kernel) herr

end ZeroDds.Dcps.DataReader
