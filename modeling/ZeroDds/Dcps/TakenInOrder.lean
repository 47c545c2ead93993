/-
What arrives is taken in order.
-/
import ZeroDds.Dcps.Conveyed
import ZeroDds.Dcps.ExactCounts

namespace ZeroDds.Dcps

variable {α : Type}

theorem filter_mergeSort_of_tied {le : α → α → Bool} (trans : ∀ a b c, le a b → le b c → le a c)
    (total : ∀ a b, le a b || le b a) {q : α → Bool} {l : List α}
    (tied : ∀ a ∈ l, ∀ b ∈ l, q a → q b → le a b) : (l.mergeSort le).filter q = l.filter q := by
  have hsorted : (l.filter q).Pairwise (fun a b => le a b = true) := by
    refine List.Pairwise.imp_of_mem (fun ha hb _ => ?_)
      (List.pairwise_of_forall (R := fun _ _ => True) fun _ _ => trivial)
    obtain ⟨hal, hqa⟩ := List.mem_filter.mp ha
    obtain ⟨hbl, hqb⟩ := List.mem_filter.mp hb
    exact tied _ hal _ hbl hqa hqb
  have hsub : (l.filter q).Sublist (l.mergeSort le) :=
    List.sublist_mergeSort trans total hsorted List.filter_sublist
  have hsub' : (l.filter q).Sublist ((l.mergeSort le).filter q) := by
    simpa using hsub.filter q
  have hlen : (l.filter q).length = ((l.mergeSort le).filter q).length :=
    ((List.mergeSort_perm l le).filter q).length_eq.symm
  exact (hsub'.eq_of_length hlen).symm

theorem filter_filterMap_cons {β : Type} (f : α → Option β) (p : β → Bool) (a : α) (l : List α) :
    (List.filterMap f (a :: l)).filter p =
      (f a).toList.filter p ++ (List.filterMap f l).filter p := by
  cases h : f a with
  | none => simp [h]
  | some b =>
    rw [List.filterMap_cons_some h, List.filter_cons, Option.toList_some, List.filter_cons]
    split <;> rfl

namespace DataReader

open InstanceTracker (Grows HandlesKnown)

variable {T : Type} {cfg : ReaderConfig T}

/-! ### What a take hands out -/

def handedValue (s : Sample T) : Option T := if s.info.validData then some s.data else none

def handedValues (out : List (Sample T)) : List T := out.filterMap handedValue

def ofKey (cfg : ReaderConfig T) (kh : KeyHash) (values : List T) : List T :=
  values.filter fun v => decide (cfg.codec.instanceKeyHash v = kh)

theorem ofKey_append (kh : KeyHash) (l l' : List T) :
    ofKey cfg kh (l ++ l') = ofKey cfg kh l ++ ofKey cfg kh l' :=
  List.filter_append ..

variable {t : InstanceTracker} {e e' : CachedSample T} {v : T} {r : DataReader T}

theorem Sound.cachedValue (h : Sound cfg t e) (hvalid : e.info.validData = true) :
    ∃ v, e.decoded = some v ∧ cachedValue e = some v := by
  cases h with
  | marker _ hmarker => simp [hmarker] at hvalid
  | data _ v _ _ _ _ hvalue => exact ⟨v, hvalue, by simp [DataReader.cachedValue, hvalid, hvalue]⟩

theorem Sound.handle_eq (h : Sound cfg t e) (h' : Sound cfg t e') {v' : T}
    (hv : DataReader.cachedValue e = some v) (hv' : DataReader.cachedValue e' = some v')
    (hkey : cfg.codec.instanceKeyHash v = cfg.codec.instanceKeyHash v') :
    e.info.instanceHandle = e'.info.instanceHandle := by
  have hstate : ∀ {e : CachedSample T} {v : T}, Sound cfg t e → DataReader.cachedValue e = some v →
      ∃ s, t.stateOf (cfg.codec.instanceKeyHash v) = some s ∧
        e.info.instanceHandle = s.handle := by
    intro e v h hv
    cases h with
    | marker _ hmarker => simp [DataReader.cachedValue, hmarker] at hv
    | data _ w s _ hvalid _ hvalue hstate hhandle =>
      simp only [DataReader.cachedValue, hvalid, if_true, hvalue, Option.some.injEq] at hv
      subst hv
      exact ⟨s, hstate, hhandle⟩
  obtain ⟨s, hs, hh⟩ := hstate h hv
  obtain ⟨s', hs', hh'⟩ := hstate h' hv'
  rw [hkey, hs'] at hs
  cases hs
  rw [hh, hh']

theorem materialize_ok {sample : Sample T} (hvalue : e.info.validData = true → e.decoded ≠ none)
    (h : materialize cfg r e = .ok sample) :
    sample.info = e.info ∧ handedValue sample = cachedValue e := by
  unfold materialize at h
  cases hd : e.decoded with
  | some v =>
    rw [hd] at h
    cases h
    exact ⟨rfl, by simp [handedValue, cachedValue, hd]⟩
  | none =>
    rw [hd] at h
    have hmarker : e.info.validData = false := by
      cases hvalid : e.info.validData with
      | false => rfl
      | true => exact absurd hd (hvalue hvalid)
    cases hok : decodeOrKeyholder cfg r e with
    | error err => simp [hok, Except.map] at h
    | ok v =>
      simp only [hok, Except.map] at h
      cases h
      exact ⟨rfl, by simp [handedValue, cachedValue, hmarker]⟩

def Ordered (p : T → Bool) (wanted : CachedSample T → Bool) (cache : List (CachedSample T)) :
    Prop :=
  cache.Pairwise fun e e' => ∀ v v', cachedValue e = some v → cachedValue e' = some v' →
    p v = true → p v' = true → wanted e' = true → wanted e = true

def Valued (cache : List (CachedSample T)) : Prop :=
  ∀ e ∈ cache, e.info.validData = true → e.decoded ≠ none

variable {rest : List (CachedSample T)}

theorem valued_cons :
    Valued (e :: rest) ↔ (e.info.validData = true → e.decoded ≠ none) ∧ Valued rest := by
  simp [Valued]

variable {wanted : CachedSample T → Bool} {limit : Option Nat} {taken : Nat}
  {keep cache : List (CachedSample T)} {out : List (Sample T)} {p : T → Bool} {α : Type}

theorem drainWanted_cons_ok
    (h : drainWanted cfg r wanted limit taken (e :: rest) = (out, .ok keep)) :
    (underLimit taken limit = true ∧ wanted e = true ∧ ∃ sample out',
        materialize cfg r e = .ok sample ∧ out = sample :: out' ∧
        drainWanted cfg r wanted limit (taken + 1) rest = (out', .ok keep)) ∨
      ((underLimit taken limit && wanted e) = false ∧ ∃ keep', keep = e :: keep' ∧
        drainWanted cfg r wanted limit taken rest = (out, .ok keep')) := by
  unfold drainWanted at h
  split at h
  · next hgo =>
    obtain ⟨hunder, hwanted⟩ := Bool.and_eq_true_iff.mp hgo
    cases hm : materialize cfg r e with
    | error err => simp [hm] at h
    | ok sample =>
      rcases hd : drainWanted cfg r wanted limit (taken + 1) rest with ⟨out', keep'⟩
      simp only [hm, hd, Prod.mk.injEq] at h
      obtain ⟨rfl, rfl⟩ := h
      exact .inl ⟨hunder, hwanted, sample, out', rfl, rfl, rfl⟩
  · next hstop =>
    rcases hd : drainWanted cfg r wanted limit taken rest with ⟨out', keep'⟩
    simp only [hd, Prod.mk.injEq] at h
    obtain ⟨rfl, hkeep⟩ := h
    cases keep' with
    | error err => simp [Except.map] at hkeep
    | ok left =>
      simp only [Except.map, Except.ok.injEq] at hkeep
      exact .inr ⟨by simpa using hstop, left, hkeep.symm, rfl⟩

theorem drainWanted_from (hvalued : Valued cache)
    (h : drainWanted cfg r wanted limit taken cache = (out, .ok keep)) :
    (∀ s ∈ out, ∃ e ∈ cache, s.info = e.info ∧ handedValue s = cachedValue e) ∧
      ∀ e ∈ keep, e ∈ cache := by
  induction cache generalizing taken out keep with
  | nil =>
    cases h
    simp
  | cons e rest ih =>
    obtain ⟨he, hrest⟩ := valued_cons.mp hvalued
    rcases drainWanted_cons_ok h with
      ⟨_, _, sample, out', hm, rfl, hd⟩ | ⟨_, keep', rfl, hd⟩
    · obtain ⟨hout, hkeep⟩ := ih hrest hd
      refine ⟨fun s hs => ?_, fun e' he' => List.mem_cons_of_mem _ (hkeep e' he')⟩
      rcases List.mem_cons.mp hs with rfl | hs
      · exact ⟨e, List.mem_cons_self, materialize_ok he hm⟩
      · obtain ⟨e', he', heq⟩ := hout s hs
        exact ⟨e', List.mem_cons_of_mem _ he', heq⟩
    · obtain ⟨hout, hkeep⟩ := ih hrest hd
      refine ⟨fun s hs => ?_, fun e' he' => ?_⟩
      · obtain ⟨e', he', heq⟩ := hout s hs
        exact ⟨e', List.mem_cons_of_mem _ he', heq⟩
      · rcases List.mem_cons.mp he' with rfl | he'
        · exact List.mem_cons_self
        · exact List.mem_cons_of_mem _ (hkeep e' he')

theorem drainWanted_skips (hvalued : Valued cache)
    (hleft : ∀ e ∈ cache, ∀ v, cachedValue e = some v → p v = true →
      (underLimit taken limit && wanted e) = false)
    (h : drainWanted cfg r wanted limit taken cache = (out, .ok keep)) :
    (handedValues out).filter p = [] ∧
      (cachedValues keep).filter p = (cachedValues cache).filter p := by
  induction cache generalizing taken out keep with
  | nil =>
    cases h
    exact ⟨rfl, rfl⟩
  | cons e rest ih =>
    obtain ⟨he, hrest⟩ := valued_cons.mp hvalued
    obtain ⟨hleft₀, hleft'⟩ := List.forall_mem_cons.mp hleft
    rcases drainWanted_cons_ok h with
      ⟨hunder, hwanted, sample, out', hm, rfl, hd⟩ | ⟨_, keep', rfl, hd⟩
    · have hskip : (cachedValue e).toList.filter p = [] := by
        refine List.filter_eq_nil_iff.mpr fun v hv hp => ?_
        simpa [hunder, hwanted] using hleft₀ v (Option.mem_toList.mp hv) hp
      have hmore : ∀ e ∈ rest, ∀ v, cachedValue e = some v → p v = true →
          (underLimit (taken + 1) limit && wanted e) = false := by
        intro e' he' v hv hp
        have hnot := hleft' e' he' v hv hp
        rw [hunder, Bool.true_and] at hnot
        rw [hnot, Bool.and_false]
      obtain ⟨hout, hkeep⟩ := ih hrest hmore hd
      rw [handedValues, filter_filterMap_cons, (materialize_ok he hm).2, hskip, cachedValues,
        cachedValues, filter_filterMap_cons, hskip]
      exact ⟨hout, hkeep⟩
    · obtain ⟨hout, hkeep⟩ := ih hrest hleft' hd
      refine ⟨hout, ?_⟩
      rw [cachedValues, cachedValues, filter_filterMap_cons, filter_filterMap_cons]
      exact congrArg _ hkeep

theorem drainWanted_inOrder (hvalued : Valued cache) (hordered : Ordered p wanted cache)
    (h : drainWanted cfg r wanted limit taken cache = (out, .ok keep)) :
    (cachedValues cache).filter p =
      (handedValues out).filter p ++ (cachedValues keep).filter p := by
  induction cache generalizing taken out keep with
  | nil =>
    cases h
    rfl
  | cons e rest ih =>
    obtain ⟨he, hrest⟩ := valued_cons.mp hvalued
    obtain ⟨hbehind, hordered'⟩ := List.pairwise_cons.mp hordered
    rcases drainWanted_cons_ok h with
      ⟨_, _, sample, out', hm, rfl, hd⟩ | ⟨hstop, keep', rfl, hd⟩
    · rw [cachedValues, filter_filterMap_cons, handedValues, filter_filterMap_cons,
        (materialize_ok he hm).2, List.append_assoc]
      exact congrArg _ (ih hrest hordered' hd)
    · rw [cachedValues, filter_filterMap_cons, cachedValues, filter_filterMap_cons]
      by_cases hnone : (cachedValue e).toList.filter p = []
      · rw [hnone]
        exact ih hrest hordered' hd
      · obtain ⟨v, hmem⟩ := List.exists_mem_of_ne_nil _ hnone
        obtain ⟨hv, hp⟩ := List.mem_filter.mp hmem
        have hleft : ∀ e ∈ rest, ∀ v, cachedValue e = some v → p v = true →
            (underLimit taken limit && wanted e) = false := by
          intro e' he' v' hv' hp'
          cases hunder : underLimit taken limit with
          | false => rfl
          | true =>
            rw [hunder, Bool.true_and] at hstop
            have hback := hbehind e' he' v v' (Option.mem_toList.mp hv) hv' hp hp'
            rw [hstop] at hback
            simpa using hback
        obtain ⟨hout, hkeep⟩ := drainWanted_skips hrest hleft hd
        rw [hout, List.nil_append]
        exact congrArg _ hkeep.symm

/-! ### The order of presentation -/

theorem groupByInstance_inOrder {handleOf : α → InstanceHandle} {f : α → Option T} {out : List α}
    (hone : ∀ a ∈ out, ∀ b ∈ out, ∀ v w, f a = some v → f b = some w → p v = true → p w = true →
      handleOf a = handleOf b) :
    ((groupByInstance handleOf out).filterMap f).filter p = (out.filterMap f).filter p := by
  have hfuse : ∀ l : List α, (l.filterMap f).filter p =
      (l.filter fun a => ((f a).filter p).isSome).filterMap fun a => (f a).filter p := by
    intro l
    rw [List.filter_filterMap, List.filterMap_filter]
    refine List.filterMap_congr fun a _ => ?_
    cases (f a).filter p <;> rfl
  have hvalue : ∀ a, ((f a).filter p).isSome = true → ∃ v, f a = some v ∧ p v = true := by
    intro a hsome
    obtain ⟨v, hv⟩ := Option.isSome_iff_exists.mp hsome
    exact ⟨v, Option.filter_eq_some_iff.mp hv⟩
  rw [hfuse, hfuse, groupByInstance, filter_mergeSort_of_tied]
  · intro a b c hab hbc
    simp only [decide_eq_true_eq] at hab hbc ⊢
    exact le_trans hab hbc
  · intro a b
    simpa using le_total (handleOf a) (handleOf b)
  · intro a ha b hb hqa hqb
    obtain ⟨v, hv, hpv⟩ := hvalue a hqa
    obtain ⟨w, hw, hpw⟩ := hvalue b hqb
    simp [hone a ha b hb v w hv hw hpv hpw]

theorem handedValues_rankSamples (t : InstanceTracker) (out : List (Sample T)) :
    handedValues (rankSamples t out) = handedValues out := by
  induction out with
  | nil => rfl
  | cons s rest ih =>
    have hcons : ∃ i : SampleInfo,
        rankSamples t (s :: rest) = { s with info := i } :: rankSamples t rest ∧
          i.validData = s.info.validData := ⟨_, rfl, rfl⟩
    obtain ⟨i, heq, hvalid⟩ := hcons
    rw [handedValues] at ih
    rw [heq, handedValues, List.filterMap_cons, ih, handedValue, hvalid]
    rfl

theorem presentByAccessScope_inOrder (cfg : ReaderConfig T) (t : InstanceTracker)
    (hone : ∀ s ∈ out, ∀ s' ∈ out, ∀ v w, handedValue s = some v → handedValue s' = some w →
      p v = true → p w = true → s.info.instanceHandle = s'.info.instanceHandle) :
    (handedValues (presentByAccessScope cfg t out)).filter p = (handedValues out).filter p := by
  rw [presentByAccessScope, handedValues_rankSamples]
  split
  · exact groupByInstance_inOrder hone
  · rfl

/-! ### The cache after a take -/

structure SameEntry (e e' : CachedSample T) : Prop where
  bytes : e'.bytes = e.bytes
  decoded : e'.decoded = e.decoded
  expiresAt : e'.expiresAt = e.expiresAt
  representation : e'.representation = e.representation
  bigEndian : e'.bigEndian = e.bigEndian
  validData : e'.info.validData = e.info.validData
  handle : e'.info.instanceHandle = e.info.instanceHandle

theorem SameEntry.cachedValue (h : SameEntry e e') :
    DataReader.cachedValue e' = DataReader.cachedValue e := by
  rw [DataReader.cachedValue, DataReader.cachedValue, h.validData, h.decoded]

theorem SameEntry.sound (h : SameEntry e e') (hs : Sound cfg t e) : Sound cfg t e' := by
  cases hs with
  | marker hbytes hvalid hlasts =>
    exact .marker (h.bytes.trans hbytes) (h.validData.trans hvalid) (h.expiresAt.trans hlasts)
  | data b v s hbytes hvalid hlasts hvalue hstate hhandle =>
    exact .data b v s (h.bytes.trans hbytes) (h.validData.trans hvalid)
      (h.expiresAt.trans hlasts) (h.decoded.trans hvalue) hstate (h.handle.trans hhandle)

theorem sameEntry_refreshed (t : InstanceTracker) (e : CachedSample T) :
    SameEntry e (refreshed t e) := by
  unfold refreshed
  split <;> exact ⟨rfl, rfl, rfl, rfl, rfl, rfl, rfl⟩

theorem sameEntry_markRead (e : CachedSample T) : SameEntry e (markRead e) :=
  ⟨rfl, rfl, rfl, rfl, rfl, rfl, rfl⟩

def SameEntries (cache cache' : List (CachedSample T)) : Prop :=
  List.Forall₂ SameEntry cache cache'

variable {cache' : List (CachedSample T)}

theorem SameEntries.cachedValues (h : SameEntries cache cache') :
    DataReader.cachedValues cache' = DataReader.cachedValues cache := by
  induction h with
  | nil => rfl
  | cons heq _ ih =>
    simp only [DataReader.cachedValues, List.filterMap_cons, heq.cachedValue] at ih ⊢
    rw [ih]

theorem SameEntries.forall (h : SameEntries cache cache') {P : CachedSample T → Prop}
    (hP : ∀ e e', SameEntry e e' → P e → P e') (hs : ∀ e ∈ cache, P e) : ∀ e ∈ cache', P e := by
  induction h with
  | nil => exact hs
  | cons heq _ ih =>
    obtain ⟨he, hrest⟩ := List.forall_mem_cons.mp hs
    exact List.forall_mem_cons.mpr ⟨hP _ _ heq he, ih hrest⟩

theorem SameEntry.refl (e : CachedSample T) : SameEntry e e :=
  ⟨rfl, rfl, rfl, rfl, rfl, rfl, rfl⟩

theorem sameEntries_map (cache : List (CachedSample T)) {f : CachedSample T → CachedSample T}
    (hf : ∀ e, SameEntry e (f e)) : SameEntries cache (cache.map f) := by
  induction cache with
  | nil => exact .nil
  | cons e rest ih => exact .cons (hf e) ih

variable {r' : DataReader T}

theorem KeepsValues.of_entries (hsame : SameEntries r.cache r'.cache)
    (hgrows : Grows r.instances r'.instances) (hhold : r'.tbfHold = r.tbfHold)
    (hheld : r'.heldBack = r.heldBack) (hwaiting : r'.arrived = r.arrived) : KeepsValues cfg r r' :=
  fun hk => ⟨hk.of_grows hgrows (hsame.forall (fun _ _ h => h.sound) hk.cache) hhold hheld
    hwaiting,
    hsame.cachedValues, hheld, hwaiting⟩

theorem refreshStates_keeps (r : DataReader T) : KeepsValues cfg r r.refreshStates :=
  .of_entries (sameEntries_map _ (sameEntry_refreshed r.instances)) (.refl _) rfl rfl rfl

theorem grows_noteTakenEach (t : InstanceTracker) (out : List (Sample T)) :
    Grows t (DataReader.noteTakenEach t out) := by
  induction out generalizing t with
  | nil => exact .refl t
  | cons s rest ih =>
    have hseen : Grows t (t.markViewSeen s.info.instanceHandle) := .modifyHandle fun _ => rfl
    refine Grows.trans ?_ (ih _)
    split
    · exact hseen
    · exact hseen.trans (.modifyHandle fun _ => rfl)

theorem grows_noteTakenRuns (t : InstanceTracker) (handles : List InstanceHandle) :
    Grows t (DataReader.noteTakenRuns t handles) := by
  unfold DataReader.noteTakenRuns
  generalize takenRuns (handles.filter (· ≠ handleNil)) = runs
  induction runs generalizing t with
  | nil => exact .refl t
  | cons run rest ih =>
    have hone : Grows t (t.noteTaken run.1 run.2) := .modifyHandle fun _ => rfl
    exact hone.trans (ih _)

/-- `values` are the first of the instance in the cache of `r`; `r'` has the others. -/
structure Hands (cfg : ReaderConfig T) (kh : KeyHash) (r r' : DataReader T) (values : List T) :
    Prop where
  keeping : Keeping cfg r'
  order : ofKey cfg kh (cachedValues r.cache) =
    ofKey cfg kh values ++ ofKey cfg kh (cachedValues r'.cache)
  heldBack : r'.heldBack = r.heldBack
  arrived : r'.arrived = r.arrived

variable {kh : KeyHash}

theorem KeepsValues.hands (h : KeepsValues cfg r r') (hk : Keeping cfg r) :
    Hands cfg kh r r' [] := by
  obtain ⟨hk', hvalues, hheld, hwaiting⟩ := h hk
  exact ⟨hk', by rw [hvalues]; rfl, hheld, hwaiting⟩

theorem Keeping.valued (hk : Keeping cfg r) : Valued r.cache := by
  intro e he hvalid
  obtain ⟨v, hv, _⟩ := (hk.cache e he).cachedValue hvalid
  rw [hv]
  exact Option.some_ne_none v

theorem handle_eq_of_drained (hk : Keeping cfg r)
    (hd : drainWanted cfg r wanted limit 0 r.cache = (out, .ok keep)) :
    ∀ s ∈ out, ∀ s' ∈ out, ∀ v w, handedValue s = some v → handedValue s' = some w →
      decide (cfg.codec.instanceKeyHash v = kh) = true →
      decide (cfg.codec.instanceKeyHash w = kh) = true →
      s.info.instanceHandle = s'.info.instanceHandle := by
  intro s hs s' hs' v w hv hw hpv hpw
  simp only [decide_eq_true_eq] at hpv hpw
  obtain ⟨hfrom, _⟩ := drainWanted_from hk.valued hd
  obtain ⟨e, he, hinfo, hval⟩ := hfrom s hs
  obtain ⟨e', he', hinfo', hval'⟩ := hfrom s' hs'
  rw [hinfo, hinfo']
  exact (hk.cache e he).handle_eq (hk.cache e' he') (hval.symm.trans hv) (hval'.symm.trans hw)
    (hpv.trans hpw.symm)

theorem hands_of_drained (hk : Keeping cfg r) {out' : List (Sample T)}
    (hordered : Ordered (fun v => decide (cfg.codec.instanceKeyHash v = kh)) wanted r.cache)
    (hd : drainWanted cfg r wanted limit 0 r.cache = (out, .ok keep))
    (hgrows : Grows r.instances t)
    (hout : ofKey cfg kh (handedValues out') = ofKey cfg kh (handedValues out)) :
    Hands cfg kh r { r with instances := t, cache := keep } (handedValues out') := by
  have hvalued := hk.valued
  refine ⟨hk.of_grows hgrows ?_ rfl rfl rfl, ?_, rfl, rfl⟩
  · exact fun e he => hk.cache e ((drainWanted_from hvalued hd).2 e he)
  · rw [hout]
    exact drainWanted_inOrder hvalued hordered hd

def asksFor (masks : StateMasks) (info : SampleInfo) : Bool :=
  (masks.sampleStates &&& SampleInfo.sampleBit info.sampleState) ≠ 0

/-- The masks ask for no data sample behind one of its instance that they leave out for its
sample state. -/
def SkipsNone (masks : StateMasks) (cache : List (CachedSample T)) : Prop :=
  cache.Pairwise fun e e' => e.info.validData = true → e'.info.validData = true →
    e.info.instanceHandle = e'.info.instanceHandle →
    asksFor masks e'.info = true → asksFor masks e.info = true

theorem refreshed_states (hhandle : e.info.instanceHandle = e'.info.instanceHandle)
    (hknown : (t.getByHandle e.info.instanceHandle).isSome = true) :
    (refreshed t e).info.viewState = (refreshed t e').info.viewState ∧
      (refreshed t e).info.instanceState = (refreshed t e').info.instanceState := by
  obtain ⟨s, hs⟩ := Option.isSome_iff_exists.mp hknown
  have hs' := hs
  rw [hhandle] at hs'
  simp [refreshed, hs, hs']

theorem Sound.known (hk : Keeping cfg r) (he : e ∈ r.cache)
    (hv : DataReader.cachedValue e = some v) :
    (r.instances.getByHandle e.info.instanceHandle).isSome = true := by
  cases hk.cache e he with
  | marker _ hmarker => simp [DataReader.cachedValue, hmarker] at hv
  | data _ _ s _ _ _ _ hstate hhandle =>
    rw [hhandle]
    exact hk.known _ s hstate

theorem validData_of_cachedValue (h : cachedValue e = some v) : e.info.validData = true := by
  by_contra hnot
  simp [cachedValue, hnot] at h

@[simp] theorem sampleState_refreshed (t : InstanceTracker) (e : CachedSample T) :
    (refreshed t e).info.sampleState = e.info.sampleState := by
  unfold refreshed
  split <;> rfl

variable {sel : Selection}

theorem ordered_selected (hk : Keeping cfg r) (kh : KeyHash)
    (hskips : SkipsNone sel.masks r.cache) :
    Ordered (fun v => decide (cfg.codec.instanceKeyHash v = kh)) sel.wants
      r.refreshStates.cache := by
  refine List.pairwise_map.mpr (hskips.imp_of_mem ?_)
  intro e e' he he' hmask v v' hv hv' hkey hkey' hwants
  rw [(sameEntry_refreshed _ _).cachedValue] at hv hv'
  simp only [decide_eq_true_eq] at hkey hkey'
  have hhandle := (hk.cache e he).handle_eq (hk.cache e' he') hv hv' (hkey.trans hkey'.symm)
  obtain ⟨hview, hinstance⟩ := refreshed_states hhandle (Sound.known hk he hv)
  have hasks := hmask (validData_of_cachedValue hv) (validData_of_cachedValue hv') hhandle
  simp only [Selection.wants, SampleInfo.matchesStates, Bool.and_eq_true, refreshed_handle,
    sampleState_refreshed, hhandle, hview, hinstance] at hwants ⊢
  exact ⟨⟨⟨hasks hwants.1.1.1, hwants.1.1.2⟩, hwants.1.2⟩, hwants.2⟩

theorem ordered_ofInstance (hk : Keeping cfg r) (kh : KeyHash) (handle : InstanceHandle) :
    Ordered (fun v => decide (cfg.codec.instanceKeyHash v = kh)) (ofInstance handle)
      r.refreshStates.cache := by
  have hk' := (refreshStates_keeps r hk).1
  refine List.Pairwise.imp_of_mem ?_
    (List.pairwise_of_forall (R := fun _ _ => True) fun _ _ => trivial)
  intro e e' he he' _ v v' hv hv' hkey hkey' hwants
  simp only [decide_eq_true_eq] at hkey hkey'
  have hhandle := (hk'.cache e he).handle_eq (hk'.cache e' he') hv hv' (hkey.trans hkey'.symm)
  simpa [ofInstance, hhandle] using hwants

def handedBy : Except DdsError (List (Sample T)) → List T
  | .error _ => []
  | .ok out => handedValues out

theorem takeSelected_hands (hk : Keeping cfg r) (kh : KeyHash) {max : Option Nat}
    (hclean : CleanLoop cfg r sel.wants (tighter cfg.presentationLimit max))
    (hskips : SkipsNone sel.masks r.cache) :
    Hands cfg kh r (takeSelected cfg r sel max).1 (handedBy (takeSelected cfg r sel max).2) := by
  have hkeeps : KeepsValues cfg r r.refreshStates := refreshStates_keeps r
  obtain ⟨hk', hvalues, hheld, hwaiting⟩ := hkeeps hk
  rcases takeSelected_cases cfg hclean with heq | ⟨out, keep, hd, heq⟩
  · rw [heq]
    exact hkeeps.hands hk
  · rw [heq]
    have hhands := hands_of_drained hk' (ordered_selected hk kh hskips) hd
      (grows_noteTakenEach _ out)
      (presentByAccessScope_inOrder cfg (noteTakenEach r.instances out)
        (handle_eq_of_drained hk' hd))
    refine ⟨hhands.keeping, ?_, hhands.heldBack.trans hheld, hhands.arrived.trans hwaiting⟩
    rw [← hvalues]
    exact hhands.order

theorem takeOfInstance_hands (hk : Keeping cfg r) (kh : KeyHash) {handle : InstanceHandle}
    (hclean : CleanLoop cfg r (ofInstance handle) cfg.presentationLimit) :
    Hands cfg kh r (takeOfInstance cfg r handle).1 (handedBy (takeOfInstance cfg r handle).2) := by
  have hkeeps : KeepsValues cfg r r.refreshStates := refreshStates_keeps r
  obtain ⟨hk', hvalues, hheld, hwaiting⟩ := hkeeps hk
  rcases takeOfInstance_cases cfg hclean with heq | ⟨out, keep, hd, t, ht, heq⟩
  · rw [heq]
    exact hkeeps.hands hk
  · rw [heq]
    have hgrows : Grows r.refreshStates.instances t := by
      rw [ht]
      have hseen : Grows r.instances (r.instances.markViewSeen handle) :=
        .modifyHandle fun _ => rfl
      split
      · exact .refl _
      · exact hseen.trans (.modifyHandle fun _ => rfl)
    have hhands := hands_of_drained hk' (ordered_ofInstance hk kh handle) hd hgrows
      (congrArg (ofKey cfg kh) (handedValues_rankSamples t out))
    refine ⟨hhands.keeping, ?_, hhands.heldBack.trans hheld, hhands.arrived.trans hwaiting⟩
    rw [← hvalues]
    exact hhands.order

inductive Readable (e : CachedSample T) : Prop
  | marker (hbytes : e.bytes = none) (hvalid : e.info.validData = false)
  | data (b : SampleBytes) (value : T) (hbytes : e.bytes = some b)
      (hvalid : e.info.validData = true) (hvalue : e.decoded = some value)

theorem Sound.readable (h : Sound cfg t e) : Readable e := by
  cases h with
  | marker hbytes hvalid _ => exact .marker hbytes hvalid
  | data b v _ hbytes hvalid _ hvalue _ _ => exact .data b v hbytes hvalid hvalue

theorem drainValues_inOrder (cfg : ReaderConfig T) (limit : Option Nat) (taken : Nat)
    (hreadable : ∀ e ∈ cache, Readable e) :
    ∃ out keep, drainValues cfg limit taken cache = (out, .ok keep) ∧
      cachedValues cache = out.map (fun o => o.2.1) ++ cachedValues keep ∧
      (∀ o ∈ out, ∃ e ∈ cache, o.1 = e.info.instanceHandle ∧ cachedValue e = some o.2.1) ∧
      ∀ e ∈ keep, e ∈ cache := by
  induction cache generalizing taken with
  | nil => exact ⟨[], [], rfl, rfl, by simp, by simp⟩
  | cons e rest ih =>
    obtain ⟨he, hrest⟩ := List.forall_mem_cons.mp hreadable
    cases hunder : underLimit taken limit with
    | false =>
      refine ⟨[], e :: rest, ?_, rfl, by simp, fun _ => id⟩
      simp [drainValues, hunder]
    | true =>
      cases he with
      | marker hbytes hvalid =>
        obtain ⟨out, keep, hd, hvalues, hfrom, hkeep⟩ := ih taken hrest
        refine ⟨out, keep, ?_, ?_, fun o ho => ?_, fun e' he' =>
          List.mem_cons_of_mem _ (hkeep e' he')⟩
        · simp [drainValues, hunder, hbytes, hd]
        · rw [← hvalues]
          simp [cachedValues, cachedValue, hvalid]
        · obtain ⟨e', he', heq⟩ := hfrom o ho
          exact ⟨e', List.mem_cons_of_mem _ he', heq⟩
      | data b v hbytes hvalid hvalue =>
        obtain ⟨out, keep, hd, hvalues, hfrom, hkeep⟩ := ih (taken + 1) hrest
        have hcached : cachedValue e = some v := by simp [cachedValue, hvalid, hvalue]
        refine ⟨(e.info.instanceHandle, v, b.wire) :: out, keep, ?_, ?_, fun o ho => ?_,
          fun e' he' => List.mem_cons_of_mem _ (hkeep e' he')⟩
        · simp [drainValues, hunder, hbytes, CachedSample.decodedOr, hvalue, hd]
        · simp only [cachedValues, List.filterMap_cons, hcached, List.map_cons,
            List.cons_append] at hvalues ⊢
          rw [hvalues]
        · rcases List.mem_cons.mp ho with rfl | ho
          · exact ⟨e, List.mem_cons_self, rfl, hcached⟩
          · obtain ⟨e', he', heq⟩ := hfrom o ho
            exact ⟨e', List.mem_cons_of_mem _ he', heq⟩

theorem takeValues_of_drain {out : List (InstanceHandle × T × Option SampleWire)}
    {keep : List (CachedSample T)}
    (hd : drainValues cfg cfg.presentationLimit 0 r.cache = (out, .ok keep)) :
    takeValues cfg r =
      ({ r with instances := noteTakenRuns r.instances (out.map Prod.fst), cache := keep },
        .ok ((if cfg.presentation = .grouped then groupByInstance Prod.fst out
          else out).map Prod.snd)) := by
  simp [takeValues, hd]

theorem takeValues_hands (hk : Keeping cfg r) (kh : KeyHash) :
    ∃ r' values, takeValues cfg r = (r', .ok values) ∧
      Hands cfg kh r r' (values.map Prod.fst) := by
  obtain ⟨out, keep, hd, hvalues, hfrom, hkeep⟩ :=
    drainValues_inOrder cfg cfg.presentationLimit 0 fun e he => (hk.cache e he).readable
  have heq := takeValues_of_drain hd
  refine ⟨_, _, heq, ?_, ?_, rfl, rfl⟩
  · exact hk.of_grows (grows_noteTakenRuns _ _) (fun e he => hk.cache e (hkeep e he)) rfl rfl rfl
  · have hone : ∀ a ∈ out, ∀ b ∈ out, ∀ v w, some a.2.1 = some v → some b.2.1 = some w →
        decide (cfg.codec.instanceKeyHash v = kh) = true →
        decide (cfg.codec.instanceKeyHash w = kh) = true → a.1 = b.1 := by
      intro a ha b hb v w hv hw hpv hpw
      cases hv
      cases hw
      simp only [decide_eq_true_eq] at hpv hpw
      obtain ⟨e, he, hhandle, hval⟩ := hfrom a ha
      obtain ⟨e', he', hhandle', hval'⟩ := hfrom b hb
      rw [hhandle, hhandle']
      exact (hk.cache e he).handle_eq (hk.cache e' he') hval hval' (hpv.trans hpw.symm)
    have hgrouped : ofKey cfg kh ((groupByInstance Prod.fst out).map fun o => o.2.1) =
        ofKey cfg kh (out.map fun o => o.2.1) := by
      simpa [ofKey, List.filterMap_eq_map'] using groupByInstance_inOrder hone
    rw [hvalues, ofKey_append]
    congr 1
    split
    · rw [List.map_map]
      exact hgrouped.symm
    · rw [List.map_map]
      rfl

theorem readLoop_entries (pick : CachedSample T → Option (Except DdsError (Sample T)))
    (limit : Option Nat) (n : Nat) (cache : List (CachedSample T)) :
    SameEntries cache (readLoop pick limit n cache).2.1 := by
  have hrefl : ∀ l : List (CachedSample T), SameEntries l l :=
    fun l => List.forall₂_same.mpr fun e _ => .refl e
  induction cache generalizing n with
  | nil => exact .nil
  | cons e rest ih =>
    unfold readLoop
    split
    · exact hrefl _
    · split
      · exact .cons (.refl e) (ih n)
      · exact hrefl _
      · exact .cons (sameEntry_markRead e) (ih (n + 1))

theorem grows_seenAll (t : InstanceTracker) (out : List (Sample T)) :
    Grows t (out.foldl (fun t s => t.markViewSeen s.info.instanceHandle) t) := by
  induction out generalizing t with
  | nil => exact .refl t
  | cons s rest ih =>
    have hseen : Grows t (t.markViewSeen s.info.instanceHandle) := .modifyHandle fun _ => rfl
    exact hseen.trans (ih _)

theorem readWith_keeps (r : DataReader T)
    (pick : CachedSample T → Option (Except DdsError (Sample T))) (limit : Option Nat) :
    KeepsValues cfg r (r.readWith pick limit).1 :=
  .of_entries (readLoop_entries pick limit 0 r.cache) (grows_seenAll _ _) rfl rfl rfl

theorem readSelected_keeps (r : DataReader T) (sel : Selection) (max : Option Nat) :
    KeepsValues cfg r (readSelected cfg r sel max).1 :=
  (refreshStates_keeps r).trans (readWith_keeps _ _ _)

theorem readOfInstance_keeps (r : DataReader T) (handle : InstanceHandle) :
    KeepsValues cfg r (readOfInstance cfg r handle).1 :=
  (refreshStates_keeps r).trans (readWith_keeps _ _ _)

theorem markPlaces_entries (places : List Nat) (cache : List (CachedSample T)) (n : Nat) :
    SameEntries cache ((cache.zipIdx n).map fun e =>
      if places.contains e.2 then markRead e.1 else e.1) := by
  induction cache generalizing n with
  | nil => exact .nil
  | cons e rest ih =>
    refine .cons ?_ (ih (n + 1))
    show SameEntry e (if places.contains n then markRead e else e)
    split
    · exact sameEntry_markRead e
    · exact .refl e

theorem queryRead_keeps (r : DataReader T) (cond : QueryCondition T) (max : Option Nat)
    (instance? : Option InstanceHandle) :
    KeepsValues cfg r (querySelected cfg r cond max false instance?).1 := by
  unfold querySelected
  simp only [Bool.false_and, Bool.false_eq_true, if_false]
  refine (refreshStates_keeps r).trans ?_
  split
  · exact .refl _
  · exact .of_entries (markPlaces_entries _ _ 0) (grows_seenAll _ _) rfl rfl rfl

/-! ### What a reader has in its care -/

def carried (cfg : ReaderConfig T) (r : DataReader T) : List T :=
  cachedValues r.cache ++ entryValues cfg (r.heldBack ++ r.arrived)

/-- `values` are the first of the instance that `r` carried; `r'` carries the others. -/
structure Passes (cfg : ReaderConfig T) (kh : KeyHash) (r r' : DataReader T) (values : List T) :
    Prop where
  keeping : Keeping cfg r'
  order : ofKey cfg kh (carried cfg r) = ofKey cfg kh values ++ ofKey cfg kh (carried cfg r')

theorem Passes.refl (hk : Keeping cfg r) : Passes cfg kh r r [] :=
  ⟨hk, rfl⟩

theorem Hands.passes {values : List T} (h : Hands cfg kh r r' values) :
    Passes cfg kh r r' values := by
  refine ⟨h.keeping, ?_⟩
  rw [carried, carried, ofKey_append, ofKey_append, h.order, h.heldBack, h.arrived,
    List.append_assoc]

theorem ingestPending_carries (hq : Lossless cfg) (hk : Keeping cfg r) :
    ∃ r₁, ingestPending cfg r = (r₁, .ok ()) ∧ Keeping cfg r₁ ∧
      carried cfg r₁ = carried cfg r := by
  obtain ⟨r₁, hingest, hk₁, hvalues, hwaiting⟩ := ingestPending_conveys hq hk
  refine ⟨r₁, hingest, hk₁, ?_⟩
  rw [carried, hwaiting, List.append_nil, hvalues, carried]

variable {op : DataReader T → DataReader T × Except DdsError α}

theorem afterIngest_passes (hq : Lossless cfg) (hk : Keeping cfg r)
    (handed : Except DdsError α → List T)
    (hop : ∀ r₁, ingestPending cfg r = (r₁, .ok ()) → Keeping cfg r₁ →
      Passes cfg kh r₁ (op r₁).1 (handed (op r₁).2)) :
    Passes cfg kh r (afterIngest cfg r op).1 (handed (afterIngest cfg r op).2) := by
  obtain ⟨r₁, hingest, hk₁, hsame⟩ := ingestPending_carries hq hk
  have hrun : afterIngest cfg r op = op r₁ := by rw [afterIngest, hingest]
  have hthen := hop r₁ hingest hk₁
  rw [hrun]
  refine ⟨hthen.keeping, ?_⟩
  rw [← hsame]
  exact hthen.order

/-- No take fails halfway, takes by a query, or skips a sample for its sample state. -/
def TakesInOrder (cfg : ReaderConfig T) (r : DataReader T) : ReaderStep T → Prop
  | .takeSelected sel max =>
    CleanLoop cfg r sel.wants (tighter cfg.presentationLimit max) ∧ SkipsNone sel.masks r.cache
  | .takeOfInstance handle => CleanLoop cfg r (ofInstance handle) cfg.presentationLimit
  | .query _ _ take _ => take = false
  | .sample _ _ _ | .marker _ | .lifespan _ | .strength _ _ | .departure _ _ | .autopurge _
  | .takeValues | .readValues | .readSelected _ _ | .readOfInstance _ => True

def ArrivesLasting (cfg : ReaderConfig T) : Event T → Prop
  | .arrive entry => Lasting cfg entry
  | _ => True

def Orderly (cfg : ReaderConfig T) (r : DataReader T) (event : Event T) : Prop :=
  ArrivesLasting cfg event ∧ StepsMeet cfg (TakesInOrder cfg) r event

def arrivedValue (cfg : ReaderConfig T) : Event T → Option T
  | .arrive entry => entryValue cfg entry
  | _ => none

def valuesBy : Except DdsError (List (T × Option SampleWire)) → List T
  | .error _ => []
  | .ok values => values.map Prod.fst

def takenBy : Event T → Reply T → List T
  | .take, .taken out => valuesBy out
  | .takeCore _ _, .samples out | .takeInstance _, .samples out
  | .takeNextInstance _, .samples out | .query _ _ true _, .samples out => handedBy out
  | _, _ => []

def arrivedValues (cfg : ReaderConfig T) (h : History (Event T) (Reply T)) : List T :=
  h.filterMap fun e => arrivedValue cfg e.1

def handedOut (h : History (Event T) (Reply T)) : List T := h.flatMap fun e => takenBy e.1 e.2

theorem mem_afterIngestTrace {r₁ : DataReader T}
    {steps : DataReader T → List (DataReader T × ReaderStep T)}
    (hingest : ingestPending cfg r = (r₁, .ok ())) {p : DataReader T × ReaderStep T}
    (hp : p ∈ steps r₁) : p ∈ afterIngestTrace cfg r steps := by
  rw [afterIngestTrace, hingest]
  exact List.mem_append_right _ hp

theorem takeInstance_passes (hq : Lossless cfg) (hk : Keeping cfg r) (h : InstanceHandle)
    (hok : ∀ r' s, (r', s) ∈ takeInstanceTrace cfg r h → TakesInOrder cfg r' s) :
    Passes cfg kh r (takeInstance cfg r h).1 (handedBy (takeInstance cfg r h).2) := by
  unfold takeInstance
  unfold takeInstanceTrace at hok
  split
  · exact .refl hk
  · next hne =>
    rw [if_neg hne] at hok
    refine afterIngest_passes hq hk handedBy fun r₁ hingest hk₁ =>
      (takeOfInstance_hands hk₁ kh ?_).passes
    exact hok r₁ _ (mem_afterIngestTrace hingest (List.mem_singleton_self _))

theorem afterIngest_reads (hq : Lossless cfg) (hk : Keeping cfg r)
    (hop : ∀ r, KeepsValues cfg r (op r).1) : Passes cfg kh r (afterIngest cfg r op).1 [] :=
  afterIngest_passes hq hk (fun _ => []) fun r₁ _ hk₁ => ((hop r₁).hands hk₁).passes

theorem takeNextInstance_passes (hq : Lossless cfg) (hk : Keeping cfg r)
    (previous : InstanceHandle)
    (hok : StepsMeet cfg (TakesInOrder cfg) r (.takeNextInstance previous)) :
    Passes cfg kh r (takeNextInstance cfg r previous).1
      (handedBy (takeNextInstance cfg r previous).2) := by
  refine afterIngest_passes hq hk handedBy fun r₁ hingest hk₁ => ?_
  cases hnext : r₁.nextInstanceWithSamples previous with
  | none => exact .refl hk₁
  | some next =>
    refine takeInstance_passes hq hk₁ next fun r' s hmem => ?_
    refine hok r' s (mem_afterIngestTrace hingest ?_)
    rw [hnext]
    exact hmem

theorem readInstance_passes (hq : Lossless cfg) (hk : Keeping cfg r) (h : InstanceHandle) :
    Passes cfg kh r (readInstance cfg r h).1 [] := by
  unfold readInstance
  split
  · exact .refl hk
  · exact afterIngest_reads hq hk fun r => readOfInstance_keeps r h

variable {event : Event T}

theorem handle_passes (hq : Lossless cfg) (kh : KeyHash) (hk : Keeping cfg r)
    (hcall : ∀ entry, event ≠ .arrive entry) (hok : StepsMeet cfg (TakesInOrder cfg) r event) :
    Passes cfg kh r (handle cfg r event).1 (takenBy event (handle cfg r event).2) := by
  cases event with
  | arrive entry => exact absurd rfl (hcall entry)
  | strengthChanged writer strength =>
    exact ⟨⟨hk.cache, hk.known, hk.noHold, hk.held, hk.waiting⟩, rfl⟩
  | writerGone writer => exact ⟨⟨hk.cache, hk.known, hk.noHold, hk.held, hk.waiting⟩, rfl⟩
  | ingest =>
    obtain ⟨r₁, hingest, hk₁, hsame⟩ := ingestPending_carries hq hk
    have hrun : (handle cfg r .ingest).1 = r₁ := by rw [handle, hingest]
    rw [hrun]
    exact ⟨hk₁, by rw [hsame]; rfl⟩
  | releaseDue =>
    have heq : (releaseDueTbf cfg r).1 = (r.wallNow cfg).2 := by rw [releaseDueTbf_eq hk]
    refine ⟨?_, ?_⟩
    · rw [handle, heq]
      exact ⟨hk.cache, hk.known, hk.noHold, hk.held, hk.waiting⟩
    · rw [handle, heq]
      rfl
  | take =>
    refine afterIngest_passes hq hk valuesBy fun r₁ _ hk₁ => ?_
    obtain ⟨r', values, heq, hhands⟩ := takeValues_hands hk₁ kh
    rw [heq]
    exact hhands.passes
  | takeCore sel max =>
    refine afterIngest_passes hq hk handedBy fun r₁ hingest hk₁ => ?_
    obtain ⟨hclean, hskips⟩ := hok r₁ (.takeSelected sel max)
      (mem_afterIngestTrace hingest (List.mem_singleton_self _))
    exact (takeSelected_hands hk₁ kh hclean hskips).passes
  | takeInstance h => exact takeInstance_passes hq hk h hok
  | takeNextInstance previous => exact takeNextInstance_passes hq hk previous hok
  | query cond max take instance? =>
    obtain ⟨r₁, hingest, _⟩ := ingestPending_carries hq hk
    have hread : take = false := hok r₁ (.query cond max take instance?)
      (mem_afterIngestTrace hingest (List.mem_singleton_self _))
    subst hread
    exact afterIngest_reads hq hk fun r => queryRead_keeps r cond max instance?
  | read => exact afterIngest_reads hq hk fun r => readWith_keeps r _ _
  | readCore sel max => exact afterIngest_reads hq hk fun r => readSelected_keeps r sel max
  | readInstance h => exact readInstance_passes hq hk h
  | readNextInstance previous =>
    refine afterIngest_passes hq hk (fun _ => []) fun r₁ _ hk₁ => ?_
    cases r₁.nextInstanceWithSamples previous with
    | none => exact .refl hk₁
    | some next => exact readInstance_passes hq hk₁ next

structure Accounted (cfg : ReaderConfig T) (kh : KeyHash) (h : History (Event T) (Reply T))
    (r : DataReader T) : Prop where
  keeping : Keeping cfg r
  order : ofKey cfg kh (arrivedValues cfg h) =
    ofKey cfg kh (handedOut h) ++ ofKey cfg kh (carried cfg r)

theorem handle_accounted (hq : Lossless cfg) {h : History (Event T) (Reply T)}
    (hacc : Accounted cfg kh h r) (hok : Orderly cfg r event) :
    Accounted cfg kh (h ++ [(event, (handle cfg r event).2)]) (handle cfg r event).1 := by
  obtain ⟨hk, horder⟩ := hacc
  obtain ⟨hlasting, hsteps⟩ := hok
  have hout : ∀ reply, handedOut (h ++ [(event, reply)]) = handedOut h ++ takenBy event reply := by
    intro reply
    simp [handedOut]
  by_cases harrive : ∃ entry, event = .arrive entry
  · obtain ⟨entry, rfl⟩ := harrive
    have hin : arrivedValues cfg (h ++ [(.arrive entry, (handle cfg r (.arrive entry)).2)]) =
        arrivedValues cfg h ++ entryValues cfg [entry] := by
      simp only [arrivedValues, List.filterMap_append]
      rfl
    have hcarried : carried cfg (handle cfg r (.arrive entry)).1 =
        carried cfg r ++ entryValues cfg [entry] := by
      simp [carried, handle, entryValues]
    refine ⟨⟨hk.cache, hk.known, hk.noHold, hk.held, ?_⟩, ?_⟩
    · exact List.forall_mem_append.mpr ⟨hk.waiting, List.forall_mem_singleton.mpr hlasting⟩
    · rw [hin, ofKey_append, horder, hout, hcarried, ofKey_append, ofKey_append]
      simp [takenBy, ofKey]
  · have hcall : ∀ entry, event ≠ .arrive entry := fun entry heq => harrive ⟨entry, heq⟩
    have hin : ∀ reply, arrivedValues cfg (h ++ [(event, reply)]) = arrivedValues cfg h := by
      intro reply
      cases event with
      | arrive entry => exact absurd rfl (hcall entry)
      | _ => simp [arrivedValues, arrivedValue]
    obtain ⟨hk', hmoved⟩ := handle_passes hq kh hk hcall hsteps
    refine ⟨hk', ?_⟩
    rw [hin, horder, hmoved, hout, ofKey_append, List.append_assoc]

theorem keeping_new (cfg : ReaderConfig T) (ht : t = .new ∨ t = .withKeyHandles) :
    Keeping cfg (DataReader.new t) where
  cache := by simp [DataReader.new]
  known := by
    intro kh s hs
    rcases ht with rfl | rfl <;> cases hs
  noHold := rfl
  held := by simp [DataReader.new]
  waiting := by simp [DataReader.new]

/-- What is handed out of a key is a prefix of what arrived; the rest waits in order. -/
theorem taken_in_order (hq : Lossless cfg) (t : InstanceTracker)
    (ht : t = .new ∨ t = .withKeyHandles) {h : History (Event T) (Reply T)} {r : DataReader T}
    (hr : Reaches (handle cfg) (Orderly cfg) (DataReader.new t) h r) (kh : KeyHash) :
    ofKey cfg kh (handedOut h) <+: ofKey cfg kh (arrivedValues cfg h) ∧
      ofKey cfg kh (arrivedValues cfg h) = ofKey cfg kh (handedOut h) ++
        ofKey cfg kh (cachedValues r.cache) ++ ofKey cfg kh (entryValues cfg r.heldBack) ++
        ofKey cfg kh (entryValues cfg r.arrived) := by
  have hstart : Accounted cfg kh [] (DataReader.new t) := ⟨keeping_new cfg ht, rfl⟩
  have hacc := Reaches.invariant (P := Accounted cfg kh) hstart
    (fun _ _ _ hacc hok => handle_accounted hq hacc hok) hr
  refine ⟨⟨_, hacc.order.symm⟩, ?_⟩
  rw [hacc.order, carried, entryValues, List.filterMap_append, ofKey_append, ofKey_append]
  simp only [List.append_assoc]
  rfl

instance : ∀ entry, Decidable (Lasting cfg entry)
  | .alive raw => decidable_of_iff (raw.lifespanNanos = 0 ∧ (cfg.codec.decode raw.bytes.octets
      raw.representation raw.bigEndian).isOk = true) (by
        rw [Lasting]
        cases cfg.codec.decode raw.bytes.octets raw.representation raw.bigEndian <;>
          simp [Except.isOk, Except.toBool])
  | .lifecycle _ => .isTrue trivial

instance : ∀ event, Decidable (ArrivesLasting cfg event)
  | .arrive _ => inferInstanceAs (Decidable (Lasting _ _))
  | .strengthChanged _ _ | .writerGone _ | .ingest | .releaseDue | .take | .takeCore _ _
  | .takeInstance _ | .takeNextInstance _ | .query _ _ _ _ | .read | .readCore _ _
  | .readInstance _ | .readNextInstance _ => .isTrue trivial

instance (masks : StateMasks) (cache : List (CachedSample T)) : Decidable (SkipsNone masks cache) :=
  inferInstanceAs (Decidable (List.Pairwise _ _))

instance (r : DataReader T) : ∀ s, Decidable (TakesInOrder cfg r s)
  | .takeSelected _ _ => inferInstanceAs (Decidable (_ ∧ _))
  | .takeOfInstance _ => inferInstanceAs (Decidable (CleanLoop _ _ _ _))
  | .query _ _ take _ => inferInstanceAs (Decidable (take = false))
  | .sample _ _ _ | .marker _ | .lifespan _ | .strength _ _ | .departure _ _ | .autopurge _
  | .takeValues | .readValues | .readSelected _ _ | .readOfInstance _ => .isTrue trivial

instance (r : DataReader T) (event : Event T) : Decidable (Orderly cfg r event) :=
  inferInstanceAs (Decidable (_ ∧ _))

def oneOfEach : ReaderConfig (UInt8 × UInt8) :=
  octetConfig { reliableQos with maxSamplesPerInstance := 1 }

/-- The second sample waits until the first is taken. -/
theorem taken_in_order_one_by_one :
    ∃ h r, Reaches (handle oneOfEach) (Orderly oneOfEach) (DataReader.new .new) h r ∧
      handedOut h = [(1, 7), (1, 8)] ∧
      ofKey oneOfEach (octetKey 1) (handedOut h) <+:
        ofKey oneOfEach (octetKey 1) (arrivedValues oneOfEach h) := by
  have hok : RunOk (handle oneOfEach) (Orderly oneOfEach) (DataReader.new .new)
      [.arrive (octetSample 1 [1, 7] 1), .arrive (octetSample 1 [1, 8] 2),
        .arrive (octetSample 1 [1, 9] 3), .takeCore ⟨.any, none⟩ none, .read, .take] := by
    decide +kernel
  have hlossless : Lossless oneOfEach := ⟨rfl, rfl, rfl, rfl, rfl, rfl, rfl, rfl⟩
  exact ⟨_, _, reaches_run hok, by decide +kernel,
    (taken_in_order hlossless .new (.inl rfl) (reaches_run hok) (octetKey 1)).1⟩

/-- A take of unread samples hands out one that arrived after one that was read. -/
theorem unread_taken_first :
    ¬ ∀ (cfg : ReaderConfig (UInt8 × UInt8)) (h : History (Event (UInt8 × UInt8)) _)
      (r : DataReader (UInt8 × UInt8)), Lossless cfg →
      Reaches (handle cfg) (fun _ event => ArrivesLasting cfg event) (DataReader.new .new) h r →
      ∀ kh, ofKey cfg kh (handedOut h) <+: ofKey cfg kh (arrivedValues cfg h) := by
  intro hall
  have hok : RunOk (handle (octetConfig reliableQos))
      (fun _ event => ArrivesLasting (octetConfig reliableQos) event) (DataReader.new .new)
      [.arrive (octetSample 1 [1, 7] 1), .read, .arrive (octetSample 1 [1, 8] 2),
        .takeCore ⟨⟨2, 0xffff, 0xffff⟩, none⟩ none] := by
    decide +kernel
  have hfirst := hall (octetConfig reliableQos) _ _ ⟨rfl, rfl, rfl, rfl, rfl, rfl, rfl, rfl⟩
    (reaches_run hok) (octetKey 1)
  revert hfirst
  decide +kernel

end DataReader
end ZeroDds.Dcps
