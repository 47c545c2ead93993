/-
The latest value under a time-based filter.
-/
import ZeroDds.Dcps.TakenInOrder
import ZeroDds.Dcps.SourceOrder

namespace ZeroDds.Dcps

open SortedMap

namespace InstanceState

def filterTimes (s : InstanceState) :
    Option Time × Option Time := (s.lastDeliveredTs, s.lastFilterTs)

variable (s : InstanceState) (timestamp : Option Time)

@[simp] theorem filterTimes_withHolder (keyHolder : Option Rtps.Octets) :
    (s.withHolder keyHolder).filterTimes = s.filterTimes := by
  unfold withHolder
  split <;> rfl

@[simp] theorem filterTimes_stamped : (s.stamped timestamp).filterTimes = s.filterTimes := by
  unfold stamped
  split <;> rfl

@[simp] theorem filterTimes_disposed : (s.disposed timestamp).filterTimes = s.filterTimes := by
  unfold disposed
  split <;> rfl

@[simp] theorem filterTimes_unregistered :
    (s.unregistered timestamp).filterTimes = s.filterTimes := by
  unfold unregistered
  simp only [filterTimes_stamped]
  split <;> rfl

@[simp] theorem filterTimes_writerUnregistered (writer : WriterGuid) (timestamp : Option Time) :
    (s.writerUnregistered writer timestamp).filterTimes = s.filterTimes := by
  unfold writerUnregistered
  simp only [filterTimes_stamped]
  split <;> rfl

@[simp] theorem filterTimes_writerDropped (writer : WriterGuid) (timestamp : Option Time) :
    (s.writerDropped writer timestamp).filterTimes = s.filterTimes := by
  unfold writerDropped
  split
  · split <;> rfl
  · rfl

end InstanceState

namespace InstanceTracker

variable {t t₁ t₂ : InstanceTracker}

def filterTimes (t : InstanceTracker) (kh : KeyHash) : Option Time × Option Time :=
  ((t.stateOf kh).map InstanceState.filterTimes).getD (none, none)

def SameTimes (t t' : InstanceTracker) : Prop := ∀ kh, t'.filterTimes kh = t.filterTimes kh

namespace SameTimes

theorem refl (t : InstanceTracker) : SameTimes t t := fun _ => rfl

theorem trans (h : SameTimes t t₁) (h' : SameTimes t₁ t₂) : SameTimes t t₂ :=
  fun kh => (h' kh).trans (h kh)

theorem of_sameUnder (h : SameUnder InstanceState.filterTimes t t₁) : SameTimes t t₁ := by
  intro kh
  rw [filterTimes, filterTimes, h kh]

variable {f : InstanceState → InstanceState}

theorem modifyHandle {h : InstanceHandle} (hf : ∀ s, (f s).filterTimes = s.filterTimes) :
    SameTimes t (t.modifyHandle h f) :=
  of_sameUnder (.modifyHandle hf)

theorem modifyAll (hf : ∀ s, (f s).filterTimes = s.filterTimes) : SameTimes t (t.modifyAll f) :=
  of_sameUnder (.modifyAll hf)

theorem markViewSeen (h : InstanceHandle) : SameTimes t (t.markViewSeen h) :=
  .modifyHandle fun _ => rfl

theorem drainSamples (h : InstanceHandle) (n : Nat) : SameTimes t (t.drainSamples h n) :=
  .modifyHandle fun _ => rfl

theorem noteTaken (h : InstanceHandle) (n : Nat) : SameTimes t (t.noteTaken h n) :=
  .modifyHandle fun _ => rfl

theorem observeLifecycle (kh : KeyHash) (keyHolder : Option Rtps.Octets) (timestamp : Option Time) :
    SameTimes t (t.observeLifecycle kh keyHolder timestamp).1 := by
  intro kh'
  rw [filterTimes, stateOf_observeLifecycle]
  split
  · next heq =>
    subst heq
    have hmarked : (t.markedState kh' keyHolder timestamp).filterTimes =
        (t.entry kh' keyHolder).1.filterTimes := by
      show (((t.entry kh' keyHolder).1.withHolder keyHolder).stamped timestamp).filterTimes = _
      rw [InstanceState.filterTimes_stamped, InstanceState.filterTimes_withHolder]
    rw [Option.map_some, Option.getD_some, hmarked, entry, filterTimes]
    cases t.stateOf kh' <;> rfl
  · rfl

theorem applyMarkerKind (handle : InstanceHandle) (kind : InstanceStateKind)
    (writer : Option WriterGuid) (now : Time) :
    SameTimes t (DataReader.applyMarkerKind t handle kind writer now).1 := by
  have hleft : ∀ w, SameTimes t (t.unregisterWriter handle w (some now)) :=
    fun w => .modifyHandle fun s => s.filterTimes_writerUnregistered w (some now)
  unfold DataReader.applyMarkerKind
  split
  · exact .modifyHandle fun s => s.filterTimes_disposed (some now)
  · split
    · simp only
      split
      · exact (hleft _).trans (.modifyHandle fun _ => rfl)
      · exact hleft _
    · exact .modifyHandle fun s => s.filterTimes_unregistered (some now)
  · exact .refl t

theorem updateOwnerStrength (writer : WriterGuid) (strength : Int) :
    SameTimes t (t.updateOwnerStrength writer strength) := by
  refine .modifyAll fun s => ?_
  split
  · split <;> rfl
  · rfl

theorem clearOwnerForWriter (writer : WriterGuid) : SameTimes t (t.clearOwnerForWriter writer) := by
  refine .modifyAll fun s => ?_
  split <;> rfl

theorem foldl {α : Type} {f : InstanceTracker → α → InstanceTracker}
    (hf : ∀ t a, SameTimes t (f t a)) (l : List α) (t : InstanceTracker) :
    SameTimes t (l.foldl f t) := by
  induction l generalizing t with
  | nil => exact .refl t
  | cons a l ih => exact (hf t a).trans (ih _)

end SameTimes
end InstanceTracker

open InstanceTracker (SameTimes)

namespace DataReader

variable {T : Type} {cfg : ReaderConfig T}

/-! ### What stays in the cache or is handed out -/

inductive Stored (cfg : ReaderConfig T) (e : CachedSample T) : Prop
  | marker (hbytes : e.bytes = none) (hvalid : e.info.validData = false)
      (hlasts : e.expiresAt = none)
  | data (b : SampleBytes) (value : T) (hbytes : e.bytes = some b)
      (hvalid : e.info.validData = true) (hlasts : e.expiresAt = none)
      (hvalue : e.decoded = some value)
      (hdecodes : cfg.codec.decode b.octets e.representation e.bigEndian = .ok value)

variable {e : CachedSample T}

theorem Stored.readable (h : Stored cfg e) : Readable e := by
  cases h with
  | marker hbytes hvalid _ => exact .marker hbytes hvalid
  | data b v hbytes hvalid _ hvalue _ => exact .data b v hbytes hvalid hvalue

theorem Stored.lasts (h : Stored cfg e) : e.expiresAt = none := by
  cases h with
  | marker _ _ hlasts => exact hlasts
  | data _ _ _ _ hlasts _ _ => exact hlasts

theorem Stored.of_same {e' : CachedSample T} (h : SameEntry e e') (hs : Stored cfg e) :
    Stored cfg e' := by
  cases hs with
  | marker hbytes hvalid hlasts =>
    exact .marker (h.bytes.trans hbytes) (h.validData.trans hvalid) (h.expiresAt.trans hlasts)
  | data b v hbytes hvalid hlasts hvalue hdecodes =>
    refine .data b v (h.bytes.trans hbytes) (h.validData.trans hvalid)
      (h.expiresAt.trans hlasts) (h.decoded.trans hvalue) ?_
    rw [h.representation, h.bigEndian]
    exact hdecodes

def AllStored (cfg : ReaderConfig T) (cache : List (CachedSample T)) : Prop :=
  ∀ e ∈ cache, Stored cfg e

variable {cache : List (CachedSample T)}

theorem AllStored.valued (h : AllStored cfg cache) : Valued cache := by
  intro e he hvalid
  cases h e he with
  | marker _ hmarker _ => simp [hmarker] at hvalid
  | data _ v _ _ _ hvalue _ =>
    rw [hvalue]
    exact Option.some_ne_none v

structure Moves (cfg : ReaderConfig T) (r r' : DataReader T) (out : List T) : Prop where
  stored : AllStored cfg r.cache → AllStored cfg r'.cache
  values : AllStored cfg r.cache →
    ∀ v ∈ cachedValues r.cache, v ∈ out ∨ v ∈ cachedValues r'.cache
  filterTimes : SameTimes r.instances r'.instances
  tbfHold : r'.tbfHold = r.tbfHold
  heldBack : r'.heldBack = r.heldBack
  arrived : r'.arrived = r.arrived

namespace Moves

variable {r r₁ r₂ : DataReader T} {out out' : List T}

theorem refl (r : DataReader T) : Moves cfg r r [] :=
  ⟨id, fun _ _ hv => .inr hv, .refl _, rfl, rfl, rfl⟩

theorem trans (h : Moves cfg r r₁ out) (h' : Moves cfg r₁ r₂ out') :
    Moves cfg r r₂ (out ++ out') where
  stored hs := h'.stored (h.stored hs)
  values hs v hv := by
    rcases h.values hs v hv with hv | hv
    · exact .inl (List.mem_append_left _ hv)
    · exact (h'.values (h.stored hs) v hv).imp_left (List.mem_append_right _)
  filterTimes := h.filterTimes.trans h'.filterTimes
  tbfHold := h'.tbfHold.trans h.tbfHold
  heldBack := h'.heldBack.trans h.heldBack
  arrived := h'.arrived.trans h.arrived

theorem after (h : Moves cfg r r₁ []) (h' : Moves cfg r₁ r₂ out) : Moves cfg r r₂ out :=
  h.trans h'

theorem of_cache (hcache : r₁.cache = r.cache) (htimes : SameTimes r.instances r₁.instances)
    (hhold : r₁.tbfHold = r.tbfHold) (hheld : r₁.heldBack = r.heldBack)
    (hwaiting : r₁.arrived = r.arrived) : Moves cfg r r₁ [] :=
  ⟨fun h => by rwa [hcache], fun _ _ hv => .inr (by rwa [hcache]), htimes, hhold, hheld, hwaiting⟩

theorem of_entries (hsame : SameEntries r.cache r₁.cache)
    (htimes : SameTimes r.instances r₁.instances) (hhold : r₁.tbfHold = r.tbfHold)
    (hheld : r₁.heldBack = r.heldBack) (hwaiting : r₁.arrived = r.arrived) : Moves cfg r r₁ [] :=
  ⟨hsame.forall fun _ _ => Stored.of_same, fun _ _ hv => .inr (by rwa [hsame.cachedValues]),
    htimes, hhold, hheld, hwaiting⟩

theorem pushMarker (r : DataReader T) {info : SampleInfo} (hinfo : info.validData = false) :
    Moves cfg r (r.pushMarker info) [] where
  stored hs e he := by
    rcases List.mem_append.mp he with he | he
    · exact hs e he
    · rw [List.mem_singleton.mp he]
      exact .marker rfl hinfo rfl
  values _ v hv := by
    refine .inr ?_
    rw [DataReader.pushMarker, cachedValues_marker hinfo]
    exact hv
  filterTimes := .refl _
  tbfHold := rfl
  heldBack := rfl
  arrived := rfl

end Moves

theorem refreshStates_moves (r : DataReader T) : Moves cfg r r.refreshStates [] :=
  .of_entries (sameEntries_map _ (sameEntry_refreshed r.instances)) (.refl _) rfl rfl rfl

theorem sameTimes_seenAll (t : InstanceTracker) (out : List (Sample T)) :
    SameTimes t (out.foldl (fun t s => t.markViewSeen s.info.instanceHandle) t) :=
  .foldl (fun _ _ => .markViewSeen _) out t

theorem readWith_moves (r : DataReader T)
    (pick : CachedSample T → Option (Except DdsError (Sample T))) (limit : Option Nat) :
    Moves cfg r (r.readWith pick limit).1 [] :=
  .of_entries (readLoop_entries pick limit 0 r.cache) (sameTimes_seenAll _ _) rfl rfl rfl

theorem readSelected_moves (r : DataReader T) (sel : Selection) (max : Option Nat) :
    Moves cfg r (readSelected cfg r sel max).1 [] :=
  (refreshStates_moves r).trans (readWith_moves _ _ _)

theorem readOfInstance_moves (r : DataReader T) (handle : InstanceHandle) :
    Moves cfg r (readOfInstance cfg r handle).1 [] :=
  (refreshStates_moves r).trans (readWith_moves _ _ _)

variable {r : DataReader T} {out : List (Sample T)} {t : InstanceTracker} {sel : Selection}
  {cond : QueryCondition T} {chosen : List (Nat × Sample T)}
  {wanted : CachedSample T → Bool} {limit : Option Nat} {keep : List (CachedSample T)}

theorem drainWanted_keeps {taken : Nat} (hvalued : Valued cache)
    (h : drainWanted cfg r wanted limit taken cache = (out, .ok keep)) :
    ∀ v ∈ cachedValues cache, v ∈ handedValues out ∨ v ∈ cachedValues keep := by
  induction cache generalizing taken out keep with
  | nil =>
    cases h
    simp [cachedValues]
  | cons e rest ih =>
    obtain ⟨he, hrest⟩ := valued_cons.mp hvalued
    intro v hv
    rcases drainWanted_cons_ok h with
      ⟨_, _, sample, out', hm, rfl, hd⟩ | ⟨_, keep', rfl, hd⟩
    · have hone := (materialize_ok he hm).2
      simp only [cachedValues, handedValues, List.mem_filterMap, List.mem_cons] at hv ⊢
      obtain ⟨e', rfl | he', hval⟩ := hv
      · exact .inl ⟨sample, .inl rfl, hone.trans hval⟩
      · rcases ih hrest hd v (List.mem_filterMap.mpr ⟨e', he', hval⟩) with hv | hv
        · obtain ⟨s, hs, hval⟩ := List.mem_filterMap.mp hv
          exact .inl ⟨s, .inr hs, hval⟩
        · exact .inr (List.mem_filterMap.mp hv)
    · simp only [cachedValues, List.mem_filterMap, List.mem_cons] at hv ⊢
      obtain ⟨e', rfl | he', hval⟩ := hv
      · exact .inr ⟨e', .inl rfl, hval⟩
      · rcases ih hrest hd v (List.mem_filterMap.mpr ⟨e', he', hval⟩) with hv | hv
        · exact .inl hv
        · obtain ⟨e'', he'', hval⟩ := List.mem_filterMap.mp hv
          exact .inr ⟨e'', .inr he'', hval⟩

theorem mem_handedValues_present {v : T} :
    v ∈ handedValues (presentByAccessScope cfg t out) ↔ v ∈ handedValues out := by
  rw [presentByAccessScope, handedValues_rankSamples]
  split
  · have hperm : (groupByInstance (fun s : Sample T => s.info.instanceHandle) out).Perm out :=
      List.mergeSort_perm _ _
    exact (hperm.filterMap handedValue).mem_iff
  · rfl

theorem sameTimes_noteTakenEach (t : InstanceTracker) (out : List (Sample T)) :
    SameTimes t (noteTakenEach t out) := by
  induction out generalizing t with
  | nil => exact .refl t
  | cons s rest ih =>
    refine SameTimes.trans ?_ (ih _)
    split
    · exact .markViewSeen _
    · exact (SameTimes.markViewSeen _).trans (.drainSamples _ _)

theorem drained_moves {values : List T}
    (hd : drainWanted cfg r wanted limit 0 r.cache = (out, .ok keep))
    (htimes : SameTimes r.instances t) (hvalues : ∀ v ∈ handedValues out, v ∈ values) :
    Moves cfg r { r with instances := t, cache := keep } values where
  stored hs e he := hs e ((drainWanted_from hs.valued hd).2 e he)
  values hs v hv := (drainWanted_keeps hs.valued hd v hv).imp_left (hvalues v)
  filterTimes := htimes
  tbfHold := rfl
  heldBack := rfl
  arrived := rfl

theorem takeSelected_moves {max : Option Nat}
    (hclean : CleanLoop cfg r sel.wants (tighter cfg.presentationLimit max)) :
    Moves cfg r (takeSelected cfg r sel max).1 (handedBy (takeSelected cfg r sel max).2) := by
  rcases takeSelected_cases cfg hclean with heq | ⟨out, keep, hd, heq⟩
  · rw [heq]
    exact refreshStates_moves r
  · rw [heq]
    exact (refreshStates_moves r).trans (drained_moves hd (sameTimes_noteTakenEach _ _)
      fun _ => mem_handedValues_present.mpr)

theorem takeOfInstance_moves {handle : InstanceHandle}
    (hclean : CleanLoop cfg r (ofInstance handle) cfg.presentationLimit) :
    Moves cfg r (takeOfInstance cfg r handle).1 (handedBy (takeOfInstance cfg r handle).2) := by
  rcases takeOfInstance_cases cfg hclean with heq | ⟨out, keep, hd, t, ht, heq⟩
  · rw [heq]
    exact refreshStates_moves r
  · rw [heq]
    have htimes : SameTimes r.instances t := by
      rw [ht]
      split
      · exact .refl _
      · exact (SameTimes.markViewSeen _).trans (.drainSamples _ _)
    refine (refreshStates_moves r).trans (drained_moves hd htimes fun v hv => ?_)
    show v ∈ handedValues (rankSamples t out)
    rw [handedValues_rankSamples]
    exact hv

theorem takeValues_moves (hs : AllStored cfg r.cache) :
    Moves cfg r (takeValues cfg r).1 (valuesBy (takeValues cfg r).2) := by
  obtain ⟨out, keep, hd, hvalues, _, hkeep⟩ :=
    drainValues_inOrder cfg cfg.presentationLimit 0 fun e he => (hs e he).readable
  have heq := takeValues_of_drain hd
  rw [heq]
  refine ⟨fun hs e he => hs e (hkeep e he), fun _ v hv => ?_, ?_, rfl, rfl, rfl⟩
  · rw [hvalues] at hv
    refine (List.mem_append.mp hv).imp_left fun hv => ?_
    have hperm : (if cfg.presentation = .grouped then groupByInstance Prod.fst out
        else out).Perm out := by
      split
      · exact List.mergeSort_perm _ _
      · exact .refl _
    rw [valuesBy, List.map_map]
    exact (hperm.map _).mem_iff.mpr hv
  · exact .foldl (fun _ _ => .noteTaken _ _) _ _

theorem chooseMatching_from {index : Nat} (hs : AllStored cfg cache)
    (h : chooseMatching cfg r cond sel index cache = .ok chosen) :
    ∀ c ∈ chosen, index ≤ c.1 ∧ ∃ e, cache[c.1 - index]? = some e ∧
      handedValue c.2 = cachedValue e := by
  induction cache generalizing index chosen with
  | nil =>
    cases h
    simp
  | cons e rest ih =>
    obtain ⟨he, hrest⟩ := List.forall_mem_cons.mp hs
    have hbehind : ∀ chosen, chooseMatching cfg r cond sel (index + 1) rest = .ok chosen →
        ∀ c ∈ chosen, index ≤ c.1 ∧ ∃ e', (e :: rest)[c.1 - index]? = some e' ∧
          handedValue c.2 = cachedValue e' := by
      intro chosen h c hc
      obtain ⟨hle, e', he', hval⟩ := ih hrest h c hc
      refine ⟨by omega, e', ?_, hval⟩
      have hidx : c.1 - index = (c.1 - (index + 1)) + 1 := by omega
      rw [hidx, List.getElem?_cons_succ]
      exact he'
    unfold chooseMatching at h
    split at h
    · exact hbehind chosen h
    · cases hdata : decodeOrKeyholder cfg r e with
      | error err => simp [hdata] at h
      | ok data =>
        simp only [hdata] at h
        split at h
        · cases hc : chooseMatching cfg r cond sel (index + 1) rest with
          | error err => simp [hc, Except.map] at h
          | ok more =>
            simp only [hc, Except.map, Except.ok.injEq] at h
            subst h
            intro c hmem
            rcases List.mem_cons.mp hmem with rfl | hmem
            · refine ⟨le_refl _, e, by simp, ?_⟩
              cases he with
              | marker hbytes hvalid _ => simp [handedValue, cachedValue, hvalid]
              | data b v hbytes hvalid _ hvalue hdecodes =>
                simp only [decodeOrKeyholder, hbytes, hdecodes, Except.mapError] at hdata
                cases hdata
                simp [handedValue, cachedValue, hvalid, hvalue]
            · exact hbehind more hc c hmem
        · exact hbehind chosen h

theorem mem_untaken {places : List Nat} {i : Nat} (he : cache[i]? = some e) (hi : i ∉ places) :
    e ∈ (cache.zipIdx.filter fun p => !places.contains p.2).map Prod.fst := by
  refine List.mem_map.mpr ⟨(e, i), List.mem_filter.mpr ⟨?_, by simpa using hi⟩, rfl⟩
  exact List.mem_zipIdx_iff_getElem?.mpr he

theorem queryRead_moves (r : DataReader T) (cond : QueryCondition T) (max : Option Nat)
    (instance? : Option InstanceHandle) :
    Moves cfg r (querySelected cfg r cond max false instance?).1 [] := by
  unfold querySelected
  simp only [Bool.false_and, Bool.false_eq_true, if_false]
  refine (refreshStates_moves r).after ?_
  split
  · exact .refl _
  · exact .of_entries (markPlaces_entries _ _ 0) (sameTimes_seenAll _ _) rfl rfl rfl

theorem mem_orderChosen {c : Nat × Sample T} : c ∈ orderChosen cfg cond chosen ↔ c ∈ chosen := by
  unfold orderChosen
  split
  · split
    · exact (List.mergeSort_perm _ _).mem_iff
    · rfl
  · exact (List.mergeSort_perm _ _).mem_iff

theorem queryTaken_moves {all : List (Nat × Sample T)}
    (hall : chooseMatching cfg r cond sel 0 r.cache = .ok all) (hsub : ∀ c ∈ chosen, c ∈ all)
    (htimes : SameTimes r.instances t) :
    Moves cfg r
      { r with
        instances := t
        cache := (r.cache.zipIdx.filter fun e =>
          !(chosen.map Prod.fst).contains e.2).map Prod.fst }
      (handedValues (chosen.map Prod.snd)) where
  stored hs e he := by
    obtain ⟨p, hp, rfl⟩ := List.mem_map.mp he
    have hmem := (List.mem_filter.mp hp).1
    exact hs p.1 (List.fst_mem_of_mem_zipIdx hmem)
  values hs v hv := by
    obtain ⟨e, he, hval⟩ := List.mem_filterMap.mp hv
    obtain ⟨i, hi⟩ := List.mem_iff_getElem?.mp he
    by_cases hplace : i ∈ chosen.map Prod.fst
    · obtain ⟨c, hc, rfl⟩ := List.mem_map.mp hplace
      obtain ⟨_, e', he', hsame⟩ := chooseMatching_from hs hall c (hsub c hc)
      rw [Nat.sub_zero, hi] at he'
      cases he'
      exact .inl (List.mem_filterMap.mpr ⟨c.2, List.mem_map_of_mem hc, hsame.trans hval⟩)
    · exact .inr (List.mem_filterMap.mpr ⟨e, mem_untaken hi hplace, hval⟩)
  filterTimes := htimes
  tbfHold := rfl
  heldBack := rfl
  arrived := rfl

theorem queryTake_moves (r : DataReader T) (cond : QueryCondition T) (max : Option Nat)
    (instance? : Option InstanceHandle) :
    Moves cfg r (querySelected cfg r cond max true instance?).1
      (handedBy (querySelected cfg r cond max true instance?).2) := by
  unfold querySelected
  simp only [if_true]
  split
  · exact refreshStates_moves r
  · cases hall : chooseMatching cfg r.refreshStates cond ⟨cond.masks, instance?⟩ 0
        r.refreshStates.cache with
    | error e => exact refreshStates_moves r
    | ok all =>
      have htake : ∀ chosen : List (Nat × Sample T), (∀ c ∈ chosen, c ∈ orderChosen cfg cond all) →
          Moves cfg r
            { r.refreshStates with
              instances := noteTakenEach r.refreshStates.instances (chosen.map Prod.snd)
              cache := (r.refreshStates.cache.zipIdx.filter fun e =>
                !(chosen.map Prod.fst).contains e.2).map Prod.fst }
            (handedValues (rankSamples
              (noteTakenEach r.refreshStates.instances (chosen.map Prod.snd))
              (chosen.map Prod.snd))) := by
        intro chosen hsub
        rw [handedValues_rankSamples]
        exact (refreshStates_moves r).trans (queryTaken_moves hall
          (fun c hc => mem_orderChosen.mp (hsub c hc)) (sameTimes_noteTakenEach _ _))
      cases tighter cfg.presentationLimit max with
      | none => exact htake _ fun _ => id
      | some limit => exact htake _ fun _ => List.mem_of_mem_take

/-! ### Markers and departures -/

theorem endures_moves : Endures cfg SameTimes fun r r' => Moves cfg r r' [] where
  refl := .refl
  trans := .after
  marker r _ hinfo := .pushMarker r hinfo
  updated htimes hcache hhold hheld hwaiting := .of_cache hcache htimes hhold hheld hwaiting
  marked _ _ _ _ _ _ _ := (SameTimes.observeLifecycle _ _ _).trans (.applyMarkerKind _ _ _ _)
  departed _ writer now := (SameTimes.clearOwnerForWriter writer).trans
    (.modifyAll fun s => s.filterTimes_writerDropped writer (some now))
  strengthened _ _ := .foldl (fun _ _ => .updateOwnerStrength _ _) _ _

theorem ingestLifecycle_moves (hshared : cfg.qos.exclusiveOwnership = false) (r : DataReader T)
    (m : LifecycleMarker) : Moves cfg r (ingestLifecycle cfg r m) [] := by
  unfold ingestLifecycle
  simp only [hshared, Bool.not_false, if_true]
  split <;> exact endures_moves.pushLifecycleFrom _ _ _ _ _ _

structure Filtering (cfg : ReaderConfig T) : Prop where
  reliable : cfg.qos.reliable = true
  separates : 0 < cfg.qos.minSepNanos
  shared : cfg.qos.exclusiveOwnership = false
  noFilter : cfg.filter = none
  maxSamples : cfg.qos.maxSamples < 0
  maxSamplesPerInstance : cfg.qos.maxSamplesPerInstance < 0
  maxInstances : cfg.qos.maxInstances < 0
  keepsDisposed : cfg.autopurgeDisposedNanos = u128Max
  keepsUnwritten : cfg.autopurgeNowriterNanos = u128Max

/-- A decodable sample of the instance without a LIFESPAN; ranked by its source timestamp it
has one. -/
structure OursToRank (cfg : ReaderConfig T) (kh : KeyHash) (raw : RawIngestSample) : Prop where
  unending : raw.lifespanNanos = 0
  stamped : cfg.qos.bySourceTs = true → raw.sourceTimestamp.isSome = true
  decodes : ∃ sample, cfg.codec.decode raw.bytes.octets raw.representation raw.bigEndian =
    .ok sample ∧ cfg.codec.instanceKeyHash sample = kh

variable {kh : KeyHash}

theorem deliveredRank_eq (r : DataReader T) (kh : KeyHash) :
    deliveredRank r kh = (r.instances.filterTimes kh).1.map Time.clampedNanos := by
  rw [deliveredRank, InstanceTracker.filterTimes]
  cases r.instances.stateOf kh <;> rfl

variable {r' : DataReader T}

theorem Evicts.mem_cache (h : Evicts r r') :
    (∀ e ∈ r'.cache, e ∈ r.cache) ∧ r'.tbfHold = r.tbfHold := by
  induction h with
  | refl => exact ⟨fun _ => id, rfl⟩
  | tail _ hstep ih =>
    obtain ⟨pre, s, post, t, hcache, rfl, _⟩ := hstep
    refine ⟨fun e he => ih.1 e ?_, ih.2⟩
    rw [hcache]
    rcases List.mem_append.mp he with he | he
    · exact List.mem_append_left _ he
    · exact List.mem_append_right _ (List.mem_cons_of_mem _ he)

/-- What an admission leaves: the value in the cache, the filters measuring from it. -/
structure Delivers (cfg : ReaderConfig T) (kh : KeyHash) (now : Time) (raw : RawIngestSample)
    (sample : T) (r r' : DataReader T) : Prop where
  stored : AllStored cfg r.cache → AllStored cfg r'.cache
  cached : sample ∈ cachedValues r'.cache
  filterTimes : r'.instances.filterTimes kh =
    (some (raw.orderTs cfg.qos.bySourceTs now), some (raw.filterTs cfg.qos.tbfClock now))
  tbfHold : r'.tbfHold = r.tbfHold
  heldBack : r'.heldBack = r.heldBack
  arrived : r'.arrived = r.arrived

variable {raw : RawIngestSample} {sample : T}

theorem admit_delivers (hf : Filtering cfg) (hkh : cfg.codec.instanceKeyHash sample = kh)
    (hlasts : raw.lifespanNanos = 0)
    (hdecode : cfg.codec.decode raw.bytes.octets raw.representation raw.bigEndian = .ok sample)
    (r : DataReader T) (now : Time) :
    ∃ r', admitSample cfg r now raw sample = (r', .admitted) ∧
      Delivers cfg kh now raw sample r r' := by
  have hadmitted := admit_of_unlimited cfg hf.maxSamples hf.maxSamplesPerInstance hf.maxInstances r
    now raw sample
  have hqueues := sameQueues_admitSample cfg r now raw sample
  rcases admit_cases cfg r now raw sample with
    ⟨_, heq⟩ | ⟨t, handle, n, r₁, inCache, hobs, hhist, ⟨_, _, _, heq⟩ | ⟨r₂, s, hlim, hs, heq⟩⟩
  · rw [heq] at hadmitted
    split at hadmitted <;> cases hadmitted
  · rw [heq] at hadmitted
    cases hadmitted
  · have hevicts := evicts_applyHistory cfg { r with instances := t } handle n
    rw [hhist] at hevicts
    obtain ⟨hcache, hhold⟩ := Evicts.mem_cache (hevicts.trans (applyLimits_none cfg hlim))
    rw [heq] at hqueues
    refine ⟨_, heq, ?_, ?_, ?_, hhold, hqueues.heldBack, hqueues.arrived⟩
    · intro hstored e he
      rcases List.mem_append.mp he with he | he
      · exact hstored e (hcache e he)
      · rw [List.mem_singleton.mp he]
        refine .data raw.bytes sample rfl rfl ?_ rfl hdecode
        simp [RawIngestSample.expiresAt, lifespanExpiry, hlasts]
    · simp [push, noteDelivery, cachedValues, cachedValue, infoOf]
    · rw [← hkh, InstanceTracker.filterTimes]
      have hstate : (push cfg (noteDelivery cfg r₂ now raw (cfg.codec.instanceKeyHash sample)) now
          raw sample handle s).instances.stateOf (cfg.codec.instanceKeyHash sample) = some s := hs
      rw [hstate]
      simp only [noteDelivery, InstanceTracker.noteAdmitted] at hs
      rw [InstanceTracker.stateOf_modifyKey, if_pos rfl] at hs
      obtain ⟨s₂, _, rfl⟩ := Option.map_eq_some_iff.mp hs
      rfl

def Newer (cfg : ReaderConfig T) (kh : KeyHash) (r : DataReader T) (raw : RawIngestSample) :
    Prop :=
  cfg.qos.bySourceTs = true → ((deliveredRank r kh).all fun n => decide (n < sourceRank raw)) = true

def holding (r : DataReader T) (kh : KeyHash) (held : RawIngestSample × Time) : DataReader T :=
  { r with tbfHold := r.tbfHold.insert kh held }

def unheld (r : DataReader T) (kh : KeyHash) : DataReader T :=
  { r with tbfHold := r.tbfHold.erase kh }

theorem newer_iff (hraw : OursToRank cfg kh raw) (r : DataReader T) (now : Time) :
    r.instances.shouldDeliverUnderDestinationOrder kh (raw.orderTs cfg.qos.bySourceTs now)
      cfg.qos.bySourceTs = true ↔ Newer cfg kh r raw := by
  cases hsource : cfg.qos.bySourceTs with
  | false => simp [InstanceTracker.shouldDeliverUnderDestinationOrder, Newer, hsource]
  | true =>
    have hiff := delivers_iff_newer hsource (hraw.stamped hsource) r kh now
    rw [hsource] at hiff
    rw [hiff, Newer, hsource]
    simp

inductive Outcome (cfg : ReaderConfig T) (kh : KeyHash) (now : Time) (raw : RawIngestSample)
    (sample : T) (timeFilter : Bool) (r : DataReader T) : DataReader T × Admission → Prop
  | held (due : Time) (hfilter : timeFilter = true)
      (hknown : (r.instances.filterTimes kh).2 ≠ none) :
      Outcome cfg kh now raw sample timeFilter r
      (r.holding kh (raw, due), .dropped .timeBasedFilter)
  | stale (hstale : ¬ Newer cfg kh r raw) :
      Outcome cfg kh now raw sample timeFilter r (r.unheld kh, .dropped .destinationOrder)
  | delivered (r' : DataReader T) (hnewer : Newer cfg kh r raw)
      (hdelivers : Delivers cfg kh now raw sample (r.unheld kh) r') :
      Outcome cfg kh now raw sample timeFilter r (r', .admitted)

theorem sample_outcome (hf : Filtering cfg) (hraw : OursToRank cfg kh raw)
    (hdecode : cfg.codec.decode raw.bytes.octets raw.representation raw.bigEndian = .ok sample)
    (r : DataReader T) (now : Time) (timeFilter : Bool) :
    Outcome cfg kh now raw sample timeFilter r (ingestAliveFiltered cfg r now raw timeFilter) := by
  obtain ⟨sample', hdecode', hkh⟩ := hraw.decodes
  rw [hdecode] at hdecode'
  cases hdecode'
  have hsuper : supersede cfg r kh = r.unheld kh := by
    simp [supersede, hf.separates, hf.reliable, unheld]
  rw [ingestAliveFiltered_eq_ingestFiltered cfg hraw.unending hf.noFilter hf.shared hdecode]
  unfold ingestFiltered
  simp only [hkh]
  split
  · next hblocked =>
    rw [Bool.and_eq_true, Bool.not_eq_true'] at hblocked
    have hhold : holdFiltered cfg r now raw kh =
        r.holding kh (raw, (raw.receptionTimestamp.getD now).after cfg.qos.minSepNanos) := by
      simp [holdFiltered, hf.reliable, holding]
    rw [hhold]
    refine .held _ hblocked.1 fun hnone => ?_
    have hpasses := hblocked.2
    have hlast : (r.instances.stateOf kh).bind (·.lastFilterTs) = none := by
      rw [← hnone, InstanceTracker.filterTimes]
      cases r.instances.stateOf kh <;> rfl
    rw [InstanceTracker.shouldDeliverUnderTimeBasedFilter, hlast] at hpasses
    simp at hpasses
  · have hunheld : (r.unheld kh).instances = r.instances := rfl
    rw [hsuper, hunheld]
    by_cases hnewer : Newer cfg kh r raw
    · rw [(newer_iff hraw r now).mpr hnewer]
      obtain ⟨r', heq, hdelivers⟩ := admit_delivers hf hkh hraw.unending hdecode (r.unheld kh) now
      simp only [Bool.not_true, Bool.false_eq_true, if_false, heq]
      exact .delivered r' hnewer hdelivers
    · have hnot : r.instances.shouldDeliverUnderDestinationOrder kh
          (raw.orderTs cfg.qos.bySourceTs now) cfg.qos.bySourceTs = false :=
        Bool.eq_false_iff.mpr (mt (newer_iff hraw r now).mp hnewer)
      simp only [hnot, Bool.not_false, if_true]
      exact .stale hnewer

def dataOf (entries : List StagedIngest) : List RawIngestSample :=
  entries.filterMap fun
    | .alive raw => some raw
    | .lifecycle _ => none

@[simp] theorem dataOf_alive (entries : List StagedIngest) (raw : RawIngestSample) :
    dataOf (entries ++ [.alive raw]) = dataOf entries ++ [raw] := by
  simp [dataOf]

@[simp] theorem dataOf_lifecycle (entries : List StagedIngest) (m : LifecycleMarker) :
    dataOf (entries ++ [.lifecycle m]) = dataOf entries := by
  simp [dataOf]

variable {entries : List StagedIngest}

theorem mem_dataOf : raw ∈ dataOf entries ↔ .alive raw ∈ entries := by
  simp only [dataOf, List.mem_filterMap]
  constructor
  · rintro ⟨entry, hmem, heq⟩
    cases entry with
    | alive raw' =>
      cases heq
      exact hmem
    | lifecycle m => cases heq
  · exact fun hmem => ⟨_, hmem, rfl⟩

def Ours (cfg : ReaderConfig T) (kh : KeyHash) : StagedIngest → Prop
  | .alive raw => OursToRank cfg kh raw
  | .lifecycle _ => True

def Disposes (cfg : ReaderConfig T) (kh : KeyHash) : StagedIngest → Prop
  | .alive _ => False
  | .lifecycle m => m.kind = .notAliveDisposed ∧ markerKey cfg m = kh

def Present (cfg : ReaderConfig T) (handed : List T) (r : DataReader T) (raw : RawIngestSample) :
    Prop :=
  ∃ v, cfg.codec.decode raw.bytes.octets raw.representation raw.bigEndian = .ok v ∧
    (v ∈ handed ∨ v ∈ cachedValues r.cache)

/-- The last delivered is there; what ranks above it ranks no higher than what is held. -/
def LatestBySource (cfg : ReaderConfig T) (kh : KeyHash) (data : List RawIngestSample)
    (handed : List T) (r : DataReader T) : Prop :=
  data ≠ [] → ∃ top ∈ data, Present cfg handed r top ∧
    deliveredRank r kh = some (sourceRank top) ∧
    ∀ raw ∈ data, sourceRank raw ≤ sourceRank top ∨
      ∃ held, r.tbfHold.get? kh = some held ∧ sourceRank raw ≤ sourceRank held.1

def LatestByReception (cfg : ReaderConfig T) (kh : KeyHash) (data : List RawIngestSample)
    (handed : List T) (r : DataReader T) : Prop :=
  ∀ raw, data.getLast? = some raw → (∃ due, r.tbfHold.get? kh = some (raw, due)) ∨
    r.tbfHold.get? kh = none ∧ Present cfg handed r raw

/-- What holds once the entries `taken` are off the channel and `handed` handed out. -/
structure Watching (cfg : ReaderConfig T) (kh : KeyHash) (taken : List StagedIngest)
    (handed : List T) (r : DataReader T) : Prop where
  stored : AllStored cfg r.cache
  ours : ∀ entry ∈ taken, Ours cfg kh entry
  waiting : ∀ entry ∈ r.arrived, Ours cfg kh entry
  noneBack : r.heldBack = []
  held : ∀ k held, r.tbfHold.get? k = some held → k = kh ∧ .alive held.1 ∈ taken
  untimed : dataOf taken = [] → r.instances.filterTimes kh = (none, none)
  bySource : cfg.qos.bySourceTs = true → LatestBySource cfg kh (dataOf taken) handed r
  byReception : cfg.qos.bySourceTs = false → LatestByReception cfg kh (dataOf taken) handed r
  fresh : ∀ before x after, taken = before ++ x :: after → Disposes cfg kh x →
    ∀ held, r.tbfHold.get? kh = some held → Newer cfg kh r held.1 → .alive held.1 ∈ after

variable {α : Type}

theorem concat_eq_append_cons {l before after : List α} {a x : α}
    (h : l ++ [a] = before ++ x :: after) :
    (∃ after', after = after' ++ [a] ∧ l = before ++ x :: after') ∨ after = [] ∧ a = x := by
  rcases List.eq_nil_or_concat after with rfl | ⟨after', b, rfl⟩
  · exact .inr ⟨rfl, List.singleton_inj.mp (List.append_inj_right' h rfl)⟩
  · left
    rw [List.concat_eq_append] at h ⊢
    have h' : l ++ [a] = (before ++ x :: after') ++ [b] := by simpa using h
    obtain ⟨hl, hb⟩ := List.append_inj' h' rfl
    refine ⟨after', ?_, hl⟩
    rw [hb]

theorem newer_congr (h : r'.instances.filterTimes kh = r.instances.filterTimes kh)
    (raw : RawIngestSample) : Newer cfg kh r' raw ↔ Newer cfg kh r raw := by
  rw [Newer, Newer, deliveredRank_eq, deliveredRank_eq, h]

variable {handed : List T} {taken : List StagedIngest}

theorem Present.of_moves {out : List T} (h : Present cfg handed r raw) (hm : Moves cfg r r' out)
    (hs : AllStored cfg r.cache) : Present cfg (handed ++ out) r' raw := by
  obtain ⟨v, hdecode, hv | hv⟩ := h
  · exact ⟨v, hdecode, .inl (List.mem_append_left _ hv)⟩
  · exact ⟨v, hdecode, (hm.values hs v hv).imp_left (List.mem_append_right _)⟩

theorem Watching.of_moves {out : List T} (hw : Watching cfg kh taken handed r)
    (hm : Moves cfg r r' out) : Watching cfg kh taken (handed ++ out) r' := by
  have hrank : deliveredRank r' kh = deliveredRank r kh := by
    rw [deliveredRank_eq, deliveredRank_eq, hm.filterTimes kh]
  refine ⟨hm.stored hw.stored, hw.ours, ?_, hm.heldBack.trans hw.noneBack, ?_, ?_, ?_, ?_, ?_⟩
  · rw [hm.arrived]
    exact hw.waiting
  · rw [hm.tbfHold]
    exact hw.held
  · intro hnil
    rw [hm.filterTimes kh]
    exact hw.untimed hnil
  · intro hsource hne
    obtain ⟨top, htop, hpresent, hdelivered, hall⟩ := hw.bySource hsource hne
    refine ⟨top, htop, hpresent.of_moves hm hw.stored, hrank.trans hdelivered, ?_⟩
    rw [hm.tbfHold]
    exact hall
  · intro hreception raw hlast
    rw [hm.tbfHold]
    refine (hw.byReception hreception raw hlast).imp_right fun ⟨hnone, hpresent⟩ => ?_
    exact ⟨hnone, hpresent.of_moves hm hw.stored⟩
  · intro before x after heq hx held hheld hnewer
    rw [hm.tbfHold] at hheld
    exact hw.fresh before x after heq hx held hheld
      ((newer_congr (hm.filterTimes kh) held.1).mp hnewer)

def KeepsHeld (cfg : ReaderConfig T) (kh : KeyHash) (r : DataReader T) (raw : RawIngestSample) :
    Prop :=
  cfg.qos.bySourceTs = true → ∀ held, r.tbfHold.get? kh = some held →
    Newer cfg kh r held.1 → sourceRank held.1 ≤ sourceRank raw

variable {n : Nat} {now : Time}

theorem not_newer (hdelivered : deliveredRank r kh = some n) (h : ¬ Newer cfg kh r raw) :
    sourceRank raw ≤ n := by
  by_contra hlt
  apply h
  intro _
  rw [hdelivered, Option.all_some]
  exact decide_eq_true_iff.mpr (not_le.mp hlt)

section

variable (hsource : cfg.qos.bySourceTs = true)
include hsource

theorem newer_lt (hdelivered : deliveredRank r kh = some n)
    (h : Newer cfg kh r raw) : n < sourceRank raw := by
  have hlt := h hsource
  rw [hdelivered, Option.all_some] at hlt
  exact decide_eq_true_iff.mp hlt

theorem rank_le_arriving {data : List RawIngestSample}
    (hlatest : LatestBySource cfg kh data handed r) (hkeeps : KeepsHeld cfg kh r raw)
    (hne : data ≠ []) : ∃ top ∈ data, Present cfg handed r top ∧
      deliveredRank r kh = some (sourceRank top) ∧
      ∀ x ∈ data, sourceRank x ≤ sourceRank top ∨ sourceRank x ≤ sourceRank raw := by
  obtain ⟨top, htop, hpresent, hdelivered, hall⟩ := hlatest hne
  refine ⟨top, htop, hpresent, hdelivered, fun x hx => ?_⟩
  rcases hall x hx with hle | ⟨held, hheld, hle⟩
  · exact .inl hle
  · by_cases hnewer : Newer cfg kh r held.1
    · exact .inr (hle.trans (hkeeps hsource held hheld hnewer))
    · exact .inl (hle.trans (not_newer hdelivered hnewer))

theorem deliveredRank_of_delivers
    (hraw : OursToRank cfg kh raw) (h : Delivers cfg kh now raw sample r r') :
    deliveredRank r' kh = some (sourceRank raw) := by
  rw [deliveredRank_eq, h.filterTimes, RawIngestSample.orderTs, hsource, if_pos rfl,
    sourceTs_eq (hraw.stamped hsource)]
  rfl

end

section Sample

variable {taken : List StagedIngest} {handed : List T} {r r' : DataReader T} {now : Time}
  {raw : RawIngestSample} {sample : T} {p : DataReader T × Admission}

theorem latestBySource_sample (hw : Watching cfg kh taken handed r) (hraw : OursToRank cfg kh raw)
    (hdecode : cfg.codec.decode raw.bytes.octets raw.representation raw.bigEndian = .ok sample)
    (hkeeps : KeepsHeld cfg kh r raw) (hsource : cfg.qos.bySourceTs = true)
    (h : Outcome cfg kh now raw sample true r p) :
    LatestBySource cfg kh (dataOf taken ++ [raw]) handed p.1 := by
  have hrank := rank_le_arriving hsource (hw.bySource hsource) hkeeps
  intro _
  cases h with
  | held due _ hknown =>
    have hne : dataOf taken ≠ [] := fun hnil => hknown (by rw [hw.untimed hnil])
    obtain ⟨top, htop, hpresent, hdelivered, hall⟩ := hrank hne
    refine ⟨top, List.mem_append_left _ htop, hpresent, hdelivered, fun x hx => ?_⟩
    have hnow : (r.holding kh (raw, due)).tbfHold.get? kh = some (raw, due) :=
      get?_insert_self _ _ _
    rcases List.mem_append.mp hx with hx | hx
    · exact (hall x hx).imp_right fun hle => ⟨_, hnow, hle⟩
    · rw [List.mem_singleton.mp hx]
      exact .inr ⟨_, hnow, le_refl _⟩
  | stale hstale =>
    have hne : dataOf taken ≠ [] := by
      intro hnil
      apply hstale
      rw [Newer, deliveredRank_eq, hw.untimed hnil]
      exact fun _ => rfl
    obtain ⟨top, htop, hpresent, hdelivered, hall⟩ := hrank hne
    have hle := not_newer hdelivered hstale
    refine ⟨top, List.mem_append_left _ htop, hpresent, hdelivered, fun x hx => .inl ?_⟩
    rcases List.mem_append.mp hx with hx | hx
    · exact (hall x hx).elim id fun hx => hx.trans hle
    · rw [List.mem_singleton.mp hx]
      exact hle
  | delivered r' hnewer hdelivers =>
    refine ⟨raw, List.mem_append_right _ (List.mem_singleton_self _),
      ⟨sample, hdecode, .inr hdelivers.cached⟩,
      deliveredRank_of_delivers hsource hraw hdelivers, fun x hx => .inl ?_⟩
    rcases List.mem_append.mp hx with hx | hx
    · obtain ⟨top, _, _, hdelivered, hall⟩ := hrank (List.ne_nil_of_mem hx)
      have hlt := newer_lt hsource hdelivered hnewer
      exact (hall x hx).elim (fun hx => hx.trans (le_of_lt hlt)) id
    · rw [List.mem_singleton.mp hx]

theorem latestByReception_sample
    (hdecode : cfg.codec.decode raw.bytes.octets raw.representation raw.bigEndian = .ok sample)
    (hreception : cfg.qos.bySourceTs = false) (h : Outcome cfg kh now raw sample true r p) :
    LatestByReception cfg kh (dataOf taken ++ [raw]) handed p.1 := by
  intro x hx
  rw [List.getLast?_concat] at hx
  cases hx
  cases h with
  | held due _ _ => exact .inl ⟨due, get?_insert_self _ _ _⟩
  | stale hstale =>
    refine absurd (fun hsource => ?_) hstale
    rw [hreception] at hsource
    cases hsource
  | delivered r' _ hdelivers =>
    refine .inr ⟨?_, sample, hdecode, .inr hdelivers.cached⟩
    rw [hdelivers.tbfHold]
    exact get?_erase_self _ _

section

variable (hw : Watching cfg kh taken handed r)
include hw

theorem Watching.of_sample (hraw : OursToRank cfg kh raw)
    (hdecode : cfg.codec.decode raw.bytes.octets raw.representation raw.bigEndian = .ok sample)
    (hkeeps : KeepsHeld cfg kh r raw) (h : Outcome cfg kh now raw sample true r p) :
    Watching cfg kh (taken ++ [.alive raw]) handed p.1 := by
  have hsource : cfg.qos.bySourceTs = true →
      LatestBySource cfg kh (dataOf taken ++ [raw]) handed p.1 :=
    fun hsource => latestBySource_sample hw hraw hdecode hkeeps hsource h
  have hreception : cfg.qos.bySourceTs = false →
      LatestByReception cfg kh (dataOf taken ++ [raw]) handed p.1 :=
    fun hreception => latestByReception_sample hdecode hreception h
  have hne : dataOf (taken ++ [.alive raw]) ≠ [] := by simp
  have hours : ∀ entry ∈ taken ++ [.alive raw], Ours cfg kh entry := by
    exact List.forall_mem_append.mpr ⟨hw.ours, List.forall_mem_singleton.mpr hraw⟩
  have hothers : ∀ k held, k ≠ kh → r.tbfHold.get? k ≠ some held := by
    intro k held hk hheld
    exact hk (hw.held k held hheld).1
  have hnone : ∀ held, (r.unheld kh).tbfHold.get? kh ≠ some held := by
    intro held hheld
    rw [unheld, get?_erase_self] at hheld
    cases hheld
  have hunheld : ∀ k held, (r.unheld kh).tbfHold.get? k ≠ some held := by
    intro k held hheld
    by_cases hk : k = kh
    · subst hk
      exact hnone held hheld
    · rw [unheld, get?_erase, if_neg hk] at hheld
      exact hothers k held hk hheld
  cases h with
  | held due _ _ =>
    refine ⟨hw.stored, hours, hw.waiting, hw.noneBack, ?_, fun hnil => absurd hnil hne, ?_, ?_, ?_⟩
    · intro k held hheld
      by_cases hk : k = kh
      · subst hk
        rw [holding, get?_insert_self] at hheld
        cases hheld
        exact ⟨rfl, by simp⟩
      · rw [holding, get?_insert, if_neg hk] at hheld
        exact absurd hheld (hothers k held hk)
    · rw [dataOf_alive]
      exact hsource
    · rw [dataOf_alive]
      exact hreception
    · intro before x after heq hx held hheld _
      rw [holding, get?_insert_self] at hheld
      cases hheld
      rcases concat_eq_append_cons heq with ⟨after', rfl, _⟩ | ⟨_, rfl⟩
      · simp
      · exact hx.elim
  | stale _ =>
    refine ⟨hw.stored, hours, hw.waiting, hw.noneBack,
      fun k held hheld => absurd hheld (hunheld k held), fun hnil => absurd hnil hne, ?_, ?_,
      fun _ _ _ _ _ held hheld => absurd hheld (hnone held)⟩
    · rw [dataOf_alive]
      exact hsource
    · rw [dataOf_alive]
      exact hreception
  | delivered r' _ hdelivers =>
    have hwaiting : ∀ entry ∈ r'.arrived, Ours cfg kh entry := by
      rw [hdelivers.arrived]
      exact hw.waiting
    refine ⟨hdelivers.stored hw.stored, hours, hwaiting,
      hdelivers.heldBack.trans hw.noneBack, ?_, fun hnil => absurd hnil hne, ?_, ?_, ?_⟩
    · intro k held hheld
      rw [hdelivers.tbfHold] at hheld
      exact absurd hheld (hunheld k held)
    · rw [dataOf_alive]
      exact hsource
    · rw [dataOf_alive]
      exact hreception
    · intro _ _ _ _ _ held hheld
      rw [hdelivers.tbfHold] at hheld
      exact absurd hheld (hnone held)

theorem Watching.hold_none {k : KeyHash} (hk : k ≠ kh) :
    r.tbfHold.get? k = none :=
  Option.eq_none_iff_forall_ne_some.mpr fun held hheld => hk (hw.held k held hheld).1

theorem Watching.of_release {due : Time} (hheld : r.tbfHold.get? kh = some (raw, due))
    (hdecode : cfg.codec.decode raw.bytes.octets raw.representation raw.bigEndian = .ok sample)
    (h : Outcome cfg kh now raw sample false (r.unheld kh) p) :
    Watching cfg kh taken handed p.1 := by
  have hmem : .alive raw ∈ taken := (hw.held kh _ hheld).2
  have hraw : OursToRank cfg kh raw := hw.ours _ hmem
  have hne : dataOf taken ≠ [] := List.ne_nil_of_mem (mem_dataOf.mpr hmem)
  have hunheld : ∀ k held, ((r.unheld kh).unheld kh).tbfHold.get? k ≠ some held := by
    intro k held hget
    simp only [unheld, get?_erase] at hget
    by_cases hk : k = kh
    · rw [if_pos hk] at hget
      cases hget
    · rw [if_neg hk, if_neg hk, hw.hold_none hk] at hget
      cases hget
  have hsame : deliveredRank (r.unheld kh) kh = deliveredRank r kh := rfl
  cases h with
  | held due' hfilter _ => cases hfilter
  | stale hstale =>
    refine ⟨hw.stored, hw.ours, hw.waiting, hw.noneBack,
      fun k held hget => absurd hget (hunheld k held), fun hnil => absurd hnil hne, ?_, ?_,
      fun _ _ _ _ _ held hget => absurd hget (hunheld kh held)⟩
    · intro hsource _
      obtain ⟨top, htop, hpresent, hdelivered, hall⟩ := hw.bySource hsource hne
      refine ⟨top, htop, hpresent, hdelivered, fun x hx => .inl ?_⟩
      have hle := not_newer (hsame.trans hdelivered) hstale
      rcases hall x hx with hx | ⟨held, hget, hx⟩
      · exact hx
      · rw [hheld] at hget
        cases hget
        exact hx.trans hle
    · intro hreception
      refine absurd (fun hsource => ?_) hstale
      rw [hreception] at hsource
      cases hsource
  | delivered r' hnewer hdelivers =>
    have hwaiting : ∀ entry ∈ r'.arrived, Ours cfg kh entry := by
      rw [hdelivers.arrived]
      exact hw.waiting
    refine ⟨hdelivers.stored hw.stored, hw.ours, hwaiting,
      hdelivers.heldBack.trans hw.noneBack, ?_, fun hnil => absurd hnil hne, ?_, ?_, ?_⟩
    · intro k held hget
      rw [hdelivers.tbfHold] at hget
      exact absurd hget (hunheld k held)
    · intro hsource _
      obtain ⟨top, _, _, hdelivered, hall⟩ := hw.bySource hsource hne
      refine ⟨raw, mem_dataOf.mpr hmem, ⟨sample, hdecode, .inr hdelivers.cached⟩,
        deliveredRank_of_delivers hsource hraw hdelivers, fun x hx => .inl ?_⟩
      have hlt := newer_lt hsource (hsame.trans hdelivered) hnewer
      rcases hall x hx with hx | ⟨held, hget, hx⟩
      · exact hx.trans (le_of_lt hlt)
      · rw [hheld] at hget
        cases hget
        exact hx
    · intro hreception x hx
      refine .inr ⟨?_, ?_⟩
      · rw [hdelivers.tbfHold]
        exact Option.eq_none_iff_forall_ne_some.mpr (hunheld kh)
      · rcases hw.byReception hreception x hx with ⟨due', hget⟩ | ⟨hnone, _⟩
        · rw [hheld] at hget
          cases hget
          exact ⟨sample, hdecode, .inr hdelivers.cached⟩
        · rw [hheld] at hnone
          cases hnone
    · intro _ _ _ _ _ held hget
      rw [hdelivers.tbfHold] at hget
      exact absurd hget (hunheld kh held)

end

def NothingHeldToRevive (cfg : ReaderConfig T) (kh : KeyHash) (r : DataReader T)
    (m : LifecycleMarker) : Prop :=
  Disposes cfg kh (.lifecycle m) → ∀ held, r.tbfHold.get? kh = some held → ¬ Newer cfg kh r held.1

theorem Watching.of_marker {m : LifecycleMarker} (hf : Filtering cfg)
    (hw : Watching cfg kh taken handed r) (hnothing : NothingHeldToRevive cfg kh r m) :
    Watching cfg kh (taken ++ [.lifecycle m]) handed (ingestLifecycle cfg r m) := by
  have hm := ingestLifecycle_moves hf.shared r m
  have hw' := hw.of_moves hm
  rw [List.append_nil] at hw'
  refine ⟨hw'.stored, ?_, hw'.waiting, hw'.noneBack, ?_, ?_, ?_, ?_, ?_⟩
  · exact List.forall_mem_append.mpr ⟨hw.ours, List.forall_mem_singleton.mpr trivial⟩
  · intro k held hget
    obtain ⟨hk, hmem⟩ := hw'.held k held hget
    exact ⟨hk, List.mem_append_left _ hmem⟩
  · rw [dataOf_lifecycle]
    exact hw'.untimed
  · rw [dataOf_lifecycle]
    exact hw'.bySource
  · rw [dataOf_lifecycle]
    exact hw'.byReception
  · intro before x after heq hx held hget hnewer
    rcases concat_eq_append_cons heq with ⟨after', rfl, heq'⟩ | ⟨_, rfl⟩
    · exact List.mem_append_left _ (hw'.fresh before x after' heq' hx held hget hnewer)
    · rw [hm.tbfHold] at hget
      exact absurd ((newer_congr (hm.filterTimes kh) held.1).mp hnewer)
        (hnothing hx held hget)

end Sample

def HoldSafe (cfg : ReaderConfig T) (kh : KeyHash) (r : DataReader T) : ReaderStep T → Prop
  | .sample _ raw true => KeepsHeld cfg kh r raw
  | .marker m => NothingHeldToRevive cfg kh r m
  | .takeSelected sel max => CleanLoop cfg r sel.wants (tighter cfg.presentationLimit max)
  | .takeOfInstance handle => CleanLoop cfg r (ofInstance handle) cfg.presentationLimit
  | .sample _ _ false | .lifespan _ | .strength _ _ | .departure _ _ | .autopurge _
  | .takeValues | .query _ _ _ _ | .readValues | .readSelected _ _ | .readOfInstance _ => True

theorem ingestRun_watches (hf : Filtering cfg) (now : Time) (hw : Watching cfg kh taken handed r)
    (hours : ∀ entry ∈ entries, Ours cfg kh entry)
    (hok : ∀ p ∈ runTrace cfg now r entries, HoldSafe cfg kh p.1 p.2) :
    ∃ r', ingestRun cfg now r entries = (r', .ok []) ∧
      Watching cfg kh (taken ++ entries) handed r' := by
  induction entries generalizing taken r with
  | nil =>
    refine ⟨r, rfl, ?_⟩
    rw [List.append_nil]
    exact hw
  | cons entry rest ih =>
    obtain ⟨hentry, hrest⟩ := List.forall_mem_cons.mp hours
    have hassoc : ∀ l, taken ++ [entry] ++ l = taken ++ entry :: l := by simp
    cases entry with
    | lifecycle m =>
      obtain ⟨hnow, hlater⟩ := List.forall_mem_cons.mp hok
      obtain ⟨r', hrun, hw'⟩ := ih (hw.of_marker hf hnow) hrest hlater
      rw [hassoc] at hw'
      exact ⟨r', hrun, hw'⟩
    | alive raw =>
      obtain ⟨sample, hdecode, _⟩ := OursToRank.decodes hentry
      obtain ⟨hnow, hlater⟩ := List.forall_mem_cons.mp hok
      have houtcome := sample_outcome hf hentry hdecode r now true
      have hw₁ := hw.of_sample hentry hdecode hnow houtcome
      rcases hstep : ingestAlive cfg r now raw with ⟨r₁, verdict⟩
      simp only [hstep] at hlater
      rw [ingestAlive] at hstep
      rw [hstep] at houtcome hw₁
      have hrun : ingestRun cfg now r (.alive raw :: rest) = ingestRun cfg now r₁ rest := by
        rw [ingestRun, ingestAlive, hstep]
        cases houtcome <;> rfl
      have hgo : ∀ p ∈ runTrace cfg now r₁ rest, HoldSafe cfg kh p.1 p.2 := by
        cases houtcome <;> exact hlater
      obtain ⟨r', hend, hw'⟩ := ih hw₁ hrest hgo
      rw [hassoc] at hw'
      exact ⟨r', hrun.trans hend, hw'⟩

theorem tbfDue_eq (honly : ∀ k held, r.tbfHold.get? k = some held → k = kh) (now : Time) :
    r.tbfDue now = (((r.tbfHold.get? kh).filter fun held =>
      decide (held.2 ≤ now)).map Prod.fst).toList := by
  have hfilter : ∀ k held,
      (r.tbfHold.filter fun _ held => decide (held.2 ≤ now)).get? k = some held → k = kh := by
    intro k held hget
    rw [get?_filter] at hget
    obtain ⟨hget, _⟩ := Option.filter_eq_some_iff.mp hget
    exact honly k held hget
  rw [tbfDue, values_of_only hfilter, get?_filter]
  cases (r.tbfHold.get? kh).filter fun held => decide (held.2 ≤ now) <;> rfl

theorem withoutDue_eq {due : Time} (honly : ∀ k held, r.tbfHold.get? k = some held → k = kh)
    (hheld : r.tbfHold.get? kh = some (raw, due)) (hdue : due ≤ now) :
    r.withoutDue now = r.unheld kh := by
  have hmap : (r.tbfHold.filter fun _ held => !decide (held.2 ≤ now)) = r.tbfHold.erase kh := by
    refine ext_get? fun k => ?_
    rw [get?_filter, get?_erase]
    by_cases hk : k = kh
    · rw [if_pos hk, hk, hheld]
      simp [hdue]
    · rw [if_neg hk]
      have hnone : r.tbfHold.get? k = none :=
        Option.eq_none_iff_forall_ne_some.mpr fun held hget => hk (honly k held hget)
      rw [hnone]
      rfl
  rw [withoutDue, hmap, unheld]

theorem releaseDueTbf_cases (cfg : ReaderConfig T)
    (honly : ∀ k held, r.tbfHold.get? k = some held → k = kh) :
    releaseDueTbf cfg r = ((r.wallNow cfg).2, .ok false) ∨
      ∃ raw due, r.tbfHold.get? kh = some (raw, due) ∧ due ≤ (r.wallNow cfg).1 ∧
        releaseDueTbf cfg r =
          match releaseRun cfg (r.wallNow cfg).1 ((r.wallNow cfg).2.unheld kh) [raw] with
          | (r, .error e) => (r, .error e)
          | (r, .ok back) => ({ r with heldBack := r.heldBack ++ back }, .ok true) := by
  have hclock : ∀ k, (r.wallNow cfg).2.tbfHold.get? k = r.tbfHold.get? k := fun _ => rfl
  have hdue := tbfDue_eq (r := (r.wallNow cfg).2) honly (r.wallNow cfg).1
  rw [hclock] at hdue
  unfold releaseDueTbf
  rcases hnow : r.wallNow cfg with ⟨now, r₁⟩
  simp only [hnow] at hdue hclock ⊢
  cases hheld : r.tbfHold.get? kh with
  | none =>
    rw [hheld] at hdue
    simp only [hdue, Option.filter_none, Option.map_none, Option.toList_none, List.isEmpty_nil,
      if_true]
    exact .inl trivial
  | some held =>
    obtain ⟨raw, due⟩ := held
    rw [hheld] at hdue
    by_cases hle : due ≤ now
    · refine .inr ⟨raw, due, rfl, hle, ?_⟩
      have hone : r₁.tbfDue now = [raw] := by
        rw [hdue]
        simp [hle]
      rw [hone, withoutDue_eq (fun k held hget => honly k held ((hclock k).symm.trans hget))
        ((hclock kh).trans hheld) hle]
      rfl
    · have hnone : r₁.tbfDue now = [] := by
        simp only [hdue, Option.filter_some, decide_eq_true_eq, if_neg hle, Option.map_none,
          Option.toList_none]
      rw [hnone]
      exact .inl rfl

theorem releaseDueTbf_watches (hf : Filtering cfg) (hw : Watching cfg kh taken handed r) :
    ∃ r' released, releaseDueTbf cfg r = (r', .ok released) ∧
      Watching cfg kh taken handed r' ∧ r'.arrived = r.arrived := by
  have hclock : Moves cfg r (r.wallNow cfg).2 [] := .of_cache rfl (.refl _) rfl rfl rfl
  have hw₁ := hw.of_moves hclock
  rw [List.append_nil] at hw₁
  rcases releaseDueTbf_cases cfg fun k held hget => (hw.held k held hget).1 with
    heq | ⟨raw, due, hheld, _, heq⟩
  · exact ⟨_, _, heq, hw₁, rfl⟩
  · have hraw : OursToRank cfg kh raw := hw.ours _ (hw.held kh _ hheld).2
    obtain ⟨sample, hdecode, _⟩ := hraw.decodes
    have houtcome := sample_outcome hf hraw hdecode ((r.wallNow cfg).2.unheld kh)
      (r.wallNow cfg).1 false
    have hw₂ := hw₁.of_release hheld hdecode houtcome
    have hqueues := sameQueues_ingestAliveFiltered cfg ((r.wallNow cfg).2.unheld kh)
      (r.wallNow cfg).1 raw false
    rcases hstep : ingestAliveFiltered cfg ((r.wallNow cfg).2.unheld kh) (r.wallNow cfg).1 raw
      false with ⟨r₂, verdict⟩
    rw [hstep] at houtcome hw₂ hqueues
    have hrun : releaseRun cfg (r.wallNow cfg).1 ((r.wallNow cfg).2.unheld kh) [raw] =
        (r₂, .ok []) := by
      rw [releaseRun, hstep]
      cases houtcome <;> rfl
    rw [hrun] at heq
    refine ⟨_, _, heq, ?_, hqueues.arrived⟩
    have hback : Moves cfg r₂ { r₂ with heldBack := r₂.heldBack ++ [] } [] :=
      .of_cache rfl (.refl _) rfl (List.append_nil _) rfl
    have hw₃ := hw₂.of_moves hback
    rw [List.append_nil] at hw₃
    exact hw₃

theorem ingestPending_watches (hf : Filtering cfg) (hw : Watching cfg kh taken handed r)
    (hok : ∀ p ∈ ingestTrace cfg r, HoldSafe cfg kh p.1 p.2) :
    ∃ r', ingestPending cfg r = (r', .ok ()) ∧
      Watching cfg kh (taken ++ r.arrived) handed r' ∧ r'.arrived = [] := by
  obtain ⟨r₁, released, hrelease, hw₁, harrived⟩ := releaseDueTbf_watches hf hw
  have hstaged : r₁.staged = r.arrived := by
    rw [staged, hw₁.noneBack, harrived]
    rfl
  have hpurge : (unstaged cfg r₁).purgeExpiredByLifespan (cfg.clock r₁.readings) =
      unstaged cfg r₁ :=
    purgeExpiredByLifespan_of_lasting (r := unstaged cfg r₁)
      (fun e he => (hw₁.stored e he).lasts) _
  have hstart : Watching cfg kh taken handed (unstaged cfg r₁) :=
    ⟨hw₁.stored, hw₁.ours, by simp [unstaged, wallNow], rfl, hw₁.held, hw₁.untimed, hw₁.bySource,
      hw₁.byReception, hw₁.fresh⟩
  have hours : ∀ entry ∈ r.arrived, Ours cfg kh entry := hw.waiting
  have hsafe : ∀ p ∈ runTrace cfg (cfg.clock r₁.readings) (unstaged cfg r₁) r.arrived,
      HoldSafe cfg kh p.1 p.2 := by
    intro p hp
    refine hok p (List.mem_append_right _ ?_)
    rw [hrelease]
    simp only [stagedTrace, hpurge, hstaged]
    exact List.mem_cons_of_mem _ (List.mem_append_left _ hp)
  obtain ⟨r₂, hrun, hw₂⟩ := ingestRun_watches hf (cfg.clock r₁.readings) hstart hours hsafe
  have hqueues := sameQueues_ingestRun cfg (cfg.clock r₁.readings) (unstaged cfg r₁) r.arrived
  rw [hrun] at hqueues
  have hback : Moves cfg r₂ { r₂ with heldBack := [] } [] :=
    .of_cache rfl (.refl _) rfl hw₂.noneBack.symm rfl
  have hunmatched : Moves cfg r₂ (applyUnmatchedWriters cfg { r₂ with heldBack := [] }) [] :=
    hback.after (endures_moves.applyUnmatchedWriters _)
  have hw₃ := hw₂.of_moves hunmatched
  rw [List.append_nil] at hw₃
  refine ⟨_, ?_, hw₃, hunmatched.arrived.trans hqueues.arrived⟩
  rw [ingestPending, hrelease]
  simp only [ingestStaged, hstaged]
  have hclock : ({ r₁ with heldBack := [], arrived := [] } : DataReader T).wallNow cfg =
      (cfg.clock r₁.readings, unstaged cfg r₁) := rfl
  rw [hclock]
  simp only [hpurge, hrun]
  rw [runReaderAutopurge, if_pos ⟨hf.keepsDisposed, hf.keepsUnwritten⟩]

def Goes (cfg : ReaderConfig T) (kh : KeyHash) (r r' : DataReader T) (out : List T) : Prop :=
  ∀ taken handed, Watching cfg kh taken handed r → ∃ taken',
    taken ++ r.arrived = taken' ++ r'.arrived ∧ Watching cfg kh taken' (handed ++ out) r'

theorem Goes.of_moves {out : List T} (h : Moves cfg r r' out) : Goes cfg kh r r' out :=
  fun taken _ hw => ⟨taken, by rw [h.arrived], hw.of_moves h⟩

theorem Goes.refl (r : DataReader T) : Goes cfg kh r r [] := .of_moves (.refl r)

section

variable (hf : Filtering cfg)
include hf

theorem afterIngest_goes {op : DataReader T → DataReader T × Except DdsError α}
    {steps : DataReader T → List (DataReader T × ReaderStep T)}
    (handed : Except DdsError α → List T)
    (hok : ∀ p ∈ afterIngestTrace cfg r steps, HoldSafe cfg kh p.1 p.2)
    (hop : ∀ r₁, (∀ p ∈ steps r₁, HoldSafe cfg kh p.1 p.2) →
      Goes cfg kh r₁ (op r₁).1 (handed (op r₁).2)) :
    Goes cfg kh r (afterIngest cfg r op).1 (handed (afterIngest cfg r op).2) := by
  intro taken done hw
  obtain ⟨r₁, hingest, hw₁, hempty⟩ := ingestPending_watches hf hw
    fun p hp => hok p (List.mem_append_left _ hp)
  have hrun : afterIngest cfg r op = op r₁ := by rw [afterIngest, hingest]
  have hsteps : ∀ p ∈ steps r₁, HoldSafe cfg kh p.1 p.2 :=
    fun p hp => hok p (mem_afterIngestTrace hingest hp)
  obtain ⟨taken', heq, hw'⟩ := hop r₁ hsteps _ _ hw₁
  rw [hempty, List.append_nil] at heq
  rw [hrun]
  exact ⟨taken', heq, hw'⟩

theorem takeInstance_goes (h : InstanceHandle)
    (hok : ∀ p ∈ takeInstanceTrace cfg r h, HoldSafe cfg kh p.1 p.2) :
    Goes cfg kh r (takeInstance cfg r h).1 (handedBy (takeInstance cfg r h).2) := by
  unfold takeInstance
  unfold takeInstanceTrace at hok
  split
  · exact .refl r
  · next hne =>
    rw [if_neg hne] at hok
    refine afterIngest_goes hf handedBy hok fun r₁ hsteps => .of_moves (takeOfInstance_moves ?_)
    exact hsteps (r₁, .takeOfInstance h) (List.mem_singleton_self _)

theorem readInstance_goes (h : InstanceHandle)
    (hok : ∀ p ∈ readInstanceTrace cfg r h, HoldSafe cfg kh p.1 p.2) :
    Goes cfg kh r (readInstance cfg r h).1 [] := by
  unfold readInstance
  unfold readInstanceTrace at hok
  split
  · exact .refl r
  · next hne =>
    rw [if_neg hne] at hok
    exact afterIngest_goes hf (fun _ => []) hok fun r₁ _ => .of_moves (readOfInstance_moves r₁ h)

theorem handle_goes {event : Event T}
    (hcall : ∀ entry, event ≠ .arrive entry) (hok : StepsMeet cfg (HoldSafe cfg kh) r event) :
    Goes cfg kh r (handle cfg r event).1 (takenBy event (handle cfg r event).2) := by
  have hok' : ∀ p ∈ trace cfg r event, HoldSafe cfg kh p.1 p.2 :=
    fun p hp => hok p.1 p.2 hp
  cases event with
  | arrive entry => exact absurd rfl (hcall entry)
  | strengthChanged writer strength => exact .of_moves (.of_cache rfl (.refl _) rfl rfl rfl)
  | writerGone writer => exact .of_moves (.of_cache rfl (.refl _) rfl rfl rfl)
  | ingest =>
    intro taken handed hw
    obtain ⟨r₁, hingest, hw₁, hempty⟩ := ingestPending_watches hf hw hok'
    have hrun : (handle cfg r .ingest).1 = r₁ := by rw [handle, hingest]
    rw [hrun]
    refine ⟨taken ++ r.arrived, by rw [hempty, List.append_nil], ?_⟩
    rw [show takenBy .ingest (handle cfg r .ingest).2 = [] from rfl, List.append_nil]
    exact hw₁
  | releaseDue =>
    intro taken handed hw
    obtain ⟨r₁, released, hrelease, hw₁, harrived⟩ := releaseDueTbf_watches hf hw
    have hrun : (handle cfg r .releaseDue).1 = r₁ := by rw [handle, hrelease]
    rw [hrun]
    refine ⟨taken, by rw [harrived], ?_⟩
    rw [show takenBy .releaseDue (handle cfg r .releaseDue).2 = [] from rfl, List.append_nil]
    exact hw₁
  | take =>
    refine afterIngest_goes hf valuesBy hok' fun r₁ _ taken handed hw => ?_
    exact Goes.of_moves (takeValues_moves hw.stored) taken handed hw
  | takeCore sel max =>
    refine afterIngest_goes hf handedBy hok' fun r₁ hsteps => .of_moves (takeSelected_moves ?_)
    exact hsteps (r₁, .takeSelected sel max) (List.mem_singleton_self _)
  | takeInstance h => exact takeInstance_goes hf h hok'
  | takeNextInstance previous =>
    refine afterIngest_goes hf handedBy hok' fun r₁ hsteps => ?_
    cases hnext : r₁.nextInstanceWithSamples previous with
    | none => exact .refl r₁
    | some next =>
      rw [hnext] at hsteps
      exact takeInstance_goes hf next hsteps
  | query cond max take instance? =>
    cases take with
    | true =>
      exact afterIngest_goes hf handedBy hok' fun r₁ _ =>
        .of_moves (queryTake_moves r₁ cond max instance?)
    | false =>
      exact afterIngest_goes hf (fun _ => []) hok' fun r₁ _ =>
        .of_moves (queryRead_moves r₁ cond max instance?)
  | read =>
    exact afterIngest_goes hf (fun _ => []) hok' fun r₁ _ => .of_moves (readWith_moves r₁ _ _)
  | readCore sel max =>
    exact afterIngest_goes hf (fun _ => []) hok' fun r₁ _ =>
      .of_moves (readSelected_moves r₁ sel max)
  | readInstance h => exact readInstance_goes hf h hok'
  | readNextInstance previous =>
    refine afterIngest_goes hf (fun _ => []) hok' fun r₁ hsteps => ?_
    cases hnext : r₁.nextInstanceWithSamples previous with
    | none => exact .refl r₁
    | some next =>
      rw [hnext] at hsteps
      exact readInstance_goes hf next hsteps

end

def ArrivesOurs (cfg : ReaderConfig T) (kh : KeyHash) : Event T → Prop
  | .arrive entry => Ours cfg kh entry
  | _ => True

def Watched (cfg : ReaderConfig T) (kh : KeyHash) (r : DataReader T) (event : Event T) : Prop :=
  ArrivesOurs cfg kh event ∧ StepsMeet cfg (HoldSafe cfg kh) r event

def arrivedEntries (h : History (Event T) (Reply T)) : List StagedIngest :=
  h.filterMap fun e => match e.1 with
    | .arrive entry => some entry
    | _ => none

def RankedLast (cfg : ReaderConfig T) (data : List RawIngestSample) (raw : RawIngestSample) :
    Prop :=
  if cfg.qos.bySourceTs then ∀ x ∈ data, sourceRank x ≤ sourceRank raw
  else data.getLast? = some raw

def LatestKept (cfg : ReaderConfig T) (kh : KeyHash) (taken : List StagedIngest)
    (handed : List T) (r : DataReader T) : Prop :=
  dataOf taken ≠ [] → ∃ raw ∈ dataOf taken, RankedLast cfg (dataOf taken) raw ∧
    (Present cfg handed r raw ∨ (r.tbfHold.get? kh).map Prod.fst = some raw)

def AliveAt (r : DataReader T) (kh : KeyHash) : Prop :=
  (r.instances.stateOf kh).any (fun s => decide (s.kind = .alive)) = true

/-- A held sample that arrived before a dispose does not revive the instance when it is
due. -/
def NoRevival (cfg : ReaderConfig T) (kh : KeyHash) (taken : List StagedIngest)
    (r : DataReader T) : Prop :=
  ∀ before x after, taken = before ++ x :: after → Disposes cfg kh x →
    ∀ held, r.tbfHold.get? kh = some held → .alive held.1 ∉ after → ¬ AliveAt r kh →
      ¬ AliveAt (releaseDueTbf cfg r).1 kh

theorem Watching.latestKept (hw : Watching cfg kh taken handed r) :
    LatestKept cfg kh taken handed r := by
  intro hne
  cases hsource : cfg.qos.bySourceTs with
  | false =>
    obtain ⟨raw, hlast⟩ := Option.isSome_iff_exists.mp (List.getLast?_isSome.mpr hne)
    refine ⟨raw, List.mem_of_getLast? hlast, ?_, ?_⟩
    · rw [RankedLast, if_neg (by simp [hsource])]
      exact hlast
    · rcases hw.byReception hsource raw hlast with ⟨due, hheld⟩ | ⟨_, hpresent⟩
      · right
        rw [hheld]
        rfl
      · exact .inl hpresent
  | true =>
    obtain ⟨top, htop, hpresent, _, hall⟩ := hw.bySource hsource hne
    have hranked : ∀ raw, (∀ x ∈ dataOf taken, sourceRank x ≤ sourceRank raw) →
        RankedLast cfg (dataOf taken) raw := by
      intro raw hle
      rw [RankedLast, if_pos hsource]
      exact hle
    by_cases hover : ∃ held, r.tbfHold.get? kh = some held ∧ sourceRank top ≤ sourceRank held.1
    · obtain ⟨held, hheld, hover⟩ := hover
      refine ⟨held.1, mem_dataOf.mpr (hw.held kh held hheld).2, hranked _ fun x hx => ?_, .inr ?_⟩
      · rcases hall x hx with hle | ⟨held', hheld', hle⟩
        · exact hle.trans hover
        · rw [hheld] at hheld'
          cases hheld'
          exact hle
      · rw [hheld]
        rfl
    · refine ⟨top, htop, hranked _ fun x hx => ?_, .inl hpresent⟩
      rcases hall x hx with hle | ⟨held, hheld, hle⟩
      · exact hle
      · by_contra hlt
        exact hover ⟨held, hheld, le_of_lt (lt_of_lt_of_le (not_le.mp hlt) hle)⟩

theorem Watching.noRevival (hf : Filtering cfg) (hw : Watching cfg kh taken handed r) :
    NoRevival cfg kh taken r := by
  intro before x after heq hx held hheld hbefore hdead
  have hstale : ¬ Newer cfg kh r held.1 :=
    fun hnewer => hbefore (hw.fresh before x after heq hx held hheld hnewer)
  rcases releaseDueTbf_cases cfg fun k held hget => (hw.held k held hget).1 with
    hclock | ⟨raw, due, hget, _, hrelease⟩
  · rw [hclock]
    exact hdead
  · rw [hheld] at hget
    cases hget
    have hraw : OursToRank cfg kh raw := hw.ours _ (hw.held kh _ hheld).2
    obtain ⟨sample, hdecode, _⟩ := hraw.decodes
    have houtcome := sample_outcome hf hraw hdecode ((r.wallNow cfg).2.unheld kh)
      (r.wallNow cfg).1 false
    rcases hstep : ingestAliveFiltered cfg ((r.wallNow cfg).2.unheld kh) (r.wallNow cfg).1 raw
      false with ⟨r₂, verdict⟩
    rw [hstep] at houtcome
    cases houtcome with
    | held _ hfilter _ => cases hfilter
    | delivered _ hnewer _ => exact absurd hnewer hstale
    | stale _ =>
      rw [releaseRun, hstep] at hrelease
      rw [hrelease]
      exact hdead

theorem reaches_watching (hf : Filtering cfg) (ht : t = .new ∨ t = .withKeyHandles)
    {h : History (Event T) (Reply T)}
    (hr : Reaches (handle cfg) (Watched cfg kh) (DataReader.new t) h r) :
    ∃ taken, arrivedEntries h = taken ++ r.arrived ∧ Watching cfg kh taken (handedOut h) r := by
  have hstart : ∃ taken, arrivedEntries ([] : History (Event T) (Reply T)) =
      taken ++ (DataReader.new t : DataReader T).arrived ∧
      Watching cfg kh taken (handedOut []) (DataReader.new t) := by
    refine ⟨[], rfl, ?_⟩
    have htimes : t.filterTimes kh = (none, none) := by rcases ht with rfl | rfl <;> rfl
    exact {
      stored := by simp [AllStored, DataReader.new]
      ours := by simp
      waiting := by simp [DataReader.new]
      noneBack := rfl
      held := by simp [DataReader.new]
      untimed := fun _ => htimes
      bySource := fun _ hne => absurd rfl hne
      byReception := fun _ _ hlast => by cases hlast
      fresh := by simp }
  refine Reaches.invariant (P := fun h r => ∃ taken, arrivedEntries h = taken ++ r.arrived ∧
    Watching cfg kh taken (handedOut h) r) hstart ?_ hr
  intro h r event hinv hok
  obtain ⟨taken, harrived, hw⟩ := hinv
  obtain ⟨hours, hsteps⟩ := hok
  have hout : ∀ reply, handedOut (h ++ [(event, reply)]) = handedOut h ++ takenBy event reply := by
    intro reply
    simp [handedOut]
  by_cases harrive : ∃ entry, event = .arrive entry
  · obtain ⟨entry, rfl⟩ := harrive
    refine ⟨taken, ?_, ?_⟩
    · simp only [arrivedEntries, List.filterMap_append] at harrived ⊢
      rw [harrived, handle, List.append_assoc]
      rfl
    · rw [hout, show takenBy (.arrive entry) (handle cfg r (.arrive entry)).2 = [] from rfl,
        List.append_nil]
      refine ⟨hw.stored, hw.ours, ?_, hw.noneBack, hw.held, hw.untimed, hw.bySource,
        hw.byReception, hw.fresh⟩
      exact List.forall_mem_append.mpr ⟨hw.waiting, List.forall_mem_singleton.mpr hours⟩
  · have hcall : ∀ entry, event ≠ .arrive entry := fun entry heq => harrive ⟨entry, heq⟩
    obtain ⟨taken', heq, hw'⟩ := handle_goes hf hcall hsteps taken _ hw
    refine ⟨taken', ?_, ?_⟩
    · have hin : ∀ reply, arrivedEntries (h ++ [(event, reply)]) = arrivedEntries h := by
        intro reply
        cases event with
        | arrive entry => exact absurd rfl (hcall entry)
        | _ => simp [arrivedEntries]
      rw [hin, harrived, heq]
    · rw [hout]
      exact hw'

/-- The sample ranked last is cached, handed out or held, and no held sample revives a disposed
instance. -/
theorem latest_value_kept (hf : Filtering cfg) (t : InstanceTracker)
    (ht : t = .new ∨ t = .withKeyHandles) {h : History (Event T) (Reply T)} {r : DataReader T}
    (hr : Reaches (handle cfg) (Watched cfg kh) (DataReader.new t) h r) :
    ∃ taken, arrivedEntries h = taken ++ r.arrived ∧
      LatestKept cfg kh taken (handedOut h) r ∧ NoRevival cfg kh taken r := by
  obtain ⟨taken, harrived, hw⟩ := reaches_watching hf ht hr
  exact ⟨taken, harrived, hw.latestKept, hw.noRevival hf⟩

instance (handed : List T) (r : DataReader T) (raw : RawIngestSample) [DecidableEq T] :
    Decidable (Present cfg handed r raw) :=
  match h : cfg.codec.decode raw.bytes.octets raw.representation raw.bigEndian with
  | .ok v => decidable_of_iff (v ∈ handed ∨ v ∈ cachedValues r.cache) (by simp [Present, h])
  | .error _ => .isFalse (by simp [Present, h])

instance (r : DataReader T) (raw : RawIngestSample) : Decidable (Newer cfg kh r raw) :=
  inferInstanceAs (Decidable (_ → _))

instance (data : List RawIngestSample) (raw : RawIngestSample) :
    Decidable (RankedLast cfg data raw) :=
  match h : cfg.qos.bySourceTs with
  | true => decidable_of_iff (∀ x ∈ data, sourceRank x ≤ sourceRank raw) (by
      rw [RankedLast, if_pos h])
  | false => decidable_of_iff (data.getLast? = some raw) (by
      rw [RankedLast, if_neg (by simp [h])])

instance [DecidableEq T] (taken : List StagedIngest) (handed : List T) (r : DataReader T) :
    Decidable (LatestKept cfg kh taken handed r) :=
  inferInstanceAs (Decidable (_ → _))

def decidableHeld (kh : KeyHash) (r : DataReader T) (P : RawIngestSample × Time → Prop)
    [∀ held, Decidable (P held)] : Decidable (∀ held, r.tbfHold.get? kh = some held → P held) :=
  match h : r.tbfHold.get? kh with
  | some held => decidable_of_iff (P held) (by simp)
  | none => .isTrue (by simp)

instance (r : DataReader T) (raw : RawIngestSample) : Decidable (KeepsHeld cfg kh r raw) :=
  have := decidableHeld kh r fun held =>
    Newer cfg kh r held.1 → sourceRank held.1 ≤ sourceRank raw
  inferInstanceAs (Decidable (_ → _))

instance : ∀ entry, Decidable (Disposes cfg kh entry)
  | .alive _ => .isFalse id
  | .lifecycle _ => inferInstanceAs (Decidable (_ ∧ _))

instance (r : DataReader T) (m : LifecycleMarker) : Decidable (NothingHeldToRevive cfg kh r m) :=
  have := decidableHeld kh r fun held => ¬ Newer cfg kh r held.1
  inferInstanceAs (Decidable (_ → _))

instance (r : DataReader T) : ∀ s, Decidable (HoldSafe cfg kh r s)
  | .sample _ _ true => inferInstanceAs (Decidable (KeepsHeld _ _ _ _))
  | .marker _ => inferInstanceAs (Decidable (NothingHeldToRevive _ _ _ _))
  | .takeSelected _ _ | .takeOfInstance _ => inferInstanceAs (Decidable (CleanLoop _ _ _ _))
  | .sample _ _ false | .lifespan _ | .strength _ _ | .departure _ _ | .autopurge _
  | .takeValues | .query _ _ _ _ | .readValues | .readSelected _ _ | .readOfInstance _ =>
    .isTrue trivial

instance (raw : RawIngestSample) : Decidable (OursToRank cfg kh raw) :=
  match h : cfg.codec.decode raw.bytes.octets raw.representation raw.bigEndian with
  | .ok v => decidable_of_iff (raw.lifespanNanos = 0 ∧
      (cfg.qos.bySourceTs = true → raw.sourceTimestamp.isSome = true) ∧
      cfg.codec.instanceKeyHash v = kh)
      ⟨fun ⟨hlasts, hstamped, hkh⟩ => ⟨hlasts, hstamped, v, h, hkh⟩, fun hraw => by
        obtain ⟨v', hv', hkh⟩ := hraw.decodes
        rw [h] at hv'
        cases hv'
        exact ⟨hraw.unending, hraw.stamped, hkh⟩⟩
  | .error _ => .isFalse fun hraw => by
      obtain ⟨v', hv', _⟩ := hraw.decodes
      rw [h] at hv'
      cases hv'

instance : ∀ event, Decidable (ArrivesOurs cfg kh event)
  | .arrive (.alive _) => inferInstanceAs (Decidable (OursToRank _ _ _))
  | .arrive (.lifecycle _) => .isTrue trivial
  | .strengthChanged _ _ | .writerGone _ | .ingest | .releaseDue | .take | .takeCore _ _
  | .takeInstance _ | .takeNextInstance _ | .query _ _ _ _ | .read | .readCore _ _
  | .readInstance _ | .readNextInstance _ => .isTrue trivial

instance (r : DataReader T) (event : Event T) : Decidable (Watched cfg kh r event) :=
  inferInstanceAs (Decidable (_ ∧ _))

def separated : ReaderConfig (UInt8 × UInt8) :=
  octetConfig { reliableQos with minSepNanos := 5000000000, bySourceTs := true }

theorem filtering_separated : Filtering separated :=
  ⟨rfl, by decide, rfl, rfl, by decide, by decide, by decide, rfl, rfl⟩

/-- The second sample is held and handed out once it is due. -/
theorem latest_value_kept_when_due :
    ∃ h r, Reaches (handle separated) (Watched separated (octetKey 1)) (DataReader.new .new) h r ∧
      handedOut h = [(1, 7), (1, 8)] ∧ ∃ taken, arrivedEntries h = taken ++ r.arrived ∧
        LatestKept separated (octetKey 1) taken (handedOut h) r ∧
        NoRevival separated (octetKey 1) taken r := by
  have hok : RunOk (handle separated) (Watched separated (octetKey 1)) (DataReader.new .new)
      [.arrive (octetSample 1 [1, 7] 10), .take, .arrive (octetSample 1 [1, 8] 12), .ingest,
        .releaseDue, .releaseDue, .releaseDue, .releaseDue, .releaseDue, .take] := by
    decide +kernel
  exact ⟨_, _, reaches_run hok, by decide +kernel,
    latest_value_kept filtering_separated .new (.inl rfl) (reaches_run hok)⟩

/-- A sample older than the one delivered passes the time filter, ends the hold of the
latest, and is dropped. -/
theorem latest_value_lost :
    ¬ ∀ (cfg : ReaderConfig (UInt8 × UInt8)) (kh : KeyHash)
      (h : History (Event (UInt8 × UInt8)) _) (r : DataReader (UInt8 × UInt8)), Filtering cfg →
      Reaches (handle cfg) (fun _ event => ArrivesOurs cfg kh event) (DataReader.new .new) h r →
      ∃ taken, arrivedEntries h = taken ++ r.arrived ∧
        LatestKept cfg kh taken (handedOut h) r ∧ NoRevival cfg kh taken r := by
  intro hall
  have hok : RunOk (handle separated) (fun _ event => ArrivesOurs separated (octetKey 1) event)
      (DataReader.new .new)
      [.arrive (octetSample 1 [1, 7] 10), .ingest, .arrive (octetSample 1 [1, 8] 12), .ingest,
        .arrive (octetSample 1 [1, 9] 5), .ingest] := by
    decide +kernel
  obtain ⟨taken, htaken, hkept, _⟩ :=
    hall separated (octetKey 1) _ _ filtering_separated (reaches_run hok)
  have harrived : taken = [octetSample 1 [1, 7] 10, octetSample 1 [1, 8] 12,
      octetSample 1 [1, 9] 5] := by
    refine List.append_cancel_right (htaken.symm.trans ?_)
    decide +kernel
  rw [harrived] at hkept
  revert hkept
  decide +kernel

end DataReader
end ZeroDds.Dcps
