/-
Counts through an ingest.
-/
import ZeroDds.Dcps.SampleCounts

namespace ZeroDds.Dcps

open InstanceState

open InstanceTracker (Indexed SameUnder Drained times)

namespace InstanceState

variable (s : InstanceState) (timestamp : Option Time)

@[simp] theorem quantity_admitted (orderTs filterTs : Time) (writer : WriterGuid) :
    (s.admitted orderTs filterTs writer).quantity = s.quantity := rfl

@[simp] theorem quantity_disposed : (s.disposed timestamp).quantity = s.quantity := by
  unfold disposed
  split <;> rfl

@[simp] theorem quantity_stamped : (s.stamped timestamp).quantity = s.quantity := by
  unfold stamped
  split <;> rfl

@[simp] theorem quantity_withHolder (keyHolder : Option Rtps.Octets) :
    (s.withHolder keyHolder).quantity = s.quantity := by
  unfold withHolder
  split <;> rfl

@[simp] theorem quantity_unregistered : (s.unregistered timestamp).quantity = s.quantity := by
  unfold unregistered
  simp only [quantity_stamped]
  split <;> rfl

@[simp] theorem quantity_writerUnregistered (writer : WriterGuid) (timestamp : Option Time) :
    (s.writerUnregistered writer timestamp).quantity = s.quantity := by
  unfold writerUnregistered
  simp only [quantity_stamped]
  split <;> rfl

@[simp] theorem quantity_writerDropped (writer : WriterGuid) (timestamp : Option Time) :
    (s.writerDropped writer timestamp).quantity = s.quantity := by
  unfold writerDropped
  split
  · split <;> rfl
  · rfl

theorem quantity_marked (keyHolder : Option Rtps.Octets) (now : Time) :
    (((s.withHolder keyHolder).stamped (some now)).counted).quantity =
      (s.handle, satIncU32 s.samplesInCache) := by
  have h : ((s.withHolder keyHolder).stamped (some now)).quantity = s.quantity := by simp
  have hpair := Prod.mk.inj h
  simp [counted, quantity, hpair.1, hpair.2]

theorem handle_eq_of_quantity {s s' : InstanceState} (h : s'.quantity = s.quantity) :
    s'.handle = s.handle := congrArg Prod.fst h

end InstanceState

namespace InstanceTracker

variable {t : InstanceTracker}

theorem Indexed.quantity_modifyHandle (hi : Indexed t) {h : InstanceHandle}
    {f : InstanceState → InstanceState} (hf : ∀ s, (f s).quantity = s.quantity) :
    Indexed (t.modifyHandle h f) ∧ SameUnder InstanceState.quantity t (t.modifyHandle h f) :=
  ⟨hi.modifyHandle fun s => handle_eq_of_quantity (hf s), .modifyHandle hf⟩

end InstanceTracker

namespace DataReader

variable {T : Type} (cfg : ReaderConfig T)

def CountsExact (r : DataReader T) : Prop :=
  ∀ kh s, r.instances.stateOf kh = some s → s.samplesInCache = handleCount s.handle r.cache

def CountedReader (r : DataReader T) : Prop := Counted (fun _ => 0) r.cache r.instances

variable {r r' : DataReader T}

theorem CountedReader.exact (h : CountedReader r) : CountsExact r :=
  fun kh s hs => h.counts kh s hs

theorem CountedReader.of_same (h : CountedReader r) (hcache : r'.cache = r.cache)
    (hinst : r'.instances = r.instances) : CountedReader r' := by
  rw [CountedReader, hcache, hinst]
  exact h

theorem countedReader_new {t : InstanceTracker} (hi : Indexed t)
    (hempty : ∀ kh, t.stateOf kh = none) : CountedReader (DataReader.new t : DataReader T) where
  indexed := hi
  counts kh s hs := by
    rw [show (DataReader.new t : DataReader T).instances = t from rfl, hempty kh] at hs
    cases hs
  known e he := by cases he
  bound := Nat.zero_le _

theorem Evicts.length_le (h : Evicts r r') : r'.cache.length ≤ r.cache.length := by
  induction h with
  | refl => exact le_rfl
  | tail _ hstep ih =>
    obtain ⟨pre, s, post, t, hcache, rfl, _⟩ := hstep
    simp only [hcache, List.length_append, List.length_cons] at ih ⊢
    omega

theorem Evicts.sameHandles (h : Evicts r r') :
    SameUnder InstanceState.handle r.instances r'.instances := by
  induction h with
  | refl => exact .refl _
  | tail _ hstep ih =>
    obtain ⟨pre, s, post, t, hcache, rfl, ht⟩ := hstep
    rcases ht with rfl | ⟨_, rfl⟩
    · exact ih.trans (.modifyHandle fun _ => rfl)
    · exact ih

theorem admit_counted (hc : CountedReader r) (now : Time) (raw : RawIngestSample) (sample : T)
    (hfresh : r.instances.stateOf (cfg.codec.instanceKeyHash sample) = none →
      Indexed.Unshared r.instances (cfg.codec.instanceKeyHash sample))
    (hroom : r.cache.length < Rtps.u32Max) :
    CountedReader (admitSample cfg r now raw sample).1 := by
  rcases admit_cases cfg r now raw sample with
    ⟨_, heq⟩ | ⟨t, handle, n, r₁, inCache, hobs, hhist, hend⟩
  · rw [heq]
    exact hc
  · have hi := hc.indexed.observeAdmitted hfresh hobs
    obtain ⟨holder, s₁, rfl, rfl, rfl, hstate⟩ := InstanceTracker.observeAdmitted_eq_some _ hobs
    have hobserved : Counted (times _ 1) r.cache t :=
      Counted.observe hc hi hstate (handle_noteObserved _ _ _)
        (samplesInCache_noteObserved _ _ _) hfresh hroom
    have hevicts := evicts_applyHistory cfg { r with instances := t }
      ((r.instances.entry (cfg.codec.instanceKeyHash sample) none).1.noteObserved holder
        (some now)).handle
      ((r.instances.entry (cfg.codec.instanceKeyHash sample) none).1.noteObserved holder
        (some now)).samplesInCache
    rw [hhist] at hevicts
    rcases hend with ⟨_, _, _, heq⟩ | ⟨r₂, s, hlim, hs, heq⟩
    · rw [heq]
      exact (Counted.evicts hobserved hevicts).uncount
    · rw [heq]
      have hall : Evicts { r with instances := t } r₂ := hevicts.trans (applyLimits_none cfg hlim)
      have hr₂ : Counted (times _ 1) r₂.cache r₂.instances := Counted.evicts hobserved hall
      have hnoted : Counted (times _ 1)
          (noteDelivery cfg r₂ now raw (cfg.codec.instanceKeyHash sample)).cache
          (noteDelivery cfg r₂ now raw (cfg.codec.instanceKeyHash sample)).instances :=
        hr₂.of_sameUnder (hr₂.indexed.modifyKey fun _ => rfl) (.modifyKey fun _ => rfl)
      refine hnoted.push rfl ?_ (lt_of_le_of_lt hall.length_le hroom)
      have hsame : SameUnder InstanceState.handle t
          (noteDelivery cfg r₂ now raw (cfg.codec.instanceKeyHash sample)).instances :=
        hall.sameHandles.trans (.modifyKey fun _ => rfl)
      obtain ⟨s₀, hs₀, hhandle⟩ := hsame.stateOf_eq_some hs
      rw [hstate, if_pos rfl] at hs₀
      cases hs₀
      exact ⟨_, s, hs, hhandle.symm⟩

theorem passesExclusiveOwnership_shared (h : cfg.qos.exclusiveOwnership = false) (r : DataReader T)
    (sample : T) (writer : WriterGuid) (strength : Int) :
    passesExclusiveOwnership cfg r sample writer strength = (r, true) := by
  simp [passesExclusiveOwnership, h]

theorem sample_counted (hc : CountedReader r) (now : Time) (raw : RawIngestSample)
    (timeFilter : Bool)
    (hshared : cfg.qos.exclusiveOwnership = true → stopsEarly cfg now raw = true)
    (hfresh : ∀ sample,
      cfg.codec.decode raw.bytes.octets raw.representation raw.bigEndian = .ok sample →
      r.instances.stateOf (cfg.codec.instanceKeyHash sample) = none →
      Indexed.Unshared r.instances (cfg.codec.instanceKeyHash sample))
    (hroom : r.cache.length < Rtps.u32Max) :
    CountedReader (ingestAliveFiltered cfg r now raw timeFilter).1 := by
  rcases ingestAliveFiltered_cases cfg r now raw timeFilter with
    ⟨_, heq, _⟩ | ⟨sample, hlate, hdecode, hend⟩
  · rw [heq]
    exact hc
  · have hx : cfg.qos.exclusiveOwnership = false := by
      cases hx : cfg.qos.exclusiveOwnership with
      | false => rfl
      | true => rw [hshared hx] at hlate; cases hlate
    rw [passesExclusiveOwnership_shared cfg hx] at hend
    rcases hend with heq | ⟨hold, ⟨_, heq⟩ | heq⟩
    · rw [heq]
      exact hc
    · rw [heq]
      exact hc.of_same rfl rfl
    · rw [heq]
      have hhold : CountedReader (r.withHold hold) := hc.of_same rfl rfl
      exact admit_counted cfg hhold now raw sample (hfresh sample hdecode) hroom

theorem applyMarkerKind_counted {cache : List (CachedSample T)} {t : InstanceTracker}
    {handle : InstanceHandle} (hc : Counted (times handle 1) cache t) (kind : InstanceStateKind)
    (writer : Option WriterGuid) (now : Time) :
    ((applyMarkerKind t handle kind writer now).2 = true →
        Counted (times handle 1) cache (applyMarkerKind t handle kind writer now).1) ∧
      ((applyMarkerKind t handle kind writer now).2 = false →
        Counted (fun _ => 0) cache (applyMarkerKind t handle kind writer now).1) ∧
      SameUnder InstanceState.handle t (applyMarkerKind t handle kind writer now).1 := by
  have hchange : ∀ f : InstanceState → InstanceState, (∀ s, (f s).quantity = s.quantity) →
      Counted (times handle 1) cache (t.modifyHandle handle f) := by
    intro f hf
    obtain ⟨hi, hsame⟩ := hc.indexed.quantity_modifyHandle (h := handle) hf
    exact hc.of_sameUnder hi hsame
  have hhandle : ∀ f : InstanceState → InstanceState, (∀ s, (f s).quantity = s.quantity) →
      SameUnder InstanceState.handle t (t.modifyHandle handle f) := by
    intro f hf
    exact .modifyHandle fun s => handle_eq_of_quantity (hf s)
  cases kind with
  | alive => exact ⟨fun _ => hc, nofun, .refl t⟩
  | notAliveDisposed =>
    exact ⟨fun _ => hchange _ fun s => s.quantity_disposed _, nofun,
      hhandle _ fun s => s.quantity_disposed _⟩
  | notAliveNoWriters =>
    cases writer with
    | none =>
      exact ⟨fun _ => hchange _ fun s => s.quantity_unregistered _, nofun,
        hhandle _ fun s => s.quantity_unregistered _⟩
    | some w =>
      have hleft := hchange _ fun s => s.quantity_writerUnregistered w (some now)
      have hsame := hhandle _ fun s => s.quantity_writerUnregistered w (some now)
      simp only [applyMarkerKind, InstanceTracker.unregisterWriter]
      by_cases halive : ((t.modifyHandle handle (·.writerUnregistered w (some now))).getByHandle
          handle).any (fun s => s.kind = .alive) = true
      · simp only [halive, if_true]
        exact ⟨nofun, fun _ => hleft.uncount, hsame.trans (.modifyHandle fun _ => rfl)⟩
      · simp only [halive, if_false, Bool.false_eq_true]
        exact ⟨fun _ => hleft, nofun, hsame⟩

theorem pushLifecycleFrom_counted (hc : CountedReader r) (keyhash : KeyHash)
    (keyHolder : Option Rtps.Octets) (kind : InstanceStateKind) (writer : Option WriterGuid)
    (sourceTimestamp : Option Time)
    (hfresh : r.instances.stateOf (if cfg.codec.keyed then keyhash else keylessInstanceKey) = none →
      Indexed.Unshared r.instances (if cfg.codec.keyed then keyhash else keylessInstanceKey))
    (hroom : r.cache.length < Rtps.u32Max) :
    CountedReader (pushLifecycleFrom cfg r keyhash keyHolder kind writer sourceTimestamp) := by
  unfold pushLifecycleFrom
  simp only
  generalize (if cfg.codec.keyed = true then keyhash else keylessInstanceKey) = kh at hfresh ⊢
  cases hholder : markerHolder cfg r kh keyHolder with
  | none => exact hc
  | some holder =>
    rcases hclock : r.wallNow cfg with ⟨now, r₁⟩
    have hr₁ : r₁ = { r with readings := r.readings + 1 } := by
      cases hclock
      rfl
    have hcache : r₁.cache = r.cache := by rw [hr₁]
    have hinst : r₁.instances = r.instances := by rw [hr₁]
    have hmarked := Prod.mk.inj ((r.instances.entry kh holder).1.quantity_marked holder now)
    have hi : Indexed (r.instances.observeLifecycle kh holder (some now)).1 :=
      hc.indexed.put_entry hfresh hmarked.1
    have hobserved : Counted (times (r.instances.observeLifecycle kh holder (some now)).2 1)
        r.cache (r.instances.observeLifecycle kh holder (some now)).1 :=
      Counted.observe hc hi
        (r.instances.stateOf_observeLifecycle kh · holder (some now))
        hmarked.1 hmarked.2 hfresh hroom
    have hstate := r.instances.stateOf_observeLifecycle kh kh holder (some now)
    rw [if_pos rfl] at hstate
    simp only [hinst]
    rcases hobs : r.instances.observeLifecycle kh holder (some now) with ⟨t₀, handle⟩
    have hhandle : (r.instances.markedState kh holder (some now)).handle = handle := by
      rw [← r.instances.observeLifecycle_handle kh holder (some now), hobs]
    rw [hobs] at hobserved hstate
    obtain ⟨hmoved, hstays, hsame⟩ := applyMarkerKind_counted hobserved kind writer now
    rcases hkind : applyMarkerKind t₀ handle kind writer now with ⟨t, moved⟩
    rw [hkind] at hmoved hstays hsame
    cases moved with
    | false =>
      simp only [hcache]
      exact hstays rfl
    | true =>
      obtain ⟨s, hs, hh⟩ := hsame.symm.stateOf_eq_some hstate
      have hown : s.handle = handle := hh.trans hhandle
      have hget := (hmoved rfl).indexed.getByHandle_eq_some.mpr ⟨kh, hs, hown⟩
      simp only [hget]
      simp only [pushMarker, hcache]
      exact (hmoved rfl).push rfl ⟨kh, s, hs, hown⟩ hroom

theorem ingestLifecycle_counted (hc : CountedReader r) (m : LifecycleMarker)
    (hfresh : r.instances.stateOf (markerKey cfg m) = none →
      Indexed.Unshared r.instances (markerKey cfg m)) (hroom : r.cache.length < Rtps.u32Max) :
    CountedReader (ingestLifecycle cfg r m) := by
  rcases ingestLifecycle_cases cfg r m with ⟨_, h⟩ | ⟨t, rfl | ⟨w, rfl⟩, h⟩
  · rw [h]
    exact hc
  · rw [h]
    exact pushLifecycleFrom_counted cfg (r := { r with instances := r.instances }) hc _ _ _ _ _
      hfresh hroom
  · rw [h]
    have hquantity : ∀ s : InstanceState,
        (if s.currentOwner.map Prod.fst = some w then { s with currentOwner := none }
          else s).quantity = s.quantity := by
      intro s
      split <;> rfl
    have hsame : SameUnder InstanceState.quantity r.instances
        (r.instances.releaseOwnerOf (cfg.codec.lifecycleInstance m.keyHash m.keyHolder).1 w) :=
      .modifyKey hquantity
    have hreleased : CountedReader { r with
        instances :=
          r.instances.releaseOwnerOf (cfg.codec.lifecycleInstance m.keyHash m.keyHolder).1 w } :=
      Counted.of_sameUnder hc
        (hc.indexed.modifyKey fun s => handle_eq_of_quantity (hquantity s)) hsame
    refine pushLifecycleFrom_counted cfg hreleased _ _ _ _ _ ?_ hroom
    intro hnone kh s hs
    obtain ⟨s₀, hs₀, hq⟩ := hsame.stateOf_eq_some hs
    have hgone : r.instances.stateOf (markerKey cfg m) = none :=
      Option.map_eq_none_iff.mp ((hsame _).symm.trans (Option.map_eq_none_iff.mpr hnone))
    rw [handle_eq_of_quantity hq.symm]
    exact hfresh hgone kh s₀ hs₀

/-! ### Departures, strengths and purges -/

def LeavesWriters (r : DataReader T) (writer : WriterGuid) : Prop :=
  ∀ kh s, r.instances.stateOf kh = some s → ¬ s.LosesLastWriter writer

theorem departWriter_counted (hc : CountedReader r) (now : Time) (writer : WriterGuid)
    (hleaves : LeavesWriters r writer) : CountedReader (departWriter now r writer) := by
  have hclear : ∀ s : InstanceState,
      (if s.currentOwner.map Prod.fst = some writer then { s with currentOwner := none }
        else s).quantity = s.quantity := by
    intro s
    split <;> rfl
  have hnone : ((r.instances.clearOwnerForWriter writer).byKeyhash.values.filter fun s =>
      s.LosesLastWriter writer) = [] := by
    refine List.filter_eq_nil_iff.mpr fun s hs => ?_
    obtain ⟨kh, hget⟩ := SortedMap.mem_values.mp hs
    have hstate : (r.instances.clearOwnerForWriter writer).stateOf kh = some s := hget
    rw [InstanceTracker.clearOwnerForWriter, InstanceTracker.stateOf_modifyAll] at hstate
    obtain ⟨s₀, hs₀, rfl⟩ := Option.map_eq_some_iff.mp hstate
    have hstays := hleaves kh s₀ hs₀
    simp only [decide_eq_true_eq]
    split <;> exact hstays
  have hc₁ : Counted (fun _ => 0) r.cache (r.instances.clearOwnerForWriter writer) :=
    Counted.of_sameUnder hc
      (hc.indexed.modifyAll fun s => handle_eq_of_quantity (hclear s))
      (.modifyAll hclear)
  have hdrop : ∀ s : InstanceState, (s.writerDropped writer (some now)).quantity = s.quantity :=
    fun s => s.quantity_writerDropped writer (some now)
  have hc₂ : Counted (fun _ => 0) r.cache
      ((r.instances.clearOwnerForWriter writer).dropWriter writer (some now)).1 :=
    hc₁.of_sameUnder
      (hc₁.indexed.modifyAll fun s => handle_eq_of_quantity (hdrop s))
      (.modifyAll hdrop)
  simp only [departWriter, InstanceTracker.dropWriter, hnone, List.map_nil, pushDepartures]
  exact hc₂

theorem strength_counted (hc : CountedReader r) (writer : WriterGuid) (strength : Int) :
    CountedReader { r with instances := r.instances.updateOwnerStrength writer strength } := by
  refine Counted.of_sameUnder hc
    (hc.indexed.modifyAll fun s => handle_eq_of_quantity ?_) (.modifyAll fun s => ?_)
  all_goals
    split
    · split <;> rfl
    · rfl

theorem evicts_drainExpired (now : Time) (r : DataReader T) (pre rest : List (CachedSample T))
    (t : InstanceTracker) :
    Evicts { r with cache := pre ++ rest, instances := t }
      { r with
        cache := pre ++ rest.filter fun s => !expired s.expiresAt now
        instances := drainExpired now t rest } := by
  induction rest generalizing pre t with
  | nil => exact .refl
  | cons s rest ih =>
    cases hexp : expired s.expiresAt now with
    | false =>
      have hkeep := ih (pre ++ [s]) t
      simpa [drainExpired, hexp] using hkeep
    | true =>
      by_cases hnil : s.info.instanceHandle = handleNil
      · have hone : EvictsOne { r with cache := pre ++ s :: rest, instances := t }
            { r with cache := pre ++ rest, instances := t } :=
          ⟨pre, s, rest, t, rfl, rfl, Or.inr ⟨hnil, rfl⟩⟩
        simpa [drainExpired, hexp, hnil] using (ih pre t).head hone
      · have hone : EvictsOne { r with cache := pre ++ s :: rest, instances := t }
            { r with
              cache := pre ++ rest
              instances := t.drainSamples s.info.instanceHandle 1 } :=
          ⟨pre, s, rest, _, rfl, rfl, Or.inl rfl⟩
        simpa [drainExpired, hexp, hnil] using (ih pre _).head hone

theorem lifespan_counted (hc : CountedReader r) (now : Time) :
    CountedReader (r.purgeExpiredByLifespan now) :=
  Counted.evicts hc (evicts_drainExpired now r [] r.cache r.instances)

theorem autopurge_counted (hc : CountedReader r) (now : Time) :
    CountedReader (runReaderAutopurge cfg r now) := by
  unfold runReaderAutopurge
  split
  · exact hc
  · rcases hpurge : r.instances.autopurge now cfg.autopurgeDisposedNanos
      cfg.autopurgeNowriterNanos with ⟨t, purged⟩
    have hi := hc.indexed.autopurge now cfg.autopurgeDisposedNanos cfg.autopurgeNowriterNanos
    have hstate : ∀ kh, t.stateOf kh = (r.instances.stateOf kh).filter fun s =>
        !s.purgeable now cfg.autopurgeDisposedNanos cfg.autopurgeNowriterNanos := by
      intro kh
      rw [← InstanceTracker.stateOf_autopurge, hpurge]
    rw [hpurge] at hi
    have hfiltered : Counted (fun _ => 0) (r.cache.filter fun s =>
        decide (s.info.instanceHandle = handleNil) ||
          (t.getByHandle s.info.instanceHandle).isSome) t := by
      refine ⟨hi, ?_, ?_, (List.length_filter_le _ _).trans hc.bound⟩
      · intro kh s hs
        have hs₀ := hs
        rw [hstate, Option.filter_eq_some_iff] at hs₀
        rw [hc.counts kh s hs₀.1, handleCount, handleCount, List.countP_filter]
        refine List.countP_congr fun e _ => ?_
        have hget : t.getByHandle s.handle = some s := hi.getByHandle_eq_some.mpr ⟨kh, hs, rfl⟩
        by_cases hh : e.info.instanceHandle = s.handle <;> simp [ofInstance, hh, hget]
      · intro e he
        obtain ⟨hmem, hkept⟩ := List.mem_filter.mp he
        obtain ⟨kh, s, hs, hh⟩ := hc.known e hmem
        have hnil : e.info.instanceHandle ≠ handleNil := hh ▸ hc.indexed.ne_nil kh s hs
        simp only [hnil, decide_false, Bool.false_or] at hkept
        obtain ⟨s', hs'⟩ := Option.isSome_iff_exists.mp hkept
        obtain ⟨kh', hst, hhandle⟩ := hi.getByHandle_eq_some.mp hs'
        exact ⟨kh', s', hst, hhandle⟩
    simp only
    split
    · next hempty =>
      have hall : (r.cache.filter fun s => decide (s.info.instanceHandle = handleNil) ||
          (t.getByHandle s.info.instanceHandle).isSome) = r.cache := by
        refine List.filter_eq_self.mpr fun e he => ?_
        obtain ⟨kh, s, hs, hh⟩ := hc.known e he
        have hkept : s.purgeable now cfg.autopurgeDisposedNanos cfg.autopurgeNowriterNanos
            = false := by
          cases hp : s.purgeable now cfg.autopurgeDisposedNanos cfg.autopurgeNowriterNanos with
          | false => rfl
          | true =>
            have hmem := InstanceTracker.mem_autopurge.mpr ⟨kh, s, hs, hp, rfl⟩
            rw [hpurge, List.isEmpty_iff.mp hempty] at hmem
            cases hmem
        have hst : t.stateOf kh = some s := by
          rw [hstate, hs]
          simp [hkept]
        rw [← hh, hi.getByHandle_eq_some.mpr ⟨kh, hst, rfl⟩]
        simp
      rw [hall] at hfiltered
      exact hfiltered
    · exact hfiltered

end DataReader
end ZeroDds.Dcps
