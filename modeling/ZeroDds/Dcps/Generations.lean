/-
Generations.
-/
import ZeroDds.Dcps.InstanceLife

namespace ZeroDds.Dcps

open InstanceState InstanceTracker

open InstanceTracker (Indexed)

/-! ### The count of an instance -/

namespace InstanceState

def generations (s : InstanceState) : Int :=
  s.disposedGenerationCount + s.noWritersGenerationCount

def CountsFit (s : InstanceState) : Prop :=
  (0 ≤ s.disposedGenerationCount ∧ s.disposedGenerationCount ≤ i32Max) ∧
    0 ≤ s.noWritersGenerationCount ∧ s.noWritersGenerationCount ≤ i32Max

def dates (s : InstanceState) : InstanceHandle × Int × Int :=
  (s.handle, s.disposedGenerationCount, s.noWritersGenerationCount)

variable {s s' : InstanceState}

theorem handle_of_dates (h : s'.dates = s.dates) : s'.handle = s.handle := congrArg Prod.fst h

theorem generations_of_dates (h : s'.dates = s.dates) : s'.generations = s.generations :=
  congrArg (fun d => d.2.1 + d.2.2) h

theorem countsFit_of_dates (h : s'.dates = s.dates) (hs : s.CountsFit) : s'.CountsFit := by
  obtain ⟨hd, hn⟩ := hs
  have hdisposed : s'.disposedGenerationCount = s.disposedGenerationCount :=
    congrArg (fun d => d.2.1) h
  have hnoWriters : s'.noWritersGenerationCount = s.noWritersGenerationCount :=
    congrArg (fun d => d.2.2) h
  exact ⟨hdisposed ▸ hd, hnoWriters ▸ hn⟩

theorem satAddI32_one {n : Int} (h : 0 ≤ n ∧ n ≤ i32Max) :
    n ≤ satAddI32 n 1 ∧ 0 ≤ satAddI32 n 1 ∧ satAddI32 n 1 ≤ i32Max := by
  unfold satAddI32 i32Min i32Max at *
  omega

theorem generations_revived (hs : s.CountsFit) :
    s.generations ≤ s.revived.generations ∧ s.revived.CountsFit := by
  obtain ⟨hd, hn⟩ := hs
  unfold revived
  split
  · exact ⟨le_rfl, hd, hn⟩
  · have h := satAddI32_one hd
    exact ⟨add_le_add_left h.1 _, h.2, hn⟩
  · have h := satAddI32_one hn
    exact ⟨add_le_add_right h.1 _, hd, h.2⟩

section

variable (s : InstanceState)

theorem dates_withHolder (keyHolder : Option Rtps.Octets) :
    (s.withHolder keyHolder).dates = s.dates := by
  unfold withHolder
  split <;> rfl

theorem dates_stamped (timestamp : Option Time) :
    (s.stamped timestamp).dates = s.dates := by
  unfold stamped
  split <;> rfl

theorem dates_disposed (timestamp : Option Time) :
    (s.disposed timestamp).dates = s.dates := by
  unfold disposed
  split <;> rfl

theorem dates_unregistered (timestamp : Option Time) :
    (s.unregistered timestamp).dates = s.dates := by
  unfold unregistered
  rw [dates_stamped]
  split <;> rfl

theorem dates_writerUnregistered (writer : WriterGuid)
    (timestamp : Option Time) : (s.writerUnregistered writer timestamp).dates = s.dates := by
  unfold writerUnregistered
  rw [dates_stamped]
  split <;> rfl

theorem dates_writerDropped (writer : WriterGuid) (timestamp : Option Time) :
    (s.writerDropped writer timestamp).dates = s.dates := by
  unfold writerDropped
  split
  · split <;> rfl
  · rfl

end

theorem generations_noteObserved (keyHolder : Option Rtps.Octets) (timestamp : Option Time)
    (hs : s.CountsFit) :
    s.generations ≤ (s.noteObserved keyHolder timestamp).generations ∧
      (s.noteObserved keyHolder timestamp).CountsFit := by
  have hheld := dates_withHolder s keyHolder
  obtain ⟨hle, hfit⟩ := generations_revived (countsFit_of_dates hheld hs)
  have hdates : (s.noteObserved keyHolder timestamp).dates =
      (s.withHolder keyHolder).revived.dates :=
    (show ((s.withHolder keyHolder).revived.stamped timestamp).counted.dates = _ from
      dates_stamped _ _)
  rw [generations_of_dates hdates, ← generations_of_dates hheld]
  exact ⟨hle, countsFit_of_dates hdates hfit⟩

end InstanceState

/-! ### Trackers whose instances only grow older -/

namespace InstanceTracker

structure Sound (t : InstanceTracker) : Prop where
  indexed : Indexed t
  fits : ∀ kh s, t.stateOf kh = some s → s.CountsFit

def Ages (t t' : InstanceTracker) : Prop :=
  Sound t → Sound t' ∧ ∀ kh s, t.stateOf kh = some s →
    ∃ s', t'.stateOf kh = some s' ∧ s'.handle = s.handle ∧ s.generations ≤ s'.generations

namespace Ages

variable {t t₁ t₂ : InstanceTracker}

theorem refl (t : InstanceTracker) : Ages t t := fun h => ⟨h, fun _ s hs => ⟨s, hs, rfl, le_rfl⟩⟩

theorem trans (h : Ages t t₁) (h' : Ages t₁ t₂) : Ages t t₂ := by
  intro hsound
  obtain ⟨hsound₁, hgrows⟩ := h hsound
  obtain ⟨hsound₂, hgrows'⟩ := h' hsound₁
  refine ⟨hsound₂, fun kh s hs => ?_⟩
  obtain ⟨s₁, hs₁, hhandle, hle⟩ := hgrows kh s hs
  obtain ⟨s₂, hs₂, hhandle', hle'⟩ := hgrows' kh s₁ hs₁
  exact ⟨s₂, hs₂, hhandle'.trans hhandle, hle.trans hle'⟩

theorem of_sameUnder (h : SameUnder InstanceState.dates t t₁)
    (hindexed : Indexed t → Indexed t₁) : Ages t t₁ := by
  intro hsound
  refine ⟨⟨hindexed hsound.indexed, fun kh s hs => ?_⟩, fun kh s hs => ?_⟩
  · obtain ⟨s₀, hs₀, heq⟩ := h.stateOf_eq_some hs
    exact countsFit_of_dates heq.symm (hsound.fits kh s₀ hs₀)
  · obtain ⟨s₁, hs₁, heq⟩ := h.symm.stateOf_eq_some hs
    exact ⟨s₁, hs₁, handle_of_dates heq,
      (generations_of_dates heq).ge⟩

variable {kh : KeyHash} {f : InstanceState → InstanceState}

theorem modifyKey (hf : ∀ s, (f s).dates = s.dates) : Ages t (t.modifyKey kh f) :=
  of_sameUnder (.modifyKey hf) fun hi => hi.modifyKey fun s =>
    handle_of_dates (hf s)

theorem modifyHandle {h : InstanceHandle} (hf : ∀ s, (f s).dates = s.dates) :
    Ages t (t.modifyHandle h f) :=
  of_sameUnder (.modifyHandle hf) fun hi => hi.modifyHandle fun s =>
    handle_of_dates (hf s)

theorem modifyAll (hf : ∀ s, (f s).dates = s.dates) : Ages t (t.modifyAll f) :=
  of_sameUnder (.modifyAll hf) fun hi => hi.modifyAll fun s => handle_of_dates (hf s)

theorem fits_entry (hsound : Sound t) (kh : KeyHash) (keyHolder : Option Rtps.Octets) :
    (t.entry kh keyHolder).1.CountsFit := by
  unfold entry
  split
  · next s hs => exact hsound.fits kh s hs
  · have hzero : (0 : Int) ≤ i32Max := by decide
    exact ⟨⟨le_rfl, hzero⟩, le_rfl, hzero⟩

theorem of_put {keyHolder : Option Rtps.Octets} {s : InstanceState}
    (hindexed : Indexed t → Indexed t₁)
    (hstate : ∀ kh', t₁.stateOf kh' = if kh' = kh then some s else t.stateOf kh')
    (hhandle : s.handle = (t.entry kh keyHolder).1.handle)
    (hs : (t.entry kh keyHolder).1.CountsFit →
      (t.entry kh keyHolder).1.generations ≤ s.generations ∧ s.CountsFit) : Ages t t₁ := by
  intro hsound
  obtain ⟨hle, hfit⟩ := hs (fits_entry hsound kh keyHolder)
  refine ⟨⟨hindexed hsound.indexed, fun kh' s' hs' => ?_⟩, fun kh' s' hs' => ?_⟩
  · rw [hstate] at hs'
    split at hs'
    · cases hs'
      exact hfit
    · exact hsound.fits kh' s' hs'
  · rw [hstate]
    split
    · next heq =>
      subst heq
      have hentry : (t.entry kh' keyHolder).1 = s' := by simp [entry, hs']
      rw [hentry] at hle hhandle
      exact ⟨s, rfl, hhandle, hle⟩
    · exact ⟨s', hs', rfl, le_rfl⟩

theorem observeSampleWithHolder (kh : KeyHash) (keyHolder : Option Rtps.Octets)
    (timestamp : Option Time) (hfresh : t.stateOf kh = none → Indexed.Unshared t kh) :
    Ages t (t.observeSampleWithHolder kh keyHolder timestamp) :=
  of_put (fun hi => hi.put_entry hfresh (handle_noteObserved _ _ _))
    (stateOf_observeSampleWithHolder t kh · keyHolder timestamp)
    (handle_noteObserved _ _ _)
    (generations_noteObserved keyHolder timestamp)

theorem observeAdmitted {keyHolder : Rtps.Octets} {timestamp : Time} {maxInstances : Int}
    {handle : InstanceHandle} {inCache : Nat}
    (hfresh : t.stateOf kh = none → Indexed.Unshared t kh)
    (h : t.observeAdmitted kh keyHolder timestamp maxInstances = some (t₁, handle, inCache)) :
    Ages t t₁ := by
  obtain ⟨holder, s, rfl, -, -, hstate⟩ := observeAdmitted_eq_some t h
  exact of_put (fun hi => hi.observeAdmitted hfresh h) hstate
    (handle_noteObserved _ _ _) (generations_noteObserved _ _)

theorem observeLifecycle (kh : KeyHash) (keyHolder : Option Rtps.Octets)
    (timestamp : Option Time) (hfresh : t.stateOf kh = none → Indexed.Unshared t kh) :
    Ages t (t.observeLifecycle kh keyHolder timestamp).1 := by
  have hdates : (t.markedState kh keyHolder timestamp).dates = (t.entry kh keyHolder).1.dates :=
    (show (((t.entry kh keyHolder).1.withHolder keyHolder).stamped timestamp).counted.dates = _
      from (dates_stamped _ _).trans (dates_withHolder _ _))
  have hhandle := handle_of_dates hdates
  exact of_put (fun hi => hi.put_entry hfresh hhandle)
    (stateOf_observeLifecycle t kh · keyHolder timestamp) hhandle fun hfit =>
    ⟨(generations_of_dates hdates).ge, countsFit_of_dates hdates hfit⟩

end Ages

theorem sound_new : Sound new := ⟨indexed_new, fun _ _ h => nomatch h⟩

theorem sound_withKeyHandles : Sound withKeyHandles :=
  ⟨indexed_withKeyHandles, fun _ _ h => nomatch h⟩

end InstanceTracker

open InstanceTracker (Ages SameLives)

namespace DataReader

variable {T : Type} (cfg : ReaderConfig T)

def SampleInfo.date (info : SampleInfo) : InstanceHandle × Int :=
  (info.instanceHandle, info.generations)

def cacheDates (cache : List (CachedSample T)) : List (InstanceHandle × Int) :=
  cache.map fun c => SampleInfo.date c.info

def NoEarlier (d d' : InstanceHandle × Int) : Prop := d.1 = d'.1 → d.2 ≤ d'.2

structure Dated (dates : List (InstanceHandle × Int)) (t : InstanceTracker) : Prop where
  sound : InstanceTracker.Sound t
  known : ∀ d ∈ dates, 0 ≤ d.2 ∧ ∃ s, t.getByHandle d.1 = some s ∧ d.2 ≤ s.generations
  ordered : dates.Pairwise NoEarlier

namespace Dated

variable {dates dates' : List (InstanceHandle × Int)} {t t' : InstanceTracker}

theorem ages (h : Dated dates t) (hages : Ages t t') : Dated dates t' := by
  obtain ⟨hsound, hgrows⟩ := hages h.sound
  refine ⟨hsound, fun d hd => ?_, h.ordered⟩
  obtain ⟨hnonneg, s, hs, hle⟩ := h.known d hd
  obtain ⟨kh, hkh, hhandle⟩ := h.sound.indexed.getByHandle_eq_some.mp hs
  obtain ⟨s', hs', hsame, hle'⟩ := hgrows kh s hkh
  exact ⟨hnonneg, s', hsound.indexed.getByHandle_eq_some.mpr ⟨kh, hs', hsame.trans hhandle⟩,
    hle.trans hle'⟩

theorem sublist (h : Dated dates t) (hsub : dates'.Sublist dates) : Dated dates' t :=
  ⟨h.sound, fun d hd => h.known d (hsub.subset hd), h.ordered.sublist hsub⟩

theorem push (h : Dated dates t) {handle : InstanceHandle} {s : InstanceState}
    (hs : t.getByHandle handle = some s) : Dated (dates ++ [(handle, s.generations)]) t := by
  refine ⟨h.sound, fun d hd => ?_, ?_⟩
  · rcases List.mem_append.mp hd with hd | hd
    · exact h.known d hd
    · rw [List.mem_singleton.mp hd]
      obtain ⟨kh, hkh, -⟩ := h.sound.indexed.getByHandle_eq_some.mp hs
      obtain ⟨hdisposed, hnoWriters⟩ := h.sound.fits kh s hkh
      exact ⟨add_nonneg hdisposed.1 hnoWriters.1, s, hs, le_rfl⟩
  · rw [List.pairwise_append]
    refine ⟨h.ordered, List.pairwise_singleton _ _, fun d hd d' hd' hsame => ?_⟩
    rw [List.mem_singleton.mp hd'] at hsame ⊢
    obtain ⟨-, s', hs', hle⟩ := h.known d hd
    rw [hsame, hs] at hs'
    cases hs'
    exact hle

end Dated

def DatedReader (r : DataReader T) : Prop := Dated (cacheDates r.cache) r.instances

variable {r r' : DataReader T}

theorem DatedReader.pushMarker (h : DatedReader r) {handle : InstanceHandle} {s : InstanceState}
    (hs : r.instances.getByHandle handle = some s) (ts : Time) (publication : InstanceHandle) :
    DatedReader (r.pushMarker (infoOf s handle ts publication false)) := by
  have hpush := Dated.push h hs
  unfold DatedReader cacheDates DataReader.pushMarker
  rw [List.map_append]
  exact hpush

/-! ### Steps that ingest -/

/-- Trackers of the same generations. -/
structure SameDates (t t' : InstanceTracker) : Prop where
  same : SameUnder InstanceState.dates t t'
  indexed : InstanceTracker.Indexed t → InstanceTracker.Indexed t'

namespace SameDates

theorem ages {t t' : InstanceTracker} (h : SameDates t t') : Ages t t' :=
  .of_sameUnder h.same h.indexed

theorem modifyHandle {t : InstanceTracker} {h : InstanceHandle} {f : InstanceState → InstanceState}
    (hf : ∀ s, (f s).dates = s.dates) : SameDates t (t.modifyHandle h f) :=
  ⟨.modifyHandle hf, fun hi => hi.modifyHandle fun s => handle_of_dates (hf s)⟩

end SameDates

theorem tolerates_dates : Tolerates SameDates where
  refl _ := ⟨.refl _, id⟩
  trans h h' := ⟨h.same.trans h'.same, h'.indexed ∘ h.indexed⟩
  seen _ _ := .modifyHandle fun _ => rfl
  drained _ _ _ := .modifyHandle fun _ => rfl
  taken _ _ _ := .modifyHandle fun _ => rfl
  strength t w n := by
    refine ⟨.modifyAll fun s => ?_, fun hi => hi.modifyAll fun s => handle_of_dates ?_⟩
    all_goals
      split
      · split <;> rfl
      · rfl

theorem tolerates_ages : Tolerates Ages where
  refl := .refl
  trans := .trans
  seen t h := (tolerates_dates.seen t h).ages
  drained t h n := (tolerates_dates.drained t h n).ages
  taken t h n := (tolerates_dates.taken t h n).ages
  strength t w n := (tolerates_dates.strength t w n).ages

theorem EvictsOne.ages (h : EvictsOne r r') : Ages r.instances r'.instances := by
  obtain ⟨pre, s, post, t, hcache, rfl, rfl | ⟨-, rfl⟩⟩ := h
  · exact tolerates_ages.drained _ _ _
  · exact .refl _

theorem Evicts.ages (h : Evicts r r') : Ages r.instances r'.instances := by
  induction h with
  | refl => exact .refl _
  | tail _ hstep ih => exact ih.trans hstep.ages

theorem Evicts.dated (h : Evicts r r') (hr : DatedReader r) : DatedReader r' := by
  refine h.preserves (fun hone hp => ?_) hr
  have hages := Dated.ages hp hone.ages
  obtain ⟨pre, s, post, t, hcache, rfl, -⟩ := hone
  refine hages.sublist ?_
  rw [hcache]
  exact ((List.sublist_cons_self s post).append_left pre).map _

variable {t : InstanceTracker} {limit : Option Nat} {taken : Nat}
  {cache keep : List (CachedSample T)}

theorem DatedReader.ages (h : DatedReader r) (hages : Ages r.instances t) :
    DatedReader { r with instances := t } :=
  Dated.ages h hages

theorem admit_dated (h : DatedReader r) (now : Time) (raw : RawIngestSample) (sample : T)
    (hfresh : FreshHandle r (cfg.codec.instanceKeyHash sample)) :
    DatedReader (admitSample cfg r now raw sample).1 := by
  rcases admit_cases cfg r now raw sample with
    ⟨_, heq⟩ | ⟨t, handle, n, r₁, inCache, hobs, hhist, hend⟩
  · rw [heq]
    exact h
  · have hobserved : DatedReader { r with instances := t } := h.ages (.observeAdmitted hfresh hobs)
    have hevicts := evicts_applyHistory cfg { r with instances := t } handle n
    rw [hhist] at hevicts
    have h₁ : DatedReader r₁ := hevicts.dated hobserved
    rcases hend with ⟨_, _, _, heq⟩ | ⟨r₂, s, hlim, hs, heq⟩
    · rw [heq]
      exact h₁.ages (tolerates_ages.drained _ _ _)
    · rw [heq]
      have h₂ : DatedReader r₂ := (applyLimits_none cfg hlim).dated h₁
      have hnoted : DatedReader (noteDelivery cfg r₂ now raw (cfg.codec.instanceKeyHash sample)) :=
        h₂.ages (.modifyKey fun _ => rfl)
      have hages : Ages t
          (noteDelivery cfg r₂ now raw (cfg.codec.instanceKeyHash sample)).instances :=
        (Evicts.ages (hevicts.trans (applyLimits_none cfg hlim))).trans (.modifyKey fun _ => rfl)
      -- the handle the sample was admitted under is that of its instance
      obtain ⟨_, s₀, -, rfl, -, hstate⟩ := observeAdmitted_eq_some _ hobs
      obtain ⟨s', hs', hhandle, -⟩ :=
        (hages hobserved.sound).2 (cfg.codec.instanceKeyHash sample) s₀ (by simp [hstate])
      rw [hs] at hs'
      cases hs'
      have hpush := Dated.push hnoted
        (hnoted.sound.indexed.getByHandle_eq_some.mpr ⟨_, hs, hhandle⟩)
      unfold DatedReader cacheDates push
      rw [List.map_append]
      exact hpush

theorem passesExclusiveOwnership_dated (h : DatedReader r) (sample : T) (writer : WriterGuid)
    (strength : Int) (hfresh : FreshHandle r (cfg.codec.instanceKeyHash sample)) :
    DatedReader (passesExclusiveOwnership cfg r sample writer strength).1 ∧
      FreshHandle (passesExclusiveOwnership cfg r sample writer strength).1
        (cfg.codec.instanceKeyHash sample) := by
  unfold passesExclusiveOwnership
  cases hx : cfg.qos.exclusiveOwnership with
  | false => exact ⟨h, hfresh⟩
  | true =>
    have haccept : ∀ t, Ages t (t.acceptUnderExclusiveOwnership
        (cfg.codec.instanceKeyHash sample) writer strength (cfg.clock r.readings)
        cfg.deadlineNanos).1 := by
      intro t
      unfold InstanceTracker.acceptUnderExclusiveOwnership
      split
      · exact .refl t
      · split
        · exact .modifyKey fun _ => rfl
        · exact .refl t
    have hobserve : Ages r.instances (r.instances.observeSample
        (cfg.codec.instanceKeyHash sample) (cfg.codec.keyHolder sample) none) :=
      .observeSampleWithHolder _ _ _ hfresh
    have hages := hobserve.trans (haccept _)
    refine ⟨Dated.ages h hages, fun hnone => ?_⟩
    -- the instance was observed, so it is known
    have hs := stateOf_observeSampleWithHolder r.instances
      (cfg.codec.instanceKeyHash sample) (cfg.codec.instanceKeyHash sample)
      (some (cfg.codec.keyHolder sample)) none
    rw [if_pos rfl] at hs
    obtain ⟨s', hs', -⟩ := (haccept _ (hobserve h.sound).1).2 _ _ hs
    exact absurd (hs'.symm.trans hnone) nofun

theorem sample_dated (h : DatedReader r) (now : Time) (raw : RawIngestSample) (timeFilter : Bool)
    (hfresh : ∀ sample,
      cfg.codec.decode raw.bytes.octets raw.representation raw.bigEndian = .ok sample →
      FreshHandle r (cfg.codec.instanceKeyHash sample)) :
    DatedReader (ingestAliveFiltered cfg r now raw timeFilter).1 := by
  rcases ingestAliveFiltered_cases cfg r now raw timeFilter with
    ⟨_, heq, -⟩ | ⟨sample, _, hdecode, hend⟩
  · rw [heq]
    exact h
  · obtain ⟨howned, hfresh'⟩ := passesExclusiveOwnership_dated cfg h sample raw.writerGuid
      raw.writerStrength (hfresh sample hdecode)
    rcases hend with heq | ⟨hold, ⟨_, heq⟩ | heq⟩
    · rw [heq]
      exact howned
    · rw [heq]
      exact howned
    · rw [heq]
      exact admit_dated cfg (r := (passesExclusiveOwnership cfg r sample raw.writerGuid
        raw.writerStrength).1.withHold hold) howned now raw sample hfresh'

theorem applyMarkerKind_ages (t : InstanceTracker) (handle : InstanceHandle)
    (kind : InstanceStateKind) (writer : Option WriterGuid) (now : Time) :
    Ages t (applyMarkerKind t handle kind writer now).1 := by
  cases kind with
  | alive => exact .refl t
  | notAliveDisposed => exact .modifyHandle fun s => s.dates_disposed _
  | notAliveNoWriters =>
    cases writer with
    | none => exact .modifyHandle fun s => s.dates_unregistered _
    | some w =>
      have hleft : Ages t (t.unregisterWriter handle w (some now)) :=
        .modifyHandle fun s => s.dates_writerUnregistered _ _
      unfold applyMarkerKind
      simp only
      split
      · exact hleft.trans (tolerates_ages.drained _ _ _)
      · exact hleft

theorem pushLifecycleFrom_dated (h : DatedReader r) (keyhash : KeyHash)
    (keyHolder : Option Rtps.Octets) (kind : InstanceStateKind) (writer : Option WriterGuid)
    (sourceTimestamp : Option Time)
    (hfresh : FreshHandle r (if cfg.codec.keyed then keyhash else keylessInstanceKey)) :
    DatedReader (pushLifecycleFrom cfg r keyhash keyHolder kind writer sourceTimestamp) := by
  unfold pushLifecycleFrom
  simp only
  cases markerHolder cfg r (if cfg.codec.keyed = true then keyhash else keylessInstanceKey)
      keyHolder with
  | none => exact h
  | some holder =>
    have hages : Ages r.instances (applyMarkerKind (r.instances.observeLifecycle
        (if cfg.codec.keyed = true then keyhash else keylessInstanceKey) holder
          (some (cfg.clock r.readings))).1 (r.instances.observeLifecycle
        (if cfg.codec.keyed = true then keyhash else keylessInstanceKey) holder
          (some (cfg.clock r.readings))).2 kind writer (cfg.clock r.readings)).1 :=
      (Ages.observeLifecycle _ holder _ hfresh).trans (applyMarkerKind_ages _ _ kind writer _)
    simp only [wallNow]
    split
    · next heq =>
      rw [heq] at hages
      exact Dated.ages h hages
    · next heq =>
      rw [heq] at hages
      split
      · exact Dated.ages h hages
      · next s hs =>
        exact DatedReader.pushMarker (r := { r with
          instances := _, readings := r.readings + 1 }) (Dated.ages h hages) hs _ _

theorem marker_dated (h : DatedReader r) (m : LifecycleMarker)
    (hfresh : FreshHandle r (markerKey cfg m)) : DatedReader (ingestLifecycle cfg r m) := by
  rcases ingestLifecycle_cases cfg r m with ⟨-, heq⟩ | ⟨t, ht, heq⟩
  · rw [heq]
    exact h
  · rw [heq]
    have hsame : SameLives r.instances t := by
      rcases ht with rfl | ⟨w, rfl⟩
      · exact .refl _
      · exact .releaseOwnerOf _ _
    have hages : Ages r.instances t := by
      rcases ht with rfl | ⟨w, rfl⟩
      · exact .refl _
      · refine .modifyKey fun s => ?_
        split <;> rfl
    refine pushLifecycleFrom_dated cfg (h.ages hages) _ _ _ _ _ fun hnone => ?_
    exact hsame.unshared (hfresh ((hsame.lives.stateOf_eq_none _).mp hnone))

theorem pushDepartures_dated (writer : WriterGuid) (now : Time) (h : DatedReader r)
    (handles : List InstanceHandle) : DatedReader (pushDepartures writer now r handles) := by
  induction handles generalizing r with
  | nil => exact h
  | cons handle rest ih =>
    unfold pushDepartures
    split
    · exact ih h
    · next s hs => exact ih (h.pushMarker hs _ _)

theorem departWriter_dated (h : DatedReader r) (now : Time) (writer : WriterGuid) :
    DatedReader (departWriter now r writer) := by
  have hclear : Ages r.instances (r.instances.clearOwnerForWriter writer) := by
    refine .modifyAll fun s => ?_
    split <;> rfl
  exact pushDepartures_dated writer now
    (h.ages (hclear.trans (.modifyAll fun s => s.dates_writerDropped writer (some now)))) _

theorem autopurge_dated (h : DatedReader r) (now : Time) :
    DatedReader (runReaderAutopurge cfg r now) := by
  unfold runReaderAutopurge
  split
  · exact h
  · have hsound : InstanceTracker.Sound (r.instances.autopurge now cfg.autopurgeDisposedNanos
        cfg.autopurgeNowriterNanos).1 := by
      refine ⟨h.sound.indexed.autopurge _ _ _, fun kh s hs => ?_⟩
      rw [stateOf_autopurge, Option.filter_eq_some_iff] at hs
      exact h.sound.fits kh s hs.1
    -- an instance that is left is as it was
    have hleft : ∀ handle s, (r.instances.autopurge now cfg.autopurgeDisposedNanos
        cfg.autopurgeNowriterNanos).1.getByHandle handle = some s →
        r.instances.getByHandle handle = some s := by
      intro handle s hs
      obtain ⟨kh, hkh, hhandle⟩ := hsound.indexed.getByHandle_eq_some.mp hs
      rw [stateOf_autopurge, Option.filter_eq_some_iff] at hkh
      exact h.sound.indexed.getByHandle_eq_some.mpr ⟨kh, hkh.1, hhandle⟩
    have hdated : ∀ cache : List (CachedSample T), cache.Sublist r.cache →
        (∀ c ∈ cache, ((r.instances.autopurge now cfg.autopurgeDisposedNanos
          cfg.autopurgeNowriterNanos).1.getByHandle c.info.instanceHandle).isSome) →
        Dated (cacheDates cache) (r.instances.autopurge now cfg.autopurgeDisposedNanos
          cfg.autopurgeNowriterNanos).1 := by
      intro cache hsub hknown
      have hold := h.sublist (hsub.map fun c => SampleInfo.date c.info)
      refine ⟨hsound, fun d hd => ?_, hold.ordered⟩
      obtain ⟨c, hc, rfl⟩ := List.mem_map.mp hd
      obtain ⟨s, hs⟩ := Option.isSome_iff_exists.mp (hknown c hc)
      obtain ⟨hnonneg, s₀, hs₀, hle⟩ := hold.known _ hd
      have hsame : some s₀ = some s := hs₀.symm.trans (hleft _ s hs)
      exact ⟨hnonneg, s, hs, Option.some.inj hsame ▸ hle⟩
    simp only
    split
    · next hempty =>
      refine hdated r.cache (.refl _) fun c hc => ?_
      obtain ⟨-, s, hs, -⟩ := h.known _ (List.mem_map.mpr ⟨c, hc, rfl⟩)
      obtain ⟨kh, hkh, hhandle⟩ := h.sound.indexed.getByHandle_eq_some.mp hs
      have hstays : s.purgeable now cfg.autopurgeDisposedNanos cfg.autopurgeNowriterNanos =
          false := by
        by_contra hpurge
        have hmem := mem_autopurge.mpr
          ⟨kh, s, hkh, Bool.not_eq_false _ ▸ hpurge, rfl⟩
        rw [List.isEmpty_iff.mp hempty] at hmem
        cases hmem
      refine Option.isSome_iff_exists.mpr ⟨s, hsound.indexed.getByHandle_eq_some.mpr
        ⟨kh, ?_, hhandle⟩⟩
      rw [stateOf_autopurge, Option.filter_eq_some_iff]
      exact ⟨hkh, by rw [hstays]; rfl⟩
    · refine hdated _ List.filter_sublist fun c hc => ?_
      obtain ⟨hmem, hkept⟩ := List.mem_filter.mp hc
      obtain ⟨-, s, hs, -⟩ := h.known _ (List.mem_map.mpr ⟨c, hmem, rfl⟩)
      obtain ⟨kh, hkh, hhandle⟩ := h.sound.indexed.getByHandle_eq_some.mp hs
      have hne : c.info.instanceHandle ≠ handleNil := by
        have hne := h.sound.indexed.ne_nil kh s hkh
        rw [hhandle] at hne
        exact hne
      simpa [hne] using hkept

/-! ### Steps that read and take -/

theorem cacheDates_refreshStates (r : DataReader T) :
    cacheDates r.refreshStates.cache = cacheDates r.cache := by
  unfold cacheDates refreshStates
  rw [List.map_map]
  refine List.map_congr_left fun c _ => ?_
  simp only [Function.comp_apply]
  unfold refreshed
  split <;> rfl

theorem readLoop_dates (pick : CachedSample T → Option (Except DdsError (Sample T)))
    (limit : Option Nat) (n : Nat) (cache : List (CachedSample T)) :
    cacheDates (readLoop pick limit n cache).2.1 = cacheDates cache := by
  induction cache generalizing n with
  | nil => rfl
  | cons s rest ih =>
    unfold readLoop
    split
    · rfl
    · split
      · exact congrArg (_ :: ·) (ih n)
      · rfl
      · exact congrArg (_ :: ·) (ih (n + 1))

theorem drainWanted_sublist {wanted : CachedSample T → Bool}
    (h : (drainWanted cfg r wanted limit taken cache).2 = .ok keep) : keep.Sublist cache := by
  induction cache generalizing taken keep with
  | nil =>
    cases h
    exact .refl _
  | cons s rest ih =>
    unfold drainWanted at h
    split at h
    · split at h
      · cases h
      · exact (ih h).cons _
    · cases hkeep : (drainWanted cfg r wanted limit taken rest).2 with
      | error e =>
        simp only [hkeep] at h
        cases h
      | ok left =>
        simp only [hkeep] at h
        cases h
        exact (ih hkeep).cons_cons _

theorem drainValues_sublist (h : (drainValues cfg limit taken cache).2 = .ok keep) :
    keep.Sublist cache := by
  induction cache generalizing taken keep with
  | nil =>
    cases h
    exact .refl _
  | cons s rest ih =>
    unfold drainValues at h
    split at h
    · cases h
      exact .refl _
    · split at h
      · exact (ih h).cons _
      · split at h
        · exact (ih h).cons _
        · split at h
          · exact (ih h).cons _
          · cases h

theorem filter_zipIdx_sublist (p : CachedSample T × Nat → Bool) (cache : List (CachedSample T)) :
    ((cache.zipIdx.filter p).map Prod.fst).Sublist cache := by
  have hfiltered := (List.filter_sublist (p := p) (l := cache.zipIdx)).map Prod.fst
  rwa [List.zipIdx_map_fst] at hfiltered

theorem markRead_dates (places : List Nat) (cache : List (CachedSample T)) :
    cacheDates (cache.zipIdx.map fun e => if places.contains e.2 then markRead e.1 else e.1) =
      cacheDates cache := by
  calc cacheDates (cache.zipIdx.map fun e => if places.contains e.2 then markRead e.1 else e.1)
      = cache.zipIdx.map fun e => SampleInfo.date e.1.info := by
        rw [cacheDates, List.map_map]
        refine List.map_congr_left fun e _ => ?_
        rw [Function.comp_apply]
        split <;> rfl
    _ = cacheDates (cache.zipIdx.map Prod.fst) := by
        rw [cacheDates, List.map_map]
        rfl
    _ = cacheDates cache := by rw [List.zipIdx_map_fst]

theorem quiet_dates (r : DataReader T) {s : ReaderStep T} (h : s.quiet = true) :
    (cacheDates (perform cfg r s).cache).Sublist (cacheDates r.cache) := by
  have hrefreshed := cacheDates_refreshStates r
  have hsub : ∀ {cache : List (CachedSample T)}, cache.Sublist r.refreshStates.cache →
      (cacheDates cache).Sublist (cacheDates r.cache) := by
    intro cache hcache
    rw [← hrefreshed]
    exact hcache.map _
  cases s with
  | sample _ _ _ => cases h
  | marker _ => cases h
  | departure _ _ => cases h
  | autopurge _ => cases h
  | lifespan now => exact List.filter_sublist.map _
  | strength writer strength => exact .refl _
  | takeValues =>
    simp only [perform, takeValues]
    split
    · exact List.nil_sublist _
    · next keep hkeep => exact (drainValues_sublist cfg hkeep).map _
  | takeSelected sel max =>
    simp only [perform, takeSelected]
    split
    · exact hsub (.refl _)
    · split
      · exact List.nil_sublist _
      · next keep hkeep => exact hsub (drainWanted_sublist cfg hkeep)
  | takeOfInstance handle =>
    simp only [perform, takeOfInstance]
    split
    · exact hsub (.refl _)
    · split
      · exact List.nil_sublist _
      · next keep hkeep => exact hsub (drainWanted_sublist cfg hkeep)
  | query cond max take instance? =>
    simp only [perform, querySelected]
    split
    · exact hsub (.refl _)
    · split
      · exact hsub (.refl _)
      · cases take with
        | true => exact hsub (filter_zipIdx_sublist _ _)
        | false =>
          rw [if_neg Bool.false_ne_true, markRead_dates]
          exact hsub (.refl _)
  | readValues =>
    have hsame : cacheDates (perform cfg r .readValues).cache = cacheDates r.cache :=
      readLoop_dates _ _ _ _
    rw [hsame]
  | readSelected sel max =>
    have hsame : cacheDates (perform cfg r (.readSelected sel max)).cache =
        cacheDates r.refreshStates.cache := readLoop_dates _ _ _ _
    rw [hsame, hrefreshed]
  | readOfInstance handle =>
    have hsame : cacheDates (perform cfg r (.readOfInstance handle)).cache =
        cacheDates r.refreshStates.cache := readLoop_dates _ _ _ _
    rw [hsame, hrefreshed]

/-- A new instance of a built-in topic gets a handle no other has. -/
def FreshSteps (r : DataReader T) : ReaderStep T → Prop
  | .sample _ raw _ => ∀ sample,
    cfg.codec.decode raw.bytes.octets raw.representation raw.bigEndian = .ok sample →
      FreshKeyHandle r (cfg.codec.instanceKeyHash sample)
  | .marker m => FreshKeyHandle r (markerKey cfg m)
  | _ => True

theorem step_dated (h : DatedReader r) (s : ReaderStep T) (hfresh : FreshSteps cfg r s) :
    DatedReader (perform cfg r s) := by
  by_cases hquiet : s.quiet = true
  · exact (Dated.ages h (tolerates_ages.quiet cfg r hquiet)).sublist (quiet_dates cfg r hquiet)
  · cases s with
    | sample now raw timeFilter => exact sample_dated cfg h now raw timeFilter fun sample hdecode =>
        (hfresh sample hdecode).fresh h.sound.indexed
    | marker m => exact marker_dated cfg h m (hfresh.fresh h.sound.indexed)
    | departure now writer => exact departWriter_dated h now writer
    | autopurge now => exact autopurge_dated cfg h now
    | lifespan | strength | takeValues | takeSelected | takeOfInstance | query | readValues
    | readSelected | readOfInstance => exact absurd rfl hquiet

theorem DatedReader.of_same (hsame : SameStore r r') (h : DatedReader r) : DatedReader r' := by
  rw [DatedReader, hsame.cache, hsame.instances]
  exact h

theorem dated_of_reaches (ht : t = .new ∨ t = .withKeyHandles) {h : History (Event T) (Reply T)}
    (hr : Reaches (handle cfg) (StepsMeet cfg (FreshSteps cfg)) (DataReader.new t) h r) :
    DatedReader r := by
  have hsound : InstanceTracker.Sound t := by
    rcases ht with rfl | rfl
    · exact sound_new
    · exact sound_withKeyHandles
  have hstart : DatedReader (DataReader.new t : DataReader T) :=
    ⟨hsound, List.forall_mem_nil _, .nil⟩
  exact reaches_invariant cfg hr hstart (fun _ _ hsame hd => hd.of_same hsame)
    (fun _ s hfresh hd => step_dated cfg hd s hfresh)

end DataReader
end ZeroDds.Dcps
