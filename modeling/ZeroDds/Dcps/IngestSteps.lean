/-
The stages of an ingest.
-/
import ZeroDds.Dcps.Ingest

namespace ZeroDds.Dcps.DataReader

variable {T : Type} (cfg : ReaderConfig T)

/-- The sample does not get as far as the ownership check: it expired, does not decode, or
the content filter rejects it. -/
def stopsEarly (now : Time) (raw : RawIngestSample) : Bool :=
  expired (raw.expiresAt now) now ||
    match cfg.codec.decode raw.bytes.octets raw.representation raw.bigEndian with
    | .error _ => true
    | .ok sample => !cfg.samplePassesFilter sample

def withHold (r : DataReader T) (hold : SortedMap KeyHash (RawIngestSample × Time)) :
    DataReader T :=
  { r with tbfHold := hold }

theorem ingestAliveFiltered_cases (r : DataReader T) (now : Time) (raw : RawIngestSample)
    (timeFilter : Bool) :
    (stopsEarly cfg now raw = true ∧ (ingestAliveFiltered cfg r now raw timeFilter).1 = r ∧
      (ingestAliveFiltered cfg r now raw timeFilter).2 ≠ .admitted) ∨
    ∃ sample, stopsEarly cfg now raw = false ∧
      cfg.codec.decode raw.bytes.octets raw.representation raw.bigEndian = .ok sample ∧
      (ingestAliveFiltered cfg r now raw timeFilter =
          ((passesExclusiveOwnership cfg r sample raw.writerGuid raw.writerStrength).1,
            .dropped .ownership) ∨
        ∃ hold, (∃ reason, ingestAliveFiltered cfg r now raw timeFilter =
            ((passesExclusiveOwnership cfg r sample raw.writerGuid raw.writerStrength).1.withHold
              hold, .dropped reason)) ∨
          ingestAliveFiltered cfg r now raw timeFilter =
            admitSample cfg ((passesExclusiveOwnership cfg r sample raw.writerGuid
              raw.writerStrength).1.withHold hold) now raw sample) := by
  unfold ingestAliveFiltered stopsEarly
  cases hexpired : expired (raw.expiresAt now) now with
  | true => exact Or.inl ⟨rfl, rfl, nofun⟩
  | false =>
  cases hdecode : cfg.codec.decode raw.bytes.octets raw.representation raw.bigEndian with
  | error e =>
    refine Or.inl ⟨rfl, rfl, ?_⟩
    cases he : e.isDiscarded <;> simp [he]
  | ok sample =>
  cases hpass : cfg.samplePassesFilter sample with
  | false => exact Or.inl ⟨by simp [hpass], by simp [hpass], by simp [hpass]⟩
  | true =>
  refine Or.inr ⟨sample, by simp [hpass], rfl, ?_⟩
  rcases hown : passesExclusiveOwnership cfg r sample raw.writerGuid raw.writerStrength with
    ⟨r₁, accepted⟩
  cases accepted with
  | false => exact Or.inl (by simp [hpass, hown])
  | true =>
    refine Or.inr ?_
    simp only [Bool.false_eq_true, if_false, Bool.not_true, hown, hpass]
    unfold ingestFiltered
    simp only
    split
    · refine ⟨(holdFiltered cfg r₁ now raw (cfg.codec.instanceKeyHash sample)).tbfHold,
        Or.inl ⟨_, Prod.ext ?_ rfl⟩⟩
      unfold holdFiltered
      split <;> rfl
    · have hsuper : supersede cfg r₁ (cfg.codec.instanceKeyHash sample) =
          r₁.withHold (supersede cfg r₁ (cfg.codec.instanceKeyHash sample)).tbfHold := by
        unfold supersede
        split <;> rfl
      refine ⟨(supersede cfg r₁ (cfg.codec.instanceKeyHash sample)).tbfHold, ?_⟩
      rw [← hsuper]
      split
      · exact Or.inl ⟨_, rfl⟩
      · exact Or.inr rfl

def EvictsOne (r r' : DataReader T) : Prop :=
  ∃ pre s post t, r.cache = pre ++ s :: post ∧
    r' = { r with cache := pre ++ post, instances := t } ∧
    (t = r.instances.drainSamples s.info.instanceHandle 1 ∨
      s.info.instanceHandle = handleNil ∧ t = r.instances)

abbrev Evicts : DataReader T → DataReader T → Prop := Relation.ReflTransGen EvictsOne

variable {r r' : DataReader T} {handle : InstanceHandle}

theorem Evicts.preserves {P : DataReader T → Prop} (h : Evicts r r')
    (hone : ∀ {r r' : DataReader T}, EvictsOne r r' → P r → P r') (hp : P r) : P r' := by
  induction h with
  | refl => exact hp
  | tail _ hstep ih => exact hone hstep ih

theorem removeFirst_eq_some {α : Type} {p : α → Bool} {l rest : List α} {a : α}
    (h : removeFirst p l = some (a, rest)) :
    ∃ pre post, l = pre ++ a :: post ∧ rest = pre ++ post ∧ p a = true := by
  induction l generalizing rest with
  | nil => cases h
  | cons b l ih =>
    simp only [removeFirst] at h
    split at h
    · next hp =>
      cases h
      exact ⟨[], _, rfl, rfl, hp⟩
    · obtain ⟨⟨c, left⟩, hleft, heq⟩ := Option.map_eq_some_iff.mp h
      cases heq
      obtain ⟨pre, post, rfl, rfl, hp⟩ := ih hleft
      exact ⟨b :: pre, post, rfl, rfl, hp⟩

theorem evictsOne_oldestOfInstance (h : r.evictOldestOfInstance handle = some r') :
    EvictsOne r r' := by
  obtain ⟨⟨s, rest⟩, hfirst, rfl⟩ := Option.map_eq_some_iff.mp h
  obtain ⟨pre, post, hcache, rfl, hp⟩ := removeFirst_eq_some hfirst
  have hhandle : s.info.instanceHandle = handle := by simpa using hp
  exact ⟨pre, s, post, _, hcache, rfl, Or.inl (by rw [hhandle])⟩

theorem evicts_oldestOverall (r : DataReader T) : Evicts r r.evictOldestOverall := by
  unfold evictOldestOverall
  split
  · exact .refl
  · next victim rest hfirst =>
    obtain ⟨pre, post, hcache, rfl, _⟩ := removeFirst_eq_some hfirst
    refine .single ⟨pre, victim, post, _, hcache, rfl, ?_⟩
    split
    · next hnil => exact Or.inr ⟨hnil, rfl⟩
    · exact Or.inl rfl

theorem evicts_downTo (handle : InstanceHandle) (depth : Nat) (r : DataReader T) (inCache : Nat) :
    Evicts r (evictDownTo handle depth r inCache).1 := by
  induction inCache generalizing r with
  | zero => exact .refl
  | succ inCache ih =>
    unfold evictDownTo
    split
    · split
      · exact .refl
      · next r' h => exact .head (evictsOne_oldestOfInstance h) (ih r')
    · exact .refl

theorem evicts_applyHistory (r : DataReader T) (handle : InstanceHandle) (inCache : Nat) :
    Evicts r (applyHistory cfg r handle inCache).1 := by
  unfold applyHistory
  split
  · exact evicts_downTo handle _ r inCache
  · exact .refl

theorem evicts_makeInstanceRoom (r : DataReader T) (handle : InstanceHandle) (inCache : Nat) :
    Evicts r (makeInstanceRoom cfg r handle inCache) := by
  unfold makeInstanceRoom
  split
  · cases h : r.evictOldestOfInstance handle with
    | none => exact .refl
    | some r' => exact .single (evictsOne_oldestOfInstance h)
  · exact .refl

theorem evicts_makeRoom (r : DataReader T) : Evicts r (makeRoom cfg r) := by
  unfold makeRoom
  split
  · exact evicts_oldestOverall r
  · exact .refl

theorem applyLimits_none {inCache : Nat} (h : applyLimits cfg r handle inCache = (r', none)) :
    Evicts r r' := by
  unfold applyLimits at h
  split at h
  · cases h
  · simp only at h
    split at h
    · cases h
    · cases h
      exact (evicts_makeInstanceRoom cfg r handle inCache).trans (evicts_makeRoom cfg _)

theorem applyLimits_some {inCache : Nat} {reason : RefusalReason}
    (h : applyLimits cfg r handle inCache = (r', some reason)) :
    r' = r.uncounted handle ∧ reason ≠ .instancesLimit := by
  unfold applyLimits at h
  split at h
  · cases h
    exact ⟨rfl, nofun⟩
  · next hover =>
    simp only at h
    split at h
    · next hfull =>
      have hreliable : cfg.qos.reliable = true := by
        simp only [Bool.and_eq_true] at hfull
        exact hfull.2
      have hunder : overInstanceLimit cfg inCache = false := by
        simpa [hreliable] using hover
      cases h
      exact ⟨by simp [makeInstanceRoom, hunder], nofun⟩
    · cases h

/-! ### The ends of `admitSample` -/

theorem isSome_stateOf_drainSamples (t : InstanceTracker) (h : InstanceHandle) (n : Nat)
    (kh : KeyHash) : ((t.drainSamples h n).stateOf kh).isSome = (t.stateOf kh).isSome := by
  rw [InstanceTracker.drainSamples, InstanceTracker.stateOf_modifyHandle]
  split <;> simp

theorem Evicts.isSome_stateOf (h : Evicts r r') (kh : KeyHash) :
    (r'.instances.stateOf kh).isSome = (r.instances.stateOf kh).isSome := by
  induction h with
  | refl => rfl
  | tail _ hstep ih =>
    obtain ⟨pre, s, post, t, _, rfl, ht⟩ := hstep
    rw [← ih]
    rcases ht with rfl | ⟨_, rfl⟩
    · exact isSome_stateOf_drainSamples _ _ _ _
    · rfl

theorem admit_cases (r : DataReader T) (now : Time) (raw : RawIngestSample) (sample : T) :
    (r.instances.hasRoomFor (cfg.codec.instanceKeyHash sample) cfg.qos.maxInstances = false ∧
      admitSample cfg r now raw sample =
        (r, if cfg.qos.reliable then .refused .instancesLimit else .dropped .instancesLimit)) ∨
    ∃ t handle n r₁ inCache,
      r.instances.observeAdmitted (cfg.codec.instanceKeyHash sample)
        (cfg.codec.keyHolder sample) now cfg.qos.maxInstances = some (t, handle, n) ∧
      applyHistory cfg { r with instances := t } handle n = (r₁, inCache) ∧
      ((∃ reason, reason ≠ .instancesLimit ∧
          applyLimits cfg r₁ handle inCache = (r₁.uncounted handle, some reason) ∧
          admitSample cfg r now raw sample = (r₁.uncounted handle, .refused reason)) ∨
        ∃ r₂ s, applyLimits cfg r₁ handle inCache = (r₂, none) ∧
          (noteDelivery cfg r₂ now raw (cfg.codec.instanceKeyHash sample)).instances.stateOf
            (cfg.codec.instanceKeyHash sample) = some s ∧
          admitSample cfg r now raw sample =
            (push cfg (noteDelivery cfg r₂ now raw (cfg.codec.instanceKeyHash sample)) now raw
              sample handle s, .admitted)) := by
  cases hobs : r.instances.observeAdmitted (cfg.codec.instanceKeyHash sample)
      (cfg.codec.keyHolder sample) now cfg.qos.maxInstances with
  | none =>
    refine Or.inl ⟨(InstanceTracker.observeAdmitted_eq_none _).mp hobs, ?_⟩
    simp [admitSample, hobs]
  | some observed =>
    obtain ⟨t, handle, n⟩ := observed
    cases hhist : applyHistory cfg { r with instances := t } handle n with
    | mk r₁ inCache =>
    refine Or.inr ⟨t, handle, n, r₁, inCache, rfl, hhist, ?_⟩
    cases hlim : applyLimits cfg r₁ handle inCache with
    | mk r₂ refusal =>
    cases refusal with
    | some reason =>
      obtain ⟨rfl, hreason⟩ := applyLimits_some cfg hlim
      refine Or.inl ⟨reason, hreason, rfl, ?_⟩
      simp [admitSample, hobs, hhist, hlim]
    | none =>
      have hknown : (r₂.instances.stateOf (cfg.codec.instanceKeyHash sample)).isSome := by
        obtain ⟨holder, s, _, _, _, hstate⟩ := InstanceTracker.observeAdmitted_eq_some _ hobs
        have hevicts := (evicts_applyHistory cfg { r with instances := t } handle n)
        rw [hhist] at hevicts
        rw [Evicts.isSome_stateOf (hevicts.trans (applyLimits_none cfg hlim))]
        simp [hstate]
      obtain ⟨s₂, hs₂⟩ := Option.isSome_iff_exists.mp hknown
      have hnoted : (noteDelivery cfg r₂ now raw
          (cfg.codec.instanceKeyHash sample)).instances.stateOf
            (cfg.codec.instanceKeyHash sample) = some (s₂.admitted
              (raw.orderTs cfg.qos.bySourceTs now) (raw.filterTs cfg.qos.tbfClock now)
              raw.writerGuid) := by
        simp [noteDelivery, InstanceTracker.noteAdmitted, InstanceTracker.stateOf_modifyKey, hs₂]
      refine Or.inr ⟨r₂, _, rfl, hnoted, ?_⟩
      simp [admitSample, hobs, hhist, hlim, hnoted]

def markerKey (m : LifecycleMarker) : KeyHash :=
  if cfg.codec.keyed then (cfg.codec.lifecycleInstance m.keyHash m.keyHolder).1
  else keylessInstanceKey

def markerWriter (m : LifecycleMarker) : Option WriterGuid :=
  if m.writerGuid = WriterGuid.unknown then none else some m.writerGuid

theorem ingestLifecycle_cases (r : DataReader T) (m : LifecycleMarker) :
    (m.kind = .notAliveDisposed ∧ ingestLifecycle cfg r m = r) ∨
      ∃ t, (t = r.instances ∨ ∃ w, t = r.instances.releaseOwnerOf
          (cfg.codec.lifecycleInstance m.keyHash m.keyHolder).1 w) ∧
        ingestLifecycle cfg r m = pushLifecycleFrom cfg { r with instances := t }
          (cfg.codec.lifecycleInstance m.keyHash m.keyHolder).1
          (cfg.codec.lifecycleInstance m.keyHash m.keyHolder).2 m.kind (markerWriter m)
          (m.sourceTimestamp.map heTimestampToTime) := by
  unfold ingestLifecycle markerWriter
  by_cases hknown : m.writerGuid = WriterGuid.unknown
  · simp only [if_pos hknown]
    exact .inr ⟨_, .inl rfl, rfl⟩
  · simp only [if_neg hknown]
    cases hx : cfg.qos.exclusiveOwnership with
    | false => exact .inr ⟨_, .inl rfl, rfl⟩
    | true =>
      cases hkind : m.kind with
      | alive => exact .inr ⟨_, .inl rfl, rfl⟩
      | notAliveDisposed =>
        simp only
        split
        · next h => cases h
        · split
          · exact .inl ⟨trivial, rfl⟩
          · exact .inr ⟨_, .inl rfl, rfl⟩
      | notAliveNoWriters => exact .inr ⟨_, .inr ⟨m.writerGuid, rfl⟩, rfl⟩

/-! ### The queues in front of the cache -/

structure SameQueues (r r' : DataReader T) : Prop where
  heldBack : r'.heldBack = r.heldBack
  arrived : r'.arrived = r.arrived
  strengthChanges : r'.strengthChanges = r.strengthChanges
  gone : r'.gone = r.gone

namespace SameQueues

theorem refl (r : DataReader T) : SameQueues r r := ⟨rfl, rfl, rfl, rfl⟩

theorem trans {r₁ r₂ : DataReader T} (h : SameQueues r r₁) (h' : SameQueues r₁ r₂) :
    SameQueues r r₂ :=
  ⟨h'.heldBack.trans h.heldBack, h'.arrived.trans h.arrived,
    h'.strengthChanges.trans h.strengthChanges, h'.gone.trans h.gone⟩

end SameQueues

theorem sameQueues_passesExclusiveOwnership (r : DataReader T) (sample : T) (writer : WriterGuid)
    (strength : Int) : SameQueues r (passesExclusiveOwnership cfg r sample writer strength).1 := by
  unfold passesExclusiveOwnership
  split <;> exact ⟨rfl, rfl, rfl, rfl⟩

theorem Evicts.sameQueues (h : Evicts r r') : SameQueues r r' := by
  induction h with
  | refl => exact .refl r
  | tail _ hstep ih =>
    obtain ⟨_, _, _, _, _, rfl, _⟩ := hstep
    exact ih.trans ⟨rfl, rfl, rfl, rfl⟩

theorem sameQueues_admitSample (r : DataReader T) (now : Time) (raw : RawIngestSample)
    (sample : T) : SameQueues r (admitSample cfg r now raw sample).1 := by
  rcases admit_cases cfg r now raw sample with
    ⟨_, heq⟩ | ⟨t, handle, n, r₁, inCache, _, hhist, hend⟩
  · rw [heq]
    exact .refl r
  · have hevicts := (evicts_applyHistory cfg { r with instances := t } handle n).sameQueues
    rw [hhist] at hevicts
    have hr₁ : SameQueues r r₁ := ⟨hevicts.1, hevicts.2, hevicts.3, hevicts.4⟩
    rcases hend with ⟨_, _, _, heq⟩ | ⟨r₂, s, hlim, _, heq⟩
    · rw [heq]
      exact hr₁.trans ⟨rfl, rfl, rfl, rfl⟩
    · rw [heq]
      exact (hr₁.trans (applyLimits_none cfg hlim).sameQueues).trans ⟨rfl, rfl, rfl, rfl⟩

theorem sameQueues_ingestAliveFiltered (r : DataReader T) (now : Time) (raw : RawIngestSample)
    (timeFilter : Bool) : SameQueues r (ingestAliveFiltered cfg r now raw timeFilter).1 := by
  rcases ingestAliveFiltered_cases cfg r now raw timeFilter with
    ⟨_, heq, _⟩ | ⟨sample, _, _, heq | ⟨hold, ⟨reason, heq⟩ | heq⟩⟩
  · rw [heq]
    exact .refl r
  · rw [heq]
    exact sameQueues_passesExclusiveOwnership cfg r sample _ _
  · rw [heq]
    exact (sameQueues_passesExclusiveOwnership cfg r sample _ _).trans ⟨rfl, rfl, rfl, rfl⟩
  · rw [heq]
    refine SameQueues.trans ?_ (sameQueues_admitSample cfg _ now raw sample)
    exact (sameQueues_passesExclusiveOwnership cfg r sample _ _).trans ⟨rfl, rfl, rfl, rfl⟩

theorem sameQueues_pushLifecycleFrom (r : DataReader T) (keyhash : KeyHash)
    (keyHolder : Option Rtps.Octets) (kind : InstanceStateKind) (writer : Option WriterGuid)
    (sourceTimestamp : Option Time) :
    SameQueues r (pushLifecycleFrom cfg r keyhash keyHolder kind writer sourceTimestamp) := by
  unfold pushLifecycleFrom
  simp only
  split
  · exact .refl r
  · split
    · exact ⟨rfl, rfl, rfl, rfl⟩
    · split <;> exact ⟨rfl, rfl, rfl, rfl⟩

theorem sameQueues_ingestLifecycle (r : DataReader T) (m : LifecycleMarker) :
    SameQueues r (ingestLifecycle cfg r m) := by
  rcases ingestLifecycle_cases cfg r m with ⟨_, h⟩ | ⟨t, _, h⟩
  · rw [h]
    exact .refl r
  · rw [h]
    have ht : SameQueues r { r with instances := t } := ⟨rfl, rfl, rfl, rfl⟩
    exact ht.trans (sameQueues_pushLifecycleFrom cfg _ _ _ _ _ _)

theorem sameQueues_ingestRun (now : Time) (r : DataReader T) (entries : List StagedIngest) :
    SameQueues r (ingestRun cfg now r entries).1 := by
  induction entries generalizing r with
  | nil => exact .refl r
  | cons entry rest ih =>
    cases entry with
    | lifecycle m => exact (sameQueues_ingestLifecycle cfg r m).trans (ih _)
    | alive raw =>
      have hone := sameQueues_ingestAliveFiltered cfg r now raw true
      unfold ingestRun
      split
      · next heq => rwa [← ingestAlive, heq] at hone
      · next heq => rwa [← ingestAlive, heq] at hone
      · next heq => exact SameQueues.trans (by rwa [← ingestAlive, heq] at hone) (ih _)

end ZeroDds.Dcps.DataReader
