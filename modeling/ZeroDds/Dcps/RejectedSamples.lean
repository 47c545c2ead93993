/-
Samples that are not admitted.
-/
import ZeroDds.Dcps.IngestSteps
import ZeroDds.Dcps.Instances

namespace ZeroDds.Dcps

open InstanceState InstanceTracker

structure InstanceView where
  kind : InstanceStateKind
  disposedGenerationCount : Int
  noWritersGenerationCount : Int
  readerViewNew : Bool
  writers : SortedSet WriterGuid
  deriving DecidableEq

def InstanceState.view (s : InstanceState) : InstanceView where
  kind := s.kind
  disposedGenerationCount := s.disposedGenerationCount
  noWritersGenerationCount := s.noWritersGenerationCount
  readerViewNew := s.readerViewNew
  writers := s.writers

namespace InstanceState

variable (s : InstanceState) (keyHolder : Option Rtps.Octets) (timestamp : Option Time)

@[simp] theorem view_withHolder : (s.withHolder keyHolder).view = s.view := by
  unfold withHolder
  split <;> rfl

@[simp] theorem view_stamped : (s.stamped timestamp).view = s.view := by
  unfold stamped
  split <;> rfl

@[simp] theorem view_counted : s.counted.view = s.view := rfl

@[simp] theorem view_drained (n : Nat) : (s.drained n).view = s.view := rfl

@[simp] theorem view_ownedBy (writer : WriterGuid) (strength : Int) (now : Time) :
    (s.ownedBy writer strength now).view = s.view := rfl

theorem revived_of_alive {s : InstanceState} (h : s.kind = .alive) : s.revived = s := by
  simp [revived, h]

@[simp] theorem kind_revived : s.revived.kind = .alive := by
  unfold revived
  split
  · assumption
  · rfl
  · rfl

@[simp] theorem kind_withHolder : (s.withHolder keyHolder).kind = s.kind := by
  unfold withHolder
  split <;> rfl

theorem kind_noteObserved : (s.noteObserved keyHolder timestamp).kind = .alive := by
  have h : (s.noteObserved keyHolder timestamp).view.kind = .alive := by
    simp only [noteObserved, view_counted, view_stamped]
    exact kind_revived _
  exact h

theorem view_noteObserved_eq_iff :
    (s.noteObserved keyHolder timestamp).view = s.view ↔ s.kind = .alive := by
  constructor
  · intro h
    have hkind := congrArg InstanceView.kind h
    exact hkind.symm.trans (kind_noteObserved s keyHolder timestamp)
  · intro h
    have hrevived : (s.withHolder keyHolder).revived = s.withHolder keyHolder :=
      revived_of_alive (by rw [kind_withHolder, h])
    rw [noteObserved, hrevived]
    simp

end InstanceState

namespace InstanceTracker

variable (t : InstanceTracker)

def aliveAt (kh : KeyHash) : Bool := (t.stateOf kh).any fun s => s.kind = .alive

variable {kh : KeyHash}

theorem aliveAt_iff {t : InstanceTracker} :
    t.aliveAt kh = true ↔ ∃ s, t.stateOf kh = some s ∧ s.kind = .alive := by
  simp [aliveAt, Option.any_eq_true_iff_get]
  constructor
  · rintro ⟨h, hk⟩
    obtain ⟨s, hs⟩ := Option.isSome_iff_exists.mp h
    exact ⟨s, hs, by simpa [hs] using hk⟩
  · rintro ⟨s, hs, hk⟩
    exact ⟨by simp [hs], by simpa [hs] using hk⟩

def SameInstances (t t' : InstanceTracker) : Prop := SameUnder InstanceState.view t t'

variable {t}

theorem SameInstances.refl (t : InstanceTracker) : SameInstances t t := SameUnder.refl t

variable {t₁ : InstanceTracker}

theorem SameInstances.trans {t₂ : InstanceTracker} (h : SameInstances t t₁)
    (h' : SameInstances t₁ t₂) : SameInstances t t₂ :=
  SameUnder.trans h h'

theorem SameInstances.symm (h : SameInstances t t₁) : SameInstances t₁ t :=
  SameUnder.symm h

theorem SameInstances.drainSamples (h : InstanceHandle) (n : Nat) :
    SameInstances t (t.drainSamples h n) :=
  SameUnder.modifyHandle fun s => s.view_drained n

theorem SameInstances.accept (kh : KeyHash) (writer : WriterGuid) (strength : Int) (now : Time)
    (deadlineNanos : Option Nat) :
    SameInstances t (t.acceptUnderExclusiveOwnership kh writer strength now deadlineNanos).1 := by
  unfold acceptUnderExclusiveOwnership
  split
  · exact .refl t
  · split
    · exact SameUnder.modifyKey fun s => s.view_ownedBy writer strength now
    · exact .refl t

theorem exists_stateOf_accept {s : InstanceState} (h : t.stateOf kh = some s)
    (writer : WriterGuid) (strength : Int) (now : Time) (deadlineNanos : Option Nat) :
    ∃ s', (t.acceptUnderExclusiveOwnership kh writer strength now deadlineNanos).1.stateOf kh =
        some s' ∧ s'.kind = s.kind ∧ s'.handle = s.handle ∧
      s'.samplesInCache = s.samplesInCache := by
  simp only [acceptUnderExclusiveOwnership, h]
  split
  · refine ⟨s.ownedBy writer strength now, ?_, rfl, rfl, rfl⟩
    rw [stateOf_modifyKey, if_pos rfl, h]
    rfl
  · exact ⟨s, h, rfl, rfl, rfl⟩

theorem sameInstances_observed_iff {t' : InstanceTracker} {first holder : Option Rtps.Octets}
    {timestamp : Option Time} (h : ∀ kh', t'.stateOf kh' =
      if kh' = kh then some ((t.entry kh first).1.noteObserved holder timestamp)
      else t.stateOf kh') : SameInstances t t' ↔ t.aliveAt kh = true := by
  rw [aliveAt_iff]
  cases hs : t.stateOf kh with
  | none =>
    refine iff_of_false ?_ (by simp)
    intro hsame
    have hkh := hsame kh
    rw [h kh, if_pos rfl, hs] at hkh
    cases hkh
  | some s =>
    have hentry : (t.entry kh first).1 = s := by simp [entry, hs]
    have hview := s.view_noteObserved_eq_iff holder timestamp
    constructor
    · intro hsame
      have hkh := hsame kh
      rw [h kh, if_pos rfl, hs, hentry] at hkh
      exact ⟨s, rfl, hview.mp (Option.some.inj hkh)⟩
    · rintro ⟨_, heq, halive⟩ kh'
      cases heq
      rw [h kh']
      split
      · next hk =>
        rw [hk, hs, hentry]
        exact congrArg some (hview.mpr halive)
      · rfl

end InstanceTracker

namespace DataReader

variable {T : Type} (cfg : ReaderConfig T) {α : Type} {p : α → Bool} {l : List α}

theorem removeFirst_eq_none : removeFirst p l = none ↔ ∀ a ∈ l, p a = false := by
  induction l with
  | nil => simp [removeFirst]
  | cons a rest ih =>
    simp only [removeFirst, List.forall_mem_cons]
    cases hp : p a with
    | true => simp
    | false => simp [← ih]

theorem length_removeFirst {rest : List α} {a : α} (h : removeFirst p l = some (a, rest)) :
    rest.length + 1 = l.length := by
  induction l generalizing rest with
  | nil => cases h
  | cons b l ih =>
    simp only [removeFirst] at h
    split at h
    · cases h
      rfl
    · obtain ⟨⟨c, left⟩, hleft, heq⟩ := Option.map_eq_some_iff.mp h
      cases heq
      simp [ih hleft]

variable {r : DataReader T} {handle : InstanceHandle} {r' : DataReader T}

theorem evictOldestOfInstance_eq_none :
    r.evictOldestOfInstance handle = none ↔ ∀ s ∈ r.cache, s.info.instanceHandle ≠ handle := by
  simp [evictOldestOfInstance, removeFirst_eq_none]

theorem length_evictOldestOfInstance (h : r.evictOldestOfInstance handle = some r') :
    r'.cache.length + 1 = r.cache.length := by
  obtain ⟨⟨a, rest⟩, hrest, rfl⟩ := Option.map_eq_some_iff.mp h
  exact length_removeFirst hrest

theorem length_evictDownTo_le (handle : InstanceHandle) (depth : Nat) (r : DataReader T)
    (inCache : Nat) : (evictDownTo handle depth r inCache).1.cache.length ≤ r.cache.length := by
  induction inCache generalizing r with
  | zero => exact le_rfl
  | succ inCache ih =>
    unfold evictDownTo
    split
    · split
      · exact le_rfl
      · next r' h =>
        have hlength := length_evictOldestOfInstance h
        have := ih r'
        omega
    · exact le_rfl

theorem evictDownTo_cache_eq_iff (handle : InstanceHandle) (depth : Nat) (r : DataReader T)
    (inCache : Nat) :
    (evictDownTo handle depth r inCache).1.cache = r.cache ↔
      inCache ≤ depth ∨ ∀ s ∈ r.cache, s.info.instanceHandle ≠ handle := by
  rw [← evictOldestOfInstance_eq_none]
  cases inCache with
  | zero => simp [evictDownTo]
  | succ inCache =>
    unfold evictDownTo
    by_cases hdepth : depth < inCache + 1
    · rw [if_pos hdepth, or_iff_right (by omega)]
      cases hevict : r.evictOldestOfInstance handle with
      | none => simp
      | some r' =>
        have hlength := length_evictOldestOfInstance hevict
        have hle := length_evictDownTo_le handle depth r' inCache
        refine iff_of_false ?_ (by simp)
        intro heq
        rw [heq] at hle
        omega
    · rw [if_neg hdepth]
      exact iff_of_true rfl (Or.inl (by omega))

theorem Evicts.sameInstances (h : Evicts r r') :
    InstanceTracker.SameInstances r.instances r'.instances := by
  induction h with
  | refl => exact .refl _
  | tail _ hstep ih =>
    obtain ⟨_, s, _, t, _, rfl, ht⟩ := hstep
    rcases ht with rfl | ⟨_, rfl⟩
    · exact ih.trans (.drainSamples _ _)
    · exact ih

def KeepsHistory (r : DataReader T) (handle : InstanceHandle) (inCache : Nat) : Prop :=
  cfg.qos.historyKind = .keepLast →
    inCache ≤ cfg.qos.historyDepth.toNat ∨ ∀ s ∈ r.cache, s.info.instanceHandle ≠ handle

theorem applyHistory_cache_eq_iff (r : DataReader T) (handle : InstanceHandle) (inCache : Nat) :
    (applyHistory cfg r handle inCache).1.cache = r.cache ↔
      KeepsHistory cfg r handle inCache := by
  unfold applyHistory KeepsHistory
  cases cfg.qos.historyKind with
  | keepLast => simpa using evictDownTo_cache_eq_iff handle _ r inCache
  | keepAll => simp

def LeavesInstances (r r' : DataReader T) : Prop :=
  InstanceTracker.SameInstances r.instances r'.instances ∧ r'.cache = r.cache

theorem LeavesInstances.refl (r : DataReader T) : LeavesInstances r r := ⟨.refl _, rfl⟩

/-- The count of an instance with a new sample; the ownership check counts it once more. -/
def countWith (s : InstanceState) : Nat :=
  satIncU32 (if cfg.qos.exclusiveOwnership then satIncU32 s.samplesInCache else s.samplesInCache)

def instanceStateOf (r : DataReader T) (raw : RawIngestSample) : Option InstanceState :=
  match cfg.codec.decode raw.bytes.octets raw.representation raw.bigEndian with
  | .error _ => none
  | .ok sample => r.instances.stateOf (cfg.codec.instanceKeyHash sample)

def InstanceAlive (r : DataReader T) (raw : RawIngestSample) : Prop :=
  ∃ s, instanceStateOf cfg r raw = some s ∧ s.kind = .alive

def Harmless (r : DataReader T) (raw : RawIngestSample) : Admission → Prop
  | .dropped .expired | .dropped .discarded | .dropped .contentFilter | .failed _ => True
  | .dropped .ownership | .dropped .timeBasedFilter | .dropped .destinationOrder
  | .dropped .instancesLimit | .refused .instancesLimit =>
    cfg.qos.exclusiveOwnership = true → InstanceAlive cfg r raw
  | .refused .samplesPerInstanceLimit | .refused .samplesLimit =>
    ∃ s, instanceStateOf cfg r raw = some s ∧ s.kind = .alive ∧
      KeepsHistory cfg r s.handle (countWith cfg s)
  | .admitted => False

section

variable (r : DataReader T)

theorem passesExclusiveOwnership_cases (sample : T) (writer : WriterGuid) (strength : Int) :
    (passesExclusiveOwnership cfg r sample writer strength).1.cache = r.cache ∧
    (cfg.qos.exclusiveOwnership = false ∧
      (passesExclusiveOwnership cfg r sample writer strength).1 = r ∨
    cfg.qos.exclusiveOwnership = true ∧
      (InstanceTracker.SameInstances r.instances
          (passesExclusiveOwnership cfg r sample writer strength).1.instances ↔
        r.instances.aliveAt (cfg.codec.instanceKeyHash sample) = true) ∧
      ∃ s, (passesExclusiveOwnership cfg r sample writer strength).1.instances.stateOf
          (cfg.codec.instanceKeyHash sample) = some s ∧ s.kind = .alive ∧
        ∀ s₀, r.instances.stateOf (cfg.codec.instanceKeyHash sample) = some s₀ →
          s.handle = s₀.handle ∧ s.samplesInCache = satIncU32 s₀.samplesInCache) := by
  unfold passesExclusiveOwnership
  cases hx : cfg.qos.exclusiveOwnership with
  | false => exact ⟨rfl, Or.inl ⟨rfl, rfl⟩⟩
  | true =>
    refine ⟨rfl, Or.inr ⟨rfl, ?_, ?_⟩⟩
    · have hobs := sameInstances_observed_iff
        (stateOf_observeSampleWithHolder r.instances
          (cfg.codec.instanceKeyHash sample) · (some (cfg.codec.keyHolder sample)) none)
      rw [← hobs]
      exact ⟨fun h => h.trans (InstanceTracker.SameInstances.accept _ _ _ _ _).symm,
        fun h => h.trans (.accept _ _ _ _ _)⟩
    · have hkh := stateOf_observeSampleWithHolder r.instances
        (cfg.codec.instanceKeyHash sample) (cfg.codec.instanceKeyHash sample)
        (some (cfg.codec.keyHolder sample)) none
      rw [if_pos rfl] at hkh
      obtain ⟨s, hs, hkind, hhandle, hsamples⟩ := exists_stateOf_accept hkh writer
        strength (r.wallNow cfg).1 cfg.deadlineNanos
      refine ⟨s, hs, hkind.trans (kind_noteObserved _ _ _), fun s₀ hs₀ => ?_⟩
      have hentry : (r.instances.entry (cfg.codec.instanceKeyHash sample)
          (some (cfg.codec.keyHolder sample))).1 = s₀ := by
        simp [InstanceTracker.entry, hs₀]
      rw [hentry] at hhandle hsamples
      exact ⟨hhandle.trans (handle_noteObserved _ _ _),
        hsamples.trans (samplesInCache_noteObserved _ _ _)⟩

@[simp] theorem supersede_instances (kh : KeyHash) :
    (supersede cfg r kh).instances = r.instances := by
  unfold supersede
  split <;> rfl

@[simp] theorem supersede_cache (kh : KeyHash) :
    (supersede cfg r kh).cache = r.cache := by
  unfold supersede
  split <;> rfl

@[simp] theorem holdFiltered_instances (now : Time) (raw : RawIngestSample)
    (kh : KeyHash) : (holdFiltered cfg r now raw kh).instances = r.instances := by
  unfold holdFiltered
  split <;> rfl

@[simp] theorem holdFiltered_cache (now : Time) (raw : RawIngestSample)
    (kh : KeyHash) : (holdFiltered cfg r now raw kh).cache = r.cache := by
  unfold holdFiltered
  split <;> rfl

end

variable {r₂ : DataReader T} {now : Time} {raw : RawIngestSample} {sample : T}
  {r₁ : DataReader T} {reason : RefusalReason}

theorem leavesInstances_congr (hinst : r₂.instances = r₁.instances) (hcache : r₂.cache = r₁.cache) :
    LeavesInstances r r₂ ↔ LeavesInstances r r₁ := by
  rw [LeavesInstances, LeavesInstances, hinst, hcache]

theorem passesExclusiveOwnership_leaves_iff (r : DataReader T) (sample : T) (writer : WriterGuid)
    (strength : Int) :
    LeavesInstances r (passesExclusiveOwnership cfg r sample writer strength).1 ↔
      (cfg.qos.exclusiveOwnership = true →
        r.instances.aliveAt (cfg.codec.instanceKeyHash sample) = true) := by
  obtain ⟨hcache, ⟨hx, heq⟩ | ⟨hx, hsame, _⟩⟩ :=
    passesExclusiveOwnership_cases cfg r sample writer strength
  · rw [heq, hx]
    exact iff_of_true (.refl r) nofun
  · rw [LeavesInstances, hsame, hx]
    simp [hcache]

theorem admit_refused (hreason : reason ≠ .instancesLimit)
    (h : admitSample cfg r now raw sample = (r₂, .refused reason)) :
    (InstanceTracker.SameInstances r.instances r₂.instances ↔
        r.instances.aliveAt (cfg.codec.instanceKeyHash sample) = true) ∧
      ∀ s, r.instances.stateOf (cfg.codec.instanceKeyHash sample) = some s →
        (r₂.cache = r.cache ↔ KeepsHistory cfg r s.handle (satIncU32 s.samplesInCache)) := by
  rcases admit_cases cfg r now raw sample with
    ⟨_, heq⟩ | ⟨t, handle, n, r₁, inCache, hobs, hhist, ⟨_, _, _, heq⟩ | ⟨_, _, _, _, heq⟩⟩
  · rw [h] at heq
    have hverdict := (Prod.mk.inj heq).2
    split at hverdict
    · cases hverdict
      exact absurd rfl hreason
    · cases hverdict
  · rw [h] at heq
    obtain ⟨rfl, _⟩ := Prod.mk.inj heq
    obtain ⟨holder, s₁, hs₁, hhandle, hn, hstate⟩ :=
      observeAdmitted_eq_some _ hobs
    have hevicts := evicts_applyHistory cfg { r with instances := t } handle n
    have hcache := applyHistory_cache_eq_iff cfg { r with instances := t } handle n
    rw [hhist] at hevicts hcache
    constructor
    · rw [← sameInstances_observed_iff
        (fun kh' => (hstate kh').trans (by rw [hs₁]))]
      have hafter : InstanceTracker.SameInstances t (r₁.uncounted handle).instances :=
        hevicts.sameInstances.trans (.drainSamples _ _)
      exact ⟨fun hsame => hsame.trans hafter.symm, fun hsame => hsame.trans hafter⟩
    · intro s hs
      have hentry : (r.instances.entry (cfg.codec.instanceKeyHash sample) none).1 = s := by
        simp [InstanceTracker.entry, hs]
      have hfirst : handle = s.handle := by
        rw [hhandle, hs₁, hentry, handle_noteObserved]
      have hcount : n = satIncU32 s.samplesInCache := by
        rw [hn, hs₁, hentry, samplesInCache_noteObserved]
      rw [← hfirst, ← hcount]
      exact hcache
  · rw [h] at heq
    cases (Prod.mk.inj heq).2

theorem admit_instancesLimit {verdict : Admission}
    (hverdict : verdict = .dropped .instancesLimit ∨ verdict = .refused .instancesLimit)
    (h : admitSample cfg r now raw sample = (r₂, verdict)) : r₂ = r := by
  rcases admit_cases cfg r now raw sample with
    ⟨_, heq⟩ | ⟨_, _, _, _, _, _, _, ⟨reason, hreason, _, heq⟩ | ⟨_, _, _, _, heq⟩⟩
  · rw [h] at heq
    exact (Prod.mk.inj heq).1
  · rw [h] at heq
    have hv := (Prod.mk.inj heq).2
    rcases hverdict with rfl | rfl
    · cases hv
    · cases hv
      exact absurd rfl hreason
  · rw [h] at heq
    rcases hverdict with rfl | rfl <;> cases (Prod.mk.inj heq).2

theorem admit_verdict (r : DataReader T) (now : Time) (raw : RawIngestSample) (sample : T) :
    (admitSample cfg r now raw sample).2 = .admitted ∨
      (admitSample cfg r now raw sample).2 = .dropped .instancesLimit ∨
      ∃ reason, (admitSample cfg r now raw sample).2 = .refused reason := by
  rcases admit_cases cfg r now raw sample with
    ⟨_, heq⟩ | ⟨_, _, _, _, _, _, _, ⟨reason, _, _, heq⟩ | ⟨_, _, _, _, heq⟩⟩
  · rw [heq]
    cases cfg.qos.reliable
    · exact Or.inr (Or.inl rfl)
    · exact Or.inr (Or.inr ⟨_, rfl⟩)
  · rw [heq]
    exact Or.inr (Or.inr ⟨_, rfl⟩)
  · rw [heq]
    exact Or.inl rfl

theorem instanceStateOf_of_decode
    (h : cfg.codec.decode raw.bytes.octets raw.representation raw.bigEndian = .ok sample) :
    instanceStateOf cfg r raw = r.instances.stateOf (cfg.codec.instanceKeyHash sample) := by
  simp [instanceStateOf, h]

theorem refused_leaves_iff (hreason : reason ≠ .instancesLimit) (hinst : r₁.instances =
      (passesExclusiveOwnership cfg r sample raw.writerGuid raw.writerStrength).1.instances)
    (hcache : r₁.cache = r.cache) (h : admitSample cfg r₁ now raw sample = (r₂, .refused reason)) :
    LeavesInstances r r₂ ↔
      ∃ s, r.instances.stateOf (cfg.codec.instanceKeyHash sample) = some s ∧ s.kind = .alive ∧
        KeepsHistory cfg r s.handle (countWith cfg s) := by
  obtain ⟨hsame, hkeeps⟩ := admit_refused cfg hreason h
  have hhistory : ∀ handle n, KeepsHistory cfg r₁ handle n ↔ KeepsHistory cfg r handle n := by
    intro handle n
    rw [KeepsHistory, KeepsHistory, hcache]
  rw [LeavesInstances, ← hcache]
  obtain ⟨_, ⟨hx, heq⟩ | ⟨hx, hobserved, s₁, hs₁, hkind₁, hcount⟩⟩ :=
    passesExclusiveOwnership_cases cfg r sample raw.writerGuid raw.writerStrength
  · rw [heq] at hinst
    rw [hinst] at hsame hkeeps
    rw [hsame, aliveAt_iff]
    constructor
    · rintro ⟨⟨s, hs, halive⟩, hc⟩
      exact ⟨s, hs, halive, (hhistory _ _).mp (by simpa [countWith, hx] using (hkeeps s hs).mp hc)⟩
    · rintro ⟨s, hs, halive, hk⟩
      exact ⟨⟨s, hs, halive⟩,
        (hkeeps s hs).mpr (by simpa [countWith, hx] using (hhistory _ _).mpr hk)⟩
  · rw [hinst] at hsame hkeeps
    have hafter := hsame.mpr (aliveAt_iff.mpr ⟨s₁, hs₁, hkind₁⟩)
    have hboth : InstanceTracker.SameInstances r.instances r₂.instances ↔
        r.instances.aliveAt (cfg.codec.instanceKeyHash sample) = true := by
      rw [← hobserved]
      exact ⟨fun hs => hs.trans hafter.symm, fun hs => hs.trans hafter⟩
    rw [hboth, aliveAt_iff]
    constructor
    · rintro ⟨⟨s, hs, halive⟩, hc⟩
      obtain ⟨hhandle, hsamples⟩ := hcount s hs
      have hk := (hhistory _ _).mp ((hkeeps s₁ hs₁).mp hc)
      rw [hhandle, hsamples] at hk
      exact ⟨s, hs, halive, by simpa [countWith, hx] using hk⟩
    · rintro ⟨s, hs, halive, hk⟩
      obtain ⟨hhandle, hsamples⟩ := hcount s hs
      refine ⟨⟨s, hs, halive⟩, (hkeeps s₁ hs₁).mpr ((hhistory _ _).mpr ?_)⟩
      rw [hhandle, hsamples]
      simpa [countWith, hx] using hk

/-- Before the ownership check nothing changes.  Under EXCLUSIVE ownership every later
rejection has observed the sample; a RELIABLE refusal by a sample limit has observed it
under either ownership, and HISTORY has made its room. -/
theorem rejected_sample_leaves_instances_iff (r : DataReader T) (now : Time)
    (raw : RawIngestSample) (h : (ingestAlive cfg r now raw).2 ≠ .admitted) :
    LeavesInstances r (ingestAlive cfg r now raw).1 ↔
      Harmless cfg r raw (ingestAlive cfg r now raw).2 := by
  unfold ingestAlive ingestAliveFiltered at h ⊢
  split
  · exact iff_of_true (.refl r) trivial
  · next hexpired =>
    rw [if_neg hexpired] at h
    split
    · next e hdecode =>
      cases e.isDiscarded <;> exact iff_of_true (.refl r) trivial
    · next sample hdecode =>
      simp only [hdecode] at h
      split
      · exact iff_of_true (.refl r) trivial
      · next hpass =>
        rw [if_neg hpass] at h
        have halive : InstanceAlive cfg r raw ↔
            r.instances.aliveAt (cfg.codec.instanceKeyHash sample) = true := by
          rw [aliveAt_iff, InstanceAlive, instanceStateOf_of_decode cfg hdecode]
        have hown := passesExclusiveOwnership_leaves_iff cfg r sample raw.writerGuid
          raw.writerStrength
        have hcache := (passesExclusiveOwnership_cases cfg r sample raw.writerGuid
          raw.writerStrength).1
        rw [← halive] at hown
        split
        · next r₁ heq =>
          rw [heq] at hown
          exact hown
        · next r₁ heq =>
          rw [heq] at hown hcache
          simp only [heq, ingestFiltered] at h ⊢
          split
          · exact (leavesInstances_congr (holdFiltered_instances cfg r₁ now raw _)
              (holdFiltered_cache cfg r₁ now raw _)).trans hown
          · next htime =>
            rw [if_neg htime] at h
            have hsuper := leavesInstances_congr (r := r)
              (supersede_instances cfg r₁ (cfg.codec.instanceKeyHash sample))
              (supersede_cache cfg r₁ (cfg.codec.instanceKeyHash sample))
            split
            · exact hsuper.trans hown
            · next horder =>
              rw [if_neg horder] at h
              rcases hadmitted :
                  admitSample cfg (supersede cfg r₁ (cfg.codec.instanceKeyHash sample)) now
                raw sample with ⟨r₂, verdict⟩
              rw [hadmitted] at h
              have hverdict := admit_verdict cfg
                (supersede cfg r₁ (cfg.codec.instanceKeyHash sample)) now raw sample
              rw [hadmitted] at hverdict
              rcases hverdict with hv | hv | ⟨reason, hv⟩
              · exact absurd hv h
              · obtain rfl : verdict = _ := hv
                rw [admit_instancesLimit cfg (Or.inl rfl) hadmitted]
                exact hsuper.trans hown
              · obtain rfl : verdict = _ := hv
                have hlimits : reason ≠ .instancesLimit →
                    (LeavesInstances r r₂ ↔ ∃ s, instanceStateOf cfg r raw = some s ∧
                      s.kind = .alive ∧ KeepsHistory cfg r s.handle (countWith cfg s)) := by
                  intro hreason
                  rw [instanceStateOf_of_decode cfg hdecode]
                  exact refused_leaves_iff cfg hreason (by rw [heq, supersede_instances])
                    (by rw [supersede_cache, hcache]) hadmitted
                cases reason with
                | instancesLimit =>
                  rw [admit_instancesLimit cfg (Or.inr rfl) hadmitted]
                  exact hsuper.trans hown
                | samplesPerInstanceLimit => exact hlimits nofun
                | samplesLimit => exact hlimits nofun

def disposedByOwner : DataReader (UInt8 × UInt8) :=
  (ingestPending (octetConfig { reliableQos with exclusiveOwnership := true })
    (octetReader [octetSample 1 [1, 7] 1, octetMarker 1 1 [1] .notAliveDisposed])).1

/-- The sample of a writer that does not own the instance is rejected and brings the instance
back to ALIVE. -/
theorem rejected_sample_revives_instance :
    (ingestAlive (octetConfig { reliableQos with exclusiveOwnership := true }) disposedByOwner
        ⟨9, 0⟩ (octetRaw 2 [1, 8] 2)).2 = .dropped .ownership ∧
      ¬ LeavesInstances disposedByOwner
        (ingestAlive (octetConfig { reliableQos with exclusiveOwnership := true }) disposedByOwner
          ⟨9, 0⟩ (octetRaw 2 [1, 8] 2)).1 := by
  refine ⟨by decide +kernel, fun h => ?_⟩
  have hkey := h.1 (octetKey 1)
  revert hkey
  decide +kernel

def fullReader : DataReader (UInt8 × UInt8) :=
  (ingestPending (octetConfig { reliableQos with maxSamples := 1 })
    (octetReader [octetSample 1 [1, 7] 1])).1

/-- There a refused sample leaves everything as it was. -/
theorem refused_sample_leaves_alive_instance :
    (ingestAlive (octetConfig { reliableQos with maxSamples := 1 }) fullReader ⟨9, 0⟩
        (octetRaw 1 [1, 8] 2)).2 = .refused .samplesLimit ∧
      LeavesInstances fullReader
        (ingestAlive (octetConfig { reliableQos with maxSamples := 1 }) fullReader ⟨9, 0⟩
          (octetRaw 1 [1, 8] 2)).1 := by
  have hverdict : (ingestAlive (octetConfig { reliableQos with maxSamples := 1 }) fullReader
      ⟨9, 0⟩ (octetRaw 1 [1, 8] 2)).2 = .refused .samplesLimit := by decide +kernel
  refine ⟨hverdict, (rejected_sample_leaves_instances_iff _ _ _ _ (by nofun)).mpr ?_⟩
  have hstate : (instanceStateOf (octetConfig { reliableQos with maxSamples := 1 }) fullReader
      (octetRaw 1 [1, 8] 2)).map (·.kind) = some .alive := by decide +kernel
  obtain ⟨s, hs, hkind⟩ := Option.map_eq_some_iff.mp hstate
  exact ⟨s, hs, hkind, nofun⟩

end DataReader
end ZeroDds.Dcps
