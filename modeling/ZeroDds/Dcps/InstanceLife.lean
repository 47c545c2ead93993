/-
What steps do to the life of an instance.
-/
import ZeroDds.Dcps.IngestSteps
import ZeroDds.Dcps.Instances
import ZeroDds.Dcps.Steps

namespace ZeroDds.Dcps

open InstanceState InstanceTracker

namespace InstanceState

def life (s : InstanceState) : InstanceHandle × InstanceStateKind × SortedSet WriterGuid :=
  (s.handle, s.kind, s.writers)

variable (s : InstanceState)

@[simp] theorem life_withHolder (keyHolder : Option Rtps.Octets) :
    (s.withHolder keyHolder).life = s.life := by
  unfold withHolder
  split <;> rfl

@[simp] theorem life_stamped (timestamp : Option Time) : (s.stamped timestamp).life = s.life := by
  unfold stamped
  split <;> rfl

@[simp] theorem life_counted : s.counted.life = s.life := rfl

theorem life_revived : s.revived.life = (s.handle, .alive, s.writers) := by
  unfold revived
  split
  · next h => rw [life, h]
  · rfl
  · rfl

theorem life_noteObserved (keyHolder : Option Rtps.Octets) (timestamp : Option Time) :
    (s.noteObserved keyHolder timestamp).life = (s.handle, .alive, s.writers) := by
  have h := Prod.mk.inj (s.life_withHolder keyHolder)
  have h' := Prod.mk.inj h.2
  simp [noteObserved, life_counted, life_stamped, life_revived, h.1, h'.2]

def kindWith (kind : InstanceStateKind) (ws : SortedSet WriterGuid) : InstanceStateKind :=
  if ws.isEmpty ∧ kind = .alive then .notAliveNoWriters else kind

theorem life_writerUnregistered (writer : WriterGuid) (timestamp : Option Time) :
    (s.writerUnregistered writer timestamp).life =
      (s.handle, kindWith s.kind (s.writers.erase writer), s.writers.erase writer) := by
  unfold writerUnregistered
  rw [life_stamped]
  by_cases hgone : (s.writers.erase writer).isEmpty = true ∧ s.kind = .alive
  · simp only [life, kindWith, if_pos hgone]
  · simp only [life, kindWith, if_neg hgone]

theorem life_writerDropped (writer : WriterGuid) (timestamp : Option Time)
    (h : s.kind = .alive → s.writers.isEmpty = false) :
    (s.writerDropped writer timestamp).life =
      (s.handle, kindWith s.kind (s.writers.erase writer), s.writers.erase writer) := by
  have hloses : s.LosesLastWriter writer ↔
      (s.writers.erase writer).isEmpty = true ∧ s.kind = .alive := by
    constructor
    · exact fun hl => hl.2
    · intro hgone
      refine ⟨?_, hgone⟩
      by_contra hnot
      have hempty : s.writers.isEmpty = true := by
        refine SortedMap.isEmpty_iff.mpr fun k => ?_
        have hk := SortedMap.isEmpty_iff.mp hgone.1 k
        rw [SortedMap.get?_erase] at hk
        by_cases heq : k = writer
        · rw [heq]
          simpa [SortedMap.contains] using hnot
        · rwa [if_neg heq] at hk
      rw [h hgone.2] at hempty
      cases hempty
  unfold writerDropped
  by_cases hgone : (s.writers.erase writer).isEmpty = true ∧ s.kind = .alive
  · simp only [if_pos (hloses.mpr hgone), life, kindWith, if_pos hgone]
    split <;> rfl
  · simp only [if_neg (hloses.not.mpr hgone), life, kindWith, if_neg hgone]

end InstanceState

namespace InstanceTracker

variable {t t₁ t₂ : InstanceTracker}

/-! ### Steps that leave every life alone -/

structure SameLives (t t' : InstanceTracker) : Prop where
  lives : SameUnder InstanceState.life t t'
  handles : t'.handleToKeyhash = t.handleToKeyhash
  nextHandle : t'.nextHandle = t.nextHandle
  keyHandles : t'.keyHandles = t.keyHandles

namespace SameLives

theorem refl (t : InstanceTracker) : SameLives t t := ⟨.refl t, rfl, rfl, rfl⟩

theorem trans (h : SameLives t t₁) (h' : SameLives t₁ t₂) : SameLives t t₂ :=
  ⟨h.lives.trans h'.lives, h'.handles.trans h.handles, h'.nextHandle.trans h.nextHandle,
    h'.keyHandles.trans h.keyHandles⟩

theorem indexed (h : SameLives t t₁) (hi : Indexed t) : Indexed t₁ :=
  hi.of_sameUnder (fun kh => by
    have hk := congrArg (Option.map Prod.fst) (h.lives kh)
    simpa [Option.map_map, Function.comp_def, InstanceState.life] using hk)
    h.handles h.nextHandle h.keyHandles

variable {f : InstanceState → InstanceState} {kh : KeyHash}

theorem modifyKey (hf : ∀ s, (f s).life = s.life) : SameLives t (t.modifyKey kh f) :=
  ⟨.modifyKey hf, rfl, rfl, rfl⟩

theorem modifyHandle {h : InstanceHandle} (hf : ∀ s, (f s).life = s.life) :
    SameLives t (t.modifyHandle h f) := by
  unfold InstanceTracker.modifyHandle
  split
  · exact .refl t
  · exact .modifyKey hf

theorem modifyAll (hf : ∀ s, (f s).life = s.life) : SameLives t (t.modifyAll f) :=
  ⟨.modifyAll hf, rfl, rfl, rfl⟩

theorem drainSamples (h : InstanceHandle) (n : Nat) : SameLives t (t.drainSamples h n) :=
  .modifyHandle fun _ => rfl

theorem markViewSeen (h : InstanceHandle) : SameLives t (t.markViewSeen h) :=
  .modifyHandle fun _ => rfl

theorem noteTaken (h : InstanceHandle) (n : Nat) : SameLives t (t.noteTaken h n) :=
  .modifyHandle fun _ => rfl

theorem foldl {α : Type} {f : InstanceTracker → α → InstanceTracker}
    (hf : ∀ t a, SameLives t (f t a)) (l : List α) (t : InstanceTracker) :
    SameLives t (l.foldl f t) := by
  induction l generalizing t with
  | nil => exact .refl t
  | cons a l ih => exact (hf t a).trans (ih (f t a))

theorem updateOwnerStrength (writer : WriterGuid) (strength : Int) :
    SameLives t (t.updateOwnerStrength writer strength) := by
  refine .modifyAll fun s => ?_
  split
  · split <;> rfl
  · rfl

theorem clearOwnerForWriter (writer : WriterGuid) : SameLives t (t.clearOwnerForWriter writer) := by
  refine .modifyAll fun s => ?_
  split <;> rfl

theorem releaseOwnerOf (kh : KeyHash) (writer : WriterGuid) :
    SameLives t (t.releaseOwnerOf kh writer) := by
  refine .modifyKey fun s => ?_
  split <;> rfl

theorem accept (kh : KeyHash) (writer : WriterGuid) (strength : Int) (now : Time)
    (deadlineNanos : Option Nat) :
    SameLives t (t.acceptUnderExclusiveOwnership kh writer strength now deadlineNanos).1 := by
  unfold acceptUnderExclusiveOwnership
  split
  · exact .refl t
  · split
    · exact .modifyKey fun _ => rfl
    · exact .refl t

theorem newHandle (h : SameLives t t₁) (kh : KeyHash) : t₁.newHandle kh = t.newHandle kh := by
  rw [InstanceTracker.newHandle, InstanceTracker.newHandle, h.keyHandles, h.nextHandle]

theorem entry_life (h : SameLives t t₁) (kh : KeyHash) :
    (t₁.entry kh none).1.life = (t.entry kh none).1.life := by
  unfold entry
  cases hs : t.stateOf kh with
  | none =>
    rw [(h.lives.stateOf_eq_none kh).mpr hs, h.newHandle]
  | some s =>
    obtain ⟨s₁, hs₁, heq⟩ := h.lives.symm.stateOf_eq_some hs
    simp [hs₁, heq]

theorem unshared (h : SameLives t t₁) (hu : Indexed.Unshared t kh) : Indexed.Unshared t₁ kh := by
  intro kh' s hs
  obtain ⟨s₀, hs₀, heq⟩ := h.lives.stateOf_eq_some hs
  have hhandle : s₀.handle = s.handle := congrArg Prod.fst heq
  rw [h.newHandle, ← hhandle]
  exact hu kh' s₀ hs₀

end SameLives

/-! ### One instance changed -/

structure ChangedAt (kh : KeyHash)
    (l : InstanceHandle × InstanceStateKind × SortedSet WriterGuid)
    (t t' : InstanceTracker) : Prop where
  indexed : Indexed t'
  others : ∀ kh', kh' ≠ kh → (t'.stateOf kh').map InstanceState.life =
    (t.stateOf kh').map InstanceState.life
  own : (t'.stateOf kh).map InstanceState.life = some l

namespace ChangedAt

variable {kh : KeyHash} {l l' : InstanceHandle × InstanceStateKind × SortedSet WriterGuid}

theorem trans_same (h : ChangedAt kh l t t₁) (h' : SameLives t₁ t₂) : ChangedAt kh l t t₂ :=
  ⟨h'.indexed h.indexed, fun kh' hne => (h'.lives kh').trans (h.others kh' hne),
    (h'.lives kh).trans h.own⟩

theorem stateOf (h : ChangedAt kh l t t₁) : ∃ s, t₁.stateOf kh = some s ∧ s.life = l :=
  Option.map_eq_some_iff.mp h.own

theorem modifyHandle (h : ChangedAt kh l t t₁) {f : InstanceState → InstanceState}
    (hhandle : ∀ s, (f s).handle = s.handle) (hf : ∀ s, s.life = l → (f s).life = l') :
    ChangedAt kh l' t (t₁.modifyHandle l.1 f) := by
  obtain ⟨s, hs, hlife⟩ := h.stateOf
  have hown : s.handle = l.1 := congrArg Prod.fst hlife
  refine ⟨h.indexed.modifyHandle hhandle, fun kh' hne => ?_, ?_⟩
  · rw [h.indexed.stateOf_modifyHandle, ← h.others kh' hne]
    cases hs' : t₁.stateOf kh' with
    | none => rfl
    | some s' =>
      have hother : s'.handle ≠ l.1 := by
        intro heq
        exact hne (h.indexed.key_unique hs' hs (heq.trans hown.symm))
      simp [hother]
  · rw [h.indexed.stateOf_modifyHandle, hs]
    simp [hown, hf s hlife]

end ChangedAt

abbrev ObservedAt (kh : KeyHash) (ws : SortedSet WriterGuid) (t t' : InstanceTracker) : Prop :=
  ChangedAt kh ((t.entry kh none).1.handle, .alive, ws) t t'

namespace ObservedAt

variable {kh : KeyHash} {ws ws' : SortedSet WriterGuid}

theorem of_put {holder : Option Rtps.Octets} {timestamp : Option Time}
    {first : Option Rtps.Octets} (hi : Indexed t₁) (h : ∀ kh', t₁.stateOf kh' =
      if kh' = kh then some ((t.entry kh first).1.noteObserved holder timestamp)
      else t.stateOf kh') : ObservedAt kh (t.entry kh none).1.writers t t₁ := by
  have hentry : (t.entry kh first).1.handle = (t.entry kh none).1.handle ∧
      (t.entry kh first).1.writers = (t.entry kh none).1.writers := by
    unfold entry
    split <;> exact ⟨rfl, rfl⟩
  refine ⟨hi, fun kh' hne => ?_, ?_⟩
  · rw [h kh', if_neg hne]
  · rw [h kh, if_pos rfl, Option.map_some, life_noteObserved, hentry.1, hentry.2]

theorem alive (h : ObservedAt kh ws t t₁) : ∃ s, t₁.stateOf kh = some s ∧
    s.handle = (t.entry kh none).1.handle ∧ s.kind = .alive ∧ s.writers = ws := by
  obtain ⟨s, hs, heq⟩ := h.stateOf
  obtain ⟨hhandle, hrest⟩ := Prod.mk.inj heq
  exact ⟨s, hs, hhandle, (Prod.mk.inj hrest).1, (Prod.mk.inj hrest).2⟩

theorem again (h : ObservedAt kh ws t t₁) (h' : ObservedAt kh ws' t₁ t₂) :
    ObservedAt kh ws' t t₂ := by
  obtain ⟨s, hs, hhandle, _, _⟩ := h.alive
  have hentry : (t₁.entry kh none).1 = s := by simp [entry, hs]
  have hown := h'.own
  rw [hentry, hhandle] at hown
  exact ⟨h'.indexed, fun kh' hne => (h'.others kh' hne).trans (h.others kh' hne), hown⟩

theorem admitted (h : ObservedAt kh ws t t₁) (orderTs filterTs : Time) (writer : WriterGuid) :
    ObservedAt kh (ws.insert writer ()) t (t₁.noteAdmitted kh orderTs filterTs writer) := by
  obtain ⟨s, hs, hhandle, hkind, hws⟩ := h.alive
  refine ⟨h.indexed.modifyKey fun _ => rfl, fun kh' hne => ?_, ?_⟩
  · rw [noteAdmitted, stateOf_modifyKey, if_neg hne]
    exact h.others kh' hne
  · rw [noteAdmitted, stateOf_modifyKey, if_pos rfl, hs]
    simp [InstanceState.life, InstanceState.admitted, hhandle, hkind, hws]

end ObservedAt
end InstanceTracker

open InstanceTracker (Indexed SameLives ChangedAt ObservedAt)

namespace DataReader

variable {T : Type} (cfg : ReaderConfig T)

def FreshHandle (r : DataReader T) (kh : KeyHash) : Prop :=
  r.instances.stateOf kh = none → Indexed.Unshared r.instances kh

/-- A new instance whose handle is the hash of its key gets one no other has. -/
def FreshKeyHandle (r : DataReader T) (kh : KeyHash) : Prop :=
  r.instances.keyHandles = true → FreshHandle r kh

variable {r : DataReader T}

/-- Handles counted up are never shared. -/
theorem FreshKeyHandle.fresh {kh : KeyHash} (h : FreshKeyHandle r kh) (hi : Indexed r.instances) :
    FreshHandle r kh := by
  cases hkeys : r.instances.keyHandles with
  | true => exact h hkeys
  | false =>
    intro _ kh' s hs
    rw [InstanceTracker.newHandle, hkeys]
    exact Nat.ne_of_lt (hi.below hkeys kh' s hs)

theorem Evicts.sameLives {r' : DataReader T} (h : Evicts r r') :
    SameLives r.instances r'.instances := by
  induction h with
  | refl => exact .refl _
  | tail _ hstep ih =>
    obtain ⟨_, s, _, t, _, rfl, ht⟩ := hstep
    rcases ht with rfl | ⟨_, rfl⟩
    · exact ih.trans (.drainSamples _ _)
    · exact ih

def writersOf (r : DataReader T) (kh : KeyHash) : SortedSet WriterGuid :=
  (r.instances.entry kh none).1.writers

inductive SampleLife (kh : KeyHash) (writer : WriterGuid) (r r' : DataReader T) : Admission → Prop
  | unseen {verdict : Admission} (hverdict : verdict ≠ .admitted)
      (h : SameLives r.instances r'.instances) : SampleLife kh writer r r' verdict
  | seen {verdict : Admission} (hverdict : verdict ≠ .admitted)
      (h : ObservedAt kh (r.writersOf kh) r.instances r'.instances) :
      SampleLife kh writer r r' verdict
  | admitted (h : ObservedAt kh ((r.writersOf kh).insert writer ()) r.instances r'.instances) :
      SampleLife kh writer r r' .admitted

theorem admit_life (hi : Indexed r.instances) (now : Time) (raw : RawIngestSample) (sample : T)
    (hfresh : FreshHandle r (cfg.codec.instanceKeyHash sample)) :
    SampleLife (cfg.codec.instanceKeyHash sample) raw.writerGuid r
      (admitSample cfg r now raw sample).1 (admitSample cfg r now raw sample).2 := by
  rcases admit_cases cfg r now raw sample with
    ⟨_, heq⟩ | ⟨t, handle, n, r₁, inCache, hobs, hhist, hend⟩
  · rw [heq]
    refine .unseen ?_ (.refl _)
    split <;> exact nofun
  · have hindexed := hi.observeAdmitted hfresh hobs
    obtain ⟨holder, s₁, rfl, rfl, rfl, hstate⟩ := observeAdmitted_eq_some _ hobs
    have hobserved : ObservedAt (cfg.codec.instanceKeyHash sample)
        (r.writersOf (cfg.codec.instanceKeyHash sample)) r.instances t :=
      ObservedAt.of_put hindexed hstate
    have hevicts := evicts_applyHistory cfg { r with instances := t }
      ((r.instances.entry (cfg.codec.instanceKeyHash sample) none).1.noteObserved holder
        (some now)).handle
      ((r.instances.entry (cfg.codec.instanceKeyHash sample) none).1.noteObserved holder
        (some now)).samplesInCache
    rw [hhist] at hevicts
    rcases hend with ⟨_, _, _, heq⟩ | ⟨r₂, s, hlim, hs, heq⟩
    · rw [heq]
      exact .seen nofun (hobserved.trans_same (hevicts.sameLives.trans (.drainSamples _ _)))
    · rw [heq]
      have hall : Evicts { r with instances := t } r₂ := hevicts.trans (applyLimits_none cfg hlim)
      exact .admitted (ObservedAt.admitted (hobserved.trans_same hall.sameLives) _ _ _)

theorem passesExclusiveOwnership_life (hi : Indexed r.instances) (sample : T)
    (writer : WriterGuid) (strength : Int)
    (hfresh : FreshHandle r (cfg.codec.instanceKeyHash sample)) :
    (cfg.qos.exclusiveOwnership = false ∧
      passesExclusiveOwnership cfg r sample writer strength = (r, true)) ∨
    cfg.qos.exclusiveOwnership = true ∧
      ObservedAt (cfg.codec.instanceKeyHash sample)
        (r.writersOf (cfg.codec.instanceKeyHash sample)) r.instances
        (passesExclusiveOwnership cfg r sample writer strength).1.instances := by
  unfold passesExclusiveOwnership
  cases hx : cfg.qos.exclusiveOwnership with
  | false => exact .inl ⟨rfl, rfl⟩
  | true =>
    refine .inr ⟨rfl, ?_⟩
    have hindexed : Indexed (r.instances.observeSample (cfg.codec.instanceKeyHash sample)
        (cfg.codec.keyHolder sample) none) :=
      hi.put_entry hfresh (handle_noteObserved _ _ _)
    have hobserved := ObservedAt.of_put hindexed
      (stateOf_observeSampleWithHolder r.instances
        (cfg.codec.instanceKeyHash sample) · (some (cfg.codec.keyHolder sample)) none)
    exact hobserved.trans_same (.accept _ _ _ _ _)

variable {r₁ : DataReader T} {kh : KeyHash}

theorem writersOf_of_observed {ws : SortedSet WriterGuid}
    (h : ObservedAt kh ws r.instances r₁.instances) : r₁.writersOf kh = ws := by
  obtain ⟨s, hs, _, _, hws⟩ := ObservedAt.alive h
  simp [writersOf, InstanceTracker.entry, hs, hws]

variable {r₂ : DataReader T} {writer : WriterGuid} {verdict : Admission}

theorem SampleLife.of_instances (h : SampleLife kh writer r₁ r₂ verdict)
    (hinst : r₁.instances = r.instances) : SampleLife kh writer r r₂ verdict := by
  have hws : r₁.writersOf kh = r.writersOf kh := by rw [writersOf, writersOf, hinst]
  cases h with
  | unseen hverdict h => exact .unseen hverdict (hinst ▸ h)
  | seen hverdict h => exact .seen hverdict (hws ▸ hinst ▸ h)
  | admitted h => exact .admitted (hws ▸ hinst ▸ h)

theorem SampleLife.after_observed (h : SampleLife kh writer r₁ r₂ verdict)
    (hown : ObservedAt kh (r.writersOf kh) r.instances r₁.instances) :
    SampleLife kh writer r r₂ verdict := by
  have hws : r₁.writersOf kh = r.writersOf kh := writersOf_of_observed hown
  cases h with
  | unseen hverdict h => exact .seen hverdict (hown.trans_same h)
  | seen hverdict h => exact .seen hverdict (ObservedAt.again hown (hws ▸ h))
  | admitted h => exact .admitted (ObservedAt.again hown (hws ▸ h))

theorem sample_life (hi : Indexed r.instances) (now : Time) (raw : RawIngestSample)
    (timeFilter : Bool) {sample : T}
    (hdecode : cfg.codec.decode raw.bytes.octets raw.representation raw.bigEndian = .ok sample)
    (hfresh : FreshHandle r (cfg.codec.instanceKeyHash sample)) :
    SampleLife (cfg.codec.instanceKeyHash sample) raw.writerGuid r
      (ingestAliveFiltered cfg r now raw timeFilter).1
      (ingestAliveFiltered cfg r now raw timeFilter).2 := by
  rcases ingestAliveFiltered_cases cfg r now raw timeFilter with
    ⟨_, heq, hverdict⟩ | ⟨sample', _, hdecode', hend⟩
  · rw [heq]
    exact .unseen hverdict (.refl _)
  · rw [hdecode] at hdecode'
    cases hdecode'
    rcases passesExclusiveOwnership_life cfg hi sample raw.writerGuid raw.writerStrength hfresh with
      ⟨_, hown⟩ | ⟨_, hown⟩
    · rw [hown] at hend
      rcases hend with heq | ⟨hold, ⟨_, heq⟩ | heq⟩
      · rw [heq]
        exact .unseen nofun (.refl _)
      · rw [heq]
        exact .unseen nofun (.refl _)
      · rw [heq]
        have hadmitted := admit_life cfg (r := r.withHold hold) hi now raw sample hfresh
        exact hadmitted.of_instances rfl
    · rcases hend with heq | ⟨hold, ⟨_, heq⟩ | heq⟩
      · rw [heq]
        exact .seen nofun hown
      · rw [heq]
        exact .seen nofun hown
      · rw [heq]
        have hheld : ObservedAt (cfg.codec.instanceKeyHash sample)
            (r.writersOf (cfg.codec.instanceKeyHash sample)) r.instances
            ((passesExclusiveOwnership cfg r sample raw.writerGuid
              raw.writerStrength).1.withHold hold).instances := hown
        obtain ⟨s, hs, _⟩ := hheld.stateOf
        have hknown : FreshHandle ((passesExclusiveOwnership cfg r sample raw.writerGuid
            raw.writerStrength).1.withHold hold) (cfg.codec.instanceKeyHash sample) := by
          intro hnone
          rw [hs] at hnone
          cases hnone
        exact (admit_life cfg hheld.indexed now raw sample hknown).after_observed hheld

def markedLife (kind : InstanceStateKind) (writer : Option WriterGuid)
    (l : InstanceHandle × InstanceStateKind × SortedSet WriterGuid) :
    InstanceHandle × InstanceStateKind × SortedSet WriterGuid :=
  match kind, writer with
  | .notAliveDisposed, _ => (l.1, .notAliveDisposed, l.2.2)
  | .notAliveNoWriters, some w =>
    (l.1, InstanceState.kindWith l.2.1 (l.2.2.erase w), l.2.2.erase w)
  | .notAliveNoWriters, none | .alive, _ => l

variable {t : InstanceTracker}

theorem applyMarkerKind_life {l : InstanceHandle × InstanceStateKind × SortedSet WriterGuid}
    {t₀ : InstanceTracker} (h : ChangedAt kh l t t₀) (kind : InstanceStateKind)
    (writer : Option WriterGuid) (now : Time)
    (hwriter : kind = .notAliveNoWriters → writer.isSome) :
    ChangedAt kh (markedLife kind writer l) t (applyMarkerKind t₀ l.1 kind writer now).1 := by
  cases kind with
  | alive => exact h
  | notAliveDisposed =>
    refine h.modifyHandle (fun s => ?_) fun s hs => ?_
    · unfold InstanceState.disposed
      split <;> rfl
    · rw [← hs]
      unfold InstanceState.disposed
      split <;> rfl
  | notAliveNoWriters =>
    obtain ⟨w, rfl⟩ := Option.isSome_iff_exists.mp (hwriter rfl)
    have hleft : ChangedAt kh (markedLife .notAliveNoWriters (some w) l) t
        (t₀.unregisterWriter l.1 w (some now)) := by
      refine h.modifyHandle (fun s => ?_) fun s hs => ?_
      · unfold InstanceState.writerUnregistered InstanceState.stamped
        simp only [Option.isSome_some, if_true]
        split <;> rfl
      · rw [← hs]
        exact s.life_writerUnregistered w (some now)
    unfold applyMarkerKind
    simp only
    split
    · exact hleft.trans_same (.drainSamples _ _)
    · exact hleft

theorem observeLifecycle_life (hi : Indexed t) (kh : KeyHash) (holder : Option Rtps.Octets)
    (timestamp : Option Time) (hfresh : t.stateOf kh = none → Indexed.Unshared t kh) :
    ChangedAt kh (t.entry kh none).1.life t (t.observeLifecycle kh holder timestamp).1 ∧
      (t.observeLifecycle kh holder timestamp).2 = (t.entry kh none).1.handle := by
  have hentry : (t.entry kh holder).1.life = (t.entry kh none).1.life := by
    unfold InstanceTracker.entry
    split <;> rfl
  have hmarked : (t.markedState kh holder timestamp).life = (t.entry kh none).1.life := by
    rw [InstanceTracker.markedState, life_counted, life_stamped,
      life_withHolder, hentry]
  have hhandle : (t.markedState kh holder timestamp).handle = (t.entry kh none).1.handle :=
    congrArg Prod.fst hmarked
  refine ⟨⟨?_, fun kh' hne => ?_, ?_⟩, hhandle⟩
  · have hfirst : (t.entry kh holder).1.handle = (t.entry kh none).1.handle :=
      congrArg Prod.fst hentry
    exact hi.put_entry hfresh (hhandle.trans hfirst.symm)
  · rw [stateOf_observeLifecycle, if_neg hne]
  · rw [stateOf_observeLifecycle, if_pos rfl, Option.map_some, hmarked]

theorem markerHolder_eq_none {keyHolder : Option Rtps.Octets}
    (h : markerHolder cfg r kh keyHolder = none) :
    r.instances.stateOf kh = none ∨ cfg.codec.keyed = false ∧ r.keylessLast = none := by
  unfold markerHolder at h
  split at h
  · next hkeyless =>
    simp only [Bool.and_eq_true, Bool.not_eq_true', Option.isNone_iff_eq_none] at hkeyless
    exact .inr hkeyless
  · split at h
    · cases h
    · split at h
      · cases h
      · next hunknown =>
        left
        simpa [InstanceTracker.lookup] using hunknown

inductive MarkerLife (m : LifecycleMarker) (r r' : DataReader T) : Prop
  | ignored (hkind : m.kind = .notAliveDisposed) (h : SameLives r.instances r'.instances)
  | unknown (hunknown : r.instances.stateOf (markerKey cfg m) = none ∨
      cfg.codec.keyed = false ∧ r.keylessLast = none) (h : SameLives r.instances r'.instances)
  | applied (hvalue : cfg.codec.keyed = false → r.keylessLast ≠ none)
      (h : ChangedAt (markerKey cfg m) (markedLife m.kind (markerWriter m)
      (r.instances.entry (markerKey cfg m) none).1.life) r.instances r'.instances)

theorem pushLifecycleFrom_life (hi : Indexed r.instances) (m : LifecycleMarker)
    (hfresh : FreshHandle r (markerKey cfg m))
    (hwriter : m.kind = .notAliveNoWriters → (markerWriter m).isSome) :
    MarkerLife cfg m r (pushLifecycleFrom cfg r
      (cfg.codec.lifecycleInstance m.keyHash m.keyHolder).1
      (cfg.codec.lifecycleInstance m.keyHash m.keyHolder).2 m.kind (markerWriter m)
      (m.sourceTimestamp.map heTimestampToTime)) := by
  unfold pushLifecycleFrom
  simp only
  rw [show (if cfg.codec.keyed = true then (cfg.codec.lifecycleInstance m.keyHash m.keyHolder).1
    else keylessInstanceKey) = markerKey cfg m from rfl]
  cases hholder : markerHolder cfg r (markerKey cfg m)
      (cfg.codec.lifecycleInstance m.keyHash m.keyHolder).2 with
  | none => exact .unknown (markerHolder_eq_none cfg hholder) (.refl _)
  | some holder =>
    rcases hclock : r.wallNow cfg with ⟨now, r₁⟩
    have hinst : r₁.instances = r.instances := by
      cases hclock
      rfl
    simp only [hinst]
    obtain ⟨hobs, hhandle⟩ :=
      observeLifecycle_life hi (markerKey cfg m) holder (some now) hfresh
    have hmarked := applyMarkerKind_life hobs m.kind (markerWriter m) now hwriter
    rw [hhandle]
    rw [show ((r.instances.entry (markerKey cfg m) none).1.life).1 =
      (r.instances.entry (markerKey cfg m) none).1.handle from rfl] at hmarked
    have hvalue : cfg.codec.keyed = false → r.keylessLast ≠ none := by
      intro hkeyed hnone
      simp [markerHolder, hkeyed, hnone] at hholder
    refine .applied hvalue ?_
    split
    · next heq =>
      rw [heq] at hmarked
      exact hmarked
    · next heq =>
      rw [heq] at hmarked
      split
      · exact hmarked
      · exact hmarked

theorem marker_life (hi : Indexed r.instances) (m : LifecycleMarker)
    (hfresh : FreshHandle r (markerKey cfg m))
    (hwriter : m.kind = .notAliveNoWriters → (markerWriter m).isSome) :
    MarkerLife cfg m r (ingestLifecycle cfg r m) := by
  rcases ingestLifecycle_cases cfg r m with ⟨hkind, h⟩ | ⟨t, ht, h⟩
  · rw [h]
    exact .ignored hkind (.refl _)
  · rw [h]
    have hsame : SameLives r.instances t := by
      rcases ht with rfl | ⟨w, rfl⟩
      · exact .refl _
      · exact .releaseOwnerOf _ _
    have hlife := pushLifecycleFrom_life cfg (r := { r with instances := t }) (hsame.indexed hi) m
      (fun hnone => hsame.unshared (hfresh ((hsame.lives.stateOf_eq_none _).mp hnone))) hwriter
    cases hlife with
    | ignored hkind h' => exact .ignored hkind (hsame.trans h')
    | unknown hunknown h' =>
      exact .unknown (hunknown.imp_left (hsame.lives.stateOf_eq_none _).mp) (hsame.trans h')
    | applied hvalue h' =>
      have hown := h'.own
      rw [hsame.entry_life] at hown
      exact .applied hvalue
        ⟨h'.indexed, fun kh' hne => (h'.others kh' hne).trans (hsame.lives kh'), hown⟩

theorem pushDepartures_instances (writer : WriterGuid) (now : Time) (r : DataReader T)
    (handles : List InstanceHandle) :
    (pushDepartures writer now r handles).instances = r.instances := by
  induction handles generalizing r with
  | nil => rfl
  | cons handle rest ih =>
    unfold pushDepartures
    split
    · exact ih r
    · exact ih _

theorem departWriter_life (hi : Indexed r.instances)
    (halive : ∀ kh s, r.instances.stateOf kh = some s → s.kind = .alive →
      s.writers.isEmpty = false) (now : Time) (writer : WriterGuid) :
    Indexed (departWriter now r writer).instances ∧
      ∀ kh, ((departWriter now r writer).instances.stateOf kh).map InstanceState.life =
        (r.instances.stateOf kh).map fun s => (s.handle,
          InstanceState.kindWith s.kind (s.writers.erase writer), s.writers.erase writer) := by
  have hclear : SameLives r.instances (r.instances.clearOwnerForWriter writer) :=
    .clearOwnerForWriter writer
  have hdropped : (departWriter now r writer).instances =
      (r.instances.clearOwnerForWriter writer).modifyAll (·.writerDropped writer (some now)) :=
    pushDepartures_instances _ _ _ _
  rw [hdropped]
  constructor
  · refine (hclear.indexed hi).modifyAll fun s => ?_
    unfold InstanceState.writerDropped
    split
    · split <;> rfl
    · rfl
  · intro kh
    rw [stateOf_modifyAll, Option.map_map]
    cases hs : r.instances.stateOf kh with
    | none => rw [(hclear.lives.stateOf_eq_none kh).mpr hs]; rfl
    | some s =>
      obtain ⟨s₁, hs₁, heq⟩ := hclear.lives.symm.stateOf_eq_some hs
      obtain ⟨hhandle, hrest⟩ := Prod.mk.inj heq
      obtain ⟨hkind, hws⟩ := Prod.mk.inj hrest
      have hlife := s₁.life_writerDropped writer (some now) (by
        rw [hkind, hws]
        exact halive kh s hs)
      rw [hs₁, Option.map_some, Option.map_some, Function.comp_apply, hlife, hhandle, hkind, hws]

/-! ### Steps that neither ingest nor drop anything -/

structure Tolerates (R : InstanceTracker → InstanceTracker → Prop) : Prop where
  refl : ∀ t, R t t
  trans : ∀ {t t₁ t₂}, R t t₁ → R t₁ t₂ → R t t₂
  seen : ∀ t h, R t (InstanceTracker.markViewSeen t h)
  drained : ∀ t h n, R t (InstanceTracker.drainSamples t h n)
  taken : ∀ t h n, R t (InstanceTracker.noteTaken t h n)
  strength : ∀ t w n, R t (InstanceTracker.updateOwnerStrength t w n)

namespace Tolerates

variable {R : InstanceTracker → InstanceTracker → Prop} (hR : Tolerates R)

include hR

theorem foldl {α : Type} {f : InstanceTracker → α → InstanceTracker} (hf : ∀ t a, R t (f t a))
    (l : List α) (t : InstanceTracker) : R t (l.foldl f t) := by
  induction l generalizing t with
  | nil => exact hR.refl t
  | cons a l ih => exact hR.trans (hf t a) (ih (f t a))

theorem drainExpired (now : Time) (t : InstanceTracker) (l : List (CachedSample T)) :
    R t (drainExpired now t l) := by
  induction l generalizing t with
  | nil => exact hR.refl t
  | cons s rest ih =>
    unfold DataReader.drainExpired
    split
    · exact hR.trans (hR.drained _ _ _) (ih _)
    · exact ih t

theorem noteTakenEach (t : InstanceTracker) (out : List (Sample T)) :
    R t (noteTakenEach t out) := by
  induction out generalizing t with
  | nil => exact hR.refl t
  | cons s rest ih =>
    refine hR.trans ?_ (ih _)
    split
    · exact hR.seen _ _
    · exact hR.trans (hR.seen _ _) (hR.drained _ _ _)

section

variable (r : DataReader T)

theorem takeSelected (sel : Selection) (max : Option Nat) :
    R r.instances (takeSelected cfg r sel max).1.instances := by
  unfold DataReader.takeSelected
  simp only
  split
  · exact hR.refl _
  · split
    · exact hR.noteTakenEach _ _
    · exact hR.noteTakenEach _ _

theorem takeOfInstance (handle : InstanceHandle) :
    R r.instances (takeOfInstance cfg r handle).1.instances := by
  unfold DataReader.takeOfInstance
  simp only
  split
  · exact hR.refl _
  · split
    · exact hR.refl _
    · split
      · exact hR.refl _
      · exact hR.trans (hR.seen _ _) (hR.drained _ _ _)

theorem takeValues : R r.instances (takeValues cfg r).1.instances := by
  have hruns : ∀ handles, R r.instances (noteTakenRuns r.instances handles) :=
    fun handles => hR.foldl (fun _ _ => hR.taken _ _ _) _ _
  unfold DataReader.takeValues
  simp only
  split
  · exact hruns _
  · exact hruns _

theorem querySelected (cond : QueryCondition T) (max : Option Nat)
    (take : Bool) (instance? : Option InstanceHandle) :
    R r.instances (querySelected cfg r cond max take instance?).1.instances := by
  unfold DataReader.querySelected
  simp only
  split
  · exact hR.refl _
  · split
    · exact hR.refl _
    · cases take with
      | true => exact hR.noteTakenEach _ _
      | false => exact hR.foldl (fun _ _ => hR.seen _ _) _ _

theorem readWith (pick : CachedSample T → Option (Except DdsError (Sample T)))
    (limit : Option Nat) : R r.instances (r.readWith pick limit).1.instances :=
  hR.foldl (fun _ _ => hR.seen _ _) _ _

end

end Tolerates

def ReaderStep.quiet : ReaderStep T → Bool
  | .sample _ _ _ | .marker _ | .departure _ _ | .autopurge _ => false
  | .lifespan _ | .strength _ _ | .takeValues | .takeSelected _ _ | .takeOfInstance _
  | .query _ _ _ _ | .readValues | .readSelected _ _ | .readOfInstance _ => true

variable {s : ReaderStep T}

theorem Tolerates.quiet {R : InstanceTracker → InstanceTracker → Prop} (hR : Tolerates R)
    (r : DataReader T) (h : s.quiet = true) : R r.instances (perform cfg r s).instances := by
  cases s with
  | sample _ _ _ => cases h
  | marker _ => cases h
  | departure _ _ => cases h
  | autopurge _ => cases h
  | lifespan now => exact hR.drainExpired now r.instances r.cache
  | strength writer strength => exact hR.strength _ writer strength
  | takeValues => exact hR.takeValues cfg r
  | takeSelected sel max => exact hR.takeSelected cfg r sel max
  | takeOfInstance handle => exact hR.takeOfInstance cfg r handle
  | query cond max take instance? => exact hR.querySelected cfg r cond max take instance?
  | readValues => exact hR.readWith r _ _
  | readSelected sel max => exact hR.readWith r.refreshStates _ _
  | readOfInstance handle => exact hR.readWith r.refreshStates _ _

theorem tolerates_sameLives : Tolerates SameLives where
  refl := .refl
  trans := .trans
  seen _ h := .markViewSeen h
  drained _ h n := .drainSamples h n
  taken _ h n := .noteTaken h n
  strength _ w n := .updateOwnerStrength w n

theorem quiet_lives (r : DataReader T) (h : s.quiet = true) :
    SameLives r.instances (perform cfg r s).instances :=
  tolerates_sameLives.quiet cfg r h

end DataReader
end ZeroDds.Dcps
