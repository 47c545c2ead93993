/-
Well-indexed trackers.
-/
import ZeroDds.Dcps.InstanceTracker

namespace ZeroDds.Dcps.InstanceTracker

variable {t t₁ t₂ : InstanceTracker}

/-! ### The part of the instances a property looks at -/

def SameUnder {α : Type} (π : InstanceState → α) (t t' : InstanceTracker) : Prop :=
  ∀ kh, (t'.stateOf kh).map π = (t.stateOf kh).map π

namespace SameUnder

variable {α : Type} {π : InstanceState → α}

theorem refl (t : InstanceTracker) : SameUnder π t t := fun _ => rfl

theorem trans (h : SameUnder π t t₁) (h' : SameUnder π t₁ t₂) : SameUnder π t t₂ :=
  fun kh => (h' kh).trans (h kh)

theorem symm (h : SameUnder π t t₁) : SameUnder π t₁ t := fun kh => (h kh).symm

variable {f : InstanceState → InstanceState}

theorem modifyKey {kh : KeyHash} (hf : ∀ s, π (f s) = π s) : SameUnder π t (t.modifyKey kh f) := by
  intro kh'
  rw [stateOf_modifyKey]
  split
  · next h =>
    subst h
    cases t.stateOf kh' <;> simp [hf]
  · rfl

theorem modifyHandle {h : InstanceHandle} (hf : ∀ s, π (f s) = π s) :
    SameUnder π t (t.modifyHandle h f) := by
  unfold InstanceTracker.modifyHandle
  split
  · exact .refl t
  · exact .modifyKey hf

theorem modifyAll (hf : ∀ s, π (f s) = π s) : SameUnder π t (t.modifyAll f) := by
  intro kh
  rw [stateOf_modifyAll]
  cases t.stateOf kh <;> simp [hf]

theorem stateOf_eq_some (h : SameUnder π t t₁) {kh : KeyHash} {s : InstanceState}
    (hs : t₁.stateOf kh = some s) : ∃ s₀, t.stateOf kh = some s₀ ∧ π s₀ = π s := by
  have hk := h kh
  rw [hs] at hk
  obtain ⟨s₀, hs₀, heq⟩ := Option.map_eq_some_iff.mp hk.symm
  exact ⟨s₀, hs₀, heq⟩

theorem stateOf_eq_none (h : SameUnder π t t₁) (kh : KeyHash) :
    t₁.stateOf kh = none ↔ t.stateOf kh = none := by
  rw [← Option.map_eq_none_iff (f := π), h kh, Option.map_eq_none_iff]

end SameUnder

/-! ### Handles and keys -/

structure Indexed (t : InstanceTracker) : Prop where
  ofKey : ∀ kh s, t.stateOf kh = some s → t.handleToKeyhash.get? s.handle = some kh
  ofHandle : ∀ h kh, t.handleToKeyhash.get? h = some kh →
    ∃ s, t.stateOf kh = some s ∧ s.handle = h
  ne_nil : ∀ kh s, t.stateOf kh = some s → s.handle ≠ handleNil
  below : t.keyHandles = false → ∀ kh s, t.stateOf kh = some s → s.handle < t.nextHandle
  nextPos : 0 < t.nextHandle

namespace Indexed

variable {h : InstanceHandle} {kh : KeyHash} {s : InstanceState} {f : InstanceState → InstanceState}

section

variable (hi : Indexed t)
include hi

theorem get?_iff :
    t.handleToKeyhash.get? h = some kh ↔ ∃ s, t.stateOf kh = some s ∧ s.handle = h := by
  constructor
  · exact hi.ofHandle h kh
  · rintro ⟨s, hs, rfl⟩
    exact hi.ofKey kh s hs

theorem key_unique {kh' : KeyHash} {s' : InstanceState}
    (hs : t.stateOf kh = some s) (hs' : t.stateOf kh' = some s') (h : s.handle = s'.handle) :
    kh = kh' := by
  have hk := hi.ofKey kh s hs
  have hk' := hi.ofKey kh' s' hs'
  rw [h, hk'] at hk
  exact (Option.some.inj hk).symm

theorem stateOf_modifyHandle (h : InstanceHandle)
    (f : InstanceState → InstanceState) (kh : KeyHash) :
    (t.modifyHandle h f).stateOf kh =
      (t.stateOf kh).map fun s => if s.handle = h then f s else s := by
  rw [InstanceTracker.stateOf_modifyHandle]
  cases hs : t.stateOf kh with
  | none => simp
  | some s =>
    by_cases hh : s.handle = h
    · rw [if_pos (hi.get?_iff.mpr ⟨s, hs, hh⟩)]
      simp [hh]
    · have hother : t.handleToKeyhash.get? h ≠ some kh := by
        intro hk
        obtain ⟨s', hs', hh'⟩ := hi.get?_iff.mp hk
        rw [hs] at hs'
        cases hs'
        exact hh hh'
      rw [if_neg hother]
      simp [hh]

theorem getByHandle_eq_some :
    t.getByHandle h = some s ↔ ∃ kh, t.stateOf kh = some s ∧ s.handle = h := by
  rw [getByHandle, Option.bind_eq_some_iff]
  constructor
  · rintro ⟨kh, hkh, hs⟩
    obtain ⟨s₀, hs₀, hh⟩ := hi.ofHandle h kh hkh
    rw [hs] at hs₀
    cases hs₀
    exact ⟨kh, hs, hh⟩
  · rintro ⟨kh, hs, rfl⟩
    exact ⟨kh, hi.ofKey kh s hs, hs⟩

theorem of_sameUnder (h : SameUnder InstanceState.handle t t₁)
    (hmap : t₁.handleToKeyhash = t.handleToKeyhash) (hnext : t₁.nextHandle = t.nextHandle)
    (hkeys : t₁.keyHandles = t.keyHandles) : Indexed t₁ where
  ofKey kh s hs := by
    obtain ⟨s₀, hs₀, heq⟩ := h.stateOf_eq_some hs
    rw [hmap, ← heq]
    exact hi.ofKey kh s₀ hs₀
  ofHandle k kh hk := by
    rw [hmap] at hk
    obtain ⟨s, hs, hh⟩ := hi.ofHandle k kh hk
    obtain ⟨s₁, hs₁, heq⟩ := h.symm.stateOf_eq_some hs
    exact ⟨s₁, hs₁, heq.trans hh⟩
  ne_nil kh s hs := by
    obtain ⟨s₀, hs₀, heq⟩ := h.stateOf_eq_some hs
    rw [← heq]
    exact hi.ne_nil kh s₀ hs₀
  below hk kh s hs := by
    obtain ⟨s₀, hs₀, heq⟩ := h.stateOf_eq_some hs
    rw [hnext, ← heq]
    exact hi.below (hkeys ▸ hk) kh s₀ hs₀
  nextPos := hnext ▸ hi.nextPos

section

variable (hf : ∀ s, (f s).handle = s.handle)
include hf

theorem modifyKey :
    Indexed (t.modifyKey kh f) :=
  hi.of_sameUnder (.modifyKey hf) rfl rfl rfl

theorem modifyHandle :
    Indexed (t.modifyHandle h f) := by
  unfold InstanceTracker.modifyHandle
  split
  · exact hi
  · exact hi.modifyKey hf

theorem modifyAll : Indexed (t.modifyAll f) :=
  hi.of_sameUnder (.modifyAll hf) rfl rfl rfl

end

theorem put_known {s₀ : InstanceState} (hs₀ : t.stateOf kh = some s₀)
    (hh : s.handle = s₀.handle) : Indexed (t.put kh s) := by
  refine hi.of_sameUnder ?_ ?_ rfl rfl
  · intro kh'
    rw [stateOf_put]
    split
    · next h => rw [h, hs₀]; exact congrArg some hh
    · rfl
  · refine SortedMap.ext_get? fun k => ?_
    simp only [put, SortedMap.get?_insert]
    split
    · next h => rw [h, hh, hi.ofKey kh s₀ hs₀]
    · rfl

end

def Unshared (t : InstanceTracker) (kh : KeyHash) : Prop :=
  ∀ kh' s, t.stateOf kh' = some s → s.handle ≠ t.newHandle kh

theorem fromGuid_ne_nil (g : Octets16) : InstanceHandle.fromGuid g ≠ handleNil := by
  unfold InstanceHandle.fromGuid handleNil
  simp only
  split
  · exact Nat.one_ne_zero
  · assumption

theorem newHandle_ne_nil (hi : Indexed t) (kh : KeyHash) : t.newHandle kh ≠ handleNil := by
  unfold newHandle
  split
  · exact fromGuid_ne_nil kh
  · exact Nat.pos_iff_ne_zero.mp hi.nextPos

theorem put_new (hi : Indexed t) (hnew : t.stateOf kh = none) (hfresh : Unshared t kh)
    (hh : s.handle = t.newHandle kh) : Indexed (t.allocated.put kh s) := by
  have hmap : ∀ k, (t.allocated.put kh s).handleToKeyhash.get? k =
      if k = s.handle then some kh else t.handleToKeyhash.get? k := by
    intro k
    have hsame : t.allocated.handleToKeyhash = t.handleToKeyhash := by
      unfold allocated
      split <;> rfl
    simp [put, SortedMap.get?_insert, hsame]
  have hstate : ∀ kh', (t.allocated.put kh s).stateOf kh' =
      if kh' = kh then some s else t.stateOf kh' := by
    intro kh'
    rw [stateOf_put, stateOf_allocated]
  constructor
  · intro kh' s' hs'
    rw [hstate] at hs'
    split at hs'
    · next h =>
      cases hs'
      rw [hmap, if_pos rfl, h]
    · have hne : s'.handle ≠ s.handle := by
        rw [hh]
        exact hfresh kh' s' hs'
      rw [hmap, if_neg hne]
      exact hi.ofKey kh' s' hs'
  · intro k kh' hk
    rw [hmap] at hk
    split at hk
    · next h =>
      cases hk
      exact ⟨s, by rw [hstate, if_pos rfl], h.symm⟩
    · obtain ⟨s', hs', hk'⟩ := hi.ofHandle k kh' hk
      have hne : kh' ≠ kh := by
        rintro rfl
        rw [hnew] at hs'
        cases hs'
      exact ⟨s', by rw [hstate, if_neg hne, hs'], hk'⟩
  · intro kh' s' hs'
    rw [hstate] at hs'
    split at hs'
    · cases hs'
      rw [hh]
      exact hi.newHandle_ne_nil kh
    · exact hi.ne_nil kh' s' hs'
  · intro hk kh' s' hs'
    have hk' : t.keyHandles = false := by
      unfold allocated at hk
      split at hk
      · exact hk
      · exact hk
    have hnext : (t.allocated.put kh s).nextHandle = t.nextHandle + 1 := by
      simp [put, allocated, hk']
    rw [hnext]
    rw [hstate] at hs'
    split at hs'
    · cases hs'
      rw [hh, newHandle, hk']
      exact Nat.lt_succ_self _
    · exact Nat.lt_succ_of_lt (hi.below hk' kh' s' hs')
  · unfold allocated put
    split
    · exact hi.nextPos
    · exact Nat.succ_pos _

theorem put_entry (hi : Indexed t) {keyHolder : Option Rtps.Octets}
    (hfresh : t.stateOf kh = none → Unshared t kh)
    (hh : s.handle = (t.entry kh keyHolder).1.handle) :
    Indexed ((t.entry kh keyHolder).2.put kh s) := by
  unfold entry at hh ⊢
  cases hs : t.stateOf kh with
  | some s₀ =>
    simp only [hs] at hh ⊢
    exact hi.put_known hs hh
  | none =>
    simp only [hs] at hh ⊢
    exact hi.put_new hs (hfresh hs) hh

theorem observeAdmitted (hi : Indexed t) {keyHolder : Rtps.Octets} {timestamp : Time}
    {maxInstances : Int} {t' : InstanceTracker} {handle : InstanceHandle} {inCache : Nat}
    (hfresh : t.stateOf kh = none → Unshared t kh)
    (h : t.observeAdmitted kh keyHolder timestamp maxInstances = some (t', handle, inCache)) :
    Indexed t' := by
  unfold InstanceTracker.observeAdmitted at h
  split at h
  · cases h
  · cases hs : t.stateOf kh with
    | some s =>
      simp only [hs] at h
      split at h
      · cases h
        exact hi.modifyKey fun s => s.handle_noteObserved _ _
      · cases h
        exact hi.put_known hs (s.handle_noteObserved _ _)
    | none =>
      simp only [hs] at h
      cases h
      exact hi.put_new hs (hfresh hs) (InstanceState.handle_noteObserved _ _ _)

end Indexed

theorem stateOf_autopurge (now : Time) (disposedDelay noWriterDelay : Nat) (kh : KeyHash) :
    (t.autopurge now disposedDelay noWriterDelay).1.stateOf kh =
      (t.stateOf kh).filter fun s => !s.purgeable now disposedDelay noWriterDelay :=
  SortedMap.get?_filter _ _ _

theorem mem_autopurge {now : Time} {disposedDelay noWriterDelay : Nat} {h : InstanceHandle} :
    h ∈ (t.autopurge now disposedDelay noWriterDelay).2 ↔
      ∃ kh s, t.stateOf kh = some s ∧ s.purgeable now disposedDelay noWriterDelay = true ∧
        s.handle = h := by
  simp only [autopurge, List.mem_map, List.mem_filter, SortedMap.mem_values]
  constructor
  · rintro ⟨s, ⟨⟨kh, hs⟩, hp⟩, hh⟩
    exact ⟨kh, s, hs, hp, hh⟩
  · rintro ⟨kh, s, hs, hp, hh⟩
    exact ⟨s, ⟨⟨kh, hs⟩, hp⟩, hh⟩

theorem Indexed.autopurge (hi : Indexed t) (now : Time) (disposedDelay noWriterDelay : Nat) :
    Indexed (t.autopurge now disposedDelay noWriterDelay).1 := by
  have hback : ∀ {kh s}, (t.autopurge now disposedDelay noWriterDelay).1.stateOf kh = some s →
      t.stateOf kh = some s ∧ s.purgeable now disposedDelay noWriterDelay = false := by
    intro kh s hs
    rw [stateOf_autopurge, Option.filter_eq_some_iff] at hs
    simpa using hs
  have hget : ∀ h, (t.autopurge now disposedDelay noWriterDelay).1.handleToKeyhash.get? h =
      (t.handleToKeyhash.get? h).filter fun _ =>
        !(t.autopurge now disposedDelay noWriterDelay).2.contains h := by
    intro h
    exact SortedMap.get?_filter _ _ _
  constructor
  · intro kh s hs
    obtain ⟨hs₀, hp⟩ := hback hs
    rw [hget, Option.filter_eq_some_iff]
    refine ⟨hi.ofKey kh s hs₀, ?_⟩
    have hkept : s.handle ∉ (t.autopurge now disposedDelay noWriterDelay).2 := by
      rw [mem_autopurge]
      rintro ⟨kh', s', hs', hp', hh⟩
      have hkey := hi.key_unique hs' hs₀ hh
      rw [hkey, hs₀] at hs'
      cases hs'
      rw [hp] at hp'
      cases hp'
    simpa using hkept
  · intro h kh hk
    rw [hget, Option.filter_eq_some_iff] at hk
    obtain ⟨s, hs, hh⟩ := hi.ofHandle h kh hk.1
    have hkept : h ∉ (t.autopurge now disposedDelay noWriterDelay).2 := by simpa using hk.2
    refine ⟨s, ?_, hh⟩
    rw [stateOf_autopurge, Option.filter_eq_some_iff]
    refine ⟨hs, ?_⟩
    cases hp : s.purgeable now disposedDelay noWriterDelay with
    | false => rfl
    | true => exact absurd (mem_autopurge.mpr ⟨kh, s, hs, hp, hh⟩) hkept
  · intro kh s hs
    exact hi.ne_nil kh s (hback hs).1
  · intro hk kh s hs
    exact hi.below hk kh s (hback hs).1
  · exact hi.nextPos

theorem indexed_new : Indexed new where
  ofKey kh s hs := by cases hs
  ofHandle h kh hk := by cases hk
  ne_nil kh s hs := by cases hs
  below _ kh s hs := by cases hs
  nextPos := Nat.one_pos

theorem indexed_withKeyHandles : Indexed withKeyHandles where
  ofKey kh s hs := by cases hs
  ofHandle h kh hk := by cases hk
  ne_nil kh s hs := by cases hs
  below _ kh s hs := by cases hs
  nextPos := Nat.one_pos

end ZeroDds.Dcps.InstanceTracker
