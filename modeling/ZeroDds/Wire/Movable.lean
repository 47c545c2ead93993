/-
What is written does not depend on where it stands.
-/
import Mathlib.Data.Nat.ModEq
import ZeroDds.Wire.Writer

namespace ZeroDds.Wire.Writer

/-! ### Two writers in phase -/

def offset (w : Writer) : Nat := w.out.length - w.origin

structure Extends (w : Writer) (octets : List UInt8) (w' : Writer) : Prop where
  out : w'.out = w.out ++ octets
  origin : w'.origin = w.origin
  settings : w'.toSettings = w.toSettings

/-- Two writers at which an alignment request pads alike: the origins are behind the next octet,
and the distances from them agree modulo each alignment and modulo four. -/
structure InPhase (w₁ w₂ : Writer) : Prop where
  settings : w₁.toSettings = w₂.toSettings
  within₁ : w₁.origin ≤ w₁.out.length
  within₂ : w₂.origin ≤ w₂.out.length
  aligned : ∀ k, w₁.offset ≡ w₂.offset [MOD min (2 ^ k) w₁.maxAlign]
  word : w₁.offset ≡ w₂.offset [MOD 4]

def Movable (f : Writer → Except WireError Writer) : Prop :=
  ∀ ⦃w₁ w₂ w₁' : Writer⦄, InPhase w₁ w₂ → f w₁ = .ok w₁' →
    ∃ octets w₂', f w₂ = .ok w₂' ∧ w₁.Extends octets w₁' ∧ w₂.Extends octets w₂'

def Moves (g : Writer → Writer) : Prop :=
  ∀ ⦃w₁ w₂ : Writer⦄, InPhase w₁ w₂ → ∃ octets, w₁.Extends octets (g w₁) ∧ w₂.Extends octets (g w₂)

section Extends

variable {w w' w'' : Writer} {a b : List UInt8}

theorem Extends.refl (w : Writer) : w.Extends [] w := ⟨(List.append_nil _).symm, rfl, rfl⟩

theorem extend_extends (w : Writer) (octets : List UInt8) : w.Extends octets (w.extend octets) :=
  ⟨rfl, rfl, rfl⟩

section

variable (h : w.Extends a w')
include h

theorem Extends.trans (h' : w'.Extends b w'') : w.Extends (a ++ b) w'' :=
  ⟨by rw [h'.out, h.out, List.append_assoc], h'.origin.trans h.origin,
    h'.settings.trans h.settings⟩

theorem Extends.length : w'.out.length = w.out.length + a.length := by
  rw [h.out, List.length_append]

theorem Extends.within (hw : w.origin ≤ w.out.length) :
    w'.origin ≤ w'.out.length := by
  have hlen := h.length
  rw [h.origin]
  omega

theorem Extends.offset_eq (hw : w.origin ≤ w.out.length) :
    w'.offset = w.offset + a.length := by
  unfold offset
  rw [h.origin, h.length]
  omega

end

end Extends

section InPhase

variable {w₁ w₂ w₁' w₂' : Writer} {octets : List UInt8}

theorem InPhase.extends (h : InPhase w₁ w₂) (h₁ : w₁.Extends octets w₁')
    (h₂ : w₂.Extends octets w₂') : InPhase w₁' w₂' where
  settings := h₁.settings.trans (h.settings.trans h₂.settings.symm)
  within₁ := h₁.within h.within₁
  within₂ := h₂.within h.within₂
  aligned k := by
    rw [h₁.offset_eq h.within₁, h₂.offset_eq h.within₂, h₁.settings]
    exact (h.aligned k).add_right _
  word := by
    rw [h₁.offset_eq h.within₁, h₂.offset_eq h.within₂]
    exact h.word.add_right _

theorem inPhase_of_origins (hsettings : w₁.toSettings = w₂.toSettings)
    (h₁ : w₁.origin = w₁.out.length) (h₂ : w₂.origin = w₂.out.length) : InPhase w₁ w₂ := by
  have hzero₁ : w₁.offset = 0 := by
    unfold offset
    omega
  have hzero₂ : w₂.offset = 0 := by
    unfold offset
    omega
  refine ⟨hsettings, by omega, by omega, fun k => ?_, ?_⟩
  · rw [hzero₁, hzero₂]
  · rw [hzero₁, hzero₂]

end InPhase

/-! ### Calls that cannot fail -/

def padding (align maxAlign offset : Nat) : List UInt8 :=
  let align := min align maxAlign
  if align ≤ 1 then [] else List.replicate ((align - offset % align) % align) 0

theorem alignTo_eq (w : Writer) (align : Nat) :
    w.alignTo align = w.extend (padding align w.maxAlign w.offset) := by
  unfold alignTo padding
  simp only
  split
  · simp [extend]
  · rfl

theorem alignTo_extends (w : Writer) (align : Nat) :
    w.Extends (padding align w.maxAlign w.offset) (w.alignTo align) := by
  rw [alignTo_eq]
  exact extend_extends w _

theorem padding_congr {align maxAlign a b : Nat} (h : a ≡ b [MOD min align maxAlign]) :
    padding align maxAlign a = padding align maxAlign b := by
  unfold padding
  simp only
  rw [show a % min align maxAlign = b % min align maxAlign from h]

theorem moves_alignTo (k : Nat) : Moves fun w => w.alignTo (2 ^ k) := by
  intro w₁ w₂ h
  refine ⟨_, alignTo_extends w₁ _, ?_⟩
  rw [padding_congr (h.aligned k), h.settings]
  exact alignTo_extends w₂ _

theorem moves_choose {g : Settings → Writer → Writer} (hg : ∀ s, Moves (g s)) :
    Moves fun w => g w.toSettings w := by
  intro w₁ w₂ h
  obtain ⟨octets, h₁, h₂⟩ := hg w₁.toSettings h
  rw [h.settings] at h₂
  exact ⟨octets, h₁, h₂⟩

theorem moves_octets (octets : List UInt8) : Moves fun w => w.extend octets :=
  fun w₁ w₂ _ => ⟨octets, extend_extends w₁ _, extend_extends w₂ _⟩

theorem moves_extend (octets : Settings → List UInt8) :
    Moves fun w => w.extend (octets w.toSettings) :=
  moves_choose fun s => moves_octets (octets s)

theorem Moves.comp {g g' : Writer → Writer} (hg : Moves g) (hg' : Moves g') :
    Moves fun w => g' (g w) := by
  intro w₁ w₂ h
  obtain ⟨a, h₁, h₂⟩ := hg h
  obtain ⟨b, h₁', h₂'⟩ := hg' (h.extends h₁ h₂)
  exact ⟨a ++ b, h₁.trans h₁', h₂.trans h₂'⟩

variable (value : UInt16)

theorem moves_writeU16 : Moves fun w => w.writeU16 value :=
  (moves_alignTo 1).comp (moves_extend fun s => s.endianness.order 2 value.toNat)

theorem moves_writeU32 (value : UInt32) : Moves fun w => w.writeU32 value :=
  (moves_alignTo 2).comp (moves_extend fun s => s.endianness.order 4 value.toNat)

theorem moves_writeU64 (value : UInt64) : Moves fun w => w.writeU64 value :=
  (moves_alignTo 3).comp (moves_extend fun s => s.endianness.order 8 value.toNat)

theorem moves_writeF128 (bits : BitVec 128) : Moves fun w => w.writeF128 bits :=
  (moves_alignTo 3).comp (moves_extend fun s => s.endianness.order 16 bits.toNat)

theorem moves_writeU16Little : Moves fun w => w.writeU16Little value :=
  (moves_alignTo 1).comp (moves_octets _)

theorem moves_writeU16Big : Moves fun w => w.writeU16Big value :=
  (moves_alignTo 1).comp (moves_octets _)

theorem moves_writeU32Little (value : UInt32) : Moves fun w => w.writeU32Little value :=
  (moves_alignTo 2).comp (moves_octets _)

theorem moves_writeU32Big (value : UInt32) : Moves fun w => w.writeU32Big value :=
  (moves_alignTo 2).comp (moves_octets _)

theorem moves_writeString (value : String) : Moves fun w => w.writeString value :=
  ((moves_writeU32 _).comp (moves_octets _)).comp (moves_octets _)

theorem moves_writeSentinel : Moves fun w => w.writeSentinel :=
  (moves_alignTo 2).comp (moves_choose fun s =>
    (moves_writeU16 (pidListEnd ||| s.plCdr1.pidFlags.flagsAt .sentinel)).comp (moves_writeU16 0))

theorem moves_writeWstringUnit (unit : UInt16) (width : Nat) (order : WstringUnitOrder) :
    Moves fun w => w.writeWstringUnit unit width order := by
  by_cases hwidth : width = 2
  · simp only [writeWstringUnit, if_pos hwidth]
    cases order with
    | stream => exact moves_writeU16 unit
    | bigEndianAlways => exact moves_writeU16Big unit
    | byteOrderMark => exact moves_writeU16Little unit
    | hostUnswapped => exact moves_writeU16Little unit
  · simp only [writeWstringUnit, if_neg hwidth]
    cases order with
    | stream => exact moves_writeU32 _
    | bigEndianAlways => exact moves_writeU32Big _
    | byteOrderMark => exact moves_writeU32Little _
    | hostUnswapped => exact moves_writeU32Little _

theorem moves_foldl {β : Type} {g : Writer → β → Writer} (hg : ∀ b, Moves fun w => g w b)
    (l : List β) : Moves fun w => l.foldl g w := by
  induction l with
  | nil => exact fun w₁ w₂ _ => ⟨[], .refl w₁, .refl w₂⟩
  | cons b rest ih => exact (hg b).comp ih

/-! ### Calls that can fail -/

section Movable

variable {f g : Writer → Except WireError Writer}

theorem Moves.movable {g : Writer → Writer} (hg : Moves g) : Movable fun w => .ok (g w) := by
  intro w₁ w₂ w₁' h hok
  obtain rfl := Except.ok.inj hok
  obtain ⟨octets, h₁, h₂⟩ := hg h
  exact ⟨octets, g w₂, rfl, h₁, h₂⟩

theorem movable_refuse (e : Writer → WireError) : Movable fun w => .error (e w) := by
  intro w₁ w₂ w₁' _ hok
  cases hok

theorem Movable.ite {p : Prop} [Decidable p] (hf : Movable f) (hg : Movable g) :
    Movable fun w => if p then f w else g w := by
  by_cases hp : p
  · simpa only [if_pos hp] using hf
  · simpa only [if_neg hp] using hg

theorem Movable.andThen (hf : Movable f) (hg : Movable g) : Movable fun w => (f w).bind g := by
  intro w₁ w₂ w₁' h hok
  cases hmid : f w₁ with
  | error e =>
    simp only [hmid] at hok
    cases hok
  | ok m₁ =>
    simp only [hmid] at hok
    obtain ⟨a, m₂, hm₂, h₁, h₂⟩ := hf h hmid
    obtain ⟨b, w₂', hw₂, h₁', h₂'⟩ := hg (h.extends h₁ h₂) hok
    refine ⟨a ++ b, w₂', ?_, h₁.trans h₁', h₂.trans h₂'⟩
    simp only [hm₂]
    exact hw₂

theorem movable_foldlM {β : Type} {element : Writer → β → Except WireError Writer} {l : List β}
    (h : ∀ b ∈ l, Movable fun w => element w b) : Movable fun w => l.foldlM element w := by
  induction l with
  | nil => exact Moves.movable fun w₁ w₂ _ => ⟨[], .refl w₁, .refl w₂⟩
  | cons b rest ih =>
    have hfirst := h b List.mem_cons_self
    have hrest := ih fun b' hb' => h b' (List.mem_cons_of_mem b hb')
    exact hfirst.andThen hrest

theorem movable_writeChar (c : Char) : Movable fun w => w.writeChar c :=
  (moves_octets _).movable.ite (movable_refuse _)

theorem movable_writeWchar (c : Char) (position : WirePosition) :
    Movable fun w => w.writeWchar c position := by
  intro w₁ w₂ w₁' h hok
  rcases w₁ with ⟨s, out₁, origin₁⟩
  rcases w₂ with ⟨s₂, out₂, origin₂⟩
  obtain rfl : s = s₂ := h.settings
  simp only [writeWchar] at hok ⊢
  by_cases hbmp : c.toNat > 0xFFFF
  · rw [if_pos hbmp] at hok
    cases hok
  rw [if_neg hbmp] at hok ⊢
  by_cases hframed : s.wcharFraming.hasLengthOctet position
  · rw [if_pos hframed] at hok ⊢
    exact ((moves_octets _).comp (moves_octets _)).movable h hok
  rw [if_neg hframed] at hok ⊢
  cases hwidth : s.wcharWidth with
  | two =>
    simp only [hwidth] at hok ⊢
    exact (moves_writeU16 _).movable h hok
  | four =>
    simp only [hwidth] at hok ⊢
    exact (moves_writeU32 _).movable h hok

theorem movable_writeBitmask (bitBound : UInt16) (bits : UInt64) :
    Movable fun w => w.writeBitmask bitBound bits :=
  (movable_refuse _).ite ((movable_refuse _).ite ((moves_octets _).movable.ite
    ((moves_writeU16 _).movable.ite ((moves_writeU32 _).movable.ite (moves_writeU64 _).movable))))

theorem movable_writeBitset (anchorBytes : UInt32) (bits : UInt64) :
    Movable fun w => w.writeBitset anchorBytes bits :=
  (moves_octets _).movable.ite ((moves_writeU16 _).movable.ite ((moves_writeU32 _).movable.ite
    ((moves_writeU64 _).movable.ite (movable_refuse _))))

theorem movable_writeStringBounded (value : String) (bound : Nat) :
    Movable fun w => w.writeStringBounded value bound :=
  (movable_refuse _).ite (moves_writeString value).movable

theorem movable_writeFixed (text : List Char) (digits scale : Nat) (policy : FixedDigits) :
    Movable fun w => w.writeFixed text digits scale policy := by
  intro w₁ w₂ w₁' _ hok
  simp only [writeFixed] at hok ⊢
  cases hnibbles : fixedNibbles text digits scale policy w₁.out.length with
  | error e =>
    rw [hnibbles] at hok
    cases hok
  | ok nibbles =>
    rw [hnibbles] at hok
    rw [fixedNibbles_offset hnibbles]
    obtain rfl := Except.ok.inj hok
    exact ⟨_, _, rfl, extend_extends w₁ _, extend_extends w₂ _⟩

variable {w₁ : Writer} {policy : WstringLengthPolicy} {position : WirePosition}
  {units : List UInt16}

theorem wstringUnits_anywhere {value : List Char}
    (h : w₁.wstringUnits value policy position = .ok units) (w₂ : Writer) :
    w₂.wstringUnits value policy position = .ok units := by
  unfold wstringUnits at h ⊢
  split at h
  · rename_i hnarrow
    rw [if_pos hnarrow]
    cases hfind : value.find? fun c => decide (c.toNat > 0xFFFF) with
    | some c =>
      rw [hfind] at h
      cases h
    | none =>
      rw [hfind] at h
      exact h
  · rename_i hwide
    rw [if_neg hwide]
    exact h

theorem wstringRun_anywhere {value : List Char} {order : WstringUnitOrder}
    (h : w₁.wstringRun value policy order position = .ok units) (w₂ : Writer) :
    w₂.wstringRun value policy order position = .ok units := by
  unfold wstringRun at h ⊢
  cases hunits : w₁.wstringUnits value policy position with
  | error e =>
    rw [hunits] at h
    cases h
  | ok text =>
    rw [hunits] at h
    rw [wstringUnits_anywhere hunits w₂]
    exact h

theorem movable_writeWstring (value : List Char) (policy : WstringLengthPolicy)
    (order : WstringUnitOrder) (position : WirePosition) :
    Movable fun w => w.writeWstring value policy order position := by
  intro w₁ w₂ w₁' h hok
  simp only [writeWstring] at hok ⊢
  cases hrun : w₁.wstringRun value policy order position with
  | error e =>
    rw [hrun] at hok
    cases hok
  | ok units =>
    rw [hrun] at hok
    rw [wstringRun_anywhere hrun w₂]
    simp only at hok ⊢
    cases hdeclared : policy.declaredLength units.length position with
    | none =>
      rw [hdeclared] at hok
      cases hok
    | some declared =>
      rw [hdeclared] at hok
      exact (((moves_writeU32 declared).comp (moves_foldl (fun unit =>
        moves_writeWstringUnit unit _ order) units)).movable h hok)

theorem movable_writeWstringBounded (value : List Char) (bound : Nat)
    (policy : WstringLengthPolicy) (order : WstringUnitOrder) (position : WirePosition) :
    Movable fun w => w.writeWstringBounded value bound policy order position :=
  (movable_refuse _).ite (movable_writeWstring value policy order position)

theorem movable_writeWstringUtf8 (value : String) (policy : WstringLengthPolicy)
    (position : WirePosition) : Movable fun w => w.writeWstringUtf8 value policy position :=
  (movable_refuse _).ite ((moves_writeU32 _).comp (moves_octets _)).movable

end Movable

end ZeroDds.Wire.Writer
