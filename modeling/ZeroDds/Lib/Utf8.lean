/-
UTF-8 texts as lists of octets.

`octets` writes a list of characters one after the other.
-/
import Mathlib.Data.List.Basic

namespace ZeroDds.Utf8

def octets (cs : List Char) : List UInt8 := cs.flatMap String.utf8EncodeChar

@[simp] theorem octets_nil : octets [] = [] := rfl

@[simp] theorem octets_cons (c : Char) (cs : List Char) :
    octets (c :: cs) = String.utf8EncodeChar c ++ octets cs := rfl

@[simp] theorem octets_append (cs ds : List Char) : octets (cs ++ ds) = octets cs ++ octets ds :=
  List.flatMap_append

theorem octets_toList (s : String) : s.toUTF8.data.toList = octets s.toList := by
  rw [String.toUTF8_eq_toByteArray, ← String.utf8Encode_toList, List.utf8Encode,
    List.data_toByteArray]
  rfl

def IsAscii (c : Char) : Prop := c.val ≤ 127

instance (c : Char) : Decidable (IsAscii c) := inferInstanceAs (Decidable (c.val ≤ 127))

variable {c : Char} {cs : List Char}

theorem encode_ascii (h : IsAscii c) : String.utf8EncodeChar c = [c.toUInt8] :=
  String.utf8EncodeChar_eq_singleton (Char.utf8Size_eq_one_iff.mpr h)

theorem encode_not_ascii (h : ¬IsAscii c) : ∀ b ∈ String.utf8EncodeChar c, 128 ≤ b := by
  have hlt : ¬c.val.toNat ≤ 0x7f := fun hle => h (UInt32.le_iff_toNat_le.mpr hle)
  have hbig : ∀ n, 128 ≤ n → n < 256 → (128 : UInt8) ≤ UInt8.ofNat n := by
    intro n hle hbound
    rw [UInt8.le_iff_toNat_le, UInt8.toNat_ofNat_of_lt' hbound]
    exact hle
  intro b hb
  unfold String.utf8EncodeChar at hb
  simp only [hlt, if_false] at hb
  split at hb
  · simp only [List.mem_cons, List.not_mem_nil, or_false] at hb
    rcases hb with rfl | rfl <;> apply hbig <;> omega
  · split at hb
    · simp only [List.mem_cons, List.not_mem_nil, or_false] at hb
      rcases hb with rfl | rfl | rfl <;> apply hbig <;> omega
    · simp only [List.mem_cons, List.not_mem_nil, or_false] at hb
      rcases hb with rfl | rfl | rfl | rfl <;> apply hbig <;> omega

theorem octets_ascii (h : ∀ c ∈ cs, IsAscii c) : octets cs = cs.map Char.toUInt8 := by
  induction cs with
  | nil => rfl
  | cons c cs ih =>
    rw [octets_cons, encode_ascii (h c List.mem_cons_self),
      ih fun d hd => h d (List.mem_cons_of_mem _ hd)]
    rfl

theorem toUInt8_toNat (h : IsAscii c) : c.toUInt8.toNat = c.val.toNat := by
  have hle : c.val.toNat ≤ 127 := UInt32.le_iff_toNat_le.mp h
  rw [Char.toUInt8, UInt32.toNat_toUInt8, Nat.mod_eq_of_lt (by omega)]

theorem toUInt8_lt (h : IsAscii c) : c.toUInt8 < 128 := by
  have hle : c.val.toNat ≤ 127 := UInt32.le_iff_toNat_le.mp h
  rw [UInt8.lt_iff_toNat_lt, toUInt8_toNat h]
  exact Nat.lt_succ_of_le hle

variable {d : Char} {b : UInt8} {rest : List UInt8}

theorem toUInt8_le (hc : IsAscii c) (hd : IsAscii d) : c.toUInt8 ≤ d.toUInt8 ↔ c ≤ d := by
  rw [UInt8.le_iff_toNat_le, toUInt8_toNat hc, toUInt8_toNat hd, Char.le_def,
    UInt32.le_iff_toNat_le]

theorem toUInt8_inj (hc : IsAscii c) (hd : IsAscii d) : c.toUInt8 = d.toUInt8 ↔ c = d := by
  constructor
  · intro h
    exact Char.le_antisymm ((toUInt8_le hc hd).mp (h ▸ UInt8.le_refl _))
      ((toUInt8_le hd hc).mp (h ▸ UInt8.le_refl _))
  · rintro rfl
    rfl

/-! ### Where characters begin -/

theorem isUTF8FirstByte_of_lt (h : b < 128) : b.IsUTF8FirstByte := by
  have hall : ∀ n : Fin 256, n.val < 128 → UInt8.ofNat n &&& 0x80 = 0 := by decide +kernel
  have hzero := hall ⟨b.toNat, b.toNat_lt⟩ (UInt8.lt_iff_toNat_lt.mp h)
  rw [UInt8.ofNat_toNat] at hzero
  exact .inl hzero

theorem exists_first_octet (c : Char) :
    ∃ b tail, String.utf8EncodeChar c = b :: tail ∧ b.IsUTF8FirstByte := by
  obtain ⟨b, tail, hb⟩ := List.exists_cons_of_ne_nil (@String.utf8EncodeChar_ne_nil c)
  have hlt : 0 < (String.utf8EncodeChar c).length := by
    rw [hb]
    exact Nat.succ_pos _
  have hzero := (@UInt8.isUTF8FirstByte_getElem_utf8EncodeChar c 0 hlt).mpr rfl
  refine ⟨b, tail, hb, ?_⟩
  simpa only [hb, List.getElem_cons_zero] using hzero

theorem octets_eq_append (h : octets cs = String.utf8EncodeChar c ++ rest) :
    ∃ ds, cs = c :: ds ∧ rest = octets ds := by
  cases cs with
  | nil =>
    have hnil := (List.append_eq_nil_iff.mp h.symm).1
    exact absurd hnil String.utf8EncodeChar_ne_nil
  | cons d ds =>
    have hd : ([d].utf8Encode ++ (octets ds).toByteArray).utf8DecodeChar? 0 = some d :=
      List.utf8DecodeChar?_utf8Encode_singleton_append
    have hc : ([c].utf8Encode ++ rest.toByteArray).utf8DecodeChar? 0 = some c :=
      List.utf8DecodeChar?_utf8Encode_singleton_append
    have hsame : [d].utf8Encode ++ (octets ds).toByteArray =
        [c].utf8Encode ++ rest.toByteArray := by
      rw [List.utf8Encode_singleton, List.utf8Encode_singleton, ← List.toByteArray_append,
        ← List.toByteArray_append, ← h, octets_cons]
    rw [hsame, hc, Option.some.injEq] at hd
    subst hd
    exact ⟨ds, rfl, (List.append_cancel_left h).symm⟩

theorem octets_suffix (hfirst : b.IsUTF8FirstByte) (h : b :: rest <:+ octets cs) :
    ∃ ds, ds <:+ cs ∧ b :: rest = octets ds := by
  induction cs with
  | nil => exact absurd (List.suffix_nil.mp h) (List.cons_ne_nil _ _)
  | cons c cs ih =>
    obtain ⟨front, hfront⟩ := h
    rcases List.append_eq_append_iff.mp hfront with ⟨tail, hc, htail⟩ | ⟨front', -, hlater⟩
    · cases tail with
      | nil =>
        obtain ⟨ds, hds, heq⟩ := ih (htail ▸ List.suffix_refl _)
        exact ⟨ds, hds.trans (List.suffix_cons c cs), heq⟩
      | cons x tail =>
        obtain ⟨rfl, -⟩ := List.cons.inj htail
        -- a first octet stands in front of its character
        have hlt : front.length < (String.utf8EncodeChar c).length := by
          rw [hc, List.length_append, List.length_cons]
          omega
        have hget : (String.utf8EncodeChar c)[front.length] = b := by
          simp [hc]
        have hzero := UInt8.isUTF8FirstByte_getElem_utf8EncodeChar.mp (hget ▸ hfirst)
        rw [List.length_eq_zero_iff] at hzero
        subst hzero
        refine ⟨c :: cs, List.suffix_refl _, ?_⟩
        rw [octets_cons, hc]
        exact htail
    · obtain ⟨ds, hds, heq⟩ := ih ⟨front', hlater.symm⟩
      exact ⟨ds, hds.trans (List.suffix_cons c cs), heq⟩

end ZeroDds.Utf8
