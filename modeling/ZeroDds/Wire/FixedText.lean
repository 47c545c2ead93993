/-
The number a decimal text denotes, and its one spelling.
-/
import Mathlib.Data.List.TakeWhile
import Mathlib.Data.Nat.Digits.Lemmas
import Mathlib.Tactic.FieldSimp
import ZeroDds.Wire.Reader

namespace ZeroDds.Wire

open Reader

variable {c : Char}

section

variable (h : c.isDigit = true)
include h

theorem isDigit_toNat : 48 ≤ c.toNat ∧ c.toNat ≤ 57 := by
  unfold Char.isDigit at h
  simp only [Bool.and_eq_true, decide_eq_true_eq] at h
  exact ⟨UInt32.le_iff_toNat_le.mp h.1, UInt32.le_iff_toNat_le.mp h.2⟩

theorem toNat_digitOf : (digitOf c).toNat = c.toNat - 48 := by
  have hrange := isDigit_toNat h
  show (UInt8.ofNat (c.toNat - 48)).toNat = c.toNat - 48
  rw [UInt8.toNat_ofNat']
  omega

theorem digitOf_lt : (digitOf c).toNat < 10 := by
  have hrange := isDigit_toNat h
  rw [toNat_digitOf h]
  omega

theorem digitChar_digitOf : digitChar (digitOf c) = c := by
  have hrange := isDigit_toNat h
  show Char.ofNat (48 + (digitOf c).toNat) = c
  rw [toNat_digitOf h, show 48 + (c.toNat - 48) = c.toNat by omega, Char.ofNat_toNat]

end

theorem map_digitChar {l : List Char} (h : l.all Char.isDigit = true) :
    (l.map digitOf).map digitChar = l := by
  rw [List.map_map]
  conv_rhs => rw [← List.map_id l]
  refine List.map_congr_left fun c hc => ?_
  exact digitChar_digitOf (List.all_eq_true.mp h c hc)

/-! ### Parts of a text -/

structure Parsed (text : List Char) (digits scale : Nat) (parts : FixedParts) : Prop where
  digits_pos : digits ≠ 0
  digits_le : digits ≤ 31
  scale_le : scale ≤ digits
  negative : parts.negative = (splitSign text).1
  whole : parts.whole = trimZeros (splitPoint (splitSign text).2).1
  fraction : parts.fraction = (splitPoint (splitSign text).2).2
  nonempty : ¬ ((splitPoint (splitSign text).2).1 = [] ∧ parts.fraction = [])
  whole_digits : (splitPoint (splitSign text).2).1.all Char.isDigit = true
  fraction_digits : parts.fraction.all Char.isDigit = true
  whole_fits : parts.whole.length ≤ digits - scale
  fraction_fits : parts.fraction.length ≤ scale

variable {scale : Nat} {text : List Char} {digits : Nat} {parts : FixedParts}

theorem parseFixed_ok {offset : Nat} :
    parseFixed text digits scale offset = .ok parts ↔ Parsed text digits scale parts := by
  unfold parseFixed
  constructor
  · intro h
    simp only at h
    split_ifs at h with h1 h2 h3 h4 h5 h6 h7
    obtain rfl := Except.ok.inj h
    simp only [Bool.and_eq_true, List.isEmpty_iff] at h4
    have hdigits : ((splitPoint (splitSign text).2).1 ++
        (splitPoint (splitSign text).2).2).all Char.isDigit = true := by
      simpa using h5
    rw [List.all_append, Bool.and_eq_true] at hdigits
    exact ⟨h1, Nat.not_lt.mp h2, Nat.not_lt.mp h3, rfl, rfl, rfl, h4, hdigits.1, hdigits.2,
      Nat.not_lt.mp h6, Nat.not_lt.mp h7⟩
  · intro h
    have hparts : parts = ⟨(splitSign text).1, trimZeros (splitPoint (splitSign text).2).1,
        (splitPoint (splitSign text).2).2⟩ := by
      rw [← h.negative, ← h.whole, ← h.fraction]
    simp only
    rw [if_neg h.digits_pos, if_neg (by have := h.digits_le; omega),
      if_neg (by have := h.scale_le; omega), if_neg, if_neg, if_neg, if_neg, ← hparts]
    · rw [← h.fraction]
      exact Nat.not_lt.mpr h.fraction_fits
    · rw [← h.whole]
      exact Nat.not_lt.mpr h.whole_fits
    · rw [← h.fraction, List.all_append, h.whole_digits, h.fraction_digits]
      decide
    · rw [← h.fraction]
      simp only [Bool.and_eq_true, List.isEmpty_iff]
      exact h.nonempty

def digitsValue (digits : List UInt8) : Nat := Nat.ofDigits 10 (digits.map UInt8.toNat).reverse

def decimalNumber (text : List Char) : ℚ :=
  (if (splitSign text).1 then -1 else 1) *
    (digitsValue (((splitPoint (splitSign text).2).1 ++ (splitPoint (splitSign text).2).2).map
      digitOf) / 10 ^ (splitPoint (splitSign text).2).2.length)

theorem digitsValue_append (a b : List UInt8) :
    digitsValue (a ++ b) = digitsValue a * 10 ^ b.length + digitsValue b := by
  unfold digitsValue
  rw [List.map_append, List.reverse_append, Nat.ofDigits_append, List.length_reverse,
    List.length_map]
  ring

variable (k : Nat) (l : List Char)

theorem digitsValue_zeros : digitsValue (List.replicate k 0) = 0 := by
  unfold digitsValue
  rw [List.map_replicate, List.reverse_replicate]
  exact Nat.ofDigits_replicate_zero

theorem digitsValue_zeros_append (l : List UInt8) :
    digitsValue (List.replicate k 0 ++ l) = digitsValue l := by
  rw [digitsValue_append, digitsValue_zeros, Nat.zero_mul, Nat.zero_add]

theorem digitsValue_append_zeros (l : List UInt8) (k : Nat) :
    digitsValue (l ++ List.replicate k 0) = digitsValue l * 10 ^ k := by
  rw [digitsValue_append, digitsValue_zeros, List.length_replicate, Nat.add_zero]

theorem exists_zeros_trimZeros : ∃ k, l = List.replicate k '0' ++ trimZeros l := by
  induction l with
  | nil => exact ⟨0, rfl⟩
  | cons c rest ih =>
    by_cases hc : c = '0'
    · obtain ⟨k, hk⟩ := ih
      refine ⟨k + 1, ?_⟩
      subst hc
      show '0' :: rest = '0' :: (List.replicate k '0' ++ trimZeros rest)
      rw [← hk]
    · refine ⟨0, ?_⟩
      have hkeep : trimZeros (c :: rest) = c :: rest := by
        unfold trimZeros
        rw [List.dropWhile_cons_of_neg (by simpa using hc)]
      rw [hkeep]
      rfl

theorem digitsValue_trimZeros (rest : List Char) :
    digitsValue ((trimZeros l ++ rest).map digitOf) = digitsValue ((l ++ rest).map digitOf) := by
  obtain ⟨k, hk⟩ := exists_zeros_trimZeros l
  have hall : (l ++ rest).map digitOf =
      List.replicate k 0 ++ (trimZeros l ++ rest).map digitOf := by
    conv_lhs => rw [hk, List.append_assoc, List.map_append, List.map_replicate]
    rfl
  rw [hall, digitsValue_zeros_append]

theorem digitsValue_allDigits (parts : FixedParts) (digits scale : Nat) :
    digitsValue (allDigits parts digits scale) =
      digitsValue ((parts.whole ++ parts.fraction).map digitOf) *
        10 ^ (scale - parts.fraction.length) := by
  unfold allDigits
  rw [digitsValue_append_zeros, List.append_assoc, digitsValue_zeros_append, List.map_append]

theorem decimalNumber_eq (h : Parsed text digits scale parts) :
    decimalNumber text = (if parts.negative then -1 else 1) *
      (digitsValue (allDigits parts digits scale) / 10 ^ scale) := by
  have hvalue : digitsValue ((parts.whole ++ parts.fraction).map digitOf) =
      digitsValue (((splitPoint (splitSign text).2).1 ++ parts.fraction).map digitOf) := by
    rw [h.whole, digitsValue_trimZeros]
  have hscale : (10 : ℚ) ^ scale =
      10 ^ parts.fraction.length * 10 ^ (scale - parts.fraction.length) := by
    rw [← pow_add, Nat.add_sub_cancel' h.fraction_fits]
  have hne : (10 : ℚ) ^ (scale - parts.fraction.length) ≠ 0 := pow_ne_zero _ (by norm_num)
  rw [digitsValue_allDigits, hvalue, hscale, decimalNumber, ← h.negative, ← h.fraction]
  push_cast
  rw [mul_div_mul_right _ _ hne]

/-! ### The one spelling -/

theorem trimZeros_zeros_append : trimZeros (List.replicate k '0' ++ l) = trimZeros l := by
  induction k with
  | zero => rfl
  | succ k ih => exact ih

theorem trimZeros_trimZeros : trimZeros (trimZeros l) = trimZeros l := by
  obtain ⟨k, hk⟩ := exists_zeros_trimZeros l
  conv_rhs => rw [hk, trimZeros_zeros_append]

theorem spellFixed_split {value : List UInt8} {whole fraction : List Char}
    (h : spelledDigits value scale = whole ++ fraction) (hfraction : fraction.length = scale)
    (negative : Bool) :
    spellFixed negative value scale =
      (if negative && !((trimZeros whole).isEmpty && fraction.all (· == '0')) then ['-'] else []) ++
        (if (trimZeros whole).isEmpty then ['0'] else trimZeros whole) ++
        (if scale > 0 then '.' :: fraction else []) := by
  have hlength : (spelledDigits value scale).length - scale = whole.length := by
    rw [h, List.length_append, hfraction, Nat.add_sub_cancel]
  have htake : (spelledDigits value scale).take ((spelledDigits value scale).length - scale) =
      whole := by
    rw [hlength, h, List.take_left]
  have hdrop : (spelledDigits value scale).drop ((spelledDigits value scale).length - scale) =
      fraction := by
    rw [hlength, h, List.drop_left]
  simp [spellFixed, htake, hdrop]

def paddedFraction (parts : FixedParts) (scale : Nat) : List Char :=
  parts.fraction ++ List.replicate (scale - parts.fraction.length) '0'

def isNegative (parts : FixedParts) (scale : Nat) : Bool :=
  parts.negative && !(parts.whole.isEmpty && (paddedFraction parts scale).all (· == '0'))

def canonicalFixed (parts : FixedParts) (scale : Nat) : List Char :=
  (if isNegative parts scale then ['-'] else []) ++
    (if parts.whole.isEmpty then ['0'] else parts.whole) ++
    (if scale > 0 then '.' :: paddedFraction parts scale else [])

section Parsed

variable {text : List Char} {digits scale : Nat} {parts : FixedParts}

section

variable (h : Parsed text digits scale parts)
include h

theorem Parsed.length_paddedFraction :
    (paddedFraction parts scale).length = scale := by
  have hfits := h.fraction_fits
  rw [paddedFraction, List.length_append, List.length_replicate]
  omega

theorem Parsed.whole_all :
    parts.whole.all Char.isDigit = true := by
  rw [h.whole, List.all_eq_true]
  intro c hc
  exact List.all_eq_true.mp h.whole_digits c ((List.dropWhile_sublist _).subset hc)

theorem Parsed.length_allDigits :
    (allDigits parts digits scale).length = digits := by
  have hwhole := h.whole_fits
  have hfraction := h.fraction_fits
  have hscale := h.scale_le
  simp only [allDigits, List.length_append, List.length_replicate, List.length_map]
  omega

theorem Parsed.map_allDigits :
    (allDigits parts digits scale).map digitChar =
      List.replicate (digits - scale - parts.whole.length) '0' ++
        (parts.whole ++ paddedFraction parts scale) := by
  have hzero : digitChar 0 = '0' := rfl
  simp only [allDigits, paddedFraction, List.map_append, List.map_replicate, hzero,
    map_digitChar h.whole_all, map_digitChar h.fraction_digits, List.append_assoc]

theorem Parsed.spell_digits {value : List UInt8} {j k : Nat}
    (hvalue : List.replicate j 0 ++ value = List.replicate k 0 ++ allDigits parts digits scale)
    (negative : Bool) :
    spellFixed negative value scale = canonicalFixed { parts with negative := negative } scale := by
  have hzero : digitChar 0 = '0' := rfl
  have hmap : List.replicate j '0' ++ value.map digitChar = List.replicate k '0' ++
      (List.replicate (digits - scale - parts.whole.length) '0' ++
        (parts.whole ++ paddedFraction parts scale)) := by
    rw [← h.map_allDigits, ← hzero, ← List.map_replicate, ← List.map_append, hvalue,
      List.map_append, List.map_replicate]
  -- The spelled digits are a tail of the whole text's, and long enough to hold the fraction.
  have htail : List.replicate j '0' ++ spelledDigits value scale =
      (List.replicate (scale + 1 - value.length) '0' ++ (List.replicate k '0' ++
        (List.replicate (digits - scale - parts.whole.length) '0' ++ parts.whole))) ++
          paddedFraction parts scale := by
    rw [spelledDigits, ← List.append_assoc, List.replicate_append_replicate, Nat.add_comm,
      ← List.replicate_append_replicate, List.append_assoc, hmap]
    simp
  have hlong : scale < (spelledDigits value scale).length := by
    rw [spelledDigits, List.length_append, List.length_replicate, List.length_map]
    omega
  have hfraction := h.length_paddedFraction
  rcases List.append_eq_append_iff.mp htail with ⟨whole, hwhole, hsplit⟩ | ⟨rest, _, hrest⟩
  · have htrim : trimZeros whole = parts.whole := by
      rw [← trimZeros_zeros_append j whole, ← hwhole, trimZeros_zeros_append,
        trimZeros_zeros_append, trimZeros_zeros_append, h.whole, trimZeros_trimZeros]
    rw [spellFixed_split hsplit hfraction, htrim]
    rfl
  · have hshort := congrArg List.length hrest
    rw [List.length_append, hfraction] at hshort
    omega

end

/-! The one spelling is accepted again. -/

theorem splitSign_digit (h : c.isDigit = true) (rest : List Char) :
    splitSign (c :: rest) = (false, c :: rest) := by
  unfold splitSign
  split
  · rename_i heq
    obtain ⟨rfl, _⟩ := List.cons.inj heq
    exact absurd h (by decide)
  · rename_i heq
    obtain ⟨rfl, _⟩ := List.cons.inj heq
    exact absurd h (by decide)
  · rfl

variable {l : List Char}

section

variable (h : l.all Char.isDigit = true)
include h

theorem point_not_mem : ∀ c ∈ l, (c != '.') = true := by
  intro c hc
  have hdigit := List.all_eq_true.mp h c hc
  rw [bne_iff_ne]
  rintro rfl
  exact absurd hdigit (by decide)

theorem splitPoint_digits : splitPoint l = (l, []) := by
  have hdrop : l.dropWhile (· != '.') = [] := List.dropWhile_eq_nil_iff.mpr (point_not_mem h)
  rw [splitPoint, splitOnce, hdrop]
  rfl

theorem splitPoint_point (rest : List Char) :
    splitPoint (l ++ '.' :: rest) = (l, rest) := by
  have hdrop : (l ++ '.' :: rest).dropWhile (· != '.') = '.' :: rest := by
    rw [List.dropWhile_append_of_pos (point_not_mem h)]
    rfl
  have htake : (l ++ '.' :: rest).takeWhile (· != '.') = l := by
    rw [List.takeWhile_append_of_pos (point_not_mem h)]
    simp
  rw [splitPoint, splitOnce, hdrop, htake]
  rfl

end

def spelledWhole (parts : FixedParts) : List Char :=
  if parts.whole.isEmpty then ['0'] else parts.whole

section

variable (h : Parsed text digits scale parts)
include h

theorem Parsed.spelledWhole_all :
    (spelledWhole parts).all Char.isDigit = true := by
  unfold spelledWhole
  split
  · rfl
  · exact h.whole_all

theorem Parsed.trim_spelledWhole :
    trimZeros (spelledWhole parts) = parts.whole := by
  unfold spelledWhole
  split
  · rename_i hempty
    rw [List.isEmpty_iff.mp hempty]
    rfl
  · rw [h.whole, trimZeros_trimZeros]

theorem Parsed.paddedFraction_all :
    (paddedFraction parts scale).all Char.isDigit = true := by
  rw [paddedFraction, List.all_append, h.fraction_digits, Bool.true_and, List.all_eq_true]
  intro c hc
  rw [List.eq_of_mem_replicate hc]
  rfl

end

theorem exists_spelledWhole (parts : FixedParts) : ∃ c rest, spelledWhole parts = c :: rest := by
  unfold spelledWhole
  split
  · exact ⟨'0', [], rfl⟩
  · rename_i hempty
    cases hwhole : parts.whole with
    | nil =>
      rw [hwhole] at hempty
      exact absurd rfl hempty
    | cons c rest => exact ⟨c, rest, rfl⟩

theorem Parsed.splitSign_canonical (h : Parsed text digits scale parts) :
    splitSign (canonicalFixed parts scale) = (isNegative parts scale,
      spelledWhole parts ++ if scale > 0 then '.' :: paddedFraction parts scale else []) := by
  obtain ⟨c, rest, hfirst⟩ := exists_spelledWhole parts
  have hdigit : c.isDigit = true := by
    have hall := h.spelledWhole_all
    rw [hfirst] at hall
    exact List.all_eq_true.mp hall c List.mem_cons_self
  have hcanonical : canonicalFixed parts scale =
      (if isNegative parts scale then ['-'] else []) ++ (spelledWhole parts ++
        if scale > 0 then '.' :: paddedFraction parts scale else []) := by
    rw [canonicalFixed, List.append_assoc]
    rfl
  rw [hcanonical]
  cases isNegative parts scale with
  | true => rfl
  | false =>
    rw [hfirst]
    exact splitSign_digit hdigit _

theorem Parsed.splitPoint_canonical (h : Parsed text digits scale parts) :
    splitPoint (splitSign (canonicalFixed parts scale)).2 =
      (spelledWhole parts, paddedFraction parts scale) := by
  rw [h.splitSign_canonical]
  by_cases hscale : scale > 0
  · simp only [if_pos hscale]
    exact splitPoint_point h.spelledWhole_all _
  · have hnone : paddedFraction parts scale = [] := by
      apply List.eq_nil_of_length_eq_zero
      rw [h.length_paddedFraction]
      omega
    simp only [if_neg hscale, List.append_nil]
    rw [splitPoint_digits h.spelledWhole_all, hnone]

def canonicalParts (parts : FixedParts) (scale : Nat) : FixedParts :=
  ⟨isNegative parts scale, parts.whole, paddedFraction parts scale⟩

theorem Parsed.canonical (h : Parsed text digits scale parts) :
    Parsed (canonicalFixed parts scale) digits scale (canonicalParts parts scale) where
  digits_pos := h.digits_pos
  digits_le := h.digits_le
  scale_le := h.scale_le
  negative := by rw [h.splitSign_canonical]; rfl
  whole := by rw [h.splitPoint_canonical]; exact h.trim_spelledWhole.symm
  fraction := by rw [h.splitPoint_canonical]; rfl
  nonempty := by
    rw [h.splitPoint_canonical]
    obtain ⟨c, rest, hfirst⟩ := exists_spelledWhole parts
    rintro ⟨hwhole, _⟩
    rw [hfirst] at hwhole
    cases hwhole
  whole_digits := by rw [h.splitPoint_canonical]; exact h.spelledWhole_all
  fraction_digits := h.paddedFraction_all
  whole_fits := h.whole_fits
  fraction_fits := Nat.le_of_eq h.length_paddedFraction

theorem Parsed.allDigits_canonical (h : Parsed text digits scale parts) :
    allDigits (canonicalParts parts scale) digits scale = allDigits parts digits scale := by
  have hzero : digitOf '0' = 0 := rfl
  simp only [allDigits, canonicalParts, h.length_paddedFraction, Nat.sub_self,
    List.replicate_zero, List.append_nil]
  rw [paddedFraction, List.map_append, List.map_replicate, hzero, ← List.append_assoc]

end Parsed

end ZeroDds.Wire
