/-
Integers with a prefix of less than eight bits.

An integer below the largest of its prefix is in the first octet; of a larger one the rest follows
in groups of seven bits, the lowest first.
-/
import Mathlib.Data.Nat.Bitwise
import Mathlib.Tactic.Ring

namespace ZeroDds.Hpack

abbrev Octets := List UInt8

inductive IntegerError where
  | truncated
  | tooLarge
deriving DecidableEq

/-- The loop over the groups of seven bits; a value has fewer of them than it is large. -/
def encodeGroups : Nat → Nat → Octets
  | 0, v => [UInt8.ofNat v]
  | fuel + 1, v =>
    if v ≥ 128 then UInt8.ofNat ((v &&& 127) ||| 128) :: encodeGroups fuel (v >>> 7)
    else [UInt8.ofNat v]

def encodeInteger (value prefixBits outBytePrefixBits : Nat) : Octets :=
  let mask := 2 ^ prefixBits - 1
  if value < mask then [UInt8.ofNat (outBytePrefixBits ||| value)]
  else UInt8.ofNat (outBytePrefixBits ||| mask) :: encodeGroups (value - mask) (value - mask)

def decodeGroups : Octets → Nat → Nat → Nat → Except IntegerError (Nat × Nat)
  | [], _, _, _ => .error .truncated
  | b :: rest, value, shift, idx =>
    if shift ≥ 56 then .error .tooLarge
    else
      let value := value + ((b.toNat &&& 127) <<< shift)
      if value ≥ 18446744073709551616 then .error .tooLarge
      else if b.toNat &&& 128 = 0 then .ok (value, idx + 1)
      else decodeGroups rest value (shift + 7) (idx + 1)

def decodeInteger (input : Octets) (prefixBits : Nat) : Except IntegerError (Nat × Nat) :=
  match input with
  | [] => .error .truncated
  | b :: rest =>
    let mask := 2 ^ prefixBits - 1
    let first := b.toNat &&& mask
    if first < mask then .ok (first, 1)
    else decodeGroups rest mask 0 1

theorem and_mask (n k : Nat) : n &&& (2 ^ k - 1) = n % 2 ^ k := Nat.and_two_pow_sub_one_eq_mod n k

variable {n v value shift idx k bits : Nat} {rest : Octets}

theorem toNat_ofNat (h : n < 256) : (UInt8.ofNat n).toNat = n := by
  exact Nat.mod_eq_of_lt h

theorem or_group (n : Nat) : (n &&& 127) ||| 128 = n % 128 + 128 := by
  have hmod : n &&& 127 = n % 128 := and_mask n 7
  have hor : 128 + n % 128 = 128 ||| n % 128 :=
    Nat.two_pow_add_eq_or_of_lt (i := 7) (b := n % 128) (Nat.mod_lt _ (by decide)) 1
  rw [hmod, Nat.or_comm, ← hor, Nat.add_comm]

theorem and_high : ∀ n : Fin 256, (n.val &&& 128 = 0 ↔ n.val < 128) := by
  decide +kernel

theorem and_high_eq (h : n < 256) : n &&& 128 = 0 ↔ n < 128 := and_high ⟨n, h⟩

theorem decodeGroups_last (hv : v < 128) (hshift : shift < 56)
    (hvalue : value + v * 2 ^ shift < 18446744073709551616) :
    decodeGroups (UInt8.ofNat v :: rest) value shift idx =
      .ok (value + v * 2 ^ shift, idx + 1) := by
  have hlow : v &&& 127 = v := (and_mask v 7).trans (Nat.mod_eq_of_lt hv)
  have hbit : v &&& 128 = 0 := (and_high_eq (by omega)).mpr hv
  rw [decodeGroups, toNat_ofNat (by omega), if_neg (by omega), hlow, Nat.shiftLeft_eq]
  rw [if_neg (by omega), if_pos hbit]

theorem decodeGroups_more (hshift : shift < 56)
    (hvalue : value + v % 128 * 2 ^ shift < 18446744073709551616) :
    decodeGroups (UInt8.ofNat ((v &&& 127) ||| 128) :: rest) value shift idx =
      decodeGroups rest (value + v % 128 * 2 ^ shift) (shift + 7) (idx + 1) := by
  have hlow : (v % 128 + 128) &&& 127 = v % 128 := by
    rw [show 127 = 2 ^ 7 - 1 from rfl, and_mask]
    omega
  have hbit : ¬(v % 128 + 128) &&& 128 = 0 := by
    rw [and_high_eq (by omega)]
    omega
  rw [or_group, decodeGroups, toNat_ofNat (by omega), if_neg (by omega), hlow, Nat.shiftLeft_eq]
  rw [if_neg (by omega), if_neg hbit]

theorem decodeGroups_encodeGroups {fuel : Nat} (hfuel : v ≤ fuel) (hshift : 7 ∣ shift)
    (hv : v * 2 ^ shift < 2 ^ 56) (hpos : shift < 56)
    (hvalue : value + v * 2 ^ shift < 18446744073709551616) :
    decodeGroups (encodeGroups fuel v ++ rest) value shift idx =
      .ok (value + v * 2 ^ shift, idx + (encodeGroups fuel v).length) := by
  induction fuel generalizing v value shift idx with
  | zero => exact decodeGroups_last (by omega) hpos hvalue
  | succ fuel ih =>
    rw [encodeGroups]
    split
    · next hlarge =>
      have hsplit : v % 128 * 2 ^ shift + v / 128 * 2 ^ (shift + 7) = v * 2 ^ shift := by
        rw [Nat.pow_add, ← Nat.mul_assoc, Nat.mul_right_comm, ← Nat.add_mul]
        congr 1
        omega
      have hdiv : v >>> 7 = v / 128 := Nat.shiftRight_eq_div_pow v 7
      have hnext : shift + 7 < 56 := by
        by_contra hnot
        have hge : 2 ^ 56 ≤ 2 ^ (shift + 7) := Nat.pow_le_pow_right (by decide) (by omega)
        have hone : 1 * 2 ^ (shift + 7) ≤ v / 128 * 2 ^ (shift + 7) :=
          Nat.mul_le_mul_right _ (by omega)
        omega
      rw [List.cons_append, decodeGroups_more hpos (by omega), hdiv, ih (by omega)
        ((Nat.dvd_add_right hshift).mpr (dvd_refl 7)) (by omega) hnext (by omega),
        List.length_cons]
      congr 2
      · omega
      · omega
    · next hsmall => exact decodeGroups_last (by omega) hpos hvalue

theorem first_octet (hbits : 2 ^ k ∣ bits) (hlt : bits + (2 ^ k - 1) < 256) (hn : n < 2 ^ k) :
    (UInt8.ofNat (bits ||| n)).toNat = bits + n ∧ (bits + n) &&& (2 ^ k - 1) = n := by
  obtain ⟨q, rfl⟩ := hbits
  have hor : 2 ^ k * q ||| n = 2 ^ k * q + n := (Nat.two_pow_add_eq_or_of_lt hn q).symm
  rw [hor, toNat_ofNat (by omega), and_mask]
  exact ⟨rfl, by rw [Nat.mul_add_mod, Nat.mod_eq_of_lt hn]⟩

theorem decodeInteger_encodeInteger (hbits : 2 ^ k ∣ bits) (hlt : bits + (2 ^ k - 1) < 256)
    (hvalue : value < 2 ^ k - 1 + 2 ^ 56) :
    decodeInteger (encodeInteger value k bits ++ rest) k =
      .ok (value, (encodeInteger value k bits).length) := by
  unfold encodeInteger
  simp only
  split
  · next hsmall =>
    obtain ⟨hoctet, hmask⟩ := first_octet hbits hlt (show value < 2 ^ k by omega)
    rw [List.singleton_append, decodeInteger, hoctet, hmask]
    simp only [if_pos hsmall, List.length_singleton]
  · next hlarge =>
    obtain ⟨hoctet, hmask⟩ := first_octet hbits hlt (show 2 ^ k - 1 < 2 ^ k by omega)
    rw [List.cons_append, decodeInteger, hoctet, hmask]
    simp only [if_neg (Nat.lt_irrefl _)]
    rw [decodeGroups_encodeGroups (Nat.le_refl _) (dvd_zero 7) (by omega) (by decide) (by omega),
      List.length_cons]
    congr 2
    · omega
    · omega

theorem head_encodeInteger (hbits : 2 ^ k ∣ bits) (hlt : bits + (2 ^ k - 1) < 256) :
    ∃ (b : UInt8) (rest : Octets) (n : Nat), encodeInteger value k bits = b :: rest ∧
      b.toNat = bits + n ∧ n < 2 ^ k := by
  unfold encodeInteger
  simp only
  split
  · next hsmall =>
    have hn : value < 2 ^ k := by omega
    exact ⟨_, _, value, rfl, (first_octet hbits hlt hn).1, hn⟩
  · have hn : 2 ^ k - 1 < 2 ^ k := by omega
    exact ⟨_, _, 2 ^ k - 1, rfl, (first_octet hbits hlt hn).1, hn⟩

end ZeroDds.Hpack
