/-
Numbers as bits, the highest first.

`toBits n v` is the `n` low bits of `v`.
-/
import Mathlib.Data.List.Basic
import Mathlib.Data.Nat.Bitwise

namespace ZeroDds

def toBits : Nat → Nat → List Bool
  | 0, _ => []
  | n + 1, v => v.testBit n :: toBits n v

@[simp] theorem length_toBits (n v : Nat) : (toBits n v).length = n := by
  induction n with
  | zero => rfl
  | succ n ih => rw [toBits, List.length_cons, ih]

variable {n v m : Nat}

theorem toBits_congr {w : Nat} (h : ∀ i, i < n → v.testBit i = w.testBit i) :
    toBits n v = toBits n w := by
  induction n with
  | zero => rfl
  | succ n ih =>
    rw [toBits, toBits, h n (Nat.lt_succ_self n), ih fun i hi => h i (Nat.lt_succ_of_lt hi)]

theorem toBits_mod {k : Nat} (h : n ≤ k) : toBits n (v % 2 ^ k) = toBits n v := by
  refine toBits_congr fun i hi => ?_
  rw [Nat.testBit_mod_two_pow, decide_eq_true (by omega), Bool.true_and]

theorem toBits_add (m n v : Nat) : toBits (m + n) v = toBits m (v >>> n) ++ toBits n v := by
  induction m with
  | zero => rw [Nat.zero_add, toBits, List.nil_append]
  | succ m ih =>
    rw [Nat.succ_add, toBits, toBits, ih, Nat.testBit_shiftRight, Nat.add_comm n m,
      List.cons_append]

theorem toBits_split (h : m ≤ n) : toBits n v = toBits m (v >>> (n - m)) ++ toBits (n - m) v := by
  rw [← toBits_add, Nat.add_sub_cancel' h]

theorem toBits_shift_or {a b : Nat} (hb : b < 2 ^ n) :
    toBits (m + n) (a <<< n ||| b) = toBits m a ++ toBits n b := by
  have hhigh : (a <<< n ||| b) >>> n = a := by
    refine Nat.eq_of_testBit_eq fun i => ?_
    have hnone : b.testBit (n + i) = false :=
      Nat.testBit_lt_two_pow (hb.trans_le (Nat.pow_le_pow_right (by decide) (Nat.le_add_right _ _)))
    rw [Nat.testBit_shiftRight, Nat.testBit_or, Nat.testBit_shiftLeft, hnone, Bool.or_false,
      decide_eq_true (Nat.le_add_right _ _), Bool.true_and, Nat.add_sub_cancel_left]
  have hlow : toBits n (a <<< n ||| b) = toBits n b := by
    refine toBits_congr fun i hi => ?_
    rw [Nat.testBit_or, Nat.testBit_shiftLeft, decide_eq_false (by omega), Bool.false_and,
      Bool.false_or]
  rw [toBits_add, hhigh, hlow]

theorem toBits_inj {w : Nat} (hv : v < 2 ^ n) (hw : w < 2 ^ n) (h : toBits n v = toBits n w) :
    v = w := by
  have hbits : ∀ k, k ≤ n → toBits k v = toBits k w → ∀ i, i < k → v.testBit i = w.testBit i := by
    intro k
    induction k with
    | zero => intro _ _ i hi; exact absurd hi (Nat.not_lt_zero i)
    | succ k ih =>
      intro hk heq i hi
      obtain ⟨hhead, htail⟩ := List.cons.inj heq
      rcases Nat.lt_succ_iff_lt_or_eq.mp hi with hi | rfl
      · exact ih (by omega) htail i hi
      · exact hhead
  refine Nat.eq_of_testBit_eq fun i => ?_
  by_cases hi : i < n
  · exact hbits n (Nat.le_refl n) h i hi
  · have hpow : 2 ^ n ≤ 2 ^ i := Nat.pow_le_pow_right (by decide) (by omega)
    rw [Nat.testBit_lt_two_pow (hv.trans_le hpow), Nat.testBit_lt_two_pow (hw.trans_le hpow)]

theorem toBits_ones (n : Nat) : toBits n (2 ^ n - 1) = List.replicate n true := by
  have hall : ∀ k, k ≤ n → toBits k (2 ^ n - 1) = List.replicate k true := by
    intro k
    induction k with
    | zero => intro _; rfl
    | succ k ih =>
      intro hk
      rw [toBits, ih (by omega), Nat.testBit_two_pow_sub_one, decide_eq_true (by omega),
        List.replicate_succ]
  exact hall n (Nat.le_refl n)

theorem toBits_prefix_iff {c : Nat} (hc : c < 2 ^ m) :
    toBits m c <+: toBits n v ↔ m ≤ n ∧ (v >>> (n - m)) % 2 ^ m = c := by
  constructor
  · intro h
    have hle : m ≤ n := by
      have hlen := h.length_le
      rw [length_toBits, length_toBits] at hlen
      exact hlen
    refine ⟨hle, ?_⟩
    rw [toBits_split hle] at h
    have heq : toBits m c = toBits m (v >>> (n - m)) := by
      have htake := List.prefix_iff_eq_take.mp h
      rw [length_toBits, List.take_left' (length_toBits _ _)] at htake
      exact htake
    refine toBits_inj (Nat.mod_lt _ (Nat.two_pow_pos m)) hc ?_
    rw [toBits_mod (Nat.le_refl m), heq]
  · rintro ⟨hle, rfl⟩
    rw [toBits_mod (Nat.le_refl m), toBits_split hle]
    exact List.prefix_append _ _

def bitsOf (bytes : List UInt8) : List Bool := bytes.flatMap fun b => toBits 8 b.toNat

theorem bitsOf_cons (b : UInt8) (bytes : List UInt8) :
    bitsOf (b :: bytes) = toBits 8 b.toNat ++ bitsOf bytes := List.flatMap_cons

theorem bitsOf_append (a b : List UInt8) : bitsOf (a ++ b) = bitsOf a ++ bitsOf b :=
  List.flatMap_append

theorem length_bitsOf (bytes : List UInt8) : (bitsOf bytes).length = 8 * bytes.length := by
  induction bytes with
  | nil => rfl
  | cons b bytes ih =>
    rw [bitsOf_cons, List.length_append, length_toBits, ih, List.length_cons]
    omega

theorem bitsOf_inj {a b : List UInt8} (h : bitsOf a = bitsOf b) : a = b := by
  have hlen := congrArg List.length h
  rw [length_bitsOf, length_bitsOf] at hlen
  induction a generalizing b with
  | nil => exact (List.eq_nil_of_length_eq_zero (by rw [List.length_nil] at hlen; omega)).symm
  | cons x a ih =>
    cases b with
    | nil => simp at hlen
    | cons y b =>
      obtain ⟨hbyte, hrest⟩ := List.append_inj h (by rw [length_toBits, length_toBits])
      rw [UInt8.toNat_inj.mp (toBits_inj x.toNat_lt y.toNat_lt hbyte),
        ih hrest (by simpa using hlen)]

theorem bitsOf_take (bytes : List UInt8) (k : Nat) :
    bitsOf (bytes.take k) = (bitsOf bytes).take (8 * k) := by
  induction bytes generalizing k with
  | nil => simp [bitsOf]
  | cons b bytes ih =>
    cases k with
    | zero => rfl
    | succ k =>
      have hfirst : (toBits 8 b.toNat).take (8 * (k + 1)) = toBits 8 b.toNat :=
        List.take_of_length_le (by rw [length_toBits]; omega)
      rw [List.take_succ_cons, bitsOf_cons, bitsOf_cons, ih, List.take_append, hfirst,
        length_toBits, Nat.mul_succ, Nat.add_sub_cancel]

end ZeroDds
