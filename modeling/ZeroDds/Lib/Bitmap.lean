/-
Bitmaps of 32-bit words, most significant bit first.

A window of `numBits` positions is stored in `⌈numBits / 32⌉` words; position `i` is bit `31 - i %
32` of word `i / 32`.
-/
import Mathlib.Data.List.Sort

namespace ZeroDds

abbrev Bitmap := List (BitVec 32)

namespace Bitmap

def words (numBits : Nat) : Nat := (numBits + 31) / 32

def setBit (b : Bitmap) (i : Nat) : Bitmap :=
  b.modify (i / 32) (· ||| 1#32 <<< (31 - i % 32))

def test (b : Bitmap) (i : Nat) : Bool :=
  match b[i / 32]? with
  | some w => (w >>> (31 - i % 32)) &&& 1#32 = 1#32
  | none => false

def ofPositions (numBits : Nat) (is : List Nat) : Bitmap :=
  is.foldl (fun b i => if numBits ≤ i then b else b.setBit i) (List.replicate (words numBits) 0#32)

def positions (numBits : Nat) (b : Bitmap) : List Nat := (List.range numBits).filter b.test

theorem shiftRight_and_one_eq (w : BitVec 32) (k : Nat) :
    (w >>> k) &&& 1#32 = 1#32 ↔ w.getLsbD k = true := by
  rw [BitVec.and_one_eq_setWidth_ofBool_getLsbD]
  simp only [BitVec.getLsbD_ushiftRight, Nat.add_zero]
  cases w.getLsbD k <;> decide

variable (numBits : Nat) (is : List Nat) (b : Bitmap)

theorem test_setBit (i j : Nat) (hi : i / 32 < b.length) :
    (b.setBit i).test j = (decide (j = i) || b.test j) := by
  unfold test setBit
  rw [List.getElem?_modify]
  by_cases hw : i / 32 = j / 32
  · have hmod : j = i ↔ 31 - j % 32 = 31 - i % 32 := by omega
    have hk : 31 - j % 32 < 32 := by omega
    rw [hw] at hi ⊢
    simp only [List.getElem?_eq_getElem hi, ↓reduceIte, hmod]
    rw [Bool.eq_iff_iff]
    simp only [decide_eq_true_eq, Bool.or_eq_true, shiftRight_and_one_eq]
    grind
  · have hne : j ≠ i := fun h => hw (h ▸ rfl)
    cases b[j / 32]? <;> simp [hw, hne]

theorem length_setBit (i : Nat) : (b.setBit i).length = b.length := by
  simp [setBit]

theorem length_ofPositions : (ofPositions numBits is).length = words numBits := by
  refine List.foldlRecOn is _ (motive := fun b : Bitmap => b.length = words numBits)
    List.length_replicate fun b hb i _ => ?_
  split
  · exact hb
  · exact (length_setBit b i).trans hb

theorem test_replicate_zero (n i : Nat) : test (List.replicate n 0#32) i = false := by
  unfold test
  rw [List.getElem?_replicate]
  by_cases h : i / 32 < n <;> simp [h]

theorem test_foldl_setBit {numBits : Nat} (hb : b.length = words numBits) (j : Nat) :
    (is.foldl (fun b i => if numBits ≤ i then b else b.setBit i) b).test j =
      (b.test j || decide (j ∈ is ∧ j < numBits)) := by
  induction is generalizing b with
  | nil => simp
  | cons i is ih =>
    rw [List.foldl_cons]
    split
    · next h =>
      rw [ih b hb]
      have : j < numBits → j ≠ i := by omega
      congr 1
      simp only [List.mem_cons, decide_eq_decide]
      tauto
    · next h =>
      have hlen : i / 32 < b.length := by rw [hb]; unfold words; omega
      rw [ih _ ((length_setBit b i).trans hb), test_setBit b i j hlen]
      by_cases hj : j = i
      · subst hj; simp [not_le.mp h]
      · simp [hj]

theorem test_ofPositions (j : Nat) :
    (ofPositions numBits is).test j = decide (j ∈ is ∧ j < numBits) := by
  rw [ofPositions, test_foldl_setBit is _ (by simp) j, test_replicate_zero, Bool.false_or]

theorem positions_ofPositions {is : List Nat} (his : is.Pairwise (· < ·)) :
    positions numBits (ofPositions numBits is) = is.filter (· < numBits) := by
  have hl : (positions numBits (ofPositions numBits is)).Pairwise (· < ·) :=
    List.pairwise_lt_range.filter _
  have hr : (is.filter (· < numBits)).Pairwise (· < ·) := his.filter _
  have nodup : ∀ {l : List Nat}, l.Pairwise (· < ·) → l.Nodup := fun h => h.imp Nat.ne_of_lt
  have hperm := (List.perm_ext_iff_of_nodup (nodup hl) (nodup hr)).mpr fun j => by
    simp only [positions, List.mem_filter, List.mem_range, test_ofPositions, decide_eq_true_eq]
    tauto
  exact hperm.eq_of_pairwise (fun a b _ _ hab hba => absurd (hab.trans hba) (lt_irrefl a)) hl hr

end Bitmap
end ZeroDds
