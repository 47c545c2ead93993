/-
Integers and strings as bytes, and parts of a byte string.

`ofLe_leBytes` and `signedOf_unsignedOf` undo the writing of an unsigned and of a two's-complement
integer that fits, `ofUtf8?_utf8Bytes` that of a string; `slice_at` reads a part back from where it
was written.
-/
import Mathlib.Algebra.Ring.Nat
import Mathlib.Data.List.Basic

namespace ZeroDds

def leBytes : Nat → Nat → List UInt8
  | 0, _ => []
  | width + 1, n => UInt8.ofNat n :: leBytes width (n / 256)

def ofLe : List UInt8 → Nat
  | [] => 0
  | b :: rest => b.toNat + 256 * ofLe rest

@[simp] theorem length_leBytes (width n : Nat) : (leBytes width n).length = width := by
  induction width generalizing n with
  | zero => rfl
  | succ width ih => rw [leBytes, List.length_cons, ih]

theorem ofLe_leBytes {width n : Nat} (h : n < 256 ^ width) : ofLe (leBytes width n) = n := by
  induction width generalizing n with
  | zero =>
    rw [Nat.pow_zero] at h
    rw [leBytes, ofLe]
    omega
  | succ width ih =>
    rw [Nat.pow_succ] at h
    have hrest : n / 256 < 256 ^ width := Nat.div_lt_of_lt_mul (by rw [Nat.mul_comm]; exact h)
    have hlow : (UInt8.ofNat n).toNat = n % 256 := by simp
    rw [leBytes, ofLe, ih hrest, hlow]
    omega

/-- Two's complement of a signed integer, where `half` is the first that does not fit. -/
def unsignedOf (half : Nat) (i : Int) : Nat := (i % (2 * half : Nat)).toNat

def signedOf (half n : Nat) : Int := if n < half then n else (n : Int) - (2 * half : Nat)

theorem unsignedOf_lt {half : Nat} (hpos : 0 < half) (i : Int) : unsignedOf half i < 2 * half := by
  have hlt := Int.emod_lt_of_pos i (show (0 : Int) < (2 * half : Nat) by omega)
  have hle := Int.emod_nonneg i (show ((2 * half : Nat) : Int) ≠ 0 by omega)
  unfold unsignedOf
  omega

theorem signedOf_unsignedOf {half : Nat} {i : Int} (hlow : -(half : Int) ≤ i) (hhigh : i < half) :
    signedOf half (unsignedOf half i) = i := by
  unfold signedOf unsignedOf
  by_cases hneg : i < 0
  · have hmod : i % (2 * half : Nat) = i + (2 * half : Nat) := by
      rw [← Int.add_emod_right]
      exact Int.emod_eq_of_lt (by omega) (by omega)
    rw [hmod]
    split <;> omega
  · have hmod : i % (2 * half : Nat) = i := Int.emod_eq_of_lt (by omega) (by omega)
    rw [hmod]
    split <;> omega

def utf8Bytes (s : String) : List UInt8 := s.toUTF8.data.toList

def ofUtf8? (bytes : List UInt8) : Option String := String.fromUTF8? ⟨bytes.toArray⟩

theorem ofUtf8?_utf8Bytes (s : String) : ofUtf8? (utf8Bytes s) = some s := by
  rw [ofUtf8?, utf8Bytes, Array.toArray_toList]
  exact dif_pos s.isValidUTF8

theorem utf8Bytes_ofList (l : List Char) :
    utf8Bytes (String.ofList l) = l.flatMap String.utf8EncodeChar := by
  rw [utf8Bytes, String.toUTF8_eq_toByteArray, String.toByteArray_ofList, List.utf8Encode]
  simp

variable {α : Type}

def slice (l : List α) (pos len : Nat) : Option (List α) :=
  if pos + len ≤ l.length then some ((l.drop pos).take len) else none

variable {before part after : List α} {pos : Nat}

theorem slice_at {len : Nat} (hpos : before.length = pos) (hlen : part.length = len) :
    slice (before ++ (part ++ after)) pos len = some part := by
  subst hpos hlen
  have hfits : before.length + part.length ≤ (before ++ (part ++ after)).length := by
    simp only [List.length_append]
    omega
  rw [slice, if_pos hfits, List.drop_left, List.take_left]

def overwrite (l : List α) (pos : Nat) (part : List α) : List α :=
  l.take pos ++ part ++ l.drop (pos + part.length)

def spliceAt (l : List α) (pos : Nat) (part : List α) : List α := l.take pos ++ part ++ l.drop pos

def drainAt (l : List α) (pos count : Nat) : List α := l.take pos ++ l.drop (pos + count)

section

variable (hpos : before.length = pos)
include hpos

theorem overwrite_at {hole : List α} (hlen : part.length = hole.length) :
    overwrite (before ++ (hole ++ after)) pos part = before ++ (part ++ after) := by
  subst hpos
  rw [overwrite, List.take_left, hlen, ← List.append_assoc before hole after,
    ← List.length_append, List.drop_left, List.append_assoc]

theorem overwrite_behind {front hole : List α} (hlen : part.length = hole.length) :
    overwrite (front ++ (before ++ (hole ++ after))) (front.length + pos) part =
      front ++ (before ++ (part ++ after)) := by
  have hboth : (front ++ before).length = front.length + pos := by rw [List.length_append, hpos]
  rw [← List.append_assoc, overwrite_at hboth hlen, List.append_assoc]

theorem spliceAt_at :
    spliceAt (before ++ after) pos part = before ++ (part ++ after) := by
  subst hpos
  rw [spliceAt, List.take_left, List.drop_left, List.append_assoc]

theorem drainAt_at {count : Nat} (hlen : part.length = count) :
    drainAt (before ++ (part ++ after)) pos count = before ++ after := by
  subst hpos hlen
  rw [drainAt, List.take_left, ← List.append_assoc before part after, ← List.length_append,
    List.drop_left]

end

end ZeroDds
