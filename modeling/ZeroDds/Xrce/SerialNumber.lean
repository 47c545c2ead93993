/-
Sixteen-bit serial numbers.

A serial number is a raw `u16`, the remainder of a message's number modulo `2^16`.
-/
import Mathlib.Tactic.Linarith

namespace ZeroDds.Xrce.SerialNumber16

def HALF_WINDOW : Nat := 32768

def wrappingAdd (a b : Nat) : Nat := (a + b) % 65536

def wrappingSub (a b : Nat) : Nat := (a + (65536 - b % 65536)) % 65536

def next (a : Nat) : Nat := wrappingAdd a 1

def wrappingLt (a b : Nat) : Bool :=
  let d := wrappingSub b a
  decide (0 < d) && decide (d < HALF_WINDOW)

def wrappingGt (a b : Nat) : Bool := wrappingLt b a

def serial (n : Nat) : Nat := n % 65536

theorem next_serial (n : Nat) : next (serial n) = serial (n + 1) := by
  simp only [next, wrappingAdd, serial]
  omega

theorem wrappingAdd_serial (n i : Nat) : wrappingAdd (serial n) i = serial (n + i) := by
  simp only [wrappingAdd, serial]
  omega

variable {m n : Nat}

theorem serial_inj (hmn : m < n + 65536) (hnm : n < m + 65536) (h : serial m = serial n) :
    m = n := by
  simp only [serial] at h
  omega

theorem wrappingSub_serial (h : m ≤ n) (hlt : n < m + 65536) :
    wrappingSub (serial n) (serial m) = n - m := by
  simp only [wrappingSub, serial]
  omega

theorem wrappingSub_serial_of_lt (h : m < n) (hlt : n < m + 65536) :
    wrappingSub (serial m) (serial n) = 65536 - (n - m) := by
  simp only [wrappingSub, serial]
  omega

theorem wrappingLt_of_lt (h : m < n) (hlt : n < m + HALF_WINDOW) :
    wrappingLt (serial m) (serial n) = true := by
  simp only [HALF_WINDOW] at hlt
  simp only [wrappingLt, wrappingSub_serial (Nat.le_of_lt h) (by omega), HALF_WINDOW,
    Bool.and_eq_true, decide_eq_true_eq]
  omega

theorem wrappingLt_of_le (h : n ≤ m) (hlt : m ≤ n + HALF_WINDOW) :
    wrappingLt (serial m) (serial n) = false := by
  simp only [HALF_WINDOW] at hlt
  rcases Nat.eq_or_lt_of_le h with rfl | hlt'
  · simp [wrappingLt, wrappingSub_serial (Nat.le_refl n) (by omega)]
  · simp only [wrappingLt, wrappingSub_serial_of_lt hlt' (by omega), HALF_WINDOW,
      Bool.and_eq_false_iff, decide_eq_false_iff_not]
    omega

def lastNumbered (count : Nat) (k : Nat) : Nat :=
  count - 1 - wrappingSub (serial (count - 1)) k

theorem lastNumbered_serial {count : Nat} (h : n < count) (hlt : count ≤ n + 65536) :
    lastNumbered count (serial n) = n := by
  unfold lastNumbered
  rw [wrappingSub_serial (by omega) (by omega)]
  omega

end ZeroDds.Xrce.SerialNumber16
