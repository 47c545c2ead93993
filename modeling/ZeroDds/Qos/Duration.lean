/-
Durations: signed seconds and a fraction counted in 2^-32 seconds.
-/
import ZeroDds.Dcps.Types

namespace ZeroDds.Qos

open Dcps

structure Duration where
  seconds : Int
  fraction : Nat
  lowest : i32Min ≤ seconds
  highest : seconds ≤ i32Max
  fraction_lt : fraction < 4294967296

namespace Duration

/-- The derived order: by seconds, then by fraction. -/
instance : LE Duration :=
  ⟨fun a b => a.seconds < b.seconds ∨ a.seconds = b.seconds ∧ a.fraction ≤ b.fraction⟩

def infinite : Duration := ⟨i32Max, 4294967295, by decide, by decide, by decide⟩

def fractionOfNanosec (nanosec : Nat) : Nat :=
  (nanosec % 1000000000 * 4294967296 + 500000000) / 1000000000 % 4294967296

def fromSecNanosec (seconds : Int) (nanosec : Nat) : Duration where
  seconds := satAddI32 seconds ((nanosec / 1000000000 : Nat) : Int)
  fraction := fractionOfNanosec nanosec
  lowest := le_max_left _ _
  highest := max_le (by decide) (min_le_left _ _)
  fraction_lt := Nat.mod_lt _ (by decide)

variable (d : Duration)

def toSecNanosec : Int × Nat :=
  let nanos := (d.fraction * 1000000000 + 2147483648) / 4294967296
  if 1000000000 ≤ nanos then (satAddI32 d.seconds 1, nanos - 1000000000) else (d.seconds, nanos)

def isInfinite : Bool := d.seconds = i32Max ∧ d.fraction = 4294967295

def toNanos : Nat :=
  if d.isInfinite then u128Max
  else if d.seconds < 0 then 0
  else
    d.seconds.toNat * 1000000000 + (d.fraction * 1000000000 + 2147483648) / 4294967296

theorem toSecNanosec_fromSecNanosec {s : Int} {n : Nat} (hlow : i32Min ≤ s) (hhigh : s ≤ i32Max)
    (hn : n < 1000000000) : (fromSecNanosec s n).toSecNanosec = (s, n) := by
  have hwhole : ((n / 1000000000 : Nat) : Int) = 0 := by omega
  have hsat : satAddI32 s 0 = s := by
    rw [satAddI32, add_zero, min_eq_right hhigh, max_eq_right hlow]
  -- each rounding is off by less than half a unit of the other side
  have hback : (fractionOfNanosec n * 1000000000 + 2147483648) / 4294967296 = n := by
    have hlt : (n % 1000000000 * 4294967296 + 500000000) / 1000000000 < 4294967296 := by omega
    rw [fractionOfNanosec, Nat.mod_eq_of_lt hlt]
    omega
  simp only [toSecNanosec, fromSecNanosec, hwhole, hsat, hback]
  rw [if_neg (by omega)]

variable {d} {a b : Duration}

theorem toNanos_of_infinite (h : d.isInfinite = true) : d.toNanos = u128Max := if_pos h

theorem toNanos_of_neg (h : d.seconds < 0) : d.toNanos = 0 := by
  have hfinite : ¬d.isInfinite = true := by
    unfold isInfinite i32Max
    simp only [decide_eq_true_eq]
    omega
  rw [toNanos, if_neg hfinite, if_pos h]

theorem toNanos_le_max (d : Duration) : d.toNanos ≤ u128Max := by
  have hhigh := d.highest
  have hfraction := d.fraction_lt
  unfold toNanos u128Max
  unfold i32Max at hhigh
  split
  · omega
  · split <;> omega

theorem toNanos_mono (h : a ≤ b) : a.toNanos ≤ b.toNanos := by
  have ha := a.fraction_lt
  have hb := b.fraction_lt
  have hhigh := b.highest
  by_cases hinf : b.isInfinite = true
  · rw [toNanos_of_infinite hinf]
    exact toNanos_le_max a
  · have hfinite : ¬a.isInfinite = true := by
      simp only [isInfinite, decide_eq_true_eq] at hinf ⊢
      rcases h with h | ⟨hs, hf⟩ <;> omega
    rw [toNanos, toNanos, if_neg hinf, if_neg hfinite]
    rcases h with h | ⟨hs, hf⟩
    · -- a fraction rounds to at most a whole second
      split <;> split <;> omega
    · split <;> split <;> omega

/-- Nothing is lost through the fraction, and nanoseconds compare as durations do. -/
theorem nanoseconds_lose_nothing :
    (∀ s n, i32Min ≤ s → s ≤ i32Max → n < 1000000000 →
      (fromSecNanosec s n).toSecNanosec = (s, n)) ∧
    (∀ a b : Duration, a ≤ b → a.toNanos ≤ b.toNanos) ∧
    (∀ a b : Duration, a.toNanos < b.toNanos → ¬b ≤ a) ∧
    (∀ d : Duration, d.seconds < 0 → d.toNanos = 0) ∧
    infinite.toNanos = u128Max ∧ ∀ d : Duration, d.toNanos ≤ infinite.toNanos := by
  refine ⟨fun s n => toSecNanosec_fromSecNanosec, fun a b => toNanos_mono, fun a b hlt hle => ?_,
    fun d => toNanos_of_neg, rfl, toNanos_le_max⟩
  exact absurd (toNanos_mono hle) (Nat.not_le.mpr hlt)

theorem three_tenths_survive : (fromSecNanosec (-7) 300000000).toSecNanosec = (-7, 300000000) :=
  nanoseconds_lose_nothing.1 (-7) 300000000 (by decide) (by decide) (by decide)

end Duration
end ZeroDds.Qos
