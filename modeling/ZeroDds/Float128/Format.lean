/-
The binary128 format.

A value is its 128-bit pattern.
-/
import Mathlib

namespace ZeroDds

structure Float128 where
  bits : BitVec 128
  deriving DecidableEq

namespace Float128

def fractionBits : Nat := 112

def exponentBias : Int := 16383

def exponentMax : Nat := 2 ^ 15 - 1

def pack (negative : Bool) (low : Nat) : Float128 :=
  ⟨BitVec.ofNat 128 ((if negative then 2 ^ 127 else 0) + low)⟩

def signedZero (negative : Bool) : Float128 := pack negative 0

def signedInfinity (negative : Bool) : Float128 := pack negative (exponentMax * 2 ^ fractionBits)

section

variable (x : Float128)

def isSignNegative : Bool := x.bits.msb

def biasedExponent : Nat := x.bits.toNat / 2 ^ fractionBits % 2 ^ 15

def fraction : Nat := x.bits.toNat % 2 ^ fractionBits

def isFinite : Bool := x.biasedExponent ≠ exponentMax

def isInfinite : Bool := x.biasedExponent = exponentMax ∧ x.fraction = 0

def isNan : Bool := x.biasedExponent = exponentMax ∧ x.fraction ≠ 0

def decompose : Option (Bool × Nat × Int) :=
  if !x.isFinite then none
  else if x.biasedExponent = 0 then
    some (x.isSignNegative, x.fraction, 1 - exponentBias - fractionBits)
  else
    some (x.isSignNegative, x.fraction + 2 ^ fractionBits,
      x.biasedExponent - exponentBias - fractionBits)

def signed {R : Type} [Neg R] (negative : Bool) (magnitude : R) : R :=
  if negative then -magnitude else magnitude

/-- The number a finite pattern stands for; an infinity and a NaN stand for none. -/
def value : Option ℚ :=
  x.decompose.map fun p => signed p.1 (p.2.1 * (2 : ℚ) ^ p.2.2)

end

/-- The nearest multiple of `2 ^ shift`, the even one of two, and whether anything was dropped. -/
def roundShiftRight (n shift : Nat) : Nat × Bool :=
  if shift = 0 then (n, false)
  else if 128 ≤ shift then (0, n ≠ 0)
  else
    let kept := n / 2 ^ shift
    let dropped := n % 2 ^ shift
    let half := 2 ^ (shift - 1)
    if dropped = 0 then (kept, false)
    else if half < dropped ∨ (dropped = half ∧ kept % 2 = 1) then (kept + 1, true)
    else (kept, true)

/-- The significand with its leading one moved to bit 112, the exponent that goes with it, and
whether the move lost anything. -/
def normalise (significand : Nat) (exponent : Int) : Nat × Int × Bool :=
  let leading := significand.log2
  if fractionBits < leading then
    let drop := leading - fractionBits
    let (rounded, lost) := roundShiftRight significand drop
    if 2 ^ (fractionBits + 1) ≤ rounded then (rounded / 2, exponent + drop + 1, lost)
    else (rounded, exponent + drop, lost)
  else
    let shift := fractionBits - leading
    (significand * 2 ^ shift, exponent - shift, false)

def fromPartsRounded (negative : Bool) (significand : Nat) (exponent : Int) : Float128 × Bool :=
  if significand = 0 then (signedZero negative, false)
  else if (exponentMax : Int) < exponent then (signedInfinity negative, true)
  else if exponent < -(fractionBits + 1 : Nat) - exponentBias - 8 - 128 then
    (signedZero negative, true)
  else
    let (significand, exponent, sticky) := normalise significand exponent
    let biased := exponent + exponentBias + fractionBits
    if (exponentMax : Int) ≤ biased then (signedInfinity negative, true)
    else if biased ≤ 0 then
      let (rounded, lost) := roundShiftRight significand (1 + biased.natAbs)
      (pack negative rounded, sticky || lost)
    else
      (pack negative (biased.toNat * 2 ^ fractionBits + significand % 2 ^ fractionBits), sticky)

end Float128
end ZeroDds
