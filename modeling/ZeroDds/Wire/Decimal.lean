/-
The text and the nibbles of a `fixed<P, S>`.

`parseFixed` is the one rule for what a legal value of a declaration is, and `fixedNibbles` the
binary-coded decimal of such a value: its digits, as many as the policy asks for, and a sign.
-/
import ZeroDds.Wire.Dialect

namespace ZeroDds.Wire

/-- A value split into its parts: the integer digits without leading zeros, the fraction digits as
they are written. -/
structure FixedParts where
  negative : Bool
  whole : List Char
  fraction : List Char
  deriving DecidableEq, Repr

def splitOnce (mark : Char) (text : List Char) : Option (List Char × List Char) :=
  match text.dropWhile (· != mark) with
  | [] => none
  | _ :: after => some (text.takeWhile (· != mark), after)

def splitSign : List Char → Bool × List Char
  | '-' :: rest => (true, rest)
  | '+' :: rest => (false, rest)
  | text => (false, text)

def splitPoint (magnitude : List Char) : List Char × List Char :=
  (splitOnce '.' magnitude).getD (magnitude, [])

def trimZeros (digits : List Char) : List Char := digits.dropWhile (· == '0')

def parseFixed (text : List Char) (digits scale offset : Nat) : Except WireError FixedParts :=
  if digits = 0 then .error (.refused offset "a fixed with at least one digit")
  else if digits > 31 then .error (.refused offset "a fixed of at most 31 digits")
  else if scale > digits then .error (.refused offset "a scale no larger than the digits")
  else
    let (negative, magnitude) := splitSign text
    let (whole, fraction) := splitPoint magnitude
    if whole.isEmpty && fraction.isEmpty then
      .error (.refused offset "a decimal with at least one digit")
    else if !(whole ++ fraction).all Char.isDigit then
      .error (.refused offset "a decimal of digits and one point")
    else
      let whole := trimZeros whole
      if whole.length > digits - scale then
        .error (.refused offset "a decimal whose integer part fits the declared digits")
      else if fraction.length > scale then
        .error (.refused offset "a decimal whose fraction fits the declared scale")
      else .ok { negative, whole, fraction }

theorem parseFixed_offset {text : List Char} {digits scale a b : Nat} {parts : FixedParts}
    (h : parseFixed text digits scale a = .ok parts) :
    parseFixed text digits scale b = .ok parts := by
  unfold parseFixed at h ⊢
  simp only at h ⊢
  split_ifs at h ⊢
  exact h

def digitOf (c : Char) : UInt8 := UInt8.ofNat (c.toNat - '0'.toNat)

def allDigits (parts : FixedParts) (digits scale : Nat) : List UInt8 :=
  List.replicate (digits - scale - parts.whole.length) 0 ++ parts.whole.map digitOf ++
    parts.fraction.map digitOf ++ List.replicate (scale - parts.fraction.length) 0

/-- The integer digits as written, leading zeros included, and the `scale` fraction digits. -/
def writtenDigits (text : List Char) (scale : Nat) : Nat :=
  let magnitude := text.dropWhile fun c => c == '+' || c == '-'
  (magnitude.takeWhile (· != '.')).length + scale

/-- The nibbles of `digits`, of which `wire` go out: zeros in front where there are fewer, a pad
nibble where the count with the sign would be odd, and the sign last. A zero is positive. -/
def packDigits (negative : Bool) (all : List UInt8) (wire : Nat) : List UInt8 :=
  let kept := all.drop (all.length - wire)
  let nibbles := (if (wire + 1) % 2 = 1 then [0] else []) ++ List.replicate (wire - kept.length) 0
    ++ kept
  nibbles ++ [if negative && nibbles.any (· != 0) then 0x0d else 0x0c]

def fixedNibbles (text : List Char) (digits scale : Nat) (policy : FixedDigits) (offset : Nat) :
    Except WireError (List UInt8) :=
  match parseFixed text digits scale offset with
  | .error e => .error e
  | .ok parts =>
    let all := allDigits parts digits scale
    let significant := all.length - (all.takeWhile (· == 0)).length
    let written := writtenDigits text scale
    -- Past 31 digits no reader can be told how wide the field is.
    if policy = .valueStringDigits ∧ written + (1 - written % 2) > 31 then
      .error (.refused offset "a fixed of at most 31 digits on the wire, as written")
    else
      let stringDigits := if policy = .valueStringDigits then written else 0
      .ok (packDigits parts.negative all (policy.wireDigits digits significant stringDigits))

theorem fixedNibbles_offset {text : List Char} {digits scale a b : Nat} {policy : FixedDigits}
    {nibbles : List UInt8} (h : fixedNibbles text digits scale policy a = .ok nibbles) :
    fixedNibbles text digits scale policy b = .ok nibbles := by
  unfold fixedNibbles at h ⊢
  cases hparse : parseFixed text digits scale a with
  | error e =>
    rw [hparse] at h
    cases h
  | ok parts =>
    rw [hparse] at h
    rw [parseFixed_offset hparse]
    simp only at h ⊢
    split_ifs at h ⊢ <;> exact h

def packNibbles : List UInt8 → List UInt8
  | high :: low :: rest => ((high <<< 4) ||| low) :: packNibbles rest
  | _ => []

end ZeroDds.Wire
