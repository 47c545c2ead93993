/-
The settings a stream is written and read under.

Implementations differ at the byte level in how a parameter list is framed, in how wide and in which
order the code units of a wide string go out, and in how many digits a `fixed` carries.
-/
import ZeroDds.Lib.Bytes

namespace ZeroDds.Wire

inductive Endianness where
  | big
  | little
  deriving DecidableEq, Repr

namespace Endianness

def isLittle (e : Endianness) : Bool := e == little

def order (e : Endianness) (width n : Nat) : List UInt8 :=
  if e.isLittle then leBytes width n else (leBytes width n).reverse

def value (e : Endianness) (octets : List UInt8) : Nat :=
  if e.isLittle then ofLe octets else ofLe octets.reverse

@[simp] theorem length_order (e : Endianness) (width n : Nat) :
    (e.order width n).length = width := by
  unfold order
  split
  · exact length_leBytes width n
  · rw [List.length_reverse, length_leBytes]

theorem value_order (e : Endianness) {width n : Nat} (h : n < 256 ^ width) :
    e.value (e.order width n) = n := by
  unfold value order
  split
  · exact ofLe_leBytes h
  · rw [List.reverse_reverse, ofLe_leBytes h]

end Endianness

/-- Why a value cannot be written or octets cannot be read, with the offset of the trouble. -/
inductive WireError where
  | truncated (offset needed available : Nat)
  | impossibleLength (offset claimed available : Nat)
  | outOfRange (offset : Nat) (expected : String)
  | wrongFraming (offset : Nat) (expected found : String) (fits : Option String)
  deriving DecidableEq, Repr

def WireError.refused (offset : Nat) (expected : String) : WireError := .outOfRange offset expected

def upperHex (width n : Nat) : String :=
  String.ofList (((Nat.toDigits 16 n).map Char.toUpper).leftpad width '0')

def lowerHex (width n : Nat) : String := String.ofList ((Nat.toDigits 16 n).leftpad width '0')

/-! ### Parameter lists -/

def pidMustUnderstand : UInt16 := 0x4000

def pidImplExtension : UInt16 := 0x8000

def pidExtended : UInt16 := 0x3F01

def pidListEnd : UInt16 := 0x3F02

def pidShortMaxId : UInt16 := 0x3F00

def pidShortMaxLen : Nat := 0xFFFF

def eFlagMustUnderstand : UInt32 := 0x40000000

def eMemberIdMask : UInt32 := 0x0FFFFFFF

inductive WirePosition where
  | member
  | element
  | sentinel
  | extendedMarker
  deriving DecidableEq, Repr

inductive PidFlagPolicy where
  | sentinelMustUnderstand
  | bare
  | implExtensionOnMembers
  deriving DecidableEq, Repr

def PidFlagPolicy.flagsAt : PidFlagPolicy → WirePosition → UInt16
  | .sentinelMustUnderstand, .sentinel | .sentinelMustUnderstand, .extendedMarker =>
    pidMustUnderstand
  | .implExtensionOnMembers, .member | .implExtensionOnMembers, .extendedMarker =>
    pidImplExtension ||| pidMustUnderstand
  | _, _ => 0

inductive ParameterRole where
  | member
  | optional
  deriving DecidableEq, Repr

structure PlCdr1Framing where
  pidFlags : PidFlagPolicy := .sentinelMustUnderstand
  padDeclaredLength : Bool := false
  padDeclaredOptionalLength : Bool := false
  memberMustUnderstand : Bool := true
  highestShortId : UInt16 := pidShortMaxId
  padAfterValue : Bool := true
  deriving DecidableEq, Repr

namespace PlCdr1Framing

variable (framing : PlCdr1Framing)

def padsDeclaredLength : ParameterRole → Bool
  | .member => framing.padDeclaredLength
  | .optional => framing.padDeclaredOptionalLength

/-- The length a parameter header declares for a value that ends `past` octets behind a word:
with the padding that follows where the framing counts it. -/
def paddedLength (role : ParameterRole) (length past : Nat) : Nat :=
  if framing.padsDeclaredLength role ∧ past ≠ 0 then length + (4 - past) else length

def extendedMarker (framing : PlCdr1Framing) : UInt16 :=
  pidExtended ||| framing.pidFlags.flagsAt .extendedMarker

def memberHeader (pid : UInt32) (mustUnderstand : Bool) : UInt32 :=
  if mustUnderstand && framing.memberMustUnderstand then
    (pid &&& eMemberIdMask) ||| eFlagMustUnderstand
  else pid &&& eMemberIdMask

def shortId (pid : UInt16) (mustUnderstand : Bool) : UInt16 :=
  if mustUnderstand && framing.memberMustUnderstand then
    pid ||| pidMustUnderstand ||| framing.pidFlags.flagsAt .member
  else pid ||| framing.pidFlags.flagsAt .member

end PlCdr1Framing

/-! ### Wide characters and wide strings -/

inductive WcharWidth where
  | two
  | four
  deriving DecidableEq, Repr

def WcharWidth.bytes : WcharWidth → Nat
  | .two => 2
  | .four => 4

inductive WcharFraming where
  | fixed
  | giopLengthPrefixed
  | giopLengthPrefixedMemberOnly
  deriving DecidableEq, Repr

def WcharFraming.hasLengthOctet : WcharFraming → WirePosition → Bool
  | .fixed, _ => false
  | .giopLengthPrefixed, _ => true
  | .giopLengthPrefixedMemberOnly, position => position == .member

inductive WstringUnitOrder where
  | stream
  | bigEndianAlways
  | byteOrderMark
  | hostUnswapped
  deriving DecidableEq, Repr

def WstringUnitOrder.hasMark (order : WstringUnitOrder) : Bool := order == .byteOrderMark

inductive WstringLengthCounts where
  | octets
  | characters
  deriving DecidableEq, Repr

inductive WstringTerminator where
  | absent
  | present
  deriving DecidableEq, Repr

inductive WstringUnitWidth where
  | two
  | four
  deriving DecidableEq, Repr

def WstringUnitWidth.octets : WstringUnitWidth → Nat
  | .two => 2
  | .four => 4

/-- What the length of a wide string counts, whether a NUL ends it, how wide one unit is. -/
structure WstringLengthPolicy where
  counts : WstringLengthCounts
  terminator : WstringTerminator
  unit : WstringUnitWidth
  deriving DecidableEq, Repr

namespace WstringLengthPolicy

def allCells : List WstringLengthPolicy :=
  [⟨.octets, .absent, .two⟩, ⟨.octets, .absent, .four⟩, ⟨.octets, .present, .two⟩,
    ⟨.octets, .present, .four⟩, ⟨.characters, .absent, .two⟩, ⟨.characters, .absent, .four⟩,
    ⟨.characters, .present, .two⟩, ⟨.characters, .present, .four⟩]

def asStr : WstringLengthPolicy → String
  | ⟨.octets, .absent, .two⟩ => "specification"
  | ⟨.octets, .absent, .four⟩ => "specification-wide-units"
  | ⟨.characters, .absent, .two⟩ => "character-count"
  | ⟨.characters, .absent, .four⟩ => "ros-type-support"
  | ⟨.characters, .present, .four⟩ => "character-count-terminated"
  | ⟨.octets, .present, .two⟩ => "octets/terminated/2"
  | ⟨.octets, .present, .four⟩ => "octets/terminated/4"
  | ⟨.characters, .present, .two⟩ => "characters/terminated/2"

variable (policy : WstringLengthPolicy)

def flag : String := "--wstring-length " ++ policy.asStr

-- The three questions are asked per position, and every position has the same answer.
def countsAt (_position : WirePosition) : WstringLengthCounts :=
  policy.counts

def terminatorAt (_position : WirePosition) : WstringTerminator :=
  policy.terminator

def unitAt (_position : WirePosition) : WstringUnitWidth :=
  policy.unit

def characterWidth (position : WirePosition) : Nat :=
  (policy.unitAt position).octets

def counted (units : Nat) (position : WirePosition) : Nat :=
  match policy.countsAt position with
  | .octets => units * policy.characterWidth position
  | .characters => units

def declaredLength (units : Nat) (position : WirePosition) : Option UInt32 :=
  let counted := policy.counted units position
  if counted > 0xFFFFFFFF then none else some (UInt32.ofNat counted)

def admitsLength (declared : Nat) : Bool :=
  if policy.counts == .octets && declared % policy.unit.octets != 0 then false
  else if policy.terminator == .present && declared < 1 then false
  else true

end WstringLengthPolicy

def byteOrderMark : UInt16 := 0xFEFF

def swappedByteOrderMark : UInt16 := 0xFFFE

inductive FixedDigits where
  | declared
  | valuePrecision
  | valueStringDigits
  deriving DecidableEq, Repr

/-- The digit count of a value: `declared` digits in the type, `significant` ones in the value,
`stringDigits` in the text. -/
def FixedDigits.wireDigits (policy : FixedDigits) (declared significant stringDigits : Nat) : Nat :=
  match policy with
  | .declared => declared
  | .valuePrecision => if significant = 0 then 1 else significant
  | .valueStringDigits =>
    if stringDigits = 0 then 1
    else if stringDigits % 2 = 0 then stringDigits + 1
    else stringDigits

end ZeroDds.Wire
