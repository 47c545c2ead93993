/-
The reader of one sample.

A reader stands at `place` in a stream and counts alignment from `origin`, as the writer of the
stream did.
-/
import ZeroDds.Wire.Writer

namespace ZeroDds.Wire

structure Reader extends Settings where
  bytes : List UInt8
  place : Nat := 0
  origin : Nat := 0
  deriving DecidableEq, Repr

namespace Reader

variable (r : Reader)

def remaining : Nat := r.bytes.length - r.place

def alignTo (align : Nat) : Except WireError Reader :=
  let align := if align < r.maxAlign then align else r.maxAlign
  if align ≤ 1 then .ok r
  else
    let offset := r.place - r.origin
    let padding := (align - offset % align) % align
    if padding > r.remaining then .error (.truncated r.place padding r.remaining)
    else .ok { r with place := r.place + padding }

def take (count : Nat) : Except WireError (List UInt8 × Reader) :=
  match slice r.bytes r.place count with
  | none => .error (.truncated r.place count r.remaining)
  | some octets => .ok (octets, { r with place := r.place + count })

def readU8 : Except WireError (UInt8 × Reader) :=
  match r.bytes[r.place]? with
  | none => .error (.truncated r.place 1 r.remaining)
  | some octet => .ok (octet, { r with place := r.place + 1 })

def readWord (e : Endianness) (width : Nat) : Except WireError (Nat × Reader) :=
  (r.alignTo width).bind fun r => (r.take width).map fun read => (e.value read.1, read.2)

def readU16 : Except WireError (Nat × Reader) := r.readWord r.endianness 2

def readU16Little : Except WireError (Nat × Reader) := r.readWord .little 2

def readU16Big : Except WireError (Nat × Reader) := r.readWord .big 2

def readU32 : Except WireError (Nat × Reader) := r.readWord r.endianness 4

def readU32Little : Except WireError (Nat × Reader) := r.readWord .little 4

def readU32Big : Except WireError (Nat × Reader) := r.readWord .big 4

variable (policy : WstringLengthPolicy)

def wstringFormMismatch (declared offset : Nat) : WireError :=
  let others := WstringLengthPolicy.allCells.filter fun other =>
    other != policy && other.admitsLength declared
  let found :=
    if others.isEmpty then s!"{declared}, which fits no other wstring length policy either"
    else s!"{declared}, which fits " ++ String.intercalate " or " (others.map (·.asStr))
  .wrongFraming offset ("a wstring length the " ++ policy.asStr ++ " policy can produce") found
    (others.head?.map (·.flag))

def readWstringUnit (width : Nat) (order : WstringUnitOrder) (offset : Nat) :
    Except WireError (UInt16 × Reader) :=
  if width = 4 then
    let read := match order with
      | .stream => r.readU32
      | .bigEndianAlways => r.readU32Big
      | .byteOrderMark | .hostUnswapped => r.readU32Little
    read.bind fun wide =>
      if wide.1 > 0xFFFF then
        .error (.outOfRange offset
          ("a four-octet wstring character holding one UTF-16 code unit, not " ++
            lowerHex 8 wide.1))
      else .ok (UInt16.ofNat wide.1, wide.2)
  else
    let read := match order with
      | .stream => r.readU16
      | .bigEndianAlways => r.readU16Big
      | .byteOrderMark | .hostUnswapped => r.readU16Little
    read.map fun unit => (UInt16.ofNat unit.1, unit.2)

def readUnits (width : Nat) (order : WstringUnitOrder) (offset : Nat) :
    Nat → Reader → Except WireError (List UInt16 × Reader)
  | 0, r => .ok ([], r)
  | count + 1, r =>
    (r.readWstringUnit width order offset).bind fun unit =>
      (readUnits width order offset count unit.2).map fun rest => (unit.1 :: rest.1, rest.2)

def readWstringUnits (count width : Nat) (order : WstringUnitOrder) (offset : Nat) :
    Except WireError (List UInt16 × Reader) :=
  if count * width > r.remaining then
    .error (.impossibleLength offset (count * width) r.remaining)
  else readUnits width order offset count r

def swapBytes (unit : UInt16) : UInt16 := (unit <<< 8) ||| (unit >>> 8)

/-- The units behind the mark, in the order the mark says; without one they are big-endian. -/
def stripByteOrderMark (units : List UInt16) : List UInt16 :=
  match units with
  | [] => []
  | first :: rest =>
    if first = byteOrderMark then rest
    else if first = swappedByteOrderMark then rest.map swapBytes
    else units.map swapBytes

def decodeUtf16 : List UInt16 → Option (List Char)
  | [] => some []
  | unit :: rest =>
    if unit < 0xD800 ∨ 0xDFFF < unit then
      (decodeUtf16 rest).map (Char.ofNat unit.toNat :: ·)
    else if 0xDC00 ≤ unit then none
    else match rest with
      | [] => none
      | low :: rest =>
        if 0xDC00 ≤ low ∧ low ≤ 0xDFFF then
          (decodeUtf16 rest).map
            (Char.ofNat (0x10000 + (unit.toNat - 0xD800) * 0x400 + (low.toNat - 0xDC00)) :: ·)
        else none

/-- The units of a text without its terminator, which may stand at the end and nowhere else. -/
def dropTerminator (units : List UInt16) (offset : Nat) : Except WireError (List UInt16) :=
  if units.getLast? = some 0 then
    let units := units.dropLast
    match units.findIdx? (· == 0) with
    | some index => .error (.outOfRange offset
        (s!"no NUL inside a wstring a C peer would stop at, and this one has a NUL at " ++
          s!"character {index} of {units.length}"))
    | none => .ok units
  else
    .error (.outOfRange offset "a NUL character ending the wstring, as its count includes one")

def unitCount (position : WirePosition) (declared offset : Nat) : Except WireError Nat :=
  match policy.countsAt position with
  | .characters => .ok declared
  | .octets =>
    let width := policy.characterWidth position
    if declared % width ≠ 0 then .error (wstringFormMismatch policy declared offset)
    else .ok (declared / width)

def withoutTerminator (position : WirePosition) (declared offset : Nat) (units : List UInt16) :
    Except WireError (List UInt16) :=
  match policy.terminatorAt position with
  | .absent => .ok units
  | .present =>
    if declared < 1 then .error (wstringFormMismatch policy declared offset)
    else dropTerminator units offset

def decodeUnits (order : WstringUnitOrder) (offset : Nat) (units : List UInt16) :
    Except WireError (List Char) :=
  match decodeUtf16 (if order.hasMark then stripByteOrderMark units else units) with
  | none => .error (.outOfRange offset "well-formed UTF-16, not an unpaired surrogate")
  | some value => .ok value

def readWstring (order : WstringUnitOrder) (position : WirePosition) :
    Except WireError (List Char × Reader) :=
  (r.alignTo 4).bind fun r =>
    let offset := r.place
    r.readU32.bind fun length =>
      (unitCount policy position length.1 offset).bind fun count =>
        (length.2.readWstringUnits count (policy.characterWidth position) order offset).bind
          fun read => (withoutTerminator policy position length.1 offset read.1).bind
            fun units => (decodeUnits order offset units).map fun value => (value, read.2)

def maxFixedOctets : Nat := 16

def firstSignNibble : UInt8 := 0x0a

def readNibbles : Nat → Reader → Except WireError (List UInt8 × Reader)
  | 0, r => .ok ([], r)
  | count + 1, r =>
    r.readU8.bind fun octet =>
      (readNibbles count octet.2).map fun rest =>
        ((octet.1 >>> 4) :: (octet.1 &&& 0x0f) :: rest.1, rest.2)

/-- The nibbles up to the first octet whose low nibble is a sign, of `count` octets at most. -/
def readToSign : Nat → Reader → Except WireError (List UInt8 × Reader)
  | 0, r => .error (.refused r.place "a sign nibble within the widest fixed IDL admits")
  | count + 1, r =>
    r.readU8.bind fun octet =>
      if octet.1 &&& 0x0f ≥ firstSignNibble then
        .ok ([octet.1 >>> 4, octet.1 &&& 0x0f], octet.2)
      else
        (readToSign count octet.2).map fun rest =>
          ((octet.1 >>> 4) :: (octet.1 &&& 0x0f) :: rest.1, rest.2)

/-- The digits and the sign of a field: as wide as the declaration says, or up to the sign. -/
def fixedField (digits : Nat) (policy : FixedDigits) : Except WireError (List UInt8 × Reader) :=
  match policy with
  | .declared =>
    (readNibbles ((digits + 1 + 1) / 2) r).map fun read =>
      (read.1.drop (read.1.length - (digits + 1)), read.2)
  | .valuePrecision | .valueStringDigits => readToSign maxFixedOctets r

def signOf (nibble : UInt8) : Option Bool :=
  if nibble = 0x0d ∨ nibble = 0x0b then some true
  else if nibble = 0x0c ∨ nibble = 0x0a ∨ nibble = 0x0f ∨ nibble = 0x0e then some false
  else none

def digitChar (nibble : UInt8) : Char := Char.ofNat ('0'.toNat + nibble.toNat)

def spelledDigits (value : List UInt8) (scale : Nat) : List Char :=
  List.replicate (scale + 1 - value.length) '0' ++ value.map digitChar

/-- The one spelling of a value: a single zero where there is no integer digit, exactly `scale`
digits behind the point, and a sign on a negative value that is not zero. -/
def spellFixed (negative : Bool) (value : List UInt8) (scale : Nat) : List Char :=
  let spelled := spelledDigits value scale
  let whole := trimZeros (spelled.take (spelled.length - scale))
  let fraction := spelled.drop (spelled.length - scale)
  (if negative && !(whole.isEmpty && fraction.all (· == '0')) then ['-'] else []) ++
    (if whole.isEmpty then ['0'] else whole) ++ (if scale > 0 then '.' :: fraction else [])

def readFixed (digits scale : Nat) (policy : FixedDigits) : Except WireError (List Char × Reader) :=
  if digits = 0 ∨ digits > 31 ∨ scale > digits then
    .error (.refused r.place "a fixed whose digit count and scale can describe a value")
  else
    (r.fixedField digits policy).bind fun field =>
      let offset := field.2.place
      match field.1.getLast? with
      | none => .error (.refused offset "at least a sign nibble")
      | some sign =>
        match signOf sign with
        | none => .error (.refused offset "a sign nibble, 0xc or 0xd")
        | some negative =>
          let value := field.1.dropLast
          if value.any (· > 9) then .error (.refused offset "a decimal digit nibble")
          else
            let text := spellFixed negative value scale
            (parseFixed text digits scale offset).map fun _ => (text, field.2)

end Reader

end ZeroDds.Wire
