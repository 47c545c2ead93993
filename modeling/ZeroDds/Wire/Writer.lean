/-
The writer of one sample.

A writer appends to `out` and counts alignment from `origin`.
-/
import ZeroDds.Wire.Decimal

namespace ZeroDds.Wire

structure Settings where
  endianness : Endianness
  plCdr1 : PlCdr1Framing := {}
  maxAlign : Nat := 8
  wcharWidth : WcharWidth := .two
  wcharFraming : WcharFraming := .fixed
  wstringUnitOrder : WstringUnitOrder := .stream
  shortLengthCodes : Bool := false
  deriving DecidableEq, Repr

/-- A writer: the octets so far, where alignment is counted from, and the first error of a call
that cannot return one. -/
structure Writer extends Settings where
  out : List UInt8 := []
  origin : Nat := 0
  deferred : Option WireError := none
  deriving DecidableEq, Repr

structure DHeader where
  place : Nat
  deriving DecidableEq, Repr

structure EmHeader where
  word : Nat
  nextInt : Option Nat
  lengthCode : UInt8
  deriving DecidableEq, Repr

structure Pid where
  place : Nat
  extended : Bool
  pid : UInt32
  mustUnderstand : Bool
  role : ParameterRole
  savedOrigin : Nat
  deriving DecidableEq, Repr

namespace Writer

def appending (settings : Settings) (out : List UInt8) : Writer :=
  { settings with out := out, origin := out.length }

def continuing (settings : Settings) (out : List UInt8) : Writer := { settings with out := out }

variable (w : Writer)

def extend (octets : List UInt8) : Writer := { w with out := w.out ++ octets }

def order2 (value : UInt16) : List UInt8 := w.endianness.order 2 value.toNat

def order4 (value : UInt32) : List UInt8 := w.endianness.order 4 value.toNat

def order8 (value : UInt64) : List UInt8 := w.endianness.order 8 value.toNat

def alignTo (align : Nat) : Writer :=
  let align := min align w.maxAlign
  if align ≤ 1 then w
  else
    let offset := w.out.length - w.origin
    w.extend (List.replicate ((align - offset % align) % align) 0)

def beginPackedElement : Nat × Writer := (w.origin, { w with origin := w.out.length })

def finishPackedElement (saved : Nat) : Writer := { w with origin := saved }

def writeU8 (value : UInt8) : Writer := w.extend [value]

def writeBool (value : Bool) : Writer := w.writeU8 (if value then 1 else 0)

def writeU16 (value : UInt16) : Writer :=
  let w := w.alignTo 2
  w.extend (w.order2 value)

def writeU32 (value : UInt32) : Writer :=
  let w := w.alignTo 4
  w.extend (w.order4 value)

def writeU64 (value : UInt64) : Writer :=
  let w := w.alignTo 8
  w.extend (w.order8 value)

def writeU16Little (value : UInt16) : Writer :=
  (w.alignTo 2).extend (Endianness.little.order 2 value.toNat)

def writeU16Big (value : UInt16) : Writer :=
  (w.alignTo 2).extend (Endianness.big.order 2 value.toNat)

def writeU32Little (value : UInt32) : Writer :=
  (w.alignTo 4).extend (Endianness.little.order 4 value.toNat)

def writeU32Big (value : UInt32) : Writer :=
  (w.alignTo 4).extend (Endianness.big.order 4 value.toNat)

def writeF128 (bits : BitVec 128) : Writer :=
  let w := w.alignTo 8
  w.extend (w.endianness.order 16 bits.toNat)

def writeChar (value : Char) : Except WireError Writer :=
  if value.toNat ≤ 0xFF then .ok (w.extend [UInt8.ofNat value.toNat])
  else
    .error (.outOfRange w.out.length
      ("a character below U+0100, not U+" ++ upperHex 4 value.toNat))

def writeWchar (value : Char) (position : WirePosition) : Except WireError Writer :=
  if value.toNat > 0xFFFF then
    .error (.outOfRange w.out.length ("a BMP character, not U+" ++ upperHex 4 value.toNat))
  else
    let unit := value.toNat
    if w.wcharFraming.hasLengthOctet position then
      let w := w.extend [UInt8.ofNat w.wcharWidth.bytes]
      -- A scalar carries no byte-order mark, so every order but the stream's is big-endian.
      let e := if w.wstringUnitOrder == .stream then w.endianness else Endianness.big
      .ok (w.extend (e.order w.wcharWidth.bytes unit))
    else match w.wcharWidth with
      | .two => .ok (w.writeU16 (UInt16.ofNat unit))
      | .four => .ok (w.writeU32 (UInt32.ofNat unit))

def writeBitmask (bitBound : UInt16) (bits : UInt64) : Except WireError Writer :=
  if bitBound = 0 ∨ bitBound > 64 then
    .error (.outOfRange w.out.length
      s!"a bitmask bound between 1 and 64, and this one is {bitBound}")
  else if bitBound < 64 ∧ bits.toNat >>> bitBound.toNat ≠ 0 then
    .error (.outOfRange w.out.length
      s!"a bitmask value inside its bound of {bitBound} bits, and this one is {bits}")
  else if bitBound ≤ 8 then .ok (w.writeU8 bits.toUInt8)
  else if bitBound ≤ 16 then .ok (w.writeU16 bits.toUInt16)
  else if bitBound ≤ 32 then .ok (w.writeU32 bits.toUInt32)
  else .ok (w.writeU64 bits)

def writeBitset (anchorBytes : UInt32) (bits : UInt64) : Except WireError Writer :=
  if anchorBytes = 1 then .ok (w.writeU8 bits.toUInt8)
  else if anchorBytes = 2 then .ok (w.writeU16 bits.toUInt16)
  else if anchorBytes = 4 then .ok (w.writeU32 bits.toUInt32)
  else if anchorBytes = 8 then .ok (w.writeU64 bits)
  else
    .error (.outOfRange w.out.length
      s!"a bitset anchor of 1, 2, 4 or 8 octets, and this one is {anchorBytes}")

def writeFixed (text : List Char) (digits scale : Nat) (policy : FixedDigits) :
    Except WireError Writer :=
  match fixedNibbles text digits scale policy w.out.length with
  | .error e => .error e
  | .ok nibbles => .ok (w.extend (packNibbles nibbles))

def writeString (value : String) : Writer :=
  ((w.writeU32 (UInt32.ofNat ((utf8Bytes value).length + 1))).extend (utf8Bytes value)).extend [0]

def writeStringBounded (value : String) (bound : Nat) : Except WireError Writer :=
  let length := (utf8Bytes value).length
  if length > bound then
    .error (.outOfRange w.out.length
      s!"at most {bound} octets in a bounded string, and this one has {length}")
  else .ok (w.writeString value)

def encodeUtf16 (c : Char) : List UInt16 :=
  if c.toNat < 0x10000 then [UInt16.ofNat c.toNat]
  else
    let above := c.toNat - 0x10000
    [UInt16.ofNat (0xD800 + above / 0x400), UInt16.ofNat (0xDC00 + above % 0x400)]

variable (value : List Char) (policy : WstringLengthPolicy)

/-- The code units of a text. A character count over two-octet units has one unit for each
character, and refuses a character that needs two. -/
def wstringUnits (position : WirePosition) : Except WireError (List UInt16) :=
  if policy.countsAt position == .characters && policy.unitAt position == .two then
    match value.find? fun c => decide (c.toNat > 0xFFFF) with
    | some c => .error (.outOfRange w.out.length
        ("a code point inside the BMP, not U+" ++ upperHex 4 c.toNat ++
          ": a character count over two-octet units has no way to carry one outside it, and " ++
          "Fast CDR truncates it to sixteen bits and sends a different character"))
    | none => .ok (value.map fun c => UInt16.ofNat c.toNat)
  else .ok (value.flatMap encodeUtf16)

/-- The code units a wide string puts on the wire: its text's, then the terminator, and the mark
in front. -/
def wstringRun (order : WstringUnitOrder) (position : WirePosition) :
    Except WireError (List UInt16) :=
  match w.wstringUnits value policy position with
  | .error e => .error e
  | .ok units =>
    let units := if policy.terminatorAt position == .present then units ++ [0] else units
    .ok (if order.hasMark && !units.isEmpty then byteOrderMark :: units else units)

def writeWstringUnit (unit : UInt16) (width : Nat) (order : WstringUnitOrder) : Writer :=
  if width = 2 then
    match order with
    | .stream => w.writeU16 unit
    | .bigEndianAlways => w.writeU16Big unit
    | .byteOrderMark | .hostUnswapped => w.writeU16Little unit
  else
    match order with
    | .stream => w.writeU32 unit.toUInt32
    | .bigEndianAlways => w.writeU32Big unit.toUInt32
    | .byteOrderMark | .hostUnswapped => w.writeU32Little unit.toUInt32

def writeWstring (order : WstringUnitOrder) (position : WirePosition) : Except WireError Writer :=
  match w.wstringRun value policy order position with
  | .error e => .error e
  | .ok units =>
    let width := policy.characterWidth position
    let counts := match policy.countsAt position with
      | .octets => "octet count"
      | .characters => "code-unit count"
    match policy.declaredLength units.length position with
    | none => .error (.outOfRange w.out.length
        (s!"a wstring whose {counts} fits the UInt32 length field, and this one has " ++
          s!"{units.length} code units at {width} octets each"))
    | some declared =>
      .ok (units.foldl (fun w unit => w.writeWstringUnit unit width order) (w.writeU32 declared))

def writeWstringBounded (bound : Nat) (policy : WstringLengthPolicy) (order : WstringUnitOrder)
    (position : WirePosition) : Except WireError Writer :=
  let units := (value.flatMap encodeUtf16).length
  if units > bound then
    .error (.outOfRange w.out.length
      s!"at most {bound} UTF-16 code units in a bounded wstring, and this one has {units}")
  else w.writeWstring value policy order position

def writeWstringUtf8 (value : String) (policy : WstringLengthPolicy) (position : WirePosition) :
    Except WireError Writer :=
  let content := utf8Bytes value ++ if policy.terminatorAt position == .present then [0] else []
  if content.length > 0xFFFFFFFF then
    .error (.outOfRange w.out.length
      (s!"a wstring whose UTF-8 octet count fits the UInt32 length field, and this one " ++
        s!"has {content.length} octets"))
  else .ok ((w.writeU32 (UInt32.ofNat content.length)).extend content)

def writeWstringUtf8Bounded (value : String) (bound : Nat) (policy : WstringLengthPolicy)
    (position : WirePosition) : Except WireError Writer :=
  let units := (value.toList.flatMap encodeUtf16).length
  if units > bound then
    .error (.outOfRange w.out.length
      s!"at most {bound} UTF-16 code units in a bounded wstring, and this one has {units}")
  else w.writeWstringUtf8 value policy position

def writeDheader : DHeader × Writer :=
  let w := w.alignTo 4
  (⟨w.out.length⟩, w.extend (List.replicate 4 0))

def checkedDheaderLength (span offset : Nat) : Except WireError UInt32 :=
  if span > 0xFFFFFFFF then
    .error (.outOfRange offset
      "an object smaller than 4 GiB, which a DHEADER can hold (XTypes 1.3 7.4.3.4.1)")
  else .ok (UInt32.ofNat span)

def patchDheader (header : DHeader) (span : Nat) : Except WireError Writer :=
  match checkedDheaderLength span header.place with
  | .error e => .error e
  | .ok length => .ok { w with out := overwrite w.out header.place (w.order4 length) }

def defer (e : WireError) : Writer :=
  { w with deferred := some (w.deferred.getD e) }

def tryFinishDheader (header : DHeader) : Except WireError Writer :=
  w.patchDheader header (w.out.length - header.place - 4)

def finishDheader (header : DHeader) : Writer :=
  match w.patchDheader header (w.out.length - header.place - 4) with
  | .ok w' => w'
  | .error e => w.defer e

def emheaderWord (memberId : UInt32) (lengthCode : UInt8) (mustUnderstand : Bool) : UInt32 :=
  ((if mustUnderstand then (1 : UInt32) else 0) <<< 31) |||
    ((lengthCode &&& 0x7).toUInt32 <<< 28) ||| (memberId &&& eMemberIdMask)

def writeEmheader (memberId : UInt32) (lengthCode : UInt8) (mustUnderstand : Bool) :
    Except WireError (EmHeader × Writer) :=
  if memberId > eMemberIdMask then
    .error (.outOfRange w.out.length
      s!"a member id inside the 28 bits of an EMHEADER, not {memberId}")
  else
    let w := (w.alignTo 4).writeU32 (emheaderWord memberId lengthCode mustUnderstand)
    let word := w.out.length - 4
    if lengthCode = 4 then
      .ok (⟨word, some w.out.length, lengthCode⟩, w.extend (List.replicate 4 0))
    else .ok (⟨word, none, lengthCode⟩, w)

def shortCode (length : UInt32) : UInt32 :=
  if length = 1 then 0 else if length = 2 then 1 else if length = 4 then 2 else 3

def shortenEmheader (wordAt nextIntAt : Nat) (length : UInt32) : Writer :=
  let out := drainAt w.out nextIntAt 4
  let previous := UInt32.ofNat (w.endianness.value ((out.drop wordAt).take 4))
  let patched := (previous &&& ~~~((0x7 : UInt32) <<< 28)) ||| (shortCode length <<< 28)
  { w with out := overwrite out wordAt (w.order4 patched) }

def finishEmheader (header : EmHeader) : Except WireError Writer :=
  match header.nextInt with
  | none =>
    let declared := 1 <<< header.lengthCode.toNat
    let body := w.out.length - header.word - 4
    if header.lengthCode ≤ 3 ∧ header.word + 4 ≤ w.out.length ∧ body ≠ declared then
      .error (.outOfRange w.out.length
        (s!"a member of {declared} octets under length code {header.lengthCode}, " ++
          s!"not {body}"))
    else .ok w
  | some nextIntAt =>
    let length := UInt32.ofNat (w.out.length - nextIntAt - 4)
    if w.shortLengthCodes ∧ (length = 1 ∨ length = 2 ∨ length = 4 ∨ length = 8) then
      .ok (w.shortenEmheader header.word nextIntAt length)
    else .ok { w with out := overwrite w.out nextIntAt (w.order4 length) }

/-- Start the value of a parameter: its alignment is counted from its own first octet. -/
def beginParameterValue : Nat × Writer := (w.origin, { w with origin := w.out.length })

def writePid (pid : UInt16) (role : ParameterRole) (mustUnderstand : Bool) :
    Except WireError (Pid × Writer) :=
  if pid > w.plCdr1.highestShortId then
    .error (.outOfRange w.out.length
      (s!"a parameter id the short header carries, not {pid}" ++
        " — the extended header takes it"))
  else
    let w := w.alignTo 4
    let pid := w.plCdr1.shortId pid mustUnderstand
    let w := w.writeU16 pid
    let place := w.out.length
    let (savedOrigin, w) := (w.extend (List.replicate 2 0)).beginParameterValue
    -- The handle keeps the id without either flag.
    let pid := (pid &&& ~~~(pidMustUnderstand ||| pidImplExtension)).toUInt32
    .ok (⟨place, false, pid, mustUnderstand, role, savedOrigin⟩, w)

def writePidExtended (pid : UInt32) (role : ParameterRole) (mustUnderstand : Bool) :
    Except WireError (Pid × Writer) :=
  if pid > eMemberIdMask then
    .error (.outOfRange w.out.length
      s!"a member id inside the 28 bits of an eMemberHeader, not {pid}")
  else
    let w := w.alignTo 4
    let w := w.writeU16 w.plCdr1.extendedMarker
    let w := w.writeU16 8
    let w := w.writeU32 (w.plCdr1.memberHeader pid mustUnderstand)
    let place := w.out.length
    let (savedOrigin, w) := (w.extend (List.replicate 4 0)).beginParameterValue
    .ok (⟨place, true, pid, mustUnderstand, role, savedOrigin⟩, w)

/-- Rewrite a short parameter header as the extended form: eight octets more, in front of the
value. -/
def promotePid (header : Pid) (length : Nat) : Writer :=
  let start := header.place - 2
  let out := spliceAt w.out (header.place + 2) (List.replicate 8 0)
  let out := overwrite out start (w.order2 w.plCdr1.extendedMarker)
  let out := overwrite out (start + 2) (w.order2 8)
  let out := overwrite out (start + 4)
    (w.order4 (w.plCdr1.memberHeader header.pid header.mustUnderstand))
  { w with out := overwrite out (start + 8) (w.order4 (UInt32.ofNat length)) }

def declaredParameterLength (header : Pid) : Nat :=
  w.plCdr1.paddedLength header.role
    (w.out.length - header.place - (if header.extended then 4 else 2))
    ((w.out.length - header.savedOrigin) % 4)

def finishPid (header : Pid) : Writer :=
  let length := w.declaredParameterLength header
  let w :=
    if header.extended then
      { w with out := overwrite w.out header.place (w.order4 (UInt32.ofNat length)) }
    else if length > pidShortMaxLen then w.promotePid header length
    else { w with out := overwrite w.out header.place (w.order2 (UInt16.ofNat length)) }
  let w := { w with origin := header.savedOrigin }
  if w.plCdr1.padAfterValue then w.alignTo 4 else w

def writeSentinel : Writer :=
  let w := w.alignTo 4
  (w.writeU16 (pidListEnd ||| w.plCdr1.pidFlags.flagsAt .sentinel)).writeU16 0

variable {α : Type}

def writeArray (w : Writer) (values : List α) (element : Writer → α → Except WireError Writer) :
    Except WireError Writer :=
  values.foldlM element w

def writeSequence (w : Writer) (values : List α) (element : Writer → α → Except WireError Writer) :
    Except WireError Writer :=
  (w.writeU32 (UInt32.ofNat values.length)).writeArray values element

def writeSequenceBounded (w : Writer) (values : List α) (bound : Nat)
    (element : Writer → α → Except WireError Writer) : Except WireError Writer :=
  if values.length > bound then
    .error (.outOfRange w.out.length
      (s!"at most {bound} elements in a bounded sequence, and this one has " ++
        s!"{values.length}"))
  else w.writeSequence values element

def writeMap {κ : Type} (w : Writer) (entries : List (κ × α))
    (key : Writer → κ → Except WireError Writer) (value : Writer → α → Except WireError Writer) :
    Except WireError Writer :=
  (w.writeU32 (UInt32.ofNat entries.length)).writeArray entries fun w entry =>
    (key w entry.1).bind fun w => value w entry.2

def writeMapBounded {κ : Type} (w : Writer) (entries : List (κ × α)) (bound : Nat)
    (key : Writer → κ → Except WireError Writer) (value : Writer → α → Except WireError Writer) :
    Except WireError Writer :=
  if entries.length > bound then
    .error (.outOfRange w.out.length
      s!"at most {bound} entries in a bounded map, and this one has {entries.length}")
  else w.writeMap entries key value

def writeDelimited (w : Writer) (body : Writer → Except WireError Writer) :
    Except WireError Writer :=
  let (header, w) := w.writeDheader
  (body w).bind fun w => w.tryFinishDheader header

end Writer

end ZeroDds.Wire
