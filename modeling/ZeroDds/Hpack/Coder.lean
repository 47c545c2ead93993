/-
Strings, header blocks, and the two ends of a connection.

The encoder writes an index for a field that is in its table and a literal with incremental indexing
for every other; the decoder takes all representations.
-/
import ZeroDds.Hpack.Huffman
import ZeroDds.Hpack.Table

namespace ZeroDds.Hpack

inductive StringError where
  | integer (e : IntegerError)
  | truncated
  | huffman
  | notUtf8
deriving DecidableEq

def stringOctets (s : String) (huffmanCompress : Bool) : Octets :=
  if huffmanCompress then Huffman.encode (utf8Bytes s) else utf8Bytes s

def encodeString (s : String) (huffmanCompress : Bool) : Octets :=
  let octets := stringOctets s huffmanCompress
  encodeInteger octets.length 7 (if huffmanCompress then 128 else 0) ++ octets

def decodeBytes (input : Octets) : Except StringError (Octets × Nat) :=
  match input with
  | [] => .error .truncated
  | first :: _ =>
    match decodeInteger input 7 with
    | .error e => .error (.integer e)
    | .ok (length, consumed) =>
      let total := consumed + length
      if input.length < total then .error .truncated
      else
        let raw := (input.drop consumed).take length
        if first.toNat &&& 128 ≠ 0 then
          match Huffman.decode raw with
          | .error _ => .error .huffman
          | .ok decoded => .ok (decoded, total)
        else .ok (raw, total)

def decodeString (input : Octets) : Except StringError (String × Nat) :=
  match decodeBytes input with
  | .error e => .error e
  | .ok (bytes, consumed) =>
    match ofUtf8? bytes with
    | none => .error .notUtf8
    | some s => .ok (s, consumed)

def encodeField (t : Table) (useHuffman : Bool) (h : HeaderField) : Octets × Table :=
  match t.find h.name h.value with
  | some (index, true) => (encodeInteger index 7 128, t)
  | some (index, false) =>
    (encodeInteger index 6 64 ++ encodeString h.value useHuffman, t.add h)
  | none =>
    (64 :: (encodeString h.name useHuffman ++ encodeString h.value useHuffman), t.add h)

def encode (useHuffman : Bool) : Table → List HeaderField → Octets × Table
  | t, [] => ([], t)
  | t, h :: headers =>
    let (octets, t) := encodeField t useHuffman h
    let (rest, t) := encode useHuffman t headers
    (octets ++ rest, t)

inductive DecoderError where
  | invalidIndex (index : Nat)
  | integer (e : IntegerError)
  | string (e : StringError)
  | truncated
deriving DecidableEq

def takeString (input : Octets) : Except DecoderError (String × Octets) :=
  match decodeString input with
  | .error e => .error (.string e)
  | .ok (s, consumed) => .ok (s, input.drop consumed)

def takeLiteral (t : Table) (index : Nat) (input : Octets) :
    Except DecoderError (HeaderField × Octets) :=
  let named : Except DecoderError (String × Octets) :=
    if index = 0 then takeString input
    else match t.get index with
      | none => .error (.invalidIndex index)
      | some h => .ok (h.name, input)
  match named with
  | .error e => .error e
  | .ok (name, input) =>
    match takeString input with
    | .error e => .error e
    | .ok (value, input) => .ok (⟨name, value⟩, input)

/-- One turn of the loop: the table, the field if there is one, and the input behind it. -/
def decodeStep (t : Table) (first : UInt8) (input : Octets) :
    Except DecoderError (Table × Option HeaderField × Octets) :=
  if first.toNat &&& 128 ≠ 0 then
    match decodeInteger input 7 with
    | .error e => .error (.integer e)
    | .ok (index, consumed) =>
      if index = 0 then .error (.invalidIndex 0)
      else match t.get index with
        | none => .error (.invalidIndex index)
        | some h => .ok (t, some h, input.drop consumed)
  else if first.toNat &&& 192 = 64 then
    match decodeInteger input 6 with
    | .error e => .error (.integer e)
    | .ok (index, consumed) =>
      match takeLiteral t index (input.drop consumed) with
      | .error e => .error e
      | .ok (h, rest) => .ok (t.add h, some h, rest)
  else if first.toNat &&& 224 = 32 then
    match decodeInteger input 5 with
    | .error e => .error (.integer e)
    | .ok (newSize, consumed) => .ok (t.setMaxSize newSize, none, input.drop consumed)
  else if first.toNat &&& 240 = 0 ∨ first.toNat &&& 240 = 16 then
    match decodeInteger input 4 with
    | .error e => .error (.integer e)
    | .ok (index, consumed) =>
      match takeLiteral t index (input.drop consumed) with
      | .error e => .error e
      | .ok (h, rest) => .ok (t, some h, rest)
  else .error .truncated

def decodeLoop : Nat → Table → Octets → Table × Except DecoderError (List HeaderField)
  | _, t, [] => (t, .ok [])
  | 0, t, _ => (t, .error .truncated)
  | fuel + 1, t, first :: rest =>
    match decodeStep t first (first :: rest) with
    | .error e => (t, .error e)
    | .ok (t, h, rest) =>
      let (t, result) := decodeLoop fuel t rest
      (t, result.map (h.toList ++ ·))

/-- A turn takes an octet at least, so there are turns enough. -/
def decode (t : Table) (input : Octets) : Table × Except DecoderError (List HeaderField) :=
  decodeLoop input.length t input

end ZeroDds.Hpack
