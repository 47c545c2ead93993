/-
Parameter lists from octets.

The decoder that stops at the sentinel.
-/
import ZeroDds.Rtps.InlineQos

namespace ZeroDds.Rtps

namespace Pid

def sentinel : UInt16 := 0x0001
def listEnd : UInt16 := 0x3F02
def ignored : UInt16 := 0x3F03
def pad : UInt16 := 0x0000
def endpointGuid : UInt16 := 0x005a
def cycloneTopicGuid : UInt16 := 0x801b

end Pid

def maxParameters : Nat := 4096

def u16OfBytes (littleEndian : Bool) (b : Octets) : UInt16 :=
  let lo := (b.getD 0 0).toUInt16
  let hi := (b.getD 1 0).toUInt16
  if littleEndian then lo + 256 * hi else hi + 256 * lo

namespace ParameterList

/-- The parameters of `bytes`, which start at position `pos` of the list; `found` are those read
before. -/
def parseFrom (littleEndian : Bool) (bytes : Octets) (pos : Nat) (found : List Parameter) :
    Except WireError ParameterList :=
  if h : bytes.length < 4 then .error (.unexpectedEof 4 pos)
  else
    let id := u16OfBytes littleEndian bytes
    let length := (u16OfBytes littleEndian (bytes.drop 2)).toNat
    let rest := bytes.drop 4
    if id = Pid.sentinel ∨
        (id &&& ~~~mustUnderstandBit = Pid.listEnd ∧ id &&& vendorSpecificBit = 0) then
      .ok ⟨found, littleEndian⟩
    else if length % 4 ≠ 0 then
      .error (.valueOutOfRange "ParameterList length not 4-byte aligned")
    else if rest.length < length then .error (.unexpectedEof length (pos + 4))
    else if id = Pid.ignored ∨ id = Pid.pad then
      parseFrom littleEndian (rest.drop length) (pos + 4 + length) found
    else if maxParameters ≤ found.length then
      .error (.valueOutOfRange "ParameterList exceeds MAX_PARAMETERS cap")
    else
      parseFrom littleEndian (rest.drop length) (pos + 4 + length)
        (found ++ [⟨id, rest.take length⟩])
termination_by bytes.length
decreasing_by
  all_goals
    simp only [List.length_drop]
    omega

def fromBytes (bytes : Octets) (littleEndian : Bool) : Except WireError ParameterList :=
  parseFrom littleEndian bytes 0 []

end ParameterList

def Guid.ofOctets (b : Octets) : Option Guid :=
  if b.length = 16 then some (Guid.fromBytes b) else none

end ZeroDds.Rtps
