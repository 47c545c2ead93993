/-
Wire types.

The identifiers and numbers the RTPS crate passes around.
-/
import Mathlib.Data.Int.Interval

namespace ZeroDds.Rtps

abbrev Octets := List UInt8

def sequenceNumberUnknown : Int := -(2 ^ 32)

def u16Max : Nat := 65535

def u32Max : Nat := 4294967295

def i64Max : Int := 9223372036854775807

def wrapSuccI32 (n : Int) : Int := if n = 2147483647 then -2147483648 else n + 1

def satInc (n : Nat) : Nat := if n < 18446744073709551615 then n + 1 else n

structure GuidPrefix where
  octets : Vector UInt8 12
  deriving DecidableEq

structure EntityId where
  octets : Vector UInt8 4
  deriving DecidableEq

structure Guid where
  guidPrefix : GuidPrefix
  entityId : EntityId
  deriving DecidableEq

namespace GuidPrefix

def repeated (b : UInt8) : GuidPrefix := ⟨Vector.replicate 12 b⟩

end GuidPrefix

namespace EntityId

def unknown : EntityId := ⟨Vector.replicate 4 0⟩

def userWriterWithKey (a b c : UInt8) : EntityId := ⟨#v[a, b, c, 0x02]⟩

def userReaderWithKey (a b c : UInt8) : EntityId := ⟨#v[a, b, c, 0x07]⟩

end EntityId

namespace Guid

def toBytes (g : Guid) : Octets := g.guidPrefix.octets.toList ++ g.entityId.octets.toList

def fromBytes (b : Octets) : Guid where
  guidPrefix := ⟨Vector.ofFn fun i => b.getD i 0⟩
  entityId := ⟨Vector.ofFn fun i => b.getD (12 + i) 0⟩

end Guid

structure VendorId where
  octets : Vector UInt8 2
  deriving DecidableEq

def VendorId.zerodds : VendorId := ⟨#v[0x01, 0xF0]⟩

structure ProtocolVersion where
  major : UInt8
  minor : UInt8
  deriving DecidableEq

namespace ProtocolVersion

def v25 : ProtocolVersion := ⟨2, 5⟩

def current : ProtocolVersion := v25

end ProtocolVersion

inductive LocatorKind where
  | invalid
  | reserved
  | udpV4
  | udpV6
  | tcpv4
  | tcpv6
  | shm
  | uds
  | tsn
  deriving DecidableEq

structure Locator where
  kind : LocatorKind
  port : Nat
  address : Vector UInt8 16
  deriving DecidableEq

abbrev KeyHash := Vector UInt8 16

structure HeTimestamp where
  seconds : Nat
  fraction : Nat
  deriving DecidableEq

structure GroupDigest where
  octets : Vector UInt8 4
  deriving DecidableEq

namespace GroupDigest

def empty : GroupDigest := ⟨Vector.replicate 4 0⟩

def readFrom (b : Octets) : Option GroupDigest :=
  if 4 ≤ b.length then some ⟨Vector.ofFn fun i => b.getD i 0⟩ else none

end GroupDigest

inductive WireError where
  | unexpectedEof (needed offset : Nat)
  | valueOutOfRange (message : String)
  | invalidMagic (found : Vector UInt8 4)
  | unknownSubmessageId (id : UInt8)
  | invalidLocatorKind (kind : Int)
  deriving DecidableEq

/-! ### Multi-octet integers -/

variable (littleEndian : Bool)

def u32OfBytes (b : Octets) : Nat :=
  let at' := fun i => (b.getD i 0).toNat
  if littleEndian then at' 0 + 256 * at' 1 + 65536 * at' 2 + 16777216 * at' 3
  else at' 3 + 256 * at' 2 + 65536 * at' 1 + 16777216 * at' 0

def i32OfBytes (b : Octets) : Int :=
  let n := u32OfBytes littleEndian b
  if n < 2147483648 then n else (n : Int) - 4294967296

def sequenceNumberOfBytes (b : Octets) : Int :=
  i32OfBytes littleEndian b * 4294967296 + u32OfBytes littleEndian (b.drop 4)

def u32ToBytes (n : Nat) : Octets :=
  let low := [UInt8.ofNat n, UInt8.ofNat (n / 256), UInt8.ofNat (n / 65536),
    UInt8.ofNat (n / 16777216)]
  if littleEndian then low else low.reverse

def sequenceNumberToBytes (sn : Int) : Octets :=
  let n := (sn % 18446744073709551616).toNat
  u32ToBytes littleEndian (n / 4294967296) ++ u32ToBytes littleEndian (n % 4294967296)

end ZeroDds.Rtps
