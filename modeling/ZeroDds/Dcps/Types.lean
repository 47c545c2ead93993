/-
Times, keys and sample information.

What a DataReader reads off a received sample and what it tells the application about it.
-/
import Mathlib.Data.Prod.Lex
import ZeroDds.Lib.SortedMap
import ZeroDds.Rtps.WireTypes

namespace ZeroDds.Dcps

open Rtps (Octets HeTimestamp)

/-! ### Sixteen octets: key hashes and writer GUIDs -/

structure Octets16 where
  octets : Vector UInt8 16

instance : LinearOrder Octets16 :=
  LinearOrder.lift' (fun b => b.octets.toList.map UInt8.toNat) (by
    intro a b h
    have hlist := List.map_injective_iff.mpr (fun _ _ h => UInt8.toNat_inj.mp h) h
    exact congrArg Octets16.mk (Vector.toList_inj.mp hlist))

def Octets16.repeated (b : UInt8) : Octets16 := ⟨Vector.replicate 16 b⟩

abbrev KeyHash := Octets16

abbrev WriterGuid := Octets16

def WriterGuid.unknown : WriterGuid := Octets16.repeated 0

def keylessInstanceKey : KeyHash := Octets16.repeated 0

abbrev InstanceHandle := Nat

def handleNil : InstanceHandle := 0

def InstanceHandle.fromGuid (g : Octets16) : InstanceHandle :=
  let h := g.octets.toList.foldl
    (fun h b => Nat.xor h b.toNat * 1099511628211 % 18446744073709551616) 14695981039346656037
  if h = 0 then 1 else h

def i32Max : Int := 2147483647

def i32Min : Int := -2147483648

def satAddI32 (a b : Int) : Int := max i32Min (min i32Max (a + b))

/-- The i32 that a sum or a difference is computed as; where it is another number, a debug build
panics. -/
@[irreducible] def wrapI32 (n : Int) : Int := (n + 2147483648) % 4294967296 - 2147483648

def u128Max : Nat := 340282366920938463463374607431768211455

structure Time where
  sec : Int
  nanosec : Nat

namespace Time

instance : LinearOrder Time :=
  LinearOrder.lift' (fun t => toLex (t.sec, t.nanosec)) (by
    intro a b h
    obtain ⟨hsec, hnanos⟩ := Prod.mk.inj (toLex.injective h)
    cases a
    cases b
    exact congrArg₂ Time.mk hsec hnanos)

def zero : Time := ⟨0, 0⟩

def invalid : Time := ⟨-1, 4294967295⟩

def infinite : Time := ⟨2147483647, 4294967294⟩

def clampedNanos (t : Time) : Nat := t.sec.toNat * 1000000000 + t.nanosec

def nanos (t : Time) : Int := t.sec * 1000000000 + t.nanosec

def addDuration (t : Time) (sec : Int) (nanosec : Nat) : Time :=
  let total := t.nanosec + nanosec
  ⟨satAddI32 (satAddI32 t.sec sec) ((total / 1000000000 : Nat) : Int), total % 1000000000⟩

def after (t : Time) (nanos : Nat) : Time :=
  let total := t.clampedNanos + nanos
  ⟨min ((total / 1000000000 : Nat) : Int) i32Max, total % 1000000000⟩

end Time

/-- The time of an INFO_TS: the fraction rounded to nanoseconds, seconds past the
largest `i32` read as negative, and the two reserved values kept. -/
def heTimestampToTime (ts : HeTimestamp) : Time :=
  if ts = ⟨4294967295, 4294967295⟩ then Time.invalid
  else if ts = ⟨4294967295, 4294967294⟩ then Time.infinite
  else
    let seconds : Int :=
      if ts.seconds < 2147483648 then ts.seconds else (ts.seconds : Int) - 4294967296
    let nanos := (ts.fraction * 1000000000 + 2147483648) / 4294967296
    if 1000000000 ≤ nanos then ⟨satAddI32 seconds 1, nanos - 1000000000⟩
    else ⟨seconds, nanos⟩

def lifespanExpiry (sourceTimestamp : Time) (lifespanNanos : Nat) : Option Time :=
  if lifespanNanos = 0 then none
  else some (sourceTimestamp.addDuration (min ((lifespanNanos / 1000000000 : Nat) : Int) i32Max)
    (lifespanNanos % 1000000000))

/-! ### Sample information -/

inductive SampleStateKind where
  | notRead
  | read
  deriving DecidableEq

inductive ViewStateKind where
  | new
  | notNew
  deriving DecidableEq

inductive InstanceStateKind where
  | alive
  | notAliveDisposed
  | notAliveNoWriters
  deriving DecidableEq

structure SampleInfo where
  sampleState : SampleStateKind
  viewState : ViewStateKind
  instanceState : InstanceStateKind
  disposedGenerationCount : Int
  noWritersGenerationCount : Int
  sampleRank : Int
  generationRank : Int
  absoluteGenerationRank : Int
  sourceTimestamp : Time
  instanceHandle : InstanceHandle
  publicationHandle : InstanceHandle
  validData : Bool
  deriving DecidableEq

structure StateMasks where
  sampleStates : UInt32
  viewStates : UInt32
  instanceStates : UInt32
  deriving DecidableEq

namespace StateMasks

def any : StateMasks := ⟨0xffff, 0xffff, 0xffff⟩

end StateMasks

namespace SampleInfo

def sampleBit : SampleStateKind → UInt32
  | .read => 1
  | .notRead => 2

def viewBit : ViewStateKind → UInt32
  | .new => 1
  | .notNew => 2

def instanceBit : InstanceStateKind → UInt32
  | .alive => 1
  | .notAliveDisposed => 2
  | .notAliveNoWriters => 4

def matchesStates (info : SampleInfo) (masks : StateMasks) : Bool :=
  (masks.sampleStates &&& sampleBit info.sampleState) ≠ 0 &&
    (masks.viewStates &&& viewBit info.viewState) ≠ 0 &&
    (masks.instanceStates &&& instanceBit info.instanceState) ≠ 0

def generations (info : SampleInfo) : Int :=
  info.disposedGenerationCount + info.noWritersGenerationCount

end SampleInfo

def writerPublicationHandle (writer : WriterGuid) : InstanceHandle :=
  if writer = WriterGuid.unknown then handleNil else InstanceHandle.fromGuid writer

end ZeroDds.Dcps
