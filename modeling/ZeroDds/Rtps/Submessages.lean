/-
Submessages.

The number sets and the submessages a writer and a reader exchange, as the fields their bodies
carry.
-/
import ZeroDds.Lib.Bitmap
import ZeroDds.Rtps.InlineQos

namespace ZeroDds.Rtps

def rtpsBitmapMaxBits : Nat := 256

structure SequenceNumberSet where
  bitmapBase : Int
  numBits : Nat
  bitmap : Bitmap
  deriving DecidableEq

namespace SequenceNumberSet

def wireSize (numBits : Nat) : Nat := 8 + 4 + Bitmap.words numBits * 4

/-- The set of the numbers of an ascending list that lie in the window behind
`base`, which ends at the last of them or after 256 numbers. -/
def fromMissing (base : Int) (missing : List Int) : SequenceNumberSet :=
  match missing.getLast? with
  | none => ⟨base, 0, []⟩
  | some last =>
    if last < base then ⟨base, 0, []⟩
    else
      let numBits := min (min ((last - base).toNat + 1) u32Max) rtpsBitmapMaxBits
      ⟨base, numBits,
        Bitmap.ofPositions numBits
          ((missing.filter fun sn => base ≤ sn).map fun sn => (sn - base).toNat)⟩

def iterSet (s : SequenceNumberSet) : List Int :=
  (Bitmap.positions s.numBits s.bitmap).map fun i : Nat => s.bitmapBase + (i : Int)

end SequenceNumberSet

structure FragmentNumberSet where
  bitmapBase : Nat
  numBits : Nat
  bitmap : Bitmap
  deriving DecidableEq

namespace FragmentNumberSet

def wireSize (numBits : Nat) : Nat := 4 + 4 + Bitmap.words numBits * 4

def fromMissing (base : Nat) (missing : List Nat) : FragmentNumberSet :=
  match missing.getLast? with
  | none => ⟨base, 0, []⟩
  | some last =>
    if last < base then ⟨base, 0, []⟩
    else
      let numBits := min (min (last - base + 1) u32Max) rtpsBitmapMaxBits
      ⟨base, numBits,
        Bitmap.ofPositions numBits
          ((missing.filter fun f => base ≤ f).map fun f => f - base)⟩

def iterSet (s : FragmentNumberSet) : List Nat :=
  (Bitmap.positions s.numBits s.bitmap).map fun i => (s.bitmapBase + i) % 4294967296

end FragmentNumberSet

structure DataSubmessage where
  extraFlags : Nat
  readerId : EntityId
  writerId : EntityId
  writerSn : Int
  inlineQos : Option ParameterList
  dataFlag : Bool
  keyFlag : Bool
  nonStandardFlag : Bool
  serializedPayload : Octets
  deriving DecidableEq

structure DataFragSubmessage where
  inlineQos : Option ParameterList
  extraFlags : Nat
  readerId : EntityId
  writerId : EntityId
  writerSn : Int
  fragmentStartingNum : Nat
  fragmentsInSubmessage : Nat
  fragmentSize : Nat
  sampleSize : Nat
  serializedPayload : Octets
  inlineQosFlag : Bool
  keyFlag : Bool
  nonStandardFlag : Bool
  deriving DecidableEq

structure HeartbeatGroupInfo where
  currentGsn : Int
  firstGsn : Int
  lastGsn : Int
  writerSet : Option GroupDigest
  secureWriterSet : Option GroupDigest
  deriving DecidableEq

structure HeartbeatSubmessage where
  readerId : EntityId
  writerId : EntityId
  firstSn : Int
  lastSn : Int
  count : Int
  finalFlag : Bool
  livelinessFlag : Bool
  groupInfo : Option HeartbeatGroupInfo
  deriving DecidableEq

structure HeartbeatFragSubmessage where
  readerId : EntityId
  writerId : EntityId
  writerSn : Int
  lastFragmentNum : Nat
  count : Int
  deriving DecidableEq

structure AckNackSubmessage where
  readerId : EntityId
  writerId : EntityId
  readerSnState : SequenceNumberSet
  count : Int
  finalFlag : Bool
  deriving DecidableEq

structure NackFragSubmessage where
  readerId : EntityId
  writerId : EntityId
  writerSn : Int
  fragmentNumberState : FragmentNumberSet
  count : Int
  deriving DecidableEq

structure GapGroupInfo where
  gapStartGsn : Int
  gapEndGsn : Int
  deriving DecidableEq

structure GapSubmessage where
  readerId : EntityId
  writerId : EntityId
  gapStart : Int
  gapList : SequenceNumberSet
  groupInfo : Option GapGroupInfo
  filteredCount : Option Nat
  deriving DecidableEq

inductive Submessage where
  | data (d : DataSubmessage)
  | dataFrag (d : DataFragSubmessage)
  | heartbeat (h : HeartbeatSubmessage)
  | gap (g : GapSubmessage)
  | infoDst (guidPrefix : GuidPrefix)
  | infoTs (timestamp : HeTimestamp)
  | ackNack (a : AckNackSubmessage)
  | nackFrag (n : NackFragSubmessage)
  deriving DecidableEq

namespace Submessage

def inlineQosLen : Option ParameterList → Nat
  | none => 0
  | some pl => pl.wireLen

def bodyLen : Submessage → Nat
  | .data d => 20 + inlineQosLen d.inlineQos + d.serializedPayload.length
  | .dataFrag d => 32 + inlineQosLen d.inlineQos + d.serializedPayload.length
  | .heartbeat h =>
    28 + (match h.groupInfo with
      | none => 0
      | some gi => 24 + (if gi.writerSet.isSome then 8 else 0))
  | .gap g =>
    4 + 4 + 8 + (12 + 4 * g.gapList.bitmap.length) +
      (if g.groupInfo.isSome then 16 else 0) + (if g.filteredCount.isSome then 8 else 0)
  | .infoDst _ => 12
  | .infoTs _ => 8
  | .ackNack a => 4 + 4 + (12 + 4 * a.readerSnState.bitmap.length) + 4
  | .nackFrag n => 4 + 4 + 8 + (8 + 4 * n.fragmentNumberState.bitmap.length) + 4

end Submessage

structure RtpsHeader where
  protocolVersion : ProtocolVersion
  vendorId : VendorId
  guidPrefix : GuidPrefix
  deriving DecidableEq

def RtpsHeader.new (vendorId : VendorId) (guidPrefix : GuidPrefix) : RtpsHeader :=
  ⟨.v25, vendorId, guidPrefix⟩

structure OutboundDatagram where
  header : RtpsHeader
  submessages : List Submessage
  targets : List Locator
  deriving DecidableEq

/-! ### Reading a number set back -/

theorem le_of_getLast? {α : Type} [Preorder α] {l : List α} {last : α} (hl : l.Pairwise (· < ·))
    (h : l.getLast? = some last) : ∀ a ∈ l, a ≤ last := by
  obtain ⟨init, rfl⟩ := List.getLast?_eq_some_iff.mp h
  intro a ha
  rcases List.mem_append.mp ha with ha | ha
  · exact le_of_lt ((List.pairwise_append.mp hl).2.2 a ha last (by simp))
  · exact le_of_eq (List.mem_singleton.mp ha)

theorem positions_window {is : List Nat} {last : Nat} (his : is.Pairwise (· < ·))
    (hlast : ∀ i ∈ is, i ≤ last) : let numBits := min (min (last + 1) u32Max) rtpsBitmapMaxBits
    Bitmap.positions numBits (Bitmap.ofPositions numBits is) =
      is.filter (· < rtpsBitmapMaxBits) := by
  intro numBits
  rw [Bitmap.positions_ofPositions _ his]
  refine List.filter_congr fun i hi => decide_eq_decide.mpr ?_
  have := hlast i hi
  simp only [numBits, u32Max, rtpsBitmapMaxBits]
  omega

theorem map_filter_offset {α : Type} {l : List α} {p : α → Bool} {f : α → Nat} {g : Nat → α}
    {q : Nat → Bool} (hp : ∀ a ∈ l, q (f a) = p a) (hg : ∀ a ∈ l, g (f a) = a) :
    ((l.map f).filter q).map g = l.filter p := by
  rw [List.filter_map, List.map_map, List.filter_congr (p := q ∘ f) (q := p) hp]
  conv_rhs => rw [← List.map_id (List.filter p l)]
  exact List.map_congr_left fun a ha => hg a (List.mem_of_mem_filter ha)

theorem SequenceNumberSet.iterSet_fromMissing {base : Int} {missing : List Int}
    (hsorted : missing.Pairwise (· < ·)) (hbase : ∀ sn ∈ missing, base ≤ sn) :
    (fromMissing base missing).iterSet = missing.filter (· < base + rtpsBitmapMaxBits) := by
  unfold fromMissing
  split
  · next h => simp [List.getLast?_eq_none_iff.mp h, iterSet, Bitmap.positions]
  · next last hlast =>
    have hle := hbase last (List.mem_of_getLast? hlast)
    have hmax := le_of_getLast? hsorted hlast
    rw [if_neg (not_lt.mpr hle), List.filter_eq_self.mpr fun sn h => by simpa using hbase sn h]
    simp only [iterSet]
    rw [positions_window]
    · refine map_filter_offset (fun sn hsn => decide_eq_decide.mpr ?_) fun sn hsn => ?_
      · have := hbase sn hsn; omega
      · have := hbase sn hsn; omega
    · refine List.pairwise_map.mpr (hsorted.imp_of_mem fun ha hb hab => ?_)
      have := hbase _ ha
      omega
    · intro i hi
      obtain ⟨sn, hsn, rfl⟩ := List.mem_map.mp hi
      have := hmax sn hsn
      omega

theorem FragmentNumberSet.iterSet_fromMissing {base : Nat} {missing : List Nat}
    (hsorted : missing.Pairwise (· < ·)) (hbase : ∀ f ∈ missing, base ≤ f)
    (hbound : ∀ f ∈ missing, f < 4294967296) :
    (fromMissing base missing).iterSet = missing.filter (· < base + rtpsBitmapMaxBits) := by
  unfold fromMissing
  split
  · next h => simp [List.getLast?_eq_none_iff.mp h, iterSet, Bitmap.positions]
  · next last hlast =>
    have hle := hbase last (List.mem_of_getLast? hlast)
    have hmax := le_of_getLast? hsorted hlast
    rw [if_neg (not_lt.mpr hle), List.filter_eq_self.mpr fun f h => by simpa using hbase f h]
    simp only [iterSet]
    rw [positions_window]
    · refine map_filter_offset (fun f hf => decide_eq_decide.mpr ?_) fun f hf => ?_
      · have := hbase f hf; omega
      · have := hbase f hf
        have := hbound f hf
        omega
    · refine List.pairwise_map.mpr (hsorted.imp_of_mem fun ha hb hab => ?_)
      have := hbase _ ha
      omega
    · intro i hi
      obtain ⟨f, hf, rfl⟩ := List.mem_map.mp hi
      have := hmax f hf
      omega

end ZeroDds.Rtps
