/-
The slots of a same-host topic.

A slot holds one sample and a mask with a bit for each reader that has read it.
-/
import Mathlib.Data.BitVec

namespace ZeroDds.Flatdata

abbrev Octets := List UInt8

abbrev ReaderMask := BitVec 32

def bitOf (readerIndex : Fin 32) : ReaderMask := BitVec.twoPow 32 readerIndex

structure SlotHeader where
  sequenceNumber : UInt32
  sampleSize : UInt32
  readerMask : ReaderMask
  deriving DecidableEq

namespace SlotHeader

def new (sn sampleSize : UInt32) : SlotHeader := ⟨sn, sampleSize, 0⟩

def allRead (h : SlotHeader) (activeReadersMask : ReaderMask) : Bool :=
  h.readerMask &&& activeReadersMask == activeReadersMask

def markRead (h : SlotHeader) (readerIndex : Fin 32) : SlotHeader :=
  { h with readerMask := h.readerMask ||| bitOf readerIndex }

def hasRead (h : SlotHeader) (readerIndex : Fin 32) : Bool :=
  h.readerMask &&& bitOf readerIndex != 0

theorem hasRead_eq (h : SlotHeader) (r : Fin 32) : h.hasRead r = h.readerMask.getLsbD r := by
  rw [hasRead, bitOf, BitVec.and_twoPow]
  cases hbit : h.readerMask.getLsbD r with
  | false => rfl
  | true =>
    rw [if_pos rfl, bne_iff_ne]
    intro hzero
    have hget := congrArg (BitVec.getLsbD · r.val) hzero
    simp at hget

theorem hasRead_markRead (h : SlotHeader) (r q : Fin 32) :
    (h.markRead r).hasRead q = (h.hasRead q || decide (q = r)) := by
  have hbit : (bitOf r).getLsbD q = decide (q = r) := by
    rw [bitOf, BitVec.getLsbD_twoPow]
    by_cases hq : q = r
    · subst hq
      simp
    · have hval : ¬ r.val = q.val := fun heq => hq (Fin.ext heq.symm)
      simp [hq, hval]
  rw [hasRead_eq, hasRead_eq, markRead, BitVec.getLsbD_or, hbit]

theorem hasRead_of_allRead {h : SlotHeader} {mask : ReaderMask} {r : Fin 32}
    (hall : h.allRead mask = true) (hr : mask.getLsbD r = true) : h.hasRead r = true := by
  have heq := beq_iff_eq.mp hall
  have hget := congrArg (BitVec.getLsbD · r.val) heq
  simp only [BitVec.getLsbD_and, hr, Bool.and_true] at hget
  rw [hasRead_eq, hget]

theorem hasRead_new (sn size : UInt32) (r : Fin 32) : (new sn size).hasRead r = false := by
  rw [hasRead_eq, new]
  exact BitVec.getLsbD_zero

end SlotHeader

structure Slot where
  header : SlotHeader
  data : Octets
  loaned : Bool
  committedAt : Option Nat
  deriving DecidableEq

structure SlotHandle where
  segmentId : UInt64
  slotIndex : UInt32
  deriving DecidableEq

def SlotHandle.index (h : SlotHandle) : Nat := h.slotIndex.toNat

inductive SlotError where
  | noFreeSlot
  | outOfBounds
  | sampleTooLarge (sample slotCapacity : Nat)
  deriving DecidableEq

structure InMemorySlotAllocator where
  slots : List Slot
  segmentId : UInt64
  slotCapacity : Nat
  nextSn : UInt32
  typeHash : Option Octets
  deriving DecidableEq

def u32OrMax (n : Nat) : UInt32 := if n < 4294967296 then .ofNat n else 4294967295

/-- A slot the writer may take: not on loan, and empty or read by every active reader. -/
def Slot.free (slot : Slot) (activeReadersMask : ReaderMask) : Bool :=
  !slot.loaned && (slot.header.sampleSize == 0 || slot.header.allRead activeReadersMask)

namespace InMemorySlotAllocator

def new (segmentId : UInt64) (slotCount slotCapacity : Nat) : InMemorySlotAllocator where
  slots := List.replicate slotCount ⟨.new 0 0, List.replicate slotCapacity 0, false, none⟩
  segmentId := segmentId
  slotCapacity := slotCapacity
  nextSn := 0
  typeHash := none

variable (a : InMemorySlotAllocator)

def reserveSlot (activeReadersMask : ReaderMask) :
    Except SlotError SlotHandle × InMemorySlotAllocator :=
  match a.slots.findIdx? (·.free activeReadersMask) with
  | some idx =>
    (.ok ⟨a.segmentId, .ofNat idx⟩,
      { a with slots := a.slots.modify idx fun slot => { slot with loaned := true } })
  | none => (.error .noFreeSlot, a)

/-- Finishes a loan: the header of a sample of `len` octets, and what becomes of the
data. -/
def commitWith (now : Nat) (handle : SlotHandle) (len : Nat) (fill : Octets → Octets) :
    Except SlotError UInt32 × InMemorySlotAllocator :=
  if a.slotCapacity < len then (.error (.sampleTooLarge len a.slotCapacity), a)
  else if a.slots.length ≤ handle.index then (.error .outOfBounds, a)
  else
    (.ok a.nextSn,
      { a with
        nextSn := a.nextSn + 1
        slots := a.slots.modify handle.index fun slot =>
          ⟨.new a.nextSn (u32OrMax len), fill slot.data, false, some now⟩ })

def commitSlot (now : Nat) (handle : SlotHandle) (bytes : Octets) :
    Except SlotError UInt32 × InMemorySlotAllocator :=
  a.commitWith now handle bytes.length fun data => bytes ++ data.drop bytes.length

def commitInPlace (now : Nat) (handle : SlotHandle) (len : Nat) :
    Except SlotError UInt32 × InMemorySlotAllocator :=
  a.commitWith now handle len id

def writeThrough (handle : SlotHandle) (bytes : Octets) :
    Except SlotError Unit × InMemorySlotAllocator :=
  match a.slots[handle.index]? with
  | none => (.error .outOfBounds, a)
  | some slot =>
    if slot.loaned = false then (.error .outOfBounds, a)
    else if a.slotCapacity < bytes.length then
      (.error (.sampleTooLarge bytes.length a.slotCapacity), a)
    else
      (.ok (), { a with slots := a.slots.modify handle.index fun slot =>
        { slot with data := bytes ++ slot.data.drop bytes.length } })

def stale (now maxAge : Nat) (activeReadersMask : ReaderMask) (slot : Slot) : Bool :=
  !slot.loaned && slot.header.sampleSize != 0 && !slot.header.allRead activeReadersMask &&
    slot.committedAt.any fun t => maxAge ≤ now - t

def evictStale (now maxAge : Nat) (activeReadersMask : ReaderMask) : Nat × InMemorySlotAllocator :=
  (a.slots.countP (stale now maxAge activeReadersMask),
    { a with slots := a.slots.map fun slot =>
        if stale now maxAge activeReadersMask slot then
          { slot with header := { slot.header with
              readerMask := slot.header.readerMask ||| activeReadersMask } }
        else slot })

def discardSlot (handle : SlotHandle) : Except SlotError Unit × InMemorySlotAllocator :=
  if a.slots.length ≤ handle.index then (.error .outOfBounds, a)
  else (.ok (), { a with slots := a.slots.modify handle.index fun slot =>
    { slot with loaned := false } })

def readSlot (handle : SlotHandle) : Except SlotError (SlotHeader × Octets) :=
  match a.slots[handle.index]? with
  | none => .error .outOfBounds
  | some slot => .ok (slot.header, slot.data.take slot.header.sampleSize.toNat)

def markRead (a : InMemorySlotAllocator) (handle : SlotHandle) (readerIndex : Fin 32) :
    Except SlotError Unit × InMemorySlotAllocator :=
  if a.slots.length ≤ handle.index then (.error .outOfBounds, a)
  else (.ok (), { a with slots := a.slots.modify handle.index fun slot =>
    { slot with header := slot.header.markRead readerIndex } })

end InMemorySlotAllocator

end ZeroDds.Flatdata
