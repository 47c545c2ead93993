/-
Writers and readers of flat samples.

A reader looks at every slot, hands out the unread sample with the highest sequence number and sets
its bit on all the unread ones; the reference variant leaves the bit of the slot it hands out to the
drop of the reference.
-/
import ZeroDds.Flatdata.Allocator

namespace ZeroDds.Flatdata

/-- A type whose values are their octets. -/
class FlatStruct (T : Type) where
  wireSize : Nat
  typeHash : Octets
  asBytes : T → Octets
  fromBytes : Octets → T
  length_asBytes : ∀ x, (asBytes x).length = wireSize
  fromBytes_asBytes : ∀ x, fromBytes (asBytes x) = x

open FlatStruct

variable {T : Type} [FlatStruct T]

/-- How `write`, `commit` and `commit_in_place` end: a slot that could not be committed
is discarded. -/
def finishLoan (handle : SlotHandle) (committed : Except SlotError UInt32 × InMemorySlotAllocator) :
    Except SlotError UInt32 × InMemorySlotAllocator :=
  match committed with
  | (.ok sn, a) => (.ok sn, a)
  | (.error e, a) => (.error e, (a.discardSlot handle).2)

structure FlatWriter where
  activeReadersMask : ReaderMask
  stragglerTimeout : Nat
  deriving DecidableEq

namespace FlatWriter

def reserve (w : FlatWriter) (a : InMemorySlotAllocator) (now : Nat) :
    Except SlotError SlotHandle × InMemorySlotAllocator :=
  match a.reserveSlot w.activeReadersMask with
  | (.error .noFreeSlot, a) =>
    let (evicted, a) := a.evictStale now w.stragglerTimeout w.activeReadersMask
    if evicted = 0 then (.error .noFreeSlot, a) else a.reserveSlot w.activeReadersMask
  | other => other

def write (w : FlatWriter) (a : InMemorySlotAllocator) (now : Nat) (sample : T) :
    Except SlotError UInt32 × InMemorySlotAllocator :=
  match w.reserve a now with
  | (.error e, a) => (.error e, a)
  | (.ok handle, a) => finishLoan handle (a.commitSlot now handle (asBytes sample))

end FlatWriter

structure FlatReader where
  readerIndex : Fin 32
  lastSn : UInt32
  expectedTypeHash : Octets
  deriving DecidableEq

abbrev Found (T : Type) := SlotHandle × UInt32 × T

namespace FlatReader

def new (T : Type) [FlatStruct T] (readerIndex : Fin 32) : FlatReader :=
  ⟨readerIndex, 4294967295, typeHash T⟩

def handleAt (idx : Nat) : SlotHandle := ⟨0, .ofNat idx⟩

def scanSlot (r : FlatReader) (a : InMemorySlotAllocator) (acc : Option (Found T) × List SlotHandle)
    (idx : Nat) : Except SlotError (Option (Found T) × List SlotHandle) := do
  let handle := handleAt idx
  let (header, bytes) ← a.readSlot handle
  if header.sampleSize = 0 then return acc
  if header.hasRead r.readerIndex then return acc
  if UInt32.ofNat bytes.length < UInt32.ofNat (wireSize T) then return acc
  let unseen := r.lastSn = 4294967295 || r.lastSn < header.sequenceNumber
  let beatsCurrent := acc.1.all fun found => decide (found.2.1 < header.sequenceNumber)
  return (if unseen && beatsCurrent then some (handle, header.sequenceNumber, fromBytes bytes)
    else acc.1, acc.2 ++ [handle])

def markAll (readerIndex : Fin 32) :
    InMemorySlotAllocator → List SlotHandle → Except SlotError Unit × InMemorySlotAllocator
  | a, [] => (.ok (), a)
  | a, handle :: rest =>
    match a.markRead handle readerIndex with
    | (.error e, a) => (.error e, a)
    | (.ok (), a) => markAll readerIndex a rest

def scanBest (r : FlatReader) (a : InMemorySlotAllocator) (deferBest : Bool) :
    Except SlotError (Option (Found T)) × InMemorySlotAllocator × FlatReader :=
  if a.typeHash.any fun hash => decide (hash ≠ r.expectedTypeHash) then
    (.error (.sampleTooLarge 0 0), a, r)
  else
    match (List.range a.slots.length).foldlM (r.scanSlot a) (none, []) with
    | .error e => (.error e, a, r)
    | .ok (best, toMark) =>
      let marked := toMark.filter fun handle =>
        !(deferBest && decide (best.map Prod.fst = some handle))
      match markAll r.readerIndex a marked with
      | (.error e, a) => (.error e, a, r)
      | (.ok (), a) => (.ok best, a, { r with lastSn := (best.map (·.2.1)).getD r.lastSn })

end FlatReader

structure FlatSampleRef (T : Type) where
  sample : T
  handle : SlotHandle
  readerIndex : Fin 32
  deriving DecidableEq

/-- One writer, its readers and what they share.  `origin` and `commits` number the
samples: the slot at `i` holds the sample of the commit `origin i`, and a reference is
kept with the number of the sample it was made from. -/
structure System (T : Type) where
  alloc : InMemorySlotAllocator
  writer : FlatWriter
  readers : List FlatReader
  loans : List SlotHandle
  refs : List (FlatSampleRef T × Nat)
  origin : Nat → Nat
  commits : Nat

inductive Op (T : Type) where
  | write (now : Nat) (sample : T)
  | loanSlot (now : Nat)
  | asMut (loan : Nat) (sample : T)
  | commit (now loan : Nat) (sample : T)
  | commitInPlace (now loan : Nat)
  | discard (loan : Nat)
  | read (reader : Nat)
  | readRef (reader : Nat)
  | dropRef (ref : Nat)

/-- What a call did: the slot it reserved, what it handed out with the number of the
sample, or the slot a dropped reference marked with the number of the sample in it. -/
inductive Outcome (T : Type) where
  | committed (reserved : Option SlotHandle) (result : Except SlotError UInt32)
  | loaned (result : Except SlotError SlotHandle)
  | handedOut (result : Except SlotError (Option (Nat × T)))
  | released (handle : SlotHandle) (sample : Nat)
  | done (result : Except SlotError Unit)
  | noSuch

namespace System

variable (s : System T)

/-- The slots after a commit on `handle`, and the number of the sample if there was one. -/
def filled (handle : Option SlotHandle)
    (committed : Except SlotError UInt32 × InMemorySlotAllocator) : System T :=
  match handle, committed with
  | some handle, (.ok _, alloc) =>
    { s with
      alloc := alloc
      origin := Function.update s.origin handle.index s.commits
      commits := s.commits + 1 }
  | _, (_, alloc) => { s with alloc := alloc }

def write (s : System T) (now : Nat) (sample : T) : System T × Outcome T :=
  let reserved := (s.writer.reserve s.alloc now).1.toOption
  let committed := s.writer.write s.alloc now sample
  (s.filled reserved committed, .committed reserved committed.1)

def loanSlot (now : Nat) : System T × Outcome T :=
  match s.writer.reserve s.alloc now with
  | (.ok handle, alloc) =>
    ({ s with alloc := alloc, loans := s.loans ++ [handle] }, .loaned (.ok handle))
  | (.error e, alloc) => ({ s with alloc := alloc }, .loaned (.error e))

def asMut (loan : Nat) (sample : T) : System T × Outcome T :=
  match s.loans[loan]? with
  | none => (s, .noSuch)
  | some handle =>
    let (result, alloc) := s.alloc.writeThrough handle (asBytes sample)
    ({ s with alloc := alloc }, .done result)

def commitLoan (loan : Nat)
    (commit : SlotHandle → Except SlotError UInt32 × InMemorySlotAllocator) :
    System T × Outcome T :=
  match s.loans[loan]? with
  | none => (s, .noSuch)
  | some handle =>
    let committed := finishLoan handle (commit handle)
    ({ s with loans := s.loans.eraseIdx loan }.filled (some handle) committed,
      .committed none committed.1)

def commit (now loan : Nat) (sample : T) : System T × Outcome T :=
  s.commitLoan loan fun handle => s.alloc.commitSlot now handle (asBytes sample)

def commitInPlace (s : System T) (now loan : Nat) : System T × Outcome T :=
  s.commitLoan loan fun handle => s.alloc.commitInPlace now handle (wireSize T)

def discard (loan : Nat) : System T × Outcome T :=
  match s.loans[loan]? with
  | none => (s, .noSuch)
  | some handle =>
    let (result, alloc) := s.alloc.discardSlot handle
    ({ s with alloc := alloc, loans := s.loans.eraseIdx loan }, .done result)

def scan (reader : Nat) (deferBest : Bool) : System T × Outcome T :=
  match s.readers[reader]? with
  | none => (s, .noSuch)
  | some r =>
    let (result, alloc, r) := r.scanBest (T := T) s.alloc deferBest
    let made := (result.toOption.bind id).map fun found =>
      ((⟨found.2.2, found.1, r.readerIndex⟩ : FlatSampleRef T), s.origin found.1.index)
    ({ s with
        alloc := alloc
        readers := s.readers.set reader r
        refs := if deferBest then s.refs ++ made.toList else s.refs },
      .handedOut (result.map fun best => best.map fun found =>
        (s.origin found.1.index, found.2.2)))

def read (reader : Nat) : System T × Outcome T := s.scan reader false

def readRef (reader : Nat) : System T × Outcome T := s.scan reader true

def dropRef (ref : Nat) : System T × Outcome T :=
  match s.refs[ref]? with
  | none => (s, .noSuch)
  | some (held, _) =>
    ({ s with
        alloc := (s.alloc.markRead held.handle held.readerIndex).2
        refs := s.refs.eraseIdx ref },
      .released held.handle (s.origin held.handle.index))

def step : Op T → System T × Outcome T
  | .write now sample => s.write now sample
  | .loanSlot now => s.loanSlot now
  | .asMut loan sample => s.asMut loan sample
  | .commit now loan sample => s.commit now loan sample
  | .commitInPlace now loan => s.commitInPlace now loan
  | .discard loan => s.discard loan
  | .read reader => s.read reader
  | .readRef reader => s.readRef reader
  | .dropRef ref => s.dropRef ref

def new (alloc : InMemorySlotAllocator) (writer : FlatWriter) (readers : List FlatReader) :
    System T :=
  ⟨alloc, writer, readers, [], [], fun _ => 0, 0⟩

end System

end ZeroDds.Flatdata
