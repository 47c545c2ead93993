/-
The liveliness of the writers a reader is matched with.

A writer is matched before it asserts its liveliness, alive, or not alive once its lease has run
out; one that is lost with its participant stays counted until it is matched again.
-/
import ZeroDds.Dcps.Types

namespace ZeroDds.Dcps

inductive LivelinessKind where
  | automatic
  | manualByParticipant
  | manualByTopic
deriving Repr, DecidableEq

inductive WriterLiveliness where
  /-- Matched, and has not asserted its liveliness yet. -/
  | unasserted
  | alive
  | notAlive
deriving Repr, DecidableEq

structure Tracked where
  kind : LivelinessKind
  lease : Option Nat
  lastAssert : Nat
  state : WriterLiveliness
deriving Repr, DecidableEq

structure LivelinessChangedStatus where
  aliveCount : Int := 0
  notAliveCount : Int := 0
  aliveCountChange : Int := 0
  notAliveCountChange : Int := 0
  lastPublicationHandle : InstanceHandle := handleNil
deriving Repr, DecidableEq

structure LivelinessTracker where
  writers : SortedMap WriterGuid Tracked := .empty
  alive : Int := 0
  notAlive : Int := 0
  aliveChange : Int := 0
  notAliveChange : Int := 0
  lastWriter : Option WriterGuid := none
  /-- How many times a count has changed, as a `u64`. -/
  changes : Nat := 0
  /-- Writers whose lease ran out, for the reader to take out of its instances. -/
  lost : List WriterGuid := []
  /-- Writers lost with their participant and not matched since. -/
  departed : SortedSet WriterGuid := .empty

abbrev GuidPrefix := Vector UInt8 12

def prefixOf (guid : WriterGuid) : GuidPrefix := guid.octets.take 12

def durationMax : Nat := 18446744073709551615 * 1000000000 + 999999999

namespace LivelinessTracker

variable (t : LivelinessTracker) (renewed : WriterGuid → Tracked → Bool) (writer : WriterGuid)

def changed : LivelinessTracker :=
  { t with lastWriter := some writer, changes := (t.changes + 1) % 2 ^ 64 }

/-- Whether a GUID is one of the participant's: it lies between the least and the greatest such. -/
def inParticipant (guidPrefix : GuidPrefix) (guid : WriterGuid) : Bool :=
  let low : WriterGuid := ⟨guidPrefix ++ Vector.replicate 4 (0 : UInt8)⟩
  let high : WriterGuid := ⟨guidPrefix ++ Vector.replicate 4 (0xff : UInt8)⟩
  decide (low ≤ guid) && decide (guid ≤ high)

def renews (manual : Bool) (writer : Option WriterGuid) (now : Nat) (guid : WriterGuid)
    (t : Tracked) : Bool :=
  let covered := some guid == writer ||
    match t.kind with
    | .automatic => true
    | .manualByParticipant => manual
    | .manualByTopic => false
  covered && !decide (now < t.lastAssert) && !(now == t.lastAssert && t.state == .notAlive)

structure Moves where
  alive : Int := 0
  notAlive : Int := 0
  transitions : Nat := 0
  last : Option WriterGuid := none

def Moves.revive (m : Moves) (guid : WriterGuid) (state : WriterLiveliness) : Moves :=
  match state with
  | .alive => m
  | .unasserted =>
    { m with alive := m.alive + 1, transitions := m.transitions + 1, last := some guid }
  | .notAlive =>
    { m with
      alive := m.alive + 1
      notAlive := m.notAlive - 1
      transitions := m.transitions + 1
      last := some guid }

def afterRenewal (now : Nat) (guid : WriterGuid) (t : Tracked) : Tracked :=
  if renewed guid t then { t with lastAssert := now, state := .alive } else t

def walk (l : List (WriterGuid × Tracked)) (m : Moves) : Moves :=
  l.foldl (fun m e => if renewed e.1 e.2 then m.revive e.1 e.2.state else m) m

def renew (now : Nat) : LivelinessTracker × Bool :=
  let moves := walk renewed t.writers.entries {}
  let t := { t with writers := t.writers.mapWithKey (afterRenewal renewed now) }
  if moves.transitions = 0 then (t, false)
  else
    ({ t with
        alive := t.alive + moves.alive
        aliveChange := t.aliveChange + moves.alive
        notAlive := t.notAlive + moves.notAlive
        notAliveChange := t.notAliveChange + moves.notAlive
        lastWriter := moves.last
        changes := (t.changes + moves.transitions) % 2 ^ 64 }, true)

def renewParticipant (guidPrefix : GuidPrefix) (manual : Bool) (writer : Option WriterGuid)
    (now : Nat) : LivelinessTracker × Bool :=
  t.renew (fun guid tracked =>
    inParticipant guidPrefix guid && renews manual writer now guid tracked) now

def writerAsserted (now : Nat) : LivelinessTracker × Bool :=
  t.renewParticipant (prefixOf writer) true (some writer) now

def participantAsserted (guidPrefix : GuidPrefix) (manual : Bool) (now : Nat) :
    LivelinessTracker × Bool :=
  t.renewParticipant guidPrefix manual none now

def matched (kind : LivelinessKind) (lease : Option Nat) (now : Nat) : LivelinessTracker × Bool :=
  match t.writers.get? writer with
  | some tracked =>
    ({ t with writers := t.writers.insert writer { tracked with kind, lease } }, false)
  | none =>
    -- a writer lost with its participant comes back not alive
    let tracked : Tracked :=
      if t.departed.contains writer then ⟨kind, lease, 0, .notAlive⟩
      else ⟨kind, lease, now, .unasserted⟩
    let t := { t with
      departed := t.departed.erase writer
      writers := t.writers.insert writer tracked }
    if kind = .automatic then t.renewParticipant (prefixOf writer) false (some writer) now
    else (t, false)

def unmatched : LivelinessTracker × Bool :=
  match t.writers.get? writer with
  | none => (t, false)
  | some tracked =>
    let t := { t with writers := t.writers.erase writer }
    match tracked.state with
    | .unasserted => (t, false)
    | .alive =>
      (changed { t with alive := t.alive - 1, aliveChange := t.aliveChange - 1 } writer, true)
    | .notAlive =>
      (changed { t with notAlive := t.notAlive - 1, notAliveChange := t.notAliveChange - 1 } writer,
        true)

def lostWithParticipant : LivelinessTracker × Bool :=
  match t.writers.get? writer with
  | none => (t, false)
  | some tracked =>
    let t := { t with writers := t.writers.erase writer }
    match tracked.state with
    | .unasserted => (t, false)
    | .alive =>
      (changed { t with
          alive := t.alive - 1
          aliveChange := t.aliveChange - 1
          notAlive := t.notAlive + 1
          notAliveChange := t.notAliveChange + 1
          departed := t.departed.insert writer () } writer, true)
    | .notAlive => ({ t with departed := t.departed.insert writer () }, false)

def due (t : Tracked) : Option Nat :=
  match t.state, t.lease with
  | .alive, some lease => some (min (t.lastAssert + lease) durationMax)
  | _, _ => none

def expireOne (guid : WriterGuid) : LivelinessTracker :=
  let t := changed { t with
    writers := t.writers.modify guid fun tracked => { tracked with state := .notAlive }
    alive := t.alive - 1
    aliveChange := t.aliveChange - 1
    notAlive := t.notAlive + 1
    notAliveChange := t.notAliveChange + 1 } guid
  { t with lost := t.lost ++ [guid] }

def expired (now : Nat) : List WriterGuid :=
  (t.writers.entries.filter fun e => (due e.2).any fun d => decide (d ≤ now)).map Prod.fst

def nextDue (now : Nat) : Option Nat :=
  (t.writers.values.filterMap due).foldl
    (fun next d => if d ≤ now then next else some (next.elim d fun n => min n d)) none

def expire (now : Nat) : LivelinessTracker × Bool × Option Nat :=
  ((t.expired now).foldl expireOne t, !(t.expired now).isEmpty, t.nextDue now)

def status : LivelinessChangedStatus :=
  { aliveCount := t.alive
    notAliveCount := t.notAlive
    aliveCountChange := t.aliveChange
    notAliveCountChange := t.notAliveChange
    lastPublicationHandle := t.lastWriter.elim handleNil InstanceHandle.fromGuid }

def acknowledge (reported : LivelinessChangedStatus) : LivelinessTracker :=
  { t with
    aliveChange := t.aliveChange - reported.aliveCountChange
    notAliveChange := t.notAliveChange - reported.notAliveCountChange }

def takeStatus : LivelinessTracker × LivelinessChangedStatus :=
  (t.acknowledge t.status, t.status)

end LivelinessTracker

end ZeroDds.Dcps
