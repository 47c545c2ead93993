/-
Peer behaviour and the writer group.
-/
import ZeroDds.Rtps.HistoryCache

namespace ZeroDds.Rtps

inductive DisposeKeyForm where
  | keyInPayload
  | keyInPayloadWithHash
  | hashOnly
  deriving DecidableEq

namespace DisposeKeyForm

def setsKeyFlag (f : DisposeKeyForm) : Bool := f = .keyInPayload || f = .keyInPayloadWithHash

def emitsKeyHash (f : DisposeKeyForm) : Bool := f = .keyInPayloadWithHash || f = .hashOnly

def withKeyAvailable (f : DisposeKeyForm) (keyAvailable : Bool) : DisposeKeyForm :=
  if keyAvailable then f else .hashOnly

end DisposeKeyForm

inductive DirectedAddressing where
  | byEntityIdOnly
  | prefixEveryDatagram
  deriving DecidableEq

namespace DirectedAddressing

def emitsInfoDst (a : DirectedAddressing) : Bool := a = .prefixEveryDatagram

def fromEmitInfoDst (emit : Bool) : DirectedAddressing :=
  if emit then .prefixEveryDatagram else .byEntityIdOnly

end DirectedAddressing

inductive GroupCoherentSetPid where
  | sent
  | omitted
  deriving DecidableEq

inductive GroupWireForm where
  | specification
  | coherentSetsOnly
  deriving DecidableEq

inductive EndOfSetForm where
  | data
  | gap
  deriving DecidableEq

inductive HeartbeatGroupDigests where
  | sent
  | omitted
  deriving DecidableEq

structure RtpsBehaviour where
  disposeKeyForm : DisposeKeyForm
  directedAddressing : DirectedAddressing
  groupCoherentSet : GroupCoherentSetPid
  heartbeatGroupDigests : HeartbeatGroupDigests
  groupWireForm : GroupWireForm
  endOfSetForm : EndOfSetForm
  deriving DecidableEq

namespace RtpsBehaviour

def new : RtpsBehaviour where
  disposeKeyForm := .keyInPayloadWithHash
  directedAddressing := .byEntityIdOnly
  groupCoherentSet := .sent
  heartbeatGroupDigests := .sent
  groupWireForm := .specification
  endOfSetForm := .data

end RtpsBehaviour

/-- The participant-wide default, the overrides for one reader and those for all
readers of a participant. -/
structure BehaviourTable where
  default : RtpsBehaviour
  overrides : List (Guid × RtpsBehaviour)
  participants : List (GuidPrefix × RtpsBehaviour)
  deriving DecidableEq

namespace BehaviourTable

def new (default : RtpsBehaviour) : BehaviourTable := ⟨default, [], []⟩

variable (t : BehaviourTable)

def forPeer (peer : Guid) : RtpsBehaviour :=
  match t.overrides.find? fun e => e.1 = peer with
  | some e => e.2
  | none => ((t.participants.find? fun e => e.1 = peer.guidPrefix).map Prod.snd).getD t.default

def setDefault (b : RtpsBehaviour) : BehaviourTable := { t with default := b }

def setForPeer (peer : Guid) (b : RtpsBehaviour) : BehaviourTable :=
  match t.overrides.findIdx? fun e => e.1 = peer with
  | some idx => { t with overrides := t.overrides.set idx (peer, b) }
  | none => { t with overrides := t.overrides ++ [(peer, b)] }

def clearForPeer (peer : Guid) : BehaviourTable :=
  { t with overrides := t.overrides.filter fun e => e.1 ≠ peer }

def setForParticipant (guidPrefix : GuidPrefix) (b : RtpsBehaviour) : BehaviourTable :=
  match t.participants.findIdx? fun e => e.1 = guidPrefix with
  | some idx => { t with participants := t.participants.set idx (guidPrefix, b) }
  | none => { t with participants := t.participants ++ [(guidPrefix, b)] }

end BehaviourTable

/-! ### The writer group -/

/-- What the writers of one GROUP-scope publisher share; `coherentFirst` is 0
while no group coherent set is open. -/
structure WriterGroup where
  lastGsn : Int
  writerSet : GroupDigest
  coherentFirst : Int
  deriving DecidableEq

namespace WriterGroup

def new : WriterGroup := ⟨0, GroupDigest.empty, 0⟩

variable (g : WriterGroup)

def currentGsn : Int := g.lastGsn

def stampChange : WriterGroup × ChangeGroupInfo :=
  let gsn := g.lastGsn + 1
  ({ g with lastGsn := gsn },
    { gsn := gsn
      writerSet := g.writerSet
      coherentSetGsn :=
        if g.coherentFirst ≠ 0 ∧ g.coherentFirst ≤ gsn then some g.coherentFirst else none })

def beginCoherentSet : WriterGroup :=
  if g.coherentFirst = 0 then { g with coherentFirst := g.lastGsn + 1 } else g

/-- Closes the set and draws the number every writer's end-of-set DATA carries;
`none` for a set without a change. -/
def endCoherentSet : WriterGroup × Option GroupSetEnd :=
  let closed := { g with coherentFirst := 0 }
  if g.coherentFirst = 0 ∨ g.lastGsn < g.coherentFirst then (closed, none)
  else
    ({ closed with lastGsn := g.lastGsn + 1 },
      some ⟨g.coherentFirst, g.lastGsn + 1, g.writerSet⟩)

end WriterGroup
end ZeroDds.Rtps
