/-
A proxy's turn.
-/
import ZeroDds.Lib.Outcome
import ZeroDds.Rtps.SendView

namespace ZeroDds.Rtps

structure SendLog where
  heartbeatCount : Int
  sentAt : SortedMap Int Nat

abbrev WriterResult := Except WireError (List AddressedDatagram)

abbrev TurnOutcome := Outcome (SendLog × ReaderProxy) WireError (List AddressedDatagram)

namespace SendView

variable (v : SendView)

def noteSent (log : SendLog) (sn : Int) (sentAt : Nat) : SendLog :=
  if v.nackSuppressionDuration = 0 then log else { log with sentAt := log.sentAt.insert sn sentAt }

variable (plan : TickPlan) (p : ReaderProxy)

def openAssembly (out : List AddressedDatagram) : Assembly :=
  ⟨v.openBuilderFor p.remoteReaderGuid p.targets, out⟩

def heartbeatFirst : Int :=
  max (v.cache.minSn.getD 1) (satSucc p.highestAckedSn)

/-- The HEARTBEAT a proxy gets, in the assembly; the count goes up whether or not it
fits. -/
def addHeartbeat (log : SendLog) (a : Assembly) (first : Int) (finalFlag livelinessFlag : Bool)
    (p : ReaderProxy) : Outcome SendLog WireError Assembly :=
  let count := wrapSuccI32 log.heartbeatCount
  ({ log with heartbeatCount := count },
    v.appendHeartbeat a first v.lastWrittenSn count finalFlag livelinessFlag p.remoteReaderGuid
      p.targets)

def heartbeatAlone (log : SendLog) (p : ReaderProxy) (first : Int)
    (finalFlag livelinessFlag : Bool) (out : List AddressedDatagram) :
    Outcome SendLog WireError (List AddressedDatagram) :=
  (v.addHeartbeat log (v.openAssembly p out) first finalFlag livelinessFlag p).andThen
    fun log a => (log, .ok (a.finish p.remoteReaderGuid))

/-! ### Writing a sample -/

def pushTo (sn : Int) (payload : Octets) (log : SendLog) (p : ReaderProxy) : TurnOutcome :=
  if p.highestSentSn + 1 ≠ sn then ((log, p), .ok [])
  else
    let (p, advanced) := p.nextUnsentChange sn
    if advanced ≠ some sn then ((log, p), .ok [])
    else
      match v.buildSampleDatagrams sn payload p.remoteReaderGuid p.targets with
      | .error e => ((log, p), .error e)
      | .ok ds => ((v.noteSent log sn v.clock, p), .ok ds)

/-- One DATA with the HEARTBEAT of a reliable reader behind it, in the same datagram
where the DATA ends aligned. -/
def dataWithHeartbeat (sn : Int) (payload : Octets) (first : Int) (log : SendLog)
    (p : ReaderProxy) : Outcome SendLog WireError (List AddressedDatagram) :=
  match v.appendData (v.openAssembly p []) sn payload p.remoteReaderGuid p.targets with
  | .error e => (log, .error e)
  | .ok a =>
    if p.isReliable then
      if a.builder.len % 4 = 0 then
        (v.addHeartbeat log a first false false p).andThen fun log a =>
          (log, .ok (a.finish p.remoteReaderGuid))
      else v.heartbeatAlone log p first false false (a.finish p.remoteReaderGuid)
    else (log, .ok (a.finish p.remoteReaderGuid))

/-- The change, where it is sent, with a HEARTBEAT for a reliable reader; the
fragments of a large one go in datagrams of their own. -/
def sendWithHeartbeat (sn : Int) (payload : Octets) (sends : Bool) (first : Int) (log : SendLog)
    (p : ReaderProxy) : Outcome SendLog WireError (List AddressedDatagram) :=
  if sends = true ∧ v.needsFragmentation sn p.remoteReaderGuid payload = false then
    v.dataWithHeartbeat sn payload first log p
  else
    let built : WriterResult :=
      if sends then v.buildSampleDatagrams sn payload p.remoteReaderGuid p.targets else .ok []
    match built with
    | .error e => (log, .error e)
    | .ok ds => if p.isReliable then v.heartbeatAlone log p first false false ds else (log, .ok ds)

/-- The turn of a proxy in `write_with_heartbeat_to`.  The cursor moves on by one
also where that is not the new change. -/
def pushWithHeartbeat (sn : Int) (payload : Octets) (now : Nat) (log : SendLog) (p : ReaderProxy) :
    TurnOutcome :=
  let (p, advanced) := if v.pushMode then p.nextUnsentChange sn else (p, none)
  let sent := if p.isReliable then p.heartbeatSent now else p
  let r := v.sendWithHeartbeat sn payload (advanced = some sn) (v.heartbeatFirst p) log sent
  ((r.1, sent), r.2)

/-! ### Draining up to a change -/

/-- Sends a proxy everything it has not been sent up to `sn`, each change in
datagrams of its own. -/
def drainTo (v : SendView) (defaultKey : KeyHash) (sn : Int) :
    Nat → ReaderProxy → ReaderProxy × WriterResult
  | 0, p => (p, .ok [])
  | fuel + 1, p =>
    match p.nextUnsentChange sn with
    | (p, none) => (p, .ok [])
    | (p, some next) =>
      match v.buildChangeDatagrams defaultKey next p.remoteReaderGuid p.targets with
      | .error e => (p, .error e)
      | .ok ds =>
        if next = sn then (p, .ok ds)
        else
          match drainTo v defaultKey sn fuel p with
          | (p, .error e) => (p, .error e)
          | (p, .ok rest) => (p, .ok (ds ++ rest))

/-- The turn of a proxy in `write_lifecycle` and `emit_coherent_set_end`; the cursor
moves at most to `sn`. -/
def drainTurn (defaultKey : KeyHash) (sn : Int) (log : SendLog) (p : ReaderProxy) : TurnOutcome :=
  let r := v.drainTo defaultKey sn (sn - p.highestSentSn).toNat p
  ((log, r.1), r.2)

/-- The smallest fragment asked for and how many neighbours behind it one message
carries along, off the queue. -/
def nextFragmentRun : ReaderProxy × Option (Int × Nat × Nat) :=
  match p.nextRequestedFragment with
  | (p, none) => (p, none)
  | (p, some (sn, frag)) =>
    let fits := v.fragmentsPerMessage sn p.remoteReaderGuid (v.fragmentSizeFor sn)
    let (p, extra) := p.nextRequestedFragmentRunAfter sn frag (fits - 1)
    (p, some (sn, frag, 1 + extra))

/-- The answer to a run of fragments asked for: a DATA_FRAG, or a GAP for a change no
longer held. -/
def buildFragmentRun (sn : Int) (frag count : Nat) (peer : Guid) (targets : List Locator) :
    Except WireError AddressedDatagram :=
  match v.cache.get sn with
  | some change => v.buildDataFragDatagram sn frag count change.payload peer targets
  | none => v.buildGapDatagram sn peer targets

def resendFragments (v : SendView) : Nat → ReaderProxy → ReaderProxy × WriterResult
  | 0, p => (p, .ok [])
  | fuel + 1, p =>
    match v.nextFragmentRun p with
    | (p, none) => (p, .ok [])
    | (p, some (sn, frag, count)) =>
      match v.buildFragmentRun sn frag count p.remoteReaderGuid p.targets with
      | .error e => (p, .error e)
      | .ok d =>
        match resendFragments v fuel p with
        | (p, .error e) => (p, .error e)
        | (p, .ok rest) => (p, .ok (d :: rest))

/-- A turn while its datagram fills: the log, the proxy, the numbers repaired out of
order and whether any was repaired. -/
structure RepairState where
  log : SendLog
  proxy : ReaderProxy
  ahead : List Int
  repairedAny : Bool

def resendChanges (v : SendView) (now : Nat) :
    Nat → RepairState → Assembly → Outcome RepairState WireError Assembly
  | 0, s, a => (s, .ok a)
  | fuel + 1, s, a =>
    match s.proxy.nextRequestedChange with
    | (p, none) => ({ s with proxy := p }, .ok a)
    | (p, some sn) =>
      match v.appendChange a sn p.remoteReaderGuid p.targets with
      | .error e => ({ s with proxy := p }, .error e)
      | .ok a =>
        resendChanges v now fuel
          { log := v.noteSent s.log sn now
            proxy := p.repaired sn
            ahead := if sn = p.highestSentSn + 1 then s.ahead else s.ahead ++ [sn]
            repairedAny := true } a

def pushUnsent (v : SendView) (now : Nat) (cacheMax : Int) (ahead : List Int) :
    Nat → SendLog × ReaderProxy → Assembly → Outcome (SendLog × ReaderProxy) WireError Assembly
  | 0, s, a => (s, .ok a)
  | fuel + 1, (log, p), a =>
    match p.nextUnsentChange cacheMax with
    | (p, none) => ((log, p), .ok a)
    | (p, some sn) =>
      if sn ∈ ahead then pushUnsent v now cacheMax ahead fuel (log, p) a
      else
        match v.appendChange a sn p.remoteReaderGuid p.targets with
        | .error e => ((log, p), .error e)
        | .ok a => pushUnsent v now cacheMax ahead fuel (v.noteSent log sn now, p) a

structure TickPlan where
  now : Nat
  shouldHeartbeat : Bool
  emitHb : Bool
  groupHb : Bool

def hasUnacked : Bool :=
  v.cache.maxSn.any fun last => p.unackedChanges last

def heartbeatDue (chained : Bool) : Bool :=
  let handshakeHb := plan.shouldHeartbeat && v.cache.isEmpty && p.handshakeOwed
  let announcing := plan.emitHb && (p.handshakeOwed || v.hasUnacked p)
  p.isReliable &&
    (announcing || handshakeHb || chained || plan.groupHb ||
      p.heartbeatIsAsked plan.now v.heartbeatPeriod)

def repairChanges (repair : Bool) (log : SendLog) (p : ReaderProxy) (a : Assembly) :
    Outcome RepairState WireError Assembly :=
  if repair then v.resendChanges plan.now p.requestedChanges.size ⟨log, p, [], false⟩ a
  else (⟨log, p, [], false⟩, .ok a)

def pushChanges (s : RepairState) (a : Assembly) : Outcome RepairState WireError Assembly :=
  if s.proxy.isReliable = false ∨ v.pushMode then
    match v.cache.maxSn with
    | none => (s, .ok a)
    | some cacheMax =>
      let r := v.pushUnsent plan.now cacheMax s.ahead (cacheMax - s.proxy.highestSentSn).toNat
        (s.log, s.proxy) a
      ({ s with log := r.1.1, proxy := r.1.2 }, r.2)
  else (s, .ok a)

def sendChanges (repair : Bool) (log : SendLog) (p : ReaderProxy) (a : Assembly) :
    Outcome RepairState WireError Assembly :=
  (v.repairChanges plan repair log p a).andThen fun s a =>
    v.pushChanges plan { s with proxy := s.proxy.repairsSent } a

/-- The HEARTBEAT that ends a proxy's datagram, where one is due; the flag says
whether it was. -/
def endTurn (s : RepairState) (a : Assembly) :
    Outcome (SendLog × ReaderProxy) WireError (List AddressedDatagram × Bool) :=
  let (p, full) := if s.repairedAny then s.proxy.takeFullWindow else (s.proxy, false)
  if v.heartbeatDue plan p (full && v.hasUnacked p) then
    let p := p.heartbeatSent plan.now
    match v.addHeartbeat s.log a (v.heartbeatFirst p) false false p with
    | (log, .error e) => ((log, p), .error e)
    | (log, .ok a) => ((log, p), .ok (a.finish p.remoteReaderGuid, true))
  else ((s.log, p), .ok (a.finish p.remoteReaderGuid, false))

def repairFragments (repair : Bool) (p : ReaderProxy) : ReaderProxy × WriterResult :=
  if repair then v.resendFragments p.pendingRequestedFragmentCount p else (p, .ok [])

/-- The datagrams of a turn behind its fragments: the changes, and the HEARTBEAT where
one is due. -/
def aggregateTurn (repair : Bool) (log : SendLog) (p : ReaderProxy)
    (frags : List AddressedDatagram) :
    Outcome (SendLog × ReaderProxy) WireError (List AddressedDatagram × Bool) :=
  match v.sendChanges plan repair log p (v.openAssembly p frags) with
  | (s, .error e) => ((s.log, s.proxy), .error e)
  | (s, .ok a) => v.endTurn plan s a

/-- The turn of a proxy in `tick`; the flag says whether a HEARTBEAT went out in any
turn so far. -/
def tickTurn (s : SendLog × Bool) (p : ReaderProxy) :
    Outcome ((SendLog × Bool) × ReaderProxy) WireError (List AddressedDatagram) :=
  let (log, emitted) := s
  let (p, repair) := p.repairDue plan.now v.nackResponseDelay
  match v.repairFragments repair p with
  | (p, .error e) => (((log, emitted), p), .error e)
  | (p, .ok frags) =>
    match v.aggregateTurn plan repair log p frags with
    | ((log, p), .error e) => (((log, emitted), p), .error e)
    | ((log, p), .ok (out, hb)) => (((log, emitted || hb), p), .ok out)

def livelinessTurn (log : SendLog) (p : ReaderProxy) : TurnOutcome :=
  let r := v.heartbeatAlone log p (v.heartbeatFirst p) true true []
  ((r.1, p), r.2)

end SendView
end ZeroDds.Rtps
