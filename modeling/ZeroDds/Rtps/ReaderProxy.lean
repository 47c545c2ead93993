/-
The reader proxy.

What a writer keeps about one matched reader.
-/
import ZeroDds.Rtps.HistoryCache

namespace ZeroDds.Rtps

def satSucc (sn : Int) : Int := if sn < i64Max then sn + 1 else sn

structure RemoteReader where
  remoteReaderGuid : Guid
  unicastLocators : List Locator
  multicastLocators : List Locator
  isReliable : Bool
  filter : Option (CacheChange → Bool)
  expectsInlineQos : Bool
  messageLimit : Option Nat

namespace RemoteReader

def targets (r : RemoteReader) : List Locator :=
  if r.multicastLocators.isEmpty then r.unicastLocators else r.multicastLocators

end RemoteReader

inductive Handshake where
  | owed
  | sent
  | done
  deriving DecidableEq

structure ReaderProxy extends RemoteReader where
  highestAckedSn : Int
  highestSentSn : Int
  requestedChanges : SortedSet Int
  requestedFragments : SortedMap Int (SortedSet Nat)
  handshake : Handshake
  heartbeatAt : Option Nat
  nackSince : Option Nat
  windowFull : Bool
  heartbeatAsked : Bool

namespace ReaderProxy

def new (guid : Guid) (unicastLocators multicastLocators : List Locator) (isReliable : Bool) :
    ReaderProxy where
  remoteReaderGuid := guid
  unicastLocators := unicastLocators
  multicastLocators := multicastLocators
  isReliable := isReliable
  filter := none
  expectsInlineQos := false
  messageLimit := none
  highestAckedSn := 0
  highestSentSn := 0
  requestedChanges := SortedMap.empty
  requestedFragments := SortedMap.empty
  handshake := .owed
  heartbeatAt := none
  nackSince := none
  windowFull := false
  heartbeatAsked := false

/-! ### Requests and the time they wait -/

variable (p : ReaderProxy)

def hasRequests : Bool :=
  !p.requestedChanges.isEmpty || !p.requestedFragments.isEmpty

def noteNack (now : Nat) : ReaderProxy :=
  if p.hasRequests then { p with nackSince := some (p.nackSince.getD now) } else p

/-- Whether the repair may go out: a request is open and has waited `delay`, from
the first call that saw it where no NACK time was noted. -/
def repairDue (now delay : Nat) : ReaderProxy × Bool :=
  if p.hasRequests then
    ({ p with nackSince := some (p.nackSince.getD now) }, delay ≤ now - p.nackSince.getD now)
  else ({ p with nackSince := none }, false)

def repairsSent : ReaderProxy :=
  if p.hasRequests then p else { p with nackSince := none }

def noteWindow (full : Bool) : ReaderProxy := { p with windowFull := full }

def takeFullWindow : ReaderProxy × Bool :=
  ({ p with windowFull := false }, p.windowFull)

/-! ### The HEARTBEAT exchange -/

def handshakeOwed : Bool := p.isReliable && p.handshake ≠ .done

def askHeartbeat : ReaderProxy := { p with heartbeatAsked := true }

def heartbeatIsAsked (now spacing : Nat) : Bool :=
  p.heartbeatAsked && p.heartbeatAt.all fun at' => spacing ≤ now - at'

def heartbeatSent (sentAt : Nat) : ReaderProxy :=
  { p with
    heartbeatAsked := false
    heartbeatAt := some sentAt
    handshake := if p.handshake = .owed then .sent else p.handshake }

/-- An ACKNACK closes the handshake once a HEARTBEAT went out; one that comes a
period after the last HEARTBEAT of a writer with nothing written reopens it. -/
def acknackReceived (now : Nat) (writerHasNothing : Bool) (period : Nat) : ReaderProxy :=
  match p.handshake with
  | .sent => { p with handshake := .done }
  | .done =>
    if writerHasNothing ∧ p.heartbeatAt.any fun at' => period ≤ now - at' then
      { p with handshake := .owed }
    else p
  | .owed => p

/-- The reader has acknowledged every number below `base`.  What it acknowledges
it was sent, so the send cursor follows. -/
def ackedChangesSet (base : Int) : ReaderProxy :=
  let acked := max p.highestAckedSn (base - 1)
  { p with
    highestAckedSn := acked
    highestSentSn := max p.highestSentSn acked
    requestedChanges := p.requestedChanges.filter fun sn _ => acked < sn
    requestedFragments := p.requestedFragments.filter fun sn _ => acked < sn }

def requestedChangesSet (sns : List Int) : ReaderProxy :=
  { p with
    requestedChanges :=
      sns.foldl (fun set sn => if 0 < sn then set.insert sn () else set) p.requestedChanges }

def nextRequestedChange : ReaderProxy × Option Int :=
  match p.requestedChanges.minKey? with
  | none => (p, none)
  | some sn => ({ p with requestedChanges := p.requestedChanges.erase sn }, some sn)

def repaired (sn : Int) : ReaderProxy :=
  if sn = p.highestSentSn + 1 then { p with highestSentSn := sn } else p

def nextUnsentChange (cacheMax : Int) : ReaderProxy × Option Int :=
  if p.highestSentSn < cacheMax then
    ({ p with highestSentSn := p.highestSentSn + 1 }, some (p.highestSentSn + 1))
  else (p, none)

def unackedChanges (cacheMax : Int) : Bool := p.highestAckedSn < cacheMax

/-! ### Fragment requests -/

/-- Notes the fragments of a NACK_FRAG; a change already acknowledged is not asked
for, and fragment number 0 names none. -/
def requestedFragmentsSet (sn : Int) (fragments : List Nat) : ReaderProxy :=
  if sn ≤ p.highestAckedSn then p
  else
    let open' := (p.requestedFragments.get? sn).getD SortedMap.empty
    let set := fragments.foldl (fun set f => if f ≠ 0 then set.insert f () else set) open'
    { p with
      requestedFragments :=
        if set.isEmpty then p.requestedFragments.erase sn else p.requestedFragments.insert sn set }

def withoutFragment (sn : Int) (set : SortedSet Nat) (f : Nat) : ReaderProxy :=
  let rest := set.erase f
  { p with
    requestedFragments :=
      if rest.isEmpty then p.requestedFragments.erase sn else p.requestedFragments.insert sn rest }

def nextRequestedFragment : ReaderProxy × Option (Int × Nat) :=
  match p.requestedFragments.first? with
  | none => (p, none)
  | some (sn, set) =>
    match set.minKey? with
    | none => (p, none)
    | some f => (p.withoutFragment sn set f, some (sn, f))

/-- Pulls up to `left` open fragments of `sn` that follow `after` without a gap;
the second component is how many. -/
def nextRequestedFragmentRunAfter (p : ReaderProxy) (sn : Int) (after : Nat) :
    Nat → ReaderProxy × Nat
  | 0 => (p, 0)
  | left + 1 =>
    let next := min (after + 1) u32Max
    match p.requestedFragments.get? sn with
    | none => (p, 0)
    | some set =>
      if set.contains next then
        let (p, more) := (p.withoutFragment sn set next).nextRequestedFragmentRunAfter sn
          (after + 1) left
        (p, more + 1)
      else (p, 0)

def pendingRequestedFragmentCount : Nat :=
  (p.requestedFragments.values.map SortedMap.size).sum

end ReaderProxy
end ZeroDds.Rtps
