/-
The sums of a reader proxy.
-/
import ZeroDds.Rtps.FragmentGeometry
import ZeroDds.Rtps.ReaderRange

namespace ZeroDds.Rtps

open ReaderProxy ReliableReader

namespace ReaderProxy

variable {p : ReaderProxy}

def ackedChangesSetSums (base : Int) : List Int := [base - 1]

def repairedSums (p : ReaderProxy) : List Int := [p.highestSentSn + 1]

def nextUnsentChangeSums (p : ReaderProxy) (cacheMax : Int) : List Int :=
  if p.highestSentSn < cacheMax then [p.highestSentSn + 1] else []

structure InBounds (p : ReaderProxy) : Prop where
  sent : SnRanges.HasSucc p.highestSentSn
  acked : p.highestAckedSn < i64Max
  requested : ∀ n u, p.requestedChanges.get? n = some u → n < i64Max

section

variable (h : p.InBounds)
include h

theorem InBounds.of_same {q : ReaderProxy}
    (hsent : q.highestSentSn = p.highestSentSn) (hacked : q.highestAckedSn = p.highestAckedSn)
    (hrequested : q.requestedChanges = p.requestedChanges) : q.InBounds :=
  ⟨hsent ▸ h.sent, hacked ▸ h.acked, hrequested ▸ h.requested⟩

theorem repaired_bounds {sn : Int} (hsn : sn < i64Max) :
    AllInI64 p.repairedSums ∧ (p.repaired sn).InBounds := by
  refine ⟨by simpa [repairedSums] using h.sent.succ, ?_⟩
  unfold repaired
  split
  · next heq =>
    refine ⟨⟨?_, hsn⟩, h.acked, h.requested⟩
    rw [heq]
    exact h.sent.succ
  · exact h

theorem nextUnsentChange_bounds {cacheMax : Int} (hmax : cacheMax < i64Max) :
    AllInI64 (p.nextUnsentChangeSums cacheMax) ∧ (p.nextUnsentChange cacheMax).1.InBounds := by
  unfold nextUnsentChangeSums nextUnsentChange
  split
  · refine ⟨by simpa using h.sent.succ, ⟨h.sent.succ, ?_⟩, h.acked, h.requested⟩
    simp only
    omega
  · exact ⟨allInI64_nil, h⟩

theorem ackedChangesSet_bounds {base : Int} (hbase : 0 ≤ base ∧ base ≤ i64Max) :
    AllInI64 (ackedChangesSetSums base) ∧ (p.ackedChangesSet base).InBounds := by
  obtain ⟨⟨hlow, hhigh⟩, hlt⟩ := h.sent
  have hacked := h.acked
  refine ⟨?_, ⟨⟨?_, ?_⟩, ?_⟩, ?_, fun n u hn => ?_⟩
  · simpa [ackedChangesSetSums] using inI64_sub hbase.1 hbase.2 (by omega) (by decide)
  all_goals simp only [ackedChangesSet] at *
  · omega
  · omega
  · omega
  · omega
  · rw [SortedMap.get?_filter] at hn
    exact h.requested n u (Option.filter_eq_some_iff.mp hn).1

theorem requestedChangesSet_bounds {sns : List Int}
    (hsns : ∀ n ∈ sns, n < i64Max) : (p.requestedChangesSet sns).InBounds := by
  refine ⟨h.sent, h.acked, ?_⟩
  have hrequested := h.requested
  unfold requestedChangesSet
  generalize p.requestedChanges = set at hrequested
  induction sns generalizing set with
  | nil => exact hrequested
  | cons sn sns ih =>
    obtain ⟨hsn, hrest⟩ := List.forall_mem_cons.mp hsns
    refine ih hrest _ fun n u hn => ?_
    simp only at hn
    split at hn
    · rw [SortedMap.get?_insert] at hn
      split at hn
      · next heq => exact heq ▸ hsn
      · exact hrequested n u hn
    · exact hrequested n u hn

theorem nextRequestedChange_bounds :
    p.nextRequestedChange.1.InBounds ∧ ∀ sn, p.nextRequestedChange.2 = some sn → sn < i64Max := by
  unfold nextRequestedChange
  cases hmin : p.requestedChanges.minKey? with
  | none => exact ⟨h, (fun _ hnone => nomatch hnone)⟩
  | some sn =>
    obtain ⟨⟨u, hget⟩, -⟩ := SortedMap.minKey?_eq_some.mp hmin
    refine ⟨⟨h.sent, h.acked, fun n u' hn => ?_⟩, fun sn' hsn' => ?_⟩
    · rw [SortedMap.get?_erase] at hn
      split at hn
      · cases hn
      · exact h.requested n u' hn
    · obtain rfl := Option.some.inj hsn'
      exact h.requested sn u hget

end

end ReaderProxy

/-! ### The turns of a call -/

namespace SendView

variable {v : SendView}

def CacheInBounds (v : SendView) : Prop := ∀ n c, v.cache.get n = some c → n < i64Max

theorem CacheInBounds.max (h : v.CacheInBounds) {cacheMax : Int}
    (hmax : v.cache.maxSn = some cacheMax) : cacheMax < i64Max := by
  obtain ⟨⟨c, hget⟩, -⟩ := SortedMap.maxKey?_eq_some.mp hmax
  exact h cacheMax c hget

def pushToSums (sn : Int) (p : ReaderProxy) : List Int :=
  if p.highestSentSn + 1 ≠ sn then [] else p.nextUnsentChangeSums sn

def pushWithHeartbeatSums (v : SendView) (sn : Int) (p : ReaderProxy) : List Int :=
  if v.pushMode then p.nextUnsentChangeSums sn else []

def drainToSums (v : SendView) (defaultKey : KeyHash) (sn : Int) : Nat → ReaderProxy → List Int
  | 0, _ => []
  | fuel + 1, p =>
    p.nextUnsentChangeSums sn ++
      match p.nextUnsentChange sn with
      | (_, none) => []
      | (p, some next) =>
        match v.buildChangeDatagrams defaultKey next p.remoteReaderGuid p.targets with
        | .error _ => []
        | .ok _ => if next = sn then [] else drainToSums v defaultKey sn fuel p

def drainTurnSums (v : SendView) (defaultKey : KeyHash) (sn : Int) (p : ReaderProxy) : List Int :=
  v.drainToSums defaultKey sn (sn - p.highestSentSn).toNat p

def resendChangesSums (v : SendView) (now : Nat) : Nat → RepairState → Assembly → List Int
  | 0, _, _ => []
  | fuel + 1, s, a =>
    match s.proxy.nextRequestedChange with
    | (_, none) => []
    | (p, some sn) =>
      match v.appendChange a sn p.remoteReaderGuid p.targets with
      | .error _ => []
      | .ok a =>
        p.repairedSums ++
          resendChangesSums v now fuel
            { log := v.noteSent s.log sn now
              proxy := p.repaired sn
              ahead := if sn = p.highestSentSn + 1 then s.ahead else s.ahead ++ [sn]
              repairedAny := true } a

def pushUnsentSums (v : SendView) (now : Nat) (cacheMax : Int) (ahead : List Int) :
    Nat → SendLog × ReaderProxy → Assembly → List Int
  | 0, _, _ => []
  | fuel + 1, (log, p), a =>
    p.nextUnsentChangeSums cacheMax ++
      match p.nextUnsentChange cacheMax with
      | (_, none) => []
      | (p, some sn) =>
        if sn ∈ ahead then pushUnsentSums v now cacheMax ahead fuel (log, p) a
        else
          match v.appendChange a sn p.remoteReaderGuid p.targets with
          | .error _ => []
          | .ok a => pushUnsentSums v now cacheMax ahead fuel (v.noteSent log sn now, p) a

def repairChangesSums (v : SendView) (plan : TickPlan) (repair : Bool) (log : SendLog)
    (p : ReaderProxy) (a : Assembly) : List Int :=
  if repair then v.resendChangesSums plan.now p.requestedChanges.size ⟨log, p, [], false⟩ a
  else []

def pushChangesSums (v : SendView) (plan : TickPlan) (s : RepairState) (a : Assembly) :
    List Int :=
  if s.proxy.isReliable = false ∨ v.pushMode then
    match v.cache.maxSn with
    | none => []
    | some cacheMax =>
      v.pushUnsentSums plan.now cacheMax s.ahead (cacheMax - s.proxy.highestSentSn).toNat
        (s.log, s.proxy) a
  else []

def sendChangesSums (v : SendView) (plan : TickPlan) (repair : Bool) (log : SendLog)
    (p : ReaderProxy) (a : Assembly) : List Int :=
  v.repairChangesSums plan repair log p a ++
    match v.repairChanges plan repair log p a with
    | (_, .error _) => []
    | (s, .ok a) => v.pushChangesSums plan { s with proxy := s.proxy.repairsSent } a

def tickTurnSums (v : SendView) (plan : TickPlan) (s : SendLog × Bool) (p : ReaderProxy) :
    List Int :=
  let (p, repair) := p.repairDue plan.now v.nackResponseDelay
  match v.repairFragments repair p with
  | (_, .error _) => []
  | (p, .ok frags) => v.sendChangesSums plan repair s.1 p (v.openAssembly p frags)

variable {sn : Int} {p : ReaderProxy} {s : RepairState}

theorem pushTo_bounds (hsn : sn < i64Max) (payload : Octets) (log : SendLog) (h : p.InBounds) :
    AllInI64 (pushToSums sn p) ∧ (v.pushTo sn payload log p).1.2.InBounds := by
  obtain ⟨hsums, hp⟩ := nextUnsentChange_bounds h hsn
  unfold pushToSums pushTo
  split
  · exact ⟨allInI64_nil, h⟩
  · refine ⟨hsums, ?_⟩
    simp only
    split
    · exact hp
    · split <;> exact hp

theorem inBounds_heartbeatSent (h : p.InBounds) (now : Nat) :
    (p.heartbeatSent now).InBounds := h.of_same rfl rfl rfl

theorem pushWithHeartbeat_bounds (hsn : sn < i64Max) (payload : Octets) (now : Nat)
    (log : SendLog) (h : p.InBounds) :
    AllInI64 (v.pushWithHeartbeatSums sn p) ∧
      (v.pushWithHeartbeat sn payload now log p).1.2.InBounds := by
  obtain ⟨hsums, hp⟩ := nextUnsentChange_bounds h hsn
  unfold pushWithHeartbeatSums pushWithHeartbeat
  simp only
  split
  · refine ⟨hsums, ?_⟩
    split
    · exact inBounds_heartbeatSent hp now
    · exact hp
  · refine ⟨allInI64_nil, ?_⟩
    split
    · exact inBounds_heartbeatSent h now
    · exact h

theorem drainTo_bounds (defaultKey : KeyHash) (hsn : sn < i64Max) (fuel : Nat) (h : p.InBounds) :
    AllInI64 (v.drainToSums defaultKey sn fuel p) ∧
      (v.drainTo defaultKey sn fuel p).1.InBounds := by
  induction fuel generalizing p with
  | zero => exact ⟨allInI64_nil, h⟩
  | succ fuel ih =>
    obtain ⟨hsums, hp⟩ := nextUnsentChange_bounds h hsn
    simp only [drainToSums, drainTo, allInI64_append]
    rcases hnext : p.nextUnsentChange sn with ⟨q, _ | next⟩ <;> rw [hnext] at hp
    · exact ⟨⟨hsums, allInI64_nil⟩, hp⟩
    · simp only
      cases v.buildChangeDatagrams defaultKey next q.remoteReaderGuid q.targets with
      | error e => exact ⟨⟨hsums, allInI64_nil⟩, hp⟩
      | ok ds =>
        simp only
        split
        · exact ⟨⟨hsums, allInI64_nil⟩, hp⟩
        · obtain ⟨hrest, hdone⟩ := ih hp
          refine ⟨⟨hsums, hrest⟩, ?_⟩
          rcases hdrain : v.drainTo defaultKey sn fuel q with ⟨q', e | rest⟩ <;>
            rw [hdrain] at hdone <;> exact hdone

theorem resendChanges_bounds (now fuel : Nat) (h : s.proxy.InBounds) (a : Assembly) :
    AllInI64 (v.resendChangesSums now fuel s a) ∧
      (v.resendChanges now fuel s a).1.proxy.InBounds := by
  induction fuel generalizing s a with
  | zero => exact ⟨allInI64_nil, h⟩
  | succ fuel ih =>
    obtain ⟨hp, hsn⟩ := nextRequestedChange_bounds h
    simp only [resendChangesSums, resendChanges]
    rcases hnext : s.proxy.nextRequestedChange with ⟨p, _ | sn⟩ <;> rw [hnext] at hp hsn
    · exact ⟨allInI64_nil, hp⟩
    · simp only
      cases v.appendChange a sn p.remoteReaderGuid p.targets with
      | error e => exact ⟨allInI64_nil, hp⟩
      | ok a =>
        obtain ⟨hsums, hrepaired⟩ := repaired_bounds hp (hsn sn rfl)
        obtain ⟨hrest, hdone⟩ := ih (s := ⟨v.noteSent s.log sn now, p.repaired sn,
          if sn = p.highestSentSn + 1 then s.ahead else s.ahead ++ [sn], true⟩) hrepaired a
        exact ⟨allInI64_append.mpr ⟨hsums, hrest⟩, hdone⟩

theorem pushUnsent_bounds (now : Nat) {cacheMax : Int} (hmax : cacheMax < i64Max)
    (ahead : List Int) (fuel : Nat) (log : SendLog) (h : p.InBounds) (a : Assembly) :
    AllInI64 (v.pushUnsentSums now cacheMax ahead fuel (log, p) a) ∧
      (v.pushUnsent now cacheMax ahead fuel (log, p) a).1.2.InBounds := by
  induction fuel generalizing log p a with
  | zero => exact ⟨allInI64_nil, h⟩
  | succ fuel ih =>
    obtain ⟨hsums, hp⟩ := nextUnsentChange_bounds h hmax
    simp only [pushUnsentSums, pushUnsent, allInI64_append]
    rcases hnext : p.nextUnsentChange cacheMax with ⟨q, _ | sn⟩ <;> rw [hnext] at hp
    · exact ⟨⟨hsums, allInI64_nil⟩, hp⟩
    · simp only
      split
      · obtain ⟨hrest, hdone⟩ := ih log hp a
        exact ⟨⟨hsums, hrest⟩, hdone⟩
      · cases v.appendChange a sn q.remoteReaderGuid q.targets with
        | error e => exact ⟨⟨hsums, allInI64_nil⟩, hp⟩
        | ok a =>
          obtain ⟨hrest, hdone⟩ := ih (v.noteSent log sn now) hp a
          exact ⟨⟨hsums, hrest⟩, hdone⟩

theorem repairChanges_bounds (plan : TickPlan) (repair : Bool) (log : SendLog) (h : p.InBounds)
    (a : Assembly) :
    AllInI64 (v.repairChangesSums plan repair log p a) ∧
      (v.repairChanges plan repair log p a).1.proxy.InBounds := by
  unfold repairChangesSums repairChanges
  split
  · exact resendChanges_bounds plan.now _ (s := ⟨log, p, [], false⟩) h a
  · exact ⟨allInI64_nil, h⟩

theorem pushChanges_bounds (hv : v.CacheInBounds) (plan : TickPlan) (h : s.proxy.InBounds)
    (a : Assembly) :
    AllInI64 (v.pushChangesSums plan s a) ∧ (v.pushChanges plan s a).1.proxy.InBounds := by
  unfold pushChangesSums pushChanges
  split
  · cases hmax : v.cache.maxSn with
    | none => exact ⟨allInI64_nil, h⟩
    | some cacheMax => exact pushUnsent_bounds plan.now (hv.max hmax) s.ahead _ s.log h a
  · exact ⟨allInI64_nil, h⟩

theorem inBounds_repairsSent (h : p.InBounds) : p.repairsSent.InBounds := by
  unfold ReaderProxy.repairsSent
  split
  · exact h
  · exact h.of_same rfl rfl rfl

theorem sendChanges_bounds (hv : v.CacheInBounds) (plan : TickPlan) (repair : Bool)
    (log : SendLog) (h : p.InBounds) (a : Assembly) :
    AllInI64 (v.sendChangesSums plan repair log p a) ∧
      (v.sendChanges plan repair log p a).1.proxy.InBounds := by
  obtain ⟨hsums, hs⟩ := repairChanges_bounds (v := v) plan repair log h a
  unfold sendChangesSums sendChanges
  rcases hrepair : v.repairChanges plan repair log p a with ⟨s, e | a'⟩ <;> rw [hrepair] at hs
  · exact ⟨allInI64_append.mpr ⟨hsums, allInI64_nil⟩, hs⟩
  · obtain ⟨hpush, hdone⟩ := pushChanges_bounds hv plan
      (s := { s with proxy := s.proxy.repairsSent }) (inBounds_repairsSent hs) a'
    exact ⟨allInI64_append.mpr ⟨hsums, hpush⟩, hdone⟩

theorem endTurn_bounds (plan : TickPlan) (h : s.proxy.InBounds) (a : Assembly) :
    (v.endTurn plan s a).1.2.InBounds := by
  have htaken :
      (if s.repairedAny then s.proxy.takeFullWindow else (s.proxy, false)).1.InBounds := by
    split
    · exact h.of_same rfl rfl rfl
    · exact h
  unfold endTurn
  generalize (if s.repairedAny then s.proxy.takeFullWindow else (s.proxy, false)) = taken
    at htaken ⊢
  simp only
  split
  · have hsent := inBounds_heartbeatSent htaken plan.now
    split <;> exact hsent
  · exact htaken

theorem repairFragments_same (repair : Bool) (p : ReaderProxy) :
    p.SameButFragments (v.repairFragments repair p).1 := by
  unfold repairFragments
  split
  · exact (resendFragments_spec _ p).2.1
  · exact .refl p

theorem inBounds_of_sameButFragments {q : ReaderProxy} (h : p.SameButFragments q)
    (hp : p.InBounds) : q.InBounds := by
  rw [h]
  exact hp.of_same rfl rfl rfl

theorem tickTurn_bounds (hv : v.CacheInBounds) (plan : TickPlan) (s : SendLog × Bool)
    (h : p.InBounds) : AllInI64 (v.tickTurnSums plan s p) ∧ (v.tickTurn plan s p).1.2.InBounds := by
  have hdue : (p.repairDue plan.now v.nackResponseDelay).1.InBounds := by
    unfold ReaderProxy.repairDue
    split <;> exact h.of_same rfl rfl rfl
  rcases hq : p.repairDue plan.now v.nackResponseDelay with ⟨q, repair⟩
  rw [hq] at hdue
  have hfragged := inBounds_of_sameButFragments (repairFragments_same (v := v) repair q) hdue
  simp only [tickTurnSums, tickTurn, hq]
  rcases hfrags : v.repairFragments repair q with ⟨q', e | frags⟩ <;> rw [hfrags] at hfragged
  · exact ⟨allInI64_nil, hfragged⟩
  · obtain ⟨hsums, hsend⟩ :=
      sendChanges_bounds hv plan repair s.1 hfragged (v.openAssembly q' frags)
    refine ⟨hsums, ?_⟩
    simp only [aggregateTurn]
    rcases hsent : v.sendChanges plan repair s.1 q' (v.openAssembly q' frags) with ⟨s', e | a⟩ <;>
      rw [hsent] at hsend
    · exact hsend
    · have hend := endTurn_bounds (v := v) plan hsend a
      rcases hturn : v.endTurn plan s' a with ⟨⟨log, q''⟩, e | ⟨out, hb⟩⟩ <;>
        rw [hturn] at hend <;> simp only [hturn] <;> exact hend

end SendView

/-! ### The calls on a writer -/

/-- The ranges the decoder of an ACKNACK leaves its numbers in; an empty set may start
at 0. -/
def WriterCall.Decoded : WriterCall → Prop
  | .op (.acknack _ base _) => 0 ≤ base ∧ base ≤ i64Max
  | .op (.acknackAt _ _ base _) => 0 ≤ base ∧ base ≤ i64Max
  | .op (.acknackSetAt _ _ set) =>
    (1 ≤ set.bitmapBase ∨ (set.bitmapBase = 0 ∧ set.numBits = 0)) ∧ set.bitmapBase ≤ i64Max ∧
      set.numBits ≤ rtpsBitmapMaxBits
  | _ => True

namespace ReliableWriter

variable {w : ReliableWriter}

def forProxiesSums (w : ReliableWriter) (turn : SendView → SendLog → ReaderProxy → TurnOutcome)
    (sums : SendView → ReaderProxy → List Int) : List Int :=
  Outcome.traverseNotes (turn w.view) (fun _ p => sums w.view p) w.sendLog w.readerProxies

def writeStagedSums (w : ReliableWriter) (x : SampleWrite) : List Int :=
  match w.stageSample x with
  | (_, .error _) => []
  | (w, .ok sn) =>
    if w.pushMode then w.forProxiesSums (·.pushTo sn x.payload) fun _ p => SendView.pushToSums sn p
    else []

def writeWithHeartbeatToSums (w : ReliableWriter) (payload : Octets) (now : Nat)
    (ts : Option HeTimestamp) (destination : Option GuidPrefix) : List Int :=
  match w.stageSample ⟨payload, ts, none, none, false, destination⟩ with
  | (_, .error _) => []
  | (w, .ok sn) =>
    w.forProxiesSums (·.pushWithHeartbeat sn payload now) (·.pushWithHeartbeatSums sn)

def writeLifecycleSums (w : ReliableWriter) (x : LifecycleWrite) : List Int :=
  match w.stageLifecycle x with
  | (_, .error _) => []
  | (w, .ok sn) => w.forProxiesSums (·.drainTurn x.keyHash sn) (·.drainTurnSums x.keyHash sn)

def emitCoherentSetEndSums (w : ReliableWriter) (change : CacheChange) : List Int :=
  match w.cache.insert change with
  | (_, .error _) => []
  | (cache, .ok _) =>
    { w with cache := cache }.forProxiesSums (·.drainTurn zeroKeyHash change.sequenceNumber)
      (·.drainTurnSums zeroKeyHash change.sequenceNumber)

def endCoherentSetSums (w : ReliableWriter) : List Int :=
  if w.coherentSetSn.isNone then []
  else
    match { w with coherentSetArmed := false, coherentSetSn := none }.nextChangeSn with
    | (_, .error _) => []
    | (w, .ok sn) => w.emitCoherentSetEndSums (CacheChange.setEnd sn)

def endGroupCoherentSetSums (w : ReliableWriter) (e : GroupSetEnd) : List Int :=
  match { w with coherentSetArmed := false, coherentSetSn := none }.nextChangeSn with
  | (_, .error _) => []
  | (w', .ok sn) =>
    { w' with lastGsn := some e.ecsGsn }.emitCoherentSetEndSums
      (CacheChange.groupSetEnd sn w.coherentSetSn e)

def tickSums (w : ReliableWriter) (now : Nat) : List Int :=
  Outcome.traverseNotes ((w.tickView now).tickTurn (w.tickPlan now))
    ((w.tickView now).tickTurnSums (w.tickPlan now)) ((w.tickStart now).sendLog, false)
    w.readerProxies

def handleAcknackWindowSums (w : ReliableWriter) (src : Guid) (base : Int) : List Int :=
  match w.proxyIndex src with
  | none => []
  | some _ => ReaderProxy.ackedChangesSetSums base

/-- Every sum on sequence numbers a call performs in a reader proxy or on the set of an
ACKNACK. -/
def callSums (w : ReliableWriter) : WriterCall → List Int
  | .op (.write x) => w.writeStagedSums x
  | .op (.writeWithHeartbeat payload now ts destination) =>
    w.writeWithHeartbeatToSums payload now ts destination
  | .op (.writeLifecycle x) => w.writeLifecycleSums x
  | .op .endCoherentSet => w.endCoherentSetSums
  | .op (.endGroupCoherentSet e) => w.endGroupCoherentSetSums e
  | .op (.tick now) => w.tickSums now
  | .op (.acknack src base _) => w.handleAcknackWindowSums src base
  | .op (.acknackAt _ src base _) => w.handleAcknackWindowSums src base
  | .op (.acknackSetAt _ src set) => set.iterSet ++ w.handleAcknackWindowSums src set.bitmapBase
  | _ => []

/-- The writer has numbers left to give out after the next one, and no ACKNACK asks for
`i64Max`; a proxy that is added has its cursor below it. -/
def BelowMax (w : ReliableWriter) (c : WriterCall) : Prop :=
  w.nextSn + 1 < i64Max ∧
    match c with
    | .op (.acknack _ _ requested) => ∀ n ∈ requested, n < i64Max
    | .op (.acknackAt _ _ _ requested) => ∀ n ∈ requested, n < i64Max
    | .op (.acknackSetAt _ _ set) => ∀ n ∈ set.iterSet, n < i64Max
    | .op (.addReaderProxy p) => p.InBounds
    | _ => True

structure InBounds (w : ReliableWriter) : Prop where
  proxies : ∀ p ∈ w.readerProxies, p.InBounds
  cache : ∀ n c, w.cache.get n = some c → n ≤ w.nextSn

theorem forProxies_bounds (turn : SendView → SendLog → ReaderProxy → TurnOutcome)
    (sums : SendView → ReaderProxy → List Int) (h : ∀ p ∈ w.readerProxies, p.InBounds)
    (hturn : ∀ log p, p.InBounds → AllInI64 (sums w.view p) ∧ (turn w.view log p).1.2.InBounds) :
    AllInI64 (w.forProxiesSums turn sums) ∧ ∀ p ∈ (w.forProxies turn).1.readerProxies, p.InBounds :=
  Outcome.traverse_keeps_items (fun log p hp => hturn log p hp) w.sendLog h

variable {p : ReaderProxy}

theorem drainTurn_bounds {v : SendView} (key : KeyHash) {sn : Int} (hsn : sn < i64Max)
    (log : SendLog) (h : p.InBounds) :
    AllInI64 (v.drainTurnSums key sn p) ∧ (v.drainTurn key sn log p).1.2.InBounds :=
  SendView.drainTo_bounds key hsn _ h

theorem readerProxies_stageSample (w : ReliableWriter) (x : SampleWrite) :
    (w.stageSample x).1.readerProxies = w.readerProxies := by
  unfold stageSample
  rcases nextChangeSn_cases { w with nextDestinationReaders := none } with hsn | hsn <;> rw [hsn]
  · have hstaged := staged_readerProxies { w with nextDestinationReaders := none } (w.nextSn + 1)
    simp only [Outcome.andThen_ok]
    split
    · exact hstaged
    · split <;> exact hstaged
  · rfl

theorem readerProxies_stageLifecycle (w : ReliableWriter) (x : LifecycleWrite) :
    (w.stageLifecycle x).1.readerProxies = w.readerProxies := by
  unfold stageLifecycle
  rcases nextChangeSn_cases w with hsn | hsn <;> rw [hsn]
  · have hstaged := staged_readerProxies w (w.nextSn + 1)
    simp only [Outcome.andThen_ok]
    split
    · rfl
    · split <;> exact hstaged
  · rfl

theorem writeStaged_bounds (h : w.InBounds) (hsn : w.nextSn + 1 < i64Max) (x : SampleWrite) :
    AllInI64 (w.writeStagedSums x) ∧ ∀ p ∈ (w.writeStaged x).1.readerProxies, p.InBounds := by
  have hproxies : ∀ p ∈ (w.stageSample x).1.readerProxies, p.InBounds :=
    readerProxies_stageSample w x ▸ h.proxies
  unfold writeStagedSums writeStaged
  rcases hres : w.stageSample x with ⟨w', e | sn⟩ <;> rw [hres] at hproxies
  · exact ⟨allInI64_nil, hproxies⟩
  · obtain ⟨rfl, -⟩ := stageSample_ok hres
    rw [Outcome.andThen_ok]
    simp only
    split
    · exact forProxies_bounds _ _ hproxies fun log p hp =>
        SendView.pushTo_bounds hsn x.payload log hp
    · exact ⟨allInI64_nil, hproxies⟩

theorem writeWithHeartbeatTo_bounds (h : w.InBounds) (hsn : w.nextSn + 1 < i64Max)
    (payload : Octets) (now : Nat) (ts : Option HeTimestamp) (destination : Option GuidPrefix) :
    AllInI64 (w.writeWithHeartbeatToSums payload now ts destination) ∧
      ∀ p ∈ (w.writeWithHeartbeatTo payload now ts destination).1.readerProxies, p.InBounds := by
  have hproxies : ∀ p ∈ (w.stageSample
      ⟨payload, ts, none, none, false, destination⟩).1.readerProxies, p.InBounds :=
    readerProxies_stageSample w _ ▸ h.proxies
  unfold writeWithHeartbeatToSums writeWithHeartbeatTo
  rcases hres : w.stageSample ⟨payload, ts, none, none, false, destination⟩ with ⟨w', e | sn⟩ <;>
    rw [hres] at hproxies
  · exact ⟨allInI64_nil, hproxies⟩
  · obtain ⟨rfl, -⟩ := stageSample_ok hres
    obtain ⟨hsums, hturns⟩ := forProxies_bounds (·.pushWithHeartbeat (w.nextSn + 1) payload now)
      (·.pushWithHeartbeatSums (w.nextSn + 1)) hproxies fun log p hp =>
        SendView.pushWithHeartbeat_bounds hsn payload now log hp
    refine ⟨hsums, ?_⟩
    rw [Outcome.andThen_ok]
    rcases hout : w'.forProxies (·.pushWithHeartbeat (w.nextSn + 1) payload now) with
      ⟨w'', e | out⟩ <;> rw [hout] at hturns <;> exact hturns

theorem writeLifecycle_bounds (h : w.InBounds) (hsn : w.nextSn + 1 < i64Max) (x : LifecycleWrite) :
    AllInI64 (w.writeLifecycleSums x) ∧ ∀ p ∈ (w.writeLifecycle x).1.readerProxies, p.InBounds := by
  have hproxies : ∀ p ∈ (w.stageLifecycle x).1.readerProxies, p.InBounds :=
    readerProxies_stageLifecycle w x ▸ h.proxies
  unfold writeLifecycleSums writeLifecycle
  rcases hres : w.stageLifecycle x with ⟨w', e | sn⟩ <;> rw [hres] at hproxies
  · exact ⟨allInI64_nil, hproxies⟩
  · obtain ⟨rfl, -⟩ := stageLifecycle_ok hres
    exact forProxies_bounds _ _ hproxies fun log p hp => drainTurn_bounds x.keyHash hsn log hp

theorem emitCoherentSetEnd_bounds (change : CacheChange) (h : ∀ p ∈ w.readerProxies, p.InBounds)
    (hsn : change.sequenceNumber < i64Max) :
    AllInI64 (w.emitCoherentSetEndSums change) ∧
      ∀ p ∈ (w.emitCoherentSetEnd change).1.readerProxies, p.InBounds := by
  unfold emitCoherentSetEndSums emitCoherentSetEnd
  rcases w.cache.insert change with ⟨cache, e | evicted⟩
  · exact ⟨allInI64_nil, h⟩
  · exact forProxies_bounds (w := { w with cache := cache }) _ _ h fun log p hp =>
      drainTurn_bounds zeroKeyHash hsn log hp

theorem endCoherentSet_bounds (h : w.InBounds) (hsn : w.nextSn + 1 < i64Max) :
    AllInI64 w.endCoherentSetSums ∧ ∀ p ∈ w.endCoherentSet.1.readerProxies, p.InBounds := by
  unfold endCoherentSetSums endCoherentSet
  simp only
  split
  · exact ⟨allInI64_nil, h.proxies⟩
  · rcases nextChangeSn_cases { w with coherentSetArmed := false, coherentSetSn := none } with
      hnext | hnext <;> rw [hnext]
    · exact emitCoherentSetEnd_bounds (.setEnd (w.nextSn + 1)) h.proxies hsn
    · exact ⟨allInI64_nil, h.proxies⟩

theorem endGroupCoherentSet_bounds (h : w.InBounds) (hsn : w.nextSn + 1 < i64Max)
    (e : GroupSetEnd) :
    AllInI64 (w.endGroupCoherentSetSums e) ∧
      ∀ p ∈ (w.endGroupCoherentSet e).1.readerProxies, p.InBounds := by
  unfold endGroupCoherentSetSums endGroupCoherentSet
  rcases nextChangeSn_cases { w with coherentSetArmed := false, coherentSetSn := none } with
    hnext | hnext <;> simp only [hnext]
  · exact emitCoherentSetEnd_bounds (.groupSetEnd (w.nextSn + 1) w.coherentSetSn e) h.proxies hsn
  · exact ⟨allInI64_nil, h.proxies⟩

theorem tick_bounds (h : w.InBounds) (hsn : w.nextSn < i64Max) (now : Nat) :
    AllInI64 (w.tickSums now) ∧ ∀ p ∈ (w.tick now).1.readerProxies, p.InBounds := by
  have hcache : (w.tickView now).CacheInBounds := fun n c hget => by
    have := h.cache n c hget
    omega
  rw [(w.tick_result now).2]
  exact Outcome.traverse_keeps_items
    (fun s p hp => SendView.tickTurn_bounds hcache (w.tickPlan now) s hp) _ h.proxies

theorem acknackProxy_bounds (w : ReliableWriter) (now : Nat) {base : Int}
    (hbase : 0 ≤ base ∧ base ≤ i64Max) (h : p.InBounds) : (w.acknackProxy now base p).InBounds := by
  refine (ackedChangesSet_bounds ?_ hbase).2
  unfold ReaderProxy.acknackReceived
  split
  · exact h.of_same rfl rfl rfl
  · split
    · exact h.of_same rfl rfl rfl
    · exact h
  · exact h

theorem requestProxy_bounds (hcache : ∀ n c, w.cache.get n = some c → n < i64Max) (now : Nat)
    (base : Int) {requested : List Int} (hrequested : ∀ n ∈ requested, n < i64Max)
    (windowCut : Bool) (h : p.InBounds) :
    (w.requestProxy now base requested windowCut p).InBounds := by
  have hasked : (p.requestedChangesSet
      (requested.filter fun sn => base ≤ sn && !w.tooSoon sn now)).InBounds :=
    requestedChangesSet_bounds h fun n hn => hrequested n (List.mem_of_mem_filter hn)
  have htail : ∀ q : ReaderProxy, ∀ n ∈ w.unackedTail now q, n < i64Max := by
    intro q n hn
    unfold unackedTail at hn
    split at hn
    · cases hn
    · next max hmax =>
      obtain ⟨⟨c, hget⟩, -⟩ := SortedMap.maxKey?_eq_some.mp hmax
      have hlt := hcache max c hget
      split at hn
      · have := Int.mem_range_iff.mp (List.mem_of_mem_filter hn)
        omega
      · cases hn
  have hnoted : ∀ q : ReaderProxy, q.InBounds → (q.noteNack now).InBounds := by
    intro q hq
    unfold ReaderProxy.noteNack
    split
    · exact hq.of_same rfl rfl rfl
    · exact hq
  unfold requestProxy
  split
  · exact (hnoted _ (requestedChangesSet_bounds hasked (htail _))).of_same rfl rfl rfl
  · exact (hnoted _ hasked).of_same rfl rfl rfl

@[simp] theorem cache_releaseAcknowledgedWindow (w : ReliableWriter) :
    w.releaseAcknowledgedWindow.cache = w.cache := by
  unfold releaseAcknowledgedWindow
  split <;> rfl

section

variable (h : w.InBounds)
include h

theorem handleAcknackWindow_bounds (hsn : w.nextSn < i64Max) (now : Nat)
    (src : Guid) {base : Int} (hbase : 0 ≤ base ∧ base ≤ i64Max) {requested : List Int}
    (hrequested : ∀ n ∈ requested, n < i64Max) (windowCut : Bool) :
    AllInI64 (w.handleAcknackWindowSums src base) ∧
      ∀ p ∈ (w.handleAcknackWindow now src base requested windowCut).readerProxies,
        p.InBounds := by
  have hindex : { w with clock := max w.clock now }.proxyIndex src = w.proxyIndex src := rfl
  unfold handleAcknackWindowSums handleAcknackWindow
  simp only [hindex]
  cases w.proxyIndex src with
  | none => exact ⟨allInI64_nil, h.proxies⟩
  | some idx =>
    refine ⟨?_, ?_⟩
    · simpa [ReaderProxy.ackedChangesSetSums] using
        inI64_sub hbase.1 hbase.2 (by omega) (by decide)
    · have hacked := forall_mem_modify h.proxies idx fun p hp =>
        acknackProxy_bounds { w with clock := max w.clock now } now hbase hp
      refine forall_mem_modify ?_ idx fun p hp =>
        requestProxy_bounds (fun n c hget => ?_) now base hrequested windowCut hp
      · rw [readerProxies_releaseAcknowledgedWindow]
        exact hacked
      · rw [cache_releaseAcknowledgedWindow] at hget
        have hle := h.cache n c hget
        omega

theorem livelinessHeartbeat_bounds :
    ∀ p ∈ w.livelinessHeartbeat.1.readerProxies, p.InBounds :=
  (forProxies_bounds SendView.livelinessTurn (fun _ _ => []) h.proxies
    fun _ _ hp => ⟨allInI64_nil, hp⟩).2

theorem handleNackfrag_bounds (src : Guid) (nf : NackFragSubmessage) :
    ∀ p ∈ (w.handleNackfrag src nf).readerProxies, p.InBounds := by
  unfold handleNackfrag
  split
  · exact h.proxies
  · split
    · exact h.proxies
    · refine forall_mem_modify h.proxies _ fun p hp => ?_
      unfold ReaderProxy.requestedFragmentsSet
      split
      · exact hp
      · exact hp.of_same rfl rfl rfl

theorem noteAcknackFinalFlag_bounds (src : Guid) (finalFlag : Bool) :
    ∀ p ∈ (w.noteAcknackFinalFlag src finalFlag).readerProxies, p.InBounds := by
  unfold noteAcknackFinalFlag
  split
  · exact h.proxies
  · split
    · exact h.proxies
    · exact forall_mem_modify h.proxies _ fun p hp => hp.of_same rfl rfl rfl

theorem addReaderProxy_bounds (hp : p.InBounds) :
    ∀ q ∈ (w.addReaderProxy p).readerProxies, q.InBounds := by
  unfold addReaderProxy
  split
  · exact forall_mem_set h.proxies _ hp
  · exact List.forall_mem_append.mpr ⟨h.proxies, List.forall_mem_singleton.mpr hp⟩

theorem removeReaderProxy_bounds (guid : Guid) :
    ∀ q ∈ (w.removeReaderProxy guid).readerProxies, q.InBounds := by
  unfold removeReaderProxy
  split
  · exact h.proxies
  · rw [readerProxies_releaseAcknowledgedWindow]
    exact fun q hq => h.proxies q (List.mem_of_mem_eraseIdx hq)

theorem step_proxies_bounds {op : WriterOp}
    (hdecoded : WriterCall.Decoded (.op op)) (hbelow : w.BelowMax (.op op)) :
    AllInI64 (w.callSums (.op op)) ∧ ∀ p ∈ (w.step op).1.readerProxies, p.InBounds := by
  obtain ⟨hsn, hnamed⟩ := hbelow
  have hlt : w.nextSn < i64Max := by omega
  cases op with
  | write x => exact writeStaged_bounds h hsn x
  | writeWithHeartbeat payload now ts destination =>
    exact writeWithHeartbeatTo_bounds h hsn payload now ts destination
  | writeLifecycle x => exact writeLifecycle_bounds h hsn x
  | endCoherentSet => exact endCoherentSet_bounds h hsn
  | endGroupCoherentSet e => exact endGroupCoherentSet_bounds h hsn e
  | tick now => exact tick_bounds h hlt now
  | livelinessHeartbeat => exact ⟨allInI64_nil, livelinessHeartbeat_bounds h⟩
  | acknack src base requested =>
    exact handleAcknackWindow_bounds h hlt _ src hdecoded hnamed false
  | acknackAt now src base requested =>
    exact handleAcknackWindow_bounds h hlt now src hdecoded hnamed false
  | acknackSetAt now src set =>
    obtain ⟨hbase, hmax, -⟩ := hdecoded
    have hlow : 0 ≤ set.bitmapBase := by omega
    obtain ⟨hsums, hproxies⟩ := handleAcknackWindow_bounds h hlt now src ⟨hlow, hmax⟩ hnamed
      (rtpsBitmapMaxBits ≤ set.numBits)
    refine ⟨allInI64_append.mpr ⟨fun n hn => ?_, hsums⟩, hproxies⟩
    have hbase := base_le_of_mem_iterSet hn
    have hn := hnamed n hn
    unfold InI64
    omega
  | acknackFinalFlag src finalFlag =>
    exact ⟨allInI64_nil, noteAcknackFinalFlag_bounds h src finalFlag⟩
  | nackfrag src nf => exact ⟨allInI64_nil, handleNackfrag_bounds h src nf⟩
  | addReaderProxy p => exact ⟨allInI64_nil, addReaderProxy_bounds h hnamed⟩
  | removeReaderProxy guid => exact ⟨allInI64_nil, removeReaderProxy_bounds h guid⟩
  | removeAcknowledged =>
    exact ⟨allInI64_nil, (readerProxies_removeAcknowledged w).symm ▸ h.proxies⟩
  | removeAcknowledgedLifecycle =>
    exact ⟨allInI64_nil, (readerProxies_removeAcknowledgedLifecycle w).symm ▸ h.proxies⟩
  | setUnackedWindow octets =>
    refine ⟨allInI64_nil, ?_⟩
    simp only [step, setUnackedWindow]
    split <;> exact h.proxies
  | askForAck =>
    refine ⟨allInI64_nil, ?_⟩
    simp only [step, askForAck]
    split <;> exact h.proxies
  | _ => exact ⟨allInI64_nil, h.proxies⟩

theorem call_bounds {c : WriterCall} (hdecoded : c.Decoded)
    (hbelow : w.BelowMax c) : AllInI64 (w.callSums c) ∧ (w.call c).1.InBounds := by
  by_cases hqos : ∃ qos, c = .setInlineWriterQos qos
  · obtain ⟨qos, rfl⟩ := hqos
    exact ⟨allInI64_nil, h.proxies, h.cache⟩
  · have hmoves := call_moves w fun qos hc => hqos ⟨qos, hc⟩
    have hcache : ∀ n ch, (w.call c).1.cache.get n = some ch → n ≤ (w.call c).1.nextSn := by
      intro n ch hget
      have hle := hmoves.nextSn_le
      rcases hmoves.held n ch hget with hold | hnew
      · have := h.cache n ch hold
        omega
      · exact hnew.2
    cases c with
    | op op =>
      obtain ⟨hsums, hproxies⟩ := step_proxies_bounds h hdecoded hbelow
      exact ⟨hsums, hproxies, hcache⟩
    | refreshReaderProxyLocators guid unicast multicast =>
      refine ⟨allInI64_nil, ?_, hcache⟩
      simp only [call, refreshReaderProxyLocators]
      split
      · exact h.proxies
      · exact forall_mem_modify h.proxies _ fun p hp => hp.of_same rfl rfl rfl
    | _ => exact ⟨allInI64_nil, h.proxies, hcache⟩

end

end ReliableWriter

theorem ReliableReader.inBounds_new {cfg : ReliableReaderConfig}
    (hfresh : ∀ p ∈ cfg.writerProxies, p.Fresh) : (ReliableReader.new cfg).InBounds := by
  refine ⟨fun s hs => ?_, fun e he => absurd he List.not_mem_nil⟩
  have hs : s ∈ cfg.writerProxies.map fun p =>
      WriterProxyState.new p cfg.maxSamplesPerProxy cfg.assemblerCaps := by
    simpa [ReliableReader.states, ReliableReader.new] using hs
  obtain ⟨p, hp, rfl⟩ := List.mem_map.mp hs
  obtain ⟨guid, unicast, multicast, isReliable, rfl⟩ := hfresh p hp
  have hzero : Counts 0 := ⟨by decide, by decide⟩
  have hone : 1 ≤ (1 : Int) ∧ 1 ≤ i64Max := by decide
  exact ⟨⟨hone, hzero, hzero, by simp [WriterProxyState.new, WriterProxy.new],
    by simp [WriterProxyState.new, WriterProxy.new],
    fun _ _ _ hrun => absurd hrun.symm (Option.some_ne_none _)⟩, hzero,
    fun _ _ hget => absurd hget.symm (Option.some_ne_none _),
    fun _ ht => absurd ht.symm (Option.some_ne_none _), empty_inBounds,
    fun _ _ hget => absurd hget.symm (Option.some_ne_none _)⟩

theorem ReliableWriter.inBounds_new {cfg : ReliableWriterConfig}
    (hproxies : ∀ p ∈ cfg.readerProxies, p.InBounds) : (ReliableWriter.new cfg).InBounds :=
  ⟨hproxies, fun _ _ hget => absurd hget.symm (Option.some_ne_none _)⟩

/-- In every run of a reader and in every run of a writer, no call on decoded submessages
that name no `i64Max` makes a sum that leaves the range. -/
theorem sums_in_range_over_runs {rcfg : ReliableReaderConfig} {wcfg : ReliableWriterConfig}
    (hfresh : ∀ p ∈ rcfg.writerProxies, p.Fresh) (hproxies : ∀ p ∈ wcfg.readerProxies, p.InBounds) :
    (∀ (h : History ReaderOp ReaderOutput) (r : ReliableReader),
      Reaches ReliableReader.step (fun _ op => op.Decoded ∧ op.BelowMax) (.new rcfg) h r →
      ∀ op : ReaderOp, op.Decoded → op.BelowMax → AllInI64 (r.stepSums op)) ∧
    ∀ (h : History WriterCall WriterResult) (w : ReliableWriter),
      Reaches ReliableWriter.call (fun w c => c.Decoded ∧ w.BelowMax c) (.new wcfg) h w →
      ∀ c : WriterCall, c.Decoded → w.BelowMax c → AllInI64 (w.callSums c) := by
  refine ⟨fun h r hrun op hdecoded hbelow => ?_, fun h w hrun c hdecoded hbelow => ?_⟩
  · have hr : r.InBounds := Reaches.invariant (P := fun _ r => r.InBounds)
      (inBounds_new hfresh)
      (fun _ _ _ hr hok => (step_bounds hr hok.1 hok.2).2) hrun
    exact (step_bounds hr hdecoded hbelow).1
  · have hw : w.InBounds := Reaches.invariant (P := fun _ w => w.InBounds)
      (ReliableWriter.inBounds_new hproxies)
      (fun _ _ _ hw hok => (ReliableWriter.call_bounds hw hok.1 hok.2).2) hrun
    exact (ReliableWriter.call_bounds hw hdecoded hbelow).1

/-! ### Sets at the end of the range -/

section

open ReaderFixture

def secondOf (base : Int) : SequenceNumberSet := ⟨base, 2, Bitmap.ofPositions 2 [1]⟩

def gapAt (base : Int) : ReaderOp :=
  .gap singleWriterGuid.guidPrefix
    { readerId := readerGuid.entityId
      writerId := singleWriterGuid.entityId
      gapStart := base
      gapList := secondOf base
      groupInfo := none
      filteredCount := none }

def askAt (base : Int) : WriterCall :=
  .op (.acknackSetAt 0 (WriterFixture.readerGuid 1) (secondOf base))

def oneReaderConfig : ReliableWriterConfig :=
  WriterFixture.config 4 1472 [WriterFixture.readerProxy 1]

def oneWriterConfig : ReliableReaderConfig where
  guid := readerGuid
  vendorId := .zerodds
  writerProxies := [.new singleWriterGuid [] [] true]
  maxSamplesPerProxy := 4
  heartbeatResponseDelay := 200000000
  assemblerCaps := .default

theorem oneWriterConfig_fresh : ∀ p ∈ oneWriterConfig.writerProxies, p.Fresh := by
  intro p hp
  exact ⟨singleWriterGuid, [], [], true, List.mem_singleton.mp hp⟩

theorem oneReaderConfig_inBounds : ∀ p ∈ oneReaderConfig.readerProxies, p.InBounds := by
  intro p hp
  rw [List.mem_singleton.mp hp]
  exact ⟨⟨by decide, by decide⟩, by decide, (fun _ _ hget => nomatch hget)⟩

/-- Whose base is `i64Max`: the number behind it does not exist, at either end. -/
theorem sums_leave_the_range :
    ((gapAt i64Max).Decoded ∧ ¬AllInI64 ((ReliableReader.new oneWriterConfig).stepSums
        (gapAt i64Max))) ∧
      (askAt i64Max).Decoded ∧ ¬AllInI64 ((ReliableWriter.new oneReaderConfig).callSums
        (askAt i64Max)) := by
  have hout : ¬InI64 (i64Max + 1) := by decide
  have hgap : i64Max + 1 ∈
      ((ReliableReader.new oneWriterConfig).stepSums (gapAt i64Max)).take 2 := by
    decide +kernel
  have hask : i64Max + 1 ∈ (ReliableWriter.new oneReaderConfig).callSums (askAt i64Max) := by
    decide +kernel
  refine ⟨⟨?_, fun hall => hout (hall _ (List.mem_of_mem_take hgap))⟩, ?_,
    fun hall => hout (hall _ hask)⟩
  · show 1 ≤ i64Max ∧ i64Max ≤ i64Max ∧ 1 ≤ i64Max ∧ i64Max ≤ i64Max ∧ 2 ≤ rtpsBitmapMaxBits
    decide
  · show (1 ≤ i64Max ∨ (i64Max = 0 ∧ 2 = 0)) ∧ i64Max ≤ i64Max ∧ 2 ≤ rtpsBitmapMaxBits
    decide

/-- One number lower, the same GAP and the same ACKNACK stay in range, after a HEARTBEAT
and after a write. -/
theorem sums_stay_in_range :
    let hb : ReaderOp := .heartbeat singleWriterGuid.guidPrefix
      ⟨readerGuid.entityId, singleWriterGuid.entityId, 1, i64Max - 1, 1, true, false, none⟩ 0
    let write : WriterCall := .op (.write (WriterFixture.sample [7] none))
    AllInI64 ((run ReliableReader.step (.new oneWriterConfig) [hb]).1.stepSums
        (gapAt (i64Max - 2))) ∧
      AllInI64 ((run ReliableWriter.call (.new oneReaderConfig) [write]).1.callSums
        (askAt (i64Max - 2))) := by
  intro hb write
  have hset : ∀ n ∈ (secondOf (i64Max - 2)).iterSet, n < i64Max := by decide
  have hhb : hb.Decoded ∧ hb.BelowMax := by
    refine ⟨?_, ?_⟩
    · show 1 ≤ (1 : Int) ∧ 1 ≤ i64Max ∧ (1 : Int) - 1 ≤ i64Max - 1 ∧ i64Max - 1 ≤ i64Max
      decide
    · show i64Max - 1 < i64Max
      decide
  have hgap : (gapAt (i64Max - 2)).Decoded := by
    show 1 ≤ i64Max - 2 ∧ i64Max - 2 ≤ i64Max ∧ 1 ≤ i64Max - 2 ∧ i64Max - 2 ≤ i64Max ∧
      2 ≤ rtpsBitmapMaxBits
    decide
  have hask : (askAt (i64Max - 2)).Decoded := by
    show (1 ≤ i64Max - 2 ∨ (i64Max - 2 = 0 ∧ 2 = 0)) ∧ i64Max - 2 ≤ i64Max ∧ 2 ≤ rtpsBitmapMaxBits
    decide
  have hnext : (run ReliableWriter.call (.new oneReaderConfig) [write]).1.nextSn + 1 < i64Max := by
    decide +kernel
  have hstart : (ReliableWriter.new oneReaderConfig).nextSn + 1 < i64Max := by decide
  have hread : RunOk ReliableReader.step (fun _ op => op.Decoded ∧ op.BelowMax)
      (.new oneWriterConfig) [hb] := ⟨hhb, trivial⟩
  have hwritten : RunOk ReliableWriter.call (fun w c => c.Decoded ∧ w.BelowMax c)
      (.new oneReaderConfig) [write] := ⟨⟨trivial, hstart, trivial⟩, trivial⟩
  have hsums := sums_in_range_over_runs oneWriterConfig_fresh oneReaderConfig_inBounds
  exact ⟨hsums.1 _ _ (reaches_run hread) (gapAt (i64Max - 2)) hgap hset,
    hsums.2 _ _ (reaches_run hwritten) (askAt (i64Max - 2)) hask ⟨hnext, hset⟩⟩

end

end ZeroDds.Rtps
