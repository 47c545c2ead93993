/-
What a tick sends a proxy.
-/
import ZeroDds.Lib.IntRange
import ZeroDds.Rtps.Appending

namespace ZeroDds.Rtps

open ReaderProxy

namespace ReaderProxy

variable (p : ReaderProxy)

theorem repairDue_fields (now delay : Nat) :
    (p.repairDue now delay).1 = { p with nackSince := (p.repairDue now delay).1.nackSince } := by
  unfold repairDue
  split <;> rfl

@[simp] theorem toRemoteReader_nextUnsentChange (cacheMax : Int) :
    (p.nextUnsentChange cacheMax).1.toRemoteReader = p.toRemoteReader := by
  unfold nextUnsentChange
  split <;> rfl

@[simp] theorem toRemoteReader_repairsSent : p.repairsSent.toRemoteReader = p.toRemoteReader := by
  unfold repairsSent
  split <;> rfl

@[simp] theorem highestSentSn_repairsSent : p.repairsSent.highestSentSn = p.highestSentSn := by
  unfold repairsSent
  split <;> rfl

@[simp] theorem toRemoteReader_repaired (sn : Int) :
    (p.repaired sn).toRemoteReader = p.toRemoteReader := by
  unfold repaired
  split <;> rfl

@[simp] theorem requestedChanges_repaired (sn : Int) :
    (p.repaired sn).requestedChanges = p.requestedChanges := by
  unfold repaired
  split <;> rfl

end ReaderProxy

namespace SendView

variable {v : SendView}

/-! ### The changes of a turn -/

def repairPlan (p : ReaderProxy) (repair : Bool) : List Int :=
  if repair then p.requestedChanges.keys else []

def unsentAbove (cursor cacheMax : Int) (skip : List Int) : List Int :=
  (Int.range (cursor + 1) (cacheMax + 1)).filter fun sn => sn ∉ skip

def pushPlan (v : SendView) (p : ReaderProxy) (repaired : List Int) : List Int :=
  if p.isReliable = false ∨ v.pushMode then
    (v.cache.maxSn.map fun cacheMax => unsentAbove p.highestSentSn cacheMax repaired).getD []
  else []

def sendPlan (v : SendView) (p : ReaderProxy) (repair : Bool) : List Int :=
  repairPlan p repair ++ v.pushPlan p (repairPlan p repair)

def noteAll (v : SendView) (now : Nat) (log : SendLog) (sns : List Int) : SendLog :=
  sns.foldl (fun log sn => v.noteSent log sn now) log

theorem noteAll_append (now : Nat) (log : SendLog) (sns sns' : List Int) :
    v.noteAll now log (sns ++ sns') = v.noteAll now (v.noteAll now log sns) sns' :=
  List.foldl_append

/-- What the repairs of a turn leave.  The cursor and the numbers repaired out of
order say together what is still unsent. -/
structure Resent (v : SendView) (now : Nat) (sns : List Int) (s s' : RepairState) : Prop where
  log : s'.log = v.noteAll now s.log sns
  proxy : s'.proxy = { s.proxy with
    requestedChanges := s'.proxy.requestedChanges
    highestSentSn := s'.proxy.highestSentSn }
  cursor : s.proxy.highestSentSn ≤ s'.proxy.highestSentSn
  unsent : ∀ n, s'.proxy.highestSentSn < n ∧ n ∉ s'.ahead ↔
    s.proxy.highestSentSn < n ∧ n ∉ s.ahead ∧ n ∉ sns
  repairedAny : s'.repairedAny = (s.repairedAny || !sns.isEmpty)

theorem Resent.refl (now : Nat) (s : RepairState) : v.Resent now [] s s :=
  ⟨rfl, rfl, le_refl _, by simp, by simp⟩

def afterRepair (v : SendView) (now : Nat) (s : RepairState) (sn : Int) : RepairState :=
  let p := { s.proxy with requestedChanges := s.proxy.requestedChanges.erase sn }
  { log := v.noteSent s.log sn now
    proxy := p.repaired sn
    ahead := if sn = p.highestSentSn + 1 then s.ahead else s.ahead ++ [sn]
    repairedAny := true }

variable {now : Nat} {s s' : RepairState} {sns : List Int} {cacheMax : Int} {p : ReaderProxy}

theorem Resent.cons {sn : Int} (h : v.Resent now sns (v.afterRepair now s sn) s') :
    v.Resent now (sn :: sns) s s' := by
  have hunsent := h.unsent
  have hcursor := h.cursor
  have hproxy := h.proxy
  refine ⟨h.log, ?_, ?_, fun n => ?_, by simp [h.repairedAny, afterRepair]⟩
  · rw [hproxy]
    simp only [afterRepair, ReaderProxy.repaired]
    split <;> rfl
  · by_cases hstep : sn = s.proxy.highestSentSn + 1 <;>
      simp [afterRepair, ReaderProxy.repaired, hstep] at hcursor <;> omega
  · rw [hunsent n]
    by_cases hstep : sn = s.proxy.highestSentSn + 1
    · simp only [afterRepair, ReaderProxy.repaired, hstep, if_true, List.mem_cons, not_or]
      constructor
      · rintro ⟨h1, h2, h3⟩
        exact ⟨by omega, h2, by omega, h3⟩
      · rintro ⟨h1, h2, h3, h4⟩
        exact ⟨by omega, h2, h4⟩
    · simp only [afterRepair, ReaderProxy.repaired, hstep, if_false, List.mem_cons,
        List.mem_append, List.not_mem_nil, or_false, not_or]
      tauto

theorem resendChanges_spec (now : Nat) (a : Assembly)
    (hkeys : s.proxy.requestedChanges.keys = sns) :
    (v.resendChanges now sns.length s a).2 =
        v.appendAll s.proxy.remoteReaderGuid s.proxy.targets sns a ∧
      ∀ a', (v.resendChanges now sns.length s a).2 = .ok a' →
        v.Resent now sns s (v.resendChanges now sns.length s a).1 ∧
          (v.resendChanges now sns.length s a).1.proxy.requestedChanges = SortedMap.empty := by
  induction sns generalizing s a with
  | nil => exact ⟨rfl, fun _ _ => ⟨.refl now s, SortedMap.eq_empty_of_keys_nil hkeys⟩⟩
  | cons sn sns ih =>
    simp only [List.length_cons, resendChanges, ReaderProxy.nextRequestedChange,
      SortedMap.minKey?_of_keys_cons hkeys, appendAll]
    cases h : v.appendChange a sn s.proxy.remoteReaderGuid s.proxy.targets with
    | error e => simp
    | ok a₁ =>
      have hrest := ih (s := v.afterRepair now s sn) a₁
        (by simp [afterRepair, SortedMap.keys_erase_of_cons hkeys])
      have hreader : (v.afterRepair now s sn).proxy.toRemoteReader = s.proxy.toRemoteReader := by
        simp [afterRepair]
      rw [hreader] at hrest
      exact ⟨hrest.1, fun a' ha' => (hrest.2 a' ha').imp_left Resent.cons⟩

theorem unsentAbove_of_le {cursor : Int} (h : cacheMax ≤ cursor) (skip : List Int) :
    unsentAbove cursor cacheMax skip = [] := by
  simp [unsentAbove, range_eq_nil (show cacheMax + 1 ≤ cursor + 1 by omega)]

theorem unsentAbove_of_lt {cursor : Int} (h : cursor < cacheMax) (skip : List Int) :
    unsentAbove cursor cacheMax skip =
      if cursor + 1 ∈ skip then unsentAbove (cursor + 1) cacheMax skip
      else (cursor + 1) :: unsentAbove (cursor + 1) cacheMax skip := by
  rw [unsentAbove, range_cons (by omega), List.filter_cons]
  by_cases hin : cursor + 1 ∈ skip <;> simp [hin, unsentAbove]

theorem nextUnsentChange_of_lt (h : p.highestSentSn < cacheMax) :
    p.nextUnsentChange cacheMax =
      ({ p with highestSentSn := p.highestSentSn + 1 }, some (p.highestSentSn + 1)) := by
  simp [ReaderProxy.nextUnsentChange, h]

theorem pushUnsent_spec (now : Nat) (cacheMax : Int) (ahead : List Int) {n : Nat} (log : SendLog)
    (p : ReaderProxy) (a : Assembly) (hn : (cacheMax - p.highestSentSn).toNat = n) :
    (v.pushUnsent now cacheMax ahead n (log, p) a).2 =
        v.appendAll p.remoteReaderGuid p.targets (unsentAbove p.highestSentSn cacheMax ahead) a ∧
      ∀ a', (v.pushUnsent now cacheMax ahead n (log, p) a).2 = .ok a' →
        (v.pushUnsent now cacheMax ahead n (log, p) a).1 =
          (v.noteAll now log (unsentAbove p.highestSentSn cacheMax ahead),
            { p with highestSentSn := max p.highestSentSn cacheMax }) := by
  induction n generalizing log p a with
  | zero =>
    have hmax : max p.highestSentSn cacheMax = p.highestSentSn := by omega
    rw [unsentAbove_of_le (by omega), hmax]
    exact ⟨rfl, fun _ _ => rfl⟩
  | succ n ih =>
    have hlt : p.highestSentSn < cacheMax := by omega
    have hmax : max p.highestSentSn cacheMax = max (p.highestSentSn + 1) cacheMax := by omega
    have hrest := fun log => ih log { p with highestSentSn := p.highestSentSn + 1 }
    simp only [pushUnsent, nextUnsentChange_of_lt hlt, unsentAbove_of_lt hlt, hmax]
    by_cases hin : p.highestSentSn + 1 ∈ ahead
    · simp only [hin, if_true]
      exact hrest log a (by simp only; omega)
    · simp only [hin, if_false, appendAll]
      cases h : v.appendChange a (p.highestSentSn + 1) p.remoteReaderGuid p.targets with
      | error e => simp
      | ok a₁ => exact hrest (v.noteSent log (p.highestSentSn + 1) now) a₁ (by simp only; omega)

theorem Resent.unsentAbove (h : v.Resent now sns s s') (hahead : s.ahead = []) (cacheMax : Int) :
    unsentAbove s'.proxy.highestSentSn cacheMax s'.ahead =
      unsentAbove s.proxy.highestSentSn cacheMax sns := by
  have hunsent := h.unsent
  simp only [hahead, List.not_mem_nil, not_false_eq_true, true_and] at hunsent
  have hcursor := h.cursor
  have hreject : ∀ n, s.proxy.highestSentSn + 1 ≤ n → n < s'.proxy.highestSentSn + 1 →
      decide (n ∉ sns) = false := by
    intro n hlo hhi
    have : n ∈ sns := by
      by_contra hout
      have := (hunsent n).mpr ⟨by omega, hout⟩
      omega
    simpa using this
  simp only [SendView.unsentAbove]
  rw [filter_range_of_reject (by omega) hreject]
  refine List.filter_congr fun n hn => ?_
  obtain ⟨hlo, -⟩ := Int.mem_range_iff.mp hn
  refine decide_eq_decide.mpr ⟨fun hout => ?_, fun hout => ?_⟩
  · exact ((hunsent n).mp ⟨by omega, hout⟩).2
  · exact ((hunsent n).mpr ⟨by omega, hout⟩).2

structure Sent (v : SendView) (now : Nat) (repair : Bool) (log : SendLog) (p : ReaderProxy)
    (s : RepairState) : Prop where
  log : s.log = v.noteAll now log (v.sendPlan p repair)
  repairedAny : s.repairedAny = !(repairPlan p repair).isEmpty
  proxy : s.proxy = { p with
    requestedChanges := if repair then SortedMap.empty else p.requestedChanges
    highestSentSn := s.proxy.highestSentSn
    nackSince := s.proxy.nackSince }
  cursor : p.highestSentSn ≤ s.proxy.highestSentSn
  passed : ∀ n, p.highestSentSn < n → n ≤ s.proxy.highestSentSn → n ∈ v.sendPlan p repair

variable (plan : TickPlan)

theorem repairChanges_spec (repair : Bool) (log : SendLog) (p : ReaderProxy) (a : Assembly) :
    (v.repairChanges plan repair log p a).2 =
        v.appendAll p.remoteReaderGuid p.targets (repairPlan p repair) a ∧
      ∀ a', (v.repairChanges plan repair log p a).2 = .ok a' →
        v.Resent plan.now (repairPlan p repair) ⟨log, p, [], false⟩
            (v.repairChanges plan repair log p a).1 ∧
          (v.repairChanges plan repair log p a).1.proxy.requestedChanges =
            if repair then SortedMap.empty else p.requestedChanges := by
  cases repair with
  | false => exact ⟨rfl, fun _ _ => ⟨.refl _ _, rfl⟩⟩
  | true =>
    simp only [repairChanges, repairPlan, if_true, SortedMap.size_eq_length_keys]
    exact resendChanges_spec plan.now (s := ⟨log, p, [], false⟩) a rfl

structure Pushed (v : SendView) (now : Nat) (sns : List Int) (s s' : RepairState) : Prop where
  log : s'.log = v.noteAll now s.log sns
  repairedAny : s'.repairedAny = s.repairedAny
  proxy : s'.proxy = { s.proxy with highestSentSn := s'.proxy.highestSentSn }
  cursor : s.proxy.highestSentSn ≤ s'.proxy.highestSentSn

theorem pushChanges_spec (s : RepairState) (a : Assembly) :
    (v.pushChanges plan s a).2 =
        v.appendAll s.proxy.remoteReaderGuid s.proxy.targets (v.pushPlan s.proxy s.ahead) a ∧
      ∀ a', (v.pushChanges plan s a).2 = .ok a' →
        v.Pushed plan.now (v.pushPlan s.proxy s.ahead) s (v.pushChanges plan s a).1 ∧
        ∀ n, s.proxy.highestSentSn < n → n ≤ (v.pushChanges plan s a).1.proxy.highestSentSn →
          n ∈ s.ahead ∨ n ∈ v.pushPlan s.proxy s.ahead := by
  have hnone : v.Pushed plan.now [] s s := ⟨rfl, rfl, rfl, le_refl _⟩
  unfold pushChanges pushPlan
  split
  · cases hmax : v.cache.maxSn with
    | none => exact ⟨rfl, fun _ _ => ⟨hnone, fun n hlo hhi => absurd hlo (by simpa using hhi)⟩⟩
    | some cacheMax =>
      have hspec := pushUnsent_spec (v := v) plan.now cacheMax s.ahead s.log s.proxy a rfl
      refine ⟨hspec.1, fun a' ha' => ?_⟩
      have hstate := hspec.2 a' ha'
      simp only [hstate, Option.map_some, Option.getD_some]
      refine ⟨⟨rfl, rfl, rfl, le_max_left _ _⟩, fun n hlo hhi => ?_⟩
      by_cases hin : n ∈ s.ahead
      · exact .inl hin
      · refine .inr (List.mem_filter.mpr ⟨Int.mem_range_iff.mpr ?_, by simpa using hin⟩)
        omega
  · exact ⟨rfl, fun _ _ => ⟨hnone, fun n hlo hhi => absurd hlo (by simpa using hhi)⟩⟩

variable {repair : Bool} {log : SendLog}

theorem sent_of_resent (hresent : v.Resent now (repairPlan p repair) ⟨log, p, [], false⟩ s)
    (hrequests : s.proxy.requestedChanges = if repair then SortedMap.empty else p.requestedChanges)
    (hpushed : v.Pushed now (v.pushPlan p (repairPlan p repair))
      { s with proxy := s.proxy.repairsSent } s')
    (hpassed : ∀ n, s.proxy.repairsSent.highestSentSn < n → n ≤ s'.proxy.highestSentSn →
      n ∈ s.ahead ∨ n ∈ v.pushPlan p (repairPlan p repair)) : v.Sent now repair log p s' := by
  have hcursor := hresent.cursor
  have hcursor' := hpushed.cursor
  have hunsent := hresent.unsent
  simp only [highestSentSn_repairsSent] at hpassed hcursor'
  refine ⟨?_, ?_, ?_, le_trans hcursor hcursor', fun n hlo hhi => ?_⟩
  · rw [hpushed.log, hresent.log, sendPlan, noteAll_append]
  · rw [hpushed.repairedAny]
    simpa using hresent.repairedAny
  · rw [hpushed.proxy]
    simp only [ReaderProxy.repairsSent]
    split <;> (rw [hresent.proxy]; simp [hrequests])
  · refine List.mem_append.mpr ?_
    by_contra hout
    rw [not_or] at hout
    have habove := (hunsent n).mpr ⟨hlo, List.not_mem_nil, hout.1⟩
    exact (hpassed n habove.1 hhi).elim habove.2 hout.2

theorem sendChanges_spec (repair : Bool) (log : SendLog) (p : ReaderProxy) (a : Assembly) :
    (v.sendChanges plan repair log p a).2 =
        v.appendAll p.remoteReaderGuid p.targets (v.sendPlan p repair) a ∧
      ∀ a', (v.sendChanges plan repair log p a).2 = .ok a' →
        v.Sent plan.now repair log p (v.sendChanges plan repair log p a).1 := by
  obtain ⟨hok, hstate⟩ := repairChanges_spec (v := v) plan repair log p a
  rw [sendPlan, appendAll_append, ← hok]
  rcases hr : v.repairChanges plan repair log p a with ⟨s, e | a₁⟩
  · simp [sendChanges, hr]
  · rw [hr] at hstate
    obtain ⟨hresent, hrequests⟩ := hstate a₁ rfl
    have hreader : s.proxy.toRemoteReader = p.toRemoteReader := by rw [hresent.proxy]
    have hpush := pushChanges_spec (v := v) plan { s with proxy := s.proxy.repairsSent } a₁
    have hplan : v.pushPlan s.proxy.repairsSent s.ahead = v.pushPlan p (repairPlan p repair) := by
      simp [pushPlan, toRemoteReader_repairsSent, highestSentSn_repairsSent, hreader,
        hresent.unsentAbove rfl]
    simp only [hplan, toRemoteReader_repairsSent, hreader] at hpush
    simp only [sendChanges, hr, Outcome.andThen_ok]
    refine ⟨hpush.1, fun a' ha' => ?_⟩
    obtain ⟨hpushed, hpassed⟩ := hpush.2 a' ha'
    exact sent_of_resent hresent hrequests hpushed hpassed

/-! ### The HEARTBEAT of a turn -/

/-- The proxy gets a HEARTBEAT this turn; a full window that was repaired in part
is one reason. -/
def endsWithHeartbeat (v : SendView) (plan : TickPlan) (p : ReaderProxy) (repair : Bool) : Bool :=
  v.heartbeatDue plan p
    (!(repairPlan p repair).isEmpty && p.windowFull && v.hasUnacked p)

def turnHeartbeat (v : SendView) (p : ReaderProxy) (count : Int) : Submessage :=
  .heartbeat (v.heartbeatOf (v.heartbeatFirst p) v.lastWrittenSn count false false
    p.remoteReaderGuid)

def HeartbeatFits (v : SendView) (p : ReaderProxy) : Prop :=
  (v.openBuilderFor p.remoteReaderGuid p.targets).Accepts (v.turnHeartbeat p 0)

def windowTaken (s : RepairState) : ReaderProxy :=
  if s.repairedAny then s.proxy.takeFullWindow.1 else s.proxy

theorem windowTaken_eq (hs : v.Sent now repair log p s) :
    windowTaken s = { p with
      requestedChanges := (windowTaken s).requestedChanges
      highestSentSn := s.proxy.highestSentSn
      nackSince := (windowTaken s).nackSince
      windowFull := (windowTaken s).windowFull } := by
  unfold windowTaken
  split <;> rw [hs.proxy]
  rfl

theorem addHeartbeat_eq (log : SendLog) (a : Assembly) {q : ReaderProxy}
    (hreader : q.toRemoteReader = p.toRemoteReader) (hacked : q.highestAckedSn = p.highestAckedSn) :
    v.addHeartbeat log a (v.heartbeatFirst q) false false q =
      ({ log with heartbeatCount := wrapSuccI32 log.heartbeatCount },
        v.appendSubmessage a (v.turnHeartbeat p (wrapSuccI32 log.heartbeatCount))
          p.remoteReaderGuid p.targets "HEARTBEAT") := by
  simp [addHeartbeat, appendHeartbeat, turnHeartbeat, heartbeatFirst, hacked, hreader]

theorem endTurn_eq {plan : TickPlan} (hs : v.Sent plan.now repair log p s) (a : Assembly) :
    v.endTurn plan s a =
      if v.endsWithHeartbeat plan p repair then
        let count := wrapSuccI32 s.log.heartbeatCount
        (({ s.log with heartbeatCount := count }, (windowTaken s).heartbeatSent plan.now),
          (v.appendSubmessage a (v.turnHeartbeat p count) p.remoteReaderGuid p.targets
            "HEARTBEAT").map fun a => (a.finish p.remoteReaderGuid, true))
      else ((s.log, windowTaken s), .ok (a.finish p.remoteReaderGuid, false)) := by
  have hq := windowTaken_eq hs
  have hfull : s.proxy.windowFull = p.windowFull := by rw [hs.proxy]
  have htaken : (if s.repairedAny then s.proxy.takeFullWindow else (s.proxy, false)) =
      (windowTaken s, s.repairedAny && p.windowFull) := by
    rw [← hfull, windowTaken]
    cases s.repairedAny <;> rfl
  have hdue : v.heartbeatDue plan (windowTaken s)
      (s.repairedAny && p.windowFull && v.hasUnacked (windowTaken s)) =
      v.endsWithHeartbeat plan p repair := by
    rw [hq, hs.repairedAny]
    rfl
  have hguid : (windowTaken s).remoteReaderGuid = p.remoteReaderGuid := by rw [hq]
  have hadd := addHeartbeat_eq (v := v) s.log a
    (show ((windowTaken s).heartbeatSent plan.now).toRemoteReader = p.toRemoteReader by
      rw [hq]; rfl)
    (by rw [hq]; rfl)
  simp only [endTurn, htaken, hdue, hadd, hguid]
  split
  · cases v.appendSubmessage a (v.turnHeartbeat p (wrapSuccI32 s.log.heartbeatCount))
      p.remoteReaderGuid p.targets "HEARTBEAT" <;>
      simp [Except.map, ReaderProxy.heartbeatSent, hguid]
  · rfl

/-! ### The fragments asked for -/

/-- The answer to a run of fragments asked for can be built.  For a change the reader
does not get that is the GAP; else the sample has the first of the fragments, and a
datagram takes them. -/
def RunFits (v : SendView) (sn : Int) (frag count : Nat) (peer : Guid) (targets : List Locator) :
    Prop :=
  match (v.cache.get sn).filter fun _ => v.isRelevant sn peer with
  | none => (v.openBuilderFor peer targets).Accepts (.gap (v.gapOf sn peer))
  | some change =>
    let size := v.fragmentSizeFor sn
    let start := (frag - 1) * size
    let stop := min (start + max count 1 * size) change.payload.length
    frag ≠ 0 ∧ start < change.payload.length ∧ divCeil (stop - start) size ≤ u16Max ∧
      change.payload.length ≤ u32Max ∧ size ≤ u16Max ∧
      (v.stampedBuilder (some sn) peer targets).Accepts (.dataFrag (v.dataFragOf sn
        ⟨frag, divCeil (stop - start) size, size, change.payload.length,
          sliceOf change.payload start stop⟩ peer))

theorem buildFragmentRun_ok_iff (sn : Int) (frag count : Nat) (peer : Guid)
    (targets : List Locator) :
    (∃ d, v.buildFragmentRun sn frag count peer targets = .ok d) ↔
      v.RunFits sn frag count peer targets := by
  unfold buildFragmentRun RunFits
  cases hget : v.cache.get sn with
  | none => exact buildAlone_ok_iff rfl
  | some change =>
    simp only [buildDataFragDatagram]
    cases hrel : v.isRelevant sn peer with
    | false => exact buildAlone_ok_iff rfl
    | true =>
      simp only [Option.filter_some, if_true, Bool.true_eq_false, if_false]
      split
      · next h => simp [h]
      · split
        · next h => simp; omega
        · split
          · next h => simp; omega
          · split
            · next h => simp; omega
            · split
              · next h => simp; omega
              · next h₁ h₂ h₃ h₄ h₅ =>
                refine (buildAlone_ok_iff rfl).trans ⟨fun h => ?_, fun h => h.2.2.2.2.2⟩
                exact ⟨h₁, by omega, by omega, by omega, by omega, h⟩

def fragmentRuns (v : SendView) : Nat → ReaderProxy → List (Int × Nat × Nat)
  | 0, _ => []
  | fuel + 1, p =>
    match v.nextFragmentRun p with
    | (_, none) => []
    | (p, some run) => run :: fragmentRuns v fuel p

def fragmentPlan (v : SendView) (p : ReaderProxy) (repair : Bool) : List (Int × Nat × Nat) :=
  if repair then v.fragmentRuns p.pendingRequestedFragmentCount p else []

end SendView

namespace ReaderProxy

def SameButFragments (p q : ReaderProxy) : Prop :=
  q = { p with requestedFragments := q.requestedFragments }

theorem SameButFragments.refl (p : ReaderProxy) : p.SameButFragments p := rfl

variable {p q : ReaderProxy}

theorem SameButFragments.trans {r : ReaderProxy} (h : p.SameButFragments q)
    (h' : q.SameButFragments r) : p.SameButFragments r := by
  unfold SameButFragments at h h' ⊢
  rw [h', h]

theorem SameButFragments.toRemoteReader (h : p.SameButFragments q) :
    q.toRemoteReader = p.toRemoteReader := by
  rw [h]

def SameFragments (p q : ReaderProxy) : Prop :=
  q.requestedFragments = p.requestedFragments ∧ q.toRemoteReader = p.toRemoteReader

theorem nextRequestedFragment_congr (h : p.SameFragments q) :
    q.nextRequestedFragment.2 = p.nextRequestedFragment.2 ∧
      p.nextRequestedFragment.1.SameFragments q.nextRequestedFragment.1 := by
  unfold nextRequestedFragment
  rw [h.1]
  split
  · exact ⟨rfl, h⟩
  · split
    · exact ⟨rfl, h⟩
    · exact ⟨rfl, by simp [SameFragments, withoutFragment, h.1, h.2]⟩

theorem nextRequestedFragmentRunAfter_congr (h : p.SameFragments q) (sn : Int) (after left : Nat) :
    (q.nextRequestedFragmentRunAfter sn after left).2 =
        (p.nextRequestedFragmentRunAfter sn after left).2 ∧
      (p.nextRequestedFragmentRunAfter sn after left).1.SameFragments
        (q.nextRequestedFragmentRunAfter sn after left).1 := by
  induction left generalizing p q after with
  | zero => exact ⟨rfl, h⟩
  | succ left ih =>
    simp only [nextRequestedFragmentRunAfter, h.1]
    split
    · exact ⟨rfl, h⟩
    · next set _ =>
      split
      · have hrest := ih (p := p.withoutFragment sn set (min (after + 1) u32Max))
          (q := q.withoutFragment sn set (min (after + 1) u32Max))
          (by simp [SameFragments, withoutFragment, h.1, h.2]) (after + 1)
        exact ⟨by rw [hrest.1], hrest.2⟩
      · exact ⟨rfl, h⟩

theorem withoutFragment_same (p : ReaderProxy) (sn : Int) (set : SortedSet Nat) (f : Nat) :
    p.SameButFragments (p.withoutFragment sn set f) := rfl

theorem nextRequestedFragment_same (p : ReaderProxy) :
    p.SameButFragments p.nextRequestedFragment.1 := by
  unfold nextRequestedFragment
  split
  · rfl
  · split <;> rfl

theorem nextRequestedFragmentRunAfter_same (p : ReaderProxy) (sn : Int) (after left : Nat) :
    p.SameButFragments (p.nextRequestedFragmentRunAfter sn after left).1 := by
  induction left generalizing p after with
  | zero => rfl
  | succ left ih =>
    simp only [nextRequestedFragmentRunAfter]
    split
    · rfl
    · split
      · next set _ _ =>
        exact (p.withoutFragment_same sn set _).trans (ih _ _)
      · rfl

end ReaderProxy

namespace SendView

variable {v : SendView}

theorem nextFragmentRun_same (p : ReaderProxy) : p.SameButFragments (v.nextFragmentRun p).1 := by
  unfold nextFragmentRun
  have hnext := p.nextRequestedFragment_same
  split
  · next h => simpa [h] using hnext
  · next h =>
    rw [h] at hnext
    exact hnext.trans (nextRequestedFragmentRunAfter_same _ _ _ _)

variable {p q : ReaderProxy}

theorem nextFragmentRun_congr (h : p.SameFragments q) :
    (v.nextFragmentRun q).2 = (v.nextFragmentRun p).2 ∧
      (v.nextFragmentRun p).1.SameFragments (v.nextFragmentRun q).1 := by
  obtain ⟨hfound, hrest⟩ := nextRequestedFragment_congr h
  unfold nextFragmentRun
  rcases hp : p.nextRequestedFragment with ⟨p', _ | ⟨sn, frag⟩⟩ <;>
    rcases hq : q.nextRequestedFragment with ⟨q', _ | ⟨sn', frag'⟩⟩ <;>
    simp only [hp, hq, reduceCtorEq, Option.some.injEq, Prod.mk.injEq] at hfound hrest
  · exact ⟨rfl, hrest⟩
  · obtain ⟨rfl, rfl⟩ := hfound
    have hrun := nextRequestedFragmentRunAfter_congr hrest sn' frag'
    simp only [hrest.2]
    exact ⟨by rw [(hrun _).1], (hrun _).2⟩

theorem fragmentRuns_congr (h : p.SameFragments q) (fuel : Nat) :
    v.fragmentRuns fuel q = v.fragmentRuns fuel p := by
  induction fuel generalizing p q with
  | zero => rfl
  | succ fuel ih =>
    obtain ⟨hrun, hrest⟩ := nextFragmentRun_congr (v := v) h
    unfold fragmentRuns
    rcases hp : v.nextFragmentRun p with ⟨p', _ | run⟩ <;>
      rcases hq : v.nextFragmentRun q with ⟨q', _ | run'⟩ <;>
      simp only [hp, hq, reduceCtorEq, Option.some.injEq] at hrun hrest ⊢
    subst hrun
    rw [ih hrest]

theorem fragmentPlan_congr (h : p.SameFragments q) (repair : Bool) :
    v.fragmentPlan q repair = v.fragmentPlan p repair := by
  simp [fragmentPlan, ReaderProxy.pendingRequestedFragmentCount, h.1, fragmentRuns_congr h]

theorem resendFragments_spec (fuel : Nat) (p : ReaderProxy) :
    ((∃ ds, (v.resendFragments fuel p).2 = .ok ds) ↔
      ∀ run ∈ v.fragmentRuns fuel p,
        v.RunFits run.1 run.2.1 run.2.2 p.remoteReaderGuid p.targets) ∧
    p.SameButFragments (v.resendFragments fuel p).1 ∧
    ∀ ds, (v.resendFragments fuel p).2 = .ok ds →
      List.Forall₂ (fun run d =>
        v.buildFragmentRun run.1 run.2.1 run.2.2 p.remoteReaderGuid p.targets = .ok d)
        (v.fragmentRuns fuel p) ds := by
  induction fuel generalizing p with
  | zero => simp [resendFragments, fragmentRuns, ReaderProxy.SameButFragments]
  | succ fuel ih =>
    have hsame := nextFragmentRun_same (v := v) p
    rcases hrun : v.nextFragmentRun p with ⟨q, _ | ⟨sn, frag, count⟩⟩ <;> rw [hrun] at hsame
    · simpa [resendFragments, fragmentRuns, hrun] using hsame
    · have hreader : q.toRemoteReader = p.toRemoteReader := hsame.toRemoteReader
      have hq := ih q
      rw [hreader] at hq
      have hfits := buildFragmentRun_ok_iff (v := v) sn frag count p.remoteReaderGuid p.targets
      simp only [resendFragments, fragmentRuns, hrun, hreader, List.forall_mem_cons]
      cases hbuild : v.buildFragmentRun sn frag count p.remoteReaderGuid p.targets with
      | error e =>
        simp only [hbuild, reduceCtorEq, exists_false, false_iff] at hfits
        simp [hfits, hsame]
      | ok d =>
        simp only [hbuild, Except.ok.injEq, exists_eq', true_iff] at hfits
        obtain ⟨hok, hproxy, hbuilt⟩ := hq
        rcases hrest : v.resendFragments fuel q with ⟨r, e | ds⟩ <;>
          simp only [hrest] at hok hproxy hbuilt ⊢
        · exact ⟨by rw [← hok]; simp, hsame.trans hproxy, by simp⟩
        · refine ⟨⟨fun _ => ⟨hfits, hok.mp ⟨ds, rfl⟩⟩, fun _ => ⟨_, rfl⟩⟩, hsame.trans hproxy, ?_⟩
          rintro ds' h
          obtain rfl := Except.ok.inj h
          exact .cons hbuild (hbuilt ds rfl)

theorem repairFragments_spec (repair : Bool) (p : ReaderProxy) :
    ((∃ ds, (v.repairFragments repair p).2 = .ok ds) ↔
      ∀ run ∈ v.fragmentPlan p repair,
        v.RunFits run.1 run.2.1 run.2.2 p.remoteReaderGuid p.targets) ∧
    p.SameButFragments (v.repairFragments repair p).1 ∧
    ∀ ds, (v.repairFragments repair p).2 = .ok ds →
      List.Forall₂ (fun run d =>
        v.buildFragmentRun run.1 run.2.1 run.2.2 p.remoteReaderGuid p.targets = .ok d)
        (v.fragmentPlan p repair) ds := by
  cases repair with
  | false => simp [repairFragments, fragmentPlan, ReaderProxy.SameButFragments]
  | true => exact resendFragments_spec p.pendingRequestedFragmentCount p

/-- What a turn has to send can be built: the answers to the fragments asked for, the
changes and the HEARTBEAT.  Each is judged by a fresh datagram for the proxy. -/
structure TurnFits (v : SendView) (plan : TickPlan) (p : ReaderProxy) (repair : Bool) : Prop where
  fragments : ∀ run ∈ v.fragmentPlan p repair,
    v.RunFits run.1 run.2.1 run.2.2 p.remoteReaderGuid p.targets
  changes : ∀ sn ∈ v.sendPlan p repair, v.ChangeFits sn p.remoteReaderGuid p.targets
  heartbeat : v.endsWithHeartbeat plan p repair = true → v.HeartbeatFits p

def turnLog (v : SendView) (plan : TickPlan) (p : ReaderProxy) (repair : Bool) (log : SendLog) :
    SendLog :=
  let log := v.noteAll plan.now log (v.sendPlan p repair)
  if v.endsWithHeartbeat plan p repair then
    { log with heartbeatCount := wrapSuccI32 log.heartbeatCount }
  else log

def Aggregated (v : SendView) (plan : TickPlan) (p : ReaderProxy) (repair : Bool) (log : SendLog)
    (frags out : List AddressedDatagram) : Prop :=
  ∃ a, v.appendAll p.remoteReaderGuid p.targets (v.sendPlan p repair) (v.openAssembly p frags) =
      .ok a ∧
    if v.endsWithHeartbeat plan p repair then
      ∃ a', v.appendSubmessage a
        (v.turnHeartbeat p (v.turnLog plan p repair log).heartbeatCount) p.remoteReaderGuid
        p.targets "HEARTBEAT" = .ok a' ∧ out = a'.finish p.remoteReaderGuid
    else out = a.finish p.remoteReaderGuid

structure TurnLeaves (v : SendView) (p : ReaderProxy) (repair : Bool) (q : ReaderProxy) :
    Prop where
  reader : q.toRemoteReader = p.toRemoteReader
  acked : q.highestAckedSn = p.highestAckedSn
  requests : q.requestedChanges = if repair then SortedMap.empty else p.requestedChanges
  cursor : p.highestSentSn ≤ q.highestSentSn
  passed : ∀ n, p.highestSentSn < n → n ≤ q.highestSentSn → n ∈ v.sendPlan p repair

variable {repair : Bool}

theorem turnLeaves_of_sent {now : Nat} {log : SendLog} {s : RepairState}
    (hs : v.Sent now repair log p s) : v.TurnLeaves p repair (windowTaken s) := by
  have hrequests : (windowTaken s).requestedChanges = s.proxy.requestedChanges := by
    unfold windowTaken
    split <;> rfl
  have hcursor : (windowTaken s).highestSentSn = s.proxy.highestSentSn := by
    unfold windowTaken
    split <;> rfl
  refine ⟨?_, ?_, ?_, hcursor ▸ hs.cursor, hcursor ▸ hs.passed⟩
  · rw [windowTaken_eq hs]
  · rw [windowTaken_eq hs]
  · rw [hrequests, hs.proxy]

theorem TurnLeaves.heartbeatSent (h : v.TurnLeaves p repair q) (now : Nat) :
    v.TurnLeaves p repair (q.heartbeatSent now) :=
  ⟨h.reader, h.acked, h.requests, h.cursor, h.passed⟩

theorem aggregateTurn_spec (plan : TickPlan) (repair : Bool) (log : SendLog) (p : ReaderProxy)
    (frags : List AddressedDatagram) :
    ((∃ r, (v.aggregateTurn plan repair log p frags).2 = .ok r) ↔
      (∀ sn ∈ v.sendPlan p repair, v.ChangeFits sn p.remoteReaderGuid p.targets) ∧
        (v.endsWithHeartbeat plan p repair = true → v.HeartbeatFits p)) ∧
    ∀ out hb, (v.aggregateTurn plan repair log p frags).2 = .ok (out, hb) →
      hb = v.endsWithHeartbeat plan p repair ∧
      (v.aggregateTurn plan repair log p frags).1.1 = v.turnLog plan p repair log ∧
      v.TurnLeaves p repair (v.aggregateTurn plan repair log p frags).1.2 ∧
      v.Aggregated plan p repair log frags out := by
  obtain ⟨happend, hstate⟩ := sendChanges_spec (v := v) plan repair log p (v.openAssembly p frags)
  have hopen : v.Opened p.remoteReaderGuid p.targets (v.openAssembly p frags).builder :=
    opened_openBuilderFor
  have hchanges := appendAll_ok_iff (v.sendPlan p repair) hopen
  rw [← happend] at hchanges
  rcases hsend : v.sendChanges plan repair log p (v.openAssembly p frags) with ⟨s, e | a⟩ <;>
    simp only [hsend] at happend hstate hchanges
  · have hno : ¬∀ sn ∈ v.sendPlan p repair, v.ChangeFits sn p.remoteReaderGuid p.targets := by
      rw [← hchanges]
      simp
    simp [aggregateTurn, hsend, hno]
  · have hs := hstate a rfl
    have hfit := hchanges.mp ⟨a, rfl⟩
    have hopen' := (appendAll_invariant (P := fun _ _ => True) (fun _ _ _ _ _ _ _ => trivial) []
      hopen trivial happend.symm).2
    have hleaves := turnLeaves_of_sent hs
    simp only [aggregateTurn, hsend, endTurn_eq hs]
    cases hhb : v.endsWithHeartbeat plan p repair with
    | false =>
      refine ⟨⟨fun _ => ⟨hfit, by simp⟩, fun _ => ⟨_, rfl⟩⟩, fun out hb h => ?_⟩
      obtain ⟨rfl, rfl⟩ := h
      exact ⟨rfl, by simp [turnLog, hhb, hs.log], hleaves, a, happend.symm, by simp [hhb]⟩
    | true =>
      have hlog : v.turnLog plan p repair log =
          { s.log with heartbeatCount := wrapSuccI32 s.log.heartbeatCount } := by
        simp [turnLog, hhb, hs.log]
      have hbeat := appendSubmessage_ok_iff
          (s := v.turnHeartbeat p (wrapSuccI32 s.log.heartbeatCount))
        "HEARTBEAT" hopen'
      cases hadd : v.appendSubmessage a (v.turnHeartbeat p (wrapSuccI32 s.log.heartbeatCount))
          p.remoteReaderGuid p.targets "HEARTBEAT" with
      | error e =>
        have hno : ¬v.HeartbeatFits p := fun h => by simpa [hadd] using hbeat.mpr h
        simp [Except.map, hno]
      | ok a' =>
        refine ⟨⟨fun _ => ⟨hfit, fun _ => hbeat.mp ⟨a', hadd⟩⟩, fun _ => ⟨_, rfl⟩⟩,
          fun out hb h => ?_⟩
        obtain ⟨rfl, rfl⟩ := h
        refine ⟨rfl, hlog.symm, hleaves.heartbeatSent _, a, happend.symm, ?_⟩
        rw [if_pos hhb, hlog]
        exact ⟨a', hadd, rfl⟩

theorem tickTurn_spec (plan : TickPlan) (log : SendLog) (emitted : Bool) (p : ReaderProxy)
    (hrepair : (p.repairDue plan.now v.nackResponseDelay).2 = repair) :
    ((∃ out, (v.tickTurn plan (log, emitted) p).2 = .ok out) ↔ v.TurnFits plan p repair) ∧
      ∀ out, (v.tickTurn plan (log, emitted) p).2 = .ok out →
        (v.tickTurn plan (log, emitted) p).1.1 =
          (v.turnLog plan p repair log, emitted || v.endsWithHeartbeat plan p repair) ∧
        v.TurnLeaves p repair (v.tickTurn plan (log, emitted) p).1.2 ∧
        ∃ frags, List.Forall₂ (fun run d =>
            v.buildFragmentRun run.1 run.2.1 run.2.2 p.remoteReaderGuid p.targets = .ok d)
            (v.fragmentPlan p repair) frags ∧
          v.Aggregated plan p repair log frags out := by
  obtain ⟨since, hnoted⟩ : ∃ since, p.repairDue plan.now v.nackResponseDelay =
      ({ p with nackSince := since }, repair) :=
    ⟨_, Prod.ext (p.repairDue_fields _ _) hrepair⟩
  obtain ⟨hok, hproxy, hbuilt⟩ := repairFragments_spec (v := v) repair { p with nackSince := since }
  have hsame : p.SameFragments { p with nackSince := since } := ⟨rfl, rfl⟩
  have hplan := fragmentPlan_congr (v := v) hsame repair
  rw [hplan] at hok hbuilt
  simp only [tickTurn, hnoted]
  rcases hfrag : v.repairFragments repair { p with nackSince := since } with ⟨q, e | frags⟩ <;>
    simp only [hfrag] at hok hproxy hbuilt ⊢
  · refine ⟨⟨by simp, fun h => ?_⟩, by simp⟩
    exact absurd (hok.mpr h.fragments) (by simp)
  · obtain ⟨queue, rfl⟩ : ∃ queue, q = { p with nackSince := since, requestedFragments := queue } :=
      ⟨_, hproxy⟩
    obtain ⟨hsend, hsent⟩ := aggregateTurn_spec (v := v) plan repair log
      { p with nackSince := since, requestedFragments := queue } frags
    rcases hagg : v.aggregateTurn plan repair log
        { p with nackSince := since, requestedFragments := queue } frags
        with ⟨⟨log', q⟩, e | ⟨out, hb⟩⟩ <;>
      simp only [hagg] at hsend hsent ⊢
    · refine ⟨⟨by simp, fun h => ?_⟩, by simp⟩
      exact absurd (hsend.mpr ⟨h.changes, h.heartbeat⟩) (by simp)
    · refine ⟨⟨fun _ => ?_, fun _ => ⟨out, rfl⟩⟩, fun out' h => ?_⟩
      · obtain ⟨hchanges, hheartbeat⟩ := hsend.mp ⟨_, rfl⟩
        exact ⟨hok.mp ⟨frags, rfl⟩, hchanges, hheartbeat⟩
      · obtain rfl := Except.ok.inj h
        obtain ⟨rfl, rfl, hleaves, hdone⟩ := hsent out hb rfl
        exact ⟨rfl, ⟨hleaves.reader, hleaves.acked, hleaves.requests, hleaves.cursor,
          hleaves.passed⟩, frags, hbuilt frags rfl, hdone⟩

theorem buildFragmentRun_peer {sn : Int} {frag count : Nat} {peer : Guid} {targets : List Locator}
    {d : AddressedDatagram} (h : v.buildFragmentRun sn frag count peer targets = .ok d) :
    d.peer = peer := by
  unfold buildFragmentRun at h
  split at h
  · simp only [buildDataFragDatagram] at h
    repeat' (split at h)
    all_goals first | exact (buildAlone_ok rfl h).1 | cases h
  · exact (buildAlone_ok rfl h).1

theorem tickTurn_peer {plan : TickPlan} {s : SendLog × Bool} {out : List AddressedDatagram}
    (h : (v.tickTurn plan s p).2 = .ok out) : ∀ d ∈ out, d.peer = p.remoteReaderGuid := by
  obtain ⟨-, -, frags, hfrags, a, hall, hend⟩ :=
    (tickTurn_spec (v := v) plan s.1 s.2 p rfl).2 out h
  have hout : ∀ d ∈ frags, d.peer = p.remoteReaderGuid := by
    clear hall
    generalize v.fragmentPlan p _ = runs at hfrags
    induction hfrags with
    | nil => simp
    | cons hbuild _ ih => exact List.forall_mem_cons.mpr ⟨buildFragmentRun_peer hbuild, ih⟩
  have hchanges := (appendAll_invariant (P := fun _ a => ∀ d ∈ a.out, d.peer = p.remoteReaderGuid)
    (fun _ _ _ _ ha _ hstep => appendChange_peer ha hstep) [] opened_openBuilderFor hout hall).1
  split at hend
  · obtain ⟨a', hbeat, rfl⟩ := hend
    exact finish_peer (appendSubmessage_peer hchanges hbeat)
  · subst hend
    exact finish_peer hchanges

end SendView
end ZeroDds.Rtps
