/-
Readers of several writers.
-/
import ZeroDds.Rtps.CommittedRanges
import ZeroDds.Rtps.ReaderRun

namespace ZeroDds.Rtps

namespace WriterProxy

def refreshLocators (p : WriterProxy) (unicast multicast : List Locator) : WriterProxy :=
  { p with unicastLocators := unicast, multicastLocators := multicast }

end WriterProxy

abbrev AbsorbedProxy := { p : WriterProxy // p.Absorbed }

namespace ReliableReader

/-! ### Matching and unmatching -/

variable (r : ReliableReader)

/-- The state of a newly matched writer: what it announced before counts as
available, and what was forwarded for it before its first proxy as handed out. -/
def newState (proxy : WriterProxy) : WriterProxyState :=
  let guid := proxy.remoteWriterGuid
  let s := WriterProxyState.new proxy r.maxSamplesPerProxy r.assemblerCaps
  let s :=
    match r.unmatchedHighest.find? fun e => e.1 = guid with
    | some e =>
      { s with proxy := (s.proxy.updateFromHeartbeat s.proxy.firstAvailableSn e.2).1 }
    | none => s
  let s :=
    match r.forwardedWithoutProxy.find? fun e => e.1 = guid with
    | some e => if guid ∈ r.endedWriters then s else { s with committed := e.2 }
    | none => s
  { s with pendingAcknackSince := some 0 }

def addWriterProxy (proxy : WriterProxy) : ReliableReader :=
  let guid := proxy.remoteWriterGuid
  match r.proxyIndexByWriter guid with
  | some idx =>
    { r with
      writerProxies := r.writerProxies.modify idx fun s =>
        { s with proxy := s.proxy.refreshLocators proxy.unicastLocators proxy.multicastLocators } }
  | none =>
    { r with
      unmatchedHighest := r.unmatchedHighest.eraseP fun e => e.1 = guid
      endedWriters := r.endedWriters.erase guid
      forwardedWithoutProxy := r.forwardedWithoutProxy.eraseP fun e => e.1 = guid
      writerProxies := r.writerProxies ++ [r.newState proxy] }

def removeWriterProxy (guid : Guid) : ReliableReader :=
  match r.proxyIndexByWriter guid with
  | none => r
  | some idx => { r with writerProxies := r.writerProxies.eraseIdx idx }.noteEnded guid

/-- What is missing in front of a departed writer's held samples can no longer
arrive; the second component is how many numbers that is. -/
def giveUpMissing (s : WriterProxyState) (highest : Int) : WriterProxyState × Nat :=
  (Int.range (s.deliveredUpTo + 1) highest).foldl
    (fun (acc : WriterProxyState × Nat) sn =>
      if s.proxy.firstAvailableSn ≤ sn ∧ (acc.1.receivedCache.get sn).isNone ∧
          !acc.1.proxy.isKnown sn then
        ({ acc.1 with proxy := acc.1.proxy.irrelevantChangeSet sn }, satInc acc.2)
      else acc) (s, 0)

def departWriterProxy (guid : Guid) : ReliableReader :=
  match r.proxyIndexByWriter guid with
  | none => r
  | some idx =>
    match r.writerProxies[idx]? with
    | none => r
    | some s =>
      let r := { r with writerProxies := r.writerProxies.eraseIdx idx }
      match s.receivedCache.maxSn with
      | some highest =>
        let (s, lost) := giveUpMissing s highest
        { r with departedLost := satAdd r.departedLost lost, departed := r.departed ++ [s] }
      | none => r.noteEnded guid

def acceptForwarded (original : Guid) (sn : Int) : ReliableReader × Bool :=
  match r.commitForwarded original sn with
  | (r, true) => (r, true)
  | (r, false) => (r.noteDuplicate, false)

inductive MatchOp where
  | call (op : ReaderOp)
  | addWriterProxy (proxy : AbsorbedProxy)
  | removeWriterProxy (guid : Guid)
  | departWriterProxy (guid : Guid)
  | acceptForwarded (original : Guid) (sn : Int)

/-- What it hands out, and the change it lets a writer of the same participant hand
out. -/
structure MatchOutput where
  delivered : List DeliveredSample
  accepted : Option (Guid × Int)

def matchStep : MatchOp → ReliableReader × MatchOutput
  | .call op => ((r.step op).1, ⟨(r.step op).2.delivered, none⟩)
  | .addWriterProxy proxy => (r.addWriterProxy proxy.1, ⟨[], none⟩)
  | .removeWriterProxy guid => (r.removeWriterProxy guid, ⟨[], none⟩)
  | .departWriterProxy guid => (r.departWriterProxy guid, ⟨[], none⟩)
  | .acceptForwarded original sn =>
    ((r.acceptForwarded original sn).1,
      ⟨[], if (r.acceptForwarded original sn).2 then some (original, sn) else none⟩)

/-! ### A call up to the commit -/

def states : List WriterProxyState := r.writerProxies ++ r.departed

def silent : List (List DeliveredSample) := r.states.map fun _ => []

def receiveAt (idx : Nat) (f : Delivery → Delivery × Option ReaderCounter) :
    ReliableReader × List (List DeliveredSample) :=
  match r.writerProxies[idx]? with
  | none => (r, r.silent)
  | some s =>
    let (d, counter) := f ⟨s, r.releaseBudget, []⟩
    ({ r with
        writerProxies := r.writerProxies.set idx d.state
        releaseBudget := d.budget }.bump counter, r.silent.set idx d.out)

def collectEach (bestEffort : Bool) :
    List WriterProxyState → Option Nat → List Delivery
  | [], _ => []
  | s :: rest, budget =>
    let d := Delivery.collectInOrder bestEffort ⟨s, budget, []⟩
    d :: collectEach bestEffort rest d.budget

/-- A call up to the point where the samples it released are committed: the reader
then, and what each of the states released. -/
def receive (op : ReaderOp) : ReliableReader × List (List DeliveredSample) :=
  match op with
  | .data p d ts opener =>
    match r.proxyIndexByWriter ⟨p, d.writerId⟩ with
    | none => (r.rememberUnmatched ⟨p, d.writerId⟩ d.writerSn, r.silent)
    | some idx => r.receiveAt idx fun dl => dl.receiveData r.guid r.bestEffort opener d ts
  | .dataFrag p df ts opener =>
    match r.proxyIndexByWriter ⟨p, df.writerId⟩ with
    | none => (r.rememberUnmatched ⟨p, df.writerId⟩ df.writerSn, r.silent)
    | some idx => r.receiveAt idx fun dl => dl.receiveDataFrag r.guid r.bestEffort opener df ts
  | .heartbeat p hb now =>
    match r.proxyIndexByWriter ⟨p, hb.writerId⟩ with
    | none =>
      (if hb.livelinessFlag then r.noteUnknownSrc
        else r.rememberUnmatched ⟨p, hb.writerId⟩ hb.lastSn, r.silent)
    | some idx =>
      if r.writerProxies[idx]?.any fun s => r.suppresses s now then (r, r.silent)
      else r.receiveAt idx fun dl => (dl.receiveHeartbeat r.bestEffort hb now, none)
  | .gap p gap =>
    match r.proxyIndexByWriter ⟨p, gap.writerId⟩ with
    | none => (r.noteUnknownSrc, r.silent)
    | some idx => r.receiveAt idx fun dl => (dl.receiveGap r.bestEffort gap, none)
  | .releaseHeld =>
    let ds := collectEach r.bestEffort r.states r.releaseBudget
    ({ r with
        writerProxies := (ds.take r.writerProxies.length).map Delivery.state
        departed := (ds.drop r.writerProxies.length).map Delivery.state
        releaseBudget := (ds.getLast?.map Delivery.budget).getD r.releaseBudget },
      ds.map Delivery.out)
  | op => ((r.step op).1, r.silent)

def finish : ReaderOp → ReliableReader
  | .releaseHeld => r.drainDeparted
  | _ => r

/-! ### The call is the receive and the commit -/

def budgetAfter (ds : List Delivery) (budget : Option Nat) : Option Nat :=
  (ds.getLast?.map Delivery.budget).getD budget

theorem budgetAfter_cons (d : Delivery) (ds : List Delivery) (budget : Option Nat) :
    budgetAfter (d :: ds) budget = budgetAfter ds d.budget := by
  cases ds with
  | nil => rfl
  | cons e ds =>
    rfl

theorem budgetAfter_append (ds es : List Delivery) (budget : Option Nat) :
    budgetAfter (ds ++ es) budget = budgetAfter es (budgetAfter ds budget) := by
  induction ds generalizing budget with
  | nil => rfl
  | cons d ds ih => rw [List.cons_append, budgetAfter_cons, budgetAfter_cons, ih]

variable (be : Bool) (ss : List WriterProxyState)

theorem collectStates_eq (budget : Option Nat) :
    collectStates be ss budget =
      ((collectEach be ss budget).map Delivery.state,
        budgetAfter (collectEach be ss budget) budget,
        (collectEach be ss budget).flatMap Delivery.out) := by
  induction ss generalizing budget with
  | nil => rfl
  | cons s ss ih => simp [collectStates, collectEach, ih, budgetAfter_cons]

theorem length_collectEach (budget : Option Nat) :
    (collectEach be ss budget).length = ss.length := by
  induction ss generalizing budget with
  | nil => rfl
  | cons s ss ih => simp [collectEach, ih]

theorem collectEach_append (ts : List WriterProxyState) (budget : Option Nat) :
    collectEach be (ss ++ ts) budget =
      collectEach be ss budget ++
        collectEach be ts (budgetAfter (collectEach be ss budget) budget) := by
  induction ss generalizing budget with
  | nil => rfl
  | cons s ss ih =>
    simp [collectEach, ih, budgetAfter_cons]

theorem flatten_silent : r.silent.flatten = [] := by
  simp [silent]

variable {r : ReliableReader} {idx : Nat}

theorem flatten_silent_set (h : idx < r.states.length) (out : List DeliveredSample) :
    (r.silent.set idx out).flatten = out := by
  have hset : ∀ (l : List WriterProxyState) (k : Nat), k < l.length →
      ((l.map fun _ => ([] : List DeliveredSample)).set k out).flatten = out := by
    intro l
    induction l with
    | nil => simp
    | cons s l ih =>
      intro k hk
      cases k with
      | zero => simp
      | succ k => simpa using ih k (by simpa using hk)
  exact hset r.states idx h

theorem deliverAt_eq (r : ReliableReader) (idx : Nat)
    (f : Delivery → Delivery × Option ReaderCounter) :
    r.deliverAt idx f =
      (r.receiveAt idx f).1.commitReleased (r.receiveAt idx f).2.flatten := by
  unfold deliverAt receiveAt
  cases hget : r.writerProxies[idx]? with
  | none => simp [flatten_silent, commitReleased]
  | some s =>
    have hlt : idx < r.states.length := by
      have := (List.getElem?_eq_some_iff.mp hget).1
      simp only [states, List.length_append]
      omega
    rw [flatten_silent_set hlt]

theorem step_eq_receive (r : ReliableReader) (op : ReaderOp) :
    (r.step op).1 =
        ((r.receive op).1.commitReleased (r.receive op).2.flatten).1.finish op ∧
      (r.step op).2.delivered = ((r.receive op).1.commitReleased (r.receive op).2.flatten).2 := by
  have hidle : ∀ r' : ReliableReader, r'.commitReleased r.silent.flatten = (r', []) := by
    intro r'
    rw [flatten_silent]
    rfl
  cases op with
  | data p d ts opener =>
    simp only [step, handleData, receive, finish]
    cases r.proxyIndexByWriter ⟨p, d.writerId⟩ with
    | none => simp [hidle]
    | some idx => simp [deliverAt_eq]
  | dataFrag p df ts opener =>
    simp only [step, handleDataFrag, receive, finish]
    cases r.proxyIndexByWriter ⟨p, df.writerId⟩ with
    | none => simp [hidle]
    | some idx => simp [deliverAt_eq]
  | heartbeat p hb now =>
    simp only [step, handleHeartbeat, receive, finish]
    cases r.proxyIndexByWriter ⟨p, hb.writerId⟩ with
    | none =>
      simp only [hidle]
      split <;> exact ⟨rfl, rfl⟩
    | some idx =>
      simp only
      split
      · simp [hidle]
      · simp [deliverAt_eq]
  | gap p gap =>
    simp only [step, handleGap, receive, finish]
    cases r.proxyIndexByWriter ⟨p, gap.writerId⟩ with
    | none => simp [hidle]
    | some idx => simp [deliverAt_eq]
  | releaseHeld =>
    have hlen := length_collectEach r.bestEffort r.writerProxies r.releaseBudget
    have hbudget : budgetAfter (collectEach r.bestEffort r.states r.releaseBudget)
        r.releaseBudget =
        budgetAfter (collectEach r.bestEffort r.departed
          (budgetAfter (collectEach r.bestEffort r.writerProxies r.releaseBudget)
            r.releaseBudget))
          (budgetAfter (collectEach r.bestEffort r.writerProxies r.releaseBudget)
            r.releaseBudget) := by
      rw [states, collectEach_append, budgetAfter_append]
    have hr : (r.receive .releaseHeld).1 = { r with
        writerProxies := (collectEach r.bestEffort r.writerProxies r.releaseBudget).map
          Delivery.state
        departed := (collectEach r.bestEffort r.departed
          (budgetAfter (collectEach r.bestEffort r.writerProxies r.releaseBudget)
            r.releaseBudget)).map Delivery.state
        releaseBudget := budgetAfter (collectEach r.bestEffort r.states r.releaseBudget)
          r.releaseBudget } := by
      simp only [receive, states, collectEach_append, ← hlen, List.take_left, List.drop_left]
      rfl
    have hout : (r.receive .releaseHeld).2.flatten =
        (collectEach r.bestEffort r.writerProxies r.releaseBudget).flatMap Delivery.out ++
          (collectEach r.bestEffort r.departed
            (budgetAfter (collectEach r.bestEffort r.writerProxies r.releaseBudget)
              r.releaseBudget)).flatMap Delivery.out := by
      simp [receive, states, collectEach_append, List.flatMap_def]
    rw [hr, hout, hbudget]
    simp only [step, releaseHeld, collectStates_eq, finish]
    exact ⟨trivial, trivial⟩
  | _ => simp [receive, finish, hidle, step]

/-! ### What the states do -/

structure Moves (be : Bool) (s : WriterProxyState) (i : Intake) (hs : List HandOut)
    (out : List DeliveredSample) (s' : WriterProxyState) : Prop where
  call : Stream.Call be False s.stream i hs s'.stream
  shape : s'.Shape
  same : WriterProxyState.SameWriter s s'
  deliveries : out = hs.flatMap (HandOut.deliveries s.proxy.remoteWriterGuid)

variable {s : WriterProxyState}

theorem Moves.still {be : Bool} {s' : WriterProxyState} (hshape : s'.Shape)
    (hstream : s'.stream = s.stream) (hsame : WriterProxyState.SameWriter s s') :
    Moves be s .nothing [] [] s' where
  call := ⟨trivial, ⟨[], hstream ▸ .done _, rfl⟩, hstream ▸ id⟩
  shape := hshape
  same := hsame
  deliveries := rfl

variable {hs : List HandOut}

theorem Moves.of_called {be : Bool} {budget : Option Nat} {i : Intake} {d : Delivery}
    (h : Delivery.Called be False ⟨s, budget, []⟩ i hs d) : Moves be s i hs d.out d.state :=
  ⟨h.call, h.shape, h.same, by simpa using h.deliveries⟩

structure Received (r : ReliableReader) (op : ReaderOp) (r₁ : ReliableReader)
    (outs : List (List DeliveredSample)) : Prop where
  proxies : r₁.writerProxies.length = r.writerProxies.length
  departed : r₁.departed.length = r.departed.length
  length : outs.length = r.states.length
  moves : ∀ k s, r.states[k]? = some s → ∃ i hs out s', r₁.states[k]? = some s' ∧
    outs[k]? = some out ∧ Moves r.bestEffort s i hs out s' ∧
    (k < r.writerProxies.length → op.Admits r.guid s i) ∧
    (r.writerProxies.length ≤ k → i = .nothing)
  forwarded : r₁.forwardedWithoutProxy = r.forwardedWithoutProxy
  ended : r₁.endedWriters = r.endedWriters

structure SameMemory (r r₁ : ReliableReader) : Prop where
  forwarded : r₁.forwardedWithoutProxy = r.forwardedWithoutProxy
  ended : r₁.endedWriters = r.endedWriters

variable {k : Nat} {op : ReaderOp}

theorem getElem?_states_lt (h : k < r.writerProxies.length) :
    r.states[k]? = r.writerProxies[k]? := List.getElem?_append_left h

theorem getElem?_states_ge (h : r.writerProxies.length ≤ k) :
    r.states[k]? = r.departed[k - r.writerProxies.length]? := List.getElem?_append_right h

theorem getElem?_silent (r : ReliableReader) (h : r.states[k]? = some s) :
    r.silent[k]? = some [] := by
  rw [silent, List.getElem?_map, h]
  rfl

variable {r₁ : ReliableReader} {f : Delivery → Delivery × Option ReaderCounter}

theorem received_still (hidle : ∀ s ∈ r.writerProxies, op.named r.guid s = [])
    (hproxies : List.Forall₂ (fun s s' => s'.Shape ∧ s'.stream = s.stream ∧
      WriterProxyState.SameWriter s s') r.writerProxies r₁.writerProxies)
    (hdeparted : r₁.departed = r.departed) (hshape : ∀ s ∈ r.departed, s.Shape)
    (hmemory : SameMemory r r₁) : Received r op r₁ r.silent where
  proxies := hproxies.length_eq.symm
  departed := by rw [hdeparted]
  length := by simp [silent]
  moves := fun k s hget => by
    rcases lt_or_ge k r.writerProxies.length with hlt | hge
    · have hlt' : k < r₁.writerProxies.length := hproxies.length_eq ▸ hlt
      have hget' : r.writerProxies[k]? = some s := getElem?_states_lt hlt ▸ hget
      obtain ⟨_, hs⟩ := List.getElem?_eq_some_iff.mp hget'
      obtain ⟨hsh, hstream, hsame⟩ := hproxies.get hlt hlt'
      refine ⟨.nothing, [], [], r₁.writerProxies[k], ?_, r.getElem?_silent hget,
        Moves.still hsh (by simpa [hs] using hstream) (by simpa [hs] using hsame),
        fun _ => .nothing (hidle s (List.mem_of_getElem? hget')), fun hge => by omega⟩
      rw [getElem?_states_lt hlt', List.getElem?_eq_getElem hlt']
    · have hget' : r.departed[k - r.writerProxies.length]? = some s :=
        getElem?_states_ge hge ▸ hget
      refine ⟨.nothing, [], [], s, ?_, r.getElem?_silent hget,
        Moves.still (hshape s (List.mem_of_getElem? hget')) rfl (.refl s), fun hlt => by omega,
        fun _ => rfl⟩
      rw [getElem?_states_ge (by rw [← hproxies.length_eq]; exact hge), ← hproxies.length_eq,
        hdeparted]
      exact hget'
  forwarded := hmemory.forwarded
  ended := hmemory.ended

theorem received_same (hidle : ∀ s ∈ r.writerProxies, op.named r.guid s = [])
    (hshape : ∀ s ∈ r.states, s.Shape) (hproxies : r₁.writerProxies = r.writerProxies)
    (hdeparted : r₁.departed = r.departed) (hmemory : SameMemory r r₁) :
    Received r op r₁ r.silent := by
  refine received_still hidle ?_ hdeparted (fun s hs => hshape s (List.mem_append_right _ hs))
    hmemory
  rw [hproxies]
  exact List.forall₂_same.mpr fun s hs =>
    ⟨hshape s (List.mem_append_left _ hs), rfl, .refl s⟩

theorem bump_frame (r : ReliableReader) (counter : Option ReaderCounter) :
    (r.bump counter).writerProxies = r.writerProxies ∧ (r.bump counter).departed = r.departed ∧
      SameMemory r (r.bump counter) := by
  cases counter with
  | none => exact ⟨rfl, rfl, rfl, rfl⟩
  | some k => cases k <;> exact ⟨rfl, rfl, rfl, rfl⟩

theorem received_at (hget : r.writerProxies[idx]? = some s) (hshape : ∀ s ∈ r.states, s.Shape)
    (hothers : ∀ k s', r.writerProxies[k]? = some s' → k ≠ idx → op.named r.guid s' = [])
    (hf : ∃ i hs, op.Admits r.guid s i ∧ Delivery.Called r.bestEffort False
      ⟨s, r.releaseBudget, []⟩ i hs (f ⟨s, r.releaseBudget, []⟩).1) :
    Received r op (r.receiveAt idx f).1 (r.receiveAt idx f).2 := by
  obtain ⟨i, hs, hadmits, hcalled⟩ := hf
  have hlt := (List.getElem?_eq_some_iff.mp hget).1
  simp only [receiveAt, hget]
  generalize f ⟨s, r.releaseBudget, []⟩ = res at hcalled
  obtain ⟨d, counter⟩ := res
  obtain ⟨hp, hd, hmemory⟩ := bump_frame
    { r with writerProxies := r.writerProxies.set idx d.state, releaseBudget := d.budget } counter
  refine ⟨by rw [hp, List.length_set], by rw [hd], by simp [silent], fun k t hk => ?_,
    hmemory.forwarded, hmemory.ended⟩
  have hstates : (bump { r with
      writerProxies := r.writerProxies.set idx d.state
      releaseBudget := d.budget } counter).states = r.states.set idx d.state := by
    rw [states, hp, hd, states, List.set_append_left _ _ hlt]
  rw [hstates, List.getElem?_set, List.getElem?_set]
  by_cases hkidx : k = idx
  · subst hkidx
    obtain rfl : s = t := by
      rw [getElem?_states_lt hlt, hget] at hk
      exact Option.some.inj hk
    have hlt' : k < r.states.length := by simp only [states, List.length_append]; omega
    exact ⟨i, hs, d.out, d.state, by simp [hlt'], by simp [silent, hlt'], .of_called hcalled,
      fun _ => hadmits, fun hge => by omega⟩
  · refine ⟨.nothing, [], [], t, by simp [Ne.symm hkidx, hk], ?_,
      Moves.still (hshape t (List.mem_of_getElem? hk)) rfl (.refl t), fun hlt' => ?_, fun _ => rfl⟩
    · simpa [Ne.symm hkidx] using r.getElem?_silent hk
    · exact .nothing (hothers k t (getElem?_states_lt hlt' ▸ hk) hkidx)

def OneEach (r : ReliableReader) : Prop :=
  (r.writerProxies.map fun s => s.proxy.remoteWriterGuid).Nodup

variable {g : Guid}

theorem proxyIndexByWriter_some (h : r.proxyIndexByWriter g = some idx) :
    ∃ s, r.writerProxies[idx]? = some s ∧ s.proxy.remoteWriterGuid = g := by
  obtain ⟨hlt, hp, -⟩ := List.findIdx?_eq_some_iff_getElem.mp h
  exact ⟨_, List.getElem?_eq_getElem hlt, by simpa using hp⟩

theorem proxyIndexByWriter_none (h : r.proxyIndexByWriter g = none) :
    ∀ s ∈ r.writerProxies, s.proxy.remoteWriterGuid ≠ g := by
  intro s hs
  simpa using List.findIdx?_eq_none_iff.mp h s hs

theorem OneEach.ne (h : r.OneEach) {j : Nat} {t : WriterProxyState}
    (hs : r.writerProxies[j]? = some s) (ht : r.writerProxies[k]? = some t) (hne : k ≠ j) :
    t.proxy.remoteWriterGuid ≠ s.proxy.remoteWriterGuid := by
  intro heq
  obtain ⟨hj, rfl⟩ := List.getElem?_eq_some_iff.mp hs
  obtain ⟨hk, rfl⟩ := List.getElem?_eq_some_iff.mp ht
  have hj' : j < (r.writerProxies.map fun s => s.proxy.remoteWriterGuid).length := by
    simpa using hj
  have hk' : k < (r.writerProxies.map fun s => s.proxy.remoteWriterGuid).length := by
    simpa using hk
  refine hne ((List.Nodup.getElem_inj_iff h).mp (show
    (r.writerProxies.map fun s => s.proxy.remoteWriterGuid)[k] =
      (r.writerProxies.map fun s => s.proxy.remoteWriterGuid)[j] from ?_))
  simpa using heq

theorem rememberUnmatched_frame (r : ReliableReader) (guid : Guid) (sn : Int) :
    (r.rememberUnmatched guid sn).writerProxies = r.writerProxies ∧
      (r.rememberUnmatched guid sn).departed = r.departed ∧
      SameMemory r (r.rememberUnmatched guid sn) := by
  unfold rememberUnmatched
  simp only
  split
  · exact ⟨rfl, rfl, rfl, rfl⟩
  · split <;> exact ⟨rfl, rfl, rfl, rfl⟩

theorem tickFrom_frame (now : Nat) (left idx : Nat) (r : ReliableReader) :
    ∃ ps a n, (tickFrom now left idx r).1 =
        { r with writerProxies := ps, acknackCount := a, nackfragCount := n } ∧
      List.Forall₂ (fun s s' => ∃ p, s' = { s with pendingAcknackSince := p })
        r.writerProxies ps := by
  have hself : ∀ ss : List WriterProxyState, List.Forall₂
      (fun s s' => ∃ p, s' = { s with pendingAcknackSince := p }) ss ss := fun ss =>
    List.forall₂_same.mpr fun s _ => ⟨s.pendingAcknackSince, rfl⟩
  induction left generalizing idx r with
  | zero => exact ⟨_, _, _, rfl, hself _⟩
  | succ left ih =>
    unfold tickFrom
    cases hget : r.writerProxies[idx]? with
    | none => exact ⟨_, _, _, rfl, hself _⟩
    | some s =>
      simp only
      split
      · obtain ⟨a, n, hframe⟩ := r.respond_frame idx s
        have hset : List.Forall₂ (fun s s' => ∃ p, s' = { s with pendingAcknackSince := p })
            r.writerProxies (r.writerProxies.set idx { s with pendingAcknackSince := none }) := by
          refine List.forall₂_iff_get.mpr ⟨by simp, fun k hk hk' => ?_⟩
          simp only [List.get_eq_getElem, List.getElem_set]
          split
          · next hidx =>
            subst hidx
            obtain ⟨_, rfl⟩ := List.getElem?_eq_some_iff.mp hget
            exact ⟨none, rfl⟩
          · exact ⟨_, rfl⟩
        rcases hrespond : r.respond idx s with ⟨r', e | ds⟩
        · rw [hrespond] at hframe
          exact ⟨_, a, n, hframe, hset⟩
        · obtain ⟨ps, a', n', hnext, hps⟩ := ih (idx + 1) r'
          rw [hrespond] at hframe
          simp only at hframe ⊢
          have hall : List.Forall₂ (fun s s' => ∃ p, s' = { s with pendingAcknackSince := p })
              r.writerProxies ps := by
            rw [hframe] at hps
            refine List.forall₂_iff_get.mpr ⟨hset.length_eq.trans hps.length_eq,
              fun k hk hk' => ?_⟩
            obtain ⟨p, hp⟩ := hset.get hk (hset.length_eq ▸ hk)
            obtain ⟨p', hp'⟩ := hps.get (hset.length_eq ▸ hk) hk'
            exact ⟨p', by rw [hp', hp]⟩
          rcases htick : tickFrom now left (idx + 1) r' with ⟨r'', e | rest⟩ <;>
            rw [htick] at hnext <;> simp only at hnext ⊢ <;>
            exact ⟨ps, a', n', by rw [hnext, hframe], hall⟩
      · exact ih (idx + 1) r

theorem tickOutbound_frame (r : ReliableReader) (now : Nat) :
    ∃ ps a n, (r.tickOutbound now).1 =
        { r with writerProxies := ps, acknackCount := a, nackfragCount := n } ∧
      List.Forall₂ (fun s s' => ∃ p, s' = { s with pendingAcknackSince := p })
        r.writerProxies ps := by
  unfold tickOutbound
  split
  · refine ⟨_, _, _, rfl, List.forall₂_map_right_iff.mpr (List.forall₂_same.mpr fun s _ => ?_)⟩
    exact ⟨none, rfl⟩
  · exact tickFrom_frame now _ 0 r

section

variable (hshape : ∀ s ∈ r.states, s.Shape)
include hshape

theorem received_message (hone : r.OneEach) (source : Guid)
    (hnamed : ∀ s : WriterProxyState, s.proxy.remoteWriterGuid ≠ source → op.named r.guid s = [])
    {other : ReliableReader}
    (hother : other.writerProxies = r.writerProxies ∧ other.departed = r.departed ∧
      SameMemory r other) (hf : ∀ s, s.Shape → s.proxy.remoteWriterGuid = source →
      ∃ i hs, op.Admits r.guid s i ∧ Delivery.Called r.bestEffort False
        ⟨s, r.releaseBudget, []⟩ i hs (f ⟨s, r.releaseBudget, []⟩).1) :
    let res := match r.proxyIndexByWriter source with
      | none => (other, r.silent)
      | some idx => r.receiveAt idx f
    Received r op res.1 res.2 := by
  cases hidx : r.proxyIndexByWriter source with
  | none =>
    exact received_same (fun s hs => hnamed s (proxyIndexByWriter_none hidx s hs)) hshape
      hother.1 hother.2.1 hother.2.2
  | some idx =>
    obtain ⟨s, hget, hguid⟩ := proxyIndexByWriter_some hidx
    refine received_at hget hshape (fun k t ht hne => hnamed t ?_)
      (hf s (hshape s (List.mem_append_left _ (List.mem_of_getElem? hget))) hguid)
    exact hguid ▸ hone.ne hget ht hne

theorem received_releaseHeld :
    Received r .releaseHeld (r.receive .releaseHeld).1 (r.receive .releaseHeld).2 := by
  have hlen := length_collectEach r.bestEffort r.states r.releaseBudget
  have hcalled : ∀ (ss : List WriterProxyState) (budget : Option Nat) (k : Nat)
      (s : WriterProxyState), (∀ s ∈ ss, s.Shape) → ss[k]? = some s →
      ∃ hs d, (collectEach r.bestEffort ss budget)[k]? = some d ∧
        Moves r.bestEffort s .nothing hs d.out d.state := by
    intro ss
    induction ss with
    | nil => simp
    | cons t ss ih =>
      intro budget k s hsh hget
      cases k with
      | zero =>
        obtain rfl : t = s := by simpa using hget
        obtain ⟨hs, hc⟩ : ∃ hs, Delivery.Called r.bestEffort False ⟨t, budget, []⟩ .nothing hs
            (Delivery.collectInOrder r.bestEffort ⟨t, budget, []⟩) :=
          Delivery.called_collect False.elim trivial rfl (hsh t List.mem_cons_self) (.refl t)
            (by simp [Stream.takeOut]) id
        exact ⟨hs, _, rfl, .of_called hc⟩
      | succ k =>
        exact ih _ k s (fun s hs => hsh s (List.mem_cons_of_mem _ hs)) (by simpa using hget)
  have hstates : (r.receive .releaseHeld).1.states =
      (collectEach r.bestEffort r.states r.releaseBudget).map Delivery.state := by
    simp [states, receive]
  have hle : r.writerProxies.length ≤ r.states.length := by simp [states]
  refine ⟨?_, ?_, ?_, fun k s hget => ?_, rfl, rfl⟩
  · simp only [receive, List.length_map, List.length_take, hlen]
    omega
  · simp only [receive, List.length_map, List.length_drop, hlen]
    simp [states]
  · simp [receive, hlen]
  · obtain ⟨hs, d, hd, hmoves⟩ := hcalled r.states r.releaseBudget k s hshape hget
    refine ⟨.nothing, hs, d.out, d.state, ?_, ?_, hmoves, fun _ => .nothing rfl, fun _ => rfl⟩
    · rw [hstates, List.getElem?_map, hd]
      rfl
    · simp only [receive, List.getElem?_map, hd]
      rfl

theorem received_modify (hidle : ∀ s ∈ r.writerProxies, op.named r.guid s = []) (g : Guid)
    {f : WriterProxyState → WriterProxyState}
    (hf : ∀ s, s.Shape → (f s).Shape ∧ (f s).stream = s.stream ∧
      WriterProxyState.SameWriter s (f s)) :
    Received r op
      (match r.proxyIndexByWriter g with
      | none => r
      | some idx => { r with writerProxies := r.writerProxies.modify idx f }) r.silent := by
  cases r.proxyIndexByWriter g with
  | none => exact received_same hidle hshape rfl rfl ⟨rfl, rfl⟩
  | some idx =>
    refine received_still hidle ?_ rfl (fun s hs => hshape s (List.mem_append_right _ hs))
      ⟨rfl, rfl⟩
    refine List.forall₂_iff_get.mpr ⟨by simp, fun k hk hk' => ?_⟩
    have hsh := hshape r.writerProxies[k] (List.mem_append_left _ (List.getElem_mem hk))
    simp only [List.get_eq_getElem, List.getElem_modify]
    split
    · exact hf _ hsh
    · exact ⟨hsh, rfl, .refl _⟩

theorem receive_received (hone : r.OneEach) (op : ReaderOp) :
    Received r op (r.receive op).1 (r.receive op).2 := by
  have hdep : ∀ s ∈ r.departed, s.Shape := fun s hs => hshape s (List.mem_append_right _ hs)
  cases op with
  | data p d ts opener =>
    refine received_message hshape hone ⟨p, d.writerId⟩
      (fun s hne => by simp [ReaderOp.named, ReaderOp.arrival, hne])
      (rememberUnmatched_frame r _ _) fun s hsh hmatch => ?_
    obtain ⟨i, hs, hbrings, hcalled⟩ := Delivery.receiveData_called r.bestEffort (u := False)
      (d := ⟨s, r.releaseBudget, []⟩) hsh False.elim r.guid opener d ts
    refine ⟨i, hs, .arrival (by simp) ?_, hcalled⟩
    simpa [ReaderOp.arrival, ReaderOp.writerSn, hmatch] using hbrings
  | dataFrag p df ts opener =>
    refine received_message hshape hone ⟨p, df.writerId⟩
      (fun s hne => by simp [ReaderOp.named, ReaderOp.arrival, hne])
      (rememberUnmatched_frame r _ _) fun s hsh hmatch => ?_
    obtain ⟨i, hs, hbrings, hcalled⟩ := Delivery.receiveDataFrag_called r.bestEffort (u := False)
      (d := ⟨s, r.releaseBudget, []⟩) hsh False.elim r.guid opener df ts
    refine ⟨i, hs, .arrival (by simp) ?_, hcalled⟩
    simpa [ReaderOp.arrival, ReaderOp.writerSn, hmatch] using hbrings
  | heartbeat p hb now =>
    have hidle : ∀ s ∈ r.writerProxies, (ReaderOp.heartbeat p hb now).named r.guid s = [] :=
      fun _ _ => rfl
    by_cases hsup : ∃ idx, r.proxyIndexByWriter ⟨p, hb.writerId⟩ = some idx ∧
        (r.writerProxies[idx]?.any fun s => r.suppresses s now) = true
    · obtain ⟨idx, hidx, hany⟩ := hsup
      simp only [receive, hidx, hany, if_true]
      exact received_same hidle hshape rfl rfl ⟨rfl, rfl⟩
    · have heq : r.receive (.heartbeat p hb now) =
          match r.proxyIndexByWriter ⟨p, hb.writerId⟩ with
          | none => (if hb.livelinessFlag then r.noteUnknownSrc
              else r.rememberUnmatched ⟨p, hb.writerId⟩ hb.lastSn, r.silent)
          | some idx => r.receiveAt idx fun dl =>
              (dl.receiveHeartbeat r.bestEffort hb now, none) := by
        simp only [receive]
        cases hidx : r.proxyIndexByWriter ⟨p, hb.writerId⟩ with
        | none => rfl
        | some idx => exact if_neg fun hany => hsup ⟨idx, hidx, hany⟩
      rw [heq]
      refine received_message hshape hone ⟨p, hb.writerId⟩ (fun _ _ => rfl) ?_
        fun s hsh hmatch => ?_
      · split
        · exact ⟨rfl, rfl, rfl, rfl⟩
        · exact rememberUnmatched_frame r _ _
      · obtain ⟨hs, hcalled⟩ := Delivery.receiveHeartbeat_called r.bestEffort (u := False)
          (d := ⟨s, r.releaseBudget, []⟩) hsh False.elim hb now
        exact ⟨_, hs, .heartbeat now hmatch, hcalled⟩
  | gap p gap =>
    refine received_message hshape hone ⟨p, gap.writerId⟩
      (fun s hne => by simp [ReaderOp.named, hne]) ⟨rfl, rfl, rfl, rfl⟩ fun s hsh hmatch => ?_
    obtain ⟨hs, hcalled⟩ := Delivery.receiveGap_called r.bestEffort (u := False)
      (d := ⟨s, r.releaseBudget, []⟩) hsh False.elim gap
    exact ⟨_, hs, .gap hmatch, hcalled⟩
  | heartbeatFrag p hbf now =>
    have hidle : ∀ s ∈ r.writerProxies, (ReaderOp.heartbeatFrag p hbf now).named r.guid s = [] :=
      fun _ _ => rfl
    have hself : Received r (.heartbeatFrag p hbf now) r r.silent :=
      received_same hidle hshape rfl rfl ⟨rfl, rfl⟩
    simp only [receive, step, handleHeartbeatFrag]
    cases hidx : r.proxyIndexByWriter ⟨p, hbf.writerId⟩ with
    | none => exact received_same hidle hshape rfl rfl ⟨rfl, rfl⟩
    | some idx =>
      obtain ⟨s, hget, -⟩ := proxyIndexByWriter_some hidx
      have hsh := hshape s (List.mem_append_left _ (List.mem_of_getElem? hget))
      simp only [hget]
      split
      · exact hself
      · split
        · refine received_still hidle ?_ rfl hdep ⟨rfl, rfl⟩
          refine List.forall₂_iff_get.mpr ⟨by simp, fun k hk hk' => ?_⟩
          have hk_sh := hshape r.writerProxies[k] (List.mem_append_left _ (List.getElem_mem hk))
          simp only [List.get_eq_getElem, List.getElem_set]
          split
          · next hidx =>
            subst hidx
            obtain ⟨_, rfl⟩ := List.getElem?_eq_some_iff.mp hget
            exact ⟨⟨hsh.absorbed, hsh.cache⟩, rfl, rfl, rfl⟩
          · exact ⟨hk_sh, rfl, .refl _⟩
        · exact hself
  | setBestEffort b => exact received_same (fun _ _ => rfl) hshape rfl rfl ⟨rfl, rfl⟩
  | setReleaseBudget b => exact received_same (fun _ _ => rfl) hshape rfl rfl ⟨rfl, rfl⟩
  | setHeartbeatSuppressionDuration d =>
    exact received_same (fun _ _ => rfl) hshape rfl rfl ⟨rfl, rfl⟩
  | setMaxSamplesPerProxy m =>
    refine received_still (fun _ _ => rfl) ?_ rfl hdep ⟨rfl, rfl⟩
    refine List.forall₂_map_right_iff.mpr (List.forall₂_same.mpr fun s hs => ?_)
    have hsh := hshape s (List.mem_append_left _ hs)
    exact ⟨⟨hsh.absorbed, hsh.cache.kind, hsh.cache.depth, hsh.cache.keyed⟩, rfl, rfl, rfl⟩
  | setForwarderTrusted g trusted =>
    exact received_modify hshape (fun _ _ => rfl) g
      fun s hsh => ⟨⟨hsh.absorbed, hsh.cache⟩, rfl, rfl, rfl⟩
  | setWriterDataMaxSize g max =>
    exact received_modify hshape (fun _ _ => rfl) g
      fun s hsh => ⟨⟨hsh.absorbed, hsh.cache⟩, rfl, rfl, rfl⟩
  | releaseHeld => exact received_releaseHeld hshape
  | tickOutbound now =>
    obtain ⟨ps, a, n, heq, hps⟩ := r.tickOutbound_frame now
    have heq : (r.receive (.tickOutbound now)).1 = _ := heq
    rw [heq]
    refine received_still (fun _ _ => rfl) ?_ rfl hdep ⟨rfl, rfl⟩
    refine List.forall₂_iff_get.mpr ⟨hps.length_eq, fun k hk hk' => ?_⟩
    have hsh := hshape r.writerProxies[k] (List.mem_append_left _ (List.getElem_mem hk))
    obtain ⟨p, hp⟩ := hps.get hk hk'
    rw [hp]
    exact ⟨⟨hsh.absorbed, hsh.cache⟩, rfl, rfl, rfl⟩

end

/-! ### What matching and unmatching leaves -/

theorem deliveries_direct {x : DeliveredSample} (h : x ∈ hs.flatMap (HandOut.deliveries g)) :
    x.writerGuid = g ∧ x.forwardedBy = none := by
  obtain ⟨y, -, hx⟩ := List.mem_flatMap.mp h
  unfold HandOut.deliveries at hx
  split at hx
  · obtain rfl := List.mem_singleton.mp hx
    exact ⟨rfl, rfl⟩
  · split at hx
    · rcases List.mem_pair.mp hx with rfl | rfl <;> exact ⟨rfl, rfl⟩
    · obtain rfl := List.mem_singleton.mp hx
      exact ⟨rfl, rfl⟩

theorem drainDeparted_frame (r : ReliableReader) :
    r.drainDeparted.writerProxies = r.writerProxies ∧
      r.drainDeparted.departed = (r.departed.filter fun s => !s.receivedCache.isEmpty) ∧
      r.drainDeparted.forwardedWithoutProxy = r.forwardedWithoutProxy := by
  have hfold : ∀ (drained : List Guid) (r : ReliableReader),
      (drained.foldl (fun r guid =>
        { r with departedDone := r.departedDone ++ [guid] }.noteEnded guid) r).writerProxies =
          r.writerProxies ∧
      (drained.foldl (fun r guid =>
        { r with departedDone := r.departedDone ++ [guid] }.noteEnded guid) r).departed =
          r.departed ∧
      (drained.foldl (fun r guid =>
        { r with departedDone := r.departedDone ++ [guid] }.noteEnded guid)
          r).forwardedWithoutProxy = r.forwardedWithoutProxy := by
    intro drained
    induction drained with
    | nil => exact fun r => ⟨rfl, rfl, rfl⟩
    | cons g drained ih => exact fun r => ih _
  exact hfold _ _

theorem newState_eq (r : ReliableReader) (proxy : WriterProxy) :
    ∃ proxy' committed, r.newState proxy =
        { WriterProxyState.new proxy' r.maxSamplesPerProxy r.assemblerCaps with
          committed := committed, pendingAcknackSince := some 0 } ∧
      (proxy' = proxy ∨
        ∃ last, proxy' = (proxy.updateFromHeartbeat proxy.firstAvailableSn last).1) ∧
      (committed = SnRanges.empty ∨
        ∃ e ∈ r.forwardedWithoutProxy, e.1 = proxy.remoteWriterGuid ∧
          proxy.remoteWriterGuid ∉ r.endedWriters ∧ committed = e.2) := by
  have hannounced : ∃ proxy', (proxy' = proxy ∨
        ∃ last, proxy' = (proxy.updateFromHeartbeat proxy.firstAvailableSn last).1) ∧
      (match r.unmatchedHighest.find? fun e => decide (e.1 = proxy.remoteWriterGuid) with
      | some e => { WriterProxyState.new proxy r.maxSamplesPerProxy r.assemblerCaps with
          proxy := (proxy.updateFromHeartbeat proxy.firstAvailableSn e.2).1 }
      | none => WriterProxyState.new proxy r.maxSamplesPerProxy r.assemblerCaps) =
      WriterProxyState.new proxy' r.maxSamplesPerProxy r.assemblerCaps := by
    cases r.unmatchedHighest.find? fun e => decide (e.1 = proxy.remoteWriterGuid) with
    | none => exact ⟨proxy, .inl rfl, rfl⟩
    | some e => exact ⟨_, .inr ⟨e.2, rfl⟩, rfl⟩
  obtain ⟨proxy', hproxy', hstate⟩ := hannounced
  refine ⟨proxy', ?_⟩
  cases hfind : r.forwardedWithoutProxy.find? fun e => decide (e.1 = proxy.remoteWriterGuid) with
  | none =>
    refine ⟨SnRanges.empty, ?_, hproxy', .inl rfl⟩
    simp only [newState, hfind]
    exact congrArg (fun s : WriterProxyState => { s with pendingAcknackSince := some 0 }) hstate
  | some e =>
    by_cases hended : proxy.remoteWriterGuid ∈ r.endedWriters
    · refine ⟨SnRanges.empty, ?_, hproxy', .inl rfl⟩
      simp only [newState, hfind, hended, if_true]
      exact congrArg (fun s : WriterProxyState => { s with pendingAcknackSince := some 0 }) hstate
    · refine ⟨e.2, ?_, hproxy', .inr ⟨e, List.mem_of_find?_eq_some hfind,
        by simpa using List.find?_some hfind, hended, rfl⟩⟩
      simp only [newState, hfind, hended, if_false]
      exact congrArg (fun s : WriterProxyState =>
        { s with committed := e.2, pendingAcknackSince := some 0 }) hstate

theorem newState_shape (r : ReliableReader) (p : AbsorbedProxy) :
    (r.newState p.1).Shape ∧
      (r.newState p.1).proxy.remoteWriterGuid = p.1.remoteWriterGuid := by
  obtain ⟨proxy', committed, heq, hproxy', -⟩ := r.newState_eq p.1
  have hcache : WriterProxyState.KeepsAll (HistoryCache.new r.maxSamplesPerProxy) :=
    ⟨rfl, rfl, fun n c hn => by simp [HistoryCache.new] at hn⟩
  rw [heq]
  rcases hproxy' with rfl | ⟨last, rfl⟩
  · exact ⟨⟨p.2, hcache⟩, rfl⟩
  · exact ⟨⟨(WriterProxy.updateFromHeartbeat_spec p.2 _ _).1, hcache⟩,
      WriterProxy.updateFromHeartbeat_remoteWriterGuid _ _ _⟩

theorem addWriterProxy_new {proxy : WriterProxy}
    (h : r.proxyIndexByWriter proxy.remoteWriterGuid = none) :
    (r.addWriterProxy proxy).states = r.writerProxies ++ r.newState proxy :: r.departed ∧
      (r.addWriterProxy proxy).forwardedWithoutProxy =
        r.forwardedWithoutProxy.eraseP fun e => e.1 = proxy.remoteWriterGuid := by
  simp only [addWriterProxy, h, states, List.append_assoc, List.singleton_append]
  exact ⟨trivial, trivial⟩

theorem giveUpMissing_spec (h : s.Shape) (highest : Int) :
    (giveUpMissing s highest).1.Shape ∧
      WriterProxyState.SameWriter s (giveUpMissing s highest).1 := by
  have hfold : ∀ (ns : List Int) (acc : WriterProxyState × Nat), acc.1.Shape →
      WriterProxyState.SameWriter s acc.1 →
      let res := ns.foldl (fun (acc : WriterProxyState × Nat) sn =>
        if s.proxy.firstAvailableSn ≤ sn ∧ (acc.1.receivedCache.get sn).isNone ∧
            !acc.1.proxy.isKnown sn then
          ({ acc.1 with proxy := acc.1.proxy.irrelevantChangeSet sn }, satInc acc.2)
        else acc) acc
      res.1.Shape ∧ WriterProxyState.SameWriter s res.1 := by
    intro ns
    induction ns with
    | nil => exact fun acc hacc hsame => ⟨hacc, hsame⟩
    | cons n ns ih =>
      intro acc hacc hsame
      rw [List.foldl_cons]
      split
      · refine ih _ ⟨(WriterProxy.irrelevantChangeSet_spec hacc.absorbed n).1, hacc.cache⟩ ⟨?_, ?_⟩
        · simpa using hsame.guid
        · exact hsame.committed
      · exact ih _ hacc hsame
  exact hfold _ _ h (.refl s)

end ReliableReader
end ZeroDds.Rtps
