/-
One reader's NACK_FRAG and the other readers.
-/
import ZeroDds.Lib.Positions
import ZeroDds.Rtps.WriterRun

namespace ZeroDds.Rtps.ReliableWriter

/-- The NACK_FRAG of `src` leaves what the next tick sends to the other readers, and
their proxies after it, as they were without it. -/
def Undisturbed (w : ReliableWriter) (src : Guid) (nf : NackFragSubmessage) (now : Nat) : Prop :=
  ∃ out out', (w.tick now).2 = .ok out ∧ ((w.handleNackfrag src nf).tick now).2 = .ok out' ∧
    out'.filter (fun d => d.peer ≠ src) = out.filter (fun d => d.peer ≠ src) ∧
    ((w.handleNackfrag src nf).tick now).1.readerProxies.filter
        (fun p => p.remoteReaderGuid ≠ src) =
      (w.tick now).1.readerProxies.filter (fun p => p.remoteReaderGuid ≠ src)

def noteNackfrag (nf : NackFragSubmessage) (p : ReaderProxy) : ReaderProxy :=
  p.requestedFragmentsSet nf.writerSn nf.fragmentNumberState.iterSet

def AnswersFit (w : ReliableWriter) (src : Guid) (nf : NackFragSubmessage) (now : Nat) : Prop :=
  nf.writerId = w.guid.entityId → ∀ idx p, w.proxyIndex src = some idx →
    w.readerProxies[idx]? = some p →
    ∀ run ∈ (w.tickView now).fragmentPlan (noteNackfrag nf p)
        ((noteNackfrag nf p).repairDue now w.nackResponseDelay).2,
      (w.tickView now).RunFits run.1 run.2.1 run.2.2 p.remoteReaderGuid p.targets

/-! ### What a NACK_FRAG changes of a turn -/

variable (nf : NackFragSubmessage)

theorem noteNackfrag_same (p : ReaderProxy) : p.SameButFragments (noteNackfrag nf p) := by
  unfold noteNackfrag ReaderProxy.requestedFragmentsSet
  split <;> rfl

theorem repairPlan_noteNackfrag (p : ReaderProxy) (now delay : Nat) :
    SendView.repairPlan (noteNackfrag nf p) ((noteNackfrag nf p).repairDue now delay).2 =
      SendView.repairPlan p (p.repairDue now delay).2 := by
  obtain ⟨queue, hq⟩ : ∃ queue, noteNackfrag nf p = { p with requestedFragments := queue } :=
    ⟨_, noteNackfrag_same nf p⟩
  rw [hq]
  cases hempty : p.requestedChanges.isEmpty with
  | true =>
    have hkeys : p.requestedChanges.keys = [] := by
      rw [← List.isEmpty_iff, ← SortedMap.isEmpty_eq_keys_isEmpty, hempty]
    simp [SendView.repairPlan, hkeys]
  | false => simp [SendView.repairPlan, ReaderProxy.repairDue, ReaderProxy.hasRequests, hempty]

theorem sendPlan_noteNackfrag (v : SendView) (nf : NackFragSubmessage) (p : ReaderProxy)
    (now delay : Nat) :
    v.sendPlan (noteNackfrag nf p) ((noteNackfrag nf p).repairDue now delay).2 =
      v.sendPlan p (p.repairDue now delay).2 := by
  rw [SendView.sendPlan, repairPlan_noteNackfrag, noteNackfrag_same nf p]
  rfl

theorem endsWithHeartbeat_noteNackfrag (v : SendView) (plan : SendView.TickPlan)
    (nf : NackFragSubmessage) (p : ReaderProxy) (now delay : Nat) :
    v.endsWithHeartbeat plan (noteNackfrag nf p) ((noteNackfrag nf p).repairDue now delay).2 =
      v.endsWithHeartbeat plan p (p.repairDue now delay).2 := by
  rw [SendView.endsWithHeartbeat, repairPlan_noteNackfrag, noteNackfrag_same nf p]
  rfl

variable {p : ReaderProxy} {now : Nat}
  {v : SendView} {plan : SendView.TickPlan} {s : SendLog × Bool} {w : ReliableWriter}
  {idx : Nat}

theorem turnFits_noteNackfrag {delay : Nat} (h : v.TurnFits plan p (p.repairDue now delay).2)
    (nf : NackFragSubmessage) :
    v.TurnFits plan (noteNackfrag nf p) ((noteNackfrag nf p).repairDue now delay).2 ↔
      ∀ run ∈ v.fragmentPlan (noteNackfrag nf p) ((noteNackfrag nf p).repairDue now delay).2,
        v.RunFits run.1 run.2.1 run.2.2 p.remoteReaderGuid p.targets := by
  have hreader := (noteNackfrag_same nf p).toRemoteReader
  constructor
  · intro hq
    simpa only [hreader] using hq.fragments
  · intro hruns
    refine ⟨by simpa only [hreader] using hruns, ?_, ?_⟩
    · rw [sendPlan_noteNackfrag, hreader]
      exact h.changes
    · rw [endsWithHeartbeat_noteNackfrag, noteNackfrag_same nf p]
      exact h.heartbeat

theorem tickTurn_noteNackfrag {s₁ s₂ : SendLog × Bool} {p₁ p₂ : ReaderProxy}
    {out₁ out₂ : List AddressedDatagram} (h₁ : v.tickTurn plan s p = ((s₁, p₁), .ok out₁))
    (h₂ : v.tickTurn plan s (noteNackfrag nf p) = ((s₂, p₂), .ok out₂)) : s₁ = s₂ := by
  obtain ⟨log, emitted⟩ := s
  have hs₁ := (SendView.tickTurn_spec (v := v) plan log emitted p rfl).2 out₁ (by rw [h₁])
  have hs₂ := (SendView.tickTurn_spec (v := v) plan log emitted (noteNackfrag nf p) rfl).2 out₂
    (by rw [h₂])
  rw [h₁] at hs₁
  rw [h₂] at hs₂
  simp only [SendView.turnLog, sendPlan_noteNackfrag, endsWithHeartbeat_noteNackfrag] at hs₁ hs₂
  exact hs₁.1.trans hs₂.1.symm

theorem handleNackfrag_cases (w : ReliableWriter) (src : Guid) (nf : NackFragSubmessage) :
    (∃ count, w.handleNackfrag src nf = { w with unknownSrcCount := count } ∧
      ¬(nf.writerId = w.guid.entityId ∧ (w.proxyIndex src).isSome)) ∨
    ∃ count idx p, nf.writerId = w.guid.entityId ∧ w.proxyIndex src = some idx ∧
      w.readerProxies[idx]? = some p ∧ p.remoteReaderGuid = src ∧
      w.handleNackfrag src nf = { w with
        nackfragCount := count
        readerProxies := w.readerProxies.modify idx (noteNackfrag nf) } := by
  unfold handleNackfrag
  split
  · next h => exact .inl ⟨w.unknownSrcCount, rfl, fun h' => h h'.1⟩
  · next h =>
    split
    · next hidx => exact .inl ⟨_, rfl, by simp [hidx]⟩
    · next idx hidx =>
      obtain ⟨hlt, hguid, -⟩ := List.findIdx?_eq_some_iff_getElem.mp hidx
      exact .inr ⟨_, idx, w.readerProxies[idx], not_not.mp h, hidx, by simp,
        by simpa using hguid, rfl⟩

theorem tickTurns_modify (w : ReliableWriter) (nf : NackFragSubmessage) (count : Int)
    (idx now : Nat) :
    let w' := { w with
      nackfragCount := count
      readerProxies := w.readerProxies.modify idx (noteNackfrag nf) }
    w'.tickView now = w.tickView now ∧ w'.tickTurns now =
      Outcome.traverse ((w.tickView now).tickTurn (w.tickPlan now))
        ((w.tickStart now).sendLog, false) (w.readerProxies.modify idx (noteNackfrag nf)) := by
  intro w'
  have hview : w'.tickView now = w.tickView now := by
    have hreaders : (w.readerProxies.modify idx (noteNackfrag nf)).map ReaderProxy.toRemoteReader =
        w.readerProxies.map ReaderProxy.toRemoteReader := by
      refine List.ext_getElem? fun i => ?_
      simp only [List.getElem?_map, List.getElem?_modify]
      split
      · cases w.readerProxies[i]? with
        | none => rfl
        | some p => simp [(noteNackfrag_same nf p).toRemoteReader]
      · simp
    simp [tickView, view, tickStart, w', hreaders]
  refine ⟨hview, ?_⟩
  rw [tickTurns, hview]
  rfl

theorem tickFits_modify {nf : NackFragSubmessage} (hp : w.readerProxies[idx]? = some p)
    (count : Int) (hfits : w.TickFits now) :
    TickFits { w with
        nackfragCount := count
        readerProxies := w.readerProxies.modify idx (noteNackfrag nf) } now ↔
      ∀ run ∈ (w.tickView now).fragmentPlan (noteNackfrag nf p)
          ((noteNackfrag nf p).repairDue now w.nackResponseDelay).2,
        (w.tickView now).RunFits run.1 run.2.1 run.2.2 p.remoteReaderGuid p.targets := by
  have hturn := turnFits_noteNackfrag (hfits p (List.mem_of_getElem? hp)) nf
  simp only [TickFits, (w.tickTurns_modify nf count idx now).1]
  constructor
  · intro h
    refine hturn.mp (h _ (List.mem_of_getElem? (i := idx) ?_))
    simp [hp]
  · intro h q hq
    rcases mem_modify hq with hold | ⟨a, ha, rfl⟩
    · exact hfits q hold
    · obtain rfl : p = a := Option.some.inj (hp.symm.trans ha)
      exact hturn.mpr h

theorem others_same {nf : NackFragSubmessage} (hp : w.readerProxies[idx]? = some p)
    {s' : SendLog × Bool} {ps ps' : List ReaderProxy} {out out' : List AddressedDatagram}
    (h : w.tickTurns now = ((s, ps), .ok out))
    (h' : Outcome.traverse ((w.tickView now).tickTurn (w.tickPlan now))
      ((w.tickStart now).sendLog, false) (w.readerProxies.modify idx (noteNackfrag nf)) =
        ((s', ps'), .ok out')) :
    ps.filter (fun q => q.remoteReaderGuid ≠ p.remoteReaderGuid) =
        ps'.filter (fun q => q.remoteReaderGuid ≠ p.remoteReaderGuid) ∧
      out.filter (fun d => d.peer ≠ p.remoteReaderGuid) =
        out'.filter (fun d => d.peer ≠ p.remoteReaderGuid) := by
  refine (Outcome.traverse_modify ?_ h h').2
  intro s i hi s₁ p₁ out₁ s₂ p₂ out₂ h₁ h₂
  obtain rfl : i = p := Option.some.inj (hi.symm.trans hp)
  have hguid := (noteNackfrag_same nf i).toRemoteReader
  have hreader : ∀ {q q' s' out}, (w.tickView now).tickTurn (w.tickPlan now) s q =
      ((s', q'), .ok out) → q.toRemoteReader = i.toRemoteReader →
      [q'].filter (fun q => q.remoteReaderGuid ≠ i.remoteReaderGuid) = [] ∧
        out.filter (fun d => d.peer ≠ i.remoteReaderGuid) = [] := by
    intro q q' s' out hturn hq
    have hleaves := ((SendView.tickTurn_spec (v := w.tickView now) (w.tickPlan now) s.1 s.2 q
      rfl).2 out (by rw [hturn])).2.1.reader
    rw [hturn, hq] at hleaves
    have hguid' : q'.toRemoteReader = i.toRemoteReader := hleaves
    have hpeer : ∀ d ∈ out, d.peer = q.remoteReaderGuid :=
      SendView.tickTurn_peer (show (_ : Except _ _) = _ by rw [hturn])
    refine ⟨by simp [hguid'], List.filter_eq_nil_iff.mpr fun d hd => ?_⟩
    simp [hpeer d hd, hq]
  refine ⟨tickTurn_noteNackfrag nf h₁ h₂, ?_, ?_⟩
  · rw [(hreader h₁ rfl).1, (hreader h₂ hguid).1]
  · rw [(hreader h₁ rfl).2, (hreader h₂ hguid).2]

section

open WriterFixture

def twoReaders : ReliableWriter :=
  ((makeWriter 10 1472 [readerProxy 1, readerProxy 2]).step
    (.write (sample [1, 2, 3, 4] none))).1

def secondFragment : NackFragSubmessage :=
  ⟨(readerGuid 1).entityId, writerGuid.entityId, 1, FragmentNumberSet.fromMissing 2 [2], 1⟩

end

end ZeroDds.Rtps.ReliableWriter
