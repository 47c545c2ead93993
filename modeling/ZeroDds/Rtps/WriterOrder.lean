/-
The order of delivery with many writers.
-/
import ZeroDds.Lib.Positions
import ZeroDds.Rtps.DeliveryOrder
import ZeroDds.Rtps.ReachableReaders

namespace ZeroDds.Rtps

def directOf (w : Guid) (out : List DeliveredSample) : List DeliveredSample :=
  out.filter fun x => x.writerGuid = w && x.forwardedBy.isNone

theorem directOf_eq (w : Guid) (out : List DeliveredSample) :
    directOf w out =
      (out.filter fun x => x.writerGuid = w).filter fun x => x.forwardedBy.isNone := by
  rw [List.filter_filter, directOf]
  refine List.filter_congr fun x _ => ?_
  rw [Bool.and_comm]

def directSns (w : Guid) (out : List DeliveredSample) : List Int := sampleSns (directOf w out)

theorem directSns_append (w : Guid) (a b : List DeliveredSample) :
    directSns w (a ++ b) = directSns w a ++ directSns w b := by
  rw [directSns, directOf, List.filter_append, sampleSns_append]
  rfl

namespace ReliableReader

variable {r : ReliableReader}

theorem directOf_commitSample (w : Guid) (r : ReliableReader) (x : DeliveredSample) :
    (directOf w (r.commitSample x).2.toList).Sublist (directOf w [x]) := by
  have hcases := r.commitSample_cases x
  generalize (r.commitSample x).2 = kept at hcases
  generalize (r.commitSample x).1 = r' at hcases
  cases hcases with
  | setEnd => exact .refl _
  | own =>
    split
    · exact .refl _
    · exact List.nil_sublist _
  | orphan => exact .refl _
  | forwarded =>
    split
    · simp [directOf, handedFor]
    · exact List.nil_sublist _

theorem directOf_commitReleased (w : Guid) (r : ReliableReader) (xs : List DeliveredSample) :
    (directOf w (r.commitReleased xs).2).Sublist (directOf w xs) := by
  induction xs generalizing r with
  | nil => exact .refl _
  | cons x xs ih =>
    have hout : (r.commitReleased (x :: xs)).2 =
        (r.commitSample x).2.toList ++ ((r.commitSample x).1.commitReleased xs).2 := rfl
    have hcons : directOf w (x :: xs) = directOf w [x] ++ directOf w xs := by
      rw [directOf, directOf, directOf, ← List.filter_append]
      rfl
    rw [hout, hcons, directOf, List.filter_append]
    exact (directOf_commitSample w r x).append (ih _)

/-- What every reader has handed out: each writer's own samples with rising numbers, up to where
its record says. -/
structure Rising (r : ReliableReader) (log : List DeliveredSample) : Prop where
  sound : r.Sound
  departed : r.departed = []
  held : ∀ s ∈ r.writerProxies, ∀ n, s.receivedCache.get n ≠ none → s.deliveredUpTo < n
  sorted : ∀ w, (directSns w log).Pairwise (· < ·)
  behind : ∀ w, ∀ n ∈ directSns w log,
    ∃ s ∈ r.writerProxies, s.proxy.remoteWriterGuid = w ∧ n ≤ s.deliveredUpTo

theorem states_of_departed (h : r.departed = []) : r.states = r.writerProxies := by
  rw [states, h, List.append_nil]

theorem departed_of_length {r' : ReliableReader} (h : r.departed = [])
    (hstates : r'.states.length = r.states.length)
    (hproxies : r'.writerProxies.length = r.writerProxies.length) : r'.departed = [] := by
  rw [states, states, List.length_append, List.length_append, h, List.length_nil] at hstates
  apply List.eq_nil_of_length_eq_zero
  omega

variable {op : ReaderOp} {r₁ : ReliableReader} {outs : List (List DeliveredSample)} {k : Nat}
  {s : WriterProxyState} {log : List DeliveredSample}

theorem Received.directSns_sublist (h : Received r op r₁ outs) (hone : r.OneEach)
    (hdeparted : r.departed = []) {out : List DeliveredSample} {hs : List HandOut}
    (hget : r.states[k]? = some s) (hout : outs[k]? = some out)
    (hdeliveries : out = hs.flatMap (HandOut.deliveries s.proxy.remoteWriterGuid)) :
    (directSns s.proxy.remoteWriterGuid outs.flatten).Sublist (hs.map HandOut.sn) := by
  have hnodup : r.guids.Nodup := by
    rw [ReliableReader.guids, states_of_departed hdeparted]
    exact hone
  have hkey : r.guids[k]? = some s.proxy.remoteWriterGuid := by
    rw [ReliableReader.guids, List.getElem?_map, hget]
    rfl
  have hpart : outs.flatten.filter (fun x => x.writerGuid = s.proxy.remoteWriterGuid) = out :=
    filter_flatten_of_nodup hnodup (fun j o ho x hx => (h.direct ho hx).1) hkey hout
  have hdirect : (directOf s.proxy.remoteWriterGuid outs.flatten).Sublist out := by
    rw [directOf_eq, hpart]
    exact List.filter_sublist
  have hsns := sampleSns_flatMap_sublist s.proxy.remoteWriterGuid hs
  rw [← hdeliveries] at hsns
  exact ((hdirect.filter _).map _).trans hsns

theorem Received.directSns_eq_nil (h : Received r op r₁ outs) {w : Guid} (hw : w ∉ r.guids) :
    directSns w outs.flatten = [] := by
  have hnone : directOf w outs.flatten = [] := by
    rw [directOf, List.filter_eq_nil_iff]
    intro x hx hmatch
    obtain ⟨o, ho, hxo⟩ := List.mem_flatten.mp hx
    obtain ⟨j, hj⟩ := List.getElem?_of_mem ho
    have hguid := List.mem_of_getElem? (h.direct hj hxo).1
    simp only [Bool.and_eq_true, decide_eq_true_eq] at hmatch
    exact hw (hmatch.1 ▸ hguid)
  rw [directSns, hnone]
  rfl

theorem step_cores (r : ReliableReader) (op : ReaderOp) :
    (r.step op).1.writerProxies.map core = (r.receive op).1.writerProxies.map core := by
  have hcommit := (sameCores_commitReleased (r.receive op).1 (r.receive op).2.flatten).matched
  rw [(r.step_eq_receive op).1, ← hcommit]
  cases op with
  | releaseHeld => rw [finish, (drainDeparted_frame _).1]
  | _ => rfl

theorem departed_step (h : r.departed = []) (hr : r.Sound) (op : ReaderOp) :
    (r.step op).1.departed = [] := by
  have hreceived := receive_received hr.shape hr.one op
  have hr₁ : (r.receive op).1.departed = [] := by
    apply List.eq_nil_of_length_eq_zero
    rw [hreceived.departed, h]
    rfl
  have hcores := sameCores_commitReleased (r.receive op).1 (r.receive op).2.flatten
  have hstates := congrArg List.length hcores.states
  rw [List.length_map, List.length_map] at hstates
  have hcommit := departed_of_length hr₁ hstates hcores.proxies
  rw [(r.step_eq_receive op).1]
  cases op with
  | releaseHeld =>
    rw [finish, (drainDeparted_frame _).2.1, hcommit]
    rfl
  | _ => exact hcommit

theorem step_moved (hr : r.Sound) (h : r.departed = []) (op : ReaderOp)
    (hget : r.writerProxies[k]? = some s) :
    ∃ s' hs, (r.step op).1.writerProxies[k]? = some s' ∧
      s'.proxy.remoteWriterGuid = s.proxy.remoteWriterGuid ∧
      (directSns s.proxy.remoteWriterGuid (r.step op).2.delivered).Sublist (hs.map HandOut.sn) ∧
      ∀ (_ : ∀ n, s.receivedCache.get n ≠ none → s.deliveredUpTo < n),
        Stream.Ordered s.deliveredUpTo hs s'.stream := by
  have hreceived := receive_received hr.shape hr.one op
  have hlt : k < r.writerProxies.length := (List.getElem?_eq_some_iff.mp hget).1
  have hget' : r.states[k]? = some s := (getElem?_states_lt hlt).trans hget
  obtain ⟨i, hs, out, s₁, hs₁, hout, hmoves, -⟩ := hreceived.moves k s hget'
  rw [getElem?_states_lt (hreceived.proxies ▸ hlt)] at hs₁
  have hcore : ((r.step op).1.writerProxies.map core)[k]? = some (core s₁) := by
    rw [step_cores, List.getElem?_map, hs₁]
    rfl
  rw [List.getElem?_map, Option.map_eq_some_iff] at hcore
  obtain ⟨s', hs', heq⟩ := hcore
  have hguid : (core s').proxy = (core s₁).proxy := congrArg WriterProxyState.proxy heq
  have hstream : (core s').stream = (core s₁).stream := congrArg WriterProxyState.stream heq
  refine ⟨s', hs, hs', ?_, ?_, fun hheld => ?_⟩
  · exact (congrArg WriterProxy.remoteWriterGuid hguid).trans hmoves.same.guid
  · rw [(r.step_eq_receive op).2]
    exact (((directOf_commitReleased _ _ _).filter _).map _).trans
      (hreceived.directSns_sublist hr.one h hget' hout hmoves.deliveries)
  · have hord := hmoves.call.ordered hheld
    exact (show s'.stream = s₁.stream from hstream) ▸ hord

theorem Rising.step (h : Rising r log) (op : ReaderOp) :
    Rising (r.step op).1 (log ++ (r.step op).2.delivered) := by
  have hmatched : ∀ w, (∀ s ∈ r.writerProxies, s.proxy.remoteWriterGuid ≠ w) →
      directSns w (r.step op).2.delivered = [] := by
    intro w hw
    have hguids : w ∉ r.guids := by
      rw [guids, states_of_departed h.departed, List.mem_map]
      rintro ⟨s, hs, rfl⟩
      exact hw s hs rfl
    have hnil := (receive_received h.sound.shape h.sound.one op).directSns_eq_nil hguids
    have hsub := ((directOf_commitReleased w (r.receive op).1 (r.receive op).2.flatten).filter
      (fun x => !x.coherentSetEnd)).map DeliveredSample.sequenceNumber
    rw [(r.step_eq_receive op).2]
    exact List.sublist_nil.mp (hnil ▸ hsub)
  -- a writer with a state: what it handed out before lies behind what it hands out now
  have hmoved : ∀ s ∈ r.writerProxies, ∃ s' ∈ (r.step op).1.writerProxies,
      s'.proxy.remoteWriterGuid = s.proxy.remoteWriterGuid ∧ s.deliveredUpTo ≤ s'.deliveredUpTo ∧
      (directSns s.proxy.remoteWriterGuid (r.step op).2.delivered).Pairwise (· < ·) ∧
      ∀ n ∈ directSns s.proxy.remoteWriterGuid (r.step op).2.delivered,
        s.deliveredUpTo < n ∧ n ≤ s'.deliveredUpTo := by
    intro s hs
    obtain ⟨k, hk⟩ := List.getElem?_of_mem hs
    obtain ⟨s', handed, hs', hguid, hsub, hordered⟩ := step_moved h.sound h.departed op hk
    have hord := hordered (h.held s hs)
    refine ⟨s', List.mem_of_getElem? hs', hguid, hord.le, hord.sorted.sublist hsub, fun n hn => ?_⟩
    obtain ⟨x, hx, rfl⟩ := List.mem_map.mp (hsub.subset hn)
    exact hord.range x hx
  refine ⟨h.sound.step op, departed_step h.departed h.sound op, ?_, fun w => ?_, fun w n hn => ?_⟩
  · intro s' hs' n hn
    obtain ⟨k, hk⟩ := List.getElem?_of_mem hs'
    have hlength := congrArg List.length (r.step_cores op)
    rw [List.length_map, List.length_map,
      (receive_received h.sound.shape h.sound.one op).proxies] at hlength
    have hlt : k < r.writerProxies.length := hlength ▸ (List.getElem?_eq_some_iff.mp hk).1
    obtain ⟨t, handed, ht, -, -, hordered⟩ :=
      step_moved h.sound h.departed op (List.getElem?_eq_getElem hlt)
    obtain rfl : s' = t := Option.some.inj (hk.symm.trans ht)
    exact (hordered (h.held _ (List.getElem_mem hlt))).held n hn
  · rw [directSns_append, List.pairwise_append]
    by_cases hw : ∀ s ∈ r.writerProxies, s.proxy.remoteWriterGuid ≠ w
    · rw [hmatched w hw]
      exact ⟨h.sorted w, .nil, by simp⟩
    · push Not at hw
      obtain ⟨s, hs, rfl⟩ := hw
      obtain ⟨s', -, -, -, hsorted, hrange⟩ := hmoved s hs
      refine ⟨h.sorted _, hsorted, fun m hm n hn => ?_⟩
      obtain ⟨t, ht, htguid, hle⟩ := h.behind _ m hm
      obtain rfl : t = s := List.inj_on_of_nodup_map h.sound.one ht hs htguid
      exact lt_of_le_of_lt hle (hrange n hn).1
  · rw [directSns_append, List.mem_append] at hn
    rcases hn with hn | hn
    · obtain ⟨s, hs, rfl, hle⟩ := h.behind w n hn
      obtain ⟨s', hs', hguid, hle', -, -⟩ := hmoved s hs
      exact ⟨s', hs', hguid, hle.trans hle'⟩
    · by_cases hw : ∀ s ∈ r.writerProxies, s.proxy.remoteWriterGuid ≠ w
      · rw [hmatched w hw] at hn
        cases hn
      · push Not at hw
        obtain ⟨s, hs, rfl⟩ := hw
        obtain ⟨s', hs', hguid, -, -, hrange⟩ := hmoved s hs
        exact ⟨s', hs', hguid, (hrange n hn).2⟩

theorem Rising.addWriterProxy (h : Rising r log) {p : AbsorbedProxy} (hp : p.1.Fresh) :
    Rising (r.addWriterProxy p.1) log := by
  cases hidx : r.proxyIndexByWriter p.1.remoteWriterGuid with
  | some idx =>
    have hproxies : (r.addWriterProxy p.1).writerProxies = r.writerProxies.modify idx fun s =>
        { s with
          proxy := s.proxy.refreshLocators p.1.unicastLocators p.1.multicastLocators } := by
      simp [ReliableReader.addWriterProxy, hidx]
    have hdeparted : (r.addWriterProxy p.1).departed = r.departed := by
      simp [ReliableReader.addWriterProxy, hidx]
    refine ⟨h.sound.addWriterProxy hp, hdeparted.trans h.departed, fun s' hs' => ?_, h.sorted,
      fun w n hn => ?_⟩
    · rw [hproxies] at hs'
      rcases mem_modify hs' with hs | ⟨s, hs, rfl⟩
      · exact h.held _ hs
      · exact h.held s (List.mem_of_getElem? hs)
    · obtain ⟨s, hs, hguid, hle⟩ := h.behind w n hn
      obtain ⟨k, hk⟩ := List.getElem?_of_mem hs
      refine ⟨if idx = k then { s with
        proxy := s.proxy.refreshLocators p.1.unicastLocators p.1.multicastLocators } else s,
        ?_, ?_, ?_⟩
      · apply List.mem_of_getElem? (i := k)
        rw [hproxies, List.getElem?_modify, hk]
        split <;> rfl
      · split <;> exact hguid
      · split <;> exact hle
  | none =>
    have hproxies : (r.addWriterProxy p.1).writerProxies = r.writerProxies ++ [r.newState p.1] := by
      simp [ReliableReader.addWriterProxy, hidx]
    have hdeparted : (r.addWriterProxy p.1).departed = r.departed := by
      simp [ReliableReader.addWriterProxy, hidx]
    refine ⟨h.sound.addWriterProxy hp, hdeparted.trans h.departed, fun s hs => ?_, h.sorted,
      fun w n hn => ?_⟩
    · rw [hproxies] at hs
      rcases List.mem_append.mp hs with hs | hs
      · exact h.held s hs
      · obtain rfl := List.mem_singleton.mp hs
        obtain ⟨proxy', committed, heq, -⟩ := r.newState_eq p.1
        rw [heq]
        intro n hn
        exact absurd (by simp [WriterProxyState.new, HistoryCache.new]) hn
    · obtain ⟨s, hs, hguid, hle⟩ := h.behind w n hn
      exact ⟨s, hproxies ▸ List.mem_append_left _ hs, hguid, hle⟩

theorem Rising.of_unmatched (hproxies : r.writerProxies = []) (hdeparted : r.departed = []) :
    Rising r [] where
  sound := by
    refine ⟨?_, ?_, ?_⟩
    · simp [states, hproxies, hdeparted]
    · simp [OneEach, hproxies]
    · simp [hproxies]
  departed := hdeparted
  held := by simp [hproxies]
  sorted := fun _ => .nil
  behind := fun _ _ hn => by cases hn

end ReliableReader
end ZeroDds.Rtps
