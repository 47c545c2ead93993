/-
Readers that calls lead to.
-/
import ZeroDds.Rtps.Commit

namespace ZeroDds.Rtps

def WriterProxy.Fresh (p : WriterProxy) : Prop :=
  ∃ guid unicast multicast isReliable, p = WriterProxy.new guid unicast multicast isReliable

structure ReliableReaderConfig.Fresh (cfg : ReliableReaderConfig) : Prop where
  proxies : ∀ p ∈ cfg.writerProxies, p.Fresh
  distinct : (cfg.writerProxies.map fun p => p.remoteWriterGuid).Nodup

namespace ReliableReader

open WriterProxyState

def MatchesFresh (_ : ReliableReader) : MatchOp → Prop
  | .addWriterProxy p => p.1.Fresh
  | _ => True

structure Sound (r : ReliableReader) : Prop where
  shape : ∀ s ∈ r.states, s.Shape
  one : r.OneEach
  settled : ∀ s ∈ r.writerProxies, s.stream.Settled False

variable {r r' : ReliableReader}

def core (s : WriterProxyState) : WriterProxyState := { s with committed := SnRanges.empty }

structure SameCores (r r' : ReliableReader) : Prop where
  states : r'.states.map core = r.states.map core
  proxies : r'.writerProxies.length = r.writerProxies.length

theorem SameCores.refl (r : ReliableReader) : SameCores r r := ⟨rfl, rfl⟩

theorem SameCores.trans {r'' : ReliableReader} (h : SameCores r r') (h' : SameCores r' r'') :
    SameCores r r'' := ⟨h'.states.trans h.states, h'.proxies.trans h.proxies⟩

theorem SameCores.of_states (h : r'.states = r.states)
    (hlength : r'.writerProxies.length = r.writerProxies.length) : SameCores r r' :=
  ⟨by rw [h], hlength⟩

variable {n : Int} {p : WriterProxy} {cfg : ReliableReaderConfig}

theorem SameCores.of_recorded {j : Nat} (h : r'.states = r.states.modify j (recorded n))
    (hlength : r'.writerProxies.length = r.writerProxies.length) : SameCores r r' := by
  refine ⟨List.ext_getElem? fun k => ?_, hlength⟩
  rw [h, List.getElem?_map, List.getElem?_modify, List.getElem?_map]
  by_cases hk : j = k
  · subst hk
    cases r.states[j]? with
    | none => rfl
    | some s => simp [core, recorded]
  · simp [hk]

theorem SameCores.matched (h : SameCores r r') :
    r'.writerProxies.map core = r.writerProxies.map core := by
  have htake : ∀ q : ReliableReader, (q.states.map core).take q.writerProxies.length =
      q.writerProxies.map core := fun q => by
    rw [ReliableReader.states, List.map_append, List.take_left' (by simp)]
  rw [← htake, ← htake, h.states, h.proxies]

theorem CommitsFor.sameCores {o : Guid} {fresh : Bool} (h : CommitsFor r o n r' fresh) :
    SameCores r r' := by
  cases h with
  | waits => exact .refl r
  | recorded _ _ _ hstates hsame => exact .of_recorded hstates hsame.proxies
  | away _ _ _ hstates hlength _ => exact .of_states hstates hlength

theorem Commits.sameCores {x : DeliveredSample} {kept : Option DeliveredSample}
    (h : Commits r x r' kept) : SameCores r r' := by
  cases h with
  | setEnd => exact .refl r
  | own _ _ _ _ hstates hsame => exact .of_recorded hstates hsame.proxies
  | orphan _ _ _ hstates hsame => exact .of_states hstates hsame.proxies
  | forwarded _ _ hcommits hstates hsame =>
    exact hcommits.sameCores.trans (.of_states hstates hsame.proxies)

theorem sameCores_commitReleased (r : ReliableReader) (xs : List DeliveredSample) :
    SameCores r (r.commitReleased xs).1 := by
  induction xs generalizing r with
  | nil => exact .refl r
  | cons x xs ih => exact (r.commitSample_cases x).sameCores.trans (ih _)

theorem sameCores_acceptForwarded (r : ReliableReader) (o : Guid) (n : Int) :
    SameCores r (r.acceptForwarded o n).1 := by
  have hcommits := (r.commitForwarded_cases o n).sameCores
  unfold acceptForwarded
  rcases hres : r.commitForwarded o n with ⟨r', fresh⟩
  rw [hres] at hcommits
  cases fresh with
  | true => exact hcommits
  | false => exact hcommits.trans (.of_states rfl rfl)

theorem SameCores.sound (h : SameCores r r') (hr : r.Sound) : r'.Sound := by
  have hmem : ∀ {l l' : List WriterProxyState}, l'.map core = l.map core → ∀ s' ∈ l',
      ∃ s ∈ l, core s = core s' := by
    intro l l' hmap s' hs'
    have hcore : core s' ∈ l.map core := hmap ▸ List.mem_map_of_mem hs'
    exact List.mem_map.mp hcore
  refine ⟨fun s' hs' => ?_, ?_, fun s' hs' => ?_⟩
  · obtain ⟨s, hs, hcore⟩ := hmem h.states s' hs'
    have hshape : (core s).Shape := ⟨(hr.shape s hs).absorbed, (hr.shape s hs).cache⟩
    rw [hcore] at hshape
    exact ⟨hshape.absorbed, hshape.cache⟩
  · have hguids : ∀ q : ReliableReader, (q.states.map core).map
        (fun s => s.proxy.remoteWriterGuid) = q.guids := fun q => by
      rw [List.map_map]
      rfl
    refine oneEach_of_guids ?_ h.proxies hr.one
    rw [← hguids, h.states, hguids]
  · obtain ⟨s, hs, hcore⟩ := hmem h.matched s' hs'
    have hsettled : (core s).stream.Settled False := hr.settled s hs
    rw [hcore] at hsettled
    exact hsettled

theorem Received.sound {op : ReaderOp} {outs : List (List DeliveredSample)}
    (h : Received r op r' outs) (hr : r.Sound) : r'.Sound := by
  refine ⟨h.shape, oneEach_of_guids h.guids h.proxies hr.one, fun s' hs' => ?_⟩
  obtain ⟨k, hk⟩ := List.getElem?_of_mem hs'
  have hlt : k < r'.writerProxies.length := (List.getElem?_eq_some_iff.mp hk).1
  rw [← getElem?_states_lt hlt] at hk
  obtain ⟨s, i, hs, out, hget, -, hmoves⟩ := h.moved hk
  rw [getElem?_states_lt (h.proxies ▸ hlt)] at hget
  exact hmoves.call.settled (hr.settled s (List.mem_of_getElem? hget))

theorem Sound.finish (hr : r.Sound) (op : ReaderOp) : (r.finish op).Sound := by
  obtain ⟨hshape, hone⟩ := WellMatched.finish ⟨hr.shape, hr.one⟩ op
  refine ⟨hshape, hone, fun s hs => ?_⟩
  cases op with
  | releaseHeld =>
    rw [ReliableReader.finish, r.drainDeparted_frame.1] at hs
    exact hr.settled s hs
  | _ => exact hr.settled s hs

theorem Sound.step (hr : r.Sound) (op : ReaderOp) : (r.step op).1.Sound := by
  rw [(r.step_eq_receive op).1]
  have hreceive := (receive_received hr.shape hr.one op).sound hr
  exact Sound.finish ((sameCores_commitReleased _ _).sound hreceive) op

/-! ### Writers come and go -/

theorem settled_new {proxy : WriterProxy} (hfirst : proxy.firstAvailableSn ≤ 1)
    (hknown : proxy.isKnown 1 = false) (maxSamples : Nat) (caps : AssemblerCaps) :
    (WriterProxyState.new proxy maxSamples caps).stream.Settled False :=
  .inr ⟨by simp [stream, WriterProxyState.new, HistoryCache.new], not_mem_stream_known hknown,
    hfirst⟩

theorem isKnown_fresh (hp : p.Fresh) (n : Int) : p.isKnown n = false := by
  obtain ⟨guid, unicast, multicast, isReliable, rfl⟩ := hp
  rw [← Bool.not_eq_true, WriterProxy.isKnown_iff]
  simp only [WriterProxy.new, Finset.notMem_empty, or_false]
  omega

theorem firstAvailableSn_fresh (hp : p.Fresh) : p.firstAvailableSn = 1 := by
  obtain ⟨guid, unicast, multicast, isReliable, rfl⟩ := hp
  rfl

theorem newState_settled (r : ReliableReader) {p : AbsorbedProxy} (hp : p.1.Fresh) :
    (r.newState p.1).stream.Settled False := by
  obtain ⟨proxy', committed, heq, hproxy', -⟩ := r.newState_eq p.1
  rw [heq]
  have hfirst := firstAvailableSn_fresh hp
  rcases hproxy' with rfl | ⟨last, rfl⟩
  · exact settled_new hfirst.le (isKnown_fresh hp 1) r.maxSamplesPerProxy r.assemblerCaps
  · have hfirst' :
        (p.1.updateFromHeartbeat p.1.firstAvailableSn last).1.firstAvailableSn ≤ 1 := by
      simp [hfirst]
    refine settled_new hfirst' ?_ r.maxSamplesPerProxy r.assemblerCaps
    rw [← Bool.not_eq_true, (WriterProxy.updateFromHeartbeat_spec p.2 _ last).2,
      isKnown_fresh hp]
    simp

theorem Sound.addWriterProxy (hr : r.Sound) {p : AbsorbedProxy} (hp : p.1.Fresh) :
    (r.addWriterProxy p.1).Sound := by
  obtain ⟨hshape, hone⟩ := WellMatched.addWriterProxy ⟨hr.shape, hr.one⟩ p
  refine ⟨hshape, hone, fun s hs => ?_⟩
  cases hidx : r.proxyIndexByWriter p.1.remoteWriterGuid with
  | some idx =>
    simp only [ReliableReader.addWriterProxy, hidx] at hs
    obtain ⟨k, hk⟩ := List.getElem?_of_mem hs
    rw [List.getElem?_modify] at hk
    cases hget : r.writerProxies[k]? with
    | none => simp [hget] at hk
    | some t =>
      have ht := hr.settled t (List.mem_of_getElem? hget)
      rw [hget] at hk
      by_cases hj : idx = k
      · obtain rfl : { t with
            proxy := t.proxy.refreshLocators p.1.unicastLocators p.1.multicastLocators } = s := by
          simpa [hj] using hk
        exact ht
      · obtain rfl : t = s := by simpa [hj] using hk
        exact ht
  | none =>
    simp only [ReliableReader.addWriterProxy, hidx] at hs
    rcases List.mem_append.mp hs with hs | hs
    · exact hr.settled s hs
    · obtain rfl := List.mem_singleton.mp hs
      exact r.newState_settled hp

theorem Sound.erased (hr : r.Sound) {idx : Nat} {moved : List WriterProxyState}
    (hproxies : r'.writerProxies = r.writerProxies.eraseIdx idx)
    (hdeparted : r'.departed = r.departed ++ moved) (hmoved : ∀ s ∈ moved, s.Shape) : r'.Sound := by
  obtain ⟨hshape, hone⟩ := WellMatched.erased ⟨hr.shape, hr.one⟩ hproxies hdeparted hmoved
  refine ⟨hshape, hone, fun s hs => ?_⟩
  rw [hproxies] at hs
  exact hr.settled s (List.eraseIdx_subset hs)

theorem Sound.removeWriterProxy (hr : r.Sound) (g : Guid) : (r.removeWriterProxy g).Sound := by
  unfold ReliableReader.removeWriterProxy
  cases r.proxyIndexByWriter g with
  | none => exact hr
  | some idx => exact hr.erased rfl (List.append_nil _).symm (by simp)

theorem Sound.departWriterProxy (hr : r.Sound) (g : Guid) : (r.departWriterProxy g).Sound := by
  unfold ReliableReader.departWriterProxy
  cases r.proxyIndexByWriter g with
  | none => exact hr
  | some idx =>
    cases hget : r.writerProxies[idx]? with
    | none => simpa only [hget] using hr
    | some s =>
      have hshape := hr.shape s (List.mem_append_left _ (List.mem_of_getElem? hget))
      simp only [hget]
      cases s.receivedCache.maxSn with
      | none => exact hr.erased rfl (List.append_nil _).symm (by simp)
      | some highest =>
        refine hr.erased rfl rfl fun t ht => ?_
        obtain rfl := List.mem_singleton.mp ht
        exact (giveUpMissing_spec hshape highest).1

theorem Sound.matchStep (hr : r.Sound) {op : MatchOp} (hop : r.MatchesFresh op) :
    (r.matchStep op).1.Sound := by
  cases op with
  | call op => exact hr.step op
  | addWriterProxy p => exact hr.addWriterProxy hop
  | removeWriterProxy g => exact hr.removeWriterProxy g
  | departWriterProxy g => exact hr.departWriterProxy g
  | acceptForwarded o n => exact (r.sameCores_acceptForwarded o n).sound hr

theorem new_sound (hcfg : cfg.Fresh) : (ReliableReader.new cfg).Sound := by
  have hstate : ∀ s ∈ (ReliableReader.new cfg).writerProxies,
      s.Shape ∧ s.stream.Settled False := by
    intro s hs
    obtain ⟨p, hp, rfl⟩ := List.mem_map.mp hs
    have hfresh := hcfg.proxies p hp
    refine ⟨⟨?_, rfl, rfl, fun n c hn => by simp [WriterProxyState.new, HistoryCache.new] at hn⟩,
      settled_new (firstAvailableSn_fresh hfresh).le (isKnown_fresh hfresh 1) _ _⟩
    obtain ⟨guid, unicast, multicast, isReliable, rfl⟩ := hfresh
    exact WriterProxy.new_absorbed guid unicast multicast isReliable
  refine ⟨fun s hs => ?_, ?_, fun s hs => (hstate s hs).2⟩
  · rcases List.mem_append.mp hs with hs | hs
    · exact (hstate s hs).1
    · simp [ReliableReader.new] at hs
  · rw [OneEach, ReliableReader.new, List.map_map]
    exact hcfg.distinct

theorem sound_of_reaches (hcfg : cfg.Fresh) {h : History MatchOp MatchOutput}
    (hrun : Reaches matchStep MatchesFresh (ReliableReader.new cfg) h r) : r.Sound :=
  hrun.invariant (P := fun _ r => r.Sound) (new_sound hcfg) fun _ _ _ hr hop => hr.matchStep hop

end ReliableReader
end ZeroDds.Rtps
