/-
Runs of a reader on one writer's stream.
-/
import Mathlib.Data.List.TakeWhile
import ZeroDds.Rtps.Refinement

namespace ZeroDds.Rtps

/-! ### Committing rising numbers -/

namespace SnRanges

theorem insert_above (r : SnRanges) (sn : Int) (h : ∀ x ∈ r.ranges, x.2 < sn) :
    (r.insert sn).2 = true ∧ ∀ x ∈ (r.insert sn).1.ranges, x.2 ≤ sn := by
  have hat : (r.insertAt sn).2 = true ∧ ∀ x ∈ (r.insertAt sn).1.ranges, x.2 ≤ sn := by
    have htake : r.ranges.takeWhile (fun x => decide (x.2 < sn)) = r.ranges :=
      List.takeWhile_eq_self_iff.mpr fun x hx => by simpa using h x hx
    have hle : ∀ x ∈ r.ranges, x.2 ≤ sn := fun x hx => le_of_lt (h x hx)
    unfold insertAt
    simp only [htake, List.drop_length, List.head?_nil, Option.any_none, Option.filter_none,
      Bool.false_eq_true, if_false]
    split
    · next l _ _ hnone => cases hnone
    · refine ⟨rfl, fun x hx => ?_⟩
      rcases List.mem_append.mp hx with hx | hx
      · exact hle x (List.mem_of_mem_dropLast hx)
      · obtain rfl := List.mem_singleton.mp hx
        exact le_refl _
    · next hsome => cases hsome
    · refine ⟨rfl, fun x hx => ?_⟩
      have hx : x ∈ r.ranges ++ [(sn, sn)] := by
        split at hx
        · exact List.mem_of_mem_tail hx
        · exact hx
      rcases List.mem_append.mp hx with hx | hx
      · exact hle x hx
      · obtain rfl := List.mem_singleton.mp hx
        exact le_refl _
  unfold insert
  split
  · split
    · refine ⟨rfl, fun x hx => ?_⟩
      rcases List.mem_append.mp hx with hx | hx
      · exact le_of_lt (h x (List.mem_of_mem_dropLast hx))
      · obtain rfl := List.mem_singleton.mp hx
        exact le_refl _
    · exact hat
  · exact hat

end SnRanges

namespace ReliableReader

structure OneProxy (r : ReliableReader) (s : WriterProxyState) : Prop where
  proxies : r.writerProxies = [s]
  departed : r.departed = []

variable {r : ReliableReader} {s : WriterProxyState}

theorem OneProxy.stateOf (h : r.OneProxy s) : r.stateOf s.proxy.remoteWriterGuid = some s := by
  simp [ReliableReader.stateOf, h.proxies, h.departed]

theorem OneProxy.modifyStateOf (h : r.OneProxy s) (f : WriterProxyState → WriterProxyState) :
    r.modifyStateOf s.proxy.remoteWriterGuid f = { r with writerProxies := [f s] } := by
  simp [ReliableReader.modifyStateOf, h.proxies, modifyFirst]

def CommittedUpTo (s : WriterProxyState) (b : Int) : Prop := ∀ x ∈ s.committed.ranges, x.2 ≤ b

theorem commitReleased_append (r : ReliableReader) (a b : List DeliveredSample) :
    r.commitReleased (a ++ b) =
      (((r.commitReleased a).1.commitReleased b).1,
        (r.commitReleased a).2 ++ ((r.commitReleased a).1.commitReleased b).2) := by
  induction a generalizing r with
  | nil => simp [commitReleased]
  | cons x a ih => simp [commitReleased, ih, List.append_assoc]

variable {b : Int}

theorem commitSample_own (h : r.OneProxy s) {x : DeliveredSample}
    (hend : x.coherentSetEnd = false) (hguid : x.writerGuid = s.proxy.remoteWriterGuid)
    (horiginal : x.originalWriter = none) (hb : CommittedUpTo s b) (hlt : b < x.sequenceNumber) :
    r.commitSample x =
      ({ r with
          writerProxies := [{ s with committed := (s.committed.insert x.sequenceNumber).1 }] },
        some x) := by
  have hfresh := (s.committed.insert_above x.sequenceNumber fun y hy => by
    have := hb y hy
    omega).1
  simp [commitSample, hend, horiginal, commitOwn, hguid, h.stateOf, hfresh, h.modifyStateOf]

theorem commitReleased_deliveries (h : r.OneProxy s) {x : HandOut}
    (hplain : originalWriterOf x.change.inlineQos = none) (hb : CommittedUpTo s b)
    (hlt : b < x.sn) :
    ∃ committed,
      r.commitReleased (x.deliveries s.proxy.remoteWriterGuid) =
        ({ r with writerProxies := [{ s with committed := committed }] },
          x.deliveries s.proxy.remoteWriterGuid) ∧
      CommittedUpTo { s with committed := committed } x.sn := by
  have hsame : r = { r with writerProxies := [{ s with committed := s.committed }] } := by
    rw [← h.proxies]
  have hown : ∀ e, x.change.coherentSetEnd = false →
      (deliveredSampleOf s.proxy.remoteWriterGuid x.change) = e →
      r.commitSample e = ({ r with
          writerProxies := [{ s with committed := (s.committed.insert x.sn).1 }] }, some e) := by
    rintro e hend rfl
    exact commitSample_own h hend rfl hplain hb hlt
  have habove := (s.committed.insert_above x.sn fun y hy => by
    have := hb y hy
    omega).2
  unfold HandOut.deliveries
  split
  · next hend =>
    refine ⟨s.committed, ?_, fun y hy => by have := hb y hy; omega⟩
    have hcommit : ∀ y : DeliveredSample, y.coherentSetEnd = true →
        r.commitReleased [y] = (r, [y]) := by
      intro y hy
      simp [commitReleased, commitSample, hy]
    rw [hcommit _ hend, ← hsame]
  · next hend =>
    have hend := Bool.eq_false_iff.mpr hend
    refine ⟨(s.committed.insert x.sn).1, ?_, habove⟩
    split
    · have hmarker : r.commitSample (DeliveredSample.incompleteSetEnd s.proxy.remoteWriterGuid
          x.change.sequenceNumber) = (r, some (DeliveredSample.incompleteSetEnd
          s.proxy.remoteWriterGuid x.change.sequenceNumber)) := rfl
      simp [commitReleased, hmarker, hown _ hend rfl]
    · simp [commitReleased, hown _ hend rfl]

theorem commitReleased_all (h : r.OneProxy s) {out : List HandOut}
    (hplain : ∀ x ∈ out, originalWriterOf x.change.inlineQos = none) {e : Int}
    (hb : CommittedUpTo s b) (hbe : b ≤ e) (hsorted : (out.map HandOut.sn).Pairwise (· < ·))
    (hrange : ∀ x ∈ out, b < x.sn ∧ x.sn ≤ e) :
    ∃ committed,
      r.commitReleased (out.flatMap (HandOut.deliveries s.proxy.remoteWriterGuid)) =
        ({ r with writerProxies := [{ s with committed := committed }] },
          out.flatMap (HandOut.deliveries s.proxy.remoteWriterGuid)) ∧
      CommittedUpTo { s with committed := committed } e := by
  induction out generalizing r s b with
  | nil =>
    refine ⟨s.committed, ?_, fun y hy => (hb y hy).trans hbe⟩
    simp [commitReleased, ← h.proxies]
  | cons x out ih =>
    rw [List.map_cons, List.pairwise_cons] at hsorted
    obtain ⟨c, heq, hc⟩ := commitReleased_deliveries h (hplain x (by simp)) hb
      (hrange x (by simp)).1
    have h' : OneProxy { r with writerProxies := [{ s with committed := c }] }
        { s with committed := c } := ⟨rfl, h.departed⟩
    obtain ⟨c', heq', hc'⟩ := ih h' (fun y hy => hplain y (by simp [hy])) hc
      (hrange x (by simp)).2 hsorted.2 fun y hy =>
        ⟨hsorted.1 _ (List.mem_map_of_mem hy), (hrange y (by simp [hy])).2⟩
    refine ⟨c', ?_, hc'⟩
    rw [List.flatMap_cons, commitReleased_append, heq]
    rw [heq']

end ReliableReader

inductive ReaderOp where
  | data (sourcePrefix : GuidPrefix) (data : DataSubmessage) (ts : Option HeTimestamp)
      (opener : Option PayloadOpener)
  | dataFrag (sourcePrefix : GuidPrefix) (df : DataFragSubmessage) (ts : Option HeTimestamp)
      (opener : Option PayloadOpener)
  | heartbeat (sourcePrefix : GuidPrefix) (hb : HeartbeatSubmessage) (now : Nat)
  | heartbeatFrag (sourcePrefix : GuidPrefix) (hbf : HeartbeatFragSubmessage) (now : Nat)
  | gap (sourcePrefix : GuidPrefix) (gap : GapSubmessage)
  | setBestEffort (bestEffort : Bool)
  | setReleaseBudget (budget : Option Nat)
  | setHeartbeatSuppressionDuration (duration : Nat)
  | setMaxSamplesPerProxy (max : Nat)
  | setForwarderTrusted (writer : Guid) (trusted : Bool)
  | setWriterDataMaxSize (writer : Guid) (max : Option Int)
  | releaseHeld
  | tickOutbound (now : Nat)

structure ReaderOutput where
  delivered : List DeliveredSample
  sent : List OutboundDatagram

namespace ReliableReader

def step (r : ReliableReader) : ReaderOp → ReliableReader × ReaderOutput
  | .data p data ts opener =>
    let (r, out) := r.handleData p data ts opener
    (r, ⟨out, []⟩)
  | .dataFrag p df ts opener =>
    let (r, out) := r.handleDataFrag p df ts opener
    (r, ⟨out, []⟩)
  | .heartbeat p hb now =>
    let (r, out) := r.handleHeartbeat p hb now
    (r, ⟨out, []⟩)
  | .heartbeatFrag p hbf now => ((r.handleHeartbeatFrag p hbf now).1, ⟨[], []⟩)
  | .gap p gap =>
    let (r, out) := r.handleGap p gap
    (r, ⟨out, []⟩)
  | .setBestEffort b => (r.setBestEffort b, ⟨[], []⟩)
  | .setReleaseBudget b => (r.setReleaseBudget b, ⟨[], []⟩)
  | .setHeartbeatSuppressionDuration d => (r.setHeartbeatSuppressionDuration d, ⟨[], []⟩)
  | .setMaxSamplesPerProxy m => (r.setMaxSamplesPerProxy m, ⟨[], []⟩)
  | .setForwarderTrusted w t => (r.setForwarderTrusted w t, ⟨[], []⟩)
  | .setWriterDataMaxSize w m => (r.setWriterDataMaxSize w m, ⟨[], []⟩)
  | .releaseHeld =>
    let (r, out) := r.releaseHeld
    (r, ⟨out, []⟩)
  | .tickOutbound now =>
    let (r, sent) := r.tickOutbound now
    (r, ⟨[], sent.toOption.getD []⟩)

end ReliableReader

namespace ReaderOp

/-- What a call is to the state of a matched writer: the classified DATA or
DATA_FRAG of that writer. -/
def arrival (own : Guid) (s : WriterProxyState) : ReaderOp → Arrival
  | .data p d ts opener =>
    if s.proxy.remoteWriterGuid = ⟨p, d.writerId⟩ then s.arrivalOfData own opener d ts
    else .ignored none
  | .dataFrag p df ts opener =>
    if s.proxy.remoteWriterGuid = ⟨p, df.writerId⟩ then (s.arrivalOfDataFrag own opener df ts).2
    else .ignored none
  | _ => .ignored none

def writerSn : ReaderOp → Int
  | .data _ d _ _ => d.writerSn
  | .dataFrag _ df _ _ => df.writerSn
  | _ => 0

def named (own : Guid) (s : WriterProxyState) : ReaderOp → List Int
  | .gap p g => if s.proxy.remoteWriterGuid = ⟨p, g.writerId⟩ then Delivery.gapNumbers g else []
  | op =>
    match op.arrival own s with
    | .ruledOut _ _ => [op.writerSn]
    | _ => []

def announcedFirst (s : WriterProxyState) : ReaderOp → Option Int
  | .heartbeat p hb _ =>
    if s.proxy.remoteWriterGuid = ⟨p, hb.writerId⟩ then some hb.firstSn else none
  | _ => none

inductive Admits (own : Guid) (s : WriterProxyState) : ReaderOp → Intake → Prop
  | nothing {op : ReaderOp} : op.named own s = [] → Admits own s op .nothing
  | arrival {op : ReaderOp} {i : Intake} : (∀ p g, op ≠ .gap p g) →
      Delivery.Brings s op.writerSn (op.arrival own s) i → Admits own s op i
  | heartbeat {p : GuidPrefix} {hb : HeartbeatSubmessage} (now : Nat) :
      s.proxy.remoteWriterGuid = ⟨p, hb.writerId⟩ →
        Admits own s (.heartbeat p hb now) (.announce hb.firstSn hb.lastSn)
  | gap {p : GuidPrefix} {g : GapSubmessage} :
      s.proxy.remoteWriterGuid = ⟨p, g.writerId⟩ →
        Admits own s (.gap p g) (.rule {n | n ∈ Delivery.gapNumbers g})

def Brought (Q : CacheChange → Prop) (own : Guid) (s : WriterProxyState) (op : ReaderOp) : Prop :=
  match op.arrival own s with
  | .change c => Q c
  | _ => True

instance (Q : CacheChange → Prop) [DecidablePred Q] (own : Guid) (s : WriterProxyState)
    (op : ReaderOp) : Decidable (op.Brought Q own s) :=
  match h : op.arrival own s with
  | .change c => decidable_of_iff (Q c) (by simp [Brought, h])
  | .ignored _ => .isTrue (by simp [Brought, h])
  | .ruledOut _ _ => .isTrue (by simp [Brought, h])

variable {own : Guid} {s : WriterProxyState} {op : ReaderOp} {c : CacheChange}

theorem Brought.of_change {Q : CacheChange → Prop} (h : op.Brought Q own s)
    (hc : op.arrival own s = .change c) : Q c := by
  rw [Brought, hc] at h
  exact h

def NotForwarded (own : Guid) (s : WriterProxyState) (op : ReaderOp) : Prop :=
  op.Brought (fun c => originalWriterOf c.inlineQos = none) own s

instance (own : Guid) (s : WriterProxyState) (op : ReaderOp) :
    Decidable (op.NotForwarded own s) :=
  inferInstanceAs (Decidable (op.Brought _ own s))

theorem Admits.change {i : Intake} (h : Admits own s op i) (hc : i.change? = some c) :
    op.arrival own s = .change c := by
  cases h with
  | nothing => cases hc
  | arrival _ hbrings =>
    generalize op.arrival own s = a at hbrings
    cases hbrings with
    | ignored => cases hc
    | ruledOut => cases hc
    | stored kept => rw [Option.some.inj hc]
    | handed => rw [Option.some.inj hc]
  | heartbeat => cases hc
  | gap => cases hc

theorem named_eq (own : Guid) (s : WriterProxyState) (hgap : ∀ p g, op ≠ .gap p g) :
    op.named own s = match op.arrival own s with
      | .ruledOut _ _ => [op.writerSn]
      | _ => [] := by
  unfold named
  split
  · exact absurd rfl (hgap _ _)
  · rfl

theorem Admits.displaced {displaced : Option Int} {kept : Bool}
    (h : Admits own s op (.store c displaced kept)) :
    displaced = s.displacedBy c.sequenceNumber := by
  cases h with
  | arrival _ hb =>
    generalize op.arrival own s = a at hb
    cases hb
    rfl

theorem Admits.rules {i : Intake} (h : Admits own s op i) :
    (∃ ns, i = .rule ns ∧ ∀ n, n ∈ ns ↔ n ∈ op.named own s) ∨
      ((∀ ns, i ≠ .rule ns) ∧ op.named own s = []) := by
  cases h with
  | nothing hidle => exact .inr ⟨fun ns => by simp, hidle⟩
  | arrival hgap hbrings =>
    have hnamed := named_eq own s hgap
    generalize op.arrival own s = a at hbrings hnamed
    cases hbrings with
    | ignored => exact .inr ⟨fun ns => by simp, hnamed⟩
    | ruledOut => exact .inl ⟨_, rfl, fun n => by simp [hnamed]⟩
    | stored kept => exact .inr ⟨fun ns => by simp, hnamed⟩
    | handed => exact .inr ⟨fun ns => by simp, hnamed⟩
  | heartbeat now hmatch => exact .inr ⟨fun ns => by simp, rfl⟩
  | @gap p g hmatch => exact .inl ⟨_, rfl, fun n => by simp [named, hmatch]⟩

theorem Admits.announces {first last : Int} (h : Admits own s op (.announce first last)) :
    op.announcedFirst s = some first := by
  cases h with
  | arrival _ hbrings =>
    generalize op.arrival own s = a at hbrings
    cases hbrings
  | heartbeat now hmatch => simp [announcedFirst, hmatch]

end ReaderOp

namespace ReliableReader

structure Follows (w : Guid) (r : ReliableReader) (s : WriterProxyState) : Prop where
  one : r.OneProxy s
  writer : s.proxy.remoteWriterGuid = w
  shape : s.Shape
  committed : CommittedUpTo s s.deliveredUpTo
  held : ∀ n, s.stream.held n ≠ none → s.stream.delivered < n
  plain : ∀ n c, s.stream.held n = some c → originalWriterOf c.inlineQos = none

structure SameSettings (r r' : ReliableReader) : Prop where
  guid : r'.guid = r.guid
  bestEffort : r'.bestEffort = r.bestEffort

structure Stepped (w : Guid) (u : Prop) (r : ReliableReader) (s : WriterProxyState)
    (op : ReaderOp) (i : Intake) (out : List HandOut) (r' : ReliableReader)
    (s' : WriterProxyState) (delivered : List DeliveredSample) : Prop where
  follows : r'.Follows w s'
  admits : op.Admits r.guid s i
  call : Stream.Call r.bestEffort u s.stream i out s'.stream
  deliveries : delivered = out.flatMap (HandOut.deliveries w)

variable {w : Guid} {u : Prop} {r : ReliableReader} {s : WriterProxyState} {op : ReaderOp}

theorem Follows.stepped_nothing (h : r.Follows w s) (hidle : op.named r.guid s = [])
    {r' : ReliableReader} {s' : WriterProxyState} (hone : r'.OneProxy s') (hshape : s'.Shape)
    (hstream : s'.stream = s.stream) (hsame : WriterProxyState.SameWriter s s') :
    Stepped w u r s op .nothing [] r' s' [] where
  follows :=
    { one := hone
      writer := hsame.guid.trans h.writer
      shape := hshape
      committed := by
        have hdel : s'.deliveredUpTo = s.deliveredUpTo := congrArg Stream.delivered hstream
        rw [CommittedUpTo, hsame.committed, hdel]
        exact h.committed
      held := hstream ▸ h.held
      plain := hstream ▸ h.plain }
  admits := .nothing hidle
  call := ⟨trivial, ⟨[], hstream ▸ .done _, rfl⟩, hstream ▸ id⟩
  deliveries := rfl

theorem Follows.stepped_called (h : r.Follows w s) (hop : op.NotForwarded r.guid s) {i : Intake}
    (hadmits : op.Admits r.guid s i) {out : List HandOut} {d : Delivery}
    (hcalled : Delivery.Called r.bestEffort u ⟨s, r.releaseBudget, []⟩ i out d)
    {r₁ : ReliableReader} (hone : r₁.OneProxy d.state) (hsettings : SameSettings r r₁) :
    ∃ s', Stepped w u r s op i out (r₁.commitReleased d.out).1 s' (r₁.commitReleased d.out).2 ∧
      SameSettings r (r₁.commitReleased d.out).1 ∧
      (r₁.commitReleased d.out).1.releaseBudget = r₁.releaseBudget := by
  have hordered := hcalled.call.ordered h.held
  have hplain := hcalled.call.allChanges
    (Q := fun c => originalWriterOf c.inlineQos = none)
    (fun c hc => hop.of_change (hadmits.change hc)) h.plain
  have hwriter : d.state.proxy.remoteWriterGuid = w := hcalled.same.guid.trans h.writer
  have hcommitted : CommittedUpTo d.state s.deliveredUpTo := by
    rw [CommittedUpTo, hcalled.same.committed]
    exact h.committed
  have hout : d.out = out.flatMap (HandOut.deliveries d.state.proxy.remoteWriterGuid) := by
    rw [hcalled.deliveries, hcalled.same.guid]
    rfl
  obtain ⟨committed, heq, hup⟩ := commitReleased_all hone hplain.1 hcommitted hordered.le
    hordered.sorted hordered.range
  rw [hout, heq]
  refine ⟨{ d.state with committed := committed }, ⟨?_, hadmits, hcalled.call, by rw [hwriter]⟩,
    ⟨hsettings.guid, hsettings.bestEffort⟩, rfl⟩
  exact
    { one := ⟨rfl, hone.departed⟩
      writer := hwriter
      shape := ⟨hcalled.shape.absorbed, hcalled.shape.cache⟩
      committed := hup
      held := hordered.held
      plain := hplain.2 }

/-! ### What the outgoing messages leave alone -/

theorem buildNackFrags_frame (s : WriterProxyState) (sns : List Int) (r : ReliableReader) :
    ∃ n, (buildNackFrags s sns r).1 = { r with nackfragCount := n } := by
  induction sns generalizing r with
  | nil => exact ⟨_, rfl⟩
  | cons sn sns ih =>
    obtain ⟨n, hn⟩ := ih { r with nackfragCount := wrapSuccI32 r.nackfragCount }
    unfold buildNackFrags
    simp only
    split
    · exact ⟨_, rfl⟩
    · split <;> next heq => rw [heq] at hn; exact ⟨n, hn⟩

theorem respond_frame (r : ReliableReader) (idx : Nat) (s : WriterProxyState) :
    ∃ a n, (r.respond idx s).1 =
      { r with
        writerProxies := r.writerProxies.set idx { s with pendingAcknackSince := none }
        acknackCount := a
        nackfragCount := n } := by
  obtain ⟨n, hn⟩ := buildNackFrags_frame { s with pendingAcknackSince := none }
    s.assembler.incompleteSns
    { r with writerProxies := r.writerProxies.set idx { s with pendingAcknackSince := none } }
  unfold respond
  simp only
  split
  · next heq =>
    rw [heq] at hn
    exact ⟨_, n, hn⟩
  · next heq =>
    rw [heq] at hn
    obtain rfl : _ = _ := hn
    split <;> exact ⟨_, n, rfl⟩

theorem OneProxy.tickOutbound_frame (h : r.OneProxy s) (now : Nat) :
    ∃ p a n, (r.tickOutbound now).1 =
      { r with
        writerProxies := [{ s with pendingAcknackSince := p }]
        acknackCount := a
        nackfragCount := n } := by
  obtain ⟨a, n, hframe⟩ := r.respond_frame 0 s
  have hset : r.writerProxies.set 0 { s with pendingAcknackSince := none } =
      [{ s with pendingAcknackSince := none }] := by simp [h.proxies]
  rw [hset] at hframe
  unfold tickOutbound
  split
  · exact ⟨none, r.acknackCount, r.nackfragCount, by simp [h.proxies]⟩
  · have hlen : r.writerProxies.length = 1 := by simp [h.proxies]
    have hget : r.writerProxies[0]? = some s := by simp [h.proxies]
    simp only [hlen, tickFrom, hget]
    split
    · split
      · next heq =>
        rw [heq] at hframe
        exact ⟨none, a, n, hframe⟩
      · next heq =>
        rw [heq] at hframe
        exact ⟨none, a, n, hframe⟩
    · exact ⟨s.pendingAcknackSince, r.acknackCount, r.nackfragCount, by simp [← h.proxies]⟩

theorem OneProxy.proxyIndexByWriter (h : r.OneProxy s) (g : Guid) :
    r.proxyIndexByWriter g = if s.proxy.remoteWriterGuid = g then some 0 else none := by
  simp [ReliableReader.proxyIndexByWriter, h.proxies, List.findIdx?_cons]

def StepSpec (w : Guid) (u : Prop) (r : ReliableReader) (s : WriterProxyState) (op : ReaderOp)
    (r' : ReliableReader) (delivered : List DeliveredSample) : Prop :=
  ∃ i out s', Stepped w u r s op i out r' s' delivered ∧ r'.guid = r.guid ∧
    ((∀ b, op ≠ .setBestEffort b) → r'.bestEffort = r.bestEffort) ∧
    ((∀ b, op ≠ .setReleaseBudget b) → u → r'.releaseBudget = none)

section

variable (h : r.Follows w s)
include h

theorem Follows.spec_nothing (hidle : op.named r.guid s = [])
    (hu : u → r.releaseBudget = none) {r' : ReliableReader} (s' : WriterProxyState)
    (hone : r'.OneProxy s') (hshape : s'.Shape) (hstream : s'.stream = s.stream)
    (hsame : WriterProxyState.SameWriter s s') (hguid : r'.guid = r.guid)
    (hbe : (∀ b, op ≠ .setBestEffort b) → r'.bestEffort = r.bestEffort)
    (hbudget : (∀ b, op ≠ .setReleaseBudget b) → r'.releaseBudget = r.releaseBudget) :
    StepSpec w u r s op r' [] :=
  ⟨.nothing, [], s', h.stepped_nothing hidle hone hshape hstream hsame, hguid, hbe,
    fun hop hu' => (hbudget hop).trans (hu hu')⟩

theorem Follows.spec_deliverAt (hop : op.NotForwarded r.guid s)
    (hu : u → r.releaseBudget = none) {f : Delivery → Delivery × Option ReaderCounter}
    (hf : ∃ i out, op.Admits r.guid s i ∧
      Delivery.Called r.bestEffort u ⟨s, r.releaseBudget, []⟩ i out
        (f ⟨s, r.releaseBudget, []⟩).1) :
    StepSpec w u r s op (r.deliverAt 0 f).1 (r.deliverAt 0 f).2 := by
  obtain ⟨i, out, hadmits, hcalled⟩ := hf
  have hget : r.writerProxies[0]? = some s := by simp [h.one.proxies]
  unfold deliverAt
  simp only [hget]
  generalize f ⟨s, r.releaseBudget, []⟩ = res at hcalled
  obtain ⟨d, counter⟩ := res
  generalize hr₁ : bump { r with
    writerProxies := r.writerProxies.set 0 d.state
    releaseBudget := d.budget } counter = r₁
  have hone : r₁.OneProxy d.state ∧ SameSettings r r₁ ∧ r₁.releaseBudget = d.budget := by
    subst hr₁
    have hset : r.writerProxies.set 0 d.state = [d.state] := by simp [h.one.proxies]
    rw [hset]
    cases counter with
    | none => exact ⟨⟨rfl, h.one.departed⟩, ⟨rfl, rfl⟩, rfl⟩
    | some k => cases k <;> exact ⟨⟨rfl, h.one.departed⟩, ⟨rfl, rfl⟩, rfl⟩
  obtain ⟨s', hstepped, hsettings, hbudget⟩ :=
    h.stepped_called hop hadmits hcalled hone.1 hone.2.1
  exact ⟨i, out, s', hstepped, hsettings.guid, fun _ => hsettings.bestEffort,
    fun _ hu' => hbudget.trans (hone.2.2.trans (hcalled.budget (hu hu')))⟩

theorem Follows.spec_unmatched (hidle : op.named r.guid s = [])
    (hu : u → r.releaseBudget = none) (guid : Guid) (sn : Int) :
    StepSpec w u r s op (r.rememberUnmatched guid sn) [] := by
  unfold rememberUnmatched
  simp only
  split
  · exact h.spec_nothing hidle hu s ⟨h.one.proxies, h.one.departed⟩ h.shape rfl (.refl s) rfl
      (fun _ => rfl) fun _ => rfl
  · split
    · exact h.spec_nothing hidle hu s ⟨h.one.proxies, h.one.departed⟩ h.shape rfl (.refl s) rfl
        (fun _ => rfl) fun _ => rfl
    · exact h.spec_nothing hidle hu s ⟨h.one.proxies, h.one.departed⟩ h.shape rfl (.refl s) rfl
        (fun _ => rfl) fun _ => rfl

theorem Follows.spec_data (hu : u → r.releaseBudget = none) (p : GuidPrefix)
    (d : DataSubmessage) (ts : Option HeTimestamp) (opener : Option PayloadOpener)
    (hop : (ReaderOp.data p d ts opener).NotForwarded r.guid s) :
    StepSpec w u r s (.data p d ts opener) (r.handleData p d ts opener).1
      (r.handleData p d ts opener).2 := by
  unfold handleData
  rw [h.one.proxyIndexByWriter]
  by_cases hmatch : s.proxy.remoteWriterGuid = ⟨p, d.writerId⟩
  · rw [if_pos hmatch]
    refine h.spec_deliverAt hop hu ?_
    obtain ⟨i, out, hbrings, hcalled⟩ := Delivery.receiveData_called r.bestEffort
      (d := ⟨s, r.releaseBudget, []⟩) h.shape hu r.guid opener d ts
    refine ⟨i, out, .arrival (by simp) ?_, hcalled⟩
    simpa [ReaderOp.arrival, ReaderOp.writerSn, hmatch] using hbrings
  · rw [if_neg hmatch]
    exact h.spec_unmatched (by simp [ReaderOp.named, ReaderOp.arrival, hmatch]) hu _ _

theorem Follows.spec_dataFrag (hu : u → r.releaseBudget = none)
    (p : GuidPrefix) (df : DataFragSubmessage) (ts : Option HeTimestamp)
    (opener : Option PayloadOpener)
    (hop : (ReaderOp.dataFrag p df ts opener).NotForwarded r.guid s) :
    StepSpec w u r s (.dataFrag p df ts opener) (r.handleDataFrag p df ts opener).1
      (r.handleDataFrag p df ts opener).2 := by
  unfold handleDataFrag
  rw [h.one.proxyIndexByWriter]
  by_cases hmatch : s.proxy.remoteWriterGuid = ⟨p, df.writerId⟩
  · rw [if_pos hmatch]
    refine h.spec_deliverAt hop hu ?_
    obtain ⟨i, out, hbrings, hcalled⟩ := Delivery.receiveDataFrag_called r.bestEffort
      (d := ⟨s, r.releaseBudget, []⟩) h.shape hu r.guid opener df ts
    refine ⟨i, out, .arrival (by simp) ?_, hcalled⟩
    simpa [ReaderOp.arrival, ReaderOp.writerSn, hmatch] using hbrings
  · rw [if_neg hmatch]
    exact h.spec_unmatched (by simp [ReaderOp.named, ReaderOp.arrival, hmatch]) hu _ _

theorem Follows.spec_noteUnknownSrc (hidle : op.named r.guid s = [])
    (hu : u → r.releaseBudget = none) : StepSpec w u r s op r.noteUnknownSrc [] :=
  h.spec_nothing hidle hu s ⟨h.one.proxies, h.one.departed⟩ h.shape rfl (.refl s) rfl (fun _ => rfl)
    fun _ => rfl

theorem Follows.spec_self (hidle : op.named r.guid s = [])
    (hu : u → r.releaseBudget = none) : StepSpec w u r s op r [] :=
  h.spec_nothing hidle hu s h.one h.shape rfl (.refl s) rfl (fun _ => rfl) fun _ => rfl

section

variable (hu : u → r.releaseBudget = none)
include hu

theorem Follows.spec_heartbeat (p : GuidPrefix) (hb : HeartbeatSubmessage) (now : Nat) :
    StepSpec w u r s (.heartbeat p hb now) (r.handleHeartbeat p hb now).1
      (r.handleHeartbeat p hb now).2 := by
  unfold handleHeartbeat
  rw [h.one.proxyIndexByWriter]
  by_cases hmatch : s.proxy.remoteWriterGuid = ⟨p, hb.writerId⟩
  · rw [if_pos hmatch]
    simp only
    split
    · exact h.spec_self rfl hu
    · refine h.spec_deliverAt
        (show (ReaderOp.heartbeat p hb now).NotForwarded r.guid s from trivial)
        hu ?_
      obtain ⟨out, hcalled⟩ := Delivery.receiveHeartbeat_called r.bestEffort
        (d := ⟨s, r.releaseBudget, []⟩) h.shape hu hb now
      exact ⟨_, out, .heartbeat now hmatch, hcalled⟩
  · rw [if_neg hmatch]
    simp only
    split
    · exact h.spec_noteUnknownSrc rfl hu
    · exact h.spec_unmatched rfl hu _ _

theorem Follows.spec_gap (p : GuidPrefix) (gap : GapSubmessage) :
    StepSpec w u r s (.gap p gap) (r.handleGap p gap).1 (r.handleGap p gap).2 := by
  unfold handleGap
  rw [h.one.proxyIndexByWriter]
  by_cases hmatch : s.proxy.remoteWriterGuid = ⟨p, gap.writerId⟩
  · rw [if_pos hmatch]
    refine h.spec_deliverAt (show (ReaderOp.gap p gap).NotForwarded r.guid s from trivial) hu ?_
    obtain ⟨out, hcalled⟩ := Delivery.receiveGap_called r.bestEffort
      (d := ⟨s, r.releaseBudget, []⟩) h.shape hu gap
    exact ⟨_, out, .gap hmatch, hcalled⟩
  · rw [if_neg hmatch]
    exact h.spec_noteUnknownSrc (by simp [ReaderOp.named, hmatch]) hu

theorem Follows.spec_heartbeatFrag (p : GuidPrefix) (hbf : HeartbeatFragSubmessage) (now : Nat) :
    StepSpec w u r s (.heartbeatFrag p hbf now) (r.handleHeartbeatFrag p hbf now).1 [] := by
  unfold handleHeartbeatFrag
  rw [h.one.proxyIndexByWriter]
  by_cases hmatch : s.proxy.remoteWriterGuid = ⟨p, hbf.writerId⟩
  · have hget : r.writerProxies[0]? = some s := by simp [h.one.proxies]
    rw [if_pos hmatch]
    simp only [hget]
    split
    · exact h.spec_self rfl hu
    · split
      · exact h.spec_nothing rfl hu ({ s with
            pendingAcknackSince := s.pendingAcknackSince.or (some now) })
          ⟨by simp [h.one.proxies], h.one.departed⟩ ⟨h.shape.absorbed, h.shape.cache⟩ rfl ⟨rfl, rfl⟩
          rfl (fun _ => rfl) fun _ => rfl
      · exact h.spec_self rfl hu
  · rw [if_neg hmatch]
    exact h.spec_noteUnknownSrc rfl hu

end

end

theorem drainDeparted_of_nil (h : r.departed = []) : r.drainDeparted = r := by
  have hsame : { r with departed := [] } = r := by rw [← h]
  simp [drainDeparted, h, hsame]

theorem Follows.spec_releaseHeld (h : r.Follows w s) (hu : u → r.releaseBudget = none) :
    StepSpec w u r s .releaseHeld r.releaseHeld.1 r.releaseHeld.2 := by
  obtain ⟨out, hcalled⟩ : ∃ out, Delivery.Called r.bestEffort u ⟨s, r.releaseBudget, []⟩ .nothing
      out (Delivery.collectInOrder r.bestEffort ⟨s, r.releaseBudget, []⟩) :=
    Delivery.called_collect hu trivial rfl h.shape (.refl s) (by simp [Stream.takeOut]) id
  have hcollect : collectStates r.bestEffort r.writerProxies r.releaseBudget =
      ([(Delivery.collectInOrder r.bestEffort ⟨s, r.releaseBudget, []⟩).state],
        (Delivery.collectInOrder r.bestEffort ⟨s, r.releaseBudget, []⟩).budget,
        (Delivery.collectInOrder r.bestEffort ⟨s, r.releaseBudget, []⟩).out) := by
    simp [h.one.proxies, collectStates]
  generalize Delivery.collectInOrder r.bestEffort ⟨s, r.releaseBudget, []⟩ = d at hcalled hcollect
  have hnone : collectStates r.bestEffort r.departed d.budget = ([], d.budget, []) := by
    simp [h.one.departed, collectStates]
  have hone : OneProxy
      { r with writerProxies := [d.state], departed := [], releaseBudget := d.budget } d.state :=
    ⟨rfl, rfl⟩
  obtain ⟨s', hstepped, hsettings, hbudget⟩ := h.stepped_called
    (show ReaderOp.releaseHeld.NotForwarded r.guid s from trivial) (.nothing rfl) hcalled hone
    ⟨rfl, rfl⟩
  have heq : r.releaseHeld =
      ((commitReleased
        { r with writerProxies := [d.state], departed := [], releaseBudget := d.budget } d.out).1,
        (commitReleased
          { r with writerProxies := [d.state], departed := [], releaseBudget := d.budget }
            d.out).2) := by
    have hdeparted := hstepped.follows.one.departed
    unfold releaseHeld
    simp only [hcollect, hnone, List.append_nil]
    rw [drainDeparted_of_nil hdeparted]
  rw [heq]
  exact ⟨.nothing, out, s', hstepped, hsettings.guid, fun _ => hsettings.bestEffort,
    fun _ hu' => hbudget.trans (hcalled.budget (hu hu'))⟩

theorem Follows.spec_modify (h : r.Follows w s) (hidle : op.named r.guid s = [])
    (hu : u → r.releaseBudget = none) (g : Guid) {f : WriterProxyState → WriterProxyState}
    (hshape : (f s).Shape) (hstream : (f s).stream = s.stream)
    (hsame : WriterProxyState.SameWriter s (f s)) :
    StepSpec w u r s op
      (match r.proxyIndexByWriter g with
      | none => r
      | some idx => { r with writerProxies := r.writerProxies.modify idx f }) [] := by
  rw [h.one.proxyIndexByWriter]
  split
  · exact h.spec_self hidle hu
  · next idx hidx =>
    split at hidx
    · obtain rfl := Option.some.inj hidx
      exact h.spec_nothing hidle hu (f s) ⟨by simp [h.one.proxies, List.modify], h.one.departed⟩
        hshape hstream hsame rfl (fun _ => rfl) fun _ => rfl
    · cases hidx

theorem Follows.step_spec (h : r.Follows w s) (hop : op.NotForwarded r.guid s)
    (hu : u → r.releaseBudget = none) :
    StepSpec w u r s op (r.step op).1 (r.step op).2.delivered := by
  cases op with
  | data p d ts opener => exact h.spec_data hu p d ts opener hop
  | dataFrag p df ts opener => exact h.spec_dataFrag hu p df ts opener hop
  | heartbeat p hb now => exact h.spec_heartbeat hu p hb now
  | heartbeatFrag p hbf now => exact h.spec_heartbeatFrag hu p hbf now
  | gap p gap => exact h.spec_gap hu p gap
  | setBestEffort b =>
    exact h.spec_nothing rfl hu s ⟨h.one.proxies, h.one.departed⟩ h.shape rfl (.refl s) rfl
      (fun hne => absurd rfl (hne b)) fun _ => rfl
  | setReleaseBudget b =>
    exact h.spec_nothing rfl hu s ⟨h.one.proxies, h.one.departed⟩ h.shape rfl (.refl s) rfl
      (fun _ => rfl) fun hne => absurd rfl (hne b)
  | setHeartbeatSuppressionDuration d =>
    exact h.spec_nothing rfl hu s ⟨h.one.proxies, h.one.departed⟩ h.shape rfl (.refl s) rfl
      (fun _ => rfl) fun _ => rfl
  | setMaxSamplesPerProxy m =>
    exact h.spec_nothing rfl hu ({ s with
        receivedCache := s.receivedCache.setKindAndMax s.receivedCache.kind m })
      ⟨by simp [step, setMaxSamplesPerProxy, h.one.proxies], h.one.departed⟩
      ⟨h.shape.absorbed, h.shape.cache.kind, h.shape.cache.depth, h.shape.cache.keyed⟩ rfl
      ⟨rfl, rfl⟩ rfl (fun _ => rfl) fun _ => rfl
  | setForwarderTrusted g trusted =>
    exact h.spec_modify rfl hu g (f := fun s => { s with forwarderTrusted := trusted })
      ⟨h.shape.absorbed, h.shape.cache⟩ rfl ⟨rfl, rfl⟩
  | setWriterDataMaxSize g max =>
    exact h.spec_modify rfl hu g
      (f := fun s => { s with
        dataMaxSize := max.bind fun m => if 0 ≤ m then some m.toNat else none })
      ⟨h.shape.absorbed, h.shape.cache⟩ rfl ⟨rfl, rfl⟩
  | releaseHeld => exact h.spec_releaseHeld hu
  | tickOutbound now =>
    obtain ⟨p, a, n, heq⟩ := h.one.tickOutbound_frame now
    have heq : (r.step (.tickOutbound now)).1 = _ := heq
    rw [heq]
    exact h.spec_nothing rfl hu { s with pendingAcknackSince := p } ⟨rfl, h.one.departed⟩
      ⟨h.shape.absorbed, h.shape.cache⟩ rfl ⟨rfl, rfl⟩ rfl (fun _ => rfl) fun _ => rfl

/-! ### Where a run starts -/

/-- A reader just matched with the writer `w` alone: nothing has arrived from it,
though changes up to some number may have been announced before. -/
structure JustMatched (w : Guid) (r : ReliableReader) (s : WriterProxyState) : Prop where
  one : r.OneProxy s
  writer : s.proxy.remoteWriterGuid = w
  first : s.proxy.firstAvailableSn = 1
  known : s.proxy.knownUpTo = 0 ∧ s.proxy.received = ∅ ∧ s.proxy.irrelevant = ∅
  cache : ∃ maxSamples, s.receivedCache = HistoryCache.new maxSamples
  delivered : s.deliveredUpTo = 0
  coherent : s.coherent = none
  committed : s.committed = SnRanges.empty

theorem JustMatched.stream (h : r.JustMatched w s) :
    s.stream = ⟨1, s.proxy.lastAvailableSn, 0, ∅, fun _ => none, none⟩ := by
  obtain ⟨hup, hreceived, hirrelevant⟩ := h.known
  obtain ⟨max, hcache⟩ := h.cache
  refine Stream.ext h.first rfl h.delivered (Set.eq_empty_of_forall_notMem fun n => ?_)
    (funext fun n => by simp [WriterProxyState.stream, hcache, HistoryCache.new]) h.coherent
  rw [WriterProxyState.mem_stream_known, WriterProxy.isKnown_iff, h.first, hup, hreceived,
    hirrelevant]
  simp only [Finset.notMem_empty, or_false]
  omega

theorem JustMatched.follows (h : r.JustMatched w s) : r.Follows w s := by
  obtain ⟨hup, hreceived, hirrelevant⟩ := h.known
  obtain ⟨max, hcache⟩ := h.cache
  refine ⟨h.one, h.writer, ⟨⟨?_, ?_, ?_⟩, ?_⟩, ?_, ?_, ?_⟩
  · rw [h.first, hup]
    omega
  · simp [hreceived]
  · simp [hirrelevant]
  · rw [hcache]
    exact ⟨rfl, rfl, fun n c hn => by simp [HistoryCache.new] at hn⟩
  · rw [CommittedUpTo, h.committed]
    simp [SnRanges.empty]
  · simp [h.stream]
  · simp [h.stream]

theorem JustMatched.settled (h : r.JustMatched w s) : s.stream.Settled u := by
  rw [h.stream]
  exact .inr ⟨rfl, by simp, by simp⟩

end ReliableReader

/-! ### The crate's test reader

The fixtures of the reader's own tests, for the runs on fixed inputs. -/

namespace ReaderFixture

def singleWriterGuid : Guid :=
  ⟨GuidPrefix.repeated 1, EntityId.userWriterWithKey 0x10 0x20 0x30⟩

def readerGuid : Guid := ⟨GuidPrefix.repeated 2, EntityId.userReaderWithKey 0xA0 0xB0 0xC0⟩

def makeReader (maxSamples : Nat) : ReliableReader :=
  .new
    { guid := readerGuid
      vendorId := .zerodds
      writerProxies := [.new singleWriterGuid [] [] true]
      maxSamplesPerProxy := maxSamples
      heartbeatResponseDelay := 200000000
      assemblerCaps := .default }

def writerState (maxSamples : Nat) : WriterProxyState :=
  .new (.new singleWriterGuid [] [] true) maxSamples .default

theorem makeReader_justMatched (maxSamples : Nat) :
    (makeReader maxSamples).JustMatched singleWriterGuid (writerState maxSamples) where
  one := ⟨rfl, rfl⟩
  writer := rfl
  first := rfl
  known := ⟨rfl, rfl, rfl⟩
  cache := ⟨maxSamples, rfl⟩
  delivered := rfl
  coherent := rfl
  committed := rfl

def data (n : Int) (byte : UInt8) : DataSubmessage where
  extraFlags := 0
  readerId := readerGuid.entityId
  writerId := singleWriterGuid.entityId
  writerSn := n
  inlineQos := none
  dataFlag := true
  keyFlag := false
  nonStandardFlag := false
  serializedPayload := [byte]

def member (n : Int) (first : Option Int) : DataSubmessage :=
  { data n 0xAA with inlineQos := first.map fun f => InlineQos.coherentSetInlineQos f true }

def setEnd (n : Int) : DataSubmessage :=
  { member n (some sequenceNumberUnknown) with dataFlag := false, serializedPayload := [] }

def heartbeat (first last : Int) : HeartbeatSubmessage where
  readerId := readerGuid.entityId
  writerId := singleWriterGuid.entityId
  firstSn := first
  lastSn := last
  count := 1
  finalFlag := false
  livelinessFlag := false
  groupInfo := none

def gap (n : Int) : GapSubmessage where
  readerId := readerGuid.entityId
  writerId := singleWriterGuid.entityId
  gapStart := n
  gapList := ⟨n + 1, 0, []⟩
  groupInfo := none
  filteredCount := none

def dataOp (d : DataSubmessage) : ReaderOp := .data singleWriterGuid.guidPrefix d none none

def heartbeatOp (first last : Int) (now : Nat) : ReaderOp :=
  .heartbeat singleWriterGuid.guidPrefix (heartbeat first last) now

def gapOp (n : Int) : ReaderOp := .gap singleWriterGuid.guidPrefix (gap n)

end ReaderFixture
end ZeroDds.Rtps
