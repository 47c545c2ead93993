/-
One DATA or a series of DATA_FRAGs.
-/
import ZeroDds.Rtps.DeliveryOrder
import ZeroDds.Rtps.FragmentSeries
import ZeroDds.Rtps.ReachableReaders
import ZeroDds.Rtps.ReadersAlike

namespace ZeroDds.Rtps

open FragmentedSample WriterProxyState

/-! ### The assembler is left alone -/

namespace Delivery

variable {d : Delivery} {be : Bool}

theorem collectStep_assembler {d' : Delivery} (h : d.collectStep be = some d') :
    d'.state.assembler = d.state.assembler := by
  rcases collectStep_cases h with
    ⟨c, -, -, rfl⟩ | ⟨-, ⟨-, rfl⟩ | ⟨-, -, rfl⟩ | ⟨-, -, -, low, -, -, rfl⟩⟩
  · rfl
  · rfl
  · rfl
  · obtain ⟨n, hn⟩ := d.state.loseBefore_frame low
    simp [afterSkip, hn]

theorem collectLoop_assembler (fuel : Nat) :
    (collectLoop be fuel d).state.assembler = d.state.assembler := by
  induction fuel generalizing d with
  | zero => rfl
  | succ fuel ih =>
    cases hstep : d.collectStep be with
    | none => rw [collectLoop_of_done hstep]
    | some d' =>
      simp only [collectLoop, hstep]
      rw [ih, collectStep_assembler hstep]

theorem collectInOrder_assembler : (d.collectInOrder be).state.assembler = d.state.assembler :=
  collectLoop_assembler _

theorem storeAndCollect_assembler (c : CacheChange) :
    (d.storeAndCollect be c).1.state.assembler = d.state.assembler := by
  have hstored := storeReceived_assembler d.state d.state.assembler c
  unfold storeAndCollect
  rcases hres : d.state.storeReceived c with ⟨s, kept⟩
  have hs : s.assembler = d.state.assembler := by
    have : d.state.storeReceived c =
        ({ (d.state.storeReceived c).1 with assembler := d.state.assembler },
          (d.state.storeReceived c).2) := hstored
    rw [hres] at this
    exact congrArg (fun e => e.1.assembler) this
  cases kept with
  | false => exact hs
  | true => exact collectInOrder_assembler.trans hs

theorem takeArrival_assembler (be : Bool) (sn : Int) (x : Arrival) :
    (d.takeArrival be false sn x).1.state.assembler = d.state.assembler := by
  cases x with
  | ignored k => rfl
  | ruledOut u k => exact collectInOrder_assembler
  | change c => exact storeAndCollect_assembler c

end Delivery

namespace ReliableReader

variable {r : ReliableReader} {p : GuidPrefix} {d : DataSubmessage} {x : FragmentedSample}
  {df : DataFragSubmessage} {dfs : List DataFragSubmessage} {ts : Option HeTimestamp}
  {opener : Option PayloadOpener} {idx : Nat} {s : WriterProxyState} {covered : Finset Nat}

def fragmentOps (p : GuidPrefix) (ts : Option HeTimestamp) (opener : Option PayloadOpener)
    (dfs : List DataFragSubmessage) : List ReaderOp :=
  dfs.map fun df => .dataFrag p df ts opener

def refilled (r : ReliableReader) (idx : Nat) (s : WriterProxyState) (a : FragmentAssembler) :
    ReliableReader :=
  { r with writerProxies := r.writerProxies.set idx { s with assembler := a } }

section

variable (hget : r.writerProxies[idx]? = some s)
include hget

theorem set_writerProxies_self :
    r.writerProxies.set idx s = r.writerProxies := by
  obtain ⟨hlt, rfl⟩ := List.getElem?_eq_some_iff.mp hget
  exact List.set_getElem_self hlt

theorem refilled_self :
    r.refilled idx s s.assembler = r := by
  have hsame : r.writerProxies.set idx { s with assembler := s.assembler } = r.writerProxies :=
    set_writerProxies_self hget
  rw [refilled, hsame]

theorem getElem?_refilled (a : FragmentAssembler) :
    (r.refilled idx s a).writerProxies[idx]? = some { s with assembler := a } := by
  have hlt := (List.getElem?_eq_some_iff.mp hget).1
  simp [refilled, hlt]

end

theorem proxyIndexByWriter_eq (r : ReliableReader) (g : Guid) :
    r.proxyIndexByWriter g =
      (r.writerProxies.map fun s => s.proxy.remoteWriterGuid).findIdx? fun w => decide (w = g) := by
  rw [List.findIdx?_map]
  rfl

theorem proxyIndexByWriter_refilled (hget : r.writerProxies[idx]? = some s)
    (a : FragmentAssembler) (g : Guid) :
    (r.refilled idx s a).proxyIndexByWriter g = r.proxyIndexByWriter g := by
  obtain ⟨hlt, rfl⟩ := List.getElem?_eq_some_iff.mp hget
  have hself : (r.writerProxies.map fun s => s.proxy.remoteWriterGuid).set idx
      r.writerProxies[idx].proxy.remoteWriterGuid =
      r.writerProxies.map fun s => s.proxy.remoteWriterGuid := by
    rw [← List.map_set, List.set_getElem_self]
  have hguids : (r.refilled idx r.writerProxies[idx] a).writerProxies.map
      (fun s => s.proxy.remoteWriterGuid) =
      r.writerProxies.map fun s => s.proxy.remoteWriterGuid := by
    rw [refilled, List.map_set, hself]
  rw [proxyIndexByWriter_eq, proxyIndexByWriter_eq, hguids]

/-! ### Fragments that complete nothing -/

theorem ReadersAlike.bump {ok : Guid → Int → Prop} {r' : ReliableReader} (h : ReadersAlike ok r r')
    (k k' : Option ReaderCounter) : ReadersAlike ok (r.bump k) (r'.bump k') := by
  have hleft : ReadersAlike ok (r.bump k) r' := by
    cases k with
    | none => exact h
    | some k => cases k <;> exact ⟨h.proxies, h.departed, h.budget, h.forwarded, h.ended⟩
  cases k' with
  | none => exact hleft
  | some k' =>
    cases k' <;>
      exact ⟨hleft.proxies, hleft.departed, hleft.budget, hleft.forwarded, hleft.ended⟩

theorem step_dataFrag_incomplete (hidx : r.proxyIndexByWriter ⟨p, df.writerId⟩ = some idx)
    (hget : r.writerProxies[idx]? = some s) (hnew : s.proxy.isKnown df.writerSn = false)
    (hdel : s.deliveredUpTo < df.writerSn) (hnone : (s.assembler.insert df).2 = none)
    (ts : Option HeTimestamp) (opener : Option PayloadOpener) :
    r.step (.dataFrag p df ts opener) =
      (r.refilled idx s (s.assembler.insert df).1, ⟨[], []⟩) := by
  have hfresh : ¬(s.proxy.isKnown df.writerSn = true ∨ df.writerSn ≤ s.deliveredUpTo) := by
    rw [hnew]
    simpa using hdel
  simp only [step, handleDataFrag, hidx, deliverAt, hget, Delivery.receiveDataFrag,
    arrivalOfDataFrag, if_neg hfresh, hnone, Delivery.takeArrival, bump, commitReleased, refilled]

theorem step_dataFrag_known (hidx : r.proxyIndexByWriter ⟨p, df.writerId⟩ = some idx)
    (hget : r.writerProxies[idx]? = some s)
    (hknown : s.proxy.isKnown df.writerSn = true ∨ df.writerSn ≤ s.deliveredUpTo)
    (ts : Option HeTimestamp) (opener : Option PayloadOpener) :
    r.step (.dataFrag p df ts opener) = (r.bump (some .duplicateFrag), ⟨[], []⟩) := by
  simp only [step, handleDataFrag, hidx, deliverAt, hget, Delivery.receiveDataFrag,
    arrivalOfDataFrag, if_pos hknown, Delivery.takeArrival, set_writerProxies_self hget,
    commitReleased]

theorem deliveredIn_cons (op : ReaderOp) (o : ReaderOutput) (h : History ReaderOp ReaderOutput) :
    deliveredIn ((op, o) :: h) = o.delivered ++ deliveredIn h := rfl

variable {a : FragmentAssembler}

theorem run_incomplete (ts : Option HeTimestamp) (opener : Option PayloadOpener)
    (hsn : x.sn = d.writerSn) (hpayload : x.payload = d.serializedPayload)
    (hidx : r.proxyIndexByWriter ⟨p, d.writerId⟩ = some idx)
    (hget : r.writerProxies[idx]? = some s) (hnew : s.proxy.isKnown d.writerSn = false)
    (hdel : s.deliveredUpTo < d.writerSn) (hdfs : ∀ df ∈ dfs, d.HasPart x df)
    (hcaps : a.caps.Take x) (hgathers : a.Gathers d x covered)
    (hne : covered ∪ FragmentedSample.carried dfs ≠ Finset.Icc 1 x.total) :
    ∃ a', a'.caps.Take x ∧ a'.Gathers d x (covered ∪ FragmentedSample.carried dfs) ∧
      (run step (r.refilled idx s a) (fragmentOps p ts opener dfs)).1 = r.refilled idx s a' ∧
      deliveredIn (run step (r.refilled idx s a) (fragmentOps p ts opener dfs)).2 = [] := by
  induction dfs generalizing a covered with
  | nil => exact ⟨a, hcaps, by simpa using hgathers, rfl, rfl⟩
  | cons df dfs ih =>
    have hdf := hdfs df List.mem_cons_self
    have hrest := fun df' h => hdfs df' (List.mem_cons_of_mem df h)
    rw [carried_cons, ← Finset.union_assoc] at hne ⊢
    have hne' := ne_full_of_union (fun df' h => (hrest df' h).carries) hne
    obtain ⟨hcaps', hinsert⟩ := hgathers.insert hcaps hpayload hdf
    rw [if_neg hne'] at hinsert
    have hdfsn : df.writerSn = d.writerSn := hdf.carries.writerSn.trans hsn
    have hstep : (r.refilled idx s a).step (.dataFrag p df ts opener) =
        (r.refilled idx s (a.insert df).1, ⟨[], []⟩) := by
      have hidx' : (r.refilled idx s a).proxyIndexByWriter ⟨p, df.writerId⟩ = some idx := by
        rw [proxyIndexByWriter_refilled hget, hdf.writerId, hidx]
      rw [step_dataFrag_incomplete hidx' (getElem?_refilled hget a) (hdfsn ▸ hnew) (hdfsn ▸ hdel)
        hinsert.2 ts opener]
      simp [refilled]
    obtain ⟨a', hcaps'', hgathers', hreader, hout⟩ :=
      ih hrest (hcaps' ▸ hcaps) hinsert.1 hne
    refine ⟨a', hcaps'', hgathers', ?_, ?_⟩
    · simp only [fragmentOps, List.map_cons, run, hstep]
      exact hreader
    · simp only [fragmentOps, List.map_cons, run, hstep, deliveredIn_cons, List.nil_append]
      exact hout

/-- Fragments behind the one that completed the sample change nothing but an
assembler, whether the number is known by then or not. -/
theorem run_leftover (ts : Option HeTimestamp) (opener : Option PayloadOpener)
    (hpayload : x.payload = d.serializedPayload)
    (ok : Guid → Int → Prop) (hidx : r.proxyIndexByWriter ⟨p, d.writerId⟩ = some idx)
    (hget : r.writerProxies[idx]? = some s) (hdfs : ∀ df ∈ dfs, d.HasPart x df)
    (hcaps : s.assembler.caps.Take x) (hgathers : s.assembler.Gathers d x covered)
    (hne : covered ∪ FragmentedSample.carried dfs ≠ Finset.Icc 1 x.total) :
    ReadersAlike ok r (run step r (fragmentOps p ts opener dfs)).1 ∧
      deliveredIn (run step r (fragmentOps p ts opener dfs)).2 = [] := by
  induction dfs generalizing r s covered with
  | nil => exact ⟨.refl ok r, rfl⟩
  | cons df dfs ih =>
    have hdf := hdfs df List.mem_cons_self
    have hrest := fun df' h => hdfs df' (List.mem_cons_of_mem df h)
    have hidx' : r.proxyIndexByWriter ⟨p, df.writerId⟩ = some idx := by rw [hdf.writerId, hidx]
    have hunion : covered ∪ FragmentedSample.carried (df :: dfs) =
        covered ∪ FragmentedSample.carried dfs ∪ df.covers := by
      rw [carried_cons, Finset.union_comm df.covers, Finset.union_assoc]
    by_cases hknown : s.proxy.isKnown df.writerSn = true ∨ df.writerSn ≤ s.deliveredUpTo
    · have hstep := step_dataFrag_known hidx' hget hknown ts opener
      have hne' : covered ∪ FragmentedSample.carried dfs ≠ Finset.Icc 1 x.total := by
        intro hfull
        rw [hunion, hfull] at hne
        exact hne (Finset.union_eq_left.mpr hdf.carries.covers_subset)
      obtain ⟨halike, hout⟩ := ih (r := r.bump (some .duplicateFrag)) hidx hget hrest hcaps
        hgathers hne'
      refine ⟨?_, ?_⟩
      · simp only [fragmentOps, List.map_cons, run, hstep]
        exact ((ReadersAlike.refl ok r).bump none _).trans halike
      · simp only [fragmentOps, List.map_cons, run, hstep, deliveredIn_cons, List.nil_append]
        exact hout
    · simp only [not_or, Bool.not_eq_true, not_le] at hknown
      rw [carried_cons, ← Finset.union_assoc] at hne
      obtain ⟨hcaps', hinsert⟩ := hgathers.insert hcaps hpayload hdf
      rw [if_neg (ne_full_of_union (fun df' h => (hrest df' h).carries) hne)]
        at hinsert
      have hstep := step_dataFrag_incomplete hidx' hget hknown.1 hknown.2 hinsert.2 ts opener
      have hfilled : ReadersAlike ok r (r.refilled idx s (s.assembler.insert df).1) := by
        refine ⟨?_, List.forall₂_same.mpr fun t _ => .refl ok t, rfl, rfl, rfl⟩
        nth_rewrite 1 [← set_writerProxies_self hget]
        exact forall₂_set (List.forall₂_same.mpr fun t _ => .refl ok t) idx
          ⟨⟨rfl, rfl⟩, rfl, rfl, fun _ => rfl, fun _ _ => rfl⟩
      obtain ⟨halike, hout⟩ := ih (r := r.refilled idx s (s.assembler.insert df).1)
        ((proxyIndexByWriter_refilled hget _ _).trans hidx) (getElem?_refilled hget _) hrest
        (hcaps' ▸ hcaps) hinsert.1 hne
      refine ⟨?_, ?_⟩
      · simp only [fragmentOps, List.map_cons, run, hstep]
        exact hfilled.trans halike
      · simp only [fragmentOps, List.map_cons, run, hstep, deliveredIn_cons, List.nil_append]
        exact hout

/-! ### The fragment that completes the sample -/

theorem proxyIndexByWriter_of_cores {r' : ReliableReader} {l : List WriterProxyState}
    (h : r'.writerProxies.map core = l.map core) (g : Guid) :
    r'.proxyIndexByWriter g =
      (l.map fun s => s.proxy.remoteWriterGuid).findIdx? fun w => decide (w = g) := by
  have hguids : ∀ l : List WriterProxyState, (l.map core).map
      (fun s => s.proxy.remoteWriterGuid) = l.map fun s => s.proxy.remoteWriterGuid := fun l => by
    rw [List.map_map]
    rfl
  rw [proxyIndexByWriter_eq, ← hguids, h, hguids]

theorem getElem?_of_cores {l l' : List WriterProxyState} (h : l'.map core = l.map core)
    (hget : l[idx]? = some s) : ∃ s', l'[idx]? = some s' ∧ core s' = core s := by
  have hcore : (l'.map core)[idx]? = some (core s) := by rw [h, List.getElem?_map, hget]; rfl
  rw [List.getElem?_map] at hcore
  exact Option.map_eq_some_iff.mp hcore

/-- The numbers of a writer of which the same is known behind the DATA and behind
the fragments: all but the sample's own where a best-effort reader jumped to it. -/
def ToldAlike (r : ReliableReader) (s : WriterProxyState) (sn : Int) (g : Guid) (n : Int) : Prop :=
  ¬(r.bestEffort = true ∧ s.deliveredUpTo + 1 < sn ∧ g = s.proxy.remoteWriterGuid ∧ n = sn)

def OpensAbsorbed (r : ReliableReader) (s : WriterProxyState) (opener : Option PayloadOpener)
    (d : DataSubmessage) : Prop :=
  d.absorbedBy r.guid = true → openPayload opener s.proxy.remoteWriterGuid
    (s.trustedOriginal d.inlineQos) d.serializedPayload d.nonStandardFlag ≠ none

theorem step_data_at (hidx : r.proxyIndexByWriter ⟨p, d.writerId⟩ = some idx)
    (hget : r.writerProxies[idx]? = some s) (ts : Option HeTimestamp)
    (opener : Option PayloadOpener) :
    ∃ counter, r.step (.data p d ts opener) =
      let dl := (Delivery.takeArrival r.bestEffort true ⟨s, r.releaseBudget, []⟩ d.writerSn
        (s.arrivalOfData r.guid opener d ts)).1
      let res := ({ r with
        writerProxies := r.writerProxies.set idx dl.state
        releaseBudget := dl.budget }.bump counter).commitReleased dl.out
      (res.1, ⟨res.2, []⟩) := by
  simp only [step, handleData, hidx, deliverAt, hget, Delivery.receiveData]
  exact ⟨_, rfl⟩

theorem step_dataFrag_completing (hidx : r.proxyIndexByWriter ⟨p, df.writerId⟩ = some idx)
    (hget : r.writerProxies[idx]? = some s) (hnew : s.proxy.isKnown df.writerSn = false)
    (hdel : s.deliveredUpTo < df.writerSn) {c : CompletedSample}
    (hinsert : (a.insert df).2 = some c) (ts : Option HeTimestamp) (opener : Option PayloadOpener) :
    ∃ counter, (r.refilled idx s a).step (.dataFrag p df ts opener) =
      let dl := (Delivery.takeArrival r.bestEffort false
        (Delivery.withAssembler ⟨s, r.releaseBudget, []⟩ (a.insert df).1) df.writerSn
        (s.arrivalOfCompleted r.guid opener df c ts)).1
      let res := ({ r with
        writerProxies := r.writerProxies.set idx dl.state
        releaseBudget := dl.budget }.bump counter).commitReleased dl.out
      (res.1, ⟨res.2, []⟩) := by
  have hidx' := (proxyIndexByWriter_refilled hget a ⟨p, df.writerId⟩).trans hidx
  have hfresh : ¬(s.proxy.isKnown df.writerSn = true ∨ df.writerSn ≤ s.deliveredUpTo) := by
    rw [hnew]
    simpa using hdel
  simp only [step, handleDataFrag, hidx', deliverAt, getElem?_refilled hget,
    Delivery.receiveDataFrag, arrivalOfDataFrag, if_neg hfresh, hinsert]
  simp only [refilled, List.set_set]
  exact ⟨_, rfl⟩

theorem completing_alike (ts : Option HeTimestamp) (hr : r.Sound)
    (hidx : r.proxyIndexByWriter ⟨p, d.writerId⟩ = some idx)
    (hget : r.writerProxies[idx]? = some s) (hnew : s.proxy.isKnown d.writerSn = false)
    (hdel : s.deliveredUpTo < d.writerSn) (hroom : 1 ≤ s.receivedCache.maxSamples)
    (hcontent : d.HasContent) (hopen : r.OpensAbsorbed s opener d) (hdf : d.HasPart x df)
    (hsn : x.sn = d.writerSn) {c : CompletedSample} (hinsert : (a.insert df).2 = some c)
    (hc : d.ReassembledAs c) : let whole := r.step (.data p d ts opener)
    let part := (r.refilled idx s a).step (.dataFrag p df ts opener)
    part.2.delivered = whole.2.delivered ∧
      ReadersAlike (r.ToldAlike s d.writerSn) whole.1 part.1 ∧
      part.1.proxyIndexByWriter ⟨p, d.writerId⟩ = some idx ∧
      ∃ s', part.1.writerProxies[idx]? = some s' ∧ s'.assembler = (a.insert df).1 := by
  have hdfsn : df.writerSn = d.writerSn := hdf.carries.writerSn.trans hsn
  have hmem := List.mem_of_getElem? hget
  have hshape := hr.shape s (List.mem_append_left _ hmem)
  have hagree : Arrival.Agree (s.arrivalOfData r.guid opener d ts)
      (s.arrivalOfCompleted r.guid opener df c ts) :=
    arrivals_agree hcontent hc hdfsn hdf.nonStandardFlag hnew hdel hopen
  have hchange : ∀ ch, s.arrivalOfData r.guid opener d ts = .change ch →
      ch.sequenceNumber = d.writerSn := by
    rcases Delivery.arrivalOfData_fresh s r.guid opener d ts with ⟨k, hk⟩ | ⟨-, -, hfresh⟩
    · intro ch hch
      rw [hk] at hch
      cases hch
    · exact hfresh
  obtain ⟨ok, halike, hok⟩ := Delivery.takeArrival_alike (d := ⟨s, r.releaseBudget, []⟩)
    r.bestEffort hshape (hr.settled s hmem) hroom hagree hnew hdel hchange (a.insert df).1
  obtain ⟨k, hwhole⟩ := step_data_at hidx hget ts opener
  obtain ⟨k', hpart⟩ := step_dataFrag_completing (p := p) (hdf.writerId ▸ hidx) hget
    (hdfsn ▸ hnew) (hdfsn ▸ hdel) hinsert ts opener
  obtain ⟨_, _, -, hcalled⟩ := Delivery.takeArrival_called r.bestEffort (u := False)
    (d := ⟨s, r.releaseBudget, []⟩) hshape False.elim true
    (Delivery.arrivalOfData_fresh s r.guid opener d ts)
  have hguid := hcalled.same.guid
  have hassembler := Delivery.takeArrival_assembler
    (d := Delivery.withAssembler ⟨s, r.releaseBudget, []⟩ (a.insert df).1) r.bestEffort d.writerSn
    (s.arrivalOfCompleted r.guid opener df c ts)
  rw [hdfsn] at hpart
  simp only [hwhole, hpart]
  generalize (Delivery.takeArrival r.bestEffort true ⟨s, r.releaseBudget, []⟩ d.writerSn
    (s.arrivalOfData r.guid opener d ts)).1 = dl at halike hguid
  generalize (Delivery.takeArrival r.bestEffort false
    (Delivery.withAssembler ⟨s, r.releaseBudget, []⟩ (a.insert df).1) d.writerSn
    (s.arrivalOfCompleted r.guid opener df c ts)).1 = dl' at halike hassembler
  have hmatches : dl.state.Matches (r.ToldAlike s d.writerSn) dl'.state :=
    halike.matches fun n htold => hok n fun hbe hgap hn => htold ⟨hbe, hgap, hguid, hn⟩
  have hreaders : ReadersAlike (r.ToldAlike s d.writerSn)
      { r with writerProxies := r.writerProxies.set idx dl.state, releaseBudget := dl.budget }
      { r with writerProxies := r.writerProxies.set idx dl'.state, releaseBudget := dl'.budget } :=
    ⟨forall₂_set (List.forall₂_same.mpr fun t _ => .refl _ t) idx hmatches,
      List.forall₂_same.mpr fun t _ => .refl _ t, halike.budget, rfl, rfl⟩
  obtain ⟨hout, hcommitted⟩ := (hreaders.bump k k').commitReleased dl.out
  have hcores := (sameCores_commitReleased ({ r with
    writerProxies := r.writerProxies.set idx dl'.state
    releaseBudget := dl'.budget }.bump k') dl.out).matched
  rw [(bump_frame _ k').1] at hcores
  rw [halike.out]
  refine ⟨hout, hcommitted, ?_, ?_⟩
  · rw [proxyIndexByWriter_of_cores hcores, List.map_set, halike.writer.guid, hguid]
    rw [← List.map_set (f := fun s : WriterProxyState => s.proxy.remoteWriterGuid),
      set_writerProxies_self hget, ← proxyIndexByWriter_eq, hidx]
  · have hlt := (List.getElem?_eq_some_iff.mp hget).1
    obtain ⟨s', hs', hcore⟩ := getElem?_of_cores hcores (show
      (r.writerProxies.set idx dl'.state)[idx]? = some dl'.state by simp [hlt])
    refine ⟨s', hs', ?_⟩
    exact (congrArg WriterProxyState.assembler hcore).trans hassembler

/-! ### The whole series -/

/-- The reader hands out the same, and its states end up the same, whether it is fed
the DATA or the fragments; of the numbers outside `told` it may know differently. -/
def FedAlike (told : Guid → Int → Prop) (r : ReliableReader) (p : GuidPrefix) (d : DataSubmessage)
    (dfs : List DataFragSubmessage) (ts : Option HeTimestamp) (opener : Option PayloadOpener) :
    Prop :=
  let whole := r.step (.data p d ts opener)
  let parts := run step r (fragmentOps p ts opener dfs)
  deliveredIn parts.2 = whole.2.delivered ∧
    List.Forall₂ (fun t t' : WriterProxyState => t'.deliveredUpTo = t.deliveredUpTo ∧
        (∀ n, t'.receivedCache.get n = t.receivedCache.get n) ∧
        ∀ n, told t.proxy.remoteWriterGuid n → t'.proxy.isKnown n = t.proxy.isKnown n)
      whole.1.states parts.1.states

theorem FedAlike.of_readersAlike {told : Guid → Int → Prop}
    (hout : deliveredIn (run step r (fragmentOps p ts opener dfs)).2 =
      (r.step (.data p d ts opener)).2.delivered)
    (halike : ReadersAlike told (r.step (.data p d ts opener)).1
      (run step r (fragmentOps p ts opener dfs)).1) : FedAlike told r p d dfs ts opener :=
  ⟨hout, (forall₂_append halike.proxies halike.departed).imp fun _ _ h =>
    ⟨h.delivered, h.held, h.known⟩⟩

theorem run_append (r : ReliableReader) (ops ops' : List ReaderOp) :
    run step r (ops ++ ops') =
      ((run step (run step r ops).1 ops').1,
        (run step r ops).2 ++ (run step (run step r ops).1 ops').2) := by
  induction ops generalizing r with
  | nil => rfl
  | cons op ops ih => simp [run, ih]

theorem deliveredIn_append (h h' : History ReaderOp ReaderOutput) :
    deliveredIn (h ++ h') = deliveredIn h ++ deliveredIn h' := List.flatMap_append

theorem leftover_ne_full {before rest : List DataFragSubmessage} {last : DataFragSubmessage}
    (h : d.Series x (before ++ last :: rest)) :
    ∅ ∪ FragmentedSample.carried rest ≠ Finset.Icc 1 x.total := by
  intro hfull
  have hlast := h.parts last (by simp)
  have hstart := hlast.carries.covers_subset hlast.carries.start_mem
  rw [← hfull, Finset.empty_union] at hstart
  obtain ⟨df, hdf, hmem⟩ := mem_carried.mp hstart
  have hdisjoint := (List.pairwise_cons.mp (List.pairwise_append.mp h.once).2.1).1 df hdf
  exact Finset.disjoint_left.mp hdisjoint hlast.carries.start_mem hmem

/-- A sample fed as one DATA or as a complete series of DATA_FRAGs, in any order:
the reader hands out the same, and holds, knows and has delivered the same
afterwards.  What is known of the sample's own number may differ where a
best-effort reader jumped to it.  The assembler must take the sample, what of it is
in flight must be of the same cut, and the cache must be able to hold a change. -/
theorem fragments_agree_with_data {cfg : ReliableReaderConfig} (hcfg : cfg.Fresh)
    {h : History MatchOp MatchOutput}
    (hrun : Reaches matchStep MatchesFresh (ReliableReader.new cfg) h r)
    (hs : s ∈ r.writerProxies) (hwriter : s.proxy.remoteWriterGuid = ⟨p, d.writerId⟩)
    (hcontent : d.HasContent) (hnew : s.proxy.isKnown d.writerSn = false)
    (hdel : s.deliveredUpTo < d.writerSn) (hopen : r.OpensAbsorbed s opener d)
    (hroom : 1 ≤ s.receivedCache.maxSamples) (hcaps : s.assembler.caps.Take x)
    (hne : covered ≠ Finset.Icc 1 x.total) (hgathers : s.assembler.Gathers d x covered)
    (hseries : d.Series x dfs) :
    FedAlike (r.ToldAlike s d.writerSn) r p d dfs ts opener := by
  have hsound := sound_of_reaches hcfg hrun
  obtain ⟨idx, hget⟩ := List.getElem?_of_mem hs
  have hidx : r.proxyIndexByWriter ⟨p, d.writerId⟩ = some idx := by
    cases hidx : r.proxyIndexByWriter ⟨p, d.writerId⟩ with
    | none => exact absurd hwriter (proxyIndexByWriter_none hidx s hs)
    | some k =>
      obtain ⟨t, ht, htguid⟩ := proxyIndexByWriter_some hidx
      by_cases hk : k = idx
      · rw [hk]
      · exact absurd (htguid.trans hwriter.symm) (hsound.one.ne hget ht hk)
  have hfull : covered ∪ FragmentedSample.carried dfs = Finset.Icc 1 x.total := by
    rw [hseries.complete]
    refine Finset.union_eq_right.mpr ?_
    by_cases hempty : covered = ∅
    · simp [hempty]
    · obtain ⟨b, -, hholds, -⟩ := hgathers.present hempty
      exact hholds.subset
  obtain ⟨before, last, rest, rfl, hbefore, hlast⟩ :=
    exists_completing hne hfull
  have hparts := hseries.parts
  obtain ⟨a, hacaps, hagathers, hreader, hquiet⟩ :=
    run_incomplete ts opener hseries.sn hseries.payload hidx hget hnew hdel
      (fun df hdf => hparts df (List.mem_append_left _ hdf)) hcaps hgathers hbefore
  rw [refilled_self hget] at hreader hquiet
  obtain ⟨hlastcaps, hinsert⟩ := hagathers.insert hacaps hseries.payload (hparts last (by simp))
  rw [if_pos hlast] at hinsert
  obtain ⟨hemptied, c, hc, hreassembled⟩ := hinsert
  obtain ⟨hout, halike, hidx', s', hs', hassembler⟩ :=
    completing_alike ts hsound hidx hget hnew hdel hroom hcontent hopen
      (hparts last (by simp)) hseries.sn hc hreassembled
  obtain ⟨hleft, hsilent⟩ := run_leftover ts opener hseries.payload
    (r.ToldAlike s d.writerSn) hidx' hs'
    (fun df hdf => hparts df (List.mem_append_right _ (List.mem_cons_of_mem _ hdf)))
    (hassembler ▸ hlastcaps ▸ hacaps) (hassembler ▸ hemptied) (leftover_ne_full hseries)
  have hops : fragmentOps p ts opener (before ++ last :: rest) =
      fragmentOps p ts opener before ++
        .dataFrag p last ts opener :: fragmentOps p ts opener rest := by
    simp [fragmentOps]
  refine FedAlike.of_readersAlike ?_ ?_
  · rw [hops, run_append, deliveredIn_append, hquiet, hreader]
    simp only [run, deliveredIn_cons, hsilent, List.append_nil, List.nil_append]
    exact hout
  · rw [hops, run_append, hreader]
    exact halike.trans hleft

end ReliableReader

/-! ### On the test reader -/

namespace ReaderFixture

open FragmentAssembler ReliableReader

def wholeSample (n : Int) : DataSubmessage := { data n 0 with serializedPayload := [10, 20, 30] }

def cutSample (n : Int) : FragmentedSample := { threeOctets with sn := n }

def cutFragment (n : Int) (number : Nat) (payload : Octets) : DataFragSubmessage :=
  { threeOctetsFragment number payload with writerSn := n }

def cutSeries (n : Int) : List DataFragSubmessage :=
  [cutFragment n 2 [30], cutFragment n 1 [10, 20]]

theorem wholeSample_series (n : Int) : (wholeSample n).Series (cutSample n) (cutSeries n) where
  sn := rfl
  payload := rfl
  parts df hdf := by
    rcases List.mem_pair.mp hdf with rfl | rfl
    · exact ⟨⟨rfl, rfl, rfl, show 1 ≤ 2 by decide, le_refl 1,
        show 2 + 1 ≤ threeOctets.total + 1 by decide, ⟨[], rfl, fun _ => rfl⟩,
        fun key h => by simp [cutFragment, threeOctetsFragment] at h⟩, rfl, rfl, rfl, rfl⟩
    · exact ⟨⟨rfl, rfl, rfl, le_refl 1, le_refl 1,
        show 1 + 1 ≤ threeOctets.total + 1 by decide, ⟨[], rfl, fun _ => rfl⟩,
        fun key h => by simp [cutFragment, threeOctetsFragment] at h⟩, rfl, rfl, rfl, rfl⟩
  once := List.pairwise_pair.mpr (show Disjoint (Finset.Ico 2 3) (Finset.Ico 1 2) by decide)
  complete := show Finset.Ico 2 3 ∪ (Finset.Ico 1 2 ∪ ∅) = Finset.Icc 1 threeOctets.total by decide

def cappedReader (caps : AssemblerCaps) : ReliableReader :=
  .new
    { guid := readerGuid
      vendorId := .zerodds
      writerProxies := [.new singleWriterGuid [] [] true]
      maxSamplesPerProxy := 4
      heartbeatResponseDelay := 200000000
      assemblerCaps := caps }

def otherCut : ReaderOp :=
  .dataFrag singleWriterGuid.guidPrefix
    { cutFragment 1 1 [10] with fragmentSize := 1 } none none

theorem makeReader_fresh (maxSamples : Nat) (caps : AssemblerCaps) :
    ReliableReaderConfig.Fresh
      { guid := readerGuid
        vendorId := .zerodds
        writerProxies := [.new singleWriterGuid [] [] true]
        maxSamplesPerProxy := maxSamples
        heartbeatResponseDelay := 200000000
        assemblerCaps := caps } where
  proxies p hp := by
    obtain rfl := List.mem_singleton.mp hp
    exact ⟨_, _, _, _, rfl⟩
  distinct := List.nodup_singleton _

/-- The fragments, the second one first, do what the DATA does. -/
theorem fragments_agree_with_data_in_two :
    (makeReader 4).FedAlike (fun _ _ => True) singleWriterGuid.guidPrefix (wholeSample 1)
        (cutSeries 1) none none ∧
      ((makeReader 4).step (dataOp (wholeSample 1))).2.delivered ≠ [] := by
  have hgathers : (writerState 4).assembler.Gathers (wholeSample 1) (cutSample 1) ∅ :=
    ⟨fun _ => rfl, fun h => absurd rfl h⟩
  have hreader : (makeReader 4).FedAlike ((makeReader 4).ToldAlike (writerState 4) 1)
      singleWriterGuid.guidPrefix (wholeSample 1) (cutSeries 1) none none :=
    fragments_agree_with_data (makeReader_fresh 4 .default) .start List.mem_cons_self rfl rfl
      (by decide) (by decide) (fun h => absurd h (by decide)) (by decide)
      ⟨by decide, by decide, by decide⟩ (by decide) hgathers (wholeSample_series 1)
  refine ⟨⟨hreader.1, hreader.2.imp fun t t' ht => ⟨ht.1, ht.2.1, fun n _ => ht.2.2 n ?_⟩⟩,
    by decide +kernel⟩
  rintro ⟨hbe, -⟩
  exact absurd hbe (by decide)

def Awaits (r : ReliableReader) (n : Int) : Prop :=
  ∀ s ∈ r.writerProxies, s.proxy.isKnown n = false ∧ s.deliveredUpTo < n

/-- Where they differ: a sample the assembler is too small for, one of which a
fragment of another cut is in flight, a cache that can hold nothing, and, in what
is known of the number, a best-effort reader that jumps to it. -/
theorem fragments_differ_from_data :
    (∀ n, (wholeSample n).HasContent ∧ (wholeSample n).Series (cutSample n) (cutSeries n)) ∧
      (Awaits (cappedReader ⟨64, 2, 65535⟩) 1 ∧
        ¬(cappedReader ⟨64, 2, 65535⟩).FedAlike (fun _ _ => True) singleWriterGuid.guidPrefix
          (wholeSample 1) (cutSeries 1) none none) ∧
      (Awaits ((makeReader 4).step otherCut).1 1 ∧
        ¬((makeReader 4).step otherCut).1.FedAlike (fun _ _ => True) singleWriterGuid.guidPrefix
          (wholeSample 1) (cutSeries 1) none none) ∧
      (Awaits (makeReader 0) 1 ∧
        ¬(makeReader 0).FedAlike (fun _ _ => True) singleWriterGuid.guidPrefix
          (wholeSample 1) (cutSeries 1) none none) ∧
      (Awaits ((makeReader 4).setBestEffort true) 2 ∧
        ¬((makeReader 4).setBestEffort true).FedAlike (fun _ _ => True)
          singleWriterGuid.guidPrefix (wholeSample 2) (cutSeries 2) none none) := by
  refine ⟨fun n => ⟨rfl, wholeSample_series n⟩,
    ⟨by unfold Awaits; decide +kernel, fun h => absurd h.1 (by decide +kernel)⟩,
    ⟨by unfold Awaits; decide +kernel, fun h => absurd h.1 (by decide +kernel)⟩,
    ⟨by unfold Awaits; decide +kernel, fun h => absurd h.1 (by decide +kernel)⟩,
    ⟨by unfold Awaits; decide +kernel, fun h => ?_⟩⟩
  obtain ⟨t, ht⟩ : ∃ t, (((makeReader 4).setBestEffort true).step
      (dataOp (wholeSample 2))).1.states[0]? = some t := ⟨_, rfl⟩
  obtain ⟨t', ht', -, -, hknown⟩ := forall₂_getElem? h.2 ht
  have hwhole : (((makeReader 4).setBestEffort true).step
      (dataOp (wholeSample 2))).1.states[0]?.map (fun s => s.proxy.isKnown 2) = some false := by
    decide +kernel
  have hparts : (run step ((makeReader 4).setBestEffort true)
      (fragmentOps singleWriterGuid.guidPrefix none none (cutSeries 2))).1.states[0]?.map
        (fun s => s.proxy.isKnown 2) = some true := by decide +kernel
  rw [ht] at hwhole
  rw [ht'] at hparts
  have hunknown : t.proxy.isKnown 2 = false := Option.some.inj hwhole
  have hisknown : t'.proxy.isKnown 2 = true := Option.some.inj hparts
  have heq := hknown 2 trivial
  rw [hunknown, hisknown] at heq
  cases heq

end ReaderFixture
end ZeroDds.Rtps
