/-
What a writer can send.
-/
import ZeroDds.Rtps.SendCursor

namespace ZeroDds.Rtps

open Outcome

namespace SendView

variable {v : SendView} {p : ReaderProxy}

inductive Sends (v : SendView) (p : ReaderProxy) : Submessage → Prop
  | gap {sn : Int} :
      v.cache.get sn = none ∨ v.isRelevant sn p.remoteReaderGuid = false →
        Sends v p (.gap (v.gapOf sn p.remoteReaderGuid))
  | sample {sn : Int} {payload : Octets} :
      v.Holds sn payload → v.isRelevant sn p.remoteReaderGuid = true →
        Sends v p (.data (v.dataOf sn payload p.remoteReaderGuid))
  | lifecycle {sn : Int} {change : CacheChange} (key : KeyHash) :
      v.cache.get sn = some change → change.kind.isAliveKind = false →
        Sends v p (.data (v.lifecycleData sn (v.markerOf change key p.remoteReaderGuid)
          p.remoteReaderGuid))
  | fragments {sn : Int} {payload : Octets} (hpos : 1 ≤ payload.length)
      (hle : payload.length ≤ u32Max) {s : FragmentSlice} :
      v.Holds sn payload → Cuts (v.fragmented sn payload p.remoteReaderGuid hpos hle) s →
        Sends v p (.dataFrag (v.dataFragOf sn s p.remoteReaderGuid))
  | heartbeat (count : Int) (finalFlag livelinessFlag : Bool) :
      Sends v p (.heartbeat (v.heartbeatOf (v.heartbeatFirst p) v.lastWrittenSn count finalFlag
        livelinessFlag p.remoteReaderGuid))

variable {q : ReaderProxy} {sn first : Int} {payload : Octets} {ds out : List AddressedDatagram}
  {log log' : SendLog} {s : Submessage} {targets : List Locator} {key : KeyHash} {frag count : Nat}
  {finalFlag livelinessFlag : Bool}

theorem Sends.of_same (h : v.Sends q s) (hguid : q.remoteReaderGuid = p.remoteReaderGuid)
    (hacked : q.highestAckedSn = p.highestAckedSn) : v.Sends p s := by
  have hfirst : v.heartbeatFirst q = v.heartbeatFirst p := by simp [heartbeatFirst, hacked]
  cases h with
  | gap hgap =>
    rw [hguid] at hgap ⊢
    exact .gap hgap
  | sample hheld hrel =>
    rw [hguid] at hrel ⊢
    exact .sample hheld hrel
  | lifecycle key hget hkind =>
    rw [hguid]
    exact .lifecycle key hget hkind
  | @fragments sn payload hpos hle slice hheld hcut =>
    have hcut' : Cuts (v.fragmented sn payload p.remoteReaderGuid hpos hle) slice := by
      rw [← hguid]
      exact hcut
    rw [hguid]
    exact .fragments hpos hle hheld hcut'
  | heartbeat count finalFlag livelinessFlag =>
    rw [hguid, hfirst]
    exact .heartbeat count finalFlag livelinessFlag

theorem one_le_length_of_needsFragmentation {peer : Guid}
    (h : v.needsFragmentation sn peer payload = true) : 1 ≤ payload.length := by
  unfold needsFragmentation at h
  cases payload with
  | nil => simp at h
  | cons b bs => simp

theorem sampleContents_sends (hheld : v.Holds sn payload)
    (h : v.buildSampleDatagrams sn payload p.remoteReaderGuid targets = .ok ds) :
    ∀ s ∈ v.sampleContents sn payload p.remoteReaderGuid, v.Sends p s := by
  have hlen := length_le_of_build h
  intro s hs
  unfold sampleContents at hs
  split at hs
  · next hrel =>
    obtain rfl := List.mem_singleton.mp hs
    exact .gap (.inr hrel)
  · next hrel =>
    have hrel' : v.isRelevant sn p.remoteReaderGuid = true := by simpa using hrel
    split at hs
    · obtain rfl := List.mem_singleton.mp hs
      exact .sample hheld hrel'
    · next hfrag =>
      have hfrag' : v.needsFragmentation sn p.remoteReaderGuid payload = true := by
        simpa using hfrag
      have hpos := one_le_length_of_needsFragmentation hfrag'
      have hle := hlen hrel' hfrag'
      obtain ⟨slice, hslice, rfl⟩ := List.mem_map.mp hs
      exact .fragments hpos hle hheld
        ((slicesOf_spec (v := v) sn p.remoteReaderGuid hpos hle).1 slice hslice)

theorem buildSampleDatagrams_sends (hheld : v.Holds sn payload)
    (h : v.buildSampleDatagrams sn payload p.remoteReaderGuid targets = .ok ds) :
    ∀ s ∈ contents ds, v.Sends p s := by
  rw [buildSampleDatagrams_contents h]
  exact sampleContents_sends hheld h

theorem changeSubmessage_sends (h : v.changeSubmessage sn p.remoteReaderGuid = some s) :
    v.Sends p s := by
  unfold changeSubmessage at h
  split at h
  · next hget =>
    obtain rfl := Option.some.inj h
    exact .gap (.inl hget)
  · next change hget =>
    split at h
    · next hkind =>
      obtain rfl := Option.some.inj h
      exact .lifecycle zeroKeyHash hget hkind
    · split at h
      · cases h
      · split at h
        · next hrel =>
          obtain rfl := Option.some.inj h
          exact .sample (by simp [Holds, hget]) hrel
        · next hrel =>
          obtain rfl := Option.some.inj h
          exact .gap (.inr (by simpa using hrel))

theorem changeContents_sends (h : v.ChangeFits sn p.remoteReaderGuid p.targets) :
    ∀ s ∈ v.changeContents sn p.remoteReaderGuid, v.Sends p s := by
  unfold ChangeFits at h
  unfold changeContents
  cases hs : v.changeSubmessage sn p.remoteReaderGuid with
  | some s =>
    intro s' hs'
    obtain rfl := List.mem_singleton.mp hs'
    exact changeSubmessage_sends hs
  | none =>
    rw [hs] at h
    obtain ⟨ds, hds⟩ := h
    refine sampleContents_sends ?_ hds
    cases hget : v.cache.get sn with
    | none => simp [changeSubmessage, hget] at hs
    | some change => simp [Holds, payloadOf, hget]

theorem buildChangeDatagrams_sends
    (h : v.buildChangeDatagrams key sn p.remoteReaderGuid p.targets = .ok ds) :
    ∀ s ∈ contents ds, v.Sends p s := by
  unfold buildChangeDatagrams at h
  split at h
  · next hget =>
    obtain ⟨d, hd, rfl⟩ := map_singleton_eq_ok h
    rw [buildAlone_contents rfl hd]
    intro s hs
    obtain rfl := List.mem_singleton.mp hs
    exact .gap (.inl hget)
  · next change hget =>
    split at h
    · exact buildSampleDatagrams_sends (by simp [Holds, hget]) h
    · next hkind =>
      obtain ⟨d, hd, rfl⟩ := map_singleton_eq_ok h
      rw [buildAlone_contents rfl hd]
      intro s hs
      obtain rfl := List.mem_singleton.mp hs
      exact .lifecycle key hget (by simpa using hkind)

theorem cuts_of_run (peer : Guid) (hle : payload.length ≤ u32Max) (hfrag : 1 ≤ frag)
    (hstart : (frag - 1) * v.fragmentSizeFor sn < payload.length) :
    Cuts (v.fragmented sn payload peer (by omega) hle)
      ⟨frag, divCeil (min ((frag - 1) * v.fragmentSizeFor sn +
          max count 1 * v.fragmentSizeFor sn) payload.length -
          (frag - 1) * v.fragmentSizeFor sn) (v.fragmentSizeFor sn),
        v.fragmentSizeFor sn, payload.length,
        sliceOf payload ((frag - 1) * v.fragmentSizeFor sn)
          (min ((frag - 1) * v.fragmentSizeFor sn + max count 1 * v.fragmentSizeFor sn)
            payload.length)⟩ := by
  have hsize : 1 ≤ v.fragmentSizeFor sn := le_max_right _ _
  have hmore : 1 * 1 ≤ max count 1 * v.fragmentSizeFor sn :=
    Nat.mul_le_mul (le_max_right _ _) hsize
  refine cuts_of_stop (v.fragmented sn payload peer (by omega) hle) hfrag rfl ?_ ?_ ?_
  · show (frag - 1) * v.fragmentSizeFor sn < min _ payload.length
    omega
  · exact Nat.min_le_right _ _
  · show min _ payload.length = (frag - 1) * v.fragmentSizeFor sn +
      divCeil _ (v.fragmentSizeFor sn) * v.fragmentSizeFor sn ∨
      min _ payload.length = payload.length
    rcases le_total ((frag - 1) * v.fragmentSizeFor sn + max count 1 * v.fragmentSizeFor sn)
      payload.length with hfull | hlast
    · refine .inl ?_
      rw [Nat.min_eq_left hfull, Nat.add_sub_cancel_left, divCeil_mul hsize]
    · exact .inr (Nat.min_eq_right hlast)

theorem buildFragmentRun_sends {d : AddressedDatagram}
    (h : v.buildFragmentRun sn frag count p.remoteReaderGuid p.targets = .ok d) :
    ∀ s ∈ contents [d], v.Sends p s := by
  unfold buildFragmentRun at h
  split at h
  · next change hget =>
    simp only [buildDataFragDatagram] at h
    split at h
    · next hrel =>
      rw [buildAlone_contents rfl h]
      intro s hs
      obtain rfl := List.mem_singleton.mp hs
      exact .gap (.inr hrel)
    · split at h
      · cases h
      · next hfrag =>
        split at h
        · cases h
        · next hstart =>
          split at h
          · cases h
          · split at h
            · cases h
            · next hlen =>
              split at h
              · cases h
              · rw [buildAlone_contents rfl h]
                intro s hs
                obtain rfl := List.mem_singleton.mp hs
                exact .fragments (by omega) (by omega) (by simp [Holds, hget])
                  (cuts_of_run p.remoteReaderGuid (by omega) (by omega) (by omega))
  · next hget =>
    rw [buildAlone_contents rfl h]
    intro s hs
    obtain rfl := List.mem_singleton.mp hs
    exact .gap (.inl hget)

theorem addHeartbeat_sends {a a' : Assembly} (hfirst : first = v.heartbeatFirst p)
    (ha : ∀ s ∈ a.contents, v.Sends p s)
    (h : v.addHeartbeat log a first finalFlag livelinessFlag p = (log', .ok a')) :
    ∀ s ∈ contents (a'.finish p.remoteReaderGuid), v.Sends p s := by
  simp only [addHeartbeat, Prod.mk.injEq] at h
  rw [Assembly.contents_finish, appendSubmessage_contents rfl h.2]
  refine List.forall_mem_append.mpr ⟨ha, fun s hs => ?_⟩
  obtain rfl := List.mem_singleton.mp hs
  rw [hfirst]
  exact .heartbeat _ finalFlag livelinessFlag

theorem heartbeatAlone_sends (hfirst : first = v.heartbeatFirst p)
    (hds : ∀ s ∈ contents ds, v.Sends p s)
    (h : v.heartbeatAlone log p first finalFlag livelinessFlag ds = (log', .ok out)) :
    ∀ s ∈ contents out, v.Sends p s := by
  obtain ⟨log₁, a, hadd, hfin⟩ := andThen_eq_ok.mp h
  simp only [Prod.mk.injEq, Except.ok.injEq] at hfin
  rw [← hfin.2]
  exact addHeartbeat_sends hfirst (by rwa [contents_openAssembly]) hadd

section

variable (hheld : v.Holds sn payload)
include hheld

theorem pushTo_sends
    (h : v.pushTo sn payload log p = ((log', q), .ok out)) : ∀ s ∈ contents out, v.Sends p s := by
  have hnone : ∀ s ∈ contents [], v.Sends p s := by simp
  unfold pushTo at h
  split at h
  · cases h
    exact hnone
  · have hguid : (p.nextUnsentChange sn).1.remoteReaderGuid = p.remoteReaderGuid := by
      rw [p.toRemoteReader_nextUnsentChange sn]
    simp only at h
    split at h
    · cases h
      exact hnone
    · split at h
      · cases h
      · next ds hds =>
        cases h
        rw [hguid] at hds
        exact buildSampleDatagrams_sends hheld hds

theorem dataWithHeartbeat_sends (hfirst : first = v.heartbeatFirst p)
    (hfrag : v.needsFragmentation sn p.remoteReaderGuid payload = false)
    (h : v.dataWithHeartbeat sn payload first log p = (log', .ok out)) :
    ∀ s ∈ contents out, v.Sends p s := by
  unfold dataWithHeartbeat at h
  split at h
  · cases h
  · next a ha =>
    have hsends : ∀ s ∈ a.contents, v.Sends p s := by
      rw [(appendData_contents hfrag ha).2]
      intro s hs
      unfold sampleContents at hs
      split at hs
      · next hrel =>
        obtain rfl := List.mem_singleton.mp hs
        exact .gap (.inr hrel)
      · next hrel =>
        obtain rfl := List.mem_singleton.mp hs
        exact .sample hheld (by simpa using hrel)
    split at h
    · split at h
      · obtain ⟨log₁, a', hadd, hfin⟩ := andThen_eq_ok.mp h
        simp only [Prod.mk.injEq, Except.ok.injEq] at hfin
        rw [← hfin.2]
        exact addHeartbeat_sends hfirst hsends hadd
      · exact heartbeatAlone_sends hfirst (by rwa [Assembly.contents_finish]) h
    · cases h
      rwa [Assembly.contents_finish]

theorem sendWithHeartbeat_sends {sends : Bool} (hfirst : first = v.heartbeatFirst p)
    (h : v.sendWithHeartbeat sn payload sends first log p = (log', .ok out)) :
    ∀ s ∈ contents out, v.Sends p s := by
  unfold sendWithHeartbeat at h
  split at h
  · next hdata => exact dataWithHeartbeat_sends hheld hfirst hdata.2 h
  · simp only at h
    split at h
    · cases h
    · next ds hds =>
      have hbuilt : ∀ s ∈ contents ds, v.Sends p s := by
        split at hds
        · exact buildSampleDatagrams_sends hheld hds
        · obtain rfl := Except.ok.inj hds
          simp
      split at h
      · exact heartbeatAlone_sends hfirst hbuilt h
      · cases h
        exact hbuilt

theorem pushWithHeartbeat_sends {now : Nat}
    (h : v.pushWithHeartbeat sn payload now log p = ((log', q), .ok out)) :
    ∀ s ∈ contents out, v.Sends p s := by
  -- the turn moves the send cursor and the HEARTBEAT time alone
  have hmoved : (if v.pushMode then p.nextUnsentChange sn else (p, none)).1.remoteReaderGuid =
        p.remoteReaderGuid ∧
      (if v.pushMode then p.nextUnsentChange sn else (p, none)).1.highestAckedSn =
        p.highestAckedSn := by
    unfold ReaderProxy.nextUnsentChange
    split
    · split <;> exact ⟨rfl, rfl⟩
    · exact ⟨rfl, rfl⟩
  have hsent : ∀ r : ReaderProxy,
      (if r.isReliable then r.heartbeatSent now else r).remoteReaderGuid = r.remoteReaderGuid ∧
      (if r.isReliable then r.heartbeatSent now else r).highestAckedSn = r.highestAckedSn := by
    intro r
    split <;> exact ⟨rfl, rfl⟩
  simp only [pushWithHeartbeat, Prod.mk.injEq] at h
  obtain ⟨hguid, hacked⟩ := hsent (if v.pushMode then p.nextUnsentChange sn else (p, none)).1
  intro s hs
  refine (sendWithHeartbeat_sends hheld ?_ (Prod.ext rfl h.2) s hs).of_same
    (hguid.trans hmoved.1) (hacked.trans hmoved.2)
  simp [heartbeatFirst, hacked]

end

theorem drainTo_sends {fuel : Nat} (h : v.drainTo key sn fuel p = (q, .ok out)) :
    ∀ s ∈ contents out, v.Sends p s := by
  have hnone : ∀ s ∈ contents [], v.Sends p s := by simp
  induction fuel generalizing p q out with
  | zero =>
    cases h
    exact hnone
  | succ fuel ih =>
    by_cases hlt : p.highestSentSn < sn
    · simp only [drainTo, nextUnsentChange_of_lt hlt] at h
      split at h
      · cases h
      · next ds hds =>
        have hchange : ∀ s ∈ contents ds, v.Sends p s := fun s hs =>
          (buildChangeDatagrams_sends (p := { p with highestSentSn := p.highestSentSn + 1 })
            hds s hs).of_same rfl rfl
        split at h
        · cases h
          exact hchange
        · split at h
          · cases h
          · next rest hrest =>
            cases h
            rw [contents_append]
            refine List.forall_mem_append.mpr ⟨hchange, fun s hs => ?_⟩
            exact (ih hrest (by simp) s hs).of_same rfl rfl
    · simp only [drainTo, ReaderProxy.nextUnsentChange, hlt, if_false] at h
      cases h
      exact hnone

theorem tickTurn_sends {plan : TickPlan} {s : SendLog × Bool}
    (h : (v.tickTurn plan s p).2 = .ok out) : ∀ s ∈ contents out, v.Sends p s := by
  obtain ⟨hok, hsent⟩ := tickTurn_spec (v := v) plan s.1 s.2 p rfl
  obtain ⟨-, -, frags, hfrags, a, hall, hend⟩ := hsent out h
  have hfits := hok.mp ⟨out, h⟩
  have hfragments : ∀ s ∈ contents frags, v.Sends p s := by
    clear hall
    generalize v.fragmentPlan p _ = runs at hfrags
    induction hfrags with
    | nil => simp
    | cons hbuild _ ih =>
      rw [contents_cons]
      exact List.forall_mem_append.mpr ⟨buildFragmentRun_sends hbuild, ih⟩
  have hchanges : ∀ s ∈ a.contents, v.Sends p s := by
    rw [appendAll_contents hall, contents_openAssembly]
    refine List.forall_mem_append.mpr ⟨hfragments, fun s hs => ?_⟩
    obtain ⟨n, hn, hin⟩ := List.mem_flatMap.mp hs
    exact changeContents_sends (hfits.changes n hn) s hin
  split at hend
  · obtain ⟨a', hbeat, rfl⟩ := hend
    rw [Assembly.contents_finish, appendSubmessage_contents rfl hbeat]
    refine List.forall_mem_append.mpr ⟨hchanges, fun s hs => ?_⟩
    obtain rfl := List.mem_singleton.mp hs
    exact .heartbeat _ false false
  · subst hend
    rwa [Assembly.contents_finish]

end SendView

namespace ReliableWriter

/-- What was built from the view was built from the history and the settings the writer
has now. -/
structure BuiltFrom (v : SendView) (w : ReliableWriter) : Prop where
  guid : v.guid = w.guid
  cache : v.cache = w.cache
  fragmentSize : v.fragmentSize = w.fragmentSize
  mtu : v.mtu = w.mtu
  inlineWriterQos : v.inlineWriterQos = w.inlineWriterQos
  secureGroupInfo : v.secureGroupInfo = w.secureGroupInfo
  lastWrittenSn : v.lastWrittenSn = w.nextSn

def SentTo (ps : List ReaderProxy) (w : ReliableWriter) (out : List AddressedDatagram) : Prop :=
  ∀ s ∈ contents out, ∃ v p, BuiltFrom v w ∧ p ∈ ps ∧ v.Sends p s

theorem sentTo_nil (ps : List ReaderProxy) (w : ReliableWriter) : SentTo ps w [] := by
  intro s hs
  simp at hs

variable {w w' : ReliableWriter} {out : List AddressedDatagram} {v : SendView}

theorem sentTo_of_traverse {σ : Type}
    {f : σ → ReaderProxy → Outcome (σ × ReaderProxy) WireError (List AddressedDatagram)} {s t : σ}
    {ps qs : List ReaderProxy} (hbuilt : BuiltFrom v w)
    (hturn : ∀ p s s' q out, f s p = ((s', q), .ok out) → ∀ x ∈ contents out, v.Sends p x)
    (h : Outcome.traverse f s ps = ((t, qs), .ok out)) : SentTo ps w out := by
  induction ps generalizing s qs out with
  | nil =>
    obtain ⟨-, rfl⟩ := h
    exact sentTo_nil [] w
  | cons p ps ih =>
    obtain ⟨s', q, qs', own, rest, hp, hrest, -, rfl⟩ := traverse_cons_ok h
    intro x hx
    rw [contents_append] at hx
    rcases List.mem_append.mp hx with hown | hothers
    · exact ⟨v, p, hbuilt, List.mem_cons_self, hturn _ _ _ _ _ hp x hown⟩
    · obtain ⟨v', p', hbuilt', hp', hsends⟩ := ih hrest x hothers
      exact ⟨v', p', hbuilt', List.mem_cons_of_mem _ hp', hsends⟩

theorem forProxies_sentTo {turn : SendView → SendLog → ReaderProxy → TurnOutcome}
    (hturn : ∀ p log log' q out, turn w.view log p = ((log', q), .ok out) →
      ∀ s ∈ contents out, w.view.Sends p s) (h : w.forProxies turn = (w', .ok out)) :
    SentTo w.readerProxies w' out := by
  simp only [forProxies, Prod.mk.injEq] at h
  obtain ⟨rfl, hout⟩ := h
  exact sentTo_of_traverse (v := w.view) ⟨rfl, rfl, rfl, rfl, rfl, rfl, rfl⟩ hturn
    (Prod.ext rfl hout)

theorem drainTurn_sends (key : KeyHash) (sn : Int) (p : ReaderProxy) (log log' : SendLog)
    (q : ReaderProxy) (out : List AddressedDatagram)
    (h : v.drainTurn key sn log p = ((log', q), .ok out)) : ∀ s ∈ contents out, v.Sends p s := by
  simp only [SendView.drainTurn, Prod.mk.injEq] at h
  exact SendView.drainTo_sends (Prod.ext rfl h.2)

theorem emitCoherentSetEnd_sentTo {change : CacheChange}
    (h : w.emitCoherentSetEnd change = (w', .ok out)) : SentTo w.readerProxies w' out := by
  unfold emitCoherentSetEnd at h
  split at h
  · cases h
  · next cache evicted hinsert =>
    exact forProxies_sentTo (w := { w with cache := cache })
      (fun p log log' q out ht => drainTurn_sends _ _ p log log' q out ht) h

theorem tick_sentTo {now : Nat} (h : w.tick now = (w', .ok out)) :
    SentTo w.readerProxies w' out := by
  have hbuilt : BuiltFrom (w.tickView now) (w.tick now).1 := by
    simp only [tick]
    split
    · exact ⟨rfl, rfl, rfl, rfl, rfl, rfl, rfl⟩
    · simp only [noteHeartbeats]
      split <;> exact ⟨rfl, rfl, rfl, rfl, rfl, rfl, rfl⟩
  rw [h] at hbuilt
  have hout : (w.tickTurns now).2 = .ok out := by rw [← (w.tick_result now).1, h]
  refine sentTo_of_traverse hbuilt (fun p s s' q out ht => ?_) (Prod.ext rfl hout)
  exact SendView.tickTurn_sends (show _ = Except.ok out by rw [ht])

theorem step_sends {op : WriterOp} (h : w.step op = (w', .ok out)) :
    SentTo w.readerProxies w' out := by
  cases op with
  | write x =>
    obtain ⟨w₁, sn, hstage, hsend⟩ := andThen_eq_ok.mp h
    rw [← (stageSample_ok hstage).2.2.1.readerProxies]
    split at hsend
    · exact forProxies_sentTo (fun p log log' q out ht =>
        SendView.pushTo_sends (holds_of_stageSample hstage) ht) hsend
    · cases hsend
      exact sentTo_nil _ _
  | writeWithHeartbeat payload now ts destination =>
    obtain ⟨w₁, sn, hstage, hsend⟩ := andThen_eq_ok.mp h
    obtain ⟨w₂, out', hturns, hdone⟩ := andThen_eq_ok.mp hsend
    cases hdone
    rw [← (stageSample_ok hstage).2.2.1.readerProxies]
    intro s hs
    obtain ⟨v, p, hbuilt, hp, hsends⟩ := forProxies_sentTo (fun p log log' q out ht =>
      SendView.pushWithHeartbeat_sends (holds_of_stageSample hstage) ht) hturns s hs
    exact ⟨v, p, ⟨hbuilt.1, hbuilt.2, hbuilt.3, hbuilt.4, hbuilt.5, hbuilt.6, hbuilt.7⟩, hp, hsends⟩
  | writeLifecycle x =>
    obtain ⟨w₁, sn, hstage, hsend⟩ := andThen_eq_ok.mp h
    rw [← (stageLifecycle_ok hstage).2.2.1.readerProxies]
    exact forProxies_sentTo
      (fun p log log' q out ht => drainTurn_sends _ _ p log log' q out ht) hsend
  | endCoherentSet =>
    simp only [step, endCoherentSet] at h
    split at h
    · cases h
      exact sentTo_nil _ _
    · obtain ⟨w₁, sn, hnext, hend⟩ := andThen_eq_ok.mp h
      have hproxies := readerProxies_of_nextChangeSn hnext
      rw [show w.readerProxies = w₁.readerProxies from hproxies.symm]
      exact emitCoherentSetEnd_sentTo hend
  | endGroupCoherentSet e =>
    obtain ⟨w₁, sn, hnext, hend⟩ := andThen_eq_ok.mp h
    have hproxies := readerProxies_of_nextChangeSn hnext
    rw [show w.readerProxies = w₁.readerProxies from hproxies.symm]
    exact emitCoherentSetEnd_sentTo (w := { w₁ with lastGsn := some e.ecsGsn }) hend
  | tick now => exact tick_sentTo h
  | livelinessHeartbeat =>
    refine forProxies_sentTo (fun p log log' q out ht => ?_) h
    simp only [SendView.livelinessTurn, Prod.mk.injEq] at ht
    exact SendView.heartbeatAlone_sends rfl (by simp) (Prod.ext rfl ht.2)
  | _ =>
    cases h
    exact sentTo_nil _ _

end ReliableWriter
end ZeroDds.Rtps
