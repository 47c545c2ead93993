/-
Writers that leave and come back.
-/
import ZeroDds.Lib.Aligned
import ZeroDds.Rtps.Commit

namespace ZeroDds.Rtps

open SnRanges

/-- What each stream has handed out, and what was handed out as forwarded for
writers that had no state. -/
structure Ledgers where
  handed : List (Finset Int)
  early : Guid → Finset Int

namespace Ledgers

def noteFor (l : Ledgers) (r : ReliableReader) (o : Guid) (n : Int) : Ledgers :=
  match r.indexOf o with
  | some j => { l with handed := l.handed.modify j (insert n) }
  | none => { l with early := Function.update l.early o (insert n (l.early o)) }

def noteKept (l : Ledgers) (r : ReliableReader) (k : Nat) (y : DeliveredSample) : Ledgers :=
  if y.coherentSetEnd then l
  else
    match y.forwardedBy with
    | none => { l with handed := l.handed.modify k (insert y.sequenceNumber) }
    | some _ => l.noteFor r y.writerGuid y.sequenceNumber

end Ledgers

namespace ReliableReader

def tagged (outs : List (List DeliveredSample)) : List (Nat × DeliveredSample) :=
  outs.zipIdx.flatMap fun o => o.1.map fun x => (o.2, x)

def noteCommit (l : Ledgers) (r : ReliableReader) (k : Nat) (x : DeliveredSample) : Ledgers :=
  match (r.commitSample x).2 with
  | some y => l.noteKept r k y
  | none => l

def noteCommits (l : Ledgers) (r : ReliableReader) : List (Nat × DeliveredSample) → Ledgers
  | [] => l
  | (k, x) :: rest => noteCommits (noteCommit l r k x) (r.commitSample x).1 rest

/-- A sample committed as its own stream's is dropped only if that stream has handed
the number out. -/
def DropsOnlyOwn (l : Ledgers) (r : ReliableReader) : List (Nat × DeliveredSample) → Prop
  | [] => True
  | (k, x) :: rest =>
    (x.coherentSetEnd = false → r.forwardedFor x = none → (r.commitSample x).2 = none →
      ∃ handed ∈ l.handed[k]?, x.sequenceNumber ∈ handed) ∧
    DropsOnlyOwn (noteCommit l r k x) (r.commitSample x).1 rest

instance DropsOnlyOwn.decidable :
    ∀ l r es, Decidable (DropsOnlyOwn l r es)
  | _, _, [] => .isTrue trivial
  | l, r, (k, x) :: rest =>
    have := DropsOnlyOwn.decidable (noteCommit l r k x) (r.commitSample x).1 rest
    inferInstanceAs (Decidable ((x.coherentSetEnd = false → r.forwardedFor x = none →
      (r.commitSample x).2 = none → ∃ handed ∈ l.handed[k]?, x.sequenceNumber ∈ handed) ∧
      DropsOnlyOwn (noteCommit l r k x) (r.commitSample x).1 rest))

/-- A reader with the ledgers of its streams, and the writers that have ever had a
proxy. -/
structure Streams where
  reader : ReliableReader
  ledgers : Ledgers
  matched : List Guid

def noteDrained (l : Ledgers) (r : ReliableReader) : Ledgers :=
  let m := r.writerProxies.length
  { l with
    handed := l.handed.take m ++
      ((r.departed.zip (l.handed.drop m)).filter fun e => !e.1.receivedCache.isEmpty).map
        Prod.snd }

variable (s : Streams)

def noteCall (op : ReaderOp) : Ledgers :=
  let r := (s.reader.receive op).1
  let l := noteCommits s.ledgers r (tagged (s.reader.receive op).2)
  match op with
  | .releaseHeld => noteDrained l (r.commitReleased (s.reader.receive op).2.flatten).1
  | _ => l

/-- A new stream has handed out nothing, but for what was forwarded for a writer
before it was first matched. -/
def noteMatched (guid : Guid) : Ledgers :=
  match s.reader.proxyIndexByWriter guid with
  | some _ => s.ledgers
  | none =>
    let m := s.reader.writerProxies.length
    { s.ledgers with
      handed := s.ledgers.handed.take m ++
        (if guid ∈ s.matched then ∅ else s.ledgers.early guid) :: s.ledgers.handed.drop m }

def noteRemoved (guid : Guid) : Ledgers :=
  match s.reader.proxyIndexByWriter guid with
  | some idx => { s.ledgers with handed := s.ledgers.handed.eraseIdx idx }
  | none => s.ledgers

def noteDeparted (guid : Guid) : Ledgers :=
  match s.reader.proxyIndexByWriter guid with
  | some idx =>
    { s.ledgers with
      handed := s.ledgers.handed.eraseIdx idx ++
        if (s.reader.writerProxies[idx]?.any fun t => t.receivedCache.maxSn.isSome) = true then
          s.ledgers.handed[idx]?.toList
        else [] }
  | none => s.ledgers

def noteAccepted (original : Guid) (sn : Int) : Ledgers :=
  if (s.reader.acceptForwarded original sn).2 then s.ledgers.noteFor s.reader original sn
  else s.ledgers

def streamStep (op : MatchOp) : Streams × MatchOutput :=
  let r := s.reader.matchStep op
  match op with
  | .call op => (⟨r.1, noteCall s op, s.matched⟩, r.2)
  | .addWriterProxy p =>
    (⟨r.1, noteMatched s p.1.remoteWriterGuid, p.1.remoteWriterGuid :: s.matched⟩, r.2)
  | .removeWriterProxy guid => (⟨r.1, noteRemoved s guid, s.matched⟩, r.2)
  | .departWriterProxy guid => (⟨r.1, noteDeparted s guid, s.matched⟩, r.2)
  | .acceptForwarded o n => (⟨r.1, noteAccepted s o n, s.matched⟩, r.2)

/-- A writer is matched anew only when nothing of an old stream of it is left: no
departed state holds samples of it, and no forwarded changes are remembered for it
unless it is also remembered as one that left. -/
def ReturnsClean : MatchOp → Prop
  | .addWriterProxy p => s.reader.proxyIndexByWriter p.1.remoteWriterGuid = none →
    (∀ t ∈ s.reader.departed, t.proxy.remoteWriterGuid ≠ p.1.remoteWriterGuid) ∧
    (p.1.remoteWriterGuid ∈ s.matched → p.1.remoteWriterGuid ∈ s.reader.endedWriters ∨
      ∀ e ∈ s.reader.forwardedWithoutProxy, e.1 ≠ p.1.remoteWriterGuid)
  | _ => True

instance ReturnsClean.decidable (s : Streams) : ∀ op, Decidable (ReturnsClean s op)
  | .addWriterProxy p => inferInstanceAs (Decidable
    (s.reader.proxyIndexByWriter p.1.remoteWriterGuid = none →
      (∀ t ∈ s.reader.departed, t.proxy.remoteWriterGuid ≠ p.1.remoteWriterGuid) ∧
      (p.1.remoteWriterGuid ∈ s.matched → p.1.remoteWriterGuid ∈ s.reader.endedWriters ∨
        ∀ e ∈ s.reader.forwardedWithoutProxy, e.1 ≠ p.1.remoteWriterGuid)))
  | .call _ | .removeWriterProxy _ | .departWriterProxy _ | .acceptForwarded _ _ => .isTrue trivial

def records (r : ReliableReader) : List (Guid × SnRanges) :=
  r.states.map fun s => (s.proxy.remoteWriterGuid, s.committed)

def Within (c : SnRanges) (handed : Finset Int) : Prop := c.Apart ∧ ∀ n ∈ c, n ∈ handed

structure Separate (r : ReliableReader) (l : Ledgers) : Prop where
  shape : ∀ s ∈ r.states, s.Shape
  distinct : (r.records.map Prod.fst).Nodup
  record : List.Forall₂ (fun c handed => Within c.2 handed) r.records l.handed
  early : ∀ e ∈ r.forwardedWithoutProxy, Within e.2 (l.early e.1)

theorem records_map_fst (r : ReliableReader) : r.records.map Prod.fst = r.guids := by
  simp [records, guids]

variable {r r' : ReliableReader} {l : Ledgers}

theorem Separate.nodup (h : Separate r l) : r.guids.Nodup := by
  rw [← records_map_fst]
  exact h.distinct

theorem Separate.oneEach (h : Separate r l) : r.OneEach := by
  have hdistinct := h.nodup
  rw [guids, states, List.map_append] at hdistinct
  exact (List.nodup_append'.mp hdistinct).1

variable {k : Nat}

theorem Separate.indexOf_eq (h : Separate r l) {g : Guid} (hget : r.guids[k]? = some g) :
    r.indexOf g = some k := by
  obtain ⟨hlt, rfl⟩ := List.getElem?_eq_some_iff.mp hget
  have hlt' : k < r.states.length := by simpa [guids] using hlt
  refine List.findIdx?_eq_some_iff_getElem.mpr ⟨hlt', by simp [guids], fun j hj => ?_⟩
  have hne : r.guids[j] ≠ r.guids[k] :=
    fun heq => absurd ((List.Nodup.getElem_inj_iff h.nodup).mp heq) (by omega)
  simpa [guids] using hne

theorem Separate.of_same (h : Separate r l) (hshape : ∀ s ∈ r'.states, s.Shape)
    (hrecords : r'.records = r.records)
    (hmemory : r'.forwardedWithoutProxy = r.forwardedWithoutProxy) : Separate r' l where
  shape := hshape
  distinct := hrecords ▸ h.distinct
  record := hrecords ▸ h.record
  early := hmemory ▸ h.early

def recordedAs (n : Int) (c : Guid × SnRanges) : Guid × SnRanges := (c.1, (c.2.insert n).1)

variable {j : Nat} {n : Int}

theorem records_modify (h : r'.states = r.states.modify j (recorded n)) :
    r'.records = r.records.modify j (recordedAs n) := by
  refine List.ext_getElem? fun k => ?_
  rw [records, h, records, List.getElem?_map, List.getElem?_modify, List.getElem?_modify,
    List.getElem?_map]
  by_cases hk : j = k
  · subst hk
    cases r.states[j]? with
    | none => simp
    | some s => simp [recorded, recordedAs]
  · simp [hk]

variable {c : SnRanges} {handed : Finset Int}

theorem Within.insert (h : Within c handed) (n : Int) :
    Within (c.insert n).1 (insert n handed) := by
  obtain ⟨-, hfresh, hold⟩ := insert_spec h.1 n
  cases hanswer : (c.insert n).2 with
  | true =>
    have hins := hfresh hanswer
    refine ⟨hins.apart, fun m hm => ?_⟩
    rcases hins.sub m hm with hm | rfl
    · exact Finset.mem_insert_of_mem (h.2 m hm)
    · exact Finset.mem_insert_self _ _
  | false =>
    rw [hold hanswer]
    exact ⟨h.1, fun m hm => Finset.mem_insert_of_mem (h.2 m hm)⟩

theorem Within.insert_known (h : Within c handed) (hknown : (c.insert n).2 = false) :
    Within (c.insert n).1 handed ∧ n ∈ handed := by
  obtain ⟨hanswer, -, hold⟩ := insert_spec h.1 n
  refine ⟨by rw [hold hknown]; exact h, h.2 n ?_⟩
  by_contra hn
  rw [hanswer.mpr hn] at hknown
  cases hknown

theorem Separate.recorded (h : Separate r l) {s : WriterProxyState} (hget : r.states[j]? = some s)
    (hstates : r'.states = r.states.modify j (recorded n))
    (hmemory : r'.forwardedWithoutProxy = r.forwardedWithoutProxy) :
    ((s.committed.insert n).2 = true →
      Separate r' { l with handed := l.handed.modify j (insert n) }) ∧
    ((s.committed.insert n).2 = false →
      Separate r' l ∧ ∃ handed ∈ l.handed[j]?, n ∈ handed) := by
  have hrecords := records_modify hstates
  have hdistinct : (r'.records.map Prod.fst).Nodup := by
    rw [records_map_fst, guids_recorded hstates]
    exact h.nodup
  have hrecord : r.records[j]? = some (s.proxy.remoteWriterGuid, s.committed) := by
    rw [records, List.getElem?_map, hget]
    rfl
  refine ⟨fun _ => ?_, fun hknown => ?_⟩
  · refine ⟨shape_recorded hstates h.shape, hdistinct, ?_, hmemory ▸ h.early⟩
    rw [hrecords]
    exact forall₂_modify h.record j fun c handed hc => hc.insert n
  · obtain ⟨handed, hhanded, hwithin⟩ := forall₂_getElem? h.record hrecord
    refine ⟨⟨shape_recorded hstates h.shape, hdistinct, ?_, hmemory ▸ h.early⟩, handed, hhanded,
      (hwithin.insert_known hknown).2⟩
    rw [hrecords]
    refine forall₂_modify_left h.record j fun c b hc hb => ?_
    rw [hrecord] at hc
    obtain rfl := Option.some.inj hc
    exact (hb.insert_known hknown).1

theorem Separate.commitsFor (h : Separate r l) {o : Guid} {fresh : Bool}
    (hc : CommitsFor r o n r' fresh) :
    Separate r' (if fresh then l.noteFor r o n else l) ∧ r'.guids = r.guids := by
  cases hc with
  | waits _ _ _ => exact ⟨h, rfl⟩
  | @recorded j s _ hidx hget _ hstates hsame =>
    obtain ⟨htrue, hfalse⟩ := h.recorded hget hstates hsame.memory.forwarded
    refine ⟨?_, guids_recorded hstates⟩
    cases hanswer : (s.committed.insert n).2 with
    | true =>
      rw [if_pos rfl, Ledgers.noteFor, hidx]
      exact htrue hanswer
    | false => exact (hfalse hanswer).1
  | @away known _ hidx hknown hentries hstates hlength hended =>
    refine ⟨?_, guids_same hstates⟩
    have hwithin : Within known (l.early o) := by
      rcases hknown with rfl | hmem
      · exact ⟨apart_empty, fun m hm => absurd hm (not_mem_empty m)⟩
      · exact h.early _ hmem
    have hshape : ∀ s ∈ r'.states, s.Shape := hstates ▸ h.shape
    have hrecords : r'.records = r.records := by rw [records, hstates, records]
    cases hanswer : (known.insert n).2 with
    | true =>
      rw [if_pos rfl, Ledgers.noteFor, hidx]
      refine ⟨hshape, hrecords ▸ h.distinct, hrecords ▸ h.record, fun e he => ?_⟩
      rcases hentries e he with he | rfl
      · obtain ⟨hapart, hsub⟩ := h.early e he
        refine ⟨hapart, fun m hm => ?_⟩
        by_cases heo : e.1 = o
        · subst heo
          simpa using .inr (hsub m hm)
        · simpa [heo] using hsub m hm
      · simpa using hwithin.insert n
    | false =>
      refine ⟨hshape, hrecords ▸ h.distinct, hrecords ▸ h.record, fun e he => ?_⟩
      rcases hentries e he with he | rfl
      · exact h.early e he
      · exact (hwithin.insert_known hanswer).1

theorem Separate.commitSample (h : Separate r l) {x : DeliveredSample}
    (hown : r.guids[k]? = some x.writerGuid) (hdirect : x.forwardedBy = none) :
    Separate (r.commitSample x).1 (noteCommit l r k x) ∧
      (r.commitSample x).1.guids = r.guids ∧
      (x.coherentSetEnd = false → r.forwardedFor x = none → (r.commitSample x).2 = none →
        ∃ handed ∈ l.handed[k]?, x.sequenceNumber ∈ handed) := by
  have hcases := r.commitSample_cases x
  unfold noteCommit
  generalize r.commitSample x = res at hcases
  obtain ⟨r', kept⟩ := res
  simp only at hcases ⊢
  cases hcases with
  | setEnd hend =>
    refine ⟨?_, rfl, fun hnot => by simp [hend] at hnot⟩
    simpa [Ledgers.noteKept, hend] using h
  | @own j s _ hend hfor hidx hget hstates hsame =>
    obtain rfl : k = j := Option.some.inj ((h.indexOf_eq hown).symm.trans hidx)
    obtain ⟨htrue, hfalse⟩ := h.recorded hget hstates hsame.memory.forwarded
    refine ⟨?_, guids_recorded hstates, fun _ _ hdropped => ?_⟩
    · cases hanswer : (s.committed.insert x.sequenceNumber).2 with
      | true => simpa [Ledgers.noteKept, hend, hdirect] using htrue hanswer
      | false => exact (hfalse hanswer).1
    · cases hanswer : (s.committed.insert x.sequenceNumber).2 with
      | true => simp [hanswer] at hdropped
      | false => exact (hfalse hanswer).2
  | orphan _ _ hidx =>
    rw [h.indexOf_eq hown] at hidx
    cases hidx
  | @forwarded o n fresh r₁ _ hend hfor hc hstates hsame =>
    obtain ⟨hsep, hguids⟩ := h.commitsFor hc
    have hsep' : Separate r' (if fresh then l.noteFor r o n else l) :=
      hsep.of_same (hstates ▸ hsep.shape) (by rw [records, hstates, records])
        hsame.memory.forwarded
    refine ⟨?_, (guids_same hstates).trans hguids, fun _ hnone => by simp [hfor] at hnone⟩
    cases fresh with
    | true => simpa [Ledgers.noteKept, handedFor, hend] using hsep'
    | false => exact hsep'

def Direct (r : ReliableReader) (es : List (Nat × DeliveredSample)) : Prop :=
  ∀ e ∈ es, r.guids[e.1]? = some e.2.writerGuid ∧ e.2.forwardedBy = none

theorem Separate.commitReleased {es : List (Nat × DeliveredSample)} (h : Separate r l)
    (hdirect : r.Direct es) :
    Separate (r.commitReleased (es.map Prod.snd)).1 (noteCommits l r es) ∧
      (r.commitReleased (es.map Prod.snd)).1.guids = r.guids ∧ DropsOnlyOwn l r es := by
  induction es generalizing r l with
  | nil => exact ⟨h, rfl, trivial⟩
  | cons e es ih =>
    obtain ⟨k, x⟩ := e
    obtain ⟨hown, hby⟩ := hdirect (k, x) List.mem_cons_self
    obtain ⟨hsep, hguids, hdrop⟩ := h.commitSample hown hby
    have hrest : (r.commitSample x).1.Direct es := by
      intro e he
      rw [hguids]
      exact hdirect e (List.mem_cons_of_mem _ he)
    obtain ⟨hsep', hguids', hdrops⟩ := ih hsep hrest
    exact ⟨hsep', hguids'.trans hguids, hdrop, hdrops⟩

theorem map_snd_tagged (outs : List (List DeliveredSample)) :
    (tagged outs).map Prod.snd = outs.flatten := by
  have hflat : ∀ k, (outs.zipIdx k).flatMap (fun o => o.1) = outs.flatten := by
    induction outs with
    | nil => simp
    | cons o outs ih => simp [List.zipIdx_cons, ih]
  simpa [tagged, List.map_flatMap, Function.comp_def] using hflat 0

variable {outs : List (List DeliveredSample)}

theorem mem_tagged {e : Nat × DeliveredSample} (h : e ∈ tagged outs) :
    ∃ out, outs[e.1]? = some out ∧ e.2 ∈ out := by
  obtain ⟨⟨out, k⟩, hk, he⟩ := List.mem_flatMap.mp h
  obtain ⟨x, hx, rfl⟩ := List.mem_map.mp he
  exact ⟨out, List.mem_zipIdx_iff_getElem?.mp hk, hx⟩

theorem Separate.received {r₁ : ReliableReader} {op : ReaderOp} (h : Separate r l)
    (hr : Received r op r₁ outs) :
    Separate r₁ l ∧ r₁.guids = r.guids ∧ r₁.Direct (tagged outs) := by
  have hrecords : r₁.records = r.records :=
    hr.map_states fun s s' hsame => by rw [hsame.guid, hsame.committed]
  refine ⟨h.of_same hr.shape hrecords hr.forwarded, hr.guids, fun e he => ?_⟩
  obtain ⟨out, hout, hx⟩ := mem_tagged he
  rw [hr.guids]
  exact hr.direct hout hx

theorem Separate.states_within (h : Separate r l) :
    List.Forall₂ (fun s handed => Within s.committed handed) r.states l.handed := by
  have hrecord := h.record
  rwa [records, List.forall₂_map_left_iff] at hrecord

theorem separate_of_states (hshape : ∀ s ∈ r.states, s.Shape) (hnodup : r.guids.Nodup)
    (hwithin : List.Forall₂ (fun s handed => Within s.committed handed) r.states l.handed)
    (hearly : ∀ e ∈ r.forwardedWithoutProxy, Within e.2 (l.early e.1)) : Separate r l where
  shape := hshape
  distinct := by rwa [records_map_fst]
  record := by rwa [records, List.forall₂_map_left_iff]
  early := hearly

theorem Separate.drainDeparted (h : Separate r l) : Separate r.drainDeparted (noteDrained l r) := by
  obtain ⟨hproxies, hdeparted, hforwarded⟩ := r.drainDeparted_frame
  have hstates : r.drainDeparted.states =
      r.writerProxies ++ r.departed.filter fun s => !s.receivedCache.isEmpty := by
    rw [states, hproxies, hdeparted]
  have hsub : r.drainDeparted.states.Sublist r.states := by
    rw [hstates, states]
    exact (List.Sublist.refl _).append List.filter_sublist
  refine separate_of_states (fun s hs => h.shape s (hsub.subset hs)) (h.nodup.sublist (hsub.map _))
    ?_ (hforwarded ▸ h.early)
  have htake := List.forall₂_take r.writerProxies.length h.states_within
  have hdrop := List.forall₂_drop r.writerProxies.length h.states_within
  rw [states, List.take_left] at htake
  rw [states, List.drop_left] at hdrop
  rw [hstates]
  exact forall₂_append htake (forall₂_filter_zip hdrop fun s => !s.receivedCache.isEmpty)

variable {s : Streams}

theorem Separate.call (h : Separate s.reader s.ledgers) (op : ReaderOp) :
    Separate (s.reader.step op).1 (noteCall s op) ∧
      DropsOnlyOwn s.ledgers (s.reader.receive op).1 (tagged (s.reader.receive op).2) := by
  obtain ⟨hsep, -, hdirect⟩ := h.received (receive_received h.shape h.oneEach op)
  obtain ⟨hsep', -, hdrops⟩ := hsep.commitReleased hdirect
  refine ⟨?_, hdrops⟩
  rw [map_snd_tagged] at hsep'
  rw [(s.reader.step_eq_receive op).1]
  cases op with
  | releaseHeld => exact hsep'.drainDeparted
  | _ => exact hsep'

/-! ### Matching and unmatching -/

variable {p : AbsorbedProxy}

theorem Separate.newState_within (h : Separate s.reader s.ledgers)
    (hidx : s.reader.proxyIndexByWriter p.1.remoteWriterGuid = none)
    (hclean : ReturnsClean s (.addWriterProxy p)) :
    Within (s.reader.newState p.1).committed
      (if p.1.remoteWriterGuid ∈ s.matched then ∅
        else s.ledgers.early p.1.remoteWriterGuid) := by
  obtain ⟨proxy', committed, heq, -, hcommitted⟩ := s.reader.newState_eq p.1
  rw [heq]
  rcases hcommitted with rfl | ⟨e, he, hguid, hended, rfl⟩
  · exact ⟨apart_empty, fun m hm => absurd hm (not_mem_empty m)⟩
  · obtain ⟨hapart, hsub⟩ := h.early e he
    refine ⟨hapart, fun n hn => ?_⟩
    rw [if_neg]
    · exact hguid ▸ hsub n hn
    · intro hmatched
      rcases (hclean hidx).2 hmatched with hin | hnone
      · exact hended hin
      · exact hnone e he hguid

theorem Separate.modified (h : Separate r l) {f : WriterProxyState → WriterProxyState}
    (hf : ∀ t : WriterProxyState, t.Shape → (f t).Shape ∧ WriterProxyState.SameWriter t (f t))
    (hstates : r'.states = r.states.modify j f)
    (hmemory : r'.forwardedWithoutProxy = r.forwardedWithoutProxy) : Separate r' l := by
  have hkept : List.Forall₂ (fun t t' => t'.Shape ∧ WriterProxyState.SameWriter t t') r.states
      (r.states.modify j f) := by
    refine List.forall₂_iff_get.mpr ⟨by simp, fun k hk hk' => ?_⟩
    have hshape := h.shape _ (List.getElem_mem hk)
    simp only [List.get_eq_getElem, List.getElem_modify]
    split
    · exact hf _ hshape
    · exact ⟨hshape, .refl _⟩
  refine h.of_same (fun t ht => ?_) ?_ hmemory
  · rw [hstates] at ht
    obtain ⟨k, hk, rfl⟩ := List.getElem_of_mem ht
    exact (hkept.get (by simpa using hk) hk).1
  · rw [records, hstates, records]
    refine List.ext_getElem (by simp) fun k hk hk' => ?_
    obtain ⟨-, hguid, hcommitted⟩ := hkept.get (by simpa using hk') (by simpa using hk)
    simpa using ⟨hguid, hcommitted⟩

theorem Separate.addWriterProxy (h : Separate s.reader s.ledgers)
    (hclean : ReturnsClean s (.addWriterProxy p)) :
    Separate (s.reader.addWriterProxy p.1) (noteMatched s p.1.remoteWriterGuid) := by
  unfold noteMatched
  cases hidx : s.reader.proxyIndexByWriter p.1.remoteWriterGuid with
  | some idx =>
    obtain ⟨hstates, hmemory⟩ := addWriterProxy_matched hidx
    refine h.modified ?_ hstates hmemory
    intro t ht
    have habs := ht.absorbed
    exact ⟨⟨⟨habs.first_le, habs.received_gt, habs.irrelevant_gt⟩, ht.cache⟩, rfl, rfl⟩
  | none =>
    obtain ⟨hstates, hmemory⟩ := addWriterProxy_new hidx
    obtain ⟨hshape, hguid⟩ := s.reader.newState_shape p
    have hperm : (s.reader.addWriterProxy p.1).states.Perm
        (s.reader.newState p.1 :: s.reader.states) := by
      rw [hstates]
      exact List.perm_middle
    refine separate_of_states (fun t ht => ?_) ?_ ?_ fun e he => ?_
    · rcases List.mem_cons.mp (hperm.mem_iff.mp ht) with rfl | ht
      · exact hshape
      · exact h.shape t ht
    · refine (hperm.map _).nodup_iff.mpr (List.nodup_cons.mpr ⟨fun hmem => ?_, h.nodup⟩)
      obtain ⟨t, ht, htguid⟩ := List.mem_map.mp hmem
      have htguid := htguid.trans hguid
      rcases List.mem_append.mp ht with ht | ht
      · exact proxyIndexByWriter_none hidx t ht htguid
      · exact (hclean hidx).1 t ht htguid
    · have htake := List.forall₂_take s.reader.writerProxies.length h.states_within
      have hdrop := List.forall₂_drop s.reader.writerProxies.length h.states_within
      rw [states, List.take_left] at htake
      rw [states, List.drop_left] at hdrop
      rw [hstates]
      exact forall₂_append htake (.cons (h.newState_within hidx hclean) hdrop)
    · rw [hmemory] at he
      exact h.early e (List.mem_of_mem_eraseP he)

theorem Separate.erased (h : Separate r l) {idx : Nat}
    (hstates : r'.states = r.states.eraseIdx idx)
    (hmemory : r'.forwardedWithoutProxy = r.forwardedWithoutProxy) :
    Separate r' { l with handed := l.handed.eraseIdx idx } := by
  have hsub : r'.states.Sublist r.states := by
    rw [hstates]
    exact List.eraseIdx_sublist _ _
  refine separate_of_states (fun s hs => h.shape s (hsub.subset hs)) (h.nodup.sublist (hsub.map _))
    ?_ (hmemory ▸ h.early)
  rw [hstates]
  exact forall₂_eraseIdx h.states_within idx

section

variable (h : Separate s.reader s.ledgers)
include h

theorem Separate.removeWriterProxy (guid : Guid) :
    Separate (s.reader.removeWriterProxy guid) (noteRemoved s guid) := by
  unfold ReliableReader.removeWriterProxy noteRemoved
  cases hidx : s.reader.proxyIndexByWriter guid with
  | none => exact h
  | some idx =>
    have hlt := (List.findIdx?_eq_some_iff_getElem.mp hidx).1
    refine h.erased ?_ rfl
    exact (List.eraseIdx_append_of_lt_length hlt _).symm

theorem Separate.departWriterProxy (guid : Guid) :
    Separate (s.reader.departWriterProxy guid) (noteDeparted s guid) := by
  unfold ReliableReader.departWriterProxy noteDeparted
  cases hidx : s.reader.proxyIndexByWriter guid with
  | none => exact h
  | some idx =>
    obtain ⟨t, hget, -⟩ := proxyIndexByWriter_some hidx
    have hlt := (List.getElem?_eq_some_iff.mp hget).1
    have hget' : s.reader.states[idx]? = some t := by rw [getElem?_states_lt hlt, hget]
    have herase : s.reader.writerProxies.eraseIdx idx ++ s.reader.departed =
        s.reader.states.eraseIdx idx := (List.eraseIdx_append_of_lt_length hlt _).symm
    simp only [hget]
    cases hmax : t.receivedCache.maxSn with
    | none =>
      simp only [Option.any_some, hmax, Option.isSome_none, Bool.false_eq_true, if_false,
        List.append_nil]
      exact h.erased herase rfl
    | some highest =>
      -- The state moves behind the others, and its ledger with it.
      obtain ⟨hshape, hsame⟩ := giveUpMissing_spec (h.shape t (List.mem_of_getElem? hget')) highest
      obtain ⟨handed, hhanded, hwithin⟩ := forall₂_getElem? h.states_within hget'
      simp only [Option.any_some, hmax, Option.isSome_some, if_true, hhanded, Option.toList_some]
      have hrest : Separate { s.reader with
            writerProxies := s.reader.writerProxies.eraseIdx idx }
          { s.ledgers with handed := s.ledgers.handed.eraseIdx idx } := h.erased herase rfl
      refine separate_of_states (fun u hu => ?_) ?_ ?_ hrest.early
      · simp only [states, ← List.append_assoc] at hu
        rcases List.mem_append.mp hu with hu | hu
        · exact hrest.shape u hu
        · obtain rfl := List.mem_singleton.mp hu
          exact hshape
      · have hperm : (t.proxy.remoteWriterGuid ::
            (s.reader.states.eraseIdx idx).map fun s => s.proxy.remoteWriterGuid).Perm
            s.reader.guids := by
          have hmid := List.getElem_cons_eraseIdx_perm (List.getElem?_eq_some_iff.mp hget').1
          rw [(List.getElem?_eq_some_iff.mp hget').2] at hmid
          exact hmid.map fun s => s.proxy.remoteWriterGuid
        have hnodup := hperm.nodup_iff.mpr h.nodup
        simp only [guids, states, ← List.append_assoc]
        rw [herase, List.map_append, List.map_singleton, hsame.guid]
        exact (List.perm_append_singleton _ _).nodup_iff.mpr hnodup
      · simp only [states, ← List.append_assoc]
        refine forall₂_append hrest.states_within (.cons ?_ .nil)
        rw [hsame.committed]
        exact hwithin

theorem Separate.acceptForwarded (o : Guid) (n : Int) :
    Separate (s.reader.acceptForwarded o n).1 (noteAccepted s o n) := by
  have hcommits := (h.commitsFor (s.reader.commitForwarded_cases o n)).1
  unfold noteAccepted ReliableReader.acceptForwarded
  rcases hres : s.reader.commitForwarded o n with ⟨r', fresh⟩
  rw [hres] at hcommits
  cases fresh with
  | true => exact hcommits
  | false => exact hcommits.of_same hcommits.shape rfl rfl

end

def Streams.new (cfg : ReliableReaderConfig) : Streams where
  reader := .new cfg
  ledgers := ⟨cfg.writerProxies.map fun _ => ∅, fun _ => ∅⟩
  matched := cfg.writerProxies.map fun p => p.remoteWriterGuid

theorem separate_new {cfg : ReliableReaderConfig} (habsorbed : ∀ p ∈ cfg.writerProxies, p.Absorbed)
    (hdistinct : (cfg.writerProxies.map fun p => p.remoteWriterGuid).Nodup) :
    Separate (Streams.new cfg).reader (Streams.new cfg).ledgers := by
  have hstates : (Streams.new cfg).reader.states = cfg.writerProxies.map fun p =>
      WriterProxyState.new p cfg.maxSamplesPerProxy cfg.assemblerCaps := by
    simp [Streams.new, ReliableReader.new, states]
  refine separate_of_states (fun s hs => ?_) ?_ ?_ fun e he => ?_
  · rw [hstates] at hs
    obtain ⟨p, hp, rfl⟩ := List.mem_map.mp hs
    exact ⟨habsorbed p hp, rfl, rfl, fun n c hn => by
      simp [WriterProxyState.new, HistoryCache.new] at hn⟩
  · rw [guids, hstates, List.map_map]
    exact hdistinct
  · rw [hstates]
    refine List.forall₂_map_left_iff.mpr (List.forall₂_map_right_iff.mpr
      (List.forall₂_same.mpr fun p _ => ?_))
    exact ⟨apart_empty, fun n hn => absurd hn (not_mem_empty n)⟩
  · cases he

theorem Separate.streamStep (h : Separate s.reader s.ledgers) {op : MatchOp}
    (hclean : ReturnsClean s op) :
    Separate (streamStep s op).1.reader (streamStep s op).1.ledgers := by
  cases op with
  | call op => exact (h.call op).1
  | addWriterProxy p => exact h.addWriterProxy hclean
  | removeWriterProxy guid => exact h.removeWriterProxy guid
  | departWriterProxy guid => exact h.departWriterProxy guid
  | acceptForwarded o n => exact h.acceptForwarded o n

/-- In every run in which returning writers find nothing of their old streams, a
call drops a released sample only if the sample's own stream has handed its number
out; every other one is handed out. -/
theorem streams_drop_only_their_own {cfg : ReliableReaderConfig}
    (habsorbed : ∀ p ∈ cfg.writerProxies, p.Absorbed)
    (hdistinct : (cfg.writerProxies.map fun p => p.remoteWriterGuid).Nodup)
    {h : History MatchOp MatchOutput} {s : Streams}
    (hrun : Reaches streamStep ReturnsClean (Streams.new cfg) h s) (op : ReaderOp) :
    DropsOnlyOwn s.ledgers (s.reader.receive op).1 (tagged (s.reader.receive op).2) ∧
      (s.reader.step op).2.delivered =
        ((s.reader.receive op).1.commitReleased
          ((tagged (s.reader.receive op).2).map Prod.snd)).2 := by
  have hsep : Separate s.reader s.ledgers :=
    hrun.invariant (P := fun _ s => Separate s.reader s.ledgers)
      (separate_new habsorbed hdistinct) fun _ _ _ hinv hclean => hinv.streamStep hclean
  refine ⟨(hsep.call op).2, ?_⟩
  rw [map_snd_tagged]
  exact (s.reader.step_eq_receive op).2

section Returning

open ReaderFixture

def heldThenReturned (returned : List MatchOp) : List MatchOp :=
  [.call (.setReleaseBudget (some 0)), .call (dataOp (data 1 0xAA)),
    .departWriterProxy singleWriterGuid] ++ returned ++
  [.addWriterProxy ⟨.new singleWriterGuid [] [] true, WriterProxy.new_absorbed _ _ _ _⟩,
    .call (.setReleaseBudget none), .call (dataOp (data 1 0xBB))]

def returningConfig : ReliableReaderConfig where
  guid := readerGuid
  vendorId := .zerodds
  writerProxies := [.new singleWriterGuid [] [] true]
  maxSamplesPerProxy := 4
  heartbeatResponseDelay := 200000000
  assemblerCaps := .default

/-- The held sample is released before the writer returns: its number is handed out
again, and a second copy of it is not. -/
theorem streams_drop_only_their_own_after_release :
    let s := (run streamStep (Streams.new returningConfig)
      (heldThenReturned [.call (.setReleaseBudget none), .call .releaseHeld])).1
    DropsOnlyOwn s.ledgers (s.reader.receive (dataOp (data 1 0xCC))).1
        (tagged (s.reader.receive (dataOp (data 1 0xCC))).2) ∧
      (s.reader.step (dataOp (data 1 0xCC))).2.delivered =
        ((s.reader.receive (dataOp (data 1 0xCC))).1.commitReleased
          ((tagged (s.reader.receive (dataOp (data 1 0xCC))).2).map Prod.snd)).2 :=
  streams_drop_only_their_own
    (by simpa [returningConfig] using WriterProxy.new_absorbed _ _ _ _) (by decide)
    (reaches_run (by decide +kernel)) _

/-- The held sample of the old stream is dropped for the new stream's: it is of the
state at 1, which has handed out nothing. -/
theorem held_sample_dropped_for_returned_writer :
    let s := (run streamStep (Streams.new returningConfig) (heldThenReturned [])).1
    ¬ DropsOnlyOwn s.ledgers (s.reader.receive .releaseHeld).1
        (tagged (s.reader.receive .releaseHeld).2) ∧
      s.ledgers.handed = [{1}, ∅] ∧
      (s.reader.receive .releaseHeld).2.map (fun o => o.map fun x => x.payload) = [[], [[0xAA]]] ∧
      (s.reader.step .releaseHeld).2.delivered = [] := by
  decide +kernel

end Returning
end ReliableReader
end ZeroDds.Rtps
