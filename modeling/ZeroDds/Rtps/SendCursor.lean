/-
What the send cursor has passed.
-/
import ZeroDds.Lib.Aligned
import ZeroDds.Rtps.Contents
import ZeroDds.Rtps.WriterRun

namespace ZeroDds.Rtps

open Outcome

/-! ### One proxy's turn -/

namespace SendView

variable {v : SendView}

/-- A turn sends to its own reader alone, and the cursor moves over changes that the
turn sends. -/
structure Accounts (v : SendView) (p q : ReaderProxy) (out : List AddressedDatagram) : Prop where
  peer : ∀ d ∈ out, d.peer = p.remoteReaderGuid
  acked : q.highestAckedSn = p.highestAckedSn
  passed : ∀ n, p.highestSentSn < n → n ≤ q.highestSentSn → Brings v.cache (contents out) n

variable {p q : ReaderProxy}

theorem accounts_nothing (hacked : q.highestAckedSn = p.highestAckedSn)
    (hsent : q.highestSentSn = p.highestSentSn) : v.Accounts p q [] :=
  ⟨by simp, hacked, fun n h h' => absurd h (by omega)⟩

def Holds (v : SendView) (sn : Int) (payload : Octets) : Prop :=
  (v.cache.get sn).map (·.payload) = some payload

variable {sn first : Int} {payload : Octets} {log log' : SendLog} {out : List AddressedDatagram}

theorem pushTo_accounts (hheld : v.Holds sn payload)
    (h : v.pushTo sn payload log p = ((log', q), .ok out)) : v.Accounts p q out := by
  unfold pushTo at h
  split at h
  · cases h
    exact accounts_nothing rfl rfl
  · next hstep =>
    have hlt : p.highestSentSn < sn := by omega
    have hsn : p.highestSentSn + 1 = sn := not_not.mp hstep
    simp only [nextUnsentChange_of_lt hlt, hsn, ne_eq, not_true_eq_false, if_false] at h
    split at h
    · cases h
    · next ds hds =>
      cases h
      refine ⟨buildSampleDatagrams_peer hds, rfl, fun n hlo hhi => ?_⟩
      obtain rfl : n = sn := by simp only at hhi; omega
      rw [buildSampleDatagrams_contents hds]
      exact sampleContents_brings hheld (length_le_of_build hds)

variable {key : KeyHash} {ds : List AddressedDatagram}

theorem buildChangeDatagrams_brings {peer : Guid} {targets : List Locator}
    (h : v.buildChangeDatagrams key sn peer targets = .ok ds) :
    (∀ d ∈ ds, d.peer = peer) ∧ Brings v.cache (contents ds) sn := by
  unfold buildChangeDatagrams at h
  split at h
  · obtain ⟨d, hd, rfl⟩ := map_singleton_eq_ok h
    rw [buildAlone_contents rfl hd]
    exact ⟨by simpa using (buildAlone_ok rfl hd).1, brings_gap v.cache sn⟩
  · next change hget =>
    split at h
    · rw [buildSampleDatagrams_contents h]
      exact ⟨buildSampleDatagrams_peer h,
        sampleContents_brings (by simp [hget]) (length_le_of_build h)⟩
    · obtain ⟨d, hd, rfl⟩ := map_singleton_eq_ok h
      rw [buildAlone_contents rfl hd]
      exact ⟨by simpa using (buildAlone_ok rfl hd).1, .inl ⟨_, List.mem_singleton_self _, rfl⟩⟩

theorem drainTo_accounts {fuel : Nat} (h : v.drainTo key sn fuel p = (q, .ok out)) :
    v.Accounts p q out := by
  induction fuel generalizing p q out with
  | zero =>
    cases h
    exact accounts_nothing rfl rfl
  | succ fuel ih =>
    by_cases hlt : p.highestSentSn < sn
    · simp only [drainTo, nextUnsentChange_of_lt hlt] at h
      split at h
      · cases h
      · next ds hds =>
        obtain ⟨hpeer, hbrings⟩ := buildChangeDatagrams_brings hds
        split at h
        · cases h
          refine ⟨hpeer, rfl, fun n hlo hhi => ?_⟩
          obtain rfl : n = p.highestSentSn + 1 := by simp only at hhi; omega
          exact hbrings
        · split at h
          · cases h
          · next rest hrest =>
            cases h
            have hdone := ih hrest
            refine ⟨List.forall_mem_append.mpr ⟨hpeer, hdone.peer⟩, hdone.acked,
              fun n hlo hhi => ?_⟩
            rw [contents_append]
            rcases eq_or_lt_of_le (show p.highestSentSn + 1 ≤ n by omega) with rfl | hgt
            · exact hbrings.mono (List.subset_append_left _ _)
            · exact (hdone.passed n hgt hhi).mono (List.subset_append_right _ _)
    · simp only [drainTo, ReaderProxy.nextUnsentChange, hlt, if_false] at h
      cases h
      exact accounts_nothing rfl rfl

theorem tickTurn_accounts {plan : TickPlan} {s : SendLog × Bool}
    (h : (v.tickTurn plan s p).2 = .ok out) : v.Accounts p (v.tickTurn plan s p).1.2 out := by
  obtain ⟨hok, hsent⟩ := tickTurn_spec (v := v) plan s.1 s.2 p rfl
  obtain ⟨-, hleaves, frags, -, a, hall, hend⟩ := hsent out h
  have hfits := hok.mp ⟨out, h⟩
  refine ⟨tickTurn_peer h, hleaves.acked, fun n hlo hhi => ?_⟩
  have hplan := hleaves.passed n hlo hhi
  refine (changeContents_brings (hfits.changes n hplan)).mono fun x hx => ?_
  have hin : x ∈ a.contents := by
    rw [appendAll_contents hall]
    exact List.mem_append_right _ (List.mem_flatMap.mpr ⟨n, hplan, hx⟩)
  split at hend
  · obtain ⟨a', hbeat, rfl⟩ := hend
    rw [Assembly.contents_finish, appendSubmessage_contents rfl hbeat]
    exact List.mem_append_left _ hin
  · subst hend
    rwa [Assembly.contents_finish]

theorem heartbeatAlone_contents {finalFlag livelinessFlag : Bool}
    (hds : ∀ d ∈ ds, d.peer = p.remoteReaderGuid)
    (h : v.heartbeatAlone log p first finalFlag livelinessFlag ds = (log', .ok out)) :
    (∀ d ∈ out, d.peer = p.remoteReaderGuid) ∧ contents ds ⊆ contents out := by
  obtain ⟨log₁, a, hadd, hfin⟩ := andThen_eq_ok.mp h
  simp only [Prod.mk.injEq, Except.ok.injEq] at hfin
  simp only [addHeartbeat, Prod.mk.injEq] at hadd
  rw [← hfin.2, Assembly.contents_finish, appendSubmessage_contents rfl hadd.2,
    contents_openAssembly]
  exact ⟨finish_peer (appendSubmessage_peer hds hadd.2), List.subset_append_left _ _⟩

section

variable (hfrag : v.needsFragmentation sn p.remoteReaderGuid payload = false)
include hfrag

theorem appendData_contents {a : Assembly}
    (h : v.appendData (v.openAssembly p []) sn payload p.remoteReaderGuid p.targets = .ok a) :
    (∀ d ∈ a.out, d.peer = p.remoteReaderGuid) ∧
      a.contents = v.sampleContents sn payload p.remoteReaderGuid := by
  have hnone : ∀ d ∈ (v.openAssembly p []).out, d.peer = p.remoteReaderGuid := by
    simp [openAssembly]
  unfold sampleContents
  unfold appendData at h
  split at h
  · next hrel =>
    rw [appendSubmessage_contents rfl h]
    refine ⟨appendSubmessage_peer
      (a := { v.openAssembly p [] with
        builder := v.appendInfoTs (v.openAssembly p []).builder sn }) hnone h, ?_⟩
    simp [Assembly.contents, contents_appendInfoTs, openAssembly, contents_open, hrel, hfrag]
  · next hrel =>
    rw [appendSubmessage_contents rfl h, contents_openAssembly]
    exact ⟨appendSubmessage_peer hnone h, by simp [hrel]⟩

theorem dataWithHeartbeat_contents
    (h : v.dataWithHeartbeat sn payload first log p = (log', .ok out)) :
    (∀ d ∈ out, d.peer = p.remoteReaderGuid) ∧
      v.sampleContents sn payload p.remoteReaderGuid ⊆ contents out := by
  unfold dataWithHeartbeat at h
  split at h
  · cases h
  · next a ha =>
    obtain ⟨hpeer, hcontents⟩ := appendData_contents hfrag ha
    rw [← hcontents]
    split at h
    · split at h
      · obtain ⟨log₁, a', hadd, hfin⟩ := andThen_eq_ok.mp h
        simp only [Prod.mk.injEq, Except.ok.injEq] at hfin
        simp only [addHeartbeat, Prod.mk.injEq] at hadd
        rw [← hfin.2, Assembly.contents_finish, appendSubmessage_contents rfl hadd.2]
        exact ⟨finish_peer (appendSubmessage_peer hpeer hadd.2), List.subset_append_left _ _⟩
      · have := heartbeatAlone_contents (finish_peer hpeer) h
        rwa [Assembly.contents_finish] at this
    · cases h
      rw [Assembly.contents_finish]
      exact ⟨finish_peer hpeer, fun _ hx => hx⟩

end

theorem sendWithHeartbeat_brings (hheld : v.Holds sn payload) {sends : Bool}
    (h : v.sendWithHeartbeat sn payload sends first log p = (log', .ok out)) :
    (∀ d ∈ out, d.peer = p.remoteReaderGuid) ∧
      (sends = true → Brings v.cache (contents out) sn) := by
  unfold sendWithHeartbeat at h
  split at h
  · next hdata =>
    obtain ⟨hpeer, hsub⟩ := dataWithHeartbeat_contents hdata.2 h
    refine ⟨hpeer, fun _ => (sampleContents_brings hheld fun _ hfrag => ?_).mono hsub⟩
    simp [hdata.2] at hfrag
  · simp only at h
    split at h
    · cases h
    · next ds hds =>
      have hbuilt : (∀ d ∈ ds, d.peer = p.remoteReaderGuid) ∧
          (sends = true → Brings v.cache (contents ds) sn) := by
        split at hds
        · next hsends =>
          refine ⟨buildSampleDatagrams_peer hds, fun _ => ?_⟩
          rw [buildSampleDatagrams_contents hds]
          exact sampleContents_brings hheld (length_le_of_build hds)
        · next hsends =>
          obtain rfl := Except.ok.inj hds
          exact ⟨by simp, fun hs => absurd hs hsends⟩
      split at h
      · obtain ⟨hpeer, hsub⟩ := heartbeatAlone_contents hbuilt.1 h
        exact ⟨hpeer, fun hs => (hbuilt.2 hs).mono hsub⟩
      · cases h
        exact hbuilt

theorem pushWithHeartbeat_accounts (hheld : v.Holds sn payload) {now : Nat}
    (hstep : v.pushMode = true → sn ≤ p.highestSentSn + 1)
    (h : v.pushWithHeartbeat sn payload now log p = ((log', q), .ok out)) : v.Accounts p q out := by
  have hkeep : ∀ r : ReaderProxy,
      (if r.isReliable then r.heartbeatSent now else r).highestAckedSn = r.highestAckedSn ∧
      (if r.isReliable then r.heartbeatSent now else r).highestSentSn = r.highestSentSn ∧
      (if r.isReliable then r.heartbeatSent now else r).remoteReaderGuid = r.remoteReaderGuid := by
    intro r
    split <;> exact ⟨rfl, rfl, rfl⟩
  by_cases hsends : v.pushMode = true ∧ p.highestSentSn < sn
  · obtain ⟨hpush, hlt⟩ := hsends
    have hsn : p.highestSentSn + 1 = sn := by have := hstep hpush; omega
    simp only [pushWithHeartbeat, hpush, if_true, nextUnsentChange_of_lt hlt, hsn,
      decide_true, Prod.mk.injEq] at h
    obtain ⟨⟨-, rfl⟩, hout⟩ := h
    obtain ⟨hpeer, hbrings⟩ := sendWithHeartbeat_brings hheld (Prod.ext rfl hout)
    obtain ⟨hacked, hcursor, hguid⟩ := hkeep { p with highestSentSn := sn }
    refine ⟨fun d hd => (hpeer d hd).trans hguid, hacked, fun n hlo hhi => ?_⟩
    rw [hcursor] at hhi
    obtain rfl : n = sn := by simp only at hhi; omega
    exact hbrings rfl
  · have hmoved : (if v.pushMode then p.nextUnsentChange sn else (p, none)) = (p, none) := by
      cases hpush : v.pushMode with
      | false => simp
      | true =>
        have hge : ¬p.highestSentSn < sn := fun h => hsends ⟨hpush, h⟩
        simp [ReaderProxy.nextUnsentChange, hge]
    simp only [pushWithHeartbeat, hmoved, Prod.mk.injEq] at h
    obtain ⟨⟨-, rfl⟩, hout⟩ := h
    obtain ⟨hpeer, -⟩ := sendWithHeartbeat_brings hheld (Prod.ext rfl hout)
    obtain ⟨hacked, hcursor, hguid⟩ := hkeep p
    refine ⟨fun d hd => (hpeer d hd).trans hguid, hacked, fun n hlo hhi => ?_⟩
    omega

end SendView

namespace ReliableWriter

structure Ledgered where
  writer : ReliableWriter
  ledgers : List (Set Int)

def passedBefore (p : ReaderProxy) : Set Int :=
  { n | n ≤ p.highestSentSn ∨ n ≤ p.highestAckedSn }

def brought (cache : HistoryCache) (out : List AddressedDatagram) (p : ReaderProxy) : Set Int :=
  { n | Brings cache (contents (out.filter fun d => d.peer = p.remoteReaderGuid)) n }

def acknackBase? : WriterOp → Option (Guid × Int)
  | .acknack src base _ => some (src, base)
  | .acknackAt _ src base _ => some (src, base)
  | .acknackSetAt _ src set => some (src, set.bitmapBase)
  | _ => none

/-- The ledgers after a call: a proxy that is added starts a fresh one, an ACKNACK
clears what is below its base, and the datagrams a call returns clear what they bring. -/
def noteCall (w w' : ReliableWriter) (ledgers : List (Set Int)) (op : WriterOp)
    (out : List AddressedDatagram) : List (Set Int) :=
  match op with
  | .addReaderProxy p =>
    match w.proxyIndex p.remoteReaderGuid with
    | some idx => ledgers.set idx (passedBefore p)
    | none => ledgers ++ [passedBefore p]
  | .removeReaderProxy guid =>
    match w.proxyIndex guid with
    | some idx => ledgers.eraseIdx idx
    | none => ledgers
  | op =>
    match acknackBase? op with
    | some (src, base) =>
      match w.proxyIndex src with
      | some idx => ledgers.modify idx (· ∪ { n | n < base })
      | none => ledgers
    | none => List.zipWith (fun p ledger => ledger ∪ brought w'.cache out p) w.readerProxies ledgers

def ledgerStep (s : Ledgered) (op : WriterOp) : Ledgered × WriterResult :=
  match s.writer.step op with
  | (w, .ok out) => (⟨w, noteCall s.writer w s.ledgers op out⟩, .ok out)
  | (w, .error e) => (⟨w, s.ledgers⟩, .error e)

def Accounted (s : Ledgered) : Prop :=
  List.Forall₂ (fun p ledger => passedBefore p ⊆ ledger) s.writer.readerProxies s.ledgers

/-- Each ledger has what its proxy has passed. -/
abbrev LedgersCover (ps : List ReaderProxy) (ledgers : List (Set Int)) : Prop :=
  List.Forall₂ (fun p ledger => passedBefore p ⊆ ledger) ps ledgers

abbrev noteBrought (cache : HistoryCache) (out : List AddressedDatagram) (ps : List ReaderProxy)
    (ledgers : List (Set Int)) : List (Set Int) :=
  List.zipWith (fun p ledger => ledger ∪ brought cache out p) ps ledgers

/-- The call succeeds, and a `write_with_heartbeat` finds no proxy behind the last
change written. -/
def FindsInStep (s : Ledgered) (op : WriterOp) : Prop :=
  (∃ out, (s.writer.step op).2 = .ok out) ∧
    match op with
    | .writeWithHeartbeat .. => s.writer.pushMode = true →
      ∀ p ∈ s.writer.readerProxies, s.writer.nextSn ≤ p.highestSentSn
    | _ => True

def ledgeredNew (cfg : ReliableWriterConfig) : Ledgered :=
  ⟨.new cfg, cfg.readerProxies.map passedBefore⟩

/-! ### What each kind of call does to the ledgers -/

variable {p q : ReaderProxy}

theorem passedBefore_eq (hsent : q.highestSentSn = p.highestSentSn)
    (hacked : q.highestAckedSn = p.highestAckedSn) : passedBefore q = passedBefore p := by
  simp [passedBefore, hsent, hacked]

variable {v : SendView} {out : List AddressedDatagram} {ledgers : List (Set Int)}
  {w w' : ReliableWriter}

theorem passedBefore_of_accounts {own : List AddressedDatagram} {ledger : Set Int}
    (h : v.Accounts p q own) (hown : own ⊆ out) (hledger : passedBefore p ⊆ ledger) :
    passedBefore q ⊆ ledger ∪ brought v.cache out p := by
  intro n hn
  by_cases hold : n ∈ passedBefore p
  · exact .inl (hledger hold)
  · right
    simp only [passedBefore, Set.mem_ofPred_eq, h.acked, not_or, not_le] at hn hold
    have hbrings := h.passed n hold.1 (hn.resolve_right (by omega))
    refine hbrings.mono fun x hx => ?_
    simp only [contents, List.mem_filter, List.mem_flatMap] at hx ⊢
    obtain ⟨⟨d, hd, hxd⟩, hcontent⟩ := hx
    exact ⟨⟨d, ⟨hown hd, by simpa using h.peer d hd⟩, hxd⟩, hcontent⟩

variable {ps qs : List ReaderProxy} {turn : SendView → SendLog → ReaderProxy → TurnOutcome}
  {sn : Int}

section

variable (h : LedgersCover ps ledgers)
include h

theorem accounted_of_turns
    (hturns : List.Forall₂ (fun p q => ∃ own, own ⊆ out ∧ v.Accounts p q own) ps qs) :
    LedgersCover qs (noteBrought v.cache out ps ledgers) := by
  induction h generalizing qs with
  | nil =>
    cases hturns
    exact .nil
  | cons hpl hrest ih =>
    cases hturns with
    | cons hturn hturns =>
      obtain ⟨own, hown, hacc⟩ := hturn
      exact .cons (passedBefore_of_accounts hacc hown hpl) (ih hturns)

theorem accounted_of_same {cache : HistoryCache}
    (hsame : List.Forall₂ (fun p q => passedBefore q = passedBefore p) ps qs) :
    LedgersCover qs (noteBrought cache out ps ledgers) := by
  induction h generalizing qs with
  | nil =>
    cases hsame
    exact .nil
  | cons hpl hrest ih =>
    cases hsame with
    | cons heq hsame =>
      refine .cons ?_ (ih hsame)
      rw [heq]
      exact hpl.trans Set.subset_union_left

end

theorem same_refl (ps : List ReaderProxy) :
    List.Forall₂ (fun p q => passedBefore q = passedBefore p) ps ps :=
  List.forall₂_same.mpr fun _ _ => rfl

theorem same_modify (ps : List ReaderProxy) (idx : Nat) {f : ReaderProxy → ReaderProxy}
    (hf : ∀ p, passedBefore (f p) = passedBefore p) :
    List.Forall₂ (fun p q => passedBefore q = passedBefore p) ps (ps.modify idx f) := by
  induction ps generalizing idx with
  | nil => cases idx <;> exact .nil
  | cons p ps ih =>
    cases idx with
    | zero => exact .cons (hf p) (same_refl ps)
    | succ idx => exact .cons rfl (ih idx)

theorem forProxies_accounts (hturn : ∀ p ∈ w.readerProxies, ∀ log log' q out,
      turn w.view log p = ((log', q), .ok out) → w.view.Accounts p q out)
    (h : w.forProxies turn = (w', .ok out)) :
    w'.cache = w.cache ∧ List.Forall₂ (fun p q => ∃ own, own ⊆ out ∧ w.view.Accounts p q own)
      w.readerProxies w'.readerProxies := by
  simp only [forProxies, Prod.mk.injEq] at h
  obtain ⟨rfl, hout⟩ := h
  exact ⟨rfl, traverse_forall₂ (fun p hp log log' q out ht => hturn p hp log log' q out ht)
    (Prod.ext rfl hout)⟩

theorem accounted_of_forProxies {w₁ : ReliableWriter}
    (h : LedgersCover w.readerProxies ledgers)
    (hproxies : w₁.readerProxies = w.readerProxies)
    (hturn : ∀ p ∈ w.readerProxies, ∀ log log' q out,
      turn w₁.view log p = ((log', q), .ok out) → w₁.view.Accounts p q out)
    (hturns : w₁.forProxies turn = (w', .ok out)) :
    LedgersCover w'.readerProxies (noteBrought w'.cache out w.readerProxies ledgers) := by
  rw [← hproxies] at h hturn ⊢
  obtain ⟨hcache, hacc⟩ := forProxies_accounts hturn hturns
  rw [hcache]
  exact accounted_of_turns h hacc

theorem holds_of_stageSample {x : SampleWrite} (h : w.stageSample x = (w', .ok sn)) :
    w'.view.Holds sn x.payload := by
  obtain ⟨-, -, -, coherent, group, readers, evicted, hinsert⟩ := stageSample_ok h
  have hget := HistoryCache.get_of_insert_ok hinsert
  show (w'.cache.get sn).map (·.payload) = some x.payload
  rw [show w'.cache.get sn = some _ from hget]
  rfl

theorem drainTurn_accounts (key : KeyHash) (sn : Int) (log log' : SendLog) (p q : ReaderProxy)
    (out : List AddressedDatagram) (h : v.drainTurn key sn log p = ((log', q), .ok out)) :
    v.Accounts p q out := by
  simp only [SendView.drainTurn, Prod.mk.injEq] at h
  obtain ⟨⟨-, rfl⟩, hout⟩ := h
  exact SendView.drainTo_accounts (Prod.ext rfl hout)

theorem emitCoherentSetEnd_accounted {change : CacheChange}
    (h : LedgersCover w.readerProxies ledgers)
    (hend : w.emitCoherentSetEnd change = (w', .ok out)) :
    LedgersCover w'.readerProxies (noteBrought w'.cache out w.readerProxies ledgers) := by
  unfold emitCoherentSetEnd at hend
  split at hend
  · cases hend
  · refine accounted_of_forProxies h ?_ ?_ hend
    · rfl
    · exact fun p _ log log' q out ht => drainTurn_accounts _ _ log log' p q out ht

@[simp] theorem readerProxies_releaseAcknowledgedWindow (w : ReliableWriter) :
    w.releaseAcknowledgedWindow.readerProxies = w.readerProxies := by
  unfold releaseAcknowledgedWindow
  split <;> rfl

theorem passedBefore_acknack (w : ReliableWriter) (now now' : Nat) (base : Int)
    (requested : List Int) (windowCut : Bool) (w' : ReliableWriter) (p : ReaderProxy) :
    passedBefore (w.requestProxy now base requested windowCut (w'.acknackProxy now' base p)) ⊆
      passedBefore p ∪ { n | n < base } := by
  have hrequest : ∀ q : ReaderProxy,
      passedBefore (w.requestProxy now base requested windowCut q) = passedBefore q := by
    intro q
    refine passedBefore_eq ?_ ?_ <;>
    · simp only [requestProxy, ReaderProxy.noteWindow, ReaderProxy.noteNack,
        ReaderProxy.requestedChangesSet]
      split <;> split <;> rfl
  have hreceived : ∀ has period, passedBefore (p.acknackReceived now' has period) =
      passedBefore p := by
    intro has period
    refine passedBefore_eq ?_ ?_ <;>
    · unfold ReaderProxy.acknackReceived
      split
      · rfl
      · split <;> rfl
      · rfl
  rw [hrequest, acknackProxy]
  intro n hn
  simp only [passedBefore, ReaderProxy.ackedChangesSet, Set.mem_ofPred_eq] at hn
  by_cases hlt : n < base
  · exact .inr hlt
  · left
    rw [← hreceived w'.cache.isEmpty w'.heartbeatPeriod]
    simp only [passedBefore, Set.mem_ofPred_eq]
    omega

theorem handleAcknackWindow_accounted
    (h : LedgersCover w.readerProxies ledgers)
    (now : Nat) (src : Guid) (base : Int) (requested : List Int) (windowCut : Bool) :
    LedgersCover (w.handleAcknackWindow now src base requested windowCut).readerProxies
      (match w.proxyIndex src with
        | some idx => ledgers.modify idx (· ∪ { n | n < base })
        | none => ledgers) := by
  have hidx : ReliableWriter.proxyIndex { w with clock := max w.clock now } src =
      w.proxyIndex src := rfl
  unfold handleAcknackWindow
  simp only [hidx]
  cases w.proxyIndex src with
  | none => exact h
  | some idx =>
    simp only [modifyProxyAt, readerProxies_releaseAcknowledgedWindow, List.modify_modify_eq]
    refine forall₂_modify h idx fun p ledger hpl => ?_
    exact (passedBefore_acknack _ _ _ _ _ _ _ p).trans (Set.union_subset_union_left _ hpl)

theorem readerProxies_of_nextChangeSn (h : w.nextChangeSn = (w', .ok sn)) :
    w'.readerProxies = w.readerProxies := by
  rcases nextChangeSn_cases w with hsn | hsn <;> rw [hsn] at h <;> cases h
  rfl

theorem readerProxies_removeAcknowledged (w : ReliableWriter) :
    w.removeAcknowledged.1.readerProxies = w.readerProxies := by
  unfold removeAcknowledged
  split
  · rfl
  · dsimp only
    repeat' split
    all_goals rfl

theorem readerProxies_removeAcknowledgedLifecycle (w : ReliableWriter) :
    w.removeAcknowledgedLifecycle.1.readerProxies = w.readerProxies := by
  unfold removeAcknowledgedLifecycle
  split
  · rfl
  · simp only
    split <;> rfl

theorem step_accounted {op : WriterOp}
    (h : LedgersCover w.readerProxies ledgers)
    (hstep : match op with
      | .writeWithHeartbeat .. => w.pushMode = true →
        ∀ p ∈ w.readerProxies, w.nextSn ≤ p.highestSentSn
      | _ => True) (hcall : w.step op = (w', .ok out)) :
    LedgersCover w'.readerProxies
      (noteCall w w' ledgers op out) := by
  have hsame : ∀ {w' : ReliableWriter} {out : List AddressedDatagram},
      List.Forall₂ (fun p q => passedBefore q = passedBefore p) w.readerProxies w'.readerProxies →
      LedgersCover w'.readerProxies (noteBrought w'.cache out w.readerProxies ledgers) :=
    fun hp => accounted_of_same h hp
  cases op with
  | write x =>
    obtain ⟨w₁, sn, hstage, hsend⟩ := andThen_eq_ok.mp hcall
    have hproxies := (stageSample_ok hstage).2.2.1.readerProxies
    split at hsend
    · exact accounted_of_forProxies h hproxies
        (fun p _ log log' q out ht =>
          SendView.pushTo_accounts (holds_of_stageSample hstage) ht) hsend
    · cases hsend
      exact hsame (hproxies ▸ same_refl _)
  | writeWithHeartbeat payload now ts destination =>
    obtain ⟨w₁, sn, hstage, hsend⟩ := andThen_eq_ok.mp hcall
    obtain ⟨hsn, -, hset, -⟩ := stageSample_ok hstage
    obtain ⟨w₂, out', hturns, hdone⟩ := andThen_eq_ok.mp hsend
    cases hdone
    have hdone := accounted_of_forProxies h hset.readerProxies
      (fun p hp log log' q out ht => SendView.pushWithHeartbeat_accounts
        (holds_of_stageSample hstage) (fun hpush => by
          have := hstep (hset.pushMode ▸ hpush) p hp
          omega) ht) hturns
    exact hdone
  | writeLifecycle x =>
    obtain ⟨w₁, sn, hstage, hsend⟩ := andThen_eq_ok.mp hcall
    exact accounted_of_forProxies h (stageLifecycle_ok hstage).2.2.1.readerProxies
      (fun p _ log log' q out ht => drainTurn_accounts _ _ log log' p q out ht) hsend
  | endCoherentSet =>
    simp only [step, endCoherentSet] at hcall
    split at hcall
    · cases hcall
      exact hsame (same_refl _)
    · obtain ⟨w₁, sn, hnext, hend⟩ := andThen_eq_ok.mp hcall
      have hproxies := readerProxies_of_nextChangeSn hnext
      have := emitCoherentSetEnd_accounted (hproxies ▸ h) hend
      rwa [hproxies] at this
  | endGroupCoherentSet e =>
    obtain ⟨w₁, sn, hnext, hend⟩ := andThen_eq_ok.mp hcall
    have hproxies := readerProxies_of_nextChangeSn hnext
    have := emitCoherentSetEnd_accounted (w := { w₁ with lastGsn := some e.ecsGsn })
      (hproxies ▸ h) hend
    rwa [show ({ w₁ with lastGsn := some e.ecsGsn } : ReliableWriter).readerProxies =
      w.readerProxies from hproxies] at this
  | tick now =>
    have hout : (w.tickTurns now).2 = .ok out := by
      rw [← (w.tick_result now).1]
      exact congrArg Prod.snd hcall
    have hproxies : w'.readerProxies = (w.tickTurns now).1.2 := by
      rw [← (w.tick_result now).2]
      exact congrArg (fun r => r.1.readerProxies) hcall.symm
    have hcache : w'.cache = (w.tickView now).cache := by
      have hsame : w'.cache = w.cache := by
        rw [← w.tick_cache now]
        exact congrArg (fun r => r.1.cache) hcall.symm
      rw [hsame]
      rfl
    rw [hproxies]
    simp only [noteCall, acknackBase?, hcache]
    refine accounted_of_turns h (traverse_forall₂ (s := ((w.tickStart now).sendLog, false))
      (fun p _ s s' q out ht => ?_) (Prod.ext rfl hout))
    have := SendView.tickTurn_accounts (v := w.tickView now) (show _ = Except.ok out by rw [ht])
    rwa [ht] at this
  | livelinessHeartbeat =>
    refine accounted_of_forProxies h rfl (fun p _ log log' q out ht => ?_) hcall
    simp only [SendView.livelinessTurn, Prod.mk.injEq] at ht
    obtain ⟨⟨-, rfl⟩, hout⟩ := ht
    obtain ⟨hpeer, -⟩ := SendView.heartbeatAlone_contents (by simp) (Prod.ext rfl hout)
    exact ⟨hpeer, rfl, fun n hlo hhi => absurd hlo (by omega)⟩
  | acknack src base requested =>
    cases hcall
    exact handleAcknackWindow_accounted h _ _ _ _ _
  | acknackAt now src base requested =>
    cases hcall
    exact handleAcknackWindow_accounted h _ _ _ _ _
  | acknackSetAt now src set =>
    cases hcall
    exact handleAcknackWindow_accounted h _ _ _ _ _
  | acknackFinalFlag src finalFlag =>
    cases hcall
    refine hsame ?_
    unfold noteAcknackFinalFlag
    split
    · exact same_refl _
    · split
      · exact same_refl _
      · exact same_modify _ _ fun p => rfl
  | nackfrag src nf =>
    cases hcall
    refine hsame ?_
    unfold handleNackfrag
    split
    · exact same_refl _
    · split
      · exact same_refl _
      · refine same_modify _ _ fun p => ?_
        unfold ReaderProxy.requestedFragmentsSet
        split <;> rfl
  | addReaderProxy p =>
    cases hcall
    simp only [noteCall, addReaderProxy]
    cases w.proxyIndex p.remoteReaderGuid with
    | some idx => exact forall₂_set h idx (le_refl _)
    | none => exact List.rel_append h (.cons (le_refl _) .nil)
  | removeReaderProxy guid =>
    cases hcall
    simp only [noteCall, removeReaderProxy]
    cases w.proxyIndex guid with
    | none => exact h
    | some idx =>
      simp only [readerProxies_releaseAcknowledgedWindow]
      exact forall₂_eraseIdx h idx
  | removeAcknowledged =>
    cases hcall
    exact hsame (w.readerProxies_removeAcknowledged ▸ same_refl _)
  | removeAcknowledgedLifecycle =>
    cases hcall
    exact hsame (w.readerProxies_removeAcknowledgedLifecycle ▸ same_refl _)
  | setUnackedWindow octets =>
    cases hcall
    refine hsame ?_
    unfold setUnackedWindow
    split <;> exact same_refl _
  | askForAck =>
    cases hcall
    refine hsame ?_
    unfold askForAck
    split <;> exact same_refl _
  | _ =>
    cases hcall
    exact hsame (same_refl _)

/-- In every run of successful calls in which `write_with_heartbeat` finds the proxies in
step, no cursor is past a change that its reader was not sent, has not acknowledged and
was not set past before. -/
theorem cursor_accounted_over_a_run (cfg : ReliableWriterConfig)
    {h : History WriterOp WriterResult} {s : Ledgered}
    (hr : Reaches ledgerStep FindsInStep (ledgeredNew cfg) h s) : Accounted s := by
  refine hr.invariant (P := fun _ s => Accounted s) ?_ ?_
  · exact List.forall₂_map_right_iff.mpr (List.forall₂_same.mpr fun _ _ => le_refl _)
  · intro h s op hacc hok
    obtain ⟨⟨out, hout⟩, hstep⟩ := hok
    rcases hcall : s.writer.step op with ⟨w', r⟩
    rw [hcall] at hout
    obtain rfl : r = .ok out := hout
    have hnext : (ledgerStep s op).1 = ⟨w', noteCall s.writer w' s.ledgers op out⟩ := by
      simp [ledgerStep, hcall]
    rw [hnext]
    exact step_accounted hacc hstep hcall

/-! ### A proxy that lags -/

section

open WriterFixture

def lateJoiner : Ledgered :=
  let s := (ledgerStep (ledgeredNew (config 10 1472 [])) (.write (sample [1] none))).1
  (ledgerStep s (.addReaderProxy (readerProxy 1))).1

def lateHeartbeat : HeartbeatSubmessage :=
  ⟨(readerGuid 1).entityId, writerGuid.entityId, 1, 2, 1, false, false, none⟩

theorem not_brings_heartbeat (cache : HistoryCache) (b : HeartbeatSubmessage) (n : Int) :
    ¬Brings cache [.heartbeat b] n := by
  rintro (⟨d, hd, -⟩ | ⟨g, hg, -⟩ | ⟨x, -, -, hall⟩)
  · simp at hd
  · simp at hg
  · obtain ⟨df, hdf, -⟩ := hall 1 (le_refl 1) x.total_pos
    simp at hdf

/-- The next `write_with_heartbeat` moves the cursor of the proxy from 0 to 1 and sends
it a HEARTBEAT alone: change 1 is passed and never sent. -/
theorem heartbeat_write_passes_unsent_change :
    ∃ s out, ledgerStep lateJoiner (.writeWithHeartbeat [2] 0 none none) = (s, .ok out) ∧
      s.writer.readerProxies.map (·.highestSentSn) = [1] ∧
      contents out = [.heartbeat lateHeartbeat] ∧ ¬Accounted s := by
  obtain ⟨out, hout, hcontents⟩ := exists_ok_of_map
    (r := (lateJoiner.writer.step (.writeWithHeartbeat [2] 0 none none)).2)
    (f := fun out => (contents out, contents (out.filter fun d => d.peer = readerGuid 1)))
    (b := ([.heartbeat lateHeartbeat], [.heartbeat lateHeartbeat])) (by decide +kernel)
  have hcursor : (lateJoiner.writer.step (.writeWithHeartbeat [2] 0 none none)).1.readerProxies.map
      (·.highestSentSn) = [1] := by decide +kernel
  have hproxies : lateJoiner.writer.readerProxies = [readerProxy 1] := rfl
  have hledgers : lateJoiner.ledgers = [passedBefore (readerProxy 1)] := rfl
  rcases hcall : lateJoiner.writer.step (.writeWithHeartbeat [2] 0 none none) with ⟨w', r⟩
  rw [hcall] at hout hcursor
  obtain rfl : r = .ok out := hout
  simp only [Prod.mk.injEq] at hcontents hcursor
  refine ⟨⟨w', noteCall lateJoiner.writer w' lateJoiner.ledgers
    (.writeWithHeartbeat [2] 0 none none) out⟩, out, ?_, hcursor, hcontents.1, ?_⟩
  · simp [ledgerStep, hcall]
  · intro hacc
    simp only [Accounted, noteCall, acknackBase?, hproxies, hledgers, List.zipWith_cons_cons,
      List.zipWith_nil_left] at hacc
    obtain ⟨q, hq⟩ : ∃ q, w'.readerProxies = [q] := by
      rw [← List.length_eq_one_iff, ← List.length_map (f := fun p => p.highestSentSn), hcursor]
      rfl
    rw [hq] at hacc hcursor
    have hone : q.highestSentSn = 1 := by simpa using hcursor
    cases hacc with
    | cons hsub _ =>
      have hin := hsub (show (1 : Int) ∈ passedBefore q from .inl (by omega))
      rcases hin with hold | hbrought
      · revert hold
        simp [passedBefore, readerProxy, ReaderProxy.new]
      · have hguid : (readerProxy 1).remoteReaderGuid = readerGuid 1 := rfl
        simp only [brought, hguid, hcontents.2] at hbrought
        exact not_brings_heartbeat _ _ _ hbrought

/-- The proxy of the late joiner is in step once `tick` has drained it. -/
theorem cursor_accounted_after_drain :
    ∃ h s, Reaches ledgerStep FindsInStep (ledgeredNew (config 10 1472 [])) h s ∧
      s.writer.readerProxies.map (·.highestSentSn) = [2] ∧ Accounted s := by
  have hok : RunOk ledgerStep FindsInStep (ledgeredNew (config 10 1472 []))
      [.write (sample [1] none), .addReaderProxy (readerProxy 1), .tick 0,
        .writeWithHeartbeat [2] 0 none none] := by
    have hdone : ∀ {r : WriterResult}, r.toOption.isSome = true → ∃ out, r = .ok out := by
      rintro (e | out) h
      · cases h
      · exact ⟨out, rfl⟩
    exact ⟨⟨hdone (by decide +kernel), trivial⟩, ⟨hdone (by decide +kernel), trivial⟩,
      ⟨hdone (by decide +kernel), trivial⟩,
      ⟨hdone (by decide +kernel), fun _ => by decide +kernel⟩, trivial⟩
  exact ⟨_, _, reaches_run hok, by decide +kernel, cursor_accounted_over_a_run _ (reaches_run hok)⟩

end

end ReliableWriter
end ZeroDds.Rtps
