/-
Writes the history refuses.
-/
import ZeroDds.Rtps.WriterRun

namespace ZeroDds.Rtps

/-- The errors of a change that never came to be: the history refused it, or its
status bits name no lifecycle event. -/
def refusals : List String :=
  ["history cache full or duplicate", "history cache full or duplicate (lifecycle)",
    "history cache full or duplicate (coherent set end)",
    "lifecycle send requires DISPOSED or UNREGISTERED bit"]

def WireError.IsRefusal : WireError → Prop
  | .valueOutOfRange message => message ∈ refusals
  | _ => False

def NeverRefuses {α : Type} (r : Except WireError α) : Prop := ∀ e, r = .error e → ¬e.IsRefusal

section NeverRefuses

variable {α β : Type}

theorem neverRefuses_ok (a : α) : NeverRefuses (.ok a) := fun _ h => nomatch h

theorem neverRefuses_error {message : String} (h : message ∉ refusals) :
    NeverRefuses (.error (.valueOutOfRange message) : Except WireError α) := by
  intro e he
  cases he
  exact h

theorem NeverRefuses.map {r : Except WireError α} (h : NeverRefuses r) (f : α → β) :
    NeverRefuses (r.map f) := by
  cases r with
  | ok a => exact neverRefuses_ok _
  | error e => exact fun e' he => h e' (by cases he; rfl)

theorem NeverRefuses.cast {e : WireError} (h : NeverRefuses (.error e : Except WireError α)) :
    NeverRefuses (.error e : Except WireError β) :=
  fun e' he => h e' (by cases he; rfl)

theorem neverRefuses_andThen {σ : Type} {r : Outcome σ WireError α}
    {f : σ → α → Outcome σ WireError β} (hr : NeverRefuses r.2)
    (hf : ∀ s a, NeverRefuses (f s a).2) : NeverRefuses (r.andThen f).2 := by
  obtain ⟨s, e | a⟩ := r
  · exact hr.cast
  · exact hf s a

end NeverRefuses

namespace SendView

variable (v : SendView)

theorem neverRefuses_buildAlone (s : Submessage) (stamped : Option Int) (peer : Guid)
    (targets : List Locator) {message : String} (h : message ∉ refusals) :
    NeverRefuses (v.buildAlone s stamped peer targets message) := by
  unfold buildAlone
  simp only
  split
  · exact neverRefuses_error h
  · split
    · exact neverRefuses_ok _
    · exact neverRefuses_error (by decide)

variable (sn : Int) (payload : Octets) (log : SendLog) (p : ReaderProxy)

theorem neverRefuses_fragmentDatagrams (fragSize perMessage : Nat) (peer : Guid)
    (targets : List Locator) (fuel fragNum pos : Nat) :
    NeverRefuses
      (v.fragmentDatagrams sn payload fragSize perMessage peer targets fuel fragNum pos) := by
  induction fuel generalizing fragNum pos with
  | zero => exact neverRefuses_ok _
  | succ fuel ih =>
    unfold fragmentDatagrams
    split
    · simp only
      split
      · exact neverRefuses_error (by decide)
      · have hbuilt : NeverRefuses (v.buildDataFragSubmessageDatagram sn
            ⟨fragNum, divCeil (min (pos + perMessage * fragSize) payload.length - pos) fragSize,
              fragSize, payload.length,
              sliceOf payload pos (min (pos + perMessage * fragSize) payload.length)⟩
            peer targets) :=
          v.neverRefuses_buildAlone _ _ _ _ (by decide)
        split
        · next e he => exact (he ▸ hbuilt).cast
        · split
          · exact neverRefuses_error (by decide)
          · exact (ih _ _).map _
    · exact neverRefuses_ok _

theorem neverRefuses_buildSampleDatagrams (peer : Guid) (targets : List Locator) :
    NeverRefuses (v.buildSampleDatagrams sn payload peer targets) := by
  unfold buildSampleDatagrams
  split
  · exact (v.neverRefuses_buildAlone _ _ _ _ (by decide)).map _
  · split
    · exact (v.neverRefuses_buildAlone _ _ _ _ (by decide)).map _
    · simp only
      split
      · exact neverRefuses_error (by decide)
      · split
        · exact neverRefuses_error (by decide)
        · exact v.neverRefuses_fragmentDatagrams _ _ _ _ _ _ _ _ _

theorem neverRefuses_buildChangeDatagrams (key : KeyHash) (sn : Int) (peer : Guid)
    (targets : List Locator) : NeverRefuses (v.buildChangeDatagrams key sn peer targets) := by
  unfold buildChangeDatagrams
  split
  · exact (v.neverRefuses_buildAlone _ _ _ _ (by decide)).map _
  · split
    · exact v.neverRefuses_buildSampleDatagrams _ _ _ _
    · exact (v.neverRefuses_buildAlone _ _ _ _ (by decide)).map _

theorem neverRefuses_appendSubmessage (a : Assembly) (s : Submessage) (peer : Guid)
    (targets : List Locator) {kindHint : String}
    (h : kindHint ++ " body exceeds u16::MAX" ∉ refusals) :
    NeverRefuses (v.appendSubmessage a s peer targets kindHint) := by
  unfold appendSubmessage
  split
  · exact neverRefuses_ok _
  · exact neverRefuses_error h
  · simp only
    split
    · exact neverRefuses_ok _
    · exact neverRefuses_error (by decide)

theorem neverRefuses_appendData (a : Assembly) (sn : Int) (payload : Octets) (peer : Guid)
    (targets : List Locator) : NeverRefuses (v.appendData a sn payload peer targets) := by
  unfold appendData
  split
  · exact v.neverRefuses_appendSubmessage _ _ _ _ (by decide)
  · exact v.neverRefuses_appendSubmessage _ _ _ _ (by decide)

theorem neverRefuses_pushTo : NeverRefuses (v.pushTo sn payload log p).2 := by
  unfold pushTo
  split
  · exact neverRefuses_ok _
  · simp only
    split
    · exact neverRefuses_ok _
    · have hbuilt := v.neverRefuses_buildSampleDatagrams sn payload
        (p.nextUnsentChange sn).1.remoteReaderGuid (p.nextUnsentChange sn).1.targets
      split
      · next e he => exact (he ▸ hbuilt).cast
      · exact neverRefuses_ok _

theorem neverRefuses_heartbeatAlone (first : Int) (finalFlag livelinessFlag : Bool)
    (out : List AddressedDatagram) :
    NeverRefuses (v.heartbeatAlone log p first finalFlag livelinessFlag out).2 :=
  neverRefuses_andThen (v.neverRefuses_appendSubmessage _ _ _ _ (by decide))
    fun _ _ => neverRefuses_ok _

theorem neverRefuses_dataWithHeartbeat (first : Int) (log : SendLog) (p : ReaderProxy) :
    NeverRefuses (v.dataWithHeartbeat sn payload first log p).2 := by
  have hdata := v.neverRefuses_appendData (v.openAssembly p []) sn payload p.remoteReaderGuid
    p.targets
  unfold dataWithHeartbeat
  split
  · next e he => exact (he ▸ hdata).cast
  · split
    · split
      · exact neverRefuses_andThen (v.neverRefuses_appendSubmessage _ _ _ _ (by decide))
          fun _ _ => neverRefuses_ok _
      · exact v.neverRefuses_heartbeatAlone _ _ _ _ _ _
    · exact neverRefuses_ok _

theorem neverRefuses_sendWithHeartbeat (sends : Bool) (first : Int) (log : SendLog)
    (p : ReaderProxy) : NeverRefuses (v.sendWithHeartbeat sn payload sends first log p).2 := by
  unfold sendWithHeartbeat
  split
  · exact v.neverRefuses_dataWithHeartbeat _ _ _ _ _
  · simp only
    split
    · next e he =>
      split at he
      · exact (he ▸ v.neverRefuses_buildSampleDatagrams _ _ _ _).cast
      · cases he
    · split
      · exact v.neverRefuses_heartbeatAlone _ _ _ _ _ _
      · exact neverRefuses_ok _

theorem neverRefuses_drainTo (key : KeyHash) (sn : Int) (fuel : Nat) (p : ReaderProxy) :
    NeverRefuses (v.drainTo key sn fuel p).2 := by
  induction fuel generalizing p with
  | zero => exact neverRefuses_ok _
  | succ fuel ih =>
    unfold drainTo
    split
    · exact neverRefuses_ok _
    · next p' next _ =>
      have hbuilt := v.neverRefuses_buildChangeDatagrams key next p'.remoteReaderGuid p'.targets
      split
      · next e he => exact (he ▸ hbuilt).cast
      · split
        · exact neverRefuses_ok _
        · have hrest := ih p'
          rcases hdrain : v.drainTo key sn fuel p' with ⟨p'', e | rest⟩ <;> rw [hdrain] at hrest
          · exact hrest.cast
          · exact neverRefuses_ok _

end SendView

namespace ReliableWriter

theorem neverRefuses_forProxies {turn : SendView → SendLog → ReaderProxy → TurnOutcome}
    (hturn : ∀ v log p, NeverRefuses (turn v log p).2) (w : ReliableWriter) :
    NeverRefuses (w.forProxies turn).2 := by
  have htraverse : ∀ ps log, NeverRefuses (Outcome.traverse (turn w.view) log ps).2 := by
    intro ps
    induction ps with
    | nil => exact fun log => neverRefuses_ok _
    | cons p ps ih =>
      intro log
      have hfirst := hturn w.view log p
      simp only [Outcome.traverse]
      rcases hfi : turn w.view log p with ⟨⟨log', p'⟩, e | out⟩ <;> rw [hfi] at hfirst
      · exact hfirst.cast
      · have hrest := ih log'
        rcases htr : Outcome.traverse (turn w.view) log' ps with ⟨⟨log'', ps'⟩, e | rest⟩ <;>
          rw [htr] at hrest <;> simp [htr]
        · exact hrest.cast
        · exact neverRefuses_ok _
  exact htraverse _ _

theorem neverRefuses_drain (key : KeyHash) (sn : Int) (w : ReliableWriter) :
    NeverRefuses (w.forProxies (·.drainTurn key sn)).2 :=
  neverRefuses_forProxies (fun v _ p => v.neverRefuses_drainTo key sn _ p) w

/-! ### What staging had changed -/

/-- Nothing of what a change leaves behind in a writer is different: the numbers,
the coherent set, the group's numbers, the history and the proxies. -/
structure Unchanged (w w' : ReliableWriter) : Prop where
  nextSn : w'.nextSn = w.nextSn
  coherentSetSn : w'.coherentSetSn = w.coherentSetSn
  coherentSetArmed : w'.coherentSetArmed = w.coherentSetArmed
  groupLastGsn : w'.group.map WriterGroup.lastGsn = w.group.map WriterGroup.lastGsn
  gsnOf : w'.gsnOf = w.gsnOf
  lastGsn : w'.lastGsn = w.lastGsn
  history : w'.cache.changes = w.cache.changes
  readerProxies : w'.readerProxies = w.readerProxies

variable {w : ReliableWriter}

theorem not_unchanged_of_nextSn {w' : ReliableWriter} (h : w'.nextSn = w.nextSn + 1) :
    ¬Unchanged w w' := by
  intro hsame
  have := hsame.nextSn
  omega

theorem staged_of_none (h : w.group = none) (sn : Int) :
    (w.staged sn).1 = { w with nextSn := sn }.claimCoherentSet sn := by
  have hgroup : ({ w with nextSn := sn }.claimCoherentSet sn).group = none := by
    unfold claimCoherentSet
    split <;> exact h
  simp [staged, stampGroupChange, hgroup, noteGsn]

theorem staged_group_of_some {g : WriterGroup} (h : w.group = some g) (sn : Int) :
    (w.staged sn).1.group = some g.stampChange.1 := by
  have hgroup : ({ w with nextSn := sn }.claimCoherentSet sn).group = some g := by
    unfold claimCoherentSet
    split <;> exact h
  simp [staged, stampGroupChange, hgroup, noteGsn]

theorem stageSample_refused {w' : ReliableWriter} {x : SampleWrite} {e : WireError}
    (h : w.stageSample x = (w', .error e)) (he : e.IsRefusal) :
    ∃ cache, cache.changes = w.cache.changes ∧
      w' = { ({ w with nextDestinationReaders := none }.staged (w.nextSn + 1)).1 with
        cache := cache
        nextSn := w.nextSn } := by
  unfold stageSample at h
  rcases nextChangeSn_cases { w with nextDestinationReaders := none } with hsn | hsn <;>
    rw [hsn] at h
  · simp only [Outcome.andThen_ok] at h
    split at h
    · next cache e' hinsert =>
      obtain rfl := (Prod.mk.inj h).1
      exact ⟨cache, by
        rw [HistoryCache.changes_insert_of_error hinsert]
        exact congrArg HistoryCache.changes
          (staged_cache { w with nextDestinationReaders := none } _),
        by simp [staged]⟩
    · split at h <;> simp at h
  · obtain ⟨-, rfl⟩ := h
    exact absurd he (by simp [WireError.IsRefusal, refusals])

theorem staged_unchanged_iff (w : ReliableWriter) (sn : Int) (cache : HistoryCache)
    (hcache : cache.changes = w.cache.changes) :
    Unchanged w { (w.staged sn).1 with cache := cache, nextSn := w.nextSn } ↔
      w.group = none ∧ ¬(w.coherentSetArmed = true ∧ w.coherentSetSn = none) := by
  cases hgroup : w.group with
  | some g =>
    refine ⟨fun h => ?_, fun h => nomatch h.1⟩
    have hlast : (w.staged sn).1.group.map WriterGroup.lastGsn = w.group.map WriterGroup.lastGsn :=
      h.groupLastGsn
    simp [staged_group_of_some hgroup, hgroup, WriterGroup.stampChange] at hlast
  | none =>
    rw [staged_of_none hgroup]
    unfold claimCoherentSet
    split
    · next hclaims =>
      have hnone : w.coherentSetSn = none := by simpa using hclaims.2
      refine ⟨fun h => ?_, fun h => absurd ⟨hclaims.1, hnone⟩ h.2⟩
      have := h.coherentSetSn
      simp [hnone] at this
    · next hkeeps =>
      refine ⟨fun _ => ⟨rfl, fun h => hkeeps ⟨h.1, by simp [h.2]⟩⟩, fun _ => ?_⟩
      exact ⟨rfl, rfl, rfl, rfl, rfl, rfl, hcache, rfl⟩

end ReliableWriter

namespace WriterOp

def isWrite : WriterOp → Bool
  | .write _ | .writeWithHeartbeat _ _ _ _ | .writeLifecycle _ | .endCoherentSet
  | .endGroupCoherentSet _ => true
  | _ => false

/-- When a refused call gives back all it took: it wrote a sample, in no group, and
no coherent set was waiting for its first change. -/
def RolledBack (w : ReliableWriter) : WriterOp → Prop
  | .write _ | .writeWithHeartbeat _ _ _ _ =>
    w.group = none ∧ ¬(w.coherentSetArmed = true ∧ w.coherentSetSn = none)
  | _ => False

end WriterOp

namespace ReliableWriter

variable {e : WireError} {w : ReliableWriter}

theorem andThen_refused {σ α β : Type} {r : Outcome σ WireError α}
    {f : σ → α → Outcome σ WireError β} (hf : ∀ s a, NeverRefuses (f s a).2)
    (h : (r.andThen f).2 = .error e) (he : e.IsRefusal) : r = ((r.andThen f).1, .error e) := by
  obtain ⟨s, e' | a⟩ := r
  · simpa using h
  · exact absurd he (hf s a e h)

theorem unchanged_of_refused_sample {x : SampleWrite}
    {f : ReliableWriter → Int → WriterOutcome (List AddressedDatagram)}
    (hf : ∀ w sn, NeverRefuses (f w sn).2) (h : ((w.stageSample x).andThen f).2 = .error e)
    (he : e.IsRefusal) :
    Unchanged w ((w.stageSample x).andThen f).1 ↔
      w.group = none ∧ ¬(w.coherentSetArmed = true ∧ w.coherentSetSn = none) := by
  obtain ⟨cache, hcache, hw'⟩ := stageSample_refused (andThen_refused hf h he) he
  rw [hw', ← staged_unchanged_iff { w with nextDestinationReaders := none } (w.nextSn + 1) cache
    hcache]
  exact ⟨fun h => ⟨h.1, h.2, h.3, h.4, h.5, h.6, h.7, h.8⟩,
    fun h => ⟨h.1, h.2, h.3, h.4, h.5, h.6, h.7, h.8⟩⟩

theorem stageLifecycle_refused {w' : ReliableWriter} {x : LifecycleWrite}
    (h : w.stageLifecycle x = (w', .error e)) (he : e.IsRefusal) : w'.nextSn = w.nextSn + 1 := by
  unfold stageLifecycle at h
  rcases nextChangeSn_cases w with hsn | hsn <;> rw [hsn] at h
  · simp only [Outcome.andThen_ok] at h
    split at h
    · obtain rfl := (Prod.mk.inj h).1
      rfl
    · split at h
      · obtain rfl := (Prod.mk.inj h).1
        exact staged_nextSn w (w.nextSn + 1)
      · simp at h
  · obtain ⟨-, rfl⟩ := h
    exact absurd he (by simp [WireError.IsRefusal, refusals])

theorem emitCoherentSetEnd_refused {change : CacheChange}
    (h : (w.emitCoherentSetEnd change).2 = .error e) (he : e.IsRefusal) :
    (w.emitCoherentSetEnd change).1.nextSn = w.nextSn := by
  unfold emitCoherentSetEnd at h ⊢
  split
  · rfl
  · next cache _ hinsert =>
    rw [hinsert] at h
    exact absurd he (neverRefuses_drain _ _ _ e h)

theorem setEnd_refused {closed : ReliableWriter} {f : ReliableWriter → ReliableWriter}
    {change : Int → CacheChange} (hclosed : closed.nextSn = w.nextSn)
    (hf : ∀ w, (f w).nextSn = w.nextSn)
    (h : (closed.nextChangeSn.andThen fun w sn => (f w).emitCoherentSetEnd (change sn)).2 =
      .error e) (he : e.IsRefusal) :
    (closed.nextChangeSn.andThen fun w sn => (f w).emitCoherentSetEnd (change sn)).1.nextSn =
      w.nextSn + 1 := by
  rcases nextChangeSn_cases closed with hsn | hsn <;> rw [hsn] at h ⊢
  · rw [Outcome.andThen_ok] at h ⊢
    rw [emitCoherentSetEnd_refused h he, hf]
    simp [hclosed]
  · simp only [Outcome.andThen_error, Except.error.injEq] at h
    subst h
    exact absurd he (by simp [WireError.IsRefusal, refusals])

/-- A call whose change the history refuses, or whose status bits name no event,
leaves the writer as it was exactly when it wrote a sample outside a group with no
coherent set waiting for its first change. -/
theorem refused_write_unchanged_iff (w : ReliableWriter) (op : WriterOp) {e : WireError}
    (hop : op.isWrite = true) (h : (w.step op).2 = .error e) (he : e.IsRefusal) :
    Unchanged w (w.step op).1 ↔ op.RolledBack w := by
  cases op with
  | write x =>
    refine unchanged_of_refused_sample (fun w sn => ?_) h he
    split
    · exact neverRefuses_forProxies (fun v => v.neverRefuses_pushTo sn x.payload) w
    · exact neverRefuses_ok _
  | writeWithHeartbeat payload now ts destination =>
    refine unchanged_of_refused_sample (fun w sn => ?_) h he
    refine neverRefuses_andThen (neverRefuses_forProxies (fun v log p => ?_) w) fun _ _ =>
      neverRefuses_ok _
    exact v.neverRefuses_sendWithHeartbeat _ _ _ _ _ _
  | writeLifecycle x =>
    have hstage := andThen_refused (fun w sn => neverRefuses_drain x.keyHash sn w) h he
    exact iff_of_false (not_unchanged_of_nextSn (stageLifecycle_refused hstage he)) id
  | endCoherentSet =>
    refine iff_of_false (not_unchanged_of_nextSn ?_) id
    simp only [step, endCoherentSet] at h ⊢
    split at h
    · cases h
    · next hset =>
      rw [if_neg hset]
      exact setEnd_refused rfl (f := id) (fun _ => rfl) h he
  | endGroupCoherentSet g =>
    exact iff_of_false (not_unchanged_of_nextSn (setEnd_refused (w := w) rfl
      (f := fun w => { w with lastGsn := some g.ecsGsn }) (fun _ => rfl) h he)) id
  | _ => simp [WriterOp.isWrite] at hop

section

open WriterFixture

def fullWriter : ReliableWriter :=
  (run step (makeWriter 2 1472 [readerProxy 0xC0])
    [.write (sample [1] none), .write (sample [2] none)]).1

def disposeOp : WriterOp := .writeLifecycle ⟨zeroKeyHash, [], InlineQos.disposed, none, none⟩

theorem full_history_refuses_sample :
    (fullWriter.step (.write (sample [3] none))).2 =
      .error (.valueOutOfRange "history cache full or duplicate") := by
  decide +kernel

theorem refused_sample_unchanged :
    Unchanged fullWriter (fullWriter.step (.write (sample [3] none))).1 :=
  (refused_write_unchanged_iff fullWriter _ rfl full_history_refuses_sample
    (by simp [WireError.IsRefusal, refusals])).mpr ⟨rfl, by decide +kernel⟩

/-- A dispose the full history refuses uses up its number: the HEARTBEATs that
follow announce a change the writer never had. -/
theorem refused_dispose_takes_number :
    (fullWriter.step disposeOp).2 =
        .error (.valueOutOfRange "history cache full or duplicate (lifecycle)") ∧
      fullWriter.lastWrittenSn = 2 ∧ (fullWriter.step disposeOp).1.lastWrittenSn = 3 ∧
      ¬Unchanged fullWriter (fullWriter.step disposeOp).1 := by
  refine ⟨by decide +kernel, by decide +kernel, by decide +kernel, fun h => ?_⟩
  have hsame := h.nextSn
  have hsn : (fullWriter.step disposeOp).1.nextSn ≠ fullWriter.nextSn := by decide +kernel
  exact hsn hsame

end

end ReliableWriter
end ZeroDds.Rtps
