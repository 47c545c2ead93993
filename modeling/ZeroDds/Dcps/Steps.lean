/-
The reader as a machine.

`Event` is what happens to a DataReader from outside: something arrives, a writer goes, the
application reads or takes.
-/
import ZeroDds.Dcps.Access
import ZeroDds.Lib.Run

namespace ZeroDds.Dcps.DataReader

variable {T : Type} (cfg : ReaderConfig T)

inductive ReaderStep (T : Type) where
  | sample (now : Time) (raw : RawIngestSample) (timeFilter : Bool)
  | marker (m : LifecycleMarker)
  | lifespan (now : Time)
  | strength (writer : WriterGuid) (strength : Int)
  | departure (now : Time) (writer : WriterGuid)
  | autopurge (now : Time)
  | takeValues
  | takeSelected (sel : Selection) (max : Option Nat)
  | takeOfInstance (handle : InstanceHandle)
  | query (cond : QueryCondition T) (max : Option Nat) (take : Bool)
      (instance? : Option InstanceHandle)
  | readValues
  | readSelected (sel : Selection) (max : Option Nat)
  | readOfInstance (handle : InstanceHandle)

def perform (r : DataReader T) : ReaderStep T → DataReader T
  | .sample now raw timeFilter => (ingestAliveFiltered cfg r now raw timeFilter).1
  | .marker m => ingestLifecycle cfg r m
  | .lifespan now => r.purgeExpiredByLifespan now
  | .strength writer strength =>
    { r with instances := r.instances.updateOwnerStrength writer strength }
  | .departure now writer => departWriter now r writer
  | .autopurge now => runReaderAutopurge cfg r now
  | .takeValues => (takeValues cfg r).1
  | .takeSelected sel max => (takeSelected cfg r sel max).1
  | .takeOfInstance handle => (takeOfInstance cfg r handle).1
  | .query cond max take instance? => (querySelected cfg r cond max take instance?).1
  | .readValues => (readValues cfg r).1
  | .readSelected sel max => (readSelected cfg r sel max).1
  | .readOfInstance handle => (readOfInstance cfg r handle).1

structure SameStore (r r' : DataReader T) : Prop where
  cache : r'.cache = r.cache
  instances : r'.instances = r.instances
  keylessLast : r'.keylessLast = r.keylessLast

/-- `r'` is reached from `r` by the steps of the trace; in between only queues and the
clock move. -/
inductive StepsTo : DataReader T → List (DataReader T × ReaderStep T) → DataReader T → Prop
  | refl (r : DataReader T) : StepsTo r [] r
  | idle {r r₁ r₂ : DataReader T} {trace : List (DataReader T × ReaderStep T)} :
      StepsTo r trace r₁ → SameStore r₁ r₂ → StepsTo r trace r₂
  | step {r r₁ : DataReader T} {trace : List (DataReader T × ReaderStep T)} :
      StepsTo r trace r₁ → (s : ReaderStep T) →
        StepsTo r (trace ++ [(r₁, s)]) (perform cfg r₁ s)

namespace StepsTo

variable {cfg} {r r₁ r₂ : DataReader T} {trace trace' : List (DataReader T × ReaderStep T)}

theorem trans (h : StepsTo cfg r trace r₁) (h' : StepsTo cfg r₁ trace' r₂) :
    StepsTo cfg r (trace ++ trace') r₂ := by
  induction h' with
  | refl => simpa using h
  | idle _ hsame ih => exact .idle ih hsame
  | step _ s ih =>
    rw [← List.append_assoc]
    exact .step ih s

theorem single (r : DataReader T) (s : ReaderStep T) : StepsTo cfg r [(r, s)] (perform cfg r s) :=
  .step (.refl r) s

theorem cons (s : ReaderStep T) (h : StepsTo cfg (perform cfg r s) trace r₂) :
    StepsTo cfg r ((r, s) :: trace) r₂ :=
  (single r s).trans h

theorem of_same (h : SameStore r r₁) : StepsTo cfg r [] r₁ := .idle (.refl r) h

theorem preserves {P : DataReader T → Prop} (h : StepsTo cfg r trace r₁) (hp : P r)
    (hsame : ∀ r r', SameStore r r' → P r → P r')
    (hstep : ∀ r s, (r, s) ∈ trace → P r → P (perform cfg r s)) : P r₁ := by
  induction h with
  | refl => exact hp
  | idle _ hs ih => exact hsame _ _ hs (ih hstep)
  | step _ s ih =>
    refine hstep _ s (List.mem_append_right _ (List.mem_singleton_self _)) ?_
    exact ih fun r s hmem => hstep r s (List.mem_append_left _ hmem)

end StepsTo

/-! ### A specification state along a trace -/

section Spectator

variable {G : Type} (note : G → ReaderStep T → G)

def noteAll : G → List (DataReader T × ReaderStep T) → G
  | g, [] => g
  | g, (_, s) :: rest => noteAll (note g s) rest

def AllMeet (ok : G → DataReader T → ReaderStep T → Prop) :
    G → List (DataReader T × ReaderStep T) → Prop
  | _, [] => True
  | g, (r, s) :: rest => ok g r s ∧ AllMeet ok (note g s) rest

theorem noteAll_append (g : G) (trace trace' : List (DataReader T × ReaderStep T)) :
    noteAll note g (trace ++ trace') = noteAll note (noteAll note g trace) trace' := by
  induction trace generalizing g with
  | nil => rfl
  | cons p rest ih => exact ih (note g p.2)

theorem allMeet_append (ok : G → DataReader T → ReaderStep T → Prop) (g : G)
    (trace trace' : List (DataReader T × ReaderStep T)) :
    AllMeet note ok g (trace ++ trace') ↔
      AllMeet note ok g trace ∧ AllMeet note ok (noteAll note g trace) trace' := by
  induction trace generalizing g with
  | nil => simp [AllMeet, noteAll]
  | cons p rest ih =>
    simp only [List.cons_append, AllMeet, noteAll, ih, and_assoc]

theorem StepsTo.preserves_noted {cfg : ReaderConfig T} {r r₁ : DataReader T}
    {trace : List (DataReader T × ReaderStep T)} {ok : G → DataReader T → ReaderStep T → Prop}
    {P : G → DataReader T → Prop} {g : G} (h : StepsTo cfg r trace r₁) (hp : P g r)
    (hok : AllMeet note ok g trace) (hsame : ∀ g r r', SameStore r r' → P g r → P g r')
    (hstep : ∀ g r s, ok g r s → P g r → P (note g s) (perform cfg r s)) :
    P (noteAll note g trace) r₁ := by
  induction h with
  | refl => exact hp
  | idle _ hs ih => exact hsame _ _ _ hs (ih hok)
  | step _ s ih =>
    obtain ⟨hbefore, hlast, _⟩ := (allMeet_append note ok g _ _).mp hok
    rw [noteAll_append]
    exact hstep _ _ s hlast (ih hbefore)

end Spectator

/-! ### The steps of an ingest -/

def releaseTrace (now : Time) :
    DataReader T → List RawIngestSample → List (DataReader T × ReaderStep T)
  | _, [] => []
  | r, raw :: rest => (r, .sample now raw false) ::
    match ingestAliveFiltered cfg r now raw false with
    | (_, .failed _) => []
    | (r, _) => releaseTrace now r rest

def runTrace (now : Time) :
    DataReader T → List StagedIngest → List (DataReader T × ReaderStep T)
  | _, [] => []
  | r, .lifecycle m :: rest => (r, .marker m) :: runTrace now (ingestLifecycle cfg r m) rest
  | r, .alive raw :: rest => (r, .sample now raw true) ::
    match ingestAlive cfg r now raw with
    | (_, .failed _) | (_, .refused _) => []
    | (r, _) => runTrace now r rest

def strengthTrace :
    DataReader T → List (WriterGuid × Int) → List (DataReader T × ReaderStep T)
  | _, [] => []
  | r, (writer, strength) :: rest => (r, .strength writer strength) ::
    strengthTrace { r with instances := r.instances.updateOwnerStrength writer strength } rest

def departTrace (now : Time) :
    DataReader T → List WriterGuid → List (DataReader T × ReaderStep T)
  | _, [] => []
  | r, writer :: rest =>
    (r, .departure now writer) :: departTrace now (departWriter now r writer) rest

variable (now : Time) (r : DataReader T)

theorem releaseRun_steps (due : List RawIngestSample) :
    StepsTo cfg r (releaseTrace cfg now r due) (releaseRun cfg now r due).1 := by
  induction due generalizing r with
  | nil => exact .refl r
  | cons raw rest ih =>
    have hone : ∀ r₁, (ingestAliveFiltered cfg r now raw false).1 = r₁ → ∀ trace r₂,
        StepsTo cfg r₁ trace r₂ → StepsTo cfg r ((r, .sample now raw false) :: trace) r₂ := by
      rintro _ rfl trace r₂ h
      exact StepsTo.cons _ h
    rcases hverdict : ingestAliveFiltered cfg r now raw false with ⟨r₁, verdict⟩
    have hfirst := hone r₁ (by rw [hverdict])
    cases verdict <;> simp [releaseTrace, releaseRun, hverdict]
    · exact hfirst _ _ (ih r₁)
    · exact hfirst _ _ (ih r₁)
    · exact hfirst _ _ (ih r₁)
    · exact hfirst _ _ (.refl r₁)

theorem ingestRun_steps (entries : List StagedIngest) :
    StepsTo cfg r (runTrace cfg now r entries) (ingestRun cfg now r entries).1 := by
  induction entries generalizing r with
  | nil => exact .refl r
  | cons entry rest ih =>
    cases entry with
    | lifecycle m => exact StepsTo.cons (.marker m) (ih (ingestLifecycle cfg r m))
    | alive raw =>
      have hone : ∀ r₁, (ingestAlive cfg r now raw).1 = r₁ → ∀ trace r₂,
          StepsTo cfg r₁ trace r₂ → StepsTo cfg r ((r, .sample now raw true) :: trace) r₂ := by
        rintro _ rfl trace r₂ h
        exact StepsTo.cons (.sample now raw true) h
      rcases hverdict : ingestAlive cfg r now raw with ⟨r₁, verdict⟩
      have hfirst := hone r₁ (by rw [hverdict])
      cases verdict <;> simp [runTrace, ingestRun, hverdict]
      · exact hfirst _ _ (ih r₁)
      · exact hfirst _ _ (ih r₁)
      · exact hfirst _ _ (.refl r₁)
      · exact hfirst _ _ (.refl r₁)

theorem strength_steps (changes : List (WriterGuid × Int)) :
    StepsTo cfg r (strengthTrace r changes)
      { r with instances :=
          changes.foldl (fun t c => t.updateOwnerStrength c.1 c.2) r.instances } := by
  induction changes generalizing r with
  | nil => exact .refl r
  | cons c rest ih => exact StepsTo.cons (.strength c.1 c.2) (ih _)

theorem depart_steps (gone : List WriterGuid) :
    StepsTo cfg r (departTrace now r gone) (gone.foldl (departWriter now) r) := by
  induction gone generalizing r with
  | nil => exact .refl r
  | cons writer rest ih => exact StepsTo.cons (.departure now writer) (ih _)

def strengthened (r : DataReader T) : DataReader T :=
  { r with
    instances := r.strengthChanges.foldl (fun t c => t.updateOwnerStrength c.1 c.2) r.instances
    strengthChanges := [] }

def unmatchedTrace (r : DataReader T) : List (DataReader T × ReaderStep T) :=
  strengthTrace r r.strengthChanges ++
    if r.gone.isEmpty then []
    else departTrace (r.strengthened.wallNow cfg).1
      { (r.strengthened.wallNow cfg).2 with gone := [] } r.gone

theorem unmatched_steps : StepsTo cfg r (unmatchedTrace cfg r) (applyUnmatchedWriters cfg r) := by
  have hstrength : StepsTo cfg r (strengthTrace r r.strengthChanges) r.strengthened :=
    .idle (strength_steps cfg r r.strengthChanges) ⟨rfl, rfl, rfl⟩
  unfold unmatchedTrace applyUnmatchedWriters
  cases hgone : r.gone.isEmpty with
  | true =>
    simp only [hgone, if_true, List.append_nil]
    exact hstrength
  | false =>
    simp only [hgone, Bool.false_eq_true, if_false]
    have hclock : StepsTo cfg r (strengthTrace r r.strengthChanges)
        { (r.strengthened.wallNow cfg).2 with gone := [] } := .idle hstrength ⟨rfl, rfl, rfl⟩
    exact hclock.trans (depart_steps cfg _ _ r.gone)

def unstaged (r : DataReader T) : DataReader T :=
  ({ r with heldBack := [], arrived := [] }.wallNow cfg).2

def stagedTrace (r : DataReader T) : List (DataReader T × ReaderStep T) :=
  let now := cfg.clock r.readings
  let start := (unstaged cfg r).purgeExpiredByLifespan now
  (unstaged cfg r, .lifespan now) :: (runTrace cfg now start r.staged ++
    match ingestRun cfg now start r.staged with
    | (_, .error _) => []
    | (r, .ok back) =>
      unmatchedTrace cfg { r with heldBack := back } ++
        [(applyUnmatchedWriters cfg { r with heldBack := back }, .autopurge now)])

theorem staged_steps : StepsTo cfg r (stagedTrace cfg r) (ingestStaged cfg r).1 := by
  have hstart : StepsTo cfg r [] (unstaged cfg r) := .of_same ⟨rfl, rfl, rfl⟩
  have hrun := hstart.trans (StepsTo.cons (.lifespan (cfg.clock r.readings))
    (ingestRun_steps cfg (cfg.clock r.readings)
      ((unstaged cfg r).purgeExpiredByLifespan (cfg.clock r.readings)) r.staged))
  unfold stagedTrace ingestStaged
  simp only [unstaged, wallNow] at hrun ⊢
  rcases hres : ingestRun cfg (cfg.clock r.readings)
    (purgeExpiredByLifespan
      { r with heldBack := [], arrived := [], readings := r.readings + 1 }
      (cfg.clock r.readings)) r.staged with ⟨r₁, res⟩
  rw [hres] at hrun
  cases res with
  | error e => simpa using hrun
  | ok back =>
    have hback : StepsTo cfg r₁ [] { r₁ with heldBack := back } := .of_same ⟨rfl, rfl, rfl⟩
    have hend := (hrun.trans (hback.trans (unmatched_steps cfg _))).trans
      (StepsTo.single _ (.autopurge (cfg.clock r.readings)))
    simpa [perform] using hend

def releaseDueTrace (r : DataReader T) : List (DataReader T × ReaderStep T) :=
  let (now, r) := r.wallNow cfg
  releaseTrace cfg now (r.withoutDue now) (r.tbfDue now)

theorem releaseDue_steps : StepsTo cfg r (releaseDueTrace cfg r) (releaseDueTbf cfg r).1 := by
  unfold releaseDueTrace releaseDueTbf
  rcases hclock : r.wallNow cfg with ⟨now, r₁⟩
  have hsame : SameStore r r₁ := by
    cases hclock
    exact ⟨rfl, rfl, rfl⟩
  simp only
  cases hdue : r₁.tbfDue now with
  | nil => exact .of_same hsame
  | cons raw rest =>
    have hstart : StepsTo cfg r [] (r₁.withoutDue now) :=
      .idle (.of_same hsame) ⟨rfl, rfl, rfl⟩
    have hrun := hstart.trans (releaseRun_steps cfg now (r₁.withoutDue now) (raw :: rest))
    rcases hres : releaseRun cfg now (r₁.withoutDue now) (raw :: rest) with ⟨r₂, res⟩
    rw [hres] at hrun
    cases res with
    | error e => exact hrun
    | ok back => exact .idle hrun ⟨rfl, rfl, rfl⟩

def ingestTrace (r : DataReader T) : List (DataReader T × ReaderStep T) :=
  releaseDueTrace cfg r ++
    match releaseDueTbf cfg r with
    | (_, .error _) => []
    | (r, .ok _) => stagedTrace cfg r

theorem ingest_steps : StepsTo cfg r (ingestTrace cfg r) (ingestPending cfg r).1 := by
  have hrelease := releaseDue_steps cfg r
  unfold ingestTrace ingestPending
  rcases hres : releaseDueTbf cfg r with ⟨r₁, res⟩
  rw [hres] at hrelease
  cases res with
  | error e => simpa using hrelease
  | ok released => exact hrelease.trans (staged_steps cfg r₁)

inductive Event (T : Type) where
  | arrive (entry : StagedIngest)
  | strengthChanged (writer : WriterGuid) (strength : Int)
  | writerGone (writer : WriterGuid)
  | ingest
  | releaseDue
  | take
  | takeCore (sel : Selection) (max : Option Nat)
  | takeInstance (handle : InstanceHandle)
  | takeNextInstance (previous : InstanceHandle)
  | query (cond : QueryCondition T) (max : Option Nat) (take : Bool)
      (instance? : Option InstanceHandle)
  | read
  | readCore (sel : Selection) (max : Option Nat)
  | readInstance (handle : InstanceHandle)
  | readNextInstance (previous : InstanceHandle)

inductive Reply (T : Type) where
  | nothing
  | taken (values : Except DdsError (List (T × Option SampleWire)))
  | samples (samples : Except DdsError (List (Sample T)))
  | values (values : Except DdsError (List T))

def handle (r : DataReader T) : Event T → DataReader T × Reply T
  | .arrive entry => ({ r with arrived := r.arrived ++ [entry] }, .nothing)
  | .strengthChanged writer strength =>
    ({ r with strengthChanges := r.strengthChanges ++ [(writer, strength)] }, .nothing)
  | .writerGone writer => ({ r with gone := r.gone ++ [writer] }, .nothing)
  | .ingest => ((ingestPending cfg r).1, .nothing)
  | .releaseDue => ((releaseDueTbf cfg r).1, .nothing)
  | .take => ((takeWithWire cfg r).1, .taken (takeWithWire cfg r).2)
  | .takeCore sel max => ((takeCore cfg r sel max).1, .samples (takeCore cfg r sel max).2)
  | .takeInstance h => ((takeInstance cfg r h).1, .samples (takeInstance cfg r h).2)
  | .takeNextInstance h => ((takeNextInstance cfg r h).1, .samples (takeNextInstance cfg r h).2)
  | .query cond max take instance? =>
    ((queryCore cfg r cond max take instance?).1,
      .samples (queryCore cfg r cond max take instance?).2)
  | .read => ((read cfg r).1, .values (read cfg r).2)
  | .readCore sel max => ((readCore cfg r sel max).1, .samples (readCore cfg r sel max).2)
  | .readInstance h => ((readInstance cfg r h).1, .samples (readInstance cfg r h).2)
  | .readNextInstance h => ((readNextInstance cfg r h).1, .samples (readNextInstance cfg r h).2)

def afterIngestTrace (r : DataReader T)
    (trace : DataReader T → List (DataReader T × ReaderStep T)) :
    List (DataReader T × ReaderStep T) :=
  ingestTrace cfg r ++
    match ingestPending cfg r with
    | (_, .error _) => []
    | (r, .ok _) => trace r

theorem afterIngest_steps {α : Type} {op : DataReader T → DataReader T × Except DdsError α}
    {trace : DataReader T → List (DataReader T × ReaderStep T)}
    (hop : ∀ r, StepsTo cfg r (trace r) (op r).1) :
    StepsTo cfg r (afterIngestTrace cfg r trace) (afterIngest cfg r op).1 := by
  have hingest := ingest_steps cfg r
  unfold afterIngestTrace afterIngest
  rcases hres : ingestPending cfg r with ⟨r₁, res⟩
  rw [hres] at hingest
  cases res with
  | error e => simpa using hingest
  | ok _ => exact hingest.trans (hop r₁)

def takeInstanceTrace (r : DataReader T) (h : InstanceHandle) :
    List (DataReader T × ReaderStep T) :=
  if h = handleNil then [] else afterIngestTrace cfg r fun r => [(r, .takeOfInstance h)]

def readInstanceTrace (r : DataReader T) (h : InstanceHandle) :
    List (DataReader T × ReaderStep T) :=
  if h = handleNil then [] else afterIngestTrace cfg r fun r => [(r, .readOfInstance h)]

def trace (r : DataReader T) : Event T → List (DataReader T × ReaderStep T)
  | .arrive _ | .strengthChanged _ _ | .writerGone _ => []
  | .ingest => ingestTrace cfg r
  | .releaseDue => releaseDueTrace cfg r
  | .take => afterIngestTrace cfg r fun r => [(r, .takeValues)]
  | .takeCore sel max => afterIngestTrace cfg r fun r => [(r, .takeSelected sel max)]
  | .takeInstance h => takeInstanceTrace cfg r h
  | .takeNextInstance previous => afterIngestTrace cfg r fun r =>
    match r.nextInstanceWithSamples previous with
    | none => []
    | some next => takeInstanceTrace cfg r next
  | .query cond max take instance? =>
    afterIngestTrace cfg r fun r => [(r, .query cond max take instance?)]
  | .read => afterIngestTrace cfg r fun r => [(r, .readValues)]
  | .readCore sel max => afterIngestTrace cfg r fun r => [(r, .readSelected sel max)]
  | .readInstance h => readInstanceTrace cfg r h
  | .readNextInstance previous => afterIngestTrace cfg r fun r =>
    match r.nextInstanceWithSamples previous with
    | none => []
    | some next => readInstanceTrace cfg r next

theorem takeInstance_steps (h : InstanceHandle) :
    StepsTo cfg r (takeInstanceTrace cfg r h) (takeInstance cfg r h).1 := by
  unfold takeInstanceTrace takeInstance
  split
  · exact .refl r
  · exact afterIngest_steps cfg r fun r => StepsTo.single r (.takeOfInstance h)

theorem readInstance_steps (h : InstanceHandle) :
    StepsTo cfg r (readInstanceTrace cfg r h) (readInstance cfg r h).1 := by
  unfold readInstanceTrace readInstance
  split
  · exact .refl r
  · exact afterIngest_steps cfg r fun r => StepsTo.single r (.readOfInstance h)

theorem handle_steps (event : Event T) :
    StepsTo cfg r (trace cfg r event) (handle cfg r event).1 := by
  cases event with
  | arrive _ => exact .of_same ⟨rfl, rfl, rfl⟩
  | strengthChanged _ _ => exact .of_same ⟨rfl, rfl, rfl⟩
  | writerGone _ => exact .of_same ⟨rfl, rfl, rfl⟩
  | ingest => exact ingest_steps cfg r
  | releaseDue => exact releaseDue_steps cfg r
  | take => exact afterIngest_steps cfg r fun r => StepsTo.single r .takeValues
  | takeCore sel max =>
    exact afterIngest_steps cfg r fun r => StepsTo.single r (.takeSelected sel max)
  | takeInstance h => exact takeInstance_steps cfg r h
  | takeNextInstance previous =>
    refine afterIngest_steps cfg r fun r => ?_
    cases r.nextInstanceWithSamples previous with
    | none => exact .refl r
    | some next => exact takeInstance_steps cfg r next
  | query cond max take instance? =>
    exact afterIngest_steps cfg r fun r => StepsTo.single r (.query cond max take instance?)
  | read => exact afterIngest_steps cfg r fun r => StepsTo.single r .readValues
  | readCore sel max =>
    exact afterIngest_steps cfg r fun r => StepsTo.single r (.readSelected sel max)
  | readInstance h => exact readInstance_steps cfg r h
  | readNextInstance previous =>
    refine afterIngest_steps cfg r fun r => ?_
    cases r.nextInstanceWithSamples previous with
    | none => exact .refl r
    | some next => exact readInstance_steps cfg r next

def StepsMeet (ok : DataReader T → ReaderStep T → Prop) (r : DataReader T) (event : Event T) :
    Prop :=
  ∀ r' s, (r', s) ∈ trace cfg r event → ok r' s

theorem reaches_invariant {ok : DataReader T → ReaderStep T → Prop} {P : DataReader T → Prop}
    {r₀ r : DataReader T} {h : History (Event T) (Reply T)}
    (hr : Reaches (handle cfg) (StepsMeet cfg ok) r₀ h r) (start : P r₀)
    (hsame : ∀ r r', SameStore r r' → P r → P r')
    (hstep : ∀ r s, ok r s → P r → P (perform cfg r s)) : P r := by
  refine Reaches.invariant (P := fun _ r => P r) start ?_ hr
  intro h r event hp hok
  exact (handle_steps cfg r event).preserves hp hsame fun r' s hmem => hstep r' s (hok r' s hmem)

end ZeroDds.Dcps.DataReader
