/-
The instance tracker.

The instances a DataReader knows, by key hash, with the way back from a handle.
-/
import ZeroDds.Dcps.Types

namespace ZeroDds.Dcps

open Rtps (Octets)

def satIncU32 (n : Nat) : Nat := if n < Rtps.u32Max then n + 1 else n

structure InstanceState where
  handle : InstanceHandle
  kind : InstanceStateKind
  disposedGenerationCount : Int
  noWritersGenerationCount : Int
  writerCount : Nat
  lastSampleTimestamp : Option Time
  lastDeliveredTs : Option Time
  lastFilterTs : Option Time
  disposedAt : Option Time
  noWritersAt : Option Time
  currentOwner : Option (WriterGuid × Int)
  ownerAt : Option Time
  keyHolder : Option Octets
  writers : SortedSet WriterGuid
  readerViewNew : Bool
  samplesInCache : Nat
  deriving DecidableEq

namespace InstanceState

def fresh (handle : InstanceHandle) (keyHolder : Option Octets) : InstanceState where
  handle := handle
  kind := .alive
  disposedGenerationCount := 0
  noWritersGenerationCount := 0
  writerCount := 0
  lastSampleTimestamp := none
  lastDeliveredTs := none
  lastFilterTs := none
  disposedAt := none
  noWritersAt := none
  currentOwner := none
  ownerAt := none
  keyHolder := keyHolder
  writers := .empty
  readerViewNew := true
  samplesInCache := 0

variable (s : InstanceState)

def withHolder (keyHolder : Option Octets) : InstanceState :=
  if keyHolder.isSome then { s with keyHolder := keyHolder } else s

variable (writer : WriterGuid) (timestamp : Option Time)

def stamped : InstanceState :=
  if timestamp.isSome then { s with lastSampleTimestamp := timestamp } else s

def counted : InstanceState :=
  { s with samplesInCache := satIncU32 s.samplesInCache }

/-- A not-alive instance is alive again, in a new generation, and new to the reader. -/
def revived : InstanceState :=
  match s.kind with
  | .alive => s
  | .notAliveDisposed =>
    { s with
      disposedGenerationCount := satAddI32 s.disposedGenerationCount 1
      kind := .alive
      readerViewNew := true }
  | .notAliveNoWriters =>
    { s with
      noWritersGenerationCount := satAddI32 s.noWritersGenerationCount 1
      kind := .alive
      readerViewNew := true }

def noteObserved (keyHolder : Option Octets) (timestamp : Option Time) : InstanceState :=
  (((s.withHolder keyHolder).revived).stamped timestamp).counted

def drained (n : Nat) : InstanceState :=
  { s with samplesInCache := s.samplesInCache - n }

def seen : InstanceState := { s with readerViewNew := false }

def disposed : InstanceState :=
  if timestamp.isSome then
    { s with kind := .notAliveDisposed, lastSampleTimestamp := timestamp, disposedAt := timestamp }
  else { s with kind := .notAliveDisposed }

def unregistered : InstanceState :=
  let left := { s with writerCount := s.writerCount - 1 }
  let gone :=
    if left.writerCount = 0 ∧ left.kind ≠ .notAliveDisposed then
      { left with
        kind := .notAliveNoWriters
        noWritersAt := if timestamp.isSome then timestamp else left.noWritersAt }
    else left
  gone.stamped timestamp

def writerUnregistered : InstanceState :=
  let left := { s with writers := s.writers.erase writer }
  let gone :=
    if left.writers.isEmpty ∧ left.kind = .alive then
      { left with
        kind := .notAliveNoWriters
        noWritersAt := if timestamp.isSome then timestamp else left.noWritersAt }
    else left
  gone.stamped timestamp

def LosesLastWriter : Prop :=
  s.writers.contains writer ∧ (s.writers.erase writer).isEmpty ∧ s.kind = .alive

instance (s : InstanceState) (writer : WriterGuid) : Decidable (s.LosesLastWriter writer) :=
  inferInstanceAs (Decidable (_ ∧ _ ∧ _))

def writerDropped : InstanceState :=
  let left := { s with writers := s.writers.erase writer }
  if s.LosesLastWriter writer then
    if timestamp.isSome then
      { left with
        kind := .notAliveNoWriters
        noWritersAt := timestamp
        lastSampleTimestamp := timestamp }
    else { left with kind := .notAliveNoWriters }
  else left

/-- The sample of `writer` is accepted under EXCLUSIVE ownership: there is no owner,
`writer` is it, the owner missed its deadline, or `writer` is stronger. -/
def ownershipGoesTo (strength : Int) (now : Time) (deadlineNanos : Option Nat) : Bool :=
  match s.currentOwner with
  | none => true
  | some (owner, held) =>
    if owner = writer then true
    else
      let missed := match deadlineNanos, s.ownerAt with
        | some period, some at' => decide ((period : Int) ≤ now.nanos - at'.nanos)
        | _, _ => false
      missed || decide (held < strength) || (decide (strength = held) && decide (writer < owner))

def ownedBy (strength : Int) (now : Time) : InstanceState :=
  { s with currentOwner := some (writer, strength), ownerAt := some now }

def admitted (orderTs filterTs : Time) (writer : WriterGuid) : InstanceState :=
  { s with
    lastDeliveredTs := some orderTs
    lastFilterTs := some filterTs
    writers := s.writers.insert writer () }

@[simp] theorem handle_noteObserved (keyHolder : Option Octets) (timestamp : Option Time) :
    (s.noteObserved keyHolder timestamp).handle = s.handle := by
  unfold noteObserved counted stamped revived withHolder
  split <;> split <;> split <;> rfl

@[simp] theorem samplesInCache_noteObserved (keyHolder : Option Octets) (timestamp : Option Time) :
    (s.noteObserved keyHolder timestamp).samplesInCache = satIncU32 s.samplesInCache := by
  unfold noteObserved counted stamped revived withHolder
  split <;> split <;> split <;> rfl

def purgeable (now : Time) (disposedDelay noWriterDelay : Nat) : Bool :=
  let past := fun (since : Option Time) (delay : Nat) =>
    decide (delay ≠ u128Max) &&
      since.any fun t => decide (delay ≤ now.clampedNanos - t.clampedNanos)
  match s.kind with
  | .notAliveDisposed => past s.disposedAt disposedDelay
  | .notAliveNoWriters => past s.noWritersAt noWriterDelay
  | .alive => false

end InstanceState

structure InstanceTracker where
  byKeyhash : SortedMap KeyHash InstanceState
  handleToKeyhash : SortedMap InstanceHandle KeyHash
  nextHandle : InstanceHandle
  /-- The handles of a built-in topic's instances are those of the entities. -/
  keyHandles : Bool
  deriving DecidableEq

namespace InstanceTracker

def new : InstanceTracker := ⟨.empty, .empty, 1, false⟩

def withKeyHandles : InstanceTracker := { new with keyHandles := true }

variable (t : InstanceTracker) (kh : KeyHash) (h : InstanceHandle)

def stateOf : Option InstanceState := t.byKeyhash.get? kh

def newHandle : InstanceHandle :=
  if t.keyHandles then InstanceHandle.fromGuid kh else t.nextHandle

def allocated : InstanceTracker :=
  if t.keyHandles then t else { t with nextHandle := t.nextHandle + 1 }

def put (s : InstanceState) : InstanceTracker :=
  { t with
    byKeyhash := t.byKeyhash.insert kh s
    handleToKeyhash := t.handleToKeyhash.insert s.handle kh }

def modifyKey (f : InstanceState → InstanceState) : InstanceTracker :=
  { t with byKeyhash := t.byKeyhash.modify kh f }

def modifyHandle (f : InstanceState → InstanceState) : InstanceTracker :=
  match t.handleToKeyhash.get? h with
  | none => t
  | some kh => t.modifyKey kh f

def modifyAll (f : InstanceState → InstanceState) : InstanceTracker :=
  { t with byKeyhash := t.byKeyhash.mapValues f }

def lookup : Option InstanceHandle :=
  (t.stateOf kh).map (·.handle)

def getByHandle : Option InstanceState :=
  (t.handleToKeyhash.get? h).bind t.stateOf

def getKeyHolder : Option Octets :=
  (t.getByHandle h).bind (·.keyHolder)

def timeBasedFilterAdmits (last candidate : Time) (minSeparationNanos : Nat) : Bool :=
  if candidate.clampedNanos < last.clampedNanos then true
  else decide (minSeparationNanos ≤ candidate.clampedNanos - last.clampedNanos)

def destinationOrderAdmits (last candidate : Time) : Bool :=
  decide (last.clampedNanos < candidate.clampedNanos)

def shouldDeliverUnderTimeBasedFilter (sampleTs : Time) (minSeparationNanos : Nat) : Bool :=
  if minSeparationNanos = 0 then true
  else match (t.stateOf kh).bind (·.lastFilterTs) with
    | none => true
    | some last => timeBasedFilterAdmits last sampleTs minSeparationNanos

def shouldDeliverUnderDestinationOrder (sourceTs : Time) (bySourceTimestamp : Bool) : Bool :=
  if !bySourceTimestamp then true
  else match (t.stateOf kh).bind (·.lastDeliveredTs) with
    | none => true
    | some last => destinationOrderAdmits last sourceTs

def entry (keyHolder : Option Octets) : InstanceState × InstanceTracker :=
  match t.stateOf kh with
  | some s => (s, t)
  | none => (.fresh (t.newHandle kh) keyHolder, t.allocated)

def observeSampleWithHolder (keyHolder : Option Octets) (timestamp : Option Time) :
    InstanceTracker :=
  let (s, t) := t.entry kh keyHolder
  t.put kh (s.noteObserved keyHolder timestamp)

def observeSample (keyHolder : Octets) (timestamp : Option Time) : InstanceTracker :=
  t.observeSampleWithHolder kh (some keyHolder) timestamp

/-- The instance a marker names, with the marker counted; it stays as dead as it was. -/
def observeLifecycle (keyHolder : Option Octets) (timestamp : Option Time) :
    InstanceTracker × InstanceHandle :=
  let (s, t) := t.entry kh keyHolder
  let s := ((s.withHolder keyHolder).stamped timestamp).counted
  (t.put kh s, s.handle)

def hasRoomFor (maxInstances : Int) : Bool :=
  (t.stateOf kh).isSome || decide (maxInstances < 0) ||
    decide (t.byKeyhash.size < maxInstances.toNat)

def observeAdmitted (keyHolder : Octets) (timestamp : Time) (maxInstances : Int) :
    Option (InstanceTracker × InstanceHandle × Nat) :=
  if !t.hasRoomFor kh maxInstances then none
  else match t.stateOf kh with
    | some s =>
      if s.keyHolder.isSome then
        let s' := s.noteObserved none (some timestamp)
        some (t.modifyKey kh fun s => s.noteObserved none (some timestamp), s'.handle,
          s'.samplesInCache)
      else
        let s' := s.noteObserved (some keyHolder) (some timestamp)
        some (t.put kh s', s'.handle, s'.samplesInCache)
    | none =>
      let s' := (InstanceState.fresh (t.newHandle kh) none).noteObserved (some keyHolder)
          (some timestamp)
      some (t.allocated.put kh s', s'.handle, s'.samplesInCache)

def noteAdmitted (orderTs filterTs : Time) (writer : WriterGuid) : InstanceTracker :=
  t.modifyKey kh (·.admitted orderTs filterTs writer)

def markViewSeen : InstanceTracker :=
  t.modifyHandle h (·.seen)

def drainSamples (n : Nat) : InstanceTracker :=
  t.modifyHandle h (·.drained n)

def noteTaken (n : Nat) : InstanceTracker :=
  t.modifyHandle h fun s => s.seen.drained n

/-! ### Writers and owners -/

def dispose (timestamp : Option Time) : InstanceTracker :=
  t.modifyHandle h (·.disposed timestamp)

def unregister (timestamp : Option Time) : InstanceTracker :=
  t.modifyHandle h (·.unregistered timestamp)

def unregisterWriter (writer : WriterGuid) (timestamp : Option Time) : InstanceTracker :=
  t.modifyHandle h (·.writerUnregistered writer timestamp)

def dropWriter (writer : WriterGuid) (timestamp : Option Time) :
    InstanceTracker × List InstanceHandle :=
  (t.modifyAll (·.writerDropped writer timestamp),
    (t.byKeyhash.values.filter fun s => s.LosesLastWriter writer).map (·.handle))

def acceptUnderExclusiveOwnership (writer : WriterGuid) (strength : Int) (now : Time)
    (deadlineNanos : Option Nat) : InstanceTracker × Bool :=
  match t.stateOf kh with
  | none => (t, true)
  | some s =>
    if s.ownershipGoesTo writer strength now deadlineNanos then
      (t.modifyKey kh (·.ownedBy writer strength now), true)
    else (t, false)

def updateOwnerStrength (writer : WriterGuid) (strength : Int) : InstanceTracker :=
  t.modifyAll fun s => match s.currentOwner with
    | some (owner, _) =>
      if owner = writer then { s with currentOwner := some (owner, strength) } else s
    | none => s

def clearOwnerForWriter (writer : WriterGuid) : InstanceTracker :=
  t.modifyAll fun s =>
    if s.currentOwner.map Prod.fst = some writer then { s with currentOwner := none } else s

def ownerOf : Option WriterGuid :=
  (t.stateOf kh).bind fun s => s.currentOwner.map Prod.fst

def releaseOwnerOf (writer : WriterGuid) : InstanceTracker :=
  t.modifyKey kh fun s =>
    if s.currentOwner.map Prod.fst = some writer then { s with currentOwner := none } else s

def autopurge (now : Time) (disposedDelay noWriterDelay : Nat) :
    InstanceTracker × List InstanceHandle :=
  let purged := (t.byKeyhash.values.filter
    (·.purgeable now disposedDelay noWriterDelay)).map (·.handle)
  ({ t with
      byKeyhash := t.byKeyhash.filter fun _ s => !s.purgeable now disposedDelay noWriterDelay
      handleToKeyhash := t.handleToKeyhash.filter fun h _ => !purged.contains h },
    purged)

/-! ### What the operations do to `stateOf` -/

variable (t : InstanceTracker)
  (kh kh' : KeyHash) (keyHolder : Option Octets) (timestamp : Option Time)

theorem stateOf_put (s : InstanceState) :
    (t.put kh s).stateOf kh' = if kh' = kh then some s else t.stateOf kh' :=
  SortedMap.get?_insert _ _ _ _

theorem stateOf_modifyKey (f : InstanceState → InstanceState) :
    (t.modifyKey kh f).stateOf kh' =
      if kh' = kh then (t.stateOf kh).map f else t.stateOf kh' :=
  SortedMap.get?_modify _ _ _ _

@[simp] theorem stateOf_modifyAll (f : InstanceState → InstanceState) :
    (t.modifyAll f).stateOf kh = (t.stateOf kh).map f :=
  SortedMap.get?_mapValues _ _ _

theorem stateOf_modifyHandle (h : InstanceHandle) (kh : KeyHash)
    (f : InstanceState → InstanceState) :
    (t.modifyHandle h f).stateOf kh =
      if t.handleToKeyhash.get? h = some kh then (t.stateOf kh).map f else t.stateOf kh := by
  unfold modifyHandle
  split
  · next heq => rw [heq, if_neg (by simp)]
  · next kh₁ heq =>
    rw [heq, stateOf_modifyKey]
    by_cases hk : kh = kh₁
    · rw [if_pos hk, if_pos (by rw [hk]), hk]
    · rw [if_neg hk, if_neg (fun h' => hk (Option.some.inj h').symm)]

@[simp] theorem stateOf_allocated : t.allocated.stateOf kh = t.stateOf kh := by
  unfold allocated
  split <;> rfl

@[simp] theorem stateOf_entry : (t.entry kh keyHolder).2.stateOf kh' = t.stateOf kh' := by
  unfold entry
  split
  · rfl
  · exact stateOf_allocated t kh'

theorem stateOf_observeSampleWithHolder :
    (t.observeSampleWithHolder kh keyHolder timestamp).stateOf kh' =
      if kh' = kh then some ((t.entry kh keyHolder).1.noteObserved keyHolder timestamp)
      else t.stateOf kh' := by
  rw [observeSampleWithHolder, stateOf_put, stateOf_entry]

def markedState (kh : KeyHash) (keyHolder : Option Octets) (timestamp : Option Time) :
    InstanceState :=
  (((t.entry kh keyHolder).1.withHolder keyHolder).stamped timestamp).counted

theorem observeLifecycle_handle :
    (t.observeLifecycle kh keyHolder timestamp).2 =
      (t.markedState kh keyHolder timestamp).handle := rfl

theorem stateOf_observeLifecycle :
    (t.observeLifecycle kh keyHolder timestamp).1.stateOf kh' =
      if kh' = kh then some (t.markedState kh keyHolder timestamp) else t.stateOf kh' := by
  rw [observeLifecycle, stateOf_put, stateOf_entry]
  rfl

theorem observeAdmitted_eq_some {kh : KeyHash} {keyHolder : Octets} {timestamp : Time}
    {maxInstances : Int} {t' : InstanceTracker} {handle : InstanceHandle} {inCache : Nat}
    (h : t.observeAdmitted kh keyHolder timestamp maxInstances = some (t', handle, inCache)) :
    ∃ holder s, s = (t.entry kh none).1.noteObserved holder (some timestamp) ∧
      handle = s.handle ∧ inCache = s.samplesInCache ∧
      ∀ kh', t'.stateOf kh' = if kh' = kh then some s else t.stateOf kh' := by
  unfold observeAdmitted at h
  split at h
  · cases h
  · cases hs : t.stateOf kh with
    | some s =>
      have hentry : (t.entry kh none).1 = s := by simp [entry, hs]
      simp only [hs] at h
      split at h
      · obtain ⟨rfl, rfl, rfl⟩ := h
        refine ⟨none, _, rfl, by rw [hentry], by rw [hentry], fun kh' => ?_⟩
        rw [stateOf_modifyKey, hs, hentry]
        rfl
      · obtain ⟨rfl, rfl, rfl⟩ := h
        refine ⟨some keyHolder, _, rfl, by rw [hentry], by rw [hentry], fun kh' => ?_⟩
        rw [stateOf_put, hentry]
    | none =>
      have hentry : (t.entry kh none).1 = .fresh (t.newHandle kh) none := by simp [entry, hs]
      simp only [hs, Option.some.injEq, Prod.mk.injEq] at h
      obtain ⟨rfl, rfl, rfl⟩ := h
      refine ⟨some keyHolder, _, rfl, by rw [hentry], by rw [hentry], fun kh' => ?_⟩
      rw [stateOf_put, stateOf_allocated, hentry]

theorem observeAdmitted_eq_none {kh : KeyHash} {keyHolder : Octets} {timestamp : Time}
    {maxInstances : Int} :
    t.observeAdmitted kh keyHolder timestamp maxInstances = none ↔
      t.hasRoomFor kh maxInstances = false := by
  unfold observeAdmitted
  cases t.hasRoomFor kh maxInstances with
  | false => simp
  | true =>
    cases t.stateOf kh with
    | none => simp
    | some s => by_cases hk : s.keyHolder.isSome <;> simp [hk]

end InstanceTracker
end ZeroDds.Dcps
