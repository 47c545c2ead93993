/-
The history cache.

The ordered sample storage a writer and a reader each keep.
-/
import Mathlib.Data.Finset.Max
import ZeroDds.Lib.SortedMap
import ZeroDds.Rtps.InlineQos

namespace ZeroDds.Rtps

inductive ChangeKind where
  | alive
  | aliveFiltered
  | notAliveDisposed
  | notAliveUnregistered
  | notAliveDisposedUnregistered
  deriving DecidableEq

namespace ChangeKind

def isRelevant (k : ChangeKind) : Bool := k ≠ .aliveFiltered

end ChangeKind

structure CacheChange where
  inlineQos : Option ParameterList
  sequenceNumber : Int
  payload : Octets
  kind : ChangeKind
  keyHash : Option KeyHash
  sourceTimestamp : Option HeTimestamp
  coherentSetSn : Option Int
  coherentSetEnd : Bool
  group : Option ChangeGroupInfo
  nonStandardPayload : Bool
  destination : Option GuidPrefix
  destinationReaders : Option (List Guid)
  deriving DecidableEq

structure GroupSetEnd where
  firstGsn : Int
  ecsGsn : Int
  writerSet : GroupDigest
  deriving DecidableEq

namespace CacheChange

def alive (sn : Int) (payload : Octets) : CacheChange where
  inlineQos := none
  sequenceNumber := sn
  payload := payload
  kind := .alive
  keyHash := none
  sourceTimestamp := none
  coherentSetSn := none
  coherentSetEnd := false
  group := none
  nonStandardPayload := false
  destination := none
  destinationReaders := none

def lifecycle (sn : Int) (keyHash : KeyHash) (serializedKey : Octets) (kind : ChangeKind) :
    CacheChange :=
  { alive sn serializedKey with kind := kind, keyHash := some keyHash }

def setEnd (sn : Int) : CacheChange := { alive sn [] with coherentSetEnd := true }

def groupSetEnd (sn : Int) (setFirstSn : Option Int) (e : GroupSetEnd) : CacheChange :=
  { alive sn [] with
    coherentSetSn := setFirstSn
    coherentSetEnd := true
    group := some ⟨e.ecsGsn, e.writerSet, some e.firstGsn⟩ }

def isRelevantTo (c : CacheChange) (reader : Guid) : Bool :=
  (c.destination.all fun d => d = reader.guidPrefix) &&
    c.destinationReaders.all fun readers => reader ∈ readers

end CacheChange

inductive HistoryKind where
  | keepAll
  | keepLast (depth : Nat)
  deriving DecidableEq

inductive CacheError where
  | capacityExceeded
  | duplicateSequenceNumber
  | zeroDepth
  deriving DecidableEq

/-- The sequence numbers of each instance's changes, by key hash.  Only looked up
and updated, so the order of the entries carries no meaning. -/
abbrev InstanceIndex := List (Option KeyHash × Finset Int)

namespace InstanceIndex

def sns (ix : InstanceIndex) (key : Option KeyHash) : Finset Int :=
  ((ix.find? fun e => e.1 = key).map Prod.snd).getD ∅

def index (ix : InstanceIndex) (key : Option KeyHash) (sn : Int) : InstanceIndex :=
  if ix.any fun e => e.1 = key then
    ix.map fun e => if e.1 = key then (e.1, insert sn e.2) else e
  else ix ++ [(key, {sn})]

def unindex (ix : InstanceIndex) (key : Option KeyHash) (sn : Int) : InstanceIndex :=
  (ix.map fun e => if e.1 = key then (e.1, e.2.erase sn) else e).filter fun e =>
    e.1 ≠ key ∨ e.2.Nonempty

end InstanceIndex

def statsSentinelNoSn : Int := -9223372036854775808

def encodeSnAtom (sn : Option Int) : Int := sn.getD statsSentinelNoSn

def decodeSnAtom (v : Int) : Option Int := if v = statsSentinelNoSn then none else some v

structure HistoryCacheStats where
  len : Nat
  evicted : Nat
  maxSn : Int
  minSn : Int
  deriving DecidableEq

structure HistoryCacheSnapshot where
  len : Nat
  evicted : Nat
  maxSn : Option Int
  minSn : Option Int
  deriving DecidableEq

def HistoryCacheStats.snapshot (s : HistoryCacheStats) : HistoryCacheSnapshot :=
  ⟨s.len, s.evicted, decodeSnAtom s.maxSn, decodeSnAtom s.minSn⟩

structure HistoryCache where
  changes : SortedMap Int CacheChange
  byInstance : InstanceIndex
  kind : HistoryKind
  maxSamples : Nat
  perInstanceDepth : Option Nat
  evictedCount : Nat
  stats : HistoryCacheStats
  deriving DecidableEq

namespace HistoryCache

def newWithKind (kind : HistoryKind) (maxSamples : Nat) : HistoryCache where
  changes := SortedMap.empty
  byInstance := []
  kind := kind
  maxSamples := maxSamples
  perInstanceDepth := none
  evictedCount := 0
  stats := ⟨0, 0, statsSentinelNoSn, statsSentinelNoSn⟩

def new (maxSamples : Nat) : HistoryCache := newWithKind .keepAll maxSamples

variable (c : HistoryCache)

def minSn : Option Int := c.changes.minKey?

def maxSn : Option Int := c.changes.maxKey?

def len : Nat := c.changes.size

def isEmpty (c : HistoryCache) : Bool := c.changes.isEmpty

def get (c : HistoryCache) (sn : Int) : Option CacheChange := c.changes.get? sn

def refreshStats : HistoryCache :=
  { c with stats := ⟨c.len, c.evictedCount, encodeSnAtom c.maxSn, encodeSnAtom c.minSn⟩ }

def setKindAndMax (kind : HistoryKind) (maxSamples : Nat) : HistoryCache :=
  { c with kind := kind, maxSamples := maxSamples }

def take (sn : Int) : HistoryCache × Option CacheChange :=
  match c.get sn with
  | none => (c, none)
  | some ch =>
    ({ c with
        changes := c.changes.erase sn
        byInstance := c.byInstance.unindex ch.keyHash sn }, some ch)

def evict (sn : Int) : HistoryCache × Option CacheChange :=
  let (c, evicted) := c.take sn
  ({ c with
      evictedCount :=
        if c.evictedCount < 18446744073709551615 then c.evictedCount + 1 else c.evictedCount },
    evicted)

/-- The numbers a walk over the changes, the highest first, finds beyond the newest
`depth` of their instance; `seen` counts what it has passed of each instance. -/
def beyondDepth (depth : Nat) :
    (seen : Option KeyHash → Nat) → List (Int × CacheChange) → List Int
  | _, [] => []
  | seen, (sn, change) :: rest =>
    let n := seen change.keyHash + 1
    let later := beyondDepth depth (Function.update seen change.keyHash n) rest
    if n > depth then sn :: later else later

/-- Sets the KEEP_LAST depth per instance and applies it to what is held; a depth
of 0 counts as 1. -/
def setPerInstanceDepth (depth : Option Nat) : HistoryCache :=
  let c := { c with perInstanceDepth := depth.map fun d => max d 1 }
  match c.perInstanceDepth with
  | none => c
  | some d =>
    let dropSns := beyondDepth d (fun _ => 0) c.changes.entries.reverse
    (dropSns.foldl (fun c sn => (c.evict sn).1) c).refreshStats

def effectiveMaxSamples : Except CacheError Nat :=
  match c.kind with
  | .keepAll => .ok c.maxSamples
  | .keepLast depth => if depth = 0 then .error .zeroDepth else .ok (min depth c.maxSamples)

def instanceVictim (change : CacheChange) : Option Int :=
  c.perInstanceDepth.bind fun depth =>
    let sns := c.byInstance.sns change.keyHash
    if h : depth ≤ sns.card ∧ sns.Nonempty then some (sns.min' h.2) else none

def put (change : CacheChange) : HistoryCache :=
  { c with
    byInstance := c.byInstance.index change.keyHash change.sequenceNumber
    changes := c.changes.insert change.sequenceNumber change }.refreshStats

def evictOpt : Option Int → HistoryCache × Option CacheChange
  | none => (c, none)
  | some sn => c.evict sn

def insert (change : CacheChange) : HistoryCache × Except CacheError (Option CacheChange) :=
  if c.changes.contains change.sequenceNumber then (c, .error .duplicateSequenceNumber)
  else
    match c.effectiveMaxSamples with
    | .error e => (c, .error e)
    | .ok cap =>
      let (c, evicted) := c.evictOpt (c.instanceVictim change)
      if evicted.isNone ∧ c.len ≥ cap then
        match c.kind with
        | .keepAll => (c, .error .capacityExceeded)
        | .keepLast _ =>
          let (c, evicted) := c.evictOpt c.minSn
          (c.put change, .ok evicted)
      else (c.put change, .ok evicted)

def removeUpTo (sn : Int) : HistoryCache × Nat :=
  let doomed := c.changes.entries.filter fun e => e.1 ≤ sn
  let c' :=
    { c with
      changes := c.changes.filter fun k _ => sn < k
      byInstance := doomed.foldl (fun ix e => ix.unindex e.2.keyHash e.1) c.byInstance }
  (if doomed.isEmpty then c' else c'.refreshStats, doomed.length)

def removeHighest : HistoryCache × Option CacheChange :=
  match c.maxSn with
  | none => (c, none)
  | some max =>
    let (c, change) := c.take max
    (c.refreshStats, change)

/-- Removes the changes up to `sn` that `remove` selects; the second component
is how many. -/
def removeUpToWhere (sn : Int) (remove : CacheChange → Bool) : HistoryCache × Nat :=
  let doomed := (c.changes.entries.filter fun e => e.1 ≤ sn && remove e.2).map Prod.fst
  let c' := doomed.foldl (fun c sn => (c.take sn).1) c
  (if doomed.isEmpty then c' else c'.refreshStats, doomed.length)

@[simp] theorem get_put (change : CacheChange) (sn : Int) :
    (c.put change).get sn = if sn = change.sequenceNumber then some change else c.get sn :=
  SortedMap.get?_insert _ _ _ _

@[simp] theorem get_newWithKind (kind : HistoryKind) (maxSamples : Nat) (sn : Int) :
    (newWithKind kind maxSamples).get sn = none := rfl

theorem get_removeUpTo (sn n : Int) :
    (c.removeUpTo sn).1.get n = if sn < n then c.get n else none := by
  have : (c.removeUpTo sn).1.changes = c.changes.filter fun k _ => sn < k := by
    unfold removeUpTo
    simp only
    split <;> rfl
  simp only [get, this, SortedMap.get?_filter]
  split
  · next h => cases c.changes.get? n <;> simp [h]
  · next h => cases c.changes.get? n <;> simp [h]

theorem get_take (sn n : Int) : (c.take sn).1.get n = if n = sn then none else c.get n := by
  unfold take
  split
  · next h =>
    split
    · next he => rw [he]; exact h
    · rfl
  · exact SortedMap.get?_erase _ _ _

variable {c c' : HistoryCache} {change : CacheChange}

theorem insert_keepAll (hkind : c.kind = .keepAll) (hdepth : c.perInstanceDepth = none)
    (change : CacheChange) :
    c.insert change =
      if c.changes.contains change.sequenceNumber then (c, .error .duplicateSequenceNumber)
      else if c.len ≥ c.maxSamples then (c, .error .capacityExceeded)
      else (c.put change, .ok none) := by
  simp [insert, effectiveMaxSamples, hkind, instanceVictim, hdepth, evictOpt]

variable {victim : Option Int} {n : Int} {ch : CacheChange}

theorem changes_evictOpt_of_none (h : c.evictOpt victim = (c', none)) : c'.changes = c.changes := by
  cases victim with
  | none =>
    obtain rfl := (Prod.mk.inj h).1
    rfl
  | some sn =>
    simp only [evictOpt, evict, take] at h
    cases hget : c.get sn with
    | none =>
      simp only [hget, Prod.mk.injEq] at h
      rw [← h.1]
    | some ch => simp [hget] at h

theorem changes_insert_of_error {e : CacheError} (h : c.insert change = (c', .error e)) :
    c'.changes = c.changes := by
  unfold insert at h
  split at h
  · obtain rfl := (Prod.mk.inj h).1
    rfl
  · split at h
    · obtain rfl := (Prod.mk.inj h).1
      rfl
    · rcases hevict : c.evictOpt (c.instanceVictim change) with ⟨c₁, _ | victim⟩
      · have hsame := changes_evictOpt_of_none hevict
        simp only [hevict] at h
        split at h
        · split at h
          · obtain rfl := (Prod.mk.inj h).1
            exact hsame
          · simp at h
        · simp at h
      · simp [hevict] at h

theorem get_of_insert_ok {evicted : Option CacheChange} (h : c.insert change = (c', .ok evicted)) :
    c'.get change.sequenceNumber = some change := by
  unfold insert at h
  split at h
  · simp at h
  · split at h
    · simp at h
    · simp only at h
      split at h
      · split at h
        · simp at h
        · obtain rfl := (Prod.mk.inj h).1
          simp
      · obtain rfl := (Prod.mk.inj h).1
        simp

theorem get_evictOpt_some (h : (c.evictOpt victim).1.get n = some ch) : c.get n = some ch := by
  cases victim with
  | none => exact h
  | some sn =>
    have hget : (c.take sn).1.get n = some ch := h
    rw [get_take] at hget
    split at hget
    · cases hget
    · exact hget

theorem get_insert_some (h : (c.insert change).1.get n = some ch) :
    c.get n = some ch ∨ n = change.sequenceNumber := by
  have hput : ∀ victim, ((c.evictOpt victim).1.put change).get n = some ch →
      c.get n = some ch ∨ n = change.sequenceNumber := by
    intro victim hget
    rw [get_put] at hget
    split at hget
    · next hn => exact .inr hn
    · exact .inl (get_evictOpt_some hget)
  unfold insert at h
  split at h
  · exact .inl h
  · split at h
    · exact .inl h
    · simp only at h
      split at h
      · split at h
        · exact .inl (get_evictOpt_some h)
        · simp only [get_put] at h
          split at h
          · next hn => exact .inr hn
          · exact .inl (get_evictOpt_some (get_evictOpt_some h))
      · exact hput _ h

end HistoryCache
end ZeroDds.Rtps
