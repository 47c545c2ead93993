/-
Reads and takes.

Every read and take ingests first and then works on the cache alone; the part after the
ingest is a definition of its own (`takeSelected`, `takeOfInstance`, `takeValues`,
`querySelected`, `readSelected`, `readOfInstance`, `readValues`).
-/
import ZeroDds.Dcps.Ingest

namespace ZeroDds.Dcps

def CachedSample.decodedOr {T : Type} (s : CachedSample T) (codec : TopicCodec T)
    (b : SampleBytes) : Except DecodeError T :=
  match s.decoded with
  | some sample => .ok sample
  | none => codec.decode b.octets s.representation s.bigEndian

namespace DataReader

variable {T : Type} (cfg : ReaderConfig T)

/-! ### What a read or take selects -/

def refreshed (t : InstanceTracker) (s : CachedSample T) : CachedSample T :=
  match t.getByHandle s.info.instanceHandle with
  | none => s
  | some st => { s with
      info := { s.info with
        instanceState := st.kind
        viewState := if st.readerViewNew then .new else .notNew } }

variable (r : DataReader T)

def refreshStates : DataReader T :=
  { r with cache := r.cache.map (refreshed r.instances) }

def unknownKeyText : String :=
  "the key of this instance is known by its hash only, which does not spell it out"

variable (handle : InstanceHandle) (s : CachedSample T)

def decodeOrKeyholder : Except DdsError T :=
  match s.bytes with
  | some b => (cfg.codec.decode b.octets s.representation s.bigEndian).mapError .wireError
  | none =>
    if !cfg.codec.keyed then
      match r.keylessLast with
      | some (b, representation, bigEndian) =>
        (cfg.codec.decode b representation bigEndian).mapError .wireError
      | none => .error (.badParameter "the instance of a topic without a key has no value yet")
    else match r.instances.getKeyHolder s.info.instanceHandle with
      | some holder => (cfg.codec.decodeKeyHolder holder).mapError .wireError
      | none => .error (.badParameter unknownKeyText)

def materialize : Except DdsError (Sample T) :=
  match s.decoded with
  | some data => .ok ⟨data, s.info⟩
  | none => (decodeOrKeyholder cfg r s).map fun data => ⟨data, s.info⟩

/-- A marker of an instance whose key is not known is refused before anything is
consumed. -/
def knowsLifecycleHolder : Bool :=
  s.bytes.isSome || (r.instances.getKeyHolder s.info.instanceHandle).isSome

structure Selection where
  masks : StateMasks
  instance? : Option InstanceHandle
  deriving DecidableEq

def Selection.wants (sel : Selection) (s : CachedSample T) : Bool :=
  s.info.matchesStates sel.masks && sel.instance?.all fun h => decide (s.info.instanceHandle = h)

/-- Takes what `wanted` accepts out of `cache`, `limit` samples at most: the samples handed
out, and what stays, or the error that ended the loop. -/
def drainWanted (r : DataReader T) (wanted : CachedSample T → Bool) (limit : Option Nat) :
    Nat → List (CachedSample T) → List (Sample T) × Except DdsError (List (CachedSample T))
  | _, [] => ([], .ok [])
  | taken, s :: rest =>
    if underLimit taken limit && wanted s then
      match materialize cfg r s with
      | .error e => ([], .error e)
      | .ok sample =>
        let (out, keep) := drainWanted r wanted limit (taken + 1) rest
        (sample :: out, keep)
    else
      let (out, keep) := drainWanted r wanted limit taken rest
      (out, keep.map (s :: ·))

/-! ### Order and ranks of what is handed out -/

def groupByInstance {α : Type} (handleOf : α → InstanceHandle) (items : List α) : List α :=
  items.mergeSort fun a b => decide (handleOf a ≤ handleOf b)

/-- The generations of the last of `infos` of the instance, `own` where there is none. -/
def lastGenerations (own : Int) (infos : List SampleInfo) : Int :=
  ((infos.filter fun i => i.instanceHandle = handle).getLast?.map (·.generations)).getD own

def countI32 {α : Type} (items : List α) : Int := items.foldl (fun n _ => wrapI32 (n + 1)) 0

/-- `compute_ranks`: how many follow in the batch, and how many generations lie between a
sample and the last of the batch and the instance now. -/
def computeRanks (t : InstanceTracker) : List SampleInfo → List SampleInfo
  | [] => []
  | i :: rest =>
    { i with
      sampleRank := countI32 (rest.filter fun j => j.instanceHandle = i.instanceHandle)
      generationRank := wrapI32
        (wrapI32 (lastGenerations i.instanceHandle i.generations rest) - wrapI32 i.generations)
      absoluteGenerationRank := wrapI32 (((t.getByHandle i.instanceHandle).map fun s =>
        wrapI32 (s.disposedGenerationCount + s.noWritersGenerationCount)).getD 0 -
          wrapI32 i.generations) } ::
      computeRanks t rest

def rankSamples (t : InstanceTracker) (out : List (Sample T)) : List (Sample T) :=
  List.zipWith (fun s i => { s with info := i }) out (computeRanks t (out.map (·.info)))

def presentByAccessScope (t : InstanceTracker) (out : List (Sample T)) : List (Sample T) :=
  rankSamples t (if cfg.presentation = .grouped then
    groupByInstance (fun s => s.info.instanceHandle) out else out)

def noteTakenEach : InstanceTracker → List (Sample T) → InstanceTracker
  | t, [] => t
  | t, s :: rest =>
    let t := t.markViewSeen s.info.instanceHandle
    noteTakenEach
      (if s.info.instanceHandle = handleNil then t else t.drainSamples s.info.instanceHandle 1) rest

/-- `take_core` after its ingest.  The loop drains the cache: an error loses what is in it. -/
def takeSelected (sel : Selection) (max : Option Nat) :
    DataReader T × Except DdsError (List (Sample T)) :=
  let r := r.refreshStates
  if (r.cache.filter sel.wants).any fun s => !r.knowsLifecycleHolder s then
    (r, .error (.badParameter unknownKeyText))
  else
    let (out, keep) :=
      drainWanted cfg r sel.wants (tighter cfg.presentationLimit max) 0 r.cache
    let t := noteTakenEach r.instances out
    match keep with
    | .error e => ({ r with instances := t, cache := [] }, .error e)
    | .ok keep =>
      ({ r with instances := t, cache := keep }, .ok (presentByAccessScope cfg t out))

def ofInstance : Bool :=
  decide (s.info.instanceHandle = handle)

def takeOfInstance : DataReader T × Except DdsError (List (Sample T)) :=
  let r := r.refreshStates
  if (r.cache.filter (ofInstance handle)).any fun s => !r.knowsLifecycleHolder s then
    (r, .error (.badParameter unknownKeyText))
  else
    let (out, keep) := drainWanted cfg r (ofInstance handle) cfg.presentationLimit 0 r.cache
    match keep with
    | .error e => ({ r with cache := [] }, .error e)
    | .ok keep =>
      let t := if out.isEmpty then r.instances
        else (r.instances.markViewSeen handle).drainSamples handle (out.length % 4294967296)
      ({ r with instances := t, cache := keep }, .ok (rankSamples t out))

/-- The loop of `take_with_wire`: markers and discarded samples go with nothing handed
out. -/
def drainValues (limit : Option Nat) :
    Nat → List (CachedSample T) →
      List (InstanceHandle × T × Option SampleWire) × Except DdsError (List (CachedSample T))
  | _, [] => ([], .ok [])
  | taken, s :: rest =>
    if !underLimit taken limit then ([], .ok (s :: rest))
    else match s.bytes with
      | none => drainValues limit taken rest
      | some b =>
        match s.decodedOr cfg.codec b with
        | .ok sample =>
          let (out, keep) := drainValues limit (taken + 1) rest
          ((s.info.instanceHandle, sample, b.wire) :: out, keep)
        | .error e =>
          if e.isDiscarded then drainValues limit taken rest
          else ([], .error (.wireError e))

def takenRuns : List InstanceHandle → List (InstanceHandle × Nat)
  | [] => []
  | h :: rest => match takenRuns rest with
    | [] => [(h, 1)]
    | (h', n) :: runs => if h = h' then (h, n + 1) :: runs else (h, 1) :: (h', n) :: runs

def noteTakenRuns (t : InstanceTracker) (handles : List InstanceHandle) : InstanceTracker :=
  (takenRuns (handles.filter (· ≠ handleNil))).foldl (fun t run => t.noteTaken run.1 run.2) t

def takeValues : DataReader T × Except DdsError (List (T × Option SampleWire)) :=
  let (out, keep) := drainValues cfg cfg.presentationLimit 0 r.cache
  let t := noteTakenRuns r.instances (out.map Prod.fst)
  match keep with
  | .error e => ({ r with instances := t, cache := [] }, .error e)
  | .ok keep =>
    let out := if cfg.presentation = .grouped then groupByInstance Prod.fst out else out
    ({ r with instances := t, cache := keep }, .ok (out.map Prod.snd))

/-- A read or query condition.  An expression that cannot be evaluated accepts nothing. -/
structure QueryCondition (T : Type) where
  masks : StateMasks
  accepts : Option (T → Bool)
  orderBy : Option (T → T → Bool)

def chooseMatching (r : DataReader T) (cond : QueryCondition T) (sel : Selection) :
    Nat → List (CachedSample T) → Except DdsError (List (Nat × Sample T))
  | _, [] => .ok []
  | index, s :: rest =>
    if !sel.wants s then chooseMatching r cond sel (index + 1) rest
    else match decodeOrKeyholder cfg r s with
      | .error e => .error e
      | .ok data =>
        let chosen := chooseMatching r cond sel (index + 1) rest
        if cond.accepts.all fun accepts => accepts data then
          chosen.map ((index, ⟨data, s.info⟩) :: ·)
        else chosen

def orderChosen (cond : QueryCondition T) (chosen : List (Nat × Sample T)) :
    List (Nat × Sample T) :=
  match cond.orderBy with
  | none =>
    if cfg.presentation = .grouped then groupByInstance (fun c => c.2.info.instanceHandle) chosen
    else chosen
  | some le => chosen.mergeSort fun a b => le a.2.data b.2.data

def markRead : CachedSample T :=
  { s with info := { s.info with sampleState := .read } }

def querySelected (cond : QueryCondition T) (max : Option Nat) (take : Bool)
    (instance? : Option InstanceHandle) : DataReader T × Except DdsError (List (Sample T)) :=
  let sel : Selection := ⟨cond.masks, instance?⟩
  let r := r.refreshStates
  if take && (r.cache.filter sel.wants).any fun s => !r.knowsLifecycleHolder s then
    (r, .error (.badParameter unknownKeyText))
  else match chooseMatching cfg r cond sel 0 r.cache with
    | .error e => (r, .error e)
    | .ok chosen =>
      let ordered := orderChosen cfg cond chosen
      let chosen := match tighter cfg.presentationLimit max with
        | none => ordered
        | some limit => ordered.take limit
      let out := chosen.map Prod.snd
      let places := chosen.map Prod.fst
      if take then
        let t := noteTakenEach r.instances out
        let cache := (r.cache.zipIdx.filter fun e => !places.contains e.2).map Prod.fst
        ({ r with instances := t, cache := cache }, .ok (rankSamples t out))
      else
        let t := out.foldl (fun t s => t.markViewSeen s.info.instanceHandle) r.instances
        let cache := r.cache.zipIdx.map fun e =>
          if places.contains e.2 then markRead e.1 else e.1
        ({ r with instances := t, cache := cache }, .ok (rankSamples t out))

def nextInstanceWithSamples (previous : InstanceHandle) : Option InstanceHandle :=
  ((r.cache.map (·.info.instanceHandle)).filter fun h =>
    decide (h ≠ handleNil) && decide (previous < h)).min?

/-- The loop of a read: `pick` skips a sample, hands it out or fails.  What was read before
an error stays read. -/
def readLoop (pick : CachedSample T → Option (Except DdsError (Sample T)))
    (limit : Option Nat) :
    Nat → List (CachedSample T) → List (Sample T) × List (CachedSample T) × Option DdsError
  | _, [] => ([], [], none)
  | n, s :: rest =>
    if !underLimit n limit then ([], s :: rest, none)
    else match pick s with
      | none =>
        let (out, cache, e) := readLoop pick limit n rest
        (out, s :: cache, e)
      | some (.error e) => ([], s :: rest, some e)
      | some (.ok sample) =>
        let (out, cache, e) := readLoop pick limit (n + 1) rest
        (sample :: out, markRead s :: cache, e)

def readWith (pick : CachedSample T → Option (Except DdsError (Sample T))) (limit : Option Nat) :
    DataReader T × Except DdsError (List (Sample T)) :=
  let (out, cache, e) := readLoop pick limit 0 r.cache
  let t := out.foldl (fun t s => t.markViewSeen s.info.instanceHandle) r.instances
  ({ r with instances := t, cache := cache }, match e with
    | some e => .error e
    | none => .ok out)

def pickWanted (wanted : CachedSample T → Bool) (s : CachedSample T) :
    Option (Except DdsError (Sample T)) :=
  if wanted s then some ((decodeOrKeyholder cfg r s).map fun data => ⟨data, s.info⟩) else none

def pickValue : Option (Except DdsError (Sample T)) :=
  match s.bytes with
  | none => none
  | some b => match cfg.codec.decode b.octets s.representation s.bigEndian with
    | .ok data => some (.ok ⟨data, s.info⟩)
    | .error e => if e.isDiscarded then none else some (.error (.wireError e))

def readSelected (sel : Selection) (max : Option Nat) :
    DataReader T × Except DdsError (List (Sample T)) :=
  let r := r.refreshStates
  let (r, out) := r.readWith (pickWanted cfg r sel.wants) (tighter cfg.presentationLimit max)
  (r, out.map (presentByAccessScope cfg r.instances))

def readOfInstance : DataReader T × Except DdsError (List (Sample T)) :=
  let r := r.refreshStates
  let (r, out) := r.readWith (pickWanted cfg r (ofInstance handle)) cfg.presentationLimit
  (r, out.map (rankSamples r.instances))

def readValues : DataReader T × Except DdsError (List T) :=
  let (r, out) := r.readWith (pickValue cfg) cfg.presentationLimit
  (r, out.map fun out =>
    (if cfg.presentation = .grouped then
      groupByInstance (fun s => s.info.instanceHandle) out else out).map (·.data))

def afterIngest {α : Type} (r : DataReader T)
    (op : DataReader T → DataReader T × Except DdsError α) : DataReader T × Except DdsError α :=
  match ingestPending cfg r with
  | (r, .error e) => (r, .error e)
  | (r, .ok _) => op r

def takeWithWire : DataReader T × Except DdsError (List (T × Option SampleWire)) :=
  afterIngest cfg r (takeValues cfg)

def takeCore (sel : Selection) (max : Option Nat) :
    DataReader T × Except DdsError (List (Sample T)) :=
  afterIngest cfg r fun r => takeSelected cfg r sel max

def takeFiltered (masks : StateMasks) : DataReader T × Except DdsError (List (Sample T)) :=
  takeCore cfg r ⟨masks, none⟩ none

def takeInstance : DataReader T × Except DdsError (List (Sample T)) :=
  if handle = handleNil then (r, .error (.badParameter "take_instance with HANDLE_NIL"))
  else afterIngest cfg r fun r => takeOfInstance cfg r handle

def takeNextInstance (previous : InstanceHandle) :
    DataReader T × Except DdsError (List (Sample T)) :=
  afterIngest cfg r fun r => match r.nextInstanceWithSamples previous with
    | none => (r, .ok [])
    | some next => takeInstance cfg r next

def queryCore (cond : QueryCondition T) (max : Option Nat) (take : Bool)
    (instance? : Option InstanceHandle) : DataReader T × Except DdsError (List (Sample T)) :=
  afterIngest cfg r fun r => querySelected cfg r cond max take instance?

def takeWCondition (cond : QueryCondition T) : DataReader T × Except DdsError (List (Sample T)) :=
  queryCore cfg r cond none true none

def read : DataReader T × Except DdsError (List T) :=
  afterIngest cfg r (readValues cfg)

def readCore (sel : Selection) (max : Option Nat) :
    DataReader T × Except DdsError (List (Sample T)) :=
  afterIngest cfg r fun r => readSelected cfg r sel max

def readInstance : DataReader T × Except DdsError (List (Sample T)) :=
  if handle = handleNil then (r, .error (.badParameter "read_instance with HANDLE_NIL"))
  else afterIngest cfg r fun r => readOfInstance cfg r handle

def readNextInstance (previous : InstanceHandle) :
    DataReader T × Except DdsError (List (Sample T)) :=
  afterIngest cfg r fun r => match r.nextInstanceWithSamples previous with
    | none => (r, .ok [])
    | some next => readInstance cfg r next

end DataReader
end ZeroDds.Dcps
