/-
Ingest.

Everything that arrived, into the cache, in the order it arrived.
-/
import ZeroDds.Dcps.DataReader

namespace ZeroDds.Dcps.DataReader

open Rtps (Octets)

variable {T : Type} (cfg : ReaderConfig T)

/-! ### Departed writers, LIFESPAN and autopurge -/

def pushDepartures (writer : WriterGuid) (now : Time) :
    DataReader T → List InstanceHandle → DataReader T
  | r, [] => r
  | r, handle :: rest =>
    match r.instances.getByHandle handle with
    | none => pushDepartures writer now r rest
    | some s => pushDepartures writer now
        (r.pushMarker (infoOf s handle now (writerPublicationHandle writer) false)) rest

def departWriter (now : Time) (r : DataReader T) (writer : WriterGuid) : DataReader T :=
  let (t, handles) := (r.instances.clearOwnerForWriter writer).dropWriter writer (some now)
  pushDepartures writer now { r with instances := t } handles

variable (r : DataReader T)

def applyUnmatchedWriters : DataReader T :=
  let r := { r with
    instances := r.strengthChanges.foldl (fun t c => t.updateOwnerStrength c.1 c.2) r.instances
    strengthChanges := [] }
  if r.gone.isEmpty then r
  else
    let (now, r) := r.wallNow cfg
    r.gone.foldl (departWriter now) { r with gone := [] }

def runReaderAutopurge (now : Time) : DataReader T :=
  if cfg.autopurgeDisposedNanos = u128Max ∧ cfg.autopurgeNowriterNanos = u128Max then r
  else
    let (t, purged) :=
      r.instances.autopurge now cfg.autopurgeDisposedNanos cfg.autopurgeNowriterNanos
    if purged.isEmpty then { r with instances := t }
    else
      { r with
        instances := t
        cache := r.cache.filter fun s =>
          decide (s.info.instanceHandle = handleNil) ||
            (t.getByHandle s.info.instanceHandle).isSome }

def drainExpired (now : Time) : InstanceTracker → List (CachedSample T) → InstanceTracker
  | t, [] => t
  | t, s :: rest =>
    if expired s.expiresAt now ∧ s.info.instanceHandle ≠ handleNil then
      drainExpired now (t.drainSamples s.info.instanceHandle 1) rest
    else drainExpired now t rest

def purgeExpiredByLifespan (now : Time) : DataReader T :=
  { r with
    instances := drainExpired now r.instances r.cache
    cache := r.cache.filter fun s => !expired s.expiresAt now }

def releaseRun (now : Time) :
    DataReader T → List RawIngestSample → DataReader T × Except DdsError (List StagedIngest)
  | r, [] => (r, .ok [])
  | r, raw :: rest =>
    match ingestAliveFiltered cfg r now raw false with
    | (r, .failed e) => (r, .error e)
    | (r, .refused _) =>
      let (r, back) := releaseRun now r rest
      (r, back.map (.alive raw :: ·))
    | (r, _) => releaseRun now r rest

def tbfDue (now : Time) : List RawIngestSample :=
  (r.tbfHold.filter fun _ held => decide (held.2 ≤ now)).values.map Prod.fst

def withoutDue (now : Time) : DataReader T :=
  { r with tbfHold := r.tbfHold.filter fun _ held => !decide (held.2 ≤ now) }

def releaseDueTbf : DataReader T × Except DdsError Bool :=
  let (now, r) := r.wallNow cfg
  if (r.tbfDue now).isEmpty then (r, .ok false)
  else match releaseRun cfg now (r.withoutDue now) (r.tbfDue now) with
    | (r, .error e) => (r, .error e)
    | (r, .ok back) => ({ r with heldBack := r.heldBack ++ back }, .ok true)

/-- The staged entries in order.  A refused sample ends the run with itself and what is
behind it, a failed one with an error. -/
def ingestRun (now : Time) :
    DataReader T → List StagedIngest → DataReader T × Except DdsError (List StagedIngest)
  | r, [] => (r, .ok [])
  | r, .lifecycle m :: rest => ingestRun now (ingestLifecycle cfg r m) rest
  | r, .alive raw :: rest =>
    match ingestAlive cfg r now raw with
    | (r, .failed e) => (r, .error e)
    | (r, .refused _) => (r, .ok (.alive raw :: rest))
    | (r, _) => ingestRun now r rest

def staged : List StagedIngest := r.heldBack ++ r.arrived

/-- Everything staged into the cache, then the writers that left and the instances past
their delay. -/
def ingestStaged : DataReader T × Except DdsError Unit :=
  let staged := r.staged
  let (now, r) := { r with heldBack := [], arrived := [] }.wallNow cfg
  match ingestRun cfg now (r.purgeExpiredByLifespan now) staged with
  | (r, .error e) => (r, .error e)
  | (r, .ok back) =>
    (runReaderAutopurge cfg (applyUnmatchedWriters cfg { r with heldBack := back }) now, .ok ())

def ingestPending : DataReader T × Except DdsError Unit :=
  match releaseDueTbf cfg r with
  | (r, .error e) => (r, .error e)
  | (r, .ok _) => ingestStaged cfg r

end ZeroDds.Dcps.DataReader
