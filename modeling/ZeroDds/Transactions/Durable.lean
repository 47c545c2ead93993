/-
Two-phase commit with a log.

The coordinator logs `preparing`, then its decision, then the completion, and calls the resources in
between; a crash may come before any of these writes and calls.
-/
import Mathlib.Data.Prod.Lex
import Mathlib.Data.List.Lex
import ZeroDds.Lib.Crashing
import ZeroDds.Lib.SortedMap

namespace ZeroDds.Transactions

abbrev Octet := Fin 256

structure Otid where
  formatId : Int
  bequeathLength : Int
  tid : List Octet
  deriving DecidableEq

abbrev Key := Int ×ₗ List Octet

def key (otid : Otid) : Key := toLex (otid.formatId, otid.tid)

inductive Vote where
  | commit
  | rollback
  | readOnly
  deriving DecidableEq

inductive HeuristicOutcome where
  | mixed
  | rollback
  | commit
  | hazard
  deriving DecidableEq

inductive Completion where
  | committed
  | rolledBack
  | heuristicMixed
  deriving DecidableEq

inductive TxOutcome where
  | commit
  | rollback
  deriving DecidableEq

inductive LogState where
  | preparing
  | decided (outcome : TxOutcome)
  | completed (outcome : TxOutcome)
  deriving DecidableEq

def LogState.inDoubt? : LogState → Option TxOutcome
  | decided outcome => some outcome
  | _ => none

structure Resource where
  id : Nat
  prepare : Vote
  commit : Except HeuristicOutcome Unit
  rollback : Except HeuristicOutcome Unit
  commitOnePhase : Except HeuristicOutcome Unit

inductive Call where
  | prepare (r : Resource)
  | commit (r : Resource)
  | rollback (r : Resource)
  | commitOnePhase (r : Resource)
  | forget (r : Resource)

structure InMemoryLog where
  records : SortedMap Key (Otid × LogState)
  keyed : ∀ k e, records.get? k = some e → key e.1 = k

namespace InMemoryLog

def record (log : InMemoryLog) (otid : Otid) (state : LogState) : InMemoryLog where
  records := log.records.insert (key otid) (otid, state)
  keyed k e he := by
    rw [SortedMap.get?_insert] at he
    split at he
    · next hk =>
      obtain rfl := Option.some.inj he
      exact hk.symm
    · exact log.keyed k e he

def get (log : InMemoryLog) (otid : Otid) : Option LogState :=
  (log.records.get? (key otid)).map Prod.snd

def inDoubt (log : InMemoryLog) : List (Otid × TxOutcome) :=
  log.records.values.filterMap fun e => e.2.inDoubt?.map fun outcome => (e.1, outcome)

end InMemoryLog

structure World where
  log : InMemoryLog
  calls : List (Otid × Call)

inductive Action where
  | record (otid : Otid) (state : LogState)
  | call (otid : Otid) (c : Call)

def World.apply (w : World) : Action → World
  | .record otid state => { w with log := w.log.record otid state }
  | .call otid c => { w with calls := w.calls ++ [(otid, c)] }

/-! ### The coordinator -/

abbrev Coordinator (β : Type) := Process World β

def record (otid : Otid) (state : LogState) : Coordinator Unit :=
  .perform World.apply (.record otid state)

def call (otid : Otid) (c : Call) : Coordinator Unit := .perform World.apply (.call otid c)

def commitPrepared (otid : Otid) (heuristic : Bool) (rv : Resource × Vote) : Coordinator Bool := do
  if rv.2 = .commit then
    call otid (.commit rv.1)
    match rv.1.commit with
    | .ok () => return heuristic
    | .error .commit => return heuristic
    | .error _ =>
      call otid (.forget rv.1)
      return true
  else return heuristic

def executePhaseTwo (otid : Otid) (resources : List Resource) (votes : List Vote)
    (outcome : TxOutcome) : Coordinator Completion :=
  match outcome with
  | .rollback => do
    (resources.zip votes).forM fun rv => do
      if rv.2 = .commit then call otid (.rollback rv.1)
    return .rolledBack
  | .commit => do
    let heuristic ← (resources.zip votes).foldlM (commitPrepared otid) false
    return if heuristic then .heuristicMixed else .committed

def onePhaseOutcome : Except HeuristicOutcome Unit → Completion × TxOutcome
  | .ok () => (.committed, .commit)
  | .error .rollback => (.rolledBack, .rollback)
  | .error _ => (.heuristicMixed, .commit)

def outcomeOf (votes : List Vote) : TxOutcome :=
  if .rollback ∈ votes then .rollback else .commit

def coordinateCommitDurable (otid : Otid) (resources : List Resource) : Coordinator Completion := do
  record otid .preparing
  match resources with
  | [] =>
    record otid (.completed .commit)
    return .committed
  | [r] =>
    record otid (.decided .commit)
    call otid (.commitOnePhase r)
    let (completion, outcome) := onePhaseOutcome r.commitOnePhase
    record otid (.completed outcome)
    return completion
  | resources =>
    let votes ← resources.mapM fun r => do
      call otid (.prepare r)
      return r.prepare
    let outcome := outcomeOf votes
    record otid (.decided outcome)
    let completion ← executePhaseTwo otid resources votes outcome
    record otid (.completed outcome)
    return completion

def replayCompletion (w : World) (otid : Otid) : TxOutcome :=
  match w.log.get otid with
  | some (.decided outcome) => outcome
  | some (.completed outcome) => outcome
  | _ => .rollback

def resyncCall : TxOutcome → Resource → Call
  | .commit, r => .commit r
  | .rollback, r => .rollback r

def recover (resourcesFor : Otid → List Resource) : Coordinator (List (Otid × TxOutcome)) := do
  let pending := (← Process.world).log.inDoubt
  pending.forM fun p => do
    (resourcesFor p.1).forM fun r => call p.1 (resyncCall p.2 r)
    record p.1 (.completed p.2)
  return pending

/-- The world after the coordinator got to perform `n` actions, and after it the
recoveries got to perform as many as `recoveries` says. -/
def afterCrashes (resourcesFor : Otid → List Resource) (otid : Otid) (resources : List Resource)
    (n : Nat) (recoveries : List Nat) (w : World) : World :=
  recoveries.foldl (fun w m => ((recover resourcesFor).attempt m w).2)
    ((coordinateCommitDurable otid resources).attempt n w).2

end ZeroDds.Transactions
