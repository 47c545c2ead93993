/-
The engine of a MultiTopic reader.

The engine reads the topics of the plan through readers of its own.
-/
import ZeroDds.Lib.Bytes
import ZeroDds.Lib.Run
import ZeroDds.Lib.Search
import ZeroDds.MultiTopic.Plan
import ZeroDds.Rtps.HistoryCache

namespace ZeroDds.MultiTopic

open Dcps (KeyHash Time InstanceHandle InstanceStateKind keylessInstanceKey)
open Rtps (Octets ChangeKind)

/-- What the engine remembers of one instance of a topic.  A result sample has been
made of it since it was last NEW when it has `contributed`. -/
structure SourceInstance where
  row : Option Row
  state : InstanceStateKind
  contributed : Bool

abbrev Tuple := List InstanceHandle

structure Combo where
  keyHash : KeyHash
  keyHolder : Octets
  state : InstanceStateKind
  deriving DecidableEq

structure EngineState where
  instances : List (SortedMap InstanceHandle SourceInstance)
  combos : SortedMap Tuple Combo
  /-- The result instances whose view state the engine reset to NEW, in order. -/
  viewNew : List KeyHash

def EngineState.new (n : Nat) : EngineState := ⟨List.replicate n .empty, .empty, []⟩

/-- What the engine puts into the result reader's inbox.  The fields it always gives
the same value (no writer, XCDR2 in little-endian, no coherent set, no group) are
left out. -/
inductive UserSample where
  | alive (keyHash : Option KeyHash) (payload : Octets) (sourceTimestamp : Time)
  | lifecycle (keyHash : KeyHash) (keyHolder : Option Octets) (kind : ChangeKind)
      (sourceTimestamp : Time)
  deriving DecidableEq

def UserSample.key : UserSample → KeyHash
  | alive keyHash _ _ => keyHash.getD keylessInstanceKey
  | lifecycle keyHash _ _ _ => keyHash

def UserSample.isAlive : UserSample → Bool
  | alive .. => true
  | lifecycle .. => false

/-- A sample as a source reader hands it over, with the expression parameters current
when the engine evaluates it. -/
structure Taken (Value : Type) where
  instanceHandle : InstanceHandle
  sourceTimestamp : Time
  validData : Bool
  instanceState : InstanceStateKind
  data : DynamicData
  parameters : List Value

namespace EngineState

variable (s : EngineState)

def instance? (i : Nat) (h : InstanceHandle) : Option SourceInstance :=
  s.instances[i]?.bind (·.get? h)

def row? (i : Nat) (h : InstanceHandle) : Option Row :=
  (s.instance? i h).bind SourceInstance.row

def state? (i : Nat) (h : InstanceHandle) : Option InstanceStateKind :=
  (s.instance? i h).map SourceInstance.state

def insert (s : EngineState) (i : Nat) (h : InstanceHandle) (x : SourceInstance) : EngineState :=
  { s with instances := s.instances.modify i (·.insert h x) }

def contribute (t : Tuple) : EngineState :=
  { s with instances := s.instances.mapIdx fun i m =>
      t[i]?.elim m fun h => m.modify h ({ · with contributed := true }) }

def constituentNew (t : Tuple) : Bool :=
  t.zipIdx.any fun (h, i) => (s.instance? i h).any (!·.contributed)

end EngineState

variable {τ Expr Value ε : Type} [SqlFilter Expr Value]

def sameMember (a b : Row) (name : String) : Bool :=
  match a.value name, b.value name with
  | some x, some y => x.eq y
  | _, _ => false

variable (plan : MultiTopicPlan τ Expr) (s : EngineState) (index : Nat)

/-- The instance `candidate` of topic `next` has the value of each earlier instance
of the tuple in every member they share. -/
def agrees (chosen : Tuple) (next : Nat) (candidate : InstanceHandle) : Bool :=
  match s.row? next candidate with
  | none => false
  | some row => chosen.zipIdx.all fun (h, earlier) =>
    match plan.shared.get? (toLex (earlier, next)) with
    | none => true
    | some names =>
      match s.row? earlier h with
      | none => false
      | some earlierRow => names.all (sameMember earlierRow row)

def liveInstances (i : Nat) : List InstanceHandle :=
  ((s.instances.getD i .empty).filter fun _ x => x.row.isSome && x.state = .alive).keys

def candidates (fixedIndex : Nat) (fixedHandle : InstanceHandle) (next : Nat) :
    List InstanceHandle :=
  if next = fixedIndex then [fixedHandle] else liveInstances s next

def extendTuple (plan : MultiTopicPlan τ Expr) (s : EngineState) (fixedIndex : Nat)
    (fixedHandle : InstanceHandle) : Nat → Tuple → List Tuple
  | 0, chosen => [chosen]
  | rest + 1, chosen =>
    (candidates s fixedIndex fixedHandle chosen.length).flatMap fun candidate =>
      if agrees plan s chosen chosen.length candidate then
        extendTuple plan s fixedIndex fixedHandle rest (chosen ++ [candidate])
      else []

def tuples (handle : InstanceHandle) : List Tuple :=
  extendTuple plan s index handle s.instances.length []

/-- The value of a column in a tuple, given the latest rows: that of the first topic
that has the column and a value for it. -/
def columnValue (rows : Nat → InstanceHandle → Option Row) (t : Tuple) (column : String) :
    Option DynamicData :=
  t.zipIdx.findSome? fun p =>
    if (plan.members.getD p.2 []).contains column then
      (rows p.2 p.1).bind (Row.value · column)
    else none

def joined (rows : Nat → InstanceHandle → Option Row) (t : Tuple) : Row :=
  plan.columns.filterMap fun column =>
    (columnValue plan rows t column).map fun v => (column, v)

def withAliases (row : Row) : Row :=
  row ++ plan.aliases.filterMap fun a =>
    (valueAt (.aggregate row) a.path).map fun v => (a.name, v)

def satisfies (row : Row) (parameters : List Value) : Bool :=
  match plan.condition with
  | none => true
  | some condition =>
    match SqlFilter.evaluate condition
        (SqlFilter.dynamicFieldValue Expr (.aggregate (withAliases plan row))) parameters with
    | .ok b => b
    | .error _ => false

def selected (row : Row) : Option Row :=
  plan.outputs.mapM fun o => (valueAt (.aggregate row) o.path).map fun v => (o.name, v)

/-- The result sample of a tuple, if the condition lets its row through, every field
has a value and the result type takes them. -/
def resultOf (parameters : List Value) (t : Tuple) : Option SerializedSample :=
  let row := joined plan s.row? t
  if satisfies plan row parameters then
    (selected plan row).bind fun fields =>
      (plan.result.fromDynamicData (.aggregate fields)).toOption
  else none

def SerializedSample.keyMaterial (sample : SerializedSample) : KeyHash × Octets :=
  sample.key.getD (keylessInstanceKey, [])

def SerializedSample.entry (sample : SerializedSample) (stamp : Time) : UserSample :=
  .alive (sample.key.map Prod.fst) sample.body stamp

def emitTuple (stamp : Time) (parameters : List Value) (acc : EngineState × List UserSample)
    (t : Tuple) : EngineState × List UserSample :=
  match resultOf plan acc.1 parameters t with
  | none => acc
  | some sample =>
    let key := sample.keyMaterial
    let viewNew := if acc.1.constituentNew t then acc.1.viewNew ++ [key.1] else acc.1.viewNew
    let s := acc.1.contribute t
    ({ s with combos := s.combos.insert t ⟨key.1, key.2, .alive⟩, viewNew },
      acc.2 ++ [sample.entry stamp])

/-- A sample of an instance: a result sample for each tuple it forms that the
condition lets through. -/
def emit (handle : InstanceHandle) (stamp : Time) (parameters : List Value) :
    EngineState × List UserSample :=
  (tuples plan s index handle).foldl (emitTuple plan stamp parameters) (s, [])

def tupleState (t : Tuple) : InstanceStateKind :=
  if t.zipIdx.any fun (h, i) => s.state? i h = some .notAliveDisposed then .notAliveDisposed
  else if t.zipIdx.any fun (h, i) => s.state? i h = some .notAliveNoWriters then .notAliveNoWriters
  else .alive

def markerKind : InstanceStateKind → Option ChangeKind
  | .notAliveDisposed => some .notAliveDisposed
  | .notAliveNoWriters => some .notAliveUnregistered
  | .alive => none

def markerOf (stamp : Time) (t : Tuple) (c : Combo) : Option UserSample :=
  if tupleState s t = c.state then none
  else (markerKind (tupleState s t)).map fun kind =>
    .lifecycle c.keyHash (if c.keyHolder.isEmpty then none else some c.keyHolder) kind stamp

theorem markerOf_eq_none_iff {s : EngineState} {stamp : Time} {t : Tuple} {c : Combo} :
    markerOf s stamp t c = none ↔ tupleState s t = c.state ∨ tupleState s t = .alive := by
  unfold markerOf
  by_cases h : tupleState s t = c.state
  · simp [h]
  · rw [if_neg h, Option.map_eq_none_iff, or_iff_right h]
    cases tupleState s t <;> simp [markerKind]

def Through (handle : InstanceHandle) (t : Tuple) : Prop := t[index]? = some handle

instance (index : Nat) (handle : InstanceHandle) (t : Tuple) :
    Decidable (Through index handle t) :=
  inferInstanceAs (Decidable (t[index]? = some handle))

/-- The state of an instance changed: every recorded tuple it belongs to takes its new
state, and those that are no longer alive, or not alive in another way, are told. -/
def retire (handle : InstanceHandle) (stamp : Time) : EngineState × List UserSample :=
  ({ s with combos := s.combos.mapWithKey fun t c =>
      if Through index handle t then { c with state := tupleState s t } else c },
    s.combos.entries.filterMap fun (t, c) =>
      if Through index handle t then markerOf s stamp t c else none)

/-! ### One sample, and a pump -/

/-- A data sample recorded: its row is the latest, the instance is alive, and it is NEW
unless it was alive and had contributed. -/
def record (sample : Taken Value) : EngineState :=
  s.insert index sample.instanceHandle
    { row := some (sample.data.members.getD [])
      state := .alive
      contributed := (s.instance? index sample.instanceHandle).any fun x =>
        x.state = .alive && x.contributed }

def change (sample : Taken Value) : EngineState :=
  s.insert index sample.instanceHandle
    { row := s.row? index sample.instanceHandle
      state := sample.instanceState
      contributed := (s.instance? index sample.instanceHandle).any SourceInstance.contributed }

def arrive (a : Nat × Taken Value) : EngineState × List UserSample :=
  if a.2.validData then
    emit plan (record s a.1 a.2) a.1 a.2.instanceHandle a.2.sourceTimestamp a.2.parameters
  else retire (change s a.1 a.2) a.1 a.2.instanceHandle a.2.sourceTimestamp

def arriveAll (samples : List (Taken Value)) (acc : EngineState × List UserSample) :
    EngineState × List UserSample :=
  samples.foldl (fun acc sample =>
    let r := arrive plan acc.1 (index, sample)
    (r.1, acc.2 ++ r.2)) acc

/-- The readers from `index` on, each with what its take returns.  A take that fails
ends the loop: the state keeps what the takes before it did, and what they produced
is dropped. -/
def takeAll (plan : MultiTopicPlan τ Expr) : Nat → EngineState × List UserSample →
    List (Except ε (List (Taken Value))) → EngineState × Except ε (List UserSample)
  | _, acc, [] => (acc.1, .ok acc.2)
  | _, acc, .error e :: _ => (acc.1, .error e)
  | index, acc, .ok samples :: takes =>
    takeAll plan (index + 1) (arriveAll plan index samples acc) takes

structure Engine where
  state : EngineState
  sink : List UserSample

def pump (e : Engine) (takes : List (Except ε (List (Taken Value)))) : Engine × Except ε Nat :=
  match takeAll plan 0 (e.state, []) takes with
  | (s, .ok produced) => (⟨s, e.sink ++ produced⟩, .ok produced.length)
  | (s, .error err) => (⟨s, e.sink⟩, .error err)

def pumps (e : Engine) (calls : List (List (Except ε (List (Taken Value))))) : Engine :=
  calls.foldl (fun e takes => (pump plan e takes).1) e

/-! ### What the operations leave of the instances -/

namespace EngineState

section

variable (s : EngineState)

@[simp] theorem length_insert (i : Nat) (h : InstanceHandle) (x : SourceInstance) :
    (s.insert i h x).instances.length = s.instances.length :=
  List.length_modify ..

theorem instance?_insert {i : Nat} (hi : i < s.instances.length)
    (h : InstanceHandle) (x : SourceInstance) (j : Nat) (k : InstanceHandle) :
    (s.insert i h x).instance? j k = if j = i ∧ k = h then some x else s.instance? j k := by
  rw [instance?, instance?, insert, List.getElem?_modify]
  by_cases hj : i = j
  · subst hj
    rw [List.getElem?_eq_getElem hi]
    simp only [if_true, Option.map_eq_map, Option.map_some, Option.bind_some,
      SortedMap.get?_insert, true_and]
  · rw [if_neg (fun e => hj e.1.symm)]
    simp only [if_neg hj, id_map']

theorem instance?_contribute (t : Tuple) (i : Nat) (h : InstanceHandle) :
    (s.contribute t).instance? i h =
      (s.instance? i h).map fun x =>
        if t[i]? = some h then { x with contributed := true } else x := by
  rw [instance?, instance?, contribute, List.getElem?_mapIdx]
  cases s.instances[i]? with
  | none => rfl
  | some m =>
    simp only [Option.map_some, Option.bind_some]
    cases ht : t[i]? with
    | none => simp
    | some k =>
      rw [Option.elim_some, SortedMap.get?_modify]
      by_cases hk : h = k
      · subst hk
        simp
      · have hne : ¬ some k = some h := fun e => hk (Option.some.inj e).symm
        rw [if_neg hk]
        simp only [if_neg hne, Option.map_id_fun', id]

@[simp] theorem row?_contribute (t : Tuple) : (s.contribute t).row? = s.row? := by
  funext i h
  rw [row?, row?, instance?_contribute]
  cases s.instance? i h with
  | none => rfl
  | some x =>
    split <;> rfl

@[simp] theorem state?_contribute (t : Tuple) : (s.contribute t).state? = s.state? := by
  funext i h
  rw [state?, state?, instance?_contribute]
  cases s.instance? i h with
  | none => rfl
  | some x =>
    split <;> rfl

@[simp] theorem length_contribute (t : Tuple) :
    (s.contribute t).instances.length = s.instances.length := List.length_mapIdx

end

end EngineState

/-! ### What `emit` does -/

variable {plan : MultiTopicPlan τ Expr} {s : EngineState}

theorem resultOf_congr {s' : EngineState} (h : s.row? = s'.row?) (parameters : List Value) :
    resultOf plan s parameters = resultOf plan s' parameters := by
  funext t
  simp [resultOf, h]

def comboOf (sample : SerializedSample) : Combo :=
  ⟨sample.keyMaterial.1, sample.keyMaterial.2, .alive⟩

def results (plan : MultiTopicPlan τ Expr) (s : EngineState) (parameters : List Value)
    (ts : List Tuple) : List (Tuple × SerializedSample) :=
  ts.filterMap fun t => (resultOf plan s parameters t).map fun sample => (t, sample)

variable {parameters : List Value} {ts : List Tuple}

theorem mem_results {t : Tuple} {sample : SerializedSample} :
    (t, sample) ∈ results plan s parameters ts ↔
      t ∈ ts ∧ resultOf plan s parameters t = some sample := by
  simp only [results, List.mem_filterMap, Option.map_eq_some_iff, Prod.mk.injEq]
  constructor
  · rintro ⟨u, hu, x, hx, rfl, rfl⟩
    exact ⟨hu, hx⟩
  · rintro ⟨ht, hs⟩
    exact ⟨t, ht, sample, hs, rfl, rfl⟩

theorem nodup_results (h : ts.Nodup) : ((results plan s parameters ts).map Prod.fst).Nodup := by
  refine h.sublist ?_
  induction ts with
  | nil => exact List.Sublist.refl _
  | cons t ts ih =>
    rw [results, List.filterMap_cons]
    cases resultOf plan s parameters t with
    | none => exact (ih h.of_cons).cons t
    | some sample => exact (ih h.of_cons).cons_cons t

structure Emitted (s : EngineState) (rs : List (Tuple × SerializedSample)) (s' : EngineState) :
    Prop where
  length : s'.instances.length = s.instances.length
  row : s'.row? = s.row?
  state : s'.state? = s.state?
  combos : s'.combos = s.combos.insertAll (rs.map fun r => (r.1, comboOf r.2))

theorem foldl_emitTuple (plan : MultiTopicPlan τ Expr) (stamp : Time) (parameters : List Value)
    (ts : List Tuple) (acc : EngineState × List UserSample) :
    Emitted acc.1 (results plan acc.1 parameters ts)
      (ts.foldl (emitTuple plan stamp parameters) acc).1 ∧
    (ts.foldl (emitTuple plan stamp parameters) acc).2 =
      acc.2 ++ (results plan acc.1 parameters ts).map fun r => r.2.entry stamp := by
  induction ts generalizing acc with
  | nil => exact ⟨⟨rfl, rfl, rfl, rfl⟩, (List.append_nil _).symm⟩
  | cons t ts ih =>
    obtain ⟨he, hout⟩ := ih (emitTuple plan stamp parameters acc t)
    rw [List.foldl_cons]
    cases hr : resultOf plan acc.1 parameters t with
    | none =>
      have hsame : emitTuple plan stamp parameters acc t = acc := by simp [emitTuple, hr]
      have hres : results plan acc.1 parameters (t :: ts) = results plan acc.1 parameters ts := by
        rw [results, List.filterMap_cons, hr]
        rfl
      rw [hsame] at he hout ⊢
      rw [hres]
      exact ⟨he, hout⟩
    | some sample =>
      have hrow : (emitTuple plan stamp parameters acc t).1.row? = acc.1.row? := by
        simp only [emitTuple, hr]
        exact EngineState.row?_contribute acc.1 t
      have hres : results plan acc.1 parameters (t :: ts) =
          (t, sample) :: results plan (emitTuple plan stamp parameters acc t).1 parameters ts := by
        rw [results, List.filterMap_cons, hr]
        simp [results, resultOf_congr hrow]
      rw [hres]
      refine ⟨⟨he.length.trans ?_, he.row.trans hrow, he.state.trans ?_, he.combos.trans ?_⟩,
        hout.trans ?_⟩
      · simp only [emitTuple, hr]
        exact EngineState.length_contribute acc.1 t
      · simp only [emitTuple, hr]
        exact EngineState.state?_contribute acc.1 t
      · simp only [emitTuple, hr, List.map_cons]
        rfl
      · simp [emitTuple, hr]

theorem emit_eq (plan : MultiTopicPlan τ Expr) (s : EngineState) (index : Nat)
    (handle : InstanceHandle) (stamp : Time) (parameters : List Value) :
    Emitted s (results plan s parameters (tuples plan s index handle))
      (emit plan s index handle stamp parameters).1 ∧
    (emit plan s index handle stamp parameters).2 =
      (results plan s parameters (tuples plan s index handle)).map fun r => r.2.entry stamp := by
  have h := foldl_emitTuple plan stamp parameters (tuples plan s index handle) (s, [])
  exact h

def arrivals (index : Nat) : List (List (Taken Value)) → List (Nat × Taken Value)
  | [] => []
  | samples :: takes => samples.map (fun sample => (index, sample)) ++ arrivals (index + 1) takes

def produced (h : History (Nat × Taken Value) (List UserSample)) : List UserSample :=
  h.flatMap Prod.snd

section

variable (plan : MultiTopicPlan τ Expr)

theorem arriveAll_eq (index : Nat) (samples : List (Taken Value))
    (acc : EngineState × List UserSample) :
    arriveAll plan index samples acc =
      ((run (arrive plan) acc.1 (samples.map fun sample => (index, sample))).1,
        acc.2 ++
          produced (run (arrive plan) acc.1 (samples.map fun sample => (index, sample))).2) := by
  induction samples generalizing acc with
  | nil => simp [arriveAll, run, produced]
  | cons sample samples ih =>
    have hcons : arriveAll plan index (sample :: samples) acc =
        arriveAll plan index samples ((arrive plan acc.1 (index, sample)).1,
          acc.2 ++ (arrive plan acc.1 (index, sample)).2) := rfl
    rw [hcons, ih]
    simp [run, produced]

theorem takeAll_ok_append (before : List (List (Taken Value)))
    (rest : List (Except ε (List (Taken Value)))) (index : Nat)
    (acc : EngineState × List UserSample) :
    takeAll plan index acc (before.map .ok ++ rest) =
      takeAll plan (index + before.length)
        ((run (arrive plan) acc.1 (arrivals index before)).1,
          acc.2 ++ produced (run (arrive plan) acc.1 (arrivals index before)).2) rest := by
  induction before generalizing index acc with
  | nil => simp [arrivals, run, produced]
  | cons samples before ih =>
    rw [List.map_cons, List.cons_append, takeAll, ih, arriveAll_eq, arrivals, run_append]
    simp only [List.length_cons, produced, List.flatMap_append, List.append_assoc]
    rw [Nat.add_assoc, Nat.add_comm 1]

theorem pump_of_ok (e : Engine) (takes : List (List (Taken Value))) :
    (pump (ε := ε) plan e (takes.map .ok)).1 =
      ⟨(run (arrive plan) e.state (arrivals 0 takes)).1,
        e.sink ++ produced (run (arrive plan) e.state (arrivals 0 takes)).2⟩ := by
  have h := takeAll_ok_append (ε := ε) plan takes [] 0 (e.state, [])
  rw [List.append_nil] at h
  rw [pump, h]
  simp [takeAll]

theorem pump_of_error (e : Engine)
    (before : List (List (Taken Value))) (err : ε) (rest : List (Except ε (List (Taken Value)))) :
    (pump plan e (before.map .ok ++ .error err :: rest)).1 =
      ⟨(run (arrive plan) e.state (arrivals 0 before)).1, e.sink⟩ := by
  rw [pump, takeAll_ok_append]
  rfl

theorem pumps_of_ok (e : Engine) (calls : List (List (List (Taken Value)))) :
    pumps (ε := ε) plan e (calls.map fun takes => takes.map .ok) =
      ⟨(run (arrive plan) e.state (calls.flatMap (arrivals 0))).1,
        e.sink ++ produced (run (arrive plan) e.state (calls.flatMap (arrivals 0))).2⟩ := by
  induction calls generalizing e with
  | nil => simp [pumps, run, produced]
  | cons takes calls ih =>
    rw [List.map_cons, pumps, List.foldl_cons, ← pumps, pump_of_ok, ih, List.flatMap_cons,
      run_append]
    simp [produced]

end

/-! ### Topics of longs

The structures of the worked examples: their members are of the type `long`, some of
them the key, and a condition compares one of them with a bound. -/

namespace Fixture

inductive Field where
  | id
  | customer
  | amount
  | country
  deriving DecidableEq

def Field.text : Field → String
  | id => "id"
  | customer => "customer"
  | amount => "amount"
  | country => "country"

inductive LongType where
  | long
  | record (name : String) (fields : List Field)
  deriving DecidableEq

instance : DynamicTypes LongType where
  resolveAlias := .ok
  kind
    | .long => .int32
    | .record .. => .structureType
  qualifiedName
    | .long => "long"
    | .record name _ => name
  baseType _ := none
  members
    | .long => []
    | .record _ fields => fields.map fun f => ⟨f.text, .ok .long, false⟩
  equalsIgnoringAnnotations a b := decide (a = b)

def longOf (data : DynamicData) : Option Int :=
  match data with
  | .integer _ value =>
    if -2147483648 ≤ value ∧ value ≤ 2147483647 then some value else none
  | _ => none

def longField (row : Row) (f : Field) : Except String Int :=
  match (row.value f.text).bind longOf with
  | some value => .ok value
  | none => .error (f.text ++ ": no value")

def longsOf (fields : List Field) (row : Row) : Except String (List Int) :=
  if row.all (fun e => fields.any fun f => f.text == e.1) then
    fields.mapM (longField row)
  else .error "unknown member"

def hashOf (holder : Octets) : KeyHash := ⟨Vector.ofFn fun i => holder.getD i.val 0⟩

/-- A structure of longs: the body is XCDR2 in little-endian, the key holder in
big-endian, and the key hash the holder with zeros behind it. -/
def longs (name : String) (fields keys : List Field) : SerializedTypeSupport LongType where
  getType := .ok (.record name fields)
  fromDynamicData data :=
    match data.members with
    | none => .error "not an aggregate"
    | some row => do
      let values ← longsOf fields row
      let key ← longsOf keys (row.filter fun e => keys.any fun f => f.text == e.1)
      let octets (v : Int) : Octets := leBytes 4 (unsignedOf 2147483648 v)
      let holder := key.flatMap fun v => (octets v).reverse
      return ⟨data, values.flatMap octets,
        if keys.isEmpty then none else some (hashOf holder, holder)⟩

structure Above where
  field : String
  bound : Int

instance : SqlFilter Above Int where
  collectFields e := [e.field]
  splitPath path := some [.member path]
  evaluate e row _ :=
    match row e.field with
    | some value => .ok (decide (e.bound < value))
    | none => .error "unknown field"
  dynamicFieldValue data path := (data.member path).bind longOf

def rowOf (fields : List (Field × Int)) : DynamicData :=
  .aggregate (fields.map fun f => (f.1.text, .integer (some .int32) f.2))

def sampleOf (h : InstanceHandle) (fields : List (Field × Int)) : Taken Int :=
  ⟨h, ⟨1, 0⟩, true, .alive, rowOf fields, []⟩

def markerFor (h : InstanceHandle) (state : InstanceStateKind) : Taken Int :=
  ⟨h, ⟨1, 0⟩, false, state, .aggregate [], []⟩

def order : SourceTopic LongType :=
  ⟨"Order", longs "Order" [.id, .customer, .amount] [.id]⟩

def customer : SourceTopic LongType :=
  ⟨"Customer", longs "Customer" [.customer, .country] [.customer]⟩

def sales : SerializedTypeSupport LongType :=
  longs "Sale" [.id, .customer, .amount, .country] [.id]

theorem exists_ok_of_any {α β : Type} {r : Except α β} {P : β → Prop} [DecidablePred P]
    (h : r.toOption.any (fun b => decide (P b)) = true) : ∃ b, r = .ok b ∧ P b := by
  cases r with
  | error e => simp [Except.toOption] at h
  | ok b => exact ⟨b, rfl, by simpa [Except.toOption] using h⟩

end Fixture

end ZeroDds.MultiTopic
