/-
A MultiTopic computes the natural join.
-/
import ZeroDds.MultiTopic.Accepted
import ZeroDds.MultiTopic.Tuples

namespace ZeroDds.MultiTopic

open Dcps (Time InstanceHandle InstanceStateKind)

variable {τ Expr Value ε : Type} [DynamicTypes τ] [SqlFilter Expr Value]

/-! ### The latest samples -/

def latestRow (as : List (Nat × Taken Value)) (j : Nat) (k : InstanceHandle) : Option Row :=
  (as.filter fun a => a.1 = j ∧ a.2.instanceHandle = k ∧ a.2.validData = true).getLast?.map
    fun a => a.2.data.members.getD []

def latestState (as : List (Nat × Taken Value)) (j : Nat) (k : InstanceHandle) :
    Option InstanceStateKind :=
  (as.filter fun a => a.1 = j ∧ a.2.instanceHandle = k).getLast?.map
    fun a => if a.2.validData then .alive else a.2.instanceState

theorem latestRow_append (as : List (Nat × Taken Value)) (a : Nat × Taken Value) (j : Nat)
    (k : InstanceHandle) :
    latestRow (as ++ [a]) j k =
      if a.1 = j ∧ a.2.instanceHandle = k ∧ a.2.validData = true then
        some (a.2.data.members.getD [])
      else latestRow as j k := by
  unfold latestRow
  rw [List.filter_append]
  by_cases h : a.1 = j ∧ a.2.instanceHandle = k ∧ a.2.validData = true
  · rw [if_pos h, List.filter_cons_of_pos (by simpa using h), List.filter_nil,
      List.getLast?_append]
    rfl
  · rw [if_neg h, List.filter_cons_of_neg (by simpa using h), List.filter_nil, List.append_nil]

theorem latestState_append (as : List (Nat × Taken Value)) (a : Nat × Taken Value) (j : Nat)
    (k : InstanceHandle) :
    latestState (as ++ [a]) j k =
      if a.1 = j ∧ a.2.instanceHandle = k then
        some (if a.2.validData then .alive else a.2.instanceState)
      else latestState as j k := by
  unfold latestState
  rw [List.filter_append]
  by_cases h : a.1 = j ∧ a.2.instanceHandle = k
  · rw [if_pos h, List.filter_cons_of_pos (by simpa using h), List.filter_nil,
      List.getLast?_append]
    rfl
  · rw [if_neg h, List.filter_cons_of_neg (by simpa using h), List.filter_nil, List.append_nil]

/-! ### What the engine remembers -/

section Memory

variable {plan : MultiTopicPlan τ Expr} {s : EngineState} {a : Nat × Taken Value}

omit [DynamicTypes τ] in
theorem length_arrive (plan : MultiTopicPlan τ Expr) (s : EngineState) (a : Nat × Taken Value) :
    (arrive plan s a).1.instances.length = s.instances.length := by
  unfold arrive
  split
  · rw [(emit_eq ..).1.length, length_record]
  · exact length_change

omit [DynamicTypes τ] in
theorem row?_arrive (hi : a.1 < s.instances.length) (j : Nat) (k : InstanceHandle) :
    (arrive plan s a).1.row? j k =
      if a.1 = j ∧ a.2.instanceHandle = k ∧ a.2.validData = true then
        some (a.2.data.members.getD [])
      else s.row? j k := by
  unfold arrive
  by_cases hv : a.2.validData = true
  · rw [if_pos hv, (emit_eq ..).1.row, row?_record hi]
    simp [hv, eq_comm]
  · have hrow : (retire (change s a.1 a.2) a.1 a.2.instanceHandle a.2.sourceTimestamp).1.row? =
        (change s a.1 a.2).row? := rfl
    rw [if_neg hv, hrow, row?_change hi, if_neg (fun h => hv h.2.2)]

omit [DynamicTypes τ] in
theorem state?_arrive (hi : a.1 < s.instances.length) (j : Nat) (k : InstanceHandle) :
    (arrive plan s a).1.state? j k =
      if a.1 = j ∧ a.2.instanceHandle = k then
        some (if a.2.validData then .alive else a.2.instanceState)
      else s.state? j k := by
  unfold arrive
  by_cases hv : a.2.validData = true
  · rw [if_pos hv, (emit_eq ..).1.state, state?_record hi]
    simp [hv, eq_comm]
  · have hstate : (retire (change s a.1 a.2) a.1 a.2.instanceHandle a.2.sourceTimestamp).1.state? =
        (change s a.1 a.2).state? := rfl
    rw [if_neg hv, hstate, state?_change hi, if_neg hv]
    simp [eq_comm]

structure Remembers (n : Nat) (as : List (Nat × Taken Value)) (s : EngineState) : Prop where
  length : s.instances.length = n
  row : s.row? = latestRow as
  state : s.state? = latestState as

theorem remembers_new (n : Nat) : Remembers n ([] : List (Nat × Taken Value)) (.new n) where
  length := List.length_replicate
  row := by
    funext j k
    rw [EngineState.row?, EngineState.instance?, EngineState.new, List.getElem?_replicate]
    split <;> rfl
  state := by
    funext j k
    rw [EngineState.state?, EngineState.instance?, EngineState.new, List.getElem?_replicate]
    split <;> rfl

variable {n : Nat} {as : List (Nat × Taken Value)}

omit [DynamicTypes τ] in
theorem Remembers.arrive (h : Remembers n as s) (hi : a.1 < n) :
    Remembers n (as ++ [a]) (arrive plan s a).1 where
  length := (length_arrive plan s a).trans h.length
  row := by
    funext j k
    rw [row?_arrive (h.length ▸ hi), latestRow_append, h.row]
  state := by
    funext j k
    rw [state?_arrive (h.length ▸ hi), latestState_append, h.state]

omit [DynamicTypes τ] in
theorem remembers_run (plan : MultiTopicPlan τ Expr) (has : ∀ a ∈ as, a.1 < n) :
    Remembers n as (run (MultiTopic.arrive plan) (.new n) as).1 := by
  induction as using List.reverseRecOn with
  | nil => exact remembers_new n
  | append_singleton as a ih =>
    rw [run_append]
    exact (ih fun b hb => has b (List.mem_append_left _ hb)).arrive
      (has a (List.mem_append_right _ List.mem_cons_self))

end Memory

def Agree (a b : Option Row) (name : String) : Prop :=
  ∃ row row' v w, a = some row ∧ b = some row' ∧ row.value name = some v ∧
    row'.value name = some w ∧ v.eq w = true

/-- The tuple belongs to the natural join of the topics and has the instance `h` of
topic `i`, its joined row satisfies the condition, and every field has a value in it. -/
structure InJoin (plan : MultiTopicPlan τ Expr) (topics : List (SourceTopic τ))
    (rows : Nat → InstanceHandle → Option Row)
    (states : Nat → InstanceHandle → Option InstanceStateKind)
    (i : Nat) (h : InstanceHandle) (parameters : List Value) (t : Tuple) : Prop where
  length : t.length = topics.length
  fixed : t[i]? = some h
  others : ∀ j k, j ≠ i → t[j]? = some k → states j k = some .alive ∧ (rows j k).isSome
  agree : ∀ a b ha hb ta tb, a < b → t[a]? = some ha → t[b]? = some hb →
    topics[a]? = some ta → topics[b]? = some tb →
    ∀ name ∈ memberNames ta, name ∈ memberNames tb → Agree (rows a ha) (rows b hb) name
  condition : satisfies plan (joined plan rows t) parameters = true
  complete : ∀ o ∈ plan.outputs, (valueAt (.aggregate (joined plan rows t)) o.path).isSome

/-- The joined row of a tuple has each name once, with the value of the first topic
that has a member of that name and a value for it. -/
structure IsJoinedRow (topics : List (SourceTopic τ)) (rows : Nat → InstanceHandle → Option Row)
    (t : Tuple) (row : Row) : Prop where
  nodup : (row.map Prod.fst).Nodup
  value : ∀ name v, row.value name = some v ↔
    ∃ j k topic, t[j]? = some k ∧ topics[j]? = some topic ∧ name ∈ memberNames topic ∧
      (rows j k).bind (Row.value · name) = some v ∧
      ∀ j' < j, ∀ k' topic', t[j']? = some k' → topics[j']? = some topic' →
        name ∈ memberNames topic' → (rows j' k').bind (Row.value · name) = none

/-- A result sample of a tuple: the fields of the SELECT list in its joined row, as a
sample of the result type. -/
def IsResult (plan : MultiTopicPlan τ Expr) (rows : Nat → InstanceHandle → Option Row)
    (stamp : Time) (t : Tuple) (u : UserSample) : Prop :=
  ∃ fields sample, selected plan (joined plan rows t) = some fields ∧
    plan.result.fromDynamicData (.aggregate fields) = .ok sample ∧ u = sample.entry stamp

/-! ### The search finds the join -/

theorem sameMember_iff {a b : Row} {name : String} :
    sameMember a b name = true ↔ Agree (some a) (some b) name := by
  unfold sameMember
  constructor
  · intro h
    split at h
    · next v w hv hw => exact ⟨a, b, v, w, rfl, rfl, hv, hw, h⟩
    · cases h
  · rintro ⟨_, _, v, w, ha, hb, hv, hw, h⟩
    cases ha
    cases hb
    rw [hv, hw]
    exact h

section Sound

variable {topics : List (SourceTopic τ)} {result : SerializedTypeSupport τ}
  {plan : MultiTopicPlan τ Expr} {types : SortedMap String τ} {resultType : τ}

theorem Accepted.getD_members (hplan : Accepted topics result plan types resultType) (j : Nat)
    (name : String) :
    name ∈ plan.members.getD j [] ↔
      ∃ topic, topics[j]? = some topic ∧ name ∈ memberNames topic := by
  rw [hplan.members, List.getD_eq_getElem?_getD, List.getElem?_map]
  cases topics[j]? with
  | none => simp
  | some topic => simp

variable {s : EngineState}

theorem Accepted.agrees_iff (hplan : Accepted topics result plan types resultType)
    {chosen : Tuple} {next : Nat} {c : InstanceHandle} (hlen : chosen.length = next)
    (hnext : next < topics.length) :
    agrees plan s chosen next c = true ↔ (s.row? next c).isSome ∧
      ∀ e k, chosen[e]? = some k → ∀ name ∈ plan.members.getD e [],
        name ∈ plan.members.getD next [] → Agree (s.row? e k) (s.row? next c) name := by
  have hmembers : plan.members.length = topics.length := by rw [hplan.members, List.length_map]
  unfold agrees
  cases s.row? next c with
  | none => simp
  | some row =>
    simp only [Option.isSome_some, true_and, List.all_eq_true, Prod.forall,
      List.mem_zipIdx_iff_getElem?]
    rw [forall_comm]
    refine forall_congr' fun e => forall_congr' fun k => forall_congr' fun hk => ?_
    have hlt : e < next := hlen ▸ (List.getElem?_eq_some_iff.mp hk).1
    rw [hplan.shared, get?_sharedOf]
    by_cases hnames : sharedNames plan.members (e, next) = []
    · -- The topics share no name.
      rw [if_neg (fun h => h.2.2 hnames)]
      refine iff_of_true rfl fun name he hn => ?_
      have := mem_sharedNames.mpr ⟨he, hn⟩
      rw [hnames] at this
      cases this
    · rw [if_pos ⟨hlt, by omega, hnames⟩]
      cases s.row? e k with
      | none =>
        refine iff_of_false Bool.false_ne_true fun h => ?_
        obtain ⟨name, hname⟩ := List.exists_mem_of_ne_nil _ hnames
        obtain ⟨he, hn⟩ := mem_sharedNames.mp hname
        obtain ⟨_, _, _, _, hrow, -⟩ := h name he hn
        cases hrow
      | some earlier =>
        simp only [List.all_eq_true, mem_sharedNames, and_imp]
        exact forall_congr' fun name => forall_congr' fun _ => forall_congr' fun _ => sameMember_iff

variable {t : Tuple}

theorem Accepted.mem_tuples_iff (hplan : Accepted topics result plan types resultType)
    (hs : s.instances.length = topics.length) {i : Nat} {h : InstanceHandle}
    (hi : i < topics.length) (hrow : (s.row? i h).isSome) :
    t ∈ tuples plan s i h ↔ t.length = topics.length ∧ t[i]? = some h ∧
      (∀ j k, j ≠ i → t[j]? = some k → s.state? j k = some .alive ∧ (s.row? j k).isSome) ∧
      ∀ a b ha hb ta tb, a < b → t[a]? = some ha → t[b]? = some hb →
        topics[a]? = some ta → topics[b]? = some tb →
        ∀ name ∈ memberNames ta, name ∈ memberNames tb →
          Agree (s.row? a ha) (s.row? b hb) name := by
  rw [mem_tuples, hs]
  refine and_congr_right fun hlen => ?_
  -- One position: the candidate and its agreement with those before it.
  have hagrees : ∀ j k, t[j]? = some k → (agrees plan s (t.take j) j k = true ↔
      (s.row? j k).isSome ∧ ∀ e k', (t.take j)[e]? = some k' →
        ∀ name ∈ plan.members.getD e [], name ∈ plan.members.getD j [] →
          Agree (s.row? e k') (s.row? j k) name) := by
    intro j k hj
    have hjlen := (List.getElem?_eq_some_iff.mp hj).1
    exact hplan.agrees_iff (List.length_take_of_le (Nat.le_of_lt hjlen)) (hlen ▸ hjlen)
  constructor
  · intro hall
    refine ⟨?_, fun j k hne hj => ?_, fun a b ha hb ta tb hab hta htb hA hB name hna hnb => ?_⟩
    · have hat : t[i]? = some t[i] := List.getElem?_eq_getElem (by omega)
      have hmem := (hall i _ hat).1
      rw [candidates, if_pos rfl, List.mem_singleton] at hmem
      rw [hat, hmem]
    · have hmem := (hall j k hj).1
      rw [candidates, if_neg hne] at hmem
      exact (mem_liveInstances.mp hmem).symm
    · have hagree := ((hagrees b hb htb).mp (hall b hb htb).2).2 a ha
      refine hagree ?_ name ((hplan.getD_members a name).mpr ⟨ta, hA, hna⟩)
        ((hplan.getD_members b name).mpr ⟨tb, hB, hnb⟩)
      rw [List.getElem?_take_of_lt hab]
      exact hta
  · rintro ⟨hfixed, hothers, hagree⟩ j k hj
    refine ⟨?_, (hagrees j k hj).mpr ⟨?_, fun e k' he name hne hnj => ?_⟩⟩
    · unfold candidates
      split
      · next heq =>
        subst heq
        rw [hfixed] at hj
        exact List.mem_singleton.mpr (Option.some.inj hj).symm
      · next hne => exact mem_liveInstances.mpr (hothers j k hne hj).symm
    · by_cases heq : j = i
      · subst heq
        rw [hfixed] at hj
        rw [← Option.some.inj hj]
        exact hrow
      · exact (hothers j k heq hj).2
    · have hlt : e < j := by
        have := (List.getElem?_eq_some_iff.mp he).1
        rw [List.length_take] at this
        omega
      rw [List.getElem?_take_of_lt hlt] at he
      obtain ⟨ta, hA, hna⟩ := (hplan.getD_members e name).mp hne
      obtain ⟨tb, hB, hnb⟩ := (hplan.getD_members j name).mp hnj
      exact hagree e j k' k ta tb hlt he hj hA hB name hna hnb

theorem value_filterMap {columns : List String} {f : String → Option DynamicData} (name : String) :
    Row.value (columns.filterMap fun column => (f column).map fun v => (column, v)) name =
      if name ∈ columns then f name else none := by
  induction columns with
  | nil => rfl
  | cons column columns ih =>
    rw [List.filterMap_cons]
    by_cases hname : name = column
    · subst hname
      cases hf : f name with
      | none =>
        rw [Option.map_none, ih, hf]
        simp
      | some v => simp [Row.value]
    · have hmem : name ∈ column :: columns ↔ name ∈ columns := by
        rw [List.mem_cons]
        exact or_iff_right hname
      simp only [hmem]
      rw [← ih]
      cases f column with
      | none => rfl
      | some v =>
        have hne : (column == name) = false := beq_eq_false_iff_ne.mpr (Ne.symm hname)
        simp [Row.value, hne]

theorem Accepted.isJoinedRow (hplan : Accepted topics result plan types resultType)
    (rows : Nat → InstanceHandle → Option Row) (t : Tuple) :
    IsJoinedRow topics rows t (joined plan rows t) := by
  have hvalue : ∀ name v, columnValue plan rows t name = some v ↔
      ∃ j k topic, t[j]? = some k ∧ topics[j]? = some topic ∧ name ∈ memberNames topic ∧
        (rows j k).bind (Row.value · name) = some v ∧
        ∀ j' < j, ∀ k' topic', t[j']? = some k' → topics[j']? = some topic' →
          name ∈ memberNames topic' → (rows j' k').bind (Row.value · name) = none := by
    intro name v
    simp only [columnValue, Search.findSome?_zipIdx, List.contains_iff_mem, hplan.getD_members]
    constructor
    · rintro ⟨j, k, hj, hv, hbefore⟩
      split at hv
      · next hmem =>
        obtain ⟨topic, htopic, hname⟩ := hmem
        refine ⟨j, k, topic, hj, htopic, hname, hv, fun j' hlt k' topic' hk' ht' hname' => ?_⟩
        have := hbefore j' hlt k' hk'
        rwa [if_pos ⟨topic', ht', hname'⟩] at this
      · cases hv
    · rintro ⟨j, k, topic, hj, htopic, hname, hv, hbefore⟩
      refine ⟨j, k, hj, by rw [if_pos ⟨topic, htopic, hname⟩]; exact hv, fun j' hlt k' hk' => ?_⟩
      split
      · next hmem =>
        obtain ⟨topic', ht', hname'⟩ := hmem
        exact hbefore j' hlt k' topic' hk' ht' hname'
      · rfl
  refine ⟨?_, fun name v => ?_⟩
  · -- The names of the row are columns.
    have hsub : ((joined plan rows t).map Prod.fst).Sublist plan.columns := by
      unfold joined
      induction plan.columns with
      | nil => exact List.Sublist.refl _
      | cons column columns ih =>
        rw [List.filterMap_cons]
        cases columnValue plan rows t column with
        | none => exact ih.cons column
        | some v => exact ih.cons_cons column
    exact hplan.columns.nodup.sublist hsub
  · rw [joined, value_filterMap, ← hvalue]
    by_cases hcolumn : name ∈ plan.columns
    · rw [if_pos hcolumn]
    · rw [if_neg hcolumn]
      refine iff_of_false (Option.some_ne_none v).symm fun h => hcolumn ?_
      obtain ⟨j, k, topic, -, htopic, hname, -⟩ := (hvalue name v).mp h
      obtain ⟨m, hm, rfl⟩ := List.mem_map.mp hname
      exact (hplan.columns.names _).mpr
        ⟨m, List.mem_flatMap.mpr ⟨topic, List.mem_of_getElem? htopic, hm⟩, rfl⟩

variable {Holds : τ → DynamicData → Prop}

/-- A row of topic `j` as its reader decodes it: every value is one of the type of a
member of that name. -/
def RowTyped (Holds : τ → DynamicData → Prop) (topics : List (SourceTopic τ)) (j : Nat)
    (row : Row) : Prop :=
  ∀ topic, topics[j]? = some topic → ∀ name v, row.value name = some v →
    ∃ m ∈ topicMembers topic, m.name = name ∧ ∃ s, m.dynamicType = .ok s ∧ Holds s v

theorem Accepted.rowHolds_joined (hplan : Accepted topics result plan types resultType)
    (law : Lawful Holds) {rows : Nat → InstanceHandle → Option Row}
    (hrows : ∀ j k row, rows j k = some row → RowTyped Holds topics j row) (t : Tuple) :
    RowHolds Holds types (joined plan rows t) := by
  intro name v hv
  obtain ⟨j, k, topic, -, htopic, -, hvalue, -⟩ := ((hplan.isJoinedRow rows t).value name v).mp hv
  obtain ⟨row, hrow, hvalue⟩ := Option.bind_eq_some_iff.mp hvalue
  obtain ⟨m, hm, rfl, s, hs, hholds⟩ := hrows j k row hrow topic htopic name v hvalue
  obtain ⟨s', seen, hs', hseen, heq⟩ := hplan.columns.typed m
    (List.mem_flatMap.mpr ⟨topic, List.mem_of_getElem? htopic, hm⟩)
  rw [hs] at hs'
  cases hs'
  refine ⟨seen, hseen, ?_⟩
  rcases heq with rfl | heq
  · exact hholds
  · exact (law.equal heq).mpr hholds

theorem Accepted.isSome_resultOf (hplan : Accepted topics result plan types resultType)
    (law : Lawful Holds) (hresult : Accepts Holds result)
    (hrows : ∀ j k row, s.row? j k = some row → RowTyped Holds topics j row)
    (parameters : List Value) (t : Tuple) :
    (resultOf plan s parameters t).isSome ↔
      satisfies plan (joined plan s.row? t) parameters = true ∧
      ∀ o ∈ plan.outputs, (valueAt (.aggregate (joined plan s.row? t)) o.path).isSome := by
  unfold resultOf
  by_cases hcondition : satisfies plan (joined plan s.row? t) parameters = true
  · simp only [hcondition, true_and]
    have hselected : (selected plan (joined plan s.row? t)).isSome ↔
        ∀ o ∈ plan.outputs, (valueAt (.aggregate (joined plan s.row? t)) o.path).isSome := by
      rw [selected, isSome_mapM]
      simp
    rw [← hselected]
    cases hfields : selected plan (joined plan s.row? t) with
    | none => rfl
    | some fields =>
      obtain ⟨sample, hsample⟩ := law.fromDynamicData_selected hplan hresult
        (hplan.rowHolds_joined law hrows t) hfields
      rw [Option.bind_some, hsample]
      rfl
  · simp [hcondition]

omit [DynamicTypes τ] in
theorem isResult_of_resultOf {parameters : List Value} {sample : SerializedSample}
    (h : resultOf plan s parameters t = some sample) (stamp : Time) :
    IsResult plan s.row? stamp t (sample.entry stamp) := by
  unfold resultOf at h
  dsimp only at h
  split at h
  · obtain ⟨fields, hfields, h⟩ := Option.bind_eq_some_iff.mp h
    exact ⟨fields, sample, hfields, toOption_eq_some.mp h, rfl⟩
  · cases h

def JoinStep (plan : MultiTopicPlan τ Expr) (topics : List (SourceTopic τ))
    (before : List (Nat × Taken Value)) (a : Nat × Taken Value) (out : List UserSample) : Prop :=
  if a.2.validData then
    ∃ ts : List Tuple, ts.Nodup ∧
      (∀ t, t ∈ ts ↔ InJoin plan topics (latestRow (before ++ [a])) (latestState (before ++ [a]))
        a.1 a.2.instanceHandle a.2.parameters t) ∧
      List.Forall₂ (IsResult plan (latestRow (before ++ [a])) a.2.sourceTimestamp) ts out
  else ∀ u ∈ out, u.isAlive = false

theorem Accepted.joinStep (hplan : Accepted topics result plan types resultType)
    (law : Lawful Holds) (hresult : Accepts Holds result) {before : List (Nat × Taken Value)}
    {a : Nat × Taken Value} (hi : ∀ b ∈ before ++ [a], b.1 < topics.length)
    (htyped : ∀ b ∈ before ++ [a], b.2.validData = true →
      RowTyped Holds topics b.1 (b.2.data.members.getD [])) :
    JoinStep plan topics before a
      (arrive plan (run (arrive plan) (.new topics.length) before).1 a).2 := by
  have ha : a.1 < topics.length := hi a (List.mem_append_right _ List.mem_cons_self)
  have hmem := remembers_run plan fun b hb => hi b (List.mem_append_left _ hb)
  generalize (run (arrive plan) (.new topics.length) before).1 = s at hmem
  unfold JoinStep
  by_cases hv : a.2.validData = true
  · rw [if_pos hv]
    -- The state the tuples are looked for in has the latest rows and states.
    have hnow : Remembers topics.length (before ++ [a]) (arrive plan s a).1 := hmem.arrive ha
    have hemit := emit_eq plan (record s a.1 a.2) a.1 a.2.instanceHandle a.2.sourceTimestamp
      a.2.parameters
    have harrive : arrive plan s a = emit plan (record s a.1 a.2) a.1 a.2.instanceHandle
        a.2.sourceTimestamp a.2.parameters := if_pos hv
    have hrow : (record s a.1 a.2).row? = latestRow (before ++ [a]) := by
      rw [← hnow.row, harrive, hemit.1.row]
    have hstate : (record s a.1 a.2).state? = latestState (before ++ [a]) := by
      rw [← hnow.state, harrive, hemit.1.state]
    have hlen : (record s a.1 a.2).instances.length = topics.length :=
      length_record.trans hmem.length
    have hfixed : ((record s a.1 a.2).row? a.1 a.2.instanceHandle).isSome := by
      rw [row?_record (hmem.length ▸ ha), if_pos ⟨rfl, rfl⟩]
      rfl
    have hrows : ∀ j k row, (record s a.1 a.2).row? j k = some row →
        RowTyped Holds topics j row := by
      intro j k row hjk
      rw [hrow] at hjk
      obtain ⟨b, hlast, rfl⟩ := Option.map_eq_some_iff.mp hjk
      obtain ⟨hb, hcond⟩ := List.mem_filter.mp (List.mem_of_getLast? hlast)
      obtain ⟨hj, -, hvalid⟩ := decide_eq_true_eq.mp hcond
      exact hj ▸ htyped b hb hvalid
    rw [harrive, hemit.2]
    refine ⟨(results plan (record s a.1 a.2) a.2.parameters
      (tuples plan (record s a.1 a.2) a.1 a.2.instanceHandle)).map Prod.fst,
      nodup_results nodup_tuples, fun t => ?_, ?_⟩
    · rw [List.mem_map]
      have hfound : (∃ r ∈ results plan (record s a.1 a.2) a.2.parameters
          (tuples plan (record s a.1 a.2) a.1 a.2.instanceHandle), r.1 = t) ↔
          t ∈ tuples plan (record s a.1 a.2) a.1 a.2.instanceHandle ∧
            (resultOf plan (record s a.1 a.2) a.2.parameters t).isSome := by
        constructor
        · rintro ⟨⟨t, sample⟩, hr, rfl⟩
          obtain ⟨ht, hsample⟩ := mem_results.mp hr
          exact ⟨ht, by rw [hsample]; rfl⟩
        · rintro ⟨ht, hsome⟩
          obtain ⟨sample, hsample⟩ := Option.isSome_iff_exists.mp hsome
          exact ⟨(t, sample), mem_results.mpr ⟨ht, hsample⟩, rfl⟩
      rw [hfound, hplan.mem_tuples_iff hlen ha hfixed,
        hplan.isSome_resultOf law hresult hrows, hrow, hstate]
      constructor
      · rintro ⟨⟨h1, h2, h3, h4⟩, h5, h6⟩
        exact ⟨h1, h2, h3, h4, h5, h6⟩
      · rintro ⟨h1, h2, h3, h4, h5, h6⟩
        exact ⟨⟨h1, h2, h3, h4⟩, h5, h6⟩
    · rw [List.forall₂_map_left_iff, List.forall₂_map_right_iff, List.forall₂_same]
      rintro ⟨t, sample⟩ hr
      rw [← hrow]
      exact isResult_of_resultOf (mem_results.mp hr).2 a.2.sourceTimestamp
  · rw [if_neg hv]
    intro u hu
    rw [arrive, if_neg hv] at hu
    obtain ⟨e, -, he⟩ := List.mem_filterMap.mp hu
    rw [Option.ite_none_right_eq_some] at he
    obtain ⟨-, he⟩ := he
    unfold markerOf at he
    split at he
    · cases he
    · obtain ⟨kind, -, rfl⟩ := Option.map_eq_some_iff.mp he
      rfl

end Sound

theorem fst_lt_of_mem_arrivals {takes : List (List (Taken Value))} {index : Nat}
    {a : Nat × Taken Value} (h : a ∈ arrivals index takes) : a.1 < index + takes.length := by
  induction takes generalizing index with
  | nil => cases h
  | cons samples takes ih =>
    rw [arrivals, List.mem_append] at h
    rw [List.length_cons]
    rcases h with h | h
    · obtain ⟨sample, -, rfl⟩ := List.mem_map.mp h
      omega
    · have := ih h
      omega

/-- The inbox after any pumps is what each sample added, in the order the samples were
taken: a data sample one result sample for each tuple of the natural join it belongs to,
a state change no result sample. -/
theorem pumps_compute_natural_join {Holds : τ → DynamicData → Prop} (law : Lawful Holds)
    {expression : TopicExpression Expr} {topics : List (SourceTopic τ)}
    {result : SerializedTypeSupport τ} (hresult : Accepts Holds result)
    {plan : MultiTopicPlan τ Expr} (hplan : MultiTopicPlan.new expression topics result = .ok plan)
    (calls : List (List (List (Taken Value))))
    (hcalls : ∀ takes ∈ calls, takes.length = topics.length)
    (htyped : ∀ a ∈ calls.flatMap (arrivals 0), a.2.validData = true →
      RowTyped Holds topics a.1 (a.2.data.members.getD [])) :
    ∃ added : List (List UserSample),
      (pumps (ε := ε) plan ⟨.new topics.length, []⟩ (calls.map fun takes => takes.map .ok)).sink =
        added.flatten ∧
      added.length = (calls.flatMap (arrivals 0)).length ∧
      (∀ p a out, (calls.flatMap (arrivals 0))[p]? = some a → added[p]? = some out →
        JoinStep plan topics ((calls.flatMap (arrivals 0)).take p) a out) ∧
      ∀ rows t, IsJoinedRow topics rows t (joined plan rows t) := by
  obtain ⟨types, resultType, hacc⟩ := accepted_of_new hplan
  have hindex : ∀ a ∈ calls.flatMap (arrivals 0), a.1 < topics.length := by
    intro a ha
    obtain ⟨takes, htakes, ha⟩ := List.mem_flatMap.mp ha
    have := fst_lt_of_mem_arrivals ha
    rw [hcalls takes htakes] at this
    omega
  refine ⟨(run (arrive plan) (.new topics.length) (calls.flatMap (arrivals 0))).2.map Prod.snd,
    ?_, ?_, fun p a out ha hout => ?_, fun rows t => hacc.isJoinedRow rows t⟩
  · rw [pumps_of_ok]
    simp only [List.nil_append, produced, List.flatMap_def]
  · rw [List.length_map, length_run]
  · rw [List.getElem?_map, getElem?_run, ha] at hout
    rw [← Option.some.inj hout]
    have hsub : ∀ b ∈ (calls.flatMap (arrivals 0)).take p ++ [a],
        b ∈ calls.flatMap (arrivals 0) := by
      exact List.forall_mem_append.mpr ⟨fun b hb => List.mem_of_mem_take hb,
        List.forall_mem_singleton.mpr (List.mem_of_getElem? ha)⟩
    exact hacc.joinStep law hresult (fun b hb => hindex b (hsub b hb))
      (fun b hb => htyped b (hsub b hb))

namespace Fixture

/-- A `long` holds the integers it has room for, a structure any values of its fields
that are longs. -/
def LongHolds : LongType → DynamicData → Prop
  | .long, v => (longOf v).isSome
  | .record _ fields, v => ∀ f ∈ fields, ∀ w, v.member f.text = some w → (longOf w).isSome

theorem isIdentifier_text (f : Field) : IsIdentifier f.text := by
  constructor
  · cases f <;> decide
  · cases f <;> decide

theorem allMembers_record (name : String) (fields : List Field) :
    allMembers (LongType.record name fields) = fields.map fun f => ⟨f.text, .ok .long, false⟩ := rfl

variable {name : String} {fields : List Field}

theorem findMember_record {n : String} {m : DynamicTypeMember LongType}
    (h : findMember (.record name fields) n = some m) :
    m.dynamicType = .ok .long ∧ ∃ f ∈ fields, f.text = n := by
  have hname := List.find?_some (p := fun m : DynamicTypeMember LongType => m.name == n) h
  have hmem := List.mem_of_find?_eq_some h
  obtain ⟨f, hf, rfl⟩ := List.mem_map.mp hmem
  exact ⟨rfl, f, hf, beq_iff_eq.mp hname⟩

theorem lawful_long : Lawful LongHolds where
  identifier t m hm := by
    cases t with
    | long => cases hm
    | record name fields =>
      obtain ⟨f, -, rfl⟩ := List.mem_map.mp hm
      exact isIdentifier_text f
  unaliased h hv := by
    rw [← Except.ok.inj h]
    exact hv
  equal h := by rw [of_decide_eq_true h]
  member {t s name m v w} hm hs hv hw := by
    cases t with
    | long =>
      cases hm
    | record n fields =>
      obtain ⟨hlong, f, hf, rfl⟩ := findMember_record hm
      rw [hlong] at hs
      rw [← Except.ok.inj hs]
      exact hv f hf w hw

theorem longsOf_ok {row : Row}
    (hrow : ∀ e ∈ row, (∃ f ∈ fields, f.text = e.1) ∧ (longOf e.2).isSome)
    (hfields : ∀ f ∈ fields, f.text ∈ row.map Prod.fst) :
    ∃ values, longsOf fields row = .ok values := by
  have hall : row.all (fun e => fields.any fun f => f.text == e.1) = true := by
    simp only [List.all_eq_true, List.any_eq_true, beq_iff_eq]
    exact fun e he => (hrow e he).1
  rw [longsOf, if_pos hall]
  have key : ∀ l : List Field, (∀ f ∈ l, f ∈ fields) →
      ∃ values, l.mapM (longField row) = .ok values := by
    intro l
    induction l with
    | nil => exact fun _ => ⟨[], rfl⟩
    | cons f l ih =>
      intro hl
      obtain ⟨values, hvalues⟩ := ih fun g hg => hl g (List.mem_cons_of_mem f hg)
      obtain ⟨e, he, hname⟩ := List.mem_map.mp (hfields f (hl f List.mem_cons_self))
      have hfind : (row.find? fun e => e.1 == f.text).isSome := by
        rw [List.find?_isSome]
        exact ⟨e, he, beq_iff_eq.mpr hname⟩
      obtain ⟨e', he'⟩ := Option.isSome_iff_exists.mp hfind
      obtain ⟨v, hv⟩ := Option.isSome_iff_exists.mp (hrow e' (List.mem_of_find?_eq_some he')).2
      refine ⟨v :: values, ?_⟩
      rw [List.mapM_cons, hvalues, longField, Row.value, he', Option.map_some, Option.bind_some, hv]
      rfl
  exact key fields fun _ h => h

variable {keys : List Field}

theorem accepts_longs (hkeys : ∀ f ∈ keys, f ∈ fields) :
    Accepts LongHolds (longs name fields keys) := by
  intro what type row htype htyped hfilled
  have htype' : LongType.record name fields = type := Except.ok.inj htype
  subst htype'
  have hrow : ∀ e ∈ row, (∃ f ∈ fields, f.text = e.1) ∧ (longOf e.2).isSome := by
    intro e he
    obtain ⟨m, s, hm, hs, hholds⟩ := htyped e he
    obtain ⟨hlong, hname⟩ := findMember_record hm
    rw [hlong] at hs
    rw [← Except.ok.inj hs] at hholds
    exact ⟨hname, hholds⟩
  have hnames : ∀ f ∈ fields, f.text ∈ row.map Prod.fst := by
    intro f hf
    refine hfilled ⟨f.text, .ok .long, false⟩ ?_ rfl
    exact List.mem_map.mpr ⟨f, hf, rfl⟩
  obtain ⟨values, hvalues⟩ := longsOf_ok hrow hnames
  obtain ⟨key, hkey⟩ : ∃ key, longsOf keys
      (row.filter fun e => keys.any fun f => f.text == e.1) = .ok key := by
    refine longsOf_ok (fun e he => ?_) fun f hf => ?_
    · obtain ⟨hmem, hany⟩ := List.mem_filter.mp he
      obtain ⟨f, hf, hname⟩ := List.any_eq_true.mp hany
      exact ⟨⟨f, hf, beq_iff_eq.mp hname⟩, (hrow e hmem).2⟩
    · obtain ⟨e, he, hname⟩ := List.mem_map.mp (hnames f (hkeys f hf))
      refine List.mem_map.mpr ⟨e, List.mem_filter.mpr ⟨he, ?_⟩, hname⟩
      exact List.any_eq_true.mpr ⟨f, hf, beq_iff_eq.mpr hname.symm⟩
  exact ⟨_, bind_ok.mpr ⟨values, hvalues, bind_ok.mpr ⟨key, hkey, rfl⟩⟩⟩

def customerThenOrder : List (List (List (Taken Int))) :=
  [[[], [sampleOf 7 [(.customer, 5), (.country, 49)]]],
   [[sampleOf 3 [(.id, 1), (.customer, 5), (.amount, 20)]], []]]

theorem rowTyped_rowOf {topics : List (SourceTopic LongType)} {j : Nat} {what : String}
    (htopic : topics[j]? = some ⟨what, longs name fields keys⟩) {values : List (Field × Int)}
    (h : ∀ f ∈ values, f.1 ∈ fields ∧ (longOf (.integer (some .int32) f.2)).isSome) :
    RowTyped LongHolds topics j ((rowOf values).members.getD []) := by
  intro topic htopic' key v hv
  obtain rfl := Option.some.inj (htopic.symm.trans htopic')
  obtain ⟨e, he, rfl⟩ := Option.map_eq_some_iff.mp hv
  have hkey := List.find?_some (p := fun e : String × DynamicData => e.1 == key) he
  obtain ⟨f, hf, rfl⟩ := List.mem_map.mp (List.mem_of_find?_eq_some he)
  obtain ⟨hfield, hlong⟩ := h f hf
  refine ⟨⟨f.1.text, .ok .long, false⟩, ?_, beq_iff_eq.mp hkey, .long, rfl, hlong⟩
  exact List.mem_map.mpr ⟨f.1, hfield, rfl⟩

theorem order_and_customer_joined :
    ∃ plan : MultiTopicPlan LongType Above,
      MultiTopicPlan.new ⟨.all, none⟩ [order, customer] sales = .ok plan ∧
      ∃ added : List (List UserSample),
        (pumps (ε := Unit) plan ⟨.new 2, []⟩
          (customerThenOrder.map fun takes => takes.map .ok)).sink = added.flatten ∧
        added.length = 2 ∧
        (∀ p a out, (customerThenOrder.flatMap (arrivals 0))[p]? = some a → added[p]? = some out →
          JoinStep plan [order, customer] ((customerThenOrder.flatMap (arrivals 0)).take p) a out) ∧
        ∀ rows t, IsJoinedRow [order, customer] rows t (joined plan rows t) := by
  obtain ⟨plan, hplan, -⟩ := exists_ok_of_any
    (r := MultiTopicPlan.new ⟨.all, none⟩ [order, customer] sales)
    (P := fun _ : MultiTopicPlan LongType Above => True) (by decide +kernel)
  refine ⟨plan, hplan, pumps_compute_natural_join lawful_long
    (accepts_longs (fun f hf => by
      rw [List.mem_singleton.mp hf]
      exact List.mem_cons_self)) hplan customerThenOrder (by decide) ?_⟩
  intro a ha _
  rcases List.mem_cons.mp ha with rfl | ha
  · exact rowTyped_rowOf rfl (by decide)
  · rw [List.mem_singleton.mp ha]
    exact rowTyped_rowOf rfl (by decide)

end Fixture

end ZeroDds.MultiTopic
