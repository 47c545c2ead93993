/-
The tuples an instance forms.
-/
import ZeroDds.MultiTopic.Engine

namespace ZeroDds.MultiTopic

open EngineState

open Dcps (InstanceHandle InstanceStateKind)

variable {τ Expr Value : Type} [SqlFilter Expr Value]
  {plan : MultiTopicPlan τ Expr} {s : EngineState} {i : Nat} {h : InstanceHandle}

theorem extendTuple_eq (rest : Nat) (chosen : Tuple) :
    extendTuple plan s i h rest chosen =
      Search.extend (candidates s i h) (fun chosen a => agrees plan s chosen chosen.length a)
        rest chosen := by
  induction rest generalizing chosen with
  | zero => rfl
  | succ rest ih => simp [extendTuple, Search.extend, ih]

theorem mem_liveInstances {j : Nat} {a : InstanceHandle} :
    a ∈ liveInstances s j ↔ (s.row? j a).isSome ∧ s.state? j a = some .alive := by
  unfold liveInstances EngineState.row? EngineState.state? EngineState.instance?
  rw [List.getD_eq_getElem?_getD, SortedMap.mem_keys]
  simp only [SortedMap.get?_filter, Option.filter_eq_some_iff, Bool.and_eq_true, decide_eq_true_eq]
  cases s.instances[j]? with
  | none => simp [SortedMap.get?, SortedMap.empty]
  | some m =>
    simp only [Option.getD_some, Option.bind_some]
    cases m.get? a with
    | none => simp
    | some x => simp

theorem nodup_candidates (j : Nat) : (candidates s i h j).Nodup := by
  unfold candidates
  split
  · exact List.nodup_singleton h
  · exact SortedMap.keys_nodup _

theorem mem_tuples {t : Tuple} :
    t ∈ tuples plan s i h ↔ t.length = s.instances.length ∧
      ∀ j a, t[j]? = some a → a ∈ candidates s i h j ∧ agrees plan s (t.take j) j a = true := by
  rw [tuples, extendTuple_eq, Search.mem_extend]
  simp only [List.length_nil, Nat.zero_add, List.nil_prefix, true_and, Search.FitsFrom]
  refine and_congr_right fun _ => ?_
  constructor
  · intro hfits j a hj
    have hlen := (List.getElem?_eq_some_iff.mp hj).1
    obtain ⟨hmem, hagrees⟩ := hfits j a (Nat.zero_le j) hj
    rw [List.length_take_of_le (Nat.le_of_lt hlen)] at hagrees
    exact ⟨hmem, hagrees⟩
  · intro hall j a _ hj
    have hlen := (List.getElem?_eq_some_iff.mp hj).1
    rw [List.length_take_of_le (Nat.le_of_lt hlen)]
    exact hall j a hj

theorem nodup_tuples : (tuples plan s i h).Nodup := by
  rw [tuples, extendTuple_eq]
  exact Search.nodup_extend nodup_candidates _ _

/-! ### Recording a sample -/

variable {sample : Taken Value}

@[simp] theorem record_combos : (record s i sample).combos = s.combos := rfl

@[simp] theorem length_record : (record s i sample).instances.length = s.instances.length :=
  length_insert ..

@[simp] theorem length_change : (change s i sample).instances.length = s.instances.length :=
  length_insert ..

section

variable (hi : i < s.instances.length)
include hi

theorem row?_record (j : Nat) (k : InstanceHandle) :
    (record s i sample).row? j k =
      if j = i ∧ k = sample.instanceHandle then some (sample.data.members.getD [])
      else s.row? j k := by
  rw [EngineState.row?, record, instance?_insert s hi]
  split <;> rfl

theorem state?_record (j : Nat) (k : InstanceHandle) :
    (record s i sample).state? j k =
      if j = i ∧ k = sample.instanceHandle then some .alive else s.state? j k := by
  rw [EngineState.state?, record, instance?_insert s hi]
  split <;> rfl

theorem row?_change : (change s i sample).row? = s.row? := by
  funext j k
  rw [EngineState.row?, change, instance?_insert s hi]
  split
  · next hjk => rw [hjk.1, hjk.2, Option.bind_some]
  · rfl

theorem state?_change (j : Nat) (k : InstanceHandle) :
    (change s i sample).state? j k =
      if j = i ∧ k = sample.instanceHandle then some sample.instanceState else s.state? j k := by
  rw [EngineState.state?, change, instance?_insert s hi]
  split <;> rfl

end

end ZeroDds.MultiTopic
