/-
A source reader that fails.
-/
import ZeroDds.MultiTopic.Engine

namespace ZeroDds.MultiTopic

variable {τ Expr Value ε : Type} [SqlFilter Expr Value]

/-- A data sample forms no tuple that gives a result sample; a state change takes no
recorded tuple to another state than ALIVE. -/
def Silent (plan : MultiTopicPlan τ Expr) (s : EngineState) (a : Nat × Taken Value) : Prop :=
  if a.2.validData then
    ∀ t ∈ tuples plan (record s a.1 a.2) a.1 a.2.instanceHandle,
      resultOf plan (record s a.1 a.2) a.2.parameters t = none
  else
    ∀ t c, s.combos.get? t = some c → Through a.1 a.2.instanceHandle t →
      tupleState (change s a.1 a.2) t = c.state ∨ tupleState (change s a.1 a.2) t = .alive

theorem results_eq_nil_iff {plan : MultiTopicPlan τ Expr} {s : EngineState}
    {parameters : List Value} {ts : List Tuple} :
    results plan s parameters ts = [] ↔ ∀ t ∈ ts, resultOf plan s parameters t = none := by
  simp [results]

variable (plan : MultiTopicPlan τ Expr) (s : EngineState)

theorem arrive_produces_nothing_iff (a : Nat × Taken Value) :
    (arrive plan s a).2 = [] ↔ Silent plan s a := by
  unfold arrive Silent
  by_cases hv : a.2.validData = true
  · rw [if_pos hv, if_pos hv, (emit_eq ..).2, List.map_eq_nil_iff, results_eq_nil_iff]
  · rw [if_neg hv, if_neg hv]
    simp only [retire, List.filterMap_eq_nil_iff, ite_eq_right_iff, markerOf_eq_none_iff]
    constructor
    · intro h t c hc hthrough
      exact h (t, c) (SortedMap.get?_eq_some.mp hc) hthrough
    · intro h e he hthrough
      exact h e.1 e.2 (SortedMap.get?_eq_some.mpr he) hthrough

theorem run_produces_nothing_iff (as : List (Nat × Taken Value)) :
    produced (run (arrive plan) s as).2 = [] ↔ RunOk (arrive plan) (Silent plan) s as := by
  induction as generalizing s with
  | nil => simp [run, produced, RunOk]
  | cons a as ih =>
    have hcons : produced (run (arrive plan) s (a :: as)).2 =
        (arrive plan s a).2 ++ produced (run (arrive plan) (arrive plan s a).1 as).2 := rfl
    rw [hcons, List.append_eq_nil_iff, arrive_produces_nothing_iff, ih]
    rfl

theorem pumps_cons (e : Engine) (takes : List (Except ε (List (Taken Value))))
    (calls : List (List (Except ε (List (Taken Value))))) :
    pumps plan e (takes :: calls) = pumps plan (pump plan e takes).1 calls := rfl

theorem pump_sink (sink : List UserSample) (takes : List (Except ε (List (Taken Value)))) :
    (pump plan ⟨s, sink⟩ takes).1 =
      ⟨(pump plan ⟨s, []⟩ takes).1.state, sink ++ (pump plan ⟨s, []⟩ takes).1.sink⟩ := by
  simp only [pump]
  cases takeAll plan 0 (s, []) takes with
  | mk s' r =>
    cases r with
    | error err => simp
    | ok out => simp

theorem pumps_sink (sink : List UserSample) (calls : List (List (Except ε (List (Taken Value))))) :
    (pumps plan ⟨s, sink⟩ calls).sink = sink ++ (pumps plan ⟨s, []⟩ calls).sink := by
  induction calls generalizing s sink with
  | nil => simp [pumps]
  | cons takes calls ih =>
    rw [pumps_cons, pumps_cons, pump_sink, ih, List.append_assoc, ← ih]

def nothing (_ : Except ε (List (Taken Value))) : Except ε (List (Taken Value)) := .ok []

theorem pump_of_nothing (e : Engine) (before : List (List (Taken Value)))
    (rest : List (Except ε (List (Taken Value)))) :
    (pump plan e (before.map .ok ++ rest.map nothing)).1 =
      ⟨(run (arrive plan) e.state (arrivals 0 before)).1,
        e.sink ++ produced (run (arrive plan) e.state (arrivals 0 before)).2⟩ := by
  have hnils : ∀ (index : Nat) (acc : EngineState × List UserSample),
      takeAll plan index acc (rest.map nothing) = (acc.1, .ok acc.2) := by
    induction rest with
    | nil => exact fun _ _ => rfl
    | cons r rest ih =>
      intro index acc
      exact ih _ _
  rw [pump, takeAll_ok_append, hnils]
  rfl

/-- The inbox after a pump whose take fails, and after any later ones, is that of the
run in which the failing take returned nothing, exactly when the samples taken before
the failure were silent. -/
theorem failing_take_costs_nothing_iff (plan : MultiTopicPlan τ Expr) (e : Engine)
    (before : List (List (Taken Value))) (err : ε) (rest : List (Except ε (List (Taken Value))))
    (later : List (List (Except ε (List (Taken Value))))) :
    (pumps plan e ((before.map .ok ++ .error err :: rest) :: later)).sink =
      (pumps plan e ((before.map .ok ++ (.error err :: rest).map nothing) :: later)).sink ↔
      RunOk (arrive plan) (Silent plan) e.state (arrivals 0 before) := by
  rw [← run_produces_nothing_iff, pumps_cons, pumps_cons, pump_of_error, pump_of_nothing,
    pumps_sink, pumps_sink plan _ (e.sink ++ _), List.append_assoc]
  constructor
  · intro h
    have hlen := congrArg List.length h
    simp only [List.length_append] at hlen
    exact List.length_eq_zero_iff.mp (by omega)
  · intro h
    rw [h, List.nil_append]

namespace Fixture

/-- An order arrives for a customer that is known, and the reader of the customers
fails behind it: the sale it makes reaches the inbox neither then nor later. -/
theorem failing_take_loses_sale :
    ∃ plan : MultiTopicPlan LongType Above,
      MultiTopicPlan.new ⟨.all, none⟩ [order, customer] sales = .ok plan ∧
      let e := (pump (ε := Unit) plan ⟨.new 2, []⟩
        [.ok [], .ok [sampleOf 7 [(.customer, 5), (.country, 49)]]]).1
      let before := [[sampleOf 3 [(.id, 1), (.customer, 5), (.amount, 20)]]]
      (pumps plan e [before.map .ok ++ [.error ()], [.ok [], .ok []]]).sink = [] ∧
      (pumps plan e [before.map .ok ++ [nothing (.error ())], [.ok [], .ok []]]).sink =
        [.alive (some (hashOf [0, 0, 0, 1]))
          [1, 0, 0, 0, 5, 0, 0, 0, 20, 0, 0, 0, 49, 0, 0, 0] ⟨1, 0⟩] :=
  exists_ok_of_any (by decide +kernel)

end Fixture

end ZeroDds.MultiTopic
