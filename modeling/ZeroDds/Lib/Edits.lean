/-
Edits of a map, in order and regrouped.

A batch of edits can be applied one by one, or all its puts first and its drops behind them.
-/
import ZeroDds.Lib.SortedMap

namespace ZeroDds

open SortedMap

inductive Edit (K V : Type) where
  | put (k : K) (v : V)
  | drop (k : K)

namespace Edit

variable {K V : Type}

def puts : List (Edit K V) → List (K × V)
  | [] => []
  | .put k v :: es => (k, v) :: puts es
  | .drop _ :: es => puts es

def drops : List (Edit K V) → List K
  | [] => []
  | .put _ _ :: es => drops es
  | .drop k :: es => k :: drops es

def Settled : List (Edit K V) → Prop
  | [] => True
  | .put _ _ :: es => Settled es
  | .drop k :: es => (k ∈ drops es ∨ k ∉ (puts es).map Prod.fst) ∧ Settled es

variable [LinearOrder K]

instance Settled.decidable : (es : List (Edit K V)) → Decidable (Settled es)
  | [] => .isTrue trivial
  | .put _ _ :: es => Settled.decidable es
  | .drop k :: es =>
    have := Settled.decidable es
    inferInstanceAs (Decidable ((k ∈ drops es ∨ k ∉ (puts es).map Prod.fst) ∧ Settled es))

variable (m : SortedMap K V)

def apply : Edit K V → SortedMap K V
  | .put k v => m.insert k v
  | .drop k => m.erase k

def putAll (kvs : List (K × V)) : SortedMap K V :=
  kvs.foldl (fun m e => m.insert e.1 e.2) m

def dropAll (ks : List K) : SortedMap K V := ks.foldl SortedMap.erase m

def regrouped (es : List (Edit K V)) : SortedMap K V :=
  dropAll (putAll m (puts es)) (drops es)

variable (m : SortedMap K V)

theorem get?_dropAll (ks : List K) (k : K) :
    (dropAll m ks).get? k = if k ∈ ks then none else m.get? k := by
  induction ks generalizing m with
  | nil => simp [dropAll]
  | cons j ks ih =>
    have hcons : dropAll m (j :: ks) = dropAll (m.erase j) ks := rfl
    rw [hcons, ih, get?_erase]
    by_cases hk : k ∈ ks
    · simp [hk]
    · by_cases hj : k = j <;> simp [hk, hj]

variable {kvs : List (K × V)} {k : K}

theorem get?_putAll_of_not_mem (hk : k ∉ kvs.map Prod.fst) : (putAll m kvs).get? k = m.get? k := by
  induction kvs generalizing m with
  | nil => rfl
  | cons e kvs ih =>
    rw [List.map_cons, List.mem_cons, not_or] at hk
    have hcons : putAll m (e :: kvs) = putAll (m.insert e.1 e.2) kvs := rfl
    rw [hcons, ih _ hk.2, get?_insert, if_neg hk.1]

theorem get?_putAll_of_mem (hk : k ∈ kvs.map Prod.fst) :
    ∃ v, ∀ m : SortedMap K V, (putAll m kvs).get? k = some v := by
  induction kvs with
  | nil => cases hk
  | cons e kvs ih =>
    by_cases hrest : k ∈ kvs.map Prod.fst
    · obtain ⟨v, hv⟩ := ih hrest
      exact ⟨v, fun m => hv (m.insert e.1 e.2)⟩
    · rw [List.map_cons, List.mem_cons] at hk
      have hk' : k = e.1 := hk.resolve_right hrest
      refine ⟨e.2, fun m => ?_⟩
      have hcons : putAll m (e :: kvs) = putAll (m.insert e.1 e.2) kvs := rfl
      rw [hcons, get?_putAll_of_not_mem _ hrest, hk', get?_insert_self]

def lastPut (k : K) : List (K × V) → Option V
  | [] => none
  | e :: kvs => (lastPut k kvs).or (if k = e.1 then some e.2 else none)

theorem get?_putAll (kvs : List (K × V)) (k : K) :
    (putAll m kvs).get? k = (lastPut k kvs).or (m.get? k) := by
  induction kvs generalizing m with
  | nil => rfl
  | cons e kvs ih =>
    have hcons : putAll m (e :: kvs) = putAll (m.insert e.1 e.2) kvs := rfl
    rw [hcons, ih, lastPut, Option.or_assoc, get?_insert]
    split <;> rfl

theorem putAll_append (kvs kvs' : List (K × V)) :
    putAll m (kvs ++ kvs') = putAll (putAll m kvs) kvs' :=
  List.foldl_append

def Agrees (m : SortedMap K V) (kvs : List (K × V)) : Prop :=
  ∀ k v v', m.get? k = some v → lastPut k kvs = some v' → v' = v

theorem keeps_putAll_iff {m : SortedMap K V} : m.Keeps (putAll m kvs) ↔ Agrees m kvs := by
  constructor
  · intro hkeeps k v v' hv hv'
    have hput : (putAll m kvs).get? k = some v' := by rw [get?_putAll, hv', Option.some_or]
    exact Option.some.inj (hput.symm.trans (hkeeps k v hv))
  · intro hagrees k v hv
    rw [get?_putAll]
    cases hput : lastPut k kvs with
    | none => rw [Option.none_or, hv]
    | some v' => rw [hagrees k v v' hv hput, Option.some_or]

theorem keeps_putAll_of_new {m : SortedMap K V} (hnew : ∀ e ∈ kvs, m.get? e.1 = none) :
    m.Keeps (putAll m kvs) := by
  intro k v hv
  have hk : k ∉ kvs.map Prod.fst := by
    intro hmem
    obtain ⟨e, he, rfl⟩ := List.mem_map.mp hmem
    rw [hnew e he] at hv
    cases hv
  rw [get?_putAll_of_not_mem _ hk, hv]

theorem get?_foldl_apply_of_not_dropped {es : List (Edit K V)} (hk : k ∉ drops es) :
    (es.foldl apply m).get? k = (putAll m (puts es)).get? k := by
  induction es generalizing m with
  | nil => rfl
  | cons e es ih =>
    cases e with
    | put j v => exact ih (m.insert j v) hk
    | drop j =>
      rw [drops, List.mem_cons, not_or] at hk
      rw [List.foldl_cons, ih _ hk.2]
      by_cases hput : k ∈ (puts es).map Prod.fst
      · obtain ⟨v, hv⟩ := get?_putAll_of_mem hput
        rw [hv]
        exact (hv m).symm
      · rw [get?_putAll_of_not_mem _ hput]
        show (m.erase j).get? k = (putAll m (puts es)).get? k
        rw [get?_putAll_of_not_mem _ hput, get?_erase, if_neg hk.1]

theorem regrouped_drop {es : List (Edit K V)} (hk : k ∈ drops es ∨ k ∉ (puts es).map Prod.fst)
    (m : SortedMap K V) : regrouped (m.erase k) es = regrouped m (.drop k :: es) := by
  refine ext_get? fun j => ?_
  unfold regrouped
  rw [get?_dropAll, get?_dropAll, drops, puts]
  by_cases hdrop : j ∈ drops es
  · simp [hdrop]
  · simp only [hdrop, if_false, List.mem_cons, or_false]
    by_cases hput : j ∈ (puts es).map Prod.fst
    · obtain ⟨v, hv⟩ := get?_putAll_of_mem hput
      have hne : j ≠ k := by
        rintro rfl
        exact hk.elim hdrop fun h => h hput
      rw [hv, hv, if_neg hne]
    · rw [get?_putAll_of_not_mem _ hput, get?_putAll_of_not_mem _ hput, get?_erase]

theorem foldl_apply_eq_regrouped_iff (es : List (Edit K V)) :
    es.foldl apply m = regrouped m es ↔ Settled es := by
  induction es generalizing m with
  | nil => exact ⟨fun _ => trivial, fun _ => rfl⟩
  | cons e es ih =>
    cases e with
    | put k v => exact ih (m.insert k v)
    | drop k =>
      have hfirst : (Edit.drop k :: es).foldl apply m = es.foldl apply (m.erase k) := rfl
      rw [hfirst]
      constructor
      · intro heq
        have hk : k ∈ drops es ∨ k ∉ (puts es).map Prod.fst := by
          by_contra hnot
          push Not at hnot
          obtain ⟨hdrop, hput⟩ := hnot
          obtain ⟨v, hv⟩ := get?_putAll_of_mem hput
          have hsome := get?_foldl_apply_of_not_dropped (m.erase k) hdrop
          rw [heq, hv, regrouped, get?_dropAll, drops, if_pos List.mem_cons_self] at hsome
          cases hsome
        exact ⟨hk, (ih _).mp (heq.trans (regrouped_drop hk m).symm)⟩
      · rintro ⟨hk, hrest⟩
        rw [(ih _).mpr hrest, regrouped_drop hk]

end Edit

end ZeroDds
