/-
Lists by position.

What is in a list after a change at one position, and which part of a list of lists belongs to a
key when every position has a key of its own.
-/
import Mathlib.Data.List.Nodup

namespace ZeroDds

section Change

variable {α : Type} {l : List α} {i : Nat}

theorem mem_modify {f : α → α} {b : α} (h : b ∈ l.modify i f) :
    b ∈ l ∨ ∃ a, l[i]? = some a ∧ b = f a := by
  obtain ⟨k, hk⟩ := List.getElem?_of_mem h
  rw [List.getElem?_modify] at hk
  obtain ⟨a, hget, rfl⟩ := Option.map_eq_some_iff.mp hk
  split
  · next heq => exact .inr ⟨a, heq ▸ hget, rfl⟩
  · exact .inl (List.mem_of_getElem? hget)

theorem forall_mem_modify {P : α → Prop} (h : ∀ a ∈ l, P a) (i : Nat) {f : α → α}
    (hf : ∀ a, P a → P (f a)) : ∀ b ∈ l.modify i f, P b := by
  intro b hb
  rcases mem_modify hb with hb | ⟨a, ha, rfl⟩
  · exact h b hb
  · exact hf a (h a (List.mem_of_getElem? ha))

theorem forall_mem_set {P : α → Prop} (h : ∀ a ∈ l, P a) (i : Nat) {a : α} (ha : P a) :
    ∀ b ∈ l.set i a, P b := by
  intro b hb
  rcases List.mem_or_eq_of_mem_set hb with hb | rfl
  · exact h b hb
  · exact ha

end Change

theorem filter_flatten_of_nodup {α κ : Type} [DecidableEq κ] {f : α → κ} {outs : List (List α)}
    {keys : List κ} (hkeys : keys.Nodup)
    (hkey : ∀ (k : Nat) out, outs[k]? = some out → ∀ x ∈ out, keys[k]? = some (f x))
    {k : Nat} {w : κ}
    {out : List α} (hw : keys[k]? = some w) (hout : outs[k]? = some out) :
    outs.flatten.filter (fun x => f x = w) = out := by
  induction outs generalizing keys k with
  | nil => simp at hout
  | cons first outs ih =>
    cases keys with
    | nil => simp at hw
    | cons key keys =>
      obtain ⟨hnotin, hnodup⟩ := List.nodup_cons.mp hkeys
      have hfirst : ∀ x ∈ first, key = f x := fun x hx => by
        simpa using hkey 0 first rfl x hx
      have hrest : ∀ (k : Nat) out, outs[k]? = some out → ∀ x ∈ out, keys[k]? = some (f x) :=
        fun k out h => hkey (k + 1) out h
      rw [List.flatten_cons, List.filter_append]
      cases k with
      | zero =>
        obtain rfl : first = out := by simpa using hout
        obtain rfl : key = w := by simpa using hw
        have hall : first.filter (fun x => f x = key) = first :=
          List.filter_eq_self.mpr fun x hx => by simp [hfirst x hx]
        have hnone : outs.flatten.filter (fun x => f x = key) = [] := by
          rw [List.filter_eq_nil_iff]
          intro x hx
          obtain ⟨o, ho, hxo⟩ := List.mem_flatten.mp hx
          obtain ⟨j, hj⟩ := List.getElem?_of_mem ho
          have hmem := List.mem_of_getElem? (hrest j o hj x hxo)
          intro heq
          exact hnotin (by simpa using of_decide_eq_true heq ▸ hmem)
        rw [hall, hnone, List.append_nil]
      | succ k =>
        have hw' : keys[k]? = some w := hw
        have hnone : first.filter (fun x => f x = w) = [] := by
          rw [List.filter_eq_nil_iff]
          intro x hx heq
          have hkw : key = w := (hfirst x hx).trans (of_decide_eq_true heq)
          exact hnotin (hkw ▸ List.mem_of_getElem? hw')
        rw [hnone, List.nil_append]
        exact ih hnodup hrest hw' hout

end ZeroDds
