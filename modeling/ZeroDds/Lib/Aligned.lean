/-
Two lists kept in step.

A development that notes something beside each item of a list carries `List.Forall₂` through every
operation on the list.
-/
import Mathlib.Data.List.Forall2

namespace ZeroDds

variable {α β : Type} {R : α → β → Prop} {l : List α} {l' : List β}
  {f : α → α} {a : α} {p : α → Bool} {q : β → Bool}

section

variable (h : List.Forall₂ R l l')
include h

theorem forall₂_modify (idx : Nat) {g : β → β}
    (hfg : ∀ a b, R a b → R (f a) (g b)) : List.Forall₂ R (l.modify idx f) (l'.modify idx g) := by
  induction h generalizing idx with
  | nil => cases idx <;> exact .nil
  | cons hab hrest ih =>
    cases idx with
    | zero => exact .cons (hfg _ _ hab) hrest
    | succ idx => exact .cons hab (ih idx)

theorem forall₂_set (idx : Nat) {b : β} (hab : R a b) :
    List.Forall₂ R (l.set idx a) (l'.set idx b) := by
  induction h generalizing idx with
  | nil => exact .nil
  | cons hxy hrest ih =>
    cases idx with
    | zero => exact .cons hab hrest
    | succ idx => exact .cons hxy (ih idx)

theorem forall₂_eraseIdx (idx : Nat) :
    List.Forall₂ R (l.eraseIdx idx) (l'.eraseIdx idx) := by
  induction h generalizing idx with
  | nil => exact .nil
  | cons hab hrest ih =>
    cases idx with
    | zero => exact hrest
    | succ idx => exact .cons hab (ih idx)

theorem forall₂_modify_left (idx : Nat)
    (hf : ∀ a b, l[idx]? = some a → R a b → R (f a) b) : List.Forall₂ R (l.modify idx f) l' := by
  induction h generalizing idx with
  | nil => cases idx <;> exact .nil
  | cons hab hrest ih =>
    cases idx with
    | zero => exact .cons (hf _ _ rfl hab) hrest
    | succ idx => exact .cons hab (ih idx hf)

theorem forall₂_append {m : List α} {m' : List β}
    (hm : List.Forall₂ R m m') : List.Forall₂ R (l ++ m) (l' ++ m') := by
  induction h with
  | nil => exact hm
  | cons hab _ ih => exact .cons hab ih

theorem forall₂_getElem? {k : Nat} (ha : l[k]? = some a) :
    ∃ b, l'[k]? = some b ∧ R a b := by
  induction h generalizing k with
  | nil => simp at ha
  | cons hab _ ih =>
    cases k with
    | zero =>
      obtain rfl := Option.some.inj ha
      exact ⟨_, rfl, hab⟩
    | succ k => exact ih (by simpa using ha)

theorem forall₂_filter_zip (p : α → Bool) :
    List.Forall₂ R (l.filter p) (((l.zip l').filter fun e => p e.1).map Prod.snd) := by
  induction h with
  | nil => exact .nil
  | @cons a b l l' hab _ ih =>
    rw [List.zip_cons_cons, List.filter_cons, List.filter_cons]
    by_cases ha : p a = true
    · rw [if_pos ha, if_pos ha, List.map_cons]
      exact .cons hab ih
    · rw [if_neg ha, if_neg ha]
      exact ih

theorem forall₂_find? (hpq : ∀ a b, R a b → p a = q b) :
    (l.find? p = none ∧ l'.find? q = none) ∨
      ∃ a b, l.find? p = some a ∧ l'.find? q = some b ∧ R a b := by
  induction h with
  | nil => exact .inl ⟨rfl, rfl⟩
  | @cons a b l l' hab _ ih =>
    rw [List.find?_cons, List.find?_cons, ← hpq a b hab]
    cases p a with
    | true => exact .inr ⟨a, b, rfl, rfl, hab⟩
    | false => exact ih

theorem forall₂_trans {γ : Type} {S : β → γ → Prop} {T : α → γ → Prop} {l'' : List γ}
    (h' : List.Forall₂ S l' l'')
    (hRST : ∀ a b c, R a b → S b c → T a c) : List.Forall₂ T l l'' := by
  induction h generalizing l'' with
  | nil =>
    cases h'
    exact .nil
  | cons hab _ ih =>
    cases h' with
    | cons hbc hrest => exact .cons (hRST _ _ _ hab hbc) (ih hrest)

theorem forall₂_any (hpq : ∀ a b, R a b → p a = q b) :
    l.any p = l'.any q := by
  induction h with
  | nil => rfl
  | cons hab _ ih => rw [List.any_cons, List.any_cons, hpq _ _ hab, ih]

end

end ZeroDds
