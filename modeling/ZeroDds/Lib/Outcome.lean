/-
Computations that keep the state they reached when they stop with an error.

A method that changes its object step by step and may fail in between leaves the object as the
failing step found it.
-/
import Mathlib.Data.List.Forall2

namespace ZeroDds

abbrev Outcome (σ ε α : Type) := σ × Except ε α

namespace Outcome

variable {σ ε α β ι : Type}

def andThen (r : Outcome σ ε α) (f : σ → α → Outcome σ ε β) : Outcome σ ε β :=
  match r with
  | (s, .error e) => (s, .error e)
  | (s, .ok a) => f s a

@[simp] theorem andThen_ok (s : σ) (a : α) (f : σ → α → Outcome σ ε β) :
    andThen (s, .ok a) f = f s a := rfl

@[simp] theorem andThen_error (s : σ) (e : ε) (f : σ → α → Outcome σ ε β) :
    andThen (s, .error e) f = (s, .error e) := rfl

variable {t : σ}

theorem andThen_eq_ok {r : Outcome σ ε α} {f : σ → α → Outcome σ ε β} {b : β} :
    r.andThen f = (t, .ok b) ↔ ∃ s a, r = (s, .ok a) ∧ f s a = (t, .ok b) := by
  obtain ⟨s, e | a⟩ := r <;> simp [andThen]

theorem exists_ok_of_map {r : Except ε α} {f : α → β} {b : β} (h : r.toOption.map f = some b) :
    ∃ a, r = .ok a ∧ f a = b := by
  cases r with
  | error e => cases h
  | ok a => exact ⟨a, rfl, Option.some.inj h⟩

/-- Every item's turn in order, with the item as the turn leaves it; the first
error ends the traversal and leaves the later items as they were. -/
def traverse (f : σ → ι → Outcome (σ × ι) ε (List β)) :
    σ → List ι → Outcome (σ × List ι) ε (List β)
  | s, [] => ((s, []), .ok [])
  | s, i :: is =>
    match f s i with
    | ((s, i), .error e) => ((s, i :: is), .error e)
    | ((s, i), .ok out) =>
      match traverse f s is with
      | ((s, is), .error e) => ((s, i :: is), .error e)
      | ((s, is), .ok rest) => ((s, i :: is), .ok (out ++ rest))

variable {f : σ → ι → Outcome (σ × ι) ε (List β)} {s : σ} {is js : List ι} {out : List β}

theorem traverse_cons_ok {i : ι} (h : traverse f s (i :: is) = ((t, js), .ok out)) :
    ∃ s' i' is' out' rest, f s i = ((s', i'), .ok out') ∧
      traverse f s' is = ((t, is'), .ok rest) ∧ js = i' :: is' ∧ out = out' ++ rest := by
  simp only [traverse] at h
  split at h
  · simp at h
  · next s' i' out' hf =>
    split at h
    · simp at h
    · next t' is' rest hrest =>
      obtain ⟨⟨rfl, rfl⟩, rfl⟩ := h
      exact ⟨s', i', is', out', rest, hf, hrest, rfl, rfl⟩

theorem traverse_ok_iff {Q : ι → Prop} (hf : ∀ s i, (∃ out, (f s i).2 = .ok out) ↔ Q i) (s : σ)
    (is : List ι) : (∃ out, (traverse f s is).2 = .ok out) ↔ ∀ i ∈ is, Q i := by
  induction is generalizing s with
  | nil => simp [traverse]
  | cons i is ih =>
    rw [List.forall_mem_cons, ← hf s i]
    simp only [traverse]
    rcases f s i with ⟨⟨s', i'⟩, e | out⟩
    · simp
    · rw [← ih s']
      rcases htr : traverse f s' is with ⟨⟨t, is'⟩, e | rest⟩ <;> simp [htr]

theorem traverse_outputs_iff {R : β → Prop} {Q : ι → Prop}
    (hf : ∀ i ∈ is, ∀ s s' i' out, f s i = ((s', i'), .ok out) → ((∀ b ∈ out, R b) ↔ Q i))
    (h : traverse f s is = ((t, js), .ok out)) : (∀ b ∈ out, R b) ↔ ∀ i ∈ is, Q i := by
  induction is generalizing s js out with
  | nil =>
    obtain ⟨-, rfl⟩ := h
    simp
  | cons i is ih =>
    obtain ⟨s', i', is', out', rest, hturn, hrest, rfl, rfl⟩ := traverse_cons_ok h
    rw [List.forall_mem_append, List.forall_mem_cons, hf i List.mem_cons_self _ _ _ _ hturn,
      ih (fun i hi => hf i (List.mem_cons_of_mem _ hi)) hrest]

theorem traverse_forall₂ {R : ι → ι → List β → Prop}
    (hf : ∀ i ∈ is, ∀ s s' i' out, f s i = ((s', i'), .ok out) → R i i' out)
    (h : traverse f s is = ((t, js), .ok out)) :
    List.Forall₂ (fun i j => ∃ own, own ⊆ out ∧ R i j own) is js := by
  induction is generalizing s js out with
  | nil =>
    simp only [traverse, Prod.mk.injEq] at h
    rw [← h.1.2]
    exact .nil
  | cons i is ih =>
    obtain ⟨s', i', is', out', rest, hturn, hrest, rfl, rfl⟩ := traverse_cons_ok h
    have hothers := ih (fun i hi => hf i (List.mem_cons_of_mem _ hi)) hrest
    refine .cons ⟨out', List.subset_append_left _ _, hf i List.mem_cons_self _ _ _ _ hturn⟩ ?_
    exact hothers.imp fun i j ⟨own, hown, hR⟩ =>
      ⟨own, List.Subset.trans hown (List.subset_append_right _ _), hR⟩

def traverseNotes {γ : Type} (f : σ → ι → Outcome (σ × ι) ε (List β)) (notes : σ → ι → List γ) :
    σ → List ι → List γ
  | _, [] => []
  | s, i :: is =>
    notes s i ++
      match f s i with
      | (_, .error _) => []
      | ((s, _), .ok _) => traverseNotes f notes s is

theorem traverse_keeps_items {γ : Type} {notes : σ → ι → List γ} {P : ι → Prop} {Q : γ → Prop}
    (hf : ∀ s i, P i → (∀ n ∈ notes s i, Q n) ∧ P (f s i).1.2) (s : σ) (h : ∀ i ∈ is, P i) :
    (∀ n ∈ traverseNotes f notes s is, Q n) ∧ ∀ i ∈ (traverse f s is).1.2, P i := by
  induction is generalizing s with
  | nil => exact ⟨by simp [traverseNotes], by simp [traverse]⟩
  | cons i is ih =>
    obtain ⟨hi, hrest⟩ := List.forall_mem_cons.mp h
    obtain ⟨hnotes, hturn⟩ := hf s i hi
    simp only [traverseNotes, traverse]
    rcases hfi : f s i with ⟨⟨s', i'⟩, e | out⟩ <;> rw [hfi] at hturn
    · exact ⟨by simpa using hnotes, List.forall_mem_cons.mpr ⟨hturn, hrest⟩⟩
    · obtain ⟨hnotes', hitems⟩ := ih s' hrest
      refine ⟨List.forall_mem_append.mpr ⟨hnotes, hnotes'⟩, ?_⟩
      rcases htr : traverse f s' is with ⟨⟨t, is'⟩, e | rest⟩ <;> rw [htr] at hitems <;>
        simp only [htr] <;> exact List.forall_mem_cons.mpr ⟨hturn, hitems⟩

theorem traverse_modify {g : ι → ι} {keepItem : ι → Bool} {keep : β → Bool} {t' : σ}
    {js' : List ι} {idx : Nat} {out' : List β}
    (hturn : ∀ s i, is[idx]? = some i → ∀ s₁ i₁ out₁ s₂ i₂ out₂,
      f s i = ((s₁, i₁), .ok out₁) → f s (g i) = ((s₂, i₂), .ok out₂) →
        s₁ = s₂ ∧ [i₁].filter keepItem = [i₂].filter keepItem ∧
          out₁.filter keep = out₂.filter keep) (h : traverse f s is = ((t, js), .ok out))
    (h' : traverse f s (is.modify idx g) = ((t', js'), .ok out')) :
    t = t' ∧ js.filter keepItem = js'.filter keepItem ∧ out.filter keep = out'.filter keep := by
  induction is generalizing s js js' idx out out' with
  | nil =>
    simp only [List.modify_nil, traverse, Prod.mk.injEq, Except.ok.injEq] at h h'
    obtain ⟨⟨rfl, rfl⟩, rfl⟩ := h
    obtain ⟨⟨rfl, rfl⟩, rfl⟩ := h'
    exact ⟨rfl, rfl, rfl⟩
  | cons i is ih =>
    obtain ⟨s₁, i₁, is₁, out₁, rest₁, hturn₁, hrest₁, rfl, rfl⟩ := traverse_cons_ok h
    cases idx with
    | zero =>
      obtain ⟨s₂, i₂, is₂, out₂, rest₂, hturn₂, hrest₂, rfl, rfl⟩ := traverse_cons_ok h'
      obtain ⟨rfl, hitem, hout⟩ := hturn s i rfl _ _ _ _ _ _ hturn₁ hturn₂
      rw [hrest₁] at hrest₂
      obtain ⟨⟨rfl, rfl⟩, rfl⟩ := hrest₂
      refine ⟨rfl, ?_, by simp [List.filter_append, hout]⟩
      rw [← List.singleton_append, List.filter_append, hitem, ← List.filter_append,
        List.singleton_append]
    | succ idx =>
      obtain ⟨s₂, i₂, is₂, out₂, rest₂, hturn₂, hrest₂, rfl, rfl⟩ := traverse_cons_ok h'
      rw [hturn₁] at hturn₂
      obtain ⟨⟨rfl, rfl⟩, rfl⟩ := hturn₂
      obtain ⟨rfl, hitems, hout⟩ := ih (fun s i hi => hturn s i (by simpa using hi)) hrest₁ hrest₂
      exact ⟨rfl, by simp [List.filter_cons, hitems], by simp [List.filter_append, hout]⟩

end Outcome
end ZeroDds
