/-
A walk over a graph with a list of work.

`firstMiss` takes nodes off a stack, one at a time, and puts those that each one leads to on top of
it; a node that cannot be expanded ends the walk and is its result.
-/
import Mathlib.Data.List.Nodup
import Mathlib.Data.List.Perm.Subperm
import Mathlib.Data.List.TakeWhile

namespace ZeroDds.Worklist

variable {α ε : Type} [DecidableEq α] (expand : α → Except ε (List α))

def firstMiss : Nat → List α → List α → Option ε
  | 0, _, _ => none
  | left + 1, queue, seen =>
    match queue.dropWhile fun a => a ∈ seen with
    | [] => none
    | a :: rest =>
      match expand a with
      | .error miss => some miss
      | .ok next =>
        firstMiss left ((next.filter fun b => b ∉ a :: seen).reverse ++ rest) (a :: seen)

variable {expand}

def Closed (expand : α → Except ε (List α)) (nodes : List α) : Prop :=
  ∀ a ∈ nodes, ∀ next, expand a = .ok next → ∀ b ∈ next, b ∈ nodes

variable {seen queue : List α} {a : α}

theorem mem_seen_of_full {nodes : List α} (hnodup : seen.Nodup) (hseen : seen ⊆ nodes)
    (hfull : nodes.length ≤ seen.length) (ha : a ∈ nodes) : a ∈ seen := by
  by_contra hnot
  have hsub : (a :: seen).Subperm nodes :=
    (List.nodup_cons.mpr ⟨hnot, hnodup⟩).subperm (List.cons_subset.mpr ⟨ha, hseen⟩)
  have hlength := hsub.length_le
  rw [List.length_cons] at hlength
  omega

theorem mem_of_mem_dropWhile_nil (h : (queue.dropWhile fun a => a ∈ seen) = []) (ha : a ∈ queue) :
    a ∈ seen := by
  simpa using List.dropWhile_eq_nil_iff.mp h a ha

theorem mem_of_dropWhile_cons {rest : List α} {b : α}
    (h : (queue.dropWhile fun a => a ∈ seen) = a :: rest) (hb : b ∈ queue) :
    b ∈ seen ∨ b = a ∨ b ∈ rest := by
  rw [← List.takeWhile_append_dropWhile (p := fun a => decide (a ∈ seen)) (l := queue), h,
    List.mem_append, List.mem_cons] at hb
  rcases hb with hb | hb
  · exact Or.inl (by simpa using List.mem_takeWhile_imp hb)
  · exact Or.inr hb

theorem closed_of_firstMiss {nodes : List α} (hclosed : Closed expand nodes) {left : Nat}
    (hqueue : queue ⊆ nodes) (hseen : seen ⊆ nodes) (hnodup : seen.Nodup)
    (hroom : nodes.length ≤ seen.length + left) (hnone : firstMiss expand left queue seen = none) :
    ∃ S : List α, seen ⊆ S ∧ queue ⊆ S ∧
      ∀ a ∈ S, a ∈ seen ∨ ∃ next, expand a = .ok next ∧ next ⊆ S := by
  induction left generalizing queue seen with
  | zero =>
    refine ⟨seen, fun a ha => ha, fun a ha => ?_, fun a ha => Or.inl ha⟩
    exact mem_seen_of_full hnodup hseen hroom (hqueue ha)
  | succ left ih =>
    rw [firstMiss] at hnone
    cases hdrop : queue.dropWhile fun a => a ∈ seen with
    | nil =>
      exact ⟨seen, fun a ha => ha, fun a ha => mem_of_mem_dropWhile_nil hdrop ha,
        fun a ha => Or.inl ha⟩
    | cons a rest =>
      have hmem : ∀ b ∈ a :: rest, b ∈ queue := fun b hb =>
        (List.dropWhile_sublist _).subset (hdrop ▸ hb)
      have hnew : a ∉ seen := by
        have hhead := List.head?_dropWhile_not (fun a => decide (a ∈ seen)) queue
        rw [hdrop] at hhead
        simpa using hhead
      simp only [hdrop] at hnone
      cases hexpand : expand a with
      | error miss => simp [hexpand] at hnone
      | ok next =>
        simp only [hexpand] at hnone
        have ha : a ∈ nodes := hqueue (hmem a List.mem_cons_self)
        have hqueue' : (next.filter fun b => b ∉ a :: seen).reverse ++ rest ⊆ nodes := by
          intro b hb
          rcases List.mem_append.mp hb with hb | hb
          · have hb' := List.mem_of_mem_filter (List.mem_reverse.mp hb)
            exact hclosed a ha next hexpand b hb'
          · exact hqueue (hmem b (List.mem_cons_of_mem a hb))
        obtain ⟨S, hseen', hin, hS⟩ := ih hqueue' (List.cons_subset.mpr ⟨ha, hseen⟩)
          (List.nodup_cons.mpr ⟨hnew, hnodup⟩) (by rw [List.length_cons]; omega) hnone
        have hnext : next ⊆ S := by
          intro b hb
          by_cases hb' : b ∈ a :: seen
          · exact hseen' hb'
          · refine hin (List.mem_append_left _ (List.mem_reverse.mpr ?_))
            exact List.mem_filter.mpr ⟨hb, by simpa using hb'⟩
        refine ⟨S, fun b hb => hseen' (List.mem_cons_of_mem a hb), fun b hb => ?_, fun b hb => ?_⟩
        · rcases mem_of_dropWhile_cons hdrop hb with hb | rfl | hb
          · exact hseen' (List.mem_cons_of_mem a hb)
          · exact hseen' List.mem_cons_self
          · exact hin (List.mem_append_right _ hb)
        · rcases hS b hb with hb | hb
          · rcases List.mem_cons.mp hb with rfl | hb
            · exact Or.inr ⟨next, hexpand, hnext⟩
            · exact Or.inl hb
          · exact Or.inr hb

end ZeroDds.Worklist
