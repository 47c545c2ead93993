/-
Exhaustive search for lists, place by place.

`extend candidates fits k chosen` lists every way to go on from `chosen` for `k` more places: a
place takes one of its candidates, if it fits what stands before it.
-/
import Mathlib.Data.List.Nodup
import Mathlib.Data.List.TakeDrop

namespace ZeroDds.Search

variable {α : Type} (candidates : Nat → List α) (fits : List α → α → Bool)

def extend : Nat → List α → List (List α)
  | 0, chosen => [chosen]
  | k + 1, chosen =>
    (candidates chosen.length).flatMap fun a =>
      if fits chosen a then extend k (chosen ++ [a]) else []

/-- Every place of `t` from `start` on holds a candidate that fits the places before it. -/
def FitsFrom (start : Nat) (t : List α) : Prop :=
  ∀ i a, start ≤ i → t[i]? = some a → a ∈ candidates i ∧ fits (t.take i) a = true

variable {candidates fits}

theorem mem_extend_succ {k : Nat} {chosen t : List α} :
    t ∈ extend candidates fits (k + 1) chosen ↔
      ∃ a ∈ candidates chosen.length, fits chosen a = true ∧
        t ∈ extend candidates fits k (chosen ++ [a]) := by
  simp [extend]

theorem mem_extend {k : Nat} {chosen t : List α} :
    t ∈ extend candidates fits k chosen ↔
      chosen <+: t ∧ t.length = chosen.length + k ∧ FitsFrom candidates fits chosen.length t := by
  induction k generalizing chosen with
  | zero =>
    rw [extend, List.mem_singleton]
    constructor
    · rintro rfl
      refine ⟨List.prefix_rfl, rfl, fun i a hi ha => ?_⟩
      rw [List.getElem?_eq_none hi] at ha
      cases ha
    · rintro ⟨hpre, hlen, -⟩
      exact (hpre.eq_of_length (by omega)).symm
  | succ k ih =>
    rw [mem_extend_succ]
    constructor
    · rintro ⟨a, ha, hfits, ht⟩
      obtain ⟨hpre, hlen, hfrom⟩ := ih.mp ht
      have hchosen : chosen <+: t := (List.prefix_append _ _).trans hpre
      refine ⟨hchosen, by simp at hlen; omega, fun i b hi hb => ?_⟩
      rcases Nat.eq_or_lt_of_le hi with rfl | hlt
      · have hat : t[chosen.length]? = some a := by
          obtain ⟨u, rfl⟩ := hpre
          simp
        rw [hat] at hb
        cases hb
        rw [← List.prefix_iff_eq_take.mp hchosen]
        exact ⟨ha, hfits⟩
      · exact hfrom i b (by simp; omega) hb
    · rintro ⟨hpre, hlen, hfrom⟩
      obtain ⟨a, hat⟩ : ∃ a, t[chosen.length]? = some a :=
        ⟨_, List.getElem?_eq_getElem (by omega)⟩
      obtain ⟨ha, hfits⟩ := hfrom chosen.length a (Nat.le_refl _) hat
      rw [← List.prefix_iff_eq_take.mp hpre] at hfits
      refine ⟨a, ha, hfits, ih.mpr ⟨?_, by simp; omega, fun i b hi hb => ?_⟩⟩
      · obtain ⟨u, rfl⟩ := hpre
        cases u with
        | nil => simp at hat
        | cons b u =>
          rw [List.getElem?_append_right (Nat.le_refl _), Nat.sub_self] at hat
          cases hat
          exact ⟨u, by simp⟩
      · exact hfrom i b (by simp at hi; omega) hb

theorem nodup_extend (h : ∀ i, (candidates i).Nodup) (k : Nat) (chosen : List α) :
    (extend candidates fits k chosen).Nodup := by
  induction k generalizing chosen with
  | zero => exact List.nodup_singleton _
  | succ k ih =>
    refine List.nodup_flatMap.mpr ⟨fun a _ => ?_, (h _).imp fun {a b} hne => ?_⟩
    · by_cases hfits : fits chosen a = true
      · rw [if_pos hfits]
        exact ih _
      · rw [if_neg hfits]
        exact List.nodup_nil
    · -- Two results are told apart by the candidate chosen here.
      intro t ha hb
      simp only [List.mem_ite_nil_right] at ha hb
      have hpa := (mem_extend.mp ha.2).1
      have hpb := (mem_extend.mp hb.2).1
      have := List.prefix_of_prefix_length_le hpa hpb (by simp)
      exact hne (by simpa using this.eq_of_length (by simp))

theorem findSome?_zipIdx {β : Type} {f : α × Nat → Option β} {l : List α} {b : β} :
    l.zipIdx.findSome? f = some b ↔ ∃ j a, l[j]? = some a ∧ f (a, j) = some b ∧
      ∀ j' < j, ∀ a', l[j']? = some a' → f (a', j') = none := by
  have key : ∀ (l : List α) (n : Nat), (l.zipIdx n).findSome? f = some b ↔
      ∃ j a, l[j]? = some a ∧ f (a, n + j) = some b ∧
        ∀ j' < j, ∀ a', l[j']? = some a' → f (a', n + j') = none := by
    intro l
    induction l with
    | nil => intro n; simp
    | cons x l ih =>
      intro n
      rw [List.zipIdx_cons, List.findSome?_cons]
      cases hx : f (x, n) with
      | some c =>
        constructor
        · intro h
          cases h
          exact ⟨0, x, rfl, hx, fun j' hj' => absurd hj' (Nat.not_lt_zero j')⟩
        · rintro ⟨j, a, ha, hf, hbefore⟩
          cases j with
          | zero =>
            cases ha
            rw [Nat.add_zero, hx] at hf
            exact hf
          | succ j =>
            have := hbefore 0 (Nat.succ_pos j) x rfl
            rw [Nat.add_zero, hx] at this
            cases this
      | none =>
        rw [ih (n + 1)]
        constructor
        · rintro ⟨j, a, ha, hf, hbefore⟩
          refine ⟨j + 1, a, ha, by rw [← hf]; congr 2; omega, fun j' hj' a' ha' => ?_⟩
          cases j' with
          | zero =>
            cases ha'
            exact hx
          | succ j' =>
            rw [← hbefore j' (by omega) a' ha']
            congr 2
            omega
        · rintro ⟨j, a, ha, hf, hbefore⟩
          cases j with
          | zero =>
            cases ha
            rw [Nat.add_zero, hx] at hf
            cases hf
          | succ j =>
            refine ⟨j, a, ha, by rw [← hf]; congr 2; omega, fun j' hj' a' ha' => ?_⟩
            rw [← hbefore (j' + 1) (by omega) a' ha']
            congr 2
            omega
  simpa using key l 0

end ZeroDds.Search
