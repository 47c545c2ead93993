/-
The longest run at the front of a list.

`takeWhile` and `dropWhile` cut a list where its first run of items ends.
-/
import Mathlib.Data.List.TakeWhile

namespace ZeroDds

variable {α : Type} {p : α → Bool} {l run rest : List α}

def StopsBefore (p : α → Bool) (l : List α) : Prop := ∀ a, l.head? = some a → p a = false

theorem stopsBefore_nil : StopsBefore p [] := by
  intro a h
  cases h

theorem stopsBefore_cons {a : α} : StopsBefore p (a :: l) ↔ p a = false := by
  constructor
  · intro h
    exact h a rfl
  · rintro h b hb
    cases hb
    exact h

theorem head?_any_eq_false : l.head?.any p = false ↔ StopsBefore p l := by
  cases l with
  | nil => simp [StopsBefore]
  | cons a l => rw [stopsBefore_cons, List.head?_cons, Option.any_some]

theorem StopsBefore.mono {q : α → Bool} (h : StopsBefore p l)
    (hq : ∀ a, q a = true → p a = true) : StopsBefore q l := by
  intro a ha
  by_contra hqa
  rw [Bool.not_eq_false] at hqa
  have hpa := hq a hqa
  rw [h a ha] at hpa
  cases hpa

theorem stopsBefore_dropWhile (p : α → Bool) (l : List α) : StopsBefore p (l.dropWhile p) := by
  induction l with
  | nil => exact stopsBefore_nil
  | cons a l ih =>
    cases ha : p a with
    | true => rwa [List.dropWhile_cons_of_pos ha]
    | false =>
      rw [List.dropWhile_cons_of_neg (by rw [ha]; decide)]
      exact stopsBefore_cons.mpr ha

theorem takeWhile_span (hrun : ∀ a ∈ run, p a = true) (hrest : StopsBefore p rest) :
    (run ++ rest).takeWhile p = run := by
  rw [List.takeWhile_append_of_pos hrun]
  cases rest with
  | nil => exact List.append_nil run
  | cons a rest =>
    rw [List.takeWhile_cons_of_neg (by rw [stopsBefore_cons.mp hrest]; decide)]
    exact List.append_nil run

theorem dropWhile_span (hrun : ∀ a ∈ run, p a = true) (hrest : StopsBefore p rest) :
    (run ++ rest).dropWhile p = rest := by
  rw [List.dropWhile_append_of_pos hrun]
  cases rest with
  | nil => rfl
  | cons a rest => exact List.dropWhile_cons_of_neg (by rw [stopsBefore_cons.mp hrest]; decide)

theorem mem_takeWhile_imp (p : α → Bool) (l : List α) : ∀ a ∈ l.takeWhile p, p a = true :=
  fun _ ha => List.mem_takeWhile_imp ha

theorem span_iff : l.takeWhile p = run ∧ l.dropWhile p = rest ↔
    l = run ++ rest ∧ (∀ a ∈ run, p a = true) ∧ StopsBefore p rest := by
  constructor
  · rintro ⟨rfl, rfl⟩
    exact ⟨List.takeWhile_append_dropWhile.symm, mem_takeWhile_imp p l, stopsBefore_dropWhile p l⟩
  · rintro ⟨rfl, hrun, hrest⟩
    exact ⟨takeWhile_span hrun hrest, dropWhile_span hrun hrest⟩

end ZeroDds
