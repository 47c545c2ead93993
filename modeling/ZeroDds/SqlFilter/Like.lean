/-
The LIKE of a filter matches what its pattern stands for.
-/
import ZeroDds.Lib.Glob
import ZeroDds.SqlFilter.Evaluator

namespace ZeroDds.SqlFilter

open Glob

/-- What a pattern starts with: `%` stands for any run, `_` for one character, and every other
character for itself. -/
def likeItem : List Char → Item (List Char) Char
  | [] => .done
  | c :: rest => if c = '%' then .star rest else .one (fun a => c = '_' ∨ c = a) rest

def Like (pattern text : List Char) : Prop := InLanguage likeItem pattern text

variable {p q t : List Char} {a c : Char}

theorem likeItem_star (p : List Char) : likeItem ('%' :: p) = .star p := by
  simp [likeItem]

theorem likeItem_one (hc : c ≠ '%') (p : List Char) :
    likeItem (c :: p) = .one (fun a => c = '_' ∨ c = a) p := by
  simp [likeItem, hc]

theorem like_append : Like (p ++ q) t ↔ ∃ s u, t = s ++ u ∧ Like p s ∧ Like q u := by
  unfold Like
  induction p generalizing t with
  | nil =>
    have hnil : ∀ s, InLanguage likeItem [] s ↔ s = [] := fun s => inLanguage_done rfl
    simp [hnil]
  | cons c p ih =>
    rw [List.cons_append]
    by_cases hc : c = '%'
    · subst hc
      simp only [inLanguage_star (likeItem_star _), ih]
      constructor
      · rintro ⟨skipped, rest, rfl, s, u, rfl, hs, hu⟩
        exact ⟨skipped ++ s, u, by simp, ⟨skipped, s, rfl, hs⟩, hu⟩
      · rintro ⟨s, u, rfl, ⟨skipped, rest, rfl, hs⟩, hu⟩
        exact ⟨skipped, rest ++ u, by simp, rest, u, rfl, hs, hu⟩
    · simp only [inLanguage_one (likeItem_one hc _), ih]
      constructor
      · rintro ⟨a, rest, rfl, ha, s, u, rfl, hs, hu⟩
        exact ⟨a :: s, u, rfl, ⟨a, s, rfl, ha, hs⟩, hu⟩
      · rintro ⟨s, u, rfl, ⟨a, rest, rfl, ha, hs⟩, hu⟩
        exact ⟨a, rest ++ u, rfl, ha, rest, u, rfl, hs, hu⟩

theorem like_nil : Like [] t ↔ t = [] := inLanguage_done rfl

theorem like_star : Like ['%'] t := by
  rw [Like, inLanguage_star (likeItem_star _)]
  exact ⟨t, [], by simp, like_nil.mpr rfl⟩

theorem like_one (hc : c ≠ '%') : Like [c] t ↔ ∃ a, t = [a] ∧ (c = '_' ∨ c = a) := by
  rw [Like, inLanguage_one (likeItem_one hc _)]
  constructor
  · rintro ⟨a, rest, rfl, ha, hrest⟩
    obtain rfl := like_nil.mp hrest
    exact ⟨a, rfl, of_decide_eq_true ha⟩
  · rintro ⟨a, rfl, ha⟩
    exact ⟨a, [], rfl, decide_eq_true ha, like_nil.mpr rfl⟩

theorem like_concat_star_nil : Like (p ++ ['%']) [] ↔ Like p [] := by
  rw [like_append]
  constructor
  · rintro ⟨s, u, heq, hs, -⟩
    obtain ⟨rfl, rfl⟩ := List.append_eq_nil_iff.mp heq.symm
    exact hs
  · exact fun h => ⟨[], [], rfl, h, like_star⟩

theorem like_concat_star :
    Like (p ++ ['%']) (t ++ [a]) ↔ Like (p ++ ['%']) t ∨ Like p (t ++ [a]) := by
  constructor
  · intro h
    obtain ⟨s, u, heq, hs, -⟩ := like_append.mp h
    rcases List.eq_nil_or_concat u with rfl | ⟨u, b, rfl⟩
    · right
      rwa [heq, List.append_nil]
    · left
      rw [List.concat_eq_append, ← List.append_assoc] at heq
      obtain ⟨rfl, -⟩ := List.append_inj' heq rfl
      exact like_append.mpr ⟨s, u, rfl, hs, like_star⟩
  · rintro (h | h)
    · obtain ⟨s, u, rfl, hs, -⟩ := like_append.mp h
      exact like_append.mpr ⟨s, u ++ [a], by simp, hs, like_star⟩
    · exact like_append.mpr ⟨t ++ [a], [], by simp, h, like_star⟩

theorem not_like_concat_nil (hc : c ≠ '%') : ¬Like (p ++ [c]) [] := by
  intro h
  obtain ⟨s, u, heq, -, hu⟩ := like_append.mp h
  obtain ⟨a, rfl, -⟩ := (like_one hc).mp hu
  simp at heq

theorem like_concat (hc : c ≠ '%') :
    Like (p ++ [c]) (t ++ [a]) ↔ (c = '_' ∨ c = a) ∧ Like p t := by
  rw [like_append]
  constructor
  · rintro ⟨s, u, heq, hs, hu⟩
    obtain ⟨b, rfl, hb⟩ := (like_one hc).mp hu
    obtain ⟨rfl, hab⟩ := List.append_inj' heq rfl
    obtain rfl := List.singleton_inj.mp hab
    exact ⟨hb, hs⟩
  · rintro ⟨ha, h⟩
    exact ⟨t, [a], rfl, h, (like_one hc).mpr ⟨a, rfl, ha⟩⟩

/-! ### The rows of the table -/

inductive LikeColumns (t : List Char) : List Char → List Char → List Bool → Prop
  | last {p : List Char} {b : Bool} : (b = true ↔ Like p t) → LikeColumns t p [] [b]
  | next {p rest : List Char} {c : Char} {b : Bool} {row : List Bool} :
      (b = true ↔ Like p t) → LikeColumns t (p ++ [c]) rest row →
        LikeColumns t p (c :: rest) (b :: row)

variable {rest : List Char} {row : List Bool} {b : Bool}

theorem columns_first (hb : b = true ↔ Like p []) :
    LikeColumns [] p rest (b :: likeFirst b rest) := by
  induction rest generalizing p b with
  | nil => exact .last hb
  | cons c rest ih =>
    refine .next hb (ih ?_)
    by_cases hc : c = '%'
    · subst hc
      simpa [like_concat_star_nil] using hb
    · simp [hc, not_like_concat_nil hc]

theorem LikeColumns.likeRow (h : LikeColumns t p rest row) (hb : b = true ↔ Like p (t ++ [a])) :
    LikeColumns (t ++ [a]) p rest (b :: likeRow a b row rest) := by
  induction h generalizing b with
  | last _ => exact .last hb
  | @next p rest c corner row hcorner hrow ih =>
    obtain ⟨above, row', rfl, habove⟩ : ∃ above row', row = above :: row' ∧
        (above = true ↔ Like (p ++ [c]) t) := by
      cases hrow with
      | last habove => exact ⟨_, _, rfl, habove⟩
      | next habove _ => exact ⟨_, _, rfl, habove⟩
    refine .next hb (ih ?_)
    by_cases hc : c = '%'
    · subst hc
      rw [like_concat_star, ← habove, ← hb]
      simp
    · rw [like_concat hc, ← hcorner]
      simp [hc]

theorem LikeColumns.getLast (h : LikeColumns t p rest row) :
    row.getLast? = some true ↔ Like (p ++ rest) t := by
  induction h with
  | last hb => simpa using hb
  | @next p rest c b row _ hrow ih =>
    have hne : row ≠ [] := by
      cases hrow <;> simp
    rw [List.getLast?_cons_of_ne_nil hne, ih, List.append_assoc, List.singleton_append]

theorem columns_foldl (s : List Char) (h : LikeColumns t [] p row) :
    LikeColumns (t ++ s) [] p
      (s.foldl (fun row c => false :: SqlFilter.likeRow c false row p) row) := by
  induction s generalizing t row with
  | nil => simpa using h
  | cons c s ih =>
    have hnext := ih (h.likeRow (a := c) (b := false) (by simp [like_nil]))
    rwa [List.append_assoc, List.singleton_append] at hnext

/-- The table decides LIKE. -/
theorem likeMatch_iff_like (text pattern : List Char) :
    likeMatch text pattern = true ↔ Like pattern text := by
  have hfirst : LikeColumns [] [] pattern (true :: likeFirst true pattern) :=
    columns_first (by simp [like_nil])
  have htable := (columns_foldl text hfirst).getLast
  simpa [likeMatch] using htable

end ZeroDds.SqlFilter
