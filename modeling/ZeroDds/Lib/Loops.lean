/-
Loops that stop at the first failure.

What a loop that came through tells about its turns: `foldlM_invariant` carries a
relation between the items done and the accumulator, `forM_eq_ok` and `mapM_eq_some`
read a loop off item by item.
-/
import Mathlib.Data.List.Forall2

namespace ZeroDds

variable {α β ε : Type} {b : β} {l : List α} {bs : List β} {f : α → Option β}

theorem bind_ok {x : Except ε α} {f : α → Except ε β} :
    x.bind f = .ok b ↔ ∃ a, x = .ok a ∧ f a = .ok b := by
  cases x with
  | error e => simp [Except.bind]
  | ok a => simp [Except.bind]

theorem toOption_eq_some {x : Except ε α} {a : α} : x.toOption = some a ↔ x = .ok a := by
  cases x with
  | error e => simp [Except.toOption]
  | ok b => simp [Except.toOption]

theorem foldlM_invariant {f : β → α → Except ε β} {P : List α → β → Prop} {b' : β}
    (start : P [] b) (next : ∀ done b a b', P done b → f b a = .ok b' → P (done ++ [a]) b')
    (h : l.foldlM f b = .ok b') : P l b' := by
  have key : ∀ (l done : List α) (b : β), P done b → l.foldlM f b = .ok b' → P (done ++ l) b' := by
    intro l
    induction l with
    | nil =>
      intro done b hb h
      rw [List.append_nil, ← Except.ok.inj h]
      exact hb
    | cons a l ih =>
      intro done b hb h
      rw [List.foldlM_cons] at h
      obtain ⟨c, hc, hrest⟩ := bind_ok.mp h
      rw [List.append_cons]
      exact ih (done ++ [a]) c (next done b a c hb hc) hrest
  exact key l [] b start h

theorem forM_eq_ok {f : α → Except ε Unit} : l.forM f = .ok () ↔ ∀ a ∈ l, f a = .ok () := by
  induction l with
  | nil => exact ⟨fun _ a ha => absurd ha List.not_mem_nil, fun _ => rfl⟩
  | cons a l ih =>
    rw [show (a :: l).forM f = (f a).bind fun _ => l.forM f from rfl, bind_ok,
      List.forall_mem_cons]
    constructor
    · rintro ⟨_, ha, hl⟩
      exact ⟨ha, ih.mp hl⟩
    · rintro ⟨ha, hl⟩
      exact ⟨(), ha, ih.mpr hl⟩

theorem mem_of_mapM_eq_ok {f : α → Except ε β} (h : l.mapM f = .ok bs) (hb : b ∈ bs) :
    ∃ a ∈ l, f a = .ok b := by
  induction l generalizing bs with
  | nil =>
    rw [← Except.ok.inj h] at hb
    cases hb
  | cons a l ih =>
    rw [List.mapM_cons] at h
    obtain ⟨c, hc, h⟩ := bind_ok.mp h
    obtain ⟨cs, hcs, h⟩ := bind_ok.mp h
    rw [← Except.ok.inj h] at hb
    rcases List.mem_cons.mp hb with rfl | hb
    · exact ⟨a, List.mem_cons_self, hc⟩
    · obtain ⟨a', ha', hfa⟩ := ih hcs hb
      exact ⟨a', List.mem_cons_of_mem a ha', hfa⟩

theorem mapM_eq_some : l.mapM f = some bs ↔ List.Forall₂ (fun a b => f a = some b) l bs := by
  induction l generalizing bs with
  | nil =>
    rw [List.mapM_nil, List.forall₂_nil_left_iff]
    exact ⟨fun h => (Option.some.inj h).symm, fun h => by rw [h]; rfl⟩
  | cons a l ih =>
    simp only [List.mapM_cons, Option.bind_eq_bind, Option.bind_eq_some_iff, ih, Option.pure_def,
      Option.some.injEq, List.forall₂_cons_left_iff]
    constructor
    · rintro ⟨b, hb, cs, hcs, rfl⟩
      exact ⟨b, cs, hb, hcs, rfl⟩
    · rintro ⟨b, cs, hb, hcs, rfl⟩
      exact ⟨b, hb, cs, hcs, rfl⟩

theorem mem_of_mapM_eq_some (h : l.mapM f = some bs) (hb : b ∈ bs) : ∃ a ∈ l, f a = some b := by
  have hall := mapM_eq_some.mp h
  induction hall with
  | nil => cases hb
  | cons hab hrest ih =>
    rcases List.mem_cons.mp hb with rfl | hb
    · exact ⟨_, List.mem_cons_self, hab⟩
    · obtain ⟨a, ha, hfa⟩ := ih (mapM_eq_some.mpr hrest) hb
      exact ⟨a, List.mem_cons_of_mem _ ha, hfa⟩

theorem exists_mem_of_mapM_eq_some (h : l.mapM f = some bs) {a : α} (ha : a ∈ l) :
    ∃ b ∈ bs, f a = some b := by
  have hall := mapM_eq_some.mp h
  induction hall with
  | nil => cases ha
  | cons hab hrest ih =>
    rcases List.mem_cons.mp ha with rfl | ha
    · exact ⟨_, List.mem_cons_self, hab⟩
    · obtain ⟨b, hb, hfa⟩ := ih (mapM_eq_some.mpr hrest) ha
      exact ⟨b, List.mem_cons_of_mem _ hb, hfa⟩

theorem isSome_mapM : (l.mapM f).isSome ↔ ∀ a ∈ l, (f a).isSome := by
  induction l with
  | nil => exact iff_of_true rfl fun a ha => absurd ha List.not_mem_nil
  | cons a l ih =>
    rw [List.forall_mem_cons, ← ih]
    simp only [List.mapM_cons, Option.bind_eq_bind, Option.pure_def]
    cases f a with
    | none => simp
    | some b =>
      cases l.mapM f with
      | none => simp
      | some bs => simp

end ZeroDds
