/-
Wildcard patterns and the matcher that remembers one star.

A pattern is any type from which the first item can be read off: it is used up, a star, one symbol
out of a set, or malformed.
-/
import Mathlib.Data.List.Forall2

namespace ZeroDds.Glob

variable {P α : Type}

inductive Item (P α : Type) where
  | done
  | star (rest : P)
  | one (accepts : α → Bool) (rest : P)
  | broken

inductive InLanguage (next : P → Item P α) : P → List α → Prop
  | done {p : P} : next p = .done → InLanguage next p []
  | star {p q : P} {txt : List α} (skipped : List α) :
      next p = .star q → InLanguage next q txt → InLanguage next p (skipped ++ txt)
  | one {p q : P} {f : α → Bool} {a : α} {txt : List α} :
      next p = .one f q → f a = true → InLanguage next q txt → InLanguage next p (a :: txt)

inductive Spells (free : α → Bool) (next : P → Item P α) : P → List α → Prop
  | done {p : P} : next p = .done → Spells free next p []
  | star {p q : P} {txt : List α} (skipped : List α) (hfree : ∀ a ∈ skipped, free a = true) :
      next p = .star q → Spells free next q txt → Spells free next p (skipped ++ txt)
  | one {p q : P} {f : α → Bool} {a : α} {txt : List α} :
      next p = .one f q → f a = true → Spells free next q txt → Spells free next p (a :: txt)

def Guarded (free : α → Bool) (next : P → Item P α) : Prop :=
  ∀ p f q a b, next p = .one f q → f a = true → f b = true → free a = false → free b = false

variable {free : α → Bool} {next : P → Item P α} {p q : P} {f : α → Bool} {a : α}
  {s t txt : List α}

theorem spells_done (h : next p = .done) : Spells free next p txt ↔ txt = [] := by
  constructor
  · intro hl
    cases hl with
    | done => rfl
    | star _ _ hnext => rw [h] at hnext; cases hnext
    | one hnext => rw [h] at hnext; cases hnext
  · rintro rfl
    exact .done h

theorem spells_star (h : next p = .star q) :
    Spells free next p txt ↔ ∃ skipped rest, txt = skipped ++ rest ∧
      (∀ a ∈ skipped, free a = true) ∧ Spells free next q rest := by
  constructor
  · intro hl
    cases hl with
    | done hnext => rw [h] at hnext; cases hnext
    | star skipped hfree hnext hrest =>
      rw [h] at hnext
      cases hnext
      exact ⟨skipped, _, rfl, hfree, hrest⟩
    | one hnext => rw [h] at hnext; cases hnext
  · rintro ⟨skipped, rest, rfl, hfree, hrest⟩
    exact .star skipped hfree h hrest

theorem spells_one (h : next p = .one f q) :
    Spells free next p txt ↔ ∃ a rest, txt = a :: rest ∧ f a = true ∧ Spells free next q rest := by
  constructor
  · intro hl
    cases hl with
    | done hnext => rw [h] at hnext; cases hnext
    | star _ _ hnext => rw [h] at hnext; cases hnext
    | one hnext ha hrest =>
      rw [h] at hnext
      cases hnext
      exact ⟨_, _, rfl, ha, hrest⟩
  · rintro ⟨a, rest, rfl, ha, hrest⟩
    exact .one h ha hrest

theorem inLanguage_iff_spells : InLanguage next p txt ↔ Spells (fun _ => true) next p txt := by
  constructor
  · intro hl
    induction hl with
    | done hnext => exact .done hnext
    | star skipped hnext _ ih => exact .star skipped (fun _ _ => rfl) hnext ih
    | one hnext ha _ ih => exact .one hnext ha ih
  · intro hl
    induction hl with
    | done hnext => exact .done hnext
    | star skipped _ hnext _ ih => exact .star skipped hnext ih
    | one hnext ha _ ih => exact .one hnext ha ih

theorem guarded_every : Guarded (fun _ => true) next := by
  intro p f q a b _ _ _ hfree
  cases hfree

theorem inLanguage_done (h : next p = .done) : InLanguage next p txt ↔ txt = [] := by
  rw [inLanguage_iff_spells, spells_done h]

theorem inLanguage_star (h : next p = .star q) :
    InLanguage next p txt ↔ ∃ skipped rest, txt = skipped ++ rest ∧ InLanguage next q rest := by
  simp [inLanguage_iff_spells, spells_star h]

theorem inLanguage_one (h : next p = .one f q) :
    InLanguage next p txt ↔ ∃ a rest, txt = a :: rest ∧ f a = true ∧ InLanguage next q rest := by
  simp [inLanguage_iff_spells, spells_one h]

theorem not_inLanguage_broken (h : next p = .broken) : ¬InLanguage next p txt := by
  intro hl
  cases hl with
  | done hnext => rw [h] at hnext; cases hnext
  | star _ hnext => rw [h] at hnext; cases hnext
  | one hnext => rw [h] at hnext; cases hnext

theorem inLanguage_one_cons (h : next p = .one f q) :
    InLanguage next p (a :: txt) ↔ f a = true ∧ InLanguage next q txt := by
  rw [inLanguage_one h]
  constructor
  · rintro ⟨b, rest, heq, hb, hrest⟩
    cases heq
    exact ⟨hb, hrest⟩
  · rintro ⟨ha, hrest⟩
    exact ⟨a, txt, rfl, ha, hrest⟩

/-! ### The places a pattern is tried at -/

/-- From one place of pattern and text to another, a star passing as much as it likes. -/
inductive Tries (next : P → Item P α) : P → List α → P → List α → Prop
  | here {p : P} {t : List α} : Tries next p t p t
  | star {p q p' : P} {s t t' : List α} :
      next p = .star q → t <:+ s → Tries next q t p' t' → Tries next p s p' t'
  | one {p q p' : P} {f : α → Bool} {a : α} {t t' : List α} :
      next p = .one f q → f a = true → Tries next q t p' t' → Tries next p (a :: t) p' t'

theorem Tries.suffix {p' : P} (h : Tries next p s p' t) : t <:+ s := by
  induction h with
  | here => exact List.suffix_rfl
  | star _ hs _ ih => exact ih.trans hs
  | one _ _ _ ih => exact ih.trans (List.suffix_cons _ _)

/-! ### The walk behind a star -/

/-- Items that take one symbol each lead from one place of pattern and text to another. -/
inductive Ones (next : P → Item P α) (q : P) (s : List α) : P → List α → Prop
  | refl : Ones next q s q s
  | step {p p' : P} {f : α → Bool} {a : α} {t : List α} :
      Ones next q s p (a :: t) → next p = .one f p' → f a = true → Ones next q s p' t

def Blocks (free : α → Bool) (a b : α) : Prop := free a = false → free b = false

theorem Ones.passes_blocked (hguard : Guarded free next) (h : Ones next q s p t)
    (hl : Spells free next q txt) :
    ∃ gone taken rest, s = gone ++ t ∧ txt = taken ++ rest ∧
      List.Forall₂ (Blocks free) taken gone ∧ Spells free next p rest := by
  induction h with
  | refl => exact ⟨[], [], txt, rfl, rfl, .nil, hl⟩
  | @step p p' f a t _ hnext ha ih =>
    obtain ⟨gone, taken, rest, hs, rfl, hblocks, hrest⟩ := ih
    obtain ⟨b, rest', rfl, hb, hrest'⟩ := (spells_one hnext).mp hrest
    refine ⟨gone ++ [a], taken ++ [b], rest', ?_, by simp, ?_, hrest'⟩
    · rw [hs, List.append_assoc, List.singleton_append]
    · exact List.rel_append hblocks (.cons (hguard p f p' b a hnext hb ha) .nil)

theorem free_of_shifted {run taken gone more : List α} (hone : run ≠ [])
    (hrun : ∀ a ∈ run, free a = true) (hblocks : List.Forall₂ (Blocks free) taken gone)
    (hsame : gone ++ more = run ++ taken) : ∀ a ∈ taken, free a = true := by
  induction hblocks generalizing run with
  | nil => exact fun a ha => absurd ha List.not_mem_nil
  | @cons a b taken gone hab hblocks ih =>
    obtain ⟨c, run, rfl⟩ := List.exists_cons_of_ne_nil hone
    rw [List.cons_append, List.cons_append] at hsame
    obtain ⟨rfl, htail⟩ := List.cons.inj hsame
    have ha : free a = true := by
      by_contra hnot
      have hb := hab (Bool.eq_false_iff.mpr hnot)
      rw [hrun _ List.mem_cons_self] at hb
      cases hb
    have hnext : ∀ x ∈ run ++ [a], free x = true := by
      exact List.forall_mem_append.mpr ⟨fun x hx => hrun x (List.mem_cons_of_mem _ hx),
        List.forall_mem_singleton.mpr ha⟩
    have hshift : gone ++ more = run ++ [a] ++ taken := by
      rw [htail, List.append_assoc, List.singleton_append]
    intro x hx
    rcases List.mem_cons.mp hx with rfl | hx
    · exact ha
    · exact ih (by simp) hnext hshift x hx

theorem Ones.passes (h : Ones next q s p t) (hl : InLanguage next q txt) :
    ∃ taken rest, txt = taken ++ rest ∧ taken.length + t.length = s.length ∧
      InLanguage next p rest := by
  obtain ⟨gone, taken, rest, rfl, rfl, hblocks, hrest⟩ :=
    h.passes_blocked guarded_every (inLanguage_iff_spells.mp hl)
  refine ⟨taken, rest, rfl, ?_, inLanguage_iff_spells.mpr hrest⟩
  rw [List.length_append, hblocks.length_eq]

/-! ### The matcher -/

structure Cursor (P α : Type) where
  pattern : P
  text : List α
  saved : Option (P × List α)

namespace Cursor

def resume (c : Cursor P α) : Option (Cursor P α) :=
  match c.saved with
  | some (q, _ :: s) => some ⟨q, s, some (q, s)⟩
  | _ => none

def step (next : P → Item P α) (c : Cursor P α) : Option (Cursor P α) :=
  match c.text, next c.pattern with
  | [], _ => none
  | a :: rest, .one f q => if f a then some ⟨q, rest, c.saved⟩ else c.resume
  | _ :: _, .star q => some ⟨q, c.text, some (q, c.text)⟩
  | _ :: _, .done => c.resume
  | _ :: _, .broken => none

def Tracked (next : P → Item P α) (c : Cursor P α) : Prop :=
  ∀ q s, c.saved = some (q, s) → Ones next q s c.pattern c.text

def Retry (next : P → Item P α) (c : Cursor P α) : Prop :=
  ∃ q s, c.saved = some (q, s) ∧ ∃ x skipped rest, s = x :: skipped ++ rest ∧ InLanguage next q rest

def Viable (next : P → Item P α) (c : Cursor P α) : Prop :=
  InLanguage next c.pattern c.text ∨ c.Retry next

def resumeFree (free : α → Bool) (c : Cursor P α) : Option (Cursor P α) :=
  match c.saved with
  | some (q, a :: s) => if free a then some ⟨q, s, some (q, s)⟩ else none
  | _ => none

def RetryFree (free : α → Bool) (next : P → Item P α) (c : Cursor P α) : Prop :=
  ∃ q s, c.saved = some (q, s) ∧ ∃ x skipped rest, s = x :: skipped ++ rest ∧
    (∀ a ∈ x :: skipped, free a = true) ∧ Spells free next q rest

def ViableFree (free : α → Bool) (next : P → Item P α) (c : Cursor P α) : Prop :=
  Spells free next c.pattern c.text ∨ c.RetryFree free next

variable {c c' : Cursor P α}

theorem viableFree_start (p : P) (txt : List α) :
    ViableFree free next ⟨p, txt, none⟩ ↔ Spells free next p txt := by
  constructor
  · rintro (h | ⟨q, s, hsaved, -⟩)
    · exact h
    · cases hsaved
  · exact .inl

theorem viableFree_one (hc : c.Tracked next) (hnext : next c.pattern = .one f q)
    (htext : c.text = a :: t) (ha : f a = true) :
    (c.ViableFree free next ↔ ViableFree free next ⟨q, t, c.saved⟩) ∧
      Tracked next ⟨q, t, c.saved⟩ := by
  have hone : Spells free next c.pattern c.text ↔ Spells free next q t := by
    rw [spells_one hnext, htext]
    constructor
    · rintro ⟨b, rest, heq, -, hrest⟩
      cases heq
      exact hrest
    · intro hrest
      exact ⟨a, t, rfl, ha, hrest⟩
  refine ⟨or_congr hone Iff.rfl, fun q' s' hs => ?_⟩
  have hones := hc q' s' hs
  rw [htext] at hones
  exact hones.step hnext ha

theorem resumeFree_viable (hno : ¬ Spells free next c.pattern c.text) :
    (c.ViableFree free next ↔ ∃ c', c.resumeFree free = some c' ∧ c'.ViableFree free next) ∧
      ∀ c', c.resumeFree free = some c' → c'.Tracked next := by
  have hretry : c.ViableFree free next ↔ c.RetryFree free next := or_iff_right hno
  rw [hretry]
  unfold resumeFree RetryFree
  rcases hsaved : c.saved with _ | ⟨q, s⟩
  · refine ⟨iff_of_false ?_ ?_, fun c' h => by cases h⟩
    · rintro ⟨q, s, hs, -⟩
      cases hs
    · rintro ⟨c', hc', -⟩
      cases hc'
  · cases s with
    | nil =>
      refine ⟨iff_of_false ?_ ?_, fun c' h => by cases h⟩
      · rintro ⟨q', s', hs, x, skipped, rest, hsplit, -⟩
        cases hs
        cases hsplit
      · rintro ⟨c', hc', -⟩
        cases hc'
    | cons x s =>
      by_cases hx : free x = true
      · simp only [hx, if_true]
        refine ⟨⟨?_, ?_⟩, ?_⟩
        · rintro ⟨q', s', hs, y, skipped, rest, hsplit, hfree, hl⟩
          cases hs
          obtain ⟨rfl, rfl⟩ := List.cons.inj hsplit
          refine ⟨_, rfl, ?_⟩
          cases skipped with
          | nil => exact .inl hl
          | cons z skipped =>
            exact .inr ⟨q, _, rfl, z, skipped, rest, rfl,
              fun a ha => hfree a (List.mem_cons_of_mem _ ha), hl⟩
        · rintro ⟨c', hc', hviable⟩
          cases hc'
          rcases hviable with hl | ⟨q', s', hs, y, skipped, rest, rfl, hfree, hl⟩
          · refine ⟨q, _, rfl, x, [], s, rfl, fun a ha => ?_, hl⟩
            rw [List.mem_singleton.mp ha]
            exact hx
          · cases hs
            refine ⟨q, _, rfl, x, y :: skipped, rest, rfl, fun a ha => ?_, hl⟩
            rcases List.mem_cons.mp ha with rfl | ha
            · exact hx
            · exact hfree a ha
        · intro c' hc' q' s' hs
          cases hc'
          cases hs
          exact .refl
      · simp only [hx, if_false, Bool.false_eq_true]
        refine ⟨iff_of_false ?_ ?_, fun c' h => by cases h⟩
        · rintro ⟨q', s', hs, y, skipped, rest, hsplit, hfree, hl⟩
          cases hs
          obtain ⟨rfl, -⟩ := List.cons.inj hsplit
          exact hx (hfree _ List.mem_cons_self)
        · rintro ⟨c', hc', -⟩
          cases hc'

theorem viableFree_at_star (hguard : Guarded free next) (hc : c.Tracked next)
    (hnext : next c.pattern = .star q) :
    c.ViableFree free next ↔ ViableFree free next ⟨q, c.text, some (q, c.text)⟩ := by
  have hnew : ViableFree free next ⟨q, c.text, some (q, c.text)⟩ ↔
      Spells free next c.pattern c.text := by
    rw [spells_star hnext]
    constructor
    · rintro (h | ⟨q', s', hs, x, skipped, rest, hsplit, hfree, hl⟩)
      · exact ⟨[], c.text, rfl, by simp, h⟩
      · cases hs
        exact ⟨x :: skipped, rest, hsplit, hfree, hl⟩
    · rintro ⟨skipped, rest, hsplit, hfree, hl⟩
      cases skipped with
      | nil => exact .inl (hsplit ▸ hl)
      | cons x skipped => exact .inr ⟨q, c.text, rfl, x, skipped, rest, hsplit, hfree, hl⟩
  rw [hnew]
  refine ⟨?_, .inl⟩
  rintro (h | ⟨q₀, s, hsaved, x, skipped, rest, rfl, hfree, hl⟩)
  · exact h
  · -- what the old star could reach by taking more, the new one reaches from here
    obtain ⟨gone, taken, rest', hgone, rfl, hblocks, hl'⟩ :=
      (hc q₀ _ hsaved).passes_blocked hguard hl
    obtain ⟨skipped', rest'', rfl, hfree', hl''⟩ := (spells_star hnext).mp hl'
    have hlength := hblocks.length_eq
    have hsplit : gone ++ c.text = (x :: skipped ++ taken) ++ (skipped' ++ rest'') := by
      rw [← hgone]
      simp
    rcases List.append_eq_append_iff.mp hsplit with ⟨more, hmore, htext⟩ | ⟨more, hmore, -⟩
    · have htaken := free_of_shifted (by simp) hfree hblocks hmore.symm
      rw [spells_star hnext]
      refine ⟨more ++ skipped', rest'', by rw [htext, List.append_assoc], fun a ha => ?_, hl''⟩
      rcases List.mem_append.mp ha with ha | ha
      · have hmem : a ∈ x :: skipped ++ taken := by
          rw [hmore]
          exact List.mem_append_right _ ha
        rcases List.mem_append.mp hmem with hmem | hmem
        · exact hfree a hmem
        · exact htaken a hmem
      · exact hfree' a ha
    · have hlong := congrArg List.length hmore
      simp only [List.length_append, List.length_cons] at hlong
      omega

theorem viable_iff_free : c.Viable next ↔ c.ViableFree (fun _ => true) next := by
  simp [Viable, ViableFree, Retry, RetryFree, inLanguage_iff_spells]

theorem resume_eq_free (c : Cursor P α) : c.resume = c.resumeFree fun _ => true := by
  unfold resume resumeFree
  split <;> rfl

theorem viable_start (p : P) (txt : List α) :
    Viable next ⟨p, txt, none⟩ ↔ InLanguage next p txt := by
  rw [viable_iff_free, viableFree_start, inLanguage_iff_spells]

theorem tracked_start (p : P) (txt : List α) : Tracked next ⟨p, txt, none⟩ := by
  intro q s h
  cases h

theorem resume_viable (hno : ¬InLanguage next c.pattern c.text) :
    (c.Viable next ↔ ∃ c', c.resume = some c' ∧ c'.Viable next) ∧
      ∀ c', c.resume = some c' → c'.Tracked next := by
  simp only [viable_iff_free, resume_eq_free]
  exact resumeFree_viable (mt inLanguage_iff_spells.mpr hno)

theorem viable_at_star (hc : c.Tracked next) (hnext : next c.pattern = .star q) :
    c.Viable next ↔ Viable next ⟨q, c.text, some (q, c.text)⟩ := by
  rw [viable_iff_free, viable_iff_free]
  exact viableFree_at_star guarded_every hc hnext

theorem step_viable (hc : c.Tracked next) (htext : c.text ≠ []) :
    (c.Viable next ↔ ∃ c', c.step next = some c' ∧ c'.Viable next) ∧
      ∀ c', c.step next = some c' → c'.Tracked next := by
  obtain ⟨pattern, text, saved⟩ := c
  cases text with
  | nil => exact absurd rfl htext
  | cons a rest =>
    cases hnext : next pattern with
    | done =>
      have hno : ¬InLanguage next pattern (a :: rest) := by
        rw [inLanguage_done hnext]
        exact List.cons_ne_nil _ _
      have := resume_viable (c := ⟨pattern, a :: rest, saved⟩) hno
      simpa only [step, hnext] using this
    | star q =>
      have hviable := viable_at_star (c := ⟨pattern, a :: rest, saved⟩) hc hnext
      simp only [step, hnext]
      refine ⟨⟨fun h => ⟨_, rfl, hviable.mp h⟩, ?_⟩, ?_⟩
      · rintro ⟨c', hc', h⟩
        cases hc'
        exact hviable.mpr h
      · intro c' hc' q' s' hs
        cases hc'
        cases hs
        exact .refl
    | one f q =>
      by_cases ha : f a = true
      · have hone : InLanguage next _ (a :: rest) ↔ _ := inLanguage_one_cons hnext
        simp only [step, hnext, ha, if_true]
        refine ⟨⟨fun h => ⟨_, rfl, ?_⟩, ?_⟩, ?_⟩
        · exact h.imp (fun h => (hone.mp h).2) id
        · rintro ⟨c', hc', h⟩
          cases hc'
          exact h.imp (fun h => hone.mpr ⟨ha, h⟩) id
        · intro c' hc' q' s' hs
          cases hc'
          exact (hc q' s' hs).step hnext ha
      · have hno : ¬InLanguage next pattern (a :: rest) := by
          rw [inLanguage_one_cons hnext]
          exact fun h => ha h.1
        have := resume_viable (c := ⟨pattern, a :: rest, saved⟩) hno
        simpa only [step, hnext, ha, if_false, Bool.false_eq_true] using this
    | broken =>
      simp only [step, hnext]
      refine ⟨iff_of_false ?_ ?_, fun c' h => by cases h⟩
      · rintro (h | ⟨q, s, hsaved, x, skipped, rest', rfl, hl⟩)
        · exact not_inLanguage_broken hnext h
        · obtain ⟨_, _, _, _, hl'⟩ := (hc q _ hsaved).passes hl
          exact not_inLanguage_broken hnext hl'
      · rintro ⟨c', hc', -⟩
        cases hc'

theorem viable_of_text_nil (hc : c.Tracked next) (htext : c.text = []) :
    c.Viable next ↔ InLanguage next c.pattern [] := by
  rw [Viable, htext, or_iff_left]
  rintro ⟨q, s, hsaved, x, skipped, rest, rfl, hl⟩
  obtain ⟨taken, rest', rfl, hlength, -⟩ := (hc q _ hsaved).passes hl
  rw [htext] at hlength
  simp only [List.length_nil, List.length_append, List.length_cons] at hlength
  omega

end Cursor
end ZeroDds.Glob
