/-
Recursive procedures as trees of questions.

The body of a procedure that calls itself is an `Asking`: it ends in a result, or it asks a
question, one recursive call, and goes on with the answer.
-/
import Mathlib.Data.Set.Finite.Basic
import Mathlib.Order.WellFounded

namespace ZeroDds

inductive Asking (Q A R : Type) where
  | done (r : R)
  | ask (q : Q) (next : A → Asking Q A R)

namespace Asking

variable {Q A R S : Type}

def bind : Asking Q A R → (R → Asking Q A S) → Asking Q A S
  | .done r, f => f r
  | .ask q next, f => .ask q fun a => (next a).bind f

def call (q : Q) : Asking Q A A := .ask q .done

def runWith (oracle : Q → Option A) : Asking Q A R → Option R
  | .done r => some r
  | .ask q next => (oracle q).bind fun a => (next a).runWith oracle

def first? : Asking Q A R → Option Q
  | .done _ => none
  | .ask q _ => some q

def resume : Asking Q A R → A → Asking Q A R
  | .done r, _ => .done r
  | .ask _ next, a => next a

inductive Asks : Asking Q A R → Q → Prop
  | here {q : Q} {next : A → Asking Q A R} : Asks (.ask q next) q
  | later {q q' : Q} {next : A → Asking Q A R} {a : A} (h : Asks (next a) q') :
      Asks (.ask q next) q'

/-- `t` asks `q` if the questions before get the answers `given`. -/
inductive AsksGiven (given : Q → A → Prop) : Asking Q A R → Q → Prop
  | here {q : Q} {next : A → Asking Q A R} : AsksGiven given (.ask q next) q
  | later {q q' : Q} {next : A → Asking Q A R} {a : A} (ha : given q a)
      (h : AsksGiven given (next a) q') : AsksGiven given (.ask q next) q'

variable (oracle : Q → Option A)

@[simp] theorem runWith_done (r : R) : (done r : Asking Q A R).runWith oracle = some r := rfl

@[simp] theorem runWith_ask (q : Q) (next : A → Asking Q A R) :
    (ask q next).runWith oracle = (oracle q).bind fun a => (next a).runWith oracle := rfl

@[simp] theorem runWith_call (q : Q) : (call q : Asking Q A A).runWith oracle = oracle q := by
  simp only [call, runWith_ask, runWith_done]
  cases oracle q <;> rfl

@[simp] theorem bind_done (r : R) (f : R → Asking Q A S) : (done r : Asking Q A R).bind f = f r :=
  rfl

theorem runWith_bind (t : Asking Q A R) (f : R → Asking Q A S) :
    (t.bind f).runWith oracle = (t.runWith oracle).bind fun r => (f r).runWith oracle := by
  induction t with
  | done r => rfl
  | ask q next ih =>
    simp only [bind, runWith_ask]
    cases oracle q with
    | none => rfl
    | some a => exact ih a

variable {q : Q} {t : Asking Q A R}

@[simp] theorem asks_done {r : R} : ¬(done r : Asking Q A R).Asks q := by
  intro h
  cases h

@[simp] theorem asks_call {q' : Q} : (call q : Asking Q A A).Asks q' ↔ q' = q := by
  constructor
  · intro h
    cases h with
    | here => rfl
    | later h => exact absurd h asks_done
  · rintro rfl
    exact .here

theorem Asks.of_bind {f : R → Asking Q A S} (h : (t.bind f).Asks q) :
    t.Asks q ∨ ∃ r, (f r).Asks q := by
  induction t with
  | done r => exact Or.inr ⟨r, h⟩
  | ask q' next ih =>
    cases h with
    | here => exact Or.inl .here
    | later h => exact (ih _ h).imp_left .later

theorem AsksGiven.asks {given : Q → A → Prop} (h : t.AsksGiven given q) : t.Asks q := by
  induction h with
  | here => exact .here
  | later _ _ ih => exact .later ih

theorem not_asks_of_first?_eq_none (h : t.first? = none) : ¬t.Asks q := by
  cases t with
  | done r => exact asks_done
  | ask q' next => cases h

theorem Asks.eq_of_first {q' : Q} (hfirst : t.first? = some q')
    (hrest : ∀ a, (t.resume a).first? = none) (h : t.Asks q) : q = q' := by
  cases h with
  | here => exact Option.some.inj hfirst
  | later h => exact absurd h (not_asks_of_first?_eq_none (hrest _))

theorem runWith_congr {oracle oracle' : Q → Option A} (h : ∀ q, t.Asks q → oracle q = oracle' q) :
    t.runWith oracle = t.runWith oracle' := by
  induction t with
  | done r => rfl
  | ask q next ih =>
    rw [runWith_ask, runWith_ask, h q .here]
    cases oracle' q with
    | none => rfl
    | some a => exact ih a fun q' hq => h q' (.later hq)

theorem runWith_mono {oracle oracle' : Q → Option A}
    (h : ∀ q a, oracle q = some a → oracle' q = some a) {r : R} (hr : t.runWith oracle = some r) :
    t.runWith oracle' = some r := by
  induction t with
  | done r' => exact hr
  | ask q next ih =>
    obtain ⟨a, ha, hr⟩ := Option.bind_eq_some_iff.mp hr
    rw [runWith_ask, h q a ha]
    exact ih a hr

end Asking

section Procedures

variable {Q A : Type} (body : Q → Asking Q A A)

def answer : Nat → Q → Option A
  | 0, _ => none
  | fuel + 1, q => (body q).runWith (answer fuel)

def Answers (q : Q) (a : A) : Prop := ∃ fuel, answer body fuel q = some a

def Leads (q q' : Q) : Prop := (body q).Asks q'

/-- `q` comes to the call `q'`: the calls of its body before `q'` have their answers. -/
def Makes (q q' : Q) : Prop := (body q).AsksGiven (Answers body) q'

@[simp] theorem answer_zero (q : Q) : answer body 0 q = none := rfl

theorem answer_succ (fuel : Nat) (q : Q) :
    answer body (fuel + 1) q = (body q).runWith (answer body fuel) := rfl

variable {body} {q : Q}

theorem answer_le {fuel fuel' : Nat} (hle : fuel ≤ fuel') {a : A}
    (h : answer body fuel q = some a) : answer body fuel' q = some a := by
  induction fuel generalizing fuel' q a with
  | zero => cases h
  | succ fuel ih =>
    obtain ⟨m, rfl⟩ : ∃ m, fuel' = m + 1 := ⟨fuel' - 1, by omega⟩
    exact Asking.runWith_mono (fun q' a' h' => ih (by omega) h') h

theorem Answers.unique {a a' : A} (h : Answers body q a) (h' : Answers body q a') : a = a' := by
  obtain ⟨n, hn⟩ := h
  obtain ⟨m, hm⟩ := h'
  exact Option.some.inj
    ((answer_le (Nat.le_max_left n m) hn).symm.trans (answer_le (Nat.le_max_right n m) hm))

theorem Makes.leads {q' : Q} (h : Makes body q q') : Leads body q q' := Asking.AsksGiven.asks h

theorem exists_runWith {R : Type} {t : Asking Q A R}
    (h : ∀ q, t.AsksGiven (Answers body) q → ∃ a, Answers body q a) :
    ∃ fuel r, t.runWith (answer body fuel) = some r := by
  induction t with
  | done r => exact ⟨0, r, rfl⟩
  | ask q next ih =>
    obtain ⟨a, n, hn⟩ := h q .here
    obtain ⟨m, r, hm⟩ := ih a fun q' hq => h q' (.later ⟨n, hn⟩ hq)
    refine ⟨max n m, r, ?_⟩
    rw [Asking.runWith_ask, answer_le (Nat.le_max_left n m) hn]
    exact Asking.runWith_mono (fun q' a' h' => answer_le (Nat.le_max_right n m) h') hm

theorem answers_of_questions (h : ∀ q', Makes body q q' → ∃ a, Answers body q' a) :
    ∃ a, Answers body q a := by
  obtain ⟨fuel, r, hr⟩ := exists_runWith h
  exact ⟨r, fuel + 1, hr⟩

theorem exists_answer_of_runWith {R : Type} {t : Asking Q A R} {fuel : Nat} {r : R}
    (hr : t.runWith (answer body fuel) = some r) {q' : Q}
    (h : t.AsksGiven (Answers body) q') : ∃ a, answer body fuel q' = some a := by
  induction h with
  | here =>
    obtain ⟨a, ha, -⟩ := Option.bind_eq_some_iff.mp hr
    exact ⟨a, ha⟩
  | later hgiven _ ih =>
    obtain ⟨a, ha, hnext⟩ := Option.bind_eq_some_iff.mp hr
    rw [Answers.unique ⟨fuel, ha⟩ hgiven] at hnext
    exact ih hnext

/-- A call answers with less fuel than the one it is made for. -/
theorem exists_answer_of_makes {q' : Q} (hpath : Relation.TransGen (Makes body) q q') {fuel : Nat}
    {a : A} (ha : answer body fuel q = some a) :
    ∃ fuel' < fuel, ∃ a', answer body fuel' q' = some a' := by
  induction hpath using Relation.TransGen.head_induction_on generalizing fuel a with
  | single hmakes =>
    cases fuel with
    | zero => cases ha
    | succ n => exact ⟨n, Nat.lt_succ_self n, exists_answer_of_runWith ha hmakes⟩
  | head hmakes _ ih =>
    cases fuel with
    | zero => cases ha
    | succ n =>
      obtain ⟨b, hb⟩ := exists_answer_of_runWith ha hmakes
      obtain ⟨m, hm, h⟩ := ih hb
      exact ⟨m, by omega, h⟩

theorem not_answers_of_cycle (hcycle : Relation.TransGen (Makes body) q q) (a : A) :
    ¬Answers body q a := by
  rintro ⟨fuel, ha⟩
  induction fuel using Nat.strong_induction_on generalizing a with
  | _ fuel ih =>
  obtain ⟨m, hm, b, hb⟩ := exists_answer_of_makes hcycle ha
  exact ih m hm b hb

/-- A call answers if and only if none that is made for it is on a cycle inside one stage. -/
theorem answers_iff_of_stages {σ : Type} (stage : Q → σ) (level : σ → Nat) (inside : Q → Prop)
    (hinside : ∀ q q', inside q → Makes body q q' → inside q')
    (hstage : ∀ q q', inside q → Makes body q q' →
      stage q' = stage q ∨ level (stage q') < level (stage q))
    (hfinite : ∀ s, {q | inside q ∧ stage q = s}.Finite) (hq : inside q) :
    (∃ a, Answers body q a) ↔ ∀ q', Relation.ReflTransGen (Makes body) q q' →
      ¬Relation.TransGen (fun a b => Makes body a b ∧ stage b = stage a) q' q' := by
  constructor
  · rintro ⟨a, fuel, ha⟩ q' hpath hcycle
    have hmade := Relation.TransGen.mono (fun _ _ h => h.1) _ _ hcycle
    obtain ⟨m, -, b, hb⟩ := exists_answer_of_makes (Relation.TransGen.trans_right hpath hmade) ha
    exact not_answers_of_cycle hmade b ⟨m, hb⟩
  intro hcycle
  -- Induction on the level; inside one stage, on the well-founded order the lack of cycles gives.
  induction hn : level (stage q) using Nat.strong_induction_on generalizing q with
  | _ n ih =>
  let S := {q' | (inside q' ∧ stage q' = stage q) ∧ Relation.ReflTransGen (Makes body) q q'}
  have : Finite S := ((hfinite (stage q)).subset fun _ h => h.1).to_subtype
  let below : S → S → Prop := fun b a =>
    Relation.TransGen (fun a b => Makes body a b ∧ stage b = stage a) a.1 b.1
  have : Std.Irrefl below := ⟨fun a => hcycle a.1 a.2.2⟩
  have hwf : WellFounded below := Finite.wellFounded_of_trans_of_irrefl below
  have hall : ∀ a : S, ∃ v, Answers body a.1 v := by
    intro a
    induction a using hwf.induction with
    | _ a iha =>
    refine answers_of_questions fun q' hmakes => ?_
    have hq' := hinside a.1 q' a.2.1.1 hmakes
    have hpath := a.2.2.tail hmakes
    rcases hstage a.1 q' a.2.1.1 hmakes with hsame | hlower
    · exact iha ⟨q', ⟨hq', hsame.trans a.2.1.2⟩, hpath⟩ (.single ⟨hmakes, hsame⟩)
    · rw [a.2.1.2, hn] at hlower
      exact ih _ hlower hq' (fun q'' h => hcycle q'' (hpath.trans h)) rfl
  exact hall ⟨q, ⟨hq, rfl⟩, .refl⟩

theorem not_answers_of_first {S : Q → Prop}
    (h : ∀ q, S q → ∃ q', (body q).first? = some q' ∧ S q') (hq : S q) (a : A) :
    ¬Answers body q a := by
  rintro ⟨fuel, hfuel⟩
  induction fuel generalizing q a with
  | zero => cases hfuel
  | succ fuel ih =>
    obtain ⟨q', hfirst, hq'⟩ := h q hq
    rw [answer_succ] at hfuel
    cases hbody : body q with
    | done r => simp [hbody, Asking.first?] at hfirst
    | ask q₁ next =>
      obtain rfl : q₁ = q' := by simpa [hbody, Asking.first?] using hfirst
      rw [hbody, Asking.runWith_ask] at hfuel
      obtain ⟨a', ha', -⟩ := Option.bind_eq_some_iff.mp hfuel
      exact ih hq' a' ha'

theorem answer_congr {body' : Q → Asking Q A A}
    (h : ∀ q', Relation.ReflTransGen (Leads body) q q' → body' q' = body q') (fuel : Nat) :
    answer body' fuel q = answer body fuel q := by
  induction fuel generalizing q with
  | zero => rfl
  | succ fuel ih =>
    rw [answer_succ, answer_succ, h q .refl]
    exact Asking.runWith_congr fun q' hq =>
      ih fun q'' hq'' => h q'' (.head hq hq'')

/-- `t'` comes to the answer `good` where `t` does, if the questions that `related` pairs do. -/
def Simulates (good : A) (related : Q → Q → Prop) (t t' : Asking Q A A) : Prop :=
  ∀ oracle oracle' : Q → Option A,
    (∀ q q', related q q' → oracle q = some good → oracle' q' = some good) →
    t.runWith oracle = some good → t'.runWith oracle' = some good

theorem Simulates.answer {body' : Q → Asking Q A A} {good : A} {related : Q → Q → Prop}
    (h : ∀ q q', related q q' → Simulates good related (body q) (body' q')) {q' : Q}
    (hrel : related q q') {fuel : Nat} (ha : ZeroDds.answer body fuel q = some good) :
    ZeroDds.answer body' fuel q' = some good := by
  induction fuel generalizing q q' with
  | zero => cases ha
  | succ fuel ih => exact h q q' hrel _ _ (fun p p' hp hpb => ih hp hpb) ha

end Procedures

end ZeroDds
