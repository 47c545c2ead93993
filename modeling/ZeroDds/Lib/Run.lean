/-
Runs of a deterministic machine.

A machine is a step function from a state and an input to the next state and an output.
-/
import Mathlib.Data.List.Basic

namespace ZeroDds

variable {σ τ ι ω : Type}

abbrev History (ι ω : Type) := List (ι × ω)

inductive Reaches (step : σ → ι → σ × ω) (ok : σ → ι → Prop) (s₀ : σ) : History ι ω → σ → Prop
  | start : Reaches step ok s₀ [] s₀
  | next {h : History ι ω} {s : σ} {i : ι} :
      Reaches step ok s₀ h s → ok s i →
        Reaches step ok s₀ (h ++ [(i, (step s i).2)]) (step s i).1

def unrestricted (_ : σ) (_ : ι) : Prop := True

variable {step : σ → ι → σ × ω} {ok : σ → ι → Prop} {s₀ s : σ} {h : History ι ω}

theorem Reaches.invariant {P : History ι ω → σ → Prop} (start : P [] s₀)
    (next : ∀ h s i, P h s → ok s i → P (h ++ [(i, (step s i).2)]) (step s i).1)
    (hr : Reaches step ok s₀ h s) : P h s := by
  induction hr with
  | start => exact start
  | next _ hok ih => exact next _ _ _ ih hok

def run (step : σ → ι → σ × ω) : σ → List ι → σ × History ι ω
  | s, [] => (s, [])
  | s, i :: is =>
    let r := run step (step s i).1 is
    (r.1, (i, (step s i).2) :: r.2)

theorem run_append (step : σ → ι → σ × ω) (s : σ) (is js : List ι) :
    run step s (is ++ js) = ((run step (run step s is).1 js).1,
      (run step s is).2 ++ (run step (run step s is).1 js).2) := by
  induction is generalizing s with
  | nil => rfl
  | cons i is ih => simp [run, ih]

theorem length_run (step : σ → ι → σ × ω) (s : σ) (is : List ι) :
    (run step s is).2.length = is.length := by
  induction is generalizing s with
  | nil => rfl
  | cons i is ih => rw [run, List.length_cons, List.length_cons, ih]

theorem getElem?_run (step : σ → ι → σ × ω) (s : σ) (is : List ι) (p : Nat) :
    (run step s is).2[p]? = is[p]?.map fun i => (i, (step (run step s (is.take p)).1 i).2) := by
  induction is generalizing s p with
  | nil => rfl
  | cons i is ih =>
    cases p with
    | zero => rfl
    | succ p => exact ih (step s i).1 p

theorem take_run (step : σ → ι → σ × ω) (s : σ) (is : List ι) (p : Nat) :
    (run step s is).2.take p = (run step s (is.take p)).2 := by
  induction is generalizing s p with
  | nil => simp [run]
  | cons i is ih =>
    cases p with
    | zero => rfl
    | succ p => exact congrArg _ (ih (step s i).1 p)

def RunOk (step : σ → ι → σ × ω) (ok : σ → ι → Prop) : σ → List ι → Prop
  | _, [] => True
  | s, i :: is => ok s i ∧ RunOk step ok (step s i).1 is

instance RunOk.decidable (step : σ → ι → σ × ω) (ok : σ → ι → Prop) [∀ s i, Decidable (ok s i)] :
    ∀ s is, Decidable (RunOk step ok s is)
  | _, [] => .isTrue trivial
  | s, i :: is =>
    have := RunOk.decidable step ok (step s i).1 is
    inferInstanceAs (Decidable (ok s i ∧ RunOk step ok (step s i).1 is))

variable {is : List ι}

theorem runOk_append {js : List ι} :
    RunOk step ok s (is ++ js) ↔ RunOk step ok s is ∧ RunOk step ok (run step s is).1 js := by
  induction is generalizing s with
  | nil => exact ⟨fun h => ⟨trivial, h⟩, fun h => h.2⟩
  | cons i is ih =>
    show ok s i ∧ RunOk step ok (step s i).1 (is ++ js) ↔ _
    rw [ih, ← and_assoc]
    rfl

theorem Reaches.extend (hr : Reaches step ok s₀ h s) (is : List ι) (hok : RunOk step ok s is) :
    Reaches step ok s₀ (h ++ (run step s is).2) (run step s is).1 := by
  induction is generalizing h s with
  | nil => simpa [run] using hr
  | cons i is ih =>
    have := ih (.next hr hok.1) hok.2
    simpa [run, List.append_assoc] using this

theorem reaches_run (hok : RunOk step ok s₀ is) :
    Reaches step ok s₀ (run step s₀ is).2 (run step s₀ is).1 := by
  simpa using Reaches.extend .start is hok

theorem runOk_unrestricted (s : σ) (is : List ι) : RunOk step unrestricted s is := by
  induction is generalizing s with
  | nil => trivial
  | cons i is ih => exact ⟨trivial, ih _⟩

variable {step' : τ → ι → τ × ω} {R : σ → τ → Prop} {t : τ}

theorem run_simulates_of_ok {ok : τ → ι → Prop} (hstep : ∀ s t i, R s t → ok t i →
      R (step s i).1 (step' t i).1 ∧ (step s i).2 = (step' t i).2) (hst : R s t)
    (hok : RunOk step' ok t is) :
    R (run step s is).1 (run step' t is).1 ∧ (run step s is).2 = (run step' t is).2 := by
  induction is generalizing s t with
  | nil => exact ⟨hst, rfl⟩
  | cons i is ih =>
    obtain ⟨hnext, hout⟩ := hstep s t i hst hok.1
    obtain ⟨hend, houts⟩ := ih hnext hok.2
    exact ⟨hend, by simp only [run, hout, houts]⟩

theorem run_simulates
    (hstep : ∀ s t i, R s t → R (step s i).1 (step' t i).1 ∧ (step s i).2 = (step' t i).2)
    (is : List ι) (hst : R s t) :
    R (run step s is).1 (run step' t is).1 ∧ (run step s is).2 = (run step' t is).2 :=
  run_simulates_of_ok (fun s t i h _ => hstep s t i h) hst (runOk_unrestricted t is)

end ZeroDds
