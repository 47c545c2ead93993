/-
Checks and the calls they make.
-/
import ZeroDds.Lib.Asking
import ZeroDds.Types.TypeObject

namespace ZeroDds.Types

/-! ### Configuration and verdicts -/

inductive KeyMemberBounds where
  | enforced
  | ignored
deriving DecidableEq

inductive StrongAssignability where
  | equivalence
  | namesIgnored
deriving DecidableEq

structure AssignabilityConfig where
  allowTypeCoercion : Bool := false
  ignoreSequenceBounds : Bool := true
  ignoreStringBounds : Bool := true
  ignoreMemberNames : Bool := false
  ignoreLiteralNames : Bool := false
  preventTypeWidening : Bool := false
  maxDepth : Nat := 64
  keyMemberBounds : KeyMemberBounds := .enforced
  appendableIsDelimited : Bool := true
  strongAssignability : StrongAssignability := .equivalence
deriving DecidableEq

def AssignabilityConfig.exact (cfg : AssignabilityConfig) : AssignabilityConfig :=
  { cfg with
    ignoreSequenceBounds := false
    ignoreStringBounds := false
    ignoreMemberNames := true
    preventTypeWidening := true }

inductive Assignable where
  | yes
  | no (reason : String)
deriving DecidableEq

def Assignable.isYes : Assignable → Bool
  | .yes => true
  | .no _ => false

abbrev Assumed := List (TypeIdentifier × TypeIdentifier)

inductive Question where
  | isAssignable (assumed : Assumed) (cfg : AssignabilityConfig) (w r : TypeIdentifier)
  | checkMinimalTypes (assumed : Assumed) (cfg : AssignabilityConfig) (w r : MinimalTypeObject)
deriving DecidableEq

namespace Question

def assumed : Question → Assumed
  | isAssignable assumed _ _ _ | checkMinimalTypes assumed _ _ _ => assumed

def cfg : Question → AssignabilityConfig
  | isAssignable _ cfg _ _ | checkMinimalTypes _ cfg _ _ => cfg

end Question

abbrev Check := Asking Question Assignable Assignable

namespace Check

def assignable (assumed : Assumed) (cfg : AssignabilityConfig) (w r : TypeIdentifier) : Check :=
  Asking.call (.isAssignable assumed cfg w r)

def minimalTypes (assumed : Assumed) (cfg : AssignabilityConfig) (w r : MinimalTypeObject) :
    Check :=
  Asking.call (.checkMinimalTypes assumed cfg w r)

def yes : Check := .done .yes

def no (reason : String) : Check := .done (.no reason)

def andThen (first rest : Check) : Check :=
  first.bind fun
    | .yes => rest
    | .no reason => no reason

def require (ok : Bool) (reason : String) : Check := if ok then yes else no reason

def all {α : Type} (f : α → Check) : List α → Check
  | [] => yes
  | x :: xs => (f x).andThen (all f xs)

/-! ### Positive verdicts -/

def SaysYes (oracle : Question → Option Assignable) (t : Check) : Prop :=
  t.runWith oracle = some .yes

variable {oracle : Question → Option Assignable}

@[simp] theorem saysYes_yes : SaysYes oracle yes := rfl

variable {reason : String} {ok : Bool} {α : Type} {f : α → Check} {xs : List α} {assumed : Assumed}
  {cfg : AssignabilityConfig} {w r : TypeIdentifier}

@[simp] theorem saysYes_no : ¬SaysYes oracle (no reason) := by
  simp [SaysYes, no]

@[simp] theorem saysYes_require : SaysYes oracle (require ok reason) ↔ ok = true := by
  cases ok <;> simp [require]

theorem saysYes_unless {p : Prop} [Decidable p] {check : Check} :
    SaysYes oracle (if p then yes else check) ↔ p ∨ SaysYes oracle check := by
  by_cases hp : p <;> simp [hp]

theorem saysYes_when {p : Prop} [Decidable p] {check : Check} :
    SaysYes oracle (if p then check else yes) ↔ (p → SaysYes oracle check) := by
  by_cases hp : p <;> simp [hp]

@[simp] theorem saysYes_andThen {first rest : Check} :
    SaysYes oracle (first.andThen rest) ↔ SaysYes oracle first ∧ SaysYes oracle rest := by
  simp only [SaysYes, andThen, Asking.runWith_bind]
  cases hfirst : first.runWith oracle with
  | none => simp
  | some a =>
    cases a with
    | yes => simp
    | no reason => simp [no]

@[simp] theorem saysYes_all : SaysYes oracle (all f xs) ↔ ∀ x ∈ xs, SaysYes oracle (f x) := by
  induction xs with
  | nil => simp [all]
  | cons x xs ih => simp [all, ih]

@[simp] theorem saysYes_done {a : Assignable} : SaysYes oracle (.done a) ↔ a = .yes := by
  simp [SaysYes]

theorem saysYes_assignable :
    SaysYes oracle (assignable assumed cfg w r) ↔
      oracle (.isAssignable assumed cfg w r) = some .yes := by
  simp [SaysYes, assignable]

theorem saysYes_minimalTypes {w r : MinimalTypeObject} :
    SaysYes oracle (minimalTypes assumed cfg w r) ↔
      oracle (.checkMinimalTypes assumed cfg w r) = some .yes := by
  simp [SaysYes, minimalTypes]

/-! ### The calls of a check -/

variable {q : Question} {first rest : Check}

@[simp] theorem not_asks_yes : ¬yes.Asks q := Asking.asks_done

@[simp] theorem not_asks_no : ¬(no reason).Asks q := Asking.asks_done

@[simp] theorem not_asks_require : ¬(require ok reason).Asks q := by
  cases ok <;> exact Asking.asks_done

theorem asks_andThen (h : (first.andThen rest).Asks q) : first.Asks q ∨ rest.Asks q := by
  rcases Asking.Asks.of_bind h with h | ⟨a, h⟩
  · exact Or.inl h
  · cases a with
    | yes => exact Or.inr h
    | no reason => exact absurd h not_asks_no

theorem asks_all (h : (all f xs).Asks q) : ∃ x ∈ xs, (f x).Asks q := by
  induction xs with
  | nil => exact absurd h not_asks_yes
  | cons x xs ih =>
    rcases asks_andThen h with h | h
    · exact ⟨x, List.mem_cons_self, h⟩
    · obtain ⟨y, hy, hq⟩ := ih h
      exact ⟨y, List.mem_cons_of_mem x hy, hq⟩

@[simp] theorem asks_assignable :
    (assignable assumed cfg w r).Asks q ↔ q = .isAssignable assumed cfg w r :=
  Asking.asks_call

@[simp] theorem asks_minimalTypes {w r : MinimalTypeObject} :
    (minimalTypes assumed cfg w r).Asks q ↔ q = .checkMinimalTypes assumed cfg w r :=
  Asking.asks_call

def Only (R : Question → Prop) (t : Check) : Prop := ∀ q, t.Asks q → R q

variable {R : Question → Prop}

theorem only_yes : Only R yes := fun _ h => absurd h not_asks_yes

theorem only_no : Only R (no reason) := fun _ h => absurd h not_asks_no

theorem only_require : Only R (require ok reason) :=
  fun _ h => absurd h not_asks_require

theorem only_done {a : Assignable} : Only R (.done a) := fun _ h => absurd h Asking.asks_done

theorem Only.andThen (hfirst : Only R first) (hrest : Only R rest) : Only R (first.andThen rest) :=
  fun q h => (asks_andThen h).elim (hfirst q) (hrest q)

theorem Only.all (h : ∀ x ∈ xs, Only R (f x)) : Only R (all f xs) := by
  intro q hq
  obtain ⟨x, hx, hasks⟩ := asks_all hq
  exact h x hx q hasks

variable {t : Check}

theorem Only.mono {R' : Question → Prop} (h : Only R t) (himp : ∀ q, R q → R' q) :
    Only R' t := fun q hq => himp q (h q hq)

theorem only_assignable (h : R (.isAssignable assumed cfg w r)) :
    Only R (assignable assumed cfg w r) := by
  intro q hq
  rw [asks_assignable.mp hq]
  exact h

theorem only_minimalTypes {w r : MinimalTypeObject} (h : R (.checkMinimalTypes assumed cfg w r)) :
    Only R (minimalTypes assumed cfg w r) := by
  intro q hq
  rw [asks_minimalTypes.mp hq]
  exact h

/-! ### Checks without calls -/

def Silent (t : Check) : Prop := ∀ q, ¬t.Asks q

theorem silent_yes : Silent yes := fun _ => not_asks_yes

theorem silent_require : Silent (require ok reason) :=
  fun _ => not_asks_require

theorem Silent.andThen (hfirst : Silent first) (hrest : Silent rest) :
    Silent (first.andThen rest) :=
  fun q h => (asks_andThen h).elim (hfirst q) (hrest q)

theorem Silent.all (h : ∀ x ∈ xs, Silent (f x)) : Silent (all f xs) := by
  intro q hq
  obtain ⟨x, hx, hasks⟩ := asks_all hq
  exact h x hx q hasks

theorem Silent.only (h : Silent t) : Only R t := fun q hq => absurd hq (h q)

theorem Silent.saysYes_iff (h : Silent t) {oracle' : Question → Option Assignable} :
    SaysYes oracle t ↔ SaysYes oracle' t := by
  rw [SaysYes, SaysYes, Asking.runWith_congr fun q hq => absurd hq (h q)]

theorem all_congr {g : α → Check} (h : ∀ x ∈ xs, f x = g x) : all f xs = all g xs := by
  induction xs with
  | nil => rfl
  | cons x xs ih =>
    rw [all, all, h x List.mem_cons_self, ih fun y hy => h y (List.mem_cons_of_mem x hy)]

end Check

end ZeroDds.Types
