/-
Processes that may crash.

A process performs actions on a world that outlives it.
-/
import Mathlib.Data.List.Basic

namespace ZeroDds

variable {σ ι β γ : Type}

abbrev Process (σ β : Type) := OptionT (StateM (Nat × σ)) β

namespace Process

def perform (apply : σ → ι → σ) (a : ι) : Process σ Unit := do
  match (← get) with
  | (0, _) => failure
  | (n + 1, s) => set (n, apply s a)

def world : Process σ σ := do return (← get).2

def attempt (p : Process σ β) (n : Nat) (s : σ) : Option β × σ :=
  ((p (n, s)).1, (p (n, s)).2.2)

def Does (apply : σ → ι → σ) (p : Process σ β) (as : List ι) (b : β) : Prop :=
  ∀ n s, p (n, s) =
    if as.length ≤ n then (some b, n - as.length, as.foldl apply s)
    else (none, 0, (as.take n).foldl apply s)

variable {apply : σ → ι → σ}

theorem Does.pure (b : β) : Does apply (Pure.pure b : Process σ β) [] b := by
  intro n s
  exact (if_pos (Nat.zero_le n)).symm

theorem Does.perform (a : ι) : Does apply (Process.perform apply a) [a] () := by
  intro n s
  cases n with
  | zero => rfl
  | succ n => rfl

variable {p : Process σ β} {f : β → Process σ γ} {b : β} {l : List γ} {acts : γ → List ι}

theorem bind_of_some {x y : Nat × σ} (h : p x = (some b, y)) : (p >>= f) x = f b y := by
  show OptionT.bind p f x = _
  unfold OptionT.bind OptionT.mk
  show StateT.bind p _ x = _
  unfold StateT.bind
  rw [h]
  rfl

theorem bind_of_none {x y : Nat × σ} (h : p x = (none, y)) : (p >>= f) x = (none, y) := by
  show OptionT.bind p f x = _
  unfold OptionT.bind OptionT.mk
  show StateT.bind p _ x = _
  unfold StateT.bind
  rw [h]
  rfl

theorem Does.bind {as bs : List ι} {c : γ} (hp : Does apply p as b) (hf : Does apply (f b) bs c) :
    Does apply (p >>= f) (as ++ bs) c := by
  intro n s
  have hrun := hp n s
  by_cases has : as.length ≤ n
  · rw [if_pos has] at hrun
    rw [bind_of_some hrun, hf, List.length_append, List.foldl_append]
    by_cases hbs : bs.length ≤ n - as.length
    · rw [if_pos hbs, if_pos (by omega), Nat.sub_sub]
    · rw [if_neg hbs, if_neg (by omega), List.take_append, List.take_of_length_le has,
        List.foldl_append]
  · rw [if_neg has] at hrun
    rw [bind_of_none hrun, List.length_append, if_neg (by omega),
      List.take_append_of_le_length (by omega)]

theorem Does.forM {f : γ → Process σ Unit} (h : ∀ x ∈ l, Does apply (f x) (acts x) ()) :
    Does apply (l.forM f) (l.flatMap acts) () := by
  induction l with
  | nil => exact .pure ()
  | cons x l ih =>
    rw [List.flatMap_cons]
    exact (h x List.mem_cons_self).bind (ih fun y hy => h y (List.mem_cons_of_mem x hy))

theorem Does.mapM {f : γ → Process σ β} {v : γ → β} (h : ∀ x ∈ l, Does apply (f x) (acts x) (v x)) :
    Does apply (l.mapM f) (l.flatMap acts) (l.map v) := by
  induction l with
  | nil => exact .pure []
  | cons x l ih =>
    rw [List.mapM_cons, List.flatMap_cons]
    refine (h x List.mem_cons_self).bind ?_
    have htail := (ih fun y hy => h y (List.mem_cons_of_mem x hy)).bind
      (f := fun bs => Pure.pure (v x :: bs)) (Does.pure _)
    rwa [List.append_nil] at htail

theorem Does.foldlM {f : β → γ → Process σ β} (h : ∀ x ∈ l, Does apply (f b x) (acts x) b) :
    Does apply (l.foldlM f b) (l.flatMap acts) b := by
  induction l with
  | nil => exact .pure b
  | cons x l ih =>
    rw [List.foldlM_cons, List.flatMap_cons]
    exact (h x List.mem_cons_self).bind (ih fun y hy => h y (List.mem_cons_of_mem x hy))

theorem Does.attempt {as : List ι} (hp : Does apply p as b) (n : Nat) (s : σ) : p.attempt n s =
      (if as.length ≤ n then some b else none, (as.take n).foldl apply s) := by
  unfold Process.attempt
  rw [hp n s]
  by_cases h : as.length ≤ n
  · rw [if_pos h, if_pos h, List.take_of_length_le h]
  · rw [if_neg h, if_neg h]

end Process

end ZeroDds
