/-
Name matching of the access-control documents.

`fnmatch` as the permissions and governance documents use it: `*`, `?`, sets with ranges and
negation, and a backslash that quotes the next character.
-/
import Mathlib.Data.List.Basic
import Mathlib.Tactic.Linarith

namespace ZeroDds.Security

structure FnmatchFlags where
  pathname : Bool := false
  noescape : Bool := false
deriving Repr, DecidableEq

/-- The set from position `j` on: whether it holds `ch`, and where its `]` stands.  `none` when
the set has no `]`. -/
def bracketFrom (p : List Char) (flags : FnmatchFlags) (ch : Option Char) (j : Nat)
    (first hit : Bool) : Option (Bool × Nat) :=
  match h : p[j]? with
  | none => none
  | some c0 =>
    if c0 == ']' && !first then some (hit, j)
    else
      let escaped := if c0 == '\\' && !flags.noescape then 1 else 0
      let j' := j + escaped
      match p[j']? with
      | none => none
      | some c =>
        if p[j' + 1]? == some '-' && p[j' + 2]?.any (· != ']') then
          let quoted := if p[j' + 2]? == some '\\' && !flags.noescape then 1 else 0
          match p[j' + 2 + quoted]? with
          | none => none
          | some hi =>
            bracketFrom p flags ch (j' + 2 + quoted + 1) false
              (hit || ch.any fun x => decide (c ≤ x) && decide (x ≤ hi))
        else
          bracketFrom p flags ch (j' + 1) false (hit || ch == some c)
termination_by p.length - j
decreasing_by
  all_goals
    have := (List.getElem?_eq_some_iff.mp h).1
    omega

variable {p : List Char} {flags : FnmatchFlags} {ch : Option Char} {found : Bool}

theorem bracketFrom_le {j : Nat} {first hit : Bool} {k : Nat}
    (h : bracketFrom p flags ch j first hit = some (found, k)) : j ≤ k := by
  fun_induction bracketFrom p flags ch j first hit with
  | case1 | case3 | case4 => cases h
  | case2 => simp only [Option.some.injEq, Prod.mk.injEq] at h; omega
  | case5 => rename_i ih; have := ih h; omega
  | case6 => rename_i ih; have := ih h; omega

/-- The set at the `[` at `start` against `ch`: whether it matches, and the position after it. -/
def bracket (p : List Char) (start : Nat) (ch : Option Char) (flags : FnmatchFlags) :
    Option (Bool × Nat) :=
  let negate := p[start + 1]? == some '!'
  let j := if negate then start + 2 else start + 1
  (bracketFrom p flags ch j true false).map fun (hit, close) =>
    (ch.any fun x => hit != negate && !(flags.pathname && x == '/'), close + 1)

theorem bracket_after {start : Nat} {next : Nat}
    (h : bracket p start ch flags = some (found, next)) : start < next := by
  obtain ⟨⟨hit, close⟩, hfrom, heq⟩ := Option.map_eq_some_iff.mp h
  have hle := bracketFrom_le hfrom
  simp only [Prod.mk.injEq] at heq
  split at hle <;> omega

/-- The positions of the loop in pattern and name, with the pattern position after the last `*`
and the name position it stands for. -/
structure MatchCursor where
  pi : Nat
  si : Nat
  star : Option (Nat × Nat)
  star_le : ∀ sp ss, star = some (sp, ss) → ss ≤ si

namespace MatchCursor

def start : MatchCursor := ⟨0, 0, none, nofun⟩

def advance (c : MatchCursor) (next : Nat) : MatchCursor :=
  { c with
    pi := next
    si := c.si + 1
    star_le := fun sp ss h => Nat.le_succ_of_le (c.star_le sp ss h) }

def passStar (c : MatchCursor) : MatchCursor :=
  ⟨c.pi + 1, c.si, some (c.pi + 1, c.si), by simp⟩

def resume (s : List Char) (flags : FnmatchFlags) (c : MatchCursor) : Option MatchCursor :=
  match c.star with
  | none => none
  | some (sp, ss) =>
    match s[ss]? with
    | none => none
    | some x =>
      if flags.pathname && x == '/' then none
      else some ⟨sp, ss + 1, some (sp, ss + 1), by simp⟩

def attempt (p s : List Char) (flags : FnmatchFlags) (c : MatchCursor) : Option MatchCursor :=
  match p[c.pi]? with
  | none => none
  | some '*' => some c.passStar
  | some '?' =>
    if s[c.si]?.any fun x => !(flags.pathname && x == '/') then some (c.advance (c.pi + 1))
    else none
  | some '[' =>
    match bracket p c.pi s[c.si]? flags with
    | some (true, next) => some (c.advance next)
    | some (false, _) => none
    | none => if s[c.si]? == some '[' then some (c.advance (c.pi + 1)) else none
  | some ch =>
    if ch == '\\' && !flags.noescape && decide (c.pi + 1 < p.length) then
      if s[c.si]?.isSome && s[c.si]? == p[c.pi + 1]? then some (c.advance (c.pi + 2)) else none
    else if s[c.si]? == some ch then some (c.advance (c.pi + 1))
    else none

def remaining (c : MatchCursor) (m n : Nat) : Nat :=
  (match c.star with
    | none => n + 1
    | some (_, ss) => n - ss) * (m + 1) + (m - c.pi)

variable {c : MatchCursor} {m n : Nat}

theorem advance_remaining {next : Nat} (hp : c.pi < m) (hnext : c.pi < next) :
    (c.advance next).remaining m n < c.remaining m n := by
  have hlt : m - next < m - c.pi := by omega
  exact Nat.add_lt_add_left hlt _

theorem passStar_remaining (hp : c.pi < m) : c.passStar.remaining m n < c.remaining m n := by
  have hlt : m - (c.pi + 1) < m - c.pi := by omega
  have hle : (n - c.si) * (m + 1) ≤
      (match c.star with
        | none => n + 1
        | some (_, ss) => n - ss) * (m + 1) := by
    apply Nat.mul_le_mul_right
    split
    · omega
    · next sp ss hstar =>
      have := c.star_le sp ss hstar
      omega
  exact Nat.add_lt_add_of_le_of_lt hle hlt

variable {s : List Char} {flags : FnmatchFlags} {c' : MatchCursor}

theorem resume_remaining (h : c.resume s flags = some c') :
    c'.remaining m s.length < c.remaining m s.length := by
  unfold resume at h
  cases hstar : c.star with
  | none => simp [hstar] at h
  | some star =>
    obtain ⟨sp, ss⟩ := star
    simp only [hstar] at h
    cases hss : s[ss]? with
    | none => simp [hss] at h
    | some x =>
      have hlt : ss < s.length := (List.getElem?_eq_some_iff.mp hss).1
      simp only [hss] at h
      split at h
      · cases h
      · cases h
        have hdrop : (s.length - (ss + 1)) * (m + 1) + (m + 1) = (s.length - ss) * (m + 1) := by
          rw [← Nat.succ_mul]
          congr 1
          omega
        simp only [remaining, hstar]
        omega

theorem attempt_remaining (h : c.attempt p s flags = some c') :
    c'.remaining p.length n < c.remaining p.length n := by
  unfold attempt at h
  cases hp : p[c.pi]? with
  | none => simp [hp] at h
  | some b =>
    have hlt : c.pi < p.length := (List.getElem?_eq_some_iff.mp hp).1
    have hone : c.pi < c.pi + 1 := Nat.lt_succ_self _
    simp only [hp] at h
    split at h
    · next heq => cases heq
    · cases h
      exact passStar_remaining hlt
    · split at h
      · cases h
        exact advance_remaining hlt hone
      · cases h
    · split at h
      · next hbracket =>
        cases h
        exact advance_remaining hlt (bracket_after hbracket)
      · cases h
      · split at h
        · cases h
          exact advance_remaining hlt hone
        · cases h
    · split at h
      · split at h
        · cases h
          exact advance_remaining hlt (by omega)
        · cases h
      · split at h
        · cases h
          exact advance_remaining hlt hone
        · cases h

end MatchCursor

def fnmatchFrom (p s : List Char) (flags : FnmatchFlags) (c : MatchCursor) : Bool :=
  match ha : c.attempt p s flags with
  | some c' => fnmatchFrom p s flags c'
  | none =>
    if p.length ≤ c.pi && c.si == s.length then true
    else
      match hr : c.resume s flags with
      | some c' => fnmatchFrom p s flags c'
      | none => false
termination_by c.remaining p.length s.length
decreasing_by
  · exact MatchCursor.attempt_remaining ha
  · exact MatchCursor.resume_remaining hr

def fnmatch (pattern name : String) (flags : FnmatchFlags) : Bool :=
  fnmatchFrom pattern.toList name.toList flags .start

def topicMatch (pattern name : String) : Bool := fnmatch pattern name {}

example : topicMatch "T[!0-9]" "Tx" = true := by decide +kernel

example : topicMatch "a[" "a[" = true := by decide +kernel

end ZeroDds.Security
