/-
PARTITION names.

The matcher of the PARTITION QoS policy:  `fnmatch` over the bytes of two names, with the position
after the last `*` kept for a mismatch, and `partitionNamesMatch`, which pairs the names of a writer
and a reader; `partitionsCompatible` asks for one such pair.
-/
import Mathlib.Data.List.Basic
import Mathlib.Tactic.Linarith

namespace ZeroDds.Qos

/-- The positions of the loop in pattern and text, with the last `*` and what it stands for. -/
structure GlobCursor where
  p : Nat
  t : Nat
  star_pat : Option Nat
  star_txt : Nat
  star_le : star_txt ≤ t

namespace GlobCursor

def start : GlobCursor := ⟨0, 0, none, 0, Nat.le_refl 0⟩

variable (c : GlobCursor)

def advance (width : Nat) : GlobCursor :=
  { c with p := c.p + width, t := c.t + 1, star_le := Nat.le_succ_of_le c.star_le }

def passStar : GlobCursor :=
  ⟨c.p + 1, c.t, some (c.p + 1), c.t, Nat.le_refl c.t⟩

/-- Mismatch: the last `*` takes one more character.  Without one there is no match. -/
def resume : Option GlobCursor :=
  c.star_pat.map fun sp => ⟨sp, c.star_txt + 1, some sp, c.star_txt + 1, Nat.le_refl _⟩

def remaining (m n : Nat) : Nat :=
  (match c.star_pat with
    | none => n + 1
    | some _ => n - c.star_txt) * (m + 1) + (m - c.p)

end GlobCursor

def matchesClass : List UInt8 → UInt8 → Bool
  | a :: dash :: b :: rest, ch =>
    if dash == '-'.toUInt8 then
      (decide (a ≤ ch) && decide (ch ≤ b)) || matchesClass rest ch
    else
      ch == a || matchesClass (dash :: b :: rest) ch
  | a :: rest, ch => ch == a || matchesClass rest ch
  | [], _ => false

def classMembers : List UInt8 → Bool × List UInt8
  | a :: members =>
    if a == '!'.toUInt8 || a == '^'.toUInt8 then (true, members) else (false, a :: members)
  | [] => (false, [])

/-- One turn of the loop on the byte `ch` of the text; `none` is a mismatch for good. -/
def GlobCursor.step (pat : List UInt8) (ch : UInt8) (c : GlobCursor) : Option GlobCursor :=
  match pat[c.p]? with
  | none => c.resume
  | some b =>
    if b == '*'.toUInt8 then some c.passStar
    else if b == '?'.toUInt8 then some (c.advance 1)
    else if b == '['.toUInt8 then
      match (pat.drop (c.p + 1)).findIdx? (· == ']'.toUInt8) with
      | none => none
      | some close =>
        let (negate, members) := classMembers ((pat.drop (c.p + 1)).take close)
        if matchesClass members ch == negate then c.resume
        else some (c.advance (close + 2))
    else if b == ch then some (c.advance 1)
    else c.resume

variable {c : GlobCursor} {m n : Nat}

theorem GlobCursor.advance_remaining {width : Nat} (hp : c.p < m) (hwidth : 0 < width) :
    (c.advance width).remaining m n < c.remaining m n := by
  have hlt : m - (c.p + width) < m - c.p := by omega
  exact Nat.add_lt_add_left hlt _

theorem GlobCursor.passStar_remaining (hp : c.p < m) :
    c.passStar.remaining m n < c.remaining m n := by
  have hlt : m - (c.p + 1) < m - c.p := by omega
  have hle : (n - c.t) * (m + 1) ≤
      (match c.star_pat with
        | none => n + 1
        | some _ => n - c.star_txt) * (m + 1) := by
    apply Nat.mul_le_mul_right
    have := c.star_le
    split <;> omega
  exact Nat.add_lt_add_of_le_of_lt hle hlt

theorem GlobCursor.resume_remaining {c' : GlobCursor} (ht : c.t < n) (h : c.resume = some c') :
    c'.remaining m n < c.remaining m n := by
  unfold resume at h
  cases hstar : c.star_pat with
  | none => simp [hstar] at h
  | some sp =>
    rw [hstar, Option.map_some, Option.some.injEq] at h
    subst h
    have hle := c.star_le
    have hdrop : (n - (c.star_txt + 1)) * (m + 1) + (m + 1) = (n - c.star_txt) * (m + 1) := by
      rw [← Nat.succ_mul]
      congr 1
      omega
    simp only [remaining, hstar]
    omega

theorem GlobCursor.step_remaining {pat : List UInt8} {ch : UInt8} {c' : GlobCursor} (ht : c.t < n)
    (h : c.step pat ch = some c') : c'.remaining pat.length n < c.remaining pat.length n := by
  unfold step at h
  cases hb : pat[c.p]? with
  | none =>
    rw [hb] at h
    exact resume_remaining ht h
  | some b =>
    have hp : c.p < pat.length := (List.getElem?_eq_some_iff.mp hb).1
    simp only [hb] at h
    split at h
    · cases h
      exact passStar_remaining hp
    · split at h
      · cases h
        exact advance_remaining hp Nat.one_pos
      · split at h
        · split at h
          · cases h
          · split at h
            · exact resume_remaining ht h
            · cases h
              exact advance_remaining hp (Nat.succ_pos _)
        · split at h
          · cases h
            exact advance_remaining hp Nat.one_pos
          · exact resume_remaining ht h

/-- The loop of `fnmatch_bytes`; once the text is used up only `*` may be left of the pattern. -/
def fnmatchFrom (pat txt : List UInt8) (c : GlobCursor) : Bool :=
  match _ht : txt[c.t]? with
  | none => ((pat.drop c.p).dropWhile (· == '*'.toUInt8)).isEmpty
  | some ch =>
    match _hs : c.step pat ch with
    | none => false
    | some c' => fnmatchFrom pat txt c'
termination_by c.remaining pat.length txt.length
decreasing_by exact GlobCursor.step_remaining (List.getElem?_eq_some_iff.mp _ht).1 _hs

def fnmatchBytes (pat txt : List UInt8) : Bool := fnmatchFrom pat txt .start

def fnmatch (pattern text : String) : Bool :=
  fnmatchBytes pattern.toUTF8.data.toList text.toUTF8.data.toList

def hasWildcard (name : String) : Bool :=
  let bytes := name.toUTF8.data.toList
  bytes.any (fun c => c == '*'.toUInt8 || c == '?'.toUInt8) ||
    (bytes.findIdx? (· == '['.toUInt8)).any fun opening =>
      (bytes.drop (opening + 1)).contains ']'.toUInt8

def partitionNamesMatch (a b : String) : Bool :=
  match hasWildcard a, hasWildcard b with
  | true, true => false
  | true, false => fnmatch a b
  | false, true => fnmatch b a
  | false, false => a == b

def orDefault (names : List String) : List String := if names.isEmpty then [""] else names

def partitionsCompatible (offered requested : List String) : Bool :=
  (orDefault offered).any fun o => (orDefault requested).any fun r => partitionNamesMatch o r

theorem partitionNamesMatch_literals {a b : String} (ha : hasWildcard a = false)
    (hb : hasWildcard b = false) : partitionNamesMatch a b = true ↔ a = b := by
  simp [partitionNamesMatch, ha, hb]

example : partitionNamesMatch "s*" "secret" = true := by decide +kernel

example : partitionNamesMatch "T[!0-9]" "T7" = false := by decide +kernel

end ZeroDds.Qos
