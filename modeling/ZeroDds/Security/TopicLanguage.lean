/-
Which names a topic expression stands for.
-/
import ZeroDds.Lib.Glob
import ZeroDds.Security.TopicMatch

namespace ZeroDds.Security

open Glob

inductive SetChar (flags : FnmatchFlags) : List Char → Char → Prop
  | plain {c : Char} (h : c = '\\' → flags.noescape = true) : SetChar flags [c] c
  | escaped {c : Char} (h : flags.noescape = false) : SetChar flags ['\\', c] c

def StartsRange (behind : List Char) : Prop := ∃ c rest, behind = '-' :: c :: rest ∧ c ≠ ']'

/-- The members of a set, each the ends of a range, and what follows its `]`.  A `]` that comes
first is a member. -/
inductive Members (flags : FnmatchFlags) : Bool → List Char → List (Char × Char) → List Char → Prop
  | close {rest : List Char} : Members flags false (']' :: rest) [] rest
  | single {first : Bool} {text behind rest : List Char} {c : Char} {members : List (Char × Char)}
      (hchar : SetChar flags text c) (hfirst : text.head? = some ']' → first = true)
      (hrange : ¬ StartsRange behind) (h : Members flags false behind members rest) :
      Members flags first (text ++ behind) ((c, c) :: members) rest
  | range {first : Bool} {text upper behind rest : List Char} {lo hi : Char}
      {members : List (Char × Char)} (hlo : SetChar flags text lo)
      (hfirst : text.head? = some ']' → first = true) (hhi : SetChar flags upper hi)
      (hupper : upper.head? ≠ some ']') (h : Members flags false behind members rest) :
      Members flags first (text ++ '-' :: (upper ++ behind)) ((lo, hi) :: members) rest

inductive BracketSet (flags : FnmatchFlags) :
    List Char → Bool → List (Char × Char) → List Char → Prop
  | negated {text rest : List Char} {members : List (Char × Char)}
      (h : Members flags true text members rest) : BracketSet flags ('!' :: text) true members rest
  | plain {text rest : List Char} {members : List (Char × Char)} (hbang : text.head? ≠ some '!')
      (h : Members flags true text members rest) : BracketSet flags text false members rest

def isMember (members : List (Char × Char)) (x : Char) : Bool :=
  members.any fun r => decide (r.1 ≤ x) && decide (x ≤ r.2)

def isFree (flags : FnmatchFlags) (x : Char) : Bool := !(flags.pathname && x == '/')

inductive Matches (flags : FnmatchFlags) : List Char → List Char → Prop
  | nil : Matches flags [] []
  | star {pattern name : List Char} (run : List Char) (hfree : ∀ x ∈ run, isFree flags x = true)
      (h : Matches flags pattern name) : Matches flags ('*' :: pattern) (run ++ name)
  | ques {pattern name : List Char} {x : Char} (hfree : isFree flags x = true)
      (h : Matches flags pattern name) : Matches flags ('?' :: pattern) (x :: name)
  | set {text rest name : List Char} {negated : Bool} {members : List (Char × Char)} {x : Char}
      (hset : BracketSet flags text negated members rest) (hx : isMember members x ≠ negated)
      (hfree : isFree flags x = true) (h : Matches flags rest name) :
      Matches flags ('[' :: text) (x :: name)
  | bracket {pattern name : List Char}
      (hset : ∀ negated members rest, ¬ BracketSet flags pattern negated members rest)
      (h : Matches flags pattern name) : Matches flags ('[' :: pattern) ('[' :: name)
  | escaped {pattern name : List Char} {c : Char} (hescape : flags.noescape = false)
      (h : Matches flags pattern name) : Matches flags ('\\' :: c :: pattern) (c :: name)
  | literal {pattern name : List Char} {c : Char} (hplain : c ∉ ['*', '?', '['])
      (hescape : c = '\\' → flags.noescape = true ∨ pattern = [])
      (h : Matches flags pattern name) : Matches flags (c :: pattern) (c :: name)

theorem getElem?_of_drop {p t : List Char} {j : Nat} (h : p.drop j = t) (i : Nat) :
    p[j + i]? = t[i]? := by
  rw [← h, List.getElem?_drop]

section Steps

variable {p text upper behind rest : List Char} {flags : FnmatchFlags} {ch : Option Char} {j : Nat}
  {first hit : Bool} {c lo hi : Char}

theorem bracketFrom_close (h : p.drop j = ']' :: rest) :
    bracketFrom p flags ch j false hit = some (hit, j) := by
  have h0 := getElem?_of_drop h 0
  rw [Nat.add_zero] at h0
  unfold bracketFrom
  split
  · next hnone => rw [hnone] at h0; cases h0
  · next c0 hc0 =>
    rw [hc0] at h0
    cases h0
    rfl

def afterChar (p : List Char) (flags : FnmatchFlags) (ch : Option Char) (k : Nat) (c : Char)
    (hit : Bool) : Option (Bool × Nat) :=
  if p[k]? == some '-' && p[k + 1]?.any (· != ']') then
    let quoted := if p[k + 1]? == some '\\' && !flags.noescape then 1 else 0
    (p[k + 1 + quoted]?).bind fun hi => bracketFrom p flags ch (k + 1 + quoted + 1) false
      (hit || ch.any fun x => decide (c ≤ x) && decide (x ≤ hi))
  else bracketFrom p flags ch k false (hit || ch == some c)

theorem bracketFrom_some {c0 : Char} (hc0 : p[j]? = some c0)
    (hclose : (c0 == ']' && !first) = false) :
    bracketFrom p flags ch j first hit =
      (p[j + (if c0 == '\\' && !flags.noescape then 1 else 0)]?).bind fun c =>
        afterChar p flags ch (j + (if c0 == '\\' && !flags.noescape then 1 else 0) + 1) c hit := by
  rw [bracketFrom]
  split
  · next hnone => rw [hnone] at hc0; cases hc0
  · next c1 hc1 =>
    rw [hc1] at hc0
    cases hc0
    rw [if_neg (by rw [hclose]; decide)]
    dsimp only
    generalize j + (if c0 == '\\' && !flags.noescape then 1 else 0) = j'
    cases hc : p[j']? with
    | none => rfl
    | some c =>
      simp only [Option.bind_some]
      unfold afterChar
      split
      · dsimp only
        cases p[j' + 2 + (if p[j' + 2]? == some '\\' && !flags.noescape then 1 else 0)]? <;> rfl
      · rfl

theorem bracketFrom_char (h : p.drop j = text ++ behind) (hchar : SetChar flags text c)
    (hfirst : text.head? = some ']' → first = true) :
    bracketFrom p flags ch j first hit = afterChar p flags ch (j + text.length) c hit := by
  have hpos := getElem?_of_drop h
  have hclose : ∀ c0, text.head? = some c0 → (c0 == ']' && !first) = false := by
    intro c0 hc0
    by_cases hc : c0 = ']'
    · rw [hfirst (hc ▸ hc0)]
      simp
    · simp [hc]
  cases hchar with
  | plain hplain =>
    have hescaped : (c == '\\' && !flags.noescape) = false := by
      by_cases hc : c = '\\'
      · rw [hplain hc]
        simp
      · simp [hc]
    have h0 : p[j]? = some c := hpos 0
    rw [bracketFrom_some h0 (hclose c rfl), hescaped]
    simp only [Bool.false_eq_true, if_false, Nat.add_zero, h0, Option.bind_some]
    rfl
  | escaped hescape =>
    have h0 : p[j]? = some '\\' := hpos 0
    have h1 : p[j + 1]? = some c := hpos 1
    rw [bracketFrom_some h0 (hclose '\\' rfl), hescape]
    simp only [BEq.rfl, Bool.not_false, Bool.and_self, if_true, h1, Option.bind_some]
    rfl

theorem afterChar_single {k : Nat} (h : p.drop k = behind) (hrange : ¬ StartsRange behind) :
    afterChar p flags ch k c hit = bracketFrom p flags ch k false (hit || ch == some c) := by
  have h0 : p[k]? = behind[0]? := getElem?_of_drop h 0
  have h1 : p[k + 1]? = behind[1]? := getElem?_of_drop h 1
  rw [afterChar, if_neg]
  rw [h0, h1]
  match behind with
  | [] => simp
  | [a] => simp
  | a :: b :: rest =>
    intro hcond
    simp only [List.getElem?_cons_zero, List.getElem?_cons_succ, Bool.and_eq_true, beq_iff_eq,
      Option.some.injEq, Option.any_some, bne_iff_ne] at hcond
    exact hrange ⟨b, rest, by rw [hcond.1], hcond.2⟩

theorem afterChar_range {k : Nat} (h : p.drop k = '-' :: (upper ++ behind))
    (hhi : SetChar flags upper hi) (hupper : upper.head? ≠ some ']') :
    afterChar p flags ch k c hit = bracketFrom p flags ch (k + 1 + upper.length) false
      (hit || ch.any fun x => decide (c ≤ x) && decide (x ≤ hi)) := by
  have hpos := getElem?_of_drop h
  have h0 : p[k]? = some '-' := hpos 0
  have h1 : p[k + 1]? = upper.head? := by
    rw [hpos 1]
    cases hhi <;> rfl
  have hcond : (p[k]? == some '-' && p[k + 1]?.any (· != ']')) = true := by
    rw [h0, h1]
    cases hhi with
    | plain => simpa using hupper
    | escaped => simp
  rw [afterChar, if_pos hcond]
  cases hhi with
  | plain hplain =>
    have h1' : p[k + 1]? = some hi := h1
    have hquoted : (hi == '\\' && !flags.noescape) = false := by
      by_cases hc : hi = '\\'
      · rw [hplain hc]
        simp
      · simp [hc]
    have hsame : (some hi == some '\\') = (hi == '\\') := rfl
    simp only [h1', hsame, hquoted, Bool.false_eq_true, if_false, Nat.add_zero, Option.bind_some]
    rfl
  | escaped hescape =>
    have h1' : p[k + 1]? = some '\\' := h1
    have h2 : p[k + 1 + 1]? = some hi := hpos 2
    simp only [h1', hescape, BEq.rfl, Bool.not_false, Bool.and_self, if_true, h2, Option.bind_some]
    rfl

theorem bracketFrom_unfinished (hescape : flags.noescape = false) (h : p.drop j = ['\\']) :
    bracketFrom p flags ch j first hit = none := by
  have hpos := getElem?_of_drop h
  have h0 : p[j]? = some '\\' := hpos 0
  have h1 : p[j + 1]? = none := hpos 1
  rw [bracketFrom_some h0 (by simp), hescape]
  simp [BEq.rfl, h1]

theorem afterChar_unfinished {k : Nat} (hescape : flags.noescape = false)
    (h : p.drop k = ['-', '\\']) : afterChar p flags ch k c hit = none := by
  have hpos := getElem?_of_drop h
  have h0 : p[k]? = some '-' := hpos 0
  have h1 : p[k + 1]? = some '\\' := hpos 1
  have h2 : p[k + 1 + 1]? = none := hpos 2
  rw [afterChar, if_pos (by rw [h0, h1]; simp)]
  simp [h1, hescape, BEq.rfl, h2]

theorem bracketFrom_nil (h : p.drop j = []) : bracketFrom p flags ch j first hit = none := by
  have hnone : p[j]? = none := List.getElem?_eq_none (List.drop_eq_nil_iff.mp h)
  rw [bracketFrom]
  split
  · rfl
  · next hsome => rw [hnone] at hsome; cases hsome

theorem exists_setChar (flags : FnmatchFlags) (c0 : Char) (tail : List Char) :
    (∃ text c behind, c0 :: tail = text ++ behind ∧ SetChar flags text c ∧
      text.head? = some c0) ∨ (flags.noescape = false ∧ c0 :: tail = ['\\']) := by
  by_cases hescape : c0 = '\\' ∧ flags.noescape = false
  · obtain ⟨rfl, hescape⟩ := hescape
    cases tail with
    | nil => exact .inr ⟨hescape, rfl⟩
    | cons c behind => exact .inl ⟨['\\', c], c, behind, rfl, .escaped hescape, rfl⟩
  · refine .inl ⟨[c0], c0, tail, rfl, .plain fun hc => ?_, rfl⟩
    by_contra hnot
    exact hescape ⟨hc, Bool.eq_false_iff.mpr hnot⟩

end Steps

section Sets

variable {flags : FnmatchFlags} {text rest : List Char}
  {members : List (Char × Char)} {first : Bool}

theorem Members.bracketFrom (h : Members flags first text members rest) {p : List Char} {j : Nat}
    (hp : p.drop j = text) (ch : Option Char) (hit : Bool) :
    ∃ k, p.drop (k + 1) = rest ∧ k < p.length ∧
      bracketFrom p flags ch j first hit = some (hit || ch.any (isMember members), k) := by
  induction h generalizing j hit with
  | @close rest =>
    refine ⟨j, ?_, ?_, ?_⟩
    · rw [← List.tail_drop, hp, List.tail_cons]
    · by_contra hlt
      rw [List.drop_of_length_le (by omega)] at hp
      cases hp
    · rw [bracketFrom_close hp]
      cases ch <;> simp [isMember]
  | @single first text behind rest c members hchar hfirst hrange _ ih =>
    have hbehind : p.drop (j + text.length) = behind := by
      rw [← List.drop_drop, hp, List.drop_left]
    obtain ⟨k, hrest, hlt, hk⟩ := ih hbehind (hit || ch == some c)
    refine ⟨k, hrest, hlt, ?_⟩
    rw [bracketFrom_char hp hchar hfirst, afterChar_single hbehind hrange, hk]
    cases ch with
    | none => simp
    | some x =>
      have hone : (decide (c ≤ x) && decide (x ≤ c)) = (some x == some c) := by
        rw [Bool.eq_iff_iff]
        simp only [Bool.and_eq_true, decide_eq_true_eq, beq_iff_eq, Option.some.injEq]
        exact ⟨fun h => Char.le_antisymm h.2 h.1, fun h => h ▸ ⟨Char.le_refl x, Char.le_refl x⟩⟩
      simp only [Option.any_some, isMember, List.any_cons, hone, Bool.or_assoc]
  | @range first text upper behind rest lo hi members hlo hfirst hhi hupper _ ih =>
    have hdash : p.drop (j + text.length) = '-' :: (upper ++ behind) := by
      rw [← List.drop_drop, hp, List.drop_left]
    have hbehind : p.drop (j + text.length + 1 + upper.length) = behind := by
      rw [← List.drop_drop, ← List.drop_drop, hdash, List.drop_one, List.tail_cons, List.drop_left]
    obtain ⟨k, hrest, hlt, hk⟩ :=
      ih hbehind (hit || ch.any fun x => decide (lo ≤ x) && decide (x ≤ hi))
    refine ⟨k, hrest, hlt, ?_⟩
    rw [bracketFrom_char hp hlo hfirst, afterChar_range hdash hhi hupper, hk]
    cases ch with
    | none => simp
    | some x => simp only [Option.any_some, isMember, List.any_cons, Bool.or_assoc]

theorem exists_members (p : List Char) (ch : Option Char) (n : Nat) :
    ∀ (j : Nat) (first hit : Bool), p.length - j < n →
      (Security.bracketFrom p flags ch j first hit).isSome = true →
      ∃ members rest, Members flags first (p.drop j) members rest := by
  induction n with
  | zero => exact fun j first hit hn => absurd hn (Nat.not_lt_zero _)
  | succ n ih =>
    intro j first hit hn h
    cases htext : p.drop j with
    | nil =>
      rw [bracketFrom_nil htext] at h
      cases h
    | cons c0 tail =>
      have hlt : j < p.length := by
        by_contra hge
        rw [List.drop_of_length_le (by omega)] at htext
        cases htext
      by_cases hclose : c0 = ']' ∧ first = false
      · obtain ⟨rfl, rfl⟩ := hclose
        exact ⟨[], tail, .close⟩
      rcases exists_setChar flags c0 tail with
        ⟨text, c, behind, hsplit, hchar, hhead⟩ | ⟨hescape, heq⟩
      · have hlong : 0 < text.length := by cases hchar <;> simp
        have hfirst : text.head? = some ']' → first = true := by
          intro hbracket
          rw [hhead] at hbracket
          by_contra hnot
          exact hclose ⟨Option.some.inj hbracket, Bool.eq_false_iff.mpr hnot⟩
        rw [hsplit] at htext
        have hbehind : p.drop (j + text.length) = behind := by
          rw [← List.drop_drop, htext, List.drop_left]
        rw [bracketFrom_char htext hchar hfirst] at h
        rw [hsplit]
        by_cases hrange : StartsRange behind
        · obtain ⟨u, more, rfl, hu⟩ := hrange
          rcases exists_setChar flags u more with
            ⟨upper, hi, behind, hupper, hhi, hhead'⟩ | ⟨hescape, heq⟩
          · rw [hupper] at hbehind ⊢
            have hne : upper.head? ≠ some ']' := by
              rw [hhead']
              exact fun heq => hu (Option.some.inj heq)
            rw [afterChar_range hbehind hhi hne] at h
            have hlast : p.drop (j + text.length + 1 + upper.length) = behind := by
              rw [← List.drop_drop, ← List.drop_drop, hbehind, List.drop_one, List.tail_cons,
                List.drop_left]
            obtain ⟨members, rest, hmembers⟩ := ih _ _ _ (by omega) h
            rw [hlast] at hmembers
            exact ⟨_, rest, .range hchar hfirst hhi hne hmembers⟩
          · rw [heq] at hbehind
            rw [afterChar_unfinished hescape hbehind] at h
            cases h
        · rw [afterChar_single hbehind hrange] at h
          obtain ⟨members, rest, hmembers⟩ := ih _ _ _ (by omega) h
          rw [hbehind] at hmembers
          exact ⟨_, rest, .single hchar hfirst hrange hmembers⟩
      · rw [heq] at htext
        rw [bracketFrom_unfinished hescape htext] at h
        cases h

theorem bracket_eq {p : List Char} {start : Nat} (ch : Option Char) {negated : Bool}
    (hbang : (p[start + 1]? == some '!') = negated) :
    Security.bracket p start ch flags =
      (Security.bracketFrom p flags ch (if negated then start + 2 else start + 1) true false).map
        fun found => (ch.any fun x => (found.1 != negated) && isFree flags x, found.2 + 1) := by
  unfold Security.bracket
  rw [hbang]
  rfl

theorem BracketSet.bracket {negated : Bool} (h : BracketSet flags text negated members rest)
    (p : List Char) (start : Nat) (hp : p.drop (start + 1) = text) (ch : Option Char) :
    ∃ next, p.drop next = rest ∧ Security.bracket p start ch flags =
      some (ch.any fun x => (isMember members x != negated) && isFree flags x, next) := by
  have h0 : p[start + 1]? = text[0]? := getElem?_of_drop hp 0
  have hfound : ∀ j, p.drop j = (if negated then text.tail else text) →
      Members flags true (if negated then text.tail else text) members rest →
      ∃ next, p.drop next = rest ∧
        (Security.bracketFrom p flags ch j true false).map
            (fun found => (ch.any fun x => (found.1 != negated) && isFree flags x, found.2 + 1)) =
          some (ch.any fun x => (isMember members x != negated) && isFree flags x, next) := by
    intro j hj hmembers
    obtain ⟨k, hrest, -, hk⟩ := hmembers.bracketFrom hj ch false
    refine ⟨k + 1, hrest, ?_⟩
    rw [hk]
    cases ch with
    | none => rfl
    | some x => simp
  cases h with
  | negated h =>
    rw [bracket_eq ch (by rw [h0])]
    refine hfound (start + 2) ?_ h
    show p.drop (start + 1 + 1) = _
    rw [← List.drop_drop, hp]
    rfl
  | plain hbang h =>
    have hno : (p[start + 1]? == some '!') = false := by
      rw [h0, ← List.head?_eq_getElem?]
      simpa using hbang
    rw [bracket_eq ch hno]
    exact hfound (start + 1) hp h

theorem exists_bracketSet (p : List Char) (start : Nat) {ch : Option Char}
    (h : (Security.bracket p start ch flags).isSome = true) :
    ∃ negated members rest, BracketSet flags (p.drop (start + 1)) negated members rest := by
  have h0 : p[start + 1]? = (p.drop (start + 1))[0]? := getElem?_of_drop rfl 0
  cases hbang : p[start + 1]? == some '!' with
  | true =>
    rw [bracket_eq ch hbang, Option.isSome_map] at h
    obtain ⟨members, rest, hmembers⟩ := exists_members p ch _ _ _ _ (Nat.lt_succ_self _) h
    refine ⟨true, members, rest, ?_⟩
    have hcons : p.drop (start + 1) = '!' :: p.drop (start + 2) := by
      rw [h0, beq_iff_eq, ← List.head?_eq_getElem?] at hbang
      obtain ⟨tail, htail⟩ := List.head?_eq_some_iff.mp hbang
      have hdrop : p.drop (start + 1 + 1) = tail := by
        rw [← List.drop_drop, htail]
        rfl
      rw [htail, ← hdrop]
    rw [hcons]
    exact .negated hmembers
  | false =>
    rw [bracket_eq ch hbang, Option.isSome_map] at h
    obtain ⟨members, rest, hmembers⟩ := exists_members p ch _ _ _ _ (Nat.lt_succ_self _) h
    refine ⟨false, members, rest, .plain ?_ hmembers⟩
    simpa using hbang

end Sets

/-! ### The items of an expression -/

section Items

variable (flags : FnmatchFlags)

def firstItem : List Char → Item (List Char) Char
  | [] => .done
  | '*' :: rest => .star rest
  | '?' :: rest => .one (isFree flags) rest
  | '[' :: rest =>
    match bracket ('[' :: rest) 0 none flags with
    | some found =>
      .one (fun x => (bracket ('[' :: rest) 0 (some x) flags).any Prod.fst)
        (('[' :: rest).drop found.2)
    | none => .one (· == '[') rest
  | c :: rest =>
    if c == '\\' && !flags.noescape && !rest.isEmpty then .one (rest.head? == some ·) rest.tail
    else .one (· == c) rest

inductive Takes : List Char → (Char → Bool) → List Char → Prop
  | ques {rest : List Char} : Takes ('?' :: rest) (isFree flags) rest
  | set {text rest : List Char} {negated : Bool} {members : List (Char × Char)} {f : Char → Bool}
      (hset : BracketSet flags text negated members rest)
      (hf : ∀ x, f x = ((isMember members x != negated) && isFree flags x)) :
      Takes ('[' :: text) f rest
  | bracket {rest : List Char}
      (hset : ∀ negated members behind, ¬ BracketSet flags rest negated members behind) :
      Takes ('[' :: rest) (· == '[') rest
  | escaped {c : Char} {rest : List Char} (hescape : flags.noescape = false) :
      Takes ('\\' :: c :: rest) (· == c) rest
  | literal {c : Char} {rest : List Char} (hplain : c ∉ ['*', '?', '['])
      (hescape : c = '\\' → flags.noescape = true ∨ rest = []) : Takes (c :: rest) (· == c) rest

variable {flags} {p q : List Char}

theorem firstItem_done : firstItem flags p = .done ↔ p = [] := by
  constructor
  · intro h
    unfold firstItem at h
    split at h
    · rfl
    · cases h
    · cases h
    · split at h <;> cases h
    · split at h <;> cases h
  · rintro rfl
    rfl

theorem firstItem_star : firstItem flags p = .star q ↔ p = '*' :: q := by
  constructor
  · intro h
    unfold firstItem at h
    split at h
    · cases h
    · cases h
      rfl
    · cases h
    · split at h <;> cases h
    · split at h <;> cases h
  · rintro rfl
    rfl

theorem firstItem_takes {f : Char → Bool} (h : firstItem flags p = .one f q) :
    Takes flags p f q := by
  unfold firstItem at h
  split at h
  · cases h
  · cases h
  · cases h
    exact .ques
  · next text =>
    split at h
    · next found hfound =>
      injection h with hf hq
      subst hf hq
      obtain ⟨negated, members, rest, hset⟩ :=
        exists_bracketSet ('[' :: text) 0 (by rw [hfound]; rfl)
      obtain ⟨next, hrest, hnext⟩ := hset.bracket ('[' :: text) 0 rfl none
      rw [hfound] at hnext
      cases hnext
      rw [hrest]
      refine .set hset fun x => ?_
      obtain ⟨next', -, hnext'⟩ := hset.bracket ('[' :: text) 0 rfl (some x)
      rw [hnext']
      rfl
    · next hnone =>
      injection h with hf hq
      subst hf hq
      refine .bracket fun negated members behind hset => ?_
      obtain ⟨next, -, hnext⟩ := hset.bracket ('[' :: text) 0 rfl none
      rw [hnone] at hnext
      cases hnext
  · next c rest hstar hques hbracket =>
    have hplain : c ∉ ['*', '?', '['] := by
      simp only [List.mem_cons, List.not_mem_nil, or_false, not_or]
      exact ⟨hstar, hques, hbracket⟩
    split at h
    · next hescape =>
      injection h with hf hq
      subst hf hq
      simp only [Bool.and_eq_true, beq_iff_eq, Bool.not_eq_true'] at hescape
      obtain ⟨⟨rfl, hescape⟩, hrest⟩ := hescape
      cases rest with
      | nil => cases hrest
      | cons d rest =>
        have hsame : ((d :: rest).head? == some · : Char → Bool) = (· == d) := by
          funext x
          rw [Bool.eq_iff_iff]
          simp only [List.head?_cons, beq_iff_eq, Option.some.injEq]
          exact eq_comm
        rw [hsame]
        exact .escaped hescape
    · next hescape =>
      injection h with hf hq
      subst hf hq
      refine .literal hplain fun hc => ?_
      by_contra hnot
      rw [not_or] at hnot
      exact hescape (by simp [hc, hnot.1, hnot.2])

theorem firstItem_of_takes {f : Char → Bool} (h : Takes flags p f q) :
    ∃ f', firstItem flags p = .one f' q ∧ ∀ x, f' x = f x := by
  cases h with
  | ques => exact ⟨_, rfl, fun _ => rfl⟩
  | @set text rest negated members f hset hf =>
    obtain ⟨next, hrest, hnext⟩ := hset.bracket ('[' :: text) 0 rfl none
    refine ⟨fun x => (bracket ('[' :: text) 0 (some x) flags).any Prod.fst, ?_, fun x => ?_⟩
    · simp [firstItem, hnext, hrest]
    · obtain ⟨next', -, hnext'⟩ := hset.bracket ('[' :: text) 0 rfl (some x)
      simp [hnext', hf]
  | bracket hset =>
    refine ⟨_, ?_, fun _ => rfl⟩
    have hnone : bracket ('[' :: q) 0 none flags = none := by
      by_contra hsome
      obtain ⟨negated, members, rest, h⟩ :=
        exists_bracketSet ('[' :: q) 0 (Option.isSome_iff_ne_none.mpr hsome)
      exact hset negated members rest h
    simp [firstItem, hnone]
  | @escaped c rest hescape =>
    refine ⟨(some c == some ·), ?_, fun x => ?_⟩
    · simp [firstItem, hescape]
    · rw [Bool.eq_iff_iff, beq_iff_eq, beq_iff_eq, Option.some.injEq]
      exact eq_comm
  | @literal c rest hplain hescape =>
    refine ⟨(· == c), ?_, fun x => rfl⟩
    simp only [List.mem_cons, List.not_mem_nil, or_false, not_or] at hplain
    have hno : ¬ (c == '\\' && !flags.noescape && !q.isEmpty) = true := by
      intro hcond
      simp only [Bool.and_eq_true, beq_iff_eq, Bool.not_eq_true',
        List.isEmpty_eq_false_iff] at hcond
      rcases hescape hcond.1.1 with hno | hno
      · rw [hno] at hcond
        exact absurd hcond.1.2 (by decide)
      · exact hcond.2 hno
    rw [firstItem, if_neg hno]
    · exact hplain.1
    · exact hplain.2.1
    · exact hplain.2.2

theorem spells_iff {pattern name : List Char} :
    Spells (isFree flags) (firstItem flags) pattern name ↔ Matches flags pattern name := by
  constructor
  · intro h
    induction h with
    | done hnext =>
      rw [firstItem_done.mp hnext]
      exact .nil
    | star skipped hfree hnext _ ih =>
      rw [firstItem_star.mp hnext]
      exact .star skipped hfree ih
    | @one p q f a txt hnext ha _ ih =>
      cases firstItem_takes hnext with
      | ques => exact .ques ha ih
      | set hset hf =>
        rw [hf, Bool.and_eq_true, bne_iff_ne] at ha
        exact .set hset ha.1 ha.2 ih
      | bracket hset =>
        rw [beq_iff_eq.mp ha]
        exact .bracket hset ih
      | escaped hescape =>
        rw [beq_iff_eq.mp ha]
        exact .escaped hescape ih
      | literal hplain hescape =>
        rw [beq_iff_eq.mp ha]
        exact .literal hplain hescape ih
  · have hone : ∀ {p q : List Char} {f : Char → Bool} {a : Char} {txt : List Char},
        Takes flags p f q → f a = true → Spells (isFree flags) (firstItem flags) q txt →
        Spells (isFree flags) (firstItem flags) p (a :: txt) := by
      intro p q f a txt htakes ha hrest
      obtain ⟨f', hnext, hf'⟩ := firstItem_of_takes htakes
      exact .one hnext ((hf' a).trans ha) hrest
    intro h
    induction h with
    | nil => exact .done rfl
    | star run hfree _ ih => exact .star run hfree rfl ih
    | ques hfree _ ih => exact hone .ques hfree ih
    | @set text rest name negated members x hset hx hfree _ ih =>
      refine hone (.set hset fun _ => rfl) ?_ ih
      rw [hfree, Bool.and_true, bne_iff_ne]
      exact hx
    | bracket hset _ ih => exact hone (.bracket hset) (beq_self_eq_true _) ih
    | escaped hescape _ ih => exact hone (.escaped hescape) (beq_self_eq_true _) ih
    | literal hplain hescape _ ih =>
      exact hone (.literal hplain hescape) (beq_self_eq_true _) ih

theorem guarded_firstItem : Guarded (isFree flags) (firstItem flags) := by
  intro p f q a b hnext ha hb hfree
  have hsame : ∀ c : Char, (a == c) = true → (b == c) = true → isFree flags b = false := by
    intro c hac hbc
    rw [beq_iff_eq.mp hbc, ← beq_iff_eq.mp hac]
    exact hfree
  cases firstItem_takes hnext with
  | ques =>
    rw [hfree] at ha
    cases ha
  | set hset hf =>
    rw [hf, hfree, Bool.and_false] at ha
    cases ha
  | bracket => exact hsame _ ha hb
  | escaped => exact hsame _ ha hb
  | literal => exact hsame _ ha hb

end Items

namespace MatchCursor

variable {p s : List Char} {flags : FnmatchFlags} {c c' : MatchCursor}

def view (p s : List Char) (c : MatchCursor) : Cursor (List Char) Char :=
  ⟨p.drop c.pi, s.drop c.si, c.star.map fun place => (p.drop place.1, s.drop place.2)⟩

theorem attempt_cases (p s : List Char) (flags : FnmatchFlags) (c : MatchCursor) :
    (p.drop c.pi = [] ∧ c.attempt p s flags = none) ∨
    (∃ q, p.drop c.pi = '*' :: q ∧ p.drop (c.pi + 1) = q ∧
      c.attempt p s flags = some c.passStar) ∨
    (∃ f q next, Takes flags (p.drop c.pi) f q ∧ p.drop next = q ∧
      c.attempt p s flags = if s[c.si]?.any f then some (c.advance next) else none) := by
  cases hdrop : p.drop c.pi with
  | nil =>
    have hnone : p[c.pi]? = none := List.getElem?_eq_none (List.drop_eq_nil_iff.mp hdrop)
    refine .inl ⟨rfl, ?_⟩
    simp [attempt, hnone]
  | cons b rest =>
    have hb : p[c.pi]? = some b := getElem?_of_drop hdrop 0
    have hrest : p.drop (c.pi + 1) = rest := by
      rw [← List.drop_drop, hdrop]
      rfl
    by_cases hstar : b = '*'
    · subst hstar
      refine .inr (.inl ⟨rest, rfl, hrest, ?_⟩)
      simp [attempt, hb]
    refine .inr (.inr ?_)
    by_cases hques : b = '?'
    · subst hques
      refine ⟨_, _, _, .ques, hrest, ?_⟩
      simp only [attempt, hb]
      rfl
    by_cases hbracket : b = '['
    · subst hbracket
      by_cases hset : ∃ negated members behind, BracketSet flags rest negated members behind
      · obtain ⟨negated, members, behind, hset⟩ := hset
        obtain ⟨next, hbehind, hnext⟩ := hset.bracket p c.pi hrest s[c.si]?
        refine ⟨_, _, next, .set hset fun _ => rfl, hbehind, ?_⟩
        simp only [attempt, hb, hnext]
        cases s[c.si]?.any fun x => (isMember members x != negated) && isFree flags x <;> rfl
      · have hnone : bracket p c.pi s[c.si]? flags = none := by
          by_contra hsome
          have hexists := exists_bracketSet p c.pi (Option.isSome_iff_ne_none.mpr hsome)
          rw [hrest] at hexists
          exact hset hexists
        refine ⟨_, _, _, .bracket fun negated members behind h => hset ⟨_, _, _, h⟩, hrest, ?_⟩
        simp only [attempt, hb, hnone]
        cases s[c.si]? <;> simp
    have hplain : b ∉ ['*', '?', '['] := by
      simp only [List.mem_cons, List.not_mem_nil, or_false, not_or]
      exact ⟨hstar, hques, hbracket⟩
    have hattempt : c.attempt p s flags =
        if b == '\\' && !flags.noescape && decide (c.pi + 1 < p.length) then
          if s[c.si]?.isSome && s[c.si]? == p[c.pi + 1]? then some (c.advance (c.pi + 2)) else none
        else if s[c.si]? == some b then some (c.advance (c.pi + 1))
        else none := by
      simp [attempt, hb]
    have hmore : c.pi + 1 < p.length ↔ rest ≠ [] := by
      rw [← hrest, ne_eq, List.drop_eq_nil_iff]
      omega
    by_cases hescape : b = '\\' ∧ flags.noescape = false ∧ rest ≠ []
    · obtain ⟨rfl, hescape, hne⟩ := hescape
      obtain ⟨d, behind, rfl⟩ := List.exists_cons_of_ne_nil hne
      have hd : p[c.pi + 1]? = some d := getElem?_of_drop hrest 0
      have hbehind : p.drop (c.pi + 2) = behind := by
        show p.drop (c.pi + 1 + 1) = behind
        rw [← List.drop_drop, hrest]
        rfl
      refine ⟨_, _, _, .escaped hescape, hbehind, ?_⟩
      rw [hattempt, if_pos (by simp [hescape, hmore.mpr hne]), hd]
      cases s[c.si]? <;> simp
    · refine ⟨_, _, _, .literal hplain fun hb => ?_, hrest, ?_⟩
      · by_contra hnot
        rw [not_or, Bool.not_eq_true] at hnot
        exact hescape ⟨hb, hnot.1, hnot.2⟩
      · rw [hattempt, if_neg]
        · cases s[c.si]? <;> simp
        · intro hcond
          simp only [Bool.and_eq_true, beq_iff_eq, Bool.not_eq_true', decide_eq_true_eq] at hcond
          exact hescape ⟨hcond.1.1, hcond.1.2, hmore.mp hcond.2⟩

theorem view_passStar {q : List Char} (hq : p.drop (c.pi + 1) = q) :
    view p s c.passStar = ⟨q, s.drop c.si, some (q, s.drop c.si)⟩ := by
  simp [view, passStar, hq]

theorem view_advance {q t : List Char} {a : Char} {next : Nat} (hq : p.drop next = q)
    (ht : s.drop c.si = a :: t) : view p s (c.advance next) = ⟨q, t, (view p s c).saved⟩ := by
  have htail : s.drop (c.si + 1) = t := by
    rw [← List.drop_drop, ht]
    rfl
  simp [view, advance, hq, htail]

theorem view_resume (p s : List Char) (flags : FnmatchFlags) (c : MatchCursor) :
    (c.resume s flags).map (view p s) = (view p s c).resumeFree (isFree flags) := by
  unfold resume Cursor.resumeFree view
  cases hstar : c.star with
  | none => rfl
  | some place =>
    obtain ⟨sp, ss⟩ := place
    simp only [Option.map_some]
    cases hdrop : s.drop ss with
    | nil =>
      have hnone : s[ss]? = none := List.getElem?_eq_none (List.drop_eq_nil_iff.mp hdrop)
      simp [hnone]
    | cons x t =>
      have hx : s[ss]? = some x := getElem?_of_drop hdrop 0
      have ht : s.drop (ss + 1) = t := by
        rw [← List.drop_drop, hdrop]
        rfl
      simp only [hx, isFree]
      by_cases hstop : (flags.pathname && x == '/') = true
      · simp [hstop]
      · simp [hstop, ht]

theorem exists_next {f : Char → Bool} (h : s[c.si]?.any f = true) :
    ∃ a t, s.drop c.si = a :: t ∧ f a = true := by
  cases hget : s[c.si]? with
  | none =>
    rw [hget] at h
    cases h
  | some a =>
    rw [hget, Option.any_some] at h
    obtain ⟨hlt, ha⟩ := List.getElem?_eq_some_iff.mp hget
    refine ⟨a, s.drop (c.si + 1), ?_, h⟩
    rw [List.drop_eq_getElem_cons hlt, ha]

theorem mismatch (hsi : c.si ≤ s.length) (hattempt : c.attempt p s flags = none)
    (hend : ¬ (decide (p.length ≤ c.pi) && c.si == s.length) = true) :
    ¬ Spells (isFree flags) (firstItem flags) (view p s c).pattern (view p s c).text := by
  show ¬ Spells (isFree flags) (firstItem flags) (p.drop c.pi) (s.drop c.si)
  rcases attempt_cases p s flags c with
    ⟨hnil, -⟩ | ⟨q, -, -, hpass⟩ | ⟨f, q, next, htakes, hq, hone⟩
  · rw [hnil, spells_done rfl]
    intro htext
    rw [List.drop_eq_nil_iff] at hnil htext
    exact hend (by simp [hnil, Nat.le_antisymm hsi htext])
  · rw [hpass] at hattempt
    cases hattempt
  · obtain ⟨f', hnext, hf'⟩ := firstItem_of_takes htakes
    rw [spells_one hnext]
    rintro ⟨a, t, htext, ha, -⟩
    have hget : s[c.si]? = some a := getElem?_of_drop htext 0
    rw [hone, hget, Option.any_some, ← hf' a, if_pos ha] at hattempt
    cases hattempt

theorem resume_si (h : c.resume s flags = some c') : c'.si ≤ s.length := by
  unfold resume at h
  split at h
  · cases h
  · next sp ss hstar =>
    split at h
    · cases h
    · next x hx =>
      split at h
      · cases h
      · cases h
        exact (List.getElem?_eq_some_iff.mp hx).1

end MatchCursor

open MatchCursor in
theorem fnmatchFrom_iff {p s : List Char} {flags : FnmatchFlags} {c : MatchCursor}
    (hsi : c.si ≤ s.length) (htracked : (view p s c).Tracked (firstItem flags)) :
    fnmatchFrom p s flags c = true ↔
      (view p s c).ViableFree (isFree flags) (firstItem flags) := by
  fun_induction fnmatchFrom p s flags c with
  | case1 c c' hattempt ih =>
    rcases attempt_cases p s flags c with ⟨-, hnone⟩ | ⟨q, hstar, hq, hpass⟩ |
      ⟨f, q, next, htakes, hq, hone⟩
    · rw [hnone] at hattempt
      cases hattempt
    · rw [hpass] at hattempt
      cases hattempt
      have hview := view_passStar (s := s) hq
      have hnext : firstItem flags (view p s c).pattern = .star q := firstItem_star.mpr hstar
      rw [hview] at ih
      rw [Cursor.viableFree_at_star guarded_firstItem htracked hnext]
      refine ih hsi fun q' s' hs => ?_
      cases hs
      exact .refl
    · rw [hone] at hattempt
      split at hattempt
      · next hany =>
        cases hattempt
        obtain ⟨f', hnext, hf'⟩ := firstItem_of_takes htakes
        obtain ⟨a, t, htext, ha⟩ := exists_next hany
        have hview := view_advance hq htext
        obtain ⟨hviable, htracked'⟩ :=
          Cursor.viableFree_one htracked hnext htext ((hf' a).trans ha)
        rw [hview] at ih
        rw [hviable]
        refine ih ?_ htracked'
        have hlt : c.si < s.length := by
          by_contra hge
          rw [List.drop_of_length_le (by omega)] at htext
          cases htext
        exact hlt
      · cases hattempt
  | case2 c hattempt hdone =>
    simp only [Bool.and_eq_true, decide_eq_true_eq, beq_iff_eq] at hdone
    have hpattern : p.drop c.pi = [] := List.drop_of_length_le hdone.1
    have htext : s.drop c.si = [] := List.drop_of_length_le (by omega)
    refine iff_of_true rfl (.inl ?_)
    show Spells _ _ (p.drop c.pi) (s.drop c.si)
    rw [hpattern, htext]
    exact .done rfl
  | case3 c hattempt hdone c' hresume ih =>
    obtain ⟨hviable, htracked'⟩ :=
      Cursor.resumeFree_viable (mismatch hsi hattempt hdone)
    have hview := view_resume p s flags c
    rw [hresume, Option.map_some] at hview
    rw [hviable, ih (resume_si hresume) (htracked' _ hview.symm)]
    constructor
    · intro h
      exact ⟨_, hview.symm, h⟩
    · rintro ⟨c'', hc'', h⟩
      rw [← hview] at hc''
      cases hc''
      exact h
  | case4 c hattempt hdone hresume =>
    obtain ⟨hviable, -⟩ := Cursor.resumeFree_viable (mismatch hsi hattempt hdone)
    have hview := view_resume p s flags c
    rw [hresume, Option.map_none] at hview
    refine iff_of_false Bool.false_ne_true ?_
    rw [hviable, ← hview]
    rintro ⟨c', hc', -⟩
    cases hc'

theorem fnmatch_spells (pattern name : String) (flags : FnmatchFlags) :
    fnmatch pattern name flags = true ↔
      Spells (isFree flags) (firstItem flags) pattern.toList name.toList := by
  have htracked : (MatchCursor.view pattern.toList name.toList .start).Tracked
      (firstItem flags) := by
    intro q s h
    cases h
  rw [fnmatch, fnmatchFrom_iff (Nat.zero_le _) htracked]
  exact Cursor.viableFree_start _ _

theorem topicMatch_star (name : String) : topicMatch "*" name = true := by
  refine (fnmatch_spells "*" name {}).mpr (spells_iff.mpr ?_)
  have hrun : Matches {} ['*'] (name.toList ++ []) := .star _ (fun x _ => rfl) .nil
  rw [List.append_nil] at hrun
  exact hrun

/-- Topic matching is `fnmatch`: for every expression, every name and every setting of the flags
the matcher answers whether the name is one the expression stands for. -/
theorem fnmatch_iff (pattern name : String) (flags : FnmatchFlags) :
    fnmatch pattern name flags = true ↔ Matches flags pattern.toList name.toList :=
  (fnmatch_spells pattern name flags).trans spells_iff

end ZeroDds.Security
