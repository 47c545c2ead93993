/-
The scanner reads the lexical grammar.
-/
import ZeroDds.SqlFilter.Grammar
import ZeroDds.SqlFilter.Lexemes

namespace ZeroDds.SqlFilter

variable {F : Type}

/-- The scanner takes no subscript right behind another, and keys of any number of lines. -/
def scannerRules : FieldRules := ⟨False, True⟩

theorem escape_cons (c : Char) (text : List Char) :
    escape (c :: text) = (if c = '\'' then ['\'', '\''] else [c]) ++ escape text := rfl

variable {rest input text : List Char} {c : Char}

theorem not_quote (h : ∀ tail, rest = '\'' :: tail → False) : StopsBefore (· == '\'') rest := by
  cases rest with
  | nil => exact stopsBefore_nil
  | cons c rest =>
    rw [stopsBefore_cons]
    by_contra hc
    rw [Bool.not_eq_false, beq_iff_eq] at hc
    exact h rest (by rw [hc])

theorem scanString_end (h : StopsBefore (· == '\'') rest) :
    scanString ('\'' :: rest) = .ok ([], rest) := by
  rw [scanString]
  rintro tail rfl
  exact absurd (stopsBefore_cons.mp h) (by decide)

theorem scanString_char (hquote : c ≠ '\'') (rest : List Char) :
    scanString (c :: rest) = if c = '\n' ∨ c = '\r' then .error (.newLineInString (c :: rest))
      else (scanString rest).map (consText c) := by
  rw [scanString]
  · rintro _ rfl
    exact absurd rfl hquote
  · rintro rfl
    exact absurd rfl hquote

theorem scanString_ok :
    scanString input = .ok (text, rest) ↔
      input = escape text ++ '\'' :: rest ∧ ('\n' ∉ text ∧ '\r' ∉ text) ∧
        StopsBefore (· == '\'') rest := by
  constructor
  · intro h
    induction input using scanString.induct generalizing text with
    | case1 => cases h
    | case2 input ih =>
      obtain ⟨read, hread, heq⟩ := map_ok.mp h
      cases heq
      obtain ⟨hinput, hlines, hnext⟩ := ih hread
      refine ⟨by rw [hinput]; rfl, ?_, hnext⟩
      simpa [consText] using hlines
    | case3 input hquote =>
      rw [scanString_end (not_quote hquote)] at h
      cases h
      exact ⟨rfl, by simp, not_quote hquote⟩
    | case4 c input _ hquote hline =>
      rw [scanString_char (fun hc => hquote hc), if_pos hline] at h
      cases h
    | case5 c input _ hquote hline ih =>
      have hne : c ≠ '\'' := fun hc => hquote hc
      rw [scanString_char hne, if_neg hline] at h
      obtain ⟨read, hread, heq⟩ := map_ok.mp h
      cases heq
      obtain ⟨hinput, hlines, hnext⟩ := ih hread
      refine ⟨?_, ?_, hnext⟩
      · rw [hinput]
        simp only [escape_cons, if_neg hne]
        rfl
      · rw [not_or] at hline
        simp only [List.mem_cons, not_or]
        exact ⟨⟨Ne.symm hline.1, hlines.1⟩, ⟨Ne.symm hline.2, hlines.2⟩⟩
  · rintro ⟨rfl, hlines, hnext⟩
    induction text with
    | nil => exact scanString_end hnext
    | cons c text ih =>
      simp only [List.mem_cons, not_or] at hlines
      have hread := ih ⟨hlines.1.2, hlines.2.2⟩
      by_cases hquote : c = '\''
      · subst hquote
        show scanString ('\'' :: '\'' :: (escape text ++ '\'' :: rest)) = _
        rw [scanString, hread]
        rfl
      · rw [escape_cons, if_neg hquote, List.append_assoc, List.singleton_append,
          scanString_char hquote, if_neg, hread]
        · rfl
        · rw [not_or]
          exact ⟨Ne.symm hlines.1.1, Ne.symm hlines.2.1⟩

theorem scanKey_end (h : StopsBefore (· == '\'') rest) :
    scanKey ('\'' :: rest) = .ok (['\''], rest) := by
  rw [scanKey]
  rintro tail rfl
  exact absurd (stopsBefore_cons.mp h) (by decide)

theorem scanKey_char (hquote : c ≠ '\'') (rest : List Char) :
    scanKey (c :: rest) = (scanKey rest).map (consText c) := by
  rw [scanKey]
  · rintro _ rfl
    exact absurd rfl hquote
  · rintro rfl
    exact absurd rfl hquote

theorem scanKey_ok {read : List Char} :
    scanKey input = .ok (read, rest) ↔ ∃ key, read = escape key ++ ['\''] ∧
      input = escape key ++ '\'' :: rest ∧ StopsBefore (· == '\'') rest := by
  constructor
  · intro h
    induction input using scanKey.induct generalizing read with
    | case1 => cases h
    | case2 input ih =>
      obtain ⟨tail, htail, heq⟩ := map_ok.mp h
      cases heq
      obtain ⟨key, hread, hinput, hnext⟩ := ih htail
      refine ⟨'\'' :: key, ?_, by rw [hinput]; rfl, hnext⟩
      simp only [consText, hread]
      rfl
    | case3 input hquote =>
      rw [scanKey_end (not_quote hquote)] at h
      cases h
      exact ⟨[], rfl, rfl, not_quote hquote⟩
    | case4 c input _ hquote ih =>
      have hne : c ≠ '\'' := fun hc => hquote hc
      rw [scanKey_char hne] at h
      obtain ⟨tail, htail, heq⟩ := map_ok.mp h
      cases heq
      obtain ⟨key, hread, hinput, hnext⟩ := ih htail
      refine ⟨c :: key, ?_, ?_, hnext⟩
      · simp only [hread, escape_cons, if_neg hne]
        rfl
      · rw [hinput, escape_cons, if_neg hne]
        rfl
  · rintro ⟨key, rfl, rfl, hnext⟩
    induction key with
    | nil => exact scanKey_end hnext
    | cons c key ih =>
      by_cases hquote : c = '\''
      · subst hquote
        show scanKey ('\'' :: '\'' :: (escape key ++ '\'' :: rest)) = _
        rw [scanKey, ih]
        rfl
      · rw [escape_cons, if_neg hquote, List.append_assoc, List.singleton_append,
          scanKey_char hquote, ih]
        rfl

/-! ### Symbols, parameters and words -/

theorem scanSymbol_ok {tok : Token F} :
    scanSymbol input = some (tok, rest) ↔ ∃ text stops, (text, tok, stops) ∈ symbols ∧
      StopsBefore (stops.contains ·) rest ∧ input = text ++ rest := by
  constructor
  · intro h
    unfold scanSymbol at h
    split at h <;> cases h
    · exact ⟨['('], [], by simp [symbols], fun _ _ => rfl, rfl⟩
    · exact ⟨[')'], [], by simp [symbols], fun _ _ => rfl, rfl⟩
    · exact ⟨['='], [], by simp [symbols], fun _ _ => rfl, rfl⟩
    · exact ⟨['!', '='], [], by simp [symbols], fun _ _ => rfl, rfl⟩
    · exact ⟨['<', '>'], [], by simp [symbols], fun _ _ => rfl, rfl⟩
    · exact ⟨['<', '='], [], by simp [symbols], fun _ _ => rfl, rfl⟩
    · next hgt heq =>
      refine ⟨['<'], ['>', '='], by simp [symbols], ?_, rfl⟩
      cases rest with
      | nil => exact stopsBefore_nil
      | cons c rest =>
        rw [stopsBefore_cons]
        have h1 : c ≠ '>' := by rintro rfl; exact hgt _ rfl
        have h2 : c ≠ '=' := by rintro rfl; exact heq _ rfl
        simp [h1, h2]
    · exact ⟨['>', '='], [], by simp [symbols], fun _ _ => rfl, rfl⟩
    · next heq =>
      refine ⟨['>'], ['='], by simp [symbols], ?_, rfl⟩
      cases rest with
      | nil => exact stopsBefore_nil
      | cons c rest =>
        rw [stopsBefore_cons]
        have h2 : c ≠ '=' := by rintro rfl; exact heq _ rfl
        simp [h2]
  · rintro ⟨text, stops, hmem, hnext, rfl⟩
    simp only [symbols, List.mem_cons, List.not_mem_nil, or_false, Prod.mk.injEq] at hmem
    rcases hmem with ⟨rfl, rfl, rfl⟩ | ⟨rfl, rfl, rfl⟩ | ⟨rfl, rfl, rfl⟩ | ⟨rfl, rfl, rfl⟩ |
      ⟨rfl, rfl, rfl⟩ | ⟨rfl, rfl, rfl⟩ | ⟨rfl, rfl, rfl⟩ | ⟨rfl, rfl, rfl⟩ | ⟨rfl, rfl, rfl⟩
    · rfl
    · rfl
    · rfl
    · rfl
    · rfl
    · rfl
    · cases rest with
      | nil => rfl
      | cons c rest =>
        have hc := stopsBefore_cons.mp hnext
        show scanSymbol ('<' :: c :: rest) = _
        rw [scanSymbol]
        · rintro tail heq
          cases heq
          exact absurd hc (by decide)
        · rintro tail heq
          cases heq
          exact absurd hc (by decide)
    · rfl
    · cases rest with
      | nil => rfl
      | cons c rest =>
        have hc := stopsBefore_cons.mp hnext
        show scanSymbol ('>' :: c :: rest) = _
        rw [scanSymbol]
        rintro tail heq
        cases heq
        exact absurd hc (by decide)

theorem parseU32_ok {digits : List Char} {n : Nat} :
    parseU32 digits = some n ↔ decimal digits < 2 ^ 32 ∧ n = decimal digits := by
  unfold parseU32
  split <;> simp_all [eq_comm]

theorem scanParam_ok {n : Nat} :
    scanParam input = .ok (n, rest) ↔ ∃ digits, (∀ c ∈ digits, c.isDigit = true) ∧ digits ≠ [] ∧
      decimal digits < 2 ^ 32 ∧ StopsBefore Char.isDigit rest ∧ n = decimal digits ∧
      input = digits ++ rest := by
  constructor
  · intro h
    unfold scanParam at h
    simp only at h
    split at h
    · cases h
    · next hone =>
      split at h
      · cases h
      · next index hindex =>
        cases h
        obtain ⟨hrange, rfl⟩ := parseU32_ok.mp hindex
        obtain ⟨hinput, hrun, hrest⟩ := span_iff.mp ⟨rfl, rfl⟩
        exact ⟨_, hrun, hone, hrange, hrest, rfl, hinput⟩
  · rintro ⟨digits, hdigits, hone, hrange, hnext, rfl, rfl⟩
    unfold scanParam
    simp only [takeWhile_span hdigits hnext, dropWhile_span hdigits hnext, if_neg hone]
    rw [parseU32_ok.mpr ⟨hrange, rfl⟩]

theorem keyword_iff {tok : Token F} : keyword text = tok ↔ Word text tok := by
  constructor
  · rintro rfl
    unfold keyword
    simp only
    split_ifs with h1 h2 h3 h4 h5 h6 h7 h8
    · exact .keyword (by simp [keywords]) h1
    · exact .keyword (by simp [keywords]) h2
    · exact .keyword (by simp [keywords]) h3
    · exact .keyword (by simp [keywords]) h4
    · exact .keyword (by simp [keywords]) h5
    · exact .keyword (by simp [keywords]) h6
    · exact .keyword (by simp [keywords]) h7
    · rw [h8]
      exact .null
    · exact .name (by simp [keywords, h1, h2, h3, h4, h5, h6, h7]) h8
  · intro h
    cases h with
    | keyword hmem htext =>
      subst htext
      simp only [keywords, List.mem_cons, List.not_mem_nil, or_false, Prod.mk.injEq] at hmem
      unfold keyword
      rcases hmem with ⟨h, rfl⟩ | ⟨h, rfl⟩ | ⟨h, rfl⟩ | ⟨h, rfl⟩ | ⟨h, rfl⟩
          | ⟨h, rfl⟩ | ⟨h, rfl⟩ <;>
        simp [h]
    | null => rfl
    | name hword hnull =>
      simp only [keywords, List.map_cons, List.map_nil, List.mem_cons, List.not_mem_nil, or_false,
        not_or] at hword
      obtain ⟨h1, h2, h3, h4, h5, h6, h7⟩ := hword
      simp only [keyword, if_neg h1, if_neg h2, if_neg h3, if_neg h4, if_neg h5, if_neg h6,
        if_neg h7, if_neg hnull]

/-! ### Field references -/

theorem isBlank_cases (h : isBlank c = true) :
    c = ' ' ∨ c = '\t' ∨ c = '\n' ∨ c = '\x0C' ∨ c = '\r' := by
  simpa [isBlank, or_assoc] using h

theorem stopsBefore_close {p : Char → Bool} (hblank : ∀ c, isBlank c = true → p c = false)
    (hclose : p ']' = false) {after : List Char} (hafter : ∀ c ∈ after, isBlank c = true)
    (rest : List Char) : StopsBefore p (after ++ ']' :: rest) := by
  cases after with
  | nil => exact stopsBefore_cons.mpr hclose
  | cons c after => exact stopsBefore_cons.mpr (hblank c (hafter c List.mem_cons_self))

theorem not_digit_of_blank (c : Char) (h : isBlank c = true) : c.isDigit = false := by
  rcases isBlank_cases h with rfl | rfl | rfl | rfl | rfl <;> rfl

theorem not_quote_of_blank (c : Char) (h : isBlank c = true) : (c == '\'') = false := by
  rcases isBlank_cases h with rfl | rfl | rfl | rfl | rfl <;> rfl

theorem not_blank_of_digit (h : c.isDigit = true) : isBlank c = false := by
  by_contra hblank
  rw [Bool.not_eq_false] at hblank
  rw [not_digit_of_blank c hblank] at h
  cases h

theorem closeSubscript_ok {read plain : List Char} :
    closeSubscript (text, read) = .ok (plain, rest) ↔ ∃ after, (∀ c ∈ after, isBlank c = true) ∧
      read = after ++ ']' :: rest ∧ plain = '[' :: (text ++ [']']) := by
  constructor
  · intro h
    unfold closeSubscript at h
    split at h
    · next left hleft =>
      cases h
      obtain ⟨hread, hrun, _⟩ := span_iff.mp ⟨rfl, hleft⟩
      exact ⟨_, hrun, hread, rfl⟩
    · cases h
  · rintro ⟨after, hafter, rfl, rfl⟩
    have hstop : StopsBefore isBlank (']' :: rest) := stopsBefore_cons.mpr rfl
    unfold closeSubscript
    simp only [dropWhile_span hafter hstop]
    rfl

theorem scanSubscript_ok :
    scanSubscript input = .ok (text, rest) ↔ ∃ before, (∀ c ∈ before, isBlank c = true) ∧
      ((∃ digits, (∀ c ∈ digits, c.isDigit = true) ∧ digits ≠ [] ∧ decimal digits < 2 ^ 32 ∧
          StopsBefore Char.isDigit rest ∧ text = Nat.toDigits 10 (decimal digits) ∧
          input = before ++ (digits ++ rest)) ∨
        ∃ key, StopsBefore (· == '\'') rest ∧ text = '\'' :: (escape key ++ ['\'']) ∧
          input = before ++ '\'' :: (escape key ++ '\'' :: rest)) := by
  constructor
  · intro h
    unfold scanSubscript at h
    split at h
    · cases h
    · next c behind hleft =>
      obtain ⟨before, hbefore⟩ : ∃ before, input.takeWhile isBlank = before := ⟨_, rfl⟩
      obtain ⟨hinput, hblank, _⟩ := span_iff.mp ⟨hbefore, hleft⟩
      refine ⟨before, hblank, ?_⟩
      rw [hinput]
      split at h
      · next hdigit =>
        left
        simp only at h
        split at h
        · cases h
        · next index hindex =>
          cases h
          obtain ⟨hrange, rfl⟩ := parseU32_ok.mp hindex
          obtain ⟨hbehind, hrun, hrest⟩ :=
            span_iff.mp (⟨rfl, rfl⟩ : (c :: behind).takeWhile Char.isDigit = _ ∧ _ = _)
          refine ⟨_, hrun, ?_, hrange, hrest, rfl, by rw [← hbehind]⟩
          rw [List.takeWhile_cons_of_pos hdigit]
          simp
      · split at h
        · next hquote =>
          right
          subst hquote
          obtain ⟨⟨read, rest'⟩, hread, heq⟩ := map_ok.mp h
          cases heq
          obtain ⟨key, rfl, rfl, hnext⟩ := scanKey_ok.mp hread
          exact ⟨key, hnext, rfl, rfl⟩
        · cases h
  · rintro ⟨before, hbefore, ⟨digits, hdigits, hone, hrange, hnext, rfl, rfl⟩ |
      ⟨key, hnext, rfl, rfl⟩⟩
    · cases digits with
      | nil => exact absurd rfl hone
      | cons d digits =>
        have hd := hdigits d List.mem_cons_self
        have hstop : StopsBefore isBlank ((d :: digits) ++ rest) :=
          stopsBefore_cons.mpr (not_blank_of_digit hd)
        unfold scanSubscript
        rw [dropWhile_span hbefore hstop]
        simp only [List.cons_append, if_pos hd]
        rw [← List.cons_append, takeWhile_span hdigits hnext, dropWhile_span hdigits hnext,
          parseU32_ok.mpr ⟨hrange, rfl⟩]
    · have hstop : StopsBefore isBlank ('\'' :: (escape key ++ '\'' :: rest)) :=
        stopsBefore_cons.mpr rfl
      unfold scanSubscript
      rw [dropWhile_span hbefore hstop]
      show (scanKey (escape key ++ '\'' :: rest)).map _ = _
      rw [scanKey_ok.mpr ⟨key, rfl, rfl, hnext⟩]
      rfl

theorem subscript_ok {plain : List Char} :
    (scanSubscript input).bind closeSubscript = .ok (plain, rest) ↔
      ∃ text, Subscript scannerRules ('[' :: text) plain ∧ input = text ++ rest := by
  constructor
  · intro h
    obtain ⟨⟨text, left⟩, hscan, hclose⟩ := bind_ok.mp h
    obtain ⟨after, hafter, rfl, rfl⟩ := closeSubscript_ok.mp hclose
    obtain ⟨before, hbefore, ⟨digits, hdigits, hone, hrange, _, rfl, rfl⟩ |
      ⟨key, _, rfl, rfl⟩⟩ := scanSubscript_ok.mp hscan
    · exact ⟨_, .index hbefore hafter hdigits hone hrange, by simp⟩
    · refine ⟨before ++ ('\'' :: (escape key ++ '\'' :: (after ++ [']']))), ?_, by simp⟩
      have hsub := @Subscript.key scannerRules before key after hbefore hafter fun _ => trivial
      simpa using hsub
  · rintro ⟨text, hsub, rfl⟩
    rw [bind_ok]
    cases hsub with
    | @index before digits after hbefore hafter hdigits hone hrange =>
      refine ⟨_, scanSubscript_ok.mpr ⟨before, hbefore, .inl ⟨digits, hdigits, hone, hrange,
        stopsBefore_close not_digit_of_blank rfl hafter rest, rfl, ?_⟩⟩,
        closeSubscript_ok.mpr ⟨after, hafter, rfl, rfl⟩⟩
      simp
    | @key before key after hbefore hafter hlines =>
      refine ⟨_, scanSubscript_ok.mpr ⟨before, hbefore, .inr ⟨key,
        stopsBefore_close not_quote_of_blank rfl hafter rest, rfl, ?_⟩⟩,
        closeSubscript_ok.mpr ⟨after, hafter, rfl, ?_⟩⟩
      · simp
      · simp

abbrev EndsField (rest : List Char) : Prop := StopsBefore (fun c => isNameChar c || c == '[') rest

theorem EndsField.name (h : EndsField rest) : StopsBefore isNameChar rest :=
  fun c hc => (Bool.or_eq_false_iff.mp (h c hc)).1

section Field

variable {fuel : Nat} {subscripted : Bool} {text run rest behind : List Char}

def FollowsSubscript (subscripted : Bool) (run : List Char) : Prop :=
  subscripted = true → run = [] ∨ run.head? = some '.'

theorem not_expectedDot (h : FollowsSubscript subscripted run) :
    ¬ (subscripted = true ∧ run ≠ [] ∧ run.head? ≠ some '.') := by
  rintro ⟨hsub, hne, hdot⟩
  rcases h hsub with hnil | hhead
  · exact hne hnil
  · exact hdot hhead

theorem scanField_stop (hrun : ∀ c ∈ run, isNameChar c = true)
    (hdot : FollowsSubscript subscripted run) (hrest : EndsField rest) :
    scanField (fuel + 1) subscripted text (run ++ rest) = .ok (text ++ run, rest, subscripted) := by
  unfold scanField
  simp only [takeWhile_span hrun hrest.name, dropWhile_span hrun hrest.name,
    if_neg (not_expectedDot hdot)]
  split
  · exact absurd (stopsBefore_cons.mp hrest) (by decide)
  · rfl

theorem Subscript.exists_cons {rules : FieldRules} {plain : List Char}
    (h : Subscript rules text plain) : ∃ inner, text = '[' :: inner := by
  cases h with
  | index _ _ _ _ _ => exact ⟨_, rfl⟩
  | key _ _ _ => exact ⟨_, rfl⟩

theorem scanField_subscript (hrun : ∀ c ∈ run, isNameChar c = true) (hone : run ≠ [])
    (hdot : FollowsSubscript subscripted run) {written plain : List Char}
    (hsub : Subscript scannerRules written plain) :
    scanField (fuel + 1) subscripted text (run ++ (written ++ behind)) =
      scanField fuel true (text ++ run ++ plain) behind := by
  obtain ⟨inner, rfl⟩ := hsub.exists_cons
  have hstop : StopsBefore isNameChar ('[' :: inner ++ behind) := stopsBefore_cons.mpr rfl
  have hscan : (scanSubscript (inner ++ behind)).bind closeSubscript = .ok (plain, behind) :=
    subscript_ok.mpr ⟨inner, hsub, rfl⟩
  obtain ⟨read, hread, hclose⟩ := bind_ok.mp hscan
  conv_lhs => unfold scanField
  simp only [takeWhile_span hrun hstop, dropWhile_span hrun hstop,
    if_neg (not_expectedDot hdot)]
  show (if run = [] then _ else (scanSubscript (inner ++ behind)).bind _) = _
  rw [if_neg hone, hread]
  show (closeSubscript read).bind _ = _
  rw [hclose]
  rfl

theorem scanField_cases {out : List Char × List Char × Bool}
    (h : scanField (fuel + 1) subscripted text input = .ok out) :
    ∃ run, (∀ c ∈ run, isNameChar c = true) ∧ FollowsSubscript subscripted run ∧
      ((∃ rest, EndsField rest ∧ input = run ++ rest ∧ out = (text ++ run, rest, subscripted)) ∨
        ∃ written plain behind, run ≠ [] ∧ Subscript scannerRules written plain ∧
          input = run ++ (written ++ behind) ∧
          scanField fuel true (text ++ run ++ plain) behind = .ok out) := by
  obtain ⟨run, htake⟩ : ∃ run, input.takeWhile isNameChar = run := ⟨_, rfl⟩
  obtain ⟨left, hdrop⟩ : ∃ left, input.dropWhile isNameChar = left := ⟨_, rfl⟩
  obtain ⟨hinput, hrun, hstop⟩ := span_iff.mp ⟨htake, hdrop⟩
  unfold scanField at h
  simp only [htake, hdrop] at h
  split at h
  · cases h
  · next hdot =>
    refine ⟨run, hrun, ?_, ?_⟩
    · intro hsub
      by_contra hneither
      rw [not_or] at hneither
      exact hdot ⟨hsub, hneither⟩
    · split at h
      · next inner =>
        split at h
        · cases h
        · next hone =>
          right
          obtain ⟨read, hread, hclosed⟩ := bind_ok.mp h
          obtain ⟨⟨plain, behind⟩, hclose, hrest⟩ := bind_ok.mp hclosed
          obtain ⟨written, hsub, rfl⟩ := subscript_ok.mp (bind_ok.mpr ⟨read, hread, hclose⟩)
          exact ⟨'[' :: written, plain, behind, hone, hsub, hinput, hrest⟩
      · next hbracket =>
        left
        cases h
        refine ⟨left, ?_, hinput, rfl⟩
        intro c hc
        rw [Bool.or_eq_false_iff]
        refine ⟨hstop c hc, ?_⟩
        cases left with
        | nil => cases hc
        | cons d left =>
          cases hc
          by_contra hd
          rw [Bool.not_eq_false, beq_iff_eq] at hd
          exact hbracket left (by rw [hd])

theorem scanField_tail {out : List Char} {sub : Bool} (hfuel : input.length ≤ fuel) :
    scanField fuel true text input = .ok (out, rest, sub) ↔ sub = true ∧ EndsField rest ∧
      ∃ tail plain, FieldTail scannerRules tail plain ∧ input = tail ++ rest ∧
        out = text ++ plain := by
  constructor
  · intro h
    induction fuel generalizing text input with
    | zero =>
      obtain rfl := List.eq_nil_of_length_eq_zero (Nat.le_zero.mp hfuel)
      cases h
      exact ⟨rfl, stopsBefore_nil, [], [], .nil, rfl, (List.append_nil _).symm⟩
    | succ fuel ih =>
      obtain ⟨run, hrun, hdot, ⟨left, hleft, rfl, heq⟩ |
        ⟨written, plain, behind, hone, hsub, rfl, hscan⟩⟩ := scanField_cases h
      · cases heq
        refine ⟨rfl, hleft, run, run, ?_, rfl, rfl⟩
        cases run with
        | nil => exact .nil
        | cons c run =>
          obtain rfl : c = '.' := by
            rcases hdot rfl with hnil | hhead
            · cases hnil
            · exact Option.some.inj hhead
          exact .names fun d hd => hrun d (List.mem_cons_of_mem _ hd)
      · obtain ⟨inner, rfl⟩ := hsub.exists_cons
        have hshort : behind.length ≤ fuel := by
          simp only [List.length_append, List.length_cons] at hfuel
          omega
        obtain ⟨rfl, hrest, tail, plainTail, htail, rfl, rfl⟩ := ih hshort hscan
        refine ⟨rfl, hrest, run ++ ('[' :: inner ++ tail), run ++ (plain ++ plainTail), ?_,
          by simp, by simp⟩
        cases run with
        | nil => exact absurd rfl hone
        | cons c run =>
          obtain rfl : c = '.' := by
            rcases hdot rfl with hnil | hhead
            · cases hnil
            · exact Option.some.inj hhead
          exact .subscript (fun d hd => hrun d (List.mem_cons_of_mem _ hd)) hsub htail
  · rintro ⟨rfl, hrest, tail, plain, htail, rfl, rfl⟩
    induction htail generalizing fuel text with
    | nil =>
      cases fuel with
      | zero =>
        simp [scanField]
      | succ fuel =>
        exact @scanField_stop fuel true text [] rest (by simp) (fun _ => .inl rfl) hrest
    | @names run hrun =>
      cases fuel with
      | zero => cases hfuel
      | succ fuel =>
        refine @scanField_stop fuel true text ('.' :: run) rest ?_ (fun _ => .inr rfl) hrest
        intro c hc
        rcases List.mem_cons.mp hc with rfl | hc
        · rfl
        · exact hrun c hc
    | @subscript run written plain tail plainTail hrun hsub _ ih =>
      cases fuel with
      | zero => cases hfuel
      | succ fuel =>
        have hrun' : ∀ c ∈ '.' :: run, isNameChar c = true := by
          intro c hc
          rcases List.mem_cons.mp hc with rfl | hc
          · rfl
          · exact hrun c hc
        have hstep := @scanField_subscript fuel true text ('.' :: run) (tail ++ rest) hrun'
          (by simp) (fun _ => .inr rfl) _ _ hsub
        have hinput : '.' :: (run ++ (written ++ tail)) ++ rest =
            '.' :: run ++ (written ++ (tail ++ rest)) := by simp
        rw [hinput, hstep, ih]
        · simp
        · simp only [List.length_append, List.length_cons] at hfuel ⊢
          omega
    | row hrows => exact hrows.elim

end Field

end ZeroDds.SqlFilter
