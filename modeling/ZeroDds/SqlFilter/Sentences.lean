/-
The filter parser accepts the sentences of its grammar.
-/
import ZeroDds.SqlFilter.Depth
import ZeroDds.SqlFilter.Numbers

namespace ZeroDds.SqlFilter

variable {F : Type} {c : Char}

theorem scanSymbol_none (h : c ∉ ['(', ')', '=', '!', '<', '>']) (rest : List Char) :
    scanSymbol (F := F) (c :: rest) = none := by
  simp only [List.mem_cons, List.not_mem_nil, or_false, not_or] at h
  obtain ⟨h1, h2, h3, h4, h5, h6⟩ := h
  unfold scanSymbol
  split
  · next heq => exact absurd (List.cons.inj heq).1 h1
  · next heq => exact absurd (List.cons.inj heq).1 h2
  · next heq => exact absurd (List.cons.inj heq).1 h3
  · next heq => exact absurd (List.cons.inj heq).1 h4
  · next heq => exact absurd (List.cons.inj heq).1 h5
  · next heq => exact absurd (List.cons.inj heq).1 h5
  · next heq => exact absurd (List.cons.inj heq).1 h5
  · next heq => exact absurd (List.cons.inj heq).1 h6
  · next heq => exact absurd (List.cons.inj heq).1 h6
  · rfl

variable [Doubles F] {input rest : List Char} {tok : Token F}

theorem lexToken_symbol {read : Token F × List Char} (h : scanSymbol input = some read) :
    lexToken input = .ok read := by
  unfold lexToken
  rw [h]

theorem lexToken_plain (hsymbol : c ∉ ['(', ')', '=', '!', '<', '>', '%', '\''])
    (rest : List Char) :
    lexToken (F := F) (c :: rest) =
      if startsNumber (c :: rest) then scanNumber (c :: rest)
      else if startsName c then
        (scanField (c :: rest).length false [] (c :: rest)).map fun read =>
          (if read.2.2 then .ident read.1 else keyword read.1, read.2.1)
      else .error (.unexpectedCharacter (c :: rest)) := by
  have hnone : scanSymbol (F := F) (c :: rest) = none :=
    scanSymbol_none (fun h => hsymbol (by
      simp only [List.mem_cons, List.not_mem_nil, or_false] at h ⊢
      tauto)) rest
  unfold lexToken
  rw [hnone]
  simp only
  split
  · next heq =>
    rw [(List.cons.inj heq).1] at hsymbol
    exact absurd (by simp) hsymbol
  · next heq =>
    rw [(List.cons.inj heq).1] at hsymbol
    exact absurd (by simp) hsymbol
  · rfl

variable {left text : List Char} {first : Char} {toks : List (Token F)}

theorem lexToken_number {sign : List Char} {negative : Bool} {d : Char}
    (hsign : Sign sign negative) (hd : d.isDigit = true) :
    lexToken (F := F) (sign ++ d :: left) = scanNumber (sign ++ d :: left) := by
  have hstart := startsNumber_sign hsign hd left
  cases hsign with
  | none =>
    rw [List.nil_append] at hstart ⊢
    rw [lexToken_plain, if_pos hstart]
    intro hmem
    simp only [List.mem_cons, List.not_mem_nil, or_false] at hmem
    rcases hmem with rfl | rfl | rfl | rfl | rfl | rfl | rfl | rfl <;> exact absurd hd (by decide)
  | plus => rw [List.cons_append, lexToken_plain (by decide), ← List.cons_append, if_pos hstart]
  | minus => rw [List.cons_append, lexToken_plain (by decide), ← List.cons_append, if_pos hstart]

theorem not_digit_of_startsName (h : startsName c = true) : c.isDigit = false := by
  by_contra hdigit
  rw [Bool.not_eq_false] at hdigit
  simp only [Char.isDigit, Bool.and_eq_true, decide_eq_true_eq] at hdigit
  simp only [startsName, Char.isAlpha, Char.isUpper, Char.isLower, Bool.or_eq_true,
    Bool.and_eq_true, decide_eq_true_eq, beq_iff_eq] at h
  rcases h with (hupper | hlower) | rfl
  · exact absurd (UInt32.le_trans hupper.1 hdigit.2) (by decide)
  · exact absurd (UInt32.le_trans hlower.1 hdigit.2) (by decide)
  · exact absurd hdigit (by decide)

theorem isNameChar_of_startsName (h : startsName c = true) : isNameChar c = true := by
  simp only [startsName, Bool.or_eq_true, beq_iff_eq] at h
  simp only [isNameChar, Char.isAlphanum, Bool.or_eq_true, beq_iff_eq]
  tauto

theorem lexToken_name (hfirst : startsName first = true) (left : List Char) :
    lexToken (F := F) (first :: left) =
      (scanField (first :: left).length false [] (first :: left)).map fun read =>
        (if read.2.2 then .ident read.1 else keyword read.1, read.2.1) := by
  have hdigit := not_digit_of_startsName hfirst
  have hsymbol : first ∉ ['(', ')', '=', '!', '<', '>', '%', '\''] := by
    intro hmem
    simp only [List.mem_cons, List.not_mem_nil, or_false] at hmem
    rcases hmem with rfl | rfl | rfl | rfl | rfl | rfl | rfl | rfl <;>
      exact absurd hfirst (by decide)
  have hnumber : startsNumber (first :: left) = false := by
    have hminus : first ≠ '-' := by rintro rfl; exact absurd hfirst (by decide)
    have hplus : first ≠ '+' := by rintro rfl; exact absurd hfirst (by decide)
    simp [startsNumber, hdigit, hminus, hplus]
  rw [lexToken_plain hsymbol, hnumber, if_neg Bool.false_ne_true, if_pos hfirst]

theorem lexToken_name_sound (hfirst : startsName first = true)
    (h : lexToken (first :: left) = .ok (tok, rest)) :
    ∃ text, Lexeme scannerRules text tok rest ∧ first :: left = text ++ rest := by
  rw [lexToken_name hfirst] at h
  obtain ⟨⟨out, rest', sub⟩, hscan, heq⟩ := map_ok.mp h
  obtain ⟨run, hrun, _, ⟨last, hlast, hinput, hout⟩ |
    ⟨written, plain, behind, hone, hsub, hinput, htail⟩⟩ := scanField_cases hscan
  · cases hout
    cases heq
    cases run with
    | nil =>
      have hname := isNameChar_of_startsName hfirst
      rw [List.nil_append] at hinput
      rw [← hinput] at hlast
      exact absurd (stopsBefore_cons.mp hlast) (by simp [hname])
    | cons c run =>
      obtain ⟨rfl, _⟩ := List.cons.inj hinput
      exact ⟨_, .word hfirst (fun d hd => hrun d (List.mem_cons_of_mem _ hd))
        (keyword_iff.mp rfl) hlast, hinput⟩
  · cases run with
    | nil => exact absurd rfl hone
    | cons c run =>
      obtain ⟨rfl, hleft⟩ := List.cons.inj hinput
      have hshort : behind.length ≤ left.length := by
        have hlength : left.length = (run ++ (written ++ behind)).length :=
          congrArg List.length hleft
        rw [List.length_append, List.length_append] at hlength
        omega
      obtain ⟨rfl, hrest, tail, plainTail, hfield, rfl, rfl⟩ := (scanField_tail hshort).mp htail
      cases heq
      refine ⟨first :: (run ++ (written ++ tail)), ?_, by rw [hleft]; simp⟩
      have hlexeme := Lexeme.field (F := F) hfirst
        (fun d hd => hrun d (List.mem_cons_of_mem _ hd)) hsub hfield hrest
      simpa using hlexeme

theorem lexToken_sound (h : lexToken input = .ok (tok, rest)) :
    ∃ text, Lexeme scannerRules text tok rest ∧ input = text ++ rest := by
  cases hsymbol : scanSymbol (F := F) input with
  | some read =>
    rw [lexToken_symbol hsymbol] at h
    cases h
    obtain ⟨text, stops, hmem, hnext, rfl⟩ := scanSymbol_ok.mp hsymbol
    exact ⟨text, .symbol hmem hnext, rfl⟩
  | none =>
    have hread := h
    unfold lexToken at h
    rw [hsymbol] at h
    simp only at h
    split at h
    · obtain ⟨⟨n, last⟩, hparam, heq⟩ := map_ok.mp h
      cases heq
      obtain ⟨digits, hdigits, hone, hrange, hnext, rfl, rfl⟩ := scanParam_ok.mp hparam
      exact ⟨'%' :: digits, .param hdigits hone hrange hnext, rfl⟩
    · obtain ⟨⟨text, last⟩, hstring, heq⟩ := map_ok.mp h
      cases heq
      obtain ⟨rfl, hlines, hnext⟩ := scanString_ok.mp hstring
      exact ⟨_, .string hlines hnext, by simp⟩
    · split at h
      · next hstart => exact scanNumber_sound hstart h
      · split at h
        · next hname =>
          cases input with
          | nil => cases hname
          | cons first left => exact lexToken_name_sound hname hread
        · cases h

theorem lexToken_complete (h : Lexeme scannerRules text tok rest) :
    lexToken (text ++ rest) = .ok (tok, rest) := by
  cases h with
  | symbol hmem hnext =>
    have hscan := scanSymbol_ok.mpr ⟨_, _, hmem, hnext, rfl⟩
    exact lexToken_symbol hscan
  | @param digits _ hdigits hone hrange hnext =>
    show (scanParam (digits ++ rest)).map _ = _
    rw [scanParam_ok.mpr ⟨digits, hdigits, hone, hrange, hnext, rfl, rfl⟩]
    rfl
  | @string text _ hlines hnext =>
    show (scanString (escape text ++ ['\''] ++ rest)).map _ = _
    rw [scanString_ok.mpr ⟨by simp, hlines, hnext⟩]
    rfl
  | @integer sign digits _ negative n hsign hdigits hone hrange hnext hhex =>
    have hscan := scanNumber_integer (F := F) hsign hdigits hone hrange hnext hhex
    cases digits with
    | nil => exact absurd rfl hone
    | cons d digits =>
      rw [List.append_assoc] at hscan ⊢
      rw [List.cons_append] at hscan ⊢
      rw [lexToken_number hsign (hdigits d List.mem_cons_self), hscan]
  | @hex sign digits _ x negative n hsign hx hdigits hone hrange hnext =>
    have hscan : scanHex (F := F) (sign ++ '0' :: x :: (digits ++ rest)) negative
        (digits ++ rest) = .ok (.intLit n, rest) :=
      scanHex_ok.mpr ⟨digits, n, hdigits, hone, hrange, hnext, rfl, rfl⟩
    rw [List.append_assoc, List.cons_append, List.cons_append, lexToken_number hsign rfl,
      scanNumber_hex hsign hx, hscan]
  | @float sign whole fraction exponent _ negative hsign hwhole hone hfraction hexponent hfloat
      hnext =>
    have hscan := scanNumber_float (F := F) hsign hwhole hone hfraction hexponent hfloat hnext
    cases whole with
    | nil => exact absurd rfl hone
    | cons d whole =>
      rw [List.append_assoc sign] at hscan ⊢
      simp only [List.cons_append] at hscan ⊢
      rw [lexToken_number hsign (hwhole d List.mem_cons_self), hscan]
  | @word first run _ tok hfirst hrun hword hnext =>
    have hall : ∀ c ∈ first :: run, isNameChar c = true := by
      intro c hc
      rcases List.mem_cons.mp hc with rfl | hc
      · exact isNameChar_of_startsName hfirst
      · exact hrun c hc
    have hscan := @scanField_stop (run ++ rest).length false [] (first :: run) rest hall
      (fun h => by cases h) hnext
    rw [List.cons_append] at hscan ⊢
    rw [lexToken_name hfirst, List.length_cons, hscan, ← keyword_iff.mpr hword]
    rfl
  | @field first run written plain tail plainTail _ hfirst hrun hsub htail hnext =>
    have hall : ∀ c ∈ first :: run, isNameChar c = true := by
      intro c hc
      rcases List.mem_cons.mp hc with rfl | hc
      · exact isNameChar_of_startsName hfirst
      · exact hrun c hc
    have hshort : (tail ++ rest).length ≤ (run ++ (written ++ (tail ++ rest))).length := by
      simp only [List.length_append]
      omega
    have hfirstScan := @scanField_subscript (run ++ (written ++ (tail ++ rest))).length false []
      (first :: run) (tail ++ rest) hall (by simp) (fun h => by cases h) _ _ hsub
    have htailScan : scanField (run ++ (written ++ (tail ++ rest))).length true
        ([] ++ first :: run ++ plain) (tail ++ rest) = .ok (_, rest, true) :=
      (scanField_tail hshort).mpr ⟨rfl, hnext, tail, plainTail, htail, rfl, rfl⟩
    rw [htailScan] at hfirstScan
    have hinput : first :: (run ++ (written ++ tail)) ++ rest =
        first :: (run ++ (written ++ (tail ++ rest))) := by simp
    rw [hinput, lexToken_name hfirst]
    rw [List.cons_append] at hfirstScan
    rw [List.length_cons, hfirstScan]
    simp [Except.map]

theorem lexToken_ok :
    lexToken input = .ok (tok, rest) ↔
      ∃ text, Lexeme scannerRules text tok rest ∧ input = text ++ rest := by
  constructor
  · exact lexToken_sound
  · rintro ⟨text, htext, rfl⟩
    exact lexToken_complete htext

theorem Lexeme.exists_cons {rules : FieldRules} (h : Lexeme rules text tok rest) :
    ∃ c behind, text = c :: behind ∧ isBlank c = false := by
  have hdigits : ∀ {sign digits : List Char} {negative : Bool}, Sign sign negative →
      (∀ c ∈ digits, c.isDigit = true) → digits ≠ [] → ∀ after,
      ∃ c behind, sign ++ (digits ++ after) = c :: behind ∧ isBlank c = false := by
    intro sign digits negative hsign hdigits hone after
    cases hsign with
    | plus => exact ⟨'+', _, rfl, rfl⟩
    | minus => exact ⟨'-', _, rfl, rfl⟩
    | none =>
      cases digits with
      | nil => exact absurd rfl hone
      | cons d digits => exact ⟨d, _, rfl, not_blank_of_digit (hdigits d List.mem_cons_self)⟩
  have hname : ∀ {c : Char}, startsName c = true → isBlank c = false := by
    intro c hc
    by_contra hblank
    rw [Bool.not_eq_false] at hblank
    rcases isBlank_cases hblank with rfl | rfl | rfl | rfl | rfl <;> exact absurd hc (by decide)
  cases h with
  | symbol hmem hnext =>
    simp only [symbols, List.mem_cons, List.not_mem_nil, or_false, Prod.mk.injEq] at hmem
    rcases hmem with ⟨rfl, -, -⟩ | ⟨rfl, -, -⟩ | ⟨rfl, -, -⟩ | ⟨rfl, -, -⟩ | ⟨rfl, -, -⟩ |
      ⟨rfl, -, -⟩ | ⟨rfl, -, -⟩ | ⟨rfl, -, -⟩ | ⟨rfl, -, -⟩ <;> exact ⟨_, _, rfl, rfl⟩
  | param _ _ _ _ => exact ⟨'%', _, rfl, rfl⟩
  | string _ _ => exact ⟨'\'', _, rfl, rfl⟩
  | integer hsign hall hone _ _ _ =>
    have h := hdigits hsign hall hone []
    rwa [List.append_nil] at h
  | hex hsign _ _ _ _ _ =>
    cases hsign with
    | none => exact ⟨'0', _, rfl, rfl⟩
    | plus => exact ⟨'+', _, rfl, rfl⟩
    | minus => exact ⟨'-', _, rfl, rfl⟩
  | float hsign hall hone _ _ _ _ => exact hdigits hsign hall hone _
  | word hfirst _ _ _ => exact ⟨_, _, rfl, hname hfirst⟩
  | field hfirst _ _ _ _ => exact ⟨_, _, rfl, hname hfirst⟩

theorem tokenizeLoop_ok {fuel : Nat} (hfuel : input.length ≤ fuel) :
    tokenizeLoop fuel input = .ok toks ↔ Lexes scannerRules input toks := by
  constructor
  · intro h
    induction fuel generalizing input toks with
    | zero =>
      obtain rfl := List.eq_nil_of_length_eq_zero (Nat.le_zero.mp hfuel)
      cases h
      exact .nil
    | succ fuel ih =>
      cases input with
      | nil =>
        cases h
        exact .nil
      | cons c input =>
        rw [List.length_cons] at hfuel
        rw [tokenizeLoop] at h
        split at h
        · next hblank => exact .blank hblank (ih (by omega) h)
        · obtain ⟨⟨tok, rest⟩, htok, hrest⟩ := bind_ok.mp h
          obtain ⟨toks', htoks, rfl⟩ := map_ok.mp hrest
          obtain ⟨text, htext, hinput⟩ := lexToken_sound htok
          obtain ⟨d, behind, rfl, _⟩ := htext.exists_cons
          have hlength := congrArg List.length hinput
          simp only [List.length_cons, List.length_append] at hlength
          rw [hinput]
          exact .lexeme htext (ih (by omega) htoks)
  · intro h
    induction h generalizing fuel with
    | nil => cases fuel <;> rfl
    | @blank c rest toks hc _ ih =>
      rw [List.length_cons] at hfuel
      obtain ⟨fuel, rfl⟩ : ∃ f, fuel = f + 1 := ⟨fuel - 1, by omega⟩
      rw [tokenizeLoop, if_pos hc]
      exact ih (by omega)
    | @lexeme text rest tok toks htext _ ih =>
      have hread := lexToken_complete htext
      obtain ⟨d, behind, rfl, hd⟩ := htext.exists_cons
      simp only [List.length_append, List.length_cons] at hfuel
      obtain ⟨fuel, rfl⟩ : ∃ f, fuel = f + 1 := ⟨fuel - 1, by omega⟩
      rw [List.cons_append] at hread ⊢
      rw [tokenizeLoop, if_neg (by rw [hd]; decide), hread]
      show (tokenizeLoop fuel rest).map _ = _
      rw [ih (by omega)]
      rfl

theorem tokenize_ok : tokenize input = .ok toks ↔ Lexes scannerRules input toks :=
  tokenizeLoop_ok (le_refl _)

def Sentence (rules : FieldRules) (input : List Char) (e : Expr F) : Prop :=
  ∃ toks : List (Token F), Lexes rules input toks ∧ Derives .or toks e

def plainFields : FieldRules := ⟨False, False⟩

def anyFields : FieldRules := ⟨True, True⟩

/-- What is accepted is a sentence and comes back as the expression it stands for; and every
sentence of plain field references is accepted. -/
theorem parse_sentence (input : List Char) (e : Expr F) :
    (parse input = .ok e → Sentence anyFields input e) ∧
      (Sentence plainFields input e → parse input = .ok e) := by
  have hexact : parse input = .ok e ↔ Sentence scannerRules input e := by
    rw [parse_ok]
    exact exists_congr fun toks => and_congr_left fun _ => tokenize_ok
  constructor
  · intro h
    obtain ⟨toks, hlexes, hderives⟩ := hexact.mp h
    exact ⟨toks, hlexes.mono ⟨fun _ => trivial, fun _ => trivial⟩, hderives⟩
  · rintro ⟨toks, hlexes, hderives⟩
    have hle : plainFields.Le scannerRules := ⟨id, fun _ => trivial⟩
    exact hexact.mpr ⟨toks, hlexes.mono hle, hderives⟩

/-- `a.b[ 3 ].c<>-0x1f` is a sentence, and the sentence `a=%0` is accepted. -/
theorem comparisons_are_sentences :
    (∃ e : Expr ℚ, parse ['a', '.', 'b', '[', ' ', '3', ' ', ']', '.', 'c', '<', '>', '-', '0',
        'x', '1', 'f'] = .ok e ∧
      Sentence anyFields ['a', '.', 'b', '[', ' ', '3', ' ', ']', '.', 'c', '<', '>', '-', '0',
        'x', '1', 'f'] e) ∧
      parse ['a', '=', '%', '0'] = .ok (.cmp (.field ['a']) .eq (.param 0) : Expr ℚ) := by
  constructor
  · have hdepth : (parse (F := ℚ) ['a', '.', 'b', '[', ' ', '3', ' ', ']', '.', 'c', '<', '>', '-',
        '0', 'x', '1', 'f']).toOption.map Expr.depth = some 1 := by
      decide +kernel
    obtain ⟨e, he, _⟩ := Outcome.exists_ok_of_map hdepth
    exact ⟨e, he, (parse_sentence _ e).1 he⟩
  · have hname : Lexeme plainFields ['a'] (.ident ['a'] : Token ℚ) ['=', '%', '0'] :=
      .word (by decide) (by simp) (.name (by decide) (by decide)) (by simp [StopsBefore]; decide)
    have hmem : (['='], (.eq : Token ℚ), []) ∈ symbols := by simp [symbols]
    have heq : Lexeme plainFields ['='] (.eq : Token ℚ) ['%', '0'] :=
      .symbol hmem (by simp [StopsBefore])
    have hparam : Lexeme plainFields ['%', '0'] (.param 0 : Token ℚ) [] :=
      .param (by simp) (by simp) (by decide +kernel) stopsBefore_nil
    exact (parse_sentence _ _).2 ⟨[.ident ['a'], .eq, .param 0],
      .lexeme hname (.lexeme heq (.lexeme hparam .nil)),
      .orOne (.andOne (.notOne (.cmp (.cmp rfl rfl rfl))))⟩

omit [Doubles F] in
theorem not_derivesBy_atom {ts : List (Token F)} {e : Expr F} (hor : .or ∉ ts) (hand : .and ∉ ts)
    (hnot : ts.take 2 = [.not, .not]) : ¬ DerivesBy .atom .or ts e := by
  have hatom : ∀ {us e}, us.head? = some (.not : Token F) → ¬ DerivesBy .atom .atom us e := by
    intro us e hhead h
    cases h with
    | cmp h =>
      cases h with
      | cmp hl _ _ => cases hhead; cases hl
      | between hf _ _ => cases hhead; cases hf
      | notBetween hf _ _ => cases hhead; cases hf
    | paren _ => cases hhead
  have hhead : ts.head? = some .not := by
    match ts, hnot with
    | tok :: _ :: _, hnot => exact congrArg some (List.cons.inj hnot).1
  intro h
  cases h with
  | or _ _ => exact hor (by simp)
  | orOne h =>
    cases h with
    | and _ _ => exact hand (by simp)
    | andOne h =>
      cases h with
      | notOne h => exact hatom hhead h
      | @not us e h =>
        refine hatom ?_ h
        match us, hnot with
        | tok :: _, hnot => exact congrArg some (List.cons.inj (List.cons.inj hnot).2).1

/-- Two `NOT`s in a row are accepted. -/
theorem two_nots_accepted :
    ∃ (toks : List (Token ℚ)) (e : Expr ℚ),
      tokenize ['N', 'O', 'T', ' ', 'N', 'O', 'T', ' ', 'a', '=', '1'] = .ok toks ∧
      parse ['N', 'O', 'T', ' ', 'N', 'O', 'T', ' ', 'a', '=', '1'] = .ok e ∧
      ∀ e', ¬ DerivesBy .atom .or toks e' := by
  refine ⟨[.not, .not, .ident ['a'], .eq, .intLit 1],
    .not (.not (.cmp (.field ['a']) .eq (.literal (.int 1)))), by decide +kernel, by decide +kernel,
    ?_⟩
  intro e'
  exact not_derivesBy_atom (by decide) (by decide) rfl

end ZeroDds.SqlFilter
