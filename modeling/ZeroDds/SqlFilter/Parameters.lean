/-
Parameters and the literals they spell.
-/
import ZeroDds.SqlFilter.Substitution

namespace ZeroDds.SqlFilter

variable {F : Type} {text : List Char}

theorem trim_of_ends (hfirst : StopsBefore isWhitespace text)
    (hlast : StopsBefore isWhitespace text.reverse) : trim text = text := by
  have hfront : text.dropWhile isWhitespace = text :=
    @dropWhile_span _ isWhitespace [] text (by simp) hfirst
  have hback : text.reverse.dropWhile isWhitespace = text.reverse :=
    @dropWhile_span _ isWhitespace [] text.reverse (by simp) hlast
  rw [trim, hfront, hback, List.reverse_reverse]

theorem trim_of_graphic (h : ∀ c ∈ text, isWhitespace c = false) : trim text = text := by
  refine trim_of_ends (fun c hc => ?_) (fun c hc => ?_)
  · exact h c (List.mem_of_mem_head? hc)
  · exact h c (List.mem_reverse.mp (List.mem_of_mem_head? hc))

theorem length_trim_le (text : List Char) : (trim text).length ≤ text.length := by
  rw [trim, List.length_reverse]
  calc (List.dropWhile isWhitespace (List.dropWhile isWhitespace text).reverse).length
      ≤ (List.dropWhile isWhitespace text).reverse.length := List.length_dropWhile_le ..
    _ = (List.dropWhile isWhitespace text).length := List.length_reverse
    _ ≤ text.length := List.length_dropWhile_le ..

theorem length_inside_lt (h : isQuoted text = true) :
    (text.drop 1).dropLast.length < text.length := by
  simp only [isQuoted, Bool.and_eq_true, decide_eq_true_eq] at h
  rw [List.length_dropLast, List.length_drop]
  omega

variable {c : Char}

theorem not_whitespace_of_nameChar (h : isNameChar c = true) : isWhitespace c = false := by
  have hrange : 46 ≤ c.toNat ∧ c.toNat ≤ 122 := by
    simp only [isNameChar, Char.isAlphanum, Char.isAlpha, Char.isUpper, Char.isLower, Char.isDigit,
      Bool.or_eq_true, Bool.and_eq_true, decide_eq_true_eq, beq_iff_eq, ge_iff_le,
      UInt32.le_iff_toNat_le] at h
    rcases h with ((h | h) | rfl) | rfl
    · rcases h with h | h <;> simp at h <;> omega
    · simp at h
      omega
    · decide
    · decide
  simp only [isWhitespace, List.contains_eq_mem, List.mem_cons, List.not_mem_nil, or_false,
    Bool.or_eq_false_iff, Bool.and_eq_false_iff, decide_eq_false_iff_not]
  omega

theorem Sign.graphic {sign : List Char} {negative : Bool} (h : Sign sign negative) :
    ∀ c ∈ sign, isWhitespace c = false := by
  cases h <;> simp [isWhitespace]

theorem not_whitespace_of_digit (h : c.isDigit = true) : isWhitespace c = false :=
  not_whitespace_of_nameChar (by simp [isNameChar, Char.isAlphanum, h])

theorem Fraction.graphic (h : Fraction text) : ∀ c ∈ text, isWhitespace c = false := by
  cases h with
  | none => simp
  | point hdigits =>
    intro c hc
    rcases List.mem_cons.mp hc with rfl | hc
    · decide
    · exact not_whitespace_of_digit (hdigits c hc)

theorem Exponent.graphic (h : Exponent text) : ∀ c ∈ text, isWhitespace c = false := by
  cases h with
  | none => simp
  | power he hsign hdigits _ =>
    intro c hc
    rcases List.mem_cons.mp hc with rfl | hc
    · rcases he with rfl | rfl <;> decide
    · rcases List.mem_append.mp hc with hc | hc
      · exact hsign.graphic c hc
      · exact not_whitespace_of_digit (hdigits c hc)

/-! ### Reading a parameter -/

section Reading

variable [Doubles F] {c : Char}

theorem toUpper_digit (h : c.isDigit = true) : c.toUpper = c := by
  unfold Char.isDigit at h
  simp only [Bool.and_eq_true, decide_eq_true_eq] at h
  unfold Char.toUpper
  split
  · next hlower => exact absurd (UInt32.le_trans hlower.1 h.2) (by decide)
  · rfl

theorem fromParameter_number {rest : List Char} (hc : c.isDigit = true ∨ isSign c = true)
    (htrim : trim (c :: rest) = c :: rest) :
    (Value.fromParameter (c :: rest) : Value F) =
      (parseI64 (c :: rest)).elim ((parseF64 (c :: rest)).elim (.string (c :: rest)) .float)
        .int := by
  have hupper : c.toUpper = c := by
    rcases hc with hc | hc
    · exact toUpper_digit hc
    · simp only [isSign, Bool.or_eq_true, beq_iff_eq] at hc
      rcases hc with rfl | rfl <;> rfl
  have hword : c ≠ 'T' ∧ c ≠ 'F' := by
    constructor <;> rintro rfl <;> rcases hc with hc | hc <;> revert hc <;> decide
  have hnull : c ≠ 'n' ∧ c ≠ '\'' := by
    constructor <;> rintro rfl <;> rcases hc with hc | hc <;> revert hc <;> decide
  have hquoted : isQuoted (c :: rest) = false := by
    simp [isQuoted, hnull.2]
  simp only [Value.fromParameter, htrim, List.map_cons, List.cons.injEq, hupper, hword.1, hword.2,
    hnull.1, false_and, if_false, hquoted, Bool.false_eq_true]
  cases parseI64 (c :: rest) with
  | some i => rfl
  | none =>
    cases (parseF64 (c :: rest) : Option F) with
    | some f => rfl
    | none => rfl

/-! ### Literals that are parameters -/

/-- Whether a literal is one that both readers take for the same value: no number in hexadecimal and
no string with a quote in it. -/
def plainLiteral (lit : List Char) : Bool :=
  match lit with
  | '\'' :: rest => !rest.dropLast.contains '\''
  | _ =>
    match (splitSign lit).2 with
    | '0' :: 'x' :: _ => false
    | '0' :: 'X' :: _ => false
    | _ => true

/-- Both readers take `lit` for `v`, or only one of them does and it shows in a comparison. -/
def ReadsAlike (lit : List Char) (v : Value F) : Prop :=
  (plainLiteral lit = true ∧ Value.fromParameter lit = v) ∨
    (plainLiteral lit = false ∧
      SqlFilter.cmp v .eq (Value.fromParameter lit) ≠ SqlFilter.cmp v .eq v)

variable {sign body : List Char} {negative : Bool} {d : Char}

theorem plainLiteral_number (hsign : Sign sign negative) (hd : d.isDigit = true)
    (hhex : NotHex (d :: body)) : plainLiteral (sign ++ d :: body) = true := by
  have hstop : StopsBefore isSign (d :: body) := stopsBefore_cons.mpr (not_sign_of_digit hd)
  have hsplit := splitSign_sign hsign fun _ => hstop
  have hquote : ∀ rest, sign ++ d :: body ≠ '\'' :: rest := by
    intro rest heq
    cases hsign with
    | none =>
      cases heq
      exact absurd hd (by decide)
    | plus => cases heq
    | minus => cases heq
  unfold plainLiteral
  split
  · next rest heq => exact absurd heq (hquote rest)
  · rw [hsplit]
    split
    · next behind heq => exact absurd heq (hhex behind).1
    · next behind heq => exact absurd heq (hhex behind).2
    · rfl

theorem fromParameter_signed (hsign : Sign sign negative) (hd : d.isDigit = true)
    (hbody : ∀ c ∈ body, isWhitespace c = false) :
    (Value.fromParameter (sign ++ d :: body) : Value F) =
      (parseI64 (sign ++ d :: body)).elim
        ((parseF64 (sign ++ d :: body)).elim (.string (sign ++ d :: body)) .float) .int := by
  have htrim : trim (sign ++ d :: body) = sign ++ d :: body := by
    refine trim_of_graphic fun c hc => ?_
    rcases List.mem_append.mp hc with hc | hc
    · exact hsign.graphic c hc
    · rcases List.mem_cons.mp hc with rfl | hc
      · exact not_whitespace_of_digit hd
      · exact hbody c hc
  cases hsign with
  | none => exact fromParameter_number (.inl hd) htrim
  | plus => exact fromParameter_number (.inr rfl) htrim
  | minus => exact fromParameter_number (.inr rfl) htrim

variable {digits : List Char} {n : Int}

theorem readsAlike_integer (hsign : Sign sign negative) (hdigits : ∀ c ∈ digits, c.isDigit = true)
    (hone : digits ≠ []) (hrange : toI64 (signed negative (decimal digits)) = some n) :
    ReadsAlike (F := F) (sign ++ digits) (.int n) := by
  have hparse := parseI64_digits hsign hdigits hone
  have hhex := notHex_digits hdigits hone fun _ =>
      @stopsBefore_nil _ (fun c => c == 'x' || c == 'X')
  rw [List.append_nil] at hhex
  obtain ⟨d, body, rfl⟩ := List.exists_cons_of_ne_nil hone
  have hd := hdigits d List.mem_cons_self
  refine .inl ⟨plainLiteral_number hsign hd hhex, ?_⟩
  rw [fromParameter_signed hsign hd fun c hc =>
    not_whitespace_of_digit (hdigits c (List.mem_cons_of_mem d hc)), hparse, hrange]
  rfl

omit [Doubles F] in
theorem parseI64_of_not_digit (hsign : Sign sign negative) (hd : d.isDigit = true)
    (hmem : c ∈ d :: body) (hc : c.isDigit = false) : parseI64 (sign ++ d :: body) = none := by
  have hstop : StopsBefore isSign (d :: body) := stopsBefore_cons.mpr (not_sign_of_digit hd)
  have hall : ¬ (d :: body).all Char.isDigit = true := by
    intro hall
    rw [List.all_eq_true.mp hall c hmem] at hc
    cases hc
  simp only [parseI64, splitSign_sign hsign fun _ => hstop]
  exact if_neg fun h => hall h.2

theorem readsAlike_hex {x : Char} (hsign : Sign sign negative) (hx : x = 'x' ∨ x = 'X')
    (hdigits : ∀ c ∈ digits, isHexDigit c = true) :
    ReadsAlike (F := F) (sign ++ '0' :: x :: digits) (.int n) := by
  have hstop : StopsBefore isSign ('0' :: x :: digits) := stopsBefore_cons.mpr rfl
  have hgraphic : ∀ c ∈ x :: digits, isWhitespace c = false := by
    intro c hc
    rcases List.mem_cons.mp hc with rfl | hc
    · rcases hx with rfl | rfl <;> decide
    · refine not_whitespace_of_nameChar ?_
      simp [isNameChar, isAlphanum_of_hex (hdigits c hc)]
  have hint : parseI64 (sign ++ '0' :: x :: digits) = none :=
    parseI64_of_not_digit hsign rfl (List.mem_cons_of_mem _ List.mem_cons_self)
      (by rcases hx with rfl | rfl <;> rfl)
  have hfloat : isFloatText (sign ++ '0' :: x :: digits) = false := by
    simp only [isFloatText, splitSign_sign hsign fun _ => hstop]
    rcases hx with rfl | rfl <;> simp [isPlainNumber, isExponent, Char.toLower]
  have hplain : plainLiteral (sign ++ '0' :: x :: digits) = false := by
    cases hsign <;> rcases hx with rfl | rfl <;> rfl
  refine .inr ⟨hplain, ?_⟩
  rw [fromParameter_signed hsign rfl hgraphic, hint, parseF64, hfloat]
  simp [SqlFilter.cmp, cmpValues, cmpInt, Value.isNull, asF64]

theorem readsAlike_float {whole fraction exponent : List Char} (hsign : Sign sign negative)
    (hwhole : ∀ c ∈ whole, c.isDigit = true) (hone : whole ≠ []) (hfraction : Fraction fraction)
    (hexponent : Exponent exponent) (hfloat : ¬ (fraction = [] ∧ exponent = [])) :
    ReadsAlike (F := F) (sign ++ (whole ++ (fraction ++ exponent)))
      (.float (Doubles.ofText (sign ++ (whole ++ (fraction ++ exponent))))) := by
  -- the text behind the digits starts with a point or with the letter of a power of ten
  obtain ⟨c, behind, hbehind, hc, hx⟩ : ∃ c behind, fraction ++ exponent = c :: behind ∧
      c.isDigit = false ∧ (c == 'x' || c == 'X') = false := by
    cases hfraction with
    | point => exact ⟨'.', _, rfl, rfl, rfl⟩
    | none =>
      cases hexponent with
      | none => exact absurd ⟨rfl, rfl⟩ hfloat
      | @power e _ _ _ he =>
        refine ⟨e, _, rfl, ?_⟩
        rcases he with rfl | rfl <;> exact ⟨rfl, rfl⟩
  have htext := isFloatText_eq hsign hwhole hone hfraction hexponent.powerRun.startsPower
  rw [hexponent.isExponent] at htext
  have hhex : NotHex (whole ++ (fraction ++ exponent)) :=
    notHex_digits hwhole hone fun _ => by rw [hbehind]; exact stopsBefore_cons.mpr hx
  have hgraphic : ∀ c ∈ whole ++ (fraction ++ exponent), isWhitespace c = false := by
    intro c hc
    rcases List.mem_append.mp hc with hc | hc
    · exact not_whitespace_of_digit (hwhole c hc)
    · rcases List.mem_append.mp hc with hc | hc
      · exact hfraction.graphic c hc
      · exact hexponent.graphic c hc
  obtain ⟨d, body, rfl⟩ := List.exists_cons_of_ne_nil hone
  have hd := hwhole d List.mem_cons_self
  have hint : parseI64 (sign ++ d :: (body ++ (fraction ++ exponent))) = none :=
    parseI64_of_not_digit hsign hd (by rw [hbehind]; simp) hc
  rw [List.cons_append] at htext hhex hgraphic ⊢
  refine .inl ⟨plainLiteral_number hsign hd hhex, ?_⟩
  rw [fromParameter_signed hsign hd fun c hc => hgraphic c (List.mem_cons_of_mem d hc), hint,
    parseF64, if_pos htext]
  rfl

variable {text : List Char}

theorem escape_of_not_mem (h : '\'' ∉ text) : escape text = text := by
  induction text with
  | nil => rfl
  | cons c text ih =>
    have hc : c ≠ '\'' := fun hc => h (hc ▸ List.mem_cons_self)
    rw [escape_cons, if_neg hc, ih fun hmem => h (List.mem_cons_of_mem c hmem)]
    rfl

omit [Doubles F] in
theorem length_le_escape (text : List Char) : text.length ≤ (escape text).length := by
  induction text with
  | nil => exact le_refl _
  | cons c text ih =>
    rw [escape_cons, List.length_append, List.length_cons]
    split
    · simp only [List.length_cons, List.length_nil]
      omega
    · simp only [List.length_cons, List.length_nil]
      omega

omit [Doubles F] in
theorem escape_ne_of_mem (h : '\'' ∈ text) : escape text ≠ text := by
  obtain ⟨front, back, rfl⟩ := List.append_of_mem h
  intro heq
  have hlength := congrArg List.length heq
  have hsplit : escape (front ++ '\'' :: back) = escape front ++ ('\'' :: '\'' :: escape back) := by
    simp [escape]
  rw [hsplit] at hlength
  simp only [List.length_append, List.length_cons] at hlength
  have hfront := length_le_escape front
  have hback := length_le_escape back
  omega

omit [Doubles F] in
theorem mem_escape : '\'' ∈ escape text ↔ '\'' ∈ text := by
  constructor
  · intro h
    by_contra hmem
    rw [escape_of_not_mem hmem] at h
    exact hmem h
  · intro h
    exact List.mem_flatMap.mpr ⟨'\'', h, by simp⟩

theorem fromParameter_quoted (inside : List Char) :
    (Value.fromParameter ('\'' :: (inside ++ ['\''])) : Value F) = .string inside := by
  have htrim : trim ('\'' :: (inside ++ ['\''])) = '\'' :: (inside ++ ['\'']) := by
    refine trim_of_ends (stopsBefore_cons.mpr (by decide)) ?_
    rw [List.reverse_cons, List.reverse_append, List.reverse_singleton, List.singleton_append]
    exact stopsBefore_cons.mpr (by decide)
  have hint : parseI64 ('\'' :: (inside ++ ['\''])) = none := by
    simp [parseI64, splitSign]
  have hfloat : isFloatText ('\'' :: (inside ++ ['\''])) = false := by
    simp [isFloatText, splitSign, isPlainNumber, Char.toLower]
  have hquoted : isQuoted ('\'' :: (inside ++ ['\''])) = true := by
    simp [isQuoted, List.getLast?_cons]
  have hinside : (('\'' :: (inside ++ ['\''])).drop 1).dropLast = inside := by simp
  have hupper : Char.toUpper '\'' = '\'' := rfl
  simp only [Value.fromParameter, htrim, hint, parseF64, hfloat, hquoted, hinside, List.map_cons,
    List.cons.injEq, hupper]
  simp

theorem readsAlike_string (text : List Char) :
    ReadsAlike (F := F) ('\'' :: (escape text ++ ['\''])) (.string text) := by
  have hplain : plainLiteral ('\'' :: (escape text ++ ['\''])) = !(escape text).contains '\'' := by
    simp [plainLiteral]
  unfold ReadsAlike
  rw [hplain, fromParameter_quoted]
  by_cases hmem : '\'' ∈ text
  · refine .inr ⟨by simpa using mem_escape.mpr hmem, ?_⟩
    have hne := (escape_ne_of_mem hmem).symm
    simp [SqlFilter.cmp, cmpValues, cmpString, Value.isNull, hne]
  · refine .inl ⟨by simpa using mt mem_escape.mp hmem, ?_⟩
    rw [escape_of_not_mem hmem]

variable {first : Char} {v : Value F}

theorem plainLiteral_word (hfirst : startsName first = true) (run : List Char) :
    plainLiteral (first :: run) = true := by
  have hquote : first ≠ '\'' := by rintro rfl; exact absurd hfirst (by decide)
  have hsign : isSign first = false := by
    rw [Bool.eq_false_iff]
    intro hsign
    simp only [isSign, Bool.or_eq_true, beq_iff_eq] at hsign
    rcases hsign with rfl | rfl <;> exact absurd hfirst (by decide)
  have hzero : first ≠ '0' := by rintro rfl; exact absurd hfirst (by decide)
  unfold plainLiteral
  split
  · next rest heq => exact absurd (List.cons.inj heq).1 hquote
  · rw [splitSign_none (stopsBefore_cons.mpr hsign)]
    split
    · next behind heq => exact absurd (List.cons.inj heq).1 hzero
    · next behind heq => exact absurd (List.cons.inj heq).1 hzero
    · rfl

theorem readsAlike_word {run : List Char} {tok : Token F} (hfirst : startsName first = true)
    (hrun : ∀ c ∈ run, isNameChar c = true) (hword : Word (first :: run) tok)
    (hv : tok.literal = some v) : ReadsAlike (first :: run) v := by
  have htrim : trim (first :: run) = first :: run := by
    refine trim_of_graphic fun c hc => not_whitespace_of_nameChar ?_
    rcases List.mem_cons.mp hc with rfl | hc
    · exact isNameChar_of_startsName hfirst
    · exact hrun c hc
  refine .inl ⟨plainLiteral_word hfirst run, ?_⟩
  unfold Value.fromParameter
  rw [htrim]
  cases hword with
  | keyword hmem htext =>
    simp only [keywords, List.mem_cons, List.not_mem_nil, or_false, Prod.mk.injEq] at hmem
    rcases hmem with ⟨-, rfl⟩ | ⟨-, rfl⟩ | ⟨-, rfl⟩ | ⟨-, rfl⟩ | ⟨-, rfl⟩ | ⟨rfl, rfl⟩ |
      ⟨rfl, rfl⟩ <;> cases hv
    · simp [htext]
    · simp only [htext]
      rfl
  | null =>
    cases hv
    rfl
  | name => cases hv

variable {lit : List Char}

theorem fromParameter_literal (h : literalValue F lit = some v) : ReadsAlike lit v := by
  obtain ⟨tok, htok, hv⟩ := Option.bind_eq_some_iff.mp h
  obtain ⟨hlexeme, -⟩ := literalToken_some.mp htok
  cases hlexeme with
  | symbol hmem _ =>
    simp only [symbols, List.mem_cons, List.not_mem_nil, or_false, Prod.mk.injEq] at hmem
    rcases hmem with ⟨-, rfl, -⟩ | ⟨-, rfl, -⟩ | ⟨-, rfl, -⟩ | ⟨-, rfl, -⟩ | ⟨-, rfl, -⟩ |
      ⟨-, rfl, -⟩ | ⟨-, rfl, -⟩ | ⟨-, rfl, -⟩ | ⟨-, rfl, -⟩ <;> cases hv
  | param => cases hv
  | string =>
    cases hv
    exact readsAlike_string _
  | integer hsign hdigits hone hrange =>
    cases hv
    exact readsAlike_integer hsign hdigits hone hrange
  | hex hsign hx hdigits =>
    cases hv
    exact readsAlike_hex hsign hx hdigits
  | float hsign hwhole hone hfraction hexponent hfloat =>
    cases hv
    exact readsAlike_float hsign hwhole hone hfraction hexponent hfloat
  | word hfirst hrun hword => exact readsAlike_word hfirst hrun hword hv
  | field => cases hv

/-! ### Expressions with parameters -/

def comparedWith (i : Nat) : List Char := ['a', ' ', '=', ' ', '%'] ++ Nat.toDigits 10 i

omit [Doubles F] in
theorem decimal_toDigits (i : Nat) : decimal (Nat.toDigits 10 i) = i := by
  have h : Nat.ofDigitChars 10 (Nat.toDigits 10 i) 0 = i :=
    Nat.ofDigitChars_toDigits (by omega) (by omega)
  rw [decimal, numeral]
  simpa only [Nat.ofDigitChars, decimalDigit, Nat.mul_comm] using h

variable {i : Nat}

theorem parse_comparedWith (hi : i < 2 ^ 32) :
    parse (comparedWith i) = .ok (.cmp (.field ['a']) .eq (.param i) : Expr F) := by
  have hname : Lexeme (F := F) scannerRules ['a'] (.ident ['a'])
      (' ' :: '=' :: ' ' :: '%' :: Nat.toDigits 10 i) :=
    .word rfl (by simp) (.name (by simp [keywords]) (by decide)) (stopsBefore_cons.mpr rfl)
  have hsign : Lexeme (F := F) scannerRules ['='] .eq (' ' :: '%' :: Nat.toDigits 10 i) :=
    .symbol (by simp [symbols]; rfl) (stopsBefore_cons.mpr rfl)
  have hparam : Lexeme (F := F) scannerRules ('%' :: Nat.toDigits 10 i) (.param i) [] := by
    have hdigits : ∀ c ∈ Nat.toDigits 10 i, c.isDigit = true := fun c hc =>
      Nat.isDigit_of_mem_toDigits (by omega) (by omega) hc
    have hrange : decimal (Nat.toDigits 10 i) < 2 ^ 32 := by rwa [decimal_toDigits]
    have h : Lexeme (F := F) scannerRules ('%' :: Nat.toDigits 10 i)
        (.param (decimal (Nat.toDigits 10 i))) [] :=
      .param hdigits Nat.toDigits_ne_nil hrange stopsBefore_nil
    rwa [decimal_toDigits] at h
  have hlexes : Lexes (F := F) scannerRules (comparedWith i) [.ident ['a'], .eq, .param i] := by
    have hend := Lexes.lexeme hparam .nil
    rw [List.append_nil] at hend
    have hsecond := Lexes.lexeme hsign (.blank (c := ' ') rfl hend)
    have hall := Lexes.lexeme hname (.blank (c := ' ') rfl hsecond)
    exact hall
  exact parse_ok.mpr ⟨_, tokenize_ok.mpr hlexes,
    .orOne (.andOne (.notOne (.cmp (.cmp rfl rfl rfl))))⟩

theorem literalValue_isSome (h : (literalToken F lit).isSome = true) :
    ∃ v, literalValue F lit = some v := by
  obtain ⟨tok, htok⟩ := Option.isSome_iff_exists.mp h
  obtain ⟨-, v, hv⟩ := literalToken_some.mp htok
  exact ⟨v, by rw [literalValue, htok]; exact hv⟩

def MeansLiterals (F : Type) [Doubles F] (lits : List (List Char)) : Prop :=
  ∀ (input : List Char) (e : Expr F) (row : Row F), parse input = .ok e →
    ∃ e', parse (substitute F lits input) = .ok e' ∧
      e.evaluate row (lits.map Value.fromParameter) = e'.evaluate row []

variable {lits : List (List Char)} {s : List Char}

theorem meansLiterals_of_plain (hlits : ∀ lit ∈ lits, (literalToken F lit).isSome = true)
    (hplain : ∀ i lit, i < 2 ^ 32 → lits[i]? = some lit → plainLiteral lit = true) :
    MeansLiterals F lits := by
  intro input e row hparse
  refine ⟨e.substitute lits, parse_substitute hlits hparse, evaluate_substitute ?_⟩
  intro i hi lit hlit
  -- an index the scanner has read fits 32 bits
  obtain ⟨toks, htoks, hderives⟩ := parse_ok.mp hparse
  have hrange := (tokenize_ok.mp htoks).param_lt (hderives.param_mem hi)
  obtain ⟨v, hv⟩ := literalValue_isSome (hlits lit (List.mem_of_getElem? hlit))
  rcases fromParameter_literal hv with ⟨-, hread⟩ | ⟨hother, -⟩
  · rw [hread, hv]
  · rw [hplain i lit hrange hlit] at hother
    cases hother

theorem plain_of_meansLiterals (hlits : ∀ lit ∈ lits, (literalToken F lit).isSome = true)
    (hmeans : MeansLiterals F lits) (hi : i < 2 ^ 32) (hlit : lits[i]? = some lit) :
    plainLiteral lit = true := by
  obtain ⟨v, hv⟩ := literalValue_isSome (hlits lit (List.mem_of_getElem? hlit))
  rcases fromParameter_literal hv with ⟨hplain, -⟩ | ⟨-, hdiffer⟩
  · exact hplain
  · exfalso
    have hparse := parse_comparedWith (F := F) hi
    obtain ⟨e', hparse', heval⟩ := hmeans _ _ (fun _ => some v) hparse
    rw [parse_substitute hlits hparse] at hparse'
    cases hparse'
    simp [Expr.evaluate, Expr.substitute, Operand.substitute, resolveOperand, hlit, hv,
      Except.bind] at heval
    exact hdiffer heval

theorem fromParameter_string {t : List Char} (h : (Value.fromParameter s : Value F) = .string t) :
    t = trim s ∨ t.length < (trim s).length := by
  simp only [Value.fromParameter] at h
  split at h
  · cases h
  split at h
  · cases h
  split at h
  · cases h
  split at h
  · cases h
  split at h
  · cases h
  split at h
  · next hquoted =>
    cases h
    exact .inr (length_inside_lt hquoted)
  · cases h
    exact .inl rfl

theorem fromParameter_text (hint : parseI64 s = none) (hfloat : isFloatText s = false)
    (hword : s.map Char.toUpper ≠ ['T', 'R', 'U', 'E'] ∧
      s.map Char.toUpper ≠ ['F', 'A', 'L', 'S', 'E'] ∧ s ≠ ['n', 'u', 'l', 'l']) :
    (Value.fromParameter s : Value F) = .string s ↔ trim s = s ∧ isQuoted s = false := by
  by_cases htrim : trim s = s
  · have hread : (Value.fromParameter s : Value F) =
        if isQuoted s then .string (s.drop 1).dropLast else .string s := by
      simp only [Value.fromParameter, htrim, if_neg hword.1, if_neg hword.2.1, if_neg hword.2.2,
        hint, parseF64, hfloat, Bool.false_eq_true, if_false]
    rw [hread]
    cases hquoted : isQuoted s with
    | false => simp [htrim]
    | true =>
      have hshort := length_inside_lt hquoted
      constructor
      · intro h
        rw [Value.string.inj h] at hshort
        exact absurd hshort (lt_irrefl _)
      · rintro ⟨-, h⟩
        cases h
  · refine ⟨fun h => absurd ?_ htrim, fun h => absurd h.1 htrim⟩
    rcases fromParameter_string h with h | h
    · exact h.symm
    · have hle := length_trim_le s
      omega

/-- An expression means the same with its parameters and with literals in their place, for every
expression and every row, exactly where no parameter that an expression can name is a hexadecimal
number or a string with a quote in it; and a text that is no number and no word stands for itself
exactly where neither white space nor quotes are around it. -/
theorem parameters_mean_literals {lits : List (List Char)}
    (hlits : ∀ lit ∈ lits, (literalToken F lit).isSome = true) :
    (MeansLiterals F lits ↔
      ∀ i lit, i < 2 ^ 32 → lits[i]? = some lit → plainLiteral lit = true) ∧
    ∀ s, parseI64 s = none → isFloatText s = false →
      s.map Char.toUpper ≠ ['T', 'R', 'U', 'E'] ∧ s.map Char.toUpper ≠ ['F', 'A', 'L', 'S', 'E'] ∧
        s ≠ ['n', 'u', 'l', 'l'] →
      ((Value.fromParameter s : Value F) = .string s ↔ trim s = s ∧ isQuoted s = false) := by
  refine ⟨⟨fun hmeans i lit hi hlit => ?_, meansLiterals_of_plain hlits⟩, ?_⟩
  · exact plain_of_meansLiterals hlits hmeans hi hlit
  · intro s hint hfloat hword
    exact fromParameter_text hint hfloat hword

end Reading

/-- A quoted string and a negative number stand for their literals. -/
theorem quoted_and_negative_mean_literals :
    MeansLiterals ℚ [['\'', 'o', 'k', '\''], ['-', '7']] := by
  refine (parameters_mean_literals ?_).1.mpr ?_
  · decide +kernel
  · intro i lit _ hlit
    match i, hlit with
    | 0, hlit => cases hlit; rfl
    | 1, hlit => cases hlit; rfl

/-- A number in hexadecimal is a number as a literal and a text as a parameter. -/
theorem hexadecimal_parameter_is_text :
    (literalToken ℚ ['0', 'x', '1', 'F']).isSome = true ∧
      ¬ MeansLiterals ℚ [['0', 'x', '1', 'F']] := by
  refine ⟨by decide +kernel, fun hmeans => ?_⟩
  have hparse : parse ['a', ' ', '=', ' ', '%', '0'] =
      .ok (.cmp (.field ['a']) .eq (.param 0) : Expr ℚ) := by decide +kernel
  obtain ⟨e', he', heval⟩ := hmeans _ _ (fun _ => some (.int 31)) hparse
  cases he'
  revert heval
  decide +kernel

end ZeroDds.SqlFilter
