/-
The lexical grammar of filter expressions.
-/
import ZeroDds.Lib.Spans
import ZeroDds.SqlFilter.Lexer

namespace ZeroDds.SqlFilter

variable {F : Type}

/-! ### Symbols and words -/

/-- Parentheses and comparison signs, with the characters that would make another sign of them. -/
def symbols : List (List Char × Token F × List Char) :=
  [(['('], .lParen, []), ([')'], .rParen, []), (['='], .eq, []), (['!', '='], .neq, []),
    (['<', '>'], .neq, []), (['<', '='], .le, []), (['<'], .lt, ['>', '=']),
    (['>', '='], .ge, []), (['>'], .gt, ['='])]

def keywords : List (List Char × Token F) :=
  [(['A', 'N', 'D'], .and), (['O', 'R'], .or), (['N', 'O', 'T'], .not),
    (['L', 'I', 'K', 'E'], .like), (['B', 'E', 'T', 'W', 'E', 'E', 'N'], .between),
    (['T', 'R', 'U', 'E'], .boolLit true), (['F', 'A', 'L', 'S', 'E'], .boolLit false)]

inductive Word : List Char → Token F → Prop where
  | keyword {text upper : List Char} {tok : Token F} (hmem : (upper, tok) ∈ keywords)
      (htext : text.map Char.toUpper = upper) : Word text tok
  | null : Word ['n', 'u', 'l', 'l'] .null
  | name {text : List Char}
      (hword : text.map Char.toUpper ∉ (keywords : List (List Char × Token F)).map Prod.fst)
      (hnull : text ≠ ['n', 'u', 'l', 'l']) : Word text (.ident text)

/-! ### Quotes and subscripts -/

def escape (text : List Char) : List Char :=
  text.flatMap fun c => if c = '\'' then ['\'', '\''] else [c]

/-- What a field reference may hold besides one subscript of one line behind each name. -/
structure FieldRules where
  rows : Prop
  lines : Prop

inductive Subscript (rules : FieldRules) : List Char → List Char → Prop where
  | index {before digits after : List Char} (hbefore : ∀ c ∈ before, isBlank c = true)
      (hafter : ∀ c ∈ after, isBlank c = true) (hdigits : ∀ c ∈ digits, c.isDigit = true)
      (hone : digits ≠ []) (hrange : decimal digits < 2 ^ 32) :
      Subscript rules ('[' :: (before ++ (digits ++ (after ++ [']']))))
        ('[' :: (Nat.toDigits 10 (decimal digits) ++ [']']))
  | key {before key after : List Char} (hbefore : ∀ c ∈ before, isBlank c = true)
      (hafter : ∀ c ∈ after, isBlank c = true)
      (hlines : ('\n' ∈ key ∨ '\r' ∈ key) → rules.lines) :
      Subscript rules ('[' :: (before ++ ('\'' :: (escape key ++ '\'' :: (after ++ [']'])))))
        ('[' :: '\'' :: (escape key ++ ['\'', ']']))

/-- What follows a subscript in a field reference: names behind a point, and further subscripts. -/
inductive FieldTail (rules : FieldRules) : List Char → List Char → Prop where
  | nil : FieldTail rules [] []
  | names {run : List Char} (hrun : ∀ c ∈ run, isNameChar c = true) :
      FieldTail rules ('.' :: run) ('.' :: run)
  | subscript {run text plain tail plainTail : List Char} (hrun : ∀ c ∈ run, isNameChar c = true)
      (hsub : Subscript rules text plain) (htail : FieldTail rules tail plainTail) :
      FieldTail rules ('.' :: (run ++ (text ++ tail))) ('.' :: (run ++ (plain ++ plainTail)))
  | row {text plain tail plainTail : List Char} (hrows : rules.rows)
      (hsub : Subscript rules text plain) (htail : FieldTail rules tail plainTail) :
      FieldTail rules (text ++ tail) (plain ++ plainTail)

inductive Sign : List Char → Bool → Prop where
  | none : Sign [] false
  | plus : Sign ['+'] false
  | minus : Sign ['-'] true

inductive Fraction : List Char → Prop where
  | none : Fraction []
  | point {digits : List Char} (h : ∀ c ∈ digits, c.isDigit = true) : Fraction ('.' :: digits)

inductive Exponent : List Char → Prop where
  | none : Exponent []
  | power {e : Char} {sign digits : List Char} {negative : Bool} (he : e = 'e' ∨ e = 'E')
      (hsign : Sign sign negative) (h : ∀ c ∈ digits, c.isDigit = true) (hone : digits ≠ []) :
      Exponent (e :: (sign ++ digits))

/-- The characters that go on a number: digits, a point where there is none yet, the letter of a
power of ten where there is none yet. -/
def continuesNumber (fraction exponent : List Char) (c : Char) : Bool :=
  c.isDigit || (c == '.' && fraction.isEmpty && exponent.isEmpty) ||
    ((c == 'e' || c == 'E') && exponent.isEmpty)

inductive Lexeme [Doubles F] (rules : FieldRules) : List Char → Token F → List Char → Prop where
  | symbol {text stops rest : List Char} {tok : Token F} (hmem : (text, tok, stops) ∈ symbols)
      (hnext : StopsBefore (stops.contains ·) rest) : Lexeme rules text tok rest
  | param {digits rest : List Char} (hdigits : ∀ c ∈ digits, c.isDigit = true)
      (hone : digits ≠ []) (hrange : decimal digits < 2 ^ 32)
      (hnext : StopsBefore Char.isDigit rest) :
      Lexeme rules ('%' :: digits) (.param (decimal digits)) rest
  | string {text rest : List Char} (hlines : '\n' ∉ text ∧ '\r' ∉ text)
      (hnext : StopsBefore (· == '\'') rest) :
      Lexeme rules ('\'' :: (escape text ++ ['\''])) (.strLit text) rest
  | integer {sign digits rest : List Char} {negative : Bool} {n : Int} (hsign : Sign sign negative)
      (hdigits : ∀ c ∈ digits, c.isDigit = true) (hone : digits ≠ [])
      (hrange : toI64 (signed negative (decimal digits)) = some n)
      (hnext : StopsBefore (continuesNumber [] []) rest)
      (hhex : digits = ['0'] → StopsBefore (fun c => c == 'x' || c == 'X') rest) :
      Lexeme rules (sign ++ digits) (.intLit n) rest
  | hex {sign digits rest : List Char} {x : Char} {negative : Bool} {n : Int}
      (hsign : Sign sign negative) (hx : x = 'x' ∨ x = 'X')
      (hdigits : ∀ c ∈ digits, isHexDigit c = true) (hone : digits ≠ [])
      (hrange : toI64 (signed negative (hexadecimal digits)) = some n)
      (hnext : StopsBefore (fun c => c.isAlphanum || c == '_') rest) :
      Lexeme rules (sign ++ '0' :: x :: digits) (.intLit n) rest
  | float {sign whole fraction exponent rest : List Char} {negative : Bool}
      (hsign : Sign sign negative) (hwhole : ∀ c ∈ whole, c.isDigit = true) (hone : whole ≠ [])
      (hfraction : Fraction fraction) (hexponent : Exponent exponent)
      (hfloat : ¬ (fraction = [] ∧ exponent = []))
      (hnext : StopsBefore (continuesNumber fraction exponent) rest) :
      Lexeme rules (sign ++ (whole ++ (fraction ++ exponent)))
        (.floatLit (Doubles.ofText (sign ++ (whole ++ (fraction ++ exponent))))) rest
  | word {first : Char} {run rest : List Char} {tok : Token F} (hfirst : startsName first = true)
      (hrun : ∀ c ∈ run, isNameChar c = true) (hword : Word (first :: run) tok)
      (hnext : StopsBefore (fun c => isNameChar c || c == '[') rest) :
      Lexeme rules (first :: run) tok rest
  | field {first : Char} {run text plain tail plainTail rest : List Char}
      (hfirst : startsName first = true) (hrun : ∀ c ∈ run, isNameChar c = true)
      (hsub : Subscript rules text plain) (htail : FieldTail rules tail plainTail)
      (hnext : StopsBefore (fun c => isNameChar c || c == '[') rest) :
      Lexeme rules (first :: (run ++ (text ++ tail)))
        (.ident (first :: (run ++ (plain ++ plainTail)))) rest

inductive Lexes [Doubles F] (rules : FieldRules) : List Char → List (Token F) → Prop where
  | nil : Lexes rules [] []
  | blank {c : Char} {rest : List Char} {toks : List (Token F)} (hc : isBlank c = true)
      (h : Lexes rules rest toks) : Lexes rules (c :: rest) toks
  | lexeme {text rest : List Char} {tok : Token F} {toks : List (Token F)}
      (htext : Lexeme rules text tok rest) (h : Lexes rules rest toks) :
      Lexes rules (text ++ rest) (tok :: toks)

/-! ### Stricter and looser rules -/

section Mono

variable {rules rules' : FieldRules} {text plain rest input : List Char} {tok : Token F}

structure FieldRules.Le (rules rules' : FieldRules) : Prop where
  rows : rules.rows → rules'.rows
  lines : rules.lines → rules'.lines

section

variable (hle : rules.Le rules')
include hle

theorem Subscript.mono (h : Subscript rules text plain) :
    Subscript rules' text plain := by
  cases h with
  | index hbefore hafter hdigits hone hrange => exact .index hbefore hafter hdigits hone hrange
  | key hbefore hafter hlines => exact .key hbefore hafter fun hkey => hle.lines (hlines hkey)

theorem FieldTail.mono (h : FieldTail rules text plain) :
    FieldTail rules' text plain := by
  induction h with
  | nil => exact .nil
  | names hrun => exact .names hrun
  | subscript hrun hsub _ ih => exact .subscript hrun (hsub.mono hle) ih
  | row hrows hsub _ ih => exact .row (hle.rows hrows) (hsub.mono hle) ih

theorem Lexeme.mono [Doubles F] (h : Lexeme rules text tok rest) :
    Lexeme rules' text tok rest := by
  cases h with
  | symbol hmem hnext => exact .symbol hmem hnext
  | param hdigits hone hrange hnext => exact .param hdigits hone hrange hnext
  | string hlines hnext => exact .string hlines hnext
  | integer hsign hdigits hone hrange hnext hhex =>
    exact .integer hsign hdigits hone hrange hnext hhex
  | hex hsign hx hdigits hone hrange hnext => exact .hex hsign hx hdigits hone hrange hnext
  | float hsign hwhole hone hfraction hexponent hfloat hnext =>
    exact .float hsign hwhole hone hfraction hexponent hfloat hnext
  | word hfirst hrun hword hnext => exact .word hfirst hrun hword hnext
  | field hfirst hrun hsub htail hnext =>
    exact .field hfirst hrun (hsub.mono hle) (htail.mono hle) hnext

theorem Lexes.mono [Doubles F] {toks : List (Token F)}
    (h : Lexes rules input toks) : Lexes rules' input toks := by
  induction h with
  | nil => exact .nil
  | blank hc _ ih => exact .blank hc ih
  | lexeme htext _ ih => exact .lexeme (htext.mono hle) ih

end

end Mono

end ZeroDds.SqlFilter
