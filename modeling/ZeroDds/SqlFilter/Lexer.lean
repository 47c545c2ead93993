/-
The tokens of a filter expression.

Every scanner takes the text that is left and returns what it read of it and the text behind that.
-/
import ZeroDds.SqlFilter.Ast

namespace ZeroDds.SqlFilter

inductive Token (F : Type) where
  | ident (name : List Char)
  | strLit (text : List Char)
  | intLit (n : Int)
  | floatLit (f : F)
  | boolLit (b : Bool)
  | null
  | param (index : Nat)
  | eq
  | neq
  | lt
  | le
  | gt
  | ge
  | and
  | or
  | not
  | like
  | between
  | lParen
  | rParen
  deriving DecidableEq, Repr

inductive LexError where
  | emptyParameterIndex (left : List Char)
  | parameterIndexTooLarge (digits : List Char)
  | newLineInString (left : List Char)
  | unterminatedString
  | noHexDigits (left : List Char)
  | notHexadecimal (left : List Char)
  | notAnInteger (text : List Char)
  | notAFloat (text : List Char)
  | expectedDot (left : List Char)
  | subscriptWithoutName (left : List Char)
  | subscriptTooLarge (digits : List Char)
  | unterminatedKey
  | notASubscript (left : List Char)
  | expectedBracket (left : List Char)
  | unexpectedCharacter (left : List Char)
  deriving DecidableEq, Repr

def isBlank (c : Char) : Bool :=
  c == ' ' || c == '\t' || c == '\n' || c == '\x0C' || c == '\r'

variable {F : Type}

/-! ### Operators, parameters and strings -/

def scanSymbol : List Char → Option (Token F × List Char)
  | '(' :: rest => some (.lParen, rest)
  | ')' :: rest => some (.rParen, rest)
  | '=' :: rest => some (.eq, rest)
  | '!' :: '=' :: rest => some (.neq, rest)
  | '<' :: '>' :: rest => some (.neq, rest)
  | '<' :: '=' :: rest => some (.le, rest)
  | '<' :: rest => some (.lt, rest)
  | '>' :: '=' :: rest => some (.ge, rest)
  | '>' :: rest => some (.gt, rest)
  | _ => none

def scanParam (rest : List Char) : Except LexError (Nat × List Char) :=
  let digits := rest.takeWhile Char.isDigit
  if digits = [] then .error (.emptyParameterIndex ('%' :: rest))
  else match parseU32 digits with
    | none => .error (.parameterIndexTooLarge digits)
    | some index => .ok (index, rest.dropWhile Char.isDigit)

def consText (c : Char) (read : List Char × List Char) : List Char × List Char :=
  (c :: read.1, read.2)

def scanString : List Char → Except LexError (List Char × List Char)
  | [] => .error .unterminatedString
  | '\'' :: '\'' :: rest => (scanString rest).map (consText '\'')
  | '\'' :: rest => .ok ([], rest)
  | c :: rest =>
    if c = '\n' ∨ c = '\r' then .error (.newLineInString (c :: rest))
    else (scanString rest).map (consText c)

/-- What is read of a decimal number, the text behind it, and whether a point or a power of ten was
among it. -/
structure DecimalRun where
  run : List Char
  rest : List Char
  isFloat : Bool
  deriving DecidableEq, Repr

def DecimalRun.cons (c : Char) (read : DecimalRun) : DecimalRun :=
  { read with run := c :: read.run }

def scanDecimal (sawDot sawExp : Bool) : List Char → DecimalRun
  | [] => ⟨[], [], sawDot || sawExp⟩
  | d :: rest =>
    if d.isDigit then (scanDecimal sawDot sawExp rest).cons d
    else if d = '.' ∧ sawDot = false ∧ sawExp = false then (scanDecimal true sawExp rest).cons d
    else if (d = 'e' ∨ d = 'E') ∧ sawExp = false then
      match rest with
      | [] => ⟨[d], [], true⟩
      | s :: behind =>
        if s = '+' ∨ s = '-' then ((scanDecimal sawDot true behind).cons s).cons d
        else (scanDecimal sawDot true (s :: behind)).cons d
    else ⟨[], d :: rest, sawDot || sawExp⟩

def scanHex (input : List Char) (negative : Bool) (behind : List Char) :
    Except LexError (Token F × List Char) :=
  let digits := behind.takeWhile isHexDigit
  let rest := behind.dropWhile isHexDigit
  let text := input.take (input.length - rest.length)
  if digits = [] then .error (.noHexDigits input)
  else if rest.head?.any fun b => b.isAlphanum || b == '_' then .error (.notHexadecimal input)
  else match toI64 (signed negative (hexadecimal digits)) with
    | none => .error (.notAnInteger text)
    | some n => .ok (.intLit n, rest)

def scanNumber [Doubles F] (input : List Char) : Except LexError (Token F × List Char) :=
  let (negative, body) := splitSign input
  let sign := input.take (input.length - body.length)
  match body with
  | '0' :: 'x' :: behind => scanHex input negative behind
  | '0' :: 'X' :: behind => scanHex input negative behind
  | _ =>
    let read := scanDecimal false false body
    let text := sign ++ read.run
    if read.isFloat then
      match parseF64 text with
      | none => .error (.notAFloat text)
      | some f => .ok (.floatLit f, read.rest)
    else
      match parseI64 text with
      | none => .error (.notAnInteger text)
      | some n => .ok (.intLit n, read.rest)

/-! ### Fields and keywords -/

def isNameChar (c : Char) : Bool := c.isAlphanum || c == '_' || c == '.'

/-- A quoted key behind its opening quote, as it is written, up to its closing quote. -/
def scanKey : List Char → Except LexError (List Char × List Char)
  | [] => .error .unterminatedKey
  | '\'' :: '\'' :: rest => (scanKey rest).map fun read => consText '\'' (consText '\'' read)
  | '\'' :: rest => .ok (['\''], rest)
  | c :: rest => (scanKey rest).map (consText c)

def scanSubscript (input : List Char) : Except LexError (List Char × List Char) :=
  match input.dropWhile isBlank with
  | [] => .error (.notASubscript [])
  | c :: rest =>
    if c.isDigit then
      let digits := (c :: rest).takeWhile Char.isDigit
      match parseU32 digits with
      | none => .error (.subscriptTooLarge digits)
      | some index => .ok (Nat.toDigits 10 index, (c :: rest).dropWhile Char.isDigit)
    else if c = '\'' then (scanKey rest).map (consText '\'')
    else .error (.notASubscript (c :: rest))

def closeSubscript (read : List Char × List Char) : Except LexError (List Char × List Char) :=
  match read.2.dropWhile isBlank with
  | ']' :: rest => .ok ('[' :: read.1 ++ [']'], rest)
  | left => .error (.expectedBracket left)

/-- The text of a field reference, the text behind it and whether it has a subscript. `fuel` is at
least the length of what is left. -/
def scanField : Nat → Bool → List Char → List Char →
    Except LexError (List Char × List Char × Bool)
  | 0, subscripted, text, input => .ok (text, input, subscripted)
  | fuel + 1, subscripted, text, input =>
    let run := input.takeWhile isNameChar
    if subscripted = true ∧ run ≠ [] ∧ run.head? ≠ some '.' then .error (.expectedDot input)
    else match input.dropWhile isNameChar with
      | '[' :: inner =>
        if run = [] then .error (.subscriptWithoutName input)
        else (scanSubscript inner).bind fun read => (closeSubscript read).bind fun subscript =>
          scanField fuel true (text ++ run ++ subscript.1) subscript.2
      | rest => .ok (text ++ run, rest, subscripted)

def keyword (word : List Char) : Token F :=
  let upper := word.map Char.toUpper
  if upper = ['A', 'N', 'D'] then .and
  else if upper = ['O', 'R'] then .or
  else if upper = ['N', 'O', 'T'] then .not
  else if upper = ['L', 'I', 'K', 'E'] then .like
  else if upper = ['B', 'E', 'T', 'W', 'E', 'E', 'N'] then .between
  else if upper = ['T', 'R', 'U', 'E'] then .boolLit true
  else if upper = ['F', 'A', 'L', 'S', 'E'] then .boolLit false
  else if word = ['n', 'u', 'l', 'l'] then .null
  else .ident word

def startsNumber : List Char → Bool
  | [] => false
  | c :: rest => c.isDigit || ((c == '-' || c == '+') && rest.head?.any Char.isDigit)

def startsName (c : Char) : Bool := c.isAlpha || c == '_'

def lexToken [Doubles F] (input : List Char) : Except LexError (Token F × List Char) :=
  match scanSymbol input with
  | some read => .ok read
  | none =>
    match input with
    | '%' :: rest => (scanParam rest).map fun read => (.param read.1, read.2)
    | '\'' :: rest => (scanString rest).map fun read => (.strLit read.1, read.2)
    | _ =>
      if startsNumber input then scanNumber input
      else if input.head?.any startsName then
        (scanField input.length false [] input).map fun read =>
          (if read.2.2 then .ident read.1 else keyword read.1, read.2.1)
      else .error (.unexpectedCharacter input)

def tokenizeLoop [Doubles F] : Nat → List Char → Except LexError (List (Token F))
  | 0, _ => .ok []
  | _, [] => .ok []
  | fuel + 1, c :: rest =>
    if isBlank c then tokenizeLoop fuel rest
    else (lexToken (c :: rest)).bind fun read =>
      (tokenizeLoop fuel read.2).map (read.1 :: ·)

def tokenize [Doubles F] (input : List Char) : Except LexError (List (Token F)) :=
  tokenizeLoop input.length input

end ZeroDds.SqlFilter
