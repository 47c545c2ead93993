/-
The recursive-descent parser of filter expressions.

A parser takes the tokens that are left and returns what it read of them and the tokens behind.
-/
import ZeroDds.SqlFilter.Lexer

namespace ZeroDds.SqlFilter

variable {F : Type}

inductive ParseError (F : Type) where
  | lex (e : LexError)
  | trailingToken (position : Nat)
  | expectedRParen
  | expectedAnd
  | expectedComparison (got : Option (Token F))
  | unexpectedEnd
  | expectedOperand (got : Token F)
  | nestedTooDeep
  deriving DecidableEq, Repr

abbrev Parse (F α : Type) := Except (ParseError F) (α × List (Token F))

def parseOperand : List (Token F) → Parse F (Operand F)
  | [] => .error .unexpectedEnd
  | .strLit s :: rest => .ok (.literal (.string s), rest)
  | .intLit n :: rest => .ok (.literal (.int n), rest)
  | .floatLit f :: rest => .ok (.literal (.float f), rest)
  | .boolLit b :: rest => .ok (.literal (.bool b), rest)
  | .null :: rest => .ok (.literal .null, rest)
  | .ident name :: rest => .ok (.field name, rest)
  | .param i :: rest => .ok (.param i, rest)
  | other :: _ => .error (.expectedOperand other)

def Token.cmpOp : Token F → Option CmpOp
  | .eq => some .eq
  | .neq => some .neq
  | .lt => some .lt
  | .le => some .le
  | .gt => some .gt
  | .ge => some .ge
  | .like => some .like
  | _ => none

def parseComparisonOp : List (Token F) → Parse F CmpOp
  | [] => .error (.expectedComparison none)
  | tok :: rest =>
    match tok.cmpOp with
    | some op => .ok (op, rest)
    | none => .error (.expectedComparison (some tok))

def parseBounds (field : Operand F) (negated : Bool) (toks : List (Token F)) : Parse F (Expr F) :=
  (parseOperand toks).bind fun low =>
    match low.2 with
    | .and :: rest => (parseOperand rest).map fun high =>
        (.between field low.1 high.1 negated, high.2)
    | _ => .error .expectedAnd

def parseCmp (toks : List (Token F)) : Parse F (Expr F) :=
  (parseOperand toks).bind fun lhs =>
    match lhs.2 with
    | .not :: .between :: rest => parseBounds lhs.1 true rest
    | .between :: rest => parseBounds lhs.1 false rest
    | rest => (parseComparisonOp rest).bind fun op =>
        (parseOperand op.2).map fun rhs => (.cmp lhs.1 op.1 rhs.1, rhs.2)

def Token.isOr : Token F → Bool
  | .or => true
  | _ => false

def Token.isAnd : Token F → Bool
  | .and => true
  | _ => false

/-- What follows a first operand: as often as a `connective` stands next, another operand. `fuel` is
at least the number of tokens left. -/
def parseChain (connective : Token F → Bool) (combine : Expr F → Expr F → Expr F)
    (next : List (Token F) → Parse F (Expr F)) :
    Nat → Expr F → List (Token F) → Parse F (Expr F)
  | 0, left, toks => .ok (left, toks)
  | _, left, [] => .ok (left, [])
  | fuel + 1, left, tok :: toks =>
    if connective tok then
      (next toks).bind fun right =>
        parseChain connective combine next fuel (combine left right.1) right.2
    else .ok (left, tok :: toks)

mutual

def parseOr : Nat → List (Token F) → Parse F (Expr F)
  | 0, _ => .error .nestedTooDeep
  | n + 1, toks =>
    (parseAnd n toks).bind fun left =>
      parseChain Token.isOr .or (parseAnd n) left.2.length left.1 left.2

def parseAnd : Nat → List (Token F) → Parse F (Expr F)
  | 0, _ => .error .nestedTooDeep
  | n + 1, toks =>
    (parseNot n toks).bind fun left =>
      parseChain Token.isAnd .and (parseNot n) left.2.length left.1 left.2

def parseNot : Nat → List (Token F) → Parse F (Expr F)
  | 0, _ => .error .nestedTooDeep
  | n + 1, toks =>
    match toks with
    | .not :: rest => (parseNot n rest).map fun inner => (.not inner.1, inner.2)
    | _ => parseAtom n toks

def parseAtom : Nat → List (Token F) → Parse F (Expr F)
  | 0, _ => .error .nestedTooDeep
  | n + 1, toks =>
    match toks with
    | .lParen :: rest =>
      (parseOr n rest).bind fun inner =>
        match inner.2 with
        | .rParen :: behind => .ok (inner.1, behind)
        | _ => .error .expectedRParen
    | _ => parseCmp toks

end

def parseTokens (nesting : Nat) (toks : List (Token F)) : Except (ParseError F) (Expr F) :=
  (parseOr nesting toks).bind fun expr =>
    match expr.2 with
    | [] => .ok expr.1
    | rest => .error (.trailingToken (toks.length - rest.length))

def nestingRoom (count : Nat) : Nat := 4 * count + 4

def parse [Doubles F] (input : List Char) : Except (ParseError F) (Expr F) :=
  match tokenize input with
  | .error e => .error (.lex e)
  | .ok toks => parseTokens (nestingRoom toks.length) toks

end ZeroDds.SqlFilter
