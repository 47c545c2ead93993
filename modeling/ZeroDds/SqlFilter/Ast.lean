/-
The expressions of a content filter.

Texts are lists of characters.
-/
import Mathlib

namespace ZeroDds.SqlFilter

/-- The doubles of the source. -/
class Doubles (F : Type) where
  /-- The number a text spells, where `isFloatText` accepts the text. -/
  ofText : List Char → F
  ofInt : Int → F
  sub : F → F → F
  abs : F → F
  epsilon : F
  lt : F → F → Bool
  le : F → F → Bool

/-! ### Numbers in texts -/

def numeral (radix : Nat) (digit : Char → Nat) (text : List Char) : Nat :=
  text.foldl (fun n c => n * radix + digit c) 0

def decimalDigit (c : Char) : Nat := c.toNat - '0'.toNat

def isHexDigit (c : Char) : Bool :=
  c.isDigit || ('a' ≤ c && c ≤ 'f') || ('A' ≤ c && c ≤ 'F')

def hexDigit (c : Char) : Nat :=
  if c.isDigit then c.toNat - '0'.toNat
  else if 'a' ≤ c then c.toNat - 'a'.toNat + 10
  else c.toNat - 'A'.toNat + 10

def decimal (digits : List Char) : Nat := numeral 10 decimalDigit digits

def hexadecimal (digits : List Char) : Nat := numeral 16 hexDigit digits

def parseU32 (digits : List Char) : Option Nat :=
  if decimal digits < 2 ^ 32 then some (decimal digits) else none

def toI64 (n : Int) : Option Int := if -2 ^ 63 ≤ n ∧ n < 2 ^ 63 then some n else none

def splitSign : List Char → Bool × List Char
  | '-' :: rest => (true, rest)
  | '+' :: rest => (false, rest)
  | text => (false, text)

def signed (negative : Bool) (magnitude : Nat) : Int :=
  if negative then -(magnitude : Int) else magnitude

def parseI64 (text : List Char) : Option Int :=
  let (negative, digits) := splitSign text
  if digits ≠ [] ∧ digits.all Char.isDigit then toI64 (signed negative (decimal digits)) else none

def isExponent : List Char → Bool
  | [] => true
  | c :: rest =>
    let digits := (splitSign rest).2
    (c == 'e' || c == 'E') && !digits.isEmpty && digits.all Char.isDigit

def isPlainNumber (text : List Char) : Bool :=
  let whole := text.takeWhile Char.isDigit
  match text.dropWhile Char.isDigit with
  | '.' :: rest =>
    let fraction := rest.takeWhile Char.isDigit
    (!whole.isEmpty || !fraction.isEmpty) && isExponent (rest.dropWhile Char.isDigit)
  | rest => !whole.isEmpty && isExponent rest

def isFloatText (text : List Char) : Bool :=
  let magnitude := (splitSign text).2
  isPlainNumber magnitude ||
    [['i', 'n', 'f'], ['i', 'n', 'f', 'i', 'n', 'i', 't', 'y'], ['n', 'a', 'n']].contains
      (magnitude.map Char.toLower)

section Ast

variable (F : Type)

inductive Value where
  | string (text : List Char)
  | int (n : Int)
  | float (f : F)
  | bool (b : Bool)
  | null
  deriving DecidableEq, Repr

inductive CmpOp where
  | eq
  | neq
  | lt
  | le
  | gt
  | ge
  | like
  deriving DecidableEq, Repr

inductive Operand where
  | literal (value : Value F)
  | field (name : List Char)
  | param (index : Nat)
  deriving DecidableEq, Repr

inductive Expr where
  | and (a b : Expr)
  | or (a b : Expr)
  | not (inner : Expr)
  | cmp (lhs : Operand F) (op : CmpOp) (rhs : Operand F)
  | between (field low high : Operand F) (negated : Bool)
  deriving DecidableEq, Repr

end Ast

variable {F : Type}

def parseF64 [Doubles F] (text : List Char) : Option F :=
  if isFloatText text then some (Doubles.ofText text) else none

def Operand.paramIndex : Operand F → List Nat
  | .param i => [i]
  | _ => []

namespace Expr

def depth : Expr F → Nat
  | .and a b | .or a b => 1 + max a.depth b.depth
  | .not inner => 1 + inner.depth
  | .cmp .. | .between .. => 1

def collectParamIndices : Expr F → List Nat
  | .and a b | .or a b => a.collectParamIndices ++ b.collectParamIndices
  | .not inner => inner.collectParamIndices
  | .cmp lhs _ rhs => lhs.paramIndex ++ rhs.paramIndex
  | .between field low high _ => field.paramIndex ++ low.paramIndex ++ high.paramIndex

end Expr

/-! ### Doubles that do not round -/

def exactNumber (text : List Char) : ℚ :=
  let (negative, body) := splitSign text
  let whole := body.takeWhile Char.isDigit
  let (fraction, behind) := match body.dropWhile Char.isDigit with
    | '.' :: rest => (rest.takeWhile Char.isDigit, rest.dropWhile Char.isDigit)
    | rest => ([], rest)
  let (down, power) := splitSign (behind.drop 1)
  let magnitude : ℚ := decimal (whole ++ fraction) / 10 ^ fraction.length
  (if negative then -1 else 1) *
    (if down then magnitude / 10 ^ decimal power else magnitude * 10 ^ decimal power)

instance exactDoubles : Doubles ℚ where
  ofText := exactNumber
  ofInt n := n
  sub := (· - ·)
  abs x := |x|
  epsilon := 1 / 2 ^ 52
  lt a b := decide (a < b)
  le a b := decide (a ≤ b)

end ZeroDds.SqlFilter
