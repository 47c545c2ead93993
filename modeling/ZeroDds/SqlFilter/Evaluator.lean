/-
The values of filter expressions.

An expression is evaluated against a row, which gives fields their values, and against the values of
its parameters.
-/
import ZeroDds.SqlFilter.Ast

namespace ZeroDds.SqlFilter

variable {F : Type}

def isWhitespace (c : Char) : Bool :=
  (0x09 ≤ c.toNat && c.toNat ≤ 0x0D) || (0x2000 ≤ c.toNat && c.toNat ≤ 0x200A) ||
    [0x20, 0x85, 0xA0, 0x1680, 0x2028, 0x2029, 0x202F, 0x205F, 0x3000].contains c.toNat

def trim (text : List Char) : List Char :=
  ((text.dropWhile isWhitespace).reverse.dropWhile isWhitespace).reverse

def isQuoted (text : List Char) : Bool :=
  2 ≤ text.length && text.head? == some '\'' && text.getLast? == some '\''

def Value.fromParameter [Doubles F] (s : List Char) : Value F :=
  let trimmed := trim s
  if trimmed.map Char.toUpper = ['T', 'R', 'U', 'E'] then .bool true
  else if trimmed.map Char.toUpper = ['F', 'A', 'L', 'S', 'E'] then .bool false
  else if trimmed = ['n', 'u', 'l', 'l'] then .null
  else match parseI64 trimmed with
    | some i => .int i
    | none =>
      match parseF64 trimmed with
      | some f => .float f
      | none =>
        if isQuoted trimmed then .string (trimmed.drop 1).dropLast else .string trimmed

inductive EvalError (F : Type) where
  | unknownField (name : List Char)
  | missingParam (index : Nat)
  | likeOnlyForString
  | typeMismatch (lhs : Value F) (op : CmpOp) (rhs : Value F)
  deriving DecidableEq, Repr

def asF64 [Doubles F] : Value F → Option F
  | .int n => some (Doubles.ofInt n)
  | .float f => some f
  | _ => none

def likeFirst : Bool → List Char → List Bool
  | _, [] => []
  | left, c :: pattern =>
    let here := c == '%' && left
    here :: likeFirst here pattern

def likeRow (s : Char) : Bool → List Bool → List Char → List Bool
  | left, corner :: above :: row, c :: pattern =>
    let here :=
      if c = '%' then above || left
      else if c = '_' ∨ c = s then corner
      else false
    here :: likeRow s here (above :: row) pattern
  | _, _, _ => []

def likeMatch (text pattern : List Char) : Bool :=
  let table := text.foldl (fun row s => false :: likeRow s false row pattern)
    (true :: likeFirst true pattern)
  table.getLast? == some true

def cmpNull (op : CmpOp) (both : Bool) : Bool :=
  match op with
  | .eq => both
  | .neq => !both
  | _ => false

def cmpInt (l : Int) (op : CmpOp) (r : Int) : Except (EvalError F) Bool :=
  match op with
  | .eq => .ok (l == r)
  | .neq => .ok (l != r)
  | .lt => .ok (decide (l < r))
  | .le => .ok (decide (l ≤ r))
  | .gt => .ok (decide (r < l))
  | .ge => .ok (decide (r ≤ l))
  | .like => .error .likeOnlyForString

def cmpFloat [Doubles F] (l : F) (op : CmpOp) (r : F) : Except (EvalError F) Bool :=
  let apart := Doubles.abs (Doubles.sub l r)
  match op with
  | .eq => .ok (Doubles.lt apart Doubles.epsilon)
  | .neq => .ok (Doubles.le Doubles.epsilon apart)
  | .lt => .ok (Doubles.lt l r)
  | .le => .ok (Doubles.le l r)
  | .gt => .ok (Doubles.lt r l)
  | .ge => .ok (Doubles.le r l)
  | .like => .error .likeOnlyForString

def cmpString (l : List Char) (op : CmpOp) (r : List Char) : Bool :=
  match op with
  | .eq => l == r
  | .neq => l != r
  | .lt => decide (l < r)
  | .le => decide (l ≤ r)
  | .gt => decide (r < l)
  | .ge => decide (r ≤ l)
  | .like => likeMatch l r

def cmpFlag (b : Bool) (op : CmpOp) (n : Int) : Option Bool :=
  if n = 0 ∨ n = 1 then
    match op with
    | .eq => some ((n == 1) == b)
    | .neq => some (!((n == 1) == b))
    | _ => none
  else none

def cmpValues [Doubles F] (lhs : Value F) (op : CmpOp) (rhs : Value F) :
    Except (EvalError F) Bool :=
  match lhs, rhs with
  | .int l, .int r => cmpInt l op r
  | .string l, .string r => .ok (cmpString l op r)
  | .bool l, .bool r =>
    match op with
    | .eq => .ok (l == r)
    | .neq => .ok (l != r)
    | _ => .error (.typeMismatch lhs op rhs)
  | .bool b, .int n | .int n, .bool b =>
    match cmpFlag b op n with
    | some result => .ok result
    | none => .error (.typeMismatch lhs op rhs)
  | _, _ =>
    match asF64 lhs, asF64 rhs with
    | some l, some r => cmpFloat l op r
    | _, _ => .error (.typeMismatch lhs op rhs)

def Value.isNull : Value F → Bool
  | .null => true
  | _ => false

def cmp [Doubles F] (lhs : Value F) (op : CmpOp) (rhs : Value F) : Except (EvalError F) Bool :=
  if lhs.isNull || rhs.isNull then .ok (cmpNull op (lhs.isNull && rhs.isNull))
  else cmpValues lhs op rhs

abbrev Row (F : Type) := List Char → Option (Value F)

def resolveOperand (op : Operand F) (row : Row F) (params : List (Value F)) :
    Except (EvalError F) (Value F) :=
  match op with
  | .literal v => .ok v
  | .field name =>
    match row name with
    | some v => .ok v
    | none => .error (.unknownField name)
  | .param i =>
    match params[i]? with
    | some v => .ok v
    | none => .error (.missingParam i)

def inBounds [Doubles F] (f lo hi : Value F) (negated : Bool) : Except (EvalError F) Bool :=
  if [f, lo, hi].any Value.isNull then .ok false
  else
    (cmp f .ge lo).bind fun above =>
      (if above then cmp f .le hi else .ok false).map fun inside =>
        if negated then !inside else inside

def Expr.evaluate [Doubles F] (row : Row F) (params : List (Value F)) :
    Expr F → Except (EvalError F) Bool
  | .and a b => (a.evaluate row params).bind fun left =>
      if left then b.evaluate row params else .ok false
  | .or a b => (a.evaluate row params).bind fun left =>
      if left then .ok true else b.evaluate row params
  | .not inner => (inner.evaluate row params).map (!·)
  | .cmp lhs op rhs => (resolveOperand lhs row params).bind fun l =>
      (resolveOperand rhs row params).bind fun r => SqlFilter.cmp l op r
  | .between field low high negated => (resolveOperand field row params).bind fun f =>
      (resolveOperand low row params).bind fun lo =>
        (resolveOperand high row params).bind fun hi => inBounds f lo hi negated

end ZeroDds.SqlFilter
