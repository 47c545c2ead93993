/-
The plan of a MultiTopic.

A MultiTopic names topics, a list of fields and a condition.
-/
import Mathlib.Data.String.Basic
import ZeroDds.Dcps.Types

namespace ZeroDds.MultiTopic

open Dcps (KeyHash Time InstanceHandle InstanceStateKind)
open Rtps (Octets)

inductive PrimitiveKind where
  | boolean
  | octet
  | char
  | wchar
  | int8
  | uint8
  | int16
  | uint16
  | int32
  | uint32
  | int64
  | uint64
  | float32
  | float64
  | float128
  deriving DecidableEq

/-- A value of a type known only at run time.  Floating-point values are kept as
their bits. -/
inductive DynamicData where
  | boolean (value : Bool)
  | integer (kind : Option PrimitiveKind) (value : Int)
  | float (kind : Option PrimitiveKind) (value : BitVec 64)
  | longDouble (value : BitVec 128)
  | character (kind : PrimitiveKind) (value : String)
  | text (value : String)
  | fixed (value : String)
  | enumerator (name : String)
  | bits (names : List DynamicData)
  | bitfields (entries : List (String × DynamicData))
  | collection (items : List DynamicData)
  | aggregate (entries : List (String × DynamicData))

abbrev Row := List (String × DynamicData)

/-- IEEE equality of two values with `m` mantissa bits and the rest, less the sign,
exponent: a NaN equals nothing and the two zeros equal each other. -/
def ieeeEq {w : Nat} (m : Nat) (a b : BitVec w) : Bool :=
  let magnitude (x : BitVec w) := x.toNat % 2 ^ (w - 1)
  let infinity := 2 ^ (w - 1) - 2 ^ m
  decide (magnitude a ≤ infinity) && decide (magnitude b ≤ infinity) &&
    (decide (a = b) || (magnitude a == 0 && magnitude b == 0))

namespace DynamicData

mutual

def eq : DynamicData → DynamicData → Bool
  | boolean a, boolean b => a == b
  | integer k a, integer l b => decide (k = l) && a == b
  | float k a, float l b => decide (k = l) && ieeeEq 52 a b
  | longDouble a, longDouble b => ieeeEq 112 a b
  | character k a, character l b => decide (k = l) && a == b
  | text a, text b => a == b
  | fixed a, fixed b => a == b
  | enumerator a, enumerator b => a == b
  | bits as, bits bs => eqItems as bs
  | bitfields as, bitfields bs => eqEntries as bs
  | collection as, collection bs => eqItems as bs
  | aggregate as, aggregate bs => eqEntries as bs
  | _, _ => false

def eqItems : List DynamicData → List DynamicData → Bool
  | [], [] => true
  | a :: as, b :: bs => eq a b && eqItems as bs
  | _, _ => false

def eqEntries : List (String × DynamicData) → List (String × DynamicData) → Bool
  | [], [] => true
  | (m, a) :: as, (n, b) :: bs => m == n && eq a b && eqEntries as bs
  | _, _ => false

end

def members : DynamicData → Option Row
  | aggregate entries => some entries
  | bitfields entries => some entries
  | _ => none

end DynamicData

def Row.value (row : Row) (name : String) : Option DynamicData :=
  (row.find? (fun e => e.1 == name)).map Prod.snd

def DynamicData.member (data : DynamicData) (name : String) : Option DynamicData :=
  data.members.bind (Row.value · name)

def segments (path : String) : List String := (path.toList.splitOn '.').map String.ofList

def firstSegment (path : String) : String := (segments path).headD ""

def afterFirst (path : String) : Option String :=
  if (firstSegment path).toList.length < path.toList.length then
    some (String.ofList (path.toList.drop ((firstSegment path).toList.length + 1)))
  else none

def valueBelow (data : DynamicData) (names : List String) : Option DynamicData :=
  names.foldlM (fun d name => d.member name) data

def valueAt (data : DynamicData) (path : String) : Option DynamicData :=
  valueBelow data (segments path)

inductive TypeKind where
  | noType | boolean | byte | int8 | uint8 | int16 | uint16 | int32 | uint32 | int64 | uint64
  | float32 | float64 | float128 | char8 | char16 | string8 | string16
  | enumeration | bitmask | aliasType | array | sequence | map | structureType | union | bitset
  | annotation
  deriving DecidableEq

structure DynamicTypeMember (τ : Type) where
  name : String
  dynamicType : Except String τ
  isOptional : Bool

/-- What the plan asks of a type object. -/
class DynamicTypes (τ : Type) where
  resolveAlias : τ → Except String τ
  kind : τ → TypeKind
  qualifiedName : τ → String
  baseType : τ → Option τ
  members : τ → List (DynamicTypeMember τ)
  equalsIgnoringAnnotations : τ → τ → Bool

/-- A sample in the form of its type's support: its value, its body on the wire and,
for a keyed type, its key hash and key holder. -/
structure SerializedSample where
  data : DynamicData
  body : Octets
  key : Option (KeyHash × Octets)

structure SerializedTypeSupport (τ : Type) where
  getType : Except String τ
  fromDynamicData : DynamicData → Except String SerializedSample

structure PlanError where
  what : String
  detail : String
  deriving DecidableEq

variable {τ : Type} [DynamicTypes τ]

def aggregateType (support : SerializedTypeSupport τ) (what : String) : Except PlanError τ :=
  match support.getType with
  | .error e => .error ⟨"multitopic: the type of a topic cannot be read", what ++ ": " ++ e⟩
  | .ok type =>
    match DynamicTypes.resolveAlias type with
    | .error e => .error ⟨"multitopic: the type of a topic cannot be read", what ++ ": " ++ e⟩
    | .ok type =>
      if DynamicTypes.kind type = .structureType then .ok type
      else .error ⟨"multitopic: the type of a topic is not a structure",
        what ++ " has the type " ++ DynamicTypes.qualifiedName type⟩

def maxBaseDepth : Nat := 64

/-- The fields of a structure, those of its base structures first, at most `depth`
bases deep. -/
def membersTo : Nat → τ → List (DynamicTypeMember τ)
  | 0, type => DynamicTypes.members type
  | depth + 1, type =>
    (((DynamicTypes.baseType type).bind
      (fun base => (DynamicTypes.resolveAlias base).toOption)).elim [] (membersTo depth)) ++
      DynamicTypes.members type

def allMembers (type : τ) : List (DynamicTypeMember τ) := membersTo maxBaseDepth type

def findMember (type : τ) (name : String) : Option (DynamicTypeMember τ) :=
  (allMembers type).find? (fun m => m.name == name)

def typeBelow (type : τ) (names : List String) : Option τ :=
  names.foldlM (fun t name =>
    (DynamicTypes.resolveAlias t).toOption.bind fun s =>
      (findMember s name).bind fun m => m.dynamicType.toOption) type

def typeAt (root : τ) (path : String) : Option τ :=
  (DynamicTypes.resolveAlias root).toOption.bind (typeBelow · (segments path))

inductive PathStep where
  | member (name : String)
  | index (n : Nat)
  | key (name : String)

/-- What the plan and the engine ask of the SQL of a condition: the fields it reads,
the steps of a field reference, its value on a row given the parameters, and the
value a field reference names in a `DynamicData`. -/
class SqlFilter (Expr : Type) (Value : outParam Type) where
  collectFields : Expr → List String
  splitPath : String → Option (List PathStep)
  evaluate : Expr → (String → Option Value) → List Value → Except String Bool
  dynamicFieldValue : DynamicData → String → Option Value

structure SubjectField where
  field : String
  aliasName : Option String
  deriving DecidableEq

def SubjectField.name (f : SubjectField) : String := f.aliasName.getD f.field

inductive Select where
  | all
  | fields (fields : List SubjectField)

structure TopicExpression (Expr : Type) where
  select : Select
  condition : Option Expr

structure SourceTopic (τ : Type) where
  name : String
  support : SerializedTypeSupport τ

/-- One field of the result: the field of the joined row, dotted for a nested member,
and its name in the result. -/
structure Output where
  path : String
  name : String
  deriving DecidableEq

structure MultiTopicPlan (τ Expr : Type) where
  topics : List (SourceTopic τ)
  members : List (List String)
  /-- The columns of the joined row, each name once. -/
  columns : List String
  /-- The member names each pair of topics `(a, b)` with `a < b` shares. -/
  shared : SortedMap (Nat ×ₗ Nat) (List String)
  outputs : List Output
  /-- The fields with another name in the result, which the condition may use. -/
  aliases : List Output
  condition : Option Expr
  result : SerializedTypeSupport τ

/-! ### Working out the plan -/

structure Columns (τ : Type) where
  members : List (List String)
  columnTypes : SortedMap String τ
  columns : List String

def Columns.start : Columns τ := ⟨[], .empty, []⟩

def Columns.addMember (topic : String) (c : Columns τ) (m : DynamicTypeMember τ) :
    Except PlanError (Columns τ) :=
  match m.dynamicType with
  | .error e => .error ⟨"multitopic: the type of a topic cannot be read",
      topic ++ "." ++ m.name ++ ": " ++ e⟩
  | .ok memberType =>
    match c.columnTypes.get? m.name with
    | none => .ok { c with
        columnTypes := c.columnTypes.insert m.name memberType
        columns := c.columns ++ [m.name] }
    | some seen =>
      if DynamicTypes.equalsIgnoringAnnotations seen memberType then .ok c
      else .error ⟨"multitopic: topics share a member name but not its type",
        "the member '" ++ m.name ++ "' of '" ++ topic ++
          "' has another type than in an earlier topic of the FROM clause"⟩

def Columns.addTopic (c : Columns τ) (topic : SourceTopic τ) : Except PlanError (Columns τ) := do
  let type ← aggregateType topic.support topic.name
  let c ← (allMembers type).foldlM (Columns.addMember topic.name) c
  return { c with members := c.members ++ [(allMembers type).map DynamicTypeMember.name] }

def sharedNames (members : List (List String)) (p : Nat × Nat) : List String :=
  (members.getD p.1 []).filter ((members.getD p.2 []).contains ·)

def topicPairs (n : Nat) : List (Nat × Nat) :=
  (List.range n).flatMap fun a => (List.range' (a + 1) (n - (a + 1))).map fun b => (a, b)

def sharedOf (members : List (List String)) : SortedMap (Nat ×ₗ Nat) (List String) :=
  (topicPairs members.length).foldl (fun shared p =>
    if (sharedNames members p).isEmpty then shared
    else shared.insert (toLex p) (sharedNames members p)) .empty

def outputOf (columnTypes : SortedMap String τ) (f : SubjectField) : Except PlanError Output :=
  match columnTypes.get? (firstSegment f.field) with
  | none => .error ⟨"multitopic: a field of the SELECT list is a member of no topic",
      "'" ++ f.field ++ "' is a member of none of the topics"⟩
  | some columnType =>
    if (typeAt columnType ((afterFirst f.field).getD "")).isNone &&
        decide ((firstSegment f.field).toList.length < f.field.toList.length) then
      .error ⟨"multitopic: a field of the SELECT list is a member of no topic",
        "'" ++ f.field ++ "' has no such nested member"⟩
    else .ok ⟨f.field, f.name⟩

def outputsOf (c : Columns τ) : Select → Except PlanError (List Output)
  | .all => .ok (c.columns.map fun column => ⟨column, column⟩)
  | .fields fields => fields.mapM (outputOf c.columnTypes)

variable {Expr Value : Type} [SqlFilter Expr Value]

def checkField (c : Columns τ) (aliases : List Output) (path : String)
    (steps : Option (List PathStep)) : Except PlanError Unit :=
  match steps.bind List.head? with
  | some (.member first) =>
    if c.columnTypes.contains first || aliases.any (fun a => a.name == first) then .ok ()
    else .error ⟨"multitopic: the WHERE condition reads a field no topic has",
      "'" ++ path ++ "': no topic of the FROM clause has a member '" ++ first ++
        "' and no field is called so in the SELECT list"⟩
  | _ => .error ⟨"multitopic: the WHERE condition reads a field no topic has",
      "'" ++ path ++ "' is not a field name"⟩

def checkCondition (c : Columns τ) (aliases : List Output) (condition : Option Expr) :
    Except PlanError Unit :=
  match condition with
  | none => .ok ()
  | some expr => (SqlFilter.collectFields expr).forM fun path =>
      checkField c aliases path (SqlFilter.splitPath Expr path)

def sourceType (columnTypes : SortedMap String τ) (path : String) : Option τ :=
  (columnTypes.get? (firstSegment path)).bind fun t =>
    match (afterFirst path).filter (fun rest => !rest.isEmpty) with
    | none => some t
    | some rest => typeAt t rest

def checkOutput (columnTypes : SortedMap String τ) (resultType : τ) (o : Output) :
    Except PlanError Unit :=
  match findMember resultType o.name with
  | none => .error ⟨"multitopic: the result type has no member for a field of the SELECT list",
      "the result type " ++ DynamicTypes.qualifiedName resultType ++ " has no member '" ++
        o.name ++ "'"⟩
  | some m =>
    match sourceType columnTypes o.path with
    | none => .error ⟨"multitopic: a field of the SELECT list is a member of no topic",
        "'" ++ o.path ++ "'"⟩
    | some source =>
      match m.dynamicType with
      | .error e => .error ⟨"multitopic: the type of the result cannot be read",
          o.name ++ ": " ++ e⟩
      | .ok target =>
        if DynamicTypes.equalsIgnoringAnnotations source target then .ok ()
        else .error ⟨"multitopic: a member of the result type has another type than its field",
          "the field '" ++ o.path ++ "' has the type " ++ DynamicTypes.qualifiedName source ++
            ", the member '" ++ o.name ++ "' the type " ++ DynamicTypes.qualifiedName target⟩

def checkFilled (outputs : List Output) (m : DynamicTypeMember τ) : Except PlanError Unit :=
  if !m.isOptional && !outputs.any (fun o => o.name == m.name) then
    .error ⟨"multitopic: a member of the result type has no field in the SELECT list",
      "the member '" ++ m.name ++ "' is not filled"⟩
  else .ok ()

def MultiTopicPlan.new (expression : TopicExpression Expr) (topics : List (SourceTopic τ))
    (result : SerializedTypeSupport τ) : Except PlanError (MultiTopicPlan τ Expr) := do
  let c ← topics.foldlM Columns.addTopic Columns.start
  let outputs ← outputsOf c expression.select
  let aliases := outputs.filter (fun o => o.path ≠ o.name)
  checkCondition c aliases expression.condition
  let resultType ← aggregateType result "the result type"
  outputs.forM (checkOutput c.columnTypes resultType)
  (allMembers resultType).forM (checkFilled outputs)
  return { topics, members := c.members, columns := c.columns, shared := sharedOf c.members
           outputs, aliases, condition := expression.condition, result }

end ZeroDds.MultiTopic
