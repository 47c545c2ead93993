/-
Assignability of one type to another.
-/
import ZeroDds.Types.Check
import ZeroDds.Types.ToMinimal

namespace ZeroDds.Types

open Check

inductive InheritanceError where
  | unknownBase (hash : EquivalenceHash)
  | baseNotAStruct
  | cycle
  | depthExceeded (limit : Nat)
  | inheritanceConflict (memberId : MemberId) (reason : String)
deriving DecidableEq

def inheritanceChain (reg : TypeRegistry) (limit : Nat) :
    Nat → MinimalStructType → List EquivalenceHash →
      Except InheritanceError (List MinimalStructType)
  | 0, _, _ => .error (.depthExceeded limit)
  | rounds + 1, current, visited =>
    if current.baseType = .none then .ok [current]
    else
      match current.baseType.hash? with
      | none => .error .baseNotAStruct
      | some hash =>
        if visited.contains hash then .error .cycle
        else
          match reg.getMinimal hash with
          | some (.struct base) =>
            (inheritanceChain reg limit rounds base (hash :: visited)).map (current :: ·)
          | some _ => .error .baseNotAStruct
          | none => .error (.unknownBase hash)

def addMember (members : List MinimalStructMember) (m : MinimalStructMember) :
    Except InheritanceError (List MinimalStructMember) :=
  if members.any (·.common.memberId = m.common.memberId) then
    .error (.inheritanceConflict m.common.memberId "member_id collides between base and derived")
  else if members.any (·.detail = m.detail) then
    .error (.inheritanceConflict m.common.memberId
      "member name_hash collides between base and derived")
  else .ok (members ++ [m])

def flattenInheritance (s : MinimalStructType) (reg : TypeRegistry) (maxDepth : Nat) :
    Except InheritanceError MinimalStructType := do
  let chain ← inheritanceChain reg maxDepth maxDepth s []
  let members ← (chain.reverse.flatMap (·.memberSeq)).foldlM addMember []
  return { s with baseType := .none, memberSeq := members }

/-! ### Identifiers by kind -/

/-- The kind of an identifier and its parts; small and large forms differ in encoding only. -/
inductive Shape where
  | primitive (kind : PrimitiveKind)
  | string8 (bound : Nat)
  | string16 (bound : Nat)
  | sequence (element : TypeIdentifier) (bound : Nat)
  | array (element : TypeIdentifier) (bounds : List Nat)
  | map (element key : TypeIdentifier) (bound : Nat)
  | hashMinimal (hash : EquivalenceHash)
  | hashComplete (hash : EquivalenceHash)
  | component (scc : StronglyConnectedComponentId)
  | other

def TypeIdentifier.shape : TypeIdentifier → Shape
  | .primitive kind => .primitive kind
  | .string8Small bound | .string8Large bound => .string8 bound
  | .string16Small bound | .string16Large bound => .string16 bound
  | .plainSequenceSmall _ bound element | .plainSequenceLarge _ bound element =>
    .sequence element bound
  | .plainArraySmall _ bounds element | .plainArrayLarge _ bounds element => .array element bounds
  | .plainMapSmall _ bound element _ key | .plainMapLarge _ bound element _ key =>
    .map element key bound
  | .equivalenceHashMinimal hash => .hashMinimal hash
  | .equivalenceHashComplete hash => .hashComplete hash
  | .stronglyConnectedComponent scc => .component scc
  | .none | .extended _ _ => .other

def boundExceeds (writer reader : Nat) : Bool :=
  if reader = 0 then false else writer = 0 || writer > reader

def primitiveCompatible (w r : PrimitiveKind) : Assignable :=
  if w = r then .yes else .no "primitive kinds differ (XTypes 1.3 Table 15)"

def bitmaskUintCompatible (bitBound : Option Nat) (p : PrimitiveKind) : Assignable :=
  match bitBound with
  | none => .no "kinds do not match"
  | some bound =>
    let holder : Option PrimitiveKind :=
      if 1 ≤ bound ∧ bound ≤ 8 then some .uint8
      else if 9 ≤ bound ∧ bound ≤ 16 then some .uint16
      else if 17 ≤ bound ∧ bound ≤ 32 then some .uint32
      else if 33 ≤ bound ∧ bound ≤ 64 then some .uint64
      else none
    match holder with
    | none => .no "bitmask bit_bound is outside 1..=64"
    | some holder =>
      if holder = p then .yes
      else .no "bitmask bit_bound does not match the integer width (XTypes 1.3 Table 15)"

def keyLengthOf (ti : TypeIdentifier) : Option Nat :=
  match ti.shape with
  | .string8 bound | .string16 bound | .sequence _ bound | .map _ _ bound => some bound
  | _ => none

inductive StructExt where
  | final
  | appendable
  | mutable
deriving DecidableEq

def structExtensibility (flags : UInt16) : StructExt :=
  if hasFlag flags TypeFlag.isFinal then .final
  else if hasFlag flags TypeFlag.isMutable then .mutable
  else .appendable

def mustNotBeMissing (flags : UInt16) : Bool :=
  (hasFlag flags MemberFlag.isMustUnderstand && !hasFlag flags MemberFlag.isOptional) ||
    hasFlag flags MemberFlag.isKey

def keyErased : MinimalTypeObject → MinimalTypeObject
  | .struct s =>
    .struct { s with
      memberSeq := s.memberSeq.map fun m =>
        { m with common.memberFlags := m.common.memberFlags &&& ~~~MemberFlag.isKey } }
  | .union u =>
    .union { u with
      discriminator.memberFlags := u.discriminator.memberFlags &&& ~~~MemberFlag.isKey }
  | other => other

/-! ### Checks of one level -/

def checkEnumerations (cfg : AssignabilityConfig) (w r : MinimalEnumeratedType) : Check :=
  let mask := TypeFlag.isFinal ||| TypeFlag.isAppendable ||| TypeFlag.isMutable
  let wExt := w.enumFlags &&& mask
  let rExt := r.enumFlags &&& mask
  let ignoreNames := cfg.ignoreLiteralNames ||
    (hasFlag w.enumFlags TypeFlag.ignoreLiteralNames &&
      hasFlag r.enumFlags TypeFlag.ignoreLiteralNames)
  (Check.require (structExtensibility wExt = structExtensibility rExt)
      "enum extensibility mismatch").andThen <|
  (Check.require (w.bitBound = r.bitBound) "enum bit_bound mismatch").andThen <|
  if hasFlag (wExt ||| rExt) TypeFlag.isFinal then
    (Check.require (w.literalSeq.length = r.literalSeq.length)
        "final enum literal count mismatch").andThen <|
    Check.all (fun wl : MinimalEnumeratedLiteral =>
      Check.require (r.literalSeq.any fun rl =>
          rl.common.value = wl.common.value && (ignoreNames || rl.detail = wl.detail))
        "final enum: a writer literal is not in the reader") w.literalSeq
  else
    Check.all (fun wl : MinimalEnumeratedLiteral =>
      Check.all (fun rl : MinimalEnumeratedLiteral =>
        Check.require (ignoreNames ||
            decide (wl.detail = rl.detail) == decide (wl.common.value = rl.common.value))
          "an enum literal name and its value do not agree across the two types")
        r.literalSeq) w.literalSeq

def structNamesAndIdsAgree (w r : MinimalStructType) : Check :=
  Check.all (fun wm : MinimalStructMember =>
    Check.all (fun rm : MinimalStructMember =>
      Check.require (decide (wm.detail = rm.detail) ==
          decide (wm.common.memberId = rm.common.memberId))
        "a member name and a member id do not agree across the two types") r.memberSeq) w.memberSeq

def unionNamesAndIdsAgree (w r : MinimalUnionType) : Check :=
  Check.all (fun wm : MinimalUnionMember =>
    Check.all (fun rm : MinimalUnionMember =>
      Check.require (decide (wm.detail = rm.detail) ==
          decide (wm.common.memberId = rm.common.memberId))
        "a union member name and member id do not agree across the two types")
      r.memberSeq) w.memberSeq

def atLeastOneCommonMemberId (w r : MinimalStructType) : Check :=
  Check.require ((w.memberSeq.isEmpty && r.memberSeq.isEmpty) ||
      w.memberSeq.any fun wm => r.memberSeq.any fun rm => rm.common.memberId = wm.common.memberId)
    "the two structs have no member id in common"

def readerIsNotWider (w r : MinimalStructType) : Check :=
  Check.all (fun rm : MinimalStructMember =>
    Check.require (w.memberSeq.any fun wm => wm.common.memberId = rm.common.memberId)
      "prevent_type_widening: the reader declares a member the writer does not") r.memberSeq

def checkBitsets (cfg : AssignabilityConfig) (w r : MinimalBitsetType) : Check :=
  Check.all (fun wf : MinimalBitfield =>
    Check.require (r.fieldSeq.any fun rf =>
        rf.common.position = wf.common.position && rf.common.bitcount = wf.common.bitcount &&
          rf.common.holderType = wf.common.holderType &&
          (cfg.ignoreMemberNames || rf.nameHash = wf.nameHash))
      "bitset writer bitfield unknown in reader") w.fieldSeq

/-! None of these makes a call. -/

theorem silent_checkEnumerations (cfg : AssignabilityConfig) (w r : MinimalEnumeratedType) :
    (checkEnumerations cfg w r).Silent := by
  refine silent_require.andThen (silent_require.andThen ?_)
  split
  · exact silent_require.andThen (.all fun _ _ => silent_require)
  · exact .all fun _ _ => .all fun _ _ => silent_require

theorem silent_structNamesAndIdsAgree (w r : MinimalStructType) :
    (structNamesAndIdsAgree w r).Silent :=
  .all fun _ _ => .all fun _ _ => silent_require

theorem silent_unionNamesAndIdsAgree (w r : MinimalUnionType) :
    (unionNamesAndIdsAgree w r).Silent :=
  .all fun _ _ => .all fun _ _ => silent_require

theorem silent_readerIsNotWider (w r : MinimalStructType) : (readerIsNotWider w r).Silent :=
  .all fun _ _ => silent_require

theorem silent_checkBitsets (cfg : AssignabilityConfig) (w r : MinimalBitsetType) :
    (checkBitsets cfg w r).Silent :=
  .all fun _ _ => silent_require

section Resolution

variable [Digests] (reg : TypeRegistry)

def resolveMinimal (ti : TypeIdentifier) : Option MinimalTypeObject :=
  match ti with
  | .equivalenceHashMinimal hash => reg.getMinimal hash
  | .equivalenceHashComplete hash =>
    (reg.getComplete hash).bind fun complete => (complete.toMinimal reg).toOption
  | .stronglyConnectedComponent scc => reg.componentMinimalMember scc
  | _ => none

def bitmaskBitBound (ti : TypeIdentifier) : Option Nat :=
  match ti with
  | .equivalenceHashMinimal _ | .equivalenceHashComplete _ =>
    match resolveMinimal reg ti with
    | some (.bitmask b) => some b.bitBound
    | _ => none
  | _ => none

variable (cfg : AssignabilityConfig) (ti : TypeIdentifier)

def resolvedMinimalObject : Option MinimalTypeObject :=
  (resolveAliasChain ti reg cfg.maxDepth).toOption.bind (resolveMinimal reg)

def isAggregated : Bool :=
  match resolvedMinimalObject reg cfg ti with
  | some (.struct _) | some (.union _) => true
  | _ => false

def minimalEquivalent (w r : TypeIdentifier) : Bool :=
  if w = r then true
  else
    match resolveAliasChain w reg cfg.maxDepth, resolveAliasChain r reg cfg.maxDepth with
    | .ok w, .ok r =>
      if w = r then true
      else
        match minimalIdentifier reg w, minimalIdentifier reg r with
        | .ok wm, .ok rm => wm = rm
        | _, _ => false
    | _, _ => false

def extDelimited (ext : StructExt) : Bool :=
  match ext with
  | .final => false
  | .appendable => cfg.appendableIsDelimited
  | .mutable => true

def isDelimitedAt : Nat → TypeIdentifier → Bool
  | 0, _ => false
  | left + 1, ti =>
    match resolveAliasChain ti reg cfg.maxDepth with
    | .error _ => false
    | .ok ti =>
      match ti.shape with
      | .primitive _ | .string8 _ | .string16 _ => true
      | .sequence element _ | .array element _ => isDelimitedAt left element
      | .map element key _ => isDelimitedAt left key && isDelimitedAt left element
      | .hashMinimal _ | .hashComplete _ | .component _ =>
        match resolveMinimal reg ti with
        | some (.struct s) => extDelimited cfg (structExtensibility s.structFlags)
        | some (.union u) => extDelimited cfg (structExtensibility u.unionFlags)
        | some (.enumerated _) | some (.bitmask _) => true
        | some (.sequence c) => isDelimitedAt left c.element.typeId
        | some (.array c) => isDelimitedAt left c.element.typeId
        | some (.map c) => isDelimitedAt left c.key.typeId && isDelimitedAt left c.element.typeId
        | _ => false
      | .other => false

def isDelimited : Bool := isDelimitedAt reg cfg (cfg.maxDepth + 1) ti

def keyHolderStruct (s : MinimalStructType) : Option MinimalStructType :=
  let flat :=
    if s.baseType = .none then some s else (flattenInheritance s reg cfg.maxDepth).toOption
  flat.map fun flat =>
    if flat.memberSeq.any (hasFlag ·.common.memberFlags MemberFlag.isKey) then
      { flat with
        memberSeq := flat.memberSeq.filter (hasFlag ·.common.memberFlags MemberFlag.isKey) }
    else
      { flat with
        memberSeq := flat.memberSeq.map fun m =>
          { m with common.memberFlags := m.common.memberFlags ||| MemberFlag.isKey } }

def discriminatorValues : Option (SortedSet Int) :=
  match resolveAliasChain ti reg cfg.maxDepth with
  | .error _ => none
  | .ok ti =>
    match ti.shape with
    | .primitive .boolean => some (([0, 1] : List Int).foldl (·.insert · ()) .empty)
    | .hashMinimal _ | .hashComplete _ =>
      match resolveMinimal reg ti with
      | some (.enumerated e) => some (e.literalSeq.foldl (·.insert ·.common.value ()) .empty)
      | _ => none
    | _ => none

end Resolution

section Comparison

variable [Digests] (reg : TypeRegistry) (assumed : Assumed) (cfg : AssignabilityConfig)
  (w : TypeIdentifier) (r : TypeIdentifier)

/-- Assignable in both directions with exact bounds, without widening and without names. -/
def equivalentButForMemberNames : Asking Question Assignable Bool :=
  (Check.assignable assumed cfg.exact w r).bind fun
    | .yes => (Check.assignable assumed cfg.exact r w).bind fun back => .done back.isYes
    | .no _ => .done false

def notStrongly : String :=
  "not strongly assignable (§7.2.4.3): the types are not equivalent and the writer's type is " ++
    "not delimited"

def stronglyAssignable : Check :=
  (Check.assignable assumed cfg w r).andThen <|
  if minimalEquivalent reg cfg w r || isDelimited reg cfg w then .yes
  else if cfg.strongAssignability = .namesIgnored then
    (equivalentButForMemberNames assumed cfg w r).bind fun same => Check.require same notStrongly
  else .no notStrongly

def memberTypesAssignable (strong : Bool) : Check :=
  if w = r then .yes
  else if !(isAggregated reg cfg w && isAggregated reg cfg r) then
    if strong then stronglyAssignable reg assumed cfg w r
    else Check.assignable assumed cfg w r
  else
    match resolvedMinimalObject reg cfg w, resolvedMinimalObject reg cfg r with
    | some wo, some ro =>
      (Check.minimalTypes assumed cfg (keyErased wo) (keyErased ro)).andThen <|
      Check.require (!strong || minimalEquivalent reg cfg w r || isDelimited reg cfg w) notStrongly
    | _, _ => .no "a member type does not resolve"

def checkMemberPair (w r : MinimalStructMember) (nameMismatch : String) (positional : Bool) :
    Check :=
  (Check.require (cfg.ignoreMemberNames || w.detail = r.detail) nameMismatch).andThen <|
  (Check.require (!positional ||
      hasFlag w.common.memberFlags MemberFlag.isOptional ==
        hasFlag r.common.memberFlags MemberFlag.isOptional)
    "Table 19: members of the same index differ in their `optional` attribute").andThen <|
  memberTypesAssignable reg assumed cfg w.common.memberTypeId r.common.memberTypeId positional

def keyHolderAssignable : Check :=
  if w = r then .yes
  else
    match resolvedMinimalObject reg cfg w, resolvedMinimalObject reg cfg r with
    | some (.struct ws), some (.struct rs) =>
      match keyHolderStruct reg cfg ws, keyHolderStruct reg cfg rs with
      | some wh, some rh => Check.minimalTypes assumed cfg (.struct wh) (.struct rh)
      | _, _ => .no "a key member's base type does not flatten"
    | some (.union wu), some (.union ru) =>
      let wKey := hasFlag wu.discriminator.memberFlags MemberFlag.isKey
      let rKey := hasFlag ru.discriminator.memberFlags MemberFlag.isKey
      if wKey || rKey then
        (Check.require (wKey == rKey)
          "union key member: one discriminator is a key and the other is not").andThen <|
        stronglyAssignable reg assumed cfg wu.discriminator.typeId ru.discriminator.typeId
      else Check.minimalTypes assumed cfg (.union wu) (.union ru)
    | _, _ => Check.assignable assumed cfg w r

def defaultMember (u : MinimalUnionType) : Option MinimalUnionMember :=
  u.memberSeq.find? (hasFlag ·.common.memberFlags MemberFlag.isDefault)

def memberByLabel (u : MinimalUnionType) (v : Int) : Option MinimalUnionMember :=
  u.memberSeq.find? (·.common.labelSeq.contains v)

def unionLabels (u : MinimalUnionType) : SortedSet Int :=
  (u.memberSeq.flatMap (·.common.labelSeq)).foldl (·.insert · ()) .empty

def labelledValueFits (w r : MinimalUnionType) (v : Int) : Check :=
  match memberByLabel w v with
  | none => .yes
  | some wm =>
    match (memberByLabel r v).or (defaultMember r) with
    | none =>
      .no ("Table 19: a discriminator value of the writer's union key member selects no " ++
        "member of the reader's")
    | some rm => keyHolderAssignable reg assumed cfg wm.common.typeId rm.common.typeId

/-- A value that only the reader's union has a label for, so that the writer's default member `wd`
is behind it.  `domain` is the values of the discriminator, where they are listed. -/
def defaultedValueFits (domain : Option (SortedSet Int)) (wd : MinimalUnionMember)
    (r : MinimalUnionType) (v : Int) : Check :=
  if domain.any fun d => !d.contains v then .yes
  else
    match memberByLabel r v with
    | none => .yes
    | some rm => keyHolderAssignable reg assumed cfg wd.common.typeId rm.common.typeId

def leftOver (domain : Option (SortedSet Int)) (w r : MinimalUnionType) : Bool :=
  match domain with
  | some d => d.keys.any fun v => !(unionLabels w).contains v && !(unionLabels r).contains v
  | none => true

def leftOverFits (domain : Option (SortedSet Int)) (wd : MinimalUnionMember)
    (w r : MinimalUnionType) : Check :=
  if leftOver domain w r then
    match defaultMember r with
    | none =>
      .no ("Table 19: the writer's union key member selects its default member for values the " ++
        "reader's union has no member for")
    | some rd => keyHolderAssignable reg assumed cfg wd.common.typeId rd.common.typeId
  else .yes

def unionKeyValuesFit (w r : MinimalUnionType) : Check :=
  (Check.all (labelledValueFits reg assumed cfg w r) (unionLabels w).keys).andThen <|
  match defaultMember w with
  | none => .yes
  | some wd =>
    let domain := discriminatorValues reg cfg w.discriminator.typeId
    (Check.all (defaultedValueFits reg assumed cfg domain wd r)
      ((unionLabels r).keys.filter fun v => !(unionLabels w).contains v)).andThen <|
    leftOverFits reg assumed cfg domain wd w r

def keyLengthFits (wt rt : TypeIdentifier) : Check :=
  match keyLengthOf wt, keyLengthOf rt with
  | some wl, some rl =>
    Check.require (!boundExceeds wl rl)
      ("Table 19: a key member of the reader is shorter than the writer's, so the writer's key " ++
        "cannot be held without loss")
  | _, _ => .yes

omit [Digests] in
theorem silent_keyLengthFits (wt rt : TypeIdentifier) : (keyLengthFits wt rt).Silent := by
  unfold keyLengthFits
  split
  · exact silent_require
  · exact silent_yes

def keyLiteralsFit (wt rt : TypeIdentifier) : Check :=
  match resolveMinimal reg wt, resolveMinimal reg rt with
  | some (.enumerated we), some (.enumerated re) =>
    Check.all (fun wl : MinimalEnumeratedLiteral =>
      Check.require (re.literalSeq.any fun rl => rl.common.value = wl.common.value)
        ("Table 19: a literal of the writer's enumerated key member is not a literal of the " ++
          "reader's")) we.literalSeq
  | _, _ => .yes

theorem silent_keyLiteralsFit (wt rt : TypeIdentifier) : (keyLiteralsFit reg wt rt).Silent := by
  unfold keyLiteralsFit
  split
  · exact .all fun _ _ => silent_require
  · exact silent_yes

def keyUnionFits (wt rt : TypeIdentifier) : Check :=
  match resolvedMinimalObject reg cfg wt, resolvedMinimalObject reg cfg rt with
  | some (.union wu), some (.union ru) => unionKeyValuesFit reg assumed cfg wu ru
  | _, _ => .yes

def keyMemberFits (r : MinimalStructType) (wm : MinimalStructMember) : Check :=
  if !hasFlag wm.common.memberFlags MemberFlag.isKey then .yes
  else
    match r.memberSeq.find? (·.common.memberId = wm.common.memberId) with
    | none => .yes
    | some rm =>
      match resolveAliasChain wm.common.memberTypeId reg cfg.maxDepth,
          resolveAliasChain rm.common.memberTypeId reg cfg.maxDepth with
      | .ok wt, .ok rt =>
        (keyLengthFits wt rt).andThen <|
        (keyLiteralsFit reg wt rt).andThen <|
        (keyHolderAssignable reg assumed cfg wt rt).andThen <|
        keyUnionFits reg assumed cfg wt rt
      | _, _ => .yes

def keyMembersFit (w r : MinimalStructType) : Check :=
  if cfg.keyMemberBounds = .ignored then .yes
  else Check.all (keyMemberFits reg assumed cfg r) w.memberSeq

def checkMemberPairs (idMismatch nameMismatch : String)
    (pairs : List (MinimalStructMember × MinimalStructMember)) : Check :=
  Check.all (fun pair : MinimalStructMember × MinimalStructMember =>
    (Check.require (pair.1.common.memberId = pair.2.common.memberId) idMismatch).andThen <|
    checkMemberPair reg assumed cfg pair.1 pair.2 nameMismatch true) pairs

def checkFinalStructs (w r : MinimalStructType) : Check :=
  (Check.require (w.memberSeq.length = r.memberSeq.length)
    "final struct member count mismatch").andThen <|
  checkMemberPairs reg assumed cfg "final struct member ids differ"
    "final struct member name-hash differs" (w.memberSeq.zip r.memberSeq)

def checkAppendableStructs (w r : MinimalStructType) : Check :=
  let shared := min w.memberSeq.length r.memberSeq.length
  (checkMemberPairs reg assumed cfg "appendable: the shared prefix has different member ids"
    "appendable: member name-hash differs" ((w.memberSeq.zip r.memberSeq).take shared)).andThen <|
  (Check.all (fun tail : MinimalStructMember =>
    Check.require (!mustNotBeMissing tail.common.memberFlags)
      "appendable: a writer member past the prefix is must-understand")
    (w.memberSeq.drop shared)).andThen <|
  Check.all (fun tail : MinimalStructMember =>
    Check.require (!mustNotBeMissing tail.common.memberFlags)
      "appendable: a reader member past the prefix is must-understand") (r.memberSeq.drop shared)

def checkMutableStructs (w r : MinimalStructType) : Check :=
  (Check.all (fun rm : MinimalStructMember =>
    match w.memberSeq.find? (·.common.memberId = rm.common.memberId) with
    | some wm =>
      checkMemberPair reg assumed cfg wm rm "mutable: member name-hash differs despite id match"
        false
    | none =>
      Check.require (!mustNotBeMissing rm.common.memberFlags)
        "mutable: a must-understand reader member is not in the writer") r.memberSeq).andThen <|
  Check.all (fun wm : MinimalStructMember =>
    Check.require ((r.memberSeq.any fun rm => rm.common.memberId = wm.common.memberId) ||
        !mustNotBeMissing wm.common.memberFlags)
      "mutable: a must-understand writer member is not in the reader") w.memberSeq

def checkFlatStructs (ext : StructExt) (w r : MinimalStructType) : Check :=
  (if cfg.ignoreMemberNames then Check.yes else structNamesAndIdsAgree w r).andThen <|
  (atLeastOneCommonMemberId w r).andThen <|
  (keyMembersFit reg assumed cfg w r).andThen <|
  (if cfg.preventTypeWidening then readerIsNotWider w r else Check.yes).andThen <|
  match ext with
  | .final => checkFinalStructs reg assumed cfg w r
  | .appendable => checkAppendableStructs reg assumed cfg w r
  | .mutable => checkMutableStructs reg assumed cfg w r

def checkStructs (w r : MinimalStructType) : Check :=
  let ext := structExtensibility w.structFlags
  (Check.require (ext = structExtensibility r.structFlags) "extensibility mismatch").andThen <|
  if w.baseType = .none ∧ r.baseType = .none then checkFlatStructs reg assumed cfg ext w r
  else
    match flattenInheritance w reg cfg.maxDepth with
    | .error _ => .no "writer base type does not flatten"
    | .ok wFlat =>
      match flattenInheritance r reg cfg.maxDepth with
      | .error _ => .no "reader base type does not flatten"
      | .ok rFlat => checkFlatStructs reg assumed cfg ext wFlat rFlat

def labelledMembers (u : MinimalUnionType) : List (Int × MinimalUnionMember) :=
  u.memberSeq.flatMap fun m => m.common.labelSeq.map (·, m)

def checkCases (wm rm : MinimalUnionMember) : Check :=
  Check.assignable assumed cfg wm.common.typeId rm.common.typeId

/-- A label of the writer selects a member of the reader that fits, the default one if need be. -/
def checkWriterLabel (ext : StructExt) (r : MinimalUnionType) (wl : Int × MinimalUnionMember) :
    Check :=
  match memberByLabel r wl.1 with
  | some rm => checkCases assumed cfg wl.2 rm
  | none =>
    if ext = .final then .no "final union: writer label unknown in reader"
    else
      match defaultMember r with
      | some rd => checkCases assumed cfg wl.2 rd
      | none => .yes

def readerLabelsKnown (w r : MinimalUnionType) (reason : String) : Check :=
  Check.all (fun rl : Int × MinimalUnionMember =>
    Check.require (memberByLabel w rl.1).isSome reason) (labelledMembers r)

omit [Digests] in
theorem silent_readerLabelsKnown (w r : MinimalUnionType) (reason : String) :
    (readerLabelsKnown w r reason).Silent :=
  .all fun _ _ => silent_require

def checkWriterDefault (w r : MinimalUnionType) : Check :=
  match defaultMember w with
  | none => .yes
  | some wd =>
    Check.all (fun rl : Int × MinimalUnionMember =>
      if (memberByLabel w rl.1).isSome then .yes else checkCases assumed cfg wd rl.2)
      (labelledMembers r)

def checkDefaultMembers (ext : StructExt) (w r : MinimalUnionType) : Check :=
  match defaultMember w, defaultMember r with
  | some wd, some rd => checkCases assumed cfg wd rd
  | none, none => .yes
  | none, some _ =>
    Check.require (ext ≠ .final)
      "final union: the reader has a default member and the writer has none"
  | some _, none =>
    Check.require (ext ≠ .final)
      "final union: the writer has a default member and the reader has none"

def checkUnions (w r : MinimalUnionType) : Check :=
  let ext := structExtensibility w.unionFlags
  (Check.require (ext = structExtensibility r.unionFlags) "extensibility mismatch").andThen <|
  (Check.require (hasFlag w.discriminator.memberFlags MemberFlag.isKey ==
      hasFlag r.discriminator.memberFlags MemberFlag.isKey)
    "union: one discriminator is a key and the other is not (§7.2.4.4.4.5, Table 19)").andThen <|
  (stronglyAssignable reg assumed cfg w.discriminator.typeId r.discriminator.typeId).andThen <|
  (if cfg.ignoreMemberNames then Check.yes else unionNamesAndIdsAgree w r).andThen <|
  (if cfg.preventTypeWidening then
      readerLabelsKnown w r
        "prevent_type_widening: the reader declares a case label the writer does not"
    else Check.yes).andThen <|
  (Check.require (ext = .final ||
      (labelledMembers w).any fun wl => (memberByLabel r wl.1).isSome)
    "union: the two types have no case label in common").andThen <|
  (Check.all (checkWriterLabel assumed cfg ext r) (labelledMembers w)).andThen <|
  (if ext = .final then readerLabelsKnown w r "final union: reader label unknown in writer"
    else Check.yes).andThen <|
  (checkWriterDefault assumed cfg w r).andThen <|
  checkDefaultMembers assumed cfg ext w r

def checkMinimalTypes (w r : MinimalTypeObject) : Check :=
  match w, r with
  | .struct ws, .struct rs => checkStructs reg assumed cfg ws rs
  | .enumerated we, .enumerated re => checkEnumerations cfg we re
  | .union wu, .union ru => checkUnions reg assumed cfg wu ru
  | .bitmask wb, .bitmask rb =>
    Check.require (wb.bitBound = rb.bitBound) "bitmask bit_bound mismatch"
  | .bitset wb, .bitset rb => checkBitsets cfg wb rb
  | .aliasType wa, .aliasType ra => Check.assignable assumed cfg wa.relatedType ra.relatedType
  | .sequence ws, .sequence rs =>
    (Check.require (cfg.ignoreSequenceBounds || !boundExceeds ws.bound rs.bound)
      "writer sequence bound exceeds reader bound").andThen <|
    stronglyAssignable reg assumed cfg ws.element.typeId rs.element.typeId
  | .array wa, .array ra =>
    (Check.require (wa.boundSeq = ra.boundSeq) "array bounds differ").andThen <|
    stronglyAssignable reg assumed cfg wa.element.typeId ra.element.typeId
  | .map wm, .map rm =>
    (Check.require (cfg.ignoreSequenceBounds || !boundExceeds wm.bound rm.bound)
      "writer map bound exceeds reader bound").andThen <|
    (stronglyAssignable reg assumed cfg wm.key.typeId rm.key.typeId).andThen <|
    stronglyAssignable reg assumed cfg wm.element.typeId rm.element.typeId
  | .annotationType _, .annotationType _ =>
    .no "annotation types are not data types and §7.2.4 does not relate them"
  | _, _ => .no "type kinds do not match"

def checkObjects (w r : Option MinimalTypeObject) (reason : String) : Check :=
  match w, r with
  | some wo, some ro => Check.minimalTypes assumed cfg wo ro
  | _, _ => .no reason

/-- Two COMPLETE objects, or one against a MINIMAL one: both are here, and both project. -/
def checkProjected (wKnown rKnown : Bool) (w r : Option MinimalTypeObject)
    (unknown unprojected : String) : Check :=
  (Check.require (wKnown && rKnown) unknown).andThen <| checkObjects assumed cfg w r unprojected

def checkAssuming (wo ro : MinimalTypeObject) : Check :=
  if assumed.any fun pair => pair.1 = w && pair.2 = r then .yes
  else Check.minimalTypes ((w, r) :: assumed) cfg wo ro

def checkComponents : Check :=
  match resolveMinimal reg w, resolveMinimal reg r with
  | some wo, some ro => checkAssuming assumed cfg w r wo ro
  | _, _ => .no "unknown type objects for a strongly connected component"

def checkDirect : Check :=
  if w = r then .yes
  else
    match w.shape, r.shape with
    | .primitive wp, .primitive rp => .done (primitiveCompatible wp rp)
    | .string8 wb, .string8 rb =>
      Check.require (cfg.ignoreStringBounds || !boundExceeds wb rb)
        "writer string8 bound exceeds reader bound"
    | .string16 wb, .string16 rb =>
      Check.require (cfg.ignoreStringBounds || !boundExceeds wb rb)
        "writer string16 bound exceeds reader bound"
    | .sequence we wb, .sequence re rb =>
      (Check.require (cfg.ignoreSequenceBounds || !boundExceeds wb rb)
        "writer sequence bound exceeds reader bound").andThen <|
      stronglyAssignable reg assumed cfg we re
    | .array we wb, .array re rb =>
      (Check.require (wb = rb) "array bounds differ").andThen <|
      stronglyAssignable reg assumed cfg we re
    | .map we wk wb, .map re rk rb =>
      (Check.require (cfg.ignoreSequenceBounds || !boundExceeds wb rb)
        "writer map bound exceeds reader bound").andThen <|
      (stronglyAssignable reg assumed cfg wk rk).andThen <|
      stronglyAssignable reg assumed cfg we re
    | .hashMinimal _, .hashMinimal _ =>
      checkObjects assumed cfg (resolveMinimal reg w) (resolveMinimal reg r)
        "unknown type objects for hash comparison"
    | .hashComplete wh, .hashComplete rh =>
      checkProjected assumed cfg (reg.getComplete wh).isSome (reg.getComplete rh).isSome
        (resolveMinimal reg w) (resolveMinimal reg r)
        "unknown complete type objects for hash comparison"
        "complete type objects do not project to minimal"
    | .hashMinimal wh, .hashComplete rh =>
      checkProjected assumed cfg (reg.getMinimal wh).isSome (reg.getComplete rh).isSome
        (resolveMinimal reg w) (resolveMinimal reg r)
        "unknown type objects for minimal/complete comparison"
        "complete type object does not project to minimal"
    | .hashComplete wh, .hashMinimal rh =>
      checkProjected assumed cfg (reg.getComplete wh).isSome (reg.getMinimal rh).isSome
        (resolveMinimal reg w) (resolveMinimal reg r)
        "unknown type objects for minimal/complete comparison"
        "complete type object does not project to minimal"
    | .hashMinimal _, .primitive rp | .hashComplete _, .primitive rp =>
      .done (bitmaskUintCompatible (bitmaskBitBound reg w) rp)
    | .primitive wp, .hashMinimal _ | .primitive wp, .hashComplete _ =>
      .done (bitmaskUintCompatible (bitmaskBitBound reg r) wp)
    | .component _, _ | _, .component _ => checkComponents reg assumed cfg w r
    | _, _ => .no "kinds do not match"

def isAssignableBody : Check :=
  if w = .none ∨ r = .none then
    .no "TK_NONE is not a type identifier — Table 29 calls it an invalid identifier"
  else if w = r then .yes
  else
    match resolveAliasChain w reg cfg.maxDepth with
    | .error _ => .no "writer alias resolution failed"
    | .ok w =>
      match resolveAliasChain r reg cfg.maxDepth with
      | .error _ => .no "reader alias resolution failed"
      | .ok r => checkDirect reg assumed cfg w r

end Comparison

section Procedure

variable [Digests] (reg : TypeRegistry)

def check : Question → Check
  | .isAssignable assumed cfg w r => isAssignableBody reg assumed cfg w r
  | .checkMinimalTypes assumed cfg w r => checkMinimalTypes reg assumed cfg w r

/-- The verdict on two types, with at most `fuel` calls nested; `none` where that is not enough. -/
def isAssignable (fuel : Nat) (w r : TypeIdentifier) (cfg : AssignabilityConfig) :
    Option Assignable :=
  answer (check reg) fuel (.isAssignable [] cfg w r)

def Verdict (w r : TypeIdentifier) (cfg : AssignabilityConfig) (a : Assignable) : Prop :=
  Answers (check reg) (.isAssignable [] cfg w r) a

end Procedure

/-! ### Types for examples -/

namespace TypeFixture

@[reducible] def digests : Digests := ⟨fun _ => 0, fun _ _ => none, fun _ => none⟩

def int32 : TypeIdentifier := .primitive .int32

def hash (n : Nat) : EquivalenceHash := Fin.ofNat _ n

def hashed (n : Nat) : TypeIdentifier := .equivalenceHashMinimal (Fin.ofNat _ n)

def component (n : Nat) : TypeIdentifier :=
  .stronglyConnectedComponent ⟨EquivalenceKind.minimal, Fin.ofNat _ n, 1, 1⟩

def sequenceOf (bound : Nat) (element : TypeIdentifier) : TypeIdentifier :=
  .plainSequenceSmall ⟨EquivalenceKind.minimal, MemberFlag.tryConstruct1⟩ bound element

def member (id : Nat) (flags : UInt16) (ti : TypeIdentifier) : MinimalStructMember :=
  ⟨⟨id, flags, ti⟩, Fin.ofNat _ id⟩

def structOf (members : List MinimalStructMember) : MinimalTypeObject :=
  .struct ⟨TypeFlag.isAppendable, .none, members⟩

end TypeFixture

end ZeroDds.Types
