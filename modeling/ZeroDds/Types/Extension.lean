/-
A registry that holds more gives the same verdicts.
-/
import ZeroDds.Types.Dependencies

namespace ZeroDds.Types

section

open Check

variable [Digests] {reg reg' : TypeRegistry} (h : reg.Extends reg') {ti w r : TypeIdentifier}
  (assumed : Assumed) (cfg : AssignabilityConfig)
include h

/-! ### What is read off a type -/

omit assumed in
theorem resolvedMinimalObject_extends (hti : reg.Settled ti) :
    resolvedMinimalObject reg' cfg ti = resolvedMinimalObject reg cfg ti := by
  rw [resolvedMinimalObject, resolvedMinimalObject, resolveAliasChain_eq h hti]
  cases hok : resolveAliasChain ti reg cfg.maxDepth with
  | error e => rfl
  | ok ti' => exact h.resolveMinimal_eq (settled_resolveAliasChain hti hok)

omit assumed in
theorem isAggregated_extends (hti : reg.Settled ti) :
    isAggregated reg' cfg ti = isAggregated reg cfg ti := by
  rw [isAggregated, isAggregated, resolvedMinimalObject_extends h cfg hti]

omit assumed in
theorem minimalEquivalent_extends (hw : reg.Settled w) (hr : reg.Settled r) :
    minimalEquivalent reg' cfg w r = minimalEquivalent reg cfg w r := by
  rw [minimalEquivalent, minimalEquivalent, resolveAliasChain_eq h hw, resolveAliasChain_eq h hr]
  cases hw' : resolveAliasChain w reg cfg.maxDepth with
  | error e => rfl
  | ok w' =>
    cases hr' : resolveAliasChain r reg cfg.maxDepth with
    | error e => rfl
    | ok r' =>
      have hwm : minimalIdentifier reg' w' = minimalIdentifier reg w' :=
        h.minimalIdentifierAt_eq _ (settled_resolveAliasChain hw hw')
      have hrm : minimalIdentifier reg' r' = minimalIdentifier reg r' :=
        h.minimalIdentifierAt_eq _ (settled_resolveAliasChain hr hr')
      simp [hwm, hrm]

omit assumed in
theorem isDelimitedAt_extends (left : Nat) (hti : reg.Settled ti) :
    isDelimitedAt reg' cfg left ti = isDelimitedAt reg cfg left ti := by
  induction left generalizing ti with
  | zero => rfl
  | succ left ih =>
    rw [isDelimitedAt, isDelimitedAt, resolveAliasChain_eq h hti]
    cases hok : resolveAliasChain ti reg cfg.maxDepth with
    | error e => rfl
    | ok t =>
      have ht := settled_resolveAliasChain hti hok
      have hpart : ∀ element ∈ t.shape.parts,
          isDelimitedAt reg' cfg left element = isDelimitedAt reg cfg left element :=
        fun element helement => ih (ht.part helement)
      simp only [h.resolveMinimal_eq ht]
      cases hshape : t.shape with
      | sequence e b | array e b => simp only [hpart e (by simp [hshape, Shape.parts])]
      | map e k b =>
        simp only [hpart e (by simp [hshape, Shape.parts]), hpart k (by simp [hshape, Shape.parts])]
      | hashMinimal hash | hashComplete hash | component scc =>
        cases hobject : resolveMinimal reg t with
        | none => rfl
        | some o =>
          have hnamed : ∀ t' ∈ o.references,
              isDelimitedAt reg' cfg left t' = isDelimitedAt reg cfg left t' :=
            fun t' ht' => ih (ht.named hobject ht')
          cases o with
          | sequence c | array c => simp [hnamed _ List.mem_cons_self]
          | map c =>
            simp [hnamed _ List.mem_cons_self,
              hnamed c.element.typeId (List.mem_cons_of_mem _ List.mem_cons_self)]
          | _ => rfl
      | _ => rfl

omit assumed in
theorem keyHolderStruct_extends {s : MinimalStructType}
    (hs : (MinimalTypeObject.struct s).Settled reg) :
    keyHolderStruct reg' cfg s = keyHolderStruct reg cfg s := by
  rw [keyHolderStruct, keyHolderStruct, flattenInheritance_eq h hs]

omit assumed in
theorem discriminatorValues_extends (hti : reg.Settled ti) :
    discriminatorValues reg' cfg ti = discriminatorValues reg cfg ti := by
  rw [discriminatorValues, discriminatorValues, resolveAliasChain_eq h hti]
  cases hok : resolveAliasChain ti reg cfg.maxDepth with
  | error e => rfl
  | ok t => simp [h.resolveMinimal_eq (settled_resolveAliasChain hti hok)]

omit assumed cfg in
theorem bitmaskBitBound_extends (hti : reg.Settled ti) :
    bitmaskBitBound reg' ti = bitmaskBitBound reg ti := by
  have hobject := h.resolveMinimal_eq hti
  cases ti <;> simp [bitmaskBitBound, hobject]

omit h assumed in
theorem settled_resolved (hti : reg.Settled ti) {o : MinimalTypeObject}
    (ho : resolvedMinimalObject reg cfg ti = some o) : o.Settled reg := by
  obtain ⟨ti', hti', ho⟩ :=
    (closedUnder_settled cfg.maxDepth).resolved rfl hti ho
  exact fun t ht => hti'.named ho ht

theorem stronglyAssignable_extends (hw : reg.Settled w) (hr : reg.Settled r) :
    stronglyAssignable reg' assumed cfg w r = stronglyAssignable reg assumed cfg w r := by
  rw [stronglyAssignable, stronglyAssignable, minimalEquivalent_extends h cfg hw hr, isDelimited,
    isDelimited, isDelimitedAt_extends h cfg _ hw]

theorem memberTypesAssignable_extends (hw : reg.Settled w) (hr : reg.Settled r) (strong : Bool) :
    memberTypesAssignable reg' assumed cfg w r strong =
      memberTypesAssignable reg assumed cfg w r strong := by
  rw [memberTypesAssignable, memberTypesAssignable, isAggregated_extends h cfg hw,
    isAggregated_extends h cfg hr, resolvedMinimalObject_extends h cfg hw,
    resolvedMinimalObject_extends h cfg hr, stronglyAssignable_extends h assumed cfg hw hr,
    minimalEquivalent_extends h cfg hw hr, isDelimited, isDelimited,
    isDelimitedAt_extends h cfg _ hw]

theorem keyHolderAssignable_extends (hw : reg.Settled w) (hr : reg.Settled r) :
    keyHolderAssignable reg' assumed cfg w r = keyHolderAssignable reg assumed cfg w r := by
  rw [keyHolderAssignable, keyHolderAssignable, resolvedMinimalObject_extends h cfg hw,
    resolvedMinimalObject_extends h cfg hr]
  cases hwo : resolvedMinimalObject reg cfg w with
  | none => rfl
  | some wo =>
    cases hro : resolvedMinimalObject reg cfg r with
    | none => cases wo <;> rfl
    | some ro =>
      have hws := settled_resolved cfg hw hwo
      have hrs := settled_resolved cfg hr hro
      cases wo with
      | struct ws =>
        cases ro with
        | struct rs =>
          simp [keyHolderStruct_extends h cfg hws, keyHolderStruct_extends h cfg hrs]
        | _ => rfl
      | union wu =>
        cases ro with
        | union ru =>
          simp only [stronglyAssignable_extends h assumed cfg (hws _ List.mem_cons_self)
            (hrs _ List.mem_cons_self)]
        | _ => rfl
      | _ => rfl

theorem unionKeyValuesFit_extends {wu ru : MinimalUnionType}
    (hw : (MinimalTypeObject.union wu).Settled reg)
    (hr : (MinimalTypeObject.union ru).Settled reg) :
    unionKeyValuesFit reg' assumed cfg wu ru = unionKeyValuesFit reg assumed cfg wu ru := by
  have hwm : ∀ m ∈ wu.memberSeq, reg.Settled m.common.typeId := fun m hm =>
    hw _ (List.mem_cons_of_mem _ (List.mem_map_of_mem hm))
  have hrm : ∀ m ∈ ru.memberSeq, reg.Settled m.common.typeId := fun m hm =>
    hr _ (List.mem_cons_of_mem _ (List.mem_map_of_mem hm))
  have hlabelled : ∀ v, labelledValueFits reg' assumed cfg wu ru v =
      labelledValueFits reg assumed cfg wu ru v := by
    intro v
    rw [labelledValueFits, labelledValueFits]
    cases hwv : memberByLabel wu v with
    | none => rfl
    | some wm =>
      cases hrv : (memberByLabel ru v).or (defaultMember ru) with
      | none => rfl
      | some rm =>
        have hmem : rm ∈ ru.memberSeq := by
          rcases Option.or_eq_some_iff.mp hrv with hrv | ⟨-, hrv⟩
          · exact mem_of_memberByLabel hrv
          · exact mem_of_defaultMember hrv
        exact keyHolderAssignable_extends h assumed cfg (hwm wm (mem_of_memberByLabel hwv))
          (hrm rm hmem)
  rw [unionKeyValuesFit, unionKeyValuesFit, all_congr fun v _ => hlabelled v]
  cases hwd : defaultMember wu with
  | none => rfl
  | some wd =>
    have hwd' := hwm wd (mem_of_defaultMember hwd)
    simp only [discriminatorValues_extends h cfg (hw _ List.mem_cons_self)]
    congr 2
    · refine all_congr fun v _ => ?_
      rw [defaultedValueFits, defaultedValueFits]
      cases hrv : memberByLabel ru v with
      | none => rfl
      | some rm =>
        simp [keyHolderAssignable_extends h assumed cfg hwd' (hrm rm (mem_of_memberByLabel hrv))]
    · rw [leftOverFits, leftOverFits]
      cases hrd : defaultMember ru with
      | none => rfl
      | some rd =>
        simp [keyHolderAssignable_extends h assumed cfg hwd' (hrm rd (mem_of_defaultMember hrd))]

variable {rs : MinimalStructType}

theorem keyMemberFits_extends {wm : MinimalStructMember} (hw : reg.Settled wm.common.memberTypeId)
    (hr : ∀ m ∈ rs.memberSeq, reg.Settled m.common.memberTypeId) :
    keyMemberFits reg' assumed cfg rs wm = keyMemberFits reg assumed cfg rs wm := by
  rw [keyMemberFits, keyMemberFits]
  cases hfind : rs.memberSeq.find? (·.common.memberId = wm.common.memberId) with
  | none => rfl
  | some rm =>
    have hrm := hr rm (List.mem_of_find?_eq_some hfind)
    simp only [resolveAliasChain_eq h hw, resolveAliasChain_eq h hrm]
    cases hwt : resolveAliasChain wm.common.memberTypeId reg cfg.maxDepth with
    | error e => rfl
    | ok wt =>
      cases hrt : resolveAliasChain rm.common.memberTypeId reg cfg.maxDepth with
      | error e => rfl
      | ok rt =>
        have hws := settled_resolveAliasChain hw hwt
        have hrs := settled_resolveAliasChain hrm hrt
        have hliterals : keyLiteralsFit reg' wt rt = keyLiteralsFit reg wt rt := by
          rw [keyLiteralsFit, keyLiteralsFit, h.resolveMinimal_eq hws, h.resolveMinimal_eq hrs]
        have hunion : keyUnionFits reg' assumed cfg wt rt = keyUnionFits reg assumed cfg wt rt := by
          rw [keyUnionFits, keyUnionFits, resolvedMinimalObject_extends h cfg hws,
            resolvedMinimalObject_extends h cfg hrs]
          split
          · next wu ru hwu hru =>
            exact unionKeyValuesFit_extends h assumed cfg (settled_resolved cfg hws hwu)
              (settled_resolved cfg hrs hru)
          · rfl
        simp [hliterals, hunion, keyHolderAssignable_extends h assumed cfg hws hrs]

theorem checkMemberPair_extends {wm rm : MinimalStructMember} {nameMismatch : String}
    {positional : Bool} (hw : reg.Settled wm.common.memberTypeId)
    (hr : reg.Settled rm.common.memberTypeId) :
    checkMemberPair reg' assumed cfg wm rm nameMismatch positional =
      checkMemberPair reg assumed cfg wm rm nameMismatch positional := by
  rw [checkMemberPair, checkMemberPair, memberTypesAssignable_extends h assumed cfg hw hr]

theorem checkMemberPairs_extends {idMismatch nameMismatch : String}
    {pairs : List (MinimalStructMember × MinimalStructMember)}
    (hpairs : ∀ pair ∈ pairs, reg.Settled pair.1.common.memberTypeId ∧
      reg.Settled pair.2.common.memberTypeId) :
    checkMemberPairs reg' assumed cfg idMismatch nameMismatch pairs =
      checkMemberPairs reg assumed cfg idMismatch nameMismatch pairs :=
  all_congr fun pair hpair => by
    rw [checkMemberPair_extends h assumed cfg (hpairs pair hpair).1 (hpairs pair hpair).2]

theorem checkFlatStructs_extends {ext : StructExt} {ws : MinimalStructType}
    (hw : ∀ m ∈ ws.memberSeq, reg.Settled m.common.memberTypeId)
    (hr : ∀ m ∈ rs.memberSeq, reg.Settled m.common.memberTypeId) :
    checkFlatStructs reg' assumed cfg ext ws rs = checkFlatStructs reg assumed cfg ext ws rs := by
  have hzip : ∀ pair ∈ ws.memberSeq.zip rs.memberSeq, reg.Settled pair.1.common.memberTypeId ∧
      reg.Settled pair.2.common.memberTypeId := fun pair hpair =>
    ⟨hw _ (List.of_mem_zip hpair).1, hr _ (List.of_mem_zip hpair).2⟩
  have hkeys : keyMembersFit reg' assumed cfg ws rs = keyMembersFit reg assumed cfg ws rs := by
    rw [keyMembersFit, keyMembersFit,
      all_congr fun wm hwm => keyMemberFits_extends h assumed cfg (hw wm hwm) hr]
  unfold checkFlatStructs
  rw [hkeys]
  cases ext with
  | final => simp [checkFinalStructs, checkMemberPairs_extends h assumed cfg hzip]
  | appendable =>
    simp only [checkAppendableStructs, checkMemberPairs_extends h assumed cfg
      fun pair hpair => hzip pair (List.mem_of_mem_take hpair)]
  | mutable =>
    simp only [checkMutableStructs]
    congr 5
    refine all_congr fun rm hrm => ?_
    cases hfind : ws.memberSeq.find? (·.common.memberId = rm.common.memberId) with
    | none => rfl
    | some wm =>
      exact checkMemberPair_extends h assumed cfg (hw wm (List.mem_of_find?_eq_some hfind))
        (hr rm hrm)

theorem checkStructs_extends {ws : MinimalStructType}
    (hw : (MinimalTypeObject.struct ws).Settled reg)
    (hr : (MinimalTypeObject.struct rs).Settled reg) :
    checkStructs reg' assumed cfg ws rs = checkStructs reg assumed cfg ws rs := by
  have hown : ∀ {s : MinimalStructType}, (MinimalTypeObject.struct s).Settled reg →
      ∀ m ∈ s.memberSeq, reg.Settled m.common.memberTypeId :=
    fun hs m hm => hs _ (List.mem_append_right _ (List.mem_map_of_mem hm))
  rw [checkStructs, checkStructs, flattenInheritance_eq h hw, flattenInheritance_eq h hr,
    checkFlatStructs_extends h assumed cfg (hown hw) (hown hr)]
  cases hwf : flattenInheritance ws reg cfg.maxDepth with
  | error e => rfl
  | ok wFlat =>
    cases hrf : flattenInheritance rs reg cfg.maxDepth with
    | error e => rfl
    | ok rFlat =>
      simp only [checkFlatStructs_extends h assumed cfg (settled_flat hw hwf).2
        (settled_flat hr hrf).2]

theorem checkMinimalTypes_extends {wo ro : MinimalTypeObject} (hw : wo.Settled reg)
    (hr : ro.Settled reg) :
    checkMinimalTypes reg' assumed cfg wo ro = checkMinimalTypes reg assumed cfg wo ro := by
  have hfirst : ∀ {t t' : TypeIdentifier}, t ∈ wo.references → t' ∈ ro.references →
      stronglyAssignable reg' assumed cfg t t' = stronglyAssignable reg assumed cfg t t' :=
    fun ht ht' => stronglyAssignable_extends h assumed cfg (hw _ ht) (hr _ ht')
  cases wo with
  | struct ws =>
    cases ro with
    | struct rs => exact checkStructs_extends h assumed cfg hw hr
    | _ => rfl
  | union wu =>
    cases ro with
    | union ru =>
      simp [checkMinimalTypes, checkUnions, hfirst List.mem_cons_self List.mem_cons_self]
    | _ => rfl
  | sequence ws =>
    cases ro with
    | sequence rs => simp [checkMinimalTypes, hfirst List.mem_cons_self List.mem_cons_self]
    | _ => rfl
  | array wa =>
    cases ro with
    | array ra => simp [checkMinimalTypes, hfirst List.mem_cons_self List.mem_cons_self]
    | _ => rfl
  | map wm =>
    cases ro with
    | map rm =>
      have helement := hfirst (List.mem_cons_of_mem _ List.mem_cons_self)
        (List.mem_cons_of_mem _ List.mem_cons_self)
      simp [checkMinimalTypes, hfirst List.mem_cons_self List.mem_cons_self, helement]
    | _ => rfl
  | _ => cases ro <;> rfl

theorem checkDirect_extends (hw : reg.Settled w) (hr : reg.Settled r) :
    checkDirect reg' assumed cfg w r = checkDirect reg assumed cfg w r := by
  have hpart : ∀ we ∈ w.shape.parts, ∀ re ∈ r.shape.parts,
      stronglyAssignable reg' assumed cfg we re = stronglyAssignable reg assumed cfg we re :=
    fun we hwe re hre => stronglyAssignable_extends h assumed cfg (hw.part hwe) (hr.part hre)
  have hcomplete : ∀ {ti : TypeIdentifier} {hash : EquivalenceHash}, reg.Settled ti →
      ti.shape = .hashComplete hash → reg'.getComplete hash = reg.getComplete hash := by
    intro ti hash hti hshape
    cases ti <;> simp only [TypeIdentifier.shape, reduceCtorEq, Shape.hashComplete.injEq] at hshape
    subst hshape
    exact h.getComplete_eq hti.holds
  have hminimal : ∀ {ti : TypeIdentifier} {hash : EquivalenceHash}, reg.Settled ti →
      ti.shape = .hashMinimal hash → reg'.getMinimal hash = reg.getMinimal hash := by
    intro ti hash hti hshape
    cases ti <;> simp only [TypeIdentifier.shape, reduceCtorEq, Shape.hashMinimal.injEq] at hshape
    subst hshape
    exact h.getMinimal_eq hti.holds
  have hcomponents : checkComponents reg' assumed cfg w r =
      checkComponents reg assumed cfg w r := by
    rw [checkComponents, checkComponents, h.resolveMinimal_eq hw, h.resolveMinimal_eq hr]
  rw [checkDirect, checkDirect, h.resolveMinimal_eq hw, h.resolveMinimal_eq hr,
    bitmaskBitBound_extends h hw, bitmaskBitBound_extends h hr, hcomponents]
  split
  · rfl
  cases hws : w.shape <;> cases hrs : r.shape <;> try rfl
  case sequence.sequence we wb re rb =>
    simp only [hpart we (by simp [hws, Shape.parts]) re (by simp [hrs, Shape.parts])]
  case array.array we wb re rb =>
    simp only [hpart we (by simp [hws, Shape.parts]) re (by simp [hrs, Shape.parts])]
  case map.map we wk wb re rk rb =>
    simp only [hpart we (by simp [hws, Shape.parts]) re (by simp [hrs, Shape.parts]),
      hpart wk (by simp [hws, Shape.parts]) rk (by simp [hrs, Shape.parts])]
  case hashComplete.hashComplete => simp [hcomplete hw hws, hcomplete hr hrs]
  case hashMinimal.hashComplete => simp only [hminimal hw hws, hcomplete hr hrs]
  case hashComplete.hashMinimal => simp [hcomplete hw hws, hminimal hr hrs]

theorem isAssignableBody_extends (hw : reg.Settled w) (hr : reg.Settled r) :
    isAssignableBody reg' assumed cfg w r = isAssignableBody reg assumed cfg w r := by
  rw [isAssignableBody, isAssignableBody, resolveAliasChain_eq h hw, resolveAliasChain_eq h hr]
  cases hwt : resolveAliasChain w reg cfg.maxDepth with
  | error e => rfl
  | ok w' =>
    cases hrt : resolveAliasChain r reg cfg.maxDepth with
    | error e => rfl
    | ok r' =>
      simp only [checkDirect_extends h assumed cfg (settled_resolveAliasChain hw hwt)
        (settled_resolveAliasChain hr hrt)]

omit assumed cfg in
theorem check_extends {q : Question} (hq : q.Inside reg.Settled (·.Settled reg)) :
    check reg' q = check reg q := by
  cases q with
  | isAssignable assumed cfg w r => exact isAssignableBody_extends h assumed cfg hq.1 hq.2
  | checkMinimalTypes assumed cfg w r => exact checkMinimalTypes_extends h assumed cfg hq.1 hq.2

omit h assumed cfg in
theorem inside_of_leads {q q' : Question} (hq : q.Inside reg.Settled (·.Settled reg))
    (hreach : Relation.ReflTransGen (Leads (check reg)) q q') :
    q'.Inside reg.Settled (·.Settled reg) := by
  induction hreach with
  | refl => exact hq
  | tail _ hleads ih =>
    rcases check_only (closedUnder_settled _) rfl ih hleads with hwithin | hassumes
    · exact hwithin.inside
    · obtain ⟨w, r, wo, ro, rfl, -, -, -, hwo, hro⟩ := hassumes
      exact ⟨hwo, hro⟩

omit assumed in
theorem isAssignable_extends (hw : reg.Settled w) (hr : reg.Settled r) (fuel : Nat) :
    isAssignable reg' fuel w r cfg = isAssignable reg fuel w r cfg := by
  have hstart : (Question.isAssignable [] cfg w r).Inside reg.Settled (·.Settled reg) := ⟨hw, hr⟩
  exact answer_congr (fun _ hreach => check_extends h (inside_of_leads hstart hreach)) fuel

end

end ZeroDds.Types
