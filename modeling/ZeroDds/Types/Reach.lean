/-
What a comparison leads to.
-/
import ZeroDds.Types.Assignability

namespace ZeroDds.Types

def Shape.parts : Shape → List TypeIdentifier
  | .sequence element _ | .array element _ => [element]
  | .map element key _ => [element, key]
  | _ => []

def MinimalStructType.allMembers (s : MinimalStructType) (reg : TypeRegistry) (maxDepth : Nat) :
    List MinimalStructMember :=
  s.memberSeq ++ (((flattenInheritance s reg maxDepth).toOption.map (·.memberSeq)).getD [])

def MinimalTypeObject.named (reg : TypeRegistry) (maxDepth : Nat) :
    MinimalTypeObject → List TypeIdentifier
  | .struct s => (s.allMembers reg maxDepth).map (·.common.memberTypeId)
  | .union u => u.discriminator.typeId :: u.memberSeq.map (·.common.typeId)
  | .aliasType a => [a.relatedType]
  | .sequence s => [s.element.typeId]
  | .array a => [a.element.typeId]
  | .map m => [m.key.typeId, m.element.typeId]
  | _ => []

section

variable [Digests] (reg : TypeRegistry) (maxDepth : Nat)
  (P : TypeIdentifier → Prop) (O : MinimalTypeObject → Prop)

structure ClosedUnder : Prop where
  chain : ∀ {ti ti' : TypeIdentifier}, P ti → resolveAliasChain ti reg maxDepth = .ok ti' → P ti'
  part : ∀ {ti : TypeIdentifier}, P ti → ∀ element ∈ ti.shape.parts, P element
  object : ∀ {ti : TypeIdentifier} {o : MinimalTypeObject}, P ti → resolveMinimal reg ti = some o →
    O o
  keyErased : ∀ {ti : TypeIdentifier} {o : MinimalTypeObject}, P ti →
    resolveMinimal reg ti = some o → O (keyErased o)
  keyHolder : ∀ {ti : TypeIdentifier} {s holder : MinimalStructType} {cfg : AssignabilityConfig},
    P ti → resolveMinimal reg ti = some (.struct s) → cfg.maxDepth = maxDepth →
    keyHolderStruct reg cfg s = some holder → O (.struct holder)
  named : ∀ {o : MinimalTypeObject}, O o → ∀ ti ∈ o.named reg maxDepth, P ti

def Question.Inside : Question → Prop
  | .isAssignable _ _ w r => P w ∧ P r
  | .checkMinimalTypes _ _ w r => O w ∧ O r

/-- A call inside the sets that a comparison under `assumed` and `cfg` makes as it is. -/
structure Question.Within (assumed : Assumed) (cfg : AssignabilityConfig) (q : Question) :
    Prop where
  assumed : q.assumed = assumed
  cfg : q.cfg = cfg ∨ q.cfg = cfg.exact
  inside : q.Inside P O

def Question.Assumes (assumed : Assumed) (cfg : AssignabilityConfig) (q : Question) : Prop :=
  ∃ w r wo ro, q = .checkMinimalTypes ((w, r) :: assumed) cfg wo ro ∧ (w, r) ∉ assumed ∧
    P w ∧ P r ∧ O wo ∧ O ro

end

section

open Check

variable [Digests] {reg : TypeRegistry} {maxDepth : Nat} {P : TypeIdentifier → Prop}
  {O : MinimalTypeObject → Prop} {assumed : Assumed} {cfg : AssignabilityConfig}
  {w r : TypeIdentifier}

omit [Digests] in
theorem only_within_assignable (hw : P w) (hr : P r) :
    Only (Question.Within P O assumed cfg) (assignable assumed cfg w r) :=
  only_assignable ⟨rfl, Or.inl rfl, hw, hr⟩

omit [Digests] in
theorem only_within_minimalTypes {w r : MinimalTypeObject} (hw : O w) (hr : O r) :
    Only (Question.Within P O assumed cfg) (minimalTypes assumed cfg w r) :=
  only_minimalTypes ⟨rfl, Or.inl rfl, hw, hr⟩

theorem stronglyAssignable_only (hw : P w) (hr : P r) :
    Only (Question.Within P O assumed cfg) (stronglyAssignable reg assumed cfg w r) := by
  refine (only_within_assignable hw hr).andThen ?_
  split
  · exact only_yes
  split
  · intro q hq
    rcases Asking.Asks.of_bind hq with hq | ⟨same, hq⟩
    · rcases Asking.Asks.of_bind hq with hq | ⟨a, hq⟩
      · rw [asks_assignable.mp hq]
        exact ⟨rfl, Or.inr rfl, hw, hr⟩
      · cases a with
        | no reason => exact absurd hq Asking.asks_done
        | yes =>
          rcases Asking.Asks.of_bind hq with hq | ⟨back, hq⟩
          · rw [asks_assignable.mp hq]
            exact ⟨rfl, Or.inr rfl, hr, hw⟩
          · exact absurd hq Asking.asks_done
    · exact absurd hq not_asks_require
  · exact only_no

variable (h : ClosedUnder reg maxDepth P O) (hdepth : cfg.maxDepth = maxDepth)
include h hdepth

theorem ClosedUnder.resolved {ti : TypeIdentifier} {o : MinimalTypeObject} (hti : P ti)
    (ho : resolvedMinimalObject reg cfg ti = some o) :
    ∃ ti', P ti' ∧ resolveMinimal reg ti' = some o := by
  obtain ⟨ti', hok, ho⟩ := Option.bind_eq_some_iff.mp ho
  refine ⟨ti', h.chain hti ?_, ho⟩
  rw [← hdepth]
  cases hres : resolveAliasChain ti reg cfg.maxDepth with
  | error e => simp [hres, Except.toOption] at hok
  | ok t => simpa [hres, Except.toOption] using hok

theorem memberTypesAssignable_only (hw : P w) (hr : P r) (strong : Bool) :
    Only (Question.Within P O assumed cfg) (memberTypesAssignable reg assumed cfg w r strong) := by
  unfold memberTypesAssignable
  split
  · exact only_yes
  split
  · split
    · exact stronglyAssignable_only hw hr
    · exact only_within_assignable hw hr
  split
  · next wo ro hwo hro =>
    obtain ⟨w', hw', hwo⟩ := h.resolved hdepth hw hwo
    obtain ⟨r', hr', hro⟩ := h.resolved hdepth hr hro
    exact (only_within_minimalTypes (h.keyErased hw' hwo) (h.keyErased hr' hro)).andThen
      only_require
  · exact only_no

theorem checkMemberPair_only {wm rm : MinimalStructMember} {nameMismatch : String}
    {positional : Bool} (hw : P wm.common.memberTypeId) (hr : P rm.common.memberTypeId) :
    Only (Question.Within P O assumed cfg)
      (checkMemberPair reg assumed cfg wm rm nameMismatch positional) :=
  only_require.andThen (only_require.andThen (memberTypesAssignable_only h hdepth hw hr positional))

theorem keyHolderAssignable_only (hw : P w) (hr : P r) :
    Only (Question.Within P O assumed cfg) (keyHolderAssignable reg assumed cfg w r) := by
  unfold keyHolderAssignable
  split
  · exact only_yes
  split
  · next ws rs hws hrs =>
    obtain ⟨w', hw', hws⟩ := h.resolved hdepth hw hws
    obtain ⟨r', hr', hrs⟩ := h.resolved hdepth hr hrs
    split
    · next wh rh hwh hrh =>
      exact only_within_minimalTypes (h.keyHolder hw' hws hdepth hwh)
        (h.keyHolder hr' hrs hdepth hrh)
    · exact only_no
  · next wu ru hwu hru =>
    obtain ⟨w', hw', hwu⟩ := h.resolved hdepth hw hwu
    obtain ⟨r', hr', hru⟩ := h.resolved hdepth hr hru
    have hwo := h.object hw' hwu
    have hro := h.object hr' hru
    simp only
    split
    · exact only_require.andThen (stronglyAssignable_only
        (h.named hwo _ List.mem_cons_self) (h.named hro _ List.mem_cons_self))
    · exact only_within_minimalTypes hwo hro
  · exact only_within_assignable hw hr

variable {u : MinimalUnionType}

omit [Digests] h hdepth in
theorem mem_of_memberByLabel {v : Int} {m : MinimalUnionMember}
    (hm : memberByLabel u v = some m) : m ∈ u.memberSeq :=
  List.mem_of_find?_eq_some hm

omit [Digests] h hdepth in
theorem mem_of_defaultMember {m : MinimalUnionMember}
    (hm : defaultMember u = some m) : m ∈ u.memberSeq :=
  List.mem_of_find?_eq_some hm

omit [Digests] h hdepth in
theorem mem_of_labelledMembers {l : Int × MinimalUnionMember}
    (hl : l ∈ labelledMembers u) : l.2 ∈ u.memberSeq := by
  obtain ⟨m, hm, hl⟩ := List.mem_flatMap.mp hl
  obtain ⟨v, -, rfl⟩ := List.mem_map.mp hl
  exact hm

theorem labelledValueFits_only {w r : MinimalUnionType} (v : Int)
    (hw : ∀ m ∈ w.memberSeq, P m.common.typeId) (hr : ∀ m ∈ r.memberSeq, P m.common.typeId) :
    Only (Question.Within P O assumed cfg) (labelledValueFits reg assumed cfg w r v) := by
  unfold labelledValueFits
  split
  · exact only_yes
  · next wm hwm =>
    split
    · exact only_no
    · next rm hrm =>
      have hmem : rm ∈ r.memberSeq := by
        rcases Option.or_eq_some_iff.mp hrm with hrm | ⟨-, hrm⟩
        · exact mem_of_memberByLabel hrm
        · exact mem_of_defaultMember hrm
      exact keyHolderAssignable_only h hdepth (hw wm (mem_of_memberByLabel hwm)) (hr rm hmem)

theorem defaultedValueFits_only {domain : Option (SortedSet Int)} {wd : MinimalUnionMember}
    {r : MinimalUnionType} (v : Int) (hwd : P wd.common.typeId)
    (hr : ∀ m ∈ r.memberSeq, P m.common.typeId) :
    Only (Question.Within P O assumed cfg) (defaultedValueFits reg assumed cfg domain wd r v) := by
  unfold defaultedValueFits
  split
  · exact only_yes
  split
  · exact only_yes
  · next rm hrm => exact keyHolderAssignable_only h hdepth hwd (hr rm (mem_of_memberByLabel hrm))

theorem leftOverFits_only {domain : Option (SortedSet Int)} {wd : MinimalUnionMember}
    {w r : MinimalUnionType} (hwd : P wd.common.typeId)
    (hr : ∀ m ∈ r.memberSeq, P m.common.typeId) :
    Only (Question.Within P O assumed cfg) (leftOverFits reg assumed cfg domain wd w r) := by
  unfold leftOverFits
  split
  · split
    · exact only_no
    · next rd hrd => exact keyHolderAssignable_only h hdepth hwd (hr rd (mem_of_defaultMember hrd))
  · exact only_yes

theorem unionKeyValuesFit_only {w r : MinimalUnionType} (hw : ∀ m ∈ w.memberSeq, P m.common.typeId)
    (hr : ∀ m ∈ r.memberSeq, P m.common.typeId) :
    Only (Question.Within P O assumed cfg) (unionKeyValuesFit reg assumed cfg w r) := by
  refine Only.andThen (.all fun v _ => labelledValueFits_only h hdepth v hw hr) ?_
  split
  · exact only_yes
  · next wd hwd =>
    have hwd' := hw wd (mem_of_defaultMember hwd)
    exact Only.andThen (.all fun v _ => defaultedValueFits_only h hdepth v hwd' hr)
      (leftOverFits_only h hdepth hwd' hr)

theorem ClosedUnder.unionMembers {ti : TypeIdentifier} (hti : P ti)
    (hu : resolvedMinimalObject reg cfg ti = some (.union u)) :
    ∀ m ∈ u.memberSeq, P m.common.typeId := by
  obtain ⟨ti', hti', hu⟩ := h.resolved hdepth hti hu
  intro m hm
  exact h.named (h.object hti' hu) _ (List.mem_cons_of_mem _ (List.mem_map_of_mem hm))

theorem keyMemberFits_only {r : MinimalStructType} {wm : MinimalStructMember}
    (hw : P wm.common.memberTypeId) (hr : ∀ m ∈ r.memberSeq, P m.common.memberTypeId) :
    Only (Question.Within P O assumed cfg) (keyMemberFits reg assumed cfg r wm) := by
  unfold keyMemberFits
  split
  · exact only_yes
  split
  · exact only_yes
  next rm hrm =>
  split
  · next wt rt hwt hrt =>
    have hwt' : P wt := h.chain hw (hdepth ▸ hwt)
    have hrt' : P rt := h.chain (hr rm (List.mem_of_find?_eq_some hrm)) (hdepth ▸ hrt)
    refine (silent_keyLengthFits wt rt).only.andThen <|
      (silent_keyLiteralsFit reg wt rt).only.andThen <|
      (keyHolderAssignable_only h hdepth hwt' hrt').andThen ?_
    unfold keyUnionFits
    split
    · next wu ru hwu hru =>
      exact unionKeyValuesFit_only h hdepth (h.unionMembers hdepth hwt' hwu)
        (h.unionMembers hdepth hrt' hru)
    · exact only_yes
  · exact only_yes

theorem checkMemberPairs_only {idMismatch nameMismatch : String}
    {pairs : List (MinimalStructMember × MinimalStructMember)}
    (hpairs : ∀ pair ∈ pairs, P pair.1.common.memberTypeId ∧ P pair.2.common.memberTypeId) :
    Only (Question.Within P O assumed cfg)
      (checkMemberPairs reg assumed cfg idMismatch nameMismatch pairs) :=
  .all fun pair hpair => only_require.andThen
    (checkMemberPair_only h hdepth (hpairs pair hpair).1 (hpairs pair hpair).2)

theorem checkFlatStructs_only {ext : StructExt} {w r : MinimalStructType}
    (hw : ∀ m ∈ w.memberSeq, P m.common.memberTypeId)
    (hr : ∀ m ∈ r.memberSeq, P m.common.memberTypeId) :
    Only (Question.Within P O assumed cfg) (checkFlatStructs reg assumed cfg ext w r) := by
  have hzip : ∀ pair ∈ w.memberSeq.zip r.memberSeq,
      P pair.1.common.memberTypeId ∧ P pair.2.common.memberTypeId := fun pair hpair =>
    ⟨hw _ (List.of_mem_zip hpair).1, hr _ (List.of_mem_zip hpair).2⟩
  have hkeys : Only (Question.Within P O assumed cfg) (keyMembersFit reg assumed cfg w r) := by
    unfold keyMembersFit
    split
    · exact only_yes
    · exact .all fun wm hwm => keyMemberFits_only h hdepth (hw wm hwm) hr
  refine Only.andThen ?_ <| only_require.andThen <| hkeys.andThen <| Only.andThen ?_ ?_
  · split
    · exact only_yes
    · exact (silent_structNamesAndIdsAgree w r).only
  · split
    · exact (silent_readerIsNotWider w r).only
    · exact only_yes
  cases ext with
  | final => exact only_require.andThen (checkMemberPairs_only h hdepth hzip)
  | appendable =>
    refine (checkMemberPairs_only h hdepth fun pair hpair =>
      hzip pair (List.mem_of_mem_take hpair)).andThen ?_
    exact Only.andThen (.all fun _ _ => only_require) (.all fun _ _ => only_require)
  | mutable =>
    refine Only.andThen (.all fun rm hrm => ?_) (.all fun _ _ => only_require)
    split
    · next wm hwm =>
      exact checkMemberPair_only h hdepth (hw wm (List.mem_of_find?_eq_some hwm)) (hr rm hrm)
    · exact only_require

omit [Digests] h hdepth in
theorem mem_allMembers_of_flat {s flat : MinimalStructType} {m : MinimalStructMember}
    (hflat : flattenInheritance s reg maxDepth = .ok flat) (hm : m ∈ flat.memberSeq) :
    m ∈ s.allMembers reg maxDepth := by
  rw [MinimalStructType.allMembers, hflat]
  exact List.mem_append_right _ hm

theorem checkStructs_only {w r : MinimalStructType} (hw : O (.struct w)) (hr : O (.struct r)) :
    Only (Question.Within P O assumed cfg) (checkStructs reg assumed cfg w r) := by
  have hnamed : ∀ {s : MinimalStructType}, O (.struct s) →
      ∀ m ∈ s.allMembers reg maxDepth, P m.common.memberTypeId :=
    fun hs m hm => h.named hs _ (List.mem_map_of_mem hm)
  refine only_require.andThen ?_
  split
  · exact checkFlatStructs_only h hdepth
      (fun m hm => hnamed hw m (List.mem_append_left _ hm))
      (fun m hm => hnamed hr m (List.mem_append_left _ hm))
  split
  · exact only_no
  next wFlat hwFlat =>
  split
  · exact only_no
  next rFlat hrFlat =>
  rw [hdepth] at hwFlat hrFlat
  exact checkFlatStructs_only h hdepth
    (fun m hm => hnamed hw m (mem_allMembers_of_flat hwFlat hm))
    (fun m hm => hnamed hr m (mem_allMembers_of_flat hrFlat hm))

omit hdepth in
theorem checkUnions_only {w r : MinimalUnionType} (hw : O (.union w)) (hr : O (.union r)) :
    Only (Question.Within P O assumed cfg) (checkUnions reg assumed cfg w r) := by
  have hwm : ∀ m ∈ w.memberSeq, P m.common.typeId := fun m hm =>
    h.named hw _ (List.mem_cons_of_mem _ (List.mem_map_of_mem hm))
  have hrm : ∀ m ∈ r.memberSeq, P m.common.typeId := fun m hm =>
    h.named hr _ (List.mem_cons_of_mem _ (List.mem_map_of_mem hm))
  refine only_require.andThen <| only_require.andThen <|
    (stronglyAssignable_only (h.named hw _ List.mem_cons_self)
      (h.named hr _ List.mem_cons_self)).andThen <|
    Only.andThen ?names <| Only.andThen ?wider <| only_require.andThen <|
    Only.andThen (.all fun wl hwl => ?label) <| Only.andThen ?final <|
    Only.andThen ?default ?defaults
  case names =>
    split
    · exact only_yes
    · exact (silent_unionNamesAndIdsAgree w r).only
  case wider =>
    split
    · exact (silent_readerLabelsKnown w r _).only
    · exact only_yes
  case label =>
    have hwl' := hwm _ (mem_of_labelledMembers hwl)
    unfold checkWriterLabel
    split
    · next rm hfound => exact only_within_assignable hwl' (hrm _ (mem_of_memberByLabel hfound))
    split
    · exact only_no
    split
    · next rd hrd => exact only_within_assignable hwl' (hrm _ (mem_of_defaultMember hrd))
    · exact only_yes
  case final =>
    split
    · exact (silent_readerLabelsKnown w r _).only
    · exact only_yes
  case default =>
    unfold checkWriterDefault
    split
    · exact only_yes
    next wd hwd =>
    refine .all fun rl hrl => ?_
    split
    · exact only_yes
    · exact only_within_assignable (hwm _ (mem_of_defaultMember hwd))
        (hrm _ (mem_of_labelledMembers hrl))
  case defaults =>
    unfold checkDefaultMembers
    split
    · next wd rd hwd hrd =>
      exact only_within_assignable (hwm _ (mem_of_defaultMember hwd))
        (hrm _ (mem_of_defaultMember hrd))
    · exact only_yes
    · exact only_require
    · exact only_require

theorem checkMinimalTypes_only {w r : MinimalTypeObject} (hw : O w) (hr : O r) :
    Only (Question.Within P O assumed cfg) (checkMinimalTypes reg assumed cfg w r) := by
  unfold checkMinimalTypes
  split
  · exact checkStructs_only h hdepth hw hr
  · exact (silent_checkEnumerations cfg _ _).only
  · exact checkUnions_only h hw hr
  · exact only_require
  · exact (silent_checkBitsets cfg _ _).only
  · exact only_within_assignable (h.named hw _ List.mem_cons_self)
      (h.named hr _ List.mem_cons_self)
  · exact only_require.andThen (stronglyAssignable_only (h.named hw _ List.mem_cons_self)
      (h.named hr _ List.mem_cons_self))
  · exact only_require.andThen (stronglyAssignable_only (h.named hw _ List.mem_cons_self)
      (h.named hr _ List.mem_cons_self))
  · exact only_require.andThen <|
      (stronglyAssignable_only (h.named hw _ List.mem_cons_self)
        (h.named hr _ List.mem_cons_self)).andThen <|
      stronglyAssignable_only (h.named hw _ (List.mem_cons_of_mem _ List.mem_cons_self))
        (h.named hr _ (List.mem_cons_of_mem _ List.mem_cons_self))
  · exact only_no
  · exact only_no

omit hdepth in
theorem checkObjects_only {reason : String} (hw : P w) (hr : P r) :
    Only (Question.Within P O assumed cfg)
      (checkObjects assumed cfg (resolveMinimal reg w) (resolveMinimal reg r) reason) := by
  unfold checkObjects
  split
  · next wo ro hwo hro => exact only_within_minimalTypes (h.object hw hwo) (h.object hr hro)
  · exact only_no

omit hdepth in
theorem checkAssuming_only {wo ro : MinimalTypeObject} (hw : P w) (hr : P r)
    (hwo : resolveMinimal reg w = some wo) (hro : resolveMinimal reg r = some ro) :
    Only (Question.Assumes P O assumed cfg) (checkAssuming assumed cfg w r wo ro) := by
  unfold checkAssuming
  split
  · exact only_yes
  · next hnew =>
    refine only_minimalTypes ⟨w, r, wo, ro, rfl, fun hmem => hnew ?_, hw, hr, h.object hw hwo,
      h.object hr hro⟩
    exact List.any_eq_true.mpr ⟨(w, r), hmem, by simp⟩

omit hdepth in
theorem checkDirect_only (hw : P w) (hr : P r) :
    Only (fun q => q.Within P O assumed cfg ∨ q.Assumes P O assumed cfg)
      (checkDirect reg assumed cfg w r) := by
  have hcomponent : Only (fun q => q.Within P O assumed cfg ∨ q.Assumes P O assumed cfg)
      (checkComponents reg assumed cfg w r) := by
    unfold checkComponents
    split
    · next wo ro hwo hro => exact (checkAssuming_only h hw hr hwo hro).mono fun q => Or.inr
    · exact only_no
  unfold checkDirect
  split
  · exact only_yes
  split
  all_goals first
    | exact only_done
    | exact only_require
    | exact only_no
    | exact hcomponent
    | skip
  · next we wb re rb hws hrs =>
    exact (only_require.andThen (stronglyAssignable_only (h.part hw we (by simp [hws, Shape.parts]))
      (h.part hr re (by simp [hrs, Shape.parts])))).mono fun q => Or.inl
  · next we wb re rb hws hrs =>
    exact (only_require.andThen (stronglyAssignable_only (h.part hw we (by simp [hws, Shape.parts]))
      (h.part hr re (by simp [hrs, Shape.parts])))).mono fun q => Or.inl
  · next we wk wb re rk rb hws hrs =>
    exact (only_require.andThen <|
      (stronglyAssignable_only (h.part hw wk (by simp [hws, Shape.parts]))
        (h.part hr rk (by simp [hrs, Shape.parts]))).andThen <|
      stronglyAssignable_only (h.part hw we (by simp [hws, Shape.parts]))
        (h.part hr re (by simp [hrs, Shape.parts]))).mono fun q => Or.inl
  · exact (checkObjects_only h hw hr).mono fun q => Or.inl
  · exact (only_require.andThen (checkObjects_only h hw hr)).mono fun q => Or.inl
  · exact (only_require.andThen (checkObjects_only h hw hr)).mono fun q => Or.inl
  · exact (only_require.andThen (checkObjects_only h hw hr)).mono fun q => Or.inl

theorem isAssignableBody_only (hw : P w) (hr : P r) :
    Only (fun q => q.Within P O assumed cfg ∨ q.Assumes P O assumed cfg)
      (isAssignableBody reg assumed cfg w r) := by
  unfold isAssignableBody
  split
  · exact only_no
  split
  · exact only_yes
  split
  · exact only_no
  next w' hw' =>
  split
  · exact only_no
  next r' hr' =>
  exact checkDirect_only h (h.chain hw (hdepth ▸ hw')) (h.chain hr (hdepth ▸ hr'))

omit hdepth in
theorem check_only {q q' : Question} (hdepth : q.cfg.maxDepth = maxDepth) (hq : q.Inside P O)
    (hleads : Leads (check reg) q q') :
    q'.Within P O q.assumed q.cfg ∨ q'.Assumes P O q.assumed q.cfg := by
  cases q with
  | isAssignable assumed cfg w r => exact isAssignableBody_only h hdepth hq.1 hq.2 q' hleads
  | checkMinimalTypes assumed cfg w r =>
    exact Or.inl (checkMinimalTypes_only h hdepth hq.1 hq.2 q' hleads)

end

end ZeroDds.Types
