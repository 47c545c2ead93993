/-
Relaxing the rules keeps every match.
-/
import ZeroDds.Types.Assignability

namespace ZeroDds.Types

structure Relaxes (c c' : AssignabilityConfig) : Prop where
  allowTypeCoercion : c'.allowTypeCoercion = c.allowTypeCoercion
  ignoreSequenceBounds : c.ignoreSequenceBounds = true → c'.ignoreSequenceBounds = true
  ignoreStringBounds : c.ignoreStringBounds = true → c'.ignoreStringBounds = true
  ignoreMemberNames : c.ignoreMemberNames = true → c'.ignoreMemberNames = true
  ignoreLiteralNames : c'.ignoreLiteralNames = c.ignoreLiteralNames
  preventTypeWidening : c'.preventTypeWidening = true → c.preventTypeWidening = true
  maxDepth : c'.maxDepth = c.maxDepth
  keyMemberBounds : c.keyMemberBounds = .ignored → c'.keyMemberBounds = .ignored
  appendableIsDelimited : c.appendableIsDelimited = true → c'.appendableIsDelimited = true
  strongAssignability : c'.strongAssignability = c.strongAssignability

inductive Question.Relaxed : Question → Question → Prop
  | isAssignable {assumed : Assumed} {c c' : AssignabilityConfig} {w r : TypeIdentifier}
      (h : Relaxes c c') : Relaxed (.isAssignable assumed c w r) (.isAssignable assumed c' w r)
  | checkMinimalTypes {assumed : Assumed} {c c' : AssignabilityConfig} {w r : MinimalTypeObject}
      (h : Relaxes c c') :
      Relaxed (.checkMinimalTypes assumed c w r) (.checkMinimalTypes assumed c' w r)

open Check

/-! ### What does not depend on the rules -/

section

variable [Digests] {reg : TypeRegistry} {c c' : AssignabilityConfig}

namespace Relaxes

section

variable (h : Relaxes c c')
include h

theorem resolvedMinimalObject_eq (ti : TypeIdentifier) :
    resolvedMinimalObject reg c' ti = resolvedMinimalObject reg c ti := by
  rw [resolvedMinimalObject, resolvedMinimalObject, h.maxDepth]

theorem isAggregated_eq (ti : TypeIdentifier) :
    isAggregated reg c' ti = isAggregated reg c ti := by
  rw [isAggregated, isAggregated, h.resolvedMinimalObject_eq]

theorem minimalEquivalent_eq (w r : TypeIdentifier) :
    minimalEquivalent reg c' w r = minimalEquivalent reg c w r := by
  rw [minimalEquivalent, minimalEquivalent, h.maxDepth]

omit [Digests] in
theorem keyHolderStruct_eq (s : MinimalStructType) :
    keyHolderStruct reg c' s = keyHolderStruct reg c s := by
  rw [keyHolderStruct, keyHolderStruct, h.maxDepth]

theorem discriminatorValues_eq (ti : TypeIdentifier) :
    discriminatorValues reg c' ti = discriminatorValues reg c ti := by
  rw [discriminatorValues, discriminatorValues, h.maxDepth]

omit [Digests] in
theorem extDelimited_of {ext : StructExt} (hext : extDelimited c ext = true) :
    extDelimited c' ext = true := by
  cases ext with
  | final => cases hext
  | appendable => exact h.appendableIsDelimited hext
  | mutable => rfl

theorem isDelimitedAt_of {left : Nat} {ti : TypeIdentifier}
    (hti : isDelimitedAt reg c left ti = true) : isDelimitedAt reg c' left ti = true := by
  induction left generalizing ti with
  | zero => cases hti
  | succ left ih =>
    rw [isDelimitedAt] at hti ⊢
    rw [h.maxDepth]
    cases hresolve : resolveAliasChain ti reg c.maxDepth with
    | error e => simp [hresolve] at hti
    | ok t =>
      simp only [hresolve] at hti ⊢
      cases hshape : t.shape <;> simp only [hshape] at hti ⊢
      case sequence => exact ih hti
      case array => exact ih hti
      case map =>
        rw [Bool.and_eq_true] at hti ⊢
        exact ⟨ih hti.1, ih hti.2⟩
      case other => cases hti
      all_goals
        rcases hobject : resolveMinimal reg t with _ | object
        · simp [hobject] at hti
        · cases object <;> simp only [hobject] at hti ⊢
          case struct => exact h.extDelimited_of hti
          case union => exact h.extDelimited_of hti
          case sequence => exact ih hti
          case array => exact ih hti
          case map =>
            rw [Bool.and_eq_true] at hti ⊢
            exact ⟨ih hti.1, ih hti.2⟩
          all_goals cases hti

theorem isDelimited_of {ti : TypeIdentifier}
    (hti : isDelimited reg c ti = true) : isDelimited reg c' ti = true := by
  rw [isDelimited, h.maxDepth]
  exact h.isDelimitedAt_of hti

end

end Relaxes

/-! ### The checks under relaxed rules -/

section Checks

variable {oracle oracle' : Question → Option Assignable} {assumed : Assumed}

def KeepsYes (oracle oracle' : Question → Option Assignable) : Prop :=
  ∀ q q' : Question, q.Relaxed q' → oracle q = some .yes → oracle' q' = some .yes

variable (ho : KeepsYes oracle oracle') (h : Relaxes c c')
include ho h

variable {w r : TypeIdentifier}

omit [Digests] in
theorem assignable_relaxed (hyes : SaysYes oracle (assignable assumed c w r)) :
    SaysYes oracle' (assignable assumed c' w r) :=
  saysYes_assignable.mpr (ho _ _ (.isAssignable h) (saysYes_assignable.mp hyes))

omit [Digests] in
theorem minimalTypes_relaxed {w r : MinimalTypeObject}
    (hyes : SaysYes oracle (minimalTypes assumed c w r)) :
    SaysYes oracle' (minimalTypes assumed c' w r) :=
  saysYes_minimalTypes.mpr (ho _ _ (.checkMinimalTypes h) (saysYes_minimalTypes.mp hyes))

omit [Digests] in
theorem equivalentButForMemberNames_relaxed (hsame :
    (equivalentButForMemberNames assumed c w r).runWith oracle = some true) :
    (equivalentButForMemberNames assumed c' w r).runWith oracle' = some true := by
  have hexact : Relaxes c.exact c'.exact :=
    ⟨h.allowTypeCoercion, id, id, id, h.ignoreLiteralNames, id, h.maxDepth, h.keyMemberBounds,
      h.appendableIsDelimited, h.strongAssignability⟩
  simp only [equivalentButForMemberNames, Asking.runWith_bind] at hsame ⊢
  obtain ⟨a, ha, hsame⟩ := Option.bind_eq_some_iff.mp hsame
  cases a with
  | no reason => simp at hsame
  | yes =>
    rw [Asking.runWith_bind] at hsame
    obtain ⟨b, hb, hback⟩ := Option.bind_eq_some_iff.mp hsame
    cases b with
    | no reason => simp [Assignable.isYes] at hback
    | yes =>
      have hforth : SaysYes oracle' _ := assignable_relaxed ho hexact ha
      have hagain : SaysYes oracle' _ := assignable_relaxed ho hexact hb
      rw [hforth]
      simp only [Option.bind_some, Asking.runWith_bind]
      rw [hagain]
      rfl

theorem stronglyAssignable_relaxed (hyes : SaysYes oracle (stronglyAssignable reg assumed c w r)) :
    SaysYes oracle' (stronglyAssignable reg assumed c' w r) := by
  rw [stronglyAssignable, saysYes_andThen] at hyes ⊢
  refine ⟨assignable_relaxed ho h hyes.1, ?_⟩
  rw [h.minimalEquivalent_eq, h.strongAssignability]
  have hstrong := hyes.2
  cases heq : minimalEquivalent reg c w r with
  | true => simp
  | false =>
    cases hdel' : isDelimited reg c' w with
    | true => simp
    | false =>
      have hdel : isDelimited reg c w = false := by
        by_contra hne
        have htrue : isDelimited reg c w = true := by simpa using hne
        rw [h.isDelimited_of htrue] at hdel'
        cases hdel'
      simp only [heq, hdel, Bool.or_self, Bool.false_eq_true, if_false] at hstrong ⊢
      split at hstrong
      · next hignored =>
        rw [if_pos hignored]
        rw [SaysYes, Asking.runWith_bind] at hstrong ⊢
        obtain ⟨same, hsame, hrest⟩ := Option.bind_eq_some_iff.mp hstrong
        have htrue : same = true := saysYes_require.mp hrest
        subst htrue
        rw [equivalentButForMemberNames_relaxed ho h hsame]
        rfl
      · exact absurd hstrong saysYes_no

theorem memberTypesAssignable_relaxed {strong : Bool}
    (hyes : SaysYes oracle (memberTypesAssignable reg assumed c w r strong)) :
    SaysYes oracle' (memberTypesAssignable reg assumed c' w r strong) := by
  unfold memberTypesAssignable at hyes ⊢
  rw [h.isAggregated_eq, h.isAggregated_eq, h.resolvedMinimalObject_eq, h.resolvedMinimalObject_eq,
    h.minimalEquivalent_eq]
  by_cases heq : w = r
  · rw [if_pos heq]
    exact saysYes_yes
  rw [if_neg heq] at hyes ⊢
  split at hyes
  · next hplain =>
    rw [if_pos hplain]
    cases strong with
    | true => exact stronglyAssignable_relaxed ho h hyes
    | false => exact assignable_relaxed ho h hyes
  · next haggregated =>
    rw [if_neg haggregated]
    cases hwo : resolvedMinimalObject reg c w with
    | none => simp [hwo] at hyes
    | some wo =>
      cases hro : resolvedMinimalObject reg c r with
      | none => simp [hwo, hro] at hyes
      | some ro =>
        simp only [hwo, hro, saysYes_andThen, saysYes_require, Bool.or_eq_true] at hyes ⊢
        exact ⟨minimalTypes_relaxed ho h hyes.1, hyes.2.imp_right h.isDelimited_of⟩

theorem checkMemberPair_relaxed {wm rm : MinimalStructMember} {nameMismatch : String}
    {positional : Bool}
    (hyes : SaysYes oracle (checkMemberPair reg assumed c wm rm nameMismatch positional)) :
    SaysYes oracle' (checkMemberPair reg assumed c' wm rm nameMismatch positional) := by
  simp only [checkMemberPair, saysYes_andThen, saysYes_require, Bool.or_eq_true] at hyes ⊢
  obtain ⟨hnames, hoptional, htypes⟩ := hyes
  exact ⟨hnames.imp_left h.ignoreMemberNames, hoptional, memberTypesAssignable_relaxed ho h htypes⟩

theorem keyHolderAssignable_relaxed (hyes : SaysYes oracle (keyHolderAssignable reg assumed c w r))
    :
    SaysYes oracle' (keyHolderAssignable reg assumed c' w r) := by
  unfold keyHolderAssignable at hyes ⊢
  rw [h.resolvedMinimalObject_eq, h.resolvedMinimalObject_eq]
  by_cases heq : w = r
  · rw [if_pos heq]
    exact saysYes_yes
  rw [if_neg heq] at hyes ⊢
  split at hyes
  · next ws rs hws hrs =>
    simp only [h.keyHolderStruct_eq]
    cases hwh : keyHolderStruct reg c ws with
    | none => simp [hwh] at hyes
    | some wh =>
      cases hrh : keyHolderStruct reg c rs with
      | none => simp [hwh, hrh] at hyes
      | some rh =>
        simp only [hwh, hrh] at hyes
        exact minimalTypes_relaxed ho h hyes
  · next wu ru hwu hru =>
    simp only at hyes ⊢
    split at hyes
    · next hkey =>
      rw [if_pos hkey]
      rw [saysYes_andThen, saysYes_require] at hyes ⊢
      exact ⟨hyes.1, stronglyAssignable_relaxed ho h hyes.2⟩
    · next hkey =>
      rw [if_neg hkey]
      exact minimalTypes_relaxed ho h hyes
  · exact assignable_relaxed ho h hyes

theorem labelledValueFits_relaxed {w r : MinimalUnionType} {v : Int}
    (hyes : SaysYes oracle (labelledValueFits reg assumed c w r v)) :
    SaysYes oracle' (labelledValueFits reg assumed c' w r v) := by
  unfold labelledValueFits at hyes ⊢
  cases hwm : memberByLabel w v with
  | none => simp
  | some wm =>
    cases hrm : (memberByLabel r v).or (defaultMember r) with
    | none => simp [hwm, hrm] at hyes
    | some rm =>
      simp only [hwm, hrm] at hyes ⊢
      exact keyHolderAssignable_relaxed ho h hyes

theorem defaultedValueFits_relaxed {domain : Option (SortedSet Int)} {wd : MinimalUnionMember}
    {r : MinimalUnionType} {v : Int}
    (hyes : SaysYes oracle (defaultedValueFits reg assumed c domain wd r v)) :
    SaysYes oracle' (defaultedValueFits reg assumed c' domain wd r v) := by
  unfold defaultedValueFits at hyes ⊢
  cases hrm : memberByLabel r v with
  | none => simp
  | some rm =>
    simp only [hrm, saysYes_unless] at hyes ⊢
    exact hyes.imp_right (keyHolderAssignable_relaxed ho h)

theorem leftOverFits_relaxed {domain : Option (SortedSet Int)} {wd : MinimalUnionMember}
    {w r : MinimalUnionType} (hyes : SaysYes oracle (leftOverFits reg assumed c domain wd w r)) :
    SaysYes oracle' (leftOverFits reg assumed c' domain wd w r) := by
  unfold leftOverFits at hyes ⊢
  cases hleft : leftOver domain w r with
  | false => simp
  | true =>
    cases hrd : defaultMember r with
    | none => simp [hleft, hrd] at hyes
    | some rd =>
      simp only [hleft, hrd, if_true] at hyes ⊢
      exact keyHolderAssignable_relaxed ho h hyes

theorem unionKeyValuesFit_relaxed {w r : MinimalUnionType}
    (hyes : SaysYes oracle (unionKeyValuesFit reg assumed c w r)) :
    SaysYes oracle' (unionKeyValuesFit reg assumed c' w r) := by
  rw [unionKeyValuesFit, saysYes_andThen, saysYes_all] at hyes ⊢
  refine ⟨fun v hv => labelledValueFits_relaxed ho h (hyes.1 v hv), ?_⟩
  have hdefault := hyes.2
  cases hwd : defaultMember w with
  | none => simp
  | some wd =>
    simp only [hwd, h.discriminatorValues_eq, saysYes_andThen, saysYes_all] at hdefault ⊢
    exact ⟨fun v hv => defaultedValueFits_relaxed ho h (hdefault.1 v hv),
      leftOverFits_relaxed ho h hdefault.2⟩

theorem keyUnionFits_relaxed {wt rt : TypeIdentifier}
    (hyes : SaysYes oracle (keyUnionFits reg assumed c wt rt)) :
    SaysYes oracle' (keyUnionFits reg assumed c' wt rt) := by
  unfold keyUnionFits at hyes ⊢
  rw [h.resolvedMinimalObject_eq, h.resolvedMinimalObject_eq]
  split at hyes
  · exact unionKeyValuesFit_relaxed ho h hyes
  · exact saysYes_yes

theorem keyMemberFits_relaxed {r : MinimalStructType} {wm : MinimalStructMember}
    (hyes : SaysYes oracle (keyMemberFits reg assumed c r wm)) :
    SaysYes oracle' (keyMemberFits reg assumed c' r wm) := by
  unfold keyMemberFits at hyes ⊢
  cases hkey : hasFlag wm.common.memberFlags MemberFlag.isKey with
  | false => simp
  | true =>
    simp only [hkey, h.maxDepth, Bool.not_true, Bool.false_eq_true, if_false] at hyes ⊢
    split at hyes
    · exact saysYes_yes
    · split at hyes
      · simp only [saysYes_andThen] at hyes ⊢
        obtain ⟨hlength, hliterals, hholder, hunion⟩ := hyes
        exact ⟨(silent_keyLengthFits _ _).saysYes_iff.mp hlength,
          (silent_keyLiteralsFit reg _ _).saysYes_iff.mp hliterals,
          keyHolderAssignable_relaxed ho h hholder, keyUnionFits_relaxed ho h hunion⟩
      · exact saysYes_yes

theorem keyMembersFit_relaxed {w r : MinimalStructType}
    (hyes : SaysYes oracle (keyMembersFit reg assumed c w r)) :
    SaysYes oracle' (keyMembersFit reg assumed c' w r) := by
  unfold keyMembersFit at hyes ⊢
  by_cases hignored' : c'.keyMemberBounds = .ignored
  · rw [if_pos hignored']
    exact saysYes_yes
  · have hignored : c.keyMemberBounds ≠ .ignored := fun heq => hignored' (h.keyMemberBounds heq)
    rw [if_neg hignored, saysYes_all] at hyes
    rw [if_neg hignored', saysYes_all]
    exact fun wm hwm => keyMemberFits_relaxed ho h (hyes wm hwm)

theorem checkMemberPairs_relaxed {idMismatch nameMismatch : String}
    {pairs : List (MinimalStructMember × MinimalStructMember)}
    (hyes : SaysYes oracle (checkMemberPairs reg assumed c idMismatch nameMismatch pairs)) :
    SaysYes oracle' (checkMemberPairs reg assumed c' idMismatch nameMismatch pairs) := by
  simp only [checkMemberPairs, saysYes_all, saysYes_andThen, saysYes_require] at hyes ⊢
  exact fun pair hpair => ⟨(hyes pair hpair).1, checkMemberPair_relaxed ho h (hyes pair hpair).2⟩

theorem checkMutableStructs_relaxed {w r : MinimalStructType}
    (hyes : SaysYes oracle (checkMutableStructs reg assumed c w r)) :
    SaysYes oracle' (checkMutableStructs reg assumed c' w r) := by
  simp only [checkMutableStructs, saysYes_andThen, saysYes_all] at hyes ⊢
  refine ⟨fun rm hrm => ?_, fun wm hwm => by simpa using hyes.2 wm hwm⟩
  have hmember := hyes.1 rm hrm
  split at hmember
  · exact checkMemberPair_relaxed ho h hmember
  · simpa using hmember

theorem checkFlatStructs_relaxed {ext : StructExt} {w r : MinimalStructType}
    (hyes : SaysYes oracle (checkFlatStructs reg assumed c ext w r)) :
    SaysYes oracle' (checkFlatStructs reg assumed c' ext w r) := by
  simp only [checkFlatStructs, saysYes_andThen] at hyes ⊢
  obtain ⟨hnames, hcommon, hkeys, hwider, hmembers⟩ := hyes
  refine ⟨?_, by simpa [atLeastOneCommonMemberId] using hcommon, keyMembersFit_relaxed ho h hkeys,
    ?_, ?_⟩
  · rw [saysYes_unless] at hnames ⊢
    exact hnames.imp h.ignoreMemberNames (silent_structNamesAndIdsAgree w r).saysYes_iff.mp
  · rw [saysYes_when] at hwider ⊢
    intro hprevent
    exact (silent_readerIsNotWider w r).saysYes_iff.mp (hwider (h.preventTypeWidening hprevent))
  · cases ext with
    | final =>
      simp only [checkFinalStructs, saysYes_andThen, saysYes_require] at hmembers ⊢
      exact ⟨hmembers.1, checkMemberPairs_relaxed ho h hmembers.2⟩
    | appendable =>
      simp only [checkAppendableStructs] at hmembers ⊢
      rw [saysYes_andThen] at hmembers ⊢
      exact ⟨checkMemberPairs_relaxed ho h hmembers.1, by simpa using hmembers.2⟩
    | mutable => exact checkMutableStructs_relaxed ho h hmembers

theorem checkStructs_relaxed {w r : MinimalStructType}
    (hyes : SaysYes oracle (checkStructs reg assumed c w r)) :
    SaysYes oracle' (checkStructs reg assumed c' w r) := by
  simp only [checkStructs, h.maxDepth, saysYes_andThen, saysYes_require] at hyes ⊢
  refine ⟨hyes.1, ?_⟩
  have hflat := hyes.2
  split at hflat
  · next hnone =>
    rw [if_pos hnone]
    exact checkFlatStructs_relaxed ho h hflat
  · next hbase =>
    rw [if_neg hbase]
    cases hw : flattenInheritance w reg c.maxDepth with
    | error e => simp [hw] at hflat
    | ok wFlat =>
      cases hr : flattenInheritance r reg c.maxDepth with
      | error e => simp [hw, hr] at hflat
      | ok rFlat =>
        simp only [hw, hr] at hflat ⊢
        exact checkFlatStructs_relaxed ho h hflat

omit [Digests] in
theorem checkWriterLabel_relaxed {ext : StructExt} {u : MinimalUnionType}
    {wl : Int × MinimalUnionMember} (hyes : SaysYes oracle (checkWriterLabel assumed c ext u wl)) :
    SaysYes oracle' (checkWriterLabel assumed c' ext u wl) := by
  unfold checkWriterLabel at hyes ⊢
  split at hyes
  · exact assignable_relaxed ho h hyes
  · by_cases hfinal : ext = .final
    · simp [hfinal] at hyes
    · rw [if_neg hfinal] at hyes ⊢
      split at hyes
      · exact assignable_relaxed ho h hyes
      · exact saysYes_yes

omit [Digests] in
theorem checkWriterDefault_relaxed {w r : MinimalUnionType}
    (hyes : SaysYes oracle (checkWriterDefault assumed c w r)) :
    SaysYes oracle' (checkWriterDefault assumed c' w r) := by
  unfold checkWriterDefault at hyes ⊢
  split at hyes
  · exact saysYes_yes
  · rw [saysYes_all] at hyes ⊢
    intro rl hrl
    rw [saysYes_unless]
    exact (saysYes_unless.mp (hyes rl hrl)).imp_right (assignable_relaxed ho h)

omit [Digests] in
theorem checkDefaultMembers_relaxed {ext : StructExt} {w r : MinimalUnionType}
    (hyes : SaysYes oracle (checkDefaultMembers assumed c ext w r)) :
    SaysYes oracle' (checkDefaultMembers assumed c' ext w r) := by
  unfold checkDefaultMembers at hyes ⊢
  split at hyes
  · exact assignable_relaxed ho h hyes
  · exact saysYes_yes
  · exact Check.silent_require.saysYes_iff.mp hyes
  · exact Check.silent_require.saysYes_iff.mp hyes

theorem checkUnions_relaxed {w r : MinimalUnionType}
    (hyes : SaysYes oracle (checkUnions reg assumed c w r)) :
    SaysYes oracle' (checkUnions reg assumed c' w r) := by
  simp only [checkUnions, saysYes_andThen, saysYes_require, saysYes_all] at hyes ⊢
  obtain ⟨hext, hkey, hdisc, hnames, hwider, hcommon, hlabels, hfinal, hwd, hdefaults⟩ := hyes
  refine ⟨hext, hkey, stronglyAssignable_relaxed ho h hdisc, ?_, ?_, hcommon,
    fun wl hwl => checkWriterLabel_relaxed ho h (hlabels wl hwl), ?_,
    checkWriterDefault_relaxed ho h hwd, checkDefaultMembers_relaxed ho h hdefaults⟩
  · rw [saysYes_unless] at hnames ⊢
    exact hnames.imp h.ignoreMemberNames (silent_unionNamesAndIdsAgree w r).saysYes_iff.mp
  · rw [saysYes_when] at hwider ⊢
    intro hprevent
    exact (silent_readerLabelsKnown w r _).saysYes_iff.mp (hwider (h.preventTypeWidening hprevent))
  · rw [saysYes_when] at hfinal ⊢
    exact fun heq => (silent_readerLabelsKnown w r _).saysYes_iff.mp (hfinal heq)

theorem checkMinimalTypes_relaxed {w r : MinimalTypeObject}
    (hyes : SaysYes oracle (checkMinimalTypes reg assumed c w r)) :
    SaysYes oracle' (checkMinimalTypes reg assumed c' w r) := by
  unfold checkMinimalTypes at hyes ⊢
  split at hyes
  · exact checkStructs_relaxed ho h hyes
  · next we re =>
    have hsame : checkEnumerations c' we re = checkEnumerations c we re := by
      rw [checkEnumerations, checkEnumerations, h.ignoreLiteralNames]
    simp only [hsame]
    exact (silent_checkEnumerations c we re).saysYes_iff.mp hyes
  · exact checkUnions_relaxed ho h hyes
  · exact Check.silent_require.saysYes_iff.mp hyes
  · simp only [checkBitsets, saysYes_all, saysYes_require, List.any_eq_true, Bool.and_eq_true,
      Bool.or_eq_true] at hyes ⊢
    intro wf hwf
    obtain ⟨rf, hrf, hplace, hname⟩ := hyes wf hwf
    exact ⟨rf, hrf, hplace, hname.imp_left h.ignoreMemberNames⟩
  · exact assignable_relaxed ho h hyes
  · simp only [saysYes_andThen, saysYes_require, Bool.or_eq_true] at hyes ⊢
    exact ⟨hyes.1.imp_left h.ignoreSequenceBounds, stronglyAssignable_relaxed ho h hyes.2⟩
  · simp only [saysYes_andThen, saysYes_require] at hyes ⊢
    exact ⟨hyes.1, stronglyAssignable_relaxed ho h hyes.2⟩
  · simp only [saysYes_andThen, saysYes_require, Bool.or_eq_true] at hyes ⊢
    exact ⟨hyes.1.imp_left h.ignoreSequenceBounds, stronglyAssignable_relaxed ho h hyes.2.1,
      stronglyAssignable_relaxed ho h hyes.2.2⟩
  · exact absurd hyes saysYes_no
  · exact absurd hyes saysYes_no

omit [Digests] in
theorem checkObjects_relaxed {w r : Option MinimalTypeObject} {reason : String}
    (hyes : SaysYes oracle (checkObjects assumed c w r reason)) :
    SaysYes oracle' (checkObjects assumed c' w r reason) := by
  cases w with
  | none => exact absurd hyes saysYes_no
  | some wo =>
    cases r with
    | none => exact absurd hyes saysYes_no
    | some ro => exact minimalTypes_relaxed ho h hyes

omit [Digests] in
theorem checkProjected_relaxed {wKnown rKnown : Bool} {w r : Option MinimalTypeObject}
    {unknown unprojected : String}
    (hyes : SaysYes oracle (checkProjected assumed c wKnown rKnown w r unknown unprojected)) :
    SaysYes oracle' (checkProjected assumed c' wKnown rKnown w r unknown unprojected) := by
  simp only [checkProjected, saysYes_andThen, saysYes_require] at hyes ⊢
  exact ⟨hyes.1, checkObjects_relaxed ho h hyes.2⟩

omit [Digests] in
theorem checkAssuming_relaxed {wo ro : MinimalTypeObject}
    (hyes : SaysYes oracle (checkAssuming assumed c w r wo ro)) :
    SaysYes oracle' (checkAssuming assumed c' w r wo ro) := by
  rw [checkAssuming, saysYes_unless] at hyes ⊢
  exact hyes.imp_right (minimalTypes_relaxed ho h)

theorem checkComponents_relaxed (hyes : SaysYes oracle (checkComponents reg assumed c w r)) :
    SaysYes oracle' (checkComponents reg assumed c' w r) := by
  unfold checkComponents at hyes ⊢
  split at hyes
  · exact checkAssuming_relaxed ho h hyes
  · exact absurd hyes saysYes_no

theorem checkDirect_relaxed (hyes : SaysYes oracle (checkDirect reg assumed c w r)) :
    SaysYes oracle' (checkDirect reg assumed c' w r) := by
  unfold checkDirect at hyes ⊢
  by_cases heq : w = r
  · rw [if_pos heq]
    exact saysYes_yes
  rw [if_neg heq] at hyes ⊢
  split at hyes
  · exact saysYes_done.mpr (saysYes_done.mp hyes)
  · simp only [saysYes_require, Bool.or_eq_true] at hyes ⊢
    exact hyes.imp_left h.ignoreStringBounds
  · simp only [saysYes_require, Bool.or_eq_true] at hyes ⊢
    exact hyes.imp_left h.ignoreStringBounds
  · simp only [saysYes_andThen, saysYes_require, Bool.or_eq_true] at hyes ⊢
    exact ⟨hyes.1.imp_left h.ignoreSequenceBounds, stronglyAssignable_relaxed ho h hyes.2⟩
  · simp only [saysYes_andThen, saysYes_require] at hyes ⊢
    exact ⟨hyes.1, stronglyAssignable_relaxed ho h hyes.2⟩
  · simp only [saysYes_andThen, saysYes_require, Bool.or_eq_true] at hyes ⊢
    exact ⟨hyes.1.imp_left h.ignoreSequenceBounds, stronglyAssignable_relaxed ho h hyes.2.1,
      stronglyAssignable_relaxed ho h hyes.2.2⟩
  · exact checkObjects_relaxed ho h hyes
  · exact checkProjected_relaxed ho h hyes
  · exact checkProjected_relaxed ho h hyes
  · exact checkProjected_relaxed ho h hyes
  · exact saysYes_done.mpr (saysYes_done.mp hyes)
  · exact saysYes_done.mpr (saysYes_done.mp hyes)
  · exact saysYes_done.mpr (saysYes_done.mp hyes)
  · exact saysYes_done.mpr (saysYes_done.mp hyes)
  · exact checkComponents_relaxed ho h hyes
  · exact checkComponents_relaxed ho h hyes
  · exact absurd hyes saysYes_no

theorem isAssignableBody_relaxed (hyes : SaysYes oracle (isAssignableBody reg assumed c w r)) :
    SaysYes oracle' (isAssignableBody reg assumed c' w r) := by
  unfold isAssignableBody at hyes ⊢
  rw [h.maxDepth]
  by_cases hnone : w = .none ∨ r = .none
  · rw [if_pos hnone] at hyes
    exact absurd hyes saysYes_no
  by_cases heq : w = r
  · rw [if_neg hnone, if_pos heq]
    exact saysYes_yes
  rw [if_neg hnone, if_neg heq] at hyes ⊢
  cases hw : resolveAliasChain w reg c.maxDepth with
  | error e => simp [hw] at hyes
  | ok w' =>
    cases hr : resolveAliasChain r reg c.maxDepth with
    | error e => simp [hw, hr] at hyes
    | ok r' =>
      simp only [hw, hr] at hyes ⊢
      exact checkDirect_relaxed ho h hyes

end Checks

theorem check_relaxed {q q' : Question} (hq : q.Relaxed q') :
    Simulates .yes Question.Relaxed (check reg q) (check reg q') := by
  intro oracle oracle' ho
  cases hq with
  | isAssignable h => exact isAssignableBody_relaxed ho h
  | checkMinimalTypes h => exact checkMinimalTypes_relaxed ho h

/-- Two types that match under some rules match under every relaxation of them. -/
theorem relaxed_rules_keep_the_match {w r : TypeIdentifier} (h : Relaxes c c')
    (hyes : Verdict reg w r c .yes) : Verdict reg w r c' .yes := by
  obtain ⟨fuel, hfuel⟩ := hyes
  exact ⟨fuel, Simulates.answer (fun _ _ hq => check_relaxed hq) (.isAssignable h) hfuel⟩

end

namespace TypeFixture

def strict : AssignabilityConfig where
  ignoreSequenceBounds := false
  ignoreStringBounds := false
  preventTypeWidening := true
  appendableIsDelimited := false

def lax : AssignabilityConfig where
  ignoreMemberNames := true
  keyMemberBounds := .ignored

theorem strict_relaxed : Relaxes strict lax := by
  constructor <;> decide

/-- A keyed track with a list of points, of a writer and of a reader that holds longer ones. -/
def tracks : TypeRegistry :=
  let point := .struct ⟨TypeFlag.isMutable, .none, [member 1 1 int32, member 2 1 int32]⟩
  let track := fun name points =>
    structOf [member 1 MemberFlag.isKey (.string8Small name),
      member 2 1 (sequenceOf points (hashed 3))]
  ((TypeRegistry.new.insertMinimal (hash 1) (track 8 4)).insertMinimal (hash 2)
    (track 16 10)).insertMinimal (hash 3) point

/-- They match under the strict rules, and so under the lax ones. -/
theorem tracks_match :
    @Verdict digests tracks (hashed 1) (hashed 2) strict .yes ∧
      @Verdict digests tracks (hashed 1) (hashed 2) lax .yes := by
  have hstrict : @Verdict digests tracks (hashed 1) (hashed 2) strict .yes :=
    ⟨6, by decide +kernel⟩
  exact ⟨hstrict, @relaxed_rules_keep_the_match digests _ _ _ _ _ strict_relaxed hstrict⟩

end TypeFixture

end ZeroDds.Types
