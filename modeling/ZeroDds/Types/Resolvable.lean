/-
The search for a dependency that the registry cannot answer.
-/
import ZeroDds.Lib.Worklist
import ZeroDds.Types.GetTypesReply

namespace ZeroDds.Types

/-! ### References of an object -/

def defaultMaxResolveDepth : Nat := 64

def defaultMaxResolveNodes : Nat := 4096

abbrev HashRef := EquivalenceHash × Bool

namespace TypeIdentifier

def hashRef? : TypeIdentifier → Option HashRef
  | equivalenceHashMinimal hash => some (hash, false)
  | equivalenceHashComplete hash => some (hash, true)
  | _ => .none

def ofHashRef (ref : HashRef) : TypeIdentifier :=
  if ref.2 then equivalenceHashComplete ref.1 else equivalenceHashMinimal ref.1

def component? : TypeIdentifier → Option StronglyConnectedComponentId
  | stronglyConnectedComponent scc => some scc
  | _ => .none

def pushHashRefs (ti : TypeIdentifier) : List HashRef := ti.leaves.filterMap hashRef?

def pushComponentRefs (ti : TypeIdentifier) : List StronglyConnectedComponentId :=
  ti.leaves.filterMap component?

def collectFromTi (maxDepth depth : Nat) (ti : TypeIdentifier) (collected : List EquivalenceHash) :
    Except ResolveError (List EquivalenceHash) :=
  if depth ≥ maxDepth then .error (.depthExceeded maxDepth)
  else
    match ti with
    | equivalenceHashMinimal hash | equivalenceHashComplete hash =>
      if hash ∈ collected then .ok collected
      else if collected.length ≥ defaultMaxResolveNodes then
        .error (.nodeLimitExceeded defaultMaxResolveNodes)
      else .ok (collected ++ [hash])
    | plainSequenceSmall _ _ element | plainSequenceLarge _ _ element
    | plainArraySmall _ _ element | plainArrayLarge _ _ element =>
      element.collectFromTi maxDepth (depth + 1) collected
    | plainMapSmall _ _ element _ key | plainMapLarge _ _ element _ key =>
      (element.collectFromTi maxDepth (depth + 1) collected).bind
        (key.collectFromTi maxDepth (depth + 1))
    | TypeIdentifier.none | primitive _ | string8Small _ | string8Large _ | string16Small _
    | string16Large _ => .ok collected
    | stronglyConnectedComponent _ => .error .unsupportedComponentReference
    | extended _ _ => .error .unsupportedReference

end TypeIdentifier

/-- The identifiers an object names, base and annotation parameters included; `none` where they
cannot be enumerated. -/
def MinimalTypeObject.namedIdentifiers : MinimalTypeObject → Option (List TypeIdentifier)
  | .struct s => some (s.baseType :: s.memberSeq.map (·.common.memberTypeId))
  | .union u => some (u.discriminator.typeId :: u.memberSeq.map (·.common.typeId))
  | .aliasType a => some [a.relatedType]
  | .sequence s => some [s.element.typeId]
  | .array a => some [a.element.typeId]
  | .map m => some [m.key.typeId, m.element.typeId]
  | .annotationType a => some (a.memberSeq.map (·.common.memberTypeId))
  | .enumerated _ | .bitmask _ | .bitset _ => some []
  | .extended _ _ => none

def annotationTypes (annotations : List OptionalAppliedAnnotationSeq) : List TypeIdentifier :=
  annotations.flatMap fun seq => (seq.getD []).map (·.annotationTypeid)

def CompleteTypeObject.namedIdentifiers : CompleteTypeObject → Option (List TypeIdentifier)
  | .struct s =>
    some (s.baseType :: s.memberSeq.map (·.common.memberTypeId) ++
      annotationTypes (s.detail.annCustom :: s.memberSeq.map (·.detail.annCustom)))
  | .union u =>
    some (u.discriminator.common.typeId :: u.memberSeq.map (·.common.typeId) ++
      annotationTypes (u.detail.annCustom :: u.discriminator.annCustom ::
        u.memberSeq.map (·.detail.annCustom)))
  | .aliasType a => some (a.relatedType :: annotationTypes [a.detail.annCustom, a.bodyAnnCustom])
  | .sequence s =>
    some (s.element.common.typeId ::
      annotationTypes ((s.detail.map (·.annCustom)).toList ++ [s.element.annCustom]))
  | .array a =>
    some (a.element.common.typeId :: annotationTypes [a.detail.annCustom, a.element.annCustom])
  | .map m =>
    some (m.key.common.typeId :: m.element.common.typeId ::
      annotationTypes ((m.detail.map (·.annCustom)).toList ++
        [m.key.annCustom, m.element.annCustom]))
  | .annotationType a => some (a.memberSeq.map (·.common.memberTypeId))
  | .enumerated e =>
    some (annotationTypes (e.detail.annCustom :: e.literalSeq.map (·.detail.annCustom)))
  | .bitmask b =>
    some (annotationTypes (b.detail.annCustom :: b.flagSeq.map (·.detail.annCustom)))
  | .bitset b =>
    some (annotationTypes (b.detail.annCustom :: b.fieldSeq.map (·.detail.annCustom)))
  | .extended _ _ => none

def TypeObject.namedIdentifiers : TypeObject → Option (List TypeIdentifier)
  | .minimal m => m.namedIdentifiers
  | .complete c => c.namedIdentifiers

/-- The hashes an object names, each once; an error where one of its references is of a component or
beyond a limit. -/
def collectReferencedHashes (root : TypeObject) (maxDepth : Nat) :
    Except ResolveError (List EquivalenceHash) :=
  if 0 ≥ maxDepth then .error (.depthExceeded maxDepth)
  else
    match root.namedIdentifiers with
    | none => .error .unsupportedReference
    | some ids => ids.foldlM (fun collected ti => ti.collectFromTi maxDepth 1 collected) []

namespace TypeRegistry

variable (reg : TypeRegistry)

def objectAt (ref : HashRef) : Option TypeObject :=
  if ref.2 then (reg.getComplete ref.1).map .complete else (reg.getMinimal ref.1).map .minimal

/-- What the walk goes on with from a hash, all of the same form.  The hash of a component is
answered, and an object whose references cannot be collected leads nowhere. -/
def expand (ref : HashRef) : Except TypeIdentifier (List HashRef) :=
  match reg.objectAt ref with
  | some object =>
    match collectReferencedHashes object defaultMaxResolveDepth with
    | .error _ => .ok []
    | .ok hashes => .ok (hashes.map (·, ref.2))
  | none => if reg.components.contains ref.1 then .ok [] else .error (.ofHashRef ref)

/-- A hash or a component in the dependency closure of `ti` that the registry cannot answer. -/
def firstUnresolvedDependency (ti : TypeIdentifier) (maxNodes : Nat) : Option TypeIdentifier :=
  match ti.pushComponentRefs.find? fun scc => !reg.holdsComponent scc with
  | some missing => some (.stronglyConnectedComponent missing)
  | none => Worklist.firstMiss reg.expand maxNodes ti.pushHashRefs.reverse []

/-! ### What the walk goes through -/

def WithinNodes (ti : TypeIdentifier) (maxNodes : Nat) : Prop :=
  ∃ nodes : List HashRef, nodes.length ≤ maxNodes ∧ ti.pushHashRefs ⊆ nodes ∧
    Worklist.Closed reg.expand nodes

def ProjectionClosed [Digests] : Prop := reg.projectCompletesToMinimal = (0, reg)

def ProjectionHash [Digests] (hash : EquivalenceHash) : Prop :=
  ∃ source complete minimal, reg.getComplete source = some complete ∧
    complete.toMinimal reg = .ok minimal ∧
    Digests.computeMinimalHashWith minimal reg.minimalMemberTrailingOctet = some hash

/-- The walk goes from `t` to `t'`: it takes a collection apart, and it collects hashes of the
object's own form. -/
def Covers (t t' : TypeIdentifier) : Prop :=
  t' ∈ t.shape.parts ∨
  ∃ ref object hashes, t.hashRef? = some ref ∧ reg.objectAt ref = some object ∧
    collectReferencedHashes object defaultMaxResolveDepth = .ok hashes ∧
    ∀ leaf ∈ t'.leaves, leaf.component? = none ∧
      ∀ ref', leaf.hashRef? = some ref' → ref'.1 ∈ hashes ∧ ref'.2 = ref.2

def Vouched [Digests] (t : TypeIdentifier) : Prop :=
  ∀ leaf ∈ t.leaves, leaf.component? = none ∧
    ∀ ref, leaf.hashRef? = some ref → ref.2 = false ∧ reg.ProjectionHash ref.1

inductive Walked [Digests] (ti : TypeIdentifier) : TypeIdentifier → Prop
  | start : Walked ti ti
  | step {t t' : TypeIdentifier} (ht : Walked ti t) (hdep : reg.DependsOn t t')
      (hcovers : reg.Covers t t') : Walked ti t'

/-- The dependencies of `ti` that the walk goes through or that are there as projections. -/
inductive Accounted [Digests] (ti : TypeIdentifier) : TypeIdentifier → Prop
  | walked {t : TypeIdentifier} (ht : reg.Walked ti t) : Accounted ti t
  | vouched {t t' : TypeIdentifier} (ht : Accounted ti t) (hdep : reg.DependsOn t t')
      (hvouched : reg.Vouched t') : Accounted ti t'

/-- What is skipped on the way from `ti` is settled, and no hash is taken for answered that is of a
component only. -/
structure SkipsSettled [Digests] (ti : TypeIdentifier) : Prop where
  skipped : ∀ t t', reg.Accounted ti t → reg.DependsOn t t' → ¬reg.Accounted ti t' → reg.Settled t'
  masked : ∀ t ref, reg.Walked ti t → t.hashRef? = some ref → reg.components.contains ref.1 →
    reg.Holds t

end TypeRegistry

variable {ti : TypeIdentifier}

theorem leaves_of_shape_parts {t : TypeIdentifier} (ht : t ∈ ti.shape.parts) :
    t.leaves ⊆ ti.leaves := by
  cases ti <;>
    simp only [TypeIdentifier.shape, Shape.parts, List.mem_cons, List.not_mem_nil, or_false] at ht
  case plainMapSmall | plainMapLarge =>
    rcases ht with rfl | rfl
    · exact List.subset_append_left _ _
    · exact List.subset_append_right _ _
  all_goals
    subst ht
    exact fun leaf hleaf => hleaf

theorem leaves_of_hashRef {ref : HashRef} (h : ti.hashRef? = some ref) : ti.leaves = [ti] := by
  cases ti <;> first | rfl | cases h

theorem leaves_of_component {scc : StronglyConnectedComponentId} (h : ti.component? = some scc) :
    ti.leaves = [ti] := by
  cases ti <;> first | rfl | cases h

namespace TypeRegistry

section

variable [Digests] {reg : TypeRegistry} {ti : TypeIdentifier} {maxNodes : Nat}

variable {t : TypeIdentifier}

omit [Digests] in
theorem holds_of_leaf (hhash : ∀ ref, t.hashRef? = some ref → (reg.objectAt ref).isSome)
    (hcomponent : ∀ scc, t.component? = some scc → reg.holdsComponent scc) : reg.Holds t := by
  cases t with
  | equivalenceHashMinimal hash => simpa [objectAt, Holds] using hhash (hash, false) rfl
  | equivalenceHashComplete hash => simpa [objectAt, Holds] using hhash (hash, true) rfl
  | stronglyConnectedComponent scc =>
    have hheld := hcomponent scc rfl
    unfold holdsComponent at hheld
    simp only [Holds]
    split
    · next hkind =>
      rw [if_pos hkind, Bool.and_eq_true, Option.any_eq_true] at hheld
      obtain ⟨-, minimalHash, hpaired, hmembers⟩ := hheld
      rw [hpaired]
      exact hmembers
    · next hkind =>
      rw [if_neg hkind] at hheld
      exact hheld
  | _ => trivial

omit [Digests] in
theorem walked_of_none (hwithin : reg.WithinNodes ti maxNodes)
    (hnone : reg.firstUnresolvedDependency ti maxNodes = none) :
    (∀ scc ∈ ti.pushComponentRefs, reg.holdsComponent scc) ∧
    ∃ S : List HashRef, ti.pushHashRefs ⊆ S ∧
      ∀ ref ∈ S, ∃ next, reg.expand ref = .ok next ∧ next ⊆ S := by
  obtain ⟨nodes, hlength, hstart, hclosed⟩ := hwithin
  unfold firstUnresolvedDependency at hnone
  cases hfind : ti.pushComponentRefs.find? fun scc => !reg.holdsComponent scc with
  | some missing => simp [hfind] at hnone
  | none =>
    simp only [hfind] at hnone
    refine ⟨fun scc hscc => by simpa using List.find?_eq_none.mp hfind scc hscc, ?_⟩
    obtain ⟨S, -, hqueue, hS⟩ := Worklist.closed_of_firstMiss hclosed
      (fun ref href => hstart (List.mem_reverse.mp href)) (List.nil_subset nodes) List.nodup_nil
      (by simpa using hlength) hnone
    refine ⟨S, fun ref href => hqueue (List.mem_reverse.mpr href), fun ref href => ?_⟩
    exact (hS ref href).resolve_left List.not_mem_nil

theorem leaf_of_walked {S : List HashRef}
    (hcomponents : ∀ scc ∈ ti.pushComponentRefs, reg.holdsComponent scc)
    (hstart : ti.pushHashRefs ⊆ S) (hS : ∀ ref ∈ S, ∃ next, reg.expand ref = .ok next ∧ next ⊆ S)
    (ht : reg.Walked ti t) :
    ∀ leaf ∈ t.leaves, (∀ ref, leaf.hashRef? = some ref → ref ∈ S) ∧
      ∀ scc, leaf.component? = some scc → reg.holdsComponent scc := by
  induction ht with
  | start =>
    intro leaf hleaf
    refine ⟨fun ref href => hstart (List.mem_filterMap.mpr ⟨leaf, hleaf, href⟩), fun scc hscc => ?_⟩
    exact hcomponents scc (List.mem_filterMap.mpr ⟨leaf, hleaf, hscc⟩)
  | @step t t' _ _ hcovers ih =>
    intro leaf hleaf
    rcases hcovers with hpart | ⟨ref, object, hashes, href, hobject, hcollect, hleaves⟩
    · exact ih leaf (leaves_of_shape_parts hpart hleaf)
    · obtain ⟨hcomponent, hhash⟩ := hleaves leaf hleaf
      refine ⟨fun ref' href' => ?_, fun scc hscc => ?_⟩
      · obtain ⟨hmem, hform⟩ := hhash ref' href'
        have hmet : ref ∈ S := (ih t (by simp [leaves_of_hashRef href])).1 ref href
        obtain ⟨next, hexpand, hnext⟩ := hS ref hmet
        simp only [expand, hobject, hcollect, Except.ok.injEq] at hexpand
        subst hexpand
        exact hnext (List.mem_map.mpr ⟨ref'.1, hmem, Prod.ext rfl hform.symm⟩)
      · rw [hcomponent] at hscc
        cases hscc

section

variable (hclosed : reg.ProjectionClosed)
include hclosed

theorem held_of_projectionHash {hash : EquivalenceHash}
    (h : reg.ProjectionHash hash) : (reg.getMinimal hash).isSome := by
  obtain ⟨source, complete, minimal, hget, hminimal, hhash⟩ := h
  by_contra hmissing
  have hnew : reg.newProjection complete = some (hash, minimal) := by
    have hcontains : reg.minimals.contains hash = false := by
      simpa [getMinimal, SortedMap.contains] using hmissing
    simp [newProjection, hminimal, hhash, hcontains]
  have hvalue : complete ∈ reg.completes.values := SortedMap.mem_values.mpr ⟨source, hget⟩
  have hround : (hash, minimal) ∈ reg.completes.values.filterMap reg.newProjection :=
    List.mem_filterMap.mpr ⟨complete, hvalue, hnew⟩
  have hadded : reg.projectCompletesToMinimal.1 = 0 := by rw [hclosed]
  simp only [projectCompletesToMinimal, projectRounds] at hadded
  split at hadded
  · next hempty =>
    rw [List.isEmpty_iff.mp hempty] at hround
    cases hround
  · simp only [Nat.add_eq_zero_iff, List.length_eq_zero_iff] at hadded
    rw [hadded.1] at hround
    cases hround

theorem holds_of_vouched (ht : reg.Vouched t) : reg.Holds t := by
  refine holds_of_leaf (fun ref href => ?_) fun scc hscc => ?_
  · obtain ⟨hform, hprojection⟩ := (ht t (by simp [leaves_of_hashRef href])).2 ref href
    simpa [objectAt, hform] using held_of_projectionHash hclosed hprojection
  · have hnone := (ht t (by simp [leaves_of_component hscc])).1
    rw [hnone] at hscc
    cases hscc

theorem holds_of_accounted (hwithin : reg.WithinNodes ti maxNodes)
    (hnone : reg.firstUnresolvedDependency ti maxNodes = none) (hskips : reg.SkipsSettled ti)
    (ht : reg.Accounted ti t) : reg.Holds t := by
  cases ht with
  | vouched _ _ hvouched => exact holds_of_vouched hclosed hvouched
  | walked hwalked =>
    obtain ⟨hcomponents, S, hstart, hS⟩ := walked_of_none hwithin hnone
    have hleaf := leaf_of_walked hcomponents hstart hS hwalked
    by_cases hmasked : ∃ ref, t.hashRef? = some ref ∧ reg.components.contains ref.1 = true
    · obtain ⟨ref, href, hcontains⟩ := hmasked
      exact hskips.masked t ref hwalked href hcontains
    · refine holds_of_leaf (fun ref href => ?_) fun scc hscc => ?_
      · have hmet := (hleaf t (by simp [leaves_of_hashRef href])).1 ref href
        obtain ⟨next, hexpand, -⟩ := hS ref hmet
        unfold expand at hexpand
        cases hobject : reg.objectAt ref with
        | some object => rfl
        | none =>
          have hnot : ¬reg.components.contains ref.1 = true := fun h => hmasked ⟨ref, href, h⟩
          simp [hobject, hnot] at hexpand
      · exact (hleaf t (by simp [leaves_of_component hscc])).2 scc hscc

end

theorem settled_of_walked (hsettled : reg.Settled ti) (ht : reg.Walked ti t) : reg.Settled t := by
  induction ht with
  | start => exact hsettled
  | step _ hdep _ ih => exact ih.of_dependsOn hdep

theorem settled_of_accounted (hsettled : reg.Settled ti) (ht : reg.Accounted ti t) :
    reg.Settled t := by
  induction ht with
  | walked hwalked => exact settled_of_walked hsettled hwalked
  | vouched _ hdep _ ih => exact ih.of_dependsOn hdep

theorem settled_iff_skipsSettled (hclosed : reg.ProjectionClosed)
    (hwithin : reg.WithinNodes ti maxNodes)
    (hnone : reg.firstUnresolvedDependency ti maxNodes = none) :
    reg.Settled ti ↔ reg.SkipsSettled ti := by
  constructor
  · intro hsettled
    refine ⟨fun t t' ht hdep _ => ?_, fun t ref ht _ _ => (settled_of_walked hsettled ht).holds⟩
    exact (settled_of_accounted hsettled ht).of_dependsOn hdep
  · intro hskips
    refine settled_of_closed (S := fun t => reg.Accounted ti t ∨ reg.Settled t) ?_ ?_
      (Or.inl (.walked .start))
    · rintro t (ht | ht)
      · exact holds_of_accounted hclosed hwithin hnone hskips ht
      · exact ht.holds
    · rintro t t' (ht | ht) hdep
      · by_cases ht' : reg.Accounted ti t'
        · exact Or.inl ht'
        · exact Or.inr (hskips.skipped t t' ht hdep ht')
      · exact Or.inr (ht.of_dependsOn hdep)

/-- Every type that a comparison of `w` and `r` may look up is there, so that learning more types
does not change the verdict. -/
def FullyKnown (reg : TypeRegistry) (w r : TypeIdentifier) : Prop :=
  (reg.Settled w ∧ reg.Settled r) ∧ ∀ reg', reg.Extends reg' → ∀ cfg fuel,
    isAssignable reg' fuel w r cfg = isAssignable reg fuel w r cfg

/-- Two types for which the walk finds nothing unresolved are fully known exactly when what it skips
is settled. -/
theorem fully_known_iff {w r : TypeIdentifier} (hclosed : reg.ProjectionClosed)
    (hwithinW : reg.WithinNodes w maxNodes) (hwithinR : reg.WithinNodes r maxNodes)
    (hw : reg.firstUnresolvedDependency w maxNodes = none)
    (hr : reg.firstUnresolvedDependency r maxNodes = none) :
    reg.FullyKnown w r ↔ reg.SkipsSettled w ∧ reg.SkipsSettled r := by
  rw [← settled_iff_skipsSettled hclosed hwithinW hw,
    ← settled_iff_skipsSettled hclosed hwithinR hr]
  refine ⟨fun h => h.1, fun h => ⟨h, fun reg' hextends cfg fuel => ?_⟩⟩
  exact isAssignable_extends hextends cfg h.1 h.2 fuel

end

end TypeRegistry

namespace TypeFixture

theorem withinNodes_of_closed {reg : TypeRegistry} {n : Nat} (nodes : List HashRef)
    (hn : (hash n, false) ∈ nodes)
    (hclosed : nodes.all fun ref => (reg.expand ref).toOption.all (·.all (· ∈ nodes))) :
    reg.WithinNodes (hashed n) nodes.length := by
  refine ⟨nodes, Nat.le_refl _, fun ref href => List.mem_singleton.mp href ▸ hn, ?_⟩
  intro ref href next hnext
  have hsub := List.all_eq_true.mp hclosed ref href
  rw [hnext] at hsub
  simpa only [Except.toOption, Option.all_some, List.all_eq_true, decide_eq_true_eq] using hsub

/-- Two structs with a struct of their own as a member. -/
def nested : TypeRegistry :=
  ((TypeRegistry.new.insertMinimal (hash 1) (structOf [member 1 1 (hashed 3)])).insertMinimal
    (hash 2) (structOf [member 1 1 (hashed 4)])).insertMinimal (hash 3)
    (structOf [member 1 1 int32]) |>.insertMinimal (hash 4) (structOf [member 1 1 int32])

theorem nested_fully_known : @TypeRegistry.FullyKnown ownHash nested (hashed 1) (hashed 2) := by
  have hclosed : @TypeRegistry.ProjectionClosed nested ownHash := rfl
  have h₁ : nested.WithinNodes (hashed 1) 2 :=
    withinNodes_of_closed [(hash 1, false), (hash 3, false)] (by simp) (by decide +kernel)
  have h₂ : nested.WithinNodes (hashed 2) 2 :=
    withinNodes_of_closed [(hash 2, false), (hash 4, false)] (by simp) (by decide +kernel)
  have hnone₁ : nested.firstUnresolvedDependency (hashed 1) 2 = none := by decide +kernel
  have hnone₂ : nested.firstUnresolvedDependency (hashed 2) 2 = none := by decide +kernel
  have hsettled : ∀ n ∈ [1, 2, 3, 4], @TypeRegistry.Settled ownHash nested (hashed n) := by
    refine fun n hn => structs_settled [1, 2, 3, 4] ?_ hn
    simp only [List.forall_mem_cons]
    refine ⟨⟨[member 1 1 (hashed 3)], ?_, ?_⟩, ⟨[member 1 1 (hashed 4)], ?_, ?_⟩,
      ⟨[member 1 1 int32], ?_, ?_⟩, ⟨[member 1 1 int32], ?_, ?_⟩, by simp⟩ <;> decide +kernel
  exact (@TypeRegistry.fully_known_iff ownHash nested 2 _ _ hclosed h₁ h₂ hnone₁ hnone₂).mpr
    ⟨(@TypeRegistry.settled_iff_skipsSettled ownHash nested _ 2 hclosed h₁ hnone₁).mp
        (hsettled 1 (by simp)),
      (@TypeRegistry.settled_iff_skipsSettled ownHash nested _ 2 hclosed h₂ hnone₂).mp
        (hsettled 2 (by simp))⟩

def halfKnown : TypeRegistry :=
  ((TypeRegistry.new.insertMinimal (hash 1)
    (structOf [member 1 1 (component 5), member 2 1 (hashed 7)])).insertMinimal (hash 2)
    (structOf [member 1 1 (component 5), member 2 1 (hashed 8)])).insertMinimalComponent (hash 15)
    (hash 5) [structOf [member 1 1 int32]]

/-- The walk gives up on an object that names a component, so it finds nothing, and the comparison
then misses the other types. -/
theorem halfKnown_refused :
    @TypeRegistry.ProjectionClosed halfKnown ownHash ∧
    halfKnown.WithinNodes (hashed 1) 1 ∧ halfKnown.WithinNodes (hashed 2) 1 ∧
    halfKnown.firstUnresolvedDependency (hashed 1) 1 = none ∧
    halfKnown.firstUnresolvedDependency (hashed 2) 1 = none ∧
    @isAssignable ownHash halfKnown 8 (hashed 1) (hashed 2) {} =
      some (.no "writer alias resolution failed") ∧
    ¬@TypeRegistry.FullyKnown ownHash halfKnown (hashed 1) (hashed 2) := by
  refine ⟨rfl, withinNodes_of_closed [(hash 1, false)] (by simp) (by decide +kernel),
    withinNodes_of_closed [(hash 2, false)] (by simp) (by decide +kernel), by decide +kernel,
    by decide +kernel, by decide +kernel, ?_⟩
  rintro ⟨⟨hsettled, -⟩, -⟩
  have hobject : @resolveMinimal ownHash halfKnown (hashed 1) =
      some (structOf [member 1 1 (component 5), member 2 1 (hashed 7)]) := by decide +kernel
  have hmember : @TypeRegistry.Settled ownHash halfKnown (hashed 7) :=
    @TypeRegistry.Settled.named ownHash halfKnown _ _ hsettled _ hobject (by decide +kernel)
  have hheld : (halfKnown.getMinimal (hash 7)).isSome = true :=
    @TypeRegistry.Settled.holds ownHash halfKnown _ hmember
  exact absurd hheld (by decide +kernel)

end TypeFixture

end ZeroDds.Types
