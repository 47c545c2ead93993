/-
When the comparison of two types comes to an end.
-/
import Mathlib.Data.List.ProdSigma
import ZeroDds.Types.Reach

namespace ZeroDds.Types

/-! ### The types of a registry -/

def TypeIdentifier.parts : TypeIdentifier → List TypeIdentifier
  | .plainSequenceSmall h b element => .plainSequenceSmall h b element :: element.parts
  | .plainSequenceLarge h b element => .plainSequenceLarge h b element :: element.parts
  | .plainArraySmall h b element => .plainArraySmall h b element :: element.parts
  | .plainArrayLarge h b element => .plainArrayLarge h b element :: element.parts
  | .plainMapSmall h b element f key =>
    .plainMapSmall h b element f key :: (element.parts ++ key.parts)
  | .plainMapLarge h b element f key =>
    .plainMapLarge h b element f key :: (element.parts ++ key.parts)
  | ti => [ti]

theorem TypeIdentifier.mem_parts_self (ti : TypeIdentifier) : ti ∈ ti.parts := by
  cases ti <;> simp [parts]

theorem TypeIdentifier.mem_parts_of_part {ti part element : TypeIdentifier}
    (hpart : part ∈ ti.parts) (helement : element ∈ part.shape.parts) : element ∈ ti.parts := by
  have hself : ∀ {ti : TypeIdentifier}, part = ti → element ∈ ti.shape.parts := by
    rintro ti rfl
    exact helement
  induction ti with
  | plainSequenceSmall h b e ih | plainSequenceLarge h b e ih | plainArraySmall h b e ih
  | plainArrayLarge h b e ih =>
    rcases List.mem_cons.mp hpart with heq | hpart
    · rw [List.mem_singleton.mp (hself heq)]
      exact List.mem_cons_of_mem _ e.mem_parts_self
    · exact List.mem_cons_of_mem _ (ih hpart)
  | plainMapSmall h b e f k ihe ihk | plainMapLarge h b e f k ihe ihk =>
    rcases List.mem_cons.mp hpart with heq | hpart
    · rcases List.mem_cons.mp (hself heq) with heq | helement
      · rw [heq]
        exact List.mem_cons_of_mem _ (List.mem_append_left _ e.mem_parts_self)
      · rw [List.mem_singleton.mp helement]
        exact List.mem_cons_of_mem _ (List.mem_append_right _ k.mem_parts_self)
    · rcases List.mem_append.mp hpart with hpart | hpart
      · exact List.mem_cons_of_mem _ (List.mem_append_left _ (ihe hpart))
      · exact List.mem_cons_of_mem _ (List.mem_append_right _ (ihk hpart))
  | _ =>
    have hnone := hself (List.mem_singleton.mp hpart)
    cases hnone

section

variable [Digests] (reg : TypeRegistry) (cfg : AssignabilityConfig)

def TypeRegistry.objects : List MinimalTypeObject :=
  reg.minimals.values ++
    reg.completes.values.filterMap (fun c => (c.toMinimal reg).toOption) ++
    reg.minimalComponents.values.flatten

def keyHolderOf : MinimalTypeObject → Option MinimalTypeObject
  | .struct s => (keyHolderStruct reg cfg s).map .struct
  | _ => none

def TypeRegistry.compared : List MinimalTypeObject :=
  reg.objects ++ reg.objects.map keyErased ++ reg.objects.filterMap (keyHolderOf reg cfg)

def TypeRegistry.aliased : List TypeIdentifier :=
  reg.completes.values.filterMap fun
    | .aliasType a => some a.relatedType
    | _ => none

def TypeRegistry.identifiers (w r : TypeIdentifier) : List TypeIdentifier :=
  ([w, r] ++ (reg.compared cfg).flatMap (·.named reg cfg.maxDepth) ++ reg.aliased).flatMap
    TypeIdentifier.parts

variable {reg cfg} {ti : TypeIdentifier}

theorem mem_objects {o : MinimalTypeObject} (h : resolveMinimal reg ti = some o) :
    o ∈ reg.objects := by
  rw [TypeRegistry.objects, List.mem_append, List.mem_append]
  cases ti with
  | equivalenceHashMinimal hash => exact Or.inl (Or.inl (SortedMap.mem_values.mpr ⟨hash, h⟩))
  | equivalenceHashComplete hash =>
    obtain ⟨c, hc, ho⟩ := Option.bind_eq_some_iff.mp h
    exact Or.inl (Or.inr (List.mem_filterMap.mpr ⟨c, SortedMap.mem_values.mpr ⟨hash, hc⟩, ho⟩))
  | stronglyConnectedComponent scc =>
    simp only [resolveMinimal, TypeRegistry.componentMinimalMember] at h
    split at h
    · cases h
    · obtain ⟨hash, -, h⟩ := Option.bind_eq_some_iff.mp h
      obtain ⟨members, hmembers, ho⟩ := Option.bind_eq_some_iff.mp h
      exact Or.inr (List.mem_flatten.mpr ⟨members, SortedMap.mem_values.mpr ⟨hash, hmembers⟩,
        List.mem_of_getElem? ho⟩)
  | _ => cases h

variable {w r : TypeIdentifier}

theorem named_mem_identifiers {o : MinimalTypeObject} (ho : o ∈ reg.compared cfg)
    (hti : ti ∈ o.named reg cfg.maxDepth) : ti ∈ reg.identifiers cfg w r :=
  List.mem_flatMap.mpr ⟨ti, List.mem_append_left _ (List.mem_append_right _
    (List.mem_flatMap.mpr ⟨o, ho, hti⟩)), ti.mem_parts_self⟩

theorem aliasTarget_mem_identifiers {target : TypeIdentifier}
    (h : reg.aliasTarget ti = .ok (some target)) : target ∈ reg.identifiers cfg w r := by
  rcases TypeRegistry.aliasTarget_cases h with
    ⟨hash, a, rfl, hget, rfl⟩ | ⟨hash, a, rfl, hget, rfl⟩
  · have hresolve : resolveMinimal reg (.equivalenceHashMinimal hash) = some (.aliasType a) := hget
    exact named_mem_identifiers
      (List.mem_append_left _ (List.mem_append_left _ (mem_objects hresolve))) List.mem_cons_self
  · have haliased : a.relatedType ∈ reg.aliased :=
      List.mem_filterMap.mpr ⟨.aliasType a, SortedMap.mem_values.mpr ⟨hash, hget⟩, rfl⟩
    exact List.mem_flatMap.mpr
      ⟨_, List.mem_append_right _ haliased, a.relatedType.mem_parts_self⟩

theorem closedUnder_registry (w r : TypeIdentifier) :
    ClosedUnder reg cfg.maxDepth (· ∈ reg.identifiers cfg w r) (· ∈ reg.compared cfg) where
  chain hti h :=
    resolveAliasLoop_closed (fun _ _ _ htarget => aliasTarget_mem_identifiers htarget) hti h
  part := by
    intro ti hti element helement
    obtain ⟨root, hroot, hpart⟩ := List.mem_flatMap.mp hti
    exact List.mem_flatMap.mpr ⟨root, hroot, TypeIdentifier.mem_parts_of_part hpart helement⟩
  object _ ho := List.mem_append_left _ (List.mem_append_left _ (mem_objects ho))
  keyErased _ ho :=
    List.mem_append_left _ (List.mem_append_right _ (List.mem_map_of_mem (mem_objects ho)))
  keyHolder := by
    intro ti s holder cfg' _ hs hdepth hholder
    refine List.mem_append_right _ (List.mem_filterMap.mpr ⟨.struct s, mem_objects hs, ?_⟩)
    rw [keyHolderStruct, hdepth] at hholder
    rw [keyHolderOf, keyHolderStruct, hholder]
    rfl
  named ho ti hti := named_mem_identifiers ho hti

/-! ### Cycles that nothing cuts -/

/-- The comparison `q` comes to the call `q'`, and not through `assuming`. -/
def Opens (reg : TypeRegistry) (q q' : Question) : Prop :=
  Makes (check reg) q q' ∧ q'.assumed = q.assumed

def OpenCycle (reg : TypeRegistry) (q : Question) : Prop := Relation.TransGen (Opens reg) q q

structure Question.Met (reg : TypeRegistry) (cfg : AssignabilityConfig) (w r : TypeIdentifier)
    (q : Question) : Prop where
  inside : q.Inside (· ∈ reg.identifiers cfg w r) (· ∈ reg.compared cfg)
  cfg_eq : q.cfg = cfg ∨ q.cfg = cfg.exact
  assumed_mem : ∀ pair ∈ q.assumed,
    pair ∈ (reg.identifiers cfg w r).product (reg.identifiers cfg w r)
  assumed_nodup : q.assumed.Nodup

theorem met_start : Question.Met reg cfg w r (.isAssignable [] cfg w r) where
  inside :=
    ⟨List.mem_flatMap.mpr ⟨w, by simp, w.mem_parts_self⟩,
      List.mem_flatMap.mpr ⟨r, by simp, r.mem_parts_self⟩⟩
  cfg_eq := Or.inl rfl
  assumed_mem pair hpair := absurd hpair List.not_mem_nil
  assumed_nodup := List.nodup_nil

theorem Question.Met.step {q q' : Question} (hq : q.Met reg cfg w r)
    (hleads : Leads (check reg) q q') :
    q'.Met reg cfg w r ∧
      (q'.assumed = q.assumed ∨ q'.assumed.length = q.assumed.length + 1) := by
  have hdepth : q.cfg.maxDepth = cfg.maxDepth := by
    rcases hq.cfg_eq with heq | heq
    · rw [heq]
    · rw [heq]
      rfl
  have hexact : cfg.exact.exact = cfg.exact := rfl
  have hcfg : ∀ c, c = q.cfg ∨ c = q.cfg.exact → c = cfg ∨ c = cfg.exact := by
    rintro c (rfl | rfl)
    · exact hq.cfg_eq
    · rcases hq.cfg_eq with heq | heq <;> rw [heq]
      · exact Or.inr rfl
      · exact Or.inr hexact
  rcases check_only (closedUnder_registry w r) hdepth hq.inside hleads with hwithin | hassumes
  · refine ⟨⟨hwithin.inside, hcfg _ hwithin.cfg, ?_, ?_⟩, Or.inl hwithin.assumed⟩
    · rw [hwithin.assumed]
      exact hq.assumed_mem
    · rw [hwithin.assumed]
      exact hq.assumed_nodup
  · obtain ⟨w', r', wo, ro, rfl, hnew, hw', hr', hwo, hro⟩ := hassumes
    refine ⟨⟨⟨hwo, hro⟩, hcfg _ (Or.inl rfl), ?_, ?_⟩, Or.inr rfl⟩
    · intro pair hpair
      rcases List.mem_cons.mp hpair with rfl | hpair
      · exact List.pair_mem_product.mpr ⟨hw', hr'⟩
      · exact hq.assumed_mem pair hpair
    · exact List.nodup_cons.mpr ⟨hnew, hq.assumed_nodup⟩

theorem Question.Met.length_le {q : Question} (hq : q.Met reg cfg w r) :
    q.assumed.length ≤
      ((reg.identifiers cfg w r).product (reg.identifiers cfg w r)).length :=
  (List.subperm_of_subset hq.assumed_nodup hq.assumed_mem).length_le

theorem finite_met (assumed : Assumed) :
    {q : Question | q.Met reg cfg w r ∧ q.assumed = assumed}.Finite := by
  let ids := reg.identifiers cfg w r
  let objects := reg.compared cfg
  let calls : List Question := [cfg, cfg.exact].flatMap fun c =>
    (ids.product ids).map (fun p => .isAssignable assumed c p.1 p.2) ++
      (objects.product objects).map (fun p => .checkMinimalTypes assumed c p.1 p.2)
  refine (List.finite_toSet calls).subset ?_
  rintro q ⟨hq, hassumed⟩
  have hcfg : q.cfg ∈ [cfg, cfg.exact] := by
    rcases hq.cfg_eq with heq | heq <;> simp [heq]
  refine List.mem_flatMap.mpr ⟨q.cfg, hcfg, List.mem_append.mpr ?_⟩
  cases q with
  | isAssignable assumed' c w' r' =>
    obtain rfl : assumed' = assumed := hassumed
    exact Or.inl (List.mem_map.mpr ⟨(w', r'), List.pair_mem_product.mpr hq.inside, rfl⟩)
  | checkMinimalTypes assumed' c wo ro =>
    obtain rfl : assumed' = assumed := hassumed
    exact Or.inr (List.mem_map.mpr ⟨(wo, ro), List.pair_mem_product.mpr hq.inside, rfl⟩)

end

/-! ### A list of nodes -/

namespace TypeFixture

/-- A struct with itself as an optional member, as the only type of its component `n`. -/
def node (n : Nat) : MinimalTypeObject := structOf [member 1 MemberFlag.isOptional (component n)]

def nodes : TypeRegistry :=
  (TypeRegistry.new.insertMinimalComponent (hash 11) (hash 1) [node 1]).insertMinimalComponent
    (hash 12) (hash 2) [node 2]

def tree (n : Nat) : MinimalTypeObject :=
  structOf [member 1 1 int32, member 2 1 (sequenceOf 0 (component n))]

def trees : TypeRegistry :=
  (TypeRegistry.new.insertMinimalComponent (hash 11) (hash 1) [tree 1]).insertMinimalComponent
    (hash 12) (hash 2) [tree 2]

/-- The calls of the comparison of two such types, each one made by the one before it. -/
def treeCalls : List Question :=
  let pair := [(component 1, component 2)]
  [.isAssignable [] {} (component 1) (component 2),
    .checkMinimalTypes pair {} (tree 1) (tree 2),
    .isAssignable pair {} (sequenceOf 0 (component 1)) (sequenceOf 0 (component 2)),
    .isAssignable pair {} (component 1) (component 2)]

theorem treeCalls_step {q q' : Question} (hq : q ∈ treeCalls)
    (hleads : Leads (@check digests trees) q q') :
    q' ∈ treeCalls ∧ treeCalls.idxOf q < treeCalls.idxOf q' := by
  simp only [treeCalls, List.mem_cons, List.not_mem_nil, or_false] at hq
  rcases hq with rfl | rfl | rfl | rfl
  · obtain rfl : q' = .checkMinimalTypes [(component 1, component 2)] {} (tree 1) (tree 2) :=
      Asking.Asks.eq_of_first (by decide +kernel) (fun a => by cases a <;> rfl) hleads
    decide +kernel
  · obtain rfl : q' = .isAssignable [(component 1, component 2)] {}
        (sequenceOf 0 (component 1)) (sequenceOf 0 (component 2)) :=
      Asking.Asks.eq_of_first (by decide +kernel) (fun a => by cases a <;> rfl) hleads
    decide +kernel
  · obtain rfl : q' = .isAssignable [(component 1, component 2)] {} (component 1) (component 2) :=
      Asking.Asks.eq_of_first (by decide +kernel) (fun a => by cases a <;> rfl) hleads
    decide +kernel
  · exact absurd hleads (Asking.not_asks_of_first?_eq_none (by decide +kernel))

end TypeFixture

end ZeroDds.Types
