/-
What a type depends on.
-/
import ZeroDds.Types.Reach

namespace ZeroDds.Types

/-- The types a MINIMAL object names.  A base is looked up among the MINIMAL objects. -/
def MinimalTypeObject.references : MinimalTypeObject → List TypeIdentifier
  | .struct s =>
    (s.baseType.hash?.map .equivalenceHashMinimal).toList ++ s.memberSeq.map (·.common.memberTypeId)
  | .union u => u.discriminator.typeId :: u.memberSeq.map (·.common.typeId)
  | .aliasType a => [a.relatedType]
  | .sequence s => [s.element.typeId]
  | .array a => [a.element.typeId]
  | .map m => [m.key.typeId, m.element.typeId]
  | _ => []

def CompleteTypeObject.references : CompleteTypeObject → List TypeIdentifier
  | .struct s => s.baseType :: s.memberSeq.map (·.common.memberTypeId)
  | .union u => u.discriminator.common.typeId :: u.memberSeq.map (·.common.typeId)
  | .aliasType a => [a.relatedType]
  | .annotationType a => a.memberSeq.map (·.common.memberTypeId)
  | .sequence s => [s.element.common.typeId]
  | .array a => [a.element.common.typeId]
  | .map m => [m.key.common.typeId, m.element.common.typeId]
  | _ => []

section

variable [Digests] (reg : TypeRegistry)

namespace TypeRegistry

inductive DependsOn : TypeIdentifier → TypeIdentifier → Prop
  | part {ti t : TypeIdentifier} (h : t ∈ ti.shape.parts) : DependsOn ti t
  | named {ti t : TypeIdentifier} {o : MinimalTypeObject} (ho : resolveMinimal reg ti = some o)
      (h : t ∈ o.references) : DependsOn ti t
  | complete {hash : EquivalenceHash} {t : TypeIdentifier} {c : CompleteTypeObject}
      (hc : reg.getComplete hash = some c) (h : t ∈ c.references) :
      DependsOn (.equivalenceHashComplete hash) t

def Holds (ti : TypeIdentifier) : Prop :=
  match ti with
  | .equivalenceHashMinimal hash => (reg.getMinimal hash).isSome
  | .equivalenceHashComplete hash => (reg.getComplete hash).isSome
  | .stronglyConnectedComponent scc =>
    if scc.equivalenceKind = EquivalenceKind.complete then
      ((reg.minimalComponentOf.get? scc.hash).bind reg.minimalComponents.get?).isSome
    else (reg.minimalComponents.get? scc.hash).isSome
  | _ => True

def Settled (ti : TypeIdentifier) : Prop :=
  ∀ t, Relation.ReflTransGen reg.DependsOn ti t → reg.Holds t

variable {reg} {ti t : TypeIdentifier}

theorem settled_of_closed {S : TypeIdentifier → Prop} (hheld : ∀ t, S t → reg.Holds t)
    (hclosed : ∀ t t', S t → reg.DependsOn t t' → S t') (hti : S ti) : reg.Settled ti := by
  intro t hreach
  refine hheld t ?_
  induction hreach with
  | refl => exact hti
  | tail _ hdep ih => exact hclosed _ _ ih hdep

section

variable (h : reg.Settled ti)
include h

theorem Settled.holds : reg.Holds ti := h ti .refl

theorem Settled.of_dependsOn (hdep : reg.DependsOn ti t) : reg.Settled t :=
  fun t' ht' => h t' (.head hdep ht')

theorem Settled.part (ht : t ∈ ti.shape.parts) : reg.Settled t :=
  h.of_dependsOn (.part ht)

theorem Settled.named {o : MinimalTypeObject}
    (ho : resolveMinimal reg ti = some o) (ht : t ∈ o.references) : reg.Settled t :=
  h.of_dependsOn (.named ho ht)

end

end TypeRegistry

def MinimalTypeObject.Settled (reg : TypeRegistry) (o : MinimalTypeObject) : Prop :=
  ∀ t ∈ o.references, reg.Settled t

/-! ### Registries that hold more -/

structure TypeRegistry.Extends (reg reg' : TypeRegistry) : Prop where
  minimals : ∀ {hash : EquivalenceHash} {o : MinimalTypeObject},
    reg.getMinimal hash = some o → reg'.getMinimal hash = some o
  completes : ∀ {hash : EquivalenceHash} {c : CompleteTypeObject},
    reg.getComplete hash = some c → reg'.getComplete hash = some c
  minimalComponents : ∀ {hash : EquivalenceHash} {members : List MinimalTypeObject},
    reg.minimalComponents.get? hash = some members → reg'.minimalComponents.get? hash = some members
  minimalComponentOf : ∀ {hash minimalHash : EquivalenceHash},
    reg.minimalComponentOf.get? hash = some minimalHash →
      reg'.minimalComponentOf.get? hash = some minimalHash
  trailingOctet : reg'.minimalMemberTrailingOctet = reg.minimalMemberTrailingOctet

end

section Projections

variable {f g : TypeIdentifier → Except ToMinimalError TypeIdentifier}

theorem mapM_congr {α β : Type} {f g : α → Except ToMinimalError β} {l : List α}
    (h : ∀ a ∈ l, f a = g a) : l.mapM f = l.mapM g := by
  induction l with
  | nil => rfl
  | cons a l ih =>
    rw [List.mapM_cons, List.mapM_cons, h a List.mem_cons_self,
      ih fun b hb => h b (List.mem_cons_of_mem a hb)]

theorem toMinimalWith_congr [Digests] {c : CompleteTypeObject} (h : ∀ t ∈ c.references, f t = g t) :
    c.toMinimalWith f = c.toMinimalWith g := by
  cases c with
  | struct s =>
    have hmembers : s.memberSeq.mapM (minimalStructMember f) =
        s.memberSeq.mapM (minimalStructMember g) := mapM_congr fun m hm => by
      rw [minimalStructMember, minimalStructMember,
        h _ (List.mem_cons_of_mem _ (List.mem_map_of_mem hm))]
    simp [CompleteTypeObject.toMinimalWith, minimalStruct, hmembers, h _ List.mem_cons_self]
  | union u =>
    have hmembers : u.memberSeq.mapM (minimalUnionMember f) =
        u.memberSeq.mapM (minimalUnionMember g) := mapM_congr fun m hm => by
      rw [minimalUnionMember, minimalUnionMember,
        h _ (List.mem_cons_of_mem _ (List.mem_map_of_mem hm))]
    simp [CompleteTypeObject.toMinimalWith, minimalUnion, hmembers, h _ List.mem_cons_self]
  | annotationType a =>
    have hmembers : a.memberSeq.mapM (minimalAnnotationParameter f) =
        a.memberSeq.mapM (minimalAnnotationParameter g) := mapM_congr fun m hm => by
      rw [minimalAnnotationParameter, minimalAnnotationParameter, h _ (List.mem_map_of_mem hm)]
    simp [CompleteTypeObject.toMinimalWith, minimalAnnotation, hmembers]
  | aliasType a =>
    simp [CompleteTypeObject.toMinimalWith, minimalAlias, h _ List.mem_cons_self]
  | sequence s =>
    simp [CompleteTypeObject.toMinimalWith, minimalSequence, minimalElement, h _ List.mem_cons_self]
  | array a =>
    simp [CompleteTypeObject.toMinimalWith, minimalArray, minimalElement, h _ List.mem_cons_self]
  | map m =>
    simp [CompleteTypeObject.toMinimalWith, minimalMap, minimalElement, h _ List.mem_cons_self,
      h m.element.common.typeId (List.mem_cons_of_mem _ List.mem_cons_self)]
  | bitset b => rfl
  | enumerated e => rfl
  | bitmask b => rfl
  | extended k b => rfl

theorem plainCollection_congr {c : CompleteTypeObject} (h : ∀ t ∈ c.references, f t = g t) :
    plainCollection f c = plainCollection g c := by
  cases c with
  | sequence s => simp [plainCollection, h _ List.mem_cons_self]
  | array a => simp only [plainCollection, h _ List.mem_cons_self]
  | map m =>
    simp [plainCollection, h _ List.mem_cons_self,
      h m.element.common.typeId (List.mem_cons_of_mem _ List.mem_cons_self)]
  | _ => rfl

end Projections

/-! ### Lookups in a registry that holds more -/

section Extension

variable [Digests] {reg reg' : TypeRegistry} (h : reg.Extends reg') {ti w r : TypeIdentifier}
include h

namespace TypeRegistry.Extends

omit [Digests] in
theorem getMinimal_eq {hash : EquivalenceHash} (hheld : (reg.getMinimal hash).isSome) :
    reg'.getMinimal hash = reg.getMinimal hash := by
  obtain ⟨o, ho⟩ := Option.isSome_iff_exists.mp hheld
  rw [ho, h.minimals ho]

omit [Digests] in
theorem getComplete_eq {hash : EquivalenceHash} (hheld : (reg.getComplete hash).isSome) :
    reg'.getComplete hash = reg.getComplete hash := by
  obtain ⟨c, hc⟩ := Option.isSome_iff_exists.mp hheld
  rw [hc, h.completes hc]

omit [Digests] in
theorem componentMinimalMember_eq {scc : StronglyConnectedComponentId}
    (hheld : reg.Holds (.stronglyConnectedComponent scc)) :
    reg'.componentMinimalMember scc = reg.componentMinimalMember scc := by
  simp only [TypeRegistry.Holds] at hheld
  unfold componentMinimalMember
  split
  · rfl
  · split at hheld
    · next hkind =>
      obtain ⟨members, hmembers⟩ := Option.isSome_iff_exists.mp hheld
      obtain ⟨hash, hhash, hmembers⟩ := Option.bind_eq_some_iff.mp hmembers
      simp only [if_pos hkind, hhash, h.minimalComponentOf hhash, Option.bind_some, hmembers,
        h.minimalComponents hmembers]
    · next hkind =>
      obtain ⟨members, hmembers⟩ := Option.isSome_iff_exists.mp hheld
      simp only [if_neg hkind, Option.bind_some, hmembers, h.minimalComponents hmembers]

omit [Digests] in
theorem minimalComponentHash_eq {scc : StronglyConnectedComponentId}
    (hkind : scc.equivalenceKind = EquivalenceKind.complete)
    (hheld : reg.Holds (.stronglyConnectedComponent scc)) :
    reg'.minimalComponentHash scc.hash = reg.minimalComponentHash scc.hash := by
  simp only [TypeRegistry.Holds, if_pos hkind] at hheld
  obtain ⟨members, hmembers⟩ := Option.isSome_iff_exists.mp hheld
  obtain ⟨hash, hhash, -⟩ := Option.bind_eq_some_iff.mp hmembers
  rw [minimalComponentHash, minimalComponentHash, hhash, h.minimalComponentOf hhash]

theorem minimalIdentifierAt_eq (left : Nat) (hti : reg.Settled ti) :
    minimalIdentifierAt reg' left ti = minimalIdentifierAt reg left ti := by
  induction left using Nat.strong_induction_on generalizing ti with
  | _ left ih =>
  cases left with
  | zero => rfl
  | succ left =>
    have hpart : ∀ t ∈ ti.shape.parts,
        minimalIdentifierAt reg' left t = minimalIdentifierAt reg left t :=
      fun t ht => ih left (Nat.lt_succ_self left) (hti.part ht)
    unfold minimalIdentifierAt
    cases ti with
    | plainSequenceSmall hd b e | plainSequenceLarge hd b e | plainArraySmall hd b e
    | plainArrayLarge hd b e => simp only [hpart e (by simp [TypeIdentifier.shape, Shape.parts])]
    | plainMapSmall hd b e f k | plainMapLarge hd b e f k =>
      simp only [hpart e (by simp [TypeIdentifier.shape, Shape.parts]),
        hpart k (by simp [TypeIdentifier.shape, Shape.parts])]
    | equivalenceHashComplete hash =>
      obtain ⟨c, hc⟩ := Option.isSome_iff_exists.mp hti.holds
      have hrefs : ∀ n < left + 1, ∀ t ∈ c.references,
          minimalIdentifierAt reg' n t = minimalIdentifierAt reg n t :=
        fun n hn t ht => ih n hn (hti.of_dependsOn (.complete hc ht))
      simp only [hc, h.completes hc, plainCollection_congr (hrefs left (Nat.lt_succ_self left)),
        h.trailingOctet]
      cases left with
      | zero => rfl
      | succ below => simp [toMinimalWith_congr (hrefs below (by omega))]
    | stronglyConnectedComponent scc =>
      simp only
      split
      · rfl
      · next hkind => rw [h.minimalComponentHash_eq (not_not.mp hkind) hti.holds]
    | _ => rfl

theorem resolveMinimal_eq (hti : reg.Settled ti) :
    resolveMinimal reg' ti = resolveMinimal reg ti := by
  cases ti with
  | equivalenceHashMinimal hash => exact h.getMinimal_eq hti.holds
  | equivalenceHashComplete hash =>
    obtain ⟨c, hc⟩ := Option.isSome_iff_exists.mp hti.holds
    have hproject : c.toMinimal reg' = c.toMinimal reg :=
      toMinimalWith_congr fun t ht =>
        h.minimalIdentifierAt_eq maxDependencyDepth (hti.of_dependsOn (.complete hc ht))
    simp [resolveMinimal, hc, h.completes hc, hproject]
  | stronglyConnectedComponent scc => exact h.componentMinimalMember_eq hti.holds
  | _ => rfl

theorem aliasTarget_eq (hti : reg.Settled ti) : reg'.aliasTarget ti = reg.aliasTarget ti := by
  cases ti with
  | equivalenceHashMinimal hash =>
    simp [aliasTarget, h.getMinimal_eq hti.holds]
  | equivalenceHashComplete hash =>
    simp [aliasTarget, h.getComplete_eq hti.holds]
  | _ => rfl

end TypeRegistry.Extends

omit h in
theorem settled_aliasTarget {target : TypeIdentifier} (hti : reg.Settled ti)
    (htarget : reg.aliasTarget ti = .ok (some target)) : reg.Settled target := by
  rcases TypeRegistry.aliasTarget_cases htarget with
    ⟨hash, a, rfl, hget, rfl⟩ | ⟨hash, a, rfl, hget, rfl⟩
  · have hresolve : resolveMinimal reg (.equivalenceHashMinimal hash) = some (.aliasType a) := hget
    exact hti.named hresolve List.mem_cons_self
  · exact hti.of_dependsOn (.complete hget List.mem_cons_self)

omit h in
theorem settled_resolveAliasChain {maxDepth : Nat} {ti' : TypeIdentifier} (hti : reg.Settled ti)
    (hok : resolveAliasChain ti reg maxDepth = .ok ti') : reg.Settled ti' :=
  resolveAliasLoop_closed (fun _ _ => settled_aliasTarget) hti hok

theorem resolveAliasChain_eq (hti : reg.Settled ti) (maxDepth : Nat) :
    resolveAliasChain ti reg' maxDepth = resolveAliasChain ti reg maxDepth := by
  have hloop : ∀ (rounds : Nat) (ti : TypeIdentifier) (visited : List EquivalenceHash),
      reg.Settled ti → resolveAliasLoop reg' maxDepth rounds ti visited =
        resolveAliasLoop reg maxDepth rounds ti visited := by
    intro rounds
    induction rounds with
    | zero => exact fun _ _ _ => rfl
    | succ rounds ih =>
      intro ti visited hti
      rw [resolveAliasLoop, resolveAliasLoop, h.aliasTarget_eq hti]
      cases htarget : reg.aliasTarget ti with
      | error e => rfl
      | ok target =>
        cases target with
        | none => rfl
        | some target => simp [ih target _ (settled_aliasTarget hti htarget)]
  exact hloop maxDepth ti [] hti

variable {s : MinimalStructType}

omit h in
theorem settled_of_base {base : MinimalStructType} {hash : EquivalenceHash}
    (hs : (MinimalTypeObject.struct s).Settled reg) (hbase : s.baseType.hash? = some hash)
    (hget : reg.getMinimal hash = some (.struct base)) :
    (MinimalTypeObject.struct base).Settled reg := by
  have hheld : reg.Settled (.equivalenceHashMinimal hash) :=
    hs _ (List.mem_append_left _ (by simp [hbase]))
  have hresolve : resolveMinimal reg (.equivalenceHashMinimal hash) = some (.struct base) := hget
  exact fun t ht => hheld.named hresolve ht

theorem inheritanceChain_eq (hs : (MinimalTypeObject.struct s).Settled reg)
    (limit rounds : Nat) (visited : List EquivalenceHash) :
    inheritanceChain reg' limit rounds s visited = inheritanceChain reg limit rounds s visited := by
  induction rounds generalizing s visited with
  | zero => rfl
  | succ rounds ih =>
    rw [inheritanceChain, inheritanceChain]
    cases hbase : s.baseType.hash? with
    | none => rfl
    | some hash =>
      have hheld : reg.Settled (.equivalenceHashMinimal hash) :=
        hs _ (List.mem_append_left _ (by simp [hbase]))
      simp only [h.getMinimal_eq hheld.holds]
      cases hobject : reg.getMinimal hash with
      | none => rfl
      | some o =>
        cases o with
        | struct base => simp [ih (settled_of_base hs hbase hobject)]
        | _ => rfl

theorem flattenInheritance_eq (hs : (MinimalTypeObject.struct s).Settled reg) (maxDepth : Nat) :
    flattenInheritance s reg' maxDepth = flattenInheritance s reg maxDepth := by
  rw [flattenInheritance, flattenInheritance, inheritanceChain_eq h hs]

omit h in
theorem settled_inheritanceChain (hs : (MinimalTypeObject.struct s).Settled reg)
    {limit rounds : Nat} {visited : List EquivalenceHash} {chain : List MinimalStructType}
    (hchain : inheritanceChain reg limit rounds s visited = .ok chain) :
    ∀ st ∈ chain, (MinimalTypeObject.struct st).Settled reg := by
  induction rounds generalizing s visited chain with
  | zero => cases hchain
  | succ rounds ih =>
    rw [inheritanceChain] at hchain
    split at hchain
    · obtain rfl := Except.ok.inj hchain
      intro st hst
      rw [List.mem_singleton.mp hst]
      exact hs
    · cases hbase : s.baseType.hash? with
      | none => simp [hbase] at hchain
      | some hash =>
        simp only [hbase] at hchain
        split at hchain
        · cases hchain
        · cases hget : reg.getMinimal hash with
          | none => simp [hget] at hchain
          | some o =>
            cases o <;> simp only [hget, reduceCtorEq] at hchain
            next base =>
            cases hrest : inheritanceChain reg limit rounds base (hash :: visited) with
            | error e => simp [hrest, Except.map] at hchain
            | ok rest =>
              obtain rfl : s :: rest = chain := by simpa [hrest, Except.map] using hchain
              intro st hst
              rcases List.mem_cons.mp hst with rfl | hst
              · exact hs
              · exact ih (settled_of_base hs hbase hget) hrest st hst

omit h in
omit [Digests] in
theorem mem_of_foldlM_addMember {ms acc flat : List MinimalStructMember}
    (hflat : ms.foldlM addMember acc = .ok flat) {m : MinimalStructMember} (hm : m ∈ flat) :
    m ∈ acc ∨ m ∈ ms := by
  induction ms generalizing acc with
  | nil =>
    obtain rfl : acc = flat := Except.ok.inj hflat
    exact Or.inl hm
  | cons m' ms ih =>
    rw [List.foldlM_cons] at hflat
    cases hadd : addMember acc m' with
    | error e => simp [hadd, bind, Except.bind] at hflat
    | ok acc' =>
      have hacc' : acc' = acc ++ [m'] := by
        unfold addMember at hadd
        split at hadd
        · cases hadd
        · split at hadd
          · cases hadd
          · exact (Except.ok.inj hadd).symm
      rw [hadd] at hflat
      rcases ih hflat with hm | hm
      · rw [hacc', List.mem_append, List.mem_singleton] at hm
        rcases hm with hm | rfl
        · exact Or.inl hm
        · exact Or.inr List.mem_cons_self
      · exact Or.inr (List.mem_cons_of_mem _ hm)

omit h in
theorem settled_flat {flat : MinimalStructType} {maxDepth : Nat}
    (hs : (MinimalTypeObject.struct s).Settled reg)
    (hflat : flattenInheritance s reg maxDepth = .ok flat) :
    flat.baseType = .none ∧ ∀ m ∈ flat.memberSeq, reg.Settled m.common.memberTypeId := by
  rw [flattenInheritance] at hflat
  cases hchain : inheritanceChain reg maxDepth maxDepth s [] with
  | error e => simp [hchain, bind, Except.bind] at hflat
  | ok chain =>
    cases hmembers : (chain.reverse.flatMap (·.memberSeq)).foldlM addMember [] with
    | error e => simp [hchain, hmembers, bind, Except.bind] at hflat
    | ok members =>
      simp only [hchain, hmembers, bind, Except.bind, pure, Except.pure] at hflat
      obtain rfl := Except.ok.inj hflat
      refine ⟨rfl, fun m hm => ?_⟩
      rcases mem_of_foldlM_addMember hmembers hm with hm | hm
      · cases hm
      · obtain ⟨st, hst, hm⟩ := List.mem_flatMap.mp hm
        exact settled_inheritanceChain hs hchain st (List.mem_reverse.mp hst) _
          (List.mem_append_right _ (List.mem_map_of_mem hm))

omit h in
theorem settled_struct_of_members (hbase : s.baseType = .none)
    (hmembers : ∀ m ∈ s.memberSeq, reg.Settled m.common.memberTypeId) :
    (MinimalTypeObject.struct s).Settled reg := by
  intro t ht
  rcases List.mem_append.mp ht with ht | ht
  · rw [hbase] at ht
    cases ht
  · obtain ⟨m, hm, rfl⟩ := List.mem_map.mp ht
    exact hmembers m hm

omit h in
theorem settled_keyErased {o : MinimalTypeObject} (ho : o.Settled reg) :
    (keyErased o).Settled reg := by
  cases o with
  | struct s =>
    intro t ht
    refine ho t ?_
    simpa [keyErased, MinimalTypeObject.references, Function.comp_def] using ht
  | _ => exact ho

omit h in
theorem settled_keyHolder {holder : MinimalStructType} {cfg : AssignabilityConfig}
    (hs : (MinimalTypeObject.struct s).Settled reg)
    (hholder : keyHolderStruct reg cfg s = some holder) :
    (MinimalTypeObject.struct holder).Settled reg := by
  simp only [keyHolderStruct, Option.map_eq_some_iff] at hholder
  obtain ⟨flat, hflat, hholder⟩ := hholder
  have hflat' : flat.baseType = .none ∧ ∀ m ∈ flat.memberSeq,
      reg.Settled m.common.memberTypeId := by
    split at hflat
    · next hnone =>
      obtain rfl := Option.some.inj hflat
      exact ⟨hnone, fun m hm => hs _ (List.mem_append_right _ (List.mem_map_of_mem hm))⟩
    · cases hok : flattenInheritance s reg cfg.maxDepth with
      | error e => simp [hok, Except.toOption] at hflat
      | ok f =>
        obtain rfl : f = flat := by simpa [hok, Except.toOption] using hflat
        exact settled_flat hs hok
  split at hholder
  · subst hholder
    exact settled_struct_of_members hflat'.1 fun m hm => hflat'.2 m (List.mem_of_mem_filter hm)
  · subst hholder
    refine settled_struct_of_members hflat'.1 fun m hm => ?_
    obtain ⟨m', hm', rfl⟩ := List.mem_map.mp hm
    exact hflat'.2 m' hm'

omit h in
theorem closedUnder_settled (maxDepth : Nat) :
    ClosedUnder reg maxDepth reg.Settled (·.Settled reg) where
  chain hti hok := settled_resolveAliasChain hti hok
  part hti element helement := hti.part helement
  object hti ho t ht := hti.named ho ht
  keyErased hti ho := settled_keyErased fun t ht => hti.named ho ht
  keyHolder hti hs _ hholder := settled_keyHolder (fun t ht => hti.named hs ht) hholder
  named := by
    intro o ho t ht
    cases o with
    | struct s =>
      obtain ⟨m, hm, rfl⟩ := List.mem_map.mp ht
      rcases List.mem_append.mp hm with hm | hm
      · exact ho _ (List.mem_append_right _ (List.mem_map_of_mem hm))
      · cases hok : flattenInheritance s reg maxDepth with
        | error e => simp [hok, Except.toOption] at hm
        | ok flat => exact (settled_flat ho hok).2 m (by simpa [hok, Except.toOption] using hm)
    | _ => exact ho t ht

end Extension

end ZeroDds.Types
