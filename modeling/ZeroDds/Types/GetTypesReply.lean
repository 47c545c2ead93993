/-
Filing the reply to a getTypes request.
-/
import ZeroDds.Lib.Edits
import ZeroDds.Types.Extension

namespace ZeroDds.Types

open Edit

structure TypeIdentifierTypeObjectPair where
  typeIdentifier : TypeIdentifier
  typeObject : TypeObject

structure TypeIdentifierPair where
  typeIdentifier1 : TypeIdentifier
  typeIdentifier2 : TypeIdentifier

structure GetTypesReply where
  types : List TypeIdentifierTypeObjectPair
  completeToMinimal : List TypeIdentifierPair

def TypeObject.complete? : TypeObject → Option CompleteTypeObject
  | .complete c => some c
  | .minimal _ => none

def TypeObject.minimal? : TypeObject → Option MinimalTypeObject
  | .minimal m => some m
  | .complete _ => none

/-! ### Components of a reply -/

section Components

variable {α : Type}

/-- Members of components by position, with the length that the first of each announced. -/
abbrev Collected (α : Type) := SortedMap EquivalenceHash (Int × SortedMap Int α)

def collectMember (kind : Nat) (select : TypeObject → Option α) (collected : Collected α)
    (pair : TypeIdentifierTypeObjectPair) : Collected α :=
  match pair.typeIdentifier with
  | .stronglyConnectedComponent scc =>
    if scc.sccIndex < 1 ∨ scc.sccIndex > scc.sccLength then collected
    else
      match select pair.typeObject with
      | none => collected
      | some object =>
        if scc.equivalenceKind = kind then
          let entry := (collected.get? scc.hash).getD (scc.sccLength, .empty)
          collected.insert scc.hash (entry.1, entry.2.insert scc.sccIndex object)
        else collected
  | _ => collected

def wholeComponents (kind : Nat) (select : TypeObject → Option α) (reply : GetTypesReply) :
    List (EquivalenceHash × List α) :=
  let collected := reply.types.foldl (collectMember kind select) .empty
  collected.entries.filterMap fun e =>
    if (e.2.2.size : Int) = e.2.1 then some (e.1, e.2.2.values) else none

end Components

namespace GetTypesReply

variable (reply : GetTypesReply)

def completeComponents : List (EquivalenceHash × List CompleteTypeObject) :=
  wholeComponents EquivalenceKind.complete TypeObject.complete? reply

def minimalComponents : List (EquivalenceHash × List MinimalTypeObject) :=
  wholeComponents EquivalenceKind.minimal TypeObject.minimal? reply

def link? (pair : TypeIdentifierPair) : Option (EquivalenceHash × EquivalenceHash) :=
  match pair.typeIdentifier1, pair.typeIdentifier2 with
  | .stronglyConnectedComponent source, .stronglyConnectedComponent target =>
    if source.equivalenceKind = EquivalenceKind.complete ∧
        target.equivalenceKind = EquivalenceKind.minimal then some (source.hash, target.hash)
    else none
  | _, _ => none

def paired : SortedMap EquivalenceHash EquivalenceHash :=
  Edit.putAll .empty (reply.completeToMinimal.filterMap link?)

def linkTo? (minimalHash : EquivalenceHash) : Option (EquivalenceHash × EquivalenceHash) :=
  reply.paired.entries.find? (·.2 = minimalHash)

end GetTypesReply

namespace TypeRegistry

def insertPairing (reg : TypeRegistry) (link : EquivalenceHash × EquivalenceHash) : TypeRegistry :=
  if reg.components.contains link.1 then
    { reg with minimalComponentOf := reg.minimalComponentOf.insert link.1 link.2 }
  else reg

def insertMinimalOf (reply : GetTypesReply) (reg : TypeRegistry)
    (component : EquivalenceHash × List MinimalTypeObject) : TypeRegistry :=
  match reply.linkTo? component.1 with
  | some link => reg.insertMinimalComponent link.1 component.1 component.2
  | none =>
    { reg with
      minimalComponents := reg.minimalComponents.insert component.1 component.2
      generation := reg.generation + 1 }

def insertComponentsOf (reg : TypeRegistry) (reply : GetTypesReply) : Nat × TypeRegistry :=
  let complete := reply.completeComponents
  let minimal := reply.minimalComponents
  let reg := complete.foldl (fun reg component => reg.insertComponent component.1 component.2) reg
  let reg := reply.paired.entries.foldl insertPairing reg
  (complete.length + minimal.length, minimal.foldl (insertMinimalOf reply) reg)

section

variable [Digests] (reg : TypeRegistry)

def newProjection (complete : CompleteTypeObject) : Option (EquivalenceHash × MinimalTypeObject) :=
  match complete.toMinimal reg with
  | .error _ => none
  | .ok minimal =>
    match Digests.computeMinimalHashWith minimal reg.minimalMemberTrailingOctet with
    | none => none
    | some hash => if reg.minimals.contains hash then none else some (hash, minimal)

def projectRounds : Nat → TypeRegistry → Nat × TypeRegistry
  | 0, reg => (0, reg)
  | rounds + 1, reg =>
    let round := reg.completes.values.filterMap reg.newProjection
    if round.isEmpty then (0, reg)
    else
      let (added, reg) :=
        projectRounds rounds { reg with minimals := Edit.putAll reg.minimals round }
      (round.length + added, reg)

def projectCompletesToMinimal : Nat × TypeRegistry :=
  let (added, reg) := projectRounds (reg.completes.size + 1) reg
  (added, if added > 0 then { reg with generation := reg.generation + 1 } else reg)

def insertAnnounced (pair : TypeIdentifierTypeObjectPair) : TypeRegistry :=
  let reg :=
    match pair.typeObject, pair.typeIdentifier.hash? with
    | .minimal m, some hash => reg.insertMinimal hash m
    | .complete c, some hash => reg.insertComplete hash c
    | _, none => reg
  (reg.insertObject pair.typeObject).2

def onTypesReply (reply : GetTypesReply) : TypeRegistry :=
  let reg := reply.types.foldl insertAnnounced reg
  let reg := (reg.insertComponentsOf reply).2
  reg.projectCompletesToMinimal.2

end

end TypeRegistry

/-! ### What a reply writes -/

namespace GetTypesReply

section

variable [Digests] (reply : GetTypesReply)

def hashesOf (pair : TypeIdentifierTypeObjectPair) : List EquivalenceHash :=
  pair.typeIdentifier.hash?.toList ++ (computeHash pair.typeObject).toList

def filings {α : Type} (select : TypeObject → Option α)
    (pairs : List TypeIdentifierTypeObjectPair) : List (EquivalenceHash × α) :=
  pairs.flatMap fun pair =>
    match select pair.typeObject with
    | some object => (hashesOf pair).map fun hash => (hash, object)
    | none => []

/-- The pairings that a registry takes from the reply: those of the COMPLETE components it holds or
gets, and those of the MINIMAL components that come with it. -/
def pairings (reg : TypeRegistry) : List (EquivalenceHash × EquivalenceHash) :=
  reply.paired.entries.filter
    (fun link => (Edit.putAll reg.components reply.completeComponents).contains link.1) ++
  reply.minimalComponents.filterMap fun component => reply.linkTo? component.1

structure Harmless (reg : TypeRegistry) : Prop where
  minimals : Edit.Agrees reg.minimals (filings TypeObject.minimal? reply.types)
  completes : Edit.Agrees reg.completes (filings TypeObject.complete? reply.types)
  components : Edit.Agrees reg.components reply.completeComponents
  minimalComponents : Edit.Agrees reg.minimalComponents reply.minimalComponents
  minimalComponentOf : Edit.Agrees reg.minimalComponentOf (reply.pairings reg)

end

end GetTypesReply

namespace TypeRegistry

structure Keeps (reg reg' : TypeRegistry) : Prop where
  minimals : reg.minimals.Keeps reg'.minimals
  completes : reg.completes.Keeps reg'.completes
  components : reg.components.Keeps reg'.components
  minimalComponents : reg.minimalComponents.Keeps reg'.minimalComponents
  minimalComponentOf : reg.minimalComponentOf.Keeps reg'.minimalComponentOf

structure Writes where
  minimals : List (EquivalenceHash × MinimalTypeObject) := []
  completes : List (EquivalenceHash × CompleteTypeObject) := []
  components : List (EquivalenceHash × List CompleteTypeObject) := []
  minimalComponents : List (EquivalenceHash × List MinimalTypeObject) := []
  minimalComponentOf : List (EquivalenceHash × EquivalenceHash) := []

def Writes.append (w w' : Writes) : Writes :=
  ⟨w.minimals ++ w'.minimals, w.completes ++ w'.completes, w.components ++ w'.components,
    w.minimalComponents ++ w'.minimalComponents, w.minimalComponentOf ++ w'.minimalComponentOf⟩

structure WrittenOver (reg : TypeRegistry) (w : Writes) (reg' : TypeRegistry) : Prop where
  minimals : reg'.minimals = Edit.putAll reg.minimals w.minimals
  completes : reg'.completes = Edit.putAll reg.completes w.completes
  components : reg'.components = Edit.putAll reg.components w.components
  minimalComponents : reg'.minimalComponents = Edit.putAll reg.minimalComponents w.minimalComponents
  minimalComponentOf :
    reg'.minimalComponentOf = Edit.putAll reg.minimalComponentOf w.minimalComponentOf
  trailingOctet : reg'.minimalMemberTrailingOctet = reg.minimalMemberTrailingOctet

theorem WrittenOver.refl (reg : TypeRegistry) : reg.WrittenOver {} reg :=
  ⟨rfl, rfl, rfl, rfl, rfl, rfl⟩

theorem WrittenOver.trans {reg reg' reg'' : TypeRegistry} {w w' : Writes}
    (h : reg.WrittenOver w reg') (h' : reg'.WrittenOver w' reg'') :
    reg.WrittenOver (w.append w') reg'' where
  minimals := by rw [h'.minimals, h.minimals]; exact (putAll_append _ _ _).symm
  completes := by rw [h'.completes, h.completes]; exact (putAll_append _ _ _).symm
  components := by rw [h'.components, h.components]; exact (putAll_append _ _ _).symm
  minimalComponents := by
    rw [h'.minimalComponents, h.minimalComponents]; exact (putAll_append _ _ _).symm
  minimalComponentOf := by
    rw [h'.minimalComponentOf, h.minimalComponentOf]; exact (putAll_append _ _ _).symm
  trailingOctet := h'.trailingOctet.trans h.trailingOctet

/-! ### The loops of the callback -/

section

variable [Digests] (reg : TypeRegistry) (reply : GetTypesReply)

open GetTypesReply

theorem insertAnnounced_writes (pair : TypeIdentifierTypeObjectPair) :
    reg.WrittenOver
      { minimals := filings TypeObject.minimal? [pair]
        completes := filings TypeObject.complete? [pair] }
      (reg.insertAnnounced pair) := by
  obtain ⟨ti, object⟩ := pair
  cases object with
  | minimal m =>
    cases hannounced : ti.hash? <;> cases hown : computeHash (.minimal m) <;>
      constructor <;>
      simp [insertAnnounced, insertObject, insertMinimal, filings, hashesOf, TypeObject.minimal?,
        TypeObject.complete?, Edit.putAll, hannounced, hown]
  | complete c =>
    cases hannounced : ti.hash? <;> cases hown : computeHash (.complete c) <;>
      constructor <;>
      simp [insertAnnounced, insertObject, insertComplete, filings, hashesOf, TypeObject.minimal?,
        TypeObject.complete?, Edit.putAll, hannounced, hown]

theorem foldl_insertAnnounced_writes (pairs : List TypeIdentifierTypeObjectPair) :
    reg.WrittenOver
      { minimals := filings TypeObject.minimal? pairs
        completes := filings TypeObject.complete? pairs }
      (pairs.foldl insertAnnounced reg) := by
  induction pairs generalizing reg with
  | nil => exact .refl reg
  | cons pair pairs ih =>
    have hsteps := (reg.insertAnnounced_writes pair).trans (ih (reg.insertAnnounced pair))
    simpa [Writes.append, filings] using hsteps

omit [Digests] in
theorem foldl_insertComponent_writes
    (components : List (EquivalenceHash × List CompleteTypeObject)) :
    reg.WrittenOver { components } (components.foldl
      (fun reg component => reg.insertComponent component.1 component.2) reg) := by
  induction components generalizing reg with
  | nil => exact .refl reg
  | cons component components ih =>
    have hone : reg.WrittenOver { components := [component] }
        (reg.insertComponent component.1 component.2) := ⟨rfl, rfl, rfl, rfl, rfl, rfl⟩
    exact hone.trans (ih _)

omit [Digests] in
theorem foldl_insertPairing_writes (links : List (EquivalenceHash × EquivalenceHash)) :
    reg.WrittenOver
      { minimalComponentOf := links.filter fun link => reg.components.contains link.1 }
      (links.foldl insertPairing reg) := by
  induction links generalizing reg with
  | nil => exact .refl reg
  | cons link links ih =>
    rw [List.foldl_cons, insertPairing]
    by_cases hheld : reg.components.contains link.1 = true
    · rw [if_pos hheld, List.filter_cons_of_pos (by exact hheld)]
      have hone : reg.WrittenOver { minimalComponentOf := [link] }
          { reg with minimalComponentOf := reg.minimalComponentOf.insert link.1 link.2 } :=
        ⟨rfl, rfl, rfl, rfl, rfl, rfl⟩
      exact hone.trans (ih _)
    · rw [if_neg hheld, List.filter_cons_of_neg (by exact hheld)]
      exact ih reg

omit [Digests] in
theorem foldl_insertMinimalOf_writes
    (components : List (EquivalenceHash × List MinimalTypeObject)) :
    reg.WrittenOver
      { minimalComponents := components
        minimalComponentOf := components.filterMap fun component => reply.linkTo? component.1 }
      (components.foldl (insertMinimalOf reply) reg) := by
  induction components generalizing reg with
  | nil => exact .refl reg
  | cons component components ih =>
    cases hlink : reply.linkTo? component.1 with
    | none =>
      rw [List.filterMap_cons_none (by exact hlink)]
      have hone : reg.WrittenOver { minimalComponents := [component] }
          (insertMinimalOf reply reg component) := by
        rw [insertMinimalOf, hlink]
        exact ⟨rfl, rfl, rfl, rfl, rfl, rfl⟩
      exact hone.trans (ih _)
    | some link =>
      have hto : link.2 = component.1 := by simpa using List.find?_some hlink
      rw [List.filterMap_cons_some (by exact hlink)]
      have hone : reg.WrittenOver
          { minimalComponents := [component], minimalComponentOf := [link] }
          (insertMinimalOf reply reg component) := by
        rw [insertMinimalOf, hlink]
        refine ⟨rfl, rfl, rfl, rfl, ?_, rfl⟩
        simp [insertMinimalComponent, Edit.putAll, hto]
      exact hone.trans (ih _)

def replyWrites : Writes where
  minimals := filings TypeObject.minimal? reply.types
  completes := filings TypeObject.complete? reply.types
  components := reply.completeComponents
  minimalComponents := reply.minimalComponents
  minimalComponentOf := reply.pairings reg

theorem reply_writes :
    reg.WrittenOver (reg.replyWrites reply)
      ((reply.types.foldl insertAnnounced reg).insertComponentsOf reply).2 := by
  have hobjects := reg.foldl_insertAnnounced_writes reply.types
  have hcomponents := foldl_insertComponent_writes (reply.types.foldl insertAnnounced reg)
    reply.completeComponents
  have hpairs := foldl_insertPairing_writes (reply.completeComponents.foldl
    (fun reg component => reg.insertComponent component.1 component.2)
    (reply.types.foldl insertAnnounced reg)) reply.paired.entries
  have hheld : (reply.completeComponents.foldl
      (fun reg component => reg.insertComponent component.1 component.2)
      (reply.types.foldl insertAnnounced reg)).components =
        Edit.putAll reg.components reply.completeComponents := by
    rw [hcomponents.components, hobjects.components]
    rfl
  rw [hheld] at hpairs
  have hall := ((hobjects.trans hcomponents).trans hpairs).trans
    (foldl_insertMinimalOf_writes _ reply reply.minimalComponents)
  simpa [Writes.append, replyWrites, pairings, insertComponentsOf] using hall

theorem projectRounds_eq (rounds : Nat) :
    ∃ minimals, (projectRounds rounds reg).2 = { reg with minimals } ∧
      reg.minimals.Keeps minimals := by
  induction rounds generalizing reg with
  | zero => exact ⟨reg.minimals, rfl, .refl _⟩
  | succ rounds ih =>
    have hnew : ∀ e ∈ reg.completes.values.filterMap reg.newProjection,
        reg.minimals.get? e.1 = none := by
      intro e he
      obtain ⟨complete, -, hprojection⟩ := List.mem_filterMap.mp he
      unfold newProjection at hprojection
      split at hprojection
      · cases hprojection
      · split at hprojection
        · cases hprojection
        · split at hprojection
          · cases hprojection
          · next hcontains =>
            obtain rfl := Option.some.inj hprojection
            simpa [SortedMap.contains] using hcontains
    simp only [projectRounds]
    split
    · exact ⟨reg.minimals, rfl, .refl _⟩
    · obtain ⟨minimals, heq, hkeeps⟩ := ih { reg with
        minimals := Edit.putAll reg.minimals (reg.completes.values.filterMap reg.newProjection) }
      exact ⟨minimals, heq, (keeps_putAll_of_new hnew).trans hkeeps⟩

theorem projectCompletesToMinimal_eq :
    ∃ minimals generation, reg.projectCompletesToMinimal.2 = { reg with minimals, generation } ∧
      reg.minimals.Keeps minimals := by
  obtain ⟨minimals, heq, hkeeps⟩ := reg.projectRounds_eq (reg.completes.size + 1)
  simp only [projectCompletesToMinimal, heq]
  split
  · exact ⟨minimals, reg.generation + 1, rfl, hkeeps⟩
  · exact ⟨minimals, reg.generation, rfl, hkeeps⟩

/-! ### Replies that change nothing -/

theorem onTypesReply_eq :
    ∃ reg₁ minimals generation, reg.WrittenOver (reg.replyWrites reply) reg₁ ∧
      reg₁.minimals.Keeps minimals ∧
      reg.onTypesReply reply = { reg₁ with minimals, generation } := by
  obtain ⟨minimals, generation, heq, hkeeps⟩ := projectCompletesToMinimal_eq
    ((reply.types.foldl insertAnnounced reg).insertComponentsOf reply).2
  exact ⟨_, minimals, generation, reg.reply_writes reply, hkeeps, heq⟩

theorem keeps_onTypesReply_iff : reg.Keeps (reg.onTypesReply reply) ↔ reply.Harmless reg := by
  obtain ⟨reg₁, minimals, generation, hwritten, hprojected, heq⟩ := reg.onTypesReply_eq reply
  have hminimals : reg.minimals.Keeps minimals ↔ reg.minimals.Keeps reg₁.minimals := by
    refine ⟨fun hkeeps => ?_, fun hkeeps => hkeeps.trans hprojected⟩
    refine SortedMap.keeps_of_between (fun hash o ho => ?_) hprojected hkeeps
    rw [hwritten.minimals, SortedMap.contains, get?_putAll, ho]
    simp
  rw [heq]
  constructor
  · intro hkeeps
    have h₁ := hminimals.mp hkeeps.minimals
    have h₂ := hkeeps.completes
    have h₃ := hkeeps.components
    have h₄ := hkeeps.minimalComponents
    have h₅ := hkeeps.minimalComponentOf
    simp only [hwritten.minimals, hwritten.completes, hwritten.components,
      hwritten.minimalComponents, hwritten.minimalComponentOf, keeps_putAll_iff]
      at h₁ h₂ h₃ h₄ h₅
    exact ⟨h₁, h₂, h₃, h₄, h₅⟩
  · intro hharmless
    have h₁ := keeps_putAll_iff.mpr hharmless.minimals
    refine ⟨hminimals.mpr (hwritten.minimals ▸ h₁), ?_, ?_, ?_, ?_⟩
    · exact hwritten.completes ▸ keeps_putAll_iff.mpr hharmless.completes
    · exact hwritten.components ▸ keeps_putAll_iff.mpr hharmless.components
    · exact hwritten.minimalComponents ▸ keeps_putAll_iff.mpr hharmless.minimalComponents
    · exact hwritten.minimalComponentOf ▸ keeps_putAll_iff.mpr hharmless.minimalComponentOf

theorem extends_onTypesReply (hkeeps : reg.Keeps (reg.onTypesReply reply)) :
    reg.Extends (reg.onTypesReply reply) where
  minimals h := hkeeps.minimals _ _ h
  completes h := hkeeps.completes _ _ h
  minimalComponents h := hkeeps.minimalComponents _ _ h
  minimalComponentOf h := hkeeps.minimalComponentOf _ _ h
  trailingOctet := by
    obtain ⟨reg₁, minimals, generation, hwritten, -, heq⟩ := reg.onTypesReply_eq reply
    rw [heq]
    exact hwritten.trailingOctet

/-- In `reg'` the hashes present are looked up as before, and two settled types compare as before
under every configuration. -/
def Unmoved (reg' : TypeRegistry) : Prop :=
  reg.Keeps reg' ∧ ∀ w r, reg.Settled w → reg.Settled r → ∀ cfg fuel,
    isAssignable reg' fuel w r cfg = isAssignable reg fuel w r cfg

/-- A reply leaves what is known as it is exactly when what it files last under each hash present is
what is there. -/
theorem known_types_unmoved_iff :
    reg.Unmoved (reg.onTypesReply reply) ↔ reply.Harmless reg := by
  rw [← keeps_onTypesReply_iff]
  refine ⟨fun h => h.1, fun hkeeps => ⟨hkeeps, fun w r hw hr cfg fuel => ?_⟩⟩
  exact isAssignable_extends (reg.extends_onTypesReply reply hkeeps) cfg hw hr fuel

end

end TypeRegistry

namespace TypeFixture

@[reducible] def ownHash : Digests := ⟨digests.nameHash, fun _ _ => some (hash 9), fun _ => none⟩

def known : TypeRegistry :=
  (TypeRegistry.new.insertMinimal (hash 1) (structOf [member 1 1 int32])).insertMinimal (hash 2)
    (structOf [member 1 1 int32])

def forged : GetTypesReply :=
  ⟨[⟨hashed 1, .minimal (structOf [member 1 1 (.string8Small 0)])⟩], []⟩

theorem structs_settled {reg : TypeRegistry} (ns : List Nat)
    (hheld : ∀ n ∈ ns, ∃ ms, reg.getMinimal (hash n) = some (structOf ms) ∧
      ∀ m ∈ ms, m.common.memberTypeId ∈ int32 :: ns.map hashed) {n : Nat} (hn : n ∈ ns) :
    @TypeRegistry.Settled ownHash reg (hashed n) := by
  refine @TypeRegistry.settled_of_closed ownHash reg (hashed n) (· ∈ int32 :: ns.map hashed)
    ?_ ?_ (List.mem_cons_of_mem _ (List.mem_map_of_mem hn))
  · intro t ht
    rcases List.mem_cons.mp ht with rfl | ht
    · trivial
    · obtain ⟨k, hk, rfl⟩ := List.mem_map.mp ht
      obtain ⟨ms, hms, -⟩ := hheld k hk
      exact Option.isSome_iff_exists.mpr ⟨_, hms⟩
  · intro t t' ht hdep
    rcases List.mem_cons.mp ht with rfl | ht
    · rcases hdep with hpart | ⟨ho, -⟩
      · exact absurd hpart List.not_mem_nil
      · cases ho
    · obtain ⟨k, hk, rfl⟩ := List.mem_map.mp ht
      obtain ⟨ms, hms, hmembers⟩ := hheld k hk
      rcases hdep with hpart | ⟨ho, hnamed⟩
      · exact absurd hpart List.not_mem_nil
      · obtain rfl := Option.some.inj (ho.symm.trans hms)
        obtain ⟨m, hm, rfl⟩ := List.mem_map.mp hnamed
        exact hmembers m hm

theorem known_settled {n : Nat} (hn : n ∈ [1, 2]) :
    @TypeRegistry.Settled ownHash known (hashed n) := by
  refine structs_settled _ (fun n hn => ⟨[member 1 1 int32], ?_, by simp [member]⟩) hn
  revert n
  decide +kernel

/-- The forged object takes the place of the one that was there, and the two structs, assignable
before, are so no more. -/
theorem forged_moves_known :
    ¬@TypeRegistry.Unmoved ownHash known (@TypeRegistry.onTypesReply ownHash known forged) := by
  rintro ⟨-, hverdicts⟩
  have hsame := hverdicts (hashed 1) (hashed 2) (known_settled (by simp))
    (known_settled (by simp)) {} 4
  exact absurd hsame (by decide +kernel)

end TypeFixture

end ZeroDds.Types
