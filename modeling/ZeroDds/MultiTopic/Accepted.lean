/-
What an accepted plan promises.
-/
import ZeroDds.Lib.Loops
import ZeroDds.MultiTopic.Engine

namespace ZeroDds.MultiTopic

open Dcps (InstanceHandle)

variable {τ : Type} [DynamicTypes τ]

theorem segments_cases (path : String) :
    (afterFirst path = none ∧ segments path = [firstSegment path]) ∨
      ∃ rest, afterFirst path = some rest ∧ segments path = firstSegment path :: segments rest := by
  by_cases hdot : '.' ∈ path.toList
  · right
    obtain ⟨xs, as, hpath, hxs⟩ := List.eq_append_cons_of_mem hdot
    have hsplit : segments path = String.ofList xs :: segments (String.ofList as) := by
      rw [segments, hpath, List.splitOn_append_cons_self_of_not_mem hxs, List.map_cons, segments,
        String.toList_ofList]
    have hfirst : firstSegment path = String.ofList xs := by rw [firstSegment, hsplit]; rfl
    refine ⟨String.ofList as, ?_, by rw [hsplit, hfirst]⟩
    rw [afterFirst, hfirst, String.toList_ofList, hpath, if_pos (by simp)]
    simp
  · left
    have hsplit : segments path = [path] := by
      rw [segments, List.splitOn_eq_singleton hdot]
      simp
    have hfirst : firstSegment path = path := by rw [firstSegment, hsplit]; rfl
    exact ⟨by rw [afterFirst, hfirst, if_neg (Nat.lt_irrefl _)], by rw [hsplit, hfirst]⟩

theorem segments_of_no_dot {path : String} (h : '.' ∉ path.toList) :
    segments path = [path] ∧ afterFirst path = none := by
  have hsplit : segments path = [path] := by
    rw [segments, List.splitOn_eq_singleton h]
    simp
  rcases segments_cases path with ⟨hafter, -⟩ | ⟨rest, -, hrest⟩
  · exact ⟨hsplit, hafter⟩
  · rw [hsplit] at hrest
    have hne : segments rest ≠ [] := by simp [segments]
    exact absurd (List.cons.inj hrest).2.symm hne

def topicMembers (topic : SourceTopic τ) : List (DynamicTypeMember τ) :=
  match aggregateType topic.support topic.name with
  | .ok type => allMembers type
  | .error _ => []

def memberNames (topic : SourceTopic τ) : List String :=
  (topicMembers topic).map DynamicTypeMember.name

/-- The columns are the names of the members `done`, each once, and have their types. -/
structure Covers (done : List (DynamicTypeMember τ)) (types : SortedMap String τ)
    (columns : List String) : Prop where
  typed : ∀ m ∈ done, ∃ type seen, m.dynamicType = .ok type ∧ types.get? m.name = some seen ∧
    (seen = type ∨ DynamicTypes.equalsIgnoringAnnotations seen type = true)
  names : ∀ name, name ∈ columns ↔ ∃ m ∈ done, m.name = name
  known : ∀ name, (types.get? name).isSome ↔ name ∈ columns
  nodup : columns.Nodup

variable {c : Columns τ} {c' : Columns τ} {m : DynamicTypeMember τ}

theorem Covers.addMember {done : List (DynamicTypeMember τ)} {topic : String}
    (h : Covers done c.columnTypes c.columns) (hadd : c.addMember topic m = .ok c') :
    Covers (done ++ [m]) c'.columnTypes c'.columns ∧ c'.members = c.members := by
  unfold Columns.addMember at hadd
  split at hadd
  · cases hadd
  · next type htype =>
    split at hadd
    · next hnone =>
      cases hadd
      have hfresh : m.name ∉ c.columns := by
        rw [← h.known, hnone]
        exact Bool.false_ne_true
      refine ⟨⟨fun m' hm' => ?_, fun name => ?_, fun name => ?_, ?_⟩, rfl⟩
      · rcases List.mem_append.mp hm' with hold | hnew
        · obtain ⟨t, seen, ht, hseen, heq⟩ := h.typed m' hold
          refine ⟨t, seen, ht, ?_, heq⟩
          have hne : m'.name ≠ m.name := by
            intro heq
            rw [heq, hnone] at hseen
            cases hseen
          rw [SortedMap.get?_insert, if_neg hne, hseen]
        · rw [List.mem_singleton.mp hnew]
          exact ⟨type, type, htype, by rw [SortedMap.get?_insert, if_pos rfl], .inl rfl⟩
      · simp only [List.mem_append, List.mem_singleton, h.names]
        constructor
        · rintro (⟨m', hm', rfl⟩ | rfl)
          · exact ⟨m', .inl hm', rfl⟩
          · exact ⟨m, .inr rfl, rfl⟩
        · rintro ⟨m', hm' | rfl, rfl⟩
          · exact .inl ⟨m', hm', rfl⟩
          · exact .inr rfl
      · rw [SortedMap.get?_insert, List.mem_append, List.mem_singleton, ← h.known]
        by_cases hname : name = m.name
        · simp [hname]
        · simp [hname]
      · exact List.nodup_append.mpr ⟨h.nodup, List.nodup_singleton _,
          fun a ha b hb hab => hfresh (by rw [← List.mem_singleton.mp hb, ← hab]; exact ha)⟩
    · next seen hseen =>
      split at hadd
      · next heq =>
        cases hadd
        have hin : m.name ∈ c.columns := by
          rw [← h.known, hseen]
          rfl
        refine ⟨⟨fun m' hm' => ?_, fun name => ?_, h.known, h.nodup⟩, rfl⟩
        · rcases List.mem_append.mp hm' with hold | hnew
          · exact h.typed m' hold
          · rw [List.mem_singleton.mp hnew]
            exact ⟨type, seen, htype, hseen, .inr heq⟩
        · rw [h.names]
          constructor
          · rintro ⟨m', hm', rfl⟩
            exact ⟨m', List.mem_append_left _ hm', rfl⟩
          · rintro ⟨m', hm', rfl⟩
            rcases List.mem_append.mp hm' with hold | hnew
            · exact ⟨m', hold, rfl⟩
            · rw [List.mem_singleton.mp hnew]
              exact (h.names _).mp hin
      · cases hadd

def CoversTopics (done : List (SourceTopic τ)) (c : Columns τ) : Prop :=
  Covers (done.flatMap topicMembers) c.columnTypes c.columns ∧ c.members = done.map memberNames

theorem CoversTopics.addTopic {done : List (SourceTopic τ)} {topic : SourceTopic τ}
    (h : CoversTopics done c) (hadd : c.addTopic topic = .ok c') :
    CoversTopics (done ++ [topic]) c' := by
  obtain ⟨type, htype, hadd⟩ := bind_ok.mp hadd
  obtain ⟨c₁, hfold, hret⟩ := bind_ok.mp hadd
  have hmembers : topicMembers topic = allMembers type := by rw [topicMembers, htype]
  have hcovers := foldlM_invariant
    (P := fun ms (c₁ : Columns τ) =>
      Covers (done.flatMap topicMembers ++ ms) c₁.columnTypes c₁.columns ∧ c₁.members = c.members)
    ⟨by rw [List.append_nil]; exact h.1, rfl⟩
    (fun ms c₁ m c₂ hc hm => by
      obtain ⟨hcov, hsame⟩ := hc.1.addMember hm
      rw [← List.append_assoc]
      exact ⟨hcov, hsame.trans hc.2⟩)
    hfold
  rw [← Except.ok.inj hret]
  refine ⟨?_, ?_⟩
  · rw [List.flatMap_append, List.flatMap_singleton, hmembers]
    exact hcovers.1
  · rw [List.map_append, List.map_singleton, memberNames, hmembers, hcovers.2, h.2]

variable {topics : List (SourceTopic τ)} {a b : Nat}

theorem coversTopics_of_foldlM (h : topics.foldlM Columns.addTopic Columns.start = .ok c) :
    CoversTopics topics c := by
  refine foldlM_invariant (P := CoversTopics) ⟨⟨?_, ?_, ?_, List.nodup_nil⟩, rfl⟩
    (fun done c topic c' hc ha => hc.addTopic ha) h
  · intro m hm
    cases hm
  · simp [Columns.start]
  · intro name
    simp [Columns.start, SortedMap.get?, SortedMap.empty]

/-! ### The shared names -/

theorem mem_topicPairs {n : Nat} : (a, b) ∈ topicPairs n ↔ a < b ∧ b < n := by
  simp only [topicPairs, List.mem_flatMap, List.mem_range, List.mem_map, List.mem_range'_1,
    Prod.mk.injEq]
  constructor
  · rintro ⟨x, hx, y, hy, rfl, rfl⟩
    omega
  · rintro ⟨hab, hb⟩
    exact ⟨a, by omega, b, by omega, rfl, rfl⟩

theorem get?_sharedOf (members : List (List String)) (a b : Nat) :
    (sharedOf members).get? (toLex (a, b)) =
      if a < b ∧ b < members.length ∧ sharedNames members (a, b) ≠ [] then
        some (sharedNames members (a, b))
      else none := by
  have key : ∀ (l : List (Nat × Nat)) (m : SortedMap (Nat ×ₗ Nat) (List String)),
      (l.foldl (fun shared p =>
        if (sharedNames members p).isEmpty then shared
        else shared.insert (toLex p) (sharedNames members p)) m).get? (toLex (a, b)) =
      if (a, b) ∈ l ∧ sharedNames members (a, b) ≠ [] then some (sharedNames members (a, b))
      else m.get? (toLex (a, b)) := by
    intro l
    induction l with
    | nil => intro m; simp
    | cons p l ih =>
      intro m
      rw [List.foldl_cons, ih]
      by_cases hp : p = (a, b)
      · subst hp
        by_cases hboth : sharedNames members (a, b) = []
        · simp [hboth]
        · simp [hboth]
      · have hne : toLex (a, b) ≠ toLex p := fun h => hp (toLex.injective h).symm
        have hmem : (a, b) ∈ p :: l ↔ (a, b) ∈ l := by
          rw [List.mem_cons]
          exact or_iff_right fun h => hp h.symm
        simp only [hmem]
        congr 1
        split
        · rfl
        · rw [SortedMap.get?_insert, if_neg hne]
  rw [sharedOf, key]
  simp only [mem_topicPairs, and_assoc]
  rfl

theorem mem_sharedNames {members : List (List String)} {name : String} :
    name ∈ sharedNames members (a, b) ↔ name ∈ members.getD a [] ∧ name ∈ members.getD b [] := by
  simp [sharedNames]

variable {Expr Value : Type} [SqlFilter Expr Value]

/-- A field of the result: the type it has in the joined row is that of a member of the
result type of its name. -/
def OutputFits (types : SortedMap String τ) (resultType : τ) (o : Output) : Prop :=
  ∃ m source target, findMember resultType o.name = some m ∧
    sourceType types o.path = some source ∧ m.dynamicType = .ok target ∧
    DynamicTypes.equalsIgnoringAnnotations source target = true

def PathFits (types : SortedMap String τ) (columns : List String) (path : String) : Prop :=
  path ∈ columns ∨ ∃ t, types.get? (firstSegment path) = some t ∧
    ∀ rest, afterFirst path = some rest → (typeAt t rest).isSome

structure Accepted (topics : List (SourceTopic τ)) (result : SerializedTypeSupport τ)
    (plan : MultiTopicPlan τ Expr) (types : SortedMap String τ) (resultType : τ) : Prop where
  members : plan.members = topics.map memberNames
  columns : Covers (topics.flatMap topicMembers) types plan.columns
  shared : plan.shared = sharedOf plan.members
  outputs : ∀ o ∈ plan.outputs, OutputFits types resultType o ∧ PathFits types plan.columns o.path
  support : plan.result = result
  read : aggregateType result "the result type" = .ok resultType
  filled : ∀ m ∈ allMembers resultType, m.isOptional = false → ∃ o ∈ plan.outputs, o.name = m.name

variable {types : SortedMap String τ} {o : Output} {outputs : List Output}

theorem outputFits_of_check {resultType : τ} (h : checkOutput types resultType o = .ok ()) :
    OutputFits types resultType o := by
  unfold checkOutput at h
  split at h
  · cases h
  · next m hm =>
    split at h
    · cases h
    · next source hsource =>
      split at h
      · cases h
      · next target htarget =>
        split at h
        · next heq => exact ⟨m, source, target, hm, hsource, htarget, heq⟩
        · cases h

theorem pathFits_of_outputOf {columns : List String} {f : SubjectField}
    (h : outputOf types f = .ok o) : PathFits types columns o.path := by
  unfold outputOf at h
  split at h
  · cases h
  · next t ht =>
    split at h
    · cases h
    · next hno =>
      cases h
      refine .inr ⟨t, ht, fun rest hrest => ?_⟩
      have hlong : (firstSegment f.field).toList.length < f.field.toList.length := by
        by_contra hshort
        rw [afterFirst, if_neg hshort] at hrest
        cases hrest
      rw [hrest, Option.getD_some] at hno
      simpa [hlong, Option.isSome_iff_ne_none] using hno

theorem pathFits_of_outputsOf {select : Select} (h : outputsOf c select = .ok outputs) :
    ∀ o ∈ outputs, PathFits c.columnTypes c.columns o.path := by
  intro o ho
  cases select with
  | all =>
    rw [← Except.ok.inj h] at ho
    obtain ⟨column, hcolumn, rfl⟩ := List.mem_map.mp ho
    exact .inl hcolumn
  | fields fields =>
    obtain ⟨f, -, hf⟩ := mem_of_mapM_eq_ok h ho
    exact pathFits_of_outputOf hf

omit [DynamicTypes τ] in
theorem exists_output_of_checkFilled (h : checkFilled outputs m = .ok ())
    (hm : m.isOptional = false) : ∃ o ∈ outputs, o.name = m.name := by
  unfold checkFilled at h
  split at h
  · cases h
  · next hno => simpa [hm] using hno

theorem accepted_of_new {expression : TopicExpression Expr} {result : SerializedTypeSupport τ}
    {plan : MultiTopicPlan τ Expr} (h : MultiTopicPlan.new expression topics result = .ok plan) :
    ∃ types resultType, Accepted topics result plan types resultType := by
  obtain ⟨c, hc, h⟩ := bind_ok.mp h
  obtain ⟨outputs, houtputs, h⟩ := bind_ok.mp h
  obtain ⟨_, -, h⟩ := bind_ok.mp h
  obtain ⟨resultType, hresult, h⟩ := bind_ok.mp h
  obtain ⟨_, hfits, h⟩ := bind_ok.mp h
  obtain ⟨_, hfilled, h⟩ := bind_ok.mp h
  obtain ⟨hcovers, hmembers⟩ := coversTopics_of_foldlM hc
  rw [← Except.ok.inj h]
  exact ⟨c.columnTypes, resultType, hmembers, hcovers, rfl,
    fun o ho => ⟨outputFits_of_check (forM_eq_ok.mp hfits o ho),
      pathFits_of_outputsOf houtputs o ho⟩,
    rfl, hresult, fun m hm => exists_output_of_checkFilled (forM_eq_ok.mp hfilled m hm)⟩

/-! ### Values of the types -/

def IsIdentifier (name : String) : Prop := name ≠ "" ∧ '.' ∉ name.toList

/-- What the types say of the values they hold.  Names of members are identifiers, an
alias holds the values of its type, equal types hold the same values, and the value of
a member is one of the member's type. -/
structure Lawful (Holds : τ → DynamicData → Prop) : Prop where
  identifier : ∀ (t : τ), ∀ m ∈ DynamicTypes.members t, IsIdentifier m.name
  unaliased : ∀ {t s : τ} {v : DynamicData}, DynamicTypes.resolveAlias t = .ok s → Holds t v →
    Holds s v
  equal : ∀ {t s : τ} {v : DynamicData}, DynamicTypes.equalsIgnoringAnnotations t s = true →
    (Holds t v ↔ Holds s v)
  member : ∀ {t s : τ} {name : String} {m : DynamicTypeMember τ} {v w : DynamicData},
    findMember t name = some m → m.dynamicType = .ok s → Holds t v → v.member name = some w →
    Holds s w

/-- What `from_dynamic_data` documents: it refuses a missing or an unknown member and a
value its member's type does not hold, and nothing else. -/
def Accepts (Holds : τ → DynamicData → Prop) (support : SerializedTypeSupport τ) : Prop :=
  ∀ what type fields, aggregateType support what = .ok type →
    (∀ e ∈ fields, ∃ m s, findMember type e.1 = some m ∧ m.dynamicType = .ok s ∧ Holds s e.2) →
    (∀ m ∈ allMembers type, m.isOptional = false → m.name ∈ fields.map Prod.fst) →
    ∃ sample, support.fromDynamicData (.aggregate fields) = .ok sample

section Typed

variable {Holds : τ → DynamicData → Prop} (law : Lawful Holds)

include law

variable {t : τ} {m : DynamicTypeMember τ} {v : DynamicData}

theorem Lawful.identifier_of_mem (h : m ∈ allMembers t) : IsIdentifier m.name := by
  have key : ∀ (n : Nat) (t : τ), m ∈ membersTo n t → IsIdentifier m.name := by
    intro n
    induction n with
    | zero => exact fun t hm => law.identifier t m hm
    | succ n ih =>
      intro t hm
      rcases List.mem_append.mp hm with hbase | hown
      · cases hb : (DynamicTypes.baseType t).bind
            (fun base => (DynamicTypes.resolveAlias base).toOption) with
        | none =>
          rw [hb] at hbase
          cases hbase
        | some base =>
          rw [hb] at hbase
          exact ih base hbase
      · exact law.identifier t m hown
  exact key maxBaseDepth t h

theorem Lawful.name_of_find {name : String} (h : findMember t name = some m) :
    IsIdentifier name := by
  have hname := List.find?_some (p := fun m : DynamicTypeMember τ => m.name == name) h
  rw [← beq_iff_eq.mp hname]
  exact law.identifier_of_mem (List.mem_of_find?_eq_some h)

theorem Lawful.below {names : List String} {s : τ} {w : DynamicData}
    (ht : typeBelow t names = some s) (hv : valueBelow v names = some w) (h : Holds t v) :
    Holds s w := by
  induction names generalizing t v with
  | nil =>
    rw [← Option.some.inj ht, ← Option.some.inj hv]
    exact h
  | cons name names ih =>
    rw [typeBelow, List.foldlM_cons, Option.bind_eq_bind, Option.bind_eq_some_iff] at ht
    rw [valueBelow, List.foldlM_cons, Option.bind_eq_bind, Option.bind_eq_some_iff] at hv
    obtain ⟨t', ht', ht⟩ := ht
    obtain ⟨v', hv', hv⟩ := hv
    obtain ⟨r, hr, ht'⟩ := Option.bind_eq_some_iff.mp ht'
    obtain ⟨m, hm, hmt⟩ := Option.bind_eq_some_iff.mp ht'
    rw [toOption_eq_some] at hr hmt
    exact ih ht hv (law.member hm hmt (law.unaliased hr h) hv')

def RowHolds (Holds : τ → DynamicData → Prop) (types : SortedMap String τ) (row : Row) : Prop :=
  ∀ name v, row.value name = some v → ∃ t, types.get? name = some t ∧ Holds t v

variable {types : SortedMap String τ} {row : Row}

theorem Lawful.valueAt {columns : List String}
    (hcolumns : ∀ column ∈ columns, IsIdentifier column) (hrow : RowHolds Holds types row)
    {path : String} (hpath : PathFits types columns path) {source : τ}
    (hsource : sourceType types path = some source) (hv : valueAt (.aggregate row) path = some v) :
    Holds source v := by
  obtain ⟨t, ht, hsource⟩ := Option.bind_eq_some_iff.mp hsource
  have hfirst : ∀ w, row.value (firstSegment path) = some w → Holds t w := by
    intro w hw
    obtain ⟨t', ht', hholds⟩ := hrow _ _ hw
    rw [ht] at ht'
    cases ht'
    exact hholds
  rw [MultiTopic.valueAt] at hv
  rcases segments_cases path with ⟨hnone, hseg⟩ | ⟨rest, hrest, hseg⟩
  · rw [hseg, valueBelow, List.foldlM_cons, Option.bind_eq_bind, Option.bind_eq_some_iff] at hv
    obtain ⟨w, hw, hv⟩ := hv
    rw [hnone] at hsource
    rw [← Option.some.inj hsource, ← Option.some.inj hv]
    exact hfirst w hw
  · rw [hseg, valueBelow, List.foldlM_cons, Option.bind_eq_bind, Option.bind_eq_some_iff] at hv
    obtain ⟨w, hw, hv⟩ := hv
    -- The path has a dot, so it is not a column; what is behind the dot is not empty,
    -- for no member has the empty name.
    have hsome : (typeAt t rest).isSome := by
      rcases hpath with hcolumn | ⟨t', ht', hnested⟩
      · have hdot := (segments_of_no_dot (hcolumns path hcolumn).2).2
        rw [hrest] at hdot
        cases hdot
      · rw [ht] at ht'
        cases ht'
        exact hnested rest hrest
    obtain ⟨source', hsource'⟩ := Option.isSome_iff_exists.mp hsome
    obtain ⟨r, hr, hbelow⟩ := Option.bind_eq_some_iff.mp hsource'
    have hne : rest.isEmpty = false := by
      rw [Bool.eq_false_iff, ne_eq, String.isEmpty_iff]
      rintro rfl
      rw [show segments "" = [""] from rfl, typeBelow, List.foldlM_cons, Option.bind_eq_bind,
        Option.bind_eq_some_iff] at hbelow
      obtain ⟨t', ht', -⟩ := hbelow
      obtain ⟨r', -, ht'⟩ := Option.bind_eq_some_iff.mp ht'
      obtain ⟨m, hm, -⟩ := Option.bind_eq_some_iff.mp ht'
      exact (law.name_of_find hm).1 rfl
    rw [hrest, Option.filter_some, hne] at hsource
    rw [toOption_eq_some] at hr
    have hsame : source' = source := by
      simpa [hsource'] using hsource
    exact hsame ▸ law.below hbelow hv (law.unaliased hr (hfirst w hw))

theorem Lawful.fromDynamicData_selected {result : SerializedTypeSupport τ}
    {plan : MultiTopicPlan τ Expr} {resultType : τ}
    (hplan : Accepted topics result plan types resultType) (hresult : Accepts Holds result)
    {fields : Row} (hrow : RowHolds Holds types row) (hfields : selected plan row = some fields) :
    ∃ sample, plan.result.fromDynamicData (.aggregate fields) = .ok sample := by
  have hcolumns : ∀ column ∈ plan.columns, IsIdentifier column := by
    intro column hcolumn
    obtain ⟨m, hm, rfl⟩ := (hplan.columns.names column).mp hcolumn
    obtain ⟨topic, -, hm⟩ := List.mem_flatMap.mp hm
    unfold topicMembers at hm
    split at hm
    · exact law.identifier_of_mem hm
    · cases hm
  rw [hplan.support]
  refine hresult _ _ fields hplan.read (fun e he => ?_) (fun m hm hoptional => ?_)
  · obtain ⟨o, ho, heq⟩ := mem_of_mapM_eq_some hfields he
    obtain ⟨v, hv, rfl⟩ := Option.map_eq_some_iff.mp heq
    obtain ⟨⟨m, source, target, hm, hsource, htarget, hequal⟩, hpath⟩ := hplan.outputs o ho
    exact ⟨m, target, hm, htarget,
      (law.equal hequal).mp (law.valueAt hcolumns hrow hpath hsource hv)⟩
  · obtain ⟨o, ho, hname⟩ := hplan.filled m hm hoptional
    obtain ⟨e, he, heq⟩ := exists_mem_of_mapM_eq_some hfields ho
    obtain ⟨v, -, rfl⟩ := Option.map_eq_some_iff.mp heq
    exact List.mem_map.mpr ⟨_, he, hname⟩

end Typed

end ZeroDds.MultiTopic
