/-
Atomicity of the durable commit across crashes.
-/
import Mathlib.Data.List.Induction
import ZeroDds.Transactions.Durable

namespace ZeroDds.Transactions

/-! ### One transaction -/

abbrev View := Option LogState × List Call

def Action.otid : Action → Otid
  | record otid _ => otid
  | call otid _ => otid

def View.apply (v : View) : Action → View
  | .record _ state => (some state, v.2)
  | .call _ c => (v.1, v.2 ++ [c])

namespace World

def callsOf (w : World) (otid : Otid) : List Call :=
  (w.calls.filter fun e => e.1 = otid).map Prod.snd

def view (w : World) (otid : Otid) : View := (w.log.get otid, w.callsOf otid)

theorem get_record_self (w : World) (otid : Otid) (state : LogState) :
    (w.log.record otid state).get otid = some state := by
  rw [InMemoryLog.get, InMemoryLog.record, SortedMap.get?_insert_self]
  rfl

variable {otid : Otid}

theorem get_record_of_ne {w : World} {otid' : Otid} (h : key otid ≠ key otid') (state : LogState) :
    (w.log.record otid' state).get otid = w.log.get otid := by
  rw [InMemoryLog.get, InMemoryLog.record, SortedMap.get?_insert, if_neg h]
  rfl

theorem view_apply_self (w : World) (a : Action) :
    (w.apply a).view a.otid = (w.view a.otid).apply a := by
  cases a with
  | record otid state =>
    exact congrArg (·, w.callsOf otid) (get_record_self w otid state)
  | call otid c =>
    have hcalls : (w.apply (.call otid c)).callsOf otid = w.callsOf otid ++ [c] := by
      show ((w.calls ++ [(otid, c)]).filter fun e => e.1 = otid).map Prod.snd = _
      rw [List.filter_append, List.map_append, callsOf]
      simp
    exact congrArg (w.log.get otid, ·) hcalls

theorem view_apply_of_ne {w : World} {a : Action} (h : key a.otid ≠ key otid) :
    (w.apply a).view otid = w.view otid := by
  cases a with
  | record otid' state =>
    exact congrArg (·, w.callsOf otid) (get_record_of_ne (Ne.symm h) state)
  | call otid' c =>
    have hne : otid' ≠ otid := fun heq => h (congrArg key heq)
    have hcalls : (w.apply (.call otid' c)).callsOf otid = w.callsOf otid := by
      show ((w.calls ++ [(otid', c)]).filter fun e => e.1 = otid).map Prod.snd = _
      rw [List.filter_append, List.map_append, callsOf]
      simp [hne]
    exact congrArg (w.log.get otid, ·) hcalls

theorem view_foldl {as : List Action} (h : ∀ a ∈ as, key a.otid = key otid → a.otid = otid)
    (w : World) :
    (as.foldl apply w).view otid =
      (as.filter fun a => a.otid = otid).foldl View.apply (w.view otid) := by
  induction as generalizing w with
  | nil => rfl
  | cons a as ih =>
    rw [List.foldl_cons, ih fun b hb => h b (List.mem_cons_of_mem a hb)]
    by_cases ha : a.otid = otid
    · subst ha
      rw [List.filter_cons_of_pos (by simp), List.foldl_cons, view_apply_self]
    · have hkey : key a.otid ≠ key otid := fun hk => ha (h a List.mem_cons_self hk)
      rw [List.filter_cons_of_neg (by simpa using ha), view_apply_of_ne hkey]

end World

theorem foldl_calls (otid : Otid) (cs : List Call) (v : View) :
    (cs.map (Action.call otid)).foldl View.apply v = (v.1, v.2 ++ cs) := by
  induction cs generalizing v with
  | nil => simp
  | cons c cs ih =>
    rw [List.map_cons, List.foldl_cons, ih]
    simp [View.apply]

/-! ### The actions of the programs -/

structure Faithful (r : Resource) : Prop where
  commit : r.commit = .ok ()
  rollback : r.rollback = .ok ()
  onePhase : r.commitOnePhase = .ok () ∨ r.commitOnePhase = .error .rollback

def prepared (resources : List Resource) : List Resource :=
  resources.filter fun r => r.prepare = .commit

def phaseTwoCalls (resources : List Resource) : List Call :=
  (prepared resources).map (resyncCall (outcomeOf (resources.map Resource.prepare)))

def votingActions (otid : Otid) (resources : List Resource) : List Action :=
  (resources.map Call.prepare).map (Action.call otid)

def coordinatorActions (otid : Otid) : List Resource → List Action
  | [] => [.record otid .preparing, .record otid (.completed .commit)]
  | [r] => [.record otid .preparing, .record otid (.decided .commit),
      .call otid (.commitOnePhase r),
      .record otid (.completed (onePhaseOutcome r.commitOnePhase).2)]
  | r :: r' :: rest =>
    let resources := r :: r' :: rest
    let outcome := outcomeOf (resources.map Resource.prepare)
    .record otid .preparing :: (votingActions otid resources ++ .record otid (.decided outcome) ::
      ((phaseTwoCalls resources).map (Action.call otid) ++ [.record otid (.completed outcome)]))

def recoveryActions (resourcesFor : Otid → List Resource) (pending : List (Otid × TxOutcome)) :
    List Action :=
  pending.flatMap fun p => ((resourcesFor p.1).map (resyncCall p.2)).map (Action.call p.1) ++
    [.record p.1 (.completed p.2)]

open Process

theorem does_record (otid : Otid) (state : LogState) :
    Does World.apply (record otid state) [.record otid state] () := .perform _

theorem does_call (otid : Otid) (c : Call) : Does World.apply (call otid c) [.call otid c] () :=
  .perform _

variable {r : Resource} {resources : List Resource} {otid : Otid} {outcome : TxOutcome}

theorem does_commitPrepared (otid : Otid) (h : Faithful r) :
    Does World.apply (commitPrepared otid false (r, r.prepare))
      (if r.prepare = .commit then [.call otid (.commit r)] else []) false := by
  unfold commitPrepared
  by_cases hv : r.prepare = .commit
  · rw [if_pos hv, if_pos hv, h.commit]
    exact (does_call otid _).bind (.pure false)
  · rw [if_neg hv, if_neg hv]
    exact .pure false

theorem flatMap_prepared (otid : Otid) (resources : List Resource) (f : Resource → Call) :
    (resources.zip (resources.map Resource.prepare)).flatMap
        (fun rv => if rv.2 = .commit then [Action.call otid (f rv.1)] else []) =
      ((prepared resources).map f).map (Action.call otid) := by
  induction resources with
  | nil => rfl
  | cons r rest ih =>
    rw [List.map_cons, List.zip_cons_cons, List.flatMap_cons, ih]
    by_cases hv : r.prepare = .commit
    · simp [prepared, hv]
    · simp [prepared, hv]

theorem mem_zip_prepare {rv : Resource × Vote}
    (h : rv ∈ resources.zip (resources.map Resource.prepare)) :
    rv.1 ∈ resources ∧ rv.2 = rv.1.prepare := by
  induction resources with
  | nil => cases h
  | cons r rest ih =>
    rcases List.mem_cons.mp h with rfl | h
    · exact ⟨List.mem_cons_self, rfl⟩
    · exact ⟨List.mem_cons_of_mem r (ih h).1, (ih h).2⟩

theorem does_executePhaseTwo (otid : Otid) (h : ∀ r ∈ resources, Faithful r) (outcome : TxOutcome) :
    ∃ completion, Does World.apply
      (executePhaseTwo otid resources (resources.map Resource.prepare) outcome)
      (((prepared resources).map (resyncCall outcome)).map (Action.call otid)) completion := by
  rw [← flatMap_prepared]
  cases outcome with
  | rollback =>
    refine ⟨.rolledBack, ?_⟩
    have hloop : Does World.apply
        ((resources.zip (resources.map Resource.prepare)).forM fun rv =>
          if rv.2 = .commit then call otid (.rollback rv.1) else pure ())
        ((resources.zip (resources.map Resource.prepare)).flatMap fun rv =>
          if rv.2 = .commit then [.call otid (.rollback rv.1)] else []) () := by
      refine Does.forM fun rv _ => ?_
      by_cases hv : rv.2 = .commit
      · rw [if_pos hv, if_pos hv]
        exact does_call otid _
      · rw [if_neg hv, if_neg hv]
        exact .pure ()
    have hall := hloop.bind (f := fun _ => pure Completion.rolledBack) (Does.pure _)
    rwa [List.append_nil] at hall
  | commit =>
    refine ⟨.committed, ?_⟩
    have hloop : Does World.apply
        ((resources.zip (resources.map Resource.prepare)).foldlM (commitPrepared otid) false)
        ((resources.zip (resources.map Resource.prepare)).flatMap fun rv =>
          if rv.2 = .commit then [.call otid (.commit rv.1)] else []) false := by
      refine Does.foldlM fun rv hrv => ?_
      obtain ⟨r, v⟩ := rv
      obtain ⟨hmem, hv⟩ := mem_zip_prepare hrv
      dsimp only at hmem hv ⊢
      rw [hv]
      exact does_commitPrepared otid (h r hmem)
    have hall := hloop.bind (f := fun heuristic : Bool =>
      pure (if heuristic then Completion.heuristicMixed else .committed)) (Does.pure _)
    rwa [List.append_nil] at hall

theorem does_voting (otid : Otid) (resources : List Resource) :
    Does World.apply (resources.mapM fun r => do call otid (.prepare r); return r.prepare)
      (votingActions otid resources) (resources.map Resource.prepare) := by
  rw [votingActions, List.map_map, List.map_eq_flatMap]
  exact Does.mapM fun r _ => (does_call otid _).bind (.pure _)

theorem does_coordinateCommitDurable (otid : Otid) (h : ∀ r ∈ resources, Faithful r) :
    ∃ completion, Does World.apply (coordinateCommitDurable otid resources)
      (coordinatorActions otid resources) completion := by
  cases resources with
  | nil =>
    exact ⟨_, (does_record otid _).bind ((does_record otid _).bind (.pure _))⟩
  | cons r rest =>
    cases rest with
    | nil =>
      exact ⟨_, (does_record otid _).bind ((does_record otid _).bind ((does_call otid _).bind
        ((does_record otid _).bind (.pure _))))⟩
    | cons r' rest =>
      obtain ⟨completion, hphase⟩ := does_executePhaseTwo otid h
        (outcomeOf ((r :: r' :: rest).map Resource.prepare))
      have hend := (does_record otid (.completed (outcomeOf
        ((r :: r' :: rest).map Resource.prepare)))).bind (f := fun _ => pure completion) (.pure _)
      exact ⟨completion, (does_record otid _).bind ((does_voting otid _).bind
        ((does_record otid _).bind (hphase.bind hend)))⟩

theorem does_resync (otid : Otid) (resources : List Resource) (outcome : TxOutcome) :
    Does World.apply (resources.forM fun r => call otid (resyncCall outcome r))
      ((resources.map (resyncCall outcome)).map (Action.call otid)) () := by
  rw [List.map_map, List.map_eq_flatMap]
  exact Does.forM fun r _ => does_call otid _

variable (resourcesFor : Otid → List Resource)

theorem attempt_recover (m : Nat) (w : World) :
    (recover resourcesFor).attempt m w =
      (if (recoveryActions resourcesFor w.log.inDoubt).length ≤ m then some w.log.inDoubt else none,
        ((recoveryActions resourcesFor w.log.inDoubt).take m).foldl World.apply w) := by
  have hbody : Does World.apply (do
      w.log.inDoubt.forM fun p => do
        (resourcesFor p.1).forM fun r => call p.1 (resyncCall p.2 r)
        record p.1 (.completed p.2)
      return w.log.inDoubt) (recoveryActions resourcesFor w.log.inDoubt) w.log.inDoubt := by
    have hloop : Does World.apply (w.log.inDoubt.forM fun p => do
        (resourcesFor p.1).forM fun r => call p.1 (resyncCall p.2 r)
        record p.1 (.completed p.2)) (recoveryActions resourcesFor w.log.inDoubt) () :=
      Does.forM fun p _ => (does_resync p.1 _ p.2).bind (does_record p.1 _)
    have hall := hloop.bind (f := fun _ => pure w.log.inDoubt) (Does.pure _)
    rwa [List.append_nil] at hall
  exact hbody.attempt m w

/-! ### What a recovery does to one transaction -/

theorem InMemoryLog.mem_inDoubt {log : InMemoryLog} :
    (otid, outcome) ∈ log.inDoubt ↔
      log.records.get? (key otid) = some (otid, .decided outcome) := by
  rw [inDoubt, List.mem_filterMap]
  constructor
  · rintro ⟨⟨otid', state⟩, hmem, hmap⟩
    obtain ⟨o, ho, heq⟩ := Option.map_eq_some_iff.mp hmap
    cases heq
    obtain ⟨k, hk⟩ := SortedMap.mem_values.mp hmem
    have hstate : state = .decided outcome := by
      cases state with
      | decided o' => exact congrArg LogState.decided (Option.some.inj ho)
      | preparing => cases ho
      | completed o' => cases ho
    rw [log.keyed k _ hk, hk, hstate]
  · intro h
    exact ⟨_, SortedMap.mem_values.mpr ⟨_, h⟩, rfl⟩

theorem InMemoryLog.nodup_inDoubt (log : InMemoryLog) : (log.inDoubt.map Prod.fst).Nodup := by
  have hkeys : log.records.values.map (fun e => key e.1) = log.records.keys := by
    rw [SortedMap.values, SortedMap.keys, List.map_map]
    refine List.map_congr_left fun e he => ?_
    exact log.keyed e.1 e.2 (SortedMap.get?_eq_some.mpr he)
  have hnodup : log.records.values.Pairwise fun a b => key a.1 ≠ key b.1 :=
    List.pairwise_map.mp (hkeys ▸ log.records.keys_nodup)
  rw [List.Nodup, List.pairwise_map, inDoubt, List.pairwise_filterMap]
  refine hnodup.imp fun {a b} hne x hx y hy heq => hne ?_
  obtain ⟨_, -, rfl⟩ := Option.map_eq_some_iff.mp hx
  obtain ⟨_, -, rfl⟩ := Option.map_eq_some_iff.mp hy
  exact congrArg key heq

theorem flatMap_of_nodup {α β γ : Type} {l : List (α × β)} (hnodup : (l.map Prod.fst).Nodup)
    {x : α} {f : α × β → List γ} (hf : ∀ e, e.1 ≠ x → f e = []) :
    (∀ b, (x, b) ∈ l → l.flatMap f = f (x, b)) ∧ ((∀ b, (x, b) ∉ l) → l.flatMap f = []) := by
  induction l with
  | nil => exact ⟨fun b hb => absurd hb List.not_mem_nil, fun _ => rfl⟩
  | cons e l ih =>
    rw [List.map_cons, List.nodup_cons] at hnodup
    obtain ⟨ihmem, ihnot⟩ := ih hnodup.2
    rw [List.flatMap_cons]
    by_cases he : e.1 = x
    · subst he
      have hrest : l.flatMap f = [] := ihnot fun b hb =>
        hnodup.1 (List.mem_map.mpr ⟨_, hb, rfl⟩)
      rw [hrest, List.append_nil]
      refine ⟨fun b hb => ?_, fun h => absurd List.mem_cons_self (h e.2)⟩
      rcases List.mem_cons.mp hb with heq | hb
      · rw [heq]
      · exact absurd (List.mem_map.mpr ⟨_, hb, rfl⟩) hnodup.1
    · rw [hf e he, List.nil_append]
      refine ⟨fun b hb => ?_, fun h => ihnot fun b hb => h b (List.mem_cons_of_mem e hb)⟩
      rcases List.mem_cons.mp hb with rfl | hb
      · exact absurd rfl he
      · exact ihmem b hb

def ownRecovery (resourcesFor : Otid → List Resource) (otid : Otid) : Option LogState → List Action
  | some (.decided outcome) =>
    ((resourcesFor otid).map (resyncCall outcome)).map (Action.call otid) ++
      [.record otid (.completed outcome)]
  | _ => []

def Own (w : World) (otid : Otid) : Prop :=
  ∀ e, w.log.records.get? (key otid) = some e → e.1 = otid

theorem filter_ownActions (otid otid' : Otid) (cs : List Call) (state : LogState) :
    (cs.map (Action.call otid') ++ [Action.record otid' state]).filter (fun a => a.otid = otid) =
      if otid' = otid then cs.map (Action.call otid') ++ [.record otid' state] else [] := by
  by_cases h : otid' = otid
  · rw [if_pos h, List.filter_eq_self]
    intro a ha
    rcases List.mem_append.mp ha with ha | ha
    · obtain ⟨c, -, rfl⟩ := List.mem_map.mp ha
      exact decide_eq_true h
    · rw [List.mem_singleton.mp ha]
      exact decide_eq_true h
  · rw [if_neg h, List.filter_eq_nil_iff]
    intro a ha
    rcases List.mem_append.mp ha with ha | ha
    · obtain ⟨c, -, rfl⟩ := List.mem_map.mp ha
      exact Bool.eq_false_iff.mp (decide_eq_false h)
    · rw [List.mem_singleton.mp ha]
      exact Bool.eq_false_iff.mp (decide_eq_false h)

variable {w : World}

theorem filter_recoveryActions (hown : Own w otid) :
    (recoveryActions resourcesFor w.log.inDoubt).filter (fun a => a.otid = otid) =
      ownRecovery resourcesFor otid (w.log.get otid) := by
  rw [recoveryActions, List.filter_flatMap]
  simp only [filter_ownActions]
  obtain ⟨hmem, hnot⟩ := flatMap_of_nodup (x := otid) w.log.nodup_inDoubt
    (f := fun p => if p.1 = otid then
      ((resourcesFor p.1).map (resyncCall p.2)).map (Action.call p.1) ++
        [.record p.1 (.completed p.2)] else []) (fun e he => if_neg he)
  by_cases hdoubt : ∃ outcome, (otid, outcome) ∈ w.log.inDoubt
  · obtain ⟨outcome, ho⟩ := hdoubt
    rw [hmem outcome ho, InMemoryLog.get, InMemoryLog.mem_inDoubt.mp ho, if_pos rfl]
    rfl
  · rw [hnot fun outcome ho => hdoubt ⟨outcome, ho⟩]
    unfold ownRecovery
    split
    · next outcome hstate =>
      obtain ⟨⟨otid', state⟩, he, rfl⟩ := Option.map_eq_some_iff.mp hstate
      have := hown _ he
      subst this
      exact absurd ⟨outcome, InMemoryLog.mem_inDoubt.mpr he⟩ hdoubt
    · rfl

theorem own_apply (hown : Own w otid) {a : Action} (ha : key a.otid = key otid → a.otid = otid) :
    Own (w.apply a) otid := by
  cases a with
  | record otid' state =>
    intro e he
    replace he : (w.log.records.insert (key otid') (otid', state)).get? (key otid) = some e := he
    rw [SortedMap.get?_insert] at he
    split at he
    · next hk =>
      obtain rfl := Option.some.inj he
      exact ha hk.symm
    · exact hown e he
  | call otid' c => exact hown

theorem own_foldl {as : List Action} (has : ∀ a ∈ as, key a.otid = key otid → a.otid = otid)
    (hown : Own w otid) : Own (as.foldl World.apply w) otid := by
  induction as generalizing w with
  | nil => exact hown
  | cons a as ih =>
    exact ih (fun b hb => has b (List.mem_cons_of_mem a hb))
      (own_apply hown (has a List.mem_cons_self))

theorem recoveryActions_own (hown : Own w otid) :
    ∀ a ∈ recoveryActions resourcesFor w.log.inDoubt,
      key a.otid = key otid → a.otid = otid := by
  intro a ha hk
  obtain ⟨⟨otid', outcome⟩, hp, ha⟩ := List.mem_flatMap.mp ha
  have hotid : a.otid = otid' := by
    rcases List.mem_append.mp ha with ha | ha
    · obtain ⟨c, -, rfl⟩ := List.mem_map.mp ha
      rfl
    · rw [List.mem_singleton.mp ha]
      rfl
  rw [hotid] at hk ⊢
  have hrec := InMemoryLog.mem_inDoubt.mp hp
  rw [hk] at hrec
  exact hown _ hrec

theorem recover_view (hown : Own w otid) (m : Nat) :
    Own ((recover resourcesFor).attempt m w).2 otid ∧
    ∃ as, as <+: ownRecovery resourcesFor otid (w.log.get otid) ∧
      ((recover resourcesFor).attempt m w).2.view otid = as.foldl View.apply (w.view otid) ∧
      (((recover resourcesFor).attempt m w).1.isSome = true →
        as = ownRecovery resourcesFor otid (w.log.get otid)) := by
  rw [attempt_recover]
  have hall := recoveryActions_own resourcesFor hown
  have htake : ∀ a ∈ (recoveryActions resourcesFor w.log.inDoubt).take m,
      key a.otid = key otid → a.otid = otid := fun a ha => hall a (List.mem_of_mem_take ha)
  refine ⟨own_foldl htake hown, _, ?_, World.view_foldl htake w, ?_⟩
  · rw [← filter_recoveryActions resourcesFor hown]
    exact (List.take_prefix _ _).filter _
  · intro hsome
    rw [← filter_recoveryActions resourcesFor hown]
    by_cases hm : (recoveryActions resourcesFor w.log.inDoubt).length ≤ m
    · rw [List.take_of_length_le hm]
    · rw [if_neg hm] at hsome
      cases hsome

/-! ### What the resources did -/

def Committed (calls : List Call) (r : Resource) : Prop :=
  .commit r ∈ calls ∨ .commitOnePhase r ∈ calls ∧ r.commitOnePhase = .ok ()

def RolledBack (calls : List Call) (r : Resource) : Prop :=
  .rollback r ∈ calls ∨ .commitOnePhase r ∈ calls ∧ r.commitOnePhase = .error .rollback

def Voted (calls : List Call) (r : Resource) (vote : Vote) : Prop :=
  .prepare r ∈ calls ∧ r.prepare = vote

/-- No resource is committed where one is rolled back or vetoed, and only those that
voted to commit are told to. -/
structure Agreed (calls : List Call) : Prop where
  alike : ∀ r r', Committed calls r → ¬ (RolledBack calls r' ∨ Voted calls r' .rollback)
  voted : ∀ before r after, calls = before ++ .commit r :: after → Voted before r .commit

def Names (resources : List Resource) (calls : List Call) : TxOutcome → Prop
  | .commit => (∀ r, ¬ (RolledBack calls r ∨ Voted calls r .rollback)) ∧
      ∀ r ∈ resources, Committed calls r ∨ Voted calls r .readOnly
  | .rollback => ∀ r, ¬ Committed calls r

def Sound (resources : List Resource) (calls : List Call) : Option LogState → Prop
  | some (.decided .commit) => (∀ r ∈ resources, r.prepare = .commit) ∧
      ∃ rest, calls = resources.map Call.prepare ++ rest ∧
        ∀ c ∈ rest, ∃ r ∈ resources, c = .commit r
  | some (.decided .rollback) => ∀ r, ¬ Committed calls r
  | some (.completed .commit) => Agreed calls ∧ Names resources calls .commit
  | some (.completed .rollback) => ∀ r, ¬ Committed calls r
  | _ => ∀ c ∈ calls, ∃ r, c = .prepare r

variable {calls : List Call}

theorem agreed_of_not_committed (h : ∀ r, ¬ Committed calls r) :
    Agreed calls where
  alike r _ hr := absurd hr (h r)
  voted before r after heq := by
    refine absurd (.inl ?_) (h r)
    rw [heq]
    exact List.mem_append_right _ List.mem_cons_self

theorem not_committed_of_prepares (h : ∀ c ∈ calls, ∃ r, c = .prepare r) :
    ∀ r, ¬ Committed calls r := by
  rintro r (hc | ⟨hc, -⟩)
  · obtain ⟨_, heq⟩ := h _ hc
    cases heq
  · obtain ⟨_, heq⟩ := h _ hc
    cases heq

/-- The calls of the voting, and after it commits of resources that voted to commit. -/
structure CommitPhase (resources : List Resource) (calls : List Call) : Prop where
  noVeto : ∀ r ∈ resources, r.prepare ≠ .rollback
  calls : ∃ rest, calls = resources.map Call.prepare ++ rest ∧
    ∀ c ∈ rest, ∃ r ∈ resources, r.prepare = .commit ∧ c = .commit r

theorem CommitPhase.not_undone (h : CommitPhase resources calls) (r : Resource) :
    ¬ (RolledBack calls r ∨ Voted calls r .rollback) := by
  obtain ⟨rest, rfl, hrest⟩ := h.calls
  have hkind : ∀ c ∈ resources.map Call.prepare ++ rest,
      (∃ q ∈ resources, c = .prepare q) ∨ ∃ q, c = .commit q := by
    intro c hc
    rcases List.mem_append.mp hc with hc | hc
    · obtain ⟨q, hq, rfl⟩ := List.mem_map.mp hc
      exact .inl ⟨q, hq, rfl⟩
    · obtain ⟨q, -, -, rfl⟩ := hrest c hc
      exact .inr ⟨q, rfl⟩
  rintro ((hc | ⟨hc, -⟩) | ⟨hc, hv⟩)
  · rcases hkind _ hc with ⟨q, -, heq⟩ | ⟨q, heq⟩ <;> cases heq
  · rcases hkind _ hc with ⟨q, -, heq⟩ | ⟨q, heq⟩ <;> cases heq
  · rcases hkind _ hc with ⟨q, hq, heq⟩ | ⟨q, heq⟩
    · cases heq
      exact h.noVeto r hq hv
    · cases heq

theorem CommitPhase.agreed (h : CommitPhase resources calls) : Agreed calls where
  alike _ r' _ := h.not_undone r'
  voted before r after heq := by
    obtain ⟨rest, hcalls, hrest⟩ := h.calls
    -- A commit is behind the whole voting.
    rw [hcalls] at heq
    rcases List.append_eq_append_iff.mp heq with ⟨mid, hbefore, htail⟩ | ⟨mid, hvotes, htail⟩
    · obtain ⟨q, hq, hv, hqr⟩ := hrest (.commit r) (by
        rw [htail]
        exact List.mem_append_right _ List.mem_cons_self)
      cases hqr
      refine ⟨?_, hv⟩
      rw [hbefore]
      exact List.mem_append_left _ (List.mem_map.mpr ⟨r, hq, rfl⟩)
    · cases mid with
      | nil =>
        rw [List.append_nil] at hvotes
        obtain ⟨q, hq, hv, hqr⟩ := hrest (.commit r) (by
          rw [← List.nil_append rest, ← htail]
          exact List.mem_cons_self)
        cases hqr
        refine ⟨?_, hv⟩
        rw [← hvotes]
        exact List.mem_map.mpr ⟨r, hq, rfl⟩
      | cons c mid =>
        rw [List.cons_append, List.cons.injEq] at htail
        have hmem : Call.commit r ∈ resources.map Call.prepare := by
          rw [hvotes, htail.1]
          exact List.mem_append_right _ List.mem_cons_self
        obtain ⟨q, -, hq⟩ := List.mem_map.mp hmem
        cases hq

theorem commitPhase_of_decided (h : Sound resources calls (some (.decided .commit))) :
    CommitPhase resources calls := by
  obtain ⟨hvotes, rest, hcalls, hrest⟩ := h
  refine ⟨fun r hr => by rw [hvotes r hr]; decide, rest, hcalls, fun c hc => ?_⟩
  obtain ⟨r, hr, rfl⟩ := hrest c hc
  exact ⟨r, hr, hvotes r hr, rfl⟩

theorem Sound.agreed {state : Option LogState} (h : Sound resources calls state) :
    Agreed calls := by
  cases state with
  | none => exact agreed_of_not_committed (not_committed_of_prepares h)
  | some state =>
    cases state with
    | preparing => exact agreed_of_not_committed (not_committed_of_prepares h)
    | decided outcome =>
      cases outcome with
      | commit => exact (commitPhase_of_decided h).agreed
      | rollback => exact agreed_of_not_committed h
    | completed outcome =>
      cases outcome with
      | commit => exact h.1
      | rollback => exact agreed_of_not_committed h

def outcomeIn : Option LogState → TxOutcome
  | some (.decided outcome) => outcome
  | some (.completed outcome) => outcome
  | _ => .rollback

theorem Sound.names {state : Option LogState} (h : Sound resources calls state)
    (hdone : ∀ outcome, state ≠ some (.decided outcome)) :
    Names resources calls (outcomeIn state) := by
  cases state with
  | none => exact not_committed_of_prepares h
  | some state =>
    cases state with
    | preparing => exact not_committed_of_prepares h
    | decided outcome => exact absurd rfl (hdone outcome)
    | completed outcome =>
      cases outcome with
      | commit => exact h.2
      | rollback => exact h

theorem Sound.carryOut (h : Sound resources calls (some (.decided outcome))) {rs : List Resource}
    (hrs : ∀ r ∈ rs, r ∈ resources) :
    Sound resources (calls ++ rs.map (resyncCall outcome)) (some (.decided outcome)) := by
  cases outcome with
  | commit =>
    obtain ⟨hvotes, rest, rfl, hrest⟩ := h
    refine ⟨hvotes, rest ++ rs.map Call.commit, (List.append_assoc ..), fun c hc => ?_⟩
    rcases List.mem_append.mp hc with hc | hc
    · exact hrest c hc
    · obtain ⟨r, hr, rfl⟩ := List.mem_map.mp hc
      exact ⟨r, hrs r hr, rfl⟩
  | rollback =>
    rintro r (hc | ⟨hc, hone⟩)
    · rcases List.mem_append.mp hc with hc | hc
      · exact h r (.inl hc)
      · obtain ⟨_, -, heq⟩ := List.mem_map.mp hc
        cases heq
    · rcases List.mem_append.mp hc with hc | hc
      · exact h r (.inr ⟨hc, hone⟩)
      · obtain ⟨_, -, heq⟩ := List.mem_map.mp hc
        cases heq

theorem Sound.complete (h : Sound resources calls (some (.decided outcome)))
    (hall : outcome = .commit → ∀ r ∈ resources, .commit r ∈ calls) :
    Sound resources calls (some (.completed outcome)) := by
  cases outcome with
  | commit =>
    have hphase := commitPhase_of_decided h
    exact ⟨hphase.agreed, hphase.not_undone, fun r hr => .inl (.inl (hall rfl r hr))⟩
  | rollback => exact h

theorem Sound.recovery {resourcesFor : Otid → List Resource}
    (hrf : ∀ r, r ∈ resourcesFor otid ↔ r ∈ resources) {v : View} (h : Sound resources v.2 v.1)
    {as : List Action} (has : as <+: ownRecovery resourcesFor otid v.1) :
    Sound resources (as.foldl View.apply v).2 (as.foldl View.apply v).1 := by
  obtain ⟨state, calls⟩ := v
  unfold ownRecovery at has
  split at has
  · next outcome heq =>
    subst heq
    rcases List.prefix_concat_iff.mp has with rfl | has
    · rw [List.foldl_append, foldl_calls]
      exact (h.carryOut fun r hr => (hrf r).mp hr).complete fun hcommit r hr => by
        subst hcommit
        exact List.mem_append_right _ (List.mem_map.mpr ⟨r, (hrf r).mpr hr, rfl⟩)
    · obtain ⟨cs, hcs, rfl⟩ := List.prefix_map_iff.mp has
      obtain ⟨rs, hrs, rfl⟩ := List.prefix_map_iff.mp hcs
      rw [foldl_calls]
      exact h.carryOut fun r hr => (hrf r).mp (hrs.subset hr)
  · rw [List.prefix_nil.mp has]
    exact h

theorem foldl_ownRecovery (otid : Otid) (v : View) :
    ∀ outcome, ((ownRecovery resourcesFor otid v.1).foldl View.apply v).1 ≠
      some (.decided outcome) := by
  intro outcome
  unfold ownRecovery
  split
  · rw [List.foldl_append]
    intro h
    cases h
  · next hother => exact hother outcome

/-! ### What the coordinator did -/

theorem coordinator_view (otid : Otid) (resources : List Resource) {r' : Resource}
    {rest : List Resource} (hres : resources = r :: r' :: rest) (n : Nat) :
    ((coordinatorActions otid resources).take n).foldl View.apply (none, []) =
      if n = 0 then (none, [])
      else if n ≤ resources.length + 1 then
        (some .preparing, (resources.map Call.prepare).take (n - 1))
      else if n < resources.length + 3 + (prepared resources).length then
        (some (.decided (outcomeOf (resources.map Resource.prepare))),
          resources.map Call.prepare ++ (phaseTwoCalls resources).take (n - resources.length - 2))
      else
        (some (.completed (outcomeOf (resources.map Resource.prepare))),
          resources.map Call.prepare ++ phaseTwoCalls resources) := by
  have hacts : coordinatorActions otid resources =
      .record otid .preparing :: (votingActions otid resources ++
        .record otid (.decided (outcomeOf (resources.map Resource.prepare))) ::
          ((phaseTwoCalls resources).map (Action.call otid) ++
            [.record otid (.completed (outcomeOf (resources.map Resource.prepare)))])) := by
    rw [hres]
    rfl
  have hvotes : (votingActions otid resources).length = resources.length := by
    rw [votingActions, List.length_map, List.length_map]
  have hphase : ((phaseTwoCalls resources).map (Action.call otid)).length =
      (prepared resources).length := by
    rw [List.length_map, phaseTwoCalls, List.length_map]
  rw [hacts]
  by_cases h0 : n = 0
  · subst h0
    rfl
  · obtain ⟨m, rfl⟩ := Nat.exists_eq_succ_of_ne_zero h0
    rw [if_neg h0, List.take_succ_cons, List.foldl_cons]
    by_cases h1 : m + 1 ≤ resources.length + 1
    · rw [if_pos h1, List.take_append_of_le_length (by omega), votingActions, ← List.map_take,
        foldl_calls]
      rfl
    · rw [if_neg h1, List.take_append, List.take_of_length_le (by omega), hvotes,
        List.foldl_append, votingActions, foldl_calls]
      obtain ⟨j, hj⟩ : ∃ j, m - resources.length = j + 1 := ⟨m - resources.length - 1, by omega⟩
      rw [hj, List.take_succ_cons, List.foldl_cons]
      show List.foldl View.apply (some (.decided _), [] ++ resources.map Call.prepare) _ = _
      rw [List.nil_append]
      by_cases h2 : m + 1 < resources.length + 3 + (prepared resources).length
      · rw [if_pos h2, List.take_append_of_le_length (by omega), ← List.map_take, foldl_calls]
        have : m + 1 - resources.length - 2 = j := by omega
        rw [this]
      · rw [if_neg h2, List.take_of_length_le (by rw [List.length_append, hphase]; simp; omega),
          List.foldl_append, foldl_calls]
        rfl

/-- The crash falls between the decision to commit and its completion, and the recovery
will commit a resource that did not vote for it. -/
def Caught (n : Nat) : List Resource → Prop
  | [] => False
  | [_] => 2 ≤ n ∧ n < 4
  | r :: r' :: rest =>
    let resources := r :: r' :: rest
    outcomeOf (resources.map Resource.prepare) = .commit ∧
      (∃ q ∈ resources, q.prepare = .readOnly) ∧
      resources.length + 2 ≤ n ∧ n < resources.length + 3 + (prepared resources).length

theorem outcomeOf_eq_commit {votes : List Vote} :
    outcomeOf votes = .commit ↔ .rollback ∉ votes := by
  unfold outcomeOf
  split
  · next h => exact ⟨fun hc => TxOutcome.noConfusion hc, fun hn => absurd h hn⟩
  · next h => exact ⟨fun _ => h, fun _ => rfl⟩

theorem noVeto_of_commit (h : outcomeOf (resources.map Resource.prepare) = .commit) :
    ∀ r ∈ resources, r.prepare ≠ .rollback := by
  intro r hr hv
  refine outcomeOf_eq_commit.mp h ?_
  rw [← hv]
  exact List.mem_map.mpr ⟨r, hr, rfl⟩

theorem mem_phaseTwoCalls {c : Call} :
    c ∈ phaseTwoCalls resources ↔ ∃ r ∈ resources, r.prepare = .commit ∧
      c = resyncCall (outcomeOf (resources.map Resource.prepare)) r := by
  rw [phaseTwoCalls, List.mem_map]
  constructor
  · rintro ⟨r, hr, rfl⟩
    obtain ⟨hmem, hv⟩ := List.mem_filter.mp hr
    exact ⟨r, hmem, of_decide_eq_true hv, rfl⟩
  · rintro ⟨r, hr, hv, rfl⟩
    exact ⟨r, List.mem_filter.mpr ⟨hr, decide_eq_true hv⟩, rfl⟩

variable {cs : List Call}

theorem not_committed_of_rollback (h : outcomeOf (resources.map Resource.prepare) = .rollback)
    (hcs : ∀ c ∈ cs, c ∈ phaseTwoCalls resources) :
    ∀ r, ¬ Committed (resources.map Call.prepare ++ cs) r := by
  have hkind : ∀ c ∈ resources.map Call.prepare ++ cs,
      (∃ q, c = .prepare q) ∨ ∃ q, c = .rollback q := by
    intro c hc
    rcases List.mem_append.mp hc with hc | hc
    · obtain ⟨q, -, rfl⟩ := List.mem_map.mp hc
      exact .inl ⟨q, rfl⟩
    · obtain ⟨q, -, -, rfl⟩ := mem_phaseTwoCalls.mp (hcs c hc)
      rw [h]
      exact .inr ⟨q, rfl⟩
  rintro r (hc | ⟨hc, -⟩)
  · rcases hkind _ hc with ⟨q, heq⟩ | ⟨q, heq⟩ <;> cases heq
  · rcases hkind _ hc with ⟨q, heq⟩ | ⟨q, heq⟩ <;> cases heq

theorem commitPhase_of_commit (h : outcomeOf (resources.map Resource.prepare) = .commit)
    (hcs : ∀ c ∈ cs, c ∈ phaseTwoCalls resources) :
    CommitPhase resources (resources.map Call.prepare ++ cs) := by
  refine ⟨noVeto_of_commit h, cs, rfl, fun c hc => ?_⟩
  obtain ⟨r, hr, hv, rfl⟩ := mem_phaseTwoCalls.mp (hcs c hc)
  rw [h]
  exact ⟨r, hr, hv, rfl⟩

theorem sound_onePhase (hf : Faithful r) :
    Sound [r] [.commitOnePhase r] (some (.completed (onePhaseOutcome r.commitOnePhase).2)) := by
  rcases hf.onePhase with hok | hback
  · rw [hok]
    have hundone : ∀ q,
        ¬ (RolledBack [.commitOnePhase r] q ∨ Voted [.commitOnePhase r] q .rollback) := by
      rintro q ((hc | ⟨hc, hq⟩) | ⟨hc, -⟩)
      · cases List.mem_singleton.mp hc
      · cases List.mem_singleton.mp hc
        rw [hok] at hq
        cases hq
      · cases List.mem_singleton.mp hc
    refine ⟨⟨fun _ q _ => hundone q, fun before q after heq => ?_⟩, hundone, fun q hq => ?_⟩
    · have hmem : Call.commit q ∈ [Call.commitOnePhase r] := by
        rw [heq]
        exact List.mem_append_right _ List.mem_cons_self
      cases List.mem_singleton.mp hmem
    · rw [List.mem_singleton.mp hq]
      exact .inl (.inr ⟨List.mem_cons_self, hok⟩)
  · rw [hback]
    rintro q (hc | ⟨hc, hq⟩)
    · cases List.mem_singleton.mp hc
    · cases List.mem_singleton.mp hc
      rw [hback] at hq
      cases hq

theorem sound_coordinator (otid : Otid) (hf : ∀ r ∈ resources, Faithful r) {n : Nat}
    (hn : ¬ Caught n resources) :
    Sound resources (((coordinatorActions otid resources).take n).foldl View.apply (none, [])).2
      (((coordinatorActions otid resources).take n).foldl View.apply (none, [])).1 := by
  cases resources with
  | nil =>
    have hnothing : ∀ c ∈ ([] : List Call), ∃ r, c = .prepare r :=
      fun _ hc => absurd hc List.not_mem_nil
    rcases n with _ | _ | n
    · exact hnothing
    · exact hnothing
    · rw [List.take_of_length_le (Nat.le_add_left 2 n)]
      refine ⟨agreed_of_not_committed (not_committed_of_prepares hnothing), ?_, ?_⟩
      · rintro r ((hc | ⟨hc, -⟩) | ⟨hc, -⟩) <;> exact absurd hc List.not_mem_nil
      · exact fun r hr => absurd hr List.not_mem_nil
  | cons r rest =>
    cases rest with
    | nil =>
      rcases n with _ | _ | _ | _ | n
      · exact fun _ hc => absurd hc List.not_mem_nil
      · exact fun _ hc => absurd hc List.not_mem_nil
      · exact absurd ⟨by omega, by omega⟩ hn
      · exact absurd ⟨by omega, by omega⟩ hn
      · rw [List.take_of_length_le (Nat.le_add_left 4 n)]
        exact sound_onePhase (hf r List.mem_cons_self)
    | cons r' rest =>
      obtain ⟨resources, hres⟩ : ∃ resources, resources = r :: r' :: rest := ⟨_, rfl⟩
      have hn' : ¬ (outcomeOf (resources.map Resource.prepare) = .commit ∧
          (∃ q ∈ resources, q.prepare = .readOnly) ∧ resources.length + 2 ≤ n ∧
          n < resources.length + 3 + (prepared resources).length) := by
        rw [hres]
        exact hn
      rw [← hres]
      rw [coordinator_view otid resources hres]
      by_cases h0 : n = 0
      · rw [if_pos h0]
        exact fun c hc => absurd hc List.not_mem_nil
      · rw [if_neg h0]
        by_cases h1 : n ≤ resources.length + 1
        · rw [if_pos h1]
          intro c hc
          obtain ⟨q, -, rfl⟩ := List.mem_map.mp (List.mem_of_mem_take hc)
          exact ⟨q, rfl⟩
        · rw [if_neg h1]
          by_cases h2 : n < resources.length + 3 + (prepared resources).length
          · rw [if_pos h2]
            cases ho : outcomeOf (resources.map Resource.prepare) with
            | rollback =>
              exact not_committed_of_rollback ho fun c hc => List.mem_of_mem_take hc
            | commit =>
              have hvotes : ∀ q ∈ resources, q.prepare = .commit := by
                intro q hq
                have hveto := noVeto_of_commit ho q hq
                have hread : q.prepare ≠ .readOnly := fun hv =>
                  hn' ⟨ho, ⟨q, hq, hv⟩, by omega, h2⟩
                cases hv : q.prepare with
                | commit => rfl
                | rollback => exact absurd hv hveto
                | readOnly => exact absurd hv hread
              refine ⟨hvotes, _, rfl, fun c hc => ?_⟩
              obtain ⟨q, hq, -, rfl⟩ := mem_phaseTwoCalls.mp (List.mem_of_mem_take hc)
              rw [ho]
              exact ⟨q, hq, rfl⟩
          · rw [if_neg h2]
            cases ho : outcomeOf (resources.map Resource.prepare) with
            | rollback => exact not_committed_of_rollback ho fun c hc => hc
            | commit =>
              have hphase := commitPhase_of_commit ho fun c hc => hc
              refine ⟨hphase.agreed, hphase.not_undone, fun q hq => ?_⟩
              cases hv : q.prepare with
              | commit =>
                refine .inl (.inl (List.mem_append_right _ (mem_phaseTwoCalls.mpr ⟨q, hq, hv, ?_⟩)))
                rw [ho]
                rfl
              | rollback => exact absurd hv (noVeto_of_commit ho q hq)
              | readOnly =>
                exact .inr ⟨List.mem_append_left _ (List.mem_map.mpr ⟨q, hq, rfl⟩), hv⟩

/-! ### Crashes and recoveries -/

section

variable {resourcesFor : Otid → List Resource} {otid : Otid} {resources : List Resource}
  (hf : ∀ r ∈ resources, Faithful r) (hrf : ∀ r, r ∈ resourcesFor otid ↔ r ∈ resources)
  {n : Nat} {w : World} (hlog : w.log.records.get? (key otid) = none)
  (hcalls : w.callsOf otid = [])

theorem coordinatorActions_otid : ∀ a ∈ coordinatorActions otid resources, a.otid = otid := by
  have hcall : ∀ (cs : List Call) a, a ∈ cs.map (Action.call otid) → a.otid = otid := by
    intro cs a ha
    obtain ⟨c, -, rfl⟩ := List.mem_map.mp ha
    rfl
  intro a ha
  cases resources with
  | nil =>
    simp only [coordinatorActions, List.mem_cons, List.not_mem_nil, or_false] at ha
    rcases ha with rfl | rfl <;> rfl
  | cons r rest =>
    cases rest with
    | nil =>
      simp only [coordinatorActions, List.mem_cons, List.not_mem_nil, or_false] at ha
      rcases ha with rfl | rfl | rfl | rfl <;> rfl
    | cons r' rest =>
      rcases List.mem_cons.mp ha with rfl | ha
      · rfl
      rcases List.mem_append.mp ha with ha | ha
      · exact hcall _ a ha
      rcases List.mem_cons.mp ha with rfl | ha
      · rfl
      rcases List.mem_append.mp ha with ha | ha
      · exact hcall _ a ha
      · rw [List.mem_singleton.mp ha]
        rfl

include hf hlog hcalls

theorem view_coordinator :
    Own ((coordinateCommitDurable otid resources).attempt n w).2 otid ∧
    ((coordinateCommitDurable otid resources).attempt n w).2.view otid =
      ((coordinatorActions otid resources).take n).foldl View.apply (none, []) := by
  obtain ⟨completion, hdoes⟩ := does_coordinateCommitDurable otid hf
  rw [hdoes.attempt]
  have hotid : ∀ a ∈ (coordinatorActions otid resources).take n, a.otid = otid :=
    fun a ha => coordinatorActions_otid a (List.mem_of_mem_take ha)
  have hown : Own w otid := by
    intro e he
    rw [hlog] at he
    cases he
  have hview : w.view otid = (none, []) := by
    rw [World.view, hcalls, InMemoryLog.get, hlog]
    rfl
  refine ⟨own_foldl (fun a ha _ => hotid a ha) hown, ?_⟩
  rw [World.view_foldl (fun a ha _ => hotid a ha), hview, List.filter_eq_self.mpr]
  exact fun a ha => decide_eq_true (hotid a ha)

include hrf

theorem sound_afterCrashes (hn : ¬ Caught n resources) (recoveries : List Nat) :
    Own (afterCrashes resourcesFor otid resources n recoveries w) otid ∧
    Sound resources ((afterCrashes resourcesFor otid resources n recoveries w).callsOf otid)
      ((afterCrashes resourcesFor otid resources n recoveries w).log.get otid) := by
  induction recoveries using List.reverseRecOn with
  | nil =>
    obtain ⟨hown, hview⟩ := view_coordinator hf hlog hcalls (n := n)
    refine ⟨hown, ?_⟩
    have hsound := sound_coordinator otid hf hn
    rw [← hview] at hsound
    exact hsound
  | append_singleton recoveries m ih =>
    obtain ⟨hown, hsound⟩ := ih
    unfold afterCrashes at hown hsound ⊢
    rw [List.foldl_append]
    obtain ⟨hown', as, has, hview, -⟩ := recover_view resourcesFor hown m
    refine ⟨hown', ?_⟩
    have hnext := hsound.recovery hrf (v := World.view _ otid) has
    rw [← hview] at hnext
    exact hnext

end

theorem view_of_caught {n : Nat} (h : Caught n resources) :
    ∃ cs, ((coordinatorActions otid resources).take n).foldl View.apply (none, []) =
        (some (.decided .commit), cs) ∧
      ∃ r ∈ resources, ¬ Voted cs r .commit := by
  cases resources with
  | nil => exact absurd h id
  | cons r rest =>
    cases rest with
    | nil =>
      obtain ⟨hlow, hhigh⟩ := h
      have hn : n = 2 ∨ n = 3 := by omega
      rcases hn with rfl | rfl
      · exact ⟨[], rfl, r, List.mem_cons_self, fun hv => absurd hv.1 List.not_mem_nil⟩
      · refine ⟨[.commitOnePhase r], rfl, r, List.mem_cons_self, fun hv => ?_⟩
        cases List.mem_singleton.mp hv.1
    | cons r' rest =>
      obtain ⟨ho, ⟨q, hq, hv⟩, hlow, hhigh⟩ := h
      have hview := coordinator_view otid (r :: r' :: rest) rfl n
      rw [if_neg (by omega), if_neg (by omega), if_pos hhigh, ho] at hview
      exact ⟨_, hview, q, hq, fun hvoted => Vote.noConfusion (hv.symm.trans hvoted.2)⟩

theorem not_agreed_of_recovery {resourcesFor : Otid → List Resource}
    (hrf : ∀ r, r ∈ resourcesFor otid ↔ r ∈ resources) (hown : Own w otid)
    (hview : w.view otid = (some (.decided .commit), cs)) (hr : r ∈ resources)
    (hvote : ¬ Voted cs r .commit) :
    ∃ m, ¬ Agreed (((recover resourcesFor).attempt m w).2.callsOf otid) := by
  refine ⟨(recoveryActions resourcesFor w.log.inDoubt).length, fun hagreed => hvote ?_⟩
  obtain ⟨-, as, -, hafter, hall⟩ := recover_view resourcesFor hown
    (recoveryActions resourcesFor w.log.inDoubt).length
  have hstate : w.log.get otid = some (.decided .commit) := congrArg Prod.fst hview
  rw [hall (by rw [attempt_recover, if_pos (Nat.le_refl _)]; rfl), hstate, hview, ownRecovery,
    List.foldl_append, foldl_calls] at hafter
  have hcalls := congrArg Prod.snd hafter
  change World.callsOf _ otid = cs ++ (resourcesFor otid).map Call.commit at hcalls
  rw [hcalls] at hagreed
  have hmem : Call.commit r ∈ cs ++ (resourcesFor otid).map Call.commit :=
    List.mem_append_right _ (List.mem_map.mpr ⟨r, (hrf r).mpr hr, rfl⟩)
  obtain ⟨before, after, hsplit⟩ := List.append_of_mem hmem
  obtain ⟨hprepared, hcommit⟩ := hagreed.voted before r after hsplit
  have hin : Call.prepare r ∈ cs ++ (resourcesFor otid).map Call.commit := by
    rw [hsplit]
    exact List.mem_append_left _ hprepared
  rcases List.mem_append.mp hin with hin | hin
  · exact ⟨hin, hcommit⟩
  · obtain ⟨_, -, heq⟩ := List.mem_map.mp hin
    cases heq

/-- However often the recovery runs and crashes, the resources agree, and once it
finished the log names what they did. -/
def Upholds (resourcesFor : Otid → List Resource) (otid : Otid) (resources : List Resource)
    (n : Nat) (w : World) : Prop :=
  ∀ recoveries : List Nat,
    Agreed ((afterCrashes resourcesFor otid resources n recoveries w).callsOf otid) ∧
    ∀ before m, recoveries = before ++ [m] →
      ((recover resourcesFor).attempt m
        (afterCrashes resourcesFor otid resources n before w)).1.isSome = true →
      Names resources ((afterCrashes resourcesFor otid resources n recoveries w).callsOf otid)
        (replayCompletion (afterCrashes resourcesFor otid resources n recoveries w) otid)

/-- The commit is atomic across crashes if and only if the coordinator is not caught
between its decision to commit and the completion with one resource, or with one that
voted `readOnly`. -/
theorem atomic_across_crashes_iff (resourcesFor : Otid → List Resource) (otid : Otid)
    (resources : List Resource) (hf : ∀ r ∈ resources, Faithful r)
    (hrf : ∀ r, r ∈ resourcesFor otid ↔ r ∈ resources) (n : Nat) (w : World)
    (hlog : w.log.records.get? (key otid) = none) (hcalls : w.callsOf otid = []) :
    Upholds resourcesFor otid resources n w ↔ ¬ Caught n resources := by
  constructor
  · intro hup hcaught
    obtain ⟨hown, hview⟩ := view_coordinator hf hlog hcalls (n := n)
    obtain ⟨cs, hcs, r, hr, hvote⟩ := view_of_caught hcaught
    rw [hcs] at hview
    obtain ⟨m, hbroken⟩ := not_agreed_of_recovery hrf hown hview hr hvote
    exact hbroken (hup [m]).1
  · intro hn recoveries
    refine ⟨(sound_afterCrashes hf hrf hlog hcalls hn recoveries).2.agreed, ?_⟩
    rintro before m rfl hfinished
    obtain ⟨-, hsound⟩ := sound_afterCrashes hf hrf hlog hcalls hn (before ++ [m])
    refine hsound.names fun outcome hdecided => ?_
    obtain ⟨hown, -⟩ := sound_afterCrashes hf hrf hlog hcalls hn before
    obtain ⟨-, as, -, hview, hall⟩ := recover_view resourcesFor hown m
    have hlast : afterCrashes resourcesFor otid resources n (before ++ [m]) w =
        ((recover resourcesFor).attempt m
          (afterCrashes resourcesFor otid resources n before w)).2 := by
      rw [afterCrashes, List.foldl_append]
      rfl
    rw [hall hfinished, ← hlast] at hview
    exact foldl_ownRecovery resourcesFor otid _ outcome
      ((congrArg Prod.fst hview).symm.trans hdecided)

namespace Fixture

def tx : Otid := ⟨0, 1, [5]⟩

def atRest : World := ⟨⟨.empty, fun _ _ h => by cases h⟩, []⟩

def vetoing : Resource := ⟨1, .rollback, .ok (), .ok (), .error .rollback⟩

def willing : Resource := ⟨1, .commit, .ok (), .ok (), .ok ()⟩

/-- The only resource rolls back in its one-phase commit, the crash comes before that is
logged, and the recovery commits it. -/
theorem rolled_back_and_committed :
    (afterCrashes (fun _ => [vetoing]) tx [vetoing] 3 [2] atRest).callsOf tx =
      [.commitOnePhase vetoing, .commit vetoing] ∧
    ¬ Upholds (fun _ => [vetoing]) tx [vetoing] 3 atRest := by
  have hcalls : (afterCrashes (fun _ => [vetoing]) tx [vetoing] 3 [2] atRest).callsOf tx =
      [.commitOnePhase vetoing, .commit vetoing] := by
    with_unfolding_all rfl
  refine ⟨hcalls, fun h => ?_⟩
  have hagreed := (h [2]).1
  refine hagreed.alike vetoing vetoing (.inl ?_) (.inl (.inr ⟨?_, rfl⟩))
  · exact List.mem_cons_of_mem _ List.mem_cons_self
  · exact List.mem_cons_self

/-- Two willing resources, whatever the crash after the decision. -/
theorem willing_resources_agree :
    Upholds (fun _ => [willing, willing]) tx [willing, willing] 5 atRest := by
  refine (atomic_across_crashes_iff (fun _ => [willing, willing]) tx [willing, willing] ?_
    (fun r => Iff.rfl) 5 atRest rfl rfl).mpr ?_
  · intro r hr
    rcases List.mem_cons.mp hr with rfl | hr
    · exact ⟨rfl, rfl, .inl rfl⟩
    · rw [List.mem_singleton.mp hr]
      exact ⟨rfl, rfl, .inl rfl⟩
  · rintro ⟨-, ⟨q, hq, hv⟩, -⟩
    rcases List.mem_cons.mp hq with rfl | hq
    · cases hv
    · rw [List.mem_singleton.mp hq] at hv
      cases hv

end Fixture

end ZeroDds.Transactions
