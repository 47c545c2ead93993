/-
The coherent-set gate of a DataReader.

With `coherent_access` a change of a coherent set is held until the set ends: at a change of the
writer outside the set, or at the writer's end-of-coherent-set marker.
-/
import Mathlib.Data.List.DropRight
import ZeroDds.Dcps.Types
import ZeroDds.Lib.Run

namespace ZeroDds.Dcps

/-- An item off a reader's channel.  `α` is what it carries that the gate does not
read. -/
inductive UserSample (α : Type) where
  | alive (writerGuid : WriterGuid) (coherentSetSn : Option Int) (sample : α)
  | lifecycle (writerGuid : WriterGuid) (coherentSetSn : Option Int) (marker : α)
  | coherentSetEnd (writerGuid : WriterGuid) (ecsSn : Option Int) (complete : Option Bool)
      (terminator : α)
  deriving DecidableEq

namespace UserSample

variable {α : Type}

def writerGuid : UserSample α → WriterGuid
  | alive writer _ _ => writer
  | lifecycle writer _ _ => writer
  | coherentSetEnd writer _ _ _ => writer

def coherentMember : UserSample α → Option (WriterGuid × Int)
  | alive writer (some sn) _ => some (writer, sn)
  | lifecycle writer (some sn) _ => some (writer, sn)
  | _ => none

def isEnd : UserSample α → Bool
  | coherentSetEnd .. => true
  | _ => false

def isFrom (w : WriterGuid) (item : UserSample α) : Bool := item.writerGuid = w

def inSet (first : Int) (item : UserSample α) : Bool :=
  item.coherentMember.any fun m => m.2 = first

end UserSample

variable {α : Type}

/-- Whether a set that ended at the marker `ecsSn` is complete: as the RTPS reader
followed it, else by one member for each number from its first up to the marker. -/
def setIsComplete (set : List (UserSample α)) (ecsSn : Option Int) (complete : Option Bool) :
    Bool :=
  match complete with
  | some complete => complete
  | none =>
    match set.head?.bind UserSample.coherentMember, ecsSn with
    | some (_, first), some stop => (set.length : Int) = stop - first
    | _, _ => true

structure CoherentHold (α : Type) where
  hold : List (UserSample α)

structure Gated (α : Type) where
  out : List (UserSample α)
  incomplete : Option Nat

namespace CoherentHold

def new : CoherentHold α := ⟨[]⟩

/-- The held members of the writer that leave: all of them, or with `newSet` those
of every other set. -/
def leaves (w : WriterGuid) (newSet : Option Int) (held : UserSample α) : Bool :=
  held.coherentMember.any fun m => m.1 = w && newSet ≠ some m.2

def release (h : CoherentHold α) (w : WriterGuid) (newSet : Option Int) :
    CoherentHold α × List (UserSample α) :=
  (⟨h.hold.filter fun held => !leaves w newSet held⟩, h.hold.filter (leaves w newSet))

def gate (h : CoherentHold α) (item : UserSample α) (coherentAccess : Bool) :
    CoherentHold α × Gated α :=
  if !coherentAccess then (h, ⟨if item.isEnd then [] else [item], none⟩)
  else
    match item.coherentMember with
    | some (writer, sn) =>
      let (kept, released) := h.release writer (some sn)
      (⟨kept.hold ++ [item]⟩, ⟨released, none⟩)
    | none =>
      match item with
      | .coherentSetEnd writer ecsSn complete _ =>
        let (kept, set) := h.release writer none
        if setIsComplete set ecsSn complete then (kept, ⟨set, none⟩)
        else (kept, ⟨[], some set.length⟩)
      | item =>
        let (kept, released) := h.release item.writerGuid none
        (kept, ⟨released ++ [item], none⟩)

def step (h : CoherentHold α) (item : UserSample α) : CoherentHold α × Gated α := h.gate item true

/-! ### The sets of one writer -/

/-- The set open after a writer's items: the members of the last one's set that came
without an interruption. -/
def openSet (items : List (UserSample α)) : List (UserSample α) :=
  match items.getLast?.bind UserSample.coherentMember with
  | some m => items.rtakeWhile (UserSample.inSet m.2)
  | none => []

def discards (set : List (UserSample α)) : UserSample α → Bool
  | .coherentSetEnd _ ecsSn complete _ => !setIsComplete set ecsSn complete
  | _ => false

/-- A writer's items without the end markers and without the sets whose end marker
found them incomplete. -/
def retained : List (UserSample α) → List (UserSample α)
  | [] => []
  | item :: rest =>
    match item.coherentMember with
    | some m =>
      let set := item :: rest.takeWhile (UserSample.inSet m.2)
      let after := rest.dropWhile (UserSample.inSet m.2)
      (if after.head?.any (discards set) then [] else set) ++ retained after
    | none => (if item.isEnd then [] else [item]) ++ retained rest
termination_by items => items.length
decreasing_by
  · exact Nat.lt_succ_of_le (List.length_dropWhile_le _ _)
  · exact Nat.lt_succ_self _

def continues (set : List (UserSample α)) (item : UserSample α) : Bool :=
  set.head?.any fun first => item.coherentMember.any fun m => first.inSet m.2

variable {item : UserSample α} {m : WriterGuid × Int}

theorem writer_of_coherentMember (h : item.coherentMember = some m) : m.1 = item.writerGuid := by
  unfold UserSample.coherentMember at h
  split at h <;> cases h <;> rfl

theorem inSet_of_coherentMember (h : item.coherentMember = some m) (first : Int) :
    item.inSet first = decide (m.2 = first) := by
  simp [UserSample.inSet, h]

def OnlyMembers (h : CoherentHold α) : Prop := ∀ held ∈ h.hold, held.coherentMember.isSome

def heldOf (h : CoherentHold α) (w : WriterGuid) : List (UserSample α) :=
  h.hold.filter (UserSample.isFrom w)

def nextSet (set : List (UserSample α)) (item : UserSample α) : List (UserSample α) :=
  match item.coherentMember with
  | some m => set.filter (UserSample.inSet m.2) ++ [item]
  | none => []

def letsOut (set : List (UserSample α)) (item : UserSample α) : List (UserSample α) :=
  match item.coherentMember with
  | some m => set.filter fun held => !held.inSet m.2
  | none => (if discards set item then [] else set) ++ if item.isEnd then [] else [item]

theorem leaves_eq {held : UserSample α} (hm : held.coherentMember.isSome) (w : WriterGuid)
    (newSet : Option Int) :
    leaves w newSet held = (held.isFrom w && !newSet.any fun first => held.inSet first) := by
  obtain ⟨m, hm⟩ := Option.isSome_iff_exists.mp hm
  have hw := writer_of_coherentMember hm
  cases newSet with
  | none => simp [leaves, UserSample.isFrom, hm, hw]
  | some first =>
    have hin := inSet_of_coherentMember hm first
    simp [leaves, UserSample.isFrom, hm, hw, hin, eq_comm (a := first)]

variable {h : CoherentHold α}

section

variable (hm : h.OnlyMembers)
include hm

theorem filter_leaves (w : WriterGuid) (newSet : Option Int) :
    h.hold.filter (leaves w newSet) =
      (h.heldOf w).filter fun held => !newSet.any fun first => held.inSet first := by
  rw [heldOf, List.filter_filter]
  refine List.filter_congr fun held hmem => ?_
  rw [leaves_eq (hm held hmem), Bool.and_comm]

theorem filter_stays (w w' : WriterGuid) (newSet : Option Int) :
    (h.hold.filter fun held => !leaves w newSet held).filter (UserSample.isFrom w') =
      if w' = w then (h.heldOf w).filter fun held => newSet.any fun first => held.inSet first
      else h.heldOf w' := by
  rw [List.filter_filter]
  split
  · next heq =>
    subst heq
    rw [heldOf, List.filter_filter]
    refine List.filter_congr fun held hmem => ?_
    rw [leaves_eq (hm held hmem)]
    cases held.isFrom w' <;> simp
  · next hne =>
    refine List.filter_congr fun held hmem => ?_
    rw [leaves_eq (hm held hmem)]
    cases hw' : held.isFrom w' with
    | false => rfl
    | true =>
      have hw : held.isFrom w = false := by
        simp only [UserSample.isFrom, decide_eq_true_eq] at hw'
        simp only [UserSample.isFrom, hw', decide_eq_false hne]
      simp [hw]

theorem onlyMembers_release (w : WriterGuid) (newSet : Option Int) :
    (h.release w newSet).1.OnlyMembers :=
  fun held hmem => hm held (List.mem_of_mem_filter hmem)

theorem step_spec (item : UserSample α) :
    (h.step item).1.OnlyMembers ∧
      (h.step item).2.out = letsOut (h.heldOf item.writerGuid) item ∧
      ∀ w, (h.step item).1.heldOf w =
        if w = item.writerGuid then nextSet (h.heldOf item.writerGuid) item else h.heldOf w := by
  unfold step gate letsOut nextSet
  simp only [Bool.not_true, Bool.false_eq_true, if_false]
  cases hmember : item.coherentMember with
  | some m =>
    have hw := writer_of_coherentMember hmember
    simp only [release, hw, filter_leaves hm]
    refine ⟨?_, by simp, fun w => ?_⟩
    · intro held hmem
      rcases List.mem_append.mp hmem with hmem | hmem
      · exact hm held (List.mem_of_mem_filter hmem)
      · rw [List.mem_singleton.mp hmem, hmember]
        rfl
    · rw [heldOf, List.filter_append, filter_stays hm]
      split
      · next heq => simp [UserSample.isFrom, heq]
      · next hne =>
        have hother : item.isFrom w = false := decide_eq_false (Ne.symm hne)
        rw [List.filter_singleton, hother]
        exact List.append_nil _
  | none =>
    have hheld : ∀ w, (h.release item.writerGuid none).1.heldOf w =
        if w = item.writerGuid then [] else h.heldOf w := by
      intro w
      simp only [heldOf, release]
      rw [filter_stays hm]
      simp [heldOf]
    have hset : (h.release item.writerGuid none).2 = h.heldOf item.writerGuid := by
      simp [release, filter_leaves hm]
    have honly := onlyMembers_release hm item.writerGuid none
    cases item with
    | alive w sn sample => exact ⟨honly, by simp [discards, UserSample.isEnd, hset], hheld⟩
    | lifecycle w sn marker => exact ⟨honly, by simp [discards, UserSample.isEnd, hset], hheld⟩
    | coherentSetEnd w ecsSn complete terminator =>
      simp only [UserSample.writerGuid] at hheld hset honly ⊢
      simp only [discards, UserSample.isEnd, if_true, List.append_nil, hset]
      by_cases hcomplete : setIsComplete (h.heldOf w) ecsSn complete = true
      · simp only [hcomplete, if_true]
        exact ⟨honly, by simp, hheld⟩
      · simp only [hcomplete]
        exact ⟨honly, by simp, hheld⟩

end

/-! ### The open set of a writer -/

theorem inSet_of_inSet {x : Int} (h : item.inSet x = true) (first : Int) :
    item.inSet first = decide (x = first) := by
  cases hm : item.coherentMember with
  | none => simp [UserSample.inSet, hm] at h
  | some m =>
    rw [inSet_of_coherentMember hm] at h ⊢
    rw [of_decide_eq_true h]

theorem mem_openSet {items : List (UserSample α)} (h : item ∈ openSet items) :
    ∃ m, items.getLast?.bind UserSample.coherentMember = some m ∧ item.inSet m.2 := by
  unfold openSet at h
  split at h
  · next m hm => exact ⟨m, hm, List.mem_rtakeWhile_imp h⟩
  · exact absurd h List.not_mem_nil

variable (items : List (UserSample α))

theorem rtakeWhile_inSet (first : Int) :
    items.rtakeWhile (UserSample.inSet first) =
      (openSet items).filter (UserSample.inSet first) := by
  rcases List.eq_nil_or_concat items with rfl | ⟨front, last, rfl⟩
  · rfl
  rw [List.concat_eq_append]
  cases hm : last.coherentMember with
  | none =>
    have hlast : last.inSet first = false := by simp [UserSample.inSet, hm]
    rw [List.rtakeWhile_concat_neg _ _ _ (by simp [hlast])]
    simp [openSet, hm]
  | some m =>
    have hopen : openSet (front ++ [last]) =
        (front ++ [last]).rtakeWhile (UserSample.inSet m.2) := by simp [openSet, hm]
    rw [hopen]
    by_cases hfirst : m.2 = first
    · subst hfirst
      exact (List.filter_eq_self.mpr fun item h => List.mem_rtakeWhile_imp h).symm
    · have hlast : last.inSet first = false := by
        rw [inSet_of_coherentMember hm, decide_eq_false hfirst]
      rw [List.rtakeWhile_concat_neg _ _ _ (by simp [hlast])]
      refine (List.filter_eq_nil_iff.mpr fun item h hitem => hfirst ?_).symm
      rw [inSet_of_inSet (List.mem_rtakeWhile_imp h)] at hitem
      exact of_decide_eq_true hitem

theorem openSet_append (item : UserSample α) :
    openSet (items ++ [item]) = nextSet (openSet items) item := by
  unfold nextSet
  cases hm : item.coherentMember with
  | none => simp [openSet, hm]
  | some m =>
    have hopen : openSet (items ++ [item]) =
        (items ++ [item]).rtakeWhile (UserSample.inSet m.2) := by simp [openSet, hm]
    have hin : item.inSet m.2 = true := by
      rw [inSet_of_coherentMember hm, decide_eq_true rfl]
    rw [hopen, List.rtakeWhile_concat_pos _ _ _ hin, rtakeWhile_inSet]

theorem inSet_openSet {items : List (UserSample α)} {a b : UserSample α} (ha : a ∈ openSet items)
    (hb : b ∈ openSet items) (first : Int) : a.inSet first = b.inSet first := by
  obtain ⟨m, hm, ha⟩ := mem_openSet ha
  obtain ⟨m', hm', hb⟩ := mem_openSet hb
  cases hm.symm.trans hm'
  rw [inSet_of_inSet ha, inSet_of_inSet hb]

theorem discards_of_member (h : item.coherentMember = some m) (set : List (UserSample α)) :
    discards set item = false := by
  cases item with
  | alive => rfl
  | lifecycle => rfl
  | coherentSetEnd => cases h

theorem isEnd_of_member (h : item.coherentMember = some m) : item.isEnd = false := by
  cases item with
  | alive => rfl
  | lifecycle => rfl
  | coherentSetEnd => cases h

theorem letsOut_openSet (item : UserSample α) :
    letsOut (openSet items) item =
      if continues (openSet items) item then []
      else (if discards (openSet items) item then [] else openSet items) ++
        if item.isEnd || item.coherentMember.isSome then [] else [item] := by
  unfold letsOut continues
  cases hm : item.coherentMember with
  | none => simp
  | some m =>
    simp only [isEnd_of_member hm, discards_of_member hm, Option.any_some, Option.isSome_some,
      Bool.or_true, if_true,
      Bool.false_eq_true, if_false, List.append_nil]
    cases hset : openSet items with
    | nil => rfl
    | cons a rest =>
      have hsame : ∀ held ∈ a :: rest, held.inSet m.2 = a.inSet m.2 := fun held hmem =>
        inSet_openSet (hset ▸ hmem) (hset ▸ List.mem_cons_self) m.2
      cases ha : a.inSet m.2 with
      | true =>
        rw [List.filter_eq_nil_iff.mpr fun held hmem => by simp [hsame held hmem, ha]]
        simp [ha]
      | false =>
        rw [List.filter_eq_self.mpr fun held hmem => by simp [hsame held hmem, ha]]
        simp [ha]

theorem held_run :
    (run step new items).1.OnlyMembers ∧
      ∀ w, (run step new items).1.heldOf w = openSet (items.filter (UserSample.isFrom w)) := by
  induction items using List.reverseRecOn with
  | nil => exact ⟨fun held h => absurd h List.not_mem_nil, fun w => rfl⟩
  | append_singleton items item ih =>
    obtain ⟨honly, hheld⟩ := ih
    obtain ⟨honly', -, hheld'⟩ := step_spec honly item
    rw [run_append]
    refine ⟨honly', fun w => (hheld' w).trans ?_⟩
    rw [List.filter_append]
    split
    · next heq =>
      have hown : item.isFrom w = true := decide_eq_true heq.symm
      rw [List.filter_singleton, hown, ← heq, hheld]
      exact (openSet_append _ _).symm
    · next hne =>
      have hother : item.isFrom w = false := decide_eq_false (Ne.symm hne)
      rw [List.filter_singleton, hother, hheld]
      exact congrArg openSet (List.append_nil _).symm

/-- A set and what follows it of a writer's items: the rest of the set, and the item
that ends it. -/
def settle (set rest : List (UserSample α)) (first : Int) : List (UserSample α) :=
  let whole := set ++ rest.takeWhile (UserSample.inSet first)
  let after := rest.dropWhile (UserSample.inSet first)
  (if after.head?.any (discards whole) then [] else whole) ++ retained after

def resume (set rest : List (UserSample α)) : List (UserSample α) :=
  match set.head?.bind UserSample.coherentMember with
  | some m => settle set rest m.2
  | none => retained rest

variable {set : List (UserSample α)}

theorem resume_of_inSet (first : Int) (hne : set ≠ [])
    (hset : ∀ held ∈ set, held.inSet first = true) (rest : List (UserSample α)) :
    resume set rest = settle set rest first := by
  obtain ⟨a, front, rfl⟩ := List.exists_cons_of_ne_nil hne
  have ha := hset a List.mem_cons_self
  cases hm : a.coherentMember with
  | none => simp [UserSample.inSet, hm] at ha
  | some m =>
    rw [inSet_of_coherentMember hm, decide_eq_true_eq] at ha
    simp [resume, hm, ha]

theorem retained_cons (item : UserSample α) (rest : List (UserSample α)) :
    retained (item :: rest) = letsOut [] item ++ resume (nextSet [] item) rest := by
  rw [retained, letsOut, nextSet]
  cases hm : item.coherentMember with
  | none => simp [resume]
  | some m =>
    rw [resume_of_inSet m.2 (by simp)]
    · rfl
    · intro held hheld
      rw [List.mem_singleton.mp hheld, inSet_of_coherentMember hm, decide_eq_true rfl]

theorem inSet_nextSet {held : UserSample α} (h : held ∈ nextSet set item) :
    ∃ m, item.coherentMember = some m ∧ held.inSet m.2 = true := by
  unfold nextSet at h
  split at h
  · next m hm =>
    refine ⟨m, hm, ?_⟩
    rcases List.mem_append.mp h with h | h
    · exact (List.mem_filter.mp h).2
    · rw [List.mem_singleton.mp h, inSet_of_coherentMember hm, decide_eq_true rfl]
  · exact absurd h List.not_mem_nil

def OneSet (set : List (UserSample α)) : Prop := ∃ first, ∀ held ∈ set, held.inSet first = true

theorem oneSet_nextSet (set : List (UserSample α)) (item : UserSample α) :
    OneSet (nextSet set item) := by
  cases hm : item.coherentMember with
  | none => exact ⟨0, fun held h => by simp [nextSet, hm] at h⟩
  | some m =>
    refine ⟨m.2, fun held h => ?_⟩
    obtain ⟨m', hm', hin⟩ := inSet_nextSet h
    cases hm.symm.trans hm'
    exact hin

theorem resume_cons (hone : OneSet set) (item : UserSample α) (rest : List (UserSample α)) :
    resume set (item :: rest) = letsOut set item ++ resume (nextSet set item) rest := by
  rcases eq_or_ne set [] with rfl | hne
  · exact retained_cons item rest
  obtain ⟨first, hset⟩ := hone
  rw [resume_of_inSet first hne hset, settle]
  cases hin : item.inSet first with
  | true =>
    -- the item goes on with the set
    obtain ⟨m, hm⟩ : ∃ m, item.coherentMember = some m := by
      cases hm : item.coherentMember with
      | none => simp [UserSample.inSet, hm] at hin
      | some m => exact ⟨m, rfl⟩
    have hfirst : m.2 = first := by
      rw [inSet_of_coherentMember hm] at hin
      exact of_decide_eq_true hin
    have hall : set.filter (UserSample.inSet m.2) = set :=
      List.filter_eq_self.mpr (hfirst ▸ hset)
    have hnone : set.filter (fun held => !held.inSet m.2) = [] :=
      List.filter_eq_nil_iff.mpr fun held h => by simp [hfirst, hset held h]
    have hnext : nextSet set item = set ++ [item] := by simp [nextSet, hm, hall]
    have hout : letsOut set item = [] := by simp only [letsOut, hm, hnone]
    rw [hout, hnext, resume_of_inSet first (by simp)]
    · simp [settle, hin]
    · intro held h
      rcases List.mem_append.mp h with h | h
      · exact hset held h
      · rw [List.mem_singleton.mp h, hin]
  | false =>
    -- the item ends the set
    simp only [List.takeWhile_cons, List.dropWhile_cons, hin, Bool.false_eq_true, if_false,
      List.append_nil, List.head?_cons, Option.any_some]
    rw [retained_cons]
    cases hm : item.coherentMember with
    | none => simp [letsOut, nextSet, hm]
    | some m =>
      have hfirst : ¬m.2 = first := by
        rw [inSet_of_coherentMember hm] at hin
        exact of_decide_eq_false hin
      have hother : ∀ held ∈ set, held.inSet m.2 = false := fun held h => by
        rw [inSet_of_inSet (hset held h), decide_eq_false (Ne.symm hfirst)]
      have hnone : set.filter (UserSample.inSet m.2) = [] :=
        List.filter_eq_nil_iff.mpr fun held h => by simp [hother held h]
      have hall : set.filter (fun held => !held.inSet m.2) = set :=
        List.filter_eq_self.mpr fun held h => by simp [hother held h]
      simp [letsOut, nextSet, hm, hnone, hall, discards_of_member hm]

theorem isFrom_letsOut {out : UserSample α} (hout : out ∈ letsOut (h.heldOf item.writerGuid) item) :
    out.isFrom item.writerGuid = true := by
  have hheld : ∀ held ∈ h.heldOf item.writerGuid, held.isFrom item.writerGuid = true :=
    fun held hmem => (List.mem_filter.mp hmem).2
  have hself : item.isFrom item.writerGuid = true := decide_eq_true rfl
  unfold letsOut at hout
  split at hout
  · exact hheld out (List.mem_of_mem_filter hout)
  · rcases List.mem_append.mp hout with hout | hout
    · split at hout
      · exact absurd hout List.not_mem_nil
      · exact hheld out hout
    · split at hout
      · exact absurd hout List.not_mem_nil
      · exact List.mem_singleton.mp hout ▸ hself

def outputs (history : History (UserSample α) (Gated α)) : List (UserSample α) :=
  history.flatMap fun e => e.2.out

theorem outputs_run (hm : h.OnlyMembers) (w : WriterGuid) (hone : OneSet (h.heldOf w))
    (items : List (UserSample α)) :
    (outputs (run step h items).2).filter (UserSample.isFrom w) ++
        (run step h items).1.heldOf w =
      resume (h.heldOf w) (items.filter (UserSample.isFrom w)) := by
  induction items generalizing h with
  | nil =>
    obtain ⟨first, hset⟩ := hone
    rcases eq_or_ne (h.heldOf w) [] with hnil | hne
    · simp [run, outputs, resume, retained, hnil]
    · rw [List.filter_nil, resume_of_inSet first hne hset]
      simp [run, outputs, settle, retained]
  | cons item items ih =>
    obtain ⟨honly, hout, hheld⟩ := step_spec hm item
    have hrun : outputs (run step h (item :: items)).2 =
        (h.step item).2.out ++ outputs (run step (h.step item).1 items).2 := by
      simp [run, outputs]
    have hlast : (run step h (item :: items)).1 = (run step (h.step item).1 items).1 := rfl
    rw [hrun, hlast, List.filter_append, List.append_assoc]
    by_cases hw : w = item.writerGuid
    · subst hw
      have hself : item.isFrom item.writerGuid = true := decide_eq_true rfl
      have hnext : (h.step item).1.heldOf item.writerGuid =
          nextSet (h.heldOf item.writerGuid) item := by rw [hheld, if_pos rfl]
      rw [ih honly (hnext ▸ oneSet_nextSet _ _), hnext, List.filter_cons_of_pos hself,
        resume_cons hone, hout, List.filter_eq_self.mpr fun _ => isFrom_letsOut]
    · have hother : item.isFrom w = false := decide_eq_false (Ne.symm hw)
      have hkept : (h.step item).1.heldOf w = h.heldOf w := by rw [hheld, if_neg hw]
      have hnone : (h.step item).2.out.filter (UserSample.isFrom w) = [] := by
        refine List.filter_eq_nil_iff.mpr fun out hmem hfrom => hw ?_
        have hown := isFrom_letsOut (hout ▸ hmem)
        rw [← of_decide_eq_true hfrom, of_decide_eq_true hown]
      rw [ih honly (hkept ▸ hone), hkept, hnone, List.nil_append,
        List.filter_cons_of_neg (by simp [hother])]

/-- The gate only delays and discards whole sets.  After any items a writer's share of
the output and of the hold is what it sent, without end markers and without the sets an
end marker found incomplete.  The next item lets its writer's open set out as a whole, in
front of itself, unless it goes on with it or finds it incomplete, and it leaves every
other writer's share of the hold as it was. -/
theorem gate_run (items : List (UserSample α)) :
    (∀ w, (outputs (run step new items).2).filter (UserSample.isFrom w) ++
        (run step new items).1.hold.filter (UserSample.isFrom w) =
      retained (items.filter (UserSample.isFrom w))) ∧
    ∀ item,
      (((run step new items).1.step item).2.out =
        let set := openSet (items.filter (UserSample.isFrom item.writerGuid))
        if continues set item then []
        else (if discards set item then [] else set) ++
          if item.isEnd || item.coherentMember.isSome then [] else [item]) ∧
      ∀ w, w ≠ item.writerGuid →
        ((run step new items).1.step item).1.hold.filter (UserSample.isFrom w) =
          (run step new items).1.hold.filter (UserSample.isFrom w) := by
  have hnew : (new : CoherentHold α).OnlyMembers := fun held h => absurd h List.not_mem_nil
  refine ⟨fun w => outputs_run hnew w ⟨0, fun held h => absurd h List.not_mem_nil⟩ items, ?_⟩
  intro item
  obtain ⟨honly, hheld⟩ := held_run items
  obtain ⟨-, hout, hheld'⟩ := step_spec honly item
  refine ⟨?_, fun w hw => (hheld' w).trans (if_neg hw)⟩
  rw [hout, hheld]
  exact letsOut_openSet _ item

end CoherentHold
end ZeroDds.Dcps
