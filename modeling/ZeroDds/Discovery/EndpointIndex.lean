/-
The index of the endpoint cache, over every sequence of calls.

The source keeps the index beside the entries by hand, in every path that inserts, updates or
removes.  Both are read here as one set of pairs of a time and a GUID, and every operation is
shown to change the two sets alike.
-/
import ZeroDds.Discovery.EndpointsCache

namespace ZeroDds.Discovery

open SortedMap Rtps

namespace EndpointTable

variable {D : Type}

/-- One table of `on_participant_lost`, with the number of entries removed. -/
def onParticipantLost (t : EndpointTable D) (p : GuidPrefix) : EndpointTable D × Nat :=
  match t.index.get? p with
  | none => (t, 0)
  | some set =>
    ({ t.dropSet p with entries := set.keys.foldl (fun m e => m.erase (ofLex e).2) t.entries },
      set.size)

section Calls

variable [Endpoint D]

/-- `insert_publication_in_process` and its counterpart. -/
def insertInProcess (t : EndpointTable D) (data : D) (now : Nat) (sequence : Int) :
    EndpointTable D × Bool × Bool :=
  let (t, inserted, evicted) := t.insert data now
  match t.entries.get? (Endpoint.key data) with
  | none => (t, inserted, evicted)
  | some entry =>
    let handed := entry.in_process.elim sequence (max · sequence)
    ({ t with entries := t.entries.insert (Endpoint.key data) { entry with in_process := handed } },
      inserted, evicted)

inductive Call (D : Type) where
  | insert (data : D) (now : Nat)
  | insertAnnounced (data : D) (now : Nat) (sequence : Int)
  | insertInProcess (data : D) (now : Nat) (sequence : Int)
  | remove (key : Guid)
  | onParticipantLost (p : GuidPrefix)

def step (t : EndpointTable D) : Call D → EndpointTable D
  | .insert data now => (t.insert data now).1
  | .insertAnnounced data now sequence =>
    ((t.insertAnnounced data now sequence).map Prod.fst).getD t
  | .insertInProcess data now sequence => (t.insertInProcess data now sequence).1
  | .remove key => t.remove key
  | .onParticipantLost p => (t.onParticipantLost p).1

end Calls

/-! ### The two sets -/

/-- When each entry was announced last. -/
def announced (m : SortedMap Guid (Discovered D)) : Set (Nat × Guid) :=
  { e | (m.get? e.2).map Discovered.discovered_at = some e.1 }

def names (set : SortedSet (Nat ×ₗ Guid)) : Set (Nat × Guid) := { e | toLex e ∈ set.keys }

def within (p : GuidPrefix) (s : Set (Nat × Guid)) : Set (Nat × Guid) :=
  { e ∈ s | e.2.guidPrefix = p }

theorem within_union (p : GuidPrefix) (s : Set (Nat × Guid)) (x : Nat × Guid) :
    within p (s ∪ {x}) = if p = x.2.guidPrefix then within p s ∪ {x} else within p s := by
  split_ifs with hp <;> ext e <;> by_cases he : e = x <;> simp [within, he, @eq_comm _ _ p, hp]

theorem within_sdiff (p : GuidPrefix) (s : Set (Nat × Guid)) (x : Nat × Guid) :
    within p (s \ {x}) = if p = x.2.guidPrefix then within p s \ {x} else within p s := by
  split_ifs with hp <;> ext e <;> by_cases he : e = x <;> simp [within, he, @eq_comm _ _ p, hp]

section Announced

variable {m : SortedMap Guid (Discovered D)} {key : Guid}

theorem announced_insert (d : Discovered D) :
    announced (m.insert key d) = announced (m.erase key) ∪ {(d.discovered_at, key)} := by
  ext ⟨now, g⟩
  by_cases heq : g = key
  · simp [announced, get?_insert, get?_erase, heq, eq_comm]
  · simp [announced, get?_insert, get?_erase, heq]

variable {d : Discovered D} (hget : m.get? key = some d)
include hget

theorem announced_erase : announced (m.erase key) = announced m \ {(d.discovered_at, key)} := by
  ext ⟨now, g⟩
  by_cases heq : g = key
  · subst heq
    simp [announced, get?_erase, hget, eq_comm]
  · simp [announced, get?_erase, heq]

theorem mem_announced : (d.discovered_at, key) ∈ within key.guidPrefix (announced m) := by
  simp [announced, within, hget]

end Announced

section IndexSets

variable {p : GuidPrefix} {set : IndexSet p} {now : Nat} {key : Guid} {entry : Nat × Guid}

theorem names_insert {hkey : key.guidPrefix = p} :
    names (set.insert now key hkey).1 = names set.1 ∪ {(now, key)} := by
  ext e
  simp only [names, Set.mem_ofPred_eq, mem_keys, IndexSet.insert, get?_insert, Set.mem_union]
  by_cases heq : e = (now, key) <;> simp [heq]

theorem names_erase : names (set.erase entry).1 = names set.1 \ {entry} := by
  ext e
  simp only [names, Set.mem_ofPred_eq, mem_keys, IndexSet.erase, get?_erase, Set.mem_sdiff]
  by_cases heq : e = entry <;> simp [heq]

theorem size_insert_le (hkey : key.guidPrefix = p) :
    (set.insert now key hkey).1.size ≤ set.1.size + 1 := by
  cases hget : set.1.get? (toLex (now, key)) with
  | none => exact (size_insert_of_none hget).le
  | some u => exact (size_insert_of_some hget).le.trans (Nat.le_succ _)

theorem size_erase_of_mem (hmem : entry ∈ names set.1) :
    (set.erase entry).1.size + 1 = set.1.size := by
  obtain ⟨u, hget⟩ := mem_keys.mp hmem
  exact size_erase_of_some hget

variable (t : EndpointTable D)

theorem setOf_putSet (set : IndexSet p) (q : GuidPrefix) :
    ((t.putSet p set).setOf q).1 = if q = p then set.1 else (t.setOf q).1 := by
  show ((t.index.insert p set.1).get? q).getD .empty = _
  rw [get?_insert]
  split <;> rfl

theorem setOf_dropSet (p q : GuidPrefix) :
    ((t.dropSet p).setOf q).1 = if q = p then .empty else (t.setOf q).1 := by
  show ((t.index.erase p).get? q).getD .empty = _
  rw [get?_erase]
  split <;> rfl

theorem contains_of_mem (hmem : entry ∈ names (t.setOf p).1) : t.index.contains p = true := by
  cases hget : t.index.get? p with
  | some set => exact contains_iff.mpr ⟨set, hget⟩
  | none =>
    have hset : (t.setOf p).1 = .empty := congrArg (·.getD .empty) hget
    rw [hset] at hmem
    cases hmem

end IndexSets

/-! ### Every operation changes the two alike -/

structure InStep (t : EndpointTable D) (cap : Nat) : Prop where
  capped : t.cap = cap
  listed : ∀ p, names (t.setOf p).1 = within p (announced t.entries)
  bounded : ∀ p, (t.setOf p).1.size ≤ max cap 1

variable {cap : Nat}

theorem inStep_new : (new cap : EndpointTable D).InStep cap := by
  refine ⟨rfl, fun p => Set.ext fun e => ⟨nofun, ?_⟩, fun p => Nat.zero_le _⟩
  rintro ⟨⟨⟩, -⟩

section Operations

variable {t : EndpointTable D} {key : Guid} (h : t.InStep cap)
include h

theorem InStep.of_putSet {p : GuidPrefix} {set : IndexSet p}
    {entries : SortedMap Guid (Discovered D)} (hset : names set.1 = within p (announced entries))
    (hsize : set.1.size ≤ max cap 1)
    (hothers : ∀ q, q ≠ p → within q (announced entries) = within q (announced t.entries)) :
    ({ t.putSet p set with entries } : EndpointTable D).InStep cap := by
  refine ⟨h.capped, fun q => ?_, fun q => ?_⟩
  · show names ((t.putSet p set).setOf q).1 = within q (announced entries)
    rw [setOf_putSet]
    split
    · next hq => rw [hq, hset]
    · next hq => rw [hothers q hq, h.listed]
  · show ((t.putSet p set).setOf q).1.size ≤ _
    rw [setOf_putSet]
    split
    · exact hsize
    · exact h.bounded q

theorem inStep_erase {d : Discovered D} (hget : t.entries.get? key = some d) :
    ({ t.putSet key.guidPrefix ((t.setOf key.guidPrefix).erase (d.discovered_at, key)) with
        entries := t.entries.erase key } : EndpointTable D).InStep cap := by
  have hmem := h.listed key.guidPrefix ▸ mem_announced hget
  have hsize := (size_erase_of_mem hmem).le.trans (h.bounded key.guidPrefix)
  refine h.of_putSet ?_ (Nat.le_of_succ_le hsize) fun q hq => ?_
  · rw [names_erase, h.listed, announced_erase hget, within_sdiff, if_pos rfl]
  · rw [announced_erase hget, within_sdiff, if_neg hq]

theorem inStep_update {existing : Discovered D} (hget : t.entries.get? key = some existing)
    (data : D) (now : Nat) : (t.update key existing data now).InStep cap := by
  have hmem := h.listed key.guidPrefix ▸ mem_announced hget
  have hsize := (size_erase_of_mem hmem).le.trans (h.bounded key.guidPrefix)
  unfold update
  rw [if_pos (t.contains_of_mem hmem)]
  show ({ t.putSet _ _ with entries := t.entries.insert key _ } : EndpointTable D).InStep cap
  refine h.of_putSet ?_ ((size_insert_le rfl).trans hsize) fun q hq => ?_
  · rw [names_insert, names_erase, h.listed, announced_insert, announced_erase hget, within_union,
      within_sdiff, if_pos rfl, if_pos rfl]
  · rw [announced_insert, announced_erase hget, within_union, within_sdiff, if_neg hq, if_neg hq]

theorem inStep_add (hnew : t.entries.get? key = none)
    (hroom : (t.setOf key.guidPrefix).1.size + 1 ≤ max cap 1) (data : D) (now : Nat) :
    (t.add key data now).InStep cap := by
  refine h.of_putSet ?_ ((size_insert_le rfl).trans hroom) fun q hq => ?_
  · rw [names_insert, h.listed, announced_insert, erase_of_none hnew, within_union, if_pos rfl]
  · rw [announced_insert, erase_of_none hnew, within_union, if_neg hq]

omit h in
/-- What is given up for a new entry is the participant's oldest. -/
theorem makeRoom_spec (t : EndpointTable D) (p : GuidPrefix) :
    (t.makeRoom p = (t, false) ∧ (t.setOf p).1.size + 1 ≤ max t.cap 1) ∨
      ∃ oldest ∈ names (t.setOf p).1, (∀ e ∈ names (t.setOf p).1, toLex oldest ≤ toLex e) ∧
        t.makeRoom p = ({ t.putSet p ((t.setOf p).erase oldest) with
          entries := t.entries.erase oldest.2 }, true) := by
  unfold makeRoom
  dsimp only
  split
  · cases hmin : (t.setOf p).1.minKey? with
    | none =>
      refine .inl ⟨rfl, ?_⟩
      have hzero : ¬ 0 < (t.setOf p).1.size := fun hpos => by
        obtain ⟨e, v, hget⟩ := size_pos_iff.mp hpos
        rw [minKey?_eq_none.mp hmin e] at hget
        cases hget
      omega
    | some oldest =>
      obtain ⟨hget, hleast⟩ := minKey?_eq_some.mp hmin
      refine .inr ⟨ofLex oldest, mem_keys.mpr hget, fun e he => ?_, rfl⟩
      obtain ⟨v, hgete⟩ := mem_keys.mp he
      exact hleast _ v hgete
  · next hroom =>
    refine .inl ⟨rfl, ?_⟩
    omega

theorem mem_names {p : GuidPrefix} {e : Nat × Guid} : e ∈ names (t.setOf p).1 ↔
    e.2.guidPrefix = p ∧ ∃ d, t.entries.get? e.2 = some d ∧ d.discovered_at = e.1 := by
  rw [h.listed, and_comm, ← Option.map_eq_some_iff]
  rfl

theorem inStep_makeRoom (p : GuidPrefix) :
    (t.makeRoom p).1.InStep cap ∧ ((t.makeRoom p).1.setOf p).1.size + 1 ≤ max cap 1 := by
  rcases t.makeRoom_spec p with ⟨heq, hroom⟩ | ⟨⟨now, g⟩, hmem, -, heq⟩
  · rw [heq]
    exact ⟨h, h.capped ▸ hroom⟩
  · rw [heq]
    obtain ⟨rfl, d, hget, rfl⟩ := (mem_names h).mp hmem
    refine ⟨inStep_erase h hget, ?_⟩
    show ((t.putSet _ _).setOf _).1.size + 1 ≤ max cap 1
    rw [setOf_putSet, if_pos rfl, size_erase_of_mem hmem]
    exact h.bounded _

omit h in
theorem makeRoom_new (p : GuidPrefix) (hnew : t.entries.get? key = none) :
    (t.makeRoom p).1.entries.get? key = none := by
  rcases t.makeRoom_cases p with heq | ⟨oldest, -, -, hentries⟩
  · rw [heq, hnew]
  · rw [hentries, get?_erase, hnew, ite_self]

theorem inStep_remove (key : Guid) : (t.remove key).InStep cap := by
  unfold remove
  split
  · exact h
  · next d hget =>
    have hmem := h.listed key.guidPrefix ▸ mem_announced hget
    have herased := inStep_erase h hget
    dsimp only
    rw [if_pos (t.contains_of_mem hmem)]
    split
    · next hempty =>
      -- A set without its last entry is left out, and is read as the empty one.
      have hset : ((t.setOf key.guidPrefix).erase (d.discovered_at, key)).1 = .empty :=
        ext_get? (isEmpty_iff.mp hempty)
      have hsets : ∀ q, ((t.dropSet key.guidPrefix).setOf q).1 = ((t.putSet key.guidPrefix
          ((t.setOf key.guidPrefix).erase (d.discovered_at, key))).setOf q).1 := by
        intro q
        rw [setOf_dropSet, setOf_putSet, hset]
      refine ⟨h.capped, fun q => ?_, fun q => ?_⟩
      · exact (congrArg names (hsets q)).trans (herased.listed q)
      · exact (congrArg SortedMap.size (hsets q)).trans_le (herased.bounded q)
    · exact herased

omit h in
/-- The loop over a lost participant's set. -/
theorem get?_eraseAll (l : List (Nat ×ₗ Guid)) (m : SortedMap Guid (Discovered D)) (g : Guid) :
    (l.foldl (fun m e => m.erase (ofLex e).2) m).get? g =
      if g ∈ l.map (fun e => (ofLex e).2) then none else m.get? g := by
  induction l generalizing m with
  | nil => rfl
  | cons e l ih =>
    rw [List.foldl_cons, ih, get?_erase, List.map_cons]
    by_cases heq : g = (ofLex e).2
    · simp [heq]
    · simp only [List.mem_cons, heq, if_false, false_or]

/-- The endpoints of a participant. -/
def endpointsOf (t : EndpointTable D) (p : GuidPrefix) : List Guid :=
  t.entries.keys.filter (·.guidPrefix = p)

theorem names_perm (p : GuidPrefix) :
    ((t.setOf p).1.keys.map fun e => (ofLex e).2).Perm (t.endpointsOf p) := by
  have hmem : ∀ e ∈ (t.setOf p).1.keys, (ofLex e).2.guidPrefix = p ∧
      ∃ d, t.entries.get? (ofLex e).2 = some d ∧ d.discovered_at = (ofLex e).1 :=
    fun e he => (mem_names h (e := ofLex e)).mp he
  refine (List.perm_ext_iff_of_nodup ?_ (t.entries.keys_nodup.filter _)).mpr fun g => ?_
  · refine List.Nodup.map_on (fun e he e' he' heq => ?_) (keys_nodup _)
    obtain ⟨-, d, hget, hat⟩ := hmem e he
    obtain ⟨-, d', hget', hat'⟩ := hmem e' he'
    rw [heq, hget', Option.some_inj] at hget
    exact Prod.ext (hat.symm.trans (hget ▸ hat')) heq
  · rw [List.mem_map, List.mem_filter, mem_keys, decide_eq_true_iff]
    constructor
    · rintro ⟨e, he, rfl⟩
      obtain ⟨hp, d, hget, -⟩ := hmem e he
      exact ⟨⟨d, hget⟩, hp⟩
    · rintro ⟨⟨d, hget⟩, hp⟩
      exact ⟨toLex (d.discovered_at, g), (mem_names h).mpr ⟨hp, d, hget, rfl⟩, rfl⟩

theorem size_setOf (p : GuidPrefix) : (t.setOf p).1.size = (t.endpointsOf p).length := by
  rw [size_eq_length_keys, ← (names_perm h p).length_eq, List.length_map]

omit h in
theorem onParticipantLost_eq (t : EndpointTable D) (p : GuidPrefix) :
    t.onParticipantLost p =
      ({ t.dropSet p with
          entries := (t.setOf p).1.keys.foldl (fun m e => m.erase (ofLex e).2) t.entries },
        (t.setOf p).1.size) := by
  unfold onParticipantLost
  split
  · next hnone =>
    have hset : (t.setOf p).1 = .empty := congrArg (·.getD .empty) hnone
    rw [hset]
    simp [dropSet, erase_of_none hnone, keys, SortedMap.empty, size]
  · next set hset =>
    have hsetOf : (t.setOf p).1 = set := congrArg (·.getD .empty) hset
    rw [hsetOf]

theorem get?_onParticipantLost (p : GuidPrefix) (g : Guid) :
    (t.onParticipantLost p).1.entries.get? g =
      if g.guidPrefix = p then none else t.entries.get? g := by
  have hnamed := (names_perm h p).mem_iff (a := g)
  rw [endpointsOf, List.mem_filter, mem_keys, decide_eq_true_iff] at hnamed
  rw [onParticipantLost_eq, get?_eraseAll]
  by_cases hp : g.guidPrefix = p
  · cases hget : t.entries.get? g with
    | none => simp
    | some d => rw [if_pos (hnamed.mpr ⟨⟨d, hget⟩, hp⟩), if_pos hp]
  · rw [if_neg fun hmem => hp (hnamed.mp hmem).2, if_neg hp]

theorem inStep_onParticipantLost (p : GuidPrefix) : (t.onParticipantLost p).1.InStep cap := by
  have hget := get?_onParticipantLost h p
  have hsets := t.setOf_dropSet p
  rw [onParticipantLost_eq] at hget ⊢
  refine ⟨h.capped, fun q => ?_, fun q => (congrArg SortedMap.size (hsets q)).trans_le ?_⟩
  · refine (congrArg names (hsets q)).trans (Set.ext fun e => ?_)
    show _ ↔ Option.map _ _ = _ ∧ e.2.guidPrefix = q
    rw [hget]
    split
    · next hq =>
      refine ⟨nofun, fun hat => ?_⟩
      rw [if_pos (hat.2.trans hq)] at hat
      cases hat.1
    · next hq =>
      rw [h.listed]
      refine and_congr_left fun hp => ?_
      rw [if_neg (hp ▸ hq)]
      rfl
  · split
    · exact Nat.zero_le _
    · exact h.bounded q

variable [Endpoint D]

theorem inStep_insert (data : D) (now : Nat) : (t.insert data now).1.InStep cap := by
  unfold insert
  dsimp only
  cases hget : t.entries.get? (Endpoint.key data) with
  | some existing => exact inStep_update h hget data now
  | none =>
    obtain ⟨hstep, hroom⟩ := inStep_makeRoom h (Endpoint.key data).guidPrefix
    exact inStep_add hstep (makeRoom_new _ hget) hroom data now

theorem inStep_insertInProcess (data : D) (now : Nat) (sequence : Int) :
    (t.insertInProcess data now sequence).1.InStep cap := by
  have hinsert := inStep_insert h data now
  unfold insertInProcess
  dsimp only
  split
  · exact hinsert
  · next entry hget =>
    refine ⟨hinsert.capped, fun p => (hinsert.listed p).trans ?_, hinsert.bounded⟩
    rw [announced_insert, announced_erase hget,
      Set.sdiff_union_of_subset (Set.singleton_subset_iff.mpr (mem_announced hget).1)]

theorem inStep_step (call : Call D) : (t.step call).InStep cap := by
  cases call with
  | insert data now => exact inStep_insert h data now
  | insertAnnounced data now sequence =>
    simp only [step, insertAnnounced]
    split
    · exact h
    · exact inStep_insert h data now
  | insertInProcess data now sequence => exact inStep_insertInProcess h data now sequence
  | remove key => exact inStep_remove h key
  | onParticipantLost p => exact inStep_onParticipantLost h p

theorem inStep_foldl (calls : List (Call D)) : (calls.foldl step t).InStep cap := by
  induction calls generalizing t with
  | nil => exact h
  | cons call calls ih => exact ih (inStep_step h call)

end Operations

variable [Endpoint D]

/-- The table after a sequence of calls. -/
def run (cap : Nat) (calls : List (Call D)) : EndpointTable D := calls.foldl step (new cap)

section Runs

variable (cap : Nat) (calls : List (Call D))

/-- The index of a participant lists its entries by age, at most `max cap 1` of them. -/
theorem index_in_step (p : GuidPrefix) :
    (∀ now g, toLex (now, g) ∈ ((run cap calls).setOf p).1.keys ↔ g.guidPrefix = p ∧
      ∃ d, (run cap calls).entries.get? g = some d ∧ d.discovered_at = now) ∧
    (((run cap calls).setOf p).1.keys.map fun e => (ofLex e).2).Perm
      ((run cap calls).endpointsOf p) ∧
    ((run cap calls).endpointsOf p).length ≤ max cap 1 := by
  have h : (run cap calls).InStep cap := inStep_foldl inStep_new calls
  exact ⟨fun _ _ => mem_names h, names_perm h p, size_setOf h p ▸ h.bounded p⟩

/-- A lost participant takes its own entries along and no others. -/
theorem participant_lost_exactly (p : GuidPrefix) :
    (∀ g, ((run cap calls).onParticipantLost p).1.entries.get? g =
      if g.guidPrefix = p then none else (run cap calls).entries.get? g) ∧
    ((run cap calls).onParticipantLost p).2 = ((run cap calls).endpointsOf p).length := by
  have h : (run cap calls).InStep cap := inStep_foldl inStep_new calls
  exact ⟨get?_onParticipantLost h p, by rw [onParticipantLost_eq, size_setOf h]⟩

/-- A new endpoint of a full participant displaces the oldest of that participant only. -/
theorem oldest_given_up (data : D) (now : Nat)
    (hnew : (run cap calls).entries.get? (Endpoint.key data) = none)
    (hfull : max cap 1 ≤ ((run cap calls).endpointsOf (Endpoint.key data).guidPrefix).length) :
    ∃ oldest d, (run cap calls).entries.get? oldest = some d ∧
      oldest.guidPrefix = (Endpoint.key data).guidPrefix ∧
      (∀ g d', (run cap calls).entries.get? g = some d' →
        g.guidPrefix = (Endpoint.key data).guidPrefix →
        toLex (d.discovered_at, oldest) ≤ toLex (d'.discovered_at, g)) ∧
      ((run cap calls).insert data now).1.entries =
        ((run cap calls).entries.erase oldest).insert (Endpoint.key data) ⟨data, now, none⟩ ∧
      ((run cap calls).insert data now).2 = (true, true) := by
  have h : (run cap calls).InStep cap := inStep_foldl inStep_new calls
  generalize run cap calls = t at *
  rw [← size_setOf h] at hfull
  rcases t.makeRoom_spec (Endpoint.key data).guidPrefix with
    ⟨-, hroom⟩ | ⟨⟨at_, oldest⟩, hmem, hleast, heq⟩
  · rw [h.capped] at hroom
    omega
  · obtain ⟨hp, d, hget, rfl⟩ := (mem_names h).mp hmem
    refine ⟨oldest, d, hget, hp, fun g d' hget' hp' => ?_, ?_⟩
    · exact hleast (d'.discovered_at, g) ((mem_names h).mpr ⟨hp', d', hget', rfl⟩)
    · unfold insert
      simp only [hnew, heq]
      exact ⟨rfl, trivial⟩

end Runs

def writerAt (n kind : UInt8) : Guid := ⟨⟨Vector.replicate 12 0⟩, ⟨#v[0, 0, n, kind]⟩⟩

instance : Endpoint Guid := ⟨id⟩

/-- Announced at the same time, the writer without a key goes before the one with a key. -/
def twoWriters : List (Call Guid) := [.insert (writerAt 1 2) 5, .insert (writerAt 1 3) 5]

theorem writer_without_key_given_up :
    ∃ oldest d, (run 2 twoWriters).entries.get? oldest = some d ∧
      toLex (d.discovered_at, oldest) ≤ toLex (5, writerAt 1 3) ∧
      toLex (5, writerAt 1 3) < toLex (5, writerAt 1 2) ∧
      ((run 2 twoWriters).insert (writerAt 2 2) 6).2 = (true, true) := by
  obtain ⟨oldest, d, hget, -, hleast, -, hgone⟩ :=
    oldest_given_up 2 twoWriters (writerAt 2 2) 6 (by decide) (by decide)
  exact ⟨oldest, d, hget, hleast (writerAt 1 3) ⟨writerAt 1 3, 5, none⟩ (by decide) rfl,
    by decide, hgone⟩

end EndpointTable
end ZeroDds.Discovery
