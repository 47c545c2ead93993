/-
The cache of discovered endpoints.

Publications and subscriptions are kept alike, so one table serves both: the entries by endpoint
GUID, and beside them for each participant the GUIDs of its entries by the time they were last
announced, from which the oldest is given up when the participant has too many.
-/
import Mathlib.Data.Prod.Lex
import ZeroDds.Lib.SortedMap
import ZeroDds.Rtps.WireTypes

namespace ZeroDds.Discovery

open SortedMap Rtps

def octetOrder (b : Octets) : List Nat := b.map UInt8.toNat

theorem octetOrder_injective : Function.Injective octetOrder :=
  List.map_injective_iff.mpr fun _ _ h => UInt8.toNat_inj.mp h

theorem prefixOrder_injective :
    Function.Injective fun p : GuidPrefix => octetOrder p.octets.toList := by
  rintro ⟨a⟩ ⟨b⟩ h
  exact congrArg GuidPrefix.mk (Vector.toList_inj.mp (octetOrder_injective h))

/-- The octets of the variants of `EntityKind` but `Other`, in the order of declaration. -/
def entityKinds : Octets :=
  [0x00, 0x03, 0x02, 0x04, 0x07, 0xC3, 0xC2, 0xC4, 0xC7, 0xC1, 0xC0, 0x08, 0xC8, 0x09, 0xC9]

/-- The derived order: prefix, key, then the kind by its place among the variants, with the
octets that only `Other` holds behind them. -/
def guidOrder (g : Guid) : List Nat :=
  octetOrder g.guidPrefix.octets.toList ++ (octetOrder (g.entityId.octets.toList.take 3) ++
    entityKinds.idxOf g.entityId.octets[3] :: octetOrder (g.entityId.octets.toList.drop 3))

theorem guidOrder_injective : Function.Injective guidOrder := by
  rintro ⟨p, ⟨e⟩⟩ ⟨p', ⟨e'⟩⟩ h
  obtain ⟨hp, h⟩ := List.append_inj h (by simp [octetOrder])
  obtain ⟨hkey, h⟩ := List.append_inj h (by simp [octetOrder])
  have hkind := (List.cons.inj h).2
  have hid : e.toList = e'.toList := by
    rw [← List.take_append_drop 3 e.toList, octetOrder_injective hkey,
      octetOrder_injective hkind]
    exact List.take_append_drop 3 e'.toList
  exact congrArg₂ Guid.mk (prefixOrder_injective hp) (congrArg _ (Vector.toList_inj.mp hid))

instance : LinearOrder GuidPrefix := LinearOrder.lift' _ prefixOrder_injective

instance : LinearOrder Guid := LinearOrder.lift' _ guidOrder_injective

/-- An announcement names the endpoint it is about. -/
class Endpoint (D : Type) where
  key : D → Guid

structure Discovered (D : Type) where
  data : D
  discovered_at : Nat
  /-- The number of the latest announcement an in-process peer handed over directly. -/
  in_process : Option Int
deriving DecidableEq

def IndexSet (p : GuidPrefix) : Type :=
  { set : SortedSet (Nat ×ₗ Guid) // ∀ e ∈ set.keys, (ofLex e).2.guidPrefix = p }

namespace IndexSet

variable {p : GuidPrefix}

def empty : IndexSet p := ⟨.empty, nofun⟩

def insert (set : IndexSet p) (now : Nat) (key : Guid) (hkey : key.guidPrefix = p) : IndexSet p :=
  ⟨set.1.insert (toLex (now, key)) (), by
    intro e he
    obtain ⟨u, hget⟩ := mem_keys.mp he
    rw [get?_insert] at hget
    split at hget
    · next heq => rw [heq]; exact hkey
    · exact set.2 e (mem_keys.mpr ⟨u, hget⟩)⟩

def erase (set : IndexSet p) (entry : Nat × Guid) : IndexSet p :=
  ⟨set.1.erase (toLex entry), by
    intro e he
    obtain ⟨u, hget⟩ := mem_keys.mp he
    rw [get?_erase] at hget
    split at hget
    · cases hget
    · exact set.2 e (mem_keys.mpr ⟨u, hget⟩)⟩

end IndexSet

structure EndpointTable (D : Type) where
  entries : SortedMap Guid (Discovered D)
  index : SortedMap GuidPrefix (SortedSet (Nat ×ₗ Guid))
  cap : Nat
  indexed : ∀ p set, index.get? p = some set → ∀ e ∈ set.keys, (ofLex e).2.guidPrefix = p

namespace EndpointTable

variable {D : Type}

def new (cap : Nat) : EndpointTable D := ⟨.empty, .empty, cap, nofun⟩

variable (t : EndpointTable D) (p : GuidPrefix)

def setOf : IndexSet p :=
  ⟨(t.index.get? p).getD .empty, by
    cases h : t.index.get? p with
    | none => exact nofun
    | some set => exact t.indexed p set h⟩

def putSet (set : IndexSet p) : EndpointTable D :=
  { t with
    index := t.index.insert p set.1
    indexed := by
      intro q set' hget
      rw [get?_insert] at hget
      split at hget
      · next heq =>
        cases hget
        rw [heq]
        exact set.2
      · exact t.indexed q set' hget }

def dropSet : EndpointTable D :=
  { t with
    index := t.index.erase p
    indexed := by
      intro q set hget
      rw [get?_erase] at hget
      split at hget
      · cases hget
      · exact t.indexed q set hget }

/-- A known endpoint is announced again: its entry and its place in the index move on. -/
def update (key : Guid) (existing : Discovered D) (data : D) (now : Nat) : EndpointTable D :=
  let t :=
    if t.index.contains key.guidPrefix then
      t.putSet key.guidPrefix
        (((t.setOf key.guidPrefix).erase (existing.discovered_at, key)).insert now key rfl)
    else t
  { t with entries := t.entries.insert key { existing with data, discovered_at := now } }

def makeRoom : EndpointTable D × Bool :=
  let set := t.setOf p
  if set.1.size ≥ t.cap then
    match set.1.minKey? with
    | some oldest =>
      ({ t.putSet p (set.erase (ofLex oldest)) with
          entries := t.entries.erase (ofLex oldest).2 }, true)
    | none => (t, false)
  else (t, false)

def add (key : Guid) (data : D) (now : Nat) : EndpointTable D :=
  { t.putSet key.guidPrefix ((t.setOf key.guidPrefix).insert now key rfl) with
    entries := t.entries.insert key ⟨data, now, none⟩ }

variable [Endpoint D] (t : EndpointTable D)

/-- `insert_publication` and `insert_subscription`: the table, whether the endpoint is new, and
whether an entry was given up for it. -/
def insert (data : D) (now : Nat) : EndpointTable D × Bool × Bool :=
  let key := Endpoint.key data
  match t.entries.get? key with
  | some existing => (t.update key existing data now, false, false)
  | none =>
    let (t, evicted) := t.makeRoom key.guidPrefix
    (t.add key data now, true, evicted)

def handedNewer (data : D) (sequence : Int) : Bool :=
  ((t.entries.get? (Endpoint.key data)).bind Discovered.in_process).any fun handed =>
    sequence < handed

/-- `insert_publication_announced` and its counterpart; `none` for an announcement left out as
older than the one handed over directly. -/
def insertAnnounced (data : D) (now : Nat) (sequence : Int) :
    Option (EndpointTable D × Bool × Bool) :=
  if t.handedNewer data sequence then none else some (t.insert data now)

omit [Endpoint D] in
def remove (key : Guid) : EndpointTable D :=
  match t.entries.get? key with
  | none => t
  | some removed =>
    let t := { t with entries := t.entries.erase key }
    if t.index.contains key.guidPrefix then
      let set := (t.setOf key.guidPrefix).erase (removed.discovered_at, key)
      if set.1.isEmpty then t.dropSet key.guidPrefix else t.putSet key.guidPrefix set
    else t

/-! ### What the operations do to the entries -/

omit [Endpoint D] in
theorem entries_update (key : Guid) (existing : Discovered D) (data : D) (now : Nat) :
    (t.update key existing data now).entries =
      t.entries.insert key { existing with data, discovered_at := now } := by
  unfold update
  split <;> rfl

omit [Endpoint D] in
theorem makeRoom_cases (p : GuidPrefix) :
    t.makeRoom p = (t, false) ∨
      ∃ oldest : Guid, oldest.guidPrefix = p ∧ (t.makeRoom p).2 = true ∧
        (t.makeRoom p).1.entries = t.entries.erase oldest := by
  unfold makeRoom
  dsimp only
  split
  · cases hmin : (t.setOf p).1.minKey? with
    | none => exact .inl rfl
    | some oldest =>
      refine .inr ⟨(ofLex oldest).2, ?_, rfl, rfl⟩
      have hget := (minKey?_eq_some.mp hmin).1
      exact (t.setOf p).2 oldest (mem_keys.mpr hget)
  · exact .inl rfl

theorem entries_insert {t : EndpointTable D} {data : D} {now : Nat}
    (hkept : (t.insert data now).2.2 = false) :
    (t.insert data now).1.entries =
      t.entries.insert (Endpoint.key data)
        ⟨data, now, (t.entries.get? (Endpoint.key data)).bind Discovered.in_process⟩ := by
  unfold insert at hkept ⊢
  dsimp only at hkept ⊢
  cases hget : t.entries.get? (Endpoint.key data) with
  | some existing =>
    exact entries_update t _ existing data now
  | none =>
    simp only [hget] at hkept ⊢
    rcases t.makeRoom_cases (Endpoint.key data).guidPrefix with heq | ⟨_, -, hevicted, -⟩
    · rw [heq]
      rfl
    · rw [hevicted] at hkept
      cases hkept

theorem insert_other (data : D) (now : Nat) {g : Guid}
    (hg : g.guidPrefix ≠ (Endpoint.key data).guidPrefix) :
    (t.insert data now).1.entries.get? g = t.entries.get? g := by
  have hne : g ≠ Endpoint.key data := fun heq => hg (congrArg Guid.guidPrefix heq)
  unfold insert
  dsimp only
  cases hget : t.entries.get? (Endpoint.key data) with
  | some existing =>
    rw [entries_update, get?_insert, if_neg hne]
  | none =>
    rcases t.makeRoom_cases (Endpoint.key data).guidPrefix with heq | ⟨oldest, hold, -, hentries⟩
    · rw [heq]
      exact (get?_insert _ _ _ _).trans (if_neg hne)
    · show ((t.makeRoom (Endpoint.key data).guidPrefix).1.entries.insert (Endpoint.key data)
        ⟨data, now, none⟩).get? g = t.entries.get? g
      have hne' : g ≠ oldest := fun heq => hg (heq ▸ hold)
      rw [get?_insert, if_neg hne, hentries, get?_erase, if_neg hne']

omit [Endpoint D] in
theorem entries_remove (key : Guid) : (t.remove key).entries = t.entries.erase key := by
  unfold remove
  split
  · next hget =>
    refine ext_get? fun g => ?_
    rw [get?_erase]
    split
    · next heq => rw [heq, hget]
    · rfl
  · next removed hget =>
    dsimp only
    split
    · split <;> rfl
    · rfl

end EndpointTable

end ZeroDds.Discovery
