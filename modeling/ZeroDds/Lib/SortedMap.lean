/-
Finite maps kept in key order.

A `SortedMap K V` is the list of its entries together with the proof that the keys ascend strictly,
so a map with a repeated or misplaced key cannot be built and two maps with the same lookups are
equal.
-/
import Mathlib.Algebra.Ring.Nat
import Mathlib.Data.List.Sort

namespace ZeroDds

structure SortedMap (K V : Type) [LinearOrder K] where
  entries : List (K × V)
  sorted : entries.Pairwise (fun a b => a.1 < b.1)

abbrev SortedSet (K : Type) [LinearOrder K] := SortedMap K Unit

namespace SortedMap

variable {K V : Type} [LinearOrder K]

instance [DecidableEq V] : DecidableEq (SortedMap K V) := fun a b =>
  decidable_of_iff (a.entries = b.entries) (by cases a; cases b; simp)

def empty : SortedMap K V := ⟨[], List.Pairwise.nil⟩

variable (m : SortedMap K V)

def keys : List K := m.entries.map Prod.fst

def values : List V := m.entries.map Prod.snd

def size : Nat := m.entries.length

def isEmpty (m : SortedMap K V) : Bool := m.entries.isEmpty

def get? (k : K) : Option V :=
  (m.entries.find? (fun e => e.1 = k)).map Prod.snd

def contains (k : K) : Bool := (m.get? k).isSome

def first? : Option (K × V) := m.entries.head?

def last? : Option (K × V) := m.entries.getLast?

def minKey? : Option K := m.first?.map Prod.fst

def maxKey? : Option K := m.last?.map Prod.fst

def insertEntry (k : K) (v : V) : List (K × V) → List (K × V)
  | [] => [(k, v)]
  | e :: rest =>
    if k < e.1 then (k, v) :: e :: rest
    else if k = e.1 then (k, v) :: rest
    else e :: insertEntry k v rest

variable {k : K} {v : V} {l : List (K × V)}

theorem fst_mem_insertEntry {e : K × V} (h : e ∈ insertEntry k v l) : e = (k, v) ∨ e ∈ l := by
  induction l with
  | nil => exact Or.inl (by simpa [insertEntry] using h)
  | cons a rest ih =>
    simp only [insertEntry] at h
    split at h
    · simpa using h
    · split at h
      · rcases List.mem_cons.mp h with h | h
        · exact Or.inl h
        · exact Or.inr (List.mem_cons_of_mem a h)
      · rcases List.mem_cons.mp h with h | h
        · exact Or.inr (h ▸ List.mem_cons_self)
        · exact (ih h).imp_right (List.mem_cons_of_mem a)

theorem insertEntry_sorted (k : K) (v : V) (h : l.Pairwise (fun a b => a.1 < b.1)) :
    (insertEntry k v l).Pairwise (fun a b => a.1 < b.1) := by
  induction l with
  | nil => simp [insertEntry]
  | cons a rest ih =>
    have hrest := (List.pairwise_cons.mp h).1
    have htail := h.of_cons
    simp only [insertEntry]
    split
    · next hlt =>
      refine List.pairwise_cons.mpr ⟨fun e he => ?_, h⟩
      rcases List.mem_cons.mp he with rfl | he
      · exact hlt
      · exact lt_trans hlt (hrest _ he)
    · next hge =>
      split
      · next heq => exact List.pairwise_cons.mpr ⟨fun e he => heq ▸ hrest e he, htail⟩
      · next hne =>
        refine List.pairwise_cons.mpr ⟨fun e he => ?_, ih htail⟩
        rcases fst_mem_insertEntry he with rfl | he
        · exact lt_of_le_of_ne (not_lt.mp hge) (Ne.symm hne)
        · exact hrest e he

def insert (m : SortedMap K V) (k : K) (v : V) : SortedMap K V :=
  ⟨insertEntry k v m.entries, insertEntry_sorted k v m.sorted⟩

def filter (m : SortedMap K V) (p : K → V → Bool) : SortedMap K V :=
  ⟨m.entries.filter (fun e => p e.1 e.2), m.sorted.filter _⟩

def erase (m : SortedMap K V) (k : K) : SortedMap K V := m.filter (fun k' _ => k' ≠ k)

def dropFirst (m : SortedMap K V) (n : Nat) : SortedMap K V :=
  ⟨m.entries.drop n, m.sorted.sublist (List.drop_sublist _ _)⟩

/-! ### Lookup and entries -/

variable {m m' : SortedMap K V}

theorem eq_of_mem_of_mem {v' : V} (h : (k, v) ∈ m.entries) (h' : (k, v') ∈ m.entries) : v = v' := by
  obtain ⟨l, hs⟩ := m
  induction l with
  | nil => simp at h
  | cons a rest ih =>
    have hrest := (List.pairwise_cons.mp hs).1
    rcases List.mem_cons.mp h with ha | h <;> rcases List.mem_cons.mp h' with ha' | h'
    · exact (Prod.mk.inj (ha.trans ha'.symm)).2
    · exact absurd (ha ▸ hrest _ h') (lt_irrefl _)
    · exact absurd (ha' ▸ hrest _ h) (lt_irrefl _)
    · exact ih hs.of_cons h h'

theorem get?_eq_some : m.get? k = some v ↔ (k, v) ∈ m.entries := by
  constructor
  · intro h
    obtain ⟨e, he, rfl⟩ := Option.map_eq_some_iff.mp h
    have hk : e.1 = k := by simpa using List.find?_some he
    exact hk ▸ List.mem_of_find?_eq_some he
  · intro h
    cases hf : m.entries.find? (fun e => e.1 = k) with
    | none => simpa using List.find?_eq_none.mp hf (k, v) h
    | some e =>
      have hk : e.1 = k := by simpa using List.find?_some hf
      have hm : (k, e.2) ∈ m.entries := hk ▸ List.mem_of_find?_eq_some hf
      simp [get?, hf, eq_of_mem_of_mem hm h]

theorem get?_eq_none : m.get? k = none ↔ ∀ v, (k, v) ∉ m.entries := by
  rw [Option.eq_none_iff_forall_ne_some]
  exact forall_congr' fun v => not_congr get?_eq_some

theorem contains_iff : m.contains k = true ↔ ∃ v, m.get? k = some v := by
  rw [contains, Option.isSome_iff_exists]

theorem mem_keys : k ∈ m.keys ↔ ∃ v, m.get? k = some v := by
  simp only [keys, List.mem_map, get?_eq_some]
  constructor
  · rintro ⟨⟨k', v⟩, h, rfl⟩
    exact ⟨v, h⟩
  · rintro ⟨v, h⟩
    exact ⟨(k, v), h, rfl⟩

theorem mem_values : v ∈ m.values ↔ ∃ k, m.get? k = some v := by
  simp only [values, List.mem_map, get?_eq_some]
  constructor
  · rintro ⟨⟨k, v'⟩, h, rfl⟩
    exact ⟨k, h⟩
  · rintro ⟨k, h⟩
    exact ⟨(k, v), h, rfl⟩

theorem keys_sorted (m : SortedMap K V) : m.keys.Pairwise (· < ·) :=
  List.pairwise_map.mpr m.sorted

theorem keys_map_get? (m : SortedMap K V) : m.keys.map m.get? = m.values.map some := by
  rw [keys, values, List.map_map, List.map_map]
  exact List.map_congr_left fun e he => get?_eq_some.mpr he

theorem keys_nodup (m : SortedMap K V) : m.keys.Nodup :=
  m.keys_sorted.imp fun h => ne_of_lt h

@[simp] theorem get?_empty (k : K) : (empty : SortedMap K V).get? k = none := rfl

theorem isEmpty_iff : m.isEmpty = true ↔ ∀ k, m.get? k = none := by
  rw [isEmpty, List.isEmpty_iff]
  constructor
  · intro h k
    rw [get?_eq_none]
    simp [h]
  · intro h
    refine List.eq_nil_iff_forall_not_mem.mpr fun e he => ?_
    exact get?_eq_none.mp (h e.1) e.2 he

theorem mem_insertEntry_self (k : K) (v : V) (l : List (K × V)) : (k, v) ∈ insertEntry k v l := by
  induction l with
  | nil => simp [insertEntry]
  | cons a rest ih =>
    simp only [insertEntry]
    split
    · exact List.mem_cons_self
    · split
      · exact List.mem_cons_self
      · exact List.mem_cons_of_mem a ih

theorem mem_insertEntry_of_ne {k' : K} {v' : V} (hne : k' ≠ k) :
    (k', v') ∈ insertEntry k v l ↔ (k', v') ∈ l := by
  constructor
  · intro h
    rcases fst_mem_insertEntry h with h | h
    · exact absurd (Prod.mk.inj h).1 hne
    · exact h
  · intro h
    induction l with
    | nil => simp at h
    | cons a rest ih =>
      simp only [insertEntry]
      split
      · exact List.mem_cons_of_mem _ h
      · split
        · next heq =>
          rcases List.mem_cons.mp h with h | h
          · exact absurd (heq ▸ congrArg Prod.fst h) hne
          · exact List.mem_cons_of_mem _ h
        · rcases List.mem_cons.mp h with h | h
          · exact h ▸ List.mem_cons_self
          · exact List.mem_cons_of_mem a (ih h)

section

variable (m : SortedMap K V)

theorem get?_insert (k k' : K) (v : V) :
    (m.insert k v).get? k' = if k' = k then some v else m.get? k' := by
  split
  · next h => exact h ▸ get?_eq_some.mpr (mem_insertEntry_self _ v m.entries)
  · next h =>
    refine Option.ext fun w => ?_
    rw [get?_eq_some, get?_eq_some]
    exact mem_insertEntry_of_ne h

theorem get?_filter (p : K → V → Bool) (k : K) :
    (m.filter p).get? k = (m.get? k).filter (p k) := by
  refine Option.ext fun v => ?_
  rw [get?_eq_some, Option.filter_eq_some_iff, get?_eq_some]
  exact List.mem_filter

theorem get?_erase (k k' : K) :
    (m.erase k).get? k' = if k' = k then none else m.get? k' := by
  rw [erase, get?_filter]
  split
  · next h => subst h; cases m.get? k' <;> simp
  · next h => cases m.get? k' <;> simp [h]

@[simp] theorem get?_insert_self (k : K) (v : V) :
    (m.insert k v).get? k = some v := by rw [get?_insert, if_pos rfl]

@[simp] theorem get?_erase_self (k : K) : (m.erase k).get? k = none := by
  rw [get?_erase, if_pos rfl]

end

theorem ext_get? (h : ∀ k, m.get? k = m'.get? k) : m = m' := by
  obtain ⟨l, hs⟩ := m
  obtain ⟨l', hs'⟩ := m'
  have hmem : ∀ e, e ∈ l ↔ e ∈ l' := fun e => by
    have := h e.1
    rw [← get?_eq_some (m := ⟨l, hs⟩), ← get?_eq_some (m := ⟨l', hs'⟩), this]
  have nodup : ∀ {l : List (K × V)}, l.Pairwise (fun a b => a.1 < b.1) → l.Nodup :=
    fun hl => hl.imp fun hab e => absurd (e ▸ hab) (lt_irrefl _)
  have hperm : l.Perm l' := (List.perm_ext_iff_of_nodup (nodup hs) (nodup hs')).mpr hmem
  have : l = l' := hperm.eq_of_pairwise
    (fun a b _ _ hab hba => absurd (lt_trans hab hba) (lt_irrefl _)) hs hs'
  subst this
  rfl

def Keeps (m m' : SortedMap K V) : Prop := ∀ k v, m.get? k = some v → m'.get? k = some v

theorem Keeps.refl (m : SortedMap K V) : m.Keeps m := fun _ _ h => h

theorem Keeps.trans {m'' : SortedMap K V} (h : m.Keeps m') (h' : m'.Keeps m'') : m.Keeps m'' :=
  fun k v hv => h' k v (h k v hv)

theorem keeps_of_between {m'' : SortedMap K V} (hdom : ∀ k v, m.get? k = some v → m'.contains k)
    (h' : m'.Keeps m'') (h : m.Keeps m'') : m.Keeps m' := by
  intro k v hv
  obtain ⟨v', hv'⟩ := contains_iff.mp (hdom k v hv)
  have heq : v' = v := Option.some.inj ((h' k v' hv').symm.trans (h k v hv))
  rw [hv', heq]

theorem minKey?_eq_some :
    m.minKey? = some k ↔ (∃ v, m.get? k = some v) ∧ ∀ k' v, m.get? k' = some v → k ≤ k' := by
  simp only [get?_eq_some]
  obtain ⟨l, hs⟩ := m
  cases l with
  | nil => simp [minKey?, first?]
  | cons a rest =>
    have hrest := (List.pairwise_cons.mp hs).1
    have hle : ∀ k' v, (k', v) ∈ a :: rest → a.1 ≤ k' := fun k' v h => by
      rcases List.mem_cons.mp h with h | h
      · exact le_of_eq (congrArg Prod.fst h).symm
      · exact le_of_lt (hrest _ h)
    constructor
    · intro h
      have hk : a.1 = k := by simpa [minKey?, first?] using h
      subst hk
      exact ⟨⟨a.2, List.mem_cons_self⟩, hle⟩
    · rintro ⟨⟨v, hv⟩, hmin⟩
      have : a.1 = k := le_antisymm (hle k v hv) (hmin a.1 a.2 List.mem_cons_self)
      simp [minKey?, first?, this]

theorem minKey?_eq_none : m.minKey? = none ↔ ∀ k, m.get? k = none := by
  rw [← isEmpty_iff]
  simp [minKey?, first?, isEmpty]

theorem maxKey?_eq_some :
    m.maxKey? = some k ↔ (∃ v, m.get? k = some v) ∧ ∀ k' v, m.get? k' = some v → k' ≤ k := by
  simp only [get?_eq_some]
  have key : ∀ a, m.entries.getLast? = some a →
      a ∈ m.entries ∧ ∀ k' v, (k', v) ∈ m.entries → k' ≤ a.1 := fun a ha => by
    obtain ⟨init, hl⟩ := List.getLast?_eq_some_iff.mp ha
    have hs := m.sorted
    rw [hl] at hs ⊢
    refine ⟨by simp, fun k' v h => ?_⟩
    rcases List.mem_append.mp h with h | h
    · exact le_of_lt ((List.pairwise_append.mp hs).2.2 _ h a (by simp))
    · exact le_of_eq (by simpa using congrArg Prod.fst (List.mem_singleton.mp h))
  constructor
  · intro h
    obtain ⟨a, ha, rfl⟩ := Option.map_eq_some_iff.mp h
    exact ⟨⟨a.2, (key a ha).1⟩, (key a ha).2⟩
  · rintro ⟨⟨v, hv⟩, hmax⟩
    cases ha : m.entries.getLast? with
    | none => rw [List.getLast?_eq_none_iff.mp ha] at hv; simp at hv
    | some a =>
      have : a.1 = k := le_antisymm (hmax a.1 a.2 (key a ha).1) ((key a ha).2 k v hv)
      simp [maxKey?, last?, ha, this]

theorem maxKey?_eq_none : m.maxKey? = none ↔ ∀ k, m.get? k = none := by
  rw [← isEmpty_iff]
  simp [maxKey?, last?, isEmpty]

theorem size_eq_length_keys (m : SortedMap K V) : m.size = m.keys.length := by
  simp [size, keys]

theorem length_insertEntry (h : ∀ w, (k, w) ∉ l) : (insertEntry k v l).length = l.length + 1 := by
  induction l with
  | nil => rfl
  | cons a rest ih =>
    have hne : k ≠ a.1 := fun e => h a.2 (e ▸ List.mem_cons_self)
    simp only [insertEntry, if_neg hne]
    split
    · rfl
    · rw [List.length_cons, ih fun w hw => h w (List.mem_cons_of_mem a hw), List.length_cons]

theorem size_insert_of_none (h : m.get? k = none) : (m.insert k v).size = m.size + 1 :=
  length_insertEntry (get?_eq_none.mp h)

theorem insertEntry_append_of_above {l' : List (K × V)} (h : ∀ e ∈ l, e.1 < k) :
    insertEntry k v (l ++ l') = l ++ insertEntry k v l' := by
  induction l with
  | nil => rfl
  | cons e rest ih =>
    have hlt := h e List.mem_cons_self
    rw [List.cons_append, insertEntry, if_neg (not_lt_of_gt hlt), if_neg hlt.ne',
      ih fun e' he' => h e' (List.mem_cons_of_mem _ he')]
    rfl

theorem insertEntry_of_below (h : ∀ e ∈ l, k < e.1) : insertEntry k v l = (k, v) :: l := by
  cases l with
  | nil => rfl
  | cons e rest => rw [insertEntry, if_pos (h e List.mem_cons_self)]

variable {w : V}

theorem insertEntry_append_cons {l' : List (K × V)} (h : ∀ e ∈ l, e.1 < k) :
    insertEntry k v (l ++ (k, w) :: l') = l ++ (k, v) :: l' := by
  rw [insertEntry_append_of_above h, insertEntry, if_neg (lt_irrefl k), if_pos rfl]

theorem insertEntry_of_above (h : ∀ e ∈ l, e.1 < k) : insertEntry k v l = l ++ [(k, v)] := by
  have happend : insertEntry k v (l ++ []) = l ++ insertEntry k v [] :=
    insertEntry_append_of_above h
  rw [List.append_nil] at happend
  exact happend

theorem length_insertEntry_of_mem (hs : l.Pairwise (fun a b => a.1 < b.1)) (h : (k, w) ∈ l) :
    (insertEntry k v l).length = l.length := by
  induction l with
  | nil => cases h
  | cons a rest ih =>
    have hrest := (List.pairwise_cons.mp hs).1
    rcases List.mem_cons.mp h with rfl | h
    · simp [insertEntry]
    · have hlt : a.1 < k := hrest _ h
      simp only [insertEntry, if_neg (not_lt_of_gt hlt), if_neg (ne_of_gt hlt), List.length_cons]
      rw [ih hs.of_cons h]

theorem size_insert_of_some (h : m.get? k = some w) : (m.insert k v).size = m.size :=
  length_insertEntry_of_mem m.sorted (get?_eq_some.mp h)

theorem size_le_size_insert (m : SortedMap K V) (k : K) (v : V) : m.size ≤ (m.insert k v).size := by
  cases hget : m.get? k with
  | none =>
    rw [size_insert_of_none hget]
    exact Nat.le_succ _
  | some w => exact Nat.le_of_eq (size_insert_of_some hget).symm

@[simp] theorem size_dropFirst (m : SortedMap K V) (n : Nat) : (m.dropFirst n).size = m.size - n :=
  List.length_drop

theorem sum_insertEntry (f : V → Nat) (hs : l.Pairwise (fun a b => a.1 < b.1)) :
    ((insertEntry k v l).map fun e => f e.2).sum +
        (((l.find? fun e => e.1 = k).map Prod.snd).map f).getD 0 =
      (l.map fun e => f e.2).sum + f v := by
  induction l with
  | nil => simp [insertEntry]
  | cons a rest ih =>
    have hrest := (List.pairwise_cons.mp hs).1
    have hnone : k ≤ a.1 → (rest.find? fun e => e.1 = k) = none := by
      intro hle
      refine List.find?_eq_none.mpr fun e he => ?_
      simpa using ne_of_gt (lt_of_le_of_lt hle (hrest e he))
    simp only [insertEntry]
    split
    · next hlt =>
      have hne : a.1 ≠ k := ne_of_gt hlt
      simp only [List.find?_cons, hne, decide_false, hnone (le_of_lt hlt), List.map_cons,
        List.sum_cons, Option.map_none, Option.getD_none]
      omega
    · split
      · next heq =>
        simp only [List.find?_cons, heq, decide_true, List.map_cons, List.sum_cons,
          Option.map_some, Option.getD_some]
        omega
      · next hne =>
        have hne' : ¬a.1 = k := fun h => hne h.symm
        have hrec := ih hs.of_cons
        simp only [List.find?_cons, hne', decide_false, List.map_cons, List.sum_cons]
        omega

theorem sum_values_insert (m : SortedMap K V) (f : V → Nat) (k : K) (v : V) :
    ((m.insert k v).values.map f).sum + ((m.get? k).map f).getD 0 = (m.values.map f).sum + f v := by
  have h := sum_insertEntry f (k := k) (v := v) m.sorted
  simpa [values, insert, get?, List.map_map, Function.comp_def] using h

theorem sum_values_filter_le (m : SortedMap K V) (f : V → Nat) (p : K → V → Bool) :
    ((m.filter p).values.map f).sum ≤ (m.values.map f).sum := by
  obtain ⟨l, hs⟩ := m
  simp only [values, filter, List.map_map, Function.comp_def]
  clear hs
  induction l with
  | nil => simp
  | cons a rest ih =>
    rw [List.filter_cons]
    split
    · simp only [List.map_cons, List.sum_cons]
      omega
    · simp only [List.map_cons, List.sum_cons]
      omega

theorem size_filter_le (m : SortedMap K V) (p : K → V → Bool) : (m.filter p).size ≤ m.size :=
  List.length_filter_le _ _

theorem size_pos_iff : 0 < m.size ↔ ∃ k v, m.get? k = some v := by
  simp only [get?_eq_some, size, List.length_pos_iff_exists_mem]
  exact ⟨fun ⟨e, he⟩ => ⟨e.1, e.2, he⟩, fun ⟨k, v, h⟩ => ⟨(k, v), h⟩⟩

theorem erase_of_none (h : m.get? k = none) : m.erase k = m := by
  refine ext_get? fun k' => ?_
  rw [get?_erase]
  by_cases hk : k' = k
  · rw [if_pos hk, hk, h]
  · rw [if_neg hk]

theorem insert_erase_of_some (h : m.get? k = some v) : (m.erase k).insert k v = m := by
  refine ext_get? fun k' => ?_
  rw [get?_insert, get?_erase]
  by_cases hk : k' = k
  · rw [if_pos hk, hk, h]
  · rw [if_neg hk, if_neg hk]

theorem size_erase_of_some (h : m.get? k = some v) : (m.erase k).size + 1 = m.size := by
  have hsize := size_insert_of_none (v := v) (get?_erase_self m k)
  rw [insert_erase_of_some h] at hsize
  exact hsize.symm

theorem size_erase_lt (h : m.get? k = some v) : (m.erase k).size < m.size := by
  refine List.length_filter_lt_length_iff_exists.mpr ⟨(k, v), get?_eq_some.mp h, ?_⟩
  simp

theorem trim_eq {depth : Nat} (hdepth : 0 < depth)
    (h : ∀ oldest, depth ≤ m.size → m.keys[m.size - depth]? = some oldest →
      k = oldest ∨ oldest < k ∧ m.contains k = false) :
    (m.insert k v).dropFirst ((m.insert k v).size - depth) =
      (m.dropFirst (m.size + 1 - depth)).insert k v := by
  by_cases hfull : depth ≤ m.size
  · have hat : m.size - depth < m.entries.length := by
      show m.size - depth < m.size
      omega
    obtain ⟨oldest, hentry⟩ : ∃ e, m.entries[m.size - depth]? = some e :=
      ⟨_, List.getElem?_eq_getElem hat⟩
    have hkey : m.keys[m.size - depth]? = some oldest.1 := by
      rw [keys, List.getElem?_map, hentry, Option.map_some]
    have hsplit : m.entries = m.entries.take (m.size - depth) ++
        oldest :: m.entries.drop (m.size - depth + 1) := by
      conv_lhs => rw [← List.take_append_drop (m.size - depth) m.entries]
      rw [List.drop_eq_getElem_cons hat, (List.getElem?_eq_some_iff.mp hentry).2]
    have hlen : (m.entries.take (m.size - depth)).length = m.size - depth := by
      rw [List.length_take]
      omega
    have hsorted := m.sorted
    rw [hsplit] at hsorted
    obtain ⟨-, hback, hcross⟩ := List.pairwise_append.mp hsorted
    obtain ⟨habove, -⟩ := List.pairwise_cons.mp hback
    have hroom : m.size + 1 - depth = m.size - depth + 1 := by omega
    generalize m.entries.take (m.size - depth) = front at hsplit hlen hcross
    generalize m.entries.drop (m.size - depth + 1) = back at hsplit hback hcross habove
    have hkept : m.entries.drop (m.size + 1 - depth) = back := by
      rw [hroom, hsplit, ← List.drop_drop, List.drop_left' hlen]
      rfl
    have hresult : ((m.insert k v).dropFirst ((m.insert k v).size - depth)).entries =
        insertEntry k v back := by
      show (insertEntry k v m.entries).drop ((insertEntry k v m.entries).length - depth) = _
      have hsize : m.size = (front ++ oldest :: back).length := congrArg List.length hsplit
      rw [hsplit]
      rcases h oldest.1 hfull hkey with rfl | ⟨hlt, hnew⟩
      · have hfront : ∀ e ∈ front, e.1 < oldest.1 := fun e he => hcross e he _ List.mem_cons_self
        have heq : insertEntry oldest.1 v (front ++ oldest :: back) =
            front ++ (oldest.1, v) :: back := insertEntry_append_cons hfront
        rw [heq, insertEntry_of_below habove, List.drop_left']
        simp only [List.length_append, List.length_cons] at hsize hlen ⊢
        omega
      · have hfront : ∀ e ∈ front ++ [oldest], e.1 < k := by
          exact List.forall_mem_append.mpr
            ⟨fun e he => (hcross e he _ List.mem_cons_self).trans hlt,
            List.forall_mem_singleton.mpr hlt⟩
        have hnone : ∀ w, (k, w) ∉ back := by
          intro w hmem
          have hget : m.get? k = some w := by
            rw [get?_eq_some, hsplit]
            exact List.mem_append_right _ (List.mem_cons_of_mem _ hmem)
          rw [contains, hget] at hnew
          cases hnew
        have heq : insertEntry k v (front ++ oldest :: back) =
            (front ++ [oldest]) ++ insertEntry k v back := by
          rw [← insertEntry_append_of_above hfront, List.append_assoc]
          rfl
        rw [heq, List.drop_left']
        simp only [List.length_append, List.length_cons, List.length_nil,
          length_insertEntry hnone] at hsize hlen ⊢
        omega
    refine ext_get? fun k' => ?_
    rw [get?, get?, hresult]
    show _ = ((insertEntry k v (m.entries.drop (m.size + 1 - depth))).find? _).map Prod.snd
    rw [hkept]
  · have hsmall : (m.insert k v).size - depth = 0 := by
      cases hget : m.get? k with
      | none =>
        rw [size_insert_of_none hget]
        omega
      | some w =>
        rw [size_insert_of_some hget]
        omega
    have hnone : m.size + 1 - depth = 0 := by omega
    rw [hsmall, hnone]
    rfl

/-! ### Changing values in place -/

def mapValues (m : SortedMap K V) (f : V → V) : SortedMap K V :=
  ⟨m.entries.map fun e => (e.1, f e.2), List.pairwise_map.mpr (m.sorted.imp id)⟩

def mapWithKey (m : SortedMap K V) (f : K → V → V) : SortedMap K V :=
  ⟨m.entries.map fun e => (e.1, f e.1 e.2), List.pairwise_map.mpr (m.sorted.imp id)⟩

def map {W : Type} (m : SortedMap K V) (f : V → W) : SortedMap K W :=
  ⟨m.entries.map fun e => (e.1, f e.2), List.pairwise_map.mpr (m.sorted.imp id)⟩

def modify (m : SortedMap K V) (k : K) (f : V → V) : SortedMap K V :=
  match m.get? k with
  | none => m
  | some v => m.insert k (f v)

theorem get?_mapValues (m : SortedMap K V) (f : V → V) (k : K) :
    (m.mapValues f).get? k = (m.get? k).map f := by
  refine Option.ext fun v => ?_
  rw [get?_eq_some, Option.map_eq_some_iff]
  simp only [get?_eq_some, mapValues, List.mem_map]
  constructor
  · rintro ⟨e, he, heq⟩
    obtain ⟨rfl, rfl⟩ := Prod.mk.inj heq
    exact ⟨e.2, he, rfl⟩
  · rintro ⟨w, hw, rfl⟩
    exact ⟨(k, w), hw, rfl⟩

section Map

variable {W : Type} (m : SortedMap K V) (f : V → W)

theorem get?_map (k : K) : (m.map f).get? k = (m.get? k).map f := by
  refine Option.ext fun w => ?_
  rw [get?_eq_some, Option.map_eq_some_iff]
  simp only [get?_eq_some, map, List.mem_map]
  constructor
  · rintro ⟨e, he, heq⟩
    obtain ⟨rfl, rfl⟩ := Prod.mk.inj heq
    exact ⟨e.2, he, rfl⟩
  · rintro ⟨v, hv, rfl⟩
    exact ⟨(k, v), hv, rfl⟩

@[simp] theorem size_map : (m.map f).size = m.size := List.length_map _

@[simp] theorem keys_map : (m.map f).keys = m.keys := by
  rw [keys, keys, map, List.map_map]
  rfl

@[simp] theorem contains_map (k : K) : (m.map f).contains k = m.contains k := by
  rw [contains, contains, get?_map, Option.isSome_map]

theorem map_insert (k : K) (v : V) : (m.insert k v).map f = (m.map f).insert k (f v) := by
  refine ext_get? fun k' => ?_
  rw [get?_map, get?_insert, get?_insert, get?_map]
  split <;> rfl

theorem map_dropFirst (n : Nat) : (m.dropFirst n).map f = (m.map f).dropFirst n := by
  simp [map, dropFirst]

theorem map_filter {p : K → V → Bool} {q : K → W → Bool}
    (h : ∀ k v, m.get? k = some v → q k (f v) = p k v) :
    (m.filter p).map f = (m.map f).filter q := by
  refine ext_get? fun k => ?_
  rw [get?_map, get?_filter, get?_filter, get?_map]
  cases hget : m.get? k with
  | none => rfl
  | some v =>
    simp only [Option.map_some, Option.filter_some, h k v hget]
    split <;> rfl

end Map

theorem get?_mapWithKey (m : SortedMap K V) (f : K → V → V) (k : K) :
    (m.mapWithKey f).get? k = (m.get? k).map (f k) := by
  refine Option.ext fun v => ?_
  rw [get?_eq_some, Option.map_eq_some_iff]
  simp only [get?_eq_some, mapWithKey, List.mem_map]
  constructor
  · rintro ⟨e, he, heq⟩
    obtain ⟨rfl, rfl⟩ := Prod.mk.inj heq
    exact ⟨e.2, he, rfl⟩
  · rintro ⟨w, hw, rfl⟩
    exact ⟨(k, w), hw, rfl⟩

theorem get?_modify (m : SortedMap K V) (k k' : K) (f : V → V) :
    (m.modify k f).get? k' = if k' = k then (m.get? k).map f else m.get? k' := by
  unfold modify
  split
  · next h =>
    split
    · next hk => rw [hk, h]; rfl
    · rfl
  · next v h => rw [get?_insert, h]; rfl

/-! ### Taking the smallest entry off -/

theorem minKey?_of_keys_cons {ks : List K} (h : m.keys = k :: ks) : m.minKey? = some k := by
  obtain ⟨l, hs⟩ := m
  cases l with
  | nil => simp [keys] at h
  | cons e rest =>
    simp only [keys, List.map_cons, List.cons.injEq] at h
    simp [minKey?, first?, h.1]

theorem keys_erase_of_cons {ks : List K} (h : m.keys = k :: ks) : (m.erase k).keys = ks := by
  have hlt : ∀ k' ∈ ks, k < k' := (List.pairwise_cons.mp (h ▸ m.keys_sorted)).1
  have hall : (m.erase k).keys = m.keys.filter (fun k' => k' ≠ k) := by
    simp [keys, erase, filter, List.filter_map, Function.comp_def]
  rw [hall, h, List.filter_cons_of_neg (by simp), List.filter_eq_self]
  intro k' hk'
  simpa using ne_of_gt (hlt k' hk')

theorem eq_empty_of_keys_nil (h : m.keys = []) : m = empty := by
  obtain ⟨l, hs⟩ := m
  simp only [keys, List.map_eq_nil_iff] at h
  subst h
  rfl

theorem values_of_only {k₀ : K} (h : ∀ k v, m.get? k = some v → k = k₀) :
    m.values = (m.get? k₀).toList := by
  have hne : ∀ k, k ≠ k₀ → m.get? k = none :=
    fun k hk => Option.eq_none_iff_forall_ne_some.mpr fun v hv => hk (h k v hv)
  cases hv : m.get? k₀ with
  | none =>
    have hm : m = empty := ext_get? fun k => by
      by_cases hk : k = k₀
      · rw [hk, hv, get?_empty]
      · rw [hne k hk, get?_empty]
    rw [hm]
    rfl
  | some v =>
    have hm : m = empty.insert k₀ v := ext_get? fun k => by
      rw [get?_insert, get?_empty]
      by_cases hk : k = k₀
      · rw [if_pos hk, hk, hv]
      · rw [if_neg hk, hne k hk]
    rw [hm]
    rfl

def insertAll (m : SortedMap K V) (l : List (K × V)) : SortedMap K V :=
  l.foldl (fun m e => m.insert e.1 e.2) m

theorem get?_insertAll_of_not_mem (m : SortedMap K V) (h : k ∉ l.map Prod.fst) :
    (m.insertAll l).get? k = m.get? k := by
  induction l generalizing m with
  | nil => rfl
  | cons e l ih =>
    simp only [List.map_cons, List.mem_cons, not_or] at h
    rw [insertAll, List.foldl_cons, ← insertAll, ih _ h.2, get?_insert, if_neg h.1]

theorem get?_insertAll_of_mem (m : SortedMap K V) (hl : (l.map Prod.fst).Nodup) (h : (k, v) ∈ l) :
    (m.insertAll l).get? k = some v := by
  induction l generalizing m with
  | nil => cases h
  | cons e l ih =>
    simp only [List.map_cons, List.nodup_cons] at hl
    rw [insertAll, List.foldl_cons, ← insertAll]
    rcases List.mem_cons.mp h with rfl | hmem
    · rw [get?_insertAll_of_not_mem _ hl.1, get?_insert, if_pos rfl]
    · exact ih _ hl.2 hmem

theorem isEmpty_eq_keys_isEmpty (m : SortedMap K V) : m.isEmpty = m.keys.isEmpty := by
  simp [isEmpty, keys]

theorem sum_map_filter_ne_zero {α : Type} (f : α → Nat) (l : List α) :
    ((l.filter fun x => f x ≠ 0).map f).sum = (l.map f).sum := by
  induction l with
  | nil => rfl
  | cons x rest ih =>
    rw [List.filter_cons]
    split
    · rw [List.map_cons, List.map_cons, List.sum_cons, List.sum_cons, ih]
    · next hzero =>
      have hx : f x = 0 := by simpa using hzero
      rw [List.map_cons, List.sum_cons, hx, Nat.zero_add, ih]

theorem sum_map_eq_of_support {α : Type} {l l' : List α} (hl : l.Nodup) (hl' : l'.Nodup)
    {f : α → Nat} (h : ∀ x, f x ≠ 0 → (x ∈ l ↔ x ∈ l')) : (l.map f).sum = (l'.map f).sum := by
  rw [← sum_map_filter_ne_zero f l, ← sum_map_filter_ne_zero f l']
  refine List.Perm.sum_nat (List.Perm.map f ?_)
  rw [List.perm_ext_iff_of_nodup (hl.filter _) (hl'.filter _)]
  intro x
  rw [List.mem_filter, List.mem_filter]
  constructor
  · rintro ⟨hx, hne⟩
    exact ⟨(h x (of_decide_eq_true hne)).mp hx, hne⟩
  · rintro ⟨hx, hne⟩
    exact ⟨(h x (of_decide_eq_true hne)).mpr hx, hne⟩

end SortedMap
end ZeroDds
