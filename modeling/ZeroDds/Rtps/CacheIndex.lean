/-
What the history cache keeps beside its changes.
-/
import ZeroDds.Lib.Run
import ZeroDds.Rtps.HistoryCache

namespace ZeroDds.Rtps

open SortedMap

/-! ### The regrouping of the changes -/

def numbersOf (m : SortedMap Int CacheChange) (key : Option KeyHash) : Finset Int :=
  ((m.entries.filter fun e => e.2.keyHash = key).map Prod.fst).toFinset

variable {m : SortedMap Int CacheChange}

theorem mem_numbersOf {key : Option KeyHash} {n : Int} :
    n ∈ numbersOf m key ↔ ∃ ch, m.get? n = some ch ∧ ch.keyHash = key := by
  simp only [numbersOf, List.mem_toFinset, List.mem_map, List.mem_filter, get?_eq_some]
  constructor
  · rintro ⟨⟨k, ch⟩, ⟨hmem, hkey⟩, rfl⟩
    exact ⟨ch, hmem, by simpa using hkey⟩
  · rintro ⟨ch, hmem, hkey⟩
    exact ⟨(n, ch), ⟨hmem, by simpa using hkey⟩, rfl⟩

theorem numbersOf_insert {sn : Int} (ch : CacheChange) (hfresh : m.get? sn = none)
    (key : Option KeyHash) :
    numbersOf (m.insert sn ch) key =
      if key = ch.keyHash then insert sn (numbersOf m key) else numbersOf m key := by
  ext n
  rw [mem_numbersOf, get?_insert]
  by_cases hn : n = sn
  · subst hn
    have hnot : n ∉ numbersOf m key := by
      rw [mem_numbersOf, hfresh]
      simp
    by_cases hkey : key = ch.keyHash
    · simp [hkey]
    · simpa [hkey, hnot] using fun h => hkey h.symm
  · rw [if_neg hn, ← mem_numbersOf]
    split <;> simp [hn]

theorem numbersOf_erase (m : SortedMap Int CacheChange) (sn : Int) (key : Option KeyHash) :
    numbersOf (m.erase sn) key = (numbersOf m key).erase sn := by
  ext n
  rw [mem_numbersOf, get?_erase, Finset.mem_erase, mem_numbersOf]
  by_cases hn : n = sn
  · simp [hn]
  · simp [hn]

namespace InstanceIndex

/-- The index is the regrouping of the changes: one entry for each instance that
has any, with exactly its numbers. -/
structure Groups (ix : InstanceIndex) (m : SortedMap Int CacheChange) : Prop where
  nodup : (ix.map Prod.fst).Nodup
  entry : ∀ key s, (key, s) ∈ ix ↔ s = numbersOf m key ∧ s.Nonempty

variable {ix : InstanceIndex} {m : SortedMap Int CacheChange}

theorem Groups.nonempty_iff (h : ix.Groups m) (key : Option KeyHash) :
    (∃ e ∈ ix, e.1 = key) ↔ (numbersOf m key).Nonempty := by
  constructor
  · rintro ⟨⟨k, s⟩, hmem, rfl⟩
    obtain ⟨rfl, hne⟩ := (h.entry k s).mp hmem
    exact hne
  · intro hne
    exact ⟨(key, _), (h.entry key _).mpr ⟨rfl, hne⟩, rfl⟩

theorem Groups.sns_eq (h : ix.Groups m) (key : Option KeyHash) : ix.sns key = numbersOf m key := by
  unfold sns
  cases hfind : ix.find? fun e => e.1 = key with
  | none =>
    have hnone : ¬(numbersOf m key).Nonempty := by
      rw [← h.nonempty_iff key]
      rintro ⟨e, hmem, he⟩
      exact absurd he (by simpa using List.find?_eq_none.mp hfind e hmem)
    simpa using (Finset.not_nonempty_iff_eq_empty.mp hnone).symm
  | some e =>
    have hkey : e.1 = key := by simpa using List.find?_some hfind
    obtain ⟨hs, -⟩ := (h.entry e.1 e.2).mp (List.mem_of_find?_eq_some hfind)
    rw [hkey] at hs
    simpa using hs

theorem keys_index (ix : InstanceIndex) (key : Option KeyHash) (sn : Int) :
    (ix.index key sn).map Prod.fst =
      if ∃ e ∈ ix, e.1 = key then ix.map Prod.fst else ix.map Prod.fst ++ [key] := by
  unfold index
  simp only [List.any_eq_true, decide_eq_true_eq]
  split
  · rw [List.map_map]
    refine List.map_congr_left fun e _ => ?_
    simp only [Function.comp_apply]
    split <;> rfl
  · simp

theorem mem_index (h : ix.Groups m) (key : Option KeyHash) (sn : Int) (k : Option KeyHash)
    (s : Finset Int) :
    (k, s) ∈ ix.index key sn ↔
      if k = key then s = insert sn (numbersOf m key) else (k, s) ∈ ix := by
  unfold index
  simp only [List.any_eq_true, decide_eq_true_eq]
  split
  · next hin =>
    have hne := (h.nonempty_iff key).mp hin
    rw [List.mem_map]
    split
    · next hk =>
      constructor
      · rintro ⟨e, hmem, he⟩
        split at he
        · next hkey =>
          obtain ⟨hs, -⟩ := (h.entry e.1 e.2).mp hmem
          rw [← (Prod.mk.inj he).2, hs, hkey]
        · next hkey => exact absurd (he ▸ hk : e.1 = key) hkey
      · rintro rfl
        exact ⟨(key, _), (h.entry key _).mpr ⟨rfl, hne⟩, by simp [hk]⟩
    · next hk =>
      constructor
      · rintro ⟨e, hmem, he⟩
        split at he
        · next hkey => exact absurd ((Prod.mk.inj he).1.symm.trans hkey) hk
        · exact he ▸ hmem
      · intro hmem
        exact ⟨(k, s), hmem, by simp [hk]⟩
  · next hout =>
    have hempty : numbersOf m key = ∅ := by
      rw [← Finset.not_nonempty_iff_eq_empty, ← h.nonempty_iff key]
      exact hout
    rw [List.mem_append, List.mem_singleton, Prod.mk.injEq, hempty]
    split
    · next hk =>
      have hno : (k, s) ∉ ix := fun hmem => hout ⟨(k, s), hmem, hk⟩
      simp [hk ▸ hno, hk]
    · next hk => simp [hk]

variable {ch : CacheChange} {sn : Int}

theorem Groups.index (h : ix.Groups m) (hfresh : m.get? sn = none) :
    (ix.index ch.keyHash sn).Groups (m.insert sn ch) where
  nodup := by
    rw [keys_index]
    split
    · exact h.nodup
    · next hout =>
      refine List.nodup_append'.mpr ⟨h.nodup, List.nodup_singleton _, ?_⟩
      intro key hmem hone
      obtain ⟨e, he, rfl⟩ := List.mem_map.mp hmem
      exact hout ⟨e, he, List.mem_singleton.mp hone⟩
  entry := fun key s => by
    rw [mem_index h, numbersOf_insert ch hfresh]
    split
    · next hk =>
      rw [hk]
      constructor
      · rintro rfl
        exact ⟨rfl, Finset.insert_nonempty _ _⟩
      · exact And.left
    · exact h.entry key s

theorem Groups.unindex (h : ix.Groups m) (hget : m.get? sn = some ch) :
    (ix.unindex ch.keyHash sn).Groups (m.erase sn) where
  nodup := by
    refine h.nodup.sublist ?_
    have hkeys : (ix.map fun e => if e.1 = ch.keyHash then (e.1, e.2.erase sn) else e).map
        Prod.fst = ix.map Prod.fst := by
      rw [List.map_map]
      refine List.map_congr_left fun e _ => ?_
      simp only [Function.comp_apply]
      split <;> rfl
    rw [← hkeys]
    exact List.Sublist.map _ List.filter_sublist
  entry := fun key s => by
    have hother : key ≠ ch.keyHash → sn ∉ numbersOf m key := by
      intro hk hmem
      obtain ⟨ch', hget', hkey⟩ := mem_numbersOf.mp hmem
      rw [hget] at hget'
      exact hk (Option.some.inj hget' ▸ hkey.symm)
    rw [numbersOf_erase]
    unfold InstanceIndex.unindex
    rw [List.mem_filter, List.mem_map]
    simp only [decide_eq_true_eq, ne_eq]
    constructor
    · rintro ⟨⟨e, hmem, he⟩, hleft⟩
      obtain ⟨hs, hne⟩ := (h.entry e.1 e.2).mp hmem
      split at he
      · next hkey =>
        obtain ⟨rfl, rfl⟩ := Prod.mk.inj he
        exact ⟨by rw [hs], hleft.resolve_left (not_not_intro hkey)⟩
      · next hkey =>
        subst he
        exact ⟨by rw [Finset.erase_eq_of_notMem (hother hkey)]; exact hs, hne⟩
    · rintro ⟨hs, hne⟩
      have hmem : (key, numbersOf m key) ∈ ix := by
        refine (h.entry key _).mpr ⟨rfl, ?_⟩
        rw [hs] at hne
        exact hne.mono (Finset.erase_subset _ _)
      refine ⟨⟨(key, numbersOf m key), hmem, ?_⟩, .inr hne⟩
      split
      · rw [hs]
      · next hkey => rw [hs, Finset.erase_eq_of_notMem (hother hkey)]

end InstanceIndex

namespace HistoryCache

structure Indexed (c : HistoryCache) : Prop where
  own : ∀ n ch, c.get n = some ch → ch.sequenceNumber = n
  groups : c.byInstance.Groups c.changes

structure Represented (c : HistoryCache) : Prop extends c.Indexed where
  stats : c.stats = ⟨c.len, c.evictedCount, encodeSnAtom c.maxSn, encodeSnAtom c.minSn⟩
  depth : ∀ d, c.perInstanceDepth = some d →
    1 ≤ d ∧ ∀ key, (numbersOf c.changes key).card ≤ d

theorem represented_new (kind : HistoryKind) (maxSamples : Nat) :
    (newWithKind kind maxSamples).Represented where
  own := by simp
  groups := ⟨List.nodup_nil, fun key s => by simp [newWithKind, numbersOf, SortedMap.empty]⟩
  stats := rfl
  depth := by simp [newWithKind]

/-! ### One change in or out -/

variable {c : HistoryCache} {sn : Int} {ch change : CacheChange}

theorem take_of_get (h : c.get sn = some ch) :
    c.take sn = ({ c with
      changes := c.changes.erase sn
      byInstance := c.byInstance.unindex ch.keyHash sn }, some ch) := by
  simp [take, h]

theorem take_of_none (h : c.get sn = none) : c.take sn = (c, none) := by
  simp [take, h]

theorem take_frame (c : HistoryCache) (sn : Int) :
    (c.take sn).1 = { c with
      changes := (c.take sn).1.changes
      byInstance := (c.take sn).1.byInstance } := by
  cases h : c.get sn with
  | none => rw [take_of_none h]
  | some ch => rw [take_of_get h]

theorem numbersOf_take (c : HistoryCache) (sn : Int) (key : Option KeyHash) :
    numbersOf (c.take sn).1.changes key = (numbersOf c.changes key).erase sn := by
  cases h : c.get sn with
  | none =>
    rw [take_of_none h, Finset.erase_eq_of_notMem]
    rintro hmem
    obtain ⟨ch, hget, -⟩ := mem_numbersOf.mp hmem
    exact absurd (h.symm.trans hget) (by simp)
  | some ch =>
    rw [take_of_get h]
    exact numbersOf_erase _ _ _

theorem Indexed.take (h : c.Indexed) (sn : Int) : (c.take sn).1.Indexed := by
  refine ⟨fun n ch hget => ?_, ?_⟩
  · rw [get_take] at hget
    split at hget
    · cases hget
    · exact h.own n ch hget
  · cases hget : c.get sn with
    | none =>
      rw [take_of_none hget]
      exact h.groups
    | some ch =>
      rw [take_of_get hget]
      exact h.groups.unindex hget

theorem Indexed.refreshStats (h : c.Indexed) : c.refreshStats.Indexed :=
  ⟨h.own, h.groups⟩

theorem Indexed.put (h : c.Indexed) (hfresh : c.get change.sequenceNumber = none) :
    (c.put change).Indexed := by
  refine ⟨fun n ch hget => ?_, h.groups.index hfresh⟩
  rw [get_put] at hget
  split at hget
  · next hn => rw [← Option.some.inj hget, hn]
  · exact h.own n ch hget

theorem evict_eq (c : HistoryCache) (sn : Int) :
    ∃ k, c.evict sn = ({ (c.take sn).1 with evictedCount := k }, (c.take sn).2) := ⟨_, rfl⟩

/-! ### Several changes out -/

def takeAll (c : HistoryCache) (sns : List Int) : HistoryCache :=
  sns.foldl (fun c sn => (c.take sn).1) c

theorem get_takeAll (c : HistoryCache) (sns : List Int) (n : Int) :
    (c.takeAll sns).get n = if n ∈ sns then none else c.get n := by
  induction sns generalizing c with
  | nil => simp [takeAll]
  | cons sn sns ih =>
    rw [takeAll, List.foldl_cons, ← takeAll, ih, get_take]
    by_cases hmem : n ∈ sns
    · simp [hmem]
    · by_cases hn : n = sn
      · simp [hn]
      · simp [hmem, hn]

theorem Indexed.takeAll (h : c.Indexed) (sns : List Int) : (c.takeAll sns).Indexed := by
  induction sns generalizing c with
  | nil => exact h
  | cons sn sns ih => exact ih (h.take sn)

theorem takeAll_frame (c : HistoryCache) (sns : List Int) :
    c.takeAll sns = { c with
      changes := (c.takeAll sns).changes
      byInstance := (c.takeAll sns).byInstance } := by
  induction sns generalizing c with
  | nil => rfl
  | cons sn sns ih =>
    have hstep : c.takeAll (sn :: sns) = (c.take sn).1.takeAll sns := rfl
    rw [hstep, ih, take_frame]

theorem numbersOf_takeAll (c : HistoryCache) (sns : List Int) (key : Option KeyHash) :
    numbersOf (c.takeAll sns).changes key = (numbersOf c.changes key).filter (· ∉ sns) := by
  ext n
  rw [mem_numbersOf, Finset.mem_filter, mem_numbersOf]
  have hget : (c.takeAll sns).changes.get? n = if n ∈ sns then none else c.changes.get? n :=
    get_takeAll c sns n
  rw [hget]
  by_cases hmem : n ∈ sns
  · simp [hmem]
  · simp [hmem]

theorem foldl_evict_eq (c : HistoryCache) (sns : List Int) :
    ∃ k, sns.foldl (fun c sn => (c.evict sn).1) c = { c.takeAll sns with evictedCount := k } := by
  induction sns generalizing c with
  | nil => exact ⟨c.evictedCount, rfl⟩
  | cons sn sns ih =>
    obtain ⟨k, hk⟩ := c.evict_eq sn
    have hcount : ∀ (c : HistoryCache) (sns : List Int), ∃ k',
        takeAll { c with evictedCount := k } sns = { c.takeAll sns with evictedCount := k' } := by
      intro c sns
      induction sns generalizing c with
      | nil => exact ⟨k, rfl⟩
      | cons sn sns ih =>
        have hone : (take { c with evictedCount := k } sn).1 =
            { (c.take sn).1 with evictedCount := k } := by
          cases h : c.get sn with
          | none => rw [take_of_none h, take_of_none (c := { c with evictedCount := k }) h]
          | some ch => rw [take_of_get h, take_of_get (c := { c with evictedCount := k }) h]
        obtain ⟨k', hk'⟩ := ih (c.take sn).1
        exact ⟨k', by rw [takeAll, List.foldl_cons, hone]; exact hk'⟩
    obtain ⟨k', hk'⟩ := ih (c.evict sn).1
    obtain ⟨k'', hk''⟩ := hcount (c.take sn).1 sns
    refine ⟨k', ?_⟩
    rw [List.foldl_cons, hk', hk, hk'']
    rfl

/-! ### The operations that remove -/

theorem Indexed.represented (h : c.Indexed) (hdepth : ∀ d, c.perInstanceDepth = some d →
      1 ≤ d ∧ ∀ key, (numbersOf c.changes key).card ≤ d) : c.refreshStats.Represented :=
  ⟨h.refreshStats, rfl, hdepth⟩

theorem Represented.depth_takeAll (h : c.Represented) (sns : List Int) :
    ∀ d, (c.takeAll sns).perInstanceDepth = some d →
      1 ≤ d ∧ ∀ key, (numbersOf (c.takeAll sns).changes key).card ≤ d := by
  intro d hd
  rw [takeAll_frame] at hd
  obtain ⟨hpos, hcard⟩ := h.depth d hd
  refine ⟨hpos, fun key => ?_⟩
  rw [numbersOf_takeAll]
  exact (Finset.card_filter_le _ _).trans (hcard key)

theorem Represented.removeAll (h : c.Represented) (sns : List Int) :
    (if sns.isEmpty then c.takeAll sns else (c.takeAll sns).refreshStats).Represented := by
  cases sns with
  | nil => exact h
  | cons sn sns => exact (h.toIndexed.takeAll _).represented (h.depth_takeAll _)

theorem foldl_unindex_eq {es : List (Int × CacheChange)} (hheld : ∀ e ∈ es, c.get e.1 = some e.2)
    (hnodup : (es.map Prod.fst).Nodup) :
    es.foldl (fun ix e => ix.unindex e.2.keyHash e.1) c.byInstance =
      (c.takeAll (es.map Prod.fst)).byInstance := by
  induction es generalizing c with
  | nil => rfl
  | cons e es ih =>
    obtain ⟨hnot, hnodup⟩ := List.nodup_cons.mp hnodup
    have htake := take_of_get (hheld e List.mem_cons_self)
    have hrest : ∀ e' ∈ es, (c.take e.1).1.get e'.1 = some e'.2 := by
      intro e' he'
      have hne : e'.1 ≠ e.1 := fun heq => hnot (heq ▸ List.mem_map_of_mem he')
      rw [get_take, if_neg hne]
      exact hheld e' (List.mem_cons_of_mem _ he')
    have hfirst : c.takeAll ((e :: es).map Prod.fst) =
        (c.take e.1).1.takeAll (es.map Prod.fst) := rfl
    rw [hfirst, ← ih hrest hnodup, htake]
    rfl

theorem removeUpTo_eq (c : HistoryCache) (sn : Int) :
    (c.removeUpTo sn).1 =
      let doomed := (c.changes.entries.filter fun e => e.1 ≤ sn).map Prod.fst
      if doomed.isEmpty then c.takeAll doomed else (c.takeAll doomed).refreshStats := by
  have hheld : ∀ e ∈ c.changes.entries.filter fun e => e.1 ≤ sn, c.get e.1 = some e.2 :=
    fun e he => get?_eq_some.mpr (List.mem_of_mem_filter he)
  have hnodup : ((c.changes.entries.filter fun e => e.1 ≤ sn).map Prod.fst).Nodup :=
    c.changes.keys_nodup.sublist (List.Sublist.map _ List.filter_sublist)
  have hchanges : (c.changes.filter fun k _ => sn < k) =
      (c.takeAll ((c.changes.entries.filter fun e => e.1 ≤ sn).map Prod.fst)).changes := by
    refine ext_get? fun n => ?_
    have htake := c.get_takeAll ((c.changes.entries.filter fun e => e.1 ≤ sn).map Prod.fst) n
    have hup := c.get_removeUpTo sn n
    rw [show (c.changes.filter fun k _ => sn < k).get? n = (c.removeUpTo sn).1.get n by
      unfold removeUpTo
      simp only
      split <;> rfl, hup, show (takeAll c _).changes.get? n = _ from htake]
    by_cases hlt : sn < n
    · have hnot : n ∉ (c.changes.entries.filter fun e => e.1 ≤ sn).map Prod.fst := by
        intro hmem
        obtain ⟨e, he, rfl⟩ := List.mem_map.mp hmem
        have hle : e.1 ≤ sn := by simpa using (List.mem_filter.mp he).2
        omega
      rw [if_pos hlt, if_neg hnot]
    · rw [if_neg hlt]
      split
      · rfl
      · next hnot =>
        cases hget : c.get n with
        | none => rfl
        | some ch =>
          refine absurd (List.mem_map.mpr ⟨(n, ch), List.mem_filter.mpr ⟨?_, ?_⟩, rfl⟩) hnot
          · exact get?_eq_some.mp hget
          · simpa using hlt
  simp only [removeUpTo, List.isEmpty_map, foldl_unindex_eq hheld hnodup, hchanges,
    ← takeAll_frame]

theorem Represented.removeUpTo (h : c.Represented) (sn : Int) :
    (c.removeUpTo sn).1.Represented := by
  rw [removeUpTo_eq]
  exact h.removeAll _

theorem Represented.removeUpToWhere (h : c.Represented) (sn : Int) (remove : CacheChange → Bool) :
    (c.removeUpToWhere sn remove).1.Represented :=
  h.removeAll _

theorem Represented.removeHighest (h : c.Represented) : c.removeHighest.1.Represented := by
  unfold HistoryCache.removeHighest
  split
  · exact h
  · next sn _ => exact (h.toIndexed.takeAll [sn]).represented (h.depth_takeAll [sn])

/-! ### The depth per instance -/

variable {depth : Nat} {m : SortedMap Int CacheChange}

theorem mem_beyondDepth {seen : Option KeyHash → Nat} {l : List (Int × CacheChange)} :
    sn ∈ beyondDepth depth seen l ↔ ∃ newer ch older, l = newer ++ (sn, ch) :: older ∧
      depth < seen ch.keyHash + (newer.countP fun e => e.2.keyHash = ch.keyHash) + 1 := by
  induction l generalizing seen with
  | nil => simp [beyondDepth]
  | cons e rest ih =>
    obtain ⟨n, change⟩ := e
    have hlater : sn ∈ beyondDepth depth
        (Function.update seen change.keyHash (seen change.keyHash + 1)) rest ↔
        ∃ newer ch older, (n, change) :: rest = (n, change) :: newer ++ (sn, ch) :: older ∧
          depth < seen ch.keyHash +
            (((n, change) :: newer).countP fun e => e.2.keyHash = ch.keyHash) + 1 := by
      rw [ih]
      refine exists_congr fun newer => exists_congr fun ch => exists_congr fun older => ?_
      rw [List.cons_append, List.cons.injEq, and_iff_right rfl, List.countP_cons]
      refine and_congr_right fun _ => ?_
      by_cases hkey : change.keyHash = ch.keyHash
      · simp only [hkey, Function.update_self, decide_true, if_true]
        omega
      · simp [hkey, Function.update_of_ne (Ne.symm hkey)]
    have hsplit : (∃ newer ch older, (n, change) :: rest = newer ++ (sn, ch) :: older ∧
        depth < seen ch.keyHash + (newer.countP fun e => e.2.keyHash = ch.keyHash) + 1) ↔
        (n = sn ∧ depth < seen change.keyHash + 1) ∨ sn ∈ beyondDepth depth
          (Function.update seen change.keyHash (seen change.keyHash + 1)) rest := by
      rw [hlater]
      constructor
      · rintro ⟨newer, ch, older, hl, hd⟩
        cases newer with
        | nil =>
          obtain ⟨⟨rfl, rfl⟩, -⟩ := hl
          exact .inl ⟨rfl, by simpa using hd⟩
        | cons e newer =>
          obtain ⟨rfl, hrest⟩ := List.cons.inj hl
          exact .inr ⟨newer, ch, older, hl, hd⟩
      · rintro (⟨rfl, hd⟩ | ⟨newer, ch, older, hl, hd⟩)
        · exact ⟨[], change, rest, rfl, by simpa using hd⟩
        · exact ⟨_, ch, older, hl, hd⟩
    rw [hsplit, beyondDepth]
    split
    · next hd => simp [hd, eq_comm]
    · next hd => simp [hd]

theorem countP_newer {newer older : List (Int × CacheChange)}
    (h : m.entries.reverse = newer ++ (sn, ch) :: older) (key : Option KeyHash) :
    (newer.countP fun e => e.2.keyHash = key) =
      ((numbersOf m key).filter fun n => sn < n).card := by
  have hdesc : (newer ++ (sn, ch) :: older).Pairwise fun a b => b.1 < a.1 := by
    rw [← h]
    exact List.pairwise_reverse.mpr m.sorted
  obtain ⟨hnewer, holder, hcross⟩ := List.pairwise_append.mp hdesc
  have hmem : ∀ e, e ∈ m.entries ↔ e ∈ newer ++ (sn, ch) :: older := by
    intro e
    rw [← h, List.mem_reverse]
  have hnodup : ((newer.filter fun e => e.2.keyHash = key).map Prod.fst).Nodup := by
    refine List.Nodup.sublist (List.Sublist.map _ List.filter_sublist) ?_
    exact (List.pairwise_map.mpr hnewer).imp fun hlt => (ne_of_lt hlt).symm
  rw [List.countP_eq_length_filter, ← List.length_map (f := Prod.fst),
    ← List.toFinset_card_of_nodup hnodup]
  congr 1
  ext n
  rw [Finset.mem_filter, mem_numbersOf]
  simp only [List.mem_toFinset, List.mem_map, List.mem_filter, decide_eq_true_eq,
    get?_eq_some, hmem]
  constructor
  · rintro ⟨e, ⟨he, hkey⟩, rfl⟩
    exact ⟨⟨e.2, List.mem_append_left _ he, hkey⟩, hcross e he _ List.mem_cons_self⟩
  · rintro ⟨⟨ch', he, hkey⟩, hlt⟩
    refine ⟨(n, ch'), ⟨?_, hkey⟩, rfl⟩
    rcases List.mem_append.mp he with he | he
    · exact he
    · rcases List.mem_cons.mp he with he | he
      · have : n = sn := congrArg Prod.fst he
        omega
      · have : n < sn := (List.pairwise_cons.mp holder).1 _ he
        omega

theorem mem_beyondDepth_changes :
    sn ∈ beyondDepth depth (fun _ => 0) m.entries.reverse ↔
      ∃ ch, m.get? sn = some ch ∧
        depth ≤ ((numbersOf m ch.keyHash).filter fun n => sn < n).card := by
  rw [mem_beyondDepth]
  constructor
  · rintro ⟨newer, ch, older, hl, hd⟩
    have hin : (sn, ch) ∈ m.entries := by
      rw [← List.mem_reverse, hl]
      simp
    rw [countP_newer hl] at hd
    exact ⟨ch, get?_eq_some.mpr hin, by omega⟩
  · rintro ⟨ch, hget, hd⟩
    have hin := List.mem_reverse.mpr (get?_eq_some.mp hget)
    obtain ⟨newer, older, hl⟩ := List.append_of_mem hin
    refine ⟨newer, ch, older, hl, ?_⟩
    rw [countP_newer hl]
    omega

theorem card_newest_le (s : Finset Int) (d : Nat) :
    (s.filter fun n => (s.filter fun k => n < k).card < d).card ≤ d := by
  rcases Finset.eq_empty_or_nonempty (s.filter fun n => (s.filter fun k => n < k).card < d)
    with hempty | hne
  · simp [hempty]
  · set newest := s.filter fun n => (s.filter fun k => n < k).card < d with hnewest
    have hmin := Finset.min'_mem newest hne
    have hfew := (Finset.mem_filter.mp hmin).2
    have habove : newest.erase (newest.min' hne) ⊆ s.filter fun k => newest.min' hne < k := by
      intro n hn
      obtain ⟨hne', hmem⟩ := Finset.mem_erase.mp hn
      exact Finset.mem_filter.mpr ⟨(Finset.mem_filter.mp hmem).1,
        lt_of_le_of_ne (Finset.min'_le _ _ hmem) (Ne.symm hne')⟩
    have hcard := Finset.card_le_card habove
    rw [Finset.card_erase_of_mem hmin] at hcard
    omega

theorem numbersOf_setPerInstanceDepth (c : HistoryCache) (depth : Nat) (key : Option KeyHash) :
    numbersOf (c.setPerInstanceDepth (some depth)).changes key =
      (numbersOf c.changes key).filter fun n =>
        ((numbersOf c.changes key).filter fun k => n < k).card < max depth 1 := by
  obtain ⟨k, hk⟩ := foldl_evict_eq { c with perInstanceDepth := some (max depth 1) }
    (beyondDepth (max depth 1) (fun _ => 0) c.changes.entries.reverse)
  have hchanges : (c.setPerInstanceDepth (some depth)).changes =
      ({ c with perInstanceDepth := some (max depth 1) }.takeAll
        (beyondDepth (max depth 1) (fun _ => 0) c.changes.entries.reverse)).changes := by
    simp only [setPerInstanceDepth, Option.map_some, hk]
    rfl
  rw [hchanges, numbersOf_takeAll]
  refine Finset.filter_congr fun n hn => ?_
  obtain ⟨ch, hget, rfl⟩ := mem_numbersOf.mp hn
  rw [mem_beyondDepth_changes]
  simp only [not_exists, not_and, not_le]
  constructor
  · intro h
    exact h ch hget
  · intro h ch' hget'
    obtain rfl := Option.some.inj (hget.symm.trans hget')
    exact h

theorem Represented.setPerInstanceDepth (h : c.Represented) (depth : Option Nat) :
    (c.setPerInstanceDepth depth).Represented := by
  cases depth with
  | none => exact ⟨⟨h.own, h.groups⟩, h.stats, by simp [HistoryCache.setPerInstanceDepth]⟩
  | some d =>
    have hcard := c.numbersOf_setPerInstanceDepth d
    obtain ⟨k, hk⟩ := foldl_evict_eq { c with perInstanceDepth := some (max d 1) }
      (beyondDepth (max d 1) (fun _ => 0) c.changes.entries.reverse)
    have hindexed : Indexed { c with perInstanceDepth := some (max d 1) } := ⟨h.own, h.groups⟩
    have htaken := hindexed.takeAll
      (beyondDepth (max d 1) (fun _ => 0) c.changes.entries.reverse)
    have hafter : c.setPerInstanceDepth (some d) =
        { takeAll { c with perInstanceDepth := some (max d 1) }
            (beyondDepth (max d 1) (fun _ => 0) c.changes.entries.reverse) with
          evictedCount := k }.refreshStats := by
      simp [HistoryCache.setPerInstanceDepth, hk]
    rw [hafter] at hcard ⊢
    refine Indexed.represented ⟨htaken.own, htaken.groups⟩ fun d' hd' => ?_
    have hd : d' = max d 1 := by
      rw [takeAll_frame] at hd'
      exact (Option.some.inj hd').symm
    subst hd
    refine ⟨le_max_right _ _, fun key => ?_⟩
    exact (congrArg Finset.card (hcard key)).trans_le (card_newest_le _ _)

def OldestOf (c : HistoryCache) (key : Option KeyHash) (sn : Int) : Prop :=
  sn ∈ numbersOf c.changes key ∧ ∀ n ∈ numbersOf c.changes key, sn ≤ n

theorem instanceVictim_of_some (h : c.Indexed) (hvictim : c.instanceVictim change = some sn) :
    c.OldestOf change.keyHash sn ∧
      ∃ d, c.perInstanceDepth = some d ∧ d ≤ (numbersOf c.changes change.keyHash).card := by
  obtain ⟨d, hd, hvictim⟩ := Option.bind_eq_some_iff.mp hvictim
  rw [OldestOf, ← h.groups.sns_eq]
  simp only at hvictim
  split at hvictim
  · next hfull =>
    obtain rfl := Option.some.inj hvictim
    exact ⟨⟨Finset.min'_mem _ _, fun n hn => Finset.min'_le _ _ hn⟩, d, hd, hfull.1⟩
  · cases hvictim

theorem instanceVictim_of_none (h : c.Represented) (hvictim : c.instanceVictim change = none) :
    ∀ d, c.perInstanceDepth = some d → (numbersOf c.changes change.keyHash).card < d := by
  intro d hd
  unfold instanceVictim at hvictim
  rw [hd, Option.bind_some] at hvictim
  simp only at hvictim
  split at hvictim
  · cases hvictim
  · next hroom =>
    rw [h.groups.sns_eq] at hroom
    by_contra hfull
    have hle : d ≤ (numbersOf c.changes change.keyHash).card := not_lt.mp hfull
    have hpos := (h.depth d hd).1
    exact hroom ⟨hle, Finset.card_pos.mp (by omega)⟩

variable {n : Int}

theorem get_of_mem_numbersOf {key : Option KeyHash} (h : n ∈ numbersOf c.changes key) :
    ∃ ch, c.get n = some ch ∧ ch.keyHash = key :=
  mem_numbersOf.mp h

theorem OldestOf.of_minSn (hmin : c.minSn = some sn) :
    ∃ ch, c.get sn = some ch ∧ c.OldestOf ch.keyHash sn := by
  obtain ⟨⟨ch, hget⟩, hle⟩ := minKey?_eq_some.mp hmin
  refine ⟨ch, hget, mem_numbersOf.mpr ⟨ch, hget, rfl⟩, fun n hn => ?_⟩
  obtain ⟨ch', hget', -⟩ := mem_numbersOf.mp hn
  exact hle n ch' hget'

theorem size_eq_zero_of_minSn (h : c.minSn = none) : c.len = 0 := by
  by_contra hne
  obtain ⟨k, ch, hget⟩ := size_pos_iff.mp (Nat.pos_of_ne_zero hne)
  exact absurd (minKey?_eq_none.mp h k) (by rw [hget]; simp)

theorem evictOpt_of_get (h : c.get sn = some ch) :
    c.evictOpt (some sn) = ((c.evict sn).1, some ch) := by
  have htake := take_of_get h
  simp [evictOpt, evict, htake]

theorem Represented.insert_cases (h : c.Represented) (change : CacheChange) :
    (∃ e, c.insert change = (c, .error e)) ∨
    c.get change.sequenceNumber = none ∧ ∃ cap, c.effectiveMaxSamples = .ok cap ∧
      ((c.instanceVictim change = none ∧ (c.len < cap ∨ c.len = 0) ∧
          c.insert change = (c.put change, .ok none)) ∨
        ∃ sn victim, c.get sn = some victim ∧ c.OldestOf victim.keyHash sn ∧
          (c.instanceVictim change = none ∨ victim.keyHash = change.keyHash) ∧
          c.insert change = ((c.evict sn).1.put change, .ok (some victim))) := by
  by_cases hdup : c.changes.contains change.sequenceNumber = true
  · exact .inl ⟨_, by rw [insert, if_pos hdup]⟩
  have hfresh : c.get change.sequenceNumber = none := by
    simpa [SortedMap.contains, get] using hdup
  cases hcap : c.effectiveMaxSamples with
  | error e => exact .inl ⟨e, by rw [insert, if_neg hdup, hcap]⟩
  | ok cap =>
    cases hvictim : c.instanceVictim change with
    | some sn =>
      obtain ⟨holdest, -⟩ := instanceVictim_of_some h.toIndexed hvictim
      obtain ⟨victim, hget, hkey⟩ := get_of_mem_numbersOf holdest.1
      refine .inr ⟨hfresh, cap, rfl, .inr ⟨sn, victim, hget, hkey ▸ holdest, .inr hkey, ?_⟩⟩
      rw [insert, if_neg hdup, hcap]
      simp [hvictim, evictOpt_of_get hget]
    | none =>
      by_cases hroom : c.len < cap
      · refine .inr ⟨hfresh, cap, rfl, .inl ⟨rfl, .inl hroom, ?_⟩⟩
        rw [insert, if_neg hdup, hcap]
        simp [hvictim, evictOpt, Nat.not_le.mpr hroom]
      · cases hkind : c.kind with
        | keepAll =>
          refine .inl ⟨.capacityExceeded, ?_⟩
          rw [insert, if_neg hdup, hcap]
          simp [hvictim, evictOpt, Nat.le_of_not_lt hroom, hkind]
        | keepLast depth =>
          cases hmin : c.minSn with
          | none =>
            refine .inr ⟨hfresh, cap, rfl, .inl ⟨rfl, .inr (size_eq_zero_of_minSn hmin), ?_⟩⟩
            rw [insert, if_neg hdup, hcap]
            simp [hvictim, evictOpt, Nat.le_of_not_lt hroom, hkind, hmin]
          | some sn =>
            obtain ⟨victim, hget, holdest⟩ := OldestOf.of_minSn hmin
            refine .inr ⟨hfresh, cap, rfl, .inr ⟨sn, victim, hget, holdest, .inl rfl, ?_⟩⟩
            have hevict := evictOpt_of_get hget
            rw [insert, if_neg hdup, hcap]
            simp only [hvictim, evictOpt, Option.isNone_none, true_and,
              if_pos (Nat.le_of_not_lt hroom), hkind, hmin] at hevict ⊢
            rw [hevict]

theorem numbersOf_put (hfresh : c.get change.sequenceNumber = none) (key : Option KeyHash) :
    numbersOf (c.put change).changes key =
      if key = change.keyHash then Insert.insert change.sequenceNumber (numbersOf c.changes key)
      else numbersOf c.changes key :=
  numbersOf_insert change hfresh key

theorem len_put (hfresh : c.get change.sequenceNumber = none) : (c.put change).len = c.len + 1 :=
  size_insert_of_none hfresh

theorem get_evict (c : HistoryCache) (sn n : Int) :
    (c.evict sn).1.get n = if n = sn then none else c.get n :=
  c.get_take sn n

theorem len_evict_lt (h : c.get sn = some ch) : (c.evict sn).1.len < c.len := by
  have htake := take_of_get h
  simp only [evict, htake]
  exact size_erase_lt h

theorem Indexed.evict (h : c.Indexed) (sn : Int) : (c.evict sn).1.Indexed :=
  ⟨(h.take sn).own, (h.take sn).groups⟩

theorem perInstanceDepth_evict (c : HistoryCache) (sn : Int) :
    (c.evict sn).1.perInstanceDepth = c.perInstanceDepth := by
  show (c.take sn).1.perInstanceDepth = c.perInstanceDepth
  rw [c.take_frame sn]

theorem get_evict_of_none (h : c.get n = none) (sn : Int) : (c.evict sn).1.get n = none := by
  rw [get_evict]
  split
  · rfl
  · exact h

theorem Represented.insert (h : c.Represented) (change : CacheChange) :
    (c.insert change).1.Represented := by
  rcases h.insert_cases change with
    ⟨e, hinsert⟩ | ⟨hfresh, cap, -, ⟨hroom, -, hinsert⟩ | ⟨sn, victim, hget, -, hown, hinsert⟩⟩
  · rw [hinsert]
    exact h
  · rw [hinsert]
    refine ⟨h.toIndexed.put hfresh, rfl, fun d hd => ⟨(h.depth d hd).1, fun key => ?_⟩⟩
    rw [numbersOf_put hfresh]
    split
    · next hkey =>
      have hlt := instanceVictim_of_none h hroom d hd
      rw [← hkey] at hlt
      exact (Finset.card_insert_le _ _).trans hlt
    · exact (h.depth d hd).2 key
  · rw [hinsert]
    have hfresh' := get_evict_of_none hfresh sn
    refine ⟨(h.toIndexed.evict sn).put hfresh', rfl, fun d hd => ?_⟩
    rw [show ((c.evict sn).1.put change).perInstanceDepth = _ from c.perInstanceDepth_evict sn]
      at hd
    refine ⟨(h.depth d hd).1, fun key => ?_⟩
    have herase : numbersOf (c.evict sn).1.changes key = (numbersOf c.changes key).erase sn :=
      c.numbersOf_take sn key
    have hle := (h.depth d hd).2 key
    rw [numbersOf_put hfresh', herase]
    split
    · next hkey =>
      -- the instance of the new change had room, or the change that left was its own
      have hlt : ((numbersOf c.changes key).erase sn).card < d := by
        rcases hown with hroom | hkey'
        · have hlt := instanceVictim_of_none h hroom d hd
          rw [← hkey] at hlt
          exact (Finset.card_erase_le).trans_lt hlt
        · have hmem : sn ∈ numbersOf c.changes key :=
            mem_numbersOf.mpr ⟨victim, hget, hkey'.trans hkey.symm⟩
          have hpos := Finset.card_pos.mpr ⟨sn, hmem⟩
          rw [Finset.card_erase_of_mem hmem]
          omega
      exact (Finset.card_insert_le _ _).trans hlt
    · exact (Finset.card_erase_le).trans hle

structure InsertKeeps (c : HistoryCache) (change : CacheChange) : Prop where
  refused : ∀ e, (c.insert change).2 = .error e → (c.insert change).1 = c
  len : ∀ cap, c.effectiveMaxSamples = .ok cap →
    (c.insert change).1.len ≤ max c.len (max 1 cap)
  taken : (c.insert change).2 = .ok none →
    ∀ n, (c.insert change).1.get n =
      if n = change.sequenceNumber then some change else c.get n
  evicted : ∀ victim, (c.insert change).2 = .ok (some victim) →
    c.get victim.sequenceNumber = some victim ∧
    c.OldestOf victim.keyHash victim.sequenceNumber ∧
    (∀ d, c.perInstanceDepth = some d → d ≤ (numbersOf c.changes change.keyHash).card →
      victim.keyHash = change.keyHash) ∧
    ∀ n, (c.insert change).1.get n =
      if n = change.sequenceNumber then some change
      else if n = victim.sequenceNumber then none else c.get n

theorem Represented.insertKeeps (h : c.Represented) (change : CacheChange) :
    c.InsertKeeps change := by
  rcases h.insert_cases change with
    ⟨e, hinsert⟩ | ⟨hfresh, cap, hcap, ⟨hroom, hlen, hinsert⟩ |
      ⟨sn, victim, hget, holdest, hown, hinsert⟩⟩
  · refine ⟨?_, ?_, ?_, ?_⟩ <;> rw [hinsert]
    · exact fun _ _ => rfl
    · exact fun cap _ => le_max_left _ _
    · simp
    · simp
  · refine ⟨?_, fun cap' hcap' => ?_, ?_, ?_⟩ <;> rw [hinsert]
    · simp
    · obtain rfl := Except.ok.inj (hcap.symm.trans hcap')
      rw [len_put hfresh]
      omega
    · exact fun _ n => c.get_put change n
    · simp
  · have hsn : victim.sequenceNumber = sn := h.own sn victim hget
    refine ⟨?_, fun cap' hcap' => ?_, ?_, ?_⟩ <;> rw [hinsert]
    · simp
    · have hlt := len_evict_lt hget
      rw [len_put (get_evict_of_none hfresh sn)]
      omega
    · simp
    · intro victim' hvictim
      obtain rfl := Option.some.inj (Except.ok.inj hvictim)
      rw [hsn]
      refine ⟨hget, holdest, fun d hd hfull => ?_, fun n => ?_⟩
      · exact hown.resolve_left fun hroom =>
          absurd (instanceVictim_of_none h hroom d hd) (Nat.not_lt.mpr hfull)
      · rw [get_put, get_evict]

inductive CacheOp where
  | insert (change : CacheChange)
  | removeUpTo (sn : Int)
  | removeUpToWhere (sn : Int) (remove : CacheChange → Bool)
  | removeHighest
  | setPerInstanceDepth (depth : Option Nat)
  | setKindAndMax (kind : HistoryKind) (maxSamples : Nat)

inductive CacheReply where
  | inserted (r : Except CacheError (Option CacheChange))
  | count (n : Nat)
  | removed (change : Option CacheChange)
  | done

def step (c : HistoryCache) : CacheOp → HistoryCache × CacheReply
  | .insert change => ((c.insert change).1, .inserted (c.insert change).2)
  | .removeUpTo sn => ((c.removeUpTo sn).1, .count (c.removeUpTo sn).2)
  | .removeUpToWhere sn remove =>
    ((c.removeUpToWhere sn remove).1, .count (c.removeUpToWhere sn remove).2)
  | .removeHighest => (c.removeHighest.1, .removed c.removeHighest.2)
  | .setPerInstanceDepth depth => (c.setPerInstanceDepth depth, .done)
  | .setKindAndMax kind maxSamples => (c.setKindAndMax kind maxSamples, .done)

theorem Represented.step (h : c.Represented) (op : CacheOp) : (c.step op).1.Represented := by
  cases op with
  | insert change => exact h.insert change
  | removeUpTo sn => exact h.removeUpTo sn
  | removeUpToWhere sn remove => exact h.removeUpToWhere sn remove
  | removeHighest => exact h.removeHighest
  | setPerInstanceDepth depth => exact h.setPerInstanceDepth depth
  | setKindAndMax kind maxSamples => exact ⟨⟨h.own, h.groups⟩, h.stats, h.depth⟩

def DropsOldest (c : HistoryCache) (depth : Nat) : Prop :=
  ∀ key, ∀ n ∈ numbersOf c.changes key,
    n ∉ numbersOf (c.setPerInstanceDepth (some depth)).changes key →
      ∀ k ∈ numbersOf (c.setPerInstanceDepth (some depth)).changes key, n < k

theorem dropsOldest (c : HistoryCache) (depth : Nat) : c.DropsOldest depth := by
  intro key n hn hgone k hk
  rw [numbersOf_setPerInstanceDepth, Finset.mem_filter] at hgone hk
  by_contra hle
  have hmono : ((numbersOf c.changes key).filter fun j => n < j).card ≤
      ((numbersOf c.changes key).filter fun j => k < j).card := by
    refine Finset.card_le_card fun j hj => ?_
    obtain ⟨hmem, hlt⟩ := Finset.mem_filter.mp hj
    exact Finset.mem_filter.mpr ⟨hmem, by omega⟩
  exact hgone ⟨hn, hmono.trans_lt hk.2⟩

theorem Represented.snapshot (h : c.Represented)
    (hsns : ∀ n ch, c.get n = some ch → n ≠ statsSentinelNoSn) :
    c.stats.snapshot = ⟨c.len, c.evictedCount, c.maxSn, c.minSn⟩ := by
  have hdecode : ∀ sn : Option Int, (∀ n, sn = some n → n ≠ statsSentinelNoSn) →
      decodeSnAtom (encodeSnAtom sn) = sn := by
    intro sn hsn
    cases sn with
    | none => rfl
    | some n => simp [encodeSnAtom, decodeSnAtom, hsn n rfl]
  rw [h.stats, HistoryCacheStats.snapshot]
  rw [hdecode c.maxSn, hdecode c.minSn]
  · intro n hn
    obtain ⟨⟨ch, hget⟩, -⟩ := minKey?_eq_some.mp hn
    exact hsns n ch hget
  · intro n hn
    obtain ⟨⟨ch, hget⟩, -⟩ := maxKey?_eq_some.mp hn
    exact hsns n ch hget

/-- In every state a cache can be brought to, the index is the regrouping of the
changes, the statistics are those of the map, no instance is over its depth, and the
next insert or change of depth keeps what is promised for it. -/
theorem representation_holds_over_a_run (kind : HistoryKind) (maxSamples : Nat)
    {h : History CacheOp CacheReply} {c : HistoryCache}
    (hr : Reaches step unrestricted (newWithKind kind maxSamples) h c) :
    c.Represented ∧
    ((∀ n ch, c.get n = some ch → n ≠ statsSentinelNoSn) →
      c.stats.snapshot = ⟨c.len, c.evictedCount, c.maxSn, c.minSn⟩) ∧
    (∀ change, c.InsertKeeps change) ∧ ∀ depth, c.DropsOldest depth := by
  have hrep : c.Represented := hr.invariant (P := fun _ c => c.Represented)
    (represented_new kind maxSamples) fun _ _ op h _ => h.step op
  exact ⟨hrep, hrep.snapshot, hrep.insertKeeps, c.dropsOldest⟩

/-- A run with a depth of one that evicts. -/
theorem representation_holds_after_eviction :
    let c := newWithKind .keepAll 4
    let c := (c.step (.setPerInstanceDepth (some 0))).1
    let c := (c.step (.insert (.alive 1 []))).1
    let c := (c.step (.insert (.alive 2 []))).1
    c.Represented ∧ c.stats.snapshot = ⟨1, 1, some 2, some 2⟩ := by
  have hall := representation_holds_over_a_run .keepAll 4
    (.next (i := .insert (.alive 2 [])) (.next (i := .insert (.alive 1 []))
      (.next (i := .setPerInstanceDepth (some 0)) .start trivial) trivial) trivial)
  exact ⟨hall.1, by decide⟩

end HistoryCache
end ZeroDds.Rtps
