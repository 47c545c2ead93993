/-
The largest elements of a finite set.

`largest d s` are the elements of `s` with fewer than `d` above them.
-/
import Mathlib.Data.Finset.Max
import ZeroDds.Lib.SortedMap

namespace ZeroDds

variable {K V : Type} [LinearOrder K] {d : Nat} {s t : Finset K}

def largest (d : Nat) (s : Finset K) : Finset K :=
  s.filter fun k => (s.filter (k < ·)).card < d

theorem mem_largest {k : K} : k ∈ largest d s ↔ k ∈ s ∧ (s.filter (k < ·)).card < d :=
  Finset.mem_filter

theorem largest_subset : largest d s ⊆ s := Finset.filter_subset _ _

theorem card_largest : (largest d s).card = min d s.card := by
  induction s using Finset.induction_on_min with
  | empty => simp [largest]
  | insert a s hmin ih =>
    have hnot : a ∉ s := fun ha => lt_irrefl a (hmin a ha)
    have habove : ∀ k ∈ s, (insert a s).filter (k < ·) = s.filter (k < ·) := by
      intro k hk
      rw [Finset.filter_insert, if_neg (lt_asymm (hmin k hk))]
    have hall : (insert a s).filter (a < ·) = s := by
      rw [Finset.filter_insert, if_neg (lt_irrefl a)]
      exact Finset.filter_true_of_mem hmin
    have hrest : s.filter (fun k => ((insert a s).filter (k < ·)).card < d) = largest d s :=
      Finset.filter_congr fun k hk => by rw [habove k hk]
    rw [largest, Finset.filter_insert, hall, hrest, Finset.card_insert_of_notMem hnot]
    split
    · next hroom =>
      rw [Finset.card_insert_of_notMem fun h => hnot (largest_subset h), ih]
      omega
    · next hfull =>
      omega

theorem largest_of_between (hlow : largest d t ⊆ s) (hhigh : s ⊆ t) :
    largest d s = largest d t := by
  ext k
  rw [mem_largest, mem_largest]
  constructor
  · rintro ⟨hk, hfew⟩
    refine ⟨hhigh hk, ?_⟩
    have hinside : largest d (t.filter (k < ·)) ⊆ s.filter (k < ·) := by
      intro j hj
      obtain ⟨hj, hless⟩ := mem_largest.mp hj
      obtain ⟨hjt, hkj⟩ := Finset.mem_filter.mp hj
      have hsame : (t.filter (k < ·)).filter (j < ·) = t.filter (j < ·) := by
        rw [Finset.filter_filter]
        exact Finset.filter_congr fun i _ => ⟨fun h => h.2, fun h => ⟨hkj.trans h, h⟩⟩
      rw [hsame] at hless
      exact Finset.mem_filter.mpr ⟨hlow (mem_largest.mpr ⟨hjt, hless⟩), hkj⟩
    have hcard := Finset.card_le_card hinside
    rw [card_largest] at hcard
    omega
  · rintro ⟨hk, hfew⟩
    refine ⟨hlow (mem_largest.mpr ⟨hk, hfew⟩), ?_⟩
    exact (Finset.card_le_card (Finset.filter_subset_filter _ hhigh)).trans_lt hfew

theorem largest_insert (k : K) : largest d (insert k (largest d s)) = largest d (insert k s) := by
  refine largest_of_between (fun j hj => ?_) (Finset.insert_subset_insert k largest_subset)
  obtain ⟨hj, hfew⟩ := mem_largest.mp hj
  rcases Finset.mem_insert.mp hj with rfl | hj
  · exact Finset.mem_insert_self _ _
  · refine Finset.mem_insert_of_mem (mem_largest.mpr ⟨hj, ?_⟩)
    refine (Finset.card_le_card ?_).trans_lt hfew
    exact Finset.filter_subset_filter _ (Finset.subset_insert k s)

namespace SortedMap

theorem get?_trim (m : SortedMap K V) (k : K) (v : V) :
    (m.dropFirst (m.size - d)).get? k = some v ↔
      m.get? k = some v ∧ k ∈ largest d m.keys.toFinset := by
  have habove : ∀ k, (m.keys.toFinset.filter (k < ·)).card =
      (m.entries.filter fun e => decide (k < e.1)).length := by
    intro k
    have hfilter : m.keys.toFinset.filter (k < ·) =
        (m.keys.filter fun j => decide (k < j)).toFinset := by
      simp
    rw [hfilter, List.toFinset_card_of_nodup (m.keys_nodup.filter _), keys, List.filter_map,
      List.length_map]
    rfl
  rw [mem_largest, habove, get?_eq_some, get?_eq_some]
  constructor
  · intro hmem
    have hentry := List.mem_of_mem_drop hmem
    refine ⟨hentry, ?_, ?_⟩
    · rw [List.mem_toFinset]
      exact List.mem_map_of_mem hentry
    · -- What is above it comes behind it among the last `d`.
      have hsorted := m.sorted
      rw [← List.take_append_drop (m.size - d) m.entries] at hsorted ⊢
      have hlen : (m.entries.drop (m.size - d)).length ≤ d := by
        rw [List.length_drop]
        show m.size - (m.size - d) ≤ d
        omega
      have hfront : (m.entries.take (m.size - d)).filter (fun e => decide (k < e.1)) = [] := by
        refine List.filter_eq_nil_iff.mpr fun e he => ?_
        have hlt := (List.pairwise_append.mp hsorted).2.2 e he _ hmem
        simpa using hlt.le
      rw [List.filter_append, hfront, List.nil_append]
      refine lt_of_lt_of_le ?_ hlen
      refine List.length_filter_lt_length_iff_exists.mpr ⟨(k, v), hmem, ?_⟩
      simp
  · rintro ⟨hentry, -, hfew⟩
    by_contra hdropped
    have hfront : (k, v) ∈ m.entries.take (m.size - d) := by
      rw [← List.take_append_drop (m.size - d) m.entries, List.mem_append] at hentry
      exact hentry.resolve_right hdropped
    have hsorted := m.sorted
    rw [← List.take_append_drop (m.size - d) m.entries] at hsorted hfew
    have hback : (m.entries.drop (m.size - d)).filter (fun e => decide (k < e.1)) =
        m.entries.drop (m.size - d) := by
      refine List.filter_eq_self.mpr fun e he => ?_
      exact decide_eq_true ((List.pairwise_append.mp hsorted).2.2 _ hfront e he)
    have hpos := List.length_pos_of_mem hfront
    rw [List.length_take] at hpos
    rw [List.filter_append, List.length_append, hback, List.length_drop] at hfew
    have hsize : m.entries.length = m.size := rfl
    omega

end SortedMap

end ZeroDds
