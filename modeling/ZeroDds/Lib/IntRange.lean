/-
Walks over an interval of the integers.

`Int.range lo hi` lists `lo, …, hi - 1`.
-/
import Mathlib.Data.Int.Range
import Mathlib.Data.Int.Interval

namespace ZeroDds

variable {lo hi mid : Int} {p : Int → Bool}

theorem range_eq_nil (h : hi ≤ lo) : Int.range lo hi = [] := by
  have : (hi - lo).toNat = 0 := by omega
  simp [Int.range, this]

theorem range_cons (h : lo < hi) : Int.range lo hi = lo :: Int.range (lo + 1) hi := by
  have : (hi - lo).toNat = (hi - (lo + 1)).toNat + 1 := by omega
  simp only [Int.range, this, List.range_succ_eq_map, List.map_cons, List.map_map]
  refine congrArg₂ List.cons (by simp) (List.map_congr_left fun n _ => ?_)
  simp only [Function.comp_apply]
  omega

theorem range_append (hlo : lo ≤ mid) (hhi : mid ≤ hi) :
    Int.range lo hi = Int.range lo mid ++ Int.range mid hi := by
  obtain ⟨n, hn⟩ : ∃ n : Nat, mid - lo = n := ⟨(mid - lo).toNat, by omega⟩
  induction n generalizing lo with
  | zero =>
    have : lo = mid := by omega
    subst this
    simp [range_eq_nil (le_refl lo)]
  | succ n ih =>
    rw [range_cons (by omega), range_cons (show lo < mid by omega),
      ih (by omega) (by omega), List.cons_append]

theorem range_snoc (h : lo ≤ hi) : Int.range lo (hi + 1) = Int.range lo hi ++ [hi] := by
  rw [range_append h (by omega), range_cons (show hi < hi + 1 by omega), range_eq_nil (le_refl _)]

theorem pairwise_range (lo hi : Int) : (Int.range lo hi).Pairwise (· < ·) := by
  refine List.pairwise_map.mpr (List.pairwise_lt_range.imp fun h => ?_)
  omega

theorem filter_range_of_reject (hlo : lo ≤ mid) (h : ∀ n, lo ≤ n → n < mid → p n = false) :
    (Int.range lo hi).filter p = (Int.range mid hi).filter p := by
  have reject : ∀ b ≤ mid, (Int.range lo b).filter p = [] := fun b hb => by
    refine List.filter_eq_nil_iff.mpr fun n hn => ?_
    obtain ⟨h1, h2⟩ := Int.mem_range_iff.mp hn
    simp [h n h1 (by omega)]
  rcases le_or_gt mid hi with hhi | hhi
  · rw [range_append hlo hhi, List.filter_append, reject mid (le_refl _), List.nil_append]
  · rw [reject hi (by omega), range_eq_nil (le_of_lt hhi), List.filter_nil]

theorem find?_range_of_reject (hlo : lo ≤ mid) (h : ∀ n, lo ≤ n → n < mid → p n = false) :
    (Int.range lo hi).find? p = (Int.range mid hi).find? p := by
  rw [← List.head?_filter, ← List.head?_filter, filter_range_of_reject hlo h]

theorem find?_range_eq_some {n : Int} :
    (Int.range lo hi).find? p = some n ↔
      p n = true ∧ lo ≤ n ∧ n < hi ∧ ∀ m, lo ≤ m → m < n → p m = false := by
  constructor
  · intro hf
    have hp := List.find?_some hf
    obtain ⟨h1, h2⟩ := Int.mem_range_iff.mp (List.mem_of_find?_eq_some hf)
    refine ⟨hp, h1, h2, fun m hm hmn => ?_⟩
    rw [range_append h1 (le_of_lt h2), List.find?_append] at hf
    cases hfm : (Int.range lo n).find? p with
    | none => simpa using List.find?_eq_none.mp hfm m (Int.mem_range_iff.mpr ⟨hm, hmn⟩)
    | some k =>
      rw [hfm, Option.some_or] at hf
      have := Int.mem_range_iff.mp (List.mem_of_find?_eq_some hfm)
      have : k = n := Option.some.inj hf
      omega
  · rintro ⟨hp, h1, h2, hmin⟩
    rw [find?_range_of_reject h1 hmin, range_cons h2, List.find?_cons_of_pos hp]

theorem find?_range_eq_none :
    (Int.range lo hi).find? p = none ↔ ∀ n, lo ≤ n → n < hi → p n = false := by
  rw [List.find?_eq_none]
  constructor
  · intro h n h1 h2
    simpa using h n (Int.mem_range_iff.mpr ⟨h1, h2⟩)
  · intro h n hn
    obtain ⟨h1, h2⟩ := Int.mem_range_iff.mp hn
    simp [h n h1 h2]

theorem card_filter_not_mem_range (lo hi : Int) (s : Finset Int) :
    ((Int.range lo hi).filter (fun n => n ∉ s)).length =
      (hi - lo).toNat - (s.filter fun n => lo ≤ n ∧ n < hi).card := by
  have hnodup : (Int.range lo hi).Nodup := (pairwise_range lo hi).imp fun h => ne_of_lt h
  have hout : ((Int.range lo hi).filter (fun n => n ∉ s)).length =
      (Finset.Ico lo hi \ s).card := by
    rw [← List.toFinset_card_of_nodup (hnodup.filter _)]
    refine congrArg Finset.card (Finset.ext fun n => ?_)
    simp [Int.mem_range_iff]
  have hin : (s.filter fun n => lo ≤ n ∧ n < hi) = Finset.Ico lo hi ∩ s := by
    refine Finset.ext fun n => ?_
    simp [and_comm]
  rw [hout, hin, Finset.card_sdiff, Int.card_Ico, Finset.inter_comm]

end ZeroDds
