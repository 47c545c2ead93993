/-
The set of numbers a list of ranges stands for.

A reader remembers what it handed out of a writer as sorted, disjoint, non-adjacent ranges.
-/
import Mathlib.Data.List.TakeWhile
import ZeroDds.Rtps.WriterProxyState

namespace ZeroDds.Rtps.SnRanges

instance : Membership Int SnRanges := ⟨fun r n => ∃ x ∈ r.ranges, x.1 ≤ n ∧ n ≤ x.2⟩

variable {r : SnRanges} {n : Int}

theorem mem_def : n ∈ r ↔ ∃ x ∈ r.ranges, x.1 ≤ n ∧ n ≤ x.2 := Iff.rfl

structure Apart (r : SnRanges) : Prop where
  sorted : r.ranges.Pairwise fun a b => a.2 + 1 < b.1
  filled : ∀ x ∈ r.ranges, x.1 ≤ x.2

theorem apart_empty : empty.Apart := ⟨List.Pairwise.nil, by simp [empty]⟩

@[simp] theorem not_mem_empty (n : Int) : n ∉ empty := by simp [mem_def, empty]

variable {left right : List (Int × Int)}

theorem mem_mk_append :
    n ∈ SnRanges.mk (left ++ right) ↔ n ∈ SnRanges.mk left ∨ n ∈ SnRanges.mk right := by
  simp only [mem_def, List.mem_append]
  constructor
  · rintro ⟨x, hx | hx, hn⟩
    · exact .inl ⟨x, hx, hn⟩
    · exact .inr ⟨x, hx, hn⟩
  · rintro (⟨x, hx, hn⟩ | ⟨x, hx, hn⟩)
    · exact ⟨x, .inl hx, hn⟩
    · exact ⟨x, .inr hx, hn⟩

theorem mem_mk_cons {x : Int × Int} :
    n ∈ SnRanges.mk (x :: right) ↔ (x.1 ≤ n ∧ n ≤ x.2) ∨ n ∈ SnRanges.mk right := by
  simp [mem_def]

structure Split (r : SnRanges) (sn : Int) (left right : List (Int × Int)) : Prop where
  ranges : r.ranges = left ++ right
  left : ∀ x ∈ left, x.2 < sn
  right : ∀ x ∈ right, sn ≤ x.2

theorem Apart.split (h : r.Apart) (sn : Int) :
    r.Split sn (r.ranges.takeWhile fun x => x.2 < sn)
      (r.ranges.drop (r.ranges.takeWhile fun x => decide (x.2 < sn)).length) := by
  have hdrop : r.ranges.drop (r.ranges.takeWhile fun x => decide (x.2 < sn)).length =
      r.ranges.dropWhile fun x => decide (x.2 < sn) := by
    have hleft : List.drop (r.ranges.takeWhile fun x => decide (x.2 < sn)).length
        ((r.ranges.takeWhile fun x => decide (x.2 < sn)) ++
          r.ranges.dropWhile fun x => decide (x.2 < sn)) =
        r.ranges.dropWhile fun x => decide (x.2 < sn) := List.drop_left
    rwa [List.takeWhile_append_dropWhile] at hleft
  rw [hdrop]
  refine ⟨List.takeWhile_append_dropWhile.symm, fun x hx => ?_, fun x hx => ?_⟩
  · simpa using List.mem_takeWhile_imp hx
  · cases hright : r.ranges.dropWhile fun x => decide (x.2 < sn) with
    | nil => simp [hright] at hx
    | cons y rest =>
      have hy : sn ≤ y.2 := by
        have hhead := List.head?_dropWhile_not (fun x => decide (x.2 < sn)) r.ranges
        rw [hright] at hhead
        simpa using hhead
      rw [hright] at hx
      rcases List.mem_cons.mp hx with rfl | hx
      · exact hy
      · have hsub : (y :: rest).Pairwise fun a b => a.2 + 1 < b.1 := by
          rw [← hright]
          exact h.sorted.sublist (List.dropWhile_sublist _)
        have hlt := (List.pairwise_cons.mp hsub).1 x hx
        have hfilled := h.filled x ((List.dropWhile_sublist _).subset (hright ▸
          List.mem_cons_of_mem _ hx))
        omega

/-- What an insert leaves: the number is there, nothing else is new, and nothing is
forgotten while there is room for one more range. -/
structure Inserted (r : SnRanges) (sn : Int) (r' : SnRanges) : Prop where
  apart : r'.Apart
  sub : ∀ n, n ∈ r' → n ∈ r ∨ n = sn
  kept : r.ranges.length < maxRanges → ∀ n, n ∈ r ∨ n = sn → n ∈ r'

/-- `all` are the ranges of the set with the number added, and an insert leaves them, or all but
the lowest where they are more than `maxRanges`. -/
structure Grown (r : SnRanges) (sn : Int) (r' all : SnRanges) : Prop where
  apart : all.Apart
  mem : ∀ n, n ∈ all ↔ n ∈ r ∨ n = sn
  cut : r' = all ∧ all.ranges.length ≤ max r.ranges.length maxRanges ∨
    maxRanges < all.ranges.length ∧ all.ranges.length ≤ r.ranges.length + 1 ∧
      r' = ⟨all.ranges.tail⟩

theorem apart_between {x : Int × Int} (hleft : (SnRanges.mk left).Apart)
    (hright : (SnRanges.mk right).Apart) (hx : x.1 ≤ x.2) (hbefore : ∀ a ∈ left, a.2 + 1 < x.1)
    (hbehind : ∀ b ∈ right, x.2 + 1 < b.1) :
    (SnRanges.mk (left ++ x :: right)).Apart where
  sorted := by
    refine List.pairwise_append.mpr ⟨hleft.sorted, List.pairwise_cons.mpr ⟨hbehind,
      hright.sorted⟩, fun a ha b hb => ?_⟩
    have hax := hbefore a ha
    rcases List.mem_cons.mp hb with rfl | hb
    · exact hax
    · have hxb := hbehind b hb
      omega
  filled := by
    intro y hy
    rcases List.mem_append.mp hy with hy | hy
    · exact hleft.filled y hy
    · rcases List.mem_cons.mp hy with rfl | hy
      · exact hx
      · exact hright.filled y hy

theorem Apart.sublist {l l' : List (Int × Int)} (h : (SnRanges.mk l).Apart)
    (hsub : l'.Sublist l) : (SnRanges.mk l').Apart :=
  ⟨h.sorted.sublist hsub, fun x hx => h.filled x (hsub.subset hx)⟩

theorem Grown.inserted {sn : Int} {r' all : SnRanges} (h : r.Grown sn r' all) :
    r.Inserted sn r' := by
  rcases h.cut with ⟨rfl, -⟩ | ⟨hover, hlen, rfl⟩
  · exact ⟨h.apart, fun n => (h.mem n).mp, fun _ n => (h.mem n).mpr⟩
  · refine ⟨Apart.sublist h.apart (List.tail_sublist _), fun n hn => ?_, fun hroom => by omega⟩
    obtain ⟨x, hx, hle⟩ := hn
    exact (h.mem n).mp ⟨x, (List.tail_sublist _).subset hx, hle⟩

theorem exists_joinLeft {sn : Int} (h : (SnRanges.mk left).Apart) (hlt : ∀ x ∈ left, x.2 < sn) :
    ∃ rest start, (∀ x ∈ rest, x.2 + 1 < start) ∧ start ≤ sn ∧ rest.Sublist left ∧
      (∀ n, n ∈ SnRanges.mk left ↔ n ∈ SnRanges.mk rest ∨ (start ≤ n ∧ n < sn)) ∧
      ((left.getLast?.filter fun x => decide (x.2 + 1 = sn)) = none ∧ rest = left ∧ start = sn ∨
        ∃ l, (left.getLast?.filter fun x => decide (x.2 + 1 = sn)) = some l ∧
          rest = left.dropLast ∧ start = l.1) := by
  rcases List.eq_nil_or_concat left with rfl | ⟨rest, l, rfl⟩
  · exact ⟨[], sn, by simp, le_refl _, .refl _, by simp [mem_def], .inl (by simp)⟩
  rw [List.concat_eq_append] at h hlt ⊢
  have hl := hlt l (by simp)
  have hfilled := h.filled l (by simp)
  have hcross : ∀ x ∈ rest, x.2 + 1 < l.1 := fun x hx =>
    (List.pairwise_append.mp h.sorted).2.2 x hx l (by simp)
  by_cases hadj : l.2 + 1 = sn
  · refine ⟨rest, l.1, hcross, by omega, List.sublist_append_left _ _, fun n => ?_,
      .inr ⟨l, by simp [hadj], by simp, rfl⟩⟩
    rw [mem_mk_append, mem_mk_cons]
    have hnil : ¬n ∈ SnRanges.mk [] := by simp [mem_def]
    constructor
    · rintro (hn | hn | hn)
      · exact .inl hn
      · exact .inr (by omega)
      · exact absurd hn hnil
    · rintro (hn | hn)
      · exact .inl hn
      · exact .inr (.inl (by omega))
  · refine ⟨rest ++ [l], sn, fun x hx => ?_, le_refl _, .refl _, fun n => ?_,
      .inl (by simp [hadj])⟩
    · rcases List.mem_append.mp hx with hx | hx
      · have hxl := hcross x hx
        omega
      · obtain rfl := List.mem_singleton.mp hx
        omega
    · constructor
      · exact .inl
      · rintro (hn | hn)
        · exact hn
        · omega

theorem exists_joinRight {sn : Int} (h : (SnRanges.mk right).Apart) (hlt : ∀ x ∈ right, sn < x.1) :
    ∃ rest stop, (∀ x ∈ rest, stop + 1 < x.1) ∧ sn ≤ stop ∧ rest.Sublist right ∧
      (∀ n, n ∈ SnRanges.mk right ↔ (sn < n ∧ n ≤ stop) ∨ n ∈ SnRanges.mk rest) ∧
      ((right.head?.filter fun x => decide (x.1 = sn + 1)) = none ∧ rest = right ∧ stop = sn ∨
        ∃ b, (right.head?.filter fun x => decide (x.1 = sn + 1)) = some b ∧
          rest = right.tail ∧ stop = b.2) := by
  cases right with
  | nil => exact ⟨[], sn, by simp, le_refl _, .refl _, by simp [mem_def], .inl (by simp)⟩
  | cons b rest =>
    have hb := hlt b (by simp)
    have hfilled := h.filled b (by simp)
    have hcross := (List.pairwise_cons.mp h.sorted).1
    by_cases hadj : b.1 = sn + 1
    · refine ⟨rest, b.2, hcross, by omega, List.sublist_cons_self _ _, fun n => ?_,
        .inr ⟨b, by simp [hadj], by simp, rfl⟩⟩
      rw [mem_mk_cons]
      refine or_congr_left ?_
      omega
    · refine ⟨b :: rest, sn, fun x hx => ?_, le_refl _, .refl _, fun n => ?_,
        .inl (by simp [hadj])⟩
      · rcases List.mem_cons.mp hx with rfl | hx
        · omega
        · have hbx := hcross x hx
          omega
      · constructor
        · exact .inr
        · rintro (hn | hn)
          · omega
          · exact hn

theorem length_dropLast_of_filter {f : Int × Int → Bool} {x : Int × Int}
    (h : left.getLast?.filter f = some x) : left.dropLast.length + 1 = left.length := by
  cases left with
  | nil => simp at h
  | cons => simp

theorem length_tail_of_filter {f : Int × Int → Bool} {x : Int × Int}
    (h : right.head?.filter f = some x) : right.tail.length + 1 = right.length := by
  cases right with
  | nil => simp at h
  | cons => simp

theorem insertAt_grown (h : r.Apart) (sn : Int) :
    ((r.insertAt sn).2 = true ↔ sn ∉ r) ∧
      ((r.insertAt sn).2 = true → ∃ all, r.Grown sn (r.insertAt sn).1 all) ∧
      ((r.insertAt sn).2 = false → (r.insertAt sn).1 = r) := by
  have hsplit := h.split sn
  unfold insertAt
  simp only
  generalize r.ranges.takeWhile (fun x => decide (x.2 < sn)) = left at hsplit ⊢
  generalize r.ranges.drop left.length = right at hsplit ⊢
  obtain ⟨hranges, hleft, hright⟩ := hsplit
  have hr : r = ⟨left ++ right⟩ := by rw [← hranges]
  have hpair := h.sorted
  rw [hranges] at hpair
  obtain ⟨-, hrsorted, hcross⟩ := List.pairwise_append.mp hpair
  have hla : (SnRanges.mk left).Apart :=
    Apart.sublist (l := r.ranges) h (hranges ▸ List.sublist_append_left _ _)
  have hra : (SnRanges.mk right).Apart :=
    Apart.sublist (l := r.ranges) h (hranges ▸ List.sublist_append_right _ _)
  have hnotleft : sn ∉ SnRanges.mk left := by
    rintro ⟨x, hx, -, hle⟩
    have hlt := hleft x hx
    omega
  by_cases hin : (right.head?.any fun x => decide (x.1 ≤ sn)) = true
  · -- the number is in the first range that does not end before it
    have hmem : sn ∈ r := by
      rw [hr, mem_mk_append]
      cases hhead : right with
      | nil => simp [hhead] at hin
      | cons x rest =>
        rw [hhead] at hin hright
        exact .inr ⟨x, List.mem_cons_self, by simpa using hin,
          hright x List.mem_cons_self⟩
    simp [hin, hmem]
  · have hbehind : ∀ x ∈ right, sn < x.1 := by
      intro x hx
      cases hhead : right with
      | nil => simp [hhead] at hx
      | cons y rest =>
        rw [hhead] at hin hx hrsorted
        have hy : sn < y.1 := by simpa using hin
        rcases List.mem_cons.mp hx with rfl | hx
        · exact hy
        · have hyx := (List.pairwise_cons.mp hrsorted).1 x hx
          have hyy : y.1 ≤ y.2 := hra.filled y (by rw [hhead]; exact List.mem_cons_self)
          omega
    have hnot : sn ∉ r := by
      rw [hr, mem_mk_append]
      rintro (hmem | ⟨x, hx, hle, -⟩)
      · exact hnotleft hmem
      · have hlt := hbehind x hx
        omega
    obtain ⟨lrest, start, hlrest, hstart, hlsub, hlmem, hlcase⟩ := exists_joinLeft hla hleft
    obtain ⟨rrest, stop, hrrest, hstop, hrsub, hrmem, hrcase⟩ := exists_joinRight hra hbehind
    have hapart : (SnRanges.mk (lrest ++ (start, stop) :: rrest)).Apart :=
      apart_between (hla.sublist hlsub) (hra.sublist hrsub) (by omega)
        hlrest hrrest
    have hmem : ∀ n, n ∈ SnRanges.mk (lrest ++ (start, stop) :: rrest) ↔ n ∈ r ∨ n = sn := by
      intro n
      rw [hr, mem_mk_append, mem_mk_append, mem_mk_cons, hlmem, hrmem]
      have hmid : (start ≤ n ∧ n ≤ stop) ↔
          (start ≤ n ∧ n < sn) ∨ n = sn ∨ (sn < n ∧ n ≤ stop) := by omega
      rw [hmid]
      simp only [or_assoc, or_left_comm, or_comm]
    have hlen : r.ranges.length = left.length + right.length := by
      rw [hranges, List.length_append]
    have hmerged : lrest.length + rrest.length + 1 ≤ r.ranges.length →
        ∃ all, r.Grown sn ⟨lrest ++ (start, stop) :: rrest⟩ all := by
      intro hle
      refine ⟨_, hapart, hmem, .inl ⟨rfl, ?_⟩⟩
      simp only [List.length_append, List.length_cons]
      omega
    rw [if_neg hin]
    rcases hlcase with ⟨hl, rfl, rfl⟩ | ⟨l, hl, rfl, rfl⟩ <;>
      rcases hrcase with ⟨hb, rfl, rfl⟩ | ⟨b, hb, rfl, rfl⟩ <;> rw [hl, hb]
    · -- a range of its own, and the lowest may be forgotten for it
      refine ⟨by simp [hnot], fun _ => ⟨_, hapart, hmem, ?_⟩, by simp⟩
      simp only [List.length_append, List.length_cons]
      split
      · exact .inr ⟨by omega, by omega, rfl⟩
      · exact .inl ⟨rfl, by omega⟩
    · have hright := length_tail_of_filter hb
      exact ⟨by simp [hnot], fun _ => hmerged (by omega), by simp⟩
    · have hleft := length_dropLast_of_filter hl
      exact ⟨by simp [hnot], fun _ => hmerged (by omega), by simp⟩
    · have hleft := length_dropLast_of_filter hl
      have hright := length_tail_of_filter hb
      exact ⟨by simp [hnot], fun _ => hmerged (by omega), by simp⟩

theorem insert_grown (h : r.Apart) (sn : Int) :
    ((r.insert sn).2 = true ↔ sn ∉ r) ∧
      ((r.insert sn).2 = true → ∃ all, r.Grown sn (r.insert sn).1 all) ∧
      ((r.insert sn).2 = false → (r.insert sn).1 = r) := by
  unfold insert
  rcases List.eq_nil_or_concat r.ranges with hnil | ⟨rest, last, hconcat⟩
  · simp only [hnil, List.getLast?_nil]
    exact insertAt_grown h sn
  rw [List.concat_eq_append] at hconcat
  simp only [hconcat, List.getLast?_append, List.getLast?_singleton, Option.some_or]
  split
  · next hnext =>
    have hr : r = ⟨rest ++ [last]⟩ := by rw [← hconcat]
    have hall : (SnRanges.mk (rest ++ [last])).Apart := hr ▸ h
    have hfilled := hall.filled last (by simp)
    have hcross : ∀ x ∈ rest, x.2 + 1 < last.1 := fun x hx =>
      (List.pairwise_append.mp hall.sorted).2.2 x hx last (by simp)
    have hapart : (SnRanges.mk (rest ++ [(last.1, sn)])).Apart :=
      apart_between (hall.sublist (List.sublist_append_left _ _)) apart_empty
        (by omega) hcross (by simp)
    have hmem : ∀ n, n ∈ SnRanges.mk (rest ++ [(last.1, sn)]) ↔ n ∈ r ∨ n = sn := by
      intro n
      rw [hr, mem_mk_append, mem_mk_append, mem_mk_cons, mem_mk_cons]
      have hrange : (last.1 ≤ n ∧ n ≤ sn) ↔ (last.1 ≤ n ∧ n ≤ last.2) ∨ n = sn := by omega
      rw [hrange]
      simp only [or_assoc, or_left_comm, or_comm]
    have hnot : sn ∉ r := by
      rw [hr, mem_mk_append, mem_mk_cons]
      rintro (⟨x, hx, -, hle⟩ | hle | hnil)
      · have hxl := hcross x hx
        omega
      · omega
      · exact not_mem_empty sn hnil
    refine ⟨by simp [hnot], fun _ => ?_, by simp⟩
    simp only [List.dropLast_concat]
    exact ⟨_, hapart, hmem, .inl ⟨rfl, by simp [hconcat]⟩⟩
  · exact insertAt_grown h sn

theorem insert_spec (h : r.Apart) (sn : Int) :
    ((r.insert sn).2 = true ↔ sn ∉ r) ∧
      ((r.insert sn).2 = true → r.Inserted sn (r.insert sn).1) ∧
      ((r.insert sn).2 = false → (r.insert sn).1 = r) := by
  obtain ⟨hanswer, hgrown, hold⟩ := insert_grown h sn
  refine ⟨hanswer, fun hnew => ?_, hold⟩
  obtain ⟨_, hall⟩ := hgrown hnew
  exact hall.inserted

end ZeroDds.Rtps.SnRanges
