/-
What a run of inserts leaves of the numbers handed out.
-/
import Mathlib.Data.Finset.Card
import ZeroDds.Rtps.CommittedRanges
import ZeroDds.Rtps.ReaderSums

namespace ZeroDds.Rtps.SnRanges

variable {r : SnRanges} {sn : Int} {before sns : List Int}

/-- `none` where a sum leaves the 64 bits: a panic in a build that checks for overflow. -/
def insertChecked (r : SnRanges) (sn : Int) : Option (SnRanges × Bool) :=
  if AllInI64 (r.insertSums sn) then some (r.insert sn) else none

def insertAll (sns : List Int) : Option SnRanges :=
  sns.foldlM (fun r sn => (r.insertChecked sn).map Prod.fst) empty

/-- How many ranges the numbers make: one for each whose predecessor is not among them. -/
def rangeCount (sns : List Int) : Nat := (sns.toFinset.filter fun n => n - 1 ∉ sns).card

def NeverOver (sns : List Int) : Prop := ∀ k, rangeCount (sns.take k) ≤ maxRanges

theorem Apart.end_mem (h : r.Apart) {x : Int × Int} (hx : x ∈ r.ranges) : x.1 ∈ r ∧ x.2 ∈ r :=
  ⟨⟨x, hx, le_refl _, h.filled x hx⟩, ⟨x, hx, h.filled x hx, le_refl _⟩⟩

theorem Apart.pred_not_mem (h : r.Apart) {x : Int × Int} (hx : x ∈ r.ranges) : x.1 - 1 ∉ r := by
  rintro ⟨y, hy, hin⟩
  have hout : ∀ a ∈ r.ranges, ∀ b ∈ r.ranges, ¬(b.1 ≤ a.1 - 1 ∧ a.1 - 1 ≤ b.2) := by
    refine List.Pairwise.forall_of_forall_of_flip (fun a _ => by omega)
      (h.sorted.imp_of_mem fun ha _ hab => ?_) (h.sorted.imp fun hab => ?_)
    · have hfilled := h.filled _ ha
      omega
    · unfold flip
      omega
  exact hout x hx y hy hin

theorem Apart.length_eq_rangeCount (h : r.Apart) (hmem : ∀ n, n ∈ r ↔ n ∈ sns) :
    r.ranges.length = rangeCount sns := by
  have hnodup : (r.ranges.map Prod.fst).Nodup := by
    refine List.pairwise_map.mpr (h.sorted.imp_of_mem fun ha _ hab => ?_)
    have hfilled := h.filled _ ha
    omega
  have hstarts : (r.ranges.map Prod.fst).toFinset =
      sns.toFinset.filter fun n => n - 1 ∉ sns := by
    ext n
    simp only [List.mem_toFinset, List.mem_map, Finset.mem_filter, ← hmem]
    constructor
    · rintro ⟨x, hx, rfl⟩
      exact ⟨(h.end_mem hx).1, h.pred_not_mem hx⟩
    · rintro ⟨⟨x, hx, hlow, hhigh⟩, hpred⟩
      refine ⟨x, hx, ?_⟩
      by_contra hne
      exact hpred ⟨x, hx, by omega, by omega⟩
  rw [rangeCount, ← hstarts, List.toFinset_card_of_nodup hnodup, List.length_map]

/-! ### One insert -/

theorem insertSums_inI64 (h : r.Apart) (hrange : ∀ n ∈ r, InI64 n) (hmax : i64Max ∉ r)
    (hsn : InI64 sn) : AllInI64 (r.insertSums sn) := by
  have hend : ∀ x ∈ r.ranges, InI64 (x.2 + 1) := by
    intro x hx
    have hmem := (h.end_mem hx).2
    have hin := hrange _ hmem
    have hne : x.2 ≠ i64Max := fun heq => hmax (heq ▸ hmem)
    unfold InI64 at hin ⊢
    omega
  have hat : AllInI64 (r.insertAtSums sn) := by
    unfold insertAtSums
    simp only
    split
    · exact allInI64_nil
    · next hin =>
      refine allInI64_append.mpr ⟨?_, ?_⟩
      · cases hl : (r.ranges.takeWhile fun x => x.2 < sn).getLast? with
        | none => exact allInI64_nil
        | some x =>
          simpa using hend x ((List.takeWhile_sublist _).subset (List.mem_of_getLast? hl))
      · cases hr : (r.ranges.drop (r.ranges.takeWhile fun x => x.2 < sn).length).head? with
        | none => exact allInI64_nil
        | some x =>
          have hx := List.mem_of_mem_drop (List.mem_of_head? hr)
          have hlow := hrange _ (h.end_mem hx).1
          have hbehind : sn < x.1 := by simpa [hr] using hin
          unfold InI64 at hsn hlow
          simp only [Option.map_some, Option.toList_some, allInI64_cons, allInI64_nil, and_true]
          unfold InI64
          omega
  unfold insertSums
  cases hlast : r.ranges.getLast? with
  | none => exact hat
  | some last =>
    refine allInI64_cons.mpr ⟨hend last (List.mem_of_getLast? hlast), ?_⟩
    split
    · exact allInI64_nil
    · exact hat

theorem Apart.grown_or_old (h : r.Apart) (sn : Int) :
    ((r.insert sn).2 = true ↔ sn ∉ r) ∧ ((∃ all, r.Grown sn (r.insert sn).1 all) ∨
      sn ∈ r ∧ (r.insert sn).1 = r) := by
  obtain ⟨hanswer, hgrown, hold⟩ := insert_grown h sn
  refine ⟨hanswer, ?_⟩
  cases hb : (r.insert sn).2 with
  | true => exact .inl (hgrown hb)
  | false =>
    rw [hb] at hanswer
    exact .inr ⟨by simpa using hanswer, hold hb⟩

/-! ### Runs -/

structure Run (before : List Int) (r : SnRanges) : Prop where
  apart : r.Apart
  room : r.ranges.length ≤ maxRanges
  sub : ∀ n, n ∈ r → n ∈ before
  kept : NeverOver before → ∀ n ∈ before, n ∈ r

theorem NeverOver.left (h : NeverOver (before ++ sns)) : NeverOver before := by
  intro k
  by_cases hk : k ≤ before.length
  · have htake : (before ++ sns).take k = before.take k := List.take_append_of_le_length hk
    rw [← htake]
    exact h k
  · have hall := h before.length
    rw [List.take_left] at hall
    rwa [List.take_of_length_le (by omega)]

/-- The ranges of a state with a number added, and what the bound leaves of them. -/
structure Kept (r : SnRanges) (sn : Int) (r' : SnRanges) : Prop where
  exists_all : ∃ all : SnRanges, all.Apart ∧ (∀ n, n ∈ all ↔ n ∈ r ∨ n = sn) ∧
    r' = if maxRanges < all.ranges.length then ⟨all.ranges.tail⟩ else all

theorem Run.insert_kept (h : Run before r) (sn : Int) : r.Kept sn (r.insert sn).1 := by
  have hroom := h.room
  rcases (h.apart.grown_or_old sn).2 with ⟨all, hall⟩ | ⟨hmem, hold⟩
  · refine ⟨all, hall.apart, hall.mem, ?_⟩
    rcases hall.cut with ⟨heq, hlen⟩ | ⟨hover, -, heq⟩
    · rw [if_neg (by omega), heq]
    · rw [if_pos hover, heq]
  · refine ⟨r, h.apart, fun n => ⟨.inl, ?_⟩, by rw [if_neg (by omega), hold]⟩
    rintro (hn | rfl)
    · exact hn
    · exact hmem

theorem Run.insert (h : Run before r) (sn : Int) : Run (before ++ [sn]) (r.insert sn).1 := by
  have hroom := h.room
  have hinserted : ∀ {n}, n ∈ r ∨ n = sn → n ∈ before ++ [sn] := by
    rintro n (hn | rfl)
    · exact List.mem_append_left _ (h.sub n hn)
    · simp
  have hadded : NeverOver (before ++ [sn]) → ∀ n ∈ before ++ [sn], n ∈ r ∨ n = sn := by
    intro hnever n hn
    rcases List.mem_append.mp hn with hn | hn
    · exact .inl (h.kept hnever.left n hn)
    · exact .inr (List.mem_singleton.mp hn)
  rcases (h.apart.grown_or_old sn).2 with ⟨all, hall⟩ | ⟨hmem, hold⟩
  · refine ⟨hall.inserted.apart, ?_, fun n hn => hinserted (hall.inserted.sub n hn),
      fun hnever => ?_⟩
    · rcases hall.cut with ⟨heq, hlen⟩ | ⟨-, hlen, heq⟩
      · rw [heq]
        omega
      · rw [heq, List.length_tail]
        omega
    · rcases hall.cut with ⟨heq, -⟩ | ⟨hover, -⟩
      · rw [heq]
        exact fun n hn => (hall.mem n).mpr (hadded hnever n hn)
      · -- a range too many, while the numbers inserted so far make no more than the bound
        have hcount : all.ranges.length = rangeCount (before ++ [sn]) :=
          hall.apart.length_eq_rangeCount fun n =>
            (hall.mem n).trans ⟨hinserted, hadded hnever n⟩
        have hle := hnever (before ++ [sn]).length
        rw [List.take_length, ← hcount] at hle
        omega
  · rw [hold]
    refine ⟨h.apart, h.room, fun n hn => hinserted (.inl hn), fun hnever n hn => ?_⟩
    rcases hadded hnever n hn with hn | rfl
    · exact hn
    · exact hmem

theorem run_empty : Run [] empty :=
  ⟨apart_empty, Nat.zero_le _, fun n hn => absurd hn (not_mem_empty n), by simp⟩

theorem insertAll_append : insertAll (before ++ [sn]) =
    (insertAll before).bind fun r => (r.insertChecked sn).map Prod.fst := by
  simp [insertAll, List.foldlM_append]

theorem Run.insertChecked (h : Run before r) (hrange : ∀ n ∈ before, InI64 n)
    (hmax : i64Max ∉ before) (hsn : InI64 sn) : r.insertChecked sn = some (r.insert sn) :=
  if_pos (insertSums_inI64 h.apart (fun n hn => hrange n (h.sub n hn))
    (fun hm => hmax (h.sub _ hm)) hsn)

theorem exists_run (hrange : ∀ n ∈ before, InI64 n) (hmax : i64Max ∉ before.dropLast) :
    ∃ r, insertAll before = some r ∧ Run before r := by
  induction before using List.reverseRecOn with
  | nil => exact ⟨empty, rfl, run_empty⟩
  | append_singleton before sn ih =>
    rw [List.dropLast_concat] at hmax
    have hbefore : ∀ n ∈ before, InI64 n := fun n hn => hrange n (List.mem_append_left _ hn)
    obtain ⟨r, hr, hrun⟩ := ih hbefore fun hm => hmax (List.mem_of_mem_dropLast hm)
    refine ⟨(r.insert sn).1, ?_, hrun.insert sn⟩
    rw [insertAll_append, hr, Option.bind_some,
      hrun.insertChecked hbefore hmax (hrange sn (by simp)), Option.map_some]

/-- What the insert of `sn` behind the inserts of `before` is to do. -/
def InsertsIntoSet (before : List Int) (sn : Int) : Prop :=
  ∃ r r' answer, insertAll before = some r ∧ r.insertChecked sn = some (r', answer) ∧
    r'.Apart ∧ (answer = true ↔ sn ∉ r) ∧ r.Kept sn r' ∧
    (NeverOver (before ++ [sn]) →
      (answer = true ↔ sn ∉ before) ∧ ∀ n, n ∈ r' ↔ n ∈ before ++ [sn])

/-- Every insert of a run below `i64Max` is an insert into the set of the numbers before it. -/
theorem inserts_into_the_set (sns : List Int) (hrange : ∀ n ∈ sns, InI64 n)
    (hmax : i64Max ∉ sns.dropLast) (before : List Int) (sn : Int)
    (hstep : before ++ [sn] <+: sns) : InsertsIntoSet before sn := by
  have hsub : ∀ n ∈ before, n ∈ sns.dropLast := by
    obtain ⟨rest, rfl⟩ := hstep
    intro n hn
    rw [List.append_assoc, List.dropLast_append_of_ne_nil (by simp)]
    exact List.mem_append_left _ hn
  have hbefore : ∀ n ∈ before, InI64 n := fun n hn =>
    hrange n (List.mem_of_mem_dropLast (hsub n hn))
  have hnot : i64Max ∉ before := fun hm => hmax (hsub _ hm)
  have hsn : InI64 sn := hrange sn (hstep.subset (by simp))
  obtain ⟨r, hr, hrun⟩ := exists_run hbefore fun hm => hnot (List.mem_of_mem_dropLast hm)
  have hnext := hrun.insert sn
  have hanswer := (hrun.apart.grown_or_old sn).1
  refine ⟨r, _, _, hr, hrun.insertChecked hbefore hnot hsn, hnext.apart, hanswer,
    hrun.insert_kept sn, fun hnever => ⟨hanswer.trans (not_congr ⟨hrun.sub sn, ?_⟩), fun n => ?_⟩⟩
  · exact hrun.kept hnever.left sn
  · exact ⟨hnext.sub n, hnext.kept hnever n⟩

theorem two_inserts_into_the_set : InsertsIntoSet [5] 6 :=
  inserts_into_the_set [5, 6] (by decide) (by decide) [5] 6 (List.prefix_rfl)

theorem insert_after_the_largest_fails : ¬InsertsIntoSet [i64Max] (-9223372036854775808) := by
  rintro ⟨r, r', answer, hr, hinsert, -⟩
  have hfirst : insertAll [i64Max] = some ⟨[(i64Max, i64Max)]⟩ := by decide
  obtain rfl := Option.some.inj (hr.symm.trans hfirst)
  cases hinsert

end ZeroDds.Rtps.SnRanges
