/-
Labelled runs of integers.

A map `start ↦ (end, label)` in which the runs are apart: no two meet, and two that touch have
different labels.
-/
import ZeroDds.Lib.SortedMap

namespace ZeroDds

open SortedMap

namespace SortedMap

variable {K V : Type} [LinearOrder K] {m : SortedMap K V}

theorem first?_eq_some {k : K} {v : V} :
    m.first? = some (k, v) ↔ m.get? k = some v ∧ ∀ k' v', m.get? k' = some v' → k ≤ k' := by
  constructor
  · intro h
    have hmin : m.minKey? = some k := by rw [minKey?, h]; rfl
    exact ⟨get?_eq_some.mpr (List.mem_of_head? h), (minKey?_eq_some.mp hmin).2⟩
  · rintro ⟨hv, hle⟩
    have hmin : m.minKey? = some k := minKey?_eq_some.mpr ⟨⟨v, hv⟩, hle⟩
    obtain ⟨e, he, rfl⟩ := Option.map_eq_some_iff.mp hmin
    have hget : m.get? e.1 = some e.2 := get?_eq_some.mpr (List.mem_of_head? he)
    rw [he, ← Option.some.inj (hget.symm.trans hv)]

theorem last?_eq_some {k : K} {v : V} :
    m.last? = some (k, v) ↔ m.get? k = some v ∧ ∀ k' v', m.get? k' = some v' → k' ≤ k := by
  constructor
  · intro h
    have hmax : m.maxKey? = some k := by rw [maxKey?, h]; rfl
    exact ⟨get?_eq_some.mpr (List.mem_of_getLast? h), (maxKey?_eq_some.mp hmax).2⟩
  · rintro ⟨hv, hle⟩
    have hmax : m.maxKey? = some k := maxKey?_eq_some.mpr ⟨⟨v, hv⟩, hle⟩
    obtain ⟨e, he, rfl⟩ := Option.map_eq_some_iff.mp hmax
    have hget : m.get? e.1 = some e.2 := get?_eq_some.mpr (List.mem_of_getLast? he)
    rw [he, ← Option.some.inj (hget.symm.trans hv)]

theorem first?_eq_none : m.first? = none ↔ ∀ k, m.get? k = none := by
  rw [← minKey?_eq_none, minKey?, Option.map_eq_none_iff]

theorem last?_eq_none : m.last? = none ↔ ∀ k, m.get? k = none := by
  rw [← maxKey?_eq_none, maxKey?, Option.map_eq_none_iff]

end SortedMap

abbrev RunMap (κ : Type) := SortedMap Int (Int × κ)

namespace RunMap

variable {κ : Type}

def labelAt (m : RunMap κ) (n : Int) : Option κ :=
  match (m.filter fun s _ => s ≤ n).last? with
  | some (_, (e, k)) => if n ≤ e then some k else none
  | none => none

structure Apart (m : RunMap κ) : Prop where
  ordered : ∀ {s e k}, m.get? s = some (e, k) → s ≤ e
  apart : ∀ {s e k s' e' k'}, m.get? s = some (e, k) → m.get? s' = some (e', k') → s < s' →
    e < s' ∧ (e + 1 = s' → k ≠ k')

def Free (m : RunMap κ) (lo hi : Int) : Prop :=
  ∀ {s e k}, m.get? s = some (e, k) → e < lo ∨ hi < s

theorem apart_empty : Apart (SortedMap.empty : RunMap κ) :=
  ⟨fun h => by simp at h, fun h => by simp at h⟩

variable {m : RunMap κ} {n s lo hi : Int} {k : κ}

theorem get?_filter_le {v : Int × κ} :
    (m.filter fun s _ => s ≤ n).get? s = some v ↔ m.get? s = some v ∧ s ≤ n := by
  rw [get?_filter]
  cases m.get? s with
  | none => simp
  | some v' => by_cases hle : s ≤ n <;> simp [hle]

theorem get?_filter_ge {v : Int × κ} :
    (m.filter fun s _ => n ≤ s).get? s = some v ↔ m.get? s = some v ∧ n ≤ s := by
  rw [get?_filter]
  cases m.get? s with
  | none => simp
  | some v' => by_cases hle : n ≤ s <;> simp [hle]

section

variable (hm : m.Apart)
include hm

theorem labelAt_eq_some :
    m.labelAt n = some k ↔ ∃ s e, m.get? s = some (e, k) ∧ s ≤ n ∧ n ≤ e := by
  unfold labelAt
  cases hlast : (m.filter fun s _ => s ≤ n).last? with
  | none =>
    have hnone := last?_eq_none.mp hlast
    simp only [reduceCtorEq, false_iff]
    rintro ⟨s, e, hs, hle, -⟩
    exact Option.some_ne_none _ ((get?_filter_le.mpr ⟨hs, hle⟩).symm.trans (hnone s))
  | some entry =>
    obtain ⟨s, e, k'⟩ := entry
    obtain ⟨hs, hmax⟩ := last?_eq_some.mp hlast
    obtain ⟨hs, hle⟩ := get?_filter_le.mp hs
    simp only
    constructor
    · intro h
      split at h
      · next hend => exact ⟨s, e, Option.some.inj h ▸ hs, hle, hend⟩
      · cases h
    · rintro ⟨s', e', hs', hle', hend⟩
      -- a run that starts earlier ends before the last one starts
      rcases lt_or_eq_of_le (hmax s' _ (get?_filter_le.mpr ⟨hs', hle'⟩)) with hlt | rfl
      · have := (hm.apart hs' hs hlt).1
        omega
      · obtain ⟨rfl, rfl⟩ := Prod.mk.inj (Option.some.inj (hs.symm.trans hs'))
        rw [if_pos hend]

theorem Apart.free (hle : lo ≤ hi) (h : ∀ n, lo ≤ n → n ≤ hi → m.labelAt n = none) :
    m.Free lo hi := by
  intro s e k hs
  by_contra hmeets
  have hord := hm.ordered hs
  have hlabel : m.labelAt (max s lo) = some k :=
    (labelAt_eq_some hm).mpr ⟨s, e, hs, le_max_left s lo, by omega⟩
  exact Option.some_ne_none k (hlabel.symm.trans (h _ (le_max_right s lo) (by omega)))

theorem Apart.erase (s : Int) : Apart (m.erase s) := by
  have hsub : ∀ {s' v}, (m.erase s).get? s' = some v → m.get? s' = some v := by
    intro s' v h
    rw [get?_erase] at h
    split at h
    · cases h
    · exact h
  exact ⟨fun h => hm.ordered (hsub h), fun h h' => hm.apart (hsub h) (hsub h')⟩

theorem Apart.insert (hle : lo ≤ hi) (hfree : m.Free lo hi)
    (hbelow : ∀ {s e}, m.get? s = some (e, k) → e + 1 ≠ lo)
    (habove : ∀ {s e}, m.get? s = some (e, k) → s ≠ hi + 1) : Apart (m.insert lo (hi, k)) := by
  constructor
  · intro s e k' h
    rw [get?_insert] at h
    split at h
    · next heq =>
      obtain ⟨rfl, -⟩ := Prod.mk.inj (Option.some.inj h)
      omega
    · exact hm.ordered h
  · intro s e k₁ s' e' k₂ h h' hlt
    rw [get?_insert] at h h'
    split at h
    · next heq =>
      obtain ⟨rfl, rfl⟩ := Prod.mk.inj (Option.some.inj h)
      rw [if_neg (by omega)] at h'
      have := hm.ordered h'
      have := hfree h'
      refine ⟨by omega, fun htouch hkind => ?_⟩
      exact habove (hkind ▸ h') htouch.symm
    · split at h'
      · next heq =>
        subst heq
        obtain ⟨rfl, rfl⟩ := Prod.mk.inj (Option.some.inj h')
        have := hfree h
        refine ⟨by omega, fun htouch hkind => ?_⟩
        exact hbelow (hkind ▸ h) htouch
      · exact hm.apart h h' hlt

theorem labelAt_erase {e : Int} (hs : m.get? s = some (e, k)) {k' : κ} :
    m.labelAt n = some k' ↔
      RunMap.labelAt (m.erase s) n = some k' ∨ (s ≤ n ∧ n ≤ e ∧ k' = k) := by
  rw [labelAt_eq_some hm, labelAt_eq_some (hm.erase s)]
  constructor
  · rintro ⟨s', e', hs', hlo, hhi⟩
    by_cases heq : s' = s
    · subst heq
      obtain ⟨rfl, rfl⟩ := Prod.mk.inj (Option.some.inj (hs.symm.trans hs'))
      exact .inr ⟨hlo, hhi, rfl⟩
    · exact .inl ⟨s', e', by rw [get?_erase, if_neg heq, hs'], hlo, hhi⟩
  · rintro (⟨s', e', hs', hlo, hhi⟩ | ⟨hlo, hhi, rfl⟩)
    · rw [get?_erase] at hs'
      split at hs'
      · cases hs'
      · exact ⟨s', e', hs', hlo, hhi⟩
    · exact ⟨s, e, hs, hlo, hhi⟩

theorem labelAt_insert (hm' : Apart (m.insert lo (hi, k))) (hfree : m.Free lo hi)
    (hle : lo ≤ hi) {k' : κ} :
    RunMap.labelAt (m.insert lo (hi, k)) n = some k' ↔
      m.labelAt n = some k' ∨ (lo ≤ n ∧ n ≤ hi ∧ k' = k) := by
  rw [labelAt_eq_some hm, labelAt_eq_some hm']
  constructor
  · rintro ⟨s, e, hs, hlo, hhi⟩
    rw [get?_insert] at hs
    split at hs
    · next heq =>
      obtain ⟨rfl, rfl⟩ := Prod.mk.inj (Option.some.inj hs)
      exact .inr ⟨heq ▸ hlo, hhi, rfl⟩
    · exact .inl ⟨s, e, hs, hlo, hhi⟩
  · rintro (⟨s, e, hs, hlo, hhi⟩ | ⟨hlo, hhi, rfl⟩)
    · have hne : s ≠ lo := by
        have := hfree hs
        omega
      exact ⟨s, e, by rw [get?_insert, if_neg hne, hs], hlo, hhi⟩
    · exact ⟨lo, hi, get?_insert_self _ _ _, hlo, hhi⟩

theorem Apart.pairwise :
    m.entries.Pairwise fun a b => a.2.1 < b.1 ∧ (a.2.1 + 1 = b.1 → a.2.2 ≠ b.2.2) := by
  refine m.sorted.imp_of_mem fun {a b} ha hb hlt => ?_
  exact hm.apart (get?_eq_some.mpr ha) (get?_eq_some.mpr hb) hlt

end

end RunMap
end ZeroDds
