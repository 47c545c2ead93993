/-
Records of a sequence.

An entry is a record if its rank is greater than every rank before it.
-/
import Mathlib.Data.List.Basic

namespace ZeroDds

variable {α κ : Type} (rank : α → Nat)

def recordsFrom : Option Nat → List α → List α
  | _, [] => []
  | last, a :: l =>
    if last.all fun n => decide (n < rank a) then a :: recordsFrom (some (rank a)) l
    else recordsFrom last l

def records (l : List α) : List α := recordsFrom rank none l

def highest : Option Nat → List α → Option Nat
  | last, [] => last
  | last, a :: l =>
    if last.all fun n => decide (n < rank a) then highest (some (rank a)) l else highest last l

theorem recordsFrom_append (last : Option Nat) (l m : List α) :
    recordsFrom rank last (l ++ m) =
      recordsFrom rank last l ++ recordsFrom rank (highest rank last l) m := by
  induction l generalizing last with
  | nil => rfl
  | cons a l ih =>
    simp only [List.cons_append, recordsFrom, highest]
    split
    · simp [ih]
    · exact ih last

theorem recordsFrom_sublist (last : Option Nat) (l : List α) :
    (recordsFrom rank last l).Sublist l := by
  induction l generalizing last with
  | nil => exact .refl _
  | cons a l ih =>
    unfold recordsFrom
    split
    · exact (ih _).cons_cons a
    · exact (ih _).cons a

variable {last : Option Nat} {l : List α} {a : α}

theorem lt_of_mem_recordsFrom (h : a ∈ recordsFrom rank last l) :
    ∀ n, last = some n → n < rank a := by
  induction l generalizing last with
  | nil => cases h
  | cons b l ih =>
    unfold recordsFrom at h
    split at h
    · next hb =>
      rintro n rfl
      have hn : n < rank b := by simpa using hb
      rcases List.mem_cons.mp h with rfl | h
      · exact hn
      · have hrest := ih h _ rfl
        omega
    · exact ih h

theorem recordsFrom_pairwise (last : Option Nat) (l : List α) :
    (recordsFrom rank last l).Pairwise fun a b => rank a < rank b := by
  induction l generalizing last with
  | nil => exact .nil
  | cons a l ih =>
    unfold recordsFrom
    split
    · exact .cons (fun b hb => lt_of_mem_recordsFrom rank hb _ rfl) (ih _)
    · exact ih last

theorem highest_lt {n : Nat} (h : ∀ b ∈ l, rank b < n)
    (hlast : last.all (fun m => decide (m < n)) = true) :
    (highest rank last l).all (fun m => decide (m < n)) = true := by
  induction l generalizing last with
  | nil => exact hlast
  | cons b l ih =>
    obtain ⟨hb, hrest⟩ := List.forall_mem_cons.mp h
    unfold highest
    split
    · exact ih hrest (by simpa using hb)
    · exact ih hrest hlast

theorem recordsFrom_eq_nil {n : Nat} (h : ∀ b ∈ l, rank b ≤ n) :
    recordsFrom rank (some n) l = [] := by
  induction l with
  | nil => rfl
  | cons b l ih =>
    obtain ⟨hb, hrest⟩ := List.forall_mem_cons.mp h
    unfold recordsFrom
    rw [if_neg (by simpa using hb)]
    exact ih hrest

theorem records_split {pre post : List α} (h : ∀ b ∈ pre, rank b < rank a) :
    records rank (pre ++ a :: post) =
      records rank pre ++ a :: recordsFrom rank (some (rank a)) post := by
  have hhigh : (highest rank none pre).all (fun m => decide (m < rank a)) = true :=
    highest_lt rank h rfl
  rw [records, recordsFrom_append]
  conv_lhs => rw [recordsFrom, if_pos hhigh]
  rfl

def FirstHighest (a : α) (l : List α) : Prop :=
  ∃ pre post, l = pre ++ a :: post ∧ (∀ b ∈ pre, rank b < rank a) ∧ ∀ b ∈ post, rank b ≤ rank a

theorem FirstHighest.mem (h : FirstHighest rank a l) : a ∈ l := by
  obtain ⟨pre, post, rfl, _, _⟩ := h
  simp

variable {b : α}

theorem FirstHighest.le (h : FirstHighest rank a l) (hb : b ∈ l) : rank b ≤ rank a := by
  obtain ⟨pre, post, rfl, hpre, hpost⟩ := h
  rcases List.mem_append.mp hb with hb | hb
  · exact Nat.le_of_lt (hpre b hb)
  · rcases List.mem_cons.mp hb with rfl | hb
    · exact Nat.le_refl _
    · exact hpost b hb

theorem exists_firstHighest (h : l ≠ []) : ∃ a, FirstHighest rank a l := by
  induction l with
  | nil => exact absurd rfl h
  | cons x l ih =>
    cases l with
    | nil => exact ⟨x, [], [], rfl, nofun, nofun⟩
    | cons y l =>
      obtain ⟨a, ha⟩ := ih nofun
      by_cases hx : rank x < rank a
      · obtain ⟨pre, post, heq, hpre, hpost⟩ := ha
        refine ⟨a, x :: pre, post, by rw [heq]; rfl, ?_, hpost⟩
        exact List.forall_mem_cons.mpr ⟨hx, hpre⟩
      · refine ⟨x, [], y :: l, rfl, nofun, fun b hb => ?_⟩
        have hle := ha.le rank hb
        omega

theorem getLast?_records (h : FirstHighest rank a l) : (records rank l).getLast? = some a := by
  obtain ⟨pre, post, rfl, hpre, hpost⟩ := h
  rw [records_split rank hpre, recordsFrom_eq_nil rank hpost]
  simp

variable [DecidableEq κ] (classOf : α → κ)

def ofClass (c : κ) (l : List α) : List α := l.filter fun a => classOf a = c

theorem FirstHighest.ofClass (h : FirstHighest rank a l) :
    FirstHighest rank a (ofClass classOf (classOf a) l) := by
  obtain ⟨pre, post, rfl, hpre, hpost⟩ := h
  refine ⟨ZeroDds.ofClass classOf (classOf a) pre, ZeroDds.ofClass classOf (classOf a) post,
    by simp [ZeroDds.ofClass], ?_, ?_⟩
  · exact fun b hb => hpre b (List.mem_filter.mp hb).1
  · exact fun b hb => hpost b (List.mem_filter.mp hb).1

def SameClassOrder (l m : List α) : Prop := ∀ c, ofClass classOf c m = ofClass classOf c l

theorem SameClassOrder.mem_iff {m : List α} (h : SameClassOrder classOf l m) : a ∈ m ↔ a ∈ l := by
  have hof : ∀ l : List α, a ∈ ofClass classOf (classOf a) l ↔ a ∈ l := by
    intro l
    simp [ofClass]
  rw [← hof m, ← hof l, h]

def OneClassHighest (l : List α) : Prop :=
  ∀ a b, a ∈ l → b ∈ l → (∀ x ∈ l, rank x ≤ rank a) → (∀ x ∈ l, rank x ≤ rank b) →
    classOf a = classOf b

theorem records_converge {m₁ m₂ : List α} (hone : OneClassHighest rank classOf l)
    (h₁ : SameClassOrder classOf l m₁) (h₂ : SameClassOrder classOf l m₂) :
    (records rank m₁).getLast? = (records rank m₂).getLast? := by
  by_cases hnil : l = []
  · subst hnil
    have hempty : ∀ m, SameClassOrder classOf ([] : List α) m → m = [] := by
      intro m hm
      exact List.eq_nil_iff_forall_not_mem.mpr fun a ha => nomatch (hm.mem_iff classOf).mp ha
    rw [hempty m₁ h₁, hempty m₂ h₂]
  · obtain ⟨x, hx⟩ := List.exists_mem_of_ne_nil l hnil
    have hne : ∀ {m}, SameClassOrder classOf l m → m ≠ [] := by
      rintro m hm rfl
      exact nomatch (hm.mem_iff classOf).mpr hx
    obtain ⟨a, ha⟩ := exists_firstHighest rank (hne h₁)
    obtain ⟨b, hb⟩ := exists_firstHighest rank (hne h₂)
    have hclass : classOf a = classOf b :=
      hone a b ((h₁.mem_iff classOf).mp (ha.mem rank)) ((h₂.mem_iff classOf).mp (hb.mem rank))
        (fun x hx => ha.le rank ((h₁.mem_iff classOf).mpr hx))
        (fun x hx => hb.le rank ((h₂.mem_iff classOf).mpr hx))
    have ha' := getLast?_records rank (ha.ofClass rank classOf)
    have hb' := getLast?_records rank (hb.ofClass rank classOf)
    rw [h₁, hclass] at ha'
    rw [h₂] at hb'
    rw [ha'] at hb'
    cases hb'
    rw [getLast?_records rank ha, getLast?_records rank hb]

/-! ### Orders with given records -/

def classFirst (c : κ) (l : List α) : List α :=
  ofClass classOf c l ++ l.filter fun a => classOf a ≠ c

variable (c : κ)

theorem ofClass_ofClass (d : κ) (l : List α) :
    ofClass classOf d (ofClass classOf c l) = if d = c then ofClass classOf c l else [] := by
  rw [ofClass, ofClass, List.filter_filter]
  split
  · next h =>
    subst h
    simp
  · next h =>
    refine List.filter_eq_nil_iff.mpr fun a _ => ?_
    simp only [Bool.and_eq_true, decide_eq_true_eq, not_and]
    exact fun hd hc => h (hd.symm.trans hc)

theorem ofClass_others (d : κ) (l : List α) :
    ofClass classOf d (l.filter fun a => classOf a ≠ c) =
      if d = c then [] else ofClass classOf d l := by
  rw [ofClass, List.filter_filter]
  split
  · next h =>
    subst h
    refine List.filter_eq_nil_iff.mpr fun a _ => ?_
    simp
  · next h =>
    refine List.filter_congr fun a _ => ?_
    by_cases hd : classOf a = d
    · simp [hd, h]
    · simp [hd]

theorem sameClassOrder_classFirst (l : List α) :
    SameClassOrder classOf l (classFirst classOf c l) := by
  intro d
  rw [classFirst, ofClass, List.filter_append, ← ofClass, ← ofClass, ofClass_ofClass,
    ofClass_others]
  split
  · next h => simp [h]
  · simp

theorem classOf_last_classFirst (ha : a ∈ l) (hmax : ∀ x ∈ l, rank x ≤ rank a)
    (h : (records rank (classFirst classOf (classOf a) l)).getLast? = some b) :
    classOf b = classOf a := by
  have hin : a ∈ ofClass classOf (classOf a) l := by simp [ofClass, ha]
  obtain ⟨x, hx⟩ := exists_firstHighest rank (List.ne_nil_of_mem hin)
  have hxa := hx.le rank hin
  have hwhole : FirstHighest rank x (classFirst classOf (classOf a) l) := by
    obtain ⟨pre, post, heq, hpre, hpost⟩ := hx
    refine ⟨pre, post ++ l.filter (fun y => classOf y ≠ classOf a), ?_, hpre, ?_⟩
    · rw [classFirst, heq]
      simp
    · intro y hy
      rcases List.mem_append.mp hy with hy | hy
      · exact hpost y hy
      · have hle := hmax y (List.mem_filter.mp hy).1
        omega
  rw [getLast?_records rank hwhole] at h
  cases h
  simpa using (List.mem_filter.mp (hx.mem rank)).2

theorem oneClassHighest_of_converge
    (h : ∀ m₁ m₂, SameClassOrder classOf l m₁ → SameClassOrder classOf l m₂ →
      (records rank m₁).getLast? = (records rank m₂).getLast?) :
    OneClassHighest rank classOf l := by
  intro a b ha hb hamax hbmax
  have hends := h _ _ (sameClassOrder_classFirst classOf (classOf a) l)
    (sameClassOrder_classFirst classOf (classOf b) l)
  have hmem := ((sameClassOrder_classFirst classOf (classOf a) l).mem_iff classOf).mpr ha
  obtain ⟨x, hx⟩ := exists_firstHighest rank (List.ne_nil_of_mem hmem)
  have hlast := getLast?_records rank hx
  have hxa := classOf_last_classFirst rank classOf ha hamax hlast
  have hxb := classOf_last_classFirst rank classOf hb hbmax (hends ▸ hlast)
  exact hxa.symm.trans hxb

theorem split_of_mem_recordsFrom (h : a ∈ recordsFrom rank last l) :
    ∃ pre post, l = pre ++ a :: post ∧ ∀ b ∈ pre, rank b < rank a := by
  induction l generalizing last with
  | nil => cases h
  | cons x l ih =>
    unfold recordsFrom at h
    split at h
    · next hx =>
      rcases List.mem_cons.mp h with rfl | h
      · exact ⟨[], l, rfl, nofun⟩
      · obtain ⟨pre, post, rfl, hpre⟩ := ih h
        refine ⟨x :: pre, post, rfl, List.forall_mem_cons.mpr ⟨?_, hpre⟩⟩
        exact lt_of_mem_recordsFrom rank h _ rfl
    · next hx =>
      have hlast := lt_of_mem_recordsFrom rank h
      obtain ⟨pre, post, rfl, hpre⟩ := ih h
      refine ⟨x :: pre, post, rfl, List.forall_mem_cons.mpr ⟨?_, hpre⟩⟩
      cases last with
      | none => simp at hx
      | some n =>
        have hle : rank x ≤ n := by simpa using hx
        have hlt := hlast n rfl
        omega

theorem mem_records_split {pre post : List α} (h : ∀ b ∈ pre, rank b < rank a) :
    a ∈ records rank (pre ++ a :: post) := by
  rw [records_split rank h]
  simp

def OwnRecord (l : List α) (a : α) : Prop :=
  a ∈ records rank (ofClass classOf (classOf a) l)

theorem OwnRecord.of_mem_records {m : List α} (hm : SameClassOrder classOf l m)
    (h : a ∈ records rank m) : OwnRecord rank classOf l a := by
  obtain ⟨pre, post, rfl, hpre⟩ := split_of_mem_recordsFrom rank h
  rw [OwnRecord, ← hm]
  have hsplit : ofClass classOf (classOf a) (pre ++ a :: post) =
      ofClass classOf (classOf a) pre ++ a :: ofClass classOf (classOf a) post := by
    simp [ofClass]
  rw [hsplit]
  exact mem_records_split rank fun b hb => hpre b (List.mem_filter.mp hb).1

theorem ofClass_of_all {d : κ} {x : List α} (h : ∀ y ∈ x, classOf y = d) :
    ofClass classOf c x = if c = d then x else [] := by
  split
  · next hc => exact List.filter_eq_self.mpr fun y hy => by simp [h y hy, hc]
  · next hc => exact List.filter_eq_nil_iff.mpr fun y hy => by simp [h y hy, Ne.symm hc]

theorem exists_order_with_records (ha : OwnRecord rank classOf l a)
    (hb : OwnRecord rank classOf l b) (hlt : rank a < rank b) :
    ∃ m, SameClassOrder classOf l m ∧ a ∈ records rank m ∧ b ∈ records rank m := by
  by_cases hclass : classOf a = classOf b
  · refine ⟨_, sameClassOrder_classFirst classOf (classOf a) l, ?_, ?_⟩
    · rw [classFirst, records, recordsFrom_append]
      exact List.mem_append_left _ ha
    · rw [classFirst, records, recordsFrom_append, hclass]
      exact List.mem_append_left _ hb
  · obtain ⟨preA, postA, hA, hpreA⟩ := split_of_mem_recordsFrom rank ha
    obtain ⟨preB, postB, hB, hpreB⟩ := split_of_mem_recordsFrom rank hb
    have hownA : ∀ y ∈ preA ++ a :: postA, classOf y = classOf a := by
      intro y hy
      rw [← hA] at hy
      simpa using (List.mem_filter.mp hy).2
    have hownB : ∀ y ∈ preB ++ b :: postB, classOf y = classOf b := by
      intro y hy
      rw [← hB] at hy
      simpa using (List.mem_filter.mp hy).2
    have hrest : ∀ c, ofClass classOf c
        ((l.filter fun y => classOf y ≠ classOf a).filter fun y => classOf y ≠ classOf b) =
        if c = classOf b then [] else if c = classOf a then [] else ofClass classOf c l := by
      intro c
      rw [ofClass_others, ofClass_others]
    generalize ((l.filter fun y => classOf y ≠ classOf a).filter fun y =>
      classOf y ≠ classOf b) = rest at hrest
    refine ⟨(preA ++ [a]) ++ ((preB ++ [b]) ++ (postA ++ (postB ++ rest))), ?_, ?_, ?_⟩
    · intro c
      have happ : ∀ x y : List α, ofClass classOf c (x ++ y) =
          ofClass classOf c x ++ ofClass classOf c y := fun x y => List.filter_append x y
      have hfrontA : ofClass classOf c (preA ++ [a]) = if c = classOf a then preA ++ [a] else [] :=
        ofClass_of_all classOf c fun y hy => hownA y (by
          rw [List.append_cons]
          exact List.mem_append_left _ hy)
      have hfrontB : ofClass classOf c (preB ++ [b]) = if c = classOf b then preB ++ [b] else [] :=
        ofClass_of_all classOf c fun y hy => hownB y (by
          rw [List.append_cons]
          exact List.mem_append_left _ hy)
      have hbackA : ofClass classOf c postA = if c = classOf a then postA else [] :=
        ofClass_of_all classOf c fun y hy => hownA y (by simp [hy])
      have hbackB : ofClass classOf c postB = if c = classOf b then postB else [] :=
        ofClass_of_all classOf c fun y hy => hownB y (by simp [hy])
      rw [happ, hfrontA, happ, hfrontB, happ, hbackA, happ, hbackB, hrest]
      by_cases hca : c = classOf a
      · have hcb : c ≠ classOf b := fun h => hclass (hca.symm.trans h)
        simp only [if_pos hca, if_neg hcb, List.nil_append, List.append_nil]
        rw [hca, hA]
        simp
      · by_cases hcb : c = classOf b
        · simp only [if_neg hca, if_pos hcb, List.nil_append, List.append_nil]
          rw [hcb, hB]
          simp
        · simp only [if_neg hca, if_neg hcb, List.nil_append]
    · rw [← List.append_cons]
      exact mem_records_split rank hpreA
    · rw [← List.append_cons preB, ← List.append_assoc]
      refine mem_records_split rank fun y hy => ?_
      rcases List.mem_append.mp hy with hy | hy
      · rcases List.mem_append.mp hy with hy | hy
        · exact Nat.lt_trans (hpreA y hy) hlt
        · rw [List.mem_singleton.mp hy]
          exact hlt
      · exact hpreB y hy

end ZeroDds
