/-
Replaying a topic page by page.
-/
import ZeroDds.Lib.Run
import ZeroDds.Durability.InMemoryStore

namespace ZeroDds.Durability

open SortedMap

open Dcps (KeyHash WriterGuid HistoryKind)

theorem Cursor.le_total (a b : Cursor) : a.le b ∨ b.le a := by
  rcases lt_trichotomy a.instanceKey b.instanceKey with h | h | h
  · exact Or.inl (Or.inl h)
  · rcases Nat.le_total a.sequence b.sequence with hle | hle
    · exact Or.inl (Or.inr ⟨h, hle⟩)
    · exact Or.inr (Or.inr ⟨h.symm, hle⟩)
  · exact Or.inr (Or.inl h)

def Ascending (l : List DurabilitySample) : Prop :=
  l.Pairwise fun a b => ¬b.cursor.le a.cursor

variable {l : List DurabilitySample}

theorem Ascending.insertionSort_eq (h : Ascending l) :
    l.insertionSort (fun a b => a.cursor.le b.cursor) = l := by
  apply List.Pairwise.insertionSort_eq
  exact h.imp fun hab => (Cursor.le_total _ _).resolve_right hab

def behind (read : List DurabilitySample) : Selector :=
  { after := read.getLast?.map (·.cursor)
    limit := some defaultPage }

variable {read rest : List DurabilitySample}

theorem filter_behind (h : Ascending (read ++ rest)) :
    (read ++ rest).filter (behind read).accepts = rest := by
  obtain ⟨hread, -, hcross⟩ := List.pairwise_append.mp h
  have hrest : ∀ s ∈ rest, (behind read).accepts s = true := by
    intro s hs
    cases hlast : read.getLast? with
    | none => simp [Selector.accepts, behind, hlast]
    | some last =>
      have hafter := hcross last (List.mem_of_getLast? hlast) s hs
      simp [Selector.accepts, behind, hlast, hafter]
  have hnone : ∀ s ∈ read, ¬(behind read).accepts s = true := by
    intro s hs
    obtain ⟨last, hlast⟩ : ∃ last, read.getLast? = some last :=
      Option.ne_none_iff_exists'.mp (by simpa using List.ne_nil_of_mem hs)
    obtain ⟨before, rfl⟩ := List.getLast?_eq_some_iff.mp hlast
    have hle : s.cursor.le last.cursor := by
      rcases List.mem_append.mp hs with hmem | hmem
      · have hlt := (List.pairwise_append.mp hread).2.2 s hmem last (List.mem_singleton_self last)
        exact (Cursor.le_total _ _).resolve_right hlt
      · rw [List.mem_singleton.mp hmem]
        exact (Cursor.le_total _ _).elim id id
    simp [Selector.accepts, behind, hle]
  rw [List.filter_append, List.filter_eq_nil_iff.mpr hnone, List.filter_eq_self.mpr hrest,
    List.nil_append]

theorem replayPages_behind {rounds : Nat} (h : Ascending (read ++ rest))
    (hrounds : rest.length < rounds) :
    replayPages (fun sel => pageOf sel ((read ++ rest).filter sel.accepts)) rounds (behind read) =
      rest := by
  induction rounds generalizing read rest with
  | zero => exact absurd hrounds (Nat.not_lt_zero _)
  | succ rounds ih =>
    have hsorted := (List.pairwise_append.mp h).2.1
    have hpage : pageOf (behind read) ((read ++ rest).filter (behind read).accepts) =
        ⟨rest.take defaultPage, if rest.length ≤ defaultPage then none
          else (rest.take defaultPage).getLast?.map (·.cursor)⟩ := by
      rw [filter_behind h]
      simp [pageOf, Ascending.insertionSort_eq hsorted, behind]
    rw [replayPages, hpage]
    by_cases hshort : rest.length ≤ defaultPage
    · simp only [if_pos hshort]
      exact List.take_of_length_le hshort
    · simp only [if_neg hshort]
      have hne : rest.take defaultPage ≠ [] := by
        intro hnil
        have hlen := congrArg List.length hnil
        rw [List.length_take, List.length_nil] at hlen
        have hpos : defaultPage = 1024 := rfl
        omega
      obtain ⟨last, hlast⟩ : ∃ last, (rest.take defaultPage).getLast? = some last :=
        Option.ne_none_iff_exists'.mp (by simpa using hne)
      have hbehind : (behind read).afterCursor last.cursor =
          behind (read ++ rest.take defaultPage) := by
        simp [behind, Selector.afterCursor, List.getLast?_append, hlast]
      simp only [hlast, Option.map_some]
      rw [if_pos (List.length_pos_iff.mpr hne), hbehind]
      have hjoin : read ++ rest = (read ++ rest.take defaultPage) ++ rest.drop defaultPage := by
        rw [List.append_assoc, List.take_append_drop]
      rw [hjoin] at h ⊢
      rw [ih h, List.take_append_drop]
      rw [List.length_drop]
      have hpos : defaultPage = 1024 := rfl
      omega

theorem replayAll_of_ascending (h : Ascending l) :
    replayAll (fun sel => pageOf sel (l.filter sel.accepts)) l.length = l :=
  replayPages_behind (show Ascending ([] ++ l) from h) (Nat.lt_succ_self _)

namespace InMemoryStore

variable {s : InMemoryStore} {topic : String}

def Filed (s : InMemoryStore) (topic : String) : Prop :=
  ∀ key slot n sample, (s.slots topic).get? key = some slot → slot.samples.get? n = some sample →
    sample.instanceKey = key ∧ sample.sequence = n

theorem mem_topicSamples {sample : DurabilitySample} :
    sample ∈ s.topicSamples topic ↔
      ∃ key slot n, (s.slots topic).get? key = some slot ∧ slot.samples.get? n = some sample := by
  unfold topicSamples
  rw [List.mem_flatMap]
  constructor
  · rintro ⟨slot, hslot, hsample⟩
    obtain ⟨key, hkey⟩ := mem_values.mp hslot
    obtain ⟨n, hn⟩ := mem_values.mp hsample
    exact ⟨key, slot, n, hkey, hn⟩
  · rintro ⟨key, slot, n, hkey, hn⟩
    exact ⟨slot, mem_values.mpr ⟨key, hkey⟩, mem_values.mpr ⟨n, hn⟩⟩

theorem length_topicSamples : (s.topicSamples topic).length = s.topicSampleCount topic := by
  simp [topicSamples, topicSampleCount, List.length_flatMap, SortedMap.values, SortedMap.size]

theorem ascending_topicSamples (hfiled : s.Filed topic) : Ascending (s.topicSamples topic) := by
  unfold Ascending topicSamples SortedMap.values
  rw [List.pairwise_flatMap]
  constructor
  · intro slot hslot
    obtain ⟨⟨key, slot⟩, hmem, rfl⟩ := List.mem_map.mp hslot
    rw [List.pairwise_map]
    refine slot.samples.sorted.imp_of_mem ?_
    rintro ⟨n, a⟩ ⟨n', b⟩ ha hb hlt hle
    have hkey := get?_eq_some.mpr hmem
    obtain ⟨hka, hna⟩ := hfiled key slot n a hkey (get?_eq_some.mpr ha)
    obtain ⟨hkb, hnb⟩ := hfiled key slot n' b hkey (get?_eq_some.mpr hb)
    rcases hle with hle | ⟨-, hle⟩
    · change b.instanceKey < a.instanceKey at hle
      rw [hka, hkb] at hle
      exact lt_irrefl _ hle
    · change b.sequence ≤ a.sequence at hle
      rw [hna, hnb] at hle
      exact absurd hlt (Nat.not_lt.mpr hle)
  · rw [List.pairwise_map]
    refine (s.slots topic).sorted.imp_of_mem ?_
    rintro ⟨key, slot⟩ ⟨key', slot'⟩ hslot hslot' hlt a ha b hb hle
    obtain ⟨n, hn⟩ := mem_values.mp ha
    obtain ⟨n', hn'⟩ := mem_values.mp hb
    have hka := (hfiled key slot n a (get?_eq_some.mpr hslot) hn).1
    have hkb := (hfiled key' slot' n' b (get?_eq_some.mpr hslot') hn').1
    have hlt' : a.instanceKey < b.instanceKey := by
      rw [hka, hkb]
      exact hlt
    rcases hle with hle | ⟨heq, -⟩
    · exact lt_asymm hlt' hle
    · exact hlt'.ne heq.symm

theorem replayForTopic_eq (hfiled : s.Filed topic) :
    s.replayForTopic topic = s.topicSamples topic := by
  rw [replayForTopic, ← length_topicSamples]
  exact replayAll_of_ascending (ascending_topicSamples hfiled)

end InMemoryStore

variable {a b : Cursor}

theorem Cursor.le_trans {c : Cursor} (hab : a.le b) (hbc : b.le c) : a.le c := by
  rcases hab with hab | ⟨hab, hle⟩
  · rcases hbc with hbc | ⟨hbc, -⟩
    · exact .inl (hab.trans hbc)
    · exact .inl (hbc ▸ hab)
  · rcases hbc with hbc | ⟨hbc, hle'⟩
    · exact .inl (hab ▸ hbc)
    · exact .inr ⟨hab.trans hbc, hle.trans hle'⟩

theorem Cursor.le_antisymm (hab : a.le b) (hba : b.le a) : a = b := by
  rcases hab with hab | ⟨hab, hle⟩
  · rcases hba with hba | ⟨hba, -⟩
    · exact absurd hab (lt_asymm hba)
    · exact absurd hba.symm hab.ne
  · rcases hba with hba | ⟨-, hle'⟩
    · exact absurd hab.symm hba.ne
    · exact Cursor.mk.injEq .. ▸ ⟨hab, Nat.le_antisymm hle hle'⟩

theorem Cursor.le_refl (a : Cursor) : a.le a := .inr ⟨rfl, Nat.le_refl _⟩

theorem Ascending.nodup (h : Ascending l) : l.Nodup :=
  List.Pairwise.imp (fun {a b} hab (heq : a = b) => hab (heq ▸ a.cursor.le_refl)) h

namespace Selector

variable {sel : Selector} {x : DurabilitySample} {cursor : Cursor}

theorem accepts_eq (sel : Selector) (x : DurabilitySample) : sel.accepts x =
    (({ sel with after := none } : Selector).accepts x &&
      sel.after.all fun c => decide ¬x.cursor.le c) := by
  simp [accepts]

theorem behind_of_accepts (h : sel.accepts x = true) : ∀ c ∈ sel.after, ¬x.cursor.le c := by
  rw [accepts_eq, Bool.and_eq_true] at h
  intro c hc
  have hall := h.2
  rw [Option.mem_def.mp hc, Option.all_some, decide_eq_true_eq] at hall
  exact hall

theorem accepts_afterCursor (hcursor : ∀ c ∈ sel.after, ¬cursor.le c) :
    (sel.afterCursor cursor).accepts x = true ↔ sel.accepts x = true ∧ ¬x.cursor.le cursor := by
  have hall : (¬x.cursor.le cursor) → (sel.after.all fun c => decide ¬x.cursor.le c) = true := by
    intro hx
    cases hafter : sel.after with
    | none => rfl
    | some c =>
      rw [Option.all_some, decide_eq_true_eq]
      intro hxc
      have hc := (Cursor.le_total c cursor).resolve_right (hcursor c hafter)
      exact hx (Cursor.le_trans hxc hc)
  rw [accepts_eq sel, accepts_eq (sel.afterCursor cursor)]
  simp only [afterCursor, Option.all_some, Bool.and_eq_true, decide_eq_true_eq]
  constructor
  · rintro ⟨hmatch, hx⟩
    exact ⟨⟨hmatch, hall hx⟩, hx⟩
  · rintro ⟨⟨hmatch, -⟩, hx⟩
    exact ⟨hmatch, hx⟩

end Selector

/-! ### Pages between other calls -/

namespace InMemoryStore

variable {s : InMemoryStore} {topic : String} {sel : Selector}

def matched (s : InMemoryStore) (topic : String) (sel : Selector) : List DurabilitySample :=
  (s.topicSamples topic).filter sel.accepts

variable {x : DurabilitySample}

theorem mem_matched :
    x ∈ s.matched topic sel ↔ x ∈ s.topicSamples topic ∧ sel.accepts x = true := List.mem_filter

theorem ascending_matched (hfiled : s.Filed topic) : Ascending (s.matched topic sel) :=
  (ascending_topicSamples hfiled).filter _

theorem query_eq (hfiled : s.Filed topic) :
    s.query topic sel = ⟨(s.matched topic sel).take (sel.limit.getD defaultPage),
      if (s.matched topic sel).length ≤ sel.limit.getD defaultPage then none
      else ((s.matched topic sel).take (sel.limit.getD defaultPage)).getLast?.map (·.cursor)⟩ := by
  show pageOf sel (s.matched topic sel) = _
  rw [pageOf, Ascending.insertionSort_eq (ascending_matched hfiled)]

theorem query_cases (hfiled : s.Filed topic) (hlimit : ∀ l ∈ sel.limit, 1 ≤ l) :
    (s.query topic sel = ⟨s.matched topic sel, none⟩) ∨
    ∃ page last rest, s.query topic sel = ⟨page ++ [last], some last.cursor⟩ ∧
      s.matched topic sel = page ++ [last] ++ rest := by
  rw [query_eq hfiled]
  by_cases hall : (s.matched topic sel).length ≤ sel.limit.getD defaultPage
  · rw [if_pos hall, List.take_of_length_le hall]
    exact .inl rfl
  · rw [if_neg hall]
    have hpos : 1 ≤ sel.limit.getD defaultPage := by
      cases hl : sel.limit with
      | none => decide
      | some l => exact hlimit l hl
    have hne : (s.matched topic sel).take (sel.limit.getD defaultPage) ≠ [] := by
      intro hnil
      have hlen := congrArg List.length hnil
      rw [List.length_take, List.length_nil] at hlen
      omega
    obtain ⟨page, last, hpage⟩ := (List.eq_nil_or_concat' _).resolve_left hne
    refine .inr ⟨page, last, (s.matched topic sel).drop (sel.limit.getD defaultPage), ?_, ?_⟩
    · rw [hpage, List.getLast?_concat, Option.map_some]
    · rw [← hpage, List.take_append_drop]

/-- One drain of a topic: the page that is read, with the store it is read from, and behind its
cursor the next one after the calls of the gap.  It has not ended where the gaps run out before the
cursor. -/
def drain (topic : String) :
    List (List Call) → InMemoryStore → Selector → Option (List (InMemoryStore × Page))
  | [], s, sel =>
    match (s.query topic sel).next with
    | none => some [(s, s.query topic sel)]
    | some _ => none
  | calls :: gaps, s, sel =>
    match (s.query topic sel).next with
    | none => some [(s, s.query topic sel)]
    | some cursor =>
      (drain topic gaps (run call s calls).1 (sel.afterCursor cursor)).map
        ((s, s.query topic sel) :: ·)

def drained (reads : List (InMemoryStore × Page)) : List DurabilitySample :=
  reads.flatMap (·.2.samples)

structure Complete (topic : String) (sel : Selector) (reads : List (InMemoryStore × Page)) :
    Prop where
  ascending : Ascending (drained reads)
  accepted : ∀ x ∈ drained reads, sel.accepts x = true
  complete : ∀ x, sel.accepts x = true → (∀ r ∈ reads, x ∈ r.1.topicSamples topic) →
    x ∈ drained reads
  present : ∀ r ∈ reads, ∀ x ∈ r.2.samples, x ∈ r.1.topicSamples topic

theorem complete_last (hfiled : s.Filed topic) :
    Complete topic sel [(s, ⟨s.matched topic sel, none⟩)] := by
  have hdrained : drained [(s, ⟨s.matched topic sel, none⟩)] = s.matched topic sel := by
    simp [drained]
  refine ⟨?_, ?_, ?_, ?_⟩
  · rw [hdrained]
    exact ascending_matched hfiled
  · rw [hdrained]
    exact fun x hx => (mem_matched.mp hx).2
  · rw [hdrained]
    exact fun x hx hin => mem_matched.mpr ⟨hin _ (List.mem_singleton.mpr rfl), hx⟩
  · intro r hr x hx
    rw [List.mem_singleton.mp hr] at hx ⊢
    exact (mem_matched.mp hx).1

theorem accepts_behind_last {page : List DurabilitySample} {last : DurabilitySample}
    (hmatched : s.matched topic sel = page ++ [last] ++ rest) (x : DurabilitySample) :
    (sel.afterCursor last.cursor).accepts x = true ↔
      sel.accepts x = true ∧ ¬x.cursor.le last.cursor := by
  refine Selector.accepts_afterCursor (Selector.behind_of_accepts ?_)
  have hlast : last ∈ s.matched topic sel := by
    rw [hmatched]
    simp
  exact (mem_matched.mp hlast).2

section Page

variable {page rest : List DurabilitySample} {last : DurabilitySample}
  (hfiled : s.Filed topic) (hmatched : s.matched topic sel = page ++ [last] ++ rest)

include hfiled hmatched

theorem page_le_last : ∀ x ∈ page ++ [last], x.cursor.le last.cursor := by
  have hsorted : Ascending (s.matched topic sel) := ascending_matched hfiled
  rw [hmatched] at hsorted
  intro x hx
  rcases List.mem_append.mp hx with hx | hx
  · have hpage := (List.pairwise_append.mp hsorted).1
    have hlt := (List.pairwise_append.mp hpage).2.2 x hx last (List.mem_singleton.mpr rfl)
    exact (Cursor.le_total _ _).resolve_right hlt
  · rw [List.mem_singleton.mp hx]
    exact last.cursor.le_refl

theorem rest_behind_last : ∀ x ∈ rest, ¬x.cursor.le last.cursor := by
  have hsorted : Ascending (s.matched topic sel) := ascending_matched hfiled
  rw [hmatched] at hsorted
  intro x hx
  exact (List.pairwise_append.mp hsorted).2.2 last (by simp) x hx

theorem complete_page {reads : List (InMemoryStore × Page)}
    (h : Complete topic (sel.afterCursor last.cursor) reads) :
    Complete topic sel ((s, ⟨page ++ [last], some last.cursor⟩) :: reads) := by
  have haccepts := accepts_behind_last hmatched
  have hpage : ∀ x ∈ page ++ [last], x ∈ s.matched topic sel := by
    intro x hx
    rw [hmatched]
    exact List.mem_append_left _ hx
  have hsorted : Ascending (s.matched topic sel) := ascending_matched hfiled
  rw [hmatched] at hsorted
  refine ⟨?_, ?_, ?_, ?_⟩
  · refine List.pairwise_append.mpr ⟨(List.pairwise_append.mp hsorted).1, h.ascending, ?_⟩
    intro a ha b hb hle
    have hbehind := ((haccepts b).mp (h.accepted b hb)).2
    exact hbehind (Cursor.le_trans hle (page_le_last hfiled hmatched a ha))
  · intro x hx
    rcases List.mem_append.mp hx with hx | hx
    · exact (mem_matched.mp (hpage x hx)).2
    · exact ((haccepts x).mp (h.accepted x hx)).1
  · intro x hx hin
    have hmem : x ∈ s.matched topic sel := mem_matched.mpr ⟨hin _ (List.mem_cons_self ..), hx⟩
    rw [hmatched] at hmem
    rcases List.mem_append.mp hmem with hmem | hmem
    · exact List.mem_append_left _ hmem
    · refine List.mem_append_right _ (h.complete x ?_ fun r hr => hin r (List.mem_cons_of_mem _ hr))
      exact (haccepts x).mpr ⟨hx, rest_behind_last hfiled hmatched x hmem⟩
  · intro r hr x hx
    rcases List.mem_cons.mp hr with rfl | hr
    · exact (mem_matched.mp (hpage x hx)).1
    · exact h.present r hr x hx

theorem matched_behind_last : s.matched topic (sel.afterCursor last.cursor) = rest := by
  have heq : s.matched topic (sel.afterCursor last.cursor) =
      (s.matched topic sel).filter fun x => decide ¬x.cursor.le last.cursor := by
    rw [matched, matched, List.filter_filter]
    refine List.filter_congr fun x _ => ?_
    rw [Bool.eq_iff_iff, accepts_behind_last hmatched x, Bool.and_eq_true,
      decide_eq_true_eq, and_comm]
  have hpage : (page ++ [last]).filter (fun x => decide ¬x.cursor.le last.cursor) = [] := by
    refine List.filter_eq_nil_iff.mpr fun x hx => ?_
    have hle := page_le_last hfiled hmatched x hx
    simpa using hle
  have hrest : rest.filter (fun x => decide ¬x.cursor.le last.cursor) = rest := by
    refine List.filter_eq_self.mpr fun x hx => ?_
    exact decide_eq_true (rest_behind_last hfiled hmatched x hx)
  rw [heq, hmatched, List.filter_append, hpage, hrest, List.nil_append]

end Page

/-! ### Samples stay under their own number -/

theorem filed_of_slot {topic' : String} {key : KeyHash} {slot : Slot} (hfiled : s.Filed topic')
    (hslot : topic' = topic → ∀ n x, slot.samples.get? n = some x →
      x.instanceKey = key ∧ x.sequence = n) :
    (s.putSlot topic key slot).Filed topic' := by
  intro key' slot' n x hget hx
  rw [slots_putSlot] at hget
  split at hget
  · next htopic =>
    subst htopic
    rw [get?_insert] at hget
    split at hget
    · next hkey =>
      cases hget
      rw [hkey]
      exact hslot rfl n x hx
    · exact hfiled key' slot' n x hget hx
  · exact hfiled key' slot' n x hget hx

variable {n : Nat} {gaps : List (List Call)}

section

variable (hfiled : s.Filed topic)
include hfiled

theorem filed_getD (key : KeyHash)
    (h : (((s.slots topic).get? key).getD {}).samples.get? n = some x) :
    x.instanceKey = key ∧ x.sequence = n := by
  cases hget : (s.slots topic).get? key with
  | none =>
    rw [hget] at h
    cases h
  | some slot =>
    rw [hget] at h
    exact hfiled key slot n x hget h

theorem filed_store : (s.store x).2.Filed topic := by
  rcases store_cases s x with ⟨e, heq⟩ | ⟨e, -, heq⟩ | ⟨slot', grown, hpush, heq, -⟩
  · rw [heq]
    exact hfiled
  · rw [heq]
    refine filed_of_slot hfiled ?_
    rintro rfl n y hy
    exact filed_getD hfiled _ hy
  · rw [heq]
    refine filed_of_slot hfiled ?_
    rintro rfl n y hy
    have hinserted : ∀ {n y}, ((((s.slots x.topic).get? x.instanceKey).getD {}).samples.insert
        x.sequence x).get? n = some y → y.instanceKey = x.instanceKey ∧ y.sequence = n := by
      intro n y hy
      rw [get?_insert] at hy
      split at hy
      · next hn =>
        cases hy
        exact ⟨rfl, hn.symm⟩
      · exact filed_getD hfiled _ hy
    obtain ⟨-, ⟨-, hsamples, -⟩ | ⟨-, hsamples⟩⟩ := pushIntoSlot_ok hpush
    · rw [hsamples] at hy
      exact hinserted hy
    · rw [hsamples, get?_eq_some] at hy
      exact hinserted (get?_eq_some.mpr (List.mem_of_mem_drop hy))

theorem filed_call {c : Call} : (s.call c).1.Filed topic := by
  cases c with
  | store x => exact filed_store hfiled
  | unregister t key now =>
    show (s.unregister t key now).Filed topic
    unfold unregister
    split
    · exact hfiled
    · next slot hslot =>
      refine filed_of_slot hfiled ?_
      rintro rfl n x hx
      exact hfiled key slot n x hslot hx
  | cleanup now =>
    intro key slot n x hget hx
    have hslots : (s.call (.cleanup now)).1.slots topic =
        (s.slots topic).filter fun _ slot => !s.isDue topic now slot := slots_cleanup
    rw [hslots, get?_filter, Option.filter_eq_some_iff] at hget
    exact hfiled key slot n x hget.1 hx
  | setContract | setTopicMeta | topicMeta | query | stats | replayForTopic => exact hfiled

theorem filed_run {calls : List Call} :
    (run call s calls).1.Filed topic := by
  induction calls generalizing s with
  | nil => exact hfiled
  | cons c calls ih => exact ih (filed_call hfiled)

end

theorem complete_drain {reads : List (InMemoryStore × Page)} (hfiled : ∀ t, s.Filed t)
    (hlimit : ∀ l ∈ sel.limit, 1 ≤ l) (h : drain topic gaps s sel = some reads) :
    Complete topic sel reads := by
  induction gaps generalizing s sel reads with
  | nil =>
    rw [drain] at h
    rcases query_cases (hfiled topic) hlimit with hpage | ⟨page, last, rest, hpage, -⟩
    · rw [hpage] at h
      cases h
      exact complete_last (hfiled topic)
    · rw [hpage] at h
      cases h
  | cons calls gaps ih =>
    rw [drain] at h
    rcases query_cases (hfiled topic) hlimit with hpage | ⟨page, last, rest, hpage, hmatched⟩
    · rw [hpage] at h
      cases h
      exact complete_last (hfiled topic)
    · rw [hpage] at h
      obtain ⟨reads', hreads, rfl⟩ := Option.map_eq_some_iff.mp h
      refine complete_page (hfiled topic) hmatched (ih ?_ hlimit hreads)
      exact fun t => filed_run (hfiled t)

theorem drain_last (hpage : s.query topic sel = ⟨s.matched topic sel, none⟩) :
    ∃ reads, drain topic gaps s sel = some reads ∧ drained reads = s.matched topic sel := by
  refine ⟨[(s, s.query topic sel)], ?_, ?_⟩
  · cases gaps <;> rw [drain, hpage]
  · rw [hpage]
    simp [drained]

theorem drain_still (hfiled : s.Filed topic) (hlimit : ∀ l ∈ sel.limit, 1 ≤ l)
    (hn : (s.matched topic sel).length ≤ n) :
    ∃ reads, drain topic (List.replicate n []) s sel = some reads ∧
      drained reads = s.matched topic sel := by
  induction n generalizing sel with
  | zero =>
    rcases query_cases hfiled hlimit with hpage | ⟨page, last, rest, -, hmatched⟩
    · exact drain_last hpage
    · rw [hmatched] at hn
      simp at hn
  | succ n ih =>
    rcases query_cases hfiled hlimit with hpage | ⟨page, last, rest, hpage, hmatched⟩
    · exact drain_last hpage
    · have hrest := matched_behind_last hfiled hmatched
      have hlimit' : ∀ l ∈ (sel.afterCursor last.cursor).limit, 1 ≤ l := hlimit
      have hfew : (s.matched topic (sel.afterCursor last.cursor)).length ≤ n := by
        rw [hrest]
        rw [hmatched] at hn
        simp only [List.length_append, List.length_singleton] at hn
        omega
      obtain ⟨reads, hreads, hdrained⟩ := ih hlimit' hfew
      refine ⟨(s, s.query topic sel) :: reads, ?_, ?_⟩
      · rw [List.replicate_succ, drain, hpage]
        exact congrArg (Option.map _) hreads
      · have hcons : drained ((s, s.query topic sel) :: reads) =
            (s.query topic sel).samples ++ drained reads := List.flatMap_cons
        rw [hcons, hdrained, hrest, hpage, hmatched]

theorem query_unlimited (hfiled : s.Filed topic) {limit : Nat}
    (h : (s.matched topic sel).length ≤ limit) :
    (s.query topic { sel with limit := some limit }).samples = s.matched topic sel := by
  have hmatched : s.matched topic { sel with limit := some limit } = s.matched topic sel := rfl
  rw [query_eq hfiled, hmatched]
  exact List.take_of_length_le h

theorem filed_reachable {c : Contract} {h : History Call Reply}
    (hr : Reaches call unrestricted (withDefaultContract c) h s) (topic : String) :
    s.Filed topic := by
  refine hr.invariant (P := fun _ s => s.Filed topic) ?_ fun _ s i hfiled _ => filed_call hfiled
  intro key slot n x hget
  cases hget

/-- A paged drain of a store in use.  If it ends, its pages are strictly ascending, without a sample
twice, they hold every matching sample that was there whenever a page was read, and only samples
that were there when their page was.  Without calls between the pages it ends, and gives what one
query does whose limit leaves nothing out. -/
theorem paged_drain_complete {c : Contract} {h : History Call Reply}
    (hr : Reaches call unrestricted (withDefaultContract c) h s) (topic : String) (sel : Selector)
    (hlimit : ∀ l ∈ sel.limit, 1 ≤ l) :
    (∀ gaps reads, drain topic gaps s sel = some reads →
      Ascending (drained reads) ∧ (drained reads).Nodup ∧
      (∀ x, sel.accepts x = true → (∀ r ∈ reads, x ∈ r.1.topicSamples topic) →
        x ∈ drained reads) ∧
      ∀ r ∈ reads, ∀ x ∈ r.2.samples, x ∈ r.1.topicSamples topic ∧ sel.accepts x = true) ∧
    ∃ reads, drain topic (List.replicate (s.matched topic sel).length []) s sel = some reads ∧
      ∀ limit, (s.matched topic sel).length ≤ limit →
        drained reads = (s.query topic { sel with limit := some limit }).samples := by
  refine ⟨fun gaps reads hdrain => ?_, ?_⟩
  · have hcomplete := complete_drain (filed_reachable hr) hlimit hdrain
    refine ⟨hcomplete.ascending, hcomplete.ascending.nodup, hcomplete.complete, ?_⟩
    intro r hrd x hx
    exact ⟨hcomplete.present r hrd x hx, hcomplete.accepted x (List.mem_flatMap.mpr ⟨r, hrd, hx⟩)⟩
  · obtain ⟨reads, hdrain, hdrained⟩ :=
      drain_still (filed_reachable hr topic) hlimit (Nat.le_refl _)
    refine ⟨reads, hdrain, fun limit hle => ?_⟩
    rw [hdrained, query_unlimited (filed_reachable hr topic) hle]

end InMemoryStore

namespace Fixture

open InMemoryStore

def numbered (instanceKey : UInt8) (sequence : Nat) : DurabilitySample :=
  ⟨"t", .repeated instanceKey, sequence, [], 1, false, 0, .repeated 9, sequence⟩

def keepsAll : Contract :=
  ⟨.keepAll, 1, lengthUnlimited, lengthUnlimited, lengthUnlimited, 0⟩

def threeStored : List Call :=
  [.store (numbered 1 1), .store (numbered 1 3), .store (numbered 2 1)]

def inUse : List (List Call) :=
  [[.store (numbered 1 2)], [.unregister "t" (.repeated 1) 0, .cleanup 5]]

theorem paged_drain_in_use :
    ∃ reads, drain "t" inUse (run call (withDefaultContract keepsAll) threeStored).1
        { limit := some 1 } = some reads ∧
      (drained reads).map (·.cursor) =
        [⟨.repeated 1, 1⟩, ⟨.repeated 1, 2⟩, ⟨.repeated 2, 1⟩] ∧
      (drained reads).Nodup := by
  have hdrain : (drain "t" inUse (run call (withDefaultContract keepsAll) threeStored).1
      { limit := some 1 }).map (fun reads => (drained reads).map (·.cursor)) =
        some [⟨.repeated 1, 1⟩, ⟨.repeated 1, 2⟩, ⟨.repeated 2, 1⟩] := by
    decide +kernel
  obtain ⟨reads, hreads, hcursors⟩ := Option.map_eq_some_iff.mp hdrain
  have hreach : Reaches call unrestricted (withDefaultContract keepsAll) _
      (run call (withDefaultContract keepsAll) threeStored).1 :=
    reaches_run (runOk_unrestricted _ _)
  refine ⟨reads, hreads, hcursors, ?_⟩
  exact ((paged_drain_complete hreach "t" { limit := some 1 } (by simp)).1 inUse reads hreads).2.1

end Fixture

end ZeroDds.Durability
