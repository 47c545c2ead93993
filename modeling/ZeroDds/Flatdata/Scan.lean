/-
What a reader's scan finds and marks.
-/
import ZeroDds.Flatdata.PubSub

namespace ZeroDds.Flatdata

open FlatStruct

variable {T : Type} [FlatStruct T]

namespace InMemorySlotAllocator

variable {a : InMemorySlotAllocator}

theorem readSlot_eq {h : SlotHandle} {slot : Slot} (hs : a.slots[h.index]? = some slot) :
    a.readSlot h = .ok (slot.header, slot.data.take slot.header.sampleSize.toNat) := by
  rw [readSlot, hs]

end InMemorySlotAllocator

def Slot.markRead (slot : Slot) (readerIndex : Fin 32) : Slot :=
  { slot with header := slot.header.markRead readerIndex }

theorem Slot.markRead_markRead (slot : Slot) (r : Fin 32) :
    (slot.markRead r).markRead r = slot.markRead r := by
  simp only [markRead, SlotHeader.markRead, BitVec.or_assoc, BitVec.or_self]

namespace FlatReader

theorem index_handleAt (idx : Nat) : (handleAt idx).index = idx % 4294967296 :=
  UInt32.toNat_ofNat'

variable {idx : Nat}

theorem index_handleAt_of_lt (h : idx < 4294967296) : (handleAt idx).index = idx := by
  rw [index_handleAt, Nat.mod_eq_of_lt h]

def unread (T : Type) [FlatStruct T] (r : FlatReader) (slot : Slot) : Bool :=
  slot.header.sampleSize != 0 && !slot.header.hasRead r.readerIndex &&
    !decide (UInt32.ofNat (slot.data.take slot.header.sampleSize.toNat).length <
      UInt32.ofNat (wireSize T))

variable {r : FlatReader} {slot : Slot}

theorem unread_iff : r.unread T slot = true ↔
    (slot.header.sampleSize ≠ 0 ∧ slot.header.hasRead r.readerIndex = false) ∧
      ¬ UInt32.ofNat (slot.data.take slot.header.sampleSize.toNat).length <
        UInt32.ofNat (wireSize T) := by
  rw [unread, Bool.and_eq_true_iff, Bool.and_eq_true_iff, bne_iff_ne, Bool.not_eq_true',
    Bool.not_eq_true', decide_eq_false_iff_not]

def unseen (r : FlatReader) (slot : Slot) : Bool :=
  r.lastSn = 4294967295 || r.lastSn < slot.header.sequenceNumber

variable {a : InMemorySlotAllocator}

theorem scanSlot_eq (hs : a.slots[(handleAt idx).index]? = some slot) (best : Option (Found T))
    (toMark : List SlotHandle) :
    r.scanSlot a (best, toMark) idx = .ok
      (if r.unread T slot then
        (if r.unseen slot && best.all (fun found =>
            decide (found.2.1 < slot.header.sequenceNumber)) then
          some (handleAt idx, slot.header.sequenceNumber,
            fromBytes (slot.data.take slot.header.sampleSize.toNat)) else best,
          toMark ++ [handleAt idx])
      else (best, toMark)) := by
  unfold scanSlot
  dsimp only
  rw [InMemorySlotAllocator.readSlot_eq hs]
  show (if _ then _ else if _ then _ else if _ then _ else _) = _
  by_cases hsize : slot.header.sampleSize = 0
  · have hu : r.unread T slot = false := by simp [unread, hsize]
    rw [if_pos hsize, hu]
    rfl
  · rw [if_neg hsize]
    by_cases hread : slot.header.hasRead r.readerIndex = true
    · have hu : r.unread T slot = false := by simp [unread, hread]
      rw [if_pos hread, hu]
      rfl
    · rw [if_neg hread]
      by_cases hshort : UInt32.ofNat (slot.data.take slot.header.sampleSize.toNat).length <
          UInt32.ofNat (wireSize T)
      · have hu : r.unread T slot = false := by
          unfold unread
          rw [decide_eq_true hshort, Bool.not_true, Bool.and_false]
        rw [if_pos hshort, hu]
        rfl
      · have hu : r.unread T slot = true := by
          unfold unread
          rw [decide_eq_false hshort, bne_iff_ne.mpr hsize, Bool.eq_false_iff.mpr hread]
          rfl
        rw [if_neg hshort, hu]
        rfl

structure Scanned (r : FlatReader) (a : InMemorySlotAllocator) (n : Nat)
    (best : Option (Found T)) (toMark : List SlotHandle) : Prop where
  mem_toMark : ∀ h, h ∈ toMark ↔ ∃ idx < n, h = handleAt idx ∧
    ∃ slot, a.slots[h.index]? = some slot ∧ r.unread T slot = true
  found : ∀ f, best = some f → ∃ idx < n, f.1 = handleAt idx ∧
    ∃ slot, a.slots[f.1.index]? = some slot ∧ r.unread T slot = true ∧ r.unseen slot = true ∧
      f.2 = (slot.header.sequenceNumber, fromBytes (slot.data.take slot.header.sampleSize.toNat))
  newest : ∀ idx < n, ∀ slot, a.slots[(handleAt idx).index]? = some slot →
    r.unread T slot = true → r.unseen slot = true →
      ∃ f, best = some f ∧ slot.header.sequenceNumber ≤ f.2.1

theorem Scanned.next {n : Nat} {best : Option (Found T)} {toMark : List SlotHandle}
    (h : Scanned r a n best toMark) (hs : a.slots[(handleAt n).index]? = some slot) :
    ∃ best' toMark', r.scanSlot a (best, toMark) n = .ok (best', toMark') ∧
      Scanned r a (n + 1) best' toMark' := by
  rw [scanSlot_eq hs]
  by_cases hu : r.unread T slot = true
  · rw [if_pos hu]
    refine ⟨_, _, rfl, ?_, ?_, ?_⟩
    · intro h'
      rw [List.mem_append, List.mem_singleton, h.mem_toMark]
      constructor
      · rintro (⟨idx, hidx, heq, hslot⟩ | rfl)
        · exact ⟨idx, Nat.lt_succ_of_lt hidx, heq, hslot⟩
        · exact ⟨n, Nat.lt_succ_self n, rfl, slot, hs, hu⟩
      · rintro ⟨idx, hidx, heq, hslot⟩
        rcases Nat.lt_succ_iff_lt_or_eq.mp hidx with hlt | rfl
        · exact .inl ⟨idx, hlt, heq, hslot⟩
        · exact .inr heq
    · intro f hf
      split at hf
      · next hbest =>
        obtain rfl := Option.some.inj hf
        exact ⟨n, Nat.lt_succ_self n, rfl, slot, hs, hu, (Bool.and_eq_true_iff.mp hbest).1, rfl⟩
      · obtain ⟨idx, hidx, rest⟩ := h.found f hf
        exact ⟨idx, Nat.lt_succ_of_lt hidx, rest⟩
    · intro idx hidx slot' hs' hu' hseen
      rcases Nat.lt_succ_iff_lt_or_eq.mp hidx with hlt | rfl
      · obtain ⟨f, hf, hle⟩ := h.newest idx hlt slot' hs' hu' hseen
        split
        · next hbest =>
          have hbeats := (Bool.and_eq_true_iff.mp hbest).2
          rw [hf, Option.all_some, decide_eq_true_eq] at hbeats
          exact ⟨_, rfl, UInt32.le_trans hle (UInt32.le_of_lt hbeats)⟩
        · exact ⟨f, hf, hle⟩
      · obtain rfl := Option.some.inj (hs.symm.trans hs')
        split
        · exact ⟨_, rfl, UInt32.le_refl _⟩
        · next hbest =>
          cases hb : best with
          | none => simp [hb, hseen] at hbest
          | some f =>
            simp only [hb, hseen, Option.all_some, Bool.true_and, decide_eq_true_eq] at hbest
            exact ⟨f, rfl, UInt32.not_lt.mp hbest⟩
  · rw [if_neg hu]
    refine ⟨_, _, rfl, ?_, ?_, ?_⟩
    · intro h'
      rw [h.mem_toMark]
      constructor
      · rintro ⟨idx, hidx, rest⟩
        exact ⟨idx, Nat.lt_succ_of_lt hidx, rest⟩
      · rintro ⟨idx, hidx, rfl, slot', hs', hu'⟩
        rcases Nat.lt_succ_iff_lt_or_eq.mp hidx with hlt | rfl
        · exact ⟨idx, hlt, rfl, slot', hs', hu'⟩
        · rw [hs] at hs'
          exact absurd (Option.some.inj hs' ▸ hu') hu
    · intro f hf
      obtain ⟨idx, hidx, rest⟩ := h.found f hf
      exact ⟨idx, Nat.lt_succ_of_lt hidx, rest⟩
    · intro idx hidx slot' hs' hu' hseen
      rcases Nat.lt_succ_iff_lt_or_eq.mp hidx with hlt | rfl
      · exact h.newest idx hlt slot' hs' hu' hseen
      · rw [hs] at hs'
        exact absurd (Option.some.inj hs' ▸ hu') hu

theorem exists_slot_handleAt (h : idx < a.slots.length) :
    ∃ slot, a.slots[(handleAt idx).index]? = some slot := by
  have hlt : (handleAt idx).index < a.slots.length := by
    exact Nat.lt_of_le_of_lt (Nat.mod_le _ _) h
  exact ⟨_, List.getElem?_eq_getElem hlt⟩

theorem scanned_foldlM (r : FlatReader) (a : InMemorySlotAllocator) :
    ∀ n ≤ a.slots.length, ∃ (best : Option (Found T)) (toMark : List SlotHandle),
      (List.range n).foldlM (r.scanSlot a) (none, []) = .ok (best, toMark) ∧
        Scanned r a n best toMark := by
  intro n
  induction n with
  | zero =>
    refine fun _ => ⟨none, [], rfl, ?_, ?_, ?_⟩
    · intro h
      simp
    · intro f hf
      cases hf
    · intro idx hidx
      exact absurd hidx (Nat.not_lt_zero idx)
  | succ n ih =>
    intro hn
    obtain ⟨best, toMark, hfold, hscan⟩ := ih (Nat.le_of_succ_le hn)
    obtain ⟨slot, hslot⟩ := exists_slot_handleAt (Nat.lt_of_succ_le hn)
    obtain ⟨best', toMark', hstep, hscan'⟩ := hscan.next hslot
    refine ⟨best', toMark', ?_, hscan'⟩
    rw [List.range_succ, List.foldlM_append, hfold]
    show List.foldlM (r.scanSlot a) (best, toMark) [n] = _
    rw [List.foldlM_cons, hstep]
    rfl

theorem markAll_spec (readerIndex : Fin 32) (hs : List SlotHandle) (a : InMemorySlotAllocator)
    (hlt : ∀ h ∈ hs, h.index < a.slots.length) :
    ∃ slots, markAll readerIndex a hs = (.ok (), { a with slots := slots }) ∧
      ∀ i, slots[i]? = a.slots[i]?.map fun slot =>
        if ∃ h ∈ hs, h.index = i then slot.markRead readerIndex else slot := by
  induction hs generalizing a with
  | nil => exact ⟨a.slots, rfl, fun i => by simp⟩
  | cons h hs ih =>
    have hmark : a.markRead h readerIndex = (.ok (), { a with
        slots := a.slots.modify h.index fun slot => slot.markRead readerIndex }) :=
      if_neg (Nat.not_le.mpr (hlt h List.mem_cons_self))
    obtain ⟨slots, hall, hslots⟩ := ih { a with
        slots := a.slots.modify h.index fun slot => slot.markRead readerIndex } (fun h' hh' => by
      rw [List.length_modify]
      exact hlt h' (List.mem_cons_of_mem h hh'))
    refine ⟨slots, ?_, fun i => ?_⟩
    · rw [markAll, hmark]
      exact hall
    · rw [hslots, List.getElem?_modify]
      cases a.slots[i]? with
      | none => rfl
      | some slot =>
        by_cases hi : h.index = i
        · by_cases hrest : ∃ h' ∈ hs, h'.index = i
          · simp [hi, hrest, Slot.markRead_markRead]
          · simp [hi, hrest]
        · by_cases hrest : ∃ h' ∈ hs, h'.index = i
          · simp [hi, hrest]
          · simp [hi, hrest]

def rejects (r : FlatReader) (a : InMemorySlotAllocator) : Bool :=
  a.typeHash.any fun hash => decide (hash ≠ r.expectedTypeHash)

structure ScanResult (r : FlatReader) (a : InMemorySlotAllocator) (deferBest : Bool)
    (best : Option (Found T)) (slots : List Slot) : Prop where
  marked : ∀ i, slots[i]? = a.slots[i]?.map fun slot =>
    if i < 4294967296 ∧ r.unread T slot = true ∧
        ¬ (deferBest = true ∧ best.map (·.1.index) = some i) then
      slot.markRead r.readerIndex
    else slot
  found : ∀ f, best = some f → ∃ slot, a.slots[f.1.index]? = some slot ∧
    r.unread T slot = true ∧ r.unseen slot = true ∧
      f.2 = (slot.header.sequenceNumber, fromBytes (slot.data.take slot.header.sampleSize.toNat))
  newest : ∀ i < 4294967296, ∀ slot, a.slots[i]? = some slot → r.unread T slot = true →
    r.unseen slot = true → ∃ f, best = some f ∧ slot.header.sequenceNumber ≤ f.2.1

theorem handleAt_eq_iff {i j : Nat} : handleAt i = handleAt j ↔
    (handleAt i).index = (handleAt j).index := by
  constructor
  · intro h
    rw [h]
  · intro h
    have hslot : UInt32.ofNat i = UInt32.ofNat j := UInt32.toNat_inj.mp h
    rw [handleAt, handleAt, hslot]

theorem Scanned.mem_marked {best : Option (Found T)} {toMark : List SlotHandle}
    (h : Scanned r a a.slots.length best toMark) (deferBest : Bool) {i : Nat}
    (hs : a.slots[i]? = some slot) :
    (∃ handle ∈ toMark.filter (fun handle =>
        !(deferBest && decide (best.map Prod.fst = some handle))), handle.index = i) ↔
      i < 4294967296 ∧ r.unread T slot = true ∧
        ¬ (deferBest = true ∧ best.map (·.1.index) = some i) := by
  have hbest : ∀ idx, best.map Prod.fst = some (handleAt idx) ↔
      best.map (·.1.index) = some (handleAt idx).index := by
    intro idx
    cases hb : best with
    | none => simp
    | some f =>
      obtain ⟨j, -, hj, -⟩ := h.found f hb
      simp only [Option.map_some, Option.some.injEq, hj]
      exact handleAt_eq_iff
  constructor
  · rintro ⟨handle, hmem, rfl⟩
    obtain ⟨hmark, hdefer⟩ := List.mem_filter.mp hmem
    obtain ⟨idx, -, rfl, slot', hs', hu⟩ := (h.mem_toMark handle).mp hmark
    refine ⟨UInt32.toNat_lt _, Option.some.inj (hs.symm.trans hs') ▸ hu, ?_⟩
    rintro ⟨rfl, heq⟩
    rw [decide_eq_true ((hbest idx).mpr heq)] at hdefer
    exact absurd hdefer (by decide)
  · rintro ⟨hi, hu, hdefer⟩
    have hindex := index_handleAt_of_lt hi
    refine ⟨handleAt i, List.mem_filter.mpr ⟨(h.mem_toMark _).mpr ⟨i, ?_, rfl, slot, ?_, hu⟩, ?_⟩,
      hindex⟩
    · exact (List.getElem?_eq_some_iff.mp hs).1
    · rw [hindex, hs]
    · rw [Bool.not_eq_true', Bool.and_eq_false_iff, decide_eq_false_iff_not, hbest, hindex]
      by_cases hd : deferBest = true
      · exact .inr fun heq => hdefer ⟨hd, heq⟩
      · exact .inl (Bool.eq_false_iff.mpr hd)

theorem scanBest_of_rejects (deferBest : Bool) (h : r.rejects a = true) :
    r.scanBest (T := T) a deferBest = (.error (.sampleTooLarge 0 0), a, r) := if_pos h

theorem scanBest_spec (deferBest : Bool) (h : r.rejects a = false) :
    ∃ (best : Option (Found T)) (slots : List Slot),
      r.scanBest a deferBest = (.ok best, { a with slots := slots },
        { r with lastSn := (best.map (·.2.1)).getD r.lastSn }) ∧
      ScanResult r a deferBest best slots := by
  obtain ⟨best, toMark, hfold, hscan⟩ := scanned_foldlM (T := T) r a a.slots.length (Nat.le_refl _)
  have hlt : ∀ handle ∈ toMark.filter (fun handle =>
      !(deferBest && decide (best.map Prod.fst = some handle))),
      handle.index < a.slots.length := by
    intro handle hmem
    obtain ⟨-, -, -, slot, hs, -⟩ := (hscan.mem_toMark handle).mp (List.mem_filter.mp hmem).1
    exact (List.getElem?_eq_some_iff.mp hs).1
  obtain ⟨slots, hmark, hslots⟩ := markAll_spec r.readerIndex _ a hlt
  refine ⟨best, slots, ?_, ?_, ?_, ?_⟩
  · rw [scanBest, if_neg (by exact Bool.eq_false_iff.mp h), hfold]
    dsimp only
    rw [hmark]
  · intro i
    rw [hslots]
    cases hs : a.slots[i]? with
    | none => rfl
    | some slot =>
      rw [Option.map_some, Option.map_some]
      simp only [hscan.mem_marked deferBest hs]
  · intro f hf
    obtain ⟨-, -, -, rest⟩ := hscan.found f hf
    exact rest
  · intro i hi slot hs hu hseen
    have hindex := index_handleAt_of_lt hi
    exact hscan.newest i (List.getElem?_eq_some_iff.mp hs).1 slot (by rw [hindex, hs]) hu hseen

end FlatReader

end ZeroDds.Flatdata
