/-
Slots held by references.
-/
import ZeroDds.Lib.Run
import ZeroDds.Flatdata.Scan

namespace ZeroDds.Flatdata

open InMemorySlotAllocator FlatStruct

variable {T : Type}

theorem SlotHeader.allRead_markRead {h : SlotHeader} {mask : ReaderMask} (r : Fin 32)
    (hall : h.allRead mask = true) : (h.markRead r).allRead mask = true := by
  refine beq_iff_eq.mpr (BitVec.eq_of_getLsbD_eq fun i hi => ?_)
  have hget := congrArg (BitVec.getLsbD · i) (beq_iff_eq.mp hall)
  simp only [BitVec.getLsbD_and] at hget
  simp only [SlotHeader.markRead, BitVec.getLsbD_and, BitVec.getLsbD_or]
  cases hm : mask.getLsbD i with
  | false => rw [Bool.and_false]
  | true =>
    rw [hm, Bool.and_true] at hget
    rw [hget]
    rfl

def Timely (w : FlatWriter) (a : InMemorySlotAllocator) (now : Nat) : Prop :=
  ∀ slot ∈ a.slots, ∀ t ∈ slot.committedAt, now - t < w.stragglerTimeout

instance (w : FlatWriter) (a : InMemorySlotAllocator) (now : Nat) : Decidable (Timely w a now) :=
  inferInstanceAs (Decidable (∀ slot ∈ a.slots, ∀ t ∈ slot.committedAt,
    now - t < w.stragglerTimeout))

/-! ### What the operations do to the slots -/

structure OnlyAt (i : Nat) (a a' : InMemorySlotAllocator) : Prop where
  length : a'.slots.length = a.slots.length
  other : ∀ j, j ≠ i → a'.slots[j]? = a.slots[j]?

variable {a : InMemorySlotAllocator} {i : Nat}

theorem OnlyAt.rfl : OnlyAt i a a := ⟨Eq.refl _, fun _ _ => Eq.refl _⟩

theorem OnlyAt.trans {b c : InMemorySlotAllocator} (h : OnlyAt i a b) (h' : OnlyAt i b c) :
    OnlyAt i a c :=
  ⟨h'.length.trans h.length, fun j hj => (h'.other j hj).trans (h.other j hj)⟩

theorem onlyAt_modify (a : InMemorySlotAllocator) (i : Nat) (f : Slot → Slot) (sn : UInt32) :
    OnlyAt i a { a with nextSn := sn, slots := a.slots.modify i f } where
  length := List.length_modify ..
  other j hj := by
    exact List.getElem?_modify_ne f a.slots (Ne.symm hj)

namespace InMemorySlotAllocator

variable {a : InMemorySlotAllocator}

theorem reserveSlot_cases (a : InMemorySlotAllocator) (mask : ReaderMask) :
    a.reserveSlot mask = (.error .noFreeSlot, a) ∨
    ∃ idx slot, a.slots[idx]? = some slot ∧ slot.free mask = true ∧
      a.reserveSlot mask = (.ok ⟨a.segmentId, .ofNat idx⟩,
        { a with slots := a.slots.modify idx fun slot => { slot with loaned := true } }) := by
  cases hfind : a.slots.findIdx? (·.free mask) with
  | none =>
    left
    rw [reserveSlot, hfind]
  | some idx =>
    right
    obtain ⟨hlt, hfree, -⟩ := List.findIdx?_eq_some_iff_getElem.mp hfind
    refine ⟨idx, a.slots[idx], List.getElem?_eq_getElem hlt, hfree, ?_⟩
    rw [reserveSlot, hfind]

variable {now : Nat} {handle : SlotHandle} {slot : Slot}

theorem evictStale_of_timely {w : FlatWriter} (h : Timely w a now) (mask : ReaderMask) :
    a.evictStale now w.stragglerTimeout mask = (0, a) := by
  have hfresh : ∀ slot ∈ a.slots, stale now w.stragglerTimeout mask slot = false := by
    intro slot hslot
    have hage : (slot.committedAt.any fun t => decide (w.stragglerTimeout ≤ now - t)) = false := by
      cases ht : slot.committedAt with
      | none => rfl
      | some t =>
        exact decide_eq_false (Nat.not_le.mpr (h slot hslot t ht))
    rw [stale, hage, Bool.and_false]
  have hcount : a.slots.countP (stale now w.stragglerTimeout mask) = 0 :=
    List.countP_eq_zero.mpr fun slot hslot => Bool.eq_false_iff.mp (hfresh slot hslot)
  have hmap : (a.slots.map fun slot =>
      if stale now w.stragglerTimeout mask slot then
        { slot with header := { slot.header with
            readerMask := slot.header.readerMask ||| mask } }
      else slot) = a.slots := by
    refine (List.map_congr_left fun slot hslot => ?_).trans (List.map_id _)
    rw [if_neg (Bool.eq_false_iff.mp (hfresh slot hslot))]
    rfl
  rw [evictStale, hcount, hmap]

theorem commitWith_cases (a : InMemorySlotAllocator) (now : Nat) (handle : SlotHandle) (len : Nat)
    (fill : Octets → Octets) :
    (∃ e, a.commitWith now handle len fill = (.error e, a)) ∨
    (handle.index < a.slots.length ∧ len ≤ a.slotCapacity ∧
      a.commitWith now handle len fill = (.ok a.nextSn, { a with
        nextSn := a.nextSn + 1
        slots := a.slots.modify handle.index fun slot =>
          ⟨.new a.nextSn (u32OrMax len), fill slot.data, false, some now⟩ })) := by
  unfold commitWith
  by_cases hlen : a.slotCapacity < len
  · exact .inl ⟨_, if_pos hlen⟩
  · rw [if_neg hlen]
    by_cases hidx : a.slots.length ≤ handle.index
    · exact .inl ⟨_, if_pos hidx⟩
    · exact .inr ⟨Nat.not_le.mp hidx, Nat.not_lt.mp hlen, if_neg hidx⟩

theorem onlyAt_discardSlot (a : InMemorySlotAllocator) (handle : SlotHandle) :
    OnlyAt handle.index a (a.discardSlot handle).2 := by
  unfold discardSlot
  split
  · exact .rfl
  · exact onlyAt_modify a handle.index _ a.nextSn

theorem loaned_discardSlot (h : (a.discardSlot handle).2.slots[handle.index]? = some slot) :
    slot.loaned = false := by
  unfold discardSlot at h
  split at h
  · next hidx =>
    rw [List.getElem?_eq_none hidx] at h
    cases h
  · rw [List.getElem?_modify_eq] at h
    obtain ⟨old, -, rfl⟩ := Option.map_eq_some_iff.mp h
    rfl

theorem onlyAt_finishLoan (a : InMemorySlotAllocator) (now : Nat) (handle : SlotHandle)
    (len : Nat) (fill : Octets → Octets) :
    OnlyAt handle.index a (finishLoan handle (a.commitWith now handle len fill)).2 := by
  rcases a.commitWith_cases now handle len fill with ⟨e, he⟩ | ⟨-, -, hok⟩
  · rw [he]
    exact a.onlyAt_discardSlot handle
  · rw [hok]
    exact onlyAt_modify a handle.index _ _

theorem loaned_finishLoan {len : Nat} {fill : Octets → Octets} (h : (finishLoan handle
      (a.commitWith now handle len fill)).2.slots[handle.index]? = some slot) :
    slot.loaned = false := by
  rcases a.commitWith_cases now handle len fill with ⟨e, he⟩ | ⟨-, -, hok⟩
  · rw [he] at h
    exact loaned_discardSlot h
  · rw [hok] at h
    dsimp only [finishLoan] at h
    rw [List.getElem?_modify_eq] at h
    obtain ⟨old, -, rfl⟩ := Option.map_eq_some_iff.mp h
    rfl

end InMemorySlotAllocator

theorem FlatWriter.reserve_of_timely {w : FlatWriter} {now : Nat} (h : Timely w a now) :
    w.reserve a now = a.reserveSlot w.activeReadersMask := by
  rcases a.reserveSlot_cases w.activeReadersMask with hnone | ⟨idx, slot, -, -, hok⟩
  · rw [reserve, hnone]
    dsimp only
    rw [evictStale_of_timely h]
    rfl
  · rw [reserve, hok]

namespace System

/-- The slot of a reference has the sample it was made from, off loan and without the
bit of the reader. -/
def Holds (s : System T) (p : FlatSampleRef T × Nat) : Prop :=
  s.writer.activeReadersMask.getLsbD p.1.readerIndex = true ∧
  s.origin p.1.handle.index = p.2 ∧
  ∃ slot : Slot, s.alloc.slots[p.1.handle.index]? = some slot ∧ slot.loaned = false ∧
    slot.header.sampleSize ≠ 0 ∧ slot.header.hasRead p.1.readerIndex = false

structure Held (s : System T) : Prop where
  bound : s.alloc.slots.length ≤ 4294967296
  readers : ∀ r ∈ s.readers, s.writer.activeReadersMask.getLsbD r.readerIndex = true
  quiet : ∀ (i : Nat) (slot : Slot), s.alloc.slots[i]? = some slot → slot.loaned = true →
    slot.header.sampleSize = 0 ∨ slot.header.allRead s.writer.activeReadersMask = true
  loans : ∀ h ∈ s.loans, ∃ slot : Slot, s.alloc.slots[h.index]? = some slot ∧ slot.loaned = true
  distinct : (s.loans.map SlotHandle.index).Nodup
  refs : ∀ p ∈ s.refs, s.Holds p
  bits : (s.refs.map (·.1.readerIndex)).Nodup

variable {s : System T} {i now : Nat} {slot : Slot}
  {p : FlatSampleRef T × Nat} {alloc : InMemorySlotAllocator} {origin : Nat → Nat}
  {handle : SlotHandle} {seg : UInt64}

theorem Holds.index_ne_of_free (h : s.Holds p) (hs : s.alloc.slots[i]? = some slot)
    (hfree : slot.free s.writer.activeReadersMask = true) : p.1.handle.index ≠ i := by
  obtain ⟨hbit, -, held, hheld, -, hsize, hunread⟩ := h
  rintro rfl
  obtain rfl := Option.some.inj (hs.symm.trans hheld)
  rcases Bool.or_eq_true_iff.mp (Bool.and_eq_true_iff.mp hfree).2 with hzero | hall
  · exact hsize (beq_iff_eq.mp hzero)
  · rw [SlotHeader.hasRead_of_allRead hall hbit] at hunread
    cases hunread

theorem Holds.index_ne_of_loaned (h : s.Holds p) (hs : s.alloc.slots[i]? = some slot)
    (hl : slot.loaned = true) : p.1.handle.index ≠ i := by
  obtain ⟨-, -, held, hheld, hloaned, -⟩ := h
  rintro rfl
  obtain rfl := Option.some.inj (hs.symm.trans hheld)
  rw [hl] at hloaned
  cases hloaned

theorem Held.change_at (h : s.Held) (honly : OnlyAt i s.alloc alloc)
    (hrefs : ∀ p ∈ s.refs, p.1.handle.index ≠ i) {loans : List SlotHandle}
    (hloans : ∀ l ∈ loans, l ∈ s.loans ∧ l.index ≠ i)
    (hdistinct : (loans.map SlotHandle.index).Nodup)
    (hoff : ∀ slot : Slot, alloc.slots[i]? = some slot → slot.loaned = false)
    (horigin : ∀ j, j ≠ i → origin j = s.origin j) (commits : Nat) :
    Held { s with alloc := alloc, loans := loans, origin := origin, commits := commits } where
  bound := honly.length.trans_le h.bound
  readers := h.readers
  quiet j slot hs hl := by
    by_cases hj : j = i
    · subst hj
      rw [hoff slot hs] at hl
      cases hl
    · rw [honly.other j hj] at hs
      exact h.quiet j slot hs hl
  loans l hl := by
    obtain ⟨hmem, hne⟩ := hloans l hl
    obtain ⟨slot, hs, hloaned⟩ := h.loans l hmem
    exact ⟨slot, (honly.other _ hne).trans hs, hloaned⟩
  distinct := hdistinct
  refs p hp := by
    obtain ⟨hbit, hmade, slot, hs, rest⟩ := h.refs p hp
    have hne := hrefs p hp
    exact ⟨hbit, (horigin _ hne).trans hmade, slot, (honly.other _ hne).trans hs, rest⟩
  bits := h.bits

theorem filled_eq (s : System T) (handle : SlotHandle)
    (committed : Except SlotError UInt32 × InMemorySlotAllocator) :
    ∃ origin commits, s.filled (some handle) committed =
        { s with alloc := committed.2, origin := origin, commits := commits } ∧
      ∀ j, j ≠ handle.index → origin j = s.origin j := by
  obtain ⟨result, alloc⟩ := committed
  cases result with
  | error e => exact ⟨s.origin, s.commits, rfl, fun _ _ => rfl⟩
  | ok sn => exact ⟨_, _, rfl, fun j hj => Function.update_of_ne hj _ _⟩

theorem Held.finish (h : s.Held) {loan : Nat} (hloan : s.loans[loan]? = some handle)
    (honly : OnlyAt handle.index s.alloc alloc)
    (hoff : ∀ slot : Slot, alloc.slots[handle.index]? = some slot → slot.loaned = false)
    (horigin : ∀ j, j ≠ handle.index → origin j = s.origin j) (commits : Nat) :
    Held { s with
      alloc := alloc, loans := s.loans.eraseIdx loan, origin := origin, commits := commits } := by
  obtain ⟨slot, hslot, hloaned⟩ := h.loans handle (List.mem_of_getElem? hloan)
  have hdistinct : ((s.loans.eraseIdx loan).map SlotHandle.index).Nodup :=
    h.distinct.sublist ((List.eraseIdx_sublist _ _).map _)
  refine h.change_at honly (fun p hp => (h.refs p hp).index_ne_of_loaned hslot hloaned) ?_
    hdistinct hoff horigin commits
  intro l hl
  refine ⟨(List.eraseIdx_sublist _ _).subset hl, ?_⟩
  obtain ⟨j, hj, hget⟩ := List.mem_eraseIdx_iff_getElem?.mp hl
  intro heq
  have hmap : ∀ (k : Nat) (x : SlotHandle), s.loans[k]? = some x →
      (s.loans.map SlotHandle.index)[k]? = some x.index := by
    intro k x hx
    rw [List.getElem?_map, hx, Option.map_some]
  have hlt : j < (s.loans.map SlotHandle.index).length := by
    rw [List.length_map]
    exact (List.getElem?_eq_some_iff.mp hget).1
  refine hj ((List.getElem?_inj hlt h.distinct).mp ?_)
  rw [hmap j l hget, hmap loan handle hloan, heq]

theorem index_ofNat {idx : Nat} (h : idx < 4294967296) :
    (⟨seg, .ofNat idx⟩ : SlotHandle).index = idx :=
  FlatReader.index_handleAt_of_lt h

theorem Held.reserve_cases (h : s.Held) (ht : Timely s.writer s.alloc now) :
    s.writer.reserve s.alloc now = (.error .noFreeSlot, s.alloc) ∨
    ∃ handle slot, s.alloc.slots[handle.index]? = some slot ∧
      slot.free s.writer.activeReadersMask = true ∧
      s.writer.reserve s.alloc now = (.ok handle, { s.alloc with
        slots := s.alloc.slots.modify handle.index fun slot => { slot with loaned := true } }) := by
  rw [FlatWriter.reserve_of_timely ht]
  rcases s.alloc.reserveSlot_cases s.writer.activeReadersMask with
    hnone | ⟨idx, slot, hs, hfree, hok⟩
  · exact .inl hnone
  · have hlt : idx < 4294967296 := Nat.lt_of_lt_of_le (List.getElem?_eq_some_iff.mp hs).1 h.bound
    have hindex : (⟨s.alloc.segmentId, .ofNat idx⟩ : SlotHandle).index = idx := index_ofNat hlt
    refine .inr ⟨⟨s.alloc.segmentId, .ofNat idx⟩, slot, ?_, hfree, ?_⟩
    · rw [hindex, hs]
    · rw [hindex, hok]

theorem Held.free_index (h : s.Held) (hs : s.alloc.slots[i]? = some slot)
    (hfree : slot.free s.writer.activeReadersMask = true) :
    (∀ p ∈ s.refs, p.1.handle.index ≠ i) ∧ ∀ l ∈ s.loans, l ∈ s.loans ∧ l.index ≠ i := by
  refine ⟨fun p hp => (h.refs p hp).index_ne_of_free hs hfree, fun l hl => ⟨hl, ?_⟩⟩
  rintro rfl
  obtain ⟨slot', hs', hloaned⟩ := h.loans l hl
  obtain rfl := Option.some.inj (hs.symm.trans hs')
  have hoff := (Bool.and_eq_true_iff.mp hfree).1
  rw [hloaned] at hoff
  cases hoff

variable [FlatStruct T]

theorem Held.write (h : s.Held) (ht : Timely s.writer s.alloc now) (x : T) :
    (s.write now x).1.Held := by
  show (s.filled (s.writer.reserve s.alloc now).1.toOption (s.writer.write s.alloc now x)).Held
  unfold FlatWriter.write
  rcases h.reserve_cases ht with hnone | ⟨handle, slot, hs, hfree, hok⟩
  · rw [hnone]
    exact h
  · rw [hok]
    obtain ⟨hrefs, hloans⟩ := h.free_index hs hfree
    obtain ⟨origin, commits, heq, horigin⟩ := s.filled_eq handle (finishLoan handle
      ({ s.alloc with slots := s.alloc.slots.modify handle.index fun slot =>
        { slot with loaned := true } }.commitSlot now handle (FlatStruct.asBytes x)))
    show (s.filled (some handle) _).Held
    rw [heq]
    refine h.change_at ?_ hrefs hloans h.distinct
      (fun slot' hslot' => loaned_finishLoan hslot') horigin commits
    exact (onlyAt_modify s.alloc handle.index _ s.alloc.nextSn).trans
      (onlyAt_finishLoan _ now handle _ _)

omit [FlatStruct T] in
theorem Held.loanSlot (h : s.Held) (ht : Timely s.writer s.alloc now) :
    (s.loanSlot now).1.Held := by
  unfold System.loanSlot
  rcases h.reserve_cases ht with hnone | ⟨handle, slot, hs, hfree, hok⟩
  · rw [hnone]
    exact h
  · rw [hok]
    obtain ⟨hrefs, hloans⟩ := h.free_index hs hfree
    have honly := onlyAt_modify s.alloc handle.index
      (fun slot => { slot with loaned := true }) s.alloc.nextSn
    have hnow : (s.alloc.slots.modify handle.index fun slot =>
        { slot with loaned := true })[handle.index]? = some { slot with loaned := true } := by
      rw [List.getElem?_modify_eq, hs]
      rfl
    constructor
    · exact honly.length.trans_le h.bound
    · exact h.readers
    · intro j slot' hs' hl
      by_cases hj : j = handle.index
      · subst hj
        obtain rfl := Option.some.inj (hnow.symm.trans hs')
        rcases Bool.or_eq_true_iff.mp (Bool.and_eq_true_iff.mp hfree).2 with hzero | hall
        · exact .inl (beq_iff_eq.mp hzero)
        · exact .inr hall
      · rw [honly.other j hj] at hs'
        exact h.quiet j slot' hs' hl
    · intro l hl
      rcases List.mem_append.mp hl with hl | hl
      · obtain ⟨slot', hs', hloaned⟩ := h.loans l hl
        exact ⟨slot', (honly.other _ (hloans l hl).2).trans hs', hloaned⟩
      · rw [List.mem_singleton.mp hl]
        exact ⟨_, hnow, rfl⟩
    · rw [List.map_append, List.nodup_append]
      refine ⟨h.distinct, List.nodup_singleton _, ?_⟩
      intro i hi j hj
      obtain ⟨l, hl, rfl⟩ := List.mem_map.mp hi
      rw [List.mem_singleton.mp hj]
      exact (hloans l hl).2
    · intro p hp
      obtain ⟨hbit, hmade, held, hheld, rest⟩ := h.refs p hp
      exact ⟨hbit, hmade, held, (honly.other _ (hrefs p hp)).trans hheld, rest⟩
    · exact h.bits

theorem Held.asMut (h : s.Held) (loan : Nat) (x : T) : (s.asMut loan x).1.Held := by
  unfold System.asMut
  cases hloan : s.loans[loan]? with
  | none => exact h
  | some handle =>
    dsimp only
    obtain ⟨slot, hs, hloaned⟩ := h.loans handle (List.mem_of_getElem? hloan)
    unfold InMemorySlotAllocator.writeThrough
    rw [hs]
    dsimp only
    rw [if_neg (by rw [hloaned]; decide)]
    split
    · exact h
    · have honly := onlyAt_modify s.alloc handle.index (fun slot =>
        { slot with data := asBytes x ++ slot.data.drop (asBytes x).length }) s.alloc.nextSn
      have hnow : (s.alloc.slots.modify handle.index fun slot =>
          { slot with data := asBytes x ++ slot.data.drop (asBytes x).length })[handle.index]? =
          some { slot with data := asBytes x ++ slot.data.drop (asBytes x).length } := by
        rw [List.getElem?_modify_eq, hs]
        rfl
      constructor
      · exact honly.length.trans_le h.bound
      · exact h.readers
      · intro j slot' hs' hl
        by_cases hj : j = handle.index
        · subst hj
          obtain rfl := Option.some.inj (hnow.symm.trans hs')
          exact h.quiet _ slot hs hloaned
        · rw [honly.other j hj] at hs'
          exact h.quiet j slot' hs' hl
      · intro l hl
        obtain ⟨slot', hs', hl'⟩ := h.loans l hl
        by_cases hj : l.index = handle.index
        · rw [hj]
          exact ⟨_, hnow, hloaned⟩
        · exact ⟨slot', (honly.other _ hj).trans hs', hl'⟩
      · exact h.distinct
      · intro p hp
        obtain ⟨hbit, hmade, held, hheld, rest⟩ := h.refs p hp
        have hne := (h.refs p hp).index_ne_of_loaned hs hloaned
        exact ⟨hbit, hmade, held, (honly.other _ hne).trans hheld, rest⟩
      · exact h.bits

omit [FlatStruct T] in
theorem Held.commitLoan (h : s.Held) (loan now len : Nat) (fill : SlotHandle → Octets → Octets) :
    (s.commitLoan loan fun handle => s.alloc.commitWith now handle len (fill handle)).1.Held := by
  unfold System.commitLoan
  cases hloan : s.loans[loan]? with
  | none => exact h
  | some handle =>
    dsimp only
    obtain ⟨origin, commits, heq, horigin⟩ :=
      { s with loans := s.loans.eraseIdx loan }.filled_eq handle
        (finishLoan handle (s.alloc.commitWith now handle len (fill handle)))
    rw [heq]
    exact h.finish hloan (onlyAt_finishLoan ..)
      (fun slot hslot => loaned_finishLoan hslot) horigin commits

omit [FlatStruct T] in
theorem Held.discard (h : s.Held) (loan : Nat) : (s.discard loan).1.Held := by
  unfold System.discard
  cases hloan : s.loans[loan]? with
  | none => exact h
  | some handle =>
    exact h.finish hloan (s.alloc.onlyAt_discardSlot handle)
      (fun slot hslot => loaned_discardSlot hslot) (fun _ _ => rfl) s.commits

section

variable {slots : List Slot} {r : Fin 32} {C : Nat → Slot → Prop} [∀ i slot, Decidable (C i slot)]

omit [FlatStruct T] in
theorem Holds.marked (h : s.Holds p) (hne : p.1.readerIndex ≠ r)
    (hslots : ∀ i, slots[i]? = s.alloc.slots[i]?.map fun slot =>
      if C i slot then slot.markRead r else slot) (readers : List FlatReader)
    (refs : List (FlatSampleRef T × Nat)) :
    Holds { s with
      alloc := { s.alloc with slots := slots }, readers := readers, refs := refs } p := by
  obtain ⟨hbit, hmade, slot, hs, hoff, hsize, hunread⟩ := h
  have hnow := hslots p.1.handle.index
  rw [hs, Option.map_some] at hnow
  by_cases hc : C p.1.handle.index slot
  · rw [if_pos hc] at hnow
    refine ⟨hbit, hmade, _, hnow, hoff, hsize, ?_⟩
    show (slot.header.markRead r).hasRead p.1.readerIndex = false
    rw [SlotHeader.hasRead_markRead, hunread, decide_eq_false hne]
    rfl
  · rw [if_neg hc] at hnow
    exact ⟨hbit, hmade, slot, hnow, hoff, hsize, hunread⟩

omit [FlatStruct T] in
theorem Held.marked (h : s.Held) (hslots : ∀ i, slots[i]? = s.alloc.slots[i]?.map fun slot =>
      if C i slot then slot.markRead r else slot) {readers : List FlatReader}
    (hreaders : ∀ q ∈ readers, s.writer.activeReadersMask.getLsbD q.readerIndex = true)
    {refs : List (FlatSampleRef T × Nat)} (hrefs : ∀ p ∈ refs, Holds { s with
      alloc := { s.alloc with slots := slots }, readers := readers, refs := refs } p)
    (hbits : (refs.map (·.1.readerIndex)).Nodup) :
    Held { s with
      alloc := { s.alloc with slots := slots }, readers := readers, refs := refs } where
  bound := by
    refine le_trans ?_ h.bound
    rw [← List.getElem?_eq_none_iff, hslots, List.getElem?_eq_none (Nat.le_refl _)]
    rfl
  readers := hreaders
  quiet i slot hs hl := by
    obtain ⟨old, hold, rfl⟩ := Option.map_eq_some_iff.mp ((hslots i).symm.trans hs)
    by_cases hc : C i old
    · rw [if_pos hc] at hl ⊢
      exact (h.quiet i old hold hl).imp id (SlotHeader.allRead_markRead r)
    · rw [if_neg hc] at hl ⊢
      exact h.quiet i old hold hl
  loans l hl := by
    obtain ⟨old, hold, hloaned⟩ := h.loans l hl
    have hnow := hslots l.index
    rw [hold, Option.map_some] at hnow
    refine ⟨_, hnow, ?_⟩
    split
    · exact hloaned
    · exact hloaned
  distinct := h.distinct
  refs := hrefs
  bits := hbits

end

theorem Held.scan (h : s.Held) (reader : Nat) (deferBest : Bool)
    (hown : ∀ r, s.readers[reader]? = some r → ∀ p ∈ s.refs, p.1.readerIndex ≠ r.readerIndex) :
    (s.scan reader deferBest).1.Held := by
  unfold System.scan
  cases hr : s.readers[reader]? with
  | none => exact h
  | some r =>
    have hmem := List.mem_of_getElem? hr
    dsimp only
    by_cases hrej : r.rejects s.alloc = true
    · rw [FlatReader.scanBest_of_rejects deferBest hrej]
      have hset : s.readers.set reader r = s.readers := by
        obtain ⟨hlt, rfl⟩ := List.getElem?_eq_some_iff.mp hr
        exact List.set_getElem_self hlt
      simp only [Except.toOption, Option.bind_none, Option.map_none, Option.toList_none,
        List.append_nil, ite_self, hset]
      exact h
    · obtain ⟨best, slots, heq, hscan⟩ := FlatReader.scanBest_spec (T := T) deferBest
        (Bool.eq_false_iff.mpr hrej)
      rw [heq]
      have hreaders : ∀ q ∈ s.readers.set reader
          { r with lastSn := (best.map (·.2.1)).getD r.lastSn },
          s.writer.activeReadersMask.getLsbD q.readerIndex = true := by
        intro q hq
        rcases List.mem_or_eq_of_mem_set hq with hq | rfl
        · exact h.readers q hq
        · exact h.readers r hmem
      cases deferBest with
      | false =>
        exact h.marked hscan.marked hreaders
          (fun p hp => (h.refs p hp).marked (hown r hr p hp) hscan.marked _ _) h.bits
      | true =>
        cases best with
        | none =>
          show Held { s with
            alloc := _, readers := _, refs := s.refs ++ [] }
          rw [List.append_nil]
          exact h.marked hscan.marked hreaders
            (fun p hp => (h.refs p hp).marked (hown r hr p hp) hscan.marked _ _) h.bits
        | some found =>
          -- The slot of the sample handed out is the one that is not marked.
          obtain ⟨slot, hs, hu, -, -⟩ := hscan.found found rfl
          have hkept := hscan.marked found.1.index
          rw [hs, Option.map_some, if_neg (fun hc => hc.2.2 ⟨rfl, rfl⟩)] at hkept
          obtain ⟨⟨hsize, hunread⟩, -⟩ := FlatReader.unread_iff.mp hu
          have hbit := h.readers r hmem
          refine h.marked hscan.marked hreaders (fun p hp => ?_) ?_
          · rcases List.mem_append.mp hp with hp | hp
            · exact (h.refs p hp).marked (hown r hr p hp) hscan.marked _ _
            · rw [List.mem_singleton.mp hp]
              refine ⟨hbit, rfl, slot, hkept, ?_, hsize, hunread⟩
              by_contra hl
              rcases h.quiet _ slot hs (Bool.eq_true_of_not_eq_false hl) with hzero | hall
              · exact hsize hzero
              · rw [SlotHeader.hasRead_of_allRead hall hbit] at hunread
                cases hunread
          · show ((s.refs ++ [_]).map _).Nodup
            rw [List.map_append, List.nodup_append]
            refine ⟨h.bits, List.nodup_singleton _, ?_⟩
            intro i hi j hj
            obtain ⟨p, hp, rfl⟩ := List.mem_map.mp hi
            rw [List.mem_singleton.mp hj]
            exact hown r hr p hp

omit [FlatStruct T] in
theorem Held.dropRef (h : s.Held) (ref : Nat) : (s.dropRef ref).1.Held := by
  unfold System.dropRef
  cases href : s.refs[ref]? with
  | none => exact h
  | some p =>
    obtain ⟨held, made⟩ := p
    obtain ⟨-, -, slot, hs, -⟩ := h.refs _ (List.mem_of_getElem? href)
    have hlt := (List.getElem?_eq_some_iff.mp hs).1
    dsimp only
    rw [InMemorySlotAllocator.markRead, if_neg (Nat.not_le.mpr hlt)]
    have hslots : ∀ i, (s.alloc.slots.modify held.handle.index fun slot =>
        { slot with header := slot.header.markRead held.readerIndex })[i]? =
        s.alloc.slots[i]?.map fun slot =>
          if held.handle.index = i then slot.markRead held.readerIndex else slot := by
      intro i
      exact List.getElem?_modify ..
    refine h.marked hslots h.readers (fun p hp => ?_) ?_
    · obtain ⟨j, hj, hget⟩ := List.mem_eraseIdx_iff_getElem?.mp hp
      refine (h.refs p (List.mem_of_getElem? hget)).marked ?_ hslots _ _
      -- Two references never have the bit of one reader.
      intro heq
      have hlt : j < (s.refs.map (·.1.readerIndex)).length := by
        rw [List.length_map]
        exact (List.getElem?_eq_some_iff.mp hget).1
      refine hj ((List.getElem?_inj hlt h.bits).mp ?_)
      rw [List.getElem?_map, List.getElem?_map, hget, href, Option.map_some, Option.map_some, heq]
    · exact h.bits.sublist ((List.eraseIdx_sublist _ _).map _)

def InTime (s : System T) : Op T → Prop
  | .write now _ => Timely s.writer s.alloc now
  | .loanSlot now => Timely s.writer s.alloc now
  | _ => True

def scansOverOwn (s : System T) : Op T → Bool
  | .read reader => s.readers[reader]?.any fun r => s.refs.any fun p =>
      decide (p.1.readerIndex = r.readerIndex)
  | .readRef reader => s.readers[reader]?.any fun r => s.refs.any fun p =>
      decide (p.1.readerIndex = r.readerIndex)
  | _ => false

def Careful (s : System T) (op : Op T) : Prop := s.InTime op ∧ s.scansOverOwn op = false

omit [FlatStruct T] in
theorem own_of_any {reader : Nat} (h : (s.readers[reader]?.any fun r => s.refs.any fun p =>
      decide (p.1.readerIndex = r.readerIndex)) = false) :
    ∀ r, s.readers[reader]? = some r → ∀ p ∈ s.refs, p.1.readerIndex ≠ r.readerIndex := by
  intro r hr p hp heq
  rw [hr, Option.any_some, List.any_eq_false] at h
  exact h p hp (decide_eq_true heq)

variable {op : Op T}

theorem Held.step (h : s.Held) (hop : s.Careful op) : (s.step op).1.Held := by
  obtain ⟨htime, hown⟩ := hop
  cases op with
  | write now x => exact h.write htime x
  | loanSlot now => exact h.loanSlot htime
  | asMut loan x => exact h.asMut loan x
  | commit now loan x =>
    exact h.commitLoan loan now _ fun _ data => asBytes x ++ data.drop (asBytes x).length
  | commitInPlace now loan => exact h.commitLoan loan now _ fun _ => id
  | discard loan => exact h.discard loan
  | read reader => exact h.scan reader false (own_of_any hown)
  | readRef reader => exact h.scan reader true (own_of_any hown)
  | dropRef ref => exact h.dropRef ref

theorem held_new {count cap : Nat} (hash : Option Octets) {w : FlatWriter}
    {indices : List (Fin 32)} (hcount : count ≤ 4294967296)
    (hmask : ∀ r ∈ indices, w.activeReadersMask.getLsbD r = true) :
    (System.new { InMemorySlotAllocator.new seg count cap with typeHash := hash } w
      (indices.map (FlatReader.new T)) : System T).Held where
  bound := by
    refine Eq.trans_le ?_ hcount
    exact List.length_replicate
  readers r hr := by
    obtain ⟨i, hi, rfl⟩ := List.mem_map.mp hr
    exact hmask i hi
  quiet i slot hs hl := by
    rw [(List.mem_replicate.mp (List.mem_of_getElem? hs)).2] at hl
    cases hl
  loans h hh := by cases hh
  distinct := List.nodup_nil
  refs p hp := by cases hp
  bits := List.nodup_nil

def reserved : Outcome T → Option SlotHandle
  | .committed handle _ => handle
  | .loaned result => result.toOption
  | _ => none

/-- The call reserves no slot a living reference came from, and if it drops a reference,
the only slot it changes has the sample the reference was made from. -/
def KeepsHolds (s : System T) (op : Op T) : Prop :=
  (∀ handle, reserved (s.step op).2 = some handle →
    ∀ p ∈ s.refs, handle.index ≠ p.1.handle.index) ∧
  ∀ ref p, op = .dropRef ref → s.refs[ref]? = some p →
    ∀ i, (s.step op).1.alloc.slots[i]? ≠ s.alloc.slots[i]? →
      i = p.1.handle.index ∧ s.origin i = p.2

omit [FlatStruct T] in
theorem Held.reserved_ne (h : s.Held) (ht : Timely s.writer s.alloc now)
    (hres : (s.writer.reserve s.alloc now).1.toOption = some handle) :
    ∀ p ∈ s.refs, handle.index ≠ p.1.handle.index := by
  rcases h.reserve_cases ht with hnone | ⟨handle', slot, hs, hfree, hok⟩
  · rw [hnone] at hres
    cases hres
  · rw [hok] at hres
    cases hres
    intro p hp
    exact ((h.free_index hs hfree).1 p hp).symm

theorem Held.keepsHolds (h : s.Held) (hop : s.InTime op) : s.KeepsHolds op := by
  constructor
  · intro handle hres
    cases op with
    | write now x => exact h.reserved_ne hop hres
    | loanSlot now =>
      refine h.reserved_ne hop ?_
      rcases h.reserve_cases hop with hnone | ⟨handle', slot, -, -, hok⟩
      · simp only [System.step, System.loanSlot, hnone, reserved] at hres
        cases hres
      · simp only [System.step, System.loanSlot, hok, reserved] at hres
        rw [hok]
        exact hres
    | asMut loan x =>
      simp only [System.step, System.asMut] at hres
      split at hres <;> cases hres
    | commit now loan x =>
      simp only [System.step, System.commit, System.commitLoan] at hres
      split at hres <;> cases hres
    | commitInPlace now loan =>
      simp only [System.step, System.commitInPlace, System.commitLoan] at hres
      split at hres <;> cases hres
    | discard loan =>
      simp only [System.step, System.discard] at hres
      split at hres <;> cases hres
    | read reader =>
      simp only [System.step, System.read, System.scan] at hres
      split at hres <;> cases hres
    | readRef reader =>
      simp only [System.step, System.readRef, System.scan] at hres
      split at hres <;> cases hres
    | dropRef ref =>
      simp only [System.step, System.dropRef] at hres
      split at hres <;> cases hres
  · rintro ref ⟨held, made⟩ rfl href i hchange
    obtain ⟨-, hmade, slot, hs, -⟩ := h.refs _ (List.mem_of_getElem? href)
    by_cases hi : i = held.handle.index
    · exact ⟨hi, hi ▸ hmade⟩
    · refine absurd ?_ hchange
      simp only [System.step, System.dropRef, href]
      rw [InMemorySlotAllocator.markRead,
        if_neg (Nat.not_le.mpr (List.getElem?_eq_some_iff.mp hs).1)]
      exact List.getElem?_modify_ne _ _ (Ne.symm hi)

/-- In every run in which no reader scans over a reference of its own, a reference keeps
its slot until it is dropped, and its drop marks the sample it was made from. -/
theorem held_slot_is_kept (seg : UInt64) (count cap : Nat) (hash : Option Octets) (w : FlatWriter)
    (indices : List (Fin 32)) (hcount : count ≤ 4294967296)
    (hmask : ∀ r ∈ indices, w.activeReadersMask.getLsbD r = true)
    {h : History (Op T) (Outcome T)} {s : System T}
    (hr : Reaches System.step Careful
      (System.new { InMemorySlotAllocator.new seg count cap with typeHash := hash } w
        (indices.map (FlatReader.new T))) h s)
    {op : Op T} (hop : s.Careful op) : s.KeepsHolds op := by
  have hheld : s.Held := Reaches.invariant (P := fun _ s => s.Held) (held_new hash hcount hmask)
    (fun _ _ _ hs hop => hs.step hop) hr
  exact hheld.keepsHolds hop.1

end System

namespace Fixture

instance : FlatStruct UInt8 where
  wireSize := 1
  typeHash := []
  asBytes x := [x]
  fromBytes bytes := bytes.headD 0
  length_asBytes _ := rfl
  fromBytes_asBytes _ := rfl

def oneSlot : System UInt8 :=
  .new { InMemorySlotAllocator.new 0 1 1 with typeHash := none } ⟨1, 60⟩
  ([0].map (FlatReader.new UInt8))

/-- The reader looks for something newer while it has a reference, and finds nothing. -/
def lookAgain : List (Op UInt8) := [.write 0 7, .readRef 0, .read 0]

/-- The slot of the reference is taken for the next sample, which the drop of the
reference then marks as read. -/
theorem scan_gives_slot_away :
    let s := (run System.step oneSlot lookAgain).1
    RunOk System.step System.InTime oneSlot (lookAgain ++ [.write 1 8, .dropRef 0]) ∧
    (System.reserved (s.step (.write 1 8)).2).map SlotHandle.index = some 0 ∧
    ¬ s.KeepsHolds (.write 1 8) ∧
    ¬ (s.step (.write 1 8)).1.KeepsHolds (.dropRef 0) := by
  have href : ((⟨7, ⟨0, 0⟩, 0⟩, 0) : FlatSampleRef UInt8 × Nat) ∈
      (run System.step oneSlot lookAgain).1.refs := by decide +kernel
  refine ⟨⟨?_, trivial, trivial, ?_, trivial, trivial⟩, ?_, ?_, ?_⟩
  · show Timely _ _ _
    decide +kernel
  · show Timely _ _ _
    decide +kernel
  · decide +kernel
  · intro h
    exact h.1 ⟨0, 0⟩ (by decide +kernel) _ href rfl
  · intro h
    have hsame := (h.2 0 (⟨7, ⟨0, 0⟩, 0⟩, 0) rfl (by decide +kernel) 0 (by decide +kernel)).2
    exact absurd hsame (by decide +kernel)

def twoSlots : System UInt8 :=
  .new { InMemorySlotAllocator.new 0 2 1 with typeHash := none } ⟨1, 60⟩
  ([0].map (FlatReader.new UInt8))

def writeMeanwhile : List (Op UInt8) := [.write 0 7, .readRef 0, .write 1 8]

theorem reference_kept_through_write :
    (run System.step twoSlots writeMeanwhile).1.KeepsHolds (.dropRef 0) := by
  have hok : RunOk System.step System.Careful twoSlots writeMeanwhile := by
    refine ⟨⟨?_, rfl⟩, ⟨trivial, rfl⟩, ⟨?_, rfl⟩, trivial⟩
    · show Timely _ _ _
      decide +kernel
    · show Timely _ _ _
      decide +kernel
  exact System.held_slot_is_kept 0 2 1 none ⟨1, 60⟩ [0] (by decide) (by decide) (reaches_run hok)
    ⟨trivial, rfl⟩

end Fixture

end ZeroDds.Flatdata
