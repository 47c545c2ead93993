/-
A reader gets the newest sample.
-/
import ZeroDds.Flatdata.HeldSlots

namespace ZeroDds.Flatdata

open FlatStruct

variable {T : Type}

inductive Call (T : Type) where
  | write (now : Nat) (sample : T)
  | read

namespace Call

def op : Call T → Op T
  | write now sample => .write now sample
  | read => .read 0

def sample? : Call T → Option T
  | write _ sample => some sample
  | read => none

/-- The samples written before the last read and the samples written, after one more
call. -/
def count (p : Nat × Nat) : Call T → Nat × Nat
  | write .. => (p.1, p.2 + 1)
  | read => (p.2, p.2)

end Call

def samples (calls : List (Call T)) : List T := calls.filterMap Call.sample?

def progress (calls : List (Call T)) : Nat × Nat := calls.foldl Call.count (0, 0)

theorem progress_append (calls : List (Call T)) (c : Call T) :
    progress (calls ++ [c]) = c.count (progress calls) := by
  rw [progress, List.foldl_append]
  rfl

theorem progress_snd (calls : List (Call T)) : (progress calls).2 = (samples calls).length := by
  induction calls using List.reverseRecOn with
  | nil => rfl
  | append_singleton calls c ih =>
    rw [progress_append, samples, List.filterMap_append, List.length_append]
    cases c with
    | write now x =>
      show (progress calls).2 + 1 = _
      rw [ih]
      rfl
    | read => exact ih

/-- At no read have the samples written since the one before passed from the highest
sequence number to the lowest. -/
def NeverWraps (calls : List (Call T)) : Prop :=
  ∀ p, calls[p]? = some .read → (progress (calls.take p)).1 < (progress (calls.take p)).2 →
    (progress (calls.take p)).1 / 4294967296 = ((progress (calls.take p)).2 - 1) / 4294967296

variable {calls : List (Call T)}

theorem NeverWraps.take (h : NeverWraps calls) (n : Nat) : NeverWraps (calls.take n) := by
  intro p hp
  rw [List.getElem?_take] at hp
  split at hp
  · next hlt =>
    rw [List.take_take, Nat.min_eq_left (Nat.le_of_lt hlt)]
    exact h p hp
  · cases hp

theorem neverWraps_of_length_lt (h : calls.length < 4294967296) : NeverWraps calls := by
  intro p _ hlt
  have hle : (samples (calls.take p)).length ≤ calls.length :=
    le_trans (List.length_filterMap_le _ _) (List.length_take_le' _ _)
  rw [progress_snd] at hlt ⊢
  omega

/-! ### What the slots say of the samples written -/

variable [FlatStruct T]

structure Carries (xs : List T) (slot : Slot) (m : Nat) : Prop where
  sn : slot.header.sequenceNumber = .ofNat m
  bytes : ∃ x, xs[m]? = some x ∧ slot.data.take slot.header.sampleSize.toNat = asBytes x

structure Tracks (s : System T) (r : Fin 32) (xs : List T) (k : Nat) : Prop where
  le : k ≤ xs.length
  commits : s.commits = xs.length
  nextSn : s.alloc.nextSn = .ofNat xs.length
  mask : s.writer.activeReadersMask.getLsbD r = true
  hash : s.alloc.typeHash.all (fun hash => decide (hash = typeHash T)) = true
  reader : s.readers = [⟨r, if k = 0 then 4294967295 else .ofNat (k - 1), typeHash T⟩]
  filled : ∀ (i : Nat) (slot : Slot), s.alloc.slots[i]? = some slot → slot.header.sampleSize ≠ 0 →
    i < 4294967296 ∧ Carries xs slot (s.origin i) ∧
      (slot.header.hasRead r = false → k ≤ s.origin i)
  newest : k < xs.length → ∃ (i : Nat) (slot : Slot), s.alloc.slots[i]? = some slot ∧
    slot.header.sampleSize ≠ 0 ∧ slot.header.hasRead r = false ∧ s.origin i = xs.length - 1

variable {xs : List T} {slot : Slot} {m : Nat}

theorem Carries.append (h : Carries xs slot m) (x : T) :
    Carries (xs ++ [x]) slot m where
  sn := h.sn
  bytes := by
    obtain ⟨y, hy, hbytes⟩ := h.bytes
    refine ⟨y, ?_, hbytes⟩
    rw [List.getElem?_append_left (List.getElem?_eq_some_iff.mp hy).1, hy]

theorem Carries.lt (h : Carries xs slot m) : m < xs.length := by
  obtain ⟨x, hx, -⟩ := h.bytes
  exact (List.getElem?_eq_some_iff.mp hx).1

def Sized (T : Type) [FlatStruct T] : Prop := 0 < wireSize T ∧ wireSize T < 4294967296

theorem u32OrMax_of_sized (h : Sized T) :
    (u32OrMax (wireSize T)).toNat = wireSize T ∧ u32OrMax (wireSize T) ≠ 0 := by
  have htoNat : (u32OrMax (wireSize T)).toNat = wireSize T := by
    rw [u32OrMax, if_pos h.2]
    exact (UInt32.toNat_ofNat').trans (Nat.mod_eq_of_lt h.2)
  refine ⟨htoNat, fun hzero => ?_⟩
  rw [hzero] at htoNat
  exact absurd htoNat.symm (Nat.ne_of_gt h.1)

def Written (s : System T) (now : Nat) (x : T) : Prop :=
  ∃ reserved sn, (s.write now x).2 = .committed reserved (.ok sn)

variable {s : System T} {r : Fin 32} {k n : Nat}
  {now : Nat} {x : T} {best : Option (Found T)} {q : FlatReader}

theorem write_spec (ht : Timely s.writer s.alloc now) (hw : Written s now x) :
    ∃ (j : Nat) (slots : List Slot), j < 4294967296 ∧
      (s.write now x).1 = { s with
        alloc := { s.alloc with nextSn := s.alloc.nextSn + 1, slots := slots }
        origin := Function.update s.origin j s.commits
        commits := s.commits + 1 } ∧
      (∃ slot rest, slots[j]? = some slot ∧ slot.data = asBytes x ++ rest ∧
        slot.header = .new s.alloc.nextSn (u32OrMax (wireSize T))) ∧
      ∀ i, i ≠ j → ∀ slot, slots[i]? = some slot → ∃ old, s.alloc.slots[i]? = some old ∧
        slot.header = old.header ∧ slot.data = old.data := by
  obtain ⟨reserved, sn, hout⟩ := hw
  have hresult : (s.writer.write s.alloc now x).1 = .ok sn := (Outcome.committed.inj hout).2
  unfold FlatWriter.write at hresult
  rcases s.alloc.reserveSlot_cases s.writer.activeReadersMask with hnone | ⟨idx, slot, hs, -, hok⟩
  · rw [FlatWriter.reserve_of_timely ht, hnone] at hresult
    cases hresult
  · rw [← FlatWriter.reserve_of_timely ht] at hok
    rw [hok] at hresult
    dsimp only at hresult
    unfold InMemorySlotAllocator.commitSlot at hresult
    have hstep : (s.write now x).1 = s.filled (some ⟨s.alloc.segmentId, .ofNat idx⟩)
        (finishLoan ⟨s.alloc.segmentId, .ofNat idx⟩ (InMemorySlotAllocator.commitSlot
          { s.alloc with slots := s.alloc.slots.modify idx fun slot =>
            { slot with loaned := true } }
          now ⟨s.alloc.segmentId, .ofNat idx⟩ (asBytes x))) := by
      unfold System.write FlatWriter.write
      rw [hok]
      rfl
    rcases InMemorySlotAllocator.commitWith_cases { s.alloc with
        slots := s.alloc.slots.modify idx fun slot => { slot with loaned := true } }
        now ⟨s.alloc.segmentId, .ofNat idx⟩ (asBytes x).length
        (fun data => asBytes x ++ data.drop (asBytes x).length) with ⟨e, he⟩ | ⟨hlt, -, hdone⟩
    · rw [he] at hresult
      cases hresult
    · rw [InMemorySlotAllocator.commitSlot, hdone] at hstep
      refine ⟨(⟨s.alloc.segmentId, .ofNat idx⟩ : SlotHandle).index,
        (s.alloc.slots.modify idx fun slot => { slot with loaned := true }).modify
          (⟨s.alloc.segmentId, .ofNat idx⟩ : SlotHandle).index fun slot =>
            ⟨.new s.alloc.nextSn (u32OrMax (asBytes x).length),
              asBytes x ++ slot.data.drop (asBytes x).length, false, some now⟩,
        UInt32.toNat_lt _, hstep, ?_, ?_⟩
      · rw [List.getElem?_modify_eq, List.getElem?_eq_getElem hlt, length_asBytes]
        exact ⟨_, _, rfl, rfl, rfl⟩
      · intro i hi slot' hslot'
        rw [List.getElem?_modify_ne _ _ (Ne.symm hi), List.getElem?_modify] at hslot'
        obtain ⟨old, hold, rfl⟩ := Option.map_eq_some_iff.mp hslot'
        refine ⟨old, hold, ?_⟩
        split
        · exact ⟨rfl, rfl⟩
        · exact ⟨rfl, rfl⟩

theorem Tracks.write (h : Tracks s r xs k) (hsized : Sized T) (ht : Timely s.writer s.alloc now)
    (hw : Written s now x) : Tracks (s.write now x).1 r (xs ++ [x]) k := by
  obtain ⟨j, slots, hj, hstep, ⟨slot, rest, hs, hdata, hheader⟩, hother⟩ := write_spec ht hw
  rw [hstep]
  obtain ⟨hsize, hne⟩ := u32OrMax_of_sized hsized
  have hcarries : Carries (xs ++ [x]) slot xs.length := by
    refine ⟨?_, x, ?_, ?_⟩
    · rw [hheader, SlotHeader.new, h.nextSn]
    · rw [List.getElem?_append_right (Nat.le_refl _), Nat.sub_self]
      rfl
    · rw [hheader, hdata]
      show List.take (u32OrMax (wireSize T)).toNat _ = _
      rw [hsize, ← length_asBytes x, List.take_left]
  have horigin : Function.update s.origin j s.commits j = xs.length := by
    rw [Function.update_self, h.commits]
  constructor
  · rw [List.length_append]
    exact Nat.le_add_right_of_le h.le
  · rw [List.length_append, h.commits]
    rfl
  · rw [h.nextSn, List.length_append, List.length_singleton, UInt32.ofNat_add]
    rfl
  · exact h.mask
  · exact h.hash
  · exact h.reader
  · intro i slot' hs' hsize'
    by_cases hi : i = j
    · subst hi
      obtain rfl := Option.some.inj (hs.symm.trans hs')
      refine ⟨hj, ?_, fun _ => ?_⟩
      · show Carries _ _ (Function.update s.origin i s.commits i)
        rw [horigin]
        exact hcarries
      · show k ≤ Function.update s.origin i s.commits i
        rw [horigin]
        exact h.le
    · obtain ⟨old, hold, hh, hd⟩ := hother i hi slot' hs'
      rw [hh] at hsize'
      obtain ⟨hlt, hcar, hunread⟩ := h.filled i old hold hsize'
      show i < 4294967296 ∧ Carries _ _ (Function.update s.origin j s.commits i) ∧
        (slot'.header.hasRead r = false → k ≤ Function.update s.origin j s.commits i)
      rw [Function.update_of_ne hi, hh]
      refine ⟨hlt, ?_, hunread⟩
      obtain ⟨hsn, y, hy, hbytes⟩ := hcar.append x
      exact ⟨by rw [hh, hsn], y, hy, by rw [hh, hd, hbytes]⟩
  · intro _
    refine ⟨j, slot, hs, ?_, ?_, ?_⟩
    · rw [hheader]
      exact hne
    · rw [hheader, SlotHeader.hasRead_new]
    · show Function.update s.origin j s.commits j = _
      rw [horigin, List.length_append]
      rfl

theorem scan_eq {reader : Nat} {r r' : FlatReader} {deferBest : Bool}
    {alloc : InMemorySlotAllocator} (hr : s.readers[reader]? = some r)
    (hscan : r.scanBest s.alloc deferBest = (.ok best, alloc, r')) :
    s.scan reader deferBest =
      ({ s with
          alloc := alloc
          readers := s.readers.set reader r'
          refs := if deferBest then s.refs ++ (best.map fun found =>
            ((⟨found.2.2, found.1, r'.readerIndex⟩ : FlatSampleRef T),
              s.origin found.1.index)).toList else s.refs },
        .handedOut (.ok (best.map fun found => (s.origin found.1.index, found.2.2)))) := by
  unfold System.scan
  rw [hr]
  dsimp only
  rw [hscan]
  rfl

theorem Carries.unread (h : Carries xs slot m) (hsize : slot.header.sampleSize ≠ 0)
    (hread : slot.header.hasRead q.readerIndex = false) : q.unread T slot = true := by
  obtain ⟨x, -, hbytes⟩ := h.bytes
  refine FlatReader.unread_iff.mpr ⟨⟨hsize, hread⟩, ?_⟩
  rw [hbytes, length_asBytes]
  exact UInt32.lt_irrefl _

theorem toNat_ofNat_le (h : UInt32.ofNat m ≤ UInt32.ofNat n) : m % 4294967296 ≤ n % 4294967296 := by
  rw [UInt32.le_iff_toNat_le] at h
  simpa using h

theorem unseen_of_no_wrap {hash : Octets} (hsn : slot.header.sequenceNumber = .ofNat (n - 1))
    (hlt : k < n) (hwrap : k / 4294967296 = (n - 1) / 4294967296) :
    FlatReader.unseen ⟨r, if k = 0 then 4294967295 else .ofNat (k - 1), hash⟩ slot = true := by
  unfold FlatReader.unseen
  by_cases hk : k = 0
  · rw [if_pos hk]
    rfl
  · rw [if_neg hk, hsn, Bool.or_eq_true_iff, decide_eq_true_eq, decide_eq_true_eq,
      ← UInt32.toNat_inj, UInt32.lt_iff_toNat_lt, UInt32.toNat_ofNat', UInt32.toNat_ofNat']
    show (k - 1) % 4294967296 = 4294967295 ∨ (k - 1) % 4294967296 < (n - 1) % 4294967296
    omega

theorem Tracks.marked (h : Tracks s r xs k) (hq : q.readerIndex = r) {slots : List Slot}
    (hscan : FlatReader.ScanResult q s.alloc false best slots) {lastSn : UInt32}
    (hlast : lastSn = if xs.length = 0 then 4294967295 else .ofNat (xs.length - 1)) :
    Tracks { s with
      alloc := { s.alloc with slots := slots }
      readers := [⟨r, lastSn, typeHash T⟩] } r xs xs.length where
  le := Nat.le_refl _
  commits := h.commits
  nextSn := h.nextSn
  mask := h.mask
  hash := h.hash
  reader := by rw [hlast]
  filled i slot hs hsize := by
    obtain ⟨old, hold, rfl⟩ := Option.map_eq_some_iff.mp ((hscan.marked i).symm.trans hs)
    have hsize' : old.header.sampleSize ≠ 0 := by
      split at hsize
      · exact hsize
      · exact hsize
    obtain ⟨hi, hcar, -⟩ := h.filled i old hold hsize'
    refine ⟨hi, ?_, ?_⟩
    · split
      · exact ⟨hcar.sn, hcar.bytes⟩
      · exact hcar
    · intro hunread
      by_cases hread : old.header.hasRead r = true
      · rw [if_neg (fun hc => ?_)] at hunread
        · rw [hread] at hunread
          cases hunread
        · rw [FlatReader.unread_iff, hq, hread] at hc
          exact Bool.noConfusion hc.2.1.1.2
      · have hu := hcar.unread (q := q) hsize' (hq ▸ Bool.eq_false_iff.mpr hread)
        rw [if_pos ⟨hi, hu, fun hd => Bool.noConfusion hd.1⟩] at hunread
        rw [Slot.markRead, SlotHeader.hasRead_markRead, hq] at hunread
        simp at hunread
  newest hlt := absurd hlt (Nat.lt_irrefl _)

theorem Tracks.read (h : Tracks s r xs k)
    (hwrap : k < xs.length → k / 4294967296 = (xs.length - 1) / 4294967296) :
    ∃ v, (s.read 0).2 = .handedOut (.ok v) ∧ Tracks (s.read 0).1 r xs xs.length ∧
      (k = xs.length → v = none) ∧
      (k < xs.length → ∃ x, xs[xs.length - 1]? = some x ∧ v = some (xs.length - 1, x)) := by
  have hreader : s.readers[0]? =
      some ⟨r, if k = 0 then 4294967295 else .ofNat (k - 1), typeHash T⟩ := by
    rw [h.reader]
    rfl
  obtain ⟨q, hq⟩ : ∃ q : FlatReader, q = ⟨r, if k = 0 then 4294967295 else .ofNat (k - 1),
    typeHash T⟩ := ⟨_, rfl⟩
  rw [← hq] at hreader
  have hindex : q.readerIndex = r := by rw [hq]
  have hrejects : q.rejects s.alloc = false := by
    have hhash := h.hash
    unfold FlatReader.rejects
    rw [hq]
    cases hth : s.alloc.typeHash with
    | none => rfl
    | some hash =>
      rw [hth, Option.all_some, decide_eq_true_eq] at hhash
      exact decide_eq_false (not_not.mpr hhash)
  obtain ⟨best, slots, heq, hscan⟩ := FlatReader.scanBest_spec (T := T) false hrejects
  have hread : s.read 0 = _ := scan_eq hreader heq
  rw [hread]
  have hset : s.readers.set 0 { q with lastSn := (best.map (·.2.1)).getD q.lastSn } =
      [⟨r, (best.map (·.2.1)).getD q.lastSn, typeHash T⟩] := by
    rw [h.reader, hq]
    rfl
  -- What the scan finds is a sample written since the last read.
  have hfound : ∀ f, best = some f → ∃ m x, k ≤ m ∧ m < xs.length ∧ s.origin f.1.index = m ∧
      f.2 = (.ofNat m, x) ∧ xs[m]? = some x := by
    intro f hf
    obtain ⟨slot, hs, hu, -, hsecond⟩ := hscan.found f hf
    obtain ⟨⟨hsize, hunread⟩, -⟩ := FlatReader.unread_iff.mp hu
    obtain ⟨-, hcar, hlow⟩ := h.filled _ slot hs hsize
    obtain ⟨x, hx, hbytes⟩ := hcar.bytes
    refine ⟨_, x, hlow (hindex ▸ hunread), hcar.lt, rfl, ?_, hx⟩
    rw [hsecond, hcar.sn, hbytes, fromBytes_asBytes]
  rcases Nat.eq_or_lt_of_le h.le with hk | hk
  · have hnone : best = none := by
      cases hb : best with
      | none => rfl
      | some f =>
        obtain ⟨m, x, hle, hlt, -⟩ := hfound f hb
        omega
    subst hnone
    refine ⟨none, rfl, ?_, fun _ => rfl, fun hlt => absurd hlt (by omega)⟩
    rw [hset]
    refine h.marked hindex hscan ?_
    rw [hq, ← hk]
    rfl
  · obtain ⟨i, slot, hs, hsize, hunread, horigin⟩ := h.newest hk
    obtain ⟨hi, hcar, -⟩ := h.filled i slot hs hsize
    have hsn : slot.header.sequenceNumber = .ofNat (xs.length - 1) := by rw [hcar.sn, horigin]
    obtain ⟨f, hf, hle⟩ := hscan.newest i hi slot hs
      (hcar.unread hsize (hindex.symm ▸ hunread)) (hq ▸ unseen_of_no_wrap hsn hk (hwrap hk))
    obtain ⟨m, x, hlow, hlt, hm, hpair, hx⟩ := hfound f hf
    rw [hpair, hsn] at hle
    have hmod := toNat_ofNat_le hle
    have hlast : m = xs.length - 1 := by
      omega
    subst hlast
    subst hf
    refine ⟨some (xs.length - 1, x), ?_, ?_, fun hc => absurd hc (Nat.ne_of_lt hk),
      fun _ => ⟨x, hx, rfl⟩⟩
    · show Outcome.handedOut (.ok (some (s.origin f.1.index, f.2.2))) = _
      rw [hm, hpair]
    · rw [hset]
      refine h.marked hindex hscan ?_
      rw [Option.map_some, Option.getD_some, hpair, if_neg (by omega)]

def handed? : Outcome T → Option Nat
  | .handedOut (.ok best) => best.map Prod.fst
  | _ => none

def handed (h : History (Op T) (Outcome T)) : List Nat := h.filterMap fun e => handed? e.2

def Succeeds (s : System T) : Op T → Prop
  | .write now x => Timely s.writer s.alloc now ∧ Written s now x
  | _ => True

/-- The samples handed out, when all but the last `n - k` were written before the last
read. -/
structure InOrder (k : Nat) (ms : List Nat) : Prop where
  ascending : ms.Pairwise (· < ·)
  lt : ∀ m ∈ ms, m < k
  last : k ≠ 0 → k - 1 ∈ ms

theorem InOrder.next {ms : List Nat} (h : InOrder k ms) (hlt : k < n) :
    InOrder n (ms ++ [n - 1]) where
  ascending := by
    rw [List.pairwise_append]
    refine ⟨h.ascending, List.pairwise_singleton _ _, ?_⟩
    intro m hm m' hm'
    have := h.lt m hm
    rw [List.mem_singleton.mp hm']
    omega
  lt := by
    intro m hm
    rcases List.mem_append.mp hm with hm | hm
    · have := h.lt m hm
      omega
    · rw [List.mem_singleton.mp hm]
      omega
  last _ := List.mem_append_right _ List.mem_cons_self

section

variable {s₀ : System T} {r : Fin 32} (hsized : Sized T) (hstart : Tracks s₀ r [] 0)

include hsized hstart

theorem tracks_run (hok : RunOk System.step Succeeds s₀ (calls.map Call.op))
    (hwrap : NeverWraps calls) :
    Tracks (run System.step s₀ (calls.map Call.op)).1 r (samples calls) (progress calls).1 ∧
      InOrder (progress calls).1 (handed (run System.step s₀ (calls.map Call.op)).2) := by
  induction calls using List.reverseRecOn with
  | nil => exact ⟨hstart, List.Pairwise.nil, fun _ h => absurd h List.not_mem_nil,
      fun h => absurd rfl h⟩
  | append_singleton calls c ih =>
    rw [List.map_append, runOk_append] at hok
    have hprev : NeverWraps calls := by
      have := hwrap.take calls.length
      rwa [List.take_left] at this
    obtain ⟨htracks, horder⟩ := ih hok.1 hprev
    rw [List.map_append, run_append, progress_append]
    generalize hrun : run System.step s₀ (calls.map Call.op) = R at hok htracks horder ⊢
    have hlen := progress_snd calls
    have hsamples : samples (calls ++ [c]) = samples calls ++ c.sample?.toList := by
      rw [samples, List.filterMap_append]
      cases c with
      | write now x => rfl
      | read => rfl
    rw [hsamples]
    cases c with
    | write now x =>
      refine ⟨htracks.write hsized hok.2.1.1 hok.2.1.2, ?_⟩
      rw [handed, List.filterMap_append]
      show InOrder (progress calls).1 (handed R.2 ++ [])
      rw [List.append_nil]
      exact horder
    | read =>
      have hlast : (progress calls).1 < (samples calls).length →
          (progress calls).1 / 4294967296 = ((samples calls).length - 1) / 4294967296 := by
        have := hwrap calls.length (by simp)
        rwa [List.take_left, hlen] at this
      obtain ⟨v, hout, htracks', hnone, hsome⟩ := htracks.read hlast
      show Tracks (R.1.read 0).1 r (samples calls ++ []) (progress calls).2 ∧
        InOrder (progress calls).2 (handed (R.2 ++ [(.read 0, (R.1.read 0).2)]))
      rw [List.append_nil, hlen]
      refine ⟨htracks', ?_⟩
      rw [handed, List.filterMap_append, hout]
      rcases Nat.eq_or_lt_of_le htracks.le with hk | hk
      · rw [hnone hk, ← hk]
        exact (List.append_nil (handed R.2)).symm ▸ horder
      · obtain ⟨x, -, rfl⟩ := hsome hk
        exact horder.next hk

end

/-- Each read hands out the newest sample if one was written after the last one handed
out, and what is handed out is what was written, each sample once and in order. -/
def ReadsNewest (calls : List (Call T)) (h : History (Op T) (Outcome T)) : Prop :=
  (handed h).Pairwise (· < ·) ∧
  ∀ p, calls[p]? = some .read → ∃ v, h[p]?.map Prod.snd = some (.handedOut (.ok v)) ∧
    (∀ m x, v = some (m, x) → (samples (calls.take p))[m]? = some x) ∧
    (samples (calls.take p) ≠ [] →
      (∀ m ∈ handed (h.take p), m + 1 < (samples (calls.take p)).length) →
      ∃ x, (samples (calls.take p)).getLast? = some x ∧
        v = some ((samples (calls.take p)).length - 1, x))

theorem readsNewest_of_tracks {s₀ : System T} (hsized : Sized T) (hstart : Tracks s₀ r [] 0)
    (hok : RunOk System.step Succeeds s₀ (calls.map Call.op)) (hwrap : NeverWraps calls) :
    ReadsNewest calls (run System.step s₀ (calls.map Call.op)).2 := by
  refine ⟨(tracks_run hsized hstart hok hwrap).2.ascending, ?_⟩
  intro p hp
  have hsplit : calls.map Call.op = (calls.take p).map Call.op ++ (calls.drop p).map Call.op := by
    rw [← List.map_append, List.take_append_drop]
  obtain ⟨htracks, horder⟩ := tracks_run hsized hstart
    (runOk_append.mp (hsplit ▸ hok)).1 (hwrap.take p)
  have hlen := progress_snd (calls.take p)
  have hlast := hwrap p hp
  rw [hlen] at hlast
  obtain ⟨v, hout, -, hnone, hsome⟩ := htracks.read hlast
  refine ⟨v, ?_, ?_, ?_⟩
  · rw [getElem?_run, List.getElem?_map, hp, ← List.map_take]
    exact congrArg some hout
  · intro m x hv
    rcases Nat.eq_or_lt_of_le htracks.le with hk | hk
    · rw [hnone hk] at hv
      cases hv
    · obtain ⟨y, hy, rfl⟩ := hsome hk
      cases hv
      exact hy
  · intro hne hhanded
    rw [take_run, ← List.map_take] at hhanded
    rcases Nat.eq_or_lt_of_le htracks.le with hk | hk
    · -- Nothing was written since the last read, so the newest sample was handed out.
      have hpos := List.length_pos_iff.mpr hne
      have hmem := hhanded _ (horder.last (by omega))
      omega
    · obtain ⟨x, hx, hv⟩ := hsome hk
      exact ⟨x, by rw [List.getLast?_eq_getElem?, hx], hv⟩

theorem tracks_new (seg : UInt64) (count cap : Nat) {hash : Option Octets}
    (hhash : hash.all (fun hash => decide (hash = typeHash T)) = true) {w : FlatWriter}
    (hmask : w.activeReadersMask.getLsbD r = true) :
    Tracks (System.new { InMemorySlotAllocator.new seg count cap with typeHash := hash } w
      [FlatReader.new T r]) r ([] : List T) 0 where
  le := Nat.le_refl 0
  commits := rfl
  nextSn := rfl
  mask := hmask
  hash := hhash
  reader := rfl
  filled i slot hs hsize := by
    rw [(List.mem_replicate.mp (List.mem_of_getElem? hs)).2] at hsize
    exact absurd rfl hsize
  newest h := absurd h (Nat.lt_irrefl 0)

/-- As long as the samples between two reads do not wrap around, no read misses the
newest. -/
theorem newest_sample_is_read (seg : UInt64) (count cap : Nat) (hash : Option Octets)
    (hhash : hash.all (fun hash => decide (hash = typeHash T)) = true) (w : FlatWriter) (r : Fin 32)
    (hmask : w.activeReadersMask.getLsbD r = true) (hsized : Sized T) (calls : List (Call T))
    (hok : RunOk System.step Succeeds
      (System.new { InMemorySlotAllocator.new seg count cap with typeHash := hash } w
        [FlatReader.new T r]) (calls.map Call.op))
    (hwrap : NeverWraps calls) :
    ReadsNewest calls (run System.step
      (System.new { InMemorySlotAllocator.new seg count cap with typeHash := hash } w
        [FlatReader.new T r]) (calls.map Call.op)).2 :=
  readsNewest_of_tracks hsized (tracks_new seg count cap hhash hmask) hok hwrap

namespace Fixture

theorem readerSlots_pos : 0 < 32 := by decide

def caughtUp (last next : UInt32) (origin : Nat → Nat) (commits : Nat) : System UInt8 :=
  ⟨⟨[⟨⟨last, 1, 1⟩, [7], false, some 0⟩, ⟨.new 0 0, [0], false, none⟩], 0, 1, next, none⟩,
    ⟨1, 60⟩, [⟨⟨0, readerSlots_pos⟩, last, []⟩], [], [], origin, commits⟩

def behind (last next : UInt32) (origin : Nat → Nat) (commits : Nat) : System UInt8 :=
  ⟨⟨[⟨⟨next, 1, 0⟩, [7], false, some 0⟩, ⟨.new 0 0, [0], false, none⟩], 0, 1, next + 1, none⟩,
    ⟨1, 60⟩, [⟨⟨0, readerSlots_pos⟩, last, []⟩], [], [],
    Function.update origin 0 commits, commits + 1⟩

variable (last : UInt32)

theorem write_caughtUp (next : UInt32) (origin : Nat → Nat) (commits : Nat) :
    (caughtUp last next origin commits).step (.write 0 7) =
      (behind last next origin commits, .committed (some ⟨0, 0⟩) (.ok next)) := by
  with_unfolding_all rfl

variable {origin : Nat → Nat} {commits : Nat}

theorem read_behind {last next : UInt32}
    (h : (decide (last = 4294967295) || decide (last < next)) = true) :
    (behind last next origin commits).step (.read 0) =
      (caughtUp next (next + 1) (Function.update origin 0 commits) (commits + 1),
        .handedOut (.ok (some (commits, 7)))) := by
  have hfirst : FlatReader.scanSlot (T := UInt8) ⟨0, last, []⟩
      (behind last next origin commits).alloc (none, []) 0 =
      .ok (if (decide (last = 4294967295) || decide (last < next)) && true then
        some (⟨0, 0⟩, next, 7) else none, [⟨0, 0⟩]) := by
    with_unfolding_all rfl
  have hfold : (List.range 2).foldlM (FlatReader.scanSlot (T := UInt8) ⟨0, last, []⟩
      (behind last next origin commits).alloc) (none, []) =
      .ok (some (⟨0, 0⟩, next, 7), [⟨0, 0⟩]) := by
    rw [h] at hfirst
    rw [show List.range 2 = [0, 1] from rfl, List.foldlM_cons, hfirst]
    with_unfolding_all rfl
  have hscan : FlatReader.scanBest (T := UInt8) ⟨0, last, []⟩
      (behind last next origin commits).alloc false =
      (.ok (some (⟨0, 0⟩, next, 7)),
        (caughtUp next (next + 1) (Function.update origin 0 commits) (commits + 1)).alloc,
        ⟨0, next, []⟩) := by
    rw [FlatReader.scanBest, if_neg (by exact Bool.false_ne_true)]
    rw [show (behind last next origin commits).alloc.slots.length = 2 from rfl, hfold]
    with_unfolding_all rfl
  have hreader : (behind last next origin commits).readers[0]? = some ⟨0, last, []⟩ := rfl
  refine (scan_eq hreader hscan).trans ?_
  with_unfolding_all rfl

def inTurn : Nat → List (Call UInt8)
  | 0 => []
  | n + 1 => inTurn n ++ [.write 0 7, .read]

theorem samples_inTurn (n : Nat) : (samples (inTurn n)).length = n := by
  induction n with
  | zero => rfl
  | succ n ih =>
    rw [inTurn, samples, List.filterMap_append, List.length_append]
    exact congrArg (· + 1) ih

theorem timely_caughtUp (next : UInt32) (origin : Nat → Nat) (commits : Nat) :
    Timely (caughtUp last next origin commits).writer
    (caughtUp last next origin commits).alloc 0 := by
  intro slot _ t _
  show 0 - t < 60
  omega

theorem run_inTurn (n : Nat) (hpos : 0 < n) (hle : n < 4294967296) :
    ∃ origin, (run System.step twoSlots ((inTurn n).map Call.op)).1 =
        caughtUp (.ofNat (n - 1)) (.ofNat n) origin n ∧
      handed (run System.step twoSlots ((inTurn n).map Call.op)).2 = List.range n ∧
      RunOk System.step Succeeds twoSlots ((inTurn n).map Call.op) := by
  induction n, hpos using Nat.le_induction with
  | base =>
    refine ⟨Function.update (fun _ => 0) 0 0, ?_, ?_, ⟨?_, ?_⟩, trivial, trivial⟩
    · with_unfolding_all rfl
    · decide +kernel
    · decide +kernel
    · exact ⟨some ⟨0, 0⟩, 0, by with_unfolding_all rfl⟩
  | succ n hn ih =>
    obtain ⟨origin, hstate, hhanded, hok⟩ := ih (by omega)
    have hunseen : (decide (UInt32.ofNat (n - 1) = 4294967295) ||
        decide (UInt32.ofNat (n - 1) < UInt32.ofNat n)) = true := by
      rw [Bool.or_eq_true_iff, decide_eq_true_eq, decide_eq_true_eq]
      rw [UInt32.lt_iff_toNat_lt, UInt32.toNat_ofNat', UInt32.toNat_ofNat']
      omega
    have hrun : run System.step (caughtUp (.ofNat (n - 1)) (.ofNat n) origin n)
        [.write 0 7, .read 0] =
        (caughtUp (.ofNat n) (.ofNat n + 1) (Function.update origin 0 n) (n + 1),
          [(.write 0 7, .committed (some ⟨0, 0⟩) (.ok (.ofNat n))),
            (.read 0, .handedOut (.ok (some (n, 7))))]) := by
      rw [run, write_caughtUp, run, read_behind hunseen]
      rfl
    have hops : (inTurn (n + 1)).map Call.op = (inTurn n).map Call.op ++ [.write 0 7, .read 0] := by
      rw [inTurn, List.map_append]
      rfl
    refine ⟨Function.update origin 0 n, ?_, ?_, ?_⟩
    · rw [hops, run_append, hstate, hrun, Nat.add_sub_cancel, UInt32.ofNat_add]
      rfl
    · rw [hops, run_append, hstate, hrun, handed, List.filterMap_append, List.range_succ]
      exact congrArg (· ++ [n]) hhanded
    · rw [hops, runOk_append, hstate]
      refine ⟨hok, ⟨timely_caughtUp _ _ _ _, ?_⟩, trivial, trivial⟩
      exact ⟨some ⟨0, 0⟩, .ofNat n, congrArg Prod.snd (write_caughtUp ..)⟩

def pastWrap : List (Call UInt8) := [.write 0 7, .write 0 8, .read]

def twoBehind (last next : UInt32) (origin : Nat → Nat) (commits : Nat) : System UInt8 :=
  ⟨⟨[⟨⟨next, 1, 0⟩, [7], false, some 0⟩, ⟨⟨next + 1, 1, 0⟩, [8], false, some 0⟩], 0, 1,
      next + 1 + 1, none⟩,
    ⟨1, 60⟩, [⟨⟨0, readerSlots_pos⟩, last, []⟩], [], [],
    Function.update (Function.update origin 0 commits) 1 (commits + 1), commits + 2⟩

theorem write_behind (next : UInt32) (origin : Nat → Nat) (commits : Nat) :
    (behind last next origin commits).step (.write 0 8) =
      (twoBehind last next origin commits, .committed (some ⟨0, 1⟩) (.ok (next + 1))) := by
  with_unfolding_all rfl

theorem read_twoBehind {last next : UInt32}
    (h : (decide (last = 4294967295) || decide (last < next)) = true)
    (hwrapped : (decide (last = 4294967295) || decide (last < next + 1)) = false) :
    ((twoBehind last next origin commits).step (.read 0)).2 =
      .handedOut (.ok (some (commits, 7))) := by
  obtain ⟨a, ha⟩ : ∃ a, a = (twoBehind last next origin commits).alloc := ⟨_, rfl⟩
  have hfirst : FlatReader.scanSlot (T := UInt8) ⟨0, last, []⟩ a (none, []) 0 =
      .ok (if (decide (last = 4294967295) || decide (last < next)) && true then
        some (⟨0, 0⟩, next, 7) else none, [⟨0, 0⟩]) := by
    rw [ha]
    with_unfolding_all rfl
  have hsecond : FlatReader.scanSlot (T := UInt8) ⟨0, last, []⟩ a
      (some (⟨0, 0⟩, next, 7), [⟨0, 0⟩]) 1 =
      .ok (if (decide (last = 4294967295) || decide (last < next + 1)) && decide (next < next + 1)
        then some (⟨0, 1⟩, next + 1, 8) else some (⟨0, 0⟩, next, 7), [⟨0, 0⟩, ⟨0, 1⟩]) := by
    rw [ha]
    with_unfolding_all rfl
  rw [h] at hfirst
  rw [hwrapped] at hsecond
  have hfold : (List.range 2).foldlM (FlatReader.scanSlot (T := UInt8) ⟨0, last, []⟩ a)
      (none, []) = .ok (some (⟨0, 0⟩, next, 7), [⟨0, 0⟩, ⟨0, 1⟩]) := by
    rw [show List.range 2 = [0, 1] from rfl, List.foldlM_cons, hfirst]
    show (FlatReader.scanSlot (T := UInt8) ⟨0, last, []⟩ a
      (some (⟨0, 0⟩, next, 7), [⟨0, 0⟩]) 1 >>= _) = _
    rw [hsecond]
    rfl
  have hscan : ∃ alloc r, FlatReader.scanBest (T := UInt8) ⟨0, last, []⟩ a false =
      (.ok (some (⟨0, 0⟩, next, 7)), alloc, r) := by
    rw [FlatReader.scanBest, if_neg (by rw [ha]; exact Bool.false_ne_true)]
    rw [show a.slots.length = 2 by rw [ha]; rfl, hfold, ha]
    exact ⟨_, _, rfl⟩
  obtain ⟨alloc, r, hscan⟩ := hscan
  have hreader : (twoBehind last next origin commits).readers[0]? = some ⟨0, last, []⟩ := rfl
  rw [ha] at hscan
  exact congrArg Prod.snd (scan_eq hreader hscan)

theorem read_misses_wrapped (hn : n = 4294967295) :
    RunOk System.step Succeeds twoSlots ((inTurn n ++ pastWrap).map Call.op) ∧
    ¬ ReadsNewest (inTurn n ++ pastWrap)
      (run System.step twoSlots ((inTurn n ++ pastWrap).map Call.op)).2 := by
  obtain ⟨origin, hstate, hhanded, hok⟩ := run_inTurn n (by omega) (by omega)
  obtain ⟨last, hlast⟩ : ∃ last, last = UInt32.ofNat (n - 1) := ⟨_, rfl⟩
  obtain ⟨next, hnext⟩ : ∃ next, next = UInt32.ofNat n := ⟨_, rfl⟩
  have hseen : (decide (last = 4294967295) || decide (last < next)) = true := by
    rw [hlast, hnext, hn]
    decide +kernel
  have hwrapped : (decide (last = 4294967295) || decide (last < next + 1)) = false := by
    rw [hlast, hnext, hn]
    decide +kernel
  rw [← hlast, ← hnext] at hstate
  have hfirst := write_caughtUp last next origin n
  have hsecond := write_behind last next origin n
  have hrun : (run System.step (caughtUp last next origin n)
      [.write 0 7, .write 0 8, .read 0]).2 =
      [(.write 0 7, .committed (some ⟨0, 0⟩) (.ok next)),
        (.write 0 8, .committed (some ⟨0, 1⟩) (.ok (next + 1))),
        (.read 0, .handedOut (.ok (some (n, 7))))] := by
    simp [run, hfirst, hsecond, read_twoBehind hseen hwrapped]
  have hops : (inTurn n ++ pastWrap).map Call.op =
      (inTurn n).map Call.op ++ [.write 0 7, .write 0 8, .read 0] := List.map_append
  rw [hops]
  constructor
  · rw [runOk_append, hstate]
    simp only [RunOk, hfirst, hsecond]
    refine ⟨hok, ⟨timely_caughtUp _ _ _ _, ?_⟩, ⟨?_, ?_⟩, trivial, trivial⟩
    · exact ⟨_, _, congrArg Prod.snd hfirst⟩
    · intro slot _ t _
      show 0 - t < 60
      omega
    · exact ⟨_, _, congrArg Prod.snd hsecond⟩
  · rintro ⟨-, hread⟩
    rw [run_append, hstate, hrun] at hread
    have hlen : ((run System.step twoSlots ((inTurn n).map Call.op)).2).length =
        (inTurn n).length := by rw [length_run, List.length_map]
    have htake : (inTurn n ++ pastWrap).take ((inTurn n).length + 2) =
        inTurn n ++ [.write 0 7, .write 0 8] := by
      rw [List.take_length_add_append]
      rfl
    obtain ⟨v, hv, -, hnewest⟩ := hread ((inTurn n).length + 2) (by
      rw [List.getElem?_append_right (Nat.le_add_right _ _), Nat.add_sub_cancel_left]
      rfl)
    rw [htake] at hnewest
    have hsamples : (samples (inTurn n ++ [.write 0 7, .write 0 8])).length = n + 2 := by
      rw [samples, List.filterMap_append, List.length_append]
      exact congrArg (· + 2) (samples_inTurn n)
    obtain ⟨x, -, hlast⟩ := hnewest (by
      intro hnil
      rw [hnil] at hsamples
      cases hsamples) (by
      intro m hm
      rw [← hlen, List.take_length_add_append, handed, List.filterMap_append] at hm
      rcases List.mem_append.mp hm with hm | hm
      · have hrange : m ∈ List.range n := hhanded ▸ hm
        have := List.mem_range.mp hrange
        omega
      · cases hm)
    -- The read handed out the sample number `n`, and the newest is the one after it.
    rw [← hlen, List.getElem?_append_right (Nat.le_add_right _ _), Nat.add_sub_cancel_left] at hv
    have hv' : v = some (n, 7) := by
      have := Option.some.inj hv
      exact (Except.ok.inj (Outcome.handedOut.inj this)).symm
    rw [hv', hsamples] at hlast
    have := congrArg Prod.fst (Option.some.inj hlast)
    omega

/-- After 2^32 - 1 samples that were read in turn, of two samples the first has the
highest number and the second the lowest, and the reader is given the first. -/
theorem wrapped_sample_missed :
    RunOk System.step Succeeds twoSlots ((inTurn 4294967295 ++ pastWrap).map Call.op) ∧
    ¬ ReadsNewest (inTurn 4294967295 ++ pastWrap)
      (run System.step twoSlots ((inTurn 4294967295 ++ pastWrap).map Call.op)).2 :=
  read_misses_wrapped rfl

def readEach : List (Call UInt8) := [.write 0 7, .read, .write 1 8, .write 1 9, .read, .read]

theorem newest_of_each :
    ReadsNewest readEach (run System.step (System.new
      { InMemorySlotAllocator.new 0 2 1 with typeHash := some [] } ⟨1, 60⟩ [FlatReader.new UInt8 0])
      (readEach.map Call.op)).2 := by
  refine newest_sample_is_read 0 2 1 (some []) (by decide) ⟨1, 60⟩ 0 (by decide)
    ⟨by decide, by decide⟩ readEach ?_ (neverWraps_of_length_lt (by decide))
  refine ⟨⟨?_, some ⟨0, 0⟩, 0, ?_⟩, trivial, ⟨?_, some ⟨0, 0⟩, 1, ?_⟩,
    ⟨?_, some ⟨0, 1⟩, 2, ?_⟩, trivial, trivial, trivial⟩
  · decide +kernel
  · with_unfolding_all rfl
  · decide +kernel
  · with_unfolding_all rfl
  · decide +kernel
  · with_unfolding_all rfl

end Fixture

end ZeroDds.Flatdata
