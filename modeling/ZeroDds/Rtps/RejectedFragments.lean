/-
Fragments the assembler turns away.
-/
import ZeroDds.Rtps.FragmentAssembler

namespace ZeroDds.Rtps

open SortedMap

namespace FragmentBuffer

/-- The fragment fails a check that is made before anything is written to the buffer:
the two sizes, the length of its payload, its key hash. -/
def turnsAway (b : FragmentBuffer) (df : DataFragSubmessage) : Prop :=
  b.sampleSize ≠ df.sampleSize ∨ b.fragmentSize ≠ df.fragmentSize ∨ b.payloadFits df = false ∨
    ∃ key previous, df.inlineQos.bind InlineQos.findKeyHash = some key ∧
      b.keyHash = some previous ∧ previous ≠ key

def hasInlineQosOf (b : FragmentBuffer) (df : DataFragSubmessage) : Prop :=
  (∀ key, df.inlineQos.bind InlineQos.findKeyHash = some key → b.keyHash = some key) ∧
    (df.inlineQos.isSome → df.fragmentStartingNum = 1 ∨ b.inlineQos = none →
      b.inlineQos = df.inlineQos) ∧
    (df.keyFlag = true → b.keyFlag = true)

theorem noteInlineQos_eq_iff (b : FragmentBuffer) (df : DataFragSubmessage) :
    b.noteInlineQos df = b ↔ b.hasInlineQosOf df := by
  have hkey : (df.inlineQos.bind InlineQos.findKeyHash).or b.keyHash = b.keyHash ↔
      ∀ key, df.inlineQos.bind InlineQos.findKeyHash = some key → b.keyHash = some key := by
    cases df.inlineQos.bind InlineQos.findKeyHash with
    | none => simp
    | some key => simp [eq_comm]
  have hqos : (if df.inlineQos.isSome ∧ (df.fragmentStartingNum = 1 ∨ b.inlineQos.isNone) then
        df.inlineQos else b.inlineQos) = b.inlineQos ↔
      (df.inlineQos.isSome → df.fragmentStartingNum = 1 ∨ b.inlineQos = none →
        b.inlineQos = df.inlineQos) := by
    have hnone := Option.isNone_iff_eq_none (o := b.inlineQos)
    split
    · next h => exact ⟨fun he _ _ => he.symm, fun he => (he h.1 (h.2.imp_right hnone.mp)).symm⟩
    · next h => exact ⟨fun _ h1 h2 => absurd ⟨h1, h2.imp_right hnone.mpr⟩ h, fun _ => rfl⟩
  have hflag : (b.keyFlag || df.keyFlag) = b.keyFlag ↔ (df.keyFlag = true → b.keyFlag = true) := by
    cases b.keyFlag <;> cases df.keyFlag <;> simp
  rw [hasInlineQosOf, ← hkey, ← hqos, ← hflag]
  constructor
  · intro h
    exact ⟨congrArg keyHash h, congrArg inlineQos h, congrArg keyFlag h⟩
  · rintro ⟨h1, h2, h3⟩
    simp only [noteInlineQos, h1, h2, h3]

theorem accept_of_drop {b b' : FragmentBuffer} {df : DataFragSubmessage} {reason : DropReason}
    (hsizes : b.sampleSize = df.sampleSize ∧ b.fragmentSize = df.fragmentSize)
    (h : b.accept df = (b', some reason)) :
    (b.turnsAway df ∧ b' = b) ∨ (¬b.turnsAway df ∧ b' = b.noteInlineQos df) := by
  have hkeys : ((df.inlineQos.bind InlineQos.findKeyHash).any fun key =>
        b.keyHash.any fun previous => previous ≠ key) = true ↔
      ∃ key previous, df.inlineQos.bind InlineQos.findKeyHash = some key ∧
        b.keyHash = some previous ∧ previous ≠ key := by
    cases df.inlineQos.bind InlineQos.findKeyHash with
    | none => simp
    | some key => cases b.keyHash <;> simp
  unfold accept at h
  split at h
  · next hfits =>
    cases h
    exact .inl ⟨.inr (.inr (.inl (by simpa using hfits))), rfl⟩
  · next hfits =>
    split at h
    · next hkey =>
      cases h
      exact .inl ⟨.inr (.inr (.inr (hkeys.mp hkey))), rfl⟩
    · next hkey =>
      simp only at h
      split at h
      · cases h
        refine .inr ⟨?_, rfl⟩
        rintro (h | h | h | h)
        · exact h hsizes.1
        · exact h hsizes.2
        · exact hfits (by rw [h]; rfl)
        · exact hkey (hkeys.mpr h)
      · cases h

end FragmentBuffer

namespace FragmentAssembler

/-- The reason the call records for its fragment, read off diagnostics that were blank
before it. -/
def dropOf (a : FragmentAssembler) (df : DataFragSubmessage) : Option DropReason :=
  ({ a with lastDropReason := none }.insert df).1.lastDropReason

/-- The fragment is turned away before it makes room or opens a buffer, or its sample is
in progress and the buffer either turns it away or has its in-line QoS. -/
def Spares (a : FragmentAssembler) (df : DataFragSubmessage) : Prop :=
  (gate a.caps df).isSome ∨ (a.caps.maxPendingSns = 0 ∧ a.buffers.isEmpty) ∨
    ∃ b, a.buffers.get? df.writerSn = some b ∧ (b.turnsAway df ∨ b.hasInlineQosOf df)

variable {a : FragmentAssembler} {sn : Int} {b : FragmentBuffer}

theorem makeRoom_of_some (h : a.buffers.get? sn = some b) : a.makeRoom sn = some a := by
  have hcontains : a.buffers.contains sn = true := contains_iff.mpr ⟨b, h⟩
  simp [makeRoom, hcontains]

theorem makeRoom_eq_none (h : a.makeRoom sn = none) :
    a.caps.maxPendingSns = 0 ∧ a.buffers.isEmpty := by
  unfold makeRoom at h
  split at h
  · next hfull =>
    have hempty := minKey?_eq_none.mp (Option.map_eq_none_iff.mp h)
    have hsize : ¬0 < a.buffers.size := fun hpos => by
      obtain ⟨k, v, hv⟩ := size_pos_iff.mp hpos
      exact Option.some_ne_none v (hv ▸ hempty k)
    exact ⟨by omega, isEmpty_iff.mpr hempty⟩
  · cases h

theorem makeRoom_of_disabled (hcap : a.caps.maxPendingSns = 0) (hempty : a.buffers.isEmpty)
    (sn : Int) : a.makeRoom sn = none := by
  have hnone := isEmpty_iff.mp hempty
  have hcontains : a.buffers.contains sn = false := by
    rw [Bool.eq_false_iff, ne_eq, contains_iff]
    rintro ⟨b, hb⟩
    exact Option.some_ne_none b (hb ▸ hnone sn)
  simp [makeRoom, hcontains, hcap, minKey?_eq_none.mpr hnone]

theorem makeRoom_get? {a' : FragmentAssembler} (h : a.makeRoom sn = some a')
    (hnew : a.buffers.get? sn = none) : a'.buffers.get? sn = none := by
  unfold makeRoom at h
  split at h
  · obtain ⟨oldest, -, rfl⟩ := Option.map_eq_some_iff.mp h
    show (a.buffers.erase oldest).get? sn = none
    rw [get?_erase]
    split
    · rfl
    · exact hnew
  · cases h
    exact hnew

theorem makeRoom_drop {a' : FragmentAssembler} (h : a.makeRoom sn = some a')
    (hblank : a.lastDropReason = none) :
    ∀ reason, a'.lastDropReason = some reason → reason = .pendingSnsCapExceeded := by
  intro reason hreason
  unfold makeRoom at h
  split at h
  · obtain ⟨oldest, -, rfl⟩ := Option.map_eq_some_iff.mp h
    cases hreason
    rfl
  · cases h
    rw [hblank] at hreason
    cases hreason

/-! ### The dropped fragment -/

def feed (a : FragmentAssembler) (df : DataFragSubmessage) : SortedMap Int FragmentBuffer :=
  match a.bufferFor df with
  | none => a.buffers
  | some b =>
    if (b.accept df).2 = none ∧ (b.accept df).1.isComplete then a.buffers.erase df.writerSn
    else a.buffers.insert df.writerSn (b.accept df).1

theorem insert_buffers (a : FragmentAssembler) (df : DataFragSubmessage) :
    (a.insert df).1.buffers =
      if (gate a.caps df).isSome then a.buffers
      else ((a.makeRoom df.writerSn).map fun a' => a'.feed df).getD a.buffers := by
  unfold insert
  cases gate a.caps df with
  | some reason => rfl
  | none =>
    cases a.makeRoom df.writerSn with
    | none => rfl
    | some a' =>
      simp only [feed, Option.isSome_none, Bool.false_eq_true, if_false, Option.map_some,
        Option.getD_some]
      cases a'.bufferFor df with
      | none => rfl
      | some b =>
        rcases haccept : b.accept df with ⟨b', _ | reason⟩
        · by_cases hdone : b'.isComplete = true
          · simp [haccept, hdone]
          · simp [haccept, hdone]
        · simp [haccept, recordDrop]

theorem insert_buffers_blank (a : FragmentAssembler) (df : DataFragSubmessage) :
    (a.insert df).1.buffers = ({ a with lastDropReason := none }.insert df).1.buffers := by
  rw [insert_buffers, insert_buffers]
  unfold makeRoom
  split
  · rfl
  · split
    · cases a.buffers.minKey? <;> rfl
    · rfl

variable {df : DataFragSubmessage}

theorem dropped_where {reason : DropReason} (hblank : a.lastDropReason = none)
    (hdrop : (a.insert df).1.lastDropReason = some reason)
    (hreason : reason ≠ .pendingSnsCapExceeded) (hgate : gate a.caps df = none) :
    a.makeRoom df.writerSn = none ∨ ∃ a', a.makeRoom df.writerSn = some a' ∧
      (a'.bufferFor df = none ∨
        ∃ b b' why, a'.bufferFor df = some b ∧ b.accept df = (b', some why)) := by
  unfold insert at hdrop
  simp only [hgate] at hdrop
  cases hroom : a.makeRoom df.writerSn with
  | none => exact .inl rfl
  | some a' =>
    have hearlier := makeRoom_drop hroom hblank
    refine .inr ⟨a', rfl, ?_⟩
    simp only [hroom] at hdrop
    cases hb : a'.bufferFor df with
    | none => exact .inl rfl
    | some b =>
      refine .inr ⟨b, ?_⟩
      rcases haccept : b.accept df with ⟨b', _ | why⟩
      · -- a fragment that is taken in records the eviction it caused, at most
        simp only [hb, haccept] at hdrop
        refine absurd (hearlier reason ?_) hreason
        split at hdrop <;> exact hdrop
      · exact ⟨b', why, rfl, rfl⟩

theorem bufferFor_of_some (h : a.buffers.get? df.writerSn = some b) :
    (a.bufferFor df = none ∧ b.turnsAway df) ∨
      (a.bufferFor df = some b ∧ b.sampleSize = df.sampleSize ∧
        b.fragmentSize = df.fragmentSize) := by
  unfold bufferFor
  simp only [h]
  by_cases hsizes : b.sampleSize ≠ df.sampleSize ∨ b.fragmentSize ≠ df.fragmentSize
  · exact .inl ⟨if_pos hsizes, hsizes.imp_right .inl⟩
  · refine .inr ⟨if_neg hsizes, ?_⟩
    simpa [not_or] using hsizes

theorem insert_eq_self_iff {m : SortedMap Int FragmentBuffer} {b' : FragmentBuffer}
    (h : m.get? sn = some b) : m.insert sn b' = m ↔ b' = b := by
  constructor
  · intro heq
    have hget := get?_insert_self m sn b'
    rw [heq, h] at hget
    exact (Option.some.inj hget).symm
  · rintro rfl
    refine ext_get? fun k => ?_
    rw [get?_insert]
    split
    · next hk => rw [hk, h]
    · rfl

theorem kept_iff_of_some (hb : a.buffers.get? df.writerSn = some b)
    (hdropped : a.bufferFor df = none ∨
      ∃ b b' why, a.bufferFor df = some b ∧ b.accept df = (b', some why)) :
    a.feed df = a.buffers ↔ b.turnsAway df ∨ b.hasInlineQosOf df := by
  unfold feed
  rcases bufferFor_of_some hb with ⟨hnone, haway⟩ | ⟨hsome, hsizes⟩
  · simp only [hnone]
    exact ⟨fun _ => .inl haway, fun _ => trivial⟩
  · rcases hdropped with hnone | ⟨b₀, b', why, hsome', haccept⟩
    · exact absurd (hsome.symm.trans hnone) (Option.some_ne_none b)
    obtain rfl : b = b₀ := Option.some.inj (hsome.symm.trans hsome')
    simp only [hsome, haccept, reduceCtorEq, false_and, if_false]
    rw [insert_eq_self_iff hb]
    rcases FragmentBuffer.accept_of_drop hsizes haccept with ⟨haway, rfl⟩ | ⟨hstays, rfl⟩
    · exact ⟨fun _ => .inl haway, fun _ => rfl⟩
    · rw [FragmentBuffer.noteInlineQos_eq_iff]
      exact ⟨.inr, fun h => h.resolve_left hstays⟩

/-- A fragment that is dropped leaves the samples in progress as they were exactly when
the assembler spares them: it is turned away before it makes room or opens a buffer, or
its sample is in progress and it brings that buffer no new in-line QoS. -/
theorem rejected_fragment_keeps_buffers_iff {a : FragmentAssembler} {df : DataFragSubmessage}
    {reason : DropReason} (hdrop : a.dropOf df = some reason)
    (hreason : reason ≠ .pendingSnsCapExceeded) :
    (a.insert df).1.buffers = a.buffers ↔ a.Spares df := by
  rw [insert_buffers_blank, insert_buffers]
  have hsame : Spares { a with lastDropReason := none } df ↔ a.Spares df := Iff.rfl
  rw [← hsame]
  generalize hblank : { a with lastDropReason := none } = a₀
  have hdrop : (a₀.insert df).1.lastDropReason = some reason := hblank ▸ hdrop
  have hnone : a₀.lastDropReason = none := hblank ▸ rfl
  have hbuffers : a.buffers = a₀.buffers := hblank ▸ rfl
  rw [hbuffers]
  unfold Spares
  cases hgate : gate a₀.caps df with
  | some why => simp
  | none =>
    simp only [Option.isSome_none, Bool.false_eq_true, if_false, false_or]
    rcases dropped_where hnone hdrop hreason hgate with hroom | ⟨a', hroom, hdropped⟩
    · simp only [hroom, Option.map_none, Option.getD_none, true_iff]
      exact .inl (makeRoom_eq_none hroom)
    · have hopen : ¬(a₀.caps.maxPendingSns = 0 ∧ a₀.buffers.isEmpty) := fun h =>
        Option.some_ne_none a' (hroom.symm.trans (makeRoom_of_disabled h.1 h.2 df.writerSn))
      simp only [hroom, Option.map_some, Option.getD_some, hopen, false_or]
      cases hb : a₀.buffers.get? df.writerSn with
      | some b =>
        obtain rfl : a₀ = a' := Option.some.inj ((makeRoom_of_some hb).symm.trans hroom)
        rw [kept_iff_of_some hb hdropped]
        exact ⟨fun h => ⟨b, rfl, h⟩, fun ⟨b', hb', h⟩ => Option.some.inj hb' ▸ h⟩
      | none =>
        -- the number is new, and it has a buffer after the call
        have hb' := makeRoom_get? hroom hb
        refine ⟨fun heq => ?_, fun ⟨b, hb, _⟩ => absurd hb.symm (Option.some_ne_none b)⟩
        rcases hdropped with hfor | ⟨b, b', why, hfor, haccept⟩
        · simp [bufferFor, hb'] at hfor
        · have hget : (a'.feed df).get? df.writerSn = some b' := by
            simp [feed, hfor, haccept]
          rw [heq, hb] at hget
          exact absurd hget.symm (Option.some_ne_none b')

namespace Fixture

def firstHalf (sn : Int) (payload : Octets) : DataFragSubmessage :=
  ⟨none, 0, EntityId.unknown, EntityId.unknown, sn, 1, 1, 4, 8, payload, false, false, false⟩

def oneInProgress : FragmentAssembler :=
  ((FragmentAssembler.new ⟨1, 1024, 64⟩).insert (firstHalf 1 [1, 2, 3, 4])).1

/-- A fragment with half its payload throws sample 1 away and opens a buffer for its own
number. -/
theorem short_fragment_evicts :
    ¬∀ (a : FragmentAssembler) (df : DataFragSubmessage) (reason : DropReason),
      a.dropOf df = some reason → reason ≠ .pendingSnsCapExceeded → (a.insert df).2 = none →
        (a.insert df).1.buffers = a.buffers := by
  intro h
  have hbuffers := h oneInProgress (firstHalf 2 [1, 2]) .payloadSizeMismatch (by decide +kernel)
    (by decide) (by decide +kernel)
  exact absurd (congrArg SortedMap.keys hbuffers) (by decide +kernel)

/-- The same fragment of the sample in progress is turned away by its buffer. -/
theorem short_fragment_of_buffered :
    (oneInProgress.insert (firstHalf 1 [1, 2])).1.buffers = oneInProgress.buffers := by
  have hdrop : oneInProgress.dropOf (firstHalf 1 [1, 2]) = some .payloadSizeMismatch := by
    decide +kernel
  refine (rejected_fragment_keeps_buffers_iff hdrop (by decide)).mpr (.inr (.inr ?_))
  refine ⟨((FragmentBuffer.new 8 4).accept (firstHalf 1 [1, 2, 3, 4])).1, by decide +kernel, ?_⟩
  exact .inl (.inr (.inr (.inl (by decide +kernel))))

end Fixture

end FragmentAssembler
end ZeroDds.Rtps
