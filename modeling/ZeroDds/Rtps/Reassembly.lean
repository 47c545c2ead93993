/-
Exact reassembly.
-/
import ZeroDds.Lib.Run
import ZeroDds.Rtps.FragmentAssembler

namespace ZeroDds.Rtps

open SortedMap

structure FragmentedSample where
  sn : Int
  payload : Octets
  fragmentSize : Nat
  keyHash : Option KeyHash
  payload_pos : 1 ≤ payload.length
  payload_le : payload.length ≤ u32Max
  fragmentSize_pos : 1 ≤ fragmentSize

namespace FragmentedSample

variable (x : FragmentedSample)

def total : Nat := divCeil x.payload.length x.fragmentSize

def slice (start count : Nat) : Octets :=
  (x.payload.drop ((start - 1) * x.fragmentSize)).take (count * x.fragmentSize)

/-- The bundle is one of this sample: the exact octets of its fragments, with
padding behind them only where the bundle ends the sample, and no key but the
sample's. -/
structure Carries (x : FragmentedSample) (df : DataFragSubmessage) : Prop where
  writerSn : df.writerSn = x.sn
  sampleSize : df.sampleSize = x.payload.length
  fragmentSize : df.fragmentSize = x.fragmentSize
  start_pos : 1 ≤ df.fragmentStartingNum
  count_pos : 1 ≤ df.fragmentsInSubmessage
  in_range : df.fragmentStartingNum + df.fragmentsInSubmessage ≤ x.total + 1
  payload : ∃ padding, df.serializedPayload =
      x.slice df.fragmentStartingNum df.fragmentsInSubmessage ++ padding ∧
    (df.fragmentStartingNum + df.fragmentsInSubmessage ≤ x.total → padding = [])
  keyHash : ∀ key, df.inlineQos.bind InlineQos.findKeyHash = some key → x.keyHash = some key

def coveredStep (covered : Finset Nat) (df : DataFragSubmessage) : Finset Nat :=
  if df.writerSn = x.sn then
    if covered ∪ df.covers = Finset.Icc 1 x.total then ∅ else covered ∪ df.covers
  else covered

def covered (dfs : List DataFragSubmessage) : Finset Nat :=
  dfs.foldl x.coveredStep ∅

def uncovered (covered : Finset Nat) : List Nat :=
  (List.range' 1 x.total).filter fun f => f ∉ covered

/-! ### Fragment arithmetic -/

variable (x : FragmentedSample)

theorem total_pos : 1 ≤ x.total := by
  have := x.payload_pos
  have := x.fragmentSize_pos
  exact (Nat.one_le_div_iff (by omega)).mpr (by omega)

theorem payload_length_le : x.payload.length ≤ x.total * x.fragmentSize := by
  have hs := x.fragmentSize_pos
  have := Nat.lt_div_mul_add (a := x.payload.length + x.fragmentSize - 1) (b := x.fragmentSize)
    (by omega)
  unfold total divCeil
  omega

theorem lt_payload_length : (x.total - 1) * x.fragmentSize < x.payload.length := by
  have hs := x.fragmentSize_pos
  have ht := x.total_pos
  have := Nat.div_mul_le_self (x.payload.length + x.fragmentSize - 1) x.fragmentSize
  have hsplit : x.total * x.fragmentSize = (x.total - 1) * x.fragmentSize + x.fragmentSize := by
    conv_lhs => rw [show x.total = (x.total - 1) + 1 by omega, Nat.succ_mul]
  unfold total divCeil at *
  omega

theorem total_le : x.total ≤ u32Max := by
  have hs := x.fragmentSize_pos
  have hlt := x.lt_payload_length
  have := x.payload_le
  have : (x.total - 1) * 1 ≤ (x.total - 1) * x.fragmentSize := Nat.mul_le_mul_left _ hs
  omega

theorem covered_ne_full (dfs : List DataFragSubmessage) : x.covered dfs ≠ Finset.Icc 1 x.total := by
  have hempty : (∅ : Finset Nat) ≠ Finset.Icc 1 x.total :=
    (Finset.nonempty_Icc.mpr x.total_pos).ne_empty.symm
  have hstep : ∀ (dfs : List DataFragSubmessage) (c : Finset Nat), c ≠ Finset.Icc 1 x.total →
      dfs.foldl x.coveredStep c ≠ Finset.Icc 1 x.total := by
    intro dfs
    induction dfs with
    | nil => exact fun c hc => hc
    | cons df dfs ih =>
      intro c hc
      refine ih _ ?_
      unfold coveredStep
      split_ifs with hsn hfull
      · exact hempty
      · exact hfull
      · exact hc
  exact hstep dfs ∅ hempty

theorem uncovered_head?_of_ne_full {c : Finset Nat} (hsub : c ⊆ Finset.Icc 1 x.total)
    (hne : c ≠ Finset.Icc 1 x.total) : ∃ first, (x.uncovered c).head? = some first := by
  obtain ⟨f, hf, hfc⟩ := Finset.exists_of_ssubset (hsub.ssubset_of_ne hne)
  have hf' := Finset.mem_Icc.mp hf
  have : f ∈ x.uncovered c :=
    List.mem_filter.mpr ⟨List.mem_range'_1.mpr (by omega), by simpa using hfc⟩
  exact ⟨_, List.head?_eq_some_head (List.ne_nil_of_mem this)⟩

theorem fragment_of_octet {i : Nat} (h : i < x.payload.length) :
    i / x.fragmentSize + 1 ≤ x.total := by
  refine Nat.succ_le_of_lt (Nat.div_lt_of_lt_mul ?_)
  have := x.payload_length_le
  rw [Nat.mul_comm]
  omega

variable {df : DataFragSubmessage}

theorem Carries.lastFrag_eq {x : FragmentedSample} (h : x.Carries df) :
    df.lastFrag = df.fragmentStartingNum + df.fragmentsInSubmessage - 1 := by
  have := h.in_range
  have := h.count_pos
  have := x.total_le
  unfold DataFragSubmessage.lastFrag
  simp only
  split <;> omega

theorem Carries.gate_eq_none {x : FragmentedSample} (h : x.Carries df) {caps : AssemblerCaps}
    (hp : x.payload.length ≤ caps.maxSampleBytes) (hs : x.fragmentSize ≤ caps.maxFragmentSize) :
    FragmentAssembler.gate caps df = none := by
  have h1 := x.fragmentSize_pos
  have h2 := h.count_pos
  have h3 := h.start_pos
  have h4 := h.in_range
  have h5 : divCeil x.payload.length x.fragmentSize = x.total := rfl
  unfold FragmentAssembler.gate
  rw [h.sampleSize, h.fragmentSize, h.lastFrag_eq, h5]
  rw [if_neg (by omega), if_neg (by omega), if_neg (by omega), if_neg (by omega),
    if_neg (by omega)]

end FragmentedSample

namespace FragmentBuffer

open FragmentedSample

structure Holds (b : FragmentBuffer) (x : FragmentedSample) (covered : Finset Nat) : Prop where
  sampleSize : b.sampleSize = x.payload.length
  fragmentSize : b.fragmentSize = x.fragmentSize
  totalFragments : b.totalFragments = x.total
  received : b.received = covered
  subset : covered ⊆ Finset.Icc 1 x.total
  length : b.data.length = x.payload.length
  data : ∀ i, i < x.payload.length → i / x.fragmentSize + 1 ∈ covered →
    b.data[i]? = x.payload[i]?
  keyHash : ∀ key, b.keyHash = some key → x.keyHash = some key

theorem new_holds (x : FragmentedSample) :
    (new x.payload.length x.fragmentSize).Holds x ∅ where
  sampleSize := rfl
  fragmentSize := rfl
  totalFragments := if_neg (by have := x.fragmentSize_pos; omega)
  received := rfl
  subset := by simp
  length := by simp [new]
  data i _ h := by simp at h
  keyHash key h := by simp [new] at h

variable {b : FragmentBuffer} {x : FragmentedSample} {covered : Finset Nat}
  {df : DataFragSubmessage}

theorem Holds.isComplete_iff (h : b.Holds x covered) :
    b.isComplete = true ↔ covered = Finset.Icc 1 x.total := by
  have ht := x.total_pos
  have hcard : (Finset.Icc 1 x.total).card = x.total := by simp
  simp only [isComplete, h.totalFragments, h.received, Bool.and_eq_true, decide_eq_true_eq]
  constructor
  · rintro ⟨-, hc⟩
    exact Finset.eq_of_subset_of_card_le h.subset (by omega)
  · rintro rfl
    exact ⟨by omega, hcard⟩

theorem Holds.data_eq (h : b.Holds x (Finset.Icc 1 x.total)) : b.data = x.payload := by
  refine List.ext_getElem? fun i => ?_
  by_cases hi : i < x.payload.length
  · exact h.data i hi (Finset.mem_Icc.mpr ⟨Nat.le_add_left 1 _, x.fragment_of_octet hi⟩)
  · rw [List.getElem?_eq_none (by rw [h.length]; omega), List.getElem?_eq_none (by omega)]

theorem Holds.expectedLen_eq (h : b.Holds x covered) (hdf : x.Carries df) :
    b.expectedLen df = (x.slice df.fragmentStartingNum df.fragmentsInSubmessage).length ∧
      (df.fragmentStartingNum - 1) * x.fragmentSize + b.expectedLen df ≤ x.payload.length := by
  have hr := hdf.in_range
  have hs := hdf.start_pos
  have hc := hdf.count_pos
  have hlt := x.lt_payload_length
  have hle := x.payload_length_le
  have hcount : df.fragmentsInSubmessage * x.fragmentSize =
      (df.fragmentsInSubmessage - 1) * x.fragmentSize + x.fragmentSize := by
    conv_lhs => rw [show df.fragmentsInSubmessage = (df.fragmentsInSubmessage - 1) + 1 by omega,
      Nat.succ_mul]
  have htotal : x.total * x.fragmentSize = (x.total - 1) * x.fragmentSize + x.fragmentSize := by
    conv_lhs => rw [show x.total = (x.total - 1) + 1 by omega, Nat.succ_mul]
  have hjoin : (df.fragmentStartingNum - 1) * x.fragmentSize +
      (df.fragmentsInSubmessage - 1) * x.fragmentSize =
        (df.fragmentStartingNum + df.fragmentsInSubmessage - 2) * x.fragmentSize := by
    rw [← Nat.add_mul]
    congr 1
    omega
  simp only [expectedLen, tailSize, hdf.lastFrag_eq, h.totalFragments, h.fragmentSize,
    h.sampleSize, FragmentedSample.slice, List.length_take, List.length_drop]
  split
  · next hlast =>
    have : df.fragmentStartingNum + df.fragmentsInSubmessage - 2 = x.total - 1 := by omega
    rw [this] at hjoin
    omega
  · next hlast =>
    -- a bundle that stops short of the last fragment lies before its octets
    have hmul : (df.fragmentStartingNum + df.fragmentsInSubmessage - 1) * x.fragmentSize ≤
        (x.total - 1) * x.fragmentSize := Nat.mul_le_mul_right _ (by omega)
    have hstep : (df.fragmentStartingNum + df.fragmentsInSubmessage - 1) * x.fragmentSize =
        (df.fragmentStartingNum + df.fragmentsInSubmessage - 2) * x.fragmentSize +
          x.fragmentSize := by
      conv_lhs => rw [show df.fragmentStartingNum + df.fragmentsInSubmessage - 1 =
        (df.fragmentStartingNum + df.fragmentsInSubmessage - 2) + 1 by omega, Nat.succ_mul]
    omega

variable {data chunk : Octets} {start : Nat}

theorem getElem?_overwrite (h : start + chunk.length ≤ data.length) (i : Nat) :
    (overwrite data start chunk)[i]? =
      if start ≤ i ∧ i < start + chunk.length then chunk[i - start]? else data[i]? := by
  have hlen : (data.take start).length = start := by simp; omega
  unfold overwrite
  by_cases h1 : i < start
  · rw [if_neg (by omega), List.append_assoc, List.getElem?_append_left (by omega),
      List.getElem?_take_of_lt h1]
  · by_cases h2 : i < start + chunk.length
    · rw [if_pos ⟨by omega, h2⟩, List.append_assoc, List.getElem?_append_right (by omega),
        List.getElem?_append_left (by omega), hlen]
    · rw [if_neg (by omega), List.getElem?_append_right (by simp; omega), List.getElem?_drop]
      congr 1
      simp only [List.length_append, hlen]
      omega

theorem length_overwrite (h : start + chunk.length ≤ data.length) :
    (overwrite data start chunk).length = data.length := by
  simp only [overwrite, List.length_append, List.length_take, List.length_drop]
  omega

section

variable (h : b.Holds x covered)
include h

theorem Holds.mem_covers_octet (hdf : x.Carries df) {i : Nat}
    (hi : i < x.payload.length) (hf : i / x.fragmentSize + 1 ∈ df.covers) :
    (df.fragmentStartingNum - 1) * x.fragmentSize ≤ i ∧
      i < (df.fragmentStartingNum - 1) * x.fragmentSize + b.expectedLen df := by
  have hs := hdf.start_pos
  obtain ⟨h1, h2⟩ := Finset.mem_Ico.mp hf
  have hge : (df.fragmentStartingNum - 1) * x.fragmentSize ≤ i :=
    (Nat.le_div_iff_mul_le x.fragmentSize_pos).mp (by omega)
  have hlt : i < (df.fragmentStartingNum - 1 + df.fragmentsInSubmessage) * x.fragmentSize :=
    (Nat.div_lt_iff_lt_mul x.fragmentSize_pos).mp (by omega)
  rw [Nat.add_mul] at hlt
  refine ⟨hge, ?_⟩
  rw [(h.expectedLen_eq hdf).1]
  simp only [FragmentedSample.slice, List.length_take, List.length_drop]
  omega

theorem Holds.accept (hdf : x.Carries df) :
    ∃ b', b.accept df = (b', none) ∧ b'.Holds x (covered ∪ df.covers) := by
  obtain ⟨hlen, hend⟩ := h.expectedLen_eq hdf
  obtain ⟨padding, hpayload, hpad⟩ := hdf.payload
  have htake : df.serializedPayload.take (b.expectedLen df) =
      x.slice df.fragmentStartingNum df.fragmentsInSubmessage := by
    rw [hpayload, hlen, List.take_left]
  have hfits : b.payloadFits df = true := by
    simp only [payloadFits, Bool.and_eq_true, Bool.or_eq_true, decide_eq_true_eq, hpayload,
      List.length_append, hlen, hdf.lastFrag_eq, h.totalFragments]
    refine ⟨by omega, ?_⟩
    by_cases hlast : df.fragmentStartingNum + df.fragmentsInSubmessage ≤ x.total
    · exact .inr (by simp [hpad hlast])
    · exact .inl (by omega)
  have hkey : ((df.inlineQos.bind InlineQos.findKeyHash).any fun key =>
      b.keyHash.any fun previous => previous ≠ key) = false := by
    cases hk : df.inlineQos.bind InlineQos.findKeyHash with
    | none => rfl
    | some key =>
      cases hp : b.keyHash with
      | none => rfl
      | some previous =>
        have : previous = key :=
          Option.some.inj ((h.keyHash _ hp).symm.trans (hdf.keyHash _ hk))
        simp [this]
  unfold FragmentBuffer.accept
  rw [hfits, hkey, if_neg (by simp), if_neg (by simp)]
  rw [if_neg (by rw [h.fragmentSize, h.length]; omega)]
  have hchunk : (df.fragmentStartingNum - 1) * x.fragmentSize +
      (x.slice df.fragmentStartingNum df.fragmentsInSubmessage).length ≤ b.data.length := by
    rw [h.length, ← hlen]
    exact hend
  refine ⟨_, rfl, h.sampleSize, h.fragmentSize, h.totalFragments, ?_, ?_, ?_, ?_, ?_⟩
  · simp [h.received]
  · refine Finset.union_subset h.subset fun f hf => ?_
    have := Finset.mem_Ico.mp hf
    have := hdf.in_range
    have := hdf.start_pos
    exact Finset.mem_Icc.mpr (by omega)
  · simp only [htake, h.fragmentSize]
    rw [length_overwrite hchunk, h.length]
  · intro i hi hf
    simp only [htake, h.fragmentSize]
    rw [getElem?_overwrite hchunk, ← hlen]
    split
    · next hin =>
      simp only [FragmentedSample.slice]
      rw [List.getElem?_take_of_lt, List.getElem?_drop]
      · congr 1
        omega
      · have : b.expectedLen df ≤ df.fragmentsInSubmessage * x.fragmentSize := by
          rw [hlen]
          simp [FragmentedSample.slice]
        omega
    · next hout =>
      refine h.data i hi ?_
      rcases Finset.mem_union.mp hf with hf | hf
      · exact hf
      · exact absurd (h.mem_covers_octet hdf hi hf) hout
  · intro key hk
    simp only [noteInlineQos] at hk
    cases hq : df.inlineQos.bind InlineQos.findKeyHash with
    | none =>
      rw [hq, Option.none_or] at hk
      exact h.keyHash key hk
    | some k =>
      rw [hq, Option.some_or] at hk
      exact hdf.keyHash key (hq.trans hk)

theorem Holds.missingNums_eq : b.missingNums = x.uncovered covered := by
  rw [missingNums, uncovered, h.totalFragments, h.received]

theorem Holds.iterSet_missing (first : Nat) (hfirst : (x.uncovered covered).head? = some first) :
    b.missing.iterSet = (x.uncovered covered).filter (· < first + rtpsBitmapMaxBits) := by
  have ht := x.total_pos
  have hmem : ∀ f ∈ x.uncovered covered, 1 ≤ f ∧ f ≤ x.total := fun f hf => by
    have := List.mem_range'_1.mp (List.mem_of_mem_filter hf)
    omega
  have hsorted : (x.uncovered covered).Pairwise (· < ·) :=
    (List.pairwise_lt_range' (s := 1) (n := x.total)).filter _
  unfold missing
  rw [if_neg (by rw [h.totalFragments]; omega), h.missingNums_eq, hfirst, Option.getD_some]
  refine FragmentNumberSet.iterSet_fromMissing hsorted (fun f hf => ?_) fun f hf => ?_
  · obtain ⟨rest, hl⟩ : ∃ rest, x.uncovered covered = first :: rest := by
      cases hl : x.uncovered covered with
      | nil => simp [hl] at hfirst
      | cons a rest => exact ⟨rest, by simpa [hl] using hfirst⟩
    rw [hl] at hf hsorted
    rcases List.mem_cons.mp hf with rfl | hf
    · exact le_refl f
    · exact le_of_lt ((List.pairwise_cons.mp hsorted).1 f hf)
  · have := hmem f hf
    have := x.total_le
    unfold u32Max at this
    omega

end

end FragmentBuffer
namespace FragmentAssembler

open FragmentedSample

/-- The assembler follows the sample: nothing but its number and the numbers of
`others` is in flight, and its buffer has what is covered. -/
structure Follows (a : FragmentAssembler) (x : FragmentedSample) (others : Finset Int)
    (caps : AssemblerCaps) (covered : Finset Nat) : Prop where
  caps_eq : a.caps = caps
  keys : ∀ sn ∈ a.buffers.keys, sn = x.sn ∨ sn ∈ others
  absent : covered = ∅ → a.buffers.get? x.sn = none
  present : covered ≠ ∅ → ∃ b, a.buffers.get? x.sn = some b ∧ b.Holds x covered

def Stream (x : FragmentedSample) (others : Finset Int) (df : DataFragSubmessage) : Prop :=
  x.Carries df ∨ df.writerSn ∈ others

section

variable {x : FragmentedSample} {others : Finset Int} {caps : AssemblerCaps}

theorem new_follows (x : FragmentedSample) (others : Finset Int) (caps : AssemblerCaps) :
    (new caps).Follows x others caps ∅ where
  caps_eq := rfl
  keys sn h := by simp [new, SortedMap.empty, SortedMap.keys] at h
  absent _ := rfl
  present h := absurd rfl h

variable {a : FragmentAssembler} {covered : Finset Nat}

theorem Follows.makeRoom_eq (h : a.Follows x others caps covered)
    (hroom : others.card + 1 ≤ caps.maxPendingSns) {sn : Int} (hsn : sn = x.sn ∨ sn ∈ others) :
    a.makeRoom sn = some a := by
  unfold makeRoom
  split
  · next hfull =>
    obtain ⟨hnew, hsize⟩ := hfull
    have hnotin : sn ∉ a.buffers.keys := fun hk =>
      hnew (contains_iff.mpr (mem_keys.mp hk))
    have hsub : Insert.insert sn a.buffers.keys.toFinset ⊆ Insert.insert x.sn others := by
      intro k hk
      rw [Finset.mem_insert, List.mem_toFinset] at hk
      rw [Finset.mem_insert]
      rcases hk with rfl | hk
      · exact hsn
      · exact h.keys k hk
    have hcard := Finset.card_le_card hsub
    rw [Finset.card_insert_of_notMem (by simpa using hnotin),
      List.toFinset_card_of_nodup a.buffers.keys_nodup, ← size_eq_length_keys] at hcard
    have := Finset.card_insert_le x.sn others
    rw [h.caps_eq] at hsize
    omega
  · rfl

variable {df : DataFragSubmessage}

section

variable (h : a.Follows x others caps covered)
include h

section

variable (hroom : others.card + 1 ≤ caps.maxPendingSns)
include hroom

theorem Follows.insert_carries (hbytes : x.payload.length ≤ caps.maxSampleBytes)
    (hsize : x.fragmentSize ≤ caps.maxFragmentSize) (hdf : x.Carries df) :
    (a.insert df).1.Follows x others caps (x.coveredStep covered df) ∧
      (if covered ∪ df.covers = Finset.Icc 1 x.total then
        ∃ c, (a.insert df).2 = some c ∧ c.sequenceNumber = x.sn ∧ c.payload = x.payload
      else (a.insert df).2 = none) := by
  -- the buffer it goes into holds what is covered so far
  obtain ⟨b, hb, hholds⟩ : ∃ b, a.bufferFor df = some b ∧ b.Holds x covered := by
    unfold bufferFor
    rw [hdf.writerSn]
    by_cases hc : covered = ∅
    · rw [h.absent hc, hdf.sampleSize, hdf.fragmentSize]
      exact ⟨_, rfl, hc ▸ FragmentBuffer.new_holds x⟩
    · obtain ⟨b, hget, hholds⟩ := h.present hc
      rw [hget]
      refine ⟨b, if_neg ?_, hholds⟩
      rw [hholds.sampleSize, hholds.fragmentSize, hdf.sampleSize, hdf.fragmentSize]
      simp
  obtain ⟨b', haccept, hholds'⟩ := hholds.accept hdf
  have hne : covered ∪ df.covers ≠ ∅ := by
    have : df.fragmentStartingNum ∈ df.covers :=
      Finset.mem_Ico.mpr (by have := hdf.count_pos; omega)
    exact Finset.ne_empty_of_mem (Finset.mem_union_right _ this)
  rw [insert_of_accept (h.caps_eq ▸ hdf.gate_eq_none hbytes hsize)
    (h.makeRoom_eq hroom (.inl hdf.writerSn)) hb haccept, coveredStep, if_pos hdf.writerSn,
    hdf.writerSn]
  by_cases hfull : covered ∪ df.covers = Finset.Icc 1 x.total
  · rw [if_pos (hholds'.isComplete_iff.mpr hfull), if_pos hfull, if_pos hfull]
    refine ⟨⟨h.caps_eq, fun sn hsn => ?_, fun _ => by simp, fun hc => absurd rfl hc⟩,
      _, rfl, rfl, ?_⟩
    · obtain ⟨v, hv⟩ := mem_keys.mp hsn
      rw [get?_erase] at hv
      split at hv
      · simp at hv
      · exact h.keys sn (mem_keys.mpr ⟨v, hv⟩)
    · exact (hfull ▸ hholds').data_eq
  · rw [if_neg (fun hcomp => hfull (hholds'.isComplete_iff.mp hcomp)), if_neg hfull,
      if_neg hfull]
    refine ⟨⟨h.caps_eq, fun sn hsn => ?_, fun hc => absurd hc hne,
      fun _ => ⟨b', by simp, hholds'⟩⟩, rfl⟩
    obtain ⟨v, hv⟩ := mem_keys.mp hsn
    rw [get?_insert] at hv
    split at hv
    · next he => exact .inl he
    · exact h.keys sn (mem_keys.mpr ⟨v, hv⟩)

theorem Follows.insert_other (hx : x.sn ∉ others) (hdf : df.writerSn ∈ others) :
    (a.insert df).1.Follows x others caps (x.coveredStep covered df) := by
  have hne : df.writerSn ≠ x.sn := fun e => hx (e ▸ hdf)
  obtain ⟨hcaps, hget⟩ := insert_frame (h.makeRoom_eq hroom (.inr hdf))
  rw [coveredStep, if_neg hne]
  refine ⟨hcaps.trans h.caps_eq, fun sn hsn => ?_, fun hc => ?_, fun hc => ?_⟩
  · by_cases he : sn = df.writerSn
    · exact .inr (he ▸ hdf)
    · rw [mem_keys, hget sn he, ← mem_keys] at hsn
      exact h.keys sn hsn
  · rw [hget _ hne.symm]
    exact h.absent hc
  · rw [hget _ hne.symm]
    exact h.present hc

theorem Follows.run (hx : x.sn ∉ others) (hbytes : x.payload.length ≤ caps.maxSampleBytes)
    (hsize : x.fragmentSize ≤ caps.maxFragmentSize) {dfs : List DataFragSubmessage}
    (hdfs : ∀ df ∈ dfs, Stream x others df) :
    (run insert a dfs).1.Follows x others caps (dfs.foldl x.coveredStep covered) := by
  induction dfs generalizing a covered with
  | nil => exact h
  | cons df dfs ih =>
    have hnext : (a.insert df).1.Follows x others caps (x.coveredStep covered df) := by
      rcases hdfs df List.mem_cons_self with hdf | hdf
      · exact (h.insert_carries hroom hbytes hsize hdf).1
      · exact h.insert_other hroom hx hdf
    exact ih hnext fun df' h' => hdfs df' (List.mem_cons_of_mem df h')

end

end

end

/-- Reassembly is exact.  After any DATA_FRAGs of the sample and of other numbers
within the cap, the next bundle of the sample hands it out, octet for octet, if
and only if it completes what has arrived since the sample was last handed out;
and once something of it has arrived, the fragments reported missing are the
uncovered ones among the 256 from the least uncovered one on. -/
theorem insert_completes_iff_covered (x : FragmentedSample) (others : Finset Int)
    (caps : AssemblerCaps) (hx : x.sn ∉ others) (hroom : others.card + 1 ≤ caps.maxPendingSns)
    (hbytes : x.payload.length ≤ caps.maxSampleBytes)
    (hsize : x.fragmentSize ≤ caps.maxFragmentSize) (dfs : List DataFragSubmessage)
    (hdfs : ∀ df ∈ dfs, Stream x others df) :
    let a := (run insert (new caps) dfs).1
    (∀ df, x.Carries df →
      ((a.insert df).2.isSome = true ↔ x.covered dfs ∪ df.covers = Finset.Icc 1 x.total) ∧
      ∀ c, (a.insert df).2 = some c → c.sequenceNumber = x.sn ∧ c.payload = x.payload) ∧
    (x.covered dfs ≠ ∅ → ∃ first, (x.uncovered (x.covered dfs)).head? = some first ∧
      (a.missingFragments x.sn).iterSet =
        (x.uncovered (x.covered dfs)).filter (· < first + rtpsBitmapMaxBits)) := by
  intro a
  have hfollows : a.Follows x others caps (x.covered dfs) :=
    (new_follows x others caps).run hroom hx hbytes hsize hdfs
  refine ⟨fun df hdf => ?_, fun hne => ?_⟩
  · obtain ⟨-, hout⟩ := hfollows.insert_carries hroom hbytes hsize hdf
    by_cases hfull : x.covered dfs ∪ df.covers = Finset.Icc 1 x.total
    · rw [if_pos hfull] at hout
      obtain ⟨c, hc, hsn, hpayload⟩ := hout
      refine ⟨by simp [hc, hfull], fun c' hc' => ?_⟩
      obtain rfl : c = c' := Option.some.inj (hc.symm.trans hc')
      exact ⟨hsn, hpayload⟩
    · rw [if_neg hfull] at hout
      exact ⟨by simp [hout, hfull], fun c hc => by simp [hout] at hc⟩
  · obtain ⟨b, hget, hholds⟩ := hfollows.present hne
    obtain ⟨first, hfirst⟩ :=
      x.uncovered_head?_of_ne_full hholds.subset (x.covered_ne_full dfs)
    refine ⟨first, hfirst, ?_⟩
    unfold missingFragments
    rw [hget]
    exact hholds.iterSet_missing first hfirst

def threeOctets : FragmentedSample where
  sn := 1
  payload := [10, 20, 30]
  fragmentSize := 2
  keyHash := none
  payload_pos := by decide
  payload_le := by decide
  fragmentSize_pos := by decide

def threeOctetsFragment (number : Nat) (payload : Octets) : DataFragSubmessage where
  inlineQos := none
  extraFlags := 0
  readerId := EntityId.userReaderWithKey 0x40 0x50 0x60
  writerId := EntityId.userWriterWithKey 0x10 0x20 0x30
  writerSn := 1
  fragmentStartingNum := number
  fragmentsInSubmessage := 1
  fragmentSize := 2
  sampleSize := 3
  serializedPayload := payload
  inlineQosFlag := false
  keyFlag := false
  nonStandardFlag := false

theorem threeOctets_carries_second :
    threeOctets.Carries (threeOctetsFragment 2 [30, 0, 0, 0]) where
  writerSn := rfl
  sampleSize := rfl
  fragmentSize := rfl
  start_pos := by decide
  count_pos := by decide
  in_range := by decide
  payload := ⟨[0, 0, 0], by decide, fun h => absurd h (by decide)⟩
  keyHash key h := by simp [threeOctetsFragment] at h

theorem threeOctets_carries_first : threeOctets.Carries (threeOctetsFragment 1 [10, 20]) where
  writerSn := rfl
  sampleSize := rfl
  fragmentSize := rfl
  start_pos := by decide
  count_pos := by decide
  in_range := by decide
  payload := ⟨[], by decide, fun _ => rfl⟩
  keyHash key h := by simp [threeOctetsFragment] at h

/-- The padded second fragment, then the first: the first is reported missing
and completes the sample. -/
theorem insert_completes_threeOctets :
    let a := (run insert (new AssemblerCaps.default) [threeOctetsFragment 2 [30, 0, 0, 0]]).1
    (a.insert (threeOctetsFragment 1 [10, 20])).2.isSome = true ∧
      (a.missingFragments 1).iterSet = [1] := by
  intro a
  have h := insert_completes_iff_covered threeOctets ∅ AssemblerCaps.default (by decide)
    (by decide) (by decide) (by decide) [threeOctetsFragment 2 [30, 0, 0, 0]]
    (fun df hdf => .inl (List.mem_singleton.mp hdf ▸ threeOctets_carries_second))
  refine ⟨(h.1 _ threeOctets_carries_first).1.mpr (by decide), ?_⟩
  obtain ⟨first, hfirst, hset⟩ := h.2 (by decide)
  obtain rfl : first = 1 := Option.some.inj (hfirst.symm.trans (by decide))
  exact hset.trans (by decide)

/-- Before the first bundle of a sample arrives the assembler knows nothing of
it, and reports no fragment missing. -/
theorem missingFragments_empty_before_first_bundle :
    ¬ ∀ (x : FragmentedSample) (caps : AssemblerCaps) (dfs : List DataFragSubmessage),
      1 ≤ caps.maxPendingSns → x.payload.length ≤ caps.maxSampleBytes →
      x.fragmentSize ≤ caps.maxFragmentSize → (∀ df ∈ dfs, x.Carries df) →
      ∀ first, (x.uncovered (x.covered dfs)).head? = some first →
        ((run insert (new caps) dfs).1.missingFragments x.sn).iterSet =
          (x.uncovered (x.covered dfs)).filter (· < first + rtpsBitmapMaxBits) := by
  intro h
  have := h threeOctets AssemblerCaps.default [] (by decide) (by decide) (by decide)
    (by simp) 1 (by decide)
  exact absurd this (by decide)

end FragmentAssembler
end ZeroDds.Rtps
