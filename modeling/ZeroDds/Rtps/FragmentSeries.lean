/-
A series of fragments in the assembler.
-/
import ZeroDds.Rtps.FragmentsAsData

namespace ZeroDds.Rtps

def FragmentedSample.carried (dfs : List DataFragSubmessage) : Finset Nat :=
  dfs.foldr (fun df covered => df.covers ∪ covered) ∅

structure DataSubmessage.HasPart (d : DataSubmessage) (x : FragmentedSample)
    (df : DataFragSubmessage) : Prop where
  carries : x.Carries df
  writerId : df.writerId = d.writerId
  inlineQos : df.inlineQos = d.inlineQos
  keyFlag : df.keyFlag = d.keyFlag
  nonStandardFlag : df.nonStandardFlag = d.nonStandardFlag

structure DataSubmessage.Series (d : DataSubmessage) (x : FragmentedSample)
    (dfs : List DataFragSubmessage) : Prop where
  sn : x.sn = d.writerSn
  payload : x.payload = d.serializedPayload
  parts : ∀ df ∈ dfs, d.HasPart x df
  once : dfs.Pairwise fun df df' => Disjoint df.covers df'.covers
  complete : FragmentedSample.carried dfs = Finset.Icc 1 x.total

structure AssemblerCaps.Take (caps : AssemblerCaps) (x : FragmentedSample) : Prop where
  pending : 1 ≤ caps.maxPendingSns
  bytes : x.payload.length ≤ caps.maxSampleBytes
  fragment : x.fragmentSize ≤ caps.maxFragmentSize

namespace FragmentedSample

variable {x : FragmentedSample} {dfs : List DataFragSubmessage} {df : DataFragSubmessage}

@[simp] theorem carried_nil : carried [] = ∅ := rfl

@[simp] theorem carried_cons (df : DataFragSubmessage) (dfs : List DataFragSubmessage) :
    carried (df :: dfs) = df.covers ∪ carried dfs := rfl

theorem mem_carried {k : Nat} : k ∈ carried dfs ↔ ∃ df ∈ dfs, k ∈ df.covers := by
  induction dfs with
  | nil => simp
  | cons df dfs ih => simp [ih]

theorem Carries.start_mem (h : x.Carries df) : df.fragmentStartingNum ∈ df.covers :=
  Finset.mem_Ico.mpr (by have := h.count_pos; omega)

theorem Carries.covers_subset (h : x.Carries df) : df.covers ⊆ Finset.Icc 1 x.total := by
  intro k hk
  have hk := Finset.mem_Ico.mp hk
  have := h.in_range
  have := h.start_pos
  exact Finset.mem_Icc.mpr (by omega)

theorem carried_subset (h : ∀ df ∈ dfs, x.Carries df) : carried dfs ⊆ Finset.Icc 1 x.total := by
  intro k hk
  obtain ⟨df, hdf, hk⟩ := mem_carried.mp hk
  exact (h df hdf).covers_subset hk

theorem ne_full_of_union {covered : Finset Nat} (h : ∀ df ∈ dfs, x.Carries df)
    (hne : covered ∪ carried dfs ≠ Finset.Icc 1 x.total) : covered ≠ Finset.Icc 1 x.total := by
  rintro rfl
  exact hne (Finset.union_eq_left.mpr (carried_subset h))

theorem exists_completing {covered : Finset Nat} (hne : covered ≠ Finset.Icc 1 x.total)
    (hfull : covered ∪ carried dfs = Finset.Icc 1 x.total) :
    ∃ before last rest, dfs = before ++ last :: rest ∧
      covered ∪ carried before ≠ Finset.Icc 1 x.total ∧
      covered ∪ carried before ∪ last.covers = Finset.Icc 1 x.total := by
  induction dfs generalizing covered with
  | nil => exact absurd (by simpa using hfull) hne
  | cons df dfs ih =>
    by_cases hdf : covered ∪ df.covers = Finset.Icc 1 x.total
    · exact ⟨[], df, dfs, rfl, by simpa using hne, by simpa using hdf⟩
    · obtain ⟨before, last, rest, rfl, hbefore, hlast⟩ := ih hdf (by
        rw [Finset.union_assoc, ← carried_cons]
        exact hfull)
      rw [Finset.union_assoc covered, ← carried_cons] at hbefore hlast
      exact ⟨df :: before, last, rest, rfl, hbefore, hlast⟩

end FragmentedSample

/-! ### What the buffer notes -/

namespace FragmentBuffer

structure Notes (b : FragmentBuffer) (d : DataSubmessage) : Prop where
  keyHash : b.keyHash = d.inlineQos.bind InlineQos.findKeyHash
  inlineQos : b.inlineQos = d.inlineQos
  keyFlag : b.keyFlag = d.keyFlag

structure Blank (b : FragmentBuffer) : Prop where
  keyHash : b.keyHash = none
  inlineQos : b.inlineQos = none
  keyFlag : b.keyFlag = false

variable {b b' : FragmentBuffer} {d : DataSubmessage} {x : FragmentedSample}
  {df : DataFragSubmessage}

theorem noteInlineQos_notes (hdf : d.HasPart x df) (hb : b.Blank ∨ b.Notes d) :
    (b.noteInlineQos df).Notes d := by
  simp only [noteInlineQos, hdf.inlineQos, hdf.keyFlag]
  rcases hb with hb | hb
  · refine ⟨by simp [hb.keyHash], ?_, by simp [hb.keyFlag]⟩
    simp only [hb.inlineQos]
    cases d.inlineQos <;> simp
  · refine ⟨?_, ?_, by simp [hb.keyFlag]⟩
    · simp [hb.keyHash]
    · simp only [hb.inlineQos, ite_self]

theorem accept_notes (h : b.accept df = (b', none)) (hdf : d.HasPart x df)
    (hb : b.Blank ∨ b.Notes d) : b'.Notes d := by
  have hnotes := noteInlineQos_notes hdf hb
  unfold accept at h
  simp only at h
  split_ifs at h with hfits hkey hlong
  · cases h
  · cases h
  · cases h
  · obtain ⟨rfl, -⟩ := Prod.mk.inj h
    exact ⟨hnotes.keyHash, hnotes.inlineQos, hnotes.keyFlag⟩

end FragmentBuffer

/-! ### The series in the assembler -/

namespace FragmentAssembler

open FragmentedSample

structure Gathers (a : FragmentAssembler) (d : DataSubmessage) (x : FragmentedSample)
    (covered : Finset Nat) : Prop where
  absent : covered = ∅ → a.buffers.get? x.sn = none
  present : covered ≠ ∅ →
    ∃ b, a.buffers.get? x.sn = some b ∧ b.Holds x covered ∧ b.Notes d

variable {a : FragmentAssembler} {d : DataSubmessage} {x : FragmentedSample}
  {covered : Finset Nat} {df : DataFragSubmessage}

theorem makeRoom_of_pending (h : 1 ≤ a.caps.maxPendingSns) (sn : Int) :
    ∃ a', a.makeRoom sn = some a' ∧ a'.caps = a.caps ∧
      a'.buffers.get? sn = a.buffers.get? sn := by
  unfold makeRoom
  by_cases hfull : ¬a.buffers.contains sn = true ∧ a.buffers.size ≥ a.caps.maxPendingSns
  · rw [if_pos hfull]
    obtain ⟨hnew, hsize⟩ := hfull
    cases hmin : a.buffers.minKey? with
    | none =>
      have hempty : a.buffers.size = 0 := by
        simpa [SortedMap.minKey?, SortedMap.first?, SortedMap.size] using hmin
      omega
    | some oldest =>
      obtain ⟨⟨b, hb⟩, -⟩ := SortedMap.minKey?_eq_some.mp hmin
      have hne : sn ≠ oldest := by
        rintro rfl
        exact hnew (SortedMap.contains_iff.mpr ⟨b, hb⟩)
      refine ⟨_, rfl, rfl, ?_⟩
      simp [recordDrop, SortedMap.get?_erase, hne]
  · rw [if_neg hfull]
    exact ⟨a, rfl, rfl, rfl⟩

theorem Gathers.bufferFor (h : a.Gathers d x covered) (hdf : x.Carries df) :
    ∃ b, a.bufferFor df = some b ∧ b.Holds x covered ∧ (b.Blank ∨ b.Notes d) := by
  unfold FragmentAssembler.bufferFor
  rw [hdf.writerSn]
  by_cases hc : covered = ∅
  · rw [h.absent hc, hdf.sampleSize, hdf.fragmentSize]
    exact ⟨_, rfl, hc ▸ FragmentBuffer.new_holds x, .inl ⟨rfl, rfl, rfl⟩⟩
  · obtain ⟨b, hget, hholds, hnotes⟩ := h.present hc
    rw [hget]
    refine ⟨b, if_neg ?_, hholds, .inr hnotes⟩
    rw [hholds.sampleSize, hholds.fragmentSize, hdf.sampleSize, hdf.fragmentSize]
    simp

theorem Gathers.insert (h : a.Gathers d x covered) (hcaps : a.caps.Take x)
    (hpayload : x.payload = d.serializedPayload) (hdf : d.HasPart x df) :
    (a.insert df).1.caps = a.caps ∧
      if covered ∪ df.covers = Finset.Icc 1 x.total then
        (a.insert df).1.Gathers d x ∅ ∧ ∃ c, (a.insert df).2 = some c ∧ d.ReassembledAs c
      else (a.insert df).1.Gathers d x (covered ∪ df.covers) ∧ (a.insert df).2 = none := by
  obtain ⟨a', hroom, hcaps', hget⟩ := a.makeRoom_of_pending hcaps.pending df.writerSn
  have hgathers : a'.Gathers d x covered := by
    rw [hdf.carries.writerSn] at hget
    exact ⟨fun hc => hget.trans (h.absent hc), fun hc => hget ▸ h.present hc⟩
  obtain ⟨b, hb, hholds, hnotes⟩ := hgathers.bufferFor hdf.carries
  obtain ⟨b', haccept, hholds'⟩ := hholds.accept hdf.carries
  have hnotes' := FragmentBuffer.accept_notes haccept hdf hnotes
  have hne : covered ∪ df.covers ≠ ∅ :=
    Finset.ne_empty_of_mem (Finset.mem_union_right _ hdf.carries.start_mem)
  rw [insert_of_accept (hdf.carries.gate_eq_none hcaps.bytes hcaps.fragment) hroom hb haccept,
    hdf.carries.writerSn]
  by_cases hfull : covered ∪ df.covers = Finset.Icc 1 x.total
  · rw [if_pos (hholds'.isComplete_iff.mpr hfull), if_pos hfull]
    refine ⟨hcaps', ⟨fun _ => by simp, fun hc => absurd rfl hc⟩, _, rfl, hnotes'.keyHash,
      hnotes'.inlineQos, ?_, hnotes'.keyFlag⟩
    exact (hfull ▸ hholds').data_eq.trans hpayload
  · rw [if_neg fun hcomp => hfull (hholds'.isComplete_iff.mp hcomp), if_neg hfull]
    exact ⟨hcaps', ⟨fun hc => absurd hc hne, fun _ => ⟨b', by simp, hholds', hnotes'⟩⟩, rfl⟩

end FragmentAssembler
end ZeroDds.Rtps
