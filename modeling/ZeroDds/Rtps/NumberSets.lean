/-
Number sets on the wire.

The two readers of a number set differ in the width of the base and in their texts, so one
definition carries both.
-/
import ZeroDds.Rtps.Submessages

namespace ZeroDds.Rtps

variable (littleEndian : Bool)

def wordsToBytes (words : Bitmap) : Octets :=
  words.flatMap fun w => u32ToBytes littleEndian w.toNat

def wordsOfBytes : Nat → Octets → Bitmap
  | 0, _ => []
  | count + 1, b =>
    BitVec.ofNat 32 (u32OfBytes littleEndian b) :: wordsOfBytes count (b.drop 4)

/-- A base of `baseLen` octets, the number of bits and the words, read at `offset`. -/
def readSet {α σ : Type} (make : α → Nat → Bitmap → σ) (baseLen : Nat)
    (baseOf : Bool → Octets → α) (belowOne : α → Nat → Bool) (tooManyBits baseText : String)
    (bytes : Octets) (offset : Nat) : Except WireError (σ × Nat) :=
  let pos := offset + baseLen
  if bytes.length < pos then .error (.unexpectedEof baseLen offset)
  else if bytes.length < pos + 4 then .error (.unexpectedEof 4 pos)
  else
    let base := baseOf littleEndian (bytes.drop offset)
    let numBits := u32OfBytes littleEndian (bytes.drop pos)
    let need := Bitmap.words numBits * 4
    if rtpsBitmapMaxBits < numBits then .error (.valueOutOfRange tooManyBits)
    else if belowOne base numBits then .error (.valueOutOfRange baseText)
    else if bytes.length < pos + 4 + need then .error (.unexpectedEof need (pos + 4))
    else
      .ok (make base numBits
        (wordsOfBytes littleEndian (Bitmap.words numBits) (bytes.drop (pos + 4))), pos + 4 + need)

namespace SequenceNumberSet

def encodedSize (s : SequenceNumberSet) : Nat := wireSize s.numBits

def writeTo (s : SequenceNumberSet) (out : Octets) : Octets :=
  out ++ (sequenceNumberToBytes littleEndian s.bitmapBase ++
    (u32ToBytes littleEndian s.numBits ++ wordsToBytes littleEndian s.bitmap))

def readFromWith (bytes : Octets) (offset : Nat) (acceptEmptyBaseZero : Bool) :
    Except WireError (SequenceNumberSet × Nat) :=
  readSet littleEndian mk 8 sequenceNumberOfBytes
    (fun base numBits => base < 1 ∧ ¬(acceptEmptyBaseZero ∧ base = 0 ∧ numBits = 0))
    "SequenceNumberSet.numBits exceeds RTPS_BITMAP_MAX_BITS (256)"
    "SequenceNumberSet.bitmapBase below 1 (DDSI-RTPS 2.5 §9.4.2.6)" bytes offset

def readFrom (bytes : Octets) (offset : Nat) : Except WireError (SequenceNumberSet × Nat) :=
  readFromWith littleEndian bytes offset false

end SequenceNumberSet

namespace FragmentNumberSet

def encodedSize (s : FragmentNumberSet) : Nat := wireSize s.numBits

def writeTo (s : FragmentNumberSet) (out : Octets) : Octets :=
  out ++ (u32ToBytes littleEndian s.bitmapBase ++
    (u32ToBytes littleEndian s.numBits ++ wordsToBytes littleEndian s.bitmap))

def readFrom (bytes : Octets) (offset : Nat) : Except WireError (FragmentNumberSet × Nat) :=
  readSet littleEndian mk 4 u32OfBytes (fun base _ => base < 1)
    "FragmentNumberSet.numBits exceeds RTPS_BITMAP_MAX_BITS (256)"
    "FragmentNumberSet.bitmapBase below 1 (DDSI-RTPS 2.5 §9.4.2.8)" bytes offset

end FragmentNumberSet

variable {littleEndian}

theorem length_u32ToBytes (n : Nat) : (u32ToBytes littleEndian n).length = 4 := by
  cases littleEndian <;> rfl

theorem u32OfBytes_u32ToBytes {n : Nat} (hn : n < 4294967296) (rest : Octets) :
    u32OfBytes littleEndian (u32ToBytes littleEndian n ++ rest) = n := by
  cases littleEndian <;> simp [u32OfBytes, u32ToBytes] <;> omega

theorem length_sequenceNumberToBytes (sn : Int) :
    (sequenceNumberToBytes littleEndian sn).length = 8 := by
  simp [sequenceNumberToBytes, length_u32ToBytes]

theorem sequenceNumberOfBytes_toBytes {sn : Int} (hpos : 0 ≤ sn) (hmax : sn ≤ i64Max)
    (rest : Octets) :
    sequenceNumberOfBytes littleEndian (sequenceNumberToBytes littleEndian sn ++ rest) = sn := by
  unfold i64Max at hmax
  simp only [sequenceNumberToBytes, sequenceNumberOfBytes, i32OfBytes, List.append_assoc]
  have hlow : (sn % 18446744073709551616).toNat % 4294967296 < 4294967296 := by omega
  rw [List.drop_left' (length_u32ToBytes _), u32OfBytes_u32ToBytes hlow,
    u32OfBytes_u32ToBytes (by omega)]
  split <;> omega

theorem wordsOfBytes_toBytes (words : Bitmap) (rest : Octets) :
    wordsOfBytes littleEndian words.length (wordsToBytes littleEndian words ++ rest) = words := by
  induction words with
  | nil => rfl
  | cons w words ih =>
    have hw : w.toNat < 4294967296 := w.isLt
    rw [wordsToBytes, List.flatMap_cons, List.length_cons, wordsOfBytes, List.append_assoc,
      u32OfBytes_u32ToBytes hw, List.drop_left' (length_u32ToBytes _), BitVec.ofNat_toNat,
      BitVec.setWidth_eq]
    rw [← wordsToBytes, ih]

theorem length_wordsToBytes (words : Bitmap) :
    (wordsToBytes littleEndian words).length = words.length * 4 := by
  simp [wordsToBytes, List.length_flatMap, length_u32ToBytes]

theorem readSet_at {α σ : Type} {make : α → Nat → Bitmap → σ} {baseLen : Nat}
    {baseOf : Bool → Octets → α} {belowOne : α → Nat → Bool} {tooManyBits baseText : String}
    {out baseBytes after : Octets} {base : α} {numBits : Nat} {words : Bitmap}
    (hlen : baseBytes.length = baseLen)
    (hbase : ∀ rest, baseOf littleEndian (baseBytes ++ rest) = base)
    (hbits : numBits ≤ rtpsBitmapMaxBits) (hone : belowOne base numBits = false)
    (hwords : words.length = Bitmap.words numBits) :
    readSet littleEndian make baseLen baseOf belowOne tooManyBits baseText
        (out ++ (baseBytes ++ (u32ToBytes littleEndian numBits ++
          wordsToBytes littleEndian words)) ++ after) out.length =
      .ok (make base numBits words, out.length + baseLen + 4 + Bitmap.words numBits * 4) := by
  have hsmall : numBits < 4294967296 := lt_of_le_of_lt hbits (by decide)
  generalize hbytes : out ++ (baseBytes ++ (u32ToBytes littleEndian numBits ++
    wordsToBytes littleEndian words)) ++ after = bytes
  simp only [List.append_assoc] at hbytes
  have hdrop : bytes.drop out.length = baseBytes ++ (u32ToBytes littleEndian numBits ++
      (wordsToBytes littleEndian words ++ after)) := by rw [← hbytes, List.drop_left' rfl]
  have hdropBits : bytes.drop (out.length + baseLen) = u32ToBytes littleEndian numBits ++
      (wordsToBytes littleEndian words ++ after) := by
    rw [← List.drop_drop, hdrop, List.drop_left' hlen]
  have hdropWords : bytes.drop (out.length + baseLen + 4) =
      wordsToBytes littleEndian words ++ after := by
    rw [← List.drop_drop, hdropBits, List.drop_left' (length_u32ToBytes _)]
  have hlength : bytes.length = out.length + baseLen + 4 + words.length * 4 + after.length := by
    rw [← hbytes]
    simp only [List.length_append, hlen, length_u32ToBytes, length_wordsToBytes]
    omega
  simp only [readSet, hdrop, hdropBits, hdropWords, hbase, u32OfBytes_u32ToBytes hsmall, hone,
    ← hwords, wordsOfBytes_toBytes]
  rw [if_neg (by omega), if_neg (by omega), if_neg (by omega), if_neg Bool.false_ne_true,
    if_neg (by omega)]

theorem SequenceNumberSet.fromMissing_sized (base : Int) (missing : List Int) :
    let s := fromMissing base missing
    s.bitmapBase = base ∧ s.numBits ≤ rtpsBitmapMaxBits ∧
      s.bitmap.length = Bitmap.words s.numBits := by
  have hempty : ([] : Bitmap).length = Bitmap.words 0 := by decide
  unfold fromMissing
  split
  · exact ⟨rfl, Nat.zero_le _, hempty⟩
  · split
    · exact ⟨rfl, Nat.zero_le _, hempty⟩
    · exact ⟨rfl, min_le_right _ _, Bitmap.length_ofPositions _ _⟩

theorem FragmentNumberSet.fromMissing_sized (base : Nat) (missing : List Nat) :
    let s := fromMissing base missing
    s.bitmapBase = base ∧ s.numBits ≤ rtpsBitmapMaxBits ∧
      s.bitmap.length = Bitmap.words s.numBits := by
  have hempty : ([] : Bitmap).length = Bitmap.words 0 := by decide
  unfold fromMissing
  split
  · exact ⟨rfl, Nat.zero_le _, hempty⟩
  · split
    · exact ⟨rfl, Nat.zero_le _, hempty⟩
    · exact ⟨rfl, min_le_right _ _, Bitmap.length_ofPositions _ _⟩

theorem SequenceNumberSet.readFrom_writeTo {s : SequenceNumberSet}
    (hbase : 1 ≤ s.bitmapBase ∧ s.bitmapBase ≤ i64Max) (hbits : s.numBits ≤ rtpsBitmapMaxBits)
    (hwords : s.bitmap.length = Bitmap.words s.numBits) (out after : Octets) :
    readFrom littleEndian (s.writeTo littleEndian out ++ after) out.length =
      .ok (s, out.length + s.encodedSize) := by
  have hback := @sequenceNumberOfBytes_toBytes littleEndian s.bitmapBase (by omega) hbase.2
  rw [encodedSize, wireSize, ← Nat.add_assoc, ← Nat.add_assoc]
  unfold readFrom readFromWith
  refine readSet_at (length_sequenceNumberToBytes _) hback hbits ?_ hwords
  exact decide_eq_false fun h => absurd h.1 (by omega)

theorem FragmentNumberSet.readFrom_writeTo {s : FragmentNumberSet}
    (hbase : 1 ≤ s.bitmapBase ∧ s.bitmapBase ≤ u32Max) (hbits : s.numBits ≤ rtpsBitmapMaxBits)
    (hwords : s.bitmap.length = Bitmap.words s.numBits) (out after : Octets) :
    readFrom littleEndian (s.writeTo littleEndian out ++ after) out.length =
      .ok (s, out.length + s.encodedSize) := by
  have hback := @u32OfBytes_u32ToBytes littleEndian s.bitmapBase (Nat.lt_succ_of_le hbase.2)
  rw [encodedSize, wireSize, ← Nat.add_assoc, ← Nat.add_assoc]
  refine readSet_at (length_u32ToBytes _) hback hbits ?_ hwords
  exact decide_eq_false (by omega)

/-- A set built from an ascending list holds the listed numbers of its window, in at most 256 bits
and as few words as these need, and is read back, in either byte order, where it was written. -/
theorem number_set_windows_exact (base : Int) (missing : List Int) (fragBase : Nat)
    (fragments : List Nat) (hbase : 1 ≤ base ∧ base ≤ i64Max)
    (hsorted : missing.Pairwise (· < ·)) (hrange : ∀ sn ∈ missing, base ≤ sn ∧ sn ≤ i64Max)
    (hfragBase : 1 ≤ fragBase ∧ fragBase ≤ u32Max) (hfragSorted : fragments.Pairwise (· < ·))
    (hfragRange : ∀ f ∈ fragments, fragBase ≤ f ∧ f ≤ u32Max) :
    (let s := SequenceNumberSet.fromMissing base missing
     s.iterSet = missing.filter (· < base + 256) ∧ s.numBits ≤ 256 ∧
     s.bitmap.length = (s.numBits + 31) / 32 ∧
     (∀ first ∈ missing.head?, first < base + 256 → first ∈ s.iterSet) ∧
     ∀ littleEndian out after,
       SequenceNumberSet.readFrom littleEndian (s.writeTo littleEndian out ++ after) out.length =
         .ok (s, out.length + s.encodedSize)) ∧
    (let s := FragmentNumberSet.fromMissing fragBase fragments
     s.iterSet = fragments.filter (· < fragBase + 256) ∧ s.numBits ≤ 256 ∧
     s.bitmap.length = (s.numBits + 31) / 32 ∧
     (∀ first ∈ fragments.head?, first < fragBase + 256 → first ∈ s.iterSet) ∧
     ∀ littleEndian out after,
       FragmentNumberSet.readFrom littleEndian (s.writeTo littleEndian out ++ after) out.length =
         .ok (s, out.length + s.encodedSize)) := by
  have hmem {α : Type} {l kept : List α} {p : α → Bool} (hkept : kept = l.filter p) (first : α)
      (hfirst : first ∈ l.head?) (hp : p first = true) : first ∈ kept :=
    hkept ▸ List.mem_filter.mpr ⟨List.mem_of_mem_head? hfirst, hp⟩
  constructor
  · intro s
    obtain ⟨hb, hbits, hwords⟩ := SequenceNumberSet.fromMissing_sized base missing
    have hiter := SequenceNumberSet.iterSet_fromMissing hsorted fun sn h => (hrange sn h).1
    refine ⟨hiter, hbits, hwords, fun first hfirst hlt => ?_, fun _ out after => ?_⟩
    · exact hmem hiter first hfirst (decide_eq_true hlt)
    · exact SequenceNumberSet.readFrom_writeTo (hb.symm ▸ hbase) hbits hwords out after
  · intro s
    obtain ⟨hb, hbits, hwords⟩ := FragmentNumberSet.fromMissing_sized fragBase fragments
    have hiter := FragmentNumberSet.iterSet_fromMissing hfragSorted
      (fun f h => (hfragRange f h).1) fun f h => Nat.lt_succ_of_le (hfragRange f h).2
    refine ⟨hiter, hbits, hwords, fun first hfirst hlt => ?_, fun _ out after => ?_⟩
    · exact hmem hiter first hfirst (decide_eq_true hlt)
    · exact FragmentNumberSet.readFrom_writeTo (hb.symm ▸ hfragBase) hbits hwords out after

theorem window_of_three_numbers :
    (SequenceNumberSet.fromMissing 3 [3, 40, 300]).iterSet = [3, 40] ∧
      (FragmentNumberSet.fromMissing 1 [2, 256, 257]).iterSet = [2, 256] := by
  have h := number_set_windows_exact 3 [3, 40, 300] 1 [2, 256, 257] (by decide) (by decide)
    (by decide) (by decide) (by decide) (by decide)
  exact ⟨h.1.1, h.2.1⟩

end ZeroDds.Rtps
