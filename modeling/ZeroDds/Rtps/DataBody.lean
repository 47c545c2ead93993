/-
The octets of a DATA.
-/
import ZeroDds.Rtps.NumberSets
import ZeroDds.Rtps.ParameterBytes
import ZeroDds.Rtps.WriterRun

namespace ZeroDds.Rtps

def u16ToBytes (littleEndian : Bool) (n : Nat) : Octets :=
  let low := [UInt8.ofNat n, UInt8.ofNat (n / 256)]
  if littleEndian then low else low.reverse

def Parameter.padded (p : Parameter) : Parameter :=
  { p with
    value := p.value ++ List.replicate (paddedTo4 p.value.length - p.value.length) 0 }

namespace ParameterList

variable (littleEndian : Bool)

def toBytes (pl : ParameterList) : Octets :=
  (pl.parameters.flatMap fun p =>
    u16ToBytes littleEndian p.id.toNat ++
      (u16ToBytes littleEndian (paddedTo4 p.value.length % 65536) ++ p.padded.value)) ++
    (u16ToBytes littleEndian Pid.sentinel.toNat ++ u16ToBytes littleEndian 0)

/-- `from_bytes_with_consumed`: the list, and what of the octets is behind it. -/
def parseRest (bytes : Octets) (pos : Nat) (found : List Parameter) :
    Except WireError (ParameterList × Octets) :=
  if h : bytes.length < 4 then .error (.unexpectedEof 4 pos)
  else
    let id := u16OfBytes littleEndian bytes
    let length := (u16OfBytes littleEndian (bytes.drop 2)).toNat
    let rest := bytes.drop 4
    if id = Pid.sentinel ∨
        (id &&& ~~~mustUnderstandBit = Pid.listEnd ∧ id &&& vendorSpecificBit = 0) then
      .ok (⟨found, littleEndian⟩, rest)
    else if length % 4 ≠ 0 then
      .error (.valueOutOfRange "ParameterList length not 4-byte aligned")
    else if rest.length < length then .error (.unexpectedEof length (pos + 4))
    else if id = Pid.ignored ∨ id = Pid.pad then
      parseRest (rest.drop length) (pos + 4 + length) found
    else if maxParameters ≤ found.length then
      .error (.valueOutOfRange "ParameterList exceeds MAX_PARAMETERS cap")
    else
      parseRest (rest.drop length) (pos + 4 + length) (found ++ [⟨id, rest.take length⟩])
termination_by bytes.length
decreasing_by
  all_goals
    simp only [List.length_drop]
    omega

end ParameterList

variable {littleEndian : Bool}

theorem length_u16ToBytes (n : Nat) : (u16ToBytes littleEndian n).length = 2 := by
  cases littleEndian <;> rfl

theorem u16OfBytes_toBytes (n : Nat) (rest : Octets) :
    u16OfBytes littleEndian (u16ToBytes littleEndian n ++ rest) = UInt16.ofNat n := by
  apply UInt16.toNat_inj.mp
  cases littleEndian <;> simp [u16OfBytes, u16ToBytes] <;> omega

/-- What the decoder keeps of a parameter: not the end of the list, not one to be skipped, and of
a length its 16-bit field can hold. -/
structure Parameter.Kept (p : Parameter) : Prop where
  fits : p.value.length ≤ 65532
  goesOn : ¬ (p.id = Pid.sentinel ∨
    (p.id &&& ~~~mustUnderstandBit = Pid.listEnd ∧ p.id &&& vendorSpecificBit = 0))
  counts : ¬ (p.id = Pid.ignored ∨ p.id = Pid.pad)

namespace ParameterList

theorem length_padded (p : Parameter) : p.padded.value.length = paddedTo4 p.value.length := by
  simp only [Parameter.padded, paddedTo4, List.length_append, List.length_replicate]
  omega

theorem parseRest_parameter {p : Parameter} (hp : p.Kept) (rest : Octets) (pos : Nat)
    {found : List Parameter} (hroom : found.length < maxParameters) :
    ∃ pos', parseRest littleEndian (u16ToBytes littleEndian p.id.toNat ++
        (u16ToBytes littleEndian (paddedTo4 p.value.length % 65536) ++ p.padded.value) ++ rest)
        pos found =
      parseRest littleEndian rest pos' (found ++ [p.padded]) := by
  have hlen : paddedTo4 p.value.length < 65536 ∧ paddedTo4 p.value.length % 4 = 0 := by
    have hfits := hp.fits
    unfold paddedTo4
    omega
  have hrest : (u16ToBytes littleEndian p.id.toNat ++ (u16ToBytes littleEndian
      (paddedTo4 p.value.length) ++ (p.padded.value ++ rest))).drop 4 = p.padded.value ++ rest := by
    rw [← List.append_assoc]
    exact List.drop_left' (by simp [length_u16ToBytes])
  refine ⟨pos + 4 + paddedTo4 p.value.length, ?_⟩
  rw [parseRest, List.append_assoc, List.append_assoc, Nat.mod_eq_of_lt hlen.1]
  simp only [u16OfBytes_toBytes, UInt16.ofNat_toNat, List.drop_left' (length_u16ToBytes _), hrest,
    UInt16.toNat_ofNat_of_lt' hlen.1]
  rw [dif_neg (by simp [length_u16ToBytes]; omega), if_neg hp.goesOn, if_neg (not_not.mpr hlen.2),
    if_neg (by simp [length_padded]), if_neg hp.counts, if_neg (not_le.mpr hroom),
    List.drop_left' (length_padded p), List.take_left' (length_padded p)]
  rfl

theorem parseRest_toBytes {ps : List Parameter} (hkept : ∀ p ∈ ps, p.Kept)
    (found : List Parameter) (hroom : found.length + ps.length ≤ maxParameters) (order : Bool)
    (pos : Nat) (rest : Octets) :
    parseRest littleEndian (toBytes littleEndian ⟨ps, order⟩ ++ rest) pos found =
      .ok (⟨found ++ ps.map Parameter.padded, littleEndian⟩, rest) := by
  induction ps generalizing found pos with
  | nil =>
    have hrest : (u16ToBytes littleEndian Pid.sentinel.toNat ++
        (u16ToBytes littleEndian 0 ++ rest)).drop 4 = rest := by
      rw [← List.append_assoc]
      exact List.drop_left' (by simp [length_u16ToBytes])
    rw [toBytes, List.flatMap_nil, List.nil_append, List.append_assoc, parseRest]
    simp only [u16OfBytes_toBytes, UInt16.ofNat_toNat, hrest]
    rw [dif_neg (by simp [length_u16ToBytes]; omega)]
    simp
  | cons p ps ih =>
    obtain ⟨hp, hps⟩ := List.forall_mem_cons.mp hkept
    rw [List.length_cons] at hroom
    obtain ⟨pos', hstep⟩ := parseRest_parameter hp
      (toBytes littleEndian ⟨ps, order⟩ ++ rest) pos (show found.length < maxParameters by omega)
    have hnext := ih hps (found ++ [p.padded]) (by simp; omega) pos'
    rw [List.append_assoc, List.singleton_append] at hnext
    rw [← List.map_cons] at hnext
    rw [← hnext, ← hstep]
    simp [toBytes]

end ParameterList

/-! ### The body -/

def littleEndianFlag : UInt8 := 0x01
def dataFlagInlineQos : UInt8 := 0x02
def dataFlagData : UInt8 := 0x04
def dataFlagKey : UInt8 := 0x08
def dataFlagNonStandard : UInt8 := 0x10

def entityIdOfBytes (b : Octets) : EntityId := ⟨Vector.ofFn fun i : Fin 4 => b.getD i 0⟩

namespace DataSubmessage

def flagBits (d : DataSubmessage) (littleEndian : Bool) : UInt8 :=
  (if littleEndian then littleEndianFlag else 0) ||| (if d.dataFlag then dataFlagData else 0) |||
    (if d.keyFlag then dataFlagKey else 0) |||
    (if d.nonStandardFlag then dataFlagNonStandard else 0) |||
    (if d.inlineQos.isSome then dataFlagInlineQos else 0)

def writeBody (d : DataSubmessage) (littleEndian : Bool) : Octets × UInt8 :=
  (u16ToBytes littleEndian d.extraFlags ++ (u16ToBytes littleEndian 16 ++
      (d.readerId.octets.toList ++ (d.writerId.octets.toList ++
        (sequenceNumberToBytes littleEndian d.writerSn ++
          ((d.inlineQos.map (·.toBytes littleEndian)).getD [] ++ d.serializedPayload))))),
    d.flagBits littleEndian)

def readBody (body : Octets) (littleEndian : Bool) (flags : UInt8) :
    Except WireError DataSubmessage :=
  if body.length < 20 then .error (.unexpectedEof 20 0)
  else
    let octetsToInlineQos := (u16OfBytes littleEndian (body.drop 2)).toNat
    let afterHeader := 4 + octetsToInlineQos
    let writerSn := sequenceNumberOfBytes littleEndian (body.drop 12)
    if octetsToInlineQos < 16 ∨ body.length < afterHeader then
      .error (.valueOutOfRange "DATA octetsToInlineQos below 16 or beyond the submessage")
    else if writerSn < 1 then
      .error (.valueOutOfRange "DATA writerSN not strictly positive (DDSI-RTPS 2.5 §8.3.8.2)")
    else if flags &&& dataFlagData ≠ 0 ∧ flags &&& dataFlagKey ≠ 0 then
      .error (.valueOutOfRange "DATA with both the D and the K flag (DDSI-RTPS 2.5 §9.4.5.3)")
    else
      let inlineQos :=
        if flags &&& dataFlagInlineQos ≠ 0 then
          (ParameterList.parseRest littleEndian (body.drop afterHeader) 0 []).map fun read =>
            (some read.1, read.2)
        else .ok (none, body.drop afterHeader)
      inlineQos.map fun read =>
        { extraFlags := (u16OfBytes littleEndian body).toNat
          readerId := entityIdOfBytes (body.drop 4)
          writerId := entityIdOfBytes (body.drop 8)
          writerSn
          inlineQos := read.1
          dataFlag := decide (flags &&& dataFlagData ≠ 0)
          keyFlag := decide (flags &&& dataFlagKey ≠ 0)
          nonStandardFlag := decide (flags &&& dataFlagNonStandard ≠ 0)
          serializedPayload := read.2 }

/-- A DATA the decoder takes: numbers that fit their fields, not both D and K, and no parameter
that the decoder ends the list at or leaves out. -/
structure Readable (d : DataSubmessage) : Prop where
  extraFlags : d.extraFlags < 65536
  writerSn : 1 ≤ d.writerSn ∧ d.writerSn ≤ i64Max
  oneContent : ¬ (d.dataFlag = true ∧ d.keyFlag = true)
  parameters : ∀ pl, d.inlineQos = some pl →
    (∀ p ∈ pl.parameters, p.Kept) ∧ pl.parameters.length ≤ maxParameters

theorem entityIdOfBytes_toList (e : EntityId) (rest : Octets) :
    entityIdOfBytes (e.octets.toList ++ rest) = e := by
  simp [entityIdOfBytes, List.getElem?_append_left]

theorem flagBits_tests (d : DataSubmessage) (littleEndian : Bool) :
    decide (d.flagBits littleEndian &&& dataFlagData ≠ 0) = d.dataFlag ∧
      decide (d.flagBits littleEndian &&& dataFlagKey ≠ 0) = d.keyFlag ∧
      decide (d.flagBits littleEndian &&& dataFlagNonStandard ≠ 0) = d.nonStandardFlag ∧
      decide (d.flagBits littleEndian &&& dataFlagInlineQos ≠ 0) = d.inlineQos.isSome := by
  unfold flagBits
  cases littleEndian <;> cases d.dataFlag <;> cases d.keyFlag <;> cases d.nonStandardFlag <;>
    cases d.inlineQos.isSome <;> decide

/-- A DATA comes back as it was written, its parameters with their values padded. -/
theorem data_read_back (d : DataSubmessage) (h : d.Readable) (littleEndian : Bool) :
    readBody (d.writeBody littleEndian).1 littleEndian (d.writeBody littleEndian).2 =
      .ok { d with inlineQos := d.inlineQos.map fun pl =>
        ⟨pl.parameters.map Parameter.padded, littleEndian⟩ } := by
  obtain ⟨hdata, hkey, hnonStandard, hqos⟩ := flagBits_tests d littleEndian
  obtain ⟨hflags, hpositive, hone, hqosKept⟩ := h
  have hboth : ¬ (d.flagBits littleEndian &&& dataFlagData ≠ 0 ∧
      d.flagBits littleEndian &&& dataFlagKey ≠ 0) := by
    rintro ⟨hd, hk⟩
    exact hone ⟨hdata ▸ decide_eq_true hd, hkey ▸ decide_eq_true hk⟩
  have hsn : ∀ rest, sequenceNumberOfBytes littleEndian
      (sequenceNumberToBytes littleEndian d.writerSn ++ rest) = d.writerSn :=
    sequenceNumberOfBytes_toBytes (by omega) hpositive.2
  unfold readBody writeBody
  generalize htail :
    (d.inlineQos.map (·.toBytes littleEndian)).getD [] ++ d.serializedPayload = tail
  simp only [List.drop_append, length_u16ToBytes, length_sequenceNumberToBytes,
    List.drop_of_length_le, Vector.length_toList, List.length_append, u16OfBytes_toBytes, hdata,
    hkey, hnonStandard, le_refl, List.nil_append, Nat.reduceSub, List.drop_zero, Nat.reduceLeDiff,
    entityIdOfBytes_toList, hsn, show (UInt16.ofNat 16).toNat = 16 from rfl, Nat.reduceAdd,
    UInt16.toNat_ofNat_of_lt' hflags]
  rw [if_neg (by omega), if_neg (by omega), if_neg (by omega), if_neg hboth]
  cases hlist : d.inlineQos with
  | none =>
    rw [hlist, Option.isSome_none, decide_eq_false_iff_not] at hqos
    rw [if_neg hqos, ← htail, hlist]
    rfl
  | some pl =>
    rw [hlist, Option.isSome_some, decide_eq_true_iff] at hqos
    obtain ⟨hkept, hcount⟩ := hqosKept pl hlist
    rw [if_pos hqos, ← htail, hlist]
    simp only [Option.map_some, Option.getD_some]
    rw [ParameterList.parseRest_toBytes hkept [] (by simpa using hcount) pl.littleEndian]
    rfl

def statusData : DataSubmessage where
  extraFlags := 0
  readerId := ⟨#v[0, 0, 1, 4]⟩
  writerId := ⟨#v[0, 0, 1, 3]⟩
  writerSn := 5
  inlineQos := some
    ⟨[InlineQos.statusInfoParam InlineQos.disposed, ⟨0x0005, [1, 2, 3, 4, 5]⟩], true⟩
  dataFlag := false
  keyFlag := true
  nonStandardFlag := false
  serializedPayload := [7, 8]

theorem data_read_back_padded :
    readBody (statusData.writeBody false).1 false (statusData.writeBody false).2 =
      .ok { statusData with
        inlineQos := some ⟨[InlineQos.statusInfoParam InlineQos.disposed,
          ⟨0x0005, [1, 2, 3, 4, 5, 0, 0, 0]⟩], false⟩ } := by
  refine data_read_back statusData ⟨by decide, by decide, by decide, ?_⟩ false
  rintro pl hpl
  cases hpl
  refine ⟨?_, by decide⟩
  simp only [List.mem_cons, List.not_mem_nil, or_false, forall_eq_or_imp, forall_eq]
  exact ⟨⟨by decide, by decide, by decide⟩, by decide, by decide, by decide⟩

end DataSubmessage

/-! ### The zero-copy path -/

namespace SendView

variable (v : SendView) (sn : Int) (peer : Guid)

def compactDataPrefix : Option (Octets × UInt8) :=
  match v.cache.get sn with
  | none => none
  | some change =>
    if change.inlineQos.isSome ∨ change.coherentSetSn.isSome ∨ change.coherentSetEnd ∨
        change.group.isSome then none
    else if v.inlineWriterQos.isSome ∧ v.expectsInlineQos peer then none
    else
      let fixed := [0, 0] ++ u16ToBytes true 16 ++ peer.entityId.octets.toList ++
        v.guid.entityId.octets.toList ++ sequenceNumberToBytes true sn
      let flags := littleEndianFlag ||| dataFlagData |||
        if change.nonStandardPayload then dataFlagNonStandard else 0
      match change.keyHash with
      | none => some (fixed, flags)
      | some key =>
        some (fixed ++ (u16ToBytes true Pid.keyHash.toNat ++ u16ToBytes true 16 ++ key.toList ++
          u16ToBytes true Pid.sentinel.toNat ++ u16ToBytes true 0), flags ||| dataFlagInlineQos)

/-- The DATA that the path with a parameter list builds. -/
def fullData (payload : Octets) : DataSubmessage where
  extraFlags := 0
  readerId := peer.entityId
  writerId := v.guid.entityId
  writerSn := sn
  inlineQos := v.sampleInlineQos sn peer
  dataFlag := !(v.cache.get sn).any fun c => c.coherentSetEnd
  keyFlag := false
  nonStandardFlag := (v.cache.get sn).any fun c => c.nonStandardPayload
  serializedPayload := payload

variable {v sn peer} {octets : Octets} {flags : UInt8}

/-- The prefix of the compact path, with the payload behind it, is the body of the general path. -/
theorem compact_prefix_is_body (payload : Octets)
    (h : v.compactDataPrefix sn peer = some (octets, flags)) :
    (v.fullData sn peer payload).writeBody true = (octets ++ payload, flags) := by
  unfold compactDataPrefix at h
  cases hget : v.cache.get sn with
  | none => simp [hget] at h
  | some change =>
    simp only [hget] at h
    split at h
    · cases h
    · next hplain =>
      split at h
      · cases h
      · next hexpects =>
        simp only [not_or, Bool.not_eq_true, Option.isSome_eq_false_iff,
          Option.isNone_iff_eq_none] at hplain
        obtain ⟨hqos, hset, hend, hgroup⟩ := hplain
        have hwriter : (v.inlineWriterQos.filter fun _ => v.expectsInlineQos peer) = none := by
          cases hown : v.inlineWriterQos with
          | none => rfl
          | some list => simpa [hown] using hexpects
        have hlist : v.sampleInlineQos sn peer =
            change.keyHash.map fun key => ⟨[⟨Pid.keyHash, key.toList⟩], true⟩ := by
          simp only [sampleInlineQos, sampleInlineQosFor, hget, pushSetParams, hset, hgroup, hqos,
            Option.all_some, hwriter, Option.filter_none]
          cases change.keyHash <;> rfl
        rw [DataSubmessage.writeBody, DataSubmessage.flagBits, fullData]
        simp only [hlist, hget, Option.any_some, hend]
        cases hkey : change.keyHash with
        | none =>
          simp only [hkey, Option.some.injEq, Prod.mk.injEq] at h
          obtain ⟨rfl, rfl⟩ := h
          cases change.nonStandardPayload <;> simp [u16ToBytes]
        | some key =>
          simp only [hkey, Option.some.injEq, Prod.mk.injEq] at h
          obtain ⟨rfl, rfl⟩ := h
          cases change.nonStandardPayload <;>
            simp [u16ToBytes, ParameterList.toBytes, Parameter.padded, paddedTo4]

section

open WriterFixture

def keyedSample : SampleWrite := { sample [1, 2, 3, 4] none with keyHash := some zeroKeyHash }

theorem compact_prefix_of_keyed_sample :
    ∃ octets flags, octets.length = 44 ∧
      ((makeWriter 10 1472 [readerProxy 1]).step (.write keyedSample)).1.view.compactDataPrefix 1
        (readerGuid 1) = some (octets, flags) ∧
      (((makeWriter 10 1472 [readerProxy 1]).step (.write keyedSample)).1.view.fullData 1
        (readerGuid 1) [1, 2, 3, 4]).writeBody true = (octets ++ [1, 2, 3, 4], flags) :=
  ⟨_, _, by decide +kernel, rfl, compact_prefix_is_body [1, 2, 3, 4] rfl⟩

end

end SendView
end ZeroDds.Rtps
