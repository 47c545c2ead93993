/-
Encoder and decoder stay in step.
-/
import ZeroDds.Lib.Run
import ZeroDds.Hpack.Coder

namespace ZeroDds.Hpack

def huffmanBit (huffman : Bool) : Nat := if huffman then 128 else 0

theorem huffmanBit_dvd (huffman : Bool) : 2 ^ 7 ∣ huffmanBit huffman := by
  cases huffman <;> decide

theorem huffmanBit_lt (huffman : Bool) : huffmanBit huffman + (2 ^ 7 - 1) < 256 := by
  cases huffman <;> decide

section

variable {input tail : Octets} {first : UInt8} {length consumed : Nat}

theorem decodeBytes_plain (hhead : input = first :: tail)
    (hinteger : decodeInteger input 7 = .ok (length, consumed))
    (hfits : consumed + length ≤ input.length) (hflag : first.toNat < 128) :
    decodeBytes input = .ok ((input.drop consumed).take length, consumed + length) := by
  have hbit : ¬first.toNat &&& 128 ≠ 0 := not_not.mpr ((and_high_eq first.toNat_lt).mpr hflag)
  subst hhead
  rw [decodeBytes, hinteger]
  simp only
  rw [if_neg (Nat.not_lt.mpr hfits), if_neg hbit]

theorem decodeBytes_huffman {decoded : Octets} (hhead : input = first :: tail)
    (hinteger : decodeInteger input 7 = .ok (length, consumed))
    (hfits : consumed + length ≤ input.length) (hflag : 128 ≤ first.toNat)
    (hdecode : Huffman.decode ((input.drop consumed).take length) = .ok decoded) :
    decodeBytes input = .ok (decoded, consumed + length) := by
  have hbit : first.toNat &&& 128 ≠ 0 :=
    fun h => Nat.not_lt.mpr hflag ((and_high_eq first.toNat_lt).mp h)
  subst hhead
  rw [decodeBytes, hinteger]
  simp only
  rw [if_neg (Nat.not_lt.mpr hfits), if_pos hbit, hdecode]

end

variable {huffman : Bool} {rest : Octets} {s : String}

theorem decodeBytes_encodeString (hlen : (stringOctets s huffman).length < 127 + 2 ^ 56) :
    decodeBytes (encodeString s huffman ++ rest) =
      .ok (utf8Bytes s, (encodeString s huffman).length) := by
  obtain ⟨first, tail, n, hhead, hfirst, hn⟩ :
      ∃ (b : UInt8) (tail : Octets) (n : Nat), encodeInteger (stringOctets s huffman).length 7
        (huffmanBit huffman) = b :: tail ∧ b.toNat = huffmanBit huffman + n ∧ n < 2 ^ 7 :=
    head_encodeInteger (huffmanBit_dvd huffman) (huffmanBit_lt huffman)
  have hinput : encodeString s huffman ++ rest =
      first :: tail ++ (stringOctets s huffman ++ rest) := by
    rw [← hhead, ← List.append_assoc]
    rfl
  have hinteger : decodeInteger (first :: tail ++ (stringOctets s huffman ++ rest)) 7 =
      .ok ((stringOctets s huffman).length, (first :: tail).length) := by
    rw [← hhead]
    exact decodeInteger_encodeInteger (huffmanBit_dvd huffman) (huffmanBit_lt huffman) hlen
  have htotal : (encodeString s huffman).length =
      (first :: tail).length + (stringOctets s huffman).length := by
    rw [← hhead, ← List.length_append]
    rfl
  have hfits : (first :: tail).length + (stringOctets s huffman).length ≤
      (first :: tail ++ (stringOctets s huffman ++ rest)).length := by
    simp only [List.length_append]
    omega
  have hraw : ((first :: tail ++ (stringOctets s huffman ++ rest)).drop
      (first :: tail).length).take (stringOctets s huffman).length = stringOctets s huffman := by
    rw [List.drop_left, List.take_left]
  rw [hinput, htotal]
  cases huffman with
  | true =>
    have hflag : 128 ≤ first.toNat :=
      Nat.le_trans (Nat.le_add_right 128 n) (Nat.le_of_eq hfirst.symm)
    refine decodeBytes_huffman rfl hinteger hfits hflag ?_
    rw [hraw]
    exact Huffman.decode_encode (utf8Bytes s)
  | false =>
    have hflag : first.toNat < 128 :=
      Nat.lt_of_le_of_lt (Nat.le_of_eq (hfirst.trans (Nat.zero_add n))) hn
    have hplain := decodeBytes_plain List.cons_append hinteger hfits hflag
    rw [hraw] at hplain
    exact hplain

theorem takeString_encodeString (hlen : (stringOctets s huffman).length < 127 + 2 ^ 56) :
    takeString (encodeString s huffman ++ rest) = .ok (s, rest) := by
  simp [takeString, decodeString, decodeBytes_encodeString hlen, ofUtf8?_utf8Bytes]

theorem and_literal : ∀ n : Fin 256, (n.val &&& 192 = 64 ↔ 64 ≤ n.val ∧ n.val < 128) := by
  decide +kernel

def stringCodable (huffman : Bool) (s : String) : Bool :=
  (stringOctets s huffman).length < 127 + 2 ^ 56

def codable (huffman : Bool) (t : Table) (h : HeaderField) : Bool :=
  match t.find h.name h.value with
  | some (index, true) => index < 127 + 2 ^ 56
  | some (index, false) => index < 63 + 2 ^ 56 && stringCodable huffman h.value
  | none => stringCodable huffman h.name && stringCodable huffman h.value

variable {t : Table} {h : HeaderField} {index : Nat}

theorem decodeStep_indexed (hget : t.get index = some h) (hindex : index < 127 + 2 ^ 56) :
    ∃ first tail, encodeInteger index 7 128 = first :: tail ∧
      decodeStep t first (encodeInteger index 7 128 ++ rest) = .ok (t, some h, rest) := by
  obtain ⟨first, tail, n, hhead, hfirst, hn⟩ :
      ∃ (b : UInt8) (tail : Octets) (n : Nat), encodeInteger index 7 128 = b :: tail ∧
        b.toNat = 128 + n ∧ n < 2 ^ 7 := head_encodeInteger (by decide) (by decide)
  refine ⟨first, tail, hhead, ?_⟩
  have hinteger : decodeInteger (encodeInteger index 7 128 ++ rest) 7 =
      .ok (index, (encodeInteger index 7 128).length) :=
    decodeInteger_encodeInteger (by decide) (by decide) hindex
  have hflag : first.toNat &&& 128 ≠ 0 := by
    rw [Ne, and_high_eq first.toNat_lt]
    omega
  rw [decodeStep, if_pos hflag, hinteger]
  simp only [if_neg (Table.pos_of_get hget), hget, List.drop_left]

theorem decodeStep_literal {literal : Octets} (hindex : index < 63 + 2 ^ 56)
    (hliteral : takeLiteral t index (literal ++ rest) = .ok (h, rest)) :
    ∃ first tail, encodeInteger index 6 64 = first :: tail ∧
      decodeStep t first (encodeInteger index 6 64 ++ (literal ++ rest)) =
        .ok (t.add h, some h, rest) := by
  obtain ⟨first, tail, n, hhead, hfirst, hn⟩ :
      ∃ (b : UInt8) (tail : Octets) (n : Nat), encodeInteger index 6 64 = b :: tail ∧
        b.toNat = 64 + n ∧ n < 2 ^ 6 := head_encodeInteger (by decide) (by decide)
  refine ⟨first, tail, hhead, ?_⟩
  have hinteger : decodeInteger (encodeInteger index 6 64 ++ (literal ++ rest)) 6 =
      .ok (index, (encodeInteger index 6 64).length) :=
    decodeInteger_encodeInteger (by decide) (by decide) hindex
  have hindexed : ¬first.toNat &&& 128 ≠ 0 := by
    rw [not_not, and_high_eq first.toNat_lt]
    omega
  have hkind : first.toNat &&& 192 = 64 := (and_literal ⟨first.toNat, first.toNat_lt⟩).mpr (by
    show 64 ≤ first.toNat ∧ first.toNat < 128
    omega)
  rw [decodeStep, if_neg hindexed, if_pos hkind, hinteger]
  simp [hliteral]

theorem decodeStep_encodeField (hcodable : codable huffman t h = true) (rest : Octets) :
    ∃ first tail, (encodeField t huffman h).1 = first :: tail ∧
      decodeStep t first ((encodeField t huffman h).1 ++ rest) =
        .ok ((encodeField t huffman h).2, some h, rest) := by
  unfold codable at hcodable
  unfold encodeField
  cases hfind : t.find h.name h.value with
  | none =>
    rw [hfind, Bool.and_eq_true] at hcodable
    have hname := of_decide_eq_true hcodable.1
    have hvalue := of_decide_eq_true hcodable.2
    have hliteral : takeLiteral t 0
        ((encodeString h.name huffman ++ encodeString h.value huffman) ++
        rest) = .ok (h, rest) := by
      simp only [takeLiteral, if_true, List.append_assoc, takeString_encodeString hname,
        takeString_encodeString hvalue]
    obtain ⟨first, tail, hhead, hstep⟩ := decodeStep_literal (by decide) hliteral
    obtain ⟨rfl, rfl⟩ := List.cons.inj hhead
    exact ⟨_, _, rfl, hstep⟩
  | some found =>
    obtain ⟨index, full⟩ := found
    obtain ⟨e, hget, hname, hfull⟩ := Table.find_spec hfind
    rw [hfind] at hcodable
    cases full with
    | true =>
      have heq : e = h := by
        obtain ⟨name, value⟩ := e
        obtain rfl : name = h.name := hname
        obtain rfl : value = h.value := hfull rfl
        rfl
      rw [heq] at hget
      exact decodeStep_indexed hget (of_decide_eq_true hcodable)
    | false =>
      rw [Bool.and_eq_true] at hcodable
      have hindex := of_decide_eq_true hcodable.1
      have hvalue := of_decide_eq_true hcodable.2
      have hliteral : takeLiteral t index (encodeString h.value huffman ++ rest) =
          .ok (h, rest) := by
        simp only [takeLiteral, if_neg (Table.pos_of_get hget), hget, hname,
          takeString_encodeString hvalue]
      obtain ⟨first, tail, hhead, hstep⟩ := decodeStep_literal hindex hliteral
      refine ⟨first, tail ++ encodeString h.value huffman, ?_, ?_⟩
      · simp only [hhead, List.cons_append]
      · simp only [List.append_assoc]
        exact hstep

def codableAll (huffman : Bool) : Table → List HeaderField → Bool
  | _, [] => true
  | t, h :: headers =>
    codable huffman t h && codableAll huffman (encodeField t huffman h).2 headers

variable {headers : List HeaderField}

theorem decodeLoop_encode {fuel : Nat} (hcodable : codableAll huffman t headers = true)
    (hfuel : (encode huffman t headers).1.length ≤ fuel) :
    decodeLoop fuel t (encode huffman t headers).1 =
      ((encode huffman t headers).2, .ok headers) := by
  induction headers generalizing t fuel with
  | nil => cases fuel <;> rfl
  | cons h headers ih =>
    rw [codableAll, Bool.and_eq_true] at hcodable
    obtain ⟨hfield, hrest⟩ := hcodable
    obtain ⟨first, tail, hhead, hstep⟩ := decodeStep_encodeField hfield
      (encode huffman (encodeField t huffman h).2 headers).1
    have hblock : (encode huffman t (h :: headers)).1 =
        first :: (tail ++ (encode huffman (encodeField t huffman h).2 headers).1) := by
      show (encodeField t huffman h).1 ++ _ = _
      rw [hhead]
      rfl
    rw [hhead, List.cons_append] at hstep
    rw [hblock, List.length_cons, List.length_append] at hfuel
    rw [hblock]
    cases fuel with
    | zero => exact absurd hfuel (Nat.not_succ_le_zero _)
    | succ fuel =>
      rw [decodeLoop, hstep]
      simp only
      rw [ih hrest (by omega)]
      rfl

theorem decode_encode (hcodable : codableAll huffman t headers = true) :
    decode t (encode huffman t headers).1 = ((encode huffman t headers).2, .ok headers) :=
  decodeLoop_encode hcodable (Nat.le_refl _)

structure Connection where
  encoder : Table
  decoder : Table
deriving DecidableEq

structure HeaderList where
  headers : List HeaderField
  useHuffman : Bool

def exchange (c : Connection) (l : HeaderList) :
    Connection × Except DecoderError (List HeaderField) :=
  let (block, encoder) := encode l.useHuffman c.encoder l.headers
  let (decoder, result) := decode c.decoder block
  (⟨encoder, decoder⟩, result)

def CodableList (c : Connection) (l : HeaderList) : Prop :=
  codableAll l.useHuffman c.encoder l.headers = true

instance (c : Connection) (l : HeaderList) : Decidable (CodableList c l) :=
  inferInstanceAs (Decidable (_ = true))

theorem exchange_alike {c : Connection} {l : HeaderList} (h : c.decoder = c.encoder)
    (hcodable : CodableList c l) :
    (exchange c l).1.decoder = (exchange c l).1.encoder ∧ (exchange c l).2 = .ok l.headers := by
  have hdecode := decode_encode hcodable
  unfold exchange
  simp only [h, hdecode]
  exact ⟨trivial, trivial⟩

/-- Over any header lists whose indices and string lengths take eight groups at most, every block is
read as the header list it was made from, and the tables of both ends are equal after it. -/
theorem coder_decoder_in_step {m : Nat}
    {h : History HeaderList (Except DecoderError (List HeaderField))} {c : Connection}
    (hr : Reaches exchange CodableList ⟨.new m, .new m⟩ h c) :
    c.decoder = c.encoder ∧ ∀ e ∈ h, e.2 = .ok e.1.headers := by
  refine hr.invariant (P := fun h c => c.decoder = c.encoder ∧ ∀ e ∈ h, e.2 = .ok e.1.headers)
    ⟨rfl, fun e he => absurd he List.not_mem_nil⟩ ?_
  rintro h c l ⟨halike, hall⟩ hcodable
  obtain ⟨hnext, hresult⟩ := exchange_alike halike hcodable
  refine ⟨hnext, fun e he => ?_⟩
  rcases List.mem_append.mp he with he | he
  · exact hall e he
  · rw [List.mem_singleton.mp he]
    exact hresult

/-! ### A length of nine groups -/

namespace Fixture

theorem encodeInteger_nine_groups :
    encodeInteger 72057594037928063 7 0 = [127, 128, 128, 128, 128, 128, 128, 128, 128, 1] := by
  decide +kernel

variable {s : String}

theorem takeString_long (hlen : (utf8Bytes s).length = 72057594037928063) (rest : Octets) :
    takeString (encodeString s false ++ rest) = .error (.string (.integer .tooLarge)) := by
  have hstring : encodeString s false =
      [127, 128, 128, 128, 128, 128, 128, 128, 128, 1] ++ utf8Bytes s := by
    show encodeInteger (utf8Bytes s).length 7 0 ++ utf8Bytes s = _
    rw [hlen, encodeInteger_nine_groups]
  rw [hstring, takeString, decodeString, List.append_assoc]
  rfl

theorem find_none_of_long (hlong : 100 ≤ (utf8Bytes s).length) (m : Nat) :
    (Table.new m).find s "" = none := by
  have hshort : ∀ e ∈ staticTable, (utf8Bytes e.name).length < 100 := by decide +kernel
  have hscan : scan s "" staticTable 1 none = .inr none := by
    refine scan_of_no_name fun e he heq => ?_
    have hlt := hshort e he
    rw [heq] at hlt
    omega
  rw [Table.find, hscan]
  rfl

theorem refused_of_long (hlen : (utf8Bytes s).length = 72057594037928063) (m : Nat) :
    (exchange ⟨.new m, .new m⟩ ⟨[⟨s, ""⟩], false⟩).2 =
      .error (.string (.integer .tooLarge)) := by
  have hblock : encode false (.new m) [⟨s, ""⟩] =
      (64 :: (encodeString s false ++ encodeString "" false), (Table.new m).add ⟨s, ""⟩) := by
    have hfield : encodeField (.new m) false ⟨s, ""⟩ =
        (64 :: (encodeString s false ++ encodeString "" false), (Table.new m).add ⟨s, ""⟩) := by
      have hnone : (Table.new m).find s "" = none := find_none_of_long (by omega) m
      unfold encodeField
      simp [hnone]
    rw [encode, hfield]
    simp [encode]
  have hinteger : decodeInteger (64 :: (encodeString s false ++ encodeString "" false)) 6 =
      .ok (0, 1) := rfl
  have hstep : decodeStep (.new m) 64 (64 :: (encodeString s false ++ encodeString "" false)) =
      .error (.string (.integer .tooLarge)) := by
    rw [decodeStep, if_neg (by decide), if_pos (by decide), hinteger]
    simp [takeLiteral, takeString_long hlen]
  have hdecode : (decode (.new m) (64 :: (encodeString s false ++ encodeString "" false))).2 =
      .error (.string (.integer .tooLarge)) := by
    rw [decode, List.length_cons, decodeLoop, hstep]
  simp only [exchange, hblock]
  exact hdecode

theorem length_repeated (n : Nat) :
    (utf8Bytes (String.ofList (List.replicate n 'a'))).length = n := by
  rw [utf8Bytes_ofList, List.length_flatMap, List.map_replicate, List.sum_replicate_nat]
  exact Nat.mul_one n

def longName : String := String.ofList (List.replicate 72057594037928063 'a')

theorem long_name_refused :
    (exchange ⟨.new 4096, .new 4096⟩ ⟨[⟨longName, ""⟩], false⟩).2 =
      .error (.string (.integer .tooLarge)) :=
  refused_of_long (length_repeated 72057594037928063) 4096

/-- A table for two entries, and a field that is found in it, one that evicts and one of which the
name is found. -/
def lists : List HeaderList :=
  [⟨[⟨":method", "GET"⟩, ⟨"custom", "value"⟩], true⟩,
    ⟨[⟨"custom", "value"⟩, ⟨"custom", "other"⟩, ⟨"x", "y"⟩], false⟩]

theorem lists_in_step :
    let c := (run exchange ⟨.new 90, .new 90⟩ lists).1
    c.decoder = c.encoder ∧ c.decoder.dynamic = [⟨"x", "y"⟩, ⟨"custom", "other"⟩] := by
  have hok : RunOk exchange CodableList ⟨.new 90, .new 90⟩ lists := by decide +kernel
  exact ⟨(coder_decoder_in_step (reaches_run hok)).1, by decide +kernel⟩

end Fixture

end ZeroDds.Hpack
