/-
What the Huffman decoder accepts.
-/
import ZeroDds.Hpack.Huffman

namespace ZeroDds.Hpack.Huffman

def findOverflows (acc accBits : Nat) : List (Nat × Nat) → Bool
  | [] => false
  | (code, len) :: rest =>
    if len ≤ accBits then
      decide (64 ≤ accBits - len) ||
        ((acc >>> ((accBits - len) % 64)) &&& (2 ^ len - 1) != code &&
          findOverflows acc accBits rest)
    else findOverflows acc accBits rest

def drainOverflows : Nat → Nat → Nat → Bool
  | 0, _, _ => false
  | fuel + 1, acc, accBits =>
    if accBits > 0 then
      findOverflows acc accBits (codeTable.take 256) ||
        match findCode acc accBits (codeTable.take 256) 0 with
        | some (_, len) =>
          decide (64 ≤ accBits - len) ||
            drainOverflows fuel (acc &&& (2 ^ ((accBits - len) % 64) - 1)) (accBits - len)
        | none => false
    else false

/-- An operation of the decoder on the accumulator or its number of bits is not exact: an octet
shifted in pushes a bit out, the number of bits passes 255, or a shift is by 64 places or more. -/
def decodeOverflows : Octets → Nat → Nat → Bool
  | [], _, accBits => decide (64 ≤ accBits)
  | b :: rest, acc, accBits =>
    let acc' := (acc <<< 8) % 18446744073709551616 ||| b.toNat
    let accBits' := (accBits + 8) % 256
    let left := (drain accBits' acc' accBits').2
    decide (18446744073709551616 ≤ acc <<< 8) || decide (256 ≤ accBits + 8) ||
      drainOverflows accBits' acc' accBits' || decodeOverflows rest left.1 left.2

variable {acc accBits : Nat} {l : List (Nat × Nat)} {fuel : Nat}

theorem findOverflows_of_le (hl : ∀ e ∈ l, 0 < e.2) (h : accBits ≤ 64) :
    findOverflows acc accBits l = false := by
  induction l with
  | nil => rfl
  | cons e l ih =>
    obtain ⟨code, len⟩ := e
    have hpos : 0 < len := hl (code, len) (List.mem_cons_self ..)
    have hrest := ih fun e he => hl e (List.mem_cons_of_mem _ he)
    rw [findOverflows, hrest, Bool.and_false, Bool.or_false, decide_eq_false (by omega)]
    exact ite_self false

theorem findCode_pos {start len : Nat} {sym : UInt8} (hl : ∀ e ∈ l, 0 < e.2)
    (h : findCode acc accBits l start = some (sym, len)) : 0 < len := by
  induction l generalizing start with
  | nil => cases h
  | cons e l ih =>
    rw [findCode] at h
    split at h
    · cases h
      exact hl _ (List.mem_cons_self ..)
    · exact ih (fun e he => hl e (List.mem_cons_of_mem _ he)) h

theorem symbols_pos : ∀ e ∈ codeTable.take 256, 0 < e.2 :=
  fun e he => (codeTable_fits e (List.mem_of_mem_take he)).1

theorem drainOverflows_of_le (h : accBits ≤ 64) : drainOverflows fuel acc accBits = false := by
  induction fuel generalizing acc accBits with
  | zero => rfl
  | succ fuel ih =>
    rw [drainOverflows, findOverflows_of_le symbols_pos h, Bool.false_or]
    split
    · split
      · next sym len hfound =>
        have hpos := findCode_pos symbols_pos hfound
        rw [decide_eq_false (by omega), Bool.false_or]
        exact ih (by omega)
      · rfl
    · rfl

theorem drain_lt (hbits : accBits ≤ 64) (h : acc < 2 ^ accBits) :
    (drain fuel acc accBits).2.1 < 2 ^ (drain fuel acc accBits).2.2 := by
  induction fuel generalizing acc accBits with
  | zero => exact h
  | succ fuel ih =>
    rw [drain]
    split
    · split
      · next sym len hfound =>
        have hpos := findCode_pos symbols_pos hfound
        rw [Nat.mod_eq_of_lt (show accBits - len < 64 by omega), and_mask]
        exact ih (by omega) (Nat.mod_lt _ (Nat.two_pow_pos _))
      · exact h
    · exact h

variable {bytes : Octets} {tail : List Bool}

theorem decodeOverflows_of_tail {todo : Octets} (hstuck : Stuck tail) (htail : tail.length < 64)
    (h : toBits accBits acc ++ bitsOf bytes = codeBits todo ++ tail) (hwaits : Waits todo accBits)
    (hacc : acc < 2 ^ accBits) : decodeOverflows bytes acc accBits = false := by
  induction bytes generalizing acc accBits todo with
  | nil =>
    have hlt := waits_lt h hwaits
    rw [decodeOverflows, decide_eq_false]
    omega
  | cons b rest ih =>
    have hroom := waits_room h hwaits htail.le
    have hfit : acc <<< 8 < 2 ^ (accBits + 8) := by
      rw [Nat.shiftLeft_eq, Nat.pow_add]
      exact Nat.mul_lt_mul_of_pos_right hacc (Nat.two_pow_pos 8)
    have hexact : acc <<< 8 < 18446744073709551616 :=
      hfit.trans_le (Nat.pow_le_pow_right (by decide) hroom)
    have hacc' : (acc <<< 8) % 18446744073709551616 ||| b.toNat < 2 ^ (accBits + 8) := by
      rw [Nat.mod_eq_of_lt hexact]
      refine Nat.or_lt_two_pow hfit (b.toNat_lt.trans_le ?_)
      exact Nat.pow_le_pow_right (by decide) (Nat.le_add_left _ _)
    have hmod : (accBits + 8) % 256 = accBits + 8 := Nat.mod_eq_of_lt (by omega)
    rw [bitsOf_cons, ← List.append_assoc, ← toBits_shift_octet hroom] at h
    obtain ⟨todo', -, hleft, hwaits'⟩ := drain_spec (Nat.le_refl _) hroom hstuck h
    rw [decodeOverflows]
    simp only [hmod]
    rw [decide_eq_false (Nat.not_le.mpr hexact), decide_eq_false (by omega),
      drainOverflows_of_le hroom, ih hleft hwaits' (drain_lt hroom hacc')]
    rfl

theorem decodeOverflows_append {more : Octets}
    (h : decodeOverflows more (decodeLoop bytes acc accBits).2.1
      (decodeLoop bytes acc accBits).2.2 = true) :
      decodeOverflows (bytes ++ more) acc accBits = true := by
  induction bytes generalizing acc accBits with
  | nil => exact h
  | cons b rest ih =>
    rw [List.cons_append, decodeOverflows]
    simp only [Bool.or_eq_true]
    exact .inr (ih h)

/-! ### Reading bits as codes -/

def behind (x : Bool) (words : List (List Bool)) : List (List Bool) :=
  words.filterMap fun word => if word.head? = some x then some word.tail else none

def complete : Nat → List (List Bool) → Bool
  | 0, words => words.any List.isEmpty
  | n + 1, words =>
    words.any List.isEmpty || (complete n (behind true words) && complete n (behind false words))

variable {words : List (List Bool)} {n : Nat}

theorem exists_prefix_of_empty (l : List Bool) (h : words.any List.isEmpty = true) :
    ∃ word ∈ words, word <+: l := by
  obtain ⟨word, hword, hnil⟩ := List.any_eq_true.mp h
  rw [List.isEmpty_iff] at hnil
  exact ⟨word, hword, hnil ▸ List.nil_prefix⟩

theorem exists_prefix_of_complete {l : List Bool} (h : complete n words = true)
    (hl : n ≤ l.length) : ∃ word ∈ words, word <+: l := by
  induction n generalizing words l with
  | zero => exact exists_prefix_of_empty l h
  | succ n ih =>
    rw [complete, Bool.or_eq_true, Bool.and_eq_true] at h
    rcases h with h | ⟨htrue, hfalse⟩
    · exact exists_prefix_of_empty l h
    · cases l with
      | nil => cases hl
      | cons x l =>
        have hbehind : complete n (behind x words) = true := by
          cases x
          · exact hfalse
          · exact htrue
        obtain ⟨word, hword, hprefix⟩ := ih hbehind (Nat.le_of_succ_le_succ hl)
        obtain ⟨whole, hwhole, hcut⟩ := List.mem_filterMap.mp hword
        split at hcut
        · next hhead =>
          cases hcut
          refine ⟨whole, hwhole, ?_⟩
          rw [List.eq_cons_of_mem_head? hhead]
          exact List.cons_prefix_cons.mpr ⟨rfl, hprefix⟩
        · cases hcut

theorem codeTable_complete : complete 30 (codeTable.map bits) = true := by decide +kernel

def eos : List Bool := bits (1073741823, 30)

theorem length_eos : eos.length = 30 := length_toBits _ _

theorem stuck_of_eos (h : eos <+: tail) : Stuck tail := by
  intro b hb
  have heq := eq_of_bits_prefix (getElem?_codeOf b) getElem?_eos hb h
  have hlt := b.toNat_lt
  omega

theorem eos_of_stuck (hstuck : Stuck tail) (hlen : 30 ≤ tail.length) : eos <+: tail := by
  obtain ⟨word, hword, hprefix⟩ := exists_prefix_of_complete codeTable_complete hlen
  obtain ⟨e, he, rfl⟩ := List.mem_map.mp hword
  obtain ⟨i, hi⟩ := List.getElem?_of_mem he
  have hlt : i < 257 := length_codeTable ▸ (List.getElem?_eq_some_iff.mp hi).1
  by_cases hsymbol : i < 256
  · have hget := getElem?_codeOf (UInt8.ofNat i)
    rw [toNat_ofNat hsymbol, hi] at hget
    rw [Option.some.inj hget] at hprefix
    exact absurd hprefix (hstuck _)
  · obtain rfl : i = 256 := by omega
    rw [← Option.some.inj hi] at hprefix
    exact hprefix

theorem exists_split (l : List Bool) :
    ∃ symbols tail, l = codeBits symbols ++ tail ∧ Stuck tail := by
  induction hn : l.length using Nat.strong_induction_on generalizing l with
  | h n ih =>
    by_cases hcode : ∃ b : UInt8, bits (codeOf b) <+: l
    · obtain ⟨b, rest, rfl⟩ := hcode
      have hpos := (codeOf_fits b).1
      rw [List.length_append, length_bits_codeOf] at hn
      obtain ⟨symbols, tail, rfl, hstuck⟩ := ih rest.length (by omega) rest rfl
      refine ⟨b :: symbols, tail, ?_, hstuck⟩
      rw [codeBits_cons, List.append_assoc]
    · exact ⟨[], l, rfl, fun b hb => hcode ⟨b, hb⟩⟩

/-! ### What is accepted -/

/-- The octets read as codes of octets, then EOS, and then 34 bits or more: from the start of EOS on
they do not fit below the highest bit of the accumulator. -/
def RunsPastEos (bytes : Octets) : Prop :=
  ∃ symbols rest, bitsOf bytes = codeBits symbols ++ (eos ++ rest) ∧ 34 ≤ rest.length

theorem waits_zero (todo : Octets) : Waits todo 0 := fun b _ _ => (codeOf_fits b).1

variable {symbols : Octets}

theorem eq_encode {pad : Nat} (hpad : pad < 8)
    (h : bitsOf bytes = codeBits symbols ++ List.replicate pad true) : bytes = encode symbols := by
  obtain ⟨pad', hpad', h'⟩ := bitsOf_encode symbols
  have hlen := congrArg List.length h
  have hlen' := congrArg List.length h'
  rw [length_bitsOf, List.length_append, List.length_replicate] at hlen hlen'
  obtain rfl : pad = pad' := by omega
  exact bitsOf_inj (h.trans h'.symm)

theorem eq_encode_of_decode {out : Octets} (hstuck : Stuck tail) (htail : tail.length < 64)
    (h : bitsOf bytes = codeBits symbols ++ tail) (hdecode : decode bytes = .ok out) :
    bytes = encode out := by
  have hleft : (decodeLoop bytes 0 0).1 = symbols ∧ _ :=
    decodeLoop_spec hstuck htail.le h (waits_zero symbols)
  rw [decode_of_left htail hleft] at hdecode
  split at hdecode
  · next hpad =>
    cases hdecode
    rw [hpad.2] at h
    exact eq_encode hpad.1 h
  · cases hdecode

theorem testBit_of_head {v : Nat} (h : (toBits n v).head? = some true) :
    0 < n ∧ v.testBit (n - 1) = true := by
  cases n with
  | zero => cases h
  | succ n => exact ⟨Nat.succ_pos n, Option.some.inj h⟩

theorem head_of_eos (h : eos <+: tail) : tail.head? = some true := by
  obtain ⟨rest, rfl⟩ := h
  rfl

theorem decodeOverflows_of_runsPastEos (h : RunsPastEos bytes) :
    decodeOverflows bytes 0 0 = true := by
  obtain ⟨symbols, rest, hbits, hrest⟩ := h
  -- The octets up to where between 57 and 64 bits of the tail are there.
  have hlen := congrArg List.length hbits
  rw [length_bitsOf, List.length_append, List.length_append, length_eos] at hlen
  obtain ⟨k, hk⟩ : ∃ k, k = ((codeBits symbols).length + 64) / 8 := ⟨_, rfl⟩
  have htake : bitsOf (bytes.take k) = codeBits symbols ++
      (eos ++ rest).take (8 * k - (codeBits symbols).length) := by
    rw [bitsOf_take, hbits, List.take_append, List.take_of_length_le (by omega)]
  generalize hshort : (eos ++ rest).take (8 * k - (codeBits symbols).length) = tail at htake
  have htail : tail.length = 8 * k - (codeBits symbols).length := by
    rw [← hshort, List.length_take, List.length_append, length_eos]
    omega
  have heos : eos <+: tail := by
    rw [← hshort, List.take_append, List.take_of_length_le (by rw [length_eos]; omega)]
    exact List.prefix_append _ _
  obtain ⟨-, hleft⟩ : _ ∧ toBits (decodeLoop (bytes.take k) 0 0).2.2
      (decodeLoop (bytes.take k) 0 0).2.1 = tail :=
    decodeLoop_spec (stuck_of_eos heos) (by omega) htake (waits_zero symbols)
  have haccBits := congrArg List.length hleft
  rw [length_toBits, htail] at haccBits
  rw [← List.take_append_drop k bytes]
  refine decodeOverflows_append ?_
  cases hdrop : bytes.drop k with
  | nil =>
    rw [List.drop_eq_nil_iff] at hdrop
    exact decide_eq_true (by omega)
  | cons b more =>
    have hhead := head_of_eos heos
    rw [← hleft] at hhead
    have htop := Nat.ge_two_pow_of_testBit (testBit_of_head hhead).2
    have hbig : 18446744073709551616 ≤ (decodeLoop (bytes.take k) 0 0).2.1 <<< 8 := by
      rw [Nat.shiftLeft_eq]
      calc 18446744073709551616 = 2 ^ 56 * 2 ^ 8 := by norm_num
        _ ≤ _ := Nat.mul_le_mul_right _ ((Nat.pow_le_pow_right (by decide) (by omega)).trans htop)
    rw [decodeOverflows]
    simp only [decide_eq_true hbig, Bool.true_or]

/-- The decoder accepts exactly the encodings, with every operation exact, where the octets do not
run past EOS. -/
theorem decode_exact_iff (bytes : Octets) :
    ((∀ symbols, decode bytes = .ok symbols ↔ bytes = encode symbols) ∧
        decodeOverflows bytes 0 0 = false) ↔
      ¬RunsPastEos bytes := by
  constructor
  · rintro ⟨-, hexact⟩ hruns
    rw [decodeOverflows_of_runsPastEos hruns] at hexact
    cases hexact
  · intro hruns
    obtain ⟨symbols, tail, hbits, hstuck⟩ := exists_split (bitsOf bytes)
    have htail : tail.length < 64 := by
      by_contra hge
      obtain ⟨rest, rfl⟩ := eos_of_stuck hstuck (by omega)
      rw [List.length_append, length_eos] at hge
      exact hruns ⟨symbols, rest, hbits, by omega⟩
    refine ⟨fun out => ⟨eq_encode_of_decode hstuck htail hbits, ?_⟩, ?_⟩
    · rintro rfl
      exact decode_encode out
    · exact decodeOverflows_of_tail hstuck htail hbits (waits_zero symbols) Nat.one_pos

/-- Of 32 octets of ones the number of bits wraps to none: they are accepted as the empty string. -/
theorem ones_decode_to_nothing :
    decode (List.replicate 32 255) = .ok [] ∧ List.replicate 32 255 ≠ encode [] ∧
      decodeOverflows (List.replicate 32 255) 0 0 = true := by
  decide +kernel

end ZeroDds.Hpack.Huffman
