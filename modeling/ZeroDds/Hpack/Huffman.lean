/-
The static Huffman code.

The coder shifts the codes of the octets into an accumulator of 64 bits and takes full octets out of
its end; the decoder shifts octets in and takes out the first symbol whose code the bits start with.
-/
import ZeroDds.Lib.Bits
import ZeroDds.Hpack.Integer

namespace ZeroDds.Hpack.Huffman

def codeTable : List (Nat × Nat) :=
  [(0x1ff8, 13), (0x7fffd8, 23), (0xfffffe2, 28), (0xfffffe3, 28), (0xfffffe4, 28), (0xfffffe5, 28),
    (0xfffffe6, 28), (0xfffffe7, 28), (0xfffffe8, 28), (0xffffea, 24), (0x3ffffffc, 30),
    (0xfffffe9, 28), (0xfffffea, 28), (0x3ffffffd, 30), (0xfffffeb, 28), (0xfffffec, 28),
    (0xfffffed, 28), (0xfffffee, 28), (0xfffffef, 28), (0xffffff0, 28), (0xffffff1, 28),
    (0xffffff2, 28), (0x3ffffffe, 30), (0xffffff3, 28), (0xffffff4, 28), (0xffffff5, 28),
    (0xffffff6, 28), (0xffffff7, 28), (0xffffff8, 28), (0xffffff9, 28), (0xffffffa, 28),
    (0xffffffb, 28), (0x14, 6), (0x3f8, 10), (0x3f9, 10), (0xffa, 12), (0x1ff9, 13), (0x15, 6),
    (0xf8, 8), (0x7fa, 11), (0x3fa, 10), (0x3fb, 10), (0xf9, 8), (0x7fb, 11), (0xfa, 8), (0x16, 6),
    (0x17, 6), (0x18, 6), (0x0, 5), (0x1, 5), (0x2, 5), (0x19, 6), (0x1a, 6), (0x1b, 6), (0x1c, 6),
    (0x1d, 6), (0x1e, 6), (0x1f, 6), (0x5c, 7), (0xfb, 8), (0x7ffc, 15), (0x20, 6), (0xffb, 12),
    (0x3fc, 10), (0x1ffa, 13), (0x21, 6), (0x5d, 7), (0x5e, 7), (0x5f, 7), (0x60, 7), (0x61, 7),
    (0x62, 7), (0x63, 7), (0x64, 7), (0x65, 7), (0x66, 7), (0x67, 7), (0x68, 7), (0x69, 7),
    (0x6a, 7), (0x6b, 7), (0x6c, 7), (0x6d, 7), (0x6e, 7), (0x6f, 7), (0x70, 7), (0x71, 7),
    (0x72, 7), (0xfc, 8), (0x73, 7), (0xfd, 8), (0x1ffb, 13), (0x7fff0, 19), (0x1ffc, 13),
    (0x3ffc, 14), (0x22, 6), (0x7ffd, 15), (0x3, 5), (0x23, 6), (0x4, 5), (0x24, 6), (0x5, 5),
    (0x25, 6), (0x26, 6), (0x27, 6), (0x6, 5), (0x74, 7), (0x75, 7), (0x28, 6), (0x29, 6),
    (0x2a, 6), (0x7, 5), (0x2b, 6), (0x76, 7), (0x2c, 6), (0x8, 5), (0x9, 5), (0x2d, 6), (0x77, 7),
    (0x78, 7), (0x79, 7), (0x7a, 7), (0x7b, 7), (0x7ffe, 15), (0x7fc, 11), (0x3ffd, 14),
    (0x1ffd, 13), (0xffffffc, 28), (0xfffe6, 20), (0x3fffd2, 22), (0xfffe7, 20), (0xfffe8, 20),
    (0x3fffd3, 22), (0x3fffd4, 22), (0x3fffd5, 22), (0x7fffd9, 23), (0x3fffd6, 22), (0x7fffda, 23),
    (0x7fffdb, 23), (0x7fffdc, 23), (0x7fffdd, 23), (0x7fffde, 23), (0xffffeb, 24), (0x7fffdf, 23),
    (0xffffec, 24), (0xffffed, 24), (0x3fffd7, 22), (0x7fffe0, 23), (0xffffee, 24), (0x7fffe1, 23),
    (0x7fffe2, 23), (0x7fffe3, 23), (0x7fffe4, 23), (0x1fffdc, 21), (0x3fffd8, 22), (0x7fffe5, 23),
    (0x3fffd9, 22), (0x7fffe6, 23), (0x7fffe7, 23), (0xffffef, 24), (0x3fffda, 22), (0x1fffdd, 21),
    (0xfffe9, 20), (0x3fffdb, 22), (0x3fffdc, 22), (0x7fffe8, 23), (0x7fffe9, 23), (0x1fffde, 21),
    (0x7fffea, 23), (0x3fffdd, 22), (0x3fffde, 22), (0xfffff0, 24), (0x1fffdf, 21), (0x3fffdf, 22),
    (0x7fffeb, 23), (0x7fffec, 23), (0x1fffe0, 21), (0x1fffe1, 21), (0x3fffe0, 22), (0x1fffe2, 21),
    (0x7fffed, 23), (0x3fffe1, 22), (0x7fffee, 23), (0x7fffef, 23), (0xfffea, 20), (0x3fffe2, 22),
    (0x3fffe3, 22), (0x3fffe4, 22), (0x7ffff0, 23), (0x3fffe5, 22), (0x3fffe6, 22), (0x7ffff1, 23),
    (0x3ffffe0, 26), (0x3ffffe1, 26), (0xfffeb, 20), (0x7fff1, 19), (0x3fffe7, 22), (0x7ffff2, 23),
    (0x3fffe8, 22), (0x1ffffec, 25), (0x3ffffe2, 26), (0x3ffffe3, 26), (0x3ffffe4, 26),
    (0x7ffffde, 27), (0x7ffffdf, 27), (0x3ffffe5, 26), (0xfffff1, 24), (0x1ffffed, 25),
    (0x7fff2, 19), (0x1fffe3, 21), (0x3ffffe6, 26), (0x7ffffe0, 27), (0x7ffffe1, 27),
    (0x3ffffe7, 26), (0x7ffffe2, 27), (0xfffff2, 24), (0x1fffe4, 21), (0x1fffe5, 21),
    (0x3ffffe8, 26), (0x3ffffe9, 26), (0xffffffd, 28), (0x7ffffe3, 27), (0x7ffffe4, 27),
    (0x7ffffe5, 27), (0xfffec, 20), (0xfffff3, 24), (0xfffed, 20), (0x1fffe6, 21), (0x3fffe9, 22),
    (0x1fffe7, 21), (0x1fffe8, 21), (0x7ffff3, 23), (0x3fffea, 22), (0x3fffeb, 22), (0x1ffffee, 25),
    (0x1ffffef, 25), (0xfffff4, 24), (0xfffff5, 24), (0x3ffffea, 26), (0x7ffff4, 23),
    (0x3ffffeb, 26), (0x7ffffe6, 27), (0x3ffffec, 26), (0x3ffffed, 26), (0x7ffffe7, 27),
    (0x7ffffe8, 27), (0x7ffffe9, 27), (0x7ffffea, 27), (0x7ffffeb, 27), (0xffffffe, 28),
    (0x7ffffec, 27), (0x7ffffed, 27), (0x7ffffee, 27), (0x7ffffef, 27), (0x7fffff0, 27),
    (0x3ffffee, 26), (0x3fffffff, 30)]

inductive HuffmanError where
  | invalid
deriving DecidableEq

def codeOf (b : UInt8) : Nat × Nat := codeTable.getD b.toNat (0, 0)

def flush : Nat → Nat → Nat → Octets × Nat
  | 0, _, accBits => ([], accBits)
  | fuel + 1, acc, accBits =>
    if accBits ≥ 8 then
      let (out, left) := flush fuel acc (accBits - 8)
      (UInt8.ofNat (acc >>> (accBits - 8)) :: out, left)
    else ([], accBits)

def encodeLoop : Octets → Nat → Nat → Octets
  | [], acc, accBits =>
    if accBits > 0 then
      let pad := 8 - accBits
      [UInt8.ofNat ((acc <<< pad) % 18446744073709551616 ||| (2 ^ pad - 1))]
    else []
  | b :: rest, acc, accBits =>
    let (code, len) := codeOf b
    let acc := (acc <<< len) % 18446744073709551616 ||| code
    let (out, left) := flush (accBits + len) acc (accBits + len)
    out ++ encodeLoop rest acc left

def encode (bytes : Octets) : Octets := encodeLoop bytes 0 0

/-- The first symbol whose code the bits of the accumulator start with, and its number of bits. -/
def findCode (acc accBits : Nat) : List (Nat × Nat) → Nat → Option (UInt8 × Nat)
  | [], _ => none
  | (code, len) :: rest, sym =>
    if len ≤ accBits ∧ (acc >>> ((accBits - len) % 64)) &&& (2 ^ len - 1) = code then
      some (UInt8.ofNat sym, len)
    else findCode acc accBits rest (sym + 1)

def drain : Nat → Nat → Nat → Octets × Nat × Nat
  | 0, acc, accBits => ([], acc, accBits)
  | fuel + 1, acc, accBits =>
    if accBits > 0 then
      match findCode acc accBits (codeTable.take 256) 0 with
      | some (sym, len) =>
        let (out, left) := drain fuel (acc &&& (2 ^ ((accBits - len) % 64) - 1)) (accBits - len)
        (sym :: out, left)
      | none => ([], acc, accBits)
    else ([], acc, accBits)

def decodeLoop : Octets → Nat → Nat → Octets × Nat × Nat
  | [], acc, accBits => ([], acc, accBits)
  | b :: rest, acc, accBits =>
    let acc := (acc <<< 8) % 18446744073709551616 ||| b.toNat
    let accBits := (accBits + 8) % 256
    let (out, acc, accBits) := drain accBits acc accBits
    let (out', left) := decodeLoop rest acc accBits
    (out ++ out', left)

def decode (bytes : Octets) : Except HuffmanError Octets :=
  let (out, acc, accBits) := decodeLoop bytes 0 0
  let padMask := 2 ^ (accBits % 64) - 1
  if accBits > 0 ∧ (acc &&& padMask ≠ padMask ∨ accBits ≥ 8) then .error .invalid
  else .ok out

theorem codeTable_fits : ∀ e ∈ codeTable, 0 < e.2 ∧ e.2 ≤ 30 ∧ e.1 < 2 ^ e.2 := by
  decide +kernel

def Starts (a b : Nat × Nat) : Prop := a.2 ≤ b.2 ∧ b.1 >>> (b.2 - a.2) = a.1

def starts (a b : Nat × Nat) : Bool := Nat.ble a.2 b.2 && Nat.beq (b.1 >>> (b.2 - a.2)) a.1

variable {a : Nat × Nat}

theorem starts_iff {b : Nat × Nat} : starts a b = true ↔ Starts a b := by
  rw [starts, Bool.and_eq_true, Nat.ble_eq, Nat.beq_eq]
  rfl

def prefixFree : List (Nat × Nat) → Bool
  | [] => true
  | a :: rest => rest.all (fun b => !starts a b && !starts b a) && prefixFree rest

variable {l : List (Nat × Nat)} {i : Nat}

theorem pairwise_of_prefixFree (h : prefixFree l = true) :
    l.Pairwise fun a b => ¬Starts a b ∧ ¬Starts b a := by
  induction l with
  | nil => exact List.Pairwise.nil
  | cons a rest ih =>
    rw [prefixFree, Bool.and_eq_true, List.all_eq_true] at h
    refine List.pairwise_cons.mpr ⟨fun b hb => ?_, ih h.2⟩
    have hab := h.1 b hb
    rw [Bool.and_eq_true, Bool.not_eq_true', Bool.not_eq_true'] at hab
    exact ⟨fun hs => Bool.false_ne_true (hab.1.symm.trans (starts_iff.mpr hs)),
      fun hs => Bool.false_ne_true (hab.2.symm.trans (starts_iff.mpr hs))⟩

theorem codeTable_prefixFree : codeTable.Pairwise fun a b => ¬Starts a b ∧ ¬Starts b a :=
  pairwise_of_prefixFree (by decide +kernel)

theorem length_codeTable : codeTable.length = 257 := by decide +kernel

theorem not_starts {j : Nat} {b : Nat × Nat} (hi : codeTable[i]? = some a)
    (hj : codeTable[j]? = some b) (hne : i ≠ j) : ¬Starts a b := by
  obtain ⟨hi', rfl⟩ := List.getElem?_eq_some_iff.mp hi
  obtain ⟨hj', rfl⟩ := List.getElem?_eq_some_iff.mp hj
  have hpair := List.pairwise_iff_getElem.mp codeTable_prefixFree
  rcases Nat.lt_or_gt_of_ne hne with hlt | hlt
  · exact (hpair i j hi' hj' hlt).1
  · exact (hpair j i hj' hi' hlt).2

def bits (e : Nat × Nat) : List Bool := toBits e.2 e.1

theorem eq_of_bits_prefix {j : Nat} {b : Nat × Nat} {l : List Bool} (hi : codeTable[i]? = some a)
    (hj : codeTable[j]? = some b) (ha : bits a <+: l) (hb : bits b <+: l) : i = j := by
  have hstarts : ∀ {x y : Nat × Nat}, x ∈ codeTable → y ∈ codeTable → bits x <+: bits y →
      Starts x y := by
    intro x y hx hy h
    obtain ⟨hle, hmod⟩ := (toBits_prefix_iff (codeTable_fits x hx).2.2).mp h
    refine ⟨hle, ?_⟩
    have hlt : y.1 >>> (y.2 - x.2) < 2 ^ x.2 := by
      rw [Nat.shiftRight_eq_div_pow]
      refine Nat.div_lt_of_lt_mul ?_
      rw [← Nat.pow_add, Nat.sub_add_cancel hle]
      exact (codeTable_fits y hy).2.2
    rw [Nat.mod_eq_of_lt hlt] at hmod
    exact hmod
  by_contra hne
  rcases List.prefix_or_prefix_of_prefix ha hb with h | h
  · exact not_starts hi hj hne (hstarts (List.mem_of_getElem? hi) (List.mem_of_getElem? hj) h)
  · exact not_starts hj hi (Ne.symm hne)
      (hstarts (List.mem_of_getElem? hj) (List.mem_of_getElem? hi) h)

theorem getElem?_codeOf (b : UInt8) : codeTable[b.toNat]? = some (codeOf b) := by
  have hlt : b.toNat < codeTable.length := by
    rw [length_codeTable]
    exact Nat.lt_trans b.toNat_lt (by decide)
  rw [codeOf, List.getD_eq_getElem?_getD, List.getElem?_eq_getElem hlt, Option.getD_some]

theorem codeOf_fits (b : UInt8) :
    0 < (codeOf b).2 ∧ (codeOf b).2 ≤ 30 ∧ (codeOf b).1 < 2 ^ (codeOf b).2 :=
  codeTable_fits _ (List.mem_of_getElem? (getElem?_codeOf b))

theorem getElem?_eos : codeTable[256]? = some (1073741823, 30) := by decide +kernel

variable {b : UInt8}

theorem not_bits_prefix_ones {n : Nat} (hn : n ≤ 30) :
    ¬bits (codeOf b) <+: List.replicate n true := by
  intro h
  have heos : bits (1073741823, 30) = List.replicate 30 true := toBits_ones 30
  have hones : List.replicate n true <+: bits (1073741823, 30) := by
    rw [heos, List.prefix_replicate_iff, List.length_replicate]
    exact ⟨hn, rfl⟩
  have heq := eq_of_bits_prefix (getElem?_codeOf b) getElem?_eos (h.trans hones)
      (List.prefix_refl _)
  have hlt := b.toNat_lt
  omega

/-! ### The search for a symbol -/

variable {acc accBits : Nat}

theorem match_iff {e : Nat × Nat} (he : e ∈ codeTable) (hbits : accBits ≤ 64) :
    (e.2 ≤ accBits ∧ (acc >>> ((accBits - e.2) % 64)) &&& (2 ^ e.2 - 1) = e.1) ↔
      bits e <+: toBits accBits acc := by
  obtain ⟨hpos, -, hfits⟩ := codeTable_fits e he
  rw [bits, toBits_prefix_iff hfits, and_mask]
  refine and_congr_right fun hle => ?_
  rw [Nat.mod_eq_of_lt (show accBits - e.2 < 64 by omega)]

theorem findCode_eq_some {start : Nat} {e : Nat × Nat} (hget : l[i]? = some e)
    (hmatch : e.2 ≤ accBits ∧ (acc >>> ((accBits - e.2) % 64)) &&& (2 ^ e.2 - 1) = e.1)
    (hfirst : ∀ j e', j < i → l[j]? = some e' →
      ¬(e'.2 ≤ accBits ∧ (acc >>> ((accBits - e'.2) % 64)) &&& (2 ^ e'.2 - 1) = e'.1)) :
    findCode acc accBits l start = some (UInt8.ofNat (start + i), e.2) := by
  induction l generalizing start i with
  | nil => cases hget
  | cons a rest ih =>
    obtain ⟨code, len⟩ := a
    rw [findCode]
    cases i with
    | zero =>
      obtain rfl := Option.some.inj hget
      rw [if_pos hmatch]
      rfl
    | succ i =>
      rw [if_neg (hfirst 0 (code, len) (Nat.succ_pos i) rfl), ih hget fun j e' hj he' =>
        hfirst (j + 1) e' (Nat.succ_lt_succ hj) he', Nat.add_right_comm]
      rfl

theorem findCode_eq_none {start : Nat}
    (h : ∀ e ∈ l, ¬(e.2 ≤ accBits ∧ (acc >>> ((accBits - e.2) % 64)) &&& (2 ^ e.2 - 1) = e.1)) :
    findCode acc accBits l start = none := by
  induction l generalizing start with
  | nil => rfl
  | cons a rest ih =>
    obtain ⟨code, len⟩ := a
    rw [findCode, if_neg (h (code, len) List.mem_cons_self),
      ih fun e he => h e (List.mem_cons_of_mem _ he)]

theorem findCode_of_bits_prefix (hbits : accBits ≤ 64)
    (h : bits (codeOf b) <+: toBits accBits acc) :
    findCode acc accBits (codeTable.take 256) 0 = some (b, (codeOf b).2) := by
  have hget : (codeTable.take 256)[b.toNat]? = some (codeOf b) := by
    rw [List.getElem?_take_of_lt b.toNat_lt]
    exact getElem?_codeOf b
  have hmem := List.mem_of_getElem? (getElem?_codeOf b)
  rw [findCode_eq_some hget ((match_iff hmem hbits).mpr h), Nat.zero_add, UInt8.ofNat_toNat]
  intro j e' hj he' hmatch
  rw [List.getElem?_take_of_lt (Nat.lt_trans hj b.toNat_lt)] at he'
  have hstart := (match_iff (List.mem_of_getElem? he') hbits).mp hmatch
  have heq := eq_of_bits_prefix he' (getElem?_codeOf b) hstart h
  omega

theorem findCode_of_no_prefix (hbits : accBits ≤ 64)
    (h : ∀ b : UInt8, ¬bits (codeOf b) <+: toBits accBits acc) :
    findCode acc accBits (codeTable.take 256) 0 = none := by
  refine findCode_eq_none fun e he hmatch => ?_
  obtain ⟨i, hi⟩ := List.getElem?_of_mem he
  have hlt : i < 256 := by
    have hlen := (List.getElem?_eq_some_iff.mp hi).1
    rw [List.length_take] at hlen
    omega
  rw [List.getElem?_take_of_lt hlt] at hi
  have hcode : codeOf (UInt8.ofNat i) = e := by
    have hget := getElem?_codeOf (UInt8.ofNat i)
    rw [toNat_ofNat hlt, hi] at hget
    exact (Option.some.inj hget).symm
  refine h (UInt8.ofNat i) ?_
  rw [hcode]
  exact (match_iff (List.mem_of_getElem? hi) hbits).mp hmatch

def codeBits (bytes : Octets) : List Bool := bytes.flatMap fun b => bits (codeOf b)

theorem codeBits_cons (b : UInt8) (rest : Octets) :
    codeBits (b :: rest) = bits (codeOf b) ++ codeBits rest := List.flatMap_cons

theorem length_bits_codeOf (b : UInt8) :
    (bits (codeOf b)).length = (codeOf b).2 := length_toBits _ _

def Stuck (tail : List Bool) : Prop := ∀ b : UInt8, ¬bits (codeOf b) <+: tail

theorem stuck_ones {n : Nat} (hn : n ≤ 30) : Stuck (List.replicate n true) :=
  fun _ => not_bits_prefix_ones hn

/-- Where the bits that are there and those to come are the codes of `todo` and a tail, the next
code is not yet there. -/
def Waits (todo : Octets) (accBits : Nat) : Prop :=
  ∀ b rest, todo = b :: rest → accBits < (codeOf b).2

section Tail

variable {todo : Octets} {future tail : List Bool}
  (h : toBits accBits acc ++ future = codeBits todo ++ tail) (hwaits : Waits todo accBits)

include h hwaits

theorem waits_lt : accBits < 30 ∨ accBits + future.length = tail.length := by
  cases todo with
  | nil =>
    have hlen := congrArg List.length h
    simp only [codeBits, List.flatMap_nil, List.nil_append, List.length_append,
      length_toBits] at hlen
    exact .inr hlen
  | cons b rest => exact .inl (Nat.lt_of_lt_of_le (hwaits b rest rfl) (codeOf_fits b).2.1)

theorem no_prefix_of_waits (hstuck : Stuck tail) (b : UInt8) :
    ¬bits (codeOf b) <+: toBits accBits acc := by
  intro hstart
  cases todo with
  | nil =>
    exact hstuck b (hstart.trans ⟨future, h⟩)
  | cons t rest =>
    have hlt := hwaits t rest rfl
    rw [codeBits_cons, List.append_assoc] at h
    have hshort : toBits accBits acc <+: bits (codeOf t) := by
      refine List.prefix_of_prefix_length_le ⟨future, h⟩ (List.prefix_append _ _) ?_
      rw [length_toBits, length_bits_codeOf]
      omega
    have heq := eq_of_bits_prefix (getElem?_codeOf b) (getElem?_codeOf t) (hstart.trans hshort)
      (List.prefix_refl _)
    obtain rfl := UInt8.toNat_inj.mp heq
    have hlen := hstart.length_le
    rw [length_toBits, length_bits_codeOf] at hlen
    omega

end Tail

variable {todo bytes : Octets} {tail : List Bool}

theorem drain_spec {fuel : Nat} {future : List Bool} (hfuel : accBits ≤ fuel)
    (hbits : accBits ≤ 64) (hstuck : Stuck tail)
    (h : toBits accBits acc ++ future = codeBits todo ++ tail) :
    ∃ todo', todo = (drain fuel acc accBits).1 ++ todo' ∧
      toBits (drain fuel acc accBits).2.2 (drain fuel acc accBits).2.1 ++ future =
        codeBits todo' ++ tail ∧
      Waits todo' (drain fuel acc accBits).2.2 := by
  induction fuel generalizing acc accBits todo with
  | zero =>
    obtain rfl : accBits = 0 := Nat.le_zero.mp hfuel
    refine ⟨todo, rfl, h, fun b rest _ => (codeOf_fits b).1⟩
  | succ fuel ih =>
    by_cases hwaits : Waits todo accBits
    · have hnone : drain (fuel + 1) acc accBits = ([], acc, accBits) := by
        rw [drain, findCode_of_no_prefix hbits (no_prefix_of_waits h hwaits hstuck)]
        split <;> rfl
      rw [hnone]
      exact ⟨todo, rfl, h, hwaits⟩
    · obtain ⟨b, rest, rfl, hle⟩ : ∃ b rest, todo = b :: rest ∧ (codeOf b).2 ≤ accBits := by
        unfold Waits at hwaits
        push Not at hwaits
        exact hwaits
      rw [codeBits_cons, List.append_assoc] at h
      have hstart : bits (codeOf b) <+: toBits accBits acc := by
        refine List.prefix_of_prefix_length_le (List.prefix_append _ _) ⟨future, h⟩ ?_
        rw [length_toBits, length_bits_codeOf]
        exact hle
      have hpos := (codeOf_fits b).1
      have hfound : drain (fuel + 1) acc accBits =
          (b :: (drain fuel (acc &&& (2 ^ (accBits - (codeOf b).2) - 1))
              (accBits - (codeOf b).2)).1,
            (drain fuel (acc &&& (2 ^ (accBits - (codeOf b).2) - 1))
              (accBits - (codeOf b).2)).2) := by
        rw [drain, if_pos (by omega), findCode_of_bits_prefix hbits hstart]
        simp only
        rw [Nat.mod_eq_of_lt (show accBits - (codeOf b).2 < 64 by omega)]
      have hsplit : toBits accBits acc = bits (codeOf b) ++
          toBits (accBits - (codeOf b).2) (acc &&& (2 ^ (accBits - (codeOf b).2) - 1)) := by
        have htake := List.prefix_iff_eq_take.mp hstart
        rw [toBits_split hle, length_bits_codeOf, List.take_left' (length_toBits _ _)] at htake
        rw [and_mask, toBits_mod (Nat.le_refl _), toBits_split hle, htake]
      have hrest : toBits (accBits - (codeOf b).2) (acc &&& (2 ^ (accBits - (codeOf b).2) - 1)) ++
          future = codeBits rest ++ tail := by
        rw [hsplit, List.append_assoc] at h
        exact List.append_cancel_left h
      obtain ⟨todo', htodo, hleft, hwaits'⟩ := ih (by omega) (by omega) hrest
      rw [hfound]
      exact ⟨todo', by rw [List.cons_append, ← htodo], hleft, hwaits'⟩

theorem toBits_shift_octet (hbits : accBits + 8 ≤ 64) :
    toBits (accBits + 8) ((acc <<< 8) % 18446744073709551616 ||| b.toNat) =
      toBits accBits acc ++ toBits 8 b.toNat := by
  rw [← toBits_shift_or b.toNat_lt]
  refine toBits_congr fun i hi => ?_
  rw [Nat.testBit_or, Nat.testBit_or, show 18446744073709551616 = 2 ^ 64 from rfl,
    Nat.testBit_mod_two_pow, decide_eq_true (by omega), Bool.true_and]

theorem waits_room {rest : Octets}
    (h : toBits accBits acc ++ bitsOf (b :: rest) = codeBits todo ++ tail)
    (hwaits : Waits todo accBits) (htail : tail.length ≤ 64) : accBits + 8 ≤ 64 := by
  have hlt := waits_lt h hwaits
  rw [bitsOf_cons, List.length_append, length_toBits] at hlt
  omega

theorem decodeLoop_spec (hstuck : Stuck tail) (htail : tail.length ≤ 64)
    (h : toBits accBits acc ++ bitsOf bytes = codeBits todo ++ tail) (hwaits : Waits todo accBits) :
    (decodeLoop bytes acc accBits).1 = todo ∧
      toBits (decodeLoop bytes acc accBits).2.2 (decodeLoop bytes acc accBits).2.1 = tail := by
  induction bytes generalizing acc accBits todo with
  | nil =>
    rw [bitsOf, List.flatMap_nil, List.append_nil] at h
    cases todo with
    | nil => exact ⟨rfl, h⟩
    | cons b rest =>
      have hlen := congrArg List.length h
      rw [length_toBits, codeBits_cons, List.length_append, List.length_append,
        length_bits_codeOf] at hlen
      have := hwaits b rest rfl
      omega
  | cons b rest ih =>
    have hroom := waits_room h hwaits htail
    rw [bitsOf_cons, ← List.append_assoc, ← toBits_shift_octet hroom] at h
    have hmod : (accBits + 8) % 256 = accBits + 8 := Nat.mod_eq_of_lt (by omega)
    obtain ⟨todo', rfl, hleft, hwaits'⟩ := drain_spec (Nat.le_refl _) hroom hstuck h
    obtain ⟨hout, hend⟩ := ih hleft hwaits'
    rw [decodeLoop]
    simp only [hmod]
    exact ⟨by rw [hout], hend⟩

theorem flush_spec {fuel : Nat} (hfuel : accBits ≤ fuel) :
    bitsOf (flush fuel acc accBits).1 ++ toBits (flush fuel acc accBits).2 acc =
        toBits accBits acc ∧
      (flush fuel acc accBits).2 < 8 := by
  induction fuel generalizing accBits with
  | zero =>
    obtain rfl : accBits = 0 := Nat.le_zero.mp hfuel
    exact ⟨rfl, Nat.succ_pos 7⟩
  | succ fuel ih =>
    rw [flush]
    split
    · next hfull =>
      obtain ⟨hbits, hlt⟩ := ih (show accBits - 8 ≤ fuel by omega)
      refine ⟨?_, hlt⟩
      have hbyte : toBits 8 (UInt8.ofNat (acc >>> (accBits - 8))).toNat =
          toBits 8 (acc >>> (accBits - 8)) := by
        exact toBits_mod (Nat.le_refl 8)
      rw [bitsOf_cons, List.append_assoc, hbits, hbyte, ← toBits_split hfull]
    · next hfull => exact ⟨rfl, by omega⟩

theorem encodeLoop_spec (hlt : accBits < 8) :
    ∃ pad, pad < 8 ∧ bitsOf (encodeLoop bytes acc accBits) =
      toBits accBits acc ++ (codeBits bytes ++ List.replicate pad true) := by
  induction bytes generalizing acc accBits with
  | nil =>
    rw [encodeLoop]
    split
    · next hpos =>
      refine ⟨8 - accBits, by omega, ?_⟩
      have hpow : 2 ^ (8 - accBits) - 1 < 2 ^ (8 - accBits) :=
        Nat.sub_lt (Nat.two_pow_pos _) Nat.one_pos
      have hbyte : toBits 8 (UInt8.ofNat ((acc <<< (8 - accBits)) % 18446744073709551616 |||
          (2 ^ (8 - accBits) - 1))).toNat = toBits accBits acc ++
            toBits (8 - accBits) (2 ^ (8 - accBits) - 1) := by
        rw [← toBits_shift_or hpow, Nat.add_sub_cancel' hlt.le, UInt8.toNat_ofNat']
        refine (toBits_mod (Nat.le_refl 8)).trans (toBits_congr fun i hi => ?_)
        rw [Nat.testBit_or, Nat.testBit_or, show 18446744073709551616 = 2 ^ 64 from rfl,
          Nat.testBit_mod_two_pow, decide_eq_true (by omega), Bool.true_and]
      rw [bitsOf_cons, hbyte, toBits_ones]
      simp [bitsOf, codeBits]
    · next hpos =>
      obtain rfl : accBits = 0 := by omega
      exact ⟨0, by omega, rfl⟩
  | cons b rest ih =>
    obtain ⟨-, hlen, hfits⟩ := codeOf_fits b
    have hacc : toBits (accBits + (codeOf b).2)
        ((acc <<< (codeOf b).2) % 18446744073709551616 ||| (codeOf b).1) =
        toBits accBits acc ++ bits (codeOf b) := by
      rw [bits, ← toBits_shift_or hfits]
      refine toBits_congr fun i hi => ?_
      rw [Nat.testBit_or, Nat.testBit_or, show 18446744073709551616 = 2 ^ 64 from rfl,
        Nat.testBit_mod_two_pow, decide_eq_true (by omega), Bool.true_and]
    rw [encodeLoop]
    simp only
    generalize (acc <<< (codeOf b).2) % 18446744073709551616 ||| (codeOf b).1 = acc' at hacc
    have hflush : bitsOf (flush (accBits + (codeOf b).2) acc' (accBits + (codeOf b).2)).1 ++
        toBits (flush (accBits + (codeOf b).2) acc' (accBits + (codeOf b).2)).2 acc' =
          toBits (accBits + (codeOf b).2) acc' ∧ _ := flush_spec (Nat.le_refl _)
    obtain ⟨hbits, hless⟩ := hflush
    obtain ⟨pad, hpad, hrest⟩ : ∃ pad, pad < 8 ∧ bitsOf (encodeLoop rest acc'
        (flush (accBits + (codeOf b).2) acc' (accBits + (codeOf b).2)).2) = _ := ih hless
    refine ⟨pad, hpad, ?_⟩
    rw [bitsOf_append, hrest, ← List.append_assoc, hbits, hacc, codeBits_cons]
    simp

theorem bitsOf_encode (bytes : Octets) :
    ∃ pad, pad < 8 ∧ bitsOf (encode bytes) = codeBits bytes ++ List.replicate pad true :=
  encodeLoop_spec (Nat.succ_pos 7)

theorem decode_of_left {out : Octets} (htail : tail.length < 64)
    (h : (decodeLoop bytes 0 0).1 = out ∧
      toBits (decodeLoop bytes 0 0).2.2 (decodeLoop bytes 0 0).2.1 = tail) :
    decode bytes =
      if tail.length < 8 ∧ tail = List.replicate tail.length true then .ok out
      else .error .invalid := by
  generalize hresult : decodeLoop bytes 0 0 = result at h
  obtain ⟨out', acc, accBits⟩ := result
  obtain ⟨rfl, rfl⟩ := h
  rw [length_toBits] at htail ⊢
  have hones : toBits accBits acc = List.replicate accBits true ↔
      acc % 2 ^ accBits = 2 ^ accBits - 1 := by
    rw [← toBits_ones, ← toBits_mod (Nat.le_refl accBits) (v := acc)]
    constructor
    · intro heq
      exact toBits_inj (Nat.mod_lt _ (Nat.two_pow_pos _))
        (Nat.sub_lt (Nat.two_pow_pos _) Nat.one_pos) heq
    · intro heq
      rw [heq]
  rw [decode, hresult]
  simp only [hones]
  rw [Nat.mod_eq_of_lt htail, and_mask]
  by_cases hpad : accBits < 8 ∧ acc % 2 ^ accBits = 2 ^ accBits - 1
  · rw [if_pos hpad, if_neg]
    rintro ⟨-, hne | hge⟩
    · exact hne hpad.2
    · omega
  · rw [if_neg hpad, if_pos]
    refine ⟨Nat.pos_of_ne_zero ?_, ?_⟩
    · rintro rfl
      exact hpad ⟨by decide, Nat.mod_one acc⟩
    · by_cases hlt : accBits < 8
      · exact .inl fun heq => hpad ⟨hlt, heq⟩
      · exact .inr (Nat.le_of_not_lt hlt)

theorem decode_encode (bytes : Octets) : decode (encode bytes) = .ok bytes := by
  obtain ⟨pad, hpad, hbits⟩ := bitsOf_encode bytes
  have hwaits : Waits bytes 0 := fun b _ _ => (codeOf_fits b).1
  have hleft : (decodeLoop (encode bytes) 0 0).1 = bytes ∧ _ :=
    decodeLoop_spec (stuck_ones (by omega)) (by rw [List.length_replicate]; omega) hbits hwaits
  rw [decode_of_left (by rw [List.length_replicate]; omega) hleft, if_pos]
  rw [List.length_replicate]
  exact ⟨hpad, rfl⟩

end ZeroDds.Hpack.Huffman
