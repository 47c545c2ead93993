/-
Writing a `fixed<P, S>` and reading it back.
-/
import ZeroDds.Wire.FixedText
import ZeroDds.Wire.ReadBack

namespace ZeroDds.Wire

open Reader

theorem high_nibble {a b : UInt8} (ha : a.toNat < 16) (hb : b.toNat < 16) :
    ((a <<< 4) ||| b) >>> 4 = a := by
  have hall : ∀ a b : Fin 16, ((UInt8.ofNat a.val <<< 4) ||| UInt8.ofNat b.val) >>> 4 =
      UInt8.ofNat a.val := by
    decide +kernel
  have hab := hall ⟨a.toNat, ha⟩ ⟨b.toNat, hb⟩
  rwa [UInt8.ofNat_toNat, UInt8.ofNat_toNat] at hab

theorem low_nibble {a b : UInt8} (ha : a.toNat < 16) (hb : b.toNat < 16) :
    ((a <<< 4) ||| b) &&& 0x0f = b := by
  have hall : ∀ a b : Fin 16, ((UInt8.ofNat a.val <<< 4) ||| UInt8.ofNat b.val) &&& 0x0f =
      UInt8.ofNat b.val := by
    decide +kernel
  have hab := hall ⟨a.toNat, ha⟩ ⟨b.toNat, hb⟩
  rwa [UInt8.ofNat_toNat, UInt8.ofNat_toNat] at hab

theorem length_packNibbles (nibbles : List UInt8) :
    (packNibbles nibbles).length = nibbles.length / 2 := by
  induction nibbles using packNibbles.induct with
  | case1 high low rest ih =>
    simp only [packNibbles, List.length_cons, ih]
    omega
  | case2 nibbles hshort =>
    match nibbles, hshort with
    | [], _ => rfl
    | [_], _ => simp [packNibbles]
    | high :: low :: rest, hshort => exact absurd rfl (hshort high low rest)

namespace Writer

variable {w : Writer} {stream : List UInt8}

theorem extend_cons (w : Writer) (octet : UInt8) (octets : List UInt8) :
    w.extend (octet :: octets) = (w.writeU8 octet).extend octets := by
  show ({ w with out := w.out ++ octet :: octets } : Writer) =
    { w with out := w.out ++ [octet] ++ octets }
  rw [List.append_assoc]
  rfl

theorem over_readNibbles {count : Nat} {nibbles : List UInt8} (hlength : nibbles.length = 2 * count)
    (hnibbles : ∀ n ∈ nibbles, n.toNat < 16)
    (h : (w.extend (packNibbles nibbles)).out <+: stream) :
    Reader.readNibbles count (Reader.over w stream) =
      .ok (nibbles, Reader.over (w.extend (packNibbles nibbles)) stream) := by
  induction count generalizing w nibbles with
  | zero =>
    obtain rfl := List.eq_nil_of_length_eq_zero hlength
    show Except.ok ([], Reader.over w stream) = .ok ([], Reader.over (w.extend []) stream)
    rw [show w.extend [] = w by simp [extend]]
  | succ count ih =>
    rcases nibbles with _ | ⟨high, _ | ⟨low, rest⟩⟩
    · simp at hlength
    · simp only [List.length_cons, List.length_nil] at hlength
      omega
    · have hhigh := hnibbles high (by simp)
      have hlow := hnibbles low (by simp)
      rw [packNibbles, extend_cons] at h ⊢
      have hrest := ih (by simpa [Nat.mul_succ] using hlength)
        (fun n hn => hnibbles n (by simp [hn])) h
      have hoctet := over_readU8 ((extend_extends _ _).isPrefix.trans h)
      rw [Reader.readNibbles, hoctet]
      show (Reader.readNibbles count (Reader.over (w.writeU8 _) stream)).map _ = _
      rw [hrest]
      show Except.ok (_ :: _ :: rest, _) = _
      rw [high_nibble hhigh hlow, low_nibble hhigh hlow]

theorem over_readToSign {count : Nat} {digits : List UInt8} {sign : UInt8}
    (hodd : digits.length % 2 = 1) (hroom : digits.length < 2 * count)
    (hdigits : ∀ n ∈ digits, n.toNat < 10) (hsign : 10 ≤ sign.toNat) (hsign' : sign.toNat < 16)
    (h : (w.extend (packNibbles (digits ++ [sign]))).out <+: stream) :
    Reader.readToSign count (Reader.over w stream) =
      .ok (digits ++ [sign], Reader.over (w.extend (packNibbles (digits ++ [sign]))) stream) := by
  induction count generalizing w digits with
  | zero => omega
  | succ count ih =>
    match digits, hodd with
    | [last], _ =>
      have hlast : last.toNat < 16 := by
        have := hdigits last (by simp)
        omega
      have hprefix : (w.writeU8 ((last <<< 4) ||| sign)).out <+: stream := h
      have hoctet := over_readU8 hprefix
      rw [Reader.readToSign, hoctet]
      show (if _ then _ else _) = _
      rw [low_nibble hlast hsign', high_nibble hlast hsign', if_pos]
      · rfl
      · exact UInt8.le_iff_toNat_le.mpr hsign
    | high :: low :: rest, hodd =>
      have hhigh : high.toNat < 16 := by
        have := hdigits high (by simp)
        omega
      have hlow := hdigits low (by simp)
      rw [List.cons_append, List.cons_append, packNibbles, extend_cons] at h ⊢
      rw [List.length_cons, List.length_cons] at hroom hodd
      have hrest := ih (by omega) (by omega) (fun n hn => hdigits n (by simp [hn])) h
      have hoctet := over_readU8 ((extend_extends _ _).isPrefix.trans h)
      rw [Reader.readToSign, hoctet]
      show (if _ then _ else _) = _
      rw [low_nibble hhigh (by omega), high_nibble hhigh (by omega), if_neg, hrest]
      · rfl
      · show ¬ 10 ≤ low.toNat
        omega

end Writer

def fieldDigits (all : List UInt8) (wire : Nat) : List UInt8 :=
  (if (wire + 1) % 2 = 1 then [0] else []) ++
    List.replicate (wire - (all.drop (all.length - wire)).length) 0 ++ all.drop (all.length - wire)

def signNibble (negative : Bool) (digits : List UInt8) : UInt8 :=
  if negative && digits.any (· != 0) then 0x0d else 0x0c

theorem packDigits_eq (negative : Bool) (all : List UInt8) (wire : Nat) :
    packDigits negative all wire =
      fieldDigits all wire ++ [signNibble negative (fieldDigits all wire)] := rfl

theorem length_fieldDigits (all : List UInt8) (wire : Nat) :
    (fieldDigits all wire).length = wire + (wire + 1) % 2 := by
  unfold fieldDigits
  rw [List.length_append, List.length_append, List.length_replicate, List.length_drop]
  split <;> simp only [List.length_cons, List.length_nil] <;> omega

theorem take_leading_zeros (l : List UInt8) {n : Nat} (h : n ≤ (l.takeWhile (· == 0)).length) :
    l.take n = List.replicate n 0 := by
  induction l generalizing n with
  | nil =>
    obtain rfl : n = 0 := Nat.le_zero.mp h
    rfl
  | cons d rest ih =>
    cases n with
    | zero => rfl
    | succ n =>
      by_cases hd : d = 0
      · subst hd
        have hrest : n ≤ (rest.takeWhile (· == 0)).length := by simpa using h
        rw [List.take_succ_cons, ih hrest]
        rfl
      · rw [List.takeWhile_cons_of_neg (by simpa using hd)] at h
        exact absurd h (by simp)

theorem fieldDigits_zeros {all : List UInt8} {wire : Nat}
    (h : all.length - wire ≤ (all.takeWhile (· == 0)).length) :
    ∃ j k, List.replicate j 0 ++ fieldDigits all wire = List.replicate k 0 ++ all := by
  have hall : all = List.replicate (all.length - wire) 0 ++ all.drop (all.length - wire) := by
    conv_lhs => rw [← List.take_append_drop (all.length - wire) all, take_leading_zeros all h]
  obtain ⟨pad, hpad⟩ : ∃ pad, (if (wire + 1) % 2 = 1 then [(0 : UInt8)] else []) =
      List.replicate pad 0 := by
    split
    · exact ⟨1, rfl⟩
    · exact ⟨0, rfl⟩
  obtain ⟨zeros, hzeros⟩ : ∃ zeros, wire - (all.drop (all.length - wire)).length = zeros :=
    ⟨_, rfl⟩
  refine ⟨all.length - wire, pad + zeros, ?_⟩
  unfold fieldDigits
  rw [hpad, hzeros, List.replicate_append_replicate, ← List.append_assoc,
    List.replicate_append_replicate, Nat.add_comm, ← List.replicate_append_replicate,
    List.append_assoc, ← hall]

theorem any_zeros_append (k : Nat) (l : List UInt8) :
    (List.replicate k 0 ++ l).any (· != 0) = l.any (· != 0) := by
  simp

section Parsed

variable {text : List Char} {digits scale : Nat} {parts : FixedParts}

theorem Parsed.allDigits_lt (h : Parsed text digits scale parts) :
    ∀ n ∈ allDigits parts digits scale, n.toNat < 10 := by
  intro n hn
  unfold allDigits at hn
  simp only [List.mem_append] at hn
  rcases hn with ((hn | hn) | hn) | hn
  · rw [List.eq_of_mem_replicate hn]
    decide
  · obtain ⟨c, hc, rfl⟩ := List.mem_map.mp hn
    exact digitOf_lt (List.all_eq_true.mp h.whole_all c hc)
  · obtain ⟨c, hc, rfl⟩ := List.mem_map.mp hn
    exact digitOf_lt (List.all_eq_true.mp h.fraction_digits c hc)
  · rw [List.eq_of_mem_replicate hn]
    decide

theorem fieldDigits_lt {all : List UInt8} (h : ∀ n ∈ all, n.toNat < 10) (wire : Nat) :
    ∀ n ∈ fieldDigits all wire, n.toNat < 10 := by
  intro n hn
  unfold fieldDigits at hn
  simp only [List.mem_append] at hn
  rcases hn with (hn | hn) | hn
  · have hzero : n = 0 := by
      split at hn
      · exact List.mem_singleton.mp hn
      · cases hn
    rw [hzero]
    decide
  · rw [List.eq_of_mem_replicate hn]
    decide
  · exact h n (List.mem_of_mem_drop hn)

theorem Parsed.isNegative_sign (h : Parsed text digits scale parts) :
    isNegative { parts with
      negative := parts.negative && (allDigits parts digits scale).any (· != 0) } scale =
        isNegative parts scale := by
  cases hany : (allDigits parts digits scale).any (· != 0) with
  | true => rw [Bool.and_true]
  | false =>
    have hzero : ∀ n ∈ allDigits parts digits scale, n = 0 := by
      intro n hn
      have := List.any_eq_false.mp hany n hn
      simpa using this
    have hchars : ∀ c ∈ (allDigits parts digits scale).map digitChar, c = '0' := by
      intro c hc
      obtain ⟨n, hn, rfl⟩ := List.mem_map.mp hc
      rw [hzero n hn]
      rfl
    rw [h.map_allDigits] at hchars
    have hwhole : parts.whole = [] := by
      have htrim : trimZeros parts.whole = [] :=
        List.dropWhile_eq_nil_iff.mpr fun c hc => by simp [hchars c (by simp [hc])]
      rwa [h.whole, trimZeros_trimZeros, ← h.whole] at htrim
    have hfraction : (paddedFraction parts scale).all (· == '0') = true := by
      rw [List.all_eq_true]
      intro c hc
      simp [hchars c (by simp [hc])]
    unfold isNegative
    rw [hwhole, hfraction]
    simp

theorem Parsed.canonical_eq (h : Parsed text digits scale parts) :
    canonicalFixed parts scale =
      Reader.spellFixed (parts.negative && (allDigits parts digits scale).any (· != 0))
        (allDigits parts digits scale) scale := by
  rw [h.spell_digits (j := 0) (k := 0) rfl]
  unfold canonicalFixed
  rw [h.isNegative_sign]
  rfl

/-- The digits a policy puts out leave out nothing but zeros, and fit sixteen octets with the
sign. -/
structure Covers (all : List UInt8) (wire : Nat) : Prop where
  le : wire ≤ 31
  zeros : all.length - wire ≤ (all.takeWhile (· == 0)).length

theorem signOf_signNibble (negative : Bool) (digits : List UInt8) :
    signOf (signNibble negative digits) = some (negative && digits.any (· != 0)) := by
  unfold signNibble
  cases negative && digits.any (· != 0) with
  | true => rfl
  | false => rfl

theorem signNibble_range (negative : Bool) (digits : List UInt8) :
    10 ≤ (signNibble negative digits).toNat ∧ (signNibble negative digits).toNat < 16 := by
  unfold signNibble
  cases negative && digits.any (· != 0) with
  | true => decide
  | false => decide

namespace Writer

variable {w : Writer} {stream : List UInt8} {policy : FixedDigits} {wire : Nat}

theorem over_fixedField (h : Parsed text digits scale parts)
    (hcovers : Covers (allDigits parts digits scale) wire)
    (hdeclared : policy = .declared → wire = digits)
    (hstream : (w.extend (packNibbles (packDigits parts.negative (allDigits parts digits scale)
      wire))).out <+: stream) :
    ∃ value j k, List.replicate j 0 ++ value = List.replicate k 0 ++ allDigits parts digits scale ∧
      (∀ n ∈ value, n.toNat < 10) ∧
      (Reader.over w stream).fixedField digits policy =
        .ok (value ++ [signNibble parts.negative (fieldDigits (allDigits parts digits scale) wire)],
          Reader.over (w.extend (packNibbles (packDigits parts.negative
            (allDigits parts digits scale) wire))) stream) := by
  have hall := h.length_allDigits
  have hlt := h.allDigits_lt
  obtain ⟨all, heq⟩ : ∃ all, allDigits parts digits scale = all := ⟨_, rfl⟩
  rw [heq] at hcovers hstream hall hlt ⊢
  have hlength := length_fieldDigits all wire
  have hfield := fieldDigits_lt hlt wire
  have hsign := signNibble_range parts.negative (fieldDigits all wire)
  by_cases hpolicy : policy = .declared
  · obtain rfl := hdeclared hpolicy
    refine ⟨all, 0, 0, rfl, hlt, ?_⟩
    have hnibbles : ∀ n ∈ fieldDigits all wire ++ [signNibble parts.negative
        (fieldDigits all wire)], n.toNat < 16 := by
      intro n hn
      rcases List.mem_append.mp hn with hn | hn
      · have := hfield n hn
        omega
      · rw [List.mem_singleton.mp hn]
        exact hsign.2
    have hcount : (fieldDigits all wire ++ [signNibble parts.negative
        (fieldDigits all wire)]).length = 2 * ((wire + 1 + 1) / 2) := by
      rw [List.length_append, hlength, List.length_singleton]
      omega
    have hread := over_readNibbles hcount hnibbles hstream
    have hdrop : (fieldDigits all wire ++ [signNibble parts.negative (fieldDigits all wire)]).drop
        ((fieldDigits all wire ++ [signNibble parts.negative (fieldDigits all wire)]).length -
          (wire + 1)) = all ++ [signNibble parts.negative (fieldDigits all wire)] := by
      rw [List.length_append, hlength, List.length_singleton,
        List.drop_append_of_le_length (by omega)]
      unfold fieldDigits
      rw [← hall, Nat.sub_self, List.drop_zero, Nat.sub_self, List.replicate_zero,
        List.append_nil]
      split
      · next hodd =>
        rw [hodd, show all.length + 1 + 1 - (all.length + 1) = 1 by omega]
        rfl
      · next heven =>
        rw [show (all.length + 1) % 2 = 0 by omega, Nat.add_zero, Nat.sub_self]
        rfl
    subst hpolicy
    show (readNibbles ((wire + 1 + 1) / 2) (Reader.over w stream)).map _ = _
    rw [hread]
    exact congrArg (fun l => Except.ok (l, _)) hdrop
  · obtain ⟨j, k, hjk⟩ := fieldDigits_zeros hcovers.zeros
    refine ⟨fieldDigits all wire, j, k, hjk, hfield, ?_⟩
    have hle := hcovers.le
    have hroom : (fieldDigits all wire).length < 2 * maxFixedOctets := by
      rw [hlength, maxFixedOctets]
      omega
    have hread := over_readToSign (by omega) hroom hfield hsign.1 hsign.2 hstream
    cases policy with
    | declared => exact absurd rfl hpolicy
    | valuePrecision => exact hread
    | valueStringDigits => exact hread

theorem over_readFixed (h : Parsed text digits scale parts)
    (hcovers : Covers (allDigits parts digits scale) wire)
    (hdeclared : policy = .declared → wire = digits)
    (hstream : (w.extend (packNibbles (packDigits parts.negative (allDigits parts digits scale)
      wire))).out <+: stream) :
    (Reader.over w stream).readFixed digits scale policy =
      .ok (canonicalFixed parts scale, Reader.over (w.extend (packNibbles (packDigits
        parts.negative (allDigits parts digits scale) wire))) stream) := by
  obtain ⟨value, j, k, hvalue, hlt, hfield⟩ := over_fixedField h hcovers hdeclared hstream
  have hdeclaration : ¬ (digits = 0 ∨ digits > 31 ∨ scale > digits) := by
    have hpos := h.digits_pos
    have hle := h.digits_le
    have hscale := h.scale_le
    omega
  have hdigits : ¬ value.any (· > 9) = true := by
    rw [List.any_eq_true]
    rintro ⟨n, hn, hlarge⟩
    have hsmall := hlt n hn
    have hnine := UInt8.lt_iff_toNat_lt.mp (of_decide_eq_true hlarge)
    have : (9 : UInt8).toNat = 9 := rfl
    omega
  obtain ⟨a, b, hab⟩ := fieldDigits_zeros hcovers.zeros
  have hany : (fieldDigits (allDigits parts digits scale) wire).any (· != 0) =
      (allDigits parts digits scale).any (· != 0) := by
    rw [← any_zeros_append a, hab, any_zeros_append]
  have htext : spellFixed (parts.negative && (allDigits parts digits scale).any (· != 0)) value
      scale = canonicalFixed parts scale := by
    rw [h.canonical_eq, h.spell_digits hvalue, h.spell_digits (j := 0) (k := 0) rfl]
  unfold Reader.readFixed
  rw [if_neg hdeclaration, hfield]
  simp only [Except.bind, List.getLast?_concat, List.dropLast_concat, signOf_signNibble, hany,
    htext, if_neg hdigits]
  rw [parseFixed_ok.mpr h.canonical]
  rfl

end Writer

/-- The digits a field of the text's own count takes: an odd number, so that the sign completes an
octet. -/
def writtenField (text : List Char) (scale : Nat) : Nat :=
  writtenDigits text scale + (1 - writtenDigits text scale % 2)

def wireCount (text : List Char) (parts : FixedParts) (digits scale : Nat) (policy : FixedDigits) :
    Nat :=
  policy.wireDigits digits ((allDigits parts digits scale).length -
      ((allDigits parts digits scale).takeWhile (· == 0)).length)
    (if policy = .valueStringDigits then writtenDigits text scale else 0)

theorem splitPoint_whole (magnitude : List Char) :
    (splitPoint magnitude).1 = magnitude.takeWhile (· != '.') := by
  unfold splitPoint splitOnce
  split
  · next hdrop =>
    have hall := List.takeWhile_append_dropWhile (p := (· != '.')) (l := magnitude)
    rw [hdrop, List.append_nil] at hall
    exact hall.symm
  · rfl

theorem wireCount_written :
    wireCount text parts digits scale .valueStringDigits = writtenField text scale := by
  unfold wireCount FixedDigits.wireDigits writtenField
  simp only
  split_ifs <;> omega

section

variable (h : Parsed text digits scale parts)
include h

theorem Parsed.unsigned :
    (splitSign text).2.dropWhile (fun c => c == '+' || c == '-') = (splitSign text).2 := by
  have hwhole := h.whole_digits
  rw [splitPoint_whole] at hwhole
  cases hmagnitude : (splitSign text).2 with
  | nil => rfl
  | cons c rest =>
    rw [hmagnitude] at hwhole
    apply List.dropWhile_cons_of_neg
    intro hsign
    have hpoint : (c != '.') = true := by
      rcases Bool.or_eq_true _ _ |>.mp hsign with hc | hc
      · rw [eq_of_beq hc]
        rfl
      · rw [eq_of_beq hc]
        rfl
    rw [List.takeWhile_cons_of_pos (p := (· != '.')) hpoint, List.all_cons,
      Bool.and_eq_true] at hwhole
    rcases Bool.or_eq_true _ _ |>.mp hsign with hc | hc
    · rw [eq_of_beq hc] at hwhole
      exact absurd hwhole.1 (by decide)
    · rw [eq_of_beq hc] at hwhole
      exact absurd hwhole.1 (by decide)

theorem Parsed.magnitude_eq :
    text.dropWhile (fun c => c == '+' || c == '-') = (splitSign text).2 := by
  have hunsigned := h.unsigned
  unfold splitSign at hunsigned ⊢
  split at hunsigned
  · exact hunsigned
  · exact hunsigned
  · exact hunsigned

theorem Parsed.writtenDigits_eq :
    writtenDigits text scale = (splitPoint (splitSign text).2).1.length + scale := by
  unfold writtenDigits
  rw [h.magnitude_eq, splitPoint_whole]

theorem Parsed.whole_le_written :
    parts.whole.length + scale ≤ writtenDigits text scale := by
  rw [h.writtenDigits_eq, h.whole]
  exact Nat.add_le_add_right (List.dropWhile_sublist _).length_le _

theorem Parsed.written_pos : 0 < writtenDigits text scale := by
  rw [h.writtenDigits_eq]
  by_contra hzero
  have hwhole : (splitPoint (splitSign text).2).1 = [] := List.eq_nil_of_length_eq_zero (by omega)
  have hfraction : parts.fraction = [] := by
    have := h.fraction_fits
    exact List.eq_nil_of_length_eq_zero (by omega)
  exact h.nonempty ⟨hwhole, hfraction⟩

theorem Parsed.fixedNibbles_eq (policy : FixedDigits) (offset : Nat) :
    fixedNibbles text digits scale policy offset =
      if policy = .valueStringDigits ∧ writtenField text scale > 31 then
        .error (.refused offset "a fixed of at most 31 digits on the wire, as written")
      else .ok (packDigits parts.negative (allDigits parts digits scale)
        (wireCount text parts digits scale policy)) := by
  unfold fixedNibbles
  rw [parseFixed_ok.mpr h]
  rfl

end

theorem Parsed.leading_zeros (parts : FixedParts) (digits scale : Nat) :
    digits - scale - parts.whole.length ≤
      ((allDigits parts digits scale).takeWhile (· == 0)).length := by
  unfold allDigits
  rw [List.append_assoc, List.append_assoc, List.takeWhile_append_of_pos]
  · rw [List.length_append, List.length_replicate]
    exact Nat.le_add_right _ _
  · intro n hn
    rw [List.eq_of_mem_replicate hn]
    rfl

theorem Parsed.covers (h : Parsed text digits scale parts) {policy : FixedDigits}
    (hpolicy : policy = .valueStringDigits → writtenField text scale ≤ 31) :
    Covers (allDigits parts digits scale) (wireCount text parts digits scale policy) := by
  have hlength := h.length_allDigits
  have hdigits := h.digits_le
  cases policy with
  | declared =>
    refine ⟨hdigits, ?_⟩
    show _ - digits ≤ _
    omega
  | valuePrecision =>
    constructor
    · unfold wireCount FixedDigits.wireDigits
      simp only
      split_ifs <;> omega
    · unfold wireCount FixedDigits.wireDigits
      simp only
      split_ifs <;> omega
  | valueStringDigits =>
    have hzeros := Parsed.leading_zeros parts digits scale
    have hwhole := h.whole_le_written
    rw [wireCount_written]
    refine ⟨hpolicy rfl, ?_⟩
    unfold writtenField
    omega

theorem digitsValue_inj {a b : List UInt8} (hlength : a.length = b.length)
    (ha : ∀ n ∈ a, n.toNat < 10) (hb : ∀ n ∈ b, n.toNat < 10)
    (h : digitsValue a = digitsValue b) : a = b := by
  have hrange : ∀ l : List UInt8, (∀ n ∈ l, n.toNat < 10) →
      ∀ d ∈ (l.map UInt8.toNat).reverse, d < 10 := by
    intro l hl d hd
    obtain ⟨n, hn, rfl⟩ := List.mem_map.mp (List.mem_reverse.mp hd)
    exact hl n hn
  have hlist := Nat.ofDigits_inj_of_len_eq (by decide) (by simpa using hlength) (hrange a ha)
    (hrange b hb) h
  exact List.map_injective_iff.mpr (fun m n hmn => UInt8.toNat_inj.mp hmn)
    (List.reverse_injective hlist)

theorem signed_inj {s t : Bool} {a b : Nat}
    (h : (if s then -1 else 1) * (a : ℚ) = (if t then -1 else 1) * (b : ℚ)) :
    a = b ∧ (s = t ∨ a = 0) := by
  have hopposite : ∀ m n : Nat, (m : ℚ) = -n → m = n ∧ m = 0 := by
    intro m n hmn
    have hsum : ((m + n : Nat) : ℚ) = 0 := by
      rw [Nat.cast_add, hmn, neg_add_cancel]
    have hzero := Nat.cast_eq_zero.mp hsum
    omega
  cases s <;> cases t <;>
    simp only [Bool.false_eq_true, if_true, if_false, one_mul, neg_mul, neg_inj] at h
  · exact ⟨Nat.cast_inj.mp h, .inl rfl⟩
  · exact (hopposite a b h).imp_right .inr
  · have hba := hopposite b a h.symm
    exact ⟨hba.1.symm, .inr (by omega)⟩
  · exact ⟨Nat.cast_inj.mp h, .inl rfl⟩

variable {other : List Char} {otherParts : FixedParts}

section

variable (h : Parsed text digits scale parts)
include h

theorem Parsed.same_digits (hother : Parsed other digits scale otherParts)
    (hnumber : decimalNumber text = decimalNumber other) :
    allDigits parts digits scale = allDigits otherParts digits scale ∧
      (parts.negative = otherParts.negative ∨
        (allDigits parts digits scale).any (· != 0) = false) := by
  have hpow : (10 : ℚ) ^ scale ≠ 0 := pow_ne_zero _ (by norm_num)
  rw [decimalNumber_eq h, decimalNumber_eq hother, ← mul_div_assoc, ← mul_div_assoc,
    div_left_inj' hpow] at hnumber
  have hvalue := signed_inj hnumber
  have hlength : (allDigits parts digits scale).length =
      (allDigits otherParts digits scale).length := by
    rw [h.length_allDigits, hother.length_allDigits]
  refine ⟨digitsValue_inj hlength h.allDigits_lt hother.allDigits_lt hvalue.1, ?_⟩
  rcases hvalue.2 with hsign | hzero
  · exact .inl hsign
  · have hzeros : allDigits parts digits scale = List.replicate digits 0 := by
      apply digitsValue_inj _ h.allDigits_lt
      · intro n hn
        rw [List.eq_of_mem_replicate hn]
        decide
      · rw [hzero, digitsValue_zeros]
      · rw [h.length_allDigits, List.length_replicate]
    rw [hzeros]
    simp

theorem Parsed.same_field (hother : Parsed other digits scale otherParts)
    (hnumber : decimalNumber text = decimalNumber other) {wire : Nat}
    (hcovers : Covers (allDigits parts digits scale) wire) :
    packDigits parts.negative (allDigits parts digits scale) wire =
      packDigits otherParts.negative (allDigits otherParts digits scale) wire := by
  obtain ⟨hall, hsign⟩ := h.same_digits hother hnumber
  obtain ⟨j, k, hjk⟩ := fieldDigits_zeros hcovers.zeros
  rw [packDigits_eq, packDigits_eq, ← hall]
  rcases hsign with hsign | hzero
  · rw [hsign]
  · have hnone : (fieldDigits (allDigits parts digits scale) wire).any (· != 0) = false := by
      rw [← any_zeros_append j, hjk, any_zeros_append, hzero]
    unfold signNibble
    rw [hnone, Bool.and_false, Bool.and_false]

theorem Parsed.same_canonical (hother : Parsed other digits scale otherParts)
    (hnumber : decimalNumber text = decimalNumber other) :
    canonicalFixed parts scale = canonicalFixed otherParts scale := by
  obtain ⟨hall, hsign⟩ := h.same_digits hother hnumber
  rw [h.canonical_eq, hother.canonical_eq, ← hall]
  rcases hsign with hsign | hzero
  · rw [hsign]
  · rw [hzero, Bool.and_false, Bool.and_false]

end

theorem digitsValue_of_zero (hwhole : parts.whole.isEmpty = true)
    (hfraction : (paddedFraction parts scale).all (· == '0') = true) :
    digitsValue (allDigits parts digits scale) = 0 := by
  rw [paddedFraction, List.all_append, Bool.and_eq_true, List.all_eq_true] at hfraction
  have hzeros : parts.fraction = List.replicate parts.fraction.length '0' :=
    List.eq_replicate_of_mem fun c hc => eq_of_beq (hfraction.1 c hc)
  have hzero : digitOf '0' = 0 := rfl
  rw [digitsValue_allDigits, List.isEmpty_iff.mp hwhole, List.nil_append, hzeros,
    List.map_replicate, hzero, digitsValue_zeros, Nat.zero_mul]

theorem Parsed.decimalNumber_canonical (h : Parsed text digits scale parts) :
    decimalNumber (canonicalFixed parts scale) = decimalNumber text := by
  rw [decimalNumber_eq h.canonical, decimalNumber_eq h, h.allDigits_canonical]
  show (if isNegative parts scale then -1 else 1) * _ = _
  unfold isNegative
  cases hzero : parts.whole.isEmpty && (paddedFraction parts scale).all (· == '0') with
  | true =>
    rw [Bool.and_eq_true] at hzero
    rw [digitsValue_of_zero hzero.1 hzero.2, Nat.cast_zero, zero_div, mul_zero, mul_zero]
  | false => rw [Bool.not_false, Bool.and_true]

namespace Writer

variable {w w' : Writer} {policy : FixedDigits}

theorem writeFixed_ok (h : Parsed text digits scale parts) :
    w.writeFixed text digits scale policy = .ok w' ↔
      (policy = .valueStringDigits → writtenField text scale ≤ 31) ∧
        w' = w.extend (packNibbles (packDigits parts.negative (allDigits parts digits scale)
          (wireCount text parts digits scale policy))) := by
  unfold writeFixed
  rw [h.fixedNibbles_eq]
  by_cases hrefused : policy = .valueStringDigits ∧ writtenField text scale > 31
  · rw [if_pos hrefused]
    simp only [reduceCtorEq, false_iff, not_and]
    intro hfits
    have := hfits hrefused.1
    omega
  · rw [if_neg hrefused]
    simp only [Except.ok.injEq]
    constructor
    · rintro rfl
      exact ⟨fun hpolicy => Nat.not_lt.mp fun hlarge => hrefused ⟨hpolicy, hlarge⟩, rfl⟩
    · rintro ⟨_, rfl⟩
      rfl

theorem readFixed_written (h : Parsed text digits scale parts)
    (hw : w.writeFixed text digits scale policy = .ok w') (rest : List UInt8) :
    (Reader.over w (w'.out ++ rest)).readFixed digits scale policy =
      .ok (canonicalFixed parts scale, Reader.over w' (w'.out ++ rest)) := by
  obtain ⟨hfits, rfl⟩ := (writeFixed_ok h).mp hw
  refine over_readFixed h (h.covers hfits) ?_ (List.prefix_append _ _)
  rintro rfl
  rfl

theorem length_packed (negative : Bool) (all : List UInt8) (wire : Nat) :
    (packNibbles (packDigits negative all wire)).length = (wire + 2) / 2 := by
  rw [packDigits_eq, length_packNibbles, List.length_append, length_fieldDigits,
    List.length_singleton]
  omega

theorem same_octets (h : Parsed text digits scale parts)
    (hother : Parsed other digits scale otherParts)
    (hnumber : decimalNumber text = decimalNumber other) {v : Writer}
    (hw : w.writeFixed text digits scale policy = .ok w')
    (hv : w.writeFixed other digits scale policy = .ok v) :
    w' = v ↔
      (policy = .valueStringDigits → writtenField text scale = writtenField other scale) := by
  obtain ⟨hfits, rfl⟩ := (writeFixed_ok h).mp hw
  obtain ⟨_, rfl⟩ := (writeFixed_ok hother).mp hv
  constructor
  · rintro heq rfl
    have hlength := congrArg (fun u : Writer => u.out.length) heq
    simp only [extend, List.length_append, length_packed, wireCount_written] at hlength
    unfold writtenField at hlength ⊢
    omega
  · intro hcount
    have hwire : wireCount text parts digits scale policy =
        wireCount other otherParts digits scale policy := by
      cases policy with
      | declared => rfl
      | valuePrecision =>
        unfold wireCount
        rw [(h.same_digits hother hnumber).1]
        rfl
      | valueStringDigits =>
        rw [wireCount_written, wireCount_written]
        exact hcount rfl
    rw [h.same_field hother hnumber (h.covers hfits), hwire]

/-- An accepted text is written unless the policy counts the digits of the text and they are too
many.  What is written is read to its end and comes back in the one spelling of its number, which
every spelling of that number comes back in and which comes back unchanged itself.  Another text of
the number leaves the same octets, where the policy does not count the digits of the text or counts
as many. -/
theorem fixed_round_trip (w : Writer) {text : List Char} {digits scale offset : Nat}
    {parts : FixedParts} (policy : FixedDigits)
    (h : parseFixed text digits scale offset = .ok parts) :
    ((∃ w', w.writeFixed text digits scale policy = .ok w') ↔
      (policy = .valueStringDigits → writtenField text scale ≤ 31)) ∧
    (∃ spelling, decimalNumber spelling = decimalNumber text ∧
      (∃ parts, parseFixed spelling digits scale offset = .ok parts) ∧
      ∀ other otherParts, parseFixed other digits scale offset = .ok otherParts →
        decimalNumber other = decimalNumber text →
        ∀ v v' rest, writeFixed v other digits scale policy = .ok v' →
          (Reader.over v (v'.out ++ rest)).readFixed digits scale policy =
            .ok (spelling, Reader.over v' (v'.out ++ rest))) ∧
    ∀ other otherParts, parseFixed other digits scale offset = .ok otherParts →
      decimalNumber other = decimalNumber text →
      ∀ w₁ w₂, w.writeFixed text digits scale policy = .ok w₁ →
        w.writeFixed other digits scale policy = .ok w₂ →
        (w₁ = w₂ ↔
          (policy = .valueStringDigits → writtenField text scale = writtenField other scale)) := by
  have hparsed := parseFixed_ok.mp h
  refine ⟨?_, ⟨canonicalFixed parts scale, hparsed.decimalNumber_canonical,
    ⟨_, parseFixed_ok.mpr hparsed.canonical⟩, ?_⟩, ?_⟩
  · constructor
    · rintro ⟨w', hw⟩
      exact ((writeFixed_ok hparsed).mp hw).1
    · intro hfits
      exact ⟨_, (writeFixed_ok hparsed).mpr ⟨hfits, rfl⟩⟩
  · intro other otherParts hother hnumber v v' rest hv
    have hother := parseFixed_ok.mp hother
    rw [← hother.same_canonical hparsed hnumber]
    exact readFixed_written hother hv rest
  · intro other otherParts hother hnumber w₁ w₂ hw₁ hw₂
    exact same_octets hparsed (parseFixed_ok.mp hother) hnumber.symm hw₁ hw₂

/-- A negative zero with leading zeros, under the value's own count. -/
theorem negative_zero_round_trip :
    ∃ w' spelling, (continuing { endianness := .big } [7]).writeFixed ['-', '0', '0', '.', '0'] 5 2
        .valuePrecision = .ok w' ∧
      decimalNumber spelling = decimalNumber ['-', '0', '0', '.', '0'] ∧
      (Reader.over (continuing { endianness := .big } [7]) (w'.out ++ [1])).readFixed 5 2
        .valuePrecision = .ok (spelling, Reader.over w' (w'.out ++ [1])) := by
  have hparse : parseFixed ['-', '0', '0', '.', '0'] 5 2 0 = .ok ⟨true, [], ['0']⟩ := rfl
  obtain ⟨hwritten, ⟨spelling, hnumber, _, hread⟩, _⟩ :=
    fixed_round_trip (continuing { endianness := .big } [7]) .valuePrecision hparse
  obtain ⟨w', hw⟩ := hwritten.mpr (by decide)
  exact ⟨w', spelling, hw, hnumber, hread _ _ hparse rfl _ w' [1] hw⟩

/-- Where the policy counts the digits of the text, leading zeros are counted: they change what is
written, and too many of them are refused. -/
theorem leading_zeros_change_octets :
    decimalNumber ['7'] = decimalNumber ['0', '0', '7'] ∧
      (∃ w₁ w₂, (appending { endianness := .big } []).writeFixed ['7'] 5 2 .valueStringDigits =
          .ok w₁ ∧
        (appending { endianness := .big } []).writeFixed ['0', '0', '7'] 5 2 .valueStringDigits =
          .ok w₂ ∧ w₁.out ≠ w₂.out) ∧
      (∃ parts e, parseFixed (List.replicate 30 '0') 5 2 0 = .ok parts ∧
        (appending { endianness := .big } []).writeFixed (List.replicate 30 '0') 5 2
          .valueStringDigits = .error e) := by
  have hshort : parseFixed ['7'] 5 2 0 = .ok ⟨false, ['7'], []⟩ := rfl
  have hlong : parseFixed ['0', '0', '7'] 5 2 0 = .ok ⟨false, ['7'], []⟩ := rfl
  refine ⟨?_, ⟨_, _, rfl, rfl, by decide⟩, ⟨_, _, rfl, rfl⟩⟩
  rw [decimalNumber_eq (parseFixed_ok.mp hshort), decimalNumber_eq (parseFixed_ok.mp hlong)]

end Writer

end Parsed

end ZeroDds.Wire
