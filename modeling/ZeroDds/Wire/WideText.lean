/-
A wide string comes back as it was written.
-/
import ZeroDds.Wire.ReadBack

namespace ZeroDds.Wire.Writer

open Reader

theorem toNat_ofNat_of_lt {n : Nat} (h : n < 0x10000) : (UInt16.ofNat n).toNat = n := by
  exact Nat.mod_eq_of_lt h

variable (c : Char)

theorem char_scalar : c.toNat < 0xD800 ∨ (0xDFFF < c.toNat ∧ c.toNat < 0x110000) :=
  c.valid

theorem decode_encode_cons (rest : List UInt16) :
    decodeUtf16 (encodeUtf16 c ++ rest) = (decodeUtf16 rest).map (c :: ·) := by
  have hscalar := char_scalar c
  by_cases hsmall : c.toNat < 0x10000
  · have hunit := toNat_ofNat_of_lt hsmall
    have houtside : UInt16.ofNat c.toNat < 0xD800 ∨ 0xDFFF < UInt16.ofNat c.toNat := by
      rw [UInt16.lt_iff_toNat_lt, UInt16.lt_iff_toNat_lt, hunit]
      rcases hscalar with h | h
      · exact .inl h
      · exact .inr h.1
    rw [encodeUtf16, if_pos hsmall, List.singleton_append, decodeUtf16.eq_def]
    simp only
    rw [if_pos houtside, hunit, Char.ofNat_toNat]
  · have hhigh := @toNat_ofNat_of_lt (0xD800 + (c.toNat - 0x10000) / 0x400) (by omega)
    have hlow := @toNat_ofNat_of_lt (0xDC00 + (c.toNat - 0x10000) % 0x400) (by omega)
    rw [encodeUtf16, if_neg hsmall]
    simp only [List.cons_append, List.nil_append]
    rw [decodeUtf16, if_neg, if_neg, if_pos, hhigh, hlow]
    · have hback : 0x10000 + (0xD800 + (c.toNat - 0x10000) / 0x400 - 0xD800) * 0x400 +
          (0xDC00 + (c.toNat - 0x10000) % 0x400 - 0xDC00) = c.toNat := by omega
      rw [hback, Char.ofNat_toNat]
    · rw [UInt16.le_iff_toNat_le, UInt16.le_iff_toNat_le, hlow]
      constructor
      · show 0xDC00 ≤ _
        omega
      · show _ ≤ 0xDFFF
        omega
    · rw [UInt16.le_iff_toNat_le, hhigh]
      show ¬ 0xDC00 ≤ _
      omega
    · rw [UInt16.lt_iff_toNat_lt, UInt16.lt_iff_toNat_lt, hhigh]
      show ¬ (_ < 0xD800 ∨ 0xDFFF < _)
      omega

theorem decode_encode (value : List Char) :
    decodeUtf16 (value.flatMap encodeUtf16) = some value := by
  induction value with
  | nil => rfl
  | cons c rest ih => rw [List.flatMap_cons, decode_encode_cons, ih, Option.map_some]

theorem zero_mem_encode : 0 ∈ encodeUtf16 c ↔ c = '\x00' := by
  have hzero : (0 : UInt16).toNat = 0 := rfl
  have hscalar := char_scalar c
  by_cases hsmall : c.toNat < 0x10000
  · rw [encodeUtf16, if_pos hsmall, List.mem_singleton, ← UInt16.toNat_inj,
      toNat_ofNat_of_lt hsmall, hzero]
    constructor
    · intro h
      apply Char.toNat_inj.mp
      exact h.symm
    · rintro rfl
      rfl
  · have hhigh := @toNat_ofNat_of_lt (0xD800 + (c.toNat - 0x10000) / 0x400) (by omega)
    have hlow := @toNat_ofNat_of_lt (0xDC00 + (c.toNat - 0x10000) % 0x400) (by omega)
    rw [encodeUtf16, if_neg hsmall]
    simp only [List.mem_cons, List.not_mem_nil, or_false]
    rw [← UInt16.toNat_inj, ← UInt16.toNat_inj, hhigh, hlow, hzero]
    constructor
    · intro h
      omega
    · rintro rfl
      exact absurd hsmall (by decide)

theorem zero_mem_units (value : List Char) : 0 ∈ value.flatMap encodeUtf16 ↔ '\x00' ∈ value := by
  rw [List.mem_flatMap]
  constructor
  · rintro ⟨c, hc, hzero⟩
    rw [(zero_mem_encode c).mp hzero] at hc
    exact hc
  · intro h
    exact ⟨_, h, (zero_mem_encode _).mpr rfl⟩

/-! ### The run of units -/

section Run

variable {w : Writer} {value : List Char} {policy : WstringLengthPolicy}
  {order : WstringUnitOrder} {position : WirePosition} {units : List UInt16}

theorem narrow_units (h : ∀ c ∈ value, c.toNat ≤ 0xFFFF) :
    (value.map fun c => UInt16.ofNat c.toNat) = value.flatMap encodeUtf16 := by
  induction value with
  | nil => rfl
  | cons c rest ih =>
    have hc := h c List.mem_cons_self
    rw [List.map_cons, List.flatMap_cons, ih fun c' hc' => h c' (List.mem_cons_of_mem c hc'),
      encodeUtf16, if_pos (by omega), List.singleton_append]

theorem wstringUnits_ok (h : w.wstringUnits value policy position = .ok units) :
    units = value.flatMap encodeUtf16 := by
  unfold wstringUnits at h
  split at h
  · cases hfind : value.find? fun c => decide (c.toNat > 0xFFFF) with
    | some c =>
      rw [hfind] at h
      cases h
    | none =>
      rw [hfind] at h
      obtain rfl := Except.ok.inj h
      refine narrow_units fun c hc => ?_
      have hnot := List.find?_eq_none.mp hfind c hc
      simpa using hnot
  · exact (Except.ok.inj h).symm

def terminated (terminator : WstringTerminator) (value : List Char) : List UInt16 :=
  match terminator with
  | .absent => value.flatMap encodeUtf16
  | .present => value.flatMap encodeUtf16 ++ [0]

/-- Units behind the mark that the order puts in front of them; an empty run has none. -/
def marked (order : WstringUnitOrder) (units : List UInt16) : List UInt16 :=
  if order.hasMark && !units.isEmpty then byteOrderMark :: units else units

theorem wstringRun_ok (h : w.wstringRun value policy order position = .ok units) :
    units = marked order (terminated (policy.terminatorAt position) value) := by
  unfold wstringRun at h
  cases hunits : w.wstringUnits value policy position with
  | error e =>
    rw [hunits] at h
    cases h
  | ok text =>
    rw [hunits] at h
    obtain rfl := wstringUnits_ok hunits
    have hrun := (Except.ok.inj h).symm
    cases hterm : policy.terminatorAt position with
    | absent =>
      rw [hterm] at hrun
      exact hrun
    | present =>
      rw [hterm] at hrun
      exact hrun

theorem dropTerminator_run (text : List UInt16) (offset : Nat) :
    (0 ∉ text → dropTerminator (text ++ [0]) offset = .ok text) ∧
      (0 ∈ text → ∃ e, dropTerminator (text ++ [0]) offset = .error e) := by
  have hlast : (text ++ [0]).getLast? = some (0 : UInt16) := List.getLast?_concat
  unfold dropTerminator
  rw [if_pos hlast]
  simp only [List.dropLast_concat]
  constructor
  · intro hmem
    have hfind : text.findIdx? (· == 0) = none := by
      rw [List.findIdx?_eq_none_iff]
      intro unit hunit
      simp only [beq_eq_false_iff_ne]
      rintro rfl
      exact hmem hunit
    rw [hfind]
  · intro hmem
    cases hfind : text.findIdx? (· == 0) with
    | none =>
      have hnone := List.findIdx?_eq_none_iff.mp hfind 0 hmem
      exact absurd hnone (by decide)
    | some index => exact ⟨_, rfl⟩

end Run

/-! ### The octets of the run -/

section Octets

variable {w : Writer} {stream : List UInt8} {order : WstringUnitOrder} {width : Nat}

def unitOrder (order : WstringUnitOrder) (s : Settings) : Endianness :=
  match order with
  | .stream => s.endianness
  | .bigEndianAlways => .big
  | .byteOrderMark | .hostUnswapped => .little

theorem writeWstringUnit_eq (w : Writer) (unit : UInt16) (hwidth : width = 2 ∨ width = 4)
    (order : WstringUnitOrder) :
    w.writeWstringUnit unit width order =
      (w.alignTo width).extend ((unitOrder order w.toSettings).order width unit.toNat) := by
  have hsettings := alignTo_settings w width
  rcases hwidth with rfl | rfl
  · cases order with
    | stream =>
      show (w.alignTo 2).extend ((w.alignTo 2).endianness.order 2 unit.toNat) = _
      rw [hsettings]
      rfl
    | bigEndianAlways => rfl
    | byteOrderMark => rfl
    | hostUnswapped => rfl
  · have hunit : unit.toUInt32.toNat = unit.toNat := UInt16.toNat_toUInt32 unit
    cases order with
    | stream =>
      show (w.alignTo 4).extend ((w.alignTo 4).endianness.order 4 unit.toUInt32.toNat) = _
      rw [hsettings, hunit]
      rfl
    | bigEndianAlways =>
      rfl
    | byteOrderMark =>
      rfl
    | hostUnswapped =>
      rfl

theorem writeWstringUnit_extends (w : Writer) (unit : UInt16) (hwidth : width = 2 ∨ width = 4)
    (order : WstringUnitOrder) :
    ∃ octets, w.Extends octets (w.writeWstringUnit unit width order) ∧ width ≤ octets.length := by
  rw [writeWstringUnit_eq w unit hwidth]
  refine ⟨_, (alignTo_extends w width).trans (extend_extends _ _), ?_⟩
  rw [List.length_append, Endianness.length_order]
  omega

theorem readWstringUnit_eq (r : Reader) (hwidth : width = 2 ∨ width = 4)
    (order : WstringUnitOrder) (offset : Nat) {n : Nat} {r' : Reader} (hn : n ≤ 0xFFFF)
    (h : r.readWord (unitOrder order r.toSettings) width = .ok (n, r')) :
    r.readWstringUnit width order offset = .ok (UInt16.ofNat n, r') := by
  unfold Reader.readWstringUnit
  rcases hwidth with rfl | rfl
  · cases order <;> simp only [unitOrder] at h <;>
      simp only [Reader.readU16, Reader.readU16Big, Reader.readU16Little, h] <;> rfl
  · rw [if_pos rfl]
    cases order <;> simp only [unitOrder] at h <;>
      simp only [Reader.readU32, Reader.readU32Big, Reader.readU32Little, h, Except.bind,
        if_neg (Nat.not_lt.mpr hn)]

section

variable (hwidth : width = 2 ∨ width = 4)
include hwidth

theorem over_readWstringUnit {unit : UInt16} (offset : Nat)
    (h : (w.writeWstringUnit unit width order).out <+: stream) :
    (Reader.over w stream).readWstringUnit width order offset =
      .ok (unit, Reader.over (w.writeWstringUnit unit width order) stream) := by
  have hunit := unit.toNat_lt
  have hfits : unit.toNat < 256 ^ width := by
    rcases hwidth with rfl | rfl <;> omega
  rw [writeWstringUnit_eq w unit hwidth] at h ⊢
  have hread := readWstringUnit_eq (Reader.over w stream) hwidth order offset
    (by omega) (over_readWord (unitOrder order w.toSettings) hfits h)
  rw [UInt16.ofNat_toNat] at hread
  exact hread

theorem foldl_units_extends (w : Writer) (units : List UInt16) (order : WstringUnitOrder) :
    ∃ octets, w.Extends octets
        (units.foldl (fun w unit => w.writeWstringUnit unit width order) w) ∧
      units.length * width ≤ octets.length := by
  induction units generalizing w with
  | nil => exact ⟨[], .refl w, by simp⟩
  | cons unit rest ih =>
    obtain ⟨first, hfirst, hlength⟩ := writeWstringUnit_extends w unit hwidth order
    obtain ⟨behind, hbehind, hrest⟩ := ih (w.writeWstringUnit unit width order)
    refine ⟨first ++ behind, hfirst.trans hbehind, ?_⟩
    rw [List.length_append, List.length_cons, Nat.succ_mul]
    omega

theorem over_readUnits (offset : Nat) {units : List UInt16}
    (h : (units.foldl (fun w unit => w.writeWstringUnit unit width order) w).out <+: stream) :
    readUnits width order offset units.length (Reader.over w stream) = .ok (units,
      Reader.over (units.foldl (fun w unit => w.writeWstringUnit unit width order) w) stream) := by
  induction units generalizing w with
  | nil => rfl
  | cons unit rest ih =>
    obtain ⟨octets, hrest, _⟩ :=
      foldl_units_extends hwidth (w.writeWstringUnit unit width order) rest order
    have hfirst := over_readWstringUnit hwidth offset (hrest.isPrefix.trans h)
    rw [List.length_cons, readUnits, hfirst]
    show (readUnits width order offset rest.length _).map _ = _
    rw [ih h]
    rfl

end

end Octets

theorem aligned_mod (o : Nat) {m : Nat} (hm : 0 < m) : (o + (m - o % m) % m) % m = 0 := by
  have hlt := Nat.mod_lt o hm
  calc (o + (m - o % m) % m) % m = (o % m + (m - o % m)) % m := by
        rw [Nat.add_mod, Nat.mod_mod, ← Nat.add_mod, Nat.mod_add_mod]
    _ = 0 := by rw [Nat.add_sub_cancel' (Nat.le_of_lt hlt), Nat.mod_self]

variable (w : Writer)

theorem offset_padded (m : Nat) :
    (w.extend (List.replicate ((m - w.offset % m) % m) 0)).offset =
      w.offset + (m - w.offset % m) % m := by
  show (w.out ++ List.replicate _ _).length - w.origin = _
  rw [List.length_append, List.length_replicate]
  rcases Nat.lt_or_ge w.out.length w.origin with hahead | hbehind
  · have hzero : w.offset = 0 := by
      unfold offset
      omega
    rw [hzero, Nat.zero_mod, Nat.sub_zero, Nat.mod_self]
    omega
  · unfold offset
    omega

theorem padding_aligned (align : Nat) :
    padding align w.maxAlign (w.extend (padding align w.maxAlign w.offset)).offset = [] := by
  unfold padding
  by_cases hsmall : min align w.maxAlign ≤ 1
  · rw [if_pos hsmall]
  · simp only [if_neg hsmall]
    rw [offset_padded, aligned_mod _ (by omega), Nat.sub_zero, Nat.mod_self]
    rfl

theorem alignTo_alignTo (align : Nat) : (w.alignTo align).alignTo align = w.alignTo align := by
  have hnone : padding align (w.alignTo align).maxAlign (w.alignTo align).offset = [] := by
    rw [alignTo_settings, alignTo_eq]
    exact padding_aligned w align
  rw [alignTo_eq (w.alignTo align), hnone]
  simp [extend]

variable {policy : WstringLengthPolicy} {position : WirePosition}

theorem writeWstring_ok {w w' : Writer} {value : List Char} {order : WstringUnitOrder}
    (h : w.writeWstring value policy order position = .ok w') :
    ∃ units declared, w.wstringRun value policy order position = .ok units ∧
      policy.declaredLength units.length position = some declared ∧
      w' = units.foldl
      (fun w unit => w.writeWstringUnit unit (policy.characterWidth position) order)
        (w.writeU32 declared) := by
  unfold writeWstring at h
  cases hrun : w.wstringRun value policy order position with
  | error e =>
    rw [hrun] at h
    cases h
  | ok units =>
    rw [hrun] at h
    simp only at h
    cases hdeclared : policy.declaredLength units.length position with
    | none =>
      rw [hdeclared] at h
      cases h
    | some declared =>
      rw [hdeclared] at h
      exact ⟨units, declared, rfl, hdeclared, (Except.ok.inj h).symm⟩

theorem declaredLength_some {count : Nat} {declared : UInt32}
    (h : policy.declaredLength count position = some declared) :
    declared.toNat = policy.counted count position := by
  unfold WstringLengthPolicy.declaredLength at h
  simp only at h
  split at h
  · cases h
  · obtain rfl := Option.some.inj h
    exact Nat.mod_eq_of_lt (by omega)

theorem characterWidth_cases (policy : WstringLengthPolicy) (position : WirePosition) :
    policy.characterWidth position = 2 ∨ policy.characterWidth position = 4 := by
  unfold WstringLengthPolicy.characterWidth
  cases policy.unitAt position with
  | two => exact .inl rfl
  | four => exact .inr rfl

section RoundTrip

variable {w w' : Writer} {value : List Char} {policy : WstringLengthPolicy}
  {order : WstringUnitOrder} {position : WirePosition} {stream : List UInt8} {declared : UInt32}

theorem over_readLength (h : (w.writeU32 declared).out <+: stream) :
    (Reader.over (w.alignTo 4) stream).readU32 =
      .ok (declared.toNat, Reader.over (w.writeU32 declared) stream) := by
  have hword : w.writeU32 declared = ((w.alignTo 4).alignTo 4).extend
      ((w.alignTo 4).endianness.order 4 declared.toNat) := by
    rw [alignTo_alignTo]
    rfl
  have hlt := declared.toNat_lt
  rw [hword] at h ⊢
  exact over_readWord _ (by omega) h

variable {units : List UInt16}

theorem over_readWstringUnits {width : Nat} (hwidth : width = 2 ∨ width = 4) (offset : Nat)
    (h : (units.foldl (fun w unit => w.writeWstringUnit unit width order) w).out <+: stream) :
    (Reader.over w stream).readWstringUnits units.length width order offset = .ok (units,
      Reader.over (units.foldl (fun w unit => w.writeWstringUnit unit width order) w) stream) := by
  obtain ⟨octets, hext, hlength⟩ := foldl_units_extends hwidth w units order
  have hroom := remaining_over hext h
  rw [Reader.readWstringUnits, if_neg (by omega)]
  exact over_readUnits hwidth offset h

theorem unitCount_counted (policy : WstringLengthPolicy) (position : WirePosition)
    (count offset : Nat) :
    unitCount policy position (policy.counted count position) offset = .ok count := by
  have hwidth : 0 < policy.characterWidth position := by
    rcases characterWidth_cases policy position with h | h <;> omega
  unfold unitCount WstringLengthPolicy.counted
  cases policy.countsAt position with
  | characters => rfl
  | octets =>
    simp only [Nat.mul_mod_left, ne_eq, not_true_eq_false, if_false,
      Nat.mul_div_cancel _ hwidth]

theorem over_readWstring (hdeclared : policy.declaredLength units.length position = some declared)
    (hw' : w' = units.foldl
      (fun w unit => w.writeWstringUnit unit (policy.characterWidth position) order)
      (w.writeU32 declared)) (h : w'.out <+: stream) :
    (Reader.over w stream).readWstring policy order position =
      (withoutTerminator policy position declared.toNat (w.alignTo 4).out.length units).bind
        fun units => (decodeUnits order (w.alignTo 4).out.length units).map
          fun value => (value, Reader.over w' stream) := by
  subst hw'
  have hwidth := characterWidth_cases policy position
  obtain ⟨_, hrun, _⟩ := foldl_units_extends hwidth (w.writeU32 declared) units order
  have hlength := hrun.isPrefix.trans h
  have hpad : (w.alignTo 4).out <+: stream :=
    (extend_extends (w.alignTo 4) ((w.alignTo 4).order4 declared)).isPrefix.trans hlength
  have hcount := unitCount_counted policy position units.length (w.alignTo 4).out.length
  rw [← declaredLength_some hdeclared] at hcount
  rw [Reader.readWstring, over_alignTo hpad]
  show (Reader.over (w.alignTo 4) stream).readU32.bind _ = _
  rw [over_readLength hlength]
  show (unitCount policy position declared.toNat (w.alignTo 4).out.length).bind _ = _
  rw [hcount]
  show ((Reader.over (w.writeU32 declared) stream).readWstringUnits units.length _ _ _).bind _ = _
  rw [over_readWstringUnits hwidth _ h]
  rfl

variable (offset : Nat)

theorem decodeUnits_text
    (h : (if order.hasMark then stripByteOrderMark units else units) = value.flatMap encodeUtf16) :
    decodeUnits order offset units = .ok value := by
  rw [decodeUnits, h, decode_encode]

theorem decode_unterminated :
    decodeUnits order offset (marked order (value.flatMap encodeUtf16)) = .ok value := by
  apply decodeUnits_text
  unfold marked
  cases order.hasMark with
  | false => rfl
  | true =>
    cases value.flatMap encodeUtf16 with
    | nil => rfl
    | cons unit rest => rfl

def front (order : WstringUnitOrder) : List UInt16 := if order.hasMark then [byteOrderMark] else []

theorem marked_terminated (order : WstringUnitOrder) (text : List UInt16) :
    marked order (text ++ [0]) = (front order ++ text) ++ [0] := by
  have hnonempty : (text ++ [0]).isEmpty = false := by
    cases text <;> rfl
  unfold marked front
  rw [hnonempty]
  cases order.hasMark with
  | false => rfl
  | true => rfl

theorem decode_terminated :
    decodeUnits order offset (front order ++ value.flatMap encodeUtf16) = .ok value := by
  apply decodeUnits_text
  unfold front
  cases order.hasMark with
  | false => rfl
  | true => rfl

theorem zero_mem_front (order : WstringUnitOrder) (text : List UInt16) :
    0 ∈ front order ++ text ↔ 0 ∈ text := by
  unfold front
  cases order.hasMark with
  | false => simp
  | true => simp [byteOrderMark]

/-- What a wide string put on the wire is read back as the text it was, and up to where the writer
stopped, exactly where no NUL ends the text or the text has none. -/
theorem wstring_round_trip (h : w.writeWstring value policy order position = .ok w')
    (rest : List UInt8) :
    (Reader.over w (w'.out ++ rest)).readWstring policy order position =
        .ok (value, Reader.over w' (w'.out ++ rest)) ↔
      policy.terminatorAt position = .absent ∨ '\x00' ∉ value := by
  obtain ⟨units, declared, hrun, hdeclared, hw'⟩ := writeWstring_ok h
  have hunits := wstringRun_ok hrun
  rw [over_readWstring hdeclared hw' (List.prefix_append _ _)]
  cases hterm : policy.terminatorAt position with
  | absent =>
    rw [hterm] at hunits
    have hdecode : decodeUnits order (w.alignTo 4).out.length
        (marked order (value.flatMap encodeUtf16)) = .ok value := decode_unterminated _
    rw [terminated] at hunits
    simp only [withoutTerminator, hterm, true_or, iff_true]
    show (decodeUnits order _ units).map _ = _
    rw [hunits, hdecode]
    rfl
  | present =>
    rw [hterm, terminated, marked_terminated] at hunits
    have hnonzero : ¬ declared.toNat < 1 := by
      have hcounted := declaredLength_some hdeclared
      have hwidth := characterWidth_cases policy position
      have hpositive : 0 < units.length := by
        rw [hunits, List.length_append]
        exact Nat.succ_pos _
      unfold WstringLengthPolicy.counted at hcounted
      have hproduct : 0 < units.length * policy.characterWidth position :=
        Nat.mul_pos hpositive (by omega)
      split at hcounted <;> omega
    have hdrop := dropTerminator_run (front order ++ value.flatMap encodeUtf16)
      (w.alignTo 4).out.length
    rw [zero_mem_front, zero_mem_units, ← hunits] at hdrop
    simp only [withoutTerminator, hterm, if_neg hnonzero, reduceCtorEq, false_or]
    by_cases hnul : '\x00' ∈ value
    · obtain ⟨e, he⟩ := hdrop.2 hnul
      rw [he]
      constructor
      · intro hok
        cases hok
      · intro habsent
        exact absurd hnul habsent
    · rw [hdrop.1 hnul]
      refine iff_of_true ?_ hnul
      show (decodeUnits order _ (front order ++ value.flatMap encodeUtf16)).map _ = _
      rw [decode_terminated]
      rfl

end RoundTrip

/-- A text that starts with the mark and has an astral character, behind one octet of a big-endian
stream and behind a mark of its own. -/
theorem marked_text_comes_back :
    ∃ w', (continuing { endianness := .big } [7]).writeWstring ['\uFEFF', '𝄞']
        ⟨.octets, .absent, .two⟩ .byteOrderMark .member = .ok w' ∧
      (Reader.over (continuing { endianness := .big } [7]) (w'.out ++ [1])).readWstring
        ⟨.octets, .absent, .two⟩ .byteOrderMark .member =
          .ok (['\uFEFF', '𝄞'], Reader.over w' (w'.out ++ [1])) :=
  ⟨_, rfl, (wstring_round_trip rfl [1]).mpr (.inl rfl)⟩

/-- A NUL inside a text that a NUL ends is written, and refused where it is read. -/
theorem inner_nul_written_not_read :
    ∃ w' e, (appending { endianness := .little } []).writeWstring ['a', '\x00', 'b']
        ⟨.characters, .present, .four⟩ .stream .member = .ok w' ∧
      (Reader.over (appending { endianness := .little } []) w'.out).readWstring
        ⟨.characters, .present, .four⟩ .stream .member = .error e :=
  ⟨_, _, rfl, rfl⟩

end ZeroDds.Wire.Writer
