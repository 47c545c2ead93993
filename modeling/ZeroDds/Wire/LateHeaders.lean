/-
A header rewritten late stands as if it had been chosen early.
-/
import ZeroDds.Wire.Headers

namespace ZeroDds.Wire.Writer

variable {w v : Writer} {body : List UInt8} {f : Writer → Except WireError Writer}

/-- The writers that calls lead to: a fresh one, one behind whole calls, one inside a header that
is still open. -/
inductive Reached : Writer → Prop where
  | appending (settings : Settings) (out : List UInt8) : Reached (appending settings out)
  | continuing (settings : Settings) (out : List UInt8) : Reached (continuing settings out)
  | call {w w' : Writer} {f : Writer → Except WireError Writer} :
    Reached w → Nested f → f w = .ok w' → Reached w'
  | dheader {w : Writer} : Reached w → Reached w.writeDheader.2
  | emheader {w w' : Writer} {header : EmHeader} {memberId : UInt32} {lengthCode : UInt8}
    {mustUnderstand : Bool} : Reached w →
    w.writeEmheader memberId lengthCode mustUnderstand = .ok (header, w') → Reached w'
  | pid {w w' : Writer} {header : Pid} {pid : UInt16} {role : ParameterRole}
    {mustUnderstand : Bool} : Reached w →
    w.writePid pid role mustUnderstand = .ok (header, w') → Reached w'
  | pidExtended {w w' : Writer} {header : Pid} {pid : UInt32} {role : ParameterRole}
    {mustUnderstand : Bool} : Reached w →
    w.writePidExtended pid role mustUnderstand = .ok (header, w') → Reached w'
  | packedElement {w : Writer} : Reached w → Reached w.beginPackedElement.2

theorem inPhase_self (hw : w.origin ≤ w.out.length) : InPhase w w :=
  ⟨rfl, hw, hw, fun _ => rfl, rfl⟩

theorem openedParameter_origin (start : Writer → Writer) (hole : Settings → List UInt8)
    (w : Writer) : (openedParameter start hole w).origin =
      (openedParameter start hole w).out.length := rfl

theorem openedParameter_settings (start : Writer → Writer) (hole : Settings → List UInt8)
    (w : Writer) : (openedParameter start hole w).toSettings = (start w).toSettings := rfl

theorem openedParameter_body {start : Writer → Writer} {hole : Settings → List UInt8}
    (h : (openedParameter start hole w).Extends body v) :
    v.out = (start w).out ++ (hole w.toSettings ++ body) := by
  rw [h.out]
  exact List.append_assoc _ _ _

theorem Reached.within (h : Reached w) : w.origin ≤ w.out.length := by
  induction h with
  | appending settings out => exact Nat.le_refl _
  | continuing settings out => exact Nat.zero_le _
  | call _ hf hok ih =>
    obtain ⟨_, _, _, hext, _⟩ := hf.movable (inPhase_self ih) hok
    exact hext.within ih
  | @dheader w _ ih =>
    exact (writeDheader_phase w w (inPhase_self ih)).within₁
  | @emheader w w' header memberId lengthCode mustUnderstand _ hok ih =>
    by_cases hid : memberId > eMemberIdMask
    · simp only [writeEmheader, if_pos hid] at hok
      cases hok
    · rw [writeEmheader_eq hid] at hok
      obtain ⟨_, rfl⟩ := Prod.mk.inj (Except.ok.inj hok)
      exact (openedEmheader_phase _ _ w w (inPhase_self ih)).within₁
  | @pid w w' header pid role mustUnderstand _ hok ih =>
    by_cases hid : pid > w.plCdr1.highestShortId
    · simp only [writePid, if_pos hid] at hok
      cases hok
    · rw [writePid_eq hid] at hok
      obtain ⟨_, rfl⟩ := Prod.mk.inj (Except.ok.inj hok)
      exact Nat.le_of_eq (openedParameter_origin _ _ _)
  | @pidExtended w w' header pid role mustUnderstand _ hok ih =>
    by_cases hid : pid > eMemberIdMask
    · simp only [writePidExtended, if_pos hid] at hok
      cases hok
    · rw [writePidExtended_eq hid] at hok
      obtain ⟨_, rfl⟩ := Prod.mk.inj (Except.ok.inj hok)
      exact Nat.le_of_eq (openedParameter_origin _ _ _)
  | packedElement _ _ => exact Nat.le_refl _

/-! ### The extended header has no padding of its own -/

/-- A distance from the origin that a word can stand at: no alignment up to four pads there. -/
def OnWord (maxAlign offset : Nat) : Prop :=
  (maxAlign = 2 → offset % 2 = 0) ∧ (4 ≤ maxAlign → offset % 4 = 0)

theorem onWord_alignTo (hw : w.origin ≤ w.out.length) : OnWord w.maxAlign (w.alignTo 4).offset := by
  rw [(alignTo_extends w 4).offset_eq hw]
  unfold padding OnWord
  constructor
  · intro hmax
    rw [show min 4 w.maxAlign = 2 by omega]
    rw [if_neg (by decide), List.length_replicate]
    omega
  · intro hmax
    rw [show min 4 w.maxAlign = 4 by omega]
    rw [if_neg (by decide), List.length_replicate]
    omega

theorem padding_two {maxAlign offset : Nat} (h : OnWord maxAlign offset) (hmax : maxAlign ≠ 3)
    (n : Nat) : padding 2 maxAlign (offset + 2 * n) = [] := by
  obtain ⟨htwo, hfour⟩ := h
  unfold padding
  by_cases hsmall : min 2 maxAlign ≤ 1
  · rw [if_pos hsmall]
  · rw [if_neg hsmall, show min 2 maxAlign = 2 by omega]
    have heven : (offset + 2 * n) % 2 = 0 := by
      rcases Nat.lt_or_ge maxAlign 4 with hlt | hge
      · omega
      · omega
    rw [heven]
    rfl

theorem padding_four {maxAlign offset : Nat} (h : OnWord maxAlign offset) (hmax : maxAlign ≠ 3) :
    padding 4 maxAlign (offset + 4) = [] := by
  obtain ⟨htwo, hfour⟩ := h
  unfold padding
  by_cases hsmall : min 4 maxAlign ≤ 1
  · rw [if_pos hsmall]
  · rw [if_neg hsmall]
    have haligned : (offset + 4) % min 4 maxAlign = 0 := by
      rcases Nat.lt_or_ge maxAlign 4 with hlt | hge
      · rw [show min 4 maxAlign = 2 by omega]
        omega
      · rw [show min 4 maxAlign = 4 by omega]
        omega
    rw [haligned, Nat.sub_zero, Nat.mod_self]
    rfl

theorem length_order2 (w : Writer) (value : UInt16) : (w.order2 value).length = 2 :=
  Endianness.length_order _ _ _

theorem writeU16_plain (value : UInt16) (h : padding 2 w.maxAlign w.offset = []) :
    w.Extends (w.order2 value) (w.writeU16 value) := by
  have hext := writeU16_extends w value
  rw [h] at hext
  exact hext

theorem writeU32_plain (value : UInt32) (h : padding 4 w.maxAlign w.offset = []) :
    w.Extends (w.order4 value) (w.writeU32 value) := by
  have hext := writeU32_extends w value
  rw [h] at hext
  exact hext

theorem pidStart_out (hw : w.origin ≤ w.out.length) (hmax : w.maxAlign ≠ 3) :
    w.pidStart.out = (w.alignTo 4).out := by
  have hpad := padding_two (onWord_alignTo hw) hmax 0
  have hext := alignTo_extends (w.alignTo 4) 2
  rw [alignTo_settings, Nat.mul_zero, Nat.add_zero] at *
  rw [pidStart, hext.out, hpad, List.append_nil]

theorem extendedStart_out (hw : w.origin ≤ w.out.length) (hmax : w.maxAlign ≠ 3) (pid : UInt32)
    (mustUnderstand : Bool) :
    (extendedStart pid mustUnderstand w).out = (w.alignTo 4).out ++
      (w.endianness.order 2 w.plCdr1.extendedMarker.toNat ++ (w.endianness.order 2 8 ++
        w.endianness.order 4 (w.plCdr1.memberHeader pid mustUnderstand).toNat)) := by
  have hpad := alignTo_extends w 4
  have hword := onWord_alignTo hw
  have hmarker := writeU16_plain (w := w.alignTo 4) w.plCdr1.extendedMarker (by
    rw [hpad.settings]
    exact padding_two hword hmax 0)
  have hsettings₁ := hmarker.settings.trans hpad.settings
  have hoffset₁ := hmarker.offset_eq (hpad.within hw)
  have height := writeU16_plain (w := (w.alignTo 4).writeU16 w.plCdr1.extendedMarker) 8 (by
    rw [hsettings₁, hoffset₁, length_order2]
    exact padding_two hword hmax 1)
  have hsettings₂ := height.settings.trans hsettings₁
  have hoffset₂ := height.offset_eq (hmarker.within (hpad.within hw))
  have hmember := writeU32_plain
    (w := ((w.alignTo 4).writeU16 w.plCdr1.extendedMarker).writeU16 8)
    (w.plCdr1.memberHeader pid mustUnderstand) (by
      rw [hsettings₂, hoffset₂, hoffset₁, length_order2, length_order2]
      exact padding_four hword hmax)
  rw [extendedStart, hmember.out, height.out, hmarker.out]
  simp only [order2, order4, hpad.settings, hsettings₁, hsettings₂, List.append_assoc]
  rfl

variable {pid : UInt16} {code : UInt8}

theorem and_fourteen_bits (h : pid < 0x4000) : pid &&& 0x3FFF = pid := by
  apply UInt16.toNat_inj.mp
  have hlt : pid.toNat < 2 ^ 14 := UInt16.lt_iff_toNat_lt.mp h
  exact (Nat.and_two_pow_sub_one_eq_mod pid.toNat 14).trans (Nat.mod_eq_of_lt hlt)

theorem or_and_fourteen_bits {flags : UInt16} (h : pid < 0x4000) (hflags : flags &&& 0x3FFF = 0) :
    (pid ||| flags) &&& 0x3FFF = pid := by
  have hdistrib : (pid ||| flags) &&& 0x3FFF = (pid &&& 0x3FFF) ||| (flags &&& 0x3FFF) :=
    UInt16.toBitVec_inj.mp BitVec.and_or_distrib_right
  rw [hdistrib, hflags, and_fourteen_bits h, UInt16.or_zero]

theorem keptId_eq (h : pid < 0x4000) (framing : PlCdr1Framing) (mustUnderstand : Bool) :
    keptId framing pid mustUnderstand = pid.toUInt32 := by
  have hmask : ~~~(pidMustUnderstand ||| pidImplExtension) = (0x3FFF : UInt16) := by decide
  have hflags : framing.pidFlags.flagsAt .member &&& 0x3FFF = 0 := by
    cases framing.pidFlags <;> decide
  have hboth : (pidMustUnderstand ||| framing.pidFlags.flagsAt .member) &&& 0x3FFF = 0 := by
    cases framing.pidFlags <;> decide
  unfold keptId PlCdr1Framing.shortId
  rw [hmask]
  split
  · rw [UInt16.or_assoc, or_and_fourteen_bits h hboth]
  · rw [or_and_fourteen_bits h hflags]

theorem toUInt32_le_mask (pid : UInt16) : ¬ pid.toUInt32 > eMemberIdMask := by
  intro h
  have hlt := UInt32.lt_iff_toNat_lt.mp h
  have hpid := pid.toNat_lt
  rw [UInt16.toNat_toUInt32] at hlt
  have hmask : eMemberIdMask.toNat = 0x0FFFFFFF := by decide
  omega

theorem settle_congr {a b : Writer} (hout : a.out = b.out) (horigin : a.origin = b.origin)
    (hsettings : a.toSettings = b.toSettings) :
    (settle a).out = (settle b).out ∧ (settle a).origin = (settle b).origin := by
  have hoffset : a.offset = b.offset := by rw [offset, offset, hout, horigin]
  unfold settle
  rw [hsettings]
  split
  · rw [alignTo_eq, alignTo_eq, hoffset, hsettings]
    exact ⟨by rw [extend, extend, hout], horigin⟩
  · exact ⟨hout, horigin⟩

theorem promoted_equals_extended (hw : w.origin ≤ w.out.length) {v₁ v₂ : Writer}
    (hpid : pid < 0x4000) (hmax : w.maxAlign ≠ 3) (role : ParameterRole) (mustUnderstand : Bool)
    (hout₁ : v₁.out = w.pidStart.out ++ ((shortIdOctets pid mustUnderstand w.toSettings ++
      List.replicate 2 0) ++ body))
    (hout₂ : v₂.out = (extendedStart pid.toUInt32 mustUnderstand w).out ++
      (List.replicate 4 0 ++ body)) (hsettings₁ : v₁.toSettings = w.toSettings)
    (hsettings₂ : v₂.toSettings = w.toSettings) (hlong : pidShortMaxLen < body.length) :
    (v₁.finishPid (shortHandle pid role mustUnderstand w)).out =
        (v₂.finishPid (extendedHandle pid.toUInt32 role mustUnderstand w)).out ∧
      (v₁.finishPid (shortHandle pid role mustUnderstand w)).origin =
        (v₂.finishPid (extendedHandle pid.toUInt32 role mustUnderstand w)).origin := by
  have hstart := extendedStart_out hw hmax pid.toUInt32 mustUnderstand
  have hbefore : w.origin ≤ (w.alignTo 4).out.length := by
    have hwithin := (alignTo_extends w 4).within hw
    rw [(alignTo_extends w 4).origin] at hwithin
    exact hwithin
  have hpast : (v₁.out.length - w.origin) % 4 = (v₂.out.length - w.origin) % 4 := by
    rw [hout₁, hout₂, pidStart_out hw hmax, hstart]
    simp only [List.length_append, List.length_replicate, shortIdOctets, Endianness.length_order]
    omega
  have hpadded : w.plCdr1.paddedLength role body.length ((v₂.out.length - w.origin) % 4) >
      pidShortMaxLen := by
    unfold PlCdr1Framing.paddedLength
    split
    · omega
    · exact hlong
  rw [finishPid_shortHandle pid role mustUnderstand hout₁ hsettings₁,
    finishPid_extendedHandle pid.toUInt32 role mustUnderstand hout₂ hsettings₂]
  refine settle_congr ?_ rfl (hsettings₁.trans hsettings₂.symm)
  simp only [closedPid, closedExtended, hpast, if_pos hpadded, keptId_eq hpid, extendedHeader,
    pidStart_out hw hmax, hstart, List.append_assoc]

theorem short_codes (hcode : code ≤ 3) : code = 0 ∨ code = 1 ∨ code = 2 ∨ code = 3 := by
  have hle := UInt8.le_iff_toNat_le.mp hcode
  have hthree : (3 : UInt8).toNat = 3 := rfl
  have hnat : code.toNat = 0 ∨ code.toNat = 1 ∨ code.toNat = 2 ∨ code.toNat = 3 := by omega
  rcases hnat with h | h | h | h
  · exact .inl (UInt8.toNat_inj.mp h)
  · exact .inr (.inl (UInt8.toNat_inj.mp h))
  · exact .inr (.inr (.inl (UInt8.toNat_inj.mp h)))
  · exact .inr (.inr (.inr (UInt8.toNat_inj.mp h)))

theorem shortCode_shift (hcode : code ≤ 3) :
    shortCode (UInt32.ofNat (1 <<< code.toNat)) = (code &&& 0x7).toUInt32 := by
  rcases short_codes hcode with rfl | rfl | rfl | rfl <;> decide

theorem and_or_distrib (a b c : UInt32) : (a ||| b) &&& c = (a &&& c) ||| (b &&& c) :=
  UInt32.toBitVec_inj.mp BitVec.and_or_distrib_right

theorem emheaderWord_recode (memberId : UInt32) (code : UInt8) (mustUnderstand : Bool) :
    (emheaderWord memberId 4 mustUnderstand &&& ~~~((0x7 : UInt32) <<< 28)) |||
        ((code &&& 0x7).toUInt32 <<< 28) = emheaderWord memberId code mustUnderstand := by
  have hid : (memberId &&& eMemberIdMask) &&& ~~~((0x7 : UInt32) <<< 28) =
      memberId &&& eMemberIdMask := by
    rw [UInt32.and_assoc]
    rfl
  have hcode : (((4 : UInt8) &&& 0x7).toUInt32 <<< 28) &&& ~~~((0x7 : UInt32) <<< 28) = 0 := by
    decide
  have hflag : ((if mustUnderstand then (1 : UInt32) else 0) <<< 31) &&&
      ~~~((0x7 : UInt32) <<< 28) = (if mustUnderstand then (1 : UInt32) else 0) <<< 31 := by
    cases mustUnderstand <;> decide
  unfold emheaderWord
  rw [and_or_distrib, and_or_distrib, hid, hcode, hflag, UInt32.or_zero, UInt32.or_assoc,
    UInt32.or_assoc, UInt32.or_comm (memberId &&& eMemberIdMask)]

theorem shortWord_order (e : Endianness) (memberId : UInt32) (hcode : code ≤ 3)
    (mustUnderstand : Bool) :
    shortWord e (e.order 4 (emheaderWord memberId 4 mustUnderstand).toNat)
        (UInt32.ofNat (1 <<< code.toNat)) =
      e.order 4 (emheaderWord memberId code mustUnderstand).toNat := by
  have hlt := (emheaderWord memberId 4 mustUnderstand).toNat_lt
  rw [shortWord, Endianness.value_order e (by omega), UInt32.ofNat_toNat, shortCode_shift hcode,
    emheaderWord_recode]

theorem openedEmheader_codes (hw : w.origin ≤ w.out.length) (hmax : w.maxAlign = 4)
    (hcode : code ≤ 3) (word word' : UInt32) :
    InPhase (openedEmheader word 4 w) (openedEmheader word' code w) := by
  have hne : ¬ code = 4 := by
    rintro rfl
    exact absurd hcode (by decide)
  have hpad := moves_emheaderStart.extends hw
  have hstart := hpad.within hw
  have hlate := extend_extends w.emheaderStart (w.order4 word ++ nextIntHole 4)
  have hearly := extend_extends w.emheaderStart (w.order4 word' ++ nextIntHole code)
  have hsettings : (openedEmheader word 4 w).toSettings = w.toSettings := hpad.settings
  have hoffset : (openedEmheader word 4 w).offset = (openedEmheader word' code w).offset + 4 := by
    rw [openedEmheader, openedEmheader, hlate.offset_eq hstart, hearly.offset_eq hstart]
    simp only [nextIntHole, if_pos, if_neg hne, List.length_append, List.length_replicate,
      List.length_nil, order4, Endianness.length_order]
  have hfour : ∀ m, m ∣ 4 → (openedEmheader word 4 w).offset ≡
      (openedEmheader word' code w).offset [MOD m] := by
    intro m hm
    rw [hoffset, Nat.add_comm]
    exact Nat.add_modEq_right_iff.mpr hm
  refine ⟨rfl, hlate.within hstart, hearly.within hstart, fun k => hfour _ ?_,
    hfour 4 (Nat.dvd_refl 4)⟩
  rw [hsettings, hmax]
  rcases Nat.lt_or_ge k 2 with hk | hk
  · have hle : 2 ^ k ≤ 4 := Nat.pow_le_pow_right (n := 2) (by decide) (by omega : k ≤ 2)
    rw [Nat.min_eq_left hle]
    exact Nat.pow_dvd_pow 2 (by omega : k ≤ 2)
  · have hle : 4 ≤ 2 ^ k := Nat.pow_le_pow_right (by decide : 0 < 2) hk
    rw [Nat.min_eq_right hle]

theorem shortened_equals_short (hw : w.origin ≤ w.out.length) {v₁ v₂ : Writer} (memberId : UInt32)
    (hcode : code ≤ 3) (mustUnderstand : Bool) (hshorten : w.shortLengthCodes = true)
    (h₁ : (openedEmheader (emheaderWord memberId 4 mustUnderstand) 4 w).Extends body v₁)
    (h₂ : (openedEmheader (emheaderWord memberId code mustUnderstand) code w).Extends body v₂)
    (hbody : body.length = 1 <<< code.toNat) :
    ∃ late, v₁.finishEmheader (emheaderHandle 4 w) = .ok late ∧
      v₂.finishEmheader (emheaderHandle code w) = .ok v₂ ∧ v₂.out = late.out ∧
      v₂.origin = late.origin := by
  have hne : ¬ code = 4 := by
    rintro rfl
    exact absurd hcode (by decide)
  obtain ⟨hout₁, horigin₁, hsettings₁⟩ := openedEmheader_body hw h₁
  obtain ⟨hout₂, horigin₂, hsettings₂⟩ := openedEmheader_body hw h₂
  have hlength : ∀ word, (w.order4 word).length = 4 := fun word =>
    Endianness.length_order w.endianness 4 word.toNat
  have hshort : UInt32.ofNat body.length = 1 ∨ UInt32.ofNat body.length = 2 ∨
      UInt32.ofNat body.length = 4 ∨ UInt32.ofNat body.length = 8 := by
    rw [hbody]
    rcases short_codes hcode with rfl | rfl | rfl | rfl <;> decide
  simp only [nextIntHole, if_neg hne, List.nil_append] at hout₂
  refine ⟨_, finishEmheader_next hout₁ (hlength _) rfl, ?_, ?_, horigin₂.trans horigin₁.symm⟩
  · simp only [emheaderHandle, if_neg hne]
    exact finishEmheader_code hout₂ (hlength _) fun _ => hbody
  · rw [hout₂]
    simp only [closedEmheader, hsettings₁]
    rw [if_pos ⟨hshorten, hshort⟩, hbody]
    congr 2
    exact (shortWord_order w.endianness memberId hcode mustUnderstand).symm

/-! ### The late choice and the early one -/

theorem parameter_bodies (hf : Nested f) (pid : UInt16) (mustUnderstand : Bool)
    (hw : w.origin ≤ w.out.length) (hv : f (openedParameter pidStart
      (fun s => shortIdOctets pid mustUnderstand s ++ List.replicate 2 0) w) = .ok v) :
    ∃ body v', f (openedParameter (extendedStart pid.toUInt32 mustUnderstand)
        (fun _ => List.replicate 4 0) w) = .ok v' ∧
      (openedParameter pidStart
        (fun s => shortIdOctets pid mustUnderstand s ++ List.replicate 2 0) w).Extends body v ∧
      (openedParameter (extendedStart pid.toUInt32 mustUnderstand)
        (fun _ => List.replicate 4 0) w).Extends body v' := by
  have hshort := (moves_pidStart.extends hw).settings
  have hextended := ((moves_extendedStart pid.toUInt32 mustUnderstand).extends hw).settings
  refine hf.movable (inPhase_of_origins ?_ (openedParameter_origin _ _ _)
    (openedParameter_origin _ _ _)) hv
  rw [openedParameter_settings, openedParameter_settings, hshort, hextended]

/-- In every writer in use and for every body that calls write: a parameter begun with the short
header whose body turns out longer than the header can state, and a member begun with a NEXTINT
whose body turns out 1, 2, 4 or 8 octets long, end with the octets of the form chosen early. -/
theorem late_headers_equal_early (hw : Reached w) (hf : Nested f) :
    (∀ (pid : UInt16) (role : ParameterRole) (mustUnderstand : Bool) (header : Pid)
      (opened v : Writer), pid < 0x4000 → w.maxAlign ≠ 3 →
      w.writePid pid role mustUnderstand = .ok (header, opened) → f opened = .ok v →
      0xFFFF < v.out.length - opened.out.length →
      ∃ header' opened' v',
        w.writePidExtended pid.toUInt32 role mustUnderstand = .ok (header', opened') ∧
        f opened' = .ok v' ∧ (v.finishPid header).out = (v'.finishPid header').out ∧
        (v.finishPid header).origin = (v'.finishPid header').origin) ∧
    (∀ (memberId : UInt32) (code : UInt8) (mustUnderstand : Bool) (header : EmHeader)
      (opened v : Writer), code ≤ 3 → w.maxAlign = 4 → w.shortLengthCodes = true →
      w.writeEmheader memberId 4 mustUnderstand = .ok (header, opened) → f opened = .ok v →
      v.out.length - opened.out.length = 1 <<< code.toNat →
      ∃ late header' opened' v' early, v.finishEmheader header = .ok late ∧
        w.writeEmheader memberId code mustUnderstand = .ok (header', opened') ∧
        f opened' = .ok v' ∧ v'.finishEmheader header' = .ok early ∧
        early.out = late.out ∧ early.origin = late.origin) := by
  have hwithin := hw.within
  constructor
  · intro pid role mustUnderstand header opened v hpid hmax hopen hbody hlong
    have hid : ¬ pid > w.plCdr1.highestShortId := by
      intro hid
      simp only [writePid, if_pos hid] at hopen
      cases hopen
    rw [writePid_eq hid] at hopen
    obtain ⟨rfl, rfl⟩ := Prod.mk.inj (Except.ok.inj hopen)
    obtain ⟨body, v', hv', h₁, h₂⟩ := parameter_bodies hf pid mustUnderstand hwithin hbody
    have hshort := (moves_pidStart.extends hwithin).settings
    have hextended :=
      ((moves_extendedStart pid.toUInt32 mustUnderstand).extends hwithin).settings
    rw [h₁.length, Nat.add_sub_cancel_left] at hlong
    have hsettings₁ := h₁.settings.trans ((openedParameter_settings _ _ w).trans hshort)
    have hsettings₂ := h₂.settings.trans ((openedParameter_settings _ _ w).trans hextended)
    have hsame := promoted_equals_extended hwithin hpid hmax role mustUnderstand
      (openedParameter_body h₁) (openedParameter_body h₂) hsettings₁ hsettings₂ hlong
    exact ⟨_, _, v', writePidExtended_eq (toUInt32_le_mask pid) role mustUnderstand, hv',
      hsame.1, hsame.2⟩
  · intro memberId code mustUnderstand header opened v hcode hmax hshorten hopen hbody hlength
    have hid : ¬ memberId > eMemberIdMask := by
      intro hid
      simp only [writeEmheader, if_pos hid] at hopen
      cases hopen
    rw [writeEmheader_eq hid] at hopen
    obtain ⟨rfl, rfl⟩ := Prod.mk.inj (Except.ok.inj hopen)
    obtain ⟨body, v', hv', h₁, h₂⟩ := hf.movable (openedEmheader_codes hwithin hmax hcode
      (emheaderWord memberId 4 mustUnderstand) (emheaderWord memberId code mustUnderstand)) hbody
    rw [h₁.length, Nat.add_sub_cancel_left] at hlength
    obtain ⟨late, hlate, hearly, hout, horigin⟩ := shortened_equals_short hwithin memberId hcode
      mustUnderstand hshorten h₁ h₂ hlength
    exact ⟨late, _, _, v', v', hlate, writeEmheader_eq hid code mustUnderstand w, hv', hearly,
      hout, horigin⟩

def xcdr2Writer : Writer :=
  appending { endianness := .little, maxAlign := 4, shortLengthCodes := true } []

theorem extend_grows (w : Writer) (octets : List UInt8) :
    (w.extend octets).out.length - w.out.length = octets.length := by
  rw [(extend_extends w octets).length, Nat.add_sub_cancel_left]

/-- A value of 65,536 octets behind parameter 5, and a word behind member 7. -/
theorem late_headers_of_long_value_and_word :
    (∃ header opened header' opened' v',
      xcdr2Writer.writePid 5 .member true = .ok (header, opened) ∧
      xcdr2Writer.writePidExtended 5 .member true = .ok (header', opened') ∧
      opened'.extend (List.replicate 0x10000 1) = v' ∧
      ((opened.extend (List.replicate 0x10000 1)).finishPid header).out =
        (v'.finishPid header').out) ∧
    (∃ late early, withEmheader 7 4 false (fun w => .ok (w.writeU32 9)) xcdr2Writer = .ok late ∧
      withEmheader 7 2 false (fun w => .ok (w.writeU32 9)) xcdr2Writer = .ok early ∧
      early.out = late.out) := by
  constructor
  · have hopen : xcdr2Writer.writePid 5 .member true = _ := writePid_eq (by decide) .member true
    obtain ⟨header', opened', v', hopen', hbody, hout, _⟩ :=
      (late_headers_equal_early (.appending _ _) (.bytes (List.replicate 0x10000 1))).1 5 .member
        true _ _ _ (by decide) (by decide) hopen rfl (by
          rw [extend_grows, List.length_replicate]
          decide)
    exact ⟨_, _, header', opened', v', hopen, hopen', Except.ok.inj hbody, hout⟩
  · obtain ⟨late, header', opened', v', early, hlate, hopen', hbody, hearly, hout, _⟩ :=
      (late_headers_equal_early (w := xcdr2Writer) (.appending _ _) (.u32 9)).2 7 2 false _ _ _
        (by decide) rfl rfl (writeEmheader_eq (by decide) 4 false xcdr2Writer) rfl (by decide)
    refine ⟨late, early, ?_, ?_, hout⟩
    · exact hlate
    · exact bind_ok.mpr ⟨_, hopen', bind_ok.mpr ⟨v', hbody, hearly⟩⟩

theorem promoted_out {mustUnderstand : Bool}
    (hout : v.out = w.pidStart.out ++ ((shortIdOctets pid mustUnderstand w.toSettings ++
      List.replicate 2 0) ++ body)) (hsettings : v.toSettings = w.toSettings)
    (hafter : w.plCdr1.padAfterValue = false) (hcounted : w.plCdr1.padDeclaredLength = false)
    (hlong : pidShortMaxLen < body.length) :
    (v.finishPid (shortHandle pid .member mustUnderstand w)).out = w.pidStart.out ++
      (extendedHeader w.toSettings (keptId w.plCdr1 pid mustUnderstand) mustUnderstand
        body.length ++ body) := by
  have hpadded : ∀ past, w.plCdr1.paddedLength .member body.length past = body.length := by
    intro past
    simp [PlCdr1Framing.paddedLength, PlCdr1Framing.padsDeclaredLength, hcounted]
  rw [finishPid_shortHandle pid .member mustUnderstand hout hsettings, settle, hsettings, hafter]
  simp only [closedPid, hpadded, if_pos hlong, Bool.false_eq_true, if_false]

theorem extended_out {pid : UInt32} {mustUnderstand : Bool}
    (hout : v.out = (extendedStart pid mustUnderstand w).out ++ (List.replicate 4 0 ++ body))
    (hsettings : v.toSettings = w.toSettings) (hafter : w.plCdr1.padAfterValue = false)
    (hcounted : w.plCdr1.padDeclaredLength = false) :
    (v.finishPid (extendedHandle pid .member mustUnderstand w)).out =
      (extendedStart pid mustUnderstand w).out ++
        (w.endianness.order 4 (UInt32.ofNat body.length).toNat ++ body) := by
  have hpadded : ∀ past, w.plCdr1.paddedLength .member body.length past = body.length := by
    intro past
    simp [PlCdr1Framing.paddedLength, PlCdr1Framing.padsDeclaredLength, hcounted]
  rw [finishPid_extendedHandle pid .member mustUnderstand hout hsettings, settle, hsettings, hafter]
  simp [closedExtended, hpadded]

theorem both_forms (pid : UInt16) (hid : ¬ pid > w.plCdr1.highestShortId)
    (hw : w.origin ≤ w.out.length) (hafter : w.plCdr1.padAfterValue = false)
    (hcounted : w.plCdr1.padDeclaredLength = false) (hlong : pidShortMaxLen < body.length) :
    ∃ header opened header' opened', w.writePid pid .member false = .ok (header, opened) ∧
      w.writePidExtended pid.toUInt32 .member false = .ok (header', opened') ∧
      ((opened.extend body).finishPid header).out = w.pidStart.out ++
        (extendedHeader w.toSettings (keptId w.plCdr1 pid false) false body.length ++ body) ∧
      ((opened'.extend body).finishPid header').out = (extendedStart pid.toUInt32 false w).out ++
        (w.endianness.order 4 (UInt32.ofNat body.length).toNat ++ body) := by
  have hshort := (moves_pidStart.extends hw).settings
  have hextended := ((moves_extendedStart pid.toUInt32 false).extends hw).settings
  refine ⟨_, _, _, _, writePid_eq hid .member false,
    writePidExtended_eq (toUInt32_le_mask pid) .member false, ?_, ?_⟩
  · exact promoted_out (openedParameter_body (extend_extends _ body)) hshort hafter hcounted hlong
  · exact extended_out (openedParameter_body (extend_extends _ body)) hextended hafter hcounted

def wideIdWriter : Writer :=
  appending
    { endianness := .little, plCdr1 := { highestShortId := 0xFFFF, padAfterValue := false } } []

def threeAlignWriter : Writer :=
  appending { endianness := .little, maxAlign := 3, plCdr1 := { padAfterValue := false } } []

/-- The promotion of id 0x4001 states member 1, and the extended header that alignment to three
pads takes two octets more than the promoted one. -/
theorem promoted_id_loses_bits :
    (∃ header opened header' opened',
      wideIdWriter.writePid 0x4001 .member false = .ok (header, opened) ∧
      wideIdWriter.writePidExtended 0x4001 .member false = .ok (header', opened') ∧
      ((opened.extend (List.replicate 0x10000 0)).finishPid header).out ≠
        ((opened'.extend (List.replicate 0x10000 0)).finishPid header').out) ∧
    (∃ header opened header' opened',
      threeAlignWriter.writePid 1 .member false = .ok (header, opened) ∧
      threeAlignWriter.writePidExtended 1 .member false = .ok (header', opened') ∧
      ((opened.extend (List.replicate 0x10000 0)).finishPid header).out ≠
        ((opened'.extend (List.replicate 0x10000 0)).finishPid header').out) := by
  have hlong : pidShortMaxLen < (List.replicate 0x10000 (0 : UInt8)).length := by
    rw [List.length_replicate]
    decide
  constructor
  · obtain ⟨header, opened, header', opened', hopen, hopen', hlate, hearly⟩ :=
      both_forms (w := wideIdWriter) 0x4001 (by decide) (by decide) rfl rfl hlong
    refine ⟨header, opened, header', opened', hopen, hopen', ?_⟩
    have hstart : (extendedStart (UInt16.toUInt32 0x4001) false wideIdWriter).out =
        [0x01, 0x7f, 8, 0, 1, 0x40, 0, 0] := by
      rw [extendedStart]
      decide
    rw [hlate, hearly, hstart, List.length_replicate, ← List.append_assoc, ← List.append_assoc]
    intro hsame
    have hheaders := List.append_cancel_right hsame
    exact absurd hheaders (by decide)
  · obtain ⟨header, opened, header', opened', hopen, hopen', hlate, hearly⟩ :=
      both_forms (w := threeAlignWriter) 1 (by decide) (by decide) rfl rfl hlong
    refine ⟨header, opened, header', opened', hopen, hopen', ?_⟩
    have hstart : (extendedStart (UInt16.toUInt32 1) false threeAlignWriter).out =
        [0x01, 0x7f, 8, 0, 0, 0, 1, 0, 0, 0] := by
      rw [extendedStart]
      decide
    rw [hlate, hearly, hstart]
    intro hsame
    have hlength := congrArg List.length hsame
    simp only [List.length_append, List.length_replicate] at hlength
    exact absurd hlength (by decide)

end ZeroDds.Wire.Writer
