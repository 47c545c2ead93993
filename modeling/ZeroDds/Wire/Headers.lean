/-
Headers that state the length of what follows them.
-/
import ZeroDds.Lib.Loops
import ZeroDds.Wire.Movable

namespace ZeroDds.Wire.Writer

variable {w v : Writer} {pre hole body : List UInt8}

/-! ### Closing a header -/

variable {span : Nat}

theorem patchDheader_at (hout : v.out = pre ++ (hole ++ body)) (hhole : hole.length = 4)
    (hspan : span ≤ 0xFFFFFFFF) :
    v.patchDheader ⟨pre.length⟩ span =
      .ok { v with out := pre ++ (v.order4 (UInt32.ofNat span) ++ body) } := by
  have hpatch : overwrite v.out pre.length (v.order4 (UInt32.ofNat span)) =
      pre ++ (v.order4 (UInt32.ofNat span) ++ body) := by
    rw [hout]
    exact overwrite_at rfl (by rw [hhole]; exact Endianness.length_order _ _ _)
  simp only [patchDheader, checkedDheaderLength, if_neg (Nat.not_lt.mpr hspan), hpatch]

theorem patchDheader_long {header : DHeader} (hspan : 0xFFFFFFFF < span) :
    ∃ e, v.patchDheader header span = .error e := by
  simp only [patchDheader, checkedDheaderLength, if_pos hspan]
  exact ⟨_, rfl⟩

def shortWord (e : Endianness) (word : List UInt8) (length : UInt32) : List UInt8 :=
  e.order 4 ((UInt32.ofNat (e.value word) &&& ~~~((0x7 : UInt32) <<< 28)) |||
    (shortCode length <<< 28)).toNat

variable {word : List UInt8}

theorem shortenEmheader_at {length : UInt32} (hout : v.out = pre ++ (word ++ (hole ++ body)))
    (hword : word.length = 4) (hhole : hole.length = 4) :
    v.shortenEmheader pre.length (pre.length + 4) length =
      { v with out := pre ++ (shortWord v.endianness word length ++ body) } := by
  have hdrain : drainAt v.out (pre.length + 4) 4 = pre ++ (word ++ body) := by
    rw [hout, ← List.append_assoc, drainAt_at (by rw [List.length_append, hword]) hhole,
      List.append_assoc]
  have hread : ((pre ++ (word ++ body)).drop pre.length).take 4 = word := by
    rw [List.drop_left, ← hword, List.take_left]
  simp only [shortenEmheader, hdrain, hread]
  rw [overwrite_at rfl (by rw [hword]; exact Endianness.length_order _ _ _)]
  rfl

def closedEmheader (s : Settings) (word : List UInt8) (body : List UInt8) : List UInt8 :=
  let length := UInt32.ofNat body.length
  if s.shortLengthCodes ∧ (length = 1 ∨ length = 2 ∨ length = 4 ∨ length = 8) then
    shortWord s.endianness word length ++ body
  else word ++ (s.endianness.order 4 length.toNat ++ body)

variable {code : UInt8}

theorem finishEmheader_next (hout : v.out = pre ++ (word ++ (hole ++ body)))
    (hword : word.length = 4) (hhole : hole.length = 4) :
    v.finishEmheader ⟨pre.length, some (pre.length + 4), code⟩ =
      .ok { v with out := pre ++ closedEmheader v.toSettings word body } := by
  have hlength : v.out.length - (pre.length + 4) - 4 = body.length := by
    rw [hout]
    simp only [List.length_append, hword, hhole]
    omega
  simp only [finishEmheader, closedEmheader, hlength]
  split
  · rw [shortenEmheader_at hout hword hhole]
  · rw [hout, ← List.append_assoc pre word,
      overwrite_at (by rw [List.length_append, hword]) (by
        rw [hhole]
        exact Endianness.length_order _ _ _), List.append_assoc]
    rfl

theorem finishEmheader_code (hout : v.out = pre ++ (word ++ body)) (hword : word.length = 4)
    (hfits : code ≤ 3 → body.length = 1 <<< code.toNat) :
    v.finishEmheader ⟨pre.length, none, code⟩ = .ok v := by
  have hlength : v.out.length - pre.length - 4 = body.length := by
    rw [hout]
    simp only [List.length_append, hword]
    omega
  simp only [finishEmheader, hlength]
  rw [if_neg]
  rintro ⟨hcode, _, hne⟩
  exact hne (hfits hcode)

theorem finishEmheader_misfit (hout : v.out = pre ++ (word ++ body)) (hword : word.length = 4)
    (hfits : ¬ (code ≤ 3 → body.length = 1 <<< code.toNat)) :
    ∃ e, v.finishEmheader ⟨pre.length, none, code⟩ = .error e := by
  have hlength : v.out.length = pre.length + 4 + body.length := by
    rw [hout]
    simp only [List.length_append, hword]
    omega
  have hbody : v.out.length - pre.length - 4 = body.length := by omega
  simp only [finishEmheader, hbody]
  obtain ⟨hcode, hne⟩ := Classical.not_imp.mp hfits
  rw [if_pos ⟨hcode, by omega, hne⟩]
  exact ⟨_, rfl⟩

def extendedHeader (s : Settings) (pid : UInt32) (mustUnderstand : Bool) (length : Nat) :
    List UInt8 :=
  s.endianness.order 2 s.plCdr1.extendedMarker.toNat ++ (s.endianness.order 2 8 ++
    (s.endianness.order 4 (s.plCdr1.memberHeader pid mustUnderstand).toNat ++
      s.endianness.order 4 (UInt32.ofNat length).toNat))

variable {header : Pid} {id : List UInt8}

theorem promotePid_at {length : Nat} (hout : v.out = pre ++ (id ++ (hole ++ body)))
    (hid : id.length = 2) (hhole : hole.length = 2) (hplace : header.place = pre.length + 2) :
    v.promotePid header length =
      { v with out := pre ++
        (extendedHeader v.toSettings header.pid header.mustUnderstand length ++ body) } := by
  have hstart : header.place - 2 = pre.length := by omega
  have hsplice : spliceAt v.out (header.place + 2) (List.replicate 8 0) =
      pre ++ (id ++ (hole ++ (List.replicate 4 0 ++ (List.replicate 4 0 ++ body)))) := by
    have hbefore : (pre ++ (id ++ hole)).length = header.place + 2 := by
      simp only [List.length_append, hid, hhole]
      omega
    have hout' : v.out = (pre ++ (id ++ hole)) ++ body := by
      rw [hout]
      simp
    rw [hout', spliceAt_at hbefore, show List.replicate 8 (0 : UInt8) =
      List.replicate 4 0 ++ List.replicate 4 0 from rfl]
    simp
  have hmarker : (v.order2 v.plCdr1.extendedMarker).length = 2 := Endianness.length_order _ _ _
  have height : (v.order2 8).length = 2 := Endianness.length_order _ _ _
  have hmember : (v.order4 (v.plCdr1.memberHeader header.pid header.mustUnderstand)).length = 4 :=
    Endianness.length_order _ _ _
  have hlength : (v.order4 (UInt32.ofNat length)).length = 4 := Endianness.length_order _ _ _
  simp only [promotePid, hstart, hsplice]
  rw [overwrite_at rfl (hmarker.trans hid.symm), overwrite_behind hmarker (height.trans hhole.symm),
    ← List.append_assoc (v.order2 _) (v.order2 8),
    overwrite_behind (by rw [List.length_append, hmarker, height]) (hmember.trans rfl),
    ← List.append_assoc (v.order2 _ ++ v.order2 8),
    overwrite_behind (by simp only [List.length_append, hmarker, height, hmember])
      (hlength.trans rfl)]
  simp only [extendedHeader, List.append_assoc]
  rfl

def settle (w : Writer) : Writer := if w.plCdr1.padAfterValue then w.alignTo 4 else w

/-- What a short parameter header and its body become, where the value ends `past` octets behind a
word. -/
def closedPid (role : ParameterRole) (pid : UInt32) (mustUnderstand : Bool) (id : List UInt8)
    (s : Settings) (body : List UInt8) (past : Nat) : List UInt8 :=
  let length := s.plCdr1.paddedLength role body.length past
  if length > pidShortMaxLen then extendedHeader s pid mustUnderstand length ++ body
  else id ++ (s.endianness.order 2 (UInt16.ofNat length).toNat ++ body)

theorem finishPid_short (hout : v.out = pre ++ (id ++ (hole ++ body))) (hid : id.length = 2)
    (hhole : hole.length = 2) (hplace : header.place = pre.length + 2)
    (hshort : header.extended = false) :
    v.finishPid header = settle { v with
      out := pre ++ closedPid header.role header.pid header.mustUnderstand id v.toSettings body
        ((v.out.length - header.savedOrigin) % 4)
      origin := header.savedOrigin } := by
  have hlength : v.out.length - header.place - 2 = body.length := by
    rw [hout, hplace]
    simp only [List.length_append, hid, hhole]
    omega
  have hpatch : ∀ part : List UInt8, part.length = 2 →
      overwrite v.out header.place part = pre ++ (id ++ (part ++ body)) := by
    intro part hpart
    rw [hout, hplace]
    exact overwrite_behind hid (hpart.trans hhole.symm)
  have hdeclared : v.declaredParameterLength header = v.plCdr1.paddedLength header.role body.length
      ((v.out.length - header.savedOrigin) % 4) := by
    simp only [declaredParameterLength, hshort, Bool.false_eq_true, if_false, hlength]
  simp only [finishPid, hdeclared, hshort, Bool.false_eq_true, if_false, closedPid, settle]
  by_cases hlong : v.plCdr1.paddedLength header.role body.length
      ((v.out.length - header.savedOrigin) % 4) > pidShortMaxLen
  · simp only [if_pos hlong, promotePid_at hout hid hhole hplace]
  · simp only [if_neg hlong, hpatch _ (Endianness.length_order _ _ _), order2]

theorem finishPid_extended (hout : v.out = pre ++ (hole ++ body)) (hhole : hole.length = 4)
    (hplace : header.place = pre.length) (hextended : header.extended = true) :
    v.finishPid header = settle { v with
      out := pre ++ (v.endianness.order 4 (UInt32.ofNat (v.plCdr1.paddedLength header.role
        body.length ((v.out.length - header.savedOrigin) % 4))).toNat ++ body)
      origin := header.savedOrigin } := by
  have hlength : v.out.length - header.place - 4 = body.length := by
    rw [hout, hplace]
    simp only [List.length_append, hhole]
    omega
  have hpatch : ∀ part : List UInt8, part.length = 4 →
      overwrite v.out header.place part = pre ++ (part ++ body) := by
    intro part hpart
    rw [hout, hplace]
    exact overwrite_at rfl (hpart.trans hhole.symm)
  have hdeclared : v.declaredParameterLength header = v.plCdr1.paddedLength header.role body.length
      ((v.out.length - header.savedOrigin) % 4) := by
    simp [declaredParameterLength, hextended, hlength]
  simp only [finishPid, hdeclared, hextended, if_true, settle,
    hpatch _ (Endianness.length_order _ _ _), order4]

/-! ### Framed bodies

Each header is opened before and closed after the calls that write what it frames. -/

def withDheader (f : Writer → Except WireError Writer) (w : Writer) : Except WireError Writer :=
  (f w.writeDheader.2).bind fun v => .ok (v.finishDheader w.writeDheader.1)

def withEmheader (memberId : UInt32) (lengthCode : UInt8) (mustUnderstand : Bool)
    (f : Writer → Except WireError Writer) (w : Writer) : Except WireError Writer :=
  (w.writeEmheader memberId lengthCode mustUnderstand).bind fun opened =>
    (f opened.2).bind fun v => v.finishEmheader opened.1

def withPid (pid : UInt16) (role : ParameterRole) (mustUnderstand : Bool)
    (f : Writer → Except WireError Writer) (w : Writer) : Except WireError Writer :=
  (w.writePid pid role mustUnderstand).bind fun opened =>
    (f opened.2).bind fun v => .ok (v.finishPid opened.1)

def withPidExtended (pid : UInt32) (role : ParameterRole) (mustUnderstand : Bool)
    (f : Writer → Except WireError Writer) (w : Writer) : Except WireError Writer :=
  (w.writePidExtended pid role mustUnderstand).bind fun opened =>
    (f opened.2).bind fun v => .ok (v.finishPid opened.1)

def withPackedElement (f : Writer → Except WireError Writer) (w : Writer) :
    Except WireError Writer :=
  (f w.beginPackedElement.2).bind fun v => .ok (v.finishPackedElement w.beginPackedElement.1)

theorem moves_settle : Moves settle :=
  moves_choose (g := fun s w => if s.plCdr1.padAfterValue then w.alignTo 4 else w) fun s => by
    cases s.plCdr1.padAfterValue with
    | true => exact moves_alignTo 2
    | false => exact fun w₁ w₂ _ => ⟨[], .refl w₁, .refl w₂⟩

def added (w w' : Writer) : List UInt8 := w'.out.drop w.out.length

theorem Extends.added_eq {w' : Writer} {octets : List UInt8} (h : w.Extends octets w') :
    w.added w' = octets := by
  rw [added, h.out, List.drop_left]

variable {g : Writer → Writer} {f : Writer → Except WireError Writer}

theorem Moves.extends (hg : Moves g) (hw : w.origin ≤ w.out.length) :
    w.Extends (w.added (g w)) (g w) := by
  obtain ⟨octets, h, _⟩ := hg ⟨rfl, hw, hw, fun _ => rfl, rfl⟩
  rw [h.added_eq]
  exact h

theorem Moves.added_eq {w₁ w₂ : Writer} (hg : Moves g) (h : InPhase w₁ w₂) :
    w₁.added (g w₁) = w₂.added (g w₂) := by
  obtain ⟨octets, h₁, h₂⟩ := hg h
  rw [h₁.added_eq, h₂.added_eq]

theorem movable_bracket {opened : Writer → Writer}
    {close : Writer → Writer → Except WireError Writer}
    (octets : Writer → List UInt8 → Option (List UInt8))
    (hopen : ∀ w₁ w₂, InPhase w₁ w₂ → InPhase (opened w₁) (opened w₂))
    (hphase : ∀ w₁ w₂ body, InPhase w₁ w₂ → octets w₁ body = octets w₂ body)
    (hsome : ∀ w v body o, w.origin ≤ w.out.length → (opened w).Extends body v →
      octets w body = some o → ∃ v', close w v = .ok v' ∧ w.Extends o v')
    (hnone : ∀ w v body, w.origin ≤ w.out.length → (opened w).Extends body v →
      octets w body = none → ∃ e, close w v = .error e) (hf : Movable f) :
    Movable fun w => (f (opened w)).bind (close w) := by
  intro w₁ w₂ w₁' h hok
  obtain ⟨v₁, hbody, hclose⟩ := bind_ok.mp hok
  obtain ⟨body, v₂, hbody₂, h₁, h₂⟩ := hf (hopen w₁ w₂ h) hbody
  have hsame := hphase w₁ w₂ body h
  cases ho : octets w₁ body with
  | none =>
    obtain ⟨e, he⟩ := hnone w₁ v₁ body h.within₁ h₁ ho
    rw [he] at hclose
    cases hclose
  | some o =>
    obtain ⟨v₁', hv₁, hext₁⟩ := hsome w₁ v₁ body o h.within₁ h₁ ho
    obtain ⟨v₂', hv₂, hext₂⟩ := hsome w₂ v₂ body o h.within₂ h₂ (hsame.symm.trans ho)
    obtain rfl := Except.ok.inj (hv₁.symm.trans hclose)
    exact ⟨o, v₂', bind_ok.mpr ⟨v₂, hbody₂, hv₂⟩, hext₁, hext₂⟩

section Movable

variable {f : Writer → Except WireError Writer}

/-- The octets of a DHEADER and its body; `tooLong` stands for a body no DHEADER can state. -/
def dheaderOctets (tooLong : List UInt8 → Option (List UInt8)) (w : Writer) (body : List UInt8) :
    Option (List UInt8) :=
  if body.length ≤ 0xFFFFFFFF then
    some (w.added (w.alignTo 4) ++ (w.order4 (UInt32.ofNat body.length) ++ body))
  else (tooLong body).map (w.added (w.alignTo 4) ++ ·)

theorem dheaderOctets_phase (tooLong : List UInt8 → Option (List UInt8)) (w₁ w₂ : Writer)
    (body : List UInt8) (h : InPhase w₁ w₂) :
    dheaderOctets tooLong w₁ body = dheaderOctets tooLong w₂ body := by
  have hpad := (moves_alignTo 2).added_eq h
  have hword : w₁.order4 (UInt32.ofNat body.length) = w₂.order4 (UInt32.ofNat body.length) := by
    rw [order4, order4, h.settings]
  unfold dheaderOctets
  rw [hword, show w₁.added (w₁.alignTo 4) = w₂.added (w₂.alignTo 4) from hpad]

theorem writeDheader_phase (w₁ w₂ : Writer) (h : InPhase w₁ w₂) :
    InPhase w₁.writeDheader.2 w₂.writeDheader.2 := by
  obtain ⟨pad, h₁, h₂⟩ := (moves_alignTo 2).comp (moves_octets (List.replicate 4 0)) h
  exact h.extends h₁ h₂

theorem writeDheader_body (h : w.writeDheader.2.Extends body v) :
    v.out = (w.alignTo 4).out ++ (List.replicate 4 0 ++ body) ∧
      v.out.length - (w.alignTo 4).out.length - 4 = body.length := by
  have hout : v.out = (w.alignTo 4).out ++ (List.replicate 4 0 ++ body) := by
    rw [h.out]
    exact List.append_assoc _ _ _
  refine ⟨hout, ?_⟩
  rw [hout, List.length_append, List.length_append, List.length_replicate]
  omega

variable {a : Writer}

theorem extends_refilled {rest : List UInt8} (h : w.Extends (w.added a) a)
    (hout : v.out = a.out ++ rest) (horigin : v.origin = w.origin)
    (hsettings : v.toSettings = w.toSettings) : w.Extends (w.added a ++ rest) v := by
  refine ⟨?_, horigin, hsettings⟩
  rw [hout, h.out, List.append_assoc]

theorem extends_patched (rest : List UInt8) (h : w.Extends (w.added a) a)
    (horigin : v.origin = w.origin) (hsettings : v.toSettings = w.toSettings) :
    w.Extends (w.added a ++ rest) { v with out := a.out ++ rest } :=
  extends_refilled h rfl horigin hsettings

theorem order4_congr (h : v.toSettings = w.toSettings) (value : UInt32) :
    v.order4 value = w.order4 value := by
  rw [order4, order4, h]

theorem writeDheader_settings (h : w.writeDheader.2.Extends body v) (hw : w.origin ≤ w.out.length) :
    v.origin = w.origin ∧ v.toSettings = w.toSettings := by
  have hpad := (moves_alignTo 2).extends hw
  exact ⟨h.origin.trans hpad.origin, h.settings.trans hpad.settings⟩

theorem Movable.delimited (hf : Movable f) : Movable fun w => w.writeDelimited f := by
  refine movable_bracket (dheaderOctets fun _ => none) writeDheader_phase
    (dheaderOctets_phase _) ?_ ?_ hf
  · intro w v body o hw hv ho
    obtain ⟨hout, hspan⟩ := writeDheader_body hv
    obtain ⟨horigin, hsettings⟩ := writeDheader_settings hv hw
    unfold dheaderOctets at ho
    split at ho
    · rename_i hfits
      obtain rfl := Option.some.inj ho
      refine ⟨_, ?_, extends_patched _ ((moves_alignTo 2).extends hw) horigin hsettings⟩
      show v.patchDheader _ (v.out.length - (w.alignTo 4).out.length - 4) = _
      rw [hspan, ← order4_congr hsettings]
      exact patchDheader_at hout rfl hfits
    · cases ho
  · intro w v body hw hv ho
    obtain ⟨hout, hspan⟩ := writeDheader_body hv
    unfold dheaderOctets at ho
    split at ho
    · cases ho
    · show ∃ e, v.patchDheader _ (v.out.length - (w.alignTo 4).out.length - 4) = .error e
      exact patchDheader_long (by omega)

theorem Movable.dheader (hf : Movable f) : Movable (withDheader f) := by
  refine movable_bracket (dheaderOctets fun body => some (List.replicate 4 0 ++ body))
    writeDheader_phase (dheaderOctets_phase _) ?_ ?_ hf
  · intro w v body o hw hv ho
    obtain ⟨hout, hspan⟩ := writeDheader_body hv
    obtain ⟨horigin, hsettings⟩ := writeDheader_settings hv hw
    have hpad := (moves_alignTo 2).extends hw
    unfold dheaderOctets at ho
    split at ho
    · rename_i hfits
      obtain rfl := Option.some.inj ho
      have hclose : v.finishDheader w.writeDheader.1 =
          { v with out := (w.alignTo 4).out ++
            (w.order4 (UInt32.ofNat body.length) ++ body) } := by
        rw [← order4_congr hsettings]
        simp [finishDheader, writeDheader, hspan, patchDheader_at hout rfl hfits]
      refine ⟨_, rfl, ?_⟩
      rw [hclose]
      exact extends_patched _ hpad horigin hsettings
    · obtain rfl := Option.some.inj ho
      obtain ⟨e, he⟩ : ∃ e, v.patchDheader ⟨(w.alignTo 4).out.length⟩ body.length = .error e :=
        patchDheader_long (by omega)
      refine ⟨_, rfl, ?_⟩
      have hclose : v.finishDheader w.writeDheader.1 = v.defer e := by
        simp [finishDheader, writeDheader, hspan, he]
      rw [hclose]
      exact extends_refilled hpad hout horigin hsettings
  · intro w v body _ _ ho
    unfold dheaderOctets at ho
    split at ho
    · cases ho
    · cases ho

theorem Movable.packedElement (hf : Movable f) : Movable (withPackedElement f) := by
  refine movable_bracket (fun _ body => some body) ?_ (fun _ _ _ _ => rfl) ?_ ?_ hf
  · intro w₁ w₂ h
    exact inPhase_of_origins h.settings rfl rfl
  · intro w v body o _ hv ho
    obtain rfl := Option.some.inj ho
    exact ⟨_, rfl, hv.out, rfl, hv.settings⟩
  · intro w v body _ _ ho
    cases ho

def emheaderStart (w : Writer) : Writer := (w.alignTo 4).alignTo 4

theorem moves_emheaderStart : Moves emheaderStart := (moves_alignTo 2).comp (moves_alignTo 2)

def nextIntHole (lengthCode : UInt8) : List UInt8 :=
  if lengthCode = 4 then List.replicate 4 0 else []

def openedEmheader (word : UInt32) (lengthCode : UInt8) (w : Writer) : Writer :=
  w.emheaderStart.extend (w.order4 word ++ nextIntHole lengthCode)

def emheaderHandle (lengthCode : UInt8) (w : Writer) : EmHeader :=
  ⟨w.emheaderStart.out.length,
    if lengthCode = 4 then some (w.emheaderStart.out.length + 4) else none, lengthCode⟩

theorem alignTo_settings (w : Writer) (align : Nat) : (w.alignTo align).toSettings = w.toSettings :=
  (alignTo_extends w align).settings

theorem writeEmheader_eq {memberId : UInt32} (hid : ¬ memberId > eMemberIdMask)
    (lengthCode : UInt8) (mustUnderstand : Bool) (w : Writer) :
    w.writeEmheader memberId lengthCode mustUnderstand =
      .ok (emheaderHandle lengthCode w,
        openedEmheader (emheaderWord memberId lengthCode mustUnderstand) lengthCode w) := by
  have hword : ((w.alignTo 4).alignTo 4).order4 (emheaderWord memberId lengthCode mustUnderstand) =
      w.order4 (emheaderWord memberId lengthCode mustUnderstand) :=
    order4_congr ((alignTo_settings _ _).trans (alignTo_settings _ _)) _
  have hlength : (w.emheaderStart.extend
      (w.order4 (emheaderWord memberId lengthCode mustUnderstand))).out.length =
      w.emheaderStart.out.length + 4 := by
    rw [extend, List.length_append]
    congr 1
    exact Endianness.length_order _ _ _
  simp only [writeEmheader, if_neg hid, writeU32, hword]
  simp only [show (w.alignTo 4).alignTo 4 = w.emheaderStart from rfl, hlength,
    Nat.add_sub_cancel, emheaderHandle, openedEmheader, nextIntHole]
  by_cases hcode : lengthCode = 4
  · simp only [if_pos hcode, extend, List.append_assoc]
  · simp only [if_neg hcode, List.append_nil]

def emheaderOctets (word : UInt32) (lengthCode : UInt8) (w : Writer) (body : List UInt8) :
    Option (List UInt8) :=
  if lengthCode = 4 then
    some (w.added w.emheaderStart ++ closedEmheader w.toSettings (w.order4 word) body)
  else if lengthCode ≤ 3 → body.length = 1 <<< lengthCode.toNat then
    some (w.added w.emheaderStart ++ (w.order4 word ++ body))
  else none

theorem emheaderOctets_phase (word : UInt32) (lengthCode : UInt8) (w₁ w₂ : Writer)
    (body : List UInt8) (h : InPhase w₁ w₂) :
    emheaderOctets word lengthCode w₁ body = emheaderOctets word lengthCode w₂ body := by
  unfold emheaderOctets
  rw [moves_emheaderStart.added_eq h, order4_congr h.settings, h.settings]

theorem openedEmheader_phase (word : UInt32) (lengthCode : UInt8) (w₁ w₂ : Writer)
    (h : InPhase w₁ w₂) :
    InPhase (openedEmheader word lengthCode w₁) (openedEmheader word lengthCode w₂) := by
  obtain ⟨pad, h₁, h₂⟩ := moves_emheaderStart h
  have hopened₂ := extend_extends w₂.emheaderStart (w₂.order4 word ++ nextIntHole lengthCode)
  rw [← order4_congr h.settings] at hopened₂
  have hphase := (h.extends h₁ h₂).extends (extend_extends w₁.emheaderStart
    (w₁.order4 word ++ nextIntHole lengthCode)) hopened₂
  unfold openedEmheader
  rw [← order4_congr h.settings]
  exact hphase

theorem openedEmheader_body {word : UInt32} {lengthCode : UInt8} (hw : w.origin ≤ w.out.length)
    (h : (openedEmheader word lengthCode w).Extends body v) :
    v.out = w.emheaderStart.out ++ (w.order4 word ++ (nextIntHole lengthCode ++ body)) ∧
      v.origin = w.origin ∧ v.toSettings = w.toSettings := by
  have hpad := moves_emheaderStart.extends hw
  refine ⟨?_, h.origin.trans hpad.origin, h.settings.trans hpad.settings⟩
  rw [h.out]
  simp [openedEmheader, extend]

theorem Movable.emheader (memberId : UInt32) (lengthCode : UInt8) (mustUnderstand : Bool)
    (hf : Movable f) : Movable (withEmheader memberId lengthCode mustUnderstand f) := by
  by_cases hid : memberId > eMemberIdMask
  · intro w₁ w₂ w₁' h hok
    simp only [withEmheader, writeEmheader, if_pos hid] at hok
    cases hok
  have hbracket : withEmheader memberId lengthCode mustUnderstand f = fun w =>
      (f (openedEmheader (emheaderWord memberId lengthCode mustUnderstand) lengthCode w)).bind
        fun v => v.finishEmheader (emheaderHandle lengthCode w) := by
    funext w
    rw [withEmheader, writeEmheader_eq hid]
    rfl
  rw [hbracket]
  refine movable_bracket
    (emheaderOctets (emheaderWord memberId lengthCode mustUnderstand) lengthCode)
    (openedEmheader_phase _ _) (emheaderOctets_phase _ _) ?_ ?_ hf
  · intro w v body o hw hv ho
    obtain ⟨hout, horigin, hsettings⟩ := openedEmheader_body hw hv
    have hpad := moves_emheaderStart.extends hw
    have hword := Endianness.length_order w.endianness 4
      (emheaderWord memberId lengthCode mustUnderstand).toNat
    unfold emheaderOctets at ho
    split at ho
    · rename_i hcode
      obtain rfl := Option.some.inj ho
      simp only [emheaderHandle, nextIntHole, if_pos hcode] at hout ⊢
      refine ⟨_, finishEmheader_next hout hword rfl, ?_⟩
      rw [hsettings]
      exact extends_refilled hpad rfl horigin rfl
    · rename_i hcode
      split at ho
      · rename_i hfits
        obtain rfl := Option.some.inj ho
        simp only [emheaderHandle, nextIntHole, if_neg hcode] at hout ⊢
        exact ⟨v, finishEmheader_code hout hword hfits,
          extends_refilled hpad hout horigin hsettings⟩
      · cases ho
  · intro w v body hw hv ho
    obtain ⟨hout, horigin, hsettings⟩ := openedEmheader_body hw hv
    have hword := Endianness.length_order w.endianness 4
      (emheaderWord memberId lengthCode mustUnderstand).toNat
    unfold emheaderOctets at ho
    split at ho
    · cases ho
    · rename_i hcode
      split at ho
      · cases ho
      · rename_i hfits
        simp only [emheaderHandle, nextIntHole, if_neg hcode] at hout ⊢
        exact finishEmheader_misfit hout hword hfits

def openedParameter (start : Writer → Writer) (hole : Settings → List UInt8) (w : Writer) :
    Writer :=
  ((start w).extend (hole w.toSettings)).beginParameterValue.2

def parameterOctets (start : Writer → Writer) (hole : Settings → List UInt8)
    (closed : Settings → List UInt8 → Nat → List UInt8) (w : Writer) (body : List UInt8) :
    List UInt8 :=
  let past := (w.offset + (w.added (start w) ++ (hole w.toSettings ++ body)).length) % 4
  let value := w.added (start w) ++ closed w.toSettings body past
  value ++ (w.extend value).added (settle (w.extend value))

variable {start : Writer → Writer}

theorem parameterOctets_phase (hstart : Moves start) (hole : Settings → List UInt8)
    (closed : Settings → List UInt8 → Nat → List UInt8) {w₁ w₂ : Writer} (body : List UInt8)
    (h : InPhase w₁ w₂) :
    parameterOctets start hole closed w₁ body = parameterOctets start hole closed w₂ body := by
  have hpast : ∀ n, (w₁.offset + n) % 4 = (w₂.offset + n) % 4 := fun n => h.word.add_right n
  have htail : ∀ value, (w₁.extend value).added (settle (w₁.extend value)) =
      (w₂.extend value).added (settle (w₂.extend value)) := fun value =>
    moves_settle.added_eq (h.extends (extend_extends w₁ value) (extend_extends w₂ value))
  unfold parameterOctets
  simp [hstart.added_eq h, h.settings, hpast, htail]

theorem movable_parameter (hstart : Moves start) (hole : Settings → List UInt8)
    (handle : Writer → Pid) (closed : Settings → List UInt8 → Nat → List UInt8)
    (hclose : ∀ (w v : Writer) (body : List UInt8),
      v.out = (start w).out ++ (hole w.toSettings ++ body) →
      v.toSettings = w.toSettings → v.finishPid (handle w) = settle { v with
        out := (start w).out ++ closed w.toSettings body ((v.out.length - w.origin) % 4)
        origin := w.origin }) (hf : Movable f) : Movable fun w =>
      (f (openedParameter start hole w)).bind fun v => .ok (v.finishPid (handle w)) := by
  refine movable_bracket (fun w body => some (parameterOctets start hole closed w body)) ?_
    (fun _ _ body h => congrArg some (parameterOctets_phase hstart hole closed body h)) ?_ ?_ hf
  · intro w₁ w₂ h
    obtain ⟨_, h₁, h₂⟩ := hstart h
    exact inPhase_of_origins (h₁.settings.trans (h.settings.trans h₂.settings.symm)) rfl rfl
  · intro w v body o hw hv ho
    obtain rfl := Option.some.inj ho
    have hpad := hstart.extends hw
    have hsettings : v.toSettings = w.toSettings := hv.settings.trans hpad.settings
    have hout : v.out = (start w).out ++ (hole w.toSettings ++ body) := by
      rw [hv.out]
      exact List.append_assoc _ _ _
    have hpast : v.out.length - w.origin =
        w.offset + (w.added (start w) ++ (hole w.toSettings ++ body)).length := by
      rw [hout, hpad.out, offset]
      simp only [List.length_append]
      omega
    refine ⟨_, rfl, ?_⟩
    rw [hclose w v body hout hsettings, hpast]
    -- The same octets behind `w` give the writer to settle, but for the deferred error.
    have hvalue := extends_refilled (v := { v with
      out := (start w).out ++ closed w.toSettings body
        ((w.offset + (w.added (start w) ++ (hole w.toSettings ++ body)).length) % 4)
      origin := w.origin }) hpad rfl rfl hsettings
    have hplain := extend_extends w (w.added (start w) ++ closed w.toSettings body
      ((w.offset + (w.added (start w) ++ (hole w.toSettings ++ body)).length) % 4))
    have hphase : InPhase w w := ⟨rfl, hw, hw, fun _ => rfl, rfl⟩
    have htail := moves_settle.added_eq (hphase.extends hvalue hplain)
    have hsettled := hvalue.trans (moves_settle.extends (hvalue.within hw))
    rw [htail] at hsettled
    exact hsettled
  · intro w v body _ _ ho
    cases ho

def pidStart (w : Writer) : Writer := (w.alignTo 4).alignTo 2

theorem moves_pidStart : Moves pidStart := (moves_alignTo 2).comp (moves_alignTo 1)

def shortIdOctets (pid : UInt16) (mustUnderstand : Bool) (s : Settings) : List UInt8 :=
  s.endianness.order 2 (s.plCdr1.shortId pid mustUnderstand).toNat

def keptId (framing : PlCdr1Framing) (pid : UInt16) (mustUnderstand : Bool) : UInt32 :=
  (framing.shortId pid mustUnderstand &&& ~~~(pidMustUnderstand ||| pidImplExtension)).toUInt32

def shortHandle (pid : UInt16) (role : ParameterRole) (mustUnderstand : Bool) (w : Writer) : Pid :=
  ⟨w.pidStart.out.length + 2, false, keptId w.plCdr1 pid mustUnderstand, mustUnderstand, role,
    w.origin⟩

theorem writePid_eq {pid : UInt16} (hid : ¬ pid > w.plCdr1.highestShortId) (role : ParameterRole)
    (mustUnderstand : Bool) :
    w.writePid pid role mustUnderstand = .ok (shortHandle pid role mustUnderstand w,
      openedParameter pidStart
        (fun s => shortIdOctets pid mustUnderstand s ++ List.replicate 2 0) w) := by
  have hpad := (alignTo_extends w 4).trans (alignTo_extends (w.alignTo 4) 2)
  have hframing : (w.alignTo 4).plCdr1 = w.plCdr1 := by rw [alignTo_settings]
  have hid' : ((w.alignTo 4).alignTo 2).order2 (w.plCdr1.shortId pid mustUnderstand) =
      shortIdOctets pid mustUnderstand w.toSettings := by
    rw [order2, hpad.settings]
    rfl
  have hlength : (shortIdOctets pid mustUnderstand w.toSettings).length = 2 :=
    Endianness.length_order _ _ _
  simp only [writePid, if_neg hid, hframing, writeU16, hid', openedParameter, shortHandle, keptId,
    pidStart, beginParameterValue, extend, List.length_append, hlength, List.append_assoc,
    hpad.origin]

theorem withPid_eq {pid : UInt16} (hid : ¬ pid > w.plCdr1.highestShortId) (role : ParameterRole)
    (mustUnderstand : Bool) :
    withPid pid role mustUnderstand f w = (f (openedParameter pidStart
      (fun s => shortIdOctets pid mustUnderstand s ++ List.replicate 2 0) w)).bind
        fun v => .ok (v.finishPid (shortHandle pid role mustUnderstand w)) := by
  rw [withPid, writePid_eq hid]
  rfl

theorem finishPid_shortHandle (pid : UInt16) (role : ParameterRole) (mustUnderstand : Bool)
    (hout : v.out = w.pidStart.out ++ ((shortIdOctets pid mustUnderstand w.toSettings ++
      List.replicate 2 0) ++ body)) (hsettings : v.toSettings = w.toSettings) :
    v.finishPid (shortHandle pid role mustUnderstand w) = settle { v with
      out := w.pidStart.out ++ closedPid role (keptId w.plCdr1 pid mustUnderstand) mustUnderstand
        (shortIdOctets pid mustUnderstand w.toSettings) w.toSettings body
        ((v.out.length - w.origin) % 4)
      origin := w.origin } := by
  rw [List.append_assoc] at hout
  rw [finishPid_short hout (Endianness.length_order _ _ _) rfl rfl rfl, hsettings]
  rfl

theorem Movable.pid (pid : UInt16) (role : ParameterRole) (mustUnderstand : Bool)
    (hf : Movable f) : Movable (withPid pid role mustUnderstand f) := by
  intro w₁ w₂ w₁' h hok
  by_cases hid : pid > w₁.plCdr1.highestShortId
  · simp only [withPid, writePid, if_pos hid] at hok
    cases hok
  have hid₂ : ¬ pid > w₂.plCdr1.highestShortId := by
    rw [← h.settings]
    exact hid
  rw [withPid_eq hid] at hok
  rw [withPid_eq hid₂]
  have hmovable := movable_parameter moves_pidStart
    (fun s => shortIdOctets pid mustUnderstand s ++ List.replicate 2 0)
    (shortHandle pid role mustUnderstand)
    (fun s => closedPid role (keptId s.plCdr1 pid mustUnderstand) mustUnderstand
      (shortIdOctets pid mustUnderstand s) s)
    (fun w v body hout hsettings => finishPid_shortHandle pid role mustUnderstand hout hsettings) hf
  exact hmovable h hok

def extendedStart (pid : UInt32) (mustUnderstand : Bool) (w : Writer) : Writer :=
  (((w.alignTo 4).writeU16 w.plCdr1.extendedMarker).writeU16 8).writeU32
    (w.plCdr1.memberHeader pid mustUnderstand)

theorem moves_extendedStart (pid : UInt32) (mustUnderstand : Bool) :
    Moves (extendedStart pid mustUnderstand) := by
  have hfixed : ∀ marker member, Moves fun w =>
      (((w.alignTo 4).writeU16 marker).writeU16 8).writeU32 member := by
    intro marker member
    have hmarker := (moves_alignTo 2).comp (moves_writeU16 marker)
    have hall := (hmarker.comp (moves_writeU16 8)).comp (moves_writeU32 member)
    exact hall
  have hchosen := moves_choose fun s =>
    hfixed s.plCdr1.extendedMarker (s.plCdr1.memberHeader pid mustUnderstand)
  exact hchosen

def extendedHandle (pid : UInt32) (role : ParameterRole) (mustUnderstand : Bool) (w : Writer) :
    Pid :=
  ⟨(extendedStart pid mustUnderstand w).out.length, true, pid, mustUnderstand, role, w.origin⟩

theorem writeU16_extends (w : Writer) (value : UInt16) :
    w.Extends (padding 2 w.maxAlign w.offset ++ w.order2 value) (w.writeU16 value) := by
  have hpad := alignTo_extends w 2
  have hword := extend_extends (w.alignTo 2) ((w.alignTo 2).order2 value)
  rw [show (w.alignTo 2).order2 value = w.order2 value by rw [order2, order2, hpad.settings]]
    at hword
  refine hpad.trans ?_
  rw [writeU16, show (w.alignTo 2).order2 value = w.order2 value by
    rw [order2, order2, hpad.settings]]
  exact hword

theorem writeU32_extends (w : Writer) (value : UInt32) :
    w.Extends (padding 4 w.maxAlign w.offset ++ w.order4 value) (w.writeU32 value) := by
  have hpad := alignTo_extends w 4
  have hword := extend_extends (w.alignTo 4) ((w.alignTo 4).order4 value)
  rw [order4_congr hpad.settings] at hword
  refine hpad.trans ?_
  rw [writeU32, order4_congr hpad.settings]
  exact hword

theorem writePidExtended_eq {pid : UInt32} (hid : ¬ pid > eMemberIdMask) (role : ParameterRole)
    (mustUnderstand : Bool) :
    w.writePidExtended pid role mustUnderstand = .ok (extendedHandle pid role mustUnderstand w,
      openedParameter (extendedStart pid mustUnderstand) (fun _ => List.replicate 4 0) w) := by
  have hpad := alignTo_extends w 4
  have hmarker := hpad.trans (writeU16_extends (w.alignTo 4) w.plCdr1.extendedMarker)
  have height := hmarker.trans (writeU16_extends _ 8)
  have hmember := height.trans (writeU32_extends _ (w.plCdr1.memberHeader pid mustUnderstand))
  simp only [writePidExtended, if_neg hid, hpad.settings, height.settings, openedParameter,
    extendedHandle, beginParameterValue, extendedStart, extend, hmember.origin]

theorem withPidExtended_eq {pid : UInt32} (hid : ¬ pid > eMemberIdMask) (role : ParameterRole)
    (mustUnderstand : Bool) :
    withPidExtended pid role mustUnderstand f w = (f (openedParameter
      (extendedStart pid mustUnderstand) (fun _ => List.replicate 4 0) w)).bind
        fun v => .ok (v.finishPid (extendedHandle pid role mustUnderstand w)) := by
  rw [withPidExtended, writePidExtended_eq hid]
  rfl

attribute [irreducible] extendedStart

def closedExtended (role : ParameterRole) (s : Settings) (body : List UInt8) (past : Nat) :
    List UInt8 :=
  s.endianness.order 4 (UInt32.ofNat (s.plCdr1.paddedLength role body.length past)).toNat ++ body

theorem finishPid_extendedHandle (pid : UInt32) (role : ParameterRole) (mustUnderstand : Bool)
    (hout : v.out = (extendedStart pid mustUnderstand w).out ++ (List.replicate 4 0 ++ body))
    (hsettings : v.toSettings = w.toSettings) :
    v.finishPid (extendedHandle pid role mustUnderstand w) = settle { v with
      out := (extendedStart pid mustUnderstand w).out ++
        closedExtended role w.toSettings body ((v.out.length - w.origin) % 4)
      origin := w.origin } := by
  have hplace : (extendedHandle pid role mustUnderstand w).place =
      (extendedStart pid mustUnderstand w).out.length := by rw [extendedHandle]
  rw [finishPid_extended hout List.length_replicate hplace (by rw [extendedHandle]), hsettings]
  simp [extendedHandle, closedExtended]

theorem Movable.pidExtended (pid : UInt32) (role : ParameterRole) (mustUnderstand : Bool)
    (hf : Movable f) : Movable (withPidExtended pid role mustUnderstand f) := by
  intro w₁ w₂ w₁' h hok
  by_cases hid : pid > eMemberIdMask
  · simp only [withPidExtended, writePidExtended, if_pos hid] at hok
    cases hok
  rw [withPidExtended_eq hid] at hok ⊢
  have hmovable := movable_parameter (moves_extendedStart pid mustUnderstand)
    (fun _ => List.replicate 4 0) (extendedHandle pid role mustUnderstand) (closedExtended role)
    (fun w v body hout hsettings =>
      finishPid_extendedHandle pid role mustUnderstand hout hsettings) hf
  exact hmovable h hok

end Movable

/-! ### Any nesting of calls -/

/-- The bodies that write calls make: one after another, one for each element of a collection,
and each header around what it frames. -/
inductive Nested : (Writer → Except WireError Writer) → Prop where
  | nothing : Nested .ok
  | andThen {f g : Writer → Except WireError Writer} :
    Nested f → Nested g → Nested fun w => (f w).bind g
  | align (k : Nat) : Nested fun w => .ok (w.alignTo (2 ^ k))
  | bytes (octets : List UInt8) : Nested fun w => .ok (w.extend octets)
  | u8 (value : UInt8) : Nested fun w => .ok (w.writeU8 value)
  | bool (value : Bool) : Nested fun w => .ok (w.writeBool value)
  | u16 (value : UInt16) : Nested fun w => .ok (w.writeU16 value)
  | u16Little (value : UInt16) : Nested fun w => .ok (w.writeU16Little value)
  | u16Big (value : UInt16) : Nested fun w => .ok (w.writeU16Big value)
  | u32 (value : UInt32) : Nested fun w => .ok (w.writeU32 value)
  | u32Little (value : UInt32) : Nested fun w => .ok (w.writeU32Little value)
  | u32Big (value : UInt32) : Nested fun w => .ok (w.writeU32Big value)
  | u64 (value : UInt64) : Nested fun w => .ok (w.writeU64 value)
  | f128 (bits : BitVec 128) : Nested fun w => .ok (w.writeF128 bits)
  | char (c : Char) : Nested fun w => w.writeChar c
  | wchar (c : Char) (position : WirePosition) : Nested fun w => w.writeWchar c position
  | bitmask (bitBound : UInt16) (bits : UInt64) : Nested fun w => w.writeBitmask bitBound bits
  | bitset (anchorBytes : UInt32) (bits : UInt64) : Nested fun w => w.writeBitset anchorBytes bits
  | fixed (text : List Char) (digits scale : Nat) (policy : FixedDigits) :
    Nested fun w => w.writeFixed text digits scale policy
  | string (value : String) : Nested fun w => .ok (w.writeString value)
  | stringBounded (value : String) (bound : Nat) : Nested fun w => w.writeStringBounded value bound
  | wstring (value : List Char) (policy : WstringLengthPolicy) (order : WstringUnitOrder)
    (position : WirePosition) : Nested fun w => w.writeWstring value policy order position
  | wstringBounded (value : List Char) (bound : Nat) (policy : WstringLengthPolicy)
    (order : WstringUnitOrder) (position : WirePosition) :
    Nested fun w => w.writeWstringBounded value bound policy order position
  | wstringUtf8 (value : String) (policy : WstringLengthPolicy) (position : WirePosition) :
    Nested fun w => w.writeWstringUtf8 value policy position
  | wstringUtf8Bounded (value : String) (bound : Nat) (policy : WstringLengthPolicy)
    (position : WirePosition) :
    Nested fun w => w.writeWstringUtf8Bounded value bound policy position
  | sentinel : Nested fun w => .ok w.writeSentinel
  | array {α : Type} (values : List α) {element : Writer → α → Except WireError Writer} :
    (∀ value ∈ values, Nested fun w => element w value) →
      Nested fun w => w.writeArray values element
  | sequence {α : Type} (values : List α) {element : Writer → α → Except WireError Writer} :
    (∀ value ∈ values, Nested fun w => element w value) →
      Nested fun w => w.writeSequence values element
  | sequenceBounded {α : Type} (values : List α) (bound : Nat)
    {element : Writer → α → Except WireError Writer} :
    (∀ value ∈ values, Nested fun w => element w value) →
      Nested fun w => w.writeSequenceBounded values bound element
  | map {κ α : Type} (entries : List (κ × α)) {key : Writer → κ → Except WireError Writer}
    {value : Writer → α → Except WireError Writer} :
    (∀ entry ∈ entries, Nested fun w => key w entry.1) →
    (∀ entry ∈ entries, Nested fun w => value w entry.2) →
      Nested fun w => w.writeMap entries key value
  | mapBounded {κ α : Type} (entries : List (κ × α)) (bound : Nat)
    {key : Writer → κ → Except WireError Writer} {value : Writer → α → Except WireError Writer} :
    (∀ entry ∈ entries, Nested fun w => key w entry.1) →
    (∀ entry ∈ entries, Nested fun w => value w entry.2) →
      Nested fun w => w.writeMapBounded entries bound key value
  | delimited {f : Writer → Except WireError Writer} :
    Nested f → Nested fun w => w.writeDelimited f
  | dheader {f : Writer → Except WireError Writer} : Nested f → Nested (withDheader f)
  | emheader (memberId : UInt32) (lengthCode : UInt8) (mustUnderstand : Bool)
    {f : Writer → Except WireError Writer} :
    Nested f → Nested (withEmheader memberId lengthCode mustUnderstand f)
  | pid (pid : UInt16) (role : ParameterRole) (mustUnderstand : Bool)
    {f : Writer → Except WireError Writer} :
    Nested f → Nested (withPid pid role mustUnderstand f)
  | pidExtended (pid : UInt32) (role : ParameterRole) (mustUnderstand : Bool)
    {f : Writer → Except WireError Writer} :
    Nested f → Nested (withPidExtended pid role mustUnderstand f)
  | packedElement {f : Writer → Except WireError Writer} :
    Nested f → Nested (withPackedElement f)

theorem movable_writeMap {κ α : Type} {entries : List (κ × α)}
    {key : Writer → κ → Except WireError Writer} {value : Writer → α → Except WireError Writer}
    (hkey : ∀ entry ∈ entries, Movable fun w => key w entry.1)
    (hvalue : ∀ entry ∈ entries, Movable fun w => value w entry.2) :
    Movable fun w => w.writeMap entries key value :=
  (moves_writeU32 _).movable.andThen
    (movable_foldlM fun entry hentry => (hkey entry hentry).andThen (hvalue entry hentry))

theorem Nested.movable (h : Nested f) : Movable f := by
  induction h with
  | nothing => exact Moves.movable fun w₁ w₂ _ => ⟨[], .refl w₁, .refl w₂⟩
  | andThen _ _ ihf ihg => exact ihf.andThen ihg
  | align k => exact (moves_alignTo k).movable
  | bytes octets => exact (moves_octets octets).movable
  | u8 value => exact (moves_octets _).movable
  | bool value => exact (moves_octets _).movable
  | u16 value => exact (moves_writeU16 value).movable
  | u16Little value => exact (moves_writeU16Little value).movable
  | u16Big value => exact (moves_writeU16Big value).movable
  | u32 value => exact (moves_writeU32 value).movable
  | u32Little value => exact (moves_writeU32Little value).movable
  | u32Big value => exact (moves_writeU32Big value).movable
  | u64 value => exact (moves_writeU64 value).movable
  | f128 bits => exact (moves_writeF128 bits).movable
  | char c => exact movable_writeChar c
  | wchar c position => exact movable_writeWchar c position
  | bitmask bitBound bits => exact movable_writeBitmask bitBound bits
  | bitset anchorBytes bits => exact movable_writeBitset anchorBytes bits
  | fixed text digits scale policy => exact movable_writeFixed text digits scale policy
  | string value => exact (moves_writeString value).movable
  | stringBounded value bound => exact movable_writeStringBounded value bound
  | wstring value policy order position =>
    exact movable_writeWstring value policy order position
  | wstringBounded value bound policy order position =>
    exact movable_writeWstringBounded value bound policy order position
  | wstringUtf8 value policy position => exact movable_writeWstringUtf8 value policy position
  | wstringUtf8Bounded value bound policy position =>
    exact (movable_refuse _).ite (movable_writeWstringUtf8 value policy position)
  | sentinel => exact moves_writeSentinel.movable
  | array values _ ih => exact movable_foldlM ih
  | sequence values _ ih => exact (moves_writeU32 _).movable.andThen (movable_foldlM ih)
  | sequenceBounded values bound _ ih =>
    exact (movable_refuse _).ite ((moves_writeU32 _).movable.andThen (movable_foldlM ih))
  | map entries _ _ ihkey ihvalue => exact movable_writeMap ihkey ihvalue
  | mapBounded entries bound _ _ ihkey ihvalue =>
    exact (movable_refuse _).ite (movable_writeMap ihkey ihvalue)
  | delimited _ ih => exact ih.delimited
  | dheader _ ih => exact ih.dheader
  | emheader memberId lengthCode mustUnderstand _ ih =>
    exact ih.emheader memberId lengthCode mustUnderstand
  | pid pid role mustUnderstand _ ih => exact ih.pid pid role mustUnderstand
  | pidExtended pid role mustUnderstand _ ih => exact ih.pidExtended pid role mustUnderstand
  | packedElement _ ih => exact ih.packedElement

end ZeroDds.Wire.Writer
