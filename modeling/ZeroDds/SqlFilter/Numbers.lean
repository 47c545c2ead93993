/-
The numbers of filter expressions.
-/
import ZeroDds.SqlFilter.Scanning

namespace ZeroDds.SqlFilter

variable {F : Type}

def isSign (c : Char) : Bool := c == '+' || c == '-'

variable {body sign digits : List Char} {negative : Bool} {c : Char}

theorem splitSign_none (h : StopsBefore isSign body) : splitSign body = (false, body) := by
  unfold splitSign
  split
  · exact absurd (stopsBefore_cons.mp h) (by decide)
  · exact absurd (stopsBefore_cons.mp h) (by decide)
  · rfl

theorem splitSign_sign (hsign : Sign sign negative) (hbody : sign = [] → StopsBefore isSign body) :
    splitSign (sign ++ body) = (negative, body) := by
  cases hsign with
  | none => exact splitSign_none (hbody rfl)
  | plus => rfl
  | minus => rfl

theorem exists_sign (input : List Char) :
    ∃ sign, Sign sign (splitSign input).1 ∧ input = sign ++ (splitSign input).2 ∧
      (sign = [] → StopsBefore isSign (splitSign input).2) := by
  unfold splitSign
  split
  · exact ⟨['-'], .minus, rfl, by simp⟩
  · exact ⟨['+'], .plus, rfl, by simp⟩
  · next hminus hplus =>
    refine ⟨[], .none, rfl, fun _ => ?_⟩
    cases input with
    | nil => exact stopsBefore_nil
    | cons c rest =>
      rw [stopsBefore_cons]
      have h1 : c ≠ '-' := by rintro rfl; exact hminus rest rfl
      have h2 : c ≠ '+' := by rintro rfl; exact hplus rest rfl
      simp [isSign, h1, h2]

theorem not_sign_of_digit (h : c.isDigit = true) : isSign c = false := by
  by_contra hsign
  rw [Bool.not_eq_false, isSign, Bool.or_eq_true, beq_iff_eq, beq_iff_eq] at hsign
  rcases hsign with rfl | rfl <;> exact absurd h (by decide)

theorem stopsBefore_digits {p : Char → Bool} (hp : ∀ c, c.isDigit = true → p c = false)
    (hdigits : ∀ c ∈ digits, c.isDigit = true) (hone : digits ≠ []) (rest : List Char) :
    StopsBefore p (digits ++ rest) := by
  cases digits with
  | nil => exact absurd rfl hone
  | cons d digits => exact stopsBefore_cons.mpr (hp d (hdigits d List.mem_cons_self))

theorem parseI64_digits (hsign : Sign sign negative) (hdigits : ∀ c ∈ digits, c.isDigit = true)
    (hone : digits ≠ []) :
    parseI64 (sign ++ digits) = toI64 (signed negative (decimal digits)) := by
  have hstop : StopsBefore isSign digits := by
    have h := stopsBefore_digits (fun c => not_sign_of_digit) hdigits hone []
    rwa [List.append_nil] at h
  have hall : digits.all Char.isDigit = true := List.all_eq_true.mpr hdigits
  simp only [parseI64, splitSign_sign hsign fun _ => hstop, if_pos (And.intro hone hall)]

theorem take_sign : (sign ++ body).take ((sign ++ body).length - body.length) = sign := by
  rw [List.length_append, Nat.add_sub_cancel, List.take_left]

/-! ### The run of a decimal number -/

def DecimalRun.prepend (run : List Char) (read : DecimalRun) : DecimalRun :=
  { read with run := run ++ read.run }

variable {sawDot sawExp : Bool}

theorem scanDecimal_digits (hdigits : ∀ c ∈ digits, c.isDigit = true) (left : List Char) :
    scanDecimal sawDot sawExp (digits ++ left) =
      (scanDecimal sawDot sawExp left).prepend digits := by
  induction digits with
  | nil => rfl
  | cons d digits ih =>
    rw [List.cons_append, scanDecimal.eq_def]
    simp only [if_pos (hdigits d List.mem_cons_self)]
    rw [ih fun c hc => hdigits c (List.mem_cons_of_mem _ hc)]
    rfl

def continuesRun (sawDot sawExp : Bool) (c : Char) : Bool :=
  c.isDigit || (c == '.' && !sawDot && !sawExp) || ((c == 'e' || c == 'E') && !sawExp)

variable {left : List Char} {e : Char}

theorem scanDecimal_stop (h : StopsBefore (continuesRun sawDot sawExp) left) :
    scanDecimal sawDot sawExp left = ⟨[], left, sawDot || sawExp⟩ := by
  cases left with
  | nil => rfl
  | cons c left =>
    have hc := stopsBefore_cons.mp h
    simp only [continuesRun, Bool.or_eq_false_iff, Bool.and_eq_false_iff, Bool.not_eq_false',
      beq_eq_false_iff_ne] at hc
    obtain ⟨⟨hdigit, hdot⟩, hexp⟩ := hc
    rw [scanDecimal.eq_def]
    simp only
    rw [if_neg (by rw [hdigit]; decide), if_neg, if_neg]
    · rintro ⟨hletter, hsaw⟩
      rw [hsaw] at hexp
      simp only [Bool.false_eq_true, or_false] at hexp
      rcases hletter with rfl | rfl
      · exact hexp.1 rfl
      · exact hexp.2 rfl
    · rintro ⟨rfl, hsaw, hsaw'⟩
      rw [hsaw, hsaw'] at hdot
      simp at hdot

theorem scanDecimal_point (left : List Char) :
    scanDecimal false false ('.' :: left) = (scanDecimal true false left).prepend ['.'] := by
  rw [scanDecimal.eq_def]
  rfl

theorem scanDecimal_power (he : e = 'e' ∨ e = 'E') (hsign : Sign sign negative)
    (hleft : sign = [] → StopsBefore isSign left) :
    scanDecimal sawDot false (e :: (sign ++ left)) =
      (scanDecimal sawDot true left).prepend (e :: sign) := by
  have hdigit : e.isDigit = false := by rcases he with rfl | rfl <;> rfl
  have hdot : e ≠ '.' := by rcases he with rfl | rfl <;> decide
  rw [scanDecimal.eq_def]
  simp only [hdigit, Bool.false_eq_true, if_false, hdot, false_and, he, and_self, if_true]
  cases hsign with
  | plus => rfl
  | minus => rfl
  | none =>
    cases left with
    | nil => simp [scanDecimal, DecimalRun.prepend]
    | cons c left =>
      have hc := stopsBefore_cons.mp (hleft rfl)
      simp only [isSign, Bool.or_eq_false_iff, beq_eq_false_iff_ne] at hc
      show (if c = '+' ∨ c = '-' then _ else _) = _
      rw [if_neg (not_or.mpr hc)]
      rfl

theorem isExponent_power (he : e = 'e' ∨ e = 'E') (hsign : Sign sign negative)
    (hdigits : ∀ c ∈ digits, c.isDigit = true) :
    isExponent (e :: (sign ++ digits)) = true ↔ digits ≠ [] := by
  have hletter : (e == 'e' || e == 'E') = true := by rcases he with rfl | rfl <;> rfl
  have hstop : StopsBefore isSign digits := by
    cases digits with
    | nil => exact stopsBefore_nil
    | cons d digits =>
      exact stopsBefore_cons.mpr (not_sign_of_digit (hdigits d List.mem_cons_self))
  simp only [isExponent, hletter, splitSign_sign hsign fun _ => hstop,
    List.all_eq_true.mpr hdigits, Bool.true_and, Bool.and_true, Bool.not_eq_true',
    List.isEmpty_eq_false_iff]

def StartsPower (exponent : List Char) : Prop :=
  StopsBefore (fun c => c.isDigit || c == '.') exponent

variable {whole fraction : List Char}

theorem isPlainNumber_eq {exponent : List Char} (hwhole : ∀ c ∈ whole, c.isDigit = true)
    (hone : whole ≠ []) (hfraction : Fraction fraction) (hexponent : StartsPower exponent) :
    isPlainNumber (whole ++ (fraction ++ exponent)) = isExponent exponent := by
  have hdigit : StopsBefore Char.isDigit exponent := fun c hc =>
    (Bool.or_eq_false_iff.mp (hexponent c hc)).1
  have hempty : whole.isEmpty = false := List.isEmpty_eq_false_iff.mpr hone
  unfold isPlainNumber
  cases hfraction with
  | none =>
    simp only [List.nil_append, takeWhile_span hwhole hdigit, dropWhile_span hwhole hdigit]
    split
    · exact absurd (stopsBefore_cons.mp hexponent) (by decide)
    · rw [hempty]
      rfl
  | @point digits hdigits =>
    have hpoint : StopsBefore Char.isDigit ('.' :: digits ++ exponent) := stopsBefore_cons.mpr rfl
    simp only [takeWhile_span hwhole hpoint, dropWhile_span hwhole hpoint]
    show ((!whole.isEmpty || _) && isExponent ((digits ++ exponent).dropWhile Char.isDigit)) = _
    rw [dropWhile_span hdigits hdigit, hempty]
    rfl

theorem toLower_digit (h : c.isDigit = true) : c.toLower = c := by
  unfold Char.isDigit at h
  simp only [Bool.and_eq_true, decide_eq_true_eq] at h
  unfold Char.toLower
  split
  · next hupper => exact absurd (UInt32.le_trans hupper.1 h.2) (by decide)
  · rfl

theorem isFloatText_eq {exponent : List Char} (hsign : Sign sign negative)
    (hwhole : ∀ c ∈ whole, c.isDigit = true) (hone : whole ≠ []) (hfraction : Fraction fraction)
    (hexponent : StartsPower exponent) :
    isFloatText (sign ++ (whole ++ (fraction ++ exponent))) = isExponent exponent := by
  have hstop := stopsBefore_digits (fun c => not_sign_of_digit) hwhole hone (fraction ++ exponent)
  unfold isFloatText
  simp only [splitSign_sign hsign fun _ => hstop,
    isPlainNumber_eq hwhole hone hfraction hexponent]
  -- a number is no word: its first character is a digit
  cases whole with
  | nil => exact absurd rfl hone
  | cons d whole =>
    have hd := hwhole d List.mem_cons_self
    have hi : d ≠ 'i' := by rintro rfl; exact absurd hd (by decide)
    have hn : d ≠ 'n' := by rintro rfl; exact absurd hd (by decide)
    simp [toLower_digit hd, hi, hn]

/-! ### The scanner of numbers -/

section Number

variable [Doubles F] {sign body rest : List Char} {negative : Bool} {tok : Token F}

def decimalToken (sign : List Char) (read : DecimalRun) : Except LexError (Token F × List Char) :=
  if read.isFloat then
    match parseF64 (sign ++ read.run) with
    | none => .error (.notAFloat (sign ++ read.run))
    | some f => .ok (.floatLit f, read.rest)
  else
    match parseI64 (sign ++ read.run) with
    | none => .error (.notAnInteger (sign ++ read.run))
    | some n => .ok (.intLit n, read.rest)

def NotHex (body : List Char) : Prop :=
  ∀ behind, body ≠ '0' :: 'x' :: behind ∧ body ≠ '0' :: 'X' :: behind

theorem scanNumber_decimal (hsign : Sign sign negative)
    (hbody : sign = [] → StopsBefore isSign body) (hhex : NotHex body) :
    scanNumber (sign ++ body) = decimalToken (F := F) sign (scanDecimal false false body) := by
  unfold scanNumber
  simp only [splitSign_sign hsign hbody]
  split
  · exact absurd rfl (hhex _).1
  · exact absurd rfl (hhex _).2
  · rw [take_sign]
    rfl

theorem scanNumber_hex (hsign : Sign sign negative) {x : Char} (hx : x = 'x' ∨ x = 'X')
    (behind : List Char) :
    scanNumber (F := F) (sign ++ '0' :: x :: behind) =
      scanHex (sign ++ '0' :: x :: behind) negative behind := by
  have hstop : StopsBefore isSign ('0' :: x :: behind) := stopsBefore_cons.mpr rfl
  unfold scanNumber
  simp only [splitSign_sign hsign fun _ => hstop]
  rcases hx with rfl | rfl <;> rfl

theorem isAlphanum_of_hex (h : isHexDigit c = true) : c.isAlphanum = true := by
  simp only [isHexDigit, Bool.or_eq_true, Bool.and_eq_true, decide_eq_true_eq] at h
  simp only [Char.isAlphanum, Char.isAlpha, Bool.or_eq_true]
  rcases h with (hdigit | ⟨ha, hf⟩) | ⟨ha, hf⟩
  · exact .inr hdigit
  · refine .inl (.inr ?_)
    have hz : c.val ≤ 'z'.val := UInt32.le_trans hf (by decide)
    simp only [Char.isLower, ge_iff_le, Bool.and_eq_true, decide_eq_true_eq]
    exact ⟨ha, hz⟩
  · refine .inl (.inl ?_)
    have hz : c.val ≤ 'Z'.val := UInt32.le_trans hf (by decide)
    simp only [Char.isUpper, ge_iff_le, decide_eq_true_eq]
    exact ⟨ha, hz⟩

variable {input : List Char}

omit [Doubles F] in
theorem scanHex_ok {behind : List Char} :
    scanHex input negative behind = .ok (tok, rest) ↔ ∃ digits n,
      (∀ c ∈ digits, isHexDigit c = true) ∧ digits ≠ [] ∧
      toI64 (signed negative (hexadecimal digits)) = some n ∧
      StopsBefore (fun c => c.isAlphanum || c == '_') rest ∧ tok = .intLit n ∧
      behind = digits ++ rest := by
  constructor
  · intro h
    unfold scanHex at h
    simp only at h
    split at h
    · cases h
    · next hone =>
      split at h
      · cases h
      · next hnext =>
        rw [Bool.not_eq_true, head?_any_eq_false] at hnext
        split at h
        · cases h
        · next n hn =>
          cases h
          obtain ⟨hbehind, hrun, _⟩ := span_iff.mp
            (⟨rfl, rfl⟩ : behind.takeWhile isHexDigit = _ ∧ behind.dropWhile isHexDigit = _)
          exact ⟨_, n, hrun, hone, hn, hnext, rfl, hbehind⟩
  · rintro ⟨digits, n, hdigits, hone, hn, hnext, rfl, rfl⟩
    have hstop : StopsBefore isHexDigit rest :=
      hnext.mono fun c hc => by rw [isAlphanum_of_hex hc]; rfl
    unfold scanHex
    simp only [takeWhile_span hdigits hstop, dropWhile_span hdigits hstop, if_neg hone]
    rw [if_neg, hn]
    rw [Bool.not_eq_true, head?_any_eq_false]
    exact hnext

inductive PowerRun : List Char → Prop where
  | none : PowerRun []
  | power {e : Char} {sign digits : List Char} {negative : Bool} (he : e = 'e' ∨ e = 'E')
      (hsign : Sign sign negative) (h : ∀ c ∈ digits, c.isDigit = true) :
      PowerRun (e :: (sign ++ digits))

theorem PowerRun.startsPower {exponent : List Char} (h : PowerRun exponent) :
    StartsPower exponent := by
  cases h with
  | none => exact stopsBefore_nil
  | power he hsign hdigits =>
    refine stopsBefore_cons.mpr ?_
    rcases he with rfl | rfl <;> rfl

theorem PowerRun.exponent {exponent : List Char} (h : PowerRun exponent)
    (hexponent : isExponent exponent = true) : Exponent exponent := by
  cases h with
  | none => exact .none
  | power he hsign hdigits =>
    exact .power he hsign hdigits ((isExponent_power he hsign hdigits).mp hexponent)

variable {left whole fraction : List Char} {d : Char} {rules : FieldRules}

theorem scanDecimal_end (sawDot : Bool)
    (hleft : StopsBefore (fun c => c.isDigit || (c == '.' && !sawDot)) left) :
    ∃ exponent rest, PowerRun exponent ∧
      StopsBefore (continuesRun sawDot (!exponent.isEmpty)) rest ∧ left = exponent ++ rest ∧
      scanDecimal sawDot false left = ⟨exponent, rest, sawDot || !exponent.isEmpty⟩ := by
  by_cases hstop : StopsBefore (continuesRun sawDot false) left
  · exact ⟨[], left, .none, hstop, rfl, scanDecimal_stop hstop⟩
  · cases left with
    | nil => exact absurd stopsBefore_nil hstop
    | cons e left =>
      have hhead := stopsBefore_cons.mp hleft
      rw [stopsBefore_cons, Bool.not_eq_false, continuesRun, Bool.not_false, Bool.and_true,
        Bool.and_true, hhead, Bool.false_or, Bool.or_eq_true, beq_iff_eq, beq_iff_eq] at hstop
      obtain ⟨sign, hsign, hinput, hnone⟩ := exists_sign left
      obtain ⟨after, hafter⟩ : ∃ after, (splitSign left).2 = after := ⟨_, rfl⟩
      rw [hafter] at hinput hnone
      obtain ⟨digits, htake⟩ : ∃ digits, after.takeWhile Char.isDigit = digits := ⟨_, rfl⟩
      obtain ⟨rest, hdrop⟩ : ∃ rest, after.dropWhile Char.isDigit = rest := ⟨_, rfl⟩
      obtain ⟨rfl, hdigits, hrest⟩ := span_iff.mp ⟨htake, hdrop⟩
      have hends : StopsBefore (continuesRun sawDot true) rest :=
        hrest.mono fun c hc => by simpa [continuesRun] using hc
      refine ⟨e :: (sign ++ digits), rest, .power hstop hsign hdigits, hends, ?_, ?_⟩
      · rw [hinput]
        simp
      · rw [hinput, scanDecimal_power hstop hsign hnone, scanDecimal_digits hdigits,
          scanDecimal_stop hends]
        simp [DecimalRun.prepend]

theorem continuesNumber_eq (fraction exponent : List Char) :
    continuesNumber fraction exponent = continuesRun (!fraction.isEmpty) (!exponent.isEmpty) := by
  funext c
  simp [continuesNumber, continuesRun]

theorem scanDecimal_exponent {exponent : List Char} (hexponent : Exponent exponent)
    (hnext : StopsBefore (continuesRun sawDot (!exponent.isEmpty)) rest) :
    scanDecimal sawDot false (exponent ++ rest) =
      ⟨exponent, rest, sawDot || !exponent.isEmpty⟩ := by
  cases hexponent with
  | none => exact scanDecimal_stop hnext
  | @power e sign digits negative he hsign hdigits hone =>
    have hstop := stopsBefore_digits (fun c => not_sign_of_digit) hdigits hone rest
    have hnext : StopsBefore (continuesRun sawDot true) rest := hnext
    rw [List.cons_append, List.append_assoc, scanDecimal_power he hsign fun _ => hstop,
      scanDecimal_digits hdigits, scanDecimal_stop hnext]
    simp [DecimalRun.prepend]

theorem scanDecimal_number {exponent : List Char} (hwhole : ∀ c ∈ whole, c.isDigit = true)
    (hfraction : Fraction fraction) (hexponent : Exponent exponent)
    (hnext : StopsBefore (continuesNumber fraction exponent) rest) :
    scanDecimal false false (whole ++ (fraction ++ exponent) ++ rest) =
      ⟨whole ++ (fraction ++ exponent), rest, !fraction.isEmpty || !exponent.isEmpty⟩ := by
  rw [continuesNumber_eq] at hnext
  rw [List.append_assoc, scanDecimal_digits hwhole]
  cases hfraction with
  | none =>
    have hnext : StopsBefore (continuesRun false (!exponent.isEmpty)) rest := hnext
    rw [List.nil_append, scanDecimal_exponent hexponent hnext]
    rfl
  | @point digits hdigits =>
    have hnext : StopsBefore (continuesRun true (!exponent.isEmpty)) rest := hnext
    rw [List.cons_append, List.cons_append, scanDecimal_point, List.append_assoc,
      scanDecimal_digits hdigits, scanDecimal_exponent hexponent hnext]
    simp [DecimalRun.prepend]

theorem decimalToken_float {exponent : List Char} (hsign : Sign sign negative)
    (hwhole : ∀ c ∈ whole, c.isDigit = true) (hone : whole ≠ []) (hfraction : Fraction fraction)
    (hexponent : StartsPower exponent) :
    decimalToken sign ⟨whole ++ (fraction ++ exponent), rest, true⟩ = .ok (tok, left) ↔
      isExponent exponent = true ∧
        tok = .floatLit (Doubles.ofText (sign ++ (whole ++ (fraction ++ exponent)))) ∧
        left = rest := by
  unfold decimalToken
  rw [if_pos rfl, parseF64, isFloatText_eq hsign hwhole hone hfraction hexponent]
  cases isExponent exponent with
  | false => simp
  | true => simp [eq_comm]

theorem Exponent.powerRun {exponent : List Char} (h : Exponent exponent) : PowerRun exponent := by
  cases h with
  | none => exact .none
  | power he hsign hdigits hone => exact .power he hsign hdigits

theorem Exponent.isExponent {exponent : List Char} (h : Exponent exponent) :
    isExponent exponent = true := by
  cases h with
  | none => rfl
  | power he hsign hdigits hone => exact (isExponent_power he hsign hdigits).mpr hone

theorem startsNumber_body (h : startsNumber input = true) :
    ∃ d left, (splitSign input).2 = d :: left ∧ d.isDigit = true := by
  cases input with
  | nil => cases h
  | cons c input =>
    simp only [startsNumber, Bool.or_eq_true, Bool.and_eq_true, beq_iff_eq] at h
    rcases h with hdigit | ⟨hsign, hnext⟩
    · have hstop : StopsBefore isSign (c :: input) :=
        stopsBefore_cons.mpr (not_sign_of_digit hdigit)
      exact ⟨c, input, by rw [splitSign_none hstop], hdigit⟩
    · cases input with
      | nil => cases hnext
      | cons d left =>
        refine ⟨d, left, ?_, hnext⟩
        rcases hsign with rfl | rfl <;> rfl

theorem scanDecimal_parts (hd : d.isDigit = true) (left : List Char) :
    ∃ whole fraction exponent rest, (∀ c ∈ whole, c.isDigit = true) ∧ whole ≠ [] ∧
      Fraction fraction ∧ PowerRun exponent ∧
      StopsBefore (continuesNumber fraction exponent) rest ∧
      d :: left = whole ++ (fraction ++ exponent) ++ rest ∧
      scanDecimal false false (d :: left) =
        ⟨whole ++ (fraction ++ exponent), rest, !fraction.isEmpty || !exponent.isEmpty⟩ := by
  obtain ⟨whole, htake⟩ : ∃ whole, (d :: left).takeWhile Char.isDigit = whole := ⟨_, rfl⟩
  obtain ⟨behind, hdrop⟩ : ∃ behind, (d :: left).dropWhile Char.isDigit = behind := ⟨_, rfl⟩
  obtain ⟨hbody, hwhole, hbehind⟩ := span_iff.mp ⟨htake, hdrop⟩
  have hone : whole ≠ [] := by
    rw [← htake, List.takeWhile_cons_of_pos hd]
    simp
  rw [hbody]
  by_cases hpoint : ∃ after, behind = '.' :: after
  · obtain ⟨after, rfl⟩ := hpoint
    obtain ⟨digits, htake⟩ : ∃ digits, after.takeWhile Char.isDigit = digits := ⟨_, rfl⟩
    obtain ⟨last, hdrop⟩ : ∃ last, after.dropWhile Char.isDigit = last := ⟨_, rfl⟩
    obtain ⟨rfl, hdigits, hlast⟩ := span_iff.mp ⟨htake, hdrop⟩
    obtain ⟨exponent, rest, hpower, hnext, rfl, hscan⟩ := scanDecimal_end true
      (hlast.mono fun c hc => by simpa using hc)
    refine ⟨whole, '.' :: digits, exponent, rest, hwhole, hone, .point hdigits, hpower, ?_,
      by simp, ?_⟩
    · rw [continuesNumber_eq]
      exact hnext
    · rw [scanDecimal_digits hwhole, scanDecimal_point, scanDecimal_digits hdigits, hscan]
      simp [DecimalRun.prepend]
  · have hstop : StopsBefore (fun c => c.isDigit || (c == '.' && !false)) behind := by
      intro c hc
      show (c.isDigit || (c == '.' && !false)) = false
      rw [hbehind c hc, Bool.false_or, Bool.not_false, Bool.and_true, beq_eq_false_iff_ne]
      rintro rfl
      cases behind with
      | nil => cases hc
      | cons b after =>
        cases hc
        exact hpoint ⟨after, rfl⟩
    obtain ⟨exponent, rest, hpower, hnext, rfl, hscan⟩ := scanDecimal_end false hstop
    refine ⟨whole, [], exponent, rest, hwhole, hone, .none, hpower, ?_, by simp, ?_⟩
    · rw [continuesNumber_eq]
      exact hnext
    · rw [scanDecimal_digits hwhole, hscan]
      simp [DecimalRun.prepend]

theorem decimal_sound (hsign : Sign sign negative) (hd : d.isDigit = true)
    (hhex : NotHex (d :: left))
    (h : decimalToken sign (scanDecimal false false (d :: left)) = .ok (tok, rest)) :
    ∃ text, Lexeme rules text tok rest ∧ sign ++ d :: left = text ++ rest := by
  obtain ⟨whole, fraction, exponent, behind, hwhole, hone, hfraction, hpower, hnext, hbody,
    hscan⟩ := scanDecimal_parts hd left
  rw [hscan] at h
  rw [hbody] at hhex ⊢
  by_cases hfloat : fraction = [] ∧ exponent = []
  · obtain ⟨rfl, rfl⟩ := hfloat
    have h : decimalToken sign ⟨whole, behind, false⟩ = .ok (tok, rest) := by simpa using h
    rw [decimalToken, if_neg Bool.false_ne_true, parseI64_digits hsign hwhole hone] at h
    cases hn : toI64 (signed negative (decimal whole)) with
    | none =>
      rw [hn] at h
      cases h
    | some n =>
      rw [hn] at h
      cases h
      refine ⟨sign ++ whole, .integer hsign hwhole hone hn hnext ?_, by simp⟩
      rintro rfl
      cases behind with
      | nil => exact stopsBefore_nil
      | cons x behind =>
        rw [stopsBefore_cons]
        have h1 : x ≠ 'x' := by rintro rfl; exact (hhex behind).1 rfl
        have h2 : x ≠ 'X' := by rintro rfl; exact (hhex behind).2 rfl
        simp [h1, h2]
  · have hflag : (!fraction.isEmpty || !exponent.isEmpty) = true := by
      rw [Bool.or_eq_true, Bool.not_eq_true', Bool.not_eq_true', List.isEmpty_eq_false_iff,
        List.isEmpty_eq_false_iff]
      exact not_and_or.mp hfloat
    rw [hflag] at h
    obtain ⟨hexponent, rfl, rfl⟩ :=
      (decimalToken_float hsign hwhole hone hfraction hpower.startsPower).mp h
    exact ⟨_, .float hsign hwhole hone hfraction (hpower.exponent hexponent) hfloat hnext, by simp⟩

theorem scanNumber_sound (hstart : startsNumber input = true)
    (h : scanNumber input = .ok (tok, rest)) :
    ∃ text, Lexeme rules text tok rest ∧ input = text ++ rest := by
  obtain ⟨d, left, hbody, hd⟩ := startsNumber_body hstart
  obtain ⟨sign, hsign, hinput, hnone⟩ := exists_sign input
  rw [hbody] at hinput hnone
  subst hinput
  by_cases hhex : NotHex (d :: left)
  · rw [scanNumber_decimal hsign hnone hhex] at h
    exact decimal_sound hsign hd hhex h
  · obtain ⟨x, behind, hx, hbody⟩ : ∃ x behind, (x = 'x' ∨ x = 'X') ∧
        d :: left = '0' :: x :: behind := by
      simp only [NotHex, not_forall, not_and_or, not_not] at hhex
      obtain ⟨behind, hlower | hupper⟩ := hhex
      · exact ⟨'x', behind, .inl rfl, hlower⟩
      · exact ⟨'X', behind, .inr rfl, hupper⟩
    rw [hbody] at h ⊢
    rw [scanNumber_hex hsign hx] at h
    obtain ⟨digits, n, hdigits, hone, hn, hnext, rfl, rfl⟩ := scanHex_ok.mp h
    exact ⟨_, .hex hsign hx hdigits hone hn hnext, by simp⟩

theorem startsNumber_sign (hsign : Sign sign negative) (hd : d.isDigit = true) (left : List Char) :
    startsNumber (sign ++ d :: left) = true := by
  cases hsign with
  | none => simp [startsNumber, hd]
  | plus => simp [startsNumber, hd]
  | minus => simp [startsNumber, hd]

variable {digits : List Char}

theorem notHex_digits {after : List Char} (hdigits : ∀ c ∈ digits, c.isDigit = true)
    (hone : digits ≠ [])
    (hafter : digits = ['0'] → StopsBefore (fun c => c == 'x' || c == 'X') after) :
    NotHex (digits ++ after) := by
  have hx : ∀ x behind, (x = 'x' ∨ x = 'X') → digits ++ after ≠ '0' :: x :: behind := by
    intro x behind hx heq
    match digits, hone with
    | [d], _ =>
      obtain ⟨rfl, rfl⟩ := List.cons.inj heq
      have hstop := stopsBefore_cons.mp (hafter rfl)
      rcases hx with rfl | rfl <;> exact absurd hstop (by decide)
    | d :: d' :: digits, _ =>
      have hd' := hdigits d' (by simp)
      obtain ⟨_, hrest⟩ := List.cons.inj heq
      obtain ⟨rfl, _⟩ := List.cons.inj hrest
      rcases hx with rfl | rfl <;> exact absurd hd' (by decide)
  intro behind
  exact ⟨hx 'x' behind (.inl rfl), hx 'X' behind (.inr rfl)⟩

theorem scanNumber_integer {n : Int} (hsign : Sign sign negative)
    (hdigits : ∀ c ∈ digits, c.isDigit = true) (hone : digits ≠ [])
    (hrange : toI64 (signed negative (decimal digits)) = some n)
    (hnext : StopsBefore (continuesNumber [] []) rest)
    (hhex : digits = ['0'] → StopsBefore (fun c => c == 'x' || c == 'X') rest) :
    scanNumber (F := F) (sign ++ digits ++ rest) = .ok (.intLit n, rest) := by
  have hstop := stopsBefore_digits (fun c => not_sign_of_digit) hdigits hone rest
  have hscan := scanDecimal_number hdigits .none .none hnext
  simp only [List.append_nil] at hscan
  rw [List.append_assoc, scanNumber_decimal hsign (fun _ => hstop)
    (notHex_digits hdigits hone hhex), hscan]
  show decimalToken sign ⟨digits, rest, false⟩ = _
  rw [decimalToken, if_neg Bool.false_ne_true, parseI64_digits hsign hdigits hone, hrange]

theorem scanNumber_float {exponent : List Char} (hsign : Sign sign negative)
    (hwhole : ∀ c ∈ whole, c.isDigit = true) (hone : whole ≠ []) (hfraction : Fraction fraction)
    (hexponent : Exponent exponent) (hfloat : ¬ (fraction = [] ∧ exponent = []))
    (hnext : StopsBefore (continuesNumber fraction exponent) rest) :
    scanNumber (F := F) (sign ++ (whole ++ (fraction ++ exponent)) ++ rest) =
      .ok (.floatLit (Doubles.ofText (sign ++ (whole ++ (fraction ++ exponent)))), rest) := by
  have hstop := stopsBefore_digits (fun c => not_sign_of_digit) hwhole hone
    (fraction ++ exponent ++ rest)
  have hafter : StopsBefore (fun c => c == 'x' || c == 'X') (fraction ++ exponent ++ rest) := by
    cases hfraction with
    | point _ => exact stopsBefore_cons.mpr rfl
    | none =>
      cases hexponent with
      | none => exact absurd ⟨rfl, rfl⟩ hfloat
      | power he _ _ _ =>
        refine stopsBefore_cons.mpr ?_
        rcases he with rfl | rfl <;> rfl
  have hflag : (!fraction.isEmpty || !exponent.isEmpty) = true := by
    rw [Bool.or_eq_true, Bool.not_eq_true', Bool.not_eq_true', List.isEmpty_eq_false_iff,
      List.isEmpty_eq_false_iff]
    exact not_and_or.mp hfloat
  have hscan := scanDecimal_number hwhole hfraction hexponent hnext
  rw [hflag] at hscan
  rw [List.append_assoc, scanNumber_decimal hsign, hscan]
  · exact (decimalToken_float hsign hwhole hone hfraction hexponent.powerRun.startsPower).mpr
      ⟨hexponent.isExponent, rfl, rfl⟩
  · intro _
    rwa [List.append_assoc]
  · rw [List.append_assoc]
    exact notHex_digits hwhole hone fun _ => hafter

end Number

end ZeroDds.SqlFilter
