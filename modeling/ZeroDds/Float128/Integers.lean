/-
Binary128 values as integers.
-/
import ZeroDds.Float128.Format

namespace ZeroDds.Float128

structure Inexact (α : Type) where
  rounded : α
  source : Float128
  deriving DecidableEq

def i128Min : Int := -2 ^ 127

def i128Max : Int := 2 ^ 127 - 1

def i64Min : Int := -2 ^ 63

def i64Max : Int := 2 ^ 63 - 1

/-- A `u128` read as an `i128`. -/
def asI128 (n : Nat) : Int := if n < 2 ^ 127 then n else (n : Int) - 2 ^ 128

section

variable (x : Float128)

def truncI128 : Int × Bool :=
  if x.isNan then (0, false)
  else if x.isInfinite then (if x.isSignNegative then i128Min else i128Max, false)
  else match x.decompose with
    | none => (0, false)
    | some (negative, significand, exponent) =>
      if significand = 0 then (0, true)
      else
        let limit := if negative then 128 else 127
        let saturated := (if negative then i128Min else i128Max, false)
        if limit < (significand.log2 : Int) + exponent + 1 then saturated
        else
          let shift := exponent.natAbs
          if 0 ≤ exponent ∧ 128 ≤ shift then saturated
          else
            let (magnitude, fractional) :=
              if 0 ≤ exponent then (significand * 2 ^ shift % 2 ^ 128, false)
              else if 128 ≤ shift then (0, true)
              else (significand / 2 ^ shift, decide (significand % 2 ^ shift ≠ 0))
            (asI128 (if negative then (2 ^ 128 - magnitude) % 2 ^ 128 else magnitude), !fractional)

def toI128 : Except (Inexact Int) Int :=
  let (value, exact) := x.truncI128
  if exact then .ok value else .error ⟨value, x⟩

def toI64 : Except (Inexact Int) Int :=
  let outside (wide : Int) : Int := if wide < 0 then i64Min else i64Max
  match x.toI128 with
  | .ok wide => if i64Min ≤ wide ∧ wide ≤ i64Max then .ok wide else .error ⟨outside wide, x⟩
  | .error inexact =>
    .error ⟨if i64Min ≤ inexact.rounded ∧ inexact.rounded ≤ i64Max then inexact.rounded
      else outside inexact.rounded, x⟩

end

def tryFromI128 (value : Int) : Except (Inexact Float128) Float128 :=
  let (rounded, lost) := fromPartsRounded (value < 0) value.natAbs 0
  if lost then .error ⟨rounded, rounded⟩ else .ok rounded

def truncate (q : ℚ) : Int := if q < 0 then ⌈q⌉ else ⌊q⌋

/-- What a refused value carries: 0 for a NaN, else the value truncated towards zero and moved into
the range. -/
def saturated (x : Float128) (low high : Int) : Int :=
  match x.value with
  | some q => max low (min high (truncate q))
  | none => if x.isNan then 0 else if x.isSignNegative then low else high

structure ExactOrRefused (low high : Int) (x : Float128) (r : Except (Inexact Int) Int) :
    Prop where
  ok_iff : ∀ v : Int, r = .ok v ↔ x.value = some (v : ℚ) ∧ low ≤ v ∧ v ≤ high
  refused : ∀ e, r = .error e → e = ⟨x.saturated low high, x⟩

/-! ### The integral part -/

def magnitude (s : Nat) (e : Int) : Nat :=
  if 0 ≤ e then s * 2 ^ e.natAbs else s / 2 ^ e.natAbs

def Whole (s : Nat) (e : Int) : Prop := 0 ≤ e ∨ s % 2 ^ e.natAbs = 0

variable {s : Nat} {e : Int} {negative : Bool}

instance : Decidable (Whole s e) := inferInstanceAs (Decidable (_ ∨ _))

theorem scaled_of_nonneg (he : 0 ≤ e) : (s : ℚ) * 2 ^ e = (magnitude s e : Nat) := by
  obtain ⟨k, rfl⟩ := Int.eq_ofNat_of_zero_le he
  simp [magnitude]

theorem scaled_of_neg (he : e < 0) : (s : ℚ) * 2 ^ e = (s : ℚ) / (2 ^ e.natAbs : Nat) := by
  have hexp : e = -(e.natAbs : Int) := by omega
  rw [hexp, zpow_neg, zpow_natCast, Int.natAbs_neg, Int.natAbs_natCast, Nat.cast_pow,
    Nat.cast_ofNat, div_eq_mul_inv]

theorem floor_scaled (s : Nat) (e : Int) : ⌊(s : ℚ) * 2 ^ e⌋ = magnitude s e := by
  by_cases he : 0 ≤ e
  · rw [scaled_of_nonneg he]
    exact Int.floor_natCast _
  · rw [scaled_of_neg (not_le.mp he), magnitude, if_neg he]
    exact Rat.floor_natCast_div_natCast s _

theorem scaled_eq_magnitude_iff : (s : ℚ) * 2 ^ e = magnitude s e ↔ Whole s e := by
  by_cases he : 0 ≤ e
  · exact iff_of_true (scaled_of_nonneg he) (.inl he)
  · rw [scaled_of_neg (not_le.mp he), magnitude, if_neg he, Whole, or_iff_right he]
    have hpos : ((2 ^ e.natAbs : Nat) : ℚ) ≠ 0 := by positivity
    rw [div_eq_iff hpos, ← Nat.cast_mul, Nat.cast_inj]
    have := Nat.div_add_mod' s (2 ^ e.natAbs)
    omega

theorem truncate_signed {q : ℚ} (hq : 0 ≤ q) :
    truncate (signed negative q) = signed negative ⌊q⌋ := by
  cases negative with
  | false => exact if_neg (not_lt.mpr hq)
  | true =>
    rcases hq.eq_or_lt with rfl | hpos
    · simp [truncate, signed]
    · exact (if_pos (neg_neg_of_pos hpos)).trans Int.ceil_neg

theorem log2_mul_two_pow (hs : s ≠ 0) (k : Nat) : (s * 2 ^ k).log2 = s.log2 + k := by
  induction k with
  | zero => rw [Nat.pow_zero, Nat.mul_one, Nat.add_zero]
  | succ k ih =>
    have hne : s * 2 ^ k ≠ 0 := Nat.mul_ne_zero hs (by positivity)
    rw [Nat.pow_succ, ← Nat.mul_assoc, Nat.mul_comm _ 2, Nat.log2_two_mul hne, ih, Nat.add_assoc]

theorem limit_lt_iff {limit : Nat} (hs : s ≠ 0) (hsmall : s < 2 ^ 113) (hlimit : 113 ≤ limit) :
    (limit : Int) < (s.log2 : Int) + e + 1 ↔ 2 ^ limit ≤ magnitude s e := by
  by_cases he : 0 ≤ e
  · have hmul : s * 2 ^ e.natAbs ≠ 0 := Nat.mul_ne_zero hs (by positivity)
    rw [magnitude, if_pos he, ← Nat.le_log2 hmul, log2_mul_two_pow hs]
    omega
  · have hlog : s.log2 < 113 := (Nat.log2_lt hs).mpr hsmall
    have hle : s / 2 ^ e.natAbs ≤ s := Nat.div_le_self _ _
    have hpow : 2 ^ 113 ≤ 2 ^ limit := Nat.pow_le_pow_right (by decide) hlimit
    rw [magnitude, if_neg he]
    omega

variable {x : Float128}

section

variable (h : x.decompose = some (negative, s, e))
include h

theorem significand_lt : s < 2 ^ 113 := by
  have hlt : x.fraction < 2 ^ fractionBits := Nat.mod_lt _ (by decide)
  unfold fractionBits at hlt
  unfold decompose at h
  split_ifs at h <;> simp only [Option.some.injEq, Prod.mk.injEq, fractionBits] at h <;> omega

theorem truncI128_eq :
    x.truncI128 =
      if 2 ^ (if negative then 128 else 127) ≤ magnitude s e then
        (if negative then i128Min else i128Max, false)
      else
        (asI128 (if negative then (2 ^ 128 - magnitude s e) % 2 ^ 128 else magnitude s e),
          decide (Whole s e)) := by
  have hfinite : x.isFinite = true := by
    by_contra hinf
    rw [decompose, if_pos (by simpa using hinf)] at h
    cases h
  have hmax : x.biasedExponent ≠ exponentMax := by simpa [isFinite] using hfinite
  have hsmall := significand_lt h
  unfold truncI128
  rw [if_neg (by simp [isNan, hmax]), if_neg (by simp [isInfinite, hmax]), h]
  dsimp only
  by_cases hzero : s = 0
  · subst hzero
    cases negative <;> simp [magnitude, asI128, Whole]
  rw [if_neg hzero]
  have hlimit : 113 ≤ if negative then 128 else 127 := by cases negative <;> decide
  have hcast : (if negative then 128 else 127 : Int) = (if negative then 128 else 127 : Nat) := by
    cases negative <;> rfl
  have hiff := limit_lt_iff (e := e) hzero hsmall hlimit
  rw [hcast]
  by_cases hover : 2 ^ (if negative then 128 else 127) ≤ magnitude s e
  · rw [if_pos (hiff.mpr hover), if_pos hover]
  rw [if_neg fun hlt => hover (hiff.mp hlt), if_neg hover]
  have hmag : magnitude s e < 2 ^ 128 := by
    have hle : 2 ^ (if negative then 128 else 127) ≤ 2 ^ 128 := by cases negative <;> decide
    omega
  by_cases he : 0 ≤ e
  · have hmul : magnitude s e = s * 2 ^ e.natAbs := if_pos he
    rw [if_neg (by omega), if_pos he, ← hmul, Nat.mod_eq_of_lt hmag]
    simp [he, Whole]
  · have hdiv : magnitude s e = s / 2 ^ e.natAbs := if_neg he
    by_cases hbig : 128 ≤ e.natAbs
    · have hlt : s < 2 ^ e.natAbs :=
        hsmall.trans_le (Nat.pow_le_pow_right (by decide) (by omega))
      simp [Whole, hbig, he, hdiv, Nat.div_eq_of_lt hlt, Nat.mod_eq_of_lt hlt, hzero]
    · simp [Whole, hbig, he, hdiv]

theorem value_eq_some_iff (v : Int) :
    x.value = some (v : ℚ) ↔ Whole s e ∧ v = signed negative (magnitude s e : Int) := by
  have hfloor := floor_scaled s e
  rw [value, h, Option.map_some, Option.some.injEq, ← scaled_eq_magnitude_iff]
  generalize (s : ℚ) * 2 ^ e = q at hfloor ⊢
  have hint (w : Int) : q = w ↔ q = (magnitude s e : Nat) ∧ w = magnitude s e := by
    rw [← hfloor]
    constructor
    · rintro rfl
      exact ⟨by exact_mod_cast congrArg (Int.cast : Int → ℚ) hfloor, rfl⟩
    · rintro ⟨hq, rfl⟩
      rw [hfloor, hq]
      norm_cast
  cases negative with
  | false => exact hint v
  | true =>
    simp only [signed, if_true]
    rw [neg_eq_iff_eq_neg, ← Int.cast_neg, hint, neg_eq_iff_eq_neg]

theorem saturated_eq (low high : Int) :
    x.saturated low high = max low (min high (signed negative (magnitude s e : Int))) := by
  have hnonneg : (0 : ℚ) ≤ s * 2 ^ e := by positivity
  simp [saturated, value, h, truncate_signed hnonneg, floor_scaled]

end

/-- The range test lets the value through although it is below the range. -/
def Overlooked (x : Float128) : Prop := ∃ q, x.value = some q ∧ -2 ^ 128 < q ∧ q < -2 ^ 127

theorem overlooked_iff (h : x.decompose = some (negative, s, e)) :
    x.Overlooked ↔ negative = true ∧ 2 ^ 127 < magnitude s e ∧ magnitude s e < 2 ^ 128 := by
  have hnonneg : (0 : ℚ) ≤ s * 2 ^ e := by positivity
  have hvalue : x.Overlooked ↔
      -2 ^ 128 < signed negative ((s : ℚ) * 2 ^ e) ∧
      signed negative ((s : ℚ) * 2 ^ e) < -2 ^ 127 := by
    simp [Overlooked, value, h]
  rw [hvalue]
  cases negative with
  | false =>
    refine iff_of_false (fun hlt => ?_) (by simp)
    have hlow : (s : ℚ) * 2 ^ e < -2 ^ 127 := hlt.2
    linarith
  | true =>
    simp only [signed, if_true, neg_lt_neg_iff, true_and]
    rw [and_comm]
    by_cases he : 0 ≤ e
    · rw [scaled_of_nonneg he]
      norm_cast
    · have hsmall := significand_lt h
      have hle : s / 2 ^ e.natAbs ≤ s := Nat.div_le_self _ _
      have hmag : magnitude s e < 2 ^ 113 := by
        rw [magnitude, if_neg he]
        omega
      have hq := Int.lt_floor_add_one ((s : ℚ) * 2 ^ e)
      rw [floor_scaled] at hq
      have hcast : ((magnitude s e : Int) : ℚ) + 1 ≤ 2 ^ 113 := by exact_mod_cast hmag
      refine iff_of_false (fun hlt => ?_) (by omega)
      have : (2 : ℚ) ^ 127 < 2 ^ 113 := by linarith [hlt.1]
      norm_num at this

theorem exactOrRefused_of {low high v : Int} {whole : Prop} {r : Except (Inexact Int) Int}
    (hvalue : ∀ w : Int, x.value = some (w : ℚ) ↔ whole ∧ w = v)
    (hsat : x.saturated low high = max low (min high v))
    (hin : whole ∧ low ≤ v ∧ v ≤ high → r = .ok v)
    (hout : ¬(whole ∧ low ≤ v ∧ v ≤ high) → r = .error ⟨max low (min high v), x⟩) :
    ExactOrRefused low high x r := by
  by_cases hfits : whole ∧ low ≤ v ∧ v ≤ high
  · obtain rfl := hin hfits
    refine ⟨fun w => ?_, nofun⟩
    rw [hvalue, Except.ok.injEq]
    exact ⟨fun heq => heq ▸ ⟨⟨hfits.1, rfl⟩, hfits.2⟩, fun hv => hv.1.2.symm⟩
  · obtain rfl := hout hfits
    refine ⟨fun w => iff_of_false nofun ?_, fun e' he' => ?_⟩
    · rw [hvalue]
      rintro ⟨⟨hwhole, rfl⟩, hrange⟩
      exact hfits ⟨hwhole, hrange⟩
    · rw [hsat]
      exact (Except.error.inj he').symm

theorem toI128_eq_error (h : x.decompose = none) :
    x.toI128 = .error ⟨x.saturated i128Min i128Max, x⟩ := by
  have hmax : x.biasedExponent = exponentMax := by
    by_contra hne
    rw [decompose, if_neg (by simp [isFinite, hne])] at h
    split at h <;> cases h
  have hvalue : x.value = none := by rw [value, h, Option.map_none]
  by_cases hfraction : x.fraction = 0
  · have hnan : x.isNan = false := by simp [isNan, hfraction]
    have hinf : x.isInfinite = true := by simp [isInfinite, hmax, hfraction]
    simp [toI128, truncI128, hnan, hinf, saturated, hvalue]
  · have hnan : x.isNan = true := by simp [isNan, hmax, hfraction]
    simp [toI128, truncI128, hnan, saturated, hvalue]

variable {n : Nat}

theorem asI128_signed (hn : n < 2 ^ 127 ∨ n = 2 ^ 127 ∧ negative = true) :
    asI128 (if negative then (2 ^ 128 - n) % 2 ^ 128 else n) = signed negative (n : Int) := by
  cases negative with
  | false =>
    have hlt : n < 2 ^ 127 := hn.resolve_right fun h => Bool.false_ne_true h.2
    exact if_pos hlt
  | true =>
    simp only [asI128, signed, if_true]
    split <;> omega

theorem asI128_overlooked (hlow : 2 ^ 127 < n) (hhigh : n < 2 ^ 128) :
    0 < asI128 ((2 ^ 128 - n) % 2 ^ 128) := by
  unfold asI128
  split <;> omega

theorem toI128_exactOrRefused_iff (x : Float128) :
    ExactOrRefused i128Min i128Max x x.toI128 ↔ ¬x.Overlooked := by
  cases h : x.decompose with
  | none =>
    have hvalue : x.value = none := by rw [value, h, Option.map_none]
    rw [toI128_eq_error h]
    refine iff_of_true ⟨fun v => ?_, fun e he => (Except.error.inj he).symm⟩ ?_
    · simp [hvalue]
    · simp [Overlooked, hvalue]
  | some p =>
    obtain ⟨negative, s, e⟩ := p
    rw [overlooked_iff h, toI128, truncI128_eq h]
    constructor
    · rintro hlaw ⟨rfl, hlow, hhigh⟩
      have hpos := asI128_overlooked hlow hhigh
      simp only [if_true, if_neg (not_le.mpr hhigh)] at hlaw
      by_cases hwhole : Whole s e
      · rw [if_pos (decide_eq_true hwhole)] at hlaw
        have hv := ((hlaw.ok_iff _).mp rfl).1
        rw [value_eq_some_iff h] at hv
        simp only [signed, if_true] at hv
        omega
      · rw [if_neg (by simpa using hwhole)] at hlaw
        have he := hlaw.refused _ rfl
        rw [saturated_eq h, Inexact.mk.injEq] at he
        simp only [signed, if_true, i128Min, i128Max] at he
        omega
    · intro hgood
      have hmin : i128Min = -2 ^ 127 := rfl
      have hmax : i128Max = 2 ^ 127 - 1 := rfl
      refine exactOrRefused_of (value_eq_some_iff h) (saturated_eq h _ _) (fun hfits => ?_)
        fun hfits => ?_
      all_goals by_cases hover : 2 ^ (if negative then 128 else 127) ≤ magnitude s e
      · cases negative <;> simp [signed] at hover hfits <;> omega
      · rw [if_neg hover, asI128_signed (by cases negative <;> simp at hover hgood ⊢ <;> omega)]
        exact if_pos (decide_eq_true hfits.1)
      · rw [if_pos hover]
        cases negative <;> simp [signed] at hover ⊢ <;> omega
      · have hin : i128Min ≤ signed negative (magnitude s e : Int) ∧
            signed negative (magnitude s e : Int) ≤ i128Max := by
          cases negative <;> simp [signed] at hover hgood ⊢ <;> omega
        rw [if_neg hover, asI128_signed (by cases negative <;> simp at hover hgood ⊢ <;> omega),
          min_eq_right hin.2, max_eq_right hin.1]
        exact if_neg fun hwhole => hfits ⟨of_decide_eq_true hwhole, hin⟩

theorem truncate_intCast (v : Int) : truncate v = v := by
  unfold truncate
  split
  · exact Int.ceil_intCast v
  · exact Int.floor_intCast v

theorem saturated_narrow (x : Float128) :
    let wide := x.saturated i128Min i128Max
    (if i64Min ≤ wide ∧ wide ≤ i64Max then wide else if wide < 0 then i64Min else i64Max) =
      x.saturated i64Min i64Max := by
  unfold saturated i128Min i128Max i64Min i64Max
  cases x.value with
  | none => split_ifs <;> simp_all
  | some q =>
    dsimp only
    split_ifs <;> omega

theorem toI64_exactOrRefused (h : ExactOrRefused i128Min i128Max x x.toI128) :
    ExactOrRefused i64Min i64Max x x.toI64 := by
  have hnarrow := x.saturated_narrow
  dsimp only at hnarrow
  unfold toI64
  cases hwide : x.toI128 with
  | ok wide =>
    obtain ⟨hvalue, hlow, hhigh⟩ := (h.ok_iff wide).mp hwide
    have hsat (low high : Int) : x.saturated low high = max low (min high wide) := by
      simp [saturated, hvalue, truncate_intCast]
    have hwhole (w : Int) : x.value = some (w : ℚ) ↔ True ∧ w = wide := by
      simp [hvalue, eq_comm]
    refine exactOrRefused_of hwhole (hsat _ _) (fun hfits => if_pos hfits.2) fun hout => ?_
    rw [true_and] at hout
    rw [hsat, min_eq_right hhigh, max_eq_right hlow, hsat, if_neg hout] at hnarrow
    rw [← hnarrow]
    exact if_neg hout
  | error inexact =>
    refine ⟨fun v => iff_of_false nofun fun hv => ?_, fun e he => ?_⟩
    · have hrange : i128Min ≤ v ∧ v ≤ i128Max := by
        have := hv.2
        unfold i64Min i64Max at this
        unfold i128Min i128Max
        omega
      have hok := (h.ok_iff v).mpr ⟨hv.1, hrange⟩
      rw [hwide] at hok
      cases hok
    · rw [← Except.error.inj he, h.refused _ hwide, ← hnarrow]

/-! ### From an integer and back -/

theorem decompose_pack {biased low : Nat} (hbiased : biased < exponentMax)
    (hlow : low < 2 ^ fractionBits) :
    (pack negative (biased * 2 ^ fractionBits + low)).decompose =
      if biased = 0 then some (negative, low, 1 - exponentBias - fractionBits)
      else some (negative, low + 2 ^ fractionBits, biased - exponentBias - fractionBits) := by
  have hfields : ∀ f, f = pack negative (biased * 2 ^ fractionBits + low) →
      f.isSignNegative = negative ∧ f.biasedExponent = biased ∧ f.fraction = low := by
    rintro f rfl
    unfold exponentMax fractionBits at *
    simp only [pack, isSignNegative, biasedExponent, fraction, fractionBits,
      BitVec.msb_eq_decide, BitVec.toNat_ofNat]
    cases negative <;> simp <;> omega
  obtain ⟨hsign, hexp, hfraction⟩ := hfields _ rfl
  rw [decompose, isFinite, hsign, hexp, hfraction, if_neg (by simp [hbiased.ne])]

theorem exact_of_roundShiftRight {shift rounded : Nat} (hshift : 0 < shift) (hsmall : shift < 128)
    (h : roundShiftRight n shift = (rounded, false)) : n = rounded * 2 ^ shift := by
  unfold roundShiftRight at h
  rw [if_neg hshift.ne', if_neg (not_le.mpr hsmall)] at h
  dsimp only at h
  split at h
  · next hdropped =>
    have hkept := Nat.div_add_mod' n (2 ^ shift)
    rw [hdropped, (Prod.mk.inj h).1] at hkept
    exact hkept.symm
  · split at h <;> cases h

theorem normalise_exact {sig : Nat} {exp : Int} (hs : s ≠ 0) (hsmall : s < 2 ^ 128)
    (h : normalise s 0 = (sig, exp, false)) :
    (2 ^ 112 ≤ sig ∧ sig < 2 ^ 113) ∧ -112 ≤ exp ∧ exp ≤ 15 ∧ (s : ℚ) = sig * 2 ^ exp := by
  have hlog : s.log2 < 128 := (Nat.log2_lt hs).mpr hsmall
  unfold normalise fractionBits at h
  dsimp only at h
  split at h
  · next hbig =>
    cases hround : roundShiftRight s (s.log2 - 112) with
    | mk rounded lost =>
      have hlost : lost = false := by
        rw [hround] at h
        split at h <;> exact (Prod.mk.inj (Prod.mk.inj h).2).2
      subst hlost
      have hexact := exact_of_roundShiftRight (by omega) (by omega) hround
      have hne : rounded ≠ 0 := by
        rintro rfl
        rw [Nat.zero_mul] at hexact
        exact hs hexact
      have hlog₂ : rounded.log2 = 112 := by
        have := log2_mul_two_pow hne (s.log2 - 112)
        rw [← hexact] at this
        omega
      have hrange := (Nat.log2_eq_iff hne).mp hlog₂
      rw [hround] at h
      rw [if_neg (not_le.mpr hrange.2)] at h
      obtain ⟨rfl, rfl, -⟩ := h
      refine ⟨hrange, by omega, by omega, ?_⟩
      rw [zero_add, zpow_natCast]
      exact_mod_cast hexact
  · next hfits =>
    obtain ⟨rfl, rfl, -⟩ := h
    have hne : s * 2 ^ (112 - s.log2) ≠ 0 := Nat.mul_ne_zero hs (by positivity)
    have hlog₂ := log2_mul_two_pow hs (112 - s.log2)
    refine ⟨(Nat.log2_eq_iff hne).mp (by omega), by omega, by omega, ?_⟩
    rw [zero_sub, zpow_neg, zpow_natCast, Nat.cast_mul, Nat.cast_pow, Nat.cast_ofNat,
      mul_inv_cancel_right₀ (by positivity)]

theorem value_fromPartsRounded {f : Float128} (hs : s < 2 ^ 128)
    (h : fromPartsRounded negative s 0 = (f, false)) :
    f.value = some (signed negative (s : ℚ)) := by
  unfold fromPartsRounded at h
  by_cases hzero : s = 0
  · rw [if_pos hzero] at h
    obtain rfl := (Prod.mk.inj h).1
    have hdec := @decompose_pack negative 0 0 (by decide) (by decide)
    rw [if_pos rfl, Nat.zero_mul] at hdec
    simp [value, signedZero, hdec, hzero]
  rw [if_neg hzero, if_neg (by decide), if_neg (by decide)] at h
  cases hnorm : normalise s 0 with
  | mk sig rest =>
    obtain ⟨exp, sticky⟩ := rest
    rw [hnorm] at h
    dsimp only at h
    have hsticky : sticky = false := by
      split_ifs at h
      · exact absurd (Prod.mk.inj h).2 (by decide)
      · exact (Bool.or_eq_false_iff.mp (Prod.mk.inj h).2).1
      · exact (Prod.mk.inj h).2
    obtain ⟨hsig, hlow, hhigh, hvalue⟩ := normalise_exact hzero hs (hsticky ▸ hnorm)
    have hbiased : ∃ n : Nat, exp + exponentBias + fractionBits = n ∧ 0 < n ∧ n < exponentMax := by
      refine ⟨(exp + 16495).toNat, ?_⟩
      unfold exponentBias fractionBits exponentMax
      omega
    obtain ⟨n, hn, hpos, hmax⟩ := hbiased
    rw [hn, if_neg (by omega), if_neg (by omega), Int.toNat_natCast] at h
    obtain rfl := (Prod.mk.inj h).1
    have hdec := @decompose_pack negative n (sig % 2 ^ fractionBits) hmax (Nat.mod_lt _ (by decide))
    have hwhole : sig % 2 ^ fractionBits + 2 ^ fractionBits = sig := by
      unfold fractionBits
      omega
    have hexp : (n : Int) - exponentBias - fractionBits = exp := by omega
    rw [if_neg hpos.ne', hwhole, hexp] at hdec
    rw [value, hdec, Option.map_some, ← hvalue]

theorem signed_natAbs (v : Int) : signed (decide (v < 0)) (v.natAbs : ℚ) = v := by
  by_cases hneg : v < 0
  · have habs : (v.natAbs : Int) = -v := by omega
    simp only [signed, hneg, decide_true, if_true]
    rw [← Int.cast_natCast, habs, Int.cast_neg, neg_neg]
  · have habs : (v.natAbs : Int) = v := by omega
    simp only [signed, hneg, decide_false, Bool.false_eq_true, if_false]
    rw [← Int.cast_natCast, habs]

/-- Where the conversions are exact or refused: at every value but those between -2^128 and
-2^127. -/
theorem exact_or_refused_iff (x : Float128) :
    (ExactOrRefused i128Min i128Max x x.toI128 ∧ ExactOrRefused i64Min i64Max x x.toI64 ∧
      ∀ v f, i128Min ≤ v → v ≤ i128Max → tryFromI128 v = .ok f → f.toI128 = .ok v) ↔
      ¬∃ q, x.value = some q ∧ -2 ^ 128 < q ∧ q < -2 ^ 127 := by
  refine Iff.trans ⟨fun h => h.1,
    fun h => ⟨h, toI64_exactOrRefused h, fun v f hlow hhigh hok => ?_⟩⟩
    (toI128_exactOrRefused_iff x)
  have hv : f.value = some (v : ℚ) := by
    unfold tryFromI128 at hok
    cases hparts : fromPartsRounded (v < 0) v.natAbs 0 with
    | mk g lost =>
      rw [hparts] at hok
      unfold i128Min at hlow
      unfold i128Max at hhigh
      cases lost with
      | true => cases hok
      | false =>
        obtain rfl : g = f := Except.ok.inj hok
        rw [value_fromPartsRounded (by omega) hparts, signed_natAbs]
  have hlaw : ¬f.Overlooked := by
    rintro ⟨q, hq, -, hlt⟩
    rw [hv, Option.some.injEq] at hq
    rw [← hq] at hlt
    unfold i128Min at hlow
    have : v < -2 ^ 127 := by exact_mod_cast hlt
    omega
  exact (((toI128_exactOrRefused_iff f).mpr hlaw).ok_iff v).mpr ⟨hv, hlow, hhigh⟩

/-- The pattern of -(2^127 + 2^15). -/
def belowTheRange : Float128 := pack true (16510 * 2 ^ fractionBits + 1)

theorem negative_comes_out_positive :
    belowTheRange.value = some (-(2 ^ 127 + 2 ^ 15)) ∧
      belowTheRange.toI128 = .ok (2 ^ 127 - 2 ^ 15) ∧
      belowTheRange.toI64 = .error ⟨i64Max, belowTheRange⟩ ∧
      ¬ExactOrRefused i128Min i128Max belowTheRange belowTheRange.toI128 := by
  have hvalue : belowTheRange.value = some (-(2 ^ 127 + 2 ^ 15)) := by
    have hdec := @decompose_pack true 16510 1 (by decide) (by decide)
    rw [value, belowTheRange, hdec]
    norm_num [signed, exponentBias, fractionBits]
  refine ⟨hvalue, by decide +kernel, by decide +kernel, fun hlaw => ?_⟩
  refine (toI128_exactOrRefused_iff _).mp hlaw ⟨_, hvalue, ?_, ?_⟩ <;> norm_num

theorem one_is_exact :
    (tryFromI128 1 = .ok (pack false (16383 * 2 ^ fractionBits)) ∧
      (pack false (16383 * 2 ^ fractionBits)).toI128 = .ok 1) := by
  have hone : tryFromI128 1 = .ok (pack false (16383 * 2 ^ fractionBits)) := by decide +kernel
  have hzero : ¬∃ q, (signedZero false).value = some q ∧ -2 ^ 128 < q ∧ q < -2 ^ 127 := by
    have hdec := @decompose_pack false 0 0 (by decide) (by decide)
    rw [if_pos rfl, Nat.zero_mul] at hdec
    simp [value, signedZero, hdec, signed]
  have hback := ((exact_or_refused_iff (signedZero false)).mpr hzero).2.2
  exact ⟨hone, hback 1 _ (by decide) (by decide) hone⟩

end ZeroDds.Float128
