/-
Literals in the place of parameters.
-/
import ZeroDds.SqlFilter.Evaluator
import ZeroDds.SqlFilter.Sentences

namespace ZeroDds.SqlFilter

variable {F : Type}

def Token.literal : Token F → Option (Value F)
  | .strLit s => some (.string s)
  | .intLit n => some (.int n)
  | .floatLit f => some (.float f)
  | .boolLit b => some (.bool b)
  | .null => some .null
  | _ => none

theorem Token.operand_of_literal {tok : Token F} {v : Value F} (h : tok.literal = some v) :
    tok.operand = some (.literal v) := by
  cases tok <;> first | cases h; rfl | cases h

section Substitute

variable [Doubles F]

def literalToken (F : Type) [Doubles F] (lit : List Char) : Option (Token F) :=
  match lexToken lit with
  | .ok (tok, []) => if tok.literal.isSome then some tok else none
  | _ => none

def literalValue (F : Type) [Doubles F] (lit : List Char) : Option (Value F) :=
  (literalToken F lit).bind Token.literal

theorem literalToken_some {lit : List Char} {tok : Token F} :
    literalToken F lit = some tok ↔
      Lexeme scannerRules lit tok [] ∧ ∃ v, tok.literal = some v := by
  have hread : Lexeme scannerRules lit tok [] ↔ lexToken lit = .ok (tok, []) := by
    rw [lexToken_ok]
    constructor
    · intro h
      exact ⟨lit, h, (List.append_nil lit).symm⟩
    · rintro ⟨text, htext, rfl⟩
      rwa [List.append_nil]
  rw [hread]
  unfold literalToken
  constructor
  · intro h
    split at h
    · next tok' hlex =>
      split at h
      · next hliteral =>
        cases h
        exact ⟨hlex, Option.isSome_iff_exists.mp hliteral⟩
      · cases h
    · cases h
  · rintro ⟨hlex, v, hv⟩
    rw [hlex]
    simp only
    rw [if_pos (by rw [hv]; rfl)]

def replacement (lits : List (List Char)) (tok : Token F) (text : List Char) : List Char :=
  match tok with
  | .param i =>
    match lits[i]? with
    | some lit => ' ' :: (lit ++ [' '])
    | none => text
  | _ => text

/-- The text that is left with literals for its parameters. `fuel` is at least its length. -/
def substituteLoop (F : Type) [Doubles F] (lits : List (List Char)) : Nat → List Char → List Char
  | 0, input => input
  | _, [] => []
  | fuel + 1, c :: rest =>
    if isBlank c then c :: substituteLoop F lits fuel rest
    else
      match lexToken (F := F) (c :: rest) with
      | .error _ => c :: rest
      | .ok (tok, behind) =>
        replacement lits tok ((c :: rest).take ((c :: rest).length - behind.length)) ++
          substituteLoop F lits fuel behind

def substitute (F : Type) [Doubles F] (lits : List (List Char)) (input : List Char) : List Char :=
  substituteLoop F lits input.length input

def substToken (lits : List (List Char)) : Token F → Token F
  | .param i => (lits[i]?.bind (literalToken F)).getD (.param i)
  | tok => tok

/-- Whether a text comes from another with nothing but a blank in the place of its first
character. -/
def SameStart (rest rest' : List Char) : Prop :=
  rest'.head? = rest.head? ∨ rest'.head? = some ' '

theorem stopsBefore_sameStart {p : Char → Bool} {rest rest' : List Char}
    (h : StopsBefore p rest) (hsame : SameStart rest rest') (hblank : p ' ' = false) :
    StopsBefore p rest' := by
  intro c hc
  rcases hsame with hsame | hsame
  · exact h c (hsame.symm.trans hc)
  · rw [hsame] at hc
    cases hc
    exact hblank

theorem Lexeme.of_sameStart {rules : FieldRules} {text rest rest' : List Char} {tok : Token F}
    (h : Lexeme rules text tok rest) (hsame : SameStart rest rest') :
    Lexeme rules text tok rest' := by
  cases h with
  | symbol hmem hnext =>
    refine .symbol hmem (stopsBefore_sameStart hnext hsame ?_)
    simp only [symbols, List.mem_cons, List.not_mem_nil, or_false, Prod.mk.injEq] at hmem
    rcases hmem with ⟨-, -, rfl⟩ | ⟨-, -, rfl⟩ | ⟨-, -, rfl⟩ | ⟨-, -, rfl⟩ | ⟨-, -, rfl⟩ |
      ⟨-, -, rfl⟩ | ⟨-, -, rfl⟩ | ⟨-, -, rfl⟩ | ⟨-, -, rfl⟩ <;> rfl
  | param hdigits hone hrange hnext =>
    exact .param hdigits hone hrange (stopsBefore_sameStart hnext hsame rfl)
  | string hlines hnext => exact .string hlines (stopsBefore_sameStart hnext hsame rfl)
  | integer hsign hdigits hone hrange hnext hhex =>
    exact .integer hsign hdigits hone hrange (stopsBefore_sameStart hnext hsame rfl) fun hzero =>
      stopsBefore_sameStart (hhex hzero) hsame rfl
  | hex hsign hx hdigits hone hrange hnext =>
    exact .hex hsign hx hdigits hone hrange (stopsBefore_sameStart hnext hsame rfl)
  | @float sign whole fraction exponent _ negative hsign hwhole hone hfraction hexponent hfloat
      hnext =>
    refine .float hsign hwhole hone hfraction hexponent hfloat
      (stopsBefore_sameStart hnext hsame ?_)
    simp [continuesNumber]
  | word hfirst hrun hword hnext =>
    exact .word hfirst hrun hword (stopsBefore_sameStart hnext hsame rfl)
  | field hfirst hrun hsub htail hnext =>
    exact .field hfirst hrun hsub htail (stopsBefore_sameStart hnext hsame rfl)

variable {lits : List (List Char)}

theorem Lexes.substitute (hlits : ∀ lit ∈ lits, (literalToken F lit).isSome = true)
    {input : List Char} {toks : List (Token F)} (h : Lexes scannerRules input toks) :
    ∀ fuel, input.length ≤ fuel → SameStart input (substituteLoop F lits fuel input) ∧
      Lexes scannerRules (substituteLoop F lits fuel input) (toks.map (substToken lits)) := by
  induction h with
  | nil =>
    intro fuel _
    cases fuel <;> exact ⟨.inl rfl, .nil⟩
  | @blank c rest toks hc _ ih =>
    intro fuel hfuel
    rw [List.length_cons] at hfuel
    obtain ⟨fuel, rfl⟩ : ∃ f, fuel = f + 1 := ⟨fuel - 1, by omega⟩
    rw [substituteLoop, if_pos hc]
    exact ⟨.inl rfl, .blank hc (ih fuel (by omega)).2⟩
  | @lexeme text rest tok toks htext _ ih =>
    intro fuel hfuel
    have hread := lexToken_complete htext
    obtain ⟨d, behind, rfl, hd⟩ := htext.exists_cons
    simp only [List.length_append, List.length_cons] at hfuel
    obtain ⟨fuel, rfl⟩ : ∃ f, fuel = f + 1 := ⟨fuel - 1, by omega⟩
    obtain ⟨hstart, hrest⟩ := ih fuel (by omega)
    have htake : (d :: (behind ++ rest)).take ((d :: (behind ++ rest)).length - rest.length) =
        d :: behind := @take_sign rest (d :: behind)
    have hloop : substituteLoop F lits (fuel + 1) (d :: behind ++ rest) =
        replacement lits tok (d :: behind) ++ substituteLoop F lits fuel rest := by
      rw [List.cons_append] at hread ⊢
      rw [substituteLoop, if_neg (by rw [hd]; decide), hread]
      simp only [htake]
    have hcopy : SameStart (d :: behind ++ rest)
          (d :: behind ++ substituteLoop F lits fuel rest) ∧
        Lexes scannerRules (d :: behind ++ substituteLoop F lits fuel rest)
          (tok :: toks.map (substToken lits)) :=
      ⟨.inl rfl, .lexeme (htext.of_sameStart hstart) hrest⟩
    rw [hloop, List.map_cons]
    cases tok with
    | param i =>
      cases hlit : lits[i]? with
      | none =>
        simp only [replacement, substToken, hlit, Option.bind_none, Option.getD_none]
        exact hcopy
      | some lit =>
        obtain ⟨tok, htok⟩ :=
          Option.isSome_iff_exists.mp (hlits lit (List.mem_of_getElem? hlit))
        simp only [replacement, substToken, hlit, Option.bind_some, htok, Option.getD_some]
        refine ⟨.inr rfl, ?_⟩
        rw [List.cons_append, List.append_assoc, List.singleton_append]
        refine .blank rfl (.lexeme ((literalToken_some.mp htok).1.of_sameStart (.inr rfl)) ?_)
        exact .blank rfl hrest
    | _ => exact hcopy

def Operand.substitute (lits : List (List Char)) : Operand F → Operand F
  | .param i =>
    match lits[i]?.bind (literalValue F) with
    | some v => .literal v
    | none => .param i
  | o => o

def Expr.substitute (lits : List (List Char)) : Expr F → Expr F
  | .and a b => .and (a.substitute lits) (b.substitute lits)
  | .or a b => .or (a.substitute lits) (b.substitute lits)
  | .not inner => .not (inner.substitute lits)
  | .cmp lhs op rhs => .cmp (lhs.substitute lits) op (rhs.substitute lits)
  | .between field low high negated =>
    .between (field.substitute lits) (low.substitute lits) (high.substitute lits) negated

theorem operand_substToken {tok : Token F} {o : Operand F} (h : tok.operand = some o) :
    (substToken lits tok).operand = some (o.substitute lits) := by
  cases tok with
  | param i =>
    cases h
    cases htok : lits[i]?.bind (literalToken F) with
    | none =>
      have hvalue : lits[i]?.bind (literalValue F) = none := by
        rw [Option.bind_eq_none_iff] at htok ⊢
        intro lit hlit
        rw [literalValue, htok lit hlit]
        rfl
      simp only [substToken, htok, Option.getD_none, Operand.substitute, hvalue]
      rfl
    | some tok =>
      obtain ⟨lit, hlit, hread⟩ := Option.bind_eq_some_iff.mp htok
      obtain ⟨_, v, hv⟩ := literalToken_some.mp hread
      have hvalue : lits[i]?.bind (literalValue F) = some v := by
        rw [hlit, Option.bind_some, literalValue, hread]
        exact hv
      simp only [substToken, htok, Option.getD_some, Operand.substitute, hvalue]
      exact Token.operand_of_literal hv
  | _ =>
    cases h
    try rfl

theorem cmpOp_substToken {tok : Token F} {o : CmpOp} (h : tok.cmpOp = some o) :
    substToken lits tok = tok := by
  cases tok <;> first | rfl | cases h

theorem Comparison.substitute {ts : List (Token F)} {e : Expr F} (h : Comparison ts e) :
    Comparison (ts.map (substToken lits)) (e.substitute lits) := by
  cases h with
  | cmp hl ho hr =>
    have hop := ho
    rw [← @cmpOp_substToken _ _ lits _ _ ho] at hop
    exact .cmp (operand_substToken hl) hop (operand_substToken hr)
  | between hf hl hh =>
    exact .between (operand_substToken hf) (operand_substToken hl) (operand_substToken hh)
  | notBetween hf hl hh =>
    exact .notBetween (operand_substToken hf) (operand_substToken hl) (operand_substToken hh)

theorem Derives.substitute {level : Level} {ts : List (Token F)} {e : Expr F}
    (h : Derives level ts e) :
    Derives level (ts.map (substToken lits)) (e.substitute lits) := by
  induction h with
  | orOne _ ih => exact .orOne ih
  | or _ _ ihl ihr =>
    rw [List.map_append, List.map_cons]
    exact .or ihl ihr
  | andOne _ ih => exact .andOne ih
  | and _ _ ihl ihr =>
    rw [List.map_append, List.map_cons]
    exact .and ihl ihr
  | notOne _ ih => exact .notOne ih
  | not _ ih => exact .not ih
  | cmp h => exact .cmp h.substitute
  | paren _ ih =>
    rw [List.map_cons, List.map_append]
    exact .paren ih

theorem parse_substitute (hlits : ∀ lit ∈ lits, (literalToken F lit).isSome = true)
    {input : List Char} {e : Expr F} (h : parse input = .ok e) :
    parse (SqlFilter.substitute F lits input) = .ok (e.substitute lits) := by
  obtain ⟨toks, htoks, hderives⟩ := parse_ok.mp h
  have hlexes := ((tokenize_ok.mp htoks).substitute hlits input.length (le_refl _)).2
  exact parse_ok.mpr ⟨_, tokenize_ok.mpr hlexes, hderives.substitute⟩

omit [Doubles F] in
theorem Derives.param_mem {level : Level} {ts : List (Token F)} {e : Expr F}
    (h : Derives level ts e) {i : Nat} (hi : i ∈ e.collectParamIndices) : .param i ∈ ts := by
  have hoperand : ∀ {tok : Token F} {o : Operand F}, tok.operand = some o →
      i ∈ o.paramIndex → tok = .param i := by
    intro tok o ho hmem
    cases tok <;> cases ho <;> simp_all [Operand.paramIndex]
  induction h with
  | orOne _ ih => exact ih hi
  | or _ _ ihl ihr =>
    rcases List.mem_append.mp hi with hi | hi
    · exact List.mem_append_left _ (ihl hi)
    · exact List.mem_append_right _ (List.mem_cons_of_mem _ (ihr hi))
  | andOne _ ih => exact ih hi
  | and _ _ ihl ihr =>
    rcases List.mem_append.mp hi with hi | hi
    · exact List.mem_append_left _ (ihl hi)
    · exact List.mem_append_right _ (List.mem_cons_of_mem _ (ihr hi))
  | notOne _ ih => exact ih hi
  | not _ ih => exact List.mem_cons_of_mem _ (ih hi)
  | cmp h =>
    cases h with
    | cmp hl _ hr =>
      rcases List.mem_append.mp hi with hi | hi
      · simp [hoperand hl hi]
      · simp [hoperand hr hi]
    | between hf hl hh =>
      rcases List.mem_append.mp hi with hi | hi
      · rcases List.mem_append.mp hi with hi | hi
        · simp [hoperand hf hi]
        · simp [hoperand hl hi]
      · simp [hoperand hh hi]
    | notBetween hf hl hh =>
      rcases List.mem_append.mp hi with hi | hi
      · rcases List.mem_append.mp hi with hi | hi
        · simp [hoperand hf hi]
        · simp [hoperand hl hi]
      · simp [hoperand hh hi]
  | paren _ ih => exact List.mem_cons_of_mem _ (List.mem_append_left _ (ih hi))

theorem Lexeme.param_lt {rules : FieldRules} {text rest : List Char} {i : Nat}
    (h : Lexeme (F := F) rules text (.param i) rest) : i < 2 ^ 32 := by
  generalize htok : Token.param i = tok at h
  cases h with
  | symbol hmem _ =>
    subst htok
    simp [symbols] at hmem
  | param _ _ hrange _ =>
    cases htok
    exact hrange
  | word _ _ hword _ =>
    cases hword with
    | keyword hmem _ =>
      subst htok
      simp [keywords] at hmem
    | null => cases htok
    | name => cases htok
  | string | integer | hex | float | field => cases htok

theorem Lexes.param_lt {rules : FieldRules} {input : List Char} {toks : List (Token F)}
    (h : Lexes rules input toks) {i : Nat} (hi : .param i ∈ toks) : i < 2 ^ 32 := by
  induction h with
  | nil => cases hi
  | blank _ _ ih => exact ih hi
  | @lexeme text rest tok toks htext _ ih =>
    rcases List.mem_cons.mp hi with rfl | hi
    · exact htext.param_lt
    · exact ih hi

theorem resolveOperand_substitute {o : Operand F} {row : Row F}
    (h : ∀ i ∈ o.paramIndex, ∀ lit, lits[i]? = some lit →
      literalValue F lit = some (Value.fromParameter lit)) :
    resolveOperand o row (lits.map Value.fromParameter) =
      resolveOperand (o.substitute lits) row [] := by
  cases o with
  | literal v => rfl
  | field name => rfl
  | param i =>
    cases hlit : lits[i]? with
    | none => simp [resolveOperand, Operand.substitute, hlit]
    | some lit =>
      have hvalue := h i (by simp [Operand.paramIndex]) lit hlit
      simp [resolveOperand, Operand.substitute, hlit, hvalue]

theorem evaluate_substitute {e : Expr F} {row : Row F}
    (h : ∀ i ∈ e.collectParamIndices, ∀ lit, lits[i]? = some lit →
      literalValue F lit = some (Value.fromParameter lit)) :
    e.evaluate row (lits.map Value.fromParameter) = (e.substitute lits).evaluate row [] := by
  induction e with
  | and a b iha ihb | or a b iha ihb =>
    simp only [Expr.collectParamIndices, List.mem_append] at h
    simp only [Expr.evaluate, Expr.substitute, iha fun i hi => h i (.inl hi),
      ihb fun i hi => h i (.inr hi)]
  | not inner ih => simp [Expr.evaluate, Expr.substitute, ih h]
  | cmp lhs op rhs =>
    simp only [Expr.collectParamIndices, List.mem_append] at h
    simp only [Expr.evaluate, Expr.substitute,
      resolveOperand_substitute fun i hi => h i (.inl hi),
      resolveOperand_substitute fun i hi => h i (.inr hi)]
  | between field low high negated =>
    simp only [Expr.collectParamIndices, List.mem_append] at h
    simp only [Expr.evaluate, Expr.substitute,
      resolveOperand_substitute fun i hi => h i (.inl (.inl hi)),
      resolveOperand_substitute fun i hi => h i (.inl (.inr hi)),
      resolveOperand_substitute fun i hi => h i (.inr hi)]

end Substitute

end ZeroDds.SqlFilter
