/-
The grammar of filter expressions over tokens, and the parser.
-/
import ZeroDds.Lib.Loops
import ZeroDds.SqlFilter.Parser

namespace ZeroDds.SqlFilter

variable {F : Type}

def Token.operand : Token F → Option (Operand F)
  | .strLit s => some (.literal (.string s))
  | .intLit n => some (.literal (.int n))
  | .floatLit f => some (.literal (.float f))
  | .boolLit b => some (.literal (.bool b))
  | .null => some (.literal .null)
  | .ident name => some (.field name)
  | .param i => some (.param i)
  | _ => none

inductive Comparison : List (Token F) → Expr F → Prop where
  | cmp {lhs op rhs : Token F} {l r : Operand F} {o : CmpOp} (hl : lhs.operand = some l)
      (ho : op.cmpOp = some o) (hr : rhs.operand = some r) :
      Comparison [lhs, op, rhs] (.cmp l o r)
  | between {field low high : Token F} {f l h : Operand F} (hf : field.operand = some f)
      (hl : low.operand = some l) (hh : high.operand = some h) :
      Comparison [field, .between, low, .and, high] (.between f l h false)
  | notBetween {field low high : Token F} {f l h : Operand F} (hf : field.operand = some f)
      (hl : low.operand = some l) (hh : high.operand = some h) :
      Comparison [field, .not, .between, low, .and, high] (.between f l h true)

inductive Level where
  | or
  | and
  | not
  | atom
  deriving DecidableEq, Repr

/-- The grammar, with the level of what stands behind a `NOT` left open. -/
inductive DerivesBy (negated : Level) : Level → List (Token F) → Expr F → Prop where
  | orOne {ts : List (Token F)} {e : Expr F} (h : DerivesBy negated .and ts e) :
      DerivesBy negated .or ts e
  | or {l r : List (Token F)} {a b : Expr F} (hl : DerivesBy negated .or l a)
      (hr : DerivesBy negated .and r b) : DerivesBy negated .or (l ++ .or :: r) (.or a b)
  | andOne {ts : List (Token F)} {e : Expr F} (h : DerivesBy negated .not ts e) :
      DerivesBy negated .and ts e
  | and {l r : List (Token F)} {a b : Expr F} (hl : DerivesBy negated .and l a)
      (hr : DerivesBy negated .not r b) : DerivesBy negated .and (l ++ .and :: r) (.and a b)
  | notOne {ts : List (Token F)} {e : Expr F} (h : DerivesBy negated .atom ts e) :
      DerivesBy negated .not ts e
  | not {ts : List (Token F)} {e : Expr F} (h : DerivesBy negated negated ts e) :
      DerivesBy negated .not (.not :: ts) (.not e)
  | cmp {ts : List (Token F)} {e : Expr F} (h : Comparison ts e) : DerivesBy negated .atom ts e
  | paren {ts : List (Token F)} {e : Expr F} (h : DerivesBy negated .or ts e) :
      DerivesBy negated .atom (.lParen :: (ts ++ [.rParen])) e

abbrev Derives : Level → List (Token F) → Expr F → Prop := DerivesBy .not

/-! ### What is read is in the grammar -/

variable {toks rest : List (Token F)}

theorem parseOperand_ok {o : Operand F} :
    parseOperand toks = .ok (o, rest) ↔ ∃ tok, toks = tok :: rest ∧ tok.operand = some o := by
  cases toks with
  | nil => simp [parseOperand]
  | cons tok toks =>
    have hread : parseOperand (tok :: toks) = tok.operand.elim (.error (.expectedOperand tok))
        fun o => .ok (o, toks) := by
      cases tok <;> rfl
    rw [hread]
    cases htok : tok.operand with
    | none => simp [htok]
    | some o' =>
      constructor
      · intro hok
        cases hok
        exact ⟨tok, rfl, htok⟩
      · rintro ⟨first, heq, hfirst⟩
        cases heq
        rw [htok] at hfirst
        cases hfirst
        rfl

theorem parseComparisonOp_ok {o : CmpOp} :
    parseComparisonOp toks = .ok (o, rest) ↔ ∃ tok, toks = tok :: rest ∧ tok.cmpOp = some o := by
  cases toks with
  | nil => simp [parseComparisonOp]
  | cons tok toks =>
    have hread : parseComparisonOp (tok :: toks) =
        tok.cmpOp.elim (.error (.expectedComparison (some tok))) fun o => .ok (o, toks) := by
      cases tok <;> rfl
    rw [hread]
    cases htok : tok.cmpOp with
    | none => simp [htok]
    | some o' =>
      constructor
      · intro hok
        cases hok
        exact ⟨tok, rfl, htok⟩
      · rintro ⟨first, heq, hfirst⟩
        cases heq
        rw [htok] at hfirst
        cases hfirst
        rfl

theorem map_ok {ε α β : Type} {x : Except ε α} {f : α → β} {b : β} :
    x.map f = .ok b ↔ ∃ a, x = .ok a ∧ f a = b := by
  cases x with
  | error e => simp [Except.map]
  | ok a => simp [Except.map]

theorem parseBounds_ok {field : Operand F} {negated : Bool} {e : Expr F} :
    parseBounds field negated toks = .ok (e, rest) ↔
      ∃ low high l h, toks = low :: .and :: high :: rest ∧ low.operand = some l ∧
        high.operand = some h ∧ e = .between field l h negated := by
  unfold parseBounds
  rw [bind_ok]
  constructor
  · rintro ⟨⟨l, rest₁⟩, hlow, h⟩
    obtain ⟨low, rfl, hl⟩ := parseOperand_ok.mp hlow
    simp only at h
    split at h
    · next rest₂ =>
      obtain ⟨⟨hi, rest₃⟩, hhigh, heq⟩ := map_ok.mp h
      obtain ⟨high, rfl, hh⟩ := parseOperand_ok.mp hhigh
      cases heq
      exact ⟨low, high, l, hi, rfl, hl, hh, rfl⟩
    · cases h
  · rintro ⟨low, high, l, h, rfl, hl, hh, rfl⟩
    refine ⟨(l, .and :: high :: rest), parseOperand_ok.mpr ⟨low, rfl, hl⟩, ?_⟩
    exact map_ok.mpr ⟨(h, rest), parseOperand_ok.mpr ⟨high, rfl, hh⟩, rfl⟩

theorem parseCmp_ok {e : Expr F} :
    parseCmp toks = .ok (e, rest) ↔ ∃ ts, toks = ts ++ rest ∧ Comparison ts e := by
  unfold parseCmp
  rw [bind_ok]
  constructor
  · rintro ⟨⟨l, rest₁⟩, hlhs, h⟩
    obtain ⟨lhs, rfl, hl⟩ := parseOperand_ok.mp hlhs
    simp only at h
    split at h
    · obtain ⟨low, high, l', h', rfl, hlow, hhigh, rfl⟩ := parseBounds_ok.mp h
      exact ⟨_, rfl, .notBetween hl hlow hhigh⟩
    · obtain ⟨low, high, l', h', rfl, hlow, hhigh, rfl⟩ := parseBounds_ok.mp h
      exact ⟨_, rfl, .between hl hlow hhigh⟩
    · obtain ⟨⟨o, rest₂⟩, hop, hright⟩ := bind_ok.mp h
      obtain ⟨op, rfl, ho⟩ := parseComparisonOp_ok.mp hop
      obtain ⟨⟨r, rest₃⟩, hrhs, heq⟩ := map_ok.mp hright
      obtain ⟨rhs, rfl, hr⟩ := parseOperand_ok.mp hrhs
      cases heq
      exact ⟨_, rfl, .cmp hl ho hr⟩
  · rintro ⟨ts, rfl, hcmp⟩
    cases hcmp with
    | @cmp lhs op rhs l r o hl ho hr =>
      refine ⟨(l, op :: rhs :: rest), parseOperand_ok.mpr ⟨lhs, rfl, hl⟩, ?_⟩
      have hread : (parseComparisonOp (op :: rhs :: rest)).bind (fun op =>
          (parseOperand op.2).map fun rhs => (Expr.cmp l op.1 rhs.1, rhs.2)) =
            .ok (.cmp l o r, rest) :=
        bind_ok.mpr ⟨(o, rhs :: rest), parseComparisonOp_ok.mpr ⟨op, rfl, ho⟩,
          map_ok.mpr ⟨(r, rest), parseOperand_ok.mpr ⟨rhs, rfl, hr⟩, rfl⟩⟩
      cases op <;> first | exact hread | cases ho
    | @between field low high f l h hf hl hh =>
      exact ⟨(f, .between :: low :: .and :: high :: rest), parseOperand_ok.mpr ⟨field, rfl, hf⟩,
        parseBounds_ok.mpr ⟨low, high, l, h, rfl, hl, hh, rfl⟩⟩
    | @notBetween field low high f l h hf hl hh =>
      exact ⟨(f, .not :: .between :: low :: .and :: high :: rest),
        parseOperand_ok.mpr ⟨field, rfl, hf⟩,
        parseBounds_ok.mpr ⟨low, high, l, h, rfl, hl, hh, rfl⟩⟩

def parseAt : Level → Nat → List (Token F) → Parse F (Expr F)
  | .or => parseOr
  | .and => parseAnd
  | .not => parseNot
  | .atom => parseAtom

theorem isOr_iff {tok : Token F} : tok.isOr = true ↔ tok = .or := by
  cases tok <;> simp [Token.isOr]

theorem isAnd_iff {tok : Token F} : tok.isAnd = true ↔ tok = .and := by
  cases tok <;> simp [Token.isAnd]

variable {connective : Token F → Bool} {combine : Expr F → Expr F → Expr F}
  {next : List (Token F) → Parse F (Expr F)}

theorem parseChain_sound {Row Item : List (Token F) → Expr F → Prop}
    (hitem : ∀ toks e rest, next toks = .ok (e, rest) → ∃ ts, toks = ts ++ rest ∧ Item ts e)
    (hrow : ∀ l r tok a b, connective tok = true → Row l a → Item r b →
      Row (l ++ tok :: r) (combine a b))
    {fuel : Nat} {done : List (Token F)} {left e : Expr F} (hleft : Row done left)
    (h : parseChain connective combine next fuel left toks = .ok (e, rest)) :
    ∃ ts, toks = ts ++ rest ∧ Row (done ++ ts) e := by
  have hstop : ∀ {toks}, Except.ok (left, toks) = (.ok (e, rest) : Parse F (Expr F)) →
      ∃ ts, toks = ts ++ rest ∧ Row (done ++ ts) e := by
    intro toks hok
    cases hok
    exact ⟨[], rfl, by rwa [List.append_nil]⟩
  induction fuel generalizing done toks left with
  | zero => exact hstop h
  | succ fuel ih =>
    cases toks with
    | nil => exact hstop h
    | cons tok toks =>
      unfold parseChain at h
      split at h
      · next htok =>
        obtain ⟨⟨right, rest₁⟩, hright, hchain⟩ := bind_ok.mp h
        obtain ⟨ts, rfl, hts⟩ := hitem _ _ _ hright
        have hnext := hrow _ _ _ _ _ htok hleft hts
        obtain ⟨us, rfl, hus⟩ := ih hnext hchain (by
          intro toks hok
          cases hok
          exact ⟨[], rfl, by rwa [List.append_nil]⟩)
        refine ⟨tok :: (ts ++ us), by simp, ?_⟩
        rwa [List.append_assoc, List.cons_append] at hus
      · exact hstop h

theorem parseAt_sound {n : Nat} {level : Level} {e : Expr F}
    (h : parseAt level n toks = .ok (e, rest)) :
    ∃ ts, toks = ts ++ rest ∧ Derives level ts e := by
  induction n generalizing level toks rest e with
  | zero => cases level <;> cases h
  | succ n ih =>
    cases level with
    | or =>
      obtain ⟨⟨left, rest₁⟩, hleft, hchain⟩ := bind_ok.mp h
      obtain ⟨ts, rfl, hts⟩ := ih (show parseAt .and n toks = _ from hleft)
      obtain ⟨us, rfl, hus⟩ :=
        parseChain_sound (fun toks e rest hok => ih (show parseAt .and n toks = _ from hok))
        (fun l r tok a b htok hl hr => by rw [isOr_iff.mp htok]; exact hl.or hr) hts.orOne hchain
      exact ⟨ts ++ us, by simp, hus⟩
    | and =>
      obtain ⟨⟨left, rest₁⟩, hleft, hchain⟩ := bind_ok.mp h
      obtain ⟨ts, rfl, hts⟩ := ih (show parseAt .not n toks = _ from hleft)
      obtain ⟨us, rfl, hus⟩ :=
        parseChain_sound (fun toks e rest hok => ih (show parseAt .not n toks = _ from hok))
        (fun l r tok a b htok hl hr => by rw [isAnd_iff.mp htok]; exact hl.and hr) hts.andOne hchain
      exact ⟨ts ++ us, by simp, hus⟩
    | not =>
      simp only [parseAt, parseNot] at h
      split at h
      · obtain ⟨⟨inner, rest₁⟩, hinner, heq⟩ := map_ok.mp h
        obtain ⟨ts, rfl, hts⟩ := ih (show parseAt .not n _ = _ from hinner)
        cases heq
        exact ⟨_, rfl, hts.not⟩
      · obtain ⟨ts, rfl, hts⟩ := ih (show parseAt .atom n toks = _ from h)
        exact ⟨ts, rfl, hts.notOne⟩
    | atom =>
      simp only [parseAt, parseAtom] at h
      split at h
      · obtain ⟨⟨inner, rest₁⟩, hinner, hclose⟩ := bind_ok.mp h
        obtain ⟨ts, rfl, hts⟩ := ih (show parseAt .or n _ = _ from hinner)
        simp only at hclose
        split at hclose
        · cases hclose
          exact ⟨.lParen :: (ts ++ [.rParen]), by simp, hts.paren⟩
        · cases hclose
      · obtain ⟨ts, rfl, hts⟩ := parseCmp_ok.mp h
        exact ⟨ts, rfl, .cmp hts⟩

/-! ### What is in the grammar is read -/

def EndsRow (connective : Token F → Bool) (rest : List (Token F)) : Prop :=
  rest.head?.any connective = false

theorem parseChain_ends (h : EndsRow connective rest) (fuel : Nat) (e : Expr F) :
    parseChain connective combine next fuel e rest = .ok (e, rest) := by
  cases fuel with
  | zero => rfl
  | succ fuel =>
    cases rest with
    | nil => rfl
    | cons tok rest =>
      have htok : connective tok = false := h
      unfold parseChain
      rw [htok]
      rfl

theorem parseChain_next {tok : Token F} (h : connective tok = true)
    (fuel : Nat) (e : Expr F) (toks : List (Token F)) :
    parseChain connective combine next (fuel + 1) e (tok :: toks) =
      (next toks).bind fun right =>
        parseChain connective combine next fuel (combine e right.1) right.2 := by
  rw [parseChain, h]
  rfl

section Reading

/-- `parse` reads `ts` as `e` with `m` nested calls, and with no fewer, if `Follow` holds of what
comes behind. -/
structure ReadsItem (parse : Nat → List (Token F) → Parse F (Expr F))
    (Follow : List (Token F) → Prop) (ts : List (Token F)) (e : Expr F) (m : Nat) : Prop where
  pos : 0 < m
  deep : ∀ n rest, n < m → parse n (ts ++ rest) = .error .nestedTooDeep
  reads : ∀ n rest, m ≤ n → Follow rest → parse n (ts ++ rest) = .ok (e, rest)

/-- `parse` reads the row `ts` as `e` with `m` nested calls, and with no fewer: what it answers is
what the loop over the row answers from there on. -/
structure ReadsRow (parse next : Nat → List (Token F) → Parse F (Expr F))
    (connective : Token F → Bool) (combine : Expr F → Expr F → Expr F)
    (Follow : List (Token F) → Prop) (ts : List (Token F)) (e : Expr F) (m : Nat) : Prop where
  pos : 0 < m
  deep : ∀ n rest, n < m → parse n (ts ++ rest) = .error .nestedTooDeep
  reads : ∀ n rest out, m ≤ n + 1 → Follow rest →
    (∀ fuel, rest.length ≤ fuel → parseChain connective combine (next n) fuel e rest = out) →
      parse (n + 1) (ts ++ rest) = out

variable {parse next : Nat → List (Token F) → Parse F (Expr F)} {connective : Token F → Bool}
  {combine : Expr F → Expr F → Expr F} {Follow : List (Token F) → Prop}
  {ts l r : List (Token F)} {e a b : Expr F} {m k : Nat}

theorem ReadsItem.row (h : ReadsItem next Follow ts e m)
    (hzero : ∀ toks, parse 0 toks = .error .nestedTooDeep)
    (hsucc : ∀ n toks, parse (n + 1) toks = (next n toks).bind fun left =>
      parseChain connective combine (next n) left.2.length left.1 left.2) :
    ReadsRow parse next connective combine Follow ts e (m + 1) where
  pos := Nat.succ_pos m
  deep := by
    intro n rest hn
    cases n with
    | zero => exact hzero _
    | succ n =>
      rw [hsucc, h.deep n rest (by omega)]
      rfl
  reads := by
    intro n rest out hn hfollow hout
    rw [hsucc, h.reads n rest (by omega) hfollow]
    exact hout rest.length (le_refl _)

theorem ReadsRow.extend (hl : ReadsRow parse next connective combine Follow l a m)
    (hr : ReadsItem next Follow r b k) {tok : Token F} (htok : connective tok = true)
    (hfollow : ∀ toks, Follow (tok :: toks)) :
    ReadsRow parse next connective combine Follow (l ++ tok :: r) (combine a b)
      (max m (k + 1)) where
  pos := Nat.lt_of_lt_of_le hl.pos (Nat.le_max_left _ _)
  deep := by
    intro n rest hn
    rw [List.append_assoc, List.cons_append]
    by_cases hm : n < m
    · exact hl.deep n _ hm
    · have hpos := hl.pos
      obtain ⟨n, rfl⟩ : ∃ n', n = n' + 1 := ⟨n - 1, by omega⟩
      refine hl.reads n _ _ (by omega) (hfollow _) fun fuel hfuel => ?_
      obtain ⟨fuel, rfl⟩ : ∃ f, fuel = f + 1 := ⟨fuel - 1, by
        rw [List.length_cons] at hfuel
        omega⟩
      rw [parseChain_next htok, hr.deep n rest (by omega)]
      rfl
  reads := by
    intro n rest out hn hrest hout
    rw [List.append_assoc, List.cons_append]
    refine hl.reads n _ out (by omega) (hfollow _) fun fuel hfuel => ?_
    rw [List.length_cons, List.length_append] at hfuel
    obtain ⟨fuel, rfl⟩ : ∃ f, fuel = f + 1 := ⟨fuel - 1, by omega⟩
    rw [parseChain_next htok, hr.reads n rest (by omega) hrest]
    exact hout fuel (by omega)

theorem ReadsRow.item (h : ReadsRow parse next connective combine Follow ts e m) :
    ReadsItem parse (fun rest => Follow rest ∧ EndsRow connective rest) ts e m where
  pos := h.pos
  deep := h.deep
  reads := by
    intro n rest hn hfollow
    have hpos := h.pos
    obtain ⟨n, rfl⟩ : ∃ n', n = n' + 1 := ⟨n - 1, by omega⟩
    exact h.reads n rest _ hn hfollow.1 fun fuel _ => parseChain_ends hfollow.2 fuel e

end Reading

/-- The parser of a level reads `ts` as `e` with `m` nested calls, and with no fewer. -/
def Reads : Level → List (Token F) → Expr F → Nat → Prop
  | .or => ReadsRow parseOr parseAnd Token.isOr .or fun rest => True ∧ EndsRow Token.isAnd rest
  | .and => ReadsRow parseAnd parseNot Token.isAnd .and fun _ => True
  | .not => ReadsItem parseNot fun _ => True
  | .atom => ReadsItem parseAtom fun _ => True

section Reads

variable {ts l r : List (Token F)} {e a b : Expr F} {m k : Nat}

theorem Reads.orOne (h : Reads .and ts e m) : Reads .or ts e (m + 1) :=
  ReadsItem.row (ReadsRow.item h) (fun _ => rfl) fun _ _ => rfl

theorem Reads.or (hl : Reads .or l a m) (hr : Reads .and r b k) :
    Reads .or (l ++ .or :: r) (.or a b) (max m (k + 1)) :=
  ReadsRow.extend hl (ReadsRow.item hr) rfl fun _ => ⟨trivial, rfl⟩

theorem Reads.andOne (h : Reads .not ts e m) : Reads .and ts e (m + 1) :=
  ReadsItem.row h (fun _ => rfl) fun _ _ => rfl

theorem Reads.and (hl : Reads .and l a m) (hr : Reads .not r b k) :
    Reads .and (l ++ .and :: r) (.and a b) (max m (k + 1)) :=
  ReadsRow.extend hl hr rfl fun _ => trivial

theorem Derives.atom_head (h : Derives .atom ts e) (rest : List (Token F)) (n : Nat) :
    parseNot (n + 1) (ts ++ rest) = parseAtom n (ts ++ rest) := by
  cases h with
  | cmp h =>
    cases h with
    | @cmp lhs op rhs l r o hl ho hr => cases lhs <;> first | rfl | cases hl
    | @between field low high f l h hf hl hh => cases field <;> first | rfl | cases hf
    | @notBetween field low high f l h hf hl hh => cases field <;> first | rfl | cases hf
  | paren h => rfl

theorem Reads.notOne (hatom : Derives .atom ts e) (h : Reads .atom ts e m) :
    Reads .not ts e (m + 1) where
  pos := Nat.succ_pos m
  deep := by
    intro n rest hn
    cases n with
    | zero => rfl
    | succ n =>
      rw [hatom.atom_head]
      exact h.deep n rest (by omega)
  reads := by
    intro n rest hn _
    obtain ⟨n, rfl⟩ : ∃ n', n = n' + 1 := ⟨n - 1, by omega⟩
    rw [hatom.atom_head]
    exact h.reads n rest (by omega) trivial

theorem Reads.not (h : Reads .not ts e m) : Reads .not (.not :: ts) (.not e) (m + 1) where
  pos := Nat.succ_pos m
  deep := by
    intro n rest hn
    cases n with
    | zero => rfl
    | succ n =>
      show (parseNot n (ts ++ rest)).map _ = _
      rw [h.deep n rest (by omega)]
      rfl
  reads := by
    intro n rest hn _
    obtain ⟨n, rfl⟩ : ∃ n', n = n' + 1 := ⟨n - 1, by omega⟩
    show (parseNot n (ts ++ rest)).map _ = _
    rw [h.reads n rest (by omega) trivial]
    rfl

theorem parseAtom_cmp (h : Comparison ts e) (rest : List (Token F)) (n : Nat) :
    parseAtom (n + 1) (ts ++ rest) = parseCmp (ts ++ rest) := by
  cases h with
  | @cmp lhs op rhs l r o hl ho hr => cases lhs <;> first | rfl | cases hl
  | @between field low high f l h hf hl hh => cases field <;> first | rfl | cases hf
  | @notBetween field low high f l h hf hl hh => cases field <;> first | rfl | cases hf

theorem Reads.cmp (h : Comparison ts e) : Reads .atom ts e 1 where
  pos := Nat.one_pos
  deep := by
    intro n rest hn
    obtain rfl : n = 0 := by omega
    rfl
  reads := by
    intro n rest hn _
    obtain ⟨n, rfl⟩ : ∃ n', n = n' + 1 := ⟨n - 1, by omega⟩
    rw [parseAtom_cmp h]
    exact parseCmp_ok.mpr ⟨ts, rfl, h⟩

theorem Reads.paren (h : Reads .or ts e m) :
    Reads .atom (.lParen :: (ts ++ [.rParen])) e (m + 1) where
  pos := Nat.succ_pos m
  deep := by
    intro n rest hn
    cases n with
    | zero => rfl
    | succ n =>
      show (parseOr n ((ts ++ [.rParen]) ++ rest)).bind _ = _
      rw [List.append_assoc, h.deep n _ (by omega)]
      rfl
  reads := by
    intro n rest hn _
    obtain ⟨n, rfl⟩ : ∃ n', n = n' + 1 := ⟨n - 1, by omega⟩
    show (parseOr n ((ts ++ [.rParen]) ++ rest)).bind _ = _
    have hread : parseOr n (ts ++ .rParen :: rest) = .ok (e, .rParen :: rest) :=
      (ReadsRow.item h).reads n _ (by omega) ⟨⟨trivial, rfl⟩, rfl⟩
    rw [List.append_assoc, List.singleton_append, hread]
    rfl

end Reads

def Level.below : Level → Nat
  | .or => 0
  | .and => 1
  | .not => 2
  | .atom => 3

theorem Derives.reads {level : Level} {ts : List (Token F)} {e : Expr F} (h : Derives level ts e) :
    ∃ m, Reads level ts e m ∧ m + level.below ≤ 4 * ts.length := by
  induction h with
  | orOne _ ih =>
    obtain ⟨m, hm, hroom⟩ := ih
    exact ⟨m + 1, hm.orOne, hroom⟩
  | or _ _ ihl ihr =>
    obtain ⟨m, hm, hroom⟩ := ihl
    obtain ⟨k, hk, hroom'⟩ := ihr
    refine ⟨_, hm.or hk, ?_⟩
    simp only [Level.below, List.length_append, List.length_cons] at hroom hroom' ⊢
    omega
  | andOne _ ih =>
    obtain ⟨m, hm, hroom⟩ := ih
    exact ⟨m + 1, hm.andOne, hroom⟩
  | and _ _ ihl ihr =>
    obtain ⟨m, hm, hroom⟩ := ihl
    obtain ⟨k, hk, hroom'⟩ := ihr
    refine ⟨_, hm.and hk, ?_⟩
    simp only [Level.below, List.length_append, List.length_cons] at hroom hroom' ⊢
    omega
  | notOne hatom ih =>
    obtain ⟨m, hm, hroom⟩ := ih
    exact ⟨m + 1, hm.notOne hatom, hroom⟩
  | not _ ih =>
    obtain ⟨m, hm, hroom⟩ := ih
    refine ⟨m + 1, hm.not, ?_⟩
    simp only [Level.below, List.length_cons] at hroom ⊢
    omega
  | cmp h =>
    refine ⟨1, .cmp h, ?_⟩
    cases h <;> simp [Level.below]
  | paren _ ih =>
    obtain ⟨m, hm, hroom⟩ := ih
    refine ⟨m + 1, hm.paren, ?_⟩
    simp only [Level.below, List.length_append, List.length_cons, List.length_nil] at hroom ⊢
    omega

variable {toks : List (Token F)}

theorem parseTokens_eq_ok {n : Nat} {e : Expr F} :
    parseTokens n toks = .ok e ↔ parseOr n toks = .ok (e, []) := by
  unfold parseTokens
  rw [bind_ok]
  constructor
  · rintro ⟨⟨e', rest⟩, hread, h⟩
    cases rest with
    | nil =>
      cases h
      exact hread
    | cons tok rest => cases h
  · intro h
    exact ⟨(e, []), h, rfl⟩

theorem parseTokens_ok {e : Expr F} :
    parseTokens (nestingRoom toks.length) toks = .ok e ↔ Derives .or toks e := by
  rw [parseTokens_eq_ok]
  constructor
  · intro h
    have hat : parseAt .or (nestingRoom toks.length) toks = .ok (e, []) := h
    obtain ⟨ts, hts, hderives⟩ := parseAt_sound hat
    rwa [hts, List.append_nil]
  · intro h
    obtain ⟨m, hm, hroom⟩ := h.reads
    have hread := (ReadsRow.item hm).reads (nestingRoom toks.length) [] (by
      simp only [Level.below, nestingRoom] at hroom ⊢
      omega) ⟨⟨trivial, rfl⟩, rfl⟩
    rwa [List.append_nil] at hread

end ZeroDds.SqlFilter
