/-
How deep a filter expression makes the parser and its readers recurse.
-/
import ZeroDds.Lib.Outcome
import ZeroDds.SqlFilter.Grammar

namespace ZeroDds.SqlFilter

variable {F : Type}

/-- The levels of an operand that joins the row on its left; `0` where there is none. -/
def joinLevels (left levels : Nat) : Nat := if left = 0 then levels else 1 + max left levels

/-- What is counted between two parentheses: the levels of the operands joined by `OR` and by `AND`
so far, the `NOT`s in front of what is next, and the levels of that.  Behind an operand a `NOT`
belongs to a `BETWEEN`, and so does the `AND` behind a first bound. -/
structure Frame where
  ors : Nat := 0
  ands : Nat := 0
  nots : Nat := 0
  atom : Nat := 0
  operand : Bool := false
  bound : Bool := false
  deriving DecidableEq, Repr

def Frame.andLevels (f : Frame) : Nat := joinLevels f.ands (f.nots + f.atom)

def Frame.levels (f : Frame) : Nat := joinLevels f.ors f.andLevels

/-- The parentheses that are open, what is counted in the innermost, and the most calls that were
nested so far. -/
structure Gauge where
  frames : List Frame := []
  cur : Frame := {}
  nested : Nat := 0
  deriving DecidableEq, Repr

namespace Gauge

def base (g : Gauge) : Nat :=
  4 * g.frames.length + (g.frames.map Frame.nots).sum + g.cur.nots

def compare (g : Gauge) : Gauge :=
  { g with cur := { g.cur with atom := 1 }, nested := max g.nested (g.base + 4) }

def step (g : Gauge) : Token F → Gauge
  | .lParen => { g with frames := g.cur :: g.frames, cur := {} }
  | .rParen =>
    match g.frames with
    | [] => g
    | f :: frames =>
      { g with frames := frames, cur := { f with atom := g.cur.levels, operand := true } }
  | .or => { g with cur := { ors := g.cur.levels } }
  | .and =>
    if g.cur.bound then { g with cur := { g.cur with bound := false } }
    else { g with cur := { ors := g.cur.ors, ands := g.cur.andLevels } }
  | .not =>
    if g.cur.operand then g else { g with cur := { g.cur with nots := g.cur.nots + 1 } }
  | .between => { g.compare with cur := { g.compare.cur with bound := true } }
  | .eq | .neq | .lt | .le | .gt | .ge | .like => g.compare
  | .ident _ | .strLit _ | .intLit _ | .floatLit _ | .boolLit _ | .null | .param _ =>
    { g with cur := { g.cur with operand := true } }

def run (g : Gauge) (toks : List (Token F)) : Gauge := toks.foldl step g

variable (g : Gauge)

@[simp] theorem run_nil : g.run ([] : List (Token F)) = g := rfl

@[simp] theorem run_cons (tok : Token F) (toks : List (Token F)) :
    g.run (tok :: toks) = (g.step tok).run toks := rfl

@[simp] theorem run_append (a b : List (Token F)) :
    g.run (a ++ b) = (g.run a).run b := List.foldl_append

theorem step_operand {tok : Token F} {o : Operand F} (h : tok.operand = some o) (g : Gauge) :
    g.step tok = { g with cur := { g.cur with operand := true } } := by
  cases tok <;> first | rfl | cases h

theorem step_cmpOp {tok : Token F} {o : CmpOp} (h : tok.cmpOp = some o) (g : Gauge) :
    g.step tok = g.compare := by
  cases tok <;> first | rfl | cases h

end Gauge

/-! ### The counts of the grammar -/

theorem Expr.depth_pos (e : Expr F) : 0 < e.depth := by
  cases e <;> simp only [Expr.depth] <;> omega

theorem joinLevels_depth (e : Expr F) (levels : Nat) :
    joinLevels e.depth levels = 1 + max e.depth levels := by
  rw [joinLevels, if_neg (Nat.pos_iff_ne_zero.mp e.depth_pos)]

structure Frame.Fresh (f : Frame) : Prop where
  atom : f.atom = 0
  operand : f.operand = false
  bound : f.bound = false

def Counts : Level → List (Token F) → Expr F → Nat → Prop
  | .atom, ts, e, m => ∀ g : Gauge, g.cur.Fresh →
      g.run ts = { g with cur := { g.cur with atom := e.depth, operand := true },
                          nested := max g.nested (g.base + 3 + m) }
  | .not, ts, e, m => ∀ g : Gauge, g.cur.Fresh → ∃ j d, j + d = e.depth ∧
      g.run ts = { g with cur := { g.cur with nots := g.cur.nots + j, atom := d, operand := true },
                          nested := max g.nested (g.base + 2 + m) }
  | .and, ts, e, m => ∀ g : Gauge, g.cur = { ors := g.cur.ors } → ∃ c : Frame,
      c.ors = g.cur.ors ∧ c.andLevels = e.depth ∧ c.bound = false ∧
      g.run ts = { g with cur := c, nested := max g.nested (g.base + 1 + m) }
  | .or, ts, e, m => ∀ g : Gauge, g.cur = {} → ∃ c : Frame,
      c.levels = e.depth ∧ c.bound = false ∧
      g.run ts = { g with cur := c, nested := max g.nested (g.base + m) }

section Counts

variable {ts l r : List (Token F)} {e a b : Expr F} {m k : Nat}

theorem Counts.cmp (h : Comparison ts e) : Counts .atom ts e 1 := by
  intro g hfresh
  obtain ⟨frames, cur, nested⟩ := g
  obtain ⟨ors, ands, nots, atom, operand, bound⟩ := cur
  obtain ⟨rfl, rfl, rfl⟩ := hfresh
  cases h with
  | cmp hl ho hr =>
    simp only [Gauge.run_cons, Gauge.run_nil, Gauge.step_operand hl, Gauge.step_cmpOp ho,
      Gauge.step_operand hr]
    rfl
  | between hf hl hh =>
    simp only [Gauge.run_cons, Gauge.run_nil, Gauge.step_operand hf, Gauge.step_operand hl,
      Gauge.step_operand hh]
    rfl
  | notBetween hf hl hh =>
    simp only [Gauge.run_cons, Gauge.run_nil, Gauge.step_operand hf, Gauge.step_operand hl,
      Gauge.step_operand hh]
    rfl

theorem Counts.paren (h : Counts .or ts e m) :
    Counts .atom (.lParen :: (ts ++ [.rParen])) e (m + 1) := by
  intro g hfresh
  obtain ⟨c, hlevels, _, hrun⟩ := h (g.step (.lParen : Token F)) rfl
  have hbase : (g.step (.lParen : Token F)).base = g.base + 4 := by
    simp only [Gauge.step, Gauge.base, List.length_cons, List.map_cons, List.sum_cons]
    omega
  rw [Gauge.run_cons, Gauge.run_append, hrun, hbase, ← hlevels,
    show g.base + 3 + (m + 1) = g.base + 4 + m by omega]
  rfl

theorem Counts.notOne (h : Counts .atom ts e m) : Counts .not ts e (m + 1) := by
  intro g hfresh
  refine ⟨0, e.depth, Nat.zero_add _, ?_⟩
  rw [h g hfresh, show g.base + 2 + (m + 1) = g.base + 3 + m by omega]
  rfl

theorem Counts.not (h : Counts .not ts e m) : Counts .not (.not :: ts) (.not e) (m + 1) := by
  intro g hfresh
  have hstep : g.step (.not : Token F) =
      { g with cur := { g.cur with nots := g.cur.nots + 1 } } := by
    simp only [Gauge.step, hfresh.operand]
    rfl
  obtain ⟨j, d, hdepth, hrun⟩ := h (g.step .not) (by
    rw [hstep]
    exact ⟨hfresh.atom, hfresh.operand, hfresh.bound⟩)
  have hbase : (g.step (.not : Token F)).base = g.base + 1 := by
    rw [hstep]
    rfl
  refine ⟨j + 1, d, by simp only [Expr.depth]; omega, ?_⟩
  rw [Gauge.run_cons, hrun, hbase, hstep, show g.base + 2 + (m + 1) = g.base + 1 + 2 + m by omega,
    show g.cur.nots + (j + 1) = g.cur.nots + 1 + j by omega]

theorem Counts.andOne (h : Counts .not ts e m) : Counts .and ts e (m + 1) := by
  intro g hcur
  obtain ⟨j, d, hdepth, hrun⟩ := h g (by rw [hcur]; exact ⟨rfl, rfl, rfl⟩)
  obtain ⟨frames, ⟨ors, ands, nots, atom, operand, bound⟩, nested⟩ := g
  obtain ⟨rfl, rfl, rfl, rfl, rfl⟩ := hcur
  refine ⟨{ ors := ors, nots := j, atom := d, operand := true }, rfl, hdepth, rfl, ?_⟩
  rw [hrun]
  simp only [Gauge.mk.injEq, Nat.zero_add, true_and]
  omega

theorem Counts.and (hl : Counts .and l a m) (hr : Counts .not r b k) :
    Counts .and (l ++ .and :: r) (.and a b) (max m (k + 1)) := by
  intro g hcur
  obtain ⟨c, hors, hlevels, hbound, hleft⟩ := hl g hcur
  have hstep : (g.run l).step (.and : Token F) =
      { g with cur := { ors := g.cur.ors, ands := a.depth },
               nested := max g.nested (g.base + 1 + m) } := by
    rw [hleft]
    simp only [Gauge.step, hbound, hors, hlevels]
    rfl
  obtain ⟨j, d, hdepth, hright⟩ := hr ((g.run l).step .and) (by rw [hstep]; exact ⟨rfl, rfl, rfl⟩)
  have hbase : ((g.run l).step (.and : Token F)).base = g.base := by
    rw [hstep, Gauge.base, Gauge.base, hcur]
  refine ⟨{ ors := g.cur.ors, ands := a.depth, nots := j, atom := d, operand := true }, rfl, ?_,
    rfl, ?_⟩
  · rw [Frame.andLevels, joinLevels_depth, hdepth]
    rfl
  · rw [Gauge.run_append, Gauge.run_cons, hright, hbase, hstep]
    simp only [Gauge.mk.injEq, Nat.zero_add, true_and]
    omega

theorem Counts.orOne (h : Counts .and ts e m) : Counts .or ts e (m + 1) := by
  intro g hcur
  obtain ⟨c, hors, hlevels, hbound, hrun⟩ := h g (by rw [hcur])
  refine ⟨c, ?_, hbound, ?_⟩
  · rw [Frame.levels, hors, hcur, hlevels]
    rfl
  · rw [hrun, show g.base + 1 + m = g.base + (m + 1) by omega]

theorem Counts.or (hl : Counts .or l a m) (hr : Counts .and r b k) :
    Counts .or (l ++ .or :: r) (.or a b) (max m (k + 1)) := by
  intro g hcur
  obtain ⟨c, hlevels, _, hleft⟩ := hl g hcur
  have hstep : (g.run l).step (.or : Token F) =
      { g with cur := { ors := a.depth }, nested := max g.nested (g.base + m) } := by
    rw [hleft]
    simp [Gauge.step, hlevels]
  obtain ⟨c', hors, hlevels', hbound, hright⟩ := hr ((g.run l).step .or) (by rw [hstep])
  have hbase : ((g.run l).step (.or : Token F)).base = g.base := by
    rw [hstep, Gauge.base, Gauge.base, hcur]
  refine ⟨c', ?_, hbound, ?_⟩
  · rw [Frame.levels, hors, hlevels', hstep, joinLevels_depth]
    rfl
  · rw [Gauge.run_append, Gauge.run_cons, hright, hbase, hstep]
    simp only [Gauge.mk.injEq, true_and]
    omega

end Counts

theorem Derives.counts {level : Level} {ts : List (Token F)} {e : Expr F}
    (h : Derives level ts e) : ∃ m, Reads level ts e m ∧ Counts level ts e m := by
  induction h with
  | orOne _ ih => obtain ⟨m, hm, hc⟩ := ih; exact ⟨m + 1, hm.orOne, hc.orOne⟩
  | or _ _ ihl ihr =>
    obtain ⟨m, hm, hc⟩ := ihl
    obtain ⟨k, hk, hd⟩ := ihr
    exact ⟨_, hm.or hk, hc.or hd⟩
  | andOne _ ih => obtain ⟨m, hm, hc⟩ := ih; exact ⟨m + 1, hm.andOne, hc.andOne⟩
  | and _ _ ihl ihr =>
    obtain ⟨m, hm, hc⟩ := ihl
    obtain ⟨k, hk, hd⟩ := ihr
    exact ⟨_, hm.and hk, hc.and hd⟩
  | notOne hatom ih => obtain ⟨m, hm, hc⟩ := ih; exact ⟨m + 1, hm.notOne hatom, hc.notOne⟩
  | not _ ih => obtain ⟨m, hm, hc⟩ := ih; exact ⟨m + 1, hm.not, hc.not⟩
  | cmp h => exact ⟨1, .cmp h, .cmp h⟩
  | paren _ ih => obtain ⟨m, hm, hc⟩ := ih; exact ⟨m + 1, hm.paren, hc.paren⟩

section Bounds

variable [Doubles F]

/-- The parser reads `input` with no more than `bound` of its calls inside one another. -/
def CallsWithin (F : Type) [Doubles F] (bound : Nat) (input : List Char) : Prop :=
  ∀ toks : List (Token F), tokenize input = .ok toks →
    parseTokens bound toks ≠ .error .nestedTooDeep

def gaugeOf (F : Type) [Doubles F] (input : List Char) : Gauge :=
  match tokenize (F := F) input with
  | .ok toks => ({} : Gauge).run toks
  | .error _ => {}

def connectiveLevels (F : Type) [Doubles F] (input : List Char) :
    Nat := (gaugeOf F input).cur.levels

/-- Four calls for each parenthesis around a comparison and for itself, and one for each `NOT`. -/
def nestedCalls (F : Type) [Doubles F] (input : List Char) : Nat := (gaugeOf F input).nested

theorem parse_ok {input : List Char} {e : Expr F} :
    parse input = .ok e ↔
      ∃ toks : List (Token F), tokenize input = .ok toks ∧ Derives .or toks e := by
  unfold parse
  cases htoks : tokenize (F := F) input with
  | error d => simp
  | ok toks => simp [parseTokens_ok]

/-- The tree of an accepted text, and the calls that read it, stay within bounds exactly where the
gauge does. -/
theorem shallow_iff {input : List Char} {e : Expr F} (h : parse input = .ok e) (k : Nat) :
    e.depth ≤ 64 ∧ CallsWithin F (k * 64) input ↔
      connectiveLevels F input ≤ 64 ∧ nestedCalls F input ≤ k * 64 := by
  obtain ⟨toks, htoks, hderives⟩ := parse_ok.mp h
  obtain ⟨m, hreads, hcounts⟩ := hderives.counts
  obtain ⟨c, hlevels, _, hrun⟩ := hcounts {} rfl
  have hgauge : gaugeOf F input = { cur := c, nested := m } := by
    unfold gaugeOf
    rw [htoks]
    simp only [hrun, Gauge.base]
    simp
  have hcalls : CallsWithin F (k * 64) input ↔ m ≤ k * 64 := by
    constructor
    · intro hwithin
      by_contra hdeep
      have hread := hreads.deep (k * 64) [] (by omega)
      rw [List.append_nil] at hread
      refine hwithin toks htoks ?_
      rw [parseTokens, hread]
      rfl
    · intro hm us hus
      obtain rfl : toks = us := Except.ok.inj (htoks.symm.trans hus)
      have hread := (ReadsRow.item hreads).reads (k * 64) [] hm ⟨⟨trivial, rfl⟩, rfl⟩
      rw [List.append_nil] at hread
      rw [parseTokens_eq_ok.mpr hread]
      simp
  rw [hcalls, connectiveLevels, nestedCalls, hgauge]
  simp [hlevels]

end Bounds

/-- `NOT ((a = 1 AND b < 2))` is a tree of three levels. -/
theorem shallow_in_parentheses :
    ∃ e : Expr ℚ, parse ['N', 'O', 'T', '(', '(', 'a', '=', '1', ' ', 'A', 'N', 'D', ' ', 'b', '<',
        '2', ')', ')'] = .ok e ∧ e.depth ≤ 64 ∧
      CallsWithin ℚ (1 * 64) ['N', 'O', 'T', '(', '(', 'a', '=', '1', ' ', 'A', 'N', 'D', ' ', 'b',
        '<', '2', ')', ')'] := by
  have hdepth : (parse (F := ℚ) ['N', 'O', 'T', '(', '(', 'a', '=', '1', ' ', 'A', 'N', 'D', ' ',
      'b', '<', '2', ')', ')']).toOption.map Expr.depth = some 3 := by
    decide +kernel
  obtain ⟨e, he, _⟩ := Outcome.exists_ok_of_map hdepth
  exact ⟨e, he, (shallow_iff he 1).mpr ⟨by decide +kernel, by decide +kernel⟩⟩

/-- Sixty-four `NOT`s in front of a comparison are accepted. -/
theorem sixty_five_levels :
    ∃ e : Expr ℚ, parse ((List.replicate 64 ['N', 'O', 'T', ' ']).flatten ++
        ['a', ' ', '=', ' ', '1']) = .ok e ∧ ¬ e.depth ≤ 64 := by
  have hdepth : (parse (F := ℚ) ((List.replicate 64 ['N', 'O', 'T', ' ']).flatten ++
      ['a', ' ', '=', ' ', '1'])).toOption.map Expr.depth = some 65 := by
    decide +kernel
  obtain ⟨e, he, hlevels⟩ := Outcome.exists_ok_of_map hdepth
  exact ⟨e, he, by omega⟩

end ZeroDds.SqlFilter
