/-
Which names a partition expression stands for.
-/
import ZeroDds.Lib.Glob
import ZeroDds.Lib.Utf8
import ZeroDds.Qos.Partition

namespace ZeroDds.Qos

open Glob Utf8

/-! ### Expressions over an alphabet -/

structure GlobSymbols (σ : Type) where
  star : σ
  ques : σ
  opening : σ
  closing : σ
  dash : σ
  bang : σ
  caret : σ

def byteSymbols : GlobSymbols UInt8 where
  star := '*'.toUInt8
  ques := '?'.toUInt8
  opening := '['.toUInt8
  closing := ']'.toUInt8
  dash := '-'.toUInt8
  bang := '!'.toUInt8
  caret := '^'.toUInt8

def charSymbols : GlobSymbols Char where
  star := '*'
  ques := '?'
  opening := '['
  closing := ']'
  dash := '-'
  bang := '!'
  caret := '^'

section Alphabet

variable {σ : Type} [DecidableEq σ] [LE σ] [DecidableLE σ]

def classHas (y : GlobSymbols σ) : List σ → σ → Bool
  | a :: dash :: b :: rest, ch =>
    if dash = y.dash then (decide (a ≤ ch) && decide (ch ≤ b)) || classHas y rest ch
    else decide (ch = a) || classHas y (dash :: b :: rest) ch
  | a :: rest, ch => decide (ch = a) || classHas y rest ch
  | [], _ => false

variable (y : GlobSymbols σ)

def inClass : List σ → σ → Bool
  | a :: members, ch =>
    if a = y.bang ∨ a = y.caret then !classHas y members ch else classHas y (a :: members) ch
  | [], _ => false

/-- The first item of an expression.  A class ends at the first closing bracket; without one the
expression is malformed. -/
def firstItem : List σ → Item (List σ) σ
  | [] => .done
  | b :: rest =>
    if b = y.star then .star rest
    else if b = y.ques then .one (fun _ => true) rest
    else if b = y.opening then
      match rest.findIdx? (· = y.closing) with
      | none => .broken
      | some close => .one (inClass y (rest.take close)) (rest.drop (close + 1))
    else .one (fun ch => decide (ch = b)) rest

def Stands (pattern text : List σ) : Prop :=
  InLanguage (firstItem y) pattern text

def IsLiteral (b : σ) : Prop := b ≠ y.star ∧ b ≠ y.ques ∧ b ≠ y.opening

variable {y : GlobSymbols σ} {b : σ} {rest word pattern text : List σ}

theorem firstItem_literal (h : IsLiteral y b) :
    firstItem y (b :: rest) = .one (fun ch => decide (ch = b)) rest := by
  rw [firstItem, if_neg h.1, if_neg h.2.1, if_neg h.2.2]

theorem stands_word (hword : ∀ b ∈ word, IsLiteral y b) :
    Stands y (word ++ pattern) text ↔ ∃ rest, text = word ++ rest ∧ Stands y pattern rest := by
  induction word generalizing text with
  | nil => simp
  | cons b word ih =>
    have hitem : firstItem y (b :: (word ++ pattern)) = _ :=
      firstItem_literal (hword b List.mem_cons_self)
    have ih := fun text => @ih text fun x hx => hword x (List.mem_cons_of_mem _ hx)
    rw [Stands, List.cons_append, inLanguage_one hitem]
    constructor
    · rintro ⟨a, tail, rfl, ha, htail⟩
      obtain rfl := of_decide_eq_true ha
      obtain ⟨rest, rfl, hrest⟩ := (ih tail).mp htail
      exact ⟨rest, rfl, hrest⟩
    · rintro ⟨rest, rfl, hrest⟩
      exact ⟨b, word ++ rest, rfl, decide_eq_true rfl, (ih _).mpr ⟨rest, rfl, hrest⟩⟩

theorem stands_star {stars : σ} (h : stars = y.star) :
    Stands y (stars :: pattern) text ↔
      ∃ skipped rest, text = skipped ++ rest ∧ Stands y pattern rest :=
  inLanguage_star (if_pos h)

theorem stands_nil : Stands y [] text ↔ text = [] := inLanguage_done rfl

end Alphabet

/-! ### The matcher decides the language over octets -/

theorem matchesClass_eq (members : List UInt8) (ch : UInt8) :
    matchesClass members ch = classHas byteSymbols members ch := by
  induction members, ch using matchesClass.induct with
  | case1 a dash b rest ch hdash ih =>
    have : dash = byteSymbols.dash := by simpa [byteSymbols] using hdash
    simp [matchesClass, classHas, this, ih, byteSymbols]
  | case2 a dash b rest ch hdash ih =>
    have : ¬dash = byteSymbols.dash := by simpa [byteSymbols] using hdash
    rw [matchesClass, if_neg hdash, classHas, if_neg this, ih]
    simp [beq_eq_decide]
  | case3 a rest ch hshort ih =>
    cases rest with
    | nil => simp [matchesClass, classHas, beq_eq_decide]
    | cons b rest =>
      cases rest with
      | nil => simp [matchesClass, classHas, beq_eq_decide]
      | cons c rest => exact absurd rfl (hshort b c rest)
  | case4 => rfl

theorem inClass_eq (members : List UInt8) (ch : UInt8) :
    inClass byteSymbols members ch =
      (matchesClass (classMembers members).2 ch != (classMembers members).1) := by
  cases members with
  | nil => rfl
  | cons a members =>
    by_cases hneg : a = byteSymbols.bang ∨ a = byteSymbols.caret
    · have : (a == '!'.toUInt8 || a == '^'.toUInt8) = true := by simpa [byteSymbols] using hneg
      simp [inClass, classMembers, hneg, this, matchesClass_eq]
    · have : (a == '!'.toUInt8 || a == '^'.toUInt8) = false := by
        simpa [byteSymbols] using hneg
      simp [inClass, classMembers, hneg, this, matchesClass_eq]

def GlobCursor.view (pat txt : List UInt8) (c : GlobCursor) : Cursor (List UInt8) UInt8 where
  pattern := pat.drop c.p
  text := txt.drop c.t
  saved := c.star_pat.map fun sp => (pat.drop sp, txt.drop c.star_txt)

theorem drop_of_getElem? {l : List UInt8} {i : Nat} {b : UInt8} (h : l[i]? = some b) :
    l.drop i = b :: l.drop (i + 1) := by
  obtain ⟨hlt, rfl⟩ := List.getElem?_eq_some_iff.mp h
  exact List.drop_eq_getElem_cons hlt

variable {txt : List UInt8} {pat : List UInt8}

theorem GlobCursor.resume_view {c : GlobCursor} (ht : c.t < txt.length) :
    c.resume.map (GlobCursor.view pat txt) = (c.view pat txt).resume := by
  cases hstar : c.star_pat with
  | none => simp [resume, Cursor.resume, view, hstar]
  | some sp =>
    have hlt : c.star_txt < txt.length := lt_of_le_of_lt c.star_le ht
    have hdrop : txt.drop c.star_txt = txt[c.star_txt] :: txt.drop (c.star_txt + 1) :=
      List.drop_eq_getElem_cons hlt
    have hsaved : (c.view pat txt).saved =
        some (pat.drop sp, txt[c.star_txt] :: txt.drop (c.star_txt + 1)) := by
      rw [← hdrop, view, hstar, Option.map_some]
    simp only [resume, hstar, Option.map_some, Cursor.resume, hsaved]
    rfl

section Turns

variable {pat : List UInt8} {ch b : UInt8} {c : GlobCursor}

section

variable (hb : pat[c.p]? = some b)
include hb

theorem GlobCursor.step_star (h : b = byteSymbols.star) :
    c.step pat ch = some c.passStar := by
  have : (b == '*'.toUInt8) = true := by simpa [byteSymbols] using h
  simp [step, hb, this]

theorem GlobCursor.step_ques (h : b = byteSymbols.ques) :
    c.step pat ch = some (c.advance 1) := by
  subst h
  simp only [step, hb]
  rfl

theorem GlobCursor.step_class (h : b = byteSymbols.opening) :
    c.step pat ch =
      match (pat.drop (c.p + 1)).findIdx? (· = byteSymbols.closing) with
      | none => none
      | some close =>
        if inClass byteSymbols ((pat.drop (c.p + 1)).take close) ch then
          some (c.advance (close + 2))
        else c.resume := by
  have hclosing : (fun x : UInt8 => x == ']'.toUInt8) =
      fun x => decide (x = byteSymbols.closing) := by
    funext x
    exact beq_eq_decide x _
  subst h
  simp only [step, hb, inClass_eq, hclosing]
  rw [if_neg (by decide), if_neg (by decide), if_pos (by decide)]
  cases hclose : (pat.drop (c.p + 1)).findIdx? (fun x => decide (x = byteSymbols.closing)) with
  | none => rfl
  | some close =>
    simp

theorem GlobCursor.step_literal (hstar : ¬b = byteSymbols.star)
    (hques : ¬b = byteSymbols.ques) (hopen : ¬b = byteSymbols.opening) :
    c.step pat ch = if b = ch then some (c.advance 1) else c.resume := by
  have hstar : (b == '*'.toUInt8) = false := by simpa [byteSymbols] using hstar
  have hques : (b == '?'.toUInt8) = false := by simpa [byteSymbols] using hques
  have hopen : (b == '['.toUInt8) = false := by simpa [byteSymbols] using hopen
  simp [step, hb, hstar, hques, hopen]

end

end Turns

theorem GlobCursor.step_view {c : GlobCursor} {ch : UInt8} (ht : txt[c.t]? = some ch) :
    (c.step pat ch).map (GlobCursor.view pat txt) =
      (c.view pat txt).step (firstItem byteSymbols) := by
  have hresume : c.resume.map (GlobCursor.view pat txt) = _ :=
    c.resume_view (List.getElem?_eq_some_iff.mp ht).1
  have htext : (c.view pat txt).text = ch :: txt.drop (c.t + 1) := drop_of_getElem? ht
  unfold Cursor.step
  rw [htext]
  cases hb : pat[c.p]? with
  | none =>
    have hpat : (c.view pat txt).pattern = [] := List.drop_eq_nil_of_le
      (List.getElem?_eq_none_iff.mp hb)
    simp only [step, hb, hpat, firstItem]
    exact hresume
  | some b =>
    have hpat : (c.view pat txt).pattern = b :: pat.drop (c.p + 1) := drop_of_getElem? hb
    rw [hpat]
    by_cases hstar : b = byteSymbols.star
    · have hitem : firstItem byteSymbols (b :: pat.drop (c.p + 1)) = .star (pat.drop (c.p + 1)) :=
        if_pos hstar
      rw [step_star hb hstar, hitem]
      simp only [Option.map_some]
      rw [← htext]
      rfl
    · by_cases hques : b = byteSymbols.ques
      · have hitem : firstItem byteSymbols (b :: pat.drop (c.p + 1)) =
            .one (fun _ => true) (pat.drop (c.p + 1)) := (if_neg hstar).trans (if_pos hques)
        rw [step_ques hb hques, hitem]
        rfl
      · by_cases hopen : b = byteSymbols.opening
        · rw [step_class hb hopen]
          cases hclose : (pat.drop (c.p + 1)).findIdx?
              (fun x => decide (x = byteSymbols.closing)) with
          | none =>
            have hitem : firstItem byteSymbols (b :: pat.drop (c.p + 1)) = .broken := by
              rw [firstItem, if_neg hstar, if_neg hques, if_pos hopen, hclose]
            rw [hitem]
            rfl
          | some close =>
            have hitem : firstItem byteSymbols (b :: pat.drop (c.p + 1)) =
                .one (inClass byteSymbols ((pat.drop (c.p + 1)).take close))
                  (pat.drop (c.p + (close + 2))) := by
              rw [firstItem, if_neg hstar, if_neg hques, if_pos hopen, hclose]
              simp only [List.drop_drop]
              congr 2
              omega
            rw [hitem]
            simp only
            by_cases hch : inClass byteSymbols ((pat.drop (c.p + 1)).take close) ch = true
            · rw [if_pos hch, if_pos hch]
              rfl
            · rw [if_neg hch, if_neg hch]
              exact hresume
        · have hitem : firstItem byteSymbols (b :: pat.drop (c.p + 1)) =
              .one (fun ch => decide (ch = b)) (pat.drop (c.p + 1)) :=
            (if_neg hstar).trans ((if_neg hques).trans (if_neg hopen))
          rw [step_literal hb hstar hques hopen, hitem]
          by_cases hch : ch = b
          · simp only [hch, if_true, decide_true]
            rfl
          · have : ¬b = ch := fun h => hch h.symm
            simp only [this, hch, decide_false, if_false, Bool.false_eq_true]
            exact hresume

theorem inLanguage_nil_iff (pat : List UInt8) :
    Stands byteSymbols pat [] ↔ (pat.dropWhile (· == '*'.toUInt8)).isEmpty = true := by
  induction pat with
  | nil => exact iff_of_true (.done rfl) rfl
  | cons b rest ih =>
    by_cases hstar : b = byteSymbols.star
    · have hb : (b == '*'.toUInt8) = true := by simpa [byteSymbols] using hstar
      have hitem : firstItem byteSymbols (b :: rest) = .star rest := if_pos hstar
      rw [List.dropWhile_cons, if_pos hb, ← ih, Stands, inLanguage_star hitem]
      constructor
      · rintro ⟨skipped, tail, hsplit, h⟩
        obtain ⟨-, rfl⟩ := List.append_eq_nil_iff.mp hsplit.symm
        exact h
      · exact fun h => ⟨[], [], rfl, h⟩
    · have hb : ¬(b == '*'.toUInt8) = true := by simpa [byteSymbols] using hstar
      rw [List.dropWhile_cons, if_neg hb]
      refine iff_of_false ?_ (by simp)
      intro h
      generalize hnil : ([] : List UInt8) = txt at h
      cases h with
      | done hnext =>
        rw [firstItem, if_neg hstar] at hnext
        split at hnext
        · cases hnext
        · split at hnext
          · split at hnext <;> cases hnext
          · cases hnext
      | star skipped hnext =>
        rw [firstItem, if_neg hstar] at hnext
        split at hnext
        · cases hnext
        · split at hnext
          · split at hnext <;> cases hnext
          · cases hnext
      | one => cases hnil

theorem fnmatchFrom_iff (pat txt : List UInt8) (c : GlobCursor)
    (hc : (c.view pat txt).Tracked (firstItem byteSymbols)) :
    fnmatchFrom pat txt c = true ↔ (c.view pat txt).Viable (firstItem byteSymbols) := by
  fun_induction fnmatchFrom pat txt c with
  | case1 c ht =>
    have htext : (c.view pat txt).text = [] :=
      List.drop_eq_nil_of_le (List.getElem?_eq_none_iff.mp ht)
    rw [Cursor.viable_of_text_nil hc htext, ← inLanguage_nil_iff]
    rfl
  | case2 c ch ht hs =>
    have htext : (c.view pat txt).text ≠ [] := by
      rw [show (c.view pat txt).text = ch :: txt.drop (c.t + 1) from drop_of_getElem? ht]
      exact List.cons_ne_nil _ _
    have hnone : (c.view pat txt).step (firstItem byteSymbols) = none := by
      rw [← GlobCursor.step_view ht, hs, Option.map_none]
    rw [(Cursor.step_viable hc htext).1, hnone]
    simp
  | case3 c ch ht c' hs ih =>
    have htext : (c.view pat txt).text ≠ [] := by
      rw [show (c.view pat txt).text = ch :: txt.drop (c.t + 1) from drop_of_getElem? ht]
      exact List.cons_ne_nil _ _
    have hstep : (c.view pat txt).step (firstItem byteSymbols) = some (c'.view pat txt) := by
      rw [← GlobCursor.step_view ht, hs, Option.map_some]
    obtain ⟨hviable, htracked⟩ := Cursor.step_viable hc htext
    rw [ih (htracked _ hstep), hviable]
    constructor
    · exact fun h => ⟨_, hstep, h⟩
    · rintro ⟨d, hd, h⟩
      rw [hstep] at hd
      cases hd
      exact h

theorem fnmatchBytes_iff (pat txt : List UInt8) :
    fnmatchBytes pat txt = true ↔ Stands byteSymbols pat txt := by
  have hstart : GlobCursor.start.view pat txt = ⟨pat, txt, none⟩ := rfl
  rw [fnmatchBytes, fnmatchFrom_iff pat txt .start (hstart ▸ Cursor.tracked_start pat txt),
    hstart, Cursor.viable_start]
  rfl

/-! ### The language over characters -/

theorem isAscii_of_charSymbols :
    IsAscii charSymbols.star ∧ IsAscii charSymbols.ques ∧ IsAscii charSymbols.opening ∧
      IsAscii charSymbols.closing ∧ IsAscii charSymbols.dash ∧ IsAscii charSymbols.bang ∧
      IsAscii charSymbols.caret := by
  decide

variable {c : Char}

theorem isLiteral_octet (h : IsLiteral charSymbols c) :
    ∀ b ∈ String.utf8EncodeChar c, IsLiteral byteSymbols b := by
  intro b hb
  obtain ⟨hstar, hques, hopening, -⟩ := isAscii_of_charSymbols
  by_cases hc : IsAscii c
  · rw [encode_ascii hc, List.mem_singleton] at hb
    subst hb
    exact ⟨fun heq => h.1 ((toUInt8_inj hc hstar).mp heq),
      fun heq => h.2.1 ((toUInt8_inj hc hques).mp heq),
      fun heq => h.2.2 ((toUInt8_inj hc hopening).mp heq)⟩
  · have hle := encode_not_ascii hc b hb
    refine ⟨?_, ?_, ?_⟩
    · rintro rfl
      exact absurd hle (by decide)
    · rintro rfl
      exact absurd hle (by decide)
    · rintro rfl
      exact absurd hle (by decide)

theorem stands_octets_literal {p : List Char} (h : IsLiteral charSymbols c) :
    Stands byteSymbols (octets (c :: p)) txt ↔
      ∃ rest, txt = String.utf8EncodeChar c ++ rest ∧ Stands byteSymbols (octets p) rest :=
  stands_word (isLiteral_octet h)

theorem stands_octets_star {p : List Char} :
    Stands byteSymbols (octets ('*' :: p)) txt ↔
      ∃ skipped rest, txt = skipped ++ rest ∧ Stands byteSymbols (octets p) rest :=
  stands_star rfl

/-! ### Classes of ASCII characters -/

variable {a : Char} {members : List Char}

theorem classHas_toUInt8 (hmembers : ∀ c ∈ members, IsAscii c) (ha : IsAscii a) :
    classHas byteSymbols (members.map Char.toUInt8) a.toUInt8 =
      classHas charSymbols members a := by
  have hdash : IsAscii '-' := by decide
  induction members, a using classHas.induct charSymbols with
  | case1 first last rest a ih =>
    have hfirst := hmembers first (by simp)
    have hlast := hmembers last (by simp)
    have ih := ih (fun c hc => hmembers c (by simp [hc])) ha
    rw [classHas, if_pos rfl, List.map_cons, List.map_cons, List.map_cons, classHas,
      if_pos (show charSymbols.dash.toUInt8 = byteSymbols.dash from rfl), ih,
      decide_eq_decide.mpr (toUInt8_le hfirst ha), decide_eq_decide.mpr (toUInt8_le ha hlast)]
  | case2 first dash last rest a hne ih =>
    have hfirst := hmembers first (by simp)
    have hne' : ¬dash.toUInt8 = byteSymbols.dash := fun h =>
      hne ((toUInt8_inj (hmembers dash (by simp)) hdash).mp h)
    have ih := ih (fun c hc => hmembers c (List.mem_cons_of_mem _ hc)) ha
    rw [classHas, if_neg hne, ← ih, List.map_cons, List.map_cons, List.map_cons, classHas,
      if_neg hne', decide_eq_decide.mpr (toUInt8_inj ha hfirst)]
  | case3 first rest a hshort ih =>
    have hfirst := hmembers first (by simp)
    cases rest with
    | nil => simp [classHas, toUInt8_inj ha hfirst]
    | cons second rest =>
      cases rest with
      | nil =>
        have hsecond := hmembers second (by simp)
        simp [classHas, toUInt8_inj ha hfirst, toUInt8_inj ha hsecond]
      | cons third rest => exact absurd rfl (hshort second third rest)
  | case4 a => rfl

theorem inClass_toUInt8 (hmembers : ∀ c ∈ members, IsAscii c) (ha : IsAscii a) :
    inClass byteSymbols (members.map Char.toUInt8) a.toUInt8 = inClass charSymbols members a := by
  obtain ⟨-, -, -, -, -, hbang, hcaret⟩ := isAscii_of_charSymbols
  cases members with
  | nil => rfl
  | cons first members =>
    have hfirst := hmembers first List.mem_cons_self
    have hneg : (first.toUInt8 = byteSymbols.bang ∨ first.toUInt8 = byteSymbols.caret) ↔
        (first = charSymbols.bang ∨ first = charSymbols.caret) :=
      or_congr (toUInt8_inj hfirst hbang) (toUInt8_inj hfirst hcaret)
    have htail := fun c hc => hmembers c (List.mem_cons_of_mem _ hc)
    rw [List.map_cons]
    by_cases h : first = charSymbols.bang ∨ first = charSymbols.caret
    · rw [inClass, inClass, if_pos h, if_pos (hneg.mpr h), classHas_toUInt8 htail ha]
    · rw [inClass, inClass, if_neg h, if_neg (fun hb => h (hneg.mp hb)), ← List.map_cons,
        classHas_toUInt8 hmembers ha]

def IsNegated (members : List Char) : Prop := members.head? = some '!' ∨ members.head? = some '^'

theorem inClass_of_not_negated (h : ¬IsNegated members) (a : Char) :
    inClass charSymbols members a = classHas charSymbols members a := by
  cases members with
  | nil => rfl
  | cons first members =>
    have : ¬(first = charSymbols.bang ∨ first = charSymbols.caret) := by
      intro hfirst
      apply h
      rcases hfirst with rfl | rfl
      · exact .inl rfl
      · exact .inr rfl
    rw [inClass, if_neg this]

theorem inClass_octet_of_not_negated (hmembers : ∀ c ∈ members, IsAscii c)
    (h : ¬IsNegated members) (b : UInt8) :
    inClass byteSymbols (members.map Char.toUInt8) b =
      classHas byteSymbols (members.map Char.toUInt8) b := by
  obtain ⟨-, -, -, -, -, hbang, hcaret⟩ := isAscii_of_charSymbols
  cases members with
  | nil => rfl
  | cons first members =>
    have hfirst := hmembers first List.mem_cons_self
    have : ¬(first.toUInt8 = byteSymbols.bang ∨ first.toUInt8 = byteSymbols.caret) := by
      intro hneg
      apply h
      rcases hneg with hneg | hneg
      · exact .inl (congrArg some ((toUInt8_inj hfirst hbang).mp hneg))
      · exact .inr (congrArg some ((toUInt8_inj hfirst hcaret).mp hneg))
    rw [List.map_cons, inClass, if_neg this]

variable {σ : Type} {y : GlobSymbols σ}

theorem classHas_above [DecidableEq σ] [LE σ] [DecidableLE σ] {members : List σ} {x : σ}
    (h : ∀ a ∈ members, ¬x ≤ a ∧ x ≠ a) : classHas y members x = false := by
  induction members, x using classHas.induct y with
  | case1 first last rest x ih =>
    have hlast := (h last (by simp)).1
    rw [classHas, if_pos rfl, decide_eq_false hlast, ih fun a ha => h a (by simp [ha]),
      Bool.and_false, Bool.or_false]
  | case2 first dash last rest x hne ih =>
    have hfirst := (h first (by simp)).2
    rw [classHas, if_neg hne, decide_eq_false hfirst,
      ih fun a ha => h a (List.mem_cons_of_mem _ ha), Bool.or_false]
  | case3 first rest x hshort ih =>
    have hfirst := (h first (by simp)).2
    rw [classHas, decide_eq_false hfirst, ih fun a ha => h a (List.mem_cons_of_mem _ ha),
      Bool.or_false]
    exact hshort
  | case4 x => rfl

/-! ### Expressions that never take a part of a character -/

/-- What stands first in the expression takes no part of the character `c`: a `?` or a negated
class only meets an ASCII character, and a class lists ASCII characters only. -/
def TakesWhole (p : List Char) (c : Char) : Prop :=
  (p.head? = some '?' → IsAscii c) ∧
    ∀ members rest, p = '[' :: (members ++ ']' :: rest) → ']' ∉ members →
      (∀ a ∈ members, IsAscii a) ∧ (IsNegated members → IsAscii c)

/-- No item of the expression is tried at a character of which it would take a part. -/
def Careful (p t : List Char) : Prop :=
  ∀ p' c t', Tries (firstItem charSymbols) p t p' (c :: t') → TakesWhole p' c

variable {p members : List Char}

theorem mem_octets_ascii {cs : List Char} (hc : IsAscii c) (h : c.toUInt8 ∈ octets cs) :
    c ∈ cs := by
  obtain ⟨d, hd, hb⟩ := List.mem_flatMap.mp h
  by_cases hascii : IsAscii d
  · rw [encode_ascii hascii, List.mem_singleton, toUInt8_inj hc hascii] at hb
    exact hb ▸ hd
  · have hle := encode_not_ascii hascii _ hb
    exact absurd (toUInt8_lt hc) (UInt8.not_lt.mpr hle)

theorem firstItem_unterminated (h : ']' ∉ p) : firstItem charSymbols ('[' :: p) = .broken := by
  have hnone : p.findIdx? (· = charSymbols.closing) = none := by
    rw [List.findIdx?_eq_none_iff]
    intro c hc
    refine decide_eq_false ?_
    rintro rfl
    exact h hc
  rw [firstItem, if_neg (by decide), if_neg (by decide), if_pos (by decide), hnone]

theorem firstItem_octets_unterminated (h : ']' ∉ p) :
    firstItem byteSymbols (octets ('[' :: p)) = .broken := by
  have hnone : (octets p).findIdx? (· = byteSymbols.closing) = none := by
    rw [List.findIdx?_eq_none_iff]
    intro b hb
    refine decide_eq_false ?_
    rintro rfl
    exact h (mem_octets_ascii (by decide) hb)
  have hoctets : octets ('[' :: p) = byteSymbols.opening :: octets p := rfl
  rw [hoctets, firstItem, if_neg (by decide), if_neg (by decide), if_pos rfl, hnone]

theorem findIdx?_append_cons [DecidableEq σ] {front rest : List σ} {a : σ}
    (h : ∀ x ∈ front, x ≠ a) : (front ++ a :: rest).findIdx? (· = a) = some front.length := by
  rw [List.findIdx?_append, List.findIdx?_eq_none_iff.mpr fun x hx => decide_eq_false (h x hx)]
  simp [List.findIdx?_cons]

theorem firstItem_class (hmembers : ']' ∉ members) :
    firstItem charSymbols ('[' :: (members ++ ']' :: p)) =
      .one (inClass charSymbols members) p := by
  have hclose : (members ++ ']' :: p).findIdx? (· = charSymbols.closing) =
      some members.length := by
    apply findIdx?_append_cons
    rintro x hx rfl
    exact hmembers hx
  rw [firstItem, if_neg (by decide), if_neg (by decide), if_pos (by decide), hclose]
  simp

theorem firstItem_octets_class (hmembers : ']' ∉ members) (hascii : ∀ c ∈ members, IsAscii c) :
    firstItem byteSymbols (octets ('[' :: (members ++ ']' :: p))) =
      .one (inClass byteSymbols (members.map Char.toUInt8)) (octets p) := by
  have hoctets : octets ('[' :: (members ++ ']' :: p)) =
      byteSymbols.opening :: (members.map Char.toUInt8 ++ byteSymbols.closing :: octets p) := by
    rw [← octets_ascii hascii, octets_cons, octets_append, octets_cons]
    rfl
  have hclose : (members.map Char.toUInt8 ++ byteSymbols.closing :: octets p).findIdx?
      (· = byteSymbols.closing) = some (members.map Char.toUInt8).length := by
    apply findIdx?_append_cons
    intro b hb
    obtain ⟨c, hc, rfl⟩ := List.mem_map.mp hb
    intro heq
    exact hmembers ((toUInt8_inj (hascii c hc) (by decide)).mp heq ▸ hc)
  rw [hoctets, firstItem, if_neg (by decide), if_neg (by decide), if_pos rfl, hclose]
  simp only [List.take_left, ← List.drop_drop, List.drop_left, List.drop_succ_cons, List.drop_zero]

theorem not_stands_nil [DecidableEq σ] [LE σ] [DecidableLE σ] {b : σ} {rest : List σ}
    (hstar : b ≠ y.star) : ¬ Stands y (b :: rest) [] := by
  intro h
  cases hitem : firstItem y (b :: rest) with
  | one f q =>
    obtain ⟨_, _, heq, -⟩ := (inLanguage_one hitem).mp h
    cases heq
  | broken => exact not_inLanguage_broken hitem h
  | done | star q =>
    rw [firstItem, if_neg hstar] at hitem
    split_ifs at hitem
    split at hitem <;> cases hitem

/-- An item over characters and the same item over octets, tried at `c`.  It takes no octet of
a longer character. -/
structure SameItem (c : Char) (f : UInt8 → Bool) (g : Char → Bool) : Prop where
  ascii : IsAscii c → f c.toUInt8 = g c
  octet : ¬IsAscii c → ∀ b, 128 ≤ b → f b = false
  wide : ¬IsAscii c → g c = false

theorem class_octet (hmembers : ∀ c ∈ members, IsAscii c) (hneg : ¬IsNegated members) {b : UInt8}
    (hb : 128 ≤ b) : inClass byteSymbols (members.map Char.toUInt8) b = false := by
  rw [inClass_octet_of_not_negated hmembers hneg]
  apply classHas_above
  intro a ha
  obtain ⟨c, hc, rfl⟩ := List.mem_map.mp ha
  have hlt := UInt8.lt_of_lt_of_le (toUInt8_lt (hmembers c hc)) hb
  exact ⟨UInt8.not_le.mpr hlt, fun h => UInt8.lt_irrefl _ (h ▸ hlt)⟩

theorem sameItem_class (hmembers : ∀ c ∈ members, IsAscii c)
    (hneg : IsNegated members → IsAscii c) :
    SameItem c (inClass byteSymbols (members.map Char.toUInt8))
      (inClass charSymbols members) where
  ascii hc := inClass_toUInt8 hmembers hc
  octet hwide b hb := class_octet hmembers (mt hneg hwide) hb
  wide hwide := by
    rw [inClass_of_not_negated (mt hneg hwide)]
    apply classHas_above
    intro a ha
    have hlt : a < c := Char.lt_def.mpr
      (UInt32.lt_of_le_of_lt (hmembers a ha) (UInt32.not_le.mp hwide))
    exact ⟨Char.not_le.mpr hlt, fun h => Char.lt_irrefl _ (h ▸ hlt)⟩

variable {rest t : List Char} {r : List UInt8}

theorem stands_octets_one {f : UInt8 → Bool} {g : Char → Bool}
    (hp : firstItem byteSymbols (octets p) = .one f (octets rest))
    (hq : firstItem charSymbols p = .one g rest) (hfg : SameItem c f g)
    (ih : g c = true → (Stands byteSymbols (octets rest) (octets t) ↔ Stands charSymbols rest t)) :
    Stands byteSymbols (octets p) (octets (c :: t)) ↔ Stands charSymbols p (c :: t) := by
  by_cases hc : IsAscii c
  · rw [octets_cons, encode_ascii hc, List.singleton_append, Stands, Stands,
      inLanguage_one_cons hp, inLanguage_one_cons hq, hfg.ascii hc]
    exact and_congr_right ih
  · obtain ⟨b, tail, hb⟩ := List.exists_cons_of_ne_nil (@String.utf8EncodeChar_ne_nil c)
    have hle := encode_not_ascii hc b (hb ▸ List.mem_cons_self)
    rw [octets_cons, hb, List.cons_append, Stands, Stands, inLanguage_one_cons hp,
      inLanguage_one_cons hq, hfg.octet hc b hle, hfg.wide hc]
    exact iff_of_false (fun h => nomatch h.1) (fun h => nomatch h.1)

theorem careful_star (h : Careful ('*' :: p) t) {t' : List Char} (ht' : t' <:+ t) :
    Careful p t' :=
  fun p' c rest htries => h p' c rest (.star rfl ht' htries)

theorem careful_nil (p : List Char) : Careful p [] := by
  intro p' c t' h
  cases List.suffix_nil.mp h.suffix

theorem careful_cons {g : Char → Bool} (hp : firstItem charSymbols p = .one g rest) :
    Careful p (c :: t) ↔ TakesWhole p c ∧ (g c = true → Careful rest t) := by
  constructor
  · intro h
    exact ⟨h p c t .here, fun hc p' d t' htries => h p' d t' (.one hp hc htries)⟩
  · rintro ⟨htakes, hrest⟩ p' d t' htries
    cases htries with
    | here => exact htakes
    | star hstar _ _ => rw [hp] at hstar; cases hstar
    | one hone hc htries =>
      rw [hp] at hone
      cases hone
      exact hrest hc p' d t' htries

theorem exists_text_of_first (hr : r <:+ octets t)
    (hr' : ∃ b tail, r = b :: tail ∧ b.IsUTF8FirstByte) :
    ∃ t', t' <:+ t ∧ r = octets t' := by
  obtain ⟨b, tail, rfl, hfirst⟩ := hr'
  exact octets_suffix hfirst hr

theorem exists_text_of_ascii (ht : ∀ c ∈ t, IsAscii c) (hr : r <:+ octets t) :
    ∃ t', t' <:+ t ∧ r = octets t' := by
  obtain ⟨front, heq⟩ := hr
  obtain ⟨front', t', rfl, -, rfl⟩ :=
    List.map_eq_append_iff.mp ((octets_ascii ht).symm.trans heq.symm)
  exact ⟨t', List.suffix_append _ _,
    (octets_ascii fun c hc => ht c (List.mem_append_right _ hc)).symm⟩

/-- What stands first behind a star meets every character of the text. -/
theorem takesWhole_of_mem (hp : ∀ t', t' <:+ t → Careful p t') (hc : c ∈ t) : TakesWhole p c := by
  obtain ⟨front, back, rfl⟩ := List.append_of_mem hc
  exact hp _ (List.suffix_append _ _) p c back .here

theorem boundary_of_item {d : Char} (hstar : d ≠ '*') (hp : ∀ t', t' <:+ t → Careful (d :: p) t')
    (hr : r <:+ octets t) (h : Stands byteSymbols (octets (d :: p)) r) :
    ∃ t', t' <:+ t ∧ r = octets t' := by
  by_cases hques : d = '?'
  · exact exists_text_of_ascii (fun c hc => (takesWhole_of_mem hp hc).1 (congrArg some hques)) hr
  by_cases hopening : d = '['
  · subst hopening
    by_cases hclose : ']' ∈ p
    · obtain ⟨members, rest, rfl, hmembers⟩ := List.eq_append_cons_of_mem hclose
      cases t with
      | nil => exact ⟨[], List.nil_suffix, List.suffix_nil.mp hr⟩
      | cons c t =>
        have htakes := fun d hd => (takesWhole_of_mem (c := d) hp hd).2 members rest rfl hmembers
        have hascii := (htakes c List.mem_cons_self).1
        by_cases hneg : IsNegated members
        · exact exists_text_of_ascii (fun d hd => (htakes d hd).2 hneg) hr
        · obtain ⟨b, tail, rfl, hb, -⟩ :=
            (inLanguage_one (firstItem_octets_class hmembers hascii)).mp h
          refine exists_text_of_first hr ⟨b, tail, rfl, isUTF8FirstByte_of_lt ?_⟩
          rw [← UInt8.not_le]
          intro hle
          rw [class_octet hascii hneg hle] at hb
          cases hb
    · exact absurd h (not_inLanguage_broken (firstItem_octets_unterminated hclose))
  · obtain ⟨rest, rfl, -⟩ := (stands_octets_literal ⟨hstar, hques, hopening⟩).mp h
    obtain ⟨b, tail, hb, hfirst⟩ := exists_first_octet d
    exact exists_text_of_first hr ⟨b, tail ++ rest, by rw [hb, List.cons_append], hfirst⟩

/-- What is left of the name behind a star begins at a character. -/
theorem stands_at_boundary (hp : ∀ t', t' <:+ t → Careful p t') (hr : r <:+ octets t)
    (h : Stands byteSymbols (octets p) r) :
    ∃ t', t' <:+ t ∧ Stands byteSymbols (octets p) (octets t') := by
  induction p generalizing r with
  | nil => exact ⟨[], List.nil_suffix, stands_nil.mpr rfl⟩
  | cons d p ih =>
    by_cases hstar : d = '*'
    · subst hstar
      obtain ⟨skipped, rest, rfl, hrest⟩ := stands_octets_star.mp h
      obtain ⟨t', ht', hstands⟩ :=
        ih (fun t' ht' => careful_star (hp t' ht') List.suffix_rfl)
          ((List.suffix_append skipped rest).trans hr) hrest
      exact ⟨t', ht', stands_octets_star.mpr ⟨[], octets t', rfl, hstands⟩⟩
    · obtain ⟨t', ht', rfl⟩ := boundary_of_item hstar hp hr h
      exact ⟨t', ht', h⟩

theorem stands_octets_of_careful (h : Careful p t) :
    Stands byteSymbols (octets p) (octets t) ↔ Stands charSymbols p t := by
  induction hn : p.length using Nat.strong_induction_on generalizing p t with
  | _ n ih =>
  cases p with
  | nil =>
    rw [octets_nil, stands_nil, stands_nil]
    constructor
    · intro h
      cases t with
      | nil => rfl
      | cons c t => exact absurd (List.append_eq_nil_iff.mp h).1 String.utf8EncodeChar_ne_nil
    · rintro rfl
      rfl
  | cons d p =>
    have ih {q t} (hlen : q.length ≤ p.length) (hq : Careful q t) :=
      ih q.length (by rw [← hn]; exact Nat.lt_succ_of_le hlen) hq rfl
    by_cases hstar : d = '*'
    · subst hstar
      rw [stands_octets_star, stands_star (show '*' = charSymbols.star from rfl)]
      constructor
      · rintro ⟨skipped, rest, hsplit, hrest⟩
        obtain ⟨t', ⟨front, rfl⟩, hstands⟩ :=
          stands_at_boundary (fun t' ht' => careful_star h ht') ⟨skipped, hsplit.symm⟩ hrest
        exact ⟨front, t', rfl, (ih le_rfl (careful_star h ⟨front, rfl⟩)).mp hstands⟩
      · rintro ⟨front, t', rfl, hstands⟩
        exact ⟨octets front, octets t', octets_append _ _,
          (ih le_rfl (careful_star h ⟨front, rfl⟩)).mpr hstands⟩
    by_cases hques : d = '?'
    · subst hques
      cases t with
      | nil => exact iff_of_false (not_stands_nil (by decide)) (not_stands_nil (by decide))
      | cons c t =>
        obtain ⟨htakes, hrest⟩ := (careful_cons rfl).mp h
        have hc : IsAscii c := htakes.1 rfl
        exact stands_octets_one rfl rfl
          ⟨fun _ => rfl, fun hwide => absurd hc hwide, fun hwide => absurd hc hwide⟩
          fun hg => ih le_rfl (hrest hg)
    by_cases hopening : d = '['
    · subst hopening
      by_cases hclose : ']' ∈ p
      · obtain ⟨members, rest, rfl, hmembers⟩ := List.eq_append_cons_of_mem hclose
        cases t with
        | nil => exact iff_of_false (not_stands_nil (by decide)) (not_stands_nil (by decide))
        | cons c t =>
          obtain ⟨htakes, hrest⟩ := (careful_cons (firstItem_class hmembers)).mp h
          obtain ⟨hascii, hneg⟩ := htakes.2 members rest rfl hmembers
          exact stands_octets_one (firstItem_octets_class hmembers hascii)
            (firstItem_class hmembers) (sameItem_class hascii hneg)
            fun hg => ih (by rw [List.length_append, List.length_cons]; omega) (hrest hg)
      · exact iff_of_false (not_inLanguage_broken (firstItem_octets_unterminated hclose))
          (not_inLanguage_broken (firstItem_unterminated hclose))
    · have hlit : IsLiteral charSymbols d := ⟨hstar, hques, hopening⟩
      have hword : ∀ b ∈ [d], IsLiteral charSymbols b := by
        intro b hb
        rw [List.mem_singleton.mp hb]
        exact hlit
      rw [stands_octets_literal hlit, ← List.singleton_append, stands_word hword]
      constructor
      · rintro ⟨rest, heq, hrest⟩
        obtain ⟨t', rfl, rfl⟩ := octets_eq_append heq
        have hq := ((careful_cons (firstItem_literal hlit)).mp h).2 (decide_eq_true rfl)
        exact ⟨t', rfl, (ih le_rfl hq).mp hrest⟩
      · rintro ⟨t', rfl, hstands⟩
        have hq := ((careful_cons (firstItem_literal hlit)).mp h).2 (decide_eq_true rfl)
        exact ⟨octets t', rfl, (ih le_rfl hq).mpr hstands⟩

def NameIn (pattern name : String) : Prop := Stands charSymbols pattern.toList name.toList

def Plain (pattern name : String) : Prop := Careful pattern.toList name.toList

/-- The expression is careful with every ASCII name: it has no class it can come to that lists a
character outside ASCII. -/
def PlainExpression (pattern : String) : Prop :=
  ∀ t : List Char, (∀ c ∈ t, IsAscii c) → Careful pattern.toList t

theorem fnmatch_iff_octets (pattern name : String) :
    fnmatch pattern name = true ↔
      Stands byteSymbols (octets pattern.toList) (octets name.toList) := by
  rw [fnmatch, octets_toList, octets_toList, fnmatchBytes_iff]

variable {name : String}

theorem fnmatch_of_plain {pattern : String} (h : Plain pattern name) :
    fnmatch pattern name = true ↔ NameIn pattern name := by
  rw [fnmatch_iff_octets]
  exact stands_octets_of_careful h

theorem stands_ques [DecidableEq σ] [LE σ] [DecidableLE σ] (hne : y.ques ≠ y.star) (n : Nat)
    (text : List σ) : Stands y (List.replicate n y.ques) text ↔ text.length = n := by
  induction n generalizing text with
  | zero => rw [List.replicate_zero, stands_nil, List.length_eq_zero_iff]
  | succ n ih =>
    have hitem : firstItem y (List.replicate (n + 1) y.ques) =
        .one (fun _ => true) (List.replicate n y.ques) := by
      rw [List.replicate_succ, firstItem, if_neg hne, if_pos rfl]
    rw [Stands, inLanguage_one hitem]
    cases text with
    | nil => simp
    | cons a text =>
      rw [List.length_cons, Nat.add_right_cancel_iff, ← ih text]
      constructor
      · rintro ⟨b, rest, heq, -, hrest⟩
        obtain ⟨-, rfl⟩ := List.cons.inj heq
        exact hrest
      · exact fun h => ⟨a, text, rfl, rfl, h⟩

theorem length_octets_of_ascii_iff (cs : List Char) :
    (octets cs).length = cs.length ↔ ∀ c ∈ cs, IsAscii c := by
  have hle : ∀ cs, cs.length ≤ (octets cs).length := by
    intro cs
    induction cs with
    | nil => exact Nat.le_refl 0
    | cons c cs ih =>
      have hpos := List.length_pos_iff.mpr (@String.utf8EncodeChar_ne_nil c)
      rw [octets_cons, List.length_append, List.length_cons]
      omega
  constructor
  · intro h
    induction cs with
    | nil => exact fun c hc => nomatch hc
    | cons c cs ih =>
      have hpos := List.length_pos_iff.mpr (@String.utf8EncodeChar_ne_nil c)
      have htail := hle cs
      rw [octets_cons, List.length_append, List.length_cons] at h
      have hone : (String.utf8EncodeChar c).length = 1 := by omega
      rw [String.length_utf8EncodeChar] at hone
      refine List.forall_mem_cons.mpr ⟨Char.utf8Size_eq_one_iff.mp hone, ih ?_⟩
      omega
  · intro h
    rw [octets_ascii h, List.length_map]

theorem tries_ques {n : Nat} {t p' t' : List Char}
    (h : Tries (firstItem charSymbols) (List.replicate n '?') t p' t') :
    ∃ m, p' = List.replicate m '?' := by
  generalize hp : List.replicate n '?' = p at h
  induction h generalizing n with
  | here => exact ⟨n, hp.symm⟩
  | star hstar _ _ _ =>
    subst hp
    cases n <;> cases hstar
  | one hone _ _ ih =>
    subst hp
    cases n with
    | zero => cases hone
    | succ n =>
      cases hone
      exact ih rfl

theorem plainExpression_ques (n : Nat) :
    PlainExpression (String.ofList (List.replicate n '?')) := by
  intro t ht p' c t' h
  rw [String.toList_ofList] at h
  obtain ⟨m, rfl⟩ := tries_ques h
  refine ⟨fun _ => ht c (h.suffix.subset List.mem_cons_self), fun members rest heq _ => ?_⟩
  cases m <;> simp [List.replicate_succ] at heq

theorem ascii_of_all_patterns (h : ∀ pattern, PlainExpression pattern →
      (fnmatch pattern name = true ↔ NameIn pattern name)) : ∀ c ∈ name.toList, IsAscii c := by
  have hoctets : ∀ n, octets (List.replicate n '?') = List.replicate n byteSymbols.ques := by
    intro n
    induction n with
    | zero => rfl
    | succ n ih =>
      rw [List.replicate_succ, octets_cons, ih]
      rfl
  have hques := h _ (plainExpression_ques name.toList.length)
  rw [fnmatch_iff_octets, NameIn, String.toList_ofList, hoctets, stands_ques (by decide)] at hques
  rw [← length_octets_of_ascii_iff]
  exact hques.mpr ((stands_ques (show charSymbols.ques ≠ charSymbols.star by decide) _ _).mpr rfl)

/-- Two names match literally, or the literal one is in the language of the wildcard expression. -/
def NamesMatch (a b : String) : Prop :=
  hasWildcard a = false ∧ hasWildcard b = false ∧ a = b ∨
    hasWildcard a = true ∧ hasWildcard b = false ∧ NameIn a b ∨
    hasWildcard a = false ∧ hasWildcard b = true ∧ NameIn b a

def PlainPair (a b : String) : Prop :=
  (hasWildcard a = true → Plain a b) ∧ (hasWildcard b = true → Plain b a)

theorem partitionNamesMatch_of_plain {a b : String} (h : PlainPair a b) :
    partitionNamesMatch a b = true ↔ NamesMatch a b := by
  unfold partitionNamesMatch NamesMatch
  cases ha : hasWildcard a with
  | true =>
    cases hb : hasWildcard b with
    | true => simp
    | false => simp [fnmatch_of_plain (h.1 ha)]
  | false =>
    cases hb : hasWildcard b with
    | true => simp [fnmatch_of_plain (h.2 hb)]
    | false => simp

theorem partitionNamesMatch_comm (a b : String) :
    partitionNamesMatch a b = partitionNamesMatch b a := by
  unfold partitionNamesMatch
  cases hasWildcard a with
  | true => cases hasWildcard b <;> rfl
  | false =>
    cases hasWildcard b with
    | true => rfl
    | false => exact BEq.comm

theorem partitionsCompatible_iff (offered requested : List String) :
    partitionsCompatible offered requested = true ↔
      ∃ o ∈ orDefault offered, ∃ r ∈ orDefault requested, partitionNamesMatch o r = true := by
  unfold partitionsCompatible
  rw [List.any_eq_true]
  refine exists_congr fun o => and_congr_right fun _ => ?_
  exact List.any_eq_true

theorem partitionsCompatible_comm (w r : List String) :
    partitionsCompatible w r = partitionsCompatible r w := by
  rw [Bool.eq_iff_iff, partitionsCompatible_iff, partitionsCompatible_iff]
  constructor
  · rintro ⟨a, ha, b, hb, h⟩
    exact ⟨b, hb, a, ha, partitionNamesMatch_comm a b ▸ h⟩
  · rintro ⟨a, ha, b, hb, h⟩
    exact ⟨b, hb, a, ha, partitionNamesMatch_comm a b ▸ h⟩

theorem takesWhole_literal {d : Char} (h : IsLiteral charSymbols d) : TakesWhole (d :: p) c :=
  ⟨fun hques => absurd (Option.some.inj hques) h.2.1, fun _ _ hclass =>
    absurd (List.cons.inj hclass).1 h.2.2⟩

end ZeroDds.Qos
