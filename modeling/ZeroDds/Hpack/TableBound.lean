/-
How large a peer can make the decoder's table.
-/
import ZeroDds.Lib.Run
import ZeroDds.Hpack.Coder

namespace ZeroDds.Hpack

variable {t : Table} {input : Octets}
  {t' : Table} {first : UInt8} {rest : Octets} {h : Option HeaderField}

theorem decodeStep_cases (hstep : decodeStep t first input = .ok (t', h, rest)) :
    t' = t ∨ (∃ field, t' = t.add field) ∨
      (first.toNat &&& 224 = 32 ∧
        ∃ newSize consumed, decodeInteger input 5 = .ok (newSize, consumed) ∧
          t' = t.setMaxSize newSize) := by
  unfold decodeStep at hstep
  split at hstep
  · split at hstep
    · cases hstep
    · split at hstep
      · cases hstep
      · split at hstep
        · cases hstep
        · cases hstep
          exact Or.inl rfl
  split at hstep
  · split at hstep
    · cases hstep
    · split at hstep
      · cases hstep
      · cases hstep
        exact Or.inr (Or.inl ⟨_, rfl⟩)
  split at hstep
  · next hupdate =>
    split at hstep
    · cases hstep
    · next newSize consumed hinteger =>
      cases hstep
      exact Or.inr (Or.inr ⟨hupdate, newSize, consumed, hinteger, rfl⟩)
  split at hstep
  · split at hstep
    · cases hstep
    · split at hstep
      · cases hstep
      · cases hstep
        exact Or.inl rfl
  · cases hstep

def updateWithin (m : Nat) (first : UInt8) (input : Octets) : Bool :=
  if first.toNat &&& 224 = 32 then
    match decodeInteger input 5 with
    | .ok (newSize, _) => newSize ≤ m
    | .error _ => true
  else true

def updatesWithin (m : Nat) : Nat → Table → Octets → Bool
  | _, _, [] => true
  | 0, _, _ => true
  | fuel + 1, t, first :: rest =>
    updateWithin m first (first :: rest) &&
      match decodeStep t first (first :: rest) with
      | .ok (t, _, rest) => updatesWithin m fuel t rest
      | .error _ => true

def BlockWithin (m : Nat) (t : Table) (block : Octets) : Prop :=
  updatesWithin m block.length t block = true

instance (m : Nat) (t : Table) (block : Octets) : Decidable (BlockWithin m t block) :=
  inferInstanceAs (Decidable (_ = true))

structure Bounded (m : Nat) (t : Table) : Prop where
  sound : t.Sound
  limit : t.maxSize ≤ m

variable {m : Nat}

theorem bounded_decodeStep (hb : Bounded m t) (hupdate : updateWithin m first input = true)
    (hstep : decodeStep t first input = .ok (t', h, rest)) : Bounded m t' := by
  rcases decodeStep_cases hstep with rfl | ⟨field, rfl⟩ | ⟨hfirst, newSize, consumed, hint, rfl⟩
  · exact hb
  · refine ⟨hb.sound.add field, ?_⟩
    rw [Table.maxSize_add]
    exact hb.limit
  · rw [updateWithin, if_pos hfirst, hint] at hupdate
    exact ⟨hb.sound.setMaxSize newSize, of_decide_eq_true hupdate⟩

theorem bounded_decodeLoop {fuel : Nat} (hb : Bounded m t)
    (hupdates : updatesWithin m fuel t input = true) : Bounded m (decodeLoop fuel t input).1 := by
  induction fuel generalizing t input with
  | zero =>
    cases input with
    | nil => exact hb
    | cons first rest => exact hb
  | succ fuel ih =>
    cases input with
    | nil => exact hb
    | cons first rest =>
      rw [updatesWithin, Bool.and_eq_true] at hupdates
      obtain ⟨hfirst, hrest⟩ := hupdates
      rw [decodeLoop]
      cases hstep : decodeStep t first (first :: rest) with
      | error e => exact hb
      | ok r =>
        rw [hstep] at hrest
        exact ih (bounded_decodeStep hb hfirst hstep) hrest

/-- Over any blocks, taken or refused, none of which has a size update beyond the size the decoder
was made with, the size of the table is that of its entries and at most that size. -/
theorem decoder_table_bounded {m : Nat}
    {h : History Octets (Except DecoderError (List HeaderField))} {t : Table}
    (hr : Reaches decode (BlockWithin m) (Table.new m) h t) :
    t.size = (t.dynamic.map fun e =>
      (utf8Bytes e.name).length + (utf8Bytes e.value).length + 32).sum ∧
      t.size ≤ m := by
  have hb : Bounded m t := by
    refine hr.invariant (P := fun _ t => Bounded m t) ⟨Table.sound_new m, Nat.le_refl m⟩ ?_
    exact fun _ t block hb hok => bounded_decodeLoop hb hok
  refine ⟨?_, hb.sound.within.trans hb.limit⟩
  rw [hb.sound.size, totalSize]
  refine congrArg List.sum (List.map_congr_left fun e _ => ?_)
  rw [HeaderField.size]
  omega

namespace Fixture

def grownBlock : Octets := [63, 3, 64, 1, 97, 1, 98]

/-- A decoder made without a table has one. -/
theorem size_update_grows_table :
    (decode (.new 0) grownBlock).2 = .ok [⟨"a", "b"⟩] ∧ (decode (.new 0) grownBlock).1.size = 34 ∧
      ¬(decode (.new 0) grownBlock).1.size ≤ 0 := by
  decide +kernel

def shrunkBlocks : List Octets := [[63, 9, 64, 1, 97, 1, 98], [64, 1, 99, 1, 100, 255]]

theorem smaller_update_keeps_bound :
    (run decode (.new 64) shrunkBlocks).1.size = 34 ∧ 34 ≤ 64 :=
  have hsize : (run decode (.new 64) shrunkBlocks).1.size = 34 := by decide +kernel
  have hbound := (decoder_table_bounded (reaches_run
    (show RunOk decode (BlockWithin 64) (.new 64) shrunkBlocks by decide +kernel))).2
  ⟨hsize, Nat.le_trans (Nat.le_of_eq hsize.symm) hbound⟩

end Fixture

end ZeroDds.Hpack
