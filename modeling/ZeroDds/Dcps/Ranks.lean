/-
Ranks of a collection.
-/
import ZeroDds.Dcps.Generations
import ZeroDds.Dcps.TakenInOrder

namespace ZeroDds.Dcps

open InstanceTracker (Ages)

namespace DataReader

variable {T : Type} (cfg : ReaderConfig T)

/-! ### What ranks are to say -/

def SampleInfo.received (info : SampleInfo) :
    Int × Int × Time × InstanceHandle × InstanceHandle × Bool :=
  (info.disposedGenerationCount, info.noWritersGenerationCount, info.sourceTimestamp,
    info.instanceHandle, info.publicationHandle, info.validData)

structure Placed (cache : List (CachedSample T)) (items : List (Nat × Sample T)) : Prop where
  distinct : (items.map Prod.fst).Nodup
  cached : ∀ e ∈ items,
    cache[e.1]?.map (fun c => SampleInfo.received c.info) = some (SampleInfo.received e.2.info)

structure RanksDescribe (cache : List (CachedSample T)) (items : List (Nat × Sample T)) :
    Prop where
  placed : Placed cache items
  sampleRank : ∀ before e after, items = before ++ e :: after →
    e.2.info.sampleRank = ((after.filter fun f =>
      f.2.info.instanceHandle = e.2.info.instanceHandle).length : Int)
  /-- Against the most recently received sample of the instance in the collection. -/
  generationRank : ∀ e ∈ items, ∀ recent ∈ items,
    recent.2.info.instanceHandle = e.2.info.instanceHandle →
    (∀ f ∈ items, f.2.info.instanceHandle = e.2.info.instanceHandle → f.1 ≤ recent.1) →
      e.2.info.generationRank = recent.2.info.generations - e.2.info.generations
  nonneg : ∀ e ∈ items, 0 ≤ e.2.info.generationRank
  absolute : ∀ e ∈ items, e.2.info.generationRank ≤ e.2.info.absoluteGenerationRank

theorem date_of_received {i j : SampleInfo} (h : SampleInfo.received i = SampleInfo.received j) :
    SampleInfo.date i = SampleInfo.date j := by
  have hhandle : i.instanceHandle = j.instanceHandle := congrArg (fun x => x.2.2.2.1) h
  have hgenerations : i.generations = j.generations := congrArg (fun x => x.1 + x.2.1) h
  exact Prod.ext hhandle hgenerations

variable {cache : List (CachedSample T)} {items : List (Nat × Sample T)}

theorem Placed.date (h : Placed cache items) {e : Nat × Sample T} (he : e ∈ items) :
    (cacheDates cache)[e.1]? = some (SampleInfo.date e.2.info) := by
  obtain ⟨c, hc, heq⟩ := Option.map_eq_some_iff.mp (h.cached e he)
  rw [cacheDates, List.getElem?_map, hc, Option.map_some, date_of_received heq]

/-! ### The ranks of a list -/

def ranked (t : InstanceTracker) (s : Sample T) (rest : List (Sample T)) : Sample T :=
  { s with info := { s.info with
      sampleRank := countI32 ((rest.map (·.info)).filter fun j =>
        j.instanceHandle = s.info.instanceHandle)
      generationRank := wrapI32 (wrapI32 (lastGenerations s.info.instanceHandle
        s.info.generations (rest.map (·.info))) - wrapI32 s.info.generations)
      absoluteGenerationRank := wrapI32 (((t.getByHandle s.info.instanceHandle).map fun st =>
        wrapI32 (st.disposedGenerationCount + st.noWritersGenerationCount)).getD 0 -
          wrapI32 s.info.generations) } }

variable (t : InstanceTracker)

theorem rankSamples_cons (s : Sample T) (rest : List (Sample T)) :
    rankSamples t (s :: rest) = ranked t s rest :: rankSamples t rest := rfl

def rankItems (t : InstanceTracker) : List (Nat × Sample T) → List (Nat × Sample T)
  | [] => []
  | e :: rest => (e.1, ranked t e.2 (rest.map Prod.snd)) :: rankItems t rest

theorem map_snd_rankItems (items : List (Nat × Sample T)) :
    (rankItems t items).map Prod.snd = rankSamples t (items.map Prod.snd) := by
  induction items with
  | nil => rfl
  | cons e rest ih => rw [rankItems, List.map_cons, List.map_cons, rankSamples_cons, ih]

theorem map_rankItems {α : Type} {f : Nat × Sample T → α}
    (hf : ∀ n t s rest, f (n, ranked t s rest) = f (n, s)) (t : InstanceTracker)
    (items : List (Nat × Sample T)) : (rankItems t items).map f = items.map f := by
  induction items with
  | nil => rfl
  | cons e rest ih => rw [rankItems, List.map_cons, List.map_cons, hf, ih]

theorem rankItems_split {t : InstanceTracker} {before after : List (Nat × Sample T)}
    {e : Nat × Sample T} (h : rankItems t items = before ++ e :: after) :
    ∃ before' e' after', items = before' ++ e' :: after' ∧ after = rankItems t after' ∧
      e = (e'.1, ranked t e'.2 (after'.map Prod.snd)) := by
  induction before generalizing items with
  | nil =>
    cases items with
    | nil => cases h
    | cons e' rest =>
      obtain ⟨rfl, rfl⟩ := List.cons.inj h
      exact ⟨[], e', rest, rfl, rfl, rfl⟩
  | cons b before ih =>
    cases items with
    | nil => cases h
    | cons e' rest =>
      obtain ⟨-, htail⟩ := List.cons.inj h
      obtain ⟨before', e'', after', rfl, hafter, he⟩ := ih htail
      exact ⟨e' :: before', e'', after', rfl, hafter, he⟩

theorem length_filter_rankItems (items : List (Nat × Sample T)) (handle : InstanceHandle) :
    ((rankItems t items).filter fun f => f.2.info.instanceHandle = handle).length =
      (((items.map Prod.snd).map (·.info)).filter fun j => j.instanceHandle = handle).length := by
  have hhandles := map_rankItems (f := fun x : Nat × Sample T => x.2.info.instanceHandle)
    (fun _ _ _ _ => rfl) t items
  have hcount := congrArg (List.countP fun h => h = handle) hhandles
  rw [List.countP_map, List.countP_map] at hcount
  rw [← List.countP_eq_length_filter, ← List.countP_eq_length_filter, List.map_map,
    List.countP_map]
  exact hcount

theorem lastGenerations_mem (handle : InstanceHandle) (own : Int) (rest : List SampleInfo) :
    lastGenerations handle own rest = own ∨ ∃ j ∈ rest, j.instanceHandle = handle ∧
      lastGenerations handle own rest = j.generations := by
  unfold lastGenerations
  cases hlast : (rest.filter fun i => i.instanceHandle = handle).getLast? with
  | none => exact .inl rfl
  | some j =>
    obtain ⟨hj, hhandle⟩ := List.mem_filter.mp (List.mem_of_getLast? hlast)
    exact .inr ⟨j, hj, of_decide_eq_true hhandle, rfl⟩

theorem lastGenerations_append (own : Int) (front : List SampleInfo) (i : SampleInfo)
    (rest : List SampleInfo) : lastGenerations i.instanceHandle own (front ++ i :: rest) =
      lastGenerations i.instanceHandle i.generations rest := by
  unfold lastGenerations
  rw [List.filter_append, List.filter_cons_of_pos (by simp), List.getLast?_append,
    List.getLast?_cons]
  cases (rest.filter fun j => j.instanceHandle = i.instanceHandle).getLast? <;> rfl

/-- No sample of an instance is of a later generation than the last one of the instance in
the collection. -/
def LastNewest (items : List (Nat × Sample T)) : Prop :=
  ∀ before e after, items = before ++ e :: after → e.2.info.generations ≤
    lastGenerations e.2.info.instanceHandle e.2.info.generations
      ((after.map Prod.snd).map (·.info))

section Splits

variable {before after : List (Nat × Sample T)} {e : Nat × Sample T}
  (hsplit : items = before ++ e :: after)
include hsplit

theorem exists_last : ∃ j ∈ items, j.2.info.instanceHandle = e.2.info.instanceHandle ∧
    j.2.info.generations = lastGenerations e.2.info.instanceHandle e.2.info.generations
      ((after.map Prod.snd).map (·.info)) := by
  rcases lastGenerations_mem e.2.info.instanceHandle e.2.info.generations
    ((after.map Prod.snd).map (·.info)) with hown | ⟨i, hi, hsame, hgen⟩
  · exact ⟨e, hsplit ▸ List.mem_append_right _ List.mem_cons_self, rfl, hown.symm⟩
  · rw [List.map_map] at hi
    obtain ⟨j, hj, rfl⟩ := List.mem_map.mp hi
    exact ⟨j, hsplit ▸ List.mem_append_right _ (List.mem_cons_of_mem _ hj), hsame, hgen.symm⟩

/-- The last of the instance behind any sample is the one behind `e`. -/
theorem LastNewest.le (h : LastNewest items) {j : Nat × Sample T} (hj : j ∈ items)
    (hsame : j.2.info.instanceHandle = e.2.info.instanceHandle) :
    j.2.info.generations ≤ lastGenerations e.2.info.instanceHandle e.2.info.generations
      ((after.map Prod.snd).map (·.info)) := by
  rw [hsplit] at hj
  rcases List.mem_append.mp hj with hj | hj
  · obtain ⟨front, middle, rfl⟩ := List.append_of_mem hj
    have hle := h front j (middle ++ e :: after) (by simp [hsplit])
    rw [hsame, List.map_append, List.map_append, List.map_cons, List.map_cons,
      lastGenerations_append] at hle
    exact hle
  · rcases List.mem_cons.mp hj with rfl | hj
    · exact h before j after hsplit
    · obtain ⟨middle, back, rfl⟩ := List.append_of_mem hj
      have hle := h (before ++ e :: middle) j back (by simp [hsplit])
      rw [← hsame, List.map_append, List.map_append, List.map_cons, List.map_cons,
        lastGenerations_append]
      exact hle

end Splits

/-! ### Counts within an i32 -/

theorem wrapI32_of_fits {n : Int} (hnonneg : 0 ≤ n) (hle : n ≤ i32Max) : wrapI32 n = n := by
  unfold i32Max at hle
  unfold wrapI32
  omega

theorem countI32_of_fits {α : Type} {items : List α} (h : (items.length : Int) ≤ i32Max) :
    countI32 items = items.length := by
  induction items using List.reverseRecOn with
  | nil => rfl
  | append_singleton items a ih =>
    rw [List.length_append, List.length_singleton, Nat.cast_add] at h ⊢
    rw [countI32, List.foldl_append, List.foldl_cons, List.foldl_nil]
    rw [countI32] at ih
    rw [ih (by omega)]
    exact wrapI32_of_fits (by omega) h

/-- The sums of the generation counts and the number of cached samples are within an i32. -/
structure FitsI32 (cache : List (CachedSample T)) (t : InstanceTracker) : Prop where
  samples : cache.length ≤ i32Max
  counts : ∀ kh s, t.stateOf kh = some s → s.generations ≤ i32Max

theorem Placed.rankItems (h : Placed cache items) (t : InstanceTracker) : Placed cache
    (rankItems t items) := by
  refine ⟨?_, fun e he => ?_⟩
  · rw [map_rankItems fun _ _ _ _ => rfl]
    exact h.distinct
  · obtain ⟨before, after, hsplit⟩ := List.append_of_mem he
    obtain ⟨before', e', after', rfl, -, rfl⟩ := rankItems_split hsplit
    exact h.cached e' (List.mem_append_right _ List.mem_cons_self)

theorem noEarlier_of_lt {dates : List (InstanceHandle × Int)} (h : dates.Pairwise NoEarlier)
    {i j : Nat} {d d' : InstanceHandle × Int} (hi : dates[i]? = some d) (hj : dates[j]? = some d')
    (hlt : i < j) : NoEarlier d d' := by
  obtain ⟨hilt, rfl⟩ := List.getElem?_eq_some_iff.mp hi
  obtain ⟨hjlt, rfl⟩ := List.getElem?_eq_some_iff.mp hj
  exact List.pairwise_iff_getElem.mp h i j hilt hjlt hlt

/-- What a collection from a dated cache has for generation counts. -/
theorem Placed.fits {t : InstanceTracker} (h : Placed cache items)
    (hdated : Dated (cacheDates cache) t) (hfits : FitsI32 cache t) {e : Nat × Sample T}
    (he : e ∈ items) : 0 ≤ e.2.info.generations ∧ ∃ st,
      t.getByHandle e.2.info.instanceHandle = some st ∧ e.2.info.generations ≤ st.generations ∧
        st.generations ≤ i32Max := by
  obtain ⟨hnonneg, st, hst, hle⟩ := hdated.known _ (List.mem_of_getElem? (h.date he))
  obtain ⟨kh, hkh, -⟩ := hdated.sound.indexed.getByHandle_eq_some.mp hst
  exact ⟨hnonneg, st, hst, hle, hfits.counts kh st hkh⟩

theorem Placed.length_le (h : Placed cache items) : items.length ≤ cache.length := by
  have hsub : items.map Prod.fst ⊆ List.range cache.length := by
    intro i hi
    obtain ⟨e, he, rfl⟩ := List.mem_map.mp hi
    obtain ⟨c, hc, -⟩ := Option.map_eq_some_iff.mp (h.cached e he)
    exact List.mem_range.mpr (List.getElem?_eq_some_iff.mp hc).1
  have hle := (h.distinct.subperm hsub).length_le
  rwa [List.length_map, List.length_range] at hle

theorem wrapI32_sub {a b : Int} (ha : 0 ≤ a) (ha' : a ≤ i32Max) (hb : 0 ≤ b) (hb' : b ≤ i32Max) :
    wrapI32 (wrapI32 a - wrapI32 b) = a - b := by
  unfold i32Max at *
  unfold wrapI32
  omega

section Described

variable {t : InstanceTracker} (hdated : Dated (cacheDates cache) t) (hfits : FitsI32 cache t)
  (hplaced : Placed cache items)
include hdated hfits hplaced

theorem generationRank_eq {before after : List (Nat × Sample T)} {e : Nat × Sample T}
    (hsplit : items = before ++ e :: after) :
    (ranked t e.2 (after.map Prod.snd)).info.generationRank =
      lastGenerations e.2.info.instanceHandle e.2.info.generations
        ((after.map Prod.snd).map (·.info)) - e.2.info.generations := by
  have he : e ∈ items := hsplit ▸ List.mem_append_right _ List.mem_cons_self
  obtain ⟨j, hj, -, hgen⟩ := exists_last hsplit
  obtain ⟨hnonneg, st, -, hle, hmax⟩ := hplaced.fits hdated hfits he
  obtain ⟨hnonneg', st', -, hle', hmax'⟩ := hplaced.fits hdated hfits hj
  rw [hgen] at hnonneg' hle'
  exact wrapI32_sub hnonneg' (hle'.trans hmax') hnonneg (hle.trans hmax)

theorem ranksDescribe_rankItems (hlast : LastNewest items) :
    RanksDescribe cache (rankItems t items) := by
  have hmem : ∀ e ∈ rankItems t items, ∃ before e' after, items = before ++ e' :: after ∧
      e = (e'.1, ranked t e'.2 (after.map Prod.snd)) := by
    intro e he
    obtain ⟨before, after, hsplit⟩ := List.append_of_mem he
    obtain ⟨before', e', after', hitems, -, rfl⟩ := rankItems_split hsplit
    exact ⟨before', e', after', hitems, rfl⟩
  refine ⟨hplaced.rankItems t, fun before e after hsplit => ?_, ?_, ?_, ?_⟩
  · obtain ⟨before', e', after', rfl, rfl, rfl⟩ := rankItems_split hsplit
    have hshort : (after'.map Prod.snd).length ≤ cache.length := by
      have hle := hplaced.length_le
      rw [List.length_append, List.length_cons] at hle
      rw [List.length_map]
      omega
    have hle := List.length_filter_le (fun j : SampleInfo =>
      j.instanceHandle = e'.2.info.instanceHandle) ((after'.map Prod.snd).map (·.info))
    rw [List.length_map] at hle
    rw [length_filter_rankItems]
    exact countI32_of_fits ((Int.ofNat_le.mpr (hle.trans hshort)).trans hfits.samples)
  · intro e he recent hrecent hsame hmost
    obtain ⟨before, e', after, hsplit, rfl⟩ := hmem e he
    obtain ⟨before₁, recent', after₁, hsplit₁, rfl⟩ := hmem recent hrecent
    obtain ⟨j, hj, hjsame, hjgen⟩ := exists_last hsplit
    have hrecentmem : recent' ∈ items := hsplit₁ ▸ List.mem_append_right _ List.mem_cons_self
    have hle := hlast.le hsplit hrecentmem hsame
    have hplace : j.1 ≤ recent'.1 := by
      have hjmem := List.mem_map_of_mem (f := fun x : Nat × Sample T =>
        (x.1, x.2.info.instanceHandle)) hj
      rw [← map_rankItems (fun _ _ _ _ => rfl) t] at hjmem
      obtain ⟨f, hf, heq⟩ := List.mem_map.mp hjmem
      obtain ⟨hfplace, hfhandle⟩ := Prod.mk.inj heq
      rw [← hfplace]
      exact hmost f hf (hfhandle.trans hjsame)
    have hge : j.2.info.generations ≤ recent'.2.info.generations := by
      have hjdate := hplaced.date hj
      have hrdate := hplaced.date hrecentmem
      rcases Nat.lt_or_eq_of_le hplace with hlt | heq
      · exact noEarlier_of_lt hdated.ordered hjdate hrdate hlt (hjsame.trans hsame.symm)
      · rw [heq, hrdate, Option.some.injEq] at hjdate
        exact (congrArg Prod.snd hjdate).ge
    show (ranked t e'.2 (after.map Prod.snd)).info.generationRank =
      recent'.2.info.generations - e'.2.info.generations
    rw [generationRank_eq hdated hfits hplaced hsplit, ← hjgen]
    rw [← hjgen] at hle
    rw [le_antisymm hge hle]
  · intro e he
    obtain ⟨before, e', after, hsplit, rfl⟩ := hmem e he
    rw [generationRank_eq hdated hfits hplaced hsplit]
    exact sub_nonneg.mpr (hlast before e' after hsplit)
  · intro e he
    obtain ⟨before, e', after, hsplit, rfl⟩ := hmem e he
    obtain ⟨j, hj, hjsame, hjgen⟩ := exists_last hsplit
    obtain ⟨hnonneg, st, hst, hle, hmax⟩ := hplaced.fits hdated hfits hj
    have he' : e' ∈ items := hsplit ▸ List.mem_append_right _ List.mem_cons_self
    obtain ⟨hnonneg', st', hst', hle', hmax'⟩ := hplaced.fits hdated hfits he'
    rw [hjsame, hst'] at hst
    cases hst
    have habsolute : (ranked t e'.2 (after.map Prod.snd)).info.absoluteGenerationRank =
        st.generations - e'.2.info.generations := by
      simp only [ranked, hst', Option.map_some, Option.getD_some]
      exact wrapI32_sub (hnonneg'.trans hle') hmax' hnonneg' (hle'.trans hmax')
    rw [generationRank_eq hdated hfits hplaced hsplit, habsolute, ← hjgen]
    exact sub_le_sub_right hle _

theorem lastNewest_of_described {items' : List (Nat × Sample T)}
    (hout : items'.map Prod.snd = rankSamples t (items.map Prod.snd))
    (h : RanksDescribe cache items') : LastNewest items := by
  intro before e after hsplit
  have hmem : ∀ before : List (Nat × Sample T),
      (e.1, ranked t e.2 (after.map Prod.snd)) ∈ rankItems t (before ++ e :: after) := by
    intro before
    induction before with
    | nil => exact List.mem_cons_self
    | cons b before ih => exact List.mem_cons_of_mem _ ih
  have hmem' := List.mem_map_of_mem (f := Prod.snd) (hmem before)
  rw [← hsplit, map_snd_rankItems, ← hout] at hmem'
  obtain ⟨e', he', heq⟩ := List.mem_map.mp hmem'
  have hnonneg := h.nonneg e' he'
  rw [heq, generationRank_eq hdated hfits hplaced hsplit] at hnonneg
  exact sub_nonneg.mp hnonneg

end Described

/-! ### What the loops pick -/

inductive PickedUp : Nat → List (CachedSample T) → List (Nat × Sample T) → Prop
  | stop (index : Nat) (cache : List (CachedSample T)) : PickedUp index cache []
  | skip {index : Nat} {c : CachedSample T} {rest : List (CachedSample T)}
      {items : List (Nat × Sample T)} :
      PickedUp (index + 1) rest items → PickedUp index (c :: rest) items
  | pick {index : Nat} {c : CachedSample T} {rest : List (CachedSample T)}
      {items : List (Nat × Sample T)} {s : Sample T} : s.info = c.info →
      PickedUp (index + 1) rest items → PickedUp index (c :: rest) ((index, s) :: items)

namespace PickedUp

variable {index : Nat} {cache : List (CachedSample T)} {items : List (Nat × Sample T)}

theorem cached (h : PickedUp index cache items) :
    ∀ e ∈ items, ∃ c, index ≤ e.1 ∧ cache[e.1 - index]? = some c ∧ e.2.info = c.info := by
  have hlift : ∀ {index : Nat} {c₀ : CachedSample T} {rest : List (CachedSample T)}
      {e : Nat × Sample T},
      (∃ c, index + 1 ≤ e.1 ∧ rest[e.1 - (index + 1)]? = some c ∧ e.2.info = c.info) →
      ∃ c, index ≤ e.1 ∧ (c₀ :: rest)[e.1 - index]? = some c ∧ e.2.info = c.info := by
    rintro index c₀ rest e ⟨c, hle, hc, hinfo⟩
    have hsucc : e.1 - index = (e.1 - (index + 1)) + 1 := by omega
    exact ⟨c, by omega, by rw [hsucc, List.getElem?_cons_succ, hc], hinfo⟩
  induction h with
  | stop => exact fun e he => nomatch he
  | skip _ ih => exact fun e he => hlift (ih e he)
  | pick hinfo _ ih =>
    intro e he
    rcases List.mem_cons.mp he with rfl | he
    · exact ⟨_, le_rfl, by rw [Nat.sub_self, List.getElem?_cons_zero], hinfo⟩
    · exact hlift (ih e he)

theorem ascending (h : PickedUp index cache items) : items.Pairwise fun a b => a.1 < b.1 := by
  induction h with
  | stop => exact .nil
  | skip _ ih => exact ih
  | pick _ hrest ih =>
    refine List.pairwise_cons.mpr ⟨fun e he => ?_, ih⟩
    obtain ⟨c, hle, -⟩ := hrest.cached e he
    exact hle

theorem placed (h : PickedUp 0 cache items) : Placed cache items := by
  refine ⟨?_, fun e he => ?_⟩
  · exact (List.pairwise_map.mpr (h.ascending.imp Nat.ne_of_lt))
  · obtain ⟨c, -, hc, hinfo⟩ := h.cached e he
    rw [Nat.sub_zero] at hc
    rw [hc, Option.map_some, hinfo]

end PickedUp

variable {r : DataReader T} {cache : List (CachedSample T)}

theorem drainWanted_picked {wanted : CachedSample T → Bool}
    {limit : Option Nat} {taken index : Nat} :
    ∃ items, PickedUp index cache items ∧
      items.map Prod.snd = (drainWanted cfg r wanted limit taken cache).1 := by
  induction cache generalizing taken index with
  | nil => exact ⟨[], .stop _ _, rfl⟩
  | cons c rest ih =>
    unfold drainWanted
    split
    · cases hm : materialize cfg r c with
      | error e => exact ⟨[], .stop _ _, rfl⟩
      | ok sample =>
        obtain ⟨items, hpicked, hout⟩ := @ih (taken + 1) (index + 1)
        refine ⟨(index, sample) :: items, .pick (materialize_info cfg hm) hpicked, ?_⟩
        rw [List.map_cons, hout]
    · obtain ⟨items, hpicked, hout⟩ := @ih taken (index + 1)
      exact ⟨items, .skip hpicked, hout⟩

theorem readLoop_picked {pick : CachedSample T → Option (Except DdsError (Sample T))}
    (hpick : ∀ c s, pick c = some (.ok s) → s.info = c.info) {limit : Option Nat}
    {n index : Nat} :
    ∃ items, PickedUp index cache items ∧
      items.map Prod.snd = (readLoop pick limit n cache).1 := by
  induction cache generalizing n index with
  | nil => exact ⟨[], .stop _ _, rfl⟩
  | cons c rest ih =>
    unfold readLoop
    split
    · exact ⟨[], .stop _ _, rfl⟩
    · cases hc : pick c with
      | none =>
        obtain ⟨items, hpicked, hout⟩ := @ih n (index + 1)
        exact ⟨items, .skip hpicked, hout⟩
      | some res =>
        cases res with
        | error e => exact ⟨[], .stop _ _, rfl⟩
        | ok sample =>
          obtain ⟨items, hpicked, hout⟩ := @ih (n + 1) (index + 1)
          refine ⟨(index, sample) :: items, .pick (hpick c sample hc) hpicked, ?_⟩
          rw [List.map_cons, hout]

theorem pickWanted_info {wanted : CachedSample T → Bool} {c : CachedSample T}
    {s : Sample T} (h : pickWanted cfg r wanted c = some (.ok s)) : s.info = c.info := by
  unfold pickWanted at h
  split at h
  · cases hd : decodeOrKeyholder cfg r c with
    | error e =>
      rw [hd] at h
      cases h
    | ok data =>
      rw [hd] at h
      cases h
      rfl
  · cases h

variable {cond : QueryCondition T}

theorem chooseMatching_picked {sel : Selection} {index : Nat} {chosen : List (Nat × Sample T)}
    (h : chooseMatching cfg r cond sel index cache = .ok chosen) :
    PickedUp index cache chosen := by
  induction cache generalizing index chosen with
  | nil =>
    cases h
    exact .stop _ _
  | cons c rest ih =>
    unfold chooseMatching at h
    split at h
    · exact .skip (ih h)
    · split at h
      · cases h
      · split at h
        · cases hrest : chooseMatching cfg r cond sel (index + 1) rest with
          | error e =>
            rw [hrest] at h
            cases h
          | ok left =>
            rw [hrest] at h
            cases h
            exact .pick rfl (ih hrest)
        · exact .skip (ih h)

/-! ### The order of a collection -/

variable {items : List (Nat × Sample T)}

theorem Placed.of_perm {items' : List (Nat × Sample T)}
    (h : Placed cache items) (hperm : items'.Perm items) : Placed cache items' :=
  ⟨(hperm.map Prod.fst).nodup_iff.mpr h.distinct, fun e he => h.cached e (hperm.mem_iff.mp he)⟩

theorem Placed.sublist {items' : List (Nat × Sample T)}
    (h : Placed cache items) (hsub : items'.Sublist items) : Placed cache items' :=
  ⟨h.distinct.sublist (hsub.map Prod.fst), fun e he => h.cached e (hsub.subset he)⟩

def InGenerations {α : Type} (infoOf : α → SampleInfo) (items : List α) : Prop :=
  items.Pairwise fun a b => NoEarlier (SampleInfo.date (infoOf a)) (SampleInfo.date (infoOf b))

theorem inGenerations_iff {α : Type} {infoOf : α → SampleInfo} {items : List α} :
    InGenerations infoOf items ↔ ∀ handle,
      (items.filter fun a => (infoOf a).instanceHandle = handle).Pairwise fun a b =>
        (infoOf a).generations ≤ (infoOf b).generations := by
  constructor
  · intro h handle
    refine (h.filter _).imp_of_mem fun ha hb hle => hle ?_
    have ha := of_decide_eq_true (List.mem_filter.mp ha).2
    have hb := of_decide_eq_true (List.mem_filter.mp hb).2
    exact ha.trans hb.symm
  · intro h
    induction items with
    | nil => exact .nil
    | cons a rest ih =>
      refine List.pairwise_cons.mpr ⟨fun b hb hsame => ?_, ih fun handle => ?_⟩
      · have hfiltered := h (infoOf a).instanceHandle
        rw [List.filter_cons, if_pos (by simp)] at hfiltered
        exact (List.pairwise_cons.mp hfiltered).1 b
          (List.mem_filter.mpr ⟨hb, decide_eq_true hsame.symm⟩)
      · exact (h handle).sublist ((List.sublist_cons_self a rest).filter _)

theorem InGenerations.groupByInstance {α : Type} {infoOf : α → SampleInfo} {items : List α}
    (h : InGenerations infoOf items) :
    InGenerations infoOf (groupByInstance (fun a => (infoOf a).instanceHandle) items) := by
  rw [inGenerations_iff] at h ⊢
  intro handle
  have hfilter : (DataReader.groupByInstance (fun a => (infoOf a).instanceHandle) items).filter
      (fun a => (infoOf a).instanceHandle = handle) =
      items.filter fun a => (infoOf a).instanceHandle = handle := by
    refine filter_mergeSort_of_tied (fun a b c hab hbc => ?_) (fun a b => ?_)
      fun a _ b _ ha hb => ?_
    · exact decide_eq_true ((of_decide_eq_true hab).trans (of_decide_eq_true hbc))
    · rw [Bool.or_eq_true]
      exact (Nat.le_total _ _).imp decide_eq_true decide_eq_true
    · exact decide_eq_true ((of_decide_eq_true ha).trans (of_decide_eq_true hb).symm).le
  rw [hfilter]
  exact h handle

theorem PickedUp.inGenerations {t : InstanceTracker} (h : PickedUp 0 cache items) (hdated : Dated
    (cacheDates cache) t) :
    InGenerations (fun e => e.2.info) items :=
  h.ascending.imp_of_mem fun ha hb hlt =>
    noEarlier_of_lt hdated.ordered (h.placed.date ha) (h.placed.date hb) hlt

theorem InGenerations.lastNewest (h : InGenerations (fun e : Nat × Sample T => e.2.info) items) :
    LastNewest items := by
  rintro before e after rfl
  have hbehind := (List.pairwise_cons.mp (List.pairwise_append.mp h).2.1).1
  rcases lastGenerations_mem e.2.info.instanceHandle e.2.info.generations
    ((after.map Prod.snd).map (·.info)) with hown | ⟨i, hi, hsame, hgen⟩
  · exact hown.ge
  · rw [List.map_map] at hi
    obtain ⟨j, hj, rfl⟩ := List.mem_map.mp hi
    rw [hgen]
    exact hbehind j hj hsame.symm

def limitTo (limit : Option Nat) (items : List (Nat × Sample T)) : List (Nat × Sample T) :=
  match limit with
  | none => items
  | some limit => items.take limit

theorem limitTo_sublist (limit : Option Nat) (items : List (Nat × Sample T)) :
    (limitTo limit items).Sublist items := by
  cases limit with
  | none => exact .refl _
  | some limit => exact List.take_sublist _ _

/-- Of the samples the query selects, in the order of its `ORDER BY` and cut to its limit, none is
of a later generation than the last one of its instance. -/
def KeepsGenerations (r : DataReader T) (cond : QueryCondition T) (max : Option Nat)
    (instance? : Option InstanceHandle) : Prop :=
  ∀ chosen, chooseMatching cfg r.refreshStates cond ⟨cond.masks, instance?⟩ 0
      r.refreshStates.cache = .ok chosen →
    LastNewest (limitTo (tighter cfg.presentationLimit max) (orderChosen cfg cond chosen))

variable {out : List (Sample T)}

theorem Placed.of_refreshed (h : Placed r.refreshStates.cache items) : Placed r.cache items := by
  have hreceived : ∀ i : Nat, r.refreshStates.cache[i]?.map (fun c => SampleInfo.received c.info) =
      r.cache[i]?.map fun c => SampleInfo.received c.info := by
    intro i
    rw [refreshStates, List.getElem?_map, Option.map_map]
    refine congrArg (Option.map · _) (funext fun c => ?_)
    rw [Function.comp_apply]
    unfold refreshed
    split <;> rfl
  exact ⟨h.distinct, fun e he => (hreceived e.1).symm.trans (h.cached e he)⟩

theorem FitsI32.sameDates {t t' : InstanceTracker} (h : FitsI32 cache t) (hsame : SameDates t t') :
    FitsI32 cache t' := by
  refine ⟨h.samples, fun kh s hs => ?_⟩
  obtain ⟨s₀, hs₀, heq⟩ := hsame.same.stateOf_eq_some hs
  rw [← InstanceState.generations_of_dates heq]
  exact h.counts kh s₀ hs₀

section Items

variable (h : DatedReader r) (hfits : FitsI32 r.cache r.instances) {t : InstanceTracker}
  (hsame : SameDates r.instances t) (hplaced : Placed r.refreshStates.cache items)
include h hfits hsame hplaced

theorem ranks_of_items_iff : (∃ items', items'.map Prod.snd = rankSamples t (items.map Prod.snd) ∧
    RanksDescribe r.cache items') ↔ LastNewest items := by
  have hdated := Dated.ages h hsame.ages
  constructor
  · rintro ⟨items', hout, hdescribe⟩
    exact lastNewest_of_described hdated (hfits.sameDates hsame) hplaced.of_refreshed hout hdescribe
  · intro hlast
    exact ⟨rankItems t items, map_snd_rankItems t items,
      ranksDescribe_rankItems hdated (hfits.sameDates hsame) hplaced.of_refreshed hlast⟩

theorem ranks_of_items (hordered : InGenerations (fun e => e.2.info) items)
    (hout : items.map Prod.snd = out) :
    ∃ items, items.map Prod.snd = rankSamples t out ∧ RanksDescribe r.cache items :=
  hout ▸ (ranks_of_items_iff h hfits hsame hplaced).mpr hordered.lastNewest

end Items

section Calls

variable (h : DatedReader r) (hfits : FitsI32 r.cache r.instances)
include h hfits

theorem ranks_of_picked {t : InstanceTracker} (hsame : SameDates r.instances t)
    (hpicked : PickedUp 0 r.refreshStates.cache items) (hout : items.map Prod.snd = out) :
    (∃ items, items.map Prod.snd = rankSamples t out ∧ RanksDescribe r.cache items) ∧
      ∃ items, items.map Prod.snd = presentByAccessScope cfg t out ∧
        RanksDescribe r.cache items := by
  have hdated : Dated (cacheDates r.refreshStates.cache) r.instances :=
    cacheDates_refreshStates r ▸ h
  have hordered := hpicked.inGenerations hdated
  have hplain := ranks_of_items h hfits hsame hpicked.placed hordered hout
  refine ⟨hplain, ?_⟩
  unfold presentByAccessScope
  split
  · have hgroup : (groupByInstance (fun e => e.2.info.instanceHandle) items).map Prod.snd =
        groupByInstance (fun s => s.info.instanceHandle) out := by
      rw [← hout]
      exact List.map_mergeSort fun _ _ _ _ => rfl
    exact ranks_of_items h hfits hsame (hpicked.placed.of_perm (List.mergeSort_perm _ _))
      hordered.groupByInstance hgroup
  · exact hplain

variable {r' : DataReader T}

theorem takeSelected_ranks {sel : Selection}
    {max : Option Nat} (hout : takeSelected cfg r sel max = (r', .ok out)) :
    ∃ items, items.map Prod.snd = out ∧ RanksDescribe r.cache items := by
  unfold takeSelected at hout
  simp only at hout
  split at hout
  · cases hout
  · split at hout
    · cases hout
    · cases hout
      obtain ⟨items, hpicked, hitems⟩ := @drainWanted_picked T cfg r.refreshStates
        r.refreshStates.cache sel.wants (tighter cfg.presentationLimit max) 0 0
      exact (ranks_of_picked cfg h hfits (tolerates_dates.noteTakenEach r.instances _)
        hpicked hitems).2

theorem takeOfInstance_ranks {handle : InstanceHandle}
    (hout : takeOfInstance cfg r handle = (r', .ok out)) :
    ∃ items, items.map Prod.snd = out ∧ RanksDescribe r.cache items := by
  unfold takeOfInstance at hout
  simp only at hout
  split at hout
  · cases hout
  · split at hout
    · cases hout
    · cases hout
      obtain ⟨items, hpicked, hitems⟩ := @drainWanted_picked T cfg r.refreshStates
        r.refreshStates.cache (ofInstance handle) cfg.presentationLimit 0 0
      refine (ranks_of_picked cfg h hfits ?_ hpicked hitems).1
      split
      · exact tolerates_dates.refl _
      · exact tolerates_dates.trans (tolerates_dates.seen _ _) (tolerates_dates.drained _ _ _)

theorem readSelected_ranks {sel : Selection}
    {max : Option Nat} (hout : readSelected cfg r sel max = (r', .ok out)) :
    ∃ items, items.map Prod.snd = out ∧ RanksDescribe r.cache items := by
  obtain ⟨items, hpicked, hitems⟩ := @readLoop_picked T r.refreshStates.cache
    (pickWanted cfg r.refreshStates sel.wants) (fun c s hs => pickWanted_info cfg hs)
    (tighter cfg.presentationLimit max) 0 0
  unfold readSelected readWith at hout
  simp only [Prod.mk.injEq] at hout
  obtain ⟨-, hout⟩ := hout
  split at hout
  · cases hout
  · cases hout
    exact (ranks_of_picked cfg h hfits
      (tolerates_dates.foldl (fun _ _ => tolerates_dates.seen _ _) _ r.instances) hpicked hitems).2

theorem readOfInstance_ranks {handle : InstanceHandle}
    (hout : readOfInstance cfg r handle = (r', .ok out)) :
    ∃ items, items.map Prod.snd = out ∧ RanksDescribe r.cache items := by
  obtain ⟨items, hpicked, hitems⟩ := @readLoop_picked T r.refreshStates.cache
    (pickWanted cfg r.refreshStates (ofInstance handle)) (fun c s hs => pickWanted_info cfg hs)
    cfg.presentationLimit 0 0
  unfold readOfInstance readWith at hout
  simp only [Prod.mk.injEq] at hout
  obtain ⟨-, hout⟩ := hout
  split at hout
  · cases hout
  · cases hout
    exact (ranks_of_picked cfg h hfits
      (tolerates_dates.foldl (fun _ _ => tolerates_dates.seen _ _) _ r.instances) hpicked hitems).1

theorem querySelected_ranks {max : Option Nat} {take : Bool} {instance? : Option InstanceHandle}
    (hout : querySelected cfg r cond max take instance? = (r', .ok out)) :
    (∃ items, items.map Prod.snd = out ∧ RanksDescribe r.cache items) ↔
      KeepsGenerations cfg r cond max instance? := by
  unfold querySelected at hout
  simp only at hout
  split at hout
  · cases hout
  · split at hout
    · cases hout
    · next chosen hchosen =>
      have hplaced := ((chooseMatching_picked cfg hchosen).placed.of_perm
        (orderChosen_perm cfg cond chosen)).sublist
          (limitTo_sublist (tighter cfg.presentationLimit max) _)
      have hkeeps : KeepsGenerations cfg r cond max instance? ↔
          LastNewest (limitTo (tighter cfg.presentationLimit max)
            (orderChosen cfg cond chosen)) := by
        refine ⟨fun hk => hk chosen hchosen, fun hlast chosen' hchosen' => ?_⟩
        rw [hchosen, Except.ok.injEq] at hchosen'
        exact hchosen' ▸ hlast
      rw [hkeeps]
      split at hout
      · cases hout
        exact ranks_of_items_iff h hfits (tolerates_dates.noteTakenEach r.instances _) hplaced
      · cases hout
        exact ranks_of_items_iff h hfits
          (tolerates_dates.foldl (fun _ _ => tolerates_dates.seen _ _) _ r.instances) hplaced

omit hfits in
/-- Without an `ORDER BY` the collection is in the order of arrival, instance by instance. -/
theorem keepsGenerations_of_unordered (horder : cond.orderBy = none) (max : Option Nat)
    (instance? : Option InstanceHandle) : KeepsGenerations cfg r cond max instance? := by
  intro chosen hchosen
  have hdated : Dated (cacheDates r.refreshStates.cache) r.instances :=
    cacheDates_refreshStates r ▸ h
  have hordered := (chooseMatching_picked cfg hchosen).inGenerations hdated
  refine InGenerations.lastNewest (List.Pairwise.sublist (limitTo_sublist _ _) ?_)
  unfold orderChosen
  rw [horder]
  simp only
  split
  · exact hordered.groupByInstance
  · exact hordered

end Calls

def Event.collects : Event T → Bool
  | .takeCore _ _ | .takeInstance _ | .query _ _ _ _ | .readCore _ _ | .readInstance _ => true
  | _ => false

theorem afterIngest_ok {α : Type} {out : α} {op : DataReader T → DataReader T × Except DdsError α}
    (h : afterIngest cfg r op = (r', .ok out)) : op (ingestPending cfg r).1 = (r', .ok out) := by
  unfold afterIngest at h
  rcases hres : ingestPending cfg r with ⟨r₁, res⟩
  rw [hres] at h
  cases res with
  | error e => cases h
  | ok _ => exact h

theorem afterIngest_of_ok {α : Type} {op : DataReader T → DataReader T × Except DdsError α}
    (h : (ingestPending cfg r).2 = .ok ()) :
    afterIngest cfg r op = op (ingestPending cfg r).1 := by
  rcases hres : ingestPending cfg r with ⟨r₁, res⟩
  rw [hres] at h
  rw [afterIngest, hres, show res = .ok () from h]

theorem dated_ingestPending (h : DatedReader r)
    (hfresh : ∀ p ∈ ingestTrace cfg r, FreshSteps cfg p.1 p.2) :
    DatedReader (ingestPending cfg r).1 :=
  (ingest_steps cfg r).preserves h (fun _ _ hsame hd => hd.of_same hsame)
    fun r' s hmem hd => step_dated cfg hd s (hfresh (r', s) hmem)

instance (r : DataReader T) : ∀ s, Decidable (FreshSteps cfg r s)
  | .sample _ raw _ => inferInstanceAs (Decidable (∀ sample,
      cfg.codec.decode raw.bytes.octets raw.representation raw.bigEndian = .ok sample →
        FreshKeyHandle r (cfg.codec.instanceKeyHash sample)))
  | .marker m => inferInstanceAs (Decidable (FreshKeyHandle r (markerKey cfg m)))
  | .lifespan _ | .strength _ _ | .departure _ _ | .autopurge _ | .takeValues
  | .takeSelected _ _ | .takeOfInstance _ | .query _ _ _ _ | .readValues | .readSelected _ _
  | .readOfInstance _ => .isTrue trivial

def revivedOctets : List (Event (UInt8 × UInt8)) :=
  [.arrive (octetSample 1 [1, 9] 1), .arrive (octetMarker 1 1 [1] .notAliveDisposed),
    .arrive (octetSample 1 [1, 2] 2)]

def inOrderConfig : ReaderConfig (UInt8 × UInt8) :=
  { octetConfig reliableQos with presentation := .inWriteOrder }

def revivedReader : DataReader (UInt8 × UInt8) :=
  (run (handle inOrderConfig) (DataReader.new .new) revivedOctets).1

theorem mergeSort_pair {α : Type} (le : α → α → Bool) (a b : α) :
    [a, b].mergeSort le = if le a b then [a, b] else [b, a] := by
  simp [List.mergeSort, List.MergeSort.Internal.splitInTwo, List.cons_merge_cons]

theorem generationRanks_of_swapped {le : T → T → Bool} (horder : cond.orderBy = some le)
    {a b : Nat × Sample T} (hlimit : cfg.presentationLimit = none)
    (hchosen : chooseMatching cfg r.refreshStates cond ⟨cond.masks, none⟩ 0 r.refreshStates.cache =
      .ok [a, b])
    (hle : le a.2.data b.2.data = false)
    (hsame : a.2.info.instanceHandle = b.2.info.instanceHandle) :
    ∃ out, (querySelected cfg r cond none false none).2 = .ok out ∧
      out.map (fun s => s.info.generationRank) =
        [wrapI32 (wrapI32 a.2.info.generations - wrapI32 b.2.info.generations), wrapI32 0] := by
  have hordered : orderChosen cfg cond [a, b] = [b, a] := by
    rw [orderChosen, horder]
    simp only
    rw [mergeSort_pair, if_neg (by rw [hle]; exact Bool.false_ne_true)]
  unfold querySelected
  simp only [Bool.false_and, Bool.false_eq_true, if_false, hchosen, hlimit, tighter, hordered]
  refine ⟨_, rfl, ?_⟩
  simp [rankSamples, computeRanks, lastGenerations, hsame]

def byValue (le : UInt8 → UInt8 → Bool) : QueryCondition (UInt8 × UInt8) where
  masks := .any
  accepts := some fun v => v.2 ≠ 0
  orderBy := some fun a b => le a.2 b.2

/-- A condition on the value chooses the two values, of generations 0 and 1. -/
theorem chosen_of_revived (le : UInt8 → UInt8 → Bool) :
    ∃ a b, chooseMatching inOrderConfig
      (ingestPending inOrderConfig revivedReader).1.refreshStates (byValue le) ⟨.any, none⟩ 0
      (ingestPending inOrderConfig revivedReader).1.refreshStates.cache = .ok [a, b] ∧
      (a.2.data.2, a.2.info.instanceHandle, a.2.info.generations) = (9, 1, 0) ∧
      (b.2.data.2, b.2.info.instanceHandle, b.2.info.generations) = (2, 1, 1) :=
  ⟨_, _, rfl, by decide +kernel, by decide +kernel⟩

end DataReader
end ZeroDds.Dcps
