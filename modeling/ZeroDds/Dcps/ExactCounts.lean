/-
Exact counts over whole runs.
-/
import ZeroDds.Dcps.CountedIngest
import ZeroDds.Dcps.FailingTakes
import ZeroDds.Dcps.InstanceLife

namespace ZeroDds.Dcps

open InstanceTracker (Indexed SameUnder Drained times)

namespace DataReader

variable {T : Type} (cfg : ReaderConfig T) {r : DataReader T}

theorem CountedReader.refreshStates (hc : CountedReader r) : CountedReader r.refreshStates := by
  refine Counted.of_handles hc ?_
  simp [DataReader.refreshStates, Function.comp_def]

theorem CountedReader.handle_ne_nil (hc : CountedReader r) {s : CachedSample T} (hs : s ∈ r.cache) :
    s.info.instanceHandle ≠ handleNil := by
  obtain ⟨kh, st, hst, hh⟩ := hc.known s hs
  exact hh ▸ hc.indexed.ne_nil kh st hst

def takenCount (out : List InstanceHandle) (h : InstanceHandle) : Nat := out.count h

theorem materialize_info {s : CachedSample T} {sample : Sample T}
    (h : materialize cfg r s = .ok sample) : sample.info = s.info := by
  unfold materialize at h
  split at h
  · cases h
    rfl
  · cases hd : decodeOrKeyholder cfg r s with
    | error e =>
      rw [hd] at h
      cases h
    | ok data =>
      rw [hd] at h
      cases h
      rfl

variable {cache : List (CachedSample T)} {t : InstanceTracker}

theorem drainWanted_parts {wanted : CachedSample T → Bool} {limit : Option Nat} {taken : Nat}
    {keep : List (CachedSample T)} (h : (drainWanted cfg r wanted limit taken cache).2 = .ok keep) :
    keep.Sublist cache ∧
      (∀ s ∈ (drainWanted cfg r wanted limit taken cache).1,
        ∃ e ∈ cache, wanted e = true ∧ s.info = e.info) ∧
      ∀ k, handleCount k cache = handleCount k keep +
        takenCount ((drainWanted cfg r wanted limit taken cache).1.map
          (·.info.instanceHandle)) k := by
  induction cache generalizing taken keep with
  | nil =>
    cases h
    exact ⟨.refl _, List.forall_mem_nil _, fun _ => rfl⟩
  | cons s rest ih =>
    unfold drainWanted at h ⊢
    split
    · next hw =>
      rw [if_pos hw] at h
      cases hm : materialize cfg r s with
      | error e =>
        rw [hm] at h
        cases h
      | ok sample =>
        rw [hm] at h
        obtain ⟨hsub, hmem, hcount⟩ := ih h
        have hinfo := materialize_info cfg hm
        refine ⟨hsub.cons _, ?_, ?_⟩
        · intro x hx
          rcases List.mem_cons.mp hx with rfl | hx
          · simp only [Bool.and_eq_true] at hw
            exact ⟨s, List.mem_cons_self, hw.2, hinfo⟩
          · obtain ⟨e, he, hrest⟩ := hmem x hx
            exact ⟨e, List.mem_cons_of_mem _ he, hrest⟩
        · intro k
          have hk := hcount k
          simp only [handleCount, takenCount, List.countP_cons, List.map_cons, List.count_cons,
            hinfo, ofInstance, beq_iff_eq, decide_eq_true_eq] at hk ⊢
          omega
    · next hw =>
      rw [if_neg hw] at h
      cases hkeep : (drainWanted cfg r wanted limit taken rest).2 with
      | error e =>
        simp only [hkeep] at h
        cases h
      | ok left =>
        simp only [hkeep] at h
        cases h
        obtain ⟨hsub, hmem, hcount⟩ := ih hkeep
        refine ⟨hsub.cons_cons _, ?_, ?_⟩
        · intro x hx
          obtain ⟨e, he, hrest⟩ := hmem x hx
          exact ⟨e, List.mem_cons_of_mem _ he, hrest⟩
        · intro k
          have hk := hcount k
          simp only [handleCount, List.countP_cons] at hk ⊢
          omega

theorem noteTakenEach_drained (hi : Indexed t) (out : List (Sample T))
    (hnil : ∀ s ∈ out, s.info.instanceHandle ≠ handleNil) :
    Drained (takenCount (out.map (·.info.instanceHandle))) t (noteTakenEach t out) := by
  induction out generalizing t with
  | nil => exact .of_sameUnder hi (.refl t)
  | cons s rest ih =>
    have hseen := Drained.markViewSeen hi s.info.instanceHandle
    have hone := hseen.trans (.drainSamples hseen.indexed s.info.instanceHandle 1)
    have hrest := hone.trans (ih hone.indexed fun x hx => hnil x (List.mem_cons_of_mem _ hx))
    simp only [noteTakenEach, if_neg (hnil s List.mem_cons_self)]
    refine hrest.congr fun k => ?_
    simp only [takenCount, times, List.map_cons, List.count_cons, beq_iff_eq]
    by_cases hk : k = s.info.instanceHandle
    · simp [hk]
      omega
    · simp [hk, Ne.symm hk]

theorem takeSelected_counted (hc : CountedReader r) (sel : Selection) (max : Option Nat)
    (hclean : CleanLoop cfg r sel.wants (tighter cfg.presentationLimit max)) :
    CountedReader (takeSelected cfg r sel max).1 := by
  have hr := hc.refreshStates
  have hloop := errorOf_drainWanted cfg r.refreshStates sel.wants
    (tighter cfg.presentationLimit max) 0 r.refreshStates.cache
  rw [leftOf_zero] at hloop
  unfold takeSelected
  simp only
  split
  · exact hr
  · next hblocked =>
    rw [any_not_knows] at hblocked
    have hall := hloop.mpr (hclean.resolve_left hblocked)
    cases hkeep : (drainWanted cfg r.refreshStates sel.wants
        (tighter cfg.presentationLimit max) 0 r.refreshStates.cache).2 with
    | error e =>
      rw [hkeep] at hall
      cases hall
    | ok keep =>
      obtain ⟨hsub, hmem, hcount⟩ := drainWanted_parts cfg hkeep
      have hdrained := noteTakenEach_drained hr.indexed
        (drainWanted cfg r.refreshStates sel.wants (tighter cfg.presentationLimit max) 0
          r.refreshStates.cache).1 (by
            intro s hs
            obtain ⟨e, he, _, hinfo⟩ := hmem s hs
            rw [hinfo]
            exact hr.handle_ne_nil he)
      exact Counted.take hr hdrained hcount (fun e he => ⟨e, hsub.subset he, rfl⟩) hsub.length_le

theorem takeOfInstance_counted (hc : CountedReader r) (handle : InstanceHandle)
    (hclean : CleanLoop cfg r (ofInstance handle) cfg.presentationLimit) :
    CountedReader (takeOfInstance cfg r handle).1 := by
  have hr := hc.refreshStates
  have hloop := errorOf_drainWanted cfg r.refreshStates (ofInstance handle)
    cfg.presentationLimit 0 r.refreshStates.cache
  rw [leftOf_zero] at hloop
  unfold takeOfInstance
  simp only
  split
  · exact hr
  · next hblocked =>
    rw [any_not_knows] at hblocked
    have hall := hloop.mpr (hclean.resolve_left hblocked)
    rcases hdrain : drainWanted cfg r.refreshStates (ofInstance handle)
        cfg.presentationLimit 0 r.refreshStates.cache with ⟨out, keep⟩
    rw [hdrain] at hall
    cases keep with
    | error e => cases hall
    | ok keep =>
      have hparts := drainWanted_parts cfg (congrArg Prod.snd hdrain)
      rw [hdrain] at hparts
      obtain ⟨hsub, hmem, hcount⟩ := hparts
      have hown : out.map (·.info.instanceHandle) = List.replicate out.length handle := by
        refine List.eq_replicate_of_mem ?_ |>.trans (by rw [List.length_map])
        intro h hh
        obtain ⟨s, hs, rfl⟩ := List.mem_map.mp hh
        obtain ⟨e, _, hwanted, hinfo⟩ := hmem s hs
        rw [hinfo]
        exact of_decide_eq_true hwanted
      have htaken : ∀ k, takenCount (out.map (·.info.instanceHandle)) k =
          times handle out.length k := by
        intro k
        rw [hown, takenCount, List.count_replicate]
        by_cases hk : k = handle
        · simp [times, hk]
        · simp [times, hk, Ne.symm hk]
      have hsmall : out.length % 4294967296 = out.length := by
        have hlength : out.length ≤ r.refreshStates.cache.length := by
          have hk := hcount handle
          rw [htaken handle, times, if_pos rfl] at hk
          have hle := handleCount_le handle r.refreshStates.cache
          omega
        have hbound := hr.bound
        have hmax : Rtps.u32Max = 4294967295 := rfl
        exact Nat.mod_eq_of_lt (by omega)
      have hdrained : Drained (takenCount (out.map (·.info.instanceHandle)))
          r.refreshStates.instances
          (if out.isEmpty then r.refreshStates.instances
            else (r.refreshStates.instances.markViewSeen handle).drainSamples handle
              (out.length % 4294967296)) := by
        split
        · next hempty =>
          rw [List.isEmpty_iff.mp hempty]
          exact .of_sameUnder hr.indexed (.refl _)
        · rw [hsmall]
          have hseen := Drained.markViewSeen hr.indexed handle
          refine (hseen.trans (.drainSamples hseen.indexed handle out.length)).congr fun k => ?_
          rw [htaken, Nat.zero_add]
      exact Counted.take hr hdrained hcount (fun e he => ⟨e, hsub.subset he, rfl⟩) hsub.length_le

def HandsOut (s : CachedSample T) : Prop :=
  s.bytes.any fun b => (errorOf (s.decodedOr cfg.codec b)).isNone

instance (s : CachedSample T) : Decidable (HandsOut cfg s) :=
  inferInstanceAs (Decidable (_ = true))

theorem drainValues_parts {limit : Option Nat} {taken : Nat}
    (hall : ∀ s ∈ upTo (leftOf limit taken) cache, HandsOut cfg s) :
    ∃ keep, (drainValues cfg limit taken cache).2 = .ok keep ∧ keep.Sublist cache ∧
      (∀ h ∈ (drainValues cfg limit taken cache).1.map Prod.fst,
        ∃ e ∈ cache, e.info.instanceHandle = h) ∧
      ∀ k, handleCount k cache = handleCount k keep +
        takenCount ((drainValues cfg limit taken cache).1.map Prod.fst) k := by
  induction cache generalizing taken with
  | nil => exact ⟨[], rfl, .refl _, fun _ hh => absurd hh List.not_mem_nil, fun _ => rfl⟩
  | cons s rest ih =>
    unfold drainValues
    cases hu : underLimit taken limit with
    | false => exact ⟨s :: rest, rfl, .refl _, fun _ hh => absurd hh List.not_mem_nil, fun _ => rfl⟩
    | true =>
      rw [upTo_cons_of_under _ _ hu, List.forall_mem_cons] at hall
      obtain ⟨b, hb, hvalue⟩ := (Option.any_eq_true _ _).mp hall.1
      obtain ⟨keep, hkeep, hsub, hmem, hcount⟩ := ih hall.2
      cases hd : s.decodedOr cfg.codec b with
      | error e =>
        rw [hd] at hvalue
        cases hvalue
      | ok sample =>
        simp only [Bool.not_true, Bool.false_eq_true, if_false, hb, hd]
        refine ⟨keep, hkeep, hsub.cons _, ?_, ?_⟩
        · intro h hh
          rcases List.mem_cons.mp hh with rfl | hh
          · exact ⟨s, List.mem_cons_self, rfl⟩
          · obtain ⟨e, he, heq⟩ := hmem h hh
            exact ⟨e, List.mem_cons_of_mem _ he, heq⟩
        · intro k
          have hk := hcount k
          simp only [handleCount, takenCount, List.countP_cons, List.map_cons, List.count_cons,
            ofInstance, beq_iff_eq, decide_eq_true_eq] at hk ⊢
          omega

def runsCount (runs : List (InstanceHandle × Nat)) (k : InstanceHandle) : Nat :=
  (runs.map fun run => times run.1 run.2 k).sum

theorem runsCount_takenRuns (handles : List InstanceHandle) (k : InstanceHandle) :
    runsCount (takenRuns handles) k = takenCount handles k := by
  induction handles with
  | nil => rfl
  | cons h rest ih =>
    unfold takenRuns
    rw [takenCount, List.count_cons, ← takenCount, ← ih]
    cases takenRuns rest with
    | nil =>
      by_cases hk : k = h
      · simp [runsCount, times, hk]
      · simp [runsCount, times, hk, Ne.symm hk]
    | cons run runs =>
      obtain ⟨h', n⟩ := run
      simp only
      split
      · next heq =>
        subst heq
        by_cases hk : k = h
        · simp [runsCount, times, hk]
          omega
        · simp [runsCount, times, hk, Ne.symm hk]
      · by_cases hk : k = h
        · simp [runsCount, times, hk]
          omega
        · simp [runsCount, times, hk, Ne.symm hk]

theorem foldl_noteTaken_drained (hi : Indexed t) (runs : List (InstanceHandle × Nat)) :
    Drained (runsCount runs) t (runs.foldl (fun t run => t.noteTaken run.1 run.2) t) := by
  induction runs generalizing t with
  | nil => exact .of_sameUnder hi (.refl t)
  | cons run runs ih =>
    have hone := Drained.noteTaken hi run.1 run.2
    exact (hone.trans (ih hone.indexed)).congr fun k => by simp [runsCount]

theorem noteTakenRuns_drained (hi : Indexed t) (handles : List InstanceHandle)
    (hnil : ∀ h ∈ handles, h ≠ handleNil) :
    Drained (takenCount handles) t (noteTakenRuns t handles) := by
  have hall : handles.filter (· ≠ handleNil) = handles :=
    List.filter_eq_self.mpr fun h hh => decide_eq_true (hnil h hh)
  unfold noteTakenRuns
  rw [hall]
  exact (foldl_noteTaken_drained hi _).congr (runsCount_takenRuns handles)

theorem takeValues_counted (hc : CountedReader r)
    (hall : ∀ s ∈ upTo cfg.presentationLimit r.cache, HandsOut cfg s) :
    CountedReader (takeValues cfg r).1 := by
  rw [← leftOf_zero cfg.presentationLimit] at hall
  obtain ⟨keep, hkeep, hsub, hmem, hcount⟩ := drainValues_parts cfg hall
  have hdrained := noteTakenRuns_drained hc.indexed
    ((drainValues cfg cfg.presentationLimit 0 r.cache).1.map Prod.fst) (by
      intro h hh
      obtain ⟨e, he, rfl⟩ := hmem h hh
      exact hc.handle_ne_nil he)
  unfold takeValues
  simp only [hkeep]
  exact Counted.take hc hdrained hcount (fun e he => ⟨e, hsub.subset he, rfl⟩) hsub.length_le

/-! ### Queries and reads -/

theorem foldl_markViewSeen_drained (hi : Indexed t) (out : List (Sample T)) :
    Drained (fun _ => 0) t (out.foldl (fun t s => t.markViewSeen s.info.instanceHandle) t) := by
  induction out generalizing t with
  | nil => exact .of_sameUnder hi (.refl t)
  | cons s rest ih =>
    have hone := Drained.markViewSeen hi s.info.instanceHandle
    exact (hone.trans (ih hone.indexed)).congr fun _ => rfl

theorem CountedReader.seen (hc : CountedReader r) (out : List (Sample T))
    (hhandles : cache.map (·.info.instanceHandle) = r.cache.map (·.info.instanceHandle)) :
    CountedReader { r with
      instances := out.foldl (fun t s => t.markViewSeen s.info.instanceHandle) r.instances
      cache := cache } := by
  have hseen := foldl_markViewSeen_drained hc.indexed out
  exact (Counted.of_handles hc hhandles).of_sameUnder hseen.indexed hseen.counts

theorem readLoop_handles (pick : CachedSample T → Option (Except DdsError (Sample T)))
    (limit : Option Nat) (n : Nat) (cache : List (CachedSample T)) :
    (readLoop pick limit n cache).2.1.map (·.info.instanceHandle) =
      cache.map (·.info.instanceHandle) := by
  induction cache generalizing n with
  | nil => rfl
  | cons s rest ih =>
    unfold readLoop
    split
    · rfl
    · split
      · simp [ih]
      · rfl
      · simp [ih, markRead]

theorem readWith_counted (hc : CountedReader r)
    (pick : CachedSample T → Option (Except DdsError (Sample T))) (limit : Option Nat) :
    CountedReader (r.readWith pick limit).1 :=
  hc.seen _ (readLoop_handles pick limit 0 r.cache)

theorem chooseMatching_places {cond : QueryCondition T} {sel : Selection} {index : Nat}
    {chosen : List (Nat × Sample T)} (h : chooseMatching cfg r cond sel index cache = .ok chosen) :
    (chosen.map Prod.fst).Pairwise (· < ·) ∧
      ∀ c ∈ chosen, ∃ e, index ≤ c.1 ∧ (e, c.1) ∈ cache.zipIdx index ∧ c.2.info = e.info := by
  induction cache generalizing index chosen with
  | nil =>
    cases h
    exact ⟨.nil, List.forall_mem_nil _⟩
  | cons s rest ih =>
    have hlift : ∀ chosen, chooseMatching cfg r cond sel (index + 1) rest = .ok chosen →
        (chosen.map Prod.fst).Pairwise (· < ·) ∧ ∀ c ∈ chosen, ∃ e, index < c.1 ∧
          (e, c.1) ∈ (s :: rest).zipIdx index ∧ c.2.info = e.info := by
      intro chosen hchosen
      obtain ⟨hsorted, hplace⟩ := ih hchosen
      refine ⟨hsorted, fun c hcm => ?_⟩
      obtain ⟨e, hle, hmem, hinfo⟩ := hplace c hcm
      exact ⟨e, hle, List.mem_cons_of_mem _ hmem, hinfo⟩
    unfold chooseMatching at h
    split at h
    · obtain ⟨hsorted, hplace⟩ := hlift chosen h
      exact ⟨hsorted, fun c hcm => (hplace c hcm).imp fun _ hp => ⟨hp.1.le, hp.2⟩⟩
    · split at h
      · cases h
      · next data hdata =>
        cases hrest : chooseMatching cfg r cond sel (index + 1) rest with
        | error e => simp [hrest, Except.map] at h
        | ok left =>
          obtain ⟨hsorted, hplace⟩ := hlift left hrest
          rw [hrest] at h
          simp only at h
          split at h
          · cases h
            refine ⟨?_, ?_⟩
            · rw [List.map_cons, List.pairwise_cons]
              refine ⟨fun i hi => ?_, hsorted⟩
              obtain ⟨c, hcm, rfl⟩ := List.mem_map.mp hi
              exact (hplace c hcm).choose_spec.1
            · intro c hcm
              rcases List.mem_cons.mp hcm with rfl | hcm
              · exact ⟨s, le_rfl, List.mem_cons_self, rfl⟩
              · exact (hplace c hcm).imp fun _ hp => ⟨hp.1.le, hp.2⟩
          · cases h
            exact ⟨hsorted, fun c hcm => (hplace c hcm).imp fun _ hp => ⟨hp.1.le, hp.2⟩⟩

theorem handleCount_without_places {chosen : List (Nat × Sample T)}
    (hnodup : (chosen.map Prod.fst).Nodup)
    (hplace : ∀ c ∈ chosen, ∃ e, (e, c.1) ∈ cache.zipIdx ∧ c.2.info = e.info) (k : InstanceHandle) :
    handleCount k cache =
      handleCount k ((cache.zipIdx.filter fun e =>
        !(chosen.map Prod.fst).contains e.2).map Prod.fst) +
        takenCount ((chosen.map Prod.snd).map (·.info.instanceHandle)) k := by
  have hat : ∀ {e i}, (e, i) ∈ cache.zipIdx → cache[i]? = some e := by
    intro e i hmem
    exact List.mem_zipIdx_iff_getElem?.mp hmem
  let handleAt : Nat → InstanceHandle := fun i =>
    (cache[i]?.map (·.info.instanceHandle)).getD handleNil
  have hchosen : (chosen.map Prod.snd).map (·.info.instanceHandle) =
      (chosen.map Prod.fst).map handleAt := by
    rw [List.map_map, List.map_map]
    refine List.map_congr_left fun c hcm => ?_
    obtain ⟨e, hmem, hinfo⟩ := hplace c hcm
    simp [handleAt, hat hmem, hinfo]
  have hperm : (chosen.map Prod.fst).Perm
      ((cache.zipIdx.filter fun e => (chosen.map Prod.fst).contains e.2).map Prod.snd) := by
    refine (List.perm_ext_iff_of_nodup hnodup ?_).mpr fun i => ?_
    · have hall : (cache.zipIdx.map Prod.snd).Nodup := by
        rw [List.zipIdx_map_snd]
        exact List.nodup_range'
      exact hall.sublist (List.filter_sublist.map Prod.snd)
    · constructor
      · intro hi
        obtain ⟨c, hcm, rfl⟩ := List.mem_map.mp hi
        obtain ⟨e, hmem, _⟩ := hplace c hcm
        refine List.mem_map.mpr ⟨(e, c.1), List.mem_filter.mpr ⟨hmem, ?_⟩, rfl⟩
        simpa using ⟨c.2, hcm⟩
      · intro hi
        obtain ⟨e, hmem, rfl⟩ := List.mem_map.mp hi
        simpa using (List.mem_filter.mp hmem).2
  have htaken : takenCount ((chosen.map Prod.snd).map (·.info.instanceHandle)) k =
      (cache.zipIdx.filter fun e => (chosen.map Prod.fst).contains e.2).countP
        (ofInstance k ∘ Prod.fst) := by
    rw [hchosen, takenCount, (hperm.map handleAt).count_eq, List.map_map, List.count,
      List.countP_map]
    refine List.countP_congr fun e hmem => ?_
    have hget := hat (List.mem_filter.mp hmem).1
    simp [handleAt, hget, ofInstance]
  have hall : handleCount k cache = cache.zipIdx.countP (ofInstance k ∘ Prod.fst) := by
    rw [← List.countP_map, List.zipIdx_map_fst]
    rfl
  rw [hall, htaken, handleCount, List.countP_map, Nat.add_comm]
  rw [List.countP_eq_countP_filter_add _ _ fun e => (chosen.map Prod.fst).contains e.2]

theorem orderChosen_perm (cond : QueryCondition T) (chosen : List (Nat × Sample T)) :
    (orderChosen cfg cond chosen).Perm chosen := by
  unfold orderChosen
  split
  · split
    · exact List.mergeSort_perm _ _
    · exact .refl _
  · exact List.mergeSort_perm _ _

theorem CountedReader.chosen (hc : CountedReader r) {chosen : List (Nat × Sample T)}
    (hnodup : (chosen.map Prod.fst).Nodup)
    (hplace : ∀ c ∈ chosen, ∃ e, (e, c.1) ∈ r.cache.zipIdx ∧ c.2.info = e.info) :
    CountedReader { r with
        instances := noteTakenEach r.instances (chosen.map Prod.snd)
        cache := (r.cache.zipIdx.filter fun e =>
          !(chosen.map Prod.fst).contains e.2).map Prod.fst } ∧
      CountedReader { r with
        instances := (chosen.map Prod.snd).foldl
          (fun t s => t.markViewSeen s.info.instanceHandle) r.instances
        cache := r.cache.zipIdx.map fun e =>
          if (chosen.map Prod.fst).contains e.2 then markRead e.1 else e.1 } := by
  constructor
  · have hdrained := noteTakenEach_drained hc.indexed (chosen.map Prod.snd) (by
      intro s hs
      obtain ⟨c, hcm, rfl⟩ := List.mem_map.mp hs
      obtain ⟨e, hmem, hinfo⟩ := hplace c hcm
      rw [hinfo]
      exact hc.handle_ne_nil (List.fst_mem_of_mem_zipIdx hmem))
    have hleft : ((r.cache.zipIdx.filter fun e =>
        !(chosen.map Prod.fst).contains e.2).map Prod.fst).Sublist r.cache := by
      have hmap := (List.filter_sublist (p := fun e : CachedSample T × Nat =>
        !(chosen.map Prod.fst).contains e.2) (l := r.cache.zipIdx)).map Prod.fst
      rwa [List.zipIdx_map_fst] at hmap
    exact Counted.take hc hdrained (handleCount_without_places hnodup hplace)
      (fun e he => ⟨e, hleft.subset he, rfl⟩) hleft.length_le
  · refine hc.seen _ ?_
    rw [List.map_map]
    have hsame : ∀ e : CachedSample T × Nat,
        (if (chosen.map Prod.fst).contains e.2 then markRead e.1 else e.1).info.instanceHandle =
          e.1.info.instanceHandle := by
      intro e
      split <;> rfl
    calc r.cache.zipIdx.map _ = r.cache.zipIdx.map (fun e => e.1.info.instanceHandle) :=
          List.map_congr_left fun e _ => hsame e
      _ = (r.cache.zipIdx.map Prod.fst).map (·.info.instanceHandle) := by rw [List.map_map]; rfl
      _ = r.cache.map (·.info.instanceHandle) := by rw [List.zipIdx_map_fst]

theorem querySelected_counted (hc : CountedReader r) (cond : QueryCondition T) (max : Option Nat)
    (take : Bool) (instance? : Option InstanceHandle) :
    CountedReader (querySelected cfg r cond max take instance?).1 := by
  have hr := hc.refreshStates
  unfold querySelected
  simp only
  split
  · exact hr
  · split
    · exact hr
    · next chosen hchosen =>
      obtain ⟨hsorted, hplace⟩ := chooseMatching_places cfg hchosen
      have hperm := orderChosen_perm cfg cond chosen
      have hordered : ((orderChosen cfg cond chosen).map Prod.fst).Nodup :=
        (hperm.map Prod.fst).nodup_iff.mpr (hsorted.imp fun h => Nat.ne_of_lt h)
      have hlimited : ∀ limited : List (Nat × Sample T),
          limited.Sublist (orderChosen cfg cond chosen) →
          (limited.map Prod.fst).Nodup ∧ ∀ c ∈ limited, ∃ e,
            (e, c.1) ∈ r.refreshStates.cache.zipIdx ∧ c.2.info = e.info := by
        intro limited hsub
        refine ⟨hordered.sublist (hsub.map Prod.fst), fun c hcm => ?_⟩
        obtain ⟨e, _, hmem, hinfo⟩ := hplace c (hperm.subset (hsub.subset hcm))
        exact ⟨e, hmem, hinfo⟩
      cases tighter cfg.presentationLimit max with
      | none =>
        have hboth := hr.chosen (hlimited _ (.refl _)).1 (hlimited _ (.refl _)).2
        cases take with
        | true => exact hboth.1
        | false => exact hboth.2
      | some limit =>
        have hsub := List.take_sublist limit (orderChosen cfg cond chosen)
        have hboth := hr.chosen (hlimited _ hsub).1 (hlimited _ hsub).2
        cases take with
        | true => exact hboth.1
        | false => exact hboth.2

def CountSafe (r : DataReader T) : ReaderStep T → Prop
  | .sample now raw _ =>
    (cfg.qos.exclusiveOwnership = true → stopsEarly cfg now raw = true) ∧
      (∀ sample,
        cfg.codec.decode raw.bytes.octets raw.representation raw.bigEndian = .ok sample →
        FreshKeyHandle r (cfg.codec.instanceKeyHash sample)) ∧
      r.cache.length < Rtps.u32Max
  | .marker m => FreshKeyHandle r (markerKey cfg m) ∧ r.cache.length < Rtps.u32Max
  | .departure _ writer => LeavesWriters r writer
  | .takeValues => ∀ s ∈ upTo cfg.presentationLimit r.cache, HandsOut cfg s
  | .takeSelected sel max => CleanLoop cfg r sel.wants (tighter cfg.presentationLimit max)
  | .takeOfInstance handle => CleanLoop cfg r (ofInstance handle) cfg.presentationLimit
  | .lifespan _ | .strength _ _ | .autopurge _ | .query _ _ _ _ | .readValues
  | .readSelected _ _ | .readOfInstance _ => True

theorem step_counted (hc : CountedReader r) (s : ReaderStep T) (hsafe : CountSafe cfg r s) :
    CountedReader (DataReader.perform cfg r s) := by
  cases s with
  | sample now raw timeFilter =>
    exact sample_counted cfg hc now raw timeFilter hsafe.1
      (fun sample hdecode => (hsafe.2.1 sample hdecode).fresh hc.indexed) hsafe.2.2
  | marker m => exact ingestLifecycle_counted cfg hc m (hsafe.1.fresh hc.indexed) hsafe.2
  | lifespan now => exact lifespan_counted hc now
  | strength writer strength => exact strength_counted hc writer strength
  | departure now writer => exact departWriter_counted hc now writer hsafe
  | autopurge now => exact autopurge_counted cfg hc now
  | takeValues => exact takeValues_counted cfg hc hsafe
  | takeSelected sel max => exact takeSelected_counted cfg hc sel max hsafe
  | takeOfInstance handle => exact takeOfInstance_counted cfg hc handle hsafe
  | query cond max take instance? => exact querySelected_counted cfg hc cond max take instance?
  | readValues => exact readWith_counted hc _ _
  | readSelected sel max => exact readWith_counted hc.refreshStates _ _
  | readOfInstance handle => exact readWith_counted hc.refreshStates _ _

/-- Over every run of counted steps, each instance counts exactly its samples in the cache. -/
theorem counts_exact (t : InstanceTracker) (ht : t = .new ∨ t = .withKeyHandles)
    {h : History (Event T) (Reply T)} {r : DataReader T}
    (hr : Reaches (handle cfg) (StepsMeet cfg (CountSafe cfg)) (DataReader.new t) h r) :
    CountsExact r := by
  have hstart : CountedReader (DataReader.new t : DataReader T) := by
    rcases ht with rfl | rfl
    · exact countedReader_new InstanceTracker.indexed_new fun _ => rfl
    · exact countedReader_new InstanceTracker.indexed_withKeyHandles fun _ => rfl
  have hinv := reaches_invariant cfg (P := CountedReader) hr hstart
    (fun _ _ hsame hc => hc.of_same hsame.cache hsame.instances)
    (fun r s hsafe hc => step_counted cfg hc s hsafe)
  exact hinv.exact

theorem forall_stateOf_iff {P : InstanceState → Prop} :
    (∀ kh s, t.stateOf kh = some s → P s) ↔ ∀ s ∈ t.byKeyhash.values, P s := by
  constructor
  · intro h s hs
    obtain ⟨kh, hget⟩ := SortedMap.mem_values.mp hs
    exact h kh s hget
  · intro h kh s hs
    exact h s (SortedMap.mem_values.mpr ⟨kh, hs⟩)

instance (r : DataReader T) : Decidable (CountsExact r) :=
  decidable_of_iff _ (forall_stateOf_iff (t := r.instances)
    (P := fun s => s.samplesInCache = handleCount s.handle r.cache)).symm

instance (t : InstanceTracker) (kh : KeyHash) : Decidable (Indexed.Unshared t kh) :=
  decidable_of_iff _ (forall_stateOf_iff (P := fun s => s.handle ≠ t.newHandle kh)).symm

instance (r : DataReader T) (kh : KeyHash) : Decidable (FreshKeyHandle r kh) :=
  inferInstanceAs (Decidable (_ → _ → _))

instance (r : DataReader T) (writer : WriterGuid) : Decidable (LeavesWriters r writer) :=
  decidable_of_iff _ (forall_stateOf_iff (P := fun s => ¬ s.LosesLastWriter writer)).symm

instance (r : DataReader T) (s : CachedSample T) : Decidable (Materialises cfg r s) :=
  inferInstanceAs (Decidable (_ = none))

instance (r : DataReader T) (wanted : CachedSample T → Bool) (limit : Option Nat) :
    Decidable (CleanLoop cfg r wanted limit) :=
  inferInstanceAs (Decidable (_ ∨ _))

instance (r : DataReader T) (raw : RawIngestSample) : Decidable (∀ sample,
    cfg.codec.decode raw.bytes.octets raw.representation raw.bigEndian = .ok sample →
    FreshKeyHandle r (cfg.codec.instanceKeyHash sample)) :=
  match h : cfg.codec.decode raw.bytes.octets raw.representation raw.bigEndian with
  | .ok sample => decidable_of_iff (FreshKeyHandle r (cfg.codec.instanceKeyHash sample)) (by
      simp)
  | .error _ => .isTrue nofun

instance (r : DataReader T) : ∀ s, Decidable (CountSafe cfg r s)
  | .sample _ _ _ | .marker _ => inferInstanceAs (Decidable (_ ∧ _))
  | .departure _ _ => inferInstanceAs (Decidable (LeavesWriters _ _))
  | .takeValues => inferInstanceAs (Decidable (∀ s ∈ _, _))
  | .takeSelected _ _ | .takeOfInstance _ => inferInstanceAs (Decidable (CleanLoop _ _ _ _))
  | .lifespan _ | .strength _ _ | .autopurge _ | .query _ _ _ _ | .readValues
  | .readSelected _ _ | .readOfInstance _ => .isTrue trivial

instance (ok : DataReader T → ReaderStep T → Prop) [∀ r s, Decidable (ok r s)] (r : DataReader T)
    (event : Event T) : Decidable (StepsMeet cfg ok r event) :=
  decidable_of_iff (∀ p ∈ trace cfg r event, ok p.1 p.2)
    ⟨fun h r s hmem => h (r, s) hmem, fun h p hmem => h p.1 p.2 hmem⟩

/-- Two samples of an instance, both taken, and a dispose. -/
theorem counts_exact_after_dispose :
    CountsExact (run (handle (octetConfig reliableQos)) (DataReader.new .new)
      [.arrive (octetSample 1 [1, 0] 1), .arrive (octetSample 1 [1, 2] 2), .take,
        .arrive (octetMarker 1 1 [1] .notAliveDisposed), .ingest]).1 :=
  counts_exact (octetConfig reliableQos) .new (.inl rfl) (reaches_run (by decide +kernel))

/-- Under EXCLUSIVE ownership one sample counts twice. -/
theorem counts_drift_exclusive :
    ¬ ∀ (cfg : ReaderConfig (UInt8 × UInt8)) (h : History (Event (UInt8 × UInt8)) _)
      (r : DataReader (UInt8 × UInt8)),
      Reaches (handle cfg) unrestricted (DataReader.new .new) h r → CountsExact r := by
  intro hall
  have hrun : Reaches (handle (octetConfig { reliableQos with exclusiveOwnership := true }))
      unrestricted (DataReader.new .new) _ _ :=
    reaches_run (runOk_unrestricted _ [.arrive (octetSample 1 [1, 0] 1), .ingest])
  have hexact := hall _ _ _ hrun
  revert hexact
  decide +kernel

end DataReader
end ZeroDds.Dcps
