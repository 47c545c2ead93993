/-
The count of an instance and the cache.
-/
import ZeroDds.Dcps.Access
import ZeroDds.Dcps.IngestSteps
import ZeroDds.Dcps.Instances

namespace ZeroDds.Dcps

open InstanceTracker (Indexed SameUnder)

def InstanceState.quantity (s : InstanceState) : InstanceHandle × Nat :=
  (s.handle, s.samplesInCache)

namespace InstanceTracker

structure Drained (n : InstanceHandle → Nat) (t t' : InstanceTracker) : Prop where
  indexed : Indexed t'
  counts : ∀ kh, (t'.stateOf kh).map InstanceState.quantity =
    (t.stateOf kh).map fun s => (s.handle, s.samplesInCache - n s.handle)

def times (h : InstanceHandle) (k : Nat) (h' : InstanceHandle) : Nat := if h' = h then k else 0

namespace Drained

variable {t t₁ t₂ : InstanceTracker} {n m : InstanceHandle → Nat}

theorem of_sameUnder (hi : Indexed t₁) (h : SameUnder InstanceState.quantity t t₁) :
    Drained (fun _ => 0) t t₁ :=
  ⟨hi, h⟩

theorem trans (h : Drained n t t₁) (h' : Drained m t₁ t₂) : Drained (fun k => n k + m k) t t₂ := by
  refine ⟨h'.indexed, fun kh => ?_⟩
  rw [h'.counts kh]
  have hk := h.counts kh
  cases hs : t.stateOf kh with
  | none =>
    rw [hs] at hk
    rw [Option.map_eq_none_iff.mp hk]
    rfl
  | some s =>
    rw [hs] at hk
    obtain ⟨s₁, hs₁, heq⟩ := Option.map_eq_some_iff.mp hk
    obtain ⟨hhandle, hcount⟩ := Prod.mk.inj heq
    rw [hs₁]
    simp only [Option.map_some, hhandle, hcount, Nat.sub_sub]

theorem congr (h : Drained n t t₁) (heq : ∀ k, n k = m k) : Drained m t t₁ := by
  have : n = m := funext heq
  rwa [← this]

theorem drainSamples (hi : Indexed t) (h : InstanceHandle) (k : Nat) :
    Drained (times h k) t (t.drainSamples h k) := by
  refine ⟨hi.modifyHandle fun _ => rfl, fun kh => ?_⟩
  rw [InstanceTracker.drainSamples, hi.stateOf_modifyHandle, Option.map_map]
  congr 1
  funext s
  by_cases hh : s.handle = h <;> simp [hh, InstanceState.quantity, InstanceState.drained, times]

theorem markViewSeen (hi : Indexed t) (h : InstanceHandle) :
    Drained (fun _ => 0) t (t.markViewSeen h) :=
  of_sameUnder (hi.modifyHandle fun _ => rfl) (.modifyHandle fun _ => rfl)

theorem noteTaken (hi : Indexed t) (h : InstanceHandle) (k : Nat) :
    Drained (times h k) t (t.noteTaken h k) := by
  refine ⟨hi.modifyHandle fun _ => rfl, fun kh => ?_⟩
  rw [InstanceTracker.noteTaken, hi.stateOf_modifyHandle, Option.map_map]
  congr 1
  funext s
  by_cases hh : s.handle = h <;>
    simp [hh, InstanceState.quantity, InstanceState.drained, InstanceState.seen, times]

end Drained
end InstanceTracker

open InstanceTracker (Drained times)

namespace DataReader

variable {T : Type}

/-! ### The cache and the counts -/

def handleCount (h : InstanceHandle) (cache : List (CachedSample T)) : Nat :=
  cache.countP (ofInstance h)

structure Counted (extra : InstanceHandle → Nat) (cache : List (CachedSample T))
    (t : InstanceTracker) : Prop where
  indexed : Indexed t
  counts : ∀ kh s, t.stateOf kh = some s →
    s.samplesInCache = handleCount s.handle cache + extra s.handle
  known : ∀ e ∈ cache, ∃ kh s, t.stateOf kh = some s ∧ s.handle = e.info.instanceHandle
  bound : cache.length ≤ Rtps.u32Max

variable {extra : InstanceHandle → Nat} {cache cache' : List (CachedSample T)}
  {t t' : InstanceTracker} {n : InstanceHandle → Nat}

theorem handleCount_le (h : InstanceHandle) (cache : List (CachedSample T)) :
    handleCount h cache ≤ cache.length := List.countP_le_length

namespace Counted

theorem of_sameUnder (h : Counted extra cache t) (hi : Indexed t')
    (hsame : SameUnder InstanceState.quantity t t') : Counted extra cache t' where
  indexed := hi
  counts kh s hs := by
    obtain ⟨s₀, hs₀, heq⟩ := hsame.stateOf_eq_some hs
    obtain ⟨hhandle, hcount⟩ := Prod.mk.inj heq
    rw [← hhandle, ← hcount]
    exact h.counts kh s₀ hs₀
  known e he := by
    obtain ⟨kh, s, hs, hh⟩ := h.known e he
    obtain ⟨s', hs', heq⟩ := hsame.symm.stateOf_eq_some hs
    exact ⟨kh, s', hs', (Prod.mk.inj heq).1.trans hh⟩
  bound := h.bound

theorem of_handles (h : Counted extra cache t)
    (hhandles : cache'.map (·.info.instanceHandle) = cache.map (·.info.instanceHandle)) :
    Counted extra cache' t := by
  have hcount : ∀ k, handleCount k cache' = handleCount k cache := by
    intro k
    have hmap : ∀ l : List (CachedSample T), handleCount k l =
        (l.map (·.info.instanceHandle)).countP (fun h' => decide (h' = k)) := by
      intro l
      rw [List.countP_map]
      rfl
    rw [hmap, hmap, hhandles]
  refine ⟨h.indexed, ?_, ?_, ?_⟩
  · intro kh s hs
    rw [hcount]
    exact h.counts kh s hs
  · intro e he
    have hmem : e.info.instanceHandle ∈ cache.map (·.info.instanceHandle) := by
      rw [← hhandles]
      exact List.mem_map_of_mem he
    obtain ⟨e₀, he₀, heq⟩ := List.mem_map.mp hmem
    rw [← heq]
    exact h.known e₀ he₀
  · have hlength := congrArg List.length hhandles
    simp only [List.length_map] at hlength
    rw [hlength]
    exact h.bound

theorem take (h : Counted extra cache t) (hd : Drained n t t')
    (hcount : ∀ k, handleCount k cache = handleCount k cache' + n k)
    (hsub : ∀ e ∈ cache', ∃ e₀ ∈ cache, e₀.info.instanceHandle = e.info.instanceHandle)
    (hlength : cache'.length ≤ cache.length) : Counted extra cache' t' where
  indexed := hd.indexed
  counts kh s hs := by
    have hk := hd.counts kh
    rw [hs] at hk
    obtain ⟨s₀, hs₀, heq⟩ := Option.map_eq_some_iff.mp hk.symm
    obtain ⟨hhandle, hdrained⟩ := Prod.mk.inj heq
    have hbefore := h.counts kh s₀ hs₀
    have hsplit := hcount s₀.handle
    rw [← hhandle, ← hdrained]
    omega
  known e he := by
    obtain ⟨e₀, he₀, heq⟩ := hsub e he
    obtain ⟨kh, s, hs, hh⟩ := h.known e₀ he₀
    have hk := hd.counts kh
    rw [hs] at hk
    obtain ⟨s', hs', hq⟩ := Option.map_eq_some_iff.mp hk
    exact ⟨kh, s', hs', ((Prod.mk.inj hq).1.trans hh).trans heq⟩
  bound := hlength.trans h.bound

theorem evictsOne {r r' : DataReader T} (h : Counted extra r.cache r.instances)
    (hone : EvictsOne r r') : Counted extra r'.cache r'.instances := by
  obtain ⟨pre, s, post, t, hcache, rfl, ht⟩ := hone
  have hmem : s ∈ r.cache := by simp [hcache]
  have hdrained : Drained (times s.info.instanceHandle 1) r.instances t := by
    rcases ht with rfl | ⟨hnil, _⟩
    · exact .drainSamples h.indexed _ _
    · obtain ⟨kh, st, hst, hh⟩ := h.known s hmem
      exact absurd (hh.trans hnil) (h.indexed.ne_nil kh st hst)
  refine h.take hdrained ?_ ?_ ?_
  · intro k
    rw [hcache]
    simp only [handleCount, List.countP_append, List.countP_cons, ofInstance, times]
    by_cases hk : s.info.instanceHandle = k
    · simp [hk]
      omega
    · simp [hk, Ne.symm hk]
  · intro e he
    refine ⟨e, ?_, rfl⟩
    rw [hcache]
    rcases List.mem_append.mp he with he | he
    · exact List.mem_append_left _ he
    · exact List.mem_append_right _ (List.mem_cons_of_mem _ he)
  · simp only [hcache, List.length_append, List.length_cons]
    omega

theorem evicts {r r' : DataReader T} (h : Counted extra r.cache r.instances)
    (hevicts : Evicts r r') : Counted extra r'.cache r'.instances :=
  hevicts.preserves (P := fun r => Counted extra r.cache r.instances)
    (fun hone h => h.evictsOne hone) h

theorem uncount {h : InstanceHandle} (hc : Counted (times h 1) cache t) :
    Counted (fun _ => 0) cache (t.drainSamples h 1) := by
  have hd := Drained.drainSamples hc.indexed h 1
  refine ⟨hd.indexed, ?_, ?_, hc.bound⟩
  · intro kh s hs
    have hk := hd.counts kh
    rw [hs] at hk
    obtain ⟨s₀, hs₀, heq⟩ := Option.map_eq_some_iff.mp hk.symm
    obtain ⟨hhandle, hdrained⟩ := Prod.mk.inj heq
    have hbefore := hc.counts kh s₀ hs₀
    rw [← hhandle, ← hdrained]
    omega
  · intro e he
    obtain ⟨kh, s, hs, hh⟩ := hc.known e he
    have hk := hd.counts kh
    rw [hs] at hk
    obtain ⟨s', hs', hq⟩ := Option.map_eq_some_iff.mp hk
    exact ⟨kh, s', hs', (Prod.mk.inj hq).1.trans hh⟩

theorem push {h : InstanceHandle} {e : CachedSample T} (hc : Counted (times h 1) cache t)
    (hhandle : e.info.instanceHandle = h) (hknown : ∃ kh s, t.stateOf kh = some s ∧ s.handle = h)
    (hroom : cache.length < Rtps.u32Max) : Counted (fun _ => 0) (cache ++ [e]) t := by
  refine ⟨hc.indexed, ?_, ?_, ?_⟩
  · intro kh s hs
    have hbefore := hc.counts kh s hs
    rw [hbefore]
    simp only [handleCount, List.countP_append, List.countP_singleton, ofInstance, hhandle, times]
    by_cases hk : s.handle = h
    · simp [hk]
    · simp [hk, Ne.symm hk]
  · intro e' he'
    rcases List.mem_append.mp he' with he' | he'
    · exact hc.known e' he'
    · rw [List.mem_singleton.mp he', hhandle]
      exact hknown
  · simp only [List.length_append, List.length_singleton]
    omega

theorem observe {kh : KeyHash} {keyHolder : Option Rtps.Octets} {s : InstanceState}
    (hc : Counted (fun _ => 0) cache t) (hi : Indexed t')
    (hstate : ∀ kh', t'.stateOf kh' = if kh' = kh then some s else t.stateOf kh')
    (hhandle : s.handle = (t.entry kh keyHolder).1.handle)
    (hcount : s.samplesInCache = satIncU32 (t.entry kh keyHolder).1.samplesInCache)
    (hfresh : t.stateOf kh = none → Indexed.Unshared t kh) (hroom : cache.length < Rtps.u32Max) :
    Counted (times s.handle 1) cache t' := by
  have hown : (t.entry kh keyHolder).1.samplesInCache = handleCount s.handle cache := by
    rw [hhandle]
    unfold InstanceTracker.entry
    cases hs₀ : t.stateOf kh with
    | some s₀ => exact hc.counts kh s₀ hs₀
    | none =>
      refine Eq.symm (List.countP_eq_zero.mpr fun e he => ?_)
      obtain ⟨kh', s', hs', hh⟩ := hc.known e he
      have hne := hfresh hs₀ kh' s' hs'
      rw [hh] at hne
      exact fun h => hne (of_decide_eq_true h)
  have hsmall : handleCount s.handle cache < Rtps.u32Max :=
    lt_of_le_of_lt (handleCount_le _ _) hroom
  refine ⟨hi, ?_, ?_, hc.bound⟩
  · intro kh' s' hs'
    rw [hstate] at hs'
    split at hs'
    · cases hs'
      rw [hcount, hown, satIncU32, if_pos hsmall]
      simp [times]
    · next hne =>
      have hother : s'.handle ≠ s.handle := by
        intro heq
        have hk : t'.stateOf kh' = some s' := by rw [hstate, if_neg hne, hs']
        have hk' : t'.stateOf kh = some s := by rw [hstate, if_pos rfl]
        exact hne (hi.key_unique hk hk' heq)
      rw [hc.counts kh' s' hs']
      simp [times, hother]
  · intro e he
    obtain ⟨kh', s', hs', hh⟩ := hc.known e he
    by_cases hk : kh' = kh
    · subst hk
      refine ⟨kh', s, by rw [hstate, if_pos rfl], ?_⟩
      rw [hhandle, ← hh]
      simp [InstanceTracker.entry, hs']
    · exact ⟨kh', s', by rw [hstate, if_neg hk, hs'], hh⟩

end Counted
end DataReader
end ZeroDds.Dcps
