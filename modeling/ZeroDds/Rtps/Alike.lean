/-
Deliveries that look alike.
-/
import ZeroDds.Rtps.Refinement

namespace ZeroDds.Rtps.Delivery

open WriterProxyState

/-! ### The loop without its fuel -/

variable {be : Bool} {d : Delivery}

theorem collectLoop_of_done (h : d.collectStep be = none) (fuel : Nat) :
    collectLoop be fuel d = d := by
  cases fuel with
  | zero => rfl
  | succ fuel => simp [collectLoop, h]

theorem collectLoop_add {fuel : Nat} (h : (collectLoop be fuel d).collectStep be = none)
    (more : Nat) :
    collectLoop be (fuel + more) d = collectLoop be fuel d := by
  induction fuel generalizing d with
  | zero =>
    rw [collectLoop] at h
    rw [collectLoop_of_done h, collectLoop]
  | succ fuel ih =>
    rw [Nat.succ_add]
    cases hstep : d.collectStep be with
    | none => rw [collectLoop_of_done hstep, collectLoop_of_done hstep]
    | some d' =>
      simp only [collectLoop, hstep] at h ⊢
      exact ih h

theorem collectLoop_eq_collectInOrder (hd : d.state.proxy.Absorbed) {fuel : Nat}
    (h : (d.state.horizon - d.state.deliveredUpTo).toNat ≤ fuel) :
    collectLoop be fuel d = d.collectInOrder be := by
  obtain ⟨more, rfl⟩ := Nat.exists_eq_add_of_le h
  exact collectLoop_add (collectStep_collectInOrder be hd) more

theorem collectInOrder_of_step {d' : Delivery} (hd : d.state.proxy.Absorbed)
    (hd' : d'.state.proxy.Absorbed) (h : d.collectStep be = some d') :
    d.collectInOrder be = d'.collectInOrder be := by
  rw [← collectLoop_eq_collectInOrder hd (Nat.le_succ_of_le (Nat.le_add_right _
      (d'.state.horizon - d'.state.deliveredUpTo).toNat)),
    ← collectLoop_eq_collectInOrder hd' (Nat.le_add_left _
      (d.state.horizon - d.state.deliveredUpTo).toNat)]
  simp [collectLoop, h]

theorem collectInOrder_of_done (h : d.collectStep be = none) :
    d.collectInOrder be = d := collectLoop_of_done h _

/-- What a turn keeps between two deliveries, whichever of them takes it, the turns keep. -/
theorem collectInOrder_related {R : Delivery → Delivery → Prop} {d' : Delivery}
    (hsymm : ∀ {d d'}, R d d' → R d' d) (habs : ∀ {d d'}, R d d' → d.state.proxy.Absorbed)
    (hturn : ∀ {d d' e}, R d d' → d.collectStep be = some e →
      ∃ e', d'.collectStep be = some e' ∧ R e e') (h : R d d') :
    R (d.collectInOrder be) (d'.collectInOrder be) := by
  rw [← collectLoop_eq_collectInOrder (habs h) (Nat.le_add_right _
      (d'.state.horizon - d'.state.deliveredUpTo).toNat),
    ← collectLoop_eq_collectInOrder (habs (hsymm h)) (Nat.le_add_left _
      (d.state.horizon - d.state.deliveredUpTo).toNat)]
  generalize (d.state.horizon - d.state.deliveredUpTo).toNat +
    (d'.state.horizon - d'.state.deliveredUpTo).toNat = fuel
  induction fuel generalizing d d' with
  | zero => exact h
  | succ fuel ih =>
    cases hstep : d.collectStep be with
    | some e =>
      obtain ⟨e', hstep', hrelated⟩ := hturn h hstep
      simp only [collectLoop, hstep, hstep']
      exact ih hrelated
    | none =>
      have hstep' : d'.collectStep be = none := by
        cases hstep' : d'.collectStep be with
        | none => rfl
        | some e' =>
          obtain ⟨e, he, -⟩ := hturn (hsymm h) hstep'
          rw [hstep] at he
          cases he
      rw [collectLoop_of_done hstep, collectLoop_of_done hstep']
      exact h

/-! ### What each turn is -/

theorem collectStep_of_cached {c : CacheChange}
    (hget : d.state.receivedCache.get (d.state.deliveredUpTo + 1) = some c)
    (hbudget : d.budget ≠ some 0) : d.collectStep be = some (d.afterCached c) := by
  simp [collectStep, hget, hbudget, handOut_eq, afterCached]

section

variable (hget : d.state.receivedCache.get (d.state.deliveredUpTo + 1) = none)
include hget

theorem collectStep_of_known (hknown : d.state.proxy.isKnown (d.state.deliveredUpTo + 1) = true) :
    d.collectStep be = some { d with state :=
      { d.state with deliveredUpTo := d.state.deliveredUpTo + 1 }.followCoherentSetPast } := by
  simp [collectStep, hget, hknown]

theorem collectStep_of_gone (hknown : d.state.proxy.isKnown (d.state.deliveredUpTo + 1) = false)
    (hgone : d.state.deliveredUpTo + 1 < d.state.proxy.firstAvailableSn) :
    d.collectStep be = some { d with state :=
      { d.state with deliveredUpTo := d.state.deliveredUpTo + 1 } } := by
  simp [collectStep, hget, hknown, hgone]

theorem collectStep_of_skip {low : Int}
    (hknown : d.state.proxy.isKnown (d.state.deliveredUpTo + 1) = false)
    (hfirst : d.state.proxy.firstAvailableSn ≤ d.state.deliveredUpTo + 1)
    (hlow : d.state.receivedCache.minSn = some low) (hnext : d.state.deliveredUpTo + 1 < low) :
    d.collectStep true = some (d.afterSkip low) := by
  simp only [collectStep, hget, hknown, Bool.false_eq_true, if_false, not_lt.mpr hfirst, if_true,
    hlow, hnext, afterSkip]

end

/-- Nothing tells the two apart but what is known of the numbers outside `ok`, all
of which delivery has passed. -/
structure Alike (ok : Int → Prop) (d d' : Delivery) : Prop where
  shape : d.state.Shape
  shape' : d'.state.Shape
  writer : SameWriter d.state d'.state
  trusted : d'.state.forwarderTrusted = d.state.forwarderTrusted
  budget : d'.budget = d.budget
  out : d'.out = d.out
  delivered : d'.state.deliveredUpTo = d.state.deliveredUpTo
  held : ∀ n, d'.state.receivedCache.get n = d.state.receivedCache.get n
  track : d'.state.coherent = d.state.coherent
  known : ∀ n, ok n → d'.state.proxy.isKnown n = d.state.proxy.isKnown n
  first : ∀ n, d.state.deliveredUpTo < n →
    (n < d'.state.proxy.firstAvailableSn ↔ n < d.state.proxy.firstAvailableSn)
  ahead : ∀ n, d.state.deliveredUpTo < n → ok n

variable {ok : Int → Prop} {d d' : Delivery}

theorem Alike.symm (h : Alike ok d d') : Alike ok d' d where
  shape := h.shape'
  shape' := h.shape
  writer := ⟨h.writer.guid.symm, h.writer.committed.symm⟩
  trusted := h.trusted.symm
  budget := h.budget.symm
  out := h.out.symm
  delivered := h.delivered.symm
  held n := (h.held n).symm
  track := h.track.symm
  known n hn := (h.known n hn).symm
  first n hn := (h.first n (h.delivered ▸ hn)).symm
  ahead n hn := h.ahead n (h.delivered ▸ hn)

theorem minSn_congr {c c' : HistoryCache} (h : ∀ n, c'.get n = c.get n) : c'.minSn = c.minSn := by
  have hsome : ∀ a b : HistoryCache, (∀ n, b.get n = a.get n) → ∀ low, a.minSn = some low →
      b.minSn = some low := by
    intro a b hget low hlow
    obtain ⟨⟨ch, hch⟩, hmin⟩ := SortedMap.minKey?_eq_some.mp hlow
    exact SortedMap.minKey?_eq_some.mpr
      ⟨⟨ch, (hget low).trans hch⟩, fun k v hk => hmin k v ((hget k).symm.trans hk)⟩
  cases hlow : c.minSn with
  | some low => exact hsome c c' h low hlow
  | none =>
    cases hlow' : c'.minSn with
    | none => rfl
    | some low =>
      rw [hsome c' c (fun n => (h n).symm) low hlow'] at hlow
      cases hlow

theorem Alike.collectStep_some (h : Alike ok d d') {e : Delivery}
    (hstep : d.collectStep be = some e) : ∃ e', d'.collectStep be = some e' ∧ Alike ok e e' := by
  have hdel := h.delivered
  have hget : d'.state.receivedCache.get (d'.state.deliveredUpTo + 1) =
      d.state.receivedCache.get (d.state.deliveredUpTo + 1) := by rw [hdel, h.held]
  have hknown : d'.state.proxy.isKnown (d'.state.deliveredUpTo + 1) =
      d.state.proxy.isKnown (d.state.deliveredUpTo + 1) := by
    rw [hdel]
    exact h.known _ (h.ahead _ (by omega))
  have hfirst : d'.state.deliveredUpTo + 1 < d'.state.proxy.firstAvailableSn ↔
      d.state.deliveredUpTo + 1 < d.state.proxy.firstAvailableSn := by
    rw [hdel]
    exact h.first _ (by omega)
  rcases collectStep_cases hstep with
    ⟨c, hc, hbudget, rfl⟩
    | ⟨hnone, ⟨hk, rfl⟩ | ⟨hk, hlt, rfl⟩ | ⟨hk, hge, rfl, low, hlow, hnext, rfl⟩⟩
  · refine ⟨_, collectStep_of_cached (hget.trans hc) (h.budget ▸ hbudget), ?_⟩
    refine ⟨⟨h.shape.absorbed, h.shape.cache.removeUpTo _⟩,
      ⟨h.shape'.absorbed, h.shape'.cache.removeUpTo _⟩, ⟨h.writer.guid, h.writer.committed⟩,
      h.trusted, ?_, ?_, ?_, fun n => ?_, ?_, h.known, fun n hn => h.first n ?_,
      fun n hn => h.ahead n ?_⟩
    · simp [afterCached, spend, h.budget]
    · simp only [afterCached, spend, h.out, h.track, h.writer.guid]
    · simp [afterCached, spend, hdel]
    · simp only [afterCached, spend, HistoryCache.get_removeUpTo, h.held, hdel]
    · simp [afterCached, spend, h.track]
    · simp only [afterCached, spend] at hn
      omega
    · simp only [afterCached, spend] at hn
      omega
  · refine ⟨_, collectStep_of_known (hget.trans hnone) (hknown.trans hk), ?_⟩
    refine ⟨⟨h.shape.absorbed, h.shape.cache⟩, ⟨h.shape'.absorbed, h.shape'.cache⟩,
      ⟨h.writer.guid, h.writer.committed⟩, h.trusted, h.budget, h.out, ?_, h.held, ?_, h.known,
      fun n hn => h.first n ?_, fun n hn => h.ahead n ?_⟩
    · simp [followCoherentSetPast, hdel]
    · simp only [followCoherentSetPast, h.track]
    · simp only [followCoherentSetPast] at hn
      omega
    · simp only [followCoherentSetPast] at hn
      omega
  · refine ⟨_, collectStep_of_gone (hget.trans hnone) (hknown.trans hk) (hfirst.mpr hlt), ?_⟩
    refine ⟨⟨h.shape.absorbed, h.shape.cache⟩, ⟨h.shape'.absorbed, h.shape'.cache⟩,
      ⟨h.writer.guid, h.writer.committed⟩, h.trusted, h.budget, h.out, ?_, h.held, h.track,
      h.known, fun n hn => h.first n ?_, fun n hn => h.ahead n ?_⟩
    · simp [hdel]
    · simp only at hn
      omega
    · simp only at hn
      omega
  · have hlow' : d'.state.receivedCache.minSn = some low := (minSn_congr h.held).trans hlow
    refine ⟨_, collectStep_of_skip (hget.trans hnone) (hknown.trans hk)
      (not_lt.mp fun hlt => not_lt.mpr hge (hfirst.mp hlt)) hlow' (hdel ▸ hnext), ?_⟩
    obtain ⟨m, hm⟩ := d.state.loseBefore_frame low
    obtain ⟨m', hm'⟩ := d'.state.loseBefore_frame low
    obtain ⟨habs, hlost⟩ := WriterProxy.lostChangesUpdate_spec h.shape.absorbed low
    obtain ⟨habs', hlost'⟩ := WriterProxy.lostChangesUpdate_spec h.shape'.absorbed low
    simp only [afterSkip, hm, hm']
    refine ⟨⟨habs, h.shape.cache⟩, ⟨habs', h.shape'.cache⟩, ⟨by simp [h.writer.guid],
      h.writer.committed⟩, h.trusted, h.budget, h.out, rfl, h.held, h.track, fun n hn => ?_,
      fun n hn => ?_, fun n hn => h.ahead n ?_⟩
    · rw [Bool.eq_iff_iff, hlost, hlost', h.known n hn]
    · simp only [WriterProxy.lostChangesUpdate_firstAvailableSn]
      omega
    · simp only at hn
      omega

theorem Alike.collectInOrder (h : Alike ok d d') :
    Alike ok (d.collectInOrder be) (d'.collectInOrder be) :=
  collectInOrder_related Alike.symm (fun h => h.shape.absorbed)
    (fun h he => h.collectStep_some he) h

end ZeroDds.Rtps.Delivery
