/-
Handing out in order.
-/
import ZeroDds.Rtps.ReliableReader
import ZeroDds.Rtps.Stream

namespace ZeroDds.Rtps

namespace WriterProxyState

theorem followCoherentSet_eq (s : WriterProxyState) (c : CacheChange) :
    s.followCoherentSet c.sequenceNumber c.coherentSetSn c.coherentSetEnd c.group.isSome =
      ({ s with coherent := (CoherentTrack.follow s.coherent c).1 },
        (CoherentTrack.follow s.coherent c).2) := by
  unfold followCoherentSet CoherentTrack.follow
  split
  · rfl
  · split
    · rfl
    · cases s.coherent with
      | none => rfl
      | some t =>
        cases c.coherentSetSn with
        | none => rfl
        | some first =>
          simp only
          split <;> rfl

theorem noteLost_frame (s : WriterProxyState) (lost : Nat) :
    ∃ n, s.noteLost lost = { s with lostChanges := n } := by
  unfold noteLost
  split <;> exact ⟨_, rfl⟩

theorem loseBefore_frame (s : WriterProxyState) (first : Int) :
    ∃ n, s.loseBefore first =
      { s with proxy := (s.proxy.lostChangesUpdate first).1, lostChanges := n } :=
  noteLost_frame { s with proxy := (s.proxy.lostChangesUpdate first).1 }
    (s.proxy.lostChangesUpdate first).2

structure KeepsAll (c : HistoryCache) : Prop where
  kind : c.kind = .keepAll
  depth : c.perInstanceDepth = none
  keyed : ∀ n ch, c.get n = some ch → ch.sequenceNumber = n

structure Shape (s : WriterProxyState) : Prop where
  absorbed : s.proxy.Absorbed
  cache : KeepsAll s.receivedCache

def stream (s : WriterProxyState) : Stream where
  first := s.proxy.firstAvailableSn
  last := s.proxy.lastAvailableSn
  delivered := s.deliveredUpTo
  known := {n | s.proxy.isKnown n = true}
  held := s.receivedCache.get
  track := s.coherent

variable {s : WriterProxyState}

theorem mem_stream_known {n : Int} : n ∈ s.stream.known ↔ s.proxy.isKnown n = true := Iff.rfl

theorem not_mem_stream_known {n : Int} (h : s.proxy.isKnown n = false) : n ∉ s.stream.known := by
  rw [mem_stream_known, h]
  exact Bool.false_ne_true

structure SameWriter (s s' : WriterProxyState) : Prop where
  guid : s'.proxy.remoteWriterGuid = s.proxy.remoteWriterGuid
  committed : s'.committed = s.committed

theorem SameWriter.refl (s : WriterProxyState) : SameWriter s s := ⟨rfl, rfl⟩

theorem SameWriter.trans {t u : WriterProxyState} (h : SameWriter s t) (h' : SameWriter t u) :
    SameWriter s u := ⟨h'.guid.trans h.guid, h'.committed.trans h.committed⟩

end WriterProxyState

namespace Delivery

open WriterProxyState

@[simp] theorem spend_state (d : Delivery) : d.spend.state = d.state := rfl

@[simp] theorem spend_out (d : Delivery) : d.spend.out = d.out := rfl

variable {d : Delivery}

theorem spend_budget_eq_none : d.spend.budget = none ↔ d.budget = none := by
  simp [spend]

theorem handOut_eq (d : Delivery) (c : CacheChange) :
    d.handOut (deliveredSampleOf d.state.proxy.remoteWriterGuid c) =
      { d with
        state := { d.state with coherent := (CoherentTrack.follow d.state.coherent c).1 }
        out := d.out ++ HandOut.deliveries d.state.proxy.remoteWriterGuid
          ⟨c, (CoherentTrack.follow d.state.coherent c).2⟩ } := by
  have h := d.state.followCoherentSet_eq c
  simp [handOut, deliveredSampleOf, h, HandOut.deliveries]

/-! ### One turn of the loop -/

def afterCached (d : Delivery) (c : CacheChange) : Delivery :=
  let next := d.state.deliveredUpTo + 1
  { d with
    state := { d.state with
      coherent := (CoherentTrack.follow d.state.coherent c).1
      deliveredUpTo := next
      deliveredAny := true
      receivedCache := (d.state.receivedCache.removeUpTo next).1 }
    out := d.out ++ HandOut.deliveries d.state.proxy.remoteWriterGuid
      ⟨c, (CoherentTrack.follow d.state.coherent c).2⟩ }.spend

/-- The state of a best-effort reader after it has stepped over what is missing
in front of `low`. -/
def afterSkip (d : Delivery) (low : Int) : Delivery :=
  { d with state := { d.state.loseBefore low with deliveredUpTo := low - 1 } }

variable {be : Bool} {n : Int} {s : WriterProxyState}

theorem collectStep_cases {d' : Delivery} (h : d.collectStep be = some d') :
    (∃ change, d.state.receivedCache.get (d.state.deliveredUpTo + 1) = some change ∧
      d.budget ≠ some 0 ∧ d' = d.afterCached change) ∨
    (d.state.receivedCache.get (d.state.deliveredUpTo + 1) = none ∧
      ((d.state.proxy.isKnown (d.state.deliveredUpTo + 1) = true ∧
        d' = { d with state :=
          { d.state with deliveredUpTo := d.state.deliveredUpTo + 1 }.followCoherentSetPast }) ∨
      (d.state.proxy.isKnown (d.state.deliveredUpTo + 1) = false ∧
        d.state.deliveredUpTo + 1 < d.state.proxy.firstAvailableSn ∧
        d' = { d with state :=
          { d.state with deliveredUpTo := d.state.deliveredUpTo + 1 } }) ∨
      (d.state.proxy.isKnown (d.state.deliveredUpTo + 1) = false ∧
        d.state.proxy.firstAvailableSn ≤ d.state.deliveredUpTo + 1 ∧ be = true ∧
        ∃ low, d.state.receivedCache.minSn = some low ∧ d.state.deliveredUpTo + 1 < low ∧
          d' = d.afterSkip low))) := by
  unfold collectStep at h
  simp only [handOut_eq] at h
  split at h
  · next change hget =>
    split at h
    · cases h
    · next hbudget => exact .inl ⟨change, hget, hbudget, (Option.some.inj h).symm⟩
  · next hget =>
    refine .inr ⟨hget, ?_⟩
    split at h
    · next hk => exact .inl ⟨hk, (Option.some.inj h).symm⟩
    · next hk =>
      have hk := Bool.eq_false_iff.mpr hk
      split at h
      · next hlt => exact .inr (.inl ⟨hk, hlt, (Option.some.inj h).symm⟩)
      · next hlt =>
        split at h
        · next hbe =>
          split at h
          · next low hlow =>
            split at h
            · next hnext =>
              exact .inr (.inr ⟨hk, not_lt.mp hlt, hbe, low, hlow, hnext,
                (Option.some.inj h).symm⟩)
            · cases h
          · cases h
        · cases h

theorem collectStep_eq_none (h : d.collectStep be = none) :
    (d.budget = some 0 ∧ d.state.receivedCache.get (d.state.deliveredUpTo + 1) ≠ none) ∨
      (d.state.receivedCache.get (d.state.deliveredUpTo + 1) = none ∧
        d.state.proxy.isKnown (d.state.deliveredUpTo + 1) = false ∧
        d.state.proxy.firstAvailableSn ≤ d.state.deliveredUpTo + 1) := by
  unfold collectStep at h
  simp only at h
  split at h
  · next change hget =>
    split at h
    · next hbudget => exact .inl ⟨hbudget, by simp [hget]⟩
    · cases h
  · next hget =>
    split at h
    · cases h
    · next hk =>
      split at h
      · cases h
      · next hlt => exact .inr ⟨hget, Bool.eq_false_iff.mpr hk, not_lt.mp hlt⟩

theorem collectInOrder_induct {P : Delivery → Prop}
    (hstep : ∀ d d', P d → d.collectStep be = some d' → P d') (hd : P d) :
    P (d.collectInOrder be) := by
  have key : ∀ fuel d, P d → P (collectLoop be fuel d) := by
    intro fuel
    induction fuel with
    | zero => exact fun d hd => hd
    | succ fuel ih =>
      intro d hd
      unfold collectLoop
      split
      · next d' h => exact ih d' (hstep d d' hd h)
      · exact hd
  exact key _ d hd

/-! ### The fuel is enough -/

theorem le_unbotD_max {s : Finset Int} (h : n ∈ s) : n ≤ s.max.unbotD 0 := by
  obtain ⟨m, hm⟩ := Finset.max_of_mem h
  rw [hm, WithBot.unbotD_coe]
  exact Finset.le_max_of_eq h hm

theorem known_le_horizon (h : s.proxy.isKnown n = true) : n ≤ s.horizon := by
  unfold WriterProxyState.horizon
  rcases WriterProxy.isKnown_iff.mp h with h | h
  · omega
  · have := le_unbotD_max (Finset.mem_union.mpr h)
    omega

theorem cached_le_horizon {c : CacheChange} (h : s.receivedCache.get n = some c) :
    n ≤ s.horizon := by
  obtain ⟨m, hm⟩ : ∃ m, s.receivedCache.maxSn = some m := by
    by_contra hnone
    have : s.receivedCache.maxSn = none := by
      cases hm : s.receivedCache.maxSn with
      | none => rfl
      | some m => exact absurd ⟨m, hm⟩ hnone
    have := SortedMap.maxKey?_eq_none.mp this n
    rw [HistoryCache.get] at h
    simp [this] at h
  have hle := (SortedMap.maxKey?_eq_some.mp hm).2 n c h
  unfold WriterProxyState.horizon
  rw [hm, Option.getD_some]
  omega

structure Within (h : Int) (s : WriterProxyState) : Prop where
  absorbed : s.proxy.Absorbed
  first : s.proxy.firstAvailableSn ≤ h + 1
  known : ∀ n, s.proxy.isKnown n = true → n ≤ h
  cached : ∀ n c, s.receivedCache.get n = some c → n ≤ h

theorem within_horizon (hs : s.proxy.Absorbed) :
    Within s.horizon s where
  absorbed := hs
  first := by unfold WriterProxyState.horizon; omega
  known _ h := known_le_horizon h
  cached _ _ h := cached_le_horizon h

theorem collectStep_progress {h : Int} {d' : Delivery} (hd : Within h d.state)
    (hstep : d.collectStep be = some d') :
    d.state.deliveredUpTo < d'.state.deliveredUpTo ∧ d'.state.deliveredUpTo ≤ h ∧
      Within h d'.state := by
  rcases collectStep_cases hstep with
    ⟨change, hget, -, rfl⟩ | ⟨-, ⟨hk, rfl⟩ | ⟨-, hlt, rfl⟩ | ⟨-, -, -, low, hlow, hnext, rfl⟩⟩
  · simp only [afterCached, spend_state]
    refine ⟨by omega, hd.cached _ _ hget, hd.absorbed, hd.first, hd.known, fun n c' hn => ?_⟩
    rw [HistoryCache.get_removeUpTo] at hn
    split at hn
    · exact hd.cached n c' hn
    · cases hn
  · exact ⟨by simp [WriterProxyState.followCoherentSetPast], hd.known _ hk, hd.absorbed, hd.first,
      hd.known, hd.cached⟩
  · have := hd.first
    exact ⟨by simp, by simp only; omega, hd.absorbed, hd.first, hd.known, hd.cached⟩
  · obtain ⟨n, hn⟩ := d.state.loseBefore_frame low
    obtain ⟨⟨c, hc⟩, -⟩ := SortedMap.minKey?_eq_some.mp hlow
    have hle := hd.cached low c hc
    obtain ⟨habs, hknown⟩ := WriterProxy.lostChangesUpdate_spec hd.absorbed low
    have := hd.first
    simp only [afterSkip, hn]
    exact ⟨by omega, by omega, habs,
      by simp only [WriterProxy.lostChangesUpdate_firstAvailableSn]; omega,
      fun n hn => hd.known n ((hknown n).mp hn).2, hd.cached⟩

theorem collectStep_collectInOrder (be : Bool) (hd : d.state.proxy.Absorbed) :
    (d.collectInOrder be).collectStep be = none := by
  have key : ∀ h fuel d, Within h d.state → (h - d.state.deliveredUpTo).toNat ≤ fuel →
      (collectLoop be fuel d).collectStep be = none := by
    intro h fuel
    induction fuel with
    | zero =>
      intro d hd hfuel
      cases hstep : d.collectStep be with
      | none => exact hstep
      | some d' =>
        have := collectStep_progress hd hstep
        omega
    | succ fuel ih =>
      intro d hd hfuel
      unfold collectLoop
      split
      · next d' hstep =>
        obtain ⟨hlt, hle, hd'⟩ := collectStep_progress hd hstep
        exact ih d' hd' (by omega)
      · next hstep => exact hstep
  exact key _ _ d (within_horizon hd) (le_refl _)

end Delivery
end ZeroDds.Rtps
