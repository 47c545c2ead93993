/-
Readers that look alike.
-/
import ZeroDds.Lib.Aligned
import ZeroDds.Rtps.Alike

namespace ZeroDds.Rtps

/-- Nothing a caller can see tells the two states apart but what is known of the
writer's numbers outside `ok`. -/
structure WriterProxyState.Matches (ok : Guid → Int → Prop) (s s' : WriterProxyState) : Prop where
  writer : WriterProxyState.SameWriter s s'
  trusted : s'.forwarderTrusted = s.forwarderTrusted
  delivered : s'.deliveredUpTo = s.deliveredUpTo
  held : ∀ n, s'.receivedCache.get n = s.receivedCache.get n
  known : ∀ n, ok s.proxy.remoteWriterGuid n → s'.proxy.isKnown n = s.proxy.isKnown n

theorem WriterProxyState.Matches.refl (ok : Guid → Int → Prop) (s : WriterProxyState) :
    WriterProxyState.Matches ok s s := ⟨.refl s, rfl, rfl, fun _ => rfl, fun _ _ => rfl⟩

theorem WriterProxyState.Matches.trans {ok : Guid → Int → Prop} {s s' s'' : WriterProxyState}
    (h : Matches ok s s') (h' : Matches ok s' s'') : Matches ok s s'' where
  writer := ⟨h'.writer.guid.trans h.writer.guid, h'.writer.committed.trans h.writer.committed⟩
  trusted := h'.trusted.trans h.trusted
  delivered := h'.delivered.trans h.delivered
  held n := (h'.held n).trans (h.held n)
  known n hn := (h'.known n (h.writer.guid ▸ hn)).trans (h.known n hn)

theorem Delivery.Alike.matches {ok : Int → Prop} {ok' : Guid → Int → Prop} {d d' : Delivery}
    (h : Alike ok d d') (hok : ∀ n, ok' d.state.proxy.remoteWriterGuid n → ok n) :
    d.state.Matches ok' d'.state :=
  ⟨h.writer, h.trusted, h.delivered, h.held, fun n hn => h.known n (hok n hn)⟩

namespace ReliableReader

open WriterProxyState

structure ReadersAlike (ok : Guid → Int → Prop) (r r' : ReliableReader) : Prop where
  proxies : List.Forall₂ (Matches ok) r.writerProxies r'.writerProxies
  departed : List.Forall₂ (Matches ok) r.departed r'.departed
  budget : r'.releaseBudget = r.releaseBudget
  forwarded : r'.forwardedWithoutProxy = r.forwardedWithoutProxy
  ended : r'.endedWriters = r.endedWriters

variable {ok : Guid → Int → Prop} {r r' : ReliableReader}

theorem ReadersAlike.refl (ok : Guid → Int → Prop) (r : ReliableReader) : ReadersAlike ok r r :=
  ⟨List.forall₂_same.mpr fun s _ => .refl ok s, List.forall₂_same.mpr fun s _ => .refl ok s,
    rfl, rfl, rfl⟩

theorem ReadersAlike.trans {r'' : ReliableReader} (h : ReadersAlike ok r r')
    (h' : ReadersAlike ok r' r'') : ReadersAlike ok r r'' where
  proxies := forall₂_trans h.proxies h'.proxies fun _ _ _ => Matches.trans
  departed := forall₂_trans h.departed h'.departed fun _ _ _ => Matches.trans
  budget := h'.budget.trans h.budget
  forwarded := h'.forwarded.trans h.forwarded
  ended := h'.ended.trans h.ended

theorem ReadersAlike.stateOf (h : ReadersAlike ok r r') (g : Guid) :
    (r.stateOf g = none ∧ r'.stateOf g = none) ∨
      ∃ s s', r.stateOf g = some s ∧ r'.stateOf g = some s' ∧ s.Matches ok s' := by
  refine forall₂_find? (forall₂_append h.proxies h.departed) fun s s' hs => ?_
  rw [hs.writer.guid]

variable {f : WriterProxyState → WriterProxyState}

theorem forall₂_modifyFirst {l l' : List WriterProxyState} (h : List.Forall₂ (Matches ok) l l')
    (g : Guid) (hf : ∀ s s', Matches ok s s' → Matches ok (f s) (f s')) :
    List.Forall₂ (Matches ok) (modifyFirst (fun s => s.proxy.remoteWriterGuid = g) f l)
      (modifyFirst (fun s => s.proxy.remoteWriterGuid = g) f l') := by
  induction h with
  | nil => exact .nil
  | @cons s s' l l' hs hrest ih =>
    rw [modifyFirst, modifyFirst, hs.writer.guid]
    by_cases hg : s.proxy.remoteWriterGuid = g
    · simp only [hg, decide_true, if_true]
      exact .cons (hf s s' hs) hrest
    · simp only [hg, decide_false, Bool.false_eq_true, if_false]
      exact .cons hs ih

theorem ReadersAlike.modifyStateOf (h : ReadersAlike ok r r') (g : Guid)
    (hf : ∀ s s', Matches ok s s' → Matches ok (f s) (f s')) :
    ReadersAlike ok (r.modifyStateOf g f) (r'.modifyStateOf g f) := by
  have hany := forall₂_any h.proxies (p := fun s => s.proxy.remoteWriterGuid = g)
    (q := fun s => s.proxy.remoteWriterGuid = g) fun s s' hs => by rw [hs.writer.guid]
  unfold ReliableReader.modifyStateOf
  simp only [← hany]
  split
  · exact ⟨forall₂_modifyFirst h.proxies g hf, h.departed, h.budget, h.forwarded, h.ended⟩
  · exact ⟨h.proxies, forall₂_modifyFirst h.departed g hf, h.budget, h.forwarded, h.ended⟩

theorem matches_committed {s s' : WriterProxyState} (h : Matches ok s s') (c : SnRanges) :
    Matches ok { s with committed := c } { s' with committed := c } :=
  ⟨⟨h.writer.guid, rfl⟩, h.trusted, h.delivered, h.held, h.known⟩

section

variable (h : ReadersAlike ok r r')
include h

theorem ReadersAlike.rememberForwarded (g : Guid) (c : SnRanges) :
    ReadersAlike ok (r.rememberForwarded g c) (r'.rememberForwarded g c) := by
  unfold ReliableReader.rememberForwarded
  by_cases hempty : c.ranges.isEmpty = true
  · rw [if_pos hempty, if_pos hempty]
    exact h
  · rw [if_neg hempty, if_neg hempty, h.forwarded]
    exact ⟨h.proxies, h.departed, h.budget, rfl, h.ended⟩

theorem ReadersAlike.commitForwarded (o : Guid) (n : Int) :
    (r'.commitForwarded o n).2 = (r.commitForwarded o n).2 ∧
      ReadersAlike ok (r.commitForwarded o n).1 (r'.commitForwarded o n).1 := by
  unfold ReliableReader.commitForwarded
  rcases h.stateOf o with ⟨hnone, hnone'⟩ | ⟨s, s', hsome, hsome', hs⟩
  · simp only [hnone, hnone', h.forwarded]
    cases r.forwardedWithoutProxy.find? fun e => decide (e.1 = o) with
    | some e => exact ⟨rfl, h.proxies, h.departed, h.budget, rfl, h.ended⟩
    | none => exact ⟨rfl, h.rememberForwarded o (SnRanges.empty.insert n).1⟩
  · simp only [hsome, hsome', hs.held]
    split
    · exact ⟨rfl, h⟩
    · rw [hs.writer.committed]
      refine ⟨rfl, h.modifyStateOf o fun t t' ht => ?_⟩
      rw [ht.writer.committed]
      exact matches_committed ht _

theorem ReadersAlike.commitOwn (x : DeliveredSample) :
    (r'.commitOwn x).2 = (r.commitOwn x).2 ∧
      ReadersAlike ok (r.commitOwn x).1 (r'.commitOwn x).1 := by
  unfold ReliableReader.commitOwn
  rcases h.stateOf x.writerGuid with ⟨hnone, hnone'⟩ | ⟨s, s', hsome, hsome', hs⟩
  · simp only [hnone, hnone']
    exact ⟨trivial, h⟩
  · simp only [hsome, hsome', hs.writer.committed]
    have hmodify := h.modifyStateOf x.writerGuid fun t t' ht =>
      matches_committed ht (s.committed.insert x.sequenceNumber).1
    split
    · exact ⟨rfl, hmodify⟩
    · exact ⟨rfl, hmodify.proxies, hmodify.departed, hmodify.budget, hmodify.forwarded,
        hmodify.ended⟩

theorem ReadersAlike.commitSample (x : DeliveredSample) :
    (r'.commitSample x).2 = (r.commitSample x).2 ∧
      ReadersAlike ok (r.commitSample x).1 (r'.commitSample x).1 := by
  have htrusted : ((r'.stateOf x.writerGuid).any fun s => s.forwarderTrusted) =
      (r.stateOf x.writerGuid).any fun s => s.forwarderTrusted := by
    rcases h.stateOf x.writerGuid with ⟨hnone, hnone'⟩ | ⟨s, s', hsome, hsome', hs⟩
    · rw [hnone, hnone']
    · simp [hsome, hsome', hs.trusted]
  unfold ReliableReader.commitSample
  split
  · exact ⟨rfl, h⟩
  · simp only [htrusted]
    cases x.originalWriter with
    | none => exact h.commitOwn x
    | some w =>
      simp only
      split
      · obtain ⟨hanswer, halike⟩ := h.commitForwarded w.1 w.2
        rcases hres : r.commitForwarded w.1 w.2 with ⟨q, fresh⟩
        rcases hres' : r'.commitForwarded w.1 w.2 with ⟨q', fresh'⟩
        rw [hres, hres'] at hanswer halike
        obtain rfl : fresh' = fresh := hanswer
        cases fresh' with
        | true => exact ⟨rfl, halike⟩
        | false =>
          exact ⟨rfl, halike.proxies, halike.departed, halike.budget, halike.forwarded,
            halike.ended⟩
      · split
        · have hcount : ReadersAlike ok
              { r with untrustedForwardCount := satInc r.untrustedForwardCount }
              { r' with untrustedForwardCount := satInc r'.untrustedForwardCount } :=
            ⟨h.proxies, h.departed, h.budget, h.forwarded, h.ended⟩
          exact hcount.commitOwn x
        · exact h.commitOwn x

theorem ReadersAlike.commitReleased (xs : List DeliveredSample) :
    (r'.commitReleased xs).2 = (r.commitReleased xs).2 ∧
      ReadersAlike ok (r.commitReleased xs).1 (r'.commitReleased xs).1 := by
  induction xs generalizing r r' with
  | nil => exact ⟨rfl, h⟩
  | cons x xs ih =>
    obtain ⟨hkept, halike⟩ := h.commitSample x
    obtain ⟨hout, hrest⟩ := ih halike
    exact ⟨by simp only [ReliableReader.commitReleased, hkept, hout], hrest⟩

end

end ReliableReader
end ZeroDds.Rtps
