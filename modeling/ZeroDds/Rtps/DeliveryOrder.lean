/-
The order of delivery.
-/
import ZeroDds.Rtps.ReaderRun

namespace ZeroDds.Rtps

/-- The sequence numbers of the samples among what was handed out; an
end-of-coherent-set delivery is no sample. -/
def sampleSns (out : List DeliveredSample) : List Int :=
  (out.filter fun x => !x.coherentSetEnd).map DeliveredSample.sequenceNumber

theorem sampleSns_append (a b : List DeliveredSample) :
    sampleSns (a ++ b) = sampleSns a ++ sampleSns b := by
  simp [sampleSns]

theorem mem_sampleSns {out : List DeliveredSample} {n : Int} :
    n ∈ sampleSns out ↔ ∃ x ∈ out, x.coherentSetEnd = false ∧ x.sequenceNumber = n := by
  simp [sampleSns, and_assoc]

theorem HandOut.sequenceNumber_of_mem {w : Guid} {x : HandOut} {y : DeliveredSample}
    (h : y ∈ x.deliveries w) : y.sequenceNumber = x.sn := by
  unfold deliveries at h
  split_ifs at h <;> simp only [List.mem_cons, List.not_mem_nil, or_false] at h
  · subst h; rfl
  · rcases h with rfl | rfl <;> rfl
  · subst h; rfl

variable (w : Guid)

theorem HandOut.sn_mem_deliveries {out : List HandOut} {x : HandOut} (h : x ∈ out) :
    x.sn ∈ (out.flatMap (HandOut.deliveries w)).map DeliveredSample.sequenceNumber := by
  obtain ⟨y, hy⟩ : ∃ y, y ∈ x.deliveries w := by
    unfold deliveries
    split_ifs <;> exact ⟨_, List.mem_cons_self⟩
  rw [← sequenceNumber_of_mem hy]
  exact List.mem_map_of_mem (List.mem_flatMap.mpr ⟨x, h, hy⟩)

theorem HandOut.sampleSns_deliveries (x : HandOut) :
    sampleSns (x.deliveries w) = if x.change.coherentSetEnd then [] else [x.sn] := by
  unfold deliveries sampleSns
  split_ifs with hend hinc
  · simp [deliveredSampleOf, hend]
  · simp [deliveredSampleOf, hend, DeliveredSample.incompleteSetEnd, sn]
  · simp [deliveredSampleOf, hend, sn]

theorem sampleSns_flatMap_sublist (out : List HandOut) :
    (sampleSns (out.flatMap (HandOut.deliveries w))).Sublist (out.map HandOut.sn) := by
  induction out with
  | nil => exact .slnil
  | cons x out ih =>
    rw [List.flatMap_cons, sampleSns_append, HandOut.sampleSns_deliveries, List.map_cons]
    split
    · exact ih.cons _
    · exact ih.cons_cons _

def deliveredIn (h : History ReaderOp ReaderOutput) : List DeliveredSample :=
  h.flatMap fun e => e.2.delivered

theorem deliveredIn_snoc (h : History ReaderOp ReaderOutput) (op : ReaderOp) (o : ReaderOutput) :
    deliveredIn (h ++ [(op, o)]) = deliveredIn h ++ o.delivered := by
  simp [deliveredIn]

namespace ReliableReader

def holds (r : ReliableReader) (n : Int) : Bool :=
  r.writerProxies.any fun s => (s.receivedCache.get n).isSome

theorem OneProxy.holds_iff {r : ReliableReader} {s : WriterProxyState} (h : r.OneProxy s)
    (n : Int) : r.holds n = true ↔ s.stream.held n ≠ none := by
  simp [holds, h.proxies, WriterProxyState.stream, Option.isSome_iff_ne_none]

def NoForwarding (r : ReliableReader) (op : ReaderOp) : Prop :=
  ∀ s ∈ r.writerProxies, op.NotForwarded r.guid s

instance (r : ReliableReader) (op : ReaderOp) : Decidable (r.NoForwarding op) :=
  inferInstanceAs (Decidable (∀ s ∈ r.writerProxies, op.NotForwarded r.guid s))

structure InOrder (w : Guid) (h : History ReaderOp ReaderOutput) (r : ReliableReader)
    (s : WriterProxyState) : Prop where
  follows : r.Follows w s
  sorted : (sampleSns (deliveredIn h)).Pairwise (· < ·)
  le : ∀ x ∈ deliveredIn h, x.sequenceNumber ≤ s.deliveredUpTo

theorem InOrder.step {w : Guid} {h : History ReaderOp ReaderOutput} {r : ReliableReader}
    {s : WriterProxyState} (hinv : InOrder w h r s) {op : ReaderOp} (hop : r.NoForwarding op) :
    ∃ s', InOrder w (h ++ [(op, (r.step op).2)]) (r.step op).1 s' := by
  obtain ⟨i, out, s', hstep, -⟩ := hinv.follows.step_spec (u := False)
    (hop s (by simp [hinv.follows.one.proxies])) False.elim
  have hordered := hstep.call.ordered hinv.follows.held
  have hsub := sampleSns_flatMap_sublist w out
  refine ⟨s', hstep.follows, ?_, fun x hx => ?_⟩
  · rw [deliveredIn_snoc, sampleSns_append, hstep.deliveries, List.pairwise_append]
    refine ⟨hinv.sorted, hordered.sorted.sublist hsub, fun m hm n hn => ?_⟩
    obtain ⟨x, hx, -, rfl⟩ := mem_sampleSns.mp hm
    obtain ⟨y, hy, rfl⟩ := List.mem_map.mp (hsub.subset hn)
    exact lt_of_le_of_lt (hinv.le x hx) (hordered.range y hy).1
  · rw [deliveredIn_snoc, List.mem_append, hstep.deliveries] at hx
    rcases hx with hx | hx
    · exact (hinv.le x hx).trans hordered.le
    · obtain ⟨y, hy, hmem⟩ := List.mem_flatMap.mp hx
      rw [HandOut.sequenceNumber_of_mem hmem]
      exact (hordered.range y hy).2

section Reordered

open ReaderFixture

end Reordered
end ReliableReader
end ZeroDds.Rtps
