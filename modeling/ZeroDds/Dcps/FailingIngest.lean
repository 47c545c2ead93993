/-
A sample that does not decode.
-/
import ZeroDds.Dcps.IngestSteps

namespace ZeroDds.Dcps.DataReader

variable {T : Type} (cfg : ReaderConfig T)

/-- The entries a run settled, in order: a marker it applied, a sample it admitted or
dropped for a reason of its own. -/
def settled (now : Time) : DataReader T → List StagedIngest → List StagedIngest
  | _, [] => []
  | r, .lifecycle m :: rest => .lifecycle m :: settled now (ingestLifecycle cfg r m) rest
  | r, .alive raw :: rest =>
    match ingestAlive cfg r now raw with
    | (_, .failed _) | (_, .refused _) => []
    | (r, _) => .alive raw :: settled now r rest

variable {now : Time} {r : DataReader T} {pre : List StagedIngest}

theorem ingestRun_append (h : settled cfg now r pre = pre) (rest : List StagedIngest) :
    ingestRun cfg now r (pre ++ rest) = ingestRun cfg now (ingestRun cfg now r pre).1 rest := by
  induction pre generalizing r with
  | nil => rfl
  | cons entry pre ih =>
    cases entry with
    | lifecycle m =>
      simp only [settled, List.cons.injEq, true_and] at h
      simpa only [List.cons_append, ingestRun] using ih h
    | alive raw =>
      rcases heq : ingestAlive cfg r now raw with ⟨r₁, verdict⟩
      simp only [List.cons_append, ingestRun, settled, heq] at h ⊢
      cases verdict with
      | failed e => cases h
      | refused reason => cases h
      | admitted => exact ih (List.cons.inj h).2
      | dropped reason => exact ih (List.cons.inj h).2

theorem settled_append (h : settled cfg now r pre = pre) (rest : List StagedIngest) :
    settled cfg now r (pre ++ rest) =
      pre ++ settled cfg now (ingestRun cfg now r pre).1 rest := by
  induction pre generalizing r with
  | nil => rfl
  | cons entry pre ih =>
    cases entry with
    | lifecycle m =>
      simp only [settled, List.cons.injEq, true_and] at h
      simp only [List.cons_append, settled, ingestRun, ih h]
    | alive raw =>
      rcases heq : ingestAlive cfg r now raw with ⟨r₁, verdict⟩
      simp only [List.cons_append, ingestRun, settled, heq] at h ⊢
      cases verdict with
      | failed e => cases h
      | refused reason => cases h
      | admitted => exact congrArg _ (ih (List.cons.inj h).2)
      | dropped reason => exact congrArg _ (ih (List.cons.inj h).2)

structure Undecodable (raw : RawIngestSample) (now : Time) (e : DecodeError) : Prop where
  inTime : expired (raw.expiresAt now) now = false
  fails : cfg.codec.decode raw.bytes.octets raw.representation raw.bigEndian = .error e
  notDiscarded : e.isDiscarded = false

theorem ingestAlive_of_undecodable {raw : RawIngestSample} {e : DecodeError}
    (h : Undecodable cfg raw now e) (r : DataReader T) :
    ingestAlive cfg r now raw = (r, .failed (.wireError e)) := by
  simp [ingestAlive, ingestAliveFiltered, h.inTime, h.fails, h.notDiscarded]

def ingestStart (r : DataReader T) : Time × DataReader T :=
  let (now, r) := { r with heldBack := [], arrived := [] }.wallNow cfg
  (now, r.purgeExpiredByLifespan now)

/-- Every other entry is settled or held back for the next ingest, in the order of arrival;
and cache, instances and counters are those of a run over the settled entries alone. -/
structure CostsOnlyItself (now : Time) (start after : DataReader T)
    (staged others : List StagedIngest) : Prop where
  accounted : settled cfg now start staged ++ after.staged = others
  kept : { after with heldBack := [], arrived := [] } =
    (ingestRun cfg now start (settled cfg now start staged)).1

theorem eq_self_of_no_queues (hheld : r.heldBack = []) (harrived : r.arrived = []) :
    { r with heldBack := [], arrived := [] } = r := by
  cases r
  cases hheld
  cases harrived
  rfl

theorem ingestPending_of_undecodable {r₁ : DataReader T} {released : Bool}
    {post : List StagedIngest} {bad : RawIngestSample} {e : DecodeError}
    (hrelease : releaseDueTbf cfg r = (r₁, .ok released))
    (hstaged : r₁.staged = pre ++ .alive bad :: post)
    (hreached : settled cfg (ingestStart cfg r₁).1 (ingestStart cfg r₁).2 pre = pre)
    (hbad : Undecodable cfg bad (ingestStart cfg r₁).1 e) :
    ingestPending cfg r =
      ((ingestRun cfg (ingestStart cfg r₁).1 (ingestStart cfg r₁).2 pre).1,
        .error (.wireError e)) := by
  have hrun := ingestRun_append cfg hreached (.alive bad :: post)
  rw [ingestRun, ingestAlive_of_undecodable cfg hbad] at hrun
  simp only [ingestPending, hrelease, ingestStaged]
  rw [hstaged]
  simp only [ingestStart] at hrun ⊢
  rw [hrun]

/-- An undecodable sample costs only itself exactly when nothing is staged behind it. -/
theorem undecodable_sample_costs_only_itself_iff (r r₁ : DataReader T) (released : Bool)
    (pre post : List StagedIngest) (bad : RawIngestSample) (e : DecodeError)
    (hrelease : releaseDueTbf cfg r = (r₁, .ok released))
    (hstaged : r₁.staged = pre ++ .alive bad :: post)
    (hreached : settled cfg (ingestStart cfg r₁).1 (ingestStart cfg r₁).2 pre = pre)
    (hbad : Undecodable cfg bad (ingestStart cfg r₁).1 e) :
    (ingestPending cfg r).2 = .error (.wireError e) ∧
      (CostsOnlyItself cfg (ingestStart cfg r₁).1 (ingestStart cfg r₁).2 (ingestPending cfg r).1
          r₁.staged (pre ++ post) ↔ post = []) := by
  have hpending := ingestPending_of_undecodable cfg hrelease hstaged hreached hbad
  refine ⟨by rw [hpending], ?_⟩
  have hsettled : settled cfg (ingestStart cfg r₁).1 (ingestStart cfg r₁).2 r₁.staged = pre := by
    rw [hstaged, settled_append cfg hreached (.alive bad :: post), settled,
      ingestAlive_of_undecodable cfg hbad]
    exact List.append_nil pre
  have hqueues := sameQueues_ingestRun cfg (ingestStart cfg r₁).1 (ingestStart cfg r₁).2 pre
  have hempty : (ingestPending cfg r).1.staged = [] := by
    rw [hpending, staged, hqueues.heldBack, hqueues.arrived]
    rfl
  constructor
  · intro h
    have haccounted := h.accounted
    rwa [hsettled, hempty, List.append_nil, List.self_eq_append_right] at haccounted
  · rintro rfl
    refine ⟨by rw [hsettled, hempty], ?_⟩
    rw [hsettled, hpending]
    exact eq_self_of_no_queues hqueues.heldBack hqueues.arrived

def undecodableBetween : DataReader (UInt8 × UInt8) :=
  octetReader [octetSample 1 [1, 7] 1, octetSample 2 [9] 1, octetSample 1 [1, 8] 2]

/-- The ingest fails, and the sample behind is neither in the cache nor on a queue. -/
theorem undecodable_sample_loses_later_sample :
    ∃ r₁, releaseDueTbf (octetConfig reliableQos) undecodableBetween = (r₁, .ok false) ∧
      (ingestPending (octetConfig reliableQos) undecodableBetween).2 =
        .error (.wireError (.invalid "not two octets")) ∧
      (ingestPending (octetConfig reliableQos) undecodableBetween).1.cache.map (·.decoded) =
        [some (1, 7)] ∧
      ¬ CostsOnlyItself (octetConfig reliableQos) (ingestStart (octetConfig reliableQos) r₁).1
        (ingestStart (octetConfig reliableQos) r₁).2
        (ingestPending (octetConfig reliableQos) undecodableBetween).1 r₁.staged
        [octetSample 1 [1, 7] 1, octetSample 1 [1, 8] 2] := by
  refine ⟨_, rfl, rfl, by decide +kernel, fun h => ?_⟩
  exact absurd h.accounted (by decide +kernel)

/-- Behind the good sample the undecodable one costs nothing else. -/
theorem undecodable_sample_at_the_end :
    ∃ r₁, releaseDueTbf (octetConfig reliableQos)
        (octetReader [octetSample 1 [1, 7] 1, octetSample 2 [9] 1]) = (r₁, .ok false) ∧
      CostsOnlyItself (octetConfig reliableQos) (ingestStart (octetConfig reliableQos) r₁).1
        (ingestStart (octetConfig reliableQos) r₁).2
        (ingestPending (octetConfig reliableQos)
          (octetReader [octetSample 1 [1, 7] 1, octetSample 2 [9] 1])).1
        r₁.staged [octetSample 1 [1, 7] 1] := by
  refine ⟨_, rfl, ((undecodable_sample_costs_only_itself_iff (octetConfig reliableQos) _ _ false
    [octetSample 1 [1, 7] 1] [] _ (.invalid "not two octets") rfl rfl ?_ ?_).2).mpr rfl⟩
  · decide +kernel
  · exact ⟨rfl, rfl, rfl⟩

end ZeroDds.Dcps.DataReader
