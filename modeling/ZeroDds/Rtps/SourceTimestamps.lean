/-
Source timestamps on the wire.
-/
import ZeroDds.Rtps.Contents
import ZeroDds.Rtps.WriterRun

namespace ZeroDds.Rtps

open MessageBuilder Outcome

/-! ### The receiver's walk -/

def Submessage.inForceAfter (ts : Option HeTimestamp) : Submessage → Option HeTimestamp
  | .infoTs t => some t
  | _ => ts

def Submessage.changeSn? : Submessage → Option Int
  | .data d => some d.writerSn
  | .dataFrag d => some d.writerSn
  | _ => none

def walkStamps (ts : Option HeTimestamp) : List Submessage → List (Int × Option HeTimestamp)
  | [] => []
  | s :: rest =>
    ((s.changeSn?).map fun sn => (sn, ts)).toList ++ walkStamps (s.inForceAfter ts) rest

theorem walkStamps_append (ts : Option HeTimestamp) (l l' : List Submessage) :
    walkStamps ts (l ++ l') =
      walkStamps ts l ++ walkStamps (l.foldl Submessage.inForceAfter ts) l' := by
  induction l generalizing ts with
  | nil => rfl
  | cons s l ih => simp [walkStamps, ih]

namespace SendView

variable {v : SendView} {peer : Guid} {targets : List Locator}

def stampOf (v : SendView) (sn : Int) : Option HeTimestamp :=
  (v.cache.get sn).bind fun c => c.sourceTimestamp

def StampsRight (v : SendView) (l : List Submessage) : Prop :=
  ∀ e ∈ walkStamps none l, e.2 = v.stampOf e.1

def AllStampsRight (v : SendView) (ds : List AddressedDatagram) : Prop :=
  ∀ d ∈ ds, v.StampsRight d.datagram.submessages

structure Filling where
  len : Nat
  inForce : Option HeTimestamp

def Filling.Takes (f : Filling) (size : Nat) (s : Submessage) : Prop :=
  f.len % 4 = 0 ∧ s.bodyLen ≤ u16Max ∧ f.len + s.wireLen ≤ size

instance (f : Filling) (size : Nat) (s : Submessage) : Decidable (f.Takes size s) :=
  inferInstanceAs (Decidable (_ ∧ _ ∧ _))

def Filling.push (f : Filling) (s : Submessage) : Filling :=
  ⟨f.len + s.wireLen, s.inForceAfter f.inForce⟩

def freshFilling (v : SendView) (peer : Guid) (targets : List Locator) : Filling :=
  ⟨(v.openBuilderFor peer targets).len, none⟩

/-- The filling a change is appended to: a stamped DATA goes behind its INFO_TS, where
that is taken. -/
def stampFilling (v : SendView) (peer : Guid) (sn : Int) (f : Filling) : Submessage → Filling
  | .data _ =>
    match v.stampOf sn with
    | none => f
    | some ts => if f.Takes (v.messageSizeFor peer) (.infoTs ts) then f.push (.infoTs ts) else f
  | _ => f

/-- The change `sn`, appended as `s`, is under its own timestamp: a stamped DATA goes
with its INFO_TS into the open datagram, an unstamped one finds no timestamp in force
there or opens a fresh datagram. -/
def StampHolds (v : SendView) (peer : Guid) (sn : Int) (f : Filling) : Submessage → Prop
  | .data d =>
    match v.stampOf sn with
    | some ts => (f.push (.infoTs ts)).Takes (v.messageSizeFor peer) (.data d)
    | none => f.inForce = none ∨ ¬f.Takes (v.messageSizeFor peer) (.data d)
  | _ => True

def fillingAfter (v : SendView) (peer : Guid) (targets : List Locator) (f : Filling) (sn : Int) :
    Filling :=
  match v.changeSubmessage sn peer with
  | none => v.freshFilling peer targets
  | some s =>
    if (v.stampFilling peer sn f s).Takes (v.messageSizeFor peer) s then
      (v.stampFilling peer sn f s).push s
    else (v.freshFilling peer targets).push s

/-- Every change of an aggregate is under its own timestamp, judged by the sizes of the
changes and by which of them carry a timestamp. -/
def StampsHold (v : SendView) (peer : Guid) (targets : List Locator) :
    Filling → List Int → Prop
  | _, [] => True
  | f, sn :: sns =>
    (∀ s, v.changeSubmessage sn peer = some s → v.StampHolds peer sn f s) ∧
      StampsHold v peer targets (v.fillingAfter peer targets f sn) sns

/-! ### Builders and their fillings -/

def fillingOf (b : MessageBuilder) : Filling :=
  ⟨b.len, b.submessages.foldl Submessage.inForceAfter none⟩

variable {b : MessageBuilder} {size : Nat} {s : Submessage}

theorem takes_fillingOf (h : b.mtu = size) (s : Submessage) :
    (fillingOf b).Takes size s ↔ b.Accepts s := by
  subst h
  rfl

theorem fillingOf_push (b : MessageBuilder) (s : Submessage) :
    fillingOf (b.push s) = (fillingOf b).push s := by
  simp [fillingOf, Filling.push]

theorem fillingOf_open (v : SendView) (peer : Guid) (targets : List Locator) :
    fillingOf (v.openBuilderFor peer targets) = v.freshFilling peer targets := by
  rcases v.openBuilderFor_cases peer targets with h | h <;>
    simp only [fillingOf, freshFilling, h] <;>
    rfl

theorem stampsRight_push :
    v.StampsRight (b.push s).submessages ↔
      v.StampsRight b.submessages ∧
        ∀ sn, s.changeSn? = some sn → (fillingOf b).inForce = v.stampOf sn := by
  simp only [StampsRight, submessages_push, walkStamps_append, List.forall_mem_append]
  refine and_congr_right fun _ => ?_
  cases hsn : s.changeSn? with
  | none => simp [walkStamps, hsn]
  | some sn => simp [walkStamps, hsn, fillingOf]

theorem stampsRight_open (v : SendView) (peer : Guid) (targets : List Locator) :
    v.StampsRight (v.openBuilderFor peer targets).submessages := by
  rcases v.openBuilderFor_cases peer targets with h | h <;> rw [h] <;>
    simp [StampsRight, MessageBuilder.openWith, MessageBuilder.push, walkStamps,
      Submessage.changeSn?]

theorem stampsRight_of_finish_none (h : b.finish = none) : v.StampsRight b.submessages := by
  have hframing : ∀ s ∈ b.submessages, s.isFramingOnly = true := by
    intro s hs
    by_contra hcontent
    rw [finish_of_content hs (by simpa using hcontent)] at h
    cases h
  have hnone : ∀ (l : List Submessage) (ts : Option HeTimestamp),
      (∀ s ∈ l, s.isFramingOnly = true) → walkStamps ts l = [] := by
    intro l
    induction l with
    | nil => intros; rfl
    | cons s l ih =>
      intro ts hl
      have hs := hl s List.mem_cons_self
      cases s <;> simp [Submessage.isFramingOnly] at hs <;>
        exact ih _ fun s hs => hl s (List.mem_cons_of_mem _ hs)
  simp [StampsRight, hnone _ none hframing]

def AssemblyRight (v : SendView) (a : Assembly) : Prop :=
  v.AllStampsRight a.out ∧ v.StampsRight a.builder.submessages

theorem allStampsRight_finish (a : Assembly) (peer : Guid) :
    v.AllStampsRight (a.finish peer) ↔ v.AssemblyRight a := by
  simp only [AllStampsRight, AssemblyRight, Assembly.finish, List.forall_mem_append]
  refine and_congr_right fun _ => ?_
  cases h : a.builder.finish with
  | none => simp [stampsRight_of_finish_none h]
  | some d => simp [finish_eq_some h]

variable {a a' : Assembly} {hint : String}

theorem appendSubmessage_right (ha : v.Opened peer targets a.builder)
    (h : v.appendSubmessage a s peer targets hint = .ok a') :
    (v.AssemblyRight a' ↔ v.AssemblyRight a ∧ ∀ sn, s.changeSn? = some sn →
      (if (fillingOf a.builder).Takes (v.messageSizeFor peer) s then (fillingOf a.builder).inForce
        else none) = v.stampOf sn) ∧
    fillingOf a'.builder =
      if (fillingOf a.builder).Takes (v.messageSizeFor peer) s then (fillingOf a.builder).push s
      else (v.freshFilling peer targets).push s := by
  have htakes := takes_fillingOf ha.mtu s
  rcases appendSubmessage_cases h with ⟨hacc, rfl⟩ | ⟨hacc, rfl⟩
  · simp only [htakes.mpr hacc, if_true, AssemblyRight, stampsRight_push, fillingOf_push, and_assoc,
      and_true]
  · simp only [mt htakes.mp hacc, if_false, AssemblyRight, stampsRight_push, fillingOf_push,
      allStampsRight_finish, fillingOf_open, stampsRight_open, true_and, and_true]
    rfl

theorem fillingOf_stampFor (hb : b.mtu = v.messageSizeFor peer) (sn : Int) (s : Submessage) :
    fillingOf (v.stampFor sn b s) = v.stampFilling peer sn (fillingOf b) s := by
  cases s with
  | data d =>
    simp only [stampFor, stampFilling, appendInfoTs, stampOf]
    split
    · next hts => simp [hts]
    · next ts hts =>
      simp only [hts, tryAdd_getD, takes_fillingOf hb]
      split
      · exact fillingOf_push b _
      · rfl
  | _ => rfl

theorem stampsRight_stampFor (sn : Int) (s : Submessage) :
    v.StampsRight (v.stampFor sn b s).submessages ↔ v.StampsRight b.submessages := by
  cases s with
  | data d =>
    rcases v.appendInfoTs_cases b sn with h | ⟨ts, -, -, h⟩
    · simp [stampFor, h]
    · rw [stampFor, h, stampsRight_push]
      simp [Submessage.changeSn?]
  | _ => rfl

theorem Filling.Takes.infoTs {f : Filling} {d : DataSubmessage} (h : f.Takes size (.data d))
    (ts : HeTimestamp) : f.Takes size (.infoTs ts) := by
  obtain ⟨haligned, -, hlen⟩ := h
  simp only [Submessage.wireLen, Submessage.bodyLen] at hlen
  refine ⟨haligned, by simp [Submessage.bodyLen, u16Max], ?_⟩
  simp only [Submessage.wireLen, Submessage.bodyLen]
  omega

theorem stampHolds_iff (sn : Int) (f : Filling) (d : DataSubmessage) :
    (if (v.stampFilling peer sn f (.data d)).Takes (v.messageSizeFor peer) (.data d) then
        (v.stampFilling peer sn f (.data d)).inForce else none) = v.stampOf sn ↔
      v.StampHolds peer sn f (.data d) := by
  rcases Option.eq_none_or_eq_some (v.stampOf sn) with hts | ⟨ts, hts⟩
  · have hfill : v.stampFilling peer sn f (.data d) = f := by simp [stampFilling, hts]
    rw [hfill]
    simp only [StampHolds, hts]
    by_cases h : f.Takes (v.messageSizeFor peer) (.data d) <;> simp [h]
  · by_cases hinfo : f.Takes (v.messageSizeFor peer) (.infoTs ts)
    · have hfill : v.stampFilling peer sn f (.data d) = f.push (.infoTs ts) := by
        simp [stampFilling, hts, hinfo]
      rw [hfill]
      simp only [StampHolds, hts]
      by_cases h : (f.push (.infoTs ts)).Takes (v.messageSizeFor peer) (.data d) <;> simp [h]
      rfl
    · have hfill : v.stampFilling peer sn f (.data d) = f := by simp [stampFilling, hts, hinfo]
      have hdata : ¬f.Takes (v.messageSizeFor peer) (.data d) := fun h => hinfo (h.infoTs ts)
      have hpush : ¬(f.push (.infoTs ts)).Takes (v.messageSizeFor peer) (.data d) := by
        rintro ⟨haligned, -, hlen⟩
        simp only [Filling.push, Submessage.wireLen, Submessage.bodyLen, submessageHeaderLen]
          at haligned hlen
        refine hinfo ⟨by omega, by simp [Submessage.bodyLen, u16Max], ?_⟩
        simp only [Submessage.wireLen, Submessage.bodyLen, submessageHeaderLen]
        omega
      rw [hfill]
      simp [StampHolds, hts, hdata, hpush]

/-! ### Changes in datagrams of their own -/

def Roomy (v : SendView) : Prop := 256 ≤ v.mtu

theorem mtu_le_messageSizeFor (v : SendView) (peer : Guid) : v.mtu ≤ v.messageSizeFor peer := by
  unfold messageSizeFor
  split
  · exact le_refl _
  · exact le_max_right _ _

theorem Roomy.accepts_infoTs (hv : v.Roomy) (peer : Guid) (targets : List Locator)
    (ts : HeTimestamp) : (v.openBuilderFor peer targets).Accepts (.infoTs ts) := by
  have hsize := v.mtu_le_messageSizeFor peer
  have hroom : 256 ≤ v.mtu := hv
  refine ⟨?_, by simp [Submessage.bodyLen, u16Max], ?_⟩
  · rcases v.openBuilderFor_len peer targets with h | h <;> rw [h]
  · rw [openBuilderFor_mtu]
    simp only [Submessage.wireLen, Submessage.bodyLen, submessageHeaderLen]
    rcases v.openBuilderFor_len peer targets with h | h <;> omega

theorem Roomy.inForce_stampedBuilder (hv : v.Roomy) (sn : Int) :
    (fillingOf (v.stampedBuilder (some sn) peer targets)).inForce = v.stampOf sn := by
  simp only [stampedBuilder, Option.map_some, Option.getD_some, appendInfoTs]
  split
  · next hts =>
    rw [fillingOf_open, stampOf, hts]
    rfl
  · next ts hts =>
    rw [tryAdd_getD, if_pos (hv.accepts_infoTs peer targets ts), fillingOf_push,
      stampOf, hts]
    rfl

theorem stampsRight_stampedBuilder (v : SendView) (stamped : Option Int) (peer : Guid)
    (targets : List Locator) :
    v.StampsRight (v.stampedBuilder stamped peer targets).submessages := by
  cases stamped with
  | none => exact v.stampsRight_open peer targets
  | some sn =>
    have := v.stampsRight_open peer targets
    rcases v.appendInfoTs_cases (v.openBuilderFor peer targets) sn with h | ⟨ts, -, -, h⟩ <;>
      simp [stampedBuilder, h]
    · exact this
    · exact stampsRight_push.mpr ⟨this, by simp [Submessage.changeSn?]⟩

variable {d : AddressedDatagram}

theorem Roomy.buildAlone_right (hv : v.Roomy) {stamped : Option Int} {message : String}
    (hs : s.isFramingOnly = false) (hstamped : ∀ sn, s.changeSn? = some sn → stamped = some sn)
    (h : v.buildAlone s stamped peer targets message = .ok d) :
    v.StampsRight d.datagram.submessages := by
  rw [(buildAlone_ok hs h).2]
  refine (stampsRight_push (b := v.stampedBuilder stamped peer targets)).mpr
    ⟨v.stampsRight_stampedBuilder stamped peer targets, fun sn hsn => ?_⟩
  rw [hstamped sn hsn]
  exact hv.inForce_stampedBuilder sn

variable {sn : Int} {payload : Octets} {ds out : List AddressedDatagram} {p p' : ReaderProxy}
  {log log' : SendLog} {fuel : Nat} {key : KeyHash}

section

variable (hv : v.Roomy)
include hv

theorem Roomy.fragmentDatagrams_right {perMessage num pos : Nat}
    (h : v.fragmentDatagrams sn payload size perMessage peer targets fuel num pos = .ok ds) :
    v.AllStampsRight ds := by
  induction fuel generalizing num pos ds with
  | zero =>
    obtain rfl := Except.ok.inj h
    simp [AllStampsRight]
  | succ fuel ih =>
    by_cases hpos : pos < payload.length
    · obtain ⟨d, rest, hd, hrest, rfl⟩ := fragmentDatagrams_succ_ok hpos h
      refine List.forall_mem_cons.mpr ⟨hv.buildAlone_right rfl (fun sn hsn => ?_) hd, ih hrest⟩
      simpa [Submessage.changeSn?, dataFragOf] using hsn
    · simp only [fragmentDatagrams, hpos, if_false] at h
      obtain rfl := Except.ok.inj h
      simp [AllStampsRight]

theorem Roomy.buildSampleDatagrams_right
    (h : v.buildSampleDatagrams sn payload peer targets = .ok ds) : v.AllStampsRight ds := by
  unfold buildSampleDatagrams at h
  split at h
  · obtain ⟨d, hd, rfl⟩ := map_singleton_eq_ok h
    simpa [AllStampsRight] using
      hv.buildAlone_right rfl (by simp [Submessage.changeSn?]) hd
  · split at h
    · obtain ⟨d, hd, rfl⟩ := map_singleton_eq_ok h
      simpa [AllStampsRight] using
        hv.buildAlone_right rfl
          (by simp [Submessage.changeSn?, writerSn_dataOf]) hd
    · simp only at h
      split at h
      · cases h
      · split at h
        · cases h
        · exact hv.fragmentDatagrams_right h

theorem Roomy.buildChangeDatagrams_right
    (h : v.buildChangeDatagrams key sn peer targets = .ok ds) : v.AllStampsRight ds := by
  unfold buildChangeDatagrams at h
  split at h
  · obtain ⟨d, hd, rfl⟩ := map_singleton_eq_ok h
    simpa [AllStampsRight] using
      hv.buildAlone_right rfl (by simp [Submessage.changeSn?]) hd
  · split at h
    · exact hv.buildSampleDatagrams_right h
    · obtain ⟨d, hd, rfl⟩ := map_singleton_eq_ok h
      simpa [AllStampsRight] using
        hv.buildAlone_right rfl
          (by simp [Submessage.changeSn?, lifecycleData]) hd

theorem Roomy.buildFragmentRun_right {frag count : Nat}
    (h : v.buildFragmentRun sn frag count peer targets = .ok d) :
    v.StampsRight d.datagram.submessages := by
  have hgap : ∀ {d}, v.buildGapDatagram sn peer targets = .ok d →
      v.StampsRight d.datagram.submessages := fun h =>
    hv.buildAlone_right rfl (by simp [Submessage.changeSn?]) h
  have hfrag : ∀ {f d}, v.buildDataFragSubmessageDatagram sn f peer targets = .ok d →
      v.StampsRight d.datagram.submessages := fun h =>
    hv.buildAlone_right rfl (by simp [Submessage.changeSn?, dataFragOf]) h
  unfold buildFragmentRun at h
  split at h
  · simp only [buildDataFragDatagram] at h
    repeat' (split at h)
    all_goals first | exact hfrag h | exact hgap h | cases h
  · exact hgap h

theorem Roomy.appendChange_right (ha : v.Opened peer targets a.builder)
    (h : v.appendChange a sn peer targets = .ok a') :
    (v.AssemblyRight a' ↔ v.AssemblyRight a ∧
      ∀ s, v.changeSubmessage sn peer = some s → v.StampHolds peer sn (fillingOf a.builder) s) ∧
    fillingOf a'.builder = v.fillingAfter peer targets (fillingOf a.builder) sn := by
  rw [appendChange_eq] at h
  unfold fillingAfter
  cases hs : v.changeSubmessage sn peer with
  | none =>
    rw [hs] at h
    cases hds : v.buildSampleDatagrams sn (v.payloadOf sn) peer targets with
    | error e => simp [hds, Except.map] at h
    | ok ds =>
      simp only [hds, Except.map, Except.ok.injEq] at h
      subst h
      have hright := hv.buildSampleDatagrams_right hds
      refine ⟨?_, fillingOf_open v peer targets⟩
      simp only [AssemblyRight, AllStampsRight, List.forall_mem_append,
        v.stampsRight_open peer targets,
        and_true, reduceCtorEq, false_implies, implies_true]
      exact ⟨fun h => (allStampsRight_finish a peer).mp h.1,
        fun h => ⟨(allStampsRight_finish a peer).mpr h, hright⟩⟩
  | some s =>
    simp only [hs] at h
    have hstep := appendSubmessage_right (ha.stampFor sn s) h
    simp only [fillingOf_stampFor ha.mtu] at hstep
    refine ⟨hstep.1.trans (and_congr ?_ ?_), hstep.2⟩
    · exact and_congr_right fun _ => stampsRight_stampFor sn s
    · rcases changeSubmessage_form hs with rfl | ⟨d, rfl, hsn⟩
      · simp [Submessage.changeSn?, StampHolds]
      · simp only [Submessage.changeSn?, Option.some.injEq, forall_eq', hsn]
        exact stampHolds_iff sn _ d

theorem Roomy.appendAll_right {sns : List Int}
    (ha : v.Opened peer targets a.builder) (h : v.appendAll peer targets sns a = .ok a') :
    v.AssemblyRight a' ↔
      v.AssemblyRight a ∧ v.StampsHold peer targets (fillingOf a.builder) sns := by
  induction sns generalizing a with
  | nil =>
    obtain rfl := Except.ok.inj h
    simp [StampsHold]
  | cons sn sns ih =>
    rw [appendAll] at h
    split at h
    · cases h
    · next a₁ h₁ =>
      obtain ⟨hright, hfilling⟩ := hv.appendChange_right ha h₁
      rw [ih (appendChange_opened ha h₁) h, hright, hfilling, StampsHold, and_assoc]

end

theorem appendHeartbeat_right {b : HeartbeatSubmessage} (ha : v.Opened peer targets a.builder)
    (h : v.appendSubmessage a (.heartbeat b) peer targets hint = .ok a') :
    v.AssemblyRight a' ↔ v.AssemblyRight a := by
  rw [(appendSubmessage_right ha h).1]
  simp [Submessage.changeSn?]

theorem assemblyRight_open (p : ReaderProxy) (out : List AddressedDatagram) :
    v.AssemblyRight (v.openAssembly p out) ↔ v.AllStampsRight out := by
  simp [AssemblyRight, openAssembly, v.stampsRight_open]

theorem Roomy.tickTurn_right (hv : v.Roomy) {plan : TickPlan} {s : SendLog × Bool}
    (h : (v.tickTurn plan s p).2 = .ok out) :
    v.AllStampsRight out ↔ v.StampsHold p.remoteReaderGuid p.targets
      (v.freshFilling p.remoteReaderGuid p.targets)
      (v.sendPlan p (p.repairDue plan.now v.nackResponseDelay).2) := by
  obtain ⟨-, -, frags, hfrags, a, hall, hend⟩ :=
    (tickTurn_spec (v := v) plan s.1 s.2 p rfl).2 out h
  have hright : v.AllStampsRight frags := by
    clear hall
    generalize v.fragmentPlan p _ = runs at hfrags
    induction hfrags with
    | nil => simp [AllStampsRight]
    | cons hbuild _ ih => exact List.forall_mem_cons.mpr ⟨hv.buildFragmentRun_right hbuild, ih⟩
  have hopen : v.Opened p.remoteReaderGuid p.targets (v.openAssembly p frags).builder :=
    opened_openBuilderFor
  have hchanges := hv.appendAll_right hopen hall
  rw [assemblyRight_open, and_iff_right hright,
    show fillingOf (v.openAssembly p frags).builder = _ from fillingOf_open v _ _] at hchanges
  rw [← hchanges]
  split at hend
  · obtain ⟨a', hbeat, rfl⟩ := hend
    have hopen' := (appendAll_invariant (P := fun _ _ => True) (fun _ _ _ _ _ _ _ => trivial) []
      hopen trivial hall).2
    rw [allStampsRight_finish, appendHeartbeat_right hopen' hbeat]
  · subst hend
    exact allStampsRight_finish a _

theorem Roomy.pushTo_right (hv : v.Roomy) (h : v.pushTo sn payload log p = ((log', p'), .ok out)) :
    v.AllStampsRight out := by
  have hnone : v.AllStampsRight [] := by simp [AllStampsRight]
  unfold pushTo at h
  split at h
  · cases h
    exact hnone
  · simp only at h
    split at h
    · cases h
      exact hnone
    · split at h
      · cases h
      · next ds hds =>
        cases h
        exact hv.buildSampleDatagrams_right hds

theorem Roomy.drainTo_right (hv : v.Roomy) (h : v.drainTo key sn fuel p = (p', .ok out)) :
    v.AllStampsRight out := by
  have hnone : v.AllStampsRight [] := by simp [AllStampsRight]
  induction fuel generalizing p p' out with
  | zero =>
    cases h
    exact hnone
  | succ fuel ih =>
    simp only [drainTo] at h
    split at h
    · cases h
      exact hnone
    · split at h
      · cases h
      · next ds hds =>
        have hright := hv.buildChangeDatagrams_right hds
        split at h
        · cases h
          exact hright
        · split at h
          · cases h
          · next rest hrest =>
            cases h
            exact List.forall_mem_append.mpr ⟨hright, ih hrest⟩

/-- The DATA of a `write_with_heartbeat` to a proxy in step goes with its INFO_TS into
the fresh datagram. -/
def StampWithHeartbeat (v : SendView) (sn : Int) (payload : Octets) (p : ReaderProxy) : Prop :=
  v.pushMode = true → p.highestSentSn + 1 = sn →
    v.needsFragmentation sn p.remoteReaderGuid payload = false →
    v.isRelevant sn p.remoteReaderGuid = true →
    v.StampHolds p.remoteReaderGuid sn (v.freshFilling p.remoteReaderGuid p.targets)
      (.data (v.dataOf sn payload p.remoteReaderGuid))

variable {first : Int} {finalFlag livelinessFlag : Bool}

theorem addHeartbeat_right (ha : v.Opened p.remoteReaderGuid p.targets a.builder)
    (h : v.addHeartbeat log a first finalFlag livelinessFlag p = (log', .ok a')) :
    v.AssemblyRight a' ↔ v.AssemblyRight a := by
  simp only [addHeartbeat, Prod.mk.injEq] at h
  exact appendHeartbeat_right ha h.2

theorem heartbeatAlone_right
    (h : v.heartbeatAlone log p first finalFlag livelinessFlag ds = (log', .ok out)) :
    v.AllStampsRight out ↔ v.AllStampsRight ds := by
  obtain ⟨log₁, a, hadd, hfin⟩ := andThen_eq_ok.mp h
  simp only [Prod.mk.injEq, Except.ok.injEq] at hfin
  rw [← hfin.2, allStampsRight_finish, addHeartbeat_right opened_openBuilderFor hadd,
    assemblyRight_open]

theorem appendData_right
    (h : v.appendData (v.openAssembly p []) sn payload p.remoteReaderGuid p.targets = .ok a) :
    (v.AssemblyRight a ↔ (v.isRelevant sn p.remoteReaderGuid = true →
      v.StampHolds p.remoteReaderGuid sn (v.freshFilling p.remoteReaderGuid p.targets)
        (.data (v.dataOf sn payload p.remoteReaderGuid)))) ∧
      v.Opened p.remoteReaderGuid p.targets a.builder := by
  have hopen : v.Opened p.remoteReaderGuid p.targets (v.openAssembly p []).builder :=
    opened_openBuilderFor
  have hnone : v.AssemblyRight (v.openAssembly p []) := by
    rw [assemblyRight_open]
    simp [AllStampsRight]
  have hfresh : fillingOf (v.openAssembly p []).builder =
      v.freshFilling p.remoteReaderGuid p.targets := fillingOf_open v _ _
  unfold appendData at h
  split at h
  · next hrel =>
    set s : Submessage := .data (v.dataOf sn payload p.remoteReaderGuid) with hs
    have hstamped := hopen.stampFor sn s
    have hfill : fillingOf (v.appendInfoTs (v.openAssembly p []).builder sn) =
        v.stampFilling p.remoteReaderGuid sn (v.freshFilling p.remoteReaderGuid p.targets) s :=
      (fillingOf_stampFor hopen.mtu sn s).trans (by rw [hfresh])
    have hstep := (appendSubmessage_right hstamped h).1
    simp only [hfill] at hstep
    refine ⟨hstep.trans ?_, appendSubmessage_opened hstamped h⟩
    have hsn : s.changeSn? = some sn := by simp [hs, Submessage.changeSn?, writerSn_dataOf]
    simp only [hsn, Option.some.injEq, forall_eq', hrel, true_implies]
    rw [hs, stampHolds_iff]
    exact and_iff_right ⟨hnone.1, (stampsRight_stampFor sn s).mpr hnone.2⟩
  · next hrel =>
    refine ⟨iff_of_true ?_ fun h => absurd h hrel, appendSubmessage_opened hopen h⟩
    rw [(appendSubmessage_right hopen h).1]
    exact ⟨hnone, by simp [Submessage.changeSn?]⟩

theorem dataWithHeartbeat_right (h : v.dataWithHeartbeat sn payload first log p = (log', .ok out)) :
    v.AllStampsRight out ↔ (v.isRelevant sn p.remoteReaderGuid = true →
      v.StampHolds p.remoteReaderGuid sn (v.freshFilling p.remoteReaderGuid p.targets)
        (.data (v.dataOf sn payload p.remoteReaderGuid))) := by
  unfold dataWithHeartbeat at h
  split at h
  · cases h
  · next a ha =>
    obtain ⟨hright, hopen⟩ := appendData_right ha
    rw [← hright]
    split at h
    · split at h
      · obtain ⟨log₁, a', hadd, hfin⟩ := andThen_eq_ok.mp h
        simp only [Prod.mk.injEq, Except.ok.injEq] at hfin
        rw [← hfin.2, allStampsRight_finish, addHeartbeat_right hopen hadd]
      · rw [heartbeatAlone_right h, allStampsRight_finish]
    · cases h
      exact allStampsRight_finish a _

theorem Roomy.sendWithHeartbeat_right (hv : v.Roomy) {sends : Bool}
    (h : v.sendWithHeartbeat sn payload sends first log p = (log', .ok out)) :
    v.AllStampsRight out ↔ (sends = true →
      v.needsFragmentation sn p.remoteReaderGuid payload = false →
      v.isRelevant sn p.remoteReaderGuid = true →
      v.StampHolds p.remoteReaderGuid sn (v.freshFilling p.remoteReaderGuid p.targets)
        (.data (v.dataOf sn payload p.remoteReaderGuid))) := by
  unfold sendWithHeartbeat at h
  split at h
  · next hdata =>
    rw [dataWithHeartbeat_right h]
    simp [hdata.1, hdata.2]
  · next hdata =>
    refine iff_of_true ?_ fun hs hfrag => absurd ⟨hs, hfrag⟩ hdata
    simp only at h
    split at h
    · cases h
    · next ds hds =>
      have hright : v.AllStampsRight ds := by
        split at hds
        · exact hv.buildSampleDatagrams_right hds
        · obtain rfl := Except.ok.inj hds
          simp [AllStampsRight]
      split at h
      · exact (heartbeatAlone_right h).mpr hright
      · cases h
        exact hright

theorem Roomy.pushWithHeartbeat_right (hv : v.Roomy) {now : Nat}
    (h : v.pushWithHeartbeat sn payload now log p = ((log', p'), .ok out)) :
    v.AllStampsRight out ↔ v.StampWithHeartbeat sn payload p := by
  simp only [pushWithHeartbeat, Prod.mk.injEq] at h
  obtain ⟨-, hout⟩ := h
  have hadvanced : ((if v.pushMode then p.nextUnsentChange sn else (p, none)).2 = some sn) ↔
      v.pushMode = true ∧ p.highestSentSn + 1 = sn := by
    unfold ReaderProxy.nextUnsentChange
    cases v.pushMode with
    | false => simp
    | true =>
      by_cases hlt : p.highestSentSn < sn
      · simp [hlt]
      · simp [hlt]
        omega
  have hmoved : (if v.pushMode then p.nextUnsentChange sn else (p, none)).1.toRemoteReader =
      p.toRemoteReader := by
    split
    · exact p.toRemoteReader_nextUnsentChange sn
    · rfl
  have hreader : ∀ q : ReaderProxy, q.toRemoteReader = p.toRemoteReader →
      (if q.isReliable then q.heartbeatSent now else q).toRemoteReader = p.toRemoteReader := by
    intro q hq
    split <;> exact hq
  have hright := hv.sendWithHeartbeat_right (Prod.ext rfl hout)
  rw [hright, hreader _ hmoved]
  simp [hadvanced, StampWithHeartbeat]

end SendView

namespace ReliableWriter

theorem allStampsRight_of_cache {v v' : SendView} (h : v.cache = v'.cache)
    (ds : List AddressedDatagram) : v.AllStampsRight ds ↔ v'.AllStampsRight ds := by
  simp [SendView.AllStampsRight, SendView.StampsRight, SendView.stampOf, h]

/-- The calls whose datagrams bring changes: `write*`, `write_with_heartbeat*`,
`write_lifecycle*` and `tick`. -/
def SendsChanges : WriterOp → Bool
  | .write _ | .writeWithHeartbeat .. | .writeLifecycle _ | .tick _ => true
  | _ => false

def heartbeatSample (payload : Octets) (ts : Option HeTimestamp)
    (destination : Option GuidPrefix) : SampleWrite :=
  ⟨payload, ts, none, none, false, destination⟩

/-- The call keeps every change under its own timestamp.  That takes a condition where
the call aggregates: the layout of every proxy's datagrams in a tick, and the DATA with
its INFO_TS in one datagram in `write_with_heartbeat`. -/
def StampsFit (w : ReliableWriter) : WriterOp → Prop
  | .tick now => ∀ p ∈ w.readerProxies,
    (w.tickView now).StampsHold p.remoteReaderGuid p.targets
      ((w.tickView now).freshFilling p.remoteReaderGuid p.targets)
      ((w.tickView now).sendPlan p (p.repairDue now w.nackResponseDelay).2)
  | .writeWithHeartbeat payload _ ts destination => ∀ p ∈ w.readerProxies,
    (w.stageSample (heartbeatSample payload ts destination)).1.view.StampWithHeartbeat
      (w.nextSn + 1) payload p
  | _ => True

variable {w : ReliableWriter} {w' : ReliableWriter} {out : List AddressedDatagram}

theorem forProxies_right_iff {turn : SendView → SendLog → ReaderProxy → TurnOutcome}
    {Q : ReaderProxy → Prop}
    (hturn : ∀ log log' p p' out, turn w.view log p = ((log', p'), .ok out) →
      (w.view.AllStampsRight out ↔ Q p)) (h : w.forProxies turn = (w', .ok out)) :
    w'.view.AllStampsRight out ↔ ∀ p ∈ w.readerProxies, Q p := by
  simp only [forProxies, Prod.mk.injEq] at h
  obtain ⟨rfl, hout⟩ := h
  exact traverse_outputs_iff (fun p _ log log' p' out ht => hturn log log' p p' out ht)
    (Prod.ext rfl hout)

theorem roomy_of_mtu (h : 256 ≤ w.mtu) : w.view.Roomy := h

theorem tick_right_iff {now : Nat} (hmtu : 256 ≤ w.mtu) (h : w.tick now = (w', .ok out)) :
    w'.view.AllStampsRight out ↔ w.StampsFit (.tick now) := by
  have hout : (w.tickTurns now).2 = .ok out := by rw [← (w.tick_result now).1, h]
  have hcache : w'.view.cache = (w.tickView now).cache := by
    have : w'.cache = w.cache := by rw [← w.tick_cache now, h]
    exact this
  rw [allStampsRight_of_cache hcache]
  refine traverse_outputs_iff (fun p _ s s' p' out ht => ?_) (Prod.ext rfl hout)
  exact SendView.Roomy.tickTurn_right (v := w.tickView now) hmtu (by rw [ht])

/-- The datagrams a call returns keep every change under its own timestamp exactly when
the sizes of what it aggregates allow it. -/
theorem stamps_right_iff {w w' : ReliableWriter} {op : WriterOp} {out : List AddressedDatagram}
    (hmtu : 256 ≤ w.mtu) (hop : SendsChanges op = true) (h : w.step op = (w', .ok out)) :
    w'.view.AllStampsRight out ↔ w.StampsFit op := by
  cases op with
  | tick now => exact tick_right_iff hmtu h
  | write x =>
    obtain ⟨w₁, sn, hstage, hsend⟩ := andThen_eq_ok.mp h
    obtain ⟨-, -, hset, -⟩ := stageSample_ok hstage
    have hroomy : w₁.view.Roomy := roomy_of_mtu (hset.mtu ▸ hmtu)
    refine iff_of_true ?_ trivial
    split at hsend
    · refine (forProxies_right_iff (Q := fun _ => True) ?_ hsend).mpr fun _ _ => trivial
      exact fun log log' p p' out ht => iff_of_true (hroomy.pushTo_right ht) trivial
    · obtain ⟨rfl, hnone⟩ := Prod.mk.inj hsend
      obtain rfl := Except.ok.inj hnone
      simp [SendView.AllStampsRight]
  | writeWithHeartbeat payload now ts destination =>
    obtain ⟨w₁, sn, hstage, hsend⟩ := andThen_eq_ok.mp h
    obtain ⟨rfl, -, hset, -⟩ := stageSample_ok hstage
    have hroomy : w₁.view.Roomy := roomy_of_mtu (hset.mtu ▸ hmtu)
    obtain ⟨w₂, out', hturns, hdone⟩ := andThen_eq_ok.mp hsend
    obtain ⟨rfl, hout⟩ := Prod.mk.inj hdone
    obtain rfl := Except.ok.inj hout
    have hright := forProxies_right_iff
      (fun log log' p p' out ht => hroomy.pushWithHeartbeat_right ht) hturns
    rw [hset.readerProxies] at hright
    have hw₁ : (w.stageSample (heartbeatSample payload ts destination)).1 = w₁ := by
      rw [heartbeatSample, hstage]
    refine (allStampsRight_of_cache (show _ = w₂.view.cache from rfl) out').trans (hright.trans ?_)
    rw [StampsFit, hw₁]
  | writeLifecycle x =>
    obtain ⟨w₁, sn, hstage, hsend⟩ := andThen_eq_ok.mp h
    obtain ⟨-, -, hset, -⟩ := stageLifecycle_ok hstage
    have hroomy : w₁.view.Roomy := roomy_of_mtu (hset.mtu ▸ hmtu)
    refine iff_of_true ((forProxies_right_iff (Q := fun _ => True) ?_ hsend).mpr
      fun _ _ => trivial) trivial
    intro log log' p p' out ht
    simp only [SendView.drainTurn, Prod.mk.injEq] at ht
    exact iff_of_true (hroomy.drainTo_right (Prod.ext rfl ht.2)) trivial
  | _ => cases hop

/-! ### An unstamped change behind a stamped one -/

section

open WriterFixture

def stampedThenUnstamped : ReliableWriter :=
  let w := ((makeWriter 10 1472 []).step (.write (sample [1, 2, 3, 4] (some ⟨5, 0⟩)))).1
  let w := (w.step (.write (sample [5, 6, 7, 8] none))).1
  (w.step (.addReaderProxy (readerProxy 1))).1

/-- The tick puts both into one datagram, and the receiver attributes the first one's
timestamp to the second. -/
theorem unstamped_takes_over_timestamp :
    ∃ out, (stampedThenUnstamped.step (.tick 0)).2 = .ok out ∧
      out.map (fun d => walkStamps none d.datagram.submessages) =
        [[(1, some ⟨5, 0⟩), (2, some ⟨5, 0⟩)]] ∧
      stampedThenUnstamped.view.stampOf 2 = none ∧
      ¬(stampedThenUnstamped.step (.tick 0)).1.view.AllStampsRight out := by
  obtain ⟨out, hout, hstamps⟩ := exists_ok_of_map
    (r := (stampedThenUnstamped.step (.tick 0)).2)
    (f := List.map fun d => walkStamps none d.datagram.submessages)
    (b := [[(1, some ⟨5, 0⟩), (2, some ⟨5, 0⟩)]]) (by decide +kernel)
  refine ⟨out, hout, hstamps, by decide +kernel, fun hright => ?_⟩
  obtain ⟨d, hd, hwalk⟩ : ∃ d ∈ out, walkStamps none d.datagram.submessages =
      [(1, some ⟨5, 0⟩), (2, some ⟨5, 0⟩)] := by
    have := List.mem_map.mp (hstamps ▸ List.mem_singleton_self _)
    exact this
  have := hright d hd (2, some ⟨5, 0⟩) (by rw [hwalk]; simp)
  cases this

def stampedAlone : ReliableWriter :=
  let w := ((makeWriter 10 1472 []).step (.write (sample [1, 2, 3, 4] (some ⟨5, 0⟩)))).1
  (w.step (.addReaderProxy (readerProxy 1))).1

theorem stampedAlone_right :
    256 ≤ stampedAlone.mtu ∧ ∃ w' out, stampedAlone.step (.tick 0) = (w', .ok out) ∧
      out.map (fun d => walkStamps none d.datagram.submessages) = [[(1, some ⟨5, 0⟩)]] ∧
      w'.view.AllStampsRight out ∧ stampedAlone.StampsFit (.tick 0) := by
  have hmtu : 256 ≤ stampedAlone.mtu := by decide +kernel
  obtain ⟨out, hout, hstamps⟩ := exists_ok_of_map
    (r := (stampedAlone.step (.tick 0)).2)
    (f := List.map fun d => walkStamps none d.datagram.submessages)
    (b := [[(1, some ⟨5, 0⟩)]]) (by decide +kernel)
  have hone : (stampedAlone.step (.tick 0)).1.view.stampOf 1 = some ⟨5, 0⟩ := by decide +kernel
  have hright : (stampedAlone.step (.tick 0)).1.view.AllStampsRight out := by
    intro d hd e he
    have : walkStamps none d.datagram.submessages ∈ [[((1 : Int), some (⟨5, 0⟩ : HeTimestamp))]] :=
      hstamps ▸ List.mem_map_of_mem hd
    rw [List.mem_singleton.mp this, List.mem_singleton] at he
    rw [he, hone]
  exact ⟨hmtu, _, out, Prod.ext rfl hout, hstamps, hright,
    (stamps_right_iff hmtu rfl (Prod.ext rfl hout)).mp hright⟩

end

end ReliableWriter
end ZeroDds.Rtps
