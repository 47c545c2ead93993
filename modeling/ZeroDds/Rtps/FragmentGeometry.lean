/-
One cut for every fragment of a change.
-/
import ZeroDds.Rtps.Outgoing
import ZeroDds.Rtps.WriterCalls

namespace ZeroDds.Rtps

namespace SendView

variable {v v' : SendView}

/-- Octets of a DATA_FRAG left for fragments beside in-line QoS of `len` octets: of the
message, and of the submessage. -/
def fragmentRoom (v : SendView) (len : Nat) : Nat :=
  min (v.mtu - (besideDataFrag + len)) (u16Max - (32 + len))

theorem fragmentSizeFor_eq (v : SendView) (sn : Int) :
    v.fragmentSizeFor sn =
      max (min v.fragmentSize (v.fragmentRoom (v.sampleInlineQosLen sn none))) 1 := rfl

theorem wireLen_push (pl : ParameterList) (p : Parameter) :
    (pl.push p).wireLen = pl.wireLen + (4 + paddedTo4 p.value.length) := by
  simp only [ParameterList.wireLen, ParameterList.push, List.map_append, List.map_cons,
    List.map_nil, List.sum_append, List.sum_cons, List.sum_nil]
  omega

theorem wireLen_pushSetParams (v v' : SendView) (change : CacheChange)
    (qos : Option ParameterList) :
    (v'.pushSetParams change none qos).map ParameterList.wireLen =
      (v.pushSetParams change none qos).map ParameterList.wireLen := by
  have hinfo : ∀ (pl : ParameterList) (set : GroupDigest) (b : Bool),
      (pl.push (if b then InlineQos.secureWriterGroupInfoParam set
        else InlineQos.writerGroupInfoParam set)).wireLen =
      (pl.push (InlineQos.writerGroupInfoParam set)).wireLen := by
    intro pl set b
    rw [wireLen_push, wireLen_push]
    cases b <;> rfl
  unfold pushSetParams
  cases change.group with
  | none => rfl
  | some g =>
    cases hgsn : g.coherentSetGsn with
    | none => simp [Option.filter, hgsn, hinfo]
    | some first => simp [Option.filter, hgsn, wireLen_push, hinfo]

theorem sampleInlineQosLen_congr {sn : Int} (hget : v'.cache.get sn = v.cache.get sn)
    (hqos : v'.inlineWriterQos = v.inlineWriterQos) :
    v'.sampleInlineQosLen sn none = v.sampleInlineQosLen sn none := by
  have hfor : (v'.sampleInlineQosFor sn none).map ParameterList.wireLen =
      (v.sampleInlineQosFor sn none).map ParameterList.wireLen := by
    unfold sampleInlineQosFor
    rw [hget]
    cases v.cache.get sn with
    | none => rfl
    | some change =>
      simp only [hqos, Option.all_none]
      cases change.keyHash with
      | none => exact wireLen_pushSetParams v v' change _
      | some key =>
        simp only [Option.map_some, wireLen_push, Option.some.injEq, Nat.add_right_cancel_iff]
        have hgetD : ∀ qos : Option ParameterList, (qos.getD ParameterList.new).wireLen =
            (qos.map ParameterList.wireLen).getD ParameterList.new.wireLen := by
          intro qos
          cases qos <;> rfl
        rw [hgetD, hgetD, wireLen_pushSetParams v v' change]
  unfold sampleInlineQosLen
  rw [hget]
  cases v.cache.get sn with
  | none => rfl
  | some change =>
    simp only [carriesMore, hqos, Option.all_none, hfor]
    rfl

theorem fragmentSizeFor_congr {sn : Int} (hget : v'.cache.get sn = v.cache.get sn)
    (hqos : v'.inlineWriterQos = v.inlineWriterQos) (hsize : v'.fragmentSize = v.fragmentSize)
    (hmtu : v'.mtu = v.mtu) : v'.fragmentSizeFor sn = v.fragmentSizeFor sn := by
  rw [fragmentSizeFor_eq, fragmentSizeFor_eq, sampleInlineQosLen_congr hget hqos, hsize]
  simp [fragmentRoom, hmtu]

/-- Two amounts of room that give the same fragment size: equal ones, enough of it
twice, not enough for more than one octet twice; and any with a fragment size of 1. -/
def SameCut (fragmentSize room room' : Nat) : Prop :=
  room' = room ∨ (fragmentSize ≤ room ∧ fragmentSize ≤ room') ∨ (room ≤ 1 ∧ room' ≤ 1) ∨
    fragmentSize ≤ 1

instance (fragmentSize room room' : Nat) : Decidable (SameCut fragmentSize room room') :=
  inferInstanceAs (Decidable (_ ∨ _ ∨ _ ∨ _))

theorem sameCut_iff (fragmentSize room room' : Nat) :
    SameCut fragmentSize room room' ↔
      max (min fragmentSize room') 1 = max (min fragmentSize room) 1 := by
  unfold SameCut
  omega

end SendView

/-! ### Fragments and their octets -/

structure CutFrom (f : DataFragSubmessage) (size : Nat) (payload : Octets) : Prop where
  fragmentSize : f.fragmentSize = size
  sampleSize : f.sampleSize = payload.length
  start_pos : 1 ≤ f.fragmentStartingNum
  octets : f.serializedPayload =
    (payload.drop ((f.fragmentStartingNum - 1) * size)).take (f.fragmentsInSubmessage * size)

def DataFragSubmessage.octetsOf (f : DataFragSubmessage) (k : Nat) : Octets :=
  (f.serializedPayload.drop ((k - f.fragmentStartingNum) * f.fragmentSize)).take f.fragmentSize

theorem CutFrom.octetsOf {f : DataFragSubmessage} {size k : Nat} {payload : Octets}
    (h : CutFrom f size payload) (hlo : f.fragmentStartingNum ≤ k)
    (hhi : k < f.fragmentStartingNum + f.fragmentsInSubmessage) :
    f.octetsOf k = (payload.drop ((k - 1) * size)).take size := by
  have hstart := h.start_pos
  obtain ⟨i, rfl⟩ : ∃ i, k = f.fragmentStartingNum + i := ⟨k - f.fragmentStartingNum, by omega⟩
  obtain ⟨rest, hrest⟩ : ∃ rest, f.fragmentsInSubmessage = i + 1 + rest :=
    ⟨f.fragmentsInSubmessage - (i + 1), by omega⟩
  have hdrop : (f.fragmentStartingNum - 1) * size + i * size =
      (f.fragmentStartingNum + i - 1) * size := by
    rw [← Nat.add_mul]
    congr 1
    omega
  have htake : (i + 1 + rest) * size - i * size = size + rest * size := by
    rw [Nat.add_mul, Nat.add_mul, Nat.one_mul]
    omega
  rw [DataFragSubmessage.octetsOf, h.octets, h.fragmentSize, hrest, Nat.add_sub_cancel_left,
    List.drop_take, List.drop_drop, htake, List.take_take, hdrop]
  congr 1
  omega

namespace ReliableWriter

structure Sender where
  writer : ReliableWriter
  sent : List Submessage

def Sender.call (s : Sender) (c : WriterCall) : Sender × WriterResult :=
  let r := s.writer.call c
  (⟨r.1, s.sent ++ (r.2.toOption.map contents).getD []⟩, r.2)

def Sender.new (cfg : ReliableWriterConfig) : Sender := ⟨.new cfg, []⟩

/-- The DATA_FRAGs of one change are all cut alike, and a fragment number denotes the
same octets in each. -/
def Sender.OneCut (s : Sender) : Prop :=
  ∀ f g, .dataFrag f ∈ s.sent → .dataFrag g ∈ s.sent → f.writerSn = g.writerSn →
    f.fragmentSize = g.fragmentSize ∧ f.sampleSize = g.sampleSize ∧
      ∀ k ∈ f.covers ∩ g.covers, f.octetsOf k = g.octetsOf k

def inlineQosLenWith (w : ReliableWriter) (qos : Option ParameterList) (sn : Int) : Nat :=
  (w.setInlineWriterQos qos).view.sampleInlineQosLen sn none

/-- New QoS to send in-line leaves the room for fragments of every change that is held and
was sent in fragments as it was, or above the fragment size as it was, or at one octet at
most. -/
def Sender.QosKeepsCut (s : Sender) : WriterCall → Prop
  | .setInlineWriterQos qos =>
    ∀ f, .dataFrag f ∈ s.sent → (s.writer.cache.get f.writerSn).isSome →
      SendView.SameCut s.writer.fragmentSize
        (s.writer.view.fragmentRoom
          (s.writer.inlineQosLenWith s.writer.inlineWriterQos f.writerSn))
        (s.writer.view.fragmentRoom (s.writer.inlineQosLenWith qos f.writerSn))
  | _ => True

/-- What the fragments sent so far were cut from: `cut` gives the size and the payload of
each number, those of the history for a change it holds. -/
structure CutsBy (s : Sender) (cut : Int → Nat × Octets) : Prop where
  held_le : ∀ n c, s.writer.cache.get n = some c → n ≤ s.writer.nextSn
  sent_le : ∀ f, .dataFrag f ∈ s.sent → f.writerSn ≤ s.writer.nextSn
  sent : ∀ f, .dataFrag f ∈ s.sent → CutFrom f (cut f.writerSn).1 (cut f.writerSn).2
  current : ∀ f, .dataFrag f ∈ s.sent → ∀ c, s.writer.cache.get f.writerSn = some c →
    cut f.writerSn = (s.writer.view.fragmentSizeFor f.writerSn, c.payload)

variable {s : Sender} {cut : Int → Nat × Octets} {w : ReliableWriter}

theorem CutsBy.oneCut (h : CutsBy s cut) : s.OneCut := by
  intro f g hf hg hsn
  have hcutf := h.sent f hf
  have hcutg := h.sent g hg
  rw [hsn] at hcutf
  refine ⟨hcutf.fragmentSize.trans hcutg.fragmentSize.symm,
    hcutf.sampleSize.trans hcutg.sampleSize.symm, fun k hk => ?_⟩
  obtain ⟨hkf, hkg⟩ := Finset.mem_inter.mp hk
  obtain ⟨hlof, hhif⟩ := Finset.mem_Ico.mp hkf
  obtain ⟨hlog, hhig⟩ := Finset.mem_Ico.mp hkg
  rw [hcutf.octetsOf hlof hhif, hcutg.octetsOf hlog hhig]

theorem CutsBy.next (h : CutsBy s cut) {new : List Submessage} (hle : s.writer.nextSn ≤ w.nextSn)
    (hheld : ∀ n c, w.cache.get n = some c →
      s.writer.cache.get n = some c ∨ (s.writer.nextSn < n ∧ n ≤ w.nextSn))
    (hkept : ∀ f, .dataFrag f ∈ s.sent → ∀ c, w.cache.get f.writerSn = some c →
      s.writer.cache.get f.writerSn = some c →
      w.view.fragmentSizeFor f.writerSn = s.writer.view.fragmentSizeFor f.writerSn)
    (hnew : ∀ f, .dataFrag f ∈ new → ∃ c, w.cache.get f.writerSn = some c ∧
      CutFrom f (w.view.fragmentSizeFor f.writerSn) c.payload) :
    ∃ cut', CutsBy ⟨w, s.sent ++ new⟩ cut' := by
  -- the history decides where it holds the change, what was sent before elsewhere
  let cut' : Int → Nat × Octets := fun n =>
    ((w.cache.get n).map fun c => (w.view.fragmentSizeFor n, c.payload)).getD (cut n)
  have hcut' : ∀ n c, w.cache.get n = some c →
      cut' n = (w.view.fragmentSizeFor n, c.payload) := by
    intro n c hget
    simp [cut', hget]
  have hold : ∀ f, .dataFrag f ∈ s.sent → ∀ c, w.cache.get f.writerSn = some c →
      s.writer.cache.get f.writerSn = some c := by
    intro f hf c hget
    rcases hheld _ c hget with hsame | hfresh
    · exact hsame
    · have := h.sent_le f hf
      omega
  refine ⟨cut', ?_, ?_, ?_, ?_⟩
  · intro n c hget
    show n ≤ w.nextSn
    rcases hheld n c hget with hsame | hfresh
    · have := h.held_le n c hsame
      omega
    · exact hfresh.2
  · intro f hf
    show f.writerSn ≤ w.nextSn
    rcases List.mem_append.mp hf with hf | hf
    · have := h.sent_le f hf
      omega
    · obtain ⟨c, hget, -⟩ := hnew f hf
      rcases hheld _ c hget with hsame | hfresh
      · have := h.held_le _ c hsame
        omega
      · exact hfresh.2
  · intro f hf
    rcases List.mem_append.mp hf with hf | hf
    · cases hget : w.cache.get f.writerSn with
      | none =>
        have : cut' f.writerSn = cut f.writerSn := by
          simp [cut', hget]
        rw [this]
        exact h.sent f hf
      | some c =>
        have hwas := hold f hf c hget
        rw [hcut' _ c hget, hkept f hf c hget hwas, ← h.current f hf c hwas]
        exact h.sent f hf
    · obtain ⟨c, hget, hcut⟩ := hnew f hf
      rw [hcut' _ c hget]
      exact hcut
  · exact fun f _ c hget => hcut' _ c hget

theorem SentTo.cutFrom {ps : List ReaderProxy} {out : List AddressedDatagram}
    (h : SentTo ps w out) {f : DataFragSubmessage} (hf : .dataFrag f ∈ contents out) :
    ∃ c, w.cache.get f.writerSn = some c ∧
      CutFrom f (w.view.fragmentSizeFor f.writerSn) c.payload := by
  obtain ⟨v, p, hbuilt, -, hsends⟩ := h _ hf
  cases hsends with
  | @fragments sn payload hpos hle slice hheld hcut =>
    have hsize : w.view.fragmentSizeFor sn = v.fragmentSizeFor sn :=
      SendView.fragmentSizeFor_congr (congrArg (·.get sn) hbuilt.cache.symm)
        hbuilt.inlineWriterQos.symm hbuilt.fragmentSize.symm hbuilt.mtu.symm
    have hget : (w.cache.get sn).map (·.payload) = some payload := hbuilt.cache ▸ hheld
    obtain ⟨c, hc, rfl⟩ := Option.map_eq_some_iff.mp hget
    refine ⟨c, hc, ?_⟩
    show CutFrom _ (w.view.fragmentSizeFor sn) c.payload
    rw [hsize]
    exact ⟨hcut.size, hcut.sampleSize, hcut.number_pos, hcut.bytes⟩

theorem fragmentSizeFor_of_moves {w' : ReliableWriter} (h : w.Moves w') {n : Int}
    (hget : w'.cache.get n = w.cache.get n) :
    w'.view.fragmentSizeFor n = w.view.fragmentSizeFor n :=
  SendView.fragmentSizeFor_congr hget h.inlineWriterQos h.fragmentSize h.mtu

theorem CutsBy.of_moves (h : CutsBy s cut) {new : List Submessage} (hmoves : s.writer.Moves w)
    (hnew : ∀ f, .dataFrag f ∈ new → ∃ c, w.cache.get f.writerSn = some c ∧
      CutFrom f (w.view.fragmentSizeFor f.writerSn) c.payload) :
    ∃ cut', CutsBy ⟨w, s.sent ++ new⟩ cut' :=
  h.next hmoves.nextSn_le hmoves.held
    (fun _ _ _ hget hwas => fragmentSizeFor_of_moves hmoves (hget.trans hwas.symm)) hnew

theorem get_of_setPerInstanceDepth {c : HistoryCache} {depth : Option Nat} {n : Int}
    {ch : CacheChange} (h : (c.setPerInstanceDepth depth).get n = some ch) : c.get n = some ch := by
  have hevicts : ∀ (sns : List Int) (c : HistoryCache),
      (sns.foldl (fun c sn => (c.evict sn).1) c).get n = some ch → c.get n = some ch := by
    intro sns
    induction sns with
    | nil => exact fun _ h => h
    | cons sn sns ih =>
      intro c h
      have hrest : (c.evictOpt (some sn)).1.get n = some ch := ih _ h
      exact HistoryCache.get_evictOpt_some hrest
  cases depth with
  | none => exact h
  | some d => exact hevicts _ { c with perInstanceDepth := some (max d 1) } h

theorem call_moves (w : ReliableWriter) {c : WriterCall} (h : ∀ qos, c ≠ .setInlineWriterQos qos) :
    w.Moves (w.call c).1 := by
  cases c with
  | op op => exact step_moves w op
  | setInlineWriterQos qos => exact absurd rfl (h qos)
  | refreshReaderProxyLocators guid unicast multicast =>
    simp only [call, refreshReaderProxyLocators]
    split
    · exact .refl w
    · exact modifyProxyAt_moves _ _ _
  | setCacheKindAndMax kind maxSamples =>
    exact moves_of_removal rfl (fun _ _ h => h) rfl rfl rfl
  | setCacheHistory kind maxSamples depth =>
    refine moves_of_removal rfl (fun n c h => ?_) rfl rfl rfl
    exact get_of_setPerInstanceDepth (c := w.cache.setKindAndMax kind maxSamples) h
  | _ => exact moves_of_same rfl rfl rfl rfl rfl

theorem CutsBy.call (h : CutsBy s cut) {c : WriterCall} (hok : s.QosKeepsCut c) :
    ∃ cut', CutsBy (s.call c).1 cut' := by
  by_cases hqos : ∃ qos, c = .setInlineWriterQos qos
  · obtain ⟨qos, rfl⟩ := hqos
    refine h.next (le_refl _) (fun n c hget => .inl hget) (fun f hf c hget _ => ?_)
      (by simp [ReliableWriter.call, Except.toOption])
    have hcut := (SendView.sameCut_iff _ _ _).mp (hok f hf (by
      rw [show s.writer.cache.get f.writerSn = some c from hget]
      rfl))
    exact hcut
  · have hmoves := call_moves s.writer fun qos hc => hqos ⟨qos, hc⟩
    refine h.of_moves hmoves fun f hf => ?_
    cases c with
    | op op =>
      rcases hres : s.writer.step op with ⟨w', e | out⟩
      · simp [ReliableWriter.call, hres, Except.toOption] at hf
      · simp only [ReliableWriter.call, hres, Except.toOption, Option.map_some,
          Option.getD_some] at hf ⊢
        exact (step_sends hres).cutFrom hf
    | _ => simp [ReliableWriter.call, Except.toOption] at hf

/-- In every run in which new QoS to send in-line leaves the cut of the changes already
sent in fragments alone, all DATA_FRAGs of a change that were ever returned are cut
alike. -/
theorem geometry_fixed_over_a_run (cfg : ReliableWriterConfig)
    {h : History WriterCall WriterResult} {s : Sender}
    (hrun : Reaches Sender.call Sender.QosKeepsCut (Sender.new cfg) h s) : s.OneCut := by
  suffices hcuts : ∃ cut, CutsBy s cut from hcuts.choose_spec.oneCut
  refine Reaches.invariant (P := fun _ s => ∃ cut, CutsBy s cut) ?_ ?_ hrun
  · refine ⟨fun _ => (0, []), fun n c hget => ?_, ?_, ?_, ?_⟩
    · simp [Sender.new, ReliableWriter.new] at hget
    all_goals
      intro f hf
      simp [Sender.new] at hf
  · rintro _ s c ⟨cut, hcut⟩ hok
    exact hcut.call hok

/-! ### New QoS between a send and its repair -/

section

open WriterFixture

def topicName (len : Nat) : ParameterList := ⟨[⟨0x0005, List.replicate len 0⟩], true⟩

def firstFragment : NackFragSubmessage :=
  ⟨(readerGuid 1).entityId, writerGuid.entityId, 1, FragmentNumberSet.fromMissing 1 [1], 1⟩

/-- A sample of two fragments, new QoS to send in-line, and the repair of a fragment. -/
def qosBeforeRepair (len : Nat) : List WriterCall :=
  [.op (.setNackResponseDelay 0), .op (.write (sample (List.replicate 1345 7) none)),
    .setInlineWriterQos (some (topicName len)), .op (.nackfrag (readerGuid 1) firstFragment),
    .op (.tick 0)]

def oneReader : ReliableWriterConfig := config 10 1472 [readerProxy 1]

/-- The number, the first fragment, the fragment size and the sample size of a DATA_FRAG. -/
def geometryOf : Submessage → Option (Int × Nat × Nat × Nat)
  | .dataFrag f => some (f.writerSn, f.fragmentStartingNum, f.fragmentSize, f.sampleSize)
  | _ => none

theorem mem_of_geometryOf {l : List Submessage} {g : Int × Nat × Nat × Nat}
    (h : g ∈ l.filterMap geometryOf) : ∃ f, .dataFrag f ∈ l ∧
      (f.writerSn, f.fragmentStartingNum, f.fragmentSize, f.sampleSize) = g := by
  obtain ⟨m, hm, hg⟩ := List.mem_filterMap.mp h
  cases m with
  | dataFrag f => exact ⟨f, hm, Option.some.inj hg⟩
  | _ => cases hg

/-- QoS of 64 octets more leave no room for the fragment size the sample was sent with:
its first fragment goes out again cut at 1320 octets. -/
theorem repair_is_cut_otherwise :
    (run Sender.call (Sender.new oneReader) (qosBeforeRepair 60)).1.sent.filterMap geometryOf =
      [(1, 1, 1344, 1345), (1, 2, 1344, 1345), (1, 1, 1320, 1345)] ∧
    ¬(run Sender.call (Sender.new oneReader) (qosBeforeRepair 60)).1.OneCut := by
  have hsent : (run Sender.call (Sender.new oneReader)
      (qosBeforeRepair 60)).1.sent.filterMap geometryOf =
      [(1, 1, 1344, 1345), (1, 2, 1344, 1345), (1, 1, 1320, 1345)] := by decide +kernel
  refine ⟨hsent, fun hone => ?_⟩
  obtain ⟨f, hf, hfirst⟩ := mem_of_geometryOf
    (show ((1 : Int), 1, 1344, 1345) ∈ _ by rw [hsent]; simp)
  obtain ⟨g, hg, hagain⟩ := mem_of_geometryOf
    (show ((1 : Int), 1, 1320, 1345) ∈ _ by rw [hsent]; simp)
  simp only [Prod.mk.injEq] at hfirst hagain
  have := (hone f g hf hg (hfirst.1.trans hagain.1.symm)).1
  omega

def sentInFragments : Sender :=
  (run Sender.call (Sender.new oneReader) ((qosBeforeRepair 8).take 2)).1

/-- QoS of 16 octets leave room for the fragment size, and the repair is cut as the first
send was. -/
theorem repair_is_cut_alike :
    Reaches Sender.call Sender.QosKeepsCut (Sender.new oneReader)
      (run Sender.call (Sender.new oneReader) (qosBeforeRepair 8)).2
      (run Sender.call (Sender.new oneReader) (qosBeforeRepair 8)).1 ∧
    (run Sender.call (Sender.new oneReader) (qosBeforeRepair 8)).1.sent.filterMap geometryOf =
      [(1, 1, 1344, 1345), (1, 2, 1344, 1345), (1, 1, 1344, 1345)] ∧
    (run Sender.call (Sender.new oneReader) (qosBeforeRepair 8)).1.OneCut := by
  have hroom : ∀ g ∈ sentInFragments.sent.filterMap geometryOf,
      SendView.SameCut sentInFragments.writer.fragmentSize
        (sentInFragments.writer.view.fragmentRoom
          (sentInFragments.writer.inlineQosLenWith none g.1))
        (sentInFragments.writer.view.fragmentRoom
          (sentInFragments.writer.inlineQosLenWith (some (topicName 8)) g.1)) := by
    decide +kernel
  have hok : RunOk Sender.call Sender.QosKeepsCut (Sender.new oneReader) (qosBeforeRepair 8) := by
    refine ⟨trivial, trivial, fun f hf _ => ?_, trivial, trivial, trivial⟩
    exact hroom _ (List.mem_filterMap.mpr ⟨_, hf, rfl⟩)
  have hreach := reaches_run hok
  exact ⟨hreach, by decide +kernel, geometry_fixed_over_a_run oneReader hreach⟩

end

end ReliableWriter
end ZeroDds.Rtps
