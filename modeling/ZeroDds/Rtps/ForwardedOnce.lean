/-
Forwarded and direct copies.
-/
import ZeroDds.Rtps.Commit
import ZeroDds.Rtps.DeliveryOrder

namespace ZeroDds.Rtps

def samplesOf (o : Guid) (out : List DeliveredSample) : List Int :=
  (out.filter fun x => x.writerGuid = o && !x.coherentSetEnd).map fun x => x.sequenceNumber

def setEndsOf (o : Guid) (out : List DeliveredSample) : List Int :=
  (out.filter fun x => x.writerGuid = o && x.coherentSetEnd).map fun x => x.sequenceNumber

theorem samplesOf_append (o : Guid) (a b : List DeliveredSample) :
    samplesOf o (a ++ b) = samplesOf o a ++ samplesOf o b := by
  simp [samplesOf]

namespace ReliableReader

/-- The numbers a call hands out as `o`'s, itself or through a writer of the same
participant. -/
def MatchOutput.samples (o : Guid) (out : MatchOutput) : List Int :=
  samplesOf o out.delivered ++ (out.accepted.toList.filter fun e => e.1 = o).map Prod.snd

def handedOut (o : Guid) (h : History MatchOp MatchOutput) : List Int :=
  h.flatMap fun e => e.2.samples o

def setEnds (o : Guid) (h : History MatchOp MatchOutput) : List Int :=
  h.flatMap fun e => setEndsOf o e.2.delivered

variable (r : ReliableReader) (o : Guid)

def receivedIn : MatchOp → List Int
  | .call op =>
    (((r.receive op).1.stateOf o).map fun s => s.receivedCache.changes.keys).getD [] ++
      ((r.receive op).2.flatten.filter fun x => x.writerGuid = o).map fun x => x.sequenceNumber
  | _ => []

def copiesIn : MatchOp → List Int
  | .call op =>
    (((r.receive op).2.flatten.filter fun x => !x.coherentSetEnd).filterMap
      (r.receive op).1.forwardedFor).filterMap fun e => if e.1 = o then some e.2 else none
  | .acceptForwarded o' n => if o' = o then [n] else []
  | _ => []

def broughtBy : MatchOp → Option (WriterProxyState × CacheChange)
  | .call op =>
    (r.stateOf o).bind fun s =>
      match op.arrival r.guid s with
      | .change c => some (s, c)
      | _ => none
  | _ => none

def displacedIn (op : MatchOp) : Option Int :=
  (r.broughtBy o op).bind fun e => e.1.displacedBy e.2.sequenceNumber

def endOfSetIn (op : MatchOp) : Option Int :=
  ((r.broughtBy o op).filter fun e => e.2.coherentSetEnd).map fun e => e.2.sequenceNumber

/-- A reader, with the changes of one writer that were received or forwarded, those
that end a set and those that were displaced and have not come again. -/
structure Log where
  reader : ReliableReader
  seen : List Int
  endsOfSets : List Int
  displaced : List Int

def cameIn (op : MatchOp) : List Int := r.receivedIn o op ++ r.copiesIn o op

def logStep (l : Log) (op : MatchOp) : Log × MatchOutput :=
  ({ reader := (l.reader.matchStep op).1
     seen := l.seen ++ l.reader.cameIn o op
     endsOfSets := l.endsOfSets ++ (l.reader.endOfSetIn o op).toList
     displaced := l.displaced.filter (· ∉ l.reader.cameIn o op) ++
       (l.reader.displacedIn o op).toList }, (l.reader.matchStep op).2)

def Room (r : ReliableReader) : Prop :=
  ∀ s ∈ r.stateOf o, s.committed.ranges.length < SnRanges.maxRanges

def RoomAlong (o : Guid) : ReliableReader → List DeliveredSample → Prop
  | _, [] => True
  | r, x :: rest => Room o r ∧ RoomAlong o (r.commitSample x).1 rest

def OwnChange (c : CacheChange) : Prop := ∀ w ∈ originalWriterOf c.inlineQos, w.1 = o

instance RoomAlong.decidable (o : Guid) : ∀ r xs, Decidable (RoomAlong o r xs)
  | _, [] => .isTrue trivial
  | r, x :: rest =>
    have := RoomAlong.decidable o (r.commitSample x).1 rest
    inferInstanceAs
    (Decidable ((∀ s ∈ r.stateOf o, s.committed.ranges.length < SnRanges.maxRanges) ∧
      RoomAlong o (r.commitSample x).1 rest))

instance (o : Guid) : DecidablePred (OwnChange o) := fun c =>
  inferInstanceAs (Decidable (∀ w ∈ originalWriterOf c.inlineQos, w.1 = o))

def Original (l : Log) : MatchOp → Prop
  | .call op =>
    (∀ s ∈ l.reader.stateOf o, op.Brought (OwnChange o) l.reader.guid s) ∧
      RoomAlong o (l.reader.receive op).1 (l.reader.receive op).2.flatten
  | .addWriterProxy _ => True
  | .removeWriterProxy g | .departWriterProxy g => g ≠ o
  | .acceptForwarded _ _ => Room o l.reader

instance Original.decidable (o : Guid) (l : Log) : ∀ op, Decidable (Original o l op)
  | .call op => inferInstanceAs (Decidable
    ((∀ s ∈ l.reader.stateOf o, op.Brought (OwnChange o) l.reader.guid s) ∧
      RoomAlong o (l.reader.receive op).1 (l.reader.receive op).2.flatten))
  | .addWriterProxy _ => .isTrue trivial
  | .removeWriterProxy g => inferInstanceAs (Decidable (g ≠ o))
  | .departWriterProxy g => inferInstanceAs (Decidable (g ≠ o))
  | .acceptForwarded _ _ => inferInstanceAs (Decidable
    (∀ s ∈ l.reader.stateOf o, s.committed.ranges.length < SnRanges.maxRanges))

def Known (ends : List Int) (c : CacheChange) : Prop :=
  OwnChange o c ∧ (c.coherentSetEnd = true → c.sequenceNumber ∈ ends)

/-- The state of `o` is the one at `j`, and its record has just what was handed out. -/
structure Tracks (o : Guid) (ends : List Int) (r : ReliableReader) (j : Nat)
    (s : WriterProxyState) (handed : List Int) : Prop where
  shape : ∀ t ∈ r.states, t.Shape
  one : r.OneEach
  home : ∀ t ∈ r.departed, t.proxy.remoteWriterGuid ≠ o
  get : r.writerProxies[j]? = some s
  guid : s.proxy.remoteWriterGuid = o
  own : ∀ n c, s.receivedCache.get n = some c → Known o ends c
  held : ∀ n, s.receivedCache.get n ≠ none → s.deliveredUpTo < n
  apart : s.committed.Apart
  record : ∀ n, n ∈ s.committed ↔ n ∈ handed
  nodup : handed.Nodup

variable {o : Guid} {ends : List Int} {r : ReliableReader} {j : Nat} {s : WriterProxyState}
  {handed : List Int}

section

variable (h : Tracks o ends r j s handed)
include h

theorem Tracks.get_states : r.states[j]? = some s := by
  rw [getElem?_states_lt (List.getElem?_eq_some_iff.mp h.get).1]
  exact h.get

theorem Tracks.indexOf : r.indexOf o = some j := by
  obtain ⟨hlt, hs⟩ := List.getElem?_eq_some_iff.mp h.get_states
  refine List.findIdx?_eq_some_iff_getElem.mpr ⟨hlt, by simpa [hs] using h.guid, fun i hi => ?_⟩
  have hj : j < r.writerProxies.length := (List.getElem?_eq_some_iff.mp h.get).1
  have hi' : i < r.writerProxies.length := by omega
  have hne := h.one.ne h.get (List.getElem?_eq_getElem hi') (by omega)
  rw [h.guid] at hne
  have hget : r.states[i]? = r.writerProxies[i]? := getElem?_states_lt hi'
  rw [List.getElem?_eq_getElem (by omega), List.getElem?_eq_getElem hi'] at hget
  rw [Option.some.inj hget]
  simpa using hne

theorem Tracks.stateOf : r.stateOf o = some s := by
  obtain ⟨t, hget, hstate⟩ := stateOf_of_indexOf h.indexOf
  rw [hstate, ← hget, h.get_states]

end

variable {r' : ReliableReader} {k : Nat} {n : Int}

theorem departed_ne_of_guids (hguids : r'.guids = r.guids)
    (hlength : r'.writerProxies.length = r.writerProxies.length)
    (h : ∀ t ∈ r.departed, t.proxy.remoteWriterGuid ≠ o) :
    ∀ t ∈ r'.departed, t.proxy.remoteWriterGuid ≠ o := by
  have hdrop : ∀ q : ReliableReader, q.guids.drop q.writerProxies.length =
      q.departed.map fun s => s.proxy.remoteWriterGuid := fun q => by
    rw [guids, states, List.map_append, List.drop_left' (by simp)]
  intro t ht heq
  have hmem : o ∈ r'.departed.map fun s => s.proxy.remoteWriterGuid :=
    List.mem_map.mpr ⟨t, ht, heq⟩
  rw [← hdrop, hguids, hlength, hdrop] at hmem
  obtain ⟨u, hu, huo⟩ := List.mem_map.mp hmem
  exact h u hu huo

section

variable (h : Tracks o ends r j s handed)
include h

theorem Tracks.modified
    (hstates : r'.states = r.states.modify k (recorded n)) (hsame : SameShape r r') (hk : k ≠ j) :
    Tracks o ends r' j s handed := by
  have hguids := guids_recorded hstates
  have hget : r'.states[j]? = some s := by
    rw [hstates, List.getElem?_modify, h.get_states]
    simp [hk]
  have hj : j < r.writerProxies.length := (List.getElem?_eq_some_iff.mp h.get).1
  exact { h with
    shape := shape_recorded hstates h.shape
    one := oneEach_of_guids hguids hsame.proxies h.one
    home := departed_ne_of_guids hguids hsame.proxies h.home
    get := by rw [← getElem?_states_lt (by rw [hsame.proxies]; exact hj), hget] }

theorem Tracks.recorded (hroom : s.committed.ranges.length < SnRanges.maxRanges)
    (hstates : r'.states = r.states.modify j (recorded n)) (hsame : SameShape r r') :
    Tracks o ends r' j (ReliableReader.recorded n s)
        (handed ++ if (s.committed.insert n).2 then [n] else []) ∧
      n ∈ handed ++ if (s.committed.insert n).2 then [n] else [] := by
  have hguids := guids_recorded hstates
  have hget : r'.states[j]? = some (ReliableReader.recorded n s) := by
    rw [hstates, List.getElem?_modify, h.get_states]
    simp
  have hj : j < r.writerProxies.length := (List.getElem?_eq_some_iff.mp h.get).1
  obtain ⟨hanswer, hfresh, hold⟩ := SnRanges.insert_spec h.apart n
  have hframe : ∀ handed' : List Int, (s.committed.insert n).1.Apart →
      (∀ m, m ∈ (s.committed.insert n).1 ↔ m ∈ handed') → handed'.Nodup →
      Tracks o ends r' j (ReliableReader.recorded n s) handed' := fun handed' hapart hrec hnd =>
    { shape := shape_recorded hstates h.shape
      one := oneEach_of_guids hguids hsame.proxies h.one
      home := departed_ne_of_guids hguids hsame.proxies h.home
      get := by rw [← getElem?_states_lt (by rw [hsame.proxies]; exact hj), hget]
      guid := h.guid
      own := h.own
      held := h.held
      apart := hapart
      record := hrec
      nodup := hnd }
  cases hnew : (s.committed.insert n).2 with
  | true =>
    have hins := hfresh hnew
    have hnot : n ∉ handed := fun hn => hanswer.mp hnew ((h.record n).mpr hn)
    refine ⟨hframe _ hins.apart (fun m => ?_) ?_, by simp⟩
    · rw [if_pos rfl, List.mem_append, List.mem_singleton, ← h.record]
      exact ⟨hins.sub m, hins.kept hroom m⟩
    · exact List.nodup_append'.mpr ⟨h.nodup, List.nodup_singleton n,
        List.disjoint_singleton.mpr hnot⟩
  | false =>
    have hin : n ∈ s.committed := by
      by_contra hn
      rw [hanswer.mpr hn] at hnew
      cases hnew
    simp only [Bool.false_eq_true, if_false, List.append_nil]
    refine ⟨hframe _ ?_ (fun m => ?_) h.nodup, (h.record n).mp hin⟩
    · rw [hold hnew]
      exact h.apart
    · rw [hold hnew]
      exact h.record m

theorem Tracks.same (hstates : r'.states = r.states)
    (hlength : r'.writerProxies.length = r.writerProxies.length) : Tracks o ends r' j s handed := by
  have hguids := guids_same hstates
  have hj : j < r.writerProxies.length := (List.getElem?_eq_some_iff.mp h.get).1
  exact { h with
    shape := hstates ▸ h.shape
    one := oneEach_of_guids hguids hlength h.one
    home := departed_ne_of_guids hguids hlength h.home
    get := by rw [← getElem?_states_lt (by omega), hstates, h.get_states] }

end

structure HoldsSame (s s' : WriterProxyState) : Prop where
  cache : s'.receivedCache = s.receivedCache
  delivered : s'.deliveredUpTo = s.deliveredUpTo

theorem Tracks.commitsFor {o' : Guid} {fresh : Bool} (h : Tracks o ends r j s handed)
    (hroom : s.committed.ranges.length < SnRanges.maxRanges) (hc : CommitsFor r o' n r' fresh) :
    ∃ s', Tracks o ends r' j s' (handed ++ if fresh = true ∧ o' = o then [n] else []) ∧
      HoldsSame s s' ∧
      (o' = o → n ∈ handed ++ (if fresh = true ∧ o' = o then [n] else []) ∨
        (s.receivedCache.get n).isSome = true) := by
  cases hc with
  | @waits k t hidx hget hwaits =>
    refine ⟨s, by simpa using h, ⟨rfl, rfl⟩, fun heq => .inr ?_⟩
    subst heq
    obtain rfl : j = k := Option.some.inj (h.indexOf.symm.trans hidx)
    obtain rfl : s = t := Option.some.inj (h.get_states.symm.trans hget)
    exact hwaits
  | @recorded k t _ hidx hget hnone hstates hsame =>
    by_cases heq : o' = o
    · subst heq
      obtain rfl : j = k := Option.some.inj (h.indexOf.symm.trans hidx)
      obtain rfl : s = t := Option.some.inj (h.get_states.symm.trans hget)
      obtain ⟨htracks, hin⟩ := h.recorded hroom hstates hsame
      exact ⟨ReliableReader.recorded n s,
        by simpa using htracks, ⟨rfl, rfl⟩, fun _ => .inl (by simpa using hin)⟩
    · have hk : k ≠ j := by
        rintro rfl
        obtain ⟨t', ht', hguid⟩ := indexOf_some hidx
        rw [h.get_states] at ht'
        obtain rfl := Option.some.inj ht'
        exact heq (hguid.symm.trans h.guid)
      exact ⟨s, by simpa [heq] using h.modified hstates hsame hk, ⟨rfl, rfl⟩,
        fun heq' => absurd heq' heq⟩
  | away hidx _ _ hstates hlength _ =>
    have heq : o' ≠ o := by
      rintro rfl
      rw [h.indexOf] at hidx
      cases hidx
    exact ⟨s, by simpa [heq] using h.same hstates hlength, ⟨rfl, rfl⟩, fun heq' => absurd heq' heq⟩

variable {x : DeliveredSample}

theorem Tracks.commitSample (h : Tracks o ends r j s handed)
    (hroom : s.committed.ranges.length < SnRanges.maxRanges)
    (hown : x.writerGuid = o → r.forwardedFor x = none) :
    ∃ s', Tracks o ends (r.commitSample x).1 j s'
        (handed ++ samplesOf o (r.commitSample x).2.toList) ∧
      HoldsSame s s' ∧
      (x.coherentSetEnd = true → (r.commitSample x).2 = some x) ∧
      (x.coherentSetEnd = false → x.writerGuid = o →
        x.sequenceNumber ∈ handed ++ samplesOf o (r.commitSample x).2.toList) ∧
      (x.coherentSetEnd = false → ∀ n, r.forwardedFor x = some (o, n) →
        n ∈ handed ++ samplesOf o (r.commitSample x).2.toList ∨
          (s.receivedCache.get n).isSome = true) := by
  have hcases := r.commitSample_cases x
  generalize r.commitSample x = res at hcases
  obtain ⟨r', kept⟩ := res
  simp only at hcases ⊢
  cases hcases with
  | setEnd hend =>
    refine ⟨s, ?_, ⟨rfl, rfl⟩, fun _ => rfl, ?_, ?_⟩
    · simpa [samplesOf, hend] using h
    · simp [hend]
    · simp [hend]
  | @own k t _ hend hfor hidx hget hstates hsame =>
    by_cases heq : x.writerGuid = o
    · rw [heq] at hidx
      obtain rfl : j = k := Option.some.inj (h.indexOf.symm.trans hidx)
      obtain rfl : s = t := Option.some.inj (h.get_states.symm.trans hget)
      obtain ⟨htracks, hin⟩ := h.recorded hroom hstates hsame
      have hsamples : samplesOf o (if (s.committed.insert x.sequenceNumber).2 then some x
          else none).toList =
          if (s.committed.insert x.sequenceNumber).2 then [x.sequenceNumber] else [] := by
        cases (s.committed.insert x.sequenceNumber).2 <;> simp [samplesOf, heq, hend]
      rw [hsamples]
      exact ⟨_, htracks, ⟨rfl, rfl⟩, by simp [hend], fun _ _ => hin, by simp [hfor]⟩
    · have hk : k ≠ j := by
        rintro rfl
        obtain ⟨t', ht', hguid⟩ := indexOf_some hidx
        rw [h.get_states] at ht'
        obtain rfl := Option.some.inj ht'
        exact heq (hguid.symm.trans h.guid)
      have hsamples : samplesOf o (if (t.committed.insert x.sequenceNumber).2 then some x
          else none).toList = [] := by
        cases (t.committed.insert x.sequenceNumber).2 <;> simp [samplesOf, heq]
      rw [hsamples, List.append_nil]
      exact ⟨s, h.modified hstates hsame hk, ⟨rfl, rfl⟩, by simp [hend],
        fun _ heq' => absurd heq' heq, by simp [hfor]⟩
  | orphan hend hfor hidx hstates hsame =>
    have heq : x.writerGuid ≠ o := by
      intro heq
      rw [heq, h.indexOf] at hidx
      cases hidx
    refine ⟨s, ?_, ⟨rfl, rfl⟩, fun _ => rfl, fun _ heq' => absurd heq' heq, by simp [hfor]⟩
    simpa [samplesOf, heq] using h.same hstates hsame.proxies
  | @forwarded o' n fresh r₁ _ hend hfor hc hstates hsame =>
    obtain ⟨s', htracks, honly, hin⟩ := h.commitsFor hroom hc
    have hsamples : samplesOf o (if fresh then some (handedFor x o' n) else none).toList =
        if fresh = true ∧ o' = o then [n] else [] := by
      cases fresh <;> by_cases heq : o' = o <;> simp [samplesOf, handedFor, hend, heq]
    rw [hsamples]
    refine ⟨s', htracks.same hstates hsame.proxies, honly, by simp [hend], fun _ heq => ?_,
      fun _ m hm => ?_⟩
    · rw [hown heq] at hfor
      cases hfor
    · rw [hfor] at hm
      obtain ⟨rfl, rfl⟩ := Prod.mk.inj (Option.some.inj hm)
      exact hin rfl

theorem forwardedFor_recorded (hstates : r'.states = r.states.modify k (recorded n))
    (x : DeliveredSample) : r'.forwardedFor x = r.forwardedFor x := by
  have hindex : r'.indexOf x.writerGuid = r.indexOf x.writerGuid := by
    have hguids : ∀ q : ReliableReader, q.indexOf x.writerGuid =
        q.guids.findIdx? fun g => g = x.writerGuid := fun q => by
      rw [indexOf, guids, List.findIdx?_map]
      rfl
    rw [hguids, hguids, guids_recorded hstates]
  have htrusted : ((r'.stateOf x.writerGuid).any fun s => s.forwarderTrusted) =
      (r.stateOf x.writerGuid).any fun s => s.forwarderTrusted := by
    rw [stateOf_eq, stateOf_eq, hindex]
    cases r.indexOf x.writerGuid with
    | none => rfl
    | some i =>
      simp only [Option.bind_some]
      rw [hstates, List.getElem?_modify]
      cases r.states[i]? with
      | none => rfl
      | some t => by_cases hk : k = i <;> simp [hk, recorded]
  unfold forwardedFor
  rw [htrusted]

theorem forwardedFor_same (hstates : r'.states = r.states) (x : DeliveredSample) :
    r'.forwardedFor x = r.forwardedFor x := by
  have hstate : r'.stateOf x.writerGuid = r.stateOf x.writerGuid := by
    rw [stateOf_eq, stateOf_eq, indexOf, indexOf, hstates]
  rw [forwardedFor, forwardedFor, hstate]

theorem forwardedFor_commitSample (r : ReliableReader) (x y : DeliveredSample) :
    (r.commitSample x).1.forwardedFor y = r.forwardedFor y := by
  have hcases := r.commitSample_cases x
  generalize r.commitSample x = res at hcases
  obtain ⟨r', kept⟩ := res
  simp only at hcases ⊢
  cases hcases with
  | setEnd => rfl
  | own _ _ _ _ hstates _ => exact forwardedFor_recorded hstates y
  | orphan _ _ _ hstates _ => exact forwardedFor_same hstates y
  | forwarded _ _ hc hstates _ =>
    rw [forwardedFor_same hstates y]
    cases hc with
    | waits => rfl
    | recorded _ _ _ hstates _ => exact forwardedFor_recorded hstates y
    | away _ _ _ hstates _ _ => exact forwardedFor_same hstates y

theorem Tracks.commitReleased {xs : List DeliveredSample} (h : Tracks o ends r j s handed)
    (hroom : RoomAlong o r xs) (hown : ∀ x ∈ xs, x.writerGuid = o → r.forwardedFor x = none) :
    ∃ s', Tracks o ends (r.commitReleased xs).1 j s'
        (handed ++ samplesOf o (r.commitReleased xs).2) ∧
      HoldsSame s s' ∧
      (∀ x ∈ xs, x.coherentSetEnd = true → x ∈ (r.commitReleased xs).2) ∧
      (∀ x ∈ xs, x.coherentSetEnd = false → x.writerGuid = o →
        x.sequenceNumber ∈ handed ++ samplesOf o (r.commitReleased xs).2) ∧
      (∀ x ∈ xs, x.coherentSetEnd = false → ∀ n, r.forwardedFor x = some (o, n) →
        n ∈ handed ++ samplesOf o (r.commitReleased xs).2 ∨
          (s.receivedCache.get n).isSome = true) := by
  induction xs generalizing r s handed with
  | nil => exact ⟨s, by simpa [ReliableReader.commitReleased, samplesOf] using h, ⟨rfl, rfl⟩,
      by simp, by simp, by simp⟩
  | cons x xs ih =>
    obtain ⟨s₁, htracks, hsame, hend, hsample, hcopy⟩ :=
      h.commitSample (hroom.1 s h.stateOf) (hown x List.mem_cons_self)
    obtain ⟨s', htracks', hsame', hends, hsamples, hcopies⟩ := ih htracks hroom.2 fun y hy hyo => by
      rw [forwardedFor_commitSample]
      exact hown y (List.mem_cons_of_mem _ hy) hyo
    have hout : (r.commitReleased (x :: xs)).2 =
        (r.commitSample x).2.toList ++ ((r.commitSample x).1.commitReleased xs).2 := rfl
    rw [hout, samplesOf_append, ← List.append_assoc]
    refine ⟨s', htracks', ⟨hsame'.cache.trans hsame.cache, hsame'.delivered.trans hsame.delivered⟩,
      fun y hy hyend => ?_, fun y hy hyend hyo => ?_, fun y hy hyend n hn => ?_⟩
    · rcases List.mem_cons.mp hy with rfl | hy
      · rw [hend hyend]
        exact List.mem_append_left _ (by simp)
      · exact List.mem_append_right _ (hends y hy hyend)
    · rcases List.mem_cons.mp hy with rfl | hy
      · exact List.mem_append_left _ (hsample hyend hyo)
      · exact hsamples y hy hyend hyo
    · rcases List.mem_cons.mp hy with rfl | hy
      · exact (hcopy hyend n hn).imp_left (List.mem_append_left _)
      · rw [← hsame.cache]
        exact hcopies y hy hyend n (by rwa [forwardedFor_commitSample])

/-- The change `n` of `o` is among what is released: as a sample, or as the end of a
set. -/
def Released (o : Guid) (ends : List Int) (n : Int) (xs : List DeliveredSample) : Prop :=
  ∃ x ∈ xs, x.writerGuid = o ∧ x.sequenceNumber = n ∧ (x.coherentSetEnd = true → n ∈ ends)

theorem released_of_handOut {hs : List HandOut} {y : HandOut} (hy : y ∈ hs)
    (hknown : Known o ends y.change) :
    Released o ends y.sn (hs.flatMap (HandOut.deliveries o)) := by
  have hmem : ∀ x ∈ y.deliveries o, x ∈ hs.flatMap (HandOut.deliveries o) :=
    fun x hx => List.mem_flatMap.mpr ⟨y, hy, hx⟩
  by_cases hend : y.change.coherentSetEnd = true
  · refine ⟨{ deliveredSampleOf o y.change with coherentSetComplete := y.ended }, hmem _ ?_, rfl,
      rfl, fun _ => hknown.2 hend⟩
    simp [HandOut.deliveries, hend]
  · refine ⟨deliveredSampleOf o y.change, hmem _ ?_, rfl, rfl, fun h => absurd h hend⟩
    simp only [HandOut.deliveries, hend, Bool.false_eq_true, if_false]
    split
    · simp
    · simp

theorem forwardedFor_own (h : ∀ w ∈ x.originalWriter, w.1 = x.writerGuid) :
    r.forwardedFor x = none := by
  unfold forwardedFor
  cases horiginal : x.originalWriter with
  | none => rfl
  | some w =>
    have hw := h w (by rw [horiginal]; rfl)
    simp [Option.filter, hw]

theorem originalWriter_of_mem {y : HandOut} (hown : OwnChange o y.change)
    (hx : x ∈ y.deliveries o) : ∀ w ∈ x.originalWriter, w.1 = o := by
  unfold HandOut.deliveries at hx
  split at hx
  · obtain rfl := List.mem_singleton.mp hx
    exact hown
  · split at hx
    · rcases List.mem_pair.mp hx with rfl | rfl
      · intro w hw
        cases hw
      · exact hown
    · obtain rfl := List.mem_singleton.mp hx
      exact hown

variable {op : ReaderOp}

theorem Tracks.released_at (h : Tracks o ends r j s handed) {r₁ : ReliableReader}
    {outs : List (List DeliveredSample)} (hr : Received r op r₁ outs) (hx : x ∈ outs.flatten)
    (hguid : x.writerGuid = o) : ∃ out, outs[j]? = some out ∧ x ∈ out := by
  obtain ⟨out, hout, hx⟩ := List.mem_flatten.mp hx
  obtain ⟨k, hk⟩ := List.getElem?_of_mem hout
  obtain ⟨hat, -⟩ := hr.direct hk hx
  rw [hguid, guids, List.getElem?_map] at hat
  obtain ⟨t, ht, hto⟩ := Option.map_eq_some_iff.mp hat
  suffices hkj : k = j by
    subst hkj
    exact ⟨out, hk, hx⟩
  by_contra hne
  rcases lt_or_ge k r.writerProxies.length with hlt | hge
  · rw [getElem?_states_lt hlt] at ht
    exact h.one.ne h.get ht hne (hto.trans h.guid.symm)
  · rw [getElem?_states_ge hge] at ht
    exact h.home t (List.mem_of_getElem? ht) hto

theorem mem_append_toList {a : Option Int} (h : a = some n) (l : List Int) : n ∈ l ++ a.toList := by
  simp [h]

section

variable (h : Tracks o ends r j s handed)
include h

theorem Tracks.receive (hbrought : op.Brought (OwnChange o) r.guid s) :
    ∃ s₁, Tracks o (ends ++ (r.endOfSetIn o (.call op)).toList) (r.receive op).1 j s₁ handed ∧
      (∀ x ∈ (r.receive op).2.flatten, x.writerGuid = o →
        (r.receive op).1.forwardedFor x = none ∧
          Released o (ends ++ (r.endOfSetIn o (.call op)).toList) x.sequenceNumber
            (r.receive op).2.flatten) ∧
      (∀ n, s.receivedCache.get n ≠ none → r.displacedIn o (.call op) ≠ some n →
        s₁.receivedCache.get n ≠ none ∨
          Released o (ends ++ (r.endOfSetIn o (.call op)).toList) n
            (r.receive op).2.flatten) := by
  have hr := receive_received h.shape h.one op
  have hj : j < r.writerProxies.length := (List.getElem?_eq_some_iff.mp h.get).1
  obtain ⟨i, hs, out, s₁, hget, hout, hmoves, hadmits, -⟩ := hr.moves j s h.get_states
  have hadmits := hadmits hj
  generalize hends : ends ++ (r.endOfSetIn o (.call op)).toList = ends'
  have hin : ∀ c, i.change? = some c → Known o ends' c := by
    intro c hc
    have harrival := hadmits.change hc
    refine ⟨hbrought.of_change harrival, fun hend => hends ▸ mem_append_toList ?_ _⟩
    simp [endOfSetIn, broughtBy, h.stateOf, harrival, hend, Option.filter]
  have hknown := hmoves.call.allChanges hin fun n c hc =>
    ⟨(h.own n c hc).1, fun hend => hends ▸ List.mem_append_left _ ((h.own n c hc).2 hend)⟩
  have hordered := hmoves.call.ordered h.held
  have hdeliveries : out = hs.flatMap (HandOut.deliveries o) := h.guid ▸ hmoves.deliveries
  have hreleased : ∀ y ∈ hs, Released o ends' y.sn (r.receive op).2.flatten := by
    intro y hy
    obtain ⟨x, hx, hxo, hxn, hxend⟩ := released_of_handOut hy (hknown.1 y hy)
    exact ⟨x, List.mem_flatten.mpr ⟨out, List.mem_of_getElem? hout, hdeliveries ▸ hx⟩, hxo, hxn,
      hxend⟩
  refine ⟨s₁, ?_, fun x hx hxo => ?_, fun n hn hdisp => ?_⟩
  · exact
      { shape := hr.shape
        one := oneEach_of_guids hr.guids hr.proxies h.one
        home := departed_ne_of_guids hr.guids hr.proxies h.home
        get := by rw [← getElem?_states_lt (by rw [hr.proxies]; exact hj), hget]
        guid := hmoves.same.guid.trans h.guid
        own := hknown.2
        held := hordered.held
        apart := by rw [hmoves.same.committed]; exact h.apart
        record := by rw [hmoves.same.committed]; exact h.record
        nodup := h.nodup }
  · obtain ⟨out', hout', hx⟩ := h.released_at hr hx hxo
    obtain rfl : out = out' := Option.some.inj (hout.symm.trans hout')
    rw [hdeliveries] at hx
    obtain ⟨y, hy, hxy⟩ := List.mem_flatMap.mp hx
    refine ⟨forwardedFor_own ?_, ?_⟩
    · rw [hxo]
      exact originalWriter_of_mem (hknown.1 y hy).1 hxy
    · rw [HandOut.sequenceNumber_of_mem hxy]
      exact hreleased y hy
  · refine (hmoves.call.held_or_out h.held hn ?_).imp_right ?_
    · rintro c kept rfl
      have harrival := hadmits.change rfl
      refine hdisp ?_
      simp [displacedIn, broughtBy, h.stateOf, harrival, ← hadmits.displaced]
    · rintro ⟨y, hy, rfl⟩
      exact hreleased y hy

theorem Tracks.rearranged {s' : WriterProxyState}
    (hshape : ∀ t ∈ r'.states, t.Shape) (hone : r'.OneEach)
    (hhome : ∀ t ∈ r'.departed, t.proxy.remoteWriterGuid ≠ o)
    (hget : r'.writerProxies[k]? = some s') (hsame : WriterProxyState.SameWriter s s')
    (hholds : HoldsSame s s') : Tracks o ends r' k s' handed where
  shape := hshape
  one := hone
  home := hhome
  get := hget
  guid := hsame.guid.trans h.guid
  own := hholds.cache ▸ h.own
  held := by rw [hholds.cache, hholds.delivered]; exact h.held
  apart := hsame.committed ▸ h.apart
  record := hsame.committed ▸ h.record
  nodup := h.nodup

theorem Tracks.finish (op : ReaderOp) :
    Tracks o ends (r.finish op) j s handed := by
  obtain ⟨hshape, hone⟩ := WellMatched.finish ⟨h.shape, h.one⟩ op
  cases op with
  | releaseHeld =>
    obtain ⟨hproxies, hdeparted, -⟩ := r.drainDeparted_frame
    refine h.rearranged hshape hone (fun t ht => ?_) ?_ (.refl s) ⟨rfl, rfl⟩
    · rw [ReliableReader.finish, hdeparted] at ht
      exact h.home t (List.mem_of_mem_filter ht)
    · rw [ReliableReader.finish, hproxies, h.get]
  | _ => exact h

end

/-- The number was handed out as a sample of `o`, or the end of a set it stands for
was. -/
def Out (handed ends setEnds : List Int) (n : Int) : Prop :=
  n ∈ handed ∨ (n ∈ ends ∧ n ∈ setEnds)

theorem mem_setEndsOf {out : List DeliveredSample} (hx : x ∈ out) (hguid : x.writerGuid = o)
    (hend : x.coherentSetEnd = true) : x.sequenceNumber ∈ setEndsOf o out :=
  List.mem_map.mpr ⟨x, List.mem_filter.mpr ⟨hx, by simp [hguid, hend]⟩, rfl⟩

theorem mem_keys_iff {c : HistoryCache} : n ∈ c.changes.keys ↔ c.get n ≠ none := by
  rw [SortedMap.mem_keys, HistoryCache.get, Option.ne_none_iff_exists']

theorem Tracks.call (h : Tracks o ends r j s handed)
    (hbrought : op.Brought (OwnChange o) r.guid s)
    (hroom : RoomAlong o (r.receive op).1 (r.receive op).2.flatten) :
    ∃ s', Tracks o (ends ++ (r.endOfSetIn o (.call op)).toList) (r.step op).1 j s'
        (handed ++ samplesOf o (r.step op).2.delivered) ∧
      ∀ n, (n ∈ r.receivedIn o (.call op) ++ r.copiesIn o (.call op) ∨
          (s.receivedCache.get n ≠ none ∧ r.displacedIn o (.call op) ≠ some n)) →
        Out (handed ++ samplesOf o (r.step op).2.delivered)
            (ends ++ (r.endOfSetIn o (.call op)).toList)
            (setEndsOf o (r.step op).2.delivered) n ∨ s'.receivedCache.get n ≠ none := by
  obtain ⟨hstep, hdelivered⟩ := r.step_eq_receive op
  obtain ⟨s₁, hreceive, hfrom, hstays⟩ := h.receive hbrought
  obtain ⟨s', htracks, hholds, hends, hsamples, hcopies⟩ :=
    hreceive.commitReleased hroom fun x hx hxo => (hfrom x hx hxo).1
  rw [hstep, hdelivered]
  generalize ends ++ (r.endOfSetIn o (.call op)).toList = ends' at *
  have hout : ∀ n, Released o ends' n (r.receive op).2.flatten →
      Out (handed ++ samplesOf o
          ((r.receive op).1.commitReleased (r.receive op).2.flatten).2) ends'
        (setEndsOf o ((r.receive op).1.commitReleased (r.receive op).2.flatten).2) n := by
    rintro n ⟨x, hx, hxo, rfl, hxend⟩
    cases hend : x.coherentSetEnd with
    | true => exact .inr ⟨hxend hend, mem_setEndsOf (hends x hx hend) hxo hend⟩
    | false => exact .inl (hsamples x hx hend hxo)
  refine ⟨s', htracks.finish op, fun n hn => ?_⟩
  rw [hholds.cache]
  rcases hn with hn | ⟨hheld, hdisp⟩
  · rcases List.mem_append.mp hn with hn | hn
    · rcases List.mem_append.mp hn with hn | hn
      · rw [hreceive.stateOf] at hn
        exact .inr (mem_keys_iff.mp hn)
      · obtain ⟨x, hx, rfl⟩ := List.mem_map.mp hn
        obtain ⟨hx, hxo⟩ := List.mem_filter.mp hx
        exact .inl (hout _ (hfrom x hx (by simpa using hxo)).2)
    · obtain ⟨⟨o', m⟩, he, hm⟩ := List.mem_filterMap.mp hn
      obtain ⟨x, hx, hfor⟩ := List.mem_filterMap.mp he
      obtain ⟨hx, hend⟩ := List.mem_filter.mp hx
      by_cases heq : o' = o
      · subst heq
        obtain rfl : m = n := by simpa using hm
        refine (hcopies x hx (by simpa using hend) m hfor).imp .inl fun hsome => ?_
        exact Option.isSome_iff_ne_none.mp hsome
      · simp [heq] at hm
  · exact (hstays n hheld hdisp).symm.imp (hout n) id

/-! ### Other writers come and go -/

theorem Tracks.addWriterProxy (h : Tracks o ends r j s handed) (p : AbsorbedProxy) :
    ∃ s', Tracks o ends (r.addWriterProxy p.1) j s' handed ∧ HoldsSame s s' := by
  obtain ⟨hshape, hone⟩ := WellMatched.addWriterProxy ⟨h.shape, h.one⟩ p
  cases hidx : r.proxyIndexByWriter p.1.remoteWriterGuid with
  | some idx =>
    have hget : ∃ s', (r.addWriterProxy p.1).writerProxies[j]? = some s' ∧
        WriterProxyState.SameWriter s s' ∧ HoldsSame s s' := by
      simp only [ReliableReader.addWriterProxy, hidx, List.getElem?_modify, h.get]
      by_cases hk : idx = j
      · exact ⟨{ s with
            proxy := s.proxy.refreshLocators p.1.unicastLocators p.1.multicastLocators },
          by simp [hk], ⟨rfl, rfl⟩, ⟨rfl, rfl⟩⟩
      · exact ⟨s, by simp [hk], .refl s, ⟨rfl, rfl⟩⟩
    have hdeparted : (r.addWriterProxy p.1).departed = r.departed := by
      simp [ReliableReader.addWriterProxy, hidx]
    obtain ⟨s', hget, hsame, hholds⟩ := hget
    exact ⟨s', h.rearranged hshape hone (hdeparted ▸ h.home) hget hsame hholds, hholds⟩
  | none =>
    have hproxies : (r.addWriterProxy p.1).writerProxies = r.writerProxies ++ [r.newState p.1] := by
      simp [ReliableReader.addWriterProxy, hidx]
    have hdeparted : (r.addWriterProxy p.1).departed = r.departed := by
      simp [ReliableReader.addWriterProxy, hidx]
    refine ⟨s, h.rearranged hshape hone (hdeparted ▸ h.home) ?_ (.refl s) ⟨rfl, rfl⟩, ⟨rfl, rfl⟩⟩
    rw [hproxies, List.getElem?_append_left (List.getElem?_eq_some_iff.mp h.get).1, h.get]

variable {g : Guid}

section

variable (h : Tracks o ends r j s handed)
include h

theorem Tracks.erased (hg : g ≠ o) {idx : Nat}
    (hidx : r.proxyIndexByWriter g = some idx) {moved : List WriterProxyState}
    (hproxies : r'.writerProxies = r.writerProxies.eraseIdx idx)
    (hdeparted : r'.departed = r.departed ++ moved)
    (hmoved : ∀ t ∈ moved, t.Shape ∧ t.proxy.remoteWriterGuid ≠ o) :
    ∃ k, Tracks o ends r' k s handed := by
  obtain ⟨t, ht, htg⟩ := proxyIndexByWriter_some hidx
  have hne : idx ≠ j := by
    rintro rfl
    rw [h.get] at ht
    obtain rfl := Option.some.inj ht
    exact hg (htg.symm.trans h.guid)
  obtain ⟨k, hk⟩ : ∃ k, (r.writerProxies.eraseIdx idx)[k]? = some s := by
    refine List.getElem?_of_mem (List.mem_eraseIdx_iff_getElem?.mpr ⟨j, Ne.symm hne, h.get⟩)
  obtain ⟨hshape, hone⟩ := WellMatched.erased ⟨h.shape, h.one⟩ hproxies hdeparted
    fun u hu => (hmoved u hu).1
  refine ⟨k, h.rearranged hshape hone (fun u hu => ?_) (by rw [hproxies, hk]) (.refl s)
    ⟨rfl, rfl⟩⟩
  rw [hdeparted] at hu
  rcases List.mem_append.mp hu with hu | hu
  · exact h.home u hu
  · exact (hmoved u hu).2

theorem Tracks.removeWriterProxy (hg : g ≠ o) :
    ∃ k, Tracks o ends (r.removeWriterProxy g) k s handed := by
  unfold ReliableReader.removeWriterProxy
  cases hidx : r.proxyIndexByWriter g with
  | none => exact ⟨j, h⟩
  | some idx => exact h.erased hg hidx rfl (List.append_nil _).symm (by simp)

theorem Tracks.departWriterProxy (hg : g ≠ o) :
    ∃ k, Tracks o ends (r.departWriterProxy g) k s handed := by
  unfold ReliableReader.departWriterProxy
  cases hidx : r.proxyIndexByWriter g with
  | none => exact ⟨j, h⟩
  | some idx =>
    obtain ⟨t, ht, htg⟩ := proxyIndexByWriter_some hidx
    have hshape := h.shape t (List.mem_append_left _ (List.mem_of_getElem? ht))
    simp only [ht]
    cases t.receivedCache.maxSn with
    | none => exact h.erased hg hidx rfl (List.append_nil _).symm (by simp)
    | some highest =>
      obtain ⟨hshape', hsame⟩ := giveUpMissing_spec hshape highest
      refine h.erased hg hidx rfl rfl fun u hu => ?_
      obtain rfl := List.mem_singleton.mp hu
      exact ⟨hshape', by rw [hsame.guid, htg]; exact hg⟩

end

theorem handedOut_snoc (h : History MatchOp MatchOutput) (op : MatchOp) (out : MatchOutput) :
    handedOut o (h ++ [(op, out)]) = handedOut o h ++ out.samples o := by
  simp [handedOut]

theorem setEnds_snoc (h : History MatchOp MatchOutput) (op : MatchOp) (out : MatchOutput) :
    setEnds o (h ++ [(op, out)]) = setEnds o h ++ setEndsOf o out.delivered := by
  simp [setEnds]

/-- The record is true to the run, and everything seen and not displaced is handed
out or held. -/
structure Logged (o : Guid) (h : History MatchOp MatchOutput) (l : Log) (j : Nat)
    (s : WriterProxyState) : Prop where
  tracks : Tracks o l.endsOfSets l.reader j s (handedOut o h)
  out : ∀ n ∈ l.seen, n ∉ l.displaced →
    Out (handedOut o h) l.endsOfSets (setEnds o h) n ∨ s.receivedCache.get n ≠ none

theorem Out.mono {handed' ends' setEnds setEnds' : List Int} (h : Out handed ends setEnds n)
    (hhanded : handed ⊆ handed') (hends : ends ⊆ ends') (hsetEnds : setEnds ⊆ setEnds') :
    Out handed' ends' setEnds' n :=
  h.imp (fun hn => hhanded hn) fun hn => ⟨hends hn.1, hsetEnds hn.2⟩

variable {h : History MatchOp MatchOutput} {l : Log}

section

variable (hlog : Logged o h l j s)
include hlog

theorem Logged.quiet {op : MatchOp} (hout : (l.reader.matchStep op).2 = ⟨[], none⟩)
    (hcame : l.reader.cameIn o op = [])
    (hbrought : l.reader.broughtBy o op = none) {s' : WriterProxyState}
    (htracks : Tracks o l.endsOfSets (l.reader.matchStep op).1 k s' (handedOut o h))
    (hholds : HoldsSame s s') :
    Logged o (h ++ [(op, (logStep o l op).2)]) (logStep o l op).1 k s' := by
  have hsteps : (logStep o l op).1 = { l with reader := (l.reader.matchStep op).1 } := by
    simp [logStep, hcame, endOfSetIn, displacedIn, hbrought]
  have hhanded : handedOut o (h ++ [(op, (logStep o l op).2)]) = handedOut o h := by
    rw [handedOut_snoc]
    simp [logStep, hout, MatchOutput.samples, samplesOf]
  have hsetEnds : setEnds o (h ++ [(op, (logStep o l op).2)]) = setEnds o h := by
    rw [setEnds_snoc]
    simp [logStep, hout, setEndsOf]
  rw [hsteps]
  refine ⟨by rw [hhanded]; exact htracks, fun n hn hdisp => ?_⟩
  rw [hhanded, hsetEnds, hholds.cache]
  exact hlog.out n hn hdisp

theorem Logged.call (hok : Original o l (.call op)) :
    ∃ s', Logged o (h ++ [(.call op, (logStep o l (.call op)).2)])
    (logStep o l (.call op)).1 j s' := by
  obtain ⟨hbrought, hroom⟩ := hok
  obtain ⟨s', htracks, hout⟩ :=
    hlog.tracks.call (hbrought s hlog.tracks.stateOf) hroom
  have hsamples : handedOut o (h ++ [(.call op, (logStep o l (.call op)).2)]) =
      handedOut o h ++ samplesOf o (l.reader.step op).2.delivered := by
    rw [handedOut_snoc]
    simp [logStep, matchStep, MatchOutput.samples]
  refine ⟨s', by rw [hsamples]; exact htracks, fun n hn hdisp => ?_⟩
  rw [hsamples, setEnds_snoc]
  have hdisp' : (n ∈ l.displaced → n ∈ l.reader.cameIn o (.call op)) ∧
      l.reader.displacedIn o (.call op) ≠ some n := by
    simpa [logStep, not_or] using hdisp
  have hlift : Out (handedOut o h ++ samplesOf o (l.reader.step op).2.delivered)
        (l.endsOfSets ++ (l.reader.endOfSetIn o (.call op)).toList)
        (setEndsOf o (l.reader.step op).2.delivered) n ∨ s'.receivedCache.get n ≠ none →
      Out (handedOut o h ++ samplesOf o (l.reader.step op).2.delivered)
        (l.endsOfSets ++ (l.reader.endOfSetIn o (.call op)).toList)
        (setEnds o h ++ setEndsOf o (l.reader.step op).2.delivered) n ∨
        s'.receivedCache.get n ≠ none := fun hcase =>
    hcase.imp_left fun hnow => hnow.mono (List.Subset.refl _) (List.Subset.refl _)
      (List.subset_append_right _ _)
  by_cases hcame : n ∈ l.reader.cameIn o (.call op)
  · exact hlift (hout n (.inl hcame))
  · have hseen := (List.mem_append.mp hn).resolve_right hcame
    rcases hlog.out n hseen (mt hdisp'.1 hcame) with hbefore | hheld
    · exact .inl (hbefore.mono (List.subset_append_left _ _) (List.subset_append_left _ _)
        (List.subset_append_left _ _))
    · exact hlift (hout n (.inr ⟨hheld, hdisp'.2⟩))

theorem Logged.acceptForwarded {o' : Guid} {m : Int} (hok : Original o l (.acceptForwarded o' m)) :
    ∃ s', Logged o (h ++ [(.acceptForwarded o' m, (logStep o l (.acceptForwarded o' m)).2)])
      (logStep o l (.acceptForwarded o' m)).1 j s' := by
  obtain ⟨s', htracks, hholds, hin⟩ := hlog.tracks.commitsFor (hok s hlog.tracks.stateOf)
    (l.reader.commitForwarded_cases o' m)
  have hreader : Tracks o l.endsOfSets (l.reader.acceptForwarded o' m).1 j s'
      (handedOut o h ++ if (l.reader.commitForwarded o' m).2 = true ∧ o' = o then [m] else []) := by
    unfold ReliableReader.acceptForwarded
    rcases hres : l.reader.commitForwarded o' m with ⟨r', fresh⟩
    rw [hres] at htracks
    cases fresh with
    | true => exact htracks
    | false => exact htracks.same rfl rfl
  have hanswer : (l.reader.acceptForwarded o' m).2 = (l.reader.commitForwarded o' m).2 := by
    unfold ReliableReader.acceptForwarded
    rcases l.reader.commitForwarded o' m with ⟨r', _ | _⟩ <;> rfl
  have hsamples : handedOut o (h ++ [(.acceptForwarded o' m,
        (logStep o l (.acceptForwarded o' m)).2)]) =
      handedOut o h ++ if (l.reader.commitForwarded o' m).2 = true ∧ o' = o then [m] else [] := by
    rw [handedOut_snoc]
    congr 1
    simp only [logStep, matchStep, MatchOutput.samples, hanswer]
    generalize (l.reader.commitForwarded o' m).2 = fresh
    cases fresh <;> by_cases heq : o' = o <;> simp [heq, samplesOf]
  have hsetEnds : setEnds o (h ++ [(.acceptForwarded o' m,
      (logStep o l (.acceptForwarded o' m)).2)]) = setEnds o h := by
    rw [setEnds_snoc]
    simp [logStep, matchStep, setEndsOf]
  have hstep : (logStep o l (.acceptForwarded o' m)).1 =
      { l with
        reader := (l.reader.acceptForwarded o' m).1
        seen := l.seen ++ if o' = o then [m] else []
        displaced := l.displaced.filter (· ∉ if o' = o then [m] else []) } := by
    simp [logStep, matchStep, cameIn, receivedIn, copiesIn, endOfSetIn, displacedIn, broughtBy]
  rw [hstep]
  refine ⟨s', by rw [hsamples]; exact hreader, fun n hn hdisp => ?_⟩
  rw [hsamples, hsetEnds, hholds.cache]
  by_cases hcame : o' = o ∧ n = m
  · obtain ⟨heq, rfl⟩ := hcame
    exact (hin heq).imp .inl Option.isSome_iff_ne_none.mp
  · have hnot : n ∉ if o' = o then [m] else [] := by
      split
      · next heq => simpa using fun hnm => hcame ⟨heq, hnm⟩
      · simp
    have hdisp : n ∉ l.displaced := fun hd =>
      hdisp (List.mem_filter.mpr ⟨hd, decide_eq_true hnot⟩)
    exact (hlog.out n ((List.mem_append.mp hn).resolve_right hnot) hdisp).imp_left fun hbefore =>
      hbefore.mono (List.subset_append_left _ _) (List.Subset.refl _) (List.Subset.refl _)

theorem Logged.logStep {op : MatchOp} (hok : Original o l op) :
    ∃ k s', Logged o (h ++ [(op, (logStep o l op).2)]) (logStep o l op).1 k s' := by
  cases op with
  | call op =>
    obtain ⟨s', hlog'⟩ := hlog.call hok
    exact ⟨j, s', hlog'⟩
  | addWriterProxy p =>
    obtain ⟨s', htracks, hholds⟩ := hlog.tracks.addWriterProxy p
    exact ⟨j, s', hlog.quiet rfl rfl rfl htracks hholds⟩
  | removeWriterProxy g =>
    obtain ⟨k, htracks⟩ := hlog.tracks.removeWriterProxy hok
    exact ⟨k, s, hlog.quiet rfl rfl rfl htracks ⟨rfl, rfl⟩⟩
  | departWriterProxy g =>
    obtain ⟨k, htracks⟩ := hlog.tracks.departWriterProxy hok
    exact ⟨k, s, hlog.quiet rfl rfl rfl htracks ⟨rfl, rfl⟩⟩
  | acceptForwarded o' m =>
    obtain ⟨s', hlog'⟩ := hlog.acceptForwarded hok
    exact ⟨j, s', hlog'⟩

end

structure OriginalMatched (o : Guid) (r : ReliableReader) (s : WriterProxyState) : Prop where
  shape : ∀ t ∈ r.states, t.Shape
  one : r.OneEach
  home : ∀ t ∈ r.departed, t.proxy.remoteWriterGuid ≠ o
  mem : s ∈ r.writerProxies
  guid : s.proxy.remoteWriterGuid = o
  cache : ∀ n, s.receivedCache.get n = none
  committed : s.committed = SnRanges.empty

theorem OriginalMatched.logged (h : OriginalMatched o r s) :
    ∃ j, Logged o [] ⟨r, [], [], []⟩ j s := by
  obtain ⟨j, hj⟩ := List.getElem?_of_mem h.mem
  exact ⟨j,
    { tracks :=
        { shape := h.shape
          one := h.one
          home := h.home
          get := hj
          guid := h.guid
          own := fun n c hc => by simp [h.cache n] at hc
          held := fun n hn => absurd (h.cache n) hn
          apart := h.committed ▸ SnRanges.apart_empty
          record := fun n => by simp [h.committed, handedOut]
          nodup := List.nodup_nil }
      out := fun n hn => by cases hn }⟩

section Forwarding

open ReaderFixture

def secondWriterGuid : Guid :=
  ⟨GuidPrefix.repeated 3, EntityId.userWriterWithKey 0x40 0x50 0x60⟩

def forwarded (n originalSn : Int) (byte : UInt8) : DataSubmessage :=
  { data n byte with
    readerId := EntityId.unknown
    writerId := secondWriterGuid.entityId
    inlineQos := some (ParameterList.new.push
      (InlineQos.originalWriterInfoParam singleWriterGuid.toBytes originalSn true)) }

theorem makeReader_originalMatched (maxSamples : Nat) :
    OriginalMatched singleWriterGuid (makeReader maxSamples) (writerState maxSamples) where
  shape := by
    intro t ht
    obtain rfl : t = writerState maxSamples := by
      simpa [makeReader, states, ReliableReader.new, writerState] using ht
    exact (makeReader_justMatched maxSamples).follows.shape
  one := List.nodup_singleton _
  home := fun t ht => by cases ht
  mem := List.mem_cons_self
  guid := rfl
  cache := fun _ => rfl
  committed := rfl

/-- The third change waits in the receive cache when a copy of it is forwarded; then
the second one arrives, and the writer moves on to the fourth. -/
def copyOfWaiting : List MatchOp :=
  [.addWriterProxy ⟨.new secondWriterGuid [] [] true, WriterProxy.new_absorbed _ _ _ _⟩,
    .call (dataOp (data 3 0xCC)),
    .call (.data secondWriterGuid.guidPrefix (forwarded 1 3 0xCC) none none),
    .call (dataOp (data 2 0xBB)), .call (heartbeatOp 4 4 1)]

end Forwarding
end ReliableReader
end ZeroDds.Rtps
