/-
Appending changes to datagrams.
-/
import ZeroDds.Rtps.ProxyTurn

namespace ZeroDds.Rtps

open MessageBuilder

namespace MessageBuilder

variable (b : MessageBuilder) (s : Submessage)

@[simp] theorem header_push : (b.push s).header = b.header := rfl

@[simp] theorem targets_push : (b.push s).targets = b.targets := rfl

@[simp] theorem submessages_push : (b.push s).submessages = b.submessages ++ [s] := rfl

theorem tryAdd_getD :
    (b.tryAddSubmessage s).toOption.getD b = if b.Accepts s then b.push s else b := by
  split
  · next h => rw [tryAddSubmessage_of_accepts h]; rfl
  · next h =>
    obtain ⟨e, he⟩ := tryAddSubmessage_of_not_accepts h
    rw [he]
    rfl

theorem finish_of_content {b : MessageBuilder} {s : Submessage} (hs : s ∈ b.submessages)
    (hcontent : s.isFramingOnly = false) :
    b.finish = some ⟨b.header, b.submessages, b.targets⟩ := by
  have : b.hasContent = true := List.any_eq_true.mpr ⟨s, hs, by simp [hcontent]⟩
  simp [finish, this]

theorem finish_eq_some {b : MessageBuilder} {d : OutboundDatagram} (h : b.finish = some d) :
    d = ⟨b.header, b.submessages, b.targets⟩ := by
  unfold finish at h
  split at h
  · exact (Option.some.inj h).symm
  · cases h

end MessageBuilder

namespace Assembly

theorem mem_finish {a : Assembly} {peer : Guid} {x : AddressedDatagram} :
    x ∈ a.finish peer ↔ x ∈ a.out ∨ ∃ d, a.builder.finish = some d ∧ x = ⟨peer, d⟩ := by
  simp only [finish, List.mem_append, Option.mem_toList, Option.map_eq_some_iff]
  exact or_congr_right ⟨fun ⟨d, h, h'⟩ => ⟨d, h, h'.symm⟩, fun ⟨d, h, h'⟩ => ⟨d, h, h'.symm⟩⟩

def after (pre : List AddressedDatagram) (a : Assembly) : Assembly :=
  { a with out := pre ++ a.out }

@[simp] theorem builder_after (pre : List AddressedDatagram) (a : Assembly) :
    (a.after pre).builder = a.builder := rfl

end Assembly

namespace SendView

variable {v : SendView} {peer : Guid} {targets : List Locator}

/-! ### Fresh and open datagrams -/

theorem openBuilderFor_cases (v : SendView) (peer : Guid) (targets : List Locator) :
    let b := MessageBuilder.openWith v.rtpsHeader targets (v.messageSizeFor peer)
    v.openBuilderFor peer targets = b ∨
      v.openBuilderFor peer targets = b.push (.infoDst peer.guidPrefix) := by
  intro b
  unfold openBuilderFor
  split
  · rw [tryAdd_getD]
    split
    · exact .inr rfl
    · exact .inl rfl
  · exact .inl rfl

@[simp] theorem openBuilderFor_mtu (v : SendView) (peer : Guid) (targets : List Locator) :
    (v.openBuilderFor peer targets).mtu = v.messageSizeFor peer := by
  rcases v.openBuilderFor_cases peer targets with h | h <;> rw [h] <;> rfl

theorem openBuilderFor_len (v : SendView) (peer : Guid) (targets : List Locator) :
    (v.openBuilderFor peer targets).len = 20 ∨ (v.openBuilderFor peer targets).len = 36 := by
  rcases v.openBuilderFor_cases peer targets with h | h <;> rw [h]
  · exact .inl rfl
  · exact .inr rfl

structure Opened (v : SendView) (peer : Guid) (targets : List Locator) (b : MessageBuilder) :
    Prop where
  mtu : b.mtu = v.messageSizeFor peer
  len : (v.openBuilderFor peer targets).len ≤ b.len

theorem opened_openBuilderFor : v.Opened peer targets (v.openBuilderFor peer targets) :=
  ⟨openBuilderFor_mtu v peer targets, le_refl _⟩

variable {b : MessageBuilder} {s : Submessage} {a a' : Assembly} {hint : String}

theorem Opened.push (h : v.Opened peer targets b) (s : Submessage) :
    v.Opened peer targets (b.push s) :=
  ⟨h.mtu, by rw [len_push]; have := h.len; omega⟩

theorem Opened.accepts_fresh (h : v.Opened peer targets b) (hs : b.Accepts s) :
    (v.openBuilderFor peer targets).Accepts s := by
  obtain ⟨-, hbody, hfits⟩ := hs
  have hlen := h.len
  have hmtu := h.mtu
  refine ⟨?_, hbody, ?_⟩
  · rcases v.openBuilderFor_len peer targets with h | h <;> rw [h]
  · rw [openBuilderFor_mtu]
    omega

theorem appendInfoTs_cases (v : SendView) (b : MessageBuilder) (sn : Int) :
    v.appendInfoTs b sn = b ∨
      ∃ ts, (v.cache.get sn).bind (·.sourceTimestamp) = some ts ∧ b.Accepts (.infoTs ts) ∧
        v.appendInfoTs b sn = b.push (.infoTs ts) := by
  unfold appendInfoTs
  split
  · exact .inl rfl
  · next ts hts =>
    rw [tryAdd_getD]
    split
    · next h => exact .inr ⟨ts, hts, h, rfl⟩
    · exact .inl rfl

theorem Opened.appendInfoTs (h : v.Opened peer targets b) (sn : Int) :
    v.Opened peer targets (v.appendInfoTs b sn) := by
  rcases v.appendInfoTs_cases b sn with heq | ⟨ts, -, -, heq⟩ <;> rw [heq]
  · exact h
  · exact h.push _

theorem appendSubmessage_of_accepts (hint : String) (h : a.builder.Accepts s) :
    v.appendSubmessage a s peer targets hint = .ok { a with builder := a.builder.push s } := by
  simp [appendSubmessage, tryAddSubmessage_of_accepts h]

theorem appendSubmessage_of_flush (hint : String) (h : ¬a.builder.Accepts s)
    (hfresh : (v.openBuilderFor peer targets).Accepts s) :
    v.appendSubmessage a s peer targets hint =
      .ok ⟨(v.openBuilderFor peer targets).push s, a.finish peer⟩ := by
  obtain ⟨e, he⟩ := tryAddSubmessage_of_not_accepts h
  have hbody : e ≠ .bodyTooLarge := by
    rintro rfl
    have := hfresh.2.1
    unfold MessageBuilder.tryAddSubmessage at he
    split at he
    · cases he
    · split at he
      · omega
      · split at he <;> cases he
  have hadd := tryAddSubmessage_of_accepts hfresh
  cases e with
  | bodyTooLarge => exact absurd rfl hbody
  | wouldExceedMtu needed remaining => simp [appendSubmessage, he, Assembly.flush, hadd]
  | unaligned => simp [appendSubmessage, he, Assembly.flush, hadd]

theorem appendSubmessage_of_refused (hint : String) (h : ¬a.builder.Accepts s)
    (hfresh : ¬(v.openBuilderFor peer targets).Accepts s) :
    ∃ e, v.appendSubmessage a s peer targets hint = .error e := by
  obtain ⟨e, he⟩ := tryAddSubmessage_of_not_accepts h
  obtain ⟨e', he'⟩ := tryAddSubmessage_of_not_accepts hfresh
  cases e <;> simp [appendSubmessage, he, Assembly.flush, he']

theorem appendSubmessage_ok_iff (hint : String) (ha : v.Opened peer targets a.builder) :
    (∃ a', v.appendSubmessage a s peer targets hint = .ok a') ↔
      (v.openBuilderFor peer targets).Accepts s := by
  constructor
  · rintro ⟨a', h⟩
    by_contra hfresh
    obtain ⟨e, he⟩ := appendSubmessage_of_refused hint
      (fun hopen => hfresh (ha.accepts_fresh hopen)) hfresh
    simp [he] at h
  · intro hfresh
    by_cases hopen : a.builder.Accepts s
    · exact ⟨_, appendSubmessage_of_accepts hint hopen⟩
    · exact ⟨_, appendSubmessage_of_flush hint hopen hfresh⟩

theorem appendSubmessage_cases (h : v.appendSubmessage a s peer targets hint = .ok a') :
    (a.builder.Accepts s ∧ a' = { a with builder := a.builder.push s }) ∨
      (¬a.builder.Accepts s ∧
        a' = ⟨(v.openBuilderFor peer targets).push s, a.finish peer⟩) := by
  by_cases hopen : a.builder.Accepts s
  · rw [appendSubmessage_of_accepts hint hopen] at h
    exact .inl ⟨hopen, (Except.ok.inj h).symm⟩
  · by_cases hfresh : (v.openBuilderFor peer targets).Accepts s
    · rw [appendSubmessage_of_flush hint hopen hfresh] at h
      exact .inr ⟨hopen, (Except.ok.inj h).symm⟩
    · obtain ⟨e, he⟩ := appendSubmessage_of_refused hint hopen hfresh
      rw [he] at h
      cases h

theorem appendSubmessage_opened (ha : v.Opened peer targets a.builder)
    (h : v.appendSubmessage a s peer targets hint = .ok a') : v.Opened peer targets a'.builder := by
  rcases appendSubmessage_cases h with ⟨-, rfl⟩ | ⟨-, rfl⟩
  · exact ha.push s
  · exact opened_openBuilderFor.push s

/-! ### A submessage in a datagram of its own -/

def stampedBuilder (v : SendView) (stamped : Option Int) (peer : Guid) (targets : List Locator) :
    MessageBuilder :=
  (stamped.map fun sn => v.appendInfoTs (v.openBuilderFor peer targets) sn).getD
    (v.openBuilderFor peer targets)

variable {stamped : Option Int} {message : String}

theorem buildAlone_of_accepts (message : String) (hs : s.isFramingOnly = false)
    (h : (v.stampedBuilder stamped peer targets).Accepts s) :
    v.buildAlone s stamped peer targets message =
      .ok ⟨peer, (v.stampedBuilder stamped peer targets).header,
        (v.stampedBuilder stamped peer targets).submessages ++ [s],
        (v.stampedBuilder stamped peer targets).targets⟩ := by
  have hadd := tryAddSubmessage_of_accepts h
  have hfin := finish_of_content
    (b := (v.stampedBuilder stamped peer targets).push s) (s := s) (by simp) hs
  simp only [stampedBuilder] at hadd hfin ⊢
  simp [buildAlone, hadd, hfin]

theorem buildAlone_of_refused (h : ¬(v.stampedBuilder stamped peer targets).Accepts s) :
    v.buildAlone s stamped peer targets message = .error (.valueOutOfRange message) := by
  obtain ⟨e, he⟩ := tryAddSubmessage_of_not_accepts h
  simp only [stampedBuilder] at he
  simp [buildAlone, he]

theorem buildAlone_ok_iff (hs : s.isFramingOnly = false) :
    (∃ d, v.buildAlone s stamped peer targets message = .ok d) ↔
      (v.stampedBuilder stamped peer targets).Accepts s := by
  by_cases h : (v.stampedBuilder stamped peer targets).Accepts s
  · simp [buildAlone_of_accepts message hs h, h]
  · simp [buildAlone_of_refused h, h]

theorem buildAlone_ok {d : AddressedDatagram} (hs : s.isFramingOnly = false)
    (h : v.buildAlone s stamped peer targets message = .ok d) :
    d.peer = peer ∧
      d.datagram.submessages = (v.stampedBuilder stamped peer targets).submessages ++ [s] := by
  have haccepts := (buildAlone_ok_iff hs).mp ⟨d, h⟩
  rw [buildAlone_of_accepts message hs haccepts] at h
  obtain rfl := Except.ok.inj h
  exact ⟨rfl, rfl⟩

/-- What a change is appended as to an open datagram; `none` for a sample that goes
out in fragments. -/
def changeSubmessage (v : SendView) (sn : Int) (peer : Guid) : Option Submessage :=
  match v.cache.get sn with
  | none => some (.gap (v.gapOf sn peer))
  | some change =>
    if change.kind.isAliveKind = false then
      some (.data (v.lifecycleData sn (v.markerOf change zeroKeyHash peer) peer))
    else if v.needsFragmentation sn peer change.payload then none
    else if v.isRelevant sn peer then some (.data (v.dataOf sn change.payload peer))
    else some (.gap (v.gapOf sn peer))

def stampFor (v : SendView) (sn : Int) (b : MessageBuilder) : Submessage → MessageBuilder
  | .data _ => v.appendInfoTs b sn
  | _ => b

def payloadOf (v : SendView) (sn : Int) : Octets := ((v.cache.get sn).map (·.payload)).getD []

theorem appendChange_eq (v : SendView) (a : Assembly) (sn : Int) (peer : Guid)
    (targets : List Locator) :
    v.appendChange a sn peer targets =
      match v.changeSubmessage sn peer with
      | some s =>
        v.appendSubmessage { a with builder := v.stampFor sn a.builder s } s peer targets
          (match s with | .gap _ => "GAP" | _ => "DATA")
      | none =>
        (v.buildSampleDatagrams sn (v.payloadOf sn) peer targets).map fun ds =>
          ⟨v.openBuilderFor peer targets, a.finish peer ++ ds⟩ := by
  unfold appendChange changeSubmessage
  cases hget : v.cache.get sn with
  | none => rfl
  | some change =>
    simp only
    split
    · rfl
    · split
      · simp [Assembly.flush, payloadOf, hget]
      · unfold appendData
        split <;> rfl

def ChangeFits (v : SendView) (sn : Int) (peer : Guid) (targets : List Locator) : Prop :=
  match v.changeSubmessage sn peer with
  | some s => (v.openBuilderFor peer targets).Accepts s
  | none => ∃ ds, v.buildSampleDatagrams sn (v.payloadOf sn) peer targets = .ok ds

theorem Opened.stampFor (h : v.Opened peer targets b) (sn : Int) (s : Submessage) :
    v.Opened peer targets (v.stampFor sn b s) := by
  cases s <;> first | exact h.appendInfoTs sn | exact h

theorem appendChange_ok_iff (ha : v.Opened peer targets a.builder) (sn : Int) :
    (∃ a', v.appendChange a sn peer targets = .ok a') ↔ v.ChangeFits sn peer targets := by
  rw [appendChange_eq, ChangeFits]
  cases v.changeSubmessage sn peer with
  | some s => exact appendSubmessage_ok_iff _ (ha.stampFor sn s)
  | none =>
    cases v.buildSampleDatagrams sn (v.payloadOf sn) peer targets with
    | ok ds => simp [Except.map]
    | error e => simp [Except.map]

variable {sn : Int} {ds : List AddressedDatagram} {payload : Octets}

theorem appendChange_opened (ha : v.Opened peer targets a.builder)
    (h : v.appendChange a sn peer targets = .ok a') : v.Opened peer targets a'.builder := by
  rw [appendChange_eq] at h
  split at h
  · next s _ => exact appendSubmessage_opened (ha.stampFor sn s) h
  · cases hds : v.buildSampleDatagrams sn (v.payloadOf sn) peer targets with
    | ok ds =>
      rw [hds] at h
      obtain rfl := Except.ok.inj h
      exact opened_openBuilderFor
    | error e => simp [hds, Except.map] at h

/-! ### Who the datagrams are for -/

theorem map_singleton_eq_ok {r : Except WireError AddressedDatagram} (h : r.map ([·]) = .ok ds) :
    ∃ d, r = .ok d ∧ ds = [d] := by
  cases r with
  | error e => cases h
  | ok d => exact ⟨d, rfl, (Except.ok.inj h).symm⟩

theorem fragmentDatagrams_succ_ok {size perMessage fuel num pos : Nat}
    (hpos : pos < payload.length)
    (h : v.fragmentDatagrams sn payload size perMessage peer targets (fuel + 1) num pos = .ok ds) :
    let stop := min (pos + perMessage * size) payload.length
    let count := divCeil (stop - pos) size
    ∃ d rest, v.buildDataFragSubmessageDatagram sn
        ⟨num, count, size, payload.length, sliceOf payload pos stop⟩ peer targets = .ok d ∧
      v.fragmentDatagrams sn payload size perMessage peer targets fuel (num + count) stop =
        .ok rest ∧ ds = d :: rest := by
  simp only [fragmentDatagrams, hpos, if_true] at h
  split at h
  · cases h
  · split at h
    · cases h
    · next d hd =>
      split at h
      · cases h
      · cases hrest : v.fragmentDatagrams sn payload size perMessage peer targets fuel
            (num + divCeil (min (pos + perMessage * size) payload.length - pos) size)
            (min (pos + perMessage * size) payload.length) with
        | error e => simp [hrest, Except.map] at h
        | ok rest =>
          rw [hrest] at h
          exact ⟨d, rest, hd, hrest, (Except.ok.inj h).symm⟩

theorem fragmentDatagrams_peer {size perMessage fuel num pos : Nat}
    (h : v.fragmentDatagrams sn payload size perMessage peer targets fuel num pos = .ok ds) :
    ∀ d ∈ ds, d.peer = peer := by
  induction fuel generalizing num pos ds with
  | zero =>
    obtain rfl := Except.ok.inj h
    simp
  | succ fuel ih =>
    by_cases hpos : pos < payload.length
    · obtain ⟨d, rest, hd, hrest, rfl⟩ := fragmentDatagrams_succ_ok hpos h
      exact List.forall_mem_cons.mpr ⟨(buildAlone_ok rfl hd).1, ih hrest⟩
    · simp only [fragmentDatagrams, hpos, if_false] at h
      obtain rfl := Except.ok.inj h
      simp

theorem buildSampleDatagrams_peer (h : v.buildSampleDatagrams sn payload peer targets = .ok ds) :
    ∀ d ∈ ds, d.peer = peer := by
  unfold buildSampleDatagrams at h
  split at h
  · obtain ⟨d, hd, rfl⟩ := map_singleton_eq_ok h
    simpa using (buildAlone_ok rfl hd).1
  · split at h
    · obtain ⟨d, hd, rfl⟩ := map_singleton_eq_ok h
      simpa using (buildAlone_ok rfl hd).1
    · simp only at h
      split at h
      · cases h
      · split at h
        · cases h
        · exact fragmentDatagrams_peer h

section

variable (ha : ∀ d ∈ a.out, d.peer = peer)
include ha

theorem finish_peer : ∀ d ∈ a.finish peer, d.peer = peer := by
  intro d hd
  rcases Assembly.mem_finish.mp hd with hout | ⟨x, -, rfl⟩
  · exact ha d hout
  · rfl

theorem appendSubmessage_peer
    (h : v.appendSubmessage a s peer targets hint = .ok a') : ∀ d ∈ a'.out, d.peer = peer := by
  rcases appendSubmessage_cases h with ⟨-, rfl⟩ | ⟨-, rfl⟩
  · exact ha
  · exact finish_peer ha

theorem appendChange_peer
    (h : v.appendChange a sn peer targets = .ok a') : ∀ d ∈ a'.out, d.peer = peer := by
  rw [appendChange_eq] at h
  split at h
  · next s _ =>
    exact appendSubmessage_peer (a := { a with builder := v.stampFor sn a.builder s }) ha h
  · cases hds : v.buildSampleDatagrams sn (v.payloadOf sn) peer targets with
    | error e => simp [hds, Except.map] at h
    | ok ds =>
      rw [hds] at h
      obtain rfl := Except.ok.inj h
      refine fun d hd => (List.mem_append.mp hd).elim (finish_peer ha d) ?_
      exact buildSampleDatagrams_peer hds d

end

/-! ### A list of changes -/

def appendAll (v : SendView) (peer : Guid) (targets : List Locator) :
    List Int → Assembly → Except WireError Assembly
  | [], a => .ok a
  | sn :: sns, a =>
    match v.appendChange a sn peer targets with
    | .error e => .error e
    | .ok a => appendAll v peer targets sns a

theorem appendAll_append (sns sns' : List Int) (a : Assembly) :
    v.appendAll peer targets (sns ++ sns') a =
      match v.appendAll peer targets sns a with
      | .error e => .error e
      | .ok a => v.appendAll peer targets sns' a := by
  induction sns generalizing a with
  | nil => rfl
  | cons sn sns ih =>
    simp only [List.cons_append, appendAll]
    cases v.appendChange a sn peer targets with
    | error e => rfl
    | ok a => exact ih a

theorem appendAll_invariant {P : List Int → Assembly → Prop}
    (hstep : ∀ done a sn a', P done a → v.Opened peer targets a.builder →
      v.appendChange a sn peer targets = .ok a' → P (done ++ [sn]) a') (done : List Int)
    {sns : List Int} (ha : v.Opened peer targets a.builder) (hP : P done a)
    (h : v.appendAll peer targets sns a = .ok a') :
    P (done ++ sns) a' ∧ v.Opened peer targets a'.builder := by
  induction sns generalizing a done with
  | nil =>
    obtain rfl := Except.ok.inj h
    exact ⟨by simpa using hP, ha⟩
  | cons sn sns ih =>
    rw [appendAll] at h
    split at h
    · cases h
    · next a₁ h₁ =>
      have := ih _ (appendChange_opened ha h₁) (hstep done a sn a₁ hP ha h₁) h
      simpa using this

theorem appendAll_ok_iff (sns : List Int) (ha : v.Opened peer targets a.builder) :
    (∃ a', v.appendAll peer targets sns a = .ok a') ↔
      ∀ sn ∈ sns, v.ChangeFits sn peer targets := by
  induction sns generalizing a with
  | nil => simp [appendAll]
  | cons sn sns ih =>
    rw [List.forall_mem_cons, ← appendChange_ok_iff ha, appendAll]
    cases h : v.appendChange a sn peer targets with
    | error e => simp
    | ok a₁ => simpa using ih (appendChange_opened ha h)

end SendView
end ZeroDds.Rtps
