/-
What a reliable reader acknowledges it keeps.
-/
import ZeroDds.Rtps.DeliveryOrder

namespace ZeroDds.Rtps

namespace Stream

/-- Every number the reader no longer asks for is accounted for, and so is every
number below `acked`. -/
structure Accounted (handed ruled : Int → Prop) (acked : Int) (s : Stream) : Prop where
  start : 0 ≤ s.delivered
  held : ∀ n, s.held n ≠ none → s.delivered < n
  account : ∀ n, 1 ≤ n → n < s.first ∨ n ∈ s.known → s.held n ≠ none ∨ handed n ∨ ruled n
  acked : ∀ n, 1 ≤ n → n < acked → n < s.first ∨ n ∈ s.known

def Spares (s : Stream) : Intake → Prop
  | .store c displaced _ => s.first ≤ c.sequenceNumber ∨ displaced = none
  | _ => True

/-- Whether the intake rules the number out; an announcement only where it has not
been acknowledged. -/
def RulesOut (acked : Int) (n : Int) : Intake → Prop
  | .rule ns => n ∈ ns
  | .announce first _ => n < first ∧ acked ≤ n
  | _ => False

variable {i : Intake}

theorem RulesOut.mono {acked acked' n : Int} (h : RulesOut acked' n i) (hle : acked ≤ acked') :
    RulesOut acked n i := by
  cases i with
  | announce first last => exact ⟨h.1, hle.trans h.2⟩
  | _ => exact h

variable {handed ruled : Int → Prop} {acked : Int} {s t : Stream}

theorem Accounted.mono (h : Accounted handed ruled acked s) {handed' ruled' : Int → Prop}
    (hhanded : ∀ n, handed n → handed' n)
    (hruled : ∀ n, ruled n → s.held n = none → ruled' n) : Accounted handed' ruled' acked s where
  start := h.start
  held := h.held
  acked := h.acked
  account n hn hknown := by
    by_cases hheld : s.held n = none
    · rcases h.account n hn hknown with h | h | h
      · exact .inl h
      · exact .inr (.inl (hhanded n h))
      · exact .inr (.inr (hruled n h hheld))
    · exact .inl hheld

theorem Accounted.turn {done out : List HandOut}
    (h : Accounted (fun n => handed n ∨ n ∈ done.map HandOut.sn) ruled acked s)
    (hturn : Turn false s out t) :
    Accounted (fun n => handed n ∨ n ∈ (done ++ out).map HandOut.sn) ruled acked t := by
  cases hturn with
  | @cached c hget hsn =>
    have hdel := h.start
    refine ⟨?_, fun n hn => ?_, fun n hn hknown => ?_, h.acked⟩
    · simp only [advance, hsn]
      omega
    · simp only at hn
      split at hn
      · simpa [advance, hsn] using ‹_›
      · exact absurd rfl hn
    · rcases h.account n hn hknown with hheld | hhanded | hruled
      · have hlt := h.held n hheld
        by_cases heq : n = s.delivered + 1
        · exact .inr (.inl (.inr (by simp [HandOut.sn, hsn, heq])))
        · refine .inl ?_
          simp only
          rw [if_pos (by omega)]
          exact hheld
      · refine .inr (.inl (hhanded.imp_right fun hmem => ?_))
        rw [List.map_append]
        exact List.mem_append_left _ hmem
      · exact .inr (.inr hruled)
  | known hnone hmem =>
    have hdel := h.start
    rw [List.append_nil]
    refine ⟨by simp only; omega, fun n hn => ?_, h.account, h.acked⟩
    have hlt := h.held n hn
    have hne : n ≠ s.delivered + 1 := fun heq => hn (heq ▸ hnone)
    simp only
    omega
  | gone hnone =>
    have hdel := h.start
    rw [List.append_nil]
    refine ⟨by simp only; omega, fun n hn => ?_, h.account, h.acked⟩
    have hlt := h.held n hn
    have hne : n ≠ s.delivered + 1 := fun heq => hn (heq ▸ hnone)
    simp only
    omega
  | skip hbe => cases hbe

theorem Accounted.take (h : Accounted handed ruled acked s) (haccepts : s.Accepts false i)
    (hspares : s.Spares i) :
    Accounted (fun n => handed n ∨ n ∈ (s.takeOut i).map HandOut.sn)
      (fun n => ruled n ∨ RulesOut acked n i ∧ s.held n = none) acked (s.take i) := by
  cases i with
  | nothing => exact h.mono (fun _ => .inl) fun _ hr _ => .inl hr
  | rule ns =>
    refine ⟨h.start, h.held, fun n hn hknown => ?_, fun n hn hlt => ?_⟩
    · by_cases hheld : s.held n = none
      · rcases hknown with hlt | hmem | ⟨hmem, -⟩
        · exact (h.account n hn (.inl hlt)).imp_right (.imp .inl .inl)
        · exact (h.account n hn (.inr hmem)).imp_right (.imp .inl .inl)
        · exact .inr (.inr (.inr ⟨hmem, hheld⟩))
      · exact .inl hheld
    · exact (h.acked n hn hlt).imp_right .inl
  | announce first last =>
    refine ⟨h.start, h.held, fun n hn hknown => ?_, fun n hn hlt => ?_⟩
    · by_cases hheld : s.held n = none
      · by_cases hold : n < s.first ∨ n ∈ s.known
        · exact (h.account n hn hold).imp_right (.imp .inl .inl)
        · -- the floor has passed a number that was still asked for
          have hnew : n < first := by
            rcases hknown with hlt | ⟨hmem, -⟩
            · have hlt : n < max s.first first := hlt
              omega
            · exact absurd (.inr hmem) hold
          have hacked : acked ≤ n := not_lt.mp fun hlt => hold (h.acked n hn hlt)
          exact .inr (.inr (.inr ⟨⟨hnew, hacked⟩, hheld⟩))
      · exact .inl hheld
    · rcases h.acked n hn hlt with hlt | hmem
      · exact .inl (lt_max_of_lt_left hlt)
      · by_cases hfirst : first ≤ n
        · exact .inr ⟨hmem, hfirst⟩
        · exact .inl (lt_max_of_lt_right (not_le.mp hfirst))
  | store c displaced kept =>
    obtain ⟨hnew, hdel, hdisplaced, -⟩ := haccepts
    have hstart := h.start
    -- a displaced number lies behind an arrival the writer still has, so it is missing again
    have hgone : ∀ n, displaced = some n → s.first ≤ n ∧ acked ≤ n := fun n hn => by
      have hfirst : s.first ≤ c.sequenceNumber := hspares.resolve_right (by simp [hn])
      have hlt := (hdisplaced n hn).1
      refine ⟨by omega, not_lt.mp fun hack => ?_⟩
      rcases h.acked c.sequenceNumber (by omega) (by omega) with hc | hc
      · omega
      · exact hnew hc
    refine ⟨h.start, fun n hn => ?_, fun n hn hknown => ?_, fun n hn hlt => ?_⟩
    · simp only [Stream.take] at hn
      split at hn
      · next hc => exact hc.2 ▸ hdel
      · split at hn
        · exact absurd rfl hn
        · exact h.held n hn
    · by_cases hc : kept = true ∧ n = c.sequenceNumber
      · exact .inl (by simp [Stream.take, hc])
      · have hne : displaced ≠ some n := fun hd => by
          have := (hgone n hd).1
          rcases hknown with hlt | ⟨-, hkeep, -⟩
          · have hlt : n < s.first := hlt
            omega
          · exact hkeep hd
        have hold : n < s.first ∨ n ∈ s.known := by
          rcases hknown with hlt | ⟨hmem | ⟨hmem, -⟩, -, hkept⟩
          · exact .inl hlt
          · exact .inr hmem
          · have hfalse : kept = false := by
              cases kept with
              | false => rfl
              | true => exact absurd ⟨rfl, hmem⟩ hc
            exact absurd hmem (hkept hfalse)
        have hheld : (s.take (.store c displaced kept)).held n = s.held n := by
          simp [Stream.take, hc, hne]
        rw [hheld]
        exact (h.account n hn hold).imp_right (.imp .inl .inl)
    · rcases h.acked n hn hlt with hfirst | hmem
      · exact .inl hfirst
      · refine .inr ⟨.inl hmem, fun hd => ?_, fun _ heq => hnew (heq ▸ hmem)⟩
        have := (hgone n hd).2
        omega
  | hand c =>
    obtain ⟨-, hdel, hempty, horder⟩ := haccepts
    have hnext : c.sequenceNumber = s.delivered + 1 := horder.resolve_left (by simp)
    have htake : s.take (.hand c) = (s.mark {c.sequenceNumber}).advance c := by
      simp [Stream.take, hnext]
    have hstart := h.start
    rw [htake]
    refine ⟨?_, fun n hn => absurd (hempty n) hn, fun n hn hknown => ?_, fun n hn hlt => ?_⟩
    · simp only [advance]
      omega
    · rcases hknown with hlt | hmem | ⟨hmem, -⟩
      · exact (h.account n hn (.inl hlt)).imp_right (.imp .inl .inl)
      · exact (h.account n hn (.inr hmem)).imp_right (.imp .inl .inl)
      · exact .inr (.inl (.inr (by simpa [takeOut, HandOut.sn] using hmem)))
    · exact (h.acked n hn hlt).imp_right .inl

theorem Accounted.call {u : Prop} {out : List HandOut} (h : Accounted handed ruled acked s)
    (hcall : Call false u s i out t) (hspares : s.Spares i) :
    Accounted (fun n => handed n ∨ n ∈ out.map HandOut.sn)
      (fun n => ruled n ∨ RulesOut acked n i ∧ s.held n = none) acked t :=
  hcall.induct (P := fun out t => Accounted (fun n => handed n ∨ n ∈ out.map HandOut.sn) _ acked t)
    (h.take hcall.accepts hspares) fun _ _ _ _ hp hturn => hp.turn hturn

end Stream

/-! ### What an ACKNACK acknowledges -/

theorem WriterProxy.acknackBase_spec {p : WriterProxy} (hp : p.Absorbed) {n : Int}
    (h : n < p.acknackBase) : n < p.firstAvailableSn ∨ p.isKnown n = true := by
  by_cases hfirst : n < p.firstAvailableSn
  · exact .inl hfirst
  refine .inr ?_
  rw [acknackBase_eq hp] at h
  cases hfind : (Int.range p.firstAvailableSn (p.lastAvailableSn + 1)).find? fun sn =>
      !p.isKnown sn with
  | none =>
    rw [hfind, Option.getD_none] at h
    simpa using find?_range_eq_none.mp hfind n (not_lt.mp hfirst) h
  | some m =>
    rw [hfind, Option.getD_some] at h
    simpa using (find?_range_eq_some.mp hfind).2.2.2 n (not_lt.mp hfirst) h

@[simp] theorem SequenceNumberSet.fromMissing_bitmapBase (base : Int) (missing : List Int) :
    (SequenceNumberSet.fromMissing base missing).bitmapBase = base := by
  unfold SequenceNumberSet.fromMissing
  split
  · rfl
  · split <;> rfl

def acknackBases (sent : List OutboundDatagram) : List Int :=
  sent.flatMap fun d => d.submessages.filterMap fun
    | .ackNack a => some a.readerSnState.bitmapBase
    | _ => none

theorem acknackBases_append (a b : List OutboundDatagram) :
    acknackBases (a ++ b) = acknackBases a ++ acknackBases b := by
  simp [acknackBases]

namespace ReliableReader

variable {r : ReliableReader}

theorem wrapToWriter_submessages {p : GuidPrefix} {sub : Submessage} {targets : List Locator}
    {d : OutboundDatagram} (h : r.wrapToWriter p sub targets = .ok d) :
    d.submessages = [.infoDst p, sub] := by
  unfold wrapToWriter at h
  split at h
  · rw [← Except.ok.inj h]
  · cases h

theorem acknackBases_buildNackFrags (s : WriterProxyState) (sns : List Int) {r' : ReliableReader}
    {ds : List OutboundDatagram} (h : buildNackFrags s sns r = (r', .ok ds)) :
    acknackBases ds = [] := by
  induction sns generalizing r r' ds with
  | nil =>
    obtain ⟨-, hds⟩ := Prod.mk.inj h
    rw [← Except.ok.inj hds]
    rfl
  | cons sn sns ih =>
    unfold buildNackFrags at h
    simp only at h
    split at h
    · cases (Prod.mk.inj h).2
    · next d hd =>
      split at h
      · cases (Prod.mk.inj h).2
      · next r'' rest hrest =>
        obtain ⟨-, hds⟩ := Prod.mk.inj h
        rw [← Except.ok.inj hds, show d :: rest = [d] ++ rest from rfl, acknackBases_append,
          ih hrest]
        simp [acknackBases, wrapToWriter_submessages hd]

theorem OneProxy.acknackBases_tickOutbound {s : WriterProxyState} (h : r.OneProxy s) (now : Nat) :
    ∀ b ∈ acknackBases ((r.tickOutbound now).2.toOption.getD []), b = s.proxy.acknackBase := by
  have hrespond : ∀ r' ds, r.respond 0 s = (r', .ok ds) →
      ∀ b ∈ acknackBases ds, b = s.proxy.acknackBase := by
    intro r' ds hr
    unfold respond at hr
    simp only at hr
    split at hr
    · cases (Prod.mk.inj hr).2
    · next frags hfrags =>
      split at hr
      · cases (Prod.mk.inj hr).2
      · next d hd =>
        obtain ⟨-, hds⟩ := Prod.mk.inj hr
        rw [← Except.ok.inj hds, acknackBases_append, acknackBases_buildNackFrags _ _ hfrags]
        simp [acknackBases, wrapToWriter_submessages hd, ackNackOf]
  unfold tickOutbound
  split
  · simp [Except.toOption, acknackBases]
  · have hlen : r.writerProxies.length = 1 := by simp [h.proxies]
    have hget : r.writerProxies[0]? = some s := by simp [h.proxies]
    simp only [hlen, tickFrom, hget]
    split
    · split
      · simp [Except.toOption, acknackBases]
      · next r' ds heq => simpa [Except.toOption] using hrespond r' ds heq
    · simp [Except.toOption, acknackBases]

def missing (r : ReliableReader) (n : Int) : Bool :=
  r.writerProxies.any fun s => !s.proxy.isKnown n && s.proxy.firstAvailableSn ≤ n

end ReliableReader

def ReaderOp.staysReliable : ReaderOp → Bool
  | .setBestEffort b => !b
  | _ => true

/-- What a run has handed out and stored, what has been ruled out since it was last
held, and the highest base acknowledged. -/
structure Ledger where
  handed : List Int
  stored : List Int
  ruledOut : Int → Bool
  acked : Int

namespace Ledger

def empty : Ledger := ⟨[], [], fun _ => false, 0⟩

/-- Whether a call rules `n` out: a GAP names it, its DATA is not for this reader,
or the writer announces that it no longer has a change the reader has not
acknowledged. -/
def rules (l : Ledger) (r : ReliableReader) (op : ReaderOp) (n : Int) : Bool :=
  r.writerProxies.any fun s => decide (n ∈ op.named r.guid s) ||
    (op.announcedFirst s).any fun first => decide (n < first) && decide (l.acked ≤ n)

def record (l : Ledger) (r : ReliableReader) (op : ReaderOp) (r' : ReliableReader)
    (out : ReaderOutput) : Ledger where
  handed := l.handed ++ out.delivered.map DeliveredSample.sequenceNumber
  stored := l.stored ++ r'.writerProxies.flatMap fun s => s.receivedCache.changes.keys
  ruledOut n := (l.ruledOut n || (l.rules r op n && !r.holds n)) && !r'.holds n
  acked := (acknackBases out.sent).foldl max l.acked

def Accounts (l : Ledger) (r : ReliableReader) (n : Int) : Prop :=
  r.holds n = true ∨ n ∈ l.handed ∨ l.ruledOut n = true

instance (l : Ledger) (r : ReliableReader) (n : Int) : Decidable (l.Accounts r n) :=
  inferInstanceAs (Decidable (_ ∨ _))

end Ledger

namespace ReliableReader

def trackedStep (x : ReliableReader × Ledger) (op : ReaderOp) :
    (ReliableReader × Ledger) × ReaderOutput :=
  let (r, out) := x.1.step op
  ((r, x.2.record x.1 op r out), out)

/-- No change below `first_available_sn` arrives while the cache is full and would
give up its highest change for it. -/
def Spares (r : ReliableReader) (op : ReaderOp) : Prop :=
  ∀ s ∈ r.writerProxies, op.Brought
    (fun c => s.proxy.firstAvailableSn ≤ c.sequenceNumber ∨ s.displacedBy c.sequenceNumber = none)
    r.guid s

instance (r : ReliableReader) (op : ReaderOp) : Decidable (r.Spares op) :=
  inferInstanceAs (Decidable (∀ s ∈ r.writerProxies, op.Brought _ r.guid s))

/-- A call that leaves a reliable reader reliable, brings no forwarded sample, displaces
nothing for an arrival below `first_available_sn` and rules out no change that was
displaced and has not been stored again. -/
structure Sparing (x : ReliableReader × Ledger) (op : ReaderOp) : Prop where
  forward : x.1.NoForwarding op
  reliable : op.staysReliable = true
  spares : x.1.Spares op
  asks : ∀ n ∈ x.2.stored, x.1.holds n = true ∨ n ∈ x.2.handed ∨ x.2.rules x.1 op n = false

instance (x : ReliableReader × Ledger) (op : ReaderOp) : Decidable (Sparing x op) :=
  decidable_of_iff (x.1.NoForwarding op ∧ op.staysReliable = true ∧ x.1.Spares op ∧
      ∀ n ∈ x.2.stored, x.1.holds n = true ∨ n ∈ x.2.handed ∨ x.2.rules x.1 op n = false)
    ⟨fun ⟨h, h', h'', h₃⟩ => ⟨h, h', h'', h₃⟩, fun ⟨h, h', h'', h₃⟩ => ⟨h, h', h'', h₃⟩⟩

structure Balanced (w : Guid) (x : ReliableReader × Ledger) (s : WriterProxyState) : Prop where
  follows : x.1.Follows w s
  reliable : x.1.bestEffort = false
  accounted : Stream.Accounted (· ∈ x.2.handed) (x.2.ruledOut · = true) x.2.acked s.stream
  kept : Stream.Accounted (· ∈ x.2.handed) (fun n => n ∉ x.2.stored ∨ n ∈ x.2.handed) x.2.acked
    s.stream

variable {s : WriterProxyState}

theorem rules_of_rulesOut {r : ReliableReader} (h : r.OneProxy s) {op : ReaderOp} {i : Intake}
    (hadmits : op.Admits r.guid s i) {l : Ledger} {n : Int} (hrules : Stream.RulesOut l.acked n i) :
    l.rules r op n = true := by
  simp only [Ledger.rules, h.proxies, List.any_cons, List.any_nil, Bool.or_false, Bool.or_eq_true]
  cases i with
  | rule ns =>
    obtain ⟨ns', hns, hnamed⟩ | ⟨hne, -⟩ := hadmits.rules
    · obtain rfl := Intake.rule.inj hns
      exact .inl (decide_eq_true ((hnamed n).mp hrules))
    · exact absurd rfl (hne ns)
  | announce first last =>
    rw [hadmits.announces]
    exact .inr (by simpa [Stream.RulesOut] using hrules)
  | nothing => cases hrules
  | store c displaced kept => cases hrules
  | hand c => cases hrules

theorem lt_foldl_max {n a : Int} {bs : List Int} (h : n < bs.foldl max a) :
    n < a ∨ ∃ b ∈ bs, n < b := by
  induction bs generalizing a with
  | nil => exact .inl h
  | cons b bs ih =>
    rcases ih h with h | ⟨c, hc, h⟩
    · rcases lt_max_iff.mp h with h | h
      · exact .inl h
      · exact .inr ⟨b, by simp, h⟩
    · exact .inr ⟨c, by simp [hc], h⟩

theorem le_foldl_max (a : Int) (bs : List Int) : a ≤ bs.foldl max a := by
  induction bs generalizing a with
  | nil => exact le_refl a
  | cons b bs ih => exact (le_max_left a b).trans (ih _)

theorem OneProxy.acked_of_sent {r : ReliableReader} (h : r.OneProxy s) (hp : s.proxy.Absorbed)
    (op : ReaderOp) {handed ruled : Int → Prop} {acked : Int}
    (haccounted : Stream.Accounted handed ruled acked s.stream) :
    Stream.Accounted handed ruled ((acknackBases (r.step op).2.sent).foldl max acked) s.stream where
  start := haccounted.start
  held := haccounted.held
  account := haccounted.account
  acked n hn hlt := by
    rcases lt_foldl_max hlt with hold | ⟨b, hb, hnew⟩
    · exact haccounted.acked n hn hold
    · cases op with
      | tickOutbound now =>
        rw [h.acknackBases_tickOutbound now b hb] at hnew
        exact WriterProxy.acknackBase_spec hp hnew
      | _ => cases hb

theorem Balanced.step {w : Guid} {x : ReliableReader × Ledger} (hinv : Balanced w x s)
    {op : ReaderOp} (hop : Sparing x op) : ∃ s', Balanced w (trackedStep x op).1 s' := by
  obtain ⟨r, l⟩ := x
  have hone : r.OneProxy s := hinv.follows.one
  have hmem : s ∈ r.writerProxies := by simp [hone.proxies]
  obtain ⟨i, out, s', hstep, hguid, hbe, -⟩ := hinv.follows.step_spec (u := False)
    (hop.forward s hmem) False.elim
  have hreliable : (r.step op).1.bestEffort = false := by
    cases op with
    | setBestEffort b => simpa [ReaderOp.staysReliable, ReliableReader.step, setBestEffort]
        using hop.reliable
    | _ => exact (hbe (by simp)).trans hinv.reliable
  have hspares : s.stream.Spares i := by
    cases i with
    | store c displaced kept =>
      have hbrought := (hop.spares s hmem).of_change (hstep.admits.change rfl)
      rw [← hstep.admits.displaced] at hbrought
      exact hbrought
    | _ => trivial
  -- what this call acknowledges is accounted for before it
  have hacked := hone.acked_of_sent hinv.follows.shape.absorbed op hinv.accounted
  have hcall := hacked.call (hinv.reliable ▸ hstep.call) hspares
  have hkept := (hone.acked_of_sent hinv.follows.shape.absorbed op hinv.kept).call
    (hinv.reliable ▸ hstep.call) hspares
  have hone' := hstep.follows.one
  have hnot : ∀ {n}, s'.stream.held n = none → (r.step op).1.holds n = false := fun {n} hheld => by
    rw [Bool.eq_false_iff, ne_eq, hone'.holds_iff]
    exact not_not_intro hheld
  have hfree : ∀ {n}, s.stream.held n = none → r.holds n = false := fun {n} hheld => by
    rw [Bool.eq_false_iff, ne_eq, hone.holds_iff]
    exact not_not_intro hheld
  have hrules : ∀ {n acked}, l.acked ≤ acked → Stream.RulesOut acked n i → l.rules r op n = true :=
    fun hle h => rules_of_rulesOut hone hstep.admits (h.mono hle)
  have hhanded : ∀ n, n ∈ l.handed ∨ n ∈ out.map HandOut.sn →
      n ∈ (trackedStep (r, l) op).1.2.handed := fun n hn => by
    refine List.mem_append.mpr (hn.imp_right fun hmem => ?_)
    obtain ⟨x, hx, rfl⟩ := List.mem_map.mp hmem
    exact hstep.deliveries ▸ HandOut.sn_mem_deliveries w hx
  refine ⟨s', hstep.follows, hreliable, hcall.mono hhanded fun n hn hheld => ?_,
    hkept.mono hhanded fun n hn hheld => ?_⟩
  · simp only [trackedStep, Ledger.record, hnot hheld, Bool.not_false, Bool.and_true,
      Bool.or_eq_true]
    refine hn.imp_right fun hpair => ?_
    rw [hfree hpair.2, Bool.not_false, Bool.and_true]
    exact hrules (le_foldl_max _ _) hpair.1
  · have hstored : n ∈ (trackedStep (r, l) op).1.2.stored → n ∈ l.stored := fun hmem => by
      refine (List.mem_append.mp hmem).resolve_right fun hkeys => ?_
      obtain ⟨s₁, hs₁, hkey⟩ := List.mem_flatMap.mp hkeys
      refine Bool.false_ne_true ((hnot hheld).symm.trans (List.any_eq_true.mpr ⟨s₁, hs₁, ?_⟩))
      obtain ⟨c, hc⟩ := SortedMap.mem_keys.mp hkey
      exact Option.isSome_iff_exists.mpr ⟨c, hc⟩
    rcases hn with (hn | hn) | ⟨hruled, hnone⟩
    · exact .inl (mt hstored hn)
    · exact .inr (hhanded n (.inl hn))
    · refine or_iff_not_imp_left.mpr fun hmem => hhanded n (.inl ?_)
      rcases hop.asks n (hstored (not_not.mp hmem)) with hheld' | hmem' | hno
      · rw [hfree hnone] at hheld'
        cases hheld'
      · exact hmem'
      · rw [hrules (le_foldl_max _ _) hruled] at hno
        cases hno

/-- In every run of a reliable reader on one writer's stream in which no arrival below
`first_available_sn` displaces a held change and nothing rules out a displaced one: a change
once stored is held, has been handed out, or is missing and asked for; and every number
below the base of an ACKNACK sent is held, has been handed out or has been ruled out. -/
theorem acknowledged_changes_kept {w : Guid} {r₀ r : ReliableReader} {s₀ : WriterProxyState}
    {l : Ledger} {h : History ReaderOp ReaderOutput} (hstart : r₀.JustMatched w s₀)
    (hreliable : r₀.bestEffort = false)
    (hrun : Reaches trackedStep Sparing (r₀, Ledger.empty) h (r, l)) {n : Int} (hn : 1 ≤ n) :
    (n ∈ l.stored → r.holds n = true ∨ n ∈ l.handed ∨ r.missing n = true) ∧
      (n < l.acked → l.Accounts r n) := by
  have hfresh : ∀ ruled, Stream.Accounted (· ∈ Ledger.empty.handed) ruled Ledger.empty.acked
      s₀.stream := fun ruled => by
    rw [hstart.stream]
    refine ⟨le_refl _, by simp, fun n hn hknown => ?_, fun n hn hlt => ?_⟩
    · simp only [Set.mem_empty_iff_false, or_false] at hknown
      omega
    · simp only [Ledger.empty] at hlt
      omega
  obtain ⟨s, hinv⟩ := hrun.invariant (P := fun _ x => ∃ s, Balanced w x s)
    ⟨s₀, hstart.follows, hreliable, hfresh _, hfresh _⟩ fun _ _ _ ⟨s, hinv⟩ hop => hinv.step hop
  have hone : r.OneProxy s := hinv.follows.one
  refine ⟨fun hstored => ?_, fun hlt => ?_⟩
  · by_cases hknown : n < s.stream.first ∨ n ∈ s.stream.known
    · rw [hone.holds_iff]
      rcases hinv.kept.account n hn hknown with hheld | hhanded | hnever | hhanded
      · exact .inl hheld
      · exact .inr (.inl hhanded)
      · exact absurd hstored hnever
      · exact .inr (.inl hhanded)
    · rw [not_or, not_lt, WriterProxyState.mem_stream_known, Bool.not_eq_true] at hknown
      have hfirst : s.proxy.firstAvailableSn ≤ n := hknown.1
      exact .inr (.inr (by simp [missing, hone.proxies, hknown.2, hfirst]))
  · rw [Ledger.Accounts, hone.holds_iff]
    exact hinv.accounted.account n hn (hinv.accounted.acked n hn hlt)

section Runs

open ReaderFixture

/-- Two samples the consumer has no room for, acknowledged; the writer lets go of
them, and a late duplicate of the first one arrives. -/
def duplicateBelowFirst : List ReaderOp :=
  [.setReleaseBudget (some 0), dataOp (data 1 0xAA), dataOp (data 2 0xBB), heartbeatOp 1 2 0,
    .tickOutbound 200000000, heartbeatOp 3 2 300000000, dataOp (data 1 0xAA)]

/-- Before the duplicate arrives all is kept; and a change displaced for one in front of it
is missing again. -/
theorem acknowledged_changes_kept_before_duplicate :
    (2 < (run trackedStep (makeReader 2, Ledger.empty) (duplicateBelowFirst.take 6)).1.2.acked ∧
      (run trackedStep (makeReader 2, Ledger.empty) (duplicateBelowFirst.take 6)).1.2.Accounts
        (run trackedStep (makeReader 2, Ledger.empty) (duplicateBelowFirst.take 6)).1.1 2) ∧
      (run trackedStep (makeReader 1, Ledger.empty)
        [dataOp (data 3 0xAA), dataOp (data 2 0xBB)]).1.1.missing 3 = true := by
  refine ⟨⟨by decide, (acknowledged_changes_kept (makeReader_justMatched 2) rfl
    (reaches_run (by decide)) (by decide)).2 (by decide)⟩, ?_⟩
  have hok : RunOk trackedStep Sparing (makeReader 1, Ledger.empty)
      [dataOp (data 3 0xAA), dataOp (data 2 0xBB)] := by decide
  have hmissing := (acknowledged_changes_kept (n := 3) (makeReader_justMatched 1) rfl
    (reaches_run hok) (by decide)).1 (by decide)
  exact (hmissing.resolve_left (by decide)).resolve_left (by decide)

/-- The duplicate finds the cache full and below `first_available_sn`: change 2,
held and acknowledged before it, is displaced for it, is not missing again, and is
neither handed out nor ruled out. -/
theorem acknowledged_change_dropped_by_duplicate :
    (run trackedStep (makeReader 2, Ledger.empty) (duplicateBelowFirst.take 6)).1.1.holds 2 = true ∧
      2 < (run trackedStep (makeReader 2, Ledger.empty) duplicateBelowFirst).1.2.acked ∧
      ¬(run trackedStep (makeReader 2, Ledger.empty) duplicateBelowFirst).1.2.Accounts
        (run trackedStep (makeReader 2, Ledger.empty) duplicateBelowFirst).1.1 2 ∧
      (run trackedStep (makeReader 2, Ledger.empty) duplicateBelowFirst).1.1.missing 2 = false := by
  decide

end Runs
end ReliableReader
end ZeroDds.Rtps
