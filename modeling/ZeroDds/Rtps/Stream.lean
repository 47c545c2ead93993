/-
One writer's stream, as a reader follows it.

The abstract model of what a reader does with one writer's changes: which numbers are known, which
changes it holds, how far it has handed out, and the open coherent set.
-/
import ZeroDds.Rtps.WriterProxyState

namespace ZeroDds.Rtps

/-- Follows a coherent set across a change handed out: the track behind it, and
whether the set it ends was complete. -/
def CoherentTrack.follow (tracked : Option CoherentTrack) (c : CacheChange) :
    Option CoherentTrack × Option Bool :=
  if c.group.isSome then (tracked, none)
  else if c.coherentSetEnd then
    (none, tracked.map fun t => t.completeBefore c.sequenceNumber)
  else
    match tracked, c.coherentSetSn with
    | some t, some first =>
      if t.first = first then (some { t with counted := t.counted + 1 }, none)
      else (some ⟨first, 1⟩, some (t.completeBefore c.sequenceNumber))
    | tracked, set =>
      (set.map fun first => ⟨first, 1⟩, tracked.map fun t => t.completeBefore c.sequenceNumber)

structure HandOut where
  change : CacheChange
  ended : Option Bool

namespace HandOut

def sn (x : HandOut) : Int := x.change.sequenceNumber

/-- The deliveries of one hand-out: the sample, with an end-of-set verdict noted
on it, or behind the marker of an incomplete set. -/
def deliveries (writer : Guid) (x : HandOut) : List DeliveredSample :=
  let sample := deliveredSampleOf writer x.change
  if x.change.coherentSetEnd then [{ sample with coherentSetComplete := x.ended }]
  else if x.ended = some false then
    [DeliveredSample.incompleteSetEnd writer x.change.sequenceNumber, sample]
  else [sample]

end HandOut

@[ext]
structure Stream where
  first : Int
  last : Int
  delivered : Int
  known : Set Int
  held : Int → Option CacheChange
  track : Option CoherentTrack

inductive Intake where
  | nothing
  | rule (ns : Set Int)
  | announce (first last : Int)
  /-- A change for the receive cache, the number displaced for it, and whether
  there was room. -/
  | store (c : CacheChange) (displaced : Option Int) (kept : Bool)
  /-- A change handed out without a stay in the cache. -/
  | hand (c : CacheChange)

namespace Intake

def change? : Intake → Option CacheChange
  | .store c _ _ | .hand c => some c
  | _ => none

end Intake

namespace Stream

def Accepts (bestEffort : Bool) (s : Stream) : Intake → Prop
  | .nothing | .rule _ | .announce _ _ => True
  | .store c displaced kept =>
    c.sequenceNumber ∉ s.known ∧ s.delivered < c.sequenceNumber ∧
      (∀ h, displaced = some h → c.sequenceNumber < h ∧ s.held h ≠ none) ∧
      (kept = true → s.held c.sequenceNumber = none)
  | .hand c =>
    c.sequenceNumber ∉ s.known ∧ s.delivered < c.sequenceNumber ∧ (∀ n, s.held n = none) ∧
      (bestEffort = true ∨ c.sequenceNumber = s.delivered + 1)

variable (s : Stream)

def forgetBefore (first : Int) : Stream :=
  { s with first := max s.first first, known := {n | n ∈ s.known ∧ first ≤ n} }

def mark (ns : Set Int) : Stream :=
  { s with known := {n | n ∈ s.known ∨ (n ∈ ns ∧ s.first ≤ n)} }

def advance (c : CacheChange) : Stream :=
  { s with delivered := c.sequenceNumber, track := (CoherentTrack.follow s.track c).1 }

def take : Intake → Stream
  | .nothing => s
  | .rule ns => s.mark ns
  | .announce first last => { s.forgetBefore first with last := max s.last last }
  | .store c displaced kept =>
    { s with
      known := {n | n ∈ (s.mark {c.sequenceNumber}).known ∧ displaced ≠ some n ∧
        (kept = false → n ≠ c.sequenceNumber)}
      held := fun n =>
        if kept = true ∧ n = c.sequenceNumber then some c
        else if displaced = some n then none
        else s.held n }
  | .hand c =>
    let s' := (s.mark {c.sequenceNumber}).advance c
    if s.delivered + 1 < c.sequenceNumber then s'.forgetBefore (c.sequenceNumber + 1) else s'

def takeOut : Intake → List HandOut
  | .hand c => [⟨c, (CoherentTrack.follow s.track c).2⟩]
  | _ => []

inductive Turn (bestEffort : Bool) : Stream → List HandOut → Stream → Prop
  | cached {s : Stream} {c : CacheChange} :
      s.held (s.delivered + 1) = some c → c.sequenceNumber = s.delivered + 1 →
        Turn bestEffort s [⟨c, (CoherentTrack.follow s.track c).2⟩]
          { s.advance c with held := fun n => if s.delivered + 1 < n then s.held n else none }
  | known {s : Stream} :
      s.held (s.delivered + 1) = none → s.delivered + 1 ∈ s.known →
        Turn bestEffort s []
          { s with
            delivered := s.delivered + 1
            track := s.track.map fun t => { t with counted := t.counted + 1 } }
  | gone {s : Stream} :
      s.held (s.delivered + 1) = none → s.delivered + 1 ∉ s.known →
        s.delivered + 1 < s.first →
        Turn bestEffort s [] { s with delivered := s.delivered + 1 }
  | skip {s : Stream} {low : Int} :
      bestEffort = true → s.held (s.delivered + 1) = none → s.delivered + 1 ∉ s.known →
        s.first ≤ s.delivered + 1 → s.delivered + 1 < low → s.held low ≠ none →
        (∀ n, s.held n ≠ none → low ≤ n) →
        Turn bestEffort s [] { s.forgetBefore low with delivered := low - 1 }

inductive Turns (bestEffort : Bool) : Stream → List HandOut → Stream → Prop
  | done (s : Stream) : Turns bestEffort s [] s
  | more {s t u : Stream} {out rest : List HandOut} :
      Turn bestEffort s out t → Turns bestEffort t rest u →
        Turns bestEffort s (out ++ rest) u

variable {be : Bool} {s t : Stream} {out : List HandOut}

theorem Turns.single (h : Turn be s out t) : Turns be s out t := by
  simpa using Turns.more h (.done t)

theorem Turns.append {u : Stream} {out' : List HandOut} (h : Turns be s out t)
    (h' : Turns be t out' u) : Turns be s (out ++ out') u := by
  induction h with
  | done => exact h'
  | more ht _ ih =>
    rw [List.append_assoc]
    exact .more ht (ih h')

/-- No turn is left: the next change waits for a consumer whose room is bounded,
or it is missing. -/
def Settled (unbounded : Prop) (s : Stream) : Prop :=
  (¬unbounded ∧ s.held (s.delivered + 1) ≠ none) ∨
    (s.held (s.delivered + 1) = none ∧ s.delivered + 1 ∉ s.known ∧ s.first ≤ s.delivered + 1)

variable {u : Prop}

theorem Accepts.settled_refused {c : CacheChange} {displaced : Option Int}
    (h : s.Accepts be (.store c displaced false)) (hs : s.Settled u) :
    (s.take (.store c displaced false)).Settled u := by
  obtain ⟨-, hdel, hdisp, -⟩ := h
  have hnext : displaced ≠ some (s.delivered + 1) := fun hd => by
    have := (hdisp _ hd).1
    omega
  have hheld : (s.take (.store c displaced false)).held (s.delivered + 1) =
      s.held (s.delivered + 1) := by
    simp [take, hnext]
  rcases hs with ⟨hu, hsome⟩ | ⟨hnone, hunknown, hfirst⟩
  · exact .inl ⟨hu, fun h => hsome (hheld.symm.trans h)⟩
  · refine .inr ⟨hheld.trans hnone, ?_, hfirst⟩
    rintro ⟨hmem | ⟨hmem, -⟩, -, hne⟩
    · exact hunknown hmem
    · exact hne rfl hmem

structure Call (bestEffort : Bool) (unbounded : Prop) (s : Stream) (i : Intake)
    (out : List HandOut) (t : Stream) : Prop where
  accepts : s.Accepts bestEffort i
  turns : ∃ later, Turns bestEffort (s.take i) later t ∧ out = s.takeOut i ++ later
  settled : s.Settled unbounded → t.Settled unbounded

variable {done : List HandOut} {i : Intake}

theorem Turns.induct {P : List HandOut → Stream → Prop}
    (hturn : ∀ done s out t, P done s → Turn be s out t → P (done ++ out) t)
    (h : Turns be s out t) (hs : P done s) : P (done ++ out) t := by
  induction h generalizing done with
  | done s => simpa using hs
  | more ht _ ih =>
    rw [← List.append_assoc]
    exact ih (hturn _ _ _ _ hs ht)

theorem Call.induct {P : List HandOut → Stream → Prop} (h : Call be u s i out t)
    (htake : P (s.takeOut i) (s.take i))
    (hturn : ∀ done s out t, P done s → Turn be s out t → P (done ++ out) t) : P out t := by
  obtain ⟨later, hturns, rfl⟩ := h.turns
  exact hturns.induct hturn htake

/-! ### The order of what is handed out -/

/-- What has been handed out since `b` was the last number: rising numbers behind
`b`, and only numbers behind them are held. -/
structure Ordered (b : Int) (out : List HandOut) (s : Stream) : Prop where
  le : b ≤ s.delivered
  sorted : (out.map HandOut.sn).Pairwise (· < ·)
  range : ∀ x ∈ out, b < x.sn ∧ x.sn ≤ s.delivered
  held : ∀ n, s.held n ≠ none → s.delivered < n

variable {b : Int}

theorem Ordered.hand {x : HandOut} (h : Ordered b out s) (hlt : s.delivered < x.sn)
    (hdel : t.delivered = x.sn) (hheld : ∀ n, t.held n ≠ none → t.delivered < n) :
    Ordered b (out ++ [x]) t where
  le := by have := h.le; omega
  sorted := by
    rw [List.map_append, List.pairwise_append]
    refine ⟨h.sorted, List.pairwise_singleton _ _, fun m hm n hn => ?_⟩
    obtain ⟨y, hy, rfl⟩ := List.mem_map.mp hm
    obtain rfl := List.mem_singleton.mp hn
    have := (h.range y hy).2
    omega
  range y hy := by
    have := h.le
    rcases List.mem_append.mp hy with hy | hy
    · have := h.range y hy
      omega
    · obtain rfl := List.mem_singleton.mp hy
      omega
  held := hheld

theorem Ordered.pass (h : Ordered b out s) (hle : s.delivered ≤ t.delivered)
    (hheld : ∀ n, t.held n ≠ none → t.delivered < n) :
    Ordered b (out ++ []) t where
  le := h.le.trans hle
  sorted := by simpa using h.sorted
  range x hx := by
    have := h.range x (by simpa using hx)
    omega
  held := hheld

theorem Turn.ordered (h : Ordered b done s) (hturn : Turn be s out t) :
    Ordered b (done ++ out) t := by
  cases hturn with
  | @cached c hget hsn =>
    refine h.hand (x := ⟨c, _⟩) (by simp [HandOut.sn, hsn]) rfl fun n hn => ?_
    simp only at hn
    split at hn
    · simpa [advance, hsn] using ‹_›
    · exact absurd rfl hn
  | known hnone =>
    refine h.pass (by simp) fun n hn => ?_
    have hlt := h.held n hn
    have hne : n ≠ s.delivered + 1 := fun heq => hn (heq ▸ hnone)
    simp only
    omega
  | gone hnone =>
    refine h.pass (by simp) fun n hn => ?_
    have hlt := h.held n hn
    have hne : n ≠ s.delivered + 1 := fun heq => hn (heq ▸ hnone)
    simp only
    omega
  | skip _ _ _ _ hlt _ hmin =>
    refine h.pass (by simp only; omega) fun n hn => ?_
    have := hmin n hn
    simp only
    omega

theorem Accepts.ordered (h : s.Accepts be i) (hheld : ∀ n, s.held n ≠ none → s.delivered < n) :
    Ordered s.delivered (s.takeOut i) (s.take i) := by
  have hstart : Ordered s.delivered [] s := ⟨le_refl _, .nil, by simp, hheld⟩
  cases i with
  | nothing => exact hstart
  | rule ns => exact hstart.pass (le_refl _) hheld
  | announce first last => exact hstart.pass (le_refl _) hheld
  | store c displaced kept =>
    obtain ⟨-, hdel, -, -⟩ := h
    refine hstart.pass (le_refl _) fun n hn => ?_
    simp only [take] at hn
    split at hn
    · next hc => exact hc.2 ▸ hdel
    · split at hn
      · exact absurd rfl hn
      · exact hheld n hn
  | hand c =>
    obtain ⟨-, hdel, hempty, -⟩ := h
    have hheld' : (s.take (.hand c)).held = s.held := by
      simp only [take]
      split <;> rfl
    have hdel' : (s.take (.hand c)).delivered = c.sequenceNumber := by
      simp only [take]
      split <;> rfl
    exact hstart.hand (x := ⟨c, _⟩) hdel hdel' fun n hn => absurd (hempty n) (hheld' ▸ hn)

theorem Call.ordered (h : Call be u s i out t) (hheld : ∀ n, s.held n ≠ none → s.delivered < n) :
    Ordered s.delivered out t :=
  h.induct (h.accepts.ordered hheld) fun _ _ _ _ hp hturn => hturn.ordered hp

theorem Call.held_or_out (h : Call be u s i out t)
    (hheld : ∀ n, s.held n ≠ none → s.delivered < n) {n : Int} (hn : s.held n ≠ none)
    (hstays : ∀ c kept, i ≠ .store c (some n) kept) : t.held n ≠ none ∨ ∃ x ∈ out, x.sn = n := by
  have hstart : (s.take i).held n ≠ none := by
    cases i with
    | nothing => exact hn
    | rule ns => exact hn
    | announce first last => exact hn
    | store c displaced kept =>
      have hne : displaced ≠ some n := fun heq => hstays c kept (by rw [heq])
      simp only [take, if_neg hne]
      split
      · simp
      · exact hn
    | hand c =>
      obtain ⟨-, -, hempty, -⟩ := h.accepts
      exact absurd (hempty n) hn
  refine (h.induct (P := fun out t => Ordered s.delivered out t ∧
      (t.held n ≠ none ∨ ∃ x ∈ out, x.sn = n)) ⟨h.accepts.ordered hheld, .inl hstart⟩
    fun done s' out' t' hp hturn => ⟨hturn.ordered hp.1, ?_⟩).2
  rcases hp.2 with hheld' | ⟨x, hx, hsn⟩
  · cases hturn with
    | @cached c hget hsn =>
      by_cases hlt : s'.delivered + 1 < n
      · refine .inl ?_
        simp only [if_pos hlt]
        exact hheld'
      · have hbehind := hp.1.held n hheld'
        refine .inr ⟨⟨c, _⟩, List.mem_append_right _ List.mem_cons_self, ?_⟩
        simp only [HandOut.sn, hsn]
        omega
    | known => exact .inl hheld'
    | gone => exact .inl hheld'
    | skip => exact .inl hheld'
  · exact .inr ⟨x, List.mem_append_left _ hx, hsn⟩

/-! ### What is handed out came in -/

def AllChanges (Q : CacheChange → Prop) (out : List HandOut) (s : Stream) : Prop :=
  (∀ x ∈ out, Q x.change) ∧ ∀ n c, s.held n = some c → Q c

variable {Q : CacheChange → Prop}

theorem Turn.allChanges (h : AllChanges Q done s) (hturn : Turn be s out t) :
    AllChanges Q (done ++ out) t := by
  cases hturn with
  | @cached c hget hsn =>
    refine ⟨fun x hx => ?_, fun n c' hn => ?_⟩
    · rcases List.mem_append.mp hx with hx | hx
      · exact h.1 x hx
      · obtain rfl := List.mem_singleton.mp hx
        exact h.2 _ c hget
    · simp only at hn
      split at hn
      · exact h.2 n c' hn
      · cases hn
  | known => simpa [AllChanges] using h
  | gone => simpa [AllChanges] using h
  | skip => simpa [AllChanges, forgetBefore] using h

theorem allChanges_take (hin : ∀ c, i.change? = some c → Q c)
    (hheld : ∀ n c, s.held n = some c → Q c) : AllChanges Q (s.takeOut i) (s.take i) := by
  cases i with
  | store c displaced kept =>
    refine ⟨by simp [takeOut], fun n c' hn => ?_⟩
    simp only [take] at hn
    split at hn
    · exact Option.some.inj hn ▸ hin c rfl
    · split at hn
      · cases hn
      · exact hheld n c' hn
  | hand c =>
    refine ⟨by simpa [takeOut] using hin c rfl, fun n c' hn => hheld n c' ?_⟩
    simp only [take] at hn
    split at hn <;> exact hn
  | nothing => exact ⟨by simp [takeOut], hheld⟩
  | rule ns => exact ⟨by simp [takeOut], hheld⟩
  | announce first last => exact ⟨by simp [takeOut], hheld⟩

theorem Call.allChanges (h : Call be u s i out t) (hin : ∀ c, i.change? = some c → Q c)
    (hheld : ∀ n c, s.held n = some c → Q c) : AllChanges Q out t :=
  h.induct (allChanges_take hin hheld) fun _ _ _ _ hp hturn => hturn.allChanges hp

end Stream
end ZeroDds.Rtps
