/-
A reliable stream over a lossy network.

One sender and one receiver are joined by a network that keeps every message ever sent and delivers
any of them any number of times, or never.
-/
import ZeroDds.Lib.Run
import ZeroDds.Xrce.ReliableStream

namespace ZeroDds.Xrce

open ReliableStreamState SortedMap SerialNumber16

structure DataMessage where
  seq : Nat
  payload : Payload
  number : Nat
deriving Repr, DecidableEq

structure HeartbeatMessage where
  heartbeat : HeartbeatPayload
  last : Nat
deriving Repr, DecidableEq

/-- An ACKNACK on its way, with the number of its base and that of the HEARTBEAT it answers. -/
structure AckNackMessage where
  acknack : AckNackPayload
  base : Nat
  hint : Nat
deriving Repr, DecidableEq

structure System where
  sender : ReliableStreamState
  receiver : ReliableStreamState
  data : List DataMessage
  heartbeats : List HeartbeatMessage
  acknacks : List AckNackMessage
  submitted : List Payload
  drained : List Payload
  /-- The numbers of the samples an ACKNACK removed from the sender. -/
  acked : List Nat

inductive StreamAction where
  | submit (payload : Payload)
  /-- Send the sample in flight under the serial number, for the first time or again. -/
  | send (seq : Nat)
  | heartbeat (now : Nat)
  /-- The network delivers the data message at this place. -/
  | recvData (i : Nat)
  | drain
  /-- The network delivers a HEARTBEAT and the receiver answers it. -/
  | recvHeartbeat (i : Nat)
  | recvAcknack (i : Nat)
deriving Repr, DecidableEq

namespace System

def new (stream_id : UInt8) (sending receiving : ReliableConfig) : System :=
  { sender := .new stream_id sending
    receiver := .new stream_id receiving
    data := []
    heartbeats := []
    acknacks := []
    submitted := []
    drained := []
    acked := [] }

def submit (s : System) (payload : Payload) : System :=
  match s.sender.submit payload with
  | .error _ => s
  | .ok (_, sender) => { s with sender, submitted := s.submitted ++ [payload] }

variable (s : System)

def send (seq : Nat) : System :=
  match s.sender.getInFlight seq with
  | none => s
  | some payload =>
    { s with data := s.data ++ [⟨seq, payload, lastNumbered s.submitted.length seq⟩] }

def heartbeat (now : Nat) : System :=
  match s.sender.pendingHeartbeat now with
  | (none, sender) => { s with sender }
  | (some hb, sender) =>
    { s with
      sender
      heartbeats :=
        s.heartbeats ++ [⟨hb, lastNumbered s.submitted.length hb.last_unacked_seq_nr⟩] }

def recvData (s : System) (i : Nat) : System :=
  match s.data[i]? with
  | none => s
  | some m =>
    match s.receiver.recvData m.seq m.payload with
    | .error _ => s
    | .ok receiver => { s with receiver }

def drain : System :=
  let (out, receiver) := s.receiver.drainInOrder
  { s with receiver, drained := s.drained ++ out.map Prod.snd }

def recvHeartbeat (i : Nat) : System :=
  match s.heartbeats[i]? with
  | none => s
  | some m =>
    let ack := s.receiver.pendingAcknack (some m.heartbeat.last_unacked_seq_nr)
    { s with acknacks := s.acknacks ++ [⟨ack, s.drained.length, m.last⟩] }

def removed (sender : ReliableStreamState) : List Nat :=
  (s.sender.in_flight.keys.filter fun k => !sender.in_flight.contains k).map
    (lastNumbered s.submitted.length)

def recvAcknack (s : System) (i : Nat) : System :=
  match s.acknacks[i]? with
  | none => s
  | some m =>
    let sender := s.sender.recvAcknack m.acknack
    { s with sender, acked := s.acked ++ s.removed sender }

def step : StreamAction → System × Unit
  | .submit payload => (s.submit payload, ())
  | .send seq => (s.send seq, ())
  | .heartbeat now => (s.heartbeat now, ())
  | .recvData i => (s.recvData i, ())
  | .drain => (s.drain, ())
  | .recvHeartbeat i => (s.recvHeartbeat i, ())
  | .recvAcknack i => (s.recvAcknack i, ())

def Received (n : Nat) : Prop :=
  n < s.drained.length ∨ s.receiver.received.contains (serial n) = true

instance (s : System) (n : Nat) : Decidable (s.Received n) := inferInstanceAs (Decidable (_ ∨ _))

def InFlight (n : Nat) : Prop :=
  n < s.submitted.length ∧ s.submitted.length ≤ n + HALF_WINDOW ∧
    s.sender.in_flight.contains (serial n) = true

instance (s : System) (n : Nat) : Decidable (s.InFlight n) :=
  inferInstanceAs (Decidable (_ ∧ _ ∧ _))

def NotStale (number : Nat) : Prop := s.submitted.length < number + HALF_WINDOW

/-- The network delivers no data message and no ACKNACK that is more than `2^15 - 1` sequence
numbers stale; a HEARTBEAT may be of any age. -/
def Fresh : StreamAction → Prop
  | .recvData i => ∀ m ∈ s.data[i]?, s.NotStale m.number
  | .recvAcknack i => ∀ m ∈ s.acknacks[i]?, s.NotStale m.base
  | _ => True

/-- No missing sample in the window of an ACKNACK is younger than the HEARTBEAT it answers. -/
def Timely : StreamAction → Prop
  | .recvAcknack i => ∀ m ∈ s.acknacks[i]?,
      ∀ j < 16, s.InFlight (m.base + j) → m.hint < m.base + j → s.Received (m.base + j)
  | _ => True

instance (s : System) (number : Nat) : Decidable (s.NotStale number) :=
  inferInstanceAs (Decidable (_ < _))

instance (s : System) : (a : StreamAction) → Decidable (s.Fresh a)
  | .recvData i => inferInstanceAs (Decidable (∀ m ∈ s.data[i]?, s.NotStale m.number))
  | .recvAcknack i => inferInstanceAs (Decidable (∀ m ∈ s.acknacks[i]?, s.NotStale m.base))
  | .submit _ | .send _ | .heartbeat _ | .drain | .recvHeartbeat _ => .isTrue trivial

instance (s : System) : (a : StreamAction) → Decidable (s.Timely a)
  | .recvAcknack i =>
    inferInstanceAs (Decidable (∀ m ∈ s.acknacks[i]?, ∀ j < 16, s.InFlight (m.base + j) →
      m.hint < m.base + j → s.Received (m.base + j)))
  | .recvData _ | .submit _ | .send _ | .heartbeat _ | .drain | .recvHeartbeat _ => .isTrue trivial

/-! ### The joint invariant -/

structure Receiving (submitted drained : List Payload) (r : ReliableStreamState) : Prop where
  expected : r.expected_seq = serial drained.length
  in_order : drained <+: submitted
  near : submitted.length < drained.length + HALF_WINDOW
  buffered : ∀ k p, r.received.get? k = some p →
    ∃ n, k = serial n ∧ drained.length ≤ n ∧ submitted[n]? = some p

structure Sending (w : Nat) (s : System) : Prop where
  window : s.sender.config.sender_window = w
  numbered : s.sender.next_seq = serial s.submitted.length
  flight : ∀ k p, s.sender.in_flight.get? k = some p →
    ∃ n, k = serial n ∧ n < s.submitted.length ∧ s.submitted.length ≤ n + 16 + w ∧
      s.submitted[n]? = some p
  /-- An ACKNACK reaches at most 16 numbers past its base, which no sample in flight precedes. -/
  behind_flight : ∀ a, s.InFlight a →
    ∀ n, a + 16 ≤ n → n < s.submitted.length → s.InFlight n
  behind_drained : ∀ n, s.drained.length + 16 ≤ n → n < s.submitted.length → s.InFlight n
  near : s.submitted.length ≤ s.drained.length + 16 + w

structure Carried (s : System) : Prop where
  data : ∀ m ∈ s.data, m.seq = serial m.number ∧ s.submitted[m.number]? = some m.payload
  heartbeats : ∀ m ∈ s.heartbeats,
    m.heartbeat.last_unacked_seq_nr = serial m.last ∧ m.last < s.submitted.length
  acknacks : ∀ m ∈ s.acknacks,
    m.acknack.first_unacked_seq_num = serial m.base ∧ m.base ≤ s.drained.length ∧
      m.hint < s.submitted.length ∧
      ∀ i < 16, m.acknack.nack_bitmap.testBit i = false → m.base + i ≤ m.hint →
        s.Received (m.base + i)

structure Joint (w : Nat) (s : System) : Prop where
  sending : Sending w s
  receiving : Receiving s.submitted s.drained s.receiver
  carried : Carried s

theorem new_joint (stream_id : UInt8) (sending receiving : ReliableConfig) :
    Joint sending.sender_window (new stream_id sending receiving) := by
  have hnone : ∀ n, ¬ (new stream_id sending receiving).InFlight n := by
    intro n h
    exact absurd h.1 (Nat.not_lt_zero n)
  refine ⟨⟨rfl, rfl, nofun, fun a ha => absurd ha (hnone a), fun n _ hn => ?_, Nat.zero_le _⟩,
    ⟨rfl, List.prefix_refl _, by show 0 < 0 + HALF_WINDOW; decide, nofun⟩, ⟨nofun, nofun, nofun⟩⟩
  exact absurd hn (Nat.not_lt_zero n)

variable {w : Nat} {s : System}
  {n : Nat} {submitted drained : List Payload} {r : ReliableStreamState} {p : Payload}

theorem Sending.held (h : Sending w s) (hw : w + 16 < HALF_WINDOW) (hn : s.InFlight n) :
    ∃ p, s.sender.in_flight.get? (serial n) = some p ∧ s.submitted[n]? = some p ∧
      s.submitted.length ≤ n + 16 + w := by
  obtain ⟨hlt, hnear, hcontains⟩ := hn
  obtain ⟨p, hp⟩ := Option.isSome_iff_exists.mp hcontains
  obtain ⟨m, hserial, hm, hmnear, hpayload⟩ := h.flight _ _ hp
  simp only [HALF_WINDOW] at hw hnear
  have heq : n = m := serial_inj (by omega) (by omega) hserial
  subst heq
  exact ⟨p, hp, hpayload, hmnear⟩

theorem Sending.count_le {lo : Nat} (hall : ∀ n, lo ≤ n → n < s.submitted.length → s.InFlight n) :
    s.submitted.length ≤ lo + s.sender.in_flight.size := by
  have hinj : ∀ m n, lo ≤ m → m < s.submitted.length → lo ≤ n → n < s.submitted.length →
      serial m = serial n → m = n := by
    intro m n hm hm' hn hn' heq
    have hmnear := (hall m hm hm').2.1
    have hnnear := (hall n hn hn').2.1
    simp only [HALF_WINDOW] at hmnear hnnear
    exact serial_inj (by omega) (by omega) heq
  have hnodup : ((List.range' lo (s.submitted.length - lo)).map serial).Nodup := by
    refine List.Nodup.map_on ?_ List.nodup_range'
    intro m hm n hn heq
    rw [List.mem_range'_1] at hm hn
    exact hinj m n hm.1 (by omega) hn.1 (by omega) heq
  have hsub : (List.range' lo (s.submitted.length - lo)).map serial ⊆
      s.sender.in_flight.keys := by
    intro k hk
    obtain ⟨n, hn, rfl⟩ := List.mem_map.mp hk
    rw [List.mem_range'_1] at hn
    have hcontains := (hall n hn.1 (by omega)).2.2
    exact mem_keys.mpr (Option.isSome_iff_exists.mp hcontains)
  have hle := (List.subperm_of_subset hnodup hsub).length_le
  rw [List.length_map, List.length_range', ← size_eq_length_keys] at hle
  omega

theorem Receiving.sample (h : Receiving submitted drained r) (hn : drained.length ≤ n)
    (hlt : n < drained.length + HALF_WINDOW) (hget : r.received.get? (serial n) = some p) :
    submitted[n]? = some p := by
  obtain ⟨m, hserial, hm, hpayload⟩ := h.buffered _ _ hget
  have hmlt := (List.getElem?_eq_some_iff.mp hpayload).1
  have hnear := h.near
  simp only [HALF_WINDOW] at hlt hnear
  have heq : n = m := serial_inj (by omega) (by omega) hserial
  rw [heq]
  exact hpayload

/-! ### Messages over a step -/

theorem getElem?_append_of_some {more : List Payload} (h : submitted[n]? = some p) :
    (submitted ++ more)[n]? = some p := by
  rw [List.getElem?_append_left (List.getElem?_eq_some_iff.mp h).1]
  exact h

variable {s' : System}

theorem Carried.mono (h : Carried s) (hdata : s'.data = s.data)
    (hheartbeats : s'.heartbeats = s.heartbeats) (hacknacks : s'.acknacks = s.acknacks)
    (hsubmitted : s.submitted <+: s'.submitted) (hdrained : s.drained.length ≤ s'.drained.length)
    (hreceived : ∀ n < s.submitted.length, s.Received n → s'.Received n) : Carried s' := by
  obtain ⟨more, hmore⟩ := hsubmitted
  have hlen : s.submitted.length ≤ s'.submitted.length := by
    rw [← hmore, List.length_append]
    omega
  refine ⟨?_, ?_, ?_⟩
  · intro m hm
    rw [hdata] at hm
    obtain ⟨hseq, hpayload⟩ := h.data m hm
    refine ⟨hseq, ?_⟩
    rw [← hmore]
    exact getElem?_append_of_some hpayload
  · intro m hm
    rw [hheartbeats] at hm
    obtain ⟨hlast, hlt⟩ := h.heartbeats m hm
    exact ⟨hlast, by omega⟩
  · intro m hm
    rw [hacknacks] at hm
    obtain ⟨hbase, hle, hhint, hbits⟩ := h.acknacks m hm
    refine ⟨hbase, by omega, by omega, fun i hi hbit hin => ?_⟩
    exact hreceived _ (by omega) (hbits i hi hbit hin)

def withSample (s : System) (payload : Payload) : System :=
  { s with
    sender :=
      { s.sender with
        in_flight := s.sender.in_flight.insert s.sender.next_seq payload
        window_base :=
          if s.sender.in_flight.isEmpty then s.sender.next_seq else s.sender.window_base
        next_seq := next s.sender.next_seq }
    submitted := s.submitted ++ [payload] }

theorem submit_cases (s : System) (payload : Payload) :
    s.submit payload = s ∨
      s.sender.in_flight.size < s.sender.config.sender_window ∧
        s.submit payload = s.withSample payload := by
  unfold System.submit ReliableStreamState.submit
  by_cases hlarge : payload.length > RELIABLE_MAX_PAYLOAD
  · simp [hlarge]
  · by_cases hfull : s.sender.in_flight.size ≥ s.sender.config.sender_window
    · simp [hlarge, hfull]
    · right
      rw [if_neg hlarge, if_neg hfull]
      exact ⟨Nat.lt_of_not_le hfull, rfl⟩

theorem withSample_get? (hs : Sending w s) (payload : Payload) (k : Nat) :
    (s.withSample payload).sender.in_flight.get? k =
      if k = serial s.submitted.length then some payload else s.sender.in_flight.get? k := by
  rw [← hs.numbered]
  exact get?_insert _ _ _ _

theorem length_withSample (s : System) (payload : Payload) :
    (s.withSample payload).submitted.length = s.submitted.length + 1 := by
  simp [withSample]

section WithSample

variable (hs : Sending w s) (hw : w + 16 < HALF_WINDOW)
  (hsize : s.sender.in_flight.size < w) (payload : Payload)

include hsize

variable {lo : Nat}

theorem Sending.near_of_room (hall : ∀ n, lo ≤ n → n < s.submitted.length → s.InFlight n) :
    s.submitted.length + 1 ≤ lo + w := by
  have := count_le hall
  omega

include hs hw

theorem withSample_inFlight (n : Nat) :
    (s.withSample payload).InFlight n ↔ n = s.submitted.length ∨ s.InFlight n := by
  unfold InFlight SortedMap.contains
  rw [withSample_get? hs, length_withSample]
  constructor
  · rintro ⟨hlt, hnear, hcontains⟩
    by_cases hn : n = s.submitted.length
    · exact .inl hn
    · have hne : serial n ≠ serial s.submitted.length := by
        intro hserial
        simp only [HALF_WINDOW] at hnear
        exact hn (serial_inj (by omega) (by omega) hserial)
      rw [if_neg hne] at hcontains
      exact .inr ⟨by omega, by omega, hcontains⟩
  · rintro (rfl | hn)
    · refine ⟨by omega, by omega, ?_⟩
      rw [if_pos rfl]
      rfl
    · have hnear := Sending.near_of_room hsize (hs.behind_flight n hn)
      refine ⟨by omega, by omega, ?_⟩
      split
      · rfl
      · exact hn.2.2

theorem withSample_tail (hall : ∀ n, lo ≤ n → n < s.submitted.length → s.InFlight n) (n : Nat)
    (hlo : lo ≤ n) (hlt : n < (s.withSample payload).submitted.length) :
    (s.withSample payload).InFlight n := by
  rw [length_withSample] at hlt
  rw [withSample_inFlight hs hw hsize]
  by_cases hn : n = s.submitted.length
  · exact .inl hn
  · exact .inr (hall n hlo (by omega))

theorem withSample_sending : Sending w (s.withSample payload) := by
  have hlen := length_withSample s payload
  refine ⟨hs.window, ?_, ?_, ?_, withSample_tail hs hw hsize payload hs.behind_drained, ?_⟩
  · rw [hlen, ← next_serial, ← hs.numbered]
    rfl
  · intro k p hp
    rw [withSample_get? hs] at hp
    rw [hlen]
    split at hp
    · next hk =>
      cases hp
      refine ⟨s.submitted.length, hk, by omega, by omega, ?_⟩
      simp [withSample]
    · obtain ⟨n, hserial, hlt, hnear, hpayload⟩ := hs.flight k p hp
      have hin : s.InFlight n := by
        refine ⟨hlt, by omega, ?_⟩
        rw [← hserial]
        exact Option.isSome_iff_exists.mpr ⟨p, hp⟩
      have hroom := Sending.near_of_room hsize (hs.behind_flight n hin)
      exact ⟨n, hserial, by omega, hroom, getElem?_append_of_some hpayload⟩
  · intro a ha n hlo hlt
    rcases (withSample_inFlight hs hw hsize payload a).mp ha with rfl | ha'
    · omega
    · exact withSample_tail hs hw hsize payload (hs.behind_flight a ha') n hlo hlt
  · rw [hlen]
    exact Sending.near_of_room hsize hs.behind_drained

end WithSample

theorem submit_joint (h : Joint w s) (hw : w + 16 < HALF_WINDOW) (payload : Payload) :
    Joint w (s.submit payload) := by
  rcases submit_cases s payload with heq | ⟨hsize, heq⟩
  · rw [heq]
    exact h
  · obtain ⟨hs, hr, hc⟩ := h
    rw [hs.window] at hsize
    rw [heq]
    refine ⟨withSample_sending hs hw hsize payload, ⟨hr.expected, ?_, ?_, ?_⟩, ?_⟩
    · exact hr.in_order.trans (List.prefix_append _ _)
    · have hnear := Sending.near_of_room hsize hs.behind_drained
      rw [length_withSample]
      show s.submitted.length + 1 < s.drained.length + HALF_WINDOW
      omega
    · intro k p hp
      obtain ⟨n, hserial, hle, hpayload⟩ := hr.buffered k p hp
      exact ⟨n, hserial, hle, getElem?_append_of_some hpayload⟩
    · exact hc.mono rfl rfl rfl (List.prefix_append _ _) (Nat.le_refl _) fun n _ hn => hn

theorem send_joint (h : Joint w s) (hw : w + 16 < HALF_WINDOW) (seq : Nat) :
    Joint w (s.send seq) := by
  unfold System.send ReliableStreamState.getInFlight
  split
  · exact h
  · next payload hget =>
    obtain ⟨hs, hr, hc⟩ := h
    obtain ⟨n, hserial, hlt, hnear, hpayload⟩ := hs.flight seq payload hget
    simp only [HALF_WINDOW] at hw
    have hnumber : lastNumbered s.submitted.length seq = n := by
      rw [hserial]
      exact lastNumbered_serial hlt (by omega)
    refine ⟨⟨hs.window, hs.numbered, hs.flight, hs.behind_flight, hs.behind_drained, hs.near⟩,
      ⟨hr.expected, hr.in_order, hr.near, hr.buffered⟩, ⟨?_, hc.heartbeats, hc.acknacks⟩⟩
    intro m hm
    rcases List.mem_append.mp hm with hm | hm
    · exact hc.data m hm
    · rw [List.mem_singleton] at hm
      subst hm
      rw [hnumber]
      exact ⟨hserial, hpayload⟩

theorem reduceKeys_mem {pick : Nat → Nat → Nat} (hpick : ∀ a b, pick a b = a ∨ pick a b = b)
    {ks : List Nat} {k : Nat} (h : ReliableStreamState.reduceKeys pick ks = some k) : k ∈ ks := by
  have hfold : ∀ (rest : List Nat) (a : Nat), rest.foldl pick a ∈ a :: rest := by
    intro rest
    induction rest with
    | nil => intro a; exact List.mem_singleton.mpr rfl
    | cons b rest ih =>
      intro a
      rw [List.foldl_cons]
      have hmem := ih (pick a b)
      rcases List.mem_cons.mp hmem with heq | hmem
      · rw [heq]
        rcases hpick a b with hp | hp <;> rw [hp] <;> simp
      · exact List.mem_cons_of_mem _ (List.mem_cons_of_mem _ hmem)
  cases ks with
  | nil => cases h
  | cons a rest =>
    simp only [ReliableStreamState.reduceKeys, Option.some.injEq] at h
    rw [← h]
    exact hfold rest a

theorem pendingHeartbeat_spec (st : ReliableStreamState) (now : Nat) :
    (∃ last, (st.pendingHeartbeat now).2 = { st with last_heartbeat := last }) ∧
      ∀ hb, (st.pendingHeartbeat now).1 = some hb →
        hb.last_unacked_seq_nr ∈ st.in_flight.keys := by
  have hmax : ∀ k, st.serialMaxInFlight = some k → k ∈ st.in_flight.keys := by
    intro k hk
    refine reduceKeys_mem ?_ hk
    intro a b
    split
    · exact .inr rfl
    · exact .inl rfl
  unfold ReliableStreamState.pendingHeartbeat
  split
  · exact ⟨⟨st.last_heartbeat, rfl⟩, by simp⟩
  · split
    · exact ⟨⟨st.last_heartbeat, rfl⟩, by simp⟩
    · refine ⟨⟨some now, rfl⟩, ?_⟩
      intro hb hhb
      obtain ⟨last, hlast, hpayload⟩ := Option.map_eq_some_iff.mp hhb
      rw [← hpayload]
      exact hmax last hlast

theorem heartbeat_joint (h : Joint w s) (hw : w + 16 < HALF_WINDOW) (now : Nat) :
    Joint w (s.heartbeat now) := by
  obtain ⟨⟨last, hsender⟩, hlast⟩ := pendingHeartbeat_spec s.sender now
  obtain ⟨hs, hr, hc⟩ := h
  have hsending : Sending w { s with sender := { s.sender with last_heartbeat := last } } :=
    ⟨hs.window, hs.numbered, hs.flight, hs.behind_flight, hs.behind_drained, hs.near⟩
  unfold System.heartbeat
  cases hpending : s.sender.pendingHeartbeat now with
  | mk heartbeat sender =>
    rw [hpending] at hsender hlast
    subst hsender
    cases heartbeat with
    | none =>
      exact ⟨hsending, ⟨hr.expected, hr.in_order, hr.near, hr.buffered⟩,
        ⟨hc.data, hc.heartbeats, hc.acknacks⟩⟩
    | some hb =>
      obtain ⟨payload, hget⟩ := mem_keys.mp (hlast hb rfl)
      obtain ⟨n, hserial, hlt, hnear, -⟩ := hs.flight _ _ hget
      simp only [HALF_WINDOW] at hw
      have hnumber : lastNumbered s.submitted.length hb.last_unacked_seq_nr = n := by
        rw [hserial]
        exact lastNumbered_serial hlt (by omega)
      refine ⟨⟨hs.window, hs.numbered, hs.flight, hs.behind_flight, hs.behind_drained, hs.near⟩,
        ⟨hr.expected, hr.in_order, hr.near, hr.buffered⟩, ⟨hc.data, ?_, hc.acknacks⟩⟩
      intro m hm
      rcases List.mem_append.mp hm with hm | hm
      · exact hc.heartbeats m hm
      · rw [List.mem_singleton] at hm
        subst hm
        rw [hnumber]
        exact ⟨hserial, hlt⟩

variable {m : AckNackMessage}

theorem acknowledges_iff (hs : Sending w s) (hw : w + 16 < HALF_WINDOW)
    (hbase : m.acknack.first_unacked_seq_num = serial m.base) (hle : m.base ≤ s.submitted.length)
    (hfresh : s.NotStale m.base) (hn : s.InFlight n) :
    ReliableStreamState.Acknowledges m.acknack (serial n) ↔
      n < m.base ∨ ∃ i < 16, m.acknack.nack_bitmap.testBit i = false ∧ n = m.base + i := by
  obtain ⟨-, -, -, hnear⟩ := hs.held hw hn
  have hlt := hn.1
  simp only [NotStale] at hfresh
  exact acknowledges_serial hbase (by omega) (by omega)

variable {i : Nat}

theorem recvAcknack_inFlight (s : System) (hm : s.acknacks[i]? = some m) (n : Nat) :
    (s.recvAcknack i).InFlight n ↔
      s.InFlight n ∧ ¬ ReliableStreamState.Acknowledges m.acknack (serial n) := by
  have heq : s.recvAcknack i =
      { s with
        sender := s.sender.recvAcknack m.acknack
        acked := s.acked ++ s.removed (s.sender.recvAcknack m.acknack) } := by
    unfold System.recvAcknack
    rw [hm]
  rw [heq]
  unfold InFlight SortedMap.contains
  simp only [Option.isSome_iff_exists, recvAcknack_get?]
  tauto

theorem recvAcknack_joint (h : Joint w s) (hw : w + 16 < HALF_WINDOW)
    (hfresh : s.Fresh (.recvAcknack i)) : Joint w (s.recvAcknack i) := by
  cases hm : s.acknacks[i]? with
  | none =>
    unfold System.recvAcknack
    rw [hm]
    exact h
  | some m =>
    obtain ⟨hs, hr, hc⟩ := h
    obtain ⟨hbase, hle, -, -⟩ := hc.acknacks m (List.mem_of_getElem? hm)
    have hdrained := hr.in_order.length_le
    have hacks := fun n hn =>
      acknowledges_iff (n := n) hs hw hbase (by omega) (hfresh m hm) hn
    have hin := recvAcknack_inFlight s hm
    -- A sample 16 or more past the base stays.
    have hstays : ∀ n, s.InFlight n → m.base + 16 ≤ n → (s.recvAcknack i).InFlight n := by
      intro n hn hfar
      refine (hin n).mpr ⟨hn, ?_⟩
      rw [hacks n hn]
      rintro (hlt | ⟨j, hj, -, heq⟩) <;> omega
    have heq : s.recvAcknack i =
        { s with
          sender := s.sender.recvAcknack m.acknack
          acked := s.acked ++ s.removed (s.sender.recvAcknack m.acknack) } := by
      unfold System.recvAcknack
      rw [hm]
    have hsub : (s.recvAcknack i).submitted = s.submitted := by rw [heq]
    have hdr : (s.recvAcknack i).drained = s.drained := by rw [heq]
    refine ⟨⟨?_, ?_, ?_, ?_, ?_, ?_⟩, ?_, ?_⟩
    · rw [heq]
      simpa using hs.window
    · rw [heq]
      simpa using hs.numbered
    · intro k p hp
      rw [heq] at hp ⊢
      exact hs.flight k p ((recvAcknack_get? _ _ k p).mp hp).1
    · intro a ha n hlo hlt
      rw [hsub] at hlt
      obtain ⟨ha, hnot⟩ := (hin a).mp ha
      rw [hacks a ha] at hnot
      exact hstays n (hs.behind_flight a ha n hlo hlt) (by omega)
    · intro n hlo hlt
      rw [hsub] at hlt
      rw [hdr] at hlo
      exact hstays n (hs.behind_drained n hlo hlt) (by omega)
    · rw [hsub, hdr]
      exact hs.near
    · rw [heq]
      exact hr
    · rw [heq]
      exact hc.mono rfl rfl rfl (List.prefix_refl _) (Nat.le_refl _) fun n _ hn => hn

theorem Joint.of_receiver (h : Joint w s) {receiver : ReliableStreamState}
    (hr : Receiving s.submitted s.drained receiver)
    (hkeeps : ∀ k, s.receiver.received.contains k = true → receiver.received.contains k = true) :
    Joint w { s with receiver } := by
  obtain ⟨hs, -, hc⟩ := h
  refine ⟨⟨hs.window, hs.numbered, hs.flight, hs.behind_flight, hs.behind_drained, hs.near⟩,
    hr, hc.mono rfl rfl rfl (List.prefix_refl _) (Nat.le_refl _) ?_⟩
  rintro n - (hlt | hcontains)
  · exact .inl hlt
  · exact .inr (hkeeps _ hcontains)

theorem recvData_cases (st : ReliableStreamState) (seq : Nat) (payload : Payload) :
    (∃ err, st.recvData seq payload = .error err) ∨ st.recvData seq payload = .ok st ∨
      wrappingLt seq st.expected_seq = false ∧
        st.recvData seq payload = .ok { st with received := st.received.insert seq payload } := by
  unfold ReliableStreamState.recvData
  cases hlt : wrappingLt seq st.expected_seq
  · simp only [Bool.false_eq_true, if_false]
    split
    · exact .inr (.inl rfl)
    · split
      · exact .inl ⟨_, rfl⟩
      · exact .inr (.inr ⟨trivial, rfl⟩)
  · exact .inr (.inl rfl)

theorem recvData_outcome (s : System) (i : Nat) :
    s.recvData i = s ∨
      ∃ m, s.data[i]? = some m ∧ wrappingLt m.seq s.receiver.expected_seq = false ∧
        s.recvData i = { s with receiver := { s.receiver with
          received := s.receiver.received.insert m.seq m.payload } } := by
  have hcases := recvData_cases s.receiver
  unfold System.recvData
  generalize s.receiver.recvData = recv at hcases ⊢
  cases s.data[i]? with
  | none => exact .inl rfl
  | some m =>
    rcases hcases m.seq m.payload with ⟨err, heq⟩ | heq | ⟨hlt, heq⟩
    · exact .inl (by simp only [heq])
    · exact .inl (by simp only [heq])
    · exact .inr ⟨m, rfl, hlt, by simp only [heq]⟩

theorem recvData_joint (h : Joint w s) (hfresh : s.Fresh (.recvData i)) :
    Joint w (s.recvData i) := by
  rcases s.recvData_outcome i with heq | ⟨m, hm, hlt, heq⟩
  · rw [heq]
    exact h
  · have hr := h.receiving
    obtain ⟨hseq, hpayload⟩ := h.carried.data m (List.mem_of_getElem? hm)
    have hstale : s.NotStale m.number := hfresh m hm
    rw [heq]
    have hle : s.drained.length ≤ m.number := by
      refine Nat.le_of_not_lt fun hbefore => ?_
      have hnear := hr.in_order.length_le
      unfold NotStale at hstale
      rw [hr.expected, hseq, wrappingLt_of_lt hbefore (by omega)] at hlt
      cases hlt
    refine h.of_receiver ⟨hr.expected, hr.in_order, hr.near, ?_⟩ ?_
    · intro k p hp
      rw [get?_insert] at hp
      split at hp
      · next hk =>
        cases hp
        exact ⟨m.number, hk.trans hseq, hle, hpayload⟩
      · exact hr.buffered k p hp
    · intro k hk
      show ((s.receiver.received.insert m.seq m.payload).get? k).isSome = true
      rw [get?_insert]
      split
      · rfl
      · exact hk

theorem Receiving.popExpected (h : Receiving submitted drained r)
    (hget : r.received.get? r.expected_seq = some p) :
    Receiving submitted (drained ++ [p]) r.popExpected := by
  rw [h.expected] at hget
  have hnear := h.near
  have hsample : submitted[drained.length]? = some p :=
    h.sample (Nat.le_refl _) (by simp only [HALF_WINDOW]; omega) hget
  have hlen : (drained ++ [p]).length = drained.length + 1 := by simp
  refine ⟨?_, ?_, ?_, ?_⟩
  · rw [hlen, ← next_serial, ← h.expected]
    rfl
  · have htake : drained = submitted.take drained.length := List.prefix_iff_eq_take.mp h.in_order
    have hnext : drained ++ [p] = submitted.take (drained.length + 1) := by
      rw [List.take_add_one, ← htake, hsample]
      rfl
    rw [hnext]
    exact List.take_prefix _ _
  · omega
  · intro k q hq
    unfold ReliableStreamState.popExpected at hq
    rw [get?_erase] at hq
    split at hq
    · cases hq
    · next hne =>
      obtain ⟨n, hserial, hle, hpayload⟩ := h.buffered k q hq
      refine ⟨n, hserial, ?_, hpayload⟩
      have hn : n ≠ drained.length := by
        rintro rfl
        exact hne (hserial.trans h.expected.symm)
      omega

def Has (drained : List Payload) (r : ReliableStreamState) (n : Nat) : Prop :=
  n < drained.length ∨ r.received.contains (serial n) = true

theorem Receiving.has_popExpected (h : Receiving submitted drained r) (hn : n < submitted.length)
    (hhas : Has drained r n) : Has (drained ++ [p]) r.popExpected n := by
  unfold Has at hhas ⊢
  rw [List.length_append, List.length_singleton]
  by_cases heq : n = drained.length
  · exact .inl (by omega)
  · rcases hhas with hlt | hcontains
    · exact .inl (by omega)
    · by_cases hlt : n < drained.length
      · exact .inl (by omega)
      · right
        have hnear := h.near
        simp only [HALF_WINDOW] at hnear
        have hne : serial n ≠ r.expected_seq := by
          rw [h.expected]
          intro hserial
          exact heq (serial_inj (by omega) (by omega) hserial)
        unfold ReliableStreamState.popExpected SortedMap.contains
        rw [get?_erase, if_neg hne]
        exact hcontains

theorem drainInOrder_spec (h : Receiving submitted drained r) :
    Receiving submitted (drained ++ r.drainInOrder.1.map Prod.snd) r.drainInOrder.2 ∧
      ∀ n < submitted.length, Has drained r n →
        Has (drained ++ r.drainInOrder.1.map Prod.snd) r.drainInOrder.2 n := by
  fun_induction ReliableStreamState.drainInOrder r generalizing drained with
  | case1 r hnone =>
    simp only [List.map_nil, List.append_nil]
    exact ⟨h, fun n _ hn => hn⟩
  | case2 r payload hget out r' heq ih =>
    rw [heq] at ih
    obtain ⟨hreceiving, hhas⟩ := ih (h.popExpected hget)
    rw [List.append_assoc] at hreceiving
    refine ⟨hreceiving, fun n hn hbefore => ?_⟩
    have hafter := hhas n hn (h.has_popExpected hn hbefore)
    rw [List.append_assoc] at hafter
    exact hafter

theorem drain_joint (h : Joint w s) :
    Joint w s.drain ∧ ∀ n < s.submitted.length, s.Received n → s.drain.Received n := by
  obtain ⟨hs, hr, hc⟩ := h
  obtain ⟨hreceiving, hhas⟩ := drainInOrder_spec hr
  have hlen : s.drained.length ≤ s.drain.drained.length := by
    show s.drained.length ≤ (s.drained ++ s.receiver.drainInOrder.1.map Prod.snd).length
    rw [List.length_append]
    omega
  refine ⟨⟨⟨hs.window, hs.numbered, hs.flight, hs.behind_flight, ?_, ?_⟩, hreceiving, ?_⟩, hhas⟩
  · intro n hlo hlt
    exact hs.behind_drained n (by omega) hlt
  · have := hs.near
    show s.submitted.length ≤ s.drain.drained.length + 16 + w
    omega
  · exact hc.mono rfl rfl rfl (List.prefix_refl _) hlen hhas

theorem recvHeartbeat_joint (h : Joint w s) (i : Nat) : Joint w (s.recvHeartbeat i) := by
  cases hm : s.heartbeats[i]? with
  | none =>
    unfold System.recvHeartbeat
    rw [hm]
    exact h
  | some m =>
    obtain ⟨hs, hr, hc⟩ := h
    obtain ⟨hlast, hlt⟩ := hc.heartbeats m (List.mem_of_getElem? hm)
    unfold System.recvHeartbeat
    rw [hm]
    refine ⟨⟨hs.window, hs.numbered, hs.flight, hs.behind_flight, hs.behind_drained, hs.near⟩,
      ⟨hr.expected, hr.in_order, hr.near, hr.buffered⟩, ⟨hc.data, hc.heartbeats, ?_⟩⟩
    intro a ha
    rcases List.mem_append.mp ha with ha | ha
    · exact hc.acknacks a ha
    · rw [List.mem_singleton] at ha
      subst ha
      refine ⟨hr.expected, Nat.le_refl _, hlt, fun j hj hbit hin => ?_⟩
      have hgt : wrappingGt (serial (s.drained.length + j)) m.heartbeat.last_unacked_seq_nr =
          false := by
        have hnear := hr.near
        rw [hlast]
        exact wrappingLt_of_le hin (by omega)
      rw [testBit_pendingAcknack _ _ hj,
        slotMissing_eq _ hr.expected, hgt] at hbit
      refine .inr ?_
      simpa using hbit

theorem step_joint (h : Joint w s) (hw : w + 16 < HALF_WINDOW) (a : StreamAction)
    (hfresh : s.Fresh a) : Joint w (s.step a).1 := by
  cases a with
  | submit payload => exact submit_joint h hw payload
  | send seq => exact send_joint h hw seq
  | heartbeat now => exact heartbeat_joint h hw now
  | recvData i => exact recvData_joint h hfresh
  | drain => exact (drain_joint h).1
  | recvHeartbeat i => exact recvHeartbeat_joint h i
  | recvAcknack i => exact recvAcknack_joint h hw hfresh

/-! ### Nothing is lost -/

/-- What an ACKNACK removed has been received, and what has not can still be sent again. -/
structure Kept (s : System) : Prop where
  acked : ∀ n ∈ s.acked, n < s.submitted.length ∧ s.Received n
  held : ∀ n < s.submitted.length, s.Received n ∨ s.InFlight n

theorem Kept.mono (h : Kept s) (hacked : s'.acked = s.acked)
    (hlen : s.submitted.length = s'.submitted.length)
    (hreceived : ∀ n < s.submitted.length, s.Received n → s'.Received n)
    (hflight : ∀ n, s.InFlight n → s'.InFlight n) : Kept s' := by
  refine ⟨?_, ?_⟩
  · intro n hn
    rw [hacked] at hn
    obtain ⟨hlt, hrec⟩ := h.acked n hn
    exact ⟨hlen ▸ hlt, hreceived n hlt hrec⟩
  · intro n hn
    rw [← hlen] at hn
    rcases h.held n hn with hrec | hin
    · exact .inl (hreceived n hn hrec)
    · exact .inr (hflight n hin)

theorem submit_kept (h : Joint w s) (hw : w + 16 < HALF_WINDOW) (hk : Kept s) (payload : Payload) :
    Kept (s.submit payload) := by
  rcases submit_cases s payload with heq | ⟨hsize, heq⟩
  · rw [heq]
    exact hk
  · rw [h.sending.window] at hsize
    rw [heq]
    have hin := withSample_inFlight h.sending hw hsize payload
    refine ⟨?_, ?_⟩
    · intro n hn
      obtain ⟨hlt, hrec⟩ := hk.acked n hn
      rw [length_withSample]
      exact ⟨by omega, hrec⟩
    · intro n hn
      rw [length_withSample] at hn
      rw [hin]
      by_cases heq' : n = s.submitted.length
      · exact .inr (.inl heq')
      · rcases hk.held n (by omega) with hrec | hfl
        · exact .inl hrec
        · exact .inr (.inr hfl)

theorem recvData_received (s : System) (i n : Nat) (h : s.Received n) :
    (s.recvData i).Received n := by
  rcases s.recvData_outcome i with heq | ⟨m, -, -, heq⟩
  · rw [heq]
    exact h
  · rw [heq]
    rcases h with hlt | hcontains
    · exact .inl hlt
    · right
      show ((s.receiver.received.insert m.seq m.payload).get? (serial n)).isSome = true
      rw [get?_insert]
      split
      · rfl
      · exact hcontains

theorem recvData_rest (s : System) (i : Nat) : ∃ receiver, s.recvData i = { s with receiver } := by
  rcases s.recvData_outcome i with heq | ⟨m, -, -, heq⟩
  · exact ⟨s.receiver, heq⟩
  · exact ⟨_, heq⟩

theorem heartbeat_rest (s : System) (now : Nat) :
    ∃ last heartbeats, s.heartbeat now =
      { s with sender := { s.sender with last_heartbeat := last }, heartbeats } := by
  obtain ⟨⟨last, hsender⟩, -⟩ := pendingHeartbeat_spec s.sender now
  unfold System.heartbeat
  cases hpending : s.sender.pendingHeartbeat now with
  | mk heartbeat sender =>
    rw [hpending] at hsender
    subst hsender
    cases heartbeat with
    | none => exact ⟨last, s.heartbeats, rfl⟩
    | some hb => exact ⟨last, _, rfl⟩

theorem recvAcknack_kept (h : Joint w s) (hw : w + 16 < HALF_WINDOW) (hk : Kept s)
    (hfresh : s.Fresh (.recvAcknack i)) (htimely : s.Timely (.recvAcknack i)) :
    Kept (s.recvAcknack i) := by
  cases hm : s.acknacks[i]? with
  | none =>
    unfold System.recvAcknack
    rw [hm]
    exact hk
  | some m =>
    obtain ⟨hs, hr, hc⟩ := h
    obtain ⟨hbase, hle, -, hbits⟩ := hc.acknacks m (List.mem_of_getElem? hm)
    have hdrained := hr.in_order.length_le
    have hin := recvAcknack_inFlight s hm
    have hacknowledged : ∀ n, s.InFlight n →
        ReliableStreamState.Acknowledges m.acknack (serial n) → s.Received n := by
      intro n hn hack
      rw [acknowledges_iff hs hw hbase (by omega) (hfresh m hm) hn] at hack
      rcases hack with hlt | ⟨j, hj, hbit, rfl⟩
      · exact .inl (by omega)
      · by_cases hhint : m.base + j ≤ m.hint
        · exact hbits j hj hbit hhint
        · exact htimely m hm j hj hn (by omega)
    have heq : s.recvAcknack i =
        { s with
          sender := s.sender.recvAcknack m.acknack
          acked := s.acked ++ s.removed (s.sender.recvAcknack m.acknack) } := by
      unfold System.recvAcknack
      rw [hm]
    have hrec : ∀ n, (s.recvAcknack i).Received n ↔ s.Received n := by
      intro n
      rw [heq]
      exact Iff.rfl
    have hsub : (s.recvAcknack i).submitted = s.submitted := by rw [heq]
    refine ⟨?_, ?_⟩
    · intro n hn
      rw [hsub, hrec]
      rw [heq] at hn
      rcases List.mem_append.mp hn with hn | hn
      · exact hk.acked n hn
      · obtain ⟨k, hk', rfl⟩ := List.mem_map.mp hn
        obtain ⟨hkey, hgone⟩ := List.mem_filter.mp hk'
        obtain ⟨p, hp⟩ := mem_keys.mp hkey
        obtain ⟨n, rfl, hlt, hnear, -⟩ := hs.flight k p hp
        simp only [HALF_WINDOW] at hw
        rw [lastNumbered_serial hlt (by omega)]
        have hflight : s.InFlight n :=
          ⟨hlt, by simp only [HALF_WINDOW]; omega, Option.isSome_iff_exists.mpr ⟨p, hp⟩⟩
        refine ⟨hlt, hacknowledged n hflight ?_⟩
        by_contra hnot
        have hstill := (recvAcknack_get? s.sender m.acknack _ p).mpr
          ⟨hp, hnot⟩
        simp [SortedMap.contains, hstill] at hgone
    · intro n hn
      rw [hsub] at hn
      rw [hrec, hin]
      rcases hk.held n hn with hr' | hflight
      · exact .inl hr'
      · by_cases hack : ReliableStreamState.Acknowledges m.acknack (serial n)
        · exact .inl (hacknowledged n hflight hack)
        · exact .inr ⟨hflight, hack⟩

theorem step_kept (h : Joint w s) (hw : w + 16 < HALF_WINDOW) (hk : Kept s) (a : StreamAction)
    (hfresh : s.Fresh a) (htimely : s.Timely a) : Kept (s.step a).1 := by
  cases a with
  | submit payload => exact submit_kept h hw hk payload
  | send seq =>
    show Kept (s.send seq)
    unfold System.send
    split
    · exact hk
    · exact hk.mono rfl rfl (fun n _ hn => hn) fun n hn => hn
  | heartbeat now =>
    show Kept (s.heartbeat now)
    obtain ⟨last, heartbeats, heq⟩ := heartbeat_rest s now
    rw [heq]
    exact hk.mono rfl rfl (fun n _ hn => hn) fun n hn => hn
  | recvData i =>
    show Kept (s.recvData i)
    have hreceived := recvData_received s i
    obtain ⟨receiver, heq⟩ := recvData_rest s i
    rw [heq] at hreceived ⊢
    exact hk.mono rfl rfl (fun n _ hn => hreceived n hn) fun n hn => hn
  | drain => exact hk.mono rfl rfl (drain_joint h).2 fun n hn => hn
  | recvHeartbeat i =>
    show Kept (s.recvHeartbeat i)
    unfold System.recvHeartbeat
    split
    · exact hk
    · exact hk.mono rfl rfl (fun n _ hn => hn) fun n hn => hn
  | recvAcknack i => exact recvAcknack_kept h hw hk hfresh htimely

def FreshAndTimely (s : System) (a : StreamAction) : Prop := s.Fresh a ∧ s.Timely a

instance (s : System) (a : StreamAction) : Decidable (s.FreshAndTimely a) :=
  inferInstanceAs (Decidable (_ ∧ _))

variable {stream_id : UInt8} {sending receiving : ReliableConfig} {h : History StreamAction Unit}

theorem reaches_joint (hwindow : sending.sender_window + 16 < HALF_WINDOW)
    (hr : Reaches step Fresh (new stream_id sending receiving) h s) :
    Joint sending.sender_window s := by
  refine Reaches.invariant (P := fun _ s => Joint sending.sender_window s)
    (new_joint stream_id sending receiving) ?_ hr
  intro _ s a hj hfresh
  exact step_joint hj hwindow a hfresh

theorem reaches_kept (hwindow : sending.sender_window + 16 < HALF_WINDOW)
    (hr : Reaches step FreshAndTimely (new stream_id sending receiving) h s) :
    Joint sending.sender_window s ∧ Kept s := by
  refine Reaches.invariant (P := fun _ s => Joint sending.sender_window s ∧ Kept s)
    ⟨new_joint stream_id sending receiving, ?_, ?_⟩ ?_ hr
  · intro n hn
    cases hn
  · intro n hn
    exact absurd hn (Nat.not_lt_zero n)
  · rintro _ s a ⟨hj, hk⟩ ⟨hfresh, htimely⟩
    exact ⟨step_joint hj hwindow a hfresh, step_kept hj hwindow hk a hfresh htimely⟩

/-- In every run over a network that delivers nothing too stale, what is drained is a prefix of
what was submitted.  In every such run whose ACKNACKs are timely, each sample an ACKNACK removed
has been received, and each sample that has not arrived can be sent again. -/
theorem nothing_lost (stream_id : UInt8) (sending receiving : ReliableConfig)
    (hwindow : sending.sender_window + 16 < HALF_WINDOW) (h : History StreamAction Unit)
    (s : System) :
    (Reaches step Fresh (new stream_id sending receiving) h s → s.drained <+: s.submitted) ∧
    (Reaches step FreshAndTimely (new stream_id sending receiving) h s →
      s.drained <+: s.submitted ∧ (∀ n ∈ s.acked, s.Received n) ∧
      ∀ n p, s.submitted[n]? = some p →
        s.Received n ∨ s.sender.getInFlight (serial n) = some p) := by
  refine ⟨fun hr => (reaches_joint hwindow hr).receiving.in_order, fun hr => ?_⟩
  obtain ⟨hj, hk⟩ := reaches_kept hwindow hr
  refine ⟨hj.receiving.in_order, fun n hn => (hk.acked n hn).2, fun n p hp => ?_⟩
  rcases hk.held n (List.getElem?_eq_some_iff.mp hp).1 with hrec | hin
  · exact .inl hrec
  · obtain ⟨q, hget, hq, -⟩ := hj.sending.held hwindow hin
    rw [hp, Option.some.injEq] at hq
    subst hq
    exact .inr hget

def recovery : List StreamAction :=
  [.submit [1], .submit [2], .send 1, .recvData 0, .heartbeat 0, .recvHeartbeat 0,
    .recvAcknack 0, .send 0, .recvData 1, .drain]

theorem nothing_lost_in_recovery :
    (run step (new 128 {} {}) recovery).1.drained = [[1], [2]] ∧
      (run step (new 128 {} {}) recovery).1.acked = [1] ∧
      ∀ n ∈ (run step (new 128 {} {}) recovery).1.acked,
        (run step (new 128 {} {}) recovery).1.Received n := by
  have hok : RunOk step FreshAndTimely (new 128 {} {}) recovery := by decide +kernel
  refine ⟨by decide +kernel, by decide +kernel, ?_⟩
  exact ((nothing_lost 128 {} {} (by decide) _ _).2 (reaches_run hok)).2.1

/-- A second sample is submitted between the HEARTBEAT and its ACKNACK and lost on the way. -/
def lateSubmit : List StreamAction :=
  [.submit [1], .heartbeat 0, .submit [2], .send 1, .recvHeartbeat 0, .recvAcknack 0]

/-- The ACKNACK removes the second sample, which the receiver never saw: the sender cannot send it
again. -/
theorem late_sample_dropped :
    RunOk step Fresh (new 128 {} {}) lateSubmit ∧
      1 ∈ (run step (new 128 {} {}) lateSubmit).1.acked ∧
      ¬ (run step (new 128 {} {}) lateSubmit).1.Received 1 ∧
      (run step (new 128 {} {}) lateSubmit).1.sender.getInFlight 1 = none := by
  decide +kernel

end System

end ZeroDds.Xrce
