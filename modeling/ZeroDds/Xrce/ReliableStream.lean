/-
One end of a reliable XRCE stream.

The sender half keeps what it submitted until it is acknowledged; the receiver half buffers what
arrives out of order and hands it out in order.
-/
import ZeroDds.Lib.SortedMap
import ZeroDds.Xrce.SerialNumber

namespace ZeroDds.Xrce

open SerialNumber16

abbrev Payload := List UInt8

def RELIABLE_MAX_PAYLOAD : Nat := 65535

inductive XrceError where
  | payloadTooLarge (limit actual : Nat)
  | valueOutOfRange (message : String)
deriving Repr, DecidableEq

structure ReliableConfig where
  heartbeat_period : Nat := 500000000
  sender_window : Nat := 16
  receiver_buffer : Nat := 64
deriving Repr, DecidableEq

structure HeartbeatPayload where
  first_unacked_seq_nr : Nat
  last_unacked_seq_nr : Nat
  stream_id : UInt8
deriving Repr, DecidableEq

structure AckNackPayload where
  first_unacked_seq_num : Nat
  nack_bitmap : Nat
  stream_id : UInt8
deriving Repr, DecidableEq

structure ReliableStreamState where
  stream_id : UInt8
  config : ReliableConfig
  next_seq : Nat
  in_flight : SortedMap Nat Payload
  window_base : Nat
  last_heartbeat : Option Nat
  expected_seq : Nat
  received : SortedMap Nat Payload

namespace ReliableStreamState

def new (stream_id : UInt8) (config : ReliableConfig) : ReliableStreamState :=
  { stream_id, config
    next_seq := 0
    in_flight := .empty
    window_base := 0
    last_heartbeat := none
    expected_seq := 0
    received := .empty }

variable (st : ReliableStreamState)

def submit (payload : Payload) : Except XrceError (Nat × ReliableStreamState) :=
  if payload.length > RELIABLE_MAX_PAYLOAD then
    .error (.payloadTooLarge RELIABLE_MAX_PAYLOAD payload.length)
  else if st.in_flight.size ≥ st.config.sender_window then
    .error (.valueOutOfRange "reliable sender window full")
  else
    let seq := st.next_seq
    .ok (seq,
      { st with
        in_flight := st.in_flight.insert seq payload
        window_base := if st.in_flight.isEmpty then seq else st.window_base
        next_seq := next seq })

def getInFlight (seq : Nat) : Option Payload :=
  st.in_flight.get? seq

def highestAcked : Option Nat :=
  let sent_any := st.next_seq != 0 || !st.in_flight.isEmpty
  if !sent_any then none
  else
    let first_unacked := if st.in_flight.isEmpty then st.next_seq else st.window_base
    let before := wrappingSub first_unacked 1
    if st.in_flight.contains 0 && first_unacked == 0 then none else some before

def reduceKeys (pick : Nat → Nat → Nat) :
    List Nat → Option Nat
  | [] => none
  | k :: ks => some (ks.foldl pick k)

def serialMinInFlight : Option Nat :=
  reduceKeys (fun a b => if wrappingLt b a then b else a) st.in_flight.keys

def serialMaxInFlight : Option Nat :=
  reduceKeys (fun a b => if wrappingGt b a then b else a) st.in_flight.keys

def heartbeatDue (now : Nat) : Bool :=
  match st.last_heartbeat with
  | none => true
  | some t => decide (now - t ≥ st.config.heartbeat_period)

def pendingHeartbeat (now : Nat) : Option HeartbeatPayload × ReliableStreamState :=
  if st.in_flight.isEmpty then (none, st)
  else if !st.heartbeatDue now then (none, st)
  else
    (st.serialMaxInFlight.map fun last =>
      { first_unacked_seq_nr := st.window_base
        last_unacked_seq_nr := last
        stream_id := st.stream_id },
      { st with last_heartbeat := some now })

def removeAcknowledged (base : Nat) (bitmap : Nat) (flight : SortedMap Nat Payload) :
    SortedMap Nat Payload :=
  (List.range 16).foldl
    (fun m i => if bitmap.testBit i then m else m.erase (wrappingAdd base i)) flight

def recvAcknack (payload : AckNackPayload) : ReliableStreamState :=
  let base := payload.first_unacked_seq_num
  -- Everything before the base is acknowledged.
  let flight := st.in_flight.filter fun k _ =>
    let diff := wrappingSub base k
    !(decide (diff > 0) && decide (diff < HALF_WINDOW))
  let flight := removeAcknowledged base payload.nack_bitmap flight
  let st' := { st with in_flight := flight }
  match st'.serialMinInFlight with
  | some least => { st' with window_base := least }
  | none => st'

def recvData (seq : Nat) (payload : Payload) : Except XrceError ReliableStreamState :=
  if wrappingLt seq st.expected_seq then .ok st
  else if st.received.contains seq then .ok st
  else if st.received.size ≥ st.config.receiver_buffer && seq != st.expected_seq then
    .error (.valueOutOfRange "reliable receiver buffer full")
  else .ok { st with received := st.received.insert seq payload }

def popExpected : ReliableStreamState :=
  { st with
    received := st.received.erase st.expected_seq
    expected_seq := next st.expected_seq }

def drainInOrder (st : ReliableStreamState) :
    List (Nat × Payload) × ReliableStreamState :=
  match _h : st.received.get? st.expected_seq with
  | none => ([], st)
  | some payload =>
    let (out, st') := drainInOrder st.popExpected
    ((st.expected_seq, payload) :: out, st')
termination_by st.received.size
decreasing_by exact SortedMap.size_erase_lt _h

/-- Whether slot `i` of the ACKNACK window is reported missing: not buffered, and not after the
last number the HEARTBEAT named. -/
def slotMissing (hint_last_seen : Option Nat) (i : Nat) : Bool :=
  let seq := wrappingAdd (wrappingSub (next st.expected_seq) 1) i
  if hint_last_seen.any fun h => wrappingGt seq h then false
  else !st.received.contains seq

def pendingAcknack (hint_last_seen : Option Nat) : AckNackPayload :=
  { first_unacked_seq_num := st.expected_seq
    nack_bitmap := (List.range 16).foldl
      (fun bitmap i => if st.slotMissing hint_last_seen i then bitmap ||| 1 <<< i else bitmap) 0
    stream_id := st.stream_id }

/-! ### What the operations do to the maps -/

theorem get?_foldl_erase (base bitmap : Nat) (slots : List Nat) (m : SortedMap Nat Payload)
    (k : Nat) :
    (slots.foldl (fun m i => if bitmap.testBit i then m else m.erase (wrappingAdd base i))
        m).get? k =
      if ∃ i ∈ slots, bitmap.testBit i = false ∧ wrappingAdd base i = k then none
      else m.get? k := by
  induction slots generalizing m with
  | nil => simp
  | cons i slots ih =>
    rw [List.foldl_cons, ih]
    by_cases hbit : bitmap.testBit i = true
    · simp [hbit]
    · rw [if_neg hbit, SortedMap.get?_erase]
      by_cases hk : wrappingAdd base i = k
      · simp [hbit, hk]
      · have hk' : ¬ k = wrappingAdd base i := fun h => hk h.symm
        simp [hk, hk']

/-- An ACKNACK acknowledges the serial number `k`: it lies before the base, or in the window with
a clear bit. -/
def Acknowledges (ack : AckNackPayload) (k : Nat) : Prop :=
  wrappingLt k ack.first_unacked_seq_num = true ∨
    ∃ i < 16, ack.nack_bitmap.testBit i = false ∧ wrappingAdd ack.first_unacked_seq_num i = k

variable (st : ReliableStreamState) (ack : AckNackPayload)

theorem recvAcknack_get? (k : Nat) (payload : Payload) :
    (st.recvAcknack ack).in_flight.get? k = some payload ↔
      st.in_flight.get? k = some payload ∧ ¬ Acknowledges ack k := by
  have hflight : (st.recvAcknack ack).in_flight =
      removeAcknowledged ack.first_unacked_seq_num ack.nack_bitmap
        (st.in_flight.filter fun k _ => !wrappingLt k ack.first_unacked_seq_num) := by
    unfold recvAcknack
    simp only
    split <;> rfl
  rw [hflight, removeAcknowledged, get?_foldl_erase, SortedMap.get?_filter]
  unfold Acknowledges
  by_cases hwindow : ∃ i < 16, ack.nack_bitmap.testBit i = false ∧
      wrappingAdd ack.first_unacked_seq_num i = k
  · simp [hwindow]
  · cases hlt : wrappingLt k ack.first_unacked_seq_num
    · simp [hwindow]
    · simp [hwindow]

theorem acknowledges_serial {ack : AckNackPayload} {base n : Nat}
    (hbase : ack.first_unacked_seq_num = serial base) (hlt : base < n + HALF_WINDOW)
    (hle : n ≤ base + HALF_WINDOW) :
    Acknowledges ack (serial n) ↔
      n < base ∨ ∃ i < 16, ack.nack_bitmap.testBit i = false ∧ n = base + i := by
  have hbefore : wrappingLt (serial n) (serial base) = true ↔ n < base := by
    by_cases hnb : n < base
    · simp only [hnb, iff_true]
      exact wrappingLt_of_lt hnb hlt
    · have hfalse : wrappingLt (serial n) (serial base) = false :=
        wrappingLt_of_le (by omega) hle
      rw [hfalse]
      simp [hnb]
  simp only [HALF_WINDOW] at hlt hle
  have hslot : ∀ i < 16, wrappingAdd (serial base) i = serial n ↔ n = base + i := by
    intro i hi
    rw [wrappingAdd_serial]
    constructor
    · intro hserial
      exact (serial_inj (by omega) (by omega) hserial).symm
    · rintro rfl
      rfl
  unfold Acknowledges
  rw [hbase, hbefore]
  refine or_congr_right (exists_congr fun i => and_congr_right fun hi => ?_)
  rw [hslot i hi]

theorem recvAcknack_contains (k : Nat) :
    (st.recvAcknack ack).in_flight.contains k = true ↔
      st.in_flight.contains k = true ∧ ¬ Acknowledges ack k := by
  simp only [SortedMap.contains, Option.isSome_iff_exists, recvAcknack_get?, exists_and_right]

theorem recvAcknack_window_base {st : ReliableStreamState} {ack : AckNackPayload} {k : Nat}
    (h : (st.recvAcknack ack).serialMinInFlight = some k) :
    (st.recvAcknack ack).window_base = k := by
  unfold recvAcknack at h ⊢
  simp only at h ⊢
  split at h
  · next least hleast =>
    have hk : some least = some k := hleast.symm.trans h
    cases hk
    simp only
  · next hnone => cases hnone.symm.trans h

@[simp] theorem recvAcknack_next_seq : (st.recvAcknack ack).next_seq = st.next_seq := by
  unfold recvAcknack
  simp only
  split <;> rfl

@[simp] theorem recvAcknack_config : (st.recvAcknack ack).config = st.config := by
  unfold recvAcknack
  simp only
  split <;> rfl

theorem testBit_foldl_or (missing : Nat → Bool) (slots : List Nat) (bitmap j : Nat) :
    (slots.foldl (fun b i => if missing i then b ||| 1 <<< i else b) bitmap).testBit j =
      (bitmap.testBit j || decide (j ∈ slots) && missing j) := by
  induction slots generalizing bitmap with
  | nil => simp
  | cons i slots ih =>
    rw [List.foldl_cons, ih]
    by_cases hj : j = i
    · subst hj
      cases hm : missing j
      · simp
      · simp [Nat.testBit_or, Nat.one_shiftLeft, Nat.testBit_two_pow_self]
    · have hne : (2 ^ i).testBit j = false := Nat.testBit_two_pow_of_ne (Ne.symm hj)
      split
      · simp [Nat.testBit_or, Nat.one_shiftLeft, hne, hj]
      · simp [hj]

theorem testBit_pendingAcknack (hint : Option Nat) {i : Nat} (hi : i < 16) :
    (st.pendingAcknack hint).nack_bitmap.testBit i = st.slotMissing hint i := by
  unfold pendingAcknack
  rw [testBit_foldl_or]
  simp [hi]

theorem slotMissing_eq {e : Nat} (he : st.expected_seq = serial e) (hint i : Nat) :
    st.slotMissing (some hint) i =
      (!wrappingGt (serial (e + i)) hint && !st.received.contains (serial (e + i))) := by
  have hseq : wrappingAdd (wrappingSub (next st.expected_seq) 1) i = serial (e + i) := by
    rw [he, next_serial]
    simp only [wrappingAdd, wrappingSub, serial]
    omega
  rw [slotMissing, hseq, Option.any_some]
  cases wrappingGt (serial (e + i)) hint <;> simp

end ReliableStreamState

end ZeroDds.Xrce
