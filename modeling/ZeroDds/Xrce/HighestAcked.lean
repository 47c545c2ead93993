/-
The highest number that was acknowledged.
-/
import ZeroDds.Lib.Run
import ZeroDds.Xrce.ReliableStream

namespace ZeroDds.Xrce

open SortedMap SerialNumber16

structure Sender where
  stream : ReliableStreamState
  submitted : Nat
  /-- The numbers of those that no ACKNACK has removed, oldest first. -/
  flying : List Nat

inductive SenderAction where
  | submit (payload : Payload)
  | recvAcknack (ack : AckNackPayload)
deriving Repr, DecidableEq

namespace Sender

def new (stream_id : UInt8) (config : ReliableConfig) : Sender := ⟨.new stream_id config, 0, []⟩

def submit (s : Sender) (payload : Payload) : Sender :=
  match s.stream.submit payload with
  | .error _ => s
  | .ok (_, stream) => ⟨stream, s.submitted + 1, s.flying ++ [s.submitted]⟩

def recvAcknack (s : Sender) (ack : AckNackPayload) : Sender :=
  let stream := s.stream.recvAcknack ack
  ⟨stream, s.submitted, s.flying.filter fun n => stream.in_flight.contains (serial n)⟩

variable (s : Sender)

def step : SenderAction → Sender × Unit
  | .submit payload => (s.submit payload, ())
  | .recvAcknack ack => (s.recvAcknack ack, ())

/-- The base of an ACKNACK is a number the receiver can have come to, at most `2^15 - 1` behind what
the sender numbers next.  Its bitmap may be any. -/
def Answered : SenderAction → Prop
  | .submit _ => True
  | .recvAcknack ack => ∃ base, ack.first_unacked_seq_num = serial base ∧ base ≤ s.submitted ∧
      s.submitted < base + HALF_WINDOW

def NoneAcked : Prop := s.flying.length = s.submitted

instance (s : Sender) : Decidable s.NoneAcked := inferInstanceAs (Decidable (_ = _))

def firstUnacked : Nat := s.flying.head?.getD s.submitted

/-- The serial number before that of the oldest sample in flight, or the last one submitted where
none is; none where no sample was acknowledged. -/
def highestAcked : Option Nat :=
  if s.NoneAcked then none else some (wrappingSub (serial s.firstUnacked) 1)

/-! ### What the state says of the numbers -/

structure Flies (w : Nat) (s : Sender) : Prop where
  window : s.stream.config.sender_window = w
  numbered : s.stream.next_seq = serial s.submitted
  held : ∀ k, s.stream.in_flight.contains k = true ↔ k ∈ s.flying.map serial
  sorted : s.flying.Pairwise (· < ·)
  below : ∀ n ∈ s.flying, n < s.submitted
  /-- An ACKNACK reaches at most 16 numbers past its base. -/
  tail : ∀ a ∈ s.flying, ∀ n, a + 16 ≤ n → n < s.submitted → n ∈ s.flying
  near : ∀ a ∈ s.flying, s.submitted ≤ a + 16 + w
  base : ∀ o ∈ s.flying.head?, s.stream.window_base = serial o

variable {w : Nat} {s : Sender}

theorem flies_new (stream_id : UInt8) (config : ReliableConfig) :
    Flies config.sender_window (new stream_id config) := by
  refine ⟨rfl, rfl, fun k => ?_, .nil, nofun, nofun, nofun, nofun⟩
  exact ⟨nofun, nofun⟩

namespace Flies

section

variable (h : Flies w s)
include h

theorem inj (hw : w + 16 < HALF_WINDOW) {m n : Nat} (hm : m ∈ s.flying)
    (hn : n ∈ s.flying) (heq : serial m = serial n) : m = n := by
  have hmnear := h.near m hm
  have hnnear := h.near n hn
  have hmlt := h.below m hm
  have hnlt := h.below n hn
  simp only [HALF_WINDOW] at hw
  exact serial_inj (by omega) (by omega) heq

theorem nodup : s.flying.Nodup :=
  h.sorted.imp fun hlt => Nat.ne_of_lt hlt

theorem keys_perm (hw : w + 16 < HALF_WINDOW) :
    s.stream.in_flight.keys.Perm (s.flying.map serial) := by
  have hnodup : (s.flying.map serial).Nodup :=
    h.nodup.map_on fun m hm n hn heq => h.inj hw hm hn heq
  rw [List.perm_ext_iff_of_nodup s.stream.in_flight.keys_nodup hnodup]
  intro k
  rw [mem_keys, ← h.held, contains_iff]

theorem size_eq (hw : w + 16 < HALF_WINDOW) :
    s.stream.in_flight.size = s.flying.length := by
  rw [size_eq_length_keys, (h.keys_perm hw).length_eq, List.length_map]

theorem isEmpty_eq (hw : w + 16 < HALF_WINDOW) :
    s.stream.in_flight.isEmpty = s.flying.isEmpty := by
  have hlength := (h.keys_perm hw).length_eq
  rw [List.length_map] at hlength
  rw [isEmpty_eq_keys_isEmpty, Bool.eq_iff_iff, List.isEmpty_iff_length_eq_zero,
    List.isEmpty_iff_length_eq_zero, hlength]

theorem firstUnacked_le {n : Nat} (hn : n ∈ s.flying) : s.firstUnacked ≤ n := by
  unfold firstUnacked
  have hsorted := h.sorted
  cases hflying : s.flying with
  | nil =>
    rw [hflying] at hn
    cases hn
  | cons o rest =>
    rw [hflying] at hn hsorted
    rcases List.mem_cons.mp hn with rfl | hn
    · exact le_refl _
    · exact Nat.le_of_lt ((List.pairwise_cons.mp hsorted).1 n hn)

theorem acked_of_pos (hpos : 0 < s.firstUnacked) : ¬ s.NoneAcked := by
  intro hnone
  have hsub : s.flying ⊆ List.range' 1 (s.submitted - 1) := by
    intro n hn
    have hle := h.firstUnacked_le hn
    have hlt := h.below n hn
    rw [List.mem_range'_1]
    omega
  have hle := (List.subperm_of_subset h.nodup hsub).length_le
  rw [List.length_range', hnone] at hle
  have hzero : s.submitted = 0 := by omega
  have hflying : s.flying = [] := List.length_eq_zero_iff.mp (hnone.trans hzero)
  simp only [firstUnacked, hflying, List.head?_nil, Option.getD_none] at hpos
  omega

end

/-! ### One more sample -/

theorem near_of_room (h : Flies w s) (hroom : s.flying.length < w) {a : Nat} (ha : a ∈ s.flying) :
    s.submitted + 1 ≤ a + 16 + w := by
  have hsub : List.range' (a + 16) (s.submitted - (a + 16)) ⊆ s.flying := by
    intro n hn
    rw [List.mem_range'_1] at hn
    exact h.tail a ha n hn.1 (by omega)
  have hle := (List.subperm_of_subset List.nodup_range' hsub).length_le
  rw [List.length_range'] at hle
  omega

theorem submit (h : Flies w s) (hw : w + 16 < HALF_WINDOW) (payload : Payload) :
    Flies w (s.submit payload) := by
  unfold Sender.submit ReliableStreamState.submit
  by_cases hlarge : payload.length > RELIABLE_MAX_PAYLOAD
  · simpa [hlarge] using h
  by_cases hfull : s.stream.in_flight.size ≥ s.stream.config.sender_window
  · simpa [hlarge, hfull] using h
  rw [if_neg hlarge, if_neg hfull]
  rw [h.size_eq hw, h.window] at hfull
  refine ⟨h.window, ?_, fun k => ?_, ?_, ?_, ?_, ?_, ?_⟩
  · show SerialNumber16.next s.stream.next_seq = serial (s.submitted + 1)
    rw [h.numbered, next_serial]
  · have hheld := h.held k
    rw [SortedMap.contains] at hheld ⊢
    rw [get?_insert, h.numbered, List.map_append, List.mem_append, ← hheld]
    by_cases hk : k = serial s.submitted
    · simp [hk]
    · simp [hk]
  · refine List.pairwise_append.mpr ⟨h.sorted, List.pairwise_singleton _ _, fun m hm n hn => ?_⟩
    rw [List.mem_singleton.mp hn]
    exact h.below m hm
  · exact List.forall_mem_append.mpr ⟨fun n hn => Nat.lt_succ_of_lt (h.below n hn),
      List.forall_mem_singleton.mpr (Nat.lt_succ_self _)⟩
  · intro a ha n hfar hn
    dsimp only at hn
    rcases List.mem_append.mp ha with ha | ha
    · by_cases hlast : n = s.submitted
      · exact List.mem_append_right _ (List.mem_singleton.mpr hlast)
      · exact List.mem_append_left _ (h.tail a ha n hfar (by omega))
    · rw [List.mem_singleton] at ha
      omega
  · intro a ha
    dsimp only
    rcases List.mem_append.mp ha with ha | ha
    · exact h.near_of_room (by omega) ha
    · rw [List.mem_singleton] at ha
      omega
  · intro o ho
    rw [h.isEmpty_eq hw]
    cases hflying : s.flying with
    | nil =>
      rw [hflying] at ho
      cases ho
      exact h.numbered
    | cons first rest =>
      rw [hflying] at ho
      cases ho
      exact h.base _ (by rw [hflying]; rfl)

theorem foldl_serial_min (rest : List Nat) (a : Nat)
    (hnear : ∀ m ∈ a :: rest, ∀ n ∈ a :: rest, m < n + HALF_WINDOW) :
    ∃ least ∈ a :: rest, (∀ n ∈ a :: rest, least ≤ n) ∧
      (rest.map serial).foldl (fun a b => if wrappingLt b a then b else a) (serial a) =
        serial least := by
  induction rest generalizing a with
  | nil => exact ⟨a, List.mem_cons_self, fun n hn => by rw [List.mem_singleton.mp hn], rfl⟩
  | cons b rest ih =>
    have hab := hnear a (by simp) b (by simp)
    have hba := hnear b (by simp) a (by simp)
    have hpick : (if wrappingLt (serial b) (serial a) then serial b else serial a) =
        serial (min a b) := by
      by_cases hlt : b < a
      · rw [if_pos (wrappingLt_of_lt hlt hab), Nat.min_eq_right (by omega)]
      · rw [if_neg (by rw [wrappingLt_of_le (by omega) (by omega)]; decide),
          Nat.min_eq_left (by omega)]
    have hmin : min a b ∈ a :: b :: rest := by
      rcases Nat.le_total a b with hle | hle
      · rw [Nat.min_eq_left hle]
        simp
      · rw [Nat.min_eq_right hle]
        simp
    have hsub : min a b :: rest ⊆ a :: b :: rest := by
      intro n hn
      rcases List.mem_cons.mp hn with rfl | hn
      · exact hmin
      · exact List.mem_cons_of_mem _ (List.mem_cons_of_mem _ hn)
    obtain ⟨least, hmem, hle, hfold⟩ :=
      ih (min a b) fun m hm n hn => hnear m (hsub hm) n (hsub hn)
    refine ⟨least, hsub hmem, fun n hn => ?_, ?_⟩
    · have hfirst := hle (min a b) List.mem_cons_self
      rcases List.mem_cons.mp hn with rfl | hn
      · omega
      · rcases List.mem_cons.mp hn with rfl | hn
        · omega
        · exact hle n (List.mem_cons_of_mem _ hn)
    · rw [List.map_cons, List.foldl_cons, hpick, hfold]

theorem serialMin_eq {st : ReliableStreamState} {flying : List Nat} {submitted : Nat}
    (hheld : ∀ k, st.in_flight.contains k = true ↔ k ∈ flying.map serial)
    (hsorted : flying.Pairwise (· < ·)) (hbelow : ∀ n ∈ flying, n < submitted)
    (hnear : ∀ n ∈ flying, submitted < n + HALF_WINDOW) {o : Nat} (ho : flying.head? = some o) :
    st.serialMinInFlight = some (serial o) := by
  have hnumber : ∀ n ∈ flying, lastNumbered submitted (serial n) = n := by
    intro n hn
    have hlt := hbelow n hn
    have hle := hnear n hn
    simp only [HALF_WINDOW] at hle
    exact lastNumbered_serial hlt (by omega)
  -- the keys stand for the numbers `ns`, in another order
  obtain ⟨ns, hns⟩ : ∃ ns, ns = st.in_flight.keys.map (lastNumbered submitted) := ⟨_, rfl⟩
  have hkey : ∀ k ∈ st.in_flight.keys, ∃ n ∈ flying, serial n = k := by
    intro k hk
    rw [mem_keys, ← contains_iff, hheld] at hk
    exact List.mem_map.mp hk
  have hmem : ∀ n, n ∈ ns ↔ n ∈ flying := by
    intro n
    rw [hns]
    constructor
    · intro hn
      obtain ⟨k, hk, rfl⟩ := List.mem_map.mp hn
      obtain ⟨m, hm, rfl⟩ := hkey k hk
      rwa [hnumber m hm]
    · intro hn
      refine List.mem_map.mpr ⟨serial n, ?_, hnumber n hn⟩
      rw [mem_keys, ← contains_iff, hheld]
      exact List.mem_map_of_mem hn
  have hkeys : st.in_flight.keys = ns.map serial := by
    rw [hns, List.map_map]
    conv_lhs => rw [← List.map_id st.in_flight.keys]
    refine List.map_congr_left fun k hk => ?_
    obtain ⟨n, hn, rfl⟩ := hkey k hk
    rw [Function.comp_apply, hnumber n hn, id_eq]
  have hfirst : o ∈ flying := List.mem_of_mem_head? ho
  unfold ReliableStreamState.serialMinInFlight
  rw [hkeys]
  cases ns with
  | nil => exact absurd ((hmem o).mpr hfirst) List.not_mem_nil
  | cons a rest =>
    obtain ⟨least, hleast, hle, hfold⟩ := foldl_serial_min rest a fun m hm n hn => by
      have hm' := hbelow m ((hmem m).mp hm)
      have hn' := hnear n ((hmem n).mp hn)
      omega
    rw [List.map_cons, ReliableStreamState.reduceKeys, hfold]
    have hge : o ≤ least := by
      obtain ⟨tail, rfl⟩ := List.head?_eq_some_iff.mp ho
      rcases List.mem_cons.mp ((hmem least).mp hleast) with rfl | htail
      · exact le_refl _
      · exact Nat.le_of_lt ((List.pairwise_cons.mp hsorted).1 least htail)
    have hoeq : least = o := Nat.le_antisymm (hle o ((hmem o).mpr hfirst)) hge
    rw [hoeq]

theorem recvAcknack (h : Flies w s) (hw : w + 16 < HALF_WINDOW) {ack : AckNackPayload}
    (hack : s.Answered (.recvAcknack ack)) : Flies w (s.recvAcknack ack) := by
  obtain ⟨base, hbase, hle, hfresh⟩ := hack
  have hacks : ∀ n ∈ s.flying, ReliableStreamState.Acknowledges ack (serial n) ↔
      n < base ∨ ∃ i < 16, ack.nack_bitmap.testBit i = false ∧ n = base + i := by
    intro n hn
    have hlt := h.below n hn
    have hnear := h.near n hn
    exact ReliableStreamState.acknowledges_serial hbase (by omega) (by omega)
  have hcontains := s.stream.recvAcknack_contains ack
  have hmem : ∀ n, n ∈ (s.recvAcknack ack).flying ↔
      n ∈ s.flying ∧ ¬ ReliableStreamState.Acknowledges ack (serial n) := by
    intro n
    rw [Sender.recvAcknack, List.mem_filter, hcontains, h.held]
    constructor
    · rintro ⟨hn, -, hnot⟩
      exact ⟨hn, hnot⟩
    · rintro ⟨hn, hnot⟩
      exact ⟨hn, List.mem_map_of_mem hn, hnot⟩
  have hheld : ∀ k, (s.recvAcknack ack).stream.in_flight.contains k = true ↔
      k ∈ (s.recvAcknack ack).flying.map serial := by
    intro k
    show (s.stream.recvAcknack ack).in_flight.contains k = true ↔ _
    rw [hcontains, h.held]
    constructor
    · rintro ⟨hk, hnot⟩
      obtain ⟨n, hn, rfl⟩ := List.mem_map.mp hk
      exact List.mem_map_of_mem ((hmem n).mpr ⟨hn, hnot⟩)
    · intro hk
      obtain ⟨n, hn, rfl⟩ := List.mem_map.mp hk
      obtain ⟨hn, hnot⟩ := (hmem n).mp hn
      exact ⟨List.mem_map_of_mem hn, hnot⟩
  have hsorted : (s.recvAcknack ack).flying.Pairwise (· < ·) := h.sorted.filter _
  have hbelow : ∀ n ∈ (s.recvAcknack ack).flying, n < s.submitted := fun n hn =>
    h.below n ((hmem n).mp hn).1
  have hnear : ∀ n ∈ (s.recvAcknack ack).flying, s.submitted ≤ n + 16 + w := fun n hn =>
    h.near n ((hmem n).mp hn).1
  refine ⟨?_, ?_, hheld, hsorted, hbelow, ?_, hnear, ?_⟩
  · exact (s.stream.recvAcknack_config ack).symm ▸ h.window
  · exact (s.stream.recvAcknack_next_seq ack).trans h.numbered
  · intro a ha n hfar hn
    obtain ⟨ha, hnot⟩ := (hmem a).mp ha
    rw [hacks a ha] at hnot
    have hfly := h.tail a ha n hfar hn
    refine (hmem n).mpr ⟨hfly, ?_⟩
    rw [hacks n hfly]
    rintro (hlt | ⟨i, hi, -, heq⟩) <;> omega
  · intro o ho
    refine ReliableStreamState.recvAcknack_window_base ?_
    refine serialMin_eq hheld hsorted hbelow (fun n hn => ?_) ho
    have := hnear n hn
    omega

theorem highestAcked_eq (h : Flies w s) (hw : w + 16 < HALF_WINDOW) :
    s.stream.highestAcked =
      if serial s.firstUnacked = 0 then none
      else some (wrappingSub (serial s.firstUnacked) 1) := by
  unfold ReliableStreamState.highestAcked firstUnacked
  rw [h.isEmpty_eq hw, h.numbered]
  cases hflying : s.flying with
  | nil =>
    have hempty : s.stream.in_flight.contains 0 = false := by
      rw [← Bool.not_eq_true, h.held 0, hflying]
      exact List.not_mem_nil
    by_cases hzero : serial s.submitted = 0
    · simp [hzero]
    · simp [hzero, hempty]
  | cons o rest =>
    have hbase : s.stream.window_base = serial o := h.base o (by rw [hflying]; rfl)
    have hkey : s.stream.in_flight.contains (serial o) = true := by
      rw [h.held, hflying]
      exact List.mem_map_of_mem List.mem_cons_self
    rw [hbase]
    by_cases hzero : serial o = 0
    · rw [hzero] at hkey
      simp [hzero, hkey]
    · simp [hzero]

theorem right_iff (h : Flies w s) (hw : w + 16 < HALF_WINDOW) :
    s.stream.highestAcked = s.highestAcked ↔ (65536 ∣ s.firstUnacked → s.NoneAcked) := by
  have hdvd : serial s.firstUnacked = 0 ↔ 65536 ∣ s.firstUnacked :=
    (Nat.dvd_iff_mod_eq_zero).symm
  rw [h.highestAcked_eq hw, Sender.highestAcked, ← hdvd]
  by_cases hzero : serial s.firstUnacked = 0
  · by_cases hnone : s.NoneAcked
    · simp [hzero, hnone]
    · simp [hzero, hnone]
  · have hpos : 0 < s.firstUnacked := by
      refine Nat.pos_of_ne_zero fun heq => hzero ?_
      rw [heq]
      rfl
    simp [hzero, h.acked_of_pos hpos]

end Flies

theorem reaches_flies {stream_id : UInt8} {config : ReliableConfig}
    (hwindow : config.sender_window + 16 < HALF_WINDOW) {h : History SenderAction Unit}
    (hr : Reaches step Answered (new stream_id config) h s) : Flies config.sender_window s := by
  refine Reaches.invariant (P := fun _ s => Flies config.sender_window s)
    (flies_new stream_id config) ?_ hr
  intro _ s a hflies hok
  cases a with
  | submit payload => exact hflies.submit hwindow payload
  | recvAcknack ack => exact hflies.recvAcknack hwindow hok

/-- In every state of every run `highestAcked` answers none where no sample was acknowledged, and
else the number before the oldest sample in flight, or the last one submitted where none is: exactly
where the first sample not acknowledged does not carry a multiple of 65536, or nothing was
acknowledged. -/
theorem highestAcked_iff (stream_id : UInt8) (config : ReliableConfig)
    (hwindow : config.sender_window + 16 < HALF_WINDOW) (h : History SenderAction Unit) (s : Sender)
    (hr : Reaches step Answered (new stream_id config) h s) :
    s.stream.highestAcked = s.highestAcked ↔ (65536 ∣ s.firstUnacked → s.NoneAcked) :=
  (reaches_flies hwindow hr).right_iff hwindow

def firstOfTwo : List SenderAction := [.submit [1], .submit [2], .recvAcknack ⟨1, 1, 128⟩]

theorem highestAcked_firstOfTwo :
    (run step (new 128 {}) firstOfTwo).1.stream.highestAcked =
        (run step (new 128 {}) firstOfTwo).1.highestAcked ∧
      (run step (new 128 {}) firstOfTwo).1.highestAcked = some 0 := by
  have hok : RunOk step Answered (new 128 {}) firstOfTwo :=
    ⟨trivial, trivial, ⟨1, rfl, by decide +kernel, by decide +kernel⟩, trivial⟩
  refine ⟨?_, by decide +kernel⟩
  exact (highestAcked_iff 128 {} (by decide) _ _ (reaches_run hok)).mpr (by decide +kernel)

def turns : Nat → List SenderAction
  | 0 => []
  | k + 1 => turns k ++ [.submit [], .recvAcknack ⟨serial (k + 1), 0, 128⟩]

theorem submit_idle (h : Flies 16 s) (hidle : s.flying = []) :
    (s.submit []).submitted = s.submitted + 1 ∧ (s.submit []).flying = [s.submitted] := by
  have hroom : ¬ s.stream.in_flight.size ≥ s.stream.config.sender_window := by
    rw [h.size_eq (by decide), h.window, hidle]
    decide
  have hsmall : ¬ ([] : Payload).length > RELIABLE_MAX_PAYLOAD := by decide
  unfold submit ReliableStreamState.submit
  rw [if_neg hsmall, if_neg hroom, hidle]
  exact ⟨rfl, rfl⟩

variable {k : Nat}

theorem recvAcknack_all (hone : s.flying = [k]) :
    (s.recvAcknack ⟨serial (k + 1), 0, 128⟩).flying = [] := by
  have hacked : ReliableStreamState.Acknowledges ⟨serial (k + 1), 0, 128⟩ (serial k) :=
    .inl (wrappingLt_of_lt (Nat.lt_succ_self k) (by simp only [HALF_WINDOW]; omega))
  have hgone : ¬ (s.stream.recvAcknack ⟨serial (k + 1), 0, 128⟩).in_flight.contains
      (serial k) = true := by
    rw [ReliableStreamState.recvAcknack_contains]
    exact fun hheld => hheld.2 hacked
  simp [recvAcknack, hone, hgone]

theorem flies_turns (hok : RunOk step Answered (new 128 {}) (turns k)) :
    Flies 16 (run step (new 128 {}) (turns k)).1 := by
  have hwindow : ({} : ReliableConfig).sender_window + 16 < HALF_WINDOW := by decide
  exact reaches_flies hwindow (reaches_run hok)

theorem turns_spec (k : Nat) :
    RunOk step Answered (new 128 {}) (turns k) ∧
      (run step (new 128 {}) (turns k)).1.submitted = k ∧
      (run step (new 128 {}) (turns k)).1.flying = [] := by
  induction k with
  | zero => exact ⟨trivial, rfl, rfl⟩
  | succ k ih =>
    obtain ⟨hok, hsubmitted, hidle⟩ := ih
    rw [turns, runOk_append, run_append]
    generalize hs : (run step (new 128 {}) (turns k)).1 = s at hsubmitted hidle
    have hwindow : (16 : Nat) + 16 < HALF_WINDOW := by decide
    have hflies : Flies 16 s := hs ▸ flies_turns hok
    obtain ⟨hcount, hone⟩ := submit_idle hflies hidle
    rw [hsubmitted] at hcount hone
    have hanswered : (s.submit []).Answered (.recvAcknack ⟨serial (k + 1), 0, 128⟩) :=
      ⟨k + 1, rfl, le_of_eq hcount.symm, by omega⟩
    refine ⟨⟨hok, trivial, hanswered, trivial⟩, hcount, ?_⟩
    exact recvAcknack_all hone

theorem exists_forgotten (hpos : 0 < k) (hround : serial k = 0) :
    ∃ h s, Reaches step Answered (new 128 {}) h s ∧ s.submitted = k ∧
      s.stream.highestAcked = none ∧ s.highestAcked = some 65535 := by
  obtain ⟨hok, hsubmitted, hidle⟩ := turns_spec k
  have hflies := flies_turns hok
  refine ⟨_, _, reaches_run hok, hsubmitted, ?_⟩
  generalize (run step (new 128 {}) (turns k)).1 = s at hsubmitted hidle hflies ⊢
  have hfirst : s.firstUnacked = k := by
    rw [firstUnacked, hidle, hsubmitted]
    rfl
  have hacked : ¬ s.NoneAcked := by
    rw [NoneAcked, hidle, hsubmitted]
    exact Nat.ne_of_lt hpos
  constructor
  · rw [hflies.highestAcked_eq (by decide), hfirst, if_pos hround]
  · rw [Sender.highestAcked, if_neg hacked, hfirst, hround]
    rfl

/-- A run submits 65536 samples, each acknowledged before the next, and the answer is that none
is. -/
theorem acknowledged_once_round :
    ∃ h s, Reaches step Answered (new 128 {}) h s ∧ s.submitted = 65536 ∧
      s.stream.highestAcked = none ∧ s.highestAcked = some 65535 :=
  exists_forgotten (by decide) (by decide)

end Sender

end ZeroDds.Xrce
