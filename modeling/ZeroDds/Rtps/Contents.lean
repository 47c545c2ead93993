/-
What the datagrams contain.
-/
import ZeroDds.Rtps.Reassembly
import ZeroDds.Rtps.ReliableReader
import ZeroDds.Rtps.TickTurn

namespace ZeroDds.Rtps

open MessageBuilder

def contents (ds : List AddressedDatagram) : List Submessage :=
  (ds.flatMap fun d => d.datagram.submessages).filter fun s => !s.isFramingOnly

@[simp] theorem contents_nil : contents [] = [] := rfl

@[simp] theorem contents_append (ds ds' : List AddressedDatagram) :
    contents (ds ++ ds') = contents ds ++ contents ds' := by
  simp [contents]

theorem contents_cons (d : AddressedDatagram) (ds : List AddressedDatagram) :
    contents (d :: ds) = contents [d] ++ contents ds := contents_append [d] ds

namespace MessageBuilder

def contents (b : MessageBuilder) : List Submessage :=
  b.submessages.filter fun s => !s.isFramingOnly

variable {b : MessageBuilder} {s : Submessage}

theorem contents_push (hs : s.isFramingOnly = false) : (b.push s).contents = b.contents ++ [s] := by
  simp [contents, List.filter_append, hs]

theorem contents_push_framing (hs : s.isFramingOnly = true) : (b.push s).contents = b.contents := by
  simp [contents, List.filter_append, hs]

end MessageBuilder

namespace Assembly

def contents (a : Assembly) : List Submessage := Rtps.contents a.out ++ a.builder.contents

theorem contents_finish (a : Assembly) (peer : Guid) :
    Rtps.contents (a.finish peer) = a.contents := by
  rw [finish, contents_append, contents]
  congr 1
  cases h : a.builder.finish with
  | some d =>
    have := finish_eq_some h
    simp [Rtps.contents, MessageBuilder.contents, this]
  | none =>
    refine Eq.symm (List.filter_eq_nil_iff.mpr fun s hs => ?_)
    intro hcontent
    rw [finish_of_content hs (by simpa using hcontent)] at h
    cases h

end Assembly

namespace SendView

variable {v : SendView} {peer : Guid} {targets : List Locator}

theorem contents_open (v : SendView) (peer : Guid) (targets : List Locator) :
    (v.openBuilderFor peer targets).contents = [] := by
  rcases v.openBuilderFor_cases peer targets with h | h <;> rw [h] <;> rfl

theorem contents_appendInfoTs (b : MessageBuilder) (sn : Int) :
    (v.appendInfoTs b sn).contents = b.contents := by
  rcases v.appendInfoTs_cases b sn with h | ⟨ts, -, -, h⟩ <;> rw [h]
  exact contents_push_framing rfl

theorem contents_stampFor (sn : Int) (b : MessageBuilder) (s : Submessage) :
    (v.stampFor sn b s).contents = b.contents := by
  cases s <;> first | exact contents_appendInfoTs b sn | rfl

variable {a a' : Assembly} {s : Submessage}

theorem appendSubmessage_contents {hint : String} (hs : s.isFramingOnly = false)
    (h : v.appendSubmessage a s peer targets hint = .ok a') : a'.contents = a.contents ++ [s] := by
  rcases appendSubmessage_cases h with ⟨-, rfl⟩ | ⟨-, rfl⟩
  · simp [Assembly.contents, contents_push hs]
  · simp [Assembly.contents, contents_push hs, contents_open,
      Assembly.contents_finish]

theorem buildAlone_contents {stamped : Option Int} {message : String} {d : AddressedDatagram}
    (hs : s.isFramingOnly = false) (h : v.buildAlone s stamped peer targets message = .ok d) :
    contents [d] = [s] := by
  have hbuilder : (v.stampedBuilder stamped peer targets).contents = [] := by
    cases stamped with
    | none => exact contents_open v peer targets
    | some sn => exact (contents_appendInfoTs _ sn).trans (contents_open v peer targets)
  have hsub := (buildAlone_ok hs h).2
  rw [MessageBuilder.contents] at hbuilder
  simp [contents, hsub, List.filter_append, hbuilder, hs]

/-! ### A sample in fragments -/

def slicesFrom (payload : Octets) (size perMessage : Nat) : Nat → Nat → Nat → List FragmentSlice
  | 0, _, _ => []
  | fuel + 1, num, pos =>
    if pos < payload.length then
      let stop := min (pos + perMessage * size) payload.length
      let count := divCeil (stop - pos) size
      ⟨num, count, size, payload.length, sliceOf payload pos stop⟩ ::
        slicesFrom payload size perMessage fuel (num + count) stop
    else []

variable {sn : Int} {payload : Octets} {size num : Nat}
  {perMessage fuel : Nat} {ds : List AddressedDatagram}

theorem fragmentDatagrams_contents {pos : Nat}
    (h : v.fragmentDatagrams sn payload size perMessage peer targets fuel num pos = .ok ds) :
    contents ds = (slicesFrom payload size perMessage fuel num pos).map fun f =>
      .dataFrag (v.dataFragOf sn f peer) := by
  induction fuel generalizing num pos ds with
  | zero =>
    obtain rfl := Except.ok.inj h
    rfl
  | succ fuel ih =>
    by_cases hpos : pos < payload.length
    · obtain ⟨d, rest, hd, hrest, rfl⟩ := fragmentDatagrams_succ_ok hpos h
      rw [contents_cons, buildAlone_contents rfl hd, ih hrest]
      simp [slicesFrom, hpos]
    · simp only [fragmentDatagrams, hpos, if_false] at h
      obtain rfl := Except.ok.inj h
      simp [slicesFrom, hpos]

def slicesOf (v : SendView) (sn : Int) (payload : Octets) (peer : Guid) : List FragmentSlice :=
  slicesFrom payload (v.fragmentSizeFor sn)
    (v.fragmentsPerMessage sn peer (v.fragmentSizeFor sn)) payload.length 1 0

def sampleContents (v : SendView) (sn : Int) (payload : Octets) (peer : Guid) : List Submessage :=
  if v.isRelevant sn peer = false then [.gap (v.gapOf sn peer)]
  else if v.needsFragmentation sn peer payload = false then [.data (v.dataOf sn payload peer)]
  else (v.slicesOf sn payload peer).map fun f => .dataFrag (v.dataFragOf sn f peer)

theorem buildSampleDatagrams_contents
    (h : v.buildSampleDatagrams sn payload peer targets = .ok ds) :
    contents ds = v.sampleContents sn payload peer := by
  unfold buildSampleDatagrams at h
  unfold sampleContents
  split at h
  · next hrel =>
    obtain ⟨d, hd, rfl⟩ := map_singleton_eq_ok h
    rw [if_pos hrel, buildAlone_contents rfl hd]
  · next hrel =>
    rw [if_neg hrel]
    split at h
    · next hfrag =>
      obtain ⟨d, hd, rfl⟩ := map_singleton_eq_ok h
      rw [if_pos hfrag, buildAlone_contents rfl hd]
    · next hfrag =>
      rw [if_neg hfrag]
      simp only at h
      split at h
      · cases h
      · split at h
        · cases h
        · exact fragmentDatagrams_contents h

variable {b : Nat} {k : Nat}

theorem divCeil_add_mul (h : 1 ≤ size) : divCeil (k * size + b) size = k + divCeil b size := by
  unfold divCeil
  rw [show k * size + b + size - 1 = b + size - 1 + k * size by omega,
    Nat.add_mul_div_right _ _ (by omega), Nat.add_comm]

theorem divCeil_mono {a : Nat} (h : a ≤ b) (size : Nat) : divCeil a size ≤ divCeil b size :=
  Nat.div_le_div_right (by omega)

theorem le_divCeil_mul (h : 1 ≤ size) : b ≤ divCeil b size * size := by
  have := Nat.lt_div_mul_add (a := b + size - 1) (b := size) (by omega)
  unfold divCeil
  omega

theorem divCeil_mul (h : 1 ≤ size) : divCeil (k * size) size = k := by
  have hadd := divCeil_add_mul (k := k) (b := 0) h
  have hzero : divCeil 0 size = 0 := by
    exact Nat.div_eq_of_lt (by omega)
  rw [hzero] at hadd
  exact hadd

theorem divCeil_pos (h : 1 ≤ size) (hb : 1 ≤ b) : 1 ≤ divCeil b size := by
  exact (Nat.one_le_div_iff (by omega)).mpr (by omega)

structure Cuts (x : FragmentedSample) (s : FragmentSlice) : Prop where
  size : s.size = x.fragmentSize
  sampleSize : s.sampleSize = x.payload.length
  number_pos : 1 ≤ s.number
  count_pos : 1 ≤ s.count
  in_range : s.number + s.count ≤ x.total + 1
  bytes : s.bytes = x.slice s.number s.count

variable (x : FragmentedSample)

theorem cuts_of_stop {count stop : Nat} (hnum : 1 ≤ num)
    (hcount : count = divCeil (stop - (num - 1) * x.fragmentSize) x.fragmentSize)
    (hlo : (num - 1) * x.fragmentSize < stop) (hhi : stop ≤ x.payload.length)
    (hcut : stop = (num - 1) * x.fragmentSize + count * x.fragmentSize ∨ stop = x.payload.length) :
    Cuts x ⟨num, count, x.fragmentSize, x.payload.length,
      sliceOf x.payload ((num - 1) * x.fragmentSize) stop⟩ := by
  have hsize := x.fragmentSize_pos
  have hpos : 1 ≤ count := by
    rw [hcount]
    exact divCeil_pos hsize (by omega)
  have htotal := divCeil_add_mul (k := num - 1)
    (b := x.payload.length - (num - 1) * x.fragmentSize) hsize
  rw [show (num - 1) * x.fragmentSize + (x.payload.length - (num - 1) * x.fragmentSize) =
    x.payload.length by omega] at htotal
  have hle := divCeil_mono (show stop - (num - 1) * x.fragmentSize ≤
    x.payload.length - (num - 1) * x.fragmentSize by omega) x.fragmentSize
  have hlast : x.total = num - 1 + divCeil (x.payload.length - (num - 1) * x.fragmentSize)
    x.fragmentSize := htotal
  refine ⟨rfl, rfl, hnum, hpos, by simp only; omega, ?_⟩
  have hcover := le_divCeil_mul (b := stop - (num - 1) * x.fragmentSize) hsize
  rw [← hcount] at hcover
  simp only [sliceOf, FragmentedSample.slice]
  rw [List.drop_take]
  rcases hcut with hcut | hcut
  · rw [hcut, Nat.add_sub_cancel_left]
  · rw [List.take_of_length_le (by rw [List.length_drop, hcut]),
      List.take_of_length_le (by rw [List.length_drop, ← hcut]; exact hcover)]

theorem total_lt_of_length_le (hnum : 1 ≤ num)
    (hle : x.payload.length ≤ (num - 1) * x.fragmentSize) : x.total < num := by
  have := x.lt_payload_length
  by_contra hge
  have := Nat.mul_le_mul_right x.fragmentSize (show num - 1 ≤ x.total - 1 by omega)
  omega

theorem slicesFrom_spec (hper : 1 ≤ perMessage) (hnum : 1 ≤ num)
    (hfuel : x.payload.length - (num - 1) * x.fragmentSize ≤ fuel) :
    (∀ s ∈ slicesFrom x.payload x.fragmentSize perMessage fuel num ((num - 1) * x.fragmentSize),
      Cuts x s) ∧
    ∀ f, num ≤ f → f ≤ x.total →
      ∃ s ∈ slicesFrom x.payload x.fragmentSize perMessage fuel num
        ((num - 1) * x.fragmentSize), s.number ≤ f ∧ f < s.number + s.count := by
  have hsize := x.fragmentSize_pos
  induction fuel generalizing num with
  | zero =>
    have := total_lt_of_length_le x hnum (by omega)
    exact ⟨by simp [slicesFrom], fun f h1 h2 => absurd this (by omega)⟩
  | succ fuel ih =>
    by_cases hlt : (num - 1) * x.fragmentSize < x.payload.length
    · have hstep : 1 * 1 ≤ perMessage * x.fragmentSize := Nat.mul_le_mul hper hsize
      simp only [slicesFrom, hlt, if_true]
      rcases le_or_gt ((num - 1) * x.fragmentSize + perMessage * x.fragmentSize) x.payload.length
        with hfull | hlast
      -- a full message, behind which the loop goes on at a fragment boundary
      · have hcount : divCeil ((num - 1) * x.fragmentSize + perMessage * x.fragmentSize -
            (num - 1) * x.fragmentSize) x.fragmentSize = perMessage := by
          rw [Nat.add_sub_cancel_left, divCeil_mul hsize]
        have hnext : (num + perMessage - 1) * x.fragmentSize =
            (num - 1) * x.fragmentSize + perMessage * x.fragmentSize := by
          rw [← Nat.add_mul]
          congr 1
          omega
        obtain ⟨hcuts, hall⟩ := ih (show 1 ≤ num + perMessage by omega) (by omega)
        rw [hnext] at hcuts hall
        rw [Nat.min_eq_left hfull, hcount]
        refine ⟨List.forall_mem_cons.mpr ⟨?_, hcuts⟩, fun f hlo hhi => ?_⟩
        · exact cuts_of_stop x hnum hcount.symm (by omega) hfull (.inl rfl)
        · rcases lt_or_ge f (num + perMessage) with hf | hf
          · exact ⟨_, List.mem_cons_self, hlo, hf⟩
          · obtain ⟨s, hs, hin⟩ := hall f hf hhi
            exact ⟨s, List.mem_cons_of_mem _ hs, hin⟩
      -- the last message
      · have hend : ∀ num' fuel', slicesFrom x.payload x.fragmentSize perMessage fuel' num'
            x.payload.length = [] := by
          intro num' fuel'
          cases fuel' <;> simp [slicesFrom]
        have htotal := divCeil_add_mul (k := num - 1)
          (b := x.payload.length - (num - 1) * x.fragmentSize) hsize
        rw [show (num - 1) * x.fragmentSize + (x.payload.length - (num - 1) * x.fragmentSize) =
          x.payload.length by omega] at htotal
        rw [Nat.min_eq_right (by omega), hend]
        refine ⟨List.forall_mem_cons.mpr ⟨?_, by simp⟩, fun f hlo hhi =>
          ⟨_, List.mem_cons_self, hlo, ?_⟩⟩
        · exact cuts_of_stop x hnum rfl hlt (le_refl _) (.inr rfl)
        · have : x.total = _ := htotal
          simp only
          omega
    · have := total_lt_of_length_le x hnum (by omega)
      simp only [slicesFrom, hlt, if_false]
      exact ⟨by simp, fun f h1 h2 => absurd this (by omega)⟩

def fragmented (v : SendView) (sn : Int) (payload : Octets) (peer : Guid)
    (hpos : 1 ≤ payload.length) (hle : payload.length ≤ u32Max) : FragmentedSample where
  sn := sn
  payload := payload
  fragmentSize := v.fragmentSizeFor sn
  keyHash := (v.sampleInlineQos sn peer).bind InlineQos.findKeyHash
  payload_pos := hpos
  payload_le := hle
  fragmentSize_pos := le_max_right _ _

theorem Cuts.carries {hpos : 1 ≤ payload.length} {hle : payload.length ≤ u32Max}
    {s : FragmentSlice} (h : Cuts (v.fragmented sn payload peer hpos hle) s) :
    (v.fragmented sn payload peer hpos hle).Carries (v.dataFragOf sn s peer) where
  writerSn := rfl
  sampleSize := h.sampleSize
  fragmentSize := h.size
  start_pos := h.number_pos
  count_pos := h.count_pos
  in_range := h.in_range
  payload := ⟨[], by simpa [dataFragOf] using h.bytes, fun _ => rfl⟩
  keyHash := fun _ hkey => hkey

theorem one_le_fragmentsPerMessage (v : SendView) (sn : Int) (peer : Guid) (size : Nat) :
    1 ≤ v.fragmentsPerMessage sn peer size := by
  exact Nat.le_min.mpr ⟨le_max_right _ _, by decide⟩

theorem slicesOf_spec (sn : Int) (peer : Guid) (hpos : 1 ≤ payload.length)
    (hle : payload.length ≤ u32Max) :
    (∀ s ∈ v.slicesOf sn payload peer, Cuts (v.fragmented sn payload peer hpos hle) s) ∧
    ∀ f, 1 ≤ f → f ≤ (v.fragmented sn payload peer hpos hle).total →
      ∃ s ∈ v.slicesOf sn payload peer, s.number ≤ f ∧ f < s.number + s.count := by
  have hspec := slicesFrom_spec (v.fragmented sn payload peer hpos hle)
    (v.one_le_fragmentsPerMessage sn peer (v.fragmentSizeFor sn)) (le_refl 1)
    (show payload.length - (1 - 1) * _ ≤ payload.length from Nat.sub_le _ _)
  rw [Nat.sub_self, Nat.zero_mul] at hspec
  exact hspec

theorem writerSn_dataOf (sn : Int) (payload : Octets) (peer : Guid) :
    (v.dataOf sn payload peer).writerSn = sn := by
  unfold dataOf
  split
  · next d hd =>
    unfold compactData at hd
    split at hd
    · cases hd
    · split at hd
      · cases hd
      · obtain rfl := Option.some.inj hd
        rfl
  · rfl

theorem changeSubmessage_form (h : v.changeSubmessage sn peer = some s) :
    s = .gap (v.gapOf sn peer) ∨ ∃ d, s = .data d ∧ d.writerSn = sn := by
  unfold changeSubmessage at h
  split at h
  · obtain rfl := Option.some.inj h
    exact .inl rfl
  · split at h
    · obtain rfl := Option.some.inj h
      exact .inr ⟨_, rfl, rfl⟩
    · split at h
      · cases h
      · split at h
        · obtain rfl := Option.some.inj h
          exact .inr ⟨_, rfl, writerSn_dataOf sn _ peer⟩
        · obtain rfl := Option.some.inj h
          exact .inl rfl

def changeContents (v : SendView) (sn : Int) (peer : Guid) : List Submessage :=
  match v.changeSubmessage sn peer with
  | some s => [s]
  | none => v.sampleContents sn (v.payloadOf sn) peer

theorem changeSubmessage_content (h : v.changeSubmessage sn peer = some s) :
    s.isFramingOnly = false := by
  unfold changeSubmessage at h
  repeat' (split at h)
  all_goals first | cases h; rfl | cases h

theorem appendChange_contents (h : v.appendChange a sn peer targets = .ok a') :
    a'.contents = a.contents ++ v.changeContents sn peer := by
  rw [appendChange_eq] at h
  unfold changeContents
  cases hs : v.changeSubmessage sn peer with
  | some s =>
    rw [hs] at h
    rw [appendSubmessage_contents (changeSubmessage_content hs) h]
    simp [Assembly.contents, contents_stampFor]
  | none =>
    rw [hs] at h
    cases hds : v.buildSampleDatagrams sn (v.payloadOf sn) peer targets with
    | error e => simp [hds, Except.map] at h
    | ok ds =>
      simp only [hds] at h
      obtain rfl := Except.ok.inj h
      simp [Assembly.contents, contents_open, Assembly.contents_finish,
        buildSampleDatagrams_contents hds]

theorem appendAll_contents {sns : List Int} (h : v.appendAll peer targets sns a = .ok a') :
    a'.contents = a.contents ++ sns.flatMap fun sn => v.changeContents sn peer := by
  induction sns generalizing a with
  | nil =>
    obtain rfl := Except.ok.inj h
    simp
  | cons sn sns ih =>
    rw [appendAll] at h
    split at h
    · cases h
    · next a₁ h₁ => rw [ih h, appendChange_contents h₁, List.flatMap_cons, List.append_assoc]

theorem contents_openAssembly (p : ReaderProxy) (out : List AddressedDatagram) :
    (v.openAssembly p out).contents = contents out := by
  simp [Assembly.contents, openAssembly, contents_open]

end SendView

/-! ### What brings a change -/

/-- The submessages bring the reader the change `n` or rule it out: as a DATA, as
DATA_FRAGs of all its fragments, or by a GAP that names it. -/
def Brings (cache : HistoryCache) (l : List Submessage) (n : Int) : Prop :=
  (∃ d, .data d ∈ l ∧ d.writerSn = n) ∨
    (∃ g, .gap g ∈ l ∧ n ∈ Delivery.gapNumbers g) ∨
    ∃ x : FragmentedSample, x.sn = n ∧ (cache.get n).map (·.payload) = some x.payload ∧
      ∀ f, 1 ≤ f → f ≤ x.total → ∃ df, .dataFrag df ∈ l ∧ x.Carries df ∧ f ∈ df.covers

theorem Brings.mono {cache : HistoryCache} {l l' : List Submessage} {n : Int}
    (h : Brings cache l n) (hsub : l ⊆ l') : Brings cache l' n := by
  rcases h with ⟨d, hd, hn⟩ | ⟨g, hg, hn⟩ | ⟨x, hsn, hpayload, hall⟩
  · exact .inl ⟨d, hsub hd, hn⟩
  · exact .inr (.inl ⟨g, hsub hg, hn⟩)
  · refine .inr (.inr ⟨x, hsn, hpayload, fun f hlo hhi => ?_⟩)
    obtain ⟨df, hdf, hcarries⟩ := hall f hlo hhi
    exact ⟨df, hsub hdf, hcarries⟩

namespace SendView

variable {v : SendView} {peer : Guid} {targets : List Locator}

theorem brings_gap (cache : HistoryCache) (sn : Int) :
    Brings cache [.gap (v.gapOf sn peer)] sn := by
  refine .inr (.inl ⟨_, List.mem_singleton_self _, ?_⟩)
  simp [Delivery.gapNumbers, gapOf, Int.mem_range_iff]

variable {sn : Int} {payload : Octets}

theorem length_le_of_build {ds : List AddressedDatagram}
    (h : v.buildSampleDatagrams sn payload peer targets = .ok ds)
    (hrel : v.isRelevant sn peer = true) (hfrag : v.needsFragmentation sn peer payload = true) :
    payload.length ≤ u32Max := by
  by_contra hlong
  simp [buildSampleDatagrams, hrel, hfrag, show u32Max < payload.length by omega] at h

theorem sampleContents_brings (hpayload : (v.cache.get sn).map (·.payload) = some payload)
    (hlen : v.isRelevant sn peer = true → v.needsFragmentation sn peer payload = true →
      payload.length ≤ u32Max) : Brings v.cache (v.sampleContents sn payload peer) sn := by
  unfold sampleContents
  split
  · exact brings_gap v.cache sn
  · next hrel =>
    split
    · exact .inl ⟨_, List.mem_singleton_self _, writerSn_dataOf sn payload peer⟩
    · next hfrag =>
      have hpos : 1 ≤ payload.length := by
        unfold needsFragmentation at hfrag
        cases payload with
        | nil => simp at hfrag
        | cons b bs => simp
      have hle := hlen (by simpa using hrel) (by simpa using hfrag)
      obtain ⟨hcuts, hall⟩ := slicesOf_spec (v := v) sn peer hpos hle
      refine .inr (.inr ⟨v.fragmented sn payload peer hpos hle, rfl, hpayload, fun f hlo hhi => ?_⟩)
      obtain ⟨s, hs, hin⟩ := hall f hlo hhi
      exact ⟨_, List.mem_map_of_mem hs, (hcuts s hs).carries, Finset.mem_Ico.mpr hin⟩

theorem changeContents_brings (h : v.ChangeFits sn peer targets) :
    Brings v.cache (v.changeContents sn peer) sn := by
  unfold ChangeFits at h
  unfold changeContents
  cases hs : v.changeSubmessage sn peer with
  | some s =>
    rcases changeSubmessage_form hs with rfl | ⟨d, rfl, hsn⟩
    · exact brings_gap v.cache sn
    · exact .inl ⟨d, List.mem_singleton_self _, hsn⟩
  | none =>
    rw [hs] at h
    obtain ⟨ds, hds⟩ := h
    refine sampleContents_brings ?_ (length_le_of_build hds)
    cases hget : v.cache.get sn with
    | none => simp [changeSubmessage, hget] at hs
    | some change => simp [payloadOf, hget]

end SendView
end ZeroDds.Rtps
