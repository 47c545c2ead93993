/-
Committing what was released.
-/
import ZeroDds.Rtps.Matching

namespace ZeroDds.Rtps.ReliableReader

def indexOf (r : ReliableReader) (g : Guid) : Option Nat :=
  r.states.findIdx? fun s => s.proxy.remoteWriterGuid = g

variable {r : ReliableReader} {g : Guid} {j : Nat} {α : Type} {l : List α}

theorem indexOf_some (h : r.indexOf g = some j) :
    ∃ s, r.states[j]? = some s ∧ s.proxy.remoteWriterGuid = g := by
  obtain ⟨hlt, hp, -⟩ := List.findIdx?_eq_some_iff_getElem.mp h
  exact ⟨_, List.getElem?_eq_getElem hlt, by simpa using hp⟩

theorem stateOf_eq (r : ReliableReader) (g : Guid) :
    r.stateOf g = (r.indexOf g).bind fun j => r.states[j]? := by
  unfold stateOf indexOf
  rw [states]
  generalize r.writerProxies ++ r.departed = l
  induction l with
  | nil => rfl
  | cons s l ih =>
    rw [List.find?_cons, List.findIdx?_cons]
    by_cases hs : s.proxy.remoteWriterGuid = g
    · simp [hs]
    · simp only [hs, decide_false]
      rw [ih]
      cases l.findIdx? fun s => decide (s.proxy.remoteWriterGuid = g) with
      | none => rfl
      | some j => rfl

theorem modifyFirst_eq (p : α → Bool) (f : α → α) (l : List α) :
    modifyFirst p f l = match l.findIdx? p with
      | some j => l.modify j f
      | none => l := by
  induction l with
  | nil => rfl
  | cons a l ih =>
    rw [modifyFirst, List.findIdx?_cons]
    by_cases ha : p a = true
    · simp [ha]
    · simp only [ha, Bool.false_eq_true, if_false]
      rw [ih]
      cases l.findIdx? p with
      | none => rfl
      | some j => rfl

theorem modify_append_left (l' : List α) (h : j < l.length) (f : α → α) :
    (l ++ l').modify j f = l.modify j f ++ l' := by
  induction l generalizing j with
  | nil => simp at h
  | cons a l ih =>
    cases j with
    | zero => rfl
    | succ j => simpa using ih (by simpa using h)

theorem modify_append_right (l l' : List α) (j : Nat) (f : α → α) :
    (l ++ l').modify (j + l.length) f = l ++ l'.modify j f := by
  induction l with
  | nil => rfl
  | cons a l ih => simpa [← Nat.add_assoc] using ih

structure SameShape (r r' : ReliableReader) : Prop where
  proxies : r'.writerProxies.length = r.writerProxies.length
  memory : SameMemory r r'

theorem states_modifyStateOf (h : r.indexOf g = some j) (f : WriterProxyState → WriterProxyState) :
    (r.modifyStateOf g f).states = r.states.modify j f ∧ SameShape r (r.modifyStateOf g f) := by
  have hfind : (r.writerProxies ++ r.departed).findIdx?
      (fun s => decide (s.proxy.remoteWriterGuid = g)) = some j := h
  rw [List.findIdx?_append] at hfind
  unfold modifyStateOf
  simp only
  split
  · next hany =>
    obtain ⟨i, hi⟩ : ∃ i, r.writerProxies.findIdx?
        (fun s => decide (s.proxy.remoteWriterGuid = g)) = some i := by
      rw [← Option.isSome_iff_exists, List.findIdx?_isSome]
      exact hany
    rw [hi] at hfind
    obtain rfl : i = j := by simpa using hfind
    have hlt := (List.findIdx?_eq_some_iff_getElem.mp hi).1
    refine ⟨?_, ?_, rfl, rfl⟩
    · simp only [states, modifyFirst_eq, hi]
      rw [modify_append_left _ hlt]
    · simp [modifyFirst_eq, hi]
  · next hnone =>
    have hi : r.writerProxies.findIdx? (fun s => decide (s.proxy.remoteWriterGuid = g)) = none := by
      rw [List.findIdx?_eq_none_iff]
      intro s hs
      simpa using fun hg => hnone (List.any_eq_true.mpr ⟨s, hs, by simpa using hg⟩)
    rw [hi] at hfind
    simp only [Option.none_or, Option.map_eq_some_iff] at hfind
    obtain ⟨i, hi', rfl⟩ := hfind
    refine ⟨?_, rfl, rfl, rfl⟩
    simp only [states, modifyFirst_eq, hi']
    rw [modify_append_right]

def recorded (n : Int) (s : WriterProxyState) : WriterProxyState :=
  { s with committed := (s.committed.insert n).1 }

def forwardedFor (r : ReliableReader) (x : DeliveredSample) : Option (Guid × Int) :=
  x.originalWriter.filter fun o =>
    ((r.stateOf x.writerGuid).any fun s => s.forwarderTrusted) && o.1 ≠ x.writerGuid

def handedFor (x : DeliveredSample) (original : Guid) (n : Int) : DeliveredSample :=
  { x with writerGuid := original, sequenceNumber := n, forwardedBy := some x.writerGuid }

inductive CommitsFor (r : ReliableReader) (o : Guid) (n : Int) : ReliableReader → Bool → Prop
  | waits {j : Nat} {s : WriterProxyState} :
      r.indexOf o = some j → r.states[j]? = some s → (s.receivedCache.get n).isSome = true →
        CommitsFor r o n r false
  | recorded {j : Nat} {s : WriterProxyState} {r' : ReliableReader} :
      r.indexOf o = some j → r.states[j]? = some s → s.receivedCache.get n = none →
        r'.states = r.states.modify j (recorded n) → SameShape r r' →
        CommitsFor r o n r' (s.committed.insert n).2
  | away {known : SnRanges} {r' : ReliableReader} :
      r.indexOf o = none →
        (known = SnRanges.empty ∨ (o, known) ∈ r.forwardedWithoutProxy) →
        (∀ e ∈ r'.forwardedWithoutProxy, e ∈ r.forwardedWithoutProxy ∨
          e = (o, (known.insert n).1)) →
        r'.states = r.states → r'.writerProxies.length = r.writerProxies.length →
        r'.endedWriters = r.endedWriters → CommitsFor r o n r' (known.insert n).2

inductive Commits (r : ReliableReader) (x : DeliveredSample) :
    ReliableReader → Option DeliveredSample → Prop
  | setEnd : x.coherentSetEnd = true → Commits r x r (some x)
  /-- The sample counts for the state of its own writer. -/
  | own {j : Nat} {s : WriterProxyState} {r' : ReliableReader} :
      x.coherentSetEnd = false → r.forwardedFor x = none → r.indexOf x.writerGuid = some j →
        r.states[j]? = some s → r'.states = r.states.modify j (recorded x.sequenceNumber) →
        SameShape r r' →
        Commits r x r' (if (s.committed.insert x.sequenceNumber).2 then some x else none)
  | orphan {r' : ReliableReader} :
      x.coherentSetEnd = false → r.forwardedFor x = none → r.indexOf x.writerGuid = none →
        r'.states = r.states → SameShape r r' → Commits r x r' (some x)
  /-- The sample counts for the writer it is forwarded for. -/
  | forwarded {o : Guid} {n : Int} {fresh : Bool} {r₁ r' : ReliableReader} :
      x.coherentSetEnd = false → r.forwardedFor x = some (o, n) → CommitsFor r o n r₁ fresh →
        r'.states = r₁.states → SameShape r₁ r' →
        Commits r x r' (if fresh then some (handedFor x o n) else none)

theorem stateOf_of_indexOf (h : r.indexOf g = some j) :
    ∃ s, r.states[j]? = some s ∧ r.stateOf g = some s := by
  obtain ⟨s, hget, -⟩ := indexOf_some h
  exact ⟨s, hget, by rw [stateOf_eq, h]; exact hget⟩

theorem stateOf_of_indexOf_none (h : r.indexOf g = none) : r.stateOf g = none := by
  rw [stateOf_eq, h]
  rfl

variable {b : α}

theorem mem_pushBounded {bound : Nat} {a : α} (h : b ∈ pushBounded bound l a) : b ∈ l ∨ b = a := by
  rcases List.mem_append.mp h with h | h
  · split at h
    · exact .inl (List.mem_of_mem_drop h)
    · exact .inl h
  · exact .inr (List.mem_singleton.mp h)

theorem mem_modifyFirst {p : α → Bool} {f : α → α} (h : b ∈ modifyFirst p f l) :
    b ∈ l ∨ ∃ a, l.find? p = some a ∧ b = f a := by
  induction l with
  | nil => cases h
  | cons a l ih =>
    rw [modifyFirst] at h
    by_cases ha : p a = true
    · rw [if_pos ha] at h
      rcases List.mem_cons.mp h with rfl | h
      · exact .inr ⟨a, by rw [List.find?_cons, ha], rfl⟩
      · exact .inl (List.mem_cons_of_mem _ h)
    · rw [if_neg ha] at h
      rcases List.mem_cons.mp h with rfl | h
      · exact .inl List.mem_cons_self
      · rcases ih h with h | ⟨a', ha', hb⟩
        · exact .inl (List.mem_cons_of_mem _ h)
        · exact .inr ⟨a', by simp [ha, ha'], hb⟩

theorem commitForwarded_cases (r : ReliableReader) (o : Guid) (n : Int) :
    CommitsFor r o n (r.commitForwarded o n).1 (r.commitForwarded o n).2 := by
  unfold commitForwarded
  cases hidx : r.indexOf o with
  | some j =>
    obtain ⟨s, hget, hstate⟩ := stateOf_of_indexOf hidx
    rw [hstate]
    simp only
    split
    · next hwaits => exact .waits hidx hget hwaits
    · next hnot =>
      obtain ⟨hstates, hshape⟩ := states_modifyStateOf hidx (recorded n)
      exact .recorded hidx hget (by simpa using hnot) hstates hshape
  | none =>
    rw [stateOf_of_indexOf_none hidx]
    cases hfind : r.forwardedWithoutProxy.find? fun e => e.1 = o with
    | some e =>
      have hkey : e.1 = o := by simpa using List.find?_some hfind
      refine .away hidx (.inr (?_ : (o, e.2) ∈ _)) (fun e' he' => ?_) rfl rfl rfl
      · rw [← hkey]
        exact List.mem_of_find?_eq_some hfind
      · rcases mem_modifyFirst he' with he' | ⟨a, ha, rfl⟩
        · exact .inl he'
        · rw [hfind] at ha
          obtain rfl := Option.some.inj ha
          exact .inr (by rw [hkey])
    | none =>
      have hfresh : (SnRanges.empty.insert n).2 = true :=
        (SnRanges.insert_spec SnRanges.apart_empty n).1.mpr (SnRanges.not_mem_empty n)
      have haway : CommitsFor r o n (r.rememberForwarded o (SnRanges.empty.insert n).1)
          (SnRanges.empty.insert n).2 := by
        refine .away hidx (.inl rfl) (fun e he => ?_) ?_ ?_ ?_
        · unfold rememberForwarded at he
          split at he
          · exact .inl he
          · rcases mem_pushBounded he with he | rfl
            · exact .inl (List.mem_of_mem_filter he)
            · exact .inr rfl
        all_goals
          unfold rememberForwarded
          split <;> rfl
      rwa [hfresh] at haway

variable {x : DeliveredSample} {r' : ReliableReader}

theorem forwardedFor_none (h : x.originalWriter = none) : r.forwardedFor x = none := by
  simp [forwardedFor, h]

theorem SameShape.refl (r : ReliableReader) : SameShape r r := ⟨rfl, rfl, rfl⟩

theorem SameShape.trans {r'' : ReliableReader} (h : SameShape r r') (h' : SameShape r' r'') :
    SameShape r r'' :=
  ⟨h'.proxies.trans h.proxies, h'.memory.forwarded.trans h.memory.forwarded,
    h'.memory.ended.trans h.memory.ended⟩

theorem commitOwn_cases {r₀ : ReliableReader} (hend : x.coherentSetEnd = false)
    (hfor : r₀.forwardedFor x = none) (hstates : r.states = r₀.states) (hshape : SameShape r₀ r) :
    Commits r₀ x (r.commitOwn x).1 (r.commitOwn x).2 := by
  have hindex : r.indexOf x.writerGuid = r₀.indexOf x.writerGuid := by
    rw [indexOf, hstates, indexOf]
  unfold commitOwn
  cases hidx : r.indexOf x.writerGuid with
  | none =>
    rw [stateOf_of_indexOf_none hidx]
    exact .orphan hend hfor (hindex ▸ hidx) hstates hshape
  | some j =>
    obtain ⟨s, hget, hstate⟩ := stateOf_of_indexOf hidx
    obtain ⟨hmod, hkeep⟩ := states_modifyStateOf hidx
      fun s' => { s' with committed := (s.committed.insert x.sequenceNumber).1 }
    have hrecorded : r.states.modify j
        (fun s' => { s' with committed := (s.committed.insert x.sequenceNumber).1 }) =
        r₀.states.modify j (recorded x.sequenceNumber) := by
      rw [← hstates]
      refine List.ext_getElem? fun k => ?_
      rw [List.getElem?_modify, List.getElem?_modify]
      by_cases hk : j = k
      · subst hk
        rw [hget]
        simp [recorded]
      · simp [hk]
    rw [hstate]
    simp only
    have hown : ∀ r' : ReliableReader, r'.states =
        (r.modifyStateOf x.writerGuid fun s' =>
          { s' with committed := (s.committed.insert x.sequenceNumber).1 }).states →
        SameShape (r.modifyStateOf x.writerGuid fun s' =>
          { s' with committed := (s.committed.insert x.sequenceNumber).1 }) r' →
        Commits r₀ x r' (if (s.committed.insert x.sequenceNumber).2 then some x else none) :=
      fun r' hr' hs' => .own hend hfor (hindex ▸ hidx) (hstates ▸ hget)
        (hr'.trans (hmod.trans hrecorded)) (hshape.trans (hkeep.trans hs'))
    cases hfresh : (s.committed.insert x.sequenceNumber).2 with
    | true =>
      have := hown _ rfl (.refl _)
      rwa [hfresh] at this
    | false =>
      have := hown (noteDuplicate (r.modifyStateOf x.writerGuid fun s' =>
          { s' with committed := (s.committed.insert x.sequenceNumber).1 })) rfl ⟨rfl, rfl, rfl⟩
      rwa [hfresh] at this

theorem commitSample_cases (r : ReliableReader) (x : DeliveredSample) :
    Commits r x (r.commitSample x).1 (r.commitSample x).2 := by
  unfold commitSample
  cases hend : x.coherentSetEnd with
  | true => exact .setEnd hend
  | false =>
    simp only [Bool.false_eq_true, if_false]
    cases horiginal : x.originalWriter with
    | none => exact commitOwn_cases hend (forwardedFor_none horiginal) rfl (.refl r)
    | some on =>
      obtain ⟨o, n⟩ := on
      simp only
      split
      · next htrust =>
        have hfor : r.forwardedFor x = some (o, n) := by
          simp [forwardedFor, horiginal, htrust]
        have hcases := r.commitForwarded_cases o n
        rcases hcommit : r.commitForwarded o n with ⟨r₁, fresh⟩
        rw [hcommit] at hcases
        cases fresh with
        | true =>
          have hkept := Commits.forwarded hend hfor hcases rfl (.refl _)
          simpa [handedFor, hend, horiginal] using hkept
        | false => exact .forwarded hend hfor hcases rfl ⟨rfl, rfl, rfl⟩
      · next htrust =>
        have hfor : r.forwardedFor x = none := by
          simp only [forwardedFor, horiginal, Option.filter_some]
          simpa using htrust
        split
        · exact commitOwn_cases hend hfor rfl ⟨rfl, rfl, rfl⟩
        · exact commitOwn_cases hend hfor rfl (.refl r)

def guids (r : ReliableReader) : List Guid := r.states.map fun s => s.proxy.remoteWriterGuid

variable {f : WriterProxyState → WriterProxyState} {n : Int}

theorem guids_modify (h : r'.states = r.states.modify j f)
    (hf : ∀ t, (f t).proxy.remoteWriterGuid = t.proxy.remoteWriterGuid) : r'.guids = r.guids := by
  refine List.ext_getElem? fun k => ?_
  rw [guids, h, guids, List.getElem?_map, List.getElem?_modify, List.getElem?_map]
  by_cases hk : j = k
  · subst hk
    cases r.states[j]? with
    | none => rfl
    | some t => simp [hf]
  · simp [hk]

theorem shape_modify (h : r'.states = r.states.modify j f)
    (hf : ∀ t : WriterProxyState, t.Shape → (f t).Shape) (hshape : ∀ s ∈ r.states, s.Shape) :
    ∀ s ∈ r'.states, s.Shape := by
  intro s hs
  rw [h] at hs
  obtain ⟨k, hk⟩ := List.getElem?_of_mem hs
  rw [List.getElem?_modify] at hk
  cases hget : r.states[k]? with
  | none => simp [hget] at hk
  | some t =>
    have ht := hshape t (List.mem_of_getElem? hget)
    rw [hget] at hk
    by_cases hj : j = k
    · obtain rfl : f t = s := by simpa [hj] using hk
      exact hf t ht
    · obtain rfl : t = s := by simpa [hj] using hk
      exact ht

theorem guids_recorded (h : r'.states = r.states.modify j (recorded n)) : r'.guids = r.guids :=
  guids_modify h fun _ => rfl

theorem shape_recorded (h : r'.states = r.states.modify j (recorded n))
    (hshape : ∀ s ∈ r.states, s.Shape) : ∀ s ∈ r'.states, s.Shape :=
  shape_modify h (fun _ ht => ⟨ht.absorbed, ht.cache⟩) hshape

theorem guids_same (h : r'.states = r.states) : r'.guids = r.guids := by
  rw [guids, h, guids]

theorem oneEach_of_guids (hguids : r'.guids = r.guids)
    (hlength : r'.writerProxies.length = r.writerProxies.length) (h : r.OneEach) : r'.OneEach := by
  have htake : ∀ q : ReliableReader, q.guids.take q.writerProxies.length =
      q.writerProxies.map fun s => s.proxy.remoteWriterGuid := fun q => by
    rw [guids, states, List.map_append, List.take_left' (by simp)]
  rw [OneEach, ← htake, hguids, hlength, htake]
  exact h

theorem addWriterProxy_matched {proxy : WriterProxy} {idx : Nat}
    (h : r.proxyIndexByWriter proxy.remoteWriterGuid = some idx) :
    (r.addWriterProxy proxy).states = r.states.modify idx (fun s =>
        { s with
          proxy := s.proxy.refreshLocators proxy.unicastLocators proxy.multicastLocators }) ∧
      (r.addWriterProxy proxy).forwardedWithoutProxy = r.forwardedWithoutProxy := by
  have hlt := (List.findIdx?_eq_some_iff_getElem.mp h).1
  simp only [addWriterProxy, h, states]
  exact ⟨(modify_append_left _ hlt _).symm, trivial⟩

/-- Every proxy keeps its shape, and no writer is matched twice. -/
structure WellMatched (r : ReliableReader) : Prop where
  shape : ∀ s ∈ r.states, s.Shape
  one : r.OneEach

section

variable (h : r.WellMatched)
include h

theorem WellMatched.finish (op : ReaderOp) : (r.finish op).WellMatched := by
  cases op with
  | releaseHeld =>
    obtain ⟨hproxies, hdeparted, -⟩ := r.drainDeparted_frame
    refine ⟨fun s hs => ?_, ?_⟩
    · rw [ReliableReader.finish, states, hproxies, hdeparted] at hs
      exact h.shape s ((List.Sublist.refl _).append List.filter_sublist |>.subset hs)
    · rw [OneEach, ReliableReader.finish, hproxies]
      exact h.one
  | _ => exact h

theorem WellMatched.addWriterProxy (p : AbsorbedProxy) : (r.addWriterProxy p.1).WellMatched := by
  cases hidx : r.proxyIndexByWriter p.1.remoteWriterGuid with
  | some idx =>
    obtain ⟨hstates, -⟩ := addWriterProxy_matched hidx
    refine ⟨shape_modify hstates (fun t ht => ⟨⟨ht.absorbed.first_le, ht.absorbed.received_gt,
      ht.absorbed.irrelevant_gt⟩, ht.cache⟩) h.shape,
      oneEach_of_guids (guids_modify hstates fun _ => rfl) ?_ h.one⟩
    simp [ReliableReader.addWriterProxy, hidx]
  | none =>
    obtain ⟨hshape, hguid⟩ := r.newState_shape p
    refine ⟨fun s hs => ?_, ?_⟩
    · rw [(addWriterProxy_new hidx).1] at hs
      rcases List.mem_cons.mp (List.perm_middle.subset hs) with rfl | hs
      · exact hshape
      · exact h.shape s hs
    · rw [OneEach, show (r.addWriterProxy p.1).writerProxies = r.writerProxies ++ [r.newState p.1]
        by simp [ReliableReader.addWriterProxy, hidx], List.map_append, List.nodup_append']
      refine ⟨h.one, List.nodup_singleton _, List.disjoint_singleton.mpr fun hmem => ?_⟩
      obtain ⟨t, ht, htguid⟩ := List.mem_map.mp hmem
      exact proxyIndexByWriter_none hidx t ht (htguid.trans hguid)

theorem WellMatched.erased {idx : Nat} {moved : List WriterProxyState}
    (hproxies : r'.writerProxies = r.writerProxies.eraseIdx idx)
    (hdeparted : r'.departed = r.departed ++ moved) (hmoved : ∀ s ∈ moved, s.Shape) :
    r'.WellMatched := by
  have hsub : (r.writerProxies.eraseIdx idx).Sublist r.writerProxies := List.eraseIdx_sublist _ _
  refine ⟨fun s hs => ?_, ?_⟩
  · rw [states, hproxies, hdeparted, ← List.append_assoc] at hs
    rcases List.mem_append.mp hs with hs | hs
    · exact h.shape s ((hsub.append (.refl _)).subset hs)
    · exact hmoved s hs
  · rw [OneEach, hproxies]
    exact h.one.sublist (hsub.map _)

end

/-! ### The states behind the receive part of a call -/

variable {r₁ : ReliableReader} {op : ReaderOp} {outs : List (List DeliveredSample)} {k : Nat}

section

variable (h : Received r op r₁ outs)
include h

theorem Received.moved {s' : WriterProxyState} (hs' : r₁.states[k]? = some s') :
    ∃ s i hs out, r.states[k]? = some s ∧ outs[k]? = some out ∧
      Moves r.bestEffort s i hs out s' := by
  have hlength : r₁.states.length = r.states.length := by
    simp [states, h.proxies, h.departed]
  have hk : k < r.states.length := hlength ▸ (List.getElem?_eq_some_iff.mp hs').1
  obtain ⟨i, hs, out, t, ht, hout, hmoves, -⟩ := h.moves k _ (List.getElem?_eq_getElem hk)
  obtain rfl : s' = t := Option.some.inj (hs'.symm.trans ht)
  exact ⟨_, i, hs, out, List.getElem?_eq_getElem hk, hout, hmoves⟩

theorem Received.shape : ∀ s ∈ r₁.states, s.Shape := by
  intro s' hs'
  obtain ⟨k, hk⟩ := List.getElem?_of_mem hs'
  obtain ⟨s, i, hs, out, -, -, hmoves⟩ := h.moved hk
  exact hmoves.shape

theorem Received.map_states {f : WriterProxyState → α}
    (hf : ∀ s s', WriterProxyState.SameWriter s s' → f s' = f s) :
    r₁.states.map f = r.states.map f := by
  have hlength : r₁.states.length = r.states.length := by
    simp [states, h.proxies, h.departed]
  refine List.ext_getElem (by simp [hlength]) fun k hk hk' => ?_
  obtain ⟨s, i, hs, out, hs', -, hmoves⟩ :=
    h.moved (List.getElem?_eq_getElem (by simpa using hk))
  obtain ⟨_, rfl⟩ := List.getElem?_eq_some_iff.mp hs'
  simpa using hf _ _ hmoves.same

theorem Received.guids : r₁.guids = r.guids :=
  h.map_states fun _ _ hsame => hsame.guid

theorem Received.direct {out : List DeliveredSample} (hout : outs[k]? = some out) (hx : x ∈ out) :
    r.guids[k]? = some x.writerGuid ∧ x.forwardedBy = none := by
  have hk : k < r.states.length := by
    rw [← h.length]
    exact (List.getElem?_eq_some_iff.mp hout).1
  obtain ⟨i, hs, out', s', -, hout', hmoves, -⟩ := h.moves k _ (List.getElem?_eq_getElem hk)
  obtain rfl : out = out' := Option.some.inj (hout.symm.trans hout')
  rw [hmoves.deliveries] at hx
  obtain ⟨hguid, hby⟩ := deliveries_direct hx
  refine ⟨?_, hby⟩
  rw [ReliableReader.guids, List.getElem?_map, List.getElem?_eq_getElem hk, hguid]
  rfl

end

end ZeroDds.Rtps.ReliableReader
