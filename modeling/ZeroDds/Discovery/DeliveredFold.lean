/-
What is known after SEDP has delivered.
-/
import ZeroDds.Discovery.OwnEndpoints
import ZeroDds.Lib.Edits
import ZeroDds.Rtps.WriterOrder

namespace ZeroDds.Discovery

open Rtps

section Endpoints

variable {D : Type} [Endpoint D]

def editOf (now : Nat) : SedpItem D → Option (Edit Guid (Discovered D))
  | .announced a => some (.put (Endpoint.key a.data) ⟨a.data, now, none⟩)
  | .disposed g => some (.drop g)
  | .nothing => none

abbrev Timed := DeliveredSample × Nat

def applySample (read : ReadSample D) (known : SortedMap Guid (Discovered D)) (e : Timed) :
    SortedMap Guid (Discovered D) :=
  match read e.1 with
  | .ok (.announced a) => known.insert (Endpoint.key a.data) ⟨a.data, e.2, none⟩
  | .ok (.disposed g) => known.erase g
  | .ok .nothing | .error _ => known

def knownAfter (read : ReadSample D) (log : List Timed) : SortedMap Guid (Discovered D) :=
  log.foldl (applySample read) .empty

def editsOf (read : ReadSample D) (now : Nat) (samples : List DeliveredSample) :
    List (Edit Guid (Discovered D)) :=
  (itemsOf read samples).filterMap (editOf now)

theorem foldl_applySample_batch (read : ReadSample D) (now : Nat) (samples : List DeliveredSample)
    (known : SortedMap Guid (Discovered D)) :
    (samples.map fun s => (s, now)).foldl (applySample read) known =
      (editsOf read now samples).foldl Edit.apply known := by
  induction samples generalizing known with
  | nil => rfl
  | cons s samples ih =>
    rw [List.map_cons, List.foldl_cons, ih]
    cases hread : read s with
    | error e =>
      have hitems : itemsOf read (s :: samples) = itemsOf read samples := by
        simp [itemsOf, hread, Except.toOption]
      simp only [editsOf, hitems, applySample, hread]
    | ok item =>
      have hitems : itemsOf read (s :: samples) = item :: itemsOf read samples := by
        simp [itemsOf, hread, Except.toOption]
      cases item <;>
        simp only [editsOf, hitems, applySample, hread, List.filterMap_cons, editOf,
          List.foldl_cons, Edit.apply]

theorem puts_filterMap_editOf (now : Nat) (items : List (SedpItem D)) :
    Edit.puts (items.filterMap (editOf now)) =
      (announcedOf items).map fun a => (Endpoint.key a.data, ⟨a.data, now, none⟩) := by
  induction items with
  | nil => rfl
  | cons item items ih =>
    cases item <;> simp only [List.filterMap_cons, editOf, Edit.puts, ih, announcedOf,
      List.map_cons]

theorem drops_filterMap_editOf (now : Nat) (items : List (SedpItem D)) :
    Edit.drops (items.filterMap (editOf now)) = disposedOf items := by
  induction items with
  | nil => rfl
  | cons item items ih =>
    cases item <;> simp only [List.filterMap_cons, editOf, Edit.drops, ih, disposedOf]

def NothingHanded (known : SortedMap Guid (Discovered D)) : Prop :=
  ∀ g d, known.get? g = some d → d.in_process = none

theorem nothingHanded_knownAfter (read : ReadSample D) (log : List Timed) :
    NothingHanded (knownAfter read log) := by
  have hfold : ∀ (log : List Timed) (known : SortedMap Guid (Discovered D)),
      NothingHanded known → NothingHanded (log.foldl (applySample read) known) := by
    intro log
    induction log with
    | nil => exact fun _ h => h
    | cons e log ih =>
      intro known h
      apply ih
      intro g d hget
      unfold applySample at hget
      split at hget
      · rw [SortedMap.get?_insert] at hget
        split at hget
        · cases hget
          rfl
        · exact h g d hget
      · rw [SortedMap.get?_erase] at hget
        split at hget
        · cases hget
        · exact h g d hget
      · exact h g d hget
      · exact h g d hget
  exact hfold log _ nofun

end Endpoints

section Absorb

variable {D : Type} [Endpoint D]

theorem absorbAdded_evicted (now : Nat) (t : EndpointTable D) (evicted : Nat)
    (added : List (Announced D)) (h : (absorbAdded now t evicted added).2.1 = 0) : evicted = 0 := by
  induction added generalizing t evicted with
  | nil => exact h
  | cons a rest ih =>
    unfold absorbAdded EndpointTable.insertAnnounced at h
    by_cases hnewer : t.handedNewer a.data a.sequence = true
    · simp only [hnewer, if_true] at h
      exact ih t evicted h
    · simp only [hnewer, Bool.false_eq_true, if_false] at h
      have hzero := ih _ _ h
      split at hzero
      · unfold satInc at hzero
        split at hzero <;> omega
      · exact hzero

theorem entries_absorbAdded (now : Nat) (added : List (Announced D)) (t : EndpointTable D)
    (hhanded : NothingHanded t.entries) (hkept : (absorbAdded now t 0 added).2.1 = 0) :
    (absorbAdded now t 0 added).1.entries =
      Edit.putAll t.entries
        (added.map fun a => (Endpoint.key a.data, ⟨a.data, now, none⟩)) := by
  induction added generalizing t with
  | nil => rfl
  | cons a rest ih =>
    have hprocess : (t.entries.get? (Endpoint.key a.data)).bind Discovered.in_process = none := by
      cases hget : t.entries.get? (Endpoint.key a.data) with
      | none => rfl
      | some d => exact hhanded _ d hget
    have hnewer : t.handedNewer a.data a.sequence = false := by
      rw [EndpointTable.handedNewer, hprocess]
      rfl
    unfold absorbAdded EndpointTable.insertAnnounced at hkept ⊢
    simp only [hnewer, Bool.false_eq_true, if_false] at hkept ⊢
    have hgone : (t.insert a.data now).2.2 = false := by
      have hzero := absorbAdded_evicted now _ _ rest hkept
      by_contra hevicted
      rw [Bool.not_eq_false] at hevicted
      rw [hevicted] at hzero
      simp [satInc] at hzero
    have hentries := EndpointTable.entries_insert hgone
    rw [hprocess] at hentries
    simp only [hgone, Bool.false_eq_true, if_false] at hkept ⊢
    have hhanded' : NothingHanded (t.insert a.data now).1.entries := by
      intro g d hget
      rw [hentries, SortedMap.get?_insert] at hget
      split at hget
      · cases hget
        rfl
      · exact hhanded g d hget
    rw [ih _ hhanded' hkept, hentries]
    rfl

omit [Endpoint D] in
theorem entries_absorbRemoved (t : EndpointTable D) (removed : List Guid) :
    (absorbRemoved t removed).entries = Edit.dropAll t.entries removed := by
  induction removed generalizing t with
  | nil => rfl
  | cons g rest ih =>
    have hcons : absorbRemoved t (g :: rest) = absorbRemoved (t.remove g) rest := rfl
    rw [hcons, ih, EndpointTable.entries_remove]
    rfl

theorem entries_absorb_batch {read : ReadSample D} {now : Nat} {t : EndpointTable D}
    {samples : List DeliveredSample} (hhanded : NothingHanded t.entries)
    (hkept : (absorbAdded now t 0 (announcedOf (itemsOf read samples))).2.1 = 0) :
    (absorbRemoved (absorbAdded now t 0 (announcedOf (itemsOf read samples))).1
        (disposedOf (itemsOf read samples))).entries =
      Edit.regrouped t.entries (editsOf read now samples) := by
  rw [entries_absorbRemoved, entries_absorbAdded now _ t hhanded hkept, Edit.regrouped, editsOf,
    puts_filterMap_editOf, drops_filterMap_editOf]

end Absorb

namespace SedpStack

variable {P S T : Type} [Endpoint P] [Endpoint S] [Endpoint T]

inductive SedpInput where
  | discovered (remotePrefix : GuidPrefix) (unicast : List Locator) (flags : UInt32)
  | submessage (w : Walked) (now : Nat)

abbrev Deliveries := Option (SedpReader × List Timed)

variable (codec : SedpCodec P S T)

def sedpStep (st : SedpStack P S T) : SedpInput → SedpStack P S T × Deliveries
  | .discovered remotePrefix unicast flags =>
    (st.onParticipantDiscovered remotePrefix unicast flags, none)
  | .submessage w now =>
    ((handleSubmessage codec now (st, {}) w).1,
      (st.target w).map fun t => (t.1, (st.released now w t.1).map fun s => (s, now)))

def settledBatch (r : SedpReader) (now : Nat) (samples : List DeliveredSample) : Prop :=
  match r with
  | .publications | .securePublications =>
    Edit.Settled (editsOf (readEndpoint codec.publication) now samples)
  | .subscriptions | .secureSubscriptions =>
    Edit.Settled (editsOf (readEndpoint codec.subscription) now samples)
  | .topics => True

/-- What a submessage releases can be read and announces no endpoint after disposing it. -/
def InOrderBatch (st : SedpStack P S T) : SedpInput → Prop
  | .discovered .. => True
  | .submessage w now => ∀ t ∈ st.target w,
      (∀ s ∈ st.released now w t.1, decodable codec t.1 w.source_vendor_id s = true) ∧
        settledBatch codec t.1 now (st.released now w t.1)

instance (r : SedpReader) (now : Nat) (samples : List DeliveredSample) :
    Decidable (settledBatch codec r now samples) :=
  match r with
  | .publications | .securePublications => Edit.Settled.decidable _
  | .subscriptions | .secureSubscriptions => Edit.Settled.decidable _
  | .topics => .isTrue trivial

instance (st : SedpStack P S T) : (i : SedpInput) → Decidable (st.InOrderBatch codec i)
  | .discovered .. => .isTrue trivial
  | .submessage w now =>
    match h : st.target w with
    | none => .isTrue (by simp [InOrderBatch, h])
    | some t =>
      decidable_of_iff
        ((∀ s ∈ st.released now w t.1, decodable codec t.1 w.source_vendor_id s = true) ∧
          settledBatch codec t.1 now (st.released now w t.1)) (by simp [InOrderBatch, h])

def ofPublications : SedpReader → Bool
  | .publications | .securePublications => true
  | .subscriptions | .secureSubscriptions | .topics => false

def ofSubscriptions : SedpReader → Bool
  | .subscriptions | .secureSubscriptions => true
  | .publications | .securePublications | .topics => false

def deliveredBy (which : SedpReader → Bool) (h : History SedpInput Deliveries) : List Timed :=
  h.flatMap fun e => (e.2.filter fun d => which d.1).elim [] Prod.snd

variable (which : SedpReader → Bool)

theorem deliveredBy_snoc (h : History SedpInput Deliveries) (i : SedpInput) (out : Deliveries) :
    deliveredBy which (h ++ [(i, out)]) =
      deliveredBy which h ++ (out.filter fun d => which d.1).elim [] Prod.snd := by
  simp [deliveredBy]

variable {D : Type} {read : ReadSample D} {samples : List DeliveredSample} {now : Nat}

theorem partitionFrom_decodable (hall : ∀ s ∈ samples, (read s).toBool = true) :
    partitionFrom read {} samples =
      .ok ⟨announcedOf (itemsOf read samples), disposedOf (itemsOf read samples)⟩ := by
  rw [partitionFrom_of_all hall, pushAll_eq]
  rfl

theorem table_folds [Endpoint D] {evicted : Nat} {t : EndpointTable D}
    {known : SortedMap Guid (Discovered D)} (hhanded : NothingHanded known)
    (hsettled : Edit.Settled (editsOf read now samples))
    (hknown : evicted = 0 → t.entries = known)
    (hkept : (absorbAdded now t evicted (announcedOf (itemsOf read samples))).2.1 = 0) :
    (absorbRemoved (absorbAdded now t evicted (announcedOf (itemsOf read samples))).1
        (disposedOf (itemsOf read samples))).entries =
      (samples.map fun s => (s, now)).foldl (applySample read) known := by
  obtain rfl : evicted = 0 := absorbAdded_evicted now t evicted _ hkept
  have hentries := hknown rfl
  rw [entries_absorb_batch (hentries ▸ hhanded) hkept, hentries, foldl_applySample_batch]
  exact ((Edit.foldl_apply_eq_regrouped_iff known _).mpr hsettled).symm

/-- The invariant of a run: the endpoints known are what was delivered says, and each writer's
samples were delivered in order. -/
structure Folded (h : History SedpInput Deliveries) (st : SedpStack P S T) : Prop where
  publications : st.cache.evicted = 0 → st.cache.publications.entries =
    knownAfter (readEndpoint codec.publication) (deliveredBy ofPublications h)
  subscriptions : st.cache.evicted = 0 → st.cache.subscriptions.entries =
    knownAfter (readEndpoint codec.subscription) (deliveredBy ofSubscriptions h)
  rising : ∀ r, (st.readers r).Rising ((deliveredBy (fun x => x = r) h).map Prod.fst)

theorem absorb_readers (st : SedpStack P S T) (r : SedpReader) (writer : Guid) (sender : VendorId)
    (now : Nat) (events : SedpEvents P S T) (samples : List DeliveredSample) :
    (st.absorb codec r writer sender now events samples).1.readers = st.readers := by
  cases r with
  | publications | securePublications =>
    simp only [absorb]
    cases partitionPublicationSamples codec samples <;> rfl
  | subscriptions | secureSubscriptions =>
    simp only [absorb]
    cases partitionSubscriptionSamples codec samples <;> rfl
  | topics =>
    simp only [absorb]
    cases partitionTopicSamples codec samples sender <;> rfl

theorem receive_rising {reader : ReliableReader} {log : List DeliveredSample}
    (h : reader.Rising log) (sourcePrefix : GuidPrefix) (now : Nat) (sub : Submessage) :
    (receive reader sourcePrefix now sub).1.Rising
      (log ++ (receive reader sourcePrefix now sub).2) := by
  unfold receive
  cases readerOp sourcePrefix now sub with
  | none => simpa using h
  | some op => exact h.step op

section Batch

variable {codec} {st : SedpStack P S T} {writer : Guid} {now : Nat} {events : SedpEvents P S T}
  {samples : List DeliveredSample} {pubs subs : List Timed}

structure Tables (codec : SedpCodec P S T) (pubs subs : List Timed)
    (cache : DiscoveredEndpointsCache P S) : Prop where
  publications : cache.evicted = 0 →
    cache.publications.entries = knownAfter (readEndpoint codec.publication) pubs
  subscriptions : cache.evicted = 0 →
    cache.subscriptions.entries = knownAfter (readEndpoint codec.subscription) subs

omit [Endpoint T] in
theorem absorbPubDelta_folds (h : Tables codec pubs subs st.cache)
    (hall : ∀ s ∈ samples, (readEndpoint codec.publication s).toBool = true)
    (hsettled : Edit.Settled (editsOf (readEndpoint codec.publication) now samples)) :
    Tables codec (pubs ++ samples.map fun s => (s, now)) subs
      (st.absorbPubDelta writer (partitionPublicationSamples codec samples) now
        events).1.cache := by
  rw [partitionPublicationSamples, partitionFrom_decodable hall]
  refine ⟨fun hkept => ?_, fun hkept => ?_⟩
  · rw [knownAfter, List.foldl_append]
    exact table_folds (nothingHanded_knownAfter _ pubs) hsettled h.publications hkept
  · exact h.subscriptions (absorbAdded_evicted now _ _ _ hkept)

omit [Endpoint T] in
theorem absorbSubDelta_folds (h : Tables codec pubs subs st.cache)
    (hall : ∀ s ∈ samples, (readEndpoint codec.subscription s).toBool = true)
    (hsettled : Edit.Settled (editsOf (readEndpoint codec.subscription) now samples)) :
    Tables codec pubs (subs ++ samples.map fun s => (s, now))
      (st.absorbSubDelta writer (partitionSubscriptionSamples codec samples) now
        events).1.cache := by
  rw [partitionSubscriptionSamples, partitionFrom_decodable hall]
  refine ⟨fun hkept => ?_, fun hkept => ?_⟩
  · exact h.publications (absorbAdded_evicted now _ _ _ hkept)
  · rw [knownAfter, List.foldl_append]
    exact table_folds (nothingHanded_knownAfter _ subs) hsettled h.subscriptions hkept

omit [Endpoint P] [Endpoint S] in
theorem absorbTopicDelta_cache (st : SedpStack P S T) (writer : Guid)
    (delta : Except SedpReaderError (SedpDelta T)) (events : SedpEvents P S T) :
    (st.absorbTopicDelta writer delta events).1.cache = st.cache := by
  cases delta <;> rfl

theorem absorb_folds (events : SedpEvents P S T) (writer : Guid) (r : SedpReader)
    (sender : VendorId) (h : Tables codec pubs subs st.cache)
    (hall : ∀ s ∈ samples, decodable codec r sender s = true)
    (hsettled : settledBatch codec r now samples) :
    Tables codec (pubs ++ if ofPublications r then samples.map fun s => (s, now) else [])
      (subs ++ if ofSubscriptions r then samples.map fun s => (s, now) else [])
      (st.absorb codec r writer sender now events samples).1.cache := by
  cases r with
  | publications | securePublications =>
    simp only [ofPublications, ofSubscriptions, if_true, Bool.false_eq_true, if_false,
      List.append_nil]
    exact absorbPubDelta_folds h hall hsettled
  | subscriptions | secureSubscriptions =>
    simp only [ofPublications, ofSubscriptions, if_true, Bool.false_eq_true, if_false,
      List.append_nil]
    exact absorbSubDelta_folds h hall hsettled
  | topics =>
    simp only [ofPublications, ofSubscriptions, Bool.false_eq_true, if_false, List.append_nil]
    rw [absorb, absorbTopicDelta_cache]
    exact h

end Batch

theorem deliveredBy_some (h : History SedpInput Deliveries) (i : SedpInput) (r : SedpReader)
    (samples : List Timed) :
    deliveredBy which (h ++ [(i, some (r, samples))]) =
      deliveredBy which h ++ if which r then samples else [] := by
  rw [deliveredBy_snoc]
  by_cases hr : which r = true <;> simp [Option.filter, hr]

theorem deliveredBy_none (h : History SedpInput Deliveries) (i : SedpInput) :
    deliveredBy which (h ++ [(i, none)]) = deliveredBy which h := by
  rw [deliveredBy_snoc]
  simp

variable {st : SedpStack P S T} {w : Walked}

theorem sedpStep_of_none (htarget : st.target w = none) (now : Nat) :
    st.sedpStep codec (.submessage w now) = (st, none) := by
  simp [sedpStep, handleSubmessage, htarget]

theorem sedpStep_of_some {r : SedpReader} {writer : Guid}
    (htarget : st.target w = some (r, writer)) (now : Nat) :
    st.sedpStep codec (.submessage w now) =
      (((st.setReader r (receive (st.readers r) w.sourceGuidPrefix now w.sub).1).absorb codec r
          writer w.source_vendor_id now (st.noteUnmatched r writer w.sub {})
          (st.released now w r)).1,
        some (r, (st.released now w r).map fun s => (s, now))) := by
  simp [sedpStep, handleSubmessage, htarget, released]

variable {h : History SedpInput Deliveries}

theorem Folded.submessage (hfold : Folded codec h st)
    (hok : st.InOrderBatch codec (.submessage w now)) :
    Folded codec (h ++ [(.submessage w now, (st.sedpStep codec (.submessage w now)).2)])
      (st.sedpStep codec (.submessage w now)).1 := by
  cases htarget : st.target w with
  | none =>
    rw [sedpStep_of_none codec htarget]
    refine ⟨?_, ?_, fun r => ?_⟩ <;> rw [deliveredBy_none]
    · exact hfold.publications
    · exact hfold.subscriptions
    · exact hfold.rising r
  | some t =>
    obtain ⟨r, writer⟩ := t
    obtain ⟨hall, hsettled⟩ := hok (r, writer) htarget
    rw [sedpStep_of_some codec htarget]
    have htables := absorb_folds (st.noteUnmatched r writer w.sub {}) writer r w.source_vendor_id
      (show Tables codec _ _ (st.setReader r
        (receive (st.readers r) w.sourceGuidPrefix now w.sub).1).cache from
        ⟨hfold.publications, hfold.subscriptions⟩) hall hsettled
    refine ⟨?_, ?_, fun x => ?_⟩ <;> rw [deliveredBy_some]
    · exact htables.publications
    · exact htables.subscriptions
    · rw [absorb_readers]
      by_cases hx : x = r
      · subst hx
        have hrising := receive_rising (hfold.rising x) w.sourceGuidPrefix now w.sub
        simpa [setReader, released, Function.comp_def] using hrising
      · have hother := hfold.rising x
        simpa [setReader, hx, Ne.symm hx] using hother

omit [Endpoint T] in
theorem Folded.discovered (hfold : Folded codec h st) (remotePrefix : GuidPrefix)
    (unicast : List Locator) (flags : UInt32) :
    Folded codec (h ++ [(.discovered remotePrefix unicast flags, none)])
      (st.onParticipantDiscovered remotePrefix unicast flags) := by
  have hcache : (st.onParticipantDiscovered remotePrefix unicast flags).cache = st.cache := by
    unfold onParticipantDiscovered
    split <;> rfl
  refine ⟨?_, ?_, fun r => ?_⟩ <;> rw [deliveredBy_none]
  · rw [hcache]
    exact hfold.publications
  · rw [hcache]
    exact hfold.subscriptions
  · unfold onParticipantDiscovered
    split
    · exact hfold.rising r
    · show (r.matchParticipant (st.readers r) remotePrefix unicast flags).Rising _
      unfold SedpReader.matchParticipant
      split
      · have hfresh : WriterProxy.Fresh (.new ⟨remotePrefix, r.writerId⟩ unicast [] true) :=
          ⟨_, _, _, _, rfl⟩
        have habsorbed := WriterProxy.new_absorbed ⟨remotePrefix, r.writerId⟩ unicast [] true
        exact (hfold.rising r).addWriterProxy (p := ⟨_, habsorbed⟩) hfresh
      · exact hfold.rising r

theorem initial_unmatched (localPrefix : GuidPrefix) (vendorId : VendorId) (r : SedpReader) :
    (r.initial localPrefix vendorId).writerProxies = [] ∧
      (r.initial localPrefix vendorId).departed = [] := by
  have hplaceholder : ∀ guid placeholder : Guid,
      let reader := (sedpReader guid vendorId [.new placeholder [] [] true]).removeWriterProxy
        placeholder
      reader.writerProxies = [] ∧ reader.departed = [] := by
    intro guid placeholder
    have hidx : (sedpReader guid vendorId [.new placeholder [] [] true]).proxyIndexByWriter
        placeholder = some 0 := by
      simp [sedpReader, ReliableReader.new, ReliableReader.proxyIndexByWriter,
        WriterProxyState.new, WriterProxy.new]
    simp only [ReliableReader.removeWriterProxy, hidx]
    exact ⟨rfl, rfl⟩
  cases r with
  | topics => exact ⟨rfl, rfl⟩
  | publications | subscriptions | securePublications | secureSubscriptions =>
    exact hplaceholder _ _

/-- The cache is what the delivered samples say one by one, and they were delivered writer by
writer in the order of their numbers, in every state of every run whose batches can be read and
announce no endpoint after their last dispose of it. -/
theorem cache_folds_samples {localPrefix : GuidPrefix} {vendorId : VendorId}
    {st : SedpStack P S T} {h : History SedpInput Deliveries}
    (hrun : Reaches (sedpStep codec) (InOrderBatch codec) (.new localPrefix vendorId) h st)
    (hcaps : st.cache.evicted = 0) :
    st.cache.publications.entries =
        knownAfter (readEndpoint codec.publication) (deliveredBy ofPublications h) ∧
      st.cache.subscriptions.entries =
        knownAfter (readEndpoint codec.subscription) (deliveredBy ofSubscriptions h) ∧
      ∀ r writer, (directSns writer ((deliveredBy (fun x => x = r) h).map Prod.fst)).Pairwise
        (· < ·) := by
  have hfold : Folded codec h st := by
    refine hrun.invariant (P := Folded codec) ⟨fun _ => rfl, fun _ => rfl, fun r => ?_⟩ ?_
    · obtain ⟨hproxies, hdeparted⟩ := initial_unmatched localPrefix vendorId r
      exact .of_unmatched hproxies hdeparted
    · intro h st i hfold hok
      cases i with
      | discovered remotePrefix unicast flags =>
        exact hfold.discovered codec remotePrefix unicast flags
      | submessage w now => exact hfold.submessage codec hok
  exact ⟨hfold.publications hcaps, hfold.subscriptions hcaps, fun r w => (hfold.rising r).sorted w⟩

end SedpStack

namespace SedpFixture

open SedpStack

def submessages (ds : List DataSubmessage) : List SedpInput :=
  .discovered remotePrefix [] 0xFFFFFFFF :: ds.map fun d => .submessage (walked d) 0

/-- The second announcement arrives first. -/
theorem reordered_announcements_folded :
    let res := run (sedpStep codec) (.new localPrefix .zerodds)
      (submessages [publicationData 2 (announcement remoteWriter),
        publicationData 1 (announcement ⟨remotePrefix, .userWriterWithKey 1 2 3⟩)])
    res.1.cache.publications.entries =
      knownAfter (readEndpoint codec.publication) (deliveredBy ofPublications res.2) :=
  (cache_folds_samples codec (reaches_run (by decide +kernel)) (by decide +kernel)).1

/-- An endpoint is announced, disposed and announced again; the first announcement arrives last,
and with it all three are released together. -/
theorem announced_again_lost :
    let res := run (sedpStep codec) (.new localPrefix .zerodds)
      (submessages [publicationDispose 2 remoteWriter,
        publicationData 3 (announcement remoteWriter),
        publicationData 1 (announcement remoteWriter)])
    res.1.cache.evicted = 0 ∧
      (∀ e ∈ deliveredBy ofPublications res.2,
        (readEndpoint codec.publication e.1).toBool = true) ∧
      res.1.cache.publications.entries.get? remoteWriter = none ∧
      (knownAfter (readEndpoint codec.publication) (deliveredBy ofPublications res.2)).get?
        remoteWriter = some ⟨⟨remoteWriter⟩, 0, none⟩ := by
  decide +kernel

end SedpFixture

end ZeroDds.Discovery
