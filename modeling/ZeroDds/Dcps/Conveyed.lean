/-
What an ingest conveys.
-/
import ZeroDds.Dcps.Admissible
import ZeroDds.Dcps.InstanceLife

namespace ZeroDds.Dcps

open InstanceTracker (SameLives)

namespace InstanceTracker

variable {t t₁ t₂ : InstanceTracker}

/-! ### Known instances stay known -/

def HandlesKnown (t : InstanceTracker) : Prop :=
  ∀ kh s, t.stateOf kh = some s → (t.getByHandle s.handle).isSome = true

structure Grows (t t' : InstanceTracker) : Prop where
  stays : ∀ kh s, t.stateOf kh = some s → ∃ s', t'.stateOf kh = some s' ∧ s'.handle = s.handle
  known : HandlesKnown t → HandlesKnown t'

namespace Grows

theorem refl (t : InstanceTracker) : Grows t t := ⟨fun _ s hs => ⟨s, hs, rfl⟩, id⟩

theorem trans (h : Grows t t₁) (h' : Grows t₁ t₂) : Grows t t₂ := by
  refine ⟨fun kh s hs => ?_, fun hk => h'.known (h.known hk)⟩
  obtain ⟨s₁, hs₁, hh₁⟩ := h.stays kh s hs
  obtain ⟨s₂, hs₂, hh₂⟩ := h'.stays kh s₁ hs₁
  exact ⟨s₂, hs₂, hh₂.trans hh₁⟩

theorem of_sameUnder (h : SameUnder InstanceState.handle t t₁)
    (hmap : t₁.handleToKeyhash = t.handleToKeyhash) : Grows t t₁ := by
  refine ⟨fun kh s hs => h.symm.stateOf_eq_some hs, fun hk kh s hs => ?_⟩
  obtain ⟨s₀, hs₀, heq⟩ := h.stateOf_eq_some hs
  have hback := hk kh s₀ hs₀
  rw [heq] at hback
  obtain ⟨s', hs'⟩ := Option.isSome_iff_exists.mp hback
  obtain ⟨kh', hkh', hst⟩ := Option.bind_eq_some_iff.mp hs'
  obtain ⟨s₁, hs₁, _⟩ := h.symm.stateOf_eq_some hst
  rw [getByHandle, hmap, hkh', Option.bind_some, hs₁]
  rfl

variable {kh : KeyHash} {f : InstanceState → InstanceState}

theorem modifyKey (hf : ∀ s, (f s).handle = s.handle) : Grows t (t.modifyKey kh f) :=
  of_sameUnder (.modifyKey hf) rfl

theorem modifyHandle {h : InstanceHandle} (hf : ∀ s, (f s).handle = s.handle) :
    Grows t (t.modifyHandle h f) := by
  unfold InstanceTracker.modifyHandle
  split
  · exact .refl t
  · exact .modifyKey hf

theorem of_sameLives (h : SameLives t t₁) : Grows t t₁ := by
  refine of_sameUnder (fun kh => ?_) h.handles
  have hk := congrArg (Option.map Prod.fst) (h.lives kh)
  simpa [Option.map_map, Function.comp_def, InstanceState.life] using hk

theorem put {s : InstanceState} (h : ∀ s₀, t.stateOf kh = some s₀ → s.handle = s₀.handle) :
    Grows t (t.put kh s) := by
  refine ⟨fun kh' s' hs' => ?_, fun hk kh' s' hs' => ?_⟩
  · by_cases heq : kh' = kh
    · subst heq
      exact ⟨s, by rw [stateOf_put, if_pos rfl], h s' hs'⟩
    · exact ⟨s', by rw [stateOf_put, if_neg heq, hs'], rfl⟩
  · have hget : ∀ k, (t.put kh s).handleToKeyhash.get? k =
        if k = s.handle then some kh else t.handleToKeyhash.get? k :=
      fun k => SortedMap.get?_insert _ _ _ _
    rw [getByHandle, hget]
    by_cases hown : s'.handle = s.handle
    · rw [if_pos hown, Option.bind_some, stateOf_put, if_pos rfl]
      rfl
    · rw [if_neg hown]
      rw [stateOf_put] at hs'
      have hne : kh' ≠ kh := by
        rintro rfl
        rw [if_pos rfl] at hs'
        cases hs'
        exact hown rfl
      rw [if_neg hne] at hs'
      obtain ⟨st, hst⟩ := Option.isSome_iff_exists.mp (hk kh' s' hs')
      obtain ⟨kh₁, hkh₁, hst₁⟩ := Option.bind_eq_some_iff.mp hst
      rw [hkh₁, Option.bind_some, stateOf_put]
      split
      · rfl
      · rw [hst₁]
        rfl

theorem allocated : Grows t t.allocated := by
  unfold InstanceTracker.allocated
  split
  · exact .refl t
  · exact ⟨fun _ s hs => ⟨s, hs, rfl⟩, id⟩

theorem observeAdmitted {keyHolder : Rtps.Octets} {timestamp : Time} {maxInstances : Int}
    {handle : InstanceHandle} {inCache : Nat}
    (h : t.observeAdmitted kh keyHolder timestamp maxInstances = some (t₁, handle, inCache)) :
    Grows t t₁ := by
  unfold InstanceTracker.observeAdmitted at h
  split at h
  · cases h
  · cases hs : t.stateOf kh with
    | some s =>
      simp only [hs] at h
      split at h
      · cases h
        exact .modifyKey fun s => s.handle_noteObserved _ _
      · cases h
        refine .put fun s₀ hs₀ => ?_
        rw [hs] at hs₀
        cases hs₀
        exact s.handle_noteObserved _ _
    | none =>
      simp only [hs] at h
      cases h
      refine allocated.trans (.put fun s₀ hs₀ => ?_)
      rw [stateOf_allocated, hs] at hs₀
      cases hs₀

theorem observeLifecycle (kh : KeyHash) (keyHolder : Option Rtps.Octets) (timestamp : Option Time) :
    Grows t (t.observeLifecycle kh keyHolder timestamp).1 := by
  have hentry : Grows t (t.entry kh keyHolder).2 := by
    unfold entry
    split
    · exact .refl t
    · exact allocated
  refine hentry.trans (.put fun s₀ hs₀ => ?_)
  rw [stateOf_entry] at hs₀
  have hs : (t.entry kh keyHolder).1 = s₀ := by simp [entry, hs₀]
  have hlife : ((((t.entry kh keyHolder).1.withHolder keyHolder).stamped timestamp).counted).life =
      s₀.life := by
    rw [InstanceState.life_counted, InstanceState.life_stamped, InstanceState.life_withHolder, hs]
  exact congrArg Prod.fst hlife

theorem applyMarkerKind (handle : InstanceHandle) (kind : InstanceStateKind)
    (writer : Option WriterGuid) (now : Time) :
    Grows t (DataReader.applyMarkerKind t handle kind writer now).1 := by
  have hleft : ∀ w, Grows t (t.unregisterWriter handle w (some now)) :=
    fun w => .modifyHandle fun s => congrArg Prod.fst (s.life_writerUnregistered w (some now))
  unfold DataReader.applyMarkerKind
  split
  · refine .modifyHandle fun s => ?_
    unfold InstanceState.disposed
    split <;> rfl
  · split
    · simp only
      split
      · exact (hleft _).trans (.modifyHandle fun _ => rfl)
      · exact hleft _
    · refine .modifyHandle fun s => ?_
      unfold InstanceState.unregistered InstanceState.stamped
      simp only [Option.isSome_some, if_true]
      split <;> rfl
  · exact .refl t

theorem dropWriter (writer : WriterGuid) (timestamp : Option Time) :
    Grows t (t.dropWriter writer timestamp).1 := by
  refine of_sameUnder (.modifyAll fun s => ?_) rfl
  unfold InstanceState.writerDropped
  split
  · split <;> rfl
  · rfl

end Grows
end InstanceTracker

open InstanceTracker (Grows HandlesKnown)

namespace DataReader

variable {T : Type} (cfg : ReaderConfig T)

structure Lossless : Prop where
  reliable : cfg.qos.reliable = true
  keepAll : cfg.qos.historyKind = .keepAll
  shared : cfg.qos.exclusiveOwnership = false
  byReception : cfg.qos.bySourceTs = false
  noSeparation : cfg.qos.minSepNanos = 0
  noFilter : cfg.filter = none
  keepsDisposed : cfg.autopurgeDisposedNanos = u128Max
  keepsUnwritten : cfg.autopurgeNowriterNanos = u128Max

def Lasting : StagedIngest → Prop
  | .alive raw => raw.lifespanNanos = 0 ∧ ∃ sample,
      cfg.codec.decode raw.bytes.octets raw.representation raw.bigEndian = .ok sample
  | .lifecycle _ => True

def entryValue : StagedIngest → Option T
  | .alive raw => (cfg.codec.decode raw.bytes.octets raw.representation raw.bigEndian).toOption
  | .lifecycle _ => none

def entryValues (entries : List StagedIngest) : List T := entries.filterMap (entryValue cfg)

def cachedValue (e : CachedSample T) : Option T := if e.info.validData then e.decoded else none

def cachedValues (cache : List (CachedSample T)) : List T := cache.filterMap cachedValue

inductive Sound (t : InstanceTracker) (e : CachedSample T) : Prop
  | marker (hbytes : e.bytes = none) (hvalid : e.info.validData = false)
      (hlasts : e.expiresAt = none)
  | data (b : SampleBytes) (value : T) (s : InstanceState) (hbytes : e.bytes = some b)
      (hvalid : e.info.validData = true) (hlasts : e.expiresAt = none)
      (hvalue : e.decoded = some value)
      (hstate : t.stateOf (cfg.codec.instanceKeyHash value) = some s)
      (hhandle : e.info.instanceHandle = s.handle)

variable {e : CachedSample T}

theorem Sound.grows {t t' : InstanceTracker} (h : Sound cfg t e) (hgrows : Grows t t') :
    Sound cfg t' e := by
  cases h with
  | marker hbytes hvalid hlasts => exact .marker hbytes hvalid hlasts
  | data b value s hbytes hvalid hlasts hvalue hstate hhandle =>
    obtain ⟨s', hs', hh⟩ := hgrows.stays _ _ hstate
    exact .data b value s' hbytes hvalid hlasts hvalue hs' (hhandle.trans hh.symm)

structure Keeping (r : DataReader T) : Prop where
  cache : ∀ e ∈ r.cache, Sound cfg r.instances e
  known : HandlesKnown r.instances
  noHold : r.tbfHold = .empty
  held : ∀ entry ∈ r.heldBack, Lasting cfg entry
  waiting : ∀ entry ∈ r.arrived, Lasting cfg entry

variable {cfg} {r r' : DataReader T}

theorem Keeping.of_grows (h : Keeping cfg r) (hgrows : Grows r.instances r'.instances)
    (hcache : ∀ e ∈ r'.cache, Sound cfg r.instances e) (hhold : r'.tbfHold = r.tbfHold)
    (hheld : r'.heldBack = r.heldBack) (hwaiting : r'.arrived = r.arrived) : Keeping cfg r' where
  cache e he := (hcache e he).grows cfg hgrows
  known := hgrows.known h.known
  noHold := hhold.trans h.noHold
  held := hheld ▸ h.held
  waiting := hwaiting ▸ h.waiting

theorem applyLimits_reliable (hq : Lossless cfg) {handle : InstanceHandle} {inCache : Nat}
    (h : applyLimits cfg r handle inCache = (r', none)) : r' = r := by
  unfold applyLimits at h
  simp only [hq.reliable, Bool.and_true] at h
  cases hover : overInstanceLimit cfg inCache with
  | true => simp [hover] at h
  | false =>
    have hsame : makeInstanceRoom cfg r handle inCache = r := by simp [makeInstanceRoom, hover]
    rw [hover, hsame] at h
    cases hfull : samplesFull cfg r with
    | true => simp [hfull] at h
    | false =>
      simp only [hfull, Bool.false_eq_true, if_false] at h
      cases h
      simp [makeRoom, hfull]

variable {raw : RawIngestSample} {info : SampleInfo}

theorem admit_conveys (hq : Lossless cfg) (hk : Keeping cfg r) (now : Time) (sample : T)
    (hlasts : raw.lifespanNanos = 0) :
    Keeping cfg (admitSample cfg r now raw sample).1 ∧
      ((admitSample cfg r now raw sample).2 = .admitted ∧
          cachedValues (admitSample cfg r now raw sample).1.cache =
            cachedValues r.cache ++ [sample] ∨
        (∃ reason, (admitSample cfg r now raw sample).2 = .refused reason) ∧
          (admitSample cfg r now raw sample).1.cache = r.cache) := by
  rcases admit_cases cfg r now raw sample with
    ⟨_, heq⟩ | ⟨t, handle, n, r₁, inCache, hobs, hhist, hend⟩
  · rw [heq]
    refine ⟨hk, .inr ⟨⟨.instancesLimit, ?_⟩, rfl⟩⟩
    simp [hq.reliable]
  · have hgrows := Grows.observeAdmitted hobs
    obtain ⟨holder, s₁, rfl, rfl, rfl, hstate⟩ := InstanceTracker.observeAdmitted_eq_some _ hobs
    rw [applyHistory, hq.keepAll] at hhist
    cases hhist
    rcases hend with ⟨reason, _, _, heq⟩ | ⟨r₂, s, hlim, hs, heq⟩
    · rw [heq]
      refine ⟨?_, .inr ⟨⟨reason, rfl⟩, rfl⟩⟩
      exact hk.of_grows (hgrows.trans (.modifyHandle fun _ => rfl)) hk.cache rfl rfl rfl
    · rw [heq]
      have hr₂ := applyLimits_reliable hq hlim
      subst hr₂
      have hnoted : Grows r.instances (noteDelivery cfg { r with instances := t } now raw
          (cfg.codec.instanceKeyHash sample)).instances :=
        hgrows.trans (.modifyKey fun _ => rfl)
      have hown := hstate (cfg.codec.instanceKeyHash sample)
      rw [if_pos rfl] at hown
      refine ⟨⟨?_, hnoted.known hk.known, hk.noHold, hk.held, hk.waiting⟩, .inl ⟨rfl, ?_⟩⟩
      · intro e he
        rcases List.mem_append.mp he with he | he
        · exact (hk.cache e he).grows cfg hnoted
        · rw [List.mem_singleton.mp he]
          refine .data raw.bytes sample s rfl rfl ?_ rfl hs ?_
          · simp [RawIngestSample.expiresAt, lifespanExpiry, hlasts]
          · simp only [noteDelivery, InstanceTracker.noteAdmitted] at hs
            rw [InstanceTracker.stateOf_modifyKey, if_pos rfl, hown] at hs
            cases hs
            rfl
      · simp [push, noteDelivery, cachedValues, cachedValue, infoOf]

theorem ingestAlive_eq_admitSample (hq : Lossless cfg) (r : DataReader T) (now : Time)
    {sample : T} (hlasts : raw.lifespanNanos = 0)
    (hdecode : cfg.codec.decode raw.bytes.octets raw.representation raw.bigEndian = .ok sample) :
    ingestAlive cfg r now raw = admitSample cfg r now raw sample := by
  rw [ingestAlive, ingestAliveFiltered_eq_ingestFiltered cfg hlasts hq.noFilter hq.shared hdecode,
    ingestFiltered]
  simp [InstanceTracker.shouldDeliverUnderTimeBasedFilter, hq.noSeparation, supersede,
    InstanceTracker.shouldDeliverUnderDestinationOrder, hq.byReception]

theorem cachedValues_marker {cache : List (CachedSample T)} (h : e.info.validData = false) :
    cachedValues (cache ++ [e]) = cachedValues cache := by
  simp [cachedValues, cachedValue, h]

theorem Keeping.pushMarker (hk : Keeping cfg r) (hinfo : info.validData = false) :
    Keeping cfg (r.pushMarker info) where
  cache e he := by
    rcases List.mem_append.mp he with he | he
    · exact hk.cache e he
    · rw [List.mem_singleton.mp he]
      exact .marker rfl hinfo rfl
  known := hk.known
  noHold := hk.noHold
  held := hk.held
  waiting := hk.waiting

def KeepsValues (cfg : ReaderConfig T) (r r' : DataReader T) : Prop :=
  Keeping cfg r → Keeping cfg r' ∧ cachedValues r'.cache = cachedValues r.cache ∧
    r'.heldBack = r.heldBack ∧ r'.arrived = r.arrived

theorem KeepsValues.refl (r : DataReader T) : KeepsValues cfg r r := fun hk => ⟨hk, rfl, rfl, rfl⟩

theorem KeepsValues.trans {r₁ r₂ : DataReader T} (h : KeepsValues cfg r r₁)
    (h' : KeepsValues cfg r₁ r₂) : KeepsValues cfg r r₂ := by
  intro hk
  obtain ⟨hk₁, hvalues₁, hheld₁, hwaiting₁⟩ := h hk
  obtain ⟨hk₂, hvalues₂, hheld₂, hwaiting₂⟩ := h' hk₁
  exact ⟨hk₂, hvalues₂.trans hvalues₁, hheld₂.trans hheld₁, hwaiting₂.trans hwaiting₁⟩

theorem KeepsValues.of_grows (hgrows : Grows r.instances r'.instances)
    (hcache : r'.cache = r.cache) (hhold : r'.tbfHold = r.tbfHold)
    (hheld : r'.heldBack = r.heldBack) (hwaiting : r'.arrived = r.arrived) : KeepsValues cfg r r' :=
  fun hk => ⟨hk.of_grows hgrows (fun e he => hk.cache e (hcache ▸ he)) hhold hheld hwaiting,
    by rw [hcache], hheld, hwaiting⟩

theorem KeepsValues.pushMarker (r : DataReader T) (hinfo : info.validData = false) :
    KeepsValues cfg r (r.pushMarker info) :=
  fun hk => ⟨hk.pushMarker hinfo, cachedValues_marker hinfo, rfl, rfl⟩

/-- A relation between readers that markers and departures keep, where the instances follow
`R`. -/
structure Endures (cfg : ReaderConfig T) (R : InstanceTracker → InstanceTracker → Prop)
    (Q : DataReader T → DataReader T → Prop) : Prop where
  refl : ∀ r, Q r r
  trans : ∀ {r r₁ r₂}, Q r r₁ → Q r₁ r₂ → Q r r₂
  marker : ∀ r {info : SampleInfo}, info.validData = false → Q r (r.pushMarker info)
  updated : ∀ {r r' : DataReader T}, R r.instances r'.instances → r'.cache = r.cache →
    r'.tbfHold = r.tbfHold → r'.heldBack = r.heldBack → r'.arrived = r.arrived → Q r r'
  marked : ∀ (t : InstanceTracker) kh holder handle kind writer (now : Time), R t
    (applyMarkerKind (t.observeLifecycle kh holder (some now)).1 handle kind writer now).1
  departed : ∀ (t : InstanceTracker) writer (now : Time),
    R t ((t.clearOwnerForWriter writer).dropWriter writer (some now)).1
  strengthened : ∀ (t : InstanceTracker) (changes : List (WriterGuid × Int)),
    R t (changes.foldl (fun t c => t.updateOwnerStrength c.1 c.2) t)

namespace Endures

variable {R : InstanceTracker → InstanceTracker → Prop} {Q : DataReader T → DataReader T → Prop}

section

variable (h : Endures cfg R Q)
include h

theorem pushLifecycleFrom (r : DataReader T) (keyhash : KeyHash)
    (keyHolder : Option Rtps.Octets) (kind : InstanceStateKind) (writer : Option WriterGuid)
    (sourceTimestamp : Option Time) :
    Q r (pushLifecycleFrom cfg r keyhash keyHolder kind writer sourceTimestamp) := by
  unfold DataReader.pushLifecycleFrom
  simp only
  split
  · exact h.refl r
  · next holder _ =>
    have hmarked := h.marked r.instances
      (if cfg.codec.keyed then keyhash else keylessInstanceKey) holder
      (r.instances.observeLifecycle (if cfg.codec.keyed then keyhash else keylessInstanceKey)
        holder (some (r.wallNow cfg).1)).2 kind writer (r.wallNow cfg).1
    split
    · next heq =>
      refine h.updated ?_ rfl rfl rfl rfl
      simp only [wallNow] at heq hmarked
      rw [heq] at hmarked
      exact hmarked
    · next heq =>
      simp only [wallNow] at heq hmarked
      rw [heq] at hmarked
      split
      · exact h.updated hmarked rfl rfl rfl rfl
      · refine h.trans ?_ (h.marker _ rfl)
        exact h.updated hmarked rfl rfl rfl rfl

theorem pushDepartures (writer : WriterGuid) (now : Time) (r : DataReader T)
    (handles : List InstanceHandle) : Q r (pushDepartures writer now r handles) := by
  induction handles generalizing r with
  | nil => exact h.refl r
  | cons handle rest ih =>
    unfold DataReader.pushDepartures
    split
    · exact ih r
    · exact h.trans (h.marker r rfl) (ih _)

theorem departWriter (now : Time) (r : DataReader T) (writer : WriterGuid) :
    Q r (departWriter now r writer) := by
  refine h.trans ?_ (h.pushDepartures writer now _ _)
  exact h.updated (h.departed _ writer now) rfl rfl rfl rfl

theorem applyUnmatchedWriters (r : DataReader T) :
    Q r (applyUnmatchedWriters cfg r) := by
  have hstrength := h.strengthened r.instances r.strengthChanges
  have hdepart : ∀ (gone : List WriterGuid) (now : Time) (r : DataReader T),
      Q r (gone.foldl (DataReader.departWriter now) r) := by
    intro gone now
    induction gone with
    | nil => exact fun r => h.refl r
    | cons writer rest ih => exact fun r => h.trans (h.departWriter now r writer) (ih _)
  unfold DataReader.applyUnmatchedWriters
  simp only
  split
  · exact h.updated hstrength rfl rfl rfl rfl
  · refine h.trans ?_ (hdepart _ _ _)
    exact h.updated hstrength rfl rfl rfl rfl

end

end Endures

theorem endures_keepsValues : Endures cfg Grows (KeepsValues cfg) where
  refl := .refl
  trans := .trans
  marker r _ hinfo := .pushMarker r hinfo
  updated := .of_grows
  marked _ _ _ _ _ _ _ :=
    (Grows.observeLifecycle _ _ _).trans (.applyMarkerKind _ _ _ _)
  departed _ writer now :=
    (Grows.of_sameLives (.clearOwnerForWriter writer)).trans (.dropWriter writer (some now))
  strengthened _ _ :=
    .of_sameLives (SameLives.foldl (fun _ _ => .updateOwnerStrength _ _) _ _)

theorem ingestLifecycle_keeps (r : DataReader T) (m : LifecycleMarker) :
    KeepsValues cfg r (ingestLifecycle cfg r m) := by
  rcases ingestLifecycle_cases cfg r m with ⟨_, heq⟩ | ⟨t, ht, heq⟩
  · rw [heq]
    exact .refl r
  · rw [heq]
    have hgrows : Grows r.instances t := by
      rcases ht with rfl | ⟨w, rfl⟩
      · exact .refl _
      · exact .of_sameLives (.releaseOwnerOf _ _)
    have hreleased : KeepsValues cfg r { r with instances := t } :=
      .of_grows hgrows rfl rfl rfl rfl
    exact hreleased.trans (endures_keepsValues.pushLifecycleFrom _ _ _ _ _ _)

theorem ingestRun_conveys (hq : Lossless cfg) (now : Time) (hk : Keeping cfg r)
    {entries : List StagedIngest} (hlasting : ∀ entry ∈ entries, Lasting cfg entry) :
    ∃ r' back, ingestRun cfg now r entries = (r', .ok back) ∧ Keeping cfg r' ∧
      (∀ entry ∈ back, Lasting cfg entry) ∧
      cachedValues r'.cache ++ entryValues cfg back =
        cachedValues r.cache ++ entryValues cfg entries ∧
      r'.heldBack = r.heldBack ∧ r'.arrived = r.arrived := by
  induction entries generalizing r with
  | nil => exact ⟨r, [], rfl, hk, List.forall_mem_nil _, rfl, rfl, rfl⟩
  | cons entry rest ih =>
    obtain ⟨hentry, hrest⟩ := List.forall_mem_cons.mp hlasting
    cases entry with
    | lifecycle m =>
      obtain ⟨hk₁, hvalues₁, hheld₁, hwaiting₁⟩ := ingestLifecycle_keeps r m hk
      obtain ⟨r', back, hrun, hk', hback, hvalues, hheld, hwaiting⟩ := ih hk₁ hrest
      refine ⟨r', back, hrun, hk', hback, ?_, hheld.trans hheld₁, hwaiting.trans hwaiting₁⟩
      rw [hvalues, hvalues₁]
      rfl
    | alive raw =>
      obtain ⟨hlasts, sample, hdecode⟩ := hentry
      have hvalue : entryValues cfg (.alive raw :: rest) = sample :: entryValues cfg rest := by
        simp [entryValues, entryValue, hdecode, Except.toOption]
      have hstep := ingestAlive_eq_admitSample hq r now hlasts hdecode
      have hqueues := sameQueues_admitSample cfg r now raw sample
      obtain ⟨hk₁, ⟨hverdict, hvalues₁⟩ | ⟨⟨reason, hverdict⟩, hcache₁⟩⟩ :=
        admit_conveys hq hk now sample hlasts
      · obtain ⟨r', back, hrun, hk', hback, hvalues, hheld, hwaiting⟩ := ih hk₁ hrest
        refine ⟨r', back, ?_, hk', hback, ?_, hheld.trans hqueues.heldBack,
          hwaiting.trans hqueues.arrived⟩
        · rw [ingestRun, hstep]
          rcases hadmitted : admitSample cfg r now raw sample with ⟨r₁, verdict⟩
          rw [hadmitted] at hverdict hrun
          subst hverdict
          exact hrun
        · rw [hvalues, hvalues₁, hvalue]
          simp
      · refine ⟨(admitSample cfg r now raw sample).1, .alive raw :: rest, ?_, hk₁, hlasting, ?_,
          hqueues.heldBack, hqueues.arrived⟩
        · rw [ingestRun, hstep]
          rcases hadmitted : admitSample cfg r now raw sample with ⟨r₁, verdict⟩
          rw [hadmitted] at hverdict
          subst hverdict
          rfl
        · rw [hcache₁]

/-! ### The rest of an ingest -/

theorem purgeExpiredByLifespan_of_lasting (hlasts : ∀ e ∈ r.cache, e.expiresAt = none)
    (now : Time) : r.purgeExpiredByLifespan now = r := by
  have hdrain : ∀ (l : List (CachedSample T)) (t : InstanceTracker),
      (∀ e ∈ l, e.expiresAt = none) → drainExpired now t l = t := by
    intro l
    induction l with
    | nil => exact fun _ _ => rfl
    | cons e l ih =>
      intro t hall
      obtain ⟨he, hrest⟩ := List.forall_mem_cons.mp hall
      rw [drainExpired, if_neg (by simp [expired, he])]
      exact ih t hrest
  have hfilter : r.cache.filter (fun s => !expired s.expiresAt now) = r.cache :=
    List.filter_eq_self.mpr fun e he => by simp [expired, hlasts e he]
  simp [purgeExpiredByLifespan, hdrain r.cache r.instances hlasts, hfilter]

theorem purgeExpiredByLifespan_eq (hk : Keeping cfg r) (now : Time) :
    r.purgeExpiredByLifespan now = r := by
  refine purgeExpiredByLifespan_of_lasting (fun e he => ?_) now
  cases hk.cache e he with
  | marker _ _ hlasts => exact hlasts
  | data _ _ _ _ _ hlasts => exact hlasts

theorem runReaderAutopurge_eq (hq : Lossless cfg) (r : DataReader T) (now : Time) :
    runReaderAutopurge cfg r now = r := by
  rw [runReaderAutopurge, if_pos ⟨hq.keepsDisposed, hq.keepsUnwritten⟩]

theorem releaseDueTbf_eq (hk : Keeping cfg r) :
    releaseDueTbf cfg r = ((r.wallNow cfg).2, .ok false) := by
  have hdue : (r.wallNow cfg).2.tbfDue (r.wallNow cfg).1 = [] := by
    rw [tbfDue, show (r.wallNow cfg).2.tbfHold = r.tbfHold from rfl, hk.noHold]
    rfl
  simp [releaseDueTbf, hdue]

theorem ingestPending_conveys (hq : Lossless cfg) (hk : Keeping cfg r) :
    ∃ r', ingestPending cfg r = (r', .ok ()) ∧ Keeping cfg r' ∧
      cachedValues r'.cache ++ entryValues cfg r'.heldBack =
        cachedValues r.cache ++ entryValues cfg (r.heldBack ++ r.arrived) ∧ r'.arrived = [] := by
  have hstart : Keeping cfg
      { r with heldBack := [], arrived := [], readings := r.readings + 1 + 1 } :=
    ⟨hk.cache, hk.known, hk.noHold, List.forall_mem_nil _, List.forall_mem_nil _⟩
  have hlasting : ∀ entry ∈ r.heldBack ++ r.arrived, Lasting cfg entry := by
    intro entry hmem
    rcases List.mem_append.mp hmem with hmem | hmem
    · exact hk.held entry hmem
    · exact hk.waiting entry hmem
  obtain ⟨r₁, back, hrun, hk₁, hback, hvalues, _, hwaiting⟩ :=
    ingestRun_conveys hq (cfg.clock (r.readings + 1)) hstart hlasting
  have hheld : Keeping cfg { r₁ with heldBack := back } :=
    ⟨hk₁.cache, hk₁.known, hk₁.noHold, hback, hk₁.waiting⟩
  obtain ⟨hk₂, hvalues₂, hheld₂, hwaiting₂⟩ := endures_keepsValues.applyUnmatchedWriters _ hheld
  refine ⟨applyUnmatchedWriters cfg { r₁ with heldBack := back }, ?_, hk₂, ?_,
    hwaiting₂.trans hwaiting⟩
  · unfold ingestPending
    simp only [releaseDueTbf_eq hk, ingestStaged, staged, wallNow]
    rw [purgeExpiredByLifespan_eq hstart]
    simp [hrun, runReaderAutopurge_eq hq]
  · rw [hvalues₂, hheld₂]
    exact hvalues

end DataReader
end ZeroDds.Dcps
