/-
Instances and their live writers.
-/
import ZeroDds.Dcps.Admissible
import ZeroDds.Dcps.ExactCounts

namespace ZeroDds.Dcps

open SortedMap

open InstanceTracker (Indexed SameLives ChangedAt ObservedAt)

/-- The writers matched, and the instances each had a sample ingested of since its last
unregister. -/
structure Registrations where
  matched : WriterGuid → Bool
  sampled : KeyHash → WriterGuid → Bool

namespace Registrations

def none : Registrations := ⟨fun _ => false, fun _ _ => false⟩

variable (g : Registrations)

def live (kh : KeyHash) (w : WriterGuid) : Bool :=
  g.matched w && g.sampled kh w

def withMatched (writer : WriterGuid) : Registrations :=
  { g with matched := fun w => w == writer || g.matched w }

def withSample (kh : KeyHash) (writer : WriterGuid) : Registrations :=
  { g with sampled := fun kh' w => (kh' == kh && w == writer) || g.sampled kh' w }

def withoutSamples (kh : KeyHash) (writer : WriterGuid) : Registrations :=
  { g with sampled := fun kh' w => !(kh' == kh && w == writer) && g.sampled kh' w }

def without (writer : WriterGuid) : Registrations where
  matched w := !(w == writer) && g.matched w
  sampled kh w := !(w == writer) && g.sampled kh w

def note {T : Type} (cfg : ReaderConfig T) (g : Registrations) :
    DataReader.ReaderStep T → Registrations
  | .sample _ raw _ =>
    match cfg.codec.decode raw.bytes.octets raw.representation raw.bigEndian with
    | .ok sample => g.withSample (cfg.codec.instanceKeyHash sample) raw.writerGuid
    | .error _ => g
  | .marker m =>
    if m.kind = .notAliveNoWriters then
      g.withoutSamples (DataReader.markerKey cfg m) m.writerGuid
    else g
  | .departure _ writer => g.without writer
  | .lifespan _ | .strength _ _ | .autopurge _ | .takeValues | .takeSelected _ _
  | .takeOfInstance _ | .query _ _ _ _ | .readValues | .readSelected _ _ | .readOfInstance _ => g

end Registrations

namespace DataReader

variable {T : Type} (cfg : ReaderConfig T)

/-! ### The property and its invariant -/

/-- An instance that is not disposed is ALIVE if a live writer writes it, and has no
writers otherwise. -/
def KindsFollow (g : Registrations) (r : DataReader T) : Prop :=
  ∀ kh s, r.instances.stateOf kh = some s → s.kind ≠ .notAliveDisposed →
    (s.kind = .alive ↔ ∃ w, g.live kh w = true) ∧
      (s.kind = .notAliveNoWriters ↔ ¬ ∃ w, g.live kh w = true)

structure Fits (sampled : WriterGuid → Bool)
    (l : InstanceHandle × InstanceStateKind × SortedSet WriterGuid) : Prop where
  writers : ∀ w, l.2.2.contains w = sampled w
  noWriters : l.2.1 = .notAliveNoWriters → l.2.2.isEmpty = true

/-- An ALIVE instance has writers, too; a new one gets its first only when the sample is
admitted. -/
structure Agrees (sampled : WriterGuid → Bool)
    (l : InstanceHandle × InstanceStateKind × SortedSet WriterGuid) : Prop
    extends Fits sampled l where
  alive : l.2.1 = .alive → l.2.2.isEmpty = false

structure WritersKnown (g : Registrations) (r : DataReader T) : Prop where
  indexed : Indexed r.instances
  known : ∀ kh s, r.instances.stateOf kh = some s → Agrees (g.sampled kh) s.life
  unknown : ∀ kh, r.instances.stateOf kh = none → ∀ w, g.sampled kh w = false
  matched : ∀ kh w, g.sampled kh w = true → g.matched w = true
  keyless : cfg.codec.keyed = false → r.instances.stateOf keylessInstanceKey ≠ none →
    r.keylessLast ≠ none

variable {g : Registrations} {r r' : DataReader T}

theorem WritersKnown.live (h : WritersKnown cfg g r) (kh : KeyHash) (w : WriterGuid) :
    g.live kh w = g.sampled kh w := by
  cases hs : g.sampled kh w with
  | false => simp [Registrations.live, hs]
  | true => simp [Registrations.live, hs, h.matched kh w hs]

variable {ws : SortedSet WriterGuid} {now : Time} {raw : RawIngestSample} {sample : T}

theorem exists_contains_iff : (∃ w, ws.contains w = true) ↔ ws.isEmpty = false := by
  constructor
  · rintro ⟨w, hw⟩
    cases he : ws.isEmpty with
    | false => rfl
    | true =>
      rw [SortedMap.contains, isEmpty_iff.mp he w] at hw
      cases hw
  · intro he
    by_contra hnone
    have hempty : ws.isEmpty = true := by
      refine isEmpty_iff.mpr fun w => ?_
      by_contra hw
      exact hnone ⟨w, Option.isSome_iff_ne_none.mpr hw⟩
    rw [he] at hempty
    cases hempty

theorem WritersKnown.kindsFollow (h : WritersKnown cfg g r) : KindsFollow g r := by
  intro kh s hs hdisposed
  have hagrees := h.known kh s hs
  have hlive : (∃ w, g.live kh w = true) ↔ s.writers.isEmpty = false := by
    rw [← exists_contains_iff]
    refine exists_congr fun w => ?_
    rw [h.live cfg kh w, ← hagrees.writers w]
    rfl
  rw [hlive]
  cases hkind : s.kind with
  | alive =>
    have hwritten : s.writers.isEmpty = false := hagrees.alive hkind
    simp [hwritten]
  | notAliveDisposed => exact absurd hkind hdisposed
  | notAliveNoWriters =>
    have hempty : s.writers.isEmpty = true := hagrees.noWriters hkind
    simp [hempty]

theorem writersKnown_new {t : InstanceTracker} (hi : Indexed t)
    (hempty : ∀ kh, t.stateOf kh = none) :
    WritersKnown cfg .none (DataReader.new t : DataReader T) where
  indexed := hi
  known kh s hs := by
    rw [show (DataReader.new t : DataReader T).instances = t from rfl, hempty kh] at hs
    cases hs
  unknown _ _ _ := rfl
  matched _ _ h := by cases h
  keyless _ h := absurd (hempty _) h

/-! ### The last value of a topic without a key -/

theorem Evicts.keylessLast (h : Evicts r r') : r'.keylessLast = r.keylessLast := by
  induction h with
  | refl => rfl
  | tail _ hstep ih =>
    obtain ⟨_, _, _, _, _, rfl, _⟩ := hstep
    exact ih

theorem admit_keylessLast (hkeyed : cfg.codec.keyed = false)
    (h : r.keylessLast ≠ none ∨ (admitSample cfg r now raw sample).2 = .admitted) :
    (admitSample cfg r now raw sample).1.keylessLast ≠ none := by
  rcases admit_cases cfg r now raw sample with
    ⟨_, heq⟩ | ⟨t, handle, n, r₁, inCache, _, hhist, ⟨_, _, _, heq⟩ | ⟨r₂, s, _, _, heq⟩⟩
  · rw [heq] at h ⊢
    refine h.resolve_right ?_
    split <;> exact nofun
  · have hevicts := evicts_applyHistory cfg { r with instances := t } handle n
    rw [hhist] at hevicts
    rw [heq] at h ⊢
    have hlast := Evicts.keylessLast hevicts
    have hkept : (r₁.uncounted handle).keylessLast = r.keylessLast := hlast
    rw [hkept]
    exact h.resolve_right nofun
  · rw [heq]
    simp [push, hkeyed]

theorem sample_keylessLast {timeFilter : Bool} (hkeyed : cfg.codec.keyed = false)
    (h : r.keylessLast ≠ none ∨ (ingestAliveFiltered cfg r now raw timeFilter).2 = .admitted) :
    (ingestAliveFiltered cfg r now raw timeFilter).1.keylessLast ≠ none := by
  rcases ingestAliveFiltered_cases cfg r now raw timeFilter with
    ⟨_, heq, hverdict⟩ | ⟨sample, _, _, hend⟩
  · rw [heq]
    exact h.resolve_right hverdict
  · have hown : (passesExclusiveOwnership cfg r sample raw.writerGuid
        raw.writerStrength).1.keylessLast = r.keylessLast := by
      unfold passesExclusiveOwnership
      split <;> rfl
    rcases hend with heq | ⟨hold, ⟨_, heq⟩ | heq⟩
    · rw [heq] at h ⊢
      rw [hown]
      exact h.resolve_right nofun
    · rw [heq] at h ⊢
      exact hown ▸ h.resolve_right nofun
    · rw [heq] at h ⊢
      exact admit_keylessLast cfg hkeyed (h.imp_left fun hne => hown ▸ hne)

def Recorded (r : DataReader T) (kh : KeyHash) (writer : WriterGuid) : Prop :=
  (r.writersOf kh).contains writer = true

variable {kh : KeyHash} {writer : WriterGuid}

theorem withSample_of_sampled (h : g.sampled kh writer = true) : g.withSample kh writer = g := by
  have hsampled : (fun kh' w => (kh' == kh && w == writer) || g.sampled kh' w) = g.sampled := by
    funext kh' w
    by_cases heq : kh' = kh ∧ w = writer
    · simp [heq.1, heq.2, h]
    · have hne : (kh' == kh && w == writer) = false := by
        simpa using heq
      rw [hne, Bool.false_or]
  rw [Registrations.withSample, hsampled]

variable {l : InstanceHandle × InstanceStateKind × SortedSet WriterGuid}

section

variable (h : WritersKnown cfg g r)
include h

theorem WritersKnown.changed {g' : Registrations}
    (hchanged : ChangedAt kh l r.instances r'.instances) (hagrees : Agrees (g'.sampled kh) l)
    (hothers : ∀ kh', kh' ≠ kh → g'.sampled kh' = g.sampled kh')
    (hmatched : ∀ kh' w, g'.sampled kh' w = true → g'.matched w = true)
    (hkeyless : cfg.codec.keyed = false → r'.keylessLast ≠ none) : WritersKnown cfg g' r' := by
  refine ⟨hchanged.indexed, ?_, ?_, hmatched, fun hkeyed _ => hkeyless hkeyed⟩
  · intro kh' s hs
    by_cases hk : kh' = kh
    · subst hk
      obtain ⟨s', hs', hlife⟩ := hchanged.stateOf
      rw [hs] at hs'
      cases hs'
      rw [hlife]
      exact hagrees
    · have hother := hchanged.others kh' hk
      rw [hs] at hother
      obtain ⟨s₀, hs₀, heq⟩ := Option.map_eq_some_iff.mp hother.symm
      rw [hothers kh' hk, ← heq]
      exact h.known kh' s₀ hs₀
  · intro kh' hnone w
    by_cases hk : kh' = kh
    · subst hk
      obtain ⟨s', hs', _⟩ := hchanged.stateOf
      rw [hnone] at hs'
      cases hs'
    · have hother := hchanged.others kh' hk
      rw [hnone] at hother
      rw [hothers kh' hk]
      exact h.unknown kh' (Option.map_eq_none_iff.mp hother.symm) w

theorem WritersKnown.entry_fits (kh : KeyHash) :
    Fits (g.sampled kh) (r.instances.entry kh none).1.life := by
  unfold InstanceTracker.entry
  cases hs : r.instances.stateOf kh with
  | none => exact ⟨fun w => (h.unknown kh hs w).symm, nofun⟩
  | some s => exact (h.known kh s hs).toFits

theorem WritersKnown.observed
    (hobs : ObservedAt kh ws r.instances r'.instances) (hmatched : g.matched writer = true)
    (hws : ∀ w, ws.contains w = ((w == writer) || (r.writersOf kh).contains w))
    (hkeyless : cfg.codec.keyed = false → r'.keylessLast ≠ none) :
    WritersKnown cfg (g.withSample kh writer) r' := by
  refine h.changed cfg hobs ⟨⟨fun w => ?_, nofun⟩, fun _ => ?_⟩ ?_ ?_ hkeyless
  · have hbefore : (r.writersOf kh).contains w = g.sampled kh w := (h.entry_fits cfg kh).writers w
    rw [hws, hbefore]
    simp [Registrations.withSample]
  · rw [← exists_contains_iff]
    exact ⟨writer, by simp [hws]⟩
  · intro kh' hk
    funext w
    simp [Registrations.withSample, hk]
  · intro kh' w hsampled
    simp only [Registrations.withSample, Bool.or_eq_true, Bool.and_eq_true, beq_iff_eq] at hsampled
    rcases hsampled with ⟨_, rfl⟩ | hsampled
    · exact hmatched
    · exact h.matched kh' w hsampled

theorem WritersKnown.of_sameLives (hsame : SameLives r.instances r'.instances)
    (hkeyless : cfg.codec.keyed = false → r.keylessLast ≠ none → r'.keylessLast ≠ none) :
    WritersKnown cfg g r' := by
  refine ⟨hsame.indexed h.indexed, ?_, ?_, h.matched, ?_⟩
  · intro kh s hs
    obtain ⟨s₀, hs₀, heq⟩ := hsame.lives.stateOf_eq_some hs
    rw [← heq]
    exact h.known kh s₀ hs₀
  · intro kh hnone
    exact h.unknown kh ((hsame.lives.stateOf_eq_none kh).mp hnone)
  · intro hkeyed hknown
    exact hkeyless hkeyed
      (h.keyless hkeyed fun hnone => hknown ((hsame.lives.stateOf_eq_none _).mpr hnone))

theorem sampled_of_recorded (hrec : Recorded r kh writer) :
    g.sampled kh writer = true ∧ r.instances.stateOf kh ≠ none := by
  unfold Recorded writersOf InstanceTracker.entry at hrec
  cases hs : r.instances.stateOf kh with
  | none =>
    rw [hs] at hrec
    cases hrec
  | some s =>
    rw [hs] at hrec
    refine ⟨?_, nofun⟩
    rw [← (h.known kh s hs).writers writer]
    exact hrec

theorem sample_writersKnown (now : Time) (raw : RawIngestSample) (timeFilter : Bool)
    (hdecode : cfg.codec.decode raw.bytes.octets raw.representation raw.bigEndian = .ok sample)
    (hfresh : FreshHandle r (cfg.codec.instanceKeyHash sample))
    (hmatched : g.matched raw.writerGuid = true)
    (hrec : Recorded r (cfg.codec.instanceKeyHash sample) raw.writerGuid ∨
      (ingestAliveFiltered cfg r now raw timeFilter).2 = .admitted) :
    WritersKnown cfg (g.withSample (cfg.codec.instanceKeyHash sample) raw.writerGuid)
      (ingestAliveFiltered cfg r now raw timeFilter).1 := by
  have hkeyless : cfg.codec.keyed = false →
      (ingestAliveFiltered cfg r now raw timeFilter).1.keylessLast ≠ none := by
    intro hkeyed
    refine sample_keylessLast cfg hkeyed (hrec.imp_left fun hrec => ?_)
    have hkey : cfg.codec.instanceKeyHash sample = keylessInstanceKey := by
      simp [TopicCodec.instanceKeyHash, cfg.codec.keyMaterial_of_keyless hkeyed]
    have hknown := (sampled_of_recorded cfg h hrec).2
    rw [hkey] at hknown
    exact h.keyless hkeyed hknown
  have hlife := sample_life cfg h.indexed now raw timeFilter hdecode hfresh
  rcases hstep : ingestAliveFiltered cfg r now raw timeFilter with ⟨r', verdict⟩
  rw [hstep] at hlife hrec hkeyless
  cases hlife with
  | unseen hverdict hsame =>
    have hrecorded := hrec.resolve_right hverdict
    rw [withSample_of_sampled (sampled_of_recorded cfg h hrecorded).1]
    exact h.of_sameLives cfg hsame fun hkeyed _ => hkeyless hkeyed
  | seen hverdict hobs =>
    have hrecorded := hrec.resolve_right hverdict
    refine h.observed cfg hobs hmatched (fun w => ?_) hkeyless
    by_cases hw : w = raw.writerGuid
    · rw [hw]
      simpa [Recorded] using hrecorded
    · simp [hw]
  | admitted hobs =>
    refine h.observed cfg hobs hmatched (fun w => ?_) hkeyless
    rw [SortedMap.contains, get?_insert]
    by_cases hw : w = raw.writerGuid
    · simp [hw]
    · simp [hw, SortedMap.contains]

end

/-! ### Markers, departures and purges -/

theorem contains_erase (ws : SortedSet WriterGuid) (w writer : WriterGuid) :
    (ws.erase writer).contains w = (!(w == writer) && ws.contains w) := by
  rw [SortedMap.contains, get?_erase]
  by_cases hw : w = writer
  · simp [hw]
  · simp [hw, SortedMap.contains]

theorem Fits.without {sampled : WriterGuid → Bool} (h : Fits sampled l) (writer : WriterGuid) :
    Agrees (fun w => !(w == writer) && sampled w)
      (l.1, InstanceState.kindWith l.2.1 (l.2.2.erase writer), l.2.2.erase writer) := by
  refine ⟨⟨fun w => ?_, fun hno => ?_⟩, fun halive => ?_⟩
  · rw [contains_erase, h.writers w]
  · simp only [InstanceState.kindWith] at hno
    split at hno
    · next hleft => exact hleft.1
    · have hempty := isEmpty_iff.mp (h.noWriters hno)
      refine isEmpty_iff.mpr fun w => ?_
      rw [get?_erase]
      split
      · rfl
      · exact hempty w
  · simp only [InstanceState.kindWith] at halive
    split at halive
    · cases halive
    · next hleft =>
      cases he : (l.2.2.erase writer).isEmpty with
      | false => rfl
      | true => exact absurd ⟨he, halive⟩ hleft

theorem marker_keylessLast (r : DataReader T) (m : LifecycleMarker) :
    (ingestLifecycle cfg r m).keylessLast = r.keylessLast := by
  have hpush : ∀ (r : DataReader T) (kh : KeyHash) (holder : Option Rtps.Octets)
      (writer : Option WriterGuid) (ts : Option Time),
      (pushLifecycleFrom cfg r kh holder m.kind writer ts).keylessLast = r.keylessLast := by
    intro r kh holder writer ts
    unfold pushLifecycleFrom
    simp only
    split
    · rfl
    · split
      · rfl
      · split <;> rfl
  rcases ingestLifecycle_cases cfg r m with ⟨_, heq⟩ | ⟨t, _, heq⟩
  · rw [heq]
  · rw [heq]
    exact hpush _ _ _ _ _

theorem marker_writersKnown (h : WritersKnown cfg g r) (m : LifecycleMarker)
    (hfresh : FreshHandle r (markerKey cfg m))
    (hwriter : m.kind = .notAliveNoWriters → m.writerGuid ≠ WriterGuid.unknown)
    (halive : m.kind = .alive → r.instances.stateOf (markerKey cfg m) ≠ none) :
    WritersKnown cfg (g.note cfg (.marker m)) (ingestLifecycle cfg r m) := by
  have hsome : m.kind = .notAliveNoWriters → markerWriter m = some m.writerGuid := by
    intro hkind
    rw [markerWriter, if_neg (hwriter hkind)]
  have hlast := marker_keylessLast cfg r m
  have hlife := marker_life cfg h.indexed m hfresh fun hkind => by rw [hsome hkind]; rfl
  cases hlife with
  | ignored hkind hsame =>
    rw [show g.note cfg (.marker m) = g by simp [Registrations.note, hkind]]
    exact h.of_sameLives cfg hsame fun _ hne => hlast ▸ hne
  | unknown hunknown hsame =>
    have hnone : r.instances.stateOf (markerKey cfg m) = none := by
      rcases hunknown with hnone | ⟨hkeyed, hvalue⟩
      · exact hnone
      · by_contra hknown
        have hkey : markerKey cfg m = keylessInstanceKey := by simp [markerKey, hkeyed]
        rw [hkey] at hknown
        exact h.keyless hkeyed hknown hvalue
    have hg : g.note cfg (.marker m) = g := by
      unfold Registrations.note
      simp only
      split
      · have hsampled : (g.withoutSamples (markerKey cfg m) m.writerGuid).sampled = g.sampled := by
          funext kh w
          by_cases hk : kh = markerKey cfg m
          · simp [Registrations.withoutSamples, hk, h.unknown _ hnone w]
          · simp [Registrations.withoutSamples, hk]
        rw [Registrations.withoutSamples] at hsampled ⊢
        simp only at hsampled
        rw [hsampled]
      · rfl
    rw [hg]
    exact h.of_sameLives cfg hsame fun _ hne => hlast ▸ hne
  | applied hvalue hchanged =>
    have hfits := h.entry_fits cfg (markerKey cfg m)
    have hkeyless : cfg.codec.keyed = false → (ingestLifecycle cfg r m).keylessLast ≠ none :=
      fun hkeyed => hlast ▸ hvalue hkeyed
    cases hkind : m.kind with
    | alive =>
      rw [show g.note cfg (.marker m) = g by simp [Registrations.note, hkind]]
      rw [hkind] at hchanged
      refine h.changed cfg hchanged ?_ (fun _ _ => rfl) h.matched hkeyless
      cases hs : r.instances.stateOf (markerKey cfg m) with
      | none => exact absurd hs (halive hkind)
      | some s =>
        have hentry : (r.instances.entry (markerKey cfg m) none).1 = s := by
          simp [InstanceTracker.entry, hs]
        rw [hentry]
        exact h.known _ s hs
    | notAliveDisposed =>
      rw [show g.note cfg (.marker m) = g by simp [Registrations.note, hkind]]
      rw [hkind] at hchanged
      refine h.changed cfg hchanged ⟨⟨hfits.writers, ?_⟩, ?_⟩ (fun _ _ => rfl) h.matched hkeyless
      · intro halive
        cases halive
      · intro hgone
        cases hgone
    | notAliveNoWriters =>
      rw [hkind, hsome hkind] at hchanged
      have hg : g.note cfg (.marker m) = g.withoutSamples (markerKey cfg m) m.writerGuid := by
        simp [Registrations.note, hkind]
      rw [hg]
      refine h.changed cfg hchanged ?_ ?_ ?_ hkeyless
      · have hwithout := hfits.without m.writerGuid
        have hsampled : (g.withoutSamples (markerKey cfg m) m.writerGuid).sampled
            (markerKey cfg m) = fun w => !(w == m.writerGuid) && g.sampled (markerKey cfg m) w := by
          simp [Registrations.withoutSamples]
        rw [hsampled]
        exact hwithout
      · intro kh' hk
        funext w
        simp [Registrations.withoutSamples, hk]
      · intro kh' w hsampled
        simp only [Registrations.withoutSamples, Bool.and_eq_true] at hsampled
        exact h.matched kh' w hsampled.2

theorem departure_writersKnown (h : WritersKnown cfg g r) (now : Time) (writer : WriterGuid) :
    WritersKnown cfg (g.without writer) (departWriter now r writer) := by
  obtain ⟨hi, hlives⟩ := departWriter_life h.indexed
    (fun kh s hs => (h.known kh s hs).alive) now writer
  have hlast : (departWriter now r writer).keylessLast = r.keylessLast := by
    have hpush : ∀ (handles : List InstanceHandle) (r : DataReader T),
        (pushDepartures writer now r handles).keylessLast = r.keylessLast := by
      intro handles
      induction handles with
      | nil => exact fun _ => rfl
      | cons handle rest ih =>
        intro r
        unfold pushDepartures
        split
        · exact ih r
        · exact ih _
    exact hpush _ _
  refine ⟨hi, ?_, ?_, ?_, ?_⟩
  · intro kh s hs
    have hk := hlives kh
    rw [hs] at hk
    obtain ⟨s₀, hs₀, heq⟩ := Option.map_eq_some_iff.mp hk.symm
    rw [← heq]
    exact (h.known kh s₀ hs₀).toFits.without writer
  · intro kh hnone w
    have hk := hlives kh
    rw [hnone] at hk
    have hgone := Option.map_eq_none_iff.mp hk.symm
    simp [Registrations.without, h.unknown kh hgone w]
  · intro kh w hsampled
    simp only [Registrations.without, Bool.and_eq_true] at hsampled ⊢
    exact ⟨hsampled.1, h.matched kh w hsampled.2⟩
  · intro hkeyed hknown
    rw [hlast]
    refine h.keyless hkeyed fun hnone => hknown ?_
    have hk := hlives keylessInstanceKey
    rw [hnone] at hk
    exact Option.map_eq_none_iff.mp hk

def PurgesUnwritten (r : DataReader T) (now : Time) : Prop :=
  ∀ kh s, r.instances.stateOf kh = some s →
    s.purgeable now cfg.autopurgeDisposedNanos cfg.autopurgeNowriterNanos = true →
      s.writers.isEmpty = true

theorem autopurge_writersKnown (h : WritersKnown cfg g r) (now : Time)
    (hunwritten : PurgesUnwritten cfg r now) :
    WritersKnown cfg g (runReaderAutopurge cfg r now) := by
  have hpurged : ∀ r' : DataReader T, r'.instances = (r.instances.autopurge now
      cfg.autopurgeDisposedNanos cfg.autopurgeNowriterNanos).1 →
      r'.keylessLast = r.keylessLast → WritersKnown cfg g r' := by
    intro r' hinst hlast
    have hstate : ∀ kh, r'.instances.stateOf kh = (r.instances.stateOf kh).filter fun s =>
        !s.purgeable now cfg.autopurgeDisposedNanos cfg.autopurgeNowriterNanos := by
      intro kh
      rw [hinst, InstanceTracker.stateOf_autopurge]
    refine ⟨hinst ▸ h.indexed.autopurge now _ _, ?_, ?_, h.matched, ?_⟩
    · intro kh s hs
      rw [hstate, Option.filter_eq_some_iff] at hs
      exact h.known kh s hs.1
    · intro kh hnone w
      rw [hstate] at hnone
      cases hs : r.instances.stateOf kh with
      | none => exact h.unknown kh hs w
      | some s =>
        rw [hs] at hnone
        have hpast : s.purgeable now cfg.autopurgeDisposedNanos cfg.autopurgeNowriterNanos
            = true := by simpa using hnone
        have hempty := isEmpty_iff.mp (hunwritten kh s hs hpast) w
        rw [← (h.known kh s hs).writers w]
        show s.writers.contains w = false
        rw [SortedMap.contains, hempty]
        rfl
    · intro hkeyed hknown
      rw [hlast]
      refine h.keyless hkeyed fun hnone => hknown ?_
      rw [hstate, hnone]
      rfl
  unfold runReaderAutopurge
  split
  · exact h
  · simp only
    split
    · exact hpurged _ rfl rfl
    · exact hpurged _ rfl rfl

variable {s : ReaderStep T}

theorem quiet_keylessLast (r : DataReader T) (h : s.quiet = true) :
    (perform cfg r s).keylessLast = r.keylessLast := by
  cases s with
  | sample _ _ _ => cases h
  | marker _ => cases h
  | departure _ _ => cases h
  | autopurge _ => cases h
  | lifespan now => rfl
  | strength writer strength => rfl
  | takeValues =>
    simp only [perform, takeValues]
    split <;> rfl
  | takeSelected sel max =>
    simp only [perform, takeSelected]
    split
    · rfl
    · split <;> rfl
  | takeOfInstance handle =>
    simp only [perform, takeOfInstance]
    split
    · rfl
    · split <;> rfl
  | query cond max take instance? =>
    simp only [perform, querySelected]
    split
    · rfl
    · split
      · rfl
      · cases take <;> rfl
  | readValues => rfl
  | readSelected sel max => rfl
  | readOfInstance handle => rfl

def FollowSafe (g : Registrations) (r : DataReader T) : ReaderStep T → Prop
  | .sample now raw timeFilter => ∀ sample,
      cfg.codec.decode raw.bytes.octets raw.representation raw.bigEndian = .ok sample →
      FreshKeyHandle r (cfg.codec.instanceKeyHash sample) ∧ g.matched raw.writerGuid = true ∧
        (Recorded r (cfg.codec.instanceKeyHash sample) raw.writerGuid ∨
          Admissible cfg r now raw timeFilter sample)
  | .marker m =>
    FreshKeyHandle r (markerKey cfg m) ∧
      (m.kind = .notAliveNoWriters → m.writerGuid ≠ WriterGuid.unknown) ∧
      (m.kind = .alive → r.instances.stateOf (markerKey cfg m) ≠ none)
  | .autopurge now => PurgesUnwritten cfg r now
  | .departure _ _ | .lifespan _ | .strength _ _ | .takeValues | .takeSelected _ _
  | .takeOfInstance _ | .query _ _ _ _ | .readValues | .readSelected _ _ | .readOfInstance _ => True

theorem step_writersKnown (hsafe : FollowSafe cfg g r s) (h : WritersKnown cfg g r) :
    WritersKnown cfg (g.note cfg s) (perform cfg r s) := by
  have hquiet : s.quiet = true → WritersKnown cfg g (perform cfg r s) := by
    intro hq
    exact h.of_sameLives cfg (quiet_lives cfg r hq) fun _ hne => quiet_keylessLast cfg r hq ▸ hne
  cases s with
  | sample now raw timeFilter =>
    cases hdecode : cfg.codec.decode raw.bytes.octets raw.representation raw.bigEndian with
    | error e =>
      have hsame : perform cfg r (.sample now raw timeFilter) = r := by
        simp only [perform, ingestAliveFiltered, hdecode]
        split <;> rfl
      rw [hsame, Registrations.note, hdecode]
      exact h
    | ok sample =>
      obtain ⟨hfresh, hmatched, hrec⟩ := hsafe sample hdecode
      rw [Registrations.note, hdecode]
      exact sample_writersKnown cfg h now raw timeFilter hdecode (hfresh.fresh h.indexed) hmatched
        (hrec.imp_right (admitted_of_admissible cfg hdecode))
  | marker m => exact marker_writersKnown cfg h m (hsafe.1.fresh h.indexed) hsafe.2.1 hsafe.2.2
  | departure now writer => exact departure_writersKnown cfg h now writer
  | autopurge now => exact autopurge_writersKnown cfg h now hsafe
  | lifespan now => exact hquiet rfl
  | strength writer strength => exact hquiet rfl
  | takeValues => exact hquiet rfl
  | takeSelected sel max => exact hquiet rfl
  | takeOfInstance handle => exact hquiet rfl
  | query cond max take instance? => exact hquiet rfl
  | readValues => exact hquiet rfl
  | readSelected sel max => exact hquiet rfl
  | readOfInstance handle => exact hquiet rfl

/-- An event of the reader, or a writer that is matched, for the first time or again. -/
inductive WriterEvent (T : Type) where
  | matched (writer : WriterGuid)
  | event (event : Event T)

/-- The reader and what is registered apart from it; every step of an event is noted. -/
def handleNoted (p : DataReader T × Registrations) :
    WriterEvent T → (DataReader T × Registrations) × Reply T
  | .matched writer => ((p.1, p.2.withMatched writer), .nothing)
  | .event event =>
    (((handle cfg p.1 event).1, noteAll (Registrations.note cfg) p.2 (trace cfg p.1 event)),
      (handle cfg p.1 event).2)

/-- Every step of an event meets `ok` in the reader and the registrations it is taken in. -/
def NotedMeet (ok : Registrations → DataReader T → ReaderStep T → Prop)
    (p : DataReader T × Registrations) : WriterEvent T → Prop
  | .matched _ => True
  | .event event => AllMeet (Registrations.note cfg) ok p.2 (trace cfg p.1 event)

theorem matched_writersKnown (h : WritersKnown cfg g r) (writer : WriterGuid) :
    WritersKnown cfg (g.withMatched writer) r := by
  refine ⟨h.indexed, h.known, h.unknown, ?_, h.keyless⟩
  intro kh w hsampled
  simp [Registrations.withMatched, h.matched kh w hsampled]

/-- An instance that is not disposed is ALIVE while a live writer has it registered, else
NOT_ALIVE_NO_WRITERS. -/
theorem kinds_follow_live_writers (t : InstanceTracker) (ht : t = .new ∨ t = .withKeyHandles)
    {h : History (WriterEvent T) (Reply T)} {p : DataReader T × Registrations}
    (hr : Reaches (handleNoted cfg) (NotedMeet cfg (FollowSafe cfg))
      (DataReader.new t, .none) h p) : KindsFollow p.2 p.1 := by
  have hstart : WritersKnown cfg .none (DataReader.new t : DataReader T) := by
    rcases ht with rfl | rfl
    · exact writersKnown_new cfg InstanceTracker.indexed_new fun _ => rfl
    · exact writersKnown_new cfg InstanceTracker.indexed_withKeyHandles fun _ => rfl
  have hinv : WritersKnown cfg p.2 p.1 := by
    refine Reaches.invariant (P := fun _ p => WritersKnown cfg p.2 p.1) hstart ?_ hr
    intro _ p event hknown hok
    cases event with
    | matched writer => exact matched_writersKnown cfg hknown writer
    | event event =>
      refine (handle_steps cfg p.1 event).preserves_noted (Registrations.note cfg)
        (P := WritersKnown cfg) hknown hok ?_ fun g r s => step_writersKnown cfg
      intro g r r' hsame hknown
      refine hknown.of_sameLives cfg (hsame.instances ▸ .refl _) fun _ hne => ?_
      rw [hsame.keylessLast]
      exact hne
  exact hinv.kindsFollow cfg

instance (r : DataReader T) (kh : KeyHash) (writer : WriterGuid) :
    Decidable (Recorded r kh writer) :=
  inferInstanceAs (Decidable (_ = true))

instance (r : DataReader T) (now : Time) : Decidable (PurgesUnwritten cfg r now) :=
  decidable_of_iff _ (forall_stateOf_iff (P := fun s =>
    s.purgeable now cfg.autopurgeDisposedNanos cfg.autopurgeNowriterNanos = true →
      s.writers.isEmpty = true)).symm

instance (g : Registrations) (r : DataReader T) (now : Time) (raw : RawIngestSample)
    (timeFilter : Bool) : Decidable (FollowSafe cfg g r (.sample now raw timeFilter)) :=
  match h : cfg.codec.decode raw.bytes.octets raw.representation raw.bigEndian with
  | .ok sample => decidable_of_iff (FreshKeyHandle r (cfg.codec.instanceKeyHash sample) ∧
      g.matched raw.writerGuid = true ∧
        (Recorded r (cfg.codec.instanceKeyHash sample) raw.writerGuid ∨
          Admissible cfg r now raw timeFilter sample)) (by simp [FollowSafe, h])
  | .error _ => .isTrue (by simp [FollowSafe, h])

instance (g : Registrations) (r : DataReader T) : ∀ s, Decidable (FollowSafe cfg g r s)
  | .sample _ _ _ => inferInstance
  | .marker _ => inferInstanceAs (Decidable (_ ∧ _))
  | .autopurge _ => inferInstanceAs (Decidable (PurgesUnwritten _ _ _))
  | .departure _ _ | .lifespan _ | .strength _ _ | .takeValues | .takeSelected _ _
  | .takeOfInstance _ | .query _ _ _ _ | .readValues | .readSelected _ _ | .readOfInstance _ =>
    .isTrue trivial

instance AllMeet.decidable {G : Type} (note : G → ReaderStep T → G)
    (ok : G → DataReader T → ReaderStep T → Prop) [∀ g r s, Decidable (ok g r s)] :
    ∀ g trace, Decidable (AllMeet note ok g trace)
  | _, [] => .isTrue trivial
  | g, (r, s) :: rest =>
    have := AllMeet.decidable note ok (note g s) rest
    inferInstanceAs (Decidable (ok g r s ∧ AllMeet note ok (note g s) rest))

instance (p : DataReader T × Registrations) :
    ∀ event, Decidable (NotedMeet cfg (FollowSafe cfg) p event)
  | .matched _ => .isTrue trivial
  | .event _ => inferInstanceAs (Decidable (AllMeet _ _ _ _))

/-- Two writers of an instance; one unregisters it, the other departs. -/
theorem kinds_follow_two_writers :
    KindsFollow
      (run (handleNoted (octetConfig reliableQos)) (DataReader.new .new, .none)
        [.matched (Octets16.repeated 1), .matched (Octets16.repeated 2),
          .event (.arrive (octetSample 1 [1, 0] 1)), .event (.arrive (octetSample 2 [1, 2] 2)),
          .event (.arrive (octetMarker 1 1 [1] .notAliveNoWriters)), .event .take,
          .event (.writerGone (Octets16.repeated 2)), .event .ingest]).1.2
      (run (handleNoted (octetConfig reliableQos)) (DataReader.new .new, .none)
        [.matched (Octets16.repeated 1), .matched (Octets16.repeated 2),
          .event (.arrive (octetSample 1 [1, 0] 1)), .event (.arrive (octetSample 2 [1, 2] 2)),
          .event (.arrive (octetMarker 1 1 [1] .notAliveNoWriters)), .event .take,
          .event (.writerGone (Octets16.repeated 2)), .event .ingest]).1.1 :=
  kinds_follow_live_writers (octetConfig reliableQos) .new (.inl rfl)
    (reaches_run (by decide +kernel))

/-- Under EXCLUSIVE ownership the sample of a writer that is not the owner was ingested, and
the instance has no writers once the owner departs. -/
theorem kinds_lag_behind_exclusive :
    ¬ ∀ (cfg : ReaderConfig (UInt8 × UInt8)) (h : History (WriterEvent (UInt8 × UInt8)) _)
      (p : DataReader (UInt8 × UInt8) × Registrations),
      Reaches (handleNoted cfg) unrestricted (DataReader.new .new, .none) h p →
        KindsFollow p.2 p.1 := by
  intro hall
  have hrun : Reaches
      (handleNoted (octetConfig { reliableQos with exclusiveOwnership := true })) unrestricted
      (DataReader.new .new, .none) _ _ :=
    reaches_run (runOk_unrestricted _ [.matched (Octets16.repeated 1),
      .matched (Octets16.repeated 2), .event (.arrive (octetSample 1 [1, 0] 1)),
      .event (.arrive (octetSample 2 [1, 2] 2)), .event .ingest,
      .event (.writerGone (Octets16.repeated 1)), .event .ingest])
  have hfollow := hall _ _ _ hrun
  generalize hp : (run (handleNoted (octetConfig { reliableQos with exclusiveOwnership := true }))
    (DataReader.new .new, .none) _).1 = p at hfollow
  have hkind : (p.1.instances.stateOf (octetKey 1)).map (·.kind) = some .notAliveNoWriters := by
    rw [← hp]
    decide +kernel
  have hlive : p.2.live (octetKey 1) (Octets16.repeated 2) = true := by
    rw [← hp]
    decide +kernel
  obtain ⟨s, hs, hkind⟩ := Option.map_eq_some_iff.mp hkind
  exact ((hfollow _ s hs (by rw [hkind]; exact nofun)).2.mp hkind) ⟨_, hlive⟩

end DataReader
end ZeroDds.Dcps
