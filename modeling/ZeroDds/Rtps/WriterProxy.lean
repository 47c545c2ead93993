/-
The reader's record of one remote writer.

`WriterProxy` follows the announced range `[firstAvailableSn, lastAvailableSn]` and which sequence
numbers in it are known, that is received or irrelevant.
-/
import ZeroDds.Lib.IntRange
import ZeroDds.Lib.SortedMap
import ZeroDds.Rtps.WireTypes

namespace ZeroDds.Rtps

inductive NotAvailableKind where
  | filtered
  | removed
  | unspecified
  deriving DecidableEq

namespace NotAvailableKind

/-- The sub-status for a GAP over `total` numbers, `filteredCount` of them
filtered. -/
def forGap (total filteredCount : Nat) : NotAvailableKind :=
  if filteredCount = total then .filtered
  else if filteredCount = 0 then .removed
  else .unspecified

end NotAvailableKind

inductive ChangeFromWriterStatus where
  | unknown
  | missing
  | received
  | notAvailable (kind : NotAvailableKind)
  deriving DecidableEq

def u64Max : Nat := 18446744073709551615

def satAdd (a b : Nat) : Nat := min (a + b) u64Max

structure NotAvailableCounts where
  filtered : Nat
  removed : Nat
  unspecified : Nat
  deriving DecidableEq

namespace NotAvailableCounts

def slot (c : NotAvailableCounts) : NotAvailableKind → Nat
  | .filtered => c.filtered
  | .removed => c.removed
  | .unspecified => c.unspecified

def add (c : NotAvailableCounts) (kind : NotAvailableKind) (n : Nat) : NotAvailableCounts :=
  match kind with
  | .filtered => { c with filtered := satAdd c.filtered n }
  | .removed => { c with removed := satAdd c.removed n }
  | .unspecified => { c with unspecified := satAdd c.unspecified n }

end NotAvailableCounts

def maxNotAvailableRuns : Nat := 4096

/-- The NOT_AVAILABLE changes as runs `start ↦ (end, kind)` of neighbours of one
kind, and the number below which runs were dropped. -/
structure NotAvailableRuns where
  runs : SortedMap Int (Int × NotAvailableKind)
  horizon : Int
  deriving DecidableEq

namespace NotAvailableRuns

def trim : Nat → NotAvailableRuns → NotAvailableRuns
  | 0, r => r
  | fuel + 1, r =>
    if r.runs.size > maxNotAvailableRuns then
      match r.runs.first? with
      | none => r
      | some (s, (e, _)) =>
        trim fuel ⟨r.runs.erase s, if e + 1 > r.horizon then e + 1 else r.horizon⟩
    else r

/-- The new run `[lo, hi]` joined to a run of its kind that ends right before it
or overlaps it. -/
def joinBelow (runs : SortedMap Int (Int × NotAvailableKind)) (lo hi : Int)
    (kind : NotAvailableKind) : SortedMap Int (Int × NotAvailableKind) × Int × Int :=
  match (runs.filter fun s _ => s ≤ lo).last? with
  | some (s, (e, k)) =>
    if k = kind ∧ e + 1 ≥ lo then (runs.erase s, s, max hi e) else (runs, lo, hi)
  | none => (runs, lo, hi)

def joinAbove (runs : SortedMap Int (Int × NotAvailableKind)) (hi : Int)
    (kind : NotAvailableKind) : SortedMap Int (Int × NotAvailableKind) × Int :=
  match (runs.filter fun s _ => hi + 1 ≤ s).first? with
  | some (s, (e, k)) => if k = kind ∧ s = hi + 1 then (runs.erase s, e) else (runs, hi)
  | none => (runs, hi)

def record (r : NotAvailableRuns) (lo hi : Int) (kind : NotAvailableKind) : NotAvailableRuns :=
  if hi < lo then r
  else
    let below := joinBelow r.runs lo hi kind
    let above := joinAbove below.1 below.2.2 kind
    let runs := above.1.insert below.2.1 (above.2, kind)
    trim runs.size ⟨runs, r.horizon⟩

end NotAvailableRuns

structure WriterProxy where
  remoteWriterGuid : Guid
  unicastLocators : List Locator
  multicastLocators : List Locator
  isReliable : Bool
  remoteGroupEntityId : EntityId
  firstAvailableSn : Int
  lastAvailableSn : Int
  highestReceivedSn : Int
  knownUpTo : Int
  received : Finset Int
  irrelevant : Finset Int
  notAvailable : NotAvailableCounts
  notAvailableRuns : NotAvailableRuns
  deriving DecidableEq

namespace WriterProxy

def new (guid : Guid) (unicast multicast : List Locator) (isReliable : Bool) : WriterProxy where
  remoteWriterGuid := guid
  unicastLocators := unicast
  multicastLocators := multicast
  isReliable := isReliable
  remoteGroupEntityId := EntityId.unknown
  firstAvailableSn := 1
  lastAvailableSn := 0
  highestReceivedSn := 0
  knownUpTo := 0
  received := ∅
  irrelevant := ∅
  notAvailable := ⟨0, 0, 0⟩
  notAvailableRuns := ⟨SortedMap.empty, 0⟩

variable (p : WriterProxy)

def recordNotAvailable (lo hi : Int) (kind : NotAvailableKind) : WriterProxy :=
  { p with notAvailableRuns := p.notAvailableRuns.record lo hi kind }

variable (sn : Int)

def isKnown : Bool :=
  (p.firstAvailableSn ≤ sn && sn ≤ p.knownUpTo) || sn ∈ p.received || sn ∈ p.irrelevant

def changeStatus : Option ChangeFromWriterStatus :=
  if sn ≤ 0 ∨ sn < p.notAvailableRuns.horizon then none
  else
    match (p.notAvailableRuns.runs.filter fun s _ => s ≤ sn).last? with
    | some (_, (e, kind)) =>
      if sn ≤ e then some (.notAvailable kind) else some (byRange p sn)
    | none => some (byRange p sn)
where
  byRange (p : WriterProxy) (sn : Int) : ChangeFromWriterStatus :=
    if sn < p.firstAvailableSn ∨ p.isKnown sn then .received
    else if sn > p.lastAvailableSn then .unknown
    else .missing

def absorbLoop : Nat → WriterProxy → WriterProxy
  | 0, p => p
  | fuel + 1, p =>
    let next := p.knownUpTo + 1
    if next ∈ p.received ∨ next ∈ p.irrelevant then
      absorbLoop fuel { p with
        received := p.received.erase next
        irrelevant := p.irrelevant.erase next
        knownUpTo := next }
    else p

/-- Moves `knownUpTo` over every number right behind it that the sets hold,
taking it out of both.  Each turn but the last empties a set by one, so the sets'
sizes bound the turns. -/
def absorb : WriterProxy :=
  absorbLoop (p.received.card + p.irrelevant.card) p

def markKnown (received : Bool) : WriterProxy :=
  if sn = p.knownUpTo + 1 then absorb { p with knownUpTo := sn }
  else if sn > p.knownUpTo then
    if received then { p with received := insert sn p.received }
    else { p with irrelevant := insert sn p.irrelevant }
  else p

def firstUnknownCandidate : Int :=
  if p.knownUpTo + 1 > p.firstAvailableSn then p.knownUpTo + 1 else p.firstAvailableSn

/-- How many numbers from `firstAvailableSn` up to `stop` (exclusive) are neither
received nor irrelevant. -/
def unknownBefore (stop : Int) : Nat :=
  let start := p.firstUnknownCandidate
  if stop ≤ start then 0
  else
    let span := (stop - start).toNat
    let received := (p.received.filter fun sn => start ≤ sn ∧ sn < stop).card
    let irrelevant :=
      ((p.irrelevant.filter fun sn => start ≤ sn ∧ sn < stop).filter fun sn =>
        sn ∉ p.received).card
    span - (received + irrelevant)

/-- Enters the unknown numbers before `stop` as NA_REMOVED runs: the stretches
between the known ones, from `cursor` on. -/
def recordStretches (p : WriterProxy) (stop : Int) :
    Int → List Int → WriterProxy
  | cursor, [] => p.recordNotAvailable cursor (stop - 1) .removed
  | cursor, k :: ks =>
    recordStretches (p.recordNotAvailable cursor (k - 1) .removed) stop (k + 1) ks

def recordUnknownAsRemoved (stop : Int) : WriterProxy :=
  let start := p.firstUnknownCandidate
  if stop ≤ start then p
  else
    recordStretches p stop start
      ((Int.range start stop).filter fun sn => sn ∈ p.received ∨ sn ∈ p.irrelevant)

/-- Everything below `first` can no longer be requested; the second component is
how many of these were neither received nor irrelevant. -/
def lostChangesUpdate (first : Int) : WriterProxy × Nat :=
  if first ≤ p.firstAvailableSn then (p, 0)
  else
    let lost := p.unknownBefore first
    let p := p.recordUnknownAsRemoved first
    let p := { p with
      notAvailable := p.notAvailable.add .removed lost
      firstAvailableSn := first
      received := p.received.filter fun sn => first ≤ sn
      irrelevant := p.irrelevant.filter fun sn => first ≤ sn
      knownUpTo := if p.knownUpTo < first - 1 then first - 1 else p.knownUpTo }
    (absorb p, lost)

def updateFromHeartbeat (first last : Int) : WriterProxy × Nat :=
  let (p, lost) := p.lostChangesUpdate first
  ({ p with lastAvailableSn := if last > p.lastAvailableSn then last else p.lastAvailableSn }, lost)

def receivedChangeSet : WriterProxy :=
  if sn < p.firstAvailableSn then p
  else
    let p := p.markKnown sn true
    { p with highestReceivedSn := if sn > p.highestReceivedSn then sn else p.highestReceivedSn }

/-- Takes a `receivedChangeSet` back, so the number counts as missing again.
Inside the run the numbers after it stay known, now above a gap. -/
def unreceiveChangeSet : WriterProxy :=
  if sn < p.firstAvailableSn then p
  else if sn ≤ p.knownUpTo then
    { p with
      received := p.received ∪ (Int.range (sn + 1) (p.knownUpTo + 1)).toFinset
      knownUpTo := sn - 1 }
  else { p with received := p.received.erase sn, irrelevant := p.irrelevant.erase sn }

def irrelevantChangeSet : WriterProxy :=
  if sn < p.firstAvailableSn then p else p.markKnown sn false

def notAvailableChangeSet (kind : NotAvailableKind) : WriterProxy :=
  if sn < p.firstAvailableSn then p
  else
    let p :=
      if p.isKnown sn then p
      else { p with notAvailable := p.notAvailable.add kind 1 }.recordNotAvailable sn sn kind
    p.markKnown sn false

/-- The missing numbers of the announced range in ascending order, at most
`maxCount` of them. -/
def missingChanges (maxCount : Nat) : List Int :=
  if p.lastAvailableSn < p.firstAvailableSn then []
  else
    ((Int.range p.firstUnknownCandidate (p.lastAvailableSn + 1)).filter fun sn =>
      !p.isKnown sn).take maxCount

def hasMissingChanges : Bool := !(p.missingChanges 1).isEmpty

def acknackBase : Int :=
  ((Int.range p.firstUnknownCandidate (p.lastAvailableSn + 1)).find? fun sn =>
    !p.isKnown sn).getD (p.lastAvailableSn + 1)

def availableChangesMax : Int := p.acknackBase - 1

/-! ### The shape of the record -/

/-- The run reaches back to `firstAvailableSn`, and the sets hold only numbers
behind a gap above it. -/
structure Absorbed (p : WriterProxy) : Prop where
  first_le : p.firstAvailableSn ≤ p.knownUpTo + 1
  received_gt : ∀ sn ∈ p.received, p.knownUpTo + 1 < sn
  irrelevant_gt : ∀ sn ∈ p.irrelevant, p.knownUpTo + 1 < sn

theorem new_absorbed (guid : Guid) (u m : List Locator) (b : Bool) : (new guid u m b).Absorbed :=
  ⟨by simp [new], by simp [new], by simp [new]⟩

variable {p : WriterProxy} {sn : Int}

theorem isKnown_iff :
    p.isKnown sn = true ↔
      (p.firstAvailableSn ≤ sn ∧ sn ≤ p.knownUpTo) ∨ sn ∈ p.received ∨ sn ∈ p.irrelevant := by
  simp [isKnown, or_assoc]

theorem Absorbed.first_le_of_isKnown (hp : p.Absorbed) (h : p.isKnown sn = true) :
    p.firstAvailableSn ≤ sn := by
  have := hp.first_le
  rcases isKnown_iff.mp h with h | h | h
  · exact h.1
  · have := hp.received_gt sn h; omega
  · have := hp.irrelevant_gt sn h; omega

theorem Absorbed.firstUnknownCandidate_eq (hp : p.Absorbed) :
    p.firstUnknownCandidate = p.knownUpTo + 1 := by
  have := hp.first_le
  unfold firstUnknownCandidate
  split <;> omega

theorem absorbLoop_frame (fuel : Nat) (p : WriterProxy) :
    ∃ r i k, absorbLoop fuel p = { p with received := r, irrelevant := i, knownUpTo := k } := by
  induction fuel generalizing p with
  | zero => exact ⟨_, _, _, rfl⟩
  | succ fuel ih =>
    simp only [absorbLoop]
    split
    · obtain ⟨r, i, k, h⟩ := ih { p with
        received := p.received.erase (p.knownUpTo + 1)
        irrelevant := p.irrelevant.erase (p.knownUpTo + 1)
        knownUpTo := p.knownUpTo + 1 }
      exact ⟨r, i, k, h⟩
    · exact ⟨_, _, _, rfl⟩

theorem absorb_frame (p : WriterProxy) :
    ∃ r i k, p.absorb = { p with received := r, irrelevant := i, knownUpTo := k } :=
  absorbLoop_frame _ p

@[simp] theorem absorb_firstAvailableSn (p : WriterProxy) :
    p.absorb.firstAvailableSn = p.firstAvailableSn := by
  obtain ⟨r, i, k, h⟩ := p.absorb_frame
  rw [h]

@[simp] theorem absorb_lastAvailableSn (p : WriterProxy) :
    p.absorb.lastAvailableSn = p.lastAvailableSn := by
  obtain ⟨r, i, k, h⟩ := p.absorb_frame
  rw [h]

@[simp] theorem absorb_remoteWriterGuid (p : WriterProxy) :
    p.absorb.remoteWriterGuid = p.remoteWriterGuid := by
  obtain ⟨r, i, k, h⟩ := p.absorb_frame
  rw [h]

/-- Before absorbing, the sets may hold numbers right behind the run but none
inside it. -/
structure Absorbable (p : WriterProxy) : Prop where
  first_le : p.firstAvailableSn ≤ p.knownUpTo + 1
  received_gt : ∀ sn ∈ p.received, p.knownUpTo < sn
  irrelevant_gt : ∀ sn ∈ p.irrelevant, p.knownUpTo < sn

theorem absorbLoop_spec {fuel : Nat} (hp : p.Absorbable)
    (hfuel : p.received.card + p.irrelevant.card ≤ fuel) :
    (absorbLoop fuel p).Absorbed ∧ ∀ sn, (absorbLoop fuel p).isKnown sn = p.isKnown sn := by
  induction fuel generalizing p with
  | zero =>
    obtain ⟨hr, hi⟩ : p.received = ∅ ∧ p.irrelevant = ∅ := by
      simpa using (by omega : p.received.card = 0 ∧ p.irrelevant.card = 0)
    exact ⟨⟨hp.first_le, by simp [absorbLoop, hr], by simp [absorbLoop, hi]⟩, fun sn => rfl⟩
  | succ fuel ih =>
    simp only [absorbLoop]
    split
    · next hnext =>
      have hcard : (p.received.erase (p.knownUpTo + 1)).card +
          (p.irrelevant.erase (p.knownUpTo + 1)).card ≤ fuel := by
        have hr := Finset.card_erase_le (s := p.received) (a := p.knownUpTo + 1)
        have hi := Finset.card_erase_le (s := p.irrelevant) (a := p.knownUpTo + 1)
        rcases hnext with h | h
        · have := Finset.card_erase_lt_of_mem h; omega
        · have := Finset.card_erase_lt_of_mem h; omega
      obtain ⟨habs, hknown⟩ := ih (p := { p with
        received := p.received.erase (p.knownUpTo + 1)
        irrelevant := p.irrelevant.erase (p.knownUpTo + 1)
        knownUpTo := p.knownUpTo + 1 }) ⟨by have := hp.first_le; simp only; omega,
          fun sn h => by
            obtain ⟨hne, h⟩ := Finset.mem_erase.mp h
            have := hp.received_gt sn h
            simp only; omega,
          fun sn h => by
            obtain ⟨hne, h⟩ := Finset.mem_erase.mp h
            have := hp.irrelevant_gt sn h
            simp only; omega⟩ hcard
      refine ⟨habs, fun sn => (hknown sn).trans ?_⟩
      have := hp.first_le
      rw [Bool.eq_iff_iff, isKnown_iff, isKnown_iff]
      simp only [Finset.mem_erase]
      by_cases hsn : sn = p.knownUpTo + 1
      · subst hsn
        simp [hnext, this]
      · simp only [hsn, ne_eq, not_false_eq_true, true_and]
        have : sn ≤ p.knownUpTo + 1 ↔ sn ≤ p.knownUpTo := by omega
        rw [this]
    · next hnext =>
      have hne : ∀ sn, sn ∈ p.received ∨ sn ∈ p.irrelevant → sn ≠ p.knownUpTo + 1 :=
        fun sn h e => hnext (e ▸ h)
      refine ⟨⟨hp.first_le, fun sn h => ?_, fun sn h => ?_⟩, fun sn => rfl⟩
      · have := hp.received_gt sn h; have := hne sn (.inl h); omega
      · have := hp.irrelevant_gt sn h; have := hne sn (.inr h); omega

theorem absorb_absorbed (hp : p.Absorbable) : p.absorb.Absorbed :=
  (absorbLoop_spec hp (le_refl _)).1

theorem isKnown_absorb (hp : p.Absorbable) (sn : Int) : p.absorb.isKnown sn = p.isKnown sn :=
  (absorbLoop_spec hp (le_refl _)).2 sn

@[simp] theorem markKnown_firstAvailableSn (p : WriterProxy) (sn : Int) (b : Bool) :
    (p.markKnown sn b).firstAvailableSn = p.firstAvailableSn := by
  unfold markKnown
  split_ifs <;> simp

@[simp] theorem markKnown_lastAvailableSn (p : WriterProxy) (sn : Int) (b : Bool) :
    (p.markKnown sn b).lastAvailableSn = p.lastAvailableSn := by
  unfold markKnown
  split_ifs <;> simp

@[simp] theorem markKnown_remoteWriterGuid (p : WriterProxy) (sn : Int) (b : Bool) :
    (p.markKnown sn b).remoteWriterGuid = p.remoteWriterGuid := by
  unfold markKnown
  split_ifs <;> simp

section

variable (hp : p.Absorbed)
include hp

theorem markKnown_spec (b : Bool) (hsn : p.firstAvailableSn ≤ sn) :
    (p.markKnown sn b).Absorbed ∧
      ∀ n, (p.markKnown sn b).isKnown n = true ↔ n = sn ∨ p.isKnown n = true := by
  have hfirst := hp.first_le
  unfold markKnown
  split_ifs with hnext hgt hb
  · have hab : Absorbable { p with knownUpTo := sn } := by
      refine ⟨by simp only; omega, fun n h => ?_, fun n h => ?_⟩
      · have := hp.received_gt n h; simp only; omega
      · have := hp.irrelevant_gt n h; simp only; omega
    refine ⟨absorb_absorbed hab, fun n => ?_⟩
    rw [isKnown_absorb hab, isKnown_iff, isKnown_iff]
    have : p.firstAvailableSn ≤ n ∧ n ≤ sn ↔
        n = sn ∨ (p.firstAvailableSn ≤ n ∧ n ≤ p.knownUpTo) := by omega
    rw [this, or_assoc]
  · refine ⟨⟨hfirst, fun n h => ?_, hp.irrelevant_gt⟩, fun n => ?_⟩
    · rcases Finset.mem_insert.mp h with rfl | h
      · simp only; omega
      · exact hp.received_gt n h
    · simp only [isKnown_iff, Finset.mem_insert]
      tauto
  · refine ⟨⟨hfirst, hp.received_gt, fun n h => ?_⟩, fun n => ?_⟩
    · rcases Finset.mem_insert.mp h with rfl | h
      · simp only; omega
      · exact hp.irrelevant_gt n h
    · simp only [isKnown_iff, Finset.mem_insert]
      tauto
  · refine ⟨hp, fun n => ⟨.inr, ?_⟩⟩
    rintro (rfl | h)
    · exact isKnown_iff.mpr (.inl ⟨hsn, by omega⟩)
    · exact h

theorem receivedChangeSet_spec (sn : Int) :
    (p.receivedChangeSet sn).Absorbed ∧
      ∀ n, (p.receivedChangeSet sn).isKnown n = true ↔
        (p.firstAvailableSn ≤ sn ∧ n = sn) ∨ p.isKnown n = true := by
  unfold receivedChangeSet
  split
  · next h => exact ⟨hp, fun n => ⟨.inr, fun h' => h'.resolve_left fun c => by omega⟩⟩
  · next h =>
    obtain ⟨habs, hknown⟩ := markKnown_spec hp true (not_lt.mp h)
    refine ⟨⟨habs.first_le, habs.received_gt, habs.irrelevant_gt⟩, fun n => ?_⟩
    rw [and_iff_right (not_lt.mp h)]
    exact hknown n

theorem irrelevantChangeSet_spec (sn : Int) :
    (p.irrelevantChangeSet sn).Absorbed ∧
      ∀ n, (p.irrelevantChangeSet sn).isKnown n = true ↔
        (p.firstAvailableSn ≤ sn ∧ n = sn) ∨ p.isKnown n = true := by
  unfold irrelevantChangeSet
  split
  · next h => exact ⟨hp, fun n => ⟨.inr, fun h' => h'.resolve_left fun c => by omega⟩⟩
  · next h =>
    obtain ⟨habs, hknown⟩ := markKnown_spec hp false (not_lt.mp h)
    exact ⟨habs, fun n => by rw [hknown, and_iff_right (not_lt.mp h)]⟩

theorem notAvailableChangeSet_spec (sn : Int) (kind : NotAvailableKind) :
    (p.notAvailableChangeSet sn kind).Absorbed ∧
      ∀ n, (p.notAvailableChangeSet sn kind).isKnown n = true ↔
        (p.firstAvailableSn ≤ sn ∧ n = sn) ∨ p.isKnown n = true := by
  unfold notAvailableChangeSet
  split
  · next h => exact ⟨hp, fun n => ⟨.inr, fun h' => h'.resolve_left fun c => by omega⟩⟩
  · next h =>
    split
    · obtain ⟨habs, hknown⟩ := markKnown_spec hp false (not_lt.mp h)
      exact ⟨habs, fun n => by rw [hknown, and_iff_right (not_lt.mp h)]⟩
    · -- the statistics are not part of what is known
      obtain ⟨habs, hknown⟩ := markKnown_spec
        (p := { p with notAvailable := p.notAvailable.add kind 1 }.recordNotAvailable sn sn kind)
        ⟨hp.first_le, hp.received_gt, hp.irrelevant_gt⟩ false (not_lt.mp h)
      refine ⟨habs, fun n => ?_⟩
      rw [and_iff_right (not_lt.mp h)]
      exact hknown n

theorem unreceiveChangeSet_spec (sn : Int) :
    (p.unreceiveChangeSet sn).Absorbed ∧
      ∀ n, (p.unreceiveChangeSet sn).isKnown n = true ↔ n ≠ sn ∧ p.isKnown n = true := by
  have hfirst := hp.first_le
  unfold unreceiveChangeSet
  split_ifs with hlt hle
  · refine ⟨hp, fun n => ⟨fun h => ⟨?_, h⟩, And.right⟩⟩
    have := hp.first_le_of_isKnown h
    omega
  · refine ⟨⟨by simp only; omega, fun n h => ?_, fun n h => ?_⟩, fun n => ?_⟩
    · rcases Finset.mem_union.mp h with h | h
      · have := hp.received_gt n h; simp only; omega
      · have := Int.mem_range_iff.mp (List.mem_toFinset.mp h); simp only; omega
    · have := hp.irrelevant_gt n h; simp only; omega
    · simp only [isKnown_iff, Finset.mem_union, List.mem_toFinset, Int.mem_range_iff]
      constructor
      · rintro (h | (h | h) | h)
        · exact ⟨by omega, .inl ⟨h.1, by omega⟩⟩
        · have := hp.received_gt n h; exact ⟨by omega, .inr (.inl h)⟩
        · exact ⟨by omega, .inl ⟨by omega, by omega⟩⟩
        · have := hp.irrelevant_gt n h; exact ⟨by omega, .inr (.inr h)⟩
      · rintro ⟨hne, h | h | h⟩
        · rcases lt_or_gt_of_ne hne with h' | h'
          · exact .inl ⟨h.1, by omega⟩
          · exact .inr (.inl (.inr ⟨by omega, by omega⟩))
        · exact .inr (.inl (.inl h))
        · exact .inr (.inr h)
  · refine ⟨⟨hfirst, fun n h => hp.received_gt n (Finset.mem_of_mem_erase h),
      fun n h => hp.irrelevant_gt n (Finset.mem_of_mem_erase h)⟩, fun n => ?_⟩
    simp only [isKnown_iff, Finset.mem_erase]
    constructor
    · rintro (h | h | h)
      · exact ⟨by omega, .inl h⟩
      · exact ⟨h.1, .inr (.inl h.2)⟩
      · exact ⟨h.1, .inr (.inr h.2)⟩
    · rintro ⟨hne, h | h | h⟩
      · exact .inl h
      · exact .inr (.inl ⟨hne, h⟩)
      · exact .inr (.inr ⟨hne, h⟩)

end

theorem recordStretches_frame (p : WriterProxy) (stop cursor : Int) (ks : List Int) :
    ∃ runs, recordStretches p stop cursor ks = { p with notAvailableRuns := runs } := by
  induction ks generalizing p cursor with
  | nil => exact ⟨_, rfl⟩
  | cons k ks ih =>
    obtain ⟨runs, h⟩ := ih (p.recordNotAvailable cursor (k - 1) .removed) (k + 1)
    exact ⟨runs, h⟩

theorem recordUnknownAsRemoved_frame (p : WriterProxy) (stop : Int) :
    ∃ runs, p.recordUnknownAsRemoved stop = { p with notAvailableRuns := runs } := by
  unfold recordUnknownAsRemoved
  simp only
  split
  · exact ⟨_, rfl⟩
  · exact recordStretches_frame p stop _ _

theorem lostChangesUpdate_spec (hp : p.Absorbed) (first : Int) :
    (p.lostChangesUpdate first).1.Absorbed ∧
      ∀ n, (p.lostChangesUpdate first).1.isKnown n = true ↔ first ≤ n ∧ p.isKnown n = true := by
  unfold lostChangesUpdate
  split
  · next h =>
    refine ⟨hp, fun n => ⟨fun hn => ⟨?_, hn⟩, And.right⟩⟩
    have := hp.first_le_of_isKnown hn
    omega
  · next h =>
    obtain ⟨runs, hrec⟩ := p.recordUnknownAsRemoved_frame first
    simp only [hrec]
    -- the run starts again at the new floor, and what the sets still hold lies above it
    have hab : Absorbable { p with
        notAvailableRuns := runs
        notAvailable := p.notAvailable.add .removed (p.unknownBefore first)
        firstAvailableSn := first
        received := p.received.filter fun sn => first ≤ sn
        irrelevant := p.irrelevant.filter fun sn => first ≤ sn
        knownUpTo := if p.knownUpTo < first - 1 then first - 1 else p.knownUpTo } := by
      refine ⟨by simp only; split <;> omega, fun n hn => ?_, fun n hn => ?_⟩
      · obtain ⟨hn, hge⟩ := Finset.mem_filter.mp hn
        have := hp.received_gt n hn
        simp only; split <;> omega
      · obtain ⟨hn, hge⟩ := Finset.mem_filter.mp hn
        have := hp.irrelevant_gt n hn
        simp only; split <;> omega
    refine ⟨absorb_absorbed hab, fun n => ?_⟩
    rw [isKnown_absorb hab, isKnown_iff, isKnown_iff]
    simp only [Finset.mem_filter]
    have : (first ≤ n ∧ n ≤ if p.knownUpTo < first - 1 then first - 1 else p.knownUpTo) ↔
        first ≤ n ∧ p.firstAvailableSn ≤ n ∧ n ≤ p.knownUpTo := by
      split <;> omega
    tauto

section

variable (p : WriterProxy)

section

variable (sn : Int)

@[simp] theorem receivedChangeSet_firstAvailableSn :
    (p.receivedChangeSet sn).firstAvailableSn = p.firstAvailableSn := by
  unfold receivedChangeSet
  split <;> simp

@[simp] theorem receivedChangeSet_lastAvailableSn :
    (p.receivedChangeSet sn).lastAvailableSn = p.lastAvailableSn := by
  unfold receivedChangeSet
  split <;> simp

@[simp] theorem irrelevantChangeSet_firstAvailableSn :
    (p.irrelevantChangeSet sn).firstAvailableSn = p.firstAvailableSn := by
  unfold irrelevantChangeSet
  split <;> simp

@[simp] theorem irrelevantChangeSet_lastAvailableSn :
    (p.irrelevantChangeSet sn).lastAvailableSn = p.lastAvailableSn := by
  unfold irrelevantChangeSet
  split <;> simp

@[simp] theorem notAvailableChangeSet_firstAvailableSn (kind : NotAvailableKind) :
    (p.notAvailableChangeSet sn kind).firstAvailableSn = p.firstAvailableSn := by
  unfold notAvailableChangeSet
  split
  · rfl
  · simp only [markKnown_firstAvailableSn]
    split <;> rfl

@[simp] theorem notAvailableChangeSet_lastAvailableSn (kind : NotAvailableKind) :
    (p.notAvailableChangeSet sn kind).lastAvailableSn = p.lastAvailableSn := by
  unfold notAvailableChangeSet
  split
  · rfl
  · simp only [markKnown_lastAvailableSn]
    split <;> rfl

@[simp] theorem unreceiveChangeSet_firstAvailableSn :
    (p.unreceiveChangeSet sn).firstAvailableSn = p.firstAvailableSn := by
  unfold unreceiveChangeSet
  split_ifs <;> rfl

@[simp] theorem unreceiveChangeSet_lastAvailableSn :
    (p.unreceiveChangeSet sn).lastAvailableSn = p.lastAvailableSn := by
  unfold unreceiveChangeSet
  split_ifs <;> rfl

end

@[simp] theorem lostChangesUpdate_firstAvailableSn (first : Int) :
    (p.lostChangesUpdate first).1.firstAvailableSn = max p.firstAvailableSn first := by
  unfold lostChangesUpdate
  split
  · simp only; omega
  · simp only [absorb_firstAvailableSn]; omega

@[simp] theorem lostChangesUpdate_lastAvailableSn (first : Int) :
    (p.lostChangesUpdate first).1.lastAvailableSn = p.lastAvailableSn := by
  obtain ⟨runs, hrec⟩ := p.recordUnknownAsRemoved_frame first
  unfold lostChangesUpdate
  split
  · rfl
  · simp [hrec]

end

theorem updateFromHeartbeat_spec (hp : p.Absorbed) (first last : Int) :
    (p.updateFromHeartbeat first last).1.Absorbed ∧
      ∀ n, (p.updateFromHeartbeat first last).1.isKnown n = true ↔
        first ≤ n ∧ p.isKnown n = true := by
  obtain ⟨habs, hknown⟩ := lostChangesUpdate_spec hp first
  exact ⟨⟨habs.first_le, habs.received_gt, habs.irrelevant_gt⟩, hknown⟩

@[simp] theorem updateFromHeartbeat_firstAvailableSn (p : WriterProxy) (first last : Int) :
    (p.updateFromHeartbeat first last).1.firstAvailableSn = max p.firstAvailableSn first := by
  simp [updateFromHeartbeat]

@[simp] theorem updateFromHeartbeat_lastAvailableSn (p : WriterProxy) (first last : Int) :
    (p.updateFromHeartbeat first last).1.lastAvailableSn = max p.lastAvailableSn last := by
  simp only [updateFromHeartbeat, lostChangesUpdate_lastAvailableSn]
  split <;> omega

/-! ### The writer stays the same -/

section

variable (p : WriterProxy)

@[simp] theorem receivedChangeSet_remoteWriterGuid (sn : Int) :
    (p.receivedChangeSet sn).remoteWriterGuid = p.remoteWriterGuid := by
  unfold receivedChangeSet
  split <;> simp

@[simp] theorem irrelevantChangeSet_remoteWriterGuid (sn : Int) :
    (p.irrelevantChangeSet sn).remoteWriterGuid = p.remoteWriterGuid := by
  unfold irrelevantChangeSet
  split <;> simp

@[simp] theorem notAvailableChangeSet_remoteWriterGuid (sn : Int) (kind : NotAvailableKind) :
    (p.notAvailableChangeSet sn kind).remoteWriterGuid = p.remoteWriterGuid := by
  unfold notAvailableChangeSet
  split
  · rfl
  · simp only [markKnown_remoteWriterGuid]
    split <;> rfl

@[simp] theorem unreceiveChangeSet_remoteWriterGuid (sn : Int) :
    (p.unreceiveChangeSet sn).remoteWriterGuid = p.remoteWriterGuid := by
  unfold unreceiveChangeSet
  split_ifs <;> rfl

@[simp] theorem lostChangesUpdate_remoteWriterGuid (first : Int) :
    (p.lostChangesUpdate first).1.remoteWriterGuid = p.remoteWriterGuid := by
  obtain ⟨runs, hrec⟩ := p.recordUnknownAsRemoved_frame first
  unfold lostChangesUpdate
  split
  · rfl
  · simp [hrec]

@[simp] theorem updateFromHeartbeat_remoteWriterGuid (first last : Int) :
    (p.updateFromHeartbeat first last).1.remoteWriterGuid = p.remoteWriterGuid := by
  simp [updateFromHeartbeat]

end

/-! ### What the reader reads off the record -/

section

variable (hp : p.Absorbed)
include hp

theorem Absorbed.known_below_candidate :
    p.firstAvailableSn ≤ p.firstUnknownCandidate ∧
      ∀ n, p.firstAvailableSn ≤ n → n < p.firstUnknownCandidate → (!p.isKnown n) = false := by
  rw [hp.firstUnknownCandidate_eq]
  refine ⟨hp.first_le, fun n h1 h2 => ?_⟩
  rw [Bool.not_eq_false', isKnown_iff]
  exact .inl ⟨h1, by omega⟩

theorem missingChanges_eq (maxCount : Nat) :
    p.missingChanges maxCount =
      ((Int.range p.firstAvailableSn (p.lastAvailableSn + 1)).filter fun sn =>
        !p.isKnown sn).take maxCount := by
  obtain ⟨hle, hrej⟩ := hp.known_below_candidate
  unfold missingChanges
  split
  · next h => rw [range_eq_nil (by omega), List.filter_nil, List.take_nil]
  · rw [filter_range_of_reject hle hrej]

theorem acknackBase_eq :
    p.acknackBase =
      ((Int.range p.firstAvailableSn (p.lastAvailableSn + 1)).find? fun sn =>
        !p.isKnown sn).getD (p.lastAvailableSn + 1) := by
  obtain ⟨hle, hrej⟩ := hp.known_below_candidate
  rw [acknackBase, find?_range_of_reject hle hrej]

theorem unknownBefore_eq (stop : Int) :
    p.unknownBefore stop =
      ((Int.range p.firstAvailableSn stop).filter fun sn => !p.isKnown sn).length := by
  obtain ⟨hle, hrej⟩ := hp.known_below_candidate
  rw [filter_range_of_reject hle hrej]
  unfold unknownBefore
  simp only
  split
  · next h => rw [range_eq_nil h, List.filter_nil, List.length_nil]
  · have hset : (Int.range p.firstUnknownCandidate stop).filter (fun sn => !p.isKnown sn) =
        (Int.range p.firstUnknownCandidate stop).filter
          (fun sn => sn ∉ p.received ∪ p.irrelevant) := by
      refine List.filter_congr fun sn hsn => ?_
      have hge := (Int.mem_range_iff.mp hsn).1
      rw [hp.firstUnknownCandidate_eq] at hge
      rw [Bool.eq_iff_iff, Bool.not_eq_true', ← Bool.not_eq_true, isKnown_iff, decide_eq_true_iff,
        Finset.mem_union]
      exact not_congr ⟨fun h => h.resolve_left (by omega), .inr⟩
    -- an irrelevant number that is also received is counted once
    have hunion : ((p.received ∪ p.irrelevant).filter fun sn =>
          p.firstUnknownCandidate ≤ sn ∧ sn < stop).card =
        (p.received.filter fun sn => p.firstUnknownCandidate ≤ sn ∧ sn < stop).card +
          ((p.irrelevant.filter fun sn => p.firstUnknownCandidate ≤ sn ∧ sn < stop).filter
            fun sn => sn ∉ p.received).card := by
      rw [← Finset.card_union_of_disjoint]
      · refine congrArg Finset.card (Finset.ext fun sn => ?_)
        simp only [Finset.mem_filter, Finset.mem_union]
        tauto
      · rw [Finset.disjoint_left]
        intro sn h h'
        exact (Finset.mem_filter.mp h').2 (Finset.mem_filter.mp h).1
    rw [hset, card_filter_not_mem_range, hunion]

theorem lostChangesUpdate_snd (first : Int) :
    (p.lostChangesUpdate first).2 =
      ((Int.range p.firstAvailableSn first).filter fun sn => !p.isKnown sn).length := by
  unfold lostChangesUpdate
  split
  · next h => rw [range_eq_nil h, List.filter_nil, List.length_nil]
  · exact unknownBefore_eq hp first

end

end WriterProxy
end ZeroDds.Rtps
