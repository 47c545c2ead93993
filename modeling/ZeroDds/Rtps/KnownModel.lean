/-
The plain model of what a reader knows.
-/
import ZeroDds.Lib.Run
import ZeroDds.Rtps.WriterProxy

namespace ZeroDds.Rtps

structure KnownModel where
  first : Int
  last : Int
  known : Finset Int
  deriving DecidableEq

inductive ProxyOp where
  | received (sn : Int)
  | irrelevant (sn : Int)
  | notAvailable (sn : Int) (kind : NotAvailableKind)
  | unreceive (sn : Int)
  | lost (first : Int)
  | heartbeat (first last : Int)

namespace KnownModel

def initial : KnownModel := ⟨1, 0, ∅⟩

variable (m : KnownModel)

def isKnown (sn : Int) : Bool := m.first ≤ sn && sn ∈ m.known

def missing (maxCount : Nat) : List Int :=
  ((Int.range m.first (m.last + 1)).filter fun sn => !m.isKnown sn).take maxCount

def base : Int :=
  ((Int.range m.first (m.last + 1)).find? fun sn => !m.isKnown sn).getD (m.last + 1)

def lostBelow (first : Int) : Nat :=
  ((Int.range m.first first).filter fun sn => !m.isKnown sn).length

def mark (sn : Int) : KnownModel :=
  if m.first ≤ sn then { m with known := insert sn m.known } else m

def takeBack (sn : Int) : KnownModel :=
  if m.first ≤ sn then { m with known := m.known.erase sn } else m

def raiseFirst (first : Int) : KnownModel :=
  if m.first < first then
    { m with first := first, known := m.known.filter fun sn => first ≤ sn }
  else m

def step : ProxyOp → KnownModel × Option Nat
  | .received sn => (m.mark sn, none)
  | .irrelevant sn => (m.mark sn, none)
  | .notAvailable sn _ => (m.mark sn, none)
  | .unreceive sn => (m.takeBack sn, none)
  | .lost first => (m.raiseFirst first, some (m.lostBelow first))
  | .heartbeat first last =>
    let m' := m.raiseFirst first
    ({ m' with last := max m'.last last }, some (m.lostBelow first))

end KnownModel

namespace WriterProxy

def step (p : WriterProxy) : ProxyOp → WriterProxy × Option Nat
  | .received sn => (p.receivedChangeSet sn, none)
  | .irrelevant sn => (p.irrelevantChangeSet sn, none)
  | .notAvailable sn kind => (p.notAvailableChangeSet sn kind, none)
  | .unreceive sn => (p.unreceiveChangeSet sn, none)
  | .lost first => ((p.lostChangesUpdate first).1, some (p.lostChangesUpdate first).2)
  | .heartbeat first last =>
    ((p.updateFromHeartbeat first last).1, some (p.updateFromHeartbeat first last).2)

structure Represents (p : WriterProxy) (m : KnownModel) : Prop where
  absorbed : p.Absorbed
  first_eq : p.firstAvailableSn = m.first
  last_eq : p.lastAvailableSn = m.last
  isKnown_eq : ∀ sn, p.isKnown sn = m.isKnown sn

theorem represents_initial (guid : Guid) (u ml : List Locator) (b : Bool) :
    (new guid u ml b).Represents KnownModel.initial where
  absorbed := new_absorbed guid u ml b
  first_eq := rfl
  last_eq := rfl
  isKnown_eq sn := by
    rw [Bool.eq_iff_iff, isKnown_iff]
    simp only [new, KnownModel.initial, KnownModel.isKnown]
    simp; omega

variable {p : WriterProxy} {m : KnownModel}

section

variable (h : p.Represents m)
include h

theorem Represents.mark {p' : WriterProxy} {sn : Int} (hp' : p'.Absorbed)
    (hf : p'.firstAvailableSn = p.firstAvailableSn) (hl : p'.lastAvailableSn = p.lastAvailableSn)
    (hk : ∀ n, p'.isKnown n = true ↔ (p.firstAvailableSn ≤ sn ∧ n = sn) ∨ p.isKnown n = true) :
    p'.Represents (m.mark sn) := by
  have hfirst : (m.mark sn).first = m.first := by unfold KnownModel.mark; split <;> rfl
  have hlast : (m.mark sn).last = m.last := by unfold KnownModel.mark; split <;> rfl
  refine ⟨hp', by rw [hf, h.first_eq, hfirst], by rw [hl, h.last_eq, hlast], fun n => ?_⟩
  rw [Bool.eq_iff_iff, hk, h.isKnown_eq, h.first_eq]
  unfold KnownModel.mark
  split
  · next hle =>
    simp only [KnownModel.isKnown, Finset.mem_insert, Bool.and_eq_true, decide_eq_true_eq]
    constructor
    · rintro (⟨-, rfl⟩ | ⟨h1, h2⟩)
      · exact ⟨hle, .inl rfl⟩
      · exact ⟨h1, .inr h2⟩
    · rintro ⟨h1, rfl | h2⟩
      · exact .inl ⟨h1, rfl⟩
      · exact .inr ⟨h1, h2⟩
  · next hlt => exact ⟨fun h' => h'.resolve_left fun c => hlt c.1, .inr⟩

theorem Represents.takeBack (sn : Int) :
    (p.unreceiveChangeSet sn).Represents (m.takeBack sn) := by
  obtain ⟨habs, hk⟩ := unreceiveChangeSet_spec h.absorbed sn
  have hfirst : (m.takeBack sn).first = m.first := by unfold KnownModel.takeBack; split <;> rfl
  have hlast : (m.takeBack sn).last = m.last := by unfold KnownModel.takeBack; split <;> rfl
  refine ⟨habs, by simp [h.first_eq, hfirst], by simp [h.last_eq, hlast], fun n => ?_⟩
  rw [Bool.eq_iff_iff, hk, h.isKnown_eq]
  unfold KnownModel.takeBack
  split
  · simp only [KnownModel.isKnown, Finset.mem_erase, Bool.and_eq_true, decide_eq_true_eq]
    tauto
  · next hlt =>
    refine ⟨And.right, fun hn => ⟨?_, hn⟩⟩
    rintro rfl
    simp only [KnownModel.isKnown, Bool.and_eq_true, decide_eq_true_eq] at hn
    exact hlt hn.1

theorem Represents.raiseFirst {p' : WriterProxy} {first : Int}
    (hp' : p'.Absorbed) (hf : p'.firstAvailableSn = max p.firstAvailableSn first)
    (hl : p'.lastAvailableSn = p.lastAvailableSn)
    (hk : ∀ n, p'.isKnown n = true ↔ first ≤ n ∧ p.isKnown n = true) :
    p'.Represents (m.raiseFirst first) := by
  have hfirst : (m.raiseFirst first).first = max m.first first := by
    unfold KnownModel.raiseFirst
    split
    · next h => exact (max_eq_right (le_of_lt h)).symm
    · next h => exact (max_eq_left (not_lt.mp h)).symm
  have hlast : (m.raiseFirst first).last = m.last := by
    unfold KnownModel.raiseFirst
    split <;> rfl
  refine ⟨hp', by rw [hf, h.first_eq, hfirst], by rw [hl, h.last_eq, hlast], fun n => ?_⟩
  rw [Bool.eq_iff_iff, hk, h.isKnown_eq]
  unfold KnownModel.raiseFirst
  split
  · simp only [KnownModel.isKnown, Finset.mem_filter, Bool.and_eq_true, decide_eq_true_eq]
    constructor
    · rintro ⟨h1, -, h2⟩
      exact ⟨h1, h2, h1⟩
    · rintro ⟨h1, h2, -⟩
      exact ⟨h1, by omega, h2⟩
  · simp only [KnownModel.isKnown, Bool.and_eq_true, decide_eq_true_eq]
    constructor
    · exact And.right
    · exact fun hn => ⟨by omega, hn⟩

theorem Represents.lostBelow_eq (first : Int) :
    (p.lostChangesUpdate first).2 = m.lostBelow first := by
  rw [lostChangesUpdate_snd h.absorbed, KnownModel.lostBelow, h.first_eq]
  simp [h.isKnown_eq]

theorem Represents.step (op : ProxyOp) :
    (p.step op).1.Represents (m.step op).1 ∧ (p.step op).2 = (m.step op).2 := by
  cases op with
  | received sn =>
    obtain ⟨habs, hk⟩ := receivedChangeSet_spec h.absorbed sn
    exact ⟨h.mark habs (p.receivedChangeSet_firstAvailableSn sn)
      (p.receivedChangeSet_lastAvailableSn sn) hk, rfl⟩
  | irrelevant sn =>
    obtain ⟨habs, hk⟩ := irrelevantChangeSet_spec h.absorbed sn
    exact ⟨h.mark habs (p.irrelevantChangeSet_firstAvailableSn sn)
      (p.irrelevantChangeSet_lastAvailableSn sn) hk, rfl⟩
  | notAvailable sn kind =>
    obtain ⟨habs, hk⟩ := notAvailableChangeSet_spec h.absorbed sn kind
    exact ⟨h.mark habs (p.notAvailableChangeSet_firstAvailableSn sn kind)
      (p.notAvailableChangeSet_lastAvailableSn sn kind) hk, rfl⟩
  | unreceive sn => exact ⟨h.takeBack sn, rfl⟩
  | lost first =>
    obtain ⟨habs, hk⟩ := lostChangesUpdate_spec h.absorbed first
    exact ⟨h.raiseFirst habs (p.lostChangesUpdate_firstAvailableSn first)
      (p.lostChangesUpdate_lastAvailableSn first) hk, congrArg some (h.lostBelow_eq first)⟩
  | heartbeat first last =>
    obtain ⟨habs, hk⟩ := lostChangesUpdate_spec h.absorbed first
    have hr := h.raiseFirst habs (by simp) (by simp) hk
    refine ⟨⟨?_, hr.first_eq, ?_, hr.isKnown_eq⟩, congrArg some (h.lostBelow_eq first)⟩
    · exact (updateFromHeartbeat_spec h.absorbed first last).1
    · simp [WriterProxy.step, KnownModel.step, updateFromHeartbeat_lastAvailableSn, ← hr.last_eq,
        lostChangesUpdate_lastAvailableSn]

theorem Represents.missingChanges_eq (k : Nat) :
    p.missingChanges k = m.missing k := by
  rw [WriterProxy.missingChanges_eq h.absorbed, KnownModel.missing, h.first_eq, h.last_eq]
  simp [h.isKnown_eq]

theorem Represents.acknackBase_eq : p.acknackBase = m.base := by
  rw [WriterProxy.acknackBase_eq h.absorbed, KnownModel.base, h.first_eq, h.last_eq]
  simp [h.isKnown_eq]

end

/-- After every sequence of operations, in any order and at any numbers, the
proxy and the plain model have returned the same loss counts and answer every
question alike. -/
theorem writerProxy_refines_knownModel (guid : Guid) (unicast multicast : List Locator)
    (isReliable : Bool) (ops : List ProxyOp) :
    let p := run WriterProxy.step (new guid unicast multicast isReliable) ops
    let m := run KnownModel.step KnownModel.initial ops
    p.2 = m.2 ∧ (∀ sn, p.1.isKnown sn = m.1.isKnown sn) ∧
      (∀ k, p.1.missingChanges k = m.1.missing k) ∧ p.1.acknackBase = m.1.base ∧
      p.1.availableChangesMax = m.1.base - 1 := by
  intro p m
  obtain ⟨hrep, hout⟩ := run_simulates (R := Represents)
    (fun _ _ op h => h.step op) ops
    (represents_initial guid unicast multicast isReliable)
  exact ⟨hout, hrep.isKnown_eq, hrep.missingChanges_eq, hrep.acknackBase_eq,
    congrArg (· - 1) hrep.acknackBase_eq⟩

end WriterProxy
end ZeroDds.Rtps
