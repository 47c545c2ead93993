/-
The message builder.
-/
import ZeroDds.Rtps.Submessages

namespace ZeroDds.Rtps

def rtpsHeaderLen : Nat := 20

def submessageHeaderLen : Nat := 4

inductive AddError where
  | wouldExceedMtu (needed remaining : Nat)
  | bodyTooLarge
  | unaligned
  deriving DecidableEq

namespace Submessage

def isFramingOnly : Submessage → Bool
  | .infoDst _ | .infoTs _ => true
  | _ => false

def wireLen (s : Submessage) : Nat := submessageHeaderLen + s.bodyLen

end Submessage

structure MessageBuilder where
  header : RtpsHeader
  targets : List Locator
  mtu : Nat
  submessages : List Submessage

namespace MessageBuilder

def openWith (header : RtpsHeader) (targets : List Locator) (mtu : Nat) : MessageBuilder :=
  ⟨header, targets, mtu, []⟩

variable (b : MessageBuilder)

def len : Nat := rtpsHeaderLen + (b.submessages.map Submessage.wireLen).sum

def remaining : Nat := b.mtu - b.len

def hasContent : Bool := b.submessages.any fun s => !s.isFramingOnly

def push (s : Submessage) : MessageBuilder :=
  { b with submessages := b.submessages ++ [s] }

def tryAddSubmessage (s : Submessage) : Except AddError MessageBuilder :=
  if b.len % 4 ≠ 0 then .error .unaligned
  else if u16Max < s.bodyLen then .error .bodyTooLarge
  else if b.mtu < b.len + s.wireLen then .error (.wouldExceedMtu s.wireLen b.remaining)
  else .ok (b.push s)

def finish : Option OutboundDatagram :=
  if b.hasContent then some ⟨b.header, b.submessages, b.targets⟩ else none

/-! ### What a builder takes -/

def Accepts (s : Submessage) : Prop :=
  b.len % 4 = 0 ∧ s.bodyLen ≤ u16Max ∧ b.len + s.wireLen ≤ b.mtu

instance (b : MessageBuilder) (s : Submessage) : Decidable (b.Accepts s) :=
  inferInstanceAs (Decidable (_ ∧ _ ∧ _))

theorem tryAddSubmessage_of_accepts {b : MessageBuilder} {s : Submessage} (h : b.Accepts s) :
    b.tryAddSubmessage s = .ok (b.push s) := by
  obtain ⟨haligned, hbody, hlen⟩ := h
  simp [tryAddSubmessage, haligned, Nat.not_lt.mpr hbody, Nat.not_lt.mpr hlen]

theorem tryAddSubmessage_of_not_accepts {b : MessageBuilder} {s : Submessage} (h : ¬b.Accepts s) :
    ∃ e, b.tryAddSubmessage s = .error e := by
  unfold tryAddSubmessage
  split
  · exact ⟨_, rfl⟩
  · split
    · exact ⟨_, rfl⟩
    · split
      · exact ⟨_, rfl⟩
      · exact absurd ⟨by omega, by omega, by omega⟩ h

@[simp] theorem len_push (s : Submessage) : (b.push s).len = b.len + s.wireLen := by
  simp [len, push, Nat.add_assoc]

@[simp] theorem mtu_push (s : Submessage) : (b.push s).mtu = b.mtu := rfl

end MessageBuilder
end ZeroDds.Rtps
