/-
What a durability store holds and how it is asked for it.

A `Contract` bounds the retention of a topic.
-/
import Mathlib.Data.String.Basic
import ZeroDds.Dcps.DataReader

namespace ZeroDds.Durability

open Dcps (KeyHash WriterGuid HistoryKind)

abbrev SystemTime := Int

def SystemTime.checkedAdd (t : SystemTime) (nanos : Nat) : Option SystemTime :=
  if t + nanos < 9223372036854775808 * 1000000000 then some (t + nanos) else none

def lengthUnlimited : Int := -1

structure Contract where
  historyKind : HistoryKind
  historyDepth : Int
  maxSamples : Int
  maxInstances : Int
  maxSamplesPerInstance : Int
  cleanupDelay : Nat
deriving DecidableEq

def asUsize (count : Int) : Nat := (count % 18446744073709551616).toNat

namespace Contract

variable (c : Contract)

def effectiveDepth : Nat := if c.historyDepth ≤ 0 then 1 else c.historyDepth.toNat

theorem effectiveDepth_pos : 0 < c.effectiveDepth := by
  unfold effectiveDepth
  split
  · exact Nat.one_pos
  · omega

def samplesBounded : Bool := c.maxSamples ≠ lengthUnlimited

def instancesBounded : Bool := c.maxInstances ≠ lengthUnlimited

def perInstanceBounded : Bool := c.maxSamplesPerInstance ≠ lengthUnlimited

end Contract

structure TopicMeta where
  typeName : String
  keyed : Bool
  contract : Contract
deriving DecidableEq

structure DurabilitySample where
  topic : String
  instanceKey : KeyHash
  sequence : Nat
  payload : List UInt8
  representation : UInt8
  bigEndian : Bool
  createdAt : SystemTime
  sourceGuid : WriterGuid
  sourceSequence : Int
deriving DecidableEq

structure Cursor where
  instanceKey : KeyHash
  sequence : Nat
deriving DecidableEq

def Cursor.le (a b : Cursor) : Prop :=
  a.instanceKey < b.instanceKey ∨ a.instanceKey = b.instanceKey ∧ a.sequence ≤ b.sequence

instance (a b : Cursor) : Decidable (a.le b) :=
  inferInstanceAs (Decidable (a.instanceKey < b.instanceKey ∨
    a.instanceKey = b.instanceKey ∧ a.sequence ≤ b.sequence))

def DurabilitySample.cursor (s : DurabilitySample) : Cursor := ⟨s.instanceKey, s.sequence⟩

structure Selector where
  instanceKey : Option KeyHash := none
  seqFrom : Option Nat := none
  seqTo : Option Nat := none
  timeFrom : Option SystemTime := none
  timeTo : Option SystemTime := none
  after : Option Cursor := none
  limit : Option Nat := none

namespace Selector

def afterCursor (sel : Selector) (cursor : Cursor) : Selector := { sel with after := some cursor }

def accepts (sel : Selector) (s : DurabilitySample) : Bool :=
  sel.instanceKey.all (fun k => s.instanceKey = k) &&
  sel.seqFrom.all (fun lo => lo ≤ s.sequence) &&
  sel.seqTo.all (fun hi => s.sequence ≤ hi) &&
  sel.timeFrom.all (fun t => t ≤ s.createdAt) &&
  sel.timeTo.all (fun t => s.createdAt ≤ t) &&
  sel.after.all (fun cursor => ¬s.cursor.le cursor)

end Selector

structure Page where
  samples : List DurabilitySample
  next : Option Cursor
deriving DecidableEq

structure StoreStats where
  samples : Nat := 0
  instances : Nat := 0
  bytes : Nat := 0
deriving DecidableEq

inductive StoreError where
  | outOfResources (what : String)
  | backend (message : String)
deriving DecidableEq

def defaultPage : Nat := 1024

def pageOf (sel : Selector) (matched : List DurabilitySample) : Page :=
  let sorted := matched.insertionSort fun a b => a.cursor.le b.cursor
  let limit := sel.limit.getD defaultPage
  let page := sorted.take limit
  ⟨page, if sorted.length ≤ limit then none else page.getLast?.map (·.cursor)⟩

def replayPages (query : Selector → Page) : Nat → Selector → List DurabilitySample
  | 0, _ => []
  | rounds + 1, sel =>
    let page := query sel
    match page.next with
    | some cursor =>
      if page.samples.length > 0 then
        page.samples ++ replayPages query rounds (sel.afterCursor cursor)
      else page.samples
    | none => page.samples

/-- Every page but the last has a sample, so one round for each sample and one more are enough. -/
def replayAll (query : Selector → Page) (samples : Nat) : List DurabilitySample :=
  replayPages query (samples + 1) { limit := some defaultPage }

inductive Call where
  | setContract (topic : String) (contract : Contract)
  | setTopicMeta (topic : String) (m : TopicMeta)
  | topicMeta (topic : String)
  | store (sample : DurabilitySample)
  | query (topic : String) (sel : Selector)
  | unregister (topic : String) (key : KeyHash) (now : SystemTime)
  | cleanup (now : SystemTime)
  | stats (topic : String)
  | replayForTopic (topic : String)

inductive Reply where
  | done
  | refused (e : StoreError)
  | topicMeta (m : Option TopicMeta)
  | page (p : Page)
  | removed (instances : Nat)
  | stats (st : StoreStats)
  | samples (l : List DurabilitySample)
deriving DecidableEq

def Reply.ofResult : Except StoreError Unit → Reply
  | .ok () => .done
  | .error e => .refused e

end ZeroDds.Durability
