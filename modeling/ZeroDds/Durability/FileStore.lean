/-
The store with a file for each sample.

A topic has a directory with a metadata file and a directory for each instance; an instance has a
file for each sample, named by its sequence number, and a file with the time it was unregistered.
-/
import Mathlib.Data.List.GetD
import ZeroDds.Lib.Bytes
import ZeroDds.Durability.InMemoryStore

namespace ZeroDds.Durability

open Dcps (KeyHash WriterGuid HistoryKind Octets16)
open Rtps (Octets)

def nanosOf (t : SystemTime) : Nat :=
  if t < 0 then 0 else if t.toNat < 18446744073709551616 then t.toNat else 18446744073709551615

def timeOf (nanos : Nat) : SystemTime := nanos

def headerLen : Nat := 34

def encodeSample (s : DurabilitySample) : Octets :=
  leBytes 8 (nanosOf s.createdAt) ++ ([s.representation] ++ ([if s.bigEndian then 1 else 0] ++
    (s.sourceGuid.octets.toList ++ (leBytes 8 (unsignedOf 9223372036854775808 s.sourceSequence) ++
      s.payload))))

def octets16At (raw : Octets) (pos : Nat) : Octets16 := ⟨Vector.ofFn fun i => raw.getD (pos + i) 0⟩

def readSample (topic : String) (key : KeyHash) (seq : Nat) (raw : Octets) :
    Option DurabilitySample :=
  if raw.length < headerLen then none
  else some {
    topic
    instanceKey := key
    sequence := seq
    payload := raw.drop headerLen
    representation := raw.getD 8 0
    bigEndian := raw.getD 9 0 ≠ 0
    createdAt := timeOf (ofLe (raw.take 8))
    sourceGuid := octets16At raw 10
    sourceSequence := signedOf 9223372036854775808 (ofLe ((raw.drop 26).take 8)) }

def Representable (t : Int) : Prop := 0 ≤ t ∧ t < 18446744073709551616

instance (t : Int) : Decidable (Representable t) := inferInstanceAs (Decidable (_ ∧ _))

structure DurabilitySample.Storable (s : DurabilitySample) : Prop where
  time : Representable s.createdAt
  source : -9223372036854775808 ≤ s.sourceSequence ∧ s.sourceSequence < 9223372036854775808

theorem timeOf_nanosOf {t : Int} (h : Representable t) : timeOf (nanosOf t) = t := by
  obtain ⟨hpos, hlt⟩ := h
  have hnat : t.toNat < 18446744073709551616 := by omega
  rw [nanosOf, if_neg (Int.not_lt.mpr hpos), if_pos hnat]
  exact Int.toNat_of_nonneg hpos

theorem nanosOf_lt (t : SystemTime) : nanosOf t < 18446744073709551616 := by
  unfold nanosOf
  split
  · omega
  · split <;> omega

variable {before after : Octets} {pos : Nat}

theorem octets16At_append {g : Octets16} (hpos : before.length = pos) :
    octets16At (before ++ (g.octets.toList ++ after)) pos = g := by
  subst hpos
  obtain ⟨v⟩ := g
  refine congrArg Octets16.mk (Vector.ext fun i hi => ?_)
  have hlen : i < v.toList.length := by
    rw [Vector.length_toList]
    exact hi
  rw [Vector.getElem_ofFn, List.getD_append_right _ _ _ _ (Nat.le_add_right _ _),
    Nat.add_sub_cancel_left, List.getD_append _ _ _ _ hlen,
    List.getD_eq_getElem _ _ hlen, Vector.getElem_toList]

theorem readSample_encodeSample {s : DurabilitySample} (h : s.Storable) :
    readSample s.topic s.instanceKey s.sequence (encodeSample s) = some s := by
  have hguid : s.sourceGuid.octets.toList.length = 16 := Vector.length_toList
  have hlen : ¬(encodeSample s).length < headerLen := by
    simp only [encodeSample, List.length_append, length_leBytes, List.length_singleton, hguid,
      headerLen]
    omega
  have htime : ofLe ((encodeSample s).take 8) = nanosOf s.createdAt := by
    rw [encodeSample, List.take_left' (length_leBytes _ _), ofLe_leBytes (nanosOf_lt _)]
  have hrepresentation : (encodeSample s).getD 8 0 = s.representation := by
    rfl
  have horder : (encodeSample s).getD 9 0 = if s.bigEndian then 1 else 0 := by
    rfl
  have hbefore : encodeSample s = (leBytes 8 (nanosOf s.createdAt) ++ ([s.representation] ++
      [if s.bigEndian then 1 else 0])) ++ (s.sourceGuid.octets.toList ++
        (leBytes 8 (unsignedOf 9223372036854775808 s.sourceSequence) ++ s.payload)) := by
    simp [encodeSample]
  have hsource : octets16At (encodeSample s) 10 = s.sourceGuid := by
    exact octets16At_append (by simp)
  have hnumber : ((encodeSample s).drop 26).take 8 =
      leBytes 8 (unsignedOf 9223372036854775808 s.sourceSequence) := by
    rw [hbefore, ← List.append_assoc, List.drop_left' (by simp [hguid]),
      List.take_left' (length_leBytes _ _)]
  have hpayload : (encodeSample s).drop headerLen = s.payload := by
    rw [hbefore, ← List.append_assoc, ← List.append_assoc,
      List.drop_left' (by simp [hguid, headerLen])]
  have hsigned : signedOf 9223372036854775808
      (ofLe (leBytes 8 (unsignedOf 9223372036854775808 s.sourceSequence))) = s.sourceSequence := by
    have hfits := unsignedOf_lt (show 0 < 9223372036854775808 by omega) s.sourceSequence
    rw [ofLe_leBytes (by omega), signedOf_unsignedOf h.source.1 h.source.2]
  rw [readSample, if_neg hlen, htime, hrepresentation, horder, hsource, hnumber, hpayload, hsigned,
    timeOf_nanosOf h.time]
  have hflag : decide ((if s.bigEndian = true then (1 : UInt8) else 0) ≠ 0) = s.bigEndian := by
    cases s.bigEndian <;> rfl
  rw [hflag]

def historyKindToU32 : HistoryKind → Nat
  | .keepLast => 0
  | .keepAll => 1

def historyKindOfU32 : Nat → Option HistoryKind
  | 0 => some .keepLast
  | 1 => some .keepAll
  | _ => none

def i32Bytes (i : Int) : Octets := leBytes 4 (unsignedOf 2147483648 i)

def i32At (raw : Octets) (pos : Nat) : Option Int :=
  (slice raw pos 4).map fun b => signedOf 2147483648 (ofLe b)

def natAt (raw : Octets) (pos width : Nat) : Option Nat := (slice raw pos width).map ofLe

def encodeTopicMeta (m : TopicMeta) : Octets :=
  let name := utf8Bytes m.typeName
  leBytes 4 name.length ++ (name ++ ([if m.keyed then 1 else 0] ++
    (leBytes 4 (historyKindToU32 m.contract.historyKind) ++ (i32Bytes m.contract.historyDepth ++
      (i32Bytes m.contract.maxSamples ++ (i32Bytes m.contract.maxInstances ++
        (i32Bytes m.contract.maxSamplesPerInstance ++
          (leBytes 8 (m.contract.cleanupDelay / 1000000000) ++
            leBytes 4 (m.contract.cleanupDelay % 1000000000)))))))))

def decodeTopicMeta (raw : Octets) : Option TopicMeta := do
  let nameLen ← natAt raw 0 4
  let name ← slice raw 4 nameLen
  let typeName ← ofUtf8? name
  let pos := 4 + nameLen
  let keyed ← slice raw pos 1
  let historyKind ← natAt raw (pos + 1) 4
  let historyDepth ← i32At raw (pos + 5)
  let maxSamples ← i32At raw (pos + 9)
  let maxInstances ← i32At raw (pos + 13)
  let maxSamplesPerInstance ← i32At raw (pos + 17)
  let secs ← natAt raw (pos + 21) 8
  let nanos ← natAt raw (pos + 29) 4
  let historyKind ← historyKindOfU32 historyKind
  some {
    typeName
    keyed := keyed ≠ [0]
    contract := {
      historyKind, historyDepth, maxSamples, maxInstances, maxSamplesPerInstance
      cleanupDelay := secs * 1000000000 + nanos } }

structure TopicMeta.Storable (m : TopicMeta) : Prop where
  name : (utf8Bytes m.typeName).length < 4294967296
  depth : -2147483648 ≤ m.contract.historyDepth ∧ m.contract.historyDepth < 2147483648
  samples : -2147483648 ≤ m.contract.maxSamples ∧ m.contract.maxSamples < 2147483648
  instances : -2147483648 ≤ m.contract.maxInstances ∧ m.contract.maxInstances < 2147483648
  perInstance : -2147483648 ≤ m.contract.maxSamplesPerInstance ∧
    m.contract.maxSamplesPerInstance < 2147483648
  delay : m.contract.cleanupDelay / 1000000000 < 18446744073709551616

theorem natAt_append {width n : Nat} (hpos : before.length = pos) (hn : n < 256 ^ width) :
    natAt (before ++ (leBytes width n ++ after)) pos width = some n := by
  rw [natAt, slice_at hpos (length_leBytes _ _), Option.map_some, ofLe_leBytes hn]

theorem i32At_append {i : Int} (hpos : before.length = pos)
    (hi : -2147483648 ≤ i ∧ i < 2147483648) :
    i32At (before ++ (i32Bytes i ++ after)) pos = some i := by
  have hfits := unsignedOf_lt (show 0 < 2147483648 by omega) i
  rw [i32At, i32Bytes, slice_at hpos (length_leBytes _ _), Option.map_some,
    ofLe_leBytes (by omega), signedOf_unsignedOf hi.1 hi.2]

theorem historyKindOfU32_toU32 (kind : HistoryKind) :
    historyKindOfU32 (historyKindToU32 kind) = some kind := by
  cases kind <;> rfl

theorem decodeTopicMeta_encodeTopicMeta {m : TopicMeta} (h : m.Storable) :
    decodeTopicMeta (encodeTopicMeta m) = some m := by
  have hi32 : ∀ i, (i32Bytes i).length = 4 := fun i => length_leBytes _ _
  have hnameLen : natAt (encodeTopicMeta m) 0 4 = some (utf8Bytes m.typeName).length :=
    natAt_append (show ([] : Octets).length = 0 from rfl) h.name
  have hname : slice (encodeTopicMeta m) 4 (utf8Bytes m.typeName).length =
      some (utf8Bytes m.typeName) := slice_at (length_leBytes _ _) rfl
  generalize hlen : (utf8Bytes m.typeName).length = len at hnameLen hname
  have hkeyed : slice (encodeTopicMeta m) (4 + len) 1 = some [if m.keyed then 1 else 0] := by
    unfold encodeTopicMeta
    rw [← List.append_assoc]
    exact slice_at (by simp only [List.length_append, length_leBytes, hlen]) rfl
  have hkind : natAt (encodeTopicMeta m) (4 + len + 1) 4 =
      some (historyKindToU32 m.contract.historyKind) := by
    unfold encodeTopicMeta
    iterate 2 rw [← List.append_assoc]
    refine natAt_append (by simp only [List.length_append, length_leBytes, hlen,
      List.length_singleton]) ?_
    cases m.contract.historyKind <;> decide
  have hdepth : i32At (encodeTopicMeta m) (4 + len + 5) = some m.contract.historyDepth := by
    unfold encodeTopicMeta
    iterate 3 rw [← List.append_assoc]
    exact i32At_append (by simp only [List.length_append, length_leBytes, hlen,
      List.length_singleton]) h.depth
  have hsamples : i32At (encodeTopicMeta m) (4 + len + 9) = some m.contract.maxSamples := by
    unfold encodeTopicMeta
    iterate 4 rw [← List.append_assoc]
    exact i32At_append (by simp only [List.length_append, length_leBytes, hlen, hi32,
      List.length_singleton]) h.samples
  have hinstances : i32At (encodeTopicMeta m) (4 + len + 13) = some m.contract.maxInstances := by
    unfold encodeTopicMeta
    iterate 5 rw [← List.append_assoc]
    exact i32At_append (by simp only [List.length_append, length_leBytes, hlen, hi32,
      List.length_singleton]) h.instances
  have hper : i32At (encodeTopicMeta m) (4 + len + 17) =
      some m.contract.maxSamplesPerInstance := by
    unfold encodeTopicMeta
    iterate 6 rw [← List.append_assoc]
    exact i32At_append (by simp only [List.length_append, length_leBytes, hlen, hi32,
      List.length_singleton]) h.perInstance
  have hsecs : natAt (encodeTopicMeta m) (4 + len + 21) 8 =
      some (m.contract.cleanupDelay / 1000000000) := by
    unfold encodeTopicMeta
    iterate 7 rw [← List.append_assoc]
    exact natAt_append (by simp only [List.length_append, length_leBytes, hlen, hi32,
      List.length_singleton]) h.delay
  have hnanos : natAt (encodeTopicMeta m) (4 + len + 29) 4 =
      some (m.contract.cleanupDelay % 1000000000) := by
    unfold encodeTopicMeta
    iterate 8 rw [← List.append_assoc]
    rw [← List.append_nil (leBytes 4 (m.contract.cleanupDelay % 1000000000))]
    refine natAt_append (by simp only [List.length_append, length_leBytes, hlen, hi32,
      List.length_singleton]) ?_
    have hlt := Nat.mod_lt m.contract.cleanupDelay (show 0 < 1000000000 by omega)
    omega
  have hdelay : m.contract.cleanupDelay / 1000000000 * 1000000000 +
      m.contract.cleanupDelay % 1000000000 = m.contract.cleanupDelay :=
    Nat.div_add_mod' _ _
  have hflag : decide ([if m.keyed then (1 : UInt8) else 0] ≠ [0]) = m.keyed := by
    cases m.keyed <;> rfl
  have hthen : ∀ {α : Type} {o : Option α} {a : α} {f : α → Option TopicMeta},
      o = some a → (o >>= f) = f a := by
    intro α o a f ho
    rw [ho]
    rfl
  rw [decodeTopicMeta, hthen hnameLen, hthen hname, hthen (ofUtf8?_utf8Bytes _)]
  dsimp only
  rw [hthen hkeyed, hthen hkind, hthen hdepth, hthen hsamples, hthen hinstances, hthen hper,
    hthen hsecs, hthen hnanos, hthen (historyKindOfU32_toU32 _), hdelay, hflag]

structure InstanceDir where
  /-- Contents of the sample files, by sequence number. -/
  files : SortedMap Nat Octets := .empty
  /-- The number in the file of the unregister time. -/
  unregistered : Option Nat := none
deriving DecidableEq

structure TopicDir where
  metaFile : Option Octets := none
  instances : SortedMap KeyHash InstanceDir := .empty

structure FileStore where
  rootPath : String
  root : SortedMap String TopicDir
  contracts : SortedMap String Contract
  defaultContract : Contract

def hexDigit (n : Nat) : Char := "0123456789abcdef".toList.getD n '0'

def hex (bytes : Octets) : String :=
  String.ofList (bytes.flatMap fun b => [hexDigit (b.toNat / 16), hexDigit (b.toNat % 16)])

namespace FileStore

def opened (rootPath : String) (defaultContract : Contract) : FileStore :=
  ⟨rootPath, .empty, .empty, defaultContract⟩

variable (f : FileStore) (topic : String)

def topicDir : TopicDir := (f.root.get? topic).getD {}

def instances (topic : String) : SortedMap KeyHash InstanceDir := (f.topicDir topic).instances

def metaPath : String :=
  f.rootPath ++ "/" ++ hex (utf8Bytes topic) ++ "/.meta"

def readMeta : Except StoreError (Option TopicMeta) :=
  match (f.topicDir topic).metaFile with
  | none => .ok none
  | some raw =>
    match decodeTopicMeta raw with
    | some m => .ok (some m)
    | none => .error (.backend ("file store: corrupt topic meta sidecar: " ++ f.metaPath topic))

def contractFor : Except StoreError Contract :=
  match f.readMeta topic with
  | .error e => .error e
  | .ok (some m) => .ok m.contract
  | .ok none => .ok ((f.contracts.get? topic).getD f.defaultContract)

def putTopic (dir : TopicDir) : FileStore :=
  { f with root := f.root.insert topic dir }

def putInstance (key : KeyHash) (dir : InstanceDir) : FileStore :=
  f.putTopic topic { f.topicDir topic with instances := (f.instances topic).insert key dir }

def setContract (contract : Contract) : FileStore :=
  { f with contracts := f.contracts.insert topic contract }

def setTopicMeta (m : TopicMeta) : FileStore :=
  f.putTopic topic { f.topicDir topic with metaFile := some (encodeTopicMeta m) }

def listSamples (key : KeyHash) : SortedMap Nat Octets :=
  (((f.instances topic).get? key).getD {}).files

def topicSampleCount : Nat :=
  ((f.instances topic).keys.map fun key => (f.listSamples topic key).size).sum

def store (sample : DurabilitySample) : Except StoreError Unit × FileStore :=
  match f.contractFor sample.topic with
  | .error e => (.error e, f)
  | .ok contract =>
    let newInstance := !(f.instances sample.topic).contains sample.instanceKey
    let isResend := (f.listSamples sample.topic sample.instanceKey).contains sample.sequence
    if !isResend && contract.samplesBounded && contract.historyKind = .keepAll &&
        f.topicSampleCount sample.topic ≥ asUsize contract.maxSamples then
      (.error (.outOfResources "max_samples"), f)
    else if newInstance && contract.instancesBounded &&
        (f.instances sample.topic).size ≥ asUsize contract.maxInstances then
      (.error (.outOfResources "max_instances"), f)
    else
      let dir := ((f.instances sample.topic).get? sample.instanceKey).getD {}
      -- The directory is made before the history is looked at.
      let f := f.putInstance sample.topic sample.instanceKey dir
      match contract.historyKind with
      | .keepLast =>
        let kept := dir.files.dropFirst (dir.files.size + 1 - contract.effectiveDepth)
        (.ok (), f.putInstance sample.topic sample.instanceKey
          { dir with files := kept.insert sample.sequence (encodeSample sample) })
      | .keepAll =>
        if !isResend && contract.perInstanceBounded &&
            dir.files.size ≥ asUsize contract.maxSamplesPerInstance then
          (.error (.outOfResources "max_samples_per_instance"), f)
        else
          (.ok (), f.putInstance sample.topic sample.instanceKey
            { dir with files := dir.files.insert sample.sequence (encodeSample sample) })

def samplesOf (key : KeyHash) : List DurabilitySample :=
  (f.listSamples topic key).entries.filterMap fun e => readSample topic key e.1 e.2

def query (sel : Selector) : Page :=
  let keys :=
    match sel.instanceKey with
    | some key => [key]
    | none => (f.instances topic).keys
  pageOf sel (keys.flatMap fun key => (f.samplesOf topic key).filter sel.accepts)

def unregister (key : KeyHash) (now : SystemTime) : FileStore :=
  match (f.instances topic).get? key with
  | none => f
  | some dir => f.putInstance topic key { dir with unregistered := some (nanosOf now) }

def isDue (delay : Nat) (now : SystemTime) (dir : InstanceDir) : Bool :=
  dir.unregistered.any fun nanos =>
    ((timeOf nanos).checkedAdd delay).any fun deadline => deadline ≤ now

def cleanupTopics (now : SystemTime) : List String → FileStore → Nat →
    Except StoreError Nat × FileStore
  | [], f, removed => (.ok removed, f)
  | topic :: rest, f, removed =>
    match f.contractFor topic with
    | .error e => (.error e, f)
    | .ok contract =>
      let due := (f.instances topic).filter fun _ dir => isDue contract.cleanupDelay now dir
      let left := (f.instances topic).filter fun _ dir => !isDue contract.cleanupDelay now dir
      cleanupTopics now rest (f.putTopic topic { f.topicDir topic with instances := left })
        (removed + due.size)

def cleanup (now : SystemTime) : Except StoreError Nat × FileStore :=
  cleanupTopics now f.root.keys f 0

def stats : StoreStats where
  samples := ((f.instances topic).keys.map fun key => (f.samplesOf topic key).length).sum
  instances := (f.instances topic).size
  bytes := ((f.instances topic).keys.flatMap fun key =>
    (f.samplesOf topic key).map (·.payload.length)).sum

def replayForTopic : List DurabilitySample :=
  replayAll (f.query topic) (f.topicSampleCount topic)

def call : Call → FileStore × Reply
  | .setContract topic contract => (f.setContract topic contract, .done)
  | .setTopicMeta topic m => (f.setTopicMeta topic m, .done)
  | .topicMeta topic => (f, match f.readMeta topic with
    | .ok m => .topicMeta m
    | .error e => .refused e)
  | .store sample => ((f.store sample).2, .ofResult (f.store sample).1)
  | .query topic sel => (f, .page (f.query topic sel))
  | .unregister topic key now => (f.unregister topic key now, .done)
  | .cleanup now => ((f.cleanup now).2, match (f.cleanup now).1 with
    | .ok removed => .removed removed
    | .error e => .refused e)
  | .stats topic => (f, .stats (f.stats topic))
  | .replayForTopic topic => (f, .samples (f.replayForTopic topic))

end FileStore

end ZeroDds.Durability
