/-
Permissions and governance documents.

A grant holds rules in document order; the first rule for the domain whose criteria match the
request decides, and without one the default does (`Grant.decide`).
-/
import ZeroDds.Security.TopicMatch

namespace ZeroDds.Security

structure Domain where
  id : UInt32
  tag : String
deriving Repr, DecidableEq

inductive DomainTagMatch where
  | tag (tag : String)
  | expression (e : String)
deriving Repr, DecidableEq

structure DomainFilter where
  /-- Inclusive ranges; none of them matches every id. -/
  ranges : List (UInt32 × UInt32) := []
  tags : List DomainTagMatch := []
deriving Repr, DecidableEq

def DomainTagMatch.holds (domain : Domain) : DomainTagMatch → Bool
  | tag t => t == domain.tag
  | expression e => topicMatch e domain.tag

def DomainFilter.matches (f : DomainFilter) (domain : Domain) : Bool :=
  let idOk := f.ranges.isEmpty ||
    f.ranges.any fun (lo, hi) => decide (domain.id ≥ lo) && decide (domain.id ≤ hi)
  let tagOk :=
    if f.tags.isEmpty then domain.tag == "" else f.tags.any fun t => t.holds domain
  idOk && tagOk

structure Validity where
  not_before : UInt64
  not_after : UInt64
deriving Repr, DecidableEq

def Validity.contains (v : Validity) (now : UInt64) : Bool :=
  decide (now ≥ v.not_before) && decide (now < v.not_after)

inductive GrantSubject where
  | name (name : String)
  | expression (expr : String)
deriving Repr, DecidableEq

inductive Action where
  | publish
  | subscribe
  | relay
deriving Repr, DecidableEq

structure DataTag where
  name : String
  value : String
deriving Repr, DecidableEq

structure Criteria where
  topics : List String
  /-- Absent: the empty-string partition in an allow rule, every partition in a deny rule. -/
  partitions : Option (List String) := none
  /-- Absent: no tag in an allow rule, every tag in a deny rule. -/
  data_tags : Option (List DataTag) := none
deriving Repr, DecidableEq

structure Rule where
  allow : Bool
  domains : DomainFilter
  publish : List Criteria := []
  subscribe : List Criteria := []
  relay : List Criteria := []
deriving Repr, DecidableEq

def Rule.criteria (r : Rule) : Action → List Criteria
  | .publish => r.publish
  | .subscribe => r.subscribe
  | .relay => r.relay

/-- How the partitions of an allow rule match: all partitions of the entity, or one of them. -/
inductive PartitionMatching where
  | subset
  | legacy
deriving Repr, DecidableEq

structure AccessRequest where
  action : Action
  domain : Domain
  topic : String
  partitions : List String
  data_tags : List DataTag
deriving Repr, DecidableEq

structure Grant where
  name : String
  subject : GrantSubject
  validity : Validity
  rules : List Rule
  default_deny : Bool
deriving Repr, DecidableEq

inductive Decision where
  | allow
  | deny
  | default (allow : Bool)
deriving Repr, DecidableEq

def Decision.allowed : Decision → Bool
  | .allow => true
  | .deny => false
  | .default byDefault => byDefault

def AccessRequest.asked (req : AccessRequest) : List String :=
  if req.partitions.isEmpty then [""] else req.partitions

variable (c : Criteria)

def Criteria.inSet (want : String) : Bool :=
  match c.partitions with
  | none => want == ""
  | some set => set.any fun p => topicMatch p want

def partitionsOk (allow : Bool) (req : AccessRequest) (matching : PartitionMatching) : Bool :=
  if allow then
    match matching with
    | .subset => req.asked.all c.inSet
    | .legacy => req.asked.any c.inSet
  else
    match c.partitions with
    | none => true
    | some set => req.asked.any fun want => set.any fun p => topicMatch p want

def dataTagsOk (allow : Bool) (req : AccessRequest) : Bool :=
  if allow then req.data_tags.all fun t => (c.data_tags.getD []).contains t
  else
    match c.data_tags with
    | none => true
    | some set => req.data_tags.any fun t => set.contains t

def criteriaMatch (allow : Bool) (req : AccessRequest) (matching : PartitionMatching) : Bool :=
  if !(c.topics.any fun t => topicMatch t req.topic) then false
  else if !partitionsOk c allow req matching then false
  else dataTagsOk c allow req

def Rule.hit (rule : Rule) (req : AccessRequest) (matching : PartitionMatching) : Bool :=
  rule.domains.matches req.domain &&
    (rule.criteria req.action).any fun c => criteriaMatch c rule.allow req matching

def decideRules (default_deny : Bool) (req : AccessRequest) (matching : PartitionMatching) :
    List Rule → Decision
  | [] => .default (!default_deny)
  | rule :: rules =>
    if rule.hit req matching then (if rule.allow then .allow else .deny)
    else decideRules default_deny req matching rules

def Grant.decide (g : Grant) (req : AccessRequest) (matching : PartitionMatching) : Decision :=
  decideRules g.default_deny req matching g.rules

def Criteria.everyPartition : Bool :=
  match c.partitions with
  | none => true
  | some set => set.any fun p => p == "*"

/-- The criteria of one rule for a topic without partitions and tags: any allow decides, and a
deny only on every partition and for every tag. -/
def topicCriteria (allow : Bool) (topic : String) : List Criteria → Option Bool
  | [] => none
  | c :: cs =>
    if !(c.topics.any fun t => topicMatch t topic) then topicCriteria allow topic cs
    else if allow then some true
    else if c.everyPartition && c.data_tags.isNone then some false
    else topicCriteria allow topic cs

def topicRules (default_deny : Bool) (action : Action) (domain : Domain) (topic : String) :
    List Rule → Bool
  | [] => !default_deny
  | rule :: rules =>
    if !rule.domains.matches domain then topicRules default_deny action domain topic rules
    else
      match topicCriteria rule.allow topic (rule.criteria action) with
      | some decided => decided
      | none => topicRules default_deny action domain topic rules

def Grant.topicAllowed (g : Grant) (action : Action) (domain : Domain) (topic : String) : Bool :=
  topicRules g.default_deny action domain topic g.rules

def Grant.allowsTopic (g : Grant) (domain : Domain) (topic : String) : Bool :=
  [Action.publish, .subscribe, .relay].any fun action => g.topicAllowed action domain topic

def Grant.isValidAt (g : Grant) (now : UInt64) : Bool := g.validity.contains now

section Decision

variable {req req' : AccessRequest} {matching : PartitionMatching} {rule : Rule}

theorem criteriaMatch_iff {c : Criteria} {allow : Bool} :
    criteriaMatch c allow req matching = true ↔
      (c.topics.any fun t => topicMatch t req.topic) = true ∧
        partitionsOk c allow req matching = true ∧ dataTagsOk c allow req = true := by
  unfold criteriaMatch
  cases (c.topics.any fun t => topicMatch t req.topic) <;>
    cases partitionsOk c allow req matching <;> simp

theorem Rule.hit_iff :
    rule.hit req matching = true ↔
      rule.domains.matches req.domain = true ∧
        ∃ c ∈ rule.criteria req.action, criteriaMatch c rule.allow req matching = true := by
  unfold Rule.hit
  rw [Bool.and_eq_true, List.any_eq_true]

def Rule.Favours (rule : Rule) (req req' : AccessRequest) (matching : PartitionMatching) : Prop :=
  if rule.allow then rule.hit req matching = true → rule.hit req' matching = true
  else rule.hit req' matching = true → rule.hit req matching = true

theorem decideRules_mono {default_deny : Bool} {rules : List Rule}
    (hfavours : ∀ rule ∈ rules, rule.Favours req req' matching)
    (hallowed : (decideRules default_deny req matching rules).allowed = true) :
    (decideRules default_deny req' matching rules).allowed = true := by
  induction rules with
  | nil => exact hallowed
  | cons rule rules ih =>
    have hrule := hfavours rule (List.mem_cons_self ..)
    have hrest := ih fun r hr => hfavours r (List.mem_cons_of_mem _ hr)
    unfold Rule.Favours at hrule
    unfold decideRules at hallowed ⊢
    cases hallow : rule.allow with
    | true =>
      rw [hallow, if_pos rfl] at hrule
      by_cases hhit : rule.hit req matching = true
      · rw [if_pos (hrule hhit)]
        rfl
      · rw [if_neg hhit] at hallowed
        split
        · rfl
        · exact hrest hallowed
    | false =>
      rw [hallow, if_neg Bool.false_ne_true] at hrule
      by_cases hhit : rule.hit req matching = true
      · rw [if_pos hhit, hallow] at hallowed
        cases hallowed
      · rw [if_neg hhit] at hallowed
        rw [if_neg fun h => hhit (hrule h)]
        exact hrest hallowed

end Decision

structure Permissions where
  grants : List Grant
deriving Repr, DecidableEq

/-- A rule for a topic class; its protection kinds play no part in the access decisions. -/
structure TopicRule where
  topic_expression : String := "*"
  enable_read_access_control : Bool := false
  enable_write_access_control : Bool := false
deriving Repr, DecidableEq

def TOPIC_LOG_TOPIC : String := "DDS:Security:LogTopic"

def TOPIC_LOG_TOPIC_V2 : String := "DDS:Security:LogTopicV2"

def builtinTopicRule (topic_name : String) : Option TopicRule :=
  if topic_name == TOPIC_LOG_TOPIC || topic_name == TOPIC_LOG_TOPIC_V2 then
    some {
      topic_expression := TOPIC_LOG_TOPIC
      enable_read_access_control := true
      enable_write_access_control := false }
  else none

structure DomainRule where
  domains : DomainFilter
  topic_rules : List TopicRule
deriving Repr, DecidableEq

structure Governance where
  domain_rules : List DomainRule
  partition_matching : PartitionMatching := .subset
deriving Repr, DecidableEq

inductive ReaderAccess where
  | allowed
  | relayOnly
  | denied
deriving Repr, DecidableEq

namespace Governance

variable (gov : Governance) (domain : Domain) (topic_name : String)

def findDomainRule : Option DomainRule :=
  gov.domain_rules.find? fun r => r.domains.matches domain

def findTopicRule : Option TopicRule := do
  let dr ← gov.findDomainRule domain
  dr.topic_rules.find? fun r => topicMatch r.topic_expression topic_name

def hasTopicRule : Bool :=
  (builtinTopicRule topic_name).isSome || (gov.findTopicRule domain topic_name).isSome

def effectiveTopicRule : TopicRule :=
  match builtinTopicRule topic_name with
  | some builtin => builtin
  | none => (gov.findTopicRule domain topic_name).getD {}

def writeAccessControlled : Bool :=
  (gov.effectiveTopicRule domain topic_name).enable_write_access_control

def readAccessControlled : Bool :=
  (gov.effectiveTopicRule domain topic_name).enable_read_access_control

def granted (permissions : Permissions) (req : AccessRequest) (now : UInt64) : Bool :=
  permissions.grants.any fun g =>
    g.isValidAt now && (g.decide req gov.partition_matching).allowed

def checkDatawriter (permissions : Permissions) (domain : Domain) (topic_name : String)
    (partitions : List String) (data_tags : List DataTag) (now : UInt64) : Bool :=
  if (gov.findDomainRule domain).isNone || !gov.hasTopicRule domain topic_name then false
  else if !gov.writeAccessControlled domain topic_name then true
  else
    gov.granted permissions
      { action := .publish, domain, topic := topic_name, partitions, data_tags } now

def checkDatareader (permissions : Permissions) (domain : Domain) (topic_name : String)
    (partitions : List String) (data_tags : List DataTag) (now : UInt64) : ReaderAccess :=
  if (gov.findDomainRule domain).isNone || !gov.hasTopicRule domain topic_name then .denied
  else if !gov.readAccessControlled domain topic_name then .allowed
  else
    let req : AccessRequest :=
      { action := .subscribe, domain, topic := topic_name, partitions, data_tags }
    if gov.granted permissions req now then .allowed
    else if gov.granted permissions { req with action := .relay } now then .relayOnly
    else .denied

end Governance

end ZeroDds.Security
