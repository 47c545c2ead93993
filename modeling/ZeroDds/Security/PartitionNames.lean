/-
What a partition name of an entity may reach.
-/
import ZeroDds.Qos.Partition
import ZeroDds.Security.Permissions

namespace ZeroDds.Security

open Qos (hasWildcard partitionNamesMatch)

/-- The criteria do not tell `p` from `w` against `p`: an allowed set that holds `w` holds `p`,
and a denied set that holds `p` holds `w`. -/
def Criteria.KeepsPartition (c : Criteria) (allow : Bool) (w p : String) : Prop :=
  ∀ set, c.partitions = some set →
    if allow then
      (set.any fun e => topicMatch e w) = true → (set.any fun e => topicMatch e p) = true
    else
      (set.any fun e => topicMatch e p) = true → (set.any fun e => topicMatch e w) = true

/-- Every rule of a valid grant for the action, the domain and the topic keeps `p` with `w`. -/
def KeepsPartition (permissions : Permissions) (action : Action) (domain : Domain)
    (topic : String) (now : UInt64) (w p : String) : Prop :=
  ∀ g ∈ permissions.grants, g.isValidAt now = true →
    ∀ rule ∈ g.rules, rule.domains.matches domain = true →
      ∀ c ∈ rule.criteria action, (c.topics.any fun t => topicMatch t topic) = true →
        c.KeepsPartition rule.allow w p

theorem Criteria.keepsPartition_self (c : Criteria) (allow : Bool) (w : String) :
    c.KeepsPartition allow w w := by
  intro set hset
  split <;> exact id

theorem keepsPartition_self (permissions : Permissions) (action : Action) (domain : Domain)
    (topic : String) (now : UInt64) (w : String) :
    KeepsPartition permissions action domain topic now w w := by
  intro g hg hvalid rule hrule hdomain c hc htopic
  exact c.keepsPartition_self rule.allow w

theorem hasWildcard_empty : hasWildcard "" = false := by decide +kernel

def AccessRequest.onPartition (req : AccessRequest) (p : String) : AccessRequest :=
  { req with partitions := [p] }

theorem AccessRequest.asked_onPartition (req : AccessRequest) (p : String) :
    (req.onPartition p).asked = [p] := by
  rfl

theorem AccessRequest.mem_asked {req : AccessRequest} {w : String} (hw : w ∈ req.partitions) :
    w ∈ req.asked := by
  have hne : req.partitions.isEmpty = false := by
    cases hps : req.partitions with
    | nil => rw [hps] at hw; cases hw
    | cons a rest => rfl
  unfold AccessRequest.asked
  rw [hne]
  exact hw

section Paired

variable {req : AccessRequest} {w p : String}

theorem partitionsOk_allow {c : Criteria} (hw : w ∈ req.partitions)
    (hlit : hasWildcard p = false) (hpair : partitionNamesMatch w p = true)
    (hkeep : c.KeepsPartition true w p) (hok : partitionsOk c true req .subset = true) :
    partitionsOk c true (req.onPartition p) .subset = true := by
  have hall : req.asked.all c.inSet = true := hok
  have hin : c.inSet w = true := List.all_eq_true.mp hall w (AccessRequest.mem_asked hw)
  have hp : c.inSet p = true := by
    unfold Criteria.inSet at hin ⊢
    cases hset : c.partitions with
    | none =>
      -- Without the element only the empty name is in the set, and it is a literal.
      simp only [hset, beq_iff_eq] at hin ⊢
      subst hin
      exact ((Qos.partitionNamesMatch_literals hasWildcard_empty hlit).mp hpair).symm
    | some set =>
      simp only [hset] at hin ⊢
      exact hkeep set hset hin
  show (req.onPartition p).asked.all c.inSet = true
  rw [AccessRequest.asked_onPartition]
  simp [hp]

theorem partitionsOk_deny {c : Criteria} (hw : w ∈ req.partitions)
    (hkeep : c.KeepsPartition false w p)
    (hok : partitionsOk c false (req.onPartition p) .subset = true) :
    partitionsOk c false req .subset = true := by
  unfold partitionsOk at hok ⊢
  cases hset : c.partitions with
  | none => simp
  | some set =>
    simp only [hset, AccessRequest.asked_onPartition, Bool.false_eq_true, if_false,
      List.any_cons, List.any_nil, Bool.or_false] at hok ⊢
    have hwset : (set.any fun e => topicMatch e w) = true := hkeep set hset hok
    exact List.any_eq_true.mpr ⟨w, AccessRequest.mem_asked hw, hwset⟩

variable {rule : Rule}

def Rule.Keeps (rule : Rule) (req : AccessRequest) (w p : String) : Prop :=
  rule.domains.matches req.domain = true →
    ∀ c ∈ rule.criteria req.action, (c.topics.any fun t => topicMatch t req.topic) = true →
      c.KeepsPartition rule.allow w p

/-- A rule that hits one of two requests that differ in their partitions hits the other where
its criteria keep the partitions. -/
theorem Rule.hit_of_partitions {asked other : List String}
    (hok : rule.domains.matches req.domain = true → ∀ c ∈ rule.criteria req.action,
      (c.topics.any fun t => topicMatch t req.topic) = true →
        partitionsOk c rule.allow { req with partitions := asked } .subset = true →
        partitionsOk c rule.allow { req with partitions := other } .subset = true)
    (hhit : rule.hit { req with partitions := asked } .subset = true) :
    rule.hit { req with partitions := other } .subset = true := by
  obtain ⟨hdomain, c, hc, hmatch⟩ := Rule.hit_iff.mp hhit
  obtain ⟨htopic, hpartitions, htags⟩ := criteriaMatch_iff.mp hmatch
  exact Rule.hit_iff.mpr ⟨hdomain, c, hc,
    criteriaMatch_iff.mpr ⟨htopic, hok hdomain c hc htopic hpartitions, htags⟩⟩

theorem decideRules_onPartition {default_deny : Bool} {rules : List Rule}
    (hw : w ∈ req.partitions) (hlit : hasWildcard p = false)
    (hpair : partitionNamesMatch w p = true) (hkeep : ∀ rule ∈ rules, rule.Keeps req w p)
    (hallowed : (decideRules default_deny req .subset rules).allowed = true) :
    (decideRules default_deny (req.onPartition p) .subset rules).allowed = true := by
  refine decideRules_mono (fun rule hrule => ?_) hallowed
  have hkept := hkeep rule hrule
  unfold Rule.Favours
  split
  · next hallow =>
    refine Rule.hit_of_partitions fun hdomain c hc htopic hok => ?_
    have hck := hkept hdomain c hc htopic
    rw [hallow] at hck hok ⊢
    exact partitionsOk_allow hw hlit hpair hck hok
  · next hdeny =>
    refine Rule.hit_of_partitions fun hdomain c hc htopic hok => ?_
    have hck := hkept hdomain c hc htopic
    rw [Bool.not_eq_true] at hdeny
    rw [hdeny] at hck hok ⊢
    exact partitionsOk_deny hw hck hok

end Paired

namespace Governance

variable {gov : Governance} {permissions : Permissions} {now : UInt64} {w p : String}

theorem granted_onPartition {req : AccessRequest} (hsubset : gov.partition_matching = .subset)
    (hw : w ∈ req.partitions) (hlit : hasWildcard p = false)
    (hpair : partitionNamesMatch w p = true)
    (hkeep : KeepsPartition permissions req.action req.domain req.topic now w p)
    (hgranted : gov.granted permissions req now = true) :
    gov.granted permissions (req.onPartition p) now = true := by
  unfold granted at hgranted ⊢
  rw [hsubset] at hgranted ⊢
  obtain ⟨g, hg, hboth⟩ := List.any_eq_true.mp hgranted
  rw [Bool.and_eq_true] at hboth
  obtain ⟨hvalid, hallowed⟩ := hboth
  have hrules : ∀ rule ∈ g.rules, rule.Keeps req w p := hkeep g hg hvalid
  have hdecide := decideRules_onPartition hw hlit hpair hrules hallowed
  refine List.any_eq_true.mpr ⟨g, hg, ?_⟩
  rw [Bool.and_eq_true]
  exact ⟨hvalid, hdecide⟩

def Covers (gov : Governance) (domain : Domain) (topic : String) : Prop :=
  (gov.findDomainRule domain).isNone = false ∧ gov.hasTopicRule domain topic = true

theorem covers_iff {domain : Domain} {topic : String} :
    ¬ ((gov.findDomainRule domain).isNone || !gov.hasTopicRule domain topic) = true ↔
      gov.Covers domain topic := by
  unfold Covers
  cases (gov.findDomainRule domain).isNone <;> simp

variable {domain : Domain} {topic : String} {tags : List DataTag} {ws : List String}

def request (action : Action) (domain : Domain) (topic : String) (ws : List String)
    (tags : List DataTag) : AccessRequest :=
  { action, domain, topic, partitions := ws, data_tags := tags }

theorem checkDatawriter_iff :
    gov.checkDatawriter permissions domain topic ws tags now = true ↔
      gov.Covers domain topic ∧ (gov.writeAccessControlled domain topic = false ∨
        gov.granted permissions (request .publish domain topic ws tags) now = true) := by
  rw [← covers_iff]
  unfold checkDatawriter
  split
  · next hcovers => simp [hcovers]
  · next hcovers =>
    cases hcontrolled : gov.writeAccessControlled domain topic <;> simp [hcovers, request]

theorem checkDatareader_allowed_iff :
    gov.checkDatareader permissions domain topic ws tags now = .allowed ↔
      gov.Covers domain topic ∧ (gov.readAccessControlled domain topic = false ∨
        gov.granted permissions (request .subscribe domain topic ws tags) now = true) := by
  rw [← covers_iff]
  unfold checkDatareader
  split
  · next hcovers => simp [hcovers]
  · next hcovers =>
    cases hcontrolled : gov.readAccessControlled domain topic
    · simp [hcovers]
    · simp only [Bool.not_true, Bool.false_eq_true, if_false, hcovers, not_false_eq_true,
        true_and, Bool.true_eq_false, false_or, request]
      split
      · next hgranted => simp [hgranted]
      · next hgranted => split <;> simp [hgranted]

theorem checkDatareader_not_denied_iff :
    gov.checkDatareader permissions domain topic ws tags now ≠ .denied ↔
      gov.Covers domain topic ∧ (gov.readAccessControlled domain topic = false ∨
        gov.granted permissions (request .subscribe domain topic ws tags) now = true ∨
        gov.granted permissions (request .relay domain topic ws tags) now = true) := by
  rw [← covers_iff]
  unfold checkDatareader
  split
  · next hcovers => simp [hcovers]
  · next hcovers =>
    cases hcontrolled : gov.readAccessControlled domain topic
    · simp [hcovers]
    · simp only [Bool.not_true, Bool.false_eq_true, if_false, hcovers, not_false_eq_true,
        true_and, Bool.true_eq_false, false_or, request]
      split
      · next hgranted => simp [hgranted]
      · next hgranted => split <;> simp_all

section Checks

variable (hsubset : gov.partition_matching = .subset) (hw : w ∈ ws)
  (hlit : hasWildcard p = false) (hpair : partitionNamesMatch w p = true)

include hsubset hw hlit hpair

theorem granted_request (action : Action)
    (hkeep : KeepsPartition permissions action domain topic now w p)
    (hgranted : gov.granted permissions (request action domain topic ws tags) now = true) :
    gov.granted permissions (request action domain topic [p] tags) now = true := by
  have hin : w ∈ (request action domain topic ws tags).partitions := hw
  exact granted_onPartition hsubset hin hlit hpair hkeep hgranted

theorem checkDatawriter_onPartition
    (hkeep : KeepsPartition permissions .publish domain topic now w p)
    (hallowed : gov.checkDatawriter permissions domain topic ws tags now = true) :
    gov.checkDatawriter permissions domain topic [p] tags now = true := by
  rw [checkDatawriter_iff] at hallowed ⊢
  obtain ⟨hcovers, hopen | hgranted⟩ := hallowed
  · exact ⟨hcovers, .inl hopen⟩
  · exact ⟨hcovers, .inr (granted_request hsubset hw hlit hpair .publish hkeep hgranted)⟩

theorem checkDatareader_onPartition
    (hkeep : KeepsPartition permissions .subscribe domain topic now w p)
    (hallowed : gov.checkDatareader permissions domain topic ws tags now = .allowed) :
    gov.checkDatareader permissions domain topic [p] tags now = .allowed := by
  rw [checkDatareader_allowed_iff] at hallowed ⊢
  obtain ⟨hcovers, hopen | hgranted⟩ := hallowed
  · exact ⟨hcovers, .inl hopen⟩
  · exact ⟨hcovers, .inr (granted_request hsubset hw hlit hpair .subscribe hkeep hgranted)⟩

theorem checkDatareader_not_denied
    (hsubscribe : KeepsPartition permissions .subscribe domain topic now w p)
    (hrelay : KeepsPartition permissions .relay domain topic now w p)
    (hallowed : gov.checkDatareader permissions domain topic ws tags now ≠ .denied) :
    gov.checkDatareader permissions domain topic [p] tags now ≠ .denied := by
  rw [checkDatareader_not_denied_iff] at hallowed ⊢
  obtain ⟨hcovers, hopen | hgranted | hgranted⟩ := hallowed
  · exact ⟨hcovers, .inl hopen⟩
  · have hp := granted_request hsubset hw hlit hpair .subscribe hsubscribe hgranted
    exact ⟨hcovers, .inr (.inl hp)⟩
  · have hp := granted_request hsubset hw hlit hpair .relay hrelay hgranted
    exact ⟨hcovers, .inr (.inr hp)⟩

end Checks

/-- Under subset matching an entity that may use its partition names may use every partition one
of them is paired with, as far as the rules keep the two together. -/
theorem paired_partition_allowed (gov : Governance) (permissions : Permissions) (domain : Domain)
    (topic : String) (tags : List DataTag) (now : UInt64) (ws : List String) (w p : String)
    (hsubset : gov.partition_matching = .subset) (hw : w ∈ ws) (hlit : hasWildcard p = false)
    (hpair : partitionNamesMatch w p = true) :
    (KeepsPartition permissions .publish domain topic now w p →
      gov.checkDatawriter permissions domain topic ws tags now = true →
      gov.checkDatawriter permissions domain topic [p] tags now = true) ∧
    (KeepsPartition permissions .subscribe domain topic now w p →
      gov.checkDatareader permissions domain topic ws tags now = .allowed →
      gov.checkDatareader permissions domain topic [p] tags now = .allowed) ∧
    (KeepsPartition permissions .subscribe domain topic now w p →
      KeepsPartition permissions .relay domain topic now w p →
      gov.checkDatareader permissions domain topic ws tags now ≠ .denied →
      gov.checkDatareader permissions domain topic [p] tags now ≠ .denied) ∧
    (hasWildcard w = false →
      (gov.checkDatawriter permissions domain topic ws tags now = true →
        gov.checkDatawriter permissions domain topic [p] tags now = true) ∧
      (gov.checkDatareader permissions domain topic ws tags now = .allowed →
        gov.checkDatareader permissions domain topic [p] tags now = .allowed)) := by
  refine ⟨?_, ?_, ?_, ?_⟩
  · intro hkeep hallowed
    exact checkDatawriter_onPartition hsubset hw hlit hpair hkeep hallowed
  · intro hkeep hallowed
    exact checkDatareader_onPartition hsubset hw hlit hpair hkeep hallowed
  · intro hsubscribe hrelay hallowed
    exact checkDatareader_not_denied hsubset hw hlit hpair hsubscribe hrelay hallowed
  · intro hwlit
    have heq : w = p := (Qos.partitionNamesMatch_literals hwlit hlit).mp hpair
    subst heq
    refine ⟨fun hallowed => ?_, fun hallowed => ?_⟩
    · exact checkDatawriter_onPartition hsubset hw hlit hpair
        (keepsPartition_self permissions .publish domain topic now w) hallowed
    · exact checkDatareader_onPartition hsubset hw hlit hpair
        (keepsPartition_self permissions .subscribe domain topic now w) hallowed

def locked : Governance :=
  { domain_rules :=
      [{ domains := { ranges := [(0, 0)] }
         topic_rules :=
          [{ enable_read_access_control := true, enable_write_access_control := true }] }] }

/-- One grant that allows the partitions `allowed` after it has denied those of `denied`. -/
def partitioned (denied allowed : List String) : Permissions :=
  let criteria (set : List String) : List Criteria :=
    [{ topics := ["Square"], partitions := some set }]
  { grants :=
      [{ name := "shapes"
         subject := .name "CN=alice"
         validity := ⟨0, 100⟩
         rules :=
          [{ allow := false, domains := { ranges := [(0, 0)] }
             publish := criteria denied, subscribe := criteria denied },
           { allow := true, domains := { ranges := [(0, 0)] }
             publish := criteria allowed, subscribe := criteria allowed }]
         default_deny := true }] }

theorem keepsPartition_partitioned {denied allowed : List String} {action : Action}
    (hdenied : (denied.any fun e => topicMatch e p) = false)
    (hallowed : (allowed.any fun e => topicMatch e p) = true) :
    KeepsPartition (partitioned denied allowed) action domain topic now w p := by
  intro g hg hvalid rule hrule hdomain c hc htopic set hset
  simp only [partitioned, List.mem_singleton] at hg
  subst hg
  simp only [List.mem_cons, List.not_mem_nil, or_false] at hrule
  obtain rfl | rfl := hrule
  · cases action <;> simp [Rule.criteria] at hc
    all_goals
      subst hc
      simp only [Option.some.injEq] at hset
      subst hset
      simp [hdenied]
  · cases action <;> simp [Rule.criteria] at hc
    all_goals
      subst hc
      simp only [Option.some.injEq] at hset
      subst hset
      simp [hallowed]

/-- A name the rules keep with its partition: `s*` and `secret` where `s*` is granted. -/
theorem paired_partition_allowed_for_pattern :
    locked.checkDatawriter (partitioned ["admin"] ["s*"]) ⟨0, ""⟩ "Square" ["s*"] [] 5 = true ∧
      locked.checkDatawriter (partitioned ["admin"] ["s*"]) ⟨0, ""⟩ "Square" ["secret"] [] 5 =
        true := by
  have hws : locked.checkDatawriter (partitioned ["admin"] ["s*"]) ⟨0, ""⟩ "Square" ["s*"] [] 5 =
      true := by
    decide +kernel
  have hkeep : KeepsPartition (partitioned ["admin"] ["s*"]) .publish ⟨0, ""⟩ "Square" 5 "s*"
      "secret" :=
    keepsPartition_partitioned (by decide +kernel) (by decide +kernel)
  exact ⟨hws, (paired_partition_allowed locked (partitioned ["admin"] ["s*"]) ⟨0, ""⟩ "Square" [] 5
    ["s*"] "s*" "secret" rfl (List.mem_singleton.mpr rfl) (by decide +kernel)
    (by decide +kernel)).1 hkeep hws⟩

/-- A pattern is granted where a partition it is paired with is denied by name: `secret` is
denied, and the text `s*` is not `secret`. -/
theorem pattern_reaches_denied_partition :
    locked.partition_matching = .subset ∧ hasWildcard "secret" = false ∧
      partitionNamesMatch "s*" "secret" = true ∧
      locked.checkDatawriter (partitioned ["secret"] ["*"]) ⟨0, ""⟩ "Square" ["s*"] [] 5 = true ∧
      locked.checkDatawriter (partitioned ["secret"] ["*"]) ⟨0, ""⟩ "Square" ["secret"] [] 5 =
        false ∧
      locked.checkDatareader (partitioned ["secret"] ["*"]) ⟨0, ""⟩ "Square" ["s*"] [] 5 =
        .allowed ∧
      locked.checkDatareader (partitioned ["secret"] ["*"]) ⟨0, ""⟩ "Square" ["secret"] [] 5 =
        .denied := by
  decide +kernel

end Governance

end ZeroDds.Security
