/-
The checks of the access control plugin.

An endpoint is asked about with its partitions and its data tags, a topic with neither.
-/
import ZeroDds.Security.PartitionNames
import ZeroDds.Security.TopicLanguage

namespace ZeroDds.Security

/-- What the plugin decides by: the governance document, where there is one, and the clock. -/
structure AccessControl where
  governance : Option Governance
  now : UInt64
deriving Repr, DecidableEq

structure EndpointRequest where
  domain : Domain
  topic_name : String
  partitions : List String
  data_tags : List DataTag
deriving Repr, DecidableEq

def EndpointRequest.access (request : EndpointRequest) (action : Action) : AccessRequest :=
  { action
    domain := request.domain
    topic := request.topic_name
    partitions := request.partitions
    data_tags := request.data_tags }

namespace AccessControl

variable (ac : AccessControl) (permissions : Permissions)

def ask (request : EndpointRequest) (action : Action) : Bool :=
  permissions.grants.any fun g =>
    g.isValidAt ac.now && (g.decide (request.access action) .subset).allowed

def endpointAccess (action : Action) (request : EndpointRequest) : ReaderAccess :=
  match ac.governance with
  | some governance =>
    if action = .publish then
      if governance.checkDatawriter permissions request.domain request.topic_name
          request.partitions request.data_tags ac.now then .allowed
      else .denied
    else
      governance.checkDatareader permissions request.domain request.topic_name
        request.partitions request.data_tags ac.now
  | none =>
    if ac.ask permissions request action then .allowed
    else if action = .subscribe ∧ ac.ask permissions request .relay then .relayOnly
    else .denied

def openTopic (action : Action) (domain : Domain) (topic : String) : Bool :=
  ac.governance.any fun governance =>
    governance.hasTopicRule domain topic &&
      if action = .publish then !governance.writeAccessControlled domain topic
      else !governance.readAccessControlled domain topic

def topicHasRule (domain : Domain) (topic : String) : Bool :=
  match ac.governance with
  | none => true
  | some governance => governance.hasTopicRule domain topic

def topicAccess (domain : Domain) (topic_name : String) : Bool :=
  permissions.grants.any fun g => g.isValidAt ac.now && g.allowsTopic domain topic_name

def checkCreateTopic (domain : Domain) (topic_name : String) : Bool :=
  if !ac.topicHasRule domain topic_name then false
  else if ac.openTopic .publish domain topic_name || ac.openTopic .subscribe domain topic_name then
    true
  else ac.topicAccess permissions domain topic_name

end AccessControl

/-! ### Asking for less -/

section Less

variable {req : AccessRequest} {ps : List String} {tags : List DataTag}

def AccessRequest.with (req : AccessRequest) (ps : List String) (tags : List DataTag) :
    AccessRequest :=
  { req with partitions := ps, data_tags := tags }

theorem AccessRequest.asked_of_ne_nil (h : req.partitions ≠ []) : req.asked = req.partitions := by
  unfold AccessRequest.asked
  rw [if_neg]
  rwa [List.isEmpty_iff]

variable (hne : ps ≠ []) (hps : ps ⊆ req.partitions) (htags : tags ⊆ req.data_tags)

include hne hps

theorem AccessRequest.asked_with_subset : (req.with ps tags).asked ⊆ req.asked := by
  intro w hw
  have hasked : (req.with ps tags).asked = ps := AccessRequest.asked_of_ne_nil hne
  rw [hasked] at hw
  exact AccessRequest.mem_asked (hps hw)

include htags

theorem criteriaMatch_allow_with {c : Criteria} (h : criteriaMatch c true req .subset = true) :
    criteriaMatch c true (req.with ps tags) .subset = true := by
  obtain ⟨htopic, hpartitions, hdata⟩ := criteriaMatch_iff.mp h
  refine criteriaMatch_iff.mpr ⟨htopic, ?_, ?_⟩
  · have hall : req.asked.all c.inSet = true := hpartitions
    show (req.with ps tags).asked.all c.inSet = true
    rw [List.all_eq_true] at hall ⊢
    intro w hw
    exact hall w (AccessRequest.asked_with_subset hne hps hw)
  · have hall : (req.data_tags.all fun t => (c.data_tags.getD []).contains t) = true := hdata
    show (tags.all fun t => (c.data_tags.getD []).contains t) = true
    rw [List.all_eq_true] at hall ⊢
    intro t ht
    exact hall t (htags ht)

theorem criteriaMatch_deny_with {c : Criteria}
    (h : criteriaMatch c false (req.with ps tags) .subset = true) :
    criteriaMatch c false req .subset = true := by
  obtain ⟨htopic, hpartitions, hdata⟩ := criteriaMatch_iff.mp h
  refine criteriaMatch_iff.mpr ⟨htopic, ?_, ?_⟩
  · unfold partitionsOk at hpartitions ⊢
    rw [if_neg Bool.false_ne_true] at hpartitions ⊢
    cases hset : c.partitions with
    | none => rfl
    | some set =>
      simp only [hset, List.any_eq_true] at hpartitions ⊢
      obtain ⟨w, hw, hin⟩ := hpartitions
      exact ⟨w, AccessRequest.asked_with_subset hne hps hw, hin⟩
  · unfold dataTagsOk at hdata ⊢
    rw [if_neg Bool.false_ne_true] at hdata ⊢
    cases hset : c.data_tags with
    | none => rfl
    | some set =>
      simp only [hset, List.any_eq_true] at hdata ⊢
      obtain ⟨t, ht, hin⟩ := hdata
      exact ⟨t, htags ht, hin⟩

theorem Rule.favours_with (rule : Rule) : rule.Favours req (req.with ps tags) .subset := by
  unfold Rule.Favours
  split
  · next hallow =>
    intro hhit
    obtain ⟨hdomain, c, hc, hmatch⟩ := Rule.hit_iff.mp hhit
    rw [hallow] at hmatch
    refine Rule.hit_iff.mpr ⟨hdomain, c, hc, ?_⟩
    rw [hallow]
    exact criteriaMatch_allow_with hne hps htags hmatch
  · next hdeny =>
    rw [Bool.not_eq_true] at hdeny
    intro hhit
    obtain ⟨hdomain, c, hc, hmatch⟩ := Rule.hit_iff.mp hhit
    rw [hdeny] at hmatch
    refine Rule.hit_iff.mpr ⟨hdomain, c, hc, ?_⟩
    rw [hdeny]
    exact criteriaMatch_deny_with hne hps htags hmatch

end Less

/-- Asking for less is not denied: fewer partitions, as long as there are some, and fewer tags. -/
theorem Grant.decide_mono (g : Grant) (req : AccessRequest) (ps : List String)
    (tags : List DataTag) (hne : ps ≠ []) (hps : ps ⊆ req.partitions)
    (htags : tags ⊆ req.data_tags) (hallowed : (g.decide req .subset).allowed = true) :
    (g.decide { req with partitions := ps, data_tags := tags } .subset).allowed = true :=
  decideRules_mono (fun rule _ => rule.favours_with hne hps htags) hallowed

namespace Governance

/-- A request for two granted partitions, and the one for the second of them alone. -/
theorem decide_mono_one_of_two :
    ((partitioned ["admin"] ["s*", "t"]).grants.all fun g =>
        (g.decide (request .publish ⟨0, ""⟩ "Square" ["s1", "t"] []) .subset).allowed) = true ∧
      ∀ g ∈ (partitioned ["admin"] ["s*", "t"]).grants,
        (g.decide (request .publish ⟨0, ""⟩ "Square" ["t"] []) .subset).allowed = true := by
  have hall : ((partitioned ["admin"] ["s*", "t"]).grants.all fun g =>
      (g.decide (request .publish ⟨0, ""⟩ "Square" ["s1", "t"] []) .subset).allowed) = true := by
    decide +kernel
  refine ⟨hall, fun g hg => ?_⟩
  exact g.decide_mono (request .publish ⟨0, ""⟩ "Square" ["s1", "t"] []) ["t"] []
    (by decide) (by decide) (by decide) (List.all_eq_true.mp hall g hg)

end Governance

section Topics

variable {req : AccessRequest} {matching : PartitionMatching} {cs : List Criteria} {topic : String}

theorem topicCriteria_eq_false {allow : Bool} (h : topicCriteria allow topic cs = some false) :
    allow = false ∧ ∃ c ∈ cs, (c.topics.any fun t => topicMatch t topic) = true ∧
      c.everyPartition = true ∧ c.data_tags = none := by
  induction cs with
  | nil => cases h
  | cons c cs ih =>
    unfold topicCriteria at h
    split at h
    · obtain ⟨hdeny, c', hc', hmatch⟩ := ih h
      exact ⟨hdeny, c', List.mem_cons_of_mem _ hc', hmatch⟩
    · next htopic =>
      split at h
      · cases h
      · next hdeny =>
        rw [Bool.not_eq_true] at hdeny
        split at h
        · next hevery =>
          rw [Bool.and_eq_true, Option.isNone_iff_eq_none] at hevery
          refine ⟨hdeny, c, List.mem_cons_self .., ?_, hevery⟩
          simpa using htopic
        · obtain ⟨-, c', hc', hmatch⟩ := ih h
          exact ⟨hdeny, c', List.mem_cons_of_mem _ hc', hmatch⟩

theorem topicCriteria_eq_none (h : topicCriteria true topic cs = none) :
    ∀ c ∈ cs, (c.topics.any fun t => topicMatch t topic) = false := by
  induction cs with
  | nil =>
    intro c hc
    cases hc
  | cons c cs ih =>
    unfold topicCriteria at h
    split at h
    · next htopic =>
      intro c' hc'
      rcases List.mem_cons.mp hc' with rfl | hc'
      · simpa using htopic
      · exact ih h c' hc'
    · cases h

theorem AccessRequest.exists_asked (req : AccessRequest) : ∃ w, w ∈ req.asked := by
  unfold AccessRequest.asked
  split
  · exact ⟨"", List.mem_singleton.mpr rfl⟩
  · next hne =>
    rw [List.isEmpty_iff] at hne
    exact List.exists_mem_of_ne_nil _ hne

theorem criteriaMatch_of_every {c : Criteria}
    (htopic : (c.topics.any fun t => topicMatch t req.topic) = true)
    (hevery : c.everyPartition = true) (htags : c.data_tags = none) :
    criteriaMatch c false req matching = true := by
  refine criteriaMatch_iff.mpr ⟨htopic, ?_, ?_⟩
  · unfold partitionsOk
    rw [if_neg Bool.false_ne_true]
    unfold Criteria.everyPartition at hevery
    cases hset : c.partitions with
    | none => rfl
    | some set =>
      simp only [hset, List.any_eq_true, beq_iff_eq] at hevery ⊢
      obtain ⟨e, he, rfl⟩ := hevery
      obtain ⟨w, hw⟩ := req.exists_asked
      exact ⟨w, hw, "*", he, topicMatch_star w⟩
  · unfold dataTagsOk
    rw [if_neg Bool.false_ne_true, htags]

theorem topicRules_of_decideRules {default_deny : Bool} {rules : List Rule}
    (hallowed : (decideRules default_deny req matching rules).allowed = true) :
    topicRules default_deny req.action req.domain req.topic rules = true := by
  induction rules with
  | nil => exact hallowed
  | cons rule rules ih =>
    unfold decideRules at hallowed
    unfold topicRules
    cases hdomain : rule.domains.matches req.domain with
    | false =>
      have hhit : ¬ rule.hit req matching = true := by
        intro h
        rw [(Rule.hit_iff.mp h).1] at hdomain
        cases hdomain
      rw [if_neg hhit] at hallowed
      exact ih hallowed
    | true =>
      cases hcriteria : topicCriteria rule.allow req.topic (rule.criteria req.action) with
      | some decided =>
        cases decided with
        | true => rfl
        | false =>
          obtain ⟨hdeny, c, hc, htopic, hevery, htags⟩ := topicCriteria_eq_false hcriteria
          have hmatch : criteriaMatch c rule.allow req matching = true := by
            rw [hdeny]
            exact criteriaMatch_of_every htopic hevery htags
          rw [if_pos (Rule.hit_iff.mpr ⟨hdomain, c, hc, hmatch⟩), hdeny] at hallowed
          cases hallowed
      | none =>
        by_cases hhit : rule.hit req matching = true
        · rw [if_pos hhit] at hallowed
          cases hallow : rule.allow with
          | false =>
            rw [hallow] at hallowed
            cases hallowed
          | true =>
            rw [hallow] at hcriteria
            obtain ⟨-, c, hc, hmatch⟩ := Rule.hit_iff.mp hhit
            have htopic := (criteriaMatch_iff.mp hmatch).1
            rw [topicCriteria_eq_none hcriteria c hc] at htopic
            cases htopic
        · rw [if_neg hhit] at hallowed
          exact ih hallowed

theorem Grant.allowsTopic_of_decide {g : Grant}
    (hallowed : (g.decide req matching).allowed = true) :
    g.allowsTopic req.domain req.topic = true := by
  have htopic : g.topicAllowed req.action req.domain req.topic = true :=
    topicRules_of_decideRules hallowed
  unfold Grant.allowsTopic
  rw [List.any_eq_true]
  refine ⟨req.action, ?_, htopic⟩
  cases req.action <;> decide

end Topics

namespace AccessControl

variable {ac : AccessControl} {permissions : Permissions} {request : EndpointRequest}

theorem topicAccess_of_granted {req : AccessRequest} {matching : PartitionMatching}
    (h : (permissions.grants.any fun g =>
      g.isValidAt ac.now && (g.decide req matching).allowed) = true) :
    ac.topicAccess permissions req.domain req.topic = true := by
  rw [List.any_eq_true] at h
  obtain ⟨g, hg, hboth⟩ := h
  rw [Bool.and_eq_true] at hboth
  refine List.any_eq_true.mpr ⟨g, hg, ?_⟩
  rw [Bool.and_eq_true]
  exact ⟨hboth.1, Grant.allowsTopic_of_decide hboth.2⟩

theorem checkCreateTopic_of_topicAccess {domain : Domain} {topic : String}
    (hrule : ac.topicHasRule domain topic = true)
    (h : ac.openTopic .publish domain topic = true ∨ ac.openTopic .subscribe domain topic = true ∨
      ac.topicAccess permissions domain topic = true) :
    ac.checkCreateTopic permissions domain topic = true := by
  unfold checkCreateTopic
  rw [hrule]
  rcases h with h | h | h <;> simp [h]

theorem checkCreateTopic_governed {governance : Governance} (hgov : ac.governance = some governance)
    {action : Action} (h : ac.endpointAccess permissions action request ≠ .denied) :
    ac.checkCreateTopic permissions request.domain request.topic_name = true := by
  have hrule (hcovers : governance.Covers request.domain request.topic_name) :
      ac.topicHasRule request.domain request.topic_name = true := by
    unfold topicHasRule
    rw [hgov]
    exact hcovers.2
  unfold endpointAccess at h
  simp only [hgov] at h
  split at h
  · have hwriter : governance.checkDatawriter permissions request.domain request.topic_name
        request.partitions request.data_tags ac.now = true := by
      by_contra hdenied
      rw [if_neg hdenied] at h
      exact h rfl
    obtain ⟨hcovers, hopen | hgranted⟩ := Governance.checkDatawriter_iff.mp hwriter
    · refine checkCreateTopic_of_topicAccess (hrule hcovers) (.inl ?_)
      simp [openTopic, hgov, hcovers.2, hopen]
    · exact checkCreateTopic_of_topicAccess (hrule hcovers)
        (.inr (.inr (topicAccess_of_granted hgranted)))
  · obtain ⟨hcovers, hopen | hgranted | hgranted⟩ :=
      Governance.checkDatareader_not_denied_iff.mp h
    · refine checkCreateTopic_of_topicAccess (hrule hcovers) (.inr (.inl ?_))
      simp [openTopic, hgov, hcovers.2, hopen]
    · exact checkCreateTopic_of_topicAccess (hrule hcovers)
        (.inr (.inr (topicAccess_of_granted hgranted)))
    · exact checkCreateTopic_of_topicAccess (hrule hcovers)
        (.inr (.inr (topicAccess_of_granted hgranted)))

theorem checkCreateTopic_ungoverned (hgov : ac.governance = none) {action : Action}
    (h : ac.endpointAccess permissions action request ≠ .denied) :
    ac.checkCreateTopic permissions request.domain request.topic_name = true := by
  have hrule : ac.topicHasRule request.domain request.topic_name = true := by
    unfold topicHasRule
    rw [hgov]
  have hasked {a : Action} (ha : ac.ask permissions request a = true) :
      ac.checkCreateTopic permissions request.domain request.topic_name = true :=
    checkCreateTopic_of_topicAccess hrule (.inr (.inr (topicAccess_of_granted ha)))
  unfold endpointAccess at h
  simp only [hgov] at h
  split at h
  · next ha => exact hasked ha
  · split at h
    · next hrelay => exact hasked hrelay.2
    · exact absurd rfl h

/-- The topic check does not contradict the endpoint check: a grant that allows some action on a
topic, on whatever partitions and with whatever tags, allows the topic, and the creation of the
topic is not refused to a participant whose endpoint is not denied. -/
theorem permitted_endpoint_has_topic :
    (∀ (g : Grant) (req : AccessRequest) (matching : PartitionMatching),
      (g.decide req matching).allowed = true → g.allowsTopic req.domain req.topic = true) ∧
    ∀ (ac : AccessControl) (permissions : Permissions) (action : Action)
      (request : EndpointRequest),
      ac.endpointAccess permissions action request ≠ .denied →
        ac.checkCreateTopic permissions request.domain request.topic_name = true := by
  refine ⟨fun g req matching h => Grant.allowsTopic_of_decide h, ?_⟩
  intro ac permissions action request h
  cases hgov : ac.governance with
  | none => exact checkCreateTopic_ungoverned hgov h
  | some governance => exact checkCreateTopic_governed hgov h

/-- An entity on one granted partition of a topic that is denied on another. -/
theorem permitted_endpoint_has_topic_on_partition :
    (⟨some Governance.locked, 5⟩ : AccessControl).endpointAccess
        (Governance.partitioned ["admin"] ["s*"]) .publish ⟨⟨0, ""⟩, "Square", ["s1"], []⟩ ≠
      .denied ∧
    (⟨some Governance.locked, 5⟩ : AccessControl).checkCreateTopic
        (Governance.partitioned ["admin"] ["s*"]) ⟨0, ""⟩ "Square" = true := by
  have h : (⟨some Governance.locked, 5⟩ : AccessControl).endpointAccess
      (Governance.partitioned ["admin"] ["s*"]) .publish ⟨⟨0, ""⟩, "Square", ["s1"], []⟩ ≠
      .denied := by
    decide +kernel
  exact ⟨h, permitted_endpoint_has_topic.2 _ _ _ _ h⟩

end AccessControl

end ZeroDds.Security
