import Leitir.SuitabilitySpec
import Leitir.KeyedList
import Leitir.ExceptRun

namespace Leitir.Suitability

inductive GateStatus
  | pass | fail | unknown | error | notApplicable | skipped
deriving DecidableEq, Repr

def GateStatus.all : List GateStatus := [.pass, .fail, .unknown, .error, .notApplicable, .skipped]

def GateStatus.value : GateStatus → Text
  | .pass => "pass".toList
  | .fail => "fail".toList
  | .unknown => "unknown".toList
  | .error => "error".toList
  | .notApplicable => "not_applicable".toList
  | .skipped => "skipped".toList

inductive GateVerdictStatus
  | pass | reject | indeterminate
deriving DecidableEq, Repr

inductive GateKind
  | immutableProvenance | candidateContract | language | runtime | requiredBehavior | prohibitedBehavior | interfaceEffect
  | performance | license | dependency | platform | minimumEvidence
deriving DecidableEq, Repr

def GateKind.all : List GateKind :=
  [.immutableProvenance, .candidateContract, .language, .runtime, .requiredBehavior, .prohibitedBehavior, .interfaceEffect,
    .performance, .license, .dependency, .platform, .minimumEvidence]

def GateKind.value : GateKind → Text
  | .immutableProvenance => "immutable_provenance".toList
  | .candidateContract => "candidate_contract".toList
  | .language => "language".toList
  | .runtime => "runtime".toList
  | .requiredBehavior => "required_behavior".toList
  | .prohibitedBehavior => "prohibited_behavior".toList
  | .interfaceEffect => "interface_effect".toList
  | .performance => "performance".toList
  | .license => "license".toList
  | .dependency => "dependency".toList
  | .platform => "platform".toList
  | .minimumEvidence => "minimum_evidence".toList

inductive RejectReason
  | hardGateFailed | provenanceMismatch | duplicateResult | unsupportedConstruct | licenseIncompatible
deriving DecidableEq, Repr

structure Rejection where
  reason : RejectReason
  message : Text
  detailCode : Text
deriving DecidableEq

def textKey (text : Text) : List Nat := text.map Char.toNat

structure EvidencePointer where
  evidenceKind : Text
  collectorId : Text
  collectorVersion : Text
  evidenceDigest : Text
deriving DecidableEq

def EvidencePointer.key (item : EvidencePointer) : KeyedList.Key :=
  [textKey item.evidenceKind, textKey item.collectorId, textKey item.collectorVersion, textKey item.evidenceDigest]

structure SuitabilityGate where
  kind : GateKind
  ruleId : Text
  ruleVersion : Text
  defaultMode : ConstraintMode
  notApplicableWhenEmpty : Bool
deriving DecidableEq

/-- The gate of a kind in the pinned policy. -/
def pinnedGate (kind : GateKind) : SuitabilityGate where
  kind := kind
  ruleId := "suitability.".toList ++ kind.value
  ruleVersion := "v1".toList
  defaultMode := .required
  notApplicableWhenEmpty := kind ∈ [.prohibitedBehavior, .interfaceEffect, .performance, .dependency]

structure SuitabilityPolicy where
  policyId : Text
  policyVersion : Text
  gates : List SuitabilityGate
deriving DecidableEq

def pinnedSuitabilityPolicy : SuitabilityPolicy where
  policyId := "leitir-suitability".toList
  policyVersion := "v1".toList
  gates := KeyedList.sortBy (fun gate => [textKey gate.kind.value]) (GateKind.all.map pinnedGate)

/-- A candidate: its evidence, and the bytes of the rest of it under its digest. -/
structure CandidateProposal where
  extractionEvidence : List EvidencePointer
  contextEvidence : List EvidencePointer
  payload : Text
  proposalDigest : Text

structure RecipientProfile where
  payload : Text
  profileDigest : Text

structure ExpandedGate where
  template : SuitabilityGate
  gateId : Text
  mode : ConstraintMode
  applicable : List Text

def gateIdOf (kind : GateKind) (suffix : Text) : Text := if suffix = [] then kind.value else kind.value ++ '.' :: suffix

def expand (kind : GateKind) (suffix : Text) (applicable : List Text) : ExpandedGate where
  template := pinnedGate kind
  gateId := gateIdOf kind suffix
  mode := (pinnedGate kind).defaultMode
  applicable := applicable

def behaviorSuffix (item : BehaviorRequirement) : Text := item.behaviorId ++ '@' :: item.contractVersion

def requiredGate (item : BehaviorRequirement) : ExpandedGate :=
  expand .requiredBehavior (behaviorSuffix item) ["spec.required_behaviors".toList, "spec.behavior_registry".toList]

def prohibitedGate (item : BehaviorRequirement) : ExpandedGate :=
  expand .prohibitedBehavior (behaviorSuffix item) ["spec.prohibited_behaviors".toList, "spec.behavior_registry".toList]

def interfaceGate (item : InterfaceRequirement) : ExpandedGate :=
  { expand .interfaceEffect item.interfaceId ["spec.interfaces".toList] with mode := item.mode }

def performanceGate (item : PerformanceConstraint) : ExpandedGate :=
  { expand .performance item.metricId ["spec.performance_constraints".toList] with mode := item.mode }

def platformGate (platform : Text) : ExpandedGate := expand .platform platform ["spec.required_platforms".toList]

def gatesOrNone {α : Type} (clauses : List α) (gate : α → ExpandedGate) (kind : GateKind) (applicable : List Text) :
    List ExpandedGate :=
  if clauses = [] then [expand kind "none".toList applicable] else clauses.map gate

def expandedGates (spec : SpecFields) : List ExpandedGate :=
  KeyedList.sortBy (fun gate => [textKey gate.gateId])
    ([expand .immutableProvenance [] ["candidate.source_ref".toList],
      expand .candidateContract [] ["candidate.proposal_digest".toList, "spec.spec_digest".toList],
      expand .language spec.targetLanguage ["spec.target_language".toList],
      expand .runtime spec.targetRuntime ["spec.target_runtime".toList, "recipient.runtime_constraints".toList]] ++
    spec.requiredBehaviors.map requiredGate ++
    gatesOrNone spec.prohibitedBehaviors prohibitedGate .prohibitedBehavior ["spec.prohibited_behaviors".toList] ++
    gatesOrNone spec.interfaces interfaceGate .interfaceEffect ["spec.interfaces".toList] ++
    gatesOrNone spec.performanceConstraints performanceGate .performance ["spec.performance_constraints".toList] ++
    [expand .license [] ["spec.license_policy".toList],
      expand .dependency (if spec.prohibitedDependencies = [] then "none".toList else "policy".toList)
        ["spec.prohibited_dependencies".toList, "recipient.dependencies".toList]] ++
    spec.requiredPlatforms.map platformGate ++
    [expand .minimumEvidence [] ["candidate.extraction_evidence".toList]])

section

variable (digest : Text → Text)

def reject {α : Type} (reason : RejectReason) (message detailCode : String) : Except Rejection α :=
  .error ⟨reason, message.toList, detailCode.toList⟩

def rejectGate {α : Type} (message : String) (gateId : Text) : Except Rejection α :=
  .error ⟨.hardGateFailed, message.toList ++ gateId, "suitability_status_conversion_v1".toList⟩

def markerStart (gateId : Text) : Text := "gate-status/".toList ++ gateId ++ ['/']

/-- A status that an assessment has asserted for a gate. Passing is never asserted. -/
def statusMarker (gateId : Text) (evidence : List EvidencePointer) :
    Except Rejection (Option (GateStatus × List EvidencePointer)) :=
  match evidence.filter fun item => markerStart gateId <+: item.evidenceKind with
  | [] => .ok none
  | [marker] =>
    match GateStatus.all.find? fun status => status.value = marker.evidenceKind.drop (markerStart gateId).length with
    | none => rejectGate "unknown status for " gateId
    | some status =>
      if marker.collectorId ≠ "leitir.suitability_assessment".toList ∨ marker.collectorVersion ≠ "v1".toList ∨
          status = .pass ∨ status = .notApplicable then
        rejectGate "unauthorized status assertion for " gateId
      else .ok (some (status, [marker]))
  | _ => rejectGate "conflicting statuses for " gateId

def afterDot (text : Text) : Text := (text.dropWhile fun ch => ch ≠ '.').drop 1

def splitLastAt (text : Text) : Text × Text :=
  (((text.reverse.dropWhile fun ch => ch ≠ '@').drop 1).reverse, (text.reverse.takeWhile fun ch => ch ≠ '@').reverse)

def proofKind (contract : BehaviorContract) : Text :=
  "behavior-proof:".toList ++ contract.behaviorId ++ '@' :: contract.contractVersion ++ ':' :: contract.contentDigest

def absenceKind (contract : BehaviorContract) : Text :=
  "behavior-absence:".toList ++ contract.behaviorId ++ '@' :: contract.contractVersion ++ ':' :: contract.contentDigest

def Collected (contract : BehaviorContract) (kind : Text) (item : EvidencePointer) : Prop :=
  item.evidenceKind = kind ∧ item.collectorId = contract.collectorId ∧ item.collectorVersion = contract.collectorVersion

instance (contract : BehaviorContract) (kind : Text) (item : EvidencePointer) : Decidable (Collected contract kind item) :=
  inferInstanceAs (Decidable (_ ∧ _))

def sortEvidence (items : List EvidencePointer) : List EvidencePointer := KeyedList.sortBy EvidencePointer.key items

def CandidateProposal.allEvidence (candidate : CandidateProposal) : List EvidencePointer :=
  sortEvidence (candidate.extractionEvidence ++ candidate.contextEvidence)

def present (evidence : List EvidencePointer) : GateStatus × List EvidencePointer :=
  (if evidence = [] then .unknown else .pass, evidence)

def assessBehavior (kind : GateKind) (gateId : Text) (evidence : List EvidencePointer) (spec : SpecFields) :
    Except Rejection (GateStatus × List EvidencePointer) :=
  let (behaviorId, contractVersion) := splitLastAt (afterDot gateId)
  match resolve spec.behaviorRegistry behaviorId contractVersion with
  | none =>
    .error ⟨.unsupportedConstruct, "unregistered behavior contract: ".toList ++ behaviorId ++ '@' :: contractVersion,
      "behavior_contract_unsupported_v1".toList⟩
  | some contract =>
    let proofs := evidence.filter fun item => Collected contract (proofKind contract) item
    let absences := evidence.filter fun item => Collected contract (absenceKind contract) item
    .ok (if proofs ≠ [] ∧ absences ≠ [] then .error
      else if kind = .requiredBehavior then if proofs ≠ [] then .pass else .unknown
      else if proofs ≠ [] then .fail
      else if absences ≠ [] then .pass
      else .unknown, sortEvidence (proofs ++ absences))

def licensePrefix : Text := "license:".toList

def assessLicense (evidence : List EvidencePointer) (policy : LicensePolicy) : GateStatus × List EvidencePointer :=
  let items := evidence.filter fun item => licensePrefix <+: item.evidenceKind
  let expressions := items.map fun item => item.evidenceKind.drop licensePrefix.length
  (match expressions with
    | [] => .unknown
    | expression :: _ =>
      if expressions.any fun other => other ≠ expression then .error
      else if expression ∈ policy.prohibitedSpdxExpressions ∨ expression ∉ policy.allowedSpdxExpressions then .fail
      else .pass, items)

def assessDependency (evidence : List EvidencePointer) (prohibitedDependencies : List Text) :
    GateStatus × List EvidencePointer :=
  let closure := evidence.filter fun item => item.evidenceKind = "dependency-closure:complete".toList
  let prohibited := evidence.filter fun item =>
    item.evidenceKind ∈ prohibitedDependencies.map fun name => "dependency:".toList ++ name
  (if prohibited ≠ [] then .fail else if closure ≠ [] then .pass else .unknown, sortEvidence (closure ++ prohibited))

/-- What the evidence of a candidate says of a gate that has a clause. -/
def assess (kind : GateKind) (gateId : Text) (candidate : CandidateProposal) (spec : SpecFields) :
    Except Rejection (GateStatus × List EvidencePointer) :=
  let evidence := candidate.allEvidence
  match kind with
  | .immutableProvenance => .ok (.pass, candidate.extractionEvidence)
  | .candidateContract =>
    .ok (if candidate.proposalDigest = digest candidate.payload then .pass else .fail, candidate.extractionEvidence)
  | .language => .ok (present (evidence.filter fun item => item.evidenceKind = "language:".toList ++ spec.targetLanguage))
  | .runtime => .ok (present (evidence.filter fun item => item.evidenceKind = "runtime:".toList ++ spec.targetRuntime))
  | .requiredBehavior | .prohibitedBehavior => assessBehavior kind gateId evidence spec
  | .interfaceEffect =>
    .ok (present (evidence.filter fun item => item.evidenceKind = "interface-proof:".toList ++ afterDot gateId))
  | .performance =>
    .ok (present (evidence.filter fun item =>
      item.evidenceKind = "performance-proof:".toList ++ afterDot gateId ++ ":pass".toList))
  | .license => .ok (assessLicense evidence spec.licensePolicy)
  | .dependency => .ok (assessDependency evidence spec.prohibitedDependencies)
  | .platform =>
    .ok (present (evidence.filter fun item => item.evidenceKind = "platform:any".toList ∨
      item.evidenceKind = "platform:".toList ++ afterDot gateId))
  | .minimumEvidence => .ok (present candidate.extractionEvidence)

structure GateResult where
  gateId : Text
  gateKind : GateKind
  policyRuleId : Text
  policyRuleVersion : Text
  mode : ConstraintMode
  status : GateStatus
  applicableFields : List Text
  evidence : List EvidencePointer
  reason : Option RejectReason
  detailCode : Option Text
deriving DecidableEq

def GateStatus.unresolved (status : GateStatus) : Bool := status = .unknown || status = .error || status = .skipped

def rejectionOf (kind : GateKind) (status : GateStatus) : Option (RejectReason × Text) :=
  if status = .fail then
    if kind = .license then some (.licenseIncompatible, "suitability_license_incompatible_v1".toList)
    else if kind = .immutableProvenance ∨ kind = .candidateContract then
      some (.provenanceMismatch, "candidate_source_provenance_v1".toList)
    else some (.hardGateFailed, "suitability_required_gate_failed_v1".toList)
  else if status.unresolved then some (.hardGateFailed, "suitability_required_gate_unresolved_v1".toList)
  else none

/-- The constructor of a result: identifiers are bounded, and evidence is listed once. -/
def gateResult (gate : ExpandedGate) (status : GateStatus) (evidence : List EvidencePointer) : Except Rejection GateResult :=
  if 512 < gate.gateId.length then
    reject .hardGateFailed "gate_id must be bounded non-empty text" "suitability_status_conversion_v1"
  else if ¬ evidence.Nodup then
    reject .duplicateResult "duplicate suitability evidence" "candidate_identity_duplicate_v1"
  else .ok {
    gateId := gate.gateId
    gateKind := gate.template.kind
    policyRuleId := gate.template.ruleId
    policyRuleVersion := gate.template.ruleVersion
    mode := gate.mode
    status := status
    applicableFields := KeyedList.sortBy (fun field => [textKey field]) gate.applicable
    evidence := sortEvidence evidence
    reason := (rejectionOf gate.template.kind status).map Prod.fst
    detailCode := (rejectionOf gate.template.kind status).map Prod.snd }

def noneSuffix : Text := ".none".toList

def evaluateOne (candidate : CandidateProposal) (spec : SpecFields) (gate : ExpandedGate) : Except Rejection GateResult := do
  match ← statusMarker gate.gateId candidate.allEvidence with
  | some (status, evidence) => gateResult gate status evidence
  | none =>
    if noneSuffix <:+ gate.gateId ∧ gate.template.notApplicableWhenEmpty then gateResult gate .notApplicable []
    else
      let (status, evidence) ← assess digest gate.template.kind gate.gateId candidate spec
      gateResult gate status evidence

structure GateOutcome where
  verdict : GateVerdictStatus
  complete : Bool
  results : List GateResult
deriving DecidableEq

/-- The verdict of the required results; nothing makes up for a failure. -/
def verdictOf (results : List GateResult) : GateVerdictStatus :=
  let required := results.filter fun result => result.mode = .required
  if required.any fun result => result.status = .fail then .reject
  else if required.any fun result => result.status.unresolved then .indeterminate
  else .pass

def evaluateGates (candidate : CandidateProposal) (spec : CapabilitySpec) (profile : RecipientProfile)
    (policy : SuitabilityPolicy) : Except Rejection GateOutcome :=
  if policy ≠ pinnedSuitabilityPolicy then
    reject .provenanceMismatch "suitability policy is not the maintainer-pinned policy" "capability_registry_digest_v1"
  else if profile.profileDigest ≠ digest profile.payload then
    reject .provenanceMismatch "recipient profile digest mismatch" "recipient_manifest_bytes_mismatch_v1"
  else do
    let results ← (expandedGates spec.toSpecFields).mapM (evaluateOne digest candidate spec.toSpecFields)
    pure {
      verdict := verdictOf results
      complete := !((results.filter fun result => result.mode = .required).any fun result => result.status.unresolved)
      results := results }

end

end Leitir.Suitability
