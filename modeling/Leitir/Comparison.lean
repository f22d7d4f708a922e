import Mathlib.Algebra.Order.Ring.Unbundled.Rat
import Leitir.BtsGraph
import Leitir.Composition
import Leitir.KeepBest

namespace Leitir.Compare

open Composition (combinations)

inductive DimensionKind
  | behavioralInterfaceFit | dependencyCost | extractionDifficulty | testExampleEvidence | documentationEvidence
  | maintenanceStatus | securityRisk | licenseFit | structuralComplexity | runtimePortabilityFit | versionStability
deriving DecidableEq

def DimensionKind.all : List DimensionKind :=
  [.behavioralInterfaceFit, .dependencyCost, .extractionDifficulty, .testExampleEvidence, .documentationEvidence,
    .maintenanceStatus, .securityRisk, .licenseFit, .structuralComplexity, .runtimePortabilityFit, .versionStability]

inductive DimensionStatus
  | known | unknown | notApplicable
deriving DecidableEq

inductive ComparisonResult
  | better | worse | equal | incomparable
deriving DecidableEq

inductive InterfaceMatch
  | incompatible | adaptable | exact
deriving DecidableEq

inductive ReleaseState
  | unsupported | maintenance | active
deriving DecidableEq

inductive CoverageState
  | partly | complete
deriving DecidableEq

inductive LicenseMatch
  | incompatible | conditional | compatible
deriving DecidableEq

inductive RuntimeMatch
  | adaptable | compatible | exact
deriving DecidableEq

inductive ApiStability
  | experimental | stable | guaranteed
deriving DecidableEq

def ordinal {α : Type} [DecidableEq α] (members : List α) (member : α) : Nat := members.idxOf member

def maxCount : Nat := 10 ^ 9

abbrev Count := { n : Nat // n ≤ maxCount }

structure BehavioralInterfaceValue where
  requiredProved : Count
  requiredTotal : Count
  preferredProved : Count
  preferredTotal : Count
  interfaceMatch : InterfaceMatch
  required : requiredProved.1 ≤ requiredTotal.1 ∧ requiredTotal.1 ≠ 0
  preferred : preferredProved.1 ≤ preferredTotal.1
deriving DecidableEq

structure DependencyCostValue where
  newDirect : Count
  newTransitive : Count
  unresolved : Count
  resolved : unresolved.1 = 0
deriving DecidableEq

structure ExtractionDifficultyValue where
  btsMembers : Count
  sourceLines : Count
  adapters : Count
  externalInterfaces : Count
deriving DecidableEq

structure TestExampleEvidenceValue where
  contractTests : Count
  applicableProbes : Count
  nondeprecatedExamples : Count
deriving DecidableEq

structure DocumentationEvidenceValue where
  apiDocs : Count
  usageExamples : Count
  versionedContracts : Count
deriving DecidableEq

structure MaintenanceStatusValue where
  releaseState : ReleaseState
  supportedReleaseCount : Count
deriving DecidableEq

structure SecurityRiskValue where
  knownCritical : Count
  knownHigh : Count
  knownModerate : Count
  advisoryCoverage : CoverageState
deriving DecidableEq

structure LicenseFitValue where
  licenseMatch : LicenseMatch
  obligationsCount : Count
deriving DecidableEq

structure StructuralComplexityValue where
  maxCyclomatic : Count
  totalBranches : Count
  dynamicBlockers : Count
  unblocked : dynamicBlockers.1 = 0
deriving DecidableEq

structure RuntimePortabilityValue where
  requiredPlatformsProved : Count
  requiredPlatformsTotal : Count
  runtimeMatch : RuntimeMatch
  required : requiredPlatformsProved.1 ≤ requiredPlatformsTotal.1 ∧ requiredPlatformsTotal.1 ≠ 0
deriving DecidableEq

structure VersionStabilityValue where
  apiStability : ApiStability
  compatibleVersionsProved : Count
deriving DecidableEq

inductive DimensionValue
  | behavioralInterface (value : BehavioralInterfaceValue)
  | dependencyCost (value : DependencyCostValue)
  | extractionDifficulty (value : ExtractionDifficultyValue)
  | testExampleEvidence (value : TestExampleEvidenceValue)
  | documentationEvidence (value : DocumentationEvidenceValue)
  | maintenanceStatus (value : MaintenanceStatusValue)
  | securityRisk (value : SecurityRiskValue)
  | licenseFit (value : LicenseFitValue)
  | structuralComplexity (value : StructuralComplexityValue)
  | runtimePortability (value : RuntimePortabilityValue)
  | versionStability (value : VersionStabilityValue)
deriving DecidableEq

def DimensionValue.kind : DimensionValue → DimensionKind
  | .behavioralInterface _ => .behavioralInterfaceFit
  | .dependencyCost _ => .dependencyCost
  | .extractionDifficulty _ => .extractionDifficulty
  | .testExampleEvidence _ => .testExampleEvidence
  | .documentationEvidence _ => .documentationEvidence
  | .maintenanceStatus _ => .maintenanceStatus
  | .securityRisk _ => .securityRisk
  | .licenseFit _ => .licenseFit
  | .structuralComplexity _ => .structuralComplexity
  | .runtimePortability _ => .runtimePortabilityFit
  | .versionStability _ => .versionStability

def fraction (proved total : Count) : ℚ := mkRat proved.1 total.1

def gain (count : Count) : ℚ := count.1

def cost (count : Count) : ℚ := -count.1

/-- The tuple that a value is compared by. -/
def DimensionValue.tuple : DimensionValue → List ℚ
  | .behavioralInterface value =>
    [fraction value.requiredProved value.requiredTotal,
      mkRat value.preferredProved.1 (if value.preferredTotal.1 = 0 then 1 else value.preferredTotal.1),
      ordinal [.incompatible, .adaptable, .exact] value.interfaceMatch]
  | .dependencyCost value => [cost value.newDirect, cost value.newTransitive, cost value.unresolved]
  | .extractionDifficulty value =>
    [cost value.btsMembers, cost value.sourceLines, cost value.adapters, cost value.externalInterfaces]
  | .testExampleEvidence value => [gain value.contractTests, gain value.applicableProbes, gain value.nondeprecatedExamples]
  | .documentationEvidence value => [gain value.apiDocs, gain value.usageExamples, gain value.versionedContracts]
  | .maintenanceStatus value =>
    [ordinal [.unsupported, .maintenance, .active] value.releaseState, gain value.supportedReleaseCount]
  | .securityRisk value =>
    [cost value.knownCritical, cost value.knownHigh, cost value.knownModerate,
      ordinal [.partly, .complete] value.advisoryCoverage]
  | .licenseFit value =>
    [ordinal [.incompatible, .conditional, .compatible] value.licenseMatch, cost value.obligationsCount]
  | .structuralComplexity value => [cost value.maxCyclomatic, cost value.totalBranches, cost value.dynamicBlockers]
  | .runtimePortability value =>
    [fraction value.requiredPlatformsProved value.requiredPlatformsTotal,
      ordinal [.adaptable, .compatible, .exact] value.runtimeMatch]
  | .versionStability value =>
    [ordinal [.experimental, .stable, .guaranteed] value.apiStability, gain value.compatibleVersionsProved]

/-- An assessment of one dimension: it has a value, of its dimension, if and only if it is known. -/
structure DimensionAssessment where
  kind : DimensionKind
  status : DimensionStatus
  value : Option DimensionValue
  valued : value.isSome = true ↔ status = .known
  typed : ∀ known, value = some known → known.kind = kind
deriving DecidableEq

structure BTSError where
  reason : Bts.RejectReason
  message : String
  detailCode : String
deriving DecidableEq

/-- What a comparison can raise; a key that is missing from a table is an error of the language. -/
inductive ComparisonError
  | bts (error : BTSError)
  | keyError
deriving DecidableEq

def invalid (message : String) : ComparisonError := .bts ⟨.hardGateFailed, message, "dimension_assessment_invalid_v1"⟩

/-- Tuples are compared by their first parts that differ. -/
def ordered : List ℚ → List ℚ → ComparisonResult
  | [], [] => .equal
  | [], _ :: _ => .worse
  | _ :: _, [] => .better
  | left :: lefts, right :: rights => if left = right then ordered lefts rights else if right < left then .better else .worse

def compareAssessments (left right : DimensionAssessment) : Except ComparisonError ComparisonResult :=
  if left.kind ≠ right.kind then
    .error (.bts ⟨.semanticDegradation, "cross-dimension comparison is forbidden", "dimension_cross_compare_v1"⟩)
  else if left.status = .unknown ∨ right.status = .unknown then .ok .incomparable
  else if left.status = .notApplicable ∨ right.status = .notApplicable then
    .ok (if left.status = right.status then .equal else .incomparable)
  else
    match left.value, right.value with
    | some leftValue, some rightValue =>
      if leftValue.kind = rightValue.kind then .ok (ordered leftValue.tuple rightValue.tuple)
      else .error (invalid "assessment and value concrete types do not match")
    | _, _ => .error (invalid "known dimension is missing its value")

section

inductive RoleKind
  | directFit | integrationCost | evidenceStrength
deriving DecidableEq

def RoleKind.value : RoleKind → String
  | .directFit => "direct_fit"
  | .integrationCost => "integration_cost"
  | .evidenceStrength => "evidence_strength"

inductive RoleStatus
  | provedWinner | equalIdentityTiebreak | unrankedIncomparable | unrankedNoCandidates
deriving DecidableEq

def roleDimensions : RoleKind → List DimensionKind
  | .directFit => [.behavioralInterfaceFit, .runtimePortabilityFit]
  | .integrationCost => [.dependencyCost, .extractionDifficulty, .structuralComplexity]
  | .evidenceStrength =>
    [.testExampleEvidence, .documentationEvidence, .maintenanceStatus, .securityRisk, .versionStability]

variable {κ : Type}

/-- The assessments of a candidate, one of each dimension and in their order. -/
structure CandidateDimensionVector (κ : Type) where
  candidateKey : κ
  dimensions : List DimensionAssessment
  canonical : dimensions.map DimensionAssessment.kind = DimensionKind.all
deriving DecidableEq

structure IncomparablePair (κ : Type) where
  left : κ
  right : κ
  dimension : DimensionKind
deriving DecidableEq

structure RoleSelection (κ : Type) where
  role : RoleKind
  status : RoleStatus
  candidateKey : Option κ
  dimensions : List DimensionKind
  incomparablePairs : List (IncomparablePair κ)
  tradeoff : String
deriving DecidableEq

def CandidateDimensionVector.byKind (vector : CandidateDimensionVector κ) (kind : DimensionKind) :
    Except ComparisonError DimensionAssessment :=
  match vector.dimensions.reverse.find? fun item => item.kind = kind with
  | some item => .ok item
  | none => .error .keyError

/-- The result of the first dimension on which two candidates are not equal, and that dimension. -/
def roleCompare (left right : CandidateDimensionVector κ) :
    List DimensionKind → Except ComparisonError (ComparisonResult × Option DimensionKind)
  | [] => .ok (.equal, none)
  | dimension :: rest => do
    let leftItem ← left.byKind dimension
    let rightItem ← right.byKind dimension
    let result ← compareAssessments leftItem rightItem
    if result ≠ .equal then pure (result, some dimension) else roleCompare left right rest

structure PairResult (κ : Type) where
  left : κ
  right : κ
  result : ComparisonResult
  dimension : Option DimensionKind
deriving DecidableEq

def comparePair (dimensions : List DimensionKind) (pair : CandidateDimensionVector κ × CandidateDimensionVector κ) :
    Except ComparisonError (PairResult κ) := do
  let (result, dimension) ← roleCompare pair.1 pair.2 dimensions
  pure ⟨pair.1.candidateKey, pair.2.candidateKey, result, dimension⟩

def PairResult.incomparable (pair : PairResult κ) : Option (IncomparablePair κ) :=
  if pair.result = .incomparable then pair.dimension.map fun dimension => ⟨pair.left, pair.right, dimension⟩ else none

def ComparisonResult.reversed : ComparisonResult → ComparisonResult
  | .worse => .better
  | .better => .worse
  | result => result

variable [DecidableEq κ]

def pairResult (results : List (PairResult κ)) (left right : κ) : Option ComparisonResult :=
  (results.reverse.find? fun pair => pair.left = left ∧ pair.right = right).map PairResult.result

def resultOf (results : List (PairResult κ)) (candidate other : κ) : Except ComparisonError ComparisonResult :=
  match pairResult results candidate other with
  | some result => .ok result
  | none =>
    match pairResult results other candidate with
    | some result => .ok result.reversed
    | none => .error .keyError

/-- Whether a candidate is worse than none of the others; a candidate is told from the others by its place. -/
def noWorse (results : List (PairResult κ)) (candidate : CandidateDimensionVector κ × Nat) :
    List (CandidateDimensionVector κ × Nat) → Except ComparisonError Bool
  | [] => .ok true
  | other :: rest =>
    if candidate.2 = other.2 then noWorse results candidate rest
    else do
      let result ← resultOf results candidate.1.candidateKey other.1.candidateKey
      if result = .worse then pure false else noWorse results candidate rest

def winnersOf (results : List (PairResult κ)) (candidates : List (CandidateDimensionVector κ × Nat)) :
    List (CandidateDimensionVector κ × Nat) → Except ComparisonError (List (CandidateDimensionVector κ))
  | [] => .ok []
  | candidate :: rest => do
    let stays ← noWorse results candidate candidates
    let others ← winnersOf results candidates rest
    pure (if stays then candidate.1 :: others else others)

end

section

variable {κ : Type} [LinearOrder κ]

def before (a b : CandidateDimensionVector κ) : Bool := a.candidateKey < b.candidateKey

def selectRole (role : RoleKind) (candidates : List (CandidateDimensionVector κ)) :
    Except ComparisonError (RoleSelection κ) :=
  let dimensions := roleDimensions role
  if candidates = [] then
    .ok ⟨role, .unrankedNoCandidates, none, dimensions, [], role.value ++ ": no eligible survivors"⟩
  else do
    let results ← (combinations candidates).mapM (comparePair dimensions)
    let incomparable := results.filterMap PairResult.incomparable
    if incomparable ≠ [] then
      pure ⟨role, .unrankedIncomparable, none, dimensions, incomparable,
        role.value ++ ": unranked because required comparisons are incomparable"⟩
    else do
      let winners ← winnersOf results candidates.zipIdx candidates.zipIdx
      match KeepBest.best before winners with
      | none =>
        .error (.bts ⟨.semanticDegradation, "comparison could not prove a role maximum",
          "comparison_unauthorized_ranking_v1"⟩)
      | some selected =>
        if 1 < winners.length ∨ candidates.length = 1 then
          pure ⟨role, .equalIdentityTiebreak, some selected.candidateKey, dimensions, [],
            role.value ++ ": equal values; canonical identity is presentation-only"⟩
        else
          pure ⟨role, .provedWinner, some selected.candidateKey, dimensions, [],
            role.value ++ ": proved comparable-better than every contender"⟩

end

end Leitir.Compare
