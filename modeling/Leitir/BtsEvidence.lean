import Leitir.BtsGraph

namespace Leitir.Bts

open KeyedList

abbrev Bytes := List Nat

inductive Disposition
  | includeSource | mapTarget | adapt | replace | external | reject
deriving DecidableEq, Repr

def Disposition.value : Disposition → String
  | .includeSource => "include"
  | .mapTarget => "map"
  | .adapt => "adapt"
  | .replace => "replace"
  | .external => "external"
  | .reject => "reject"

inductive Status
  | complete | incomplete | reject
deriving DecidableEq, Repr

structure Budget where
  maxInputBytes : Nat
  maxFileBytes : Nat
  maxAstNodesPerFile : Nat
  maxFiles : Nat
  maxEdges : Nat
  maxNodes : Nat
  maxQueueEntries : Nat
  maxDepth : Nat
  maxWorkUnits : Nat
  maxSymbols : Nat
  maxSourceLines : Nat
  maxExternalInterfaces : Nat
  maxConfigEntries : Nat
  maxDonorSourceBps : Nat := 4000
  minima : 1 ≤ maxInputBytes ∧ 1 ≤ maxFileBytes ∧ 1 ≤ maxAstNodesPerFile ∧ 1 ≤ maxFiles ∧ 1 ≤ maxEdges ∧
    1 ≤ maxNodes ∧ 1 ≤ maxQueueEntries ∧ 1 ≤ maxWorkUnits ∧ 1 ≤ maxSymbols ∧ 1 ≤ maxSourceLines ∧
    1 ≤ maxExternalInterfaces ∧ 1 ≤ maxConfigEntries
  bps_le : maxDonorSourceBps ≤ 10000
deriving DecidableEq

structure StdlibInterface where
  moduleName : Text
  qualifiedName : Text
deriving DecidableEq

structure StdlibIdentity where
  implementation : Text
  pythonConstraint : Text
  policyVersion : Text
  allowlistDigest : Text
  allowlistEntries : List StdlibInterface
deriving DecidableEq

structure InterfaceContract where
  contractId : Text
  contractVersion : Text
  contentDigest : Text
deriving DecidableEq

structure EnvironmentContract where
  contractId : Text
  effectKind : Text
  constraints : List Text
  contentDigest : Text
deriving DecidableEq

structure AdapterCatalogEntry where
  adapterId : Text
  template : Text
  templateBytesSha256 : Text
  parameterNames : List Text
deriving DecidableEq

structure AdapterCatalog where
  catalogId : Text
  catalogVersion : Text
  contentDigest : Text
  entries : List AdapterCatalogEntry
deriving DecidableEq

inductive RulePayload
  | mapRule (target : NodeId) (targetIdentity : Text) (contract : InterfaceContract)
  | adaptRule (adapterId : Text) (parameters : List (Text × Text))
  | replaceRule (target : NodeId) (targetIdentity : Text) (contract : InterfaceContract)
  | externalRule (target : NodeId) (requirement : Text) (environment : Option EnvironmentContract)
  | rejectRule (reason : RejectReason) (detailCode : Text)
deriving DecidableEq

/-- The one disposition a payload may stand under. -/
def RulePayload.expected : RulePayload → Disposition
  | .mapRule .. => .mapTarget
  | .adaptRule .. => .adapt
  | .replaceRule .. => .replace
  | .externalRule .. => .external
  | .rejectRule .. => .reject

structure DispositionRule where
  ruleId : Text
  source : NodeId
  disposition : Disposition
  payload : RulePayload
  evidenceDigest : Text
  fits : disposition = payload.expected
deriving DecidableEq

def ruleKey (rule : DispositionRule) : Key :=
  nodeIdKey rule.source ++
    [literal rule.disposition.value, Text.code rule.ruleId, Text.code rule.evidenceDigest]

structure ResolutionPolicy where
  authority : Text
  policyId : Text
  policyDigest : Text
  stdlibIdentity : StdlibIdentity
  adapterCatalog : AdapterCatalog
  rules : List DispositionRule
  rules_sorted : rules.Pairwise fun a b => ruleKey a ≤ ruleKey b
  sources_nodup : (rules.map DispositionRule.source).Nodup

structure MemberEvidence where
  node : NodeId
  source : SourceRef
  sourceBytesSha256 : Text
  disposition : Disposition := .includeSource
deriving DecidableEq

structure DispositionEvidence where
  edge : Option Edge
  target : NodeId
  disposition : Disposition
  ruleId : Option Text
  reason : Option RejectReason := none
  detailCode : Option Text := none
  evidenceDigest : Option Text := none
  rulePayload : Option RulePayload := none
deriving DecidableEq

structure EdgeEvidence where
  depth : Nat
  edge : Edge
  disposition : Disposition
  ruleId : Option Text
deriving DecidableEq

structure FrontierEvidence where
  depth : Nat
  node : NodeId
  incoming : Option Edge
deriving DecidableEq

structure RequiredFileEvidence where
  path : Text
  blobSha : Text
  sourceBytesSha256 : Text
deriving DecidableEq

structure RequiredSymbolEvidence where
  node : NodeId
  source : SourceRef
deriving DecidableEq

/-- A construct that the extraction of the graph could not handle; the walk itself reports none. -/
structure ExtractionBlocker where
  path : Text
  startLine : Nat
  startCol : Nat
  endLine : Nat
  endCol : Nat
  astKind : Text
  resolutionRule : Text
  reason : RejectReason
  detailCode : Text
deriving DecidableEq

inductive BlockerEvidence
  | extraction (blocker : ExtractionBlocker)
  | unresolved (edge : UnresolvedEdge)
  | disposition (item : DispositionEvidence)
deriving DecidableEq

structure BudgetCounters where
  inputBytes : Nat := 0
  files : Nat := 0
  fileBytes : List (Text × Nat) := []
  astNodesPerFile : List (Text × Nat) := []
  edges : Nat := 0
  nodes : Nat := 0
  queueEntries : Nat := 0
  peakQueueEntries : Nat := 0
  depth : Nat := 0
  workUnits : Nat := 0
  symbols : Nat := 0
  sourceLines : Nat := 0
  externalInterfaces : Nat := 0
  configEntries : Nat := 0
deriving DecidableEq

structure AnalysisInputs where
  seed : NodeId
  donorSlug : Text
  donorCommitSha : Text
  materializedTreeHash : Text
  materializedTreeHashAlgorithm : Text
  graphSchemaVersion : String
  graphDigest : Text
  resolverVersion : String
  budget : Budget
  policyId : Text
  policyDigest : Text
  policyEnvelopeDigest : Text
  stdlibAllowlistDigest : Text
  adapterCatalogDigest : Text
deriving DecidableEq

structure Report where
  schemaVersion : String
  status : Status
  inputs : AnalysisInputs
  members : List MemberEvidence
  dispositions : List DispositionEvidence
  traversedEdges : List EdgeEvidence
  unresolved : List UnresolvedEdge
  blockers : List BlockerEvidence
  frontier : List FrontierEvidence
  counters : BudgetCounters
  analysisDigest : Text

structure TransplantSet where
  schemaVersion : String
  seed : NodeId
  members : List MemberEvidence
  dispositions : List DispositionEvidence
  requiredFiles : List RequiredFileEvidence
  requiredSymbols : List RequiredSymbolEvidence
  btsDigest : Text
  memberEquivalenceDigest : Text

structure Result where
  status : Status
  report : Report
  bts : Option TransplantSet

def memberKey (member : MemberEvidence) : Key :=
  nodeIdKey member.node ++ sourceKey member.source ++
    [Text.code member.sourceBytesSha256, literal member.disposition.value]

def incomingKey : Option Edge → Key
  | none => [[0]]
  | some edge => [1] :: edgeKey edge

def frontierKey (item : FrontierEvidence) : Key :=
  [item.depth] :: nodeIdKey item.node ++ incomingKey item.incoming

def dispositionKey (item : DispositionEvidence) : Key :=
  incomingKey item.edge ++ nodeIdKey item.target ++
    [literal item.disposition.value, Text.code (item.ruleId.getD []), Text.code (item.detailCode.getD [])]

def traversedKey (item : EdgeEvidence) : Key := [item.depth] :: edgeKey item.edge

def reachedUnresolvedKey (item : UnresolvedEdge) : Key :=
  nodeIdKey item.source ++ literal item.kind.value :: sourceKey item.provenance.site

def blockerKey : BlockerEvidence → Key
  | .extraction blocker =>
    [literal "extraction", Text.code blocker.path, [blocker.startLine], [blocker.startCol],
      literal blocker.reason.value, Text.code blocker.detailCode]
  | .unresolved edge =>
    literal "unresolved" :: nodeIdKey edge.source ++ literal edge.kind.value ::
      sourceKey edge.provenance.site ++ [Text.code edge.detailCode]
  | .disposition item => literal "disposition" :: dispositionKey item

def requiredFileKey (item : RequiredFileEvidence) : Key :=
  [Text.code item.path, Text.code item.blobSha, Text.code item.sourceBytesSha256]

end Leitir.Bts
