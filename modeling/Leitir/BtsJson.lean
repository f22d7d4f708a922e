import Leitir.BtsWalk
import Leitir.JsonShape
import Leitir.Utf8

namespace Leitir.Bts

open KeyedList Json

def Status.value : Status → String
  | .complete => "complete"
  | .incomplete => "partial"
  | .reject => "reject"

def kindShape : Shape NodeKind :=
  enumShape [.moduleNode, .function, .asyncFunction, .classNode, .method, .asyncMethod, .constant, .test, .resource]
    NodeKind.value

def originShape : Shape NodeOrigin :=
  enumShape [.donor, .stdlib, .declaredExternal, .test, .resource] NodeOrigin.value

def edgeKindShape : Shape EdgeKind :=
  enumShape [.imports, .inherits, .raises, .calls, .instantiates, .reads, .testedBy] EdgeKind.value

def reasonShape : Shape RejectReason :=
  enumShape [.unresolvedEdge, .unsupportedConstruct, .unsupportedExtra, .provenanceMismatch, .movingReference,
    .donorImportObserved, .budgetExceeded, .extractionBudget, .licenseIncompatible, .licenseUnknown,
    .licenseObligationMissing, .bundleInvalid, .hardGateFailed, .executionThreat, .fetchFailed, .duplicateResult,
    .coverageMiscount, .semanticDegradation, .underCollection] RejectReason.value

def dispositionShape : Shape Disposition :=
  enumShape [.includeSource, .mapTarget, .adapt, .replace, .external, .reject] Disposition.value

def statusShape : Shape Status := enumShape [.complete, .incomplete, .reject] Status.value

/-- The parts of a path between its slashes. -/
def pathParts : Text → List Text
  | [] => [[]]
  | ch :: rest =>
    if ch = '/' then [] :: pathParts rest
    else
      match pathParts rest with
      | [] => [[ch]]
      | part :: parts => (ch :: part) :: parts

def relativePosixPath (path : Text) : Prop :=
  path ≠ [] ∧ '\x00' ∉ path ∧ '\\' ∉ path ∧ path[1]? ≠ some ':' ∧
    ∀ part ∈ pathParts path, part ≠ [] ∧ part ≠ ".".toList ∧ part ≠ "..".toList

instance (path : Text) : Decidable (relativePosixPath path) := inferInstanceAs (Decidable (_ ∧ _))

def SourceRef.Checked (source : SourceRef) : Prop :=
  source.slug ≠ [] ∧ source.commitSha ≠ [] ∧ relativePosixPath source.path ∧ source.blobSha ≠ []

instance : DecidablePred SourceRef.Checked := fun _ => inferInstanceAs (Decidable (_ ∧ _))

def NodeId.Checked (node : NodeId) : Prop := node.moduleName ≠ [] ∧ node.locationKey ≠ []

instance : DecidablePred NodeId.Checked := fun _ => inferInstanceAs (Decidable (_ ∧ _))

def EdgeProvenance.Checked (provenance : EdgeProvenance) : Prop :=
  provenance.astKind ≠ [] ∧ provenance.resolutionRule ≠ []

instance : DecidablePred EdgeProvenance.Checked := fun _ => inferInstanceAs (Decidable (_ ∧ _))

def Edge.Checked (edge : Edge) : Prop := edge.provenance.protocolBase → edge.kind = .inherits

instance : DecidablePred Edge.Checked := fun _ => inferInstanceAs (Decidable (_ → _))

def UnresolvedEdge.Checked (edge : UnresolvedEdge) : Prop :=
  edge.expression ≠ [] ∧ (edge.provenance.protocolBase → edge.kind = .inherits) ∧ edge.detailCode ≠ []

instance : DecidablePred UnresolvedEdge.Checked := fun _ => inferInstanceAs (Decidable (_ ∧ _))

def ExtractionBlocker.Checked (blocker : ExtractionBlocker) : Prop :=
  relativePosixPath blocker.path ∧ 1 ≤ blocker.startLine ∧ 1 ≤ blocker.endLine ∧
    positionLe blocker.startLine blocker.startCol blocker.endLine blocker.endCol ∧ blocker.astKind ≠ [] ∧
    blocker.resolutionRule ≠ [] ∧ blocker.detailCode ≠ []

instance : DecidablePred ExtractionBlocker.Checked := fun _ => inferInstanceAs (Decidable (_ ∧ _))

def sourceRefShape : Shape SourceRef :=
  recordShape ["slug", "commit_sha", "path", "blob_sha", "start_line", "start_col", "end_line", "end_col"]
    (fun source => [⟨"slug", _, textShape, source.slug⟩, ⟨"commit_sha", _, textShape, source.commitSha⟩,
      ⟨"path", _, textShape, source.path⟩, ⟨"blob_sha", _, textShape, source.blobSha⟩,
      ⟨"start_line", _, natShape, source.startLine⟩, ⟨"start_col", _, natShape, source.startCol⟩,
      ⟨"end_line", _, natShape, source.endLine⟩, ⟨"end_col", _, natShape, source.endCol⟩])
    (fun fields => do
      let slug ← field fields "slug" textShape
      let commitSha ← field fields "commit_sha" textShape
      let path ← field fields "path" textShape
      let blobSha ← field fields "blob_sha" textShape
      let startLine ← field fields "start_line" natShape
      let startCol ← field fields "start_col" natShape
      let endLine ← field fields "end_line" natShape
      let endCol ← field fields "end_col" natShape
      if h : 1 ≤ startLine ∧ positionLe startLine startCol endLine endCol then
        (some ⟨slug, commitSha, path, blobSha, startLine, startCol, endLine, endCol, h.1, h.2⟩).filter
          fun source => source.Checked
      else none)

def nodeIdShape : Shape NodeId :=
  recordShape ["origin", "kind", "module", "qualified_name", "location_key"]
    (fun node => [⟨"origin", _, originShape, node.origin⟩, ⟨"kind", _, kindShape, node.kind⟩,
      ⟨"module", _, textShape, node.moduleName⟩, ⟨"qualified_name", _, textShape, node.qualifiedName⟩,
      ⟨"location_key", _, textShape, node.locationKey⟩])
    (fun fields => do
      let origin ← field fields "origin" originShape
      let kind ← field fields "kind" kindShape
      let moduleName ← field fields "module" textShape
      let qualifiedName ← field fields "qualified_name" textShape
      let locationKey ← field fields "location_key" textShape
      if h : qualifiedName ≠ [] then
        (some ⟨origin, kind, moduleName, qualifiedName, locationKey, h⟩).filter fun node => node.Checked
      else none)

def provenanceShape : Shape EdgeProvenance :=
  recordShape ["site", "binding", "ast_kind", "resolution_rule", "protocol_base"]
    (fun provenance => [⟨"site", _, sourceRefShape, provenance.site⟩,
      ⟨"binding", _, optionShape sourceRefShape, provenance.binding⟩,
      ⟨"ast_kind", _, textShape, provenance.astKind⟩, ⟨"resolution_rule", _, textShape, provenance.resolutionRule⟩,
      ⟨"protocol_base", _, boolShape, provenance.protocolBase⟩])
    (fun fields => do
      let site ← field fields "site" sourceRefShape
      let binding ← field fields "binding" (optionShape sourceRefShape)
      let astKind ← field fields "ast_kind" textShape
      let resolutionRule ← field fields "resolution_rule" textShape
      let protocolBase ← field fields "protocol_base" boolShape
      (some ⟨site, binding, astKind, resolutionRule, protocolBase⟩).filter fun provenance => provenance.Checked)

def edgeShape : Shape Edge :=
  recordShape ["kind", "source", "target", "provenance"]
    (fun edge => [⟨"kind", _, edgeKindShape, edge.kind⟩, ⟨"source", _, nodeIdShape, edge.source⟩,
      ⟨"target", _, nodeIdShape, edge.target⟩, ⟨"provenance", _, provenanceShape, edge.provenance⟩])
    (fun fields => do
      let kind ← field fields "kind" edgeKindShape
      let source ← field fields "source" nodeIdShape
      let target ← field fields "target" nodeIdShape
      let provenance ← field fields "provenance" provenanceShape
      (some ⟨kind, source, target, provenance⟩).filter fun edge => edge.Checked)

def unresolvedShape : Shape UnresolvedEdge :=
  recordShape ["kind", "source", "expression", "provenance", "reason", "detail_code"]
    (fun edge => [⟨"kind", _, edgeKindShape, edge.kind⟩, ⟨"source", _, nodeIdShape, edge.source⟩,
      ⟨"expression", _, textShape, edge.expression⟩, ⟨"provenance", _, provenanceShape, edge.provenance⟩,
      ⟨"reason", _, reasonShape, edge.reason⟩, ⟨"detail_code", _, textShape, edge.detailCode⟩])
    (fun fields => do
      let kind ← field fields "kind" edgeKindShape
      let source ← field fields "source" nodeIdShape
      let expression ← field fields "expression" textShape
      let provenance ← field fields "provenance" provenanceShape
      let reason ← field fields "reason" reasonShape
      let detailCode ← field fields "detail_code" textShape
      (some ⟨kind, source, expression, provenance, reason, detailCode⟩).filter fun edge => edge.Checked)

def blockerShape : Shape ExtractionBlocker :=
  recordShape ["path", "start_line", "start_col", "end_line", "end_col", "ast_kind", "resolution_rule", "reason",
      "detail_code"]
    (fun blocker => [⟨"path", _, textShape, blocker.path⟩, ⟨"start_line", _, natShape, blocker.startLine⟩,
      ⟨"start_col", _, natShape, blocker.startCol⟩, ⟨"end_line", _, natShape, blocker.endLine⟩,
      ⟨"end_col", _, natShape, blocker.endCol⟩, ⟨"ast_kind", _, textShape, blocker.astKind⟩,
      ⟨"resolution_rule", _, textShape, blocker.resolutionRule⟩, ⟨"reason", _, reasonShape, blocker.reason⟩,
      ⟨"detail_code", _, textShape, blocker.detailCode⟩])
    (fun fields => do
      let path ← field fields "path" textShape
      let startLine ← field fields "start_line" natShape
      let startCol ← field fields "start_col" natShape
      let endLine ← field fields "end_line" natShape
      let endCol ← field fields "end_col" natShape
      let astKind ← field fields "ast_kind" textShape
      let resolutionRule ← field fields "resolution_rule" textShape
      let reason ← field fields "reason" reasonShape
      let detailCode ← field fields "detail_code" textShape
      (some ⟨path, startLine, startCol, endLine, endCol, astKind, resolutionRule, reason, detailCode⟩).filter
        fun blocker => blocker.Checked)

def digestText (text : Text) : Prop :=
  text.length = 71 ∧ "sha256:".toList <+: text ∧ ∀ ch ∈ text.drop 7, isHex ch

instance (text : Text) : Decidable (digestText text) :=
  decidable_of_iff (text.length = 71 ∧ "sha256:".toList <+: text ∧ (text.drop 7).all isHex = true)
    (by simp only [digestText, List.all_eq_true])

def InterfaceContract.Checked (contract : InterfaceContract) : Prop :=
  contract.contractId ≠ [] ∧ contract.contractVersion ≠ [] ∧ digestText contract.contentDigest

instance : DecidablePred InterfaceContract.Checked := fun _ => inferInstanceAs (Decidable (_ ∧ _))

def EnvironmentContract.Checked (contract : EnvironmentContract) : Prop :=
  contract.contractId ≠ [] ∧ contract.effectKind ≠ [] ∧ digestText contract.contentDigest ∧
    ∀ item ∈ contract.constraints, item ≠ []

instance : DecidablePred EnvironmentContract.Checked := fun _ => inferInstanceAs (Decidable (_ ∧ _))

def textKey (text : Text) : Key := [Text.code text]

def parameterKey (parameter : Text × Text) : Key := [Text.code parameter.1, Text.code parameter.2]

/-- What the constructor of a payload checks, before it sorts the parameters of an adapter. -/
def RulePayload.Checked : RulePayload → Prop
  | .mapRule _ targetIdentity _ => targetIdentity ≠ []
  | .adaptRule adapterId parameters => adapterId ≠ [] ∧ ∀ item ∈ parameters, item.1 ≠ [] ∧ item.2 ≠ []
  | .replaceRule _ targetIdentity _ => targetIdentity ≠ []
  | .externalRule _ requirement _ => requirement ≠ []
  | .rejectRule _ detailCode => detailCode ≠ []

instance : DecidablePred RulePayload.Checked
  | .mapRule .. => inferInstanceAs (Decidable (_ ≠ _))
  | .adaptRule .. => inferInstanceAs (Decidable (_ ∧ _))
  | .replaceRule .. => inferInstanceAs (Decidable (_ ≠ _))
  | .externalRule .. => inferInstanceAs (Decidable (_ ≠ _))
  | .rejectRule .. => inferInstanceAs (Decidable (_ ≠ _))

def interfaceContractShape : Shape InterfaceContract :=
  recordShape ["contract_id", "contract_version", "content_digest"]
    (fun contract => [⟨"contract_id", _, textShape, contract.contractId⟩,
      ⟨"contract_version", _, textShape, contract.contractVersion⟩,
      ⟨"content_digest", _, textShape, contract.contentDigest⟩])
    (fun fields => do
      let contractId ← field fields "contract_id" textShape
      let contractVersion ← field fields "contract_version" textShape
      let contentDigest ← field fields "content_digest" textShape
      (some ⟨contractId, contractVersion, contentDigest⟩).filter fun contract => contract.Checked)

def environmentContractShape : Shape EnvironmentContract :=
  recordShape ["contract_id", "effect_kind", "constraints", "content_digest"]
    (fun contract => [⟨"contract_id", _, textShape, contract.contractId⟩,
      ⟨"effect_kind", _, textShape, contract.effectKind⟩,
      ⟨"constraints", _, tupleShape textShape, contract.constraints⟩,
      ⟨"content_digest", _, textShape, contract.contentDigest⟩])
    (fun fields => do
      let contractId ← field fields "contract_id" textShape
      let effectKind ← field fields "effect_kind" textShape
      let constraints ← field fields "constraints" (tupleShape textShape)
      let contentDigest ← field fields "content_digest" textShape
      (some ⟨contractId, effectKind, sortBy textKey constraints, contentDigest⟩).filter
        fun contract => contract.Checked)

def mapRuleShape : Shape (NodeId × Text × InterfaceContract) :=
  recordShape ["target", "target_identity", "contract"]
    (fun rule => [⟨"target", _, nodeIdShape, rule.1⟩, ⟨"target_identity", _, textShape, rule.2.1⟩,
      ⟨"contract", _, interfaceContractShape, rule.2.2⟩])
    (fun fields => do
      let target ← field fields "target" nodeIdShape
      let targetIdentity ← field fields "target_identity" textShape
      let contract ← field fields "contract" interfaceContractShape
      if targetIdentity ≠ [] then some (target, targetIdentity, contract) else none)

def replaceRuleShape : Shape (NodeId × Text × InterfaceContract) := mapRuleShape

def adaptRuleShape : Shape (Text × List (Text × Text)) :=
  recordShape ["adapter_id", "parameters"]
    (fun rule => [⟨"adapter_id", _, textShape, rule.1⟩,
      ⟨"parameters", _, tupleShape (pairShape textShape textShape), rule.2⟩])
    (fun fields => do
      let adapterId ← field fields "adapter_id" textShape
      let parameters ← field fields "parameters" (tupleShape (pairShape textShape textShape))
      if adapterId ≠ [] ∧ ∀ item ∈ parameters, item.1 ≠ [] ∧ item.2 ≠ [] then
        let ordered := sortBy parameterKey parameters
        if (ordered.zip ordered.tail).any fun pair => pair.1.1 = pair.2.1 then none else some (adapterId, ordered)
      else none)

def externalRuleShape : Shape (NodeId × Text × Option EnvironmentContract) :=
  recordShape ["target", "requirement", "environment"]
    (fun rule => [⟨"target", _, nodeIdShape, rule.1⟩, ⟨"requirement", _, textShape, rule.2.1⟩,
      ⟨"environment", _, optionShape environmentContractShape, rule.2.2⟩])
    (fun fields => do
      let target ← field fields "target" nodeIdShape
      let requirement ← field fields "requirement" textShape
      let environment ← field fields "environment" (optionShape environmentContractShape)
      if requirement ≠ [] then some (target, requirement, environment) else none)

def rejectRuleShape : Shape (RejectReason × Text) :=
  recordShape ["reason", "detail_code"]
    (fun rule => [⟨"reason", _, reasonShape, rule.1⟩, ⟨"detail_code", _, textShape, rule.2⟩])
    (fun fields => do
      let reason ← field fields "reason" reasonShape
      let detailCode ← field fields "detail_code" textShape
      if detailCode ≠ [] then some (reason, detailCode) else none)

/-- The alternatives of a payload are tried in the order of the union. -/
def payloadShape : Shape RulePayload where
  encode
    | .mapRule target targetIdentity contract => mapRuleShape.encode (target, targetIdentity, contract)
    | .adaptRule adapterId parameters => adaptRuleShape.encode (adapterId, parameters)
    | .replaceRule target targetIdentity contract => replaceRuleShape.encode (target, targetIdentity, contract)
    | .externalRule target requirement environment => externalRuleShape.encode (target, requirement, environment)
    | .rejectRule reason detailCode => rejectRuleShape.encode (reason, detailCode)
  decode value :=
    ((mapRuleShape.decode value).map fun rule => .mapRule rule.1 rule.2.1 rule.2.2) <|>
    ((adaptRuleShape.decode value).map fun rule => .adaptRule rule.1 rule.2) <|>
    ((replaceRuleShape.decode value).map fun rule => .replaceRule rule.1 rule.2.1 rule.2.2) <|>
    ((externalRuleShape.decode value).map fun rule => .externalRule rule.1 rule.2.1 rule.2.2) <|>
    ((rejectRuleShape.decode value).map fun rule => .rejectRule rule.1 rule.2)

def memberShape : Shape MemberEvidence :=
  recordShape ["node", "source", "source_bytes_sha256", "disposition"]
    (fun member => [⟨"node", _, nodeIdShape, member.node⟩, ⟨"source", _, sourceRefShape, member.source⟩,
      ⟨"source_bytes_sha256", _, textShape, member.sourceBytesSha256⟩,
      ⟨"disposition", _, dispositionShape, member.disposition⟩])
    (fun fields => do
      let node ← field fields "node" nodeIdShape
      let source ← field fields "source" sourceRefShape
      let sourceBytesSha256 ← field fields "source_bytes_sha256" textShape
      let disposition ← field fields "disposition" dispositionShape
      some ⟨node, source, sourceBytesSha256, disposition⟩)

def dispositionEvidenceShape : Shape DispositionEvidence :=
  recordShape ["edge", "target", "disposition", "rule_id", "reason", "detail_code", "evidence_digest", "rule_payload"]
    (fun item => [⟨"edge", _, optionShape edgeShape, item.edge⟩, ⟨"target", _, nodeIdShape, item.target⟩,
      ⟨"disposition", _, dispositionShape, item.disposition⟩, ⟨"rule_id", _, optionShape textShape, item.ruleId⟩,
      ⟨"reason", _, optionShape reasonShape, item.reason⟩,
      ⟨"detail_code", _, optionShape textShape, item.detailCode⟩,
      ⟨"evidence_digest", _, optionShape textShape, item.evidenceDigest⟩,
      ⟨"rule_payload", _, optionShape payloadShape, item.rulePayload⟩])
    (fun fields => do
      let edge ← field fields "edge" (optionShape edgeShape)
      let target ← field fields "target" nodeIdShape
      let disposition ← field fields "disposition" dispositionShape
      let ruleId ← field fields "rule_id" (optionShape textShape)
      let reason ← field fields "reason" (optionShape reasonShape)
      let detailCode ← field fields "detail_code" (optionShape textShape)
      let evidenceDigest ← field fields "evidence_digest" (optionShape textShape)
      let rulePayload ← field fields "rule_payload" (optionShape payloadShape)
      some ⟨edge, target, disposition, ruleId, reason, detailCode, evidenceDigest, rulePayload⟩)

def edgeEvidenceShape : Shape EdgeEvidence :=
  recordShape ["depth", "edge", "disposition", "rule_id"]
    (fun item => [⟨"depth", _, natShape, item.depth⟩, ⟨"edge", _, edgeShape, item.edge⟩,
      ⟨"disposition", _, dispositionShape, item.disposition⟩, ⟨"rule_id", _, optionShape textShape, item.ruleId⟩])
    (fun fields => do
      let depth ← field fields "depth" natShape
      let edge ← field fields "edge" edgeShape
      let disposition ← field fields "disposition" dispositionShape
      let ruleId ← field fields "rule_id" (optionShape textShape)
      some ⟨depth, edge, disposition, ruleId⟩)

def frontierShape : Shape FrontierEvidence :=
  recordShape ["depth", "node", "incoming"]
    (fun item => [⟨"depth", _, natShape, item.depth⟩, ⟨"node", _, nodeIdShape, item.node⟩,
      ⟨"incoming", _, optionShape edgeShape, item.incoming⟩])
    (fun fields => do
      let depth ← field fields "depth" natShape
      let node ← field fields "node" nodeIdShape
      let incoming ← field fields "incoming" (optionShape edgeShape)
      some ⟨depth, node, incoming⟩)

def blockerEvidenceShape : Shape BlockerEvidence where
  encode
    | .extraction blocker => blockerShape.encode blocker
    | .unresolved edge => unresolvedShape.encode edge
    | .disposition item => dispositionEvidenceShape.encode item
  decode value :=
    ((blockerShape.decode value).map .extraction) <|>
    ((unresolvedShape.decode value).map .unresolved) <|>
    ((dispositionEvidenceShape.decode value).map .disposition)

def countersShape : Shape BudgetCounters :=
  recordShape ["input_bytes", "files", "file_bytes", "ast_nodes_per_file", "edges", "nodes", "queue_entries",
      "peak_queue_entries", "depth", "work_units", "symbols", "source_lines", "external_interfaces", "config_entries"]
    (fun counters => [⟨"input_bytes", _, natShape, counters.inputBytes⟩, ⟨"files", _, natShape, counters.files⟩,
      ⟨"file_bytes", _, tupleShape (pairShape textShape natShape), counters.fileBytes⟩,
      ⟨"ast_nodes_per_file", _, tupleShape (pairShape textShape natShape), counters.astNodesPerFile⟩,
      ⟨"edges", _, natShape, counters.edges⟩, ⟨"nodes", _, natShape, counters.nodes⟩,
      ⟨"queue_entries", _, natShape, counters.queueEntries⟩,
      ⟨"peak_queue_entries", _, natShape, counters.peakQueueEntries⟩, ⟨"depth", _, natShape, counters.depth⟩,
      ⟨"work_units", _, natShape, counters.workUnits⟩, ⟨"symbols", _, natShape, counters.symbols⟩,
      ⟨"source_lines", _, natShape, counters.sourceLines⟩,
      ⟨"external_interfaces", _, natShape, counters.externalInterfaces⟩,
      ⟨"config_entries", _, natShape, counters.configEntries⟩])
    (fun fields => do
      let inputBytes ← field fields "input_bytes" natShape
      let files ← field fields "files" natShape
      let fileBytes ← field fields "file_bytes" (tupleShape (pairShape textShape natShape))
      let astNodesPerFile ← field fields "ast_nodes_per_file" (tupleShape (pairShape textShape natShape))
      let edges ← field fields "edges" natShape
      let nodes ← field fields "nodes" natShape
      let queueEntries ← field fields "queue_entries" natShape
      let peakQueueEntries ← field fields "peak_queue_entries" natShape
      let depth ← field fields "depth" natShape
      let workUnits ← field fields "work_units" natShape
      let symbols ← field fields "symbols" natShape
      let sourceLines ← field fields "source_lines" natShape
      let externalInterfaces ← field fields "external_interfaces" natShape
      let configEntries ← field fields "config_entries" natShape
      some ⟨inputBytes, files, fileBytes, astNodesPerFile, edges, nodes, queueEntries, peakQueueEntries, depth,
        workUnits, symbols, sourceLines, externalInterfaces, configEntries⟩)

def budgetShape : Shape Budget :=
  recordShape ["max_input_bytes", "max_file_bytes", "max_ast_nodes_per_file", "max_files", "max_edges", "max_nodes",
      "max_queue_entries", "max_depth", "max_work_units", "max_symbols", "max_source_lines",
      "max_external_interfaces", "max_config_entries", "max_donor_source_bps"]
    (fun budget => [⟨"max_input_bytes", _, natShape, budget.maxInputBytes⟩,
      ⟨"max_file_bytes", _, natShape, budget.maxFileBytes⟩,
      ⟨"max_ast_nodes_per_file", _, natShape, budget.maxAstNodesPerFile⟩,
      ⟨"max_files", _, natShape, budget.maxFiles⟩, ⟨"max_edges", _, natShape, budget.maxEdges⟩,
      ⟨"max_nodes", _, natShape, budget.maxNodes⟩, ⟨"max_queue_entries", _, natShape, budget.maxQueueEntries⟩,
      ⟨"max_depth", _, natShape, budget.maxDepth⟩, ⟨"max_work_units", _, natShape, budget.maxWorkUnits⟩,
      ⟨"max_symbols", _, natShape, budget.maxSymbols⟩, ⟨"max_source_lines", _, natShape, budget.maxSourceLines⟩,
      ⟨"max_external_interfaces", _, natShape, budget.maxExternalInterfaces⟩,
      ⟨"max_config_entries", _, natShape, budget.maxConfigEntries⟩,
      ⟨"max_donor_source_bps", _, natShape, budget.maxDonorSourceBps⟩])
    (fun fields => do
      let maxInputBytes ← field fields "max_input_bytes" natShape
      let maxFileBytes ← field fields "max_file_bytes" natShape
      let maxAstNodesPerFile ← field fields "max_ast_nodes_per_file" natShape
      let maxFiles ← field fields "max_files" natShape
      let maxEdges ← field fields "max_edges" natShape
      let maxNodes ← field fields "max_nodes" natShape
      let maxQueueEntries ← field fields "max_queue_entries" natShape
      let maxDepth ← field fields "max_depth" natShape
      let maxWorkUnits ← field fields "max_work_units" natShape
      let maxSymbols ← field fields "max_symbols" natShape
      let maxSourceLines ← field fields "max_source_lines" natShape
      let maxExternalInterfaces ← field fields "max_external_interfaces" natShape
      let maxConfigEntries ← field fields "max_config_entries" natShape
      let maxDonorSourceBps ← field fields "max_donor_source_bps" natShape
      if h : (1 ≤ maxInputBytes ∧ 1 ≤ maxFileBytes ∧ 1 ≤ maxAstNodesPerFile ∧ 1 ≤ maxFiles ∧ 1 ≤ maxEdges ∧
          1 ≤ maxNodes ∧ 1 ≤ maxQueueEntries ∧ 1 ≤ maxWorkUnits ∧ 1 ≤ maxSymbols ∧ 1 ≤ maxSourceLines ∧
          1 ≤ maxExternalInterfaces ∧ 1 ≤ maxConfigEntries) ∧ maxDonorSourceBps ≤ 10000 then
        some ⟨maxInputBytes, maxFileBytes, maxAstNodesPerFile, maxFiles, maxEdges, maxNodes, maxQueueEntries, maxDepth,
          maxWorkUnits, maxSymbols, maxSourceLines, maxExternalInterfaces, maxConfigEntries, maxDonorSourceBps,
          h.1, h.2⟩
      else none)

def inputsShape : Shape AnalysisInputs :=
  recordShape ["seed", "donor_slug", "donor_commit_sha", "materialized_tree_hash", "materialized_tree_hash_algorithm",
      "graph_schema_version", "graph_digest", "resolver_version", "budget", "policy_id", "policy_digest",
      "policy_envelope_digest", "stdlib_allowlist_digest", "adapter_catalog_digest"]
    (fun inputs => [⟨"seed", _, nodeIdShape, inputs.seed⟩, ⟨"donor_slug", _, textShape, inputs.donorSlug⟩,
      ⟨"donor_commit_sha", _, textShape, inputs.donorCommitSha⟩,
      ⟨"materialized_tree_hash", _, textShape, inputs.materializedTreeHash⟩,
      ⟨"materialized_tree_hash_algorithm", _, textShape, inputs.materializedTreeHashAlgorithm⟩,
      ⟨"graph_schema_version", _, stringShape, inputs.graphSchemaVersion⟩,
      ⟨"graph_digest", _, textShape, inputs.graphDigest⟩,
      ⟨"resolver_version", _, stringShape, inputs.resolverVersion⟩, ⟨"budget", _, budgetShape, inputs.budget⟩,
      ⟨"policy_id", _, textShape, inputs.policyId⟩, ⟨"policy_digest", _, textShape, inputs.policyDigest⟩,
      ⟨"policy_envelope_digest", _, textShape, inputs.policyEnvelopeDigest⟩,
      ⟨"stdlib_allowlist_digest", _, textShape, inputs.stdlibAllowlistDigest⟩,
      ⟨"adapter_catalog_digest", _, textShape, inputs.adapterCatalogDigest⟩])
    (fun fields => do
      let seed ← field fields "seed" nodeIdShape
      let donorSlug ← field fields "donor_slug" textShape
      let donorCommitSha ← field fields "donor_commit_sha" textShape
      let materializedTreeHash ← field fields "materialized_tree_hash" textShape
      let materializedTreeHashAlgorithm ← field fields "materialized_tree_hash_algorithm" textShape
      let graphSchemaVersion ← field fields "graph_schema_version" stringShape
      let graphDigest ← field fields "graph_digest" textShape
      let resolverVersion ← field fields "resolver_version" stringShape
      let budget ← field fields "budget" budgetShape
      let policyId ← field fields "policy_id" textShape
      let policyDigest ← field fields "policy_digest" textShape
      let policyEnvelopeDigest ← field fields "policy_envelope_digest" textShape
      let stdlibAllowlistDigest ← field fields "stdlib_allowlist_digest" textShape
      let adapterCatalogDigest ← field fields "adapter_catalog_digest" textShape
      some ⟨seed, donorSlug, donorCommitSha, materializedTreeHash, materializedTreeHashAlgorithm, graphSchemaVersion,
        graphDigest, resolverVersion, budget, policyId, policyDigest, policyEnvelopeDigest, stdlibAllowlistDigest,
        adapterCatalogDigest⟩)

def reportShape : Shape Report :=
  recordShape ["schema_version", "status", "inputs", "members", "dispositions", "traversed_edges", "unresolved",
      "blockers", "frontier", "counters", "analysis_digest"]
    (fun report => [⟨"schema_version", _, stringShape, report.schemaVersion⟩,
      ⟨"status", _, statusShape, report.status⟩, ⟨"inputs", _, inputsShape, report.inputs⟩,
      ⟨"members", _, tupleShape memberShape, report.members⟩,
      ⟨"dispositions", _, tupleShape dispositionEvidenceShape, report.dispositions⟩,
      ⟨"traversed_edges", _, tupleShape edgeEvidenceShape, report.traversedEdges⟩,
      ⟨"unresolved", _, tupleShape unresolvedShape, report.unresolved⟩,
      ⟨"blockers", _, tupleShape blockerEvidenceShape, report.blockers⟩,
      ⟨"frontier", _, tupleShape frontierShape, report.frontier⟩, ⟨"counters", _, countersShape, report.counters⟩,
      ⟨"analysis_digest", _, textShape, report.analysisDigest⟩])
    (fun fields => do
      let schemaVersion ← field fields "schema_version" stringShape
      let status ← field fields "status" statusShape
      let inputs ← field fields "inputs" inputsShape
      let members ← field fields "members" (tupleShape memberShape)
      let dispositions ← field fields "dispositions" (tupleShape dispositionEvidenceShape)
      let traversedEdges ← field fields "traversed_edges" (tupleShape edgeEvidenceShape)
      let unresolved ← field fields "unresolved" (tupleShape unresolvedShape)
      let blockers ← field fields "blockers" (tupleShape blockerEvidenceShape)
      let frontier ← field fields "frontier" (tupleShape frontierShape)
      let counters ← field fields "counters" countersShape
      let analysisDigest ← field fields "analysis_digest" textShape
      some ⟨schemaVersion, status, inputs, members, dispositions, traversedEdges, unresolved, blockers, frontier,
        counters, analysisDigest⟩)

def canonicalText (report : Report) : Text := dumps (reportShape.encode report) ++ ['\n']

def toBytes (report : Report) : Bytes := Utf8.encodeText (canonicalText report)

/-- A report is read back only with its own digest and in its canonical text. -/
def fromJson (digests : Digests) (value : Bytes) : Option Report := do
  let text ← Utf8.decodeText value
  let raw ← loads text
  let report ← reportShape.decode raw
  if report.analysisDigest ≠ digests.report { report with analysisDigest := [] } then none
  else if canonicalText report ≠ text then none
  else some report

end Leitir.Bts
