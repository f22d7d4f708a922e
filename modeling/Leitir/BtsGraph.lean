import Leitir.KeyedList

namespace Leitir.Bts

open KeyedList List

abbrev Text := List Char

def Text.code (text : Text) : List Nat := text.map Char.toNat

def literal (text : String) : List Nat := Text.code text.toList

theorem Text.code_injective : Function.Injective Text.code :=
  map_injective_iff.mpr fun _ _ h => Char.toNat_inj.mp h

inductive NodeKind
  | moduleNode | function | asyncFunction | classNode | method | asyncMethod | constant | test | resource
deriving DecidableEq, Repr

def NodeKind.value : NodeKind → String
  | .moduleNode => "module"
  | .function => "function"
  | .asyncFunction => "async_function"
  | .classNode => "class"
  | .method => "method"
  | .asyncMethod => "async_method"
  | .constant => "constant"
  | .test => "test"
  | .resource => "resource"

inductive NodeOrigin
  | donor | stdlib | declaredExternal | test | resource
deriving DecidableEq, Repr

def NodeOrigin.value : NodeOrigin → String
  | .donor => "donor"
  | .stdlib => "stdlib"
  | .declaredExternal => "declared_external"
  | .test => "test"
  | .resource => "resource"

inductive EdgeKind
  | imports | inherits | raises | calls | instantiates | reads | testedBy
deriving DecidableEq, Repr

def EdgeKind.value : EdgeKind → String
  | .imports => "imports"
  | .inherits => "inherits"
  | .raises => "raises"
  | .calls => "calls"
  | .instantiates => "instantiates"
  | .reads => "reads"
  | .testedBy => "tested_by"

inductive RejectReason
  | unresolvedEdge | unsupportedConstruct | unsupportedExtra | provenanceMismatch | movingReference
  | donorImportObserved | budgetExceeded | extractionBudget | licenseIncompatible | licenseUnknown
  | licenseObligationMissing | bundleInvalid | hardGateFailed | executionThreat | fetchFailed
  | duplicateResult | coverageMiscount | semanticDegradation | underCollection
deriving DecidableEq, Repr

def RejectReason.value : RejectReason → String
  | .unresolvedEdge => "reject_unresolved_edge"
  | .unsupportedConstruct => "reject_unsupported_construct"
  | .unsupportedExtra => "reject_unsupported_extra"
  | .provenanceMismatch => "reject_provenance_mismatch"
  | .movingReference => "reject_moving_reference"
  | .donorImportObserved => "reject_donor_import_observed"
  | .budgetExceeded => "reject_budget_exceeded"
  | .extractionBudget => "reject_extraction_budget"
  | .licenseIncompatible => "reject_license_incompatible"
  | .licenseUnknown => "reject_license_unknown"
  | .licenseObligationMissing => "reject_license_obligation_missing"
  | .bundleInvalid => "reject_bundle_invalid"
  | .hardGateFailed => "reject_hard_gate_failed"
  | .executionThreat => "reject_execution_threat"
  | .fetchFailed => "reject_fetch_failed"
  | .duplicateResult => "reject_duplicate_result"
  | .coverageMiscount => "reject_coverage_miscount"
  | .semanticDegradation => "reject_semantic_degradation"
  | .underCollection => "reject_under_collection"

def positionLe (line col line' col' : Nat) : Prop := line < line' ∨ line = line' ∧ col ≤ col'

instance (line col line' col' : Nat) : Decidable (positionLe line col line' col') :=
  inferInstanceAs (Decidable (_ ∨ _))

theorem positionLe_trans {a b c d e f : Nat} (h : positionLe a b c d) (h' : positionLe c d e f) :
    positionLe a b e f := by
  unfold positionLe at *
  omega

structure SourceRef where
  slug : Text
  commitSha : Text
  path : Text
  blobSha : Text
  startLine : Nat
  startCol : Nat
  endLine : Nat
  endCol : Nat
  startLine_pos : 1 ≤ startLine
  ordered : positionLe startLine startCol endLine endCol
deriving DecidableEq

structure NodeId where
  origin : NodeOrigin
  kind : NodeKind
  moduleName : Text
  qualifiedName : Text
  locationKey : Text
  named : qualifiedName ≠ []
deriving DecidableEq

structure Node where
  id : NodeId
  source : Option SourceRef
  extractionMethod : Text
deriving DecidableEq

structure EdgeProvenance where
  site : SourceRef
  binding : Option SourceRef
  astKind : Text
  resolutionRule : Text
  protocolBase : Bool
deriving DecidableEq

structure Edge where
  kind : EdgeKind
  source : NodeId
  target : NodeId
  provenance : EdgeProvenance
deriving DecidableEq

structure UnresolvedEdge where
  kind : EdgeKind
  source : NodeId
  expression : Text
  provenance : EdgeProvenance
  reason : RejectReason
  detailCode : Text
deriving DecidableEq

def sourceKey (source : SourceRef) : Key :=
  [Text.code source.slug, Text.code source.commitSha, Text.code source.path, Text.code source.blobSha,
    [source.startLine], [source.startCol], [source.endLine], [source.endCol]]

def optionalSourceKey : Option SourceRef → Key
  | none => [[0]]
  | some source => [1] :: sourceKey source

def nodeIdKey (node : NodeId) : Key :=
  [literal node.origin.value, literal node.kind.value, Text.code node.moduleName,
    Text.code node.qualifiedName, Text.code node.locationKey]

def nodeKey (node : Node) : Key :=
  nodeIdKey node.id ++ optionalSourceKey node.source ++ [Text.code node.extractionMethod]

def provenanceKey (provenance : EdgeProvenance) : Key :=
  sourceKey provenance.site ++ optionalSourceKey provenance.binding ++
    [Text.code provenance.astKind, Text.code provenance.resolutionRule, [provenance.protocolBase.toNat]]

def edgeKey (edge : Edge) : Key :=
  nodeIdKey edge.source ++ literal edge.kind.value :: nodeIdKey edge.target ++ provenanceKey edge.provenance

def unresolvedKey (edge : UnresolvedEdge) : Key :=
  nodeIdKey edge.source ++ literal edge.kind.value :: provenanceKey edge.provenance ++
    [Text.code edge.expression, literal edge.reason.value, Text.code edge.detailCode]

theorem literal_injective : Function.Injective literal := by
  intro a b h
  exact String.toList_inj.mp (Text.code_injective h)

theorem NodeKind.value_injective : Function.Injective NodeKind.value := by
  intro a b h
  cases a <;> cases b <;> first | rfl | simp [NodeKind.value] at h

theorem NodeOrigin.value_injective : Function.Injective NodeOrigin.value := by
  intro a b h
  cases a <;> cases b <;> first | rfl | simp [NodeOrigin.value] at h

theorem EdgeKind.value_injective : Function.Injective EdgeKind.value := by
  intro a b h
  cases a <;> cases b <;> first | rfl | simp [EdgeKind.value] at h

theorem sourceKey_injective : Function.Injective sourceKey := by
  intro a b h
  cases a
  cases b
  simp only [sourceKey, List.cons.injEq, Text.code_injective.eq_iff, and_true] at h
  simp only [SourceRef.mk.injEq]
  exact h

theorem nodeIdKey_injective : Function.Injective nodeIdKey := by
  intro a b h
  cases a
  cases b
  simp only [nodeIdKey, List.cons.injEq, Text.code_injective.eq_iff, literal_injective.eq_iff,
    NodeKind.value_injective.eq_iff, NodeOrigin.value_injective.eq_iff, and_true] at h
  simp only [NodeId.mk.injEq]
  exact h

@[simp] theorem length_sourceKey (source : SourceRef) : (sourceKey source).length = 8 := rfl

@[simp] theorem length_nodeIdKey (node : NodeId) : (nodeIdKey node).length = 5 := rfl

theorem optionalSourceKey_append_inj {a b : Option SourceRef} {s t : Key}
    (h : optionalSourceKey a ++ s = optionalSourceKey b ++ t) : a = b ∧ s = t := by
  cases a with
  | none =>
    cases b with
    | none => simpa [optionalSourceKey] using h
    | some b => simp [optionalSourceKey] at h
  | some a =>
    cases b with
    | none => simp [optionalSourceKey] at h
    | some b =>
      simp only [optionalSourceKey, cons_append, List.cons.injEq, true_and] at h
      obtain ⟨hs, ht⟩ := append_inj h (by simp)
      exact ⟨congrArg some (sourceKey_injective hs), ht⟩

theorem toNat_injective : Function.Injective Bool.toNat := by
  intro a b h
  cases a <;> cases b <;> first | rfl | simp at h

theorem provenanceKey_append_inj {a b : EdgeProvenance} {s t : Key} (h : provenanceKey a ++ s = provenanceKey b ++ t) :
    a = b ∧ s = t := by
  simp only [provenanceKey, append_assoc] at h
  obtain ⟨hsite, h⟩ := append_inj h (by simp)
  obtain ⟨hbinding, h⟩ := optionalSourceKey_append_inj h
  simp only [cons_append, nil_append, List.cons.injEq, Text.code_injective.eq_iff, toNat_injective.eq_iff,
    and_true] at h
  obtain ⟨hast, hrule, hbase, hrest⟩ := h
  cases a
  cases b
  simp only [EdgeProvenance.mk.injEq]
  exact ⟨⟨sourceKey_injective hsite, hbinding, hast, hrule, hbase⟩, hrest⟩

theorem edgeKey_append_inj {a b : Edge} {s t : Key} (h : edgeKey a ++ s = edgeKey b ++ t) : a = b ∧ s = t := by
  simp only [edgeKey, append_assoc, cons_append] at h
  obtain ⟨hsource, h⟩ := append_inj h (by simp)
  obtain ⟨hkind, h⟩ := List.cons.inj h
  obtain ⟨htarget, h⟩ := append_inj h (by simp)
  obtain ⟨hprov, hrest⟩ := provenanceKey_append_inj h
  cases a
  cases b
  simp only [Edge.mk.injEq]
  exact ⟨⟨EdgeKind.value_injective (literal_injective hkind), nodeIdKey_injective hsource,
    nodeIdKey_injective htarget, hprov⟩, hrest⟩

theorem edgeKey_injective : Function.Injective edgeKey := by
  intro a b h
  exact (edgeKey_append_inj (congrArg (· ++ []) h)).1

/-- The files of a graph and those that were parsed; complete coverage makes them equal. -/
structure GraphCoverage where
  files : List SourceRef
  parsedFiles : List SourceRef
  files_sorted : files.Pairwise fun a b => sourceKey a < sourceKey b
  parsedFiles_sorted : parsedFiles.Pairwise fun a b => sourceKey a < sourceKey b

def nodeIds (nodes : List Node) : List NodeId := nodes.map Node.id

/-- A graph in its canonical order, without two nodes of one id and without dangling edges. -/
structure Graph where
  nodes : List Node
  edges : List Edge
  unresolved : List UnresolvedEdge
  coverage : GraphCoverage
  nodes_sorted : nodes.Pairwise fun a b => nodeKey a ≤ nodeKey b
  ids_nodup : (nodeIds nodes).Nodup
  edges_sorted : edges.Pairwise fun a b => edgeKey a < edgeKey b
  unresolved_sorted : unresolved.Pairwise fun a b => unresolvedKey a < unresolvedKey b
  edge_endpoints : ∀ edge ∈ edges, edge.source ∈ nodeIds nodes ∧ edge.target ∈ nodeIds nodes
  unresolved_source : ∀ edge ∈ unresolved, edge.source ∈ nodeIds nodes

def Graph.node (graph : Graph) (id : NodeId) : Option Node := lookupLast Node.id graph.nodes id

variable {graph : Graph}

theorem Graph.node_eq_some {id : NodeId} {node : Node}
    (h : graph.node id = some node) : node ∈ graph.nodes ∧ node.id = id := by
  obtain ⟨hid, before, after, heq, -⟩ := lookupLast_eq_some_iff.mp h
  exact ⟨by rw [heq]; simp, hid⟩

theorem Graph.node_unique {a b : Node} (ha : a ∈ graph.nodes) (hb : b ∈ graph.nodes)
    (h : a.id = b.id) : a = b :=
  inj_on_of_nodup_map graph.ids_nodup ha hb h

theorem Graph.node_of_mem {node : Node} (h : node ∈ graph.nodes) :
    graph.node node.id = some node := by
  cases hn : graph.node node.id with
  | none => exact absurd rfl (lookupLast_eq_none_iff.mp hn node h)
  | some other =>
    obtain ⟨hmem, hid⟩ := Graph.node_eq_some hn
    rw [Graph.node_unique hmem h hid]

end Leitir.Bts
