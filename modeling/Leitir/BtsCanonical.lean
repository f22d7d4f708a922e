import Leitir.BtsClosure
import Leitir.BtsReload
import Leitir.ExceptRun

namespace Leitir.Bts

open KeyedList Json List

/-- The error of a rejected operation, with its evidence. -/
structure BtsError where
  reason : RejectReason
  message : String
  detailCode : Option String
deriving DecidableEq, Repr

def extractionBlockerKey (blocker : ExtractionBlocker) : Key :=
  [Text.code blocker.path, [blocker.startLine], [blocker.startCol], [blocker.endLine], [blocker.endCol],
    Text.code blocker.astKind, Text.code blocker.resolutionRule, literal blocker.reason.value,
    Text.code blocker.detailCode]

/-- A graph with the blockers of its coverage. -/
structure CoveredGraph where
  graph : Graph
  blockers : List ExtractionBlocker
  blockers_sorted : blockers.Pairwise fun a b => extractionBlockerKey a < extractionBlockerKey b

/-- What the constructor of a coverage is called with. -/
structure CoverageParts where
  files : List SourceRef
  parsedFiles : List SourceRef
  blockers : List ExtractionBlocker

structure GraphParts where
  schemaVersion : String
  nodes : List Node
  edges : List Edge
  unresolved : List UnresolvedEdge
  coverage : CoverageParts

def duplicateError (recordType : String) : BtsError :=
  ⟨.duplicateResult, "duplicate " ++ recordType, some ("record_type=" ++ recordType)⟩

abbrev KeyOrdered {α : Type} (key : α → Key) := {items : List α // items.Pairwise fun a b => key a < key b}

theorem pairwise_lt_of_chain {α : Type} {key : α → Key} {items : List α} (hle : items.Pairwise fun a b => key a ≤ key b)
    (hne : items.IsChain fun a b => key a ≠ key b) : items.Pairwise fun a b => key a < key b := by
  have : IsTrans α fun a b => key a < key b := ⟨fun _ _ _ h h' => lt_trans h h'⟩
  refine isChain_iff_pairwise.mp ?_
  induction items with
  | nil => exact .nil
  | cons a rest ih =>
    cases rest with
    | nil => exact .singleton a
    | cons b rest =>
      rw [isChain_cons_cons] at hne ⊢
      have hab : key a ≤ key b := (pairwise_cons.mp hle).1 b mem_cons_self
      exact ⟨lt_of_le_of_ne hab hne.1, ih (pairwise_cons.mp hle).2 hne.2⟩

def sortUnique {α : Type} (key : α → Key) (recordType : String) (items : List α) : Except BtsError (KeyOrdered key) :=
  if h : (sortBy key items).IsChain fun a b => key a ≠ key b then
    .ok ⟨sortBy key items, pairwise_lt_of_chain (pairwise_sortBy key items) h⟩
  else .error (duplicateError recordType)

abbrev OrderedNodes :=
  {nodes : List Node // (nodes.Pairwise fun a b => nodeKey a ≤ nodeKey b) ∧ (nodeIds nodes).Nodup}

def orderNodes (nodes : List Node) : Except BtsError OrderedNodes :=
  if h : (nodeIds (sortBy nodeKey nodes)).Nodup then .ok ⟨sortBy nodeKey nodes, pairwise_sortBy nodeKey nodes, h⟩
  else .error (duplicateError "node id")

/-- The edges are attached to the nodes; the first one that finds no node is reported. -/
def attach (nodes : OrderedNodes) (edges : KeyOrdered edgeKey) (unresolved : KeyOrdered unresolvedKey)
    (files parsedFiles : KeyOrdered sourceKey) (blockers : KeyOrdered extractionBlockerKey) : Except BtsError CoveredGraph :=
  match hedges : edges.val.find? fun edge => edge.source ∉ nodeIds nodes.val ∨ edge.target ∉ nodeIds nodes.val with
  | some edge =>
    .error ⟨.unresolvedEdge, "edge has a dangling endpoint", some ("edge_kind=" ++ edge.kind.value)⟩
  | none =>
    match hunresolved : unresolved.val.find? fun edge => edge.source ∉ nodeIds nodes.val with
    | some edge =>
      .error ⟨.unresolvedEdge, "unresolved edge has a dangling source", some ("edge_kind=" ++ edge.kind.value)⟩
    | none =>
      .ok {
        graph := {
          nodes := nodes.val
          edges := edges.val
          unresolved := unresolved.val
          coverage := ⟨files.val, parsedFiles.val, files.property, parsedFiles.property⟩
          nodes_sorted := nodes.property.1
          ids_nodup := nodes.property.2
          edges_sorted := edges.property
          unresolved_sorted := unresolved.property
          edge_endpoints := fun edge hedge => by simpa using List.find?_eq_none.mp hedges edge hedge
          unresolved_source := fun edge hedge => by simpa using List.find?_eq_none.mp hunresolved edge hedge }
        blockers := blockers.val
        blockers_sorted := blockers.property }

/-- The constructors of a coverage and of its graph. -/
def buildGraph (parts : GraphParts) : Except BtsError CoveredGraph := do
  let files ← sortUnique sourceKey "coverage file" parts.coverage.files
  let parsedFiles ← sortUnique sourceKey "parsed coverage file" parts.coverage.parsedFiles
  let blockers ← sortUnique extractionBlockerKey "extraction blocker" parts.coverage.blockers
  if parts.schemaVersion ≠ graphSchemaVersion then
    .error ⟨.unresolvedEdge, "unsupported graph schema_version",
      some ("schema_version=" ++ parts.schemaVersion)⟩
  else
    let nodes ← orderNodes parts.nodes
    let edges ← sortUnique edgeKey "edge" parts.edges
    let unresolved ← sortUnique unresolvedKey "unresolved edge" parts.unresolved
    attach nodes edges unresolved files parsedFiles blockers

def Node.Checked (node : Node) : Prop := node.extractionMethod ≠ []

instance : DecidablePred Node.Checked := fun _ => inferInstanceAs (Decidable (_ ≠ _))

def nodeShape : Shape Node :=
  recordShape ["id", "source", "extraction_method"]
    (fun node => [⟨"id", _, nodeIdShape, node.id⟩, ⟨"source", _, optionShape sourceRefShape, node.source⟩,
      ⟨"extraction_method", _, textShape, node.extractionMethod⟩])
    (fun fields => do
      let id ← field fields "id" nodeIdShape
      let source ← field fields "source" (optionShape sourceRefShape)
      let extractionMethod ← field fields "extraction_method" textShape
      (some ⟨id, source, extractionMethod⟩).filter fun node => node.Checked)

def coverageShape : Shape CoverageParts :=
  recordShape ["files", "parsed_files", "blockers"]
    (fun coverage => [⟨"files", _, tupleShape sourceRefShape, coverage.files⟩,
      ⟨"parsed_files", _, tupleShape sourceRefShape, coverage.parsedFiles⟩,
      ⟨"blockers", _, tupleShape blockerShape, coverage.blockers⟩])
    (fun fields => do
      let files ← field fields "files" (tupleShape sourceRefShape)
      let parsedFiles ← field fields "parsed_files" (tupleShape sourceRefShape)
      let blockers ← field fields "blockers" (tupleShape blockerShape)
      some ⟨files, parsedFiles, blockers⟩)

def graphShape : Shape GraphParts :=
  recordShape ["schema_version", "nodes", "edges", "unresolved", "coverage"]
    (fun parts => [⟨"schema_version", _, stringShape, parts.schemaVersion⟩, ⟨"nodes", _, tupleShape nodeShape, parts.nodes⟩,
      ⟨"edges", _, tupleShape edgeShape, parts.edges⟩, ⟨"unresolved", _, tupleShape unresolvedShape, parts.unresolved⟩,
      ⟨"coverage", _, coverageShape, parts.coverage⟩])
    (fun fields => do
      let schemaVersion ← field fields "schema_version" stringShape
      let nodes ← field fields "nodes" (tupleShape nodeShape)
      let edges ← field fields "edges" (tupleShape edgeShape)
      let unresolved ← field fields "unresolved" (tupleShape unresolvedShape)
      let coverage ← field fields "coverage" coverageShape
      some ⟨schemaVersion, nodes, edges, unresolved, coverage⟩)

def CoveredGraph.parts (saved : CoveredGraph) : GraphParts where
  schemaVersion := graphSchemaVersion
  nodes := saved.graph.nodes
  edges := saved.graph.edges
  unresolved := saved.graph.unresolved
  coverage := ⟨saved.graph.coverage.files, saved.graph.coverage.parsedFiles, saved.blockers⟩

def CoveredGraph.toDict (saved : CoveredGraph) : Value := graphShape.encode saved.parts

def savedText (value : Value) : Text := dumps value ++ ['\n']

def CoveredGraph.toJson (saved : CoveredGraph) : Text := savedText saved.toDict

def CoveredGraph.toBytes (saved : CoveredGraph) : Bytes := Utf8.encodeText saved.toJson

def invalidGraphJson : BtsError := ⟨.unresolvedEdge, "invalid graph JSON", none⟩

def graphFromDict (raw : Value) : Except BtsError CoveredGraph :=
  match graphShape.decode raw with
  | none => .error invalidGraphJson
  | some parts => buildGraph parts

def graphFromJson (value : Bytes) : Except BtsError CoveredGraph :=
  match (Utf8.decodeText value).bind loads with
  | none => .error invalidGraphJson
  | some raw => graphFromDict raw

section

variable {saved : CoveredGraph}

def Node.Built (node : Node) : Prop := node.Checked ∧ node.id.Checked ∧ ∀ source ∈ node.source, source.Checked

instance : DecidablePred Node.Built := fun _ => inferInstanceAs (Decidable (_ ∧ _))

/-- The parts of a graph, each let pass by its own constructor. -/
structure GraphParts.Built (parts : GraphParts) : Prop where
  nodes : ∀ node ∈ parts.nodes, node.Built
  edges : ∀ edge ∈ parts.edges, edge.Built
  unresolved : ∀ edge ∈ parts.unresolved, edge.Built
  files : ∀ file ∈ parts.coverage.files, file.Checked
  parsedFiles : ∀ file ∈ parts.coverage.parsedFiles, file.Checked
  blockers : ∀ blocker ∈ parts.coverage.blockers, blocker.Checked

/-- The same parts in another order. -/
structure GraphParts.Reordered (parts others : GraphParts) : Prop where
  schemaVersion : parts.schemaVersion = others.schemaVersion
  nodes : parts.nodes.Perm others.nodes
  edges : parts.edges.Perm others.edges
  unresolved : parts.unresolved.Perm others.unresolved
  files : parts.coverage.files.Perm others.coverage.files
  parsedFiles : parts.coverage.parsedFiles.Perm others.coverage.parsedFiles
  blockers : parts.coverage.blockers.Perm others.coverage.blockers

theorem GraphParts.Reordered.refl (parts : GraphParts) : parts.Reordered parts :=
  ⟨rfl, .refl _, .refl _, .refl _, .refl _, .refl _, .refl _⟩

theorem GraphParts.Reordered.trans {first second third : GraphParts} (h : first.Reordered second)
    (h' : second.Reordered third) : first.Reordered third where
  schemaVersion := h.schemaVersion.trans h'.schemaVersion
  nodes := h.nodes.trans h'.nodes
  edges := h.edges.trans h'.edges
  unresolved := h.unresolved.trans h'.unresolved
  files := h.files.trans h'.files
  parsedFiles := h.parsedFiles.trans h'.parsedFiles
  blockers := h.blockers.trans h'.blockers

variable {parts : GraphParts}

theorem GraphParts.Built.of_reordered {others : GraphParts} (h : others.Built) (hsame : parts.Reordered others) :
    parts.Built where
  nodes node hnode := h.nodes node (hsame.nodes.mem_iff.mp hnode)
  edges edge hedge := h.edges edge (hsame.edges.mem_iff.mp hedge)
  unresolved edge hedge := h.unresolved edge (hsame.unresolved.mem_iff.mp hedge)
  files file hfile := h.files file (hsame.files.mem_iff.mp hfile)
  parsedFiles file hfile := h.parsedFiles file (hsame.parsedFiles.mem_iff.mp hfile)
  blockers blocker hblocker := h.blockers blocker (hsame.blockers.mem_iff.mp hblocker)

theorem sortBy_of_perm {α : Type} {key : α → Key} {items ordered : List α} (hperm : items.Perm ordered)
    (hle : ordered.Pairwise fun a b => key a ≤ key b) (hinj : ∀ a ∈ items, ∀ b ∈ items, key a = key b → a = b) :
    sortBy key items = ordered := by
  rw [sortBy_congr hperm hinj]
  exact hle.insertionSort_eq

theorem key_inj_of_ordered {α : Type} {key : α → Key} {ordered : List α}
    (h : ordered.Pairwise fun a b => key a < key b) : ∀ a ∈ ordered, ∀ b ∈ ordered, key a = key b → a = b := by
  have hnodup : (ordered.map key).Nodup := pairwise_map.mpr (h.imp fun hlt => ne_of_lt hlt)
  intro a ha b hb heq
  exact inj_on_of_nodup_map hnodup ha hb heq

theorem sortUnique_of_perm {α : Type} {key : α → Key} {recordType : String} {items ordered : List α}
    (hperm : items.Perm ordered) (h : ordered.Pairwise fun a b => key a < key b) :
    sortUnique key recordType items = .ok ⟨ordered, h⟩ := by
  have hinj : ∀ a ∈ items, ∀ b ∈ items, key a = key b → a = b := by
    intro a ha b hb heq
    exact key_inj_of_ordered h a (hperm.mem_iff.mp ha) b (hperm.mem_iff.mp hb) heq
  have hsort : sortBy key items = ordered := sortBy_of_perm hperm (h.imp fun hlt => le_of_lt hlt) hinj
  have hchain : (sortBy key items).IsChain fun a b => key a ≠ key b := by
    rw [hsort]
    exact (h.imp fun hlt => ne_of_lt hlt).isChain
  unfold sortUnique
  rw [dif_pos hchain]
  exact congrArg Except.ok (Subtype.ext hsort)

theorem nodeKey_id {a b : Node} (h : nodeKey a = nodeKey b) : a.id = b.id := by
  simp only [nodeKey, append_assoc] at h
  exact nodeIdKey_injective (append_inj h (by simp)).1

theorem orderNodes_of_perm {nodes : List Node} (hperm : nodes.Perm saved.graph.nodes) :
    orderNodes nodes = .ok ⟨saved.graph.nodes, saved.graph.nodes_sorted, saved.graph.ids_nodup⟩ := by
  have hsort : sortBy nodeKey nodes = saved.graph.nodes := by
    refine sortBy_of_perm hperm saved.graph.nodes_sorted ?_
    intro a ha b hb heq
    exact Graph.node_unique (hperm.mem_iff.mp ha) (hperm.mem_iff.mp hb) (nodeKey_id heq)
  have hnodup : (nodeIds (sortBy nodeKey nodes)).Nodup := by
    rw [hsort]
    exact saved.graph.ids_nodup
  unfold orderNodes
  rw [dif_pos hnodup]
  exact congrArg Except.ok (Subtype.ext hsort)

theorem attach_saved (saved : CoveredGraph) :
    attach ⟨saved.graph.nodes, saved.graph.nodes_sorted, saved.graph.ids_nodup⟩
      ⟨saved.graph.edges, saved.graph.edges_sorted⟩ ⟨saved.graph.unresolved, saved.graph.unresolved_sorted⟩
      ⟨saved.graph.coverage.files, saved.graph.coverage.files_sorted⟩
      ⟨saved.graph.coverage.parsedFiles, saved.graph.coverage.parsedFiles_sorted⟩
      ⟨saved.blockers, saved.blockers_sorted⟩ = .ok saved := by
  unfold attach
  split
  next edge hedge =>
    have hmem := saved.graph.edge_endpoints edge (mem_of_find?_eq_some hedge)
    have hdangling := find?_some hedge
    simp [hmem] at hdangling
  next =>
    split
    next edge hedge =>
      have hmem := saved.graph.unresolved_source edge (mem_of_find?_eq_some hedge)
      have hdangling := find?_some hedge
      simp [hmem] at hdangling
    next => rfl

theorem buildGraph_of_reordered (h : parts.Reordered saved.parts) : buildGraph parts = .ok saved := by
  unfold buildGraph
  rw [sortUnique_of_perm h.files saved.graph.coverage.files_sorted,
    sortUnique_of_perm h.parsedFiles saved.graph.coverage.parsedFiles_sorted,
    sortUnique_of_perm h.blockers saved.blockers_sorted, orderNodes_of_perm h.nodes,
    sortUnique_of_perm h.edges saved.graph.edges_sorted, sortUnique_of_perm h.unresolved saved.graph.unresolved_sorted]
  have hversion : parts.schemaVersion = graphSchemaVersion := h.schemaVersion
  exact (if_neg (not_not_intro hversion)).trans (attach_saved saved)

theorem nodeShape_restores {node : Node} (h : node.Built) : nodeShape.Restores node := by
  obtain ⟨hchecked, hid, hsource⟩ := h
  have hopt : (optionShape sourceRefShape).Restores node.source :=
    optionShape_restores sourceRefShape_null fun ref href => sourceRefShape_restores (hsource ref href)
  refine recordShape_restores rfl (by decide) ?_ ?_
  · simp [nodeIdShape_restores hid, hopt, textShape_restores]
  · simp +contextual [hchecked]

theorem coverageShape_restores (h : parts.Built) : coverageShape.Restores parts.coverage := by
  have hfiles : (tupleShape sourceRefShape).Restores parts.coverage.files :=
    tupleShape_restores fun file hfile => sourceRefShape_restores (h.files file hfile)
  have hparsed : (tupleShape sourceRefShape).Restores parts.coverage.parsedFiles :=
    tupleShape_restores fun file hfile => sourceRefShape_restores (h.parsedFiles file hfile)
  have hblockers : (tupleShape blockerShape).Restores parts.coverage.blockers :=
    tupleShape_restores fun blocker hblocker => blockerShape_restores (h.blockers blocker hblocker)
  refine recordShape_restores rfl (by decide) ?_ ?_
  · simp [hfiles, hparsed, hblockers]
  · simp +contextual

theorem graphShape_restores (h : parts.Built) : graphShape.Restores parts := by
  have hnodes : (tupleShape nodeShape).Restores parts.nodes :=
    tupleShape_restores fun node hnode => nodeShape_restores (h.nodes node hnode)
  have hedges : (tupleShape edgeShape).Restores parts.edges :=
    tupleShape_restores fun edge hedge => edgeShape_restores (h.edges edge hedge)
  have hunresolved : (tupleShape unresolvedShape).Restores parts.unresolved :=
    tupleShape_restores fun edge hedge => unresolvedShape_restores (h.unresolved edge hedge)
  refine recordShape_restores rfl (by decide) ?_ ?_
  · simp [stringShape_restores, hnodes, hedges, hunresolved, coverageShape_restores h]
  · simp +contextual

end

section

theorem sourceRefShape_rigid (source : SourceRef) : Rigid (sourceRefShape.encode source) :=
  recordShape_rigid (by simp [textShape_rigid, natShape_rigid])

theorem nodeIdShape_rigid (node : NodeId) : Rigid (nodeIdShape.encode node) :=
  recordShape_rigid (by simp [textShape_rigid, originShape, kindShape, enumShape_rigid])

theorem nodeShape_rigid (node : Node) : Rigid (nodeShape.encode node) :=
  recordShape_rigid (by simp [nodeIdShape_rigid, optionShape_rigid sourceRefShape_rigid, textShape_rigid])

theorem provenanceShape_rigid (provenance : EdgeProvenance) : Rigid (provenanceShape.encode provenance) :=
  recordShape_rigid (by
    simp [sourceRefShape_rigid, optionShape_rigid sourceRefShape_rigid, textShape_rigid, boolShape_rigid])

theorem edgeShape_rigid (edge : Edge) : Rigid (edgeShape.encode edge) :=
  recordShape_rigid (by simp [edgeKindShape, enumShape_rigid, nodeIdShape_rigid, provenanceShape_rigid])

theorem unresolvedShape_rigid (edge : UnresolvedEdge) : Rigid (unresolvedShape.encode edge) :=
  recordShape_rigid (by
    simp [edgeKindShape, reasonShape, enumShape_rigid, nodeIdShape_rigid, provenanceShape_rigid, textShape_rigid])

theorem blockerShape_rigid (blocker : ExtractionBlocker) : Rigid (blockerShape.encode blocker) :=
  recordShape_rigid (by simp [textShape_rigid, natShape_rigid, reasonShape, enumShape_rigid])

variable {value : Value} {parts : GraphParts}

/-- One of the three arrays of a coverage is permuted. -/
theorem coverage_rearranged {coverage : CoverageParts}
    (h : Rearranged (coverageShape.encode coverage) value) :
    ∃ coverage' : CoverageParts, coverage'.files.Perm coverage.files ∧
      coverage'.parsedFiles.Perm coverage.parsedFiles ∧ coverage'.blockers.Perm coverage.blockers ∧
      value = coverageShape.encode coverage' := by
  obtain ⟨before, slot, after, other, hslots, hstep, rfl⟩ := recordShape_rearranged h
  rcases cons_eq_append_iff.mp hslots with ⟨rfl, hhead⟩ | ⟨before, rfl, htail⟩
  · cases hhead
    obtain ⟨files, hperm, rfl⟩ := tupleShape_rearranged sourceRefShape_rigid hstep
    exact ⟨{ coverage with files := files }, hperm, .refl _, .refl _, rfl⟩
  rcases cons_eq_append_iff.mp htail with ⟨rfl, hhead⟩ | ⟨before, rfl, htail₂⟩
  · cases hhead
    obtain ⟨parsedFiles, hperm, rfl⟩ := tupleShape_rearranged sourceRefShape_rigid hstep
    exact ⟨{ coverage with parsedFiles := parsedFiles }, .refl _, hperm, .refl _, rfl⟩
  rcases cons_eq_append_iff.mp htail₂ with ⟨rfl, hhead⟩ | ⟨before, rfl, htail₃⟩
  · cases hhead
    obtain ⟨blockers, hperm, rfl⟩ := tupleShape_rearranged blockerShape_rigid hstep
    exact ⟨{ coverage with blockers := blockers }, .refl _, .refl _, hperm, rfl⟩
  · simp at htail₃

/-- One array of the document of a graph is permuted. -/
theorem graph_rearranged (h : Rearranged (graphShape.encode parts) value) :
    ∃ parts' : GraphParts, parts'.Reordered parts ∧ value = graphShape.encode parts' := by
  have hrefl := GraphParts.Reordered.refl parts
  obtain ⟨before, slot, after, other, hslots, hstep, rfl⟩ := recordShape_rearranged h
  rcases cons_eq_append_iff.mp hslots with ⟨rfl, hhead⟩ | ⟨before, rfl, htail⟩
  · cases hhead
    exact absurd hstep (rigid_str _ _)
  rcases cons_eq_append_iff.mp htail with ⟨rfl, hhead⟩ | ⟨before, rfl, htail₂⟩
  · cases hhead
    obtain ⟨nodes, hperm, rfl⟩ := tupleShape_rearranged nodeShape_rigid hstep
    exact ⟨{ parts with nodes := nodes }, { hrefl with nodes := hperm }, rfl⟩
  rcases cons_eq_append_iff.mp htail₂ with ⟨rfl, hhead⟩ | ⟨before, rfl, htail₃⟩
  · cases hhead
    obtain ⟨edges, hperm, rfl⟩ := tupleShape_rearranged edgeShape_rigid hstep
    exact ⟨{ parts with edges := edges }, { hrefl with edges := hperm }, rfl⟩
  rcases cons_eq_append_iff.mp htail₃ with ⟨rfl, hhead⟩ | ⟨before, rfl, htail₄⟩
  · cases hhead
    obtain ⟨unresolved, hperm, rfl⟩ := tupleShape_rearranged unresolvedShape_rigid hstep
    exact ⟨{ parts with unresolved := unresolved }, { hrefl with unresolved := hperm }, rfl⟩
  rcases cons_eq_append_iff.mp htail₄ with ⟨rfl, hhead⟩ | ⟨before, rfl, htail₅⟩
  · cases hhead
    obtain ⟨coverage, hfiles, hparsed, hblockers, rfl⟩ := coverage_rearranged hstep
    exact ⟨{ parts with coverage := coverage },
      { hrefl with files := hfiles, parsedFiles := hparsed, blockers := hblockers }, rfl⟩
  · simp at htail₅

theorem graph_rearranged_many
    (h : Relation.ReflTransGen Rearranged (graphShape.encode parts) value) :
    ∃ parts' : GraphParts, parts'.Reordered parts ∧ value = graphShape.encode parts' := by
  induction h with
  | refl => exact ⟨parts, .refl parts, rfl⟩
  | tail _ hstep ih =>
    obtain ⟨middle, hmiddle, rfl⟩ := ih
    obtain ⟨parts', hparts', rfl⟩ := graph_rearranged hstep
    exact ⟨parts', hparts'.trans hmiddle, rfl⟩

theorem graphFromJson_encode (h : parts.Built) :
    graphFromJson (Utf8.encodeText (savedText (graphShape.encode parts))) = buildGraph parts := by
  have hshape : graphShape.Restores parts := graphShape_restores h
  have hraw : loads (savedText (graphShape.encode parts)) = some (sortKeys (graphShape.encode parts)) :=
    loads_dumps hshape.plain (Or.inr rfl)
  unfold graphFromJson
  rw [Utf8.decodeText_encodeText, Option.bind_some, hraw]
  change graphFromDict _ = _
  unfold graphFromDict
  rw [hshape.decode]

/-- A graph is read back from its document with the arrays in any order, and is then saved as the same bytes. -/
theorem graph_canonical (saved : CoveredGraph) (hbuilt : saved.parts.Built) (value : Value)
    (h : Relation.ReflTransGen Rearranged saved.toDict value) :
    ∃ restored, graphFromJson (Utf8.encodeText (savedText value)) = .ok restored ∧ restored = saved ∧
      restored.toBytes = saved.toBytes := by
  obtain ⟨parts, hparts, rfl⟩ := graph_rearranged_many h
  refine ⟨saved, ?_, rfl, rfl⟩
  rw [graphFromJson_encode (hbuilt.of_reordered hparts)]
  exact buildGraph_of_reordered hparts

def savedTwice : CoveredGraph := ⟨definedTwice, [], .nil⟩

theorem savedTwice_built : savedTwice.parts.Built where
  nodes := by decide +kernel
  edges := by decide +kernel
  unresolved := by decide +kernel
  files := by decide +kernel
  parsedFiles := by decide +kernel
  blockers := by decide +kernel

def reversedNodes : GraphParts := { savedTwice.parts with nodes := savedTwice.parts.nodes.reverse }

theorem graph_canonical_sample :
    ∃ restored, graphFromJson (Utf8.encodeText (savedText (graphShape.encode reversedNodes))) = .ok restored ∧
      restored = savedTwice ∧ restored.toBytes = savedTwice.toBytes := by
  refine graph_canonical savedTwice savedTwice_built _ (.single ?_)
  exact @Rearranged.entry [("schema_version", _)] _ "nodes" _ _
    (.perm ((reverse_perm savedTwice.parts.nodes).symm.map nodeShape.encode))

end

end Leitir.Bts
