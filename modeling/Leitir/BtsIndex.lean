import Leitir.BtsEvidence
import Mathlib.Data.List.AList
import Mathlib.Data.List.Dedup

namespace Leitir.Bts

open KeyedList

def graphSchemaVersion : String := "leitir-bts-graph-v1"

def btsSchemaVersion : String := "leitir-bts-v1"

def btsResolverVersion : String := "leitir-bts-walk-v2"

def runtimeKinds : List EdgeKind := [.calls, .instantiates, .reads, .inherits, .raises]

def seedKinds : List NodeKind := [.function, .asyncFunction, .method, .asyncMethod]

def definitionKinds : List NodeKind := [.classNode, .function, .asyncFunction, .method, .asyncMethod]

/-- The hash functions and the digests of canonical values. -/
structure Digests where
  sha1 : Bytes → Text
  sha256 : Bytes → Text
  graph : Graph → Text
  policy : ResolutionPolicy → Text
  report : Report → Text
  equivalence : TransplantSet → Text
  primary : Report → TransplantSet → Text

/-- The identity of a donor and the regular files below its source root. -/
structure Snapshot where
  slug : Text
  commitSha : Text
  materializedTreeHash : Text
  materializedTreeHashAlgorithm : Text
  readRegularFile : Text → Option Bytes

structure Inputs where
  snapshot : Snapshot
  seed : NodeId
  graph : Graph
  budget : Budget
  policy : ResolutionPolicy
  digests : Digests

structure Failure where
  reason : RejectReason
  detailCode : Option Text

def mismatch (detail : String) : Failure := ⟨.provenanceMismatch, some detail.toList⟩

def splitLinesKeep : Bytes → Bytes → List Bytes
  | [], line => if line = [] then [] else [line.reverse]
  | [ch], line => [(ch :: line).reverse]
  | ch :: next :: rest, line =>
    if ch = 13 ∧ next = 10 then (next :: ch :: line).reverse :: splitLinesKeep rest []
    else if ch = 10 ∨ ch = 13 then (ch :: line).reverse :: splitLinesKeep (next :: rest) []
    else splitLinesKeep (next :: rest) (ch :: line)

def sourceLines (data : Bytes) : List Bytes :=
  let lines := splitLinesKeep data []
  let lines := if lines = [] then [[]] else lines
  if data.getLast? = some 10 ∨ data.getLast? = some 13 then lines ++ [[]] else lines

def sourceSpan (data : Bytes) (source : SourceRef) : Option Bytes :=
  let lines := sourceLines data
  match lines[source.startLine - 1]?, lines[source.endLine - 1]? with
  | some startLine, some endLine =>
    if source.startCol > startLine.length ∨ source.endCol > endLine.length then none
    else
      let start := (lines.take (source.startLine - 1)).flatten.length + source.startCol
      let stop := (lines.take (source.endLine - 1)).flatten.length + source.endCol
      if stop < start then none else some ((data.take stop).drop start)
  | _, _ => none

def isHex (ch : Char) : Bool := '0' ≤ ch && ch ≤ '9' || 'a' ≤ ch && ch ≤ 'f'

def isBlobSha (text : Text) : Bool := text.length = 40 && text.all isHex

def gitBlobSha (digests : Digests) (data : Bytes) : Text :=
  digests.sha1 (literal "blob " ++ Text.code (Nat.toDigits 10 data.length) ++ 0 :: data)

def verifiedSourceDigest (digests : Digests) (snapshot : Snapshot) (source : SourceRef) :
    Except Failure Text :=
  if source.slug ≠ snapshot.slug ∨ source.commitSha ≠ snapshot.commitSha then
    .error (mismatch "bts_graph_snapshot_identity_v1")
  else if ¬ isBlobSha source.blobSha then .error (mismatch "bts_blob_sha_format_v1")
  else
    match snapshot.readRegularFile source.path with
    | none => .error (mismatch "bts_source_read_v1")
    | some data =>
      if gitBlobSha digests data ≠ source.blobSha then .error (mismatch "bts_blob_sha_mismatch_v1")
      else
        match sourceSpan data source with
        | none => .error (mismatch "bts_source_span_v1")
        | some span => .ok ("sha256:".toList ++ digests.sha256 span)

def lineUnion (sources : List SourceRef) : List (Text × Nat) :=
  (sources.flatMap fun source =>
    (List.range' source.startLine (source.endLine + 1 - source.startLine)).map fun line =>
      (source.path, line)).dedup

def pathCount (members : List MemberEvidence) : Nat :=
  (members.map fun member => member.source.path).dedup.length

def memberLines (members : List MemberEvidence) : Nat :=
  (lineUnion (members.map MemberEvidence.source)).length

def totalDonorLines (graph : Graph) : Nat :=
  (lineUnion (graph.coverage.files.filter fun source => ".py".toList <:+ source.path)).length

def beforeLastDot : Text → Text
  | [] => []
  | ch :: rest => if '.' ∈ rest then ch :: beforeLastDot rest else []

def enclosingLoop : Nat → Text → List Text
  | 0, _ => []
  | fuel + 1, outer => if outer = [] then [] else outer :: enclosingLoop fuel (beforeLastDot outer)

def enclosingNames (name : Text) : List Text := enclosingLoop name.length (beforeLastDot name)

def lexicalKey (node : Node) : NodeOrigin × Text × Text :=
  (node.id.origin, node.id.moduleName, node.id.qualifiedName)

def SourceRef.Within (inner outer : SourceRef) : Prop :=
  inner.slug = outer.slug ∧ inner.commitSha = outer.commitSha ∧ inner.path = outer.path ∧
    inner.blobSha = outer.blobSha ∧
    positionLe outer.startLine outer.startCol inner.startLine inner.startCol ∧
    positionLe inner.endLine inner.endCol outer.endLine outer.endCol

instance (inner outer : SourceRef) : Decidable (inner.Within outer) := inferInstanceAs (Decidable (_ ∧ _))

/-- The definition that the lexical index finds around a node under an enclosing name. -/
def enclosingOwner (graph : Graph) (node : Node) (ref : SourceRef) (name : Text) : Option NodeId :=
  match lookupLast lexicalKey graph.nodes (node.id.origin, node.id.moduleName, name) with
  | none => none
  | some parent =>
    match parent.source with
    | none => none
    | some outer =>
      if parent.id.kind ∈ definitionKinds ∧ ref.Within outer then some parent.id else none

def lexicalOwners (graph : Graph) (node : Node) : List NodeId :=
  match node.source with
  | none => []
  | some ref => (enclosingNames node.id.qualifiedName).filterMap (enclosingOwner graph node ref)

def nestedOwners (graph : Graph) (owner : NodeId) : List NodeId :=
  graph.nodes.flatMap fun node =>
    ((lexicalOwners graph node).filter fun parent => parent = owner).map fun _ => node.id

def nestedKey (node : NodeId) : Key :=
  [literal node.origin.value, Text.code node.moduleName, Text.code node.qualifiedName,
    literal node.kind.value, Text.code node.locationKey]

def outgoing (graph : Graph) (owner : NodeId) : List Edge :=
  graph.edges.filter fun edge => edge.kind ∈ runtimeKinds ∧ edge.source = owner

def importEdges (graph : Graph) : List Edge := graph.edges.filter fun edge => edge.kind = .imports

def unresolvedBySource (graph : Graph) (owner : NodeId) : List UnresolvedEdge :=
  graph.unresolved.filter fun edge =>
    (edge.kind ∈ runtimeKinds ∨ edge.kind = .imports) ∧ edge.source = owner

def classify (policy : ResolutionPolicy) (target : NodeId) (edge : Option Edge) : DispositionEvidence :=
  match lookupLast DispositionRule.source policy.rules target with
  | some rule =>
    match rule.payload with
    | .rejectRule reason detail =>
      ⟨edge, target, rule.disposition, some rule.ruleId, some reason, some detail,
        some rule.evidenceDigest, some rule.payload⟩
    | _ =>
      ⟨edge, target, rule.disposition, some rule.ruleId, none, none, some rule.evidenceDigest,
        some rule.payload⟩
  | none =>
    if target.origin = .donor then ⟨edge, target, .includeSource, none, none, none, none, none⟩
    else if target.origin = .stdlib ∧
        ⟨target.moduleName, target.qualifiedName⟩ ∈ policy.stdlibIdentity.allowlistEntries then
      ⟨edge, target, .external, none, none, none, none, none⟩
    else
      ⟨edge, target, .reject, none, some .unresolvedEdge, some "no_exact_disposition_v1".toList,
        none, none⟩

end Leitir.Bts
