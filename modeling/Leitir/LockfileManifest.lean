import Leitir.ExceptRun
import Leitir.LockfileLines

namespace Leitir.Lock

open Json (Text)
open License (Toml Bytes sha isDigest)
open ExceptRun

/-- Bytes of a file, with what a manifest says of them. -/
structure VerifiedManifestBytes where
  path : Text
  role : Text
  byteLength : Nat
  sha256 : Text
  content : Bytes
deriving DecidableEq

structure DependencyManifestPolicy where
  requiredSources : List Text
  optionalSources : List Text
deriving DecidableEq

def DependencyManifestPolicy.declared (policy : DependencyManifestPolicy) : List Text :=
  policy.requiredSources ++ policy.optionalSources

structure ManifestDependencyDiagnostic where
  path : Text
  kind : DiagnosticKind
  record : Text
  detailCode : Text
deriving DecidableEq

def ManifestDependencyDiagnostic.key (item : ManifestDependencyDiagnostic) : KeyedList.Key :=
  [code item.path, code item.kind.value, code item.record, code item.detailCode]

structure SourceMetadata where
  ecosystem : Text
  parserId : Text
  parserVersion : Text
  graph : Text
deriving DecidableEq

structure ManifestDependencySource extends SourceMetadata where
  path : Text
  sourceDigest : Text
  deps : List DependencyEdge
  attemptedRecords : Nat
  parsedRecords : Nat
  diagnostics : List ManifestDependencyDiagnostic
deriving DecidableEq

structure ManifestDependencyResult where
  sources : List ManifestDependencySource
  diagnostics : List ManifestDependencyDiagnostic
deriving DecidableEq

def cargoLock : Text := "Cargo.lock".toList

def goMod : Text := "go.mod".toList

def packageLock : Text := "package-lock.json".toList

def pyprojectToml : Text := "pyproject.toml".toList

def requirementsTxt : Text := "requirements.txt".toList

/-- The sources that are read. The graph of a Go module is spelled unlike the others. -/
def manifestSourceNames : List (Text × SourceMetadata) :=
  [(cargoLock, ⟨crates, "leitir-cargo-lock".toList, ['1'], "complete".toList⟩),
    (goMod, ⟨go, "leitir-go-mod".toList, ['2'], "direct-only".toList⟩),
    (packageLock, ⟨npm, "leitir-package-lock".toList, ['1'], "complete".toList⟩),
    (pyprojectToml, ⟨pypi, "leitir-pyproject".toList, ['1'], "direct_only".toList⟩),
    (requirementsTxt, ⟨pypi, "leitir-requirements".toList, ['1'], "direct_only".toList⟩)]

def pathParts (path : Text) : List Text := (path.splitOn '/').filter fun part => part ≠ [] && part ≠ ['.']

def pathName (path : Text) : Text := (pathParts path).getLastD []

def asPosix (path : Text) : Text := if pathParts path = [] then ['.'] else ['/'].intercalate (pathParts path)

def manifestSourceMetadata (path : Text) : Option SourceMetadata := manifestSourceNames.lookup (pathName path)

def validManifestPath (path : Text) : Bool :=
  path ≠ [] && !path.contains '\\' && path.head? ≠ some '/' && path[1]? ≠ some ':' && asPosix path = path &&
    !(pathParts path).contains ['.', '.']

section

def manifestDiagnostic (path : Text) (kind : DiagnosticKind) (record : Text) (sourceFailure : Bool) :
    ManifestDependencyDiagnostic :=
  let detail :=
    match kind, sourceFailure with
    | .absent, _ => "recipient_manifest_source_absent_v1"
    | _, true => "dependency_source_parse_failed_v1"
    | .malformed, false => "dependency_record_malformed_v1"
    | .skipped, false => "dependency_record_omitted_v1"
    | .unsupported, false => "dependency_record_unsupported_v1"
  ⟨path, kind, record, detail.toList⟩

def wholeSource : Text := "<source>".toList

/-- What a parser has read of a source. -/
structure Reading where
  deps : List DependencyEdge
  attempted : Nat
  parsed : Nat
  diagnostics : List (Text × DiagnosticKind)

def Scan.closure (scan : Scan) : Reading := ⟨ordered scan.edges, scan.attempted, scan.parsed, scan.diagnostics⟩

def Scan.lines (scan : Scan) : Reading :=
  ⟨ordered scan.edges, scan.edges.length + scan.diagnostics.length, scan.edges.length, scan.diagnostics⟩

def Scan.unique (scan : Scan) : Reading :=
  ⟨ordered scan.edges, (ordered scan.edges).length + scan.diagnostics.length, (ordered scan.edges).length,
    scan.diagnostics⟩

variable (tomlLoads : Text → Option (List (Text × Toml)))

/-- The reading of a source by the name of its file; `none` where the source as a whole cannot be read. -/
def readSource (name text : Text) : Option Reading :=
  if name = packageLock then ((Json.plainLoads text).bind npmClosureFromPayload).map Scan.closure
  else if name = cargoLock then ((tomlLoads text).bind cargoClosureFromPayload).map Scan.closure
  else if name = goMod then some (goRequirements text).lines
  else if name = requirementsTxt then some (pythonEdges text).lines
  else if name = pyprojectToml then ((tomlLoads text).bind manifestPythonPyproject).map Scan.unique
  else some Scan.start.lines

def sortDiagnostics (items : List ManifestDependencyDiagnostic) : List ManifestDependencyDiagnostic :=
  KeyedList.sortBy ManifestDependencyDiagnostic.key items

inductive ManifestError
  | typeOrValue (message : String)
  | provenance (message : String)
deriving DecidableEq

def parseManifestSource (file : VerifiedManifestBytes) : Except ManifestError ManifestDependencySource :=
  match manifestSourceMetadata file.path with
  | none => .error (.typeOrValue "unsupported dependency manifest source")
  | some metadata =>
    match (Utf8.decodeText file.content).bind (readSource tomlLoads (pathName file.path)) with
    | none => .ok { metadata with
        path := file.path
        sourceDigest := file.sha256
        deps := []
        attemptedRecords := 0
        parsedRecords := 0
        diagnostics := [manifestDiagnostic file.path .malformed wholeSource true] }
    | some reading => .ok { metadata with
        path := file.path
        sourceDigest := file.sha256
        deps := reading.deps
        attemptedRecords := reading.attempted
        parsedRecords := reading.parsed
        diagnostics := sortDiagnostics (reading.diagnostics.map fun item => manifestDiagnostic file.path item.2 item.1 false) }

end

section

variable (tomlLoads : Text → Option (List (Text × Toml)))

def checkFiles : List VerifiedManifestBytes → List Text → Except ManifestError Unit
  | [], _ => .ok ()
  | file :: rest, seen =>
    if ¬ validManifestPath file.path then .error (.typeOrValue "invalid verified manifest bytes")
    else if file.path ∈ seen then .error (.provenance "recipient manifest contains duplicate paths")
    else if file.byteLength ≠ file.content.length ∨ file.sha256 ≠ sha file.content then
      .error (.provenance ("recipient manifest bytes do not match " ++ String.ofList file.path))
    else checkFiles rest (file.path :: seen)

def sortTexts (texts : List Text) : List Text := KeyedList.sortBy (fun text => [code text]) texts

/-- The declared sources in order: those that are there are read, the others are absent. -/
def readDeclared (files : List VerifiedManifestBytes) :
    List Text → Except ManifestError (List ManifestDependencySource × List ManifestDependencyDiagnostic)
  | [] => .ok ([], [])
  | path :: rest =>
    match files.find? fun file => file.path = path with
    | none => do
      let (sources, diagnostics) ← readDeclared files rest
      pure (sources, manifestDiagnostic path .absent wholeSource false :: diagnostics)
    | some file => do
      let source ← parseManifestSource tomlLoads file
      let (sources, diagnostics) ← readDeclared files rest
      pure (source :: sources, source.diagnostics ++ diagnostics)

def undeclared (policy : DependencyManifestPolicy) (path : Text) : Bool :=
  (manifestSourceMetadata path).isSome && !policy.declared.contains path

def dependencyClosuresFromManifest (files : List VerifiedManifestBytes) (policy : DependencyManifestPolicy) :
    Except ManifestError ManifestDependencyResult :=
  if ¬ (policy.declared.Nodup ∧
      ∀ path ∈ policy.declared, (manifestSourceMetadata path).isSome = true ∧ validManifestPath path = true) then
    .error (.typeOrValue "dependency manifest policy has invalid or duplicate sources")
  else do
    checkFiles files []
    let skipped := ((sortTexts (files.map VerifiedManifestBytes.path)).filter (undeclared policy)).map fun path =>
      manifestDiagnostic path .skipped wholeSource false
    let (sources, diagnostics) ← readDeclared tomlLoads files (sortTexts policy.declared)
    pure ⟨KeyedList.sortBy (fun source => [code source.path]) sources, sortDiagnostics (skipped ++ diagnostics)⟩

end

end Leitir.Lock
