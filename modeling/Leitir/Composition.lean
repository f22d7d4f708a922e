import Leitir.LockfileManifest
import Leitir.TupleOrder

namespace Leitir.Composition

open Json (Text Value)
open License (Toml Bytes sha isDigest canonicalBytes)
open Lock (DependencyEdge VerifiedManifestBytes DependencyManifestPolicy ManifestDependencySource code
  dependencyClosuresFromManifest sortTexts)
open TupleOrder (Part Tuple ordered orderedAll)

inductive ClosureCompleteness
  | complete | directOnly | unknown
deriving DecidableEq

def ClosureCompleteness.value : ClosureCompleteness → Text
  | .complete => "complete".toList
  | .directOnly => "direct_only".toList
  | .unknown => "unknown".toList

def closureCompleteness (graph : Text) : Option ClosureCompleteness :=
  [ClosureCompleteness.complete, .directOnly, .unknown].find? fun item => item.value = graph

inductive CompatibilityStatus
  | compatible | incompatible | unknown
deriving DecidableEq

def CompatibilityStatus.value : CompatibilityStatus → Text
  | .compatible => "compatible".toList
  | .incompatible => "incompatible".toList
  | .unknown => "unknown".toList

inductive CompositionEligibilityStatus
  | accept | reject | indeterminate
deriving DecidableEq

def CompositionEligibilityStatus.value : CompositionEligibilityStatus → Text
  | .accept => "accept".toList
  | .reject => "reject".toList
  | .indeterminate => "indeterminate".toList

inductive ConflictKind
  | versionClash | blockingCallInAsyncPath | unknownAsyncExternalEffect | exactSeedBytesDuplicate | btsMemberSpanOverlap
  | dependencyDeclarationOverlap
deriving DecidableEq

def ConflictKind.value : ConflictKind → Text
  | .versionClash => "version_clash".toList
  | .blockingCallInAsyncPath => "blocking_call_in_async_path".toList
  | .unknownAsyncExternalEffect => "unknown_async_external_effect".toList
  | .exactSeedBytesDuplicate => "exact_seed_bytes_duplicate".toList
  | .btsMemberSpanOverlap => "bts_member_span_overlap".toList
  | .dependencyDeclarationOverlap => "dependency_declaration_overlap".toList

def ConflictKind.blocking : ConflictKind → Bool
  | .versionClash | .blockingCallInAsyncPath | .exactSeedBytesDuplicate => true
  | _ => false

structure CompositionCandidateRef where
  candidateKey : Tuple
  btsDigest : Text
  candidateManifestDigest : Text
  graphDigest : Text
deriving DecidableEq

structure CandidateDependencyEvidence where
  subject : CompositionCandidateRef
  ecosystem : Text
  name : Text
  version : Text
  resolvedSha : Option Text
  completeness : ClosureCompleteness
  sourcePath : Text
  sourceDigest : Text
deriving DecidableEq

def CandidateDependencyEvidence.identity (item : CandidateDependencyEvidence) : Text × Text := (item.ecosystem, item.name)

structure ConflictRecord where
  left : CompositionCandidateRef
  right : CompositionCandidateRef
  kind : ConflictKind
  status : CompatibilityStatus
  evidenceKey : Tuple
  evidenceDigest : Text
  detailCode : Text
deriving DecidableEq

structure ConflictMatrix where
  schemaVersion : Text
  recipientSubject : Text
  recipient : CompositionCandidateRef
  candidates : List CompositionCandidateRef
  dependencies : List CandidateDependencyEvidence
  architecture : List Value
  duplicates : List Value
  conflicts : List ConflictRecord
  policyDigest : Text
  matrixDigest : Text

structure CompositionEligibility where
  schemaVersion : Text
  matrixDigest : Text
  status : CompositionEligibilityStatus
  blockingConflictKeys : List Tuple
  unknownEvidenceKeys : List Tuple
  detailCode : Option Text
  eligibilityDigest : Text
deriving DecidableEq

/-- What is raised: a failed gate, or the type error of two values without an order. -/
inductive CompositionError
  | hardGate (message : String)
  | typeError
deriving DecidableEq

def partValue : Part → Value
  | .int value => .int value
  | .text text => .str text

def keyValue (key : Tuple) : Value := .arr (key.map partValue)

def refValue (subject : CompositionCandidateRef) : Value :=
  .obj [("candidate_key", keyValue subject.candidateKey), ("bts_digest", .str subject.btsDigest),
    ("candidate_manifest_digest", .str subject.candidateManifestDigest), ("graph_digest", .str subject.graphDigest)]

def optionValue (text : Option Text) : Value := text.elim .null .str

def dependencyValue (item : CandidateDependencyEvidence) : Value :=
  .obj [("subject", refValue item.subject), ("ecosystem", .str item.ecosystem), ("name", .str item.name),
    ("version", .str item.version), ("resolved_sha", optionValue item.resolvedSha),
    ("completeness", .str item.completeness.value), ("source_path", .str item.sourcePath),
    ("source_digest", .str item.sourceDigest)]

def conflictValue (item : ConflictRecord) : Value :=
  .obj [("left", refValue item.left), ("right", refValue item.right), ("kind", .str item.kind.value),
    ("status", .str item.status.value), ("evidence_key", keyValue item.evidenceKey),
    ("evidence_digest", .str item.evidenceDigest), ("detail_code", .str item.detailCode)]

/-- A matrix without its digest. -/
def matrixValue (matrix : ConflictMatrix) : Value :=
  .obj [("schema_version", .str matrix.schemaVersion), ("recipient_subject", .str matrix.recipientSubject),
    ("recipient", refValue matrix.recipient), ("candidates", .arr (matrix.candidates.map refValue)),
    ("dependencies", .arr (matrix.dependencies.map dependencyValue)), ("architecture", .arr matrix.architecture),
    ("duplicates", .arr matrix.duplicates), ("conflicts", .arr (matrix.conflicts.map conflictValue)),
    ("policy_digest", .str matrix.policyDigest)]

def eligibilityValue (item : CompositionEligibility) : Value :=
  .obj [("schema_version", .str item.schemaVersion), ("matrix_digest", .str item.matrixDigest),
    ("status", .str item.status.value), ("blocking_conflict_keys", .arr (item.blockingConflictKeys.map keyValue)),
    ("unknown_evidence_keys", .arr (item.unknownEvidenceKeys.map keyValue)), ("detail_code", optionValue item.detailCode)]

def digest (value : Value) : Text := sha (canonicalBytes value)

def matrixSchema : Text := "leitir-composition-conflict-matrix-v1".toList

def eligibilitySchema : Text := "leitir-composition-eligibility-v1".toList

def textPart (text : Text) : Tuple := [.text text]

def dependencyKey (item : CandidateDependencyEvidence) : List Tuple :=
  [item.subject.candidateKey, textPart item.ecosystem, textPart item.name, textPart item.version,
    textPart (item.resolvedSha.getD []), textPart item.completeness.value, textPart item.sourcePath,
    textPart item.sourceDigest]

def conflictKey (item : ConflictRecord) : List Tuple :=
  [item.left.candidateKey, item.right.candidateKey, textPart item.kind.value, textPart item.status.value, item.evidenceKey,
    textPart item.evidenceDigest, textPart item.detailCode]

def sorted {α κ : Type} [LinearOrder κ] (r : κ → κ → Bool) (key : α → κ) (items : List α) :
    Except CompositionError (List α) :=
  match TupleOrder.sorted r key items with
  | some result => .ok result
  | none => .error .typeError

def validateRef (subject : CompositionCandidateRef) : Except CompositionError Unit :=
  if subject.candidateKey = [] then .error (.hardGate "composition candidate reference is missing or malformed")
  else if isDigest subject.btsDigest && isDigest subject.candidateManifestDigest && isDigest subject.graphDigest then .ok ()
  else .error (.hardGate "composition candidate reference digest is malformed")

def sharedVersions (left right : List CandidateDependencyEvidence) : List ((Text × Text) × List Text) :=
  let identities := ((left.map (·.identity)).filter fun identity => (right.map (·.identity)).contains identity).dedup
  (KeyedList.sortBy (fun identity => [code identity.1, code identity.2]) identities).map fun identity =>
    (identity, sortTexts (((left ++ right).filter fun item => item.identity = identity).map (·.version)).dedup)

def clashKey (left right : Tuple) (shared : (Text × Text) × List Text) : Tuple :=
  .text "dependency".toList :: (left ++ right ++ [.text shared.1.1, .text shared.1.2] ++ shared.2.map Part.text)

def clashKeys (left right : Tuple) (leftItems rightItems : List CandidateDependencyEvidence) : List Tuple :=
  ((sharedVersions leftItems rightItems).filter fun shared => 1 < shared.2.length).map (clashKey left right)

def combinations {α : Type} : List α → List (α × α)
  | [] => []
  | item :: rest => rest.map (fun other => (item, other)) ++ combinations rest

def pairsOf (recipient : CompositionCandidateRef) (candidates : List CompositionCandidateRef) :
    List (CompositionCandidateRef × CompositionCandidateRef) :=
  combinations candidates ++ candidates.map fun subject => (subject, recipient)

def versionClashCode : Text := "composition_version_clash_v1".toList

def unknownCode : Text := "composition_transitive_closure_unknown_v1".toList

def itemsOf (matrix : ConflictMatrix) (subject : CompositionCandidateRef) : List CandidateDependencyEvidence :=
  matrix.dependencies.filter fun item => item.subject = subject

def actualClashes (matrix : ConflictMatrix) : List (Tuple × Tuple × Tuple) :=
  (matrix.conflicts.filter fun item => item.kind = .versionClash && item.status = .incompatible &&
    item.detailCode = versionClashCode && item.evidenceDigest = digest (keyValue item.evidenceKey)).map fun item =>
      (item.left.candidateKey, item.right.candidateKey, item.evidenceKey)

def expectedClashes (matrix : ConflictMatrix) : List (Tuple × Tuple × Tuple) :=
  (pairsOf matrix.recipient matrix.candidates).flatMap fun pair =>
    (clashKeys pair.1.candidateKey pair.2.candidateKey (itemsOf matrix pair.1) (itemsOf matrix pair.2)).map fun key =>
      (pair.1.candidateKey, pair.2.candidateKey, key)

/-- A record of the matrix is about one of its subjects, and none of its texts is empty. -/
def checkDependency (matrix : ConflictMatrix) (item : CandidateDependencyEvidence) : Except CompositionError Unit := do
  validateRef item.subject
  if item.subject ≠ matrix.recipient ∧ item.subject ∉ matrix.candidates then
    .error (.hardGate "composition matrix contains substituted dependency subjects")
  else if item.ecosystem = [] ∨ item.name = [] ∨ item.version = [] ∨ item.sourcePath = [] ∨ ¬ isDigest item.sourceDigest then
    .error (.hardGate "composition dependency evidence is malformed")
  else .ok ()

def missingSubjects (matrix : ConflictMatrix) : List CompositionCandidateRef :=
  (matrix.recipient :: matrix.candidates).filter fun subject =>
    !matrix.dependencies.any fun item => item.subject = subject && item.completeness = .complete

def isEmptyMatrix (matrix : ConflictMatrix) : Bool := matrix.candidates.isEmpty && matrix.dependencies.isEmpty

def statusOf (blocking unknown : List Tuple) : CompositionEligibilityStatus :=
  if blocking ≠ [] then .reject else if unknown ≠ [] then .indeterminate else .accept

def isLacking (matrix : ConflictMatrix) : Bool := !(missingSubjects matrix).isEmpty && !isEmptyMatrix matrix

def withMissing (matrix : ConflictMatrix) (unknown : List Tuple) : Except CompositionError (List Tuple) :=
  if isLacking matrix then sorted ordered id (unknown ++ (missingSubjects matrix).map (·.candidateKey)) else .ok unknown

def detailOf (matrix : ConflictMatrix) (blocking unknown : List Tuple) : Option Text :=
  if blocking ≠ [] then some "composition_conflict_v1".toList
  else if isLacking matrix then some "composition_dependency_evidence_missing_v1".toList
  else if unknown ≠ [] then some "composition_evidence_unknown_v1".toList
  else none

/-- The decision on a matrix whose records have been checked. -/
def decideMatrix (matrix : ConflictMatrix) : Except CompositionError CompositionEligibility := do
  let blocking ← sorted ordered id
    ((matrix.conflicts.filter fun item => item.status = .incompatible && item.kind.blocking).map (·.evidenceKey))
  let known ← sorted ordered id ((matrix.conflicts.filter fun item => item.status = .unknown).map (·.evidenceKey))
  let unknown ← withMissing matrix known
  let result : CompositionEligibility := ⟨eligibilitySchema, matrix.matrixDigest, statusOf blocking unknown, blocking, unknown,
    detailOf matrix blocking unknown, []⟩
  pure { result with eligibilityDigest := digest (eligibilityValue result) }

/-- The records of a matrix are in order, distinct and about its subjects. -/
def checkRecords (matrix : ConflictMatrix) : Except CompositionError Unit := do
  validateRef matrix.recipient
  let candidates ← sorted ordered (·.candidateKey) matrix.candidates
  if candidates ≠ matrix.candidates ∨ ¬ (matrix.candidates.map (·.candidateKey)).Nodup then
    .error (.hardGate "composition matrix records are missing or malformed")
  else
    let dependencies ← sorted orderedAll dependencyKey matrix.dependencies
    if dependencies ≠ matrix.dependencies then .error (.hardGate "composition matrix records are missing or malformed")
    else if matrix.recipient.candidateKey ∈ matrix.candidates.map (·.candidateKey) then
      .error (.hardGate "composition matrix recipient is substituted by a candidate")
    else
      let conflicts ← sorted orderedAll conflictKey matrix.conflicts
      if conflicts ≠ matrix.conflicts then .error (.hardGate "composition conflict records are malformed or omitted")
      else if ¬ (matrix.dependencies.map dependencyKey).Nodup then
        .error (.hardGate "composition dependency evidence is duplicated")
      else if ¬ (matrix.conflicts.map (·.evidenceKey)).Nodup then
        .error (.hardGate "composition conflict evidence keys are duplicated")
      else matrix.dependencies.forM (checkDependency matrix)

def evaluateEligibility (matrix : ConflictMatrix) : Except CompositionError CompositionEligibility :=
  if matrix.schemaVersion ≠ matrixSchema ∨ ¬ isDigest matrix.matrixDigest ∨
      matrix.matrixDigest ≠ digest (matrixValue matrix) then
    .error (.hardGate "composition matrix is missing, malformed, or mismatched")
  else do
    checkRecords matrix
    if (∀ clash ∈ actualClashes matrix, clash ∈ expectedClashes matrix) ∧
        ∀ clash ∈ expectedClashes matrix, clash ∈ actualClashes matrix then
      decideMatrix matrix
    else .error (.hardGate "composition matrix omits or substitutes a known version clash")

section

structure UnknownSource where
  ecosystem : Text
  path : Text
  sourceDigest : Text
deriving DecidableEq

def UnknownSource.key (item : UnknownSource) : KeyedList.Key := [code item.ecosystem, code item.path, code item.sourceDigest]

/-- What the manifests of a subject say: its dependencies, and its sources that are not complete. -/
structure Closure where
  subject : CompositionCandidateRef
  evidence : List CandidateDependencyEvidence
  unknown : List UnknownSource
deriving DecidableEq

def evidenceOf (subject : CompositionCandidateRef) (source : ManifestDependencySource) (completeness : ClosureCompleteness)
    (edge : DependencyEdge) : CandidateDependencyEvidence :=
  ⟨subject, source.ecosystem, edge.name, edge.version, edge.resolvedSha, completeness, source.path, source.sourceDigest⟩

def sourceClosure (subject : CompositionCandidateRef) (source : ManifestDependencySource) :
    Except CompositionError (List CandidateDependencyEvidence × List UnknownSource) :=
  match closureCompleteness source.graph with
  | none => .error (.hardGate "composition closure completeness is unknown")
  | some completeness =>
    .ok (source.deps.map (evidenceOf subject source completeness),
      if completeness = .complete then [] else [⟨source.ecosystem, source.path, source.sourceDigest⟩])

structure CompositionInput where
  recipientSubject : Text
  recipient : CompositionCandidateRef
  recipientFiles : List VerifiedManifestBytes
  candidates : List CompositionCandidateRef
  candidateFiles : List (Tuple × List VerifiedManifestBytes)
  dependencyPolicy : DependencyManifestPolicy
  policyDigest : Text

variable (tomlLoads : Text → Option (List (Text × Toml)))

def closureEvidence (policy : DependencyManifestPolicy) (subject : CompositionCandidateRef)
    (files : List VerifiedManifestBytes) : Except CompositionError Closure :=
  match dependencyClosuresFromManifest tomlLoads files policy with
  | .error _ => .error (.hardGate "composition manifest evidence is missing or malformed")
  | .ok result =>
    if result.diagnostics ≠ [] then
      .error (.hardGate "composition manifest contains omitted or malformed dependency evidence")
    else do
      let found ← result.sources.mapM (sourceClosure subject)
      if result.sources = [] then .error (.hardGate "composition candidate closure is missing")
      else
        let evidence ← sorted orderedAll dependencyKey (found.flatMap Prod.fst)
        pure ⟨subject, evidence, KeyedList.sortBy UnknownSource.key (found.flatMap Prod.snd)⟩

def clashRecord (left right : CompositionCandidateRef) (key : Tuple) : ConflictRecord :=
  ⟨left, right, .versionClash, .incompatible, key, digest (keyValue key), versionClashCode⟩

def unknownKey (left right : CompositionCandidateRef) (side : String) (target : CompositionCandidateRef)
    (item : UnknownSource) : Tuple :=
  .text "closure".toList :: (left.candidateKey ++ right.candidateKey ++ .text side.toList :: target.candidateKey ++
    [.text item.ecosystem, .text item.path, .text item.sourceDigest])

def unknownRecord (left right : CompositionCandidateRef) (side : String) (target : CompositionCandidateRef)
    (item : UnknownSource) : ConflictRecord :=
  let key := unknownKey left right side target item
  ⟨left, right, .dependencyDeclarationOverlap, .unknown, key, digest (keyValue key), unknownCode⟩

def closureFor (closures : List Closure) (subject : CompositionCandidateRef) : Closure :=
  (closures.find? fun item => item.subject.candidateKey = subject.candidateKey).getD ⟨subject, [], []⟩

def pairConflicts (closures : List Closure) (pair : CompositionCandidateRef × CompositionCandidateRef) :
    List ConflictRecord :=
  let left := closureFor closures pair.1
  let right := closureFor closures pair.2
  (clashKeys pair.1.candidateKey pair.2.candidateKey left.evidence right.evidence).map (clashRecord pair.1 pair.2) ++
    left.unknown.map (unknownRecord pair.1 pair.2 "left" pair.1) ++
    right.unknown.map (unknownRecord pair.1 pair.2 "right" pair.2)

def CompositionInput.filesOf (input : CompositionInput) (subject : CompositionCandidateRef) : List VerifiedManifestBytes :=
  (input.candidateFiles.lookup subject.candidateKey).getD []

/-- The matrix of all pairs of subjects. -/
def buildMatrix (input : CompositionInput) (candidates : List CompositionCandidateRef) (closures : List Closure) :
    Except CompositionError ConflictMatrix := do
  let dependencies ← sorted orderedAll dependencyKey (closures.flatMap (·.evidence))
  let conflicts ← sorted orderedAll conflictKey ((pairsOf input.recipient candidates).flatMap (pairConflicts closures))
  let matrix : ConflictMatrix :=
    ⟨matrixSchema, input.recipientSubject, input.recipient, candidates, dependencies, [], [], conflicts, input.policyDigest, []⟩
  pure { matrix with matrixDigest := digest (matrixValue matrix) }

def compose (input : CompositionInput) : Except CompositionError (ConflictMatrix × CompositionEligibility) :=
  if input.recipientSubject = [] ∨ ¬ isDigest input.policyDigest then
    .error (.hardGate "composition inputs are missing or malformed")
  else do
    validateRef input.recipient
    input.candidates.forM validateRef
    let candidates ← sorted ordered (·.candidateKey) input.candidates
    let keys := candidates.map (·.candidateKey)
    if ¬ keys.Nodup ∨ input.recipient.candidateKey ∈ keys then
      .error (.hardGate "composition candidate keys are duplicated")
    else if ¬ ((∀ entry ∈ input.candidateFiles, entry.1 ∈ keys) ∧
        ∀ key ∈ keys, (input.candidateFiles.lookup key).isSome = true) then
      .error (.hardGate "composition candidate manifest evidence is incomplete")
    else
      let first ← closureEvidence tomlLoads input.dependencyPolicy input.recipient input.recipientFiles
      let others ← candidates.mapM fun subject =>
        closureEvidence tomlLoads input.dependencyPolicy subject (input.filesOf subject)
      let matrix ← buildMatrix input candidates (first :: others)
      let eligibility ← evaluateEligibility matrix
      pure (matrix, eligibility)

end

end Leitir.Composition
