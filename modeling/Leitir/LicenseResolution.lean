import Leitir.LicenseEvidence

namespace Leitir.License

inductive EvidenceTier
  | fileHeader | adjacentLicense | reuseToml | dep5
deriving DecidableEq, Repr

def EvidenceTier.all : List EvidenceTier := [.fileHeader, .adjacentLicense, .reuseToml, .dep5]

def EvidenceTier.value : EvidenceTier → Text
  | .fileHeader => "file_header".toList
  | .adjacentLicense => "adjacent_license".toList
  | .reuseToml => "reuse_toml".toList
  | .dep5 => "dep5".toList

def EvidenceTier.index : EvidenceTier → Nat
  | .fileHeader => 0
  | .adjacentLicense => 1
  | .reuseToml => 2
  | .dep5 => 3

def str (text : Text) : Json.Value := .str text

def strings (items : List Text) : Json.Value := .arr (items.map str)

def pairs (items : List (Text × Text)) : Json.Value := .arr (items.map fun (key, value) => strings [key, value])

def obligationsSchemaVersion : Text := "leitir-bts-obligations-v1".toList

def licensePolicyAuthority : Text := "leitir-maintainers".toList

def licensePolicyId : Text := "leitir-bts-license-policy".toList

def spdxGrammar : Text := "spdx-expression-2.3-leitir-v1".toList

structure PolicyFields where
  authority : Text
  policyId : Text
  policyVersion : Text
  spdxGrammarId : Text
  spdxLicenseIds : List Text
  spdxExceptionIds : List Text
  reviewedExpressions : List Text
  compatibilityRuleIds : List (Text × Text)
  licenseTextDigests : List (Text × Text)
  contentDigest : Text

def PolicyFields.payload (policy : PolicyFields) : Json.Value :=
  .obj [("authority", str policy.authority), ("compatibility_rule_ids", pairs policy.compatibilityRuleIds),
    ("evidence_precedence", strings (EvidenceTier.all.map EvidenceTier.value)),
    ("license_text_digests", pairs policy.licenseTextDigests), ("obligations_schema_version", str obligationsSchemaVersion),
    ("policy_id", str policy.policyId), ("policy_version", str policy.policyVersion),
    ("reviewed_expressions", strings policy.reviewedExpressions), ("spdx_exception_ids", strings policy.spdxExceptionIds),
    ("spdx_grammar_id", str policy.spdxGrammarId), ("spdx_license_ids", strings policy.spdxLicenseIds)]

/-- What the constructor of a policy checks; the tables of rules and digests are not among it. -/
def PolicyFields.Checked (policy : PolicyFields) : Prop :=
  policy.authority = licensePolicyAuthority ∧ policy.policyId = licensePolicyId ∧ policy.spdxGrammarId = spdxGrammar ∧
    (policy.reviewedExpressions.map textKey).Pairwise (· ≤ ·) ∧
    (∀ expression, expression ∈ policy.reviewedExpressions ↔ expression ∈ reviewed) ∧
    policy.contentDigest = sha (canonicalBytes policy.payload)

structure LicensePolicy extends PolicyFields where
  checked : toPolicyFields.Checked

structure RecipientFields where
  policyId : Text
  policyVersion : Text
  useCategory : Text
  allowedSpdxExpressions : List Text
  prohibitedSpdxExpressions : List Text
  contentDigest : Text

def RecipientFields.payload (policy : RecipientFields) : Json.Value :=
  .obj [("allowed_spdx_expressions", strings policy.allowedSpdxExpressions), ("policy_id", str policy.policyId),
    ("policy_version", str policy.policyVersion),
    ("prohibited_spdx_expressions", strings policy.prohibitedSpdxExpressions), ("use_category", str policy.useCategory)]

def ExpressionsChecked (expressions : List Text) : Prop :=
  (∀ expression ∈ expressions, ∃ given, canonicalizeSpdxExpression given = .ok expression) ∧
    (expressions.map textKey).Pairwise (· < ·)

def RecipientFields.Checked (policy : RecipientFields) : Prop :=
  isId policy.policyId ∧ isId policy.policyVersion ∧ isId policy.useCategory ∧
    ExpressionsChecked policy.allowedSpdxExpressions ∧ ExpressionsChecked policy.prohibitedSpdxExpressions ∧
    (∀ expression ∈ policy.allowedSpdxExpressions, expression ∉ policy.prohibitedSpdxExpressions) ∧
    policy.contentDigest = sha (canonicalBytes policy.payload)

structure RecipientLicensePolicy extends RecipientFields where
  checked : toRecipientFields.Checked

section

/-- A value of a TOML document. Of a float the code asks only whether it equals one. -/
inductive Toml
  | str (text : Text)
  | int (value : Int)
  | bool (value : Bool)
  | float (isOne : Bool)
  | date
  | arr (items : List Toml)
  | table (fields : List (Text × Toml))

def lookup {α : Type} (fields : List (Text × α)) (key : String) : Option α :=
  (fields.find? fun field => field.1 = key.toList).map Prod.snd

def Toml.equalsOne : Toml → Bool
  | .int value => value = 1
  | .bool value => value
  | .float isOne => isOne
  | _ => false

def Toml.text? : Toml → Option Text
  | .str text => some text
  | _ => none

structure RawEvidence where
  expression : Text
  path : Text
  digest : Text
  line : Nat
  tier : EvidenceTier
  rule : Text
deriving DecidableEq

abbrev TierResult := Except Text (List RawEvidence)

def headerMarker : Bytes := ascii "SPDX-License-Identifier"

def canonicalField (found : FieldMatch) : Option Text := do
  let text ← decodeAscii found.value
  (canonicalizeSpdxExpression (strip text)).toOption

def headerEvidence (source : SourceFields) : TierResult :=
  match fieldMatches headerMarker source.sourceBytes with
  | [] => .ok []
  | [(line, found)] =>
    match canonicalField found with
    | none => .error "malformed_file_header".toList
    | some expression =>
      .ok [⟨expression, source.sourcePath, source.sourceBytesSha256, line, .fileHeader, "reuse-3.3-file-header-v1".toList⟩]
  | _ => .error "duplicate_file_header".toList

def sidecarEvidence (source : SourceFields) : TierResult :=
  match source.verifiedFiles.filter fun file => file.path = source.sourcePath ++ ".license".toList with
  | [] => .ok []
  | [file] =>
    match fieldMatches headerMarker file.content with
    | [(line, found)] =>
      match canonicalField found with
      | none => .error "malformed_adjacent_license".toList
      | some expression =>
        .ok [⟨expression, file.path, file.sha256, line, .adjacentLicense, "reuse-3.3-adjacent-license-v1".toList⟩]
    | _ => .error "malformed_adjacent_license".toList
  | _ => .error "duplicate_adjacent_license".toList

def scopeRelative (source : SourceFields) : Except Failure Text :=
  if source.packageScope = ['.'] then .ok source.sourcePath
  else if source.packageScope ++ ['/'] <+: source.sourcePath then .ok (source.sourcePath.drop (source.packageScope.length + 1))
  else .error (.valueError "source path is outside package scope".toList)

def scopedPath (source : SourceFields) (name : String) : Text :=
  if source.packageScope = ['.'] then name.toList else source.packageScope ++ '/' :: name.toList

def scopedFiles (source : SourceFields) (name : String) : List VerifiedBytes :=
  source.verifiedFiles.filter fun file => file.packageScope = source.packageScope ∧ file.path = scopedPath source name

def annotationPaths : Option Toml → Option (List Text)
  | some (.str text) => some [text]
  | some (.arr items) => if items = [] then none else items.mapM Toml.text?
  | _ => none

/-- The evidence of the annotations that name the source, up to the first that is malformed. -/
def annotationEvidence (file : VerifiedBytes) (relative : Text) : List Toml → Option (List RawEvidence)
  | [] => some []
  | .table fields :: rest =>
    match annotationPaths (lookup fields "path"), lookup fields "SPDX-License-Identifier" with
    | some paths, some (.str expression) =>
      if paths.any fun pattern => fnmatchcase relative pattern then
        match canonicalizeSpdxExpression expression with
        | .error _ => none
        | .ok canonical =>
          (annotationEvidence file relative rest).map
            (⟨canonical, file.path, file.sha256, 1, .reuseToml, "reuse-3.3-reuse-toml-v1".toList⟩ :: ·)
      else annotationEvidence file relative rest
    | _, _ => none
  | _ :: _ => none

def conflicting (results : List RawEvidence) : Bool :=
  results.any fun left => results.any fun right => left.expression ≠ right.expression

variable (loads : Text → Option (List (Text × Toml)))

def reuseEvidence (source : SourceFields) : Except Failure TierResult :=
  match scopedFiles source "REUSE.toml" with
  | [] => .ok (.ok [])
  | [file] =>
    match (Utf8.decodeText file.content).bind loads with
    | none => .ok (.error "malformed_reuse_toml".toList)
    | some payload =>
      match lookup payload "annotations" with
      | some (.arr annotations) =>
        if (payload.any fun field => field.1 ∉ ["version".toList, "annotations".toList]) ∨
            ¬ (lookup payload "version").any Toml.equalsOne then
          .ok (.error "malformed_reuse_toml".toList)
        else do
          let relative ← scopeRelative source
          match annotationEvidence file relative annotations with
          | none => .ok (.error "malformed_reuse_toml".toList)
          | some results =>
            .ok (if conflicting results then .error "conflicting_reuse_toml".toList else .ok (results.take 1))
      | _ => .ok (.error "malformed_reuse_toml".toList)
  | _ => .ok (.error "duplicate_reuse_toml".toList)

/-- The blocks of a text, cut at its blank lines. -/
def splitBlocks (block : Text) : Nat → Text → List Text
  | 0, _ => [block.reverse]
  | _ + 1, [] => [block.reverse]
  | fuel + 1, ch :: rest =>
    if ch = '\n' then
      match rest.dropWhile isBlank with
      | '\n' :: after => block.reverse :: splitBlocks [] fuel after
      | _ => splitBlocks (ch :: block) fuel rest
    else splitBlocks (ch :: block) fuel rest

/-- The fields of a block; the last of them goes on over indented lines. -/
def dep5Fields (fields : List (Text × Text)) : List Text → Option (List (Text × Text))
  | [] => some fields
  | line :: rest =>
    if line.head?.any isBlank ∧ fields ≠ [] then
      dep5Fields (fields.dropLast ++ (fields.getLast?.toList.map fun (key, value) => (key, value ++ '\n' :: strip line))) rest
    else if ':' ∉ line then none
    else
      let key := line.takeWhile fun ch => ch ≠ ':'
      if key ∈ fields.map Prod.fst then none
      else dep5Fields (fields ++ [(key, strip (line.drop (key.length + 1)))]) rest

def dep5Records (data : Bytes) : Option (List (List (Text × Text))) := do
  let text ← Utf8.decodeText data
  let records ← (splitBlocks [] text.length text).mapM fun block => dep5Fields [] (splitlines block)
  some (records.filter fun fields => fields ≠ [])

/-- The evidence of the records that name the source. A record without a licence is an index error. -/
def recordEvidence (file : VerifiedBytes) (relative : Text) : List (List (Text × Text)) → Except Failure (Option (List RawEvidence))
  | [] => .ok (some [])
  | record :: rest =>
    if (lookup record "Files").any fun files => (words files).any fun pattern => fnmatchcase relative pattern then
      match splitlines ((lookup record "License").getD []) with
      | [] => .error .indexError
      | expression :: _ =>
        match canonicalizeSpdxExpression (strip expression) with
        | .error _ => .ok none
        | .ok canonical => do
          let others ← recordEvidence file relative rest
          .ok (others.map (⟨canonical, file.path, file.sha256, 1, .dep5, "reuse-3.3-dep5-v1".toList⟩ :: ·))
    else recordEvidence file relative rest

def dep5Evidence (source : SourceFields) : Except Failure TierResult :=
  match scopedFiles source ".reuse/dep5" with
  | [] => .ok (.ok [])
  | [file] =>
    match dep5Records file.content with
    | none => .ok (.error "malformed_dep5".toList)
    | some records => do
      let relative ← scopeRelative source
      match ← recordEvidence file relative records with
      | none => .ok (.error "malformed_dep5".toList)
      | some results => .ok (if conflicting results then .error "conflicting_dep5".toList else .ok (results.take 1))
  | _ => .ok (.error "duplicate_dep5".toList)

end

inductive EvidenceStatus
  | selected | shadowed
deriving DecidableEq, Repr

def EvidenceStatus.value : EvidenceStatus → Text
  | .selected => "selected".toList
  | .shadowed => "shadowed".toList

structure LicenseEvidence where
  evidenceRecordId : Text
  sourceRecordId : Text
  sourcePath : Text
  sourceSha256 : Text
  evidencePath : Text
  evidenceSha256 : Text
  startLine : Nat
  endLine : Nat
  tier : EvidenceTier
  parserRuleId : Text
  packageScope : Text
  canonicalExpression : Text
  status : EvidenceStatus
  policyDigest : Text
deriving DecidableEq

def LicenseEvidence.payload (item : LicenseEvidence) : Json.Value :=
  .obj [("canonical_expression", str item.canonicalExpression), ("end_line", .int item.endLine),
    ("evidence_path", str item.evidencePath), ("evidence_record_id", str item.evidenceRecordId),
    ("evidence_sha256", str item.evidenceSha256), ("package_scope", str item.packageScope),
    ("parser_rule_id", str item.parserRuleId), ("policy_digest", str item.policyDigest),
    ("source_path", str item.sourcePath), ("source_record_id", str item.sourceRecordId),
    ("source_sha256", str item.sourceSha256), ("start_line", .int item.startLine), ("status", str item.status.value),
    ("tier", str item.tier.value)]

inductive ResolutionState
  | resolved | missing | malformed | ambiguous
deriving DecidableEq, Repr

def ResolutionState.value : ResolutionState → Text
  | .resolved => "resolved".toList
  | .missing => "missing".toList
  | .malformed => "malformed".toList
  | .ambiguous => "ambiguous".toList

structure LicenseResolution where
  sourceRecordId : Text
  expression : Option Text
  method : Text
  confidence : Text
  state : ResolutionState
  detailCode : Text
  evidence : List LicenseEvidence
deriving DecidableEq

def unresolved (source : SourceFields) (state : ResolutionState) (detailCode : Text) : LicenseResolution :=
  ⟨source.sourceRecordId, none, "unknown".toList, "low".toList, state, detailCode, []⟩

def stateOfError (code : Text) : ResolutionState :=
  if "duplicate".toList <+: code ∨ "conflicting".toList <+: code then .ambiguous else .malformed

def identityOf (source : SourceFields) (raw : RawEvidence) : Text :=
  sha (canonicalBytes (.arr [str source.sourceRecordId, str raw.path, str raw.digest, .int raw.line, str raw.tier.value,
    str raw.expression]))

def evidenceOf (source : SourceFields) (policy : PolicyFields) (status : EvidenceStatus) (raw : RawEvidence) : LicenseEvidence :=
  ⟨identityOf source raw, source.sourceRecordId, source.sourcePath, source.sourceBytesSha256, raw.path, raw.digest, raw.line,
    raw.line, raw.tier, raw.rule, source.packageScope, raw.expression, status, policy.contentDigest⟩

/-- The evidence of all tiers; that of the first tier with any is selected. -/
def rankTiers (source : SourceFields) (policy : PolicyFields) : List (List RawEvidence) → List LicenseEvidence
  | [] => []
  | [] :: tiers => rankTiers source policy tiers
  | items :: tiers =>
    items.map (evidenceOf source policy .selected) ++ tiers.flatten.map (evidenceOf source policy .shadowed)

/-- The licence of one source, from its verified bytes alone. -/
def resolveSourceLicense (loads : Text → Option (List (Text × Toml))) (source : SourceFields) (policy : PolicyFields) :
    Except Failure LicenseResolution := do
  let reuse ← reuseEvidence loads source
  let dep5 ← dep5Evidence source
  match [headerEvidence source, sidecarEvidence source, reuse, dep5].mapM id with
  | .error code => .ok (unresolved source (stateOfError code) code)
  | .ok tiers =>
    let ordered := KeyedList.sortBy (fun item : LicenseEvidence => [[item.tier.index], textKey item.evidencePath, [item.startLine]])
      (rankTiers source policy tiers)
    match ordered.find? fun item => item.status = .selected with
    | none => .ok (unresolved source .missing "license_evidence_missing".toList)
    | some selected =>
      .ok ⟨source.sourceRecordId, some selected.canonicalExpression, selected.tier.value, "high".toList, .resolved,
        "resolved".toList, ordered⟩

end Leitir.License
