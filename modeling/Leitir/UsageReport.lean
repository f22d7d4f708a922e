import Leitir.UsageAssemble
import Leitir.JsonShape
import Leitir.LicenseEvidence

namespace Leitir.Usage

open Json (Value)
open License (isDigest)

/-- Why an operation on usage evidence is refused, with the field it is about. -/
inductive UsageError
  | malformed (field message : Text)
  | unsupported (field message : Text)
  | tamper (field message : Text)
deriving DecidableEq

abbrev Parse := Except UsageError

def malformed (context : Text) (message : String) : UsageError := .malformed context message.toList

def below (context : Text) (name : String) : Text := context ++ '.' :: name.toList

def atIndex (context : Text) (name : String) (index : Nat) : Text :=
  below context name ++ '[' :: (Nat.toDigits 10 index ++ [']'])

def refusal (checks : List (Bool × String)) : Option String := (checks.find? fun check => !check.1).map Prod.snd

def constructed {α : Type} (context : Text) (reason : Option String) (build : reason = none → α) : Parse α :=
  if h : reason = none then .ok (build h) else .error (malformed context (reason.getD ""))

def closedDict (payload : Value) (allowed : List String) (context : Text) : Parse (List (String × Value)) :=
  match payload with
  | .obj fields =>
    if ∃ name ∈ fields.map Prod.fst, name ∉ allowed then .error (malformed context "has unknown fields")
    else if ∃ name ∈ allowed, name ∉ fields.map Prod.fst then .error (malformed context "is missing required fields")
    else .ok fields
  | _ => .error (malformed context "must be a JSON object with string keys")

def requireStr (body : List (String × Value)) (name : String) (context : Text) (allowEmpty : Bool) : Parse Text :=
  match body.lookup name with
  | some (.str text) =>
    if text = [] ∧ ¬ allowEmpty then .error (malformed (below context name) "must be a non-empty string") else .ok text
  | _ => .error (malformed (below context name) "must be a non-empty string")

def requireBool (body : List (String × Value)) (name : String) (context : Text) : Parse Bool :=
  match body.lookup name with
  | some (.bool value) => .ok value
  | _ => .error (malformed (below context name) "must be a boolean")

def requireInt (body : List (String × Value)) (name : String) (context : Text) (minimum : Nat) : Parse Nat :=
  let refused : UsageError :=
    .malformed (below context name) ("must be an int >= ".toList ++ Nat.toDigits 10 minimum)
  match body.lookup name with
  | some (.int value) => if value < minimum then .error refused else .ok value.toNat
  | _ => .error refused

def requireDigest (body : List (String × Value)) (name : String) (context : Text) : Parse Text := do
  let value ← requireStr body name context false
  if ¬ isDigest value then
    .error (malformed (below context name) "must be a sha256:<64 lowercase hex> digest")
  else .ok value

def requireSchemaVersion (body : List (String × Value)) (expected context : Text) : Parse Unit := do
  let value ← requireStr body "schema_version" context false
  if value ≠ expected then
    .error (.unsupported (below context "schema_version") "is not a supported schema version".toList)
  else .ok ()

def requireList (body : List (String × Value)) (name : String) (context : Text) (maximum : Nat) : Parse (List Value) :=
  match body.lookup name with
  | some (.arr items) =>
    if maximum < items.length then
      .error (.unsupported (below context name)
        ("exceeds the maximum of ".toList ++ Nat.toDigits 10 maximum ++ " entries".toList))
    else .ok items
  | _ => .error (malformed (below context name) "must be a JSON array")

/-- The items of an array, each read at its index. -/
def parseTuple {α : Type} (parser : Value → Nat → Parse α) : Nat → List Value → Parse (List α)
  | _, [] => .ok []
  | index, item :: rest => do
    let value ← parser item index
    let values ← parseTuple parser (index + 1) rest
    .ok (value :: values)

/-- An entry of an array of texts. -/
def parseText (context : Text) (name : String) (item : Value) (index : Nat) : Parse Text :=
  match item with
  | .str text =>
    if text = [] then .error (malformed (atIndex context name index) "must be a non-empty string") else .ok text
  | _ => .error (malformed (atIndex context name index) "must be a non-empty string")

/-- What the constructor of a span refuses. -/
def SourceSpan.refusal (span : SourceSpan) : Option String :=
  Usage.refusal [(span.file ≠ [], "span.file must be a non-empty string"),
    (1 ≤ span.startLine, "span.start_line must be >= 1"), (1 ≤ span.endLine, "span.end_line must be >= 1"),
    (span.startLine < span.endLine || span.startLine = span.endLine && span.startCol ≤ span.endCol,
      "span end must not precede span start")]

abbrev Span := {span : SourceSpan // span.refusal = none}

def SourceSpan.entries (span : SourceSpan) : List (String × Value) :=
  [("file", .str span.file), ("start_line", .int span.startLine), ("start_col", .int span.startCol),
    ("end_line", .int span.endLine), ("end_col", .int span.endCol)]

def SourceSpan.toDict (span : SourceSpan) : Value := .obj span.entries

def spanFields : List String := ["file", "start_line", "start_col", "end_line", "end_col"]

def spanFromDict (payload : Value) (context : Text) : Parse Span := do
  let body ← closedDict payload spanFields context
  let file ← requireStr body "file" context false
  let startLine ← requireInt body "start_line" context 1
  let startCol ← requireInt body "start_col" context 0
  let endLine ← requireInt body "end_line" context 1
  let endCol ← requireInt body "end_col" context 0
  let span : SourceSpan := ⟨file, startLine, startCol, endLine, endCol⟩
  constructed context span.refusal fun h => ⟨span, h⟩

inductive Role
  | provider | consumer
deriving DecidableEq

def Role.value : Role → Text
  | .provider => "provider".toList
  | .consumer => "consumer".toList

def identityRefusal (name version digest : Text) : Option String :=
  refusal [(name ≠ [], "identity.name must be non-empty"), (version ≠ [], "identity.version must be non-empty"),
    (isDigest digest, "identity.digest must be a sha256:<64 lowercase hex> digest")]

structure Identity where
  role : Role
  name : Text
  version : Text
  digest : Text
  accepted : identityRefusal name version digest = none
deriving DecidableEq

def identitySchemaVersion : Text := "leitir-usage-identity-v1".toList

def Identity.entries (identity : Identity) : List (String × Value) :=
  [("schema_version", .str identitySchemaVersion), ("role", .str identity.role.value), ("name", .str identity.name),
    ("version", .str identity.version), ("digest", .str identity.digest)]

def Identity.toDict (identity : Identity) : Value := .obj identity.entries

def identityFields : List String := ["schema_version", "role", "name", "version", "digest"]

def identityFromDict (payload : Value) (context : Text) (expectedRole : Role) : Parse Identity := do
  let body ← closedDict payload identityFields context
  requireSchemaVersion body identitySchemaVersion context
  let role ← requireStr body "role" context false
  if role ≠ expectedRole.value then
    .error (.malformed (below context "role") ("must equal '".toList ++ expectedRole.value ++ ['\'']))
  else
    let name ← requireStr body "name" context false
    let version ← requireStr body "version" context false
    let digest ← requireDigest body "digest" context
    constructed context (identityRefusal name version digest) fun h => ⟨expectedRole, name, version, digest, h⟩

def maxRequirementsBytes : Nat := 65536

def dependencyRefusal (requirementsText requirementsDigest parserName parserVersion : Text) : Option String :=
  refusal [((Utf8.encodeText requirementsText).length ≤ maxRequirementsBytes,
      "dependency_evidence.requirements_text exceeds the byte cap"),
    (isDigest requirementsDigest,
      "dependency_evidence.requirements_digest must be a sha256:<64 lowercase hex> digest"),
    (digestBytes (Utf8.encodeText requirementsText) = requirementsDigest,
      "dependency_evidence.requirements_digest does not match requirements_text"),
    (parserName ≠ [] && parserVersion ≠ [],
      "dependency_evidence.parser_name and parser_version must be non-empty")]

structure DependencyEvidence where
  requirementsText : Text
  requirementsDigest : Text
  parserName : Text
  parserVersion : Text
  accepted : dependencyRefusal requirementsText requirementsDigest parserName parserVersion = none
deriving DecidableEq

def dependencyEvidenceSchemaVersion : Text := "leitir-usage-dependency-v1".toList

def DependencyEvidence.entries (evidence : DependencyEvidence) : List (String × Value) :=
  [("schema_version", .str dependencyEvidenceSchemaVersion), ("requirements_text", .str evidence.requirementsText),
    ("requirements_digest", .str evidence.requirementsDigest), ("parser_name", .str evidence.parserName),
    ("parser_version", .str evidence.parserVersion)]

def DependencyEvidence.toDict (evidence : DependencyEvidence) : Value := .obj evidence.entries

def dependencyFields : List String :=
  ["schema_version", "requirements_text", "requirements_digest", "parser_name", "parser_version"]

def dependencyFromDict (payload : Value) (context : Text) : Parse DependencyEvidence := do
  let body ← closedDict payload dependencyFields context
  requireSchemaVersion body dependencyEvidenceSchemaVersion context
  let requirementsText ← requireStr body "requirements_text" context true
  let requirementsDigest ← requireDigest body "requirements_digest" context
  if digestBytes (Utf8.encodeText requirementsText) ≠ requirementsDigest then
    .error (.tamper (below context "requirements_digest") "does not match the digest of requirements_text".toList)
  else
    let parserName ← requireStr body "parser_name" context false
    let parserVersion ← requireStr body "parser_version" context false
    constructed context (dependencyRefusal requirementsText requirementsDigest parserName parserVersion) fun h =>
      ⟨requirementsText, requirementsDigest, parserName, parserVersion, h⟩

def maxImportRootsPerMapping : Nat := 64

def importMappingRefusal (distribution : Text) (importRoots : List Text) : Option String :=
  refusal [(distribution ≠ [], "import_mapping.distribution must be non-empty"),
    (importRoots ≠ [], "import_mapping.import_roots must be non-empty"),
    (importRoots.length ≤ maxImportRootsPerMapping, "import_mapping.import_roots exceeds the cap"),
    (importRoots.Nodup, "import_mapping.import_roots must not contain duplicates"),
    (importRoots.all fun root => root ≠ [], "import_mapping.import_roots entries must be non-empty")]

structure ImportMapping where
  distribution : Text
  importRoots : List Text
  accepted : importMappingRefusal distribution importRoots = none
deriving DecidableEq

def importMappingSchemaVersion : Text := "leitir-usage-import-mapping-v1".toList

def ImportMapping.entries (mapping : ImportMapping) : List (String × Value) :=
  [("schema_version", .str importMappingSchemaVersion), ("distribution", .str mapping.distribution),
    ("import_roots", .arr (mapping.importRoots.map .str))]

def ImportMapping.toDict (mapping : ImportMapping) : Value := .obj mapping.entries

def importMappingFields : List String := ["schema_version", "distribution", "import_roots"]

def importMappingFromDict (payload : Value) (context : Text) : Parse ImportMapping := do
  let body ← closedDict payload importMappingFields context
  requireSchemaVersion body importMappingSchemaVersion context
  let rootsField ← requireList body "import_roots" context maxImportRootsPerMapping
  let roots ← parseTuple (parseText context "import_roots") 0 rootsField
  let distribution ← requireStr body "distribution" context false
  constructed context (importMappingRefusal distribution roots) fun h => ⟨distribution, roots, h⟩

def CodeReference.refusal (reference : CodeReference) : Option String :=
  Usage.refusal [(reference.distribution ≠ [], "reference.distribution must be non-empty"),
    (isDigest reference.codeDigest, "reference.code_digest must be a sha256:<64 lowercase hex> digest")]

abbrev Reference := {reference : CodeReference // reference.span.refusal = none ∧ reference.refusal = none}

def codeReferenceSchemaVersion : Text := "leitir-usage-reference-v1".toList

def CodeReference.entries (reference : CodeReference) : List (String × Value) :=
  [("schema_version", .str codeReferenceSchemaVersion), ("distribution", .str reference.distribution),
    ("span", reference.span.toDict), ("code_digest", .str reference.codeDigest)]

def CodeReference.toDict (reference : CodeReference) : Value := .obj reference.entries

def referenceFields : List String := ["schema_version", "distribution", "span", "code_digest"]

def referenceFromDict (payload : Value) (context : Text) : Parse Reference := do
  let body ← closedDict payload referenceFields context
  requireSchemaVersion body codeReferenceSchemaVersion context
  let distribution ← requireStr body "distribution" context false
  let span ← spanFromDict ((body.lookup "span").getD .null) (below context "span")
  let codeDigest ← requireDigest body "code_digest" context
  let reference : CodeReference := ⟨distribution, span.val, codeDigest⟩
  constructed context reference.refusal fun h => ⟨reference, span.property, h⟩

def states : List UnresolvedState :=
  [.resolved, .dynamicImport, .starImport, .ambiguousBinding, .reExport, .unsupportedSyntax, .capExceeded]

def unresolvedState (text : Text) : Option UnresolvedState := states.find? fun state => state.value = text

def CoverageRecord.refusal (record : CoverageRecord) : Option String :=
  Usage.refusal [(record.file ≠ [], "coverage_record.file must be non-empty")]

abbrev FileRecord := {record : CoverageRecord // record.refusal = none}

def coverageRecordSchemaVersion : Text := "leitir-usage-coverage-record-v1".toList

def CoverageRecord.entries (record : CoverageRecord) : List (String × Value) :=
  [("schema_version", .str coverageRecordSchemaVersion), ("file", .str record.file),
    ("state", .str record.state.value)]

def CoverageRecord.toDict (record : CoverageRecord) : Value := .obj record.entries

def coverageRecordFields : List String := ["schema_version", "file", "state"]

def coverageRecordFromDict (payload : Value) (context : Text) : Parse FileRecord := do
  let body ← closedDict payload coverageRecordFields context
  requireSchemaVersion body coverageRecordSchemaVersion context
  let stateRaw ← requireStr body "state" context false
  match unresolvedState stateRaw with
  | none => .error (malformed (below context "state") "is not a member of the closed UnresolvedState set")
  | some state =>
    let file ← requireStr body "file" context false
    let record : CoverageRecord := ⟨file, state⟩
    constructed context record.refusal fun h => ⟨record, h⟩

def maxCoverageRecords : Nat := maxCoverageCap

def maxExclusions : Nat := maxCoverageCap

/-- Coverage as its constructor takes it: there is no bound on the exclusions. -/
def coverageRefusal (records : List FileRecord) (exclusions : List Text) (cap : Nat) : Option String :=
  refusal [(1 ≤ cap && cap ≤ maxCoverageCap, "coverage.cap must be between 1 and 10000"),
    (records.length ≤ cap, "coverage.records exceeds the declared cap"),
    ((records.map fun record => record.val.file).Nodup, "coverage.records must not repeat a file"),
    (exclusions.Nodup, "coverage.exclusions must not contain duplicates"),
    (exclusions.all fun excluded => excluded ≠ [], "coverage.exclusions entries must be non-empty"),
    (records.all fun record => record.val.file ∉ exclusions,
      "coverage.records and coverage.exclusions must be disjoint")]

structure Coverage where
  records : List FileRecord
  exclusions : List Text
  cap : Nat
  capped : Bool
  accepted : coverageRefusal records exclusions cap = none
deriving DecidableEq

def coverageSummarySchemaVersion : Text := "leitir-usage-coverage-v1".toList

def Coverage.entries (coverage : Coverage) : List (String × Value) :=
  [("schema_version", .str coverageSummarySchemaVersion),
    ("records", .arr (coverage.records.map fun record => record.val.toDict)),
    ("exclusions", .arr (coverage.exclusions.map .str)), ("cap", .int coverage.cap), ("capped", .bool coverage.capped)]

def Coverage.toDict (coverage : Coverage) : Value := .obj coverage.entries

def coverageSummaryFields : List String := ["schema_version", "records", "exclusions", "cap", "capped"]

def coverageSummaryFromDict (payload : Value) (context : Text) : Parse Coverage := do
  let body ← closedDict payload coverageSummaryFields context
  requireSchemaVersion body coverageSummarySchemaVersion context
  let recordsField ← requireList body "records" context maxCoverageRecords
  let records ← parseTuple (fun item index => coverageRecordFromDict item (atIndex context "records" index)) 0 recordsField
  let exclusionsField ← requireList body "exclusions" context maxExclusions
  let exclusions ← parseTuple (parseText context "exclusions") 0 exclusionsField
  let cap ← requireInt body "cap" context 1
  let capped ← requireBool body "capped" context
  constructed context (coverageRefusal records exclusions cap) fun h => ⟨records, exclusions, cap, capped, h⟩

def LicenseSnippetEvidence.refusal (evidence : LicenseSnippetEvidence) : Option String :=
  Usage.refusal [(evidence.licenseGuess ≠ [], "license_evidence.license_guess must be non-empty")]

abbrev LicenseEvidence :=
  {evidence : LicenseSnippetEvidence // evidence.span.refusal = none ∧ evidence.refusal = none}

def licenseEvidenceSchemaVersion : Text := "leitir-usage-license-v1".toList

def LicenseSnippetEvidence.entries (evidence : LicenseSnippetEvidence) : List (String × Value) :=
  [("schema_version", .str licenseEvidenceSchemaVersion), ("span", evidence.span.toDict),
    ("license_guess", .str evidence.licenseGuess), ("confidence", .str evidence.confidence.value), ("advisory", .bool true)]

def LicenseSnippetEvidence.toDict (evidence : LicenseSnippetEvidence) : Value := .obj evidence.entries

def licenseFields : List String := ["schema_version", "span", "license_guess", "confidence", "advisory"]

def confidenceLevel (text : Text) : Option Confidence :=
  [Confidence.low, .medium, .high].find? fun confidence => confidence.value = text

def licenseFromDict (payload : Value) (context : Text) : Parse LicenseEvidence := do
  let body ← closedDict payload licenseFields context
  requireSchemaVersion body licenseEvidenceSchemaVersion context
  let advisory ← requireBool body "advisory" context
  if ¬ advisory then
    .error (malformed (below context "advisory") "must be true (this evidence is never authoritative)")
  else
    let confidenceText ← requireStr body "confidence" context false
    match confidenceLevel confidenceText with
    | none => .error (malformed (below context "confidence") "must be one of low, medium, high")
    | some confidence =>
      let span ← spanFromDict ((body.lookup "span").getD .null) (below context "span")
      let licenseGuess ← requireStr body "license_guess" context false
      let evidence : LicenseSnippetEvidence := ⟨span.val, licenseGuess, confidence⟩
      constructed context evidence.refusal fun h => ⟨evidence, span.property, h⟩

/-- The contents of a report, before its digest. -/
structure ReportContent where
  toolVersion : Text
  contractVersion : Text
  providerIdentity : Identity
  consumerIdentity : Identity
  dependencyEvidence : DependencyEvidence
  importMappings : List ImportMapping
  references : List Reference
  coverage : Coverage
  licenseEvidence : List LicenseEvidence
deriving DecidableEq

def reportRefusal (content : ReportContent) (reportDigest : Text) : Option String :=
  refusal [(content.toolVersion ≠ [] && content.contractVersion ≠ [],
      "report.tool_version and contract_version must be non-empty"),
    (content.providerIdentity.role = .provider, "report.provider_identity.role must be 'provider'"),
    (content.consumerIdentity.role = .consumer, "report.consumer_identity.role must be 'consumer'"),
    (content.importMappings.length ≤ maxImportMappings, "report.import_mappings exceeds the cap"),
    ((content.importMappings.map ImportMapping.distribution).Nodup,
      "report.import_mappings must not repeat a distribution"),
    (content.references.length ≤ maxReferences, "report.references exceeds the cap"),
    (content.licenseEvidence.length ≤ maxLicenseEvidence, "report.license_evidence exceeds the cap"),
    (isDigest reportDigest, "report.report_digest must be a sha256:<64 lowercase hex> digest")]

structure UsageReport extends ReportContent where
  reportDigest : Text
  accepted : reportRefusal toReportContent reportDigest = none
deriving DecidableEq

def reportSchemaVersion : Text := "leitir-usage-report-v1".toList

def ReportContent.entries (content : ReportContent) : List (String × Value) :=
  [("schema_version", .str reportSchemaVersion), ("tool_version", .str content.toolVersion),
    ("contract_version", .str content.contractVersion), ("provider_identity", content.providerIdentity.toDict),
    ("consumer_identity", content.consumerIdentity.toDict), ("dependency_evidence", content.dependencyEvidence.toDict),
    ("import_mappings", .arr (content.importMappings.map ImportMapping.toDict)),
    ("references", .arr (content.references.map fun reference => reference.val.toDict)),
    ("coverage", content.coverage.toDict),
    ("license_evidence", .arr (content.licenseEvidence.map fun evidence => evidence.val.toDict))]

def UsageReport.toDict (report : UsageReport) : Value :=
  .obj (report.entries ++ [("report_digest", .str report.reportDigest)])

def ReportContent.recomputeDigest (content : ReportContent) : Text := digestValue (.obj content.entries)

def UsageReport.toJsonBytes (report : UsageReport) : List Nat := Utf8.encodeText (Json.dumps report.toDict)

/-- The report of some contents, with its digest, or the refusal of the constructor. -/
def buildReport (content : ReportContent) : Except String UsageReport :=
  if h : reportRefusal content content.recomputeDigest = none then .ok ⟨content, content.recomputeDigest, h⟩
  else .error ((reportRefusal content content.recomputeDigest).getD "")

def reportFields : List String :=
  ["schema_version", "tool_version", "contract_version", "provider_identity", "consumer_identity", "dependency_evidence",
    "import_mappings", "references", "coverage", "license_evidence", "report_digest"]

def reportFromDict (payload : Value) : Parse UsageReport := do
  let context := "report".toList
  let body ← closedDict payload reportFields context
  let field := fun name => (body.lookup name).getD .null
  requireSchemaVersion body reportSchemaVersion context
  let provider ← identityFromDict (field "provider_identity") (below context "provider_identity") .provider
  let consumer ← identityFromDict (field "consumer_identity") (below context "consumer_identity") .consumer
  let dependencyEvidence ← dependencyFromDict (field "dependency_evidence") (below context "dependency_evidence")
  let mappingsField ← requireList body "import_mappings" context maxImportMappings
  let importMappings ← parseTuple (fun item index =>
    importMappingFromDict item (atIndex context "import_mappings" index)) 0 mappingsField
  let referencesField ← requireList body "references" context maxReferences
  let references ← parseTuple (fun item index => referenceFromDict item (atIndex context "references" index)) 0 referencesField
  let coverage ← coverageSummaryFromDict (field "coverage") (below context "coverage")
  let licenseField ← requireList body "license_evidence" context maxLicenseEvidence
  let licenseEvidence ← parseTuple (fun item index =>
    licenseFromDict item (atIndex context "license_evidence" index)) 0 licenseField
  let reportDigest ← requireDigest body "report_digest" context
  let toolVersion ← requireStr body "tool_version" context false
  let contractVersion ← requireStr body "contract_version" context false
  let content : ReportContent := ⟨toolVersion, contractVersion, provider, consumer, dependencyEvidence, importMappings,
    references, coverage, licenseEvidence⟩
  let report ← constructed context (reportRefusal content reportDigest) fun h => (⟨content, reportDigest, h⟩ : UsageReport)
  if content.recomputeDigest ≠ reportDigest then
    .error (.tamper (below context "report_digest")
      "does not match the digest recomputed from the report's own content".toList)
  else .ok report

-- A document that repeats a name is refused here, where `json.loads` keeps the last value; canonical bytes repeat none.
def reportFromJsonBytes (data : List Nat) : Parse UsageReport :=
  match (Utf8.decodeText data).bind Json.loads with
  | none => .error (malformed "report".toList "is not valid UTF-8 JSON")
  | some payload => reportFromDict payload

end Leitir.Usage
