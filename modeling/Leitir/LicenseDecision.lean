import Leitir.LicenseResolution
import Leitir.ExceptRun

namespace Leitir.License

inductive ObligationKind
  | copyright | notice | contributor | attribution
deriving DecidableEq, Repr

def ObligationKind.value : ObligationKind → Text
  | .copyright => "copyright".toList
  | .notice => "notice".toList
  | .contributor => "contributor".toList
  | .attribution => "attribution".toList

inductive DisclosureScope
  | file | derivative | linkedWork | combinedWork | networkService
deriving DecidableEq, Repr

def DisclosureScope.value : DisclosureScope → Text
  | .file => "file".toList
  | .derivative => "derivative".toList
  | .linkedWork => "linked_work".toList
  | .combinedWork => "combined_work".toList
  | .networkService => "network_service".toList

inductive DisclosureAction
  | includeSource | provideOffer | provideAccess
deriving DecidableEq, Repr

def DisclosureAction.value : DisclosureAction → Text
  | .includeSource => "include_source".toList
  | .provideOffer => "provide_offer".toList
  | .provideAccess => "provide_access".toList

inductive CopyleftBoundary
  | none | file | library | combinedWork | network
deriving DecidableEq, Repr

def CopyleftBoundary.value : CopyleftBoundary → Text
  | .none => "none".toList
  | .file => "file".toList
  | .library => "library".toList
  | .combinedWork => "combined_work".toList
  | .network => "network".toList

structure ObligationProvenance where
  sourceRecordId : Text
  evidenceRecordId : Text
  evidencePath : Text
  evidenceSha256 : Text
  startLine : Nat
  endLine : Nat
  policyRuleId : Text
  bundledLicensePolicyDigest : Text
deriving DecidableEq

def ObligationProvenance.payload (item : ObligationProvenance) : Json.Value :=
  .obj [("bundled_license_policy_digest", str item.bundledLicensePolicyDigest), ("end_line", .int item.endLine),
    ("evidence_path", str item.evidencePath), ("evidence_record_id", str item.evidenceRecordId),
    ("evidence_sha256", str item.evidenceSha256), ("policy_rule_id", str item.policyRuleId),
    ("source_record_id", str item.sourceRecordId), ("start_line", .int item.startLine)]

inductive ObligationRecord
  | text (kind : ObligationKind) (subjectFile normalizedText exactEvidenceSha256 : Text) (provenance : ObligationProvenance)
  | licenseText (subjectFile expression payloadPath payloadSha256 : Text) (provenance : ObligationProvenance)
  | sourceDisclosure (subjectFile : Text) (scope : DisclosureScope) (action : DisclosureAction)
      (triggerUseCategory sourceSetDigest : Text) (provenance : ObligationProvenance)
  | modificationMarking (subjectFile : Text) (required : Bool) (markingLocation originalBytesSha256 derivativeBytesSha256 : Text)
      (provenance : ObligationProvenance)
  | copyleftBoundary (subjectFile : Text) (boundary : CopyleftBoundary) (networkCopyleft : Bool) (coveredSetDigest : Text)
      (provenance : ObligationProvenance)
deriving DecidableEq

def ObligationRecord.subjectFile : ObligationRecord → Text
  | .text _ subjectFile _ _ _ => subjectFile
  | .licenseText subjectFile _ _ _ _ => subjectFile
  | .sourceDisclosure subjectFile _ _ _ _ _ => subjectFile
  | .modificationMarking subjectFile _ _ _ _ _ => subjectFile
  | .copyleftBoundary subjectFile _ _ _ _ => subjectFile

def ObligationRecord.payload : ObligationRecord → Json.Value
  | .text kind subjectFile normalizedText exact provenance =>
    .obj [("exact_evidence_sha256", str exact), ("kind", str kind.value), ("normalized_text", str normalizedText),
      ("provenance", provenance.payload), ("subject_file", str subjectFile)]
  | .licenseText subjectFile expression payloadPath payloadSha256 provenance =>
    .obj [("expression", str expression), ("kind", str "license_text".toList), ("payload_path", str payloadPath),
      ("payload_sha256", str payloadSha256), ("provenance", provenance.payload), ("subject_file", str subjectFile)]
  | .sourceDisclosure subjectFile scope action triggerUseCategory sourceSetDigest provenance =>
    .obj [("action", str action.value), ("kind", str "source_disclosure".toList), ("provenance", provenance.payload),
      ("scope", str scope.value), ("source_set_digest", str sourceSetDigest), ("subject_file", str subjectFile),
      ("trigger_use_category", str triggerUseCategory)]
  | .modificationMarking subjectFile required markingLocation original derivative provenance =>
    .obj [("derivative_bytes_sha256", str derivative), ("kind", str "modification_marking".toList),
      ("marking_location", str markingLocation), ("original_bytes_sha256", str original),
      ("provenance", provenance.payload), ("required", .bool required), ("subject_file", str subjectFile)]
  | .copyleftBoundary subjectFile boundary networkCopyleft coveredSetDigest provenance =>
    .obj [("boundary", str boundary.value), ("covered_set_digest", str coveredSetDigest),
      ("kind", str "copyleft_boundary".toList), ("network_copyleft", .bool networkCopyleft),
      ("provenance", provenance.payload), ("subject_file", str subjectFile)]

def recordId (record : ObligationRecord) : Text := sha (canonicalBytes record.payload)

def textFields : List (String × ObligationKind) :=
  [("SPDX-FileCopyrightText", .copyright), ("SPDX-FileNotice", .notice), ("SPDX-FileContributor", .contributor),
    ("SPDX-FileAttributionText", .attribution)]

/-- What the provenance of the obligations of one source shares. -/
structure Extraction where
  source : SourceFields
  selected : LicenseEvidence
  ruleId : Text
  policyDigest : Text

def Extraction.provenance (run : Extraction) (path digest : Text) (startLine endLine : Nat) : ObligationProvenance :=
  ⟨run.source.sourceRecordId, run.selected.evidenceRecordId, path, digest, startLine, endLine, run.ruleId, run.policyDigest⟩

/-- The constructor of a text obligation. -/
def textObligation (kind : ObligationKind) (subjectFile normalizedText exact : Text) (provenance : ObligationProvenance) :
    Except Failure ObligationRecord :=
  if normalizedText = [] ∨ normalizedText = "NOASSERTION".toList then
    .error (.valueError "empty or unsupported text obligation".toList)
  else .ok (.text kind subjectFile normalizedText exact provenance)

def appendText (run : Extraction) (kind : ObligationKind) (text path digest : Text) (line : Nat) (exact : Text) :
    Except Failure ObligationRecord :=
  textObligation kind run.source.packetPath ([' '].intercalate (words text)) exact (run.provenance path digest line line)

def scanSpdxFields (run : Extraction) (file : VerifiedBytes) : Except Failure (List ObligationRecord) := do
  let records ← textFields.mapM fun (marker, kind) =>
    (fieldMatches (ascii marker) file.content).mapM fun (line, found) =>
      match Utf8.decodeText found.value with
      | none => .error (.valueError "malformed SPDX text obligation".toList)
      | some text => appendText run kind text file.path file.sha256 line (sha found.whole)
  .ok records.flatten

def annotationValues : Option Toml → Option (List Text)
  | none => some []
  | some (.str text) => some [text]
  | some (.arr items) => items.mapM Toml.text?
  | some _ => none

/-- The obligations of one annotation, none where it does not name the source. -/
def annotationObligations (run : Extraction) (file : VerifiedBytes) (relative : Text) ( annotation : Toml) :
    Except Failure (List ObligationRecord) :=
  match annotation with
  | .table fields =>
    if ((annotationPaths (lookup fields "path")).getD []).any fun pattern => fnmatchcase relative pattern then do
      let records ← textFields.mapM fun (marker, kind) =>
        match annotationValues (lookup fields marker) with
        | none => .error (.valueError ("malformed ".toList ++ marker.toList ++ " obligation".toList))
        | some values => values.mapM fun value =>
          appendText run kind value file.path file.sha256 1 (sha (Utf8.encodeText value))
      .ok records.flatten
    else .ok []
  | _ => .error .assertionError

def reuseObligations (loads : Text → Option (List (Text × Toml))) (run : Extraction) (file : VerifiedBytes) :
    Except Failure (List ObligationRecord) :=
  match (Utf8.decodeText file.content).bind loads with
  | none => .error (.valueError "malformed_reuse_toml".toList)
  | some payload => do
    let relative ← scopeRelative run.source
    match lookup payload "annotations" with
    | some (.arr annotations) => do
      let records ← annotations.mapM (annotationObligations run file relative)
      .ok records.flatten
    | _ => .ok []

def dep5Obligations (run : Extraction) (file : VerifiedBytes) : Except Failure (List ObligationRecord) :=
  match dep5Records file.content with
  | none => .error (.valueError "malformed_dep5".toList)
  | some records => do
    let texts ← records.mapM fun record =>
      let patterns := words ((lookup record "Files").getD [])
      if patterns = [] then .ok []
      else do
        let relative ← scopeRelative run.source
        if patterns.any fun pattern => fnmatchcase relative pattern then
          ((splitlines ((lookup record "Copyright").getD [])).filter fun text => strip text ≠ []).mapM fun text =>
            appendText run .copyright text file.path file.sha256 1 (sha (Utf8.encodeText text))
        else .ok []
    .ok texts.flatten

def baseName (path : Text) : Text := (path.splitOn '/').getLastD []

def parentOf (path : Text) : Text := path.take (path.length - (baseName path).length - 1)

def isNoticeName (name : Text) : Bool :=
  name = "NOTICE".toList ||
    "NOTICE".toList <+: name && (name.drop 6).head?.any (fun ch => ch = '.' || ch = '_' || ch = '-') &&
      name.drop 7 ≠ [] && (name.drop 7).all isPart

def rstrip (text : Text) : Text := (text.reverse.dropWhile isSpace).reverse

def dropReturns : Text → Text
  | '\r' :: '\n' :: rest => '\n' :: dropReturns rest
  | ch :: rest => ch :: dropReturns rest
  | [] => []

def noticeObligation (run : Extraction) (file : VerifiedBytes) : Except Failure ObligationRecord :=
  match Utf8.decodeText file.content with
  | none => .error (.valueError "malformed NOTICE bytes".toList)
  | some content =>
    let text := strip (['\n'].intercalate (((dropReturns content).splitOn '\n').map rstrip))
    if text = [] then .error (.valueError "empty NOTICE bytes".toList)
    else textObligation .notice run.source.packetPath text file.sha256
      (run.provenance file.path file.sha256 1 (file.content.count 0x0a + 1))

def isNotice (source : SourceFields) (file : VerifiedBytes) : Bool :=
  file.packageScope = source.packageScope && isNoticeName (baseName file.path) &&
    decide (parentOf file.path = if source.packageScope = ['.'] then [] else source.packageScope)

def extractTextObligations (loads : Text → Option (List (Text × Toml))) (run : Extraction) :
    Except Failure (List ObligationRecord) := do
  let files := run.source.verifiedFiles
  let own ← match files.find? fun file => file.path = run.source.sourcePath with
    | none => .error .stopIteration
    | some file => scanSpdxFields run file
  let sidecars ← (files.filter fun file => file.path = run.source.sourcePath ++ ".license".toList).mapM (scanSpdxFields run)
  let reuse ← (scopedFiles run.source "REUSE.toml").mapM (reuseObligations loads run)
  let dep5 ← (scopedFiles run.source ".reuse/dep5").mapM (dep5Obligations run)
  let notices ← (files.filter (isNotice run.source)).mapM (noticeObligation run)
  .ok (own ++ sidecars.flatten ++ reuse.flatten ++ dep5.flatten ++ notices)

structure CompatibilityDecision where
  sourceRecordId : Text
  canonicalExpression : Text
  recipientUseCategory : Text
  recipientPolicyDigest : Text
  policyRuleId : Text
  decision : Text
  provenanceEvidenceIds : List Text
deriving DecidableEq

def CompatibilityDecision.payload (item : CompatibilityDecision) : Json.Value :=
  .obj [("canonical_expression", str item.canonicalExpression), ("decision", str item.decision),
    ("policy_rule_id", str item.policyRuleId), ("provenance_evidence_ids", strings item.provenanceEvidenceIds),
    ("recipient_policy_digest", str item.recipientPolicyDigest), ("recipient_use_category", str item.recipientUseCategory),
    ("source_record_id", str item.sourceRecordId)]

structure SourceObligationSet where
  packetPath : Text
  sourceRecordId : Text
  sourcePath : Text
  sourceBytesSha256 : Text
  selectedLicenseEvidenceId : Text
  contributingSourceRecordIds : List Text
  compatibility : CompatibilityDecision
  obligationRecordIds : List Text
deriving DecidableEq

def SourceObligationSet.payload (item : SourceObligationSet) : Json.Value :=
  .obj [("compatibility", item.compatibility.payload),
    ("contributing_source_record_ids", strings item.contributingSourceRecordIds),
    ("obligation_record_ids", strings item.obligationRecordIds), ("packet_path", str item.packetPath),
    ("selected_license_evidence_id", str item.selectedLicenseEvidenceId),
    ("source_bytes_sha256", str item.sourceBytesSha256), ("source_path", str item.sourcePath),
    ("source_record_id", str item.sourceRecordId)]

structure Obligations where
  recipientLicensePolicyDigest : Text
  bundledLicensePolicyDigest : Text
  licenseEvidence : List LicenseEvidence
  sourceSets : List SourceObligationSet
  obligations : List ObligationRecord
  obligationsDigest : Text
deriving DecidableEq

def manifestPayload (recipientDigest policyDigest : Text) (evidence : List LicenseEvidence)
    (sourceSets : List SourceObligationSet) (obligations : List ObligationRecord) : Json.Value :=
  .obj [("bundled_license_policy_digest", str policyDigest), ("license_evidence", .arr (evidence.map LicenseEvidence.payload)),
    ("obligations", .arr (obligations.map ObligationRecord.payload)), ("recipient_license_policy_digest", str recipientDigest),
    ("schema_version", str obligationsSchemaVersion), ("source_sets", .arr (sourceSets.map SourceObligationSet.payload))]

inductive RejectReason
  | licenseIncompatible | licenseUnknown | licenseObligationMissing
deriving DecidableEq, Repr

def RejectReason.value : RejectReason → Text
  | .licenseIncompatible => "reject_license_incompatible".toList
  | .licenseUnknown => "reject_license_unknown".toList
  | .licenseObligationMissing => "reject_license_obligation_missing".toList

inductive LicenseDecisionStatus
  | pass | reject
deriving DecidableEq, Repr

def LicenseDecisionStatus.value : LicenseDecisionStatus → Text
  | .pass => "pass".toList
  | .reject => "reject".toList

structure LicenseDecision where
  status : LicenseDecisionStatus
  reason : Option RejectReason
  detailCode : Text
  detail : Text
  resolutions : List LicenseResolution
  obligations : Option Obligations
  decisionDigest : Text
deriving DecidableEq

def LicenseDecision.accepted (decision : LicenseDecision) : Prop := decision.status = .pass

def optional (text : Option Text) : Json.Value := text.elim .null str

def decisionOf (status : LicenseDecisionStatus) (reason : Option RejectReason) (detailCode detail : Text)
    (resolutions : List LicenseResolution) (obligations : Option Obligations) : LicenseDecision :=
  ⟨status, reason, detailCode, detail, resolutions, obligations,
    sha (canonicalBytes (.obj [("detail", str detail), ("detail_code", str detailCode),
      ("obligations_digest", optional (obligations.map Obligations.obligationsDigest)),
      ("reason", optional (reason.map RejectReason.value)),
      ("resolutions", .arr (resolutions.map fun item =>
        .arr [str item.sourceRecordId, optional item.expression, str item.method, str item.state.value, str item.detailCode])),
      ("status", str status.value)]))⟩

def rejectDecision (reason : RejectReason) (detailCode detail : Text) (resolutions : List LicenseResolution) : LicenseDecision :=
  decisionOf .reject (some reason) detailCode detail resolutions none

section

def entryOf (table : List (Text × Text)) (key : Text) : Except Failure Text :=
  match table.reverse.find? fun entry => entry.1 = key with
  | none => .error (.keyError key)
  | some entry => .ok entry.2

variable (recipient : RecipientFields) (policy : PolicyFields)

/-- The first source whose licence the recipient prohibits by name. -/
def prohibition (resolutions : List LicenseResolution) :
    List (SourceFields × LicenseResolution) → Option LicenseDecision
  | [] => none
  | (source, resolution) :: rest =>
    match resolution.expression with
    | some expression =>
      if expression ∈ recipient.prohibitedSpdxExpressions then
        some (rejectDecision .licenseIncompatible "recipient_policy_disallows".toList
          ("donor expression ".toList ++ expression ++ "; recipient policy ".toList ++ recipient.contentDigest ++ " (".toList ++
            recipient.useCategory ++ "); rule recipient-explicit-prohibition-v1; source ".toList ++ source.packetPath)
          resolutions)
      else prohibition resolutions rest
    | none => prohibition resolutions rest

/-- The first source that is not admitted, with what is wrong with it. -/
def admission (resolutions : List LicenseResolution) :
    List (SourceFields × LicenseResolution) → Except Failure (Option LicenseDecision)
  | [] => .ok none
  | (source, resolution) :: rest =>
    if resolution.state ≠ .resolved then
      .ok (some (rejectDecision .licenseUnknown resolution.detailCode
        ("source ".toList ++ source.packetPath ++ ": ".toList ++ resolution.detailCode ++ "; recipient policy ".toList ++
          recipient.contentDigest) resolutions))
    else
      match resolution.expression with
      | none => .error .assertionError
      | some expression =>
        if expression ∉ policy.reviewedExpressions then
          .ok (some (rejectDecision .licenseUnknown "compatibility_rule_missing".toList
            ("donor expression ".toList ++ expression ++ "; recipient policy ".toList ++ recipient.contentDigest ++
              " (".toList ++ recipient.useCategory ++ "); no reviewed v1 compatibility rule".toList) resolutions))
        else if expression ∉ recipient.allowedSpdxExpressions then do
          let ruleId ← entryOf policy.compatibilityRuleIds expression
          .ok (some (rejectDecision .licenseIncompatible "recipient_policy_disallows".toList
            ("donor expression ".toList ++ expression ++ "; recipient policy ".toList ++ recipient.contentDigest ++
              " (".toList ++ recipient.useCategory ++ "); rule ".toList ++ ruleId ++ "; source ".toList ++ source.packetPath)
            resolutions))
        else admission resolutions rest

/-- Records in the order of their identifiers; records of one identifier have no order unless they are the same. -/
def identifiedRecords (records : List ObligationRecord) : Except Failure (List ObligationRecord) :=
  if ¬ records.Pairwise fun left right => recordId left = recordId right → left = right then
    .error (.typeError "'<' not supported between instances of obligation records".toList)
  else .ok (KeyedList.sortBy (fun record => [textKey (recordId record)]) records)

variable (loads : Text → Option (List (Text × Toml)))

/-- The obligations of one admitted source. -/
def sourceObligations (source : SourceFields) (resolution : LicenseResolution) :
    Except Failure (SourceObligationSet × List ObligationRecord) :=
  match resolution.expression, resolution.evidence.find? fun item => item.status = .selected with
  | none, _ => .error .assertionError
  | _, none => .error .stopIteration
  | some expression, some selected => do
    let ruleId ← entryOf policy.compatibilityRuleIds expression
    let provenance : ObligationProvenance := ⟨source.sourceRecordId, selected.evidenceRecordId, selected.evidencePath,
      selected.evidenceSha256, selected.startLine, selected.endLine, ruleId, policy.contentDigest⟩
    let texts ← extractTextObligations loads ⟨source, selected, ruleId, policy.contentDigest⟩
    let textDigest ← entryOf policy.licenseTextDigests expression
    let stripped := if "sha256:".toList <+: textDigest then textDigest.drop 7 else textDigest
    let covered := sha (canonicalBytes (strings source.contributingSourceRecordIds))
    let marking := match source.modifiedFromSha256 with
      | some original =>
        if expression = "Apache-2.0".toList then
          [ObligationRecord.modificationMarking source.packetPath true "modified-source-prominent-notice".toList original
            source.sourceBytesSha256 provenance]
        else []
      | none => []
    let identified ← identifiedRecords (texts ++
      [.licenseText source.packetPath expression ("licenses/".toList ++ stripped ++ ".license".toList) textDigest provenance,
        .copyleftBoundary source.packetPath .none false covered provenance] ++ marking)
    .ok (⟨source.packetPath, source.sourceRecordId, source.sourcePath, source.sourceBytesSha256, selected.evidenceRecordId,
      source.contributingSourceRecordIds,
      ⟨source.sourceRecordId, expression, recipient.useCategory, recipient.contentDigest, ruleId, "compatible".toList,
        KeyedList.sortBy (fun id => [textKey id]) (resolution.evidence.map LicenseEvidence.evidenceRecordId)⟩,
      identified.map recordId⟩, identified)

def orderedSources (sources : List SourceFields) : List SourceFields :=
  KeyedList.sortBy (fun source : SourceFields => [textKey source.packetPath, textKey source.sourceRecordId]) sources

/-- The manifest of admitted sources. -/
def manifestOf (evidence : List LicenseEvidence) (sets : List (SourceObligationSet × List ObligationRecord)) : Obligations :=
  let records := KeyedList.sortBy (fun record : ObligationRecord => [textKey (recordId record), textKey record.subjectFile])
    (sets.flatMap Prod.snd)
  let sourceSets := KeyedList.sortBy (fun item : SourceObligationSet => [textKey item.packetPath, textKey item.sourceRecordId])
    (sets.map Prod.fst)
  ⟨recipient.contentDigest, policy.contentDigest, evidence, sourceSets, records,
    sha (canonicalBytes (manifestPayload recipient.contentDigest policy.contentDigest evidence sourceSets records))⟩

/-- The decision on sources in order. -/
def decideSources (ordered : List SourceFields) : Except Failure LicenseDecision := do
  let resolutions ← ordered.mapM fun source => resolveSourceLicense loads source policy
  let resolved := ordered.zip resolutions
  match prohibition recipient resolutions resolved with
  | some decision => .ok decision
  | none =>
    match ← admission recipient policy resolutions resolved with
    | some decision => .ok decision
    | none =>
      match resolved.mapM fun (source, resolution) => sourceObligations recipient policy loads source resolution with
      | .error (.valueError message) =>
        .ok (rejectDecision .licenseObligationMissing "typed_obligation_unmaterializable".toList message resolutions)
      | .error failure => .error failure
      | .ok sets =>
        .ok (decisionOf .pass none "compatible".toList "all bundled sources are compatible".toList resolutions
          (some (manifestOf recipient policy (resolutions.flatMap LicenseResolution.evidence) sets)))

end

def evaluateLicensePolicy (loads : Text → Option (List (Text × Toml))) (sources : List BundledSource)
    (recipient : RecipientLicensePolicy) (policy : LicensePolicy) : Except Failure LicenseDecision :=
  let ordered := orderedSources (sources.map BundledSource.toSourceFields)
  if sources = [] then .error (.typeError "sources must be a non-empty tuple of BundledSource".toList)
  else if ¬ (ordered.map SourceFields.packetPath).Nodup ∨ ¬ (ordered.map SourceFields.sourceRecordId).Nodup then
    .error (.valueError "duplicate source packet path or record ID".toList)
  else decideSources recipient.toRecipientFields policy.toPolicyFields loads ordered

def escapeText (text : Text) : Text :=
  text.flatMap fun ch => if ch = '\\' then ['\\', '\\'] else if ch = '\x60' then ['\\', '\x60'] else if ch = '\n' then [' '] else [ch]

def quoted (text : Text) : Text := '\x60' :: text ++ ['\x60']

def renderRecord : ObligationRecord → Text
  | .text kind _ normalizedText _ _ => "  - ".toList ++ kind.value ++ ": ".toList ++ escapeText normalizedText
  | .licenseText _ _ payloadPath payloadSha256 _ =>
    "  - license text: ".toList ++ quoted payloadPath ++ " (".toList ++ quoted payloadSha256 ++ ")".toList
  | .modificationMarking _ _ markingLocation _ _ _ => "  - modification marking: ".toList ++ quoted markingLocation
  | .copyleftBoundary _ boundary networkCopyleft _ _ =>
    "  - copyleft boundary: ".toList ++ quoted boundary.value ++ "; network copyleft: ".toList ++
      quoted (if networkCopyleft then "true".toList else "false".toList)
  | .sourceDisclosure _ scope action _ _ _ =>
    "  - source disclosure: ".toList ++ quoted scope.value ++ " / ".toList ++ quoted action.value

def recordById (records : List ObligationRecord) (id : Text) : Except Failure ObligationRecord :=
  match records.reverse.find? fun record => recordId record = id with
  | none => .error (.keyError id)
  | some record => .ok record

def renderSet (records : List ObligationRecord) (sourceSet : SourceObligationSet) : Except Failure (List Text) := do
  let lines ← sourceSet.obligationRecordIds.mapM fun id => (recordById records id).map renderRecord
  .ok (["### ".toList ++ quoted sourceSet.packetPath, [],
    "- SPDX license: ".toList ++ quoted sourceSet.compatibility.canonicalExpression,
    "- Source record: ".toList ++ quoted sourceSet.sourceRecordId, "- Obligations:".toList] ++ lines ++ [[]])

def renderAttribution (manifest : Obligations) : Except Failure Bytes := do
  let sections ← manifest.sourceSets.mapM (renderSet manifest.obligations)
  let lines := ["# Attribution".toList, [],
    "Generated from authoritative ".toList ++ quoted "obligations.json".toList ++ ". This is not legal advice.".toList, [],
    "Obligations digest: ".toList ++ quoted manifest.obligationsDigest, [], "## Bundled sources".toList, []] ++ sections.flatten
  .ok (Utf8.encodeText (rstrip (['\n'].intercalate lines) ++ ['\n']))

end Leitir.License
