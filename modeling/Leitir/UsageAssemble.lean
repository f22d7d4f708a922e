import Leitir.UsageResolver
import Leitir.Grouping
import Leitir.KeyedList
import Leitir.Json

namespace Leitir.Usage

open KeyedList Grouping

structure CoverageRecord where
  file : Text
  state : UnresolvedState
deriving DecidableEq

structure CoverageSummary where
  records : List CoverageRecord
  exclusions : List Text
  cap : Nat
  capped : Bool
deriving DecidableEq

/-- References of one origin. -/
structure ReferenceBatch where
  origin : Text
  references : List CodeReference
  coverage : CoverageSummary
deriving DecidableEq

/-- A logical usage: the same distribution at the same span. -/
structure UsageIdentity where
  distribution : Text
  span : SourceSpan
deriving DecidableEq

def textKey (text : Text) : List Nat := text.map Char.toNat

def UsageIdentity.key (identity : UsageIdentity) : KeyedList.Key :=
  [textKey identity.distribution, textKey identity.span.file, [identity.span.startLine], [identity.span.startCol],
    [identity.span.endLine], [identity.span.endCol]]

def identityOf (reference : CodeReference) : UsageIdentity := ⟨reference.distribution, reference.span⟩

def digestValue (value : Json.Value) : Text := digestBytes (Utf8.encodeText (Json.dumps value))

def identityDigest (identity : UsageIdentity) : Text :=
  digestValue (.obj [("distribution", .str identity.distribution), ("file", .str identity.span.file),
    ("start_line", .int identity.span.startLine), ("start_col", .int identity.span.startCol),
    ("end_line", .int identity.span.endLine), ("end_col", .int identity.span.endCol)])

structure ProvenanceRecord where
  codeDigest : Text
  consumer : Text
deriving DecidableEq

def ProvenanceRecord.key (record : ProvenanceRecord) : KeyedList.Key := [textKey record.consumer, textKey record.codeDigest]

inductive Confidence
  | high | medium | low
deriving DecidableEq, Repr

def Confidence.value : Confidence → Text
  | .high => "high".toList
  | .medium => "medium".toList
  | .low => "low".toList

structure LicenseSnippetEvidence where
  span : SourceSpan
  licenseGuess : Text
  confidence : Confidence
deriving DecidableEq

structure UsageResult (Score : Type) where
  identity : UsageIdentity
  provenance : List ProvenanceRecord
  conflicting : Bool
  licenseSnippets : List LicenseSnippetEvidence
  totalScore : Score

structure CappedResult where
  identity : UsageIdentity
  provenance : List ProvenanceRecord
  reason : Text
deriving DecidableEq

structure UnresolvedDistribution where
  distribution : Text
  state : UnresolvedState
deriving DecidableEq

def UnresolvedState.value : UnresolvedState → Text
  | .resolved => "resolved".toList
  | .dynamicImport => "dynamic-import".toList
  | .starImport => "star-import".toList
  | .ambiguousBinding => "ambiguous-binding".toList
  | .reExport => "re-export".toList
  | .unsupportedSyntax => "unsupported-syntax".toList
  | .capExceeded => "cap-exceeded".toList

def isIdPart (ch : Char) : Bool :=
  'a' ≤ ch && ch ≤ 'z' || 'A' ≤ ch && ch ≤ 'Z' || '0' ≤ ch && ch ≤ '9' || ch = '.' || ch = '+' || ch = '-'

def isSpace (ch : Char) : Bool :=
  ch.toNat ∈ [0x20, 0x85, 0xa0, 0x1680, 0x2028, 0x2029, 0x202f, 0x205f, 0x3000] || 0x09 ≤ ch.toNat && ch.toNat ≤ 0x0d ||
    0x1c ≤ ch.toNat && ch.toNat ≤ 0x1f || 0x2000 ≤ ch.toNat && ch.toNat ≤ 0x200a

def spdxMarker : Text := "SPDX-License-Identifier:".toList

/-- The identifier behind the first marker that has one. -/
def spdxSearch : Text → Option Text
  | [] => none
  | ch :: rest =>
    let found := (((ch :: rest).drop spdxMarker.length).dropWhile isSpace).takeWhile isIdPart
    if spdxMarker <+: ch :: rest ∧ found ≠ [] then some found else spdxSearch rest

def foldCase (ch : Char) : Char :=
  if 'A' ≤ ch ∧ ch ≤ 'Z' then Char.ofNat (ch.toNat + 32) else if ch.toNat = 0x17f then 's' else ch

def keywordSearch (text : Text) : Bool := decide ("license".toList <:+: text.map foldCase)

def splitlinesFrom (line : Text) : Text → List Text
  | [] => if line = [] then [] else [line.reverse]
  | '\r' :: '\n' :: rest => line.reverse :: splitlinesFrom [] rest
  | ch :: rest =>
    if ch = '\r' ∨ isLineEnd ch then line.reverse :: splitlinesFrom [] rest else splitlinesFrom (ch :: line) rest

/-- The advisory licence of a file; what cannot be read is empty. -/
def scanLicenseEvidence (read : Option (Text → Option Text)) (pathPrefix : Text) (maxScanLines : Nat) (span : SourceSpan) :
    LicenseSnippetEvidence :=
  match read with
  | none => ⟨span, "unknown".toList, .low⟩
  | some read =>
    let relative := if pathPrefix ≠ [] ∧ pathPrefix <+: span.file then span.file.drop pathPrefix.length else span.file
    let header := ['\n'].intercalate ((splitlinesFrom [] ((read relative).getD [])).take maxScanLines)
    match spdxSearch header with
    | some guess => ⟨span, guess, .high⟩
    | none => ⟨span, "unknown".toList, if keywordSearch header then .medium else .low⟩

section

structure Limits where
  maxResults : Nat
  maxProvenancePerResult : Nat
  maxLicenseSnippetsPerResult : Nat
  maxLicenseScanLines : Nat
  maxTotalOutputBytes : Nat

def maxCoverageCap : Nat := 10000

def maxResultsCap : Nat := 200

def maxReferences : Nat := 2000

def maxImportMappings : Nat := 500

def maxLicenseEvidence : Nat := 500

inductive Failure
  | malformed (message expected actual : Text)
  | unsupported (field message expected actual : Text)
  | value (message : Text)
deriving DecidableEq

variable {Score : Type} [LinearOrder Score] (totalScore : Nat → Bool → Confidence → Nat → Score)
  (read : Option (Text → Option Text)) (pathPrefix : Text) (limits : Limits)

def exceeds (field message : String) (bound count : Nat) : Failure :=
  .unsupported field.toList message.toList ("<= ".toList ++ Nat.toDigits 10 bound) (Nat.toDigits 10 count)

def occurrencesOf (batches : List ReferenceBatch) : List (Text × CodeReference) :=
  batches.flatMap fun batch => batch.references.map fun reference => (batch.origin, reference)

def groupsOf (batches : List ReferenceBatch) : List (UsageIdentity × List (Text × CodeReference)) :=
  groupBy (fun occurrence => identityOf occurrence.2) (occurrencesOf batches)

def provenanceOf (occurrences : List (Text × CodeReference)) : List ProvenanceRecord :=
  sortBy ProvenanceRecord.key (occurrences.map fun (origin, reference) => ⟨reference.codeDigest, origin⟩)

def disagreeing (provenance : List ProvenanceRecord) : Bool :=
  provenance.any fun left => provenance.any fun right => left.codeDigest ≠ right.codeDigest

def cappedFile (identity : UsageIdentity) : Text := "assemble:capped-result:".toList ++ identityDigest identity

def conflictingFile (identity : UsageIdentity) : Text := "assemble:conflicting-provenance:".toList ++ identityDigest identity

def cappedLicenseFile (identity : UsageIdentity) : Text := "assemble:capped-license:".toList ++ identityDigest identity

structure Progress (Score : Type) where
  accepted : List (UsageResult Score)
  capped : List CappedResult
  extra : List CoverageRecord
  licenseCache : List (Text × LicenseSnippetEvidence)

def cachedLicense (cache : List (Text × LicenseSnippetEvidence)) (span : SourceSpan) : LicenseSnippetEvidence :=
  match cache.find? fun entry => entry.1 = span.file with
  | some entry => entry.2
  | none => scanLicenseEvidence read pathPrefix limits.maxLicenseScanLines span

def keptLicenses (license : LicenseSnippetEvidence) : List LicenseSnippetEvidence :=
  if 1 > limits.maxLicenseSnippetsPerResult then [] else [license]

def assembleIdentity (groups : List (UsageIdentity × List (Text × CodeReference))) (progress : Progress Score)
    (identity : UsageIdentity) : Progress Score :=
  let provenance := provenanceOf (get groups identity)
  let conflicting := disagreeing provenance
  if provenance.length > limits.maxProvenancePerResult then
    { progress with
      capped := progress.capped ++ [⟨identity, provenance, "provenance-cap-exceeded".toList⟩]
      extra := progress.extra ++ [⟨cappedFile identity, .capExceeded⟩] }
  else
    let license := cachedLicense read pathPrefix limits progress.licenseCache identity.span
    let snippets := keptLicenses limits license
    let confidence := if snippets = [] then .low else license.confidence
    let width := identity.span.endLine + 1 - identity.span.startLine
    { accepted := progress.accepted ++
        [⟨identity, provenance, conflicting, snippets, totalScore provenance.length conflicting confidence width⟩]
      capped := progress.capped
      extra := progress.extra ++ (if conflicting then [⟨conflictingFile identity, .ambiguousBinding⟩] else []) ++
        (if 1 > limits.maxLicenseSnippetsPerResult then [⟨cappedLicenseFile identity, .capExceeded⟩] else [])
      licenseCache := put progress.licenseCache identity.span.file license }

def assembleIdentities (groups : List (UsageIdentity × List (Text × CodeReference))) : Progress Score :=
  (sortBy UsageIdentity.key (keys groups)).foldl
    (assembleIdentity totalScore read pathPrefix limits groups) ⟨[], [], [], []⟩

def padded (n : Nat) : Text := List.replicate (10 - (Nat.toDigits 10 n).length) '0' ++ Nat.toDigits 10 n

def tieBreakKey (identity : UsageIdentity) : KeyedList.Key :=
  [identity.distribution, identity.span.file, padded identity.span.startLine, padded identity.span.startCol,
    padded identity.span.endLine, padded identity.span.endCol].map textKey

def rank (results : List (UsageResult Score)) : List (UsageResult Score) :=
  results.insertionSort fun a b =>
    b.totalScore < a.totalScore ∨ a.totalScore = b.totalScore ∧ tieBreakKey a.identity ≤ tieBreakKey b.identity

def overflowed (result : UsageResult Score) : CappedResult := ⟨result.identity, result.provenance, "results-cap-exceeded".toList⟩

/-- The records of the batches, which must agree on each file. -/
def mergeRecords : List (Text × CoverageRecord) → List CoverageRecord → Except Failure (List (Text × CoverageRecord))
  | merged, [] => .ok merged
  | merged, record :: rest =>
    match merged.find? fun entry => entry.1 = record.file with
    | some entry =>
      if entry.2.state ≠ record.state then
        .error (.malformed ("coverage records disagree for file ".toList ++ record.file) entry.2.state.value record.state.value)
      else mergeRecords (put merged record.file record) rest
    | none => mergeRecords (put merged record.file record) rest

def putRecords (merged : List (Text × CoverageRecord)) (records : List CoverageRecord) : List (Text × CoverageRecord) :=
  records.foldl (fun merged record => put merged record.file record) merged

def unresolvedEntry (entry : UnresolvedDistribution) : Text :=
  "unresolved-distribution:".toList ++ entry.distribution ++ ':' :: entry.state.value

def sortedSet (items : List Text) : List Text := sortBy (fun item => [textKey item]) items.dedup

structure AssembledEvidenceReport (Score : Type) where
  results : List (UsageResult Score)
  cappedResults : List CappedResult
  coverage : CoverageSummary
  references : List CodeReference
  licenseEvidence : List LicenseSnippetEvidence
  unresolvedDistributions : List UnresolvedDistribution
  capped : Bool

def reportReferences (results : List (UsageResult Score)) : List CodeReference :=
  (results.filter fun result => !result.conflicting).map fun result =>
    ⟨result.identity.distribution, result.identity.span, (result.provenance.head?.map ProvenanceRecord.codeDigest).getD []⟩

def coverageOf (records : List (Text × CoverageRecord)) (exclusions : List Text) (capped : Bool) : CoverageSummary where
  records := (sortBy (fun entry => [textKey entry.1]) records).map Prod.snd
  exclusions := exclusions
  cap := maxCoverageCap
  capped := capped

/-- What the constructors of the report refuse, for what does not come from the references. -/
structure ReportHeader where
  toolVersion : Text
  contractVersion : Text
  providerRole : Text
  consumerRole : Text
  mappedDistributions : List Text

def ReportHeader.accepted (header : ReportHeader) : Prop :=
  header.toolVersion ≠ [] ∧ header.contractVersion ≠ [] ∧ header.providerRole = "provider".toList ∧
    header.consumerRole = "consumer".toList ∧ header.mappedDistributions.Nodup

instance (header : ReportHeader) : Decidable header.accepted := inferInstanceAs (Decidable (_ ∧ _))

variable (header : ReportHeader) (outputSize : AssembledEvidenceReport Score → Nat)

def assembleUsageEvidence (batches : List ReferenceBatch) (unresolved : List UnresolvedDistribution) :
    Except Failure (AssembledEvidenceReport Score) := do
  let progress := assembleIdentities totalScore read pathPrefix limits (groupsOf batches)
  let ranked := rank progress.accepted
  let overflow := ranked.drop limits.maxResults
  let results := ranked.take limits.maxResults
  let capped := sortBy (fun entry => entry.identity.key) (progress.capped ++ overflow.map overflowed)
  let extra := progress.extra ++ overflow.map fun result => ⟨cappedFile result.identity, .capExceeded⟩
  let merged ← mergeRecords [] (batches.flatMap fun batch => batch.coverage.records)
  let records := putRecords merged extra
  let sortedUnresolved := sortBy (fun entry : UnresolvedDistribution => [textKey entry.distribution]) unresolved
  let exclusions := sortedSet ((batches.flatMap fun batch => batch.coverage.exclusions) ++ sortedUnresolved.map unresolvedEntry)
  let exclusions := exclusions.filter fun item => item ∉ keys records
  if records.length + exclusions.length > maxCoverageCap then
    .error (exceeds "coverage" "assembled coverage exceeds the maximum coverage cap" maxCoverageCap
      (records.length + exclusions.length))
  else
    let cappedFlag := (batches.any fun batch => batch.coverage.capped) || !capped.isEmpty
    let references := reportReferences results
    let licenses := sortBy (fun item : LicenseSnippetEvidence =>
        [textKey item.span.file, [item.span.startLine], [item.span.startCol], [item.span.endLine], [item.span.endCol],
          textKey item.licenseGuess, textKey item.confidence.value]) (results.flatMap fun result => result.licenseSnippets).dedup
    let report : AssembledEvidenceReport Score :=
      ⟨results, capped, coverageOf records exclusions cappedFlag, references, licenses, sortedUnresolved, cappedFlag⟩
    if references.length > maxReferences then
      .error (exceeds "references" "assembled references exceed the maximum cap" maxReferences references.length)
    else if header.mappedDistributions.length > maxImportMappings then
      .error (exceeds "import_mappings" "assembled import mappings exceed the maximum cap" maxImportMappings
        header.mappedDistributions.length)
    else if licenses.length > maxLicenseEvidence then
      .error (exceeds "license_evidence" "assembled license evidence exceeds the maximum cap" maxLicenseEvidence licenses.length)
    else if ¬ header.accepted then .error (.value "report is malformed".toList)
    else if results.length > maxResultsCap then .error (.value "assembled_report.results exceeds the cap".toList)
    else if ¬ (results.map fun result => identityDigest result.identity).Nodup then
      .error (.value "assembled_report.results must not repeat an identity_digest".toList)
    else if outputSize report > limits.maxTotalOutputBytes then
      .error (exceeds "assembled_report" "assembled evidence report exceeds the maximum total output size"
        limits.maxTotalOutputBytes (outputSize report))
    else .ok report

end

end Leitir.Usage
