import Leitir.UsageReport
import Leitir.ExceptRun

namespace Leitir.Usage

open List

open Json (Value sortKeys sortedFields Plain)
open License (isDigest)
open ExceptRun

section

variable {body fields : List (String × Value)} {names : List String} {name : String} {context : Text}

theorem refusal_eq_none_iff {checks : List (Bool × String)} :
    refusal checks = none ↔ ∀ check ∈ checks, check.1 = true := by
  unfold refusal
  rw [Option.map_eq_none_iff, find?_eq_none]
  refine forall₂_congr fun check _ => ?_
  cases check.1 <;> simp

theorem constructed_ok {α : Type} {reason : Option String} {build : reason = none → α} (h : reason = none) :
    constructed context reason build = .ok (build h) := dif_pos h

theorem closedDict_sortKeys (hnames : fields.map Prod.fst = names) :
    closedDict (sortKeys (.obj fields)) names context = .ok (sortedFields fields) := by
  have hkeys := Json.keys_sortedFields fields
  rw [hnames] at hkeys
  have hunknown : ¬ ∃ key ∈ (sortedFields fields).map Prod.fst, key ∉ names := by
    rintro ⟨key, hkey, hnot⟩
    exact hnot (hkeys.mem_iff.mp hkey)
  have hmissing : ¬ ∃ key ∈ names, key ∉ (sortedFields fields).map Prod.fst := by
    rintro ⟨key, hkey, hnot⟩
    exact hnot (hkeys.mem_iff.mpr hkey)
  show closedDict (.obj (sortedFields fields)) names context = _
  unfold closedDict
  dsimp only
  rw [if_neg hunknown, if_neg hmissing]

theorem lookup_found (hnames : fields.map Prod.fst = names) (hnodup : names.Nodup) (name : String) (value : Value)
    (hmem : (name, value) ∈ fields) : (sortedFields fields).lookup name = some (sortKeys value) := by
  rw [← hnames] at hnodup
  rw [Json.lookup_sortedFields hnodup, (Json.lookup_eq_some_iff hnodup).mpr hmem]
  rfl

variable {text : Text}

theorem requireStr_eq {allowEmpty : Bool} (h : body.lookup name = some (.str text))
    (hempty : text = [] → allowEmpty = true) : requireStr body name context allowEmpty = .ok text := by
  unfold requireStr
  rw [h]
  exact if_neg fun hnot => hnot.2 (hempty hnot.1)

theorem requireBool_eq {value : Bool} (h : body.lookup name = some (.bool value)) :
    requireBool body name context = .ok value := by
  unfold requireBool
  rw [h]

theorem requireInt_eq {value minimum : Nat} (h : body.lookup name = some (.int value)) (hmin : minimum ≤ value) :
    requireInt body name context minimum = .ok value := by
  unfold requireInt
  rw [h]
  refine (if_neg ?_).trans rfl
  omega

theorem ne_nil_of_isDigest (h : isDigest text = true) : text ≠ [] := by
  rintro rfl
  exact absurd h (by decide)

theorem requireDigest_eq (h : body.lookup name = some (.str text)) (hdigest : isDigest text = true) :
    requireDigest body name context = .ok text := by
  have hread : requireStr body name context false = .ok text :=
    requireStr_eq h fun hnil => absurd hnil (ne_nil_of_isDigest hdigest)
  unfold requireDigest
  rw [bind_eq hread]
  exact if_neg (not_not.mpr hdigest)

theorem requireSchemaVersion_eq {version : Text} (h : body.lookup "schema_version" = some (.str version))
    (hne : version ≠ []) : requireSchemaVersion body version context = .ok () := by
  have hread : requireStr body "schema_version" context false = .ok version := requireStr_eq h fun hnil => absurd hnil hne
  unfold requireSchemaVersion
  rw [bind_eq hread]
  exact if_neg (not_not.mpr rfl)

theorem requireList_eq {items : List Value} {maximum : Nat} (h : body.lookup name = some (.arr items))
    (hle : items.length ≤ maximum) : requireList body name context maximum = .ok items := by
  unfold requireList
  rw [h]
  exact if_neg (Nat.not_lt.mpr hle)

theorem parseTuple_eq {α : Type} {parser : Value → Nat → Parse α} {encode : α → Value} {items : List α} (index : Nat)
    (h : ∀ item ∈ items, ∀ place, parser (sortKeys (encode item)) place = .ok item) :
    parseTuple parser index (Json.sortItems (items.map encode)) = .ok items := by
  induction items generalizing index with
  | nil => rfl
  | cons item items ih =>
    have hfirst := h item mem_cons_self index
    have hrest := ih (index + 1) fun other hother => h other (mem_cons_of_mem _ hother)
    show parseTuple parser index (sortKeys (encode item) :: Json.sortItems (items.map encode)) = _
    unfold parseTuple
    rw [bind_eq hfirst, bind_eq hrest]

theorem parseTexts_eq {items : List Text} (hne : ∀ item ∈ items, item ≠ []) :
    parseTuple (parseText context name) 0 (Json.sortItems (items.map .str)) = .ok items := by
  refine parseTuple_eq 0 fun item hitem place => ?_
  show parseText context name (.str item) place = .ok item
  unfold parseText
  exact if_neg (hne item hitem)

end

section

variable (context : Text)

theorem spanFromDict_toDict (span : Span) : spanFromDict (sortKeys span.val.toDict) context = .ok span := by
  have hchecks := refusal_eq_none_iff.mp span.property
  simp only [forall_mem_cons, decide_eq_true_eq] at hchecks
  obtain ⟨hne, hstart, hend, -⟩ := hchecks
  have hbody : closedDict (sortKeys span.val.toDict) spanFields context = .ok _ := closedDict_sortKeys rfl
  have hread := lookup_found (show span.val.entries.map Prod.fst = spanFields from rfl) (by decide)
  have hfile := hread "file" (.str span.val.file) (by simp [SourceSpan.entries])
  have hstartLine := hread "start_line" (.int span.val.startLine) (by simp [SourceSpan.entries])
  have hstartCol := hread "start_col" (.int span.val.startCol) (by simp [SourceSpan.entries])
  have hendLine := hread "end_line" (.int span.val.endLine) (by simp [SourceSpan.entries])
  have hendCol := hread "end_col" (.int span.val.endCol) (by simp [SourceSpan.entries])
  unfold spanFromDict
  rw [bind_eq hbody, bind_eq (requireStr_eq hfile fun hnil => absurd hnil hne), bind_eq (requireInt_eq hstartLine hstart),
    bind_eq (requireInt_eq hstartCol (Nat.zero_le _)), bind_eq (requireInt_eq hendLine hend),
    bind_eq (requireInt_eq hendCol (Nat.zero_le _))]
  exact constructed_ok span.property

theorem Role.value_ne_nil (role : Role) : role.value ≠ [] := by
  cases role
  · decide
  · decide

theorem identityFromDict_toDict (identity : Identity) :
    identityFromDict (sortKeys identity.toDict) context identity.role = .ok identity := by
  have hchecks := refusal_eq_none_iff.mp identity.accepted
  simp only [forall_mem_cons, decide_eq_true_eq] at hchecks
  obtain ⟨hname, hversion, hdigest, -⟩ := hchecks
  have hbody : closedDict (sortKeys identity.toDict) identityFields context = .ok _ := closedDict_sortKeys rfl
  have hread := lookup_found (show identity.entries.map Prod.fst = identityFields from rfl) (by decide)
  have hschema := hread "schema_version" (.str identitySchemaVersion) (by simp [Identity.entries])
  have hrole := hread "role" (.str identity.role.value) (by simp [Identity.entries])
  have hnameAt := hread "name" (.str identity.name) (by simp [Identity.entries])
  have hversionAt := hread "version" (.str identity.version) (by simp [Identity.entries])
  have hdigestAt := hread "digest" (.str identity.digest) (by simp [Identity.entries])
  unfold identityFromDict
  rw [bind_eq hbody, bind_eq (requireSchemaVersion_eq hschema (by decide)),
    bind_eq (requireStr_eq hrole fun hnil => absurd hnil identity.role.value_ne_nil), if_neg (not_not.mpr rfl),
    bind_eq (requireStr_eq hnameAt fun hnil => absurd hnil hname),
    bind_eq (requireStr_eq hversionAt fun hnil => absurd hnil hversion), bind_eq (requireDigest_eq hdigestAt hdigest)]
  exact constructed_ok identity.accepted

theorem dependencyFromDict_toDict (evidence : DependencyEvidence) :
    dependencyFromDict (sortKeys evidence.toDict) context = .ok evidence := by
  have hchecks := refusal_eq_none_iff.mp evidence.accepted
  simp only [forall_mem_cons, decide_eq_true_eq, Bool.and_eq_true] at hchecks
  obtain ⟨-, hdigest, hsame, ⟨hname, hversion⟩, -⟩ := hchecks
  have hbody : closedDict (sortKeys evidence.toDict) dependencyFields context = .ok _ := closedDict_sortKeys rfl
  have hread := lookup_found (show evidence.entries.map Prod.fst = dependencyFields from rfl) (by decide)
  have hschema := hread "schema_version" (.str dependencyEvidenceSchemaVersion) (by simp [DependencyEvidence.entries])
  have htext := hread "requirements_text" (.str evidence.requirementsText) (by simp [DependencyEvidence.entries])
  have hdigestAt := hread "requirements_digest" (.str evidence.requirementsDigest) (by simp [DependencyEvidence.entries])
  have hnameAt := hread "parser_name" (.str evidence.parserName) (by simp [DependencyEvidence.entries])
  have hversionAt := hread "parser_version" (.str evidence.parserVersion) (by simp [DependencyEvidence.entries])
  unfold dependencyFromDict
  rw [bind_eq hbody, bind_eq (requireSchemaVersion_eq hschema (by decide)), bind_eq (requireStr_eq htext fun _ => rfl),
    bind_eq (requireDigest_eq hdigestAt hdigest), if_neg (not_not.mpr hsame),
    bind_eq (requireStr_eq hnameAt fun hnil => absurd hnil hname),
    bind_eq (requireStr_eq hversionAt fun hnil => absurd hnil hversion)]
  exact constructed_ok evidence.accepted

theorem length_sortItems (items : List Value) : (Json.sortItems items).length = items.length := by
  rw [Json.sortItems_eq_map, length_map]

theorem importMappingFromDict_toDict (mapping : ImportMapping) :
    importMappingFromDict (sortKeys mapping.toDict) context = .ok mapping := by
  have hchecks := refusal_eq_none_iff.mp mapping.accepted
  simp only [forall_mem_cons, decide_eq_true_eq, all_eq_true] at hchecks
  obtain ⟨hdistribution, -, hcap, -, hroots, -⟩ := hchecks
  have hbody : closedDict (sortKeys mapping.toDict) importMappingFields context = .ok _ := closedDict_sortKeys rfl
  have hread := lookup_found (show mapping.entries.map Prod.fst = importMappingFields from rfl) (by decide)
  have hschema := hread "schema_version" (.str importMappingSchemaVersion) (by simp [ImportMapping.entries])
  have hdistributionAt := hread "distribution" (.str mapping.distribution) (by simp [ImportMapping.entries])
  have hrootsAt := hread "import_roots" (.arr (mapping.importRoots.map .str)) (by simp [ImportMapping.entries])
  have hlength : (Json.sortItems (mapping.importRoots.map .str)).length ≤ maxImportRootsPerMapping := by
    rw [length_sortItems, length_map]
    exact hcap
  unfold importMappingFromDict
  rw [bind_eq hbody, bind_eq (requireSchemaVersion_eq hschema (by decide)), bind_eq (requireList_eq hrootsAt hlength),
    bind_eq (parseTexts_eq hroots), bind_eq (requireStr_eq hdistributionAt fun hnil => absurd hnil hdistribution)]
  exact constructed_ok mapping.accepted

theorem referenceFromDict_toDict (reference : Reference) :
    referenceFromDict (sortKeys reference.val.toDict) context = .ok reference := by
  have hchecks := refusal_eq_none_iff.mp reference.property.2
  simp only [forall_mem_cons, decide_eq_true_eq] at hchecks
  obtain ⟨hdistribution, hdigest, -⟩ := hchecks
  have hbody : closedDict (sortKeys reference.val.toDict) referenceFields context = .ok _ := closedDict_sortKeys rfl
  have hread := lookup_found (show reference.val.entries.map Prod.fst = referenceFields from rfl) (by decide)
  have hschema := hread "schema_version" (.str codeReferenceSchemaVersion) (by simp [CodeReference.entries])
  have hdistributionAt := hread "distribution" (.str reference.val.distribution) (by simp [CodeReference.entries])
  have hspanAt := hread "span" reference.val.span.toDict (by simp [CodeReference.entries])
  have hdigestAt := hread "code_digest" (.str reference.val.codeDigest) (by simp [CodeReference.entries])
  have hspan := spanFromDict_toDict (below context "span") ⟨reference.val.span, reference.property.1⟩
  unfold referenceFromDict
  rw [bind_eq hbody, bind_eq (requireSchemaVersion_eq hschema (by decide)),
    bind_eq (requireStr_eq hdistributionAt fun hnil => absurd hnil hdistribution), hspanAt, Option.getD_some,
    bind_eq hspan, bind_eq (requireDigest_eq hdigestAt hdigest)]
  exact constructed_ok reference.property.2

theorem unresolvedState_value (state : UnresolvedState) : unresolvedState state.value = some state := by
  cases state <;> decide

theorem UnresolvedState.value_ne_nil (state : UnresolvedState) : state.value ≠ [] := by
  cases state <;> decide

theorem coverageRecordFromDict_toDict (record : FileRecord) :
    coverageRecordFromDict (sortKeys record.val.toDict) context = .ok record := by
  have hchecks := refusal_eq_none_iff.mp record.property
  simp only [forall_mem_cons, decide_eq_true_eq] at hchecks
  obtain ⟨hfile, -⟩ := hchecks
  have hbody : closedDict (sortKeys record.val.toDict) coverageRecordFields context = .ok _ := closedDict_sortKeys rfl
  have hread := lookup_found (show record.val.entries.map Prod.fst = coverageRecordFields from rfl) (by decide)
  have hschema := hread "schema_version" (.str coverageRecordSchemaVersion) (by simp [CoverageRecord.entries])
  have hfileAt := hread "file" (.str record.val.file) (by simp [CoverageRecord.entries])
  have hstateAt := hread "state" (.str record.val.state.value) (by simp [CoverageRecord.entries])
  unfold coverageRecordFromDict
  rw [bind_eq hbody, bind_eq (requireSchemaVersion_eq hschema (by decide)),
    bind_eq (requireStr_eq hstateAt fun hnil => absurd hnil record.val.state.value_ne_nil), unresolvedState_value]
  refine (bind_eq (requireStr_eq hfileAt fun hnil => absurd hnil hfile)).trans ?_
  exact constructed_ok record.property

theorem confidenceLevel_value (confidence : Confidence) : confidenceLevel confidence.value = some confidence := by
  cases confidence <;> decide

theorem Confidence.value_ne_nil (confidence : Confidence) : confidence.value ≠ [] := by
  cases confidence <;> decide

theorem licenseFromDict_toDict (evidence : LicenseEvidence) :
    licenseFromDict (sortKeys evidence.val.toDict) context = .ok evidence := by
  have hchecks := refusal_eq_none_iff.mp evidence.property.2
  simp only [forall_mem_cons, decide_eq_true_eq] at hchecks
  obtain ⟨hguess, -⟩ := hchecks
  have hbody : closedDict (sortKeys evidence.val.toDict) licenseFields context = .ok _ := closedDict_sortKeys rfl
  have hread := lookup_found (show evidence.val.entries.map Prod.fst = licenseFields from rfl) (by decide)
  have hschema := hread "schema_version" (.str licenseEvidenceSchemaVersion) (by simp [LicenseSnippetEvidence.entries])
  have hspanAt := hread "span" evidence.val.span.toDict (by simp [LicenseSnippetEvidence.entries])
  have hguessAt := hread "license_guess" (.str evidence.val.licenseGuess) (by simp [LicenseSnippetEvidence.entries])
  have hconfidenceAt := hread "confidence" (.str evidence.val.confidence.value) (by simp [LicenseSnippetEvidence.entries])
  have hadvisoryAt := hread "advisory" (.bool true) (by simp [LicenseSnippetEvidence.entries])
  have hspan := spanFromDict_toDict (below context "span") ⟨evidence.val.span, evidence.property.1⟩
  unfold licenseFromDict
  rw [bind_eq hbody, bind_eq (requireSchemaVersion_eq hschema (by decide)), bind_eq (requireBool_eq hadvisoryAt),
    if_neg (not_not.mpr rfl),
    bind_eq (requireStr_eq hconfidenceAt fun hnil => absurd hnil evidence.val.confidence.value_ne_nil),
    confidenceLevel_value, hspanAt, Option.getD_some]
  refine (bind_eq hspan).trans ((bind_eq (requireStr_eq hguessAt fun hnil => absurd hnil hguess)).trans ?_)
  exact constructed_ok evidence.property.2

/-- Coverage with no more exclusions than are read back. -/
theorem coverageSummaryFromDict_toDict (coverage : Coverage) (hexclusions : coverage.exclusions.length ≤ maxExclusions) :
    coverageSummaryFromDict (sortKeys coverage.toDict) context = .ok coverage := by
  have hchecks := refusal_eq_none_iff.mp coverage.accepted
  simp only [forall_mem_cons, decide_eq_true_eq, Bool.and_eq_true, all_eq_true] at hchecks
  obtain ⟨⟨hone, hcap⟩, hrecords, -, -, hnonempty, -, -⟩ := hchecks
  have hbody : closedDict (sortKeys coverage.toDict) coverageSummaryFields context = .ok _ := closedDict_sortKeys rfl
  have hread := lookup_found (show coverage.entries.map Prod.fst = coverageSummaryFields from rfl) (by decide)
  have hschema := hread "schema_version" (.str coverageSummarySchemaVersion) (by simp [Coverage.entries])
  have hrecordsAt := hread "records" (.arr (coverage.records.map fun record => record.val.toDict))
    (by simp [Coverage.entries])
  have hexclusionsAt := hread "exclusions" (.arr (coverage.exclusions.map .str)) (by simp [Coverage.entries])
  have hcapAt := hread "cap" (.int coverage.cap) (by simp [Coverage.entries])
  have hcappedAt := hread "capped" (.bool coverage.capped) (by simp [Coverage.entries])
  have hrecordCount : (Json.sortItems (coverage.records.map fun record => record.val.toDict)).length ≤
      maxCoverageRecords := by
    rw [length_sortItems, length_map]
    exact hrecords.trans hcap
  have hexclusionCount : (Json.sortItems (coverage.exclusions.map .str)).length ≤ maxExclusions := by
    rw [length_sortItems, length_map]
    exact hexclusions
  have hparsed : parseTuple (fun item index => coverageRecordFromDict item (atIndex context "records" index)) 0
      (Json.sortItems (coverage.records.map fun record => record.val.toDict)) = .ok coverage.records :=
    parseTuple_eq 0 fun record _ index => coverageRecordFromDict_toDict _ record
  unfold coverageSummaryFromDict
  rw [bind_eq hbody, bind_eq (requireSchemaVersion_eq hschema (by decide)),
    bind_eq (requireList_eq hrecordsAt hrecordCount), bind_eq hparsed,
    bind_eq (requireList_eq hexclusionsAt hexclusionCount), bind_eq (parseTexts_eq hnonempty),
    bind_eq (requireInt_eq hcapAt hone), bind_eq (requireBool_eq hcappedAt)]
  exact constructed_ok coverage.accepted

theorem exclusions_le_of_ok {coverage other : Coverage}
    (h : coverageSummaryFromDict (sortKeys coverage.toDict) context = .ok other) :
    coverage.exclusions.length ≤ maxExclusions := by
  have hbody : closedDict (sortKeys coverage.toDict) coverageSummaryFields context = .ok _ := closedDict_sortKeys rfl
  have hread := lookup_found (show coverage.entries.map Prod.fst = coverageSummaryFields from rfl) (by decide)
  have hexclusionsAt := hread "exclusions" (.arr (coverage.exclusions.map .str)) (by simp [Coverage.entries])
  unfold coverageSummaryFromDict at h
  rw [bind_eq hbody] at h
  obtain ⟨u, -, h⟩ := bind_ok h
  obtain ⟨recordsField, -, h⟩ := bind_ok h
  obtain ⟨records, -, h⟩ := bind_ok h
  obtain ⟨exclusionsField, hlist, -⟩ := bind_ok h
  unfold requireList at hlist
  rw [hexclusionsAt] at hlist
  obtain ⟨hbound, -⟩ := guard_ok hlist
  have hcount := Nat.not_lt.mp hbound
  rwa [length_sortItems, length_map] at hcount

end

theorem plain_obj {fields : List (String × Value)} {names : List String} (hnames : fields.map Prod.fst = names)
    (hnodup : names.Nodup) (hplain : ∀ field ∈ fields, Plain field.2) : Plain (.obj fields) := by
  rw [← hnames] at hnodup
  exact ⟨hnodup, Json.plainFields_iff.mpr hplain⟩

theorem plain_arr {α : Type} {items : List α} {encode : α → Value} (h : ∀ item, Plain (encode item)) :
    Plain (.arr (items.map encode)) := by
  refine Json.plainItems_iff.mpr fun value hvalue => ?_
  obtain ⟨item, -, rfl⟩ := mem_map.mp hvalue
  exact h item

theorem plain_str (text : Text) : Plain (.str text) := trivial

theorem SourceSpan.plain (span : SourceSpan) : Plain span.toDict :=
  plain_obj (show span.entries.map Prod.fst = spanFields from rfl) (by decide)
    (by simp [SourceSpan.entries, Plain])

theorem Identity.plain (identity : Identity) : Plain identity.toDict :=
  plain_obj (show identity.entries.map Prod.fst = identityFields from rfl) (by decide)
    (by simp [Identity.entries, Plain])

theorem DependencyEvidence.plain (evidence : DependencyEvidence) : Plain evidence.toDict :=
  plain_obj (show evidence.entries.map Prod.fst = dependencyFields from rfl) (by decide)
    (by simp [DependencyEvidence.entries, Plain])

theorem ImportMapping.plain (mapping : ImportMapping) : Plain mapping.toDict := by
  have hroots : Plain (.arr (mapping.importRoots.map .str)) := plain_arr plain_str
  exact plain_obj (show mapping.entries.map Prod.fst = importMappingFields from rfl) (by decide)
    (by simp [ImportMapping.entries, plain_str, hroots])

theorem CodeReference.plain (reference : CodeReference) : Plain reference.toDict :=
  plain_obj (show reference.entries.map Prod.fst = referenceFields from rfl) (by decide)
    (by simp [CodeReference.entries, plain_str, reference.span.plain])

theorem CoverageRecord.plain (record : CoverageRecord) : Plain record.toDict :=
  plain_obj (show record.entries.map Prod.fst = coverageRecordFields from rfl) (by decide)
    (by simp [CoverageRecord.entries, plain_str])

theorem Coverage.plain (coverage : Coverage) : Plain coverage.toDict := by
  have hrecords : Plain (.arr (coverage.records.map fun record => record.val.toDict)) :=
    plain_arr fun record => record.val.plain
  have hexclusions : Plain (.arr (coverage.exclusions.map .str)) := plain_arr plain_str
  have hcap : Plain (.int coverage.cap) := trivial
  have hcapped : Plain (.bool coverage.capped) := trivial
  exact plain_obj (show coverage.entries.map Prod.fst = coverageSummaryFields from rfl) (by decide)
    (by simp [Coverage.entries, plain_str, hrecords, hexclusions, hcap, hcapped, -map_subtype])

theorem LicenseSnippetEvidence.plain (evidence : LicenseSnippetEvidence) : Plain evidence.toDict := by
  have hadvisory : Plain (.bool true) := trivial
  exact plain_obj (show evidence.entries.map Prod.fst = licenseFields from rfl) (by decide)
    (by simp [LicenseSnippetEvidence.entries, plain_str, evidence.span.plain, hadvisory])

theorem UsageReport.plain (report : UsageReport) : Plain report.toDict := by
  have hmappings : Plain (.arr (report.importMappings.map ImportMapping.toDict)) := plain_arr ImportMapping.plain
  have hreferences : Plain (.arr (report.references.map fun reference => reference.val.toDict)) :=
    plain_arr fun reference => reference.val.plain
  have hlicenses : Plain (.arr (report.licenseEvidence.map fun evidence => evidence.val.toDict)) :=
    plain_arr fun evidence => evidence.val.plain
  have hnames : (report.entries ++ [("report_digest", Value.str report.reportDigest)]).map Prod.fst = reportFields := rfl
  refine plain_obj hnames (by decide) ?_
  simp [ReportContent.entries, plain_str, Identity.plain, DependencyEvidence.plain, Coverage.plain, hmappings, hreferences,
    hlicenses, -map_subtype]

section

variable {report other : UsageReport}

theorem reportFromJsonBytes_toJsonBytes (report : UsageReport) :
    reportFromJsonBytes report.toJsonBytes = reportFromDict (sortKeys report.toDict) := by
  have hloads := Json.loads_dumps report.plain (Or.inl rfl)
  rw [append_nil] at hloads
  unfold reportFromJsonBytes UsageReport.toJsonBytes
  rw [Utf8.decodeText_encodeText, Option.bind_some, hloads]

theorem report_lookup (report : UsageReport) (name : String) (value : Value)
    (hmem : (name, value) ∈ report.entries ++ [("report_digest", .str report.reportDigest)]) :
    (sortedFields (report.entries ++ [("report_digest", .str report.reportDigest)])).lookup name = some (sortKeys value) :=
  lookup_found (show _ = reportFields from rfl) (by decide) name value hmem

theorem report_body (report : UsageReport) :
    closedDict (sortKeys report.toDict) reportFields "report".toList =
      .ok (sortedFields (report.entries ++ [("report_digest", .str report.reportDigest)])) :=
  closedDict_sortKeys rfl

theorem exclusions_le_of_read (h : reportFromDict (sortKeys report.toDict) = .ok other) :
    report.coverage.exclusions.length ≤ maxExclusions := by
  have hcoverageAt := report_lookup report "coverage" report.coverage.toDict (by simp [ReportContent.entries])
  unfold reportFromDict at h
  dsimp only at h
  rw [bind_eq (report_body report), hcoverageAt, Option.getD_some] at h
  obtain ⟨u, -, h⟩ := bind_ok h
  obtain ⟨provider, -, h⟩ := bind_ok h
  obtain ⟨consumer, -, h⟩ := bind_ok h
  obtain ⟨dependency, -, h⟩ := bind_ok h
  obtain ⟨mappingsField, -, h⟩ := bind_ok h
  obtain ⟨mappings, -, h⟩ := bind_ok h
  obtain ⟨referencesField, -, h⟩ := bind_ok h
  obtain ⟨references, -, h⟩ := bind_ok h
  obtain ⟨coverage, hcoverage, -⟩ := bind_ok h
  exact exclusions_le_of_ok _ hcoverage

/-- A report with its own digest and no more exclusions than a reader takes is read back. -/
theorem reportFromDict_toDict (hexclusions : report.coverage.exclusions.length ≤ maxExclusions)
    (hdigest : report.reportDigest = report.recomputeDigest) : reportFromDict (sortKeys report.toDict) = .ok report := by
  have hchecks := refusal_eq_none_iff.mp report.accepted
  simp only [forall_mem_cons, decide_eq_true_eq, Bool.and_eq_true] at hchecks
  obtain ⟨⟨htool, hcontract⟩, hprovider, hconsumer, hmappings, -, hreferences, hlicenses, hvalid, -⟩ := hchecks
  have hread := report_lookup report
  have hschemaAt := hread "schema_version" (.str reportSchemaVersion) (by simp [ReportContent.entries])
  have hproviderAt := hread "provider_identity" report.providerIdentity.toDict (by simp [ReportContent.entries])
  have hconsumerAt := hread "consumer_identity" report.consumerIdentity.toDict (by simp [ReportContent.entries])
  have hdependencyAt := hread "dependency_evidence" report.dependencyEvidence.toDict (by simp [ReportContent.entries])
  have hmappingsAt := hread "import_mappings" (.arr (report.importMappings.map ImportMapping.toDict))
    (by simp [ReportContent.entries])
  have hreferencesAt := hread "references" (.arr (report.references.map fun reference => reference.val.toDict))
    (by simp [ReportContent.entries])
  have hcoverageAt := hread "coverage" report.coverage.toDict (by simp [ReportContent.entries])
  have hlicensesAt := hread "license_evidence" (.arr (report.licenseEvidence.map fun evidence => evidence.val.toDict))
    (by simp [ReportContent.entries])
  have hdigestAt := hread "report_digest" (.str report.reportDigest) (by simp)
  have htoolAt := hread "tool_version" (.str report.toolVersion) (by simp [ReportContent.entries])
  have hcontractAt := hread "contract_version" (.str report.contractVersion) (by simp [ReportContent.entries])
  have hproviderRead := identityFromDict_toDict (below "report".toList "provider_identity") report.providerIdentity
  have hconsumerRead := identityFromDict_toDict (below "report".toList "consumer_identity") report.consumerIdentity
  rw [hprovider] at hproviderRead
  rw [hconsumer] at hconsumerRead
  have hmappingsRead : parseTuple (fun item index =>
      importMappingFromDict item (atIndex "report".toList "import_mappings" index)) 0
      (Json.sortItems (report.importMappings.map ImportMapping.toDict)) = .ok report.importMappings :=
    parseTuple_eq 0 fun mapping _ index => importMappingFromDict_toDict _ mapping
  have hreferencesRead : parseTuple (fun item index =>
      referenceFromDict item (atIndex "report".toList "references" index)) 0
      (Json.sortItems (report.references.map fun reference => reference.val.toDict)) = .ok report.references :=
    parseTuple_eq 0 fun reference _ index => referenceFromDict_toDict _ reference
  have hlicensesRead : parseTuple (fun item index =>
      licenseFromDict item (atIndex "report".toList "license_evidence" index)) 0
      (Json.sortItems (report.licenseEvidence.map fun evidence => evidence.val.toDict)) = .ok report.licenseEvidence :=
    parseTuple_eq 0 fun evidence _ index => licenseFromDict_toDict _ evidence
  unfold reportFromDict
  dsimp only
  rw [bind_eq (report_body report), bind_eq (requireSchemaVersion_eq hschemaAt (by decide)), hproviderAt, Option.getD_some,
    bind_eq hproviderRead, hconsumerAt, Option.getD_some, bind_eq hconsumerRead, hdependencyAt, Option.getD_some,
    bind_eq (dependencyFromDict_toDict _ report.dependencyEvidence),
    bind_eq (requireList_eq hmappingsAt (by rwa [length_sortItems, length_map])), bind_eq hmappingsRead,
    bind_eq (requireList_eq hreferencesAt (by rwa [length_sortItems, length_map])), bind_eq hreferencesRead,
    hcoverageAt, Option.getD_some, bind_eq (coverageSummaryFromDict_toDict _ report.coverage hexclusions),
    bind_eq (requireList_eq hlicensesAt (by rwa [length_sortItems, length_map])), bind_eq hlicensesRead,
    bind_eq (requireDigest_eq hdigestAt hvalid), bind_eq (requireStr_eq htoolAt fun hnil => absurd hnil htool),
    bind_eq (requireStr_eq hcontractAt fun hnil => absurd hnil hcontract)]
  refine (bind_eq (constructed_ok report.accepted)).trans ?_
  exact if_neg (not_not.mpr hdigest.symm)

theorem buildReport_ok {content : ReportContent} (h : buildReport content = .ok report) :
    report.toReportContent = content ∧ report.reportDigest = report.recomputeDigest := by
  unfold buildReport at h
  split at h
  next =>
    cases h
    exact ⟨rfl, rfl⟩
  next => cases h

/-- A report that is built is read back from its canonical bytes exactly when its coverage lists no more exclusions than
the reader of coverage takes. -/
theorem built_report_reads_back_iff {content : ReportContent} (h : buildReport content = .ok report) :
    reportFromJsonBytes report.toJsonBytes = .ok report ↔ content.coverage.exclusions.length ≤ maxExclusions := by
  obtain ⟨rfl, hdigest⟩ := buildReport_ok h
  rw [reportFromJsonBytes_toJsonBytes]
  exact ⟨exclusions_le_of_read, fun hexclusions => reportFromDict_toDict hexclusions hdigest⟩

end

def sampleIdentity (role : Role) : Identity :=
  ⟨role, "p".toList, "1".toList, "sha256:".toList ++ List.replicate 64 '0', by decide +kernel⟩

def sampleDependency : DependencyEvidence where
  requirementsText := []
  requirementsDigest := digestBytes []
  parserName := "p".toList
  parserVersion := "1".toList
  accepted := by
    have hdigest : isDigest (digestBytes []) = true := License.isDigest_sha []
    refine refusal_eq_none_iff.mpr ?_
    simp [Utf8.encodeText, hdigest]

/-- Contents whose coverage lists only files that were left out. -/
def leavingOut (exclusions : List Text) (h : coverageRefusal [] exclusions maxCoverageCap = none) : ReportContent where
  toolVersion := "1".toList
  contractVersion := "1".toList
  providerIdentity := sampleIdentity .provider
  consumerIdentity := sampleIdentity .consumer
  dependencyEvidence := sampleDependency
  importMappings := []
  references := []
  coverage := ⟨[], exclusions, maxCoverageCap, true, h⟩
  licenseEvidence := []

theorem leavingOut_built {exclusions : List Text} (h : coverageRefusal [] exclusions maxCoverageCap = none) :
    ∃ report, buildReport (leavingOut exclusions h) = .ok report := by
  have hdigest : isDigest (leavingOut exclusions h).recomputeDigest = true := License.isDigest_sha _
  have haccepted : reportRefusal (leavingOut exclusions h) (leavingOut exclusions h).recomputeDigest = none := by
    refine refusal_eq_none_iff.mpr ?_
    simp only [forall_mem_cons, decide_eq_true_eq, hdigest]
    simp [leavingOut, sampleIdentity]
  exact ⟨_, dif_pos haccepted⟩

def vendored : List Text := ["vendor.py".toList]

theorem vendored_accepted : coverageRefusal [] vendored maxCoverageCap = none := by decide +kernel

theorem built_report_reads_back_iff_vendored :
    ∃ report, buildReport (leavingOut vendored vendored_accepted) = .ok report ∧
      (reportFromJsonBytes report.toJsonBytes = .ok report ↔ vendored.length ≤ maxExclusions) := by
  obtain ⟨report, hreport⟩ := leavingOut_built vendored_accepted
  exact ⟨report, hreport, built_report_reads_back_iff hreport⟩

def crowd : List Text := (List.range 10001).map fun n => [Char.ofNat (0x4e00 + n)]

theorem crowd_accepted : coverageRefusal [] crowd maxCoverageCap = none := by
  have hdistinct : crowd.Nodup := by
    have hcode : ∀ n < 10001, (Char.ofNat (0x4e00 + n)).toNat = 0x4e00 + n := by
      intro n hn
      have hvalid : (0x4e00 + n).isValidChar := Or.inl (by omega)
      unfold Char.ofNat
      rw [dif_pos hvalid]
      rfl
    refine nodup_range.map_on ?_
    intro a ha b hb h
    have hsame := congrArg Char.toNat (List.cons.inj h).1
    rw [hcode a (mem_range.mp ha), hcode b (mem_range.mp hb)] at hsame
    omega
  refine refusal_eq_none_iff.mpr ?_
  simp only [forall_mem_cons, decide_eq_true_eq, hdistinct]
  simp [crowd, maxCoverageCap]

theorem crowd_not_read_back :
    ∃ report, buildReport (leavingOut crowd crowd_accepted) = .ok report ∧
      reportFromJsonBytes report.toJsonBytes ≠ .ok report := by
  obtain ⟨report, hreport⟩ := leavingOut_built crowd_accepted
  refine ⟨report, hreport, ?_⟩
  intro hread
  rw [reportFromJsonBytes_toJsonBytes] at hread
  have hcount := exclusions_le_of_read hread
  rw [(buildReport_ok hreport).1] at hcount
  simp [leavingOut, crowd, maxExclusions, maxCoverageCap] at hcount

end Leitir.Usage
