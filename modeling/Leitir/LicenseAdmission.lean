import Leitir.LicenseDecision

namespace Leitir.License

open ExceptRun List KeyedList

section

theorem textKey_inj {a b : Text} (h : textKey a = textKey b) : a = b := by
  have hdecoded := congrArg Utf8.decodeText h
  unfold textKey at hdecoded
  rw [Utf8.decodeText_encodeText, Utf8.decodeText_encodeText] at hdecoded
  exact Option.some.inj hdecoded

theorem orderedSources_perm {sources others : List SourceFields} (hperm : sources.Perm others)
    (hnodup : (sources.map SourceFields.packetPath).Nodup) : orderedSources sources = orderedSources others := by
  refine sortBy_congr hperm ?_
  intro a ha b hb hkey
  have hpath : textKey a.packetPath = textKey b.packetPath := (List.cons.inj hkey).1
  exact inj_on_of_nodup_map hnodup ha hb (textKey_inj hpath)

theorem nodup_orderedSources {α : Type} (field : SourceFields → α) (sources : List SourceFields) :
    ((orderedSources sources).map field).Nodup ↔ (sources.map field).Nodup :=
  ((perm_sortBy _ sources).map field).nodup_iff

variable (loads : Text → Option (List (Text × Toml))) {sources others : List BundledSource}
  (recipient : RecipientLicensePolicy) (policy : LicensePolicy)

theorem evaluate_perm (hperm : sources.Perm others) :
    evaluateLicensePolicy loads others recipient policy = evaluateLicensePolicy loads sources recipient policy := by
  have hfields := hperm.map BundledSource.toSourceFields
  unfold evaluateLicensePolicy
  dsimp only
  by_cases hempty : sources = []
  · rw [if_pos hempty, if_pos (perm_nil.mp (hempty ▸ hperm.symm))]
  have hother : others ≠ [] := fun h => hempty (perm_nil.mp (h ▸ hperm))
  rw [if_neg hempty, if_neg hother]
  have hpaths := (hfields.map SourceFields.packetPath).nodup_iff
  have hids := (hfields.map SourceFields.sourceRecordId).nodup_iff
  simp only [nodup_orderedSources, hpaths, hids]
  split
  next => rfl
  next hnodup =>
    push Not at hnodup
    rw [orderedSources_perm hfields.symm hnodup.1]

end

section

variable {recipient : RecipientFields} {policy : PolicyFields} {loads : Text → Option (List (Text × Toml))}
  {resolutions : List LicenseResolution} {resolved : List (SourceFields × LicenseResolution)}

theorem prohibition_none (h : prohibition recipient resolutions resolved = none) :
    ∀ pair ∈ resolved, ∀ expression, pair.2.expression = some expression →
      expression ∉ recipient.prohibitedSpdxExpressions := by
  induction resolved with
  | nil =>
    intro pair hpair
    cases hpair
  | cons head rest ih =>
    obtain ⟨source, resolution⟩ := head
    unfold prohibition at h
    intro pair hpair expression hexpression
    rcases mem_cons.mp hpair with rfl | hpair
    · rw [hexpression] at h
      dsimp only at h
      split at h
      next => cases h
      next hnot => exact hnot
    · refine ih ?_ pair hpair expression hexpression
      split at h
      next =>
        split at h
        next => cases h
        next => exact h
      next => exact h

theorem admission_none (h : admission recipient policy resolutions resolved = .ok none) :
    ∀ pair ∈ resolved, pair.2.state = .resolved ∧ ∃ expression, pair.2.expression = some expression ∧
      expression ∈ policy.reviewedExpressions ∧ expression ∈ recipient.allowedSpdxExpressions := by
  induction resolved with
  | nil =>
    intro pair hpair
    cases hpair
  | cons head rest ih =>
    obtain ⟨source, resolution⟩ := head
    unfold admission at h
    split at h
    next => cases h
    next hstate =>
      split at h
      next => cases h
      next expression hexpression =>
        split at h
        next => cases h
        next hreviewed =>
          split at h
          next =>
            obtain ⟨ruleId, -, h⟩ := bind_ok h
            cases h
          next hallowed =>
            intro pair hpair
            rcases mem_cons.mp hpair with rfl | hpair
            · exact ⟨not_not.mp hstate, expression, hexpression, not_not.mp hreviewed, not_not.mp hallowed⟩
            · exact ih h pair hpair

theorem prohibition_status {decision : LicenseDecision} (h : prohibition recipient resolutions resolved = some decision) :
    decision.status = .reject := by
  induction resolved with
  | nil => cases h
  | cons head rest ih =>
    obtain ⟨source, resolution⟩ := head
    unfold prohibition at h
    split at h
    next =>
      split at h
      next =>
        cases h
        rfl
      next => exact ih h
    next => exact ih h

theorem admission_status {decision : LicenseDecision} (h : admission recipient policy resolutions resolved = .ok (some decision)) :
    decision.status = .reject := by
  induction resolved with
  | nil => cases h
  | cons head rest ih =>
    obtain ⟨source, resolution⟩ := head
    unfold admission at h
    split at h
    next =>
      cases h
      rfl
    next =>
      split at h
      next => cases h
      next =>
        split at h
        next =>
          cases h
          rfl
        next =>
          split at h
          next =>
            obtain ⟨ruleId, -, h⟩ := bind_ok h
            cases h
            rfl
          next => exact ih h

/-- What an accepted decision went through. -/
theorem decideSources_pass {ordered : List SourceFields} {decision : LicenseDecision}
    (h : decideSources recipient policy loads ordered = .ok decision) (hpass : decision.accepted) :
    ∃ sets, (ordered.mapM fun source => resolveSourceLicense loads source policy) = .ok decision.resolutions ∧
      prohibition recipient decision.resolutions (ordered.zip decision.resolutions) = none ∧
      admission recipient policy decision.resolutions (ordered.zip decision.resolutions) = .ok none ∧
      ((ordered.zip decision.resolutions).mapM fun (source, resolution) =>
        sourceObligations recipient policy loads source resolution) = .ok sets ∧
      decision.obligations = some (manifestOf recipient policy (decision.resolutions.flatMap LicenseResolution.evidence) sets) := by
  unfold decideSources at h
  obtain ⟨resolutions, hresolutions, h⟩ := bind_ok h
  dsimp only at h
  split at h
  next rejected hprohibition =>
    cases h
    exact absurd hpass (by rw [LicenseDecision.accepted, prohibition_status hprohibition]; decide)
  next hprohibition =>
    obtain ⟨admitted, hadmission, h⟩ := bind_ok h
    split at h
    next rejected =>
      cases h
      exact absurd hpass (by rw [LicenseDecision.accepted, admission_status hadmission]; decide)
    next =>
      split at h
      next =>
        cases h
        cases hpass
      next => cases h
      next sets hsets =>
        cases h
        exact ⟨sets, hresolutions, hprohibition, hadmission, hsets, rfl⟩

end

section

variable {recipient : RecipientFields} {policy : PolicyFields} {loads : Text → Option (List (Text × Toml))}

theorem sourceObligations_ids {source : SourceFields} {resolution : LicenseResolution}
    {pair : SourceObligationSet × List ObligationRecord}
    (h : sourceObligations recipient policy loads source resolution = .ok pair) :
    pair.1.obligationRecordIds = pair.2.map recordId := by
  unfold sourceObligations at h
  split at h
  next => cases h
  next => cases h
  next =>
    obtain ⟨ruleId, -, h⟩ := bind_ok h
    obtain ⟨texts, -, h⟩ := bind_ok h
    obtain ⟨textDigest, -, h⟩ := bind_ok h
    obtain ⟨identified, -, h⟩ := bind_ok h
    cases h
    rfl

theorem recordById_of_mem {records : List ObligationRecord} {record : ObligationRecord} (h : record ∈ records) :
    ∃ found ∈ records, recordById records (recordId record) = .ok found ∧ recordId found = recordId record := by
  unfold recordById
  split
  next hnone =>
    have hno := find?_eq_none.mp hnone record (mem_reverse.mpr h)
    exact absurd (decide_eq_true rfl) hno
  next found hfound =>
    have hid := find?_some hfound
    exact ⟨found, mem_reverse.mp (mem_of_find?_eq_some hfound), rfl, of_decide_eq_true hid⟩

theorem manifestOf_closed {evidence : List LicenseEvidence} {sets : List (SourceObligationSet × List ObligationRecord)}
    (h : ∀ pair ∈ sets, pair.1.obligationRecordIds = pair.2.map recordId) :
    ∀ sourceSet ∈ (manifestOf recipient policy evidence sets).sourceSets, ∀ id ∈ sourceSet.obligationRecordIds,
      ∃ record ∈ (manifestOf recipient policy evidence sets).obligations, recordId record = id := by
  intro sourceSet hset id hid
  obtain ⟨pair, hpair, rfl⟩ := mem_map.mp (mem_sortBy.mp hset)
  rw [h pair hpair] at hid
  obtain ⟨record, hrecord, rfl⟩ := mem_map.mp hid
  exact ⟨record, mem_sortBy.mpr (mem_flatMap.mpr ⟨pair, hpair, hrecord⟩), rfl⟩

theorem manifestOf_listed {evidence : List LicenseEvidence} {sets : List (SourceObligationSet × List ObligationRecord)}
    (h : ∀ pair ∈ sets, pair.1.obligationRecordIds = pair.2.map recordId) :
    ∀ record ∈ (manifestOf recipient policy evidence sets).obligations,
      ∃ sourceSet ∈ (manifestOf recipient policy evidence sets).sourceSets, recordId record ∈ sourceSet.obligationRecordIds := by
  intro record hrecord
  obtain ⟨pair, hpair, hmem⟩ := mem_flatMap.mp (mem_sortBy.mp hrecord)
  refine ⟨pair.1, mem_sortBy.mpr (mem_map_of_mem hpair), ?_⟩
  rw [h pair hpair]
  exact mem_map_of_mem hmem

theorem renderAttribution_ok {manifest : Obligations}
    (h : ∀ sourceSet ∈ manifest.sourceSets, ∀ id ∈ sourceSet.obligationRecordIds,
      ∃ record ∈ manifest.obligations, recordId record = id) :
    ∃ rendered, renderAttribution manifest = .ok rendered := by
  have hsections : ∃ sections, manifest.sourceSets.mapM (renderSet manifest.obligations) = .ok sections := by
    refine mapM_ok_of_mem ?_
    intro sourceSet hset
    have hlines : ∃ lines, (sourceSet.obligationRecordIds.mapM fun id => (recordById manifest.obligations id).map renderRecord) =
        .ok lines := by
      refine mapM_ok_of_mem ?_
      intro id hid
      obtain ⟨record, hrecord, rfl⟩ := h sourceSet hset id hid
      obtain ⟨found, -, hfound, -⟩ := recordById_of_mem hrecord
      exact ⟨renderRecord found, by rw [hfound]; rfl⟩
    obtain ⟨lines, hlines⟩ := hlines
    unfold renderSet
    rw [hlines]
    exact ⟨_, rfl⟩
  obtain ⟨sections, hsections⟩ := hsections
  unfold renderAttribution
  rw [hsections]
  exact ⟨_, rfl⟩

end

section

def AdmittedLeaves (recipient : RecipientFields) (policy : PolicyFields) (expression : Text) : Prop :=
  ∃ tree, parse expression = .ok tree ∧ ∀ leaf ∈ tree.leaves,
    leaf ∈ policy.reviewedExpressions ∧ leaf ∈ recipient.allowedSpdxExpressions ∧ leaf ∉ recipient.prohibitedSpdxExpressions

/-- An accepted decision: each source has an admitted licence, and each of its obligations a notice. -/
structure Closed (loads : Text → Option (List (Text × Toml))) (sources : List BundledSource) (recipient : RecipientFields)
    (policy : PolicyFields) (decision : LicenseDecision) : Prop where
  admitted : ∀ source ∈ sources, ∃ resolution ∈ decision.resolutions,
    resolveSourceLicense loads source.toSourceFields policy = .ok resolution ∧ resolution.state = .resolved ∧
      ∃ expression, resolution.expression = some expression ∧ AdmittedLeaves recipient policy expression
  noticed : ∃ manifest, decision.obligations = some manifest ∧
    (∃ rendered, renderAttribution manifest = .ok rendered) ∧
    (∀ sourceSet ∈ manifest.sourceSets, ∀ id ∈ sourceSet.obligationRecordIds,
      ∃ record ∈ manifest.obligations, recordById manifest.obligations id = .ok record ∧ recordId record = id) ∧
    ∀ record ∈ manifest.obligations, ∃ sourceSet ∈ manifest.sourceSets, recordId record ∈ sourceSet.obligationRecordIds

variable {loads : Text → Option (List (Text × Toml))} {sources : List BundledSource} {recipient : RecipientLicensePolicy}
  {policy : LicensePolicy} {decision : LicenseDecision}

theorem evaluate_ok (h : evaluateLicensePolicy loads sources recipient policy = .ok decision) :
    decideSources recipient.toRecipientFields policy.toPolicyFields loads
      (orderedSources (sources.map BundledSource.toSourceFields)) = .ok decision := by
  unfold evaluateLicensePolicy at h
  dsimp only at h
  split at h
  next => cases h
  next =>
    split at h
    next => cases h
    next => exact h

theorem admittedLeaves_of_reviewed {expression : Text} (hreviewed : expression ∈ policy.reviewedExpressions)
    (hallowed : expression ∈ recipient.allowedSpdxExpressions) (hnot : expression ∉ recipient.prohibitedSpdxExpressions) :
    AdmittedLeaves recipient.toRecipientFields policy.toPolicyFields expression := by
  obtain ⟨-, -, -, -, hcatalog, -⟩ := policy.checked
  obtain ⟨tree, htree, hleaves⟩ := parse_reviewed ((hcatalog expression).mp hreviewed)
  refine ⟨tree, htree, ?_⟩
  intro leaf hleaf
  rw [hleaves] at hleaf
  rw [mem_singleton.mp hleaf]
  exact ⟨hreviewed, hallowed, hnot⟩

theorem closed_of_accepted (h : evaluateLicensePolicy loads sources recipient policy = .ok decision) (hpass : decision.accepted) :
    Closed loads sources recipient.toRecipientFields policy.toPolicyFields decision := by
  obtain ⟨sets, hresolutions, hprohibition, hadmission, hsets, hobligations⟩ := decideSources_pass (evaluate_ok h) hpass
  have hids : ∀ pair ∈ sets, pair.1.obligationRecordIds = pair.2.map recordId := by
    intro pair hpair
    obtain ⟨resolved, -, hresolved⟩ := (mapM_ok_mem hsets).2 pair hpair
    exact sourceObligations_ids hresolved
  refine ⟨?_, _, hobligations, renderAttribution_ok (manifestOf_closed hids), ?_, manifestOf_listed hids⟩
  · intro source hsource
    have hmem : source.toSourceFields ∈ orderedSources (sources.map BundledSource.toSourceFields) :=
      mem_sortBy.mpr (mem_map_of_mem hsource)
    obtain ⟨resolution, hpair, hresolution⟩ := mapM_ok_zip hresolutions source.toSourceFields hmem
    obtain ⟨hstate, expression, hexpression, hreviewed, hallowed⟩ := admission_none hadmission _ hpair
    have hnot := prohibition_none hprohibition _ hpair expression hexpression
    exact ⟨resolution, (of_mem_zip hpair).2, hresolution, hstate, expression, hexpression,
      admittedLeaves_of_reviewed hreviewed hallowed hnot⟩
  · intro sourceSet hset id hid
    obtain ⟨record, hrecord, rfl⟩ := manifestOf_closed hids sourceSet hset id hid
    exact recordById_of_mem hrecord

def sampleFile (path : String) : VerifiedBytes where
  path := path.toList
  content := ascii "# SPDX-License-Identifier: MIT\n"
  sha256 := "sha256:5be230fa13a76b43315ce684e1e849c7104db7aa30af69f7d91144b4b665e2d3".toList
  packageScope := ['.']

def sampleFields (path : String) : SourceFields where
  sourceRecordId := path.toList
  packetPath := "src/".toList ++ path.toList
  sourcePath := path.toList
  sourceBytes := (sampleFile path).content
  sourceBytesSha256 := (sampleFile path).sha256
  packageScope := ['.']
  verifiedFiles := [sampleFile path]
  contributingSourceRecordIds := [path.toList]
  modifiedFromSha256 := none

def firstSource : BundledSource := ⟨sampleFields "a.py", by decide +kernel⟩

def secondSource : BundledSource := ⟨sampleFields "b.py", by decide +kernel⟩

def samplePolicy : LicensePolicy where
  authority := licensePolicyAuthority
  policyId := licensePolicyId
  policyVersion := "v1".toList
  spdxGrammarId := spdxGrammar
  spdxLicenseIds := reviewed
  spdxExceptionIds := []
  reviewedExpressions := reviewed
  compatibilityRuleIds := [("MIT".toList, "singleton-permissive-mit-v1".toList)]
  licenseTextDigests :=
    [("MIT".toList, "sha256:e3b0c44298fc1c149afbf4c8996fb92427ae41e4649b934ca495991b7852b855".toList)]
  contentDigest := "sha256:9b34d24321b8091114f488bc9045229ba6ae44631e4fb14db2ddc9654527b9e7".toList
  checked := by
    refine ⟨rfl, rfl, rfl, by decide +kernel, fun _ => Iff.rfl, ?_⟩
    unfold sha
    rw [Sha256.hexdigest_eq]
    decide +kernel

theorem sample_expressions (expression : Text) (h : (canonicalizeSpdxExpression expression).toOption = some expression) :
    ExpressionsChecked [expression] := by
  refine ⟨?_, pairwise_singleton _ _⟩
  intro other hother
  rw [mem_singleton.mp hother]
  cases hcanonical : canonicalizeSpdxExpression expression with
  | error message =>
    rw [hcanonical] at h
    cases h
  | ok canonical =>
    rw [hcanonical] at h
    exact ⟨expression, hcanonical.trans (congrArg Except.ok (Option.some.inj h))⟩

def sampleRecipient : RecipientLicensePolicy where
  policyId := "recipient".toList
  policyVersion := "v1".toList
  useCategory := "internal".toList
  allowedSpdxExpressions := ["MIT".toList]
  prohibitedSpdxExpressions := ["GPL-3.0-only".toList]
  contentDigest := "sha256:9e55f7897e1ca486d2e59e2fd9530841ccb9dc1d0fac283de1f00a5c1845ddb9".toList
  checked := by
    refine ⟨by decide +kernel, by decide +kernel, by decide +kernel, sample_expressions _ (by decide +kernel),
      sample_expressions _ (by decide +kernel), by decide +kernel, ?_⟩
    unfold sha
    rw [Sha256.hexdigest_eq]
    decide +kernel

/-- The decision does not depend on the order of the sources, and an accepted one is closed. -/
theorem evaluateLicensePolicy_admission (loads : Text → Option (List (Text × Toml))) (sources others : List BundledSource)
    (recipient : RecipientLicensePolicy) (policy : LicensePolicy) (hperm : sources.Perm others) :
    evaluateLicensePolicy loads others recipient policy = evaluateLicensePolicy loads sources recipient policy ∧
      ∀ decision, evaluateLicensePolicy loads sources recipient policy = .ok decision → decision.accepted →
        Closed loads sources recipient.toRecipientFields policy.toPolicyFields decision := by
  refine ⟨evaluate_perm loads recipient policy hperm, ?_⟩
  intro decision hdecision hpass
  exact closed_of_accepted hdecision hpass

/-- Two sources have one decision in both orders, and a source under an allowed licence is accepted. -/
theorem evaluateLicensePolicy_admission_sample :
    evaluateLicensePolicy (fun _ => none) [secondSource, firstSource] sampleRecipient samplePolicy =
        evaluateLicensePolicy (fun _ => none) [firstSource, secondSource] sampleRecipient samplePolicy ∧
      ∃ decision, evaluateLicensePolicy (fun _ => none) [firstSource] sampleRecipient samplePolicy = .ok decision ∧
        decision.accepted ∧ Closed (fun _ => none) [firstSource] sampleRecipient.toRecipientFields
          samplePolicy.toPolicyFields decision := by
  obtain ⟨horder, -⟩ := evaluateLicensePolicy_admission (fun _ => none) [firstSource, secondSource]
    [secondSource, firstSource] sampleRecipient samplePolicy (List.Perm.swap _ _ _)
  obtain ⟨-, hclosed⟩ := evaluateLicensePolicy_admission (fun _ => none) [firstSource] [firstSource] sampleRecipient
    samplePolicy (List.Perm.refl _)
  have hstatus : (evaluateLicensePolicy (fun _ => none) [firstSource] sampleRecipient samplePolicy).toOption.map
      LicenseDecision.status = some .pass := by decide +kernel
  refine ⟨horder, ?_⟩
  cases hrun : evaluateLicensePolicy (fun _ => none) [firstSource] sampleRecipient samplePolicy with
  | error failure =>
    rw [hrun] at hstatus
    cases hstatus
  | ok decision =>
    rw [hrun] at hstatus
    have hpass : decision.accepted := Option.some.inj hstatus
    exact ⟨decision, rfl, hpass, hclosed decision hrun hpass⟩

end

end Leitir.License
