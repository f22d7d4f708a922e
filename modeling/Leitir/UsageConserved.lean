import Leitir.UsageAssemble
import Leitir.ExceptRun

namespace Leitir.Usage

open ExceptRun List KeyedList Grouping

section

variable {Score : Type}

abbrev Entry := UsageIdentity × List ProvenanceRecord

def UsageResult.entry (result : UsageResult Score) : Entry := (result.identity, result.provenance)

def CappedResult.entry (result : CappedResult) : Entry := (result.identity, result.provenance)

def Progress.entries (progress : Progress Score) : List Entry :=
  progress.accepted.map UsageResult.entry ++ progress.capped.map CappedResult.entry

def AssembledEvidenceReport.entries (report : AssembledEvidenceReport Score) : List Entry :=
  report.results.map UsageResult.entry ++ report.cappedResults.map CappedResult.entry

def entryOf (groups : List (UsageIdentity × List (Text × CodeReference))) (identity : UsageIdentity) : Entry :=
  (identity, provenanceOf (Grouping.get groups identity))

def Added (record : CoverageRecord) : Prop :=
  ∃ identity, record = ⟨cappedFile identity, .capExceeded⟩ ∨ record.file = conflictingFile identity ∨
    record.file = cappedLicenseFile identity

/-- What the loop over the identities keeps, after those that are done. -/
structure Conserving (groups : List (UsageIdentity × List (Text × CodeReference))) (done : List UsageIdentity)
    (progress : Progress Score) : Prop where
  entries : progress.entries.Perm (done.map (entryOf groups))
  covered : ∀ entry ∈ progress.capped, (⟨cappedFile entry.identity, .capExceeded⟩ : CoverageRecord) ∈ progress.extra
  added : ∀ record ∈ progress.extra, Added record

variable {totalScore : Nat → Bool → Confidence → Nat → Score} {read : Option (Text → Option Text)} {pathPrefix : Text}
  {limits : Limits} {groups : List (UsageIdentity × List (Text × CodeReference))} {done : List UsageIdentity}
  {progress : Progress Score}

theorem Conserving.assembleIdentity (h : Conserving groups done progress) (identity : UsageIdentity) :
    Conserving groups (done ++ [identity]) (assembleIdentity totalScore read pathPrefix limits groups progress identity) := by
  have hdone : (done ++ [identity]).map (entryOf groups) = done.map (entryOf groups) ++ [entryOf groups identity] := by simp
  unfold Usage.assembleIdentity
  dsimp only
  split
  next =>
    refine ⟨?_, ?_, ?_⟩
    · rw [hdone]
      simp only [Progress.entries, map_append]
      rw [← append_assoc]
      exact h.entries.append_right _
    · intro entry hentry
      rcases mem_append.mp hentry with hentry | hentry
      · exact mem_append_left _ (h.covered entry hentry)
      · rw [mem_singleton.mp hentry]
        exact mem_append_right _ (mem_singleton_self _)
    · intro record hrecord
      rcases mem_append.mp hrecord with hrecord | hrecord
      · exact h.added record hrecord
      · exact ⟨identity, Or.inl (mem_singleton.mp hrecord)⟩
  next =>
    refine ⟨?_, ?_, ?_⟩
    · rw [hdone]
      simp only [Progress.entries, map_append]
      refine List.Perm.trans ?_ (h.entries.append_right _)
      rw [Progress.entries, append_assoc, append_assoc]
      exact perm_append_comm.append_left _
    · intro entry hentry
      exact mem_append_left _ (mem_append_left _ (h.covered entry hentry))
    · intro record hrecord
      rcases mem_append.mp hrecord with hrecord | hrecord
      · rcases mem_append.mp hrecord with hrecord | hrecord
        · exact h.added record hrecord
        · split at hrecord
          next => exact ⟨identity, Or.inr (Or.inl (congrArg CoverageRecord.file (mem_singleton.mp hrecord)))⟩
          next => cases hrecord
      · split at hrecord
        next => exact ⟨identity, Or.inr (Or.inr (congrArg CoverageRecord.file (mem_singleton.mp hrecord)))⟩
        next => cases hrecord

theorem Conserving.foldl (h : Conserving groups done progress) (identities : List UsageIdentity) :
    Conserving groups (done ++ identities)
      (identities.foldl (Usage.assembleIdentity totalScore read pathPrefix limits groups) progress) := by
  induction identities generalizing done progress with
  | nil =>
    rw [append_nil]
    exact h
  | cons identity rest ih =>
    rw [append_cons, foldl_cons]
    exact ih (h.assembleIdentity identity)

theorem conserving_assembleIdentities (groups : List (UsageIdentity × List (Text × CodeReference))) :
    Conserving groups (sortBy UsageIdentity.key (Grouping.keys groups))
      (assembleIdentities totalScore read pathPrefix limits groups) := by
  have hstart : Conserving groups [] (⟨[], [], [], []⟩ : Progress Score) :=
    ⟨List.Perm.refl _, fun _ hentry => absurd hentry not_mem_nil, fun _ hrecord => absurd hrecord not_mem_nil⟩
  exact hstart.foldl _

end

section

variable {Score : Type}

theorem take_append_text {lead : Text} (count : Nat) (h : count ≤ lead.length) (rest : Text) :
    (lead ++ rest).take count = lead.take count := take_append_of_le_length h

theorem cappedFile_ne_conflictingFile (a b : UsageIdentity) : cappedFile a ≠ conflictingFile b := by
  intro h
  have htake := congrArg (List.take 17) h
  unfold cappedFile conflictingFile at htake
  rw [take_append_text 17 (by decide), take_append_text 17 (by decide)] at htake
  exact absurd htake (by decide)

theorem cappedFile_ne_cappedLicenseFile (a b : UsageIdentity) : cappedFile a ≠ cappedLicenseFile b := by
  intro h
  have htake := congrArg (List.take 17) h
  unfold cappedFile cappedLicenseFile at htake
  rw [take_append_text 17 (by decide), take_append_text 17 (by decide)] at htake
  exact absurd htake (by decide)

theorem Added.capExceeded {record : CoverageRecord} (h : Added record) {identity : UsageIdentity}
    (hfile : record.file = cappedFile identity) : record = ⟨cappedFile identity, .capExceeded⟩ := by
  obtain ⟨other, rfl | hother | hother⟩ := h
  · rw [show cappedFile other = cappedFile identity from hfile]
  · exact absurd (hfile.symm.trans hother) (cappedFile_ne_conflictingFile _ _)
  · exact absurd (hfile.symm.trans hother) (cappedFile_ne_cappedLicenseFile _ _)

/-- What is put for the file of a capped identity stays what it is, whatever is added afterwards. -/
theorem mem_putRecords {records : List CoverageRecord} (hadded : ∀ record ∈ records, Added record) {identity : UsageIdentity}
    (merged : List (Text × CoverageRecord))
    (h : (⟨cappedFile identity, .capExceeded⟩ : CoverageRecord) ∈ records ∨
      (cappedFile identity, (⟨cappedFile identity, .capExceeded⟩ : CoverageRecord)) ∈ merged) :
    (cappedFile identity, (⟨cappedFile identity, .capExceeded⟩ : CoverageRecord)) ∈ putRecords merged records := by
  induction records generalizing merged with
  | nil => exact h.resolve_left not_mem_nil
  | cons record rest ih =>
    refine ih (fun other hother => hadded other (mem_cons_of_mem _ hother)) (put merged record.file record) ?_
    by_cases hfile : record.file = cappedFile identity
    · have hrecord := (hadded record mem_cons_self).capExceeded hfile
      right
      rw [hrecord]
      exact mem_put_self _ _ _
    · rcases h with h | h
      · rcases mem_cons.mp h with heq | h
        · rw [← heq] at hfile
          exact absurd rfl hfile
        · exact Or.inl h
      · exact Or.inr (mem_put_of_ne h (Ne.symm hfile))

theorem added_overflow {results : List (UsageResult Score)} {extra : List CoverageRecord} (h : ∀ record ∈ extra, Added record) :
    ∀ record ∈ extra ++ results.map fun result => ⟨cappedFile result.identity, .capExceeded⟩, Added record := by
  intro record hrecord
  rcases mem_append.mp hrecord with hrecord | hrecord
  · exact h record hrecord
  · obtain ⟨result, -, rfl⟩ := mem_map.mp hrecord
    exact ⟨result.identity, Or.inl rfl⟩

theorem record_of_capped {progress : Progress Score} {overflow : List (UsageResult Score)}
    (h : ∀ entry ∈ progress.capped, (⟨cappedFile entry.identity, .capExceeded⟩ : CoverageRecord) ∈ progress.extra)
    {capped : CappedResult} (hcapped : capped ∈ progress.capped ++ overflow.map overflowed) :
    (⟨cappedFile capped.identity, .capExceeded⟩ : CoverageRecord) ∈
      progress.extra ++ overflow.map fun result => ⟨cappedFile result.identity, .capExceeded⟩ := by
  rcases mem_append.mp hcapped with hcapped | hcapped
  · exact mem_append_left _ (h capped hcapped)
  · obtain ⟨result, hresult, rfl⟩ := mem_map.mp hcapped
    exact mem_append_right _ (mem_map.mpr ⟨result, hresult, rfl⟩)

theorem mem_coverageOf {records : List (Text × CoverageRecord)} {exclusions : List Text} {flag : Bool} {entry : Text × CoverageRecord}
    (h : entry ∈ records) : entry.2 ∈ (coverageOf records exclusions flag).records :=
  mem_map_of_mem (mem_sortBy.mpr h)

end

section

variable {Score : Type} {batches : List ReferenceBatch} {report : AssembledEvidenceReport Score}

def ProvenanceRecord.contribution (record : ProvenanceRecord) : Text × Text := (record.consumer, record.codeDigest)

def contributions (batches : List ReferenceBatch) (identity : UsageIdentity) : List (Text × Text) :=
  ((occurrencesOf batches).filter fun occurrence => identityOf occurrence.2 = identity).map fun occurrence =>
    (occurrence.1, occurrence.2.codeDigest)

/-- Nothing is lost and nothing is counted twice. -/
structure Conserved (batches : List ReferenceBatch) (report : AssembledEvidenceReport Score) : Prop where
  provenance : ∀ identity, ((report.entries.filter fun entry => entry.1 = identity).flatMap fun entry =>
    entry.2.map ProvenanceRecord.contribution).Perm (contributions batches identity)
  disjoint : ∀ result ∈ report.results, ∀ capped ∈ report.cappedResults, result.identity ≠ capped.identity
  covered : ∀ capped ∈ report.cappedResults,
    (⟨cappedFile capped.identity, .capExceeded⟩ : CoverageRecord) ∈ report.coverage.records

theorem provenanceOf_perm (occurrences : List (Text × CodeReference)) :
    ((provenanceOf occurrences).map ProvenanceRecord.contribution).Perm
      (occurrences.map fun occurrence => (occurrence.1, occurrence.2.codeDigest)) := by
  unfold provenanceOf
  have hperm := (perm_sortBy ProvenanceRecord.key
    (occurrences.map fun occurrence => (⟨occurrence.2.codeDigest, occurrence.1⟩ : ProvenanceRecord))).map
      ProvenanceRecord.contribution
  rw [map_map] at hperm
  exact hperm

theorem filter_entries_of_nodup {groups : List (UsageIdentity × List (Text × CodeReference))} {identities : List UsageIdentity}
    (h : identities.Nodup) (identity : UsageIdentity) :
    (identities.map (entryOf groups)).filter (fun entry => entry.1 = identity) =
      if identity ∈ identities then [entryOf groups identity] else [] := by
  induction identities with
  | nil => rfl
  | cons first rest ih =>
    obtain ⟨hnot, hrest⟩ := nodup_cons.mp h
    rw [map_cons, filter_cons, ih hrest]
    by_cases hfirst : first = identity
    · subst hfirst
      simp [entryOf, hnot]
    · have hne : ¬ identity = first := fun heq => hfirst heq.symm
      simp [entryOf, hfirst, hne]

theorem provenance_conserved {groups : List (UsageIdentity × List (Text × CodeReference))} {identities : List UsageIdentity}
    (hgroups : groups = groupsOf batches) (hidentities : identities.Perm (Grouping.keys groups))
    (hentries : report.entries.Perm (identities.map (entryOf groups))) (identity : UsageIdentity) :
    ((report.entries.filter fun entry => entry.1 = identity).flatMap fun entry =>
      entry.2.map ProvenanceRecord.contribution).Perm (contributions batches identity) := by
  have hnodup : identities.Nodup := hidentities.nodup_iff.mpr (hgroups ▸ nodup_groupBy _ _)
  refine ((hentries.filter _).flatMap_right _).trans ?_
  rw [filter_entries_of_nodup hnodup identity]
  have hget : Grouping.get groups identity =
      (occurrencesOf batches).filter fun occurrence => identityOf occurrence.2 = identity := by
    rw [hgroups]
    exact get_groupBy _ _ _
  split
  next =>
    rw [flatMap_singleton]
    have hperm := provenanceOf_perm (Grouping.get groups identity)
    rw [hget] at hperm
    unfold entryOf contributions
    rw [hget]
    exact hperm
  next hnot =>
    have hempty : contributions batches identity = [] := by
      unfold contributions
      rw [map_eq_nil_iff, filter_eq_nil_iff]
      intro occurrence hoccurrence hsame
      refine hnot (hidentities.mem_iff.mpr (hgroups ▸ mem_keys_groupBy.mpr ⟨occurrence, hoccurrence, ?_⟩))
      exact of_decide_eq_true hsame
    rw [hempty]
    exact List.Perm.refl _

variable [LinearOrder Score] {totalScore : Nat → Bool → Confidence → Nat → Score} {read : Option (Text → Option Text)}
  {pathPrefix : Text} {limits : Limits} {header : ReportHeader} {outputSize : AssembledEvidenceReport Score → Nat}
  {unresolved : List UnresolvedDistribution}

/-- What a report is made of. -/
theorem assemble_ok (h : assembleUsageEvidence totalScore read pathPrefix limits header outputSize batches unresolved = .ok report) :
    ∃ progress merged exclusions, progress = assembleIdentities totalScore read pathPrefix limits (groupsOf batches) ∧
      report.results = (rank progress.accepted).take limits.maxResults ∧
      report.cappedResults = sortBy (fun entry => entry.identity.key)
        (progress.capped ++ ((rank progress.accepted).drop limits.maxResults).map overflowed) ∧
      report.coverage = coverageOf (putRecords merged (progress.extra ++
        ((rank progress.accepted).drop limits.maxResults).map fun result => ⟨cappedFile result.identity, .capExceeded⟩))
        exclusions report.capped := by
  unfold assembleUsageEvidence at h
  obtain ⟨merged, -, h⟩ := bind_ok h
  dsimp only at h
  obtain ⟨-, h⟩ := guard_ok h
  obtain ⟨-, h⟩ := guard_ok h
  obtain ⟨-, h⟩ := guard_ok h
  obtain ⟨-, h⟩ := guard_ok h
  obtain ⟨-, h⟩ := guard_ok h
  obtain ⟨-, h⟩ := guard_ok h
  obtain ⟨-, h⟩ := guard_ok h
  obtain ⟨-, h⟩ := guard_ok h
  cases h
  exact ⟨_, merged, _, rfl, rfl, rfl, rfl⟩

theorem rank_perm (results : List (UsageResult Score)) : (rank results).Perm results := perm_insertionSort _ _

/-- The report has the entries of the loop, some of them moved from the results to the capped ones. -/
theorem entries_perm {progress : Progress Score} {count : Nat} (hresults : report.results = (rank progress.accepted).take count)
    (hcapped : report.cappedResults = sortBy (fun entry => entry.identity.key)
      (progress.capped ++ ((rank progress.accepted).drop count).map overflowed)) :
    report.entries.Perm progress.entries := by
  have hmoved : (((rank progress.accepted).drop count).map overflowed).map CappedResult.entry =
      ((rank progress.accepted).drop count).map UsageResult.entry := by
    rw [map_map]
    rfl
  have hsorted : (report.cappedResults.map CappedResult.entry).Perm
      (progress.capped.map CappedResult.entry ++ ((rank progress.accepted).drop count).map UsageResult.entry) := by
    rw [hcapped, ← hmoved, ← map_append]
    exact (perm_sortBy _ _).map _
  have haccepted : (((rank progress.accepted).take count).map UsageResult.entry ++
      ((rank progress.accepted).drop count).map UsageResult.entry).Perm (progress.accepted.map UsageResult.entry) := by
    rw [← map_append, take_append_drop]
    exact (rank_perm _).map _
  unfold AssembledEvidenceReport.entries Progress.entries
  rw [hresults]
  refine ((hsorted.trans perm_append_comm).append_left _).trans ?_
  rw [← append_assoc]
  exact haccepted.append_right _

def sampleReference (distribution : String) (line : Nat) (digit : Char) : CodeReference where
  distribution := distribution.toList
  span := ⟨"m.py".toList, line, 0, line, 1⟩
  codeDigest := "sha256:".toList ++ List.replicate 64 digit

def sampleBatch (origin : String) (references : List CodeReference) : ReferenceBatch :=
  ⟨origin.toList, references, ⟨[⟨"m.py".toList, .resolved⟩], [], 10, false⟩⟩

/-- Two batches that share a usage; the other usage ranks below it. -/
def sampleBatches : List ReferenceBatch :=
  [sampleBatch "first" [sampleReference "widgets" 3 'a', sampleReference "gears" 7 'b'],
    sampleBatch "second" [sampleReference "widgets" 3 'a']]

def sampleScore (count : Nat) (conflicting : Bool) (confidence : Confidence) (width : Nat) : Int :=
  30 * count - (if conflicting then 20 else 0) + (match confidence with | .high => 20 | .medium => 10 | .low => 0) + width

def sampleHeader : ReportHeader := ⟨"1".toList, "1".toList, "provider".toList, "consumer".toList, []⟩

/-- Every reference of the batches is in the report once, whatever is capped. -/
theorem assembleUsageEvidence_conserved (totalScore : Nat → Bool → Confidence → Nat → Score) (read : Option (Text → Option Text))
    (pathPrefix : Text) (limits : Limits) (header : ReportHeader) (outputSize : AssembledEvidenceReport Score → Nat)
    (batches : List ReferenceBatch) (unresolved : List UnresolvedDistribution) (report : AssembledEvidenceReport Score)
    (h : assembleUsageEvidence totalScore read pathPrefix limits header outputSize batches unresolved = .ok report) :
    Conserved batches report := by
  obtain ⟨progress, merged, exclusions, hprogress, hresults, hcapped, hcoverage⟩ := assemble_ok h
  have hkept : Conserving (groupsOf batches) _ progress := hprogress ▸ conserving_assembleIdentities (groupsOf batches)
  have hentries := (entries_perm hresults hcapped).trans hkept.entries
  have hidentities := perm_sortBy UsageIdentity.key (Grouping.keys (groupsOf batches))
  refine ⟨provenance_conserved rfl hidentities hentries, ?_, ?_⟩
  · intro result hresult capped hcappedMem heq
    have hnodup : (report.entries.map Prod.fst).Nodup := by
      rw [(hentries.map Prod.fst).nodup_iff, map_map]
      have hmap : (sortBy UsageIdentity.key (Grouping.keys (groupsOf batches))).map (Prod.fst ∘ entryOf (groupsOf batches)) =
          sortBy UsageIdentity.key (Grouping.keys (groupsOf batches)) := map_id _
      rw [hmap, hidentities.nodup_iff]
      exact nodup_groupBy _ _
    unfold AssembledEvidenceReport.entries at hnodup
    rw [map_append, map_map, map_map] at hnodup
    refine (List.nodup_append.mp hnodup).2.2 result.identity ?_ capped.identity ?_ heq
    · exact mem_map_of_mem (f := Prod.fst ∘ UsageResult.entry) hresult
    · exact mem_map_of_mem (f := Prod.fst ∘ CappedResult.entry) hcappedMem
  · intro capped hcappedMem
    rw [hcapped] at hcappedMem
    have hrecord := record_of_capped hkept.covered (mem_sortBy.mp hcappedMem)
    rw [hcoverage]
    exact mem_coverageOf (mem_putRecords (added_overflow hkept.added) merged (Or.inl hrecord))

/-- With room for one result the other usage is capped, and all three references are kept. -/
theorem assembleUsageEvidence_conserved_sample : ∃ report,
    assembleUsageEvidence sampleScore none [] ⟨1, 50, 5, 20, 1048576⟩ sampleHeader (fun _ => 3000) sampleBatches [] = .ok report ∧
      (report.results.length, report.cappedResults.length) = (1, 1) ∧ Conserved sampleBatches report := by
  have hlengths : (assembleUsageEvidence sampleScore none [] ⟨1, 50, 5, 20, 1048576⟩ sampleHeader (fun _ => 3000) sampleBatches
      []).toOption.map (fun report => (report.results.length, report.cappedResults.length)) = some (1, 1) := by decide +kernel
  cases hrun : assembleUsageEvidence sampleScore none [] ⟨1, 50, 5, 20, 1048576⟩ sampleHeader (fun _ => 3000) sampleBatches [] with
  | error failure =>
    rw [hrun] at hlengths
    cases hlengths
  | ok report =>
    rw [hrun] at hlengths
    exact ⟨report, rfl, Option.some.inj hlengths, assembleUsageEvidence_conserved _ _ _ _ _ _ _ _ _ hrun⟩

end

end Leitir.Usage
