import Leitir.CompositionDecided

namespace Leitir.Composition

open List

open Json (Text)
open License (Toml isDigest)
open Lock (code code_injective sortTexts dependencyClosuresFromManifest)
open TupleOrder (Part Tuple ordered orderedAll)
open ExceptRun

section

variable (tomlLoads : Text → Option (List (Text × Toml))) (input : CompositionInput)

def CompleteManifests : Prop :=
  ∀ subject ∈ input.subjects, ∀ source ∈ sourcesOf tomlLoads input subject, source.graph = complete

/-- A package that both subjects of a pair have, with the versions that one of them has in ascending order, if they are
several. -/
structure Clash (pair : CompositionCandidateRef × CompositionCandidateRef) (package : Text × Text)
    (versions : List Text) : Prop where
  left : ∃ version, HasVersion tomlLoads input pair.1 package version
  right : ∃ version, HasVersion tomlLoads input pair.2 package version
  ascending : (versions.map code).Pairwise (· < ·)
  mem_iff : ∀ version, version ∈ versions ↔
    HasVersion tomlLoads input pair.1 package version ∨ HasVersion tomlLoads input pair.2 package version
  several : 1 < versions.length

def Silent (subject : CompositionCandidateRef) : Prop := ∀ source ∈ sourcesOf tomlLoads input subject, source.deps = []

/-- The flattened names of the clashes belong to one pair each and have an order, and so have the keys of the subjects
without dependencies. -/
structure KeysIdentify : Prop where
  distinct : ∀ pair ∈ pairs input, ∀ other ∈ pairs input, ∀ package versions package' versions',
    Clash tomlLoads input pair package versions → Clash tomlLoads input other package' versions' →
    pair.1.candidateKey ++ pair.2.candidateKey ++ (package.1 :: package.2 :: versions).map Part.text =
      other.1.candidateKey ++ other.2.candidateKey ++ (package'.1 :: package'.2 :: versions').map Part.text → pair = other
  clashes : ∀ pair ∈ pairs input, ∀ other ∈ pairs input, ∀ package versions package' versions',
    Clash tomlLoads input pair package versions → Clash tomlLoads input other package' versions' →
    ordered (pair.1.candidateKey ++ pair.2.candidateKey ++ (package.1 :: package.2 :: versions).map Part.text)
      (other.1.candidateKey ++ other.2.candidateKey ++ (package'.1 :: package'.2 :: versions').map Part.text) = true
  silent : ∀ a ∈ input.subjects, ∀ b ∈ input.subjects, Silent tomlLoads input a → Silent tomlLoads input b →
    ordered a.candidateKey b.candidateKey = true

end

variable {tomlLoads : Text → Option (List (Text × Toml))} {input : CompositionInput}

section

variable {texts : List Text}

theorem mem_sortTexts {text : Text} : text ∈ sortTexts texts ↔ text ∈ texts := KeyedList.mem_sortBy

theorem ascending_sortTexts (h : texts.Nodup) : ((sortTexts texts).map code).Pairwise (· < ·) := by
  have hnodup : (sortTexts texts).Nodup := (KeyedList.perm_sortBy _ _).nodup_iff.mpr h
  have hsorted := KeyedList.pairwise_sortBy (fun text => [code text]) texts
  rw [pairwise_map]
  refine (hsorted.and hnodup).imp ?_
  rintro a b ⟨hle, hne⟩
  rcases lt_trichotomy (code a) (code b) with hlt | heq | hgt
  · exact hlt
  · exact absurd (code_injective heq) hne
  · exact absurd (List.Lex.rel hgt) (not_lt_of_ge hle)

theorem eq_sortTexts {versions : List Text} (hversions : (versions.map code).Pairwise (· < ·))
    (hmem : ∀ version, version ∈ versions ↔ version ∈ texts) : versions = sortTexts texts.dedup := by
  have hascending : versions.Pairwise fun a b => code a < code b := pairwise_map.mp hversions
  have hnodup : versions.Nodup := hascending.imp fun hlt heq => absurd (heq ▸ hlt) (lt_irrefl _)
  have hperm : versions.Perm (sortTexts texts.dedup) := by
    refine (perm_ext_iff_of_nodup hnodup ((KeyedList.perm_sortBy _ _).nodup_iff.mpr (nodup_dedup _))).mpr ?_
    exact fun version => (hmem version).trans (mem_dedup.symm.trans mem_sortTexts.symm)
  refine hperm.eq_of_pairwise ?_ hascending (pairwise_map.mp (ascending_sortTexts (nodup_dedup _)))
  exact fun a b _ _ hab hba => absurd (hab.trans hba) (lt_irrefl _)

theorem mem_shared_iff {pair : CompositionCandidateRef × CompositionCandidateRef} {version : Text} {package : Text × Text} :
    version ∈ (((closureOf tomlLoads input pair.1).evidence ++ (closureOf tomlLoads input pair.2).evidence).filter fun item =>
      item.identity = package).map (·.version) ↔
      HasVersion tomlLoads input pair.1 package version ∨ HasVersion tomlLoads input pair.2 package version := by
  simp only [hasVersion_iff, mem_map, mem_filter, mem_append, decide_eq_true_eq]
  constructor
  · rintro ⟨item, ⟨hitem | hitem, hidentity⟩, hversion⟩
    · exact .inl ⟨item, hitem, hidentity, hversion⟩
    · exact .inr ⟨item, hitem, hidentity, hversion⟩
  · rintro (⟨item, hitem, hidentity, hversion⟩ | ⟨item, hitem, hidentity, hversion⟩)
    · exact ⟨item, ⟨.inl hitem, hidentity⟩, hversion⟩
    · exact ⟨item, ⟨.inr hitem, hidentity⟩, hversion⟩

/-- The names of the clashes of a pair. -/
theorem clashName_iff {pair : CompositionCandidateRef × CompositionCandidateRef} {key : Tuple} :
    key ∈ clashNames tomlLoads input pair ↔ ∃ package versions, Clash tomlLoads input pair package versions ∧
      key = nameLead "dependency" pair ++ (package.1 :: package.2 :: versions).map Part.text := by
  constructor
  · intro hkey
    obtain ⟨shared, hshared, hlength, rfl⟩ := clashName_eq hkey
    obtain ⟨⟨a, ha, haid⟩, ⟨b, hb, hbid⟩, hversions⟩ := mem_sharedVersions hshared
    refine ⟨shared.1, shared.2, ⟨⟨a.version, hasVersion_iff.mpr ⟨a, ha, haid, rfl⟩⟩,
      ⟨b.version, hasVersion_iff.mpr ⟨b, hb, hbid, rfl⟩⟩, ?_, ?_, hlength⟩, rfl⟩
    · rw [hversions]
      exact ascending_sortTexts (nodup_dedup _)
    · intro version
      rw [hversions, mem_sortTexts, mem_dedup, mem_shared_iff]
  · rintro ⟨package, versions, hclash, rfl⟩
    obtain ⟨v, hv⟩ := hclash.left
    obtain ⟨w, hw⟩ := hclash.right
    obtain ⟨a, ha, haid, -⟩ := hasVersion_iff.mp hv
    obtain ⟨b, hb, hbid, -⟩ := hasVersion_iff.mp hw
    have hversions := eq_sortTexts hclash.ascending fun version => (hclash.mem_iff version).trans mem_shared_iff.symm
    refine mem_map.mpr ⟨(package, versions), mem_filter.mpr ⟨?_, decide_eq_true hclash.several⟩, ?_⟩
    · refine mem_map.mpr ⟨package, ?_, by rw [hversions]⟩
      rw [KeyedList.mem_sortBy, mem_dedup, mem_filter, contains_iff_mem]
      exact ⟨mem_map.mpr ⟨a, ha, haid⟩, mem_map.mpr ⟨b, hb, hbid⟩⟩
    · simp [clashKey, nameLead]

end

theorem labelled_of_complete (h : WellFormed tomlLoads input) (hcomplete : CompleteManifests tomlLoads input) : Labelled input := by
  have hmem : input.recipient ∈ input.subjects := mem_cons_self
  refine (labelled_iff h hmem).mpr ?_
  intro source hsource
  have hlabel : closureCompleteness complete = some .complete := by decide
  rw [hcomplete _ hmem source hsource, hlabel]
  rfl

theorem openNames_of_complete (h : WellFormed tomlLoads input) (hcomplete : CompleteManifests tomlLoads input)
    {pair : CompositionCandidateRef × CompositionCandidateRef} (hpair : pair ∈ pairs input) :
    openNames tomlLoads input pair = [] := by
  have hlabelled := labelled_of_complete h hcomplete
  have hnone : ∀ subject ∈ input.subjects, (closureOf tomlLoads input subject).unknown = [] := by
    intro subject hsubject
    rw [eq_nil_iff_forall_not_mem]
    intro item hitem
    obtain ⟨source, hsource, hnot⟩ := (exists_unknown_iff h hlabelled hsubject).mp ⟨item, hitem⟩
    exact hnot (hcomplete subject hsubject source hsource)
  unfold openNames
  rw [hnone _ (left_mem_subjects hpair), hnone _ (right_mem_subjects hpair)]
  rfl

theorem silent_iff (hcomplete : CompleteManifests tomlLoads input) {subject : CompositionCandidateRef}
    (hsubject : subject ∈ input.subjects) : Silent tomlLoads input subject ↔ ¬ HasCompleteEvidence tomlLoads input subject := by
  constructor
  · rintro hsilent ⟨source, hsource, -, hdeps⟩
    exact hdeps (hsilent source hsource)
  · intro hnot source hsource
    by_contra hdeps
    exact hnot ⟨source, hsource, hcomplete subject hsubject source hsource, hdeps⟩

theorem openName_of_complete (h : WellFormed tomlLoads input) (hcomplete : CompleteManifests tomlLoads input) {key : Tuple} :
    OpenName tomlLoads input key ↔ ¬ EmptyMatrix tomlLoads input ∧
      ∃ subject ∈ input.subjects, Silent tomlLoads input subject ∧ key = subject.candidateKey := by
  constructor
  · rintro (⟨pair, hpair, hkey⟩ | ⟨hnonempty, subject, hsubject, hnot, rfl⟩)
    · rw [openNames_of_complete h hcomplete hpair] at hkey
      cases hkey
    · exact ⟨hnonempty, subject, hsubject, (silent_iff hcomplete hsubject).mpr hnot, rfl⟩
  · rintro ⟨hnonempty, subject, hsubject, hsilent, rfl⟩
    exact .inr ⟨hnonempty, subject, hsubject, (silent_iff hcomplete hsubject).mp hsilent, rfl⟩

theorem namesDistinct_iff (h : WellFormed tomlLoads input) (hcomplete : CompleteManifests tomlLoads input) :
    NamesDistinct tomlLoads input ↔ ∀ pair ∈ pairs input, ∀ other ∈ pairs input, ∀ package versions package' versions',
      Clash tomlLoads input pair package versions → Clash tomlLoads input other package' versions' →
      pair.1.candidateKey ++ pair.2.candidateKey ++ (package.1 :: package.2 :: versions).map Part.text =
        other.1.candidateKey ++ other.2.candidateKey ++ (package'.1 :: package'.2 :: versions').map Part.text → pair = other := by
  constructor
  · intro hdistinct pair hpair other hother package versions package' versions' hclash hclash' heq
    refine hdistinct pair hpair other hother _ (mem_append_left _ (clashName_iff.mpr ⟨package, versions, hclash, rfl⟩))
      (mem_append_left _ (clashName_iff.mpr ⟨package', versions', hclash', ?_⟩))
    unfold nameLead
    rw [cons_append, cons_append, heq]
  · intro happart pair hpair other hother key hkey hkey'
    rw [openNames_of_complete h hcomplete hpair, append_nil] at hkey
    rw [openNames_of_complete h hcomplete hother, append_nil] at hkey'
    obtain ⟨package, versions, hclash, rfl⟩ := clashName_iff.mp hkey
    obtain ⟨package', versions', hclash', heq⟩ := clashName_iff.mp hkey'
    exact happart pair hpair other hother package versions package' versions' hclash hclash' (List.cons.inj heq).2

theorem composedMatrix_inv (h : WellFormed tomlLoads input) (hcomplete : CompleteManifests tomlLoads input)
    {matrix : ConflictMatrix} (hbuilt : composedMatrix tomlLoads input = .ok matrix) :
    KeysOrdered tomlLoads input ∧ matrix = matrixOf tomlLoads input := by
  have hlabelled := labelled_of_complete h hcomplete
  have hcandidates : ∀ a ∈ input.candidates, ∀ b ∈ input.candidates, ordered a.candidateKey b.candidateKey = true := by
    unfold composedMatrix at hbuilt
    obtain ⟨-, hbuilt⟩ := guard_ok hbuilt
    obtain ⟨_, -, hbuilt⟩ := bind_ok hbuilt
    obtain ⟨_, -, hbuilt⟩ := bind_ok hbuilt
    obtain ⟨candidates, hsorted, -⟩ := bind_ok hbuilt
    exact (sorted_ok_iff TupleOrder.ordered_self TupleOrder.ordered_symm).mp ⟨candidates, hsorted⟩
  rw [composedMatrix_eq h hlabelled hcandidates] at hbuilt
  have hkeys := keysOrdered_of_build h hcandidates hbuilt
  rw [buildMatrix_eq h hkeys] at hbuilt
  exact ⟨hkeys, (Except.ok.inj hbuilt).symm⟩

/-- The rows of the matrix that is built have keys of their own, and the matrix is evaluated, if and only if no flattened
name belongs to two pairs and what is sorted has an order. -/
theorem composedMatrix_keys_iff (tomlLoads : Text → Option (List (Text × Toml))) (input : CompositionInput)
    (h : WellFormed tomlLoads input) (hcomplete : CompleteManifests tomlLoads input) (matrix : ConflictMatrix)
    (hbuilt : composedMatrix tomlLoads input = .ok matrix) :
    ((matrix.conflicts.map (·.evidenceKey)).Nodup ∧ ∃ eligibility, evaluateEligibility matrix = .ok eligibility) ↔
      KeysIdentify tomlLoads input := by
  obtain ⟨hkeys, rfl⟩ := composedMatrix_inv h hcomplete hbuilt
  have hlabelled := labelled_of_complete h hcomplete
  have hlead : ∀ x y : Tuple, ordered (.text "dependency".toList :: x) (.text "dependency".toList :: y) = ordered x y :=
    fun x y => TupleOrder.comparable_append [Part.text "dependency".toList] x y
  rw [evaluateEligibility_eq h hkeys]
  constructor
  · rintro ⟨hnodup, eligibility, hdecide⟩
    rw [if_neg (not_not_intro hnodup)] at hdecide
    obtain ⟨hblocking, hopen, -⟩ := decideMatrix_ok hdecide
    refine ⟨(namesDistinct_iff h hcomplete).mp ((nodup_names_iff h).mp hnodup), ?_, ?_⟩
    · intro pair hpair other hother package versions package' versions' hclash hclash'
      have hfirst := mem_blockingNames.mpr ⟨pair, hpair, clashName_iff.mpr ⟨package, versions, hclash, rfl⟩⟩
      have hsecond := mem_blockingNames.mpr ⟨other, hother, clashName_iff.mpr ⟨package', versions', hclash', rfl⟩⟩
      exact (hlead _ _).symm.trans (hblocking _ hfirst _ hsecond)
    · intro a ha b hb hsilent hsilent'
      by_cases hempty : EmptyMatrix tomlLoads input
      · rw [CompositionInput.subjects, hempty.1, mem_singleton] at ha hb
        rw [ha, hb]
        exact TupleOrder.ordered_self _
      · have hfirst := (openName_of_complete h hcomplete).mpr ⟨hempty, a, ha, hsilent, rfl⟩
        have hsecond := (openName_of_complete h hcomplete).mpr ⟨hempty, b, hb, hsilent', rfl⟩
        exact hopen _ ((mem_openAll h hlabelled).mpr hfirst) _ ((mem_openAll h hlabelled).mpr hsecond)
  · intro hidentify
    have hnodup := (nodup_names_iff h).mpr ((namesDistinct_iff h hcomplete).mpr hidentify.distinct)
    refine ⟨hnodup, ?_⟩
    rw [if_neg (not_not_intro hnodup)]
    refine decideMatrix_eq_ok ?_ ?_
    · intro a ha b hb
      obtain ⟨pair, hpair, hname⟩ := mem_blockingNames.mp ha
      obtain ⟨other, hother, hname'⟩ := mem_blockingNames.mp hb
      obtain ⟨package, versions, hclash, rfl⟩ := clashName_iff.mp hname
      obtain ⟨package', versions', hclash', rfl⟩ := clashName_iff.mp hname'
      exact (hlead _ _).trans (hidentify.clashes pair hpair other hother package versions package' versions' hclash hclash')
    · intro a ha b hb
      obtain ⟨-, x, hx, hsilent, rfl⟩ := (openName_of_complete h hcomplete).mp ((mem_openAll h hlabelled).mp ha)
      obtain ⟨-, y, hy, hsilent', rfl⟩ := (openName_of_complete h hcomplete).mp ((mem_openAll h hlabelled).mp hb)
      exact hidentify.silent x hx y hy hsilent hsilent'

section

/-- What the evaluation asks of a matrix before it decides. -/
structure Checked (matrix : ConflictMatrix) : Prop where
  schema : matrix.schemaVersion = matrixSchema
  isDigest : isDigest matrix.matrixDigest = true
  bound : matrix.matrixDigest = digest (matrixValue matrix)
  records : checkRecords matrix = .ok ()
  clashes : (∀ clash ∈ actualClashes matrix, clash ∈ expectedClashes matrix) ∧
    ∀ clash ∈ expectedClashes matrix, clash ∈ actualClashes matrix

/-- A matrix that names a reason against it: an unknown or a blocking conflict, or a subject without a complete record. -/
def Flagged (matrix : ConflictMatrix) : Prop :=
  (∃ item ∈ matrix.conflicts, item.status = .unknown) ∨
    (∃ item ∈ matrix.conflicts, item.status = .incompatible ∧ item.kind.blocking = true) ∨
    ∃ subject ∈ matrix.recipient :: matrix.candidates,
      ∀ item ∈ matrix.dependencies, item.subject = subject → item.completeness ≠ .complete

variable {matrix : ConflictMatrix} {eligibility : CompositionEligibility}

theorem evaluateEligibility_ok (h : evaluateEligibility matrix = .ok eligibility) :
    Checked matrix ∧ decideMatrix matrix = .ok eligibility := by
  unfold evaluateEligibility at h
  obtain ⟨hsigned, h⟩ := guard_ok h
  simp only [not_or, not_not] at hsigned
  obtain ⟨_, hrecords, h⟩ := bind_ok h
  split at h
  next hclashes => exact ⟨⟨hsigned.1, hsigned.2.1, hsigned.2.2, hrecords, hclashes⟩, h⟩
  next => cases h

theorem evaluateEligibility_of_checked (h : Checked matrix) : evaluateEligibility matrix = decideMatrix matrix := by
  have hsigned : ¬ (matrix.schemaVersion ≠ matrixSchema ∨ ¬ License.isDigest matrix.matrixDigest = true ∨
      matrix.matrixDigest ≠ digest (matrixValue matrix)) := by
    simp only [not_or, not_not]
    exact ⟨h.schema, h.isDigest, h.bound⟩
  unfold evaluateEligibility
  rw [if_neg hsigned, bind_eq h.records, if_pos h.clashes]

theorem mem_missing_iff {subject : CompositionCandidateRef} : subject ∈ missingSubjects matrix ↔
    subject ∈ matrix.recipient :: matrix.candidates ∧
      ∀ item ∈ matrix.dependencies, item.subject = subject → item.completeness ≠ .complete := by
  unfold missingSubjects
  rw [mem_filter, Bool.not_eq_true', ← Bool.not_eq_true, any_eq_true]
  refine and_congr_right fun _ => ?_
  simp only [Bool.and_eq_true, decide_eq_true_eq, not_exists, not_and]

theorem dependencies_of_empty (h : isEmptyMatrix matrix = true) : matrix.dependencies = [] := by
  unfold isEmptyMatrix at h
  rw [Bool.and_eq_true] at h
  exact List.isEmpty_iff.mp h.2

/-- A matrix that is accepted names no reason against it, unless it is empty. -/
theorem not_flagged_of_accept (hdecide : decideMatrix matrix = .ok eligibility) (haccept : eligibility.status = .accept)
    (hnonempty : matrix.dependencies ≠ []) : ¬ Flagged matrix := by
  unfold decideMatrix at hdecide
  obtain ⟨blocking, hblocking, hdecide⟩ := bind_ok hdecide
  obtain ⟨known, hknown, hdecide⟩ := bind_ok hdecide
  obtain ⟨unknown, hunknown, hdecide⟩ := bind_ok hdecide
  cases hdecide
  have hnone : blocking = [] ∧ unknown = [] := by
    unfold statusOf at haccept
    split at haccept
    next => cases haccept
    next hblocked =>
      split at haccept
      next => cases haccept
      next hopen => exact ⟨not_not.mp hblocked, not_not.mp hopen⟩
  obtain ⟨rfl, rfl⟩ := hnone
  have hblocked := (sorted_id_ok hblocking).1.nil_eq
  unfold withMissing at hunknown
  split at hunknown
  next hlacking =>
    -- the missing subjects are among what is sorted
    have hall := (sorted_id_ok hunknown).1.nil_eq
    have hmissing := (append_eq_nil_iff.mp hall.symm).2
    unfold isLacking at hlacking
    rw [map_eq_nil_iff.mp hmissing] at hlacking
    cases hlacking
  next hlacking =>
    cases hunknown
    have hunknowns := (sorted_id_ok hknown).1.nil_eq
    have hcomplete : missingSubjects matrix = [] := by
      by_contra hmissing
      refine hlacking ?_
      unfold isLacking
      rw [Bool.and_eq_true, Bool.not_eq_true', Bool.not_eq_true', ← Bool.not_eq_true, ← Bool.not_eq_true, List.isEmpty_iff]
      exact ⟨hmissing, fun hempty => hnonempty (dependencies_of_empty hempty)⟩
    rintro (⟨item, hitem, hstatus⟩ | ⟨item, hitem, hstatus, hkind⟩ | ⟨subject, hsubject, hrecords⟩)
    · have hfilter := map_eq_nil_iff.mp hunknowns.symm
      exact (filter_eq_nil_iff.mp hfilter) item hitem (decide_eq_true hstatus)
    · have hfilter := map_eq_nil_iff.mp hblocked.symm
      refine (filter_eq_nil_iff.mp hfilter) item hitem ?_
      rw [Bool.and_eq_true]
      exact ⟨decide_eq_true hstatus, hkind⟩
    · have hmem := mem_missing_iff.mpr ⟨hsubject, hrecords⟩
      rw [hcomplete] at hmem
      cases hmem

theorem accept_of_not_flagged (h : ¬ Flagged matrix) :
    ∃ eligibility, decideMatrix matrix = .ok eligibility ∧ eligibility.status = .accept := by
  have hunknown : (matrix.conflicts.filter fun item => item.status = .unknown) = [] := by
    rw [filter_eq_nil_iff]
    exact fun item hitem hstatus => h (.inl ⟨item, hitem, of_decide_eq_true hstatus⟩)
  have hblocking : (matrix.conflicts.filter fun item => item.status = .incompatible && item.kind.blocking) = [] := by
    rw [filter_eq_nil_iff]
    intro item hitem hstatus
    rw [Bool.and_eq_true] at hstatus
    exact h (.inr (.inl ⟨item, hitem, of_decide_eq_true hstatus.1, hstatus.2⟩))
  have hmissing : missingSubjects matrix = [] := by
    rw [eq_nil_iff_forall_not_mem]
    intro subject hsubject
    obtain ⟨hmem, hrecords⟩ := mem_missing_iff.mp hsubject
    exact h (.inr (.inr ⟨subject, hmem, hrecords⟩))
  have hlacking : isLacking matrix = false := by
    unfold isLacking
    rw [hmissing]
    rfl
  have hsorted : sorted ordered id ([] : List Tuple) = .ok [] := sorted_ok fun a ha => absurd ha not_mem_nil
  have hwith : withMissing matrix [] = .ok [] := by
    unfold withMissing
    rw [hlacking]
    rfl
  unfold decideMatrix
  rw [hblocking, hunknown, map_nil, bind_eq hsorted, bind_eq hsorted, bind_eq hwith]
  exact ⟨_, rfl, rfl⟩

/-- A subject with both a complete and an incomplete record. -/
def Mixed (matrix : ConflictMatrix) : Prop :=
  ∃ a ∈ matrix.dependencies, ∃ b ∈ matrix.dependencies, a.subject = b.subject ∧ a.completeness = .complete ∧
    b.completeness ≠ .complete

theorem subject_of_checked (h : Checked matrix) {item : CandidateDependencyEvidence} (hitem : item ∈ matrix.dependencies) :
    item.subject ∈ matrix.recipient :: matrix.candidates := by
  have hrecords := h.records
  unfold checkRecords at hrecords
  obtain ⟨_, -, hrecords⟩ := bind_ok hrecords
  obtain ⟨_, -, hrecords⟩ := bind_ok hrecords
  obtain ⟨-, hrecords⟩ := guard_ok hrecords
  obtain ⟨_, -, hrecords⟩ := bind_ok hrecords
  obtain ⟨-, hrecords⟩ := guard_ok hrecords
  obtain ⟨-, hrecords⟩ := guard_ok hrecords
  obtain ⟨_, -, hrecords⟩ := bind_ok hrecords
  obtain ⟨-, hrecords⟩ := guard_ok hrecords
  obtain ⟨-, hrecords⟩ := guard_ok hrecords
  obtain ⟨-, hrecords⟩ := guard_ok hrecords
  have hcheck := forM_ok_mem hrecords item hitem
  unfold checkDependency at hcheck
  obtain ⟨_, -, hcheck⟩ := bind_ok hcheck
  obtain ⟨hmember, -⟩ := guard_ok hcheck
  rw [not_and_or, not_not, not_not] at hmember
  exact mem_cons.mpr hmember

theorem complete_iff_not_mixed (h : Checked matrix) (hflagged : ¬ Flagged matrix) :
    (∀ item ∈ matrix.dependencies, item.completeness = .complete) ↔ ¬ Mixed matrix := by
  constructor
  · rintro hall ⟨a, -, b, hb, -, -, hincomplete⟩
    exact hincomplete (hall b hb)
  · intro hmixed item hitem
    by_contra hincomplete
    refine hflagged (.inr (.inr ⟨item.subject, subject_of_checked h hitem, ?_⟩))
    intro other hother hsubject hcomplete
    exact hmixed ⟨other, hother, item, hitem, hsubject, hcomplete, hincomplete⟩

/-- An accepted matrix has only complete records, unless it passes every check, names no reason against it and has a
subject with both a complete and an incomplete record. -/
theorem accept_complete_iff (matrix : ConflictMatrix) :
    (∀ eligibility, evaluateEligibility matrix = .ok eligibility → eligibility.status = .accept →
      ∀ item ∈ matrix.dependencies, item.completeness = .complete) ↔
      ¬ (Checked matrix ∧ ¬ Flagged matrix ∧ Mixed matrix) := by
  constructor
  · rintro hall ⟨hchecked, hflagged, hmixed⟩
    obtain ⟨eligibility, hdecide, haccept⟩ := accept_of_not_flagged hflagged
    have hcomplete := hall eligibility ((evaluateEligibility_of_checked hchecked).trans hdecide) haccept
    exact (complete_iff_not_mixed hchecked hflagged).mp hcomplete hmixed
  · intro hnot eligibility hrun haccept item hitem
    obtain ⟨hchecked, hdecide⟩ := evaluateEligibility_ok hrun
    have hflagged := not_flagged_of_accept hdecide haccept (ne_nil_of_mem hitem)
    exact (complete_iff_not_mixed hchecked hflagged).mpr (fun hmixed => hnot ⟨hchecked, hflagged, hmixed⟩) item hitem

end

theorem isDigest_sample : isDigest sampleDigest = true := by decide

def nestedRef (parts : List String) : CompositionCandidateRef :=
  ⟨parts.map fun part => .text part.toList, sampleDigest, sampleDigest, sampleDigest⟩

def olderFile : Lock.VerifiedManifestBytes :=
  sampleFile "package-lock.json" "\x7b\"lockfileVersion\":3,\"packages\":\x7b\"node_modules/a\":\x7b\"version\":\"1\"\x7d\x7d\x7d"

def newerFile : Lock.VerifiedManifestBytes :=
  sampleFile "package-lock.json" "\x7b\"lockfileVersion\":3,\"packages\":\x7b\"node_modules/a\":\x7b\"version\":\"2\"\x7d\x7d\x7d"

/-- Four subjects whose keys read `a`, `b`, `c` side by side in two ways. -/
def nestedInput : CompositionInput where
  recipientSubject := "recipient-project".toList
  recipient := nestedRef ["b", "c"]
  recipientFiles := [newerFile]
  candidates := [nestedRef ["a"], nestedRef ["a", "b"], nestedRef ["c"]]
  candidateFiles := [((nestedRef ["a"]).candidateKey, [olderFile]), ((nestedRef ["a", "b"]).candidateKey, [olderFile]),
    ((nestedRef ["c"]).candidateKey, [newerFile])]
  dependencyPolicy := ⟨["package-lock.json".toList], []⟩
  policyDigest := sampleDigest

theorem nested_read : (∀ subject ∈ nestedInput.subjects, validateRef subject = .ok () ∧
      (dependencyClosuresFromManifest noToml (nestedInput.manifestsOf subject) nestedInput.dependencyPolicy).toOption.map
        (fun result => (result.diagnostics, result.sources.map (·.graph))) = some ([], [complete])) ∧
    (∀ entry ∈ nestedInput.candidateFiles, entry.1 ∈ nestedInput.candidates.map (·.candidateKey)) ∧
    (∀ key ∈ nestedInput.candidates.map (·.candidateKey), (nestedInput.candidateFiles.lookup key).isSome = true) ∧
    ∃ key ∈ clashNames noToml nestedInput (nestedRef ["a"], nestedInput.recipient),
      key ∈ clashNames noToml nestedInput (nestedRef ["a", "b"], nestedRef ["c"]) := by
  decide +kernel

theorem nested_clean {subject : CompositionCandidateRef} (hsubject : subject ∈ nestedInput.subjects) : ∃ result,
    dependencyClosuresFromManifest noToml (nestedInput.manifestsOf subject) nestedInput.dependencyPolicy = .ok result ∧
      result.diagnostics = [] ∧ result.sources.map (·.graph) = [complete] := by
  obtain ⟨result, hresult, hparts⟩ := Option.map_eq_some_iff.mp (nested_read.1 subject hsubject).2
  exact ⟨result, toOption_ok hresult, congrArg Prod.fst hparts, congrArg Prod.snd hparts⟩

theorem wellFormed_nested : WellFormed noToml nestedInput := by
  refine ⟨by decide, isDigest_sample, fun subject hsubject => (nested_read.1 subject hsubject).1, by decide,
    ⟨nested_read.2.1, nested_read.2.2.1⟩, cons_ne_nil _ _, ?_⟩
  intro subject hsubject
  obtain ⟨result, hresult, hdiagnostics, -⟩ := nested_clean hsubject
  exact ⟨result, hresult, hdiagnostics⟩

theorem complete_nested : CompleteManifests noToml nestedInput := by
  intro subject hsubject source hsource
  obtain ⟨result, hresult, -, hgraphs⟩ := nested_clean hsubject
  unfold sourcesOf at hsource
  rw [hresult] at hsource
  have hgraph : source.graph ∈ result.sources.map (·.graph) := mem_map.mpr ⟨source, hsource, rfl⟩
  rw [hgraphs] at hgraph
  exact mem_singleton.mp hgraph

theorem keysOrdered_nested : KeysOrdered noToml nestedInput := by
  have hkeys : ∀ a ∈ nestedInput.subjects, ∀ b ∈ nestedInput.subjects, ordered a.candidateKey b.candidateKey = true := by decide
  refine ⟨?_, fun a ha b hb _ _ => hkeys a ha b hb, ?_⟩
  · exact fun a ha b hb => hkeys a (mem_cons_of_mem _ ha) b (mem_cons_of_mem _ hb)
  · exact fun pair hpair other hother _ _ _ => hkeys _ (right_mem_subjects hpair) _ (right_mem_subjects hother)

/-- Two pairs whose keys flatten to the same parts have one name for their clashes, and the matrix is refused. -/
theorem composedMatrix_nested : WellFormed noToml nestedInput ∧ CompleteManifests noToml nestedInput ∧
    ∃ matrix, composedMatrix noToml nestedInput = .ok matrix ∧ ¬ (matrix.conflicts.map (·.evidenceKey)).Nodup ∧
      evaluateEligibility matrix = .error (.hardGate "composition conflict evidence keys are duplicated") := by
  have hlabelled := labelled_of_complete wellFormed_nested complete_nested
  have hbuilt : composedMatrix noToml nestedInput = .ok (matrixOf noToml nestedInput) := by
    rw [composedMatrix_eq wellFormed_nested hlabelled keysOrdered_nested.candidates,
      buildMatrix_eq wellFormed_nested keysOrdered_nested]
  have hnodup : ¬ ((matrixOf noToml nestedInput).conflicts.map (·.evidenceKey)).Nodup := by
    rw [nodup_names_iff wellFormed_nested]
    intro hdistinct
    obtain ⟨key, hkey, hkey'⟩ := nested_read.2.2.2
    have hpairs : (nestedRef ["a"], nestedInput.recipient) ∈ pairs nestedInput ∧
        (nestedRef ["a", "b"], nestedRef ["c"]) ∈ pairs nestedInput := by decide
    have hsame := hdistinct _ hpairs.1 _ hpairs.2 key (mem_append_left _ hkey) (mem_append_left _ hkey')
    exact absurd hsame (by decide)
  refine ⟨wellFormed_nested, complete_nested, _, hbuilt, hnodup, ?_⟩
  rw [evaluateEligibility_eq wellFormed_nested keysOrdered_nested, if_pos hnodup]

theorem keysIdentify_lock (hcomplete : CompleteManifests noToml lockInput) : KeysIdentify noToml lockInput := by
  refine ⟨(namesDistinct_iff wellFormed_lock hcomplete).mp composable_lock.distinct, ?_, ?_⟩
  · intro pair hpair other hother package versions package' versions' hclash hclash'
    have hordered := composable_lock.clashes pair hpair other hother _ (clashName_iff.mpr ⟨package, versions, hclash, rfl⟩) _
      (clashName_iff.mpr ⟨package', versions', hclash', rfl⟩)
    exact (TupleOrder.comparable_append [Part.text "dependency".toList] _ _).symm.trans hordered
  · intro a ha b hb _ _
    have hkeys : ∀ a ∈ lockInput.subjects, ∀ b ∈ lockInput.subjects, ordered a.candidateKey b.candidateKey = true := by decide
    exact hkeys a ha b hb

theorem composedMatrix_keys_lock : WellFormed noToml lockInput ∧ CompleteManifests noToml lockInput ∧
    ∃ matrix, composedMatrix noToml lockInput = .ok matrix ∧ (matrix.conflicts.map (·.evidenceKey)).Nodup ∧
      ∃ eligibility, evaluateEligibility matrix = .ok eligibility := by
  have hcomplete : CompleteManifests noToml lockInput := by
    unfold CompleteManifests
    decide +kernel
  have hbuilt : composedMatrix noToml lockInput = .ok (matrixOf noToml lockInput) := by
    rw [composedMatrix_eq wellFormed_lock (labelled_of_complete wellFormed_lock hcomplete) composable_lock.keys.candidates,
      buildMatrix_eq wellFormed_lock composable_lock.keys]
  exact ⟨wellFormed_lock, hcomplete, _, hbuilt,
    (composedMatrix_keys_iff noToml lockInput wellFormed_lock hcomplete _ hbuilt).mpr (keysIdentify_lock hcomplete)⟩

def sampleRecord (name package : String) (completeness : ClosureCompleteness) : CandidateDependencyEvidence :=
  ⟨sampleRef name, "npm".toList, package.toList, "1".toList, none, completeness, "package-lock.json".toList, sampleDigest⟩

/-- A matrix from outside whose candidate has a complete and an incomplete record, and no conflicts. -/
def mixedMatrix : ConflictMatrix :=
  let matrix : ConflictMatrix := ⟨matrixSchema, "recipient-project".toList, sampleRef "recipient", [sampleRef "candidate"],
    [sampleRecord "candidate" "a" .complete, sampleRecord "candidate" "b" .directOnly, sampleRecord "recipient" "c" .complete],
    [], [], [], sampleDigest, []⟩
  { matrix with matrixDigest := digest (matrixValue matrix) }

theorem checked_mixed : Checked mixedMatrix := by
  refine ⟨rfl, License.isDigest_sha _, rfl, by decide +kernel, by decide +kernel⟩

theorem evaluate_mixed : ∃ eligibility, evaluateEligibility mixedMatrix = .ok eligibility ∧ eligibility.status = .accept ∧
    ¬ ∀ item ∈ mixedMatrix.dependencies, item.completeness = .complete := by
  have hflagged : ¬ Flagged mixedMatrix := by
    unfold Flagged
    decide
  obtain ⟨eligibility, hdecide, haccept⟩ := accept_of_not_flagged hflagged
  exact ⟨eligibility, (evaluateEligibility_of_checked checked_mixed).trans hdecide, haccept, by decide⟩

end Leitir.Composition
