import Leitir.CompositionChecked

namespace Leitir.Composition

open List

open Json (Text)
open License (Toml isDigest)
open Lock (dependencyClosuresFromManifest)
open TupleOrder (Part Tuple ordered orderedAll)
open ExceptRun

section

variable (tomlLoads : Text → Option (List (Text × Toml))) (input : CompositionInput)

def HasVersion (subject : CompositionCandidateRef) (package : Text × Text) (version : Text) : Prop :=
  ∃ source ∈ sourcesOf tomlLoads input subject, ∃ edge ∈ source.deps,
    (source.ecosystem, edge.name) = package ∧ edge.version = version

def Disagree : Prop :=
  ∃ a ∈ input.subjects, ∃ b ∈ input.subjects, a ≠ b ∧ ∃ package version other,
    HasVersion tomlLoads input a package version ∧ HasVersion tomlLoads input b package other ∧ version ≠ other

def complete : Text := "complete".toList

def HasDirectSource (subject : CompositionCandidateRef) : Prop :=
  ∃ source ∈ sourcesOf tomlLoads input subject, source.graph ≠ complete

def HasCompleteEvidence (subject : CompositionCandidateRef) : Prop :=
  ∃ source ∈ sourcesOf tomlLoads input subject, source.graph = complete ∧ source.deps ≠ []

def EmptyMatrix : Prop := input.candidates = [] ∧ ∀ source ∈ sourcesOf tomlLoads input input.recipient, source.deps = []

def Incomplete : Prop :=
  (∃ subject ∈ input.subjects, HasDirectSource tomlLoads input subject ∨ ¬ HasCompleteEvidence tomlLoads input subject) ∧
    ¬ EmptyMatrix tomlLoads input

/-- The input is decided as it is prescribed. -/
def Decided : Prop :=
  ∃ matrix eligibility, compose tomlLoads input = .ok (matrix, eligibility) ∧
    (eligibility.status = .reject ↔ Disagree tomlLoads input) ∧
    (eligibility.status = .indeterminate ↔ ¬ Disagree tomlLoads input ∧ Incomplete tomlLoads input) ∧
    (eligibility.status = .accept ↔ ¬ Disagree tomlLoads input ∧ ¬ Incomplete tomlLoads input)

/-- The name of what is left open: an incomplete source of a pair, or a subject without complete evidence. -/
def OpenName (key : Tuple) : Prop :=
  (∃ pair ∈ pairs input, key ∈ openNames tomlLoads input pair) ∨
    ¬ EmptyMatrix tomlLoads input ∧
      ∃ subject ∈ input.subjects, ¬ HasCompleteEvidence tomlLoads input subject ∧ key = subject.candidateKey

/-- What the code asks of an input beyond its form: no Go module, keys and names that have an order, no name twice, and
another subject beside a recipient that has both complete evidence and a direct source. -/
structure Composable : Prop where
  labelled : Labelled input
  keys : KeysOrdered tomlLoads input
  clashes : ∀ pair ∈ pairs input, ∀ other ∈ pairs input, ∀ a ∈ clashNames tomlLoads input pair,
    ∀ b ∈ clashNames tomlLoads input other, ordered a b = true
  opens : ∀ a b, OpenName tomlLoads input a → OpenName tomlLoads input b → ordered a b = true
  distinct : NamesDistinct tomlLoads input
  accompanied : input.candidates = [] → HasDirectSource tomlLoads input input.recipient →
    ¬ HasCompleteEvidence tomlLoads input input.recipient

end

variable {tomlLoads : Text → Option (List (Text × Toml))} {input : CompositionInput}

section

variable {subject : CompositionCandidateRef}

theorem hasVersion_iff {package : Text × Text} {version : Text} :
    HasVersion tomlLoads input subject package version ↔
      ∃ item ∈ (closureOf tomlLoads input subject).evidence, item.identity = package ∧ item.version = version := by
  constructor
  · rintro ⟨source, hsource, edge, hedge, hpackage, hversion⟩
    exact ⟨_, mem_evidence.mpr ⟨source, hsource, edge, hedge, rfl⟩, hpackage, hversion⟩
  · rintro ⟨item, hitem, hpackage, hversion⟩
    obtain ⟨source, hsource, edge, hedge, rfl⟩ := mem_evidence.mp hitem
    exact ⟨source, hsource, edge, hedge, hpackage, hversion⟩

theorem exists_clash_iff_of_pair {pair : CompositionCandidateRef × CompositionCandidateRef} :
    (∃ key, key ∈ clashNames tomlLoads input pair) ↔ ∃ package version other,
      HasVersion tomlLoads input pair.1 package version ∧ HasVersion tomlLoads input pair.2 package other ∧
        version ≠ other := by
  have hnames : (∃ key, key ∈ clashNames tomlLoads input pair) ↔ ∃ shared ∈ sharedVersions
      (closureOf tomlLoads input pair.1).evidence (closureOf tomlLoads input pair.2).evidence, 1 < shared.2.length := by
    constructor
    · rintro ⟨key, hkey⟩
      obtain ⟨shared, hshared, hlength, -⟩ := clashName_eq hkey
      exact ⟨shared, hshared, hlength⟩
    · rintro ⟨shared, hshared, hlength⟩
      exact ⟨_, mem_map.mpr ⟨shared, mem_filter.mpr ⟨hshared, decide_eq_true hlength⟩, rfl⟩⟩
  rw [hnames, exists_shared_iff]
  simp only [hasVersion_iff]
  constructor
  · rintro ⟨a, ha, b, hb, hidentity, hne⟩
    exact ⟨a.identity, a.version, b.version, ⟨a, ha, rfl, rfl⟩, ⟨b, hb, hidentity.symm, rfl⟩, hne⟩
  · rintro ⟨package, version, other, ⟨a, ha, hpackage, rfl⟩, ⟨b, hb, hpackage', rfl⟩, hne⟩
    exact ⟨a, ha, b, hb, hpackage.trans hpackage'.symm, hne⟩

theorem exists_clash_iff (h : WellFormed tomlLoads input) :
    (∃ pair ∈ pairs input, ∃ key, key ∈ clashNames tomlLoads input pair) ↔ Disagree tomlLoads input := by
  constructor
  · rintro ⟨pair, hpair, hclash⟩
    exact ⟨pair.1, left_mem_subjects hpair, pair.2, right_mem_subjects hpair, ne_of_pair h hpair,
      exists_clash_iff_of_pair.mp hclash⟩
  · rintro ⟨a, ha, b, hb, hne, package, version, other, hversion, hother, hdiffer⟩
    rcases pair_of_subjects ha hb hne with hpair | hpair
    · exact ⟨(a, b), hpair, exists_clash_iff_of_pair.mpr ⟨package, version, other, hversion, hother, hdiffer⟩⟩
    · exact ⟨(b, a), hpair, exists_clash_iff_of_pair.mpr ⟨package, other, version, hother, hversion, hdiffer.symm⟩⟩

theorem completenessOf_eq_complete (h : WellFormed tomlLoads input) (hlabelled : Labelled input) (hsubject : subject ∈ input.subjects) {source : Lock.ManifestDependencySource}
    (hsource : source ∈ sourcesOf tomlLoads input subject) : completenessOf source = .complete ↔ source.graph = complete := by
  have hsome := (labelled_iff h hsubject).mp hlabelled source hsource
  rcases closureCompleteness_read ((sourcesOf_read h hsubject).2.2 source hsource) with ⟨hnone, -⟩ | ⟨found, hfound, -, hiff⟩
  · rw [hnone] at hsome
    cases hsome
  · unfold completenessOf
    rw [hfound, Option.getD_some]
    exact hiff

theorem exists_unknown_iff (h : WellFormed tomlLoads input) (hlabelled : Labelled input)
    (hsubject : subject ∈ input.subjects) :
    (∃ item, item ∈ (closureOf tomlLoads input subject).unknown) ↔ HasDirectSource tomlLoads input subject := by
  constructor
  · rintro ⟨item, hitem⟩
    obtain ⟨source, hsource, hnot, -⟩ := mem_unknown.mp hitem
    exact ⟨source, hsource, fun heq => hnot ((completenessOf_eq_complete h hlabelled hsubject hsource).mpr heq)⟩
  · rintro ⟨source, hsource, hnot⟩
    exact ⟨_, mem_unknown.mpr
      ⟨source, hsource, fun heq => hnot ((completenessOf_eq_complete h hlabelled hsubject hsource).mp heq), rfl⟩⟩

/-- With a candidate every direct source is in some pair. -/
theorem exists_open_iff (h : WellFormed tomlLoads input) (hlabelled : Labelled input) :
    (∃ pair ∈ pairs input, ∃ key, key ∈ openNames tomlLoads input pair) ↔
      input.candidates ≠ [] ∧ ∃ subject ∈ input.subjects, HasDirectSource tomlLoads input subject := by
  constructor
  · rintro ⟨pair, hpair, key, hkey⟩
    have hcandidate := mem_rankedCandidates.mp (subjects_of_pair hpair).1
    refine ⟨ne_nil_of_mem hcandidate, ?_⟩
    obtain ⟨side, target, item, ⟨hitem, hside⟩, -⟩ := openName_iff.mp hkey
    have htarget : target ∈ input.subjects := by
      rcases hside with ⟨-, rfl⟩ | ⟨-, rfl⟩
      · exact left_mem_subjects hpair
      · exact right_mem_subjects hpair
    exact ⟨target, htarget, (exists_unknown_iff h hlabelled htarget).mp ⟨item, hitem⟩⟩
  · rintro ⟨hnonempty, subject, hsubject, hdirect⟩
    obtain ⟨item, hitem⟩ := (exists_unknown_iff h hlabelled hsubject).mpr hdirect
    obtain ⟨candidate, hcandidate⟩ := exists_mem_of_ne_nil _ hnonempty
    have hfrom : ∀ other ∈ input.subjects, subject ≠ other → ∃ pair ∈ pairs input, ∃ key,
        key ∈ openNames tomlLoads input pair := by
      intro other hother hne
      rcases pair_of_subjects hsubject hother hne with hpair | hpair
      · exact ⟨_, hpair, _, openName_iff.mpr ⟨"left", subject, item, ⟨hitem, .inl ⟨rfl, rfl⟩⟩, rfl⟩⟩
      · exact ⟨_, hpair, _, openName_iff.mpr ⟨"right", subject, item, ⟨hitem, .inr ⟨rfl, rfl⟩⟩, rfl⟩⟩
    by_cases hrecipient : subject = input.recipient
    · refine hfrom candidate (mem_cons_of_mem _ hcandidate) ?_
      intro heq
      exact recipient_not_candidate h (mem_rankedCandidates.mpr (hrecipient ▸ heq ▸ hcandidate))
    · exact hfrom input.recipient mem_cons_self hrecipient

theorem mem_missingSubjects (h : WellFormed tomlLoads input) (hlabelled : Labelled input) :
    subject ∈ missingSubjects (matrixOf tomlLoads input) ↔
      subject ∈ input.subjects ∧ ¬ HasCompleteEvidence tomlLoads input subject := by
  have hcomplete : subject ∈ input.subjects → (((matrixOf tomlLoads input).dependencies.any fun item =>
      item.subject = subject && item.completeness = .complete) = true ↔ HasCompleteEvidence tomlLoads input subject) := by
    intro hsubject
    rw [any_eq_true]
    constructor
    · rintro ⟨item, hitem, htest⟩
      simp only [Bool.and_eq_true, decide_eq_true_eq] at htest
      obtain ⟨owner, -, hitem⟩ := mem_dependenciesOf.mp (perm_matrix_dependencies.mem_iff.mp hitem)
      have howner : owner = subject := (subject_of_evidence hitem).symm.trans htest.1
      subst howner
      obtain ⟨source, hsource, edge, hedge, rfl⟩ := mem_evidence.mp hitem
      exact ⟨source, hsource, (completenessOf_eq_complete h hlabelled hsubject hsource).mp htest.2, ne_nil_of_mem hedge⟩
    · rintro ⟨source, hsource, hgraph, hdeps⟩
      obtain ⟨edge, hedge⟩ := exists_mem_of_ne_nil _ hdeps
      refine ⟨evidenceOf subject source (completenessOf source) edge, ?_, ?_⟩
      · exact perm_matrix_dependencies.mem_iff.mpr
          (mem_dependenciesOf.mpr ⟨subject, hsubject, mem_evidence.mpr ⟨source, hsource, edge, hedge, rfl⟩⟩)
      · simp [evidenceOf, (completenessOf_eq_complete h hlabelled hsubject hsource).mpr hgraph]
  unfold missingSubjects
  change subject ∈ (rankedSubjects input).filter _ ↔ _
  rw [mem_filter, mem_rankedSubjects]
  refine and_congr_right fun hsubject => ?_
  rw [Bool.not_eq_true', ← Bool.not_eq_true, hcomplete hsubject]

theorem isEmptyMatrix_iff : isEmptyMatrix (matrixOf tomlLoads input) = true ↔ EmptyMatrix tomlLoads input := by
  have hcandidates : (matrixOf tomlLoads input).candidates.isEmpty = true ↔ input.candidates = [] := by
    rw [List.isEmpty_iff]
    change rankedCandidates input = [] ↔ _
    exact ⟨fun hnil => (hnil ▸ @perm_rankedCandidates input).nil_eq.symm, fun hnil => by
      have hperm := @perm_rankedCandidates input
      rw [hnil] at hperm
      exact hperm.eq_nil⟩
  unfold isEmptyMatrix EmptyMatrix
  rw [Bool.and_eq_true, hcandidates]
  refine and_congr_right fun hnil => ?_
  rw [List.isEmpty_iff]
  constructor
  · intro hnone source hsource
    by_contra hdeps
    obtain ⟨edge, hedge⟩ := exists_mem_of_ne_nil _ hdeps
    have hitem := perm_matrix_dependencies.mem_iff.mpr (mem_dependenciesOf.mpr
      ⟨input.recipient, mem_cons_self, mem_evidence.mpr ⟨source, hsource, edge, hedge, rfl⟩⟩)
    rw [hnone] at hitem
    cases hitem
  · intro hnone
    rw [eq_nil_iff_forall_not_mem]
    intro item hitem
    obtain ⟨subject, hsubject, hitem⟩ := mem_dependenciesOf.mp (perm_matrix_dependencies.mem_iff.mp hitem)
    obtain ⟨source, hsource, edge, hedge, -⟩ := mem_evidence.mp hitem
    rw [CompositionInput.subjects, hnil, mem_singleton] at hsubject
    subst hsubject
    rw [hnone source hsource] at hedge
    cases hedge

end

section

def blockingNames (tomlLoads : Text → Option (List (Text × Toml))) (input : CompositionInput) : List Tuple :=
  ((matrixOf tomlLoads input).conflicts.filter fun item => item.status = .incompatible && item.kind.blocking).map
    (·.evidenceKey)

def unknownNames (tomlLoads : Text → Option (List (Text × Toml))) (input : CompositionInput) : List Tuple :=
  ((matrixOf tomlLoads input).conflicts.filter fun item => item.status = .unknown).map (·.evidenceKey)

def missingNames (tomlLoads : Text → Option (List (Text × Toml))) (input : CompositionInput) : List Tuple :=
  (missingSubjects (matrixOf tomlLoads input)).map (·.candidateKey)

variable {key : Tuple}

theorem mem_blockingNames : key ∈ blockingNames tomlLoads input ↔
    ∃ pair ∈ pairs input, key ∈ clashNames tomlLoads input pair := by
  unfold blockingNames
  rw [mem_map]
  constructor
  · rintro ⟨item, hitem, rfl⟩
    obtain ⟨hitem, hstatus⟩ := mem_filter.mp hitem
    obtain ⟨pair, hpair, hcell⟩ := mem_matrix_conflicts.mp hitem
    rcases mem_cells.mp hcell with ⟨key, hkey, rfl⟩ | ⟨key, hkey, rfl⟩
    · exact ⟨pair, hpair, hkey⟩
    · cases hstatus
  · rintro ⟨pair, hpair, hkey⟩
    refine ⟨clashRecord pair.1 pair.2 key, mem_filter.mpr ⟨?_, rfl⟩, rfl⟩
    exact mem_matrix_conflicts.mpr ⟨pair, hpair, mem_cells.mpr (.inl ⟨key, hkey, rfl⟩)⟩

theorem mem_unknownNames : key ∈ unknownNames tomlLoads input ↔
    ∃ pair ∈ pairs input, key ∈ openNames tomlLoads input pair := by
  unfold unknownNames
  rw [mem_map]
  constructor
  · rintro ⟨item, hitem, rfl⟩
    obtain ⟨hitem, hstatus⟩ := mem_filter.mp hitem
    obtain ⟨pair, hpair, hcell⟩ := mem_matrix_conflicts.mp hitem
    rcases mem_cells.mp hcell with ⟨key, hkey, rfl⟩ | ⟨key, hkey, rfl⟩
    · cases hstatus
    · exact ⟨pair, hpair, hkey⟩
  · rintro ⟨pair, hpair, hkey⟩
    refine ⟨openRecord pair.1 pair.2 key, mem_filter.mpr ⟨?_, rfl⟩, rfl⟩
    exact mem_matrix_conflicts.mpr ⟨pair, hpair, mem_cells.mpr (.inr ⟨key, hkey, rfl⟩)⟩

theorem isLacking_iff (h : WellFormed tomlLoads input) (hlabelled : Labelled input) : isLacking (matrixOf tomlLoads input) = true ↔
    ¬ EmptyMatrix tomlLoads input ∧ ∃ subject ∈ input.subjects, ¬ HasCompleteEvidence tomlLoads input subject := by
  have hmissing : (missingSubjects (matrixOf tomlLoads input)).isEmpty = true ↔
      ¬ ∃ subject ∈ input.subjects, ¬ HasCompleteEvidence tomlLoads input subject := by
    rw [List.isEmpty_iff, eq_nil_iff_forall_not_mem]
    simp only [mem_missingSubjects h hlabelled, not_exists, not_and, not_not]
  unfold isLacking
  rw [Bool.and_eq_true, Bool.not_eq_true', Bool.not_eq_true', ← Bool.not_eq_true, ← Bool.not_eq_true, hmissing,
    isEmptyMatrix_iff, not_not, and_comm]

def openAll (tomlLoads : Text → Option (List (Text × Toml))) (input : CompositionInput) : List Tuple :=
  if isLacking (matrixOf tomlLoads input) then unknownNames tomlLoads input ++ missingNames tomlLoads input
  else unknownNames tomlLoads input

theorem mem_openAll (h : WellFormed tomlLoads input) (hlabelled : Labelled input) :
    key ∈ openAll tomlLoads input ↔ OpenName tomlLoads input key := by
  have hmissing : key ∈ missingNames tomlLoads input ↔
      ∃ subject ∈ input.subjects, ¬ HasCompleteEvidence tomlLoads input subject ∧ key = subject.candidateKey := by
    unfold missingNames
    rw [mem_map]
    constructor
    · rintro ⟨subject, hsubject, rfl⟩
      obtain ⟨hmem, hnot⟩ := (mem_missingSubjects h hlabelled).mp hsubject
      exact ⟨subject, hmem, hnot, rfl⟩
    · rintro ⟨subject, hmem, hnot, rfl⟩
      exact ⟨subject, (mem_missingSubjects h hlabelled).mpr ⟨hmem, hnot⟩, rfl⟩
  unfold openAll OpenName
  rw [← mem_unknownNames]
  split
  next hlacking =>
    rw [mem_append, hmissing]
    have hnonempty := ((isLacking_iff h hlabelled).mp hlacking).1
    exact or_congr_right (iff_and_self.mpr fun _ => hnonempty)
  next hlacking =>
    refine ⟨.inl, ?_⟩
    rintro (hkey | ⟨hnonempty, subject, hsubject, hnot, -⟩)
    · exact hkey
    · exact absurd ((isLacking_iff h hlabelled).mpr ⟨hnonempty, subject, hsubject, hnot⟩) hlacking

theorem sorted_id_ok {items result : List Tuple} (h : sorted ordered id items = .ok result) :
    result.Perm items ∧ ∀ a ∈ items, ∀ b ∈ items, ordered a b = true := by
  have hall := (sorted_ok_iff TupleOrder.ordered_self TupleOrder.ordered_symm).mp ⟨result, h⟩
  refine ⟨?_, hall⟩
  rw [sorted_ok hall] at h
  cases h
  exact perm_insertionSort _ _

/-- What a decision on the matrix says. -/
theorem decideMatrix_ok {eligibility : CompositionEligibility}
    (hdecide : decideMatrix (matrixOf tomlLoads input) = .ok eligibility) :
    (∀ a ∈ blockingNames tomlLoads input, ∀ b ∈ blockingNames tomlLoads input, ordered a b = true) ∧
      (∀ a ∈ openAll tomlLoads input, ∀ b ∈ openAll tomlLoads input, ordered a b = true) ∧
      ∃ blocking unknown, blocking.Perm (blockingNames tomlLoads input) ∧ unknown.Perm (openAll tomlLoads input) ∧
        eligibility.status = statusOf blocking unknown := by
  unfold decideMatrix at hdecide
  obtain ⟨blocking, hblocking, hdecide⟩ := bind_ok hdecide
  obtain ⟨known, hknown, hdecide⟩ := bind_ok hdecide
  obtain ⟨unknown, hunknown, hdecide⟩ := bind_ok hdecide
  obtain ⟨hperm, hordered⟩ := sorted_id_ok hblocking
  obtain ⟨hpermKnown, horderedKnown⟩ := sorted_id_ok hknown
  have hopen : unknown.Perm (openAll tomlLoads input) ∧
      ∀ a ∈ openAll tomlLoads input, ∀ b ∈ openAll tomlLoads input, ordered a b = true := by
    unfold withMissing at hunknown
    unfold openAll
    split at hunknown
    next hlacking =>
      rw [if_pos hlacking]
      obtain ⟨hpermAll, horderedAll⟩ := sorted_id_ok hunknown
      have hperm' := hpermKnown.append_right (missingNames tomlLoads input)
      refine ⟨hpermAll.trans hperm', fun a ha b hb => ?_⟩
      exact horderedAll a (hperm'.mem_iff.mpr ha) b (hperm'.mem_iff.mpr hb)
    next hlacking =>
      rw [if_neg hlacking]
      cases hunknown
      exact ⟨hpermKnown, horderedKnown⟩
  cases hdecide
  exact ⟨hordered, hopen.2, blocking, unknown, hperm, hopen.1, rfl⟩

theorem decideMatrix_eq_ok
    (hblocking : ∀ a ∈ blockingNames tomlLoads input, ∀ b ∈ blockingNames tomlLoads input, ordered a b = true)
    (hopen : ∀ a ∈ openAll tomlLoads input, ∀ b ∈ openAll tomlLoads input, ordered a b = true) :
    ∃ eligibility, decideMatrix (matrixOf tomlLoads input) = .ok eligibility := by
  have hsub : ∀ key ∈ unknownNames tomlLoads input, key ∈ openAll tomlLoads input := by
    intro key hkey
    unfold openAll
    split
    next => exact mem_append_left _ hkey
    next => exact hkey
  have hblocked : sorted ordered id (blockingNames tomlLoads input) = .ok _ := sorted_ok hblocking
  have hknown : sorted ordered id (unknownNames tomlLoads input) = .ok _ :=
    sorted_ok fun a ha b hb => hopen a (hsub a ha) b (hsub b hb)
  unfold blockingNames at hblocked
  unfold unknownNames at hknown
  unfold decideMatrix
  rw [bind_eq hblocked, bind_eq hknown]
  obtain ⟨unknown, hunknown⟩ : ∃ unknown, withMissing (matrixOf tomlLoads input)
      ((unknownNames tomlLoads input).insertionSort fun a b => id a ≤ id b) = .ok unknown := by
    unfold withMissing
    split
    next hlacking =>
      refine ⟨_, sorted_ok fun a ha b hb => ?_⟩
      have hmem : ∀ key, key ∈ (unknownNames tomlLoads input).insertionSort (fun a b => id a ≤ id b) ++
          missingNames tomlLoads input → key ∈ openAll tomlLoads input := by
        intro key hkey
        unfold openAll
        rw [if_pos hlacking]
        exact ((perm_insertionSort _ _).append_right _).mem_iff.mp hkey
      exact hopen a (hmem a ha) b (hmem b hb)
    next => exact ⟨_, rfl⟩
  exact ⟨_, bind_eq hunknown⟩

/-- The status in terms of the input. -/
theorem status_of_decision (h : WellFormed tomlLoads input) (hlabelled : Labelled input) {eligibility : CompositionEligibility}
    (hdecide : decideMatrix (matrixOf tomlLoads input) = .ok eligibility) :
    (eligibility.status = .reject ↔ Disagree tomlLoads input) ∧
      (eligibility.status = .indeterminate ↔ ¬ Disagree tomlLoads input ∧ ∃ key, OpenName tomlLoads input key) ∧
      (eligibility.status = .accept ↔ ¬ Disagree tomlLoads input ∧ ¬ ∃ key, OpenName tomlLoads input key) := by
  obtain ⟨-, -, blocking, unknown, hblocking, hunknown, hstatus⟩ := decideMatrix_ok hdecide
  have hdisagree : blocking ≠ [] ↔ Disagree tomlLoads input := by
    rw [← exists_clash_iff h]
    constructor
    · intro hne
      obtain ⟨key, hkey⟩ := exists_mem_of_ne_nil _ hne
      obtain ⟨pair, hpair, hkey⟩ := mem_blockingNames.mp (hblocking.mem_iff.mp hkey)
      exact ⟨pair, hpair, key, hkey⟩
    · rintro ⟨pair, hpair, key, hkey⟩
      exact ne_nil_of_mem (hblocking.mem_iff.mpr (mem_blockingNames.mpr ⟨pair, hpair, hkey⟩))
  have hopen : unknown ≠ [] ↔ ∃ key, OpenName tomlLoads input key := by
    constructor
    · intro hne
      obtain ⟨key, hkey⟩ := exists_mem_of_ne_nil _ hne
      exact ⟨key, (mem_openAll h hlabelled).mp (hunknown.mem_iff.mp hkey)⟩
    · rintro ⟨key, hkey⟩
      exact ne_nil_of_mem (hunknown.mem_iff.mpr ((mem_openAll h hlabelled).mpr hkey))
  rw [hstatus, ← hdisagree, ← hopen]
  unfold statusOf
  by_cases hb : blocking = []
  · by_cases hu : unknown = []
    · simp [hb, hu]
    · simp [hb, hu]
  · simp [hb]

/-- What is open is what is incomplete, unless a recipient with complete evidence and a direct source stands alone. -/
theorem exists_openName_iff (h : WellFormed tomlLoads input) (hlabelled : Labelled input) :
    (∃ key, OpenName tomlLoads input key) ↔ Incomplete tomlLoads input ∧
      ¬ (input.candidates = [] ∧ HasDirectSource tomlLoads input input.recipient ∧
        HasCompleteEvidence tomlLoads input input.recipient) := by
  constructor
  · rintro ⟨key, ⟨pair, hpair, hkey⟩ | ⟨hnonempty, subject, hsubject, hnot, -⟩⟩
    · obtain ⟨hcandidates, subject, hsubject, hdirect⟩ := (exists_open_iff h hlabelled).mp ⟨pair, hpair, key, hkey⟩
      exact ⟨⟨⟨subject, hsubject, .inl hdirect⟩, fun hempty => hcandidates hempty.1⟩, fun halone => hcandidates halone.1⟩
    · refine ⟨⟨⟨subject, hsubject, .inr hnot⟩, hnonempty⟩, ?_⟩
      rintro ⟨hnil, -, hcomplete⟩
      rw [CompositionInput.subjects, hnil, mem_singleton] at hsubject
      exact hnot (hsubject ▸ hcomplete)
  · rintro ⟨⟨⟨subject, hsubject, hsource⟩, hnonempty⟩, halone⟩
    by_cases hcomplete : HasCompleteEvidence tomlLoads input subject
    · have hdirect : HasDirectSource tomlLoads input subject := hsource.resolve_right (not_not_intro hcomplete)
      have hcandidates : input.candidates ≠ [] := by
        intro hnil
        rw [CompositionInput.subjects, hnil, mem_singleton] at hsubject
        subst hsubject
        exact halone ⟨hnil, hdirect, hcomplete⟩
      obtain ⟨pair, hpair, key, hkey⟩ := (exists_open_iff h hlabelled).mpr ⟨hcandidates, subject, hsubject, hdirect⟩
      exact ⟨key, .inl ⟨pair, hpair, hkey⟩⟩
    · exact ⟨subject.candidateKey, .inr ⟨hnonempty, subject, hsubject, hcomplete, rfl⟩⟩

end

theorem compose_ok {result : ConflictMatrix × CompositionEligibility} (h : compose tomlLoads input = .ok result) :
    (∃ candidates, sorted ordered (·.candidateKey) input.candidates = .ok candidates) ∧
      ∃ closure, closureEvidence tomlLoads input.dependencyPolicy input.recipient input.recipientFiles = .ok closure := by
  unfold compose at h
  obtain ⟨-, h⟩ := guard_ok h
  obtain ⟨_, -, h⟩ := bind_ok h
  obtain ⟨_, -, h⟩ := bind_ok h
  obtain ⟨candidates, hcandidates, h⟩ := bind_ok h
  obtain ⟨-, h⟩ := guard_ok h
  obtain ⟨-, h⟩ := guard_ok h
  obtain ⟨closure, hclosure, -⟩ := bind_ok h
  exact ⟨⟨candidates, hcandidates⟩, closure, hclosure⟩

theorem labelled_of_compose (h : WellFormed tomlLoads input) {result : ConflictMatrix × CompositionEligibility}
    (hrun : compose tomlLoads input = .ok result) : Labelled input := by
  obtain ⟨-, closure, hclosure⟩ := compose_ok hrun
  by_contra hlabelled
  have hmem : input.recipient ∈ input.subjects := mem_cons_self
  rw [← manifestsOf_recipient] at hclosure
  exact closureEvidence_error h hlabelled hmem hclosure

theorem compose_inv (h : WellFormed tomlLoads input) {matrix : ConflictMatrix} {eligibility : CompositionEligibility}
    (hrun : compose tomlLoads input = .ok (matrix, eligibility)) :
    Labelled input ∧ KeysOrdered tomlLoads input ∧ NamesDistinct tomlLoads input ∧
      decideMatrix (matrixOf tomlLoads input) = .ok eligibility := by
  have hlabelled := labelled_of_compose h hrun
  have hcandidates := (sorted_ok_iff TupleOrder.ordered_self TupleOrder.ordered_symm).mp (compose_ok hrun).1
  rw [compose_eq h hlabelled hcandidates] at hrun
  obtain ⟨built, hbuilt, hrun⟩ := bind_ok hrun
  obtain ⟨decision, hdecision, hrun⟩ := bind_ok hrun
  cases hrun
  have hkeys := keysOrdered_of_build h hcandidates hbuilt
  rw [buildMatrix_eq h hkeys] at hbuilt
  cases hbuilt
  rw [evaluateEligibility_eq h hkeys] at hdecision
  obtain ⟨hnodup, hdecision⟩ := guard_ok hdecision
  exact ⟨hlabelled, hkeys, (nodup_names_iff h).mp (not_not.mp hnodup), hdecision⟩

theorem compose_run (h : WellFormed tomlLoads input) (hlabelled : Labelled input) (hkeys : KeysOrdered tomlLoads input)
    (hdistinct : NamesDistinct tomlLoads input) {eligibility : CompositionEligibility}
    (hdecide : decideMatrix (matrixOf tomlLoads input) = .ok eligibility) :
    compose tomlLoads input = .ok (matrixOf tomlLoads input, eligibility) := by
  rw [compose_eq h hlabelled hkeys.candidates]
  unfold finish
  rw [bind_eq (buildMatrix_eq h hkeys), evaluateEligibility_eq h hkeys,
    if_neg (not_not_intro ((nodup_names_iff h).mpr hdistinct)), bind_eq hdecide]
  rfl

/-- A well-formed input is decided as prescribed if and only if it is composable. -/
theorem compose_decides_iff (tomlLoads : Text → Option (List (Text × Toml))) (input : CompositionInput)
    (h : WellFormed tomlLoads input) : Decided tomlLoads input ↔ Composable tomlLoads input := by
  constructor
  · rintro ⟨matrix, eligibility, hrun, hreject, hindeterminate, haccept⟩
    obtain ⟨hlabelled, hkeys, hdistinct, hdecide⟩ := compose_inv h hrun
    obtain ⟨hblocking, hopen, -⟩ := decideMatrix_ok hdecide
    obtain ⟨-, -, hstatus⟩ := status_of_decision h hlabelled hdecide
    refine ⟨hlabelled, hkeys, ?_, ?_, hdistinct, ?_⟩
    · intro pair hpair other hother a ha b hb
      exact hblocking a (mem_blockingNames.mpr ⟨pair, hpair, ha⟩) b (mem_blockingNames.mpr ⟨other, hother, hb⟩)
    · intro a b ha hb
      exact hopen a ((mem_openAll h hlabelled).mpr ha) b ((mem_openAll h hlabelled).mpr hb)
    · intro halone hdirect hcomplete
      have hagree : ¬ Disagree tomlLoads input := by
        rintro ⟨a, ha, b, hb, hne, -⟩
        rw [CompositionInput.subjects, halone, mem_singleton] at ha hb
        exact hne (ha.trans hb.symm)
      have hclosed : ¬ ∃ key, OpenName tomlLoads input key := by
        rw [exists_openName_iff h hlabelled]
        exact fun hboth => hboth.2 ⟨halone, hdirect, hcomplete⟩
      have hincomplete : Incomplete tomlLoads input := by
        refine ⟨⟨input.recipient, mem_cons_self, .inl hdirect⟩, ?_⟩
        rintro ⟨-, hnone⟩
        obtain ⟨source, hsource, -, hdeps⟩ := hcomplete
        exact hdeps (hnone source hsource)
      exact (haccept.mp (hstatus.mpr ⟨hagree, hclosed⟩)).2 hincomplete
  · intro hcomposable
    have hlabelled := hcomposable.labelled
    have hblocking : ∀ a ∈ blockingNames tomlLoads input, ∀ b ∈ blockingNames tomlLoads input, ordered a b = true := by
      intro a ha b hb
      obtain ⟨pair, hpair, ha⟩ := mem_blockingNames.mp ha
      obtain ⟨other, hother, hb⟩ := mem_blockingNames.mp hb
      exact hcomposable.clashes pair hpair other hother a ha b hb
    have hopen : ∀ a ∈ openAll tomlLoads input, ∀ b ∈ openAll tomlLoads input, ordered a b = true := fun a ha b hb =>
      hcomposable.opens a b ((mem_openAll h hlabelled).mp ha) ((mem_openAll h hlabelled).mp hb)
    obtain ⟨eligibility, hdecide⟩ := decideMatrix_eq_ok hblocking hopen
    have hstatus := status_of_decision h hlabelled hdecide
    have hincomplete : (∃ key, OpenName tomlLoads input key) ↔ Incomplete tomlLoads input := by
      rw [exists_openName_iff h hlabelled]
      exact and_iff_left fun halone => hcomposable.accompanied halone.1 halone.2.1 halone.2.2
    rw [hincomplete] at hstatus
    exact ⟨_, eligibility, compose_run h hlabelled hcomposable.keys hcomposable.distinct hdecide, hstatus⟩

def noToml : Text → Option (List (Text × Toml)) := fun _ => none

def sampleFile (path text : String) : Lock.VerifiedManifestBytes where
  path := path.toList
  role := "dependency".toList
  byteLength := (Utf8.encodeText text.toList).length
  sha256 := License.sha (Utf8.encodeText text.toList)
  content := Utf8.encodeText text.toList

def sampleDigest : Text := "sha256:".toList ++ List.replicate 64 '1'

def sampleRef (name : String) : CompositionCandidateRef :=
  ⟨[.text name.toList, .int 1], sampleDigest, sampleDigest, sampleDigest⟩

/-- A recipient and a candidate with the same manifest. -/
def sampleInput (file : Lock.VerifiedManifestBytes) : CompositionInput where
  recipientSubject := "recipient-project".toList
  recipient := sampleRef "recipient"
  recipientFiles := [file]
  candidates := [sampleRef "candidate"]
  candidateFiles := [((sampleRef "candidate").candidateKey, [file])]
  dependencyPolicy := ⟨[file.path], []⟩
  policyDigest := sampleDigest

theorem wellFormed_sample {file : Lock.VerifiedManifestBytes}
    (hclean : (dependencyClosuresFromManifest noToml [file] ⟨[file.path], []⟩).toOption.map (·.diagnostics) = some []) :
    WellFormed noToml (sampleInput file) := by
  have hresult : ∃ result, dependencyClosuresFromManifest noToml [file] ⟨[file.path], []⟩ = .ok result ∧
      result.diagnostics = [] := by
    cases hrun : dependencyClosuresFromManifest noToml [file] ⟨[file.path], []⟩ with
    | error error =>
      rw [hrun] at hclean
      cases hclean
    | ok result =>
      rw [hrun] at hclean
      exact ⟨result, rfl, Option.some.inj hclean⟩
  have hdigest : isDigest sampleDigest = true := by decide
  have hvalid : ∀ name, validateRef (sampleRef name) = .ok () := by
    intro name
    unfold validateRef
    rw [if_neg (by simp [sampleRef]), if_pos (by simp [sampleRef, hdigest])]
  have hnamed : "recipient-project".toList ≠ [] := by decide
  have hdistinct : [(sampleRef "recipient").candidateKey, (sampleRef "candidate").candidateKey].Nodup := by decide
  have hsubjects : (sampleInput file).subjects = [sampleRef "recipient", sampleRef "candidate"] := rfl
  refine ⟨hnamed, hdigest, ?_, hdistinct, ⟨?_, ?_⟩, cons_ne_nil _ _, ?_⟩
  · intro subject hsubject
    rw [hsubjects] at hsubject
    simp only [mem_cons, not_mem_nil, or_false] at hsubject
    rcases hsubject with rfl | rfl
    · exact hvalid _
    · exact hvalid _
  · intro entry hentry
    rw [mem_singleton.mp hentry]
    exact mem_singleton_self _
  · intro key hkey
    have hsame : key = (sampleRef "candidate").candidateKey := mem_singleton.mp hkey
    subst hsame
    rfl
  · intro subject hsubject
    rw [hsubjects] at hsubject
    simp only [mem_cons, not_mem_nil, or_false] at hsubject
    rcases hsubject with rfl | rfl
    · exact hresult
    · exact hresult

def goInput : CompositionInput := sampleInput (sampleFile "go.mod" "require a v1.0.0")

/-- A Go module that is read without a diagnostic stops the composition. -/
theorem compose_go_module : WellFormed noToml goInput ∧ ¬ Decided noToml goInput := by
  have hwell : WellFormed noToml goInput := wellFormed_sample (by decide +kernel)
  refine ⟨hwell, ?_⟩
  rintro ⟨matrix, eligibility, hrun, -⟩
  have hlabelled := labelled_of_compose hwell hrun
  exact hlabelled "go.mod".toList mem_cons_self (by decide)

def lockInput : CompositionInput :=
  sampleInput (sampleFile "package-lock.json"
    "\x7b\"lockfileVersion\":3,\"packages\":\x7b\"node_modules/a\":\x7b\"version\":\"1.0.0\"\x7d\x7d\x7d")

theorem wellFormed_lock : WellFormed noToml lockInput := wellFormed_sample (by decide +kernel)

theorem composable_lock : Composable noToml lockInput := by
  have hlabelled : ∀ path ∈ lockInput.dependencyPolicy.declared, Lock.pathName path ≠ Lock.goMod := by decide
  have hcomplete : ∀ subject ∈ lockInput.subjects, ∃ source ∈ sourcesOf noToml lockInput subject,
      source.graph = complete ∧ source.deps ≠ [] := by decide +kernel
  have hclashes : ∀ pair ∈ pairs lockInput, clashNames noToml lockInput pair = [] := by decide +kernel
  have hopens : ∀ pair ∈ pairs lockInput, openNames noToml lockInput pair = [] := by decide +kernel
  have hkeys : ∀ a ∈ lockInput.subjects, ∀ b ∈ lockInput.subjects, ordered a.candidateKey b.candidateKey = true := by decide
  have hopen : ∀ key, ¬ OpenName noToml lockInput key := by
    rintro key (⟨pair, hpair, hkey⟩ | ⟨-, subject, hsubject, hnot, -⟩)
    · rw [hopens pair hpair] at hkey
      cases hkey
    · exact hnot (hcomplete subject hsubject)
  refine ⟨hlabelled, ⟨?_, ?_, ?_⟩, ?_, ?_, ?_, ?_⟩
  · exact fun a ha b hb => hkeys a (mem_cons_of_mem _ ha) b (mem_cons_of_mem _ hb)
  · exact fun a ha b hb _ _ => hkeys a ha b hb
  · intro pair hpair other hother _ hconflict
    rcases hconflict with hne | hne
    · exact absurd (hclashes pair hpair) hne
    · exact absurd (hopens pair hpair) hne
  · intro pair hpair other hother a ha
    rw [hclashes pair hpair] at ha
    cases ha
  · exact fun a b ha => absurd ha (hopen a)
  · intro pair hpair other hother key hkey
    rw [hclashes pair hpair, hopens pair hpair] at hkey
    cases hkey
  · intro halone
    cases halone

theorem compose_decides_lock : WellFormed noToml lockInput ∧ Decided noToml lockInput :=
  ⟨wellFormed_lock, (compose_decides_iff noToml lockInput wellFormed_lock).mpr composable_lock⟩

end Leitir.Composition
