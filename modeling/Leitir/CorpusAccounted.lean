import Leitir.CorpusSearch

namespace Leitir.Corpus

open Search ExceptRun List KeyedList

variable {searcher : CorpusSearcher} {query : Query}

theorem excludeShelf_ok {shelf : ShelfRef} {reason : ShelfReason} {item : ShelfExclusion}
    (h : excludeShelf shelf reason = .ok item) : item.shelf = shelf := by
  unfold excludeShelf at h
  split at h
  next =>
    cases h
    rfl
  next => cases h

theorem excludeShelf_named {shelf : ShelfRef} (hnamed : shelf.Named) (reason : ShelfReason) :
    excludeShelf shelf reason = .ok ⟨shelf, reason, hnamed⟩ := by
  unfold excludeShelf
  rw [dif_pos hnamed]

/-- What the path of a shelf on the supported host has checked. -/
structure HostedIdentity (shelf : ShelfRef) : Prop where
  two : (shelf.slug.splitOn slash).length = 2
  names : ∀ part ∈ shelf.slug.splitOn slash, isName part = true ∧ isDots part = false
  commit : isSha1 shelf.commit = true

theorem hostedIdentity_of_parts {shelf : ShelfRef} {parts : List Text} (hhost : shelf.host = chars "github.com")
    (h : normalizeIdentity shelf = .ok parts) : HostedIdentity shelf := by
  have hgitlab : shelf.host ≠ chars "gitlab.com" := by
    rw [hhost]
    decide
  have hsourcehut : shelf.host ≠ chars "git.sr.ht" := by
    rw [hhost]
    decide
  unfold normalizeIdentity at h
  obtain ⟨htwo, h⟩ := guard_ok h
  obtain ⟨-, h⟩ := guard_ok h
  obtain ⟨hvalid, h⟩ := guard_ok h
  rw [if_neg hsourcehut] at hvalid
  split at h
  next hcommit =>
    refine ⟨?_, ?_, hcommit⟩
    · by_contra hlength
      exact htwo ⟨hgitlab, hlength⟩
    · intro part hpart
      rw [not_or, Bool.not_eq_true, any_eq_false] at hvalid
      have hbad := hvalid.2 part hpart
      simp only [Bool.or_eq_true, Bool.not_eq_true', not_or, Bool.not_eq_true, Bool.not_eq_false] at hbad
      exact ⟨hbad.2, hbad.1⟩
  next => cases h

theorem hostedIdentity_of_eligible {shelf : ShelfRef} (h : ineligible searcher shelf = none) :
    shelf.host = chars "github.com" ∧ HostedIdentity shelf := by
  unfold ineligible at h
  split at h
  next => cases h
  next hhost =>
    have hhost' : shelf.host = chars "github.com" := not_not.mp hhost
    refine ⟨hhost', ?_⟩
    split at h
    next => cases h
    next conditions hconditions =>
      obtain ⟨path, hpath, -⟩ := bind_ok hconditions
      obtain ⟨-, hpath⟩ := guard_ok hpath
      obtain ⟨parts, hparts, -⟩ := bind_ok hpath
      exact hostedIdentity_of_parts hhost' hparts

theorem isName_ne_nil {text : Text} (h : isName text = true) : text ≠ [] := by
  intro heq
  subst heq
  cases h

theorem HostedIdentity.named {shelf : ShelfRef} (h : HostedIdentity shelf) (hhost : shelf.host = chars "github.com") :
    shelf.Named := by
  refine ⟨?_, ?_, ?_, ?_⟩
  · rw [hhost]
    decide
  · intro howner
    have hsplit : shelf.slug.splitOn slash = [] :: shelf.repo.splitOn slash := by
      rw [ShelfRef.slug, howner]
      exact splitOn_append_cons_self_of_not_mem (not_mem_nil : slash ∉ []) shelf.repo
    have hmem : [] ∈ shelf.slug.splitOn slash := by
      rw [hsplit]
      exact mem_cons_self
    exact isName_ne_nil (h.names [] hmem).1 rfl
  · intro hrepo
    have hmem : [] ∈ shelf.slug.splitOn slash := by
      rw [ShelfRef.slug, hrepo, append_nil]
      exact LineCut.nil_mem_splitOn_append shelf.owner
    exact isName_ne_nil (h.names [] hmem).1 rfl
  · intro hcommit
    have hlength := h.commit
    rw [hcommit] at hlength
    cases hlength

theorem HostedIdentity.scope {shelf : ShelfRef} (h : HostedIdentity shelf) :
    makeRepoScope shelf.slug shelf.commit = .ok ⟨shelf.slug, shelf.commit⟩ := by
  have hnames : ¬ (shelf.slug.splitOn slash).any (fun part => !isName part) = true := by
    rw [any_eq_true]
    rintro ⟨part, hpart, hbad⟩
    rw [(h.names part hpart).1] at hbad
    cases hbad
  have hdots : ¬ (shelf.slug.splitOn slash).any isDots = true := by
    rw [any_eq_true]
    rintro ⟨part, hpart, hbad⟩
    rw [(h.names part hpart).2] at hbad
    cases hbad
  have htwo : ¬ (shelf.slug.splitOn slash).length < 2 := by
    rw [h.two]
    omega
  unfold makeRepoScope
  rw [if_neg, if_pos h.commit]
  rintro (hlength | hpart | hpart)
  · exact htwo hlength
  · exact hnames hpart
  · exact hdots hpart

theorem splitShelves_ok {shelves eligible : List ShelfRef} {excluded : List ShelfExclusion}
    (h : splitShelves searcher shelves = .ok (eligible, excluded)) :
    (∀ shelf ∈ eligible, ineligible searcher shelf = none) ∧
      (∀ item ∈ excluded, ineligible searcher item.shelf ≠ none) ∧
      (eligible ++ excluded.map ShelfExclusion.shelf).Perm shelves := by
  induction shelves generalizing eligible excluded with
  | nil =>
    cases h
    simp
  | cons shelf rest ih =>
    unfold splitShelves at h
    split at h
    next reason hreason =>
      obtain ⟨item, hitem, h⟩ := bind_ok h
      obtain ⟨⟨eligible', excluded'⟩, hrest, h⟩ := bind_ok h
      cases h
      obtain ⟨heligible, hexcluded, hperm⟩ := ih hrest
      have hshelf : item.shelf = shelf := excludeShelf_ok hitem
      refine ⟨heligible, forall_mem_cons.mpr ⟨?_, hexcluded⟩, ?_⟩
      · rw [hshelf, hreason]
        exact Option.some_ne_none reason
      · rw [map_cons, hshelf]
        exact perm_middle.trans (hperm.cons shelf)
    next hnone =>
      obtain ⟨⟨eligible', excluded'⟩, hrest, h⟩ := bind_ok h
      cases h
      obtain ⟨heligible, hexcluded, hperm⟩ := ih hrest
      exact ⟨forall_mem_cons.mpr ⟨hnone, heligible⟩, hexcluded, hperm.cons shelf⟩

variable (searcher) in
theorem splitShelves_of_named {shelves : List ShelfRef} (h : ∀ shelf ∈ shelves, shelf.Named) :
    ∃ result, splitShelves searcher shelves = .ok result := by
  induction shelves with
  | nil => exact ⟨_, rfl⟩
  | cons shelf rest ih =>
    obtain ⟨hshelf, hrest⟩ := forall_mem_cons.mp h
    obtain ⟨⟨eligible, excluded⟩, hresult⟩ := ih hrest
    unfold splitShelves
    split
    next reason hreason =>
      rw [excludeShelf_named hshelf reason, hresult]
      exact ⟨_, rfl⟩
    next =>
      rw [hresult]
      exact ⟨_, rfl⟩

theorem corpusEligibility_ok {catalogue eligible : List ShelfRef} {excluded : List ShelfExclusion}
    (h : corpusEligibility searcher catalogue = .ok (eligible, excluded)) :
    (∀ shelf ∈ eligible, ineligible searcher shelf = none) ∧
      (∀ item ∈ excluded, ineligible searcher item.shelf ≠ none) ∧
      (eligible ++ excluded.map ShelfExclusion.shelf).Perm (shelvesFromCorpus catalogue) := by
  obtain ⟨⟨found, others⟩, hsplit, h⟩ := bind_ok h
  cases h
  obtain ⟨heligible, hexcluded, hperm⟩ := splitShelves_ok hsplit
  refine ⟨fun shelf hshelf => heligible shelf (mem_sortBy.mp hshelf), hexcluded, ?_⟩
  exact ((perm_sortBy ShelfRef.identity found).append_right _).trans hperm

theorem mem_shelvesFromCorpus {catalogue : List ShelfRef} {shelf : ShelfRef} :
    shelf ∈ shelvesFromCorpus catalogue ↔ shelf ∈ catalogue := by
  unfold shelvesFromCorpus sortedShelves
  rw [mem_sortBy, mem_dedup]

theorem nodup_sortedShelves (shelves : List ShelfRef) : (sortedShelves shelves).Nodup :=
  (perm_sortBy _ _).nodup_iff.mpr (nodup_dedup shelves)

theorem Exclusions.total_add (exclusions : Exclusions) (entry : FileExclusion × Nat) :
    (exclusions.add entry).total = exclusions.total + entry.2 := by
  induction exclusions with
  | nil => simp [Exclusions.add, Exclusions.total]
  | cons head rest ih =>
    obtain ⟨reason, count⟩ := head
    unfold Exclusions.add
    split
    next =>
      simp only [Exclusions.total, map_cons, sum_cons]
      omega
    next =>
      simp only [Exclusions.total, map_cons, sum_cons] at ih ⊢
      omega

theorem Exclusions.total_foldl (exclusions more : Exclusions) :
    (more.foldl Exclusions.add exclusions).total = exclusions.total + more.total := by
  induction more generalizing exclusions with
  | nil => rfl
  | cons entry more ih =>
    rw [foldl_cons, ih, Exclusions.total_add]
    simp only [Exclusions.total, map_cons, sum_cons]
    omega

section

def ownReport (searcher : CorpusSearcher) (query : Query) (shelf : ShelfRef) : Except ShelfFailure ShelfReport :=
  searchShelf searcher (query.spec ⟨shelf.slug, shelf.commit⟩)

def CompleteShelf (searcher : CorpusSearcher) (query : Query) (shelf : ShelfRef) : Prop :=
  ∃ own, ownReport searcher query shelf = .ok own ∧ own.coverage.status = .completeForDeclaredUniverse

/-- Every shelf is still to be searched, searched or named, and the totals are those of a coverage. -/
structure Accounted (searcher : CorpusSearcher) (query : Query) (shelves todo : List ShelfRef) (progress : Progress) :
    Prop where
  perm : (todo ++ (progress.searched ++ progress.excluded.map ShelfExclusion.shelf)).Perm shelves
  indexed_le : progress.totalIndexed ≤ progress.totalEligible
  exclusions_le : progress.exclusions.total ≤ progress.totalExcluded
  complete : progress.incomplete = false → ∀ shelf ∈ progress.searched, CompleteShelf searcher query shelf

variable {shelves todo : List ShelfRef} {shelf : ShelfRef} {progress progress' : Progress}

theorem Accounted.exclude (h : Accounted searcher query shelves (shelf :: todo) progress) {item : ShelfExclusion}
    (hitem : item.shelf = shelf) : Accounted searcher query shelves todo (progress.exclude item) where
  perm := by
    change (todo ++ (progress.searched ++ (progress.excluded ++ [item]).map ShelfExclusion.shelf)).Perm shelves
    rw [map_append, map_singleton, hitem, ← append_assoc progress.searched, ← append_assoc todo]
    exact (perm_append_singleton shelf _).trans h.perm
  indexed_le := h.indexed_le
  exclusions_le := h.exclusions_le
  complete := h.complete

theorem Accounted.count (h : Accounted searcher query shelves (shelf :: todo) progress) {report : ShelfReport}
    (hreport : ownReport searcher query shelf = .ok report) :
    Accounted searcher query shelves todo (progress.count shelf report) where
  perm := by
    change (todo ++ ((progress.searched ++ [shelf]) ++ progress.excluded.map ShelfExclusion.shelf)).Perm shelves
    rw [append_assoc progress.searched, singleton_append]
    have hmiddle : (todo ++ (progress.searched ++ shelf :: progress.excluded.map ShelfExclusion.shelf)).Perm
        (shelf :: todo ++ (progress.searched ++ progress.excluded.map ShelfExclusion.shelf)) := by
      rw [← append_assoc, cons_append, ← append_assoc todo]
      exact perm_middle
    exact hmiddle.trans h.perm
  indexed_le := by
    have hown := report.coverage.indexed_le
    have htotal := h.indexed_le
    change progress.totalIndexed + report.coverage.filesIndexed ≤ progress.totalEligible + report.coverage.filesEligible
    omega
  exclusions_le := by
    have hown := report.coverage.exclusions_le
    have htotal := h.exclusions_le
    change (report.coverage.exclusions.foldl Exclusions.add progress.exclusions).total ≤
      progress.totalExcluded + report.coverage.filesExcluded
    rw [Exclusions.total_foldl]
    omega
  complete := by
    intro hincomplete other hother
    change (progress.incomplete || report.coverage.incompleteResults ||
      decide (report.coverage.status ≠ .completeForDeclaredUniverse)) = false at hincomplete
    simp only [Bool.or_eq_false_iff, decide_eq_false_iff_not, not_not] at hincomplete
    rcases mem_append.mp hother with hother | hother
    · exact h.complete hincomplete.1.1 other hother
    · rw [mem_singleton] at hother
      subst hother
      exact ⟨report, hreport, hincomplete.2⟩

/-- What the constructor of a search asks of the query. -/
def Accepted (searcher : CorpusSearcher) (query : Query) : Prop :=
  query.must ≠ [] ∧
    ((query.must.filterMap Predicate.language).map (canonicalizeLanguage searcher.casefold)).dedup.length ≤ 1

instance : Decidable (Accepted searcher query) := inferInstanceAs (Decidable (_ ∧ _))

theorem makeSearchSpec_ok {scope : RepoScope} {spec : SearchSpec} (h : makeSearchSpec searcher query scope = .ok spec) :
    Accepted searcher query ∧ spec = query.spec scope := by
  unfold makeSearchSpec at h
  obtain ⟨hmust, h⟩ := guard_ok h
  obtain ⟨hlanguages, h⟩ := guard_ok h
  cases h
  exact ⟨⟨hmust, Nat.not_lt.mp hlanguages⟩, rfl⟩

theorem makeSearchSpec_of_accepted (h : Accepted searcher query) (scope : RepoScope) :
    makeSearchSpec searcher query scope = .ok (query.spec scope) := by
  unfold makeSearchSpec
  rw [if_neg h.1, if_neg (Nat.not_lt.mpr h.2)]

theorem Accounted.next (h : Accounted searcher query shelves (shelf :: todo) progress)
    (heligible : ineligible searcher shelf = none) (hnext : searchNext searcher query progress shelf = .ok progress') :
    Accepted searcher query ∧ Accounted searcher query shelves todo progress' := by
  obtain ⟨-, hidentity⟩ := hostedIdentity_of_eligible heligible
  unfold searchNext at hnext
  obtain ⟨scope, hscope, hnext⟩ := bind_ok hnext
  obtain ⟨spec, hspec, hnext⟩ := bind_ok hnext
  rw [hidentity.scope] at hscope
  cases hscope
  obtain ⟨haccepted, rfl⟩ := makeSearchSpec_ok hspec
  refine ⟨haccepted, ?_⟩
  split at hnext
  next failure hfailure =>
    obtain ⟨item, hitem, hnext⟩ := bind_ok hnext
    cases hnext
    exact h.exclude (excludeShelf_ok hitem)
  next report hreport =>
    cases hnext
    exact h.count hreport

theorem searchNext_total (haccepted : Accepted searcher query) (heligible : ineligible searcher shelf = none)
    (progress : Progress) : ∃ progress', searchNext searcher query progress shelf = .ok progress' := by
  obtain ⟨hhost, hidentity⟩ := hostedIdentity_of_eligible heligible
  have hnamed := hidentity.named hhost
  have hspec := makeSearchSpec_of_accepted haccepted ⟨shelf.slug, shelf.commit⟩
  unfold searchNext
  simp only [hidentity.scope, hspec, bind, Except.bind]
  split
  next failure hfailure =>
    rw [excludeShelf_named hnamed]
    exact ⟨_, rfl⟩
  next report hreport => exact ⟨_, rfl⟩

theorem Accounted.run (h : Accounted searcher query shelves todo progress)
    (heligible : ∀ shelf ∈ todo, ineligible searcher shelf = none)
    (hrun : todo.foldlM (searchNext searcher query) progress = .ok progress') :
    (todo ≠ [] → Accepted searcher query) ∧ Accounted searcher query shelves [] progress' := by
  induction todo generalizing progress with
  | nil =>
    cases hrun
    exact ⟨fun hne => absurd rfl hne, h⟩
  | cons shelf todo ih =>
    obtain ⟨hshelf, hrest⟩ := forall_mem_cons.mp heligible
    rw [foldlM_cons] at hrun
    obtain ⟨middle, hmiddle, hrun⟩ := bind_ok hrun
    obtain ⟨haccepted, hnext⟩ := h.next hshelf hmiddle
    exact ⟨fun _ => haccepted, (ih hnext hrest hrun).2⟩

theorem run_total (haccepted : Accepted searcher query) (heligible : ∀ shelf ∈ todo, ineligible searcher shelf = none)
    (progress : Progress) : ∃ progress', todo.foldlM (searchNext searcher query) progress = .ok progress' := by
  induction todo generalizing progress with
  | nil => exact ⟨progress, rfl⟩
  | cons shelf todo ih =>
    obtain ⟨hshelf, hrest⟩ := forall_mem_cons.mp heligible
    obtain ⟨middle, hmiddle⟩ := searchNext_total haccepted hshelf progress
    obtain ⟨progress', hrun⟩ := ih hrest middle
    refine ⟨progress', ?_⟩
    rw [foldlM_cons, hmiddle]
    exact hrun

end

section

/-- Every shelf of the catalogue is searched or named, and only complete reports make the corpus complete. -/
structure AccountsFor (searcher : CorpusSearcher) (query : Query) (catalogue : List ShelfRef)
    (report : CorpusSearchReport) : Prop where
  once : ∀ shelf ∈ catalogue,
    Xor (shelf ∈ report.shelvesSearched) (shelf ∈ report.shelvesExcluded.map ShelfExclusion.shelf)
  only : ∀ shelf ∈ report.shelvesSearched ++ report.shelvesExcluded.map ShelfExclusion.shelf, shelf ∈ catalogue
  complete : report.corpusStatus = .completeForDeclaredUniverse →
    report.shelvesExcluded = [] ∧ ∀ shelf ∈ catalogue, CompleteShelf searcher query shelf

variable {catalogue shelves : List ShelfRef} {progress : Progress}

theorem sortedShelves_idem (shelves : List ShelfRef) : sortedShelves (sortedShelves shelves) = sortedShelves shelves := by
  have hdedup : (sortedShelves shelves).dedup = sortedShelves shelves := (nodup_sortedShelves shelves).dedup
  have hsorted : (sortedShelves shelves).Pairwise fun a b => a.identity ≤ b.identity :=
    pairwise_sortBy ShelfRef.identity shelves.dedup
  change sortBy ShelfRef.identity (sortedShelves shelves).dedup = _
  rw [hdedup]
  exact hsorted.insertionSort_eq

theorem mem_sortedShelves {shelf : ShelfRef} : shelf ∈ sortedShelves shelves ↔ shelf ∈ shelves := by
  unfold sortedShelves
  rw [mem_sortBy, mem_dedup]

theorem makeCoverage_total {eligible indexed excluded : Nat} {incomplete : Bool} {exclusions : Exclusions}
    {status : CoverageStatus} (hindexed : indexed ≤ eligible) (hexclusions : exclusions.total ≤ excluded)
    (hcomplete : status = .completeForDeclaredUniverse → incomplete = false ∧ indexed = eligible) :
    makeCoverage status eligible indexed excluded incomplete exclusions =
      .ok ⟨status, eligible, indexed, excluded, incomplete, exclusions, hindexed, hexclusions, hcomplete⟩ := by
  unfold makeCoverage
  rw [dif_pos hindexed, dif_pos hexclusions, dif_pos hcomplete]

theorem Progress.fileStatus_complete (h : progress.fileStatus = .completeForDeclaredUniverse) :
    progress.incomplete = false ∧ progress.totalIndexed = progress.totalEligible := by
  unfold Progress.fileStatus at h
  split at h
  next hboth => exact ⟨hboth.2, hboth.1⟩
  next => cases h

theorem corpusStatus_complete {excluded : List ShelfExclusion} {status : CoverageStatus}
    (h : corpusStatus excluded status = .completeForDeclaredUniverse) :
    excluded = [] ∧ status = .completeForDeclaredUniverse := by
  unfold corpusStatus at h
  split at h
  next hboth => exact hboth
  next => cases h

/-- The constructors take the totals of a search that has accounted for every shelf. -/
theorem conclude_total (h : Accounted searcher query shelves [] progress) (hnodup : shelves.Nodup) :
    ∃ report, conclude searcher progress = .ok report ∧
      report.shelvesSearched = sortedShelves progress.searched ∧
      report.shelvesExcluded = sortBy (fun item => item.shelf.identity) progress.excluded ∧
      (report.corpusStatus = .completeForDeclaredUniverse → progress.incomplete = false) := by
  have hall : (progress.searched ++ progress.excluded.map ShelfExclusion.shelf).Nodup := h.perm.nodup_iff.mpr hnodup
  have hexcluded : (progress.excluded.map ShelfExclusion.shelf).Nodup := (List.nodup_append.mp hall).2.1
  have hsorted := perm_sortBy (fun item : ShelfExclusion => item.shelf.identity) progress.excluded
  have hseparate : ∀ item ∈ sortBy (fun item : ShelfExclusion => item.shelf.identity) progress.excluded,
      item.shelf ∉ sortedShelves progress.searched := by
    intro item hitem hsearched
    have hitem' : item.shelf ∈ progress.excluded.map ShelfExclusion.shelf :=
      mem_map.mpr ⟨item, hsorted.mem_iff.mp hitem, rfl⟩
    exact (List.nodup_append.mp hall).2.2 _ (mem_sortedShelves.mp hsearched) _ hitem' rfl
  obtain ⟨ordered, hordered⟩ := orderSourceMatches_dedupe progress.matches_
  unfold conclude
  rw [makeCoverage_total h.indexed_le h.exclusions_le Progress.fileStatus_complete, hordered]
  simp only [bind, Except.bind, liftOrder]
  unfold makeReport
  rw [dif_pos (sortedShelves_idem progress.searched).symm, dif_pos (pairwise_sortBy _ progress.excluded),
    dif_pos ((hsorted.map ShelfExclusion.shelf).nodup_iff.mpr hexcluded), dif_pos hseparate, dif_pos rfl, dif_pos]
  · refine ⟨_, rfl, rfl, rfl, ?_⟩
    intro hstatus
    exact (Progress.fileStatus_complete (corpusStatus_complete hstatus).2).1
  · intro hstatus
    exact corpusStatus_complete hstatus

/-- The shelves of a concluded search. -/
theorem accountsFor_of_accounted {report : CorpusSearchReport}
    (h : Accounted searcher query (shelvesFromCorpus catalogue) [] progress)
    (hsearched : report.shelvesSearched = sortedShelves progress.searched)
    (hexcluded : report.shelvesExcluded = sortBy (fun item => item.shelf.identity) progress.excluded)
    (hstatus : report.corpusStatus = .completeForDeclaredUniverse → progress.incomplete = false) :
    AccountsFor searcher query catalogue report := by
  have hnamed : ∀ shelf, shelf ∈ report.shelvesExcluded.map ShelfExclusion.shelf ↔
      shelf ∈ progress.excluded.map ShelfExclusion.shelf := by
    intro shelf
    rw [hexcluded]
    exact ((perm_sortBy _ progress.excluded).map ShelfExclusion.shelf).mem_iff
  have hmem : ∀ shelf, shelf ∈ catalogue ↔
      shelf ∈ progress.searched ∨ shelf ∈ progress.excluded.map ShelfExclusion.shelf := by
    intro shelf
    rw [← mem_shelvesFromCorpus, ← h.perm.mem_iff, nil_append, mem_append]
  have hnodup : (progress.searched ++ progress.excluded.map ShelfExclusion.shelf).Nodup :=
    h.perm.nodup_iff.mpr (nodup_sortedShelves catalogue)
  refine ⟨?_, ?_, ?_⟩
  · intro shelf hshelf
    rw [hsearched, mem_sortedShelves, hnamed]
    have hdisjoint := (List.nodup_append.mp hnodup).2.2
    rcases (hmem shelf).mp hshelf with hin | hin
    · exact Or.inl ⟨hin, fun hout => hdisjoint shelf hin shelf hout rfl⟩
    · exact Or.inr ⟨hin, fun hout => hdisjoint shelf hout shelf hin rfl⟩
  · intro shelf hshelf
    rw [mem_append, hsearched, mem_sortedShelves, hnamed] at hshelf
    exact (hmem shelf).mpr hshelf
  · intro hcomplete
    have hnone : report.shelvesExcluded = [] := (report.complete hcomplete).1
    refine ⟨hnone, ?_⟩
    intro shelf hshelf
    rcases (hmem shelf).mp hshelf with hin | hin
    · exact h.complete (hstatus hcomplete) shelf hin
    · rw [← hnamed, hnone] at hin
      cases hin

theorem accounted_initial {eligible : List ShelfRef} {excluded : List ShelfExclusion}
    (h : (eligible ++ excluded.map ShelfExclusion.shelf).Perm shelves) :
    Accounted searcher query shelves eligible { excluded := excluded } :=
  ⟨h, le_refl _, le_refl _, fun _ _ hshelf => absurd hshelf not_mem_nil⟩

/-- The catalogues that can be reported on: no part of an identity is missing, and the query is one, unless no shelf
gets as far as the search. -/
def Reportable (searcher : CorpusSearcher) (query : Query) (catalogue : List ShelfRef) : Prop :=
  (∀ shelf ∈ catalogue, shelf.Named) ∧
    (Accepted searcher query ∨ ∀ shelf ∈ catalogue, ineligible searcher shelf ≠ none)

theorem corpusSearch_of_reportable (h : Reportable searcher query catalogue) :
    ∃ report, corpusSearch searcher query catalogue = .ok report ∧ AccountsFor searcher query catalogue report := by
  have hnamed : ∀ shelf ∈ shelvesFromCorpus catalogue, shelf.Named :=
    fun shelf hshelf => h.1 shelf (mem_shelvesFromCorpus.mp hshelf)
  obtain ⟨⟨found, excluded⟩, hsplit⟩ := splitShelves_of_named searcher hnamed
  have heligibility : corpusEligibility searcher catalogue = .ok (sortBy ShelfRef.identity found, excluded) := by
    unfold corpusEligibility
    rw [hsplit]
    rfl
  obtain ⟨heligible, -, hperm⟩ := corpusEligibility_ok heligibility
  have hrun : ∃ progress, (sortBy ShelfRef.identity found).foldlM (searchNext searcher query)
      { excluded := excluded } = .ok progress := by
    rcases h.2 with haccepted | hnone
    · exact run_total haccepted heligible _
    · cases heq : sortBy ShelfRef.identity found with
      | nil => exact ⟨_, rfl⟩
      | cons shelf rest =>
        rw [heq] at heligible hperm
        have hshelf : shelf ∈ shelvesFromCorpus catalogue := hperm.mem_iff.mp (by simp)
        exact absurd (heligible shelf mem_cons_self) (hnone shelf (mem_shelvesFromCorpus.mp hshelf))
  obtain ⟨progress, hprogress⟩ := hrun
  have haccounted := ((accounted_initial hperm).run heligible hprogress).2
  obtain ⟨report, hreport, hsearched, hexcluded, hstatus⟩ :=
    conclude_total haccounted (nodup_sortedShelves catalogue)
  refine ⟨report, ?_, accountsFor_of_accounted haccounted hsearched hexcluded hstatus⟩
  unfold corpusSearch
  rw [heligibility]
  change (_ >>= conclude searcher) = _
  rw [hprogress]
  exact hreport

theorem reportable_of_report {report : CorpusSearchReport} (h : corpusSearch searcher query catalogue = .ok report) :
    Reportable searcher query catalogue := by
  obtain ⟨⟨eligible, excluded⟩, heligibility, h⟩ := bind_ok h
  obtain ⟨progress, hprogress, -⟩ := bind_ok h
  obtain ⟨heligible, hexcluded, hperm⟩ := corpusEligibility_ok heligibility
  have haccepted := ((accounted_initial hperm).run heligible hprogress).1
  have hmem : ∀ shelf ∈ catalogue, shelf ∈ eligible ∨ shelf ∈ excluded.map ShelfExclusion.shelf := by
    intro shelf hshelf
    rw [← mem_append, hperm.mem_iff]
    exact mem_shelvesFromCorpus.mpr hshelf
  constructor
  · intro shelf hshelf
    rcases hmem shelf hshelf with hin | hin
    · obtain ⟨hhost, hidentity⟩ := hostedIdentity_of_eligible (heligible shelf hin)
      exact hidentity.named hhost
    · obtain ⟨item, -, rfl⟩ := mem_map.mp hin
      exact item.named
  · by_cases hnone : eligible = []
    · right
      intro shelf hshelf
      rcases hmem shelf hshelf with hin | hin
      · rw [hnone] at hin
        cases hin
      · obtain ⟨item, hitem, rfl⟩ := mem_map.mp hin
        exact hexcluded item hitem
    · left
      exact haccepted hnone

/-- A corpus can be searched, with every shelf accounted for, exactly when no part of an identity in its catalogue is
missing and the query is one. -/
theorem corpusSearch_accounts_iff :
    (∃ report, corpusSearch searcher query catalogue = .ok report ∧ AccountsFor searcher query catalogue report) ↔
      Reportable searcher query catalogue := by
  constructor
  · rintro ⟨report, hreport, -⟩
    exact reportable_of_report hreport
  · exact corpusSearch_of_reportable

/-- A corpus whose only verified shelf has one file, without matches. -/
def oneFileSearcher : CorpusSearcher where
  readValidManifest _ := some ⟨some (chars "git-commit"), some (chars "exact"), some (chars "full")⟩
  scopedSearcher _ := .ok ⟨⟨.completeForDeclaredUniverse, 1, 1, 0, false, [], le_refl 1, le_refl 0, fun _ => ⟨rfl, rfl⟩⟩, []⟩
  indexedSearcher _ := .error .verification
  casefold text := text
  useIndex := false
  requireIndex := false

def callQuery : Query where
  must := [{ kind := .call, value := chars "f", language := none }]

def hostedShelf : ShelfRef := ⟨chars "github.com", chars "o", chars "r", List.replicate 40 97⟩

def hostlessShelf : ShelfRef := ⟨[], chars "o", chars "r", List.replicate 40 97⟩

example : ((corpusSearch oneFileSearcher callQuery [hostedShelf]).toOption.map CorpusSearchReport.corpusStatus) =
    some .completeForDeclaredUniverse := by decide +kernel

/-- One entry without a host, which the catalogue lets pass, stops the search of all shelves. -/
theorem corpusSearch_unnamed :
    corpusSearch oneFileSearcher callQuery [hostedShelf, hostlessShelf] = .error ⟨"host must be non-empty text"⟩ ∧
      ¬ ∃ report, corpusSearch oneFileSearcher callQuery [hostedShelf, hostlessShelf] = .ok report ∧
        AccountsFor oneFileSearcher callQuery [hostedShelf, hostlessShelf] report := by
  have hrun : corpusSearch oneFileSearcher callQuery [hostedShelf, hostlessShelf] =
      .error ⟨"host must be non-empty text"⟩ := by rfl
  refine ⟨hrun, ?_⟩
  rintro ⟨report, hreport, -⟩
  rw [hrun] at hreport
  cases hreport

end

end Leitir.Corpus
