import Leitir.SearchAnswers

namespace Leitir.Search

open ExceptRun List

section

structure IndexDocument where
  path : Text
  blobSha : Text
deriving DecidableEq

/-- An opened shelf. A document whose octets have changed cannot be read. -/
structure VerifiedIndexShelf where
  slug : Text
  commit : Text
  documents : List IndexDocument
  postings : Bytes → List Nat
  readDocument : IndexDocument → Option Bytes

/-- Errors of a shelf: those that the search catches, and patterns that do not compile. -/
inductive ShelfError
  | caught | badPattern
deriving DecidableEq, Repr

structure IndexedSearcher where
  engine : Engine
  casefold : Text → Text
  adapters : List LanguageAdapter
  requireIndex : Bool
  fallbackFileLimit : Nat
  fallback : SearchSpec → Except SearchError SearchReport
  shelves : RepoScope → List (Option VerifiedIndexShelf)

abbrev AllowedDocument := Nat × IndexDocument × LanguageAdapter

variable (searcher : IndexedSearcher) (shelf : VerifiedIndexShelf) (spec : SearchSpec) (required : Option Text)

def eligibleDocuments : List AllowedDocument :=
  shelf.documents.zipIdx.filterMap fun (document, id) =>
    (adapterFor searcher.adapters required document.path).map fun adapter => (id, document, adapter)

/-- Whether an attempt with a pattern on a path was left out. -/
def skipsAttempt : Bool :=
  decide (spec.pathMust ≠ []) && (eligibleDocuments searcher shelf required).any fun (_, document, _) =>
    (pathMatchesEx searcher.engine document.path spec.pathMust false).2

def allowedDocuments : List AllowedDocument :=
  (eligibleDocuments searcher shelf required).filter fun (_, document, _) =>
    spec.pathMust = [] || (pathMatchesEx searcher.engine document.path spec.pathMust false).1

def plannedIds : Except EncodeError (Option (List Nat)) :=
  candidateIds searcher.engine spec.must shelf.postings ((allowedDocuments searcher shelf spec required).map Prod.fst)

def selectedDocuments (planned : Option (List Nat)) : List AllowedDocument :=
  match planned with
  | none => (allowedDocuments searcher shelf spec required).take searcher.fallbackFileLimit
  | some ids => (allowedDocuments searcher shelf spec required).filter fun (id, _, _) => id ∈ ids

/-- The matches of a document, and whether a parser was not available. -/
def scanDocument (entry : AllowedDocument) : Except ShelfError (List SourceMatch × Bool) :=
  match shelf.readDocument entry.2.1 with
  | none => .error .caught
  | some data =>
    let content := Utf8.decodeReplace data
    let scored : Except PatternError (List SourceMatch × Bool) := do
      let (excluded, unavailable) ← documentExcludedEx entry.2.2 content spec.mustNot false
      if excluded then pure ([], unavailable)
      else
        let (found, flagged) ← scoreContentEx entry.2.2 content
          ⟨shelf.slug, shelf.commit, entry.2.1.path, entry.2.1.blobSha⟩ spec.contentMust spec.should spec.mustNot
          spec.wholeFileMust
        pure (found, unavailable || flagged)
    match scored with
    | .ok result => .ok result
    | .error .badPattern => .error .badPattern

def scanDocuments : List AllowedDocument → Except ShelfError Coverage
  | [] => .ok {}
  | entry :: rest => do
    let (found, flagged) ← scanDocument shelf spec entry
    let others ← scanDocuments rest
    pure ({ filesExcluded := flagged.toNat, incompleteResults := flagged, matches_ := found : Coverage }.add others)

/-- Without a plan the flag of the path attempts is written over. -/
def searchVerified : Except ShelfError Coverage :=
  match plannedIds searcher shelf spec required with
  | .error _ => .error .caught
  | .ok planned => do
    let allowed := allowedDocuments searcher shelf spec required
    let selected := selectedDocuments searcher shelf spec required planned
    let scanned ← scanDocuments shelf spec selected
    match planned with
    | none =>
      pure { scanned with
        filesEligible := allowed.length
        filesIndexed := selected.length
        incompleteResults := decide (selected.length ≠ allowed.length) || scanned.incompleteResults }
    | some _ =>
      pure { scanned with
        filesEligible := allowed.length
        filesIndexed := allowed.length
        incompleteResults := skipsAttempt searcher shelf spec required || scanned.incompleteResults }

/-- The shelves of a scope: their coverage, and whether one of them failed. -/
def searchShelves : List (Option VerifiedIndexShelf) → Except SearchError (Coverage × Bool)
  | [] => .ok ({}, false)
  | opened :: rest =>
    match opened.elim (.error .caught) fun shelf => searchVerified searcher shelf spec required with
    | .error .badPattern => .error .badPattern
    | .error .caught => do
      let (others, _) ← searchShelves rest
      pure (others, true)
    | .ok own => do
      let (others, failed) ← searchShelves rest
      if searcher.requireIndex && own.incompleteResults then pure (others, true) else pure (own.add others, failed)

/-- The scopes in order: what the shelves cover, and the scopes that are left to the fallback. -/
def searchIndexedScopes : List RepoScope → Except SearchError (Coverage × List RepoScope)
  | [] => .ok ({}, [])
  | scope :: rest => do
    let (own, failed) ← searchShelves searcher spec required (searcher.shelves scope)
    if searcher.shelves scope = [] ∨ failed = true then
      if searcher.requireIndex then .error .verificationFailed
      else
        let (others, left) ← searchIndexedScopes rest
        pure (({ own with incompleteResults := true } : Coverage).add others, scope :: left)
    else
      let (others, left) ← searchIndexedScopes rest
      pure (own.add others, left)

def matchRank (item : SourceMatch) : KeyedList.Key :=
  [item.score] :: item.matchedKinds.map fun kind => chars kind.value

def keepBetter (selected : List SourceMatch) (item : SourceMatch) : List SourceMatch :=
  if selected.any fun current => current.identity = item.identity then
    selected.map fun current =>
      if current.identity = item.identity ∧ matchRank current < matchRank item then item else current
  else selected ++ [item]

def dedupeSourceMatches (found : List SourceMatch) : List SourceMatch :=
  KeyedList.sortBy SourceMatch.identity (found.foldl keepBetter [])

def indexedSearch : Except SearchError SearchReport :=
  if spec.mode ≠ .scopedExhaustive then .error .wrongMode
  else do
    let required ← requiredLanguage searcher.casefold spec
    if ¬ supports searcher.adapters required then .error .unsupportedLanguage
    else
      let scopes := KeyedList.sortBy (fun scope : RepoScope => [scope.slug, scope.commitSha]) spec.scopes
      let (indexed, left) ← searchIndexedScopes searcher spec required scopes
      let coverage ← (if left = [] then pure indexed
        else do
          let report ← searcher.fallback { spec with scopes := left }
          pure (indexed.add { report.coverage with matches_ := report.matches_, incompleteResults := true }))
      let ordered ← orderSourceMatches (dedupeSourceMatches coverage.matches_)
      pure ⟨coverage.status, coverage, ordered⟩

end

section

variable {searcher : IndexedSearcher} {shelf : VerifiedIndexShelf} {spec : SearchSpec} {required : Option Text}

def Parsed (shelf : VerifiedIndexShelf) (spec : SearchSpec) (entry : AllowedDocument) : Prop :=
  ∃ found, scanDocument shelf spec entry = .ok (found, false)

structure ShelfHonest (searcher : IndexedSearcher) (shelf : VerifiedIndexShelf) (spec : SearchSpec)
    (required : Option Text) : Prop where
  attempts : skipsAttempt searcher shelf spec required = false
  scanned : ∃ planned, plannedIds searcher shelf spec required = .ok planned ∧
    (∀ entry ∈ allowedDocuments searcher shelf spec required,
      entry ∈ selectedDocuments searcher shelf spec required planned ∨ ∃ ids, planned = some ids ∧ entry.1 ∉ ids) ∧
    ∀ entry ∈ selectedDocuments searcher shelf spec required planned, Parsed shelf spec entry

/-- A shelf of which nothing is reported as incomplete. -/
def ShelfClean (searcher : IndexedSearcher) (shelf : VerifiedIndexShelf) (spec : SearchSpec) (required : Option Text) :
    Prop :=
  ∃ planned, plannedIds searcher shelf spec required = .ok planned ∧
    (∀ entry ∈ selectedDocuments searcher shelf spec required planned, Parsed shelf spec entry) ∧
    (planned = none → (allowedDocuments searcher shelf spec required).length ≤ searcher.fallbackFileLimit) ∧
    (planned ≠ none → skipsAttempt searcher shelf spec required = false)

theorem scanDocuments_complete {entries : List AllowedDocument} :
    (∃ coverage, scanDocuments shelf spec entries = .ok coverage ∧ coverage.incompleteResults = false) ↔
      ∀ entry ∈ entries, Parsed shelf spec entry := by
  induction entries with
  | nil => simp [scanDocuments]
  | cons entry entries ih =>
    rw [forall_mem_cons, ← ih]
    constructor
    · rintro ⟨coverage, h, hcomplete⟩
      rw [scanDocuments] at h
      obtain ⟨⟨found, flagged⟩, hown, h⟩ := bind_ok h
      obtain ⟨others, hothers, h⟩ := bind_ok h
      cases h
      simp only [Coverage.add, Bool.or_eq_false_iff] at hcomplete
      obtain ⟨rfl, hrest⟩ := hcomplete
      exact ⟨⟨found, hown⟩, others, hothers, hrest⟩
    · rintro ⟨⟨found, hown⟩, others, hothers, hrest⟩
      rw [scanDocuments, hown]
      simp only [bind, Except.bind, hothers]
      exact ⟨_, rfl, by simp [Coverage.add, hrest]⟩

theorem selectedDocuments_none : (selectedDocuments searcher shelf spec required none).length =
    (allowedDocuments searcher shelf spec required).length ↔
      (allowedDocuments searcher shelf spec required).length ≤ searcher.fallbackFileLimit := by
  unfold selectedDocuments
  rw [length_take]
  omega

/-- A shelf is reported as complete exactly when it is clean, and then all its eligible documents are counted. -/
theorem searchVerified_complete :
    (∃ coverage, searchVerified searcher shelf spec required = .ok coverage ∧ coverage.incompleteResults = false) ↔
      ShelfClean searcher shelf spec required := by
  unfold searchVerified ShelfClean
  cases hplanned : plannedIds searcher shelf spec required with
  | error err => simp
  | ok planned =>
    have hscan := @scanDocuments_complete shelf spec (selectedDocuments searcher shelf spec required planned)
    constructor
    · rintro ⟨coverage, h, hcomplete⟩
      obtain ⟨scanned, hscanned, h⟩ := bind_ok h
      cases planned with
      | none =>
        cases h
        simp only [Bool.or_eq_false_iff, decide_eq_false_iff_not, not_not] at hcomplete
        exact ⟨none, rfl, hscan.mp ⟨scanned, hscanned, hcomplete.2⟩,
          fun _ => selectedDocuments_none.mp hcomplete.1, fun hne => absurd rfl hne⟩
      | some ids =>
        cases h
        simp only [Bool.or_eq_false_iff] at hcomplete
        exact ⟨some ids, rfl, hscan.mp ⟨scanned, hscanned, hcomplete.2⟩, fun hnone => (by cases hnone),
          fun _ => hcomplete.1⟩
    · rintro ⟨planned', heq, hparsed, hlimit, hattempts⟩
      cases heq
      obtain ⟨scanned, hscanned, hcomplete⟩ := hscan.mpr hparsed
      simp only [hscanned, bind, Except.bind]
      cases planned with
      | none =>
        refine ⟨_, rfl, ?_⟩
        simp only [Bool.or_eq_false_iff, decide_eq_false_iff_not, not_not]
        exact ⟨selectedDocuments_none.mpr (hlimit rfl), hcomplete⟩
      | some ids =>
        refine ⟨_, rfl, ?_⟩
        simp only [Bool.or_eq_false_iff]
        exact ⟨hattempts (by simp), hcomplete⟩

theorem searchVerified_counts {coverage : Coverage} (h : searchVerified searcher shelf spec required = .ok coverage)
    (hcomplete : coverage.incompleteResults = false) : coverage.filesIndexed = coverage.filesEligible := by
  unfold searchVerified at h
  split at h
  next => cases h
  next planned _ =>
    obtain ⟨scanned, hscanned, h⟩ := bind_ok h
    cases planned with
    | none =>
      cases h
      simp only [Bool.or_eq_false_iff, decide_eq_false_iff_not, not_not] at hcomplete
      exact hcomplete.1
    | some ids =>
      cases h
      rfl

theorem ShelfClean.honest_iff (h : ShelfClean searcher shelf spec required) :
    ShelfHonest searcher shelf spec required ↔
      (plannedIds searcher shelf spec required = .ok none → skipsAttempt searcher shelf spec required = false) := by
  obtain ⟨planned, hplanned, hparsed, hlimit, hattempts⟩ := h
  constructor
  · intro hhonest _
    exact hhonest.attempts
  · intro hnone
    refine ⟨?_, planned, hplanned, ?_, hparsed⟩
    · cases planned with
      | none => exact hnone hplanned
      | some ids => exact hattempts (by simp)
    · intro entry hentry
      cases planned with
      | none =>
        left
        unfold selectedDocuments
        rw [take_of_length_le (hlimit rfl)]
        exact hentry
      | some ids =>
        by_cases hin : entry.1 ∈ ids
        · exact Or.inl (mem_filter.mpr ⟨hentry, by simpa using hin⟩)
        · exact Or.inr ⟨ids, rfl, hin⟩

end

section

variable {searcher : IndexedSearcher} {spec : SearchSpec} {required : Option Text}

def Coverage.Complete (coverage : Coverage) : Prop :=
  coverage.incompleteResults = false ∧ coverage.filesIndexed = coverage.filesEligible

variable {coverage : Coverage}

theorem Coverage.status_complete :
    coverage.status = .completeForDeclaredUniverse ↔ coverage.Complete := by
  unfold Coverage.status Coverage.Complete
  split
  next h => exact ⟨fun _ => h.symm, fun _ => rfl⟩
  next h => exact ⟨fun hstatus => (by cases hstatus), fun hcomplete => absurd hcomplete.symm h⟩

def OpensClean (searcher : IndexedSearcher) (spec : SearchSpec) (required : Option Text)
    (opened : Option VerifiedIndexShelf) : Prop :=
  ∃ shelf, opened = some shelf ∧ ShelfClean searcher shelf spec required

theorem searchShelves_counts {shelves : List (Option VerifiedIndexShelf)} {failed : Bool}
    (h : searchShelves searcher spec required shelves = .ok (coverage, failed))
    (hcomplete : coverage.incompleteResults = false) : coverage.filesIndexed = coverage.filesEligible := by
  induction shelves generalizing coverage failed with
  | nil =>
    cases h
    rfl
  | cons opened shelves ih =>
    rw [searchShelves] at h
    split at h
    next => cases h
    next =>
      obtain ⟨⟨others, _⟩, hothers, h⟩ := bind_ok h
      cases h
      exact ih hothers hcomplete
    next own hown =>
      obtain ⟨⟨others, failed'⟩, hothers, h⟩ := bind_ok h
      dsimp only at h
      split at h
      next =>
        cases h
        exact ih hothers hcomplete
      next =>
        cases h
        simp only [Coverage.add, Bool.or_eq_false_iff] at hcomplete ⊢
        cases opened with
        | none => cases hown
        | some shelf => rw [searchVerified_counts hown hcomplete.1, ih hothers hcomplete.2]

theorem searchShelves_complete {shelves : List (Option VerifiedIndexShelf)} :
    (∃ coverage, searchShelves searcher spec required shelves = .ok (coverage, false) ∧
        coverage.incompleteResults = false) ↔ ∀ opened ∈ shelves, OpensClean searcher spec required opened := by
  induction shelves with
  | nil => simp [searchShelves]
  | cons opened shelves ih =>
    rw [forall_mem_cons, ← ih]
    constructor
    · rintro ⟨coverage, h, hcomplete⟩
      rw [searchShelves] at h
      split at h
      next => cases h
      next =>
        obtain ⟨⟨others, _⟩, -, h⟩ := bind_ok h
        cases h
      next own hown =>
        obtain ⟨⟨others, failed⟩, hothers, h⟩ := bind_ok h
        dsimp only at h
        split at h
        next => cases h
        next =>
          cases h
          simp only [Coverage.add, Bool.or_eq_false_iff] at hcomplete
          cases opened with
          | none => cases hown
          | some shelf =>
            exact ⟨⟨shelf, rfl, searchVerified_complete.mp ⟨own, hown, hcomplete.1⟩⟩, others, hothers, hcomplete.2⟩
    · rintro ⟨⟨shelf, rfl, hclean⟩, others, hothers, hrest⟩
      obtain ⟨own, hown, hcomplete⟩ := searchVerified_complete.mpr hclean
      rw [searchShelves]
      simp only [Option.elim_some, hown, hothers, bind, Except.bind, hcomplete, Bool.and_false, Bool.false_eq_true,
        if_false]
      exact ⟨_, rfl, by simp [Coverage.add, hcomplete, hrest]⟩

def ScopeClean (searcher : IndexedSearcher) (spec : SearchSpec) (required : Option Text) (scope : RepoScope) : Prop :=
  searcher.shelves scope ≠ [] ∧ ∀ opened ∈ searcher.shelves scope, OpensClean searcher spec required opened

theorem searchIndexedScopes_counts {scopes left : List RepoScope}
    (h : searchIndexedScopes searcher spec required scopes = .ok (coverage, left))
    (hcomplete : coverage.incompleteResults = false) :
    left = [] ∧ coverage.filesIndexed = coverage.filesEligible := by
  induction scopes generalizing coverage left with
  | nil =>
    cases h
    exact ⟨rfl, rfl⟩
  | cons scope scopes ih =>
    rw [searchIndexedScopes] at h
    obtain ⟨⟨own, failed⟩, hown, h⟩ := bind_ok h
    dsimp only at h
    split at h
    next =>
      split at h
      next => cases h
      next =>
        obtain ⟨⟨others, left'⟩, -, h⟩ := bind_ok h
        cases h
        simp [Coverage.add] at hcomplete
    next =>
      obtain ⟨⟨others, left'⟩, hothers, h⟩ := bind_ok h
      cases h
      simp only [Coverage.add, Bool.or_eq_false_iff] at hcomplete ⊢
      obtain ⟨hleft, hcounts⟩ := ih hothers hcomplete.2
      exact ⟨hleft, by rw [searchShelves_counts hown hcomplete.1, hcounts]⟩

theorem searchIndexedScopes_complete {scopes : List RepoScope} :
    (∃ coverage, searchIndexedScopes searcher spec required scopes = .ok (coverage, []) ∧
        coverage.incompleteResults = false) ↔ ∀ scope ∈ scopes, ScopeClean searcher spec required scope := by
  induction scopes with
  | nil => simp [searchIndexedScopes]
  | cons scope scopes ih =>
    rw [forall_mem_cons, ← ih]
    constructor
    · rintro ⟨coverage, h, hcomplete⟩
      rw [searchIndexedScopes] at h
      obtain ⟨⟨own, failed⟩, hown, h⟩ := bind_ok h
      dsimp only at h
      split at h
      next =>
        split at h
        next => cases h
        next =>
          obtain ⟨⟨others, left⟩, -, h⟩ := bind_ok h
          cases h
      next hfine =>
        obtain ⟨⟨others, left⟩, hothers, h⟩ := bind_ok h
        cases h
        rw [not_or] at hfine
        have hfailed : failed = false := eq_false_of_ne_true hfine.2
        subst hfailed
        simp only [Coverage.add, Bool.or_eq_false_iff] at hcomplete
        exact ⟨⟨hfine.1, searchShelves_complete.mp ⟨own, hown, hcomplete.1⟩⟩, others, hothers, hcomplete.2⟩
    · rintro ⟨⟨hsome, hclean⟩, others, hothers, hrest⟩
      obtain ⟨own, hown, hcomplete⟩ := searchShelves_complete.mpr hclean
      rw [searchIndexedScopes]
      simp only [hown, hothers, bind, Except.bind, hsome, Bool.false_eq_true, or_self, if_false]
      exact ⟨_, rfl, by simp [Coverage.add, hcomplete, hrest]⟩

theorem keepBetter_nodup {selected : List SourceMatch} (item : SourceMatch)
    (h : (selected.map SourceMatch.identity).Nodup) : ((keepBetter selected item).map SourceMatch.identity).Nodup := by
  unfold keepBetter
  split
  next =>
    have hsame : (selected.map fun current =>
        if current.identity = item.identity ∧ matchRank current < matchRank item then item else current).map
          SourceMatch.identity = selected.map SourceMatch.identity := by
      rw [map_map]
      refine map_congr_left ?_
      intro current _
      simp only [Function.comp]
      split
      next hreplace => exact hreplace.1.symm
      next => rfl
    rw [hsame]
    exact h
  next hnone =>
    rw [map_append, List.nodup_append]
    refine ⟨h, by simp, ?_⟩
    intro key hkey key' hkey' heq
    obtain ⟨current, hcurrent, rfl⟩ := mem_map.mp hkey
    rw [map_singleton, mem_singleton] at hkey'
    exact hnone (any_eq_true.mpr ⟨current, hcurrent, by simpa using heq.trans hkey'⟩)

theorem orderSourceMatches_dedupe (found : List SourceMatch) :
    ∃ ordered, orderSourceMatches (dedupeSourceMatches found) = .ok ordered := by
  have hfold : ∀ selected : List SourceMatch, (selected.map SourceMatch.identity).Nodup →
      ((found.foldl keepBetter selected).map SourceMatch.identity).Nodup := by
    induction found with
    | nil => exact fun _ h => h
    | cons item found ih => exact fun selected h => ih _ (keepBetter_nodup item h)
  have hnodup : ((dedupeSourceMatches found).map SourceMatch.identity).Nodup :=
    ((KeyedList.perm_sortBy _ _).map _).nodup_iff.mpr (hfold [] (by simp))
  unfold orderSourceMatches
  rw [if_pos hnodup]
  exact ⟨_, rfl⟩

/-- The search as a whole can be reported as complete only through its shelves. -/
theorem indexedSearch_complete (hmode : spec.mode = .scopedExhaustive)
    (hrequired : requiredLanguage searcher.casefold spec = .ok required)
    (hsupported : supports searcher.adapters required = true) :
    (∃ report, indexedSearch searcher spec = .ok report ∧ report.status = .completeForDeclaredUniverse) ↔
      ∀ scope ∈ spec.scopes, ScopeClean searcher spec required scope := by
  have hscopes : (∀ scope ∈ spec.scopes, ScopeClean searcher spec required scope) ↔
      ∀ scope ∈ KeyedList.sortBy (fun scope : RepoScope => [scope.slug, scope.commitSha]) spec.scopes,
        ScopeClean searcher spec required scope := by
    simp only [KeyedList.mem_sortBy]
  rw [hscopes, ← searchIndexedScopes_complete]
  unfold indexedSearch
  rw [if_neg (not_not.mpr hmode)]
  simp only [hrequired, bind, Except.bind, hsupported, not_true_eq_false, if_false]
  constructor
  · rintro ⟨report, h, hstatus⟩
    obtain ⟨⟨indexed, left⟩, hindexed, h⟩ := bind_ok h
    obtain ⟨coverage, hcoverage, h⟩ := bind_ok h
    obtain ⟨ordered, -, h⟩ := bind_ok h
    cases h
    obtain ⟨hcomplete, -⟩ := Coverage.status_complete.mp hstatus
    split at hcoverage
    next hnil =>
      cases hcoverage
      have hleft : left = [] := hnil
      rw [hleft] at hindexed
      exact ⟨indexed, hindexed, hcomplete⟩
    next =>
      obtain ⟨fallback, -, hcoverage⟩ := bind_ok hcoverage
      cases hcoverage
      simp [Coverage.add] at hcomplete
  · rintro ⟨coverage, hcoverage, hcomplete⟩
    obtain ⟨ordered, hordered⟩ := orderSourceMatches_dedupe coverage.matches_
    simp only [hcoverage, if_true, pure, Except.pure, hordered]
    exact ⟨_, rfl, Coverage.status_complete.mpr ⟨hcomplete, (searchIndexedScopes_counts hcoverage hcomplete).2⟩⟩

/-- A complete report leaves out no attempt, no document and no complaint of a parser. -/
def ReportsHonestly (searcher : IndexedSearcher) (spec : SearchSpec) : Prop :=
  ∀ required report, requiredLanguage searcher.casefold spec = .ok required →
    indexedSearch searcher spec = .ok report → report.status = .completeForDeclaredUniverse →
      ∀ scope ∈ spec.scopes, ∀ shelf, some shelf ∈ searcher.shelves scope →
        ShelfHonest searcher shelf spec required

theorem indexedSearch_ok {report : SearchReport} (hrequired : requiredLanguage searcher.casefold spec = .ok required)
    (h : indexedSearch searcher spec = .ok report) :
    spec.mode = .scopedExhaustive ∧ supports searcher.adapters required = true := by
  unfold indexedSearch at h
  split at h
  next => cases h
  next hmode =>
    rw [hrequired] at h
    simp only [bind, Except.bind] at h
    split at h
    next => cases h
    next hsupports => exact ⟨not_not.mp hmode, not_not.mp hsupports⟩

/-- Indexed search reports honestly exactly when no shelf without a plan has a path attempt that was left out, in a
search of which nothing else is incomplete. -/
theorem reportsHonestly_iff (searcher : IndexedSearcher) (spec : SearchSpec) :
    ReportsHonestly searcher spec ↔
      ∀ required, spec.mode = .scopedExhaustive → requiredLanguage searcher.casefold spec = .ok required →
        supports searcher.adapters required = true →
        (∀ scope ∈ spec.scopes, ScopeClean searcher spec required scope) →
          ∀ scope ∈ spec.scopes, ∀ shelf, some shelf ∈ searcher.shelves scope →
            plannedIds searcher shelf spec required = .ok none → skipsAttempt searcher shelf spec required = false := by
  constructor
  · intro h required hmode hrequired hsupported hclean scope hscope shelf hshelf _
    obtain ⟨report, hreport, hstatus⟩ := (indexedSearch_complete hmode hrequired hsupported).mpr hclean
    exact (h required report hrequired hreport hstatus scope hscope shelf hshelf).attempts
  · intro h required report hrequired hreport hstatus scope hscope shelf hshelf
    obtain ⟨hmode, hsupported⟩ := indexedSearch_ok hrequired hreport
    have hclean := (indexedSearch_complete hmode hrequired hsupported).mp ⟨report, hreport, hstatus⟩
    obtain ⟨own, hown, hshelfClean⟩ := (hclean scope hscope).2 (some shelf) hshelf
    cases hown
    rw [hshelfClean.honest_iff]
    exact h required hmode hrequired hsupported hclean scope hscope shelf hshelf

def shapeEngine : Engine :=
  { literalEngine with
    search := fun pattern line =>
      if pattern = catastrophicShape then contains (chars "+)+") line else literalEngine.search pattern line }

def skippedShelf : VerifiedIndexShelf where
  slug := chars "o/r"
  commit := List.replicate 40 97
  documents := [⟨chars "aa.py", List.replicate 40 98⟩]
  postings := buildPostings [chars "x = 1\n"]
  readDocument := fun _ => some (chars "x = 1\n")

def skippedSearcher : IndexedSearcher where
  engine := shapeEngine
  casefold := id
  adapters := [pythonAdapter.toLanguage shapeEngine ".py"]
  requireIndex := false
  fallbackFileLimit := 1000
  fallback := fun _ => .error .treeReadFailed
  shelves := fun _ => [some skippedShelf]

/-- A path pattern with a nested quantifier, and a text too short for a plan. -/
def skippedSpec : SearchSpec where
  must := [{ kind := .path, value := chars "(a+)+" }, { kind := .exactText, value := chars "x" }]
  scopes := [sampleScope]

/-- The only path is passed over without an attempt, and the report is complete. -/
theorem skipped_attempt_complete : ¬ ReportsHonestly skippedSearcher skippedSpec := by
  intro h
  have hsearch : indexedSearch skippedSearcher skippedSpec = .ok ⟨.completeForDeclaredUniverse, {}, []⟩ := by
    decide +kernel
  have hshelf := h none _ rfl hsearch rfl sampleScope mem_cons_self skippedShelf mem_cons_self
  have hskips : skipsAttempt skippedSearcher skippedShelf skippedSpec none = true := by decide +kernel
  rw [hshelf.attempts] at hskips
  cases hskips

end

end Leitir.Search
