import Leitir.IndexedSearch

namespace Leitir.Corpus

open Search

structure ValueError where
  message : String
deriving DecidableEq, Repr

structure ShelfRef where
  host : Text
  owner : Text
  repo : Text
  commit : Text
deriving DecidableEq

def ShelfRef.slug (shelf : ShelfRef) : Text := shelf.owner ++ chars "/" ++ shelf.repo

def ShelfRef.identity (shelf : ShelfRef) : KeyedList.Key := [shelf.host, shelf.owner, shelf.repo, shelf.commit]

def sortedShelves (shelves : List ShelfRef) : List ShelfRef := KeyedList.sortBy ShelfRef.identity shelves.dedup

def shelvesFromCorpus (catalogue : List ShelfRef) : List ShelfRef := sortedShelves catalogue

inductive ShelfReason
  | verificationFailed | unsupportedHost | registryProvenance | driftParity | partialTreeScope | unindexed
deriving DecidableEq, Repr

def ShelfRef.Named (shelf : ShelfRef) : Prop :=
  shelf.host ≠ [] ∧ shelf.owner ≠ [] ∧ shelf.repo ≠ [] ∧ shelf.commit ≠ []

instance : DecidablePred ShelfRef.Named := fun _ => inferInstanceAs (Decidable (_ ∧ _))

structure ShelfExclusion where
  shelf : ShelfRef
  reason : ShelfReason
  named : shelf.Named
deriving DecidableEq

def firstUnnamed (shelf : ShelfRef) : String :=
  if shelf.host = [] then "host" else if shelf.owner = [] then "owner" else if shelf.repo = [] then "repo" else "commit_sha"

def excludeShelf (shelf : ShelfRef) (reason : ShelfReason) : Except ValueError ShelfExclusion :=
  if h : shelf.Named then .ok ⟨shelf, reason, h⟩ else .error ⟨firstUnnamed shelf ++ " must be non-empty text"⟩

def isNameChar (ch : Nat) : Bool :=
  (65 ≤ ch && ch ≤ 90) || (97 ≤ ch && ch ≤ 122) || (48 ≤ ch && ch ≤ 57) || ch = 95 || ch = 46 || ch = 45

def isName (text : Text) : Bool := text ≠ [] && text.all isNameChar

def isDots (text : Text) : Bool := text = chars "." || text = chars ".."

def isSha1 (text : Text) : Bool :=
  text.length = 40 && text.all fun ch => (48 ≤ ch && ch ≤ 57) || (97 ≤ ch && ch ≤ 102)

def slash : Nat := 47

/-- The parts of a repository on its host. -/
def normalizeIdentity (shelf : ShelfRef) : Except ValueError (List Text) :=
  let parts := shelf.slug.splitOn slash
  if shelf.host ≠ chars "gitlab.com" ∧ parts.length ≠ 2 then
    .error ⟨"repository identity must contain exactly two segments"⟩
  else if shelf.host = chars "git.sr.ht" ∧ ((parts.headD []).head? ≠ some 126 ∨ (parts.headD []).length = 1) then
    .error ⟨"Sourcehut repository owner must start with '~'"⟩
  else
    let valid := if shelf.host = chars "git.sr.ht" then (parts.headD []).drop 1 :: parts.drop 1 else parts
    if parts.length < 2 ∨ valid.any (fun part => isDots part || !isName part) then
      .error ⟨"repository identity contains an invalid path segment"⟩
    else if isSha1 shelf.commit then .ok parts
    else .error ⟨"commit_sha must be a 40-char lowercase hex SHA"⟩

def hosts : List Text :=
  [chars "github.com", chars "gitlab.com", chars "bitbucket.org", chars "codeberg.org", chars "git.sr.ht",
    chars "go-module-zip"]

/-- The path of a shelf under the root of the corpus. -/
def targetPath (shelf : ShelfRef) : Except ValueError (List Text) :=
  if shelf.host ∉ hosts then .error ⟨"unsupported repository host"⟩
  else do
    let parts ← normalizeIdentity shelf
    if shelf.host = chars "go-module-zip" then
      if shelf.repo ≠ shelf.commit then .error ⟨"Go module shelf repository must equal its content identity"⟩
      else pure [chars "repos", shelf.host, shelf.owner, shelf.commit]
    else pure (chars "repos" :: shelf.host :: parts ++ [shelf.commit])

def makeRepoScope (slug commitSha : Text) : Except ValueError RepoScope :=
  let parts := slug.splitOn slash
  if parts.length < 2 ∨ parts.any (fun part => !isName part) ∨ parts.any isDots then
    .error ⟨"slug must contain at least two safe repository path segments"⟩
  else if isSha1 commitSha then .ok ⟨slug, commitSha⟩
  else .error ⟨"commit_sha must be a 40-char git SHA"⟩

inductive FileExclusion
  | decodeFailed | deduplicated | fetchFailed | headUnresolved | noAdapter | pathMismatch | parserUnavailable
  | provenanceMismatch | registryArtifactGitOnly | pinDisagreement | unpinnedHit
deriving DecidableEq, Repr

abbrev Exclusions := List (FileExclusion × Nat)

def Exclusions.total (exclusions : Exclusions) : Nat := (exclusions.map Prod.snd).sum

/-- More files under one reason. -/
def Exclusions.add : Exclusions → FileExclusion × Nat → Exclusions
  | [], entry => [entry]
  | (reason, count) :: rest, entry =>
    if reason = entry.1 then (reason, count + entry.2) :: rest else (reason, count) :: Exclusions.add rest entry

structure FileCoverage where
  status : CoverageStatus
  filesEligible : Nat
  filesIndexed : Nat
  filesExcluded : Nat
  incompleteResults : Bool
  exclusions : Exclusions
  indexed_le : filesIndexed ≤ filesEligible
  exclusions_le : exclusions.total ≤ filesExcluded
  complete : status = .completeForDeclaredUniverse → incompleteResults = false ∧ filesIndexed = filesEligible
deriving DecidableEq

def makeCoverage (status : CoverageStatus) (eligible indexed excluded : Nat) (incomplete : Bool)
    (exclusions : Exclusions) : Except ValueError FileCoverage :=
  if hindexed : indexed ≤ eligible then
    if hexclusions : exclusions.total ≤ excluded then
      if hcomplete : status = .completeForDeclaredUniverse → incomplete = false ∧ indexed = eligible then
        .ok ⟨status, eligible, indexed, excluded, incomplete, exclusions, hindexed, hexclusions, hcomplete⟩
      else .error ⟨"complete coverage requires full indexing and no partial results"⟩
    else .error ⟨"exclusion counts cannot exceed files_excluded"⟩
  else .error ⟨"files_indexed cannot exceed files_eligible"⟩

structure ShelfReport where
  coverage : FileCoverage
  matches_ : List SourceMatch
deriving DecidableEq

inductive ShelfFailure
  | verification | os | value
deriving DecidableEq, Repr

inductive ResolutionStrategy
  | indexedCommit | declaredScope
deriving DecidableEq, Repr

structure CorpusSearchReport where
  coverage : FileCoverage
  matches_ : List SourceMatch
  strategy : ResolutionStrategy
  shelvesSearched : List ShelfRef
  shelvesExcluded : List ShelfExclusion
  shelvesDeclaredTotal : Nat
  corpusStatus : CoverageStatus
  searched_sorted : shelvesSearched = sortedShelves shelvesSearched
  excluded_sorted : shelvesExcluded.Pairwise fun a b => a.shelf.identity ≤ b.shelf.identity
  excluded_nodup : (shelvesExcluded.map ShelfExclusion.shelf).Nodup
  separate : ∀ item ∈ shelvesExcluded, item.shelf ∉ shelvesSearched
  total_eq : shelvesDeclaredTotal = shelvesSearched.length + shelvesExcluded.length
  complete : corpusStatus = .completeForDeclaredUniverse →
    shelvesExcluded = [] ∧ coverage.status = .completeForDeclaredUniverse
deriving DecidableEq

/-- The constructor of a report, with its checks in their order. -/
def makeReport (coverage : FileCoverage) (found : List SourceMatch) (strategy : ResolutionStrategy)
    (searched : List ShelfRef) (excluded : List ShelfExclusion) (total : Nat) (status : CoverageStatus) :
    Except ValueError CorpusSearchReport :=
  if hsearched : searched = sortedShelves searched then
    if hexcluded : excluded.Pairwise fun a b => a.shelf.identity ≤ b.shelf.identity then
      if hnodup : (excluded.map ShelfExclusion.shelf).Nodup then
        if hseparate : ∀ item ∈ excluded, item.shelf ∉ searched then
          if htotal : total = searched.length + excluded.length then
            if hcomplete : status = .completeForDeclaredUniverse →
                excluded = [] ∧ coverage.status = .completeForDeclaredUniverse then
              .ok ⟨coverage, found, strategy, searched, excluded, total, status, hsearched, hexcluded, hnodup,
                hseparate, htotal, hcomplete⟩
            else
              .error ⟨"corpus_status cannot claim complete coverage with named exclusions or incomplete per-shelf coverage"⟩
          else .error ⟨"shelves_declared_total must equal len(shelves_searched) + len(shelves_excluded)"⟩
        else .error ⟨"a shelf cannot be both searched and excluded"⟩
      else .error ⟨"shelves_excluded must not name the same shelf twice"⟩
    else .error ⟨"shelves_excluded must be sorted by shelf identity"⟩
  else .error ⟨"shelves_searched must be sorted and deduplicated"⟩

section

structure Manifest where
  source : Option Text
  parity : Option Text
  treeHashScope : Option Text
deriving DecidableEq

/-- A corpus on disk: the manifests of its shelves, if they can be verified, and what its searchers do. -/
structure CorpusSearcher where
  readValidManifest : ShelfRef → Option Manifest
  scopedSearcher : SearchSpec → Except ShelfFailure ShelfReport
  indexedSearcher : SearchSpec → Except ShelfFailure ShelfReport
  casefold : Text → Text
  useIndex : Bool
  requireIndex : Bool

structure Query where
  must : List Predicate
  should : List Predicate := []
  mustNot : List Predicate := []
  wholeFileMust : Bool := false

inductive Condition
  | source | parity | scope
deriving DecidableEq, Repr

variable (searcher : CorpusSearcher) (query : Query)

/-- The conditions that a verified shelf does not meet. -/
def ineligibleShelfConditions (shelf : ShelfRef) : Except ValueError (List Condition) := do
  let _ ← targetPath shelf
  match searcher.readValidManifest shelf with
  | none => .error ⟨"materialized shelf failed load-time verification"⟩
  | some manifest =>
    pure ((if manifest.source ≠ some (chars "git-commit") then [.source] else []) ++
      (if manifest.parity ≠ some (chars "exact") then [.parity] else []) ++
      if manifest.treeHashScope ≠ some (chars "full") then [.scope] else [])

/-- Why a shelf is not searched. -/
def ineligible (shelf : ShelfRef) : Option ShelfReason :=
  if shelf.host ≠ chars "github.com" then some .unsupportedHost
  else
    match ineligibleShelfConditions searcher shelf with
    | .error _ => some .verificationFailed
    | .ok conditions =>
      if .source ∈ conditions then some .registryProvenance
      else if .parity ∈ conditions then some .driftParity
      else if .scope ∈ conditions then some .partialTreeScope
      else none

def splitShelves : List ShelfRef → Except ValueError (List ShelfRef × List ShelfExclusion)
  | [] => .ok ([], [])
  | shelf :: rest =>
    match ineligible searcher shelf with
    | some reason => do
      let item ← excludeShelf shelf reason
      let (eligible, excluded) ← splitShelves rest
      pure (eligible, item :: excluded)
    | none => do
      let (eligible, excluded) ← splitShelves rest
      pure (shelf :: eligible, excluded)

def corpusEligibility (catalogue : List ShelfRef) : Except ValueError (List ShelfRef × List ShelfExclusion) := do
  let (eligible, excluded) ← splitShelves searcher (shelvesFromCorpus catalogue)
  pure (KeyedList.sortBy ShelfRef.identity eligible, excluded)

def Query.spec (scope : RepoScope) : SearchSpec where
  must := query.must
  should := query.should
  mustNot := query.mustNot
  scopes := [scope]
  wholeFileMust := query.wholeFileMust

def makeSearchSpec (scope : RepoScope) : Except ValueError SearchSpec :=
  if query.must = [] then .error ⟨"a search requires at least one must predicate"⟩
  else if 1 < ((query.must.filterMap Predicate.language).map (canonicalizeLanguage searcher.casefold)).dedup.length then
    .error ⟨"conflicting required predicate languages"⟩
  else .ok (query.spec scope)

def searchShelf (spec : SearchSpec) : Except ShelfFailure ShelfReport :=
  if searcher.useIndex then searcher.indexedSearcher spec else searcher.scopedSearcher spec

structure Progress where
  matches_ : List SourceMatch := []
  totalEligible : Nat := 0
  totalIndexed : Nat := 0
  totalExcluded : Nat := 0
  exclusions : Exclusions := []
  incomplete : Bool := false
  searched : List ShelfRef := []
  excluded : List ShelfExclusion

def Progress.exclude (progress : Progress) (item : ShelfExclusion) : Progress :=
  { progress with excluded := progress.excluded ++ [item] }

def Progress.count (progress : Progress) (shelf : ShelfRef) (report : ShelfReport) : Progress where
  matches_ := progress.matches_ ++ report.matches_
  totalEligible := progress.totalEligible + report.coverage.filesEligible
  totalIndexed := progress.totalIndexed + report.coverage.filesIndexed
  totalExcluded := progress.totalExcluded + report.coverage.filesExcluded
  exclusions := report.coverage.exclusions.foldl Exclusions.add progress.exclusions
  incomplete := progress.incomplete || report.coverage.incompleteResults ||
    decide (report.coverage.status ≠ .completeForDeclaredUniverse)
  searched := progress.searched ++ [shelf]
  excluded := progress.excluded

def failureReason : ShelfFailure → ShelfReason
  | .verification => if searcher.useIndex && searcher.requireIndex then .unindexed else .verificationFailed
  | .os | .value => .verificationFailed

def searchNext (progress : Progress) (shelf : ShelfRef) : Except ValueError Progress := do
  let scope ← makeRepoScope shelf.slug shelf.commit
  let spec ← makeSearchSpec searcher query scope
  match searchShelf searcher spec with
  | .error failure =>
    let item ← excludeShelf shelf (failureReason searcher failure)
    pure (progress.exclude item)
  | .ok report => pure (progress.count shelf report)

def Progress.fileStatus (progress : Progress) : CoverageStatus :=
  if progress.totalIndexed = progress.totalEligible ∧ progress.incomplete = false then .completeForDeclaredUniverse
  else .partialCoverage

def liftOrder : Except SearchError (List SourceMatch) → Except ValueError (List SourceMatch)
  | .ok found => .ok found
  | .error _ => .error ⟨"matches contain duplicate SourceRef identities"⟩

def corpusStatus (excluded : List ShelfExclusion) (fileStatus : CoverageStatus) : CoverageStatus :=
  if excluded = [] ∧ fileStatus = .completeForDeclaredUniverse then .completeForDeclaredUniverse else .partialCoverage

def conclude (progress : Progress) : Except ValueError CorpusSearchReport := do
  let excluded := KeyedList.sortBy (fun item : ShelfExclusion => item.shelf.identity) progress.excluded
  let searched := sortedShelves progress.searched
  let coverage ← makeCoverage progress.fileStatus progress.totalEligible progress.totalIndexed progress.totalExcluded
    progress.incomplete progress.exclusions
  let ordered ← liftOrder (orderSourceMatches (dedupeSourceMatches progress.matches_))
  makeReport coverage ordered (if searcher.useIndex then .indexedCommit else .declaredScope) searched excluded
    (searched.length + excluded.length) (corpusStatus excluded progress.fileStatus)

/-- The search of all shelves of the catalogue. -/
def corpusSearch (catalogue : List ShelfRef) : Except ValueError CorpusSearchReport := do
  let (eligible, excluded) ← corpusEligibility searcher catalogue
  let progress ← eligible.foldlM (searchNext searcher query) { excluded }
  conclude searcher progress

end

end Leitir.Corpus
