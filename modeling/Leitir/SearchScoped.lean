import Leitir.SearchBatches

namespace Leitir.Search

def languageAliases : List (Text × Text) :=
  [(chars "py", chars "python"), (chars "pypi", chars "python"), (chars "js", chars "javascript"),
    (chars "jsx", chars "javascript"), (chars "ts", chars "typescript"), (chars "tsx", chars "typescript")]

def canonicalizeLanguage (casefold : Text → Text) (language : Text) : Text :=
  (languageAliases.lookup (casefold language)).getD (casefold language)

inductive SearchError
  | wrongMode | conflictingLanguages | unsupportedLanguage | badPattern | verificationFailed | treeReadFailed
  | duplicateIdentities
deriving DecidableEq, Repr

def requiredLanguage (casefold : Text → Text) (spec : SearchSpec) : Except SearchError (Option Text) :=
  let values := (spec.must.filterMap Predicate.language).map (canonicalizeLanguage casefold)
  if 1 < values.dedup.length then .error .conflictingLanguages else .ok values.head?

/-- The first adapter of a trusted language that takes the path. -/
def adapterFor (adapters : List LanguageAdapter) (required : Option Text) (path : Text) : Option LanguageAdapter :=
  adapters.find? fun adapter =>
    match adapter.trustedLanguage with
    | none => false
    | some language => (required = none || required = some language) && adapter.eligible path

def supports (adapters : List LanguageAdapter) (required : Option Text) : Bool :=
  match required with
  | none => true
  | some language => adapters.any fun adapter => adapter.trustedLanguage = some language

def roundHalfEven (n d : Nat) : Nat :=
  if 2 * (n % d) < d ∨ 2 * (n % d) = d ∧ n / d % 2 = 0 then n / d else n / d + 1

def normalizeScore (scores : List Nat) (score : Nat) : Nat :=
  let lowest := scores.min?.getD 0
  let highest := scores.max?.getD 0
  if lowest = highest then 10 ^ 12 else roundHalfEven ((score - lowest) * 10 ^ 12) (highest - lowest)

/-- Higher scores come first, then the order of the identities. -/
def orderSourceMatches (found : List SourceMatch) : Except SearchError (List SourceMatch) :=
  if (found.map SourceMatch.identity).Nodup then
    .ok (KeyedList.sortBy
      (fun item => [10 ^ 12 - normalizeScore (found.map SourceMatch.score) item.score] :: item.identity) found)
  else .error .duplicateIdentities

inductive ReadError
  | verification | other
deriving DecidableEq, Repr

/-- How blobs are read: at once, or in chunks that may break off with an error. -/
structure Reader where
  read : BlobEntry → Except ReadError Bytes
  stream : BlobEntry → List Bytes × Option ReadError

structure LocalShelf where
  fullyVerified : Bool
  driftGitOnlyCount : Nat
  blobs : List BlobEntry
  reader : Reader

/-- A tree is listed as a whole, or as far as it could be enumerated. -/
inductive Listing
  | listed (blobs : List BlobEntry) (recovered : Bool)
  | broken (partialBlobs : List BlobEntry)

structure Corpus where
  localShelf : RepoScope → Except SearchError (Option LocalShelf)
  listBlobsEx : RepoScope → Except SearchError Listing
  reader : RepoScope → Reader

structure Coverage where
  filesEligible : Nat := 0
  filesIndexed : Nat := 0
  filesExcluded : Nat := 0
  incompleteResults : Bool := false
  matches_ : List SourceMatch := []
deriving DecidableEq

def Coverage.add (a b : Coverage) : Coverage where
  filesEligible := a.filesEligible + b.filesEligible
  filesIndexed := a.filesIndexed + b.filesIndexed
  filesExcluded := a.filesExcluded + b.filesExcluded
  incompleteResults := a.incompleteResults || b.incompleteResults
  matches_ := a.matches_ ++ b.matches_

inductive CoverageStatus
  | completeForDeclaredUniverse | partialCoverage
deriving DecidableEq, Repr

def Coverage.status (coverage : Coverage) : CoverageStatus :=
  if coverage.filesIndexed = coverage.filesEligible ∧ coverage.incompleteResults = false then
    .completeForDeclaredUniverse
  else .partialCoverage

structure SearchReport where
  status : CoverageStatus
  coverage : Coverage
  matches_ : List SourceMatch
deriving DecidableEq

section

variable (engine : Engine) (casefold : Text → Text) (sha1 : Bytes → Text) (adapters : List LanguageAdapter)
  (maxBlobSize : Nat) (spec : SearchSpec) (required : Option Text) (scope : RepoScope)

def leftOut : Coverage := { filesExcluded := 1, incompleteResults := true }

def liftSearch {α : Type} : Except PatternError α → Except SearchError α
  | .ok value => .ok value
  | .error .badPattern => .error .badPattern

/-- A blob that is read in chunks. Errors leave it out, unless the shelf is not what it should be. -/
def scanStream (reader : Reader) (adapter : LanguageAdapter) (entry : BlobEntry) : Except SearchError Coverage :=
  let blob := entry.at_ scope.slug scope.commitSha
  match reader.stream entry with
  | (chunks, none) =>
    match scoreBlobStream adapter blob spec sha1 entry.size chunks with
    | .error _ => .ok leftOut
    | .ok (_, true, _) => .ok leftOut
    | .ok (found, false, unavailable) =>
      .ok { filesIndexed := 1, filesExcluded := unavailable.toNat, incompleteResults := unavailable, matches_ := found }
  | (chunks, some err) =>
    if spec.wholeFileMust then .ok leftOut
    else
      match chunks.foldlM (consumeChunk adapter blob spec entry.size) {} with
      | .error _ => .ok leftOut
      | .ok _ => if err = .verification then .error .verificationFailed else .ok leftOut

/-- A blob that is read at once. -/
def scanWhole (reader : Reader) (adapter : LanguageAdapter) (entry : BlobEntry) : Except SearchError Coverage :=
  match reader.read entry with
  | .error .verification => .error .verificationFailed
  | .error .other => .ok leftOut
  | .ok data => liftSearch do
    let content := Utf8.decodeReplace data
    let (excluded, unavailable) ← documentExcludedEx adapter content spec.mustNot false
    if excluded then
      pure { filesIndexed := 1, filesExcluded := unavailable.toNat, incompleteResults := unavailable }
    else
      let (found, flagged) ← scoreContentEx adapter content (entry.at_ scope.slug scope.commitSha) spec.contentMust
        spec.should spec.mustNot spec.wholeFileMust
      pure {
        filesIndexed := 1
        filesExcluded := (unavailable || flagged).toNat
        incompleteResults := unavailable || flagged
        matches_ := found }

def scanBlob (reader : Reader) (entry : BlobEntry) : Except SearchError Coverage :=
  match adapterFor adapters required entry.path with
  | none => .ok {}
  | some adapter =>
    if maxBlobSize < entry.size then scanStream sha1 spec scope reader adapter entry
    else scanWhole spec scope reader adapter entry

def scanBlobs (reader : Reader) : List BlobEntry → Except SearchError Coverage
  | [] => .ok {}
  | entry :: rest => do
    let own ← scanBlob sha1 adapters maxBlobSize spec required scope reader entry
    let others ← scanBlobs reader rest
    pure (own.add others)

def SearchSpec.pathMust (spec : SearchSpec) : List Predicate := spec.must.filter fun pred => pred.kind = .path

/-- The blobs of a scope that are searched, in the order of their paths, and whether an attempt with a pattern on a
path was left out. -/
def selectBlobs (blobs : List BlobEntry) : List BlobEntry × Bool :=
  let eligible := KeyedList.sortBy (fun entry => [entry.path, entry.blobSha])
    (blobs.filter fun entry => (adapterFor adapters required entry.path).isSome)
  if spec.pathMust = [] then (eligible, false)
  else
    (eligible.filter fun entry => (pathMatchesEx engine entry.path spec.pathMust false).1,
      eligible.any fun entry => (pathMatchesEx engine entry.path spec.pathMust false).2)

def searchScope (reader : Reader) (blobs : List BlobEntry) : Except SearchError Coverage := do
  let (eligible, exceeded) := selectBlobs engine adapters spec required blobs
  let scanned ← scanBlobs sha1 adapters maxBlobSize spec required scope reader eligible
  pure { scanned with
    filesEligible := eligible.length
    incompleteResults := exceeded || scanned.incompleteResults }

/-- The blobs of a scope, how they are read, and what is left out before the search. -/
structure ScopeSource where
  blobs : List BlobEntry
  reader : Reader
  excluded : Nat
  incomplete : Bool

def scopeSource (corpus : Corpus) : Except SearchError ScopeSource := do
  match ← corpus.localShelf scope with
  | none =>
    match ← corpus.listBlobsEx scope with
    | .listed blobs recovered => pure ⟨blobs, corpus.reader scope, recovered.toNat, recovered⟩
    | .broken blobs => pure ⟨blobs, corpus.reader scope, 1, true⟩
  | some shelf =>
    if shelf.fullyVerified then pure ⟨shelf.blobs, shelf.reader, shelf.driftGitOnlyCount, false⟩
    else
      match ← corpus.listBlobsEx scope with
      | .listed blobs recovered => pure ⟨blobs, shelf.reader, recovered.toNat + shelf.driftGitOnlyCount, recovered⟩
      | .broken blobs => pure ⟨blobs, shelf.reader, 1 + shelf.driftGitOnlyCount, true⟩

def searchScopes (corpus : Corpus) : List RepoScope → Except SearchError Coverage
  | [] => .ok {}
  | scope :: rest => do
    let source ← scopeSource scope corpus
    let own ← searchScope engine sha1 adapters maxBlobSize spec required scope source.reader source.blobs
    let others ← searchScopes corpus rest
    pure ({ own with
      filesExcluded := own.filesExcluded + source.excluded
      incompleteResults := own.incompleteResults || source.incomplete }.add others)

/-- The search of pinned commits. -/
def scopedSearch (corpus : Corpus) : Except SearchError SearchReport :=
  if spec.mode ≠ .scopedExhaustive then .error .wrongMode
  else do
    let required ← requiredLanguage casefold spec
    if ¬ supports adapters required then .error .unsupportedLanguage
    else
      let coverage ← searchScopes engine sha1 adapters maxBlobSize spec required corpus spec.scopes
      let ordered ← orderSourceMatches coverage.matches_
      pure ⟨coverage.status, coverage, ordered⟩

end

end Leitir.Search
