import Leitir.CorpusSearch
import Leitir.Grouping
import Leitir.SearchPatterns

namespace Leitir.Discovery

open Search

/-- A file that a code search lists, pinned to a commit. -/
structure CodeSearchHit where
  slug : Text
  path : Text
  blobSha : Text
  htmlUrl : Text
  commitSha : Text
  slug_checked : Corpus.slash ∈ slug
  path_checked : strip path ≠ []
  blob_checked : Corpus.isSha1 blobSha = true
  commit_checked : Corpus.isSha1 commitSha = true
deriving DecidableEq

def hitIdentity (hit : CodeSearchHit) : KeyedList.Key := [hit.slug, hit.commitSha, hit.path, hit.blobSha, hit.htmlUrl]

def samePin (hit other : CodeSearchHit) : Bool :=
  other.slug = hit.slug && other.commitSha = hit.commitSha && other.path = hit.path

def consistentHits (ordered : List CodeSearchHit) : List CodeSearchHit :=
  ordered.filter fun hit => (ordered.find? (samePin hit)).all fun first => first.blobSha = hit.blobSha

def collapse {κ : Type} [DecidableEq κ] (key : CodeSearchHit → κ) (hits : List CodeSearchHit) : List (List CodeSearchHit) :=
  (Grouping.groupBy key hits).map Prod.snd

structure DedupOutcome where
  candidates : List CodeSearchHit
  collapsed : Nat
  groups : List (List CodeSearchHit)
  pinDisagreements : Nat

def collapsedCount (groups : List (List CodeSearchHit)) : Nat := (groups.map fun group => group.length - 1).sum

def pathSurvivors (hits : List CodeSearchHit) : List CodeSearchHit :=
  (collapse (fun hit => (hit.slug, hit.path)) hits).filterMap List.head?

/-- Hits with the same pin must agree on the blob; then one hit for each path is kept, and these are grouped by blob. -/
def dedupHits (hits : List CodeSearchHit) : DedupOutcome :=
  let ordered := KeyedList.sortBy hitIdentity hits
  let consistent := consistentHits ordered
  let groups := collapse CodeSearchHit.blobSha (pathSurvivors consistent)
  { candidates := groups.filterMap List.head?
    collapsed := collapsedCount (collapse (fun hit => (hit.slug, hit.path)) consistent) + collapsedCount groups
    groups := groups
    pinDisagreements := ordered.length - consistent.length }

/-- An entry of a response: the fields that make a hit, and the commit in the query of its address. -/
inductive Item
  | malformed
  | result (slug path sha htmlUrl ref : Text)
deriving DecidableEq

structure Payload where
  items : List Item
  totalCount : Int
  incompleteResults : Bool

def htmlPin (url : Text) : Option Text :=
  (url.tails.find? fun rest => (chars "/blob/").isPrefixOf rest && Corpus.isSha1 ((rest.drop 6).take 40) &&
    (rest.drop 46).head? = some Corpus.slash).map fun rest => (rest.drop 6).take 40

def crossCheckedCommitSha (ref htmlUrl : Text) : Option Text :=
  if Corpus.isSha1 ref ∧ htmlPin htmlUrl = some ref then some ref else none

inductive GlobalError
  | wrongMode | conflictingLanguages | unsupportedLanguage | semanticDegradation | invalidTranslation | firstPage | invalidHit
  | badPattern | invalidMatch | invalidCoverage | duplicateIdentities | movingReference | invalidSpan | duplicateMatch
  | invalidBounds
deriving DecidableEq, Repr

/-- Entries without the fields of a pinned file are passed over; a hit that cannot be made is an error. -/
def Item.hit : Item → Except GlobalError (Option CodeSearchHit)
  | .malformed => .ok none
  | .result slug path sha htmlUrl ref =>
    if slug = [] ∨ path = [] ∨ ¬ Corpus.isSha1 sha = true then .ok none
    else
      match crossCheckedCommitSha ref htmlUrl with
      | none => .ok none
      | some commit =>
        if h : Corpus.slash ∈ slug ∧ strip path ≠ [] ∧ Corpus.isSha1 sha = true ∧ Corpus.isSha1 commit = true then
          .ok (some ⟨slug, path, sha, htmlUrl, commit, h.1, h.2.1, h.2.2.1, h.2.2.2⟩)
        else .error .invalidHit

structure CodeSearchPage where
  hits : List CodeSearchHit
  totalCount : Int
  incompleteResults : Bool

def Payload.page (payload : Payload) : Except GlobalError CodeSearchPage := do
  let hits ← payload.items.mapM Item.hit
  pure ⟨hits.reduceOption, payload.totalCount, payload.incompleteResults⟩

section

inductive Clause
  | must | should | mustNot
deriving DecidableEq, Repr

inductive TranslationStrategy
  | githubQuery | githubSupersetLocalFilter | localFilter
deriving DecidableEq, Repr

structure QueryTranslation where
  clause : Clause
  predicateIndex : Nat
  kind : PredicateKind
  strategy : TranslationStrategy
  emittedSyntax : Option Text
deriving DecidableEq

def mustStrategy : PredicateKind → Option TranslationStrategy
  | .exactText | .identifier | .tokenSequence => some .githubQuery
  | .path | .symbolDefinition | .symbolReference | .signature | .call | .importName => some .githubSupersetLocalFilter
  | .regex => none

def emittedTerm (pred : Predicate) : Text := if pred.kind = .path then chars "path:" ++ pred.value else pred.value

variable (casefold : Text → Text)

/-- The terms of the required predicates, from an index and a language on. -/
def compileMust : Nat → Option Text → List Predicate →
    Except GlobalError (List Text × List QueryTranslation × Option Text)
  | _, language, [] => .ok ([], [], language)
  | index, language, pred :: rest =>
    match mustStrategy pred.kind with
    | none => .error .semanticDegradation
    | some strategy =>
      if emittedTerm pred = [] then .error .invalidTranslation
      else if ∃ own ∈ pred.language, ∃ known ∈ language,
          canonicalizeLanguage casefold own ≠ canonicalizeLanguage casefold known then .error .semanticDegradation
      else do
        let (terms, translations, final) ← compileMust (index + 1) (pred.language.or language) rest
        pure (emittedTerm pred :: terms, ⟨.must, index, pred.kind, strategy, some (emittedTerm pred)⟩ :: translations, final)

/-- Other predicates are filtered locally; one on the path cannot be. -/
def compileLocal (clause : Clause) : Nat → List Predicate → Except GlobalError (List QueryTranslation)
  | _, [] => .ok []
  | index, pred :: rest =>
    if pred.kind = .path then .error .semanticDegradation
    else do
      let translations ← compileLocal clause (index + 1) rest
      pure (⟨clause, index, pred.kind, .localFilter, none⟩ :: translations)

def compileQuery (spec : SearchSpec) : Except GlobalError (Text × List QueryTranslation) := do
  let (terms, translations, language) ← compileMust casefold 0 none spec.must
  let optional ← compileLocal .should 0 spec.should
  let excluded ← compileLocal .mustNot 0 spec.mustNot
  let last := (language.filter fun language => language ≠ []).toList.map fun language => chars "language:" ++ language
  pure ([32].intercalate (terms ++ last), translations ++ optional ++ excluded)

end

section

structure GlobalSearcher where
  engine : Engine
  casefold : Text → Text
  parser : PythonParser
  sha1 : Bytes → Text
  registry : List Registered
  maxResults : Nat
  maxPages : Nat
  results_bound : 1 ≤ maxResults ∧ maxResults ≤ 1000
  pages_bound : 1 ≤ maxPages ∧ maxPages ≤ 100

/-- The service by its pages, and the blobs of pinned files; either may fail. -/
structure World where
  search : Text → Nat → Option Payload
  readBlob : Text → Text → Text → Option Bytes

inductive BoundReason
  | incompleteResults | pageCap | candidateBudget | resultBudget | transportError | parserUnavailable | verificationFailed
  | regexBudget
deriving DecidableEq, Repr

variable (searcher : GlobalSearcher) (world : World) (spec : SearchSpec) (required : Option Text)

def GlobalSearcher.adapter (registered : Registered) : LanguageAdapter :=
  registered.adapter searcher.engine searcher.casefold searcher.parser

def GlobalSearcher.perPage : Nat := min searcher.maxResults 100

/-- The adapter for a path. -/
def GlobalSearcher.adapterFor (path : Text) : Option Registered :=
  searcher.registry.find? fun registered =>
    match (searcher.adapter registered).trustedLanguage with
    | none => false
    | some language => (required = none || required = some language) && (searcher.adapter registered).eligible path

def gitBlobSha (data : Bytes) : Text := searcher.sha1 (chars "blob " ++ chars (toString data.length) ++ [0] ++ data)

def eligibleCount (hits : List CodeSearchHit) : Nat :=
  ((dedupHits hits).candidates.filter fun hit => (searcher.adapterFor required hit.path).isSome).length

/-- What the pages gave: the hits, what was left open, how many pages were read, and whether there were enough hits. -/
structure Collected where
  hits : List CodeSearchHit
  reasons : List BoundReason
  pages : Nat
  enough : Bool

/-- Pages are read until there are enough hits, a page is short, or the last page is reached. -/
def collect (query : Text) : Nat → Nat → List CodeSearchHit → List BoundReason → Except GlobalError Collected
  | 0, number, hits, reasons => .ok ⟨hits, reasons, number - 1, false⟩
  | fuel + 1, number, hits, reasons =>
    match world.search query number with
    | none => if number = 1 then .error .firstPage else .ok ⟨hits, reasons ++ [.transportError], number - 1, false⟩
    | some payload => do
      let page ← payload.page
      let hits := hits ++ page.hits
      let reasons := reasons ++ if page.incompleteResults then [.incompleteResults] else []
      if searcher.maxResults ≤ eligibleCount searcher required hits then
        pure ⟨hits, reasons ++ if (hits.length : Int) < page.totalCount then [.candidateBudget] else [], number, true⟩
      else if page.incompleteResults then pure ⟨hits, reasons, number, false⟩
      else if page.hits.length < searcher.perPage then pure ⟨hits, reasons, number, false⟩
      else if fuel = 0 then pure ⟨hits, reasons ++ [.pageCap], number, false⟩
      else collect query fuel (number + 1) hits reasons

def announced (query : Text) : Int := ((world.search query 1).map Payload.totalCount).getD 0

end

section

variable (searcher : GlobalSearcher) (world : World) (spec : SearchSpec) (required : Option Text)

/-- A file whose bytes are those of its blob. -/
structure Reading where
  hit : CodeSearchHit
  registered : Registered
  content : Text

/-- An attempt on a hit: the file is read, it is passed over for the next of its blob, or the blob is given up. -/
inductive Attempt
  | read (reading : Reading)
  | skipped (reason : Corpus.FileExclusion)
  | stopped (reason : Corpus.FileExclusion)

def pathOutcome (path : Text) : Bool × Bool :=
  if spec.pathMust = [] then (true, false) else pathMatchesEx searcher.engine path spec.pathMust false

/-- The bytes of a hit, as far as they are those of the blob and are text. -/
def readContent (hit : CodeSearchHit) (registered : Registered) : Attempt :=
  match world.readBlob hit.slug hit.commitSha hit.path with
  | none => .skipped .fetchFailed
  | some data =>
    if gitBlobSha searcher data ≠ hit.blobSha then .skipped .provenanceMismatch
    else
      match Utf8.decodeStrict data with
      | none => .skipped .decodeFailed
      | some content => .read ⟨hit, registered, content⟩

def attemptOn (hit : CodeSearchHit) : Attempt :=
  if (pathOutcome searcher spec hit.path).1 = false then .skipped .pathMismatch
  else
    match searcher.adapterFor required hit.path with
    | none => .skipped .noAdapter
    | some registered =>
      match htmlPin hit.htmlUrl with
      | none => .stopped .unpinnedHit
      | some pin => if pin ≠ hit.commitSha then .stopped .pinDisagreement else readContent searcher world hit registered

def verificationReasons : List Corpus.FileExclusion := [.decodeFailed, .fetchFailed, .provenanceMismatch]

/-- The attempts on the hits of a blob, up to the file that is read. -/
structure Walk where
  attempts : Nat
  promoted : Nat := 0
  failed : Bool := false
  exclusions : List Corpus.FileExclusion := []
  reasons : List BoundReason := []
  reading : Option Reading := none

def Walk.after (walk : Walk) (promoted : Nat) (exclusions : List Corpus.FileExclusion) (reasons : List BoundReason) : Walk where
  attempts := walk.attempts
  promoted := promoted + walk.promoted
  failed := exclusions.any (· ∈ verificationReasons) || walk.failed
  exclusions := exclusions ++ walk.exclusions
  reasons := reasons ++ walk.reasons
  reading := walk.reading

def walkGroup : Nat → Nat → List CodeSearchHit → Walk
  | attempts, _, [] => { attempts := attempts }
  | attempts, index, hit :: rest =>
    if searcher.maxResults ≤ attempts then { attempts := attempts, reasons := [.resultBudget] }
    else
      let promoted := if index = 0 then 0 else 1
      let reasons := if (pathOutcome searcher spec hit.path).2 then [.regexBudget] else []
      match attemptOn searcher world spec required hit with
      | .read reading => ({ attempts := attempts + 1, reading := some reading } : Walk).after promoted [] reasons
      | .stopped reason => ({ attempts := attempts + 1 } : Walk).after promoted [reason] reasons
      | .skipped reason => (walkGroup (attempts + 1) (index + 1) rest).after promoted [reason] reasons

end

section

variable (searcher : GlobalSearcher) (world : World) (spec : SearchSpec) (required : Option Text)

/-- What the constructors of a match and of its source take. -/
def acceptsMatch (item : SourceMatch) : Bool :=
  2 ≤ (item.source.slug.splitOn Corpus.slash).length && (item.source.slug.splitOn Corpus.slash).all Corpus.isName &&
    !(item.source.slug.splitOn Corpus.slash).any Corpus.isDots && Corpus.isSha1 item.source.commitSha &&
    strip item.source.path ≠ [] && Corpus.isSha1 item.source.blobSha && 1 ≤ item.source.startLine &&
    item.source.startLine ≤ item.source.endLine && item.matchedKinds ≠ []

def lineCount (content : Text) : Nat :=
  if content = [] then 0 else if content.getLast? = some 10 then content.count 10 else content.count 10 + 1

def Reading.blob (reading : Reading) : Blob :=
  ⟨reading.hit.slug, reading.hit.commitSha, reading.hit.path, reading.hit.blobSha⟩

def scoreReading (reading : Reading) : Except GlobalError (List SourceMatch × Bool) :=
  match scoreContentEx (searcher.adapter reading.registered) reading.content reading.blob spec.contentMust spec.should
      spec.mustNot spec.wholeFileMust with
  | .error .badPattern => .error .badPattern
  | .ok (found, unavailable) => if found.all acceptsMatch then .ok (found, unavailable) else .error .invalidMatch

structure Progress where
  attempts : Nat := 0
  promoted : Nat := 0
  failed : Bool := false
  exclusions : List Corpus.FileExclusion := []
  reasons : List BoundReason := []
  verified : List Reading := []
  found : List SourceMatch := []

def Progress.walked (progress : Progress) (walk : Walk) : Progress :=
  { progress with
    attempts := walk.attempts
    promoted := progress.promoted + walk.promoted
    failed := progress.failed || walk.failed
    exclusions := progress.exclusions ++ walk.exclusions
    reasons := progress.reasons ++ walk.reasons }

def Progress.scored (progress : Progress) (reading : Reading) (found : List SourceMatch) (unavailable : Bool) : Progress :=
  { progress with
    verified := progress.verified ++ [reading]
    found := progress.found ++ found
    exclusions := progress.exclusions ++ if unavailable then [.parserUnavailable] else []
    reasons := progress.reasons ++ if unavailable then [.parserUnavailable] else [] }

def examineGroups : Progress → List (List CodeSearchHit) → Except GlobalError Progress
  | progress, [] => .ok progress
  | progress, group :: rest =>
    if searcher.maxResults ≤ progress.attempts then .ok { progress with reasons := progress.reasons ++ [.resultBudget] }
    else
      let walk := walkGroup searcher world spec required progress.attempts 0 group
      match walk.reading with
      | none => examineGroups (progress.walked walk) rest
      | some reading => do
        let (found, unavailable) ← scoreReading searcher spec reading
        examineGroups ((progress.walked walk).scored reading found unavailable) rest

end

section

/-- The coverage of a global search, with what its constructor checks. -/
structure GlobalCoverage where
  filesEligible : Int
  filesIndexed : Nat
  filesExcluded : Nat
  incompleteResults : Bool
  exclusions : List Corpus.FileExclusion
  indexed_le : (filesIndexed : Int) ≤ filesEligible
  exclusions_le : exclusions.length ≤ filesExcluded
deriving DecidableEq

structure CoverageBounds where
  pagesFetched : Nat
  matchesReturned : Nat
  incomplete : Bool
  bounds : List BoundReason
  unique : bounds.Nodup
  stated : incomplete = false → bounds = []
deriving DecidableEq

structure GlobalReport where
  coverage : GlobalCoverage
  matches_ : List SourceMatch
  queryTranslation : List QueryTranslation
  bounds : CoverageBounds
deriving DecidableEq

variable (searcher : GlobalSearcher) (world : World) (spec : SearchSpec)

def makeGlobalCoverage (eligible : Int) (indexed : Nat) (incomplete : Bool) (exclusions : List Corpus.FileExclusion) :
    Except GlobalError GlobalCoverage :=
  if h : (indexed : Int) ≤ eligible then .ok ⟨eligible, indexed, exclusions.length, incomplete, exclusions, h, Nat.le_refl _⟩
  else .error .invalidCoverage

/-- Every match is in a file that was read, on lines that the file has, and no two are alike. -/
def validateReport (verified : List Reading) : List KeyedList.Key → List SourceMatch → Except GlobalError Unit
  | _, [] => .ok ()
  | seen, item :: rest =>
    match verified.find? fun reading => reading.blob = ⟨item.source.slug, item.source.commitSha, item.source.path,
        item.source.blobSha⟩ with
    | none => .error .movingReference
    | some reading =>
      if lineCount reading.content < item.source.endLine then .error .invalidSpan
      else if item.identity ∈ seen then .error .duplicateMatch
      else validateReport verified (item.identity :: seen) rest

def makeBounds (pages found : Nat) (reasons : List BoundReason) : CoverageBounds :=
  ⟨pages, found, reasons ≠ [], reasons.dedup, List.nodup_dedup _, by
    intro h
    have hnil : reasons = [] := by simpa using h
    rw [hnil]
    rfl⟩

def liftOrder : Except SearchError (List SourceMatch) → Except GlobalError (List SourceMatch)
  | .ok found => .ok found
  | .error _ => .error .duplicateIdentities

def eligibleGroups (required : Option Text) (hits : List CodeSearchHit) : List (List CodeSearchHit) :=
  (dedupHits hits).groups.filter fun group =>
    (group.head?.bind fun hit => searcher.adapterFor required hit.path).isSome

def closingReasons (progress : Progress) : List BoundReason :=
  if progress.failed ∧ progress.verified.length < searcher.maxResults then [.verificationFailed] else []

def finishSearch (collected : Collected) (eligible : Int) (translation : List QueryTranslation) (required : Option Text) :
    Except GlobalError GlobalReport := do
  let outcome := dedupHits collected.hits
  let groups := eligibleGroups searcher required collected.hits
  let progress ← examineGroups searcher world spec required {} groups
  let reasons := collected.reasons ++
    (if collected.enough ∧ (collected.hits.length : Int) < eligible then [.candidateBudget] else []) ++
    progress.reasons ++ closingReasons searcher progress
  let exclusions := List.replicate outcome.pinDisagreements .pinDisagreement ++
    List.replicate (outcome.groups.length - groups.length) .noAdapter ++ progress.exclusions ++
    List.replicate (outcome.collapsed - progress.promoted) .deduplicated
  let coverage ← makeGlobalCoverage eligible progress.verified.length (reasons ≠ []) exclusions
  let ordered ← liftOrder (orderSourceMatches progress.found)
  if translation = [] then .error .semanticDegradation
  validateReport progress.verified [] ordered
  pure ⟨coverage, ordered, translation, makeBounds collected.pages progress.found.length reasons⟩

/-- The search of a code search service. -/
def globalSearch : Except GlobalError GlobalReport :=
  if spec.mode ≠ .globalDiscovery then .error .wrongMode
  else
    match requiredLanguage searcher.casefold spec with
    | .error _ => .error .conflictingLanguages
    | .ok required =>
      if ¬ supports (searcher.registry.map searcher.adapter) required then .error .unsupportedLanguage
      else do
        let (query, translation) ← compileQuery searcher.casefold spec
        let collected ← collect searcher world required query searcher.maxPages 1 [] []
        finishSearch searcher world spec collected (announced world query) translation required

end

end Leitir.Discovery
