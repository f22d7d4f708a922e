import Leitir.CorpusSearch
import Leitir.SearchPatterns

namespace Leitir.Search

open ExceptRun List

section

variable {engine : Engine} {sha1 : Bytes → Text} {adapters : List LanguageAdapter} {maxBlobSize : Nat} {spec : SearchSpec}
  {required : Option Text} {scope : RepoScope} {reader : Reader} {corpus : Corpus}

def matchesOf : Except SearchError Coverage → List SourceMatch
  | .ok coverage => coverage.matches_
  | .error _ => []

theorem scanBlobs_ok_iff {entries : List BlobEntry} :
    (∃ coverage, scanBlobs sha1 adapters maxBlobSize spec required scope reader entries = .ok coverage) ↔
      ∀ entry ∈ entries, ∃ own, scanBlob sha1 adapters maxBlobSize spec required scope reader entry = .ok own := by
  induction entries with
  | nil => exact ⟨fun _ => by simp, fun _ => ⟨_, rfl⟩⟩
  | cons entry entries ih =>
    rw [forall_mem_cons, ← ih]
    constructor
    · rintro ⟨coverage, h⟩
      rw [scanBlobs] at h
      obtain ⟨own, hown, h⟩ := bind_ok h
      obtain ⟨others, hothers, -⟩ := bind_ok h
      exact ⟨⟨own, hown⟩, others, hothers⟩
    · rintro ⟨⟨own, hown⟩, others, hothers⟩
      rw [scanBlobs, bind_eq hown, bind_eq hothers]
      exact ⟨_, rfl⟩

theorem scanBlobs_matches {entries : List BlobEntry} {coverage : Coverage}
    (h : scanBlobs sha1 adapters maxBlobSize spec required scope reader entries = .ok coverage) :
    coverage.matches_ = entries.flatMap fun entry =>
      matchesOf (scanBlob sha1 adapters maxBlobSize spec required scope reader entry) := by
  induction entries generalizing coverage with
  | nil =>
    cases h
    rfl
  | cons entry entries ih =>
    rw [scanBlobs] at h
    obtain ⟨own, hown, h⟩ := bind_ok h
    obtain ⟨others, hothers, h⟩ := bind_ok h
    cases h
    rw [flatMap_cons, hown, ← ih hothers]
    rfl

theorem searchScope_inv {blobs : List BlobEntry} {own : Coverage}
    (h : searchScope engine sha1 adapters maxBlobSize spec required scope reader blobs = .ok own) :
    ∃ scanned, scanBlobs sha1 adapters maxBlobSize spec required scope reader
      (selectBlobs engine adapters spec required blobs).1 = .ok scanned ∧ own.matches_ = scanned.matches_ := by
  unfold searchScope at h
  cases hselect : selectBlobs engine adapters spec required blobs with
  | mk eligible exceeded =>
    rw [hselect] at h
    obtain ⟨scanned, hscanned, h⟩ := bind_ok h
    cases h
    exact ⟨scanned, hscanned, rfl⟩

/-- The matches of the files of a scope. -/
def scopeMatches (engine : Engine) (sha1 : Bytes → Text) (adapters : List LanguageAdapter) (maxBlobSize : Nat)
    (spec : SearchSpec) (required : Option Text) (corpus : Corpus) (scope : RepoScope) : List SourceMatch :=
  match scopeSource scope corpus with
  | .ok source => (selectBlobs engine adapters spec required source.blobs).1.flatMap fun entry =>
      matchesOf (scanBlob sha1 adapters maxBlobSize spec required scope source.reader entry)
  | .error _ => []

/-- The files of a scope that are searched can all be scanned. -/
def Scannable (engine : Engine) (sha1 : Bytes → Text) (adapters : List LanguageAdapter) (maxBlobSize : Nat)
    (spec : SearchSpec) (required : Option Text) (corpus : Corpus) (scope : RepoScope) : Prop :=
  ∃ source, scopeSource scope corpus = .ok source ∧
    ∀ entry ∈ (selectBlobs engine adapters spec required source.blobs).1,
      ∃ own, scanBlob sha1 adapters maxBlobSize spec required scope source.reader entry = .ok own

theorem searchScopes_ok_iff {scopes : List RepoScope} :
    (∃ coverage, searchScopes engine sha1 adapters maxBlobSize spec required corpus scopes = .ok coverage) ↔
      ∀ scope ∈ scopes, Scannable engine sha1 adapters maxBlobSize spec required corpus scope := by
  induction scopes with
  | nil => exact ⟨fun _ => by simp, fun _ => ⟨_, rfl⟩⟩
  | cons scope scopes ih =>
    rw [forall_mem_cons, ← ih]
    constructor
    · rintro ⟨coverage, h⟩
      rw [searchScopes] at h
      obtain ⟨source, hsource, h⟩ := bind_ok h
      obtain ⟨own, hown, h⟩ := bind_ok h
      obtain ⟨others, hothers, -⟩ := bind_ok h
      obtain ⟨scanned, hscanned, -⟩ := searchScope_inv hown
      exact ⟨⟨source, hsource, scanBlobs_ok_iff.mp ⟨scanned, hscanned⟩⟩, others, hothers⟩
    · rintro ⟨⟨source, hsource, hscan⟩, others, hothers⟩
      obtain ⟨scanned, hscanned⟩ := scanBlobs_ok_iff.mpr hscan
      have hown : ∃ own, searchScope engine sha1 adapters maxBlobSize spec required scope source.reader source.blobs =
          .ok own := by
        unfold searchScope
        dsimp only
        rw [bind_eq hscanned]
        exact ⟨_, rfl⟩
      obtain ⟨own, hown⟩ := hown
      rw [searchScopes, bind_eq hsource, bind_eq hown, bind_eq hothers]
      exact ⟨_, rfl⟩

theorem searchScopes_matches {scopes : List RepoScope} {coverage : Coverage}
    (h : searchScopes engine sha1 adapters maxBlobSize spec required corpus scopes = .ok coverage) :
    coverage.matches_ = scopes.flatMap (scopeMatches engine sha1 adapters maxBlobSize spec required corpus) := by
  induction scopes generalizing coverage with
  | nil =>
    cases h
    rfl
  | cons scope scopes ih =>
    rw [searchScopes] at h
    obtain ⟨source, hsource, h⟩ := bind_ok h
    obtain ⟨own, hown, h⟩ := bind_ok h
    obtain ⟨others, hothers, h⟩ := bind_ok h
    cases h
    obtain ⟨scanned, hscanned, hmatches⟩ := searchScope_inv hown
    have hscope : scopeMatches engine sha1 adapters maxBlobSize spec required corpus scope = own.matches_ := by
      unfold scopeMatches
      rw [hsource, hmatches, scanBlobs_matches hscanned]
    rw [flatMap_cons, hscope, ← ih hothers]
    rfl

/-- A search reports if its files can be scanned and no two matches have one identity. -/
theorem scopedSearch_ok_iff {casefold : Text → Text} (hmode : spec.mode = .scopedExhaustive)
    (hrequired : requiredLanguage casefold spec = .ok required) (hsupported : supports adapters required = true) :
    (∃ report, scopedSearch engine casefold sha1 adapters maxBlobSize spec corpus = .ok report) ↔
      (∀ scope ∈ spec.scopes, Scannable engine sha1 adapters maxBlobSize spec required corpus scope) ∧
        ((spec.scopes.flatMap (scopeMatches engine sha1 adapters maxBlobSize spec required corpus)).map
          SourceMatch.identity).Nodup := by
  unfold scopedSearch
  rw [if_neg (not_not.mpr hmode), bind_eq hrequired, if_neg (by simp [hsupported]), ← searchScopes_ok_iff]
  constructor
  · rintro ⟨report, h⟩
    obtain ⟨coverage, hcoverage, h⟩ := bind_ok h
    obtain ⟨ordered, hordered, -⟩ := bind_ok h
    refine ⟨⟨coverage, hcoverage⟩, ?_⟩
    unfold orderSourceMatches at hordered
    split at hordered
    next hnodup =>
      rw [searchScopes_matches hcoverage] at hnodup
      exact hnodup
    next => cases hordered
  · rintro ⟨⟨coverage, hcoverage⟩, hnodup⟩
    rw [← searchScopes_matches hcoverage] at hnodup
    rw [bind_eq hcoverage]
    unfold orderSourceMatches
    rw [if_pos hnodup]
    exact ⟨_, rfl⟩

end

section

/-- The files of a commit, at different paths. -/
structure Tree where
  files : List (BlobEntry × Bytes)
  paths : (files.map fun file => file.1.path).Nodup

/-- A searcher with adapters of the registry. -/
structure ScopedSearcher where
  engine : Engine
  casefold : Text → Text
  parser : PythonParser
  sha1 : Bytes → Text
  registry : List Registered
  maxBlobSize : Nat

def ScopedSearcher.adapter (searcher : ScopedSearcher) (registered : Registered) : LanguageAdapter :=
  registered.adapter searcher.engine searcher.casefold searcher.parser

def ScopedSearcher.adapters (searcher : ScopedSearcher) : List LanguageAdapter := searcher.registry.map searcher.adapter

def ScopedSearcher.search (searcher : ScopedSearcher) (corpus : Corpus) (spec : SearchSpec) :
    Except SearchError SearchReport :=
  scopedSearch searcher.engine searcher.casefold searcher.sha1 searcher.adapters searcher.maxBlobSize spec corpus

/-- The adapter of the registry for a path. -/
def ScopedSearcher.registeredFor (searcher : ScopedSearcher) (required : Option Text) (path : Text) : Option Registered :=
  searcher.registry.find? fun registered =>
    match (searcher.adapter registered).trustedLanguage with
    | none => false
    | some language => (required = none || required = some language) && (searcher.adapter registered).eligible path

variable {searcher : ScopedSearcher} {spec : SearchSpec} {required : Option Text} {scope : RepoScope} {corpus : Corpus}
  {tree : Tree} {source : ScopeSource}

theorem adapterFor_registered (path : Text) :
    adapterFor searcher.adapters required path = (searcher.registeredFor required path).map searcher.adapter := by
  unfold adapterFor ScopedSearcher.adapters ScopedSearcher.registeredFor
  rw [find?_map]
  rfl

/-- A file that is searched, and the adapter that searches it. -/
structure Searched (searcher : ScopedSearcher) (spec : SearchSpec) (required : Option Text) (tree : Tree)
    (file : BlobEntry × Bytes) (registered : Registered) : Prop where
  listed : file ∈ tree.files
  selected : file.1 ∈ (selectBlobs searcher.engine searcher.adapters spec required (tree.files.map Prod.fst)).1
  adapter : searcher.registeredFor required file.1.path = some registered

theorem selectBlobs_mem {engine : Engine} {adapters : List LanguageAdapter} {blobs : List BlobEntry} {entry : BlobEntry}
    (h : entry ∈ (selectBlobs engine adapters spec required blobs).1) :
    entry ∈ blobs ∧ (adapterFor adapters required entry.path).isSome = true := by
  unfold selectBlobs at h
  dsimp only at h
  split at h
  next => exact mem_filter.mp (KeyedList.mem_sortBy.mp h)
  next => exact mem_filter.mp (KeyedList.mem_sortBy.mp (mem_filter.mp h).1)

theorem selectBlobs_paths {engine : Engine} {adapters : List LanguageAdapter} {blobs : List BlobEntry}
    (h : (blobs.map BlobEntry.path).Nodup) :
    ((selectBlobs engine adapters spec required blobs).1.map BlobEntry.path).Nodup := by
  have hsorted : ((KeyedList.sortBy (fun entry : BlobEntry => [entry.path, entry.blobSha])
      (blobs.filter fun entry => (adapterFor adapters required entry.path).isSome)).map BlobEntry.path).Nodup := by
    rw [((KeyedList.perm_sortBy _ _).map BlobEntry.path).nodup_iff]
    exact h.sublist (filter_sublist.map _)
  unfold selectBlobs
  dsimp only
  split
  next => exact hsorted
  next => exact hsorted.sublist (filter_sublist.map _)

theorem exists_searched {entry : BlobEntry}
    (h : entry ∈ (selectBlobs searcher.engine searcher.adapters spec required (tree.files.map Prod.fst)).1) :
    ∃ data registered, Searched searcher spec required tree (entry, data) registered := by
  obtain ⟨hmem, hadapter⟩ := selectBlobs_mem h
  obtain ⟨⟨_, data⟩, hfile, rfl⟩ := mem_map.mp hmem
  rw [adapterFor_registered, Option.isSome_map, Option.isSome_iff_exists] at hadapter
  obtain ⟨registered, hregistered⟩ := hadapter
  exact ⟨data, registered, hfile, h, hregistered⟩

theorem source_of_identity {a b : SourceMatch} (h : a.identity = b.identity) : a.source = b.source := by
  unfold SourceMatch.identity sourceIdentity at h
  cases ha : a.source
  cases hb : b.source
  rw [ha, hb] at h
  simpa using h

end

section

/-- The corpus lists the files of a scope, every one of them can be read, and none is too large. -/
structure Readable (searcher : ScopedSearcher) (corpus : Corpus) (scope : RepoScope) (tree : Tree) (source : ScopeSource) :
    Prop where
  opened : scopeSource scope corpus = .ok source
  blobs : source.blobs = tree.files.map Prod.fst
  read : ∀ file ∈ tree.files, source.reader.read file.1 = .ok file.2
  sized : ∀ file ∈ tree.files, file.1.size ≤ searcher.maxBlobSize

variable {searcher : ScopedSearcher} {spec : SearchSpec} {required : Option Text} {scope : RepoScope} {corpus : Corpus}
  {tree : Tree} {source : ScopeSource}

def ScopedSearcher.fileMatches (searcher : ScopedSearcher) (spec : SearchSpec) (required : Option Text) (scope : RepoScope)
    (reader : Reader) (entry : BlobEntry) : List SourceMatch :=
  matchesOf (scanBlob searcher.sha1 searcher.adapters searcher.maxBlobSize spec required scope reader entry)

def ScopedSearcher.matchesIn (searcher : ScopedSearcher) (spec : SearchSpec) (required : Option Text) (corpus : Corpus)
    (scope : RepoScope) : List SourceMatch :=
  scopeMatches searcher.engine searcher.sha1 searcher.adapters searcher.maxBlobSize spec required corpus scope

/-- The entries of a tree that are searched. -/
def ScopedSearcher.entries (searcher : ScopedSearcher) (spec : SearchSpec) (required : Option Text) (tree : Tree) :
    List BlobEntry :=
  (selectBlobs searcher.engine searcher.adapters spec required (tree.files.map Prod.fst)).1

theorem Readable.matchesIn_eq (hread : Readable searcher corpus scope tree source) :
    searcher.matchesIn spec required corpus scope =
      (searcher.entries spec required tree).flatMap (searcher.fileMatches spec required scope source.reader) := by
  unfold ScopedSearcher.matchesIn scopeMatches ScopedSearcher.entries
  rw [hread.opened, ← hread.blobs]
  rfl

theorem Readable.scanBlob_eq (hread : Readable searcher corpus scope tree source) {file : BlobEntry × Bytes}
    {registered : Registered} (hsearched : Searched searcher spec required tree file registered) :
    scanBlob searcher.sha1 searcher.adapters searcher.maxBlobSize spec required scope source.reader file.1 =
      scanWhole spec scope source.reader (searcher.adapter registered) file.1 := by
  unfold scanBlob
  rw [adapterFor_registered, hsearched.adapter]
  exact if_neg (Nat.not_lt.mpr (hread.sized file hsearched.listed))

theorem Readable.scannable_iff (hread : Readable searcher corpus scope tree source) :
    Scannable searcher.engine searcher.sha1 searcher.adapters searcher.maxBlobSize spec required corpus scope ↔
      ∀ file registered, Searched searcher spec required tree file registered →
        ∃ own, scanWhole spec scope source.reader (searcher.adapter registered) file.1 = .ok own := by
  constructor
  · rintro ⟨source', hsource', hall⟩ file registered hsearched
    rw [hread.opened] at hsource'
    cases hsource'
    rw [← hread.scanBlob_eq hsearched]
    refine hall file.1 ?_
    rw [hread.blobs]
    exact hsearched.selected
  · intro hall
    refine ⟨source, hread.opened, ?_⟩
    intro entry hentry
    rw [hread.blobs] at hentry
    obtain ⟨data, registered, hsearched⟩ := exists_searched hentry
    rw [hread.scanBlob_eq hsearched]
    exact hall _ registered hsearched

theorem Readable.fileMatches_eq (hread : Readable searcher corpus scope tree source) {file : BlobEntry × Bytes}
    {registered : Registered} {own : Coverage} (hsearched : Searched searcher spec required tree file registered)
    (hown : scanWhole spec scope source.reader (searcher.adapter registered) file.1 = .ok own) :
    searcher.fileMatches spec required scope source.reader file.1 = own.matches_ := by
  unfold ScopedSearcher.fileMatches
  rw [hread.scanBlob_eq hsearched, hown]
  rfl

theorem Readable.owned (hread : Readable searcher corpus scope tree source) {entry : BlobEntry} {item : SourceMatch}
    (hentry : entry ∈ searcher.entries spec required tree)
    (hitem : item ∈ searcher.fileMatches spec required scope source.reader entry) :
    (entry.at_ scope.slug scope.commitSha).Owns item.source := by
  obtain ⟨data, registered, hsearched⟩ := exists_searched hentry
  cases hscan : scanWhole spec scope source.reader (searcher.adapter registered) entry with
  | error err =>
    unfold ScopedSearcher.fileMatches at hitem
    rw [hread.scanBlob_eq hsearched, hscan] at hitem
    cases hitem
  | ok own =>
    rw [hread.fileMatches_eq hsearched hscan] at hitem
    exact (scanWhole_answers hscan item hitem).1

theorem Readable.nodup_iff (hread : Readable searcher corpus scope tree source) :
    ((searcher.matchesIn spec required corpus scope).map SourceMatch.identity).Nodup ↔
      ∀ entry ∈ searcher.entries spec required tree,
        ((searcher.fileMatches spec required scope source.reader entry).map SourceMatch.identity).Nodup := by
  rw [hread.matchesIn_eq, map_flatMap, nodup_flatMap, and_iff_left]
  have hpaths : ((searcher.entries spec required tree).map BlobEntry.path).Nodup := by
    refine selectBlobs_paths ?_
    rw [map_map]
    exact tree.paths
  rw [List.Nodup, pairwise_map] at hpaths
  refine List.Pairwise.imp_of_mem ?_ hpaths
  intro a b ha hb hne identity hleft hright
  obtain ⟨item, hitem, rfl⟩ := mem_map.mp hleft
  obtain ⟨other, hother, heq⟩ := mem_map.mp hright
  have hown := (hread.owned ha hitem).2.2.1
  rw [← source_of_identity heq, (hread.owned hb hother).2.2.1] at hown
  exact hne hown.symm

/-- A scope is searched without a failure if each of its files is served. -/
theorem Readable.served_iff (hread : Readable searcher corpus scope tree source)
    (hregex : RegexesCompile searcher.engine (spec.must ++ spec.should ++ spec.mustNot)) :
    (Scannable searcher.engine searcher.sha1 searcher.adapters searcher.maxBlobSize spec required corpus scope ∧
      ((searcher.matchesIn spec required corpus scope).map SourceMatch.identity).Nodup) ↔
      ∀ file registered, Searched searcher spec required tree file registered →
        registered.Serves searcher.engine searcher.casefold searcher.parser (Utf8.decodeReplace file.2) spec := by
  rw [hread.scannable_iff, hread.nodup_iff]
  constructor
  · rintro ⟨hscan, hnodup⟩ file registered hsearched
    obtain ⟨own, hown⟩ := hscan file registered hsearched
    have hdistinct := hnodup file.1 hsearched.selected
    rw [hread.fileMatches_eq hsearched hown] at hdistinct
    exact (registered.served_iff hregex).mp
      ((scanWhole_ok (hread.read file hsearched.listed) registered.lined hown).2.mp hdistinct)
  · intro hserves
    have hserved : ∀ file registered, Searched searcher spec required tree file registered →
        Served (searcher.adapter registered) (Utf8.decodeReplace file.2) spec := fun file registered hsearched =>
      (registered.served_iff hregex).mpr (hserves file registered hsearched)
    refine ⟨?_, ?_⟩
    · intro file registered hsearched
      exact scanWhole_total (hread.read file hsearched.listed) (hserved file registered hsearched)
    · intro entry hentry
      obtain ⟨data, registered, hsearched⟩ := exists_searched hentry
      have hdata := hread.read _ hsearched.listed
      obtain ⟨own, hown⟩ := scanWhole_total hdata (hserved _ registered hsearched)
      rw [hread.fileMatches_eq hsearched hown]
      exact (scanWhole_ok hdata registered.lined hown).2.mpr (hserved _ registered hsearched)

theorem Readable.ne_nil_iff (hread : Readable searcher corpus scope tree source)
    (hscan : Scannable searcher.engine searcher.sha1 searcher.adapters searcher.maxBlobSize spec required corpus scope) :
    searcher.matchesIn spec required corpus scope ≠ [] ↔ ∃ file registered,
      Searched searcher spec required tree file registered ∧
        Matched (searcher.adapter registered) (Utf8.decodeReplace file.2) spec := by
  rw [hread.scannable_iff] at hscan
  rw [hread.matchesIn_eq, ne_eq, flatMap_eq_nil_iff]
  push Not
  constructor
  · rintro ⟨entry, hentry, hsome⟩
    obtain ⟨data, registered, hsearched⟩ := exists_searched hentry
    obtain ⟨own, hown⟩ := hscan _ registered hsearched
    rw [hread.fileMatches_eq hsearched hown] at hsome
    exact ⟨_, registered, hsearched, (scanWhole_ok (hread.read _ hsearched.listed) registered.lined hown).1.mp hsome⟩
  · rintro ⟨file, registered, hsearched, hmatched⟩
    obtain ⟨own, hown⟩ := hscan file registered hsearched
    refine ⟨file.1, hsearched.selected, ?_⟩
    rw [hread.fileMatches_eq hsearched hown]
    exact (scanWhole_ok (hread.read file hsearched.listed) registered.lined hown).1.mpr hmatched

end

section

/-- What the constructor of a predicate accepts. -/
structure Predicate.Accepted (engine : Engine) (pred : Predicate) : Prop where
  value : strip pred.value ≠ []
  language : ∀ language ∈ pred.language, strip language ≠ []
  regex : pred.kind = .regex → engine.compiles pred.value = true ∧ hasCatastrophicShape engine pred.value = false

/-- What the constructor of a search accepts. -/
structure SearchSpec.Accepted (engine : Engine) (casefold : Text → Text) (spec : SearchSpec) : Prop where
  predicates : ∀ pred ∈ spec.must ++ spec.should ++ spec.mustNot, pred.Accepted engine
  must : spec.must ≠ []
  declared : spec.mode = .scopedExhaustive → spec.scopes ≠ []
  scopes : ∀ scope ∈ spec.scopes, Corpus.makeRepoScope scope.slug scope.commitSha = .ok scope
  languages : ((spec.must.filterMap Predicate.language).map (canonicalizeLanguage casefold)).dedup.length ≤ 1

variable {searcher : ScopedSearcher} {spec : SearchSpec} {required : Option Text} {corpus : Corpus}
  {trees : RepoScope → Tree}

/-- When a search reports: every file that is searched is served, and a scope that is declared twice has no match. -/
structure Serving (searcher : ScopedSearcher) (spec : SearchSpec) (required : Option Text) (trees : RepoScope → Tree) :
    Prop where
  files : ∀ scope ∈ spec.scopes, ∀ file registered, Searched searcher spec required (trees scope) file registered →
    registered.Serves searcher.engine searcher.casefold searcher.parser (Utf8.decodeReplace file.2) spec
  scopes : ∀ scope, 1 < spec.scopes.count scope → ∀ file registered,
    Searched searcher spec required (trees scope) file registered →
      ¬ Matched (searcher.adapter registered) (Utf8.decodeReplace file.2) spec

theorem pairwise_equal_iff {α : Type} [DecidableEq α] {P : α → Prop} {items : List α} :
    (items.Pairwise fun a b => a = b → P a) ↔ ∀ a, 1 < items.count a → P a := by
  induction items with
  | nil => simp
  | cons item items ih =>
    rw [pairwise_cons, ih]
    constructor
    · rintro ⟨hfirst, hrest⟩ a hcount
      by_cases hsame : item = a
      · subst hsame
        rw [count_cons_self, Nat.lt_add_left_iff_pos, count_pos_iff] at hcount
        exact hfirst item hcount rfl
      · rw [count_cons_of_ne hsame] at hcount
        exact hrest a hcount
    · intro h
      refine ⟨?_, ?_⟩
      · rintro b hb rfl
        refine h item ?_
        rw [count_cons_self, Nat.lt_add_left_iff_pos, count_pos_iff]
        exact hb
      · exact fun a hcount => h a (hcount.trans_le count_le_count_cons)

theorem matchesIn_owned (hreadable : ∀ scope ∈ spec.scopes, ∃ source, Readable searcher corpus scope (trees scope) source)
    {scope : RepoScope} (hscope : scope ∈ spec.scopes) {item : SourceMatch}
    (h : item ∈ searcher.matchesIn spec required corpus scope) :
    item.source.slug = scope.slug ∧ item.source.commitSha = scope.commitSha := by
  obtain ⟨source, hread⟩ := hreadable scope hscope
  rw [hread.matchesIn_eq] at h
  obtain ⟨entry, hentry, hitem⟩ := mem_flatMap.mp h
  obtain ⟨hslug, hcommit, -⟩ := hread.owned hentry hitem
  exact ⟨hslug, hcommit⟩

/-- Different scopes have no match in common, and the same scope has all of its matches in common with itself. -/
theorem disjoint_matchesIn (hreadable : ∀ scope ∈ spec.scopes, ∃ source, Readable searcher corpus scope (trees scope) source)
    {a b : RepoScope} (ha : a ∈ spec.scopes) (hb : b ∈ spec.scopes) :
    List.Disjoint ((searcher.matchesIn spec required corpus a).map SourceMatch.identity)
        ((searcher.matchesIn spec required corpus b).map SourceMatch.identity) ↔
      (a = b → searcher.matchesIn spec required corpus a = []) := by
  constructor
  · rintro hdisjoint rfl
    by_contra hsome
    obtain ⟨item, hitem⟩ := exists_mem_of_ne_nil _ hsome
    exact hdisjoint (mem_map_of_mem hitem) (mem_map_of_mem hitem)
  · intro h identity hleft hright
    obtain ⟨item, hitem, rfl⟩ := mem_map.mp hleft
    obtain ⟨other, hother, heq⟩ := mem_map.mp hright
    have hown := matchesIn_owned hreadable ha hitem
    rw [← source_of_identity heq] at hown
    have hsame := matchesIn_owned hreadable hb hother
    have hscope : a = b := by
      cases a
      cases b
      rw [RepoScope.mk.injEq]
      exact ⟨hown.1.symm.trans hsame.1, hown.2.symm.trans hsame.2⟩
    rw [h hscope] at hitem
    cases hitem

theorem SearchSpec.Accepted.regexes (haccepted : spec.Accepted searcher.engine searcher.casefold) :
    RegexesCompile searcher.engine (spec.must ++ spec.should ++ spec.mustNot) := fun pred hpred hkind =>
  ((haccepted.predicates pred hpred).regex hkind).1

/-- A search of trees whose files can be read, for an accepted query in a supported language, ends with a report exactly
if no pattern that does not compile is reached, no optional predicates without required ones find different spans on one
line, and no scope with a match is declared twice. -/
theorem scopedSearch_reports_iff (searcher : ScopedSearcher) (spec : SearchSpec) (corpus : Corpus)
    (trees : RepoScope → Tree) (required : Option Text) (haccepted : spec.Accepted searcher.engine searcher.casefold)
    (hmode : spec.mode = .scopedExhaustive) (hrequired : requiredLanguage searcher.casefold spec = .ok required)
    (hsupported : supports searcher.adapters required = true)
    (hreadable : ∀ scope ∈ spec.scopes, ∃ source, Readable searcher corpus scope (trees scope) source) :
    (∃ report, searcher.search corpus spec = .ok report) ↔ Serving searcher spec required trees := by
  unfold ScopedSearcher.search
  rw [scopedSearch_ok_iff hmode hrequired hsupported, map_flatMap, nodup_flatMap]
  have hserved : ∀ scope ∈ spec.scopes,
      (Scannable searcher.engine searcher.sha1 searcher.adapters searcher.maxBlobSize spec required corpus scope ∧
        ((searcher.matchesIn spec required corpus scope).map SourceMatch.identity).Nodup ↔
      ∀ file registered, Searched searcher spec required (trees scope) file registered →
        registered.Serves searcher.engine searcher.casefold searcher.parser (Utf8.decodeReplace file.2) spec) := by
    intro scope hscope
    obtain ⟨source, hread⟩ := hreadable scope hscope
    exact hread.served_iff haccepted.regexes
  have hdisjoint : spec.scopes.Pairwise (Function.onFun List.Disjoint fun scope =>
        (searcher.matchesIn spec required corpus scope).map SourceMatch.identity) ↔
      ∀ scope, 1 < spec.scopes.count scope → searcher.matchesIn spec required corpus scope = [] := by
    rw [← pairwise_equal_iff]
    refine List.Pairwise.iff_of_mem ?_
    intro a b ha hb
    exact disjoint_matchesIn hreadable ha hb
  have hnone : ∀ scope ∈ spec.scopes,
      Scannable searcher.engine searcher.sha1 searcher.adapters searcher.maxBlobSize spec required corpus scope →
      (searcher.matchesIn spec required corpus scope = [] ↔ ∀ file registered,
        Searched searcher spec required (trees scope) file registered →
          ¬ Matched (searcher.adapter registered) (Utf8.decodeReplace file.2) spec) := by
    intro scope hscope hscan
    obtain ⟨source, hread⟩ := hreadable scope hscope
    rw [← not_iff_not, ← ne_eq, hread.ne_nil_iff hscan]
    push Not
    rfl
  have hmem : ∀ scope, 1 < spec.scopes.count scope → scope ∈ spec.scopes := fun scope hcount =>
    count_pos_iff.mp (Nat.zero_lt_of_lt hcount)
  constructor
  · rintro ⟨hscan, hnodup, hpairwise⟩
    refine ⟨?_, ?_⟩
    · intro scope hscope
      exact (hserved scope hscope).mp ⟨hscan scope hscope, hnodup scope hscope⟩
    · intro scope hcount
      exact (hnone scope (hmem scope hcount) (hscan scope (hmem scope hcount))).mp (hdisjoint.mp hpairwise scope hcount)
  · rintro ⟨hfiles, hscopes⟩
    have hall := fun scope hscope => (hserved scope hscope).mpr (hfiles scope hscope)
    refine ⟨fun scope hscope => (hall scope hscope).1, fun scope hscope => (hall scope hscope).2, ?_⟩
    refine hdisjoint.mpr ?_
    intro scope hcount
    exact (hnone scope (hmem scope hcount) (hall scope (hmem scope hcount)).1).mpr (hscopes scope hcount)

def sampleTree : Tree where
  files := [(⟨chars "ab.py", List.replicate 40 98, 6⟩, chars "x = 1\n")]
  paths := by simp

def sampleSearcher : ScopedSearcher where
  engine := literalEngine
  casefold := id
  parser := noParser
  sha1 := fun _ => []
  registry := [.lines pythonAdapter ".py"]
  maxBlobSize := 100

theorem sample_readable : Readable sampleSearcher sampleCorpus sampleScope sampleTree
    ⟨[⟨chars "ab.py", List.replicate 40 98, 6⟩], sampleCorpus.reader sampleScope, 0, false⟩ where
  opened := rfl
  blobs := rfl
  read := by
    intro file hfile
    cases mem_singleton.mp hfile
    rfl
  sized := by
    intro file hfile
    cases mem_singleton.mp hfile
    decide

theorem accepted_literal {spec : SearchSpec} (hpreds : ∀ pred ∈ spec.must ++ spec.should ++ spec.mustNot,
      strip pred.value ≠ [] ∧ pred.language = none ∧ literalEngine.compiles pred.value = true)
    (hmust : spec.must ≠ []) (hscopes : spec.scopes ≠ []) (hall : ∀ scope ∈ spec.scopes, scope = sampleScope) :
    spec.Accepted literalEngine id where
  predicates := by
    intro pred hpred
    obtain ⟨hvalue, hlanguage, hcompiles⟩ := hpreds pred hpred
    refine ⟨hvalue, ?_, fun _ => ⟨hcompiles, ?_⟩⟩
    · rw [hlanguage]
      simp
    · rfl
  must := hmust
  declared := fun _ => hscopes
  scopes := by
    intro scope hscope
    rw [hall scope hscope]
    decide
  languages := by
    have hnone : spec.must.filterMap Predicate.language = [] := by
      rw [filterMap_eq_nil_iff]
      intro pred hpred
      exact (hpreds pred (mem_append_left _ (mem_append_left _ hpred))).2.1
    simp [hnone]

theorem scopedSearch_reports_sample : Serving sampleSearcher pathSpec none fun _ => sampleTree := by
  have haccepted : pathSpec.Accepted literalEngine id :=
    accepted_literal (by decide) (by decide) (by decide) (by decide)
  refine (scopedSearch_reports_iff sampleSearcher pathSpec sampleCorpus (fun _ => sampleTree) none haccepted rfl rfl rfl ?_).mp
    ⟨sampleReport, by decide +kernel⟩
  intro scope hscope
  cases mem_singleton.mp hscope
  exact ⟨_, sample_readable⟩

/-- A required path and two optional predicates that find the same line. -/
def optionalSpec : SearchSpec where
  must := [{ kind := .path, value := chars "ab" }]
  should := [{ kind := .exactText, value := chars "x" }, { kind := .regex, value := chars "x" }]
  scopes := [sampleScope]

/-- Two optional predicates on one line give two matches with one identity, and the search fails. -/
theorem optional_predicates_collide : optionalSpec.Accepted sampleSearcher.engine sampleSearcher.casefold ∧
    optionalSpec.mode = .scopedExhaustive ∧ requiredLanguage sampleSearcher.casefold optionalSpec = .ok none ∧
    supports sampleSearcher.adapters none = true ∧
    (∀ scope ∈ optionalSpec.scopes, ∃ source, Readable sampleSearcher sampleCorpus scope sampleTree source) ∧
    sampleSearcher.search sampleCorpus optionalSpec = .error .duplicateIdentities := by
  refine ⟨accepted_literal (by decide) (by decide) (by decide) (by decide), rfl, rfl, rfl, ?_, by decide +kernel⟩
  intro scope hscope
  cases mem_singleton.mp hscope
  exact ⟨_, sample_readable⟩

end

end Leitir.Search
