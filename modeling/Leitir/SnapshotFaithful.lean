import Leitir.SnapshotInstalled

namespace Leitir.Snapshot

open List

open FileTree (Node Tree WellFormed isDirectory permits resolve)
open Archive (Name Path Member Planted Destined Open Writable LeadInside symlinkDestination)
open Shelf (asPosix code)

section

variable {codec : Codec} {corpus : Corpus}

/-- A corpus as materializations leave it: each entry has a shelf of its own identity below the first directory. -/
structure Materialized (corpus : Corpus) : Prop where
  wellFormed : WellFormed corpus.tree
  plain : PlainNames corpus.tree
  modes : PlainModes corpus.tree
  shelved : ∀ entry ∈ corpus.entries, ∃ rest mode, entry.path = asPosix ("repos".toList :: rest) ∧
    corpus.tree.lookup ("repos".toList :: rest) = some (.directory mode)
  sorted : corpus.entries.Pairwise fun a b => key a ≤ key b

def places (corpus : Corpus) : List Path := corpus.entries.map Entry.place

def nodesOf (corpus : Corpus) : List (Path × Node) :=
  exportedNodes corpus.tree (places corpus) (readPointers corpus.tree)

theorem Materialized.placed (h : Materialized corpus) {entry : Entry} (hentry : entry ∈ corpus.entries) :
    Placed entry ∧ ∃ rest mode, entry.place = "repos".toList :: rest ∧
      corpus.tree.lookup entry.place = some (.directory mode) := by
  obtain ⟨rest, mode, hpath, hlookup⟩ := h.shelved entry hentry
  have hplain := h.plain _ (FileTree.mem_of_lookup hlookup)
  have hplace : entry.place = "repos".toList :: rest := by
    unfold Entry.place
    rw [hpath]
    exact parts_posix (by simp) hplain
  refine ⟨⟨hplace ▸ hplain, by simp [hplace], by rw [hplace, hpath]⟩, rest, mode, hplace, ?_⟩
  rw [hplace]
  exact hlookup

theorem Materialized.shelves (h : Materialized corpus) : Shelved corpus.tree (places corpus) where
  wellFormed := h.wellFormed
  plain := h.plain
  based := by
    intro base hbase
    obtain ⟨entry, hentry, rfl⟩ := mem_map.mp hbase
    obtain ⟨-, rest, -, hplace, -⟩ := h.placed hentry
    exact ⟨rest, hplace⟩
  directories := by
    intro base hbase
    obtain ⟨entry, hentry, rfl⟩ := mem_map.mp hbase
    obtain ⟨-, -, mode, -, hlookup⟩ := h.placed hentry
    exact ⟨mode, hlookup⟩

structure Exported (codec : Codec) (corpus : Corpus) (sources : List (Entry × Manifest)) (snapshot : Lock × List Member) : Prop where
  entries : sources.map Prod.fst = corpus.entries
  manifests : ∀ source ∈ sources, codec.readValidManifest (below corpus.tree source.1.place) source.1.shelf = some source.2
  members : snapshot.2 = writeTarball (archivePaths corpus.tree (places corpus)) (readPointers corpus.tree)
  lock : snapshot.1 =
    { formatVersion, corpusVersion
      tarballSha256 := codec.sha256 (codec.tarballBytes snapshot.2)
      pointersSha256 := codec.sha256 (readPointers corpus.tree)
      sources := sources.map (record codec corpus.tree) }

theorem read_entry {entry : Entry} {source : Entry × Manifest}
    (h : (if entry.path.head? = some '/' ∨ entry.place.any Archive.isParent then
      (.error (.value "invalid shelved source path") : Except SnapshotError (Entry × Manifest))
    else
      match codec.readValidManifest (below corpus.tree entry.place) entry.shelf with
      | none => .error (.value "source has no valid manifest (run 'leitir upgrade-cache' to migrate legacy shelves)")
      | some manifest => .ok (entry, manifest)) = .ok source) :
    source.1 = entry ∧ codec.readValidManifest (below corpus.tree entry.place) entry.shelf = some source.2 := by
  obtain ⟨-, h⟩ := ExceptRun.guard_ok h
  split at h
  next => cases h
  next manifest hmanifest =>
    cases h
    exact ⟨rfl, hmanifest⟩

theorem enumerate_ok (hcorpus : Materialized corpus) {sources : List (Entry × Manifest)}
    (h : enumerateShelvedSources codec corpus = .ok sources) :
    sources.map Prod.fst = corpus.entries ∧
      ∀ source ∈ sources, codec.readValidManifest (below corpus.tree source.1.place) source.1.shelf = some source.2 := by
  unfold enumerateShelvedSources at h
  obtain ⟨result, hresult, hsort⟩ := ExceptRun.bind_ok h
  have hall := ExceptRun.mapM_ok_forall₂ hresult
  have hentries : result.map Prod.fst = corpus.entries := by
    have hpairs : List.Forall₂ (· = ·) (result.map Prod.fst) corpus.entries :=
      forall₂_map_left_iff.mpr (hall.flip.imp fun source entry hsource => (read_entry hsource).1)
    rwa [forall₂_eq_eq_eq] at hpairs
  have hsorted : sources = result := by
    have hpairwise : result.Pairwise fun a b => key a.1 ≤ key b.1 := by
      have hmap := hcorpus.sorted
      rw [← hentries, pairwise_map] at hmap
      exact hmap
    cases hsort
    exact hpairwise.insertionSort_eq
  rw [hsorted]
  refine ⟨hentries, fun source hsource => ?_⟩
  obtain ⟨entry, -, hentry⟩ := Archive.forall₂_left hall.flip source hsource
  obtain ⟨heq, hmanifest⟩ := read_entry hentry
  rw [heq]
  exact hmanifest

theorem exportCorpus_ok (hcorpus : Materialized corpus) {corpusRoot lockPath tarballPath : Path} {snapshot : Lock × List Member}
    (h : exportCorpus codec corpusRoot lockPath tarballPath corpus = .ok snapshot) :
    ∃ sources, Exported codec corpus sources snapshot := by
  unfold exportCorpus at h
  obtain ⟨sources, hsources, h⟩ := ExceptRun.bind_ok h
  obtain ⟨-, h⟩ := ExceptRun.guard_ok h
  cases h
  obtain ⟨hentries, hmanifests⟩ := enumerate_ok hcorpus hsources
  have hplaces : (sources.map fun source => source.1.place) = places corpus := by
    unfold places
    rw [← hentries, map_map]
    rfl
  refine ⟨sources, hentries, hmanifests, ?_, rfl⟩
  dsimp only
  rw [hplaces]

end

section

variable {codec : Codec} {corpus : Corpus} {sources : List (Entry × Manifest)} {snapshot : Lock × List Member}

def Trusted (codec : Codec) (lock : Lock) (expectedLockSha256 : Option Name) (allowUnverifiedLock : Bool) : Prop :=
  expectedLockSha256 = some (codec.sha256 (codec.lockBytes lock)) ∨ expectedLockSha256 = none ∧ allowUnverifiedLock = true

variable {expected : Option Name} {allow : Bool} {tree : Tree} {staging : Path}

theorem loadLock_ok (hsha : ∀ data, isSha256 (codec.sha256 data) = true) (hexported : Exported codec corpus sources snapshot) (htrust : Trusted codec snapshot.1 expected allow) :
    loadLock codec snapshot.1 expected = .ok (sources.map (record codec corpus.tree)) := by
  have hversioned : loadLock.versioned snapshot.1 = .ok (sources.map (record codec corpus.tree)) := by
    unfold loadLock.versioned
    rw [hexported.lock, if_neg (by simp)]
  unfold loadLock
  rcases htrust with rfl | ⟨rfl, -⟩
  · dsimp only
    rw [if_neg (by simp [hsha]), if_neg (by simp)]
    exact hversioned
  · exact hversioned

/-- An import of what was exported comes down to the extraction and what follows it. -/
theorem importCorpus_exported (hsha : ∀ data, isSha256 (codec.sha256 data) = true)
    (hexported : Exported codec corpus sources snapshot)
    (htrust : Trusted codec snapshot.1 expected allow) (allows : Tree → Path → Bool) (fuel : Nat) (host : Tree) (staging : Path) :
    importCorpus codec allows fuel host staging false expected allow snapshot =
      match Archive.extractTarball allows staging fuel (some archiveRoot) snapshot.2 host with
      | .error err _ => .error (.extract err)
      | .ok _ tree =>
        validateStaged codec tree staging snapshot.1 (sources.map (record codec corpus.tree)) >>=
          shelveImportedSources false tree staging := by
  have hguard : ¬ (expected = none ∧ allow = false) := by
    rcases htrust with rfl | ⟨rfl, rfl⟩
    · simp
    · simp
  have hdigest : snapshot.1.tarballSha256 = codec.sha256 (codec.tarballBytes snapshot.2) := by rw [hexported.lock]
  unfold importCorpus
  rw [if_neg hguard, ExceptRun.bind_eq (loadLock_ok hsha hexported htrust)]
  refine (if_neg (by simp [hdigest, hsha])).trans ((if_neg (by simp [hdigest])).trans ?_)
  rfl

theorem validateRecord_undegraded {entry : Entry} {given : Record}
    (h : validateRecord codec tree staging given = .ok entry) : entry.degradedProvenance = none := by
  unfold validateRecord at h
  dsimp only at h
  obtain ⟨-, h⟩ := ExceptRun.guard_ok h
  obtain ⟨-, h⟩ := ExceptRun.guard_ok h
  obtain ⟨-, h⟩ := ExceptRun.guard_ok h
  split at h
  next => cases h
  next =>
    obtain ⟨-, h⟩ := ExceptRun.guard_ok h
    obtain ⟨-, h⟩ := ExceptRun.guard_ok h
    obtain ⟨-, h⟩ := ExceptRun.guard_ok h
    obtain ⟨-, h⟩ := ExceptRun.guard_ok h
    obtain ⟨-, h⟩ := ExceptRun.guard_ok h
    cases h
    rfl

theorem validateStaged_undegraded {lock : Lock} {records : List Record} {entries : List Entry}
    (h : validateStaged codec tree staging lock records = .ok entries) : ∀ entry ∈ entries, entry.degradedProvenance = none := by
  unfold validateStaged at h
  split at h
  next => cases h
  next =>
    obtain ⟨-, h⟩ := ExceptRun.guard_ok h
    obtain ⟨validated, hvalidated, h⟩ := ExceptRun.bind_ok h
    obtain ⟨-, h⟩ := ExceptRun.guard_ok h
    obtain ⟨-, h⟩ := ExceptRun.guard_ok h
    obtain ⟨_, -, h⟩ := ExceptRun.bind_ok h
    cases h
    intro entry hentry
    obtain ⟨given, -, hgiven⟩ := (ExceptRun.mapM_ok_mem hvalidated).2 entry hentry
    exact validateRecord_undegraded hgiven

theorem shelveImportedSources_entries {occupied : Bool} {entries : List Entry} {other : Corpus}
    (h : shelveImportedSources occupied tree staging entries = .ok other) : other.entries = entries := by
  unfold shelveImportedSources at h
  obtain ⟨-, h⟩ := ExceptRun.guard_ok h
  split at h
  next => cases h
  next =>
    split at h
    next => cases h
    next =>
      obtain ⟨-, h⟩ := ExceptRun.guard_ok h
      split at h
      next => cases h
      next =>
        cases h
        rfl

theorem importCorpus_undegraded {allows : Tree → Path → Bool} {fuel : Nat} {host : Tree} {occupied : Bool} {other : Corpus}
    (h : importCorpus codec allows fuel host staging occupied expected allow snapshot = .ok other) :
    ∀ entry ∈ other.entries, entry.degradedProvenance = none := by
  unfold importCorpus at h
  obtain ⟨-, h⟩ := ExceptRun.guard_ok h
  obtain ⟨records, -, h⟩ := ExceptRun.bind_ok h
  obtain ⟨-, h⟩ := ExceptRun.guard_ok h
  obtain ⟨-, h⟩ := ExceptRun.guard_ok h
  split at h
  next => cases h
  next =>
    obtain ⟨entries, hvalidated, hshelve⟩ := ExceptRun.bind_ok h
    rw [shelveImportedSources_entries hshelve]
    exact validateStaged_undegraded hvalidated

end

section

variable {codec : Codec} {corpus : Corpus} {sources : List (Entry × Manifest)} {snapshot : Lock × List Member}

/-- The same catalogue, and the same shelves. -/
def Reproduces (corpus other : Corpus) : Prop :=
  other.entries = corpus.entries ∧ ∀ entry ∈ corpus.entries,
    other.tree.lookup entry.place = corpus.tree.lookup entry.place ∧
      below other.tree entry.place = below corpus.tree entry.place

/-- What an import needs of a corpus: no entry is degraded, no shelf is inside another, no name has a backslash, the links pass
the checks of an archive in the order of their paths, and directories with entries can be written. -/
structure Transportable (mayWrite : Nat → Bool) (host : Tree) (root : Path) (corpus : Corpus) : Prop where
  undegraded : ∀ entry ∈ corpus.entries, entry.degradedProvenance = none
  apart : Apart (places corpus)
  slashes : ∀ item ∈ nodesOf corpus, '\\' ∉ asPosix item.1
  targets : ∀ item ∈ nodesOf corpus, ∀ target, item.2 = .link target → symlinkDestination item.1 target = .ok ()
  chained : ∃ fuel, Archive.validatePlannedSymlinks fuel ((nodesOf corpus).filterMap plannedLink) = some (.ok ())
  writable : Writable mayWrite (nodesOf corpus)
  inside : LeadInside host root (nodesOf corpus)

theorem mem_places_sorted {entries : List Entry} {base : Path} :
    base ∈ (KeyedList.sortBy (fun entry => [code entry.path]) entries).map Entry.place ↔ base ∈ entries.map Entry.place := by
  rw [mem_map, mem_map]
  exact exists_congr fun entry => and_congr_left fun _ => KeyedList.mem_sortBy

/-- The checks of what was extracted pass, and the shelves are installed as they were. -/
theorem installs (hcorpus : Materialized corpus) (hexported : Exported codec corpus sources snapshot)
    (hapart : Apart (places corpus)) (hundegraded : ∀ entry ∈ corpus.entries, entry.degradedProvenance = none)
    {host staged : Tree} {staging root : Path} (hdest : Destined staging root staged)
    (hplanted : Planted host root (nodesOf corpus) staged) :
    ∃ other, (validateStaged codec staged staging snapshot.1 (sources.map (record codec corpus.tree)) >>=
      shelveImportedSources false staged staging) = .ok other ∧ Reproduces corpus other := by
  have hshelved := hcorpus.shelves
  have hshelves := exported_shelves hshelved hapart (readPointers corpus.tree)
  have hlisted := hshelves.listed hshelved hapart
  have himported : sources.mapM (fun source => validateRecord codec staged staging (record codec corpus.tree source)) =
      .ok (sources.map Prod.fst) := by
    refine ExceptRun.mapM_ok_map fun source hsource => ?_
    have hentry : source.1 ∈ corpus.entries := hexported.entries ▸ mem_map_of_mem hsource
    have hrecord := validateRecord_ok hplanted hdest hshelves hshelved hlisted hentry (hcorpus.placed hentry).1
      (hexported.manifests source hsource)
    rw [hrecord]
    have hsame : imported source.1 = source.1 := by
      unfold imported
      rw [← hundegraded source.1 hentry]
    rw [hsame]
  have hrecords : (sources.map (record codec corpus.tree)).map (fun given => given.entry) = corpus.entries := by
    rw [← hexported.entries, map_map]
    rfl
  have hpaths : ∀ {a b : Entry}, a ∈ corpus.entries → b ∈ corpus.entries → a.path = b.path → a.place = b.place := by
    intro a b _ _ heq
    unfold Entry.place
    rw [heq]
  have hnodup : (corpus.entries.map fun entry => entry.path).Nodup := by
    have hpairs := hapart
    unfold Apart places at hpairs
    rw [pairwise_map] at hpairs
    rw [List.Nodup, pairwise_map]
    refine hpairs.imp_of_mem ?_
    intro a b ha hb hab heq
    exact hab.1 (hpaths ha hb heq ▸ prefix_rfl)
  have hoverlap : (corpus.entries.any fun left => corpus.entries.any fun right =>
      decide (left.place ≠ right.place ∧ left.place <+: right.place)) = false := by
    rw [any_eq_false]
    intro left hleft hany
    obtain ⟨right, hright, hboth⟩ := any_eq_true.mp hany
    rw [decide_eq_true_iff] at hboth
    exact hapart.not_prefix (mem_map_of_mem hleft) (mem_map_of_mem hright) hboth.1 hboth.2
  have hvalidated : validateStaged codec staged staging snapshot.1 (sources.map (record codec corpus.tree)) =
      .ok corpus.entries := by
    unfold validateStaged
    rw [pointersAt_eq hplanted hdest hshelves hlisted]
    dsimp only
    rw [if_neg (by rw [hexported.lock]; simp), mapM_map]
    rw [ExceptRun.bind_eq (show sources.mapM (validateRecord codec staged staging ∘ record codec corpus.tree) = _ from himported),
      hexported.entries, if_neg (by simpa using hnodup), if_neg (by rw [Bool.not_eq_true]; exact hoverlap),
      ExceptRun.bind_eq (validateMembership_ok hplanted hdest hshelves hshelved hrecords)]
    rfl
  have hsorted : ∀ base, base ∈ (KeyedList.sortBy (fun entry => [code entry.path]) corpus.entries).map Entry.place ↔
      base ∈ places corpus := fun base => mem_places_sorted
  have hsortedShelved : Shelved corpus.tree
      ((KeyedList.sortBy (fun entry => [code entry.path]) corpus.entries).map Entry.place) :=
    ⟨hshelved.wellFormed, hshelved.plain, fun base hbase => hshelved.based base ((hsorted base).mp hbase),
      fun base hbase => hshelved.directories base ((hsorted base).mp hbase)⟩
  have hsortedApart : Apart ((KeyedList.sortBy (fun entry => [code entry.path]) corpus.entries).map Entry.place) :=
    (((KeyedList.perm_sortBy _ corpus.entries).map Entry.place).pairwise_iff (fun hxy => ⟨hxy.2, hxy.1⟩)).mpr hapart
  have hinstalled := installed_shelves hsortedShelved hsortedApart (readPointers corpus.tree)
  have hinstalledListed := hinstalled.listed hsortedShelved hsortedApart
  have hreplayed : Archive.Replayed host staging root (nodesOf corpus) staged :=
    ⟨hdest, hplanted, fun item hitem => (hlisted.named item hitem).1⟩
  have hsymlink : Archive.isSymlink staged (staging ++ [pointersName]) = false :=
    (hreplayed.isSymlink_eq hlisted ((hshelves.mem _).mpr (Or.inl rfl))).2
  have hstagedShelf : ∀ base ∈ (KeyedList.sortBy (fun entry => [code entry.path]) corpus.entries).map Entry.place,
      StagedShelf corpus.tree staged staging root base := by
    intro base hbase
    have hmem := (hsorted base).mp hbase
    obtain ⟨own, hown⟩ := hshelved.directories base hmem
    have hlookup := planted_shelf hplanted hshelves hshelved hlisted hmem []
    rw [append_nil, hown] at hlookup
    exact ⟨⟨own, hown, hlookup⟩, FileTree.resolve_plain hdest.wellFormed hdest.resolved hlookup rfl,
      below_shelf hplanted hdest.wellFormed hshelves hshelved hlisted hmem⟩
  obtain ⟨other, hshelve, hentries, hotherWf, hotherPlanted⟩ := shelveImportedSources_ok rfl hstagedShelf
    (pointersAt_eq hplanted hdest hshelves hlisted) hsymlink hinstalledListed
  refine ⟨other, by rw [ExceptRun.bind_eq hvalidated]; exact hshelve, hentries, fun entry hentry => ?_⟩
  have hmem := (hsorted entry.place).mpr (mem_map_of_mem hentry)
  have hlookup := planted_shelf hotherPlanted hinstalled hsortedShelved hinstalledListed hmem []
  rw [append_nil, nil_append] at hlookup
  exact ⟨hlookup, below_shelf hotherPlanted hotherWf hinstalled hsortedShelved hinstalledListed hmem⟩

/-- An import of what was exported reproduces the corpus exactly when the corpus is transportable. -/
theorem import_reproduces_iff (codec : Codec) (mayWrite : Nat → Bool) (host : Tree) (staging root : Path)
    (corpusRoot lockPath tarballPath : Path) (corpus : Corpus) (snapshot : Lock × List Member)
    (expectedLockSha256 : Option Name) (allowUnverifiedLock : Bool)
    (hsha : ∀ data, isSha256 (codec.sha256 data) = true) (hcorpus : Materialized corpus)
    (hexport : exportCorpus codec corpusRoot lockPath tarballPath corpus = .ok snapshot)
    (hlimits : WithinLimits (nodesOf corpus))
    (htrust : Trusted codec snapshot.1 expectedLockSha256 allowUnverifiedLock)
    (hwf : WellFormed host) (hstaging : resolve host staging = .ok root) (hdir : isDirectory host root = true)
    (hempty : ∀ place node, host.lookup place = some node → root <+: place → place = root) (hopen : Open mayWrite host root) :
    (∃ fuel other, importCorpus codec (permits mayWrite) fuel host staging false expectedLockSha256 allowUnverifiedLock snapshot =
      .ok other ∧ Reproduces corpus other) ↔ Transportable mayWrite host root corpus := by
  obtain ⟨sources, hexported⟩ := exportCorpus_ok hcorpus hexport
  have hdest : Destined staging root host := ⟨hwf, hstaging, hdir⟩
  have hshelved := hcorpus.shelves
  have hextract := fun fuel => extractTarball_exported fuel staging hshelved hcorpus.modes hlimits
    hopen hdest hempty
  rw [← hexported.members] at hextract
  have hrun := importCorpus_exported hsha hexported htrust (permits mayWrite)
  constructor
  · rintro ⟨fuel, other, hother, hentries, -⟩
    rw [hrun] at hother
    split at hother
    next => cases hother
    next _ staged hstaged =>
      obtain ⟨entries, hvalidated, hshelve⟩ := ExceptRun.bind_ok hother
      have hextracts := (hextract fuel).1.mp ⟨staged, hstaged⟩
      refine ⟨?_, (nodup_exportedNodes_iff hshelved _).mp hextracts.plans.distinct, hextracts.plans.slashes,
        hextracts.plans.targets, ⟨fuel, hextracts.chained⟩, hextracts.writable, hextracts.inside⟩
      rw [← hentries, shelveImportedSources_entries hshelve]
      exact validateStaged_undegraded hvalidated
  · intro h
    obtain ⟨fuel, hchained⟩ := h.chained
    have hplans : Plans (nodesOf corpus) := ⟨h.slashes, (nodup_exportedNodes_iff hshelved _).mpr h.apart, h.targets⟩
    obtain ⟨staged, hstaged⟩ := (hextract fuel).1.mpr ⟨hplans, hchained, h.writable, h.inside⟩
    obtain ⟨hstagedDest, hplanted⟩ := (hextract fuel).2 staged hstaged
    obtain ⟨other, hother, hreproduces⟩ := installs hcorpus hexported h.apart h.undegraded hstagedDest hplanted
    refine ⟨fuel, other, ?_, hreproduces⟩
    rw [hrun, hstaged]
    exact hother

/-- Digests as they are, and a reader that looks for the file of the manifest. -/
def plainCodec : Codec where
  sha256 := Sha256.hexdigest
  gitBlobSha := Shelf.gitBlobSha
  lockBytes := fun lock => encode lock.tarballSha256
  tarballBytes := fun members => members.flatMap fun member => encode member.name ++ member.data
  readValidManifest := fun shelf _ =>
    if (shelf.lookup [Archive.manifestName]).isSome then some ⟨"npm:a".toList, none, none, none⟩ else none

theorem plainCodec_sha256 (data : List Nat) : isSha256 (plainCodec.sha256 data) = true := by
  unfold isSha256
  rw [Bool.and_eq_true, decide_eq_true_iff, all_eq_true]
  refine ⟨Sha256.length_hexdigest data, fun ch hch => ?_⟩
  obtain ⟨d, hd, rfl⟩ := Sha256.mem_hexdigest hch
  clear hch
  revert d
  decide

def registryCommit : Name := List.replicate 40 '0'

def registryPlace : Path := ["repos".toList, "github.com".toList, "registry".toList, "a".toList, registryCommit]

def registryEntry (degraded : Option Name) : Entry where
  name := "a".toList
  host := "github.com".toList
  owner := "registry".toList
  repo := "a".toList
  commitSha := registryCommit
  path := asPosix registryPlace
  fetchedAt := "2026-08-23T00:00:00Z".toList
  verified := some .yes
  degradedProvenance := degraded

def registryTree : Tree :=
  [(registryPlace.take 1, .directory 0o755), (registryPlace.take 2, .directory 0o755),
    (registryPlace.take 3, .directory 0o755), (registryPlace.take 4, .directory 0o755), (registryPlace, .directory 0o755),
    (registryPlace ++ [Archive.manifestName], .file 0o644 [123, 125])]

def registryCorpus (degraded : Option Name) : Corpus := ⟨[registryEntry degraded], registryTree⟩

theorem registryCorpus_materialized (degraded : Option Name) : Materialized (registryCorpus degraded) where
  wellFormed := ⟨by change (registryTree.map Prod.fst).Nodup; decide,
    by change ∀ entry ∈ registryTree, entry.1 ≠ [] ∧ ∀ part ∈ entry.1, FileTree.isProper part = true; decide,
    by change ∀ entry ∈ registryTree, isDirectory registryTree entry.1.dropLast = true; decide⟩
  plain := by
    change ∀ entry ∈ registryTree, ∀ part ∈ entry.1, FileTree.isProper part = true ∧ '/' ∉ part
    decide
  modes := by
    have hall : ∀ item ∈ registryTree, item.2 = .directory 0o755 ∨ item.2 = .file 0o644 [123, 125] := by decide
    intro place mode data hnode
    rcases hnode with hnode | hnode
    · rcases hall _ (FileTree.mem_of_lookup hnode) with h | h
      · cases h
        decide
      · cases h
    · rcases hall _ (FileTree.mem_of_lookup hnode) with h | h
      · cases h
      · cases h
        decide
  shelved := by
    intro entry hentry
    rw [mem_singleton.mp hentry]
    exact ⟨registryPlace.tail, 0o755, rfl, by change registryTree.lookup registryPlace = _; decide⟩
  sorted := pairwise_singleton _ _

theorem registryCorpus_exported (degraded : Option Name) : ∃ snapshot,
    exportCorpus plainCodec [] ["corpus.lock".toList] ["corpus.tar.gz".toList] (registryCorpus degraded) = .ok snapshot :=
  ⟨_, rfl⟩

theorem registryCorpus_limits (degraded : Option Name) : WithinLimits (nodesOf (registryCorpus degraded)) := by
  have hnodes : nodesOf (registryCorpus degraded) = nodesOf (registryCorpus none) := rfl
  rw [hnodes]
  exact ⟨by decide +kernel, by decide +kernel, by decide +kernel⟩

/-- A shelf from a registry alone: its entry comes back without what says so. -/
theorem degraded_entry_lost : ∃ snapshot,
    exportCorpus plainCodec [] ["corpus.lock".toList] ["corpus.tar.gz".toList] (registryCorpus (some "registry-only".toList)) =
      .ok snapshot ∧
    Materialized (registryCorpus (some "registry-only".toList)) ∧ WithinLimits (nodesOf (registryCorpus (some "registry-only".toList))) ∧
    ∀ allows fuel host staging expected allow, ¬ ∃ other,
      importCorpus plainCodec allows fuel host staging false expected allow snapshot = .ok other ∧
        Reproduces (registryCorpus (some "registry-only".toList)) other := by
  obtain ⟨snapshot, hsnapshot⟩ := registryCorpus_exported (some "registry-only".toList)
  refine ⟨snapshot, hsnapshot, registryCorpus_materialized _, registryCorpus_limits _, ?_⟩
  rintro allows fuel host staging expected allow ⟨other, hother, hentries, -⟩
  have hentry := importCorpus_undegraded hother (registryEntry (some "registry-only".toList)) (by
    rw [hentries]
    exact mem_singleton.mpr rfl)
  cases hentry

def emptyHost : Tree := [([['t']], .directory 0o700)]

def ownerWrites (mode : Nat) : Bool := mode &&& 0o200 ≠ 0

/-- The same shelf with an ordinary entry comes back as it was. -/
theorem import_reproduces_registry : ∃ snapshot,
    exportCorpus plainCodec [] ["corpus.lock".toList] ["corpus.tar.gz".toList] (registryCorpus none) = .ok snapshot ∧
    ∃ fuel other, importCorpus plainCodec (permits ownerWrites) fuel emptyHost [['t']] false none true snapshot = .ok other ∧
      Reproduces (registryCorpus none) other := by
  obtain ⟨snapshot, hsnapshot⟩ := registryCorpus_exported none
  refine ⟨snapshot, hsnapshot, ?_⟩
  have hempty : ∀ place node, emptyHost.lookup place = some node → ([['t']] : Path) <+: place → place = [['t']] := by
    intro place node hnode _
    have hmem := FileTree.mem_of_lookup hnode
    simp only [emptyHost, mem_singleton, Prod.mk.injEq] at hmem
    exact hmem.1
  refine (import_reproduces_iff plainCodec ownerWrites emptyHost [['t']] [['t']] [] _ _ (registryCorpus none) snapshot none true
    plainCodec_sha256 (registryCorpus_materialized none) hsnapshot (registryCorpus_limits none) (Or.inr ⟨rfl, rfl⟩)
    ⟨by decide, by decide, by decide⟩ (by rfl) (by rfl) hempty ⟨by decide, by decide⟩).mpr ?_
  have hplain : ∀ item ∈ nodesOf (registryCorpus none), FileTree.isLink item.2 = false := by decide +kernel
  refine ⟨by decide, pairwise_singleton _ _, by decide +kernel, ?_, ⟨0, by decide +kernel⟩, ?_, ?_⟩
  · intro item hitem target htarget
    have hlink := hplain item hitem
    rw [htarget] at hlink
    cases hlink
  · have hmodes : ∀ item ∈ nodesOf (registryCorpus none), ∀ parent ∈ nodesOf (registryCorpus none),
        parent.2 = .directory 0o755 ∨ parent.2 = .file 0o644 [123, 125] ∨ parent.2 = .file 0o644 [] := by decide +kernel
    intro item hitem mode hparent
    rcases hmodes item hitem _ hparent with h | h | h
    · cases h
      decide
    · cases h
    · cases h
  · intro tree _ _ item hitem hlink
    rw [hplain item hitem] at hlink
    cases hlink

end

end Leitir.Snapshot
