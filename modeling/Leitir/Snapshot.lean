import Leitir.ArchiveExtract
import Leitir.ShelfIndex

namespace Leitir.Snapshot

open FileTree (Node Tree Run OsError resolve)
open Archive (Name Path Member parts)
open Shelf (asPosix code)

inductive Verified
  | yes | no | sampled | archiveOnly
deriving DecidableEq, Repr

/-- An entry of the catalogue; the last two fields may be absent. -/
structure Entry where
  name : Name
  host : Name
  owner : Name
  repo : Name
  commitSha : Name
  path : Name
  fetchedAt : Name
  verified : Option Verified := none
  degradedProvenance : Option Name := none
deriving DecidableEq

def key (entry : Entry) : KeyedList.Key := [code entry.host, code entry.owner, code entry.repo, code entry.commitSha]

def Entry.place (entry : Entry) : Path := parts entry.path

def Entry.shelf (entry : Entry) : Shelf.ShelfRef := ⟨entry.host, entry.owner, entry.repo, entry.commitSha⟩

structure Manifest where
  spec : Name
  versionSource : Option Name
  artifactKind : Option Name
  artifactChecksum : Option Name
deriving DecidableEq

/-- A corpus: its catalogue, and its files below its root. -/
structure Corpus where
  entries : List Entry
  tree : Tree

structure Record where
  formatVersion : Nat
  corpusVersion : Nat
  entry : Entry
  spec : Name
  versionSource : Option Name
  artifactKind : Option Name
  artifactChecksum : Option Name
  treeSha : Name
deriving DecidableEq

structure Lock where
  formatVersion : Nat
  corpusVersion : Nat
  tarballSha256 : Name
  pointersSha256 : Name
  sources : List Record
deriving DecidableEq

inductive SnapshotError
  | snapshot (message : String)
  | verification (message : String)
  | value (message : String)
  | fileExists (message : String)
  | extract (error : Archive.ExtractError)
  | os (error : OsError)
deriving DecidableEq

def formatVersion : Nat := 2

def corpusVersion : Nat := 2

def archiveRoot : Name := "leitir-corpus-v1".toList

def pointersName : Name := "POINTERS.md".toList

/-- Digests, the octets that are digested, and the reader of manifests. -/
structure Codec where
  sha256 : List Nat → Name
  gitBlobSha : List Nat → Name
  lockBytes : Lock → List Nat
  tarballBytes : List Member → List Nat
  readValidManifest : List (Path × Node) → Shelf.ShelfRef → Option Manifest

def posixKey (item : Path × Node) : KeyedList.Key := [code (asPosix item.1)]

/-- What is below a place, by its path from there, in the order of the paths. -/
def below (tree : Tree) (place : Path) : List (Path × Node) :=
  KeyedList.sortBy posixKey <| tree.filterMap fun item =>
    if place <+: item.1 ∧ item.1 ≠ place then some (item.1.drop place.length, item.2) else none

def encode (text : Name) : List Nat := (code text).flatMap Utf8.encodePoint

def treeRecord (codec : Codec) : Path × Node → Name
  | (path, .link target) =>
    "120000 ".toList ++ asPosix path ++ '\x00' :: codec.gitBlobSha (encode target) ++ ['\n']
  | (path, .file mode data) =>
    (if mode &&& 0o111 ≠ 0 then "100755 ".toList else "100644 ".toList) ++ asPosix path ++
      '\x00' :: codec.gitBlobSha data ++ ['\n']
  | (_, .directory _) => []

def treeSha (codec : Codec) (shelf : List (Path × Node)) : Name := codec.sha256 (encode (shelf.flatMap (treeRecord codec)))

def shelfAt (tree : Tree) (path : Path) : List (Path × Node) :=
  match resolve tree path with
  | .ok place => below tree place
  | .error _ => []

section

variable (codec : Codec)

def enumerateShelvedSources (corpus : Corpus) : Except SnapshotError (List (Entry × Manifest)) := do
  let result ← corpus.entries.mapM fun entry =>
    if entry.path.head? = some '/' ∨ entry.place.any Archive.isParent then
      .error (.value "invalid shelved source path")
    else
      match codec.readValidManifest (below corpus.tree entry.place) entry.shelf with
      | none => .error (.value "source has no valid manifest (run 'leitir upgrade-cache' to migrate legacy shelves)")
      | some manifest => .ok (entry, manifest)
  pure (KeyedList.sortBy (fun item => key item.1) result)

def shelfNodes (tree : Tree) (base : Path) : List (Path × Node) :=
  (tree.lookup base).toList.map (fun node => (base, node)) ++ (below tree base).map fun item => (base ++ item.1, item.2)

def archivePaths (tree : Tree) (bases : List Path) : List (Path × Node) :=
  KeyedList.sortBy posixKey (bases.flatMap (shelfNodes tree))

def memberName (path : Path) : Name := archiveRoot ++ '/' :: asPosix path

def tarInfo (path : Path) : Node → Member
  | .directory mode => ⟨memberName path, .directory, mode % 0o1000, 0, [], []⟩
  | .file mode data => ⟨memberName path, .regular, mode % 0o1000, data.length, data, []⟩
  | .link target => ⟨memberName path, .symbolicLink, 0o777, 0, [], target⟩

def rootMember : Member := ⟨archiveRoot, .directory, 0o755, 0, [], []⟩

def writeTarball (nodes : List (Path × Node)) (pointers : List Nat) : List Member :=
  rootMember :: nodes.map (fun item => tarInfo item.1 item.2) ++ [tarInfo [pointersName] (.file 0o644 pointers)]

def record (tree : Tree) (source : Entry × Manifest) : Record where
  formatVersion := formatVersion
  corpusVersion := corpusVersion
  entry := source.1
  spec := source.2.spec
  versionSource := source.2.versionSource
  artifactKind := source.2.artifactKind
  artifactChecksum := source.2.artifactChecksum
  treeSha := treeSha codec (below tree source.1.place)

def readPointers (tree : Tree) : List Nat :=
  match tree.lookup [pointersName] with
  | some (.file _ data) => data
  | _ => []

/-- A snapshot of a corpus: its lock and the members of its archive. -/
def exportCorpus (corpusRoot lockPath tarballPath : Path) (corpus : Corpus) : Except SnapshotError (Lock × List Member) := do
  let sources ← enumerateShelvedSources codec corpus
  if sources.any fun source =>
      corpusRoot ++ source.1.place <+: lockPath ∨ corpusRoot ++ source.1.place <+: tarballPath then
    .error (.snapshot "snapshot output cannot be inside a shelved source")
  else
    let pointers := readPointers corpus.tree
    let members := writeTarball (archivePaths corpus.tree (sources.map fun source => source.1.place)) pointers
    pure ({ formatVersion, corpusVersion
            tarballSha256 := codec.sha256 (codec.tarballBytes members)
            pointersSha256 := codec.sha256 pointers
            sources := sources.map (record codec corpus.tree) }, members)

end

section

variable (codec : Codec)

def isSha256 (digest : Name) : Bool := digest.length = 64 && digest.all fun ch => ('0' ≤ ch && ch ≤ '9') || ('a' ≤ ch && ch ≤ 'f')

def loadLock (lock : Lock) (expectedSha256 : Option Name) : Except SnapshotError (List Record) :=
  match expectedSha256 with
  | some expected =>
    if isSha256 expected = false then .error (.snapshot "trusted lock SHA-256 must be 64 lowercase hex characters")
    else if codec.sha256 (codec.lockBytes lock) ≠ expected then .error (.verification "snapshot lock SHA-256 mismatch")
    else versioned
  | none => versioned
where
  versioned : Except SnapshotError (List Record) :=
    if lock.formatVersion ≠ formatVersion ∨ lock.corpusVersion ≠ corpusVersion then
      .error (.snapshot "unsupported snapshot lock format")
    else .ok lock.sources

/-- One source of the lock against the extracted tree. Not every field of its entry is kept. -/
def validateRecord (tree : Tree) (staging : Path) (record : Record) : Except SnapshotError Entry :=
  let relative := record.entry.place
  let target := staging ++ relative
  if record.formatVersion ≠ formatVersion ∨ record.corpusVersion ≠ corpusVersion then
    .error (.snapshot "snapshot source record has an unsupported version")
  else if record.entry.path.head? = some '/' ∨ relative.any Archive.isParent ∨ relative = [] ∨
      asPosix relative ≠ record.entry.path then
    .error (.snapshot "invalid snapshot shelf path")
  else if Archive.isSymlink tree target ∨ FileTree.isDir tree target = false then
    .error (.verification "invalid imported source tree")
  else
    match codec.readValidManifest (shelfAt tree target) record.entry.shelf with
    | none => .error (.verification "invalid imported manifest")
    | some manifest =>
      if record.spec ≠ manifest.spec then .error (.verification "snapshot spec mismatch")
      else if record.versionSource ≠ manifest.versionSource then .error (.verification "snapshot version_source mismatch")
      else if record.artifactKind ≠ manifest.artifactKind then .error (.verification "snapshot artifact_kind mismatch")
      else if record.artifactChecksum ≠ manifest.artifactChecksum then
        .error (.verification "snapshot artifact_checksum mismatch")
      else if treeSha codec (shelfAt tree target) ≠ record.treeSha then .error (.verification "snapshot tree SHA mismatch")
      else
        .ok { name := record.entry.name
              host := record.entry.host
              owner := record.entry.owner
              repo := record.entry.repo
              commitSha := record.entry.commitSha
              path := record.entry.path
              fetchedAt := record.entry.fetchedAt
              verified := record.entry.verified }

/-- The file at the pointers' name. -/
def pointersAt (tree : Tree) (staging : Path) : Option (List Nat) :=
  match resolve tree (staging ++ [pointersName]) with
  | .ok place =>
    match tree.lookup place with
    | some (.file _ data) => some data
    | _ => none
  | .error _ => none

def isFile : Node → Bool
  | .file _ _ => true
  | _ => false

def isFolder : Node → Bool
  | .directory _ => true
  | _ => false

def validateMember (declared : List Path) (item : Path × Node) : Except SnapshotError Unit :=
  if item.1 = [pointersName] then
    if isFile item.2 then .ok () else .error (.verification "snapshot has invalid POINTERS.md")
  else if declared.any fun shelf => shelf <+: item.1 then .ok ()
  else if (declared.any fun shelf => item.1 <+: shelf) && isFolder item.2 then .ok ()
  else .error (.verification "snapshot archive member is not declared by corpus.lock")

def validateMembership (tree : Tree) (staging : Path) (records : List Record) : Except SnapshotError Unit :=
  (shelfAt tree staging).forM (validateMember (records.map fun record => record.entry.place))

/-- A copy of a directory with all that is below it; links are copied as links. -/
def copyTree (staged : Tree) (source destination : Path) : Run OsError Unit := fun tree =>
  match resolve staged source with
  | .error err => .error err tree
  | .ok place =>
    match FileTree.create (fun _ _ => true) destination ((staged.lookup place).getD FileTree.newDirectory) tree with
    | .error err changed => .error err changed
    | .ok _ changed => .ok () (changed ++ (below staged place).map fun item => (destination ++ item.1, item.2))

def installEntry (staged : Tree) (staging : Path) (entry : Entry) : Run OsError Unit := do
  FileTree.makeDirectories (fun _ _ => true) entry.place.dropLast.reverse
  copyTree staged (staging ++ entry.place) entry.place

/-- The corpus that the verified sources make. -/
def shelveImportedSources (occupied : Bool) (staged : Tree) (staging : Path) (entries : List Entry) :
    Except SnapshotError Corpus :=
  if occupied then .error (.fileExists "destination corpus is not empty")
  else
    match (KeyedList.sortBy (fun entry => [code entry.path]) entries).forM (installEntry staged staging) [] with
    | .error err _ => .error (.os err)
    | .ok _ installed =>
      match pointersAt staged staging with
      | none => .error (.value "snapshot is missing POINTERS.md")
      | some pointers =>
        if Archive.isSymlink staged (staging ++ [pointersName]) then .error (.value "snapshot is missing POINTERS.md")
        else
          match FileTree.create (fun _ _ => true) [pointersName] (.file 0o644 pointers) installed with
          | .error err _ => .error (.os err)
          | .ok _ tree => .ok { entries, tree }

/-- The checks of an extracted archive, before any of it is installed. -/
def validateStaged (tree : Tree) (staging : Path) (lock : Lock) (records : List Record) : Except SnapshotError (List Entry) := do
  match pointersAt tree staging with
  | none => .error (.verification "snapshot is missing valid POINTERS.md metadata")
  | some pointers =>
    if codec.sha256 pointers ≠ lock.pointersSha256 then .error (.verification "snapshot POINTERS.md checksum mismatch")
    else
      let entries ← records.mapM (validateRecord codec tree staging)
      if ¬ (entries.map fun entry => entry.path).Nodup then .error (.snapshot "snapshot contains duplicate shelf paths")
      else if entries.any fun left => entries.any fun right => left.place ≠ right.place ∧ left.place <+: right.place then
        .error (.snapshot "snapshot contains overlapping shelf paths")
      else
        let _ ← validateMembership tree staging records
        pure entries

/-- An import below a new directory of the host. -/
def importCorpus (allows : Tree → Path → Bool) (fuel : Nat) (host : Tree) (staging : Path) (occupied : Bool)
    (expectedLockSha256 : Option Name) (allowUnverifiedLock : Bool) (snapshot : Lock × List Member) :
    Except SnapshotError Corpus := do
  if expectedLockSha256 = none ∧ allowUnverifiedLock = false then
    .error (.verification "expected_lock_sha256 is required unless allow_unverified_lock=True")
  else
    let records ← loadLock codec snapshot.1 expectedLockSha256
    if isSha256 snapshot.1.tarballSha256 = false then .error (.verification "snapshot lock has no valid tarball_sha256")
    else if codec.sha256 (codec.tarballBytes snapshot.2) ≠ snapshot.1.tarballSha256 then
      .error (.verification "snapshot tarball SHA-256 mismatch")
    else
      match Archive.extractTarball allows staging fuel (some archiveRoot) snapshot.2 host with
      | .error err _ => .error (.extract err)
      | .ok _ tree => do
        let entries ← validateStaged codec tree staging snapshot.1 records
        shelveImportedSources occupied tree staging entries

end

end Leitir.Snapshot
