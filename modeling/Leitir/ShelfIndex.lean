import Leitir.CorpusSearch
import Leitir.Grouping
import Leitir.JsonShape
import Leitir.Sha

namespace Leitir.Shelf

open Json ExceptRun

abbrev Bytes := List Nat

/-- What is raised: a failed verification, a value that is refused, or a key that is missing. -/
inductive IndexError
  | verification (message : String)
  | value (message : String)
  | missingKey
deriving DecidableEq, Repr

def code (text : Text) : List Nat := text.map Char.toNat

structure ShelfRef where
  host : Text
  owner : Text
  repo : Text
  commit : Text
deriving DecidableEq

def ShelfRef.coded (shelf : ShelfRef) : Corpus.ShelfRef :=
  ⟨code shelf.host, code shelf.owner, code shelf.repo, code shelf.commit⟩

inductive Node
  | directory
  | file (data : Bytes)
  | link (text : Bytes)
  | special
deriving DecidableEq

/-- What Git keeps of a node: the text of a link, the octets of a file. -/
def Node.data : Node → Bytes
  | .file data => data
  | .link text => text
  | .directory | .special => []

def isComponent (part : Text) : Bool :=
  part ≠ [] && part ≠ ['.'] && part ≠ ['.', '.'] && !part.contains '/' && !part.contains '\x00'

/-- What is found below the directory of a shelf. -/
structure Tree where
  entries : List (List Text × Node)
  distinct : (entries.map Prod.fst).Nodup
  named : ∀ entry ∈ entries, entry.1 ≠ [] ∧ ∀ part ∈ entry.1, isComponent part = true
  parents : ∀ entry ∈ entries, ∀ before after, entry.1 = before ++ after → before ≠ [] → after ≠ [] →
    (before, Node.directory) ∈ entries
  octets : ∀ entry ∈ entries, ∀ octet ∈ entry.2.data, octet < 256

def Tree.node (tree : Tree) (path : List Text) : Option Node := tree.entries.lookup path

def asPosix (path : List Text) : Text := [ '/' ].intercalate path

def posixParts (relative : Text) : List Text :=
  (relative.splitOn '/').filter fun part => part ≠ [] && part ≠ ['.']

def manifestName : Text := "leitir-manifest.json".toList

def readRegular (tree : Tree) (path : List Text) : Except IndexError Bytes :=
  match tree.node path with
  | some (.file data) => .ok data
  | some _ => .error (.verification "index artifact is not a regular file")
  | none => .error (.verification "cannot safely read index artifact")

/-- Every parent of a source is a directory, never a link to one. -/
def checkParents (tree : Tree) : List Text → List Text → Except IndexError Unit
  | _, [] => .ok ()
  | done, component :: rest =>
    match tree.node (done ++ [component]) with
    | some .directory => checkParents tree (done ++ [component]) rest
    | some _ => .error (.verification "indexed source parent is not a directory")
    | none => .error (.verification "cannot read indexed source")

def readSourceBlob (tree : Tree) (relative : Text) : Except IndexError Bytes :=
  let parts := posixParts relative
  if parts = [] ∨ relative.head? = some '/' ∨ ['.', '.'] ∈ parts then
    .error (.verification "unsafe indexed source path")
  else do
    checkParents tree [] parts.dropLast
    match tree.node parts with
    | none => .error (.verification "cannot read indexed source")
    | some (.link text) => .ok text
    | some _ => readRegular tree parts

structure IndexDocument where
  host : Text
  owner : Text
  repo : Text
  commit : Text
  path : Text
  blobSha : Text
  size : Nat
deriving DecidableEq

def IndexDocument.identity (document : IndexDocument) : KeyedList.Key :=
  [code document.host, code document.owner, code document.repo, code document.commit, code document.path,
    code document.blobSha]

def gitBlobSha (data : Bytes) : Text :=
  Sha1.hexdigest (code ("blob ".toList ++ Nat.toDigits 10 data.length) ++ 0 :: data)

def documentOf (shelf : ShelfRef) (relative : Text) (data : Bytes) : IndexDocument :=
  ⟨shelf.host, shelf.owner, shelf.repo, shelf.commit, relative, gitBlobSha data, data.length⟩

def readRecords (tree : Tree) (shelf : ShelfRef) : List (List Text × Node) →
    Except IndexError (List (IndexDocument × Bytes))
  | [] => .ok []
  | (path, node) :: rest =>
    if path = [manifestName] ∨ node = .directory then readRecords tree shelf rest
    else if node = .special then
      .error (.verification ("source tree contains unsafe index document: " ++ String.ofList (asPosix path)))
    else do
      let data ← readSourceBlob tree (asPosix path)
      let others ← readRecords tree shelf rest
      pure ((documentOf shelf (asPosix path) data, data) :: others)

def sourceDocuments (tree : Tree) (shelf : ShelfRef) : Except IndexError (List (IndexDocument × Bytes)) := do
  let records ← readRecords tree shelf (KeyedList.sortBy (fun entry => [code (asPosix entry.1)]) tree.entries)
  pure (KeyedList.sortBy (fun record => record.1.identity) records)

abbrev Postings := List (String × List Nat)

def hexGram (gram : Bytes) : String := String.ofList (gram.flatMap Sha1.hexOctet)

def addDocument (table : Postings) (entry : Bytes × Nat) : Postings :=
  (Search.iterTrigrams entry.1).foldl (fun table gram => Grouping.append table (hexGram gram) entry.2) table

def buildPostings (documents : List Bytes) : Postings :=
  (documents.zipIdx.foldl addDocument []).insertionSort fun a b => a.1 ≤ b.1

def schemaVersion : Value := .int 1

def documentValue (document : IndexDocument) : Value :=
  .obj [("blob_sha", .str document.blobSha), ("commit", .str document.commit), ("host", .str document.host),
    ("owner", .str document.owner), ("path", .str document.path), ("repo", .str document.repo),
    ("size", .int document.size)]

def documentsValue (documents : List IndexDocument) : Value := .arr (documents.map documentValue)

def postingsValue (postings : Postings) : Value :=
  .obj (postings.map fun entry => (entry.1, .arr (entry.2.map fun id : Nat => .int id)))

def indexValue (documents : List IndexDocument) (postings : Postings) : Value :=
  .obj [("documents", documentsValue documents), ("postings", postingsValue postings),
    ("schema_version", schemaVersion)]

def canonicalJson (value : Value) : Bytes := Utf8.encodeText (dumps value ++ ['\n'])

def digest (value : Value) : Text := Sha256.hexdigest (canonicalJson value)

def identityShape : Shape ShelfRef :=
  recordShape ["host", "owner", "repo", "commit"]
    (fun shelf => [⟨"host", _, textShape, shelf.host⟩, ⟨"owner", _, textShape, shelf.owner⟩,
      ⟨"repo", _, textShape, shelf.repo⟩, ⟨"commit", _, textShape, shelf.commit⟩])
    (fun fields => do
      let host ← field fields "host" textShape
      let owner ← field fields "owner" textShape
      let repo ← field fields "repo" textShape
      let commit ← field fields "commit" textShape
      some ⟨host, owner, repo, commit⟩)

structure BuildParameters where
  gramBytes : Nat
  pathEncoding : Text
deriving DecidableEq

def buildParametersShape : Shape BuildParameters :=
  recordShape ["gram_bytes", "path_encoding"]
    (fun parameters => [⟨"gram_bytes", _, natShape, parameters.gramBytes⟩,
      ⟨"path_encoding", _, textShape, parameters.pathEncoding⟩])
    (fun fields => do
      let gramBytes ← field fields "gram_bytes" natShape
      let pathEncoding ← field fields "path_encoding" textShape
      some ⟨gramBytes, pathEncoding⟩)

def buildParameters : BuildParameters := ⟨3, "utf-8".toList⟩

structure SourceManifest where
  source : Option Text
  parity : Option Text
  treeHashScope : Option Text
  treeHash : Text
deriving DecidableEq

def requireEligible (manifest : SourceManifest) : Except IndexError Unit :=
  if manifest.source = some "git-commit".toList ∧ manifest.parity = some "exact".toList ∧
      manifest.treeHashScope = some "full".toList then .ok ()
  else .error (.verification "materialized shelf is not eligible for indexed search")

def metadataValue (shelf : ShelfRef) (manifest : SourceManifest) (manifestBytes : Bytes) (documents : List IndexDocument)
    (postings : Postings) : Value :=
  let indexBytes := canonicalJson (indexValue documents postings)
  .obj [("build_parameters", buildParametersShape.encode buildParameters),
    ("document_table_sha256", .str (digest (documentsValue documents))), ("index_byte_length", .int indexBytes.length),
    ("index_sha256", .str (Sha256.hexdigest indexBytes)), ("postings_sha256", .str (digest (postingsValue postings))),
    ("schema_version", schemaVersion), ("shelf", identityShape.encode shelf),
    ("source_manifest_sha256", .str (Sha256.hexdigest manifestBytes)), ("source_tree_hash", .str manifest.treeHash)]

section

def parseJson (data : Bytes) : Option Value := (Utf8.decodeText data).bind loads

def Value.isVersion : Value → Bool
  | .int value => value = 1
  | .bool value => value
  | _ => false

def Value.get (value : Value) (name : String) : Option Value :=
  match value with
  | .obj fields => fields.lookup name
  | _ => none

def Value.isObject : Value → Bool
  | .obj _ => true
  | _ => false

def isAbout (shelf : ShelfRef) (item : Value) : Bool := ((Value.get item "shelf").bind identityShape.decode) = some shelf

def catalogueEntry (shelf : ShelfRef) (indexSha : Text) : Value :=
  .obj [("index_sha256", .str indexSha), ("shelf", identityShape.encode shelf)]

variable (textOf : Value → Text)

/-- The text of a value; texts stand for themselves. -/
def Value.text : Value → Text
  | .str text => text
  | value => textOf value

def catalogueKey (item : Value) : Option KeyedList.Key := do
  let identity ← Value.get item "shelf"
  ["host", "owner", "repo", "commit"].mapM fun name =>
    (Value.get identity name).map fun value => code (Value.text textOf value)

/-- The entries of the catalogue that is there already. -/
def catalogueShelves : Option Bytes → Except IndexError (List Value)
  | none => .ok []
  | some data =>
    match parseJson data with
    | none => .error (.verification "cannot read top-level index manifest")
    | some payload =>
      match Value.get payload "schema_version", Value.get payload "shelves" with
      | some version, some (.arr items) =>
        if Value.isVersion version then .ok (items.filter Value.isObject)
        else .error (.verification "unsupported or malformed top-level index manifest")
      | _, _ => .error (.verification "unsupported or malformed top-level index manifest")

def catalogueValue (entries : List Value) : Value := .obj [("schema_version", schemaVersion), ("shelves", .arr entries)]

def updateCatalog (catalogue : Option Bytes) (shelf : ShelfRef) (indexSha : Text) : Except IndexError Bytes := do
  let shelves ← catalogueShelves catalogue
  let entries := shelves.filter (fun item => !isAbout shelf item) ++ [catalogueEntry shelf indexSha]
  if entries.all fun item => (catalogueKey textOf item).isSome then
    pure (canonicalJson (catalogueValue
      (KeyedList.sortBy (fun item => (catalogueKey textOf item).getD []) entries)))
  else .error .missingKey

end

section

structure StoredShelf where
  index : Bytes
  manifest : Bytes

/-- The files of the index. -/
structure Store where
  catalogue : Option Bytes
  shelves : ShelfRef → Option StoredShelf

/-- The materialized shelves, with what the verification of their manifests gives. -/
structure Materialized where
  tree : ShelfRef → Tree
  readValidManifest : ShelfRef → Option SourceManifest
  linked : ShelfRef → Bool

variable (corpus : Materialized) (textOf : Value → Text) (shelf : ShelfRef) (store : Store)

def targetPath : Except IndexError (List Search.Text) :=
  match Corpus.targetPath shelf.coded with
  | .ok path => .ok path
  | .error error => .error (.value error.message)

def verifiedManifest : Except IndexError SourceManifest :=
  match corpus.readValidManifest shelf with
  | none => .error (.verification "materialized shelf failed load-time verification")
  | some manifest => .ok manifest

def indexShelfPath : Except IndexError Unit :=
  if corpus.linked shelf then .error (.verification "index path contains a symbolic link") else .ok ()

/-- The index of a shelf is written, and then entered into the catalogue. -/
def buildShelfIndex : Except IndexError Store := do
  let _ ← targetPath shelf
  let manifest ← verifiedManifest corpus shelf
  requireEligible manifest
  let records ← sourceDocuments (corpus.tree shelf) shelf
  let documents := records.map Prod.fst
  let postings := buildPostings (records.map Prod.snd)
  let indexBytes := canonicalJson (indexValue documents postings)
  let manifestBytes ← readRegular (corpus.tree shelf) [manifestName]
  indexShelfPath corpus shelf
  let catalogue ← updateCatalog textOf store.catalogue shelf (Sha256.hexdigest indexBytes)
  pure {
    catalogue := some catalogue
    shelves := Function.update store.shelves shelf
      (some ⟨indexBytes, canonicalJson (metadataValue shelf manifest manifestBytes documents postings)⟩) }

end

end Leitir.Shelf
