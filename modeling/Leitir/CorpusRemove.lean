import Leitir.CorpusAccounted
import Leitir.SnapshotDestination

namespace Leitir.Removal

open List

open FileTree (Node Tree OsError isDir isDirectory isParent resolve)
open Archive (Name Path)
open Shelf (ShelfRef code)
open Snapshot (Entry Unlinked)
open Corpus (ValueError targetPath isName isDots isSha1 slash)
open Search (chars)
open ExceptRun

def pathParts (text : Name) : Path := (text.splitOn '/').filter fun part => !FileTree.isCurrent part

def joinPath (base : Path) (text : Name) : Path :=
  if text.head? = some '/' then pathParts text else base ++ pathParts text

def hostPath (path : List Search.Text) : Path := path.map fun part => part.map Char.ofNat

def reposName : Name := "repos".toList

def goModuleZip : Name := "go-module-zip".toList

def gitlab : Name := "gitlab.com".toList

def probeSha : Name := List.replicate 40 '0'

def given (commitSha : Option Name) : Option Name := commitSha.filter fun commit => !commit.isEmpty

/-- The directory of a repository, and what is to be removed. -/
def removalPaths (root : Path) (owner repo : Name) (commitSha : Option Name) (host : Name) : Except ValueError (Path × Path) :=
  if host = goModuleZip then
    let repoPath := joinPath (root ++ [reposName, host]) owner
    pure (repoPath, joinPath repoPath repo)
  else do
    let path ← targetPath (ShelfRef.coded ⟨host, owner, repo, (given commitSha).getD probeSha⟩)
    let repoPath := root ++ (hostPath path).dropLast
    match given commitSha with
    | some commit => pure (repoPath, joinPath repoPath commit)
    | none => pure (repoPath, repoPath)

section

inductive Catalogue
  | absent
  | corrupt
  | listed (entries : List Entry)
deriving DecidableEq

/-- The files of the host, the catalogue of a corpus and what its pointers were made from. -/
structure Site where
  tree : Tree
  catalogue : Catalogue
  pointers : Option (List Entry)

inductive RemoveError
  | value (error : ValueError)
  | verification
  | os (error : OsError)
deriving DecidableEq

def loadSources : Catalogue → Except RemoveError (List Entry)
  | .absent => pure []
  | .corrupt => .error .verification
  | .listed entries => pure entries

-- Whether the host makes a directory that is asked for.
variable (allows : Tree → Path → Bool)

end

section

def projectParts (shelf : ShelfRef) : List Search.Text := shelf.coded.slug.splitOn slash

variable {shelf : ShelfRef} {path : List Search.Text}

/-- What is checked of an identity that has a path. -/
structure Accepted (shelf : ShelfRef) (path : List Search.Text) : Prop where
  host : shelf.coded.host ∈ Corpus.hosts
  commit : isSha1 shelf.coded.commit = true
  long : 2 ≤ (projectParts shelf).length
  two : shelf.coded.host ≠ chars "gitlab.com" → (projectParts shelf).length = 2
  names : ∀ part ∈ projectParts shelf, FileTree.isProper (part.map Char.ofNat) = true
  path_eq : path = if shelf.coded.host = chars "go-module-zip" then
    [chars "repos", shelf.coded.host, shelf.coded.owner, shelf.coded.commit]
    else chars "repos" :: shelf.coded.host :: projectParts shelf ++ [shelf.coded.commit]
  module : shelf.coded.host = chars "go-module-zip" → shelf.coded.repo = shelf.coded.commit

theorem proper_iff_ne {part : Name} : FileTree.isProper part = true ↔ part ≠ [] ∧ part ≠ ['.'] ∧ part ≠ ['.', '.'] := by
  simp [FileTree.isProper, FileTree.isCurrent, FileTree.isParent, and_assoc]

theorem hostPath_code (name : Name) : (code name).map Char.ofNat = name := by
  unfold code
  rw [map_map]
  exact (map_congr_left fun ch _ => Char.ofNat_toNat ch).trans (map_id name)

theorem code_inj {name other : Name} (h : code name = code other) : name = other := by
  rw [← hostPath_code name, h, hostPath_code]

theorem joinPath_name {base : Path} {name : Name} (hproper : FileTree.isProper name = true) (hslash : '/' ∉ name) :
    joinPath base name = base ++ [name] := by
  have hhead : name.head? ≠ some '/' := fun h => hslash (mem_of_mem_head? h)
  have hcurrent : FileTree.isCurrent name = false := (FileTree.proper_iff.mp hproper).1
  unfold joinPath pathParts
  rw [if_neg hhead, splitOn_eq_singleton hslash]
  simp [hcurrent]

theorem commit_name {commit : Name} (h : isSha1 (code commit) = true) : FileTree.isProper commit = true ∧ '/' ∉ commit := by
  unfold isSha1 at h
  rw [Bool.and_eq_true, decide_eq_true_iff, all_eq_true] at h
  have hlength : commit.length = 40 := by simpa [code] using h.1
  refine ⟨proper_iff_ne.mpr ⟨?_, ?_, ?_⟩, fun hslash => ?_⟩
  · rintro rfl
    cases hlength
  · rintro rfl
    cases hlength
  · rintro rfl
    cases hlength
  · exact absurd (h.2 _ (mem_map_of_mem hslash)) (by decide)

theorem Accepted.hostPath_eq (h : Accepted shelf path) (hgo : shelf.host ≠ goModuleZip) :
    hostPath path = reposName :: shelf.host :: hostPath (projectParts shelf) ++ [shelf.commit] := by
  have hcoded : shelf.coded.host ≠ chars "go-module-zip" := fun heq => hgo (code_inj heq)
  rw [h.path_eq, if_neg hcoded]
  unfold hostPath
  simp only [map_cons, map_append, map_nil, ShelfRef.coded, hostPath_code]
  rfl

theorem Accepted.host_proper (h : Accepted shelf path) : FileTree.isProper shelf.host = true := by
  have hall : ∀ host ∈ Corpus.hosts, FileTree.isProper (host.map Char.ofNat) = true := by decide
  have hhost := hall _ h.host
  rwa [ShelfRef.coded, hostPath_code] at hhost

def Relative (text : Name) : Prop := text.head? ≠ some '/' ∧ ∀ part ∈ pathParts text, isParent part = false

theorem Relative.proper {text : Name} (h : Relative text) : ∀ part ∈ pathParts text, FileTree.isProper part = true := by
  intro part hpart
  have hcurrent := (mem_filter.mp hpart).2
  rw [Bool.not_eq_true'] at hcurrent
  exact FileTree.proper_iff.mpr ⟨hcurrent, h.2 part hpart⟩

end

section

variable {tree after : Tree} {path root base : Path}

/-- What is lost on the way up a path: directories below a base with nothing left in them. -/
structure Pruned (base path : Path) (tree after : Tree) : Prop where
  kept : ∀ item ∈ after, item ∈ tree
  lost : ∀ item ∈ tree, item ∉ after → base <+: item.1 ∧ item.1 <+: path ∧ ∀ other ∈ after, ¬ item.1 <+: other.1

theorem Pruned.refl (base path : Path) (tree : Tree) : Pruned base path tree tree :=
  ⟨fun _ h => h, fun _ h hnot => absurd h hnot⟩

theorem Pruned.step {above pruned : Tree} {upper : Path} (hup : upper <+: path) (hbase : base <+: path)
    (hpruned : (pruned = tree.filter fun item => item.1 ≠ path) ∧ ∀ item ∈ tree, path <+: item.1 → item.1 = path)
    (habove : Pruned base upper pruned above) : Pruned base path tree above := by
  obtain ⟨rfl, hempty⟩ := hpruned
  refine ⟨fun item hitem => (mem_filter.mp (habove.kept item hitem)).1, fun item hitem hlost => ?_⟩
  by_cases hpath : item.1 = path
  · refine ⟨hpath ▸ hbase, hpath ▸ prefix_rfl, fun other hother hbelow => ?_⟩
    obtain ⟨hin, hne⟩ := mem_filter.mp (habove.kept other hother)
    exact absurd (hempty other hin (hpath ▸ hbelow)) (by simpa using hne)
  · obtain ⟨hlow, hhigh, hleft⟩ := habove.lost item (mem_filter.mpr ⟨hitem, by simpa using hpath⟩) hlost
    exact ⟨hlow, hhigh.trans hup, hleft⟩

def Adds (tree after : Tree) : Prop := ∃ more : Tree, after = tree ++ more ∧ ∀ item ∈ more, FileTree.isLink item.2 = false

theorem Adds.refl (tree : Tree) : Adds tree tree := ⟨[], (append_nil _).symm, by simp⟩

theorem Adds.trans {later : Tree} (h : Adds tree after) (hlater : Adds after later) : Adds tree later := by
  obtain ⟨more, rfl, hmore⟩ := h
  obtain ⟨rest, rfl, hrest⟩ := hlater
  refine ⟨more ++ rest, append_assoc .., fun item hitem => ?_⟩
  rcases mem_append.mp hitem with hitem | hitem
  · exact hmore item hitem
  · exact hrest item hitem

theorem Adds.unlinked (h : Adds tree after) (hlinks : Unlinked tree path) : Unlinked after path := by
  obtain ⟨more, rfl, hmore⟩ := h
  intro item hitem hp
  rcases mem_append.mp hitem with hitem | hitem
  · exact hlinks item hitem hp
  · exact hmore item hitem

end

section

variable {allows : Tree → Path → Bool} {root rest more : Path} {owner repo host : Name} {commitSha : Option Name}
  {site after : Site} {existed : Bool}

def Catalogue.entries : Catalogue → List Entry
  | .listed entries => entries
  | _ => []

def sampleCommit : Name := List.replicate 40 '7'

def sampleShelf : Path := ["c".toList, reposName, "github.com".toList, "a".toList, "b".toList, sampleCommit]

def sampleEntry : Entry := ⟨"b".toList, "github.com".toList, "a".toList, "b".toList, sampleCommit, [], [], none, none⟩

end

end Leitir.Removal
