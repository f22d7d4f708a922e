import Leitir.ArchiveWalk
import Leitir.FileTree

namespace Leitir.Archive

open FileTree

open FileTree (Node Tree Run OsError realpath)

inductive Kind
  | directory | regular | symbolicLink | hardLink | special
deriving DecidableEq, Repr

/-- A member of an archive. -/
structure Member where
  name : Name
  kind : Kind
  mode : Nat
  size : Int
  data : List Nat
  linkname : Name
deriving DecidableEq

inductive ExtractError
  | unsafeArchive (message : String)
  | os (error : OsError)
  | endless
deriving DecidableEq

def archiveMaxMembers : Nat := 500000

def archiveMaxMemberBytes : Int := 1024 * 1024 * 1024

def archiveMaxTotalBytes : Int := 4 * 1024 * 1024 * 1024

def manifestName : Name := "leitir-manifest.json".toList

def archivePath (name : Name) : Except String Path :=
  if name = [] ∨ '\\' ∈ name then .error "invalid archive member path"
  else if name.head? = some '/' ∨ (parts name).any isParent then .error "archive member escapes its target"
  else if parts name = [] then .error "invalid archive member path"
  else .ok (parts name)

def strippedMemberPath (name expectedRoot : Name) : Except String (Option Path) := do
  let path ← archivePath name
  if path.head? ≠ some expectedRoot then .error "archive does not have the expected single top-level directory"
  else pure (if path.tail = [] then none else some path.tail)

def hardlinkPath (linkname expectedRoot : Name) : Except String Path := do
  let path ← archivePath linkname
  if path.head? ≠ some expectedRoot ∨ path.tail = [] then .error "hard link escapes its target" else pure path.tail

/-- A member with its path; the target of a symbolic link has passed its check. -/
structure PlannedMember where
  member : Member
  path : Option Path
  checked : member.kind = .symbolicLink → ∀ p, path = some p → symlinkDestination p member.linkname = .ok ()

def PlannedMember.planned (item : PlannedMember) : Planned where
  issym := item.member.kind = .symbolicLink
  path := item.path
  linkname := item.member.linkname
  checked := fun h => item.checked (of_decide_eq_true h)

structure Planning where
  expectedRoot : Option Name
  planned : List PlannedMember := []
  seen : List Path := []
  totalSize : Int := 0

/-- The top of the archive: given, or that of the first member. -/
def Planning.root (planning : Planning) (name : Name) : Except String Name :=
  match planning.expectedRoot with
  | some root => .ok root
  | none => do
    let path ← archivePath name
    pure (path.headD [])

def checkPath (planning : Planning) (member : Member) : Option Path → Except String Unit
  | none => if member.kind = .directory then .ok () else .error "archive top-level member is not a directory"
  | some path =>
    if path = [manifestName] then .error "archive contains Leitir's reserved manifest path"
    else if path ∈ planning.seen then .error "archive contains duplicate member paths"
    else .ok ()

/-- The checks of the targets of links. -/
def planMember (member : Member) (path : Option Path) (root : Name) : Except String PlannedMember :=
  if member.kind = .special then .error "archive contains a device or other special file"
  else if hsym : member.kind = .symbolicLink then
    match path with
    | none => .ok ⟨member, none, fun _ _ h => by cases h⟩
    | some p =>
      match hdestination : symlinkDestination p member.linkname with
      | .error message => .error message
      | .ok () => .ok ⟨member, some p, fun _ _ h => by cases h; exact hdestination⟩
  else do
    if member.kind = .hardLink then
      let _ ← hardlinkPath member.linkname root
      pure ⟨member, path, fun h => absurd h hsym⟩
    else pure ⟨member, path, fun h => absurd h hsym⟩

def planNext (planning : Planning) (member : Member) : Except String Planning :=
  if archiveMaxMembers ≤ planning.planned.length then .error "archive contains too many members"
  else if member.size < 0 ∨ archiveMaxMemberBytes < member.size then .error "archive member exceeds size limit"
  else if archiveMaxTotalBytes < planning.totalSize + member.size then .error "archive exceeds total size limit"
  else do
    let root ← planning.root member.name
    let path ← strippedMemberPath member.name root
    let _ ← checkPath planning member path
    let item ← planMember member path root
    pure { expectedRoot := some root
           planned := planning.planned ++ [item]
           seen := planning.seen ++ path.toList
           totalSize := planning.totalSize + member.size }

def planMembers (archiveRoot : Option Name) (members : List Member) : Except String Planning := do
  let planning ← members.foldlM planNext { expectedRoot := archiveRoot }
  if planning.planned = [] then .error "archive is empty" else pure planning

section

variable (allows : Tree → FileTree.Path → Bool) (destination root : FileTree.Path)

abbrev Extract := Run ExtractError

def fail {α : Type} (message : String) : Extract α := fun tree => .error (.unsafeArchive message) tree

def host {α : Type} (run : Run OsError α) : Extract α := fun tree =>
  match run tree with
  | .ok a changed => .ok a changed
  | .error err changed => .error (.os err) changed

def assertConfined (output : Path) : Extract Unit := fun tree =>
  if root <+: realpath tree output then .ok () tree else .error (.unsafeArchive escapes) tree

def makeParents (output : Path) : Extract Unit := host (makeDirectories allows output.dropLast.reverse)

def openNewRegularFile (output : Path) : Extract Unit := do
  host (create allows output (.file 0o600 []))
  assertConfined root output

def extractDirectory (output : Path) (mode : Nat) : Extract Unit := do
  assertConfined root output
  host (makeDirectories allows output.reverse)
  host (chmod output mode)

def extractFile (output : Path) (mode : Nat) (data : List Nat) : Extract Unit := do
  assertConfined root output
  makeParents allows output
  assertConfined root output
  openNewRegularFile allows root output
  host (writeData output data)
  host (chmod output mode)

/-- Directories and files are made first. -/
def extractPlain (item : PlannedMember) : Extract Unit :=
  match item.path, item.member.kind with
  | some path, .directory => extractDirectory allows root (destination ++ path) (item.member.mode % 0o1000)
  | some path, .regular => extractFile allows root (destination ++ path) (item.member.mode % 0o1000) item.member.data
  | _, _ => pure ()

def regularPaths (planned : List PlannedMember) : List Path :=
  planned.filterMap fun item => if item.member.kind = .regular then item.path else none

def extractHardLink (expectedRoot : Name) (regular : List Path) (item : PlannedMember) : Extract Unit :=
  match item.path, item.member.kind with
  | some path, .hardLink =>
    match hardlinkPath item.member.linkname expectedRoot with
    | .error message => fail message
    | .ok linked => do
      if linked ∉ regular then fail "hard link does not target a regular archive member"
      else do
        assertConfined root (destination ++ path)
        makeParents allows (destination ++ path)
        assertConfined root (destination ++ path)
        host (hardLink allows (destination ++ linked) (destination ++ path))
  | _, _ => pure ()

def extractSymlink (item : PlannedMember) : Extract Unit :=
  match item.path, item.member.kind with
  | some path, .symbolicLink => do
    assertConfined root (destination ++ path)
    makeParents allows (destination ++ path)
    assertConfined root (destination ++ path)
    host (create allows (destination ++ path) (.link item.member.linkname))
  | _, _ => pure ()

/-- The last name of the path is that of a link. -/
def isSymlink (tree : Tree) (path : Path) : Bool :=
  match path.getLast?, resolve tree path.dropLast with
  | some name, .ok place =>
    match tree.lookup (place ++ [name]) with
    | some (.link _) => true
    | _ => false
  | _, _ => false

def checkResolved (item : PlannedMember) : Extract Unit := fun tree =>
  match item.path with
  | none => .ok () tree
  | some path =>
    if isSymlink tree (destination ++ path) ∧ ¬ root <+: realpath tree (destination ++ path) then .error (.unsafeArchive escapes) tree
    else .ok () tree

/-- The links are checked before anything is made; the check may not end. -/
def validateLinks (fuel : Nat) (planned : List PlannedMember) : Extract Unit := fun tree =>
  match validatePlannedSymlinks fuel (planned.map PlannedMember.planned) with
  | none => .error .endless tree
  | some (.error message) => .error (.unsafeArchive message) tree
  | some (.ok ()) => .ok () tree

/-- The members in their three groups; last the links are looked at again. -/
def extractPlanned (planning : Planning) : Extract Unit := do
  planning.planned.forM (extractPlain allows destination root)
  planning.planned.forM
    (extractHardLink allows destination root (planning.expectedRoot.getD []) (regularPaths planning.planned))
  planning.planned.forM (extractSymlink allows destination root)
  planning.planned.forM (checkResolved destination root)

/-- Extraction of an archive below a directory. -/
def extractTarball (fuel : Nat) (archiveRoot : Option Name) (members : List Member) : Extract Unit :=
  match planMembers archiveRoot members with
  | .error message => fail message
  | .ok planning => do
    validateLinks fuel planning.planned
    host (makeDirectories allows destination.reverse)
    let tree ← get
    extractPlanned allows destination (realpath tree destination) planning

end

end Leitir.Archive
