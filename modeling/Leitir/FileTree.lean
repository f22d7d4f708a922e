import Mathlib.Data.List.Infix
import Mathlib.Data.List.Nodup
import Leitir.LawfulLists

namespace FileTree

abbrev Name := List Char

abbrev Path := List Name

def isCurrent (part : Name) : Bool := part = [] || part = ['.']

def isParent (part : Name) : Bool := part = ['.', '.']

def isProper (part : Name) : Bool := !isCurrent part && !isParent part

inductive Node
  | directory (mode : Nat)
  | file (mode : Nat) (data : List Nat)
  | link (target : Name)
deriving DecidableEq

abbrev Tree := List (Path × Node)

inductive OsError
  | missing | exists_ | notDirectory | notFile | loop | denied
deriving DecidableEq, Repr

section

variable (tree : Tree)

def isDirectory (place : Path) : Bool :=
  place = [] ||
    match tree.lookup place with
    | some (.directory _) => true
    | _ => false

def start (place : Path) (target : Name) : Path := if target.head? = some '/' then [] else place

def components (target : Name) : Path := target.splitOn '/'

/-- The host follows a path from a directory; at a link it goes on with the target. -/
def walkWith (next : Path → Path → Except OsError Path) : Path → Path → Except OsError Path
  | place, [] => .ok place
  | place, part :: rest =>
    if isDirectory tree place = false then .error .notDirectory
    else if isCurrent part then walkWith next place rest
    else if isParent part then walkWith next place.dropLast rest
    else
      match tree.lookup (place ++ [part]) with
      | none => .error .missing
      | some (.link target) => next (start place target) (components target ++ rest)
      | some _ => walkWith next (place ++ [part]) rest

def walk : Nat → Path → Path → Except OsError Path
  | 0 => walkWith tree fun _ _ => .error .loop
  | links + 1 => walkWith tree (walk links)

def maxLinks : Nat := 40

def resolve (path : Path) : Except OsError Path := walk tree maxLinks [] path

/-- The canonical form of a path, as far as it goes: links are followed, the rest is kept. A link whose target leads back to
itself ends the search. -/
def realWith (next : List Path → Path → Path → Path × Bool) (active : List Path) : Path → Path → Path × Bool
  | place, [] => (place, true)
  | place, part :: rest =>
    if isCurrent part then realWith next active place rest
    else if isParent part then realWith next active place.dropLast rest
    else
      match tree.lookup (place ++ [part]) with
      | some (.link target) =>
        if place ++ [part] ∈ active then (place ++ part :: rest, false)
        else
          match next ((place ++ [part]) :: active) (start place target) (components target) with
          | (found, true) => realWith next active found rest
          | (found, false) => (found ++ rest, false)
      | _ => realWith next active (place ++ [part]) rest

def real : Nat → List Path → Path → Path → Path × Bool
  | 0 => realWith tree fun _ place rest => (place ++ rest, false)
  | depth + 1 => realWith tree (real depth)

def normalize (path : Path) : Path :=
  path.foldl (fun place part => if isCurrent part then place else if isParent part then place.dropLast else place ++ [part]) []

def isLink : Node → Bool
  | .link _ => true
  | _ => false

def linkPlaces : List Path := (tree.filter fun entry => isLink entry.2).map Prod.fst

/-- No search goes deeper than there are links. -/
def realpath (path : Path) : Path :=
  match real tree ((linkPlaces tree).length + 1) [] [] path with
  | (found, true) => found
  | (found, false) => normalize found

end

section

abbrev Run (ε : Type) := EStateM ε Tree

-- Whether the host makes a new entry in a directory: it may refuse one at any time.
variable (allows : Tree → Path → Bool)

/-- The mode of a directory lets its owner make an entry, or not. -/
def permits (mayWrite : Nat → Bool) (tree : Tree) (place : Path) : Bool :=
  match tree.lookup place with
  | some (.directory mode) => mayWrite mode
  | _ => true

/-- A new entry of a directory. -/
def create (path : Path) (node : Node) : Run OsError Unit := fun tree =>
  match path.getLast? with
  | none => .error .exists_ tree
  | some name =>
    match resolve tree path.dropLast with
    | .error err => .error err tree
    | .ok place =>
      if isDirectory tree place = false then .error .notDirectory tree
      else if isProper name = false ∨ (tree.lookup (place ++ [name])).isSome then .error .exists_ tree
      else if allows tree place = false then .error .denied tree
      else .ok () (tree ++ [(place ++ [name], node)])

def isDir (tree : Tree) (path : Path) : Bool :=
  match resolve tree path with
  | .ok place => isDirectory tree place
  | .error _ => false

def newDirectory : Node := .directory 0o755

def makeDirectory (path : Path) : Run OsError Unit := fun tree =>
  match create allows path newDirectory tree with
  | .ok _ changed => .ok () changed
  | .error err changed => if isDir tree path then .ok () changed else .error err changed

/-- A directory and those above it, from the last name to the first. -/
def makeDirectories : List Name → Run OsError Unit
  | [] => fun tree => .ok () tree
  | name :: above => fun tree =>
    match create allows (name :: above).reverse newDirectory tree with
    | .ok _ changed => .ok () changed
    | .error .missing _ =>
      match makeDirectories above tree with
      | .ok _ changed => makeDirectory allows (name :: above).reverse changed
      | .error err changed => .error err changed
    | .error err changed => if isDir tree (name :: above).reverse then .ok () changed else .error err changed

def replace (tree : Tree) (place : Path) (node : Node) : Tree :=
  tree.map fun entry => if entry.1 = place then (place, node) else entry

def withMode (mode : Nat) : Node → Node
  | .directory _ => .directory mode
  | .file _ data => .file mode data
  | .link target => .link target

/-- The node that a path leads to is changed. -/
def change (path : Path) (update : Node → Node) : Run OsError Unit := fun tree =>
  match resolve tree path with
  | .error err => .error err tree
  | .ok place =>
    match tree.lookup place with
    | none => .error .missing tree
    | some node => .ok () (replace tree place (update node))

def chmod (path : Path) (mode : Nat) : Run OsError Unit := change path (withMode mode)

def withData (data : List Nat) : Node → Node
  | .file mode _ => .file mode data
  | other => other

def writeData (path : Path) (data : List Nat) : Run OsError Unit := change path (withData data)

/-- A second name for a file. -/
def hardLink (source path : Path) : Run OsError Unit := fun tree =>
  match resolve tree source with
  | .error err => .error err tree
  | .ok place =>
    match tree.lookup place with
    | some (.file mode data) => create allows path (.file mode data) tree
    | _ => .error .notFile tree

end

end FileTree
