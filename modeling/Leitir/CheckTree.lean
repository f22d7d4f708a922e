import Leitir.KeyedList
import Leitir.UsageResolver

namespace Leitir.Check

open Usage (Text CodeReference UnresolvedState)

abbrev Dotted := List Text

/-- Imports of a module, wherever they stand in it. -/
inductive Import
  | plain (names : List (Dotted × Option Text))
  | fromModule (source : Option Dotted) (level : Nat) (names : List (Text × Option Text))

/-- A name in a module, with the attributes that are read from it, one from the other. -/
structure NameNode where
  id : Text
  line : Nat
  col : Nat
  attributes : List Text
deriving DecidableEq

/-- An import among the statements of the module itself, and where it ends. -/
structure TopImport where
  endLine : Nat
  endCol : Nat
  item : Import

/-- A parsed module: its imports and its names, in the order of a walk over all nodes. -/
structure SyntaxTree where
  imports : List Import
  names : List NameNode
  body : List TopImport := []

/-- One binding of a local name: what it is bound to, whether that is a module, and the module that it needs. -/
structure ProviderBinding where
  local_ : Text
  qualified : Dotted
  isModule : Bool
  required : Dotted
deriving DecidableEq

def Import.bindings (importRoots : List Text) : Import → List ProviderBinding
  | .plain names => (names.filter fun (name, _) => name.head?.any (· ∈ importRoots)).map fun (name, asname) =>
      match asname with
      | some given => ⟨given, name, true, name⟩
      | none => ⟨name.headD [], [name.headD []], true, name⟩
  | .fromModule (some source) 0 names =>
    if source.head?.any (· ∈ importRoots) then
      (names.filter fun (name, _) => name ≠ ['*']).map fun (name, asname) =>
        ⟨asname.getD name, source ++ [name], false, source⟩
    else []
  | .fromModule _ _ _ => []

/-- The bindings of local names; a name that is bound in two ways is ambiguous. -/
structure ImportTable where
  bindings : Text → Option (Dotted × Bool) := fun _ => none
  required : Text → List Dotted := fun _ => []
  ambiguous : List Text := []

def ImportTable.record (table : ImportTable) (binding : ProviderBinding) : ImportTable where
  bindings := Function.update table.bindings binding.local_ (some (binding.qualified, binding.isModule))
  required := Function.update table.required binding.local_ (binding.required :: table.required binding.local_)
  ambiguous :=
    match table.bindings binding.local_ with
    | some value => if value ≠ (binding.qualified, binding.isModule) then binding.local_ :: table.ambiguous else table.ambiguous
    | none => table.ambiguous

/-- The table of a module. With known modules, a name is kept only if all modules that it needs are among them. -/
def buildImportTable (tree : SyntaxTree) (importRoots : List Text) : ImportTable :=
  (tree.imports.flatMap fun item => item.bindings importRoots).foldl ImportTable.record {}

def ImportTable.lookup (table : ImportTable) (modules : Option (List Dotted)) (name : Text) : Option (Dotted × Bool) :=
  if name ∈ table.ambiguous then none
  else if modules.any fun modules => (table.required name).any fun required => required ∉ modules then none
  else table.bindings name

def ImportTable.symbolAlias (table : ImportTable) (modules : Option (List Dotted)) (name : Text) : Option Dotted :=
  match table.lookup modules name with
  | some (qualified, false) => some qualified
  | _ => none

def ImportTable.moduleName (table : ImportTable) (modules : Option (List Dotted)) (name : Text) : Option Dotted :=
  match table.lookup modules name with
  | some (qualified, true) => some qualified
  | _ => none

def findNameNode (tree : SyntaxTree) (line col : Nat) : Option NameNode :=
  tree.names.find? fun node => node.line = line && node.col = col

/-- The symbol that a reference names, if it can be recovered. -/
structure Candidate where
  symbol : Option Text
  reason : String
  qualified : Option Dotted := none
  binding : Option Dotted := none
deriving DecidableEq

def candidateForReference (tree : SyntaxTree) (table : ImportTable) (modules : Option (List Dotted))
    (reference : CodeReference) : Candidate :=
  match findNameNode tree reference.span.startLine reference.span.startCol with
  | none => { symbol := none, reason := "module reference (symbol site not statically located)" }
  | some node =>
    match (table.symbolAlias modules node.id).or (table.moduleName modules node.id) with
    | none => { symbol := none, reason := "provider binding is not statically recovered" }
    | some binding =>
      if node.attributes = [] ∧ table.symbolAlias modules node.id = none then
        { symbol := none, reason := "module reference (no attribute access)" }
      else
        { symbol := some ((binding ++ node.attributes).getLastD [])
          reason := "qualified import binding"
          qualified := some (binding ++ node.attributes)
          binding := some binding }

theorem candidateForReference_symbol (tree : SyntaxTree) (table : ImportTable) (modules : Option (List Dotted))
    (reference : CodeReference) : (candidateForReference tree table modules reference).symbol =
      (candidateForReference tree table modules reference).qualified.map fun name => name.getLastD [] := by
  unfold candidateForReference
  split
  next => rfl
  next =>
    split
    next => rfl
    next =>
      split
      next => rfl
      next => rfl

/-- What the static resolver reports of a consumer. -/
structure ResolverResult where
  references : List CodeReference
  records : List (Text × UnresolvedState)
  exclusions : List Text

/-- The sites that there are: references, files that were not resolved, and files that were left out. -/
def ResolverResult.siteCount (result : ResolverResult) : Nat :=
  result.references.length + (result.records.filter fun record => record.2 ≠ .resolved).length + result.exclusions.length

def fileMark : Text := "<file>".toList

def moduleMark : Text := "<module>".toList

/-- A symbol of an index. Its name is the last part of its qualified name. -/
structure ApiSymbol where
  name : Text
  qualifiedName : Dotted
  module : Dotted := []
  named : qualifiedName.getLast? = some name
deriving DecidableEq

structure ModuleRecord where
  name : Dotted
  path : List Text
deriving DecidableEq

structure ApiIndex where
  modules : List ModuleRecord
  symbols : List ApiSymbol

/-- The index has no module of the language. -/
inductive CheckIndexError
  | empty
deriving DecidableEq, Repr

def requireCheckableIndex (index : ApiIndex) : Except CheckIndexError Unit :=
  if index.modules = [] then .error .empty else .ok ()

def codePoints (text : Text) : List Nat := text.map Char.toNat

def sortedTexts (texts : List Text) : List Text := KeyedList.sortBy (fun text => [codePoints text]) texts

def sortedNames (names : List Dotted) : List Dotted :=
  KeyedList.sortBy (fun name => [codePoints (['.'].intercalate name)]) names

/-- Statements of a pinned module, by the names that they bind. What a compound statement runs in the same scope is
its body; a function and a class may bind names of the module that they declare global. -/
inductive Statement
  | function (name : Text) (globals : List Text)
  | classDef (name : Text) (bases : List Dotted) (globals : List Text) (body : List Statement)
  | imports (item : Import)
  | assign (name : Text) (value : Dotted)
  | other (names : List Text) (body : List Statement)

def Import.boundNames : Import → List Text
  | .plain names => names.map fun (name, asname) => asname.getD (name.headD [])
  | .fromModule _ _ names => (names.filter fun (name, _) => name ≠ ['*']).map fun (name, asname) => asname.getD name

mutual

/-- The names that a statement binds in its own scope. -/
def Statement.binds : Statement → List Text
  | .function name _ => [name]
  | .classDef name _ _ _ => [name]
  | .imports item => item.boundNames
  | .assign name _ => [name]
  | .other names body => names ++ bindsAll body

def bindsAll : List Statement → List Text
  | [] => []
  | item :: rest => item.binds ++ bindsAll rest

end

mutual

/-- The names of the module that functions and classes bind. -/
def Statement.globals : Statement → List Text
  | .function _ globals => globals
  | .classDef _ _ globals body => globals ++ globalsAll body
  | .imports _ => []
  | .assign _ _ => []
  | .other _ body => globalsAll body

def globalsAll : List Statement → List Text
  | [] => []
  | item :: rest => item.globals ++ globalsAll rest

end

mutual

/-- All identifiers that a statement binds, in any scope. -/
def Statement.identifiers : Statement → List Text
  | .function name globals => name :: globals
  | .classDef name _ globals body => name :: globals ++ identifiersAll body
  | .imports item => item.boundNames
  | .assign name _ => [name]
  | .other names body => names ++ identifiersAll body

def identifiersAll : List Statement → List Text
  | [] => []
  | item :: rest => item.identifiers ++ identifiersAll rest

end

/-- What the language says of characters: those of a word, and the normal form of identifiers. -/
structure Unicode where
  word : Char → Bool
  nfkc : Text → Text

def Delimited (word : Char → Bool) (text piece : Text) : Prop :=
  ∃ before after, text = before ++ piece ++ after ∧ before.getLast?.any word = false ∧ after.head?.any word = false

/-- A file of the pinned tree. A parser finds identifiers as tokens of the text, in some spelling. -/
structure SourceFile (unicode : Unicode) where
  path : List Text
  regular : Bool
  size : Nat
  text : Option Text
  parsed : Option (List Statement)
  spelling : Text → Text := id
  spelled : ∀ content, text = some content → ∀ name ∈ identifiersAll (parsed.getD []),
    Delimited unicode.word content (spelling name) ∧ unicode.nfkc (spelling name) = name

section

variable {unicode : Unicode}

/-- A file name without its suffix, and the suffix. -/
def splitSuffix (name : Text) : Text × Text :=
  let tail := name.reverse.takeWhile fun ch => ch ≠ '.'
  if tail ≠ [] ∧ tail.length + 1 < name.length then
    (name.take (name.length - tail.length - 1), name.drop (name.length - tail.length - 1))
  else (name, [])

def initName : Text := "__init__".toList

def moduleName (path : List Text) : Dotted :=
  let parts := path.dropLast ++ [(splitSuffix (path.getLastD [])).1]
  let parts := if parts.getLast? = some initName then parts.dropLast else parts
  if parts = [] then [initName] else parts.flatMap fun part => part.splitOn '.'

def isPublic (name : Text) : Bool := name.head? ≠ some '_'

def methodSymbol (module : Dotted) (owner : Text) : Statement → Option ApiSymbol
  | .function name _ =>
    if isPublic name then some ⟨name, module ++ [owner] ++ [name], module, by simp⟩ else none
  | _ => none

/-- The symbols of a statement: functions, classes and the methods of a class. -/
def Statement.symbols (module : Dotted) : Statement → List ApiSymbol
  | .function name _ => if isPublic name then [⟨name, module ++ [name], module, by simp⟩] else []
  | .classDef name _ _ body =>
    if isPublic name then ⟨name, module ++ [name], module, by simp⟩ :: body.filterMap (methodSymbol module name) else []
  | _ => []

def isPythonFile (file : SourceFile unicode) : Bool :=
  (splitSuffix (file.path.getLastD [])).2.map Char.toLower = ".py".toList

/-- The index of the files that can be parsed. -/
def extractCheckIndex (files : List (SourceFile unicode)) : ApiIndex where
  modules := (files.filter fun file => isPythonFile file && file.parsed.isSome).map
    fun file => ⟨moduleName file.path, file.path⟩
  symbols := (files.filter fun file => isPythonFile file).flatMap fun file =>
    (file.parsed.getD []).flatMap (Statement.symbols (moduleName file.path))

end

section

variable {unicode : Unicode}

def maxTargetFiles : Nat := 500

def maxTargetFileBytes : Nat := 1048576

def maxTargetTotalBytes : Nat := 16777216

structure TargetText where
  texts : List Text
  capped : Bool
deriving DecidableEq

def readTexts : Nat → List (SourceFile unicode) → TargetText
  | _, [] => ⟨[], false⟩
  | total, file :: rest =>
    if maxTargetTotalBytes ≤ total then ⟨[], true⟩
    else if !file.regular || maxTargetFileBytes < file.size then ⟨(readTexts total rest).texts, true⟩
    else
      match file.text with
      | some text =>
        ⟨text :: (readTexts (total + file.size) rest).texts,
          decide (maxTargetFileBytes ≤ file.size) || (readTexts (total + file.size) rest).capped⟩
      | none => ⟨(readTexts (total + file.size) rest).texts, true⟩

def targetFiles (files : List (SourceFile unicode)) : List (SourceFile unicode) :=
  KeyedList.sortBy (fun file => file.path.map codePoints)
    (files.filter fun file => ".py".toList <:+ file.path.getLastD [])

def readTargetText (files : List (SourceFile unicode)) : TargetText where
  texts := (readTexts 0 ((targetFiles files).take maxTargetFiles)).texts
  capped := decide (maxTargetFiles < (targetFiles files).length) ||
    (readTexts 0 ((targetFiles files).take maxTargetFiles)).capped

def boundary (word : Char → Bool) (before after : Text) : Bool :=
  before.getLast?.any word != after.head?.any word

def foundAt (word : Char → Bool) (name text : Text) (pos : Nat) : Bool :=
  boundary word (text.take pos) (text.drop pos) && name.isPrefixOf (text.drop pos) &&
    boundary word (text.take (pos + name.length)) (text.drop (pos + name.length))

def appearsInText (word : Char → Bool) (name : Text) (texts : List Text) : Bool :=
  texts.any fun text => (List.range (text.length + 1)).any (foundAt word name text)

end

end Leitir.Check
