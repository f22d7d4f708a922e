import Leitir.Sha
import Leitir.Utf8

namespace Leitir.Usage

abbrev Text := List Char

inductive UnresolvedState
  | resolved | dynamicImport | starImport | ambiguousBinding | reExport | unsupportedSyntax | capExceeded
deriving DecidableEq, Repr

structure SourceSpan where
  file : Text
  startLine : Nat
  startCol : Nat
  endLine : Nat
  endCol : Nat
deriving DecidableEq

/-- What the constructor of a span lets pass: lines from one on, and no end before the start. -/
def SourceSpan.Checked (span : SourceSpan) : Prop :=
  span.file ≠ [] ∧ 1 ≤ span.startLine ∧ 1 ≤ span.endLine ∧
    (span.startLine < span.endLine ∨ span.startLine = span.endLine ∧ span.startCol ≤ span.endCol)

instance (span : SourceSpan) : Decidable span.Checked := inferInstanceAs (Decidable (_ ∧ _))

structure CodeReference where
  distribution : Text
  span : SourceSpan
  codeDigest : Text
deriving DecidableEq

def isLineEnd (ch : Char) : Bool := ch.toNat ∈ [0x0a, 0x0b, 0x0c, 0x1c, 0x1d, 0x1e, 0x85, 0x2028, 0x2029]

def digestBytes (data : List Nat) : Text := "sha256:".toList ++ Sha256.hexdigest data

/-- What a name is bound to, as far as a static reading can tell. -/
inductive Binding
  | imported (distribution : Text)
  | reexport
  | ambiguous
  | shadow
deriving DecidableEq

abbrev Bindings := Text → Option Binding

def mergeBinding : Option Binding → Binding → Binding
  | some (.imported _), .imported _ => .ambiguous
  | some (.imported _), .shadow => .reexport
  | _, new => new

def bind (bindings : Bindings) (name : Text) (binding : Binding) : Bindings :=
  Function.update bindings name (some (mergeBinding (bindings name) binding))

def changedValues (base : Bindings) (results : List Bindings) (name : Text) : List Binding :=
  (results.filterMap fun result => result name).filter fun value => some value ≠ base name

/-- The bindings after branches: a name keeps its value unless a branch changed it, and two changes must agree. -/
def mergeBranches (base : Bindings) (results : List Bindings) : Bindings := fun name =>
  match changedValues base results name with
  | [] => base name
  | value :: others => if ∀ other ∈ others, other = value then some value else some .ambiguous

/-- A name that is read, and where it stands. -/
structure Load where
  name : Text
  span : SourceSpan
deriving DecidableEq

/-- Expressions, by what the visitor does with them: all others have their children visited in order. -/
inductive Expr
  | name (load : Load)
  | attribute (value : Expr) (attr : Text)
  | call (func : Expr) (args keywords : List Expr)
  | node (children : List Expr)

inductive Target
  | name (id : Text)
  | starred (value : Target)
  | elements (items : List Target)
  | place

structure Alias where
  name : Text
  asname : Option Text
deriving DecidableEq

/-- Imports, assignments and branches. -/
inductive Stmt
  | importNames (names : List Alias)
  | importFrom (source : Option Text) (level : Nat) (names : List Alias)
  | assign (targets : List Target) (value : Expr)
  | annAssign (target : Target) (value : Option Expr)
  | augAssign (target : Target) (value : Expr)
  | expr (value : Expr)
  | ifElse (test : Expr) (body orelse : List Stmt)

def isDynamicImportCall : Expr → Bool
  | .name load => load.name = "__import__".toList
  | .attribute (.name load) attr => attr = "import_module".toList && load.name = "importlib".toList
  | _ => false

mutual

/-- The names that a visit of an expression reads, in its order. -/
def Expr.loads : Expr → List Load
  | .name load => [load]
  | .attribute value _ => value.loads
  | .call func args keywords =>
    if isDynamicImportCall func then loadsAll args ++ loadsAll keywords
    else func.loads ++ loadsAll args ++ loadsAll keywords
  | .node children => loadsAll children

def loadsAll : List Expr → List Load
  | [] => []
  | item :: rest => item.loads ++ loadsAll rest

end

mutual

/-- Whether an expression imports a module by a call. -/
def Expr.dynamic : Expr → Bool
  | .name _ => false
  | .attribute value _ => value.dynamic
  | .call func args keywords =>
    isDynamicImportCall func || func.dynamic || dynamicAny args || dynamicAny keywords
  | .node children => dynamicAny children

def dynamicAny : List Expr → Bool
  | [] => false
  | item :: rest => item.dynamic || dynamicAny rest

end

mutual

/-- The names that a target rebinds. -/
def Target.names : Target → List Text
  | .name id => [id]
  | .starred value => value.names
  | .elements items => namesAll items
  | .place => []

def namesAll : List Target → List Text
  | [] => []
  | item :: rest => item.names ++ namesAll rest

end

section

structure Resolver where
  importRoots : Text → Option Text
  moduleIndex : Text → Option Bindings
  relpath : Text
  sourceText : Text

def rootOf (dotted : Text) : Text := dotted.takeWhile fun ch => ch ≠ '.'

def pathParts (path : Text) : List Text := (path.splitOn '/').filter fun part => part ≠ [] ∧ part ≠ ['.']

def resolveRelativeModule (relpath : Text) (level : Nat) (source : Option Text) : Option Text :=
  let packageParts := (pathParts relpath).dropLast
  if packageParts.length < level - 1 then none
  else
    let base := packageParts.take (packageParts.length - (level - 1))
    let dotted := base ++ (source.elim [] fun dotted => if dotted = [] then [] else dotted.splitOn '.')
    if dotted = [] then none else some (['.'].intercalate dotted)

variable (resolver : Resolver)

def importDistribution (name : Text) : Option Text := resolver.importRoots (rootOf name)

def fromDistribution (source : Option Text) (level : Nat) : Option Text :=
  match source with
  | some source => if level = 0 ∧ source ≠ [] then resolver.importRoots (rootOf source) else none
  | none => none

def boundImport (item : Alias) : Text := item.asname.getD (rootOf item.name)

def boundFrom (item : Alias) : Text := item.asname.getD item.name

def importBinding (item : Alias) : Binding :=
  match importDistribution resolver item.name with
  | some distribution => if distribution = [] then .shadow else .imported distribution
  | none => .shadow

/-- The binding of a name imported from a module. One that a local module forwards is never attributed. -/
def fromBinding (source : Option Text) (level : Nat) (item : Alias) : Binding :=
  match fromDistribution resolver source level with
  | some distribution => .imported distribution
  | none =>
    let effective := if level = 0 then source else resolveRelativeModule resolver.relpath level source
    match (effective.bind resolver.moduleIndex).bind fun bindings => bindings item.name with
    | some (.imported _) => .reexport
    | some .reexport => .reexport
    | _ => .shadow

def isStar (names : List Alias) : Bool := names.any fun item => item.name = ['*']

/-- What a visit leaves: the bindings, and for each name it read what the name was bound to. -/
structure Visit where
  bindings : Bindings
  loads : List (Load × Option Binding)
  star : Bool
  dynamic : Bool

def bindShadows (bindings : Bindings) (names : List Text) : Bindings :=
  names.foldl (fun bindings name => bind bindings name .shadow) bindings

def visitExpr (bindings : Bindings) (value : Expr) : Visit :=
  ⟨bindings, value.loads.map fun load => (load, bindings load.name), false, value.dynamic⟩

mutual

def visitStmt (bindings : Bindings) : Stmt → Visit
  | .importNames names =>
    ⟨names.foldl (fun bindings item => bind bindings (boundImport item) (importBinding resolver item)) bindings, [], false, false⟩
  | .importFrom source level names =>
    if isStar names then ⟨bindings, [], true, false⟩
    else ⟨names.foldl (fun bindings item => bind bindings (boundFrom item) (fromBinding resolver source level item)) bindings,
      [], false, false⟩
  | .assign targets value => { visitExpr bindings value with bindings := bindShadows bindings (namesAll targets) }
  | .annAssign target value =>
    match value with
    | some value => { visitExpr bindings value with bindings := bindShadows bindings target.names }
    | none => ⟨bindShadows bindings target.names, [], false, false⟩
  | .augAssign target value => { visitExpr bindings value with bindings := bindShadows bindings target.names }
  | .expr value => visitExpr bindings value
  | .ifElse test body orelse =>
    let tested := visitExpr bindings test
    let first := visitStmts bindings body
    let second := visitStmts bindings orelse
    ⟨mergeBranches bindings [first.bindings, second.bindings], tested.loads ++ first.loads ++ second.loads,
      first.star || second.star, tested.dynamic || first.dynamic || second.dynamic⟩

def visitStmts (bindings : Bindings) : List Stmt → Visit
  | [] => ⟨bindings, [], false, false⟩
  | stmt :: rest =>
    let first := visitStmt bindings stmt
    let others := visitStmts first.bindings rest
    ⟨others.bindings, first.loads ++ others.loads, first.star || others.star, first.dynamic || others.dynamic⟩

end

end

def linesKept (line : Text) : Text → List Text
  | [] => if line = [] then [] else [line.reverse]
  | '\r' :: '\n' :: rest => ('\n' :: '\r' :: line).reverse :: linesKept [] rest
  | ch :: rest => if ch = '\r' ∨ isLineEnd ch then (ch :: line).reverse :: linesKept [] rest else linesKept (ch :: line) rest

def extractSnippet (sourceText : Text) (span : SourceSpan) : Except Text Text :=
  let lines := linesKept [] sourceText
  if lines.length < span.endLine then .error "span end_line is beyond the end of the file".toList
  else
    match (lines.take span.endLine).drop (span.startLine - 1) with
    | [] => .error "list index out of range".toList
    | [line] => .ok ((line.take span.endCol).drop span.startCol)
    | line :: others => .ok (line.drop span.startCol ++ others.dropLast.flatten ++ (others.getLastD []).take span.endCol)

/-- The constructor of a reference, with the checks of its span. -/
def codeReference (sourceText distribution : Text) (span : SourceSpan) : Except Text CodeReference :=
  if ¬ span.Checked then .error "span is malformed".toList
  else do
    let snippet ← extractSnippet sourceText span
    if distribution = [] then .error "reference.distribution must be non-empty".toList
    else .ok ⟨distribution, span, digestBytes (Utf8.encodeText snippet)⟩

def attribution (load : Load × Option Binding) : Option (Text × SourceSpan) :=
  match load.2 with
  | some (.imported distribution) => some (distribution, load.1.span)
  | _ => none

structure FileOutcome where
  state : UnresolvedState
  references : List CodeReference

/-- The state of a file whose visit saw no star import: the most serious of its issues. -/
def stateOf (visit : Visit) : UnresolvedState :=
  if visit.dynamic then .dynamicImport
  else if visit.loads.any fun load => load.2 = some .ambiguous then .ambiguousBinding
  else if visit.loads.any fun load => load.2 = some .reexport then .reExport
  else .resolved

/-- The outcome of a parsed file; the second argument counts the nodes of its tree. -/
def resolveOneFile (resolver : Resolver) (nodeCount maxAstNodes : Nat) (tree : List Stmt) : Except Text FileOutcome :=
  if maxAstNodes < nodeCount then .ok ⟨.capExceeded, []⟩
  else do
    let visit := visitStmts resolver (fun _ => none) tree
    let references ← (visit.loads.filterMap attribution).mapM fun (distribution, span) =>
      codeReference resolver.sourceText distribution span
    .ok (if visit.star then ⟨.starImport, []⟩ else ⟨stateOf visit, references⟩)

end Leitir.Usage
