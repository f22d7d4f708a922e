import Leitir.CheckTree
import Leitir.ExceptRun
import Leitir.Grouping

namespace Leitir.Api

open List KeyedList

open Check (splitSuffix initName isPublic codePoints sortedTexts)
open Usage (Text)

/-- An expression, by its text; `none` where it is nested too deeply to be written out. -/
structure Expression where
  unparse : Option Text
deriving DecidableEq

structure Argument where
  arg : Text
  annotation : Option Expression
deriving DecidableEq

structure Arguments where
  posonlyargs : List Argument
  args : List Argument
  vararg : Option Argument
  kwonlyargs : List Argument
  kwDefaults : List (Option Expression)
  kwarg : Option Argument
  defaults : List Expression
deriving DecidableEq

structure FunctionDef where
  name : Text
  args : Arguments
  returns : Option Expression
  lineno : Nat
  docstring : Option Text
deriving DecidableEq

/-- A statement of a module or of a class. -/
inductive Node
  | functionDef (item : FunctionDef)
  | classDef (name : Text) (bases : List Expression) (keywords : List (Option Text × Expression)) (lineno : Nat)
    (docstring : Option Text) (body : List Node)
  | other

structure Module where
  docstring : Option Text
  body : List Node

/-- A file below the target; `none` where it cannot be read and parsed. -/
structure SourceFile where
  path : List Text
  tree : Option Module

def joined (separator : String) (parts : List Text) : Text := separator.toList.intercalate parts

def written (before : Text) : Option Expression → Option Text
  | none => some []
  | some expression => expression.unparse.map (before ++ ·)

def pythonArgument (argument : Argument) (default : Option Expression) : Option Text := do
  let annotation ← written ": ".toList argument.annotation
  let value ← written " = ".toList default
  some (argument.arg ++ annotation ++ value)

def pythonArguments (arguments : List Argument) (defaults : List (Option Expression)) : Option (List Text) :=
  (arguments.zip defaults).mapM fun item => pythonArgument item.1 item.2

def starred (stars : Text) : Option Argument → Option (List Text)
  | none => some []
  | some argument => (pythonArgument argument none).map fun text => [stars ++ text]

def pythonSignature (node : FunctionDef) : Option Text := do
  let arguments := node.args
  let positional := arguments.posonlyargs ++ arguments.args
  let defaults := List.replicate (positional.length - arguments.defaults.length) none ++ arguments.defaults.map some
  let parts ← pythonArguments positional defaults
  let parts := if arguments.posonlyargs = [] then parts else parts.insertIdx arguments.posonlyargs.length ['/']
  let rest ←
    if arguments.vararg.isSome then starred ['*'] arguments.vararg
    else some (if arguments.kwonlyargs = [] then [] else [['*']])
  let named ← pythonArguments arguments.kwonlyargs arguments.kwDefaults
  let last ← starred ['*', '*'] arguments.kwarg
  let returns ← written " -> ".toList node.returns
  some ('(' :: (joined ", " (parts ++ rest ++ named ++ last) ++ ')' :: returns))

inductive SymbolKind
  | function | classes | method
deriving DecidableEq

def SymbolKind.value : SymbolKind → Text
  | .function => "function".toList
  | .classes => "class".toList
  | .method => "method".toList

structure ApiSymbol where
  kind : SymbolKind
  name : Text
  qualifiedName : Text
  module : Text
  path : Text
  line : Nat
  signature : Option Text
  docstring : Option Text
  method : Text
deriving DecidableEq

structure ModuleRecord where
  name : Text
  path : Text
  docstring : Option Text
  method : Text
deriving DecidableEq

structure ApiIndex where
  methods : List Text
  modules : List ModuleRecord
  symbols : List ApiSymbol
deriving DecidableEq

def ast : Text := "ast".toList

def moduleName (relative : List Text) : Text :=
  let parts := relative.dropLast ++ [(splitSuffix (relative.getLastD [])).1]
  let parts := if parts.getLast? = some initName then parts.dropLast else parts
  if joined "." parts = [] then initName else joined "." parts

def qualified (owner name : Text) : Text := owner ++ '.' :: name

/-- The symbol of a public function; `none` where its signature cannot be written out. -/
def functionSymbol (kind : SymbolKind) (owner module path : Text) (node : FunctionDef) : Option (List ApiSymbol) :=
  if isPublic node.name then
    (pythonSignature node).map fun signature =>
      [⟨kind, node.name, qualified owner node.name, module, path, node.lineno, some signature, node.docstring, ast⟩]
  else some []

def classSignature (bases : List Expression) (keywords : List (Option Text × Expression)) : Option Text := do
  let bases ← bases.mapM Expression.unparse
  let keywords ← (keywords.filterMap fun item => item.1.map fun name => (name, item.2)).mapM fun item =>
    item.2.unparse.map fun value => item.1 ++ '=' :: value
  some ('(' :: (joined ", " (bases ++ keywords) ++ [')']))

def methodSymbols (owner module path : Text) : Node → Option (List ApiSymbol)
  | .functionDef node => functionSymbol .method owner module path node
  | _ => some []

/-- The symbols of a statement; `none` where one of them is nested too deeply, and all of them are dropped. -/
def nodeSymbols (module path : Text) : Node → Option (List ApiSymbol)
  | .functionDef node => functionSymbol .function module module path node
  | .classDef name bases keywords lineno docstring body =>
    if isPublic name then do
      let signature ← classSignature bases keywords
      let methods ← body.mapM (methodSymbols (qualified module name) module path)
      some (⟨.classes, name, qualified module name, module, path, lineno, some signature, docstring, ast⟩ :: methods.flatten)
    else some []
  | .other => some []

def isPythonFile (file : SourceFile) : Bool :=
  (splitSuffix (file.path.getLastD [])).2.map Char.toLower = ".py".toList

def relative (file : SourceFile) : Text := joined "/" file.path

def fileSymbols (file : SourceFile) : List ApiSymbol :=
  match file.tree with
  | none => []
  | some tree => tree.body.flatMap fun node => (nodeSymbols (moduleName file.path) (relative file) node).getD []

def fileModule (file : SourceFile) : Option ModuleRecord :=
  file.tree.map fun tree => ⟨moduleName file.path, relative file, tree.docstring, ast⟩

def finish (modules : List ModuleRecord) (symbols : List ApiSymbol) : ApiIndex where
  methods := sortedTexts (modules.map ModuleRecord.method ++ symbols.map ApiSymbol.method).dedup
  modules := sortBy (fun item => [codePoints item.path, codePoints item.name]) modules
  symbols := sortBy (fun item => [codePoints item.qualifiedName, codePoints item.kind.value, [item.line]]) symbols

def pythonFiles (files : List SourceFile) : List SourceFile :=
  sortBy (fun file => [codePoints (relative file)]) (files.filter isPythonFile)

def pythonExtractor (files : List SourceFile) : ApiIndex :=
  finish ((pythonFiles files).filterMap fileModule) ((pythonFiles files).flatMap fileSymbols)

structure SignatureChange where
  qualifiedName : Text
  before : Text
  after : Text
deriving DecidableEq

structure ApiDiff where
  added : List ApiSymbol
  removed : List ApiSymbol
  changed : List SignatureChange
deriving DecidableEq

inductive DiffError
  | invalidQualifiedName
deriving DecidableEq

def DiffError.message : DiffError → String
  | .invalidQualifiedName => "API symbol has invalid qualified_name"

def grouped (symbols : List ApiSymbol) : Except DiffError (List (Text × List ApiSymbol)) :=
  if symbols.any fun symbol => symbol.qualifiedName = [] then .error .invalidQualifiedName
  else .ok (Grouping.groupBy ApiSymbol.qualifiedName symbols)

def onlyIn (groups others : List (Text × List ApiSymbol)) : List ApiSymbol :=
  (sortedTexts ((Grouping.keys others).filter fun name => name ∉ Grouping.keys groups)).filterMap fun name =>
    (Grouping.get others name).head?

/-- A change is reported where both sides have one symbol with a signature. -/
def signatureChange (old new : List ApiSymbol) (name : Text) : Option SignatureChange :=
  match old, new with
  | [before], [after] =>
    match before.signature, after.signature with
    | some before, some after => if before ≠ after then some ⟨name, before, after⟩ else none
    | _, _ => none
  | _, _ => none

def diffApiIndexes (before after : ApiIndex) : Except DiffError ApiDiff := do
  let old ← grouped before.symbols
  let new ← grouped after.symbols
  let common := sortedTexts ((Grouping.keys old).filter fun name => name ∈ Grouping.keys new)
  pure ⟨onlyIn old new, onlyIn new old,
    common.filterMap fun name => signatureChange (Grouping.get old name) (Grouping.get new name) name⟩

section

def definitions (files : List SourceFile) : List ApiSymbol := (files.filter isPythonFile).flatMap fileSymbols

def definitionsOf (files : List SourceFile) (name : Text) : List ApiSymbol :=
  (definitions files).filter fun symbol => symbol.qualifiedName = name

def Signed (symbol : ApiSymbol) : Prop := symbol.qualifiedName ≠ [] ∧ ∃ signature, symbol.signature = some signature

variable {owner module path : Text} {symbols : List ApiSymbol}

theorem signed_functionSymbol {kind : SymbolKind} {node : FunctionDef}
    (h : functionSymbol kind owner module path node = some symbols) : ∀ symbol ∈ symbols, Signed symbol := by
  unfold functionSymbol at h
  split at h
  next =>
    obtain ⟨signature, -, rfl⟩ := Option.map_eq_some_iff.mp h
    intro symbol hsymbol
    rw [mem_singleton.mp hsymbol]
    exact ⟨append_ne_nil_of_right_ne_nil _ (cons_ne_nil _ _), signature, rfl⟩
  next =>
    cases h
    exact fun symbol hsymbol => absurd hsymbol not_mem_nil

theorem signed_methodSymbols {node : Node}
    (h : methodSymbols owner module path node = some symbols) : ∀ symbol ∈ symbols, Signed symbol := by
  cases node with
  | functionDef item => exact signed_functionSymbol h
  | classDef _ _ _ _ _ _ =>
    cases h
    exact fun symbol hsymbol => absurd hsymbol not_mem_nil
  | other =>
    cases h
    exact fun symbol hsymbol => absurd hsymbol not_mem_nil

theorem signed_methods {body : List Node} {methods : List (List ApiSymbol)}
    (h : body.mapM (methodSymbols owner module path) = some methods) : ∀ symbol ∈ methods.flatten, Signed symbol := by
  induction body generalizing methods with
  | nil =>
    cases h
    exact fun symbol hsymbol => absurd hsymbol not_mem_nil
  | cons node rest ih =>
    rw [mapM_cons] at h
    obtain ⟨first, hfirst, h⟩ := Option.bind_eq_some_iff.mp h
    obtain ⟨others, hothers, h⟩ := Option.bind_eq_some_iff.mp h
    cases h
    rw [flatten_cons]
    intro symbol hsymbol
    rcases mem_append.mp hsymbol with hsymbol | hsymbol
    · exact signed_methodSymbols hfirst symbol hsymbol
    · exact ih hothers symbol hsymbol

theorem signed_nodeSymbols {node : Node}
    (h : nodeSymbols module path node = some symbols) : ∀ symbol ∈ symbols, Signed symbol := by
  cases node with
  | functionDef item => exact signed_functionSymbol h
  | classDef name bases keywords lineno docstring body =>
    simp only [nodeSymbols] at h
    split at h
    next =>
      obtain ⟨signature, -, h⟩ := Option.bind_eq_some_iff.mp h
      obtain ⟨methods, hmethods, h⟩ := Option.bind_eq_some_iff.mp h
      cases h
      rw [forall_mem_cons]
      exact ⟨⟨append_ne_nil_of_right_ne_nil _ (cons_ne_nil _ _), signature, rfl⟩, signed_methods hmethods⟩
    next =>
      cases h
      exact fun symbol hsymbol => absurd hsymbol not_mem_nil
  | other =>
    cases h
    exact fun symbol hsymbol => absurd hsymbol not_mem_nil

theorem signed_definitions {files : List SourceFile} : ∀ symbol ∈ definitions files, Signed symbol := by
  intro symbol hsymbol
  obtain ⟨file, -, hfile⟩ := mem_flatMap.mp hsymbol
  unfold fileSymbols at hfile
  split at hfile
  next => cases hfile
  next tree htree =>
    obtain ⟨node, -, hnode⟩ := mem_flatMap.mp hfile
    cases hsymbols : nodeSymbols (moduleName file.path) (relative file) node with
    | none =>
      rw [hsymbols] at hnode
      cases hnode
    | some symbols =>
      rw [hsymbols] at hnode
      exact signed_nodeSymbols hsymbols symbol hnode

theorem perm_extracted (files : List SourceFile) : (pythonExtractor files).symbols.Perm (definitions files) :=
  (perm_sortBy _ _).trans ((perm_sortBy _ _).flatMap_right fileSymbols)

theorem grouped_extracted (files : List SourceFile) : grouped (pythonExtractor files).symbols =
    .ok (Grouping.groupBy ApiSymbol.qualifiedName (pythonExtractor files).symbols) := by
  unfold grouped
  refine if_neg ?_
  rw [Bool.not_eq_true, any_eq_false]
  intro symbol hsymbol hnil
  exact (signed_definitions symbol ((perm_extracted files).mem_iff.mp hsymbol)).1 (of_decide_eq_true hnil)

def groupsOf (files : List SourceFile) : List (Text × List ApiSymbol) :=
  Grouping.groupBy ApiSymbol.qualifiedName (pythonExtractor files).symbols

theorem mem_keys_groupsOf {files : List SourceFile} {name : Text} :
    name ∈ Grouping.keys (groupsOf files) ↔ definitionsOf files name ≠ [] := by
  unfold groupsOf definitionsOf
  rw [Grouping.mem_keys_groupBy, ne_eq, filter_eq_nil_iff, not_forall]
  constructor
  · rintro ⟨symbol, hsymbol, hname⟩
    exact ⟨symbol, fun hnot => hnot ((perm_extracted files).mem_iff.mp hsymbol) (decide_eq_true hname)⟩
  · rintro ⟨symbol, hnot⟩
    rw [not_forall, exists_prop, not_not, decide_eq_true_iff] at hnot
    exact ⟨symbol, (perm_extracted files).mem_iff.mpr hnot.1, hnot.2⟩

theorem perm_get_groupsOf (files : List SourceFile) (name : Text) :
    (Grouping.get (groupsOf files) name).Perm (definitionsOf files name) := by
  rw [groupsOf, Grouping.get_groupBy]
  exact (perm_extracted files).filter _

theorem onlyIn_eq_nil_iff (files others : List SourceFile) : onlyIn (groupsOf files) (groupsOf others) = [] ↔
    ∀ name, definitionsOf others name ≠ [] → definitionsOf files name ≠ [] := by
  unfold onlyIn sortedTexts
  rw [filterMap_eq_nil_iff]
  constructor
  · intro h name hname
    by_contra hnot
    have hmem : name ∈ sortBy (fun text => [codePoints text])
        ((Grouping.keys (groupsOf others)).filter fun name => name ∉ Grouping.keys (groupsOf files)) := by
      rw [mem_sortBy, mem_filter, decide_eq_true_iff, mem_keys_groupsOf, mem_keys_groupsOf]
      exact ⟨hname, not_not.mpr hnot⟩
    have hempty := (perm_get_groupsOf others name).symm
    rw [head?_eq_none_iff.mp (h name hmem)] at hempty
    exact hname hempty.eq_nil
  · intro h name hname
    rw [mem_sortBy, mem_filter, decide_eq_true_iff, mem_keys_groupsOf, mem_keys_groupsOf] at hname
    exact absurd (h name hname.1) hname.2

/-- No change is reported of a name if and only if, where both sides define it once, its signature is kept. -/
theorem signatureChange_eq_none_iff (before after : List SourceFile) (name : Text) :
    signatureChange (Grouping.get (groupsOf before) name) (Grouping.get (groupsOf after) name) name = none ↔
      ∀ old new, definitionsOf before name = [old] → definitionsOf after name = [new] → old.signature = new.signature := by
  have hold := perm_get_groupsOf before name
  have hnew := perm_get_groupsOf after name
  unfold signatureChange
  split
  next first second hfirst hsecond =>
    rw [hfirst] at hold
    rw [hsecond] at hnew
    have hbefore : definitionsOf before name = [first] := perm_singleton.mp hold.symm
    have hafter : definitionsOf after name = [second] := perm_singleton.mp hnew.symm
    have hsigned : ∀ {files : List SourceFile} {symbol : ApiSymbol}, definitionsOf files name = [symbol] → Signed symbol := by
      intro files symbol hone
      have hmem : symbol ∈ definitionsOf files name := by
        rw [hone]
        exact mem_singleton_self symbol
      exact signed_definitions symbol (mem_of_mem_filter hmem)
    obtain ⟨-, text, htext⟩ := hsigned hbefore
    obtain ⟨-, text', htext'⟩ := hsigned hafter
    rw [hbefore, hafter, htext, htext']
    simp only
    constructor
    · intro h old new hone hone'
      cases hone
      cases hone'
      rw [htext, htext']
      by_contra hne
      rw [if_pos fun heq => hne (congrArg some heq)] at h
      cases h
    · intro h
      have hsame := h first second rfl rfl
      rw [htext, htext'] at hsame
      exact if_neg (not_not.mpr (Option.some.inj hsame))
  next hnot =>
    refine ⟨fun _ old new hone hone' => ?_, fun _ => rfl⟩
    rw [hone] at hold
    rw [hone'] at hnew
    exact absurd (perm_singleton.mp hnew) (hnot old new (perm_singleton.mp hold))

/-- A comparison of two trees reports nothing if and only if they define the same names, and each name that both define
once has kept its signature. Of names that one of them defines several times, and of kinds, it says nothing. -/
theorem diffApiIndexes_empty_iff (before after : List SourceFile) :
    ∃ diff, diffApiIndexes (pythonExtractor before) (pythonExtractor after) = .ok diff ∧
      (diff.added = [] ∧ diff.removed = [] ∧ diff.changed = [] ↔
        (∀ name, definitionsOf before name ≠ [] ↔ definitionsOf after name ≠ []) ∧
          ∀ name old new, definitionsOf before name = [old] → definitionsOf after name = [new] →
            old.signature = new.signature) := by
  have hdiff : diffApiIndexes (pythonExtractor before) (pythonExtractor after) =
      .ok ⟨onlyIn (groupsOf before) (groupsOf after), onlyIn (groupsOf after) (groupsOf before),
        (sortedTexts ((Grouping.keys (groupsOf before)).filter fun name => name ∈ Grouping.keys (groupsOf after))).filterMap
          fun name => signatureChange (Grouping.get (groupsOf before) name) (Grouping.get (groupsOf after) name) name⟩ := by
    unfold diffApiIndexes
    rw [ExceptRun.bind_eq (grouped_extracted before), ExceptRun.bind_eq (grouped_extracted after)]
    rfl
  refine ⟨_, hdiff, ?_⟩
  rw [onlyIn_eq_nil_iff, onlyIn_eq_nil_iff, filterMap_eq_nil_iff, ← and_assoc]
  have hnames : (∀ name, definitionsOf after name ≠ [] → definitionsOf before name ≠ []) ∧
      (∀ name, definitionsOf before name ≠ [] → definitionsOf after name ≠ []) ↔
        ∀ name, definitionsOf before name ≠ [] ↔ definitionsOf after name ≠ [] :=
    ⟨fun h name => ⟨h.2 name, h.1 name⟩, fun h => ⟨fun name => (h name).mpr, fun name => (h name).mp⟩⟩
  rw [hnames]
  refine and_congr_right fun _ => ⟨fun h name old new hold hnew => ?_, fun h name _ => ?_⟩
  · have hmem : name ∈ sortedTexts ((Grouping.keys (groupsOf before)).filter fun name =>
        name ∈ Grouping.keys (groupsOf after)) := by
      unfold sortedTexts
      rw [mem_sortBy, mem_filter, decide_eq_true_iff, mem_keys_groupsOf, mem_keys_groupsOf, hold, hnew]
      exact ⟨cons_ne_nil _ _, cons_ne_nil _ _⟩
    exact (signatureChange_eq_none_iff before after name).mp (h name hmem) old new hold hnew
  · exact (signatureChange_eq_none_iff before after name).mpr fun old new => h name old new

def sampleFunction (parameter : Char) : Node :=
  .functionDef ⟨['f'], ⟨[], [⟨[parameter], none⟩], none, [], [], none, []⟩, none, 1, none⟩

def sampleTree (body : List Node) : List SourceFile := [⟨[['m', '.', 'p', 'y']], some ⟨none, body⟩⟩]

/-- A function that is defined twice is replaced by another one, and nothing is reported. -/
theorem diffApiIndexes_redefined :
    (diffApiIndexes (pythonExtractor (sampleTree [sampleFunction 'a', sampleFunction 'b']))
      (pythonExtractor (sampleTree [sampleFunction 'c']))).toOption = some ⟨[], [], []⟩ ∧
    ¬ ∀ name signature kind,
      (∃ symbol ∈ (pythonExtractor (sampleTree [sampleFunction 'a', sampleFunction 'b'])).symbols,
        symbol.qualifiedName = name ∧ symbol.signature = signature ∧ symbol.kind = kind) ↔
      ∃ symbol ∈ (pythonExtractor (sampleTree [sampleFunction 'c'])).symbols,
        symbol.qualifiedName = name ∧ symbol.signature = signature ∧ symbol.kind = kind := by
  refine ⟨by decide +kernel, fun h => ?_⟩
  have hback := (h ['m', '.', 'f'] (some ['(', 'c', ')']) .function).mpr (by decide +kernel)
  exact absurd hback (by decide +kernel)

end

def SignatureChange.mirror (change : SignatureChange) : SignatureChange :=
  ⟨change.qualifiedName, change.after, change.before⟩

/-- The report of the comparison the other way. -/
def ApiDiff.mirror (diff : ApiDiff) : ApiDiff := ⟨diff.removed, diff.added, diff.changed.map SignatureChange.mirror⟩

theorem signatureChange_mirror (old new : List ApiSymbol) (name : Text) :
    signatureChange new old name = (signatureChange old new name).map SignatureChange.mirror := by
  cases old with
  | nil => cases new <;> simp [signatureChange]
  | cons before olds =>
    cases new with
    | nil => simp [signatureChange]
    | cons after news =>
      cases olds with
      | cons _ _ => simp [signatureChange]
      | nil =>
        cases news with
        | cons _ _ => simp [signatureChange]
        | nil =>
          cases hbefore : before.signature with
          | none => cases hafter : after.signature <;> simp [signatureChange, hbefore, hafter]
          | some first =>
            cases hafter : after.signature with
            | none => simp [signatureChange, hbefore, hafter]
            | some second =>
              by_cases hsame : first = second
              · simp [signatureChange, hbefore, hafter, hsame]
              · simp [signatureChange, hbefore, hafter, hsame, Ne.symm hsame, SignatureChange.mirror]

/-- The names that both sides have come in one order, whichever side is read first. -/
theorem sortedTexts_common {names others : List Text} (hnames : names.Nodup) (hothers : others.Nodup) :
    sortedTexts (others.filter fun name => name ∈ names) = sortedTexts (names.filter fun name => name ∈ others) := by
  refine sortBy_congr ?_ ?_
  · refine (perm_ext_iff_of_nodup (hothers.filter _) (hnames.filter _)).mpr fun name => ?_
    simp [and_comm]
  · intro name _ other _ hkey
    exact map_injective_iff.mpr (fun _ _ hcode => Char.toNat_inj.mp hcode) (cons.inj hkey).1

/-- A comparison read the other way reports as removed what it reported as added, and every change turned round. -/
theorem diffApiIndexes_mirror (before after : ApiIndex) :
    diffApiIndexes after before = (diffApiIndexes before after).map ApiDiff.mirror := by
  unfold diffApiIndexes grouped
  split
  next => split <;> rfl
  next =>
    split
    next => rfl
    next =>
      refine congrArg Except.ok ?_
      unfold ApiDiff.mirror
      simp only [map_filterMap, ← signatureChange_mirror]
      rw [sortedTexts_common (Grouping.nodup_groupBy _ _) (Grouping.nodup_groupBy _ _)]

end Leitir.Api
