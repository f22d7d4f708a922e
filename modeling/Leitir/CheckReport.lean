import Leitir.CheckTree
import Mathlib.Data.List.Flatten
import Mathlib.Data.List.Dedup

namespace Leitir.Check

open Usage (Text CodeReference UnresolvedState)

section

variable {unicode : Unicode}

/-- What the pinned source shows of its names: definitions, reexports, modules, and what each module loads. -/
structure Evidence where
  known : List Dotted
  aliases : Dotted → Option Dotted
  modules : List Dotted
  imports : Dotted → List Dotted

def publicName (importRoots : List Text) (name : Dotted) : Option Dotted :=
  match name.tails.filter fun tail => tail.head?.any (· ∈ importRoots) with
  | [found] => some found
  | _ => none

def publicPaths (index : ApiIndex) (importRoots : List Text) : List (Dotted × List Text) :=
  index.modules.filterMap fun record => (publicName importRoots record.name).map fun found => (found, record.path)

def isAmbiguous (paths : List (Dotted × List Text)) (name : Dotted) : Bool :=
  paths.any fun item => paths.any fun other => item.1 = name && other.1 = name && item.2 ≠ other.2

/-- The definitions of the index under public names. -/
def knownNames (index : ApiIndex) (importRoots : List Text) : List Dotted :=
  index.symbols.filterMap fun symbol =>
    if symbol.module ∈ index.modules.map ModuleRecord.name then
      match publicName importRoots symbol.module with
      | some found =>
        if !isAmbiguous (publicPaths index importRoots) found && symbol.module <+: symbol.qualifiedName &&
            symbol.module.length < symbol.qualifiedName.length then
          some (found ++ symbol.qualifiedName.drop symbol.module.length)
        else none
      | none => none
    else none

/-- The package that relative imports of a module start from; at the top it is one empty part. -/
def packageParts (module : Dotted) (path : List Text) : Dotted :=
  let package := if path.getLastD [] = initName ++ ".py".toList then module else module.dropLast
  if package = [] then [[]] else package

def importTarget (package : Dotted) (source : Option Dotted) (level : Nat) : Option Dotted :=
  if level = 0 then some (source.getD [])
  else if package.length < level then none
  else some (package.take (package.length - level + 1) ++ source.getD [])

/-- The modules that an import of a module loads. -/
def Import.loads (package : Dotted) : Import → List Dotted
  | .plain names => names.map Prod.fst
  | .fromModule source level names =>
    match importTarget package source level with
    | none => []
    | some target =>
      target :: (names.filter fun (name, _) => name ≠ ['*'] ∧ target ≠ [] ∧ target ≠ [[]]).map
        fun (name, _) => target ++ [name]

/-- The names that an import binds in a module, and what they stand for. -/
def Import.reexports (module package : Dotted) : Import → List (Dotted × Dotted)
  | .plain names => names.map fun (name, asname) =>
      match asname with
      | some given => (module ++ [given], name)
      | none => (module ++ [name.headD []], [name.headD []])
  | .fromModule source level names =>
    match importTarget package source level with
    | none => []
    | some target =>
      (names.filter fun (name, _) => name ≠ ['*'] ∧ target ≠ [] ∧ target ≠ [[]]).map
        fun (name, asname) => (module ++ [asname.getD name], target ++ [name])

def topImports (statements : List Statement) : List Import :=
  statements.filterMap fun statement =>
    match statement with
    | .imports item => some item
    | _ => none

/-- What a file loads and binds, under its public name. -/
structure Loading where
  module : Dotted
  loads : List Dotted
  reexports : List (Dotted × Dotted)

def loadingOf (module : Dotted) (path : List Text) (statements : List Statement) : Loading where
  module := module
  loads := (topImports statements).flatMap (Import.loads (packageParts module path))
  reexports := (topImports statements).flatMap (Import.reexports module (packageParts module path))

/-- The files are read in the order of their public names, as long as they fit. -/
def readLoadings (files : List (SourceFile unicode)) (paths : List (Dotted × List Text)) : Nat → List Dotted → List Loading
  | _, [] => []
  | total, module :: rest =>
    if isAmbiguous paths module then readLoadings files paths total rest
    else
      match (paths.find? fun item => item.1 = module).bind fun item => files.find? fun file => file.path = item.2 with
      | none => readLoadings files paths total rest
      | some file =>
        if !file.regular || maxTargetFileBytes < file.size then readLoadings files paths total rest
        else if maxTargetTotalBytes < total + file.size then []
        else
          match file.parsed with
          | none => readLoadings files paths (total + file.size) rest
          | some statements => loadingOf module file.path statements :: readLoadings files paths (total + file.size) rest

def lastOf (pairs : List (Dotted × Dotted)) (name : Dotted) : Option Dotted :=
  (pairs.reverse.find? fun pair => pair.1 = name).map Prod.snd

def knownModules (paths : List (Dotted × List Text)) : List Dotted :=
  let ambiguous := (paths.map Prod.fst).filter (isAmbiguous paths)
  ((paths.map Prod.fst).filter fun name => !ambiguous.any fun item => item <+: name).flatMap fun name => name.inits.tail

def qualifiedApiEvidence (index : ApiIndex) (files : List (SourceFile unicode)) (importRoots : List Text) : Evidence :=
  let paths := publicPaths index importRoots
  let loadings := readLoadings files paths 0 ((sortedNames (paths.map Prod.fst).dedup).take maxTargetFiles)
  { known := knownNames index importRoots
    aliases := lastOf (loadings.flatMap Loading.reexports)
    modules := knownModules paths
    imports := fun module => ((loadings.find? fun loading => loading.module = module).map Loading.loads).getD [] }

end

section

variable (evidence : Evidence)

/-- Names wait to be loaded; with a name all modules on the way to it are, and these ask for more. -/
def loadAll : Nat → List Dotted → List Dotted → List Dotted
  | 0, _, loaded => loaded
  | _, [], loaded => loaded
  | fuel + 1, name :: requested, loaded =>
    let fresh := name.inits.tail.filter fun module => module ∈ evidence.modules ∧ module ∉ loaded
    loadAll fuel (requested ++ fresh.flatMap evidence.imports) (loaded ++ fresh)

def Import.requests : Import → List Dotted
  | .plain names => names.map Prod.fst
  | .fromModule (some source) 0 names => source :: names.map fun (name, _) => source ++ [name]
  | .fromModule _ _ _ => []

/-- The modules that are asked for before a reference: its binding, and the imports that end before it. -/
def requestedModules (tree : SyntaxTree) (reference : CodeReference) (binding : Option Dotted) : List Dotted :=
  binding.toList ++ (tree.body.filter fun item =>
    item.endLine < reference.span.startLine ||
      (item.endLine = reference.span.startLine && item.endCol < reference.span.startCol)).flatMap
    fun item => item.item.requests

def loadedModules (tree : SyntaxTree) (reference : CodeReference) (binding : Option Dotted) : List Dotted :=
  let requested := requestedModules tree reference binding
  loadAll evidence (requested.length + (evidence.modules.flatMap evidence.imports).length) requested []

def followAlias (qualified : Dotted) : Option Dotted :=
  (qualified.inits.tail.reverse.find? fun part => (evidence.aliases part).isSome).bind fun part =>
    (evidence.aliases part).map fun target => target ++ qualified.drop part.length

/-- A name is defined by the source, or stands for one that is, within so many steps. -/
def definedWithin (loaded : List Dotted) : Nat → List Dotted → Dotted → Bool
  | 0, _, _ => false
  | fuel + 1, visited, qualified =>
    if qualified = [] ∨ qualified ∈ visited then false
    else if qualified.inits.tail.dropLast.any fun part => part ∈ evidence.modules ∧ part ∉ loaded then false
    else if qualified ∈ evidence.known then true
    else
      match followAlias evidence qualified with
      | some next => definedWithin loaded fuel (qualified :: visited) next
      | none => false

def hasQualifiedApi (loaded : List Dotted) (qualified : Dotted) : Bool := definedWithin evidence loaded 32 [] qualified

end

inductive Outcome
  | ok | violation | unresolved
deriving DecidableEq, Repr

structure CheckSite where
  file : Text
  line : Nat
  col : Nat
  symbol : Text
  outcome : Outcome
  reason : Text
deriving DecidableEq

def CheckSite.key (site : CheckSite) : KeyedList.Key :=
  [codePoints site.file, [site.line], [site.col], codePoints site.symbol]

inductive CheckStatus
  | nothingExamined | violationsFound | clean
deriving DecidableEq, Repr

def isConcrete (symbol : Text) : Bool := symbol ≠ moduleMark && symbol ≠ fileMark && symbol ≠ []

/-- The report, with the relations that its constructor checks. -/
structure CheckReport where
  against : Text
  sitesExamined : Nat
  sitesOk : Nat
  sitesViolation : Nat
  sitesUnresolved : Nat
  violations : List CheckSite
  unresolved : List CheckSite
  okSites : List CheckSite
  filesExamined : List Text
  filesExcluded : List Text
  targetCorroborationCapped : Bool
  importRoots : List Text
  importRootsDeterminable : Bool
  examined_eq : sitesExamined = sitesOk + sitesViolation + sitesUnresolved
  violations_eq : violations.length = sitesViolation
  unresolved_eq : unresolved.length = sitesUnresolved
  okSites_eq : okSites.length = sitesOk
  concrete : ∀ site ∈ okSites, isConcrete site.symbol
deriving DecidableEq

def CheckReport.status (report : CheckReport) : CheckStatus :=
  if report.sitesExamined = 0 then .nothingExamined
  else if 0 < report.sitesViolation then .violationsFound
  else .clean

section

variable (against : Text) (evidence : Evidence) (importRoots : List Text) (word : Char → Bool) (target : TargetText)
variable (trees : Text → Option SyntaxTree)

def siteOf (reference : CodeReference) (symbol : Text) (outcome : Outcome) (reason : String) : CheckSite :=
  ⟨reference.span.file, reference.span.startLine, reference.span.startCol, symbol, outcome, reason.toList⟩

def absentReason (symbol : Text) : String :=
  "symbol '" ++ String.ofList symbol ++ "' was not found anywhere in " ++ String.ofList against ++
    "'s materialized API index or source text"

def checkCandidate (tree : SyntaxTree) (reference : CodeReference) : Candidate :=
  candidateForReference tree (buildImportTable tree importRoots) (some evidence.modules) reference

/-- The site of a reference whose symbol was recovered. -/
def symbolSite (tree : SyntaxTree) (reference : CodeReference) (candidate : Candidate) (symbol : Text) : CheckSite :=
  if symbol.head? = some '_' then
    siteOf reference symbol .unresolved "underscore-prefixed symbol is never indexed by policy; cannot verify"
  else if hasQualifiedApi evidence (loadedModules evidence tree reference candidate.binding)
      (candidate.qualified.getD []) then
    siteOf reference symbol .ok "qualified binding is present in the source-backed API index"
  else if target.capped then
    siteOf reference symbol .unresolved
      "not in the API index, and the corroborating source scan was capped before completion"
  else if appearsInText word symbol target.texts then
    siteOf reference symbol .unresolved
      ("qualified binding is not established, but the bare name is present in pinned source text " ++
        "(likely a conditional definition, alias, or module constant the " ++
        "def/class-only extractor cannot see)")
  else siteOf reference symbol .violation (absentReason against symbol)

/-- The site of a reference. -/
def checkSite (reference : CodeReference) : CheckSite :=
  match trees reference.span.file with
  | none => siteOf reference fileMark .unresolved "consumer file could not be re-parsed for symbol recovery"
  | some tree =>
    let candidate := checkCandidate evidence importRoots tree reference
    match candidate.symbol with
    | none => siteOf reference moduleMark .unresolved candidate.reason
    | some symbol => symbolSite against evidence word target tree reference candidate symbol

def stateName : UnresolvedState → String
  | .resolved => "resolved"
  | .dynamicImport => "dynamic-import"
  | .starImport => "star-import"
  | .ambiguousBinding => "ambiguous-binding"
  | .reExport => "re-export"
  | .unsupportedSyntax => "unsupported-syntax"
  | .capExceeded => "cap-exceeded"

/-- Files that the resolver did not resolve are sites of their own. -/
def fileSites (result : ResolverResult) : List CheckSite :=
  ((result.records.filter fun record => record.2 ≠ .resolved).map fun record =>
    ⟨record.1, 0, 0, fileMark, .unresolved, ("file could not be fully resolved: " ++ stateName record.2).toList⟩) ++
  result.exclusions.map fun file =>
    ⟨file, 0, 0, fileMark, .unresolved,
      "file excluded from resolution (oversized or beyond the file-count cap)".toList⟩

def checkSites (result : ResolverResult) : List CheckSite :=
  result.references.map (checkSite against evidence importRoots word target trees) ++ fileSites result

def sitesWith (outcome : Outcome) (sites : List CheckSite) : List CheckSite :=
  KeyedList.sortBy CheckSite.key (sites.filter fun site => site.outcome = outcome)

end

section

inductive CheckError
  | index (error : CheckIndexError)
  | invalidReport
deriving DecidableEq, Repr

/-- The report on the sites; a site counted as found must name a symbol. -/
def reportOn (against : Text) (target : TargetText) (roots : Option (List Text)) (result : ResolverResult)
    (sites : List CheckSite) : Except CheckError CheckReport :=
  if h : ∀ site ∈ sitesWith .ok sites, isConcrete site.symbol then
    .ok
      { against := against
        sitesExamined := (sitesWith .ok sites).length + (sitesWith .violation sites).length +
          (sitesWith .unresolved sites).length
        sitesOk := (sitesWith .ok sites).length
        sitesViolation := (sitesWith .violation sites).length
        sitesUnresolved := (sitesWith .unresolved sites).length
        violations := sitesWith .violation sites
        unresolved := sitesWith .unresolved sites
        okSites := sitesWith .ok sites
        filesExamined := sortedTexts (result.records.map Prod.fst).dedup
        filesExcluded := sortedTexts result.exclusions
        targetCorroborationCapped := target.capped
        importRoots := sortedTexts (roots.getD [])
        importRootsDeterminable := roots.isSome
        examined_eq := rfl
        violations_eq := rfl
        unresolved_eq := rfl
        okSites_eq := rfl
        concrete := h }
  else .error .invalidReport

/-- A check: what is pinned, the roots that its own evidence gives, and the consumer as it is parsed and resolved. -/
structure CheckInput (unicode : Unicode) where
  against : Text
  files : List (SourceFile unicode)
  roots : Option (List Text)
  trees : Text → Option SyntaxTree
  resolveConsumer : List Text → ResolverResult

variable {unicode : Unicode} (input : CheckInput unicode)

def CheckInput.importRoots : List Text := sortedTexts (input.roots.getD [])

def CheckInput.index : ApiIndex := extractCheckIndex input.files

def CheckInput.evidence : Evidence := qualifiedApiEvidence input.index input.files input.importRoots

def CheckInput.result : ResolverResult := input.resolveConsumer input.importRoots

def CheckInput.sites : List CheckSite :=
  checkSites input.against input.evidence input.importRoots unicode.word (readTargetText input.files) input.trees
    input.result

def runCheck : Except CheckError CheckReport :=
  match requireCheckableIndex input.index with
  | .error error => .error (.index error)
  | .ok _ => reportOn input.against (readTargetText input.files) input.roots input.result input.sites

theorem runCheck_violations {report : CheckReport} (h : runCheck input = .ok report) :
    report.violations = sitesWith .violation input.sites := by
  unfold runCheck at h
  split at h
  next => cases h
  next =>
    unfold reportOn at h
    split at h
    next =>
      cases h
      rfl
    next => cases h

end

end Leitir.Check
