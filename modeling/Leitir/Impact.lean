import Leitir.CheckTree

namespace Leitir.Check

open Usage (Text CodeReference UnresolvedState)

/-- The first symbol of each qualified name that only the earlier index has. -/
def removedSymbols (before after : ApiIndex) : List ApiSymbol :=
  (sortedNames ((before.symbols.map ApiSymbol.qualifiedName).dedup.filter fun name =>
    name ∉ after.symbols.map ApiSymbol.qualifiedName)).filterMap fun name =>
      before.symbols.find? fun symbol => symbol.qualifiedName = name

def removedByName (removed : List ApiSymbol) (name : Text) : Option ApiSymbol :=
  removed.find? fun symbol => symbol.name = name

def removedNames (removed : List ApiSymbol) : List Text := (removed.map ApiSymbol.name).dedup

structure ImpactSite where
  file : Text
  line : Nat
  col : Nat
  symbol : Text
deriving DecidableEq

def isRemoved (removed : List ApiSymbol) (name : Dotted) : Bool :=
  removed.any fun symbol => name <:+ symbol.qualifiedName

def ancestors (qualified : Dotted) : List Dotted :=
  (List.range' 2 (qualified.length - 2)).map qualified.take

/-- The name under which a site is looked up: the imported name if it was removed, else the first owner that was, else
the symbol itself. -/
def attributedName (removed : List ApiSymbol) (imported : Option Dotted) (qualified : Dotted) (symbol : Text) : Text :=
  match imported.filter fun name => name.getLastD [] ∈ removedNames removed with
  | some name => name.getLastD []
  | none =>
    match (ancestors qualified).find? (isRemoved removed) with
    | some owner => owner.getLastD []
    | none => symbol

inductive SiteOutcome
  | unresolved (mark : Text)
  | impacted (name : Text)
  | other
deriving DecidableEq

/-- What becomes of a reference. -/
def siteOutcome (removed : List ApiSymbol) (importRoot : Text) (trees : Text → Option SyntaxTree)
    (reference : CodeReference) : SiteOutcome :=
  match trees reference.span.file with
  | none => .unresolved fileMark
  | some tree =>
    let table := buildImportTable tree [importRoot]
    let candidate := candidateForReference tree table none reference
    match candidate.symbol, candidate.qualified with
    | some symbol, some qualified =>
      let imported := (findNameNode tree reference.span.startLine reference.span.startCol).bind fun node =>
        table.symbolAlias none node.id
      let name := attributedName removed imported qualified symbol
      if name ∈ removedNames removed then .impacted name else .other
    | _, _ => .unresolved moduleMark

def siteAt (reference : CodeReference) (symbol : Text) : ImpactSite :=
  ⟨reference.span.file, reference.span.startLine, reference.span.startCol, symbol⟩

section

structure ImpactedSymbol where
  name : Text
  qualifiedName : Dotted
  sites : List ImpactSite
deriving DecidableEq

inductive ImpactStatus
  | noSitesExamined | impactFound | clean
deriving DecidableEq, Repr

/-- The report, with the relations that its constructor checks. -/
structure ImpactReport where
  removedTotal : Nat
  status : ImpactStatus
  sitesExamined : Nat
  sitesImpacted : Nat
  sitesUnresolved : Nat
  sitesOther : Nat
  impacted : List ImpactedSymbol
  notImpacted : List Text
  unresolvedSites : List ImpactSite
  impacted_eq : sitesImpacted = (impacted.map fun symbol => symbol.sites.length).sum
  unresolved_eq : sitesUnresolved = unresolvedSites.length
  examined_eq : sitesExamined = sitesImpacted + sitesUnresolved + sitesOther
  loud : status = .noSitesExamined → removedTotal ≠ 0 → notImpacted = []

variable (removed : List ApiSymbol) (importRoot : Text) (trees : Text → Option SyntaxTree) (result : ResolverResult)

def siteKey (site : ImpactSite) : KeyedList.Key := [codePoints site.file, [site.line], [site.col]]

def siteKeyFull (site : ImpactSite) : KeyedList.Key := siteKey site ++ [codePoints site.symbol]

def sitesOf (name : Text) : List ImpactSite :=
  (result.references.filter fun reference => siteOutcome removed importRoot trees reference = .impacted name).map
    fun reference => siteAt reference name

def impactedName? : SiteOutcome → Option Text
  | .impacted name => some name
  | _ => none

def impactedNames : List Text :=
  (result.references.filterMap fun reference => impactedName? (siteOutcome removed importRoot trees reference)).dedup

def unresolvedReference (reference : CodeReference) : Option ImpactSite :=
  match siteOutcome removed importRoot trees reference with
  | .unresolved mark => some (siteAt reference mark)
  | _ => none

def unresolvedFiles : List ImpactSite :=
  ((result.records.filter fun record => record.2 ≠ .resolved).map fun record => ⟨record.1, 0, 0, fileMark⟩) ++
    result.exclusions.map fun file => ⟨file, 0, 0, fileMark⟩

def unresolvedSites : List ImpactSite :=
  KeyedList.sortBy siteKeyFull
    (result.references.filterMap (unresolvedReference removed importRoot trees) ++ unresolvedFiles result)

def impactedSymbols : List ImpactedSymbol :=
  (sortedTexts (impactedNames removed importRoot trees result)).map fun name =>
    ⟨name, ((removedByName removed name).map ApiSymbol.qualifiedName).getD [name],
      KeyedList.sortBy siteKey (sitesOf removed importRoot trees result name)⟩

def otherSites : Nat :=
  (result.references.filter fun reference => siteOutcome removed importRoot trees reference = .other).length

def impactedCount : Nat :=
  ((impactedSymbols removed importRoot trees result).map fun symbol => symbol.sites.length).sum

def examinedCount : Nat :=
  impactedCount removed importRoot trees result + (unresolvedSites removed importRoot trees result).length +
    otherSites removed importRoot trees result

/-- The report on a consumer, where something was removed. -/
def impactOf : ImpactReport where
  removedTotal := (removedNames removed).length
  status :=
    if examinedCount removed importRoot trees result = 0 then .noSitesExamined
    else if impactedSymbols removed importRoot trees result ≠ [] then .impactFound else .clean
  sitesExamined := examinedCount removed importRoot trees result
  sitesImpacted := impactedCount removed importRoot trees result
  sitesUnresolved := (unresolvedSites removed importRoot trees result).length
  sitesOther := otherSites removed importRoot trees result
  impacted := impactedSymbols removed importRoot trees result
  notImpacted :=
    if examinedCount removed importRoot trees result = 0 then []
    else sortedTexts ((removedNames removed).filter fun name => name ∉ impactedNames removed importRoot trees result)
  unresolvedSites := unresolvedSites removed importRoot trees result
  impacted_eq := rfl
  unresolved_eq := rfl
  examined_eq := rfl
  loud := by
    intro hstatus _
    split at hstatus
    next hnone => rw [if_pos hnone]
    next =>
      split at hstatus
      next => cases hstatus
      next => cases hstatus

/-- The report where nothing was removed; the consumer is not looked at. -/
def vacuousReport : ImpactReport where
  removedTotal := 0
  status := .clean
  sitesExamined := 0
  sitesImpacted := 0
  sitesUnresolved := 0
  sitesOther := 0
  impacted := []
  notImpacted := []
  unresolvedSites := []
  impacted_eq := rfl
  unresolved_eq := rfl
  examined_eq := rfl
  loud := by simp

def computeImpact (before after : ApiIndex) (importRoot : Text) (trees : Text → Option SyntaxTree)
    (resolveConsumer : Text → ResolverResult) : Except CheckIndexError ImpactReport := do
  requireCheckableIndex before
  requireCheckableIndex after
  let removed := removedSymbols before after
  if removed = [] then pure vacuousReport else pure (impactOf removed importRoot trees (resolveConsumer importRoot))

end

end Leitir.Check
