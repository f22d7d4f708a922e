import Leitir.CheckReport
import Leitir.Impact

namespace Leitir.Check

open List

open Usage (Text CodeReference UnresolvedState)

section

variable {against : Text} {evidence : Evidence} {importRoots : List Text} {word : Char → Bool} {target : TargetText}
variable {trees : Text → Option SyntaxTree} {result : ResolverResult}

/-- No reference is resolved to a symbol: its file cannot be parsed again, or its candidate has no symbol. -/
def Unrecovered (trees : Text → Option SyntaxTree) (candidate : SyntaxTree → CodeReference → Candidate)
    (references : List CodeReference) : Prop :=
  ∀ reference ∈ references, ∀ tree, trees reference.span.file = some tree → (candidate tree reference).symbol = none

theorem checkSite_unrecovered {reference : CodeReference}
    (h : ∀ tree, trees reference.span.file = some tree → (checkCandidate evidence importRoots tree reference).symbol = none) :
    (checkSite against evidence importRoots word target trees reference).outcome = .unresolved := by
  unfold checkSite
  split
  next => rfl
  next tree htree =>
    simp only [h tree htree]
    rfl

theorem fileSites_unresolved {site : CheckSite} (h : site ∈ fileSites result) : site.outcome = .unresolved := by
  unfold fileSites at h
  rcases mem_append.mp h with h | h
  · obtain ⟨record, -, rfl⟩ := mem_map.mp h
    rfl
  · obtain ⟨file, -, rfl⟩ := mem_map.mp h
    rfl

theorem checkSites_unrecovered (h : Unrecovered trees (checkCandidate evidence importRoots) result.references)
    {site : CheckSite} (hsite : site ∈ checkSites against evidence importRoots word target trees result) :
    site.outcome = .unresolved := by
  unfold checkSites at hsite
  rcases mem_append.mp hsite with hsite | hsite
  · obtain ⟨reference, hreference, rfl⟩ := mem_map.mp hsite
    exact checkSite_unrecovered (h reference hreference)
  · exact fileSites_unresolved hsite

theorem length_checkSites :
    (checkSites against evidence importRoots word target trees result).length = result.siteCount := by
  simp only [checkSites, fileSites, ResolverResult.siteCount, length_append, length_map]
  omega

theorem sitesWith_eq_nil {sites : List CheckSite} {outcome : Outcome} (h : ∀ site ∈ sites, site.outcome ≠ outcome) :
    sitesWith outcome sites = [] := by
  apply eq_nil_iff_forall_not_mem.mpr
  intro site hsite
  obtain ⟨hmem, heq⟩ := mem_filter.mp (KeyedList.mem_sortBy.mp hsite)
  exact h site hmem (of_decide_eq_true heq)

theorem sitesWith_perm {sites : List CheckSite} {outcome : Outcome} (h : ∀ site ∈ sites, site.outcome = outcome) :
    (sitesWith outcome sites).Perm sites := by
  have hall : (sites.filter fun site => site.outcome = outcome) = sites := by
    apply filter_eq_self.mpr
    intro site hsite
    exact decide_eq_true (h site hsite)
  unfold sitesWith
  rw [hall]
  exact KeyedList.perm_sortBy _ _

end

section

variable {unicode : Unicode}

theorem runCheck_listed (input : CheckInput unicode) (hindex : input.index.modules ≠ [])
    (hconcrete : ∀ site ∈ sitesWith .ok input.sites, isConcrete site.symbol) :
    ∃ report, runCheck input = .ok report ∧ report.okSites = sitesWith .ok input.sites ∧
      report.violations = sitesWith .violation input.sites ∧ report.unresolved = sitesWith .unresolved input.sites := by
  have hrun : ∃ report, reportOn input.against (readTargetText input.files) input.roots input.result input.sites =
      .ok report ∧ report.okSites = sitesWith .ok input.sites ∧
      report.violations = sitesWith .violation input.sites ∧ report.unresolved = sitesWith .unresolved input.sites := by
    unfold reportOn
    rw [dif_pos hconcrete]
    exact ⟨_, rfl, rfl, rfl, rfl⟩
  unfold runCheck requireCheckableIndex
  rw [if_neg hindex]
  exact hrun

/-- A check where no reference has a symbol lists all its sites as unresolved. -/
theorem runCheck_unrecovered (input : CheckInput unicode) (hindex : input.index.modules ≠ [])
    (h : Unrecovered input.trees (checkCandidate input.evidence input.importRoots) input.result.references) :
    ∃ report, runCheck input = .ok report ∧ report.okSites = [] ∧ report.violations = [] ∧
      report.unresolved.Perm input.sites ∧ report.sitesExamined = input.result.siteCount ∧
      report.status = if input.result.siteCount = 0 then .nothingExamined else .clean := by
  have hall : ∀ site ∈ input.sites, site.outcome = .unresolved := fun site hsite => checkSites_unrecovered h hsite
  have hok : sitesWith .ok input.sites = [] := by
    apply sitesWith_eq_nil
    intro site hsite
    simp [hall site hsite]
  have hviolation : sitesWith .violation input.sites = [] := by
    apply sitesWith_eq_nil
    intro site hsite
    simp [hall site hsite]
  have hperm := sitesWith_perm hall
  have hcount : input.sites.length = input.result.siteCount := length_checkSites
  have hconcrete : ∀ site ∈ sitesWith .ok input.sites, isConcrete site.symbol := by simp [hok]
  obtain ⟨report, hrun, hlisted⟩ := runCheck_listed input hindex hconcrete
  have hexamined : report.sitesExamined = input.result.siteCount := by
    rw [report.examined_eq, ← report.okSites_eq, ← report.violations_eq, ← report.unresolved_eq, hlisted.1, hlisted.2.1,
      hlisted.2.2, hok, hviolation, hperm.length_eq, hcount]
    simp
  have hnone : report.sitesViolation = 0 := by
    rw [← report.violations_eq, hlisted.2.1, hviolation]
    rfl
  refine ⟨report, hrun, hlisted.1.trans hok, hlisted.2.1.trans hviolation, hlisted.2.2 ▸ hperm, hexamined, ?_⟩
  unfold CheckReport.status
  rw [hexamined, hnone]
  rfl

end

section

variable {removed : List ApiSymbol} {importRoot : Text} {trees : Text → Option SyntaxTree} {result : ResolverResult}

def impactCandidate (importRoot : Text) (tree : SyntaxTree) (reference : CodeReference) : Candidate :=
  candidateForReference tree (buildImportTable tree [importRoot]) none reference

theorem siteOutcome_unrecovered (removed : List ApiSymbol) {reference : CodeReference}
    (h : ∀ tree, trees reference.span.file = some tree → (impactCandidate importRoot tree reference).symbol = none) :
    ∃ mark, siteOutcome removed importRoot trees reference = .unresolved mark := by
  unfold siteOutcome
  split
  next => exact ⟨_, rfl⟩
  next tree htree =>
    have hnone := h tree htree
    unfold impactCandidate at hnone
    simp only [hnone]
    exact ⟨_, rfl⟩

variable (hall : Unrecovered trees (impactCandidate importRoot) result.references)
include hall

theorem impactedNames_unrecovered : impactedNames removed importRoot trees result = [] := by
  have hnone : (result.references.filterMap fun reference =>
      impactedName? (siteOutcome removed importRoot trees reference)) = [] := by
    apply filterMap_eq_nil_iff.mpr
    intro reference hreference
    obtain ⟨mark, hmark⟩ := siteOutcome_unrecovered removed (hall reference hreference)
    rw [hmark]
    rfl
  unfold impactedNames
  rw [hnone]
  rfl

theorem impactedSymbols_unrecovered : impactedSymbols removed importRoot trees result = [] := by
  unfold impactedSymbols
  rw [impactedNames_unrecovered hall]
  rfl

theorem otherSites_unrecovered : otherSites removed importRoot trees result = 0 := by
  unfold otherSites
  rw [length_eq_zero_iff, filter_eq_nil_iff]
  intro reference hreference
  obtain ⟨mark, hmark⟩ := siteOutcome_unrecovered removed (hall reference hreference)
  simp [hmark]

theorem unresolvedReferences_unrecovered :
    (result.references.filterMap (unresolvedReference removed importRoot trees)).length = result.references.length := by
  have hmap : ∀ references : List CodeReference, (∀ reference ∈ references,
      (unresolvedReference removed importRoot trees reference).isSome) →
      (references.filterMap (unresolvedReference removed importRoot trees)).length = references.length := by
    intro references hsome
    induction references with
    | nil => rfl
    | cons reference rest ih =>
      obtain ⟨site, hsite⟩ := Option.isSome_iff_exists.mp (hsome reference mem_cons_self)
      rw [filterMap_cons_some hsite, length_cons, length_cons,
        ih fun other hother => hsome other (mem_cons_of_mem _ hother)]
  apply hmap
  intro reference hreference
  obtain ⟨mark, hmark⟩ := siteOutcome_unrecovered removed (hall reference hreference)
  simp [unresolvedReference, hmark]

theorem length_unresolvedSites : (unresolvedSites removed importRoot trees result).length = result.siteCount := by
  have hperm := KeyedList.perm_sortBy siteKeyFull
    (result.references.filterMap (unresolvedReference removed importRoot trees) ++ unresolvedFiles result)
  unfold unresolvedSites
  rw [hperm.length_eq, length_append, unresolvedReferences_unrecovered hall]
  simp only [unresolvedFiles, ResolverResult.siteCount, length_append, length_map]
  omega

theorem examinedCount_unrecovered : examinedCount removed importRoot trees result = result.siteCount := by
  unfold examinedCount impactedCount
  rw [impactedSymbols_unrecovered hall, otherSites_unrecovered hall, length_unresolvedSites hall]
  simp

end

/-- An impact report where something was removed and no reference has a symbol: nothing is impacted, and all sites are
listed as unresolved. -/
theorem computeImpact_unrecovered {before after : ApiIndex} {importRoot : Text} {trees : Text → Option SyntaxTree}
    {resolveConsumer : Text → ResolverResult} (hbefore : before.modules ≠ []) (hafter : after.modules ≠ [])
    (hremoved : removedSymbols before after ≠ [])
    (h : Unrecovered trees (impactCandidate importRoot) (resolveConsumer importRoot).references) :
    ∃ report, computeImpact before after importRoot trees resolveConsumer = .ok report ∧ report.impacted = [] ∧
      report.sitesUnresolved = (resolveConsumer importRoot).siteCount ∧ report.sitesOther = 0 ∧
      report.sitesExamined = (resolveConsumer importRoot).siteCount ∧
      (report.status = if (resolveConsumer importRoot).siteCount = 0 then .noSitesExamined else .clean) ∧
      report.notImpacted = if (resolveConsumer importRoot).siteCount = 0 then []
        else sortedTexts (removedNames (removedSymbols before after)) := by
  refine ⟨impactOf (removedSymbols before after) importRoot trees (resolveConsumer importRoot), ?_,
    impactedSymbols_unrecovered h, length_unresolvedSites h, otherSites_unrecovered h, examinedCount_unrecovered h, ?_, ?_⟩
  · simp only [computeImpact, requireCheckableIndex, if_neg hbefore, if_neg hafter, if_neg hremoved]
    rfl
  · simp only [impactOf, examinedCount_unrecovered h, impactedSymbols_unrecovered h]
    simp
  · simp only [impactOf, examinedCount_unrecovered h, impactedNames_unrecovered h]
    simp

/-- Where no reference is resolved to a symbol, a check finds nothing in order and nothing missing, and an impact
report finds nothing impacted; both list every site as unresolved, and both are clean exactly when there is one. -/
theorem unrecovered_verdicts {unicode : Unicode} (input : CheckInput unicode) (before after : ApiIndex) (importRoot : Text)
    (trees : Text → Option SyntaxTree) (resolveConsumer : Text → ResolverResult) :
    (Unrecovered input.trees (checkCandidate input.evidence input.importRoots) input.result.references →
      input.index.modules = [] ∧ runCheck input = .error (.index .empty) ∨
      ∃ report, runCheck input = .ok report ∧ report.okSites = [] ∧ report.violations = [] ∧
        report.unresolved.Perm input.sites ∧ report.sitesExamined = input.result.siteCount ∧
        report.status = if input.result.siteCount = 0 then .nothingExamined else .clean) ∧
    (Unrecovered trees (impactCandidate importRoot) (resolveConsumer importRoot).references →
      removedSymbols before after ≠ [] →
      (before.modules = [] ∨ after.modules = []) ∧
        computeImpact before after importRoot trees resolveConsumer = .error .empty ∨
      ∃ report, computeImpact before after importRoot trees resolveConsumer = .ok report ∧ report.impacted = [] ∧
        report.sitesUnresolved = (resolveConsumer importRoot).siteCount ∧ report.sitesOther = 0 ∧
        report.sitesExamined = (resolveConsumer importRoot).siteCount ∧
        (report.status = if (resolveConsumer importRoot).siteCount = 0 then .noSitesExamined else .clean) ∧
        report.notImpacted = if (resolveConsumer importRoot).siteCount = 0 then []
          else sortedTexts (removedNames (removedSymbols before after))) := by
  refine ⟨fun h => ?_, fun h hremoved => ?_⟩
  · by_cases hindex : input.index.modules = []
    · refine Or.inl ⟨hindex, ?_⟩
      unfold runCheck requireCheckableIndex
      rw [if_pos hindex]
    · exact Or.inr (runCheck_unrecovered input hindex h)
  · by_cases hbefore : before.modules = []
    · refine Or.inl ⟨Or.inl hbefore, ?_⟩
      simp only [computeImpact, requireCheckableIndex, if_pos hbefore]
      rfl
    · by_cases hafter : after.modules = []
      · refine Or.inl ⟨Or.inr hafter, ?_⟩
        simp only [computeImpact, requireCheckableIndex, if_neg hbefore, if_pos hafter]
        rfl
      · exact Or.inr (computeImpact_unrecovered hbefore hafter hremoved h)

def asciiUnicode : Unicode := ⟨fun ch => ch.isAlphanum || ch == '_', id⟩

/-- A pinned module that defines one function. -/
def demoFile : SourceFile asciiUnicode where
  path := ["demo.py".toList]
  regular := true
  size := 15
  text := some "def old(): pass".toList
  parsed := some [.function "old".toList []]
  spelled := by
    intro content hcontent name hname
    cases hcontent
    rw [List.mem_singleton.mp hname]
    exact ⟨⟨"def ".toList, "(): pass".toList, by decide⟩, rfl⟩

def brokenConsumer : ResolverResult := ⟨[], [("app.py".toList, .unsupportedSyntax)], []⟩

/-- A consumer of one file that cannot be parsed. -/
def brokenInput : CheckInput asciiUnicode where
  against := "demo".toList
  files := [demoFile]
  roots := some ["demo".toList]
  trees := fun _ => none
  resolveConsumer := fun _ => brokenConsumer

def oldIndex : ApiIndex where
  modules := [⟨["demo".toList], ["demo.py".toList]⟩]
  symbols := [⟨"old".toList, ["demo".toList, "old".toList], ["demo".toList], rfl⟩]

def newIndex : ApiIndex := { oldIndex with symbols := [] }

theorem unrecovered_verdicts_broken :
    (∃ report, runCheck brokenInput = .ok report ∧ report.okSites = [] ∧ report.violations = []) ∧
    ∃ report, computeImpact oldIndex newIndex "demo".toList (fun _ => none) (fun _ => brokenConsumer) = .ok report ∧
      report.impacted = [] ∧ report.sitesOther = 0 := by
  have hverdicts := unrecovered_verdicts brokenInput oldIndex newIndex "demo".toList (fun _ => none) fun _ => brokenConsumer
  have hcheck : Unrecovered brokenInput.trees (checkCandidate brokenInput.evidence brokenInput.importRoots)
      brokenInput.result.references := by
    intro reference hreference
    cases hreference
  have himpact : Unrecovered (fun _ => none) (impactCandidate "demo".toList) brokenConsumer.references := by
    intro reference hreference
    cases hreference
  have hremoved : removedSymbols oldIndex newIndex ≠ [] := by decide +kernel
  refine ⟨?_, ?_⟩
  · rcases hverdicts.1 hcheck with ⟨hnil, -⟩ | ⟨report, hrun, hok, hviolations, -⟩
    · exact absurd hnil (by decide +kernel)
    · exact ⟨report, hrun, hok, hviolations⟩
  · rcases hverdicts.2 himpact hremoved with ⟨hnil, -⟩ | ⟨report, hrun, himpacted, -, hother, -⟩
    · exact absurd hnil (by decide +kernel)
    · exact ⟨report, hrun, himpacted, hother⟩

/-- One file that cannot be parsed makes both verdicts clean, and the removed symbol is listed as not impacted. -/
theorem unparsed_file_clean :
    brokenConsumer.references = [] ∧
    (∃ report, runCheck brokenInput = .ok report ∧ report.status = .clean) ∧
    ∃ report, computeImpact oldIndex newIndex "demo".toList (fun _ => none) (fun _ => brokenConsumer) = .ok report ∧
      report.status = .clean ∧ report.notImpacted = ["old".toList] := by
  refine ⟨rfl, ⟨_, rfl, ?_⟩, ⟨_, rfl, ?_⟩⟩
  · decide +kernel
  · decide +kernel

end Leitir.Check
