import Leitir.CheckExistence
import Leitir.CheckVerdicts

namespace Leitir.Check

open Usage (Text CodeReference UnresolvedState)

section

variable {against : Text} {evidence : Evidence} {importRoots : List Text} {word : Char → Bool} {target : TargetText}
variable {trees : Text → Option SyntaxTree} {reference : CodeReference}

/-- The source shows the access to be defined, from the modules that are loaded at the reference. -/
def Established (evidence : Evidence) (importRoots : List Text) (tree : SyntaxTree) (reference : CodeReference)
    (access : Dotted) : Prop :=
  hasQualifiedApi evidence
    (loadedModules evidence tree reference (checkCandidate evidence importRoots tree reference).binding) access = true

theorem symbolSite_violation {tree : SyntaxTree} {candidate : Candidate} {symbol : Text} :
    (symbolSite against evidence word target tree reference candidate symbol).outcome = .violation ↔
      isPublic symbol ∧
      hasQualifiedApi evidence (loadedModules evidence tree reference candidate.binding) (candidate.qualified.getD []) ≠ true ∧
      target.capped ≠ true ∧ appearsInText word symbol target.texts ≠ true := by
  unfold symbolSite isPublic
  split
  next hprivate => simp [siteOf, hprivate]
  next hpublic =>
    split
    next hknown => simp [siteOf, hknown]
    next hunknown =>
      split
      next hcapped => simp [siteOf, hcapped]
      next hscanned =>
        split
        next happears => simp [siteOf, happears]
        next habsent => simp [siteOf, hpublic, hunknown, hscanned, habsent]

/-- A violation is a public access that is not established and whose name the scanned text does not hold. -/
theorem checkSite_violation :
    (checkSite against evidence importRoots word target trees reference).outcome = .violation ↔
      ∃ tree access, trees reference.span.file = some tree ∧
        (checkCandidate evidence importRoots tree reference).qualified = some access ∧ isPublic (access.getLastD []) ∧
        ¬ Established evidence importRoots tree reference access ∧ target.capped ≠ true ∧
        appearsInText word (access.getLastD []) target.texts ≠ true := by
  unfold checkSite
  cases htree : trees reference.span.file with
  | none => simp [siteOf]
  | some tree =>
    have hsymbol : (checkCandidate evidence importRoots tree reference).symbol =
        (checkCandidate evidence importRoots tree reference).qualified.map fun name => name.getLastD [] :=
      candidateForReference_symbol tree _ _ reference
    cases haccess : (checkCandidate evidence importRoots tree reference).qualified with
    | none =>
      rw [haccess, Option.map_none] at hsymbol
      simp only [hsymbol]
      constructor
      · intro h
        cases h
      · rintro ⟨tree', access, htree', haccess', -⟩
        cases htree'
        rw [haccess] at haccess'
        cases haccess'
    | some access =>
      rw [haccess, Option.map_some] at hsymbol
      simp only [hsymbol]
      rw [symbolSite_violation, haccess]
      constructor
      · rintro ⟨hpublic, hunknown, hscanned, habsent⟩
        exact ⟨tree, access, rfl, haccess, hpublic, hunknown, hscanned, habsent⟩
      · rintro ⟨tree', access', htree', haccess', hpublic, hunknown, hscanned, habsent⟩
        cases htree'
        rw [haccess] at haccess'
        cases haccess'
        exact ⟨hpublic, hunknown, hscanned, habsent⟩

section

variable {other : CodeReference} (hfile : other.span.file = reference.span.file)
variable (hline : other.span.startLine = reference.span.startLine) (hcol : other.span.startCol = reference.span.startCol)
include hline hcol

theorem checkCandidate_position (tree : SyntaxTree) :
    checkCandidate evidence importRoots tree other = checkCandidate evidence importRoots tree reference := by
  unfold checkCandidate candidateForReference
  rw [hline, hcol]

theorem loadedModules_position (tree : SyntaxTree) (binding : Option Dotted) :
    loadedModules evidence tree other binding = loadedModules evidence tree reference binding := by
  unfold loadedModules requestedModules
  rw [hline, hcol]

include hfile

theorem siteOf_position (symbol : Text) (outcome : Outcome) (reason : String) :
    siteOf other symbol outcome reason = siteOf reference symbol outcome reason := by
  unfold siteOf
  rw [hfile, hline, hcol]

theorem checkSite_position : checkSite against evidence importRoots word target trees other =
    checkSite against evidence importRoots word target trees reference := by
  have hsite := siteOf_position hfile hline hcol
  unfold checkSite symbolSite
  rw [hfile]
  cases trees reference.span.file with
  | none => exact hsite _ _ _
  | some tree =>
    simp only [checkCandidate_position hline hcol, loadedModules_position hline hcol, hsite]

end

def CheckSite.At (site : CheckSite) (reference : CodeReference) : Prop :=
  site.file = reference.span.file ∧ site.line = reference.span.startLine ∧ site.col = reference.span.startCol

theorem symbolSite_at {tree : SyntaxTree} {candidate : Candidate} {symbol : Text} :
    (symbolSite against evidence word target tree reference candidate symbol).At reference := by
  unfold symbolSite
  split
  next => exact ⟨rfl, rfl, rfl⟩
  next =>
    split
    next => exact ⟨rfl, rfl, rfl⟩
    next =>
      split
      next => exact ⟨rfl, rfl, rfl⟩
      next =>
        split
        next => exact ⟨rfl, rfl, rfl⟩
        next => exact ⟨rfl, rfl, rfl⟩

theorem checkSite_at : (checkSite against evidence importRoots word target trees reference).At reference := by
  unfold checkSite
  split
  next => exact ⟨rfl, rfl, rfl⟩
  next =>
    simp only
    split
    next => exact ⟨rfl, rfl, rfl⟩
    next => exact symbolSite_at

end

section

variable {unicode : Unicode} (input : CheckInput unicode) (outside : Outside)

/-- The access of a reference of the consumer, in the tree of its file. -/
def Accesses (tree : SyntaxTree) (reference : CodeReference) (access : Dotted) : Prop :=
  reference ∈ input.result.references ∧ input.trees reference.span.file = some tree ∧
    (checkCandidate input.evidence input.importRoots tree reference).qualified = some access

/-- A site is reported as a violation although the tree has what it accesses. -/
def FalseAlarm (report : CheckReport) : Prop :=
  ∃ site ∈ report.violations, ∃ tree reference access origin, site.At reference ∧ Accesses input tree reference access ∧
    Has input.files input.importRoots outside access origin

/-- The tree has the access, but not as an ordinary identifier that one of its files writes: as the name of a file, from
outside the tree, or in another spelling. -/
def Unwritten (access : Dotted) : Prop :=
  ∃ origin, Has input.files input.importRoots outside access origin ∧
    ∀ file, origin = .written file → ¬ Ordinary file (access.getLastD [])

variable {input outside} {report : CheckReport}

theorem mem_violations (h : runCheck input = .ok report) {site : CheckSite} :
    site ∈ report.violations ↔ ∃ reference ∈ input.result.references, site.outcome = .violation ∧
      site = checkSite input.against input.evidence input.importRoots unicode.word (readTargetText input.files) input.trees
        reference := by
  rw [runCheck_violations input h]
  unfold sitesWith
  rw [KeyedList.mem_sortBy, List.mem_filter, decide_eq_true_eq]
  unfold CheckInput.sites checkSites
  rw [List.mem_append, List.mem_map]
  constructor
  · rintro ⟨⟨reference, hreference, rfl⟩ | hfile, hviolation⟩
    · exact ⟨reference, hreference, hviolation, rfl⟩
    · rw [fileSites_unresolved hfile] at hviolation
      cases hviolation
  · rintro ⟨reference, hreference, hviolation, rfl⟩
    exact ⟨Or.inl ⟨reference, hreference, rfl⟩, hviolation⟩

/-- No violation is a false alarm exactly when every public access that is not established and that the tree has
otherwise than in plain writing is a word of the tree's text all the same. -/
theorem no_falseAlarm_iff (h : runCheck input = .ok report) (hcapped : (readTargetText input.files).capped = false) :
    ¬ FalseAlarm input outside report ↔
      ∀ tree reference access, Accesses input tree reference access → isPublic (access.getLastD []) →
        ¬ Established input.evidence input.importRoots tree reference access → Unwritten input outside access →
        appearsInText unicode.word (access.getLastD []) (readTargetText input.files).texts = true := by
  constructor
  · intro hnone tree reference access haccess hpublic hunknown ⟨origin, hhas, _⟩
    by_contra habsent
    apply hnone
    have hviolation : (checkSite input.against input.evidence input.importRoots unicode.word (readTargetText input.files)
        input.trees reference).outcome = .violation :=
      checkSite_violation.mpr ⟨tree, access, haccess.2.1, haccess.2.2, hpublic, hunknown, by simp [hcapped], habsent⟩
    exact ⟨_, (mem_violations h).mpr ⟨reference, haccess.1, hviolation, rfl⟩, tree, reference, access, origin,
      checkSite_at, haccess, hhas⟩
  · rintro hall ⟨site, hsite, tree, reference, access, origin, hat, haccess, hhas⟩
    obtain ⟨other, -, hviolation, rfl⟩ := (mem_violations h).mp hsite
    obtain ⟨hfile, hline, hcol⟩ := hat
    obtain ⟨hfile', hline', hcol'⟩ := @checkSite_at input.against input.evidence input.importRoots unicode.word
      (readTargetText input.files) input.trees other
    rw [checkSite_position (hfile'.symm.trans hfile) (hline'.symm.trans hline) (hcol'.symm.trans hcol)] at hviolation
    obtain ⟨tree', access', htree', haccess', hpublic, hunknown, -, habsent⟩ := checkSite_violation.mp hviolation
    obtain ⟨hreference, htree, hqualified⟩ := haccess
    rw [htree] at htree'
    cases htree'
    rw [hqualified] at haccess'
    cases haccess'
    have hunwritten : Unwritten input outside access := by
      refine ⟨origin, hhas, ?_⟩
      rintro file rfl hordinary
      exact habsent (hhas.writes.appears hordinary hcapped)
    exact habsent (hall tree reference access ⟨hreference, htree, hqualified⟩ hpublic hunknown hunwritten)

/-- A consumer that calls the function of the pinned module. -/
def callingInput : CheckInput asciiUnicode where
  against := "demo".toList
  files := [demoFile]
  roots := some ["demo".toList]
  trees := fun _ => some ⟨[.plain [(["demo".toList], none)]], [⟨"demo".toList, 3, 0, ["old".toList]⟩],
    [⟨1, 11, .plain [(["demo".toList], none)]⟩]⟩
  resolveConsumer := fun _ =>
    ⟨[⟨"demo".toList, ⟨"app.py".toList, 3, 0, 3, 4⟩, []⟩], [("app.py".toList, .resolved)], []⟩

theorem no_falseAlarm_call : ∃ report, runCheck callingInput = .ok report ∧ report.sitesOk = 1 ∧
    ¬ FalseAlarm callingInput ⟨fun _ _ => False, fun _ _ => False⟩ report := by
  refine ⟨_, rfl, by decide +kernel, ?_⟩
  rw [no_falseAlarm_iff (show runCheck callingInput = .ok _ from rfl) (by decide +kernel)]
  rintro tree reference access ⟨hreference, htree, haccess⟩ - hunknown
  cases htree
  rw [List.mem_singleton.mp hreference] at haccess hunknown
  have hold : access = ["demo".toList, "old".toList] := Option.some.inj (haccess.symm.trans (by decide +kernel))
  subst hold
  exact absurd (by unfold Established; decide +kernel) hunknown

/-- A package with a module that nothing in its text names. -/
def packageFile : SourceFile asciiUnicode where
  path := ["pkg".toList, "__init__.py".toList]
  regular := true
  size := 0
  text := some []
  parsed := some []
  spelled := by
    intro _ _ name hname
    cases hname

def moduleOnlyFile : SourceFile asciiUnicode where
  path := ["pkg".toList, "sub.py".toList]
  regular := true
  size := 0
  text := some []
  parsed := some []
  spelled := by
    intro _ _ name hname
    cases hname

/-- A consumer that imports the module from the package and hands it on. -/
def moduleInput : CheckInput asciiUnicode where
  against := "pkg".toList
  files := [packageFile, moduleOnlyFile]
  roots := some ["pkg".toList]
  trees := fun _ => some ⟨[.fromModule (some ["pkg".toList]) 0 [("sub".toList, none)]], [⟨"sub".toList, 3, 6, []⟩],
    [⟨1, 19, .fromModule (some ["pkg".toList]) 0 [("sub".toList, none)]⟩]⟩
  resolveConsumer := fun _ =>
    ⟨[⟨"pkg".toList, ⟨"app.py".toList, 3, 6, 3, 9⟩, []⟩], [("app.py".toList, .resolved)], []⟩

/-- A module file of the tree is reported as a violation when it is used by itself. -/
theorem module_file_alarm : (readTargetText moduleInput.files).capped = false ∧
    ∃ report, runCheck moduleInput = .ok report ∧
      FalseAlarm moduleInput ⟨fun _ _ => False, fun _ _ => False⟩ report := by
  refine ⟨by decide +kernel, _, rfl, ?_⟩
  refine ⟨⟨"app.py".toList, 3, 6, "sub".toList, .violation, (absentReason "pkg".toList "sub".toList).toList⟩,
    by decide +kernel, _, ⟨"pkg".toList, ⟨"app.py".toList, 3, 6, 3, 9⟩, []⟩, ["pkg".toList, "sub".toList], .fileName,
    ⟨rfl, rfl, rfl⟩, ⟨List.mem_singleton.mpr rfl, rfl, by decide +kernel⟩, ?_⟩
  have hfile : ModuleFile moduleInput.files moduleInput.importRoots ["pkg".toList, "sub".toList] moduleOnlyFile :=
    ⟨List.mem_cons_of_mem _ (List.mem_singleton.mpr rfl), by decide +kernel, by decide +kernel⟩
  exact Has.aFile hfile

end

end Leitir.Check
