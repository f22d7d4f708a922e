import Mathlib.Data.List.Forall2
import Leitir.UsageResolver
import Leitir.ExceptRun

namespace Leitir.Usage

open ExceptRun List

section

/-- What bound a name on a path: an import of a distribution, or anything else. -/
inductive Source
  | imported (distribution : Text)
  | other
deriving DecidableEq

/-- A path so far: for each name its most recent binding, and the distribution that it passed by since then:
the branch it took left what is recorded of the name as it was, and the other branch changed that to an import. -/
structure PathState where
  last : Text → Option Source
  passed : Text → Option Text

def PathState.initial : PathState := ⟨fun _ => none, fun _ => none⟩

def PathState.bind (state : PathState) (name : Text) (source : Source) : PathState :=
  ⟨Function.update state.last name (some source), Function.update state.passed name none⟩

def PathState.bindOthers (state : PathState) (names : List Text) : PathState :=
  names.foldl (fun state name => state.bind name .other) state

def importedBy : Option Binding → Option Text
  | some (.imported distribution) => some distribution
  | _ => none

def PathState.through (state : PathState) (base taken other : Bindings) : PathState where
  last := state.last
  passed := fun name => if taken name = base name ∧ other name ≠ base name then importedBy (other name) else state.passed name

/-- What a path knows of a name that it reads. -/
structure Reached where
  source : Option Source
  passed : Option Text
deriving DecidableEq

def PathState.read (state : PathState) (value : Expr) : List (Option Reached) :=
  value.loads.map fun load => some ⟨state.last load.name, state.passed load.name⟩

def sourceOf (distribution : Option Text) : Source := distribution.elim .other .imported

/-- A path through statements: its state, and for each name that the visitor reads what the path knows of it,
where the path comes by. -/
abbrev Path := PathState × List (Option Reached)

variable (resolver : Resolver)

mutual

/-- The paths through a statement. -/
def pathsStmt (bindings : Bindings) (state : PathState) : Stmt → List Path
  | .importNames names =>
    [(names.foldl (fun state item => state.bind (boundImport item) (sourceOf (importDistribution resolver item.name))) state, [])]
  | .importFrom source level names =>
    if isStar names then [(state, [])]
    else [(names.foldl (fun state item => state.bind (boundFrom item) (sourceOf (fromDistribution resolver source level))) state,
      [])]
  | .assign targets value => [(state.bindOthers (namesAll targets), state.read value)]
  | .annAssign target value =>
    match value with
    | some value => [(state.bindOthers target.names, state.read value)]
    | none => [(state, [])]
  | .augAssign target value => [(state.bindOthers target.names, state.read value)]
  | .expr value => [(state, state.read value)]
  | .ifElse test body orelse =>
    let first := visitStmts resolver bindings body
    let second := visitStmts resolver bindings orelse
    ((pathsStmts bindings state body).map fun path =>
        (path.1.through bindings first.bindings second.bindings,
          state.read test ++ path.2 ++ List.replicate second.loads.length none)) ++
      (pathsStmts bindings state orelse).map fun path =>
        (path.1.through bindings second.bindings first.bindings,
          state.read test ++ List.replicate first.loads.length none ++ path.2)

def pathsStmts (bindings : Bindings) (state : PathState) : List Stmt → List Path
  | [] => [(state, [])]
  | stmt :: rest =>
    (pathsStmt bindings state stmt).flatMap fun path =>
      (pathsStmts (visitStmt resolver bindings stmt).bindings path.1 rest).map fun later => (later.1, path.2 ++ later.2)

end

end

section

/-- What is recorded as an import is the path's own most recent binding, or one that it passed by. -/
def Sound (bindings : Bindings) (state : PathState) : Prop :=
  ∀ name distribution, bindings name = some (.imported distribution) →
    state.last name = some (.imported distribution) ∨ state.passed name = some distribution

def Attributed (load : Load × Option Binding) (reached : Option Reached) : Prop :=
  ∀ distribution, load.2 = some (.imported distribution) → ∀ known, reached = some known →
    known.source = some (.imported distribution) ∨ known.passed = some distribution

variable {distribution name : Text} {bindings base : Bindings} {state : PathState} {results : List Bindings}

theorem mergeBinding_imported {existing : Option Binding} {new : Binding}
    (h : mergeBinding existing new = .imported distribution) : new = .imported distribution := by
  unfold mergeBinding at h
  split at h
  next => cases h
  next => cases h
  next => exact h

theorem bind_imported {other : Text} {binding : Binding}
    (h : bind bindings name binding other = some (.imported distribution)) :
    other = name ∧ binding = .imported distribution ∨ other ≠ name ∧ bindings other = some (.imported distribution) := by
  unfold bind at h
  by_cases hname : other = name
  · subst hname
    rw [Function.update_self] at h
    exact Or.inl ⟨rfl, mergeBinding_imported (Option.some.inj h)⟩
  · rw [Function.update_of_ne hname] at h
    exact Or.inr ⟨hname, h⟩

theorem Sound.bind (h : Sound bindings state) (name : Text) {binding : Binding}
    {source : Source} (hsource : ∀ distribution, binding = .imported distribution → source = .imported distribution) :
    Sound (Usage.bind bindings name binding) (state.bind name source) := by
  intro other distribution hrecorded
  rcases bind_imported hrecorded with ⟨rfl, hbinding⟩ | ⟨hname, hkept⟩
  · left
    rw [hsource distribution hbinding]
    exact Function.update_self _ _ _
  · have hlast : (state.bind name source).last other = state.last other := Function.update_of_ne hname _ _
    have hpassed : (state.bind name source).passed other = state.passed other := Function.update_of_ne hname _ _
    rw [hlast, hpassed]
    exact h other distribution hkept

theorem Sound.bindShadows (h : Sound bindings state) (names : List Text) :
    Sound (Usage.bindShadows bindings names) (state.bindOthers names) := by
  induction names generalizing bindings state with
  | nil => exact h
  | cons name rest ih =>
    refine ih (h.bind name ?_)
    intro distribution habsurd
    cases habsurd

theorem Sound.shadowed (h : Sound bindings state) (names : List Text) :
    Sound (Usage.bindShadows bindings names) state := by
  induction names generalizing bindings with
  | nil => exact h
  | cons name rest ih =>
    refine ih ?_
    intro other distribution hrecorded
    rcases bind_imported hrecorded with ⟨-, habsurd⟩ | ⟨-, hkept⟩
    · cases habsurd
    · exact h other distribution hkept

theorem Sound.bindAll {α : Type} (h : Sound bindings state) (items : List α)
    {name : α → Text} {binding : α → Binding} {source : α → Source}
    (hsource : ∀ item distribution, binding item = .imported distribution → source item = .imported distribution) :
    Sound (items.foldl (fun bindings item => Usage.bind bindings (name item) (binding item)) bindings)
      (items.foldl (fun state item => state.bind (name item) (source item)) state) := by
  induction items generalizing bindings state with
  | nil => exact h
  | cons item rest ih => exact ih (h.bind (name item) (hsource item))

theorem importBinding_source (resolver : Resolver) (item : Alias) (distribution : Text)
    (h : importBinding resolver item = .imported distribution) :
    sourceOf (importDistribution resolver item.name) = .imported distribution := by
  unfold importBinding at h
  split at h
  next tracked htracked =>
    split at h
    next => cases h
    next =>
      cases h
      rw [htracked]
      rfl
  next => cases h

theorem fromBinding_source (resolver : Resolver) (source : Option Text) (level : Nat) (item : Alias) (distribution : Text)
    (h : fromBinding resolver source level item = .imported distribution) :
    sourceOf (fromDistribution resolver source level) = .imported distribution := by
  unfold fromBinding at h
  split at h
  next tracked htracked =>
    cases h
    rw [htracked]
    rfl
  next =>
    dsimp only at h
    split at h <;> cases h

theorem Sound.read (h : Sound bindings state) (value : Expr) :
    List.Forall₂ Attributed (visitExpr bindings value).loads (state.read value) := by
  unfold visitExpr PathState.read
  dsimp only
  induction value.loads with
  | nil => exact List.Forall₂.nil
  | cons load rest ih =>
    refine List.Forall₂.cons ?_ ih
    intro distribution hrecorded known hknown
    cases hknown
    exact h load.name distribution hrecorded

theorem attributed_none (loads : List (Load × Option Binding)) :
    List.Forall₂ Attributed loads (List.replicate loads.length none) := by
  induction loads with
  | nil => exact List.Forall₂.nil
  | cons load rest ih =>
    refine List.Forall₂.cons ?_ ih
    intro distribution hrecorded known hknown
    cases hknown

theorem mem_changedValues {value : Binding} :
    value ∈ changedValues base results name ↔ (∃ result ∈ results, result name = some value) ∧ some value ≠ base name := by
  unfold changedValues
  rw [mem_filter, mem_filterMap]
  simp only [decide_eq_true_eq]

theorem mergeBranches_imported
    (h : mergeBranches base results name = some (.imported distribution)) :
    ((∀ value, value ∉ changedValues base results name) ∧ base name = some (.imported distribution)) ∨
      (∃ value, value ∈ changedValues base results name) ∧
        ∀ value ∈ changedValues base results name, value = .imported distribution := by
  unfold mergeBranches at h
  split at h
  next hempty =>
    rw [hempty]
    exact Or.inl ⟨fun value => not_mem_nil, h⟩
  next value others hchanged =>
    split at h
    next hagree =>
      rw [hchanged]
      have hvalue := Option.some.inj h
      refine Or.inr ⟨⟨value, mem_cons_self⟩, ?_⟩
      intro other hother
      rcases mem_cons.mp hother with rfl | hother
      · exact hvalue
      · exact (hagree other hother).trans hvalue
    next => cases h

def Kept (before after : Bindings) : Prop := ∀ name, after name = none → before name = none

theorem Kept.trans {a b c : Bindings} (hab : Kept a b) (hbc : Kept b c) : Kept a c := fun name h => hab name (hbc name h)

theorem kept_bind (bindings : Bindings) (name : Text) (binding : Binding) : Kept bindings (bind bindings name binding) := by
  intro other h
  unfold bind at h
  by_cases hname : other = name
  · subst hname
    rw [Function.update_self] at h
    cases h
  · rw [Function.update_of_ne hname] at h
    exact h

theorem kept_foldl {α : Type} (items : List α) (name : α → Text) (binding : α → Binding) (bindings : Bindings) :
    Kept bindings (items.foldl (fun bindings item => bind bindings (name item) (binding item)) bindings) := by
  induction items generalizing bindings with
  | nil => exact fun _ h => h
  | cons item rest ih => exact (kept_bind bindings _ _).trans (ih _)

theorem kept_mergeBranches (base : Bindings) (results : List Bindings) : Kept base (mergeBranches base results) := by
  intro name h
  unfold mergeBranches at h
  split at h
  next => exact h
  next => split at h <;> cases h

mutual

theorem kept_visitStmt (resolver : Resolver) (bindings : Bindings) (stmt : Stmt) :
    Kept bindings (visitStmt resolver bindings stmt).bindings := by
  cases stmt with
  | importNames names => exact kept_foldl names _ _ bindings
  | importFrom source level names =>
    unfold visitStmt
    split
    next => exact fun _ h => h
    next => exact kept_foldl names _ _ bindings
  | assign targets value => exact kept_foldl (namesAll targets) _ _ bindings
  | annAssign target value => cases value <;> exact kept_foldl target.names _ _ bindings
  | augAssign target value => exact kept_foldl target.names _ _ bindings
  | expr value => exact fun _ h => h
  | ifElse test body orelse => exact kept_mergeBranches _ _

theorem kept_visitStmts (resolver : Resolver) (bindings : Bindings) (stmts : List Stmt) :
    Kept bindings (visitStmts resolver bindings stmts).bindings := by
  cases stmts with
  | nil => exact fun _ h => h
  | cons stmt rest => exact (kept_visitStmt resolver bindings stmt).trans (kept_visitStmts resolver _ rest)

end

/-- What holds along a branch holds after the if: either the branch made the binding, or the path passed it by. -/
theorem Sound.through {taken other : Bindings} (h : Sound taken state)
    (hresults : ∀ result, result ∈ results ↔ result = taken ∨ result = other) (htaken : Kept base taken)
    (hother : Kept base other) : Sound (mergeBranches base results) (state.through base taken other) := by
  intro name distribution hmerged
  change state.last name = _ ∨ (if _ then _ else _) = _
  have hchanged : ∀ result ∈ results, Kept base result → result name ≠ base name →
      ∃ value ∈ changedValues base results name, result name = some value := by
    intro result hresult hkept hne
    cases hvalue : result name with
    | none => exact absurd (hvalue.trans (hkept name hvalue).symm) hne
    | some value => exact ⟨value, mem_changedValues.mpr ⟨⟨result, hresult, hvalue⟩, hvalue ▸ hne⟩, rfl⟩
  have hmemTaken := (hresults taken).mpr (Or.inl rfl)
  have hmemOther := (hresults other).mpr (Or.inr rfl)
  rcases mergeBranches_imported hmerged with ⟨hnone, hbase⟩ | ⟨⟨value, hvalue⟩, hall⟩
  · have hsame : taken name = base name := by
      by_contra hne
      obtain ⟨value, hvalue, -⟩ := hchanged taken hmemTaken htaken hne
      exact hnone value hvalue
    have hsame' : other name = base name := by
      by_contra hne
      obtain ⟨value, hvalue, -⟩ := hchanged other hmemOther hother hne
      exact hnone value hvalue
    rw [if_neg (fun hboth => hboth.2 hsame')]
    exact h name distribution (hsame.trans hbase)
  · by_cases hsame : taken name = base name
    · -- The change is that of the other branch.
      obtain ⟨⟨result, hresult, hresultValue⟩, hne⟩ := mem_changedValues.mp hvalue
      have hvalueEq := hall value hvalue
      rcases (hresults result).mp hresult with rfl | rfl
      · exact absurd (hresultValue.symm.trans hsame) hne
      · right
        rw [if_pos ⟨hsame, fun heq => hne (hresultValue.symm.trans heq)⟩, hresultValue, hvalueEq]
        rfl
    · obtain ⟨own, hown, hownValue⟩ := hchanged taken hmemTaken htaken hsame
      rw [if_neg (fun hboth => hsame hboth.1)]
      exact h name distribution (hownValue.trans (congrArg some (hall own hown)))

mutual

theorem pathsStmt_sound (resolver : Resolver) {bindings : Bindings} {state : PathState} (h : Sound bindings state) (stmt : Stmt) :
    ∀ path ∈ pathsStmt resolver bindings state stmt, Sound (visitStmt resolver bindings stmt).bindings path.1 ∧
      List.Forall₂ Attributed (visitStmt resolver bindings stmt).loads path.2 := by
  cases stmt with
  | importNames names =>
    intro path hpath
    rw [mem_singleton.mp hpath]
    exact ⟨h.bindAll names (importBinding_source resolver), List.Forall₂.nil⟩
  | importFrom source level names =>
    intro path hpath
    unfold pathsStmt at hpath
    unfold visitStmt
    split at hpath
    next hstar =>
      rw [mem_singleton.mp hpath, if_pos hstar]
      exact ⟨h, List.Forall₂.nil⟩
    next hstar =>
      rw [mem_singleton.mp hpath, if_neg hstar]
      exact ⟨h.bindAll names (fromBinding_source resolver source level), List.Forall₂.nil⟩
  | assign targets value =>
    intro path hpath
    rw [mem_singleton.mp hpath]
    exact ⟨h.bindShadows (namesAll targets), h.read value⟩
  | annAssign target value =>
    intro path hpath
    cases value with
    | some value =>
      rw [mem_singleton.mp hpath]
      exact ⟨h.bindShadows target.names, h.read value⟩
    | none =>
      rw [mem_singleton.mp hpath]
      exact ⟨h.shadowed target.names, List.Forall₂.nil⟩
  | augAssign target value =>
    intro path hpath
    rw [mem_singleton.mp hpath]
    exact ⟨h.bindShadows target.names, h.read value⟩
  | expr value =>
    intro path hpath
    rw [mem_singleton.mp hpath]
    exact ⟨h, h.read value⟩
  | ifElse test body orelse =>
    intro path hpath
    have hbody := kept_visitStmts resolver bindings body
    have horelse := kept_visitStmts resolver bindings orelse
    rcases mem_append.mp hpath with hpath | hpath
    · obtain ⟨inner, hinner, rfl⟩ := mem_map.mp hpath
      obtain ⟨hsound, hloads⟩ := pathsStmts_sound resolver h body inner hinner
      refine ⟨hsound.through (by simp) hbody horelse, ?_⟩
      exact rel_append (rel_append (h.read test) hloads) (attributed_none _)
    · obtain ⟨inner, hinner, rfl⟩ := mem_map.mp hpath
      obtain ⟨hsound, hloads⟩ := pathsStmts_sound resolver h orelse inner hinner
      refine ⟨hsound.through (by simp [or_comm]) horelse hbody, ?_⟩
      exact rel_append (rel_append (h.read test) (attributed_none _)) hloads

theorem pathsStmts_sound (resolver : Resolver) {bindings : Bindings} {state : PathState} (h : Sound bindings state)
    (stmts : List Stmt) :
    ∀ path ∈ pathsStmts resolver bindings state stmts, Sound (visitStmts resolver bindings stmts).bindings path.1 ∧
      List.Forall₂ Attributed (visitStmts resolver bindings stmts).loads path.2 := by
  cases stmts with
  | nil =>
    intro path hpath
    rw [mem_singleton.mp hpath]
    exact ⟨h, List.Forall₂.nil⟩
  | cons stmt rest =>
    intro path hpath
    obtain ⟨first, hfirst, hpath⟩ := mem_flatMap.mp hpath
    obtain ⟨later, hlater, rfl⟩ := mem_map.mp hpath
    obtain ⟨hsound, hloads⟩ := pathsStmt_sound resolver h stmt first hfirst
    obtain ⟨hsound', hloads'⟩ := pathsStmts_sound resolver hsound rest later hlater
    exact ⟨hsound', rel_append hloads hloads'⟩

end

end

section

variable (resolver : Resolver) (tree : List Stmt)

def moduleLoads : List (Load × Option Binding) := (visitStmts resolver (fun _ => none) tree).loads

def modulePaths : List Path := pathsStmts resolver (fun _ => none) .initial tree

theorem modulePaths_attributed {path : Path} (h : path ∈ modulePaths resolver tree) :
    List.Forall₂ Attributed (moduleLoads resolver tree) path.2 := by
  have hinitial : Sound (fun _ => none) PathState.initial := by
    intro name distribution habsurd
    cases habsurd
  exact (pathsStmts_sound resolver hinitial tree path h).2

theorem codeReference_ok {sourceText distribution : Text} {span : SourceSpan} {reference : CodeReference}
    (h : codeReference sourceText distribution span = .ok reference) :
    reference.distribution = distribution ∧ reference.span = span := by
  unfold codeReference at h
  split at h
  next => cases h
  next =>
    obtain ⟨snippet, -, h⟩ := bind_ok h
    split at h
    next => cases h
    next =>
      cases h
      exact ⟨rfl, rfl⟩

variable {resolver tree}

/-- A reference of a file is that of a name that the module reads, recorded as an import where it stands. -/
theorem reference_load {nodeCount maxAstNodes : Nat} {outcome : FileOutcome}
    (h : resolveOneFile resolver nodeCount maxAstNodes tree = .ok outcome) {reference : CodeReference}
    (href : reference ∈ outcome.references) :
    ∃ (index : Nat) (load : Load), (moduleLoads resolver tree)[index]? = some (load, some (.imported reference.distribution)) ∧
      load.span = reference.span := by
  unfold resolveOneFile at h
  split at h
  next =>
    cases h
    cases href
  next =>
    obtain ⟨references, hreferences, h⟩ := bind_ok h
    have hmem : reference ∈ references := by
      rw [← Except.ok.inj h] at href
      split at href
      next => cases href
      next => exact href
    obtain ⟨⟨distribution, span⟩, hsource, hok⟩ := (mapM_ok_mem hreferences).2 reference hmem
    obtain ⟨⟨load, binding⟩, hload, hattribution⟩ := mem_filterMap.mp hsource
    obtain ⟨hdistribution, hspan⟩ := codeReference_ok hok
    obtain ⟨index, hindex⟩ := mem_iff_getElem?.mp hload
    unfold attribution at hattribution
    split at hattribution
    next found hbinding =>
      obtain ⟨hfound, hplace⟩ := Prod.mk.inj (Option.some.inj hattribution)
      dsimp only at hbinding hplace
      refine ⟨index, load, ?_, hplace.trans hspan.symm⟩
      rw [hdistribution, ← hfound, ← hbinding]
      exact hindex
    next => cases hattribution

def sampleSpan (line startCol endCol : Nat) : SourceSpan := ⟨"m.py".toList, line, startCol, line, endCol⟩

/-- A module that reads a name behind an assignment and an import under a condition. -/
def guardedImport : List Stmt :=
  [.assign [.name "x".toList] (.node []),
    .ifElse (.name ⟨"c".toList, sampleSpan 2 3 4⟩) [.importNames [⟨"widgetlib".toList, some "x".toList⟩]] [],
    .expr (.name ⟨"x".toList, sampleSpan 4 0 1⟩)]

def plainImport : List Stmt :=
  [.importNames [⟨"widgetlib".toList, some "x".toList⟩], .expr (.name ⟨"x".toList, sampleSpan 2 0 1⟩)]

def sampleResolver (sourceText : String) : Resolver where
  importRoots := fun root => if root = "widgetlib".toList then some "widgets".toList else none
  moduleIndex := fun _ => none
  relpath := "m.py".toList
  sourceText := sourceText.toList

def guardedSource : String := "x = 1\nif c:\n    import widgetlib as x\nx\n"

theorem outcome_of_spans {run : Except Text FileOutcome} {found : List (Text × SourceSpan)}
    (h : run.toOption.map (fun outcome => outcome.references.map fun item => (item.distribution, item.span)) = some found) :
    ∃ outcome, run = .ok outcome ∧ (outcome.references.map fun item => (item.distribution, item.span)) = found := by
  cases run with
  | error message => cases h
  | ok outcome => exact ⟨outcome, rfl, Option.some.inj h⟩

/-- A reference is a name that the module reads, and on every path that comes by the name was most recently bound by
an import of its distribution, unless the path has since taken a branch that left the recorded binding as it was while the
other branch changed it to such an import. -/
theorem references_attributed (resolver : Resolver) (nodeCount maxAstNodes : Nat) (tree : List Stmt) (outcome : FileOutcome)
    (h : resolveOneFile resolver nodeCount maxAstNodes tree = .ok outcome) :
    (∀ reference ∈ outcome.references, ∃ (index : Nat) (load : Load),
      (moduleLoads resolver tree)[index]? = some (load, some (.imported reference.distribution)) ∧ load.span = reference.span) ∧
    ∀ (index : Nat) (load : Load) (distribution : Text),
      (moduleLoads resolver tree)[index]? = some (load, some (.imported distribution)) →
        ∀ path ∈ modulePaths resolver tree, ∀ known : Reached, path.2[index]? = some (some known) →
          known.source = some (.imported distribution) ∨ known.passed = some distribution := by
  refine ⟨fun reference href => reference_load h href, ?_⟩
  intro index load distribution hload path hpath known hknown
  obtain ⟨hlength, hrelated⟩ := forall₂_iff_get.mp (modulePaths_attributed resolver tree hpath)
  obtain ⟨hindex, hget⟩ := List.getElem?_eq_some_iff.mp hload
  obtain ⟨hindex', hget'⟩ := List.getElem?_eq_some_iff.mp hknown
  exact hrelated index hindex hindex' distribution (congrArg Prod.snd hget) known hget'

/-- The one reference of a plain import, on its one path. -/
theorem references_attributed_sample : ∃ outcome,
    resolveOneFile (sampleResolver "import widgetlib as x\nx\n") 6 20000 plainImport = .ok outcome ∧
      (outcome.references.map fun item => (item.distribution, item.span)) = [("widgets".toList, sampleSpan 2 0 1)] ∧
      ∀ path ∈ modulePaths (sampleResolver "import widgetlib as x\nx\n") plainImport, ∀ known : Reached,
        path.2[0]? = some (some known) → known.source = some (.imported "widgets".toList) ∨ known.passed = some "widgets".toList := by
  have hfound : (resolveOneFile (sampleResolver "import widgetlib as x\nx\n") 6 20000 plainImport).toOption.map
      (fun outcome => outcome.references.map fun item => (item.distribution, item.span)) =
        some [("widgets".toList, sampleSpan 2 0 1)] := by decide +kernel
  obtain ⟨outcome, hrun, hspans⟩ := outcome_of_spans hfound
  refine ⟨outcome, hrun, hspans, ?_⟩
  exact (references_attributed _ _ _ _ _ hrun).2 0 ⟨"x".toList, sampleSpan 2 0 1⟩ "widgets".toList (by decide +kernel)

/-- A name that only one branch imports is attributed to that import, though a path assigns it and imports nothing. -/
theorem references_guessed : ∃ outcome,
    resolveOneFile (sampleResolver guardedSource) 12 20000 guardedImport = .ok outcome ∧
      (outcome.references.map fun item => (item.distribution, item.span)) = [("widgets".toList, sampleSpan 4 0 1)] ∧
      (moduleLoads (sampleResolver guardedSource) guardedImport)[1]? =
        some (⟨"x".toList, sampleSpan 4 0 1⟩, some (.imported "widgets".toList)) ∧
      ∃ path ∈ modulePaths (sampleResolver guardedSource) guardedImport, ∃ known : Reached,
        path.2[1]? = some (some known) ∧ known.source = some .other := by
  have hfound : (resolveOneFile (sampleResolver guardedSource) 12 20000 guardedImport).toOption.map
      (fun outcome => outcome.references.map fun item => (item.distribution, item.span)) =
        some [("widgets".toList, sampleSpan 4 0 1)] := by decide +kernel
  obtain ⟨outcome, hrun, hspans⟩ := outcome_of_spans hfound
  have hpath : ∃ path ∈ modulePaths (sampleResolver guardedSource) guardedImport,
      path.2[1]? = some (some ⟨some .other, some "widgets".toList⟩) := by
    have hreads : [some ⟨none, none⟩, some ⟨some .other, some "widgets".toList⟩] ∈
        (modulePaths (sampleResolver guardedSource) guardedImport).map Prod.snd := by decide +kernel
    obtain ⟨path, hpath, hread⟩ := mem_map.mp hreads
    refine ⟨path, hpath, ?_⟩
    rw [hread]
    rfl
  obtain ⟨path, hmem, hread⟩ := hpath
  exact ⟨outcome, hrun, hspans, by decide +kernel, path, hmem, _, hread, rfl⟩

end

end Leitir.Usage
