import Mathlib.Data.List.Dedup
import Leitir.UsageReadBack

namespace Leitir.Usage.Catalog

open ExceptRun List KeyedList Grouping

def supportedEvidenceSources : List Text :=
  ["top-level-txt".toList, "record-derived-single-root".toList, "setup-cfg-static".toList, "pyproject-static".toList,
    "materialized-tree-layout".toList]

def maxDistributionRecords : Nat := maxImportMappings

def distributionRecordRefusal (distribution : Text) (declaredRoots : List Text) (source : Text) : Option String :=
  refusal [(distribution ≠ [], "distribution_record.distribution must be non-empty"),
    (source ≠ [], "distribution_record.source must be non-empty"),
    (declaredRoots.Nodup, "distribution_record.declared_roots must not contain duplicates"),
    (declaredRoots.all fun root => root ≠ [], "distribution_record.declared_roots entries must be non-empty")]

/-- One piece of local evidence about the import roots that a distribution declares. -/
structure DistributionRecord where
  distribution : Text
  declaredRoots : List Text
  source : Text
  accepted : distributionRecordRefusal distribution declaredRoots source = none
deriving DecidableEq

def unresolvedDistributionRefusal (distribution : Text) (state : UnresolvedState) (reason : Text)
    (evidence : List DistributionRecord) : Option String :=
  refusal [(distribution ≠ [], "unresolved_distribution.distribution must be non-empty"),
    (state ∈ [.ambiguousBinding, .unsupportedSyntax],
      "unresolved_distribution.state must be AMBIGUOUS_BINDING or UNSUPPORTED_SYNTAX"),
    (reason ≠ [], "unresolved_distribution.reason must be non-empty"),
    (evidence ≠ [], "unresolved_distribution.evidence must be non-empty")]

structure UnresolvedDistribution where
  distribution : Text
  state : UnresolvedState
  reason : Text
  evidence : List DistributionRecord
  accepted : unresolvedDistributionRefusal distribution state reason evidence = none
deriving DecidableEq

def importCatalogRefusal (mappings : List ImportMapping) : Option String :=
  refusal [(mappings.length ≤ maxImportMappings, "import_catalog.mappings exceeds the cap"),
    ((mappings.map ImportMapping.distribution).Nodup, "import_catalog.mappings must not repeat a distribution")]

structure ImportCatalog where
  mappings : List ImportMapping
  unresolved : List UnresolvedDistribution
  accepted : importCatalogRefusal mappings = none

inductive CatalogError
  | unsupported (message stage field expected actual : String)
  | value (message : String)
  | index (message : String)
  | key (name : Text)
deriving DecidableEq

def made {α : Type} (reason : Option String) (build : reason = none → α) : Except CatalogError α :=
  if h : reason = none then .ok (build h) else .error (.value (reason.getD ""))

/-- The text functions of the host: lower case, and the quoted form of a text. -/
structure Strings where
  lower : Text → Text
  repr : Text → Text

/-- Each run of hyphens, underscores and full stops as one hyphen. -/
def joinRuns : Text → Bool → Text
  | [], _ => []
  | ch :: rest, within =>
    if ch ∈ ['-', '_', '.'] then if within then joinRuns rest true else '-' :: joinRuns rest true
    else ch :: joinRuns rest false

def normalizeDistributionName (strings : Strings) (name : Text) : Text := strings.lower (joinRuns name false)

def nameKey (text : Text) : KeyedList.Key := [text.map Char.toNat]

def sortTexts (texts : List Text) : List Text := sortBy nameKey texts

structure Tables where
  mappings : List (Text × ImportMapping)
  unresolved : List (Text × UnresolvedDistribution)

/-- A distribution put among the unresolved ones. -/
def leave (tables : Tables) (distribution : Text) (state : UnresolvedState) (reason : Text)
    (evidence : List DistributionRecord) : Except CatalogError Tables := do
  let entry ← made (unresolvedDistributionRefusal distribution state reason evidence) fun h =>
    (⟨distribution, state, reason, evidence, h⟩ : UnresolvedDistribution)
  pure { tables with unresolved := put tables.unresolved distribution entry }

def candidateRootSets (group : List DistributionRecord) : List (List Text) :=
  ((group.filter fun record => record.declaredRoots ≠ []).map fun record => sortTexts record.declaredRoots).dedup

def unsupportedSources (group : List DistributionRecord) : List Text :=
  sortTexts ((group.map DistributionRecord.source).filter fun source => source ∉ supportedEvidenceSources).dedup

/-- The records of one name. -/
def catalogDistribution (tables : Tables) (distribution : Text) (group : List DistributionRecord) :
    Except CatalogError Tables :=
  if unsupportedSources group ≠ [] then
    leave tables distribution .unsupportedSyntax
      ("unsupported evidence source kind(s): ".toList ++ [',', ' '].intercalate (unsupportedSources group)) group
  else if ∀ record ∈ group, record.declaredRoots = [] then
    leave tables distribution .unsupportedSyntax
      "no local evidence declares any import root for this distribution".toList group
  else
    match candidateRootSets group with
    | [] => .error (.value "not enough values to unpack (expected 1, got 0)")
    | [roots] =>
      if maxImportRootsPerMapping < roots.length then
        leave tables distribution .unsupportedSyntax
          "declared import roots exceed the supported per-mapping cap".toList group
      else do
        let mapping ← made (importMappingRefusal distribution roots) fun h => (⟨distribution, roots, h⟩ : ImportMapping)
        pure { tables with mappings := put tables.mappings distribution mapping }
    | _ :: _ :: _ =>
      leave tables distribution .ambiguousBinding
        "local evidence sources disagree on this distribution's import roots".toList group

def rawNames (group : List DistributionRecord) : List Text := sortTexts (group.map DistributionRecord.distribution).dedup

/-- The records whose names are one after normalization. -/
def catalogGroup (strings : Strings) (tables : Tables) (entry : Text × List DistributionRecord) :
    Except CatalogError Tables :=
  match rawNames entry.2 with
  | [] => .error (.index "list index out of range")
  | [distribution] => catalogDistribution tables distribution entry.2
  | first :: second :: rest => (first :: second :: rest).foldlM (fun tables distribution =>
      leave tables distribution .ambiguousBinding
        ("multiple distinct distribution names normalize to ".toList ++ strings.repr entry.1)
        (sortBy (fun record => nameKey record.distribution) entry.2)) tables

def rootOwners (mappings : List (Text × ImportMapping)) : List (Text × List (Text × Text)) :=
  groupBy Prod.fst (mappings.flatMap fun entry => entry.2.importRoots.map fun root => (root, entry.1))

def contestedDistributions (mappings : List (Text × ImportMapping)) : List Text :=
  sortTexts (((rootOwners mappings).filter fun entry => 1 < entry.2.length).flatMap fun entry =>
    entry.2.map Prod.snd).dedup

/-- A contested owner leaves the mappings. -/
def evict (records : List DistributionRecord) (tables : Tables) (distribution : Text) : Except CatalogError Tables := do
  let left ← leave tables distribution .ambiguousBinding "import root is claimed by more than one distribution".toList
    (records.filter fun record => record.distribution = distribution)
  if distribution ∉ Grouping.keys left.mappings then .error (.key distribution)
  else pure { left with mappings := left.mappings.filter fun entry => entry.1 ≠ distribution }

def inOrder {β : Type} (table : List (Text × β)) : List β :=
  (sortBy (fun entry => nameKey entry.1) table).map Prod.snd

def capError (records : List DistributionRecord) : CatalogError :=
  .unsupported "distribution record batch exceeds the supported cap" "validate" "records"
    ("<= " ++ toString maxDistributionRecords) (toString records.length)

def buildImportCatalog (strings : Strings) (records : List DistributionRecord) : Except CatalogError ImportCatalog :=
  if maxDistributionRecords < records.length then .error (capError records)
  else do
    let groups := groupBy (fun record : DistributionRecord =>
      normalizeDistributionName strings record.distribution) records
    let tables ← (sortBy (fun entry => nameKey entry.1) groups).foldlM (catalogGroup strings) ⟨[], []⟩
    let settled ← (contestedDistributions tables.mappings).foldlM (evict records) tables
    made (importCatalogRefusal (inOrder settled.mappings)) fun h =>
      (⟨inOrder settled.mappings, inOrder settled.unresolved, h⟩ : ImportCatalog)

section

variable {records group : List DistributionRecord} {tables : Tables} {seen : Text → Prop}

/-- Every record of the distribution has a supported source and no roots, or just the roots of the mapping. -/
def Agreed (records : List DistributionRecord) (mapping : ImportMapping) : Prop :=
  ∀ record ∈ records, record.distribution = mapping.distribution → record.source ∈ supportedEvidenceSources ∧
    (record.declaredRoots ≠ [] → ∀ root, root ∈ record.declaredRoots ↔ root ∈ mapping.importRoots)

/-- The tables name just the distributions seen so far, each once and in one of the two. -/
structure Tables.Kept (records : List DistributionRecord) (seen : Text → Prop) (tables : Tables) : Prop where
  mapped : (Grouping.keys tables.mappings).Nodup
  left : (Grouping.keys tables.unresolved).Nodup
  apart : ∀ name ∈ Grouping.keys tables.mappings, name ∉ Grouping.keys tables.unresolved
  named : ∀ name, name ∈ Grouping.keys tables.mappings ∨ name ∈ Grouping.keys tables.unresolved ↔ seen name
  mappings : ∀ entry ∈ tables.mappings, entry.2.distribution = entry.1 ∧ Agreed records entry.2
  unresolved : ∀ entry ∈ tables.unresolved, entry.2.distribution = entry.1

theorem made_ok {α : Type} {reason : Option String} {build : reason = none → α} (h : reason = none) :
    made reason build = .ok (build h) := dif_pos h

theorem DistributionRecord.checks (record : DistributionRecord) : record.distribution ≠ [] ∧ record.declaredRoots.Nodup ∧
    ∀ root ∈ record.declaredRoots, root ≠ [] := by
  have hchecks := refusal_eq_none_iff.mp record.accepted
  simp only [forall_mem_cons, decide_eq_true_eq, all_eq_true] at hchecks
  obtain ⟨hname, -, hnodup, hroots, -⟩ := hchecks
  exact ⟨hname, hnodup, hroots⟩

variable {distribution name : Text} {mappings : List (Text × ImportMapping)}

theorem leave_ok (tables : Tables) {state : UnresolvedState} {reason : Text}
    (hname : distribution ≠ []) (hstate : state ∈ [UnresolvedState.ambiguousBinding, .unsupportedSyntax])
    (hreason : reason ≠ []) (hgroup : group ≠ []) :
    ∃ entry : UnresolvedDistribution, entry.distribution = distribution ∧ leave tables distribution state reason group =
      .ok { tables with unresolved := put tables.unresolved distribution entry } := by
  have hrefusal : unresolvedDistributionRefusal distribution state reason group = none := by
    apply refusal_eq_none_iff.mpr
    simp only [forall_mem_cons, decide_eq_true_eq]
    exact ⟨hname, hstate, hreason, hgroup, fun check hcheck => absurd hcheck not_mem_nil⟩
  refine ⟨⟨distribution, state, reason, group, hrefusal⟩, rfl, ?_⟩
  unfold leave
  rw [made_ok hrefusal]
  rfl

theorem Tables.Kept.leave (h : tables.Kept records seen) (hfresh : ¬ seen distribution)
    {entry : UnresolvedDistribution} (hentry : entry.distribution = distribution) :
    Tables.Kept records (fun name => seen name ∨ name = distribution)
      { tables with unresolved := put tables.unresolved distribution entry } := by
  refine ⟨h.mapped, nodup_put h.left _ _, ?_, ?_, h.mappings, ?_⟩
  · intro name hname hmem
    rcases mem_keys_put.mp hmem with hmem | rfl
    · exact h.apart name hname hmem
    · exact hfresh ((h.named name).mp (.inl hname))
  · intro name
    rw [mem_keys_put, ← or_assoc, h.named]
  · intro other hother
    rcases mem_of_mem_put hother with rfl | hother
    · exact hentry
    · exact h.unresolved other hother

theorem Tables.Kept.map (h : tables.Kept records seen) (hfresh : ¬ seen distribution)
    {mapping : ImportMapping} (hmapping : mapping.distribution = distribution) (hagreed : Agreed records mapping) :
    Tables.Kept records (fun name => seen name ∨ name = distribution)
      { tables with mappings := put tables.mappings distribution mapping } := by
  refine ⟨nodup_put h.mapped _ _, h.left, ?_, ?_, ?_, h.unresolved⟩
  · intro name hname hmem
    rcases mem_keys_put.mp hname with hname | rfl
    · exact h.apart name hname hmem
    · exact hfresh ((h.named name).mp (.inr hmem))
  · intro name
    rw [mem_keys_put, or_right_comm, h.named]
  · intro other hother
    rcases mem_of_mem_put hother with rfl | hother
    · exact ⟨hmapping, hagreed⟩
    · exact h.mappings other hother

theorem leave_kept {state : UnresolvedState} {reason : Text} {evidence : List DistributionRecord}
    (h : tables.Kept records seen) (hfresh : ¬ seen distribution) (hname : distribution ≠ [])
    (hstate : state ∈ [UnresolvedState.ambiguousBinding, .unsupportedSyntax]) (hreason : reason ≠ []) (hevidence : evidence ≠ []) :
    ∃ after, leave tables distribution state reason evidence = .ok after ∧
      after.Kept records fun name => seen name ∨ name = distribution := by
  obtain ⟨entry, hentry, hrun⟩ := leave_ok tables hname hstate hreason hevidence
  exact ⟨_, hrun, h.leave hfresh hentry⟩

theorem mem_candidateRootSets {roots : List Text} : roots ∈ candidateRootSets group ↔
    ∃ record ∈ group, record.declaredRoots ≠ [] ∧ sortTexts record.declaredRoots = roots := by
  unfold candidateRootSets
  rw [mem_dedup, mem_map]
  simp only [mem_filter, decide_eq_true_eq, and_assoc]

theorem source_supported (h : ¬ unsupportedSources group ≠ []) {record : DistributionRecord} (hrecord : record ∈ group) :
    record.source ∈ supportedEvidenceSources := by
  by_contra hout
  have hmem : record.source ∈ unsupportedSources group := by
    unfold unsupportedSources sortTexts
    rw [mem_sortBy, mem_dedup, mem_filter, decide_eq_true_eq]
    exact ⟨mem_map.mpr ⟨record, hrecord, rfl⟩, hout⟩
  exact h (ne_nil_of_mem hmem)

/-- A single root set passes the constructor of a mapping, and the records agree with it. -/
theorem mapping_agreed {roots : List Text} (hname : distribution ≠ [])
    (hcover : ∀ record ∈ records, record.distribution = distribution → record ∈ group)
    (hsources : ¬ unsupportedSources group ≠ []) (hroots : candidateRootSets group = [roots])
    (hcap : ¬ maxImportRootsPerMapping < roots.length) :
    ∃ accepted : importMappingRefusal distribution roots = none, Agreed records ⟨distribution, roots, accepted⟩ := by
  have hmem : roots ∈ candidateRootSets group := by
    rw [hroots]
    exact mem_cons_self
  obtain ⟨record, -, hnonempty, rfl⟩ := mem_candidateRootSets.mp hmem
  obtain ⟨-, hnodup, hentries⟩ := record.checks
  have hperm : (sortTexts record.declaredRoots).Perm record.declaredRoots := perm_sortBy _ _
  have hrefusal : importMappingRefusal distribution (sortTexts record.declaredRoots) = none := by
    apply refusal_eq_none_iff.mpr
    simp only [forall_mem_cons, decide_eq_true_eq, all_eq_true]
    refine ⟨hname, ?_, by omega, hperm.nodup_iff.mpr hnodup, ?_, fun check hcheck => absurd hcheck not_mem_nil⟩
    · intro hnil
      rw [hnil] at hperm
      exact hnonempty hperm.nil_eq.symm
    · exact fun root hroot => hentries root (hperm.mem_iff.mp hroot)
  refine ⟨hrefusal, ?_⟩
  intro other hother heq
  have hgroup := hcover other hother heq
  refine ⟨source_supported hsources hgroup, fun hdeclared root => ?_⟩
  have hsame : sortTexts other.declaredRoots ∈ candidateRootSets group :=
    mem_candidateRootSets.mpr ⟨other, hgroup, hdeclared, rfl⟩
  rw [hroots, mem_singleton] at hsame
  show root ∈ other.declaredRoots ↔ root ∈ sortTexts record.declaredRoots
  rw [← hsame]
  exact mem_sortBy.symm

theorem catalogDistribution_kept (h : tables.Kept records seen) (hfresh : ¬ seen distribution)
    (hname : distribution ≠ []) (hgroup : group ≠ [])
    (hcover : ∀ record ∈ records, record.distribution = distribution → record ∈ group) :
    ∃ after, catalogDistribution tables distribution group = .ok after ∧
      after.Kept records fun name => seen name ∨ name = distribution := by
  have hunsupported : UnresolvedState.unsupportedSyntax ∈ [UnresolvedState.ambiguousBinding, .unsupportedSyntax] := by decide
  unfold catalogDistribution
  split
  next =>
    exact leave_kept h hfresh hname hunsupported (append_ne_nil_of_left_ne_nil (by decide) _) hgroup
  next hsources =>
    split
    next => exact leave_kept h hfresh hname hunsupported (by decide) hgroup
    next hdeclared =>
      split
      next hnone =>
        refine absurd ?_ hdeclared
        intro record hrecord
        by_contra hnonempty
        have hmem := mem_candidateRootSets.mpr ⟨record, hrecord, hnonempty, rfl⟩
        rw [hnone] at hmem
        cases hmem
      next roots hroots =>
        split
        next => exact leave_kept h hfresh hname hunsupported (by decide) hgroup
        next hcap =>
          obtain ⟨hrefusal, hagreed⟩ := mapping_agreed hname hcover hsources hroots hcap
          rw [made_ok hrefusal]
          exact ⟨_, rfl, h.map hfresh rfl hagreed⟩
      next => exact leave_kept h hfresh hname (by decide) (by decide) hgroup

theorem Tables.Kept.congr {other : Text → Prop} (h : tables.Kept records seen) (hsame : ∀ name, seen name ↔ other name) :
    tables.Kept records other :=
  ⟨h.mapped, h.left, h.apart, fun name => (h.named name).trans (hsame name), h.mappings, h.unresolved⟩

/-- A table entry for each of some fresh names. -/
theorem foldlM_kept {run : Tables → Text → Except CatalogError Tables} {names : List Text} (h : tables.Kept records seen)
    (hnodup : names.Nodup) (hfresh : ∀ name ∈ names, ¬ seen name)
    (hrun : ∀ name ∈ names, ∀ tables seen, Tables.Kept records seen tables → ¬ seen name →
      ∃ after, run tables name = .ok after ∧ after.Kept records fun other => seen other ∨ other = name) :
    ∃ after, names.foldlM run tables = .ok after ∧ after.Kept records fun name => seen name ∨ name ∈ names := by
  induction names generalizing tables seen with
  | nil => exact ⟨tables, rfl, h.congr fun name => by simp⟩
  | cons first rest ih =>
    obtain ⟨hnot, hrest⟩ := nodup_cons.mp hnodup
    obtain ⟨next, hnext, hkept⟩ := hrun first mem_cons_self tables seen h (hfresh first mem_cons_self)
    obtain ⟨after, hafter, hlast⟩ := ih hkept hrest (fun name hname hseen => hseen.elim
      (hfresh name (mem_cons_of_mem _ hname)) (fun heq => hnot (heq ▸ hname)))
      fun name hname => hrun name (mem_cons_of_mem _ hname)
    refine ⟨after, ?_, hlast.congr fun name => ?_⟩
    · rw [foldlM_cons, hnext]
      exact hafter
    · rw [mem_cons, or_assoc]

theorem mem_rawNames : name ∈ rawNames group ↔ ∃ record ∈ group, record.distribution = name := by
  unfold rawNames sortTexts
  rw [mem_sortBy, mem_dedup, mem_map]

theorem nodup_rawNames (group : List DistributionRecord) : (rawNames group).Nodup :=
  (perm_sortBy _ _).nodup_iff.mpr (nodup_dedup _)

theorem catalogGroup_kept (strings : Strings) (normalized : Text) (h : tables.Kept records seen)
    (hfresh : ∀ name ∈ rawNames group, ¬ seen name) (hgroup : group ≠ [])
    (hcover : ∀ record ∈ records, record.distribution ∈ rawNames group → record ∈ group) :
    ∃ after, catalogGroup strings tables (normalized, group) = .ok after ∧
      after.Kept records fun name => seen name ∨ name ∈ rawNames group := by
  have hname : ∀ name ∈ rawNames group, name ≠ [] := by
    intro name hmem
    obtain ⟨record, -, rfl⟩ := mem_rawNames.mp hmem
    exact record.checks.1
  unfold catalogGroup
  split
  next hnone =>
    obtain ⟨record, hrecord⟩ := exists_mem_of_ne_nil _ hgroup
    have hmem : record.distribution ∈ rawNames group := mem_rawNames.mpr ⟨record, hrecord, rfl⟩
    rw [hnone] at hmem
    cases hmem
  next distribution hone =>
    have hmem : distribution ∈ rawNames group := by
      rw [hone]
      exact mem_cons_self
    obtain ⟨after, hrun, hkept⟩ := catalogDistribution_kept h (hfresh distribution hmem) (hname distribution hmem) hgroup
      fun record hrecord heq => hcover record hrecord (heq ▸ hmem)
    refine ⟨after, hrun, hkept.congr fun name => ?_⟩
    show seen name ∨ name = distribution ↔ seen name ∨ name ∈ rawNames group
    rw [hone, mem_singleton]
  next first second rest hmany =>
    have hmany : rawNames group = first :: second :: rest := hmany
    rw [hmany] at hname hfresh ⊢
    refine foldlM_kept h (hmany ▸ nodup_rawNames group) hfresh ?_
    intro name hmem tables seen hkept hnew
    refine leave_kept hkept hnew (hname name hmem) (by decide) (append_ne_nil_of_left_ne_nil (by decide) _) ?_
    intro hnil
    have hperm := perm_sortBy (fun record : DistributionRecord => nameKey record.distribution) group
    rw [hnil] at hperm
    exact hgroup hperm.nil_eq.symm

/-- The names of some records by the groups that they fall in. -/
theorem groups_kept (strings : Strings) {entries : List (Text × List DistributionRecord)} (h : tables.Kept records seen)
    (hnodup : (entries.map Prod.fst).Nodup)
    (hentries : ∀ entry ∈ entries, entry.2 ≠ [] ∧
      entry.2 = records.filter fun record => normalizeDistributionName strings record.distribution = entry.1)
    (hfresh : ∀ name, seen name → normalizeDistributionName strings name ∉ entries.map Prod.fst) :
    ∃ after, entries.foldlM (catalogGroup strings) tables = .ok after ∧
      after.Kept records fun name => seen name ∨ ∃ entry ∈ entries, name ∈ rawNames entry.2 := by
  induction entries generalizing tables seen with
  | nil => exact ⟨tables, rfl, h.congr fun name => by simp⟩
  | cons entry rest ih =>
    obtain ⟨normalized, group⟩ := entry
    obtain ⟨⟨hgroup, hfilter⟩, hothers⟩ := forall_mem_cons.mp hentries
    obtain ⟨hnot, hrest⟩ := nodup_cons.mp hnodup
    dsimp only at hgroup hfilter hnot
    have hsame : ∀ name ∈ rawNames group, normalizeDistributionName strings name = normalized := by
      intro name hname
      obtain ⟨record, hrecord, rfl⟩ := mem_rawNames.mp hname
      rw [hfilter] at hrecord
      exact of_decide_eq_true (mem_filter.mp hrecord).2
    obtain ⟨next, hnext, hkept⟩ := catalogGroup_kept strings normalized h
      (fun name hname hseen => hfresh name hseen (by rw [hsame name hname]; exact mem_cons_self)) hgroup
      (fun record hrecord hname => by
        rw [hfilter]
        exact mem_filter.mpr ⟨hrecord, decide_eq_true (hsame _ hname)⟩)
    obtain ⟨after, hafter, hlast⟩ := ih hkept hrest hothers (fun name hseen => by
      rcases hseen with hseen | hseen
      · exact fun hmem => hfresh name hseen (mem_cons_of_mem _ hmem)
      · rw [hsame name hseen]
        exact hnot)
    refine ⟨after, ?_, hlast.congr fun name => ?_⟩
    · rw [foldlM_cons, hnext]
      exact hafter
    · rw [exists_mem_cons_iff, or_assoc]

/-- The tables after the first pass name just the distributions of the records. -/
theorem catalogued_kept (strings : Strings) (records : List DistributionRecord) :
    ∃ after, (sortBy (fun entry => nameKey entry.1) (groupBy (fun record : DistributionRecord =>
      normalizeDistributionName strings record.distribution) records)).foldlM (catalogGroup strings) ⟨[], []⟩ = .ok after ∧
      after.Kept records fun name => ∃ record ∈ records, record.distribution = name := by
  have hempty : Tables.Kept records (fun _ => False) ⟨[], []⟩ :=
    ⟨nodup_nil, nodup_nil, fun name hname => absurd hname not_mem_nil, fun name => by simp [Grouping.keys],
      fun entry hentry => absurd hentry not_mem_nil, fun entry hentry => absurd hentry not_mem_nil⟩
  have hperm := perm_sortBy (fun entry => nameKey entry.1) (groupBy (fun record : DistributionRecord =>
    normalizeDistributionName strings record.distribution) records)
  have hgroups : ∀ entry ∈ groupBy (fun record : DistributionRecord =>
      normalizeDistributionName strings record.distribution) records, entry.2 ≠ [] ∧
      entry.2 = records.filter fun record => normalizeDistributionName strings record.distribution = entry.1 := by
    intro entry hentry
    have hfilter := mem_groupBy hentry
    obtain ⟨record, hrecord, hkey⟩ := mem_keys_groupBy.mp (mem_map.mpr ⟨entry, hentry, rfl⟩)
    refine ⟨?_, hfilter⟩
    rw [hfilter]
    exact ne_nil_of_mem (mem_filter.mpr ⟨hrecord, decide_eq_true hkey⟩)
  obtain ⟨after, hrun, hkept⟩ := groups_kept strings hempty
    ((hperm.map Prod.fst).nodup_iff.mpr (nodup_groupBy _ records))
    (fun entry hentry => hgroups entry (hperm.mem_iff.mp hentry)) (fun name hseen => hseen.elim)
  refine ⟨after, hrun, hkept.congr fun name => ?_⟩
  constructor
  · rintro (hseen | ⟨entry, hentry, hname⟩)
    · exact hseen.elim
    · obtain ⟨record, hrecord, hsame⟩ := mem_rawNames.mp hname
      rw [(hgroups entry (hperm.mem_iff.mp hentry)).2] at hrecord
      exact ⟨record, (mem_filter.mp hrecord).1, hsame⟩
  · rintro ⟨record, hrecord, hname⟩
    have hmem : normalizeDistributionName strings record.distribution ∈ Grouping.keys (groupBy
        (fun record : DistributionRecord => normalizeDistributionName strings record.distribution) records) :=
      mem_keys_groupBy.mpr ⟨record, hrecord, rfl⟩
    obtain ⟨entry, hentry, hkey⟩ := mem_map.mp hmem
    refine .inr ⟨entry, hperm.mem_iff.mpr hentry, mem_rawNames.mpr ⟨record, ?_, hname⟩⟩
    rw [(hgroups entry hentry).2]
    exact mem_filter.mpr ⟨hrecord, decide_eq_true hkey.symm⟩

/-- A mapped distribution that leaves the mappings stays in the tables. -/
theorem evict_kept (h : tables.Kept records seen) (hmapped : name ∈ Grouping.keys tables.mappings)
    (hrecord : ∃ record ∈ records, record.distribution = name) : ∃ after, evict records tables name = .ok after ∧
      after.Kept records seen ∧ after.mappings = tables.mappings.filter fun entry => entry.1 ≠ name := by
  obtain ⟨record, hmem, rfl⟩ := hrecord
  have hevidence : records.filter (fun other => other.distribution = record.distribution) ≠ [] :=
    ne_nil_of_mem (mem_filter.mpr ⟨hmem, decide_eq_true rfl⟩)
  have hreason : "import root is claimed by more than one distribution".toList ≠ [] := by decide
  obtain ⟨entry, hentry, hleave⟩ := leave_ok tables record.checks.1
    (show UnresolvedState.ambiguousBinding ∈ _ from mem_cons_self) hreason hevidence
  have hkeys : ∀ other, other ∈ Grouping.keys (tables.mappings.filter fun entry => entry.1 ≠ record.distribution) ↔
      other ∈ Grouping.keys tables.mappings ∧ other ≠ record.distribution := by
    intro other
    simp only [Grouping.keys, mem_map, mem_filter, decide_eq_true_eq]
    constructor
    · rintro ⟨item, ⟨hitem, hne⟩, rfl⟩
      exact ⟨⟨item, hitem, rfl⟩, hne⟩
    · rintro ⟨⟨item, hitem, rfl⟩, hne⟩
      exact ⟨item, ⟨hitem, hne⟩, rfl⟩
  refine ⟨⟨tables.mappings.filter fun entry => entry.1 ≠ record.distribution,
    put tables.unresolved record.distribution entry⟩, ?_, ⟨?_, nodup_put h.left _ _, ?_, ?_, ?_, ?_⟩, rfl⟩
  · unfold evict
    rw [bind_eq hleave, if_neg (not_not.mpr hmapped)]
    rfl
  · exact h.mapped.sublist (filter_sublist.map Prod.fst)
  · intro other hother hleft
    obtain ⟨hother, hne⟩ := (hkeys other).mp hother
    exact (mem_keys_put.mp hleft).elim (h.apart other hother) hne
  · intro other
    rw [hkeys, mem_keys_put, ← h.named]
    by_cases hne : other = record.distribution
    · simp [hne, hmapped]
    · simp [hne]
  · intro other hother
    exact h.mappings other (mem_of_mem_filter hother)
  · intro other hother
    rcases mem_of_mem_put hother with rfl | hother
    · exact hentry
    · exact h.unresolved other hother

theorem evictions_kept {names : List Text} (h : tables.Kept records seen) (hnodup : names.Nodup)
    (hnames : ∀ name ∈ names, name ∈ Grouping.keys tables.mappings)
    (hrecords : ∀ name, seen name → ∃ record ∈ records, record.distribution = name) :
    ∃ after, names.foldlM (evict records) tables = .ok after ∧ after.Kept records seen ∧
      after.mappings = tables.mappings.filter fun entry => entry.1 ∉ names := by
  induction names generalizing tables with
  | nil => exact ⟨tables, rfl, h, by simp⟩
  | cons name rest ih =>
    obtain ⟨hnot, hrest⟩ := nodup_cons.mp hnodup
    obtain ⟨hname, hnames⟩ := forall_mem_cons.mp hnames
    obtain ⟨next, hnext, hkept, hmappings⟩ := evict_kept h hname (hrecords name ((h.named name).mp (.inl hname)))
    obtain ⟨after, hafter, hlast, hfilter⟩ := ih hkept hrest (fun other hother => by
      obtain ⟨entry, hentry, hkey⟩ := mem_map.mp (hnames other hother)
      refine mem_map.mpr ⟨entry, ?_, hkey⟩
      rw [hmappings, mem_filter, decide_eq_true_eq]
      exact ⟨hentry, fun heq => hnot (by rw [← heq, hkey]; exact hother)⟩)
    refine ⟨after, ?_, hlast, ?_⟩
    · rw [foldlM_cons, hnext]
      exact hafter
    · rw [hfilter, hmappings, filter_filter]
      refine filter_congr fun entry _ => ?_
      simp only [mem_cons, ne_eq, not_or, Bool.decide_and]
      exact Bool.and_comm _ _

theorem mem_contestedDistributions :
    name ∈ contestedDistributions mappings ↔ ∃ root owners, (root, owners) ∈ rootOwners mappings ∧ 1 < owners.length ∧
      (root, name) ∈ owners := by
  unfold contestedDistributions sortTexts
  rw [mem_sortBy, mem_dedup, mem_flatMap]
  constructor
  · rintro ⟨⟨root, owners⟩, hentry, hname⟩
    obtain ⟨hentry, hlength⟩ := mem_filter.mp hentry
    obtain ⟨⟨other, owner⟩, howner, rfl⟩ := mem_map.mp hname
    have hroot := howner
    rw [mem_groupBy hentry, mem_filter] at hroot
    have hsame : other = root := of_decide_eq_true hroot.2
    subst hsame
    exact ⟨other, owners, hentry, of_decide_eq_true hlength, howner⟩
  · rintro ⟨root, owners, hentry, hlength, hname⟩
    exact ⟨(root, owners), mem_filter.mpr ⟨hentry, decide_eq_true hlength⟩, mem_map.mpr ⟨_, hname, rfl⟩⟩

theorem mem_owned {root : Text} :
    (root, name) ∈ (mappings.flatMap fun entry => entry.2.importRoots.map fun root => (root, entry.1)) ↔
      ∃ entry ∈ mappings, entry.1 = name ∧ root ∈ entry.2.importRoots := by
  rw [mem_flatMap]
  refine exists_congr fun entry => and_congr_right fun _ => ?_
  rw [mem_map]
  constructor
  · rintro ⟨other, hroot, heq⟩
    obtain ⟨rfl, rfl⟩ := Prod.mk.inj heq
    exact ⟨rfl, hroot⟩
  · rintro ⟨rfl, hroot⟩
    exact ⟨root, hroot, rfl⟩

theorem contestedDistributions_mapped
    (h : name ∈ contestedDistributions mappings) : name ∈ Grouping.keys mappings := by
  obtain ⟨root, owners, hentry, -, hname⟩ := mem_contestedDistributions.mp h
  rw [mem_groupBy hentry] at hname
  obtain ⟨entry, hmem, rfl, -⟩ := mem_owned.mp (mem_of_mem_filter hname)
  exact mem_map.mpr ⟨entry, hmem, rfl⟩

/-- Two distributions that share a root are contested. -/
theorem contested_of_shared {a b : Text × ImportMapping} (ha : a ∈ mappings)
    (hb : b ∈ mappings) (hne : a.1 ≠ b.1) {root : Text} (hroot : root ∈ a.2.importRoots) (hother : root ∈ b.2.importRoots) :
    a.1 ∈ contestedDistributions mappings := by
  have hleft := mem_owned.mpr ⟨a, ha, rfl, hroot⟩
  have hright := mem_owned.mpr ⟨b, hb, rfl, hother⟩
  have hkey : root ∈ Grouping.keys (rootOwners mappings) := mem_keys_groupBy.mpr ⟨_, hleft, rfl⟩
  obtain ⟨⟨other, owners⟩, hentry, rfl⟩ := mem_map.mp hkey
  have howners := mem_groupBy hentry
  have hmem : (other, a.1) ∈ owners := by
    rw [howners]
    exact mem_filter.mpr ⟨hleft, decide_eq_true rfl⟩
  have hmem' : (other, b.1) ∈ owners := by
    rw [howners]
    exact mem_filter.mpr ⟨hright, decide_eq_true rfl⟩
  refine mem_contestedDistributions.mpr ⟨other, owners, hentry, ?_, hmem⟩
  by_contra hshort
  have hlength : owners.length = 1 := by
    have hpos := length_pos_of_mem hmem
    omega
  obtain ⟨owner, rfl⟩ := length_eq_one_iff.mp hlength
  have hsame := (mem_singleton.mp hmem).trans (mem_singleton.mp hmem').symm
  exact hne (congrArg Prod.snd hsame)

theorem perm_inOrder {β : Type} (table : List (Text × β)) : (inOrder table).Perm (table.map Prod.snd) :=
  (perm_sortBy _ table).map Prod.snd

theorem perm_names {β : Type} {table : List (Text × β)} {name : β → Text} (h : ∀ entry ∈ table, name entry.2 = entry.1) :
    ((inOrder table).map name).Perm (Grouping.keys table) := by
  have hkeys : (table.map Prod.snd).map name = Grouping.keys table := by
    rw [map_map]
    exact map_congr_left h
  rw [← hkeys]
  exact (perm_inOrder table).map name

/-- What a catalog says of the records: each name in one of its two lists, roots with one owner, mappings that all records
agree with. -/
structure Owned (records : List DistributionRecord) (catalog : ImportCatalog) : Prop where
  once : (catalog.mappings.map ImportMapping.distribution ++
    catalog.unresolved.map UnresolvedDistribution.distribution).Nodup
  names : ∀ name, name ∈ catalog.mappings.map ImportMapping.distribution ++
    catalog.unresolved.map UnresolvedDistribution.distribution ↔ ∃ record ∈ records, record.distribution = name
  disjoint : catalog.mappings.Pairwise fun a b => a.importRoots.Disjoint b.importRoots
  agreed : ∀ mapping ∈ catalog.mappings, Agreed records mapping

/-- Tables without a shared root give a catalog. -/
theorem catalog_owned (hlength : ¬ maxDistributionRecords < records.length)
    (h : tables.Kept records fun name => ∃ record ∈ records, record.distribution = name)
    (hapart : ∀ a ∈ tables.mappings, ∀ b ∈ tables.mappings, a.1 ≠ b.1 → a.2.importRoots.Disjoint b.2.importRoots) :
    ∃ accepted : importCatalogRefusal (inOrder tables.mappings) = none,
      Owned records ⟨inOrder tables.mappings, inOrder tables.unresolved, accepted⟩ := by
  have hmapped := perm_names fun entry hentry => (h.mappings entry hentry).1
  have hleft := perm_names h.unresolved
  have hnodup : ((inOrder tables.mappings).map ImportMapping.distribution).Nodup := hmapped.nodup_iff.mpr h.mapped
  have hcap : (inOrder tables.mappings).length ≤ maxImportMappings := by
    have hsub : Grouping.keys tables.mappings ⊆ records.map DistributionRecord.distribution := by
      intro name hname
      obtain ⟨record, hrecord, hsame⟩ := (h.named name).mp (.inl hname)
      exact mem_map.mpr ⟨record, hrecord, hsame⟩
    have hle := (subperm_of_subset h.mapped hsub).length_le
    rw [← hmapped.length_eq, length_map, length_map] at hle
    unfold maxDistributionRecords at hlength
    omega
  have hrefusal : importCatalogRefusal (inOrder tables.mappings) = none := by
    apply refusal_eq_none_iff.mpr
    simp only [forall_mem_cons, decide_eq_true_eq]
    exact ⟨hcap, hnodup, fun check hcheck => absurd hcheck not_mem_nil⟩
  refine ⟨hrefusal, ⟨?_, ?_, ?_, ?_⟩⟩
  · refine nodup_append'.mpr ⟨hnodup, hleft.nodup_iff.mpr h.left, ?_⟩
    intro name hname hother
    exact h.apart name (hmapped.mem_iff.mp hname) (hleft.mem_iff.mp hother)
  · intro name
    rw [mem_append, hmapped.mem_iff, hleft.mem_iff]
    exact h.named name
  · have hpairs : (tables.mappings.map Prod.snd).Pairwise fun a b => a.importRoots.Disjoint b.importRoots := by
      have hkeys := h.mapped
      rw [Grouping.keys, List.Nodup, pairwise_map] at hkeys
      rw [pairwise_map]
      exact hkeys.imp_of_mem fun ha hb hne => hapart _ ha _ hb hne
    exact (perm_inOrder tables.mappings).symm.pairwise hpairs fun hab => hab.symm
  · intro mapping hmapping
    obtain ⟨entry, hentry, rfl⟩ := mem_map.mp ((perm_inOrder tables.mappings).mem_iff.mp hmapping)
    exact (h.mappings entry hentry).2

/-- A batch over the cap is refused; every other batch has a catalog whose import roots have one owner. -/
theorem buildImportCatalog_owned (strings : Strings) (records : List DistributionRecord) :
    if maxDistributionRecords < records.length then buildImportCatalog strings records = .error (capError records)
    else ∃ catalog, buildImportCatalog strings records = .ok catalog ∧ Owned records catalog := by
  unfold buildImportCatalog
  split
  next => rfl
  next hlength =>
    obtain ⟨tables, hrun, hkept⟩ := catalogued_kept strings records
    have hcontested : (contestedDistributions tables.mappings).Nodup :=
      (perm_sortBy _ _).nodup_iff.mpr (nodup_dedup _)
    obtain ⟨settled, hevict, hsettled, hfilter⟩ := evictions_kept hkept hcontested
      (fun name hname => contestedDistributions_mapped hname) (fun name hname => hname)
    obtain ⟨hrefusal, howned⟩ := catalog_owned hlength hsettled (by
      intro a ha b hb hne root hroot hother
      rw [hfilter] at ha hb
      obtain ⟨ha, hout⟩ := mem_filter.mp ha
      exact of_decide_eq_true hout (contested_of_shared ha (mem_of_mem_filter hb) hne hroot hother))
    refine ⟨_, ?_, howned⟩
    dsimp only
    rw [bind_eq hrun, bind_eq hevict]
    exact made_ok hrefusal

end

end Leitir.Usage.Catalog
