import Leitir.LockfileSound

namespace Leitir.Lock

open List

open Json (Text Value)
open License (Toml)

section

variable {edges : List DependencyEdge}

theorem mem_keys_enter {key : KeyedList.Key} {edge : DependencyEdge}
    (h : key ∈ edges.map DependencyEdge.key ∨ key = edge.key) : key ∈ (enter edges edge).map DependencyEdge.key := by
  induction edges with
  | nil =>
    rcases h with h | h
    · exact absurd h not_mem_nil
    · exact mem_singleton.mpr h
  | cons existing rest ih =>
    unfold enter
    rw [map_cons, mem_cons] at h
    split
    next hkey =>
      -- the kept edge has the key of both
      have hkept : (if existing.identified < edge.identified then edge else existing).key = existing.key := by
        split
        next => exact hkey
        next => rfl
      rw [map_cons, mem_cons, hkept]
      rcases h with h | h
      · exact h
      · exact .inl (h.trans hkey)
    next =>
      rw [map_cons, mem_cons]
      rcases h with (h | h) | h
      · exact .inl h
      · exact .inr (ih (.inl h))
      · exact .inr (ih (.inr h))

theorem mem_keys_foldl_enter {kept : List DependencyEdge} {key : KeyedList.Key}
    (h : key ∈ kept.map DependencyEdge.key ∨ key ∈ edges.map DependencyEdge.key) :
    key ∈ (edges.foldl enter kept).map DependencyEdge.key := by
  induction edges generalizing kept with
  | nil => exact h.resolve_right not_mem_nil
  | cons edge edges ih =>
    refine ih ?_
    rw [map_cons, mem_cons] at h
    rcases h with h | h | h
    · exact .inl (mem_keys_enter (.inl h))
    · exact .inl (mem_keys_enter (.inr h))
    · exact .inr h

theorem exists_mem_ordered {edge : DependencyEdge} (h : edge ∈ edges) :
    ∃ dep ∈ ordered edges, dep.name = edge.name ∧ dep.version = edge.version := by
  have hkey : edge.key ∈ (edges.foldl enter []).map DependencyEdge.key :=
    mem_keys_foldl_enter (.inr (mem_map_of_mem h))
  obtain ⟨dep, hdep, hsame⟩ := mem_map.mp hkey
  unfold DependencyEdge.key at hsame
  obtain ⟨hname, hrest⟩ := List.cons.inj hsame
  obtain ⟨hversion, -⟩ := List.cons.inj hrest
  exact ⟨dep, KeyedList.mem_sortBy.mpr hdep, code_injective hname, code_injective hversion⟩

end

section

/-- A later state of a scan: what was tried since is an edge or a diagnostic, and no edge is lost. -/
structure Scan.Grows (scan after : Scan) : Prop where
  counted : after.attempted + scan.parsed + scan.diagnostics.length =
    scan.attempted + after.parsed + after.diagnostics.length
  edges : scan.edges ⊆ after.edges

variable {scan mid after : Scan}

theorem Scan.Grows.refl (scan : Scan) : scan.Grows scan := ⟨rfl, List.Subset.refl _⟩

theorem Scan.Grows.trans (h : scan.Grows mid) (h' : mid.Grows after) : scan.Grows after := by
  have hfirst := h.counted
  have hsecond := h'.counted
  exact ⟨by omega, List.Subset.trans h.edges h'.edges⟩

theorem grows_diagnose (scan : Scan) (record : Text) (kind : DiagnosticKind) :
    scan.Grows (scan.attempt.diagnose record kind) := by
  refine ⟨?_, List.Subset.refl _⟩
  simp only [Scan.diagnose, Scan.attempt, length_append, length_singleton]
  omega

theorem grows_record (scan : Scan) (record : Text) (kind : DiagnosticKind) (found : Option DependencyEdge) :
    scan.Grows (scan.attempt.record record kind found) := by
  unfold Scan.record
  split
  next edge =>
    refine ⟨?_, subset_append_left _ _⟩
    simp only [Scan.add, Scan.attempt]
    omega
  next => exact grows_diagnose scan record kind

theorem mem_record (scan : Scan) (record : Text) (kind : DiagnosticKind) {found : Option DependencyEdge}
    {edge : DependencyEdge} (h : found = some edge) : edge ∈ (scan.record record kind found).edges := by
  subst h
  exact mem_append_right _ (mem_singleton_self edge)

theorem foldl_grows {α : Type} {step : Scan → α → Scan} (hstep : ∀ (scan : Scan) (item : α), scan.Grows (step scan item))
    (items : List α) (scan : Scan) : scan.Grows (items.foldl step scan) := by
  induction items generalizing scan with
  | nil => exact .refl scan
  | cons item items ih => exact (hstep scan item).trans (ih _)

theorem foldl_passes {α : Type} {step : Scan → α → Scan} (hstep : ∀ (scan : Scan) (item : α), scan.Grows (step scan item))
    {items : List α} {item : α} (h : item ∈ items) (scan : Scan) :
    ∃ mid : Scan, (step mid item).Grows (items.foldl step scan) := by
  induction items generalizing scan with
  | nil => cases h
  | cons first items ih =>
    rcases mem_cons.mp h with rfl | h
    · exact ⟨scan, foldl_grows hstep items _⟩
    · exact ih h _

end

section

/-- A package of a dependency tree with its name, at any depth. -/
inductive InTree : Value → Text → List (String × Value) → Prop
  | here {fields : List (String × Value)} {name : String} {package : List (String × Value)} :
    (name, .obj package) ∈ fields → InTree (.obj fields) name.toList package
  | deeper {fields : List (String × Value)} {name : String} {package : List (String × Value)} {tree : Value} {inner : Text}
      {found : List (String × Value)} :
    (name, .obj package) ∈ fields → package.lookup "dependencies" = some tree → InTree tree inner found →
      InTree (.obj fields) inner found

/-- A package of a lock file with its name: it is listed, or it stands in the tree. -/
inductive NpmRecord : Value → Text → List (String × Value) → Prop
  | listed {fields packages package : List (String × Value)} {path : String} {name : Text} :
    fields.lookup "packages" = some (.obj packages) → (path, .obj package) ∈ packages → path ≠ "" →
      npmNameFromPath path.toList = some name → NpmRecord (.obj fields) name package
  | nested {fields package : List (String × Value)} {tree : Value} {name : Text} :
    fields.lookup "dependencies" = some tree → InTree tree name package → NpmRecord (.obj fields) name package

mutual

theorem npmDependencyTree_grows (lead : Text) : (value : Value) → (scan : Scan) → scan.Grows (npmDependencyTree lead value scan)
  | .obj fields, scan => npmDependencies_grows lead fields scan
  | .null, scan => .refl scan
  | .bool _, scan => grows_diagnose scan lead .malformed
  | .int _, scan => grows_diagnose scan lead .malformed
  | .float _, scan => grows_diagnose scan lead .malformed
  | .str _, scan => grows_diagnose scan lead .malformed
  | .arr _, scan => grows_diagnose scan lead .malformed

theorem npmDependencies_grows (lead : Text) : (fields : List (String × Value)) → (scan : Scan) →
    scan.Grows (npmDependencies lead fields scan)
  | [], scan => .refl scan
  | field :: rest, scan => (npmDependency_grows lead field scan).trans (npmDependencies_grows lead rest _)

theorem npmDependency_grows (lead : Text) : (field : String × Value) → (scan : Scan) →
    scan.Grows (npmDependency lead field scan)
  | (name, value), scan => npmRecord_grows _ name.toList value scan

theorem npmRecord_grows (record name : Text) : (value : Value) → (scan : Scan) →
    scan.Grows (npmRecord record name value scan.attempt)
  | .obj package, scan => (grows_record scan record .malformed _).trans (npmNested_grows _ package _)
  | .null, scan => grows_diagnose scan record .malformed
  | .bool _, scan => grows_diagnose scan record .malformed
  | .int _, scan => grows_diagnose scan record .malformed
  | .float _, scan => grows_diagnose scan record .malformed
  | .str _, scan => grows_diagnose scan record .malformed
  | .arr _, scan => grows_diagnose scan record .malformed

theorem npmNested_grows (lead : Text) : (fields : List (String × Value)) → (scan : Scan) →
    scan.Grows (npmNested lead fields scan)
  | [], scan => .refl scan
  | field :: rest, scan => by
    unfold npmNested
    split
    next => exact npmField_grows lead field scan
    next => exact npmNested_grows lead rest scan

theorem npmField_grows (lead : Text) : (field : String × Value) → (scan : Scan) → scan.Grows (npmField lead field scan)
  | (_, value), scan => npmDependencyTree_grows lead value scan

end

theorem npmDependencies_passes (lead : Text) {fields : List (String × Value)} {field : String × Value} (h : field ∈ fields)
    (scan : Scan) : ∃ mid : Scan, (npmDependency lead field mid).Grows (npmDependencies lead fields scan) := by
  induction fields generalizing scan with
  | nil => cases h
  | cons first rest ih =>
    rcases mem_cons.mp h with rfl | h
    · exact ⟨scan, npmDependencies_grows lead rest _⟩
    · exact ih h _

variable {package : List (String × Value)}

theorem npmNested_lookup (lead : Text) {tree : Value}
    (h : package.lookup "dependencies" = some tree) (scan : Scan) :
    npmNested lead package scan = npmDependencyTree lead tree scan := by
  induction package with
  | nil => cases h
  | cons field rest ih =>
    obtain ⟨name, value⟩ := field
    unfold npmNested
    rw [lookup_cons] at h
    by_cases hname : name = "dependencies"
    · subst hname
      rw [beq_self_eq_true] at h
      cases h
      rw [if_pos rfl, npmField]
    · rw [beq_false_of_ne (Ne.symm hname)] at h
      rw [if_neg hname]
      exact ih h

theorem mem_npmDependencyTree {value : Value} {name : Text} (h : InTree value name package)
    {edge : DependencyEdge} (hedge : npmEdge (some name) package = some edge) (lead : Text) (scan : Scan) :
    edge ∈ (npmDependencyTree lead value scan).edges := by
  induction h generalizing lead scan with
  | here hfield =>
    obtain ⟨mid, hmid⟩ := npmDependencies_passes lead hfield scan
    rw [npmDependencyTree]
    refine hmid.edges ?_
    rw [npmDependency, npmRecord]
    exact (npmNested_grows _ _ _).edges (mem_record _ _ _ hedge)
  | deeper hfield htree _ ih =>
    obtain ⟨mid, hmid⟩ := npmDependencies_passes lead hfield scan
    rw [npmDependencyTree]
    refine hmid.edges ?_
    rw [npmDependency, npmRecord, npmNested_lookup _ htree]
    exact ih hedge _ _

theorem npmPackage_grows (scan : Scan) (entry : String × Value) : scan.Grows (npmPackage scan entry) := by
  unfold npmPackage
  split
  next => exact .refl scan
  next =>
    split
    next => exact grows_record scan _ _ _
    next => exact grows_diagnose scan _ _

theorem npmPackages_grows (scan : Scan) (packages : Option Value) : scan.Grows (npmPackages scan packages) := by
  unfold npmPackages
  split
  next fields => exact foldl_grows npmPackage_grows fields scan
  next => exact .refl scan
  next => exact .refl scan
  next => exact grows_diagnose scan _ _

theorem npmClosure_grows {payload : Value} {scan : Scan} (h : npmClosureFromPayload payload = some scan) :
    Scan.start.Grows scan := by
  unfold npmClosureFromPayload at h
  split at h
  next =>
    split at h
    next =>
      cases h
      exact (npmPackages_grows .start _).trans (npmDependencyTree_grows _ _ _)
    next => cases h
  next => cases h

theorem mem_npmClosure {payload : Value} {scan : Scan} (h : npmClosureFromPayload payload = some scan) {name : Text} (hrecord : NpmRecord payload name package) {edge : DependencyEdge}
    (hedge : npmEdge (some name) package = some edge) : edge ∈ scan.edges := by
  cases hrecord with
  | @listed fields packages _ path _ hpackages hmem hpath hname =>
    simp only [npmClosureFromPayload] at h
    split at h
    next =>
      cases h
      refine (npmDependencyTree_grows _ _ _).edges ?_
      rw [hpackages, npmPackages]
      obtain ⟨mid, hmid⟩ := foldl_passes npmPackage_grows hmem .start
      refine hmid.edges ?_
      unfold npmPackage
      rw [if_neg hpath, hname]
      exact mem_record _ _ _ hedge
    next => cases h
  | nested htree hin =>
    simp only [npmClosureFromPayload] at h
    split at h
    next =>
      cases h
      rw [htree, Option.getD_some]
      exact mem_npmDependencyTree hin hedge _ _
    next => cases h

end

theorem cargoPackage_grows (scan : Scan) (entry : Toml × Nat) : scan.Grows (cargoPackage scan entry) := by
  unfold cargoPackage
  simp only
  split
  next =>
    split
    next =>
      split
      next => exact grows_diagnose scan _ _
      next =>
        -- a member of the workspace counts as read, and no edge is added for it
        refine ⟨?_, List.Subset.refl _⟩
        simp only [Scan.attempt]
        omega
    next => exact grows_record scan _ _ _
  next => exact grows_diagnose scan _ _

theorem cargoClosure_grows {payload : List (Text × Toml)} {scan : Scan} (h : cargoClosureFromPayload payload = some scan) :
    Scan.start.Grows scan := by
  unfold cargoClosureFromPayload at h
  split at h
  next =>
    cases h
    exact foldl_grows cargoPackage_grows _ _
  next => cases h

/-- A package of a lock file that is not a member of its workspace. -/
structure CargoRecord (payload package : List (Text × Toml)) : Prop where
  listed : ∃ packages, License.lookup payload "package" = some (.arr packages) ∧ .table package ∈ packages
  sourced : (License.lookup package "source").isSome

theorem mem_cargoClosure {payload package : List (Text × Toml)} {scan : Scan}
    (h : cargoClosureFromPayload payload = some scan) (hrecord : CargoRecord payload package) {edge : DependencyEdge}
    (hedge : Lock.edge crates (tomlField package "name") (tomlField package "version") (identity (tomlField package)) = some edge) :
    edge ∈ scan.edges := by
  obtain ⟨packages, hpackages, hmem⟩ := hrecord.listed
  unfold cargoClosureFromPayload at h
  rw [hpackages] at h
  cases h
  obtain ⟨index, hlt, hget⟩ := getElem_of_mem hmem
  have hindex : (Toml.table package, index) ∈ packages.zipIdx :=
    mem_zipIdx_iff_getElem?.mpr (List.getElem?_eq_some_iff.mpr ⟨hlt, hget⟩)
  obtain ⟨mid, hmid⟩ := foldl_passes cargoPackage_grows hindex .start
  refine hmid.edges ?_
  have hsource : ¬ (License.lookup package "source").isNone := by
    rw [Option.isNone_iff_eq_none]
    exact Option.isSome_iff_ne_none.mp hrecord.sourced
  unfold cargoPackage
  simp only [if_neg hsource]
  exact mem_record _ _ _ hedge

section

variable {tomlLoads : Text → Option (List (Text × Toml))}

/-- A record of a source that its parser turns into an edge to something outside. Where records are lines, they are
what the parser of the lines returns. -/
inductive External (tomlLoads : Text → Option (List (Text × Toml))) : Text → Text → DependencyEdge → Prop
  | npm {text name : Text} {payload : Value} {package : List (String × Value)} {edge : DependencyEdge} :
    Json.plainLoads text = some payload → NpmRecord payload name package → npmEdge (some name) package = some edge →
      External tomlLoads packageLock text edge
  | cargo {text : Text} {payload package : List (Text × Toml)} {edge : DependencyEdge} :
    tomlLoads text = some payload → CargoRecord payload package →
      Lock.edge crates (tomlField package "name") (tomlField package "version") (identity (tomlField package)) = some edge →
      External tomlLoads cargoLock text edge
  | go {text : Text} {edge : DependencyEdge} : edge ∈ (goRequirements text).edges → External tomlLoads goMod text edge
  | requirements {text : Text} {edge : DependencyEdge} :
    edge ∈ (pythonEdges text).edges → External tomlLoads requirementsTxt text edge
  | pyproject {text : Text} {payload : List (Text × Toml)} {scan : Scan} {edge : DependencyEdge} :
    tomlLoads text = some payload → manifestPythonPyproject payload = some scan → edge ∈ scan.edges →
      External tomlLoads pyprojectToml text edge

theorem Scan.Grows.closure {scan : Scan} (h : Scan.start.Grows scan) :
    scan.closure.attempted = scan.closure.parsed + scan.closure.diagnostics.length := by
  have hcounted := h.counted
  simp only [Scan.start, length_nil] at hcounted
  simp only [Scan.closure]
  omega

theorem readSource_counted {name text : Text} {reading : Reading} (h : readSource tomlLoads name text = some reading) :
    reading.attempted = reading.parsed + reading.diagnostics.length := by
  unfold readSource at h
  split at h
  next =>
    obtain ⟨scan, hscan, rfl⟩ := Option.map_eq_some_iff.mp h
    obtain ⟨payload, -, hscan⟩ := Option.bind_eq_some_iff.mp hscan
    exact (npmClosure_grows hscan).closure
  next =>
    split at h
    next =>
      obtain ⟨scan, hscan, rfl⟩ := Option.map_eq_some_iff.mp h
      obtain ⟨payload, -, hscan⟩ := Option.bind_eq_some_iff.mp hscan
      exact (cargoClosure_grows hscan).closure
    next =>
      -- the sources that are read by lines count what they have returned
      split at h
      next =>
        cases h
        rfl
      next =>
        split at h
        next =>
          cases h
          rfl
        next =>
          split at h
          next =>
            obtain ⟨scan, -, rfl⟩ := Option.map_eq_some_iff.mp h
            rfl
          next =>
            cases h
            rfl

theorem readSource_external {name text : Text} {reading : Reading} (h : readSource tomlLoads name text = some reading)
    {edge : DependencyEdge} (hedge : External tomlLoads name text edge) :
    ∃ dep ∈ reading.deps, dep.name = edge.name ∧ dep.version = edge.version := by
  unfold readSource at h
  cases hedge with
  | npm hpayload hrecord hedge =>
    rw [if_pos rfl, hpayload] at h
    obtain ⟨scan, hscan, rfl⟩ := Option.map_eq_some_iff.mp h
    exact exists_mem_ordered (mem_npmClosure hscan hrecord hedge)
  | cargo hpayload hrecord hedge =>
    rw [if_neg (by decide), if_pos rfl, hpayload] at h
    obtain ⟨scan, hscan, rfl⟩ := Option.map_eq_some_iff.mp h
    exact exists_mem_ordered (mem_cargoClosure hscan hrecord hedge)
  | go hmem =>
    rw [if_neg (by decide), if_neg (by decide), if_pos rfl] at h
    cases h
    exact exists_mem_ordered hmem
  | requirements hmem =>
    rw [if_neg (by decide), if_neg (by decide), if_neg (by decide), if_pos rfl] at h
    cases h
    exact exists_mem_ordered hmem
  | pyproject hpayload hscan hmem =>
    rw [if_neg (by decide), if_neg (by decide), if_neg (by decide), if_neg (by decide), if_pos rfl, hpayload,
      Option.bind_some, hscan, Option.map_some] at h
    cases h
    exact exists_mem_ordered hmem

/-- Nothing is lost between the records of a source and its result: what was tried is what was read and what was
diagnosed, at every depth of a tree, and every record that was read is among the dependencies. -/
theorem parseManifestSource_conserves {file : VerifiedManifestBytes} {text : Text} {reading : Reading}
    {source : ManifestDependencySource} (htext : Utf8.decodeText file.content = some text)
    (hreading : readSource tomlLoads (pathName file.path) text = some reading)
    (h : parseManifestSource tomlLoads file = .ok source) :
    source.attemptedRecords = source.parsedRecords + source.diagnostics.length ∧
      (∀ (lead : Text) (tree : Value) (scan : Scan),
        (npmDependencyTree lead tree scan).attempted + scan.parsed + scan.diagnostics.length =
          scan.attempted + (npmDependencyTree lead tree scan).parsed + (npmDependencyTree lead tree scan).diagnostics.length) ∧
      ∀ edge, External tomlLoads (pathName file.path) text edge →
        ∃ dep ∈ source.deps, dep.name = edge.name ∧ dep.version = edge.version := by
  unfold parseManifestSource at h
  rw [htext, Option.bind_some, hreading] at h
  split at h
  next => cases h
  next =>
    cases h
    refine ⟨?_, fun lead tree scan => (npmDependencyTree_grows lead tree scan).counted,
      fun edge hedge => readSource_external hreading hedge⟩
    have hlength : (sortDiagnostics (reading.diagnostics.map fun item =>
        manifestDiagnostic file.path item.2 item.1 false)).length = reading.diagnostics.length := by
      rw [sortDiagnostics, (KeyedList.perm_sortBy _ _).length_eq, length_map]
    show reading.attempted = reading.parsed + _
    rw [hlength]
    exact readSource_counted hreading

def nestedText : Text := "\x7b\"lockfileVersion\":3,\"dependencies\":\x7b\"a\":\x7b\"dependencies\":1\x7d\x7d\x7d".toList

def nestedLock : VerifiedManifestBytes := ⟨packageLock, [], 0, [], Utf8.encodeText nestedText⟩

theorem parseManifestSource_conserves_nested : ∃ reading source,
    readSource (fun _ => none) (pathName nestedLock.path) nestedText = some reading ∧
      parseManifestSource (fun _ => none) nestedLock = .ok source ∧
      source.attemptedRecords = source.parsedRecords + source.diagnostics.length := by
  have hsome : (readSource (fun _ => none) (pathName nestedLock.path) nestedText).isSome = true := by decide +kernel
  obtain ⟨reading, hreading⟩ := Option.isSome_iff_exists.mp hsome
  have htext : Utf8.decodeText nestedLock.content = some nestedText := Utf8.decodeText_encodeText _
  have hknown : (manifestSourceMetadata nestedLock.path).isSome = true := by decide +kernel
  obtain ⟨metadata, hmetadata⟩ := Option.isSome_iff_exists.mp hknown
  have hparse : ∃ source, parseManifestSource (fun _ => none) nestedLock = .ok source := by
    unfold parseManifestSource
    rw [hmetadata, htext, Option.bind_some, hreading]
    exact ⟨_, rfl⟩
  obtain ⟨source, hsource⟩ := hparse
  exact ⟨reading, source, hreading, hsource, (parseManifestSource_conserves htext hreading hsource).1⟩

end

end Leitir.Lock
