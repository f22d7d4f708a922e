import Leitir.LockfileManifest

namespace Leitir.Lock

open List KeyedList

open Json (Text Value)
open License (Toml isSpace splitlines sha isDigest)
open ExceptRun

section

/-- An edge of an ecosystem: it has a name and a version, and they make its text. -/
structure EdgeOf (ecosystem : Text) (edge : DependencyEdge) : Prop where
  name : edge.name ≠ []
  version : edge.version ≠ []
  spec : edge.spec = specOf ecosystem edge.name edge.version

theorem code_injective : Function.Injective code := by
  intro a b h
  exact map_injective_iff.mpr (fun x y hxy => Char.toNat_inj.mp hxy) h

theorem ne_nil_of_isWord {text : Text} (h : isWord text = true) : text ≠ [] := by
  intro heq
  subst heq
  cases h

theorem edge_some {ecosystem : Text} {name version found : Option Text} {result : DependencyEdge}
    (h : edge ecosystem name version found = some result) : EdgeOf ecosystem result := by
  unfold edge at h
  split at h
  next name version =>
    split at h
    next hwords =>
      cases h
      rw [Bool.and_eq_true] at hwords
      exact ⟨ne_nil_of_isWord hwords.1, ne_nil_of_isWord hwords.2, rfl⟩
    next => cases h
  next => cases h

variable {edges : List DependencyEdge}

theorem mem_enter {edge item : DependencyEdge} (h : item ∈ enter edges edge) :
    item ∈ edges ∨ item = edge := by
  induction edges with
  | nil => exact .inr (mem_singleton.mp h)
  | cons existing rest ih =>
    unfold enter at h
    split at h
    next =>
      rcases mem_cons.mp h with rfl | hrest
      · split
        next => exact .inr rfl
        next => exact .inl mem_cons_self
      · exact .inl (mem_cons_of_mem _ hrest)
    next =>
      rcases mem_cons.mp h with rfl | hrest
      · exact .inl mem_cons_self
      · exact (ih hrest).imp (mem_cons_of_mem _) id

theorem keys_enter (edges : List DependencyEdge) (edge : DependencyEdge) :
    (enter edges edge).map DependencyEdge.key = edges.map DependencyEdge.key ∨
      edge.key ∉ edges.map DependencyEdge.key ∧
        (enter edges edge).map DependencyEdge.key = edges.map DependencyEdge.key ++ [edge.key] := by
  induction edges with
  | nil => exact .inr ⟨not_mem_nil, rfl⟩
  | cons existing rest ih =>
    unfold enter
    split
    next hkey =>
      refine .inl ?_
      rw [map_cons, map_cons]
      split
      next => rw [hkey]
      next => rfl
    next hkey =>
      rcases ih with hsame | ⟨hnot, hadd⟩
      · exact .inl (by rw [map_cons, map_cons, hsame])
      · refine .inr ⟨?_, by rw [map_cons, map_cons, hadd, cons_append]⟩
        rw [map_cons, mem_cons, not_or]
        exact ⟨hkey, hnot⟩

theorem nodup_enter (h : (edges.map DependencyEdge.key).Nodup) (edge : DependencyEdge) :
    ((enter edges edge).map DependencyEdge.key).Nodup := by
  rcases keys_enter edges edge with hsame | ⟨hnot, hadd⟩
  · rwa [hsame]
  · rw [hadd]
    exact List.nodup_append.mpr ⟨h, nodup_singleton _, fun a ha b hb hab => hnot (by
      rw [mem_singleton] at hb
      rwa [← hb, ← hab])⟩

theorem foldl_enter {kept : List DependencyEdge} (hkept : (kept.map DependencyEdge.key).Nodup) :
    ((edges.foldl enter kept).map DependencyEdge.key).Nodup ∧
      ∀ item ∈ edges.foldl enter kept, item ∈ kept ∨ item ∈ edges := by
  induction edges generalizing kept with
  | nil => exact ⟨hkept, fun item hitem => .inl hitem⟩
  | cons edge edges ih =>
    obtain ⟨hnodup, hmem⟩ := ih (nodup_enter hkept edge)
    refine ⟨hnodup, fun item hitem => ?_⟩
    rcases hmem item hitem with hitem | hitem
    · rcases mem_enter hitem with hitem | rfl
      · exact .inl hitem
      · exact .inr mem_cons_self
    · exact .inr (mem_cons_of_mem _ hitem)

theorem mem_ordered {item : DependencyEdge} (h : item ∈ ordered edges) : item ∈ edges := by
  have hempty : (([] : List DependencyEdge).map DependencyEdge.key).Nodup := nodup_nil
  rcases (foldl_enter hempty).2 item (mem_sortBy.mp h) with hitem | hitem
  · exact absurd hitem not_mem_nil
  · exact hitem

theorem nodup_ordered (edges : List DependencyEdge) : ((ordered edges).map DependencyEdge.key).Nodup := by
  have hperm := (perm_sortBy DependencyEdge.key (edges.foldl enter [])).map DependencyEdge.key
  have hempty : (([] : List DependencyEdge).map DependencyEdge.key).Nodup := nodup_nil
  exact hperm.nodup_iff.mpr (foldl_enter hempty).1

end

section

variable {ecosystem : Text} {scan : Scan}

def Scan.Of (ecosystem : Text) (scan : Scan) : Prop := ∀ edge ∈ scan.edges, EdgeOf ecosystem edge

theorem Scan.Of.start : Scan.Of ecosystem .start := fun _ h => absurd h not_mem_nil

theorem Scan.Of.attempt (h : scan.Of ecosystem) : scan.attempt.Of ecosystem := h

theorem Scan.Of.diagnose (h : scan.Of ecosystem) (record : Text) (kind : DiagnosticKind) :
    (scan.diagnose record kind).Of ecosystem := h

theorem Scan.Of.record (h : scan.Of ecosystem) (record : Text) (kind : DiagnosticKind) {found : Option DependencyEdge}
    (hfound : ∀ edge, found = some edge → EdgeOf ecosystem edge) : (scan.record record kind found).Of ecosystem := by
  unfold Scan.record
  split
  next edge =>
    intro item hitem
    rcases mem_append.mp hitem with hitem | hitem
    · exact h item hitem
    · rw [mem_singleton] at hitem
      subst hitem
      exact hfound item rfl
  next => exact h

theorem foldl_of {α : Type} {step : Scan → α → Scan} (hstep : ∀ (scan : Scan) (item : α), scan.Of ecosystem → (step scan item).Of ecosystem)
    (items : List α) (h : scan.Of ecosystem) : (items.foldl step scan).Of ecosystem := by
  induction items generalizing scan with
  | nil => exact h
  | cons item items ih => exact ih (hstep scan item h)

mutual

theorem npmDependencyTree_of (lead : Text) : (value : Value) → (scan : Scan) → scan.Of npm →
    (npmDependencyTree lead value scan).Of npm
  | .obj fields, scan, h => npmDependencies_of lead fields scan h
  | .null, _, h => h
  | .bool _, _, h => h
  | .int _, _, h => h
  | .float _, _, h => h
  | .str _, _, h => h
  | .arr _, _, h => h

theorem npmDependencies_of (lead : Text) : (fields : List (String × Value)) → (scan : Scan) → scan.Of npm →
    (npmDependencies lead fields scan).Of npm
  | [], _, h => h
  | field :: rest, _, h => npmDependencies_of lead rest _ (npmDependency_of lead field _ h)

theorem npmDependency_of (lead : Text) : (field : String × Value) → (scan : Scan) → scan.Of npm →
    (npmDependency lead field scan).Of npm
  | (name, value), scan, h => npmRecord_of _ name.toList value scan.attempt h

theorem npmRecord_of (record name : Text) : (value : Value) → (scan : Scan) → scan.Of npm →
    (npmRecord record name value scan).Of npm
  | .obj package, _, h => npmNested_of _ package _ (h.record record .malformed fun _ => edge_some)
  | .null, _, h => h
  | .bool _, _, h => h
  | .int _, _, h => h
  | .float _, _, h => h
  | .str _, _, h => h
  | .arr _, _, h => h

theorem npmNested_of (lead : Text) : (fields : List (String × Value)) → (scan : Scan) → scan.Of npm →
    (npmNested lead fields scan).Of npm
  | [], _, h => h
  | field :: rest, scan, h => by
    unfold npmNested
    split
    next => exact npmField_of lead field scan h
    next => exact npmNested_of lead rest scan h

theorem npmField_of (lead : Text) : (field : String × Value) → (scan : Scan) → scan.Of npm →
    (npmField lead field scan).Of npm
  | (_, value), scan, h => npmDependencyTree_of lead value scan h

end

theorem npmPackages_of (packages : Option Value) (h : scan.Of npm) : (npmPackages scan packages).Of npm := by
  unfold npmPackages
  split
  next fields =>
    refine foldl_of ?_ fields h
    intro scan entry hscan
    unfold npmPackage
    split
    next => exact hscan
    next =>
      split
      next => exact hscan.attempt.record _ _ fun _ => edge_some
      next => exact hscan
  next => exact h
  next => exact h
  next => exact h

theorem npmClosureFromPayload_of {payload : Value} (h : npmClosureFromPayload payload = some scan) : scan.Of npm := by
  unfold npmClosureFromPayload at h
  split at h
  next =>
    split at h
    next =>
      cases h
      exact npmDependencyTree_of _ _ _ (npmPackages_of _ .start)
    next => cases h
  next => cases h

theorem cargoClosureFromPayload_of {payload : List (Text × Toml)} (h : cargoClosureFromPayload payload = some scan) :
    scan.Of crates := by
  unfold cargoClosureFromPayload at h
  split at h
  next packages =>
    cases h
    refine foldl_of ?_ _ .start
    intro scan entry hscan
    unfold cargoPackage
    simp only
    split
    next =>
      split
      next =>
        split
        next => exact hscan
        next => exact hscan
      next => exact hscan.attempt.record _ _ fun _ => edge_some
    next => exact hscan
  next => cases h

theorem goCandidate_of {state : GoScan} (h : state.scan.Of go) (number : Nat) (candidate : List Text) :
    (goCandidate state number candidate).scan.Of go := by
  unfold goCandidate
  split
  next =>
    split
    next => exact h.record _ _ fun _ => edge_some
    next => exact h
  next => exact h

theorem goLine_of {state : GoScan} (h : state.scan.Of go) (entry : Text × Nat) : (goLine state entry).scan.Of go := by
  unfold goLine
  split
  next => exact h
  next => exact h
  next =>
    split
    next => exact h
    next =>
      split
      next => exact h
      next =>
        split
        next => exact goCandidate_of h _ _
        next =>
          split
          next => exact goCandidate_of h _ _
          next => exact h

theorem goRequirements_of (text : Text) : (goRequirements text).Of go := by
  have hrun : ∀ (lines : List (Text × Nat)) (state : GoScan), state.scan.Of go → (lines.foldl goLine state).scan.Of go := by
    intro lines
    induction lines with
    | nil => exact fun state h => h
    | cons line lines ih => exact fun state h => ih _ (goLine_of h line)
  have hlines := hrun ((splitlines text).zipIdx 1) ⟨.start, false⟩ .start
  unfold goRequirements
  simp only
  split
  next => exact hlines
  next => exact hlines

theorem pythonEdges_of (text : Text) : (pythonEdges text).Of pypi := by
  refine foldl_of ?_ _ .start
  intro scan entry hscan
  unfold pythonLine
  simp only
  split
  next => exact hscan
  next =>
    split
    next => exact hscan
    next =>
      split
      next => exact hscan.record _ _ fun _ => edge_some
      next => exact hscan

theorem manifestPythonPyproject_of {payload : List (Text × Toml)} (h : manifestPythonPyproject payload = some scan) :
    scan.Of pypi := by
  unfold manifestPythonPyproject at h
  split at h
  next =>
    cases h
    exact .start
  next =>
    split at h
    next =>
      cases h
      exact .start
    next =>
      cases h
      refine foldl_of ?_ _ .start
      intro scan entry hscan
      unfold pyprojectDependency
      simp only
      split
      next =>
        intro edge hedge
        rcases mem_append.mp hedge with hedge | hedge
        · exact hscan edge hedge
        · exact pythonEdges_of _ edge hedge
      next => exact hscan
    next => cases h
  next => cases h

end

section

variable {tomlLoads : Text → Option (List (Text × Toml))}

/-- Whatever is read of a source belongs to the ecosystem of its file. -/
theorem readSource_of {name text : Text} {reading : Reading} {metadata : SourceMetadata}
    (hname : manifestSourceNames.lookup name = some metadata) (h : readSource tomlLoads name text = some reading) :
    ∃ scan : Scan, scan.Of metadata.ecosystem ∧ reading.deps = ordered scan.edges := by
  unfold readSource at h
  split at h
  next heq =>
    subst heq
    cases hname
    obtain ⟨scan, hscan, rfl⟩ := Option.map_eq_some_iff.mp h
    obtain ⟨payload, -, hscan⟩ := Option.bind_eq_some_iff.mp hscan
    exact ⟨scan, npmClosureFromPayload_of hscan, rfl⟩
  next =>
    split at h
    next heq =>
      subst heq
      cases hname
      obtain ⟨scan, hscan, rfl⟩ := Option.map_eq_some_iff.mp h
      obtain ⟨payload, -, hscan⟩ := Option.bind_eq_some_iff.mp hscan
      exact ⟨scan, cargoClosureFromPayload_of hscan, rfl⟩
    next =>
      split at h
      next heq =>
        subst heq
        cases hname
        cases h
        exact ⟨goRequirements text, goRequirements_of text, rfl⟩
      next =>
        split at h
        next heq =>
          subst heq
          cases hname
          cases h
          exact ⟨pythonEdges text, pythonEdges_of text, rfl⟩
        next =>
          split at h
          next heq =>
            subst heq
            cases hname
            obtain ⟨scan, hscan, rfl⟩ := Option.map_eq_some_iff.mp h
            obtain ⟨payload, -, hscan⟩ := Option.bind_eq_some_iff.mp hscan
            exact ⟨scan, manifestPythonPyproject_of hscan, rfl⟩
          next =>
            cases h
            exact ⟨.start, .start, rfl⟩

/-- A source that has been read: its label is that of its file, and its edges are distinct edges of its ecosystem. -/
structure SourceRead (source : ManifestDependencySource) : Prop where
  metadata : manifestSourceMetadata source.path = some source.toSourceMetadata
  valid : validManifestPath source.path = true
  digest : isDigest source.sourceDigest = true
  edges : ∀ edge ∈ source.deps, EdgeOf source.ecosystem edge
  nodup : (source.deps.map DependencyEdge.key).Nodup

theorem parseManifestSource_ok {file : VerifiedManifestBytes} {source : ManifestDependencySource}
    (hvalid : validManifestPath file.path = true) (hsha : file.sha256 = sha file.content)
    (h : parseManifestSource tomlLoads file = .ok source) : source.path = file.path ∧ SourceRead source := by
  have hdigest : isDigest file.sha256 = true := by
    rw [hsha]
    exact License.isDigest_sha _
  unfold parseManifestSource at h
  split at h
  next => cases h
  next metadata hmetadata =>
    split at h
    next =>
      cases h
      exact ⟨rfl, hmetadata, hvalid, hdigest, fun edge hedge => absurd hedge not_mem_nil, nodup_nil⟩
    next reading hreading =>
      cases h
      obtain ⟨text, -, hread⟩ := Option.bind_eq_some_iff.mp hreading
      obtain ⟨scan, hscan, hdeps⟩ := readSource_of hmetadata hread
      refine ⟨rfl, hmetadata, hvalid, hdigest, fun edge hedge => ?_, ?_⟩
      · rw [hdeps] at hedge
        exact hscan edge (mem_ordered hedge)
      · change (reading.deps.map DependencyEdge.key).Nodup
        rw [hdeps]
        exact nodup_ordered _

variable {files : List VerifiedManifestBytes}

theorem checkFiles_ok {seen : List Text} (h : checkFiles files seen = .ok ()) :
    ∀ file ∈ files, validManifestPath file.path = true ∧ file.sha256 = sha file.content := by
  induction files generalizing seen with
  | nil => exact fun file hfile => absurd hfile not_mem_nil
  | cons file rest ih =>
    unfold checkFiles at h
    obtain ⟨hvalid, h⟩ := guard_ok h
    obtain ⟨-, h⟩ := guard_ok h
    obtain ⟨hbytes, h⟩ := guard_ok h
    rw [not_or, not_not, not_not] at hbytes
    rw [forall_mem_cons]
    exact ⟨⟨not_not.mp hvalid, hbytes.2⟩, ih h⟩

/-- Without diagnostics every declared source has been read. -/
theorem readDeclared_ok {paths : List Text} {sources : List ManifestDependencySource}
    (hfiles : ∀ file ∈ files, validManifestPath file.path = true ∧ file.sha256 = sha file.content)
    (h : readDeclared tomlLoads files paths = .ok (sources, [])) :
    sources.map ManifestDependencySource.path = paths ∧ ∀ source ∈ sources, SourceRead source := by
  induction paths generalizing sources with
  | nil =>
    cases h
    exact ⟨rfl, fun source hsource => absurd hsource not_mem_nil⟩
  | cons path rest ih =>
    unfold readDeclared at h
    split at h
    next =>
      obtain ⟨found, -, h⟩ := bind_ok h
      cases h
    next file hfile =>
      obtain ⟨source, hsource, h⟩ := bind_ok h
      obtain ⟨⟨others, diagnostics⟩, hothers, h⟩ := bind_ok h
      have hpair : (source :: others, source.diagnostics ++ diagnostics) = (sources, []) := Except.ok.inj h
      obtain ⟨hsources, hdiagnostics⟩ := Prod.mk.injEq .. ▸ hpair
      obtain ⟨-, rfl⟩ := append_eq_nil_iff.mp hdiagnostics
      subst hsources
      obtain ⟨hvalid, hsha⟩ := hfiles file (mem_of_find?_eq_some hfile)
      obtain ⟨hpath, hread⟩ := parseManifestSource_ok hvalid hsha hsource
      obtain ⟨hpaths, hreads⟩ := ih hothers
      have hfound : file.path = path := by simpa using find?_some hfile
      refine ⟨by rw [map_cons, hpath, hfound, hpaths], ?_⟩
      rw [forall_mem_cons]
      exact ⟨hread, hreads⟩

/-- What a closure without diagnostics is. -/
theorem dependencyClosures_clean {policy : DependencyManifestPolicy}
    {result : ManifestDependencyResult} (h : dependencyClosuresFromManifest tomlLoads files policy = .ok result)
    (hclean : result.diagnostics = []) :
    (result.sources.map ManifestDependencySource.path).Perm policy.declared ∧ policy.declared.Nodup ∧
      ∀ source ∈ result.sources, SourceRead source := by
  unfold dependencyClosuresFromManifest at h
  obtain ⟨hpolicy, h⟩ := guard_ok h
  obtain ⟨_, hchecked, h⟩ := bind_ok h
  obtain ⟨⟨sources, diagnostics⟩, hdeclared, h⟩ := bind_ok h
  cases h
  have hnone : diagnostics = [] := by
    rw [eq_nil_iff_forall_not_mem] at hclean ⊢
    intro item hitem
    exact hclean item (mem_sortBy.mpr (mem_append_right _ hitem))
  subst hnone
  obtain ⟨hpaths, hreads⟩ := readDeclared_ok (checkFiles_ok hchecked) hdeclared
  have hperm := perm_sortBy (fun source : ManifestDependencySource => [code source.path]) sources
  refine ⟨?_, (not_not.mp hpolicy).1, fun source hsource => hreads source (mem_sortBy.mp hsource)⟩
  have hmap := hperm.map ManifestDependencySource.path
  rw [hpaths] at hmap
  exact hmap.trans (perm_sortBy _ _)

end

end Leitir.Lock
