import Leitir.Composition
import Leitir.LockfileSound

namespace Leitir.Composition

open List

open Json (Text)
open License (Toml isDigest)
open Lock (DependencyEdge VerifiedManifestBytes DependencyManifestPolicy ManifestDependencySource code
  dependencyClosuresFromManifest SourceRead pathName goMod)
open TupleOrder (Part Tuple ordered orderedAll)
open ExceptRun

section

variable (tomlLoads : Text → Option (List (Text × Toml))) (input : CompositionInput)

def CompositionInput.subjects : List CompositionCandidateRef := input.recipient :: input.candidates

def CompositionInput.manifestsOf (subject : CompositionCandidateRef) : List VerifiedManifestBytes :=
  if subject.candidateKey = input.recipient.candidateKey then input.recipientFiles else input.filesOf subject

def sourcesOf (subject : CompositionCandidateRef) : List ManifestDependencySource :=
  match dependencyClosuresFromManifest tomlLoads (input.manifestsOf subject) input.dependencyPolicy with
  | .ok result => result.sources
  | .error _ => []

/-- Inputs as they are asked for: valid references with distinct keys, manifests for each subject and for no other, and
a policy with sources that parse without a diagnostic. -/
structure WellFormed : Prop where
  named : input.recipientSubject ≠ []
  policyDigest : isDigest input.policyDigest = true
  refs : ∀ subject ∈ input.subjects, validateRef subject = .ok ()
  distinct : (input.subjects.map (·.candidateKey)).Nodup
  files : (∀ entry ∈ input.candidateFiles, entry.1 ∈ input.candidates.map (·.candidateKey)) ∧
    ∀ key ∈ input.candidates.map (·.candidateKey), (input.candidateFiles.lookup key).isSome = true
  declared : input.dependencyPolicy.declared ≠ []
  clean : ∀ subject ∈ input.subjects, ∃ result,
    dependencyClosuresFromManifest tomlLoads (input.manifestsOf subject) input.dependencyPolicy = .ok result ∧
      result.diagnostics = []

def Labelled : Prop := ∀ path ∈ input.dependencyPolicy.declared, pathName path ≠ goMod

end

section

variable {source : ManifestDependencySource}

/-- The label of every source but that of a Go module is understood. -/
theorem closureCompleteness_read (h : SourceRead source) :
    closureCompleteness source.graph = none ∧ pathName source.path = goMod ∨
      ∃ completeness, closureCompleteness source.graph = some completeness ∧ pathName source.path ≠ goMod ∧
        (completeness = .complete ↔ source.graph = "complete".toList) := by
  obtain ⟨before, after, hnames, -⟩ := List.lookup_eq_some_iff.mp h.metadata
  have hmem : (pathName source.path, source.toSourceMetadata) ∈ Lock.manifestSourceNames := by
    rw [hnames]
    exact mem_append_right _ mem_cons_self
  simp only [Lock.manifestSourceNames, mem_cons, not_mem_nil, or_false, Prod.mk.injEq] at hmem
  rcases hmem with ⟨hname, hlabel⟩ | ⟨hname, hlabel⟩ | ⟨hname, hlabel⟩ | ⟨hname, hlabel⟩ | ⟨hname, hlabel⟩
  · rw [hname, hlabel]
    exact .inr ⟨.complete, by decide, by decide, by decide⟩
  · rw [hname, hlabel]
    exact .inl ⟨by decide, by decide⟩
  · rw [hname, hlabel]
    exact .inr ⟨.complete, by decide, by decide, by decide⟩
  · rw [hname, hlabel]
    exact .inr ⟨.directOnly, by decide, by decide, by decide⟩
  · rw [hname, hlabel]
    exact .inr ⟨.directOnly, by decide, by decide, by decide⟩

end

section

variable {tomlLoads : Text → Option (List (Text × Toml))} {input : CompositionInput} {subject : CompositionCandidateRef}

theorem sourcesOf_read (h : WellFormed tomlLoads input) (hsubject : subject ∈ input.subjects) :
    ((sourcesOf tomlLoads input subject).map ManifestDependencySource.path).Perm input.dependencyPolicy.declared ∧
      input.dependencyPolicy.declared.Nodup ∧ ∀ source ∈ sourcesOf tomlLoads input subject, SourceRead source := by
  obtain ⟨result, hresult, hclean⟩ := h.clean subject hsubject
  have hsources : sourcesOf tomlLoads input subject = result.sources := by
    unfold sourcesOf
    rw [hresult]
  rw [hsources]
  exact Lock.dependencyClosures_clean hresult hclean

theorem labelled_iff (h : WellFormed tomlLoads input) (hsubject : subject ∈ input.subjects) :
    Labelled input ↔ ∀ source ∈ sourcesOf tomlLoads input subject, (closureCompleteness source.graph).isSome = true := by
  obtain ⟨hpaths, -, hread⟩ := sourcesOf_read h hsubject
  constructor
  · intro hlabelled source hsource
    rcases closureCompleteness_read (hread source hsource) with ⟨-, hgo⟩ | ⟨completeness, hsome, -, -⟩
    · exact absurd hgo (hlabelled _ (hpaths.mem_iff.mp (mem_map.mpr ⟨source, hsource, rfl⟩)))
    · rw [hsome]
      rfl
  · intro hall path hpath
    obtain ⟨source, hsource, rfl⟩ := mem_map.mp (hpaths.mem_iff.mpr hpath)
    rcases closureCompleteness_read (hread source hsource) with ⟨hnone, -⟩ | ⟨completeness, -, hgo, -⟩
    · have hsome := hall source hsource
      rw [hnone] at hsome
      cases hsome
    · exact hgo

end

section

variable (tomlLoads : Text → Option (List (Text × Toml))) (input : CompositionInput) (subject : CompositionCandidateRef)

def completenessOf (source : ManifestDependencySource) : ClosureCompleteness :=
  (closureCompleteness source.graph).getD .unknown

def evidenceIn (source : ManifestDependencySource) : List CandidateDependencyEvidence :=
  source.deps.map (evidenceOf subject source (completenessOf source))

def unknownIn (source : ManifestDependencySource) : List UnknownSource :=
  if completenessOf source = .complete then [] else [⟨source.ecosystem, source.path, source.sourceDigest⟩]

/-- The closure of a subject whose labels are understood. -/
def closureOf : Closure where
  subject := subject
  evidence := ((sourcesOf tomlLoads input subject).flatMap (evidenceIn subject)).insertionSort fun a b =>
    dependencyKey a ≤ dependencyKey b
  unknown := KeyedList.sortBy UnknownSource.key ((sourcesOf tomlLoads input subject).flatMap unknownIn)

variable {tomlLoads : Text → Option (List (Text × Toml))} {input : CompositionInput} {subject : CompositionCandidateRef}

theorem perm_evidence : (closureOf tomlLoads input subject).evidence.Perm
    ((sourcesOf tomlLoads input subject).flatMap (evidenceIn subject)) := perm_insertionSort _ _

theorem mem_evidence {item : CandidateDependencyEvidence} : item ∈ (closureOf tomlLoads input subject).evidence ↔
    ∃ source ∈ sourcesOf tomlLoads input subject, ∃ edge ∈ source.deps,
      item = evidenceOf subject source (completenessOf source) edge := by
  rw [perm_evidence.mem_iff, mem_flatMap]
  constructor
  · rintro ⟨source, hsource, hitem⟩
    obtain ⟨edge, hedge, rfl⟩ := mem_map.mp hitem
    exact ⟨source, hsource, edge, hedge, rfl⟩
  · rintro ⟨source, hsource, edge, hedge, rfl⟩
    exact ⟨source, hsource, mem_map.mpr ⟨edge, hedge, rfl⟩⟩

theorem mem_unknown {item : UnknownSource} : item ∈ (closureOf tomlLoads input subject).unknown ↔
    ∃ source ∈ sourcesOf tomlLoads input subject, completenessOf source ≠ .complete ∧
      item = ⟨source.ecosystem, source.path, source.sourceDigest⟩ := by
  change item ∈ KeyedList.sortBy _ _ ↔ _
  rw [KeyedList.mem_sortBy, mem_flatMap]
  constructor
  · rintro ⟨source, hsource, hitem⟩
    unfold unknownIn at hitem
    split at hitem
    next => exact absurd hitem not_mem_nil
    next hnot => exact ⟨source, hsource, hnot, mem_singleton.mp hitem⟩
  · rintro ⟨source, hsource, hnot, rfl⟩
    refine ⟨source, hsource, ?_⟩
    unfold unknownIn
    rw [if_neg hnot]
    exact mem_singleton_self _

theorem ordered_texts (as bs : List Text) : ordered (as.map Part.text) (bs.map Part.text) = true := by
  refine TupleOrder.comparable_of_forall ?_
  intro a ha b hb
  obtain ⟨x, -, rfl⟩ := mem_map.mp ha
  obtain ⟨y, -, rfl⟩ := mem_map.mp hb
  rfl

theorem ordered_textPart (x y : Text) : ordered (textPart x) (textPart y) = true := ordered_texts [x] [y]

def dependencyTexts (item : CandidateDependencyEvidence) : List Text :=
  [item.ecosystem, item.name, item.version, item.resolvedSha.getD [], item.completeness.value, item.sourcePath,
    item.sourceDigest]

theorem dependencyKey_eq (item : CandidateDependencyEvidence) :
    dependencyKey item = item.subject.candidateKey :: (dependencyTexts item).map textPart := rfl

theorem orderedAll_texts (xs ys : List Text) : orderedAll (xs.map textPart) (ys.map textPart) = true := by
  refine TupleOrder.comparable_of_forall ?_
  intro a ha b hb
  obtain ⟨x, -, rfl⟩ := mem_map.mp ha
  obtain ⟨y, -, rfl⟩ := mem_map.mp hb
  exact ordered_textPart x y

theorem orderedAll_dependencyKey (a b : CandidateDependencyEvidence) :
    orderedAll (dependencyKey a) (dependencyKey b) = ordered a.subject.candidateKey b.subject.candidateKey := by
  rw [dependencyKey_eq, dependencyKey_eq]
  change (if _ then orderedAll _ _ else _) = _
  by_cases heq : a.subject.candidateKey = b.subject.candidateKey
  · rw [if_pos heq, heq, TupleOrder.ordered_self, orderedAll_texts]
  · rw [if_neg heq]

theorem sorted_ok {α κ : Type} [LinearOrder κ] {r : κ → κ → Bool} {key : α → κ} {items : List α}
    (h : ∀ a ∈ items, ∀ b ∈ items, r (key a) (key b) = true) :
    sorted r key items = .ok (items.insertionSort fun a b => key a ≤ key b) := by
  unfold sorted TupleOrder.sorted
  rw [if_pos (pairwise_of_forall_mem_list h)]

theorem mapM_sourceClosure {sources : List ManifestDependencySource}
    (h : ∀ source ∈ sources, (closureCompleteness source.graph).isSome = true) :
    sources.mapM (sourceClosure subject) = .ok (sources.map fun source => (evidenceIn subject source, unknownIn source)) := by
  refine mapM_ok_map ?_
  intro source hsource
  obtain ⟨completeness, hsome⟩ := Option.isSome_iff_exists.mp (h source hsource)
  have hcompleteness : completenessOf source = completeness := by
    unfold completenessOf
    rw [hsome, Option.getD_some]
  unfold sourceClosure evidenceIn unknownIn
  rw [hsome, hcompleteness]

/-- The closure of every subject is found where all labels are understood. -/
theorem closureEvidence_eq (h : WellFormed tomlLoads input) (hlabelled : Labelled input) (hsubject : subject ∈ input.subjects) :
    closureEvidence tomlLoads input.dependencyPolicy subject (input.manifestsOf subject) =
      .ok (closureOf tomlLoads input subject) := by
  obtain ⟨result, hresult, hclean⟩ := h.clean subject hsubject
  have hsources : sourcesOf tomlLoads input subject = result.sources := by
    unfold sourcesOf
    rw [hresult]
  have hlabels := (labelled_iff h hsubject).mp hlabelled
  have hnonempty : sourcesOf tomlLoads input subject ≠ [] := by
    intro hnil
    have hpaths := (sourcesOf_read h hsubject).1
    rw [hnil] at hpaths
    exact h.declared hpaths.nil_eq.symm
  rw [hsources] at hlabels hnonempty
  have hall : ∀ a ∈ result.sources.flatMap (evidenceIn subject), ∀ b ∈ result.sources.flatMap (evidenceIn subject),
      orderedAll (dependencyKey a) (dependencyKey b) = true := by
    have hown : ∀ item ∈ result.sources.flatMap (evidenceIn subject), item.subject = subject := by
      intro item hitem
      obtain ⟨source, -, hitem⟩ := mem_flatMap.mp hitem
      obtain ⟨edge, -, rfl⟩ := mem_map.mp hitem
      rfl
    intro a ha b hb
    rw [orderedAll_dependencyKey, hown a ha, hown b hb, TupleOrder.ordered_self]
  unfold closureEvidence
  rw [hresult]
  simp only [hclean, ne_eq, not_true_eq_false, if_false]
  rw [bind_eq (mapM_sourceClosure hlabels), if_neg hnonempty, flatMap_map, flatMap_map, bind_eq (sorted_ok hall)]
  unfold closureOf
  rw [hsources]
  rfl

theorem closureEvidence_error (h : WellFormed tomlLoads input) (hlabelled : ¬ Labelled input)
    (hsubject : subject ∈ input.subjects) {closure : Closure} :
    closureEvidence tomlLoads input.dependencyPolicy subject (input.manifestsOf subject) ≠ .ok closure := by
  intro hok
  obtain ⟨result, hresult, hclean⟩ := h.clean subject hsubject
  have hsources : sourcesOf tomlLoads input subject = result.sources := by
    unfold sourcesOf
    rw [hresult]
  refine hlabelled ((labelled_iff h hsubject).mpr ?_)
  rw [hsources]
  intro source hsource
  unfold closureEvidence at hok
  rw [hresult] at hok
  simp only [hclean, ne_eq, not_true_eq_false, if_false] at hok
  obtain ⟨found, hfound, -⟩ := bind_ok hok
  obtain ⟨item, -, hitem⟩ := (mapM_ok_mem hfound).1 source hsource
  unfold sourceClosure at hitem
  split at hitem
  next => cases hitem
  next hsome =>
    rw [hsome]
    rfl

end

end Leitir.Composition
