import Leitir.CompositionSort

namespace Leitir.Composition

open ExceptRun List TupleOrder
open Json (Text)
open License (Toml isDigest)
open Lock (SourceRead)
open TupleOrder (Part Tuple ordered orderedAll)

variable {tomlLoads : Text → Option (List (Text × Toml))} {input : CompositionInput}

theorem perm_matrix_dependencies : (matrixOf tomlLoads input).dependencies.Perm (dependenciesOf tomlLoads input) :=
  perm_insertionSort _ _

theorem perm_matrix_conflicts : (matrixOf tomlLoads input).conflicts.Perm (conflictsOf tomlLoads input) :=
  perm_insertionSort _ _

theorem filter_flatMap_of_nodup {α β : Type} [DecidableEq α] {items : List α} {f : α → List β} {g : β → α} {a : α}
    (howner : ∀ item ∈ items, ∀ b ∈ f item, g b = item) (hnodup : items.Nodup) (ha : a ∈ items) :
    (items.flatMap f).filter (fun b => g b = a) = f a := by
  induction items with
  | nil => cases ha
  | cons item rest ih =>
    rw [nodup_cons] at hnodup
    rw [forall_mem_cons] at howner
    rw [flatMap_cons, filter_append]
    rcases mem_cons.mp ha with rfl | ha
    · have hown : (f a).filter (fun b => g b = a) = f a := by
        rw [filter_eq_self]
        exact fun b hb => decide_eq_true (howner.1 b hb)
      have hothers : (rest.flatMap f).filter (fun b => g b = a) = [] := by
        rw [filter_eq_nil_iff]
        intro b hb heq
        obtain ⟨other, hother, hb⟩ := mem_flatMap.mp hb
        have hsame : other = a := (howner.2 other hother b hb).symm.trans (of_decide_eq_true heq)
        exact hnodup.1 (hsame ▸ hother)
      rw [hown, hothers, append_nil]
    · have hnone : (f item).filter (fun b => g b = a) = [] := by
        rw [filter_eq_nil_iff]
        intro b hb heq
        have hsame : item = a := (howner.1 b hb).symm.trans (of_decide_eq_true heq)
        exact hnodup.1 (hsame ▸ ha)
      rw [hnone, nil_append]
      exact ih howner.2 hnodup.2 ha

theorem perm_itemsOf (h : WellFormed tomlLoads input) {subject : CompositionCandidateRef} (hsubject : subject ∈ input.subjects) :
    (itemsOf (matrixOf tomlLoads input) subject).Perm (closureOf tomlLoads input subject).evidence := by
  have hfilter := (@perm_matrix_dependencies tomlLoads input).filter fun item => item.subject = subject
  have howner : ∀ item ∈ rankedSubjects input, ∀ record ∈ (closureOf tomlLoads input item).evidence, record.subject = item :=
    fun item _ record hrecord => subject_of_evidence hrecord
  unfold dependenciesOf at hfilter
  rw [filter_flatMap_of_nodup howner (nodup_rankedSubjects h) (mem_rankedSubjects.mpr hsubject)] at hfilter
  exact hfilter

theorem nodup_evidence (h : WellFormed tomlLoads input) {subject : CompositionCandidateRef} (hsubject : subject ∈ input.subjects) :
    ((closureOf tomlLoads input subject).evidence.map dependencyKey).Nodup := by
  obtain ⟨hpaths, hdeclared, hread⟩ := sourcesOf_read h hsubject
  have hpathsNodup := hpaths.nodup_iff.mpr hdeclared
  rw [(perm_evidence.map dependencyKey).nodup_iff, map_flatMap, nodup_flatMap]
  constructor
  · intro source hsource
    have hsound := hread source hsource
    unfold evidenceIn
    rw [map_map]
    refine List.Nodup.map_on ?_ (List.Nodup.of_map _ hsound.nodup)
    intro x hx y hy heq
    simp only [Function.comp_apply, dependencyKey, textPart, evidenceOf, List.cons.injEq, Part.text.injEq, true_and,
      and_true] at heq
    obtain ⟨hname, hversion, -⟩ := heq
    refine inj_on_of_nodup_map hsound.nodup hx hy ?_
    unfold Lock.DependencyEdge.key
    rw [(hsound.edges x hx).spec, (hsound.edges y hy).spec, hname, hversion]
  · have hpairwise := pairwise_map.mp hpathsNodup
    refine hpairwise.imp ?_
    intro a b hne key ha hb
    obtain ⟨x, hx, rfl⟩ := mem_map.mp ha
    obtain ⟨y, hy, heq⟩ := mem_map.mp hb
    obtain ⟨edge, -, rfl⟩ := mem_map.mp hx
    obtain ⟨edge', -, rfl⟩ := mem_map.mp hy
    simp only [dependencyKey, textPart, evidenceOf, List.cons.injEq, Part.text.injEq, and_true, true_and] at heq
    exact hne heq.2.2.2.2.2.1.symm

theorem nodup_dependencies (h : WellFormed tomlLoads input) :
    ((matrixOf tomlLoads input).dependencies.map dependencyKey).Nodup := by
  rw [(perm_matrix_dependencies.map dependencyKey).nodup_iff]
  unfold dependenciesOf
  rw [map_flatMap, nodup_flatMap]
  constructor
  · exact fun subject hsubject => nodup_evidence h (mem_rankedSubjects.mp hsubject)
  · have hpairwise := pairwise_map.mp (nodup_rankedKeys h)
    refine hpairwise.imp ?_
    intro a b hne key ha hb
    obtain ⟨x, hx, rfl⟩ := mem_map.mp ha
    obtain ⟨y, hy, heq⟩ := mem_map.mp hb
    have hkey := (List.cons.inj heq).1
    rw [subject_of_evidence hx, subject_of_evidence hy] at hkey
    exact hne hkey.symm

theorem ne_nil_of_validPath {path : Text} (h : Lock.validManifestPath path = true) : path ≠ [] := by
  intro heq
  subst heq
  cases h

theorem ne_nil_of_metadata {source : Lock.ManifestDependencySource} (h : SourceRead source) : source.ecosystem ≠ [] := by
  obtain ⟨before, after, hnames, -⟩ := List.lookup_eq_some_iff.mp h.metadata
  have hmem : (Lock.pathName source.path, source.toSourceMetadata) ∈ Lock.manifestSourceNames := by
    rw [hnames]
    exact mem_append_right _ mem_cons_self
  have hall : ∀ entry ∈ Lock.manifestSourceNames, entry.2.ecosystem ≠ [] := by decide
  exact hall _ hmem

theorem checkDependency_ok (h : WellFormed tomlLoads input) {item : CandidateDependencyEvidence}
    (hitem : item ∈ (matrixOf tomlLoads input).dependencies) : checkDependency (matrixOf tomlLoads input) item = .ok () := by
  obtain ⟨subject, hsubject, hitem⟩ := mem_dependenciesOf.mp (perm_matrix_dependencies.mem_iff.mp hitem)
  have hown := subject_of_evidence hitem
  obtain ⟨source, hsource, edge, hedge, heq⟩ := mem_evidence.mp hitem
  have hsound := (sourcesOf_read h hsubject).2.2 source hsource
  have hedge' := hsound.edges edge hedge
  have hmember : ¬ (item.subject ≠ (matrixOf tomlLoads input).recipient ∧
      item.subject ∉ (matrixOf tomlLoads input).candidates) := by
    rw [hown]
    rintro ⟨hrecipient, hcandidate⟩
    rcases mem_cons.mp (mem_rankedSubjects.mpr hsubject) with hsame | hmem
    · exact hrecipient hsame
    · exact hcandidate hmem
  have hfields : ¬ (item.ecosystem = [] ∨ item.name = [] ∨ item.version = [] ∨ item.sourcePath = [] ∨
      ¬ isDigest item.sourceDigest = true) := by
    simp only [not_or, not_not, heq]
    exact ⟨ne_nil_of_metadata hsound, hedge'.name, hedge'.version, ne_nil_of_validPath hsound.valid, hsound.digest⟩
  have hvalid : validateRef item.subject = .ok () := by
    rw [hown]
    exact h.refs subject hsubject
  unfold checkDependency
  rw [bind_eq hvalid, if_neg hmember, if_neg hfields]

theorem clashKeys_itemsOf (h : WellFormed tomlLoads input) {pair : CompositionCandidateRef × CompositionCandidateRef}
    (hpair : pair ∈ pairs input) :
    clashKeys pair.1.candidateKey pair.2.candidateKey (itemsOf (matrixOf tomlLoads input) pair.1)
      (itemsOf (matrixOf tomlLoads input) pair.2) = clashNames tomlLoads input pair := by
  unfold clashNames clashKeys
  rw [sharedVersions_congr (perm_itemsOf h (left_mem_subjects hpair)) (perm_itemsOf h (right_mem_subjects hpair))]

theorem mem_expectedClashes (h : WellFormed tomlLoads input) {clash : Tuple × Tuple × Tuple} :
    clash ∈ expectedClashes (matrixOf tomlLoads input) ↔ ∃ pair ∈ pairs input, ∃ key ∈ clashNames tomlLoads input pair,
      clash = (pair.1.candidateKey, pair.2.candidateKey, key) := by
  change clash ∈ (pairs input).flatMap _ ↔ _
  rw [mem_flatMap]
  constructor
  · rintro ⟨pair, hpair, hclash⟩
    rw [clashKeys_itemsOf h hpair] at hclash
    obtain ⟨key, hkey, rfl⟩ := mem_map.mp hclash
    exact ⟨pair, hpair, key, hkey, rfl⟩
  · rintro ⟨pair, hpair, key, hkey, rfl⟩
    refine ⟨pair, hpair, ?_⟩
    rw [clashKeys_itemsOf h hpair]
    exact mem_map.mpr ⟨key, hkey, rfl⟩

theorem mem_matrix_conflicts {item : ConflictRecord} : item ∈ (matrixOf tomlLoads input).conflicts ↔
    ∃ pair ∈ pairs input, item ∈ cells tomlLoads input pair := by
  rw [perm_matrix_conflicts.mem_iff, mem_conflictsOf]

theorem mem_actualClashes {clash : Tuple × Tuple × Tuple} :
    clash ∈ actualClashes (matrixOf tomlLoads input) ↔ ∃ pair ∈ pairs input, ∃ key ∈ clashNames tomlLoads input pair,
      clash = (pair.1.candidateKey, pair.2.candidateKey, key) := by
  unfold actualClashes
  rw [mem_map]
  constructor
  · rintro ⟨item, hitem, rfl⟩
    obtain ⟨hitem, hkind⟩ := mem_filter.mp hitem
    obtain ⟨pair, hpair, hcell⟩ := mem_matrix_conflicts.mp hitem
    rcases mem_cells.mp hcell with ⟨key, hkey, rfl⟩ | ⟨key, hkey, rfl⟩
    · exact ⟨pair, hpair, key, hkey, rfl⟩
    · simp [openRecord] at hkind
  · rintro ⟨pair, hpair, key, hkey, rfl⟩
    refine ⟨clashRecord pair.1 pair.2 key, mem_filter.mpr ⟨?_, ?_⟩, rfl⟩
    · exact mem_matrix_conflicts.mpr ⟨pair, hpair, mem_cells.mpr (.inl ⟨key, hkey, rfl⟩)⟩
    · simp [clashRecord]

theorem sorted_ranked {α κ : Type} [LinearOrder κ] {r : κ → κ → Bool} {key : α → κ} {items : List α}
    (hself : ∀ a, r a a = true) (hsymm : ∀ a b, r a b = r b a)
    (h : ∀ a ∈ items, ∀ b ∈ items, r (key a) (key b) = true) :
    sorted r key (items.insertionSort fun a b => key a ≤ key b) = .ok (items.insertionSort fun a b => key a ≤ key b) := by
  have hsorted : TupleOrder.sorted r key items = some (items.insertionSort fun a b => key a ≤ key b) := by
    unfold TupleOrder.sorted
    rw [if_pos (pairwise_of_forall_mem_list h)]
  unfold sorted
  rw [sorted_again hself hsymm hsorted]

def NamesDistinct (tomlLoads : Text → Option (List (Text × Toml))) (input : CompositionInput) : Prop :=
  ∀ pair ∈ pairs input, ∀ other ∈ pairs input, ∀ key,
    key ∈ clashNames tomlLoads input pair ++ openNames tomlLoads input pair →
    key ∈ clashNames tomlLoads input other ++ openNames tomlLoads input other → pair = other

theorem checkRecords_eq (h : WellFormed tomlLoads input) (hkeys : KeysOrdered tomlLoads input) :
    checkRecords (matrixOf tomlLoads input) =
      if ¬ ((matrixOf tomlLoads input).conflicts.map (·.evidenceKey)).Nodup then
        .error (.hardGate "composition conflict evidence keys are duplicated")
      else .ok () := by
  have hrecipient : validateRef (matrixOf tomlLoads input).recipient = .ok () := h.refs _ mem_cons_self
  have hcandidates : sorted ordered (·.candidateKey) (matrixOf tomlLoads input).candidates =
      .ok (matrixOf tomlLoads input).candidates :=
    sorted_ranked ordered_self ordered_symm hkeys.candidates
  have hdependencies : sorted orderedAll dependencyKey (matrixOf tomlLoads input).dependencies =
      .ok (matrixOf tomlLoads input).dependencies :=
    sorted_ranked orderedAll_self orderedAll_symm (dependencies_ordered_iff.mpr hkeys.dependencies)
  have hconflicts : sorted orderedAll conflictKey (matrixOf tomlLoads input).conflicts =
      .ok (matrixOf tomlLoads input).conflicts :=
    sorted_ranked orderedAll_self orderedAll_symm
      ((conflicts_ordered_iff h hkeys.candidates).mpr hkeys.conflicts)
  have hnodup := nodup_rankedKeys h
  rw [rankedSubjects, map_cons, nodup_cons] at hnodup
  have hdistinct : ((matrixOf tomlLoads input).candidates.map (·.candidateKey)).Nodup := hnodup.2
  have hapart : (matrixOf tomlLoads input).recipient.candidateKey ∉
      (matrixOf tomlLoads input).candidates.map (·.candidateKey) := hnodup.1
  have hforM : (matrixOf tomlLoads input).dependencies.forM (checkDependency (matrixOf tomlLoads input)) = .ok () :=
    forM_ok fun item hitem => checkDependency_ok h hitem
  unfold checkRecords
  rw [bind_eq hrecipient, bind_eq hcandidates, if_neg, bind_eq hdependencies, if_neg (not_not_intro rfl), if_neg hapart,
    bind_eq hconflicts, if_neg (not_not_intro rfl), if_neg (not_not_intro (nodup_dependencies h)), hforM]
  · rw [not_or, not_not, not_not]
    exact ⟨rfl, hdistinct⟩

theorem isDigest_matrix : isDigest (matrixOf tomlLoads input).matrixDigest = true := License.isDigest_sha _

/-- A matrix that was just built is decided, unless two of its conflicts have the same name. -/
theorem evaluateEligibility_eq (h : WellFormed tomlLoads input) (hkeys : KeysOrdered tomlLoads input) :
    evaluateEligibility (matrixOf tomlLoads input) =
      if ¬ ((matrixOf tomlLoads input).conflicts.map (·.evidenceKey)).Nodup then
        .error (.hardGate "composition conflict evidence keys are duplicated")
      else decideMatrix (matrixOf tomlLoads input) := by
  have hsigned : ¬ ((matrixOf tomlLoads input).schemaVersion ≠ matrixSchema ∨
      ¬ isDigest (matrixOf tomlLoads input).matrixDigest = true ∨
      (matrixOf tomlLoads input).matrixDigest ≠ digest (matrixValue (matrixOf tomlLoads input))) := by
    simp only [not_or, not_not]
    exact ⟨rfl, isDigest_matrix, rfl⟩
  have hclashes : (∀ clash ∈ actualClashes (matrixOf tomlLoads input), clash ∈ expectedClashes (matrixOf tomlLoads input)) ∧
      ∀ clash ∈ expectedClashes (matrixOf tomlLoads input), clash ∈ actualClashes (matrixOf tomlLoads input) := by
    constructor
    · exact fun clash hclash => (mem_expectedClashes h).mpr (mem_actualClashes.mp hclash)
    · exact fun clash hclash => mem_actualClashes.mpr ((mem_expectedClashes h).mp hclash)
  unfold evaluateEligibility
  rw [if_neg hsigned, checkRecords_eq h hkeys, if_pos hclashes]
  split
  next => rfl
  next => rfl

variable {pair : CompositionCandidateRef × CompositionCandidateRef}

theorem texts_injective : Function.Injective (List.map Part.text) :=
  map_injective_iff.mpr fun _ _ h => Part.text.inj h

theorem nodup_clashNames : (clashNames tomlLoads input pair).Nodup := by
  have hshared := @nodup_shared (closureOf tomlLoads input pair.1).evidence (closureOf tomlLoads input pair.2).evidence
  refine List.Nodup.map_on ?_ ((List.Nodup.of_map _ hshared).filter _)
  intro x hx y hy heq
  have htail : (x.1.1 :: x.1.2 :: x.2).map Part.text = (y.1.1 :: y.1.2 :: y.2).map Part.text := by
    simpa [clashKey] using heq
  have htexts := texts_injective htail
  simp only [List.cons.injEq] at htexts
  exact inj_on_of_nodup_map hshared (mem_filter.mp hx).1 (mem_filter.mp hy).1
    (Prod.ext htexts.1 htexts.2.1)

theorem nodup_unknown (h : WellFormed tomlLoads input) {subject : CompositionCandidateRef} (hsubject : subject ∈ input.subjects) :
    (closureOf tomlLoads input subject).unknown.Nodup := by
  obtain ⟨hpaths, hdeclared, -⟩ := sourcesOf_read h hsubject
  have hpathsNodup := hpaths.nodup_iff.mpr hdeclared
  refine (KeyedList.perm_sortBy _ _).nodup_iff.mpr (nodup_flatMap.mpr ⟨?_, ?_⟩)
  · intro source _
    unfold unknownIn
    split
    next => exact nodup_nil
    next => exact nodup_singleton _
  · refine (pairwise_map.mp hpathsNodup).imp ?_
    intro a b hne item ha hb
    have hpath : ∀ source : Lock.ManifestDependencySource, item ∈ unknownIn source → item.path = source.path := by
      intro source hitem
      unfold unknownIn at hitem
      split at hitem
      next => cases hitem
      next =>
        rw [mem_singleton] at hitem
        rw [hitem]
    exact hne ((hpath a ha).symm.trans (hpath b hb))

theorem openTail_injective {side : String} {target : CompositionCandidateRef} {x y : UnknownSource}
    (h : openTail side target x = openTail side target y) : x = y := by
  have htail : [x.ecosystem, x.path, x.sourceDigest].map Part.text = [y.ecosystem, y.path, y.sourceDigest].map Part.text := by
    simpa [openTail] using h
  have htexts := texts_injective htail
  simp only [List.cons.injEq, and_true] at htexts
  obtain ⟨hecosystem, hpath, hdigest⟩ := htexts
  cases x
  cases y
  cases hecosystem
  cases hpath
  cases hdigest
  rfl

theorem unknownKey_eq (pair : CompositionCandidateRef × CompositionCandidateRef) (side : String)
    (target : CompositionCandidateRef) (item : UnknownSource) :
    unknownKey pair.1 pair.2 side target item = nameLead "closure" pair ++ openTail side target item := by
  simp [unknownKey, nameLead, openTail]

theorem nodup_openNames (h : WellFormed tomlLoads input) (hpair : pair ∈ pairs input) :
    (openNames tomlLoads input pair).Nodup := by
  have hinjective : ∀ (side : String) (target : CompositionCandidateRef),
      Function.Injective (unknownKey pair.1 pair.2 side target) := by
    intro side target x y heq
    rw [unknownKey_eq, unknownKey_eq] at heq
    exact openTail_injective (append_cancel_left heq)
  refine List.nodup_append.mpr ⟨(nodup_unknown h (left_mem_subjects hpair)).map (hinjective _ _),
    (nodup_unknown h (right_mem_subjects hpair)).map (hinjective _ _), ?_⟩
  intro a ha b hb heq
  obtain ⟨x, -, rfl⟩ := mem_map.mp ha
  obtain ⟨y, -, rfl⟩ := mem_map.mp hb
  rw [unknownKey_eq, unknownKey_eq] at heq
  have hsides : Part.text "left".toList = Part.text "right".toList := (List.cons.inj (append_cancel_left heq)).1
  have hne : "left".toList ≠ "right".toList := by decide
  exact hne (Part.text.inj hsides)

theorem names_of_pair (h : WellFormed tomlLoads input) (hpair : pair ∈ pairs input) :
    (clashNames tomlLoads input pair ++ openNames tomlLoads input pair).Nodup := by
  refine List.nodup_append.mpr ⟨nodup_clashNames, nodup_openNames h hpair, ?_⟩
  intro a ha b hb heq
  obtain ⟨shared, -, -, rfl⟩ := clashName_eq ha
  obtain ⟨side, target, item, -, rfl⟩ := openName_iff.mp hb
  have hheads : Part.text "dependency".toList = Part.text "closure".toList := (List.cons.inj heq).1
  have hne : "dependency".toList ≠ "closure".toList := by decide
  exact hne (Part.text.inj hheads)

theorem cells_names : (cells tomlLoads input pair).map (·.evidenceKey) =
    clashNames tomlLoads input pair ++ openNames tomlLoads input pair := by
  unfold cells
  rw [map_append, map_map, map_map]
  exact congrArg₂ _ (map_id _) (map_id _)

theorem nodup_names_iff (h : WellFormed tomlLoads input) :
    ((matrixOf tomlLoads input).conflicts.map (·.evidenceKey)).Nodup ↔ NamesDistinct tomlLoads input := by
  rw [(perm_matrix_conflicts.map _).nodup_iff]
  unfold conflictsOf
  rw [map_flatMap, nodup_flatMap]
  simp only [cells_names]
  constructor
  · rintro ⟨-, hdisjoint⟩ pair hpair other hother key hkey hkey'
    have : Std.Symm fun a b => List.Disjoint (clashNames tomlLoads input a ++ openNames tomlLoads input a)
        (clashNames tomlLoads input b ++ openNames tomlLoads input b) := ⟨fun a b hab => hab.symm⟩
    by_contra hne
    exact (hdisjoint.forall hpair hother hne) hkey hkey'
  · intro hdistinct
    refine ⟨fun pair hpair => names_of_pair h hpair, ?_⟩
    refine (pairwise_iff_getElem.mpr ?_)
    intro i j hi hj hlt key hkey hkey'
    have heq := hdistinct _ (getElem_mem hi) _ (getElem_mem hj) key hkey hkey'
    exact absurd ((List.Nodup.getElem_inj_iff (nodup_pairs h)).mp heq) (by omega)

end Leitir.Composition
