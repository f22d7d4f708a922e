import Leitir.CompositionMatrix

namespace Leitir.Composition

open List TupleOrder

open Json (Text)
open License (Toml isDigest)
open TupleOrder (Part Tuple ordered orderedAll)
open ExceptRun

section

variable {tomlLoads : Text → Option (List (Text × Toml))} {input : CompositionInput}
  {pair other : CompositionCandidateRef × CompositionCandidateRef}

def nameLead (kind : String) (pair : CompositionCandidateRef × CompositionCandidateRef) : Tuple :=
  .text kind.toList :: (pair.1.candidateKey ++ pair.2.candidateKey)

theorem clashName_eq {key : Tuple} (h : key ∈ clashNames tomlLoads input pair) :
    ∃ shared ∈ sharedVersions (closureOf tomlLoads input pair.1).evidence (closureOf tomlLoads input pair.2).evidence,
      1 < shared.2.length ∧ key = nameLead "dependency" pair ++ (shared.1.1 :: shared.1.2 :: shared.2).map Part.text := by
  obtain ⟨shared, hshared, rfl⟩ := mem_map.mp h
  obtain ⟨hshared, hlength⟩ := mem_filter.mp hshared
  refine ⟨shared, hshared, of_decide_eq_true hlength, ?_⟩
  simp [clashKey, nameLead]

/-- A source in a pair: whose it is, and which. -/
def OpenSource (tomlLoads : Text → Option (List (Text × Toml))) (input : CompositionInput)
    (pair : CompositionCandidateRef × CompositionCandidateRef) (side : String) (target : CompositionCandidateRef)
    (item : UnknownSource) : Prop :=
  item ∈ (closureOf tomlLoads input target).unknown ∧
    (side = "left" ∧ target = pair.1 ∨ side = "right" ∧ target = pair.2)

def openTail (side : String) (target : CompositionCandidateRef) (item : UnknownSource) : Tuple :=
  .text side.toList :: (target.candidateKey ++ [item.ecosystem, item.path, item.sourceDigest].map Part.text)

theorem openName_iff {key : Tuple} : key ∈ openNames tomlLoads input pair ↔
    ∃ side target item, OpenSource tomlLoads input pair side target item ∧
      key = nameLead "closure" pair ++ openTail side target item := by
  have hkey : ∀ side target item, unknownKey pair.1 pair.2 side target item =
      nameLead "closure" pair ++ openTail side target item := by
    intro side target item
    simp [unknownKey, nameLead, openTail]
  unfold openNames
  rw [mem_append, mem_map, mem_map]
  constructor
  · rintro (⟨item, hitem, rfl⟩ | ⟨item, hitem, rfl⟩)
    · exact ⟨"left", pair.1, item, ⟨hitem, .inl ⟨rfl, rfl⟩⟩, hkey _ _ _⟩
    · exact ⟨"right", pair.2, item, ⟨hitem, .inr ⟨rfl, rfl⟩⟩, hkey _ _ _⟩
  · rintro ⟨side, target, item, ⟨hitem, ⟨rfl, rfl⟩ | ⟨rfl, rfl⟩⟩, rfl⟩
    · exact .inl ⟨item, hitem, hkey _ _ _⟩
    · exact .inr ⟨item, hitem, hkey _ _ _⟩

theorem ordered_clashNames {a b : Tuple} (ha : a ∈ clashNames tomlLoads input pair) (hb : b ∈ clashNames tomlLoads input pair) :
    ordered a b = true := by
  obtain ⟨x, -, -, rfl⟩ := clashName_eq ha
  obtain ⟨y, -, -, rfl⟩ := clashName_eq hb
  exact (comparable_append _ _ _).trans (ordered_texts _ _)

theorem ordered_openNames {a b : Tuple} (ha : a ∈ openNames tomlLoads input pair) (hb : b ∈ openNames tomlLoads input pair) :
    ordered a b = true := by
  obtain ⟨side, target, x, ⟨-, hx⟩, rfl⟩ := openName_iff.mp ha
  obtain ⟨side', target', y, ⟨-, hy⟩, rfl⟩ := openName_iff.mp hb
  refine (comparable_append _ _ _).trans ?_
  by_cases hside : side = side'
  · subst hside
    have hsides : "left" ≠ "right" := by decide
    have htarget : target = target' := by
      rcases hx with ⟨hleft, rfl⟩ | ⟨hright, rfl⟩
      · rcases hy with ⟨-, rfl⟩ | ⟨hright, rfl⟩
        · rfl
        · exact absurd (hleft.symm.trans hright) hsides
      · rcases hy with ⟨hleft, rfl⟩ | ⟨-, rfl⟩
        · exact absurd (hleft.symm.trans hright) hsides
        · rfl
    subst htarget
    have hlead : ∀ item : UnknownSource, openTail side target item = (.text side.toList :: target.candidateKey) ++
        [item.ecosystem, item.path, item.sourceDigest].map Part.text := fun item => rfl
    rw [hlead, hlead]
    exact (comparable_append _ _ _).trans (ordered_texts _ _)
  · have hne : Part.text side.toList ≠ Part.text side'.toList := by
      intro heq
      exact hside (String.toList_injective (Part.text.inj heq))
    unfold openTail comparable
    rw [if_neg hne]
    rfl

end

section

variable {tomlLoads : Text → Option (List (Text × Toml))} {input : CompositionInput}
  {pair other : CompositionCandidateRef × CompositionCandidateRef} {a b : ConflictRecord}

theorem mem_cells : a ∈ cells tomlLoads input pair ↔
    (∃ key ∈ clashNames tomlLoads input pair, a = clashRecord pair.1 pair.2 key) ∨
      ∃ key ∈ openNames tomlLoads input pair, a = openRecord pair.1 pair.2 key := by
  unfold cells
  rw [mem_append, mem_map, mem_map]
  refine or_congr ?_ ?_
  · exact ⟨fun ⟨key, hkey, heq⟩ => ⟨key, hkey, heq.symm⟩, fun ⟨key, hkey, heq⟩ => ⟨key, hkey, heq.symm⟩⟩
  · exact ⟨fun ⟨key, hkey, heq⟩ => ⟨key, hkey, heq.symm⟩, fun ⟨key, hkey, heq⟩ => ⟨key, hkey, heq.symm⟩⟩

theorem subjects_of_cell (h : a ∈ cells tomlLoads input pair) : a.left = pair.1 ∧ a.right = pair.2 := by
  rcases mem_cells.mp h with ⟨key, -, rfl⟩ | ⟨key, -, rfl⟩
  · exact ⟨rfl, rfl⟩
  · exact ⟨rfl, rfl⟩

def recordKey (item : ConflictRecord) : List Tuple :=
  [textPart item.kind.value, textPart item.status.value, item.evidenceKey, textPart item.evidenceDigest,
    textPart item.detailCode]

theorem orderedAll_cons (x y : Tuple) (xs ys : List Tuple) :
    orderedAll (x :: xs) (y :: ys) = if x = y then orderedAll xs ys else ordered x y := rfl

theorem conflictKey_eq (item : ConflictRecord) :
    conflictKey item = item.left.candidateKey :: item.right.candidateKey :: recordKey item := rfl

/-- The records of one pair can be compared. -/
theorem orderedAll_recordKey (ha : a ∈ cells tomlLoads input pair) (hb : b ∈ cells tomlLoads input pair) :
    orderedAll (recordKey a) (recordKey b) = true := by
  have htexts : ∀ (x y : Text) (xs ys : List Tuple), orderedAll xs ys = true →
      orderedAll (textPart x :: xs) (textPart y :: ys) = true := by
    intro x y xs ys hrest
    rw [orderedAll_cons]
    split
    next => exact hrest
    next => exact ordered_textPart x y
  have hends : ∀ (key key' : Tuple) (rest rest' : List Text), ordered key key' = true →
      orderedAll (key :: rest.map textPart) (key' :: rest'.map textPart) = true := by
    intro key key' rest rest' hkey
    rw [orderedAll_cons]
    split
    next => exact orderedAll_texts rest rest'
    next => exact hkey
  have hkinds : ConflictKind.versionClash.value ≠ ConflictKind.dependencyDeclarationOverlap.value := by decide
  have hother : ∀ (x y : ConflictRecord), x.kind.value ≠ y.kind.value → orderedAll (recordKey x) (recordKey y) = true := by
    intro x y hne
    have hparts : textPart x.kind.value ≠ textPart y.kind.value := by
      intro heq
      exact hne (Part.text.inj (List.cons.inj heq).1)
    unfold recordKey
    rw [orderedAll_cons, if_neg hparts]
    exact ordered_textPart _ _
  rcases mem_cells.mp ha with ⟨key, hkey, rfl⟩ | ⟨key, hkey, rfl⟩
  · rcases mem_cells.mp hb with ⟨key', hkey', rfl⟩ | ⟨key', hkey', rfl⟩
    · exact htexts _ _ _ _ (htexts _ _ _ _ (hends _ _ [_, _] [_, _] (ordered_clashNames hkey hkey')))
    · exact hother _ _ hkinds
  · rcases mem_cells.mp hb with ⟨key', hkey', rfl⟩ | ⟨key', hkey', rfl⟩
    · exact hother _ _ hkinds.symm
    · exact htexts _ _ _ _ (htexts _ _ _ _ (hends _ _ [_, _] [_, _] (ordered_openNames hkey hkey')))

theorem orderedAll_conflictKey (h : WellFormed tomlLoads input) (hpair : pair ∈ pairs input) (hother : other ∈ pairs input)
    (ha : a ∈ cells tomlLoads input pair) (hb : b ∈ cells tomlLoads input other) :
    orderedAll (conflictKey a) (conflictKey b) =
      if pair.1 = other.1 then ordered pair.2.candidateKey other.2.candidateKey
      else ordered pair.1.candidateKey other.1.candidateKey := by
  obtain ⟨hleft, hright⟩ := subjects_of_cell ha
  obtain ⟨hleft', hright'⟩ := subjects_of_cell hb
  rw [conflictKey_eq, conflictKey_eq, orderedAll_cons, orderedAll_cons, hleft, hright, hleft', hright']
  by_cases hfirst : pair.1 = other.1
  · rw [if_pos hfirst, if_pos (congrArg _ hfirst)]
    by_cases hsecond : pair.2 = other.2
    · have hsame : pair = other := Prod.ext hfirst hsecond
      subst hsame
      rw [if_pos rfl, ordered_self]
      exact orderedAll_recordKey ha hb
    · rw [if_neg fun heq => hsecond (eq_of_key h (right_mem_subjects hpair) (right_mem_subjects hother) heq)]
  · rw [if_neg hfirst, if_neg fun heq => hfirst (eq_of_key h (left_mem_subjects hpair) (left_mem_subjects hother) heq)]

end

section

variable (tomlLoads : Text → Option (List (Text × Toml))) (input : CompositionInput)

def HasDependency (subject : CompositionCandidateRef) : Prop := (closureOf tomlLoads input subject).evidence ≠ []

def InConflict (pair : CompositionCandidateRef × CompositionCandidateRef) : Prop :=
  clashNames tomlLoads input pair ≠ [] ∨ openNames tomlLoads input pair ≠ []

/-- The keys of subjects that the sorts of a matrix compare have an order. -/
structure KeysOrdered : Prop where
  candidates : ∀ a ∈ input.candidates, ∀ b ∈ input.candidates, ordered a.candidateKey b.candidateKey = true
  dependencies : ∀ a ∈ input.subjects, ∀ b ∈ input.subjects, HasDependency tomlLoads input a → HasDependency tomlLoads input b →
    ordered a.candidateKey b.candidateKey = true
  conflicts : ∀ pair ∈ pairs input, ∀ other ∈ pairs input, pair.1 = other.1 → InConflict tomlLoads input pair →
    InConflict tomlLoads input other → ordered pair.2.candidateKey other.2.candidateKey = true

variable {tomlLoads : Text → Option (List (Text × Toml))} {input : CompositionInput}

theorem mem_dependenciesOf {item : CandidateDependencyEvidence} : item ∈ dependenciesOf tomlLoads input ↔
    ∃ subject ∈ input.subjects, item ∈ (closureOf tomlLoads input subject).evidence := by
  unfold dependenciesOf
  rw [mem_flatMap]
  simp only [mem_rankedSubjects]

theorem subject_of_evidence {item : CandidateDependencyEvidence} {subject : CompositionCandidateRef}
    (h : item ∈ (closureOf tomlLoads input subject).evidence) : item.subject = subject := by
  obtain ⟨source, -, edge, -, rfl⟩ := mem_evidence.mp h
  rfl

theorem dependencies_ordered_iff : (∀ a ∈ dependenciesOf tomlLoads input, ∀ b ∈ dependenciesOf tomlLoads input,
    orderedAll (dependencyKey a) (dependencyKey b) = true) ↔
      ∀ a ∈ input.subjects, ∀ b ∈ input.subjects, HasDependency tomlLoads input a → HasDependency tomlLoads input b →
        ordered a.candidateKey b.candidateKey = true := by
  constructor
  · intro h a ha b hb hdependency hdependency'
    obtain ⟨x, hx⟩ := exists_mem_of_ne_nil _ hdependency
    obtain ⟨y, hy⟩ := exists_mem_of_ne_nil _ hdependency'
    have hxy := h x (mem_dependenciesOf.mpr ⟨a, ha, hx⟩) y (mem_dependenciesOf.mpr ⟨b, hb, hy⟩)
    rwa [orderedAll_dependencyKey, subject_of_evidence hx, subject_of_evidence hy] at hxy
  · intro h x hx y hy
    obtain ⟨a, ha, hx⟩ := mem_dependenciesOf.mp hx
    obtain ⟨b, hb, hy⟩ := mem_dependenciesOf.mp hy
    rw [orderedAll_dependencyKey, subject_of_evidence hx, subject_of_evidence hy]
    exact h a ha b hb (ne_nil_of_mem hx) (ne_nil_of_mem hy)

theorem cells_ne_nil_iff {pair : CompositionCandidateRef × CompositionCandidateRef} :
    cells tomlLoads input pair ≠ [] ↔ InConflict tomlLoads input pair := by
  unfold cells InConflict
  rw [Ne, append_eq_nil_iff, map_eq_nil_iff, map_eq_nil_iff, not_and_or]

theorem mem_conflictsOf {item : ConflictRecord} : item ∈ conflictsOf tomlLoads input ↔
    ∃ pair ∈ pairs input, item ∈ cells tomlLoads input pair := mem_flatMap

theorem conflicts_ordered_iff (h : WellFormed tomlLoads input)
    (hcandidates : ∀ a ∈ input.candidates, ∀ b ∈ input.candidates, ordered a.candidateKey b.candidateKey = true) :
    (∀ a ∈ conflictsOf tomlLoads input, ∀ b ∈ conflictsOf tomlLoads input,
      orderedAll (conflictKey a) (conflictKey b) = true) ↔
        ∀ pair ∈ pairs input, ∀ other ∈ pairs input, pair.1 = other.1 → InConflict tomlLoads input pair →
          InConflict tomlLoads input other → ordered pair.2.candidateKey other.2.candidateKey = true := by
  constructor
  · intro hall pair hpair other hother hsame hconflict hconflict'
    obtain ⟨x, hx⟩ := exists_mem_of_ne_nil _ (cells_ne_nil_iff.mpr hconflict)
    obtain ⟨y, hy⟩ := exists_mem_of_ne_nil _ (cells_ne_nil_iff.mpr hconflict')
    have hxy := hall x (mem_conflictsOf.mpr ⟨pair, hpair, hx⟩) y (mem_conflictsOf.mpr ⟨other, hother, hy⟩)
    rwa [orderedAll_conflictKey h hpair hother hx hy, if_pos hsame] at hxy
  · intro hall x hx y hy
    obtain ⟨pair, hpair, hx⟩ := mem_conflictsOf.mp hx
    obtain ⟨other, hother, hy⟩ := mem_conflictsOf.mp hy
    rw [orderedAll_conflictKey h hpair hother hx hy]
    split
    next hsame =>
      exact hall pair hpair other hother hsame (cells_ne_nil_iff.mp (ne_nil_of_mem hx))
        (cells_ne_nil_iff.mp (ne_nil_of_mem hy))
    next =>
      exact hcandidates _ (mem_rankedCandidates.mp (subjects_of_pair hpair).1) _
        (mem_rankedCandidates.mp (subjects_of_pair hother).1)

theorem buildMatrix_unfold (h : WellFormed tomlLoads input) :
    buildMatrix input (rankedCandidates input) ((rankedSubjects input).map (closureOf tomlLoads input)) =
      (do
        let dependencies ← sorted orderedAll dependencyKey (dependenciesOf tomlLoads input)
        let conflicts ← sorted orderedAll conflictKey (conflictsOf tomlLoads input)
        let matrix : ConflictMatrix := ⟨matrixSchema, input.recipientSubject, input.recipient, rankedCandidates input,
          dependencies, [], [], conflicts, input.policyDigest, []⟩
        pure { matrix with matrixDigest := digest (matrixValue matrix) }) := by
  have hconflicts : (pairsOf input.recipient (rankedCandidates input)).flatMap
      (pairConflicts ((rankedSubjects input).map (closureOf tomlLoads input))) = conflictsOf tomlLoads input :=
    flatMap_congr fun pair hpair => pairConflicts_ranked h hpair
  unfold buildMatrix
  rw [hconflicts, flatMap_map]
  rfl

theorem buildMatrix_eq (h : WellFormed tomlLoads input) (hkeys : KeysOrdered tomlLoads input) :
    buildMatrix input (rankedCandidates input) ((rankedSubjects input).map (closureOf tomlLoads input)) =
      .ok (matrixOf tomlLoads input) := by
  rw [buildMatrix_unfold h, bind_eq (sorted_ok (dependencies_ordered_iff.mpr hkeys.dependencies)),
    bind_eq (sorted_ok ((conflicts_ordered_iff h hkeys.candidates).mpr hkeys.conflicts))]
  rfl

theorem keysOrdered_of_build (h : WellFormed tomlLoads input)
    (hcandidates : ∀ a ∈ input.candidates, ∀ b ∈ input.candidates, ordered a.candidateKey b.candidateKey = true)
    {matrix : ConflictMatrix}
    (hbuild : buildMatrix input (rankedCandidates input) ((rankedSubjects input).map (closureOf tomlLoads input)) =
      .ok matrix) : KeysOrdered tomlLoads input := by
  rw [buildMatrix_unfold h] at hbuild
  obtain ⟨dependencies, hdependencies, hbuild⟩ := bind_ok hbuild
  obtain ⟨conflicts, hconflicts, -⟩ := bind_ok hbuild
  have hfirst := (sorted_ok_iff orderedAll_self orderedAll_symm).mp ⟨_, hdependencies⟩
  have hsecond := (sorted_ok_iff orderedAll_self orderedAll_symm).mp ⟨_, hconflicts⟩
  exact ⟨hcandidates, dependencies_ordered_iff.mp hfirst, (conflicts_ordered_iff h hcandidates).mp hsecond⟩

end

end Leitir.Composition
