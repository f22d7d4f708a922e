import Mathlib.Data.List.Dedup
import Mathlib.Data.List.Perm.Basic
import Leitir.CompositionClosure

namespace Leitir.Composition

open ExceptRun List KeyedList
open Json (Text)
open License (Toml isDigest)
open Lock (DependencyEdge ManifestDependencySource code code_injective SourceRead sortTexts)
open TupleOrder (Part Tuple ordered orderedAll)

section

variable {α : Type} {items : List α} {a b : α}

theorem mem_of_combinations (h : (a, b) ∈ combinations items) : a ∈ items ∧ b ∈ items := by
  induction items with
  | nil => cases h
  | cons item rest ih =>
    rcases mem_append.mp h with hfirst | hrest
    · obtain ⟨other, hother, heq⟩ := mem_map.mp hfirst
      cases heq
      exact ⟨mem_cons_self, mem_cons_of_mem _ hother⟩
    · obtain ⟨ha, hb⟩ := ih hrest
      exact ⟨mem_cons_of_mem _ ha, mem_cons_of_mem _ hb⟩

theorem combinations_complete (ha : a ∈ items) (hb : b ∈ items) (hne : a ≠ b) :
    (a, b) ∈ combinations items ∨ (b, a) ∈ combinations items := by
  induction items with
  | nil => cases ha
  | cons item rest ih =>
    rcases mem_cons.mp ha with rfl | ha'
    · rcases mem_cons.mp hb with rfl | hb'
      · exact absurd rfl hne
      · exact .inl (mem_append_left _ (mem_map.mpr ⟨b, hb', rfl⟩))
    · rcases mem_cons.mp hb with rfl | hb'
      · exact .inr (mem_append_left _ (mem_map.mpr ⟨a, ha', rfl⟩))
      · exact (ih ha' hb').imp (mem_append_right _) (mem_append_right _)

theorem nodup_combinations (h : items.Nodup) : (combinations items).Nodup := by
  induction items with
  | nil => exact nodup_nil
  | cons item rest ih =>
    rw [nodup_cons] at h
    refine List.nodup_append.mpr ⟨h.2.map fun x y hxy => (Prod.mk.inj hxy).2, ih h.2, ?_⟩
    rintro ⟨x, y⟩ hfirst ⟨x', y'⟩ hrest heq
    cases heq
    obtain ⟨other, -, hpair⟩ := mem_map.mp hfirst
    cases hpair
    exact h.1 (mem_of_combinations hrest).1

theorem ne_of_combinations (h : items.Nodup) (hmem : (a, b) ∈ combinations items) : a ≠ b := by
  induction items with
  | nil => cases hmem
  | cons item rest ih =>
    rw [nodup_cons] at h
    rcases mem_append.mp hmem with hfirst | hrest
    · obtain ⟨other, hother, heq⟩ := mem_map.mp hfirst
      cases heq
      exact fun heq => h.1 (heq ▸ hother)
    · exact ih h.2 hrest

end

section

variable {left left' right right' : List CandidateDependencyEvidence}

theorem sortTexts_congr {xs ys : List Text} (h : xs.Perm ys) : sortTexts xs = sortTexts ys := by
  refine sortBy_congr h ?_
  intro a _ b _ hab
  exact code_injective (List.cons.inj hab).1

/-- What two subjects share does not depend on the order of their records. -/
theorem sharedVersions_congr (hleft : left.Perm left') (hright : right.Perm right') :
    sharedVersions left right = sharedVersions left' right' := by
  have hcontains : (fun identity => (right.map (·.identity)).contains identity) =
      fun identity => (right'.map (·.identity)).contains identity := by
    funext identity
    rw [Bool.eq_iff_iff, contains_iff_mem, contains_iff_mem, (hright.map _).mem_iff]
  have hidentities : (((left.map (·.identity)).filter fun identity => (right.map (·.identity)).contains identity).dedup).Perm
      ((left'.map (·.identity)).filter fun identity => (right'.map (·.identity)).contains identity).dedup := by
    rw [hcontains]
    exact ((hleft.map _).filter _).dedup
  have hversions : ∀ identity : Text × Text,
      sortTexts (((left ++ right).filter fun item => item.identity = identity).map (·.version)).dedup =
        sortTexts (((left' ++ right').filter fun item => item.identity = identity).map (·.version)).dedup := by
    intro identity
    exact sortTexts_congr ((((hleft.append hright).filter _).map _).dedup)
  unfold sharedVersions
  simp only [hversions]
  rw [sortBy_congr hidentities]
  intro a _ b _ hab
  have hcodes := List.cons.inj hab
  exact Prod.ext (code_injective hcodes.1) (code_injective (List.cons.inj hcodes.2).1)

theorem mem_sharedVersions {shared : (Text × Text) × List Text} (h : shared ∈ sharedVersions left right) :
    (∃ item ∈ left, item.identity = shared.1) ∧ (∃ item ∈ right, item.identity = shared.1) ∧
      shared.2 = sortTexts (((left ++ right).filter fun item => item.identity = shared.1).map (·.version)).dedup := by
  obtain ⟨identity, hidentity, rfl⟩ := mem_map.mp h
  rw [mem_sortBy, mem_dedup, mem_filter, contains_iff_mem] at hidentity
  obtain ⟨hleft, hright⟩ := hidentity
  obtain ⟨x, hx, hxid⟩ := mem_map.mp hleft
  obtain ⟨y, hy, hyid⟩ := mem_map.mp hright
  exact ⟨⟨x, hx, hxid⟩, ⟨y, hy, hyid⟩, rfl⟩

/-- Two subjects have two versions of a package if and only if one has a version that differs from one of the other. -/
theorem exists_shared_iff : (∃ shared ∈ sharedVersions left right, 1 < shared.2.length) ↔
    ∃ a ∈ left, ∃ b ∈ right, a.identity = b.identity ∧ a.version ≠ b.version := by
  constructor
  · rintro ⟨shared, hshared, hlength⟩
    obtain ⟨⟨x, hx, hxid⟩, ⟨y, hy, hyid⟩, hversions⟩ := mem_sharedVersions hshared
    have hperm : shared.2.Perm (((left ++ right).filter fun item => item.identity = shared.1).map (·.version)).dedup := by
      rw [hversions]
      exact perm_sortBy _ _
    have hnodup : shared.2.Nodup := hperm.nodup_iff.mpr (nodup_dedup _)
    obtain ⟨v, w, rest, heq⟩ : ∃ v w rest, shared.2 = v :: w :: rest := by
      match hlist : shared.2 with
      | [] => rw [hlist] at hlength; simp at hlength
      | [v] => rw [hlist] at hlength; simp at hlength
      | v :: w :: rest => exact ⟨v, w, rest, rfl⟩
    have hne : v ≠ w := by
      rw [heq, nodup_cons] at hnodup
      exact fun hvw => hnodup.1 (hvw ▸ mem_cons_self)
    have hsource : ∀ version ∈ shared.2, ∃ item ∈ left ++ right, item.identity = shared.1 ∧ item.version = version := by
      intro version hversion
      rw [hperm.mem_iff, mem_dedup] at hversion
      obtain ⟨item, hitem, rfl⟩ := mem_map.mp hversion
      obtain ⟨hitem, hid⟩ := mem_filter.mp hitem
      exact ⟨item, hitem, of_decide_eq_true hid, rfl⟩
    obtain ⟨p, hp, hpid, rfl⟩ := hsource v (by rw [heq]; exact mem_cons_self)
    obtain ⟨q, hq, hqid, rfl⟩ := hsource w (by rw [heq]; exact mem_cons_of_mem _ mem_cons_self)
    by_cases hpx : p.version = x.version
    · rcases mem_append.mp hq with hq | hq
      · by_cases hqy : q.version = y.version
        · exact ⟨x, hx, y, hy, hxid.trans hyid.symm, fun heq => hne (hpx.trans (heq.trans hqy.symm))⟩
        · exact ⟨q, hq, y, hy, hqid.trans hyid.symm, hqy⟩
      · exact ⟨x, hx, q, hq, hxid.trans hqid.symm, fun heq => hne (hpx.trans heq)⟩
    · rcases mem_append.mp hp with hp | hp
      · by_cases hpy : p.version = y.version
        · exact ⟨x, hx, y, hy, hxid.trans hyid.symm, fun heq => hpx (hpy.trans heq.symm)⟩
        · exact ⟨p, hp, y, hy, hpid.trans hyid.symm, hpy⟩
      · exact ⟨x, hx, p, hp, hxid.trans hpid.symm, fun heq => hpx heq.symm⟩
  · rintro ⟨a, ha, b, hb, hid, hne⟩
    have hmem : a.identity ∈ sortBy (fun identity => [code identity.1, code identity.2])
        ((left.map (·.identity)).filter fun identity => (right.map (·.identity)).contains identity).dedup := by
      rw [mem_sortBy, mem_dedup, mem_filter, contains_iff_mem]
      exact ⟨mem_map.mpr ⟨a, ha, rfl⟩, mem_map.mpr ⟨b, hb, hid.symm⟩⟩
    refine ⟨_, mem_map.mpr ⟨a.identity, hmem, rfl⟩, ?_⟩
    have hversion : ∀ item ∈ left ++ right, item.identity = a.identity → item.version ∈
        sortTexts (((left ++ right).filter fun item => item.identity = a.identity).map (·.version)).dedup := by
      intro item hitem hitemid
      refine mem_sortBy.mpr (mem_dedup.mpr (mem_map.mpr ⟨item, ?_, rfl⟩))
      exact mem_filter.mpr ⟨hitem, decide_eq_true hitemid⟩
    have hfirst := hversion a (mem_append_left _ ha) rfl
    have hsecond := hversion b (mem_append_right _ hb) hid.symm
    by_contra hshort
    obtain ⟨only, honly⟩ := length_eq_one_iff.mp (Nat.le_antisymm (Nat.not_lt.mp hshort) (length_pos_of_mem hfirst))
    dsimp only at honly
    rw [honly, mem_singleton] at hfirst hsecond
    exact hne (hfirst.trans hsecond.symm)

theorem nodup_shared : ((sharedVersions left right).map Prod.fst).Nodup := by
  have hmap : (sharedVersions left right).map Prod.fst = sortBy (fun identity => [code identity.1, code identity.2])
      ((left.map (·.identity)).filter fun identity => (right.map (·.identity)).contains identity).dedup := by
    unfold sharedVersions
    rw [map_map]
    exact map_id _
  rw [hmap]
  exact (perm_sortBy _ _).nodup_iff.mpr (nodup_dedup _)

end

section

variable (tomlLoads : Text → Option (List (Text × Toml))) (input : CompositionInput)

def rankedCandidates : List CompositionCandidateRef :=
  input.candidates.insertionSort fun a b => a.candidateKey ≤ b.candidateKey

def rankedSubjects : List CompositionCandidateRef := input.recipient :: rankedCandidates input

def pairs : List (CompositionCandidateRef × CompositionCandidateRef) := pairsOf input.recipient (rankedCandidates input)

def clashNames (pair : CompositionCandidateRef × CompositionCandidateRef) : List Tuple :=
  clashKeys pair.1.candidateKey pair.2.candidateKey (closureOf tomlLoads input pair.1).evidence
    (closureOf tomlLoads input pair.2).evidence

def openNames (pair : CompositionCandidateRef × CompositionCandidateRef) : List Tuple :=
  (closureOf tomlLoads input pair.1).unknown.map (unknownKey pair.1 pair.2 "left" pair.1) ++
    (closureOf tomlLoads input pair.2).unknown.map (unknownKey pair.1 pair.2 "right" pair.2)

def openRecord (left right : CompositionCandidateRef) (key : Tuple) : ConflictRecord :=
  ⟨left, right, .dependencyDeclarationOverlap, .unknown, key, digest (keyValue key), unknownCode⟩

def cells (pair : CompositionCandidateRef × CompositionCandidateRef) : List ConflictRecord :=
  (clashNames tomlLoads input pair).map (clashRecord pair.1 pair.2) ++
    (openNames tomlLoads input pair).map (openRecord pair.1 pair.2)

def conflictsOf : List ConflictRecord := (pairs input).flatMap (cells tomlLoads input)

def dependenciesOf : List CandidateDependencyEvidence :=
  (rankedSubjects input).flatMap fun subject => (closureOf tomlLoads input subject).evidence

def unsignedMatrix : ConflictMatrix where
  schemaVersion := matrixSchema
  recipientSubject := input.recipientSubject
  recipient := input.recipient
  candidates := rankedCandidates input
  dependencies := (dependenciesOf tomlLoads input).insertionSort fun a b => dependencyKey a ≤ dependencyKey b
  architecture := []
  duplicates := []
  conflicts := (conflictsOf tomlLoads input).insertionSort fun a b => conflictKey a ≤ conflictKey b
  policyDigest := input.policyDigest
  matrixDigest := []

def matrixOf : ConflictMatrix :=
  { unsignedMatrix tomlLoads input with matrixDigest := digest (matrixValue (unsignedMatrix tomlLoads input)) }

end

section

variable {tomlLoads : Text → Option (List (Text × Toml))} {input : CompositionInput}
  {subject : CompositionCandidateRef} {pair : CompositionCandidateRef × CompositionCandidateRef}

theorem perm_rankedCandidates : (rankedCandidates input).Perm input.candidates := perm_insertionSort _ _

theorem mem_rankedCandidates : subject ∈ rankedCandidates input ↔ subject ∈ input.candidates :=
  perm_rankedCandidates.mem_iff

theorem perm_rankedSubjects : (rankedSubjects input).Perm input.subjects := perm_rankedCandidates.cons _

theorem mem_rankedSubjects : subject ∈ rankedSubjects input ↔ subject ∈ input.subjects := perm_rankedSubjects.mem_iff

theorem nodup_rankedKeys (h : WellFormed tomlLoads input) : ((rankedSubjects input).map (·.candidateKey)).Nodup :=
  (perm_rankedSubjects.map _).nodup_iff.mpr h.distinct

theorem eq_of_key (h : WellFormed tomlLoads input) {a b : CompositionCandidateRef} (ha : a ∈ input.subjects)
    (hb : b ∈ input.subjects) (hkey : a.candidateKey = b.candidateKey) : a = b :=
  inj_on_of_nodup_map h.distinct ha hb hkey

theorem nodup_rankedSubjects (h : WellFormed tomlLoads input) : (rankedSubjects input).Nodup :=
  List.Nodup.of_map _ (nodup_rankedKeys h)

theorem recipient_not_candidate (h : WellFormed tomlLoads input) : input.recipient ∉ rankedCandidates input :=
  (nodup_cons.mp (nodup_rankedSubjects h)).1

theorem subjects_of_pair (hpair : pair ∈ pairs input) : pair.1 ∈ rankedCandidates input ∧ pair.2 ∈ rankedSubjects input := by
  rcases mem_append.mp hpair with hpair | hpair
  · obtain ⟨hleft, hright⟩ := mem_of_combinations hpair
    exact ⟨hleft, mem_cons_of_mem _ hright⟩
  · obtain ⟨candidate, hcandidate, rfl⟩ := mem_map.mp hpair
    exact ⟨hcandidate, mem_cons_self⟩

theorem left_mem_subjects (hpair : pair ∈ pairs input) : pair.1 ∈ input.subjects :=
  mem_rankedSubjects.mp (mem_cons_of_mem _ (subjects_of_pair hpair).1)

theorem right_mem_subjects (hpair : pair ∈ pairs input) : pair.2 ∈ input.subjects :=
  mem_rankedSubjects.mp (subjects_of_pair hpair).2

theorem nodup_pairs (h : WellFormed tomlLoads input) : (pairs input).Nodup := by
  have hcandidates : (rankedCandidates input).Nodup := (nodup_cons.mp (nodup_rankedSubjects h)).2
  refine List.nodup_append.mpr ⟨nodup_combinations hcandidates, ?_, ?_⟩
  · exact hcandidates.map fun x y hxy => (Prod.mk.inj hxy).1
  · rintro ⟨a, b⟩ hfirst ⟨a', b'⟩ hsecond heq
    cases heq
    obtain ⟨candidate, -, hpair⟩ := mem_map.mp hsecond
    cases hpair
    exact recipient_not_candidate h (mem_of_combinations hfirst).2

theorem ne_of_pair (h : WellFormed tomlLoads input) (hpair : pair ∈ pairs input) : pair.1 ≠ pair.2 := by
  have hcandidates : (rankedCandidates input).Nodup := (nodup_cons.mp (nodup_rankedSubjects h)).2
  rcases mem_append.mp hpair with hpair | hpair
  · exact ne_of_combinations hcandidates hpair
  · obtain ⟨candidate, hcandidate, rfl⟩ := mem_map.mp hpair
    intro heq
    have hsame : candidate = input.recipient := heq
    rw [hsame] at hcandidate
    exact recipient_not_candidate h hcandidate

theorem pair_of_subjects {a b : CompositionCandidateRef} (ha : a ∈ input.subjects) (hb : b ∈ input.subjects) (hne : a ≠ b) :
    (a, b) ∈ pairs input ∨ (b, a) ∈ pairs input := by
  rcases mem_cons.mp ha with rfl | ha
  · rcases mem_cons.mp hb with rfl | hb
    · exact absurd rfl hne
    · exact .inr (mem_append_right _ (mem_map.mpr ⟨b, mem_rankedCandidates.mpr hb, rfl⟩))
  · rcases mem_cons.mp hb with rfl | hb
    · exact .inl (mem_append_right _ (mem_map.mpr ⟨a, mem_rankedCandidates.mpr ha, rfl⟩))
    · exact (combinations_complete (mem_rankedCandidates.mpr ha) (mem_rankedCandidates.mpr hb) hne).imp
        (mem_append_left _) (mem_append_left _)

theorem closureFor_ranked (h : WellFormed tomlLoads input) (hsubject : subject ∈ input.subjects) :
    closureFor ((rankedSubjects input).map (closureOf tomlLoads input)) subject = closureOf tomlLoads input subject := by
  have hmem : closureOf tomlLoads input subject ∈ (rankedSubjects input).map (closureOf tomlLoads input) :=
    mem_map.mpr ⟨subject, mem_rankedSubjects.mpr hsubject, rfl⟩
  have hsome : (((rankedSubjects input).map (closureOf tomlLoads input)).find? fun item =>
      item.subject.candidateKey = subject.candidateKey).isSome = true :=
    find?_isSome.mpr ⟨_, hmem, decide_eq_true rfl⟩
  obtain ⟨found, hfound⟩ := Option.isSome_iff_exists.mp hsome
  have hkey : found.subject.candidateKey = subject.candidateKey := by simpa using find?_some hfound
  obtain ⟨other, hother, rfl⟩ := mem_map.mp (mem_of_find?_eq_some hfound)
  have heq : other = subject := eq_of_key h (mem_rankedSubjects.mp hother) hsubject hkey
  unfold closureFor
  rw [hfound, heq]
  rfl

theorem pairConflicts_ranked (h : WellFormed tomlLoads input) (hpair : pair ∈ pairs input) :
    pairConflicts ((rankedSubjects input).map (closureOf tomlLoads input)) pair = cells tomlLoads input pair := by
  unfold pairConflicts
  simp only [closureFor_ranked h (left_mem_subjects hpair), closureFor_ranked h (right_mem_subjects hpair)]
  unfold cells openNames
  rw [map_append, map_map, map_map, ← append_assoc]
  rfl

end

section

variable {tomlLoads : Text → Option (List (Text × Toml))} {input : CompositionInput}

theorem manifestsOf_candidate (h : WellFormed tomlLoads input) {subject : CompositionCandidateRef}
    (hsubject : subject ∈ input.candidates) : input.manifestsOf subject = input.filesOf subject := by
  have hne : subject.candidateKey ≠ input.recipient.candidateKey := by
    intro heq
    have hdistinct := h.distinct
    rw [CompositionInput.subjects, map_cons, nodup_cons] at hdistinct
    exact hdistinct.1 (mem_map.mpr ⟨subject, hsubject, heq⟩)
  unfold CompositionInput.manifestsOf
  rw [if_neg hne]

theorem manifestsOf_recipient : input.manifestsOf input.recipient = input.recipientFiles := if_pos rfl

/-- What is left to do once the closures are known. -/
def finish (tomlLoads : Text → Option (List (Text × Toml))) (input : CompositionInput) :
    Except CompositionError (ConflictMatrix × CompositionEligibility) := do
  let matrix ← buildMatrix input (rankedCandidates input) ((rankedSubjects input).map (closureOf tomlLoads input))
  let eligibility ← evaluateEligibility matrix
  pure (matrix, eligibility)

theorem sorted_ok_iff {α κ : Type} [LinearOrder κ] {r : κ → κ → Bool} {key : α → κ} {items : List α}
    (hself : ∀ a, r a a = true) (hsymm : ∀ a b, r a b = r b a) : (∃ result, sorted r key items = .ok result) ↔
      ∀ a ∈ items, ∀ b ∈ items, r (key a) (key b) = true := by
  rw [← TupleOrder.sorted_isSome_iff hself hsymm]
  unfold sorted
  cases TupleOrder.sorted r key items with
  | none => simp
  | some result => simp

/-- The matrix that a composition builds before it is evaluated. -/
def composedMatrix (tomlLoads : Text → Option (List (Text × Toml))) (input : CompositionInput) :
    Except CompositionError ConflictMatrix :=
  if input.recipientSubject = [] ∨ ¬ isDigest input.policyDigest then
    .error (.hardGate "composition inputs are missing or malformed")
  else do
    validateRef input.recipient
    input.candidates.forM validateRef
    let candidates ← sorted ordered (·.candidateKey) input.candidates
    let keys := candidates.map (·.candidateKey)
    if ¬ keys.Nodup ∨ input.recipient.candidateKey ∈ keys then
      .error (.hardGate "composition candidate keys are duplicated")
    else if ¬ ((∀ entry ∈ input.candidateFiles, entry.1 ∈ keys) ∧
        ∀ key ∈ keys, (input.candidateFiles.lookup key).isSome = true) then
      .error (.hardGate "composition candidate manifest evidence is incomplete")
    else
      let first ← closureEvidence tomlLoads input.dependencyPolicy input.recipient input.recipientFiles
      let others ← candidates.mapM fun subject =>
        closureEvidence tomlLoads input.dependencyPolicy subject (input.filesOf subject)
      buildMatrix input candidates (first :: others)

theorem compose_eq_evaluate : compose tomlLoads input = (do
    let matrix ← composedMatrix tomlLoads input
    let eligibility ← evaluateEligibility matrix
    pure (matrix, eligibility)) := by
  unfold compose composedMatrix
  split
  next => rfl
  next =>
    simp only [bind_assoc]
    congr 1
    funext _
    congr 1
    funext _
    congr 1
    funext candidates
    split
    next => rfl
    next =>
      split
      next => rfl
      next => simp only [bind_assoc]

/-- The run up to the matrix. -/
theorem composedMatrix_eq (h : WellFormed tomlLoads input) (hlabelled : Labelled input)
    (hordered : ∀ a ∈ input.candidates, ∀ b ∈ input.candidates, ordered a.candidateKey b.candidateKey = true) :
    composedMatrix tomlLoads input =
      buildMatrix input (rankedCandidates input) ((rankedSubjects input).map (closureOf tomlLoads input)) := by
  have hkeys := nodup_rankedKeys h
  rw [rankedSubjects, map_cons, nodup_cons] at hkeys
  have hrefs : input.candidates.forM validateRef = .ok () :=
    forM_ok fun subject hsubject => h.refs subject (mem_cons_of_mem _ hsubject)
  have hrecipient : validateRef input.recipient = .ok () := h.refs _ mem_cons_self
  have hsorted : sorted ordered (·.candidateKey) input.candidates = .ok (rankedCandidates input) := sorted_ok hordered
  have hfiles : (∀ entry ∈ input.candidateFiles, entry.1 ∈ (rankedCandidates input).map (·.candidateKey)) ∧
      ∀ key ∈ (rankedCandidates input).map (·.candidateKey), (input.candidateFiles.lookup key).isSome = true := by
    have hperm := (@perm_rankedCandidates input).map (·.candidateKey)
    exact ⟨fun entry hentry => hperm.mem_iff.mpr (h.files.1 entry hentry),
      fun key hkey => h.files.2 key (hperm.mem_iff.mp hkey)⟩
  have hfirst : closureEvidence tomlLoads input.dependencyPolicy input.recipient input.recipientFiles =
      .ok (closureOf tomlLoads input input.recipient) := by
    have hmem : input.recipient ∈ input.subjects := mem_cons_self
    have hclosure := closureEvidence_eq h hlabelled hmem
    rwa [manifestsOf_recipient] at hclosure
  have hothers : ((rankedCandidates input).mapM fun subject =>
      closureEvidence tomlLoads input.dependencyPolicy subject (input.filesOf subject)) =
        .ok ((rankedCandidates input).map (closureOf tomlLoads input)) := by
    refine mapM_ok_map ?_
    intro subject hsubject
    rw [mem_rankedCandidates] at hsubject
    rw [← manifestsOf_candidate h hsubject]
    exact closureEvidence_eq h hlabelled (mem_cons_of_mem _ hsubject)
  have hinput : ¬ (input.recipientSubject = [] ∨ ¬ isDigest input.policyDigest = true) := by
    rw [not_or, not_not]
    exact ⟨h.named, h.policyDigest⟩
  unfold composedMatrix
  rw [if_neg hinput, bind_eq hrecipient, bind_eq hrefs, bind_eq hsorted]
  simp only
  rw [if_neg (by rw [not_or, not_not]; exact ⟨hkeys.2, hkeys.1⟩), if_neg (not_not_intro hfiles), bind_eq hfirst, bind_eq hothers]
  rfl

theorem compose_eq (h : WellFormed tomlLoads input) (hlabelled : Labelled input)
    (hordered : ∀ a ∈ input.candidates, ∀ b ∈ input.candidates, ordered a.candidateKey b.candidateKey = true) :
    compose tomlLoads input = finish tomlLoads input := by
  rw [compose_eq_evaluate, composedMatrix_eq h hlabelled hordered]
  rfl

end

end Leitir.Composition
