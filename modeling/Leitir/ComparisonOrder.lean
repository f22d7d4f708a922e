import Leitir.Comparison

namespace Leitir.Compare

open ExceptRun List

theorem reversed_reversed (result : ComparisonResult) : result.reversed.reversed = result := by
  cases result <;> rfl

theorem reversed_eq_equal {result : ComparisonResult} : result.reversed = .equal ↔ result = .equal := by
  cases result <;> decide

theorem reversed_eq_better {result : ComparisonResult} : result.reversed = .better ↔ result = .worse := by
  cases result <;> decide

theorem ordered_reversed (left right : List ℚ) : ordered right left = (ordered left right).reversed := by
  induction left generalizing right with
  | nil =>
    cases right with
    | nil => rfl
    | cons b bs => rfl
  | cons a as ih =>
    cases right with
    | nil => rfl
    | cons b bs =>
      by_cases heq : a = b
      · rw [ordered, ordered, if_pos heq.symm, if_pos heq]
        exact ih bs
      · rw [ordered, ordered, if_neg (Ne.symm heq), if_neg heq]
        rcases lt_or_gt_of_ne heq with hlt | hlt
        · rw [if_pos hlt, if_neg (not_lt.mpr hlt.le)]
          rfl
        · rw [if_neg (not_lt.mpr hlt.le), if_pos hlt]
          rfl

theorem ordered_equal_iff {left right : List ℚ} : ordered left right = .equal ↔ left = right := by
  induction left generalizing right with
  | nil =>
    cases right with
    | nil => exact ⟨fun _ => rfl, fun _ => rfl⟩
    | cons b bs => exact ⟨nofun, nofun⟩
  | cons a as ih =>
    cases right with
    | nil => exact ⟨nofun, nofun⟩
    | cons b bs =>
      rw [ordered, List.cons.injEq]
      split
      next heq =>
        rw [ih]
        exact ⟨fun h => ⟨heq, h⟩, And.right⟩
      next hne =>
        refine ⟨fun h => ?_, fun h => absurd h.1 hne⟩
        split at h
        next => cases h
        next => cases h

theorem ordered_better_trans {a b c : List ℚ} (hab : ordered a b = .better) (hbc : ordered b c = .better) :
    ordered a c = .better := by
  induction a generalizing b c with
  | nil =>
    cases b with
    | nil => cases hab
    | cons y ys => cases hab
  | cons x xs ih =>
    cases b with
    | nil =>
      cases c with
      | nil => cases hbc
      | cons z zs => cases hbc
    | cons y ys =>
      cases c with
      | nil => rfl
      | cons z zs =>
        rw [ordered] at hab hbc ⊢
        split at hab
        next hxy =>
          subst hxy
          split at hbc
          next hyz =>
            rw [if_pos hyz]
            exact ih hab hbc
          next hyz => rw [if_neg hyz, hbc]
        next hxy =>
          split at hab
          next hlt =>
            split at hbc
            next hyz =>
              subst hyz
              rw [if_neg hxy, if_pos hlt]
            next =>
              split at hbc
              next hlt' =>
                have hzx : z < x := hlt'.trans hlt
                rw [if_neg hzx.ne', if_pos hzx]
              next => cases hbc
          next => cases hab

/-- What an assessment says, without its dimension. -/
inductive Standing
  | unknown
  | notApplicable
  | known (tuple : List ℚ)

def DimensionAssessment.standing (item : DimensionAssessment) : Standing :=
  match item.status, item.value with
  | .known, some value => .known value.tuple
  | .notApplicable, _ => .notApplicable
  | _, _ => .unknown

def Standing.compare : Standing → Standing → ComparisonResult
  | .known left, .known right => ordered left right
  | .notApplicable, .notApplicable => .equal
  | _, _ => .incomparable

theorem Standing.compare_reversed (left right : Standing) : right.compare left = (left.compare right).reversed := by
  cases left with
  | unknown => cases right <;> rfl
  | notApplicable => cases right <;> rfl
  | known tuple =>
    cases right with
    | unknown => rfl
    | notApplicable => rfl
    | known other => exact ordered_reversed tuple other

theorem Standing.compare_congr {a b : Standing} (h : a.compare b = .equal) (c : Standing) : a.compare c = b.compare c := by
  cases a with
  | unknown => cases b <;> cases h
  | notApplicable =>
    cases b with
    | unknown => cases h
    | notApplicable => rfl
    | known tuple => cases h
  | known tuple =>
    cases b with
    | unknown => cases h
    | notApplicable => cases h
    | known other =>
      rw [ordered_equal_iff.mp h]

theorem Standing.better_trans {a b c : Standing} (hab : a.compare b = .better) (hbc : b.compare c = .better) :
    a.compare c = .better := by
  cases a with
  | unknown => cases b <;> cases hab
  | notApplicable => cases b <;> cases hab
  | known x =>
    cases b with
    | unknown => cases hab
    | notApplicable => cases hab
    | known y =>
      cases c with
      | unknown => cases hbc
      | notApplicable => cases hbc
      | known z => exact ordered_better_trans hab hbc

theorem compareAssessments_eq {left right : DimensionAssessment} (h : left.kind = right.kind) :
    compareAssessments left right = .ok (left.standing.compare right.standing) := by
  obtain ⟨kind, status, value, valued, typed⟩ := left
  obtain ⟨kind', status', value', valued', typed'⟩ := right
  simp only at h
  subst h
  unfold compareAssessments DimensionAssessment.standing
  simp only [ne_eq, not_true_eq_false, if_false]
  cases status with
  | unknown => cases status' <;> cases value' <;> rfl
  | notApplicable =>
    cases status' with
    | unknown => cases value' <;> rfl
    | notApplicable => rfl
    | known => cases value' <;> rfl
  | known =>
    obtain ⟨known, rfl⟩ := Option.isSome_iff_exists.mp (valued.mpr rfl)
    cases status' with
    | unknown => rfl
    | notApplicable => rfl
    | known =>
      obtain ⟨known', rfl⟩ := Option.isSome_iff_exists.mp (valued'.mpr rfl)
      have hkind : known.kind = known'.kind := (typed known rfl).trans (typed' known' rfl).symm
      simp only [reduceCtorEq, or_self, if_false, if_pos hkind]
      rfl

section

variable {κ : Type} {left right a b c : CandidateDimensionVector κ} {dimensions : List DimensionKind}

theorem DimensionKind.mem_all (kind : DimensionKind) : kind ∈ DimensionKind.all := by
  cases kind <;> decide

theorem byKind_ok (vector : CandidateDimensionVector κ) (kind : DimensionKind) :
    ∃ item ∈ vector.dimensions, item.kind = kind ∧ vector.byKind kind = .ok item := by
  have hmem : kind ∈ vector.dimensions.map DimensionAssessment.kind := by
    rw [vector.canonical]
    exact kind.mem_all
  obtain ⟨item, hitem, hkind⟩ := mem_map.mp hmem
  unfold CandidateDimensionVector.byKind
  split
  next found hfound =>
    have hdecide := find?_some hfound
    exact ⟨found, mem_reverse.mp (mem_of_find?_eq_some hfound), by simpa using hdecide, rfl⟩
  next hnone =>
    have hnot := find?_eq_none.mp hnone item (mem_reverse.mpr hitem)
    simp [hkind] at hnot

theorem kind_injective (vector : CandidateDimensionVector κ) {item other : DimensionAssessment}
    (hitem : item ∈ vector.dimensions) (hother : other ∈ vector.dimensions) (h : item.kind = other.kind) : item = other := by
  have hnodup : (vector.dimensions.map DimensionAssessment.kind).Nodup := by
    rw [vector.canonical]
    decide
  exact inj_on_of_nodup_map hnodup hitem hother h

def CandidateDimensionVector.standing (vector : CandidateDimensionVector κ) (kind : DimensionKind) : Standing :=
  match vector.byKind kind with
  | .ok item => item.standing
  | .error _ => .unknown

/-- The comparison of two candidates, which never fails. -/
def outcome (left right : CandidateDimensionVector κ) : List DimensionKind → ComparisonResult × Option DimensionKind
  | [] => (.equal, none)
  | dimension :: rest =>
    let result := (left.standing dimension).compare (right.standing dimension)
    if result ≠ .equal then (result, some dimension) else outcome left right rest

theorem roleCompare_eq (left right : CandidateDimensionVector κ) (dimensions : List DimensionKind) :
    roleCompare left right dimensions = .ok (outcome left right dimensions) := by
  induction dimensions with
  | nil => rfl
  | cons dimension rest ih =>
    obtain ⟨leftItem, -, hleftKind, hleft⟩ := byKind_ok left dimension
    obtain ⟨rightItem, -, hrightKind, hright⟩ := byKind_ok right dimension
    rw [roleCompare, bind_eq hleft, bind_eq hright, bind_eq (compareAssessments_eq (hleftKind.trans hrightKind.symm))]
    simp only [outcome, CandidateDimensionVector.standing, hleft, hright]
    split
    next => rfl
    next => exact ih

def Compared (left right : CandidateDimensionVector κ) (dimension : DimensionKind) (result : ComparisonResult) : Prop :=
  ∃ leftItem ∈ left.dimensions, ∃ rightItem ∈ right.dimensions, leftItem.kind = dimension ∧ rightItem.kind = dimension ∧
    compareAssessments leftItem rightItem = .ok result

def DecidedBy (dimensions : List DimensionKind) (left right : CandidateDimensionVector κ) (dimension : DimensionKind)
    (result : ComparisonResult) : Prop :=
  ∃ earlier later, dimensions = earlier ++ dimension :: later ∧ (∀ other ∈ earlier, Compared left right other .equal) ∧
    Compared left right dimension result ∧ result ≠ .equal

theorem compared_iff {dimension : DimensionKind} {result : ComparisonResult} :
    Compared left right dimension result ↔ (left.standing dimension).compare (right.standing dimension) = result := by
  obtain ⟨leftItem, hleftMem, hleftKind, hleft⟩ := byKind_ok left dimension
  obtain ⟨rightItem, hrightMem, hrightKind, hright⟩ := byKind_ok right dimension
  have hcompare := compareAssessments_eq (hleftKind.trans hrightKind.symm)
  simp only [CandidateDimensionVector.standing, hleft, hright]
  constructor
  · rintro ⟨leftOther, hleftOther, rightOther, hrightOther, hkind, hkind', hresult⟩
    rw [kind_injective left hleftOther hleftMem (hkind.trans hleftKind.symm),
      kind_injective right hrightOther hrightMem (hkind'.trans hrightKind.symm), hcompare] at hresult
    exact Except.ok.inj hresult
  · intro hresult
    exact ⟨leftItem, hleftMem, rightItem, hrightMem, hleftKind, hrightKind, hcompare.trans (congrArg _ hresult)⟩

theorem decidedBy_iff {dimension : DimensionKind} {result : ComparisonResult} :
    DecidedBy dimensions left right dimension result ↔
      outcome left right dimensions = (result, some dimension) ∧ result ≠ .equal := by
  induction dimensions with
  | nil =>
    constructor
    · rintro ⟨earlier, later, heq, -⟩
      cases earlier <;> cases heq
    · rintro ⟨h, -⟩
      cases h
  | cons first rest ih =>
    have hstep : DecidedBy (first :: rest) left right dimension result ↔
        first = dimension ∧ Compared left right first result ∧ result ≠ .equal ∨
          Compared left right first .equal ∧ DecidedBy rest left right dimension result := by
      constructor
      · rintro ⟨earlier, later, heq, hearlier, hresult, hne⟩
        cases earlier with
        | nil =>
          cases heq
          exact .inl ⟨rfl, hresult, hne⟩
        | cons other earlier =>
          cases heq
          rw [forall_mem_cons] at hearlier
          exact .inr ⟨hearlier.1, earlier, later, rfl, hearlier.2, hresult, hne⟩
      · rintro (⟨rfl, hresult, hne⟩ | ⟨hfirst, earlier, later, rfl, hearlier, hresult, hne⟩)
        · exact ⟨[], rest, rfl, fun other hother => absurd hother not_mem_nil, hresult, hne⟩
        · exact ⟨first :: earlier, later, rfl, forall_mem_cons.mpr ⟨hfirst, hearlier⟩, hresult, hne⟩
    rw [hstep, ih, compared_iff, compared_iff, outcome]
    split
    next hfirst =>
      constructor
      · rintro (⟨rfl, hresult, hne⟩ | ⟨hequal, -⟩)
        · exact ⟨by rw [hresult], hne⟩
        · exact absurd hequal hfirst
      · rintro ⟨h, hne⟩
        cases h
        exact .inl ⟨rfl, rfl, hne⟩
    next hfirst =>
      rw [ne_eq, not_not] at hfirst
      constructor
      · rintro (⟨-, hresult, hne⟩ | ⟨-, hrest⟩)
        · exact absurd (hresult.symm.trans hfirst) hne
        · exact hrest
      · exact fun hrest => .inr ⟨hfirst, hrest⟩

theorem outcome_reversed (left right : CandidateDimensionVector κ) (dimensions : List DimensionKind) :
    outcome right left dimensions = ((outcome left right dimensions).1.reversed, (outcome left right dimensions).2) := by
  induction dimensions with
  | nil => rfl
  | cons dimension rest ih =>
    simp only [outcome]
    rw [Standing.compare_reversed]
    split
    next h =>
      rw [ne_eq, reversed_eq_equal] at h
      rw [if_pos h]
    next h =>
      rw [ne_eq, reversed_eq_equal, not_not] at h
      rw [if_neg (not_not.mpr h)]
      exact ih

theorem outcome_dimension (left right : CandidateDimensionVector κ) (dimensions : List DimensionKind)
    (h : (outcome left right dimensions).1 ≠ .equal) : ∃ dimension, (outcome left right dimensions).2 = some dimension := by
  induction dimensions with
  | nil => exact absurd rfl h
  | cons dimension rest ih =>
    simp only [outcome] at h ⊢
    split
    next => exact ⟨dimension, rfl⟩
    next hequal =>
      rw [if_neg hequal] at h
      exact ih h

theorem outcome_congr (h : (outcome a b dimensions).1 = .equal) : outcome a c dimensions = outcome b c dimensions := by
  induction dimensions with
  | nil => rfl
  | cons dimension rest ih =>
    simp only [outcome] at h ⊢
    split at h
    next hne => exact absurd h hne
    next hequal =>
      rw [Standing.compare_congr (not_not.mp hequal), ih h]

theorem outcome_better_trans (hab : (outcome a b dimensions).1 = .better) (hbc : (outcome b c dimensions).1 = .better) :
    (outcome a c dimensions).1 = .better := by
  induction dimensions with
  | nil => cases hab
  | cons dimension rest ih =>
    simp only [outcome] at hab hbc ⊢
    by_cases hfirst : (a.standing dimension).compare (b.standing dimension) = .equal
    · rw [if_neg (not_not.mpr hfirst)] at hab
      rw [Standing.compare_congr hfirst]
      by_cases hsecond : (b.standing dimension).compare (c.standing dimension) = .equal
      · rw [if_neg (not_not.mpr hsecond)] at hbc ⊢
        exact ih hab hbc
      · rw [if_pos hsecond] at hbc ⊢
        exact hbc
    · rw [if_pos hfirst] at hab
      by_cases hsecond : (b.standing dimension).compare (c.standing dimension) = .equal
      · -- the second pair is equal here, so the first result is that of the outer pair
        have hback : (c.standing dimension).compare (b.standing dimension) = .equal := by
          rw [Standing.compare_reversed, hsecond]
          rfl
        have hca := Standing.compare_congr hback (a.standing dimension)
        have hac : (a.standing dimension).compare (c.standing dimension) = .better := by
          rw [Standing.compare_reversed, hca, Standing.compare_reversed, reversed_reversed]
          exact hab
        rw [if_pos (by rw [hac]; decide), hac]
      · rw [if_pos hsecond] at hbc
        have hac := Standing.better_trans hab hbc
        rw [if_pos (by rw [hac]; decide), hac]

theorem outcome_self (a : CandidateDimensionVector κ) (dimensions : List DimensionKind) :
    (outcome a a dimensions).1 ≠ .better := by
  intro h
  have hrev := congrArg Prod.fst (outcome_reversed a a dimensions)
  rw [h] at hrev
  cases hrev

def unbeaten (dimensions : List DimensionKind) (candidates : List (CandidateDimensionVector κ))
    (c : CandidateDimensionVector κ) : Bool :=
  candidates.all fun other => (outcome c other dimensions).1 ≠ .worse

theorem outcome_self_ne_worse (c : CandidateDimensionVector κ) (dimensions : List DimensionKind) :
    (outcome c c dimensions).1 ≠ .worse := by
  intro h
  have hrev := congrArg Prod.fst (outcome_reversed c c dimensions)
  rw [h] at hrev
  cases hrev

end

end Leitir.Compare
