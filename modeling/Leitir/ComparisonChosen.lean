import Leitir.ComparisonOrder
import Leitir.CompositionMatrix

namespace Leitir.Compare

open List KeepBest

open Composition (combinations mem_of_combinations combinations_complete ne_of_combinations)
open ExceptRun

section

variable {κ : Type} {candidates : List (CandidateDimensionVector κ)} {dimensions : List DimensionKind}

theorem key_injective (hkeys : (candidates.map CandidateDimensionVector.candidateKey).Nodup)
    {a b : CandidateDimensionVector κ} (ha : a ∈ candidates) (hb : b ∈ candidates)
    (h : a.candidateKey = b.candidateKey) : a = b := inj_on_of_nodup_map hkeys ha hb h

def pairOf (dimensions : List DimensionKind) (pair : CandidateDimensionVector κ × CandidateDimensionVector κ) : PairResult κ :=
  ⟨pair.1.candidateKey, pair.2.candidateKey, (outcome pair.1 pair.2 dimensions).1, (outcome pair.1 pair.2 dimensions).2⟩

theorem mapM_comparePair (dimensions : List DimensionKind)
    (pairs : List (CandidateDimensionVector κ × CandidateDimensionVector κ)) :
    pairs.mapM (comparePair dimensions) = .ok (pairs.map (pairOf dimensions)) := by
  induction pairs with
  | nil => rfl
  | cons pair rest ih =>
    have hpair : comparePair dimensions pair = .ok (pairOf dimensions pair) := by
      rw [comparePair, bind_eq (roleCompare_eq pair.1 pair.2 dimensions)]
      rfl
    rw [mapM_cons, bind_eq hpair, bind_eq ih]
    rfl

def Decided (dimensions : List DimensionKind) (left right : CandidateDimensionVector κ) (result : ComparisonResult) : Prop :=
  ∃ dimension, DecidedBy dimensions left right dimension result

variable {left right : CandidateDimensionVector κ}

theorem decided_iff {result : ComparisonResult} (hne : result ≠ .equal) :
    Decided dimensions left right result ↔ (outcome left right dimensions).1 = result := by
  constructor
  · rintro ⟨dimension, h⟩
    rw [(decidedBy_iff.mp h).1]
  · intro h
    obtain ⟨dimension, hdimension⟩ := outcome_dimension left right dimensions (by rwa [h])
    exact ⟨dimension, decidedBy_iff.mpr ⟨Prod.ext h hdimension, hne⟩⟩

theorem beats_iff :
    Decided dimensions left right .better ↔ (outcome left right dimensions).1 = .better := decided_iff nofun

theorem incomparable_iff :
    Decided dimensions left right .incomparable ↔ (outcome left right dimensions).1 = .incomparable := decided_iff nofun

theorem decidedBy_incomparable_symm {dimension : DimensionKind}
    (h : DecidedBy dimensions left right dimension .incomparable) :
    DecidedBy dimensions right left dimension .incomparable := by
  rw [decidedBy_iff] at h ⊢
  rw [outcome_reversed, h.1]
  exact ⟨rfl, h.2⟩

theorem mem_incomparablePairs {pair : IncomparablePair κ} :
    pair ∈ ((combinations candidates).map (pairOf dimensions)).filterMap PairResult.incomparable ↔
      ∃ left right, (left, right) ∈ combinations candidates ∧ DecidedBy dimensions left right pair.dimension .incomparable ∧
        pair.left = left.candidateKey ∧ pair.right = right.candidateKey := by
  rw [mem_filterMap]
  constructor
  · rintro ⟨result, hresult, hpair⟩
    obtain ⟨⟨left, right⟩, hmem, rfl⟩ := mem_map.mp hresult
    unfold PairResult.incomparable at hpair
    split at hpair
    next hincomparable =>
      obtain ⟨dimension, hdimension, rfl⟩ := Option.map_eq_some_iff.mp hpair
      exact ⟨left, right, hmem, decidedBy_iff.mpr ⟨Prod.ext hincomparable hdimension, by decide⟩, rfl, rfl⟩
    next => cases hpair
  · rintro ⟨left, right, hmem, hdecided, hleft, hright⟩
    have houtcome := (decidedBy_iff.mp hdecided).1
    refine ⟨pairOf dimensions (left, right), mem_map_of_mem hmem, ?_⟩
    obtain ⟨leftKey, rightKey, dimension⟩ := pair
    simp only at hleft hright houtcome
    subst hleft hright
    unfold PairResult.incomparable pairOf
    simp only [houtcome, if_true, Option.map_some]

theorem exists_incomparablePair_iff :
    ((combinations candidates).map (pairOf dimensions)).filterMap PairResult.incomparable ≠ [] ↔
      ∃ left right, (left, right) ∈ combinations candidates ∧ Decided dimensions left right .incomparable := by
  constructor
  · intro hne
    obtain ⟨pair, hpair⟩ := exists_mem_of_ne_nil _ hne
    obtain ⟨left, right, hmem, hdecided, -⟩ := mem_incomparablePairs.mp hpair
    exact ⟨left, right, hmem, pair.dimension, hdecided⟩
  · rintro ⟨left, right, hmem, dimension, hdecided⟩
    have hpair := mem_incomparablePairs.mpr
      ⟨left, right, hmem, hdecided, rfl, (rfl : (⟨_, _, dimension⟩ : IncomparablePair κ).right = right.candidateKey)⟩
    exact ne_nil_of_mem hpair

end

section

variable {κ : Type} [DecidableEq κ] {candidates : List (CandidateDimensionVector κ)} {dimensions : List DimensionKind}
  {c other : CandidateDimensionVector κ}

theorem pairResult_some {left right : κ} {result : ComparisonResult}
    (h : pairResult ((combinations candidates).map (pairOf dimensions)) left right = some result) :
    ∃ a b, (a, b) ∈ combinations candidates ∧ a.candidateKey = left ∧ b.candidateKey = right ∧
      (outcome a b dimensions).1 = result := by
  obtain ⟨found, hfound, rfl⟩ := Option.map_eq_some_iff.mp h
  have hkeys := find?_some hfound
  obtain ⟨⟨a, b⟩, hmem, rfl⟩ := mem_map.mp (mem_reverse.mp (mem_of_find?_eq_some hfound))
  rw [decide_eq_true_iff] at hkeys
  exact ⟨a, b, hmem, hkeys.1, hkeys.2, rfl⟩

theorem pairResult_none {a b : CandidateDimensionVector κ}
    (h : pairResult ((combinations candidates).map (pairOf dimensions)) a.candidateKey b.candidateKey = none) :
    (a, b) ∉ combinations candidates := by
  intro hmem
  have hnone := find?_eq_none.mp (Option.map_eq_none_iff.mp h) (pairOf dimensions (a, b))
    (mem_reverse.mpr (mem_map_of_mem hmem))
  simp [pairOf] at hnone

variable (hkeys : (candidates.map CandidateDimensionVector.candidateKey).Nodup)
include hkeys

theorem resultOf_eq (hc : c ∈ candidates) (hother : other ∈ candidates) (hne : c ≠ other) :
    resultOf ((combinations candidates).map (pairOf dimensions)) c.candidateKey other.candidateKey =
      .ok (outcome c other dimensions).1 := by
  unfold resultOf
  split
  next result hresult =>
    obtain ⟨a, b, hmem, ha, hb, rfl⟩ := pairResult_some hresult
    obtain ⟨hamem, hbmem⟩ := mem_of_combinations hmem
    rw [key_injective hkeys hamem hc ha, key_injective hkeys hbmem hother hb]
  next hnone =>
    split
    next result hresult =>
      obtain ⟨a, b, hmem, ha, hb, rfl⟩ := pairResult_some hresult
      obtain ⟨hamem, hbmem⟩ := mem_of_combinations hmem
      rw [key_injective hkeys hamem hother ha, key_injective hkeys hbmem hc hb, outcome_reversed other c]
    next hnone' =>
      rcases combinations_complete hc hother hne with hmem | hmem
      · exact absurd hmem (pairResult_none hnone)
      · exact absurd hmem (pairResult_none hnone')

theorem noWorse_eq {place : Nat} (hc : (c, place) ∈ candidates.zipIdx)
    {others : List (CandidateDimensionVector κ × Nat)} (hothers : others ⊆ candidates.zipIdx) :
    noWorse ((combinations candidates).map (pairOf dimensions)) (c, place) others =
      .ok (unbeaten dimensions (others.map Prod.fst) c) := by
  induction others with
  | nil => rfl
  | cons other rest ih =>
    have hother : other ∈ candidates.zipIdx := hothers mem_cons_self
    have hrest := ih fun item hitem => hothers (mem_cons_of_mem _ hitem)
    have hget := mem_zipIdx_iff_getElem?.mp hc
    have hgetOther := mem_zipIdx_iff_getElem?.mp hother
    rw [noWorse, unbeaten, map_cons, all_cons]
    split
    next hplace =>
      -- the same place holds the same candidate, which is not worse than itself
      have hsame : other.1 = c := by
        simp only at hplace
        rw [← hplace] at hgetOther
        exact Option.some.inj (hgetOther.symm.trans hget)
      rw [hrest, hsame, decide_eq_true (outcome_self_ne_worse c dimensions), Bool.true_and]
      rfl
    next hplace =>
      have hne : c ≠ other.1 := by
        intro heq
        have hnodup : candidates.Nodup := List.Nodup.of_map _ hkeys
        rw [heq] at hget
        obtain ⟨hlt, hlget⟩ := List.getElem?_eq_some_iff.mp hget
        obtain ⟨hlt', hlget'⟩ := List.getElem?_eq_some_iff.mp hgetOther
        exact hplace ((hnodup.getElem_inj_iff).mp (hlget.trans hlget'.symm))
      rw [bind_eq (resultOf_eq hkeys (mem_of_getElem? hget) (mem_of_getElem? hgetOther) hne)]
      split
      next hworse =>
        rw [hworse]
        rfl
      next hworse =>
        rw [hrest, decide_eq_true hworse, Bool.true_and]
        rfl

theorem winnersOf_eq {rest : List (CandidateDimensionVector κ × Nat)} (hrest : rest ⊆ candidates.zipIdx) :
    winnersOf ((combinations candidates).map (pairOf dimensions)) candidates.zipIdx rest =
      .ok ((rest.map Prod.fst).filter (unbeaten dimensions candidates)) := by
  induction rest with
  | nil => rfl
  | cons item rest ih =>
    have hitem : item ∈ candidates.zipIdx := hrest mem_cons_self
    have hstays : noWorse ((combinations candidates).map (pairOf dimensions)) item candidates.zipIdx =
        .ok (unbeaten dimensions candidates item.1) := by
      rw [noWorse_eq hkeys hitem (List.Subset.refl _), zipIdx_map_fst]
    rw [winnersOf, bind_eq hstays, bind_eq (ih fun other hother => hrest (mem_cons_of_mem _ hother)), map_cons,
      filter_cons]
    rfl

end

section

variable {κ : Type} {candidates others : List (CandidateDimensionVector κ)} {dimensions : List DimensionKind}
  {c : CandidateDimensionVector κ}

def winners (dimensions : List DimensionKind) (candidates : List (CandidateDimensionVector κ)) :
    List (CandidateDimensionVector κ) := candidates.filter (unbeaten dimensions candidates)

theorem unbeaten_iff : unbeaten dimensions candidates c = true ↔ ∀ other ∈ candidates, ¬ Decided dimensions other c .better := by
  unfold unbeaten
  rw [all_eq_true]
  refine forall₂_congr fun other _ => ?_
  rw [decide_eq_true_iff, beats_iff, outcome_reversed c other, ne_eq, not_iff_not]
  exact reversed_eq_better.symm

theorem mem_winners : c ∈ winners dimensions candidates ↔
    c ∈ candidates ∧ ∀ other ∈ candidates, ¬ Decided dimensions other c .better := by
  rw [winners, mem_filter, unbeaten_iff]

theorem winners_ne_nil (hne : candidates ≠ []) : winners dimensions candidates ≠ [] := by
  have hirrefl : ∀ a : CandidateDimensionVector κ, decide ((outcome a a dimensions).1 = .better) = false :=
    fun a => decide_eq_false (outcome_self a dimensions)
  have htrans : ∀ a b c : CandidateDimensionVector κ, decide ((outcome a b dimensions).1 = .better) = true →
      decide ((outcome b c dimensions).1 = .better) = true → decide ((outcome a c dimensions).1 = .better) = true := by
    intro a b c hab hbc
    rw [decide_eq_true_iff] at hab hbc ⊢
    exact outcome_better_trans hab hbc
  obtain ⟨a, -, hmem, ha⟩ := best_unbeaten hirrefl htrans hne
  refine ne_nil_of_mem (mem_winners.mpr ⟨hmem, fun other hother hdecided => ?_⟩)
  have hnot := ha other hother
  rw [decide_eq_false_iff_not] at hnot
  exact hnot (beats_iff.mp hdecided)

theorem unbeaten_perm (hperm : others.Perm candidates) (c : CandidateDimensionVector κ) :
    unbeaten dimensions others c = unbeaten dimensions candidates c := by
  unfold unbeaten
  rw [Bool.eq_iff_iff, all_eq_true, all_eq_true]
  exact forall_congr' fun other => by rw [hperm.mem_iff]

theorem winners_perm (hperm : others.Perm candidates) :
    (winners dimensions others).Perm (winners dimensions candidates) := by
  have hsame : unbeaten dimensions others = unbeaten dimensions candidates := funext (unbeaten_perm hperm)
  unfold winners
  rw [hsame]
  exact hperm.filter _

def incomparablePairs (dimensions : List DimensionKind) (candidates : List (CandidateDimensionVector κ)) :
    List (IncomparablePair κ) := ((combinations candidates).map (pairOf dimensions)).filterMap PairResult.incomparable

def IncomparablePair.flipped (pair : IncomparablePair κ) : IncomparablePair κ := ⟨pair.right, pair.left, pair.dimension⟩

variable (hkeys : (candidates.map CandidateDimensionVector.candidateKey).Nodup)
include hkeys

theorem incomparablePairs_iff : incomparablePairs dimensions candidates ≠ [] ↔
    ∃ left ∈ candidates, ∃ right ∈ candidates, left ≠ right ∧ Decided dimensions left right .incomparable := by
  have hnodup : candidates.Nodup := List.Nodup.of_map _ hkeys
  unfold incomparablePairs
  rw [exists_incomparablePair_iff]
  constructor
  · rintro ⟨left, right, hmem, h⟩
    obtain ⟨hleft, hright⟩ := mem_of_combinations hmem
    exact ⟨left, hleft, right, hright, ne_of_combinations hnodup hmem, h⟩
  · rintro ⟨left, hleft, right, hright, hne, dimension, h⟩
    rcases combinations_complete hleft hright hne with hmem | hmem
    · exact ⟨left, right, hmem, dimension, h⟩
    · exact ⟨right, left, hmem, dimension, decidedBy_incomparable_symm h⟩

theorem mem_incomparablePairs_perm (hperm : others.Perm candidates) {pair : IncomparablePair κ}
    (h : pair ∈ incomparablePairs dimensions candidates) :
    pair ∈ incomparablePairs dimensions others ∨ pair.flipped ∈ incomparablePairs dimensions others := by
  have hnodup : candidates.Nodup := List.Nodup.of_map _ hkeys
  obtain ⟨left, right, hmem, hdecided, hleft, hright⟩ := mem_incomparablePairs.mp h
  obtain ⟨hleftMem, hrightMem⟩ := mem_of_combinations hmem
  rcases combinations_complete (hperm.mem_iff.mpr hleftMem) (hperm.mem_iff.mpr hrightMem)
    (ne_of_combinations hnodup hmem) with hother | hother
  · exact .inl (mem_incomparablePairs.mpr ⟨left, right, hother, hdecided, hleft, hright⟩)
  · exact .inr (mem_incomparablePairs.mpr
      ⟨right, left, hother, decidedBy_incomparable_symm hdecided, hright, hleft⟩)

/-- Of comparable candidates the only one that is unbeaten beats all the others. -/
theorem beats_of_only_winner (hpairs : incomparablePairs dimensions candidates = [])
    {winner other : CandidateDimensionVector κ} (hwinner : winner ∈ candidates) (hother : other ∈ candidates)
    (hne : other ≠ winner) (honly : ∀ c ∈ winners dimensions candidates, c = winner) :
    Decided dimensions winner other .better := by
  have hbeaten : other ∉ winners dimensions candidates := fun hmem => hne (honly other hmem)
  have hwins : winner ∈ winners dimensions candidates := by
    obtain ⟨c, hc⟩ := exists_mem_of_ne_nil _ (winners_ne_nil (ne_nil_of_mem hwinner))
    rwa [honly c hc] at hc
  rw [beats_iff]
  cases hresult : (outcome winner other dimensions).1 with
  | better => rfl
  | worse =>
    refine absurd ?_ ((mem_winners.mp hwins).2 other hother)
    rw [beats_iff, outcome_reversed, hresult]
    rfl
  | equal =>
    -- whatever beats the other one would beat the winner
    refine absurd (mem_winners.mpr ⟨hother, fun third hthird hbeats => ?_⟩) hbeaten
    refine (mem_winners.mp hwins).2 third hthird ?_
    rw [beats_iff, outcome_reversed] at hbeats ⊢
    rwa [outcome_congr hresult]
  | incomparable =>
    have hdecided : Decided dimensions winner other .incomparable := incomparable_iff.mpr hresult
    exact absurd hpairs ((incomparablePairs_iff hkeys).mpr ⟨winner, hwinner, other, hother, hne.symm, hdecided⟩)

end

section

variable {κ : Type} [LinearOrder κ] {candidates others : List (CandidateDimensionVector κ)} {role : RoleKind}
  {dimensions : List DimensionKind}

/-- Selections that differ at most in how they list the incomparable pairs. -/
structure Alike (selection again : RoleSelection κ) : Prop where
  role : selection.role = again.role
  status : selection.status = again.status
  candidateKey : selection.candidateKey = again.candidateKey
  dimensions : selection.dimensions = again.dimensions
  tradeoff : selection.tradeoff = again.tradeoff
  pairs : ∀ pair ∈ selection.incomparablePairs,
    pair ∈ again.incomparablePairs ∨ pair.flipped ∈ again.incomparablePairs
  pairsBack : ∀ pair ∈ again.incomparablePairs,
    pair ∈ selection.incomparablePairs ∨ pair.flipped ∈ selection.incomparablePairs

theorem before_irrefl (a : CandidateDimensionVector κ) : before a a = false := decide_eq_false (lt_irrefl a.candidateKey)

theorem before_trans (a b c : CandidateDimensionVector κ) (hab : before a b = true) (hbc : before b c = true) :
    before a c = true := by
  unfold before at hab hbc ⊢
  rw [decide_eq_true_iff] at hab hbc ⊢
  exact hab.trans hbc

theorem selectRole_incomparable (hne : candidates ≠ []) (h : incomparablePairs (roleDimensions role) candidates ≠ []) :
    selectRole role candidates = .ok ⟨role, .unrankedIncomparable, none, roleDimensions role,
      incomparablePairs (roleDimensions role) candidates,
      role.value ++ ": unranked because required comparisons are incomparable"⟩ := by
  unfold selectRole
  rw [if_neg hne, bind_eq (mapM_comparePair _ _)]
  exact if_pos h

variable (hkeys : (candidates.map CandidateDimensionVector.candidateKey).Nodup)
include hkeys

theorem selectRole_comparable (hne : candidates ≠ []) (h : incomparablePairs (roleDimensions role) candidates = []) :
    ∃ selected, best before (winners (roleDimensions role) candidates) = some selected ∧
      KeepBest.Unbeaten before (winners (roleDimensions role) candidates) selected ∧
      selectRole role candidates =
        if 1 < (winners (roleDimensions role) candidates).length ∨ candidates.length = 1 then
          .ok ⟨role, .equalIdentityTiebreak, some selected.candidateKey, roleDimensions role, [],
            role.value ++ ": equal values; canonical identity is presentation-only"⟩
        else
          .ok ⟨role, .provedWinner, some selected.candidateKey, roleDimensions role, [],
            role.value ++ ": proved comparable-better than every contender"⟩ := by
  have hsome : winners (roleDimensions role) candidates ≠ [] := winners_ne_nil hne
  obtain ⟨selected, hbest, hselected⟩ := best_unbeaten before_irrefl before_trans hsome
  refine ⟨selected, hbest, hselected, ?_⟩
  have hwinners : winnersOf ((combinations candidates).map (pairOf (roleDimensions role))) candidates.zipIdx
      candidates.zipIdx = .ok (winners (roleDimensions role) candidates) := by
    rw [winnersOf_eq hkeys (List.Subset.refl _), zipIdx_map_fst]
    rfl
  unfold selectRole
  rw [if_neg hne, bind_eq (mapM_comparePair _ _)]
  refine (if_neg (not_not.mpr h)).trans ?_
  rw [bind_eq hwinners, hbest]
  rfl

theorem best_winners_perm (hperm : others.Perm candidates) :
    best before (winners dimensions others) = best before (winners dimensions candidates) := by
  refine (best_perm_iff before_irrefl before_trans).mpr ?_ _ (winners_perm hperm)
  intro a b ha hb
  have hab := ha.2 b hb.1
  have hba := hb.2 a ha.1
  unfold before at hab hba
  rw [decide_eq_false_iff_not, not_lt] at hab hba
  exact key_injective hkeys (mem_winners.mp ha.1).1 (mem_winners.mp hb.1).1 (le_antisymm hab hba)

theorem selectRole_alike (hperm : others.Perm candidates) :
    ∃ selection again, selectRole role candidates = .ok selection ∧ selectRole role others = .ok again ∧
      Alike selection again := by
  have hotherKeys : (others.map CandidateDimensionVector.candidateKey).Nodup := (hperm.map _).nodup_iff.mpr hkeys
  by_cases hne : candidates = []
  · subst hne
    rw [hperm.eq_nil]
    exact ⟨_, _, rfl, rfl, rfl, rfl, rfl, rfl, rfl, fun pair h => .inl h, fun pair h => .inl h⟩
  · have hotherNe : others ≠ [] := fun h => hne ((h ▸ hperm).nil_eq.symm)
    by_cases hpairs : incomparablePairs (roleDimensions role) candidates = []
    · have hotherPairs : incomparablePairs (roleDimensions role) others = [] := by
        by_contra hnot
        obtain ⟨left, hleft, right, hright, hrest⟩ := (incomparablePairs_iff hotherKeys).mp hnot
        exact (incomparablePairs_iff hkeys).mpr
          ⟨left, hperm.mem_iff.mp hleft, right, hperm.mem_iff.mp hright, hrest⟩ hpairs
      obtain ⟨selected, hbest, -, hselect⟩ := selectRole_comparable hkeys hne hpairs
      obtain ⟨selected', hbest', -, hselect'⟩ := selectRole_comparable hotherKeys hotherNe hotherPairs
      rw [best_winners_perm hkeys hperm, hbest] at hbest'
      cases hbest'
      rw [(winners_perm hperm).length_eq, hperm.length_eq] at hselect'
      rw [hselect, hselect']
      split
      next => exact ⟨_, _, rfl, rfl, rfl, rfl, rfl, rfl, rfl, fun pair h => .inl h, fun pair h => .inl h⟩
      next => exact ⟨_, _, rfl, rfl, rfl, rfl, rfl, rfl, rfl, fun pair h => .inl h, fun pair h => .inl h⟩
    · have hotherPairs : incomparablePairs (roleDimensions role) others ≠ [] := by
        obtain ⟨left, hleft, right, hright, hrest⟩ := (incomparablePairs_iff hkeys).mp hpairs
        exact (incomparablePairs_iff hotherKeys).mpr
          ⟨left, hperm.mem_iff.mpr hleft, right, hperm.mem_iff.mpr hright, hrest⟩
      exact ⟨_, _, selectRole_incomparable hne hpairs, selectRole_incomparable hotherNe hotherPairs, rfl, rfl, rfl, rfl, rfl,
        fun pair h => mem_incomparablePairs_perm hkeys hperm h,
        fun pair h => mem_incomparablePairs_perm hotherKeys hperm.symm h⟩

theorem selectRole_status_iff {selection : RoleSelection κ} (h : selectRole role candidates = .ok selection) :
    selection.status = .unrankedIncomparable ↔ ∃ left ∈ candidates, ∃ right ∈ candidates, left ≠ right ∧
      Decided (roleDimensions role) left right .incomparable := by
  rw [← incomparablePairs_iff hkeys]
  by_cases hne : candidates = []
  · subst hne
    cases h
    exact ⟨nofun, fun hpairs => absurd rfl hpairs⟩
  · by_cases hpairs : incomparablePairs (roleDimensions role) candidates = []
    · obtain ⟨selected, -, -, hselect⟩ := selectRole_comparable hkeys hne hpairs
      rw [hselect] at h
      refine ⟨fun hstatus => ?_, fun hnot => absurd hpairs hnot⟩
      split at h
      next =>
        cases h
        cases hstatus
      next =>
        cases h
        cases hstatus
    · rw [selectRole_incomparable hne hpairs] at h
      cases h
      exact ⟨fun _ => hpairs, fun _ => rfl⟩

theorem selectRole_selected {selection : RoleSelection κ} (h : selectRole role candidates = .ok selection)
    (hstatus : selection.status = .provedWinner ∨ selection.status = .equalIdentityTiebreak) :
    ∃ selected, incomparablePairs (roleDimensions role) candidates = [] ∧
      KeepBest.Unbeaten before (winners (roleDimensions role) candidates) selected ∧
      selection.candidateKey = some selected.candidateKey ∧
      (selection.status = .provedWinner → (winners (roleDimensions role) candidates).length ≤ 1) := by
  by_cases hne : candidates = []
  · subst hne
    cases h
    rcases hstatus with hstatus | hstatus <;> cases hstatus
  by_cases hpairs : incomparablePairs (roleDimensions role) candidates = []
  · obtain ⟨selected, -, hselected, hselect⟩ := selectRole_comparable hkeys hne hpairs
    rw [hselect] at h
    split at h
    next =>
      cases h
      exact ⟨selected, hpairs, hselected, rfl, nofun⟩
    next hone =>
      cases h
      exact ⟨selected, hpairs, hselected, rfl, fun _ => by omega⟩
  · rw [selectRole_incomparable hne hpairs] at h
    cases h
    rcases hstatus with hstatus | hstatus <;> cases hstatus

/-- A role is filled by a maximum that is there: it fails on no candidates, it is open exactly where a pair is
incomparable, a proved winner beats all the others, and a tie goes to the smallest key of those that none beats. In another
order of the candidates only the list of the incomparable pairs can change, and only in its order and in which of the two
comes first. -/
theorem selectRole_chosen (role : RoleKind) : ∃ selection, selectRole role candidates = .ok selection ∧
    (selection.status = .unrankedIncomparable ↔ ∃ left ∈ candidates, ∃ right ∈ candidates, left ≠ right ∧
      Decided (roleDimensions role) left right .incomparable) ∧
    (selection.status = .provedWinner → ∃ winner ∈ candidates, selection.candidateKey = some winner.candidateKey ∧
      ∀ other ∈ candidates, other ≠ winner → Decided (roleDimensions role) winner other .better) ∧
    (selection.status = .equalIdentityTiebreak → ∃ winner ∈ candidates,
      selection.candidateKey = some winner.candidateKey ∧
      (∀ other ∈ candidates, ¬ Decided (roleDimensions role) other winner .better) ∧
      ∀ tied ∈ candidates, (∀ other ∈ candidates, ¬ Decided (roleDimensions role) other tied .better) →
        winner.candidateKey ≤ tied.candidateKey) ∧
    ∀ others : List (CandidateDimensionVector κ), others.Perm candidates →
      ∃ again, selectRole role others = .ok again ∧ Alike selection again := by
  obtain ⟨selection, -, hselection, -⟩ := selectRole_alike hkeys (List.Perm.refl candidates)
  refine ⟨selection, hselection, selectRole_status_iff hkeys hselection, ?_, ?_, ?_⟩
  · intro hstatus
    obtain ⟨selected, hpairs, hselected, hkey, hone⟩ := selectRole_selected hkeys hselection (.inl hstatus)
    have hmem := (mem_winners.mp hselected.1).1
    refine ⟨selected, hmem, hkey, fun other hother hdifferent => ?_⟩
    refine beats_of_only_winner hkeys hpairs hmem hother hdifferent fun c hc => ?_
    obtain ⟨only, hwinners⟩ := length_eq_one_iff.mp (le_antisymm (hone hstatus) (length_pos_of_mem hc))
    have hmemSelected := hselected.1
    rw [hwinners, mem_singleton] at hc hmemSelected
    rw [hc, hmemSelected]
  · intro hstatus
    obtain ⟨selected, -, hselected, hkey, -⟩ := selectRole_selected hkeys hselection (.inr hstatus)
    obtain ⟨hmem, hunbeaten⟩ := mem_winners.mp hselected.1
    refine ⟨selected, hmem, hkey, hunbeaten, fun tied htied hfree => ?_⟩
    have hbefore := hselected.2 tied (mem_winners.mpr ⟨htied, hfree⟩)
    unfold before at hbefore
    rw [decide_eq_false_iff_not] at hbefore
    exact not_lt.mp hbefore
  · intro others hperm
    obtain ⟨selection', again, hselection', hagain, halike⟩ := selectRole_alike hkeys hperm
    rw [hselection] at hselection'
    cases hselection'
    exact ⟨again, hagain, halike⟩

end

/-- A candidate of which nothing is known. -/
def unassessed (key : Nat) : CandidateDimensionVector Nat where
  candidateKey := key
  dimensions := DimensionKind.all.map fun kind => ⟨kind, .unknown, none, by decide, nofun⟩
  canonical := by decide

theorem selectRole_chosen_unassessed : ∃ selection, selectRole .directFit [unassessed 1, unassessed 2] = .ok selection ∧
    selection.status = .unrankedIncomparable := by
  have hkeys : ([unassessed 1, unassessed 2].map CandidateDimensionVector.candidateKey).Nodup := by decide
  obtain ⟨selection, hselection, hstatus, -⟩ := selectRole_chosen hkeys .directFit
  refine ⟨selection, hselection, hstatus.mpr ⟨unassessed 1, mem_cons_self, unassessed 2, ?_, ?_, ?_⟩⟩
  · exact mem_cons_of_mem _ mem_cons_self
  · intro heq
    cases congrArg CandidateDimensionVector.candidateKey heq
  · exact incomparable_iff.mpr (by decide)

/-- The pair is listed as it comes. -/
theorem selectRole_order : [unassessed 2, unassessed 1].Perm [unassessed 1, unassessed 2] ∧
    ([unassessed 1, unassessed 2].map CandidateDimensionVector.candidateKey).Nodup ∧
    selectRole .directFit [unassessed 2, unassessed 1] ≠ selectRole .directFit [unassessed 1, unassessed 2] := by
  refine ⟨List.Perm.swap _ _ _, by decide, by decide⟩

end Leitir.Compare
