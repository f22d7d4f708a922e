import Leitir.KeepBest
import Leitir.IndexedSearch

namespace Leitir.IndexRank

open Search (SourceRef SourceMatch PredicateKind MatchMethod sourceIdentity chars)

section

variable {R : Type}

/-- A score: a number, or one of the values that are not numbers, each of which equals itself alone and has no order. -/
inductive Score (R : Type)
  | number (value : R)
  | nan (object : Nat)
deriving DecidableEq

/-- A match with any score. -/
structure ScoredMatch (R : Type) where
  source : SourceRef
  score : Score R
  matchedKinds : List PredicateKind
  method : MatchMethod
deriving DecidableEq

def Score.above [LinearOrder R] : Score R → Score R → Bool
  | .number a, .number b => b < a
  | _, _ => false

def kindValues (kinds : List PredicateKind) : KeyedList.Key := kinds.map fun kind => chars kind.value

def outranks [LinearOrder R] (found current : ScoredMatch R) : Bool :=
  if found.score = current.score then kindValues current.matchedKinds < kindValues found.matchedKinds
  else found.score.above current.score

def dedupeSourceMatches [LinearOrder R] (matches_ : List (ScoredMatch R)) : List (ScoredMatch R) :=
  KeepBest.dedupe outranks (fun found => sourceIdentity found.source) matches_

end

section

variable {R : Type} [LinearOrder R]

theorem outranks_irrefl (a : ScoredMatch R) : outranks a a = false := by
  unfold outranks
  rw [if_pos rfl]
  exact decide_eq_false (lt_irrefl _)

theorem above_trans {a b c : Score R} (hab : a.above b = true) (hbc : b.above c = true) : a.above c = true := by
  cases a with
  | nan => cases hab
  | number x =>
    cases b with
    | nan => cases hbc
    | number y =>
      cases c with
      | nan => cases hbc
      | number z =>
        have hxy : y < x := of_decide_eq_true hab
        have hyz : z < y := of_decide_eq_true hbc
        exact decide_eq_true (hyz.trans hxy)

theorem above_irrefl (a : Score R) : a.above a = false := by
  cases a with
  | nan => rfl
  | number x => exact decide_eq_false (lt_irrefl x)

theorem outranks_trans (a b c : ScoredMatch R) (hab : outranks a b = true) (hbc : outranks b c = true) :
    outranks a c = true := by
  unfold outranks at hab hbc ⊢
  split at hab
  next heq =>
    split at hbc
    next heq' =>
      rw [if_pos (heq.trans heq')]
      exact decide_eq_true ((of_decide_eq_true hbc).trans (of_decide_eq_true hab))
    next hne =>
      rw [if_neg (by rwa [heq]), heq]
      exact hbc
  next hne =>
    split at hbc
    next heq' =>
      rw [if_neg (by rwa [← heq']), ← heq']
      exact hab
    next hne' =>
      have habove := above_trans hab hbc
      rw [if_neg ?_]
      · exact habove
      · intro hac
        rw [hac, above_irrefl] at habove
        cases habove

def Outstanding (matches_ : List (ScoredMatch R)) (found : ScoredMatch R) : Prop :=
  found ∈ matches_ ∧ ∀ other ∈ matches_, other.source = found.source → outranks other found = false

theorem sourceIdentity_injective {a b : SourceRef} (h : sourceIdentity a = sourceIdentity b) : a = b := by
  simp only [sourceIdentity, List.cons.injEq, and_true] at h
  obtain ⟨hslug, hcommit, hpath, hblob, hstart, hend⟩ := h
  cases a
  cases b
  simp_all

theorem outstanding_iff {matches_ : List (ScoredMatch R)} {k : KeyedList.Key} {found : ScoredMatch R} :
    KeepBest.Unbeaten outranks (KeepBest.group (fun found => sourceIdentity found.source) matches_ k) found ↔
      sourceIdentity found.source = k ∧ Outstanding matches_ found := by
  unfold KeepBest.Unbeaten KeepBest.group Outstanding
  simp only [List.mem_filter, decide_eq_true_eq]
  constructor
  · rintro ⟨⟨hmem, hkey⟩, hnone⟩
    refine ⟨hkey, hmem, ?_⟩
    intro other hother hsource
    exact hnone other ⟨hother, by rw [hsource, hkey]⟩
  · rintro ⟨hkey, hmem, hnone⟩
    refine ⟨⟨hmem, hkey⟩, ?_⟩
    rintro other ⟨hother, hsame⟩
    exact hnone other hother (sourceIdentity_injective (hsame.trans hkey.symm))

/-- The merged matches do not depend on the order of the input if and only if the matches for a source that no other
match for it outranks are the same. -/
theorem dedupeSourceMatches_perm_iff (matches_ : List (ScoredMatch R)) :
    (∀ other : List (ScoredMatch R), other.Perm matches_ → dedupeSourceMatches other = dedupeSourceMatches matches_) ↔
      ∀ a b, Outstanding matches_ a → Outstanding matches_ b → a.source = b.source → a = b := by
  refine (KeepBest.dedupe_perm_iff outranks_irrefl outranks_trans).trans ?_
  simp only [outstanding_iff]
  constructor
  · intro hone a b ha hb hsource
    exact hone (sourceIdentity b.source) a b ⟨by rw [hsource], ha⟩ ⟨rfl, hb⟩
  · rintro hone k a b ⟨hkey, ha⟩ ⟨hkey', hb⟩
    exact hone a b ha hb (sourceIdentity_injective (hkey.trans hkey'.symm))

end

def sampleMatch (method : MatchMethod) : ScoredMatch Int where
  source := ⟨[1], [2], [3], [4], 1, 1⟩
  score := .number 1
  matchedKinds := [.identifier]
  method := method

/-- Two matches that differ in their method alone: the first one is kept. -/
theorem dedupeSourceMatches_method : ∃ matches_ other : List (ScoredMatch Int), other.Perm matches_ ∧
    dedupeSourceMatches other ≠ dedupeSourceMatches matches_ :=
  ⟨[sampleMatch .ast, sampleMatch .heuristic], [sampleMatch .heuristic, sampleMatch .ast], by decide, by decide⟩

end Leitir.IndexRank
