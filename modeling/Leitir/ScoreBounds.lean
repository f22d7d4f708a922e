import Leitir.ScoreEngine

namespace Leitir.Score

open DecimalRound ExceptRun List

section

/-- The exact mean of scores, rounded half up. -/
def mean (total weight : Nat) : Nat := (halfUp (total / weight)).toNat

variable {t w t' w' : Nat}

end

section

/-- What is known of a score: what was observed, and the bounds. -/
structure Spread where
  observed : Option Nat
  lower : Nat
  upper : Nat
  weight : Nat

def observedValues (items : List Spread) : Values :=
  items.filterMap fun item => item.observed.map fun score => (score, item.weight)

def lowerValues (items : List Spread) : Values := items.map fun item => (item.lower, item.weight)

def upperValues (items : List Spread) : Values := items.map fun item => (item.upper, item.weight)

variable {items : List Spread}

def observedMean (items : List Spread) : Option Nat :=
  if (observedValues items).isEmpty then none else some (mean (observedValues items).total (observedValues items).weight)

/-- The aggregate of spreads; an exact score is given for those that are complete. -/
def summary (items : List Spread) (complete : Bool) : ScoreAggregate :=
  if (lowerValues items).weight = 0 then ⟨none, none, none, none, 0, 0⟩
  else ⟨if complete then observedMean items else none, observedMean items,
    some (mean (lowerValues items).total (lowerValues items).weight),
    some (mean (upperValues items).total (lowerValues items).weight), (observedValues items).weight, (lowerValues items).weight⟩

/-- An aggregate whose bounds hold what it has observed. -/
structure Sound (item : ScoreAggregate) : Prop where
  bounds : 0 < item.eligibleWeight → ∃ lower ∈ item.lowerBoundBps, ∃ upper ∈ item.upperBoundBps, lower ≤ upper ∧
    upper ≤ maximum ∧ (∀ score ∈ item.observedScoreBps, lower ≤ score ∧ score ≤ upper) ∧
    (item.observedScoreBps = none → lower = 0 ∧ upper = maximum)
  exact_ : ∀ score ∈ item.scoreBps, item.observedScoreBps = some score

/-- Where an aggregate is eligible, another has an exact score between its bounds. -/
def Within (item full : ScoreAggregate) : Prop :=
  if 0 < item.eligibleWeight then ∃ lower ∈ item.lowerBoundBps, ∃ upper ∈ item.upperBoundBps, ∃ score,
    full.scoreBps = some score ∧ full.observedScoreBps = some score ∧ lower ≤ score ∧ score ≤ upper
  else full.scoreBps = none ∧ full.observedScoreBps = none

end

section

variable {dimensions : List DimensionAssessment}

end

section

def resultOf (results : List CheckResult) (check : CheckPolicy) : CheckResult :=
  (results.find? fun result => result.id = check.id).getD (missingResult check.id)

variable {policy : Policy} {results filled : List CheckResult} {dirty : Bool} {evidence : List String}

variable {item full : AssessedCheck} {checks : List AssessedCheck}

end

end Leitir.Score
