import Leitir.DecimalRound
import Leitir.ExceptRun

namespace Leitir.Score

open DecimalRound ExceptRun

inductive ScoreError
  | score | weight | denominator | precision | noValues | noScore | aggregate (message : String)
  | duplicateEvidence | dirtyRelease | duplicateResults | unknownChecks | missingArtifacts
  | notApplicable (message : String)
deriving DecidableEq

def maximum : Nat := 10000

/-- Scores with their weights. -/
abbrev Values := List (Nat × Nat)

def Values.total (values : Values) : Nat := (values.map fun value => value.1 * value.2).sum

def Values.weight (values : Values) : Nat := (values.map Prod.snd).sum

structure ScoreAggregate where
  scoreBps : Option Nat
  observedScoreBps : Option Nat
  lowerBoundBps : Option Nat
  upperBoundBps : Option Nat
  includedWeight : Nat
  eligibleWeight : Nat
deriving DecidableEq

def ScoreAggregate.scores (item : ScoreAggregate) : List (Option Nat) :=
  [item.scoreBps, item.observedScoreBps, item.lowerBoundBps, item.upperBoundBps]

/-- A score that has to be there. -/
def intOf : Option Nat → Except ScoreError Nat
  | some score => .ok score
  | none => .error .noScore

inductive CheckStatus
  | pass | fail | unknown | error | notApplicable | skipped
deriving DecidableEq, Repr

def CheckStatus.known (status : CheckStatus) : Bool := status = .pass || status = .fail

/-- A submitted result: a pass and a fail have a score, no other status has one. -/
structure CheckResult where
  id : String
  status : CheckStatus
  scoreBps : Option Nat
  evidence : List (String × String)
  scored : if status.known then scoreBps.any (· ≤ maximum) else scoreBps = none

structure CheckPolicy where
  id : String
  dimension : String
  weight : Nat
  scoreEligible : Bool
  applicability : Option String
  weighted : 0 < weight

structure DimensionPolicy where
  id : String
  weight : Nat
  weighted : 0 < weight

/-- A result with what the policy says of its check. -/
structure AssessedCheck where
  policy : CheckPolicy
  result : CheckResult
  missing : Bool

def AssessedCheck.eligible (item : AssessedCheck) : Bool := item.policy.scoreEligible && item.result.status ≠ .notApplicable

abbrev DimensionAssessment := DimensionPolicy × ScoreAggregate

def missingResult (id : String) : CheckResult := ⟨id, .unknown, none, [], by decide⟩

def assess (results : List CheckResult) (check : CheckPolicy) : Except ScoreError AssessedCheck :=
  let submitted := results.find? fun result => result.id = check.id
  let result := submitted.getD (missingResult check.id)
  if result.status = .notApplicable ∧ check.applicability = none then
    .error (.notApplicable "cannot be not_applicable without a policy rule")
  else if result.status = .notApplicable ∧ result.evidence = [] then
    .error (.notApplicable "cannot be not_applicable without evidence")
  else .ok ⟨check, result, submitted.isNone⟩

end Leitir.Score
