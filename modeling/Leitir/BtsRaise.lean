import Leitir.BtsBudget

namespace Leitir.Bts

open KeyedList

/-- Every limit of the first budget is at most that of the second. -/
structure Budget.Le (b b' : Budget) : Prop where
  maxInputBytes : b.maxInputBytes ≤ b'.maxInputBytes
  maxFileBytes : b.maxFileBytes ≤ b'.maxFileBytes
  maxAstNodesPerFile : b.maxAstNodesPerFile ≤ b'.maxAstNodesPerFile
  maxFiles : b.maxFiles ≤ b'.maxFiles
  maxEdges : b.maxEdges ≤ b'.maxEdges
  maxNodes : b.maxNodes ≤ b'.maxNodes
  maxQueueEntries : b.maxQueueEntries ≤ b'.maxQueueEntries
  maxDepth : b.maxDepth ≤ b'.maxDepth
  maxWorkUnits : b.maxWorkUnits ≤ b'.maxWorkUnits
  maxSymbols : b.maxSymbols ≤ b'.maxSymbols
  maxSourceLines : b.maxSourceLines ≤ b'.maxSourceLines
  maxExternalInterfaces : b.maxExternalInterfaces ≤ b'.maxExternalInterfaces
  maxConfigEntries : b.maxConfigEntries ≤ b'.maxConfigEntries
  maxDonorSourceBps : b.maxDonorSourceBps ≤ b'.maxDonorSourceBps

def Inputs.raise (inp : Inputs) (budget : Budget) : Inputs := { inp with budget := budget }

variable {inp : Inputs} {budget : Budget} {w v : Walk} {item : QueueItem} {depth : Nat} {edge : Edge}
  {es : List Edge}

section

theorem overBudget_raise (hle : inp.budget.Le budget) {members : List MemberEvidence}
    (h : overBudget (inp.raise budget) members) : overBudget inp members := by
  have hmul := Nat.mul_le_mul_left (totalDonorLines inp.graph) hle.maxDonorSourceBps
  rcases h with h | h | h | h | h | h
  · exact Or.inl (lt_of_le_of_lt hle.maxNodes h)
  · exact Or.inr (Or.inl (lt_of_le_of_lt hle.maxSymbols h))
  · exact Or.inr (Or.inr (Or.inl (lt_of_le_of_lt hle.maxFiles h)))
  · exact Or.inr (Or.inr (Or.inr (Or.inl (lt_of_le_of_lt hle.maxSourceLines h))))
  · exact Or.inr (Or.inr (Or.inr (Or.inr (Or.inl h))))
  · exact Or.inr (Or.inr (Or.inr (Or.inr (Or.inr (lt_of_le_of_lt hmul h)))))

theorem exhausts_raise (hle : inp.budget.Le budget) (h : Exhausts (inp.raise budget) depth w edge) :
    Exhausts inp depth w edge := by
  rcases h with h | h | h | ⟨hincl, h | h⟩
  · exact Or.inl (lt_of_le_of_lt hle.maxWorkUnits h)
  · exact Or.inr (Or.inl (lt_of_le_of_lt hle.maxEdges h))
  · exact Or.inr (Or.inr (Or.inl (lt_of_le_of_lt hle.maxExternalInterfaces h)))
  · exact Or.inr (Or.inr (Or.inr ⟨hincl, Or.inl (lt_of_le_of_lt hle.maxDepth h)⟩))
  · exact Or.inr (Or.inr (Or.inr ⟨hincl, Or.inr (lt_of_le_of_lt hle.maxQueueEntries h)⟩))

variable {entry : FrontierEvidence}

theorem carryOwners_raise (hle : inp.budget.Le budget) (ids owners : List NodeId)
    (h : (carryOwners inp entry ids owners w).2.budgetHit = false) :
    carryOwners (inp.raise budget) entry ids owners w = carryOwners inp entry ids owners w := by
  induction ids generalizing owners w with
  | nil => rfl
  | cons nested rest ih =>
    unfold carryOwners at h ⊢
    dsimp only at h ⊢
    by_cases hwork : w.workUnits + 1 > inp.budget.maxWorkUnits
    · rw [if_pos hwork] at h
      cases h
    · have hwork' : ¬ w.workUnits + 1 > (inp.raise budget).budget.maxWorkUnits :=
        fun hover => hwork (lt_of_le_of_lt hle.maxWorkUnits hover)
      rw [if_neg hwork] at h ⊢
      rw [if_neg hwork']
      split at h
      next => exact ih _ h
      next previous hlookup =>
        by_cases hlt : entry.depth < previous
        · rw [if_pos hlt] at h ⊢
          rw [if_pos hlt]
          exact ih _ h
        · rw [if_neg hlt] at h ⊢
          rw [if_neg hlt]
          exact ih _ h

end

section

variable {entry : FrontierEvidence}

variable (inp) in
/-- An edge that adds a blocker: it is rejected, or it is followed and one of its imports is rejected. -/
def Blocks (depth : Nat) (w : Walk) (edge : Edge) : Prop :=
  Rejected inp edge ∨ ¬ Exhausts inp depth w edge ∧ refusals inp (supports inp edge) ≠ []

end

theorem Blocks.raise (hle : inp.budget.Le budget) (h : Blocks inp depth w edge) :
    Blocks (inp.raise budget) depth w edge :=
  h.imp id fun hroom => ⟨fun hex => hroom.1 (exhausts_raise hle hex), hroom.2⟩

variable (inp) in
/-- The walk of the whole run, before the proposals that are left go to the frontier. -/
def lastWalk : Walk := walkLoop inp (inp.budget.maxWorkUnits + 1) (initialWalk inp)

theorem Opens.raise (hle : inp.budget.Le budget) {candidate : MemberEvidence} {owners : List NodeId}
    (h : Opens inp item w candidate owners v) : Opens (inp.raise budget) item w candidate owners v := by
  have hlive : (carryOwners inp (w.arrival item) (sortBy nestedKey (nestedOwners inp.graph item.node)) [item.node]
      (joined inp item candidate w)).2.budgetHit = false := by
    rw [← h.state]
    exact h.live
  refine ⟨h.work.trans hle.maxWorkUnits, h.fresh, h.node, h.included, h.source, h.verified,
    fun hover => h.room (overBudget_raise hle hover), ?_, h.live⟩
  exact (carryOwners_raise hle _ _ hlive).trans h.carry

end Leitir.Bts
