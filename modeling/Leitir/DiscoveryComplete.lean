import Leitir.DiscoveryAccepts
import Mathlib.Data.List.ReduceOption

namespace Leitir.Discovery

open Search ExceptRun List

section

variable {searcher : GlobalSearcher} {world : World} {required : Option Text} {query : Text}

end

section

variable {hits : List CodeSearchHit}

end

section

variable {searcher : GlobalSearcher} {world : World} {spec : SearchSpec} {required : Option Text}

/-- Each attempt is on a file that is read, on one that fails, or on neither. -/
theorem walkGroup_attempts {attempts index : Nat} {group : List CodeSearchHit} (hle : attempts ≤ searcher.maxResults) :
    (walkGroup searcher world spec required attempts index group).attempts ≤ searcher.maxResults ∧
      attempts + (walkGroup searcher world spec required attempts index group).reading.toList.length +
        (walkGroup searcher world spec required attempts index group).failed.toNat ≤
          (walkGroup searcher world spec required attempts index group).attempts := by
  induction group generalizing attempts index with
  | nil => exact ⟨hle, Nat.le_refl _⟩
  | cons hit rest ih =>
    rw [walkGroup]
    split
    next => exact ⟨hle, Nat.le_refl _⟩
    next hgo =>
      have hnext : attempts + 1 ≤ searcher.maxResults := Nat.lt_of_not_le hgo
      dsimp only
      split
      next => exact ⟨hnext, Nat.le_refl _⟩
      next reason _ =>
        have hone := Bool.toNat_le (([reason].any (· ∈ verificationReasons)) || false)
        refine ⟨hnext, ?_⟩
        change attempts + 0 + _ ≤ attempts + 1
        exact Nat.add_le_add_left hone attempts
      next reason _ =>
        obtain ⟨hbound, hcount⟩ := @ih (attempts + 1) (index + 1) hnext
        refine ⟨hbound, ?_⟩
        simp only [Walk.after]
        have hone : ∀ a b : Bool, (a || b).toNat ≤ 1 + b.toNat := by decide
        have hown := hone ([reason].any (· ∈ verificationReasons))
          (walkGroup searcher world spec required (attempts + 1) (index + 1) rest).failed
        omega

end

section

variable {searcher : GlobalSearcher} {world : World} {spec : SearchSpec} {required : Option Text}

/-- Files that were read and, if one failed, that one are no more than the attempts, and these are within the bound. -/
def Progress.Counted (progress : Progress) (searcher : GlobalSearcher) : Prop :=
  progress.verified.length + progress.failed.toNat ≤ progress.attempts ∧ progress.attempts ≤ searcher.maxResults

theorem Progress.Counted.walked {progress : Progress} (h : progress.Counted searcher) (group : List CodeSearchHit) :
    progress.verified.length +
        (walkGroup searcher world spec required progress.attempts 0 group).reading.toList.length +
        (progress.walked (walkGroup searcher world spec required progress.attempts 0 group)).failed.toNat ≤
      (walkGroup searcher world spec required progress.attempts 0 group).attempts ∧
    (walkGroup searcher world spec required progress.attempts 0 group).attempts ≤ searcher.maxResults := by
  obtain ⟨hbound, hcount⟩ := @walkGroup_attempts searcher world spec required progress.attempts 0 group h.2
  refine ⟨?_, hbound⟩
  have hone : ∀ a b : Bool, (a || b).toNat ≤ a.toNat + b.toNat := by decide
  have hown := hone progress.failed (walkGroup searcher world spec required progress.attempts 0 group).failed
  have hfirst := h.1
  simp only [Progress.walked]
  omega

variable {progress final : Progress} {groups : List (List CodeSearchHit)}

end

section

variable {searcher : GlobalSearcher} {world : World} {spec : SearchSpec} {required : Option Text} {query : Text}

/-- A hit that the service lists within the number of results that it announces. -/
def Listed (world : World) (query : Text) (perPage : Nat) (hit : CodeSearchHit) : Prop :=
  ∃ number payload index, 1 ≤ number ∧ world.search query number = some payload ∧
    (payload.items[index]?).map Item.hit = some (.ok (some hit)) ∧
    ((number - 1) * perPage + index : Nat) < announced world query

end

end Leitir.Discovery
