import Mathlib.Data.Char
import Mathlib.Data.List.Lex
import Mathlib.Data.List.Pairwise
import Mathlib.Data.List.Sort
import Mathlib.Data.Sum.Order
import Leitir.LawfulLists

namespace TupleOrder

open List

/-- A part of a tuple. -/
inductive Part
  | int (value : Int)
  | text (value : List Char)
deriving DecidableEq

instance (priority := high) lawfulParts : LawfulBEq (List Part) := inferInstance

def Part.tagged : Part → Int ⊕ₗ List Char
  | .int value => toLex (.inl value)
  | .text value => toLex (.inr value)

theorem Part.tagged_injective : Function.Injective Part.tagged := by
  intro a b h
  cases a with
  | int x =>
    cases b with
    | int y => exact congrArg Part.int (Sum.inl.inj (toLex.injective h))
    | text y => cases toLex.injective h
  | text x =>
    cases b with
    | int y => cases toLex.injective h
    | text y => exact congrArg Part.text (Sum.inr.inj (toLex.injective h))

instance : LinearOrder Part := LinearOrder.lift' Part.tagged Part.tagged_injective

abbrev Tuple := List Part

def Part.alike : Part → Part → Bool
  | .int _, .int _ => true
  | .text _, .text _ => true
  | _, _ => false

section

variable {α : Type} [DecidableEq α] {r : α → α → Bool}

def comparable (r : α → α → Bool) : List α → List α → Bool
  | a :: as, b :: bs => if a = b then comparable r as bs else r a b
  | _, _ => true

theorem comparable_self (as : List α) : comparable r as as = true := by
  induction as with
  | nil => rfl
  | cons a as ih => rwa [comparable, if_pos rfl]

theorem comparable_symm (hr : ∀ a b, r a b = r b a) (as bs : List α) : comparable r as bs = comparable r bs as := by
  induction as generalizing bs with
  | nil => cases bs <;> rfl
  | cons a as ih =>
    cases bs with
    | nil => rfl
    | cons b bs =>
      unfold comparable
      by_cases heq : a = b
      · rw [if_pos heq, if_pos heq.symm, ih]
      · rw [if_neg heq, if_neg (Ne.symm heq), hr]

theorem comparable_append (as bs cs : List α) : comparable r (as ++ bs) (as ++ cs) = comparable r bs cs := by
  induction as with
  | nil => rfl
  | cons a as ih => rwa [cons_append, cons_append, comparable, if_pos rfl]

theorem comparable_of_forall {as bs : List α} (h : ∀ a ∈ as, ∀ b ∈ bs, r a b = true) : comparable r as bs = true := by
  induction as generalizing bs with
  | nil => rfl
  | cons a as ih =>
    cases bs with
    | nil => rfl
    | cons b bs =>
      unfold comparable
      split
      next => exact ih fun x hx y hy => h x (mem_cons_of_mem _ hx) y (mem_cons_of_mem _ hy)
      next => exact h a mem_cons_self b mem_cons_self

theorem alike_symm (a b : Part) : a.alike b = b.alike a := by
  cases a <;> cases b <;> rfl

def ordered : Tuple → Tuple → Bool := comparable Part.alike

def orderedAll : List Tuple → List Tuple → Bool := comparable ordered

theorem ordered_self (a : Tuple) : ordered a a = true := comparable_self a

theorem ordered_symm (a b : Tuple) : ordered a b = ordered b a := comparable_symm alike_symm a b

theorem orderedAll_self (a : List Tuple) : orderedAll a a = true := comparable_self a

theorem orderedAll_symm (a b : List Tuple) : orderedAll a b = orderedAll b a := comparable_symm ordered_symm a b

end

section

variable {α : Type} {κ : Type} [LinearOrder κ] {r : κ → κ → Bool} {key : α → κ} {items result : List α}

/-- A sort puts every two items in order, so it fails if and only if two of their keys cannot be compared. -/
def sorted (r : κ → κ → Bool) (key : α → κ) (items : List α) : Option (List α) :=
  if items.Pairwise fun a b => r (key a) (key b) = true then some (items.insertionSort fun a b => key a ≤ key b) else none

theorem perm_sorted (h : sorted r key items = some result) : result.Perm items := by
  unfold sorted at h
  split at h
  next =>
    cases h
    exact perm_insertionSort _ _
  next => cases h

theorem pairwise_sorted (h : sorted r key items = some result) : result.Pairwise fun a b => key a ≤ key b := by
  have : Std.Total fun a b : α => key a ≤ key b := ⟨fun a b => le_total (key a) (key b)⟩
  have : IsTrans α fun a b : α => key a ≤ key b := ⟨fun _ _ _ h h' => le_trans h h'⟩
  unfold sorted at h
  split at h
  next =>
    cases h
    exact pairwise_insertionSort _ _
  next => cases h

variable (hself : ∀ a, r a a = true) (hsymm : ∀ a b, r a b = r b a)
include hself hsymm

omit [LinearOrder κ] in
theorem pairwise_iff_forall : (items.Pairwise fun a b => r (key a) (key b) = true) ↔
    ∀ a ∈ items, ∀ b ∈ items, r (key a) (key b) = true := by
  constructor
  · intro h a ha b hb
    have : Std.Symm fun a b : α => r (key a) (key b) = true := ⟨fun x y hxy => by rwa [hsymm]⟩
    exact h.forall_of_forall (fun x _ => hself _) ha hb
  · exact fun h => pairwise_of_forall_mem_list h

theorem sorted_isSome_iff : (∃ result, sorted r key items = some result) ↔
    ∀ a ∈ items, ∀ b ∈ items, r (key a) (key b) = true := by
  rw [← pairwise_iff_forall hself hsymm]
  unfold sorted
  split
  next h => exact ⟨fun _ => h, fun _ => ⟨_, rfl⟩⟩
  next h => exact ⟨fun ⟨_, hnone⟩ => (by cases hnone), fun hp => absurd hp h⟩

theorem sorted_again (h : sorted r key items = some result) : sorted r key result = some result := by
  have hperm := perm_sorted h
  have hall := (sorted_isSome_iff hself hsymm).mp ⟨result, h⟩
  have hpairwise : result.Pairwise fun a b => r (key a) (key b) = true :=
    (pairwise_iff_forall hself hsymm).mpr fun a ha b hb => hall a (hperm.mem_iff.mp ha) b (hperm.mem_iff.mp hb)
  rw [sorted, if_pos hpairwise, (pairwise_sorted h).insertionSort_eq]

end

end TupleOrder
