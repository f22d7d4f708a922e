import Mathlib.Data.List.Sort
import Mathlib.Data.List.Lex
import Leitir.LawfulLists

namespace KeyedList

open List

abbrev Key := List (List Nat)

variable {α κ : Type} [DecidableEq κ]

def sortBy (key : α → Key) (items : List α) : List α :=
  items.insertionSort fun a b => key a ≤ key b

variable {key : α → κ} {items : List α}

@[simp] theorem mem_sortBy {key : α → Key} {a : α} :
    a ∈ sortBy key items ↔ a ∈ items := by
  unfold sortBy
  exact mem_insertionSort _

theorem perm_sortBy (key : α → Key) (items : List α) : (sortBy key items).Perm items := perm_insertionSort _ _

theorem pairwise_sortBy (key : α → Key) (items : List α) : (sortBy key items).Pairwise fun a b => key a ≤ key b := by
  have : Std.Total fun a b : α => key a ≤ key b := ⟨fun a b => le_total (key a) (key b)⟩
  have : IsTrans α fun a b : α => key a ≤ key b := ⟨fun _ _ _ h h' => le_trans h h'⟩
  exact pairwise_insertionSort _ _

theorem sortBy_congr {key : α → Key} {xs ys : List α} (hperm : xs.Perm ys)
    (hinj : ∀ a ∈ xs, ∀ b ∈ xs, key a = key b → a = b) : sortBy key xs = sortBy key ys := by
  have hsorted : (sortBy key xs).Perm (sortBy key ys) :=
    (perm_sortBy key xs).trans (hperm.trans (perm_sortBy key ys).symm)
  refine hsorted.eq_of_pairwise ?_ (pairwise_sortBy key xs) (pairwise_sortBy key ys)
  intro a b ha hb hab hba
  exact hinj a (mem_sortBy.mp ha) b (hperm.mem_iff.mpr (mem_sortBy.mp hb)) (le_antisymm hab hba)

def lookupLast (key : α → κ) (items : List α) (k : κ) : Option α :=
  items.reverse.find? fun item => key item = k

theorem lookupLast_eq_some_iff {k : κ} {a : α} :
    lookupLast key items k = some a ↔
      key a = k ∧ ∃ before after, items = before ++ a :: after ∧ ∀ b ∈ after, key b ≠ k := by
  unfold lookupLast
  rw [find?_eq_some_iff_append]
  constructor
  · rintro ⟨hk, bs, as, heq, hne⟩
    refine ⟨by simpa using hk, as.reverse, bs.reverse, ?_, ?_⟩
    · have := congrArg List.reverse heq
      simpa using this
    · intro b hb
      simpa using hne b (mem_reverse.mp hb)
  · rintro ⟨hk, before, after, rfl, hne⟩
    refine ⟨by simpa using hk, after.reverse, before.reverse, by simp, ?_⟩
    intro b hb
    simpa using hne b (mem_reverse.mp hb)

theorem lookupLast_eq_none_iff {k : κ} :
    lookupLast key items k = none ↔ ∀ a ∈ items, key a ≠ k := by
  simp [lookupLast]

/-- The items of a table in which the last item of a key replaces the others. -/
def uniqueLast (key : α → κ) : List α → List α
  | [] => []
  | item :: rest =>
    if rest.any fun other => key other = key item then uniqueLast key rest
    else item :: uniqueLast key rest

theorem mem_of_mem_uniqueLast {a : α}
    (h : a ∈ uniqueLast key items) : a ∈ items := by
  induction items with
  | nil => exact h
  | cons item rest ih =>
    unfold uniqueLast at h
    split at h
    next => exact mem_cons_of_mem _ (ih h)
    next =>
      rcases mem_cons.mp h with rfl | h
      · exact mem_cons_self
      · exact mem_cons_of_mem _ (ih h)

theorem exists_mem_uniqueLast {a : α} (h : a ∈ items) :
    ∃ b ∈ uniqueLast key items, key b = key a := by
  induction items generalizing a with
  | nil => simp at h
  | cons item rest ih =>
    unfold uniqueLast
    split
    next hany =>
      obtain ⟨other, hother, heq⟩ := any_eq_true.mp hany
      rcases mem_cons.mp h with rfl | h
      · obtain ⟨b, hb, hkey⟩ := ih hother
        exact ⟨b, hb, hkey.trans (by simpa using heq)⟩
      · exact ih h
    next =>
      rcases mem_cons.mp h with rfl | h
      · exact ⟨a, mem_cons_self, rfl⟩
      · obtain ⟨b, hb, hkey⟩ := ih h
        exact ⟨b, mem_cons_of_mem _ hb, hkey⟩

theorem length_uniqueLast_le (key : α → κ) (items : List α) : (uniqueLast key items).length ≤ items.length := by
  induction items with
  | nil => exact le_refl _
  | cons item rest ih =>
    unfold uniqueLast
    split
    next => exact Nat.le_succ_of_le ih
    next => exact Nat.succ_le_succ ih

theorem length_uniqueLast_eq_iff :
    (uniqueLast key items).length = items.length ↔ (items.map key).Nodup := by
  induction items with
  | nil => simp [uniqueLast]
  | cons item rest ih =>
    have hle := length_uniqueLast_le key rest
    unfold uniqueLast
    rw [map_cons, nodup_cons]
    split
    next hany =>
      obtain ⟨other, hother, heq⟩ := any_eq_true.mp hany
      have hmem : key item ∈ rest.map key := mem_map.mpr ⟨other, hother, by simpa using heq⟩
      constructor
      · intro hlen
        rw [length_cons] at hlen
        omega
      · intro h
        exact absurd hmem h.1
    next hany =>
      have hmem : key item ∉ rest.map key := by
        intro hin
        obtain ⟨other, hother, heq⟩ := mem_map.mp hin
        exact hany (any_eq_true.mpr ⟨other, hother, by simpa using heq⟩)
      rw [length_cons, length_cons, Nat.add_right_cancel_iff, ih]
      exact ⟨fun h => ⟨hmem, h⟩, fun h => h.2⟩

theorem uniqueLast_of_nodup (h : (items.map key).Nodup) :
    uniqueLast key items = items := by
  induction items with
  | nil => rfl
  | cons item rest ih =>
    rw [map_cons, nodup_cons] at h
    unfold uniqueLast
    rw [if_neg, ih h.2]
    intro hany
    obtain ⟨other, hother, heq⟩ := any_eq_true.mp hany
    exact h.1 (mem_map.mpr ⟨other, hother, by simpa using heq⟩)

end KeyedList
