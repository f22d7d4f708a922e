import Mathlib.Data.List.Nodup
import Leitir.LawfulLists

namespace Grouping

open List

variable {κ α : Type} [DecidableEq κ]

/-- A table of lists with one more item under a key. -/
def append (groups : List (κ × List α)) (key : κ) (item : α) : List (κ × List α) :=
  match groups with
  | [] => [(key, [item])]
  | (other, items) :: rest =>
    if other = key then (other, items ++ [item]) :: rest else (other, items) :: append rest key item

def keys {β : Type} (table : List (κ × β)) : List κ := table.map Prod.fst

def get (groups : List (κ × List α)) (key : κ) : List α :=
  match groups with
  | [] => []
  | (other, items) :: rest => if other = key then items else get rest key

def groupBy (key : α → κ) (items : List α) : List (κ × List α) :=
  items.foldl (fun groups item => append groups (key item) item) []

variable {groups : List (κ × List α)} {other : κ} {items : List α} {β : Type}

theorem mem_keys_append {key : κ} {item : α} :
    other ∈ keys (append groups key item) ↔ other ∈ keys groups ∨ other = key := by
  induction groups with
  | nil => simp [append, keys]
  | cons head rest ih =>
    obtain ⟨first, items⟩ := head
    unfold append
    split
    next heq =>
      subst heq
      simp only [keys, map_cons, mem_cons]
      tauto
    next =>
      simp only [keys, map_cons, mem_cons] at ih ⊢
      rw [ih]
      tauto

theorem nodup_append (h : (keys groups).Nodup) (key : κ) (item : α) :
    (keys (append groups key item)).Nodup := by
  induction groups with
  | nil => exact nodup_singleton key
  | cons head rest ih =>
    obtain ⟨first, items⟩ := head
    obtain ⟨hnot, hrest⟩ := nodup_cons.mp h
    unfold append
    split
    next => exact nodup_cons.mpr ⟨hnot, hrest⟩
    next hne =>
      refine nodup_cons.mpr ⟨?_, ih hrest⟩
      intro hmem
      rcases mem_keys_append.mp hmem with hmem | heq
      · exact hnot hmem
      · exact hne heq

theorem get_append (groups : List (κ × List α)) (key other : κ) (item : α) :
    get (append groups key item) other = get groups other ++ if key = other then [item] else [] := by
  induction groups with
  | nil =>
    by_cases h : key = other
    · simp [append, get, h]
    · simp [append, get, h]
  | cons head rest ih =>
    obtain ⟨first, items⟩ := head
    unfold append
    by_cases hfirst : first = key
    · rw [if_pos hfirst]
      subst hfirst
      by_cases hother : first = other
      · simp [get, hother]
      · simp [get, hother]
    · rw [if_neg hfirst]
      by_cases hother : first = other
      · have hkey : ¬ key = other := fun h => hfirst (hother.trans h.symm)
        simp [get, hother, hkey]
      · simp only [get, if_neg hother]
        exact ih

section

variable (key : α → κ)

theorem nodup_foldl (items : List α) {groups : List (κ × List α)} (h : (keys groups).Nodup) :
    (keys (items.foldl (fun groups item => append groups (key item) item) groups)).Nodup := by
  induction items generalizing groups with
  | nil => exact h
  | cons item rest ih => exact ih (nodup_append h (key item) item)

theorem get_foldl (items : List α) (groups : List (κ × List α)) (other : κ) :
    get (items.foldl (fun groups item => append groups (key item) item) groups) other =
      get groups other ++ items.filter fun item => key item = other := by
  induction items generalizing groups with
  | nil => simp
  | cons item rest ih =>
    rw [foldl_cons, ih, get_append, append_assoc]
    by_cases h : key item = other
    · simp [h]
    · simp [h]

theorem mem_keys_foldl (items : List α) (groups : List (κ × List α)) (other : κ) :
    other ∈ keys (items.foldl (fun groups item => append groups (key item) item) groups) ↔
      other ∈ keys groups ∨ ∃ item ∈ items, key item = other := by
  induction items generalizing groups with
  | nil => simp
  | cons item rest ih =>
    rw [foldl_cons, ih, mem_keys_append]
    simp only [mem_cons, exists_eq_or_imp, @eq_comm κ other]
    tauto

end

theorem nodup_groupBy (key : α → κ) (items : List α) : (keys (groupBy key items)).Nodup :=
  nodup_foldl key items nodup_nil

theorem get_groupBy (key : α → κ) (items : List α) (other : κ) :
    get (groupBy key items) other = items.filter fun item => key item = other :=
  get_foldl key items [] other

theorem mem_keys_groupBy {key : α → κ} :
    other ∈ keys (groupBy key items) ↔ ∃ item ∈ items, key item = other := by
  unfold groupBy
  rw [mem_keys_foldl key items [] other]
  simp [keys]

theorem get_of_mem (h : (keys groups).Nodup) {key : κ}
    (hmem : (key, items) ∈ groups) : get groups key = items := by
  induction groups with
  | nil => cases hmem
  | cons head rest ih =>
    obtain ⟨first, own⟩ := head
    obtain ⟨hnot, hrest⟩ := nodup_cons.mp h
    unfold get
    rcases mem_cons.mp hmem with heq | hmem
    · cases heq
      exact if_pos rfl
    · rw [if_neg ?_, ih hrest hmem]
      rintro rfl
      exact hnot (mem_map.mpr ⟨_, hmem, rfl⟩)

theorem mem_groupBy {key : α → κ} {group : List α} (h : (other, group) ∈ groupBy key items) :
    group = items.filter fun item => key item = other := by
  rw [← get_groupBy, get_of_mem (nodup_groupBy key items) h]

def put {β : Type} (table : List (κ × β)) (key : κ) (value : β) : List (κ × β) :=
  match table with
  | [] => [(key, value)]
  | (other, old) :: rest => if other = key then (other, value) :: rest else (other, old) :: put rest key value

theorem mem_put_self (table : List (κ × β)) (key : κ) (value : β) : (key, value) ∈ put table key value := by
  induction table with
  | nil => exact mem_cons_self
  | cons head rest ih =>
    obtain ⟨other, old⟩ := head
    unfold put
    split
    next heq =>
      subst heq
      exact mem_cons_self
    next => exact mem_cons_of_mem _ ih

theorem mem_put_of_ne {table : List (κ × β)} {key : κ} {value kept : β} (h : (other, kept) ∈ table)
    (hne : other ≠ key) : (other, kept) ∈ put table key value := by
  induction table with
  | nil => cases h
  | cons head rest ih =>
    obtain ⟨first, old⟩ := head
    unfold put
    split
    next heq =>
      rcases mem_cons.mp h with hsame | h
      · exact absurd ((congrArg Prod.fst hsame).trans heq) hne
      · exact mem_cons_of_mem _ h
    next =>
      rcases mem_cons.mp h with hsame | h
      · rw [hsame]
        exact mem_cons_self
      · exact mem_cons_of_mem _ (ih h)

theorem mem_keys_put {table : List (κ × β)} {key : κ} {value : β} :
    other ∈ keys (put table key value) ↔ other ∈ keys table ∨ other = key := by
  induction table with
  | nil => simp [put, keys]
  | cons head rest ih =>
    obtain ⟨first, old⟩ := head
    unfold put
    split
    next heq =>
      subst heq
      simp only [keys, map_cons, mem_cons]
      exact ⟨fun h => .inl h, fun h => h.elim id .inl⟩
    next =>
      simp only [keys, map_cons, mem_cons] at ih ⊢
      rw [ih, or_assoc]

theorem nodup_put {table : List (κ × β)} (h : (keys table).Nodup) (key : κ) (value : β) :
    (keys (put table key value)).Nodup := by
  induction table with
  | nil => simp [put, keys]
  | cons head rest ih =>
    obtain ⟨first, old⟩ := head
    obtain ⟨hnot, hrest⟩ := nodup_cons.mp h
    unfold put
    split
    next => exact h
    next hne =>
      refine nodup_cons.mpr ⟨?_, ih hrest⟩
      intro hmem
      exact (mem_keys_put.mp hmem).elim hnot hne

theorem mem_of_mem_put {table : List (κ × β)} {key : κ} {value : β} {entry : κ × β}
    (h : entry ∈ put table key value) : entry = (key, value) ∨ entry ∈ table := by
  induction table with
  | nil => exact .inl (mem_singleton.mp h)
  | cons head rest ih =>
    obtain ⟨first, old⟩ := head
    unfold put at h
    split at h
    next heq =>
      subst heq
      exact (mem_cons.mp h).imp_right (mem_cons_of_mem _)
    next =>
      rcases mem_cons.mp h with rfl | h
      · exact .inr mem_cons_self
      · exact (ih h).imp_right (mem_cons_of_mem _)

end Grouping
