import Mathlib.Data.List.Basic
import Leitir.LawfulLists

namespace LineCut

open List

variable {α : Type} {sep : α}

theorem append_cons_unique {c : α} {xs ys rest more : List α} (hx : c ∉ xs) (hy : c ∉ ys)
    (h : xs ++ c :: rest = ys ++ c :: more) : xs = ys ∧ rest = more := by
  induction xs generalizing ys with
  | nil =>
    cases ys with
    | nil => exact ⟨rfl, (List.cons.inj h).2⟩
    | cons y ys =>
      have hc := (List.cons.inj h).1
      exact absurd (by simp [hc]) hy
  | cons x xs ih =>
    cases ys with
    | nil =>
      have hc := (List.cons.inj h).1
      exact absurd (by simp [hc]) hx
    | cons y ys =>
      obtain ⟨he, ht⟩ := List.cons.inj h
      obtain ⟨hs, hr⟩ := ih (fun m => hx (mem_cons_of_mem _ m))
        (fun m => hy (mem_cons_of_mem _ m)) ht
      exact ⟨by rw [he, hs], hr⟩

def join (sep : α) (parts : List (List α)) : List α := parts.flatMap fun part => part ++ [sep]

@[simp] theorem join_nil : join sep [] = [] := rfl

@[simp] theorem join_cons (part : List α) (parts : List (List α)) :
    join sep (part :: parts) = part ++ sep :: join sep parts := by
  simp [join]

@[simp] theorem join_append (parts parts' : List (List α)) : join sep (parts ++ parts') = join sep parts ++ join sep parts' := by
  simp [join]

theorem intercalate_concat (parts : List (List α)) (last : List α) :
    [sep].intercalate (parts ++ [last]) = join sep parts ++ last := by
  induction parts with
  | nil => simp
  | cons part parts ih =>
    rw [cons_append, intercalate_cons_of_ne_nil (by simp), ih]
    simp

variable [DecidableEq α]

def complete (sep : α) (text : List α) : List (List α) := (text.splitOn sep).dropLast

def rest (sep : α) (text : List α) : List α := (text.splitOn sep).getLastD []

theorem splitOn_eq (text : List α) : text.splitOn sep = complete sep text ++ [rest sep text] := by
  have hne := splitOn_ne_nil sep text
  unfold complete rest
  rw [getLastD_eq_getLast?, getLast?_eq_some_getLast hne]
  exact (dropLast_append_getLast hne).symm

theorem splitOn_join {parts : List (List α)} {last : List α} (hparts : ∀ part ∈ parts, sep ∉ part) (hlast : sep ∉ last) :
    (join sep parts ++ last).splitOn sep = parts ++ [last] := by
  induction parts with
  | nil => simpa using splitOn_eq_singleton hlast
  | cons part parts ih =>
    rw [join_cons, append_assoc, cons_append,
      splitOn_append_cons_self_of_not_mem (hparts part mem_cons_self),
      ih fun other hother => hparts other (mem_cons_of_mem _ hother), cons_append]

theorem not_mem_splitOn (text : List α) : ∀ part ∈ text.splitOn sep, sep ∉ part := by
  induction text with
  | nil => simp
  | cons ch text ih =>
    intro part hpart
    rw [splitOn_cons_eq_if_modifyHead] at hpart
    split at hpart
    next =>
      rcases mem_cons.mp hpart with rfl | hpart
      · simp
      · exact ih part hpart
    next hch =>
      obtain ⟨first, others, hsplit⟩ := exists_cons_of_ne_nil (splitOn_ne_nil sep text)
      rw [hsplit] at ih hpart
      rcases mem_cons.mp hpart with rfl | hpart
      · have hfirst := ih first mem_cons_self
        have hne : sep ≠ ch := by
          intro heq
          exact hch (by simp [heq])
        simp [hne, hfirst]
      · exact ih part (mem_cons_of_mem _ hpart)

theorem not_mem_complete (text : List α) : ∀ part ∈ complete sep text, sep ∉ part := fun part hpart =>
  not_mem_splitOn text part (dropLast_subset _ hpart)

theorem not_mem_rest (text : List α) : sep ∉ rest sep text := by
  refine not_mem_splitOn text _ ?_
  rw [splitOn_eq text]
  simp

theorem join_complete (text : List α) : join sep (complete sep text) ++ rest sep text = text := by
  rw [← intercalate_concat, ← splitOn_eq]
  exact intercalate_splitOn sep

theorem mem_of_mem_splitOn {text part : List α} {item : α} (hpart : part ∈ text.splitOn sep) (hitem : item ∈ part) :
    item ∈ text := by
  rw [← @join_complete _ sep _ text]
  rw [splitOn_eq] at hpart
  rcases mem_append.mp hpart with hpart | hpart
  · exact mem_append_left _ (mem_flatMap.mpr ⟨part, hpart, mem_append_left _ hitem⟩)
  · rw [mem_singleton.mp hpart] at hitem
    exact mem_append_right _ hitem

theorem cut_unique {parts : List (List α)} {last : List α} (hparts : ∀ part ∈ parts, sep ∉ part) (hlast : sep ∉ last) :
    complete sep (join sep parts ++ last) = parts ∧ rest sep (join sep parts ++ last) = last := by
  unfold complete rest
  rw [splitOn_join hparts hlast]
  simp

theorem rest_append_sep (text : List α) : rest sep (text ++ [sep]) = [] := by
  have hcut : text ++ [sep] = join sep (complete sep text ++ [rest sep text]) ++ [] := by
    rw [join_append, join_cons, join_nil, append_nil, ← append_assoc, join_complete]
  have hparts : ∀ part ∈ complete sep text ++ [rest sep text], sep ∉ part := by
    rw [← splitOn_eq]
    exact not_mem_splitOn text
  rw [hcut]
  exact (cut_unique hparts not_mem_nil).2

theorem nil_mem_splitOn_append (text : List α) : [] ∈ (text ++ [sep]).splitOn sep := by
  rw [splitOn_eq, rest_append_sep]
  exact mem_append_right _ mem_cons_self

theorem cut_append (text more : List α) :
    complete sep (text ++ more) = complete sep text ++ complete sep (rest sep text ++ more) ∧
      rest sep (text ++ more) = rest sep (rest sep text ++ more) := by
  have hcut : text ++ more = join sep (complete sep text ++ complete sep (rest sep text ++ more)) ++
      rest sep (rest sep text ++ more) := by
    rw [join_append, append_assoc, join_complete, ← append_assoc, join_complete]
  have hparts : ∀ part ∈ complete sep text ++ complete sep (rest sep text ++ more), sep ∉ part := by
    intro part hpart
    rcases mem_append.mp hpart with hpart | hpart
    · exact not_mem_complete _ part hpart
    · exact not_mem_complete _ part hpart
  have h := cut_unique hparts (not_mem_rest (rest sep text ++ more))
  rw [← hcut] at h
  exact h

theorem cut_append_of_not_mem (text : List α) {more : List α} (hmore : sep ∉ more) :
    complete sep (text ++ more) = complete sep text ∧ rest sep (text ++ more) = rest sep text ++ more := by
  have hlast : sep ∉ rest sep text ++ more := by
    rw [mem_append, not_or]
    exact ⟨not_mem_rest text, hmore⟩
  have h := cut_unique (not_mem_complete text) hlast
  rw [← append_assoc, join_complete] at h
  exact h

theorem splitOn_append_of_not_mem {text : List α} (htext : sep ∉ text) (more : List α) :
    (text ++ more).splitOn sep = (text ++ (more.splitOn sep).headD []) :: (more.splitOn sep).tail := by
  induction text with
  | nil =>
    obtain ⟨first, others, hsplit⟩ := exists_cons_of_ne_nil (splitOn_ne_nil sep more)
    simp [hsplit]
  | cons ch text ih =>
    rw [mem_cons, not_or] at htext
    rw [cons_append, splitOn_cons_eq_if_modifyHead, if_neg (by simpa using Ne.symm htext.1), ih htext.2]
    rfl

theorem part_of_append {text part : List α} (more : List α) (h : part ∈ text.splitOn sep) :
    ∃ whole ∈ (text ++ more).splitOn sep, part <+: whole := by
  have hcut := @cut_append _ sep _ text more
  rw [splitOn_eq] at h
  rw [splitOn_eq (text ++ more), hcut.1, hcut.2, append_assoc, ← splitOn_eq]
  rcases mem_append.mp h with h | h
  · exact ⟨part, mem_append_left _ h, prefix_rfl⟩
  · rw [mem_singleton.mp h, splitOn_append_of_not_mem (not_mem_rest text)]
    exact ⟨_, mem_append_right _ mem_cons_self, prefix_append _ _⟩

theorem length_complete (text : List α) : (complete sep text).length = text.count sep := by
  have hcount : ∀ parts : List (List α), (∀ part ∈ parts, sep ∉ part) → (join sep parts).count sep = parts.length := by
    intro parts hparts
    induction parts with
    | nil => rfl
    | cons part parts ih =>
      rw [join_cons, count_append, count_eq_zero_of_not_mem (hparts part mem_cons_self),
        count_cons_self, ih fun other hother => hparts other (mem_cons_of_mem _ hother), length_cons]
      omega
  have htext := congrArg (List.count sep) (@join_complete _ sep _ text)
  rw [count_append, hcount _ (not_mem_complete text), count_eq_zero_of_not_mem (not_mem_rest text)] at htext
  omega

theorem rest_eq_nil_iff (text : List α) : rest sep text = [] ↔ text = [] ∨ text.getLast? = some sep := by
  constructor
  · intro h
    have htext := @join_complete _ sep _ text
    rw [h, append_nil] at htext
    rcases eq_nil_or_concat (complete sep text) with hnil | ⟨parts, part, hconcat⟩
    · rw [hnil] at htext
      exact Or.inl htext.symm
    · rw [hconcat, concat_eq_append, join_append] at htext
      right
      rw [← htext]
      simp [join]
  · rintro (rfl | hlast)
    · simp [rest]
    · obtain ⟨front, rfl⟩ := getLast?_eq_some_iff.mp hlast
      rw [(cut_append front [sep]).2]
      have h := splitOn_append_cons_self_of_not_mem (@not_mem_rest _ sep _ front) []
      unfold rest at h ⊢
      rw [h]
      simp

end LineCut
