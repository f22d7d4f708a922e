import Leitir.Utf8
import Mathlib.Data.Char
import Mathlib.Data.List.Lex
import Mathlib.Order.Lattice

/-! The order of texts: what sorts between a text and its continuations, and how octets compare. -/

namespace TextOrder

open List

section

variable {α : Type} [LinearOrder α] {sep : α}

/-- What sorts between a text and its continuation at a separator continues the text below the separator. -/
theorem between_prefix {outer name rest : List α} (hlow : outer < name) (hhigh : name < outer ++ sep :: rest)
    (hout : ¬ outer ++ [sep] <+: name) : ∃ c tail, name = outer ++ c :: tail ∧ c < sep := by
  induction outer generalizing name with
  | nil =>
    cases name with
    | nil => exact absurd hlow (lt_irrefl _)
    | cons c tail =>
      refine ⟨c, tail, rfl, ?_⟩
      rcases cons_lt_cons_iff.mp hhigh with hlt | ⟨rfl, -⟩
      · exact hlt
      · exact absurd ⟨tail, rfl⟩ hout
  | cons first outer ih =>
    cases name with
    | nil => exact absurd hlow (not_lt_nil _)
    | cons head name =>
      rw [cons_append] at hhigh
      rcases cons_lt_cons_iff.mp hlow with hlt | ⟨rfl, hrest⟩
      · rcases cons_lt_cons_iff.mp hhigh with hlt' | ⟨rfl, -⟩
        · exact absurd (hlt.trans hlt') (lt_irrefl _)
        · exact absurd hlt (lt_irrefl _)
      · rcases cons_lt_cons_iff.mp hhigh with hlt' | ⟨-, hhigh⟩
        · exact absurd hlt' (lt_irrefl _)
        · obtain ⟨c, tail, rfl, hc⟩ := ih hrest hhigh fun hprefix => hout (by simpa using hprefix)
          exact ⟨c, tail, rfl, hc⟩

theorem lt_append_cons (outer rest : List α) (c : α) : outer < outer ++ c :: rest := by
  induction outer with
  | nil => exact nil_lt_cons _ _
  | cons first outer ih => exact cons_lt_cons_iff.mpr (Or.inr ⟨rfl, ih⟩)

/-- In a sorted sequence a text and its continuation are neighbours unless a third one comes between them. -/
theorem exists_between {names : List (List α)} (hsorted : names.Pairwise (· < ·))
    (hneighbours : ∀ pair ∈ names.zip names.tail, ¬ pair.1 ++ [sep] <+: pair.2) {outer inner : List α}
    (houter : outer ∈ names) (hinner : inner ∈ names) (hbelow : outer ++ [sep] <+: inner) :
    ∃ c tail, outer ++ c :: tail ∈ names ∧ c < sep := by
  obtain ⟨rest, rfl⟩ := hbelow
  have hlt : outer < outer ++ [sep] ++ rest := by
    rw [append_assoc]
    exact lt_append_cons outer rest sep
  obtain ⟨before, after, rfl⟩ := append_of_mem houter
  obtain ⟨-, hafter, hcross⟩ := pairwise_append.mp hsorted
  obtain ⟨habove, hafter⟩ := pairwise_cons.mp hafter
  have hlater : outer ++ [sep] ++ rest ∈ after := by
    rcases mem_append.mp hinner with hmem | hmem
    · exact absurd (hlt.trans (hcross _ hmem outer mem_cons_self)) (lt_irrefl _)
    · rcases mem_cons.mp hmem with heq | hmem
      · exact absurd (heq ▸ hlt) (lt_irrefl _)
      · exact hmem
  cases after with
  | nil => simp at hlater
  | cons next after =>
    have hpair : (outer, next) ∈ (before ++ outer :: next :: after).zip (before ++ outer :: next :: after).tail := by
      rw [mem_iff_getElem?]
      refine ⟨before.length, ?_⟩
      rw [getElem?_zip_eq_some, getElem?_tail]
      simp
    have hout := hneighbours _ hpair
    rcases mem_cons.mp hlater with heq | hmem
    · exact absurd ⟨rest, heq⟩ hout
    · have hhigh := (pairwise_cons.mp hafter).1 _ hmem
      rw [append_assoc] at hhigh
      obtain ⟨c, tail, rfl, hc⟩ := between_prefix (habove next mem_cons_self) hhigh hout
      exact ⟨c, tail, by simp, hc⟩

end

section

open Utf8

variable {a b : List Char}

theorem lt_of_code_lt (h : a.map Char.toNat < b.map Char.toNat) : a < b := by
  induction a generalizing b with
  | nil =>
    cases b with
    | nil => exact absurd h (lt_irrefl _)
    | cons d b => exact nil_lt_cons _ _
  | cons c a ih =>
    cases b with
    | nil => exact absurd h (not_lt_nil _)
    | cons d b =>
      rcases cons_lt_cons_iff.mp h with hlt | ⟨heq, hlt⟩
      · exact cons_lt_cons_iff.mpr (Or.inl hlt)
      · exact cons_lt_cons_iff.mpr (Or.inr ⟨Char.toNat_inj.mp heq, ih hlt⟩)

theorem encodePoint_lt {p q : Nat} (h : p < q) (x y : List Nat) : encodePoint p ++ x < encodePoint q ++ y := by
  unfold encodePoint
  split_ifs
  all_goals
    simp only [cons_append, nil_append, cons_lt_cons_iff]
    omega

theorem encodeText_lt (h : a < b) : encodeText a < encodeText b := by
  induction a generalizing b with
  | nil =>
    cases b with
    | nil => exact absurd h (lt_irrefl _)
    | cons d b =>
      have hpos := length_encodePoint_pos d.toNat
      obtain ⟨octet, octets, hcons⟩ := exists_cons_of_ne_nil (ne_nil_of_length_pos hpos)
      simp only [encodeText, flatMap_nil, flatMap_cons, hcons, cons_append]
      exact nil_lt_cons _ _
  | cons c a ih =>
    cases b with
    | nil => exact absurd h (not_lt_nil _)
    | cons d b =>
      have hcons : ∀ (ch : Char) (text : List Char), encodeText (ch :: text) = encodePoint ch.toNat ++ encodeText text :=
        fun _ _ => rfl
      rw [hcons, hcons]
      rcases cons_lt_cons_iff.mp h with hlt | ⟨rfl, hlt⟩
      · exact encodePoint_lt hlt _ _
      · exact append_left_lt (ih hlt)

theorem lt_of_encodeText_lt (h : encodeText a < encodeText b) : a < b := by
  rcases lt_trichotomy a b with hlt | rfl | hlt
  · exact hlt
  · exact absurd h (lt_irrefl _)
  · exact absurd (h.trans (encodeText_lt hlt)) (lt_irrefl _)

end

end TextOrder
