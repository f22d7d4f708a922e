import Leitir.SearchAdapter
import Mathlib.Data.List.Sort
import Mathlib.Data.List.Lex
import Mathlib.Data.List.Dedup

namespace Leitir.Search

open List

def windows (data : Bytes) : List Bytes := (List.range (data.length - 2)).map fun offset => (data.drop offset).take 3

def iterTrigrams (data : Bytes) : List Bytes := (windows data).dedup.insertionSort (· ≤ ·)

theorem mem_iterTrigrams {data gram : Bytes} : gram ∈ iterTrigrams data ↔ gram.length = 3 ∧ gram <:+: data := by
  unfold iterTrigrams
  rw [mem_insertionSort, mem_dedup]
  simp only [windows, mem_map, mem_range]
  constructor
  · rintro ⟨offset, hoffset, rfl⟩
    refine ⟨?_, ?_⟩
    · rw [length_take, length_drop]
      omega
    · exact ( take_prefix _ _).isInfix.trans (drop_suffix _ _).isInfix
  · rintro ⟨hlen, before, after, rfl⟩
    refine ⟨before.length, ?_, ?_⟩
    · simp only [length_append]
      omega
    · rw [append_assoc, drop_left, take_append_of_le_length (by omega), ← hlen, take_length]

def intersectAt (a : Nat) (next : List Nat → List Nat) : List Nat → List Nat
  | [] => []
  | b :: bs => if a = b then a :: next bs else if a < b then next (b :: bs) else intersectAt a next bs

def intersectTwo : List Nat → List Nat → List Nat
  | [], _ => []
  | a :: as, values => intersectAt a (fun rest => intersectTwo as rest) values

def intersectRest (result : List Nat) : List (List Nat) → List Nat
  | [] => result
  | values :: rest =>
    let merged := intersectTwo result values
    if merged = [] then [] else intersectRest merged rest

def intersectSorted : List (List Nat) → List Nat
  | [] => []
  | first :: rest => intersectRest first rest

theorem mem_of_mem_intersectTwo {as bs : List Nat} {x : Nat} (h : x ∈ intersectTwo as bs) :
    x ∈ as ∧ x ∈ bs := by
  induction as generalizing bs with
  | nil => cases h
  | cons a as ih =>
    rw [intersectTwo] at h
    induction bs with
    | nil => cases h
    | cons b bs ihb =>
      rw [intersectAt] at h
      split at h
      next heq =>
        rcases mem_cons.mp h with rfl | h
        · exact ⟨mem_cons_self, heq ▸ mem_cons_self⟩
        · exact ⟨mem_cons_of_mem _ (ih h).1, mem_cons_of_mem _ (ih h).2⟩
      next =>
        split at h
        next => exact ⟨mem_cons_of_mem _ (ih h).1, (ih h).2⟩
        next => exact ⟨(ihb h).1, mem_cons_of_mem _ (ihb h).2⟩

theorem intersectTwo_sublist (as bs : List Nat) : (intersectTwo as bs).Sublist as := by
  induction as generalizing bs with
  | nil => exact List.Sublist.slnil
  | cons a as ih =>
    rw [intersectTwo]
    induction bs with
    | nil => exact nil_sublist _
    | cons b bs ihb =>
      rw [intersectAt]
      split
      next => exact (ih bs).cons_cons a
      next =>
        split
        next => exact (ih (b :: bs)).cons a
        next => exact ihb

/-- The pass finds every common value of two ascending lists. -/
theorem mem_intersectTwo {as bs : List Nat} {x : Nat} (has : as.Pairwise (· ≤ ·)) (hbs : bs.Pairwise (· ≤ ·))
    (ha : x ∈ as) (hb : x ∈ bs) : x ∈ intersectTwo as bs := by
  induction as generalizing bs with
  | nil => cases ha
  | cons a as ih =>
    obtain ⟨hfirst, has'⟩ := pairwise_cons.mp has
    rw [intersectTwo]
    induction bs with
    | nil => cases hb
    | cons b bs ihb =>
      obtain ⟨hnext, hbs'⟩ := pairwise_cons.mp hbs
      rw [intersectAt]
      split
      next heq =>
        by_cases hx : x = a
        · exact hx ▸ mem_cons_self
        · have hxb : x ≠ b := heq ▸ hx
          exact mem_cons_of_mem _
            (ih has' hbs' (mem_of_ne_of_mem hx ha) (mem_of_ne_of_mem hxb hb))
      next =>
        split
        next hlt =>
          have hle : b ≤ x := by
            rcases mem_cons.mp hb with rfl | hmem
            · exact le_refl _
            · exact hnext x hmem
          exact ih has' hbs (mem_of_ne_of_mem (by omega) ha) hb
        next =>
          have hle : a ≤ x := by
            rcases mem_cons.mp ha with rfl | hmem
            · exact le_refl _
            · exact hfirst x hmem
          exact ihb hbs' (mem_of_ne_of_mem (by omega) hb)

theorem mem_intersectRest {lists : List (List Nat)} {result : List Nat} {x : Nat}
    (hresult : result.Pairwise (· ≤ ·)) (hlists : ∀ values ∈ lists, values.Pairwise (· ≤ ·)) :
    x ∈ intersectRest result lists ↔ x ∈ result ∧ ∀ values ∈ lists, x ∈ values := by
  induction lists generalizing result with
  | nil => simp [intersectRest]
  | cons values rest ih =>
    have hvalues := hlists values mem_cons_self
    have hsorted : (intersectTwo result values).Pairwise (· ≤ ·) :=
      hresult.sublist (intersectTwo_sublist result values)
    have hmem : x ∈ intersectTwo result values ↔ x ∈ result ∧ x ∈ values :=
      ⟨mem_of_mem_intersectTwo, fun h => mem_intersectTwo hresult hvalues h.1 h.2⟩
    have hrest := ih hsorted fun other hother => hlists other (mem_cons_of_mem _ hother)
    simp only [intersectRest, forall_mem_cons]
    split
    next hnone =>
      rw [hnone] at hmem
      simp only [not_mem_nil, false_iff] at hmem ⊢
      exact fun h => hmem ⟨h.1, h.2.1⟩
    next =>
      rw [hrest, hmem, and_assoc]

def addDocument (postings : Bytes → List Nat) (entry : Bytes × Nat) (gram : Bytes) : List Nat :=
  if gram ∈ iterTrigrams entry.1 then postings gram ++ [entry.2] else postings gram

def buildPostings (documents : List Bytes) : Bytes → List Nat :=
  documents.zipIdx.foldl addDocument fun _ => []

theorem foldl_addDocument (entries : List (Bytes × Nat)) (postings : Bytes → List Nat) (gram : Bytes) :
    entries.foldl addDocument postings gram =
      postings gram ++ (entries.filter fun entry => gram ∈ iterTrigrams entry.1).map Prod.snd := by
  induction entries generalizing postings with
  | nil => simp
  | cons entry rest ih =>
    rw [foldl_cons, ih]
    by_cases h : gram ∈ iterTrigrams entry.1
    · simp [addDocument, h]
    · simp [addDocument, h]

theorem buildPostings_eq (documents : List Bytes) (gram : Bytes) :
    buildPostings documents gram =
      (documents.zipIdx.filter fun entry => gram ∈ iterTrigrams entry.1).map Prod.snd := by
  unfold buildPostings
  rw [foldl_addDocument, nil_append]

theorem buildPostings_sorted (documents : List Bytes) (gram : Bytes) :
    (buildPostings documents gram).Pairwise (· ≤ ·) := by
  have hnumbers : (documents.zipIdx.map Prod.snd).Pairwise (· ≤ ·) := by
    rw [zipIdx_map_snd]
    exact pairwise_le_range' 1
  rw [buildPostings_eq]
  exact hnumbers.sublist (filter_sublist.map _)

theorem mem_buildPostings {documents : List Bytes} {gram : Bytes} {id : Nat} :
    id ∈ buildPostings documents gram ↔
      ∃ data, documents[id]? = some data ∧ gram.length = 3 ∧ gram <:+: data := by
  simp only [buildPostings_eq, mem_map, mem_filter, decide_eq_true_eq, mem_iterTrigrams]
  constructor
  · rintro ⟨⟨data, k⟩, ⟨hmem, h⟩, rfl⟩
    exact ⟨data, mem_zipIdx_iff_getElem?.mp hmem, h⟩
  · rintro ⟨data, hdata, h⟩
    exact ⟨(data, id), ⟨mem_zipIdx_iff_getElem?.mpr hdata, h⟩, rfl⟩

end Leitir.Search
