import Mathlib.Data.List.Dedup
import Leitir.Grouping
import Leitir.KeyedList

namespace KeepBest

open List

open Grouping (put keys)
open KeyedList (Key sortBy)

section

variable {α : Type} (beats : α → α → Bool)

def keep : Option α → α → Option α
  | none, item => some item
  | some current, item => if beats item current then some item else some current

def best (items : List α) : Option α := items.foldl (keep beats) none

def Unbeaten (items : List α) (a : α) : Prop := a ∈ items ∧ ∀ b ∈ items, beats b a = false

variable {beats} {items other : List α} {a : α}

theorem best_cons_of_unbeaten (h : ∀ b ∈ items, beats b a = false) : best beats (a :: items) = some a := by
  have hkeep : items.foldl (keep beats) (some a) = some a := by
    induction items with
    | nil => rfl
    | cons b rest ih =>
      rw [forall_mem_cons] at h
      rw [foldl_cons, keep, if_neg (by simp [h.1])]
      exact ih h.2
  exact hkeep

theorem Unbeaten.perm (h : Unbeaten beats items a) (hperm : other.Perm items) : Unbeaten beats other a :=
  ⟨hperm.mem_iff.mpr h.1, fun b hb => h.2 b (hperm.mem_iff.mp hb)⟩

section

variable (hirrefl : ∀ a, beats a a = false)
  (htrans : ∀ a b c, beats a b = true → beats b c = true → beats a c = true)
include hirrefl htrans

theorem keep_unbeaten (items : List α) {seen : List α} {current : α} (h : Unbeaten beats seen current) :
    ∃ a, items.foldl (keep beats) (some current) = some a ∧ Unbeaten beats (seen ++ items) a := by
  induction items generalizing seen current with
  | nil => exact ⟨current, rfl, by rwa [append_nil]⟩
  | cons item rest ih =>
    rw [foldl_cons, keep, append_cons]
    split
    next hbeats =>
      refine ih ⟨mem_append_right _ mem_cons_self, ?_⟩
      intro b hb
      rcases mem_append.mp hb with hb | hb
      · by_contra hnot
        have hold := htrans b item current (by simpa using hnot) hbeats
        rw [h.2 b hb] at hold
        cases hold
      · rw [mem_singleton.mp hb]
        exact hirrefl item
    next hbeats =>
      refine ih ⟨mem_append_left _ h.1, ?_⟩
      intro b hb
      rcases mem_append.mp hb with hb | hb
      · exact h.2 b hb
      · rw [mem_singleton.mp hb]
        simpa using hbeats

theorem best_unbeaten (hne : items ≠ []) : ∃ a, best beats items = some a ∧ Unbeaten beats items a := by
  cases items with
  | nil => exact absurd rfl hne
  | cons first rest =>
    have hfirst : Unbeaten beats [first] first := by
      refine ⟨mem_singleton_self first, ?_⟩
      intro b hb
      rw [mem_singleton.mp hb]
      exact hirrefl first
    exact keep_unbeaten hirrefl htrans rest hfirst

theorem best_perm_iff : (∀ other : List α, other.Perm items → best beats other = best beats items) ↔
    ∀ a b, Unbeaten beats items a → Unbeaten beats items b → a = b := by
  constructor
  · intro hall
    have hkept : ∀ a, Unbeaten beats items a → best beats items = some a := by
      intro a ha
      obtain ⟨before, after, hitems⟩ := append_of_mem ha.1
      have hperm : (a :: (before ++ after)).Perm items := by
        rw [hitems]
        exact perm_middle.symm
      rw [← hall _ hperm]
      exact best_cons_of_unbeaten fun b hb => ha.2 b (hperm.mem_iff.mp (mem_cons_of_mem _ hb))
    intro a b ha hb
    exact Option.some.inj ((hkept a ha).symm.trans (hkept b hb))
  · intro hone other hperm
    by_cases hnil : items = []
    · rw [hnil] at hperm ⊢
      rw [hperm.eq_nil]
    · have hnil' : other ≠ [] := fun heq => hnil (by rw [heq] at hperm; exact hperm.nil_eq.symm)
      obtain ⟨a, ha, hunbeaten⟩ := best_unbeaten hirrefl htrans hnil
      obtain ⟨b, hb, hunbeaten'⟩ := best_unbeaten hirrefl htrans hnil'
      rw [ha, hb, hone b a (hunbeaten'.perm hperm.symm) hunbeaten]

end

end

section

variable {α : Type} (beats : α → α → Bool) (key : α → Key)

def retain (selected : List (Key × α)) (item : α) : List (Key × α) :=
  match selected.lookup (key item) with
  | none => put selected (key item) item
  | some current => if beats item current then put selected (key item) item else selected

def selected (items : List α) : List (Key × α) := items.foldl (retain beats key) []

def dedupe (items : List α) : List α :=
  (sortBy id (keys (selected beats key items))).filterMap fun k =>
    (selected beats key items).lookup k

variable {beats key} {items : List α}

theorem lookup_put (table : List (Key × α)) (k k' : Key) (value : α) :
    (put table k value).lookup k' = if k = k' then some value else table.lookup k' := by
  induction table with
  | nil =>
    unfold put
    rw [lookup_cons]
    by_cases h : k = k'
    · subst h
      simp
    · rw [beq_eq_false_iff_ne.mpr (Ne.symm h), if_neg h]
  | cons head rest ih =>
    obtain ⟨first, old⟩ := head
    unfold put
    by_cases hfirst : first = k
    · subst hfirst
      rw [if_pos rfl, lookup_cons, lookup_cons]
      by_cases h : first = k'
      · subst h
        simp
      · rw [beq_eq_false_iff_ne.mpr (Ne.symm h), if_neg h]
    · rw [if_neg hfirst, lookup_cons, lookup_cons, ih]
      by_cases h : k = k'
      · subst h
        rw [beq_eq_false_iff_ne.mpr (Ne.symm hfirst)]
      · simp [h]

theorem lookup_retain (table : List (Key × α)) (item : α) (k : Key) : (retain beats key table item).lookup k =
    if key item = k then keep beats (table.lookup k) item else table.lookup k := by
  unfold retain
  by_cases h : key item = k
  · subst h
    rw [if_pos rfl]
    cases hlookup : table.lookup (key item) with
    | none => simp [lookup_put, keep]
    | some current =>
      simp only [keep]
      split
      next => rw [lookup_put, if_pos rfl]
      next => exact hlookup
  · rw [if_neg h]
    split
    next => rw [lookup_put, if_neg h]
    next =>
      split
      next => rw [lookup_put, if_neg h]
      next => rfl

theorem lookup_selected (items : List α) (k : Key) :
    (selected beats key items).lookup k = best beats (items.filter fun item => key item = k) := by
  have hrun : ∀ (items : List α) (table : List (Key × α)), (items.foldl (retain beats key) table).lookup k =
      (items.filter fun item => key item = k).foldl (keep beats) (table.lookup k) := by
    intro items
    induction items with
    | nil => exact fun _ => rfl
    | cons item rest ih =>
      intro table
      rw [foldl_cons, ih, lookup_retain]
      by_cases h : key item = k
      · rw [if_pos h, filter_cons_of_pos (by simpa using h), foldl_cons]
      · rw [if_neg h, filter_cons_of_neg (by simpa using h)]
  exact hrun items []

theorem keys_put (table : List (Key × α)) (k : Key) (value : α) :
    keys (put table k value) = if k ∈ keys table then keys table else keys table ++ [k] := by
  induction table with
  | nil => simp [put, Grouping.keys]
  | cons head rest ih =>
    obtain ⟨first, old⟩ := head
    unfold put
    by_cases h : first = k
    · subst h
      simp [Grouping.keys]
    · rw [if_neg h]
      change first :: keys (put rest k value) = _
      rw [ih]
      by_cases hmem : k ∈ keys rest
      · have hmem' : k ∈ keys ((first, old) :: rest) := mem_cons_of_mem _ hmem
        rw [if_pos hmem, if_pos hmem']
        rfl
      · have hmem' : k ∉ keys ((first, old) :: rest) := by
          rintro (_ | ⟨_, hin⟩)
          · exact h rfl
          · exact hmem hin
        rw [if_neg hmem, if_neg hmem']
        rfl

theorem put_of_notMem {table : List (Key × α)} {k : Key} {value : α} (h : k ∉ keys table) :
    put table k value = table ++ [(k, value)] := by
  induction table with
  | nil => rfl
  | cons head rest ih =>
    obtain ⟨first, old⟩ := head
    simp only [Grouping.keys, map_cons, mem_cons, not_or] at h ih
    unfold put
    rw [if_neg (Ne.symm h.1), ih h.2]
    rfl

theorem lookup_isSome_iff {table : List (Key × α)} {k : Key} : (table.lookup k).isSome = true ↔ k ∈ keys table := by
  induction table with
  | nil => simp [Grouping.keys]
  | cons head rest ih =>
    obtain ⟨first, old⟩ := head
    rw [lookup_cons]
    by_cases h : k = first
    · simp [h, Grouping.keys]
    · have hne : (k == first) = false := by simpa using h
      rw [hne]
      simp only [Grouping.keys, map_cons, mem_cons, h, false_or]
      exact ih

theorem keys_retain (table : List (Key × α)) (item : α) : keys (retain beats key table item) =
    if key item ∈ keys table then keys table else keys table ++ [key item] := by
  unfold retain
  split
  next hnone => rw [keys_put]
  next current hsome =>
    have hmem : key item ∈ keys table := lookup_isSome_iff.mp (by rw [hsome]; rfl)
    rw [if_pos hmem]
    split
    next => rw [keys_put, if_pos hmem]
    next => rfl

theorem keys_selected (items : List α) : (keys (selected beats key items)).Nodup ∧
    ∀ k, k ∈ keys (selected beats key items) ↔ ∃ item ∈ items, key item = k := by
  have hrun : ∀ (items : List α) (table : List (Key × α)), (keys table).Nodup →
      (keys (items.foldl (retain beats key) table)).Nodup ∧
        ∀ k, k ∈ keys (items.foldl (retain beats key) table) ↔ k ∈ keys table ∨ ∃ item ∈ items, key item = k := by
    intro items
    induction items with
    | nil => exact fun table hnodup => ⟨hnodup, by simp⟩
    | cons item rest ih =>
      intro table hnodup
      have hstep : (keys (retain beats key table item)).Nodup := by
        rw [keys_retain]
        split
        next => exact hnodup
        next hmem => exact List.nodup_append.mpr ⟨hnodup, nodup_singleton _, by
          intro x hx y hy heq
          exact hmem (mem_singleton.mp hy ▸ heq ▸ hx)⟩
      obtain ⟨hdistinct, hmem⟩ := ih (retain beats key table item) hstep
      refine ⟨hdistinct, fun k => ?_⟩
      rw [foldl_cons, hmem k, keys_retain, exists_mem_cons_iff]
      split
      next hin =>
        constructor
        · rintro (h | h)
          · exact .inl h
          · exact .inr (.inr h)
        · rintro (h | rfl | h)
          · exact .inl h
          · exact .inl hin
          · exact .inr h
      next =>
        rw [mem_append, mem_singleton, or_assoc, @eq_comm Key k]
  obtain ⟨hnodup, hmem⟩ := hrun items [] nodup_nil
  exact ⟨hnodup, fun k => (hmem k).trans (by simp [Grouping.keys])⟩

variable (key) in
/-- The items of a key. -/
def group (items : List α) (k : Key) : List α := items.filter fun item => key item = k

theorem dedupe_eq (items : List α) : dedupe beats key items =
    (sortBy id (items.map key).dedup).filterMap fun k => best beats (group key items k) := by
  have hlookup : (fun k => (selected beats key items).lookup k) = fun k => best beats (group key items k) :=
    funext fun k => lookup_selected items k
  have hperm : (keys (selected beats key items)).Perm (items.map key).dedup := by
    obtain ⟨hnodup, hmem⟩ := @keys_selected α beats key items
    refine (perm_ext_iff_of_nodup hnodup (nodup_dedup _)).mpr fun k => ?_
    rw [hmem, mem_dedup, mem_map]
  have hsorted : sortBy id (keys (selected beats key items)) = sortBy id (items.map key).dedup :=
    KeyedList.sortBy_congr hperm fun a _ b _ heq => heq
  unfold dedupe
  rw [hsorted, hlookup]

theorem perm_dedupe (items : List α) : (dedupe beats key items).Perm ((selected beats key items).map Prod.snd) := by
  have hvalues : ∀ table : List (Key × α), (keys table).Nodup →
      ((keys table).filterMap fun k => table.lookup k) = table.map Prod.snd := by
    intro table hnodup
    induction table with
    | nil => rfl
    | cons head rest ih =>
      obtain ⟨k, value⟩ := head
      obtain ⟨hnot, hrest⟩ := nodup_cons.mp hnodup
      have hsame : ∀ other ∈ keys rest, List.lookup other ((k, value) :: rest) = rest.lookup other := by
        intro other hother
        have hne : other ≠ k := fun heq => hnot (heq ▸ hother)
        rw [lookup_cons, beq_eq_false_iff_ne.mpr hne]
      have hhead : List.lookup k ((k, value) :: rest) = some value := by
        rw [lookup_cons, beq_self_eq_true]
      change List.filterMap _ (k :: keys rest) = _
      rw [filterMap_cons, hhead]
      dsimp only
      rw [filterMap_congr hsame, ih hrest, map_cons]
  rw [← hvalues _ (keys_selected items).1]
  exact (KeyedList.perm_sortBy _ _).filterMap _

section

variable (hirrefl : ∀ a, beats a a = false)
  (htrans : ∀ a b c, beats a b = true → beats b c = true → beats a c = true)
include hirrefl htrans

theorem mem_dedupe {a : α} : a ∈ dedupe beats key items ↔ best beats (group key items (key a)) = some a := by
  rw [dedupe_eq, mem_filterMap]
  constructor
  · rintro ⟨k, -, hbest⟩
    have hne : group key items k ≠ [] := by
      intro hnil
      rw [hnil] at hbest
      cases hbest
    obtain ⟨b, hb, hmem, -⟩ := best_unbeaten hirrefl htrans hne
    have hab : b = a := Option.some.inj (hb.symm.trans hbest)
    have hkey : key a = k := by
      rw [hab] at hmem
      simpa using (mem_filter.mp hmem).2
    rwa [hkey]
  · intro hbest
    have hne : group key items (key a) ≠ [] := by
      intro hnil
      rw [hnil] at hbest
      cases hbest
    obtain ⟨item, hitem⟩ := exists_mem_of_ne_nil _ hne
    obtain ⟨hitem, hkey⟩ := mem_filter.mp hitem
    refine ⟨key a, ?_, hbest⟩
    rw [KeyedList.mem_sortBy, mem_dedup]
    exact mem_map.mpr ⟨item, hitem, by simpa using hkey⟩

/-- The kept items do not depend on the order in which the items come if and only if each key has one unbeaten item. -/
theorem dedupe_perm_iff : (∀ other : List α, other.Perm items → dedupe beats key other = dedupe beats key items) ↔
    ∀ k a b, Unbeaten beats (group key items k) a → Unbeaten beats (group key items k) b → a = b := by
  constructor
  · intro hall k
    refine (best_perm_iff hirrefl htrans).mp ?_
    intro part hpart
    -- the items of the key in the new order, then all the others
    have hkeys : ∀ item ∈ part, key item = k := fun item hitem => by
      simpa using (mem_filter.mp (hpart.mem_iff.mp hitem)).2
    have hperm : (part ++ items.filter fun item => !decide (key item = k)).Perm items :=
      (hpart.append_right _).trans (filter_append_perm (fun item => decide (key item = k)) items)
    have hgroup : group key (part ++ items.filter fun item => !decide (key item = k)) k = part := by
      unfold group
      rw [filter_append, filter_eq_self.mpr fun item hitem => by simpa using hkeys item hitem, filter_filter]
      simp
    by_cases hnil : group key items k = []
    · rw [hnil] at hpart ⊢
      rw [hpart.eq_nil]
    · have hnil' : part ≠ [] := fun heq => hnil (by rw [heq] at hpart; exact hpart.nil_eq.symm)
      obtain ⟨a, ha, hmem, -⟩ := best_unbeaten hirrefl htrans hnil'
      have hkey : key a = k := hkeys a hmem
      have hkept : a ∈ dedupe beats key (part ++ items.filter fun item => !decide (key item = k)) := by
        rw [mem_dedupe hirrefl htrans, hkey, hgroup]
        exact ha
      rw [hall _ hperm, mem_dedupe hirrefl htrans, hkey] at hkept
      rw [ha, hkept]
  · intro hone other hperm
    rw [dedupe_eq, dedupe_eq]
    have hsorted : sortBy id (other.map key).dedup = sortBy id (items.map key).dedup :=
      KeyedList.sortBy_congr (hperm.map key).dedup fun a _ b _ heq => heq
    have hbest : ∀ k, best beats (group key other k) = best beats (group key items k) := fun k =>
      (best_perm_iff hirrefl htrans).mpr (hone k) _ (hperm.filter _)
    simp only [hsorted, hbest]

end

end

end KeepBest
