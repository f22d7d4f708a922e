import Mathlib.Data.List.Basic
import Leitir.LawfulLists

namespace ExceptRun

open List

variable {ε α β γ : Type}

variable {x : Except ε α} {f : α → Except ε β} {items : List α} {results : List β}

theorem bind_ok {b : β} (h : x >>= f = .ok b) :
    ∃ a, x = .ok a ∧ f a = .ok b := by
  cases x with
  | error e => cases h
  | ok a => exact ⟨a, rfl, h⟩

theorem exists_ok (h : x.isOk = true) : ∃ a, x = .ok a := by
  cases x with
  | error e => cases h
  | ok a => exact ⟨a, rfl⟩

theorem toOption_ok {a : α} (h : x.toOption = some a) : x = .ok a := by
  cases x with
  | error e => cases h
  | ok b =>
    cases h
    rfl

theorem bind_eq {a : α} (h : x = .ok a) : x >>= f = f a := by
  rw [h]
  rfl

theorem map_ok {f : α → β} {b : β} (h : x.map f = .ok b) :
    ∃ a, x = .ok a ∧ f a = b := by
  cases x with
  | error err => cases h
  | ok a =>
    cases h
    exact ⟨a, rfl, rfl⟩

theorem guard_ok {p : Prop} [Decidable p] {e : ε} {a : α} (h : (if p then .error e else x) = .ok a) :
    ¬ p ∧ x = .ok a := by
  split at h
  next => cases h
  next hp => exact ⟨hp, h⟩

theorem mapM_ok_mem
    (h : items.mapM f = .ok results) :
    (∀ item ∈ items, ∃ result ∈ results, f item = .ok result) ∧
      ∀ result ∈ results, ∃ item ∈ items, f item = .ok result := by
  induction items generalizing results with
  | nil =>
    cases h
    simp
  | cons item rest ih =>
    rw [mapM_cons] at h
    obtain ⟨result, hresult, h⟩ := bind_ok h
    obtain ⟨others, hothers, h⟩ := bind_ok h
    cases h
    obtain ⟨hleft, hright⟩ := ih hothers
    refine ⟨?_, ?_⟩
    · intro other hother
      rcases mem_cons.mp hother with rfl | hother
      · exact ⟨result, mem_cons_self, hresult⟩
      · obtain ⟨r, hr, hf⟩ := hleft other hother
        exact ⟨r, mem_cons_of_mem _ hr, hf⟩
    · intro r hr
      rcases mem_cons.mp hr with rfl | hr
      · exact ⟨item, mem_cons_self, hresult⟩
      · obtain ⟨other, hother, hf⟩ := hright r hr
        exact ⟨other, mem_cons_of_mem _ hother, hf⟩

theorem mapM_ok_zip (h : items.mapM f = .ok results) :
    ∀ item ∈ items, ∃ result, (item, result) ∈ items.zip results ∧ f item = .ok result := by
  induction items generalizing results with
  | nil =>
    intro item hitem
    cases hitem
  | cons head rest ih =>
    rw [mapM_cons] at h
    obtain ⟨result, hresult, h⟩ := bind_ok h
    obtain ⟨others, hothers, h⟩ := bind_ok h
    cases h
    intro item hitem
    rcases mem_cons.mp hitem with rfl | hitem
    · exact ⟨result, mem_cons_self, hresult⟩
    · obtain ⟨other, hmem, hother⟩ := ih hothers item hitem
      exact ⟨other, mem_cons_of_mem _ hmem, hother⟩

theorem mapM_ok_forall₂ (h : items.mapM f = .ok results) :
    List.Forall₂ (fun item result => f item = .ok result) items results := by
  induction items generalizing results with
  | nil =>
    cases h
    exact .nil
  | cons head rest ih =>
    rw [mapM_cons] at h
    obtain ⟨result, hresult, h⟩ := bind_ok h
    obtain ⟨others, hothers, h⟩ := bind_ok h
    cases h
    exact .cons hresult (ih hothers)

theorem mapM_ok_map {g : α → β} (h : ∀ item ∈ items, f item = .ok (g item)) :
    items.mapM f = .ok (items.map g) := by
  induction items with
  | nil => rfl
  | cons item items ih =>
    rw [mapM_cons, h item mem_cons_self, ih fun other hother => h other (mem_cons_of_mem _ hother)]
    rfl

theorem mapM_ok_of_mem (h : ∀ item ∈ items, ∃ result, f item = .ok result) :
    ∃ results, items.mapM f = .ok results := by
  induction items with
  | nil => exact ⟨[], rfl⟩
  | cons item items ih =>
    obtain ⟨result, hresult⟩ := h item mem_cons_self
    obtain ⟨results, hresults⟩ := ih fun other hother => h other (mem_cons_of_mem _ hother)
    refine ⟨result :: results, ?_⟩
    rw [mapM_cons, hresult, hresults]
    rfl

theorem forM_ok {f : α → Except ε Unit} (h : ∀ item ∈ items, f item = .ok ()) : items.forM f = .ok () := by
  induction items with
  | nil => rfl
  | cons item items ih =>
    rw [forall_mem_cons] at h
    change (f item >>= fun _ => items.forM f) = .ok ()
    rw [bind_eq h.1]
    exact ih h.2

theorem forM_ok_mem {f : α → Except ε Unit} (h : items.forM f = .ok ()) :
    ∀ item ∈ items, f item = .ok () := by
  induction items with
  | nil => exact fun item hitem => absurd hitem not_mem_nil
  | cons first rest ih =>
    obtain ⟨_, hfirst, hrest⟩ := bind_ok h
    intro item hitem
    rcases mem_cons.mp hitem with rfl | hitem
    · exact hfirst
    · exact ih hrest item hitem

theorem mapM_ok_iff :
    items.mapM f = .ok results ↔ items.map f = results.map .ok := by
  induction items generalizing results with
  | nil =>
    cases results with
    | nil => exact ⟨fun _ => rfl, fun _ => rfl⟩
    | cons result rest => exact ⟨fun h => absurd h nofun, fun h => absurd h nofun⟩
  | cons item rest ih =>
    rw [mapM_cons, map_cons]
    constructor
    · intro h
      obtain ⟨result, hresult, h⟩ := bind_ok h
      obtain ⟨others, hothers, h⟩ := bind_ok h
      cases h
      rw [hresult, ih.mp hothers, map_cons]
    · intro h
      cases results with
      | nil => cases h
      | cons result others =>
        obtain ⟨hresult, hothers⟩ := List.cons.inj h
        rw [hresult, ih.mpr hothers]
        rfl

/-- Runs over the same items in another order give the same results in another order. -/
theorem mapM_perm {g : γ → Except ε β} {others : List γ}
    (h : items.mapM f = .ok results) (hperm : (others.map g).Perm (items.map f)) :
    ∃ found, others.mapM g = .ok found ∧ found.Perm results := by
  rw [mapM_ok_iff] at h
  rw [h] at hperm
  have hback : ∀ list : List β, (list.map (Except.ok (ε := ε))).filterMap Except.toOption = list := by
    intro list
    rw [filterMap_map]
    exact filterMap_some
  refine ⟨(others.map g).filterMap Except.toOption, mapM_ok_iff.mpr ?_, ?_⟩
  · have hok : ∀ value ∈ others.map g, ∃ result, value = .ok result := by
      intro value hvalue
      obtain ⟨result, -, hresult⟩ := mem_map.mp (hperm.mem_iff.mp hvalue)
      exact ⟨result, hresult.symm⟩
    generalize others.map g = values at hok
    induction values with
    | nil => rfl
    | cons value rest ih =>
      obtain ⟨⟨result, rfl⟩, hrest⟩ := forall_mem_cons.mp hok
      have htail := ih hrest
      exact congrArg (List.cons (.ok result)) htail
  · have hfilter := hperm.filterMap Except.toOption
    rwa [hback] at hfilter

end ExceptRun
