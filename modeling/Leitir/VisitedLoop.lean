import Mathlib.Data.Set.Finite.Lattice
import Leitir.LawfulLists

namespace Visited

open Relation List

/-- A loop that remembers the states it has seen: it may be done with a state,
stops when a state comes back, and otherwise takes a step that may fail. -/
structure Machine (σ ρ : Type) where
  done : σ → Option ρ
  repeated : ρ
  step : σ → Except ρ σ

variable {σ ρ : Type} [DecidableEq σ]

def Machine.run (m : Machine σ ρ) : Nat → List σ → σ → Option ρ
  | 0, _, _ => none
  | fuel + 1, seen, s =>
    match m.done s with
    | some r => some r
    | none =>
      if s ∈ seen then some m.repeated
      else
        match m.step s with
        | .error r => some r
        | .ok t => m.run fuel (s :: seen) t

omit [DecidableEq σ] in
/-- One round of the loop that goes on. -/
def Machine.Next (m : Machine σ ρ) (s t : σ) : Prop := m.done s = none ∧ m.step s = .ok t

omit [DecidableEq σ] in
def Machine.reach (m : Machine σ ρ) (s : σ) : Set σ := {t | ReflTransGen m.Next s t}

variable {m : Machine σ ρ} {s t : σ}

omit [DecidableEq σ] in
theorem Machine.Next.unique {u : σ} (h : m.Next s t) (h' : m.Next s u) : t = u := by
  have heq := h.2.symm.trans h'.2
  exact Except.ok.inj heq

variable {fuel : Nat} {seen : List σ}

theorem Machine.run_mono {more : Nat} {r : ρ} (h : m.run fuel seen s = some r)
    (hle : fuel ≤ more) : m.run more seen s = some r := by
  induction fuel generalizing more seen s with
  | zero => simp [Machine.run] at h
  | succ fuel ih =>
    obtain ⟨more, rfl⟩ : ∃ n, more = n + 1 := ⟨more - 1, by omega⟩
    unfold Machine.run at h ⊢
    split
    next hd => simpa only [hd] using h
    next hd =>
      simp only [hd] at h
      split
      next hs => simpa only [hs, if_true] using h
      next hs =>
        simp only [hs, if_false] at h
        split
        next hstep => simpa only [hstep] using h
        next hstep =>
          simp only [hstep] at h
          exact ih h (by omega)

/-- A loop that returns has a finite set around its states that no round leaves. -/
theorem Machine.run_closed {r : ρ} (h : m.run fuel seen s = some r)
    (hseen : ∀ x ∈ seen, ∀ y, m.Next x y → y = s ∨ y ∈ seen) :
    ∃ F : Set σ, F.Finite ∧ s ∈ F ∧ ∀ x ∈ F, ∀ y, m.Next x y → y ∈ F := by
  induction fuel generalizing seen s with
  | zero => simp [Machine.run] at h
  | succ fuel ih =>
    have hstop : (∀ y, m.Next s y → y = s ∨ y ∈ seen) →
        ∃ F : Set σ, F.Finite ∧ s ∈ F ∧ ∀ x ∈ F, ∀ y, m.Next x y → y ∈ F := by
      intro hs
      refine ⟨{x | x ∈ s :: seen}, finite_toSet _, by simp, ?_⟩
      intro x hx y hy
      rcases mem_cons.mp hx with rfl | hx
      · exact mem_cons.mpr (hs y hy)
      · exact mem_cons.mpr (hseen x hx y hy)
    unfold Machine.run at h
    split at h
    next hd =>
      apply hstop
      rintro y ⟨hnone, _⟩
      rw [hd] at hnone
      simp at hnone
    next =>
      split at h
      next hs => exact hstop fun y hy => hseen s hs y hy
      next =>
        split at h
        next hstep =>
          apply hstop
          rintro y ⟨_, hok⟩
          rw [hstep] at hok
          simp at hok
        next u hstep =>
          have hgrow : ∀ x ∈ s :: seen, ∀ y, m.Next x y → y = u ∨ y ∈ s :: seen := by
            intro x hx y hy
            rcases mem_cons.mp hx with rfl | hx
            · exact Or.inl (Except.ok.inj (hy.2.symm.trans hstep))
            · exact Or.inr (mem_cons.mpr (hseen x hx y hy))
          obtain ⟨F, hfinite, hu, hclosed⟩ := ih h hgrow
          refine ⟨insert s F, hfinite.insert s, Set.mem_insert s F, ?_⟩
          intro x hx y hy
          rcases Set.mem_insert_iff.mp hx with rfl | hx
          · have heq : y = u := Except.ok.inj (hy.2.symm.trans hstep)
            exact Set.mem_insert_of_mem _ (heq ▸ hu)
          · exact Set.mem_insert_of_mem _ (hclosed x hx y hy)

omit [DecidableEq σ] in
theorem Machine.reach_subset {F : Set σ} (hs : s ∈ F) (hclosed : ∀ x ∈ F, ∀ y, m.Next x y → y ∈ F) :
    m.reach s ⊆ F := by
  intro t ht
  induction ht with
  | refl => exact hs
  | tail _ hnext ih => exact hclosed _ ih _ hnext

theorem Machine.run_within {F : Finset σ} (hclosed : ∀ x ∈ F, ∀ y, m.Next x y → y ∈ F) (fuel : Nat)
    (seen : List σ) (hs : s ∈ F) (hseen : ∀ x ∈ seen, x ∈ F) (hnodup : seen.Nodup)
    (hfuel : F.card < fuel + seen.length) : ∃ r, m.run fuel seen s = some r := by
  have hle : seen.length ≤ F.card := by
    rw [← toFinset_card_of_nodup hnodup]
    apply Finset.card_le_card
    intro x hx
    exact hseen x (mem_toFinset.mp hx)
  induction fuel generalizing seen s with
  | zero => omega
  | succ fuel ih =>
    unfold Machine.run
    split
    next r _ => exact ⟨r, rfl⟩
    next hd =>
      split
      next => exact ⟨_, rfl⟩
      next hfresh =>
        split
        next r _ => exact ⟨r, rfl⟩
        next u hstep =>
          have hgrown : (s :: seen).Nodup := nodup_cons.mpr ⟨hfresh, hnodup⟩
          have hall : ∀ x ∈ s :: seen, x ∈ F := forall_mem_cons.mpr ⟨hs, hseen⟩
          apply ih _ (hclosed s hs u ⟨hd, hstep⟩) hall hgrown
          · rw [length_cons]
            omega
          · rw [← toFinset_card_of_nodup hgrown]
            apply Finset.card_le_card
            intro x hx
            exact hall x (mem_toFinset.mp hx)

theorem Machine.run_returns_iff : (∃ fuel r, m.run fuel [] s = some r) ↔ (m.reach s).Finite := by
  constructor
  · rintro ⟨fuel, r, h⟩
    obtain ⟨F, hfinite, hs, hclosed⟩ := Machine.run_closed h (by simp)
    exact hfinite.subset (Machine.reach_subset hs hclosed)
  · intro hfinite
    have hclosed : ∀ x ∈ hfinite.toFinset, ∀ y, m.Next x y → y ∈ hfinite.toFinset := by
      intro x hx y hy
      rw [Set.Finite.mem_toFinset] at hx ⊢
      exact ReflTransGen.tail hx hy
    have hs : s ∈ hfinite.toFinset := by
      rw [Set.Finite.mem_toFinset]
      exact ReflTransGen.refl
    exact ⟨_, Machine.run_within hclosed (hfinite.toFinset.card + 1) [] hs (by simp) nodup_nil (by simp)⟩

omit [DecidableEq σ] in
/-- A state on a cycle reaches no state without a next one. -/
theorem Machine.cycle_goes_on (hcycle : TransGen m.Next s s) (ht : t ∈ m.reach s) : ∃ u, m.Next t u := by
  induction ht using ReflTransGen.head_induction_on with
  | refl =>
    obtain ⟨u, hu, _⟩ := TransGen.head'_iff.mp hcycle
    exact ⟨u, hu⟩
  | head hnext _ ih =>
    obtain ⟨u, hu, hback⟩ := TransGen.head'_iff.mp hcycle
    cases hu.unique hnext
    exact ih (TransGen.tail' hback hnext)

theorem Machine.run_done {r q : ρ} (h : m.run fuel seen s = some q)
    (ht : t ∈ m.reach s) (hdone : m.done t = some r) (hseen : ∀ x ∈ seen, TransGen m.Next x s) : q = r := by
  have hlast : ∀ u, ¬ m.Next t u := by
    rintro u ⟨hnone, _⟩
    rw [hdone] at hnone
    simp at hnone
  induction fuel generalizing seen s with
  | zero => simp [Machine.run] at h
  | succ fuel ih =>
    rcases ReflTransGen.cases_head ht with rfl | ⟨u, hnext, hrest⟩
    · unfold Machine.run at h
      simp only [hdone] at h
      exact (Option.some.inj h).symm
    · unfold Machine.run at h
      simp only [hnext.1] at h
      split at h
      next hs =>
        obtain ⟨v, hv⟩ := Machine.cycle_goes_on (hseen s hs) ht
        exact absurd hv (hlast v)
      next =>
        simp only [hnext.2] at h
        apply ih h hrest
        intro x hx
        rcases mem_cons.mp hx with rfl | hx
        · exact TransGen.single hnext
        · exact (hseen x hx).tail hnext

theorem Machine.run_result {q : ρ} (h : m.run fuel seen s = some q) :
    q = m.repeated ∨ ∃ t ∈ m.reach s, m.done t = some q ∨ m.done t = none ∧ m.step t = .error q := by
  induction fuel generalizing seen s with
  | zero => simp [Machine.run] at h
  | succ fuel ih =>
    unfold Machine.run at h
    split at h
    next r hd =>
      cases h
      exact Or.inr ⟨s, ReflTransGen.refl, Or.inl hd⟩
    next hd =>
      split at h
      next =>
        cases h
        exact Or.inl rfl
      next =>
        split at h
        next r hstep =>
          cases h
          exact Or.inr ⟨s, ReflTransGen.refl, Or.inr ⟨hd, hstep⟩⟩
        next u hstep =>
          rcases ih h with hrep | ⟨t, ht, hend⟩
          · exact Or.inl hrep
          · exact Or.inr ⟨t, ReflTransGen.head ⟨hd, hstep⟩ ht, hend⟩

omit [DecidableEq σ] in
/-- A cycle visits finitely many states. -/
theorem Machine.reach_finite_of_cycle (hcycle : TransGen m.Next s s) : (m.reach s).Finite := by
  have hpath : ∀ {a}, ReflTransGen m.Next a s →
      ∃ F : Set σ, F.Finite ∧ a ∈ F ∧ s ∈ F ∧ ∀ x ∈ F, x ≠ s → ∀ y, m.Next x y → y ∈ F := by
    intro a ha
    induction ha using ReflTransGen.head_induction_on with
    | refl => exact ⟨{s}, Set.finite_singleton s, rfl, rfl, fun x hx hne => absurd hx hne⟩
    | @head a b hnext _ ih =>
      obtain ⟨F, hfinite, hb, hs, hclosed⟩ := ih
      refine ⟨insert a F, hfinite.insert a, Set.mem_insert a F, Set.mem_insert_of_mem a hs, ?_⟩
      intro x hx hne y hy
      rcases Set.mem_insert_iff.mp hx with rfl | hx
      · exact Set.mem_insert_of_mem _ (hnext.unique hy ▸ hb)
      · exact Set.mem_insert_of_mem _ (hclosed x hx hne y hy)
  obtain ⟨u, hu, hback⟩ := TransGen.head'_iff.mp hcycle
  obtain ⟨F, hfinite, huF, hsF, hclosed⟩ := hpath hback
  refine hfinite.subset (Machine.reach_subset hsF ?_)
  intro x hx y hy
  by_cases hxs : x = s
  · subst hxs
    exact hu.unique hy ▸ huF
  · exact hclosed x hx hxs y hy

end Visited
