import Leitir.LawfulLists
/-! Paths from a root in which some steps go one layer deeper and some stay in their layer. -/

namespace LayeredPath

variable {α : Type}

/-- A path to a vertex with the number of its steps that go deeper. -/
inductive Path (root : α) (deeper beside : α → α → Prop) : α → Nat → Prop
  | root : Path root deeper beside root 0
  | deeper {a b : α} {k : Nat} : Path root deeper beside a k → deeper a b → Path root deeper beside b (k + 1)
  | beside {a b : α} {k : Nat} : Path root deeper beside a k → beside a b → Path root deeper beside b k

variable {root : α} {deeper beside : α → α → Prop}

theorem Path.mono {deeper' beside' : α → α → Prop} (hdeeper : ∀ a b, deeper a b → deeper' a b)
    (hbeside : ∀ a b, beside a b → beside' a b) {a : α} {k : Nat} (h : Path root deeper beside a k) :
    Path root deeper' beside' a k := by
  induction h with
  | root => exact .root
  | deeper _ hstep ih => exact .deeper ih (hdeeper _ _ hstep)
  | beside _ hstep ih => exact .beside ih (hbeside _ _ hstep)

def Due (layer : α → Option Nat) (a : α) (k : Nat) : Prop :=
  (∃ d, layer a = some d ∧ d ≤ k) ∨ ∀ b d, layer b = some d → d ≤ k

variable {layer : α → Option Nat}

theorem Due.mono {a : α} {k l : Nat} (h : Due layer a k) (hle : k ≤ l) : Due layer a l := by
  rcases h with ⟨d, hd, hdk⟩ | hall
  · exact Or.inl ⟨d, hd, Nat.le_trans hdk hle⟩
  · exact Or.inr fun b d hd => Nat.le_trans (hall b d hd) hle

theorem Due.le {a : α} {k d : Nat} (h : Due layer a k) (ha : layer a = some d) : d ≤ k := by
  rcases h with ⟨e, he, hek⟩ | hall
  · rw [ha] at he
    cases he
    exact hek
  · exact hall a d ha

end LayeredPath
