import Mathlib.Tactic.FieldSimp
import Mathlib.Tactic.LinearCombination
import Mathlib.Tactic.Ring
import Leitir.LawfulLists

/-! Twisted Edwards curves `a x² + y² = 1 + d x² y²` over a field and the complete addition on them. -/

namespace Edwards

variable {K : Type} [Field K] {a d : K}

def OnCurve (a d : K) (p : K × K) : Prop := a * p.1 ^ 2 + p.2 ^ 2 = 1 + d * p.1 ^ 2 * p.2 ^ 2

def cross (d : K) (p q : K × K) : K := d * p.1 * q.1 * p.2 * q.2

def add (a d : K) (p q : K × K) : K × K :=
  ((p.1 * q.2 + q.1 * p.2) / (1 + cross d p q), (p.2 * q.2 - a * p.1 * q.1) / (1 - cross d p q))

variable {p q : K × K}

theorem square_of_unit {s e : K} (hs : s ^ 2 = a) (hp : OnCurve a d p) (hq : OnCurve a d q) (he : e ^ 2 = 1) (hcross : cross d p q = e) :
    (s * p.1 + e * p.2) ^ 2 = d * (p.1 * p.2 * (s * q.1 + q.2)) ^ 2 := by
  unfold OnCurve at hp hq
  unfold cross at hcross
  have hsquare : (d * p.1 * q.1 * p.2 * q.2) ^ 2 = 1 := by
    rw [hcross, he]
  linear_combination p.1 ^ 2 * hs + hp + p.2 ^ 2 * he + 2 * s * p.1 * p.2 * (-hcross) - d * p.1 ^ 2 * p.2 ^ 2 * hq -
    d * p.1 ^ 2 * p.2 ^ 2 * q.1 ^ 2 * hs - hsquare

theorem isSquare_of_mul {x y : K} (h : x ^ 2 = d * y ^ 2) (hy : y ≠ 0) : IsSquare d := by
  refine ⟨x / y, ?_⟩
  field_simp
  linear_combination -h

/-- No two points have a cross term that is a unit root, when `a` is a square and `d` is not. -/
theorem cross_ne {s e : K} (hs : s ^ 2 = a) (htwo : (2 : K) ≠ 0) (hd : ¬ IsSquare d) (hp : OnCurve a d p)
    (hq : OnCurve a d q) (he : e ^ 2 = 1) : cross d p q ≠ e := by
  intro hcross
  have he0 : e ≠ 0 := by
    rintro rfl
    simp at he
  have hterms : d * p.1 * q.1 * p.2 * q.2 ≠ 0 := by
    show cross d p q ≠ 0
    rw [hcross]
    exact he0
  have hp1 : p.1 ≠ 0 := fun hzero => hterms (by rw [hzero]; ring)
  have hp2 : p.2 ≠ 0 := fun hzero => hterms (by rw [hzero]; ring)
  have hq2 : q.2 ≠ 0 := fun hzero => hterms (by rw [hzero]; ring)
  have hplus : s * q.1 + q.2 = 0 := by
    by_contra hne
    exact hd (isSquare_of_mul (square_of_unit hs hp hq he hcross) (mul_ne_zero (mul_ne_zero hp1 hp2) hne))
  have hminus : -s * q.1 + q.2 = 0 := by
    by_contra hne
    have hneg : (-s) ^ 2 = a := by rw [← hs]; ring
    exact hd (isSquare_of_mul (square_of_unit hneg hp hq he hcross) (mul_ne_zero (mul_ne_zero hp1 hp2) hne))
  -- the two factors vanish together only where the second coordinate does
  have hdouble : 2 * q.2 = 0 := by linear_combination hplus + hminus
  rcases mul_eq_zero.mp hdouble with hzero | hzero
  · exact htwo hzero
  · exact hq2 hzero

theorem denominators_ne_zero {s : K} (hs : s ^ 2 = a) (htwo : (2 : K) ≠ 0) (hd : ¬ IsSquare d)
    (hp : OnCurve a d p) (hq : OnCurve a d q) : 1 + cross d p q ≠ 0 ∧ 1 - cross d p q ≠ 0 := by
  constructor
  · intro hzero
    exact cross_ne hs htwo hd hp hq (show (-1 : K) ^ 2 = 1 by ring) (by linear_combination hzero)
  · intro hzero
    exact cross_ne hs htwo hd hp hq (show (1 : K) ^ 2 = 1 by ring) (by linear_combination -hzero)

theorem add_onCurve (hp : OnCurve a d p) (hq : OnCurve a d q) (hplus : 1 + cross d p q ≠ 0) (hminus : 1 - cross d p q ≠ 0) :
    OnCurve a d (add a d p q) := by
  obtain ⟨x, y⟩ := p
  obtain ⟨z, w⟩ := q
  unfold OnCurve at hp hq
  unfold OnCurve add
  dsimp only at hp hq ⊢
  have hproduct : a * (x * w + z * y) ^ 2 * (1 - d * x * z * y * w) ^ 2 + (y * w - a * x * z) ^ 2 * (1 + d * x * z * y * w) ^ 2 -
      d * (x * w + z * y) ^ 2 * (y * w - a * x * z) ^ 2 =
      (a * x ^ 2 + y ^ 2 - (a * z ^ 2 + w ^ 2) * d * x ^ 2 * y ^ 2) *
        (a * z ^ 2 + w ^ 2 - (a * x ^ 2 + y ^ 2) * d * z ^ 2 * w ^ 2) := by
    ring
  rw [hp, hq] at hproduct
  unfold cross at hplus hminus ⊢
  dsimp only at hplus hminus ⊢
  generalize hm : 1 + d * x * z * y * w = m at hplus hproduct ⊢
  generalize hn : 1 - d * x * z * y * w = n at hminus hproduct ⊢
  field_simp
  rw [← hm, ← hn] at hproduct ⊢
  linear_combination hproduct

end Edwards
