import Mathlib.Data.Int.Log
import Mathlib.Data.Rat.Floor
import Mathlib.Tactic.Positivity
import Leitir.LawfulLists

namespace DecimalRound

def halfEven (q : ℚ) : ℤ :=
  if q - ⌊q⌋ < 1 / 2 then ⌊q⌋ else if 1 / 2 < q - ⌊q⌋ then ⌊q⌋ + 1 else if ⌊q⌋ % 2 = 0 then ⌊q⌋ else ⌊q⌋ + 1

def halfUp (q : ℚ) : ℤ := ⌊q + 1 / 2⌋

def exponent (precision : ℕ) (q : ℚ) : ℤ := Int.log 10 q - (precision - 1)

def rounded (precision : ℕ) (q : ℚ) : ℚ := halfEven (q / 10 ^ exponent precision q) * 10 ^ exponent precision q

def divide (precision a b : ℕ) : ℚ := if a = 0 then 0 else rounded precision (a / b)

theorem halfEven_int (z : ℤ) : halfEven z = z := by
  unfold halfEven
  rw [Int.floor_intCast, sub_self, if_pos (by norm_num)]

theorem rounded_exact {precision : ℕ} {q : ℚ} {z : ℤ} (h : q = z * 10 ^ exponent precision q) : rounded precision q = q := by
  have hpos : (0 : ℚ) < 10 ^ exponent precision q := zpow_pos (by norm_num) _
  have hz : q / 10 ^ exponent precision q = z := by
    rw [div_eq_iff hpos.ne']
    exact h
  rw [rounded, hz, halfEven_int]
  exact h.symm

end DecimalRound
