import Mathlib.Data.Int.Bitwise
import Mathlib.Data.Nat.Log
import Mathlib.Tactic.Ring
import Leitir.LawfulLists

namespace Bits

def bitLength (n : Nat) : Nat :=
  if n = 0 then 0 else Nat.log2 n + 1

def lowBit (n : Nat) : Nat :=
  (Int.land n (-n)).toNat

variable {n : Nat}

theorem bitLength_of_bounds {k : Nat} (low : 2 ^ k ≤ n) (high : n < 2 ^ (k + 1)) :
    bitLength n = k + 1 := by
  have hn : n ≠ 0 := by have := Nat.two_pow_pos k; omega
  rw [bitLength, if_neg hn, (Nat.log2_eq_iff hn).mpr ⟨low, high⟩]

theorem bitLength_two_pow (k : Nat) : bitLength (2 ^ k) = k + 1 :=
  bitLength_of_bounds le_rfl (by rw [pow_succ]; have := Nat.two_pow_pos k; omega)

theorem bitLength_two_mul (hn : n ≠ 0) : bitLength (2 * n) = bitLength n + 1 := by
  rw [bitLength, bitLength, if_neg (by omega), if_neg hn, Nat.log2_two_mul hn]

theorem lowBit_succ (n : Nat) : lowBit (n + 1) = Nat.ldiff (n + 1) n := rfl

theorem lowBit_odd (k : Nat) : lowBit (2 * k + 1) = 1 := by
  rw [lowBit_succ]
  apply Nat.eq_of_testBit_eq
  intro i
  rw [Nat.testBit_ldiff]
  cases i with
  | zero => simp [Nat.testBit_zero]
  | succ i =>
    have half : (2 * k + 1) / 2 = k := by omega
    simp [Nat.testBit_succ, half]

theorem lowBit_even {k : Nat} (hk : 0 < k) : lowBit (2 * k) = 2 * lowBit k := by
  obtain ⟨j, rfl⟩ : ∃ j, k = j + 1 := ⟨k - 1, by omega⟩
  have hd : 2 * (j + 1) = (2 * j + 1) + 1 := by omega
  rw [hd, lowBit_succ, lowBit_succ]
  apply Nat.eq_of_testBit_eq
  intro i
  rw [Nat.testBit_ldiff]
  cases i with
  | zero => simp [Nat.testBit_zero]
  | succ i =>
    have h1 : (2 * j + 1 + 1) / 2 = j + 1 := by omega
    have h2 : (2 * j + 1) / 2 = j := by omega
    have h3 : 2 * (j + 1).ldiff j / 2 = (j + 1).ldiff j := by omega
    rw [Nat.testBit_succ, Nat.testBit_succ, Nat.testBit_succ, h1, h2, h3, Nat.testBit_ldiff]

theorem lowBit_pos (hn : 0 < n) : 0 < lowBit n := by
  induction n using Nat.strongRecOn with
  | _ n ih =>
    rcases Nat.even_or_odd' n with ⟨k, rfl | rfl⟩
    · rw [lowBit_even (by omega)]
      have := ih k (by omega) (by omega)
      omega
    · rw [lowBit_odd]
      exact Nat.one_pos

theorem level_lt_bitLength_lowBit (level : Nat) (hn : 0 < n) :
    level < bitLength (lowBit (n * 2 ^ level)) := by
  induction level with
  | zero =>
    have hpos := lowBit_pos hn
    rw [pow_zero, mul_one, bitLength, if_neg (by omega)]
    exact Nat.succ_pos _
  | succ level ih =>
    have hm : 0 < n * 2 ^ level := Nat.mul_pos hn (Nat.two_pow_pos level)
    have hs : n * 2 ^ (level + 1) = 2 * (n * 2 ^ level) := by ring
    have hb := lowBit_pos hm
    rw [hs, lowBit_even hm, bitLength_two_mul (by omega)]
    omega

theorem dvd_of_lt_bitLength_lowBit {level : Nat} (hn : 0 < n) (h : level < bitLength (lowBit n)) : 2 ^ level ∣ n := by
  induction level generalizing n with
  | zero => exact one_dvd n
  | succ level ih =>
    rcases Nat.even_or_odd' n with ⟨k, rfl | rfl⟩
    · have hk : 0 < k := by omega
      have hpos := lowBit_pos hk
      rw [lowBit_even hk, bitLength_two_mul (by omega)] at h
      rw [pow_succ, mul_comm]
      exact Nat.mul_dvd_mul_left 2 (ih hk (by omega))
    · have hone : bitLength 1 = 1 := by decide
      rw [lowBit_odd, hone] at h
      omega

theorem two_pow_and_pred (k : Nat) : 2 ^ k &&& (2 ^ k - 1) = 0 := by
  rw [Nat.and_two_pow_sub_one_eq_mod, Nat.mod_self]

theorem exists_two_pow_of_and_pred (hn : 0 < n) (h : n &&& (n - 1) = 0) : ∃ k, n = 2 ^ k := by
  have low := Nat.log2_self_le (show n ≠ 0 by omega)
  have high := Nat.lt_log2_self (n := n)
  refine ⟨Nat.log2 n, ?_⟩
  by_contra hne
  have hone : ∀ m, 2 ^ Nat.log2 n ≤ m → m ≤ n → m.testBit (Nat.log2 n) = true := by
    intro m hm hmn
    have hdiv : m / 2 ^ Nat.log2 n = 1 := by
      rw [pow_succ] at high
      exact Nat.div_eq_of_lt_le (by omega) (by omega)
    rw [Nat.testBit_eq_decide_div_mod_eq, hdiv]
    rfl
  have hbit := hone n low le_rfl
  have hpred := hone (n - 1) (by omega) (by omega)
  have hand : (n &&& (n - 1)).testBit (Nat.log2 n) = true := by rw [Nat.testBit_and, hbit, hpred]; rfl
  rw [h, Nat.zero_testBit] at hand
  exact absurd hand (by simp)

end Bits
