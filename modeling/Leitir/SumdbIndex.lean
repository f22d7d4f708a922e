import Leitir.BitLength
import Mathlib.Order.WellFounded

namespace Leitir.Sumdb

open Bits

/-- The total of a number and its successive halvings, as the counting loop of
the stored index adds them up. -/
def halvingTotal : Nat → Nat → Nat → Nat
  | 0, _, total => total
  | fuel + 1, number, total =>
    if number = 0 then total else halvingTotal fuel (number >>> 1) (total + number)

/-- Position of the hash `(level, number)` in the log's flat list of stored hashes. -/
def storedHashIndex (level number : Nat) : Nat :=
  let number := (fun n => 2 * n + 1)^[level] number
  halvingTotal number number 0 + level

/-- The search loop of the index split. The budget is one more than the index,
and `splitLoop_steps` shows that it is never used up. -/
def splitLoop (index : Nat) : Nat → Nat → Nat → Nat × Nat
  | 0, number, current => (number, current)
  | fuel + 1, number, current =>
    let following := current + 1 + bitLength (lowBit (number + 1)) - 1
    if following > index then (number, current)
    else splitLoop index fuel (number + 1) (storedHashIndex 0 (number + 1))

def splitStoredHashIndex (index : Nat) : Nat × Nat :=
  let (number, current) := splitLoop index (index + 1) (index / 2) (storedHashIndex 0 (index / 2))
  let level := index - current
  (level, number >>> level)

theorem halvingTotal_add (fuel number total : Nat) :
    halvingTotal fuel number total = total + halvingTotal fuel number 0 := by
  induction fuel generalizing number total with
  | zero => rfl
  | succ fuel ih =>
    simp only [halvingTotal]
    split
    next => rfl
    next =>
      rw [ih, ih _ (0 + number)]
      omega

theorem halvingTotal_fuel {fuel number : Nat} (more : Nat) (h : number ≤ fuel) (hm : number ≤ more) :
    halvingTotal fuel number 0 = halvingTotal more number 0 := by
  induction fuel generalizing number more with
  | zero =>
    have hz : number = 0 := by omega
    subst hz
    cases more <;> simp [halvingTotal]
  | succ fuel ih =>
    cases more with
    | zero =>
      have hz : number = 0 := by omega
      subst hz
      simp [halvingTotal]
    | succ more =>
      simp only [halvingTotal]
      split
      next => rfl
      next hne =>
        have half : number >>> 1 = number / 2 := by simp [Nat.shiftRight_eq_div_pow]
        rw [halvingTotal_add, halvingTotal_add more _ (0 + number), half,
          ih more (by omega) (by omega)]

def recordIndex (number : Nat) : Nat := halvingTotal number number 0

theorem storedHashIndex_zero (number : Nat) : storedHashIndex 0 number = recordIndex number := rfl

theorem recordIndex_double (k : Nat) : recordIndex (2 * k) = 2 * k + recordIndex k := by
  cases k with
  | zero => rfl
  | succ k =>
    have half : (2 * (k + 1)) >>> 1 = k + 1 := by simp [Nat.shiftRight_eq_div_pow]
    have hd : 2 * (k + 1) = (2 * k + 1) + 1 := by omega
    rw [recordIndex, hd, halvingTotal, if_neg (by omega), ← hd, half, halvingTotal_add,
      halvingTotal_fuel (k + 1) (by omega) le_rfl, ← recordIndex]
    omega

theorem recordIndex_double_succ (k : Nat) : recordIndex (2 * k + 1) = 2 * k + 1 + recordIndex k := by
  have half : (2 * k + 1) >>> 1 = k := by simp only [Nat.shiftRight_eq_div_pow]; omega
  rw [recordIndex, halvingTotal, if_neg (by omega), half, halvingTotal_add,
    halvingTotal_fuel k (by omega) le_rfl, ← recordIndex]
  omega

theorem recordIndex_succ (n : Nat) :
    recordIndex (n + 1) = recordIndex n + bitLength (lowBit (n + 1)) := by
  induction n using Nat.strongRecOn with
  | _ n ih =>
    rcases Nat.even_or_odd' n with ⟨k, rfl | rfl⟩
    · rw [recordIndex_double_succ, recordIndex_double, lowBit_odd]
      have hone : bitLength 1 = 1 := by decide
      omega
    · have hd : 2 * k + 1 + 1 = 2 * (k + 1) := by omega
      have hpos : 0 < lowBit (k + 1) := lowBit_pos (by omega)
      rw [hd, recordIndex_double, recordIndex_double_succ, ih k (by omega),
        lowBit_even (by omega), bitLength_two_mul (by omega)]
      omega

theorem recordIndex_lt_succ (n : Nat) : recordIndex n < recordIndex (n + 1) := by
  have hpos : 0 < lowBit (n + 1) := lowBit_pos (by omega)
  rw [recordIndex_succ, bitLength, if_neg (by omega)]
  omega

theorem recordIndex_strictMono : StrictMono recordIndex := strictMono_nat_of_lt_succ recordIndex_lt_succ

theorem recordIndex_le_double (n : Nat) : recordIndex n ≤ 2 * n := by
  induction n using Nat.strongRecOn with
  | _ n ih =>
    rcases Nat.even_or_odd' n with ⟨k, rfl | rfl⟩
    · rw [recordIndex_double]
      cases k with
      | zero => exact le_rfl
      | succ k => have := ih (k + 1) (by omega); omega
    · rw [recordIndex_double_succ]
      have := ih k (by omega)
      omega

theorem iterate_double_succ (level number : Nat) :
    (fun n => 2 * n + 1)^[level] number = (number + 1) * 2 ^ level - 1 := by
  induction level generalizing number with
  | zero => simp
  | succ level ih =>
    rw [Function.iterate_succ_apply, ih, pow_succ]
    have hd : (2 * number + 1 + 1) * 2 ^ level = (number + 1) * (2 ^ level * 2) := by ring
    rw [hd]

theorem storedHashIndex_eq (level number : Nat) :
    storedHashIndex level number = recordIndex ((number + 1) * 2 ^ level - 1) + level := by
  simp only [storedHashIndex, iterate_double_succ]
  rfl

/-- The search ends after some steps, however large its budget is beyond them. -/
theorem splitLoop_steps {index : Nat} (fuel number : Nat) (low : recordIndex number ≤ index) (room : index < number + fuel) :
    ∃ steps, recordIndex (number + steps) ≤ index ∧ index < recordIndex (number + steps + 1) ∧ ∀ budget, steps < budget →
      splitLoop index budget number (recordIndex number) = (number + steps, recordIndex (number + steps)) := by
  induction fuel generalizing number with
  | zero =>
    have hle : number ≤ recordIndex number := recordIndex_strictMono.le_apply
    omega
  | succ fuel ih =>
    have following : recordIndex number + 1 + bitLength (lowBit (number + 1)) - 1 =
        recordIndex (number + 1) := by rw [recordIndex_succ]; omega
    by_cases hexit : recordIndex (number + 1) > index
    · refine ⟨0, low, hexit, fun budget hbudget => ?_⟩
      obtain ⟨budget, rfl⟩ : ∃ b, budget = b + 1 := ⟨budget - 1, by omega⟩
      simp only [splitLoop, storedHashIndex_zero, following]
      rw [if_pos hexit]
      rfl
    · obtain ⟨steps, hlow, hhigh, hrun⟩ := ih (number + 1) (by omega) (by omega)
      have hshift : number + 1 + steps = number + (steps + 1) := by omega
      rw [hshift] at hlow hhigh hrun
      refine ⟨steps + 1, hlow, hhigh, fun budget hbudget => ?_⟩
      obtain ⟨budget, rfl⟩ : ∃ b, budget = b + 1 := ⟨budget - 1, by omega⟩
      simp only [splitLoop, storedHashIndex_zero, following]
      rw [if_neg hexit]
      exact hrun budget (by omega)

theorem splitStoredHashIndex_spec (index : Nat) :
    ∃ last, splitStoredHashIndex index = (index - recordIndex last, last >>> (index - recordIndex last)) ∧
      recordIndex last ≤ index ∧ index < recordIndex (last + 1) := by
  have low : recordIndex (index / 2) ≤ index := by
    have := recordIndex_le_double (index / 2)
    omega
  obtain ⟨steps, hlow, hhigh, hrun⟩ := splitLoop_steps (index + 1) (index / 2) low (by omega)
  have hl := hrun (index + 1) (by have := recordIndex_strictMono.le_apply.trans hlow; omega)
  refine ⟨index / 2 + steps, ?_, hlow, hhigh⟩
  simp only [splitStoredHashIndex, storedHashIndex_zero, hl]

theorem splitStoredHashIndex_storedHashIndex (level number : Nat) :
    splitStoredHashIndex (storedHashIndex level number) = (level, number) := by
  obtain ⟨last, hs, low, high⟩ := splitStoredHashIndex_spec (storedHashIndex level number)
  rw [storedHashIndex_eq] at hs low high
  have hpos : 0 < (number + 1) * 2 ^ level := Nat.mul_pos (Nat.succ_pos _) (Nat.two_pow_pos _)
  have hnext := recordIndex_succ ((number + 1) * 2 ^ level - 1)
  have hback : (number + 1) * 2 ^ level - 1 + 1 = (number + 1) * 2 ^ level := by omega
  have hlevel := level_lt_bitLength_lowBit level (show 0 < number + 1 by omega)
  rw [hback] at hnext
  have hlast : last = (number + 1) * 2 ^ level - 1 := by
    have h1 : last < (number + 1) * 2 ^ level := recordIndex_strictMono.lt_iff_lt.mp (by omega)
    have h2 : (number + 1) * 2 ^ level - 1 < last + 1 := recordIndex_strictMono.lt_iff_lt.mp (by omega)
    omega
  rw [hlast, Nat.add_sub_cancel_left] at hs
  rw [storedHashIndex_eq, hs, Nat.shiftRight_eq_div_pow]
  have hdiv : ((number + 1) * 2 ^ level - 1) / 2 ^ level = number := by
    have hp := Nat.two_pow_pos level
    rw [Nat.div_eq_iff hp]
    have hm : (number + 1) * 2 ^ level = number * 2 ^ level + 2 ^ level := by ring
    omega
  rw [hdiv]

theorem storedHashIndex_splitStoredHashIndex (index : Nat) :
    storedHashIndex (splitStoredHashIndex index).1 (splitStoredHashIndex index).2 = index := by
  obtain ⟨last, hs, low, high⟩ := splitStoredHashIndex_spec index
  have hnext := recordIndex_succ last
  have hlevel : index - recordIndex last < bitLength (lowBit (last + 1)) := by omega
  obtain ⟨k, hk⟩ := dvd_of_lt_bitLength_lowBit (Nat.succ_pos last) hlevel
  -- the level is the number of times that the next record count can be halved
  have hpow := Nat.two_pow_pos (index - recordIndex last)
  have hkpos : 0 < k := by
    by_contra hzero
    have hz : k = 0 := by omega
    rw [hz, mul_zero] at hk
    omega
  have hnumber : last >>> (index - recordIndex last) = k - 1 := by
    rw [Nat.shiftRight_eq_div_pow, Nat.div_eq_iff hpow]
    have hsplit : (k - 1) * 2 ^ (index - recordIndex last) + 2 ^ (index - recordIndex last) =
        2 ^ (index - recordIndex last) * k := by
      obtain ⟨j, rfl⟩ : ∃ j, k = j + 1 := ⟨k - 1, by omega⟩
      rw [Nat.add_sub_cancel]
      ring
    omega
  have hback : (k - 1 + 1) * 2 ^ (index - recordIndex last) - 1 = last := by
    rw [Nat.sub_add_cancel hkpos, mul_comm, ← hk]
    omega
  rw [hs, hnumber, storedHashIndex_eq, hback]
  omega

/-- Levels and numbers are numbered one to one, the split is the inverse, and its search loop leaves at its exit. -/
theorem storedHashIndex_bijective :
    (∀ level number, splitStoredHashIndex (storedHashIndex level number) = (level, number)) ∧
    (∀ index, ∃! place : Nat × Nat, storedHashIndex place.1 place.2 = index) ∧
    ∀ index, ∃ steps, index < storedHashIndex 0 (index / 2 + steps) + 1 + bitLength (lowBit (index / 2 + steps + 1)) - 1 ∧
      ∀ budget, steps < budget → splitLoop index budget (index / 2) (storedHashIndex 0 (index / 2)) =
        (index / 2 + steps, storedHashIndex 0 (index / 2 + steps)) := by
  refine ⟨splitStoredHashIndex_storedHashIndex, fun index => ?_, fun index => ?_⟩
  · refine ⟨splitStoredHashIndex index, storedHashIndex_splitStoredHashIndex index, fun place hplace => ?_⟩
    have hsplit := splitStoredHashIndex_storedHashIndex place.1 place.2
    rw [hplace] at hsplit
    exact hsplit.symm
  · have low : recordIndex (index / 2) ≤ index := by
      have := recordIndex_le_double (index / 2)
      omega
    obtain ⟨steps, -, hexit, hrun⟩ := splitLoop_steps (index + 1) (index / 2) low (by omega)
    have hnext := recordIndex_succ (index / 2 + steps)
    refine ⟨steps, ?_, hrun⟩
    rw [storedHashIndex_zero]
    omega

end Leitir.Sumdb
