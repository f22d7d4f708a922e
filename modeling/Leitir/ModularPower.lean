import Mathlib.NumberTheory.LucasPrimality
import Mathlib.NumberTheory.LegendreSymbol.Basic
import Mathlib.Tactic.NormNum.Prime
import Leitir.LawfulLists

/-! Powers of integers modulo a number by squaring, and the test of primes that rests on them. -/

namespace ModularPower

/-- Squaring over the binary digits of the exponent, of which there are at most the given number. -/
def squaring (modulus : Nat) : Nat → Nat → Nat → Nat
  | 0, _, _ => 1 % modulus
  | digits + 1, base, exponent =>
    let half := squaring modulus digits (base * base % modulus) (exponent / 2)
    if exponent % 2 = 1 then base * half % modulus else half

def pow (base : Int) (exponent modulus : Nat) : Int :=
  squaring modulus (exponent.log2 + 1) (base % modulus).toNat exponent

variable {modulus : Nat}

theorem squaring_eq {digits exponent : Nat} (h : exponent < 2 ^ digits) (base : Nat) :
    squaring modulus digits base exponent = base ^ exponent % modulus := by
  induction digits generalizing base exponent with
  | zero =>
    have hzero : exponent = 0 := by simpa using h
    subst hzero
    rfl
  | succ digits ih =>
    have hhalf : exponent / 2 < 2 ^ digits := by
      rw [Nat.pow_succ] at h
      omega
    have hsquare : (base * base % modulus) ^ (exponent / 2) % modulus = base ^ (2 * (exponent / 2)) % modulus := by
      rw [← Nat.pow_mod, ← Nat.pow_two, Nat.pow_mul]
    unfold squaring
    dsimp only
    rw [ih hhalf, hsquare]
    split
    next hodd =>
      have hsplit : exponent = 2 * (exponent / 2) + 1 := by omega
      rw [Nat.mul_mod_mod]
      conv_rhs => rw [hsplit, Nat.pow_succ, Nat.mul_comm]
    next heven =>
      have hsplit : exponent = 2 * (exponent / 2) := by omega
      conv_rhs => rw [hsplit]

theorem pow_eq (hmodulus : 0 < modulus) (base : Int) (exponent : Nat) :
    pow base exponent modulus = base ^ exponent % modulus := by
  have hpos : (0 : Int) < modulus := by exact_mod_cast hmodulus
  have hcast : ((base % modulus).toNat : Int) = base % modulus := Int.toNat_of_nonneg (Int.emod_nonneg _ hpos.ne')
  unfold pow
  rw [squaring_eq Nat.lt_log2_self, Int.natCast_mod, Int.natCast_pow, hcast]
  exact Int.ModEq.pow exponent (Int.mod_modEq base modulus)

theorem pow_bounds (hmodulus : 0 < modulus) (base : Int) (exponent : Nat) :
    0 ≤ pow base exponent modulus ∧ pow base exponent modulus < modulus := by
  have hpos : (0 : Int) < modulus := by exact_mod_cast hmodulus
  rw [pow_eq hmodulus]
  exact ⟨Int.emod_nonneg _ hpos.ne', Int.emod_lt_of_pos _ hpos⟩

theorem cast_pow (hmodulus : 0 < modulus) (base : Int) (exponent : Nat) :
    ((pow base exponent modulus : Int) : ZMod modulus) = (base : ZMod modulus) ^ exponent := by
  rw [pow_eq hmodulus, ZMod.intCast_mod, Int.cast_pow]

theorem cast_pow_inv [Fact modulus.Prime] (hmodulus : 2 < modulus) (base : Int) :
    ((pow base (modulus - 2) modulus : Int) : ZMod modulus) = (base : ZMod modulus)⁻¹ := by
  rw [cast_pow (by omega)]
  by_cases hzero : (base : ZMod modulus) = 0
  · rw [hzero, inv_zero]
    exact zero_pow (by omega)
  · have hone := ZMod.pow_card_sub_one_eq_one hzero
    rw [show modulus - 1 = modulus - 2 + 1 by omega, pow_succ] at hone
    exact eq_inv_of_mul_eq_one_left hone

theorem cast_pow_eq_one (hmodulus : 1 < modulus) (base : Int) (exponent : Nat) :
    (base : ZMod modulus) ^ exponent = 1 ↔ pow base exponent modulus = 1 := by
  obtain ⟨hlow, hhigh⟩ := pow_bounds (show 0 < modulus by omega) base exponent
  rw [← cast_pow (by omega), ← Int.cast_one, ZMod.intCast_eq_intCast_iff']
  rw [Int.emod_eq_of_lt hlow hhigh, Int.emod_eq_of_lt (by omega) (by omega)]

/-- A number with a base whose order should be one less, and the prime factors of that with their repetitions. -/
structure Entry where
  number : Nat
  base : Int
  factors : List Nat

def Entry.Passes (known : List Nat) (entry : Entry) : Prop :=
  1 < entry.number ∧ entry.factors.prod = entry.number - 1 ∧ pow entry.base (entry.number - 1) entry.number = 1 ∧
    ∀ q ∈ entry.factors, q ∈ known ∧ pow entry.base ((entry.number - 1) / q) entry.number ≠ 1

instance (known : List Nat) (entry : Entry) : Decidable (entry.Passes known) := inferInstanceAs (Decidable (_ ∧ _))

def Certifies : List Nat → List Entry → Prop
  | _, [] => True
  | known, entry :: entries => entry.Passes known ∧ Certifies (entry.number :: known) entries

instance decidableCertifies : (known : List Nat) → (entries : List Entry) → Decidable (Certifies known entries)
  | _, [] => inferInstanceAs (Decidable True)
  | known, entry :: entries =>
    have := decidableCertifies (entry.number :: known) entries
    inferInstanceAs (Decidable (_ ∧ _))

theorem Entry.prime {known : List Nat} {entry : Entry} (hknown : ∀ q ∈ known, q.Prime) (h : entry.Passes known) :
    entry.number.Prime := by
  obtain ⟨hlarge, hprod, hone, hfactors⟩ := h
  refine lucas_primality entry.number entry.base ((cast_pow_eq_one hlarge entry.base _).mpr hone) ?_
  intro q hq hdvd
  rw [← hprod] at hdvd
  obtain ⟨factor, hfactor, hdivides⟩ := (Prime.dvd_prod_iff hq.prime).mp hdvd
  obtain ⟨hmem, hpart⟩ := hfactors factor hfactor
  have heq : q = factor := (Nat.prime_dvd_prime_iff_eq hq (hknown factor hmem)).mp hdivides
  rw [ne_eq, cast_pow_eq_one hlarge, heq]
  exact hpart

theorem prime_of_certifies {known : List Nat} {entries : List Entry} (hknown : ∀ q ∈ known, q.Prime)
    (h : Certifies known entries) : ∀ entry ∈ entries, entry.number.Prime := by
  induction entries generalizing known with
  | nil =>
    intro entry hentry
    cases hentry
  | cons first entries ih =>
    have hfirst := Entry.prime hknown h.1
    intro entry hentry
    rcases List.mem_cons.mp hentry with rfl | hentry
    · exact hfirst
    · exact ih (List.forall_mem_cons.mpr ⟨hfirst, hknown⟩) h.2 entry hentry

theorem not_isSquare {p : Nat} [Fact p.Prime] {value : Int} (hzero : (value : ZMod p) ≠ 0) (h : pow value (p / 2) p ≠ 1) :
    ¬ IsSquare (value : ZMod p) := by
  rw [ZMod.euler_criterion p hzero, cast_pow_eq_one (Fact.out : p.Prime).one_lt]
  exact h

end ModularPower
