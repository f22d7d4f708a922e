import Leitir.ModularPower
import Leitir.Edwards
import Leitir.SumdbTile

/-! The curve on which the notes of the checksum database are signed. -/

namespace Leitir.Sumdb.Ed25519

open ModularPower (pow)

def P : Nat := 2 ^ 255 - 19

def D : Int := -121665 * pow 121666 (P - 2) P % P

def I : Int := pow 2 ((P - 1) / 4) P

def BY : Int := 4 * pow 5 (P - 2) P % P

abbrev Point := Int × Int

def smallPrimes : List Nat :=
  [2, 3, 5, 7, 13, 19, 31, 47, 107, 127, 223, 353, 2437, 4153, 57467, 65147, 75707, 132049, 430751, 569003, 1923133, 8574133]

/-- The prime of the field and the primes above that its certificate rests on. -/
def primeEntries : List ModularPower.Entry :=
  [⟨2773320623, 5, [2, 2437, 569003]⟩, ⟨72106336199, 7, [2, 13, 2773320623]⟩,
    ⟨1919519569386763, 2, [2, 3, 7, 19, 47, 47, 127, 8574133]⟩,
    ⟨75445702479781427272750846543864801, 7, [2, 2, 2, 2, 2, 3, 3, 5, 5, 75707, 72106336199, 1919519569386763]⟩,
    ⟨31757755568855353, 10, [2, 2, 2, 3, 31, 107, 223, 4153, 430751]⟩,
    ⟨74058212732561358302231226437062788676166966415465897661863160754340907, 2,
      [2, 3, 353, 57467, 132049, 1923133, 31757755568855353, 75445702479781427272750846543864801]⟩,
    ⟨P, 2, [2, 2, 3, 65147, 74058212732561358302231226437062788676166966415465897661863160754340907]⟩]

theorem prime_P : P.Prime := by
  have hsmall : ∀ q ∈ smallPrimes, q.Prime := by
    unfold smallPrimes
    simp only [List.forall_mem_cons, List.not_mem_nil, false_implies, implies_true, and_true]
    norm_num
  have hcertified : ModularPower.Certifies smallPrimes primeEntries := by decide +kernel
  have hne : primeEntries ≠ [] := List.cons_ne_nil _ _
  exact ModularPower.prime_of_certifies hsmall hcertified (primeEntries.getLast hne) (List.getLast_mem hne)

instance : Fact P.Prime := ⟨prime_P⟩

theorem two_lt_P : 2 < P := by norm_num [P]

theorem cast_eq_zero {value : Int} : (value : ZMod P) = 0 ↔ value % P = 0 := by
  rw [ZMod.intCast_zmod_eq_zero_iff_dvd]
  exact Int.dvd_iff_emod_eq_zero

theorem constants_checked : D % P ≠ 0 ∧ pow D (P / 2) P ≠ 1 ∧ (I ^ 2 + 1) % P = 0 := by decide +kernel

theorem D_not_isSquare : ¬ IsSquare (D : ZMod P) :=
  ModularPower.not_isSquare (cast_eq_zero.not.mpr constants_checked.1) constants_checked.2.1

theorem I_sq : (I : ZMod P) ^ 2 = -1 := by
  have hcast := cast_eq_zero.mpr constants_checked.2.2
  push_cast at hcast
  exact eq_neg_of_add_eq_zero_left hcast

theorem two_ne_zero_mod : (2 : ZMod P) ≠ 0 := by
  have hlarge := two_lt_P
  have hrest : (2 : Int) % P ≠ 0 := by
    rw [Int.emod_eq_of_lt (by omega) (by omega)]
    omega
  exact_mod_cast cast_eq_zero.not.mpr hrest

def OnCurve (p : Point) : Prop := -(p.1 * p.1) + p.2 * p.2 ≡ 1 + D * p.1 * p.1 * p.2 * p.2 [ZMOD P]

instance (p : Point) : Decidable (OnCurve p) := inferInstanceAs (Decidable (_ = _))

def add (left right : Point) : Point :=
  let product := D * left.1 * right.1 * left.2 * right.2 % P
  ((left.1 * right.2 + right.1 * left.2) * pow (1 + product) (P - 2) P % P,
    (left.2 * right.2 + left.1 * right.1) * pow (1 - product) (P - 2) P % P)

def toField (p : Point) : ZMod P × ZMod P := (p.1, p.2)

theorem onCurve_iff {p : Point} : OnCurve p ↔ Edwards.OnCurve (-1) (D : ZMod P) (toField p) := by
  unfold OnCurve Edwards.OnCurve toField
  rw [← ZMod.intCast_eq_intCast_iff]
  push_cast
  constructor
  · intro h
    linear_combination h
  · intro h
    linear_combination h

theorem toField_add (left right : Point) : toField (add left right) = Edwards.add (-1) (D : ZMod P) (toField left) (toField right) := by
  have hproduct : ((D * left.1 * right.1 * left.2 * right.2 % P : Int) : ZMod P) =
      Edwards.cross (D : ZMod P) (toField left) (toField right) := by
    rw [ZMod.intCast_mod]
    unfold Edwards.cross toField
    push_cast
    ring
  have hinv := fun base : Int => ModularPower.cast_pow_inv two_lt_P base
  unfold Edwards.add
  rw [← hproduct]
  unfold toField add
  dsimp only
  rw [ZMod.intCast_mod, ZMod.intCast_mod, Int.cast_mul, Int.cast_mul, hinv, hinv]
  push_cast
  rw [div_eq_mul_inv, div_eq_mul_inv]
  ring_nf

theorem denominators_ne_zero {left right : Point} (hleft : OnCurve left) (hright : OnCurve right) :
    (1 + D * left.1 * right.1 * left.2 * right.2) % P ≠ 0 ∧ (1 - D * left.1 * right.1 * left.2 * right.2) % P ≠ 0 := by
  obtain ⟨hplus, hminus⟩ := Edwards.denominators_ne_zero I_sq two_ne_zero_mod D_not_isSquare (onCurve_iff.mp hleft) (onCurve_iff.mp hright)
  unfold Edwards.cross toField at hplus hminus
  rw [ne_eq, ne_eq, ← cast_eq_zero, ← cast_eq_zero]
  push_cast
  exact ⟨hplus, hminus⟩

theorem add_onCurve {left right : Point} (hleft : OnCurve left) (hright : OnCurve right) : OnCurve (add left right) := by
  rw [onCurve_iff] at hleft hright ⊢
  obtain ⟨hplus, hminus⟩ := Edwards.denominators_ne_zero I_sq two_ne_zero_mod D_not_isSquare hleft hright
  rw [toField_add]
  exact Edwards.add_onCurve hleft hright hplus hminus

section

/-- The variables of the doubling loop. -/
structure Ladder where
  result : Point
  point : Point
  value : Nat

def Ladder.step (state : Ladder) : Ladder :=
  ⟨if state.value &&& 1 ≠ 0 then add state.result state.point else state.result, add state.point state.point, state.value >>> 1⟩

variable {state : Ladder}

theorem Ladder.step_value_lt (h : state.value ≠ 0) : state.step.value < state.value := by
  show state.value >>> 1 < state.value
  rw [Nat.shiftRight_eq_div_pow]
  omega

def Ladder.run (state : Ladder) : Ladder := if state.value = 0 then state else state.step.run
termination_by state.value
decreasing_by exact Ladder.step_value_lt ‹_›

def Ladder.start (point : Point) (value : Nat) : Ladder := ⟨(0, 1), point, value⟩

def scalar (point : Point) (value : Nat) : Point := (Ladder.start point value).run.result

def Ladder.Reaches : Ladder → Ladder → Prop := Relation.ReflTransGen fun state next => state.value ≠ 0 ∧ next = state.step

def Ladder.OnCurve (state : Ladder) : Prop := Ed25519.OnCurve state.result ∧ Ed25519.OnCurve state.point

theorem Ladder.step_onCurve (h : state.OnCurve) : state.step.OnCurve := by
  obtain ⟨hresult, hpoint⟩ := h
  refine ⟨?_, add_onCurve hpoint hpoint⟩
  unfold Ladder.step
  dsimp only
  split
  next => exact add_onCurve hresult hpoint
  next => exact hresult

theorem Ladder.reaches_onCurve {final : Ladder} (h : state.Reaches final) (hstate : state.OnCurve) : final.OnCurve := by
  induction h with
  | refl => exact hstate
  | tail _ hstep ih =>
    rw [hstep.2]
    exact Ladder.step_onCurve ih

theorem Ladder.run_reached (state : Ladder) : state.Reaches state.run ∧ state.run.value = 0 := by
  fun_induction Ladder.run state with
  | case1 state hzero => exact ⟨.refl, hzero⟩
  | case2 state hvalue ih => exact ⟨.head ⟨hvalue, rfl⟩ ih.1, ih.2⟩

theorem onCurve_neutral : OnCurve (0, 1) := by
  unfold OnCurve
  simp

theorem start_onCurve {point : Point} (h : OnCurve point) (value : Nat) : (Ladder.start point value).OnCurve := by
  exact ⟨onCurve_neutral, h⟩

theorem scalar_onCurve {point : Point} (h : OnCurve point) (value : Nat) : OnCurve (scalar point value) :=
  (Ladder.reaches_onCurve (Ladder.run_reached _).1 (start_onCurve h value)).1

/-- Addition is defined for every two points of the curve and stays on it, and so do all values of the doubling loop. -/
theorem addition_complete_closed :
    (∀ left right, OnCurve left → OnCurve right →
      (1 + D * left.1 * right.1 * left.2 * right.2) % P ≠ 0 ∧ (1 - D * left.1 * right.1 * left.2 * right.2) % P ≠ 0 ∧
        OnCurve (add left right)) ∧
    ∀ point value, OnCurve point →
      (∀ state, (Ladder.start point value).Reaches state → OnCurve state.result ∧ OnCurve state.point) ∧
        OnCurve (scalar point value) := by
  constructor
  · intro left right hleft hright
    obtain ⟨hplus, hminus⟩ := denominators_ne_zero hleft hright
    exact ⟨hplus, hminus, add_onCurve hleft hright⟩
  · intro point value hpoint
    have hstart := start_onCurve hpoint value
    exact ⟨fun state hstate => Ladder.reaches_onCurve hstate hstart, scalar_onCurve hpoint value⟩

theorem addition_complete_closed_base : OnCurve (0, 1) ∧
    OnCurve (15112221349535400772501151409588531511454012693041857206046113283949847762202, BY) ∧
    OnCurve (add (0, 1) (15112221349535400772501151409588531511454012693041857206046113283949847762202, BY)) ∧
    OnCurve (scalar (15112221349535400772501151409588531511454012693041857206046113283949847762202, BY) 8) := by
  have hbase : OnCurve (15112221349535400772501151409588531511454012693041857206046113283949847762202, BY) := by
    decide +kernel
  exact ⟨onCurve_neutral, hbase, (addition_complete_closed.1 _ _ onCurve_neutral hbase).2.2, (addition_complete_closed.2 _ 8 hbase).2⟩

end

/-! Points of the curve as octets, and the verification of signatures. -/

/-- Square roots modulo the prime: the candidate, or the candidate times the root of minus one. -/
def recoverX (y : Int) (sign : Nat) : Option Int :=
  let x2 := (y * y - 1) * pow (D * y * y + 1) (P - 2) P % P
  let x := pow x2 ((P + 3) / 8) P
  let x := if (x * x - x2) % P ≠ 0 then x * I % P else x
  if (x * x - x2) % P ≠ 0 then none
  else if x % 2 ≠ sign then some (P - x) else some x

def fromLittle : Bytes → Nat
  | [] => 0
  | octet :: rest => octet + 256 * fromLittle rest

def toLittle : Nat → Nat → Bytes
  | 0, _ => []
  | length + 1, value => value % 256 :: toLittle length (value / 256)

def encodePoint (point : Point) : Bytes := toLittle 32 (point.2.toNat ||| ((point.1 % 2).toNat <<< 255))

def decodePoint (data : Bytes) : Option Point :=
  if data.length ≠ 32 then none
  else
    let encoded := fromLittle data
    let y := encoded &&& ((1 <<< 255) - 1)
    if P ≤ y then none
    else do
      let x ← recoverX y (encoded >>> 255)
      if encodePoint (x, y) ≠ data then none else some (x, (y : Int))

def BX : Int := (recoverX BY 0).getD 0

def B : Point := (BX, BY)

def order : Nat := 2 ^ 252 + 27742317777372353535851937790883648493

/-- Whether the signature of a message is valid, for the hash function of the scheme. -/
def ed25519Verify (sha512 : Bytes → Bytes) (publicKey message signature : Bytes) : Bool :=
  if signature.length ≠ 64 then false
  else
    match decodePoint publicKey, decodePoint (signature.take 32) with
    | some key, some nonce =>
      if order ≤ fromLittle (signature.drop 32) then false
      else
        let challenge := fromLittle (sha512 (signature.take 32 ++ publicKey ++ message)) % order
        scalar (scalar B (fromLittle (signature.drop 32))) 8 = add (scalar nonce 8) (scalar (scalar key challenge) 8)
    | _, _ => false

section

theorem fromLittle_toLittle (length value : Nat) : fromLittle (toLittle length value) = value % 256 ^ length := by
  induction length generalizing value with
  | zero => simp [toLittle, fromLittle, Nat.mod_one]
  | succ length ih =>
    rw [toLittle, fromLittle, ih, Nat.pow_succ, Nat.mul_comm (256 ^ length), Nat.mod_mul]

/-- The root before its sign is chosen. -/
structure Root (y : Int) (root : Int) : Prop where
  nonneg : 0 ≤ root
  lt : root < P
  square : (root : ZMod P) ^ 2 = ((y : ZMod P) ^ 2 - 1) * ((D : ZMod P) * (y : ZMod P) ^ 2 + 1)⁻¹

variable {y root : Int}

theorem recoverX_some {x : Int} {sign : Nat} (h : recoverX y sign = some x) :
    ∃ root, Root y root ∧ x = if root % 2 ≠ sign then P - root else root := by
  have hpos : (0 : Int) < P := by decide +kernel
  unfold recoverX at h
  dsimp only at h
  generalize hx2 : (y * y - 1) * pow (D * y * y + 1) (P - 2) P % P = x2 at h
  generalize hroot : (if (pow x2 ((P + 3) / 8) P * pow x2 ((P + 3) / 8) P - x2) % P ≠ 0 then pow x2 ((P + 3) / 8) P * I % P
    else pow x2 ((P + 3) / 8) P) = root at h
  split at h
  next => cases h
  next hsquare =>
    have hbounds : 0 ≤ root ∧ root < P := by
      rw [← hroot]
      split
      next => exact ⟨Int.emod_nonneg _ hpos.ne', Int.emod_lt_of_pos _ hpos⟩
      next => exact ModularPower.pow_bounds prime_P.pos _ _
    have hcast := cast_eq_zero.mpr (not_not.mp hsquare)
    rw [← hx2, Int.cast_sub, ZMod.intCast_mod, Int.cast_mul, Int.cast_mul, ModularPower.cast_pow_inv two_lt_P] at hcast
    push_cast at hcast
    refine ⟨root, ⟨hbounds.1, hbounds.2, ?_⟩, ?_⟩
    · rw [pow_two, pow_two, ← mul_assoc]
      exact sub_eq_zero.mp hcast
    · split at h
      next hparity =>
        rw [if_pos hparity]
        exact (Option.some.inj h).symm
      next hparity =>
        rw [if_neg hparity]
        exact (Option.some.inj h).symm

theorem denominator_ne_zero (y : ZMod P) : (D : ZMod P) * y ^ 2 + 1 ≠ 0 := by
  intro hzero
  have hy : y ≠ 0 := by
    rintro rfl
    simp at hzero
  refine D_not_isSquare (Edwards.isSquare_of_mul (x := (I : ZMod P)) (y := y) ?_ hy)
  rw [I_sq]
  linear_combination -hzero

theorem Root.equation (h : Root y root) :
    (root : ZMod P) ^ 2 * ((D : ZMod P) * (y : ZMod P) ^ 2 + 1) = (y : ZMod P) ^ 2 - 1 := by
  rw [h.square, mul_assoc, inv_mul_cancel₀ (denominator_ne_zero _), mul_one]

theorem Root.onCurve {x : Int} (h : Root y root) (hx : (x : ZMod P) ^ 2 = (root : ZMod P) ^ 2) : OnCurve (x, y) := by
  have hequation := h.equation
  rw [← hx] at hequation
  rw [onCurve_iff]
  unfold Edwards.OnCurve toField
  dsimp only
  linear_combination -hequation

theorem Root.eq_zero_iff (h : Root y root) : root = 0 ↔ (y : ZMod P) ^ 2 = 1 := by
  constructor
  · rintro rfl
    have hequation := h.equation
    rw [Int.cast_zero] at hequation
    linear_combination -hequation
  · intro hone
    have hsquare := h.square
    rw [hone, sub_self, zero_mul] at hsquare
    have hzero := cast_eq_zero.mp (pow_eq_zero_iff (by omega)|>.mp hsquare)
    rwa [Int.emod_eq_of_lt h.nonneg h.lt] at hzero

end

section

def Canonical (p : Point) : Prop := (0 ≤ p.1 ∧ p.1 < P) ∧ (0 ≤ p.2 ∧ p.2 < P) ∧ OnCurve p

def SignedZero (data : Bytes) : Prop :=
  (fromLittle data &&& ((1 <<< 255) - 1) = 1 ∨ fromLittle data &&& ((1 <<< 255) - 1) = P - 1) ∧ fromLittle data >>> 255 = 1

theorem cast_sq_eq_one {y : Nat} (hy : y < P) : ((y : Int) : ZMod P) ^ 2 = 1 ↔ y = 1 ∨ y = P - 1 := by
  have hlarge := two_lt_P
  have hcast : ∀ value : Nat, value < P → (((y : Int) : ZMod P) = ((value : Int) : ZMod P) ↔ y = value) := by
    intro value hvalue
    rw [ZMod.intCast_eq_intCast_iff', Int.emod_eq_of_lt (by omega) (by omega), Int.emod_eq_of_lt (by omega) (by omega)]
    omega
  have hone := hcast 1 (by omega)
  have hlast := hcast (P - 1) (by omega)
  have hneg : (((P - 1 : Nat) : Int) : ZMod P) = -1 := by
    rw [Int.cast_natCast, Nat.cast_sub (by omega)]
    simp
  rw [hneg] at hlast
  rw [Nat.cast_one, Int.cast_one] at hone
  rw [sq_eq_one_iff, hone, hlast]

variable {data : Bytes} {point : Point}

theorem decodePoint_some (h : decodePoint data = some point) :
    ∃ y root, y = fromLittle data &&& ((1 <<< 255) - 1) ∧ y < P ∧ Root y root ∧ encodePoint point = data ∧
      point = (if root % 2 ≠ ((fromLittle data >>> 255 : Nat) : Int) then P - root else root, (y : Int)) := by
  unfold decodePoint at h
  split at h
  next => cases h
  next =>
    dsimp only at h
    split at h
    next => cases h
    next hlt =>
      obtain ⟨x, hx, h⟩ := Option.bind_eq_some_iff.mp h
      split at h
      next => cases h
      next hencoded =>
        obtain ⟨root, hroot, rfl⟩ := recoverX_some hx
        cases h
        exact ⟨_, root, rfl, by omega, hroot, not_not.mp hencoded, rfl⟩

theorem sign_lt (h : encodePoint point = data) : fromLittle data >>> 255 < 2 := by
  rw [← h, encodePoint, fromLittle_toLittle, Nat.shiftRight_eq_div_pow]
  have hbound := Nat.mod_lt (point.2.toNat ||| ((point.1 % 2).toNat <<< 255)) (show 0 < 256 ^ 32 by decide)
  omega

theorem decodePoint_onCurve (h : decodePoint data = some point) : OnCurve point := by
  obtain ⟨y, root, -, -, hroot, -, rfl⟩ := decodePoint_some h
  apply hroot.onCurve
  split
  next =>
    push_cast
    rw [ZMod.natCast_self]
    ring
  next => rfl

theorem canonical_iff (h : decodePoint data = some point) : Canonical point ↔ ¬ SignedZero data := by
  obtain ⟨y, root, hy, hlt, hroot, hencoded, rfl⟩ := decodePoint_some h
  have hsign := sign_lt hencoded
  have hlow := hroot.nonneg
  have hhigh := hroot.lt
  have hzero := hroot.eq_zero_iff.trans (cast_sq_eq_one hlt)
  constructor
  · rintro ⟨⟨-, hx⟩, -⟩ ⟨hone, hset⟩
    rw [← hy] at hone
    have hvanish := hzero.mpr hone
    rw [hvanish, hset] at hx
    simp at hx
  · intro hunset
    refine ⟨?_, ⟨by simp, by simpa using hlt⟩, ?_⟩
    · split
      next hparity =>
        have hne : root ≠ 0 := by
          intro hvanish
          refine hunset ⟨hy ▸ hzero.mp hvanish, ?_⟩
          rw [hvanish] at hparity
          omega
        constructor
        · omega
        · omega
      next => exact ⟨hlow, hhigh⟩
    · exact decodePoint_onCurve h

/-- Two accepted strings of octets stand for reduced points of the curve, each for its own, exactly when none sets the sign of zero. -/
theorem decodePoint_canonical_iff {data other : Bytes} {point point' : Point} (h : decodePoint data = some point)
    (h' : decodePoint other = some point') :
    Canonical point ∧ Canonical point' ∧ (point.1 ≡ point'.1 [ZMOD P] → point.2 ≡ point'.2 [ZMOD P] → data = other) ↔
      ¬ SignedZero data ∧ ¬ SignedZero other := by
  rw [← canonical_iff h, ← canonical_iff h']
  constructor
  · intro hall
    exact ⟨hall.1, hall.2.1⟩
  · rintro ⟨hpoint, hpoint'⟩
    refine ⟨hpoint, hpoint', fun hfirst hsecond => ?_⟩
    have hequal : point = point' := by
      obtain ⟨⟨hlow, hhigh⟩, ⟨hlow₂, hhigh₂⟩, -⟩ := hpoint
      obtain ⟨⟨hlow', hhigh'⟩, ⟨hlow₂', hhigh₂'⟩, -⟩ := hpoint'
      unfold Int.ModEq at hfirst hsecond
      rw [Int.emod_eq_of_lt hlow hhigh, Int.emod_eq_of_lt hlow' hhigh'] at hfirst
      rw [Int.emod_eq_of_lt hlow₂ hhigh₂, Int.emod_eq_of_lt hlow₂' hhigh₂'] at hsecond
      exact Prod.ext hfirst hsecond
    obtain ⟨-, -, -, -, -, hencoded, -⟩ := decodePoint_some h
    obtain ⟨-, -, -, -, -, hencoded', -⟩ := decodePoint_some h'
    rw [← hencoded, ← hencoded', hequal]

theorem decodePoint_canonical_base :
    decodePoint (88 :: List.replicate 31 102) = some B ∧ decodePoint (1 :: List.replicate 31 0) = some (0, 1) ∧
      Canonical B ∧ Canonical (0, 1) := by
  have hbase : decodePoint (88 :: List.replicate 31 102) = some B := by decide +kernel
  have hzero : decodePoint (1 :: List.replicate 31 0) = some (0, 1) := by decide +kernel
  obtain ⟨hcanonical, hcanonical', -⟩ := (decodePoint_canonical_iff hbase hzero).mpr
    ⟨by unfold SignedZero; decide +kernel, by unfold SignedZero; decide +kernel⟩
  exact ⟨hbase, hzero, hcanonical, hcanonical'⟩

/-- The neutral point is accepted also with its sign set, and then has a first coordinate that is not reduced. -/
theorem signed_zero_decoded :
    ∃ point, decodePoint (1 :: (List.replicate 30 0 ++ [128])) = some point ∧ ¬ point.1 < P ∧
      decodePoint (1 :: List.replicate 31 0) = some (0, 1) ∧ point.1 ≡ 0 [ZMOD P] ∧ point.2 ≡ 1 [ZMOD P] ∧
      1 :: (List.replicate 30 0 ++ [128]) ≠ 1 :: List.replicate 31 0 := by
  refine ⟨(P, 1), by decide +kernel, by simp, by decide +kernel, ?_, rfl, by decide⟩
  unfold Int.ModEq
  rw [Int.emod_self, Int.zero_emod]

end

theorem ed25519Verify_onCurve {sha512 : Bytes → Bytes} {publicKey message signature : Bytes}
    (h : ed25519Verify sha512 publicKey message signature = true) :
    ∃ key nonce challenge, decodePoint publicKey = some key ∧ decodePoint (signature.take 32) = some nonce ∧
      fromLittle (signature.drop 32) < order ∧ challenge < order ∧ OnCurve (scalar (scalar key challenge) 8) ∧
      OnCurve (scalar nonce 8) ∧
      scalar (scalar B (fromLittle (signature.drop 32))) 8 = add (scalar nonce 8) (scalar (scalar key challenge) 8) := by
  unfold ed25519Verify at h
  split at h
  next => cases h
  next =>
    split at h
    next key nonce hkey hnonce =>
      split at h
      next => cases h
      next horder =>
        refine ⟨key, nonce, _, hkey, hnonce, by omega, ?_, ?_, ?_, of_decide_eq_true h⟩
        · exact Nat.mod_lt _ (by decide)
        · exact scalar_onCurve (scalar_onCurve (decodePoint_onCurve hkey) _) 8
        · exact scalar_onCurve (decodePoint_onCurve hnonce) 8
    next => cases h

end Leitir.Sumdb.Ed25519
