import Mathlib.Data.List.Basic
import Leitir.LawfulLists

namespace Base64

def symbol (v : Nat) : Nat :=
  if v < 26 then v + 65 else if v < 52 then v + 71 else if v < 62 then v - 4 else if v = 62 then 43 else 47

def value (ch : Nat) : Option Nat :=
  if 65 ≤ ch ∧ ch ≤ 90 then some (ch - 65)
  else if 97 ≤ ch ∧ ch ≤ 122 then some (ch - 71)
  else if 48 ≤ ch ∧ ch ≤ 57 then some (ch + 4)
  else if ch = 43 then some 62
  else if ch = 47 then some 63
  else none

def encode : List Nat → List Nat
  | [] => []
  | [a] => [symbol (a / 4), symbol (a % 4 * 16), 61, 61]
  | [a, b] => [symbol (a / 4), symbol (a % 4 * 16 + b / 16), symbol (b % 16 * 4), 61]
  | a :: b :: c :: rest =>
    symbol (a / 4) :: symbol (a % 4 * 16 + b / 16) :: symbol (b % 16 * 4 + c / 64) :: symbol (c % 64) ::
      encode rest

/-- The strict decoder, with its place in the quad, the bits left over, the
number of pads and whether padding has started. -/
def decodeLoop : List Nat → Nat → Nat → Nat → Bool → Option (List Nat)
  | [], quad, _, _, _ => if quad = 0 then some [] else none
  | ch :: rest, quad, left, pads, started =>
    if ch = 61 then
      if 2 ≤ quad then
        if 4 ≤ quad + (pads + 1) then if rest = [] then some [] else none
        else decodeLoop rest quad left (pads + 1) true
      else decodeLoop rest quad left pads true
    else
      match value ch with
      | none => none
      | some v =>
        if started then none
        else if quad = 0 then decodeLoop rest 1 v 0 false
        else if quad = 1 then (decodeLoop rest 2 (v % 16) 0 false).map (List.cons (left * 4 + v / 16))
        else if quad = 2 then (decodeLoop rest 3 (v % 4) 0 false).map (List.cons (left * 16 + v / 4))
        else (decodeLoop rest 0 0 0 false).map (List.cons (left * 64 + v))

def decode (data : List Nat) : Option (List Nat) :=
  if data.head? = some 61 then none else decodeLoop data 0 0 0 false

variable {v : Nat} {data : List Nat}

theorem value_symbol (hv : v < 64) : value (symbol v) = some v ∧ symbol v ≠ 61 := by
  unfold symbol
  split
  next h =>
    refine ⟨?_, by omega⟩
    rw [value, if_pos ⟨by omega, by omega⟩]
    simp
  next h1 =>
    split
    next h =>
      refine ⟨?_, by omega⟩
      rw [value, if_neg (by omega), if_pos ⟨by omega, by omega⟩]
      simp
    next h2 =>
      split
      next h =>
        refine ⟨?_, by omega⟩
        rw [value, if_neg (by omega), if_neg (by omega), if_pos ⟨by omega, by omega⟩]
        simp only [Option.some.injEq]
        omega
      next h3 =>
        have hcase : v = 62 ∨ v = 63 := by omega
        rcases hcase with rfl | rfl
        · exact ⟨rfl, by decide⟩
        · exact ⟨rfl, by decide⟩

theorem value_lt {ch : Nat} (h : value ch = some v) : v < 64 := by
  unfold value at h
  split at h
  next => cases h; omega
  next =>
    split at h
    next => cases h; omega
    next =>
      split at h
      next => cases h; omega
      next =>
        split at h
        next => cases h; omega
        next =>
          split at h
          next => cases h; omega
          next => cases h

theorem decodeLoop_first (hv : v < 64) (rest : List Nat) (left : Nat) :
    decodeLoop (symbol v :: rest) 0 left 0 false = decodeLoop rest 1 v 0 false := by
  obtain ⟨hvalue, hpad⟩ := value_symbol hv
  simp [decodeLoop, hpad, hvalue]

theorem decodeLoop_second (hv : v < 64) (rest : List Nat) (left : Nat) :
    decodeLoop (symbol v :: rest) 1 left 0 false =
      (decodeLoop rest 2 (v % 16) 0 false).map (List.cons (left * 4 + v / 16)) := by
  obtain ⟨hvalue, hpad⟩ := value_symbol hv
  simp [decodeLoop, hpad, hvalue]

theorem decodeLoop_third (hv : v < 64) (rest : List Nat) (left : Nat) :
    decodeLoop (symbol v :: rest) 2 left 0 false =
      (decodeLoop rest 3 (v % 4) 0 false).map (List.cons (left * 16 + v / 4)) := by
  obtain ⟨hvalue, hpad⟩ := value_symbol hv
  simp [decodeLoop, hpad, hvalue]

theorem decodeLoop_fourth (hv : v < 64) (rest : List Nat) (left : Nat) :
    decodeLoop (symbol v :: rest) 3 left 0 false =
      (decodeLoop rest 0 0 0 false).map (List.cons (left * 64 + v)) := by
  obtain ⟨hvalue, hpad⟩ := value_symbol hv
  simp [decodeLoop, hpad, hvalue]

theorem decodeLoop_encode (data : List Nat) (h : ∀ x ∈ data, x < 256) :
    decodeLoop (encode data) 0 0 0 false = some data := by
  induction data using encode.induct with
  | case1 => rfl
  | case2 a =>
    have ha : a < 256 := h a (by simp)
    have e1 : a / 4 * 4 + a % 4 * 16 / 16 = a := by omega
    rw [encode, decodeLoop_first (by omega), decodeLoop_second (by omega), e1]
    rfl
  | case3 a b =>
    have ha : a < 256 := h a (by simp)
    have hb : b < 256 := h b (by simp)
    have e1 : a / 4 * 4 + (a % 4 * 16 + b / 16) / 16 = a := by omega
    have e2 : (a % 4 * 16 + b / 16) % 16 * 16 + b % 16 * 4 / 4 = b := by omega
    rw [encode, decodeLoop_first (by omega), decodeLoop_second (by omega), decodeLoop_third (by omega), e1, e2]
    rfl
  | case4 a b c rest ih =>
    have ha : a < 256 := h a (by simp)
    have hb : b < 256 := h b (by simp)
    have hc : c < 256 := h c (by simp)
    have hrest := ih fun x hx => h x (by simp [hx])
    have e1 : a / 4 * 4 + (a % 4 * 16 + b / 16) / 16 = a := by omega
    have e2 : (a % 4 * 16 + b / 16) % 16 * 16 + (b % 16 * 4 + c / 64) / 4 = b := by omega
    have e3 : (b % 16 * 4 + c / 64) % 4 * 64 + c % 64 = c := by omega
    rw [encode, decodeLoop_first (by omega), decodeLoop_second (by omega), decodeLoop_third (by omega),
      decodeLoop_fourth (by omega), hrest, e1, e2, e3]
    rfl

theorem decode_encode (h : ∀ x ∈ data, x < 256) : decode (encode data) = some data := by
  have hhead : (encode data).head? ≠ some 61 := by
    match data with
    | [] => simp [encode]
    | [a] => simp [encode, (value_symbol (show a / 4 < 64 by have := h a (by simp); omega)).2]
    | [a, b] => simp [encode, (value_symbol (show a / 4 < 64 by have := h a (by simp); omega)).2]
    | a :: b :: c :: rest => simp [encode, (value_symbol (show a / 4 < 64 by have := h a (by simp); omega)).2]
  rw [decode, if_neg hhead, decodeLoop_encode data h]

def LeftFits (quad left : Nat) : Prop := quad = 1 ∧ left < 64 ∨ quad = 2 ∧ left < 16 ∨ quad = 3 ∧ left < 4 ∨ quad = 0

theorem decodeLoop_octets {out : List Nat} {quad left pads : Nat} {started : Bool}
    (hfit : LeftFits quad left) (h : decodeLoop data quad left pads started = some out) :
    ∀ x ∈ out, x < 256 := by
  induction data generalizing quad left pads started out with
  | nil =>
    simp only [decodeLoop] at h
    split at h
    next => cases h; simp
    next => cases h
  | cons ch rest ih =>
    simp only [decodeLoop] at h
    split at h
    next =>
      split at h
      next =>
        split at h
        next =>
          split at h
          next => cases h; simp
          next => cases h
        next => exact ih hfit h
      next => exact ih hfit h
    next =>
      cases hv : value ch with
      | none => simp only [hv] at h; cases h
      | some v =>
        have hlt := value_lt hv
        simp only [hv] at h
        split at h
        next => cases h
        next =>
          split at h
          next => exact ih (Or.inl ⟨rfl, hlt⟩) h
          next h0 =>
            split at h
            next h1 =>
              obtain ⟨tail, ht, rfl⟩ := Option.map_eq_some_iff.mp h
              have htail := ih (Or.inr (Or.inl ⟨rfl, Nat.mod_lt _ (by omega)⟩)) ht
              have hhead : left * 4 + v / 16 < 256 := by
                rcases hfit with ⟨_, hl⟩ | ⟨hq, _⟩ | ⟨hq, _⟩ | hq <;> omega
              exact List.forall_mem_cons.mpr ⟨hhead, htail⟩
            next h1 =>
              split at h
              next h2 =>
                obtain ⟨tail, ht, rfl⟩ := Option.map_eq_some_iff.mp h
                have htail := ih (Or.inr (Or.inr (Or.inl ⟨rfl, Nat.mod_lt _ (by omega)⟩))) ht
                have hhead : left * 16 + v / 4 < 256 := by
                  rcases hfit with ⟨hq, _⟩ | ⟨_, hl⟩ | ⟨hq, _⟩ | hq <;> omega
                exact List.forall_mem_cons.mpr ⟨hhead, htail⟩
              next h2 =>
                obtain ⟨tail, ht, rfl⟩ := Option.map_eq_some_iff.mp h
                have htail := ih (Or.inr (Or.inr (Or.inr rfl))) ht
                have hhead : left * 64 + v < 256 := by
                  rcases hfit with ⟨hq, _⟩ | ⟨hq, _⟩ | ⟨_, hl⟩ | hq <;> omega
                exact List.forall_mem_cons.mpr ⟨hhead, htail⟩

theorem decode_octets {out : List Nat} (h : decode data = some out) : ∀ x ∈ out, x < 256 := by
  unfold decode at h
  split at h
  next => cases h
  next => exact decodeLoop_octets (Or.inr (Or.inr (Or.inr rfl))) h

end Base64
