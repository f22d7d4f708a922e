import Leitir.Utf8

namespace Utf8

open List

/-- A proper beginning of a longer sequence: more octets may complete it. -/
def truncated : List Nat → Bool
  | [a] => 0xC2 ≤ a && a ≤ 0xF4
  | [a, b] => 0xE0 ≤ a && a ≤ 0xF4 && isSecond a b
  | [a, b, c] => 0xF0 ≤ a && a ≤ 0xF4 && isSecond a b && isTail c
  | _ => false

/-- The text of an input that may go on, and the octets that are kept for later. -/
def feed : Nat → List Nat → List Nat × List Nat
  | 0, data => ([], data)
  | _ + 1, [] => ([], [])
  | fuel + 1, a :: rest =>
    if truncated (a :: rest) then ([], a :: rest)
    else
      let (point, count) := step (a :: rest)
      let (text, kept) := feed fuel ((a :: rest).drop count)
      (point.getD 0xFFFD :: text, kept)

def decodeMore (kept chunk : List Nat) : List Nat × List Nat := feed (kept ++ chunk).length (kept ++ chunk)

section

variable {a : Nat} {rest : List Nat}

theorem step_four_cases (h4 : 0xF0 ≤ a ∧ a ≤ 0xF4) (htruncated : truncated (a :: rest) = false) (more : List Nat) :
    step (a :: rest ++ more) = step (a :: rest) := by
  have h1 : ¬ a < 0x80 := by omega
  have h2 : ¬ (0xC2 ≤ a ∧ a ≤ 0xDF) := by omega
  have h3 : ¬ (0xE0 ≤ a ∧ a ≤ 0xEF) := by omega
  have hlead : 0xC2 ≤ a := by omega
  cases rest with
  | nil => simp [truncated, h4.2, hlead] at htruncated
  | cons b rest =>
    cases hb : isSecond a b with
    | false => simp [step, h1, h2, h3, h4, hb]
    | true =>
      cases rest with
      | nil => simp [truncated, hb, h4.2, show 0xE0 ≤ a by omega] at htruncated
      | cons c rest =>
        cases hc : isTail c with
        | false => simp [step, h1, h2, h3, h4, hb, hc]
        | true =>
          cases rest with
          | nil => simp [truncated, hb, hc, h4] at htruncated
          | cons d rest => simp [step, h1, h2, h3, h4, hb, hc]

theorem step_three_cases (h3 : 0xE0 ≤ a ∧ a ≤ 0xEF) (htruncated : truncated (a :: rest) = false) (more : List Nat) :
    step (a :: rest ++ more) = step (a :: rest) := by
  have h1 : ¬ a < 0x80 := by omega
  have h2 : ¬ (0xC2 ≤ a ∧ a ≤ 0xDF) := by omega
  have hlead : 0xC2 ≤ a := by omega
  have hlast : a ≤ 0xF4 := by omega
  cases rest with
  | nil => simp [truncated, hlast, hlead] at htruncated
  | cons b rest =>
    cases hb : isSecond a b with
    | false => simp [step, h1, h2, h3, hb]
    | true =>
      cases rest with
      | nil => simp [truncated, hb, hlast, h3.1] at htruncated
      | cons c rest => simp [step, h1, h2, h3, hb]

theorem step_two_cases (h2 : 0xC2 ≤ a ∧ a ≤ 0xDF) (htruncated : truncated (a :: rest) = false) (more : List Nat) :
    step (a :: rest ++ more) = step (a :: rest) := by
  have h1 : ¬ a < 0x80 := by omega
  have hlast : a ≤ 0xF4 := by omega
  match rest with
  | [] => simp [truncated, hlast, h2.1] at htruncated
  | b :: rest => simp [step, h1, h2]

theorem step_append (htruncated : truncated (a :: rest) = false) (more : List Nat) :
    step (a :: rest ++ more) = step (a :: rest) := by
  by_cases h4 : 0xF0 ≤ a ∧ a ≤ 0xF4
  · exact step_four_cases h4 htruncated more
  by_cases h3 : 0xE0 ≤ a ∧ a ≤ 0xEF
  · exact step_three_cases h3 htruncated more
  by_cases h2 : 0xC2 ≤ a ∧ a ≤ 0xDF
  · exact step_two_cases h2 htruncated more
  simp [step, h2, h3, h4]

theorem step_count_le (a : Nat) (rest : List Nat) : (step (a :: rest)).2 ≤ (a :: rest).length := by
  simp only [step]
  repeat' split
  all_goals simp

end

variable {fuel : Nat} {data : List Nat}

theorem pieces_fuel {fuel' : Nat} (h : data.length ≤ fuel) (h' : data.length ≤ fuel') :
    pieces fuel data = pieces fuel' data := by
  induction fuel generalizing data fuel' with
  | zero =>
    have hnil : data = [] := length_eq_zero_iff.mp (by omega)
    rw [hnil]
    cases fuel' with
    | zero => rfl
    | succ fuel' => rfl
  | succ fuel ih =>
    match data with
    | [] =>
      cases fuel' with
      | zero => rfl
      | succ fuel' => rfl
    | a :: rest =>
      obtain ⟨fuel', rfl⟩ : ∃ n, fuel' = n + 1 := ⟨fuel' - 1, by simp at h'; omega⟩
      have hpos := step_count a rest
      simp only [length_cons] at h h'
      have hdrop : ((a :: rest).drop (step (a :: rest)).2).length ≤ rest.length := by
        rw [length_drop, length_cons]
        omega
      simp only [pieces]
      rw [ih (by omega) (by omega : _ ≤ fuel')]

theorem decodeReplace_cons (a : Nat) (rest : List Nat) :
    decodeReplace (a :: rest) =
      (step (a :: rest)).1.getD 0xFFFD :: decodeReplace ((a :: rest).drop (step (a :: rest)).2) := by
  have hpos := step_count a rest
  have hdrop : ((a :: rest).drop (step (a :: rest)).2).length ≤ rest.length := by
    rw [length_drop, length_cons]
    omega
  unfold decodeReplace
  rw [length_cons, pieces, map_cons, pieces_fuel hdrop le_rfl]

theorem feed_append (hfuel : data.length ≤ fuel) (more : List Nat) :
    decodeReplace (data ++ more) = (feed fuel data).1 ++ decodeReplace ((feed fuel data).2 ++ more) := by
  induction fuel generalizing data with
  | zero => rfl
  | succ fuel ih =>
    match data with
    | [] => rfl
    | a :: rest =>
      rw [feed]
      split
      next => rfl
      next htruncated =>
        have hread := step_append (eq_false_of_ne_true htruncated) more
        have hpos := step_count a rest
        have hle := step_count_le a rest
        simp only [length_cons] at hfuel
        have hdrop : ((a :: rest).drop (step (a :: rest)).2).length ≤ fuel := by
          rw [length_drop, length_cons]
          omega
        rw [cons_append, decodeReplace_cons, ← cons_append, hread, drop_append_of_le_length hle, ih hdrop]
        rfl

theorem feed_kept (hfuel : data.length ≤ fuel) :
    (feed fuel data).2 = [] ∨ truncated (feed fuel data).2 = true := by
  induction fuel generalizing data with
  | zero => exact Or.inl (length_eq_zero_iff.mp (Nat.le_zero.mp hfuel))
  | succ fuel ih =>
    match data with
    | [] => exact Or.inl rfl
    | a :: rest =>
      rw [feed]
      split
      next htruncated => exact Or.inr htruncated
      next =>
        have hpos := step_count a rest
        simp only [length_cons] at hfuel
        refine ih ?_
        rw [length_drop, length_cons]
        omega

theorem truncated_lead {a : Nat} {rest : List Nat} (h : truncated (a :: rest) = true) : 0xC2 ≤ a ∧ a ≤ 0xF4 := by
  match rest with
  | [] => simpa [truncated] using h
  | [b] =>
    simp only [truncated, Bool.and_eq_true, decide_eq_true_eq] at h
    omega
  | [b, c] =>
    simp only [truncated, Bool.and_eq_true, decide_eq_true_eq] at h
    omega
  | b :: c :: d :: rest => simp [truncated] at h

/-- The octets that are left at the end stand for one replacement character. -/
theorem decodeReplace_truncated (h : truncated data = true) : decodeReplace data = [0xFFFD] := by
  match data with
  | [] => simp [truncated] at h
  | a :: rest =>
    have hlead := truncated_lead h
    have h1 : ¬ a < 0x80 := by omega
    have hstep : step (a :: rest) = (none, (a :: rest).length) := by
      match rest with
      | [] =>
        simp only [step, h1, if_false, length_cons, length_nil]
        repeat' split
        all_goals rfl
      | [b] =>
        simp only [truncated, Bool.and_eq_true, decide_eq_true_eq] at h
        have h2 : ¬ (0xC2 ≤ a ∧ a ≤ 0xDF) := by omega
        simp only [step, h1, h2, h.2, if_false, if_true, length_cons, length_nil]
        by_cases h3 : 0xE0 ≤ a ∧ a ≤ 0xEF
        · rw [if_pos h3]
        · rw [if_neg h3, if_pos (show 0xF0 ≤ a ∧ a ≤ 0xF4 by omega)]
      | [b, c] =>
        simp only [truncated, Bool.and_eq_true, decide_eq_true_eq] at h
        have h2 : ¬ (0xC2 ≤ a ∧ a ≤ 0xDF) := by omega
        have h3 : ¬ (0xE0 ≤ a ∧ a ≤ 0xEF) := by omega
        have h4 : 0xF0 ≤ a ∧ a ≤ 0xF4 := by omega
        simp only [step, h1, h2, h3, h4, h.1.2, h.2, if_false, if_true, and_self, length_cons, length_nil]
      | b :: c :: d :: rest => simp [truncated] at h
    rw [decodeReplace_cons, hstep, drop_length]
    rfl

end Utf8
