import Mathlib.Data.List.Infix
import Leitir.LawfulLists

namespace Utf8

open List

def isTail (b : Nat) : Bool := 0x80 ≤ b && b ≤ 0xBF

def isSecond (a b : Nat) : Bool :=
  (if a = 0xE0 then 0xA0 else if a = 0xF0 then 0x90 else 0x80) ≤ b &&
    b ≤ (if a = 0xED then 0x9F else if a = 0xF4 then 0x8F else 0xBF)

/-- The first code point of an input and the octets it takes. An ill-formed
start has no code point and takes its longest well-formed beginning. -/
def step : List Nat → Option Nat × Nat
  | [] => (none, 0)
  | a :: rest =>
    if a < 0x80 then (some a, 1)
    else if 0xC2 ≤ a ∧ a ≤ 0xDF then
      match rest with
      | [] => (none, 1)
      | b :: _ => if isTail b then (some ((a - 0xC0) * 0x40 + (b - 0x80)), 2) else (none, 1)
    else if 0xE0 ≤ a ∧ a ≤ 0xEF then
      match rest with
      | [] => (none, 1)
      | b :: rest =>
        if isSecond a b then
          match rest with
          | [] => (none, 2)
          | c :: _ =>
            if isTail c then (some ((a - 0xE0) * 0x1000 + (b - 0x80) * 0x40 + (c - 0x80)), 3) else (none, 2)
        else (none, 1)
    else if 0xF0 ≤ a ∧ a ≤ 0xF4 then
      match rest with
      | [] => (none, 1)
      | b :: rest =>
        if isSecond a b then
          match rest with
          | [] => (none, 2)
          | c :: rest =>
            if isTail c then
              match rest with
              | [] => (none, 3)
              | d :: _ =>
                if isTail d then
                  (some ((a - 0xF0) * 0x40000 + (b - 0x80) * 0x1000 + (c - 0x80) * 0x40 + (d - 0x80)), 4)
                else (none, 3)
            else (none, 2)
        else (none, 1)
    else (none, 1)

def encodePoint (point : Nat) : List Nat :=
  if point < 0x80 then [point]
  else if point < 0x800 then [0xC0 + point / 0x40, 0x80 + point % 0x40]
  else if point < 0x10000 then [0xE0 + point / 0x1000, 0x80 + point / 0x40 % 0x40, 0x80 + point % 0x40]
  else [0xF0 + point / 0x40000, 0x80 + point / 0x1000 % 0x40, 0x80 + point / 0x40 % 0x40, 0x80 + point % 0x40]

/-- The input cut into its code points and ill-formed pieces, each with its octets. -/
def pieces : Nat → List Nat → List (Option Nat × List Nat)
  | 0, _ => []
  | _ + 1, [] => []
  | fuel + 1, a :: rest =>
    let (point, count) := step (a :: rest)
    (point, (a :: rest).take count) :: pieces fuel ((a :: rest).drop count)

def decodeReplace (data : List Nat) : List Nat :=
  (pieces data.length data).map fun piece => piece.1.getD 0xFFFD

def decodeStrict (data : List Nat) : Option (List Nat) := (pieces data.length data).mapM fun piece => piece.1

theorem step_count (a : Nat) (rest : List Nat) : 0 < (step (a :: rest)).2 := by
  simp only [step]
  repeat' split
  all_goals simp

variable {b a point : Nat} {data : List Nat}

theorem isTail_bounds (h : isTail b = true) : 0x80 ≤ b ∧ b ≤ 0xBF := by
  simpa [isTail] using h

theorem isSecond_bounds (h : isSecond a b = true) :
    0x80 ≤ b ∧ b ≤ 0xBF ∧ (a = 0xE0 → 0xA0 ≤ b) ∧ (a = 0xF0 → 0x90 ≤ b) := by
  simp only [isSecond, Bool.and_eq_true, decide_eq_true_eq] at h
  obtain ⟨hlow, hhigh⟩ := h
  have hupper : b ≤ 0xBF := by
    split at hhigh
    next => omega
    next => split at hhigh <;> omega
  split at hlow
  next => omega
  next => split at hlow <;> omega

theorem encodePoint_two (ha : 0xC2 ≤ a ∧ a ≤ 0xDF) (hb : 0x80 ≤ b ∧ b ≤ 0xBF)
    (hp : (a - 0xC0) * 0x40 + (b - 0x80) = point) : encodePoint point = [a, b] := by
  have e1 : 0xC0 + point / 0x40 = a := by omega
  have e2 : 0x80 + point % 0x40 = b := by omega
  rw [encodePoint, if_neg (by omega), if_pos (by omega), e1, e2]

theorem encodePoint_three {c : Nat} (ha : 0xE0 ≤ a ∧ a ≤ 0xEF) (hb : isSecond a b = true)
    (hc : 0x80 ≤ c ∧ c ≤ 0xBF) (hp : (a - 0xE0) * 0x1000 + (b - 0x80) * 0x40 + (c - 0x80) = point) :
    encodePoint point = [a, b, c] := by
  obtain ⟨hb1, hb2, hb3, _⟩ := isSecond_bounds hb
  have e1 : 0xE0 + point / 0x1000 = a := by omega
  have e2 : 0x80 + point / 0x40 % 0x40 = b := by omega
  have e3 : 0x80 + point % 0x40 = c := by omega
  rw [encodePoint, if_neg (by omega), if_neg (by omega), if_pos (by omega), e1, e2, e3]

theorem encodePoint_four {c d : Nat} (ha : 0xF0 ≤ a ∧ a ≤ 0xF4) (hb : isSecond a b = true)
    (hc : 0x80 ≤ c ∧ c ≤ 0xBF) (hd : 0x80 ≤ d ∧ d ≤ 0xBF)
    (hp : (a - 0xF0) * 0x40000 + (b - 0x80) * 0x1000 + (c - 0x80) * 0x40 + (d - 0x80) = point) :
    encodePoint point = [a, b, c, d] := by
  obtain ⟨hb1, hb2, _, hb4⟩ := isSecond_bounds hb
  have e1 : 0xF0 + point / 0x40000 = a := by omega
  have e2 : 0x80 + point / 0x1000 % 0x40 = b := by omega
  have e3 : 0x80 + point / 0x40 % 0x40 = c := by omega
  have e4 : 0x80 + point % 0x40 = d := by omega
  rw [encodePoint, if_neg (by omega), if_neg (by omega), if_neg (by omega), e1, e2, e3, e4]

theorem point_inj {p q m n : Nat} (h : (some p, m) = (some q, n)) : p = q ∧ m = n := by
  simpa using h

theorem no_point {q m n : Nat} (h : ((none : Option Nat), m) = (some q, n)) : False := by
  simp at h

/-- A code point takes exactly its own encoding. -/
theorem step_point {count : Nat} (h : step data = (some point, count)) :
    data.take count = encodePoint point := by
  match data with
  | [] => exact (no_point h).elim
  | a :: rest =>
    simp only [step] at h
    split at h
    next ha =>
      obtain ⟨rfl, rfl⟩ := point_inj h
      rw [encodePoint, if_pos ha]
      rfl
    next ha =>
      split at h
      next h2 =>
        split at h
        next => exact (no_point h).elim
        next b tail =>
          split at h
          next hb =>
            obtain ⟨hp, rfl⟩ := point_inj h
            rw [encodePoint_two h2 (isTail_bounds hb) hp]
            rfl
          next => exact (no_point h).elim
      next =>
        split at h
        next h3 =>
          split at h
          next => exact (no_point h).elim
          next b tail =>
            split at h
            next hb =>
              split at h
              next => exact (no_point h).elim
              next c tail =>
                split at h
                next hc =>
                  obtain ⟨hp, rfl⟩ := point_inj h
                  rw [encodePoint_three h3 hb (isTail_bounds hc) hp]
                  rfl
                next => exact (no_point h).elim
            next => exact (no_point h).elim
        next =>
          split at h
          next h4 =>
            split at h
            next => exact (no_point h).elim
            next b tail =>
              split at h
              next hb =>
                split at h
                next => exact (no_point h).elim
                next c tail =>
                  split at h
                  next hc =>
                    split at h
                    next => exact (no_point h).elim
                    next d tail =>
                      split at h
                      next hd =>
                        obtain ⟨hp, rfl⟩ := point_inj h
                        rw [encodePoint_four h4 hb (isTail_bounds hc) (isTail_bounds hd) hp]
                        rfl
                      next => exact (no_point h).elim
                  next => exact (no_point h).elim
              next => exact (no_point h).elim
          next => exact (no_point h).elim

theorem pieces_octets {fuel : Nat} (hfuel : data.length ≤ fuel) :
    (pieces fuel data).flatMap Prod.snd = data := by
  induction fuel generalizing data with
  | zero =>
    have hnil : data = [] := length_eq_zero_iff.mp (by omega)
    rw [hnil]
    rfl
  | succ fuel ih =>
    match data with
    | [] => rfl
    | a :: rest =>
      have hpos := step_count a rest
      have hdrop : ((a :: rest).drop (step (a :: rest)).2).length ≤ fuel := by
        rw [length_drop]
        omega
      rw [pieces, flatMap_cons, ih hdrop]
      exact take_append_drop _ _

theorem mem_pieces_point {fuel : Nat} {octets : List Nat}
    (h : (some point, octets) ∈ pieces fuel data) : octets = encodePoint point := by
  induction fuel generalizing data with
  | zero => simp [pieces] at h
  | succ fuel ih =>
    match data with
    | [] => simp [pieces] at h
    | a :: rest =>
      rw [pieces] at h
      rcases mem_cons.mp h with he | ht
      · obtain ⟨hpoint, hoctets⟩ := Prod.mk.inj he
        rw [hoctets]
        exact step_point (Prod.ext hpoint.symm rfl)
      · exact ih ht

theorem clean_pieces_octets {run : List (Option Nat × List Nat)}
    (hown : ∀ point octets, (some point, octets) ∈ run → octets = encodePoint point)
    (hclean : 0xFFFD ∉ run.map fun piece => piece.1.getD 0xFFFD) :
    run.flatMap Prod.snd = (run.map fun piece => piece.1.getD 0xFFFD).flatMap encodePoint := by
  induction run with
  | nil => rfl
  | cons piece tail ih =>
    rw [map_cons, mem_cons, not_or] at hclean
    have htail := ih (fun point octets h => hown point octets (mem_cons_of_mem piece h)) hclean.2
    match piece with
    | (none, octets) => exact absurd rfl hclean.1
    | (some point, octets) =>
      rw [flatMap_cons, map_cons, flatMap_cons, htail]
      exact congrArg (· ++ _) (hown point octets (by simp))

theorem infix_of_decodeReplace {run : List Nat} (hclean : 0xFFFD ∉ run)
    (h : run <:+: decodeReplace data) : run.flatMap encodePoint <:+: data := by
  obtain ⟨before, after, hcut⟩ := h
  obtain ⟨left, right, hpieces, hleft, _⟩ := map_eq_append_iff.mp hcut.symm
  obtain ⟨first, middle, hsplit, _, hmiddle⟩ := map_eq_append_iff.mp hleft
  subst hmiddle
  have hown : ∀ point octets, (some point, octets) ∈ middle → octets = encodePoint point := by
    intro point octets hin
    apply mem_pieces_point
    rw [hpieces, hsplit]
    simp [hin]
  refine ⟨first.flatMap Prod.snd, right.flatMap Prod.snd, ?_⟩
  rw [← clean_pieces_octets hown hclean, ← flatMap_append, ← flatMap_append, ← hsplit, ← hpieces,
    pieces_octets le_rfl]

section

def IsScalar (point : Nat) : Prop := point < 0xD800 ∨ 0xDFFF < point ∧ point < 0x110000

variable {b point : Nat} {rest : List Nat}

theorem isTail_of_lt (h : b < 0x40) : isTail (0x80 + b) = true := by
  simp only [isTail, Bool.and_eq_true, decide_eq_true_eq]
  omega

theorem step_two {a : Nat} (ha : 0xC2 ≤ a ∧ a ≤ 0xDF) (hb : isTail b = true) :
    step (a :: b :: rest) = (some ((a - 0xC0) * 0x40 + (b - 0x80)), 2) := by
  simp only [step, if_neg (show ¬ a < 0x80 by omega), if_pos ha, hb, if_true]

theorem step_three {a c : Nat} (ha : 0xE0 ≤ a ∧ a ≤ 0xEF) (hb : isSecond a b = true)
    (hc : isTail c = true) :
    step (a :: b :: c :: rest) = (some ((a - 0xE0) * 0x1000 + (b - 0x80) * 0x40 + (c - 0x80)), 3) := by
  simp only [step, if_neg (show ¬ a < 0x80 by omega), if_neg (show ¬ (0xC2 ≤ a ∧ a ≤ 0xDF) by omega), if_pos ha, hb,
    hc, if_true]

theorem step_four {a c d : Nat} (ha : 0xF0 ≤ a ∧ a ≤ 0xF4) (hb : isSecond a b = true)
    (hc : isTail c = true) (hd : isTail d = true) :
    step (a :: b :: c :: d :: rest) =
      (some ((a - 0xF0) * 0x40000 + (b - 0x80) * 0x1000 + (c - 0x80) * 0x40 + (d - 0x80)), 4) := by
  simp only [step, if_neg (show ¬ a < 0x80 by omega), if_neg (show ¬ (0xC2 ≤ a ∧ a ≤ 0xDF) by omega),
    if_neg (show ¬ (0xE0 ≤ a ∧ a ≤ 0xEF) by omega), if_pos ha, hb, hc, hd, if_true]

theorem isSecond_three (hlow : 0x800 ≤ point) (hhigh : point < 0x10000) (h : IsScalar point) :
    isSecond (0xE0 + point / 0x1000) (0x80 + point / 0x40 % 0x40) = true := by
  unfold IsScalar at h
  simp only [isSecond, Bool.and_eq_true, decide_eq_true_eq]
  constructor
  · split
    next => omega
    next => split <;> omega
  · split
    next => omega
    next => split <;> omega

theorem isSecond_four (hlow : 0x10000 ≤ point) (h : IsScalar point) :
    isSecond (0xF0 + point / 0x40000) (0x80 + point / 0x1000 % 0x40) = true := by
  unfold IsScalar at h
  simp only [isSecond, Bool.and_eq_true, decide_eq_true_eq]
  constructor
  · split
    next => omega
    next => split <;> omega
  · split
    next => omega
    next => split <;> omega

/-- The decoder reads a code point back from its encoding. -/
theorem step_encodePoint (h : IsScalar point) (rest : List Nat) :
    step (encodePoint point ++ rest) = (some point, (encodePoint point).length) := by
  have htop : point < 0x110000 := by
    unfold IsScalar at h
    omega
  unfold encodePoint
  by_cases h1 : point < 0x80
  · rw [if_pos h1]
    simp only [cons_append, nil_append, step, if_pos h1, length_cons, length_nil]
  rw [if_neg h1]
  by_cases h2 : point < 0x800
  · have hvalue : (0xC0 + point / 0x40 - 0xC0) * 0x40 + (0x80 + point % 0x40 - 0x80) = point := by omega
    rw [if_pos h2]
    simp only [cons_append, nil_append]
    rw [step_two (by omega) (isTail_of_lt (by omega)), hvalue]
    rfl
  rw [if_neg h2]
  by_cases h3 : point < 0x10000
  · have hvalue : (0xE0 + point / 0x1000 - 0xE0) * 0x1000 + (0x80 + point / 0x40 % 0x40 - 0x80) * 0x40 +
        (0x80 + point % 0x40 - 0x80) = point := by omega
    rw [if_pos h3]
    simp only [cons_append, nil_append]
    rw [step_three (by omega) (isSecond_three (by omega) h3 h) (isTail_of_lt (by omega)), hvalue]
    rfl
  · have hvalue : (0xF0 + point / 0x40000 - 0xF0) * 0x40000 + (0x80 + point / 0x1000 % 0x40 - 0x80) * 0x1000 +
        (0x80 + point / 0x40 % 0x40 - 0x80) * 0x40 + (0x80 + point % 0x40 - 0x80) = point := by omega
    rw [if_neg h3]
    simp only [cons_append, nil_append]
    rw [step_four (by omega) (isSecond_four (by omega) h) (isTail_of_lt (by omega)) (isTail_of_lt (by omega)), hvalue]
    rfl

theorem length_encodePoint_pos (point : Nat) : 0 < (encodePoint point).length := by
  unfold encodePoint
  repeat' split
  all_goals simp

theorem pieces_encode {fuel : Nat} {points : List Nat} (hscalar : ∀ point ∈ points, IsScalar point)
    (hfuel : (points.flatMap encodePoint).length ≤ fuel) :
    pieces fuel (points.flatMap encodePoint) = points.map fun point => (some point, encodePoint point) := by
  induction points generalizing fuel with
  | nil => cases fuel <;> rfl
  | cons point points ih =>
    have hpos := length_encodePoint_pos point
    have hstep := step_encodePoint (hscalar point mem_cons_self) (points.flatMap encodePoint)
    rw [flatMap_cons] at hfuel ⊢
    rw [length_append] at hfuel
    cases fuel with
    | zero => omega
    | succ fuel =>
      cases hdata : encodePoint point ++ points.flatMap encodePoint with
      | nil =>
        have := congrArg List.length hdata
        simp only [length_append, length_nil] at this
        omega
      | cons a rest =>
        rw [pieces, ← hdata, hstep]
        simp only [take_left, drop_left, map_cons]
        rw [ih (fun q hq => hscalar q (mem_cons_of_mem _ hq)) (by omega)]

theorem decodeStrict_encode {points : List Nat} (hscalar : ∀ point ∈ points, IsScalar point) :
    decodeStrict (points.flatMap encodePoint) = some points := by
  unfold decodeStrict
  rw [pieces_encode hscalar le_rfl]
  induction points with
  | nil => rfl
  | cons point points ih =>
    rw [map_cons, mapM_cons, ih fun q hq => hscalar q (mem_cons_of_mem _ hq)]
    rfl

def encodeText (text : List Char) : List Nat := text.flatMap fun c => encodePoint c.toNat

def decodeText (data : List Nat) : Option (List Char) := (decodeStrict data).map (List.map Char.ofNat)

theorem isScalar_char (c : Char) : IsScalar c.toNat := by
  have h := c.valid
  simp only [UInt32.isValidChar, Nat.isValidChar] at h
  exact h

theorem decodeText_encodeText (text : List Char) : decodeText (encodeText text) = some text := by
  have hoctets : encodeText text = (text.map Char.toNat).flatMap encodePoint := by
    rw [flatMap_map]
    rfl
  have hscalar : ∀ point ∈ text.map Char.toNat, IsScalar point := by
    intro point hpoint
    obtain ⟨c, -, rfl⟩ := mem_map.mp hpoint
    exact isScalar_char c
  rw [decodeText, hoctets, decodeStrict_encode hscalar, Option.map_some, map_map]
  simp [Function.comp_def]

theorem encodeText_injective : Function.Injective encodeText := by
  intro a b h
  have hdecode := congrArg decodeText h
  rw [decodeText_encodeText, decodeText_encodeText] at hdecode
  exact Option.some.inj hdecode

end

end Utf8
