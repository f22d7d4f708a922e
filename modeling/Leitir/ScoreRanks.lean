import Leitir.DecimalRound
import Mathlib.Data.List.Sort
import Mathlib.Data.List.TakeWhile

namespace Leitir.Score

open DecimalRound List

section

inductive SampleError
  | firstEmpty | secondEmpty
deriving DecidableEq

structure MannWhitneyResult where
  u : ℚ
  variance : ℚ
deriving DecidableEq

variable {α : Type} [LinearOrder α]

def tagged (first second : List α) : List (α × Nat) :=
  (first.map (·, 0) ++ second.map (·, 1)).insertionSort fun a b => a.1 ≤ b.1

/-- The loop over the tie groups that are left, from a position on: twice the rank sum of the first samples, and the tie term. -/
def rankLoop (items : List (α × Nat)) (start rankSumTwice tieTerm : Nat) : Nat × Nat :=
  match items with
  | [] => (rankSumTwice, tieTerm)
  | item :: rest =>
    let group := item :: rest.takeWhile fun other => other.1 = item.1
    let stop := start + group.length
    rankLoop (rest.dropWhile fun other => other.1 = item.1) stop
      (rankSumTwice + (start + stop + 1) * group.countP fun member => member.2 = 0)
      (tieTerm + (group.length ^ 3 - group.length))
termination_by items.length
decreasing_by simpa using Nat.lt_succ_of_le (List.length_dropWhile_le _ _)

def mannWhitneyUTwoSided (first second : List α) : Except SampleError MannWhitneyResult :=
  if first = [] then .error .firstEmpty
  else if second = [] then .error .secondEmpty
  else
    let (rankSumTwice, tieTerm) := rankLoop (tagged first second) 0 0 0
    let nFirst := first.length
    let nSecond := second.length
    let total := nFirst + nSecond
    let uFirstTwice : Int := rankSumTwice - nFirst * (nFirst + 1)
    let uSecondTwice : Int := 2 * nFirst * nSecond - uFirstTwice
    let uTwice := min uFirstTwice uSecondTwice
    let variance : ℚ := (nFirst * nSecond : Nat) / 12 * ((total + 1 : Nat) - tieTerm / (total * (total - 1) : Nat))
    .ok ⟨divide 28 uTwice.toNat 2, variance⟩

end

section

variable {α : Type} [LinearOrder α] {items : List (α × Nat)}

/-- How many items are below a value, and how many are equal to it. -/
def below (items : List α) (a : α) : Nat := items.countP fun b => b < a

def equal (items : List α) (a : α) : Nat := items.countP fun b => b = a

/-- A sorted list is its first tie group, and what is above it. -/
theorem group_split {item : α × Nat} {rest : List (α × Nat)} (h : (item :: rest).Pairwise fun a b => a.1 ≤ b.1) :
    (∀ other ∈ rest.takeWhile fun other => other.1 = item.1, other.1 = item.1) ∧
    ∀ other ∈ rest.dropWhile fun other => other.1 = item.1, item.1 < other.1 := by
  constructor
  · intro other hother
    simpa using mem_takeWhile_imp hother
  · obtain ⟨hfirst, hrest⟩ := pairwise_cons.mp h
    induction rest with
    | nil => simp
    | cons next rest ih =>
      obtain ⟨hnext, hrest'⟩ := pairwise_cons.mp hrest
      by_cases heq : next.1 = item.1
      · rw [dropWhile_cons_of_pos (by simpa using heq)]
        exact ih (List.Pairwise.cons (fun other hother => hfirst other (mem_cons_of_mem _ hother)) hrest')
          (fun other hother => hfirst other (mem_cons_of_mem _ hother)) hrest'
      · rw [dropWhile_cons_of_neg (by simpa using heq)]
        have hlt : item.1 < next.1 := lt_of_le_of_ne (hfirst next mem_cons_self) (Ne.symm heq)
        exact forall_mem_cons.mpr ⟨hlt, fun other hother => hlt.trans_le (hnext other hother)⟩

/-- Twice the mid-ranks of the first samples, from a position on. -/
def rankTotal (items : List (α × Nat)) (start : Nat) : Nat :=
  (items.map fun item => if item.2 = 0 then 2 * (start + below (items.map Prod.fst) item.1) + equal (items.map Prod.fst) item.1 + 1
    else 0).sum

def tieTotal (items : List α) : Nat := (items.map fun a => equal items a ^ 2 - 1).sum

theorem group_counts {group above : List α} {a : α} (hgroup : ∀ b ∈ group, b = a) (habove : ∀ b ∈ above, a < b) :
    below (group ++ above) a = 0 ∧ equal (group ++ above) a = group.length ∧
    ∀ b ∈ above, below (group ++ above) b = group.length + below above b ∧ equal (group ++ above) b = equal above b := by
  unfold below equal
  refine ⟨?_, ?_, fun b hb => ⟨?_, ?_⟩⟩
  · rw [countP_eq_zero]
    intro b hb
    rcases mem_append.mp hb with hb | hb
    · simp [hgroup b hb]
    · simpa using (habove b hb).le
  · rw [countP_append, countP_eq_length.mpr (by simpa using hgroup),
      countP_eq_zero.mpr (by simpa using fun b hb => (habove b hb).ne'), Nat.add_zero]
  · rw [countP_append, countP_eq_length.mpr]
    intro c hc
    simpa [hgroup c hc] using habove b hb
  · rw [countP_append, countP_eq_zero.mpr, Nat.zero_add]
    intro c hc
    simpa [hgroup c hc] using (habove b hb).ne

theorem sum_ite_const {β : Type} (p : β → Prop) [DecidablePred p] (c : Nat) (items : List β) :
    (items.map fun item => if p item then c else 0).sum = c * items.countP fun item => p item := by
  induction items with
  | nil => rfl
  | cons item items ih =>
    rw [map_cons, sum_cons, ih, countP_cons, Nat.mul_add]
    by_cases h : p item <;> simp [h, Nat.add_comm]

theorem group_totals {group above : List (α × Nat)} {a : α} (start : Nat) (hgroup : ∀ item ∈ group, item.1 = a)
    (habove : ∀ item ∈ above, a < item.1) :
    rankTotal (group ++ above) start =
      (start + (start + group.length) + 1) * (group.countP fun item => item.2 = 0) + rankTotal above (start + group.length) ∧
    tieTotal ((group ++ above).map Prod.fst) = (group.length ^ 3 - group.length) + tieTotal (above.map Prod.fst) := by
  obtain ⟨hbelow, hequal, hcounts⟩ := @group_counts _ _ (group.map Prod.fst) (above.map Prod.fst) a
    (forall_mem_map.mpr hgroup) (forall_mem_map.mpr habove)
  rw [length_map] at hequal hcounts
  unfold rankTotal tieTotal
  rw [map_append, map_append, sum_append, map_append, sum_append]
  constructor
  · congr 1
    · rw [← sum_ite_const]
      refine congrArg List.sum (map_congr_left fun item hitem => ?_)
      rw [hgroup item hitem, hbelow, hequal, show 2 * (start + 0) + group.length + 1 = start + (start + group.length) + 1 by omega]
    · refine congrArg List.sum (map_congr_left fun item hitem => ?_)
      obtain ⟨hb, he⟩ := hcounts item.1 (mem_map_of_mem hitem)
      rw [hb, he, Nat.add_assoc start]
  · congr 1
    · have hconst : (group.map Prod.fst).map (fun b => equal (group.map Prod.fst ++ above.map Prod.fst) b ^ 2 - 1) =
          List.replicate group.length (group.length ^ 2 - 1) := by
        rw [map_map, map_congr_left fun item hitem => ?_, map_const']
        rw [Function.comp_apply, hgroup item hitem, hequal]
      rw [hconst, sum_replicate_nat, Nat.mul_sub, Nat.mul_one, ← Nat.pow_succ']
    · refine congrArg List.sum (map_congr_left fun b hb => ?_)
      rw [(hcounts b hb).2]

/-- The loop over the tie groups counts, for each sample, those below it and those equal to it. -/
theorem rankLoop_eq (h : items.Pairwise fun a b => a.1 ≤ b.1) (start rankSumTwice tieTerm : Nat) :
    rankLoop items start rankSumTwice tieTerm =
      (rankSumTwice + rankTotal items start, tieTerm + tieTotal (items.map Prod.fst)) := by
  fun_induction rankLoop items start rankSumTwice tieTerm with
  | case1 => rfl
  | case2 start rankSumTwice tieTerm item rest group stop ih =>
    obtain ⟨hgroup, habove⟩ := group_split h
    obtain ⟨hrank, htie⟩ := @group_totals _ _ group _ item.1 start (forall_mem_cons.mpr ⟨rfl, hgroup⟩) habove
    have hitems : item :: rest = group ++ rest.dropWhile fun other => other.1 = item.1 := by
      rw [cons_append, takeWhile_append_dropWhile]
    rw [ih ((pairwise_cons.mp h).2.sublist (dropWhile_sublist _)), hitems, hrank, htie]
    exact Prod.ext (Nat.add_assoc ..) (Nat.add_assoc ..)

end

section

variable {α β : Type} [LinearOrder α] [LinearOrder β] {first second : List α}

/-- A sample against another: two for a win, one for a tie. -/
def win (a b : α) : Nat := if b < a then 2 else if b = a then 1 else 0

def pairSum (first second : List α) : Nat := (first.map fun a => (second.map (win a)).sum).sum

theorem row_eq (a : α) (items : List α) : (items.map (win a)).sum = 2 * below items a + equal items a := by
  induction items with
  | nil => rfl
  | cons b items ih =>
    unfold below equal win at *
    rw [map_cons, sum_cons, ih, countP_cons, countP_cons]
    rcases lt_trichotomy b a with h | h | h
    · simp [h, h.ne, Nat.mul_add]
      omega
    · simp [h]
      omega
    · simp [h.ne', h.not_gt]

theorem win_add_win (a b : α) : win a b + win b a = 2 := by
  unfold win
  rcases lt_trichotomy a b with h | h | h
  · simp [h, h.not_gt, h.ne']
  · simp [h]
  · simp [h, h.not_gt, h.ne']

theorem pairSum_cons_right (first : List α) (b : α) (second : List α) :
    pairSum first (b :: second) = (first.map fun a => win a b).sum + pairSum first second := by
  unfold pairSum
  rw [← sum_map_add]
  simp only [map_cons, sum_cons]

theorem pairSum_add_pairSum (first second : List α) :
    pairSum first second + pairSum second first = 2 * first.length * second.length := by
  induction first with
  | nil => simp [pairSum]
  | cons a first ih =>
    have hrow : (second.map (win a)).sum + (second.map fun b => win b a).sum = 2 * second.length := by
      rw [← sum_map_add]
      simp only [win_add_win, map_const', sum_replicate_nat, Nat.mul_comm]
    have hcons : pairSum (a :: first) second = (second.map (win a)).sum + pairSum first second := by simp [pairSum]
    rw [hcons, pairSum_cons_right, length_cons]
    calc _ = ((second.map (win a)).sum + (second.map fun b => win b a).sum) + (pairSum first second + pairSum second first) := by
          omega
      _ = 2 * (first.length + 1) * second.length := by
          rw [hrow, ih]
          ring

theorem tagged_perm (first second : List α) : (tagged first second).Perm (first.map (·, 0) ++ second.map (·, 1)) :=
  perm_insertionSort _ _

theorem values_tagged (first second : List α) : ((tagged first second).map Prod.fst).Perm (first ++ second) := by
  have h := (tagged_perm first second).map Prod.fst
  rwa [map_append, map_map, map_map, show (Prod.fst ∘ fun a : α => (a, 0)) = id from rfl,
    show (Prod.fst ∘ fun a : α => (a, 1)) = id from rfl, map_id, map_id] at h

theorem tagged_sorted (first second : List α) : (tagged first second).Pairwise fun a b => a.1 ≤ b.1 := by
  have : Std.Total fun a b : α × Nat => a.1 ≤ b.1 := ⟨fun a b => le_total a.1 b.1⟩
  have : IsTrans (α × Nat) fun a b => a.1 ≤ b.1 := ⟨fun _ _ _ h h' => le_trans h h'⟩
  exact pairwise_insertionSort _ _

/-- Twice the ranks of the first samples are their pairs against the second ones, and what ranks have in any case. -/
theorem rankTotal_tagged (first second : List α) :
    rankTotal (tagged first second) 0 = pairSum first second + first.length * (first.length + 1) := by
  have hperm := tagged_perm first second
  have hcount : ∀ a, 2 * below ((tagged first second).map Prod.fst) a + equal ((tagged first second).map Prod.fst) a =
      (first.map (win a)).sum + (second.map (win a)).sum := by
    intro a
    rw [← row_eq, ← sum_append, ← map_append]
    exact ((values_tagged first second).map _).sum_eq
  have hself := pairSum_add_pairSum first first
  unfold rankTotal
  rw [(hperm.map _).sum_eq, map_append, sum_append, map_map, map_map]
  have hsecond : (second.map ((fun item : α × Nat => if item.2 = 0 then 2 * (0 + below ((tagged first second).map Prod.fst) item.1) +
      equal ((tagged first second).map Prod.fst) item.1 + 1 else 0) ∘ (·, 1))).sum = 0 := by simp [Function.comp_def]
  have hfirst : (first.map ((fun item : α × Nat => if item.2 = 0 then 2 * (0 + below ((tagged first second).map Prod.fst) item.1) +
      equal ((tagged first second).map Prod.fst) item.1 + 1 else 0) ∘ (·, 0))).sum =
      pairSum first first + pairSum first second + first.length := by
    simp only [Function.comp_def, if_true, Nat.zero_add, hcount, sum_map_add, pairSum, map_const', sum_replicate_nat,
      Nat.mul_one]
  rw [hfirst, hsecond, Nat.mul_add, Nat.mul_one, Nat.add_zero]
  have hsquare : pairSum first first = first.length * first.length := by
    rw [Nat.mul_assoc] at hself
    omega
  omega

variable {xs ys : List α}

theorem tieTotal_perm (h : xs.Perm ys) : tieTotal xs = tieTotal ys := by
  unfold tieTotal
  rw [(h.map _).sum_eq]
  simp only [equal, h.countP_eq]

def varianceOf (n m tie : Nat) : ℚ := (n * m : Nat) / 12 * ((n + m + 1 : Nat) - tie / ((n + m) * (n + m - 1) : Nat))

/-- The result is made of the pairs and the ties alone. -/
theorem mannWhitney_eq (hfirst : first ≠ []) (hsecond : second ≠ []) : mannWhitneyUTwoSided first second =
    .ok ⟨divide 28 (min (pairSum first second) (pairSum second first)) 2,
      varianceOf first.length second.length (tieTotal (first ++ second))⟩ := by
  have hpairs := pairSum_add_pairSum first second
  have hu : (((pairSum first second + first.length * (first.length + 1) : Nat) : Int) - first.length * (first.length + 1)) =
      pairSum first second := by
    push_cast
    ring
  have hother : 2 * (first.length : Int) * second.length - pairSum first second = pairSum second first := by
    have hcast : ((pairSum first second + pairSum second first : Nat) : Int) = (2 * first.length * second.length : Nat) :=
      congrArg Nat.cast hpairs
    push_cast at hcast
    linarith
  unfold mannWhitneyUTwoSided
  rw [if_neg hfirst, if_neg hsecond, rankLoop_eq (tagged_sorted first second), rankTotal_tagged,
    tieTotal_perm (values_tagged first second)]
  dsimp only
  rw [Nat.zero_add, Nat.zero_add, hu, hother, ← Nat.cast_min, Int.toNat_natCast]
  rfl

theorem half_exact {n : Nat} (h : n < 10 ^ 27) : 2 * divide 28 n 2 = n := by
  unfold divide
  split
  next hzero => simp [hzero]
  next hne =>
    have hpos : (0 : ℚ) < (n : ℚ) / (2 : Nat) := by
      have : (0 : ℚ) < n := by exact_mod_cast Nat.pos_of_ne_zero hne
      positivity
    have hlog : Int.log 10 ((n : ℚ) / (2 : Nat)) < 27 := by
      refine (Int.lt_zpow_iff_log_lt (by norm_num) hpos).mp ?_
      have hcast : (n : ℚ) < 10 ^ 27 := by exact_mod_cast h
      have : (n : ℚ) / (2 : Nat) ≤ n := by
        have : (0 : ℚ) ≤ n := Nat.cast_nonneg n
        push_cast
        linarith
      exact_mod_cast this.trans_lt hcast
    obtain ⟨k, hk⟩ : ∃ k : Nat, exponent 28 ((n : ℚ) / (2 : Nat)) = -1 - k := by
      refine ⟨(-1 - exponent 28 ((n : ℚ) / (2 : Nat))).toNat, ?_⟩
      unfold exponent
      push_cast at hlog ⊢
      omega
    rw [@rounded_exact 28 _ (n * 5 * 10 ^ k)]
    · push_cast
      ring
    · rw [hk, zpow_sub₀ (by norm_num), zpow_natCast]
      push_cast
      field_simp
      ring

theorem equal_le (items : List α) (a : α) : equal items a ≤ items.length := countP_le_length

/-- The tie term falls short of its largest value by what every tie group misses. -/
theorem tieTotal_add (items : List α) : tieTotal items + (items.map fun a => items.length ^ 2 - equal items a ^ 2).sum =
    items.length * (items.length ^ 2 - 1) := by
  unfold tieTotal
  rw [← sum_map_add, ← sum_replicate_nat, ← map_const']
  refine congrArg List.sum (map_congr_left fun a ha => ?_)
  have hpos : 0 < equal items a := countP_pos_iff.mpr ⟨a, ha, by simp⟩
  have hle := Nat.pow_le_pow_left (equal_le items a) 2
  have hone : 1 ≤ equal items a ^ 2 := Nat.one_le_pow _ _ hpos
  omega

theorem equal_full {items : List α} {a : α} : items.length ^ 2 - equal items a ^ 2 = 0 ↔ ∀ b ∈ items, b = a := by
  have hle := equal_le items a
  rw [Nat.sub_eq_zero_iff_le, Nat.pow_le_pow_iff_left (by norm_num)]
  refine ⟨fun h => ?_, fun h => ?_⟩
  · have hfull : items.countP (fun b => decide (b = a)) = items.length := le_antisymm hle h
    simpa using countP_eq_length.mp hfull
  · exact (countP_eq_length.mpr (by simpa using h)).ge

theorem varianceOf_eq {n m tie missing : Nat} (hn : 0 < n) (hm : 0 < m) (h : tie + missing = (n + m) * ((n + m) ^ 2 - 1)) :
    varianceOf n m tie = (n * m : Nat) / 12 * (missing / ((n + m) * (n + m - 1) : Nat)) := by
  obtain ⟨k, hk⟩ : ∃ k, n + m = k + 2 := ⟨n + m - 2, by omega⟩
  unfold varianceOf
  rw [hk] at h ⊢
  have hsub : (k + 2) * ((k + 2) ^ 2 - 1) = (k + 2 + 1) * ((k + 2) * (k + 2 - 1)) := by
    rw [show (k + 2) ^ 2 - 1 = (k + 3) * (k + 1) by ring_nf; omega, show k + 2 - 1 = k + 1 by omega]
    ring
  have hpos : (0 : ℚ) < ((k + 2) * (k + 2 - 1) : Nat) := by exact_mod_cast Nat.mul_pos (by omega) (by omega)
  have hcast : (tie : ℚ) + missing = (k + 2 + 1 : Nat) * ((k + 2) * (k + 2 - 1) : Nat) := by exact_mod_cast h.trans hsub
  congr 1
  rw [eq_div_iff hpos.ne', sub_mul, div_mul_cancel₀ _ hpos.ne']
  linarith

theorem variance_facts (hfirst : first ≠ []) (hsecond : second ≠ []) :
    0 ≤ varianceOf first.length second.length (tieTotal (first ++ second)) ∧
    (varianceOf first.length second.length (tieTotal (first ++ second)) = 0 ↔
      ∀ a ∈ first ++ second, ∀ b ∈ first ++ second, b = a) := by
  have hn := length_pos_iff.mpr hfirst
  have hm := length_pos_iff.mpr hsecond
  have htie := tieTotal_add (first ++ second)
  rw [varianceOf_eq hn hm (by rwa [length_append] at htie)]
  refine ⟨by positivity, ?_⟩
  have hne : ((first.length * second.length : Nat) : ℚ) / 12 ≠ 0 :=
    div_ne_zero (by exact_mod_cast (Nat.mul_pos hn hm).ne') (by norm_num)
  have hden : (((first.length + second.length) * (first.length + second.length - 1) : Nat) : ℚ) ≠ 0 := by
    exact_mod_cast (Nat.mul_pos (by omega) (by omega)).ne'
  rw [mul_eq_zero, or_iff_right hne, div_eq_zero_iff, or_iff_left hden, Nat.cast_eq_zero,
    List.sum_eq_zero_iff_forall_eq_nat, forall_mem_map]
  refine forall₂_congr fun a _ => ?_
  rw [← length_append, equal_full]

theorem win_map {f : α → β} (h : StrictMonoOn f {x | x ∈ first ++ second}) {a b : α} (ha : a ∈ first ++ second)
    (hb : b ∈ first ++ second) : win (f a) (f b) = win a b := by
  unfold win
  simp only [h.lt_iff_lt hb ha, h.injOn.eq_iff hb ha]

theorem pairSum_map {f : α → β} (h : StrictMonoOn f {x | x ∈ first ++ second}) (hxs : ∀ x ∈ xs, x ∈ first ++ second)
    (hys : ∀ y ∈ ys, y ∈ first ++ second) : pairSum (xs.map f) (ys.map f) = pairSum xs ys := by
  unfold pairSum
  rw [map_map]
  refine congrArg List.sum (map_congr_left fun a ha => ?_)
  rw [Function.comp_apply, map_map]
  exact congrArg List.sum (map_congr_left fun b hb => win_map h (hxs a ha) (hys b hb))

theorem tieTotal_map {f : α → β} {items : List α} (h : StrictMonoOn f {x | x ∈ items}) : tieTotal (items.map f) = tieTotal items := by
  unfold tieTotal
  rw [map_map]
  refine congrArg List.sum (map_congr_left fun a ha => ?_)
  have hequal : equal (items.map f) (f a) = equal items a := by
    unfold equal
    rw [countP_map]
    exact countP_congr fun b hb => by simp [h.injOn.eq_iff hb ha]
  rw [Function.comp_apply, hequal]

theorem pairSum_perm {xs' ys' : List α} (hx : xs'.Perm xs) (hy : ys'.Perm ys) : pairSum xs' ys' = pairSum xs ys := by
  unfold pairSum
  rw [(hx.map _).sum_eq]
  exact congrArg List.sum (map_congr_left fun a _ => (hy.map _).sum_eq)

/-- The statistic is half of the smaller sum over pairs, its variance is zero for equal samples alone, and neither depends on
the order of the samples, on which sequence comes first, or on more than how the samples compare. -/
theorem mannWhitney_pairs (hfirst : first ≠ []) (hsecond : second ≠ []) (hfew : first.length * second.length < 10 ^ 27) :
    ∃ result, mannWhitneyUTwoSided first second = .ok result ∧
      2 * result.u = (min (pairSum first second) (pairSum second first) : Nat) ∧
      0 ≤ result.variance ∧ (result.variance = 0 ↔ ∀ a ∈ first ++ second, ∀ b ∈ first ++ second, b = a) ∧
      (∀ first' second', first'.Perm first → second'.Perm second → mannWhitneyUTwoSided first' second' = .ok result) ∧
      mannWhitneyUTwoSided second first = .ok result ∧
      ∀ (γ : Type) [LinearOrder γ] (f : α → γ), StrictMonoOn f {x | x ∈ first ++ second} →
        mannWhitneyUTwoSided (first.map f) (second.map f) = .ok result := by
  obtain ⟨hnonneg, hzero⟩ := variance_facts hfirst hsecond
  have hpairs := pairSum_add_pairSum first second
  refine ⟨_, mannWhitney_eq hfirst hsecond, half_exact ?_, hnonneg, hzero, fun first' second' hperm hperm' => ?_, ?_,
    fun γ _ f hf => ?_⟩
  · rw [Nat.mul_assoc] at hpairs
    omega
  · rw [mannWhitney_eq (fun hnil => hfirst (hperm.symm.trans (hnil ▸ .refl _)).eq_nil)
      (fun hnil => hsecond (hperm'.symm.trans (hnil ▸ .refl _)).eq_nil), pairSum_perm hperm hperm', pairSum_perm hperm' hperm,
      hperm.length_eq, hperm'.length_eq, tieTotal_perm (hperm.append hperm')]
  · rw [mannWhitney_eq hsecond hfirst, min_comm, tieTotal_perm perm_append_comm]
    unfold varianceOf
    rw [Nat.mul_comm second.length, Nat.add_comm second.length]
  · have hleft : ∀ x ∈ first, x ∈ first ++ second := fun x hx => mem_append_left _ hx
    have hright : ∀ x ∈ second, x ∈ first ++ second := fun x hx => mem_append_right _ hx
    rw [mannWhitney_eq (mt map_eq_nil_iff.mp hfirst) (mt map_eq_nil_iff.mp hsecond), pairSum_map hf hleft hright,
      pairSum_map hf hright hleft, length_map, length_map, ← map_append, tieTotal_map hf]

theorem mannWhitney_pairs_sample : ∃ result, mannWhitneyUTwoSided [(3 : ℚ), 1] [1, 2] = .ok result ∧ 2 * result.u = (3 : Nat) := by
  obtain ⟨result, hresult, hu, -⟩ := @mannWhitney_pairs ℚ _ [3, 1] [1, 2] (by simp) (by simp) (by norm_num)
  refine ⟨result, hresult, hu.trans ?_⟩
  rw [show min (pairSum [(3 : ℚ), 1] [1, 2]) (pairSum [1, 2] [(3 : ℚ), 1]) = 3 by decide]

end

end Leitir.Score
