import Mathlib.Data.Nat.Log
import Mathlib.Data.List.Basic
import Mathlib.Tactic.Ring
import Leitir.LawfulLists

namespace Merkle

open List

def split (n : Nat) : Nat := 2 ^ Nat.log2 (n - 1)

theorem split_eq_of_bounds {n k : Nat} (low : 2 ^ k < n) (high : n ≤ 2 ^ (k + 1)) :
    split n = 2 ^ k := by
  have hpos := Nat.two_pow_pos k
  have hlog : Nat.log2 (n - 1) = k :=
    (Nat.log2_eq_iff (by omega)).mpr ⟨by omega, by omega⟩
  rw [split, hlog]

theorem split_bounds {n : Nat} (hn : 2 ≤ n) :
    ∃ k, split n = 2 ^ k ∧ 2 ^ k < n ∧ n ≤ 2 ^ (k + 1) := by
  have hne : n - 1 ≠ 0 := by omega
  have low := Nat.log2_self_le hne
  have high := Nat.lt_log2_self (n := n - 1)
  exact ⟨Nat.log2 (n - 1), rfl, by omega, by omega⟩

theorem split_lt {n : Nat} (hn : 2 ≤ n) : split n < n := by
  obtain ⟨k, hk, low, _⟩ := split_bounds hn
  omega

theorem split_pos (n : Nat) : 0 < split n := Nat.two_pow_pos _

theorem split_stable {m n : Nat} (low : split n < m) (high : m ≤ n) : split m = split n := by
  have hpos := split_pos n
  obtain ⟨k, hk, _, hn⟩ := split_bounds (show 2 ≤ n by omega)
  rw [hk] at low ⊢
  exact split_eq_of_bounds low (by omega)

theorem split_two_pow (k : Nat) : split (2 ^ (k + 1)) = 2 ^ k :=
  split_eq_of_bounds (by rw [pow_succ]; have := Nat.two_pow_pos k; omega) le_rfl

section

variable {H : Type} (node : H → H → H) (empty : H)

/-- The tree hash of RFC 6962 over a list of leaf hashes. -/
def root : List H → H
  | [] => empty
  | [x] => x
  | x :: y :: rest =>
    node (root ((x :: y :: rest).take (split (rest.length + 2))))
      (root ((x :: y :: rest).drop (split (rest.length + 2))))
termination_by xs => xs.length
decreasing_by
  · have := split_lt (show 2 ≤ rest.length + 2 by omega)
    simp only [List.length_take, List.length_cons]
    omega
  · have := split_pos (rest.length + 2)
    simp only [List.length_drop, List.length_cons]
    omega

@[simp]
theorem root_nil : root node empty [] = empty := by rw [root]

@[simp]
theorem root_singleton (x : H) : root node empty [x] = x := by rw [root]

theorem root_split {xs : List H} (h : 2 ≤ xs.length) :
    root node empty xs = node (root node empty (xs.take (split xs.length)))
      (root node empty (xs.drop (split xs.length))) := by
  match xs, h with
  | x :: y :: rest, _ =>
    rw [root]
    simp only [length_cons]

theorem root_append {xs ys : List H} (hx : split (xs.length + ys.length) = xs.length)
    (hy : ys ≠ []) : root node empty (xs ++ ys) =
      node (root node empty xs) (root node empty ys) := by
  have hpos := split_pos (xs.length + ys.length)
  have hypos := length_pos_iff.mpr hy
  have hlen : (xs ++ ys).length = xs.length + ys.length := length_append
  rw [root_split node empty (by omega), hlen, hx, take_left, drop_left]

theorem root_pair (x y : H) : root node empty [x, y] = node x y := by
  have h := root_append node empty (show split ([x].length + [y].length) = [x].length from split_two_pow 0) (by simp)
  simpa using h

variable {node empty} {P : H → Prop}

theorem root_closed (closed : ∀ a b, P a → P b → P (node a b)) {xs : List H}
    (hne : xs ≠ []) (hx : ∀ x ∈ xs, P x) : P (root node empty xs) := by
  generalize hn : xs.length = n
  induction n using Nat.strongRecOn generalizing xs with
  | _ n ih =>
    match xs, hne with
    | [x], _ => simpa using hx x (by simp)
    | x :: y :: rest, _ =>
      simp only [length_cons] at hn
      have hlt := split_lt (show 2 ≤ n by omega)
      have hpos := split_pos n
      have hlen : (x :: y :: rest).length = n := by simp only [length_cons]; omega
      rw [root_split node empty (by omega), hlen]
      apply closed
      · apply ih _ _ _ (fun z hz => hx z (mem_of_mem_take hz)) rfl
        · simp only [length_take]; omega
        · rw [← length_pos_iff, length_take]; omega
      · apply ih _ _ _ (fun z hz => hx z (mem_of_mem_drop hz)) rfl
        · simp only [length_drop]; omega
        · rw [← length_pos_iff, length_drop]; omega

/-- With an injective node hash the root determines the leaves of a tree of
known size. -/
theorem root_injective (closed : ∀ a b, P a → P b → P (node a b))
    (injective : ∀ a b c d, P a → P b → P c → P d → node a b = node c d → a = c ∧ b = d)
    {xs ys : List H} (hx : ∀ x ∈ xs, P x) (hy : ∀ y ∈ ys, P y)
    (hlen : xs.length = ys.length) (h : root node empty xs = root node empty ys) : xs = ys := by
  generalize hn : xs.length = n
  induction n using Nat.strongRecOn generalizing xs ys with
  | _ n ih =>
    by_cases h2 : 2 ≤ n
    · have hlt := split_lt h2
      have hpos := split_pos n
      have hxt : xs.take (split n) ≠ [] := by rw [← length_pos_iff, length_take]; omega
      have hyt : ys.take (split n) ≠ [] := by rw [← length_pos_iff, length_take]; omega
      have hxd : xs.drop (split n) ≠ [] := by rw [← length_pos_iff, length_drop]; omega
      have hyd : ys.drop (split n) ≠ [] := by rw [← length_pos_iff, length_drop]; omega
      have pxt : ∀ x ∈ xs.take (split n), P x := fun x m => hx x (mem_of_mem_take m)
      have pyt : ∀ y ∈ ys.take (split n), P y := fun y m => hy y (mem_of_mem_take m)
      have pxd : ∀ x ∈ xs.drop (split n), P x := fun x m => hx x (mem_of_mem_drop m)
      have pyd : ∀ y ∈ ys.drop (split n), P y := fun y m => hy y (mem_of_mem_drop m)
      rw [root_split node empty (by omega), root_split node empty (by omega : 2 ≤ ys.length),
        ← hlen, hn] at h
      obtain ⟨hl, hr⟩ := injective _ _ _ _ (root_closed closed hxt pxt) (root_closed closed hxd pxd)
        (root_closed closed hyt pyt) (root_closed closed hyd pyd) h
      have el : xs.take (split n) = ys.take (split n) :=
        ih (split n) hlt pxt pyt (by simp [length_take, hlen]) hl
          (by rw [length_take]; omega)
      have er : xs.drop (split n) = ys.drop (split n) :=
        ih (n - split n) (by omega) pxd pyd (by simp [length_drop, hlen]) hr
          (by rw [length_drop]; omega)
      rw [← take_append_drop (split n) xs, el, er, take_append_drop]
    · match xs, ys, hlen with
      | [], [], _ => rfl
      | [x], [y], _ => simpa using h
      | _ :: _ :: _, _, _ => simp only [length_cons] at hn; omega

end

variable {H : Type} (node : H → H → H) (empty : H)

def subtree (leaves : List H) (level number : Nat) : H :=
  root node empty ((leaves.drop (number * 2 ^ level)).take (2 ^ level))

theorem subtree_zero {leaves : List H} {number : Nat} {x : H} (h : leaves[number]? = some x) :
    subtree node empty leaves 0 number = x := by
  obtain ⟨hlt, rfl⟩ := List.getElem?_eq_some_iff.mp h
  have hone : (leaves.drop number).take 1 = [leaves[number]] := by
    rw [drop_eq_getElem_cons hlt, take_succ_cons, take_zero]
  rw [subtree, pow_zero, mul_one, hone, root_singleton]

theorem root_halves {xs : List H} {k : Nat} (h : xs.length = 2 ^ (k + 1)) :
    root node empty xs = node (root node empty (xs.take (2 ^ k))) (root node empty (xs.drop (2 ^ k))) := by
  have hpos := Nat.two_pow_pos k
  have h2 : 2 ≤ xs.length := by rw [h, pow_succ]; omega
  rw [root_split node empty h2, h, split_two_pow]

theorem root_replicate (x : H) (k : Nat) :
    root node empty (List.replicate (2 ^ k) x) = (fun h => node h h)^[k] x := by
  induction k with
  | zero => simp
  | succ k ih =>
    have hpow : 2 ^ (k + 1) - 2 ^ k = 2 ^ k := by rw [pow_succ]; omega
    have hmin : min (2 ^ k) (2 ^ (k + 1)) = 2 ^ k := by rw [pow_succ]; omega
    rw [root_halves node empty length_replicate, take_replicate, drop_replicate, hpow, hmin, ih,
      Function.iterate_succ_apply']

theorem subtree_succ {leaves : List H} {level number : Nat}
    (h : (number + 1) * 2 ^ (level + 1) ≤ leaves.length) :
    subtree node empty leaves (level + 1) number =
      node (subtree node empty leaves level (2 * number))
        (subtree node empty leaves level (2 * number + 1)) := by
  have hpow : 2 ^ (level + 1) = 2 * 2 ^ level := pow_succ' 2 level
  have hstart : number * 2 ^ (level + 1) = 2 * number * 2 ^ level := by rw [hpow]; ring
  have hnext : (2 * number + 1) * 2 ^ level = 2 * number * 2 ^ level + 2 ^ level := by ring
  have hend : (number + 1) * 2 ^ (level + 1) = 2 * number * 2 ^ level + 2 * 2 ^ level := by rw [hpow]; ring
  have hlen : ((leaves.drop (number * 2 ^ (level + 1))).take (2 ^ (level + 1))).length = 2 ^ (level + 1) := by
    rw [length_take, length_drop]
    omega
  have htake : min (2 ^ level) (2 ^ (level + 1)) = 2 ^ level := by omega
  have hdrop : 2 ^ (level + 1) - 2 ^ level = 2 ^ level := by omega
  rw [subtree, root_halves node empty hlen, take_take, drop_take, drop_drop, htake, hdrop,
    hstart, ← hnext]
  rfl

/-- The root over `2 ^ k` consecutive subtrees of one level is a subtree `k`
levels higher. -/
theorem root_subtrees {leaves : List H} {level : Nat} (k : Nat) {number : Nat}
    (h : (number + 1) * 2 ^ (level + k) ≤ leaves.length) :
    root node empty ((List.range' (number * 2 ^ k) (2 ^ k)).map (subtree node empty leaves level)) =
      subtree node empty leaves (level + k) number := by
  induction k generalizing number with
  | zero => simp
  | succ k ih =>
    have hpow : 2 ^ (k + 1) = 2 ^ k + 2 ^ k := by rw [pow_succ]; omega
    have hlevel : 2 ^ (level + (k + 1)) = 2 * 2 ^ (level + k) := pow_succ' 2 (level + k)
    have hright : (2 * number + 1 + 1) * 2 ^ (level + k) ≤ leaves.length := by
      rw [hlevel] at h
      calc (2 * number + 1 + 1) * 2 ^ (level + k) = (number + 1) * (2 * 2 ^ (level + k)) := by ring
        _ ≤ leaves.length := h
    have hleft : (2 * number + 1) * 2 ^ (level + k) ≤ leaves.length :=
      (Nat.mul_le_mul_right _ (Nat.le_succ _)).trans hright
    have hrange : List.range' (number * 2 ^ (k + 1)) (2 ^ (k + 1)) =
        List.range' (2 * number * 2 ^ k) (2 ^ k) ++ List.range' ((2 * number + 1) * 2 ^ k) (2 ^ k) := by
      rw [show number * 2 ^ (k + 1) = 2 * number * 2 ^ k by rw [pow_succ]; ring, hpow,
        show (2 * number + 1) * 2 ^ k = 2 * number * 2 ^ k + 2 ^ k by ring]
      simp
    rw [hrange, map_append, root_append, ih hleft, ih hright]
    · exact (subtree_succ node empty h).symm
    · rw [length_map, length_map, length_range', length_range', ← hpow,
        split_two_pow]
    · have hpos := Nat.two_pow_pos k
      rw [← length_pos_iff, length_map, length_range']
      exact hpos

end Merkle
