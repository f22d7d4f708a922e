import Leitir.SumdbCache
import Leitir.SumdbPeaks

namespace Leitir.Sumdb

open Bits List Merkle

section

variable {α β : Type}

/-- From every client with the invariant the method returns a value with the
given property, and the client keeps the invariant. -/
def Returns (inv : Client → Prop) (method : Method α) (good : α → Prop) : Prop :=
  ∀ c, inv c → ∃ a d, method c = (.ok a, d) ∧ inv d ∧ good a

variable {inv : Client → Prop} {good : α → Prop}

theorem returns_pure {a : α} (h : good a) :
    Returns inv (pure a) good :=
  fun c hc => ⟨a, c, rfl, hc, h⟩

theorem Returns.bind {first : Method α} {next : α → Method β}
    {goal : β → Prop} (h : Returns inv first good) (hn : ∀ a, good a → Returns inv (next a) goal) :
    Returns inv (first >>= next) goal := by
  intro c hc
  obtain ⟨a, m, ha, hm, hgood⟩ := h c hc
  obtain ⟨b, d, hb, hd, hgoal⟩ := hn a hgood m hm
  exact ⟨b, d, bind_ok.mpr ⟨a, m, ha, hb⟩, hd, hgoal⟩

theorem Returns.guard {p : Prop} [Decidable p] {failure : Failure}
    {body : Method α} {goal : α → Prop} (hp : ¬ p) (h : Returns inv body goal) :
    Returns inv (if p then Method.fail failure else body) goal := by
  rw [if_neg hp]
  exact h

theorem Returns.imp {method : Method α} {goal : α → Prop}
    (h : Returns inv method good) (hg : ∀ a, good a → goal a) : Returns inv method goal := by
  intro c hc
  obtain ⟨a, d, ha, hd, hgood⟩ := h c hc
  exact ⟨a, d, ha, hd, hg a hgood⟩

end

theorem cell_flatten {xs : List Bytes} (hx : ∀ x ∈ xs, x.length = 32) {i : Nat} (hi : i < xs.length) :
    cell xs.flatten i = xs[i] := by
  induction xs generalizing i with
  | nil => simp at hi
  | cons x rest ih =>
    have hlen : x.length = 32 := hx x (by simp)
    cases i with
    | zero => simp [cell, ← hlen]
    | succ i =>
      have hrest := ih (fun y hy => hx y (mem_cons_of_mem x hy)) (by simpa using hi)
      rw [getElem_cons_succ, ← hrest, cell, cell, flatten_cons,
        show (i + 1) * 32 = x.length + i * 32 by omega, ← drop_drop, drop_left]

theorem cellRange_flatten {xs : List Bytes} (hx : ∀ x ∈ xs, x.length = 32) {start count : Nat}
    (h : start + count ≤ xs.length) : cellRange xs.flatten start count = (xs.drop start).take count := by
  apply ext_getElem
  · rw [cellRange_length, length_take, length_drop]
    omega
  · intro i hi hj
    rw [cellRange_length] at hi
    simp only [cellRange, getElem_map, getElem_range', one_mul, getElem_take,
      getElem_drop]
    exact cell_flatten hx (by omega)

/-- The tile asked for a subtree inside the tree covers that subtree and lies in
the tree itself. -/
theorem clampTile_fits {size level number : Nat} (h : (number + 1) * 2 ^ level ≤ size) :
    ∃ width, clampTile (some size) ⟨level / 8, number * 2 ^ (level % 8) / 256,
        number * 2 ^ (level % 8) % 256 + 2 ^ (level % 8)⟩ =
          .ok ⟨level / 8, number * 2 ^ (level % 8) / 256, width⟩ ∧
      number * 2 ^ (level % 8) % 256 + 2 ^ (level % 8) ≤ width ∧ width ≤ 256 ∧
      (number * 2 ^ (level % 8) / 256 * 256 + width) * 2 ^ (level / 8 * 8) ≤ size ∧
      (level % 8 + level / 8 * 8 = level) ∧
      width = min 256 (size / 2 ^ (level / 8 * 8) - number * 2 ^ (level % 8) / 256 * 256) := by
  have hlevel : level % 8 + level / 8 * 8 = level := by omega
  have hpos := Nat.two_pow_pos (level % 8)
  have hrows : (number + 1) * 2 ^ (level % 8) ≤ size / 2 ^ (level / 8 * 8) := by
    rw [Nat.le_div_iff_mul_le (Nat.two_pow_pos _), mul_assoc, ← pow_add, hlevel]
    exact h
  have hcell : number * 2 ^ (level % 8) % 256 + 2 ^ (level % 8) ≤ 256 := by
    have hdvd : 2 ^ (level % 8) ∣ 256 := Nat.pow_dvd_pow 2 (show level % 8 ≤ 8 by omega)
    obtain ⟨k, hk⟩ := hdvd
    have hlt : number % k < k := Nat.mod_lt _ (Nat.pos_of_ne_zero (by rintro rfl; omega))
    rw [hk, mul_comm number, Nat.mul_mod_mul_left, ← Nat.mul_succ]
    exact Nat.mul_le_mul_left _ hlt
  rw [add_mul, one_mul] at hrows
  have hsplit := Nat.div_add_mod' (number * 2 ^ (level % 8)) 256
  have hstart : ¬ number * 2 ^ (level % 8) / 256 * 256 ≥ size / 2 ^ (level / 8 * 8) := by omega
  refine ⟨min 256 (size / 2 ^ (level / 8 * 8) - number * 2 ^ (level % 8) / 256 * 256), ?_, by omega,
    by omega, ?_, hlevel, rfl⟩
  · simp only [clampTile, tileHeight, Nat.shiftLeft_eq, Nat.shiftRight_eq_div_pow,
      show (2 : Nat) ^ 8 = 256 from rfl, one_mul, if_neg hstart]
  · rw [← Nat.le_div_iff_mul_le (Nat.two_pow_pos _)]
    omega

section

variable (answer : Tile → Bytes) (selected : Tile → Prop)

def Serves (server : Server) : Prop :=
  ∀ t, selected t → ∀ history, server (t.path :: history) = .body (answer t)

def Holds (c : Client) : Prop := ∀ t, selected t → ∀ data, c.tiles.lookup t = some data → data = answer t

def HoldsAt (size : Nat) (c : Client) : Prop := c.treeSize = some size ∧ Holds answer selected c

def Fits : Prop := ∀ t, selected t → (answer t).length = t.width * 32 ∧ t.width ≤ 256

variable {answer selected} {server : Server} {size : Nat} (hs : Serves answer selected server)
  (hfits : Fits answer selected)

include hs hfits

theorem fetch_serves {t : Tile} (ht : selected t) (c : Client) :
    fetch server t.path c = (.ok (answer t), { c with requests := t.path :: c.requests }) := by
  have hbody := hs t ht c.requests
  obtain ⟨hlen, hwidth⟩ := hfits t ht
  have hmax : ¬ (answer t).length > maxResponseBytes := by
    unfold maxResponseBytes
    omega
  simp only [fetch, hbody, if_neg hmax]

theorem tile_serves {t : Tile} (ht : selected t) :
    Returns (HoldsAt answer selected size) (tile server t) (· = answer t) := by
  intro c hc
  cases fresh : c.tiles.lookup t with
  | some data =>
    refine ⟨data, c, ?_, hc, hc.2 t ht data fresh⟩
    refine bind_ok.mpr ⟨c, c, rfl, ?_⟩
    simp only [fresh]
    rfl
  | none =>
    have hfetch : fetchTile server t c = (.ok (answer t), { c with requests := t.path :: c.requests }) := by
      unfold fetchTile Method.orElse
      rw [fetch_serves hs hfits ht]
    refine ⟨_, { c with tiles := (t, answer t) :: c.tiles, requests := t.path :: c.requests }, ?_,
      ⟨hc.1, ?_⟩, rfl⟩
    · refine bind_ok.mpr ⟨c, c, rfl, ?_⟩
      simp only [fresh]
      refine bind_ok.mpr ⟨_, _, hfetch, ?_⟩
      exact guard_ok.mpr ⟨not_not.mpr (hfits t ht).1, rfl⟩
    · intro s hsel data hl
      by_cases heq : s = t
      · subst heq
        simpa using hl.symm
      · rw [lookup_cons_ne heq] at hl
        exact hc.2 s hsel data hl

theorem hash_serves (sha256 : Bytes → Bytes) {level number width : Nat}
    (hclamp : clampTile (some size) ⟨level / 8, number * 2 ^ (level % 8) / 256,
      number * 2 ^ (level % 8) % 256 + 2 ^ (level % 8)⟩ =
        .ok ⟨level / 8, number * 2 ^ (level % 8) / 256, width⟩)
    (hcells : number * 2 ^ (level % 8) % 256 + 2 ^ (level % 8) ≤ width)
    (hsel : selected ⟨level / 8, number * 2 ^ (level % 8) / 256, width⟩) :
    Returns (HoldsAt answer selected size) (hash sha256 server (storedHashIndex level number))
      (· = root (nodeHash sha256) (sha256 [])
        (cellRange (answer ⟨level / 8, number * 2 ^ (level % 8) / 256, width⟩)
          (number * 2 ^ (level % 8) % 256) (2 ^ (level % 8)))) := by
  intro c hc
  obtain ⟨data, d, ht, hd, rfl⟩ := tile_serves hs hfits hsel c hc
  refine ⟨_, d, hash_ok_iff.mpr ⟨_, _, ?_, ht, ?_⟩, hd, rfl⟩
  · rw [hc.1, tileForIndex_storedHashIndex, hclamp]
  · exact hashFromTile_fits rfl rfl hcells (hfits _ hsel).1

end

section

variable (sha256 : Bytes → Bytes) (leaves : List Bytes)

/-- The stored hashes of a tile, for the tree over the given leaf hashes. -/
def tileData (t : Tile) : Bytes :=
  ((List.range' (t.number * 256) t.width).map
    (subtree (nodeHash sha256) (sha256 []) leaves (t.level * 8))).flatten

def InTree (t : Tile) : Prop :=
  0 < t.width ∧ t.width ≤ 256 ∧ (t.number * 256 + t.width) * 2 ^ (t.level * 8) ≤ leaves.length

variable {sha256 leaves} (hsha : ∀ data, (sha256 data).length = 32) (hleaves : ∀ x ∈ leaves, x.length = 32)

include hsha hleaves

theorem subtree_length (level number : Nat) :
    (subtree (nodeHash sha256) (sha256 []) leaves level number).length = 32 := by
  apply root_length hsha
  intro x hx
  exact hleaves x (mem_of_mem_drop (mem_of_mem_take hx))

theorem mem_tileData_length (t : Tile) : ∀ x ∈ (List.range' (t.number * 256) t.width).map
    (subtree (nodeHash sha256) (sha256 []) leaves (t.level * 8)), x.length = 32 := by
  intro x hx
  obtain ⟨number, _, rfl⟩ := mem_map.mp hx
  exact subtree_length hsha hleaves _ _

theorem tileData_length (t : Tile) : (tileData sha256 leaves t).length = t.width * 32 := by
  rw [tileData, length_flatten, map_map]
  have hconst : (List.length ∘ subtree (nodeHash sha256) (sha256 []) leaves (t.level * 8)) =
      fun _ => 32 := by
    funext number
    exact subtree_length hsha hleaves _ _
  rw [hconst]
  simp

/-- The cells of a true tile give the hash of the subtree over them. -/
theorem root_tileData {level number width : Nat} (hfit : (number + 1) * 2 ^ level ≤ leaves.length)
    (hcells : number * 2 ^ (level % 8) % 256 + 2 ^ (level % 8) ≤ width) :
    root (nodeHash sha256) (sha256 [])
        (cellRange (tileData sha256 leaves ⟨level / 8, number * 2 ^ (level % 8) / 256, width⟩)
          (number * 2 ^ (level % 8) % 256) (2 ^ (level % 8))) =
      subtree (nodeHash sha256) (sha256 []) leaves level number := by
  have hfirst := Nat.div_add_mod' (number * 2 ^ (level % 8)) 256
  have hcut : ((List.range' (number * 2 ^ (level % 8) / 256 * 256) width).drop
      (number * 2 ^ (level % 8) % 256)).take (2 ^ (level % 8)) =
        List.range' (number * 2 ^ (level % 8)) (2 ^ (level % 8)) := by
    apply ext_getElem
    · rw [length_take, length_drop, length_range', length_range']
      omega
    · intro i _ _
      simp only [getElem_take, getElem_drop, getElem_range', one_mul]
      omega
  have hup : level / 8 * 8 + level % 8 = level := by omega
  rw [tileData, cellRange_flatten (mem_tileData_length hsha hleaves _) (by simpa using hcells),
    ← map_drop, ← map_take, hcut, root_subtrees, hup]
  rw [hup]
  exact hfit

variable {answer : Tile → Bytes} {selected : Tile → Prop} {server : Server} {size : Nat}

theorem hash_honest (hs : Serves answer selected server) (hfits : Fits answer selected) {level number : Nat}
    (hsize : size ≤ leaves.length) (hfit : (number + 1) * 2 ^ level ≤ size)
    (hsel : ∀ t, InTree leaves t → clampTile (some size) ⟨level / 8, number * 2 ^ (level % 8) / 256,
      number * 2 ^ (level % 8) % 256 + 2 ^ (level % 8)⟩ = .ok t →
        selected t ∧ answer t = tileData sha256 leaves t) :
    Returns (HoldsAt answer selected size) (hash sha256 server (storedHashIndex level number))
      (· = subtree (nodeHash sha256) (sha256 []) leaves level number) := by
  obtain ⟨width, hclamp, hcells, hfull, hinside, hlevel, _⟩ := clampTile_fits hfit
  have hin : InTree leaves ⟨level / 8, number * 2 ^ (level % 8) / 256, width⟩ := by
    have hpos := Nat.two_pow_pos (level % 8)
    exact ⟨by dsimp only; omega, hfull, hinside.trans hsize⟩
  obtain ⟨htile, htrue⟩ := hsel _ hin hclamp
  have hread := hash_serves hs hfits sha256 hclamp hcells htile
  rw [htrue, root_tileData hsha hleaves (hfit.trans hsize) hcells] at hread
  exact hread

theorem fits_inTree : Fits (tileData sha256 leaves) (InTree leaves) := by
  intro t ht
  exact ⟨tileData_length hsha hleaves t, ht.2.1⟩

end

section

variable {sha256 : Bytes → Bytes} {leaves : List Bytes} {server : Server} {answer : Tile → Bytes}
  {selected : Tile → Prop} {size : Nat}

theorem hashes_returns {inv : Client → Prop} {good : Nat → Bytes → Prop} {indexes : List Nat}
    (h : ∀ index ∈ indexes, Returns inv (hash sha256 server index) (good index)) :
    Returns inv (hashes sha256 server indexes) (List.Forall₂ good indexes) := by
  induction indexes with
  | nil => exact returns_pure List.Forall₂.nil
  | cons index rest ih =>
    apply Returns.bind (h index (by simp))
    intro first hfirst
    apply Returns.bind (ih fun other ho => h other (mem_cons_of_mem index ho))
    intro others hothers
    exact returns_pure (List.Forall₂.cons hfirst hothers)

theorem withTreeSize_returns {α : Type} {body : Method α} {good : α → Prop}
    (h : Returns (HoldsAt answer selected size) body good) :
    Returns (Holds answer selected) (Method.withTreeSize size body) good := by
  intro c hc
  obtain ⟨a, d, ha, hd, hgood⟩ := h { c with treeSize := some size } ⟨rfl, hc⟩
  refine ⟨a, { d with treeSize := c.treeSize }, ?_, hd.2, hgood⟩
  unfold Method.withTreeSize
  rw [ha]

/-- A peak in the lowest tile level lies in the last, partial tile. -/
theorem clampTile_peak {level number : Nat} {t : Tile} (heven : 2 ∣ number)
    (hfit : (number + 1) * 2 ^ level ≤ size) (hlast : size < (number + 2) * 2 ^ level)
    (h : clampTile (some size) ⟨level / 8, number * 2 ^ (level % 8) / 256,
      number * 2 ^ (level % 8) % 256 + 2 ^ (level % 8)⟩ = .ok t) : t.width < 256 := by
  obtain ⟨width, hclamp, _, hfull, _, hlevel, hwidth⟩ := clampTile_fits hfit
  rw [hclamp] at h
  cases h
  have hrows : size / 2 ^ (level / 8 * 8) < (number + 2) * 2 ^ (level % 8) := by
    rw [Nat.div_lt_iff_lt_mul (Nat.two_pow_pos _), mul_assoc, ← pow_add, hlevel]
    exact hlast
  obtain ⟨half, rfl⟩ := heven
  obtain ⟨k, hk⟩ : 2 ^ (level % 8 + 1) ∣ 256 := Nat.pow_dvd_pow 2 (show level % 8 + 1 ≤ 8 by omega)
  have hblock : size / 2 ^ (level / 8 * 8) < (2 * half * 2 ^ (level % 8) / 256 + 1) * 256 := by
    have hpair : 2 * half * 2 ^ (level % 8) = half * 2 ^ (level % 8 + 1) := by rw [pow_succ]; ring
    have hnext : (2 * half + 2) * 2 ^ (level % 8) = (half + 1) * 2 ^ (level % 8 + 1) := by
      rw [pow_succ]
      ring
    have hkpos : 0 < k := Nat.pos_of_ne_zero (by rintro rfl; omega)
    have hup : (half + 1) * 2 ^ (level % 8 + 1) ≤ (half / k + 1) * k * 2 ^ (level % 8 + 1) := by
      apply Nat.mul_le_mul_right
      have hq := Nat.div_add_mod' half k
      have hr := Nat.mod_lt half hkpos
      rw [add_mul, one_mul]
      omega
    have hquot : half * 2 ^ (level % 8 + 1) / 256 = half / k := by
      rw [hk, mul_comm half, Nat.mul_div_mul_left _ _ (Nat.two_pow_pos _)]
    calc size / 2 ^ (level / 8 * 8) < (half + 1) * 2 ^ (level % 8 + 1) := by rw [← hnext]; exact hrows
      _ ≤ (half / k + 1) * k * 2 ^ (level % 8 + 1) := hup
      _ = (half / k + 1) * 256 := by rw [mul_assoc, hk, mul_comm k]
      _ = (2 * half * 2 ^ (level % 8) / 256 + 1) * 256 := by rw [hpair, hquot]
  dsimp only
  omega

variable (hsha : ∀ data, (sha256 data).length = 32) (hleaves : ∀ x ∈ leaves, x.length = 32)

include hsha hleaves

/-- The tree hash needs no full tile of the lowest level. -/
theorem treeHash_honest (hs : Serves answer selected server) (hfits : Fits answer selected)
    (hsize : size ≤ leaves.length)
    (hsel : ∀ t, InTree leaves t → t.width < 256 → selected t ∧ answer t = tileData sha256 leaves t) :
    Returns (HoldsAt answer selected size) (treeHash sha256 server size)
      (· = root (nodeHash sha256) (sha256 []) (leaves.take size)) := by
  unfold treeHash
  split
  next hzero =>
    apply returns_pure
    rw [hzero, take_zero, root_nil]
  next hpos =>
    have hreads : ∀ index ∈ subtreeIndexes size, Returns (HoldsAt answer selected size)
        (hash sha256 server index) (fun digest => ∀ level number, index = storedHashIndex level number →
          digest = subtree (nodeHash sha256) (sha256 []) leaves level number) := by
      intro index hi
      obtain ⟨level, number, rfl, heven, hfit, hlast⟩ := mem_subtreeIndexesLoop (aligned_zero size) hi
      have hread := hash_honest hsha hleaves hs hfits hsize hfit
        fun t hin ht => hsel t hin (clampTile_peak heven hfit hlast ht)
      apply hread.imp
      intro digest hd level' number' heq
      have hsame := congrArg splitStoredHashIndex heq
      rw [splitStoredHashIndex_storedHashIndex, splitStoredHashIndex_storedHashIndex] at hsame
      cases hsame
      exact hd
    apply Returns.bind (hashes_returns hreads)
    intro parts hparts
    apply returns_pure
    have hjoin := joinHashes_complete sha256 hsize (fun level number digest _ _ _ hd => hd level number rfl)
      (Nat.le_of_eq (Nat.sub_zero size)) (aligned_zero size) (by omega) hparts
    exact hjoin

theorem verifyHead_honest (hs : Serves answer selected server) (hfits : Fits answer selected)
    {head : TreeHead} (hsize : head.size ≤ leaves.length)
    (hsel : ∀ t, InTree leaves t → t.width < 256 → selected t ∧ answer t = tileData sha256 leaves t)
    (hroot : head.hash = root (nodeHash sha256) (sha256 []) (leaves.take head.size)) :
    Returns (Holds answer selected) (verifyHead sha256 server head) (fun _ => True) := by
  apply withTreeSize_returns
  apply Returns.bind (treeHash_honest hsha hleaves hs hfits hsize hsel)
  intro computed hcomputed
  apply Returns.guard
  · rw [not_not, hcomputed, hroot]
  · exact returns_pure trivial

end

end Leitir.Sumdb
