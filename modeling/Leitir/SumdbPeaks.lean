import Leitir.SumdbClient
import Leitir.Sha

namespace Leitir.Sumdb

open Bits List Merkle

def Aligned (size low : Nat) : Prop := ∃ k, 2 ^ k ∣ low ∧ size - low < 2 ^ k

theorem aligned_zero (size : Nat) : Aligned size 0 :=
  ⟨size, dvd_zero _, by simpa using Nat.lt_two_pow_self⟩

/-- One round of the subtree loop: the largest power of two that fits is taken,
its subtree starts at a multiple of its size, and the rest is aligned again. -/
theorem subtreeIndexesLoop_succ {size low : Nat} (fuel : Nat) (hlow : low < size) (ha : Aligned size low) :
    ∃ j, 2 ^ j ≤ size - low ∧ size - low < 2 ^ (j + 1) ∧ 2 ^ (j + 1) ∣ low ∧ Aligned size (low + 2 ^ j) ∧
      subtreeIndexesLoop size (fuel + 1) low =
        storedHashIndex j (low / 2 ^ j) :: subtreeIndexesLoop size fuel (low + 2 ^ j) := by
  obtain ⟨k, hdvd, hk⟩ := ha
  have hne : size - low ≠ 0 := by omega
  have low2 := Nat.log2_self_le hne
  have high2 := Nat.lt_log2_self (n := size - low)
  have hjk : Nat.log2 (size - low) < k := by
    apply (Nat.pow_lt_pow_iff_right (show 1 < 2 by omega)).mp
    omega
  have hj : 2 ^ (Nat.log2 (size - low) + 1) ∣ low := (Nat.pow_dvd_pow 2 hjk).trans hdvd
  have hj' : 2 ^ Nat.log2 (size - low) ∣ low := (Nat.pow_dvd_pow 2 (Nat.le_succ _)).trans hj
  refine ⟨Nat.log2 (size - low), low2, high2, hj, ?_, ?_⟩
  · refine ⟨Nat.log2 (size - low), (Nat.dvd_add_right hj').mpr dvd_rfl, ?_⟩
    rw [pow_succ] at high2
    omega
  · have hw : maxpow2 (size - low + 1) = 2 ^ Nat.log2 (size - low) := by
      rw [maxpow2_eq_split _ (by omega), split, Nat.add_sub_cancel]
    simp only [subtreeIndexesLoop, if_pos hlow, hw, bitLength_two_pow, Nat.add_sub_cancel,
      Nat.shiftRight_eq_div_pow]

theorem subtreeIndexesLoop_done {size low : Nat} (fuel : Nat) (h : size ≤ low) :
    subtreeIndexesLoop size fuel low = [] := by
  cases fuel with
  | zero => rfl
  | succ fuel => simp [subtreeIndexesLoop, show ¬ low < size by omega]

/-- The subtrees of the loop are left children whose sibling is incomplete. -/
theorem mem_subtreeIndexesLoop {size fuel low index : Nat} (ha : Aligned size low)
    (h : index ∈ subtreeIndexesLoop size fuel low) :
    ∃ level number, index = storedHashIndex level number ∧ 2 ∣ number ∧
      (number + 1) * 2 ^ level ≤ size ∧ size < (number + 2) * 2 ^ level := by
  induction fuel generalizing low with
  | zero => simp [subtreeIndexesLoop] at h
  | succ fuel ih =>
    by_cases hlow : low < size
    · obtain ⟨j, hj1, hj2, ⟨half, hhalf⟩, ha', hloop⟩ := subtreeIndexesLoop_succ fuel hlow ha
      rw [hloop] at h
      rcases mem_cons.mp h with he | ht
      · have hpos := Nat.two_pow_pos j
        have hpow : 2 ^ (j + 1) = 2 ^ j + 2 ^ j := by rw [pow_succ]; omega
        have hnumber : low / 2 ^ j = 2 * half := by
          rw [hhalf, pow_succ, mul_assoc, Nat.mul_div_cancel_left _ hpos]
        have hback : 2 * half * 2 ^ j = low := by rw [hhalf, pow_succ]; ring
        refine ⟨j, 2 * half, by rw [he, hnumber], dvd_mul_right 2 half, ?_, ?_⟩
        · rw [add_mul, hback]
          omega
        · rw [add_mul, hback]
          omega
      · exact ih ha' ht
    · rw [subtreeIndexesLoop_done _ (by omega)] at h
      simp at h

theorem forall₂_mem_right {α β : Type} {R : α → β → Prop} {xs : List α} {ys : List β}
    (h : List.Forall₂ R xs ys) {y : β} (hy : y ∈ ys) : ∃ x ∈ xs, R x y := by
  induction h with
  | nil => simp at hy
  | @cons x z xs ys hr _ ih =>
    rcases mem_cons.mp hy with rfl | hy
    · exact ⟨x, by simp, hr⟩
    · obtain ⟨w, hw, hv⟩ := ih hy
      exact ⟨w, mem_cons_of_mem x hw, hv⟩

theorem root_peak (sha256 : Bytes → Bytes) {leaves : List Bytes} {j : Nat} (low : 2 ^ j < leaves.length)
    (high : leaves.length < 2 ^ (j + 1)) :
    root (nodeHash sha256) (sha256 []) leaves =
      nodeHash sha256 (root (nodeHash sha256) (sha256 []) (leaves.take (2 ^ j)))
        (root (nodeHash sha256) (sha256 []) (leaves.drop (2 ^ j))) := by
  have hpos := Nat.two_pow_pos j
  rw [root_split _ _ (by omega), split_eq_of_bounds low high.le]

theorem joinHashes_cons (sha256 : Bytes → Bytes) (item : Bytes) {rest : List Bytes} (h : rest ≠ []) :
    joinHashes sha256 (item :: rest) = nodeHash sha256 item (joinHashes sha256 rest) := by
  cases rest with
  | nil => exact absurd rfl h
  | cons next rest => rfl

theorem joinHashes_length {sha256 : Bytes → Bytes} (model : HashModel sha256) {parts : List Bytes}
    (hne : parts ≠ []) (hp : ∀ x ∈ parts, x.length = 32) : (joinHashes sha256 parts).length = 32 := by
  match parts, hne with
  | [last], _ => exact hp last (by simp)
  | item :: next :: rest, _ => exact model.length _

/-- When the joined parts are the root over the leaves from `low` on, each part
is the root over the leaves of its own subtree. -/
theorem joinHashes_sound {sha256 : Bytes → Bytes} (model : HashModel sha256) {R : Nat → Bytes → Prop}
    (hR : ∀ level number digest, R (storedHashIndex level number) digest → digest.length = 32)
    {size fuel low : Nat} {leaves parts : List Bytes} (hfuel : size - low ≤ fuel)
    (ha : Aligned size low) (hlen : leaves.length = size - low) (hleaves : ∀ x ∈ leaves, x.length = 32)
    (hread : List.Forall₂ R (subtreeIndexesLoop size fuel low) parts)
    (hroot : low < size → joinHashes sha256 parts = root (nodeHash sha256) (sha256 []) leaves) :
    ∀ p, low ≤ p → p < size → ∃ level number, 2 ∣ number ∧ number * 2 ^ level ≤ p ∧
      p < (number + 1) * 2 ^ level ∧ low ≤ number * 2 ^ level ∧ (number + 1) * 2 ^ level ≤ size ∧ size < (number + 2) * 2 ^ level ∧
      R (storedHashIndex level number) (root (nodeHash sha256) (sha256 [])
        ((leaves.drop (number * 2 ^ level - low)).take (2 ^ level))) := by
  induction fuel generalizing low leaves parts with
  | zero => intro p h1 h2; omega
  | succ fuel ih =>
    intro p hp1 hp2
    obtain ⟨j, hj1, hj2, heven, ha', hloop⟩ := subtreeIndexesLoop_succ fuel (by omega : low < size) ha
    have hdvd : 2 ^ j ∣ low := (Nat.pow_dvd_pow 2 (Nat.le_succ j)).trans heven
    have hpos := Nat.two_pow_pos j
    have hback : low / 2 ^ j * 2 ^ j = low := Nat.div_mul_cancel hdvd
    have hend : (low / 2 ^ j + 1) * 2 ^ j = low + 2 ^ j := by rw [add_mul, hback, one_mul]
    have hend2 : (low / 2 ^ j + 2) * 2 ^ j = low + 2 ^ (j + 1) := by rw [add_mul, hback, pow_succ']
    rw [hloop] at hread
    obtain ⟨first, rest, hfirst, hrest, rfl⟩ := forall₂_cons_left_iff.mp hread
    have hroot := hroot (by omega)
    have hlead : first = root (nodeHash sha256) (sha256 []) (leaves.take (2 ^ j)) ∧
        (low + 2 ^ j < size → joinHashes sha256 rest =
          root (nodeHash sha256) (sha256 []) (leaves.drop (2 ^ j))) := by
      by_cases hlast : low + 2 ^ j < size
      · obtain ⟨j', _, _, _, _, hloop'⟩ := subtreeIndexesLoop_succ (fuel - 1) hlast ha'
        have hf : fuel - 1 + 1 = fuel := by omega
        rw [hf] at hloop'
        have hrne : rest ≠ [] := by
          rintro rfl
          rw [hloop'] at hrest
          cases hrest
        have hrl : ∀ x ∈ rest, x.length = 32 := by
          intro x hx
          obtain ⟨index, hi, hr⟩ := forall₂_mem_right hrest hx
          obtain ⟨level, number, rfl, _⟩ := mem_subtreeIndexesLoop ha' hi
          exact hR level number x hr
        have hpeak := root_peak sha256 (show 2 ^ j < leaves.length by omega)
          (show leaves.length < 2 ^ (j + 1) by omega)
        rw [joinHashes_cons _ _ hrne, hpeak] at hroot
        obtain ⟨h1, h2⟩ := model.node_injective _ _ _ _ (hR _ _ _ hfirst) (joinHashes_length model hrne hrl)
          (root_length model.length fun x hx => hleaves x (mem_of_mem_take hx))
          (root_length model.length fun x hx => hleaves x (mem_of_mem_drop hx)) hroot
        exact ⟨h1, fun _ => h2⟩
      · rw [subtreeIndexesLoop_done fuel (by omega)] at hrest
        cases hrest
        rw [take_of_length_le (by omega)]
        exact ⟨hroot, fun h => absurd h hlast⟩
    by_cases hin : p < low + 2 ^ j
    · obtain ⟨half, hhalf⟩ := heven
      have hnumber : low / 2 ^ j = 2 * half := by
        rw [hhalf, pow_succ, mul_assoc, Nat.mul_div_cancel_left _ hpos]
      refine ⟨j, low / 2 ^ j, ⟨half, hnumber⟩, by omega, by omega, by omega, by omega, by omega, ?_⟩
      rw [hback, Nat.sub_self, drop_zero, ← hlead.1]
      exact hfirst
    · obtain ⟨level, number, h0, h1, h2, h3, h4, h5, h6⟩ := ih (by omega) ha'
        (by rw [length_drop]; omega) (fun x hx => hleaves x (mem_of_mem_drop hx)) hrest
        hlead.2 p (by omega) hp2
      refine ⟨level, number, h0, h1, h2, by omega, h4, h5, ?_⟩
      rw [drop_drop] at h6
      rwa [show 2 ^ j + (number * 2 ^ level - (low + 2 ^ j)) = number * 2 ^ level - low by omega] at h6

/-- The other way: parts that are the hashes of their subtrees join to the root
over the leaves from `low` on. -/
theorem joinHashes_complete (sha256 : Bytes → Bytes) {R : Nat → Bytes → Prop} {size fuel low : Nat}
    {leaves parts : List Bytes} (hsize : size ≤ leaves.length)
    (hR : ∀ level number digest, 2 ∣ number → (number + 1) * 2 ^ level ≤ size →
      size < (number + 2) * 2 ^ level → R (storedHashIndex level number) digest →
      digest = subtree (nodeHash sha256) (sha256 []) leaves level number)
    (hfuel : size - low ≤ fuel) (ha : Aligned size low) (hlow : low < size)
    (hread : List.Forall₂ R (subtreeIndexesLoop size fuel low) parts) :
    joinHashes sha256 parts =
      root (nodeHash sha256) (sha256 []) ((leaves.take size).drop low) := by
  induction fuel generalizing low parts with
  | zero => omega
  | succ fuel ih =>
    obtain ⟨j, hj1, hj2, heven, ha', hloop⟩ := subtreeIndexesLoop_succ fuel hlow ha
    have hpos := Nat.two_pow_pos j
    have hpow : 2 ^ (j + 1) = 2 ^ j + 2 ^ j := by rw [pow_succ]; omega
    obtain ⟨half, hhalf⟩ := heven
    have hnumber : low / 2 ^ j = 2 * half := by
      rw [hhalf, pow_succ, mul_assoc, Nat.mul_div_cancel_left _ hpos]
    have hback : 2 * half * 2 ^ j = low := by rw [hhalf, pow_succ]; ring
    rw [hloop, hnumber] at hread
    obtain ⟨first, rest, hfirst, hrest, rfl⟩ := forall₂_cons_left_iff.mp hread
    have hvalue := hR j (2 * half) first (dvd_mul_right 2 half) (by rw [add_mul, hback]; omega)
      (by rw [add_mul, hback]; omega) hfirst
    have hlen : ((leaves.take size).drop low).length = size - low := by
      rw [length_drop, length_take]
      omega
    have hlead : first = root (nodeHash sha256) (sha256 [])
        (((leaves.take size).drop low).take (2 ^ j)) := by
      rw [hvalue, subtree, hback, drop_take, take_take, Nat.min_eq_left hj1]
    by_cases hlast : low + 2 ^ j < size
    · obtain ⟨j', _, _, _, _, hloop'⟩ := subtreeIndexesLoop_succ (fuel - 1) hlast ha'
      rw [show fuel - 1 + 1 = fuel by omega] at hloop'
      have hrne : rest ≠ [] := by
        rintro rfl
        rw [hloop'] at hrest
        cases hrest
      have htail := ih (by omega) ha' hlast hrest
      have hpeak := root_peak sha256 (show 2 ^ j < ((leaves.take size).drop low).length by omega)
        (show ((leaves.take size).drop low).length < 2 ^ (j + 1) by omega)
      rw [joinHashes_cons _ _ hrne, hpeak, ← hlead, drop_drop, htail]
    · rw [subtreeIndexesLoop_done fuel (by omega)] at hrest
      cases hrest
      rw [take_of_length_le (by omega)] at hlead
      exact hlead

/-- The tree hash over any source of stored hashes, as the client calls it with
its own and a caller may with another. -/
def treeHashFrom {m : Type → Type} [Monad m] (sha256 : Bytes → Bytes) (size : Nat) (getHash : Nat → m Bytes) :
    m Bytes := do
  if size = 0 then pure (sha256 [])
  else
    let hashes ← (subtreeIndexes size).mapM getHash
    pure (joinHashes sha256 hashes)

theorem Method.bind_done {α : Type} (x : Method α) : x >>= Method.done = x := by
  funext client
  change Method.andThen x Method.done client = x client
  unfold Method.andThen Method.done
  split
  next h => rw [h]
  next h => rw [h]

theorem Method.bind_bind {α β γ : Type} (x : Method α) (f : α → Method β) (g : β → Method γ) :
    x >>= f >>= g = x >>= fun a => f a >>= g := by
  funext client
  change Method.andThen (Method.andThen x f) g client = Method.andThen x (fun a => Method.andThen (f a) g) client
  unfold Method.andThen
  rcases x client with ⟨_ | _, _⟩
  · rfl
  · rfl

instance : LawfulMonad Method := LawfulMonad.mk' Method Method.bind_done (fun _ _ => rfl) Method.bind_bind

theorem hashes_eq_mapM (sha256 : Bytes → Bytes) (server : Server) (indexes : List Nat) :
    hashes sha256 server indexes = indexes.mapM (hash sha256 server) := by
  induction indexes with
  | nil => rfl
  | cons index rest ih => rw [mapM_cons, ← ih]; rfl

theorem treeHash_eq (sha256 : Bytes → Bytes) (server : Server) (size : Nat) :
    treeHash sha256 server size = treeHashFrom sha256 size (hash sha256 server) := by
  unfold treeHash treeHashFrom
  rw [hashes_eq_mapM]

section

variable (sha256 : Bytes → Bytes) (records : List Bytes)

/-- What a log stores when it appends record `number`: the hash of every subtree
that the record completes, the record's own first. -/
def storedWith (number : Nat) : List Bytes :=
  (List.range (bitLength (lowBit (number + 1)))).map fun level =>
    subtree (nodeHash sha256) (sha256 []) (records.map (recordHash sha256)) level (number >>> level)

def storedHashes : List Bytes := (List.range records.length).flatMap (storedWith sha256 records)

theorem length_storedWith (number : Nat) :
    (storedWith sha256 records number).length = bitLength (lowBit (number + 1)) := by
  simp [storedWith]

theorem length_stored (count : Nat) :
    ((List.range count).flatMap (storedWith sha256 records)).length = recordIndex count := by
  induction count with
  | zero => rfl
  | succ count ih =>
    rw [range_succ, flatMap_append, length_append, ih, flatMap_singleton,
      length_storedWith, recordIndex_succ]

theorem getElem?_stored {count number level : Nat} (hn : number < count)
    (hl : level < bitLength (lowBit (number + 1))) :
    ((List.range count).flatMap (storedWith sha256 records))[recordIndex number + level]? =
      (storedWith sha256 records number)[level]? := by
  induction count with
  | zero => omega
  | succ count ih =>
    rw [range_succ, flatMap_append, flatMap_singleton]
    have hlen := length_stored sha256 records count
    by_cases hlast : number < count
    · have hnext : recordIndex number + level < recordIndex count := by
        have hmono := recordIndex_strictMono.monotone (show number + 1 ≤ count by omega)
        rw [recordIndex_succ] at hmono
        omega
      rw [getElem?_append_left (by omega), ih hlast]
    · have hsame : number = count := by omega
      subst hsame
      rw [getElem?_append_right (by omega), hlen, Nat.add_sub_cancel_left]

theorem getElem?_storedHashes {level number : Nat} (h : (number + 1) * 2 ^ level ≤ records.length) :
    (storedHashes sha256 records)[storedHashIndex level number]? =
      some (subtree (nodeHash sha256) (sha256 []) (records.map (recordHash sha256)) level number) := by
  have hpow := Nat.two_pow_pos level
  have hpos : 0 < (number + 1) * 2 ^ level := Nat.mul_pos (Nat.succ_pos _) hpow
  have hback : (number + 1) * 2 ^ level - 1 + 1 = (number + 1) * 2 ^ level := by omega
  have hlevel : level < bitLength (lowBit ((number + 1) * 2 ^ level - 1 + 1)) := by
    rw [hback]
    exact level_lt_bitLength_lowBit level (Nat.succ_pos number)
  have hlast : ((number + 1) * 2 ^ level - 1) >>> level = number := by
    rw [Nat.shiftRight_eq_div_pow, Nat.div_eq_iff hpow]
    have hm : (number + 1) * 2 ^ level = number * 2 ^ level + 2 ^ level := by ring
    omega
  rw [storedHashes, storedHashIndex_eq, getElem?_stored sha256 records (by omega) hlevel, storedWith,
    getElem?_map, getElem?_range hlevel, Option.map_some, hlast]

/-- Tree hashing over the true stored hashes is the tree hash of RFC 6962. -/
theorem treeHashFrom_records (getHash : Nat → Bytes)
    (hget : ∀ index digest, (storedHashes sha256 records)[index]? = some digest → getHash index = digest) :
    treeHashFrom (m := Id) sha256 records.length getHash = recordsHash sha256 records := by
  have hlen : (records.map (recordHash sha256)).length = records.length := length_map ..
  unfold treeHashFrom
  split
  next hzero =>
    rw [length_eq_zero_iff.mp hzero, recordsHash, map_nil, root_nil]
    rfl
  next hpos =>
    have hread : List.Forall₂ (fun index digest => getHash index = digest) (subtreeIndexes records.length)
        ((subtreeIndexes records.length).map getHash) := by
      rw [forall₂_map_right_iff, forall₂_same]
      exact fun _ _ => rfl
    have hpeaks : ∀ level number digest, 2 ∣ number → (number + 1) * 2 ^ level ≤ records.length →
        records.length < (number + 2) * 2 ^ level → getHash (storedHashIndex level number) = digest →
        digest = subtree (nodeHash sha256) (sha256 []) (records.map (recordHash sha256)) level number := by
      intro level number digest _ hfit _ hdigest
      rw [← hdigest]
      exact hget _ _ (getElem?_storedHashes sha256 records hfit)
    have hjoin := joinHashes_complete sha256 (Nat.le_of_eq hlen.symm) hpeaks
      (Nat.le_of_eq (Nat.sub_zero _)) (aligned_zero records.length) (by omega) hread
    rw [drop_zero, take_of_length_le (Nat.le_of_eq hlen)] at hjoin
    rw [recordsHash, ← hjoin]
    change joinHashes sha256 ((subtreeIndexes records.length).mapM (m := Id) getHash) = _
    rw [show (subtreeIndexes records.length).mapM (m := Id) getHash = (subtreeIndexes records.length).map getHash
      from mapM_pure]

theorem treeHashFrom_three :
    treeHashFrom (m := Id) Sha256.digest 3 (fun index => (storedHashes Sha256.digest [[97], [98], [99]])[index]?.getD []) =
      recordsHash Sha256.digest [[97], [98], [99]] :=
  treeHashFrom_records Sha256.digest [[97], [98], [99]] _ fun index digest h => by
    rw [h]
    rfl

end

end Leitir.Sumdb
