import Leitir.SumdbHonest

namespace Leitir.Sumdb

open Bits List Merkle

section

variable {sha256 : Bytes → Bytes} {leaves : List Bytes} {server : Server} {size : Nat}
  (hsha : ∀ data, (sha256 data).length = 32) (hleaves : ∀ x ∈ leaves, x.length = 32)
  (hs : Serves (tileData sha256 leaves) (InTree leaves) server)

include hsha hleaves hs

theorem verifyRecordInclusion_honest {head : TreeHead} (hsize : head.size ≤ leaves.length) {leaf : Nat}
    {record : Bytes} (hleaf : leaf < head.size) (hrecord : leaves[leaf]? = some (recordHash sha256 record)) :
    Returns (Holds (tileData sha256 leaves) (InTree leaves)) (verifyRecordInclusion sha256 server head leaf record)
      (fun _ => True) := by
  apply withTreeSize_returns
  apply Returns.bind (hash_honest hsha hleaves hs (fits_inTree hsha hleaves) hsize (by rw [pow_zero]; omega)
    fun t ht _ => ⟨ht, rfl⟩)
  intro stored hstored
  apply Returns.guard
  · rw [not_not, hstored, subtree_zero _ _ hrecord]
  · exact returns_pure trivial

variable {start count : Nat}

theorem perfectSubtreeHash_honest (hsize : size ≤ leaves.length) {k : Nat} (hdvd : 2 ^ k ∣ start)
    (hend : start + 2 ^ k ≤ size) :
    Returns (HoldsAt (tileData sha256 leaves) (InTree leaves) size) (perfectSubtreeHash sha256 server start (2 ^ k))
      (· = root (nodeHash sha256) (sha256 []) ((leaves.drop start).take (2 ^ k))) := by
  have hpos := Nat.two_pow_pos k
  have hback : start / 2 ^ k * 2 ^ k = start := Nat.div_mul_cancel hdvd
  have hfit : (start / 2 ^ k + 1) * 2 ^ k ≤ size := by
    rw [add_mul, hback, one_mul]
    exact hend
  have hguard : ¬ (2 ^ k < 1 ∨ 2 ^ k &&& (2 ^ k - 1) ≠ 0 ∨ start % 2 ^ k ≠ 0) := by
    rw [two_pow_and_pred, Nat.mod_eq_zero_of_dvd hdvd]
    simp
  have hread := hash_honest hsha hleaves hs (fits_inTree hsha hleaves) hsize hfit fun t ht _ => ⟨ht, rfl⟩
  unfold perfectSubtreeHash
  apply Returns.guard hguard
  rw [bitLength_two_pow, Nat.add_sub_cancel]
  unfold subtree at hread
  rw [hback] at hread
  exact hread

def Placed (start count : Nat) : Prop := ∃ k, 2 ^ k ∣ start ∧ count ≤ 2 ^ k

omit hsha hleaves hs in
theorem Placed.split (h : Placed start count) (h2 : 2 ≤ count) :
    ∃ j, split count = 2 ^ j ∧ 2 ^ j < count ∧ 2 ^ j ∣ start ∧
      Placed (start + 2 ^ j) (count - 2 ^ j) := by
  obtain ⟨k, hdvd, hle⟩ := h
  obtain ⟨j, hj, hlow, hhigh⟩ := split_bounds h2
  have hjk : j < k := (Nat.pow_lt_pow_iff_right (show 1 < 2 by omega)).mp (hlow.trans_le hle)
  have hstart : 2 ^ j ∣ start := (Nat.pow_dvd_pow 2 hjk.le).trans hdvd
  refine ⟨j, hj, hlow, hstart, j, (Nat.dvd_add_right hstart).mpr dvd_rfl, ?_⟩
  rw [pow_succ] at hhigh
  omega

omit hsha hleaves hs in
theorem root_slice_split (sha256 : Bytes → Bytes) {j : Nat} (h2 : 2 ≤ count) (hend : start + count ≤ leaves.length)
    (hj : split count = 2 ^ j) (hlow : 2 ^ j < count) :
    root (nodeHash sha256) (sha256 []) ((leaves.drop start).take count) =
      nodeHash sha256 (root (nodeHash sha256) (sha256 []) ((leaves.drop start).take (2 ^ j)))
        (root (nodeHash sha256) (sha256 []) ((leaves.drop (start + 2 ^ j)).take (count - 2 ^ j))) := by
  have hlen : ((leaves.drop start).take count).length = count := by
    rw [length_take, length_drop]
    omega
  rw [root_split _ _ (by omega), hlen, hj, take_take, Nat.min_eq_left hlow.le, drop_take,
    drop_drop]

theorem subtreeHashLoop_honest (hsize : size ≤ leaves.length) {fuel : Nat} (hfuel : count < fuel)
    (hpos : 0 < count) (hplace : Placed start count) (hend : start + count ≤ size) :
    Returns (HoldsAt (tileData sha256 leaves) (InTree leaves) size) (subtreeHashLoop sha256 server fuel start count)
      (· = root (nodeHash sha256) (sha256 []) ((leaves.drop start).take count)) := by
  induction fuel generalizing start count with
  | zero => omega
  | succ fuel ih =>
    unfold subtreeHashLoop
    apply Returns.guard (by omega)
    split
    next hpow =>
      obtain ⟨j, rfl⟩ := exists_two_pow_of_and_pred hpos hpow
      obtain ⟨k, hdvd, hle⟩ := hplace
      have hjk : j ≤ k := (Nat.pow_le_pow_iff_right (show 1 < 2 by omega)).mp hle
      exact perfectSubtreeHash_honest hsha hleaves hs hsize ((Nat.pow_dvd_pow 2 hjk).trans hdvd) hend
    next hpow =>
      have h2 : 2 ≤ count := by
        by_contra hlt
        have hone : count = 1 := by omega
        exact hpow (by rw [hone]; rfl)
      obtain ⟨j, hj, hlow, hdvd, hrest⟩ := hplace.split h2
      dsimp only
      rw [maxpow2_eq_split _ h2, hj]
      apply Returns.bind (perfectSubtreeHash_honest hsha hleaves hs hsize hdvd (by omega))
      intro left hleft
      have hjpos := Nat.two_pow_pos j
      apply Returns.bind (ih (by omega) (by omega) hrest (by omega))
      intro right hright
      apply returns_pure
      rw [hleft, hright, root_slice_split sha256 h2 (hend.trans hsize) hj hlow]

theorem extend_honest (hsize : size ≤ leaves.length) {fuel old new : Nat} (hfuel : new ≤ fuel)
    (hpos : 0 < old) (hle : old ≤ new) (hplace : Placed start new) (hend : start + new ≤ size) :
    Returns (HoldsAt (tileData sha256 leaves) (InTree leaves) size)
      (extend sha256 server fuel old new
        (root (nodeHash sha256) (sha256 []) ((leaves.drop start).take old)) start)
      (· = root (nodeHash sha256) (sha256 []) ((leaves.drop start).take new)) := by
  induction fuel generalizing old new start with
  | zero => omega
  | succ fuel ih =>
    unfold extend
    split
    next heq =>
      apply returns_pure
      rw [heq]
    next hne =>
      have h2 : 2 ≤ new := by omega
      obtain ⟨j, hj, hlow, hdvd, hrest⟩ := hplace.split h2
      have hjpos := Nat.two_pow_pos j
      have hwhole := root_slice_split sha256 h2 (hend.trans hsize) hj hlow
      dsimp only
      rw [maxpow2_eq_split _ h2, hj]
      split
      next hin =>
        apply Returns.bind (ih (by omega) hpos hin ⟨j, hdvd, le_rfl⟩ (by omega))
        intro left hleft
        apply Returns.bind (subtreeHashLoop_honest hsha hleaves hs hsize (Nat.lt_succ_self _) (by omega) hrest
          (by omega))
        intro right hright
        apply returns_pure
        rw [hleft, hright, hwhole]
      next hout =>
        have hstable : split old = 2 ^ j := by
          rw [← hj]
          exact split_stable (by omega) hle
        have hold := root_slice_split sha256 (show 2 ≤ old by omega)
          (show start + old ≤ leaves.length by omega) hstable (by omega)
        obtain ⟨k, hk, hkle⟩ := hrest
        apply Returns.bind (perfectSubtreeHash_honest hsha hleaves hs hsize hdvd (by omega))
        intro left hleft
        apply Returns.bind (subtreeHashLoop_honest hsha hleaves hs hsize (Nat.lt_succ_self _) (by omega)
          ⟨k, hk, by omega⟩ (by omega))
        intro oldRight hor
        apply Returns.guard
        · rw [not_not, hleft, hor, hold]
        · rw [hor]
          apply Returns.bind (ih (by omega) (by omega) (by omega) ⟨k, hk, hkle⟩ (by omega))
          intro right hright
          apply returns_pure
          rw [hleft, hright, hwhole]

theorem verifyConsistency_honest {stored latest : TreeHead} (hsize : latest.size ≤ leaves.length)
    (hle : stored.size ≤ latest.size)
    (hold : stored.hash = root (nodeHash sha256) (sha256 []) (leaves.take stored.size))
    (hnew : latest.hash = root (nodeHash sha256) (sha256 []) (leaves.take latest.size)) :
    Returns (Holds (tileData sha256 leaves) (InTree leaves)) (verifyConsistency sha256 server stored latest)
      (fun _ => True) := by
  apply withTreeSize_returns
  apply Returns.guard (by omega)
  split
  next hsame =>
    apply Returns.guard
    · rw [not_not, hnew, hold, hsame]
    · exact returns_pure trivial
  next hdiff =>
    split
    next hzero =>
      apply Returns.guard
      · rw [not_not, hold, hzero, take_zero, root_nil]
      · exact returns_pure trivial
    next hpos =>
      have hplace : Placed 0 latest.size := ⟨latest.size, dvd_zero _, Nat.lt_two_pow_self.le⟩
      have hrun := extend_honest hsha hleaves hs hsize le_rfl (by omega) hle hplace (by omega)
      rw [drop_zero, ← hold, ← hnew] at hrun
      apply Returns.bind hrun
      intro extended hextended
      apply Returns.guard
      · rw [not_not]
        exact hextended
      · exact returns_pure trivial

end

/-- A server that answers with the stored hashes of a log passes every check,
for a client that holds nothing else in its cache. -/
theorem honest_log_verifies {sha256 : Bytes → Bytes} (hsha : ∀ data, (sha256 data).length = 32)
    {records : List Bytes} {server : Server}
    (honest : Serves (tileData sha256 (records.map (recordHash sha256)))
      (InTree (records.map (recordHash sha256))) server)
    (stored head : TreeHead) (hsize : head.size ≤ records.length) (hle : stored.size ≤ head.size)
    (hhead : head.hash = recordsHash sha256 (records.take head.size))
    (hstored : stored.hash = recordsHash sha256 (records.take stored.size)) {c : Client}
    (hc : Holds (tileData sha256 (records.map (recordHash sha256))) (InTree (records.map (recordHash sha256))) c) :
    (∃ d, verifyHead sha256 server head c = (.ok (), d) ∧
        Holds (tileData sha256 (records.map (recordHash sha256))) (InTree (records.map (recordHash sha256))) d) ∧
      (∀ index record, index < head.size → records[index]? = some record →
        ∃ d, verifyRecordInclusion sha256 server head index record c = (.ok (), d) ∧
          Holds (tileData sha256 (records.map (recordHash sha256))) (InTree (records.map (recordHash sha256))) d) ∧
      ∃ d, verifyConsistency sha256 server stored head c = (.ok (), d) ∧
        Holds (tileData sha256 (records.map (recordHash sha256))) (InTree (records.map (recordHash sha256))) d := by
  have hleaves : ∀ x ∈ records.map (recordHash sha256), x.length = 32 := mem_records_length hsha
  have hlen : head.size ≤ (records.map (recordHash sha256)).length := by rwa [length_map]
  rw [recordsHash, map_take] at hhead hstored
  refine ⟨?_, ?_, ?_⟩
  · obtain ⟨_, d, hrun, hd, _⟩ := verifyHead_honest hsha hleaves honest (fits_inTree hsha hleaves) hlen
      (fun t ht _ => ⟨ht, rfl⟩) hhead c hc
    exact ⟨d, hrun, hd⟩
  · intro index record hindex hrecord
    have hleaf : (records.map (recordHash sha256))[index]? = some (recordHash sha256 record) := by
      rw [getElem?_map, hrecord]
      rfl
    obtain ⟨_, d, hrun, hd, _⟩ := verifyRecordInclusion_honest hsha hleaves honest hlen hindex hleaf c hc
    exact ⟨d, hrun, hd⟩
  · obtain ⟨_, d, hrun, hd, _⟩ := verifyConsistency_honest hsha hleaves honest hlen hle hstored hhead c hc
    exact ⟨d, hrun, hd⟩

/-- The log of the records `a` and `b`, in two widths of its only tile. -/
def sampleServer : Server
  | [] => .crash
  | path :: _ => if path = (⟨0, 0, 1⟩ : Tile).path then .body leafA else .body (leafA ++ leafB)

theorem sampleServer_serves :
    Serves (tileData (tableHash sampleTable) ([[97], [98]].map (recordHash (tableHash sampleTable))))
      (InTree ([[97], [98]].map (recordHash (tableHash sampleTable)))) sampleServer := by
  rintro ⟨level, number, width⟩ ⟨hpos, _, hin⟩ history
  have hleaves : [[97], [98]].map (recordHash (tableHash sampleTable)) = [leafA, leafB] := by decide +kernel
  rw [hleaves] at hin ⊢
  dsimp only [length_cons, length_nil] at hpos hin
  have hlevel : level = 0 := by
    by_contra hne
    have hbig : 2 ^ 8 ≤ 2 ^ (level * 8) := Nat.pow_le_pow_right (by omega) (by omega)
    have hle : 1 * 2 ^ 8 ≤ (number * 256 + width) * 2 ^ (level * 8) := Nat.mul_le_mul (by omega) hbig
    omega
  subst hlevel
  have hnumber : number = 0 := by omega
  subst hnumber
  have hfirst : subtree (nodeHash (tableHash sampleTable)) (tableHash sampleTable []) [leafA, leafB]
      0 0 = leafA := subtree_zero _ _ rfl
  have hsecond : subtree (nodeHash (tableHash sampleTable)) (tableHash sampleTable []) [leafA, leafB]
      0 1 = leafB := subtree_zero _ _ rfl
  have hwidth : width = 1 ∨ width = 2 := by omega
  rcases hwidth with rfl | rfl
  · simp [sampleServer, tileData, hfirst]
  · have hpath : ¬ (⟨0, 0, 2⟩ : Tile).path = (⟨0, 0, 1⟩ : Tile).path := by decide +kernel
    simp [sampleServer, tileData, hpath, range'_succ, hfirst, hsecond]

theorem honest_log_verifies_sample :
    (verifyHead (tableHash sampleTable) sampleServer ⟨2, nodeAB, rfl⟩ {}).1 = .ok () ∧
      (verifyRecordInclusion (tableHash sampleTable) sampleServer ⟨2, nodeAB, rfl⟩ 1 [98] {}).1 = .ok () ∧
      (verifyConsistency (tableHash sampleTable) sampleServer ⟨1, leafA, rfl⟩ ⟨2, nodeAB, rfl⟩ {}).1 =
        .ok () := by
  have hnode : recordsHash (tableHash sampleTable) [[97], [98]] =
      nodeHash (tableHash sampleTable) (recordHash (tableHash sampleTable) [97])
        (recordHash (tableHash sampleTable) [98]) := root_pair _ _ _ _
  have hhead : nodeAB = recordsHash (tableHash sampleTable) ([[97], [98]].take 2) := by
    refine Eq.trans ?_ hnode.symm
    decide +kernel
  have hstored : leafA = recordsHash (tableHash sampleTable) ([[97], [98]].take 1) := by
    rw [recordsHash, take_succ_cons, take_zero, map_singleton, root_singleton]
    decide +kernel
  have hempty : Holds (tileData (tableHash sampleTable) ([[97], [98]].map (recordHash (tableHash sampleTable))))
      (InTree ([[97], [98]].map (recordHash (tableHash sampleTable)))) {} := by
    intro t _ data hl
    simp at hl
  obtain ⟨⟨_, h1, _⟩, h2, ⟨_, h3, _⟩⟩ := honest_log_verifies (tableHash_model sampleTable_valid).length
    sampleServer_serves ⟨1, leafA, rfl⟩ ⟨2, nodeAB, rfl⟩ le_rfl (by decide) hhead hstored hempty
  obtain ⟨_, h2, _⟩ := h2 1 [98] (by decide) rfl
  exact ⟨by rw [h1], by rw [h2], by rw [h3]⟩

end Leitir.Sumdb
