import Leitir.SumdbInclusion
import Leitir.SumdbPersisted

namespace Leitir.Sumdb

def Truncated (small big : Nat) : Prop := ∃ k, small = big / 256 ^ k * 256 ^ k

/-- A position lies under one peak of a tree only. -/
theorem peak_unique {size l n l' n' : Nat} (heven : 2 ∣ n) (heven' : 2 ∣ n') (hfit : (n + 1) * 2 ^ l ≤ size)
    (hlast : size < (n + 2) * 2 ^ l) (hfit' : (n' + 1) * 2 ^ l' ≤ size) (hlast' : size < (n' + 2) * 2 ^ l')
    (hlow : n' * 2 ^ l' ≤ n * 2 ^ l) (hhigh : n * 2 ^ l < (n' + 1) * 2 ^ l') : l = l' ∧ n = n' := by
  obtain ⟨half, rfl⟩ := heven
  obtain ⟨half', rfl⟩ := heven'
  have hpos := Nat.two_pow_pos l
  have hpos' := Nat.two_pow_pos l'
  rcases lt_trichotomy l l' with hlt | rfl | hgt
  · obtain ⟨k, rfl⟩ : ∃ k, l' = l + 1 + k := ⟨l' - (l + 1), by omega⟩
    have hpow : 2 ^ (l + 1 + k) = 2 * 2 ^ l * 2 ^ k := by ring
    have hstep : half * (2 * 2 ^ l) < (2 * half' + 1) * 2 ^ k * (2 * 2 ^ l) := by
      calc half * (2 * 2 ^ l) = 2 * half * 2 ^ l := by ring
        _ < (2 * half' + 1) * 2 ^ (l + 1 + k) := hhigh
        _ = (2 * half' + 1) * 2 ^ k * (2 * 2 ^ l) := by rw [hpow]; ring
    have hquot : half + 1 ≤ (2 * half' + 1) * 2 ^ k := Nat.lt_of_mul_lt_mul_right hstep
    have hcover : (half + 1) * (2 * 2 ^ l) ≤ (2 * half' + 1) * 2 ^ k * (2 * 2 ^ l) :=
      Nat.mul_le_mul_right _ hquot
    have hend : (2 * half + 2) * 2 ^ l = (half + 1) * (2 * 2 ^ l) := by ring
    have hend' : (2 * half' + 1) * 2 ^ (l + 1 + k) = (2 * half' + 1) * 2 ^ k * (2 * 2 ^ l) := by rw [hpow]; ring
    omega
  · have h1 : 2 * half' ≤ 2 * half := Nat.le_of_mul_le_mul_right hlow hpos
    have h2 : 2 * half < 2 * half' + 1 := Nat.lt_of_mul_lt_mul_right hhigh
    exact ⟨rfl, by omega⟩
  · obtain ⟨k, rfl⟩ : ∃ k, l = l' + 1 + k := ⟨l - (l' + 1), by omega⟩
    have hpow : 2 ^ (l' + 1 + k) = 2 * 2 ^ l' * 2 ^ k := by ring
    have hkpos := Nat.two_pow_pos k
    have hstart : 2 * half * 2 ^ (l' + 1 + k) = 2 * (half * 2 ^ k) * (2 * 2 ^ l') := by rw [hpow]; ring
    have hbelow : half' * (2 * 2 ^ l') ≤ 2 * (half * 2 ^ k) * (2 * 2 ^ l') := by
      calc half' * (2 * 2 ^ l') = 2 * half' * 2 ^ l' := by ring
        _ ≤ 2 * half * 2 ^ (l' + 1 + k) := hlow
        _ = 2 * (half * 2 ^ k) * (2 * 2 ^ l') := hstart
    have hq : half' ≤ 2 * (half * 2 ^ k) := Nat.le_of_mul_le_mul_right hbelow (by omega)
    have hcover : (half' + 1) * (2 * 2 ^ l') ≤ (2 * half + 1) * 2 ^ k * (2 * 2 ^ l') := by
      apply Nat.mul_le_mul_right
      have hexpand : (2 * half + 1) * 2 ^ k = 2 * (half * 2 ^ k) + 2 ^ k := by ring
      omega
    have hend : (2 * half' + 2) * 2 ^ l' = (half' + 1) * (2 * 2 ^ l') := by ring
    have hend' : (2 * half + 1) * 2 ^ (l' + 1 + k) = (2 * half + 1) * 2 ^ k * (2 * 2 ^ l') := by rw [hpow]; ring
    omega

/-- The peaks of a truncated size are peaks of the whole size, in tiles that
both sizes cut in the same way. -/
theorem truncated_peak {big k level number : Nat} (heven : 2 ∣ number)
    (hfit : (number + 1) * 2 ^ level ≤ big / 256 ^ k * 256 ^ k)
    (hlast : big / 256 ^ k * 256 ^ k < (number + 2) * 2 ^ level) :
    8 * k ≤ level ∧ (number + 1) * 2 ^ level ≤ big ∧ big < (number + 2) * 2 ^ level := by
  have hbase : 256 ^ k = 2 ^ (8 * k) := by rw [pow_mul]; rfl
  have hdiv := Nat.div_add_mod' big (256 ^ k)
  have hmod := Nat.mod_lt big (Nat.pow_pos (n := k) (show 0 < 256 by omega))
  obtain ⟨half, rfl⟩ := heven
  have hlevel : 8 * k ≤ level := by
    by_contra hlt
    obtain ⟨j, hj⟩ : ∃ j, 8 * k = level + 1 + j := ⟨8 * k - (level + 1), by omega⟩
    have hpow : 256 ^ k = 2 ^ j * (2 * 2 ^ level) := by rw [hbase, hj]; ring
    rw [hpow, ← mul_assoc] at hfit hlast
    have h1 : half * (2 * 2 ^ level) < big / (2 ^ j * (2 * 2 ^ level)) * 2 ^ j * (2 * 2 ^ level) := by
      have hpos := Nat.two_pow_pos level
      have hodd : (2 * half + 1) * 2 ^ level = half * (2 * 2 ^ level) + 2 ^ level := by ring
      omega
    have h2 : big / (2 ^ j * (2 * 2 ^ level)) * 2 ^ j * (2 * 2 ^ level) < (half + 1) * (2 * 2 ^ level) := by
      calc _ < (2 * half + 2) * 2 ^ level := hlast
        _ = (half + 1) * (2 * 2 ^ level) := by ring
    have h3 := Nat.lt_of_mul_lt_mul_right h1
    have h4 := Nat.lt_of_mul_lt_mul_right h2
    omega
  refine ⟨hlevel, by omega, ?_⟩
  obtain ⟨j, rfl⟩ : ∃ j, level = 8 * k + j := ⟨level - 8 * k, by omega⟩
  have hend : (2 * half + 2) * 2 ^ (8 * k + j) = (2 * half + 2) * 2 ^ j * 256 ^ k := by rw [hbase]; ring
  rw [hend] at hlast ⊢
  have hquot : big / 256 ^ k + 1 ≤ (2 * half + 2) * 2 ^ j := Nat.lt_of_mul_lt_mul_right hlast
  have hcover := Nat.mul_le_mul_right (256 ^ k) hquot
  rw [add_mul, one_mul] at hcover
  omega

variable {sha256 : Bytes → Bytes} {c : Client}

theorem Reads.unique {size : Option Nat} {index : Nat} {a b : Bytes}
    (ha : Reads sha256 c size index a) (hb : Reads sha256 c size index b) : a = b := by
  obtain ⟨t, data, ht, hl, hh⟩ := ha
  obtain ⟨t', data', ht', hl', hh'⟩ := hb
  rw [ht] at ht'
  cases ht'
  rw [hl] at hl'
  cases hl'
  rw [hh] at hh'
  exact Except.ok.inj hh'

theorem reads_unique {size : Option Nat} {indexes : List Nat}
    {parts others : List Bytes} (h : List.Forall₂ (Reads sha256 c size) indexes parts)
    (h' : List.Forall₂ (Reads sha256 c size) indexes others) : parts = others := by
  induction h generalizing others with
  | nil =>
    cases h'
    rfl
  | cons hread _ ih =>
    cases h' with
    | cons hread' hrest => rw [hread.unique hread', ih hrest]

theorem Reads.truncated {big k level number : Nat} {digest : Bytes}
    (hlevel : 8 * k ≤ level)
    (h : Reads sha256 c (some (big / 256 ^ k * 256 ^ k)) (storedHashIndex level number) digest) :
    Reads sha256 c (some big) (storedHashIndex level number) digest := by
  obtain ⟨t, data, ht, hl, hh⟩ := h
  refine ⟨t, data, ?_, hl, hh⟩
  rw [← ht, tileForIndex_storedHashIndex]
  obtain ⟨j, hj⟩ : ∃ j, level / 8 * 8 = 8 * k + 8 * j := ⟨level / 8 - k, by omega⟩
  have hbase : 2 ^ (level / 8 * 8) = 256 ^ k * 256 ^ j := by
    rw [hj, pow_add, pow_mul, pow_mul]
    rfl
  have hrows : big / 256 ^ k * 256 ^ k / 2 ^ (level / 8 * 8) = big / 2 ^ (level / 8 * 8) := by
    rw [hbase, ← Nat.div_div_eq_div_mul, ← Nat.div_div_eq_div_mul,
      Nat.mul_div_cancel _ (Nat.pow_pos (show 0 < 256 by omega))]
  simp only [clampTile, tileHeight, Nat.shiftRight_eq_div_pow, hrows]

/-- Two heads that one cache supports belong to one log when the smaller size
is a truncation of the larger one. -/
theorem HeadRead.truncated (model : HashModel sha256) {small big : TreeHead}
    (hsmall : HeadRead sha256 c small) (hbig : HeadRead sha256 c big) (h : Truncated small.size big.size) :
    PrefixHead sha256 small big := by
  intro records hlen hroot
  obtain ⟨k, hk⟩ := h
  have hle : small.size ≤ big.size := by
    rw [hk]
    exact Nat.div_mul_le_self _ _
  have hleaves : ∀ x ∈ records.map (recordHash sha256), x.length = 32 := mem_records_length model.length
  have hcount : (records.map (recordHash sha256)).length = big.size := by rw [List.length_map, hlen]
  rcases hsmall with ⟨hzero, hhash⟩ | ⟨hpos, parts, hparts, hjoin⟩
  · rw [hzero, hhash]
    exact Merkle.root_nil _ _
  · rw [← hjoin, recordsHash, List.map_take]
    have hpeaks : ∀ level number digest, 2 ∣ number → (number + 1) * 2 ^ level ≤ small.size →
        small.size < (number + 2) * 2 ^ level →
        Reads sha256 c (some small.size) (storedHashIndex level number) digest →
        digest = Merkle.subtree (nodeHash sha256) (sha256 []) (records.map (recordHash sha256)) level number := by
      intro level number digest heven hfit hlast hread
      rw [hk] at hfit hlast hread
      obtain ⟨hlevel, hfit', hlast'⟩ := truncated_peak heven hfit hlast
      have hpow := Nat.two_pow_pos level
      have hin : number * 2 ^ level < big.size := by
        rw [add_mul] at hfit'
        omega
      obtain ⟨l, n, heven₂, hlow₂, hhigh₂, hfit₂, hlast₂, hread₂⟩ := hbig.peak model hleaves hcount hroot hin
      obtain ⟨rfl, rfl⟩ := peak_unique heven heven₂ hfit' hlast' hfit₂ hlast₂ hlow₂ hhigh₂
      exact (hread.truncated hlevel).unique hread₂
    exact (joinHashes_complete sha256 (by rw [hcount]; exact hle) hpeaks (Nat.le_of_eq (Nat.sub_zero _))
      (aligned_zero small.size) hpos hparts).symm

theorem HeadRead.same_size {a b : TreeHead} (ha : HeadRead sha256 c a)
    (hb : HeadRead sha256 c b) (h : a.size = b.size) : a.hash = b.hash := by
  rcases ha with ⟨hzero, hhash⟩ | ⟨hpos, parts, hparts, hjoin⟩
  · rcases hb with ⟨_, hhash'⟩ | ⟨hpos', _⟩
    · rw [hhash, hhash']
    · omega
  · rcases hb with ⟨hzero', _⟩ | ⟨_, parts', hparts', hjoin'⟩
    · omega
    · rw [← h] at hparts'
      rw [← hjoin, ← hjoin', reads_unique hparts hparts']

theorem verifyHeads_ok {ed25519Verify : Bytes → Bytes → Bytes → Bool}
    {environment : Environment} {query : Query} {file : StateFile} {accepted : Accepted}
    (h : (verifyHeads sha256 ed25519Verify environment query c file).1 = .ok accepted) :
    ∃ stored found m e, storedHead file = .ok stored ∧
      checkHeads sha256 ed25519Verify environment.server stored found accepted.lookupHead m =
        (.ok accepted.latest, e) := by
  unfold verifyHeads at h
  split at h
  next => simp at h
  next found lookupHead m hlookup =>
    split at h
    next => simp at h
    next =>
      split at h
      next => simp at h
      next stored hstored =>
        split at h
        next => simp at h
        next latest e hcheck =>
          split at h
          next =>
            split at h
            next =>
              cases h
              exact ⟨stored, found, m, e, hstored, hcheck⟩
            next => simp at h
          next =>
            cases h
            exact ⟨stored, found, m, e, hstored, hcheck⟩

/-- The latest head continues the stored one. The head of the lookup is tied to
it by the tiles that both sizes share: the hashes agree at one size, and a
truncated size gives a prefix. -/
theorem verify_heads_tied {sha256 : Bytes → Bytes} (model : HashModel sha256)
    {ed25519Verify : Bytes → Bytes → Bytes → Bool} {environment : Environment} {query : Query} {c : Client}
    {file : StateFile} {accepted : Accepted}
    (h : (verifyHeads sha256 ed25519Verify environment query c file).1 = .ok accepted) :
    (∀ stored, storedHead file = .ok (some stored) →
        stored.size ≤ accepted.latest.size ∧ PrefixHead sha256 stored accepted.latest) ∧
      (accepted.lookupHead.size = accepted.latest.size → accepted.lookupHead.hash = accepted.latest.hash) ∧
      (Truncated accepted.lookupHead.size accepted.latest.size →
        PrefixHead sha256 accepted.lookupHead accepted.latest) ∧
      (Truncated accepted.latest.size accepted.lookupHead.size →
        PrefixHead sha256 accepted.latest accepted.lookupHead) := by
  obtain ⟨stored, found, m, e, hstored, hcheck⟩ := verifyHeads_ok h
  obtain ⟨m₁, m₂, m₃, m₄, response, text, hhead, hrecord, hfetch, _, _, hlast, hconsistent⟩ := checkHeads_ok hcheck
  obtain ⟨_, hlookup⟩ := verifyHead_ok hhead
  obtain ⟨hkeeps₂, _⟩ := verifyRecordInclusion_ok hrecord
  obtain ⟨htiles, _⟩ := fetch_keeps_tiles hfetch
  obtain ⟨hkeeps₄, hlatest⟩ := verifyHead_ok hlast
  have hkeeps : Keeps m₁ m₄ := by
    intro t data hl
    apply hkeeps₄
    rw [htiles]
    exact hkeeps₂ t data hl
  have hlookup' := hlookup.mono hkeeps
  refine ⟨?_, hlookup'.same_size hlatest, hlookup'.truncated model hlatest, hlatest.truncated model hlookup'⟩
  intro head hhead
  rw [hhead] at hstored
  cases hstored
  exact verifyConsistency_prefix model (hconsistent head rfl)

theorem verify_heads_tied_sample :
    PrefixHead (tableHash lookupTable) ⟨1, leafR, rfl⟩ ⟨2, nodeRB, rfl⟩ := by
  have hrun : (verifyHeads (tableHash lookupTable) (signs [⟨1, leafR, rfl⟩, ⟨2, nodeRB, rfl⟩])
      ⟨twoHeadsServer ⟨1, leafR, rfl⟩ ⟨2, nodeRB, rfl⟩ (leafR ++ leafB), true, true, .done⟩ sampleQuery {}
      (headPayload ⟨1, leafR, rfl⟩)).1 = .ok ⟨codes "h1:c2FtcGxl", ⟨1, leafR, rfl⟩, ⟨2, nodeRB, rfl⟩⟩ := by
    decide +kernel
  have hoctets : ∀ x ∈ leafR, x < 256 := by decide +kernel
  have hstored : storedHead (headPayload ⟨1, leafR, rfl⟩) = .ok (some ⟨1, leafR, rfl⟩) :=
    storedHead_headPayload hoctets
  obtain ⟨hcontinues, _⟩ := verify_heads_tied (tableHash_model lookupTable_valid) hrun
  exact (hcontinues _ hstored).2

/-- A signed lookup in one log, accepted while the head of another log is
checked and persisted. -/
theorem lookup_head_of_another_log :
    HashModel (tableHash lookupTable) ∧
      (verifyHeads (tableHash lookupTable) (signs [⟨1, leafR, rfl⟩, ⟨2, nodeAB, rfl⟩])
        ⟨twoHeadsServer ⟨1, leafR, rfl⟩ ⟨2, nodeAB, rfl⟩ (leafA ++ leafB), true, true, .done⟩ sampleQuery {}
        .missing).1 = .ok ⟨codes "h1:c2FtcGxl", ⟨1, leafR, rfl⟩, ⟨2, nodeAB, rfl⟩⟩ ∧
      (verifyHeads (tableHash lookupTable) (signs [⟨1, leafR, rfl⟩, ⟨2, nodeAB, rfl⟩])
        ⟨twoHeadsServer ⟨1, leafR, rfl⟩ ⟨2, nodeAB, rfl⟩ (leafA ++ leafB), true, true, .done⟩ sampleQuery {}
        .missing).2.2 = headPayload ⟨2, nodeAB, rfl⟩ ∧
      ¬ ∃ records : List Bytes, 2 ≤ records.length ∧
        recordsHash (tableHash lookupTable) (records.take 1) = leafR ∧
        recordsHash (tableHash lookupTable) (records.take 2) = nodeAB := by
  have model := tableHash_model lookupTable_valid
  refine ⟨model, by decide +kernel, by decide +kernel, ?_⟩
  rintro ⟨records, hlen, hone, htwo⟩
  match records, hlen with
  | x :: y :: rest, _ =>
    have hfirst : recordHash (tableHash lookupTable) x = leafR := (Merkle.root_singleton _ _ _).symm.trans hone
    have hnode : nodeHash (tableHash lookupTable) (recordHash (tableHash lookupTable) x)
        (recordHash (tableHash lookupTable) y) = nodeAB := (Merkle.root_pair _ _ _ _).symm.trans htwo
    have hknown : nodeAB = nodeHash (tableHash lookupTable) leafA leafB := by decide +kernel
    obtain ⟨hx, _⟩ := model.node_injective _ _ _ _ (model.length _) (model.length _) rfl rfl
      (hnode.trans hknown)
    have hsame : leafR = leafA := hfirst.symm.trans hx
    exact absurd hsame (by decide +kernel)

end Leitir.Sumdb
