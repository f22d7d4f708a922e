import Leitir.SumdbHonest

namespace Leitir.Sumdb

open List

section

variable {sha256 : Bytes → Bytes} {server : Server}

def HeadRead (sha256 : Bytes → Bytes) (c : Client) (head : TreeHead) : Prop :=
  (head.size = 0 ∧ head.hash = sha256 []) ∨
    0 < head.size ∧ ∃ parts, List.Forall₂ (Reads sha256 c (some head.size)) (subtreeIndexes head.size) parts ∧
      joinHashes sha256 parts = head.hash

def Keeps (c d : Client) : Prop := ∀ t data, c.tiles.lookup t = some data → d.tiles.lookup t = some data

variable {c d : Client} {head : TreeHead}

theorem HeadRead.mono (h : HeadRead sha256 c head) (hk : Keeps c d) :
    HeadRead sha256 d head := by
  rcases h with hzero | ⟨hpos, parts, hparts, hjoin⟩
  · exact Or.inl hzero
  · refine Or.inr ⟨hpos, parts, hparts.imp ?_, hjoin⟩
    rintro index digest ⟨clamped, data, hc, hl, hh⟩
    exact ⟨clamped, data, hc, hk _ _ hl, hh⟩

theorem verifyHead_ok (h : verifyHead sha256 server head c = (.ok (), d)) :
    Keeps c d ∧ HeadRead sha256 d head := by
  obtain ⟨m, hbody, rfl⟩ := withTreeSize_ok h
  obtain ⟨computed, m', htree, hbody⟩ := bind_ok.mp hbody
  obtain ⟨heq, hbody⟩ := guard_ok.mp hbody
  obtain ⟨_, rfl⟩ := pure_ok.mp hbody
  rw [not_not] at heq
  unfold treeHash at htree
  split at htree
  next hzero =>
    obtain ⟨rfl, rfl⟩ := pure_ok.mp htree
    exact ⟨fun _ _ hl => hl, Or.inl ⟨hzero, heq.symm⟩⟩
  next hpos =>
    obtain ⟨parts, m'', hparts, htree⟩ := bind_ok.mp htree
    obtain ⟨rfl, rfl⟩ := pure_ok.mp htree
    obtain ⟨hg, hread⟩ := hashes_ok hparts
    exact ⟨hg.2, Or.inr ⟨Nat.pos_of_ne_zero hpos, parts, hread, heq⟩⟩

theorem verifyRecordInclusion_ok {leaf : Nat} {record : Bytes}
    (h : verifyRecordInclusion sha256 server head leaf record c = (.ok (), d)) :
    Keeps c d ∧ Reads sha256 d (some head.size) (storedHashIndex 0 leaf) (recordHash sha256 record) := by
  obtain ⟨m, hbody, rfl⟩ := withTreeSize_ok h
  obtain ⟨stored, m', hread, hbody⟩ := bind_ok.mp hbody
  obtain ⟨heq, hbody⟩ := guard_ok.mp hbody
  obtain ⟨_, rfl⟩ := pure_ok.mp hbody
  rw [not_not] at heq
  subst heq
  obtain ⟨hg, hr⟩ := hash_ok hread
  exact ⟨hg.2, hr⟩

theorem HeadRead.peak (model : HashModel sha256) (h : HeadRead sha256 c head)
    {leaves : List Bytes} (hleaves : ∀ x ∈ leaves, x.length = 32) (hlen : leaves.length = head.size)
    (hroot : Merkle.root (nodeHash sha256) (sha256 []) leaves = head.hash) {p : Nat} (hp : p < head.size) :
    ∃ level number, 2 ∣ number ∧ number * 2 ^ level ≤ p ∧ p < (number + 1) * 2 ^ level ∧
      (number + 1) * 2 ^ level ≤ head.size ∧ head.size < (number + 2) * 2 ^ level ∧
      Reads sha256 c (some head.size) (storedHashIndex level number)
        (Merkle.subtree (nodeHash sha256) (sha256 []) leaves level number) := by
  rcases h with ⟨hzero, _⟩ | ⟨_, parts, hparts, hjoin⟩
  · omega
  · obtain ⟨level, number, h0, h1, h2, _, h4, h5, h6⟩ := joinHashes_sound model
      (fun level number digest hd => Reads.length model hd) (Nat.le_of_eq (Nat.sub_zero _))
      (aligned_zero head.size) (by omega) hleaves hparts (fun _ => by rw [hjoin, hroot]) p (Nat.zero_le p) hp
    rw [Nat.sub_zero] at h6
    exact ⟨level, number, h0, h1, h2, h4, h5, h6⟩

end

variable {leaf : Nat}

theorem clampTile_lowest {size width : Nat} {t : Tile}
    (h : clampTile (some size) ⟨0, leaf / 256, width⟩ = .ok t) :
    leaf / 256 * 256 < size ∧ t = ⟨0, leaf / 256, min 256 (size - leaf / 256 * 256)⟩ := by
  simp only [clampTile, tileHeight, Nat.shiftLeft_eq, Nat.shiftRight_eq_div_pow, Nat.zero_mul, pow_zero,
    Nat.div_one, show (2 : Nat) ^ 8 = 256 from rfl, one_mul] at h
  split at h
  next => simp at h
  next hlt => exact ⟨by omega, (Except.ok.inj h).symm⟩

/-- A record in the last, partial tile is tied to the head: the head check has
read the same tile. -/
theorem inclusion_last_tile {sha256 : Bytes → Bytes} (model : HashModel sha256) {c : Client} {head : TreeHead} {record : Bytes} (hhead : HeadRead sha256 c head)
    (hread : Reads sha256 c (some head.size) (storedHashIndex 0 leaf) (recordHash sha256 record))
    (hlastTile : head.size / 256 ≤ leaf / 256) {records : List Bytes} (hlen : records.length = head.size)
    (hroot : recordsHash sha256 records = head.hash) : records[leaf]? = some record := by
  obtain ⟨t, data, hclamp, hl, hcell, hdata, hrecord⟩ := hread.cells
  simp only [Nat.zero_mod, Nat.zero_div, pow_zero, mul_one] at hclamp hcell hrecord
  obtain ⟨hstart, rfl⟩ := clampTile_lowest hclamp
  dsimp only at hcell hdata
  have hleaf : leaf < head.size := by omega
  have hleaves : ∀ x ∈ records.map (recordHash sha256), x.length = 32 := mem_records_length model.length
  have hcount : (records.map (recordHash sha256)).length = head.size := by rw [length_map, hlen]
  obtain ⟨level, number, _, hlow, hhigh, hfit, _, hpeak⟩ := hhead.peak model hleaves hcount hroot hleaf
  have hlevel : level < 8 := by
    by_contra hbig
    obtain ⟨k, hk⟩ : 256 ∣ (number + 1) * 2 ^ level :=
      dvd_mul_of_dvd_right (Nat.pow_dvd_pow 2 (show 8 ≤ level by omega)) _
    omega
  obtain ⟨t', data', hclamp', hl', hcell', hdata', hsub⟩ := hpeak.cells
  rw [Nat.mod_eq_of_lt hlevel, Nat.div_eq_of_lt hlevel] at hclamp'
  rw [Nat.mod_eq_of_lt hlevel] at hcell' hsub
  obtain ⟨hstart', rfl⟩ := clampTile_lowest hclamp'
  have hpos := Nat.two_pow_pos level
  rw [add_mul, one_mul] at hfit hhigh
  dsimp only at hcell'
  have hblock : number * 2 ^ level / 256 = leaf / 256 := by omega
  rw [hblock] at hl' hcell'
  have hsame : data' = data := Option.some.inj (hl'.symm.trans hl)
  subst hsame
  have hslice : ((records.map (recordHash sha256)).drop (number * 2 ^ level)).take (2 ^ level) =
      cellRange data' (number * 2 ^ level % 256) (2 ^ level) := by
    apply root_leaves_unique model
    · exact fun x hx => hleaves x (mem_of_mem_drop (mem_of_mem_take hx))
    · exact mem_cellRange_length hdata hcell'
    · rw [cellRange_length, length_take, length_drop]
      omega
    · exact hsub
  have hindex : (records.map (recordHash sha256))[leaf]? = some (recordHash sha256 record) := by
    have hat := congrArg (fun xs => xs[leaf - number * 2 ^ level]?) hslice
    rw [getElem?_take_of_lt (by omega), getElem?_drop,
      show number * 2 ^ level + (leaf - number * 2 ^ level) = leaf by omega,
      cellRange_getElem? data' (by omega),
      show number * 2 ^ level % 256 + (leaf - number * 2 ^ level) = leaf % 256 by omega] at hat
    rw [hat, hrecord, cellRange, range'_one, map_singleton, Merkle.root_singleton]
  rw [getElem?_map] at hindex
  obtain ⟨other, hother, hhash⟩ := Option.map_eq_some_iff.mp hindex
  rw [hother, model.record_injective _ _ hhash]

def Answers (server : Server) : Prop :=
  ∀ (t : Tile) (history : List (List Char)),
    ∃ data : Bytes, server (t.path :: history) = .body data ∧ data.length = t.width * 32

/-- A record accepted at a position, after the head was accepted, stands there
in every sequence of records behind the head. -/
def InclusionSound (sha256 : Bytes → Bytes) (size leaf : Nat) : Prop :=
  ∀ (server : Server) (head : TreeHead) (record : Bytes) (c m d : Client), Answers server → head.size = size →
    verifyHead sha256 server head c = (.ok (), m) →
    verifyRecordInclusion sha256 server head leaf record m = (.ok (), d) →
    ∀ records : List Bytes, records.length = head.size → recordsHash sha256 records = head.hash →
      records[leaf]? = some record

section

variable (sha256 : Bytes → Bytes) (leaves : List Bytes) (target : Tile) (forged : Bytes)

def forgedAnswer (t : Tile) : Bytes := if t = target then forged else tileData sha256 leaves t

open Classical in
/-- The server that answers so; a path is the path of one tile only. -/
noncomputable def forgingServer : Server
  | [] => .crash
  | path :: _ =>
    if h : ∃ t : Tile, t.path = path then .body (forgedAnswer sha256 leaves target forged h.choose) else .crash

theorem forgingServer_path (t : Tile) (history : List (List Char)) :
    forgingServer sha256 leaves target forged (t.path :: history) =
      .body (forgedAnswer sha256 leaves target forged t) := by
  have hex : ∃ s : Tile, s.path = t.path := ⟨t, rfl⟩
  have hchoice : hex.choose = t := Tile.path_injective hex.choose_spec
  simp only [forgingServer, dif_pos hex, hchoice]

variable {sha256 leaves target forged} (hsha : ∀ data, (sha256 data).length = 32)
  (hleaves : ∀ x ∈ leaves, x.length = 32) (hforged : forged.length = target.width * 32)

include hsha hleaves hforged

theorem forgedAnswer_length (t : Tile) :
    (forgedAnswer sha256 leaves target forged t).length = t.width * 32 := by
  unfold forgedAnswer
  split
  next heq => rw [heq, hforged]
  next => exact tileData_length hsha hleaves t

theorem forgingServer_answers : Answers (forgingServer sha256 leaves target forged) := by
  intro t history
  exact ⟨_, forgingServer_path sha256 leaves target forged t history, forgedAnswer_length hsha hleaves hforged t⟩

end

theorem flatten_replicate_length {x : Bytes} (hx : x.length = 32) (count : Nat) :
    (List.replicate count x).flatten.length = count * 32 := by
  rw [length_flatten, map_replicate, sum_replicate_nat, hx]

theorem cell_flatten_replicate {x : Bytes} (hx : x.length = 32) {count i : Nat} (hi : i < count) :
    cell (List.replicate count x).flatten i = x := by
  rw [cell_flatten (fun y hy => (eq_of_mem_replicate hy).symm ▸ hx) (by rwa [length_replicate]),
    getElem_replicate]

/-- A full tile of the lowest level is read for the record only, so a server
may put any record there. -/
theorem inclusion_forged {sha256 : Bytes → Bytes} (hsha : ∀ data, (sha256 data).length = 32) {size : Nat}
    (hfull : leaf / 256 < size / 256) (record other : Bytes) :
    ∃ (server : Server) (head : TreeHead) (m d : Client) (records : List Bytes), Answers server ∧ head.size = size ∧
      verifyHead sha256 server head {} = (.ok (), m) ∧
      verifyRecordInclusion sha256 server head leaf record m = (.ok (), d) ∧
      records.length = head.size ∧ recordsHash sha256 records = head.hash ∧ records[leaf]? = some other := by
  have hleaves : ∀ x ∈ (List.replicate size other).map (recordHash sha256), x.length = 32 :=
    mem_records_length hsha
  have hlen : ((List.replicate size other).map (recordHash sha256)).length = size := by simp
  have hforged : (List.replicate 256 (recordHash sha256 record)).flatten.length =
      (⟨0, leaf / 256, 256⟩ : Tile).width * 32 := flatten_replicate_length (hsha _) 256
  obtain ⟨head, hsize, hroot⟩ : ∃ head : TreeHead, head.size = size ∧
      recordsHash sha256 (List.replicate size other) = head.hash :=
    ⟨⟨size, _, root_length hsha hleaves⟩, rfl, rfl⟩
  let answer := forgedAnswer sha256 ((List.replicate size other).map (recordHash sha256))
    ⟨0, leaf / 256, 256⟩ (List.replicate 256 (recordHash sha256 record)).flatten
  let server := forgingServer sha256 ((List.replicate size other).map (recordHash sha256))
    ⟨0, leaf / 256, 256⟩ (List.replicate 256 (recordHash sha256 record)).flatten
  have hs : Serves answer (fun t => t.width ≤ 256) server := by
    intro t _ history
    exact forgingServer_path _ _ _ _ t history
  have hfits : Fits answer (fun t => t.width ≤ 256) := by
    intro t ht
    exact ⟨forgedAnswer_length hsha hleaves hforged t, ht⟩
  have htrue : ∀ t : Tile, InTree ((List.replicate size other).map (recordHash sha256)) t → t.width < 256 →
      t.width ≤ 256 ∧ answer t = tileData sha256 ((List.replicate size other).map (recordHash sha256)) t := by
    intro t _ hw
    refine ⟨hw.le, if_neg ?_⟩
    rintro rfl
    exact absurd hw (by simp)
  have hhash : head.hash = Merkle.root (nodeHash sha256) (sha256 [])
      (((List.replicate size other).map (recordHash sha256)).take head.size) := by
    rw [hsize, take_of_length_le hlen.le]
    exact hroot.symm
  obtain ⟨_, m, hrun, hm, _⟩ := verifyHead_honest hsha hleaves hs hfits (by rw [hlen, hsize]) htrue hhash {}
    (fun t _ data hl => by simp at hl)
  have hread : Returns (HoldsAt answer (fun t => t.width ≤ 256) head.size)
      (hash sha256 server (storedHashIndex 0 leaf)) (· = recordHash sha256 record) := by
    have hsel : clampTile (some head.size) ⟨0 / 8, leaf * 2 ^ (0 % 8) / 256,
        leaf * 2 ^ (0 % 8) % 256 + 2 ^ (0 % 8)⟩ = .ok ⟨0 / 8, leaf * 2 ^ (0 % 8) / 256, 256⟩ := by
      obtain ⟨width, hclamp, _, _, _, _, hwidth⟩ := clampTile_fits
        (show (leaf + 1) * 2 ^ 0 ≤ head.size by rw [pow_zero]; omega)
      have hw : width = 256 := by
        simp only [Nat.zero_mod, Nat.zero_div, Nat.zero_mul, pow_zero, mul_one, Nat.div_one] at hwidth
        omega
      rw [hclamp, hw]
    have hrun := hash_serves hs hfits sha256 hsel (by rw [Nat.zero_mod, pow_zero]; omega) le_rfl
    simp only [Nat.zero_mod, Nat.zero_div, pow_zero, mul_one, cellRange, range'_one, map_singleton,
      Merkle.root_singleton] at hrun
    apply hrun.imp
    intro digest hd
    rw [hd]
    simp only [answer, forgedAnswer, if_pos]
    exact cell_flatten_replicate (hsha _) (Nat.mod_lt _ (by omega))
  have hinclusion : Returns (Holds answer fun t => t.width ≤ 256)
      (verifyRecordInclusion sha256 server head leaf record) (fun _ => True) := by
    apply withTreeSize_returns
    apply Returns.bind hread
    intro stored hstored
    exact Returns.guard (not_not.mpr hstored) (returns_pure trivial)
  obtain ⟨_, d, hrun', _, _⟩ := hinclusion m hm
  refine ⟨server, head, m, d, List.replicate size other, forgingServer_answers hsha hleaves hforged, hsize, hrun,
    hrun', by rw [length_replicate, hsize], hroot, ?_⟩
  rw [getElem?_replicate, if_pos (by omega)]

/-- The checks tie the record to the head exactly at the positions of the last,
partial tile, and behind the end of the tree where no record is accepted. -/
theorem inclusionSound_iff {sha256 : Bytes → Bytes} (model : HashModel sha256) (size leaf : Nat) :
    InclusionSound sha256 size leaf ↔ size / 256 ≤ leaf / 256 := by
  constructor
  · intro h
    by_contra hfull
    obtain ⟨server, head, m, d, records, hanswers, hsize, hhead, hinclusion, hlen, hroot, hother⟩ :=
      inclusion_forged model.length (show leaf / 256 < size / 256 by omega) [0] []
    have hrecord := h server head [0] {} m d hanswers hsize hhead hinclusion records hlen hroot
    rw [hother] at hrecord
    exact absurd hrecord (by simp)
  · intro hlastTile server head record c m d _ hsize hhead hinclusion records hlen hroot
    obtain ⟨_, hread⟩ := verifyHead_ok hhead
    obtain ⟨hkeeps, hstored⟩ := verifyRecordInclusion_ok hinclusion
    exact inclusion_last_tile model (hread.mono hkeeps) hstored (by rw [hsize]; exact hlastTile) hlen hroot

theorem inclusionSound_iff_sample : InclusionSound (tableHash sampleTable) 300 299 :=
  (inclusionSound_iff (tableHash_model sampleTable_valid) 300 299).mpr (by decide)

def level1 : Bytes :=
  [128, 37, 222, 116, 123, 175, 226, 86, 13, 107, 153, 27, 219, 23, 202, 137, 239, 225, 182, 254,
  221, 161, 190, 32, 156, 14, 224, 21, 51, 136, 97, 234]

def level2 : Bytes :=
  [225, 103, 154, 216, 248, 124, 141, 247, 154, 224, 248, 93, 113, 126, 38, 251, 255, 226, 186,
  84, 220, 44, 109, 170, 234, 67, 195, 90, 158, 70, 69, 12]

def level3 : Bytes :=
  [114, 239, 33, 176, 3, 59, 230, 59, 116, 186, 129, 235, 61, 141, 26, 16, 193, 100, 46, 55, 113,
  84, 36, 228, 230, 136, 29, 228, 114, 50, 75, 134]

def level4 : Bytes :=
  [10, 73, 156, 201, 36, 179, 23, 111, 158, 121, 119, 42, 32, 163, 190, 131, 189, 16, 3, 89, 131,
  58, 14, 46, 201, 163, 157, 238, 217, 141, 3, 49]

def level5 : Bytes :=
  [215, 162, 155, 29, 130, 217, 177, 182, 62, 177, 181, 120, 228, 24, 83, 94, 153, 56, 242, 71,
  130, 186, 10, 66, 22, 137, 206, 36, 167, 160, 49, 187]

def level6 : Bytes :=
  [176, 198, 176, 175, 149, 124, 227, 205, 215, 132, 172, 240, 102, 150, 82, 207, 100, 88, 134,
  77, 111, 183, 51, 150, 19, 97, 11, 79, 207, 4, 129, 182]

def level7 : Bytes :=
  [157, 44, 174, 254, 47, 216, 70, 94, 108, 203, 187, 138, 78, 47, 14, 51, 225, 73, 222, 122, 35,
  186, 81, 208, 176, 80, 205, 83, 233, 233, 86, 250]

def level8 : Bytes :=
  [247, 193, 151, 225, 249, 215, 144, 113, 227, 224, 202, 167, 129, 133, 42, 154, 232, 121, 145,
  190, 120, 9, 52, 165, 194, 205, 73, 172, 9, 201, 58, 4]

def perfectTable : List (Bytes × Bytes) :=
  [([0, 97], leafA), ([0, 98], leafB), (1 :: (leafA ++ leafA), level1), (1 :: (level1 ++ level1), level2),
    (1 :: (level2 ++ level2), level3), (1 :: (level3 ++ level3), level4), (1 :: (level4 ++ level4), level5),
    (1 :: (level5 ++ level5), level6), (1 :: (level6 ++ level6), level7), (1 :: (level7 ++ level7), level8)]

/-- The true tile above the log of 256 records `a`, and below it a tile of records `b`. -/
def swappingServer : Server
  | [] => .crash
  | path :: _ =>
    if path = (⟨1, 0, 1⟩ : Tile).path then .body level8 else .body (List.replicate 256 leafB).flatten

theorem inclusion_accepts_swapped_record :
    HashModel (tableHash perfectTable) ∧
      (verifyHead (tableHash perfectTable) swappingServer ⟨256, level8, rfl⟩ {}).1 = .ok () ∧
      (verifyRecordInclusion (tableHash perfectTable) swappingServer ⟨256, level8, rfl⟩ 0 [98]
        (verifyHead (tableHash perfectTable) swappingServer ⟨256, level8, rfl⟩ {}).2).1 = .ok () ∧
      (List.replicate 256 [97]).length = 256 ∧
      recordsHash (tableHash perfectTable) (List.replicate 256 [97]) = level8 ∧
      (List.replicate 256 [97])[0]? ≠ some [98] := by
  refine ⟨tableHash_model (by decide +kernel), by decide +kernel, by decide +kernel, length_replicate, ?_,
    by decide +kernel⟩
  have hroot := Merkle.root_replicate (nodeHash (tableHash perfectTable)) (tableHash perfectTable [])
    (recordHash (tableHash perfectTable) [97]) 8
  rw [recordsHash, map_replicate]
  refine hroot.trans ?_
  decide +kernel

end Leitir.Sumdb
