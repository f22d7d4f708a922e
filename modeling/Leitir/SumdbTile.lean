import Leitir.SumdbIndex
import Leitir.MerkleRoot
import Mathlib.Logic.Equiv.List

namespace Leitir.Sumdb

open Bits List Merkle

/-- Byte strings. Octets are natural numbers without the bound 256, so that a
digest of 32 of them can be assumed free of collisions. -/
abbrev Bytes := List Nat

def tileHeight : Nat := 8

structure TreeHead where
  size : Nat
  hash : Bytes
  hash_length : hash.length = 32
deriving DecidableEq

structure Tile where
  level : Nat
  number : Nat
  width : Nat
deriving DecidableEq, Repr

inductive Failure where
  | verification (message : String)
  | value (message : String)
  | other
deriving DecidableEq, Repr

section

variable (sha256 : Bytes → Bytes)

def nodeHash (left right : Bytes) : Bytes := sha256 (1 :: (left ++ right))

def recordHash (data : Bytes) : Bytes := sha256 (0 :: data)

/-- The hash of the stored hashes in a tile slice; the budget is its length. -/
def tileHashLoop : Nat → Bytes → Bytes
  | 0, data => data
  | fuel + 1, data =>
    if data.length = 32 then data
    else
      let middle := data.length / 2
      nodeHash sha256 (tileHashLoop fuel (data.take middle)) (tileHashLoop fuel (data.drop middle))

def tileHash (data : Bytes) : Bytes := tileHashLoop sha256 data.length data

def recordsHash (records : List Bytes) : Bytes :=
  root (nodeHash sha256) (sha256 []) (records.map (recordHash sha256))

end

def maxpow2 (value : Nat) : Nat := 1 <<< (bitLength (value - 1) - 1)

def tileForIndex (index : Nat) : Tile × Nat × Nat :=
  let (level, number) := splitStoredHashIndex index
  let outerLevel := level / tileHeight
  let innerLevel := level - outerLevel * tileHeight
  let tileNumber := number <<< innerLevel >>> tileHeight
  let number := number - tileNumber <<< tileHeight >>> innerLevel
  let width := (number + 1) <<< innerLevel
  (⟨outerLevel, tileNumber, width⟩, number <<< innerLevel, (number + 1) <<< innerLevel)

def hashFromTile (sha256 : Bytes → Bytes) (tile : Tile) (data : Bytes) (index : Nat) :
    Except Failure Bytes :=
  let (expected, start, stop) := tileForIndex index
  if tile.level ≠ expected.level ∨ tile.number ≠ expected.number ∨ tile.width < expected.width then
    .error (.verification "sumdb tile does not contain requested hash")
  else if data.length ≠ tile.width * 32 then
    .error (.verification "sumdb tile has invalid length")
  else .ok (tileHash sha256 ((data.take (stop * 32)).drop (start * 32)))

def subtreeIndexesLoop (size : Nat) : Nat → Nat → List Nat
  | 0, _ => []
  | fuel + 1, low =>
    if low < size then
      let width := maxpow2 (size - low + 1)
      storedHashIndex (bitLength width - 1) (low >>> (bitLength width - 1)) ::
        subtreeIndexesLoop size fuel (low + width)
    else []

def subtreeIndexes (size : Nat) : List Nat := subtreeIndexesLoop size size 0

theorem maxpow2_eq_split (value : Nat) (h : 2 ≤ value) : maxpow2 value = split value := by
  rw [maxpow2, bitLength, if_neg (by omega), Nat.shiftLeft_eq, one_mul, split]
  rfl

/-- A stored hash lies in one tile, at the cells its subtree covers. -/
theorem tileForIndex_storedHashIndex (level number : Nat) :
    tileForIndex (storedHashIndex level number) =
      (⟨level / 8, number * 2 ^ (level % 8) / 256, number * 2 ^ (level % 8) % 256 + 2 ^ (level % 8)⟩,
        number * 2 ^ (level % 8) % 256, number * 2 ^ (level % 8) % 256 + 2 ^ (level % 8)) := by
  have inner : level - level / 8 * 8 = level % 8 := by omega
  have hlt : level % 8 < 8 := Nat.mod_lt _ (by omega)
  have hfull : 2 ^ (8 - level % 8) * 2 ^ (level % 8) = 256 := by
    rw [← pow_add, Nat.sub_add_cancel hlt.le]
    rfl
  have hpos := Nat.two_pow_pos (level % 8)
  have back : number * 2 ^ (level % 8) / 256 * 256 / 2 ^ (level % 8) =
      number / 2 ^ (8 - level % 8) * 2 ^ (8 - level % 8) := by
    rw [← hfull, Nat.mul_div_mul_right _ _ hpos, ← mul_assoc, Nat.mul_div_cancel _ hpos]
  have rest : number - number / 2 ^ (8 - level % 8) * 2 ^ (8 - level % 8) =
      number % 2 ^ (8 - level % 8) := by
    have := Nat.div_add_mod' number (2 ^ (8 - level % 8))
    omega
  have start : number % 2 ^ (8 - level % 8) * 2 ^ (level % 8) = number * 2 ^ (level % 8) % 256 := by
    rw [← hfull, Nat.mul_mod_mul_right]
  have stop : (number % 2 ^ (8 - level % 8) + 1) * 2 ^ (level % 8) =
      number * 2 ^ (level % 8) % 256 + 2 ^ (level % 8) := by
    rw [add_mul, one_mul, start]
  simp only [tileForIndex, splitStoredHashIndex_storedHashIndex, tileHeight, Nat.shiftLeft_eq,
    Nat.shiftRight_eq_div_pow, inner, show (2 : Nat) ^ 8 = 256 from rfl, back, rest, start, stop]

/-- What the development assumes of the hash: digests of 32 octets, and no two
nodes or records with one hash. -/
structure HashModel (sha256 : Bytes → Bytes) : Prop where
  length : ∀ data, (sha256 data).length = 32
  node_injective : ∀ a b c d : Bytes, a.length = 32 → b.length = 32 → c.length = 32 → d.length = 32 →
    nodeHash sha256 a b = nodeHash sha256 c d → a = c ∧ b = d
  record_injective : ∀ a b, recordHash sha256 a = recordHash sha256 b → a = b

def cell (data : Bytes) (i : Nat) : Bytes := (data.drop (i * 32)).take 32

def cellRange (data : Bytes) (start count : Nat) : List Bytes := (List.range' start count).map (cell data)

variable {data : Bytes} {count : Nat} {table : List (Bytes × Bytes)}

theorem cell_length {i : Nat} (h : data.length = count * 32) (hi : i < count) :
    (cell data i).length = 32 := by
  rw [cell, length_take, length_drop, h]
  have : (i + 1) * 32 ≤ count * 32 := Nat.mul_le_mul_right 32 hi
  omega

theorem cellRange_length (data : Bytes) (start count : Nat) :
    (cellRange data start count).length = count := by
  simp [cellRange]

theorem cellRange_getElem? (data : Bytes) {start i : Nat} (hi : i < count) :
    (cellRange data start count)[i]? = some (cell data (start + i)) := by
  rw [cellRange, getElem?_map, getElem?_range' hi]
  simp

theorem cellRange_append (data : Bytes) (start m n : Nat) :
    cellRange data start (m + n) = cellRange data start m ++ cellRange data (start + m) n := by
  have h : List.range' start (m + n) = List.range' start m ++ List.range' (start + m) n := by
    simp
  rw [cellRange, cellRange, cellRange, h, map_append]

theorem cell_take {i : Nat} (hi : i < count) :
    cell (data.take (count * 32)) i = cell data i := by
  have hle : (i + 1) * 32 ≤ count * 32 := Nat.mul_le_mul_right 32 hi
  rw [cell, cell, drop_take, take_take]
  congr 1
  omega

theorem cell_drop (data : Bytes) (start i : Nat) :
    cell (data.drop (start * 32)) i = cell data (start + i) := by
  rw [cell, cell, drop_drop, add_mul]

theorem cellRange_slice (data : Bytes) (start count : Nat) :
    cellRange ((data.take ((start + count) * 32)).drop (start * 32)) 0 count =
      cellRange data start count := by
  apply ext_getElem
  · simp [cellRange]
  · intro i hi hj
    simp only [cellRange, length_map, length_range'] at hi
    simp only [cellRange, getElem_map, getElem_range', one_mul, zero_add]
    rw [cell_drop, cell_take (by omega)]

/-- The hash of a slice of `2 ^ k` stored hashes is the root over them. -/
theorem tileHashLoop_eq_root (sha256 : Bytes → Bytes) {fuel k : Nat} (hk : k ≤ fuel)
    (hd : data.length = 2 ^ k * 32) :
    tileHashLoop sha256 fuel data =
      root (nodeHash sha256) (sha256 []) (cellRange data 0 (2 ^ k)) := by
  induction k generalizing fuel data with
  | zero =>
    have hl : data.length = 32 := by simpa using hd
    have hcell : cell data 0 = data := by simp [cell, take_of_length_le hl.le]
    have hroot : root (nodeHash sha256) (sha256 []) (cellRange data 0 (2 ^ 0)) = data := by
      simp [cellRange, hcell]
    rw [hroot]
    cases fuel with
    | zero => rfl
    | succ fuel => simp [tileHashLoop, hl]
  | succ k ih =>
    obtain ⟨fuel, rfl⟩ : ∃ f, fuel = f + 1 := ⟨fuel - 1, by omega⟩
    have hpos := Nat.two_pow_pos k
    have hs : 2 ^ (k + 1) = 2 ^ k + 2 ^ k := by rw [pow_succ]; omega
    have hne : data.length ≠ 32 := by omega
    have hmid : data.length / 2 = 2 ^ k * 32 := by omega
    have hleft : (data.take (2 ^ k * 32)).length = 2 ^ k * 32 := by rw [length_take]; omega
    have hright : (data.drop (2 ^ k * 32)).length = 2 ^ k * 32 := by rw [length_drop]; omega
    have cl : cellRange (data.take (2 ^ k * 32)) 0 (2 ^ k) = cellRange data 0 (2 ^ k) := by
      simpa using cellRange_slice data 0 (2 ^ k)
    have cr : cellRange (data.drop (2 ^ k * 32)) 0 (2 ^ k) = cellRange data (2 ^ k) (2 ^ k) := by
      have := cellRange_slice data (2 ^ k) (2 ^ k)
      rwa [← hs, ← hd, take_length] at this
    simp only [tileHashLoop, hne, if_false, hmid]
    rw [ih (by omega) hleft, ih (by omega) hright, cl, cr, hs, cellRange_append, zero_add,
      root_append]
    · rw [cellRange_length, cellRange_length, ← hs, split_two_pow]
    · rw [← length_pos_iff, cellRange_length]
      exact hpos

theorem tileHash_eq_root (sha256 : Bytes → Bytes) {k : Nat}
    (hd : data.length = 2 ^ k * 32) :
    tileHash sha256 data = root (nodeHash sha256) (sha256 []) (cellRange data 0 (2 ^ k)) := by
  apply tileHashLoop_eq_root sha256 _ hd
  have := Nat.lt_two_pow_self (n := k)
  omega

theorem mem_cellRange_length {start total : Nat} (hd : data.length = total * 32)
    (hb : start + count ≤ total) : ∀ x ∈ cellRange data start count, x.length = 32 := by
  intro x hx
  obtain ⟨i, hi, rfl⟩ := mem_map.mp hx
  have := mem_range'_1.mp hi
  exact cell_length hd (by omega)

section

variable {sha256 : Bytes → Bytes} (hsha : ∀ data, (sha256 data).length = 32)

include hsha

theorem root_length {xs : List Bytes} (hx : ∀ x ∈ xs, x.length = 32) :
    (root (nodeHash sha256) (sha256 []) xs).length = 32 := by
  by_cases hne : xs = []
  · rw [hne, root_nil]
    exact hsha _
  · exact root_closed (P := fun x => x.length = 32) (fun _ _ _ _ => hsha _) hne hx

theorem mem_records_length {records : List Bytes} :
    ∀ x ∈ records.map (recordHash sha256), x.length = 32 := by
  intro x hx
  obtain ⟨r, _, rfl⟩ := mem_map.mp hx
  exact hsha _

end

theorem root_leaves_unique {sha256 : Bytes → Bytes} (model : HashModel sha256) {xs ys : List Bytes}
    (hx : ∀ x ∈ xs, x.length = 32) (hy : ∀ y ∈ ys, y.length = 32) (hlen : xs.length = ys.length)
    (h : root (nodeHash sha256) (sha256 []) xs = root (nodeHash sha256) (sha256 []) ys) :
    xs = ys :=
  root_injective (P := fun x => x.length = 32) (fun _ _ _ _ => model.length _)
    model.node_injective hx hy hlen h

/-- A hash that takes finitely many digests from a table. Its other digests
start with a number that is no octet and determines the input. -/
def tableHash (table : List (Bytes × Bytes)) (data : Bytes) : Bytes :=
  match table.lookup data with
  | some digest => digest
  | none => (256 + Encodable.encode data) :: List.replicate 31 0

/-- Digests of 32 octets, no two inputs of the table with the same one. -/
structure TableValid (table : List (Bytes × Bytes)) : Prop where
  nodup : (table.map Prod.snd).Nodup
  length : ∀ entry ∈ table, entry.2.length = 32
  octets : ∀ entry ∈ table, ∀ octet ∈ entry.2, octet < 256

instance (table : List (Bytes × Bytes)) : Decidable (TableValid table) :=
  decidable_of_iff ((table.map Prod.snd).Nodup ∧ (∀ entry ∈ table, entry.2.length = 32) ∧
      ∀ entry ∈ table, ∀ octet ∈ entry.2, octet < 256)
    ⟨fun h => ⟨h.1, h.2.1, h.2.2⟩, fun h => ⟨h.nodup, h.length, h.octets⟩⟩

theorem lookup_some_mem {digest : Bytes}
    (h : table.lookup data = some digest) : (data, digest) ∈ table := by
  obtain ⟨before, after, rfl, _⟩ := List.lookup_eq_some_iff.mp h
  simp

theorem nodup_snd_unique (h : (table.map Prod.snd).Nodup) {a b digest : Bytes}
    (ha : (a, digest) ∈ table) (hb : (b, digest) ∈ table) : a = b := by
  have heq := inj_on_of_nodup_map h ha hb rfl
  exact congrArg Prod.fst heq

theorem tableHash_injective (hv : TableValid table) :
    Function.Injective (tableHash table) := by
  intro a b h
  unfold tableHash at h
  cases ha : table.lookup a with
  | some digest =>
    have hma := lookup_some_mem ha
    cases hb : table.lookup b with
    | some other =>
      simp only [ha, hb] at h
      subst other
      exact nodup_snd_unique hv.nodup hma (lookup_some_mem hb)
    | none =>
      simp only [ha, hb] at h
      subst digest
      have hlt := hv.octets _ hma (256 + Encodable.encode b) (by simp)
      omega
  | none =>
    cases hb : table.lookup b with
    | some digest =>
      simp only [ha, hb] at h
      subst digest
      have hlt := hv.octets _ (lookup_some_mem hb) (256 + Encodable.encode a) (by simp)
      omega
    | none =>
      simp only [ha, hb] at h
      have hcode : 256 + Encodable.encode a = 256 + Encodable.encode b := (List.cons.inj h).1
      exact Encodable.encode_injective (by omega)

theorem tableHash_model (hv : TableValid table) :
    HashModel (tableHash table) := by
  have hinj := tableHash_injective hv
  refine ⟨?_, ?_, ?_⟩
  · intro data
    unfold tableHash
    split
    next digest hl => exact hv.length _ (lookup_some_mem hl)
    next => simp
  · intro a b c d ha _ hc _ h
    have htail := (List.cons.inj (hinj h)).2
    exact append_inj htail (ha.trans hc.symm)
  · intro a b h
    exact (List.cons.inj (hinj h)).2

/-- SHA-256 of the leaves `a` and `b` and of their node. -/
def leafA : Bytes :=
  [2, 42, 105, 121, 230, 218, 183, 170, 90, 228, 195, 229, 228, 95, 126, 151, 113, 18, 167, 230,
  53, 147, 130, 13, 190, 193, 236, 115, 138, 36, 249, 60]

def leafB : Bytes :=
  [87, 235, 53, 97, 93, 71, 243, 78, 199, 20, 202, 205, 245, 253, 116, 96, 138, 94, 142, 16, 39,
  36, 232, 11, 36, 178, 135, 192, 194, 123, 106, 49]

def nodeAB : Bytes :=
  [177, 55, 152, 95, 244, 132, 251, 96, 13, 185, 49, 7, 199, 123, 3, 101, 200, 13, 120, 245, 180,
  41, 222, 208, 253, 151, 54, 29, 7, 121, 153, 235]

def sampleTable : List (Bytes × Bytes) := [([0, 97], leafA), ([0, 98], leafB), (1 :: (leafA ++ leafB), nodeAB)]

theorem sampleTable_valid : TableValid sampleTable := by decide +kernel

end Leitir.Sumdb
