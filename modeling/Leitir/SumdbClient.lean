import Leitir.SumdbTile
import Leitir.LineCut

namespace Leitir.Sumdb

open Bits List

def pad3 (number : Nat) : List Char :=
  List.replicate (3 - (Nat.toDigits 10 number).length) '0' ++ Nat.toDigits 10 number

/-- The further path segments of a tile number of four digits or more. -/
def pathParts : Nat → Nat → List (List Char)
  | 0, _ => []
  | fuel + 1, number =>
    if number ≥ 1000 then
      ('x' :: pad3 (number / 1000 % 1000)) :: pathParts fuel (number / 1000)
    else []

def numberPath (number : Nat) : List Char :=
  List.intercalate ['/'] (pad3 (number % 1000) :: pathParts number number).reverse

/-- The request path of a tile; a full tile has no width in its path. -/
def Tile.path (tile : Tile) : List Char :=
  let suffix := if tile.width = 1 <<< tileHeight then []
    else '.' :: 'p' :: '/' :: Nat.toDigits 10 tile.width
  't' :: 'i' :: 'l' :: 'e' :: '/' :: '8' :: '/' ::
    (Nat.toDigits 10 tile.level ++ '/' :: (numberPath tile.number ++ suffix))

variable {n : Nat} {c : Char}

theorem toDigits_injective {m : Nat} (h : Nat.toDigits 10 m = Nat.toDigits 10 n) : m = n := by
  have hm := @Nat.ofDigitChars_ten_toDigits m
  rw [h, Nat.ofDigitChars_ten_toDigits] at hm
  exact hm.symm

theorem not_mem_toDigits (hc : c.isDigit = false) (n : Nat) : c ∉ Nat.toDigits 10 n := by
  intro hm
  have hd := Nat.isDigit_of_mem_toDigits (by decide) (by decide) hm
  simp [hc] at hd

theorem isDigit_of_mem_pad3 (h : c ∈ pad3 n) : c.isDigit = true := by
  rcases mem_append.mp h with h | h
  · rw [eq_of_mem_replicate h]
    decide
  · exact Nat.isDigit_of_mem_toDigits (by decide) (by decide) h

theorem ofDigitChars_pad3 (hn : n < 1000) (init : Nat) :
    Nat.ofDigitChars 10 (pad3 n) init = 1000 * init + n := by
  have hlen : (Nat.toDigits 10 n).length ≤ 3 :=
    (Nat.length_toDigits_le_iff (by decide) (by decide)).mpr hn
  rw [Nat.ofDigitChars_eq_ofDigitChars_zero, pad3, Nat.ofDigitChars_append,
    Nat.ofDigitChars_replicate_zero, Nat.mul_zero, Nat.ofDigitChars_ten_toDigits,
    length_append, length_replicate, Nat.sub_add_cancel hlen]

theorem pathParts_chars {fuel number : Nat} {part : List Char}
    (hp : part ∈ pathParts fuel number) (hc : c ∈ part) : c = 'x' ∨ c.isDigit = true := by
  induction fuel generalizing number with
  | zero => simp [pathParts] at hp
  | succ fuel ih =>
    simp only [pathParts] at hp
    split at hp
    next =>
      rcases mem_cons.mp hp with rfl | hp
      · rcases mem_cons.mp hc with hx | hd
        · exact Or.inl hx
        · exact Or.inr (isDigit_of_mem_pad3 hd)
      · exact ih hp
    next => simp at hp

theorem ofDigitChars_pathParts {fuel number : Nat} (h : number ≤ fuel) :
    Nat.ofDigitChars 10 ((pathParts fuel number).reverse.flatten.filter Char.isDigit) 0 =
      number / 1000 := by
  induction fuel generalizing number with
  | zero =>
    have hz : number = 0 := by omega
    simp [pathParts, hz]
  | succ fuel ih =>
    simp only [pathParts]
    split
    next hb =>
      have hx : Char.isDigit 'x' = false := by decide
      have hpad : (pad3 (number / 1000 % 1000)).filter Char.isDigit = pad3 (number / 1000 % 1000) :=
        filter_eq_self.mpr (fun c hc => isDigit_of_mem_pad3 hc)
      rw [reverse_cons, flatten_append, filter_append, Nat.ofDigitChars_append,
        ih (by omega)]
      simp only [flatten_cons, flatten_nil, append_nil, filter_cons, hx,
        Bool.false_eq_true, if_false, hpad]
      rw [ofDigitChars_pad3 (Nat.mod_lt _ (by omega))]
      omega
    next hb =>
      have hz : number / 1000 = 0 := by omega
      simp [hz]

theorem filter_intercalate {p : Char → Bool} {sep : Char} (hs : p sep = false) (parts : List (List Char)) :
    (List.intercalate [sep] parts).filter p = parts.flatten.filter p := by
  induction parts with
  | nil => simp
  | cons part parts ih =>
    cases parts with
    | nil => simp
    | cons next rest => simp [intercalate_cons_cons, hs, ih]

theorem mem_intercalate {sep : Char} {parts : List (List Char)}
    (h : c ∈ List.intercalate [sep] parts) : c = sep ∨ ∃ part ∈ parts, c ∈ part := by
  induction parts with
  | nil => simp at h
  | cons part parts ih =>
    cases parts with
    | nil => exact Or.inr ⟨part, by simp, by simpa using h⟩
    | cons next rest =>
      rw [intercalate_cons_cons] at h
      rcases mem_append.mp h with h | h
      · rcases mem_append.mp h with h | h
        · exact Or.inr ⟨part, by simp, h⟩
        · exact Or.inl (by simpa using h)
      · rcases ih h with h | ⟨q, hq, hc⟩
        · exact Or.inl h
        · exact Or.inr ⟨q, mem_cons_of_mem _ hq, hc⟩

theorem dot_not_mem_numberPath (number : Nat) : '.' ∉ numberPath number := by
  intro hm
  rcases mem_intercalate hm with hc | ⟨part, hp, hc⟩
  · exact absurd hc (by decide)
  · rcases mem_cons.mp (mem_reverse.mp hp) with rfl | hp
    · exact absurd (isDigit_of_mem_pad3 hc) (by decide)
    · exact absurd (pathParts_chars hp hc) (by decide)

theorem numberPath_injective {m : Nat} (h : numberPath m = numberPath n) : m = n := by
  have number (k : Nat) : Nat.ofDigitChars 10 ((numberPath k).filter Char.isDigit) 0 = k := by
    have hpad : (pad3 (k % 1000)).filter Char.isDigit = pad3 (k % 1000) :=
      filter_eq_self.mpr (fun c hc => isDigit_of_mem_pad3 hc)
    rw [numberPath, filter_intercalate (by decide), reverse_cons, flatten_append,
      filter_append, Nat.ofDigitChars_append, ofDigitChars_pathParts le_rfl, flatten_cons,
      flatten_nil, append_nil, hpad, ofDigitChars_pad3 (Nat.mod_lt _ (by omega))]
    omega
  rw [← number m, ← number n, h]

/-- Distinct tiles are requested under distinct paths. -/
theorem Tile.path_injective : Function.Injective Tile.path := by
  intro s t h
  have slash := not_mem_toDigits (show Char.isDigit '/' = false by decide)
  simp only [Tile.path, List.cons.injEq, true_and] at h
  obtain ⟨hl, hr⟩ := LineCut.append_cons_unique (slash s.level) (slash t.level) h
  have finish (hn : s.number = t.number) (hw : s.width = t.width) : s = t := by
    obtain ⟨sl, sn, sw⟩ := s
    obtain ⟨tl, tn, tw⟩ := t
    rw [Tile.mk.injEq]
    exact ⟨toDigits_injective hl, hn, hw⟩
  by_cases hs : s.width = 1 <<< tileHeight
  · by_cases ht : t.width = 1 <<< tileHeight
    · rw [if_pos hs, if_pos ht, append_nil, append_nil] at hr
      exact finish (numberPath_injective hr) (hs.trans ht.symm)
    · rw [if_pos hs, if_neg ht, append_nil] at hr
      exact absurd (by rw [hr]; simp) (dot_not_mem_numberPath s.number)
  · by_cases ht : t.width = 1 <<< tileHeight
    · rw [if_neg hs, if_pos ht, append_nil] at hr
      exact absurd (by rw [← hr]; simp) (dot_not_mem_numberPath t.number)
    · rw [if_neg hs, if_neg ht] at hr
      obtain ⟨hn, hw⟩ := LineCut.append_cons_unique (dot_not_mem_numberPath _) (dot_not_mem_numberPath _) hr
      simp only [List.cons.injEq, true_and] at hw
      exact finish (numberPath_injective hn) (toDigits_injective hw)

def maxResponseBytes : Nat := 1024 * 1024

/-- What a request ends with: a body, a failure of the transport with its
description, or an exception the client does not handle. -/
inductive Reply where
  | body (data : Bytes)
  | failure (description : String)
  | crash

abbrev Server := List (List Char) → Reply

structure Client where
  tiles : List (Tile × Bytes) := []
  treeSize : Option Nat := none
  requests : List (List Char) := []

def Method (α : Type) : Type := Client → Except Failure α × Client

namespace Method

variable {α β : Type}

def done (value : α) : Method α := fun client => (.ok value, client)

def fail (failure : Failure) : Method α := fun client => (.error failure, client)

def andThen (first : Method α) (next : α → Method β) : Method β := fun client =>
  match first client with
  | (.ok value, after) => next value after
  | (.error failure, after) => (.error failure, after)

instance : Monad Method where
  pure := done
  bind := andThen

def check (result : Except Failure α) : Method α := fun client => (result, client)

def orElse (body : Method α) (handler : Failure → Method α) : Method α := fun client =>
  match body client with
  | (.ok value, after) => (.ok value, after)
  | (.error failure, after) => handler failure after

def client : Method Client := fun c => (.ok c, c)

def remember (tile : Tile) (data : Bytes) : Method Unit := fun c =>
  (.ok (), { c with tiles := (tile, data) :: c.tiles })

def withTreeSize (size : Nat) (body : Method α) : Method α := fun c =>
  let (result, after) := body { c with treeSize := some size }
  (result, { after with treeSize := c.treeSize })

end Method

section

variable (sha256 : Bytes → Bytes) (server : Server)

def fetch (path : List Char) : Method Bytes := fun c =>
  let after := { c with requests := path :: c.requests }
  match server after.requests with
  | .body data =>
    if data.length > maxResponseBytes then
      (.error (.verification "sumdb response exceeds size limit"), after)
    else (.ok data, after)
  | .failure description => (.error (.verification ("sumdb request failed: " ++ description)), after)
  | .crash => (.error .other, after)

/-- The full tile a partial one is cut from, from the cache or the server. -/
def fullTile (full : Tile) : Method Bytes := do
  match (← Method.client).tiles.lookup full with
  | some data => pure data
  | none =>
    let data ← fetch server full.path
    if data.length ≠ full.width * 32 then
      Method.fail (.verification "sumdb tile has invalid length")
    else
      Method.remember full data
      pure data

def fetchTile (tile : Tile) : Method Bytes :=
  Method.orElse (fetch server tile.path) fun
    | .verification message =>
      if tile.width = 1 <<< tileHeight ∨ ¬ "HTTP 404".toList <:+: message.toList then
        Method.fail (.verification message)
      else do
        let data ← fullTile server ⟨tile.level, tile.number, 1 <<< tileHeight⟩
        pure (data.take (tile.width * 32))
    | failure => Method.fail failure

def tile (tile : Tile) : Method Bytes := do
  match (← Method.client).tiles.lookup tile with
  | some data => pure data
  | none =>
    let data ← fetchTile server tile
    if data.length ≠ tile.width * 32 then
      Method.fail (.verification "sumdb tile has invalid length")
    else
      Method.remember tile data
      pure data

/-- The tile to ask for a stored hash, cut to the tree size when one is set. -/
def clampTile (treeSize : Option Nat) (tile : Tile) : Except Failure Tile :=
  match treeSize with
  | none => .ok tile
  | some size =>
    let maxWidth := size >>> (tile.level * tileHeight)
    let tileStart := tile.number <<< tileHeight
    if tileStart ≥ maxWidth then .error (.verification "sumdb tile is outside signed tree")
    else .ok ⟨tile.level, tile.number, min (1 <<< tileHeight) (maxWidth - tileStart)⟩

def hash (index : Nat) : Method Bytes := do
  let (expected, _, _) := tileForIndex index
  let clamped ← Method.check (clampTile (← Method.client).treeSize expected)
  let data ← tile server clamped
  Method.check (hashFromTile sha256 clamped data index)

def hashes : List Nat → Method (List Bytes)
  | [] => pure []
  | index :: rest => do
    let first ← hash sha256 server index
    let others ← hashes rest
    pure (first :: others)

def joinHashes : List Bytes → Bytes
  | [] => []
  | [last] => last
  | item :: rest => nodeHash sha256 item (joinHashes rest)

def treeHash (size : Nat) : Method Bytes := do
  if size = 0 then pure (sha256 [])
  else
    let parts ← hashes sha256 server (subtreeIndexes size)
    pure (joinHashes sha256 parts)

def verifyHead (head : TreeHead) : Method Unit :=
  Method.withTreeSize head.size do
    let computed ← treeHash sha256 server head.size
    if computed ≠ head.hash then
      Method.fail (.verification "sumdb tiles do not match signed tree head")
    else pure ()

def verifyRecordInclusion (head : TreeHead) (leaf : Nat) (record : Bytes) : Method Unit :=
  Method.withTreeSize head.size do
    let stored ← hash sha256 server (storedHashIndex 0 leaf)
    if stored ≠ recordHash sha256 record then
      Method.fail (.verification "sumdb lookup record is not included in signed tree")
    else pure ()

def perfectSubtreeHash (start size : Nat) : Method Bytes := do
  if size < 1 ∨ size &&& (size - 1) ≠ 0 ∨ start % size ≠ 0 then
    Method.fail (.value "sumdb subtree is not a valid aligned power of two")
  else hash sha256 server (storedHashIndex (bitLength size - 1) (start / size))

/-- The budget of the recursion is the subtree size. -/
def subtreeHashLoop : Nat → Nat → Nat → Method Bytes
  | 0, _, _ => Method.fail (.value "sumdb subtree size must be positive")
  | fuel + 1, start, size => do
    if size < 1 then Method.fail (.value "sumdb subtree size must be positive")
    else if size &&& (size - 1) = 0 then perfectSubtreeHash sha256 server start size
    else
      let leftSize := maxpow2 size
      let left ← perfectSubtreeHash sha256 server start leftSize
      let right ← subtreeHashLoop fuel (start + leftSize) (size - leftSize)
      pure (nodeHash sha256 left right)

def subtreeHash (start size : Nat) : Method Bytes := subtreeHashLoop sha256 server (size + 1) start size

/-- Rebuild the new root from the old one; the budget is the new size. -/
def extend : Nat → Nat → Nat → Bytes → Nat → Method Bytes
  | 0, _, _, _, _ => Method.fail .other
  | fuel + 1, oldSize, newSize, oldHash, start => do
    if oldSize = newSize then pure oldHash
    else
      let leftSize := maxpow2 newSize
      let rightSize := newSize - leftSize
      if oldSize ≤ leftSize then
        let leftHash ← extend fuel oldSize leftSize oldHash start
        let rightHash ← subtreeHash sha256 server (start + leftSize) rightSize
        pure (nodeHash sha256 leftHash rightHash)
      else
        let leftHash ← perfectSubtreeHash sha256 server start leftSize
        let oldRight ← subtreeHash sha256 server (start + leftSize) (oldSize - leftSize)
        if nodeHash sha256 leftHash oldRight ≠ oldHash then
          Method.fail (.verification "sumdb tree is inconsistent with stored head")
        else
          let rightHash ← extend fuel (oldSize - leftSize) rightSize oldRight (start + leftSize)
          pure (nodeHash sha256 leftHash rightHash)

def verifyConsistency (stored latest : TreeHead) : Method Unit :=
  Method.withTreeSize latest.size do
    if latest.size < stored.size then
      Method.fail (.verification "sumdb tree head moved backwards")
    else if latest.size = stored.size then
      if latest.hash ≠ stored.hash then
        Method.fail (.verification "sumdb tree head changed at the same size")
      else pure ()
    else if stored.size = 0 then
      if stored.hash ≠ sha256 [] then
        Method.fail (.verification "sumdb tree is inconsistent with stored head")
      else pure ()
    else
      let extended ← extend sha256 server latest.size stored.size latest.size stored.hash 0
      if extended ≠ latest.hash then
        Method.fail (.verification "sumdb tree is inconsistent with stored head")
      else pure ()

end

end Leitir.Sumdb
