import Mathlib.Data.List.Basic
import Leitir.LawfulLists

namespace Sha256

def roundConstants : List Nat :=
  [0x428a2f98, 0x71374491, 0xb5c0fbcf, 0xe9b5dba5, 0x3956c25b, 0x59f111f1, 0x923f82a4, 0xab1c5ed5,
    0xd807aa98, 0x12835b01, 0x243185be, 0x550c7dc3, 0x72be5d74, 0x80deb1fe, 0x9bdc06a7, 0xc19bf174,
    0xe49b69c1, 0xefbe4786, 0x0fc19dc6, 0x240ca1cc, 0x2de92c6f, 0x4a7484aa, 0x5cb0a9dc, 0x76f988da,
    0x983e5152, 0xa831c66d, 0xb00327c8, 0xbf597fc7, 0xc6e00bf3, 0xd5a79147, 0x06ca6351, 0x14292967,
    0x27b70a85, 0x2e1b2138, 0x4d2c6dfc, 0x53380d13, 0x650a7354, 0x766a0abb, 0x81c2c92e, 0x92722c85,
    0xa2bfe8a1, 0xa81a664b, 0xc24b8b70, 0xc76c51a3, 0xd192e819, 0xd6990624, 0xf40e3585, 0x106aa070,
    0x19a4c116, 0x1e376c08, 0x2748774c, 0x34b0bcb5, 0x391c0cb3, 0x4ed8aa4a, 0x5b9cca4f, 0x682e6ff3,
    0x748f82ee, 0x78a5636f, 0x84c87814, 0x8cc70208, 0x90befffa, 0xa4506ceb, 0xbef9a3f7, 0xc67178f2]

def initialState : List Nat :=
  [0x6a09e667, 0xbb67ae85, 0x3c6ef372, 0xa54ff53a, 0x510e527f, 0x9b05688c, 0x1f83d9ab, 0x5be0cd19]

def word (n : Nat) : Nat := n % 4294967296

def rotr (count x : Nat) : Nat := (x >>> count) ||| word (x <<< (32 - count))

/-- The message schedule, its latest word first. -/
def schedule : Nat → List Nat → List Nat
  | 0, words => words
  | count + 1, words =>
    let far := words.getD 14 0
    let near := words.getD 1 0
    let mixedFar := rotr 7 far ^^^ rotr 18 far ^^^ (far >>> 3)
    let mixedNear := rotr 17 near ^^^ rotr 19 near ^^^ (near >>> 10)
    schedule count (word (words.getD 15 0 + mixedFar + words.getD 6 0 + mixedNear) :: words)

def round (state : List Nat) (input : Nat) : List Nat :=
  match state with
  | [a, b, c, d, e, f, g, h] =>
    let choice := (e &&& f) ^^^ ((4294967295 ^^^ e) &&& g)
    let majority := (a &&& b) ^^^ (a &&& c) ^^^ (b &&& c)
    let first := h + (rotr 6 e ^^^ rotr 11 e ^^^ rotr 25 e) + choice + input
    let second := (rotr 2 a ^^^ rotr 13 a ^^^ rotr 22 a) + majority
    [word (first + second), a, b, c, word (d + first), e, f, g]
  | _ => state

def compress (state block : List Nat) : List Nat :=
  let inputs := List.zipWith (· + ·) roundConstants (schedule 48 block.reverse).reverse
  List.zipWith (fun x y => word (x + y)) state (inputs.foldl round state)

def bigEndian (octets : List Nat) : Nat := octets.foldl (fun value octet => value * 256 + octet) 0

def octetsOf (count value : Nat) : List Nat := ((List.range count).map fun place => value / 256 ^ place % 256).reverse

def chunks (size : Nat) : Nat → List Nat → List (List Nat)
  | 0, _ => []
  | count + 1, items => items.take size :: chunks size count (items.drop size)

def pad (data : List Nat) : List Nat :=
  data ++ 0x80 :: List.replicate ((119 - data.length % 64) % 64) 0 ++ octetsOf 8 (8 * data.length)

def digest (data : List Nat) : List Nat :=
  let padded := pad data
  let words := (chunks 4 (padded.length / 4) padded).map bigEndian
  ((chunks 16 (padded.length / 64) words).foldl compress initialState).flatMap (octetsOf 4)

def hexDigit (n : Nat) : Char := if n < 10 then Char.ofNat (48 + n) else Char.ofNat (87 + n)

def hexdigest (data : List Nat) : List Char := (digest data).flatMap fun octet => [hexDigit (octet / 16), hexDigit (octet % 16)]

example : hexdigest [97, 98, 99] = "ba7816bf8f01cfea414140de5dae2223b00361a396177a9cb410ff61f20015ad".toList := by
  decide +kernel

theorem octetsOf_lt {count value octet : Nat} (h : octet ∈ octetsOf count value) : octet < 256 := by
  obtain ⟨place, -, rfl⟩ := List.mem_map.mp (List.mem_reverse.mp h)
  exact Nat.mod_lt _ (by decide)

theorem length_octetsOf (count value : Nat) : (octetsOf count value).length = count := by
  simp [octetsOf]

theorem length_round (state : List Nat) (input : Nat) : (round state input).length = state.length := by
  unfold round
  split
  next => rfl
  next => rfl

theorem length_compress (state block : List Nat) : (compress state block).length = state.length := by
  have hrounds : ∀ (inputs : List Nat) (start : List Nat), (inputs.foldl round start).length = start.length := by
    intro inputs
    induction inputs with
    | nil => exact fun start => rfl
    | cons input inputs ih => exact fun start => (ih _).trans (length_round start input)
  simp [compress, hrounds]

theorem length_hexdigest (data : List Nat) : (hexdigest data).length = 64 := by
  have hblocks : ∀ (blocks : List (List Nat)) (start : List Nat), (blocks.foldl compress start).length = start.length := by
    intro blocks
    induction blocks with
    | nil => exact fun start => rfl
    | cons block blocks ih => exact fun start => (ih _).trans (length_compress start block)
  have hstate : initialState.length = 8 := rfl
  simp [hexdigest, digest, List.length_flatMap, length_octetsOf, hblocks, hstate]

theorem mem_hexdigest {data : List Nat} {c : Char} (h : c ∈ hexdigest data) : ∃ d < 16, c = hexDigit d := by
  obtain ⟨octet, hoctet, hc⟩ := List.mem_flatMap.mp h
  obtain ⟨value, -, hoctet⟩ := List.mem_flatMap.mp hoctet
  have hlt := octetsOf_lt hoctet
  rcases List.mem_cons.mp hc with rfl | hc
  · exact ⟨octet / 16, by omega, rfl⟩
  · exact ⟨octet % 16, by omega, List.mem_singleton.mp hc⟩

def forced {α : Type} (n : Nat) (f : Nat → α) : α := Nat.casesOn n (f 0) fun k => f (Nat.succ k)

@[simp] theorem forced_eq {α : Type} (n : Nat) (f : Nat → α) : forced n f = f n := by
  cases n with
  | zero => rfl
  | succ k => rfl

def forcedList {α : Type} : List Nat → (List Nat → α) → α
  | [], f => f []
  | n :: rest, f => forced n fun n => forcedList rest fun rest => f (n :: rest)

@[simp] theorem forcedList_eq {α : Type} (items : List Nat) (f : List Nat → α) : forcedList items f = f items := by
  induction items generalizing f with
  | nil => rfl
  | cons n rest ih => rw [forcedList, forced_eq, ih]

def nextWord (w0 w1 w9 w14 : Nat) : Nat :=
  Nat.mod (Nat.add (Nat.add (Nat.add w0 (Nat.xor (Nat.xor (rotr 7 w1) (rotr 18 w1)) (Nat.shiftRight w1 3))) w9)
    (Nat.xor (Nat.xor (rotr 17 w14) (rotr 19 w14)) (Nat.shiftRight w14 10))) 4294967296

def wordsFrom : Nat → Nat → Nat → Nat → Nat → Nat → Nat → Nat → Nat → Nat → Nat → Nat → Nat → Nat → Nat → Nat → Nat → List Nat
  | 0, _, _, _, _, _, _, _, _, _, _, _, _, _, _, _, _ => []
  | count + 1, w0, w1, w2, w3, w4, w5, w6, w7, w8, w9, w10, w11, w12, w13, w14, w15 =>
    w0 :: wordsFrom count w1 w2 w3 w4 w5 w6 w7 w8 w9 w10 w11 w12 w13 w14 w15 (nextWord w0 w1 w9 w14)

theorem schedule_reverse (count : Nat) (older : List Nat) (w0 w1 w2 w3 w4 w5 w6 w7 w8 w9 w10 w11 w12 w13 w14 w15 : Nat) :
    (schedule count (w15 :: w14 :: w13 :: w12 :: w11 :: w10 :: w9 :: w8 :: w7 :: w6 :: w5 :: w4 :: w3 :: w2 :: w1 :: w0 ::
        older)).reverse =
      older.reverse ++ wordsFrom (count + 16) w0 w1 w2 w3 w4 w5 w6 w7 w8 w9 w10 w11 w12 w13 w14 w15 := by
  induction count generalizing older w0 w1 w2 w3 w4 w5 w6 w7 w8 w9 w10 w11 w12 w13 w14 w15 with
  | zero => simp [schedule, wordsFrom]
  | succ count ih =>
    have hstep := ih (w0 :: older) w1 w2 w3 w4 w5 w6 w7 w8 w9 w10 w11 w12 w13 w14 w15 (nextWord w0 w1 w9 w14)
    rw [List.reverse_cons, List.append_assoc] at hstep
    have hcount : count + 1 + 16 = (count + 16) + 1 := by omega
    rw [hcount, wordsFrom, schedule]
    exact hstep

/-- The rounds of a block, with the words and the state in hand. -/
def rounds : List Nat → Nat → Nat → Nat → Nat → Nat → Nat → Nat → Nat → Nat → Nat → Nat → Nat → Nat → Nat → Nat → Nat →
    Nat → Nat → Nat → Nat → Nat → Nat → Nat → Nat → List Nat
  | [], _, _, _, _, _, _, _, _, _, _, _, _, _, _, _, _, a, b, c, d, e, f, g, h => [a, b, c, d, e, f, g, h]
  | constant :: rest, w0, w1, w2, w3, w4, w5, w6, w7, w8, w9, w10, w11, w12, w13, w14, w15, a, b, c, d, e, f, g, h =>
    forced (Nat.add (Nat.add (Nat.add h (Nat.xor (Nat.xor (rotr 6 e) (rotr 11 e)) (rotr 25 e)))
      (Nat.xor (Nat.land e f) (Nat.land (Nat.xor 4294967295 e) g))) (Nat.add constant w0)) fun first =>
    forced (Nat.mod (Nat.add first (Nat.add (Nat.xor (Nat.xor (rotr 2 a) (rotr 13 a)) (rotr 22 a))
      (Nat.xor (Nat.xor (Nat.land a b) (Nat.land a c)) (Nat.land b c)))) 4294967296) fun top =>
    forced (Nat.mod (Nat.add d first) 4294967296) fun middle =>
    forced (nextWord w0 w1 w9 w14) fun w16 =>
    rounds rest w1 w2 w3 w4 w5 w6 w7 w8 w9 w10 w11 w12 w13 w14 w15 w16 top a b c middle e f g

theorem rounds_eq (constants : List Nat) (w0 w1 w2 w3 w4 w5 w6 w7 w8 w9 w10 w11 w12 w13 w14 w15 a b c d e f g h : Nat) :
    rounds constants w0 w1 w2 w3 w4 w5 w6 w7 w8 w9 w10 w11 w12 w13 w14 w15 a b c d e f g h =
      (List.zipWith (· + ·) constants
        (wordsFrom constants.length w0 w1 w2 w3 w4 w5 w6 w7 w8 w9 w10 w11 w12 w13 w14 w15)).foldl round
          [a, b, c, d, e, f, g, h] := by
  induction constants generalizing w0 w1 w2 w3 w4 w5 w6 w7 w8 w9 w10 w11 w12 w13 w14 w15 a b c d e f g h with
  | nil => rfl
  | cons constant rest ih =>
    rw [rounds, forced_eq, forced_eq, forced_eq, forced_eq, ih, List.length_cons, wordsFrom, List.zipWith_cons_cons,
      List.foldl_cons, round]
    rfl

def wordsOf : List Nat → List Nat
  | a :: b :: c :: d :: rest =>
    Nat.add (Nat.mul (Nat.add (Nat.mul (Nat.add (Nat.mul a 256) b) 256) c) 256) d :: wordsOf rest
  | _ => []

theorem compress_eq (w0 w1 w2 w3 w4 w5 w6 w7 w8 w9 w10 w11 w12 w13 w14 w15 a b c d e f g h : Nat) :
    compress [a, b, c, d, e, f, g, h] [w0, w1, w2, w3, w4, w5, w6, w7, w8, w9, w10, w11, w12, w13, w14, w15] =
      List.zipWith (fun x y => word (Nat.add x y)) [a, b, c, d, e, f, g, h]
        (rounds roundConstants w0 w1 w2 w3 w4 w5 w6 w7 w8 w9 w10 w11 w12 w13 w14 w15 a b c d e f g h) := by
  have hwords := schedule_reverse 48 [] w0 w1 w2 w3 w4 w5 w6 w7 w8 w9 w10 w11 w12 w13 w14 w15
  have hcount : roundConstants.length = 48 + 16 := rfl
  rw [rounds_eq, hcount, compress]
  simp only [List.reverse_cons, List.reverse_nil, List.nil_append, List.cons_append]
  rw [hwords]
  rfl

theorem wordsOf_eq (octets : List Nat) : wordsOf octets = (chunks 4 (octets.length / 4) octets).map bigEndian := by
  fun_induction wordsOf octets with
  | case1 a b c d rest ih =>
    have hlength : (a :: b :: c :: d :: rest).length / 4 = rest.length / 4 + 1 := by
      simp only [List.length_cons]
      omega
    have hword : bigEndian [a, b, c, d] = ((a * 256 + b) * 256 + c) * 256 + d := by simp [bigEndian]
    rw [hlength, chunks, List.map_cons, ih]
    exact congrArg (· :: _) hword.symm
  | case2 octets hshort =>
    have hlength : octets.length / 4 = 0 := by
      rcases octets with _ | ⟨a, _ | ⟨b, _ | ⟨c, _ | ⟨d, rest⟩⟩⟩⟩
      · rfl
      · simp
      · simp
      · simp
      · exact (hshort a b c d rest rfl).elim
    rw [hlength]
    rfl

/-- One block in the operations that are computed at once. -/
def absorb (state block : List Nat) : List Nat :=
  match state, block with
  | [a, b, c, d, e, f, g, h], [w0, w1, w2, w3, w4, w5, w6, w7, w8, w9, w10, w11, w12, w13, w14, w15] =>
    forcedList (List.zipWith (fun x y => word (Nat.add x y)) [a, b, c, d, e, f, g, h]
      (rounds roundConstants w0 w1 w2 w3 w4 w5 w6 w7 w8 w9 w10 w11 w12 w13 w14 w15 a b c d e f g h)) id
  | _, _ => compress state block

theorem absorb_eq : absorb = compress := by
  funext state block
  unfold absorb
  split
  next => rw [forcedList_eq, compress_eq, id]
  next => rfl

theorem hexdigest_eq (data : List Nat) : hexdigest data =
    (((chunks 16 ((pad data).length / 64) (wordsOf (pad data))).foldl absorb initialState).flatMap (octetsOf 4)).flatMap
      fun octet => [hexDigit (octet / 16), hexDigit (octet % 16)] := by
  rw [wordsOf_eq, absorb_eq]
  rfl

end Sha256

namespace Sha1

open Sha256

def initialState : List Nat := [0x67452301, 0xefcdab89, 0x98badcfe, 0x10325476, 0xc3d2e1f0]

def rotl (count x : Nat) : Nat := word (x <<< count) ||| (x >>> (32 - count))

def schedule : Nat → List Nat → List Nat
  | 0, words => words
  | count + 1, words =>
    schedule count (rotl 1 (words.getD 2 0 ^^^ words.getD 7 0 ^^^ words.getD 13 0 ^^^ words.getD 15 0) :: words)

/-- The mixing function and the constant of a round. -/
def mix (place b c d : Nat) : Nat × Nat :=
  if place < 20 then ((b &&& c) ^^^ ((4294967295 ^^^ b) &&& d), 0x5a827999)
  else if place < 40 then (b ^^^ c ^^^ d, 0x6ed9eba1)
  else if place < 60 then ((b &&& c) ^^^ (b &&& d) ^^^ (c &&& d), 0x8f1bbcdc)
  else (b ^^^ c ^^^ d, 0xca62c1d6)

def round (state : List Nat) (input : Nat × Nat) : List Nat :=
  match state with
  | [a, b, c, d, e] =>
    let (mixed, constant) := mix input.1 b c d
    [word (rotl 5 a + mixed + e + constant + input.2), a, rotl 30 b, c, d]
  | _ => state

def compress (state block : List Nat) : List Nat :=
  let inputs := (List.range 80).zip (schedule 64 block.reverse).reverse
  List.zipWith (fun x y => word (x + y)) state (inputs.foldl round state)

def digest (data : List Nat) : List Nat :=
  let padded := pad data
  let words := (chunks 4 (padded.length / 4) padded).map bigEndian
  ((chunks 16 (padded.length / 64) words).foldl compress initialState).flatMap (octetsOf 4)

def hexOctet (octet : Nat) : List Char := [hexDigit (octet / 16), hexDigit (octet % 16)]

def hexdigest (data : List Nat) : List Char := (digest data).flatMap hexOctet

def isHexDigit (c : Char) : Bool := ('0' ≤ c && c ≤ '9') || ('a' ≤ c && c ≤ 'f')

example : hexdigest [97, 98, 99] = "a9993e364706816aba3e25717850c26c9cd0d89d".toList := by decide +kernel

theorem isHexDigit_hexDigit : ∀ d < 16, isHexDigit (hexDigit d) = true := by decide

theorem mem_hexOctet {octet : Nat} (h : octet < 256) {c : Char} (hc : c ∈ hexOctet octet) : isHexDigit c = true := by
  simp only [hexOctet, List.mem_cons, List.not_mem_nil, or_false] at hc
  rcases hc with rfl | rfl
  · exact isHexDigit_hexDigit _ (by omega)
  · exact isHexDigit_hexDigit _ (by omega)

theorem length_round (state : List Nat) (input : Nat × Nat) : (round state input).length = state.length := by
  unfold round
  split
  next => rfl
  next => rfl

theorem length_compress (state block : List Nat) : (compress state block).length = state.length := by
  have hrounds : ∀ inputs : List (Nat × Nat), ∀ start : List Nat, (inputs.foldl round start).length = start.length := by
    intro inputs
    induction inputs with
    | nil => exact fun _ => rfl
    | cons input inputs ih =>
      intro start
      rw [List.foldl_cons, ih, length_round]
  rw [compress, List.length_zipWith, hrounds, Nat.min_self]

theorem length_blocks (blocks : List (List Nat)) (start : List Nat) :
    (blocks.foldl compress start).length = start.length := by
  induction blocks generalizing start with
  | nil => rfl
  | cons block blocks ih => rw [List.foldl_cons, ih, length_compress]

theorem hexdigest_shape (data : List Nat) :
    (hexdigest data).length = 40 ∧ ∀ c ∈ hexdigest data, isHexDigit c = true := by
  constructor
  · have hstate : initialState.length = 5 := rfl
    simp [hexdigest, hexOctet, digest, List.length_flatMap, length_octetsOf, length_blocks, hstate]
  · intro c hc
    obtain ⟨octet, hoctet, hc⟩ := List.mem_flatMap.mp hc
    obtain ⟨_, _, hoctet⟩ := List.mem_flatMap.mp hoctet
    exact mem_hexOctet (octetsOf_lt hoctet) hc

end Sha1
