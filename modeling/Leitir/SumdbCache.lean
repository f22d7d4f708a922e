import Leitir.SumdbClient

namespace Leitir.Sumdb

section

variable {α β : Type}

variable {c d : Client} {b : α}

theorem bind_ok {first : Method α} {next : α → Method β} {b : β} :
    (first >>= next) c = (.ok b, d) ↔
      ∃ a m, first c = (.ok a, m) ∧ next a m = (.ok b, d) := by
  change Method.andThen first next c = _ ↔ _
  unfold Method.andThen
  constructor
  · intro h
    split at h
    next a m hm => exact ⟨a, m, hm, h⟩
    next => simp at h
  · rintro ⟨a, m, hm, h⟩
    rw [hm]
    exact h

theorem pure_ok {a : α} : (pure a : Method α) c = (.ok b, d) ↔ a = b ∧ c = d := by
  change ((.ok a, c) : Except Failure α × Client) = _ ↔ _
  simp

theorem fail_ok {failure : Failure} :
    ¬ (Method.fail failure : Method α) c = (.ok b, d) := by
  simp [Method.fail]

theorem check_ok {result : Except Failure α} :
    Method.check result c = (.ok b, d) ↔ result = .ok b ∧ c = d := by
  simp [Method.check]

theorem client_ok {e : Client} : Method.client c = (.ok d, e) ↔ d = c ∧ e = c := by
  simp [Method.client, eq_comm]

theorem guard_ok {p : Prop} [Decidable p] {failure : Failure} {body : Method α} :
    (if p then Method.fail failure else body) c = (.ok b, d) ↔ ¬ p ∧ body c = (.ok b, d) := by
  split
  next h => simp [h, fail_ok]
  next h => simp [h]

theorem withTreeSize_ok {size : Nat} {body : Method α}
    (h : Method.withTreeSize size body c = (.ok b, d)) :
    ∃ m, body { c with treeSize := some size } = (.ok b, m) ∧ d = { m with treeSize := c.treeSize } := by
  unfold Method.withTreeSize at h
  obtain ⟨he, hd⟩ := Prod.mk.inj h
  refine ⟨(body { c with treeSize := some size }).2, ?_, hd.symm⟩
  rw [← he]

end

def Grows (c d : Client) : Prop :=
  d.treeSize = c.treeSize ∧ ∀ t data, c.tiles.lookup t = some data → d.tiles.lookup t = some data

theorem Grows.refl (c : Client) : Grows c c := ⟨rfl, fun _ _ h => h⟩

theorem Grows.trans {a b c : Client} (h : Grows a b) (k : Grows b c) : Grows a c :=
  ⟨k.1.trans h.1, fun t data hl => k.2 t data (h.2 t data hl)⟩

section

variable {sha256 : Bytes → Bytes} {server : Server}

variable {c d : Client} {t : Tile} {data digest : Bytes} {size : Option Nat} {index level number : Nat}

theorem fetch_keeps_tiles {path : List Char} {result : Except Failure Bytes}
    (h : fetch server path c = (result, d)) : d.tiles = c.tiles ∧ d.treeSize = c.treeSize := by
  unfold fetch at h
  dsimp only at h
  split at h
  next =>
    split at h
    next => cases h; exact ⟨rfl, rfl⟩
    next => cases h; exact ⟨rfl, rfl⟩
  next => cases h; exact ⟨rfl, rfl⟩
  next => cases h; exact ⟨rfl, rfl⟩

theorem lookup_cons_ne {s : Tile} (hne : s ≠ t) (data : Bytes) (tiles : List (Tile × Bytes)) :
    List.lookup s ((t, data) :: tiles) = List.lookup s tiles := by
  rw [List.lookup_cons, beq_false_of_ne hne]

theorem remember_grows (fresh : c.tiles.lookup t = none)
    (h : Method.remember t data c = (.ok (), d)) : Grows c d ∧ d.tiles.lookup t = some data := by
  have hd : d = { c with tiles := (t, data) :: c.tiles } := (Prod.mk.inj h).2.symm
  subst hd
  refine ⟨⟨rfl, ?_⟩, by simp⟩
  intro s old hs
  have hne : s ≠ t := by
    rintro rfl
    rw [fresh] at hs
    exact absurd hs (by simp)
  rw [lookup_cons_ne hne]
  exact hs

theorem fullTile_ok {full : Tile}
    (h : fullTile server full c = (.ok data, d)) :
    Grows c d ∧ ∀ s, s ≠ full → d.tiles.lookup s = c.tiles.lookup s := by
  obtain ⟨now, after, hc, hn⟩ := bind_ok.mp h
  obtain ⟨hnow, hafter⟩ := client_ok.mp hc
  subst now after
  cases fresh : c.tiles.lookup full with
  | some cached =>
    simp only [fresh] at hn
    obtain ⟨_, rfl⟩ := pure_ok.mp hn
    exact ⟨Grows.refl _, fun _ _ => rfl⟩
  | none =>
    simp only [fresh] at hn
    obtain ⟨body, m, hf, h⟩ := bind_ok.mp hn
    obtain ⟨htiles, hsize⟩ := fetch_keeps_tiles hf
    obtain ⟨_, h⟩ := guard_ok.mp h
    obtain ⟨_, m', hr, h⟩ := bind_ok.mp h
    obtain ⟨_, rfl⟩ := pure_ok.mp h
    have hm := (Prod.mk.inj hr).2
    obtain ⟨hg, _⟩ := remember_grows (by rw [htiles]; exact fresh) hr
    refine ⟨⟨hg.1.trans hsize, fun s old hs => hg.2 s old (by rw [htiles]; exact hs)⟩, ?_⟩
    intro s hne
    rw [← hm, ← htiles]
    exact lookup_cons_ne hne _ _

theorem fetchTile_ok
    (h : fetchTile server t c = (.ok data, d)) :
    Grows c d ∧ d.tiles.lookup t = c.tiles.lookup t := by
  unfold fetchTile Method.orElse at h
  split at h
  next body m hf =>
    obtain ⟨htiles, hsize⟩ := fetch_keeps_tiles hf
    have hd := (Prod.mk.inj h).2
    subst hd
    exact ⟨⟨hsize, fun s old hs => by rw [htiles]; exact hs⟩, by rw [htiles]⟩
  next failure m hf =>
    obtain ⟨htiles, hsize⟩ := fetch_keeps_tiles hf
    have start : Grows c m := ⟨hsize, fun s old hs => by rw [htiles]; exact hs⟩
    cases failure with
    | verification message =>
      obtain ⟨hcond, h⟩ := guard_ok.mp h
      obtain ⟨whole, m', hw, h⟩ := bind_ok.mp h
      obtain ⟨_, rfl⟩ := pure_ok.mp h
      obtain ⟨hg, hother⟩ := fullTile_ok hw
      refine ⟨start.trans hg, ?_⟩
      rw [hother t, htiles]
      intro heq
      exact hcond (Or.inl (congrArg Tile.width heq))
    | value message => exact absurd h fail_ok
    | other => exact absurd h fail_ok

theorem tile_ok (h : tile server t c = (.ok data, d)) :
    Grows c d ∧ d.tiles.lookup t = some data := by
  obtain ⟨now, after, hc, hn⟩ := bind_ok.mp h
  obtain ⟨hnow, hafter⟩ := client_ok.mp hc
  subst now after
  cases fresh : c.tiles.lookup t with
  | some cached =>
    simp only [fresh] at hn
    obtain ⟨rfl, rfl⟩ := pure_ok.mp hn
    exact ⟨Grows.refl _, fresh⟩
  | none =>
    simp only [fresh] at hn
    obtain ⟨body, m, hf, h⟩ := bind_ok.mp hn
    obtain ⟨hg, hl⟩ := fetchTile_ok hf
    obtain ⟨_, h⟩ := guard_ok.mp h
    obtain ⟨_, m', hr, h⟩ := bind_ok.mp h
    obtain ⟨rfl, rfl⟩ := pure_ok.mp h
    obtain ⟨hg', hd⟩ := remember_grows (hl.trans fresh) hr
    exact ⟨hg.trans hg', hd⟩

def Reads (sha256 : Bytes → Bytes) (c : Client) (size : Option Nat) (index : Nat) (digest : Bytes) : Prop :=
  ∃ clamped data, clampTile size (tileForIndex index).1 = .ok clamped ∧
    c.tiles.lookup clamped = some data ∧ hashFromTile sha256 clamped data index = .ok digest

theorem Reads.mono
    (h : Reads sha256 c size index digest) (hg : Grows c d) : Reads sha256 d size index digest := by
  obtain ⟨clamped, data, hc, hl, hh⟩ := h
  exact ⟨clamped, data, hc, hg.2 _ _ hl, hh⟩

theorem hash_ok_iff :
    hash sha256 server index c = (.ok digest, d) ↔
      ∃ clamped data, clampTile c.treeSize (tileForIndex index).1 = .ok clamped ∧
        tile server clamped c = (.ok data, d) ∧ hashFromTile sha256 clamped data index = .ok digest := by
  constructor
  · intro h
    obtain ⟨now, after, hc, hn⟩ := bind_ok.mp h
    obtain ⟨hnow, hafter⟩ := client_ok.mp hc
    subst now after
    obtain ⟨clamped, m, hk, h⟩ := bind_ok.mp hn
    obtain ⟨hclamp, rfl⟩ := check_ok.mp hk
    obtain ⟨data, m', ht, h⟩ := bind_ok.mp h
    obtain ⟨hread, rfl⟩ := check_ok.mp h
    exact ⟨clamped, data, hclamp, ht, hread⟩
  · rintro ⟨clamped, data, hclamp, ht, hread⟩
    unfold hash
    apply bind_ok.mpr
    refine ⟨c, c, client_ok.mpr ⟨rfl, rfl⟩, ?_⟩
    apply bind_ok.mpr
    refine ⟨clamped, c, check_ok.mpr ⟨hclamp, rfl⟩, ?_⟩
    apply bind_ok.mpr
    exact ⟨data, d, ht, check_ok.mpr ⟨hread, rfl⟩⟩

theorem hash_ok
    (h : hash sha256 server index c = (.ok digest, d)) :
    Grows c d ∧ Reads sha256 d c.treeSize index digest := by
  obtain ⟨clamped, data, hclamp, ht, hread⟩ := hash_ok_iff.mp h
  obtain ⟨hg, hl⟩ := tile_ok ht
  exact ⟨hg, clamped, data, hclamp, hl, hread⟩

theorem hashes_ok {indexes : List Nat} {parts : List Bytes}
    (h : hashes sha256 server indexes c = (.ok parts, d)) :
    Grows c d ∧ List.Forall₂ (Reads sha256 d c.treeSize) indexes parts := by
  induction indexes generalizing parts c with
  | nil =>
    obtain ⟨rfl, rfl⟩ := pure_ok.mp h
    exact ⟨Grows.refl _, List.Forall₂.nil⟩
  | cons index rest ih =>
    obtain ⟨first, m, hf, h⟩ := bind_ok.mp h
    obtain ⟨others, m', ho, h⟩ := bind_ok.mp h
    obtain ⟨rfl, rfl⟩ := pure_ok.mp h
    obtain ⟨hg, hr⟩ := hash_ok hf
    obtain ⟨hg', hrs⟩ := ih ho
    rw [hg.1] at hrs
    exact ⟨hg.trans hg', List.Forall₂.cons (hr.mono hg') hrs⟩

theorem hashFromTile_fits (hlevel : t.level = level / 8)
    (hnumber : t.number = number * 2 ^ (level % 8) / 256)
    (hfit : number * 2 ^ (level % 8) % 256 + 2 ^ (level % 8) ≤ t.width) (hlen : data.length = t.width * 32) :
    hashFromTile sha256 t data (storedHashIndex level number) =
      .ok (Merkle.root (nodeHash sha256) (sha256 [])
        (cellRange data (number * 2 ^ (level % 8) % 256) (2 ^ (level % 8)))) := by
  have hslice : ((data.take ((number * 2 ^ (level % 8) % 256 + 2 ^ (level % 8)) * 32)).drop
      (number * 2 ^ (level % 8) % 256 * 32)).length = 2 ^ (level % 8) * 32 := by
    have hle := Nat.mul_le_mul_right 32 hfit
    rw [List.length_drop, List.length_take, hlen]
    omega
  simp only [hashFromTile, tileForIndex_storedHashIndex, hlevel, hnumber, hlen]
  rw [if_neg (by simpa using hfit), if_neg (by simp), tileHash_eq_root sha256 hslice, cellRange_slice]

/-- What a successful read of a stored hash has looked at: the cells of one
cached tile that its subtree covers. -/
theorem Reads.cells
    (h : Reads sha256 c size (storedHashIndex level number) digest) :
    ∃ clamped data, clampTile size ⟨level / 8, number * 2 ^ (level % 8) / 256,
        number * 2 ^ (level % 8) % 256 + 2 ^ (level % 8)⟩ = .ok clamped ∧
      c.tiles.lookup clamped = some data ∧
      number * 2 ^ (level % 8) % 256 + 2 ^ (level % 8) ≤ clamped.width ∧
      data.length = clamped.width * 32 ∧
      digest = Merkle.root (nodeHash sha256) (sha256 [])
        (cellRange data (number * 2 ^ (level % 8) % 256) (2 ^ (level % 8))) := by
  obtain ⟨clamped, data, hclamp, hl, hh⟩ := h
  rw [tileForIndex_storedHashIndex] at hclamp
  refine ⟨clamped, data, hclamp, hl, ?_⟩
  have hread := hh
  simp only [hashFromTile, tileForIndex_storedHashIndex] at hh
  split at hh
  next => simp at hh
  next hfit =>
    split at hh
    next => simp at hh
    next hlen =>
      simp only [ne_eq, not_or, not_lt, not_not] at hfit hlen
      obtain ⟨hlevel, hnumber, hwidth⟩ := hfit
      rw [hashFromTile_fits hlevel hnumber hwidth hlen] at hread
      exact ⟨hwidth, hlen, (Except.ok.inj hread).symm⟩

theorem Reads.length (model : HashModel sha256) (h : Reads sha256 c size (storedHashIndex level number) digest) :
    digest.length = 32 := by
  obtain ⟨clamped, data, _, _, hfit, hlen, rfl⟩ := h.cells
  exact root_length model.length (mem_cellRange_length hlen hfit)

end

end Leitir.Sumdb
