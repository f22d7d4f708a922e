import Leitir.SnapshotPlan

namespace Leitir.Snapshot

open List

open FileTree (Node Tree WellFormed isDirectory isLink newDirectory)
open Archive (Name Path Listed Planted)
open Shelf (asPosix code)

section

variable {tree other : Tree} {place : Path}

def PlainNames (tree : Tree) : Prop := ∀ entry ∈ tree, ∀ part ∈ entry.1, Plain part

theorem mem_below (hwf : WellFormed tree) {rel : Path} {node : Node} :
    (rel, node) ∈ below tree place ↔ rel ≠ [] ∧ tree.lookup (place ++ rel) = some node := by
  unfold below
  rw [KeyedList.mem_sortBy, mem_filterMap]
  constructor
  · rintro ⟨⟨own, ownNode⟩, hmem, hsome⟩
    split at hsome
    next hbelow =>
      cases hsome
      obtain ⟨⟨rest, rfl⟩, hne⟩ := hbelow
      rw [drop_left]
      exact ⟨by simpa using hne, hwf.lookup_iff.mpr hmem⟩
    next => cases hsome
  · rintro ⟨hne, hlookup⟩
    refine ⟨(place ++ rel, node), FileTree.mem_of_lookup hlookup, ?_⟩
    rw [if_pos ⟨prefix_append _ _, by simpa using hne⟩, drop_left]

theorem nodup_below (place : Path) (hwf : WellFormed tree) : ((below tree place).map Prod.fst).Nodup := by
  have hperm := KeyedList.perm_sortBy posixKey (tree.filterMap fun item =>
    if place <+: item.1 ∧ item.1 ≠ place then some (item.1.drop place.length, item.2) else none)
  refine (hperm.map Prod.fst).nodup_iff.mpr ?_
  rw [List.Nodup, pairwise_map, pairwise_filterMap]
  have hplaces := hwf.places
  rw [List.Nodup, pairwise_map] at hplaces
  refine hplaces.imp ?_
  intro a b hne x hx y hy heq
  split at hx
  next ha =>
    split at hy
    next hb =>
      cases hx
      cases hy
      obtain ⟨⟨arest, harest⟩, -⟩ := ha
      obtain ⟨⟨brest, hbrest⟩, -⟩ := hb
      rw [← harest, ← hbrest, drop_left, drop_left] at heq
      have hrest : arest = brest := heq
      exact hne (by rw [← harest, ← hbrest, hrest])
    next => cases hy
  next => cases hx

theorem posixKey_injective {a b : Path × Node} (hne : a.1 ≠ []) (h : ∀ part ∈ a.1, Plain part) (hne' : b.1 ≠ [])
    (h' : ∀ part ∈ b.1, Plain part) (heq : posixKey a = posixKey b) : a.1 = b.1 := by
  unfold posixKey code at heq
  have hcode := List.cons.inj heq
  have htext : asPosix a.1 = asPosix b.1 := map_injective_iff.mpr (fun _ _ h => Char.toNat_inj.mp h) hcode.1
  exact posix_injective hne h hne' h' htext

/-- What is below a place is told by what is found there. -/
theorem below_congr {base : Path} (hwf : WellFormed tree) (hother : WellFormed other) (hplain : PlainNames tree)
    (hsame : ∀ rel, rel ≠ [] → other.lookup (place ++ rel) = tree.lookup (base ++ rel)) :
    below other place = below tree base := by
  have hmem : ∀ item, item ∈ below other place ↔ item ∈ below tree base := by
    rintro ⟨rel, node⟩
    rw [mem_below hother, mem_below hwf]
    exact and_congr_right fun hne => by rw [hsame rel hne]
  have hnodup : ∀ {t : Tree} {p : Path}, WellFormed t → (below t p).Nodup := fun h => (nodup_below _ h).of_map
  have hperm := (perm_ext_iff_of_nodup (hnodup hother) (hnodup hwf)).mpr hmem
  refine hperm.eq_of_pairwise ?_ (KeyedList.pairwise_sortBy _ _) (KeyedList.pairwise_sortBy _ _)
  rintro ⟨arel, anode⟩ ⟨brel, bnode⟩ ha hb hle hge
  obtain ⟨hane, halookup⟩ := (mem_below hwf).mp ((hmem _).mp ha)
  obtain ⟨hbne, hblookup⟩ := (mem_below hwf).mp hb
  have hnames : ∀ {rel : Path} {node : Node}, tree.lookup (base ++ rel) = some node → ∀ part ∈ rel, Plain part :=
    fun h part hpart => hplain _ (FileTree.mem_of_lookup h) part (mem_append_right _ hpart)
  have heq : arel = brel := posixKey_injective (a := (arel, anode)) (b := (brel, bnode)) hane (hnames halookup) hbne
    (hnames hblookup) (le_antisymm hle hge)
  subst heq
  rw [halookup] at hblookup
  cases hblookup
  rfl

end

section

variable {tree : Tree} {bases : List Path}

theorem mem_shelfNodes (hwf : WellFormed tree) {base : Path} {item : Path × Node} :
    item ∈ shelfNodes tree base ↔ base <+: item.1 ∧ tree.lookup item.1 = some item.2 := by
  obtain ⟨path, node⟩ := item
  unfold shelfNodes
  rw [mem_append, mem_map, mem_map]
  constructor
  · rintro (⟨own, hown, heq⟩ | ⟨⟨rel, own⟩, hown, heq⟩)
    · cases heq
      exact ⟨prefix_rfl, Option.mem_toList.mp hown⟩
    · cases heq
      exact ⟨prefix_append _ _, ((mem_below hwf).mp hown).2⟩
  · rintro ⟨⟨rel, rfl⟩, hlookup⟩
    by_cases hne : rel = []
    · subst hne
      rw [append_nil] at hlookup ⊢
      exact Or.inl ⟨node, Option.mem_toList.mpr hlookup, rfl⟩
    · exact Or.inr ⟨(rel, node), (mem_below hwf).mpr ⟨hne, hlookup⟩, rfl⟩

theorem nodup_shelfNodes (hwf : WellFormed tree) (base : Path) : ((shelfNodes tree base).map Prod.fst).Nodup := by
  unfold shelfNodes
  rw [map_append, map_map, map_map, List.nodup_append]
  refine ⟨?_, ?_, ?_⟩
  · cases tree.lookup base with
    | none => simp
    | some node => simp
  · have hbelow := nodup_below base hwf
    rw [List.Nodup, pairwise_map] at hbelow ⊢
    exact hbelow.imp fun hne heq => hne (append_cancel_left heq)
  · intro a ha b hb
    obtain ⟨own, -, rfl⟩ := mem_map.mp ha
    obtain ⟨⟨rel, node⟩, hmem, rfl⟩ := mem_map.mp hb
    have hne := ((mem_below hwf).mp hmem).1
    simpa using Ne.symm hne

def Apart (bases : List Path) : Prop := bases.Pairwise fun a b => ¬ a <+: b ∧ ¬ b <+: a

theorem Apart.not_prefix (h : Apart bases) {a b : Path} (ha : a ∈ bases) (hb : b ∈ bases) (hne : a ≠ b) : ¬ a <+: b := by
  have hsymm : Std.Symm fun x y : Path => ¬ x <+: y ∧ ¬ y <+: x := ⟨fun _ _ hxy => ⟨hxy.2, hxy.1⟩⟩
  exact (List.Pairwise.forall h ha hb hne).1

/-- The nodes of all shelves are distinct exactly when the shelves are apart. -/
theorem nodup_nodes_iff (hwf : WellFormed tree) (hbases : ∀ base ∈ bases, ∃ mode, tree.lookup base = some (.directory mode)) :
    ((bases.flatMap (shelfNodes tree)).map Prod.fst).Nodup ↔ Apart bases := by
  rw [map_flatMap, nodup_flatMap]
  constructor
  · rintro ⟨-, hdisjoint⟩
    refine hdisjoint.imp_of_mem ?_
    intro a b ha hb hab
    obtain ⟨amode, hamode⟩ := hbases a ha
    obtain ⟨bmode, hbmode⟩ := hbases b hb
    have hmem : ∀ {base path : Path} {node : Node}, base <+: path → tree.lookup path = some node →
        path ∈ (shelfNodes tree base).map Prod.fst :=
      fun hprefixed hlookup => mem_map.mpr ⟨(_, _), (mem_shelfNodes hwf).mpr ⟨hprefixed, hlookup⟩, rfl⟩
    exact ⟨fun h => hab (hmem h hbmode) (hmem prefix_rfl hbmode),
      fun h => hab (hmem prefix_rfl hamode) (hmem h hamode)⟩
  · intro hapart
    refine ⟨fun base _ => nodup_shelfNodes hwf base, hapart.imp ?_⟩
    intro a b hab path ha hb
    obtain ⟨⟨own, node⟩, hown, rfl⟩ := mem_map.mp ha
    obtain ⟨⟨same, other⟩, hsame, heq⟩ := mem_map.mp hb
    have hleft := ((mem_shelfNodes hwf).mp hown).1
    have hright := ((mem_shelfNodes hwf).mp hsame).1
    simp only at heq hleft hright
    rw [heq] at hright
    rcases prefix_or_prefix_of_prefix hleft hright with h | h
    · exact hab.1 h
    · exact hab.2 h

/-- The nodes of shelves, in some order, with one more file at the top. -/
structure Shelves (tree : Tree) (bases : List Path) (pointers : Node) (nodes : List (Path × Node)) : Prop where
  mem : ∀ item, item ∈ nodes ↔ item = ([pointersName], pointers) ∨ ∃ base ∈ bases, item ∈ shelfNodes tree base
  first : nodes.Pairwise fun a b => ¬ b.1 <+: a.1

/-- The shelves of a corpus: directories of its tree below its first directory. -/
structure Shelved (tree : Tree) (bases : List Path) : Prop where
  wellFormed : WellFormed tree
  plain : PlainNames tree
  based : ∀ base ∈ bases, ∃ rest, base = "repos".toList :: rest
  directories : ∀ base ∈ bases, ∃ mode, tree.lookup base = some (.directory mode)

theorem Shelved.mem_node (h : Shelved tree bases) {base : Path} (hbase : base ∈ bases) {item : Path × Node}
    (hitem : item ∈ shelfNodes tree base) :
    base <+: item.1 ∧ tree.lookup item.1 = some item.2 ∧ ∃ rest, item.1 = "repos".toList :: rest := by
  obtain ⟨habove, hlookup⟩ := (mem_shelfNodes h.wellFormed).mp hitem
  obtain ⟨rest, rfl⟩ := h.based base hbase
  obtain ⟨more, hmore⟩ := habove
  exact ⟨⟨more, hmore⟩, hlookup, rest ++ more, by rw [← hmore]; rfl⟩

theorem plain_pointersName : Plain pointersName := by
  unfold Plain
  decide

theorem repos_ne : "repos".toList ≠ pointersName := by decide

theorem not_prefix_pointers {p : Path} (hp : ∃ rest, p = "repos".toList :: rest) :
    ¬ p <+: [pointersName] ∧ ¬ [pointersName] <+: p := by
  obtain ⟨rest, rfl⟩ := hp
  constructor
  · intro h
    exact repos_ne (cons_prefix_cons.mp h).1
  · intro h
    exact repos_ne (cons_prefix_cons.mp h).1.symm

/-- The nodes of shelves that are apart can be put in place one after the other. -/
theorem Shelves.listed {nodes : List (Path × Node)} {mode : Nat} {data : List Nat}
    (h : Shelves tree bases (.file mode data) nodes) (hshelved : Shelved tree bases) (hapart : Apart bases) : Listed nodes := by
  have hwf := hshelved.wellFormed
  -- The parent of a node that is not the directory of its shelf is a node of the same shelf.
  have hparent : ∀ base ∈ bases, ∀ b ∈ shelfNodes tree base, b.1 ≠ base →
      ∃ mode, (b.1.dropLast, Node.directory mode) ∈ nodes := by
    intro base hbase b hb hne
    obtain ⟨⟨rel, hrel⟩, hlookup, -⟩ := hshelved.mem_node hbase hb
    have hrelne : rel ≠ [] := by
      rintro rfl
      exact hne (by rw [← hrel, append_nil])
    have hsplit : b.1.dropLast ++ [rel.getLast hrelne] = b.1 := by
      rw [← hrel, dropLast_append_of_ne_nil hrelne, append_assoc, dropLast_append_getLast hrelne]
    have hdir : isDirectory tree b.1.dropLast = true := by
      rw [← hsplit] at hlookup
      exact hwf.above (by simp) hlookup
    rcases FileTree.isDirectory_iff.mp hdir with hnil | ⟨own, hown⟩
    · obtain ⟨rest, rfl⟩ := hshelved.based base hbase
      rw [← hrel, dropLast_append_of_ne_nil hrelne] at hnil
      simp at hnil
    · refine ⟨own, (h.mem _).mpr (Or.inr ⟨base, hbase, (mem_shelfNodes hwf).mpr ⟨?_, hown⟩⟩)⟩
      rw [← hrel, dropLast_append_of_ne_nil hrelne]
      exact prefix_append _ _
  refine ⟨?_, h.first, ?_, ?_, ?_⟩
  · intro item hitem
    rcases (h.mem item).mp hitem with rfl | ⟨base, hbase, hnode⟩
    · refine ⟨by simp, fun part hpart => ?_⟩
      rw [mem_singleton.mp hpart]
      exact plain_pointersName.1
    · obtain ⟨-, hlookup, -⟩ := hshelved.mem_node hbase hnode
      exact hwf.named _ (FileTree.mem_of_lookup hlookup)
  · intro a ha b hb habove hne
    rcases (h.mem a).mp ha with rfl | ⟨abase, habase, hanode⟩
    · rcases (h.mem b).mp hb with rfl | ⟨bbase, hbbase, hbnode⟩
      · exact absurd rfl hne
      · exact absurd habove (not_prefix_pointers (hshelved.mem_node hbbase hbnode).2.2).2
    · obtain ⟨-, halookup, harepos⟩ := hshelved.mem_node habase hanode
      rcases (h.mem b).mp hb with rfl | ⟨bbase, hbbase, hbnode⟩
      · exact absurd habove (not_prefix_pointers harepos).1
      · obtain ⟨-, hblookup, -⟩ := hshelved.mem_node hbbase hbnode
        obtain ⟨rest, hrest⟩ := habove
        have hrestne : rest ≠ [] := by
          rintro rfl
          exact hne (by rw [← hrest, append_nil])
        rw [← hrest] at hblookup
        rcases FileTree.isDirectory_iff.mp (hwf.above hrestne hblookup) with hnil | ⟨own, hown⟩
        · obtain ⟨more, hmore⟩ := harepos
          rw [hmore] at hnil
          cases hnil
        · rw [halookup] at hown
          exact ⟨own, Option.some.inj hown⟩
  · intro a ha b hb habove hne
    rcases (h.mem b).mp hb with rfl | ⟨bbase, hbbase, hbnode⟩
    · rcases (h.mem a).mp ha with rfl | ⟨abase, habase, hanode⟩
      · exact absurd rfl hne
      · exact absurd habove (not_prefix_pointers (hshelved.mem_node habase hanode).2.2).1
    · refine hparent bbase hbbase b hbnode ?_
      intro hbase
      rcases (h.mem a).mp ha with rfl | ⟨abase, habase, hanode⟩
      · exact absurd habove (not_prefix_pointers (hshelved.mem_node hbbase hbnode).2.2).2
      · -- The directory of a shelf would be inside another shelf.
        have hinside : abase <+: bbase := (hshelved.mem_node habase hanode).1.trans (hbase ▸ habove)
        have heq : abase = bbase := by
          by_contra hdiffer
          exact hapart.not_prefix habase hbbase hdiffer hinside
        have hback : bbase <+: a.1 := heq ▸ (hshelved.mem_node habase hanode).1
        exact hne (habove.eq_of_length_le (hbase ▸ hback.length_le))
  · intro b hb
    rcases (h.mem b).mp hb with rfl | ⟨base, hbase, hnode⟩
    · exact Or.inr (Or.inl rfl)
    · by_cases heq : b.1 = base
      · obtain ⟨own, hown⟩ := hshelved.directories base hbase
        obtain ⟨-, hlookup, -⟩ := hshelved.mem_node hbase hnode
        rw [heq, hown] at hlookup
        exact Or.inl ⟨own, (Option.some.inj hlookup).symm⟩
      · exact Or.inr (Or.inr (hparent base hbase b hnode heq))

end

end Leitir.Snapshot
