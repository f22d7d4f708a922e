import Leitir.SnapshotShelves

namespace Leitir.Snapshot

open List

open FileTree (Node Tree WellFormed isDirectory isLink newDirectory permits resolve)
open Archive (Name Path Member Listed Planted Writable LeadInside Destined Open Replayed)
open Shelf (asPosix code)

theorem le_append (a rest : List Nat) : a ≤ a ++ rest := by
  induction a with
  | nil =>
    cases rest with
    | nil => exact le_refl _
    | cons x rest => exact le_of_lt List.Lex.nil
  | cons x a ih =>
    rcases ih.eq_or_lt with heq | hlt
    · rw [cons_append, ← heq]
    · exact le_of_lt (List.Lex.cons hlt)

theorem asPosix_append {front rest : Path} (hne : front ≠ []) (hrest : rest ≠ []) :
    asPosix (front ++ rest) = asPosix front ++ '/' :: asPosix rest := by
  induction front with
  | nil => exact absurd rfl hne
  | cons part front ih =>
    cases front with
    | nil =>
      obtain ⟨next, more, rfl⟩ := exists_cons_of_ne_nil hrest
      rw [singleton_append, asPosix_cons]
      simp [asPosix]
    | cons next front =>
      have hnext := ih (by simp)
      rw [cons_append, cons_append, asPosix_cons, ← cons_append, hnext, asPosix_cons]
      simp

theorem posixKey_le {a b : Path × Node} (hne : a.1 ≠ []) (h : a.1 <+: b.1) : posixKey a ≤ posixKey b := by
  obtain ⟨rest, hrest⟩ := h
  unfold posixKey
  have hle : code (asPosix a.1) ≤ code (asPosix b.1) := by
    by_cases hnil : rest = []
    · rw [← hrest, hnil, append_nil]
    · rw [← hrest, asPosix_append hne hnil]
      unfold code
      rw [map_append]
      exact le_append _ _
  rcases hle.eq_or_lt with heq | hlt
  · rw [heq]
  · exact le_of_lt (List.Lex.rel hlt)

section

variable {tree : Tree} {bases : List Path}

def exportedNodes (tree : Tree) (bases : List Path) (pointers : List Nat) : List (Path × Node) :=
  archivePaths tree bases ++ [([pointersName], .file 0o644 pointers)]

theorem writeTarball_eq (pointers : List Nat) : writeTarball (archivePaths tree bases) pointers =
    rootMember :: (exportedNodes tree bases pointers).map fun item => tarInfo item.1 item.2 := by
  unfold writeTarball exportedNodes
  rw [map_append, cons_append]
  rfl

theorem mem_archivePaths {item : Path × Node} : item ∈ archivePaths tree bases ↔ ∃ base ∈ bases, item ∈ shelfNodes tree base := by
  unfold archivePaths
  rw [KeyedList.mem_sortBy, mem_flatMap]

theorem mem_exportedNodes {pointers : List Nat} {item : Path × Node} :
    item ∈ exportedNodes tree bases pointers ↔
      item = ([pointersName], .file 0o644 pointers) ∨ ∃ base ∈ bases, item ∈ shelfNodes tree base := by
  unfold exportedNodes
  rw [mem_append, mem_archivePaths, mem_singleton]
  exact or_comm

theorem nodup_archivePaths_iff (hshelved : Shelved tree bases) :
    ((archivePaths tree bases).map Prod.fst).Nodup ↔ Apart bases := by
  rw [← nodup_nodes_iff hshelved.wellFormed hshelved.directories]
  exact ((KeyedList.perm_sortBy posixKey (bases.flatMap (shelfNodes tree))).map Prod.fst).nodup_iff

theorem nodup_exportedNodes_iff (hshelved : Shelved tree bases) (pointers : List Nat) :
    ((exportedNodes tree bases pointers).map Prod.fst).Nodup ↔ Apart bases := by
  rw [← nodup_archivePaths_iff hshelved]
  unfold exportedNodes
  rw [map_append, List.nodup_append]
  refine ⟨fun h => h.1, fun h => ⟨h, by simp, ?_⟩⟩
  intro a ha b hb heq
  obtain ⟨item, hitem, rfl⟩ := mem_map.mp ha
  obtain ⟨base, hbase, hnode⟩ := mem_archivePaths.mp hitem
  rw [map_singleton, mem_singleton] at hb
  exact (not_prefix_pointers (hshelved.mem_node hbase hnode).2.2).1 (by rw [heq, hb])

theorem exported_shelves (hshelved : Shelved tree bases) (hapart : Apart bases) (pointers : List Nat) :
    Shelves tree bases (.file 0o644 pointers) (exportedNodes tree bases pointers) := by
  refine ⟨fun item => mem_exportedNodes, ?_⟩
  have hnames : ∀ item ∈ archivePaths tree bases, item.1 ≠ [] ∧ (∀ part ∈ item.1, Plain part) ∧
      ∃ rest, item.1 = "repos".toList :: rest := by
    intro item hitem
    obtain ⟨base, hbase, hnode⟩ := mem_archivePaths.mp hitem
    obtain ⟨-, hlookup, hrepos⟩ := hshelved.mem_node hbase hnode
    have hmem := FileTree.mem_of_lookup hlookup
    exact ⟨(hshelved.wellFormed.named _ hmem).1, hshelved.plain _ hmem, hrepos⟩
  refine pairwise_append.mpr ⟨?_, pairwise_singleton _ _, ?_⟩
  · have hsorted := KeyedList.pairwise_sortBy posixKey (bases.flatMap (shelfNodes tree))
    have hdistinct := (nodup_archivePaths_iff hshelved).mpr hapart
    rw [List.Nodup, pairwise_map] at hdistinct
    refine (hsorted.and hdistinct).imp_of_mem ?_
    rintro a b ha hb ⟨hle, hne⟩ habove
    obtain ⟨hane, haplain, -⟩ := hnames a ha
    obtain ⟨hbne, hbplain, -⟩ := hnames b hb
    exact hne (posixKey_injective hane haplain hbne hbplain (le_antisymm hle (posixKey_le hbne habove)))
  · intro a ha b hb
    rw [mem_singleton.mp hb]
    exact (not_prefix_pointers (hnames a ha).2.2).2

def PlainModes (tree : Tree) : Prop :=
  ∀ place mode data, tree.lookup place = some (.directory mode) ∨ tree.lookup place = some (.file mode data) → mode < 0o1000

theorem exported_named (hshelved : Shelved tree bases) (pointers : List Nat) : Named (exportedNodes tree bases pointers) := by
  intro item hitem
  rcases mem_exportedNodes.mp hitem with rfl | ⟨base, hbase, hnode⟩
  · have hname : [pointersName] ≠ [Archive.manifestName] := by decide
    refine ⟨by simp, fun part hpart => ?_, hname⟩
    rw [mem_singleton.mp hpart]
    exact plain_pointersName
  · obtain ⟨-, hlookup, rest, hrest⟩ := hshelved.mem_node hbase hnode
    have hmem := FileTree.mem_of_lookup hlookup
    refine ⟨(hshelved.wellFormed.named _ hmem).1, hshelved.plain _ hmem, ?_⟩
    rw [hrest]
    intro heq
    exact absurd (List.cons.inj heq).1 (by decide)

theorem forall₂_imp_mem {α β : Type} {R S : α → β → Prop} {xs : List α} {ys : List β} (h : List.Forall₂ R xs ys)
    (himp : ∀ x, ∀ y ∈ ys, R x y → S x y) : List.Forall₂ S xs ys := by
  induction h with
  | nil => exact .nil
  | cons hxy _ ih =>
    obtain ⟨hfirst, hrest⟩ := forall_and.mp fun x => forall_mem_cons.mp (himp x)
    exact .cons (hfirst _ hxy) (ih hrest)

/-- The conditions under which an exported archive can be extracted. -/
structure Extracts (mayWrite : Nat → Bool) (fuel : Nat) (host : Tree) (root : Path) (nodes : List (Path × Node)) : Prop where
  plans : Plans nodes
  chained : Archive.validatePlannedSymlinks fuel (nodes.filterMap plannedLink) = some (.ok ())
  writable : Writable mayWrite nodes
  inside : LeadInside host root nodes

theorem extractTarball_exported {mayWrite : Nat → Bool} (fuel : Nat) {host : Tree} (destination : Path) {root : Path}
    {pointers : List Nat} (hshelved : Shelved tree bases) (hmodes : PlainModes tree)
    (hlimits : WithinLimits (exportedNodes tree bases pointers)) (hopen : Open mayWrite host root)
    (hdest : Destined destination root host)
    (hempty : ∀ place node, host.lookup place = some node → root <+: place → place = root) :
    ((∃ staged, Archive.extractTarball (permits mayWrite) destination fuel (some archiveRoot)
        (writeTarball (archivePaths tree bases) pointers) host = .ok () staged) ↔
      Extracts mayWrite fuel host root (exportedNodes tree bases pointers)) ∧
    ∀ staged, Archive.extractTarball (permits mayWrite) destination fuel (some archiveRoot)
        (writeTarball (archivePaths tree bases) pointers) host = .ok () staged →
      Destined destination root staged ∧ Planted host root (exportedNodes tree bases pointers) staged := by
  obtain ⟨hplans, hplanned⟩ := planMembers_nodes hlimits (exported_named hshelved pointers)
  rw [writeTarball_eq]
  have hcarried : ∀ {items}, List.Forall₂ IsItem items (exportedNodes tree bases pointers) →
      List.Forall₂ Archive.Carries items (exportedNodes tree bases pointers) := by
    intro items hitems
    refine forall₂_imp_mem hitems fun item entry hentry hitem => hitem.carries fun mode data hnode => ?_
    rcases mem_exportedNodes.mp hentry with rfl | ⟨base, hbase, hmem⟩
    · rcases hnode with hnode | hnode
      · cases hnode
      · cases hnode
        decide
    · obtain ⟨-, hlookup, -⟩ := hshelved.mem_node hbase hmem
      refine hmodes entry.1 mode data ?_
      rcases hnode with hnode | hnode
      · exact Or.inl (hnode ▸ hlookup)
      · exact Or.inr (hnode ▸ hlookup)
  by_cases hplan : Plans (exportedNodes tree bases pointers)
  · obtain ⟨planning, hplanning⟩ := hplans.mpr hplan
    obtain ⟨top, items, hsplit, htop, hitems⟩ := hplanned planning hplanning
    have hapart := (nodup_exportedNodes_iff hshelved pointers).mp hplan.distinct
    have hlisted := (exported_shelves hshelved hapart pointers).listed hshelved hapart
    obtain ⟨hiff, hstaged⟩ := Archive.extractPlanned_replays hsplit htop (hcarried hitems) hlisted hopen hdest hempty
    have hlinks : Archive.validatePlannedSymlinks fuel (planning.planned.map Archive.PlannedMember.planned) =
        Archive.validatePlannedSymlinks fuel ((exportedNodes tree bases pointers).filterMap plannedLink) := by
      have htopLink : top.planned.link = none := by
        unfold Archive.PlannedMember.planned Archive.Planned.link
        simp [htop]
      unfold Archive.validatePlannedSymlinks
      rw [hsplit, map_cons, Archive.validateLoop, htopLink]
      exact validateLoop_links hitems fuel []
    constructor
    · constructor
      · rintro ⟨staged, hrun⟩
        obtain ⟨hvalid, hextract⟩ := (Archive.extractTarball_ok_iff hdest hplanning).mp hrun
        obtain ⟨hwritable, hinside⟩ := hiff.mp ⟨staged, hextract⟩
        exact ⟨hplan, hlinks ▸ hvalid, hwritable, hinside⟩
      · intro h
        obtain ⟨staged, hextract⟩ := hiff.mpr ⟨h.writable, h.inside⟩
        exact ⟨staged, (Archive.extractTarball_ok_iff hdest hplanning).mpr ⟨hlinks ▸ h.chained, hextract⟩⟩
    · intro staged hrun
      exact hstaged staged ((Archive.extractTarball_ok_iff hdest hplanning).mp hrun).2
  · have hnever : ∀ staged, Archive.extractTarball (permits mayWrite) destination fuel (some archiveRoot)
        (rootMember :: (exportedNodes tree bases pointers).map fun item => tarInfo item.1 item.2) host ≠ .ok () staged := by
      intro staged hrun
      unfold Archive.extractTarball at hrun
      cases hplanning : Archive.planMembers (some archiveRoot)
          (rootMember :: (exportedNodes tree bases pointers).map fun item => tarInfo item.1 item.2) with
      | error message =>
        rw [hplanning] at hrun
        cases hrun
      | ok planning => exact hplan (hplans.mp ⟨planning, hplanning⟩)
    exact ⟨⟨fun h => h.elim fun staged hrun => absurd hrun (hnever staged), fun h => absurd h.plans hplan⟩,
      fun staged hrun => absurd hrun (hnever staged)⟩

end

section

variable {tree host staged : Tree} {bases : List Path} {nodes : List (Path × Node)} {root destination base : Path} {mode : Nat}
  {data : List Nat}

/-- A shelf that was put below a root is found there as it was. -/
theorem planted_shelf (hplanted : Planted host root nodes staged) (hshelves : Shelves tree bases (.file mode data) nodes)
    (hshelved : Shelved tree bases) (hlisted : Listed nodes) (hbase : base ∈ bases) (rel : Path) :
    staged.lookup (root ++ (base ++ rel)) = tree.lookup (base ++ rel) := by
  obtain ⟨rest, hrest⟩ := hshelved.based base hbase
  have hne : base ++ rel ≠ [] := by simp [hrest]
  have hrepos : ∃ more, base ++ rel = "repos".toList :: more := ⟨rest ++ rel, by rw [hrest]; rfl⟩
  rw [hplanted, Archive.planted_below hne]
  cases hlookup : tree.lookup (base ++ rel) with
  | some node =>
    have hmem : (base ++ rel, node) ∈ nodes :=
      (hshelves.mem _).mpr (Or.inr ⟨base, hbase, (mem_shelfNodes hshelved.wellFormed).mpr ⟨prefix_append _ _, hlookup⟩⟩)
    rw [Archive.lookup_of_nodup hlisted.distinct hmem]
  | none =>
    have hnone : nodes.lookup (base ++ rel) = none := by
      rw [Option.eq_none_iff_forall_not_mem]
      intro node hnode
      rcases (hshelves.mem _).mp (FileTree.mem_of_lookup hnode) with heq | ⟨other, hother, hown⟩
      · exact (not_prefix_pointers hrepos).1 (by rw [(Prod.mk.inj heq).1])
      · rw [(hshelved.mem_node hother hown).2.1] at hlookup
        cases hlookup
    have hany : (nodes.any fun item => decide (base ++ rel <+: item.1)) = false := by
      rw [any_eq_false]
      intro item hitem habove
      rw [decide_eq_true_iff] at habove
      rcases (hshelves.mem item).mp hitem with rfl | ⟨other, hother, hown⟩
      · exact (not_prefix_pointers hrepos).1 habove
      · obtain ⟨-, hitemLookup, -⟩ := hshelved.mem_node hother hown
        obtain ⟨more, hmore⟩ := habove
        rw [← hmore, hshelved.wellFormed.missing_below hne hlookup more] at hitemLookup
        cases hitemLookup
    rw [hnone]
    dsimp only
    rw [hany]
    rfl

theorem below_shelf (hplanted : Planted host root nodes staged) (hwf : WellFormed staged)
    (hshelves : Shelves tree bases (.file mode data) nodes) (hshelved : Shelved tree bases) (hlisted : Listed nodes)
    (hbase : base ∈ bases) : below staged (root ++ base) = below tree base := by
  refine below_congr hshelved.wellFormed hwf hshelved.plain fun rel _ => ?_
  rw [append_assoc]
  exact planted_shelf hplanted hshelves hshelved hlisted hbase rel

theorem directory_shelf (hplanted : Planted host root nodes staged) (hshelves : Shelves tree bases (.file mode data) nodes)
    (hshelved : Shelved tree bases) (hlisted : Listed nodes) (hbase : base ∈ bases) :
    ∃ own, staged.lookup (root ++ base) = some (.directory own) ∧ (base, Node.directory own) ∈ nodes := by
  obtain ⟨own, hown⟩ := hshelved.directories base hbase
  have hlookup := planted_shelf hplanted hshelves hshelved hlisted hbase []
  rw [append_nil, hown] at hlookup
  exact ⟨own, hlookup, (hshelves.mem _).mpr (Or.inr ⟨base, hbase, (mem_shelfNodes hshelved.wellFormed).mpr ⟨prefix_rfl, hown⟩⟩)⟩

theorem shelfAt_eq (hplanted : Planted host root nodes staged) (hdest : Destined destination root staged)
    (hshelves : Shelves tree bases (.file mode data) nodes) (hshelved : Shelved tree bases) (hlisted : Listed nodes)
    (hbase : base ∈ bases) : shelfAt staged (destination ++ base) = below tree base := by
  obtain ⟨own, hown, -⟩ := directory_shelf hplanted hshelves hshelved hlisted hbase
  unfold shelfAt
  rw [FileTree.resolve_plain hdest.wellFormed hdest.resolved hown rfl]
  exact below_shelf hplanted hdest.wellFormed hshelves hshelved hlisted hbase

theorem pointers_planted (hplanted : Planted host root nodes staged) (hshelves : Shelves tree bases (.file mode data) nodes)
    (hlisted : Listed nodes) : staged.lookup (root ++ [pointersName]) = some (.file mode data) := by
  rw [hplanted, Archive.planted_below (by simp), Archive.lookup_of_nodup hlisted.distinct ((hshelves.mem _).mpr (Or.inl rfl))]

theorem pointersAt_eq (hplanted : Planted host root nodes staged) (hdest : Destined destination root staged)
    (hshelves : Shelves tree bases (.file mode data) nodes) (hlisted : Listed nodes) :
    pointersAt staged destination = some data := by
  have hlookup := pointers_planted hplanted hshelves hlisted
  unfold pointersAt
  rw [FileTree.resolve_plain hdest.wellFormed hdest.resolved hlookup rfl]
  dsimp only
  rw [hlookup]

end

section

variable {codec : Codec} {tree host staged : Tree} {entries : List Entry} {nodes : List (Path × Node)} {root destination : Path}
  {mode : Nat} {data : List Nat}

structure Placed (entry : Entry) : Prop where
  plain : ∀ part ∈ entry.place, Plain part
  ne_nil : entry.place ≠ []
  path : asPosix entry.place = entry.path

def imported (entry : Entry) : Entry := { entry with degradedProvenance := none }

theorem validateRecord_ok (hplanted : Planted host root nodes staged) (hdest : Destined destination root staged)
    (hshelves : Shelves tree (entries.map Entry.place) (.file mode data) nodes) (hshelved : Shelved tree (entries.map Entry.place))
    (hlisted : Listed nodes) {entry : Entry} {manifest : Manifest} (hentry : entry ∈ entries) (hplaced : Placed entry)
    (hmanifest : codec.readValidManifest (below tree entry.place) entry.shelf = some manifest) :
    validateRecord codec staged destination (record codec tree (entry, manifest)) = .ok (imported entry) := by
  have hbase : entry.place ∈ entries.map Entry.place := mem_map_of_mem hentry
  obtain ⟨own, hown, hnode⟩ := directory_shelf hplanted hshelves hshelved hlisted hbase
  have hreplayed : Replayed host destination root nodes staged := ⟨hdest, hplanted, fun item hitem => (hlisted.named item hitem).1⟩
  have hsymlink := (hreplayed.isSymlink_eq hlisted hnode).2
  have hdir : FileTree.isDir staged (destination ++ entry.place) = true :=
    FileTree.isDir_iff.mpr ⟨_, FileTree.resolve_plain hdest.wellFormed hdest.resolved hown rfl,
      FileTree.isDirectory_iff.mpr (Or.inr ⟨own, hown⟩)⟩
  have hshelf := shelfAt_eq hplanted hdest hshelves hshelved hlisted hbase
  have hhead : entry.path.head? ≠ some '/' := hplaced.path ▸ (head_posix hplaced.ne_nil hplaced.plain).2
  have hparents : entry.place.any Archive.isParent = false := by
    rw [any_eq_false]
    intro part hpart
    have hparent : Archive.isParent part = false := (FileTree.proper_iff.mp (hplaced.plain part hpart).1).2
    simp [hparent]
  unfold validateRecord record
  dsimp only
  rw [if_neg (by simp), if_neg (by simp [hhead, hparents, hplaced.ne_nil, hplaced.path]), if_neg (by simp [hsymlink, hdir, isLink]),
    hshelf, hmanifest]
  simp only [ne_eq, not_true_eq_false, if_false]
  rfl

theorem validateMembership_ok (hplanted : Planted host root nodes staged) (hdest : Destined destination root staged)
    (hshelves : Shelves tree (entries.map Entry.place) (.file mode data) nodes) (hshelved : Shelved tree (entries.map Entry.place))
    {records : List Record} (hrecords : records.map (fun record => record.entry) = entries) :
    validateMembership staged destination records = .ok () := by
  have hshelf : shelfAt staged destination = below staged root := by
    unfold shelfAt
    rw [hdest.resolved]
  have hdeclared : (records.map fun record => record.entry.place) = entries.map Entry.place := by
    rw [← hrecords, map_map]
    rfl
  unfold validateMembership
  rw [hshelf, hdeclared]
  refine ExceptRun.forM_ok ?_
  rintro ⟨rel, node⟩ hitem
  obtain ⟨hne, hlookup⟩ := (mem_below hdest.wellFormed).mp hitem
  rw [hplanted, Archive.planted_below hne] at hlookup
  unfold validateMember
  cases hnodes : nodes.lookup rel with
  | some own =>
    rw [hnodes] at hlookup
    cases hlookup
    rcases (hshelves.mem _).mp (FileTree.mem_of_lookup hnodes) with heq | ⟨base, hbase, hown⟩
    · cases heq
      rfl
    · obtain ⟨habove, -, hrepos⟩ := hshelved.mem_node hbase hown
      have hother : rel ≠ [pointersName] := fun heq => (not_prefix_pointers hrepos).1 (heq ▸ prefix_rfl)
      dsimp only
      rw [if_neg hother, if_pos (any_eq_true.mpr ⟨base, hbase, by simpa using habove⟩)]
  | none =>
    rw [hnodes] at hlookup
    dsimp only at hlookup ⊢
    split at hlookup
    next hany =>
      cases hlookup
      obtain ⟨item, hmem, hbelow⟩ := any_eq_true.mp hany
      rw [decide_eq_true_iff] at hbelow
      rcases (hshelves.mem item).mp hmem with rfl | ⟨base, hbase, hown⟩
      · -- The only path above the pointers' is their own, and it is a node's.
        rcases prefix_cons_iff.mp hbelow with hnil | ⟨rest, hrest, hshort⟩
        · exact absurd hnil hne
        · rw [hrest, prefix_nil.mp hshort] at hnodes
          have hnot := lookup_eq_none_iff.mp hnodes _ hmem
          simp at hnot
      · obtain ⟨habove, -, hrepos⟩ := hshelved.mem_node hbase hown
        have hother : rel ≠ [pointersName] := fun heq => (not_prefix_pointers hrepos).2 (heq ▸ hbelow)
        rw [if_neg hother]
        split
        next => rfl
        next hinside =>
          have hshort : rel <+: base := by
            rcases prefix_or_prefix_of_prefix hbelow habove with h | h
            · exact h
            · exact absurd (any_eq_true.mpr ⟨base, hbase, by simpa using h⟩) hinside
          rw [if_pos]
          rw [Bool.and_eq_true]
          exact ⟨any_eq_true.mpr ⟨base, hbase, by simpa using hshort⟩, rfl⟩
    next => cases hlookup

end

end Leitir.Snapshot
