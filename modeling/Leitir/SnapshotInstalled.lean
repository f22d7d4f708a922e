import Leitir.SnapshotImported

namespace Leitir.Snapshot

open List

open FileTree (Node Tree WellFormed isDirectory isLink newDirectory resolve)
open Archive (Name Path Listed Planted Destined Replayed Fits FitsAll)
open Shelf (asPosix code)

section

variable {tree : Tree} {bases : List Path}

/-- The nodes of one shelf come after their parents. -/
theorem shelfNodes_first (hwf : WellFormed tree) (hplain : PlainNames tree) (base : Path) :
    (shelfNodes tree base).Pairwise fun a b => ¬ b.1 <+: a.1 := by
  unfold shelfNodes
  refine pairwise_append.mpr ⟨?_, ?_, ?_⟩
  · cases tree.lookup base with
    | none => exact .nil
    | some node => exact pairwise_singleton _ _
  · rw [pairwise_map]
    have hdistinct := nodup_below base hwf
    rw [List.Nodup, pairwise_map] at hdistinct
    refine ((KeyedList.pairwise_sortBy posixKey _).and hdistinct).imp_of_mem ?_
    rintro ⟨a, anode⟩ ⟨b, bnode⟩ ha hb ⟨hle, hne⟩ habove
    have hnames : ∀ {rel : Path} {node : Node}, (rel, node) ∈ below tree base → rel ≠ [] ∧ ∀ part ∈ rel, Plain part := by
      intro rel node hmem
      obtain ⟨hrel, hlookup⟩ := (mem_below hwf).mp hmem
      exact ⟨hrel, fun part hpart => hplain _ (FileTree.mem_of_lookup hlookup) part (mem_append_right _ hpart)⟩
    obtain ⟨hane, haplain⟩ := hnames ha
    obtain ⟨hbne, hbplain⟩ := hnames hb
    have hshort : b <+: a := (prefix_append_right_inj base).mp habove
    exact hne (posixKey_injective (a := (a, anode)) (b := (b, bnode)) hane haplain hbne hbplain
      (le_antisymm hle (posixKey_le (a := (b, bnode)) (b := (a, anode)) hbne hshort)))
  · intro a ha b hb habove
    obtain ⟨own, -, rfl⟩ := mem_map.mp ha
    obtain ⟨⟨rel, node⟩, hmem, rfl⟩ := mem_map.mp hb
    have hne := ((mem_below hwf).mp hmem).1
    have hlength := habove.length_le
    dsimp only at hlength
    rw [length_append] at hlength
    have hpos := length_pos_of_ne_nil hne
    omega

def installedNodes (tree : Tree) (bases : List Path) (pointers : List Nat) : List (Path × Node) :=
  bases.flatMap (shelfNodes tree) ++ [([pointersName], .file 0o644 pointers)]

theorem installed_shelves (hshelved : Shelved tree bases) (hapart : Apart bases) (pointers : List Nat) :
    Shelves tree bases (.file 0o644 pointers) (installedNodes tree bases pointers) := by
  refine ⟨fun item => ?_, ?_⟩
  · unfold installedNodes
    rw [mem_append, mem_flatMap, mem_singleton]
    exact or_comm
  · refine pairwise_append.mpr ⟨pairwise_flatMap.mpr ⟨?_, ?_⟩, pairwise_singleton _ _, ?_⟩
    · exact fun base _ => shelfNodes_first hshelved.wellFormed hshelved.plain base
    · refine hapart.imp_of_mem ?_
      intro a b ha hb hab x hx y hy habove
      have hleft := (hshelved.mem_node ha hx).1
      have hright := (hshelved.mem_node hb hy).1.trans habove
      rcases prefix_or_prefix_of_prefix hleft hright with h | h
      · exact hab.1 h
      · exact hab.2 h
    · intro a ha b hb
      obtain ⟨base, hbase, hnode⟩ := mem_flatMap.mp ha
      rw [mem_singleton.mp hb]
      exact (not_prefix_pointers (hshelved.mem_node hbase hnode).2.2).2

end

section

variable {tree host staged installed : Tree} {done : List (Path × Node)} {root staging : Path}

theorem destined_top (hwf : WellFormed installed) : Destined [] [] installed :=
  ⟨hwf, FileTree.walk_nil _ _, rfl⟩

/-- Nodes whose parents are there are put in place together. -/
theorem append_replays {rest : List (Path × Node)} (hreplayed : Replayed [] [] [] done installed) (hfits : FitsAll done rest)
    (habove : ∀ item ∈ rest, ∃ other ∈ done, other.1 <+: item.1) : Replayed [] [] [] (done ++ rest) (installed ++ rest) := by
  induction rest generalizing done installed with
  | nil =>
    rw [append_nil, append_nil]
    exact hreplayed
  | cons item rest ih =>
    obtain ⟨hitem, hrest⟩ := hfits
    obtain ⟨⟨other, hother, hshort⟩, hothers⟩ := forall_mem_cons.mp habove
    have hdir := hreplayed.parent (p := item.1) (Or.inr (hitem.dense other hother hshort))
    have hnext : Replayed [] [] [] (done ++ [item]) (installed ++ [item]) := by
      refine ⟨hitem.concat hreplayed hdir item.2, hitem.planted hreplayed hdir ?_ ?_, hitem.names hreplayed⟩
      · exact (FileTree.lookup_concat (hitem.missing hreplayed)).trans (if_pos rfl)
      · intro place hplace
        exact (FileTree.lookup_concat (hitem.missing hreplayed)).trans (if_neg hplace)
    have hlast := ih hnext hrest fun next hmem => by
      obtain ⟨above, hin, hprefixed⟩ := hothers next hmem
      exact ⟨above, mem_append_left _ hin, hprefixed⟩
    rw [append_assoc, append_assoc, singleton_append] at hlast
    exact hlast

/-- One shelf is installed as it was staged. -/
theorem installEntry_ok {entry : Entry} {own : Nat} (hreplayed : Replayed [] [] [] done installed)
    (hstaged : staged.lookup (root ++ entry.place) = some (.directory own))
    (hresolve : resolve staged (staging ++ entry.place) = .ok (root ++ entry.place))
    (hnodes : shelfNodes tree entry.place =
      (entry.place, .directory own) :: (below staged (root ++ entry.place)).map fun item => (entry.place ++ item.1, item.2))
    (hfits : FitsAll done (shelfNodes tree entry.place)) :
    ∃ later, installEntry staged staging entry installed = .ok () later ∧
      Replayed [] [] [] (done ++ shelfNodes tree entry.place) later := by
  rw [hnodes] at hfits ⊢
  obtain ⟨hitem, hrest⟩ := hfits
  obtain ⟨front, name, hplace, hname⟩ := hitem.split
  dsimp only at hplace
  have hdest := hreplayed.destined
  have hclear := hitem.clear hreplayed
  have hmissing : installed.lookup entry.place = none := hitem.missing hreplayed
  have hshort : front <+: entry.place := hplace ▸ prefix_append front [name]
  obtain ⟨made, hrun, hmakes⟩ := FileTree.makeDirectories_makes (fun _ _ => true) front hdest.wellFormed
    hdest.resolved hdest.directory (hclear.of_front hshort)
    (fun part hpart => hitem.named.2 part (hshort.subset hpart)) (fun _ _ _ _ _ => rfl) (fun _ _ _ => rfl)
  have hmadeDir : isDirectory made front = true := by
    rcases hclear front hshort with hnone | hdir
    · by_cases hne : front = []
      · rw [hne]
        rfl
      · exact FileTree.isDirectory_iff.mpr (Or.inr ⟨_, hmakes.named front hne prefix_rfl hnone⟩)
    · exact hmakes.grows.isDirectory hdir
  have hfree : made.lookup (front ++ [name]) = none := by
    rw [← hplace, hmakes.others]
    · exact hmissing
    · intro other _ hother heq
      have hlength := hother.length_le
      rw [← nil_append other, ← heq, hplace, length_append, length_singleton] at hlength
      omega
  have htop : resolve made [] = .ok [] := FileTree.walk_nil _ _
  have hbelowTop : isDirectory made ([] ++ front) = true := hmadeDir
  have hfront : resolve made front = .ok front := FileTree.resolve_directory hmakes.wellFormed htop hbelowTop
  have hcreate := FileTree.create_at (fun _ _ => true) (.directory own) hfront hmadeDir hname hfree
  rw [if_pos rfl, ← hplace] at hcreate
  have hfirst : Replayed [] [] [] (done ++ [(entry.place, .directory own)]) (made ++ [(entry.place, .directory own)]) := by
    refine ⟨destined_top ?_, hreplayed.planted.concat hitem.named.1 hitem.fresh ?_ ?_ ?_ ?_, hitem.names hreplayed⟩
    · rw [hplace]
      exact hmakes.wellFormed.concat hmadeDir hfree hname
    · rw [← hplace] at hfree
      exact (FileTree.lookup_concat hfree).trans (if_pos rfl)
    · intro other hne hother hdiffer hnone
      rw [← hplace] at hfree
      refine (FileTree.lookup_concat hfree).trans ((if_neg hdiffer).trans ?_)
      refine hmakes.named other hne ?_ hnone
      rcases prefix_concat_iff.mp (hplace ▸ hother) with heq | h
      · exact absurd (heq.trans hplace.symm) hdiffer
      · exact h
    · intro other node hother hnode
      rw [← hplace] at hfree
      exact (FileTree.lookup_concat hfree).trans ((if_neg hother).trans (hmakes.kept other node hnode))
    · intro other hother
      rw [← hplace] at hfree
      refine (FileTree.lookup_concat hfree).trans ((if_neg (hother entry.place hitem.named.1 prefix_rfl)).trans ?_)
      exact hmakes.others other fun part hne hpart => hother part hne (hpart.trans hshort)
  have hlast := append_replays hfirst hrest fun item hmem => by
    obtain ⟨below, -, rfl⟩ := mem_map.mp hmem
    exact ⟨_, mem_append_right _ (mem_singleton.mpr rfl), prefix_append _ _⟩
  refine ⟨_, ?_, by rw [append_assoc, singleton_append] at hlast; exact hlast⟩
  have hdrop : entry.place.dropLast.reverse = front.reverse ++ ([] : Path).reverse := by
    rw [hplace, dropLast_concat]
    simp
  unfold installEntry
  rw [FileTree.run_bind, hdrop, hrun]
  simp only [copyTree, hresolve, hstaged, Option.getD_some, hcreate]

theorem fitsAll_append {first second : List (Path × Node)} (h : FitsAll done (first ++ second)) :
    FitsAll done first ∧ FitsAll (done ++ first) second := by
  induction first generalizing done with
  | nil =>
    rw [append_nil]
    exact ⟨trivial, h⟩
  | cons item first ih =>
    obtain ⟨hitem, hrest⟩ := h
    obtain ⟨hfirst, hsecond⟩ := ih hrest
    rw [append_assoc, singleton_append] at hsecond
    exact ⟨⟨hitem, hfirst⟩, hsecond⟩

structure StagedShelf (tree staged : Tree) (staging root : Path) (base : Path) : Prop where
  directory : ∃ own, tree.lookup base = some (.directory own) ∧ staged.lookup (root ++ base) = some (.directory own)
  resolved : resolve staged (staging ++ base) = .ok (root ++ base)
  contents : below staged (root ++ base) = below tree base

theorem forM_installEntry {entries : List Entry} (hreplayed : Replayed [] [] [] done installed)
    (hstaged : ∀ entry ∈ entries, StagedShelf tree staged staging root entry.place)
    (hfits : FitsAll done (entries.flatMap fun entry => shelfNodes tree entry.place)) :
    ∃ later, entries.forM (installEntry staged staging) installed = .ok () later ∧
      Replayed [] [] [] (done ++ entries.flatMap fun entry => shelfNodes tree entry.place) later := by
  induction entries generalizing done installed with
  | nil =>
    refine ⟨installed, rfl, ?_⟩
    rw [flatMap_nil, append_nil]
    exact hreplayed
  | cons entry entries ih =>
    obtain ⟨hentry, hentries⟩ := forall_mem_cons.mp hstaged
    rw [flatMap_cons] at hfits ⊢
    obtain ⟨hfirst, hothers⟩ := fitsAll_append hfits
    obtain ⟨own, hown, hlookup⟩ := hentry.directory
    have hnodes : shelfNodes tree entry.place =
        (entry.place, .directory own) :: (below staged (root ++ entry.place)).map fun item => (entry.place ++ item.1, item.2) := by
      unfold shelfNodes
      rw [hown, hentry.contents]
      rfl
    obtain ⟨later, hrun, hlater⟩ := installEntry_ok hreplayed hlookup hentry.resolved hnodes hfirst
    obtain ⟨last, hlast, hdone⟩ := ih hlater hentries hothers
    rw [append_assoc] at hdone
    refine ⟨last, ?_, hdone⟩
    change (installEntry staged staging entry >>= fun _ => entries.forM (installEntry staged staging)) installed = _
    rw [FileTree.run_bind, hrun]
    exact hlast

/-- The shelves that were staged are those of the new corpus. -/
theorem shelveImportedSources_ok {entries : List Entry} {pointers : List Nat} {bases : List Path}
    (hbases : bases = (KeyedList.sortBy (fun entry => [code entry.path]) entries).map Entry.place)
    (hstaged : ∀ base ∈ bases, StagedShelf tree staged staging root base) (hpointers : pointersAt staged staging = some pointers)
    (hsymlink : Archive.isSymlink staged (staging ++ [pointersName]) = false)
    (hlisted : Listed (installedNodes tree bases pointers)) :
    ∃ corpus, shelveImportedSources false staged staging entries = .ok corpus ∧ corpus.entries = entries ∧
      WellFormed corpus.tree ∧ Planted [] [] (installedNodes tree bases pointers) corpus.tree := by
  have hempty : WellFormed ([] : Tree) := ⟨by simp, by simp, by simp⟩
  have hinitial : Replayed [] [] [] [] ([] : Tree) := Replayed.initial (destined_top hempty) (by simp)
  have hfits := hlisted.fitsAll (nil_append _).symm
  unfold installedNodes at hfits
  obtain ⟨hshelves, hlast⟩ := fitsAll_append hfits
  have hflat : bases.flatMap (shelfNodes tree) =
      (KeyedList.sortBy (fun entry => [code entry.path]) entries).flatMap fun entry => shelfNodes tree entry.place := by
    rw [hbases, flatMap_map]
  rw [hflat] at hshelves
  obtain ⟨installed, hrun, hreplayed⟩ := forM_installEntry hinitial (fun entry hentry =>
    hstaged entry.place (by rw [hbases]; exact mem_map_of_mem hentry)) hshelves
  rw [nil_append, ← hflat] at hreplayed
  rw [nil_append] at hlast
  obtain ⟨hpointerFits, -⟩ := hlast
  have hdir : isDirectory installed ([] ++ ([pointersName] : Path).dropLast) = true := rfl
  have hcreate : FileTree.create (fun _ _ => true) [pointersName] (.file 0o644 pointers) installed =
      .ok () (installed ++ [([pointersName], .file 0o644 pointers)]) := by
    have htop : resolve installed [] = .ok [] := FileTree.walk_nil _ _
    have hat := FileTree.create_at (fun _ _ => true) (.file 0o644 pointers) htop rfl plain_pointersName.1 (hpointerFits.missing hreplayed)
    rw [if_pos rfl] at hat
    exact hat
  have hplanted : Planted [] [] (installedNodes tree bases pointers) (installed ++ [([pointersName], .file 0o644 pointers)]) := by
    refine hpointerFits.planted hreplayed hdir ?_ ?_
    · exact (FileTree.lookup_concat (hpointerFits.missing hreplayed)).trans (if_pos rfl)
    · intro place hplace
      exact (FileTree.lookup_concat (hpointerFits.missing hreplayed)).trans (if_neg hplace)
  have hwf := (hpointerFits.concat hreplayed hdir (.file 0o644 pointers)).wellFormed
  refine ⟨⟨entries, installed ++ [([pointersName], .file 0o644 pointers)]⟩, ?_, rfl, hwf, hplanted⟩
  unfold shelveImportedSources
  rw [if_neg (by simp), hrun]
  dsimp only
  rw [hpointers]
  dsimp only
  rw [if_neg (by simp [hsymlink]), hcreate]

end

end Leitir.Snapshot
