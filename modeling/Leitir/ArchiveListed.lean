import Leitir.ArchiveReplay

namespace Leitir.Archive

open List FileTree

open FileTree (Node Tree Run OsError realpath resolve WellFormed newDirectory isDirectory permits isLink)

section

variable {nodes done : List (Path × Node)}

/-- Nodes of directories, each after its parent where that is one of them. -/
structure Listed (nodes : List (Path × Node)) : Prop where
  named : ∀ item ∈ nodes, item.1 ≠ [] ∧ ∀ part ∈ item.1, isProper part = true
  first : nodes.Pairwise fun a b => ¬ b.1 <+: a.1
  through : ∀ a ∈ nodes, ∀ b ∈ nodes, a.1 <+: b.1 → a.1 ≠ b.1 → ∃ mode, a.2 = .directory mode
  dense : ∀ a ∈ nodes, ∀ b ∈ nodes, a.1 <+: b.1 → a.1 ≠ b.1 → ∃ mode, (b.1.dropLast, Node.directory mode) ∈ nodes
  seated : ∀ b ∈ nodes, (∃ mode, b.2 = .directory mode) ∨ b.1.dropLast = [] ∨
    ∃ mode, (b.1.dropLast, Node.directory mode) ∈ nodes

theorem Listed.distinct (h : Listed nodes) : (nodes.map Prod.fst).Nodup := by
  rw [List.Nodup, pairwise_map]
  refine h.first.imp ?_
  intro a b hnot heq
  rw [heq] at hnot
  exact hnot prefix_rfl

theorem Listed.eq_of_path (h : Listed nodes) {a b : Path × Node} (ha : a ∈ nodes) (hb : b ∈ nodes) (heq : a.1 = b.1) : a = b :=
  inj_on_of_nodup_map h.distinct ha hb heq

theorem lookup_of_nodup {items : List (Path × Node)} (hnodup : (items.map Prod.fst).Nodup) {p : Path} {node : Node}
    (h : (p, node) ∈ items) : items.lookup p = some node := by
  obtain ⟨before, after, rfl⟩ := append_of_mem h
  refine List.lookup_eq_some_iff.mpr ⟨before, after, rfl, fun item hitem => ?_⟩
  rw [map_append, List.nodup_append] at hnodup
  have hne := hnodup.2.2 item.1 (mem_map_of_mem hitem) p (by simp)
  simpa using hne.symm

variable {before after : List (Path × Node)} {item : Path × Node}

theorem Listed.parent_before (h : Listed nodes) {parent : Path × Node}
    (hsplit : nodes = before ++ item :: after) (hparent : parent ∈ nodes) (hpath : parent.1 = item.1.dropLast) :
    parent ∈ before := by
  have hitem : item ∈ nodes := by rw [hsplit]; simp
  have hshort : parent.1 <+: item.1 := by
    rw [hpath]
    exact dropLast_prefix _
  have hfirst := h.first
  rw [hsplit] at hparent hfirst
  rcases mem_append.mp hparent with hbefore | hrest
  · exact hbefore
  · rcases mem_cons.mp hrest with rfl | hafter
    · have hne := (h.named parent hitem).1
      have hlength := congrArg List.length hpath
      rw [length_dropLast] at hlength
      have hpos := length_pos_of_ne_nil hne
      omega
    · exact absurd hshort ((pairwise_cons.mp (pairwise_append.mp hfirst).2.1).1 parent hafter)

theorem Listed.lookup_parent (h : Listed nodes)
    (hsplit : nodes = before ++ item :: after) {mode : Nat} :
    before.lookup item.1.dropLast = some (.directory mode) ↔ (item.1.dropLast, Node.directory mode) ∈ nodes := by
  constructor
  · intro hlookup
    rw [hsplit]
    exact mem_append_left _ (mem_of_lookup hlookup)
  · intro hmem
    have hbefore := h.parent_before hsplit hmem rfl
    have hnodup := h.distinct
    rw [hsplit, map_append, List.nodup_append] at hnodup
    exact lookup_of_nodup hnodup.1 hbefore

theorem Listed.fits (h : Listed nodes)
    (hsplit : nodes = before ++ item :: after) : Fits before item.1 item.2 := by
  have hitem : item ∈ nodes := by rw [hsplit]; simp
  have hbefore : ∀ other ∈ before, other ∈ nodes := fun other hother => by rw [hsplit]; simp [hother]
  have hfirst := h.first
  rw [hsplit] at hfirst
  have hfresh : ∀ other ∈ before, ¬ item.1 <+: other.1 := fun other hother =>
    (pairwise_append.mp hfirst).2.2 other hother item (by simp)
  have hdiffer : ∀ other ∈ before, other.1 ≠ item.1 := fun other hother heq =>
    hfresh other hother (heq ▸ prefix_rfl)
  refine ⟨h.named item hitem, hfresh, ?_, ?_, ?_⟩
  · exact fun other hother habove => h.through other (hbefore other hother) item hitem habove (hdiffer other hother)
  · intro other hother habove
    obtain ⟨mode, hmode⟩ := h.dense other (hbefore other hother) item hitem habove (hdiffer other hother)
    exact ⟨mode, (h.lookup_parent hsplit).mpr hmode⟩
  · rcases h.seated item hitem with hdir | hnil | ⟨mode, hmode⟩
    · exact Or.inl hdir
    · exact Or.inr (Or.inl hnil)
    · exact Or.inr (Or.inr ⟨mode, (h.lookup_parent hsplit).mpr hmode⟩)

theorem Listed.fitsAll (h : Listed nodes) {rest : List (Path × Node)} (hsplit : nodes = done ++ rest) : FitsAll done rest := by
  induction rest generalizing done with
  | nil => trivial
  | cons item rest ih => exact ⟨h.fits hsplit, ih (by simpa using hsplit)⟩

def Writable (mayWrite : Nat → Bool) (nodes : List (Path × Node)) : Prop :=
  ∀ item ∈ nodes, ∀ mode, (item.1.dropLast, Node.directory mode) ∈ nodes → mayWrite mode = true

theorem Listed.allowedAll_iff (h : Listed nodes) {mayWrite : Nat → Bool} {rest : List (Path × Node)}
    (hsplit : nodes = done ++ rest) : AllowedAll mayWrite done rest ↔
      ∀ item ∈ rest, ∀ mode, (item.1.dropLast, Node.directory mode) ∈ nodes → mayWrite mode = true := by
  induction rest generalizing done with
  | nil => simp [AllowedAll]
  | cons item rest ih =>
    rw [AllowedAll, ih (by simpa using hsplit), forall_mem_cons]
    refine and_congr_left fun _ => ?_
    unfold Allowed
    exact forall_congr' fun mode => by rw [h.lookup_parent hsplit]

def inOrder (nodes : List (Path × Node)) : List (Path × Node) :=
  (nodes.filter fun item => !isLink item.2) ++ nodes.filter fun item => isLink item.2

theorem mem_inOrder : item ∈ inOrder nodes ↔ item ∈ nodes := by
  unfold inOrder
  rw [mem_append, mem_filter, mem_filter]
  cases isLink item.2 with
  | true => simp
  | false => simp

theorem Listed.inOrder (h : Listed nodes) : Listed (inOrder nodes) where
  named := fun item hitem => h.named item (mem_inOrder.mp hitem)
  first := by
    refine pairwise_append.mpr ⟨h.first.sublist filter_sublist, h.first.sublist filter_sublist, ?_⟩
    intro a ha b hb habove
    obtain ⟨hamem, haplain⟩ := mem_filter.mp ha
    obtain ⟨hbmem, hblink⟩ := mem_filter.mp hb
    by_cases heq : b.1 = a.1
    · rw [h.eq_of_path hbmem hamem heq] at hblink
      rw [hblink] at haplain
      cases haplain
    · obtain ⟨mode, hmode⟩ := h.through b hbmem a hamem habove heq
      rw [hmode] at hblink
      cases hblink
  through := fun a ha b hb => h.through a (mem_inOrder.mp ha) b (mem_inOrder.mp hb)
  dense := fun a ha b hb habove hne => by
    obtain ⟨mode, hmode⟩ := h.dense a (mem_inOrder.mp ha) b (mem_inOrder.mp hb) habove hne
    exact ⟨mode, mem_inOrder.mpr hmode⟩
  seated := fun b hb => by
    rcases h.seated b (mem_inOrder.mp hb) with hdir | hnil | ⟨mode, hmode⟩
    · exact Or.inl hdir
    · exact Or.inr (Or.inl hnil)
    · exact Or.inr (Or.inr ⟨mode, mem_inOrder.mpr hmode⟩)

end

section

variable {allows : Tree → Path → Bool} {destination root : Path} {tree : Tree}

/-- A planned member is that of a node. -/
def Carries (item : PlannedMember) (entry : Path × Node) : Prop :=
  item.path = some entry.1 ∧
    match entry.2 with
    | .directory mode => item.member.kind = .directory ∧ item.member.mode % 0o1000 = mode
    | .file mode data => item.member.kind = .regular ∧ item.member.mode % 0o1000 = mode ∧ item.member.data = data
    | .link target => item.member.kind = .symbolicLink ∧ item.member.linkname = target

variable {item : PlannedMember} {entry : Path × Node}

theorem Carries.extractPlain_eq (h : Carries item entry) :
    extractPlain allows destination root item = if isLink entry.2 then pure () else plant allows destination root entry := by
  obtain ⟨p, node⟩ := entry
  unfold extractPlain
  cases node with
  | directory mode =>
    obtain ⟨hpath, hkind, hmode⟩ := h
    rw [hpath, hkind, hmode]
    rfl
  | file mode data =>
    obtain ⟨hpath, hkind, hmode, hdata⟩ := h
    rw [hpath, hkind, hmode, hdata]
    rfl
  | link target =>
    obtain ⟨hpath, hkind, -⟩ := h
    rw [hpath, hkind]
    rfl

theorem Carries.extractHardLink_eq (h : Carries item entry) (expectedRoot : Name)
    (regular : List Path) : extractHardLink allows destination root expectedRoot regular item = pure () := by
  obtain ⟨p, node⟩ := entry
  unfold extractHardLink
  cases node with
  | directory mode =>
    obtain ⟨hpath, hkind, -⟩ := h
    rw [hpath, hkind]
  | file mode data =>
    obtain ⟨hpath, hkind, -⟩ := h
    rw [hpath, hkind]
  | link target =>
    obtain ⟨hpath, hkind, -⟩ := h
    rw [hpath, hkind]

theorem Carries.extractSymlink_eq (h : Carries item entry) :
    extractSymlink allows destination root item = if isLink entry.2 then plant allows destination root entry else pure () := by
  obtain ⟨p, node⟩ := entry
  unfold extractSymlink
  cases node with
  | directory mode =>
    obtain ⟨hpath, hkind, -⟩ := h
    rw [hpath, hkind]
    rfl
  | file mode data =>
    obtain ⟨hpath, hkind, -⟩ := h
    rw [hpath, hkind]
    rfl
  | link target =>
    obtain ⟨hpath, hkind, htarget⟩ := h
    rw [hpath, hkind, htarget]
    rfl

theorem forM_filter_eq {α β : Type} {f : α → Extract Unit} {g : β → Extract Unit} {keep : β → Bool} {related : α → β → Prop}
    (hrelated : ∀ a b, related a b → f a = if keep b then g b else pure ()) {items : List α} {others : List β}
    (h : List.Forall₂ related items others) (tree : Tree) : items.forM f tree = (others.filter keep).forM g tree := by
  induction h generalizing tree with
  | nil => rfl
  | @cons a b items others hab _ ih =>
    change (f a >>= fun _ => items.forM f) tree = _
    rw [hrelated a b hab, filter_cons]
    cases keep b with
    | true =>
      change _ = (g b >>= fun _ => (others.filter keep).forM g) tree
      rw [if_pos rfl, run_bind, run_bind]
      split
      next => exact ih _
      next => rfl
    | false =>
      rw [if_neg (by simp), if_neg (by simp), run_bind_eq (show (pure () : Extract Unit) tree = .ok () tree from rfl)]
      exact ih tree

theorem forM_pure {α : Type} {f : α → Extract Unit} {items : List α} (h : ∀ item ∈ items, f item = pure ()) (tree : Tree) :
    items.forM f tree = .ok () tree := by
  induction items with
  | nil => rfl
  | cons item items ih =>
    obtain ⟨hitem, hitems⟩ := forall_mem_cons.mp h
    change (f item >>= fun _ => items.forM f) tree = _
    rw [hitem, run_bind_eq (show (pure () : Extract Unit) tree = .ok () tree from rfl)]
    exact ih hitems

/-- A node that was put in its place is a link, or not. -/
theorem Replayed.isSymlink_eq {host : Tree} {nodes : List (Path × Node)} (hreplayed : Replayed host destination root nodes tree)
    (hlisted : Listed nodes) {p : Path} {node : Node} (h : (p, node) ∈ nodes) :
    tree.lookup (root ++ p) = some node ∧ isSymlink tree (destination ++ p) = isLink node := by
  have hne := (hlisted.named _ h).1
  have hnode : tree.lookup (root ++ p) = some node := by
    rw [hreplayed.planted, planted_below hne, lookup_of_nodup hlisted.distinct h]
  refine ⟨hnode, ?_⟩
  have hsplit : p = p.dropLast ++ [p.getLast hne] := (dropLast_append_getLast hne).symm
  have hparent : isDirectory tree (root ++ p.dropLast) = true := by
    have hwhole : tree.lookup (root ++ p.dropLast ++ [p.getLast hne]) = some node := by
      rw [append_assoc, ← hsplit]
      exact hnode
    exact hreplayed.destined.wellFormed.above (by simp) hwhole
  have hresolve := resolve_directory hreplayed.destined.wellFormed hreplayed.destined.resolved hparent
  unfold isSymlink
  rw [getLast?_append_of_ne_nil _ hne, dropLast_append_of_ne_nil hne, getLast?_eq_some_getLast hne, hresolve]
  dsimp only
  rw [append_assoc, ← hsplit, hnode]
  cases node with
  | directory mode => rfl
  | file mode data => rfl
  | link target => rfl

theorem Replayed.checkResolved_iff {host : Tree} {nodes : List (Path × Node)}
    (hreplayed : Replayed host destination root nodes tree) (hlisted : Listed nodes)
    (h : Carries item entry) (hentry : entry ∈ nodes) :
    checkResolved destination root item tree = .ok () tree ↔
      (isLink entry.2 = true → root <+: realpath tree (destination ++ entry.1)) := by
  obtain ⟨-, hsymlink⟩ := hreplayed.isSymlink_eq hlisted hentry
  unfold checkResolved
  rw [h.1]
  dsimp only
  rw [hsymlink]
  by_cases hlink : isLink entry.2 = true
  · by_cases hinside : root <+: realpath tree (destination ++ entry.1)
    · simp [hlink, hinside]
    · simp [hlink, hinside]
  · simp [hlink]

end

section

variable {mayWrite : Nat → Bool} {destination root : Path} {host tree other : Tree} {nodes : List (Path × Node)}

theorem realpath_lookup_congr (hwf : WellFormed tree) (hother : WellFormed other)
    (hsame : ∀ place, tree.lookup place = other.lookup place) (path : Path) : realpath tree path = realpath other path := by
  have hgrows : FileTree.Grows [] tree other := by
    refine ⟨hother, fun place node hnode => ⟨node, hsame place ▸ hnode, .refl node⟩, fun place node hnode hnone => ?_⟩
    rw [hsame, hnode] at hnone
    cases hnone
  exact hgrows.realpath_eq hwf (fun place target hlink => (hsame place).trans hlink) path

def LeadInside (host : Tree) (root : Path) (nodes : List (Path × Node)) : Prop :=
  ∀ tree, WellFormed tree → Planted host root nodes tree → ∀ item ∈ nodes, isLink item.2 = true →
    root <+: realpath tree (root ++ item.1)

theorem Planted.congr {others : List (Path × Node)} (h : Planted host root nodes tree)
    (hnodup : (nodes.map Prod.fst).Nodup) (hnodup' : (others.map Prod.fst).Nodup) (hmem : ∀ item, item ∈ nodes ↔ item ∈ others) :
    Planted host root others tree := by
  have hlookup : ∀ p, nodes.lookup p = others.lookup p := by
    intro p
    refine Option.ext fun node => ?_
    constructor
    · exact fun hnode => lookup_of_nodup hnodup' ((hmem _).mp (mem_of_lookup hnode))
    · exact fun hnode => lookup_of_nodup hnodup ((hmem _).mpr (mem_of_lookup hnode))
  have hany : ∀ p : Path, (nodes.any fun item => decide (p <+: item.1)) = others.any fun item => decide (p <+: item.1) := by
    intro p
    rw [Bool.eq_iff_iff, any_eq_true, any_eq_true]
    exact exists_congr fun item => and_congr_left fun _ => hmem item
  intro place
  rw [h place]
  unfold planted
  simp only [hlookup, hany]

theorem forall₂_left {α β : Type} {R : α → β → Prop} {xs : List α} {ys : List β} (h : List.Forall₂ R xs ys) :
    ∀ x ∈ xs, ∃ y ∈ ys, R x y := by
  induction h with
  | nil => simp
  | cons hxy _ ih =>
    refine forall_mem_cons.mpr ⟨⟨_, mem_cons_self, hxy⟩, fun x hx => ?_⟩
    obtain ⟨y, hy, hr⟩ := ih x hx
    exact ⟨y, mem_cons_of_mem _ hy, hr⟩

theorem forM_unchanged {α : Type} {f : α → Extract Unit} {items : List α} (h : ∀ item ∈ items, f item tree = .ok () tree) :
    items.forM f tree = .ok () tree := by
  induction items with
  | nil => rfl
  | cons item items ih =>
    obtain ⟨hitem, hitems⟩ := forall_mem_cons.mp h
    change (f item >>= fun _ => items.forM f) tree = _
    rw [run_bind_eq hitem]
    exact ih hitems

theorem forM_append {α : Type} (f : α → Extract Unit) (xs ys : List α) (tree : Tree) :
    (xs ++ ys).forM f tree = (xs.forM f >>= fun _ => ys.forM f) tree := by
  induction xs generalizing tree with
  | nil => rfl
  | cons x xs ih =>
    change (f x >>= fun _ => (xs ++ ys).forM f) tree = ((f x >>= fun _ => xs.forM f) >>= fun _ => ys.forM f) tree
    rw [run_bind, run_bind, run_bind]
    cases f x tree with
    | error err changed => rfl
    | ok a changed =>
      dsimp only
      rw [ih, run_bind]

variable {planning : Planning}

/-- The three groups of an archive that lists nodes. -/
theorem extractPlanned_run (allows : Tree → Path → Bool) (destination root : Path) (host : Tree)
    {top : PlannedMember} {items : List PlannedMember} (hplanned : planning.planned = top :: items) (htop : top.path = none)
    (hitems : List.Forall₂ Carries items nodes) :
    extractPlanned allows destination root planning host =
      ((inOrder nodes).forM (plant allows destination root) >>= fun _ => items.forM (checkResolved destination root)) host := by
  have hplainTop : extractPlain allows destination root top = pure () := by
    unfold extractPlain
    rw [htop]
  have hhardTop : ∀ expectedRoot regular, extractHardLink allows destination root expectedRoot regular top = pure () := by
    intro expectedRoot regular
    unfold extractHardLink
    rw [htop]
  have hlinkTop : extractSymlink allows destination root top = pure () := by
    unfold extractSymlink
    rw [htop]
  have hskip : ∀ {f : PlannedMember → Extract Unit} (now : Tree), f top now = .ok () now →
      (top :: items).forM f now = items.forM f now := by
    intro f now hnow
    change (f top >>= fun _ => items.forM f) now = _
    rw [run_bind_eq hnow]
  have hplain : ∀ now, (top :: items).forM (extractPlain allows destination root) now =
      (nodes.filter fun item => !isLink item.2).forM (plant allows destination root) now := by
    intro now
    rw [hskip now (by rw [hplainTop]; rfl)]
    refine forM_filter_eq (fun item entry hcarries => ?_) hitems now
    rw [hcarries.extractPlain_eq]
    cases isLink entry.2 with
    | true => rfl
    | false => rfl
  have hhard : ∀ expectedRoot regular now,
      (top :: items).forM (extractHardLink allows destination root expectedRoot regular) now = .ok () now := by
    intro expectedRoot regular now
    rw [hskip now (by rw [hhardTop]; rfl)]
    refine forM_pure (fun item hitem => ?_) now
    obtain ⟨entry, -, hcarries⟩ := forall₂_left hitems item hitem
    exact hcarries.extractHardLink_eq expectedRoot regular
  have hlinks : ∀ now, (top :: items).forM (extractSymlink allows destination root) now =
      (nodes.filter fun item => isLink item.2).forM (plant allows destination root) now := by
    intro now
    rw [hskip now (by rw [hlinkTop]; rfl)]
    exact forM_filter_eq (fun item entry hcarries => hcarries.extractSymlink_eq) hitems now
  have hcheck : ∀ now, (top :: items).forM (checkResolved destination root) now =
      items.forM (checkResolved destination root) now := by
    intro now
    refine hskip now ?_
    unfold checkResolved
    rw [htop]
  unfold extractPlanned inOrder
  rw [hplanned, run_bind, hplain, run_bind, forM_append, run_bind]
  cases (nodes.filter fun item => !isLink item.2).forM (plant allows destination root) host with
  | error err changed => rfl
  | ok a first =>
    dsimp only
    rw [run_bind_eq (hhard _ _ first), run_bind, hlinks]
    cases (nodes.filter fun item => isLink item.2).forM (plant allows destination root) first with
    | error err changed => rfl
    | ok b second =>
      dsimp only
      exact hcheck second

theorem Replayed.initial (hdest : Destined destination root host)
    (hempty : ∀ place node, host.lookup place = some node → root <+: place → place = root) :
    Replayed host destination root [] host := by
  refine ⟨hdest, fun place => ?_, by simp⟩
  unfold Archive.planted
  split
  next hbelow =>
    change host.lookup place = none
    rw [Option.eq_none_iff_forall_not_mem]
    exact fun node hnode => hbelow.2 (hempty place node hnode hbelow.1)
  next => rfl

/-- An archive that lists nodes is extracted exactly when their parents let them be made and no link leads out; then the nodes
are below the root. -/
theorem extractPlanned_replays {top : PlannedMember} {items : List PlannedMember}
    (hplanned : planning.planned = top :: items) (htop : top.path = none) (hitems : List.Forall₂ Carries items nodes)
    (hlisted : Listed nodes) (hopen : Open mayWrite host root) (hdest : Destined destination root host)
    (hempty : ∀ place node, host.lookup place = some node → root <+: place → place = root) :
    ((∃ tree, extractPlanned (permits mayWrite) destination root planning host = .ok () tree) ↔
      Writable mayWrite nodes ∧ LeadInside host root nodes) ∧
    ∀ tree, extractPlanned (permits mayWrite) destination root planning host = .ok () tree →
      Destined destination root tree ∧ Planted host root nodes tree := by
  have hinitial := Replayed.initial hdest hempty
  have hordered := hlisted.inOrder
  obtain ⟨hforward, hback⟩ := forM_plant_replays hinitial (hordered.fitsAll (nil_append _).symm) hopen
  have hallowed : AllowedAll mayWrite [] (inOrder nodes) ↔ Writable mayWrite nodes := by
    rw [hordered.allowedAll_iff (nil_append _).symm]
    unfold Writable
    simp only [mem_inOrder]
  have hplanted : ∀ tree, Replayed host destination root (inOrder nodes) tree → Planted host root nodes tree := by
    intro tree h
    exact h.planted.congr hordered.distinct hlisted.distinct fun item => mem_inOrder
  -- The links of one tree with the nodes lead inside when those of every such tree do.
  have hinside : ∀ tree, Replayed host destination root (inOrder nodes) tree →
      ((∀ item ∈ nodes, isLink item.2 = true → root <+: realpath tree (destination ++ item.1)) ↔ LeadInside host root nodes) := by
    intro tree h
    have hreal : ∀ p, realpath tree (destination ++ p) = realpath tree (root ++ p) :=
      realpath_resolved h.destined.wellFormed h.destined.resolved h.destined.directory
    constructor
    · intro hall other hother hsame item hitem hlink
      have hown := hall item hitem hlink
      rw [hreal, realpath_lookup_congr h.destined.wellFormed hother
        fun place => (hplanted tree h place).trans (hsame place).symm] at hown
      exact hown
    · intro hall item hitem hlink
      rw [hreal]
      exact hall tree h.destined.wellFormed (hplanted tree h) item hitem hlink
  have hchecks : ∀ tree, Replayed host destination root (inOrder nodes) tree →
      ((∀ item ∈ items, checkResolved destination root item tree = .ok () tree) ↔ LeadInside host root nodes) := by
    intro tree h
    rw [← hinside tree h]
    constructor
    · intro hall entry hentry
      obtain ⟨item, hitem, hcarries⟩ := forall₂_left hitems.flip entry hentry
      exact (h.checkResolved_iff hordered hcarries (mem_inOrder.mpr hentry)).mp (hall item hitem)
    · intro hall item hitem
      obtain ⟨entry, hentry, hcarries⟩ := forall₂_left hitems item hitem
      exact (h.checkResolved_iff hordered hcarries (mem_inOrder.mpr hentry)).mpr (hall entry hentry)
  have hrun := extractPlanned_run (permits mayWrite) destination root host
    hplanned htop hitems
  have hok : ∀ tree, extractPlanned (permits mayWrite) destination root planning host = .ok () tree →
      AllowedAll mayWrite [] (inOrder nodes) ∧ Replayed host destination root (inOrder nodes) tree ∧
        LeadInside host root nodes := by
    intro tree htree
    rw [hrun] at htree
    obtain ⟨_, middle, hmiddle, hlast⟩ := run_bind_ok htree
    obtain ⟨hall, hreplayed⟩ := hback middle hmiddle
    obtain ⟨rfl, hpassed⟩ := forM_run_ok hlast fun item _ a b hcheck => (checkResolved_ok hcheck).1
    exact ⟨hall, hreplayed, (hchecks _ hreplayed).mp hpassed⟩
  refine ⟨⟨fun ⟨tree, htree⟩ => ?_, fun ⟨hwritable, hlead⟩ => ?_⟩, fun tree htree => ?_⟩
  · obtain ⟨hall, -, hlead⟩ := hok tree htree
    exact ⟨hallowed.mp hall, hlead⟩
  · obtain ⟨tree, htree⟩ := hforward (hallowed.mpr hwritable)
    obtain ⟨-, hreplayed⟩ := hback tree htree
    refine ⟨tree, ?_⟩
    rw [hrun, run_bind_eq htree]
    exact forM_unchanged ((hchecks tree hreplayed).mpr hlead)
  · obtain ⟨-, hreplayed, -⟩ := hok tree htree
    exact ⟨hreplayed.destined, hplanted tree hreplayed⟩

theorem extractTarball_ok_iff {allows : Tree → Path → Bool} {fuel : Nat} {archiveRoot : Option Name} {members : List Member} (hdest : Destined destination root host) (hplan : planMembers archiveRoot members = .ok planning) :
    extractTarball allows destination fuel archiveRoot members host = .ok () tree ↔
      validatePlannedSymlinks fuel (planning.planned.map PlannedMember.planned) = some (.ok ()) ∧
        extractPlanned allows destination root planning host = .ok () tree := by
  have hmake : Archive.host (makeDirectories allows destination.reverse) host = .ok () host :=
    host_run (makeDirectories_there hdest.isDir)
  have hroot : realpath host destination = root := realpath_of_leads (resolve_iff.mp hdest.resolved)
  unfold extractTarball
  rw [hplan]
  dsimp only
  rw [run_bind, validateLinks]
  cases hlinks : validatePlannedSymlinks fuel (planning.planned.map PlannedMember.planned) with
  | none => simp
  | some result =>
    cases result with
    | error message => simp
    | ok passed =>
      dsimp only
      rw [run_bind_eq hmake, run_bind_eq (show (get : Extract Tree) host = .ok host host from rfl), hroot]
      simp

end

end Leitir.Archive
