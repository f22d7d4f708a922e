import Leitir.ArchiveConfined
import Leitir.FileTreeExact

namespace Leitir.Archive

open List FileTree

open FileTree (Node Tree Run OsError realpath resolve WellFormed newDirectory isDirectory permits)

section

variable {host tree grown : Tree} {root p place : Path} {node : Node} {done : List (Path × Node)}

/-- What is found at a place when nodes are put below the root; the directories above them are made. -/
def planted (host : Tree) (root : Path) (nodes : List (Path × Node)) (place : Path) : Option Node :=
  if root <+: place ∧ place ≠ root then
    match nodes.lookup (place.drop root.length) with
    | some node => some node
    | none => if nodes.any fun item => place.drop root.length <+: item.1 then some newDirectory else none
  else host.lookup place

theorem planted_below {nodes : List (Path × Node)} {rel : Path} (hrel : rel ≠ []) :
    planted host root nodes (root ++ rel) =
      match nodes.lookup rel with
      | some node => some node
      | none => if nodes.any fun item => rel <+: item.1 then some newDirectory else none := by
  unfold planted
  rw [if_pos ⟨prefix_append _ _, by simpa using hrel⟩, drop_left]

theorem planted_other {nodes : List (Path × Node)} (h : ∀ rel, rel ≠ [] → place ≠ root ++ rel) :
    planted host root nodes place = host.lookup place := by
  unfold planted
  rw [if_neg ?_]
  rintro ⟨⟨rel, rfl⟩, hne⟩
  exact h rel (by simpa using hne) rfl

def Planted (host : Tree) (root : Path) (nodes : List (Path × Node)) (tree : Tree) : Prop :=
  ∀ place, tree.lookup place = planted host root nodes place

theorem Planted.lookup_none {rel : Path} (h : Planted host root done tree) (hrel : rel ≠ [])
    (hfresh : ∀ item ∈ done, ¬ rel <+: item.1) : tree.lookup (root ++ rel) = none := by
  have hlookup : done.lookup rel = none := by
    rw [Option.eq_none_iff_forall_not_mem]
    intro own hown
    exact hfresh _ (mem_of_lookup hown) prefix_rfl
  have hany : (done.any fun item => decide (rel <+: item.1)) = false := by
    rw [any_eq_false]
    intro item hitem
    simpa using hfresh item hitem
  rw [h, planted_below hrel, hlookup]
  dsimp only
  rw [hany]
  rfl

/-- How a new node with the directories above it changes what is planted. -/
theorem Planted.concat (h : Planted host root done tree) (hne : p ≠ []) (hfresh : ∀ item ∈ done, ¬ p <+: item.1)
    (hnode : grown.lookup (root ++ p) = some node)
    (hmade : ∀ front, front ≠ [] → front <+: p → front ≠ p → tree.lookup (root ++ front) = none →
      grown.lookup (root ++ front) = some newDirectory)
    (hkept : ∀ place own, place ≠ root ++ p → tree.lookup place = some own → grown.lookup place = some own)
    (hothers : ∀ place, (∀ front, front ≠ [] → front <+: p → place ≠ root ++ front) → grown.lookup place = tree.lookup place) :
    Planted host root (done ++ [(p, node)]) grown := by
  intro place
  by_cases hplace : ∃ rel, rel ≠ [] ∧ place = root ++ rel
  · obtain ⟨rel, hrel, rfl⟩ := hplace
    have hdone : done.lookup p = none := by
      rw [Option.eq_none_iff_forall_not_mem]
      intro own hown
      exact hfresh _ (mem_of_lookup hown) prefix_rfl
    rw [planted_below hrel, lookup_concat hdone]
    by_cases heq : rel = p
    · subst heq
      rw [if_pos rfl]
      exact hnode
    · rw [if_neg heq]
      have hold := h (root ++ rel)
      rw [planted_below hrel] at hold
      cases hlookup : done.lookup rel with
      | some own =>
        rw [hlookup] at hold
        exact hkept _ _ (by simpa using heq) hold
      | none =>
        rw [hlookup] at hold
        dsimp only at hold ⊢
        rw [any_append]
        by_cases hany : (done.any fun item => decide (rel <+: item.1)) = true
        · rw [hany] at hold ⊢
          exact hkept _ _ (by simpa using heq) hold
        · rw [Bool.not_eq_true] at hany
          rw [hany] at hold ⊢
          by_cases hfront : rel <+: p
          · simp only [any_cons, any_nil, Bool.or_false, Bool.false_or, hfront, decide_true, if_true]
            exact hmade rel hrel hfront heq hold
          · simp only [any_cons, any_nil, Bool.or_false, hfront, decide_false]
            rw [hothers]
            · exact hold
            · rintro front - hprefixed hsame
              rw [append_cancel_left hsame] at hfront
              exact hfront hprefixed
  · rw [not_exists] at hplace
    have hnot : ∀ rel, rel ≠ [] → place ≠ root ++ rel := fun rel hrel heq => hplace rel ⟨hrel, heq⟩
    rw [planted_other hnot, hothers place fun front hfront _ => hnot front hfront, h, planted_other hnot]

end

section

variable {mayWrite : Nat → Bool} {host tree grown : Tree} {destination root p : Path} {node : Node} {done : List (Path × Node)}

/-- A node that can be put beside those that are there: nothing is at its path or below it, and what is above it is a
directory, its parent the first. -/
structure Fits (done : List (Path × Node)) (p : Path) (node : Node) : Prop where
  named : p ≠ [] ∧ ∀ part ∈ p, isProper part = true
  fresh : ∀ item ∈ done, ¬ p <+: item.1
  through : ∀ item ∈ done, item.1 <+: p → ∃ mode, item.2 = .directory mode
  dense : ∀ item ∈ done, item.1 <+: p → ∃ mode, done.lookup p.dropLast = some (.directory mode)
  seated : (∃ mode, node = .directory mode) ∨ p.dropLast = [] ∨ ∃ mode, done.lookup p.dropLast = some (.directory mode)

def Allowed (mayWrite : Nat → Bool) (done : List (Path × Node)) (p : Path) : Prop :=
  ∀ mode, done.lookup p.dropLast = some (.directory mode) → mayWrite mode = true

/-- The state of an extraction that has put nodes below the root. -/
structure Replayed (host : Tree) (destination root : Path) (done : List (Path × Node)) (tree : Tree) : Prop where
  destined : Destined destination root tree
  planted : Planted host root done tree
  named : ∀ item ∈ done, item.1 ≠ []

/-- The host lets entries be made in the root and in new directories. -/
structure Open (mayWrite : Nat → Bool) (host : Tree) (root : Path) : Prop where
  top : permits mayWrite host root = true
  made : mayWrite 0o755 = true

theorem Fits.clear (h : Fits done p node) (hreplayed : Replayed host destination root done tree) : FileTree.Clear tree root p := by
  intro front hfront
  by_cases hne : front = []
  · subst hne
    rw [append_nil]
    exact Or.inr hreplayed.destined.directory
  · rw [isDirectory_iff, hreplayed.planted, planted_below hne]
    cases hlookup : done.lookup front with
    | some own =>
      obtain ⟨mode, rfl⟩ := h.through _ (mem_of_lookup hlookup) hfront
      exact Or.inr (Or.inr ⟨mode, rfl⟩)
    | none =>
      dsimp only
      split
      next => exact Or.inr (Or.inr ⟨_, rfl⟩)
      next => exact Or.inl rfl

theorem Fits.names (h : Fits done p node) (hreplayed : Replayed host destination root done tree) :
    ∀ item ∈ done ++ [(p, node)], item.1 ≠ [] := by
  intro item hitem
  rcases mem_append.mp hitem with hitem | hitem
  · exact hreplayed.named item hitem
  · rw [mem_singleton.mp hitem]
    exact h.named.1

theorem Fits.missing (h : Fits done p node) (hreplayed : Replayed host destination root done tree) :
    tree.lookup (root ++ p) = none :=
  hreplayed.planted.lookup_none h.named.1 h.fresh

theorem Replayed.parent (hreplayed : Replayed host destination root done tree)
    (hparent : p.dropLast = [] ∨ ∃ mode, done.lookup p.dropLast = some (.directory mode)) :
    isDirectory tree (root ++ p.dropLast) = true := by
  rcases hparent with hnil | ⟨mode, hmode⟩
  · rw [hnil, append_nil]
    exact hreplayed.destined.directory
  · by_cases hne : p.dropLast = []
    · rw [hne, append_nil]
      exact hreplayed.destined.directory
    · refine isDirectory_iff.mpr (Or.inr ⟨mode, ?_⟩)
      rw [hreplayed.planted, planted_below hne, hmode]

/-- Where an entry is made the host allows it, but for a parent among the nodes. -/
theorem Fits.permitted (h : Fits done p node) (hreplayed : Replayed host destination root done tree)
    (hopen : Open mayWrite host root) (hallowed : Allowed mayWrite done p) {front : Path} {name : Name}
    (hfront : front ++ [name] <+: p) (hdir : isDirectory tree (root ++ front) = true)
    (hnone : tree.lookup (root ++ (front ++ [name])) = none) : permits mayWrite tree (root ++ front) = true := by
  unfold permits
  by_cases hne : front = []
  · subst hne
    rw [append_nil, hreplayed.planted, planted_other]
    · exact hopen.top
    · intro rel hrel
      simpa using hrel
  · rw [hreplayed.planted, planted_below hne]
    cases hlookup : done.lookup front with
    | none =>
      dsimp only
      by_cases hany : (done.any fun item => decide (front <+: item.1)) = true
      · rw [hany]
        exact hopen.made
      · rw [Bool.not_eq_true] at hany
        rw [hany]
        rfl
    | some own =>
      have hmem := mem_of_lookup hlookup
      have habove : front <+: p := (prefix_append _ _).trans hfront
      obtain ⟨mode, rfl⟩ := h.through _ hmem habove
      obtain ⟨parentMode, hparent⟩ := h.dense _ hmem habove
      -- The parent is there, so that the first name that is missing is the last one.
      rcases Nat.lt_or_ge (front ++ [name]).length p.length with hshort | hlong
      · have hbelow : front ++ [name] <+: p.dropLast := by
          rw [prefix_iff_eq_take] at hfront ⊢
          rw [dropLast_eq_take, take_take, Nat.min_eq_left (by omega)]
          exact hfront
        rw [hreplayed.planted, planted_below (by simp)] at hnone
        have hany : (done.any fun item => decide (front ++ [name] <+: item.1)) = true :=
          any_eq_true.mpr ⟨_, mem_of_lookup hparent, by simpa using hbelow⟩
        split at hnone
        next => cases hnone
        next =>
          rw [hany] at hnone
          cases hnone
      · have hwhole : front ++ [name] = p := hfront.eq_of_length_le hlong
        have hdrop : p.dropLast = front := by rw [← hwhole, dropLast_concat]
        rw [← hdrop] at hlookup
        exact hallowed mode hlookup

theorem permits_new (hopen : Open mayWrite host root) (now : Tree) (place : Path)
    (h : now.lookup place = some newDirectory) : permits mayWrite now place = true := by
  unfold permits
  rw [h]
  exact hopen.made

theorem assertConfined_run {output : Path} (h : root <+: realpath tree output) : assertConfined root output tree = .ok () tree := by
  simp only [assertConfined, if_pos h]

theorem host_run {α : Type} {run : Run OsError α} {a : α} (h : run tree = .ok a grown) : Archive.host run tree = .ok a grown := by
  simp only [Archive.host, h]

theorem run_bind_eq {α β : Type} {run : Extract α} {next : α → Extract β} {a : α} (h : run tree = .ok a grown) :
    (run >>= next) tree = next a grown := by
  rw [run_bind, h]

variable {mode : Nat}

/-- A directory is put in its place with its mode. -/
theorem extractDirectory_replays (hreplayed : Replayed host destination root done tree)
    (h : Fits done p (.directory mode)) (hopen : Open mayWrite host root) (hallowed : Allowed mayWrite done p) :
    ∃ later, extractDirectory (permits mayWrite) root (destination ++ p) mode tree = .ok () later ∧
      Replayed host destination root (done ++ [(p, .directory mode)]) later := by
  have hdest := hreplayed.destined
  have hclear := h.clear hreplayed
  have hmissing := h.missing hreplayed
  obtain ⟨made, hrun, hmakes⟩ := makeDirectories_makes (permits mayWrite) p hdest.wellFormed hdest.resolved
    hdest.directory hclear h.named.2
    (fun front name hfront hdir hnone => h.permitted hreplayed hopen hallowed hfront hdir hnone) (permits_new hopen)
  have hmade := hmakes.named p h.named.1 prefix_rfl hmissing
  have hdest' := hdest.of_grows hmakes.grows
  have hchange := change_plain (withMode mode) hmakes.wellFormed hdest'.resolved hmade rfl
  have hfills := replace_fills root hmakes.wellFormed hmade (withMode_sameKind mode newDirectory)
  refine ⟨_, ?_, hdest'.of_grows hfills.grows, ?_, h.names hreplayed⟩
  · unfold extractDirectory
    have hbelow : root <+: realpath tree (destination ++ p) := by
      rw [realpath_clear hdest.wellFormed hdest.resolved hdest.directory hclear h.named.2 h.named.1 hmissing]
      exact prefix_append _ _
    rw [← reverse_append] at hrun
    rw [run_bind_eq (assertConfined_run hbelow), run_bind_eq (host_run hrun)]
    exact host_run hchange
  · refine hreplayed.planted.concat h.named.1 h.fresh ?_ ?_ ?_ ?_
    · rw [lookup_replace, if_pos rfl, hmade]
      rfl
    · intro front hne hfront hother hnone
      rw [lookup_replace, if_neg (by simpa using hother)]
      exact hmakes.named front hne hfront hnone
    · intro place own hplace hown
      rw [lookup_replace, if_neg hplace]
      exact hmakes.kept place own hown
    · intro place hplace
      rw [lookup_replace, if_neg (hplace p h.named.1 prefix_rfl)]
      exact hmakes.others place hplace

theorem Fits.split (h : Fits done p node) : ∃ front name, p = front ++ [name] ∧ isProper name = true := by
  refine ⟨p.dropLast, p.getLast h.named.1, (dropLast_append_getLast h.named.1).symm, ?_⟩
  exact h.named.2 _ (getLast_mem h.named.1)

theorem Fits.create (h : Fits done p node) (mayWrite : Nat → Bool) (hreplayed : Replayed host destination root done tree)
    (hdir : isDirectory tree (root ++ p.dropLast) = true) (own : Node) :
    create (permits mayWrite) (destination ++ p) own tree =
      if permits mayWrite tree (root ++ p.dropLast) = true then .ok () (tree ++ [(root ++ p, own)]) else .error .denied tree := by
  obtain ⟨front, name, rfl, hname⟩ := h.split
  have hmissing := h.missing hreplayed
  rw [dropLast_concat] at hdir ⊢
  rw [← append_assoc] at hmissing ⊢
  rw [← append_assoc]
  exact create_at _ _ (resolve_directory hreplayed.destined.wellFormed hreplayed.destined.resolved hdir) hdir hname
    hmissing

theorem Fits.concat (h : Fits done p node) (hreplayed : Replayed host destination root done tree)
    (hdir : isDirectory tree (root ++ p.dropLast) = true) (own : Node) :
    Destined destination root (tree ++ [(root ++ p, own)]) := by
  obtain ⟨front, name, rfl, hname⟩ := h.split
  have hmissing := h.missing hreplayed
  rw [dropLast_concat] at hdir
  rw [← append_assoc] at hmissing ⊢
  exact hreplayed.destined.of_grows
    (grows_concat hreplayed.destined.wellFormed hdir hmissing hname (prefix_append _ _))

theorem Fits.confined (h : Fits done p node) (hreplayed : Replayed host destination root done tree) :
    assertConfined root (destination ++ p) tree = .ok () tree := by
  refine assertConfined_run ?_
  rw [realpath_clear hreplayed.destined.wellFormed hreplayed.destined.resolved hreplayed.destined.directory
    (h.clear hreplayed) h.named.2 h.named.1 (h.missing hreplayed)]
  exact prefix_append _ _

theorem Fits.parents (h : Fits done p node) (hreplayed : Replayed host destination root done tree)
    (hdir : isDirectory tree (root ++ p.dropLast) = true) :
    makeParents (permits mayWrite) (destination ++ p) tree = .ok () tree := by
  unfold makeParents
  refine host_run ?_
  rw [dropLast_append_of_ne_nil h.named.1]
  exact makeDirectories_there (isDir_iff.mpr
    ⟨_, resolve_directory hreplayed.destined.wellFormed hreplayed.destined.resolved hdir, hdir⟩)

/-- A node at its path alone; the directories above it were there. -/
theorem Fits.planted (h : Fits done p node) (hreplayed : Replayed host destination root done tree)
    (hdir : isDirectory tree (root ++ p.dropLast) = true) (hnode : grown.lookup (root ++ p) = some node)
    (hothers : ∀ place, place ≠ root ++ p → grown.lookup place = tree.lookup place) :
    Planted host root (done ++ [(p, node)]) grown := by
  refine hreplayed.planted.concat h.named.1 h.fresh hnode ?_ ?_ ?_
  · intro front hne hfront hother hnone
    have hbelow : front <+: p.dropLast := by
      have hlength : front.length < p.length := by
        refine Nat.lt_of_le_of_ne hfront.length_le fun heq => hother (hfront.eq_of_length heq)
      rw [prefix_iff_eq_take] at hfront ⊢
      rw [dropLast_eq_take, take_take, Nat.min_eq_left (by omega)]
      exact hfront
    obtain ⟨rest, hrest⟩ := hbelow
    rw [← hrest, ← append_assoc] at hdir
    rcases isDirectory_iff.mp (hreplayed.destined.wellFormed.above_directory hdir) with hnil | ⟨mode, hmode⟩
    · exact absurd (append_eq_nil_iff.mp hnil).2 hne
    · rw [hnone] at hmode
      cases hmode
  · intro place own hplace hown
    rw [hothers place hplace]
    exact hown
  · intro place hplace
    exact hothers place (hplace p h.named.1 prefix_rfl)

theorem Fits.permitted_iff (h : Fits done p node) (hreplayed : Replayed host destination root done tree)
    (hopen : Open mayWrite host root) (hdir : isDirectory tree (root ++ p.dropLast) = true) :
    permits mayWrite tree (root ++ p.dropLast) = true ↔ Allowed mayWrite done p := by
  constructor
  · intro hpermits mode hmode
    unfold permits at hpermits
    by_cases hne : p.dropLast = []
    · rw [hne] at hmode
      exact absurd rfl (hreplayed.named _ (mem_of_lookup hmode))
    · rw [hreplayed.planted, planted_below hne, hmode] at hpermits
      exact hpermits
  · intro hallowed
    obtain ⟨front, name, hp, -⟩ := h.split
    have hdrop : p.dropLast = front := by rw [hp, dropLast_concat]
    rw [hdrop] at hdir ⊢
    exact h.permitted hreplayed hopen hallowed (hp ▸ prefix_rfl) hdir (hp ▸ h.missing hreplayed)

/-- A file is put in its place with its data and mode. -/
theorem extractFile_replays {data : List Nat} (hreplayed : Replayed host destination root done tree)
    (h : Fits done p (.file mode data)) (hopen : Open mayWrite host root) :
    (Allowed mayWrite done p → ∃ later, extractFile (permits mayWrite) root (destination ++ p) mode data tree = .ok () later ∧
      Replayed host destination root (done ++ [(p, .file mode data)]) later) ∧
    ∀ later, extractFile (permits mayWrite) root (destination ++ p) mode data tree = .ok () later → Allowed mayWrite done p := by
  have hdir : isDirectory tree (root ++ p.dropLast) = true := by
    refine hreplayed.parent ?_
    rcases h.seated with ⟨own, hown⟩ | hparent
    · cases hown
    · exact hparent
  have hcreate := h.create mayWrite hreplayed hdir (.file 0o600 [])
  have hpermits := h.permitted_iff hreplayed hopen hdir
  constructor
  · intro hallowed
    rw [if_pos (hpermits.mpr hallowed)] at hcreate
    have hdest := h.concat hreplayed hdir (.file 0o600 [])
    have hlookup : ∀ place, (tree ++ [(root ++ p, Node.file 0o600 [])]).lookup place =
        if place = root ++ p then some (.file 0o600 []) else tree.lookup place :=
      fun place => lookup_concat (h.missing hreplayed)
    generalize tree ++ [(root ++ p, Node.file 0o600 [])] = opened at hcreate hdest hlookup
    have hfile : opened.lookup (root ++ p) = some (.file 0o600 []) := by rw [hlookup, if_pos rfl]
    have hopened : openNewRegularFile (permits mayWrite) root (destination ++ p) tree = .ok () opened := by
      unfold openNewRegularFile
      rw [run_bind_eq (host_run hcreate)]
      refine assertConfined_run ?_
      rw [realpath_plain hdest.wellFormed hdest.resolved hfile rfl]
      exact prefix_append _ _
    have hwrite : writeData (destination ++ p) data opened =
        .ok () (FileTree.replace opened (root ++ p) (.file 0o600 data)) :=
      change_plain _ hdest.wellFormed hdest.resolved hfile rfl
    have hdest' := hdest.of_grows
      (replace_fills root hdest.wellFormed hfile (withData_sameKind data _)).grows
    have hdata : (FileTree.replace opened (root ++ p) (.file 0o600 data)).lookup (root ++ p) = some (.file 0o600 data) := by
      rw [lookup_replace, if_pos rfl, hfile]
      rfl
    have hchmod : chmod (destination ++ p) mode (FileTree.replace opened (root ++ p) (.file 0o600 data)) = .ok ()
        (FileTree.replace (FileTree.replace opened (root ++ p) (.file 0o600 data)) (root ++ p) (.file mode data)) :=
      change_plain _ hdest'.wellFormed hdest'.resolved hdata rfl
    refine ⟨_, ?_, hdest'.of_grows (replace_fills root hdest'.wellFormed hdata
      (withMode_sameKind mode _)).grows, h.planted hreplayed hdir ?_ ?_, h.names hreplayed⟩
    · unfold extractFile
      rw [run_bind_eq (h.confined hreplayed), run_bind_eq (h.parents hreplayed hdir), run_bind_eq (h.confined hreplayed),
        run_bind_eq hopened, run_bind_eq (host_run hwrite)]
      exact host_run hchmod
    · rw [lookup_replace, if_pos rfl]
      change (Option.map _ ((FileTree.replace opened (root ++ p) (.file 0o600 data)).lookup (root ++ p))) = _
      rw [hdata]
      rfl
    · intro place hplace
      change (FileTree.replace (FileTree.replace opened (root ++ p) (.file 0o600 data)) (root ++ p) _).lookup place = _
      rw [lookup_replace, if_neg hplace, lookup_replace, if_neg hplace, hlookup, if_neg hplace]
  · intro later hrun
    unfold extractFile at hrun
    rw [run_bind_eq (h.confined hreplayed), run_bind_eq (h.parents hreplayed hdir), run_bind_eq (h.confined hreplayed)] at hrun
    obtain ⟨_, opened, hopened, -⟩ := run_bind_ok hrun
    unfold openNewRegularFile at hopened
    obtain ⟨_, created, hcreated, -⟩ := run_bind_ok hopened
    have hok := host_ok hcreated
    rw [hcreate] at hok
    split at hok
    next hyes => exact hpermits.mp hyes
    next => cases hok

theorem extractDirectory_allowed (hreplayed : Replayed host destination root done tree)
    (h : Fits done p (.directory mode)) (hopen : Open mayWrite host root)
    (hrun : extractDirectory (permits mayWrite) root (destination ++ p) mode tree = .ok () grown) : Allowed mayWrite done p := by
  intro own hown
  have hdir := hreplayed.parent (p := p) (Or.inr ⟨own, hown⟩)
  refine (h.permitted_iff hreplayed hopen hdir).mp ?_ own hown
  unfold extractDirectory at hrun
  rw [run_bind_eq (h.confined hreplayed)] at hrun
  obtain ⟨_, made, hmade, -⟩ := run_bind_ok hrun
  have hok := host_ok hmade
  have hmissing := h.missing hreplayed
  obtain ⟨front, name, rfl, hname⟩ := h.split
  rw [dropLast_concat] at hdir ⊢
  rw [reverse_append] at hok
  rw [← append_assoc] at hmissing
  exact makeDirectories_allowed hreplayed.destined.wellFormed hreplayed.destined.resolved hdir hname hmissing hok

/-- A node is put below the destination, as a member of its kind is. -/
def plant (allows : Tree → Path → Bool) (destination root : Path) : Path × Node → Extract Unit
  | (path, .directory mode) => extractDirectory allows root (destination ++ path) mode
  | (path, .file mode data) => extractFile allows root (destination ++ path) mode data
  | (path, .link target) => do
    assertConfined root (destination ++ path)
    makeParents allows (destination ++ path)
    assertConfined root (destination ++ path)
    Archive.host (create allows (destination ++ path) (.link target))

theorem plantLink_replays {target : Name} (hreplayed : Replayed host destination root done tree)
    (h : Fits done p (.link target)) (hopen : Open mayWrite host root) :
    (Allowed mayWrite done p → ∃ later, plant (permits mayWrite) destination root (p, .link target) tree = .ok () later ∧
      Replayed host destination root (done ++ [(p, .link target)]) later) ∧
    ∀ later, plant (permits mayWrite) destination root (p, .link target) tree = .ok () later → Allowed mayWrite done p := by
  have hdir : isDirectory tree (root ++ p.dropLast) = true := by
    refine hreplayed.parent ?_
    rcases h.seated with ⟨own, hown⟩ | hparent
    · cases hown
    · exact hparent
  have hcreate := h.create mayWrite hreplayed hdir (.link target)
  have hpermits := h.permitted_iff hreplayed hopen hdir
  have hrun : plant (permits mayWrite) destination root (p, .link target) tree =
      Archive.host (create (permits mayWrite) (destination ++ p) (.link target)) tree := by
    rw [plant, run_bind_eq (h.confined hreplayed), run_bind_eq (h.parents hreplayed hdir), run_bind_eq (h.confined hreplayed)]
  rw [hrun]
  constructor
  · intro hallowed
    rw [if_pos (hpermits.mpr hallowed)] at hcreate
    refine ⟨_, host_run hcreate, h.concat hreplayed hdir _, h.planted hreplayed hdir ?_ ?_, h.names hreplayed⟩
    · rw [lookup_concat (h.missing hreplayed), if_pos rfl]
    · intro place hplace
      rw [lookup_concat (h.missing hreplayed), if_neg hplace]
  · intro later hlater
    have hok := host_ok hlater
    rw [hcreate] at hok
    split at hok
    next hyes => exact hpermits.mp hyes
    next => cases hok

theorem plant_replays (hreplayed : Replayed host destination root done tree) (h : Fits done p node)
    (hopen : Open mayWrite host root) :
    (Allowed mayWrite done p → ∃ later, plant (permits mayWrite) destination root (p, node) tree = .ok () later ∧
      Replayed host destination root (done ++ [(p, node)]) later) ∧
    ∀ later, plant (permits mayWrite) destination root (p, node) tree = .ok () later → Allowed mayWrite done p := by
  cases node with
  | directory mode =>
    exact ⟨extractDirectory_replays hreplayed h hopen, fun later hrun => extractDirectory_allowed hreplayed h hopen hrun⟩
  | file mode data => exact extractFile_replays hreplayed h hopen
  | link target => exact plantLink_replays hreplayed h hopen

end

section

variable {mayWrite : Nat → Bool} {host tree : Tree} {destination root : Path} {done nodes : List (Path × Node)}

def FitsAll : List (Path × Node) → List (Path × Node) → Prop
  | _, [] => True
  | done, item :: rest => Fits done item.1 item.2 ∧ FitsAll (done ++ [item]) rest

def AllowedAll (mayWrite : Nat → Bool) : List (Path × Node) → List (Path × Node) → Prop
  | _, [] => True
  | done, item :: rest => Allowed mayWrite done item.1 ∧ AllowedAll mayWrite (done ++ [item]) rest

/-- Nodes are put in their places exactly when their parents let them. -/
theorem forM_plant_replays (hreplayed : Replayed host destination root done tree) (hfits : FitsAll done nodes)
    (hopen : Open mayWrite host root) :
    (AllowedAll mayWrite done nodes → ∃ later, nodes.forM (plant (permits mayWrite) destination root) tree = .ok () later) ∧
    ∀ later, nodes.forM (plant (permits mayWrite) destination root) tree = .ok () later →
      AllowedAll mayWrite done nodes ∧ Replayed host destination root (done ++ nodes) later := by
  induction nodes generalizing done tree with
  | nil =>
    refine ⟨fun _ => ⟨tree, rfl⟩, fun later hlater => ?_⟩
    cases hlater
    rw [append_nil]
    exact ⟨trivial, hreplayed⟩
  | cons item rest ih =>
    obtain ⟨hitem, hrest⟩ := hfits
    obtain ⟨hforward, hback⟩ := plant_replays hreplayed hitem hopen
    constructor
    · rintro ⟨hallowed, hothers⟩
      obtain ⟨later, hrun, hlater⟩ := hforward hallowed
      obtain ⟨last, hlast⟩ := (ih hlater hrest).1 hothers
      refine ⟨last, ?_⟩
      change (plant _ _ _ item >>= fun _ => rest.forM _) tree = _
      rw [run_bind_eq hrun]
      exact hlast
    · intro last hlast
      change (plant _ _ _ item >>= fun _ => rest.forM _) tree = _ at hlast
      obtain ⟨_, later, hrun, hmore⟩ := run_bind_ok hlast
      have hallowed := hback later hrun
      obtain ⟨same, hsame, hreplayed'⟩ := hforward hallowed
      rw [hrun] at hsame
      cases hsame
      obtain ⟨hothers, hdone⟩ := (ih hreplayed' hrest).2 last hmore
      rw [append_assoc, singleton_append] at hdone
      exact ⟨⟨hallowed, hothers⟩, hdone⟩

end

end Leitir.Archive
