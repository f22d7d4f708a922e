import Leitir.FileTreeGrowth

namespace FileTree

open List

section

variable {ε α β : Type} {R : Tree → Tree → Prop}

variable {run : Run ε α} {changed : Tree} {next : α → Run ε β}

theorem final_ok {tree : Tree} {a : α} (h : run tree = .ok a changed) : final run tree = changed := by
  unfold final
  rw [h]

theorem final_error {tree : Tree} {err : ε} (h : run tree = .error err changed) :
    final run tree = changed := by
  unfold final
  rw [h]

theorem run_bind {tree : Tree} :
    (run >>= next) tree =
      match run tree with
      | .ok a changed => next a changed
      | .error err changed => .error err changed := by
  change EStateM.bind run next tree = _
  unfold EStateM.bind
  cases run tree with
  | ok a changed => rfl
  | error err changed => rfl

theorem run_bind_ok {tree : Tree} {b : β}
    (h : (run >>= next) tree = .ok b changed) : ∃ a middle, run tree = .ok a middle ∧ next a middle = .ok b changed := by
  rw [run_bind] at h
  split at h
  next a middle hrun => exact ⟨a, middle, hrun, h⟩
  next => cases h

theorem final_bind {tree : Tree}
    (htrans : ∀ {a b c : Tree}, R a b → R b c → R a c) (hrun : R tree (final run tree))
    (hnext : ∀ a changed, run tree = .ok a changed → R tree changed → R changed (final (next a) changed)) :
    R tree (final (run >>= next) tree) := by
  cases h : run tree with
  | ok a changed =>
    have hfirst : R tree changed := final_ok h ▸ hrun
    have hlast : final (run >>= next) tree = final (next a) changed := by
      unfold final
      rw [run_bind, h]
    rw [hlast]
    exact htrans hfirst (hnext a changed h hfirst)
  | error err changed =>
    have hlast : final (run >>= next) tree = changed := by
      unfold final
      rw [run_bind, h]
    rw [hlast, ← final_error h]
    exact hrun

theorem final_forM {f : α → Run ε Unit} {items : List α} {tree : Tree} (hrefl : R tree tree)
    (htrans : ∀ {a b c : Tree}, R a b → R b c → R a c)
    (h : ∀ item ∈ items, ∀ changed, R tree changed → R changed (final (f item) changed)) :
    R tree (final (items.forM f) tree) := by
  suffices hsuff : ∀ changed, R tree changed → R tree (final (items.forM f) changed) from hsuff tree hrefl
  induction items with
  | nil => exact fun changed hchanged => hchanged
  | cons item items ih =>
    intro changed hchanged
    obtain ⟨hitem, hitems⟩ := forall_mem_cons.mp h
    have hstep := htrans hchanged (hitem changed hchanged)
    change R tree (final (f item >>= fun _ => items.forM f) changed)
    cases hrun : f item changed with
    | ok a later =>
      have hlast : final (f item >>= fun _ => items.forM f) changed = final (items.forM f) later := by
        unfold final
        rw [run_bind, hrun]
      rw [hlast]
      exact ih hitems later (final_ok hrun ▸ hstep)
    | error err later =>
      have hlast : final (f item >>= fun _ => items.forM f) changed = later := by
        unfold final
        rw [run_bind, hrun]
      rw [hlast, ← final_error hrun]
      exact hstep

theorem forM_run_ok {f : α → Run ε Unit} {items : List α} {tree : Tree}
    (h : items.forM f tree = .ok () changed) (hsame : ∀ item ∈ items, ∀ a b, f item a = .ok () b → b = a) :
    changed = tree ∧ ∀ item ∈ items, f item tree = .ok () tree := by
  induction items with
  | nil =>
    cases h
    exact ⟨rfl, by simp⟩
  | cons item items ih =>
    obtain ⟨hitem, hitems⟩ := forall_mem_cons.mp hsame
    change (f item >>= fun _ => items.forM f) tree = .ok () changed at h
    obtain ⟨_, middle, hfirst, hrest⟩ := run_bind_ok h
    obtain rfl := hitem tree middle hfirst
    obtain ⟨rfl, hall⟩ := ih hrest hitems
    exact ⟨rfl, forall_mem_cons.mpr ⟨hfirst, hall⟩⟩

end

section

/-- The tree grows below the root, and no link is new. -/
structure Fills (root : Path) (tree grown : Tree) : Prop where
  grows : Grows root tree grown
  plain : NoNewLinks tree grown

variable {allows : Tree → Path → Bool} {root : Path} {tree grown later : Tree}

theorem Fills.refl (hwf : WellFormed tree) : Fills root tree tree := ⟨.refl hwf, fun _ _ h => h⟩

theorem Fills.trans (h : Fills root tree grown) (hlater : Fills root grown later) : Fills root tree later :=
  ⟨h.grows.trans hlater.grows, h.plain.trans hlater.plain⟩

theorem Fills.realpath_eq (h : Fills root tree grown) (hwf : WellFormed tree) (path : Path) :
    realpath tree path = realpath grown path :=
  h.grows.realpath_eq hwf h.plain path

variable {path : Path}

theorem Grows.resolve (h : Grows root tree grown) {place : Path} (hresolve : resolve tree path = .ok place) :
    FileTree.resolve grown path = .ok place :=
  resolve_iff.mpr (h.leads (resolve_iff.mp hresolve))

theorem isDir_iff : isDir tree path = true ↔ ∃ place, resolve tree path = .ok place ∧ isDirectory tree place = true := by
  unfold isDir
  cases hresolve : resolve tree path with
  | ok place => simp
  | error err => simp

theorem realpath_resolved (hwf : WellFormed tree) {front place : Path} (hresolve : resolve tree front = .ok place)
    (hdir : isDirectory tree place = true) (more : Path) : realpath tree (front ++ more) = realpath tree (place ++ more) := by
  have hfront : real tree ((linkPlaces tree).length + 1) [] [] front = (place, true) :=
    (resolve_iff.mp hresolve).real (by simp [Unsettled]) nodup_nil (by simp) (by simp)
  have hleads : Leads tree maxLinks [] place ([] ++ place) := by
    rw [← nil_append place] at hdir
    exact hwf.leads hdir maxLinks
  have hplace : real tree ((linkPlaces tree).length + 1) [] [] place = (place, true) :=
    hleads.real (by simp [Unsettled]) nodup_nil (by simp) (by simp)
  unfold realpath
  rw [real_append hfront, real_append hplace]

/-- Making what is there changes nothing. -/
theorem makeDirectories_there (hdir : isDir tree path = true) :
    makeDirectories allows path.reverse tree = .ok () tree := by
  cases path using List.reverseRecOn with
  | nil => rfl
  | append_singleton front name =>
    obtain ⟨place, hresolve, -⟩ := isDir_iff.mp hdir
    obtain ⟨middle, hfront, hlast⟩ := (resolve_iff.mp hresolve).split
    have hmiddle := resolve_iff.mpr hfront
    have hthere : isDirectory tree middle = true ∧ (isProper name = false ∨ (tree.lookup (middle ++ [name])).isSome = true) := by
      cases hlast with
      | current hmiddleDir hcurrent _ => exact ⟨hmiddleDir, Or.inl (by simp [isProper, hcurrent])⟩
      | parent hmiddleDir _ hparent _ => exact ⟨hmiddleDir, Or.inl (by simp [isProper, hparent])⟩
      | enter hmiddleDir _ hnode _ _ => exact ⟨hmiddleDir, Or.inr (by rw [hnode]; rfl)⟩
      | follow hmiddleDir _ hnode _ => exact ⟨hmiddleDir, Or.inr (by rw [hnode]; rfl)⟩
    have hreverse : (front ++ [name]).reverse = name :: front.reverse := by simp
    have hback : (name :: front.reverse).reverse = front ++ [name] := by simp
    have hcreate : create allows (front ++ [name]) newDirectory tree = .error .exists_ tree := by
      unfold create
      rw [getLast?_concat, dropLast_concat]
      dsimp only
      rw [hmiddle]
      dsimp only
      rw [if_neg (by simp [hthere.1]), if_pos hthere.2]
    rw [hreverse, makeDirectories, hback]
    dsimp only
    rw [hcreate]
    dsimp only
    rw [if_pos hdir]

theorem makeDirectory_fills (more : Path) (hwf : WellFormed tree) (hroot : isDirectory tree root = true)
    (hmore : ∀ part ∈ more, isProper part = true) (hbelow : root <+: realpath tree (path ++ more)) :
    Fills root tree (final (makeDirectory allows path) tree) := by
  cases hcreate : create allows path newDirectory tree with
  | ok a changed =>
    obtain ⟨hgrows, hplain⟩ := create_grows more hwf hroot hmore hbelow hcreate
    have hrun : makeDirectory allows path tree = .ok () changed := by simp only [makeDirectory, hcreate]
    rw [final_ok hrun]
    exact ⟨hgrows, hplain rfl⟩
  | error err changed =>
    obtain rfl := create_error hcreate
    have hlast : final (makeDirectory allows path) changed = changed := by
      unfold final
      simp only [makeDirectory, hcreate]
      by_cases hthere : isDir changed path = true
      · rw [if_pos hthere]
      · rw [if_neg hthere]
    rw [hlast]
    exact .refl hwf

/-- The ways in which a directory and those above it are made. -/
theorem makeDirectories_cons (allows : Tree → Path → Bool) (tree : Tree) (name : Name) (above : List Name) :
    (∃ changed, create allows (name :: above).reverse newDirectory tree = .ok () changed ∧
        final (makeDirectories allows (name :: above)) tree = changed) ∨
      final (makeDirectories allows (name :: above)) tree = tree ∨
      final (makeDirectories allows (name :: above)) tree = final (makeDirectories allows above) tree ∨
      ∃ changed, makeDirectories allows above tree = .ok () changed ∧
        final (makeDirectories allows (name :: above)) tree = final (makeDirectory allows (name :: above).reverse) changed := by
  cases hcreate : create allows (name :: above).reverse newDirectory tree with
  | ok a changed =>
    refine Or.inl ⟨changed, rfl, ?_⟩
    unfold final
    simp only [makeDirectories, hcreate]
  | error err changed =>
    obtain rfl := create_error hcreate
    by_cases hmissing : err = .missing
    · subst hmissing
      cases hinner : makeDirectories allows above changed with
      | ok a later =>
        refine Or.inr (Or.inr (Or.inr ⟨later, rfl, ?_⟩))
        unfold final
        simp only [makeDirectories, hcreate, hinner]
      | error err later =>
        refine Or.inr (Or.inr (Or.inl ?_))
        unfold final
        simp only [makeDirectories, hcreate, hinner]
    · refine Or.inr (Or.inl ?_)
      unfold final
      simp only [makeDirectories, hcreate]
      by_cases hthere : isDir changed (name :: above).reverse = true
      · rw [if_pos hthere]
      · rw [if_neg hthere]

/-- Directories are made below the root when the path was seen to be below it. -/
theorem makeDirectories_fills {destination : Path} (more : Path) {names : List Name} (hwf : WellFormed tree)
    (hroot : isDirectory tree root = true) (hdir : isDir tree destination = true)
    (hnames : ∀ part ∈ names, isProper part = true) (hmore : ∀ part ∈ more, isProper part = true)
    (hbelow : root <+: realpath tree (destination ++ names.reverse ++ more)) :
    Fills root tree (final (makeDirectories allows (names ++ destination.reverse)) tree) := by
  induction names generalizing more with
  | nil =>
    rw [nil_append, final_ok (makeDirectories_there hdir)]
    exact .refl hwf
  | cons name above ih =>
    obtain ⟨hname, habove⟩ := forall_mem_cons.mp hnames
    have hpath : (name :: (above ++ destination.reverse)).reverse = destination ++ (name :: above).reverse := by simp
    have hinner : Fills root tree (final (makeDirectories allows (above ++ destination.reverse)) tree) := by
      refine ih (name :: more) habove (forall_mem_cons.mpr ⟨hname, hmore⟩) ?_
      simpa using hbelow
    rw [cons_append]
    rcases makeDirectories_cons allows tree name (above ++ destination.reverse) with
      ⟨changed, hcreate, hlast⟩ | hlast | hlast | ⟨changed, hrun, hlast⟩
    · rw [hlast]
      rw [hpath] at hcreate
      obtain ⟨hgrows, hplain⟩ := create_grows more hwf hroot hmore hbelow hcreate
      exact ⟨hgrows, hplain rfl⟩
    · rw [hlast]
      exact .refl hwf
    · rw [hlast]
      exact hinner
    · rw [hlast, hpath]
      rw [final_ok hrun] at hinner
      refine hinner.trans (makeDirectory_fills more hinner.grows.wellFormed (hinner.grows.isDirectory hroot) hmore ?_)
      rw [← hinner.realpath_eq hwf]
      exact hbelow

end

section

variable {allows : Tree → Path → Bool} {root : Path} {tree : Tree}

theorem lookup_replace (place other : Path) (node : Node) :
    (replace tree place node).lookup other = if other = place then (tree.lookup place).map fun _ => node else tree.lookup other := by
  induction tree with
  | nil => simp [replace]
  | cons entry rest ih =>
    obtain ⟨own, ownNode⟩ := entry
    have hcons : replace ((own, ownNode) :: rest) place node =
        (if own = place then (place, node) else (own, ownNode)) :: replace rest place node := rfl
    rw [hcons]
    by_cases hown : own = place
    · subst hown
      rw [if_pos rfl, lookup_cons, ih]
      by_cases hother : other = own
      · subst hother
        simp
      · have hne : (other == own) = false := by simpa using hother
        simp [hne, hother, lookup_cons]
    · rw [if_neg hown, lookup_cons, ih]
      have hplace : (place == own) = false := by simpa using Ne.symm hown
      by_cases hother : other = place
      · subst hother
        simp [hplace, lookup_cons]
      · simp [hother, lookup_cons]

theorem replace_fills (root : Path) (hwf : WellFormed tree) {place : Path} {node update : Node} (hnode : tree.lookup place = some node)
    (hsame : SameKind node update) : Fills root tree (replace tree place update) := by
  have hlookup : ∀ other, (replace tree place update).lookup other = if other = place then some update else tree.lookup other := by
    intro other
    rw [lookup_replace, hnode]
    rfl
  have hplaces : (replace tree place update).map Prod.fst = tree.map Prod.fst := by
    unfold replace
    rw [map_map]
    refine map_congr_left fun entry _ => ?_
    simp only [Function.comp_apply]
    split
    next h => exact h.symm
    next => rfl
  have hstays : ∀ own ownNode, tree.lookup own = some ownNode →
      ∃ other, (replace tree place update).lookup own = some other ∧ SameKind ownNode other := by
    intro own ownNode hown
    rw [hlookup]
    split
    next heq =>
      rw [heq, hnode] at hown
      cases hown
      exact ⟨update, rfl, hsame⟩
    next => exact ⟨ownNode, hown, .refl ownNode⟩
  have hdirectories : ∀ own, isDirectory tree own = true → isDirectory (replace tree place update) own = true := by
    intro own hown
    rcases isDirectory_iff.mp hown with rfl | ⟨mode, hmode⟩
    · rfl
    · obtain ⟨other, hother, hkind⟩ := hstays own _ hmode
      cases other with
      | directory later => exact isDirectory_iff.mpr (Or.inr ⟨later, hother⟩)
      | file later data => cases hkind
      | link target => cases hkind
  have hentries : ∀ entry ∈ replace tree place update, ∃ old ∈ tree, old.1 = entry.1 := by
    intro entry hentry
    have hmem := mem_map_of_mem (f := Prod.fst) hentry
    rw [hplaces] at hmem
    exact mem_map.mp hmem
  refine ⟨⟨⟨?_, ?_, ?_⟩, hstays, ?_⟩, ?_⟩
  · rw [hplaces]
    exact hwf.places
  · intro entry hentry
    obtain ⟨old, hold, heq⟩ := hentries entry hentry
    exact heq ▸ hwf.named old hold
  · intro entry hentry
    obtain ⟨old, hold, heq⟩ := hentries entry hentry
    exact hdirectories _ (heq ▸ hwf.parents old hold)
  · intro own ownNode hown hnone
    rw [hlookup] at hown
    split at hown
    next heq =>
      rw [heq, hnode] at hnone
      cases hnone
    next =>
      rw [hown] at hnone
      cases hnone
  · intro own target hown
    rw [hlookup] at hown
    split at hown
    next heq =>
      cases hown
      cases node with
      | directory mode => cases hsame
      | file mode data => cases hsame
      | link other =>
        cases hsame
        rw [heq]
        exact hnode
    next => exact hown

variable {path : Path}

theorem change_fills (hwf : WellFormed tree) {update : Node → Node} (hsame : ∀ node, SameKind node (update node)) :
    Fills root tree (final (change path update) tree) := by
  unfold final change
  cases hresolve : resolve tree path with
  | error err => exact .refl hwf
  | ok place =>
    cases hnode : tree.lookup place with
    | none =>
      simp only [hnode]
      exact .refl hwf
    | some node =>
      simp only [hnode]
      exact replace_fills root hwf hnode (hsame node)

theorem withMode_sameKind (mode : Nat) (node : Node) : SameKind node (withMode mode node) := by
  cases node with
  | directory own => trivial
  | file own data => trivial
  | link target => rfl

theorem withData_sameKind (data : List Nat) (node : Node) : SameKind node (withData data node) := by
  cases node with
  | directory own => trivial
  | file own data => trivial
  | link target => rfl

theorem create_fills (allows : Tree → Path → Bool) (node : Node) (hwf : WellFormed tree) (hroot : isDirectory tree root = true)
    (hbelow : root <+: realpath tree path) (hplain : isLink node = false) :
    Fills root tree (final (create allows path node) tree) := by
  cases hcreate : create allows path node tree with
  | ok a changed =>
    rw [final_ok hcreate]
    obtain ⟨hgrows, hlinks⟩ := create_grows [] hwf hroot (by simp) (by rwa [append_nil]) hcreate
    exact ⟨hgrows, hlinks hplain⟩
  | error err changed =>
    rw [final_error hcreate, create_error hcreate]
    exact .refl hwf

theorem hardLink_fills {source : Path} (hwf : WellFormed tree) (hroot : isDirectory tree root = true)
    (hbelow : root <+: realpath tree path) : Fills root tree (final (hardLink allows source path) tree) := by
  have hsame : ∀ node, isLink node = false → hardLink allows source path tree = create allows path node tree →
      Fills root tree (final (hardLink allows source path) tree) := by
    intro node hplain hrun
    have hfills := create_fills allows node hwf hroot hbelow hplain
    unfold final at hfills ⊢
    rw [hrun]
    exact hfills
  have herror : ∀ err, hardLink allows source path tree = .error err tree →
      Fills root tree (final (hardLink allows source path) tree) := by
    intro err hrun
    rw [final_error hrun]
    exact .refl hwf
  cases hresolve : resolve tree source with
  | error err => exact herror err (by simp only [hardLink, hresolve])
  | ok place =>
    cases hnode : tree.lookup place with
    | none => exact herror .notFile (by simp only [hardLink, hresolve, hnode])
    | some node =>
      cases node with
      | directory mode => exact herror .notFile (by simp only [hardLink, hresolve, hnode])
      | link target => exact herror .notFile (by simp only [hardLink, hresolve, hnode])
      | file mode data => exact hsame (.file mode data) rfl (by simp only [hardLink, hresolve, hnode])

end

end FileTree
