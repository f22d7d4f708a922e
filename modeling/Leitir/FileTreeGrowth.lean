import Leitir.FileTreeResolve

namespace FileTree

open List

section

/-- A file system in which every node is an entry of a directory. -/
structure WellFormed (tree : Tree) : Prop where
  places : (tree.map Prod.fst).Nodup
  named : ∀ entry ∈ tree, entry.1 ≠ [] ∧ ∀ part ∈ entry.1, isProper part = true
  parents : ∀ entry ∈ tree, isDirectory tree entry.1.dropLast = true

variable {tree : Tree} {place : Path} {node : Node}

theorem mem_of_lookup (h : tree.lookup place = some node) : (place, node) ∈ tree := by
  obtain ⟨before, after, hsplit, -⟩ := List.lookup_eq_some_iff.mp h
  rw [hsplit]
  simp

theorem WellFormed.lookup_iff (hwf : WellFormed tree) : tree.lookup place = some node ↔ (place, node) ∈ tree := by
  refine ⟨mem_of_lookup, fun hmem => ?_⟩
  obtain ⟨before, after, rfl⟩ := append_of_mem hmem
  refine List.lookup_eq_some_iff.mpr ⟨before, after, rfl, ?_⟩
  intro entry hentry
  have hnodup := hwf.places
  rw [map_append, List.nodup_append] at hnodup
  have hne := hnodup.2.2 entry.1 (mem_map_of_mem hentry) place (by simp)
  simpa using hne.symm

theorem isDirectory_iff : isDirectory tree place = true ↔ place = [] ∨ ∃ mode, tree.lookup place = some (.directory mode) := by
  unfold isDirectory
  rw [Bool.or_eq_true, decide_eq_true_iff]
  refine or_congr_right ?_
  split
  next mode h => exact ⟨fun _ => ⟨mode, h⟩, fun _ => rfl⟩
  next hnot => exact ⟨fun h => by simp at h, fun ⟨mode, h⟩ => absurd h (hnot mode)⟩

variable {rest : Path}

theorem WellFormed.above (hwf : WellFormed tree) (hrest : rest ≠ [])
    (h : tree.lookup (place ++ rest) = some node) : isDirectory tree place = true := by
  induction rest using List.reverseRecOn generalizing node with
  | nil => exact absurd rfl hrest
  | append_singleton front last ih =>
    have hparent := hwf.parents _ (mem_of_lookup h)
    simp only [← append_assoc, dropLast_concat] at hparent
    by_cases hfront : front = []
    · subst hfront
      simpa using hparent
    · rcases isDirectory_iff.mp hparent with hnil | ⟨mode, hmode⟩
      · rw [(append_eq_nil_iff.mp hnil).1]
        rfl
      · exact ih hfront hmode

theorem WellFormed.above_directory (hwf : WellFormed tree) (h : isDirectory tree (place ++ rest) = true) :
    isDirectory tree place = true := by
  by_cases hrest : rest = []
  · rw [hrest, append_nil] at h
    exact h
  · rcases isDirectory_iff.mp h with hnil | ⟨mode, hmode⟩
    · rw [(append_eq_nil_iff.mp hnil).1]
      rfl
    · exact hwf.above hrest hmode

theorem WellFormed.missing_below (hwf : WellFormed tree) (hne : place ≠ []) (h : tree.lookup place = none) (rest : Path) :
    tree.lookup (place ++ rest) = none := by
  by_cases hrest : rest = []
  · rw [hrest, append_nil]
    exact h
  · rw [Option.eq_none_iff_forall_not_mem]
    intro other hother
    rcases isDirectory_iff.mp (hwf.above hrest hother) with hnil | ⟨mode, hmode⟩
    · exact hne hnil
    · rw [h] at hmode
      cases hmode

theorem WellFormed.proper (hwf : WellFormed tree) (h : isDirectory tree place = true) :
    ∀ part ∈ place, isProper part = true := by
  rcases isDirectory_iff.mp h with rfl | ⟨mode, hmode⟩
  · simp
  · exact (hwf.named _ (mem_of_lookup hmode)).2

theorem WellFormed.leads (hwf : WellFormed tree) (h : isDirectory tree (place ++ rest) = true) (links : Nat) :
    Leads tree links place rest (place ++ rest) := by
  induction rest generalizing place with
  | nil =>
    rw [append_nil]
    exact .done
  | cons part rest ih =>
    have hsplit : place ++ part :: rest = (place ++ [part]) ++ rest := by simp
    rw [hsplit] at h ⊢
    have hhere := hwf.above_directory h
    have hproper : isProper part = true := hwf.proper hhere part (by simp)
    rcases isDirectory_iff.mp hhere with hnil | ⟨mode, hmode⟩
    · simp at hnil
    · exact .enter (hwf.above_directory hhere) hproper hmode rfl (ih h)

end

section

variable {tree : Tree} {front place more : Path} {name : Name}

theorem real_missing (hwf : WellFormed tree) {depth : Nat} {active : List Path} (hne : place ≠ [])
    (hnone : tree.lookup place = none) (hmore : ∀ part ∈ more, isProper part = true) :
    real tree depth active place more = (place ++ more, true) := by
  induction more generalizing place with
  | nil => rw [real_nil, append_nil]
  | cons part rest ih =>
    obtain ⟨hpart, hrest⟩ := forall_mem_cons.mp hmore
    have hbelow := hwf.missing_below hne hnone [part]
    rw [real_enter hpart, ih (by simp) hbelow hrest, append_assoc, singleton_append]
    intro node hnode
    rw [hbelow] at hnode
    cases hnode

theorem realpath_missing (hwf : WellFormed tree) (hresolve : resolve tree front = .ok place)
    (hnone : tree.lookup (place ++ [name]) = none) (hname : isProper name = true)
    (hmore : ∀ part ∈ more, isProper part = true) : realpath tree (front ++ name :: more) = place ++ name :: more := by
  have hfront : real tree ((linkPlaces tree).length + 1) [] [] front = (place, true) :=
    (resolve_iff.mp hresolve).real (by simp [Unsettled]) nodup_nil (by simp) (by simp)
  have hreal : real tree ((linkPlaces tree).length + 1) [] [] (front ++ name :: more) = (place ++ name :: more, true) := by
    rw [real_append hfront, real_enter hname, real_missing hwf (by simp) hnone hmore, append_assoc,
      singleton_append]
    intro node hnode
    rw [hnone] at hnode
    cases hnode
  unfold realpath
  rw [hreal]

theorem below_of_missing (hwf : WellFormed tree) {root : Path} (hroot : isDirectory tree root = true)
    (hnone : tree.lookup (place ++ [name]) = none) (hbelow : root <+: place ++ name :: more) : root <+: place := by
  have hsplit : place ++ name :: more = (place ++ [name]) ++ more := by simp
  rw [hsplit] at hbelow
  have hnot : ¬ isDirectory tree (place ++ [name]) = true := by
    intro h
    rcases isDirectory_iff.mp h with hnil | ⟨mode, hmode⟩
    · simp at hnil
    · rw [hnone] at hmode
      cases hmode
  rcases prefix_or_prefix_of_prefix hbelow (prefix_append _ _) with hroots | hplace
  · rcases prefix_concat_iff.mp hroots with heq | hgood
    · rw [heq] at hroot
      exact absurd hroot hnot
    · exact hgood
  · obtain ⟨rest, rfl⟩ := hplace
    exact absurd (hwf.above_directory hroot) hnot

end

section

/-- The same kind of node; a link keeps its target. -/
def SameKind : Node → Node → Prop
  | .directory _, .directory _ => True
  | .file _ _, .file _ _ => True
  | .link target, .link other => target = other
  | _, _ => False

theorem SameKind.refl (node : Node) : SameKind node node := by
  cases node with
  | directory mode => trivial
  | file mode data => trivial
  | link target => rfl

theorem SameKind.trans {a b c : Node} (hab : SameKind a b) (hbc : SameKind b c) : SameKind a c := by
  cases a <;> cases b <;> cases c <;> simp_all [SameKind]

theorem SameKind.isLink_eq {a b : Node} (h : SameKind a b) : isLink a = isLink b := by
  cases a <;> cases b <;> simp_all [SameKind, isLink]

/-- What is there stays there, and what is new is below a directory. -/
structure Grows (root : Path) (tree grown : Tree) : Prop where
  wellFormed : WellFormed grown
  stays : ∀ place node, tree.lookup place = some node → ∃ other, grown.lookup place = some other ∧ SameKind node other
  fresh : ∀ place node, grown.lookup place = some node → tree.lookup place = none → root <+: place ∧ place ≠ root

def NoNewLinks (tree grown : Tree) : Prop :=
  ∀ place target, grown.lookup place = some (.link target) → tree.lookup place = some (.link target)

variable {root : Path} {tree grown later : Tree}

theorem Grows.refl (hwf : WellFormed tree) : Grows root tree tree where
  wellFormed := hwf
  stays := fun _ node h => ⟨node, h, .refl node⟩
  fresh := fun _ _ h hnone => by
    rw [h] at hnone
    cases hnone

theorem Grows.trans (h : Grows root tree grown) (hlater : Grows root grown later) : Grows root tree later where
  wellFormed := hlater.wellFormed
  stays := fun place node hnode => by
    obtain ⟨other, hother, hsame⟩ := h.stays place node hnode
    obtain ⟨last, hlast, hsame'⟩ := hlater.stays place other hother
    exact ⟨last, hlast, hsame.trans hsame'⟩
  fresh := fun place node hnode hnone => by
    cases hmiddle : grown.lookup place with
    | none => exact hlater.fresh place node hnode hmiddle
    | some other => exact h.fresh place other hmiddle hnone

theorem NoNewLinks.trans (h : NoNewLinks tree grown) (hlater : NoNewLinks grown later) : NoNewLinks tree later :=
  fun place target hlink => h place target (hlater place target hlink)

theorem Grows.isDirectory (h : Grows root tree grown) {place : Path} (hdir : isDirectory tree place = true) :
    isDirectory grown place = true := by
  rcases isDirectory_iff.mp hdir with rfl | ⟨mode, hmode⟩
  · rfl
  · obtain ⟨other, hother, hsame⟩ := h.stays place _ hmode
    cases other with
    | directory own => exact isDirectory_iff.mpr (Or.inr ⟨own, hother⟩)
    | file own data => cases hsame
    | link target => cases hsame

theorem Grows.links_iff (h : Grows root tree grown) (hlinks : NoNewLinks tree grown) {place : Path} {target : Name} :
    tree.lookup place = some (.link target) ↔ grown.lookup place = some (.link target) := by
  refine ⟨fun hnode => ?_, hlinks place target⟩
  obtain ⟨other, hother, hsame⟩ := h.stays place _ hnode
  cases other with
  | directory own => cases hsame
  | file own data => cases hsame
  | link own =>
    cases hsame
    exact hother

theorem Grows.leads (h : Grows root tree grown) {links : Nat} {place path found : Path}
    (hleads : Leads tree links place path found) : Leads grown links place path found := by
  induction hleads with
  | done => exact .done
  | current hdir hcurrent _ ih => exact .current (h.isDirectory hdir) hcurrent ih
  | parent hdir hcurrent hparent _ ih => exact .parent (h.isDirectory hdir) hcurrent hparent ih
  | enter hdir hproper hnode hplain _ ih =>
    obtain ⟨other, hother, hsame⟩ := h.stays _ _ hnode
    exact .enter (h.isDirectory hdir) hproper hother (hsame.isLink_eq ▸ hplain) ih
  | follow hdir hproper hnode _ ih =>
    obtain ⟨other, hother, hsame⟩ := h.stays _ _ hnode
    cases other with
    | directory own => cases hsame
    | file own data => cases hsame
    | link own =>
      cases hsame
      exact .follow (h.isDirectory hdir) hproper hother ih

theorem realWith_congr (hlinks : ∀ place target,
      tree.lookup place = some (.link target) ↔ grown.lookup place = some (.link target))
    (next : List Path → Path → Path → Path × Bool) (active : List Path) (place path : Path) :
    realWith tree next active place path = realWith grown next active place path := by
  induction path generalizing place with
  | nil => rfl
  | cons part rest ih =>
    rw [realWith, realWith]
    simp only [ih]
    refine ite_congr rfl (fun _ => rfl) fun _ => ite_congr rfl (fun _ => rfl) fun _ => ?_
    have hsame := hlinks (place ++ [part])
    cases htree : tree.lookup (place ++ [part]) with
    | none => cases hgrown : grown.lookup (place ++ [part]) with
      | none => rfl
      | some other => cases other <;> simp_all
    | some node => cases hgrown : grown.lookup (place ++ [part]) with
      | none => cases node <;> simp_all
      | some other => cases node <;> cases other <;> simp_all

theorem real_congr (hlinks : ∀ place target, tree.lookup place = some (.link target) ↔ grown.lookup place = some (.link target))
    (depth : Nat) : real tree depth = real grown depth := by
  induction depth with
  | zero =>
    funext active place path
    exact realWith_congr hlinks _ active place path
  | succ depth ih =>
    funext active place path
    rw [real, real, ih]
    exact realWith_congr hlinks _ active place path

theorem WellFormed.mem_linkPlaces_iff (hwf : WellFormed tree) {place : Path} :
    place ∈ linkPlaces tree ↔ ∃ target, tree.lookup place = some (.link target) := by
  constructor
  · intro h
    obtain ⟨⟨own, node⟩, hentry, rfl⟩ := mem_map.mp h
    obtain ⟨hmem, hlink⟩ := mem_filter.mp hentry
    cases node with
    | link target => exact ⟨target, hwf.lookup_iff.mpr hmem⟩
    | directory mode => cases hlink
    | file mode data => cases hlink
  · rintro ⟨target, htarget⟩
    exact mem_linkPlaces htarget

theorem WellFormed.nodup_linkPlaces (hwf : WellFormed tree) : (linkPlaces tree).Nodup :=
  hwf.places.sublist (filter_sublist.map Prod.fst)

theorem Grows.realpath_eq (h : Grows root tree grown) (hwf : WellFormed tree) (hlinks : NoNewLinks tree grown) (path : Path) :
    realpath tree path = realpath grown path := by
  have hsame : ∀ place target, tree.lookup place = some (.link target) ↔ grown.lookup place = some (.link target) :=
    fun place target => h.links_iff hlinks
  have hperm : (linkPlaces tree).Perm (linkPlaces grown) := by
    rw [perm_ext_iff_of_nodup hwf.nodup_linkPlaces h.wellFormed.nodup_linkPlaces]
    intro place
    rw [hwf.mem_linkPlaces_iff, h.wellFormed.mem_linkPlaces_iff]
    exact exists_congr fun target => hsame place target
  unfold realpath
  rw [real_congr hsame, hperm.length_eq]

end

section

variable {allows : Tree → Path → Bool} {root : Path} {tree grown : Tree}

def final {ε α : Type} (run : Run ε α) (tree : Tree) : Tree :=
  match run tree with
  | .ok _ changed => changed
  | .error _ changed => changed

variable {path : Path}

theorem create_ok {node : Node} (h : create allows path node tree = .ok () grown) :
    ∃ front name place, path = front ++ [name] ∧ resolve tree front = .ok place ∧ isDirectory tree place = true ∧
      isProper name = true ∧ tree.lookup (place ++ [name]) = none ∧ allows tree place = true ∧
      grown = tree ++ [(place ++ [name], node)] := by
  unfold create at h
  split at h
  next => cases h
  next name hname =>
    obtain ⟨front, rfl⟩ := getLast?_eq_some_iff.mp hname
    rw [dropLast_concat] at h
    split at h
    next => cases h
    next place hplace =>
      split at h
      next => cases h
      next hdir =>
        split at h
        next => cases h
        next hfree =>
          split at h
          next => cases h
          next hallows =>
            cases h
            rw [not_or, Bool.not_eq_false, Bool.not_eq_true, Option.isSome_eq_false_iff, Option.isNone_iff_eq_none] at hfree
            rw [Bool.not_eq_false] at hdir hallows
            exact ⟨front, name, place, rfl, hplace, hdir, hfree.1, hfree.2, hallows, rfl⟩

theorem create_error {node : Node} {err : OsError} (h : create allows path node tree = .error err grown) :
    grown = tree := by
  unfold create at h
  split at h
  next =>
    cases h
    rfl
  next =>
    split at h
    next =>
      cases h
      rfl
    next =>
      split at h
      next =>
        cases h
        rfl
      next =>
        split at h
        next =>
          cases h
          rfl
        next =>
          split at h
          next =>
            cases h
            rfl
          next => cases h

theorem lookup_concat {place other : Path} {node : Node} (hnone : tree.lookup place = none) :
    (tree ++ [(place, node)]).lookup other = if other = place then some node else tree.lookup other := by
  rw [lookup_append]
  split
  next heq =>
    subst heq
    rw [hnone]
    simp
  next hne =>
    have hown : (other == place) = false := by simpa using hne
    simp [lookup_cons, hown]

theorem WellFormed.concat (hwf : WellFormed tree) {place : Path} {name : Name} {node : Node}
    (hdir : isDirectory tree place = true) (hnone : tree.lookup (place ++ [name]) = none) (hname : isProper name = true) :
    WellFormed (tree ++ [(place ++ [name], node)]) := by
  have hkeeps : ∀ other, isDirectory tree other = true → isDirectory (tree ++ [(place ++ [name], node)]) other = true := by
    intro other hother
    rcases isDirectory_iff.mp hother with rfl | ⟨mode, hmode⟩
    · rfl
    · refine isDirectory_iff.mpr (Or.inr ⟨mode, ?_⟩)
      rw [lookup_concat hnone, if_neg ?_]
      · exact hmode
      · rintro rfl
        rw [hnone] at hmode
        cases hmode
  refine ⟨?_, ?_, ?_⟩
  · rw [map_append, List.nodup_append]
    refine ⟨hwf.places, nodup_singleton _, ?_⟩
    intro own hown other hother
    obtain ⟨entry, hentry, rfl⟩ := mem_map.mp hown
    rw [mem_singleton.mp hother]
    intro heq
    have hlookup := hwf.lookup_iff.mpr hentry
    rw [heq, hnone] at hlookup
    cases hlookup
  · intro entry hentry
    rcases mem_append.mp hentry with hentry | hentry
    · exact hwf.named entry hentry
    · rw [mem_singleton.mp hentry]
      refine ⟨by simp, ?_⟩
      intro part hpart
      rcases mem_append.mp hpart with hpart | hpart
      · exact hwf.proper hdir part hpart
      · rw [mem_singleton.mp hpart]
        exact hname
  · intro entry hentry
    rcases mem_append.mp hentry with hentry | hentry
    · exact hkeeps _ (hwf.parents entry hentry)
    · rw [mem_singleton.mp hentry]
      refine hkeeps _ ?_
      rw [dropLast_concat]
      exact hdir

theorem grows_concat (hwf : WellFormed tree) {place : Path} {name : Name} {node : Node} (hdir : isDirectory tree place = true)
    (hnone : tree.lookup (place ++ [name]) = none) (hname : isProper name = true) (hbelow : root <+: place) :
    Grows root tree (tree ++ [(place ++ [name], node)]) where
  wellFormed := hwf.concat hdir hnone hname
  stays := by
    intro other own hown
    refine ⟨own, ?_, .refl own⟩
    rw [lookup_concat hnone, if_neg ?_]
    · exact hown
    · rintro rfl
      rw [hnone] at hown
      cases hown
  fresh := by
    intro other own hown hfresh
    rw [lookup_concat hnone] at hown
    split at hown
    next heq =>
      rw [heq]
      refine ⟨hbelow.trans (prefix_append _ _), ?_⟩
      intro hsame
      have hlength := hbelow.length_le
      rw [← hsame, length_append, length_singleton] at hlength
      omega
    next =>
      rw [hfresh] at hown
      cases hown

theorem create_grows (more : Path) {node : Node} (hwf : WellFormed tree) (hroot : isDirectory tree root = true)
    (hproper : ∀ part ∈ more, isProper part = true) (hbelow : root <+: realpath tree (path ++ more))
    (h : create allows path node tree = .ok () grown) :
    Grows root tree grown ∧ (isLink node = false → NoNewLinks tree grown) := by
  obtain ⟨front, name, place, rfl, hresolve, hdir, hname, hnone, -, rfl⟩ := create_ok h
  rw [append_assoc, singleton_append, realpath_missing hwf hresolve hnone hname hproper] at hbelow
  refine ⟨grows_concat hwf hdir hnone hname (below_of_missing hwf hroot hnone hbelow), ?_⟩
  intro hplain other target hlink
  rw [lookup_concat hnone] at hlink
  split at hlink
  next =>
    cases hlink
    cases hplain
  next => exact hlink

end

end FileTree
