import Leitir.FileTreeFilled

namespace FileTree

open List

section

variable {tree : Tree} {destination root place q : Path}

/-- Where a path leads, what follows it goes on from there. -/
theorem walk_of_leads {links : Nat} {first middle : Path} (h : Leads tree links place first middle) :
    ∃ left, ∀ rest, walk tree links place (first ++ rest) = walk tree left middle rest := by
  induction h with
  | @done links place => exact ⟨links, fun rest => rfl⟩
  | current hdir hcurrent _ ih =>
    obtain ⟨left, hleft⟩ := ih
    refine ⟨left, fun rest => ?_⟩
    rw [cons_append, walk_eq, walkWith, ← walk_eq, if_neg (by simp [hdir]), if_pos hcurrent]
    exact hleft rest
  | parent hdir hcurrent hparent _ ih =>
    obtain ⟨left, hleft⟩ := ih
    refine ⟨left, fun rest => ?_⟩
    rw [cons_append, walk_eq, walkWith, ← walk_eq, if_neg (by simp [hdir]), if_neg (by simp [hcurrent]), if_pos hparent]
    exact hleft rest
  | @enter links place _ _ part node hdir hproper hnode hplain _ ih =>
    obtain ⟨left, hleft⟩ := ih
    obtain ⟨hcurrent, hparent⟩ := proper_iff.mp hproper
    refine ⟨left, fun rest => ?_⟩
    rw [cons_append, walk_eq, walkWith, ← walk_eq, if_neg (by simp [hdir]), if_neg (by simp [hcurrent]),
      if_neg (by simp [hparent]), hnode]
    cases node with
    | link target => cases hplain
    | directory mode => exact hleft rest
    | file mode data => exact hleft rest
  | follow hdir hproper hnode _ ih =>
    obtain ⟨left, hleft⟩ := ih
    obtain ⟨hcurrent, hparent⟩ := proper_iff.mp hproper
    refine ⟨left, fun rest => ?_⟩
    rw [cons_append, walk, walkWith, if_neg (by simp [hdir]), if_neg (by simp [hcurrent]), if_neg (by simp [hparent]),
      hnode]
    dsimp only
    rw [← append_assoc]
    exact hleft rest

variable {node : Node}

theorem WellFormed.leads_plain (hwf : WellFormed tree) {rest : Path}
    (h : tree.lookup (place ++ rest) = some node) (hplain : isLink node = false) (links : Nat) :
    Leads tree links place rest (place ++ rest) := by
  induction rest generalizing place with
  | nil =>
    rw [append_nil]
    exact .done
  | cons part rest ih =>
    have hsplit : place ++ part :: rest = (place ++ [part]) ++ rest := by simp
    rw [hsplit] at h ⊢
    have hdir : isDirectory tree place = true := hwf.above (by simp) (hsplit ▸ h)
    have hproper : isProper part = true := (hwf.named _ (mem_of_lookup h)).2 part (by simp)
    by_cases hrest : rest = []
    · subst hrest
      rw [append_nil] at h ⊢
      exact .enter hdir hproper h hplain .done
    · rcases isDirectory_iff.mp (hwf.above hrest h) with hnil | ⟨mode, hmode⟩
      · simp at hnil
      · exact .enter hdir hproper hmode rfl (ih h)

theorem resolve_append (hresolve : resolve tree destination = .ok root) :
    ∃ left, ∀ rest, resolve tree (destination ++ rest) = walk tree left root rest :=
  walk_of_leads (resolve_iff.mp hresolve)

theorem resolve_plain (hwf : WellFormed tree) (hresolve : resolve tree destination = .ok root)
    (h : tree.lookup (root ++ q) = some node) (hplain : isLink node = false) :
    resolve tree (destination ++ q) = .ok (root ++ q) := by
  obtain ⟨left, hleft⟩ := resolve_append hresolve
  rw [hleft]
  exact (hwf.leads_plain h hplain left).walk

theorem resolve_directory (hwf : WellFormed tree) (hresolve : resolve tree destination = .ok root)
    (h : isDirectory tree (root ++ q) = true) : resolve tree (destination ++ q) = .ok (root ++ q) := by
  obtain ⟨left, hleft⟩ := resolve_append hresolve
  rw [hleft]
  exact (hwf.leads h left).walk

def Clear (tree : Tree) (root q : Path) : Prop :=
  ∀ front, front <+: q → tree.lookup (root ++ front) = none ∨ isDirectory tree (root ++ front) = true

theorem Clear.of_front {front : Path} (h : Clear tree root q) (hfront : front <+: q) : Clear tree root front :=
  fun other hother => h other (hother.trans hfront)

theorem Clear.split (h : Clear tree root q) (hroot : isDirectory tree root = true) (hne : q ≠ [])
    (hnone : tree.lookup (root ++ q) = none) :
    ∃ front name more, q = front ++ name :: more ∧ isDirectory tree (root ++ front) = true ∧
      tree.lookup (root ++ front ++ [name]) = none := by
  induction q using List.reverseRecOn with
  | nil => exact absurd rfl hne
  | append_singleton front name ih =>
    rcases h front (prefix_append _ _) with hmissing | hdir
    · by_cases hfront : front = []
      · subst hfront
        exact ⟨[], name, [], rfl, by simpa using hroot, by simpa using hnone⟩
      · obtain ⟨before, part, more, rfl, hbefore, hpart⟩ := ih (h.of_front (prefix_append _ _)) hfront hmissing
        exact ⟨before, part, more ++ [name], by simp, hbefore, hpart⟩
    · exact ⟨front, name, [], rfl, hdir, by simpa using hnone⟩

theorem resolve_missing (hwf : WellFormed tree) (hresolve : resolve tree destination = .ok root)
    (hroot : isDirectory tree root = true) (h : Clear tree root q) (hproper : ∀ part ∈ q, isProper part = true) (hne : q ≠ [])
    (hnone : tree.lookup (root ++ q) = none) : resolve tree (destination ++ q) = .error .missing := by
  obtain ⟨front, name, more, rfl, hdir, hname⟩ := h.split hroot hne hnone
  have hfront := resolve_directory hwf hresolve hdir
  obtain ⟨left, hleft⟩ := resolve_append hfront
  obtain ⟨hcurrent, hparent⟩ := proper_iff.mp (hproper name (by simp))
  rw [← append_assoc, hleft, walk_eq, walkWith, if_neg (by simp [hdir]), if_neg (by simp [hcurrent]),
    if_neg (by simp [hparent]), hname]

theorem realpath_clear (hwf : WellFormed tree) (hresolve : resolve tree destination = .ok root)
    (hroot : isDirectory tree root = true) (h : Clear tree root q) (hproper : ∀ part ∈ q, isProper part = true) (hne : q ≠ [])
    (hnone : tree.lookup (root ++ q) = none) : realpath tree (destination ++ q) = root ++ q := by
  obtain ⟨front, name, more, rfl, hdir, hname⟩ := h.split hroot hne hnone
  have hfront := resolve_directory hwf hresolve hdir
  rw [← append_assoc, ← append_assoc]
  exact realpath_missing hwf hfront hname (hproper name (by simp)) fun part hpart => hproper part (by simp [hpart])

theorem realpath_plain (hwf : WellFormed tree) (hresolve : resolve tree destination = .ok root)
    (h : tree.lookup (root ++ q) = some node) (hplain : isLink node = false) : realpath tree (destination ++ q) = root ++ q :=
  realpath_of_leads (resolve_iff.mp (resolve_plain hwf hresolve h hplain))

end

section

variable {allows : Tree → Path → Bool} {tree made : Tree} {destination root q : Path}

variable {front : Path} {name : Name}

theorem create_at (allows : Tree → Path → Bool) {place : Path} (node : Node) (hresolve : resolve tree front = .ok place)
    (hdir : isDirectory tree place = true) (hproper : isProper name = true) (hnone : tree.lookup (place ++ [name]) = none) :
    create allows (front ++ [name]) node tree =
      if allows tree place = true then .ok () (tree ++ [(place ++ [name], node)]) else .error .denied tree := by
  unfold create
  rw [getLast?_concat, dropLast_concat]
  dsimp only
  rw [hresolve]
  dsimp only
  rw [if_neg (by simp [hdir]), if_neg (by simp [hproper, hnone])]
  cases hallows : allows tree place with
  | true => simp
  | false => simp

theorem create_missing {node : Node} (hresolve : resolve tree front = .error .missing) :
    create allows (front ++ [name]) node tree = .error .missing tree := by
  unfold create
  rw [getLast?_concat, dropLast_concat]
  dsimp only
  rw [hresolve]

/-- The directories that a path names are there, and nothing else is new. -/
structure Makes (root q : Path) (tree made : Tree) : Prop where
  wellFormed : WellFormed made
  named : ∀ front, front ≠ [] → front <+: q → tree.lookup (root ++ front) = none →
    made.lookup (root ++ front) = some newDirectory
  kept : ∀ place node, tree.lookup place = some node → made.lookup place = some node
  others : ∀ place, (∀ front, front ≠ [] → front <+: q → place ≠ root ++ front) → made.lookup place = tree.lookup place

theorem Makes.refl (hwf : WellFormed tree) (h : ∀ front, front ≠ [] → front <+: q → tree.lookup (root ++ front) ≠ none) :
    Makes root q tree tree where
  wellFormed := hwf
  named := fun front hne hfront hnone => absurd hnone (h front hne hfront)
  kept := fun _ _ hnode => hnode
  others := fun _ _ => rfl

theorem Makes.grows (h : Makes root q tree made) : Grows root tree made where
  wellFormed := h.wellFormed
  stays := fun place node hnode => ⟨node, h.kept place node hnode, .refl node⟩
  fresh := by
    intro place node hnode hnone
    by_contra hnot
    have hother : ∀ front, front ≠ [] → front <+: q → place ≠ root ++ front := by
      rintro front hne - rfl
      exact hnot ⟨prefix_append _ _, by simpa using hne⟩
    rw [h.others place hother, hnone] at hnode
    cases hnode

/-- One more directory below one that is there. -/
theorem Makes.concat (h : Makes root front tree made)
    (hdir : isDirectory made (root ++ front) = true) (hproper : isProper name = true)
    (hnone : tree.lookup (root ++ (front ++ [name])) = none) :
    made.lookup (root ++ front ++ [name]) = none ∧
      Makes root (front ++ [name]) tree (made ++ [(root ++ front ++ [name], newDirectory)]) := by
  have hfree : made.lookup (root ++ front ++ [name]) = none := by
    rw [h.others, append_assoc]
    · exact hnone
    · intro other _ hother heq
      rw [append_assoc] at heq
      have hlength := hother.length_le
      rw [← append_cancel_left heq, length_append, length_singleton] at hlength
      omega
  refine ⟨hfree, h.wellFormed.concat hdir hfree hproper, ?_, ?_, ?_⟩
  · intro other hne hother hmissing
    rw [lookup_concat hfree]
    split
    next => rfl
    next hnot =>
      rcases prefix_concat_iff.mp hother with rfl | hshort
      · exact absurd (append_assoc _ _ _).symm hnot
      · exact h.named other hne hshort hmissing
  · intro place node hnode
    have hmade := h.kept place node hnode
    rw [lookup_concat hfree, if_neg ?_]
    · exact hmade
    · rintro rfl
      rw [hfree] at hmade
      cases hmade
  · intro place hplace
    rw [lookup_concat hfree, if_neg ?_]
    · exact h.others place fun other hne hother => hplace other hne (hother.trans (prefix_append _ _))
    · rw [append_assoc]
      exact hplace (front ++ [name]) (by simp) prefix_rfl

theorem makeDirectories_makes (allows : Tree → Path → Bool) (q : Path) (hwf : WellFormed tree) (hresolve : resolve tree destination = .ok root)
    (hroot : isDirectory tree root = true) (hclear : Clear tree root q) (hproper : ∀ part ∈ q, isProper part = true)
    (hallows : ∀ front name, front ++ [name] <+: q → isDirectory tree (root ++ front) = true →
      tree.lookup (root ++ (front ++ [name])) = none → allows tree (root ++ front) = true)
    (hnew : ∀ now place, now.lookup place = some newDirectory → allows now place = true) :
    ∃ made, makeDirectories allows (q.reverse ++ destination.reverse) tree = .ok () made ∧ Makes root q tree made := by
  induction q using List.reverseRecOn with
  | nil =>
    refine ⟨tree, makeDirectories_there (isDir_iff.mpr ⟨root, hresolve, hroot⟩), .refl hwf ?_⟩
    intro front hne hfront
    exact absurd (prefix_nil.mp hfront) hne
  | append_singleton front name ih =>
    have hreverse : (front ++ [name]).reverse ++ destination.reverse = name :: (front.reverse ++ destination.reverse) := by simp
    have hback : (name :: (front.reverse ++ destination.reverse)).reverse = destination ++ front ++ [name] := by simp
    have hname : isProper name = true := hproper name (by simp)
    rcases hclear (front ++ [name]) prefix_rfl with hnone | hdir
    · by_cases hparent : isDirectory tree (root ++ front) = true
      · have hfront := resolve_directory hwf hresolve hparent
        have hstill : Makes root front tree tree := by
          refine .refl hwf fun other hne hother hmissing => ?_
          obtain ⟨rest, rfl⟩ := hother
          rw [← append_assoc] at hparent
          rcases isDirectory_iff.mp (hwf.above_directory hparent) with hnil | ⟨mode, hmode⟩
          · exact hne (append_eq_nil_iff.mp hnil).2
          · rw [hmissing] at hmode
            cases hmode
        obtain ⟨hfree, hmakes⟩ := hstill.concat hparent hname hnone
        have hcreate := create_at allows newDirectory hfront hparent hname hfree
        rw [if_pos (hallows front name prefix_rfl hparent hnone)] at hcreate
        refine ⟨_, ?_, hmakes⟩
        rw [hreverse, makeDirectories, hback]
        simp only [hcreate]
      · have hmissing : tree.lookup (root ++ front) = none := by
          rcases hclear front (prefix_append _ _) with h | h
          · exact h
          · exact absurd h hparent
        have hne : front ≠ [] := by
          rintro rfl
          rw [append_nil] at hparent
          exact hparent hroot
        have hfrontProper : ∀ part ∈ front, isProper part = true := fun part hpart => hproper part (by simp [hpart])
        have hclearFront := hclear.of_front (prefix_append front [name])
        obtain ⟨made, hrun, hmakes⟩ := ih hclearFront hfrontProper
          fun other part hother => hallows other part (hother.trans (prefix_append _ _))
        have hnewFront := hmakes.named front hne prefix_rfl hmissing
        have hmadeDir : isDirectory made (root ++ front) = true := isDirectory_iff.mpr (Or.inr ⟨_, hnewFront⟩)
        obtain ⟨hfree, hlast⟩ := hmakes.concat hmadeDir hname hnone
        have hmadeResolve := resolve_directory hmakes.wellFormed (hmakes.grows.resolve hresolve) hmadeDir
        have hcreate := create_at allows newDirectory hmadeResolve hmadeDir hname hfree
        rw [if_pos (hnew made _ hnewFront)] at hcreate
        refine ⟨_, ?_, hlast⟩
        rw [hreverse, makeDirectories, hback]
        simp only [create_missing (resolve_missing hwf hresolve hroot hclearFront hfrontProper hne hmissing), hrun,
          makeDirectory, hcreate]
    · have hdirectory : isDir tree (destination ++ (front ++ [name])) = true :=
        isDir_iff.mpr ⟨_, resolve_directory hwf hresolve hdir, hdir⟩
      refine ⟨tree, ?_, .refl hwf ?_⟩
      · rw [← reverse_append]
        exact makeDirectories_there hdirectory
      · intro other hne hother hmissing
        obtain ⟨rest, hrest⟩ := hother
        rw [← hrest, ← append_assoc] at hdir
        rcases isDirectory_iff.mp (hwf.above_directory hdir) with hnil | ⟨mode, hmode⟩
        · exact hne (append_eq_nil_iff.mp hnil).2
        · rw [hmissing] at hmode
          cases hmode

/-- A directory below one that is there is made only where the host allows it. -/
theorem makeDirectories_allowed (hwf : WellFormed tree)
    (hresolve : resolve tree destination = .ok root) (hdir : isDirectory tree (root ++ front) = true)
    (hproper : isProper name = true) (hnone : tree.lookup (root ++ front ++ [name]) = none)
    (h : makeDirectories allows ((front ++ [name]).reverse ++ destination.reverse) tree = .ok () made) :
    allows tree (root ++ front) = true := by
  have hreverse : (front ++ [name]).reverse ++ destination.reverse = name :: (front.reverse ++ destination.reverse) := by simp
  have hback : (name :: (front.reverse ++ destination.reverse)).reverse = destination ++ front ++ [name] := by simp
  by_contra hdenied
  have hfront := resolve_directory hwf hresolve hdir
  have hcreate := create_at allows newDirectory hfront hdir hproper hnone
  rw [if_neg hdenied] at hcreate
  obtain ⟨left, hleft⟩ := resolve_append hfront
  obtain ⟨hcurrent, hparent⟩ := proper_iff.mp hproper
  have hmissing : resolve tree (destination ++ front ++ [name]) = .error .missing := by
    rw [hleft, walk_eq, walkWith, if_neg (by simp [hdir]), if_neg (by simp [hcurrent]), if_neg (by simp [hparent]), hnone]
  have hnot : isDir tree (destination ++ front ++ [name]) = false := by
    unfold isDir
    rw [hmissing]
  rw [hreverse, makeDirectories, hback] at h
  simp only [hcreate, hnot] at h
  cases h

theorem change_plain (update : Node → Node) (hwf : WellFormed tree) (hresolve : resolve tree destination = .ok root) {node : Node}
    (h : tree.lookup (root ++ q) = some node) (hplain : isLink node = false) :
    change (destination ++ q) update tree = .ok () (replace tree (root ++ q) (update node)) := by
  unfold change
  rw [resolve_plain hwf hresolve h hplain]
  dsimp only
  rw [h]

end

end FileTree
