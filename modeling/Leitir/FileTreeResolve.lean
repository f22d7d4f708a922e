import Leitir.FileTree
import Mathlib.Data.List.Perm.Subperm
import Mathlib.Data.Nat.Find

namespace FileTree

open List

section

variable {tree : Tree}

def afterLink (tree : Tree) : Nat → Path → Path → Except OsError Path
  | 0 => fun _ _ => .error .loop
  | links + 1 => walk tree links

theorem walk_eq (links : Nat) : walk tree links = walkWith tree (afterLink tree links) := by
  cases links with
  | zero => rfl
  | succ links => rfl

theorem walk_nil (links : Nat) (place : Path) : walk tree links place [] = .ok place := by
  rw [walk_eq]
  rfl

/-- The steps of a walk that succeeds. -/
inductive Leads (tree : Tree) : Nat → Path → Path → Path → Prop
  | done {links : Nat} {place : Path} : Leads tree links place [] place
  | current {links : Nat} {place rest found : Path} {part : Name} (hdir : isDirectory tree place = true)
      (hcurrent : isCurrent part = true) (hrest : Leads tree links place rest found) :
      Leads tree links place (part :: rest) found
  | parent {links : Nat} {place rest found : Path} {part : Name} (hdir : isDirectory tree place = true)
      (hcurrent : isCurrent part = false) (hparent : isParent part = true)
      (hrest : Leads tree links place.dropLast rest found) : Leads tree links place (part :: rest) found
  | enter {links : Nat} {place rest found : Path} {part : Name} {node : Node} (hdir : isDirectory tree place = true)
      (hproper : isProper part = true) (hnode : tree.lookup (place ++ [part]) = some node) (hplain : isLink node = false)
      (hrest : Leads tree links (place ++ [part]) rest found) : Leads tree links place (part :: rest) found
  | follow {links : Nat} {place rest found : Path} {part target : Name} (hdir : isDirectory tree place = true)
      (hproper : isProper part = true) (hnode : tree.lookup (place ++ [part]) = some (.link target))
      (hrest : Leads tree links (start place target) (components target ++ rest) found) :
      Leads tree (links + 1) place (part :: rest) found

theorem proper_iff {part : Name} : isProper part = true ↔ isCurrent part = false ∧ isParent part = false := by
  unfold isProper
  simp

variable {links : Nat} {place path found : Path}

theorem leads_of_walk (h : walk tree links place path = .ok found) :
    Leads tree links place path found := by
  induction links using Nat.strong_induction_on generalizing place path with
  | _ links ihlinks =>
    induction path generalizing place with
    | nil =>
      rw [walk_nil] at h
      cases h
      exact .done
    | cons part rest ih =>
      rw [walk_eq, walkWith, ← walk_eq] at h
      split at h
      next => cases h
      next hdir =>
        rw [Bool.not_eq_false] at hdir
        split at h
        next hcurrent => exact .current hdir hcurrent (ih h)
        next hcurrent =>
          rw [Bool.not_eq_true] at hcurrent
          split at h
          next hparent => exact .parent hdir hcurrent hparent (ih h)
          next hparent =>
            rw [Bool.not_eq_true] at hparent
            have hproper := proper_iff.mpr ⟨hcurrent, hparent⟩
            cases hnode : tree.lookup (place ++ [part]) with
            | none =>
              rw [hnode] at h
              cases h
            | some node =>
              rw [hnode] at h
              cases node with
              | link target =>
                cases links with
                | zero => cases h
                | succ fewer => exact .follow hdir hproper hnode (ihlinks fewer (Nat.lt_succ_self _) h)
              | directory mode => exact .enter hdir hproper hnode rfl (ih h)
              | file mode data => exact .enter hdir hproper hnode rfl (ih h)

theorem Leads.walk (h : Leads tree links place path found) :
    walk tree links place path = .ok found := by
  induction h with
  | done => exact walk_nil _ _
  | current hdir hcurrent _ ih =>
    rw [walk_eq, walkWith, ← walk_eq, if_neg (by simp [hdir]), if_pos hcurrent]
    exact ih
  | parent hdir hcurrent hparent _ ih =>
    rw [walk_eq, walkWith, ← walk_eq, if_neg (by simp [hdir]), if_neg (by simp [hcurrent]), if_pos hparent]
    exact ih
  | @enter links place rest found part node hdir hproper hnode hplain _ ih =>
    obtain ⟨hcurrent, hparent⟩ := proper_iff.mp hproper
    rw [walk_eq, walkWith, ← walk_eq, if_neg (by simp [hdir]), if_neg (by simp [hcurrent]), if_neg (by simp [hparent]), hnode]
    cases node with
    | link target => cases hplain
    | directory mode => exact ih
    | file mode data => exact ih
  | @follow links place rest found part target hdir hproper hnode _ ih =>
    obtain ⟨hcurrent, hparent⟩ := proper_iff.mp hproper
    rw [walk_eq, walkWith, ← walk_eq, if_neg (by simp [hdir]), if_neg (by simp [hcurrent]), if_neg (by simp [hparent]), hnode]
    exact ih

theorem resolve_iff : resolve tree path = .ok found ↔ Leads tree maxLinks [] path found :=
  ⟨leads_of_walk, Leads.walk⟩

theorem Leads.mono {more : Nat} (h : Leads tree links place path found)
    (hle : links ≤ more) : Leads tree more place path found := by
  induction h generalizing more with
  | done => exact .done
  | current hdir hcurrent _ ih => exact .current hdir hcurrent (ih hle)
  | parent hdir hcurrent hparent _ ih => exact .parent hdir hcurrent hparent (ih hle)
  | enter hdir hproper hnode hplain _ ih => exact .enter hdir hproper hnode hplain (ih hle)
  | follow hdir hproper hnode _ ih =>
    cases more with
    | zero => exact absurd hle (Nat.not_succ_le_zero _)
    | succ more => exact .follow hdir hproper hnode (ih (Nat.le_of_succ_le_succ hle))

/-- A walk over two paths is one over the first and one over the second. -/
theorem Leads.split {first second : Path} (h : Leads tree links place (first ++ second) found) :
    ∃ middle, Leads tree links place first middle ∧ Leads tree links middle second found := by
  generalize hpath : first ++ second = path at h
  induction h generalizing first with
  | done =>
    obtain ⟨rfl, rfl⟩ := append_eq_nil_iff.mp hpath
    exact ⟨_, .done, .done⟩
  | current hdir hcurrent hrest ih =>
    cases first with
    | nil =>
      cases hpath
      exact ⟨_, .done, .current hdir hcurrent hrest⟩
    | cons part rest =>
      cases hpath
      obtain ⟨middle, hfirst, hsecond⟩ := ih rfl
      exact ⟨middle, .current hdir hcurrent hfirst, hsecond⟩
  | parent hdir hcurrent hparent hrest ih =>
    cases first with
    | nil =>
      cases hpath
      exact ⟨_, .done, .parent hdir hcurrent hparent hrest⟩
    | cons part rest =>
      cases hpath
      obtain ⟨middle, hfirst, hsecond⟩ := ih rfl
      exact ⟨middle, .parent hdir hcurrent hparent hfirst, hsecond⟩
  | enter hdir hproper hnode hplain hrest ih =>
    cases first with
    | nil =>
      cases hpath
      exact ⟨_, .done, .enter hdir hproper hnode hplain hrest⟩
    | cons part rest =>
      cases hpath
      obtain ⟨middle, hfirst, hsecond⟩ := ih rfl
      exact ⟨middle, .enter hdir hproper hnode hplain hfirst, hsecond⟩
  | @follow links place rest found part target hdir hproper hnode hrest ih =>
    cases first with
    | nil =>
      cases hpath
      exact ⟨_, .done, .follow hdir hproper hnode hrest⟩
    | cons part rest =>
      cases hpath
      obtain ⟨middle, hfirst, hsecond⟩ := ih (append_assoc _ _ _)
      exact ⟨middle, .follow hdir hproper hnode hfirst, hsecond.mono (Nat.le_succ _)⟩

theorem Leads.unique {more : Nat} {other : Path} (h : Leads tree links place path found)
    (hother : Leads tree more place path other) : found = other := by
  have hleft := (h.mono (Nat.le_max_left links more)).walk
  have hright := (hother.mono (Nat.le_max_right links more)).walk
  rw [hleft] at hright
  exact Except.ok.inj hright

end

section

variable {tree : Tree}

def withinLink (tree : Tree) : Nat → List Path → Path → Path → Path × Bool
  | 0 => fun _ place rest => (place ++ rest, false)
  | depth + 1 => real tree depth

theorem real_eq (depth : Nat) : real tree depth = realWith tree (withinLink tree depth) := by
  cases depth with
  | zero => rfl
  | succ depth => rfl

theorem real_nil (depth : Nat) (active : List Path) (place : Path) : real tree depth active place [] = (place, true) := by
  rw [real_eq]
  rfl

variable {depth : Nat} {active : List Path} {place rest found : Path} {part : Name}

theorem real_current (h : isCurrent part = true) :
    real tree depth active place (part :: rest) = real tree depth active place rest := by
  rw [real_eq, realWith, if_pos h]

theorem real_parent (hcurrent : isCurrent part = false)
    (h : isParent part = true) :
    real tree depth active place (part :: rest) = real tree depth active place.dropLast rest := by
  rw [real_eq, realWith, if_neg (by simp [hcurrent]), if_pos h]

theorem real_enter (hproper : isProper part = true)
    (h : ∀ node, tree.lookup (place ++ [part]) = some node → isLink node = false) :
    real tree depth active place (part :: rest) = real tree depth active (place ++ [part]) rest := by
  obtain ⟨hcurrent, hparent⟩ := proper_iff.mp hproper
  rw [real_eq, realWith, if_neg (by simp [hcurrent]), if_neg (by simp [hparent])]
  cases hnode : tree.lookup (place ++ [part]) with
  | none => rfl
  | some node =>
    cases node with
    | link target => cases h _ hnode
    | directory mode => rfl
    | file mode data => rfl

theorem real_follow {target : Name}
    (hproper : isProper part = true) (hnode : tree.lookup (place ++ [part]) = some (.link target))
    (hactive : place ++ [part] ∉ active)
    (h : real tree depth ((place ++ [part]) :: active) (start place target) (components target) = (found, true)) :
    real tree (depth + 1) active place (part :: rest) = real tree (depth + 1) active found rest := by
  obtain ⟨hcurrent, hparent⟩ := proper_iff.mp hproper
  rw [real, realWith, if_neg (by simp [hcurrent]), if_neg (by simp [hparent]), hnode]
  dsimp only
  rw [if_neg hactive, h]

def Unsettled (tree : Tree) (active : List Path) (links : Nat) : Prop :=
  ∀ link ∈ active, ∀ target, tree.lookup link = some (.link target) → ∀ fewer < links, ∀ found,
    ¬ Leads tree fewer (start link.dropLast target) (components target) found

theorem mem_linkPlaces {target : Name} (h : tree.lookup place = some (.link target)) :
    place ∈ linkPlaces tree := by
  unfold linkPlaces
  refine mem_map.mpr ⟨(place, .link target), mem_filter.mpr ⟨?_, rfl⟩, rfl⟩
  obtain ⟨before, after, hsplit, -⟩ := List.lookup_eq_some_iff.mp h
  rw [hsplit]
  simp

/-- Where the host arrives, the canonical form of the path is that place. -/
theorem Leads.real {links : Nat} {path : Path}
    (h : Leads tree links place path found) (hunsettled : Unsettled tree active links) (hnodup : active.Nodup)
    (hactive : ∀ link ∈ active, link ∈ linkPlaces tree) (hdepth : (linkPlaces tree).length + 1 ≤ depth + active.length) :
    real tree depth active place path = (found, true) := by
  induction links using Nat.strong_induction_on generalizing depth active place path found with
  | _ links ihlinks =>
    induction path generalizing place with
    | nil =>
      cases h
      exact real_nil _ _ _
    | cons part rest ih =>
      cases h with
      | current _ hcurrent hrest =>
        rw [real_current hcurrent]
        exact ih hrest
      | parent _ hcurrent hparent hrest =>
        rw [real_parent hcurrent hparent]
        exact ih hrest
      | @enter _ _ _ _ _ node _ hproper hnode hplain hrest =>
        rw [real_enter hproper]
        · exact ih hrest
        · intro other hother
          rw [hnode] at hother
          cases hother
          exact hplain
      | @follow fewer _ _ _ _ target _ hproper hnode hrest =>
        obtain ⟨middle, hfirst, hsecond⟩ := hrest.split
        have hdrop : (place ++ [part]).dropLast = place := by simp
        have hfresh : place ++ [part] ∉ active := by
          intro hmem
          have hnot := hunsettled _ hmem target hnode fewer (Nat.lt_succ_self _) middle
          rw [hdrop] at hnot
          exact hnot hfirst
        have hmember := mem_linkPlaces hnode
        have hlength : active.length + 1 ≤ (linkPlaces tree).length := by
          have hsub : (place ++ [part]) :: active ⊆ linkPlaces tree := cons_subset.mpr ⟨hmember, hactive⟩
          exact (subperm_of_subset (nodup_cons.mpr ⟨hfresh, hnodup⟩) hsub).length_le
        obtain ⟨depth, rfl⟩ : ∃ less, depth = less + 1 := ⟨depth - 1, by omega⟩
        -- the fewest links that lead to the end of the target
        classical
        have hexists : ∃ least, Leads tree least (start place target) (components target) middle := ⟨fewer, hfirst⟩
        have hleast := Nat.find_spec hexists
        have hle : Nat.find hexists ≤ fewer := Nat.find_min' hexists hfirst
        have hinner : FileTree.real tree depth ((place ++ [part]) :: active) (start place target) (components target) =
            (middle, true) := by
          refine ihlinks (Nat.find hexists) (by omega) hleast ?_ (nodup_cons.mpr ⟨hfresh, hnodup⟩) ?_ ?_
          · intro link hlink other hother less hless arrived harrived
            rcases mem_cons.mp hlink with rfl | hlink
            · rw [hnode] at hother
              cases hother
              rw [hdrop] at harrived
              have hsame : arrived = middle := harrived.unique hfirst
              subst hsame
              exact Nat.find_min hexists hless harrived
            · exact hunsettled link hlink other hother less (by omega) arrived harrived
          · exact forall_mem_cons.mpr ⟨hmember, hactive⟩
          · rw [length_cons]
            omega
        rw [real_follow hproper hnode hfresh hinner]
        exact ih (hsecond.mono (Nat.le_succ _))

theorem realpath_of_leads {links : Nat} {path : Path} (h : Leads tree links [] path found) :
    realpath tree path = found := by
  have hreal : real tree ((linkPlaces tree).length + 1) [] [] path = (found, true) :=
    h.real (by simp [Unsettled]) nodup_nil (by simp) (by simp)
  unfold realpath
  rw [hreal]

theorem real_append {first second middle : Path}
    (h : real tree depth active place first = (middle, true)) :
    real tree depth active place (first ++ second) = real tree depth active middle second := by
  induction first generalizing place with
  | nil =>
    rw [real_nil] at h
    cases h
    rfl
  | cons part rest ih =>
    rw [real_eq, realWith] at h
    rw [cons_append, real_eq, realWith, ← real_eq]
    rw [← real_eq] at h
    split at h
    next hcurrent =>
      rw [if_pos hcurrent]
      exact ih h
    next hcurrent =>
      rw [if_neg hcurrent]
      split at h
      next hparent =>
        rw [if_pos hparent]
        exact ih h
      next hparent =>
        rw [if_neg hparent]
        split at h
        next target _ =>
          split at h
          next => cases h
          next hactive =>
            rw [if_neg hactive]
            split at h
            next inner hinner => exact ih h
            next => cases h
        next => exact ih h

end

end FileTree
