import Leitir.ArchiveListed
import Leitir.Snapshot
import Mathlib.Algebra.Order.BigOperators.Group.List

namespace Leitir.Snapshot

open List ExceptRun

open FileTree (Node Tree isLink)
open Archive (Name Path Member Planned PlannedMember Planning parts planNext planMembers Carries symlinkDestination)
open Shelf (asPosix)

section

def Plain (part : Name) : Prop := FileTree.isProper part = true ∧ '/' ∉ part

variable {path : Path}

theorem Plain.ne_nil {part : Name} (h : Plain part) : part ≠ [] := by
  rintro rfl
  exact absurd h.1 (by decide)

theorem asPosix_cons (part next : Name) (rest : Path) : asPosix (part :: next :: rest) = part ++ '/' :: asPosix (next :: rest) := by
  simp [asPosix]

theorem head_posix (hne : path ≠ []) (h : ∀ part ∈ path, Plain part) : asPosix path ≠ [] ∧ (asPosix path).head? ≠ some '/' := by
  obtain ⟨part, rest, rfl⟩ := exists_cons_of_ne_nil hne
  obtain ⟨ch, tail, rfl⟩ := exists_cons_of_ne_nil (h part mem_cons_self).ne_nil
  have hch : ch ≠ '/' := fun heq => (h _ mem_cons_self).2 (heq ▸ mem_cons_self)
  cases rest with
  | nil => simpa [asPosix] using hch
  | cons next rest =>
    rw [asPosix_cons]
    simpa using hch

theorem parts_posix (hne : path ≠ []) (h : ∀ part ∈ path, Plain part) : parts (asPosix path) = path := by
  have hsplit : (asPosix path).splitOn '/' = path := splitOn_intercalate '/' (fun part hpart => (h part hpart).2) hne
  have hfilter : (path.filter fun part => decide ¬ Archive.isCurrent part = true) = path := by
    rw [filter_eq_self]
    intro part hpart
    have hcurrent : Archive.isCurrent part = false := (FileTree.proper_iff.mp (h part hpart).1).1
    simp [hcurrent]
  obtain ⟨-, hhead⟩ := head_posix hne h
  unfold parts
  rw [hsplit, hfilter]
  split
  next heq => simp [heq] at hhead
  next heq => simp [heq] at hhead
  next heq => simp [heq] at hhead
  next => rfl

theorem posix_injective {other : Path} (hne : path ≠ []) (h : ∀ part ∈ path, Plain part) (hne' : other ≠ [])
    (h' : ∀ part ∈ other, Plain part) (heq : asPosix path = asPosix other) : path = other := by
  rw [← parts_posix hne h, heq, parts_posix hne' h']

theorem archivePath_posix (hne : path ≠ []) (h : ∀ part ∈ path, Plain part) :
    Archive.archivePath (asPosix path) =
      if '\\' ∈ asPosix path then .error "invalid archive member path" else .ok path := by
  obtain ⟨hnil, hhead⟩ := head_posix hne h
  have hparents : path.any Archive.isParent = false := by
    rw [any_eq_false]
    intro part hpart
    have hparent : Archive.isParent part = false := (FileTree.proper_iff.mp (h part hpart).1).2
    simp [hparent]
  unfold Archive.archivePath
  rw [parts_posix hne h]
  by_cases hslash : '\\' ∈ asPosix path
  · rw [if_pos (Or.inr hslash), if_pos hslash]
  · rw [if_neg (by simp [hnil, hslash]), if_neg (by simp [hhead, hparents]), if_neg hne, if_neg hslash]

theorem plain_archiveRoot : Plain archiveRoot := by
  unfold Plain
  decide

theorem memberName_eq (hne : path ≠ []) : memberName path = asPosix (archiveRoot :: path) := by
  obtain ⟨part, rest, rfl⟩ := exists_cons_of_ne_nil hne
  rw [asPosix_cons]
  rfl

theorem strippedMemberPath_node (hne : path ≠ []) (h : ∀ part ∈ path, Plain part) :
    Archive.strippedMemberPath (memberName path) archiveRoot =
      if '\\' ∈ asPosix path then .error "invalid archive member path" else .ok (some path) := by
  have hslash : '\\' ∈ asPosix (archiveRoot :: path) ↔ '\\' ∈ asPosix path := by
    obtain ⟨part, rest, rfl⟩ := exists_cons_of_ne_nil hne
    rw [asPosix_cons, mem_append, mem_cons]
    have hroot : '\\' ∉ archiveRoot := by decide
    simp [hroot]
  unfold Archive.strippedMemberPath
  rw [memberName_eq hne, archivePath_posix (by simp) (forall_mem_cons.mpr ⟨plain_archiveRoot, h⟩)]
  by_cases hmem : '\\' ∈ asPosix path
  · rw [if_pos (hslash.mpr hmem), if_pos hmem]
    rfl
  · rw [if_neg (fun hin => hmem (hslash.mp hin)), if_neg hmem]
    rw [bind_eq rfl, if_neg (by simp)]
    simp only [tail_cons, hne, if_false]
    rfl

end

section

variable {planning next : Planning} {path : Path} {node : Node}

def Room (planning : Planning) (size : Int) : Prop :=
  planning.planned.length < Archive.archiveMaxMembers ∧ 0 ≤ size ∧ size ≤ Archive.archiveMaxMemberBytes ∧
    planning.totalSize + size ≤ Archive.archiveMaxTotalBytes

/-- A node that is planned: its name is one, its path is new, and its target, where it is a link, stays below the top. -/
structure Plannable (seen : List Path) (path : Path) (node : Node) : Prop where
  slashes : '\\' ∉ asPosix path
  fresh : path ∉ seen
  target : ∀ target, node = .link target → symlinkDestination path target = .ok ()

structure PlanStep (planning next : Planning) (path : Path) (node : Node) : Prop where
  root : next.expectedRoot = some archiveRoot
  seen : next.seen = planning.seen ++ [path]
  total : next.totalSize = planning.totalSize + (tarInfo path node).size
  planned : ∃ item, next.planned = planning.planned ++ [item] ∧ item.member = tarInfo path node ∧ item.path = some path

theorem size_tarInfo (path : Path) (node : Node) : 0 ≤ (tarInfo path node).size := by
  cases node with
  | directory mode => exact le_refl _
  | file mode data => exact Int.natCast_nonneg _
  | link target => exact le_refl _

theorem name_tarInfo : (tarInfo path node).name = memberName path := by
  cases node with
  | directory mode => rfl
  | file mode data => rfl
  | link target => rfl

theorem planMember_node (root : Name) :
    (∃ item, Archive.planMember (tarInfo path node) (some path) root = .ok item) ↔
      ∀ target, node = .link target → symlinkDestination path target = .ok () := by
  unfold Archive.planMember
  cases node with
  | directory mode =>
    refine ⟨fun _ target h => (by cases h), fun _ => ?_⟩
    rw [if_neg (by simp [tarInfo]), dif_neg (by simp [tarInfo]), if_neg (by simp [tarInfo])]
    exact ⟨_, rfl⟩
  | file mode data =>
    refine ⟨fun _ target h => (by cases h), fun _ => ?_⟩
    rw [if_neg (by simp [tarInfo]), dif_neg (by simp [tarInfo]), if_neg (by simp [tarInfo])]
    exact ⟨_, rfl⟩
  | link target =>
    rw [if_neg (by simp [tarInfo]), dif_pos (by simp [tarInfo])]
    dsimp only
    split
    next message hdestination =>
      refine ⟨fun ⟨item, h⟩ => (by cases h), fun h => ?_⟩
      have hown := h target rfl
      change symlinkDestination path target = _ at hdestination
      rw [hown] at hdestination
      cases hdestination
    next hdestination =>
      refine ⟨fun _ own hown => ?_, fun _ => ⟨_, rfl⟩⟩
      cases hown
      exact hdestination

theorem planNext_node (node : Node) (hroot : planning.expectedRoot = some archiveRoot) (hroom : Room planning (tarInfo path node).size)
    (hne : path ≠ []) (hplain : ∀ part ∈ path, Plain part) (hreserved : path ≠ [Archive.manifestName]) :
    ((∃ next, planNext planning (tarInfo path node) = .ok next) ↔ Plannable planning.seen path node) ∧
      ∀ next, planNext planning (tarInfo path node) = .ok next → PlanStep planning next path node := by
  obtain ⟨hcount, hsize, hmember, htotal⟩ := hroom
  have hstripped := strippedMemberPath_node hne hplain
  have hplanningRoot : planning.root (tarInfo path node).name = .ok archiveRoot := by
    unfold Planning.root
    rw [hroot]
  have hrun : planNext planning (tarInfo path node) = (do
      let own ← Archive.strippedMemberPath (memberName path) archiveRoot
      let _ ← Archive.checkPath planning (tarInfo path node) own
      let item ← Archive.planMember (tarInfo path node) own archiveRoot
      pure { expectedRoot := some archiveRoot
             planned := planning.planned ++ [item]
             seen := planning.seen ++ own.toList
             totalSize := planning.totalSize + (tarInfo path node).size }) := by
    unfold planNext
    rw [if_neg (by omega), if_neg (by omega), if_neg (by omega), bind_eq hplanningRoot, name_tarInfo]
  rw [hrun, hstripped]
  by_cases hslash : '\\' ∈ asPosix path
  · rw [if_pos hslash]
    refine ⟨⟨fun ⟨_, h⟩ => (by cases h), fun h => absurd hslash h.slashes⟩, fun next h => (by cases h)⟩
  · rw [if_neg hslash, bind_eq rfl]
    have hcheck : Archive.checkPath planning (tarInfo path node) (some path) =
        if path ∈ planning.seen then .error "archive contains duplicate member paths" else .ok () := by
      unfold Archive.checkPath
      dsimp only
      rw [if_neg hreserved]
    rw [hcheck]
    by_cases hseen : path ∈ planning.seen
    · rw [if_pos hseen]
      refine ⟨⟨fun ⟨_, h⟩ => (by cases h), fun h => absurd hseen h.fresh⟩, fun next h => (by cases h)⟩
    · rw [if_neg hseen, bind_eq rfl]
      constructor
      · constructor
        · rintro ⟨next, hnext⟩
          obtain ⟨item, hitem, -⟩ := bind_ok hnext
          exact ⟨hslash, hseen, (planMember_node archiveRoot).mp ⟨item, hitem⟩⟩
        · intro h
          obtain ⟨item, hitem⟩ := (planMember_node archiveRoot).mpr h.target
          rw [bind_eq hitem]
          exact ⟨_, rfl⟩
      · intro next hnext
        obtain ⟨item, hitem, hlast⟩ := bind_ok hnext
        cases hlast
        obtain ⟨hmemberEq, hpathEq⟩ := Archive.planMember_ok hitem
        exact ⟨rfl, rfl, rfl, item, rfl, hmemberEq, hpathEq⟩

end

section

variable {planning : Planning} {nodes : List (Path × Node)}

def PlannableAll : List Path → List (Path × Node) → Prop
  | _, [] => True
  | seen, item :: rest => Plannable seen item.1 item.2 ∧ PlannableAll (seen ++ [item.1]) rest

def totalSize (nodes : List (Path × Node)) : Int := (nodes.map fun item => (tarInfo item.1 item.2).size).sum

theorem totalSize_nonneg (nodes : List (Path × Node)) : 0 ≤ totalSize nodes := by
  refine sum_nonneg fun size hsize => ?_
  obtain ⟨item, -, rfl⟩ := mem_map.mp hsize
  exact size_tarInfo _ _

structure RoomAll (planning : Planning) (nodes : List (Path × Node)) : Prop where
  count : planning.planned.length + nodes.length ≤ Archive.archiveMaxMembers
  each : ∀ item ∈ nodes, (tarInfo item.1 item.2).size ≤ Archive.archiveMaxMemberBytes
  total : planning.totalSize + totalSize nodes ≤ Archive.archiveMaxTotalBytes

def Named (nodes : List (Path × Node)) : Prop :=
  ∀ item ∈ nodes, item.1 ≠ [] ∧ (∀ part ∈ item.1, Plain part) ∧ item.1 ≠ [Archive.manifestName]

def IsItem (item : PlannedMember) (entry : Path × Node) : Prop :=
  item.member = tarInfo entry.1 entry.2 ∧ item.path = some entry.1

theorem foldlM_planNext_nodes (hroot : planning.expectedRoot = some archiveRoot) (hroom : RoomAll planning nodes)
    (hnamed : Named nodes) :
    ((∃ last, (nodes.map fun item => tarInfo item.1 item.2).foldlM planNext planning = .ok last) ↔
      PlannableAll planning.seen nodes) ∧
    ∀ last, (nodes.map fun item => tarInfo item.1 item.2).foldlM planNext planning = .ok last →
      last.expectedRoot = some archiveRoot ∧
        ∃ items, last.planned = planning.planned ++ items ∧ List.Forall₂ IsItem items nodes := by
  induction nodes generalizing planning with
  | nil =>
    refine ⟨⟨fun _ => trivial, fun _ => ⟨planning, rfl⟩⟩, fun last hlast => ?_⟩
    cases hlast
    exact ⟨hroot, [], by simp, .nil⟩
  | cons item rest ih =>
    obtain ⟨hitem, hrest⟩ := forall_mem_cons.mp hnamed
    obtain ⟨hsizeItem, hsizeRest⟩ := forall_mem_cons.mp hroom.each
    have hcount := hroom.count
    have htotal := hroom.total
    have hsum : totalSize (item :: rest) = (tarInfo item.1 item.2).size + totalSize rest := rfl
    have hrestSize := totalSize_nonneg rest
    have hitemSize := size_tarInfo item.1 item.2
    rw [length_cons] at hcount
    have hstep := planNext_node item.2 hroot ⟨by omega, hitemSize, hsizeItem, by omega⟩ hitem.1
      hitem.2.1 hitem.2.2
    rw [map_cons, foldlM_cons]
    have hafter : ∀ next, PlanStep planning next item.1 item.2 → RoomAll next rest := by
      intro next h
      obtain ⟨own, hown, -⟩ := h.planned
      refine ⟨?_, hsizeRest, ?_⟩
      · rw [hown, length_append, length_singleton]
        omega
      · rw [h.total]
        omega
    constructor
    · constructor
      · rintro ⟨last, hlast⟩
        obtain ⟨next, hnext, hmore⟩ := bind_ok hlast
        have hplan := hstep.2 next hnext
        have hothers := (ih hplan.root (hafter next hplan) hrest).1.mp ⟨last, hmore⟩
        rw [hplan.seen] at hothers
        exact ⟨hstep.1.mp ⟨next, hnext⟩, hothers⟩
      · rintro ⟨hfirst, hothers⟩
        obtain ⟨next, hnext⟩ := hstep.1.mpr hfirst
        have hplan := hstep.2 next hnext
        rw [← hplan.seen] at hothers
        obtain ⟨last, hlast⟩ := (ih hplan.root (hafter next hplan) hrest).1.mpr hothers
        exact ⟨last, by rw [bind_eq hnext]; exact hlast⟩
    · intro last hlast
      obtain ⟨next, hnext, hmore⟩ := bind_ok hlast
      have hplan := hstep.2 next hnext
      obtain ⟨hlastRoot, items, hitems, hall⟩ := (ih hplan.root (hafter next hplan) hrest).2 last hmore
      obtain ⟨own, hown, hmember, hpath⟩ := hplan.planned
      exact ⟨hlastRoot, own :: items, by rw [hitems, hown]; simp, .cons ⟨hmember, hpath⟩ hall⟩

theorem plannableAll_iff {seen : List Path} : PlannableAll seen nodes ↔
    (∀ item ∈ nodes, '\\' ∉ asPosix item.1) ∧ (nodes.map Prod.fst).Nodup ∧ (∀ item ∈ nodes, item.1 ∉ seen) ∧
      ∀ item ∈ nodes, ∀ target, item.2 = .link target → symlinkDestination item.1 target = .ok () := by
  induction nodes generalizing seen with
  | nil => simp [PlannableAll]
  | cons item rest ih =>
    rw [PlannableAll, ih, map_cons, nodup_cons, forall_mem_cons, forall_mem_cons, forall_mem_cons]
    constructor
    · rintro ⟨hitem, hslash, hnodup, hfresh, htarget⟩
      refine ⟨⟨hitem.slashes, hslash⟩, ⟨?_, hnodup⟩, ⟨hitem.fresh, ?_⟩, hitem.target, htarget⟩
      · intro hmem
        obtain ⟨other, hother, heq⟩ := mem_map.mp hmem
        exact hfresh other hother (by simp [heq])
      · exact fun other hother hseen => hfresh other hother (mem_append_left _ hseen)
    · rintro ⟨⟨hslash, hslashes⟩, ⟨hnew, hnodup⟩, ⟨hfresh, hothers⟩, htarget, htargets⟩
      refine ⟨⟨hslash, hfresh, htarget⟩, hslashes, hnodup, ?_, htargets⟩
      intro other hother hseen
      rcases mem_append.mp hseen with hseen | hseen
      · exact hothers other hother hseen
      · exact hnew (mem_map.mpr ⟨other, hother, mem_singleton.mp hseen⟩)

theorem planNext_root : ∃ top : PlannedMember, top.path = none ∧ top.member = rootMember ∧
    planNext { expectedRoot := some archiveRoot } rootMember =
      .ok { expectedRoot := some archiveRoot, planned := [top], seen := [], totalSize := 0 } :=
  ⟨⟨rootMember, none, fun _ _ h => by cases h⟩, rfl, rfl, rfl⟩

/-- The archive of nodes stays within the limits. -/
structure WithinLimits (nodes : List (Path × Node)) : Prop where
  count : nodes.length + 1 ≤ Archive.archiveMaxMembers
  each : ∀ item ∈ nodes, (tarInfo item.1 item.2).size ≤ Archive.archiveMaxMemberBytes
  total : totalSize nodes ≤ Archive.archiveMaxTotalBytes

/-- The conditions under which the archive of nodes can be planned. -/
structure Plans (nodes : List (Path × Node)) : Prop where
  slashes : ∀ item ∈ nodes, '\\' ∉ asPosix item.1
  distinct : (nodes.map Prod.fst).Nodup
  targets : ∀ item ∈ nodes, ∀ target, item.2 = .link target → symlinkDestination item.1 target = .ok ()

theorem planMembers_nodes (hlimits : WithinLimits nodes) (hnamed : Named nodes) :
    ((∃ planning, planMembers (some archiveRoot) (rootMember :: nodes.map fun item => tarInfo item.1 item.2) = .ok planning) ↔
      Plans nodes) ∧
    ∀ planning, planMembers (some archiveRoot) (rootMember :: nodes.map fun item => tarInfo item.1 item.2) = .ok planning →
      ∃ top items, planning.planned = top :: items ∧ top.path = none ∧ List.Forall₂ IsItem items nodes := by
  obtain ⟨top, htop, -, hfirst⟩ := planNext_root
  have hroom : RoomAll { expectedRoot := some archiveRoot, planned := [top], seen := [], totalSize := 0 } nodes := by
    refine ⟨?_, hlimits.each, ?_⟩
    · have hcount := hlimits.count
      simp only [length_singleton]
      omega
    · simpa using hlimits.total
  obtain ⟨hiff, hitems⟩ := foldlM_planNext_nodes rfl hroom hnamed
  have hplans : PlannableAll [] nodes ↔ Plans nodes := by
    rw [plannableAll_iff]
    constructor
    · rintro ⟨hslash, hnodup, -, htarget⟩
      exact ⟨hslash, hnodup, htarget⟩
    · intro h
      exact ⟨h.slashes, h.distinct, by simp, h.targets⟩
  have hrun : planMembers (some archiveRoot) (rootMember :: nodes.map fun item => tarInfo item.1 item.2) = (do
      let planning ← (nodes.map fun item => tarInfo item.1 item.2).foldlM planNext
        { expectedRoot := some archiveRoot, planned := [top], seen := [], totalSize := 0 }
      if planning.planned = [] then .error "archive is empty" else pure planning) := by
    unfold planMembers
    rw [foldlM_cons, bind_eq hfirst]
  rw [hrun, ← hplans]
  constructor
  · rw [← hiff]
    constructor
    · rintro ⟨planning, h⟩
      obtain ⟨last, hlast, -⟩ := bind_ok h
      exact ⟨last, hlast⟩
    · rintro ⟨last, hlast⟩
      obtain ⟨-, items, hplanned, -⟩ := hitems last hlast
      refine ⟨last, ?_⟩
      rw [bind_eq hlast, if_neg (by simp [hplanned])]
      rfl
  · intro planning h
    obtain ⟨last, hlast, h⟩ := bind_ok h
    obtain ⟨-, h⟩ := guard_ok h
    cases h
    obtain ⟨-, items, hplanned, hall⟩ := hitems _ hlast
    exact ⟨top, items, by simpa using hplanned, htop, hall⟩

end

section

variable {nodes : List (Path × Node)}

/-- A link as it is planned, when its target has passed the first check. -/
def plannedLink : Path × Node → Option Planned
  | (path, .link target) =>
    if h : symlinkDestination path target = .ok () then
      some ⟨true, some path, target, fun _ _ heq => by cases heq; exact h⟩
    else none
  | _ => none

theorem IsItem.carries {item : PlannedMember} {entry : Path × Node} (h : IsItem item entry)
    (hmode : ∀ mode data, entry.2 = .directory mode ∨ entry.2 = .file mode data → mode < 0o1000) : Carries item entry := by
  obtain ⟨path, node⟩ := entry
  obtain ⟨hmember, hpath⟩ := h
  refine ⟨hpath, ?_⟩
  rw [hmember]
  cases node with
  | directory mode =>
    have hbound := hmode mode [] (Or.inl rfl)
    exact ⟨rfl, by simp only [tarInfo]; omega⟩
  | file mode data =>
    have hbound := hmode mode data (Or.inr rfl)
    exact ⟨rfl, by simp only [tarInfo]; omega, rfl⟩
  | link target => exact ⟨rfl, rfl⟩

/-- Only links matter to the check of links. -/
theorem validateLoop_links {items : List PlannedMember} (h : List.Forall₂ IsItem items nodes) (fuel : Nat) (links : Archive.Links) :
    Archive.validateLoop fuel links (items.map PlannedMember.planned) =
      Archive.validateLoop fuel links (nodes.filterMap plannedLink) := by
  induction h generalizing links with
  | nil => rfl
  | @cons item entry items nodes hitem _ ih =>
    obtain ⟨path, node⟩ := entry
    obtain ⟨hmember, hpath⟩ := hitem
    rw [map_cons]
    cases node with
    | directory mode =>
      have hlink : item.planned.link = none := by
        unfold PlannedMember.planned Planned.link
        simp [hmember, tarInfo]
      rw [Archive.validateLoop, hlink, filterMap_cons_none rfl]
      exact ih links
    | file mode data =>
      have hlink : item.planned.link = none := by
        unfold PlannedMember.planned Planned.link
        simp [hmember, tarInfo]
      rw [Archive.validateLoop, hlink, filterMap_cons_none rfl]
      exact ih links
    | link target =>
      have hkind : item.member.kind = .symbolicLink := by rw [hmember]; rfl
      have hname : item.member.linkname = target := by rw [hmember]; rfl
      have hchecked : symlinkDestination path target = .ok () := hname ▸ item.checked hkind path hpath
      have hlink : item.planned.link = some path := by
        unfold PlannedMember.planned Planned.link
        simp [hkind, hpath]
      have hlinkname : item.planned.linkname = target := hname
      have hcons : ((path, Node.link target) :: nodes).filterMap plannedLink =
          ⟨true, some path, target, fun _ _ heq => by cases heq; exact hchecked⟩ :: nodes.filterMap plannedLink := by
        rw [filterMap_cons]
        simp only [plannedLink, dif_pos hchecked]
      rw [hcons, Archive.validateLoop, Archive.validateLoop, hlink, hlinkname]
      simp only [Planned.link, if_true, ih]

end

end Leitir.Snapshot
