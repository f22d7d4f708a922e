import Leitir.ArchiveExtract
import Leitir.ExceptRun
import Leitir.FileTreeFilled

namespace Leitir.Archive

open List ExceptRun FileTree

open FileTree (Node Tree Run OsError realpath resolve WellFormed Grows Fills final)

section

theorem archivePath_proper {name : Name} {path : Path} (h : archivePath name = .ok path) :
    path ≠ [] ∧ ∀ part ∈ path, isProper part = true := by
  unfold archivePath at h
  obtain ⟨-, h⟩ := guard_ok h
  obtain ⟨hescape, h⟩ := guard_ok h
  obtain ⟨hne, h⟩ := guard_ok h
  cases h
  refine ⟨hne, fun part hpart => ?_⟩
  rw [not_or, Bool.not_eq_true, any_eq_false] at hescape
  have hparts : parts name = (name.splitOn '/').filter fun part => ¬ isCurrent part := by
    unfold parts
    split <;> simp_all
  have hparent := hescape.2 part hpart
  rw [hparts, mem_filter] at hpart
  rw [proper_iff]
  change isCurrent part = false ∧ isParent part = false
  exact ⟨by simpa using hpart.2, by simpa using hparent⟩

theorem strippedMemberPath_proper {name expectedRoot : Name} {path : Path}
    (h : strippedMemberPath name expectedRoot = .ok (some path)) : path ≠ [] ∧ ∀ part ∈ path, isProper part = true := by
  unfold strippedMemberPath at h
  obtain ⟨whole, hwhole, h⟩ := bind_ok h
  obtain ⟨-, h⟩ := guard_ok h
  have hpath : (if whole.tail = [] then none else some whole.tail) = some path := Except.ok.inj h
  split at hpath
  next => cases hpath
  next hne =>
    cases hpath
    exact ⟨hne, fun part hpart => (archivePath_proper hwhole).2 part (mem_of_mem_tail hpart)⟩

theorem planMember_ok {member : Member} {path : Option Path} {root : Name} {item : PlannedMember}
    (h : planMember member path root = .ok item) : item.member = member ∧ item.path = path := by
  unfold planMember at h
  obtain ⟨-, h⟩ := guard_ok h
  split at h
  next =>
    split at h
    next =>
      cases h
      exact ⟨rfl, rfl⟩
    next =>
      split at h
      next => cases h
      next =>
        cases h
        exact ⟨rfl, rfl⟩
  next =>
    split at h
    next =>
      obtain ⟨_, -, h⟩ := bind_ok h
      cases h
      exact ⟨rfl, rfl⟩
    next =>
      cases h
      exact ⟨rfl, rfl⟩

def ProperPaths (planned : List PlannedMember) : Prop :=
  ∀ item ∈ planned, ∀ path, item.path = some path → path ≠ [] ∧ ∀ part ∈ path, isProper part = true

variable {planning : Planning}

theorem planNext_proper {next : Planning} {member : Member} (hproper : ProperPaths planning.planned)
    (h : planNext planning member = .ok next) : ProperPaths next.planned := by
  unfold planNext at h
  obtain ⟨-, h⟩ := guard_ok h
  obtain ⟨-, h⟩ := guard_ok h
  obtain ⟨-, h⟩ := guard_ok h
  obtain ⟨root, -, h⟩ := bind_ok h
  obtain ⟨path, hpath, h⟩ := bind_ok h
  obtain ⟨_, -, h⟩ := bind_ok h
  obtain ⟨item, hitem, h⟩ := bind_ok h
  cases h
  intro other hother own hown
  rcases mem_append.mp hother with hother | hother
  · exact hproper other hother own hown
  · rw [mem_singleton.mp hother, (planMember_ok hitem).2] at hown
    rw [hown] at hpath
    exact strippedMemberPath_proper hpath

theorem foldlM_planNext_proper {members : List Member} {last : Planning} (hproper : ProperPaths planning.planned)
    (h : members.foldlM planNext planning = .ok last) : ProperPaths last.planned := by
  induction members generalizing planning with
  | nil =>
    cases h
    exact hproper
  | cons member members ih =>
    rw [foldlM_cons] at h
    obtain ⟨next, hnext, h⟩ := bind_ok h
    exact ih (planNext_proper hproper hnext) h

theorem planMembers_proper {archiveRoot : Option Name} {members : List Member}
    (h : planMembers archiveRoot members = .ok planning) : ProperPaths planning.planned := by
  unfold planMembers at h
  obtain ⟨last, hlast, h⟩ := bind_ok h
  obtain ⟨-, h⟩ := guard_ok h
  cases h
  exact foldlM_planNext_proper (by simp [ProperPaths]) hlast

end

section

variable {allows : Tree → Path → Bool} {destination root : Path} {tree grown : Tree} {α : Type}

/-- The destination is a directory of the file system. -/
structure Destined (destination root : Path) (tree : Tree) : Prop where
  wellFormed : WellFormed tree
  resolved : resolve tree destination = .ok root
  directory : isDirectory tree root = true

theorem Destined.isDir (h : Destined destination root tree) : isDir tree destination = true :=
  isDir_iff.mpr ⟨root, h.resolved, h.directory⟩

theorem Destined.of_grows (h : Destined destination root tree) (hgrows : Grows root tree grown) :
    Destined destination root grown :=
  ⟨hgrows.wellFormed, hgrows.resolve h.resolved, hgrows.isDirectory h.directory⟩

theorem final_host (run : Run OsError α) : final (host run) tree = final run tree := by
  cases hrun : run tree with
  | ok a changed =>
    have hhost : host run tree = .ok a changed := by simp only [host, hrun]
    rw [final_ok hrun, final_ok hhost]
  | error err changed =>
    have hhost : host run tree = .error (.os err) changed := by simp only [host, hrun]
    rw [final_error hrun, final_error hhost]

theorem host_ok {run : Run OsError α} {a : α} (h : host run tree = .ok a grown) : run tree = .ok a grown := by
  unfold host at h
  split at h
  next hrun =>
    cases h
    exact hrun
  next => cases h

theorem final_assertConfined_eq (output : Path) : final (assertConfined root output) tree = tree := by
  unfold final assertConfined
  by_cases h : root <+: realpath tree output
  · rw [if_pos h]
  · rw [if_neg h]

variable {output path : Path}

theorem final_assertConfined {R : Tree → Tree → Prop} {next : Unit → Extract α} (hrefl : R tree tree)
    (hnext : root <+: realpath tree output → R tree (final (next ()) tree)) :
    R tree (final (assertConfined root output >>= next) tree) := by
  unfold final
  rw [run_bind]
  by_cases h : root <+: realpath tree output
  · have hrun : assertConfined root output tree = .ok () tree := by simp only [assertConfined, if_pos h]
    rw [hrun]
    exact hnext h
  · have hrun : assertConfined root output tree = .error (.unsafeArchive escapes) tree := by
      simp only [assertConfined, if_neg h]
    rw [hrun]
    exact hrefl

theorem chmod_fills (hdest : Destined destination root tree) {mode : Nat} :
    Fills root tree (final (host (chmod output mode)) tree) := by
  rw [final_host]
  exact change_fills hdest.wellFormed (withMode_sameKind mode)

theorem makeDirectories_output (more : Path) (hdest : Destined destination root tree)
    (hpath : ∀ part ∈ path ++ more, isProper part = true) (hbelow : root <+: realpath tree (destination ++ path ++ more)) :
    Fills root tree (final (host (makeDirectories allows (destination ++ path).reverse)) tree) := by
  rw [final_host, reverse_append]
  refine makeDirectories_fills more hdest.wellFormed hdest.directory hdest.isDir ?_ ?_ ?_
  · exact fun part hpart => hpath part (mem_append_left _ (mem_reverse.mp hpart))
  · exact fun part hpart => hpath part (mem_append_right _ hpart)
  · rw [reverse_reverse]
    exact hbelow

theorem makeParents_fills (hdest : Destined destination root tree) (hne : path ≠ [])
    (hpath : ∀ part ∈ path, isProper part = true) (hbelow : root <+: realpath tree (destination ++ path)) :
    Fills root tree (final (makeParents allows (destination ++ path)) tree) := by
  have hsplit : path.dropLast ++ [path.getLast hne] = path := dropLast_append_getLast hne
  unfold makeParents
  rw [dropLast_append_of_ne_nil hne]
  refine makeDirectories_output [path.getLast hne] hdest ?_ ?_
  · rw [hsplit]
    exact hpath
  · rw [append_assoc, hsplit]
    exact hbelow

theorem extractDirectory_fills (hdest : Destined destination root tree)
    (hpath : ∀ part ∈ path, isProper part = true) (mode : Nat) :
    Fills root tree (final (extractDirectory allows root (destination ++ path) mode) tree) := by
  unfold extractDirectory
  refine final_assertConfined (.refl hdest.wellFormed) fun hbelow => ?_
  refine final_bind Fills.trans ?_ fun _ changed _ hchanged => chmod_fills (hdest.of_grows hchanged.grows)
  refine makeDirectories_output [] hdest ?_ ?_
  · rw [append_nil]
    exact hpath
  · rw [append_nil]
    exact hbelow

theorem openNewRegularFile_fills (hdest : Destined destination root tree)
    (hbelow : root <+: realpath tree output) : Fills root tree (final (openNewRegularFile allows root output) tree) := by
  unfold openNewRegularFile
  refine final_bind Fills.trans ?_ fun _ changed _ hchanged => ?_
  · rw [final_host]
    exact create_fills allows _ hdest.wellFormed hdest.directory hbelow rfl
  · rw [final_assertConfined_eq]
    exact .refl hchanged.grows.wellFormed

theorem extractFile_fills (hdest : Destined destination root tree) (hne : path ≠ [])
    (hpath : ∀ part ∈ path, isProper part = true) (mode : Nat) (data : List Nat) :
    Fills root tree (final (extractFile allows root (destination ++ path) mode data) tree) := by
  unfold extractFile
  refine final_assertConfined (.refl hdest.wellFormed) fun hbelow => ?_
  refine final_bind Fills.trans (makeParents_fills hdest hne hpath hbelow) fun _ parents _ hparents => ?_
  have hdest' := hdest.of_grows hparents.grows
  refine final_assertConfined (.refl hdest'.wellFormed) fun hstill => ?_
  refine final_bind Fills.trans (openNewRegularFile_fills hdest' hstill) fun _ opened _ hopened => ?_
  have hdest'' := hdest'.of_grows hopened.grows
  refine final_bind Fills.trans ?_ fun _ written _ hwritten => chmod_fills (hdest''.of_grows hwritten.grows)
  rw [final_host]
  exact change_fills hdest''.wellFormed (withData_sameKind data)

theorem extractPlain_fills (hdest : Destined destination root tree) {planned : List PlannedMember} (hproper : ProperPaths planned)
    {item : PlannedMember} (hitem : item ∈ planned) :
    Fills root tree (final (extractPlain allows destination root item) tree) := by
  unfold extractPlain
  split
  next path hpath _ => exact extractDirectory_fills hdest (hproper item hitem path hpath).2 _
  next path hpath _ =>
    obtain ⟨hne, hparts⟩ := hproper item hitem path hpath
    exact extractFile_fills hdest hne hparts _ _
  next => exact .refl hdest.wellFormed

theorem extractHardLink_fills (hdest : Destined destination root tree) {planned : List PlannedMember}
    (hproper : ProperPaths planned) {item : PlannedMember} (hitem : item ∈ planned) (expectedRoot : Name) (regular : List Path) :
    Fills root tree (final (extractHardLink allows destination root expectedRoot regular item) tree) := by
  unfold extractHardLink
  split
  next path hpath _ =>
    obtain ⟨hne, hparts⟩ := hproper item hitem path hpath
    split
    next => exact .refl hdest.wellFormed
    next linked _ =>
      split
      next => exact .refl hdest.wellFormed
      next =>
        refine final_assertConfined (.refl hdest.wellFormed) fun hbelow => ?_
        refine final_bind Fills.trans (makeParents_fills hdest hne hparts hbelow) fun _ parents _ hparents => ?_
        have hdest' := hdest.of_grows hparents.grows
        refine final_assertConfined (.refl hdest'.wellFormed) fun hstill => ?_
        rw [final_host]
        exact hardLink_fills hdest'.wellFormed hdest'.directory hstill
  next => exact .refl hdest.wellFormed

end

section

variable {allows : Tree → Path → Bool} {destination root : Path} {tree grown later : Tree} {planned : List PlannedMember}

def PlannedLink (destination : Path) (planned : List PlannedMember) (tree : Tree) (place : Path) : Prop :=
  ∃ item ∈ planned, ∃ front name directory, item.path = some (front ++ [name]) ∧
    resolve tree (destination ++ front) = .ok directory ∧ place = directory ++ [name]

/-- The tree grows below the root, and every new link was planned. -/
structure Connects (destination root : Path) (planned : List PlannedMember) (tree grown : Tree) : Prop where
  grows : Grows root tree grown
  sourced : ∀ place target, grown.lookup place = some (.link target) →
    tree.lookup place = some (.link target) ∨ PlannedLink destination planned grown place

theorem PlannedLink.of_grows {place : Path} (h : PlannedLink destination planned tree place) (hgrows : Grows root tree grown) :
    PlannedLink destination planned grown place := by
  obtain ⟨item, hitem, front, name, directory, hpath, hresolve, hplace⟩ := h
  exact ⟨item, hitem, front, name, directory, hpath, hgrows.resolve hresolve, hplace⟩

theorem Connects.trans (h : Connects destination root planned tree grown)
    (hlater : Connects destination root planned grown later) : Connects destination root planned tree later where
  grows := h.grows.trans hlater.grows
  sourced := by
    intro place target hlink
    rcases hlater.sourced place target hlink with hold | hnew
    · rcases h.sourced place target hold with holder | hmade
      · exact Or.inl holder
      · exact Or.inr (hmade.of_grows hlater.grows)
    · exact Or.inr hnew

theorem Connects.of_fills (h : Fills root tree grown) : Connects destination root planned tree grown :=
  ⟨h.grows, fun place target hlink => Or.inl (h.plain place target hlink)⟩

theorem Connects.refl (hwf : WellFormed tree) : Connects destination root planned tree tree := .of_fills (.refl hwf)

variable {item : PlannedMember}

/-- A new link is where its path leads. -/
theorem create_connects (hdest : Destined destination root tree) (hitem : item ∈ planned) {path : Path}
    (hpath : item.path = some path) (hne : path ≠ []) (hbelow : root <+: realpath tree (destination ++ path)) (node : Node) :
    Connects destination root planned tree (final (create allows (destination ++ path) node) tree) := by
  cases hcreate : create allows (destination ++ path) node tree with
  | error err changed =>
    rw [final_error hcreate, create_error hcreate]
    exact .refl hdest.wellFormed
  | ok a changed =>
    rw [final_ok hcreate]
    have hgrows := (create_grows [] hdest.wellFormed hdest.directory (by simp)
      (by rwa [append_nil]) hcreate).1
    refine ⟨hgrows, fun place target hlink => ?_⟩
    obtain ⟨front, name, directory, hsplit, hresolve, -, -, hnone, -, rfl⟩ := create_ok hcreate
    rw [lookup_concat hnone] at hlink
    split at hlink
    next heq =>
      have hlast : path.dropLast ++ [path.getLast hne] = path := dropLast_append_getLast hne
      rw [← hlast, ← append_assoc] at hsplit
      obtain ⟨hfront, hname⟩ := append_inj' hsplit rfl
      cases hname
      refine Or.inr ⟨item, hitem, path.dropLast, path.getLast hne, directory, ?_, ?_, heq⟩
      · rw [hlast]
        exact hpath
      · rw [hfront]
        exact hgrows.resolve hresolve
    next => exact Or.inl hlink

theorem extractSymlink_connects (hdest : Destined destination root tree) (hproper : ProperPaths planned) (hitem : item ∈ planned) :
    Connects destination root planned tree (final (extractSymlink allows destination root item) tree) := by
  unfold extractSymlink
  split
  next path hpath _ =>
    obtain ⟨hne, hparts⟩ := hproper item hitem path hpath
    refine final_assertConfined (.refl hdest.wellFormed) fun hbelow => ?_
    refine final_bind Connects.trans (.of_fills (makeParents_fills hdest hne hparts hbelow))
      fun _ parents _ hparents => ?_
    have hdest' := hdest.of_grows hparents.grows
    refine final_assertConfined (.refl hdest'.wellFormed) fun hstill => ?_
    rw [final_host]
    exact create_connects hdest' hitem hpath hne hstill _
  next => exact .refl hdest.wellFormed

theorem final_checkResolved (item : PlannedMember) : final (checkResolved destination root item) tree = tree := by
  unfold final checkResolved
  cases hpath : item.path with
  | none => rfl
  | some path =>
    by_cases h : isSymlink tree (destination ++ path) = true ∧ ¬ root <+: realpath tree (destination ++ path)
    · simp only [if_pos h]
    · simp only [if_neg h]

/-- The extraction of planned members, whatever its end. -/
theorem extractPlanned_connects (allows : Tree → Path → Bool) (hdest : Destined destination root tree) {planning : Planning}
    (hproper : ProperPaths planning.planned) :
    Connects destination root planning.planned tree (final (extractPlanned allows destination root planning) tree) := by
  have hwf := hdest.wellFormed
  unfold extractPlanned
  refine final_bind Connects.trans ?_ fun _ first _ hfirst => ?_
  · refine final_forM (.refl hwf) Connects.trans fun item hitem changed hchanged => ?_
    exact .of_fills (extractPlain_fills (hdest.of_grows hchanged.grows) hproper hitem)
  have hdest₁ := hdest.of_grows hfirst.grows
  refine final_bind Connects.trans ?_ fun _ second _ hsecond => ?_
  · refine final_forM (.refl hdest₁.wellFormed) Connects.trans fun item hitem changed hchanged => ?_
    exact .of_fills (extractHardLink_fills (hdest₁.of_grows hchanged.grows) hproper hitem _ _)
  have hdest₂ := hdest₁.of_grows hsecond.grows
  refine final_bind Connects.trans ?_ fun _ third _ hthird => ?_
  · refine final_forM (.refl hdest₂.wellFormed) Connects.trans fun item hitem changed hchanged => ?_
    exact extractSymlink_connects (hdest₂.of_grows hchanged.grows) hproper hitem
  have hdest₃ := hdest₂.of_grows hthird.grows
  refine final_forM (.refl hdest₃.wellFormed) Connects.trans fun item _ changed hchanged => ?_
  rw [final_checkResolved]
  exact .refl hchanged.grows.wellFormed

theorem checkResolved_ok (h : checkResolved destination root item tree = .ok () grown) :
    grown = tree ∧ ∀ path, item.path = some path → isSymlink tree (destination ++ path) = true →
      root <+: realpath tree (destination ++ path) := by
  unfold checkResolved at h
  split at h
  next hpath =>
    cases h
    refine ⟨rfl, fun path hown => ?_⟩
    rw [hpath] at hown
    cases hown
  next path hpath =>
    split at h
    next => cases h
    next hcheck =>
      cases h
      refine ⟨rfl, fun own hown hlink => ?_⟩
      rw [hpath] at hown
      cases hown
      by_contra hnot
      exact hcheck ⟨hlink, hnot⟩

theorem PlannedLink.checked {place : Path} {target : Name} (h : PlannedLink destination planned tree place)
    (hwf : WellFormed tree) (hlink : tree.lookup place = some (.link target))
    (hchecks : ∀ item ∈ planned, checkResolved destination root item tree = .ok () tree) : root <+: realpath tree place := by
  obtain ⟨item, hitem, front, name, directory, hpath, hresolve, rfl⟩ := h
  have hdir : isDirectory tree directory = true := hwf.above (by simp) hlink
  have hsymlink : isSymlink tree (destination ++ (front ++ [name])) = true := by
    unfold isSymlink
    rw [← append_assoc, getLast?_concat, dropLast_concat, hresolve]
    dsimp only
    rw [hlink]
  have hbelow := (checkResolved_ok (hchecks item hitem)).2 _ hpath hsymlink
  rw [← append_assoc, realpath_resolved hwf hresolve hdir] at hbelow
  exact hbelow

theorem extractPlanned_checked {planning : Planning} (h : extractPlanned allows destination root planning tree = .ok () grown) :
    ∀ item ∈ planning.planned, checkResolved destination root item grown = .ok () grown := by
  unfold extractPlanned at h
  obtain ⟨_, first, -, h⟩ := run_bind_ok h
  obtain ⟨_, second, -, h⟩ := run_bind_ok h
  obtain ⟨_, third, -, h⟩ := run_bind_ok h
  obtain ⟨rfl, hall⟩ := forM_run_ok h fun item _ a b hcheck => (checkResolved_ok hcheck).1
  exact hall

end

section

variable {allows : Tree → Path → Bool} {destination root : Path} {tree grown : Tree} {fuel : Nat} {archiveRoot : Option Name}
  {members : List Member}

theorem final_validateLinks (fuel : Nat) (planned : List PlannedMember) (tree : Tree) :
    validateLinks fuel planned tree = .ok () tree ∨ ∃ err, validateLinks fuel planned tree = .error err tree := by
  unfold validateLinks
  split
  next => exact Or.inr ⟨_, rfl⟩
  next => exact Or.inr ⟨_, rfl⟩
  next => exact Or.inl rfl

/-- Nothing is made before the whole plan has passed its checks. -/
theorem extractTarball_run (allows : Tree → Path → Bool) (fuel : Nat) (archiveRoot : Option Name) (members : List Member)
    (hdest : Destined destination root tree) :
    (∃ err, extractTarball allows destination fuel archiveRoot members tree = .error err tree) ∨
      ∃ planning, planMembers archiveRoot members = .ok planning ∧
        extractTarball allows destination fuel archiveRoot members tree =
          extractPlanned allows destination root planning tree := by
  unfold extractTarball
  cases hplan : planMembers archiveRoot members with
  | error message => exact Or.inl ⟨_, rfl⟩
  | ok planning =>
    dsimp only
    rcases final_validateLinks fuel planning.planned tree with hvalid | ⟨err, hvalid⟩
    · refine Or.inr ⟨planning, rfl, ?_⟩
      have hmake : host (makeDirectories allows destination.reverse) tree = .ok () tree := by
        simp only [host, makeDirectories_there hdest.isDir]
      have hroot : realpath tree destination = root := realpath_of_leads (resolve_iff.mp hdest.resolved)
      rw [run_bind, hvalid]
      dsimp only
      rw [run_bind, hmake]
      dsimp only
      rw [run_bind]
      change extractPlanned allows destination (realpath tree destination) planning tree = _
      rw [hroot]
    · refine Or.inl ⟨err, ?_⟩
      rw [run_bind, hvalid]

theorem extractTarball_grows (hdest : Destined destination root tree) :
    Grows root tree (final (extractTarball allows destination fuel archiveRoot members) tree) := by
  rcases extractTarball_run allows fuel archiveRoot members hdest with
    ⟨err, hrun⟩ | ⟨planning, hplan, hrun⟩
  · rw [final_error hrun]
    exact .refl hdest.wellFormed
  · have hconnects := extractPlanned_connects allows hdest (planMembers_proper hplan)
    unfold final at hconnects ⊢
    rw [hrun]
    exact hconnects.grows

/-- The file systems seen while an archive is extracted: the host is stopped after some number of new nodes, or not at all. -/
def Moment (allows : Tree → Path → Bool) (destination : Path) (fuel : Nat) (archiveRoot : Option Name) (members : List Member)
    (tree now : Tree) : Prop :=
  now = final (extractTarball allows destination fuel archiveRoot members) tree ∨
    ∃ count, now = final (extractTarball (fun current place => allows current place && current.length < tree.length + count)
      destination fuel archiveRoot members) tree

/-- Extraction into an empty directory makes nothing outside it, and leaves no link that leads out of it. -/
theorem extractTarball_confined (allows : Tree → Path → Bool) (destination root : Path) (fuel : Nat) (archiveRoot : Option Name)
    (members : List Member) (tree : Tree) (hwf : WellFormed tree) (hdest : resolve tree destination = .ok root)
    (hdir : isDirectory tree root = true)
    (hempty : ∀ place node, tree.lookup place = some node → root <+: place → place = root) :
    (∀ now, Moment allows destination fuel archiveRoot members tree now →
      ∀ place node, now.lookup place = some node → tree.lookup place = none → root <+: place ∧ place ≠ root) ∧
    ∀ left, extractTarball allows destination fuel archiveRoot members tree = .ok () left →
      ∀ place target, left.lookup place = some (.link target) → root <+: place →
        root <+: realpath left place ∧ ∀ found, resolve left place = .ok found → root <+: found := by
  have hdestined : Destined destination root tree := ⟨hwf, hdest, hdir⟩
  refine ⟨fun now hnow => ?_, fun left hrun place target hlink hbelow => ?_⟩
  · rcases hnow with rfl | ⟨count, rfl⟩
    · exact (extractTarball_grows hdestined).fresh
    · exact (extractTarball_grows hdestined).fresh
  · rcases extractTarball_run allows fuel archiveRoot members hdestined with
      ⟨err, herr⟩ | ⟨planning, hplan, hplanned⟩
    · rw [herr] at hrun
      cases hrun
    · rw [hplanned] at hrun
      have hconnects := extractPlanned_connects allows hdestined (planMembers_proper hplan)
      rw [final_ok hrun] at hconnects
      have hinside : root <+: realpath left place := by
        rcases hconnects.sourced place target hlink with hold | hnew
        · -- The destination was empty, and it is a directory itself.
          obtain rfl := hempty place _ hold hbelow
          rcases isDirectory_iff.mp hdir with rfl | ⟨mode, hmode⟩
          · exact nil_prefix
          · rw [hold] at hmode
            cases hmode
        · exact hnew.checked hconnects.grows.wellFormed hlink (extractPlanned_checked hrun)
      refine ⟨hinside, fun found hfound => ?_⟩
      rw [realpath_of_leads (resolve_iff.mp hfound)] at hinside
      exact hinside

def emptyDestination : Tree := [([['d']], .directory 0o700)]

def linkedMembers : List Member :=
  [⟨['r', '/', 'a'], .regular, 0o644, 1, [7], []⟩, ⟨['r', '/', 's', '/', 'l'], .symbolicLink, 0o777, 0, [], ['.', '.', '/', 'a']⟩]

/-- A link through the directory above it. -/
theorem extractTarball_confined_linked :
    ∃ left, extractTarball (fun _ _ => true) [['d']] 20 none linkedMembers emptyDestination = .ok () left ∧
      left.lookup [['d'], ['s'], ['l']] = some (.link ['.', '.', '/', 'a']) ∧
      ([['d']] : Path) <+: realpath left [['d'], ['s'], ['l']] := by
  have hwf : WellFormed emptyDestination := ⟨by decide, by decide, by decide⟩
  have hempty : ∀ place node, emptyDestination.lookup place = some node → ([['d']] : Path) <+: place → place = [['d']] := by
    intro place node hnode _
    have hmem := mem_of_lookup hnode
    simp only [emptyDestination, mem_singleton, Prod.mk.injEq] at hmem
    exact hmem.1
  obtain ⟨left, hrun, hlink⟩ : ∃ left, extractTarball (fun _ _ => true) [['d']] 20 none linkedMembers emptyDestination =
      .ok () left ∧ left.lookup [['d'], ['s'], ['l']] = some (.link ['.', '.', '/', 'a']) :=
    ⟨[([['d']], .directory 0o700), ([['d'], ['a']], .file 0o644 [7]), ([['d'], ['s']], .directory 0o755),
      ([['d'], ['s'], ['l']], .link ['.', '.', '/', 'a'])], by rfl, by rfl⟩
  exact ⟨left, hrun, hlink, ((extractTarball_confined _ _ _ _ _ _ _ hwf (by rfl) (by rfl) hempty).2 left hrun _ _ hlink
    (by decide)).1⟩

end

end Leitir.Archive
