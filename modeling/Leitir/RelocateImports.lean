import Leitir.ExceptRun
import Leitir.LineCut
import Leitir.RerunPolicy

/-! The spans of the members of a donor, as the verification and the relocation cut them out. -/

namespace Leitir.Relocate

open Bts

def offsets (data : Bytes) : List Nat := (splitLinesKeep data []).scanl (fun offset line => offset + line.length) 0

def outside : Failure := mismatch "relocate_member_span_v1"

def span (data : Bytes) (source : SourceRef) : Except Failure Bytes :=
  let starts := offsets data
  if source.startLine ≥ starts.length ∨ source.endLine ≥ starts.length then .error outside
  else
    let start := (starts.getD (source.startLine - 1) 0) + source.startCol
    let stop := (starts.getD (source.endLine - 1) 0) + source.endCol
    if start > stop ∨ stop > data.length then .error outside else .ok ((data.take stop).drop start)

theorem flatten_splitLinesKeep (data line : Bytes) : (splitLinesKeep data line).flatten = line.reverse ++ data := by
  fun_induction splitLinesKeep data line with
  | case1 => simp
  | case2 line hline => simp
  | case3 ch line => simp
  | case4 line ch next rest hcut ih => simp [ih]
  | case5 line ch next rest hcut hend ih => simp [ih]
  | case6 line ch next rest hcut hend ih => simp [ih]

theorem length_offsets (data : Bytes) : (offsets data).length = (splitLinesKeep data []).length + 1 := by
  simp [offsets]

theorem foldl_length (lines : List Bytes) (start : Nat) :
    lines.foldl (fun offset line => offset + line.length) start = start + lines.flatten.length := by
  induction lines generalizing start with
  | nil => simp
  | cons line rest ih =>
    rw [List.foldl_cons, ih, List.flatten_cons, List.length_append]
    omega

theorem getD_offsets {data : Bytes} {index : Nat} (h : index ≤ (splitLinesKeep data []).length) :
    (offsets data).getD index 0 = ((splitLinesKeep data []).take index).flatten.length := by
  have hindex : (offsets data)[index]? = some ((splitLinesKeep data []).take index).flatten.length := by
    rw [offsets, List.getElem?_scanl, if_pos h, foldl_length]
    simp
  rw [List.getD_eq_getElem?_getD, hindex, Option.getD_some]

theorem take_sourceLines {data : Bytes} {count : Nat} (hne : splitLinesKeep data [] ≠ [])
    (h : count ≤ (splitLinesKeep data []).length) :
    (sourceLines data).take count = (splitLinesKeep data []).take count := by
  unfold sourceLines
  dsimp only
  rw [if_neg hne]
  split
  · exact List.take_append_of_le_length h
  · rfl

theorem line_end_le {data line : Bytes} {index : Nat} (h : (splitLinesKeep data [])[index]? = some line) :
    ((splitLinesKeep data []).take index).flatten.length + line.length ≤ data.length := by
  obtain ⟨hindex, hline⟩ := List.getElem?_eq_some_iff.mp h
  have hnext : (splitLinesKeep data []).take (index + 1) = (splitLinesKeep data []).take index ++ [line] := by
    rw [List.take_add_one, h, Option.toList_some]
  have hwhole := congrArg List.length (flatten_splitLinesKeep data [])
  rw [← List.take_append_drop (index + 1) (splitLinesKeep data []), hnext] at hwhole
  simp only [List.flatten_append, List.length_append, List.flatten_cons, List.flatten_nil, List.append_nil,
    List.reverse_nil, List.nil_append] at hwhole
  omega

theorem startLine_le_endLine (source : SourceRef) : source.startLine ≤ source.endLine := by
  have hordered := source.ordered
  unfold positionLe at hordered
  omega

theorem span_outside {data : Bytes} {source : SourceRef} (h : (splitLinesKeep data []).length < source.endLine) :
    span data source = .error outside := by
  have hlength := length_offsets data
  unfold span
  dsimp only
  rw [if_pos]
  omega

/-- Where the last line is one of the file's own, the two components cut out the same bytes. -/
theorem span_inside {data bytes : Bytes} {source : SourceRef} (h : sourceSpan data source = some bytes)
    (hend : source.endLine ≤ (splitLinesKeep data []).length) : span data source = .ok bytes := by
  have hpos := source.startLine_pos
  have hle := startLine_le_endLine source
  have hlength := length_offsets data
  have hne : splitLinesKeep data [] ≠ [] := List.ne_nil_of_length_pos (by omega)
  have hline : ∀ index < (splitLinesKeep data []).length, (sourceLines data)[index]? = (splitLinesKeep data [])[index]? := by
    intro index hindex
    have htake := take_sourceLines hne (show index + 1 ≤ _ from hindex)
    have hlast := congrArg (fun lines => lines[index]?) htake
    simpa [List.getElem?_take] using hlast
  unfold sourceSpan at h
  dsimp only at h
  rw [hline _ (show source.startLine - 1 < _ by omega), hline _ (show source.endLine - 1 < _ by omega),
    take_sourceLines hne (show source.startLine - 1 ≤ _ by omega),
    take_sourceLines hne (show source.endLine - 1 ≤ _ by omega)] at h
  split at h
  next startLine endLine hstart hstop =>
    have hinside := line_end_le hstop
    split at h
    next => simp at h
    next hcols =>
      split at h
      next => simp at h
      next hordered =>
        unfold span
        dsimp only
        rw [if_neg (by omega), getD_offsets (by omega), getD_offsets (by omega), if_neg (by omega)]
        exact congrArg Except.ok (Option.some.inj h)
  next => simp at h

/-- The relocation cuts out what the verification accepts unless the span ends after the last line terminator. -/
theorem span_follows_verification_iff {data bytes : Bytes} {source : SourceRef}
    (h : sourceSpan data source = some bytes) :
    span data source = .ok bytes ↔ source.endLine ≤ (splitLinesKeep data []).length := by
  refine ⟨fun hspan => ?_, span_inside h⟩
  by_contra hend
  rw [span_outside (by omega)] at hspan
  cases hspan

def exampleRef (endLine endCol : Nat) (h : positionLe 1 0 endLine endCol) : SourceRef :=
  ⟨"donor".toList, [], "a.py".toList, [], 1, 0, endLine, endCol, by omega, h⟩

theorem span_follows_verification_line :
    span [97, 10] (exampleRef 1 1 (by decide)) = .ok [97] ↔ 1 ≤ (splitLinesKeep [97, 10] []).length :=
  span_follows_verification_iff (show sourceSpan [97, 10] (exampleRef 1 1 (by decide)) = some [97] by decide)

theorem closing_line_rejected :
    sourceSpan [97, 10] (exampleRef 2 0 (by decide)) = some [97, 10] ∧
      span [97, 10] (exampleRef 2 0 (by decide)) = .error outside := by
  refine ⟨by decide, span_outside ?_⟩
  decide

end Leitir.Relocate

/-! The module that a relative import names, as the graph and the relocation compute it. -/

namespace Leitir.Relocate

open Bts (Text Failure beforeLastDot)
open Rerun (purePosixPath)

def suffix (name : Text) : Text :=
  let stem := beforeLastDot name
  if '.' ∈ name ∧ stem ≠ [] ∧ stem.length + 1 < name.length then name.drop stem.length else []

def moduleName (path packageRoot : Text) : Except Failure Text :=
  let sourcePath := purePosixPath path
  let rootValue := purePosixPath packageRoot
  if packageRoot ≠ [] ∧ (rootValue.root ≠ [] ∨ '\\' ∈ packageRoot ∨ ['.', '.'] ∈ rootValue.parts ∨
      rootValue.str ≠ packageRoot ∨ packageRoot = ['.']) then
    .error ⟨.provenanceMismatch, some "invalid_package_root".toList⟩
  else
    let root := if packageRoot ≠ [] then rootValue else purePosixPath ['.']
    if ¬ (sourcePath.root = root.root ∧ root.parts <+: sourcePath.parts) then
      .error ⟨.provenanceMismatch, some "path_outside_package_root".toList⟩
    else
      let relative := sourcePath.parts.drop root.parts.length
      let name := relative.getLastD []
      if suffix name ≠ ".py".toList then .error ⟨.unsupportedConstruct, some "non_python_source".toList⟩
      else
        let parts := relative.dropLast ++ [name.take (name.length - (suffix name).length)]
        let parts := if parts.getLastD [] = "__init__".toList then parts.dropLast else parts
        -- The package of a root `__init__.py` cannot be inferred.
        if parts = [] then .error ⟨.unsupportedConstruct, some "empty_module_name".toList⟩
        else .ok (['.'].intercalate parts)

/-- A file that the graph has been extracted from. -/
structure DonorFile where
  path : Text
  packageRoot : Text
  module : Text
  named : moduleName path packageRoot = .ok module

def importedParts : Option Text → List Text
  | none => []
  | some name => if name = [] then [] else name.splitOn '.'

/-- The graph's reading, which knows the file. -/
def DonorFile.absoluteFrom (file : DonorFile) (level : Nat) (imported : Option Text) : Option Text :=
  if level = 0 then imported
  else
    let package := file.module.splitOn '.'
    let package := if "/__init__.py".toList <:+ file.path then package else package.dropLast
    if level > package.length then none
    else
      let name := ['.'].intercalate (package.take (package.length - level + 1) ++ importedParts imported)
      if name = [] then none else some name

def packageParts (moduleContext : Text) : List Text :=
  let package := beforeLastDot moduleContext
  if package = [] then [] else package.splitOn '.'

def crossesRoot : Failure := ⟨.unresolvedEdge, some "relocate_relative_import_boundary_v1".toList⟩

/-- The relocation's reading, which knows the module only. -/
def absoluteRelative (moduleContext : Text) (level : Nat) (imported : Option Text) : Except Failure Text :=
  let parts := packageParts moduleContext
  if level > parts.length then .error crossesRoot
  else
    let base := parts.take (parts.length - level + 1) ++ importedParts imported
    if base = [] then .error crossesRoot else .ok (['.'].intercalate base)

theorem beforeLastDot_of_not_mem {name : Text} (h : '.' ∉ name) : beforeLastDot name = [] := by
  cases name with
  | nil => rfl
  | cons ch rest =>
    have hrest : '.' ∉ rest := fun hmem => h (List.mem_cons_of_mem _ hmem)
    simp [beforeLastDot, hrest]

theorem splitOn_beforeLastDot {name : Text} (h : '.' ∈ name) :
    (beforeLastDot name).splitOn '.' = (name.splitOn '.').dropLast := by
  induction name with
  | nil => simp at h
  | cons ch rest ih =>
    unfold beforeLastDot
    split
    next hrest =>
      -- A part is left after the last dot, so the first one is not the one that is dropped.
      have htail := ih hrest
      obtain ⟨first, others, hsplit⟩ := List.exists_cons_of_ne_nil (List.splitOn_ne_nil '.' (beforeLastDot rest))
      rw [hsplit] at htail
      obtain ⟨head, more, hwhole⟩ := List.exists_cons_of_ne_nil (List.splitOn_ne_nil '.' rest)
      rw [hwhole] at htail
      rw [List.splitOn_cons_eq_if_modifyHead, List.splitOn_cons_eq_if_modifyHead, hsplit, hwhole]
      cases more with
      | nil => simp at htail
      | cons next more =>
        rw [List.dropLast_cons_cons] at htail
        obtain ⟨rfl, rfl⟩ := List.cons.inj htail
        split
        · simp
        · simp
    next hrest =>
      have hch : ch = '.' := by
        rcases List.mem_cons.mp h with heq | hmem
        · exact heq.symm
        · exact absurd hmem hrest
      rw [hch, List.splitOn_cons_eq_if_modifyHead, List.splitOn_eq_singleton hrest]
      simp

theorem packageParts_eq {name : Text} (h : packageParts name ≠ []) :
    packageParts name = (name.splitOn '.').dropLast := by
  unfold packageParts at h ⊢
  dsimp only at h ⊢
  split at h
  next => exact absurd rfl h
  next hpackage =>
    have hdot : '.' ∈ name := by
      by_contra hdot
      exact hpackage (beforeLastDot_of_not_mem hdot)
    rw [if_neg hpackage, splitOn_beforeLastDot hdot]

theorem dotless_importedParts (imported : Option Text) : ∀ part ∈ importedParts imported, '.' ∉ part := by
  intro part hpart
  cases imported with
  | none => simp [importedParts] at hpart
  | some name =>
    simp only [importedParts] at hpart
    split at hpart
    next => simp at hpart
    next => exact LineCut.not_mem_splitOn name part hpart

/-- Two absolute names over one module agree only when they keep as many of its parts. -/
theorem take_length_eq {module : Text} {imported : Option Text} {m n : Nat} (hm : 0 < m) (hn : 0 < n)
    (hmle : m ≤ (module.splitOn '.').length) (hnle : n ≤ (module.splitOn '.').length)
    (h : ['.'].intercalate ((module.splitOn '.').take m ++ importedParts imported) =
      ['.'].intercalate ((module.splitOn '.').take n ++ importedParts imported)) : m = n := by
  have hdotless : ∀ count, ∀ part ∈ (module.splitOn '.').take count ++ importedParts imported, '.' ∉ part := by
    intro count part hpart
    rcases List.mem_append.mp hpart with hpart | hpart
    · exact LineCut.not_mem_splitOn module part (List.mem_of_mem_take hpart)
    · exact dotless_importedParts imported part hpart
  have hne : ∀ count, 0 < count → count ≤ (module.splitOn '.').length →
      (module.splitOn '.').take count ++ importedParts imported ≠ [] := by
    intro count hpos hle hnil
    have hlength := congrArg List.length hnil
    simp only [List.length_append, List.length_take, List.length_nil] at hlength
    omega
  have hlists := congrArg (List.splitOn '.') h
  rw [List.splitOn_intercalate '.' (hdotless m) (hne m hm hmle),
    List.splitOn_intercalate '.' (hdotless n) (hne n hn hnle)] at hlists
  have hlength := congrArg List.length hlists
  simp only [List.length_append, List.length_take] at hlength
  omega

theorem absoluteRelative_ok {module : Text} {level : Nat} {imported : Option Text} {name : Text}
    (h : absoluteRelative module level imported = .ok name) :
    level ≤ (packageParts module).length ∧
      name = ['.'].intercalate ((packageParts module).take ((packageParts module).length - level + 1) ++
        importedParts imported) := by
  unfold absoluteRelative at h
  obtain ⟨hlevel, h⟩ := ExceptRun.guard_ok h
  obtain ⟨-, h⟩ := ExceptRun.guard_ok h
  exact ⟨by omega, (Except.ok.inj h).symm⟩

theorem absoluteFrom_some {file : DonorFile} {level : Nat} {imported : Option Text} {name : Text} (hlevel : 1 ≤ level)
    (h : file.absoluteFrom level imported = some name) {package : List Text}
    (hpackage : package = if "/__init__.py".toList <:+ file.path then file.module.splitOn '.'
      else (file.module.splitOn '.').dropLast) :
    name = ['.'].intercalate (package.take (package.length - level + 1) ++ importedParts imported) := by
  unfold DonorFile.absoluteFrom at h
  dsimp only at h
  rw [if_neg (by omega), ← hpackage] at h
  split at h
  next => simp at h
  next =>
    split at h
    next => simp at h
    next => exact (Option.some.inj h).symm

/-- Inside a package the relocation gives an absolute name, and the graph gives one that keeps one part more. -/
theorem package_readings {file : DonorFile} {level : Nat} (imported : Option Text) (hlevel : 1 ≤ level)
    (hinit : "/__init__.py".toList <:+ file.path) (hdepth : level ≤ (packageParts file.module).length) :
    absoluteRelative file.module level imported = .ok (['.'].intercalate
        ((file.module.splitOn '.').take ((file.module.splitOn '.').length - level) ++ importedParts imported)) ∧
      file.absoluteFrom level imported = some (['.'].intercalate
        ((file.module.splitOn '.').take ((file.module.splitOn '.').length - level + 1) ++ importedParts imported)) := by
  have hne : packageParts file.module ≠ [] := List.ne_nil_of_length_pos (by omega)
  have hparts := packageParts_eq hne
  have hlength : (packageParts file.module).length = (file.module.splitOn '.').length - 1 := by
    rw [hparts, List.length_dropLast]
  have htake : (packageParts file.module).take ((packageParts file.module).length - level + 1) =
      (file.module.splitOn '.').take ((file.module.splitOn '.').length - level) := by
    rw [hlength, hparts, List.dropLast_eq_take, List.take_take]
    congr 1
    omega
  constructor
  · unfold absoluteRelative
    dsimp only
    rw [if_neg (by omega), htake, if_neg]
    intro hnil
    have hcount := congrArg List.length hnil
    simp only [List.length_append, List.length_take, List.length_nil] at hcount
    omega
  · unfold DonorFile.absoluteFrom
    dsimp only
    rw [if_neg (by omega), if_pos hinit, if_neg (by omega), if_neg]
    intro hempty
    -- A name of two parts or more has a dot in it.
    obtain ⟨first, next, rest, hsplit⟩ : ∃ first next rest,
        (file.module.splitOn '.').take ((file.module.splitOn '.').length - level + 1) = first :: next :: rest := by
      match hcut : (file.module.splitOn '.').take ((file.module.splitOn '.').length - level + 1) with
      | first :: next :: rest => exact ⟨first, next, rest, rfl⟩
      | [_] | [] =>
        have hcount := congrArg List.length hcut
        simp only [List.length_take, List.length_cons, List.length_nil] at hcount
        omega
    rw [hsplit, List.cons_append, List.cons_append, List.intercalate_cons_cons] at hempty
    simp at hempty

/-- The two readings of a relative import agree unless the file is the `__init__.py` of a package and the import stays
inside the packages around it. -/
theorem relative_import_agrees_iff (file : DonorFile) {level : Nat} (hlevel : 1 ≤ level) (imported : Option Text) :
    (∀ ours theirs, absoluteRelative file.module level imported = .ok ours →
      file.absoluteFrom level imported = some theirs → ours = theirs) ↔
    ¬ "/__init__.py".toList <:+ file.path ∨ (packageParts file.module).length < level := by
  constructor
  · intro hagree
    by_contra hnot
    rw [not_or, not_not, Nat.not_lt] at hnot
    obtain ⟨hinit, hdepth⟩ := hnot
    obtain ⟨hours, htheirs⟩ := package_readings imported hlevel hinit hdepth
    have hlength := congrArg List.length
      (packageParts_eq (List.ne_nil_of_length_pos (show 0 < (packageParts file.module).length by omega)))
    rw [List.length_dropLast] at hlength
    have heq := take_length_eq (by omega) (by omega) (by omega) (by omega) (hagree _ _ hours htheirs)
    omega
  · intro hcond ours theirs hours htheirs
    obtain ⟨hdepth, hours⟩ := absoluteRelative_ok hours
    have hplain := hcond.resolve_right (by omega)
    have hparts := packageParts_eq (List.ne_nil_of_length_pos (show 0 < (packageParts file.module).length by omega))
    rw [hours, absoluteFrom_some hlevel htheirs (show packageParts file.module = _ by rw [if_neg hplain, hparts])]

def plainFile : DonorFile where
  path := "pkg/sub/a.py".toList
  packageRoot := []
  module := "pkg.sub.a".toList
  named := ExceptRun.toOption_ok (by decide +kernel)

def packageFile : DonorFile where
  path := "src/pkg/sub/__init__.py".toList
  packageRoot := "src".toList
  module := "pkg.sub".toList
  named := ExceptRun.toOption_ok (by decide +kernel)

theorem relative_import_agrees_plain :
    (∀ ours theirs, absoluteRelative plainFile.module 1 (some "x".toList) = .ok ours →
      plainFile.absoluteFrom 1 (some "x".toList) = some theirs → ours = theirs) ↔
    ¬ "/__init__.py".toList <:+ plainFile.path ∨ (packageParts plainFile.module).length < 1 :=
  relative_import_agrees_iff plainFile (by omega) (some "x".toList)

/-- The same line is read as `pkg.x` and as `pkg.sub.x`. -/
theorem package_import_read_twice :
    absoluteRelative packageFile.module 1 (some "x".toList) = .ok "pkg.x".toList ∧
      packageFile.absoluteFrom 1 (some "x".toList) = some "pkg.sub.x".toList ∧
      "pkg.x".toList ≠ "pkg.sub.x".toList := by
  refine ⟨ExceptRun.toOption_ok ?_, ?_, ?_⟩
  · decide +kernel
  · decide +kernel
  · decide

end Leitir.Relocate
