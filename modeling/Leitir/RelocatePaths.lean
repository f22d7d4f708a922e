import Leitir.LineCut
import Leitir.RelocateMap
import Leitir.TextOrder

/-! The paths of a staging tree and of a packet, and the checks that they pass. -/

namespace Leitir.Relocate

open List ExceptRun KeyedList

open Bts (Text)
open Rerun (Raised purePosixPath)

section

/-- What the standard library knows of Unicode. -/
structure Unicode where
  casefold : Text → Text
  nfc : Text → Text

variable (unicode : Unicode)

def isPath (value : Text) : Prop :=
  value ≠ [] ∧ (purePosixPath value).root = [] ∧ value[1]? ≠ some ':' ∧ '\\' ∉ value ∧ '\x00' ∉ value ∧
    ['.', '.'] ∉ (purePosixPath value).parts ∧ (purePosixPath value).str = value ∧ value ≠ ['.'] ∧ unicode.nfc value = value

instance (value : Text) : Decidable (isPath unicode value) := inferInstanceAs (Decidable (_ ∧ _))

def checkPaths (collision conflict : Raised) (ordered : List Text) : Except Raised (List Text) :=
  if ¬ (ordered.Nodup ∧ (ordered.map unicode.casefold).Nodup) then .error collision
  else if ∃ pair ∈ ordered.zip ordered.tail, pair.1 ++ ['/'] <+: pair.2 then .error conflict
  else .ok ordered

end

section

inductive PacketRole
  | metadata | member | source | adapter | testOriginal | testRewritten | probe | harness | license
deriving DecidableEq

/-- The directory of a role that bears source. -/
def PacketRole.directory : PacketRole → Option String
  | .metadata => none
  | .member => some "members/"
  | .source => some "source/"
  | .adapter => some "adapters/"
  | .testOriginal => some "tests/original/"
  | .testRewritten => some "tests/rewritten/"
  | .probe => some "probes/"
  | .harness => some "harness/"
  | .license => some "licenses/"

structure PacketPayload (unicode : Unicode) where
  path : Text
  role : PacketRole
  path_valid : isPath unicode path
  placed : ∃ directory ∈ role.directory, directory.toList <+: path

variable {unicode : Unicode}

/-- The part of the validation of the payloads that is about their paths. -/
def validatePayloads (payloads : List (PacketPayload unicode)) : Except Raised (List Text) :=
  checkPaths unicode
    (.transplant .bundleInvalid "payload paths collide" (some "packet_payload_path_collision_v1".toList))
    (.transplant .bundleInvalid "payload path has a prefix conflict" (some "packet_payload_prefix_v1".toList))
    (sortBy (fun path => [Utf8.encodeText path]) (payloads.map (·.path)))

end

section

structure ContractTest (unicode : Unicode) where
  path : Text
  path_valid : isPath unicode path
  python : ".py".toList <:+ path

/-- The recipient modules that get source and the contract tests. -/
structure Staged (unicode : Unicode) where
  modules : List Text
  tests : List (ContractTest unicode)

def relocationLayout : Text := "staging-v1".toList

def modulePath (module : Text) : Text :=
  relocationLayout ++ "/src/".toList ++ module.map (fun ch => if ch = '.' then '/' else ch) ++ ".py".toList

def initPath (parts : List Text) : Text :=
  relocationLayout ++ "/src/".toList ++ ['/'].intercalate parts ++ "/__init__.py".toList

def packages (module : Text) : List (List Text) :=
  let parts := (module.splitOn '.').dropLast
  (List.range parts.length).map fun length => parts.take (length + 1)

def addModule (files : List Text) (module : Text) : List Text :=
  (packages module).foldl
    (fun files package => if initPath package ∈ files then files else files ++ [initPath package])
    (files ++ [modulePath module])

def probePath : Text := relocationLayout ++ "/probes/.empty".toList

def originalPath (path : Text) : Text := relocationLayout ++ "/tests/original/".toList ++ path

def rewrittenPath (path : Text) : Text := relocationLayout ++ "/tests/rewritten/".toList ++ path

def manifestPath (name : String) : Text := relocationLayout ++ "/manifests/".toList ++ name.toList ++ ".json".toList

def manifestNames : List String := ["input", "source", "test", "probe", "runner", "relocation"]

def sortedTexts (paths : List Text) : List Text := sortBy (fun path => [code path]) paths

variable {unicode : Unicode}

def Staged.sources (staged : Staged unicode) : List Text := (sortedTexts staged.modules.dedup).foldl addModule [probePath]

def Staged.files (staged : Staged unicode) : List Text :=
  staged.sources ++
    (sortedTexts (staged.tests.map (·.path))).flatMap (fun path => [originalPath path, rewrittenPath path]) ++
    manifestNames.map manifestPath

/-- The paths of a relocation, in their order. -/
def relocateTests (staged : Staged unicode) : Except Raised (List Text) :=
  if ¬ (staged.tests.map (·.path)).Nodup then
    .error (.transplant .duplicateResult "duplicate contract test path" (some "relocate_test_path_collision_v1".toList))
  else if ∃ path ∈ staged.files, ¬ isPath unicode path then
    .error (.value "path must be a normalized relative POSIX path")
  else
    checkPaths unicode
      (.transplant .duplicateResult "relocation output paths collide" (some "relocate_output_path_collision_v1".toList))
      (.transplant .duplicateResult "relocation has a file/directory prefix collision"
        (some "relocate_output_prefix_collision_v1".toList))
      (sortedTexts staged.files)

end

section

def PrefixFree (paths : List Text) : Prop := ∀ outer ∈ paths, ∀ inner ∈ paths, ¬ outer ++ ['/'] <+: inner

/-- Below one of the paths lies another, and a third one continues it with a character that sorts before the slash. -/
def Interleaved (paths : List Text) : Prop :=
  ∃ outer ∈ paths, ∃ inner ∈ paths, outer ++ ['/'] <+: inner ∧ ∃ c tail, outer ++ c :: tail ∈ paths ∧ c < '/'

theorem singleton_le_iff {a b : List Nat} : ([a] : KeyedList.Key) ≤ [b] ↔ a ≤ b := by
  rw [← not_lt, ← not_lt, not_iff_not, cons_lt_cons_iff]
  simp

variable {paths : List Text}

theorem pairwise_lt_sortBy {key : Text → List Nat} (hkey : ∀ a b, key a < key b → a < b)
    (hinjective : ∀ a b, key a = key b → a = b)
    (hnodup : (sortBy (fun path => [key path]) paths).Nodup) :
    (sortBy (fun path => [key path]) paths).Pairwise (· < ·) := by
  refine ((pairwise_sortBy _ paths).and hnodup).imp ?_
  intro a b hab
  rcases lt_or_eq_of_le (singleton_le_iff.mp hab.1) with hlt | heq
  · exact hkey a b hlt
  · exact absurd (hinjective a b heq) hab.2

variable {unicode : Unicode}

theorem checkPaths_ok {collision conflict : Raised} {ordered : List Text}
    (h : checkPaths unicode collision conflict ordered = .ok paths) :
    paths = ordered ∧ ordered.Nodup ∧ ∀ pair ∈ ordered.zip ordered.tail, ¬ pair.1 ++ ['/'] <+: pair.2 := by
  unfold checkPaths at h
  obtain ⟨hnodup, h⟩ := guard_ok h
  obtain ⟨hneighbours, h⟩ := guard_ok h
  have hdistinct := not_not.mp hnodup
  refine ⟨(Except.ok.inj h).symm, hdistinct.1, fun pair hpair hbelow => hneighbours ⟨pair, hpair, hbelow⟩⟩

theorem exists_between_of_ok {collision conflict : Raised} {key : Text → List Nat} (hkey : ∀ a b, key a < key b → a < b)
    (hinjective : ∀ a b, key a = key b → a = b) {items : List Text}
    (h : checkPaths unicode collision conflict (sortBy (fun path => [key path]) items) = .ok paths)
    {outer inner : Text} (houter : outer ∈ paths) (hinner : inner ∈ paths) (hbelow : outer ++ ['/'] <+: inner) :
    ∃ c tail, outer ++ c :: tail ∈ paths ∧ c < '/' := by
  obtain ⟨rfl, hnodup, hneighbours⟩ := checkPaths_ok h
  exact TextOrder.exists_between (pairwise_lt_sortBy hkey hinjective hnodup) hneighbours houter hinner hbelow

theorem code_injective (a b : Text) (h : code a = code b) : a = b :=
  map_injective_iff.mpr (fun _ _ heq => Char.toNat_inj.mp heq) h

theorem validatePayloads_prefixFree_iff {payloads : List (PacketPayload unicode)}
    (h : validatePayloads payloads = .ok paths) : PrefixFree paths ↔ ¬ Interleaved (payloads.map (·.path)) := by
  unfold validatePayloads at h
  have hmem : ∀ path, path ∈ paths ↔ path ∈ payloads.map (·.path) := by
    intro path
    rw [(checkPaths_ok h).1]
    exact mem_sortBy
  constructor
  · rintro hfree ⟨outer, houter, inner, hinner, hbelow, -⟩
    exact hfree outer ((hmem outer).mpr houter) inner ((hmem inner).mpr hinner) hbelow
  · intro hnot outer houter inner hinner hbelow
    obtain ⟨c, tail, hthird, hc⟩ := exists_between_of_ok (fun _ _ => TextOrder.lt_of_encodeText_lt)
      (fun _ _ heq => Utf8.encodeText_injective heq) h houter hinner hbelow
    exact hnot ⟨outer, (hmem outer).mp houter, inner, (hmem inner).mp hinner, hbelow, c, tail, (hmem _).mp hthird, hc⟩

end

section

def Plain (path : Text) : Prop :=
  (∃ ch, path[11]? = some ch ∧ ch ≠ 't') ∧ ∃ stem extension, path = stem ++ '.' :: extension ∧ '.' ∉ stem ∧ '/' ∉ extension

theorem plain_source {body : Text} (hbody : '.' ∉ body) : Plain (relocationLayout ++ "/src/".toList ++ body ++ ".py".toList) := by
  refine ⟨⟨'s', ?_, by decide⟩, relocationLayout ++ "/src/".toList ++ body, "py".toList, rfl, ?_, by decide⟩
  · rw [append_assoc, getElem?_append_left (by decide)]
    decide
  · rw [mem_append, not_or]
    exact ⟨by decide, hbody⟩

theorem plain_modulePath (module : Text) : Plain (modulePath module) := by
  refine plain_source fun hdot => ?_
  obtain ⟨ch, -, hch⟩ := mem_map.mp hdot
  split at hch
  next => exact absurd hch (by decide)
  next hne => exact hne hch

theorem not_mem_intercalate {parts : List Text} (h : ∀ part ∈ parts, '.' ∉ part) : '.' ∉ ['/'].intercalate parts := by
  induction parts with
  | nil => simp
  | cons part parts ih =>
    have hrest := ih fun other hother => h other (mem_cons_of_mem _ hother)
    cases parts with
    | nil => simpa using h part mem_cons_self
    | cons next parts =>
      rw [intercalate_cons_cons]
      simp only [mem_append, mem_singleton, not_or]
      exact ⟨⟨h part mem_cons_self, by decide⟩, hrest⟩

theorem plain_initPath {module : Text} {package : List Text} (h : package ∈ packages module) : Plain (initPath package) := by
  unfold packages at h
  obtain ⟨length, -, rfl⟩ := mem_map.mp h
  have hparts : ∀ part ∈ (module.splitOn '.').dropLast.take (length + 1), '.' ∉ part := fun part hpart =>
    LineCut.not_mem_splitOn module part (dropLast_subset _ (mem_of_mem_take hpart))
  have hpath : initPath ((module.splitOn '.').dropLast.take (length + 1)) = relocationLayout ++ "/src/".toList ++
      (['/'].intercalate ((module.splitOn '.').dropLast.take (length + 1)) ++ "/__init__".toList) ++ ".py".toList := by
    simp [initPath]
  rw [hpath]
  refine plain_source ?_
  rw [mem_append, not_or]
  exact ⟨not_mem_intercalate hparts, by decide⟩

theorem plain_addModule {files : List Text} (h : ∀ path ∈ files, Plain path) (module : Text) :
    ∀ path ∈ addModule files module, Plain path := by
  unfold addModule
  have hstep : ∀ (rest : List (List Text)) (files : List Text), (∀ package ∈ rest, package ∈ packages module) →
      (∀ path ∈ files, Plain path) → ∀ path ∈ rest.foldl
        (fun files package => if initPath package ∈ files then files else files ++ [initPath package]) files, Plain path := by
    intro rest
    induction rest with
    | nil => exact fun files _ hfiles => hfiles
    | cons package rest ih =>
      intro files hrest hfiles
      rw [foldl_cons]
      refine ih _ (fun other hother => hrest other (mem_cons_of_mem _ hother)) ?_
      split
      · exact hfiles
      · intro path hpath
        rcases mem_append.mp hpath with hpath | hpath
        · exact hfiles path hpath
        · rw [mem_singleton.mp hpath]
          exact plain_initPath (hrest package mem_cons_self)
  refine hstep _ _ (fun _ h => h) fun path hpath => ?_
  rcases mem_append.mp hpath with hpath | hpath
  · exact h path hpath
  · rw [mem_singleton.mp hpath]
    exact plain_modulePath module

theorem plain_sources {unicode : Unicode} (staged : Staged unicode) : ∀ path ∈ staged.sources, Plain path := by
  have hrun : ∀ (modules files : List Text), (∀ path ∈ files, Plain path) → ∀ path ∈ modules.foldl addModule files, Plain path := by
    intro modules
    induction modules with
    | nil => exact fun files hfiles => hfiles
    | cons module modules ih => exact fun files hfiles => ih _ (plain_addModule hfiles module)
  refine hrun _ _ fun path hpath => ?_
  rw [mem_singleton.mp hpath]
  exact ⟨⟨'p', by decide, by decide⟩, relocationLayout ++ "/probes/".toList, "empty".toList, by decide, by decide, by decide⟩

theorem plain_manifestPath {name : String} (h : name ∈ manifestNames) : Plain (manifestPath name) := by
  have hname : '.' ∉ name.toList := by
    revert name
    decide
  unfold manifestPath
  refine ⟨⟨'m', ?_, by decide⟩, relocationLayout ++ "/manifests/".toList ++ name.toList, "json".toList, rfl, ?_, by decide⟩
  · rw [append_assoc, getElem?_append_left (by decide)]
    decide
  · rw [mem_append, not_or]
    exact ⟨by decide, hname⟩

theorem mem_files {unicode : Unicode} {staged : Staged unicode} {path : Text} :
    path ∈ staged.files → Plain path ∨ ∃ test ∈ staged.tests.map (·.path), path = originalPath test ∨ path = rewrittenPath test := by
  intro h
  unfold Staged.files at h
  rw [mem_append, mem_append] at h
  rcases h with (h | h) | h
  · exact Or.inl (plain_sources staged path h)
  · obtain ⟨test, htest, hpath⟩ := mem_flatMap.mp h
    refine Or.inr ⟨test, mem_sortBy.mp htest, ?_⟩
    simpa using hpath
  · obtain ⟨name, hname, rfl⟩ := mem_map.mp h
    exact Or.inl (plain_manifestPath hname)

variable {test outer inner : Text}

theorem test_mem_files {unicode : Unicode} {staged : Staged unicode} (h : test ∈ staged.tests.map (·.path)) :
    originalPath test ∈ staged.files ∧ rewrittenPath test ∈ staged.files := by
  have hmem : ∀ path ∈ [originalPath test, rewrittenPath test], path ∈ staged.files := by
    intro path hpath
    unfold Staged.files
    refine mem_append_left _ (mem_append_right _ ?_)
    exact mem_flatMap.mpr ⟨test, mem_sortBy.mpr h, hpath⟩
  exact ⟨hmem _ (by simp), hmem _ (by simp)⟩

theorem not_below_of_stem {stem stem' extension extension' : Text} (hstem : '.' ∉ stem) (hstem' : '.' ∉ stem')
    (hslash : '/' ∉ extension') : ¬ (stem ++ '.' :: extension) ++ ['/'] <+: stem' ++ '.' :: extension' := by
  rintro ⟨rest, hrest⟩
  have hsplit := congrArg (List.splitOn '.') hrest
  simp only [append_assoc, cons_append] at hsplit
  rw [splitOn_append_cons_self_of_not_mem hstem, splitOn_append_cons_self_of_not_mem hstem'] at hsplit
  have hstems := (List.cons.inj hsplit).1
  rw [hstems] at hrest
  simp only [append_assoc, cons_append, append_cancel_left_eq, List.cons.injEq, true_and] at hrest
  exact hslash (by rw [← hrest]; simp)

theorem not_below_plain (houter : Plain outer) (hinner : Plain inner) : ¬ outer ++ ['/'] <+: inner := by
  obtain ⟨-, stem, extension, rfl, hstem, -⟩ := houter
  obtain ⟨-, stem', extension', rfl, hstem', hslash⟩ := hinner
  exact not_below_of_stem hstem hstem' hslash

theorem getElem?_of_above {index : Nat} {ch : Char} (h : outer ++ ['/'] <+: inner)
    (hindex : outer[index]? = some ch) : inner[index]? = some ch := by
  obtain ⟨rest, rfl⟩ := h
  obtain ⟨hlt, -⟩ := List.getElem?_eq_some_iff.mp hindex
  rw [append_assoc, getElem?_append_left hlt, hindex]

def testBases : List Text :=
  [relocationLayout ++ "/tests/original/".toList, relocationLayout ++ "/tests/rewritten/".toList]

theorem testBases_shape : ∀ base ∈ testBases, 18 ≤ base.length ∧ base[11]? = some 't' := by
  decide +kernel

theorem getElem?_base {base : Text} (hbase : base ∈ testBases) (test : Text) {index : Nat} (h : index < 18) :
    (base ++ test)[index]? = base[index]? := by
  have hlength := (testBases_shape base hbase).1
  exact getElem?_append_left (by omega)

theorem getElem?_originalPath (test : Text) : (originalPath test)[11]? = some 't' ∧ (originalPath test)[17]? = some 'o' := by
  unfold originalPath
  rw [getElem?_base (by simp [testBases]) test (by omega), getElem?_base (by simp [testBases]) test (by omega)]
  decide

theorem getElem?_rewrittenPath (test : Text) : (rewrittenPath test)[11]? = some 't' ∧ (rewrittenPath test)[17]? = some 'r' := by
  unfold rewrittenPath
  rw [getElem?_base (by simp [testBases]) test (by omega), getElem?_base (by simp [testBases]) test (by omega)]
  decide

theorem getElem?_test {path : Text} (h : path = originalPath test ∨ path = rewrittenPath test) : path[11]? = some 't' := by
  rcases h with rfl | rfl
  · exact (getElem?_originalPath test).1
  · exact (getElem?_rewrittenPath test).1

variable {unicode : Unicode} {staged : Staged unicode}

/-- Only a test lies below another file of the tree, and the other one is a test of the same kind. -/
theorem below_files (houter : outer ∈ staged.files) (hinner : inner ∈ staged.files)
    (h : outer ++ ['/'] <+: inner) :
    ∃ base ∈ testBases, ∃ test ∈ staged.tests.map (·.path), ∃ test' ∈ staged.tests.map (·.path),
      outer = base ++ test ∧ inner = base ++ test' := by
  have hsame : ∀ {index : Nat} {ch ch' : Char}, outer[index]? = some ch → inner[index]? = some ch' → ch = ch' := by
    intro index ch ch' hch hch'
    exact Option.some.inj ((getElem?_of_above h hch).symm.trans hch')
  rcases mem_files houter with hplain | ⟨test, htest, hpath⟩
  · rcases mem_files hinner with hplain' | ⟨test', -, hpath'⟩
    · exact absurd h (not_below_plain hplain hplain')
    · -- The character behind the layout tells the tests from the rest.
      obtain ⟨⟨ch, hch, hne⟩, -⟩ := hplain
      exact absurd (hsame hch (getElem?_test hpath')) hne
  · rcases mem_files hinner with hplain' | ⟨test', htest', hpath'⟩
    · obtain ⟨⟨ch, hch, hne⟩, -⟩ := hplain'
      exact absurd (hsame (getElem?_test hpath) hch).symm hne
    · rcases hpath with rfl | rfl
      · rcases hpath' with rfl | rfl
        · exact ⟨_, mem_cons_self, test, htest, test', htest', rfl, rfl⟩
        · exact absurd (hsame (getElem?_originalPath test).2 (getElem?_rewrittenPath test').2) (by decide)
      · rcases hpath' with rfl | rfl
        · exact absurd (hsame (getElem?_rewrittenPath test).2 (getElem?_originalPath test').2) (by decide)
        · exact ⟨_, mem_cons_of_mem _ mem_cons_self, test, htest, test', htest', rfl, rfl⟩

theorem test_of_append {base : Text} {c : Char} {tail : Text}
    (hbase : base ∈ testBases) (h : base ++ test ++ c :: tail ∈ staged.files) : test ++ c :: tail ∈ staged.tests.map (·.path) := by
  rw [append_assoc] at h
  rcases mem_files h with ⟨⟨ch, hch, hne⟩, -⟩ | ⟨other, hother, hpath⟩
  · rw [getElem?_base hbase _ (by omega), (testBases_shape base hbase).2] at hch
    exact absurd (Option.some.inj hch).symm hne
  · have hkind := getElem?_base hbase (test ++ c :: tail) (show 17 < 18 by omega)
    simp only [testBases, mem_cons, not_mem_nil, or_false] at hbase
    rcases hbase with rfl | rfl
    · rcases hpath with hpath | hpath
      · unfold originalPath at hpath
        rw [append_cancel_left hpath]
        exact hother
      · rw [hpath, (getElem?_rewrittenPath other).2] at hkind
        exact absurd hkind (by decide)
    · rcases hpath with hpath | hpath
      · rw [hpath, (getElem?_originalPath other).2] at hkind
        exact absurd hkind (by decide)
      · unfold rewrittenPath at hpath
        rw [append_cancel_left hpath]
        exact hother

theorem relocateTests_prefixFree_iff {paths : List Text} (h : relocateTests staged = .ok paths) :
    PrefixFree paths ↔ ¬ Interleaved (staged.tests.map (·.path)) := by
  unfold relocateTests at h
  obtain ⟨-, h⟩ := guard_ok h
  obtain ⟨-, h⟩ := guard_ok h
  have hmem : ∀ path, path ∈ paths ↔ path ∈ staged.files := by
    intro path
    rw [(checkPaths_ok h).1]
    exact mem_sortBy
  constructor
  · rintro hfree ⟨outer, houter, inner, hinner, ⟨rest, hrest⟩, -⟩
    refine hfree _ ((hmem _).mpr (test_mem_files houter).1) _ ((hmem _).mpr (test_mem_files hinner).1) ⟨rest, ?_⟩
    unfold originalPath
    rw [← hrest]
    simp only [append_assoc]
  · intro hnot outer houter inner hinner hbelow
    obtain ⟨c, tail, hthird, hc⟩ := exists_between_of_ok (fun _ _ => TextOrder.lt_of_code_lt) code_injective h
      houter hinner hbelow
    obtain ⟨base, hbase, test, htest, test', htest', rfl, rfl⟩ :=
      below_files ((hmem _).mp houter) ((hmem _).mp hinner) hbelow
    have hcontinued := test_of_append hbase ((hmem _).mp hthird)
    rw [append_assoc] at hbelow
    exact hnot ⟨test, htest, test', htest', (prefix_append_right_inj _).mp hbelow, c, tail, hcontinued, hc⟩

/-- The accepted paths of a packet and of a relocation are prefix-free exactly when no third path that sorts before the
slash comes between a file and a path below it. -/
theorem accepted_paths_prefixFree_iff (unicode : Unicode) :
    (∀ (payloads : List (PacketPayload unicode)) (paths : List Text), validatePayloads payloads = .ok paths →
      (PrefixFree paths ↔ ¬ Interleaved (payloads.map (·.path)))) ∧
    ∀ (staged : Staged unicode) (paths : List Text), relocateTests staged = .ok paths →
      (PrefixFree paths ↔ ¬ Interleaved (staged.tests.map (·.path))) :=
  ⟨fun _ _ => validatePayloads_prefixFree_iff, fun _ _ => relocateTests_prefixFree_iff⟩

end

def asciiUnicode : Unicode := ⟨List.map Char.toLower, id⟩

def adapterPayload (path : Text) (hpath : isPath asciiUnicode path) (hplaced : "adapters/".toList <+: path) :
    PacketPayload asciiUnicode :=
  ⟨path, .adapter, hpath, "adapters/", rfl, hplaced⟩

def interleavedPayloads : List (PacketPayload asciiUnicode) :=
  [adapterPayload "adapters/a".toList (by decide +kernel) (by decide +kernel),
    adapterPayload "adapters/a-b".toList (by decide +kernel) (by decide +kernel),
    adapterPayload "adapters/a/c".toList (by decide +kernel) (by decide +kernel)]

def interleavedTests : Staged asciiUnicode where
  modules := ["x.y".toList]
  tests :=
    [⟨"t.py".toList, by decide +kernel, by decide +kernel⟩, ⟨"t.py-x.py".toList, by decide +kernel, by decide +kernel⟩,
      ⟨"t.py/u.py".toList, by decide +kernel, by decide +kernel⟩]

theorem interleaved_payloads : Interleaved (interleavedPayloads.map (·.path)) :=
  ⟨"adapters/a".toList, by decide, "adapters/a/c".toList, by decide, by decide, '-', "b".toList, by decide, by decide⟩

theorem interleaved_tests : Interleaved (interleavedTests.tests.map (·.path)) :=
  ⟨"t.py".toList, by decide, "t.py/u.py".toList, by decide, by decide, '-', "x.py".toList, by decide, by decide⟩

theorem interleaved_accepted : (∃ paths, validatePayloads interleavedPayloads = .ok paths) ∧
    ∃ paths, relocateTests interleavedTests = .ok paths := by
  refine ⟨exists_ok ?_, exists_ok ?_⟩
  · decide +kernel
  · decide +kernel

theorem accepted_paths_prefixFree_ascii :
    ∃ paths, validatePayloads interleavedPayloads = .ok paths ∧
      (PrefixFree paths ↔ ¬ Interleaved (interleavedPayloads.map (·.path))) := by
  obtain ⟨paths, hpaths⟩ := interleaved_accepted.1
  exact ⟨paths, hpaths, (accepted_paths_prefixFree_iff asciiUnicode).1 _ _ hpaths⟩

theorem file_and_directory_accepted :
    (∃ paths, validatePayloads interleavedPayloads = .ok paths ∧ ¬ PrefixFree paths) ∧
      ∃ paths, relocateTests interleavedTests = .ok paths ∧ ¬ PrefixFree paths := by
  obtain ⟨⟨paths, hpaths⟩, paths', hpaths'⟩ := interleaved_accepted
  refine ⟨⟨paths, hpaths, fun hfree => ?_⟩, paths', hpaths', fun hfree => ?_⟩
  · exact (validatePayloads_prefixFree_iff hpaths).mp hfree interleaved_payloads
  · exact (relocateTests_prefixFree_iff hpaths').mp hfree interleaved_tests

end Leitir.Relocate
