import Leitir.ExceptRun
import Leitir.RerunPolicy

/-! The map that gives the modules of a donor their names in the recipient. -/

namespace Leitir.Relocate

open List

open Bts (Text)
open Rerun (Raised)

def modulePart : Text → Bool
  | [] => false
  | first :: rest =>
    (first.isAlpha || first = '_') && rest.all fun ch => ch.isAlphanum || ch = '_'

def isModule (value : Text) : Bool := value ≠ [] && (value.splitOn '.').all modulePart

structure ReservedModuleManifest where
  modules : List Text
  prefixes : List Text
  preloaded : List Text

def within (outer name : Text) : Prop := name = outer ∨ outer ++ ['.'] <+: name

instance (outer name : Text) : Decidable (within outer name) := inferInstanceAs (Decidable (_ ∨ _))

def ReservedModuleManifest.reserves (manifest : ReservedModuleManifest) (module : Text) : Prop :=
  module ∈ manifest.preloaded ∨ (module.splitOn '.').headD [] ∈ manifest.modules ∨
    ∃ outer ∈ manifest.prefixes, within outer module

instance (manifest : ReservedModuleManifest) (module : Text) : Decidable (manifest.reserves module) :=
  inferInstanceAs (Decidable (_ ∨ _))

/-- The roots of the standard library, as policy data and not as the host has them. -/
def stdlibRoots : List String :=
  [ "__future__", "_abc", "_ast", "_asyncio", "_bisect", "_blake2", "_bz2", "_codecs", "_collections",
    "_contextvars", "_csv", "_datetime", "_decimal", "_functools", "_hashlib", "_heapq", "_imp", "_io", "_json",
    "_locale", "_lzma", "_md5", "_operator", "_pickle", "_posixsubprocess", "_random", "_sha1", "_sha256", "_sha3",
    "_sha512", "_signal", "_socket", "_sqlite3", "_ssl", "_stat", "_string", "_struct", "_thread", "_tokenize",
    "_tracemalloc", "_typing", "_uuid", "_warnings", "_weakref", "_zoneinfo", "abc", "aifc", "argparse", "array",
    "ast", "asynchat", "asyncio", "asyncore", "base64", "bdb", "binascii", "bisect", "builtins", "bz2", "cProfile",
    "calendar", "cgi", "cgitb", "chunk", "cmath", "cmd", "code", "codecs", "codeop", "collections", "colorsys",
    "compileall", "concurrent", "configparser", "contextlib", "contextvars", "copy", "copyreg", "crypt", "csv",
    "ctypes", "curses", "dataclasses", "datetime", "dbm", "decimal", "difflib", "dis", "doctest", "email",
    "encodings", "ensurepip", "enum", "errno", "faulthandler", "fcntl", "filecmp", "fileinput", "fnmatch",
    "fractions", "ftplib", "functools", "gc", "genericpath", "getopt", "getpass", "gettext", "glob", "graphlib",
    "grp", "gzip", "hashlib", "heapq", "hmac", "html", "http", "idlelib", "imaplib", "imghdr", "imp", "importlib",
    "inspect", "io", "ipaddress", "itertools", "json", "keyword", "lib2to3", "linecache", "locale", "logging",
    "lzma", "mailbox", "mailcap", "marshal", "math", "mimetypes", "mmap", "modulefinder", "multiprocessing",
    "netrc", "nis", "nntplib", "ntpath", "nturl2path", "numbers", "opcode", "operator", "optparse", "os",
    "pathlib", "pdb", "pickle", "pickletools", "pipes", "pkgutil", "platform", "plistlib", "poplib", "posix",
    "posixpath", "pprint", "profile", "pstats", "pty", "pwd", "py_compile", "pyclbr", "pydoc", "queue", "quopri",
    "random", "re", "readline", "reprlib", "resource", "rlcompleter", "runpy", "sched", "secrets", "select",
    "selectors", "shelve", "shlex", "shutil", "signal", "site", "smtpd", "smtplib", "sndhdr", "socket",
    "socketserver", "sqlite3", "sre_compile", "sre_constants", "sre_parse", "ssl", "stat", "statistics", "string",
    "stringprep", "struct", "subprocess", "sunau", "symtable", "sys", "sysconfig", "tabnanny", "tarfile",
    "telnetlib", "tempfile", "termios", "textwrap", "threading", "time", "timeit", "tkinter", "token", "tokenize",
    "tomllib", "trace", "traceback", "tracemalloc", "tty", "turtle", "turtledemo", "types", "typing",
    "unicodedata", "unittest", "urllib", "uu", "uuid", "venv", "warnings", "wave", "weakref", "webbrowser",
    "wsgiref", "xdrlib", "xml", "xmlrpc", "zipapp", "zipfile", "zipimport", "zlib", "zoneinfo"]

def reservedPrefixes : List String := ["_pytest", "importlib", "leitir", "pytest", "test", "tests", "harness", "probes"]

def preloadedModules : List String :=
  ["builtins", "sys", "_frozen_importlib", "_frozen_importlib_external", "importlib._bootstrap",
    "importlib._bootstrap_external"]

def defaultReservedModules : ReservedModuleManifest where
  modules := stdlibRoots.map String.toList
  prefixes := reservedPrefixes.map String.toList
  preloaded := preloadedModules.map String.toList

structure ModuleMapping where
  donor : Text
  recipient : Text
  donor_module : isModule donor = true
  recipient_module : isModule recipient = true
deriving DecidableEq

structure ModuleMap where
  entries : List ModuleMapping
  reserved : ReservedModuleManifest

def code (text : Text) : List Nat := text.map Char.toNat

/-- Below the donor of the parent the child does not keep the place that the parent's recipient gives it. -/
def ambiguous (parent child : ModuleMapping) : Prop :=
  parent.donor ++ ['.'] <+: child.donor ∧
    child.recipient ≠ parent.recipient ++ '.' :: child.donor.drop (parent.donor.length + 1)

instance (parent child : ModuleMapping) : Decidable (ambiguous parent child) := inferInstanceAs (Decidable (_ ∧ _))

def moduleMap (entries : List ModuleMapping) (reserved : ReservedModuleManifest) : Except Raised ModuleMap :=
  let ordered := KeyedList.sortBy (fun entry : ModuleMapping => [code entry.donor, code entry.recipient]) entries
  if ordered = [] then .error (.value "ModuleMap must not be empty")
  else if ¬ ((ordered.map (·.donor)).Nodup ∧ (ordered.map (·.recipient)).Nodup) then
    .error (.transplant .duplicateResult "ModuleMap is not one-to-one" (some "relocate_module_map_duplicate_v1".toList))
  else if ∃ entry ∈ ordered, reserved.reserves entry.recipient then
    .error (.transplant .unresolvedEdge "recipient module is reserved"
      (some "relocate_reserved_module_collision_v1".toList))
  else if ∃ parent ∈ ordered, ∃ child ∈ ordered, ambiguous parent child then
    .error (.transplant .unresolvedEdge "ambiguous nested ModuleMap" (some "relocate_ambiguous_module_map_v1".toList))
  else .ok ⟨ordered, reserved⟩

def longer (item best : ModuleMapping) : Prop :=
  best.donor.length < item.donor.length ∨ best.donor.length = item.donor.length ∧ code best.donor < code item.donor

instance (item best : ModuleMapping) : Decidable (longer item best) := inferInstanceAs (Decidable (_ ∨ _))

def longest (first : ModuleMapping) (rest : List ModuleMapping) : ModuleMapping :=
  rest.foldl (fun best item => if longer item best then item else best) first

def ModuleMapping.rename (entry : ModuleMapping) (module : Text) : Text :=
  entry.recipient ++ module.drop entry.donor.length

def ModuleMap.rewrite (map : ModuleMap) (module : Text) : Option Text :=
  match map.entries.filter fun entry => within entry.donor module with
  | [] => none
  | first :: rest => some ((longest first rest).rename module)

section

/-- What an accepted map promises of its entries. -/
structure Accepted (entries : List ModuleMapping) : Prop where
  donors : ∀ first ∈ entries, ∀ second ∈ entries, first.donor = second.donor → first = second
  recipients : ∀ first ∈ entries, ∀ second ∈ entries, first.recipient = second.recipient → first = second
  nested : ∀ parent ∈ entries, ∀ child ∈ entries, ∀ rest, child.donor = parent.donor ++ '.' :: rest →
    child.recipient = parent.recipient ++ '.' :: rest

variable {map : ModuleMap}

theorem moduleMap_ok {entries : List ModuleMapping} {reserved : ReservedModuleManifest}
    (h : moduleMap entries reserved = .ok map) : Accepted map.entries ∧ ∀ entry, entry ∈ map.entries ↔ entry ∈ entries := by
  unfold moduleMap at h
  obtain ⟨-, h⟩ := ExceptRun.guard_ok h
  obtain ⟨hnodup, h⟩ := ExceptRun.guard_ok h
  obtain ⟨-, h⟩ := ExceptRun.guard_ok h
  obtain ⟨hnested, h⟩ := ExceptRun.guard_ok h
  obtain ⟨hdonors, hrecipients⟩ := not_not.mp hnodup
  cases h
  refine ⟨⟨fun first hfirst second hsecond heq => inj_on_of_nodup_map hdonors hfirst hsecond heq,
    fun first hfirst second hsecond heq => inj_on_of_nodup_map hrecipients hfirst hsecond heq, ?_⟩,
    fun entry => (KeyedList.perm_sortBy _ entries).mem_iff⟩
  intro parent hparent child hchild rest hdonor
  by_contra hne
  refine hnested ⟨parent, hparent, child, hchild, ⟨rest, by simp [hdonor]⟩, ?_⟩
  have hrest : child.donor.drop (parent.donor.length + 1) = rest := by
    rw [hdonor, append_cons, drop_append_of_le_length (by simp)]
    simp
  rw [hrest]
  exact hne

theorem longest_mem (first : ModuleMapping) (rest : List ModuleMapping) : longest first rest ∈ first :: rest := by
  unfold longest
  induction rest generalizing first with
  | nil => simp
  | cons item rest ih =>
    rw [foldl_cons]
    split
    · exact mem_cons_of_mem _ (ih item)
    · rcases mem_cons.mp (ih first) with heq | hmem
      · rw [heq]
        exact mem_cons_self
      · exact mem_cons_of_mem _ (mem_cons_of_mem _ hmem)

theorem rewrite_some {module name : Text} (h : map.rewrite module = some name) :
    ∃ entry ∈ map.entries, within entry.donor module ∧ name = entry.rename module := by
  unfold ModuleMap.rewrite at h
  split at h
  next => simp at h
  next first rest hfilter =>
    have hmem := longest_mem first rest
    rw [← hfilter, mem_filter, decide_eq_true_eq] at hmem
    exact ⟨longest first rest, hmem.1, hmem.2, (Option.some.inj h).symm⟩

theorem rewrite_covered {module : Text} {entry : ModuleMapping} (hentry : entry ∈ map.entries)
    (h : within entry.donor module) : ∃ name, map.rewrite module = some name := by
  have hmem : entry ∈ map.entries.filter fun entry => within entry.donor module := by
    rw [mem_filter, decide_eq_true_eq]
    exact ⟨hentry, h⟩
  unfold ModuleMap.rewrite
  split
  next hfilter => simp [hfilter] at hmem
  next first rest hfilter => exact ⟨_, rfl⟩

end

section

theorem within_iff {outer name : Text} : within outer name ↔ name = outer ∨ ∃ rest, name = outer ++ '.' :: rest := by
  unfold within
  refine or_congr_right ⟨fun ⟨rest, hrest⟩ => ⟨rest, by simp [← hrest]⟩, fun ⟨rest, hrest⟩ => ⟨rest, by simp [hrest]⟩⟩

theorem rename_append (entry : ModuleMapping) (rest : Text) : entry.rename (entry.donor ++ rest) = entry.recipient ++ rest := by
  simp [ModuleMapping.rename]

theorem within_within {short long name : Text} (hshort : within short name) (hlong : within long name)
    (h : short.length ≤ long.length) : within short long := by
  have hlong : long <+: name := by
    rcases within_iff.mp hlong with rfl | ⟨rest, rfl⟩
    · exact prefix_rfl
    · exact prefix_append _ _
  rcases hshort with rfl | hshort
  · exact Or.inl (hlong.eq_of_length_le h)
  · by_cases heq : short.length = long.length
    · have hprefix : short <+: name := (prefix_append _ _).trans hshort
      exact Or.inl ((prefix_of_prefix_length_le hlong hprefix (by omega)).eq_of_length_le (by omega))
    · exact Or.inr (prefix_of_prefix_length_le hshort hlong (by simp; omega))

variable {entries : List ModuleMapping} {first second : ModuleMapping} {module : Text}

theorem rename_eq_of_le (h : Accepted entries)
    (hfirst : first ∈ entries) (hsecond : second ∈ entries) (hwithin : within first.donor module)
    (hother : within second.donor module) (hle : first.donor.length ≤ second.donor.length) :
    first.rename module = second.rename module := by
  rcases within_iff.mp (within_within hwithin hother hle) with heq | ⟨rest, hdonor⟩
  · rw [h.donors second hsecond first hfirst heq]
  · have hrecipient := h.nested first hfirst second hsecond rest hdonor
    obtain ⟨tail, rfl⟩ : ∃ tail, module = second.donor ++ tail := by
      rcases within_iff.mp hother with rfl | ⟨tail, rfl⟩
      · exact ⟨[], by simp⟩
      · exact ⟨_, rfl⟩
    rw [rename_append, hrecipient, hdonor, append_assoc, rename_append, append_assoc]

theorem rename_eq (h : Accepted entries)
    (hfirst : first ∈ entries) (hsecond : second ∈ entries) (hwithin : within first.donor module)
    (hother : within second.donor module) : first.rename module = second.rename module := by
  rcases Nat.le_total first.donor.length second.donor.length with hle | hle
  · exact rename_eq_of_le h hfirst hsecond hwithin hother hle
  · exact (rename_eq_of_le h hsecond hfirst hother hwithin hle).symm

theorem rewrite_eq {map : ModuleMap} (h : Accepted map.entries) {entry : ModuleMapping} (hentry : entry ∈ map.entries) (hwithin : within entry.donor module) : map.rewrite module = some (entry.rename module) := by
  obtain ⟨name, hname⟩ := rewrite_covered hentry hwithin
  obtain ⟨chosen, hchosen, hother, rfl⟩ := rewrite_some hname
  rw [hname, rename_eq h hchosen hentry hother hwithin]

/-- Nested recipients come from donors that are nested in the same way. -/
def KeepsNesting (entries : List ModuleMapping) : Prop :=
  ∀ outer ∈ entries, ∀ inner ∈ entries, ∀ rest, inner.recipient = outer.recipient ++ '.' :: rest →
    inner.donor = outer.donor ++ '.' :: rest

theorem module_eq_of_le (h : Accepted entries) (hkeeps : KeepsNesting entries) (hfirst : first ∈ entries) (hsecond : second ∈ entries) {other : Text}
    (hwithin : within first.donor module) (hother : within second.donor other)
    (heq : first.rename module = second.rename other) (hle : first.recipient.length ≤ second.recipient.length) :
    module = other := by
  have hsplit : ∀ {entry : ModuleMapping} {name : Text}, within entry.donor name →
      ∃ tail, name = entry.donor ++ tail ∧ within entry.recipient (entry.recipient ++ tail) := by
    intro entry name hname
    rcases within_iff.mp hname with rfl | ⟨rest, rfl⟩
    · exact ⟨[], by simp, within_iff.mpr (Or.inl (by simp))⟩
    · exact ⟨'.' :: rest, rfl, within_iff.mpr (Or.inr ⟨rest, rfl⟩)⟩
  obtain ⟨tail, rfl, htail⟩ := hsplit hwithin
  obtain ⟨tail', rfl, htail'⟩ := hsplit hother
  rw [rename_append, rename_append] at heq
  rw [← heq] at htail'
  rcases within_iff.mp (within_within htail htail' hle) with hsame | ⟨rest, hrest⟩
  · have hentry := h.recipients second hsecond first hfirst hsame
    rw [hentry] at heq ⊢
    rw [append_cancel_left heq]
  · rw [hrest, append_assoc] at heq
    rw [hkeeps first hfirst second hsecond rest hrest, append_assoc, append_cancel_left heq]

/-- The chosen entry never matters, and the renaming is one-to-one exactly when no recipient lies below another one
without its donor lying in the same place below the other's. -/
theorem rewrite_one_to_one_iff {entries : List ModuleMapping} {reserved : ReservedModuleManifest} {map : ModuleMap}
    (h : moduleMap entries reserved = .ok map) :
    ((∀ module, ∀ entry ∈ map.entries, within entry.donor module → map.rewrite module = some (entry.rename module)) ∧
      ∀ module other name, map.rewrite module = some name → map.rewrite other = some name → module = other) ↔
    KeepsNesting entries := by
  obtain ⟨haccepted, hmem⟩ := moduleMap_ok h
  constructor
  · rintro ⟨-, hinjective⟩ outer houter inner hinner rest hrecipient
    have hbelow : within outer.donor (outer.donor ++ '.' :: rest) := within_iff.mpr (Or.inr ⟨rest, rfl⟩)
    have hfirst := rewrite_eq haccepted ((hmem outer).mpr houter) hbelow
    have hsecond := rewrite_eq haccepted ((hmem inner).mpr hinner) (Or.inl rfl)
    rw [rename_append, ← hrecipient] at hfirst
    rw [ModuleMapping.rename, drop_length, append_nil] at hsecond
    exact hinjective _ _ _ hsecond hfirst
  · intro hkeeps
    have hkeeps : KeepsNesting map.entries := fun outer houter inner hinner =>
      hkeeps outer ((hmem outer).mp houter) inner ((hmem inner).mp hinner)
    refine ⟨fun module entry hentry hwithin => rewrite_eq haccepted hentry hwithin, ?_⟩
    intro module other name hmodule hother
    obtain ⟨first, hfirst, hwithin, rfl⟩ := rewrite_some hmodule
    obtain ⟨second, hsecond, hwithin', heq⟩ := rewrite_some hother
    rcases Nat.le_total first.recipient.length second.recipient.length with hle | hle
    · exact module_eq_of_le haccepted hkeeps hfirst hsecond hwithin hwithin' heq hle
    · exact (module_eq_of_le haccepted hkeeps hsecond hfirst hwithin' hwithin heq.symm hle).symm

end

theorem not_mem_texts {names : List String} {name : String} (h : name ∉ names) : name.toList ∉ names.map String.toList := by
  intro hmem
  obtain ⟨other, hother, heq⟩ := mem_map.mp hmem
  exact h (String.toList_inj.mp heq ▸ hother)

def packageEntry : ModuleMapping := ⟨"a".toList, "x".toList, by decide, by decide⟩

def innerEntry : ModuleMapping := ⟨"b".toList, "x.y".toList, by decide, by decide⟩

def collidingMap : ModuleMap := ⟨[packageEntry, innerEntry], defaultReservedModules⟩

theorem collidingMap_accepted : moduleMap [packageEntry, innerEntry] defaultReservedModules = .ok collidingMap := by
  have hroot : "x".toList ∉ defaultReservedModules.modules := not_mem_texts (by decide +kernel)
  have hreserved : ∀ entry ∈ [packageEntry, innerEntry], ¬ defaultReservedModules.reserves entry.recipient := by
    intro entry hentry
    have hhead : (entry.recipient.splitOn '.').headD [] = "x".toList := by
      rcases mem_cons.mp hentry with rfl | hentry
      · decide
      · rw [mem_singleton.mp hentry]
        decide
    have hother : entry.recipient ∉ defaultReservedModules.preloaded ∧
        ¬ ∃ outer ∈ defaultReservedModules.prefixes, within outer entry.recipient := by
      rcases mem_cons.mp hentry with rfl | hentry
      · decide +kernel
      · rw [mem_singleton.mp hentry]
        decide +kernel
    unfold ReservedModuleManifest.reserves
    rw [hhead]
    exact fun hmem => hmem.elim hother.1 fun hmem => hmem.elim hroot hother.2
  have hsorted : KeyedList.sortBy (fun entry : ModuleMapping => [code entry.donor, code entry.recipient])
      [packageEntry, innerEntry] = [packageEntry, innerEntry] := by decide
  unfold moduleMap
  dsimp only
  rw [hsorted, if_neg (by decide), if_neg (by decide), if_neg (by simpa using hreserved), if_neg (by decide)]
  rfl

theorem rewrite_one_to_one_colliding :
    ((∀ module, ∀ entry ∈ collidingMap.entries, within entry.donor module →
        collidingMap.rewrite module = some (entry.rename module)) ∧
      ∀ module other name, collidingMap.rewrite module = some name → collidingMap.rewrite other = some name →
        module = other) ↔ KeepsNesting [packageEntry, innerEntry] :=
  rewrite_one_to_one_iff collidingMap_accepted

theorem two_modules_one_name :
    moduleMap [packageEntry, innerEntry] defaultReservedModules = .ok collidingMap ∧
      collidingMap.rewrite "a.y".toList = some "x.y".toList ∧ collidingMap.rewrite "b".toList = some "x.y".toList ∧
      "a.y".toList ≠ "b".toList := by
  refine ⟨collidingMap_accepted, ?_, ?_, ?_⟩
  · decide
  · decide
  · decide

end Leitir.Relocate
