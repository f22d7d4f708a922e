import Leitir.CheckReport

namespace Leitir.Check

open List

open Usage (Text CodeReference UnresolvedState)

variable {unicode : Unicode}

mutual

/-- The statements that run in the same scope: the statement, and what its blocks hold. -/
def Statement.inScope : Statement → List Statement
  | .other names body => .other names body :: inScopeAll body
  | .function name globals => [.function name globals]
  | .classDef name bases globals body => [.classDef name bases globals body]
  | .imports item => [.imports item]
  | .assign name value => [.assign name value]

def inScopeAll : List Statement → List Statement
  | [] => []
  | item :: rest => item.inScope ++ inScopeAll rest

end

def SourceFile.statements (file : SourceFile unicode) : List Statement := file.parsed.getD []

def publicNames (importRoots : List Text) (path : List Text) : List Dotted :=
  (moduleName path).tails.filter fun tail => tail.head?.any (· ∈ importRoots)

section

/-- What the tree meets of the code outside it: the names that a star import brings, and the attributes of a class. -/
structure Outside where
  exports : Dotted → Text → Prop
  attributes : Dotted → Text → Prop

variable (files : List (SourceFile unicode)) (importRoots : List Text) (outside : Outside)

structure ModuleFile (name : Dotted) (file : SourceFile unicode) : Prop where
  mem : file ∈ files
  suffix : ".py".toList <:+ file.path.getLastD []
  named : name ∈ publicNames importRoots file.path

def StarImport (module : Dotted) (file : SourceFile unicode) (target : Dotted) : Prop :=
  ∃ source level names, .imports (.fromModule source level names) ∈ inScopeAll file.statements ∧
    (∃ asname, (['*'], asname) ∈ names) ∧ importTarget (packageParts module file.path) source level = some target

/-- A name of a module stands for another name: by an import, by a star import or by an assignment. -/
inductive Alias : Dotted → Text → Dotted → Prop
  | imported {module file item name target} (hfile : ModuleFile files importRoots module file)
      (hitem : .imports item ∈ inScopeAll file.statements)
      (hmem : (module ++ [name], target) ∈ item.reexports module (packageParts module file.path)) :
      Alias module name target
  | star {module file target name} (hfile : ModuleFile files importRoots module file)
      (hstar : StarImport module file target) : Alias module name (target ++ [name])
  | assigned {module file name value} (hfile : ModuleFile files importRoots module file)
      (hmem : .assign name value ∈ inScopeAll file.statements) : Alias module name (module ++ value)

/-- A dotted name stands for another one by names of modules on its way. -/
inductive Denotes : Dotted → Dotted → Prop
  | here (name : Dotted) : Denotes name name
  | through {module name target rest found} (halias : Alias files importRoots module name target)
      (h : Denotes (target ++ rest) found) : Denotes (module ++ name :: rest) found

/-- Where a name of the tree comes from: the name of a file, an identifier that a file writes, or code outside. -/
inductive Origin (unicode : Unicode)
  | fileName
  | written (file : SourceFile unicode)
  | outside

/-- A name that a module binds. -/
inductive Bound : Dotted → Text → Origin unicode → Prop
  | own {module file name} (hfile : ModuleFile files importRoots module file)
      (hmem : name ∈ bindsAll file.statements ++ globalsAll file.statements) : Bound module name (.written file)
  | star {module file target name origin} (hfile : ModuleFile files importRoots module file)
      (hstar : StarImport module file target) (h : Bound target name origin) : Bound module name origin
  | brought {module file target name} (hfile : ModuleFile files importRoots module file)
      (hstar : StarImport module file target) (hout : ∀ other, ¬ ModuleFile files importRoots target other)
      (h : outside.exports target name) : Bound module name .outside

/-- A class with its module, the file, its bases and its body. -/
inductive DefinedClass : Dotted → Dotted → SourceFile unicode → List Dotted → List Statement → Prop
  | top {module file name bases globals body} (hfile : ModuleFile files importRoots module file)
      (hmem : .classDef name bases globals body ∈ inScopeAll file.statements) :
      DefinedClass (module ++ [name]) module file bases body
  | nested {owner module file bases body name bases' globals' body'} (h : DefinedClass owner module file bases body)
      (hmem : .classDef name bases' globals' body' ∈ inScopeAll body) :
      DefinedClass (owner ++ [name]) module file bases' body'

/-- An attribute that a class defines, or inherits from a class of the tree, of another package or of the language. -/
inductive Attribute : Dotted → Text → Origin unicode → Prop
  | own {owner module file bases body name} (hclass : DefinedClass files importRoots owner module file bases body)
      (hmem : name ∈ bindsAll body) : Attribute owner name (.written file)
  | inherited {owner module file bases body base found name origin}
      (hclass : DefinedClass files importRoots owner module file bases body) (hbase : base ∈ bases)
      (hfound : Denotes files importRoots (module ++ base) found) (h : Attribute found name origin) :
      Attribute owner name origin
  | foreign {owner module file bases body base found name}
      (hclass : DefinedClass files importRoots owner module file bases body) (hbase : base ∈ bases)
      (hfound : Denotes files importRoots (module ++ base) found) (hout : found.head?.all (· ∉ importRoots))
      (h : outside.attributes found name) : Attribute owner name .outside
  | builtin {owner module file bases body base name}
      (hclass : DefinedClass files importRoots owner module file bases body) (hbase : [base] ∈ bases)
      (hfree : ∀ origin, ¬ Bound files importRoots outside module base origin) (h : outside.attributes [base] name) :
      Attribute owner name .outside

/-- The tree has what a dotted name accesses: a module or package file, a name that a module binds, or an attribute of
a class. -/
inductive Has : Dotted → Origin unicode → Prop
  | aFile {name file} (hfile : ModuleFile files importRoots name file) : Has name .fileName
  | bound {owner module name origin} (hfound : Denotes files importRoots owner module)
      (h : Bound files importRoots outside module name origin) : Has (owner ++ [name]) origin
  | inClass {owner found name origin} (hfound : Denotes files importRoots owner found)
      (h : Attribute files importRoots outside found name origin) : Has (owner ++ [name]) origin

end

section

mutual

theorem Statement.mem_identifiers_of_binds {name : Text} :
    ∀ statement : Statement, name ∈ statement.binds → name ∈ statement.identifiers
  | .function _ _, h => mem_cons.mpr (Or.inl (mem_singleton.mp h))
  | .classDef _ _ _ _, h => mem_cons.mpr (Or.inl (mem_singleton.mp h))
  | .imports _, h => h
  | .assign _ _, h => h
  | .other _ body, h => by
    rcases mem_append.mp h with h | h
    · exact mem_append_left _ h
    · exact mem_append_right _ (mem_identifiers_of_binds body h)

theorem mem_identifiers_of_binds {name : Text} :
    ∀ statements : List Statement, name ∈ bindsAll statements → name ∈ identifiersAll statements
  | [], h => h
  | item :: rest, h => by
    rcases mem_append.mp h with h | h
    · exact mem_append_left _ (item.mem_identifiers_of_binds h)
    · exact mem_append_right _ (mem_identifiers_of_binds rest h)

end

mutual

theorem Statement.mem_identifiers_of_globals {name : Text} :
    ∀ statement : Statement, name ∈ statement.globals → name ∈ statement.identifiers
  | .function _ _, h => mem_cons_of_mem _ h
  | .classDef _ _ _ body, h => by
    rcases mem_append.mp h with h | h
    · exact mem_append_left _ (mem_cons_of_mem _ h)
    · exact mem_append_right _ (mem_identifiers_of_globals body h)
  | .other _ body, h => mem_append_right _ (mem_identifiers_of_globals body h)

theorem mem_identifiers_of_globals {name : Text} :
    ∀ statements : List Statement, name ∈ globalsAll statements → name ∈ identifiersAll statements
  | [], h => h
  | item :: rest, h => by
    rcases mem_append.mp h with h | h
    · exact mem_append_left _ (item.mem_identifiers_of_globals h)
    · exact mem_append_right _ (mem_identifiers_of_globals rest h)

end

mutual

theorem Statement.mem_identifiers_of_inScope {name : Text} {inner : Statement} (hname : name ∈ inner.identifiers) :
    ∀ statement : Statement, inner ∈ statement.inScope → name ∈ statement.identifiers
  | .function _ _, h => mem_singleton.mp h ▸ hname
  | .classDef _ _ _ _, h => mem_singleton.mp h ▸ hname
  | .imports _, h => mem_singleton.mp h ▸ hname
  | .assign _ _, h => mem_singleton.mp h ▸ hname
  | .other _ body, h => by
    rcases mem_cons.mp h with rfl | h
    · exact hname
    · exact mem_append_right _ (mem_identifiers_of_inScope hname body h)

theorem mem_identifiers_of_inScope {name : Text} {inner : Statement} (hname : name ∈ inner.identifiers) :
    ∀ statements : List Statement, inner ∈ inScopeAll statements → name ∈ identifiersAll statements
  | [], h => nomatch h
  | item :: rest, h => by
    rcases mem_append.mp h with h | h
    · exact mem_append_left _ (Statement.mem_identifiers_of_inScope hname item h)
    · exact mem_append_right _ (mem_identifiers_of_inScope hname rest h)

end

variable {files : List (SourceFile unicode)} {importRoots : List Text} {outside : Outside} {file : SourceFile unicode}

structure Writes (files : List (SourceFile unicode)) (file : SourceFile unicode) (name : Text) : Prop where
  mem : file ∈ files
  suffix : ".py".toList <:+ file.path.getLastD []
  identifier : name ∈ identifiersAll file.statements

variable {module : Dotted} {name : Text}

theorem ModuleFile.writes (h : ModuleFile files importRoots module file)
    (hname : name ∈ identifiersAll file.statements) : Writes files file name := ⟨h.mem, h.suffix, hname⟩

theorem DefinedClass.writes {owner : Dotted} {bases : List Dotted} {body : List Statement}
    (h : DefinedClass files importRoots owner module file bases body) (hname : name ∈ identifiersAll body) :
    Writes files file name := by
  induction h with
  | top hfile hmem => exact hfile.writes (mem_identifiers_of_inScope (mem_append_right _ hname) _ hmem)
  | nested _ hmem ih => exact ih (mem_identifiers_of_inScope (mem_append_right _ hname) _ hmem)

theorem Bound.writes {origin : Origin unicode}
    (h : Bound files importRoots outside module name origin) (horigin : origin = .written file) : Writes files file name := by
  induction h with
  | own hfile hmem =>
    cases horigin
    rcases mem_append.mp hmem with hmem | hmem
    · exact hfile.writes (mem_identifiers_of_binds _ hmem)
    · exact hfile.writes (mem_identifiers_of_globals _ hmem)
  | star _ _ _ ih => exact ih horigin
  | brought => cases horigin

theorem Attribute.writes {owner : Dotted} {origin : Origin unicode}
    (h : Attribute files importRoots outside owner name origin) (horigin : origin = .written file) :
    Writes files file name := by
  induction h with
  | own hclass hmem =>
    cases horigin
    exact hclass.writes (mem_identifiers_of_binds _ hmem)
  | inherited _ _ _ _ ih => exact ih horigin
  | foreign => cases horigin
  | builtin => cases horigin

theorem Has.writes {name : Dotted} (h : Has files importRoots outside name (.written file)) :
    Writes files file (name.getLastD []) := by
  cases h with
  | bound _ hbound => simpa using hbound.writes rfl
  | inClass _ hattribute => simpa using hattribute.writes rfl

end

section

variable {files : List (SourceFile unicode)} {file : SourceFile unicode}

theorem mem_readTexts {total : Nat} (h : (readTexts total files).capped = false) (hfile : file ∈ files) :
    ∃ text, file.text = some text ∧ text ∈ (readTexts total files).texts := by
  induction files generalizing total with
  | nil => cases hfile
  | cons first rest ih =>
    unfold readTexts at h ⊢
    split at h
    next => cases h
    next htotal =>
      rw [if_neg htotal]
      split at h
      next => cases h
      next hread =>
        rw [if_neg hread]
        split at h
        next text htext =>
          have hrest : (readTexts (total + first.size) rest).capped = false := (Bool.or_eq_false_iff.mp h).2
          rcases mem_cons.mp hfile with rfl | hfile
          · exact ⟨text, htext, mem_cons_self⟩
          · obtain ⟨found, hfound, hmem⟩ := ih hrest hfile
            exact ⟨found, hfound, mem_cons_of_mem _ hmem⟩
        next => cases h

theorem mem_readTargetText (h : (readTargetText files).capped = false) (hfile : file ∈ files)
    (hsuffix : ".py".toList <:+ file.path.getLastD []) :
    ∃ text, file.text = some text ∧ text ∈ (readTargetText files).texts := by
  obtain ⟨hfew, hread⟩ := Bool.or_eq_false_iff.mp h
  have hlength : (targetFiles files).length ≤ maxTargetFiles := Nat.le_of_not_lt (of_decide_eq_false hfew)
  have hmem : file ∈ targetFiles files :=
    KeyedList.mem_sortBy.mpr (mem_filter.mpr ⟨hfile, decide_eq_true hsuffix⟩)
  have htake : (targetFiles files).take maxTargetFiles = targetFiles files := take_of_length_le hlength
  simp only [readTargetText]
  rw [htake] at hread ⊢
  exact mem_readTexts hread hmem

def Ordinary (file : SourceFile unicode) (name : Text) : Prop :=
  file.spelling name = name ∧ name.head?.any unicode.word ∧ name.getLast?.any unicode.word

theorem foundAt_delimited {word : Char → Bool} {name before after : Text} (hhead : name.head?.any word)
    (hlast : name.getLast?.any word) (hbefore : before.getLast?.any word = false) (hafter : after.head?.any word = false) :
    foundAt word name (before ++ name ++ after) before.length = true := by
  have hne : name ≠ [] := by
    rintro rfl
    cases hhead
  have htake : (before ++ name ++ after).take before.length = before := by simp
  have hdrop : (before ++ name ++ after).drop before.length = name ++ after := by simp
  have htake' : (before ++ name ++ after).take (before.length + name.length) = before ++ name := by
    rw [← length_append, take_left]
  have hdrop' : (before ++ name ++ after).drop (before.length + name.length) = after := by
    rw [← length_append, drop_left]
  have hfirst : (name ++ after).head? = name.head? := head?_append_of_ne_nil _ hne
  have hend : (before ++ name).getLast? = name.getLast? := getLast?_append_of_ne_nil _ hne
  have hprefix : name.isPrefixOf (name ++ after) = true := isPrefixOf_iff_prefix.mpr (prefix_append _ _)
  unfold foundAt boundary
  rw [htake, hdrop, htake', hdrop', hfirst, hend, hhead, hlast, hbefore, hafter, hprefix]
  rfl

theorem Writes.appears {name : Text} (h : Writes files file name) (hordinary : Ordinary file name)
    (hcapped : (readTargetText files).capped = false) :
    appearsInText unicode.word name (readTargetText files).texts = true := by
  obtain ⟨text, htext, hmem⟩ := mem_readTargetText hcapped h.mem h.suffix
  obtain ⟨⟨before, after, heq, hbefore, hafter⟩, -⟩ := file.spelled text htext name h.identifier
  obtain ⟨hspelling, hhead, hlast⟩ := hordinary
  rw [hspelling] at heq
  unfold appearsInText
  rw [any_eq_true]
  refine ⟨text, hmem, ?_⟩
  rw [any_eq_true]
  refine ⟨before.length, mem_range.mpr ?_, ?_⟩
  · rw [heq, length_append, length_append]
    omega
  · rw [heq]
    exact foundAt_delimited hhead hlast hbefore hafter

end

end Leitir.Check
