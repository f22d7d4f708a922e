import Leitir.ShelfPostings

namespace Leitir.Shelf

open Json ExceptRun List KeyedList

section

variable {path : List Text}

theorem isComponent_spec {part : Text} (h : isComponent part = true) :
    part ≠ [] ∧ part ≠ ['.'] ∧ part ≠ ['.', '.'] ∧ '/' ∉ part ∧ '\x00' ∉ part := by
  simpa [isComponent, and_assoc] using h

theorem posixParts_asPosix (hne : path ≠ []) (h : ∀ part ∈ path, isComponent part = true) :
    posixParts (asPosix path) = path := by
  have hsplit : (asPosix path).splitOn '/' = path :=
    splitOn_intercalate '/' (fun part hpart => (isComponent_spec (h part hpart)).2.2.2.1) hne
  unfold posixParts
  rw [hsplit, filter_eq_self]
  intro part hpart
  obtain ⟨hnil, hdot, -⟩ := isComponent_spec (h part hpart)
  simp [hnil, hdot]

theorem head_asPosix (hne : path ≠ []) (h : ∀ part ∈ path, isComponent part = true) :
    asPosix path ≠ [] ∧ (asPosix path).head? ≠ some '/' := by
  obtain ⟨part, rest, rfl⟩ := exists_cons_of_ne_nil hne
  obtain ⟨hnil, -, -, hslash, -⟩ := isComponent_spec (h part mem_cons_self)
  obtain ⟨ch, tail, rfl⟩ := exists_cons_of_ne_nil hnil
  have hch : ch ≠ '/' := fun heq => hslash (heq ▸ mem_cons_self)
  have hhead : ∃ more, asPosix ((ch :: tail) :: rest) = ch :: more := by
    cases rest with
    | nil => exact ⟨tail, by simp [asPosix]⟩
    | cons next rest => exact ⟨tail ++ '/' :: asPosix (next :: rest), by simp [asPosix]⟩
  obtain ⟨more, hmore⟩ := hhead
  rw [hmore]
  exact ⟨cons_ne_nil _ _, by simpa using hch⟩

theorem mem_asPosix {ch : Char} (h : ch ∈ asPosix path) : ch = '/' ∨ ∃ part ∈ path, ch ∈ part := by
  induction path with
  | nil => simp [asPosix] at h
  | cons part rest ih =>
    cases rest with
    | nil =>
      simp only [asPosix, intercalate_singleton] at h
      exact Or.inr ⟨part, mem_cons_self, h⟩
    | cons next rest =>
      have hcut : asPosix (part :: next :: rest) = part ++ '/' :: asPosix (next :: rest) := by simp [asPosix]
      rw [hcut, mem_append, mem_cons] at h
      rcases h with h | h | h
      · exact Or.inr ⟨part, mem_cons_self, h⟩
      · exact Or.inl h
      · rcases ih h with h | ⟨other, hother, h⟩
        · exact Or.inl h
        · exact Or.inr ⟨other, mem_cons_of_mem _ hother, h⟩

end

section

variable {tree : Tree} {path : List Text} {node : Node}

theorem Tree.node_eq_some_iff : tree.node path = some node ↔ (path, node) ∈ tree.entries :=
  lookup_eq_some_iff tree.distinct

theorem checkParents_ok {done rest : List Text}
    (h : ∀ before after, rest = before ++ after → before ≠ [] → (done ++ before, Node.directory) ∈ tree.entries) :
    checkParents tree done rest = .ok () := by
  induction rest generalizing done with
  | nil => rfl
  | cons component rest ih =>
    have hfirst : tree.node (done ++ [component]) = some .directory :=
      Tree.node_eq_some_iff.mpr (h [component] rest rfl (cons_ne_nil _ _))
    unfold checkParents
    rw [hfirst]
    refine ih ?_
    intro before after hrest hne
    have hmore := h (component :: before) after (by rw [hrest, cons_append]) (cons_ne_nil _ _)
    rwa [append_assoc, singleton_append]

/-- Files and links of a tree are read as they are. -/
theorem readSourceBlob_ok (h : (path, node) ∈ tree.entries) (hdirectory : node ≠ .directory) (hspecial : node ≠ .special) :
    readSourceBlob tree (asPosix path) = .ok node.data := by
  obtain ⟨hne, hparts⟩ := tree.named _ h
  have hposix : posixParts (asPosix path) = path := posixParts_asPosix hne hparts
  have hhead := (head_asPosix hne hparts).2
  have hdots : ['.', '.'] ∉ path := fun hmem => (isComponent_spec (hparts _ hmem)).2.2.1 rfl
  have hparents : checkParents tree [] path.dropLast = .ok () := by
    refine checkParents_ok ?_
    intro before after hdrop hbefore
    have hpath : path = before ++ (after ++ [path.getLast hne]) := by
      rw [← append_assoc, ← hdrop]
      exact (dropLast_append_getLast hne).symm
    exact tree.parents _ h before _ hpath hbefore (by simp)
  have hnode : tree.node path = some node := Tree.node_eq_some_iff.mpr h
  unfold readSourceBlob
  simp only [hposix]
  rw [if_neg]
  · simp only [hparents, hnode, bind, Except.bind]
    cases node with
    | directory => exact absurd rfl hdirectory
    | special => exact absurd rfl hspecial
    | link text => rfl
    | file data =>
      unfold readRegular
      rw [hnode]
      rfl
  · rintro (hnil | habsolute | hmem)
    · exact hne hnil
    · exact hhead habsolute
    · exact hdots hmem

end

section

variable {tree : Tree} {shelf : ShelfRef}

def isSource (entry : List Text × Node) : Bool := !(entry.1 = [manifestName] || entry.2 = .directory)

def recordOf (shelf : ShelfRef) (entry : List Text × Node) : IndexDocument × Bytes :=
  (documentOf shelf (asPosix entry.1) entry.2.data, entry.2.data)

def Safe (entries : List (List Text × Node)) : Prop := ∀ entry ∈ entries, isSource entry = true → entry.2 ≠ .special

theorem readRecords_ok {entries : List (List Text × Node)} (hsub : ∀ entry ∈ entries, entry ∈ tree.entries)
    (hsafe : Safe entries) :
    readRecords tree shelf entries = .ok ((entries.filter isSource).map (recordOf shelf)) := by
  induction entries with
  | nil => rfl
  | cons entry rest ih =>
    obtain ⟨path, node⟩ := entry
    obtain ⟨hentry, hothers⟩ := forall_mem_cons.mp hsub
    have hrest := ih hothers fun other hother => hsafe other (mem_cons_of_mem _ hother)
    unfold readRecords
    by_cases hskip : path = [manifestName] ∨ node = .directory
    · have hnot : isSource (path, node) = false := by
        rcases hskip with rfl | rfl
        · simp [isSource]
        · simp [isSource]
      rw [if_pos hskip, hrest, filter_cons_of_neg (by simp [hnot])]
    · have hsource : isSource (path, node) = true := by simpa [isSource] using hskip
      have hspecial : node ≠ .special := hsafe _ mem_cons_self hsource
      have hread := readSourceBlob_ok hentry (fun h => hskip (Or.inr h)) hspecial
      rw [if_neg hskip, if_neg hspecial, hread, hrest, filter_cons_of_pos hsource]
      rfl

theorem safe_of_readRecords {entries : List (List Text × Node)} {records : List (IndexDocument × Bytes)}
    (h : readRecords tree shelf entries = .ok records) : Safe entries := by
  induction entries generalizing records with
  | nil => exact fun entry hentry => absurd hentry not_mem_nil
  | cons entry rest ih =>
    obtain ⟨path, node⟩ := entry
    unfold readRecords at h
    split at h
    next hskip =>
      refine forall_mem_cons.mpr ⟨?_, ih h⟩
      intro hsource
      simp only [isSource, Bool.not_eq_true', Bool.or_eq_false_iff, decide_eq_false_iff_not] at hsource
      exact absurd hskip (not_or.mpr hsource)
    next =>
      obtain ⟨hspecial, h⟩ := guard_ok h
      obtain ⟨data, -, h⟩ := bind_ok h
      obtain ⟨others, hothers, -⟩ := bind_ok h
      exact forall_mem_cons.mpr ⟨fun _ => hspecial, ih hothers⟩

variable (tree shelf) in
/-- The records of a tree, before they are sorted. -/
def sourceRecords : List (IndexDocument × Bytes) := (tree.entries.filter isSource).map (recordOf shelf)

variable (tree shelf) in
def sortedRecords : List (IndexDocument × Bytes) :=
  sortBy (fun record => record.1.identity)
    (((sortBy (fun entry => [code (asPosix entry.1)]) tree.entries).filter isSource).map (recordOf shelf))

theorem perm_sortedRecords : (sortedRecords tree shelf).Perm (sourceRecords tree shelf) := by
  refine (perm_sortBy _ _).trans ?_
  exact ((perm_sortBy _ tree.entries).filter isSource).map (recordOf shelf)

theorem sourceDocuments_ok (hsafe : Safe tree.entries) :
    sourceDocuments tree shelf = .ok (sortedRecords tree shelf) := by
  have hsub : ∀ entry ∈ sortBy (fun entry => [code (asPosix entry.1)]) tree.entries, entry ∈ tree.entries :=
    fun entry hentry => mem_sortBy.mp hentry
  unfold sourceDocuments
  rw [readRecords_ok hsub fun entry hentry => hsafe entry (hsub entry hentry)]
  rfl

theorem safe_of_sourceDocuments {records : List (IndexDocument × Bytes)}
    (h : sourceDocuments tree shelf = .ok records) : Safe tree.entries := by
  obtain ⟨found, hfound, -⟩ := bind_ok h
  have hsafe := safe_of_readRecords hfound
  exact fun entry hentry => hsafe entry (mem_sortBy.mpr hentry)

theorem mem_sortedRecords {record : IndexDocument × Bytes} (h : record ∈ sortedRecords tree shelf) :
    ∃ entry ∈ tree.entries, isSource entry = true ∧ record = recordOf shelf entry := by
  obtain ⟨entry, hentry, rfl⟩ := mem_map.mp (perm_sortedRecords.mem_iff.mp h)
  obtain ⟨hmem, hsource⟩ := mem_filter.mp hentry
  exact ⟨entry, hmem, hsource, rfl⟩

theorem code_injective : Function.Injective code := map_injective_iff.mpr fun _ _ h => Char.toNat_inj.mp h

theorem nodup_identities : ((sortedRecords tree shelf).map fun record => record.1.identity).Nodup := by
  have hperm := (@perm_sortedRecords tree shelf).map fun record => record.1.identity
  rw [hperm.nodup_iff]
  unfold sourceRecords
  rw [map_map]
  refine List.Nodup.map_on ?_ ((List.Nodup.of_map _ tree.distinct).filter _)
  intro a ha b hb heq
  have ha' := (mem_filter.mp ha).1
  have hb' := (mem_filter.mp hb).1
  obtain ⟨hane, hanames⟩ := tree.named a ha'
  obtain ⟨hbne, hbnames⟩ := tree.named b hb'
  simp only [Function.comp, recordOf, documentOf, IndexDocument.identity, List.cons.injEq, true_and, and_true] at heq
  have hpath : a.1 = b.1 := by
    rw [← posixParts_asPosix hane hanames, ← posixParts_asPosix hbne hbnames, code_injective heq.1]
  exact inj_on_of_nodup_map tree.distinct ha' hb' hpath

theorem sorted_identities : (sortedRecords tree shelf).Pairwise fun a b => a.1.identity ≤ b.1.identity :=
  pairwise_sortBy _ _

theorem octets_sortedRecords : ∀ data ∈ (sortedRecords tree shelf).map Prod.snd, ∀ octet ∈ data, octet < 256 := by
  intro data hdata
  obtain ⟨record, hrecord, rfl⟩ := mem_map.mp hdata
  obtain ⟨entry, hentry, -, rfl⟩ := mem_sortedRecords hrecord
  exact tree.octets entry hentry

theorem validDocument_sorted {record : IndexDocument × Bytes} (h : record ∈ sortedRecords tree shelf) :
    validDocument shelf record.1 = true := by
  obtain ⟨entry, hentry, -, rfl⟩ := mem_sortedRecords h
  obtain ⟨hne, hparts⟩ := tree.named entry hentry
  obtain ⟨hpath, hhead⟩ := head_asPosix hne hparts
  have hnul : '\x00' ∉ asPosix entry.1 := by
    intro hmem
    rcases mem_asPosix hmem with heq | ⟨part, hpart, hmem⟩
    · cases heq
    · exact (isComponent_spec (hparts part hpart)).2.2.2.2 hmem
  have hdots : ['.', '.'] ∉ posixParts (asPosix entry.1) := by
    rw [posixParts_asPosix hne hparts]
    exact fun hmem => (isComponent_spec (hparts _ hmem)).2.2.1 rfl
  have hsha : (gitBlobSha entry.2.data).length = 40 ∧ ∀ c ∈ gitBlobSha entry.2.data, Sha1.isHexDigit c = true :=
    Sha1.hexdigest_shape _
  simp only [validDocument, recordOf, documentOf, isAbsolute, decide_true, Bool.and_true, hpath, ne_eq,
    not_false_eq_true, contains_eq_mem, hnul, decide_false, Bool.not_false, hhead, hdots, hsha.1,
    all_eq_true.mpr hsha.2]

end

end Leitir.Shelf
