import Leitir.ShelfIndex

namespace Leitir.Shelf

open Json ExceptRun List

def documentNames : List String := ["blob_sha", "commit", "host", "owner", "path", "repo", "size"]

def isAbsolute (relative : Text) : Bool := relative.head? = some '/'

/-- A document that belongs to the shelf, below its directory. -/
def validDocument (shelf : ShelfRef) (document : IndexDocument) : Bool :=
  (document.host = shelf.host && document.owner = shelf.owner && document.repo = shelf.repo &&
    document.commit = shelf.commit) && document.path ≠ [] && !document.path.contains '\x00' &&
    !isAbsolute document.path && !(posixParts document.path).contains ['.', '.'] && document.blobSha.length = 40 &&
    document.blobSha.all Sha1.isHexDigit

def readDocument (shelf : ShelfRef) (raw : Value) : Except IndexError IndexDocument :=
  match raw with
  | .obj fields =>
    if ¬ ((∀ name ∈ documentNames, name ∈ fields.map Prod.fst) ∧ ∀ name ∈ fields.map Prod.fst, name ∈ documentNames) then
      .error (.verification "index document has an invalid shape")
    else
      match field fields "host" textShape, field fields "owner" textShape, field fields "repo" textShape,
        field fields "commit" textShape, field fields "path" textShape, field fields "blob_sha" textShape,
        fields.lookup "size" with
      | some host, some owner, some repo, some commit, some path, some blobSha, some (.int size) =>
        match size with
        | .negSucc _ => .error (.verification "index document identity is invalid")
        | .ofNat size =>
          let document : IndexDocument := ⟨host, owner, repo, commit, path, blobSha, size⟩
          if validDocument shelf document then .ok document
          else .error (.verification "index document identity is invalid")
      | _, _, _, _, _, _, _ => .error (.verification "index document has invalid field types")
  | _ => .error (.verification "index document must be a JSON object")

def readDocuments (shelf : ShelfRef) (payload : Option Value) : Except IndexError (List IndexDocument) :=
  match payload with
  | some (.arr items) => do
    let documents ← items.mapM (readDocument shelf)
    if documents.map IndexDocument.identity ≠ (documents.map IndexDocument.identity).insertionSort (· ≤ ·) then
      .error (.verification "index document table is not deterministically sorted")
    else if ¬ (documents.map IndexDocument.identity).Nodup then
      .error (.verification "index document table contains duplicates")
    else pure documents
  | _ => .error (.verification "index document table must be a list")

def isGram (gram : String) : Bool := gram.toList.length = 6 && gram.toList.all Sha1.isHexDigit

def asInt : Value → Option Int
  | .int value => some value
  | _ => none

/-- The list of one window: numbers of documents in strict order. -/
def readIds (count : Nat) (raw : Value) : Except IndexError (List Nat) :=
  match raw with
  | .arr items =>
    match items.mapM asInt with
    | none => .error (.verification "posting list contains an invalid document id")
    | some values =>
      if values ≠ values.dedup.insertionSort (· ≤ ·) ∨ values.any (fun value => value < 0 || (count : Int) ≤ value) then
        .error (.verification "posting list is not sorted, unique, and in range")
      else .ok (values.map Int.toNat)
  | _ => .error (.verification "posting list contains an invalid document id")

def readPosting (count : Nat) (entry : String × Value) : Except IndexError (String × List Nat) :=
  if isGram entry.1 then do
    let ids ← readIds count entry.2
    pure (entry.1, ids)
  else .error (.verification "postings contains an invalid trigram")

def readPostings (count : Nat) (payload : Option Value) : Except IndexError Postings :=
  match payload with
  | some (.obj fields) =>
    if fields.map Prod.fst ≠ (fields.map Prod.fst).insertionSort (· ≤ ·) then
      .error (.verification "postings keys are not sorted")
    else fields.mapM (readPosting count)
  | _ => .error (.verification "postings must be an object")

section

structure VerifiedIndexShelf where
  shelf : ShelfRef
  documents : List IndexDocument
  postings : Postings

def VerifiedIndexShelf.posting (opened : VerifiedIndexShelf) (gram : Search.Bytes) : List Nat :=
  (opened.postings.lookup (hexGram gram)).getD []

variable (corpus : Materialized) (shelf : ShelfRef) (store : Store)

def asObjectOr (label : String) : Value → Except IndexError Value
  | .obj fields => .ok (.obj fields)
  | _ => .error (.verification (label ++ " must be a JSON object"))

def storedShelf : Except IndexError StoredShelf :=
  match store.shelves shelf with
  | none => .error (.verification "cannot safely read index artifact")
  | some stored => .ok stored

def storedCatalogue : Except IndexError Bytes :=
  match store.catalogue with
  | none => .error (.verification "cannot safely read index artifact")
  | some data => .ok data

def parseOr (message : String) (data : Bytes) : Except IndexError Value :=
  match parseJson data with
  | none => .error (.verification message)
  | some value => .ok value

def isText (value : Option Value) (text : Text) : Bool :=
  match value with
  | some (.str other) => other = text
  | _ => false

def sameText (left right : Option Value) : Bool :=
  match left, right with
  | some (.str text), other => isText other text
  | none, none => true
  | _, _ => false

def isLength (value : Option Value) (length : Nat) : Bool :=
  match value with
  | some (.int other) => other = length
  | _ => false

def isSomeVersion (value : Option Value) : Bool := value.any Value.isVersion

/-- The one entry of the catalogue that is about the shelf names the digest of its index. -/
def checkCatalogue (catalogue : Value) (metadata : Value) : Except IndexError Unit :=
  match isSomeVersion (Value.get catalogue "schema_version"), Value.get catalogue "shelves" with
  | true, some (.arr items) =>
    match items.filter (isAbout shelf) with
    | [item] =>
      if sameText (Value.get item "index_sha256") (Value.get metadata "index_sha256") then .ok ()
      else .error (.verification "top-level index manifest binding mismatch")
    | _ => .error (.verification "top-level index manifest binding mismatch")
  | _, _ => .error (.verification "unsupported top-level index schema_version")

def digestOf (value : Option Value) : Text := digest (value.getD .null)

/-- Everything that the manifest of an index is bound to. -/
def bound (metadata index : Value) (manifest : SourceManifest) (sourceBytes indexBytes : Bytes) : Bool :=
  isText (Value.get metadata "source_manifest_sha256") (Sha256.hexdigest sourceBytes) &&
    isText (Value.get metadata "source_tree_hash") manifest.treeHash &&
    isText (Value.get metadata "document_table_sha256") (digestOf (Value.get index "documents")) &&
    isText (Value.get metadata "postings_sha256") (digestOf (Value.get index "postings")) &&
    isText (Value.get metadata "index_sha256") (Sha256.hexdigest indexBytes) &&
    isLength (Value.get metadata "index_byte_length") indexBytes.length &&
    ((Value.get metadata "build_parameters").bind buildParametersShape.decode) = some buildParameters

def openVerifiedShelf : Except IndexError VerifiedIndexShelf := do
  let _ ← targetPath shelf
  let manifest ← verifiedManifest corpus shelf
  requireEligible manifest
  indexShelfPath corpus shelf
  let stored ← storedShelf shelf store
  let metadata ← parseOr "index artifact is malformed JSON" stored.manifest >>= asObjectOr "index manifest"
  let index ← parseOr "index artifact is malformed JSON" stored.index >>= asObjectOr "index"
  if ¬ (isSomeVersion (Value.get metadata "schema_version") ∧ isSomeVersion (Value.get index "schema_version")) then
    .error (.verification "unsupported index schema_version")
  else if ¬ isAbout shelf metadata then .error (.verification "index shelf identity mismatch")
  else
    let data ← storedCatalogue store
    let catalogue ← parseOr "top-level index manifest is malformed JSON" data >>= asObjectOr "top-level index manifest"
    checkCatalogue shelf catalogue metadata
    let documents ← readDocuments shelf (Value.get index "documents")
    let postings ← readPostings documents.length (Value.get index "postings")
    let sourceBytes ← readRegular (corpus.tree shelf) [manifestName]
    if bound metadata index manifest sourceBytes stored.index then pure ⟨shelf, documents, postings⟩
    else .error (.verification "index manifest binding mismatch")

end

theorem hexDigit_inj : ∀ a < 16, ∀ b < 16, Sha256.hexDigit a = Sha256.hexDigit b → a = b := by decide

theorem hexOctet_inj {a b : Nat} (ha : a < 256) (hb : b < 256) (h : Sha1.hexOctet a = Sha1.hexOctet b) : a = b := by
  simp only [Sha1.hexOctet, List.cons.injEq, and_true] at h
  have hhigh := hexDigit_inj (a / 16) (by omega) (b / 16) (by omega) h.1
  have hlow := hexDigit_inj (a % 16) (by omega) (b % 16) (by omega) h.2
  omega

theorem flatMap_hexOctet_inj {xs ys : Bytes} (hx : ∀ octet ∈ xs, octet < 256) (hy : ∀ octet ∈ ys, octet < 256)
    (h : xs.flatMap Sha1.hexOctet = ys.flatMap Sha1.hexOctet) : xs = ys := by
  induction xs generalizing ys with
  | nil =>
    cases ys with
    | nil => rfl
    | cons y ys => simp [Sha1.hexOctet] at h
  | cons x xs ih =>
    cases ys with
    | nil => simp [Sha1.hexOctet] at h
    | cons y ys =>
      rw [flatMap_cons, flatMap_cons] at h
      obtain ⟨hfirst, hrest⟩ := append_inj h rfl
      obtain ⟨hx₀, hx'⟩ := forall_mem_cons.mp hx
      obtain ⟨hy₀, hy'⟩ := forall_mem_cons.mp hy
      rw [hexOctet_inj hx₀ hy₀ hfirst, ih hx' hy' hrest]

theorem hexGram_inj {xs ys : Bytes} (hx : ∀ octet ∈ xs, octet < 256) (hy : ∀ octet ∈ ys, octet < 256)
    (h : hexGram xs = hexGram ys) : xs = ys :=
  flatMap_hexOctet_inj hx hy (String.ofList_injective h)

theorem isGram_hexGram {gram : Bytes} (hlength : gram.length = 3) (hoctets : ∀ octet ∈ gram, octet < 256) :
    isGram (hexGram gram) = true := by
  have htext : (hexGram gram).toList = gram.flatMap Sha1.hexOctet := String.toList_ofList
  unfold isGram
  rw [htext, Bool.and_eq_true]
  constructor
  · have htwo : (gram.flatMap Sha1.hexOctet).length = 2 * gram.length := by
      simp [length_flatMap, Sha1.hexOctet, Nat.mul_comm]
    simp [htwo, hlength]
  · rw [all_eq_true]
    intro c hc
    obtain ⟨octet, hoctet, hc⟩ := mem_flatMap.mp hc
    exact Sha1.mem_hexOctet (hoctets octet hoctet) hc

theorem get_eq_lookup (table : Postings) (gram : String) : Grouping.get table gram = (table.lookup gram).getD [] := by
  induction table with
  | nil => rfl
  | cons entry table ih =>
    obtain ⟨other, ids⟩ := entry
    unfold Grouping.get
    rw [lookup_cons]
    by_cases h : other = gram
    · subst h
      simp
    · have hbeq : (gram == other) = false := by simpa using Ne.symm h
      rw [if_neg h, hbeq, ih]

section

theorem nodup_iterTrigrams (data : Bytes) : (Search.iterTrigrams data).Nodup := by
  unfold Search.iterTrigrams
  exact (perm_insertionSort _ _).nodup_iff.mpr (nodup_dedup _)

variable {gram : Bytes}

theorem octets_iterTrigrams {data : Bytes} (hdata : ∀ octet ∈ data, octet < 256)
    (h : gram ∈ Search.iterTrigrams data) : gram.length = 3 ∧ ∀ octet ∈ gram, octet < 256 := by
  obtain ⟨hlength, hwindow⟩ := Search.mem_iterTrigrams.mp h
  exact ⟨hlength, fun octet hoctet => hdata octet (hwindow.subset hoctet)⟩

theorem get_foldl_append {grams : List Bytes} (hnodup : grams.Nodup)
    (hgrams : ∀ gram ∈ grams, ∀ octet ∈ gram, octet < 256) (table : Postings) (id : Nat)
    (hgram : ∀ octet ∈ gram, octet < 256) :
    Grouping.get (grams.foldl (fun table gram => Grouping.append table (hexGram gram) id) table) (hexGram gram) =
      Grouping.get table (hexGram gram) ++ if gram ∈ grams then [id] else [] := by
  induction grams generalizing table with
  | nil => simp
  | cons first rest ih =>
    obtain ⟨hnot, hrest⟩ := nodup_cons.mp hnodup
    obtain ⟨hfirst, hothers⟩ := forall_mem_cons.mp hgrams
    rw [foldl_cons, ih hrest hothers, Grouping.get_append, append_assoc]
    congr 1
    by_cases heq : first = gram
    · subst heq
      simp [hnot]
    · have hhex : ¬ hexGram first = hexGram gram := fun h => heq (hexGram_inj hfirst hgram h)
      simp [hhex, Ne.symm heq]

theorem get_addDocument {entry : Bytes × Nat} (hentry : ∀ octet ∈ entry.1, octet < 256) (table : Postings) (hgram : ∀ octet ∈ gram, octet < 256) :
    Grouping.get (addDocument table entry) (hexGram gram) =
      Grouping.get table (hexGram gram) ++ if gram ∈ Search.iterTrigrams entry.1 then [entry.2] else [] :=
  get_foldl_append (nodup_iterTrigrams entry.1) (fun _ hother => (octets_iterTrigrams hentry hother).2) table
    entry.2 hgram

theorem get_foldl_addDocument {entries : List (Bytes × Nat)} (hentries : ∀ entry ∈ entries, ∀ octet ∈ entry.1, octet < 256)
    (table : Postings) (hgram : ∀ octet ∈ gram, octet < 256) :
    Grouping.get (entries.foldl addDocument table) (hexGram gram) =
      Grouping.get table (hexGram gram) ++
        (entries.filter fun entry => gram ∈ Search.iterTrigrams entry.1).map Prod.snd := by
  induction entries generalizing table with
  | nil => simp
  | cons entry entries ih =>
    obtain ⟨hentry, hothers⟩ := forall_mem_cons.mp hentries
    rw [foldl_cons, ih hothers, get_addDocument hentry table hgram, append_assoc]
    by_cases h : gram ∈ Search.iterTrigrams entry.1
    · simp [h]
    · simp [h]

theorem keys_foldl_append (grams : List Bytes) (id : Nat) {table : Postings} {P : String → Prop}
    (hgrams : ∀ gram ∈ grams, P (hexGram gram)) (h : (Grouping.keys table).Nodup ∧ ∀ key ∈ Grouping.keys table, P key) :
    (Grouping.keys (grams.foldl (fun table gram => Grouping.append table (hexGram gram) id) table)).Nodup ∧
      ∀ key ∈ Grouping.keys (grams.foldl (fun table gram => Grouping.append table (hexGram gram) id) table), P key := by
  induction grams generalizing table with
  | nil => exact h
  | cons gram grams ih =>
    obtain ⟨hgram, hothers⟩ := forall_mem_cons.mp hgrams
    rw [foldl_cons]
    refine ih hothers ⟨Grouping.nodup_append h.1 _ _, ?_⟩
    intro key hkey
    rcases Grouping.mem_keys_append.mp hkey with hkey | rfl
    · exact h.2 key hkey
    · exact hgram

def NamesGram (key : String) : Prop :=
  ∃ gram : Bytes, gram.length = 3 ∧ (∀ octet ∈ gram, octet < 256) ∧ key = hexGram gram

theorem NamesGram.isGram {key : String} (h : NamesGram key) : isGram key = true := by
  obtain ⟨gram, hlength, hoctets, rfl⟩ := h
  exact isGram_hexGram hlength hoctets

theorem keys_foldl_addDocument {entries : List (Bytes × Nat)}
    (hentries : ∀ entry ∈ entries, ∀ octet ∈ entry.1, octet < 256) {table : Postings}
    (h : (Grouping.keys table).Nodup ∧ ∀ key ∈ Grouping.keys table, NamesGram key) :
    (Grouping.keys (entries.foldl addDocument table)).Nodup ∧
      ∀ key ∈ Grouping.keys (entries.foldl addDocument table), NamesGram key := by
  induction entries generalizing table with
  | nil => exact h
  | cons entry entries ih =>
    obtain ⟨hentry, hothers⟩ := forall_mem_cons.mp hentries
    refine ih hothers (keys_foldl_append _ _ ?_ h)
    intro gram hgram
    obtain ⟨hlength, hoctets⟩ := octets_iterTrigrams hentry hgram
    exact ⟨gram, hlength, hoctets, rfl⟩

variable {documents : List Bytes}

theorem octets_zipIdx (h : ∀ data ∈ documents, ∀ octet ∈ data, octet < 256) :
    ∀ entry ∈ documents.zipIdx, ∀ octet ∈ entry.1, octet < 256 :=
  fun _ hentry => h _ (fst_mem_of_mem_zipIdx hentry)

/-- What the postings of a shelf are: sorted names of windows, and under each window the numbers of the documents that
contain it. -/
structure PostingsExact (documents : List Bytes) (postings : Postings) : Prop where
  sorted : postings.Pairwise fun a b => a.1 ≤ b.1
  nodup : (postings.map Prod.fst).Nodup
  grams : ∀ entry ∈ postings, NamesGram entry.1
  lookup : ∀ gram : Bytes, (∀ octet ∈ gram, octet < 256) →
    (postings.lookup (hexGram gram)).getD [] = Search.buildPostings documents gram

theorem buildPostings_exact (h : ∀ data ∈ documents, ∀ octet ∈ data, octet < 256) :
    PostingsExact documents (buildPostings documents) := by
  have hperm : (buildPostings documents).Perm (documents.zipIdx.foldl addDocument []) := perm_insertionSort _ _
  have hempty : (Grouping.keys ([] : Postings)).Nodup ∧ ∀ key ∈ Grouping.keys ([] : Postings), NamesGram key :=
    ⟨nodup_nil, fun _ hkey => absurd hkey not_mem_nil⟩
  obtain ⟨hnodup, hgrams⟩ := keys_foldl_addDocument (octets_zipIdx h) hempty
  have hnodup' : ((buildPostings documents).map Prod.fst).Nodup := (hperm.map Prod.fst).nodup_iff.mpr hnodup
  refine ⟨?_, hnodup', ?_, ?_⟩
  · have : Std.Total fun a b : String × List Nat => a.1 ≤ b.1 := ⟨fun a b => String.le_total a.1 b.1⟩
    have : IsTrans (String × List Nat) fun a b => a.1 ≤ b.1 := ⟨fun _ _ _ hab hbc => String.le_trans hab hbc⟩
    exact pairwise_insertionSort _ _
  · intro entry hentry
    exact hgrams entry.1 (mem_map.mpr ⟨entry, hperm.mem_iff.mp hentry, rfl⟩)
  · intro gram hgram
    rw [Json.lookup_perm hperm hnodup', ← get_eq_lookup, get_foldl_addDocument (octets_zipIdx h) [] hgram,
      Search.buildPostings_eq]
    rfl

theorem buildPostings_strict (documents : List Bytes) (gram : Bytes) :
    (Search.buildPostings documents gram).Pairwise (· < ·) := by
  have hnumbers : (documents.zipIdx.map Prod.snd).Pairwise (· < ·) := by
    rw [zipIdx_map_snd]
    exact pairwise_lt_range'
  rw [Search.buildPostings_eq]
  exact hnumbers.sublist (filter_sublist.map _)

theorem lt_of_mem_buildPostings {id : Nat} (h : id ∈ Search.buildPostings documents gram) :
    id < documents.length := by
  obtain ⟨data, hdata, -⟩ := Search.mem_buildPostings.mp h
  exact (List.getElem?_eq_some_iff.mp hdata).1

theorem PostingsExact.ids {postings : Postings} (h : PostingsExact documents postings) :
    ∀ entry ∈ postings, entry.2.Pairwise (· < ·) ∧ ∀ id ∈ entry.2, id < documents.length := by
  intro entry hentry
  obtain ⟨gram, -, hoctets, hname⟩ := h.grams entry hentry
  have hfound : postings.lookup (hexGram gram) = some entry.2 := by
    rw [Json.lookup_eq_some_iff h.nodup, ← hname]
    exact hentry
  have hids : entry.2 = Search.buildPostings documents gram := by
    rw [← h.lookup gram hoctets, hfound, Option.getD_some]
  rw [hids]
  exact ⟨buildPostings_strict documents gram, fun id hid => lt_of_mem_buildPostings hid⟩

end

end Leitir.Shelf
