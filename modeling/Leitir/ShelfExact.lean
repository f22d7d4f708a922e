import Leitir.ShelfCatalogue

namespace Leitir.Shelf

open Json ExceptRun List

variable {corpus : Materialized} {textOf : Value → Text} {shelf : ShelfRef} {store : Store}

section

variable {manifest : SourceManifest} {manifestBytes : Bytes} {documents : List IndexDocument} {postings : Postings}

theorem plain_indexValue (hnodup : (postings.map Prod.fst).Nodup) : Plain (indexValue documents postings) := by
  have hdocuments : Plain (documentsValue documents) := by
    refine plainItems_iff.mpr ?_
    intro item hitem
    obtain ⟨document, -, rfl⟩ := mem_map.mp hitem
    exact plain_documentValue document
  have hnames : ["documents", "postings", "schema_version"].Nodup := by decide
  refine ⟨hnames, plainFields_iff.mpr ?_⟩
  simp only [forall_mem_cons, not_mem_nil, false_implies, implies_true, and_true]
  exact ⟨hdocuments, plain_postingsValue hnodup, trivial⟩

def metadataNames : List String :=
  ["build_parameters", "document_table_sha256", "index_byte_length", "index_sha256", "postings_sha256", "schema_version",
    "shelf", "source_manifest_sha256", "source_tree_hash"]

theorem plain_metadataValue : Plain (metadataValue shelf manifest manifestBytes documents postings) := by
  have hidentity : Plain (identityShape.encode shelf) := (identityShape_restores shelf).plain
  have hparameters : Plain (buildParametersShape.encode buildParameters) :=
    (buildParametersShape_restores buildParameters).plain
  have hnames : metadataNames.Nodup := by decide
  refine ⟨hnames, plainFields_iff.mpr ?_⟩
  simp only [forall_mem_cons, not_mem_nil, false_implies, implies_true, and_true]
  exact ⟨hparameters, trivial, trivial, trivial, trivial, trivial, hidentity, trivial, trivial⟩

theorem get_metadata {name : String} {value : Value}
    (h : Value.get (metadataValue shelf manifest manifestBytes documents postings) name = some value)
    (hfixed : sortKeys value = value) :
    Value.get (sortKeys (metadataValue shelf manifest manifestBytes documents postings)) name = some value := by
  rw [get_sortKeys plain_metadataValue, h, Option.map_some, hfixed]

theorem get_documents (hnodup : (postings.map Prod.fst).Nodup) :
    Value.get (sortKeys (indexValue documents postings)) "documents" = some (documentsValue documents) := by
  rw [get_sortKeys (plain_indexValue hnodup), ← sortKeys_documentsValue]
  rfl

theorem get_postings (hsorted : postings.Pairwise fun a b => a.1 ≤ b.1) (hnodup : (postings.map Prod.fst).Nodup) :
    Value.get (sortKeys (indexValue documents postings)) "postings" = some (postingsValue postings) := by
  rw [get_sortKeys (plain_indexValue hnodup), ← sortKeys_postingsValue hsorted]
  rfl

theorem get_version (hnodup : (postings.map Prod.fst).Nodup) :
    Value.get (sortKeys (indexValue documents postings)) "schema_version" = some schemaVersion := by
  rw [get_sortKeys (plain_indexValue hnodup)]
  rfl

theorem bound_built (hsorted : postings.Pairwise fun a b => a.1 ≤ b.1) (hnodup : (postings.map Prod.fst).Nodup) :
    bound (sortKeys (metadataValue shelf manifest manifestBytes documents postings))
      (sortKeys (indexValue documents postings)) manifest manifestBytes
      (canonicalJson (indexValue documents postings)) = true := by
  have hparameters : (Value.get (sortKeys (metadataValue shelf manifest manifestBytes documents postings))
      "build_parameters").bind buildParametersShape.decode = some buildParameters := by
    rw [get_sortKeys plain_metadataValue]
    exact (buildParametersShape_restores buildParameters).decode
  have hsource := @get_metadata shelf manifest manifestBytes documents postings "source_manifest_sha256" _ rfl rfl
  have htree := @get_metadata shelf manifest manifestBytes documents postings "source_tree_hash" _ rfl rfl
  have htable := @get_metadata shelf manifest manifestBytes documents postings "document_table_sha256" _ rfl rfl
  have hlists := @get_metadata shelf manifest manifestBytes documents postings "postings_sha256" _ rfl rfl
  have hindex := @get_metadata shelf manifest manifestBytes documents postings "index_sha256" _ rfl rfl
  have hlength := @get_metadata shelf manifest manifestBytes documents postings "index_byte_length" _ rfl rfl
  unfold bound
  rw [get_documents hnodup, get_postings hsorted hnodup, hparameters, hsource, htree, htable, hlists, hindex, hlength]
  simp [isText, isLength, digestOf]

theorem parse_canonicalJson {value : Value} (h : Plain value) (hobject : Value.isObject value = true)
    (message label : String) :
    (parseOr message (canonicalJson value) >>= asObjectOr label) = .ok (sortKeys value) := by
  unfold parseOr
  rw [parseJson_canonicalJson h]
  cases value with
  | obj => rfl
  | null | bool | int | float | str | arr => cases hobject

end

/-- A shelf that can be indexed: its manifest is verified and eligible, and its sources are files and links. -/
structure Indexable (corpus : Materialized) (shelf : ShelfRef) : Prop where
  path : ∃ path, targetPath shelf = .ok path
  manifest : ∃ manifest, corpus.readValidManifest shelf = some manifest ∧ requireEligible manifest = .ok ()
  safe : Safe (corpus.tree shelf).entries
  manifestFile : ∃ data, (corpus.tree shelf).node [manifestName] = some (.file data)
  unlinked : corpus.linked shelf = false

/-- What an opened shelf says of the tree: its documents are the sources, and the list of every window names, in strict
order, the documents that contain it. -/
structure ExactIndex (tree : Tree) (shelf : ShelfRef) (opened : VerifiedIndexShelf) : Prop where
  documents : ∀ document, document ∈ opened.documents ↔
    ∃ entry ∈ tree.entries, isSource entry = true ∧ document = documentOf shelf (asPosix entry.1) entry.2.data
  strict : ∀ gram : Bytes, gram.length = 3 → (∀ octet ∈ gram, octet < 256) → (opened.posting gram).Pairwise (· < ·)
  exact : ∀ gram : Bytes, gram.length = 3 → (∀ octet ∈ gram, octet < 256) → ∀ id, id ∈ opened.posting gram ↔
    ∃ document data, opened.documents[id]? = some document ∧ readSourceBlob tree document.path = .ok data ∧
      gram <:+: data

def openedOf (tree : Tree) (shelf : ShelfRef) : VerifiedIndexShelf :=
  ⟨shelf, (sortedRecords tree shelf).map Prod.fst, buildPostings ((sortedRecords tree shelf).map Prod.snd)⟩

theorem readRegular_file {tree : Tree} {path : List Text} {data : Bytes} (h : tree.node path = some (.file data)) :
    readRegular tree path = .ok data := by
  unfold readRegular
  rw [h]

theorem exactIndex_openedOf {tree : Tree} (hsafe : Safe tree.entries) : ExactIndex tree shelf (openedOf tree shelf) := by
  have hexact := buildPostings_exact (@octets_sortedRecords tree shelf)
  have hposting : ∀ gram : Bytes, (∀ octet ∈ gram, octet < 256) → (openedOf tree shelf).posting gram =
      Search.buildPostings ((sortedRecords tree shelf).map Prod.snd) gram := fun gram hgram => hexact.lookup gram hgram
  refine ⟨?_, ?_, ?_⟩
  · intro document
    constructor
    · intro hdocument
      obtain ⟨record, hrecord, rfl⟩ := mem_map.mp hdocument
      obtain ⟨entry, hentry, hsource, rfl⟩ := mem_sortedRecords hrecord
      exact ⟨entry, hentry, hsource, rfl⟩
    · rintro ⟨entry, hentry, hsource, rfl⟩
      have hrecord : recordOf shelf entry ∈ sourceRecords tree shelf :=
        mem_map.mpr ⟨entry, mem_filter.mpr ⟨hentry, hsource⟩, rfl⟩
      exact mem_map.mpr ⟨_, perm_sortedRecords.mem_iff.mpr hrecord, rfl⟩
  · intro gram _ hgram
    rw [hposting gram hgram]
    exact buildPostings_strict _ _
  · intro gram hlength hgram id
    have hread : ∀ record ∈ sortedRecords tree shelf, readSourceBlob tree record.1.path = .ok record.2 := by
      intro record hrecord
      obtain ⟨entry, hentry, hsource, rfl⟩ := mem_sortedRecords hrecord
      have hnot : entry.2 ≠ .directory := by
        intro heq
        simp [isSource, heq] at hsource
      exact readSourceBlob_ok hentry hnot (hsafe entry hentry hsource)
    rw [hposting gram hgram, Search.mem_buildPostings]
    simp only [openedOf, getElem?_map, Option.map_eq_some_iff]
    constructor
    · rintro ⟨data, ⟨record, hrecord, rfl⟩, -, hinfix⟩
      exact ⟨_, _, ⟨record, hrecord, rfl⟩, hread record (mem_of_getElem? hrecord), hinfix⟩
    · rintro ⟨document, data, ⟨record, hrecord, rfl⟩, hdata, hinfix⟩
      rw [hread record (mem_of_getElem? hrecord)] at hdata
      cases hdata
      exact ⟨record.2, ⟨record, hrecord, rfl⟩, hlength, hinfix⟩

def indexOf (tree : Tree) (shelf : ShelfRef) : Value :=
  indexValue (openedOf tree shelf).documents (openedOf tree shelf).postings

def metadataOf (tree : Tree) (shelf : ShelfRef) (manifest : SourceManifest) (manifestBytes : Bytes) : Value :=
  metadataValue shelf manifest manifestBytes (openedOf tree shelf).documents (openedOf tree shelf).postings

def storedOf (tree : Tree) (shelf : ShelfRef) (manifest : SourceManifest) (manifestBytes : Bytes) : StoredShelf where
  index := canonicalJson (indexOf tree shelf)
  manifest := canonicalJson (metadataOf tree shelf manifest manifestBytes)

def indexShaOf (tree : Tree) (shelf : ShelfRef) : Text := Sha256.hexdigest (canonicalJson (indexOf tree shelf))

/-- What the building of an index has checked and written. -/
theorem buildShelfIndex_eq {path : List Search.Text} {manifest : SourceManifest} {manifestBytes catalogue : Bytes}
    (hpath : targetPath shelf = .ok path) (hmanifest : corpus.readValidManifest shelf = some manifest)
    (heligible : requireEligible manifest = .ok ()) (hsafe : Safe (corpus.tree shelf).entries)
    (hfile : (corpus.tree shelf).node [manifestName] = some (.file manifestBytes)) (hunlinked : corpus.linked shelf = false)
    (hcatalogue : updateCatalog textOf store.catalogue shelf (indexShaOf (corpus.tree shelf) shelf) = .ok catalogue) :
    buildShelfIndex corpus textOf shelf store = .ok {
      catalogue := some catalogue
      shelves := Function.update store.shelves shelf (some (storedOf (corpus.tree shelf) shelf manifest manifestBytes)) } := by
  have hverified : verifiedManifest corpus shelf = .ok manifest := by
    unfold verifiedManifest
    rw [hmanifest]
  have hlink : indexShelfPath corpus shelf = .ok () := by
    unfold indexShelfPath
    rw [hunlinked]
    rfl
  unfold buildShelfIndex
  simp only [hpath, hverified, heligible, sourceDocuments_ok hsafe, readRegular_file hfile, hlink, bind, Except.bind]
  unfold indexShaOf indexOf openedOf at hcatalogue
  rw [hcatalogue]
  rfl

theorem indexable_of_build {store' : Store} (h : buildShelfIndex corpus textOf shelf store = .ok store') :
    Indexable corpus shelf := by
  obtain ⟨path, hpath, h⟩ := bind_ok h
  obtain ⟨manifest, hmanifest, h⟩ := bind_ok h
  obtain ⟨_, heligible, h⟩ := bind_ok h
  obtain ⟨records, hrecords, h⟩ := bind_ok h
  obtain ⟨manifestBytes, hfile, h⟩ := bind_ok h
  obtain ⟨_, hlink, -⟩ := bind_ok h
  refine ⟨⟨path, hpath⟩, ⟨manifest, ?_, heligible⟩, safe_of_sourceDocuments hrecords, ⟨manifestBytes, ?_⟩, ?_⟩
  · unfold verifiedManifest at hmanifest
    split at hmanifest
    next => cases hmanifest
    next found hfound =>
      cases hmanifest
      exact hfound
  · unfold readRegular at hfile
    split at hfile
    next data hdata =>
      cases hfile
      exact hdata
    next => cases hfile
    next => cases hfile
  · unfold indexShelfPath at hlink
    obtain ⟨hunlinked, -⟩ := guard_ok hlink
    exact Bool.eq_false_iff.mpr hunlinked

theorem openVerifiedShelf_eq {path : List Search.Text} {manifest : SourceManifest} {manifestBytes : Bytes}
    {shelves entries : List Value}
    (hpath : targetPath shelf = .ok path) (hmanifest : corpus.readValidManifest shelf = some manifest)
    (heligible : requireEligible manifest = .ok ())
    (hfile : (corpus.tree shelf).node [manifestName] = some (.file manifestBytes)) (hunlinked : corpus.linked shelf = false)
    (hstored : store.shelves shelf = some (storedOf (corpus.tree shelf) shelf manifest manifestBytes))
    (hcatalogue : store.catalogue = some (canonicalJson (catalogueValue entries)))
    (hplain : ∀ item ∈ entries, Plain item)
    (hperm : (entries.map sortKeys).Perm (shelves.filter (fun item => !isAbout shelf item) ++
      [sortKeys (catalogueEntry shelf (indexShaOf (corpus.tree shelf) shelf))])) :
    openVerifiedShelf corpus shelf store = .ok (openedOf (corpus.tree shelf) shelf) := by
  have hverified : verifiedManifest corpus shelf = .ok manifest := by
    unfold verifiedManifest
    rw [hmanifest]
  have hlink : indexShelfPath corpus shelf = .ok () := by
    unfold indexShelfPath
    rw [hunlinked]
    rfl
  have hfiles : storedShelf shelf store = .ok (storedOf (corpus.tree shelf) shelf manifest manifestBytes) := by
    unfold storedShelf
    rw [hstored]
  have hexact : PostingsExact _ (openedOf (corpus.tree shelf) shelf).postings :=
    buildPostings_exact (@octets_sortedRecords (corpus.tree shelf) shelf)
  have hdocuments : readDocuments shelf (Value.get (sortKeys (indexOf (corpus.tree shelf) shelf)) "documents") =
      .ok (openedOf (corpus.tree shelf) shelf).documents := by
    rw [indexOf, get_documents hexact.nodup]
    refine readDocuments_documentsValue ?_ (pairwise_map.mpr sorted_identities) ?_
    · intro document hdocument
      obtain ⟨record, hrecord, rfl⟩ := mem_map.mp hdocument
      exact validDocument_sorted hrecord
    · rw [openedOf, map_map]
      exact nodup_identities
  have hpostings : readPostings (openedOf (corpus.tree shelf) shelf).documents.length
      (Value.get (sortKeys (indexOf (corpus.tree shelf) shelf)) "postings") =
        .ok (openedOf (corpus.tree shelf) shelf).postings := by
    rw [indexOf, get_postings hexact.sorted hexact.nodup]
    refine readPostings_postingsValue hexact.sorted (fun entry hentry => (hexact.grams entry hentry).isGram) ?_
    intro entry hentry
    obtain ⟨hstrict, hrange⟩ := hexact.ids entry hentry
    refine ⟨hstrict, fun id hid => ?_⟩
    have hlt := hrange id hid
    rw [length_map] at hlt
    rwa [openedOf, length_map]
  have habout : isAbout shelf (sortKeys (metadataOf (corpus.tree shelf) shelf manifest manifestBytes)) = true :=
    isAbout_sortKeys plain_metadataValue rfl
  have hversion : Value.get (sortKeys (metadataOf (corpus.tree shelf) shelf manifest manifestBytes)) "schema_version" =
      some schemaVersion := get_metadata rfl rfl
  have hsha : Value.get (sortKeys (metadataOf (corpus.tree shelf) shelf manifest manifestBytes)) "index_sha256" =
      some (.str (indexShaOf (corpus.tree shelf) shelf)) := get_metadata rfl rfl
  have hversion' : Value.get (sortKeys (indexOf (corpus.tree shelf) shelf)) "schema_version" = some schemaVersion :=
    get_version hexact.nodup
  have hbound : bound (sortKeys (metadataOf (corpus.tree shelf) shelf manifest manifestBytes))
      (sortKeys (indexOf (corpus.tree shelf) shelf)) manifest manifestBytes
      (storedOf (corpus.tree shelf) shelf manifest manifestBytes).index = true :=
    bound_built hexact.sorted hexact.nodup
  have hmetadata : (parseOr "index artifact is malformed JSON"
      (storedOf (corpus.tree shelf) shelf manifest manifestBytes).manifest >>= asObjectOr "index manifest") =
        .ok (sortKeys (metadataOf (corpus.tree shelf) shelf manifest manifestBytes)) :=
    parse_canonicalJson plain_metadataValue rfl _ _
  have hindex : (parseOr "index artifact is malformed JSON"
      (storedOf (corpus.tree shelf) shelf manifest manifestBytes).index >>= asObjectOr "index") =
        .ok (sortKeys (indexOf (corpus.tree shelf) shelf)) :=
    parse_canonicalJson (plain_indexValue hexact.nodup) rfl _ _
  have hdata : storedCatalogue store = .ok (canonicalJson (catalogueValue entries)) := by
    unfold storedCatalogue
    rw [hcatalogue]
  have hparsed := parse_canonicalJson (plain_catalogueValue hplain) rfl "top-level index manifest is malformed JSON"
    "top-level index manifest"
  unfold openVerifiedShelf
  rw [bind_eq hpath, bind_eq hverified, bind_eq heligible, bind_eq hlink, bind_eq hfiles, bind_eq hmetadata,
    bind_eq hindex, if_neg, if_neg, bind_eq hdata, bind_eq hparsed, bind_eq (checkCatalogue_ok hplain hperm hsha),
    bind_eq hdocuments, bind_eq hpostings, bind_eq (readRegular_file hfile), if_pos hbound]
  · rfl
  · exact not_not_intro habout
  · rw [hversion, hversion']
    exact not_not_intro ⟨rfl, rfl⟩

/-- A shelf that can be indexed gets an index; while its tree is unchanged the index of a shelf is opened, and its
documents and lists are those of the tree. -/
theorem built_index_opens_exact (corpus : Materialized) (textOf : Value → Text) (shelf : ShelfRef) (store : Store)
    (hbuilt : CatalogueBuilt textOf store.catalogue) :
    (Indexable corpus shelf → ∃ store', buildShelfIndex corpus textOf shelf store = .ok store') ∧
    ∀ store', buildShelfIndex corpus textOf shelf store = .ok store' →
      ∃ opened, openVerifiedShelf corpus shelf store' = .ok opened ∧ ExactIndex (corpus.tree shelf) shelf opened := by
  obtain ⟨shelves, hshelves, hsettled⟩ := hbuilt.settled
  obtain ⟨entries, hupdate, hperm, hall⟩ :=
    updateCatalog_ok hshelves hsettled shelf (indexShaOf (corpus.tree shelf) shelf)
  constructor
  · rintro ⟨⟨path, hpath⟩, ⟨manifest, hmanifest, heligible⟩, hsafe, ⟨data, hfile⟩, hunlinked⟩
    exact ⟨_, buildShelfIndex_eq hpath hmanifest heligible hsafe hfile hunlinked hupdate⟩
  · intro store' hstore
    obtain ⟨⟨path, hpath⟩, ⟨manifest, hmanifest, heligible⟩, hsafe, ⟨data, hfile⟩, hunlinked⟩ := indexable_of_build hstore
    rw [buildShelfIndex_eq hpath hmanifest heligible hsafe hfile hunlinked hupdate] at hstore
    cases hstore
    refine ⟨openedOf (corpus.tree shelf) shelf, ?_, exactIndex_openedOf hsafe⟩
    exact openVerifiedShelf_eq hpath hmanifest heligible hfile hunlinked (Function.update_self ..) rfl
      (fun item hitem => (hall item hitem).1) hperm

def sampleShelf : ShelfRef :=
  ⟨"github.com".toList, "owner".toList, "repo".toList, List.replicate 40 'a'⟩

def sampleTree : Tree where
  entries := [([manifestName], .file [123, 125]), (["a.py".toList], .file [97, 98, 99, 97, 98, 99])]
  distinct := by decide
  named := by decide
  parents := by
    intro entry hentry before after heq hbefore hafter
    have hone : entry.1.length = 1 := by
      simp only [List.mem_cons, List.not_mem_nil, or_false] at hentry
      rcases hentry with rfl | rfl <;> rfl
    rw [heq, List.length_append] at hone
    have := List.length_pos_iff.mpr hbefore
    have := List.length_pos_iff.mpr hafter
    omega
  octets := by decide

def sampleCorpus : Materialized where
  tree _ := sampleTree
  readValidManifest _ := some ⟨some "git-commit".toList, some "exact".toList, some "full".toList, List.replicate 64 '0'⟩
  linked _ := false

theorem indexable_sample : Indexable sampleCorpus sampleShelf := by
  refine ⟨⟨_, rfl⟩, ⟨_, rfl, rfl⟩, ?_, ⟨[123, 125], ?_⟩, rfl⟩
  · unfold Safe
    decide
  · decide

theorem built_index_opens_exact_sample :
    ∃ store' opened, buildShelfIndex sampleCorpus (fun _ => []) sampleShelf ⟨none, fun _ => none⟩ = .ok store' ∧
      openVerifiedShelf sampleCorpus sampleShelf store' = .ok opened ∧
      ExactIndex (sampleCorpus.tree sampleShelf) sampleShelf opened := by
  obtain ⟨hbuild, hopen⟩ := built_index_opens_exact sampleCorpus (fun _ => []) sampleShelf ⟨none, fun _ => none⟩ .absent
  obtain ⟨store', hstore⟩ := hbuild indexable_sample
  obtain ⟨opened, hopened, hexact⟩ := hopen store' hstore
  exact ⟨store', opened, hstore, hopened, hexact⟩

end Leitir.Shelf
