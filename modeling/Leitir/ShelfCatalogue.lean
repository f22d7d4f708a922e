import Leitir.ShelfSources

namespace Leitir.Shelf

open Json ExceptRun List

section

variable {value : Value}

theorem parseJson_canonicalJson (h : Plain value) :
    parseJson (canonicalJson value) = some (sortKeys value) := by
  unfold parseJson canonicalJson
  rw [Utf8.decodeText_encodeText, Option.bind_some]
  exact loads_dumps h (Or.inr rfl)

theorem get_sortKeys (h : Plain value) (name : String) :
    Value.get (sortKeys value) name = (Value.get value name).map sortKeys := by
  cases value with
  | obj fields => exact lookup_sortedFields h.1 name
  | null | bool | int | float | str | arr => rfl

theorem plain_of_get {found : Value} (h : Plain value) {name : String} (hget : Value.get value name = some found) :
    Plain found := by
  cases value with
  | obj fields =>
    have hmem : (name, found) ∈ fields := (lookup_eq_some_iff h.1).mp hget
    exact plainFields_iff.mp h.2 _ hmem
  | null | bool | int | float | str | arr => cases hget

end

section

variable {shelf : ShelfRef} {documents : List IndexDocument}

theorem plain_documentValue (document : IndexDocument) : Plain (documentValue document) := by
  have hnames : documentNames.Nodup := by decide
  refine ⟨hnames, ?_⟩
  simp [PlainFields, PlainField, Plain]

theorem sortKeys_documentValue (document : IndexDocument) : sortKeys (documentValue document) = documentValue document := by
  have hnames : documentNames.Pairwise (· ≤ ·) := by decide
  refine sortKeys_obj ?_ hnames
  simp [sortKeys]

theorem sortKeys_documentsValue (documents : List IndexDocument) :
    sortKeys (documentsValue documents) = documentsValue documents := by
  change Value.arr (sortItems (documents.map documentValue)) = _
  rw [sortItems_eq_map, map_map]
  exact congrArg Value.arr (map_congr_left fun document _ => sortKeys_documentValue document)

theorem readDocument_documentValue {document : IndexDocument} (h : validDocument shelf document = true) :
    readDocument shelf (documentValue document) = .ok document := by
  change (if validDocument shelf document then Except.ok document else _) = _
  rw [if_pos h]

theorem readDocuments_documentsValue (hvalid : ∀ document ∈ documents, validDocument shelf document = true)
    (hsorted : documents.Pairwise fun a b => a.identity ≤ b.identity)
    (hnodup : (documents.map IndexDocument.identity).Nodup) :
    readDocuments shelf (some (documentsValue documents)) = .ok documents := by
  have hread : (documents.map documentValue).mapM (readDocument shelf) = .ok documents := by
    have hmap : documents.mapM (fun document => readDocument shelf (documentValue document)) = .ok (documents.map id) :=
      mapM_ok_map fun document hdocument => readDocument_documentValue (hvalid document hdocument)
    rw [mapM_map]
    rwa [map_id] at hmap
  have horder : (documents.map IndexDocument.identity).insertionSort (· ≤ ·) = documents.map IndexDocument.identity :=
    (pairwise_map.mpr hsorted).insertionSort_eq
  change ((documents.map documentValue).mapM (readDocument shelf) >>= _) = _
  rw [hread]
  change (if _ then _ else if _ then _ else _) = _
  rw [if_neg (not_not_intro horder.symm), if_neg (not_not_intro hnodup)]
  rfl

end

section

variable {postings : Postings} {count : Nat}

theorem sortItems_ints (ids : List Nat) : sortItems (ids.map fun id : Nat => Value.int id) = ids.map fun id : Nat => Value.int id := by
  rw [sortItems_eq_map, map_map]
  rfl

theorem keys_postingsValue (postings : Postings) :
    (postings.map fun entry => (entry.1, Value.arr (entry.2.map fun id : Nat => .int id))).map Prod.fst =
      postings.map Prod.fst := by
  rw [map_map]
  rfl

theorem plain_postingsValue (hnodup : (postings.map Prod.fst).Nodup) : Plain (postingsValue postings) := by
  refine ⟨by rwa [keys_postingsValue], plainFields_iff.mpr ?_⟩
  intro field hfield
  obtain ⟨entry, -, rfl⟩ := mem_map.mp hfield
  refine plainItems_iff.mpr ?_
  intro item hitem
  obtain ⟨id, -, rfl⟩ := mem_map.mp hitem
  trivial

theorem sortKeys_postingsValue (hsorted : postings.Pairwise fun a b => a.1 ≤ b.1) :
    sortKeys (postingsValue postings) = postingsValue postings := by
  refine sortKeys_obj ?_ ?_
  · intro field hfield
    obtain ⟨entry, -, rfl⟩ := mem_map.mp hfield
    exact congrArg Value.arr (sortItems_ints entry.2)
  · rw [keys_postingsValue]
    exact pairwise_map.mpr hsorted

theorem mapM_asInt (ids : List Nat) : (ids.map fun id : Nat => Value.int id).mapM asInt = some (ids.map fun id : Nat => (id : Int)) := by
  induction ids with
  | nil => rfl
  | cons id ids ih =>
    rw [map_cons, mapM_cons, ih]
    rfl

theorem readIds_ok {ids : List Nat} (hstrict : ids.Pairwise (· < ·)) (hrange : ∀ id ∈ ids, id < count) :
    readIds count (.arr (ids.map fun id : Nat => .int id)) = .ok ids := by
  have hvalues : (ids.map fun id : Nat => (id : Int)).Pairwise (· < ·) :=
    pairwise_map.mpr (hstrict.imp fun h => Int.ofNat_lt.mpr h)
  have hdedup : (ids.map fun id : Nat => (id : Int)).dedup = ids.map fun id : Nat => (id : Int) :=
    List.Nodup.dedup (hvalues.imp fun h => ne_of_lt h)
  have hsorted : (ids.map fun id : Nat => (id : Int)).insertionSort (· ≤ ·) = ids.map fun id : Nat => (id : Int) :=
    (hvalues.imp fun h => le_of_lt h).insertionSort_eq
  have hinside : ¬ (ids.map fun id : Nat => (id : Int)).any (fun value => value < 0 || (count : Int) ≤ value) = true := by
    rw [any_eq_true]
    rintro ⟨value, hvalue, hbad⟩
    obtain ⟨id, hid, rfl⟩ := mem_map.mp hvalue
    have hid' := hrange id hid
    simp only [Bool.or_eq_true, decide_eq_true_eq] at hbad
    omega
  unfold readIds
  simp only [mapM_asInt]
  rw [if_neg, map_map]
  · exact congrArg Except.ok (map_id ids)
  · rw [hdedup, hsorted]
    rintro (hne | hbad)
    · exact hne rfl
    · exact hinside hbad

/-- Postings in the order of their names are read back. -/
theorem readPostings_postingsValue (hsorted : postings.Pairwise fun a b => a.1 ≤ b.1)
    (hgrams : ∀ entry ∈ postings, isGram entry.1 = true)
    (hids : ∀ entry ∈ postings, entry.2.Pairwise (· < ·) ∧ ∀ id ∈ entry.2, id < count) :
    readPostings count (some (postingsValue postings)) = .ok postings := by
  have hread : (postings.map fun entry => (entry.1, Value.arr (entry.2.map fun id : Nat => .int id))).mapM (readPosting count) =
      .ok postings := by
    have hmap : postings.mapM (fun entry => readPosting count (entry.1, Value.arr (entry.2.map fun id : Nat => .int id))) =
        .ok (postings.map id) := by
      refine mapM_ok_map ?_
      intro entry hentry
      obtain ⟨hstrict, hrange⟩ := hids entry hentry
      unfold readPosting
      rw [if_pos (hgrams entry hentry), readIds_ok hstrict hrange]
      rfl
    rw [mapM_map]
    rwa [map_id] at hmap
  have hkeys : (postings.map Prod.fst).insertionSort (· ≤ ·) = postings.map Prod.fst :=
    (pairwise_map.mpr hsorted).insertionSort_eq
  change (if _ then _ else _) = _
  rw [keys_postingsValue, hkeys, if_neg (not_not_intro rfl)]
  exact hread

end

variable {textOf : Value → Text} {shelf : ShelfRef} {item : Value}

theorem identityShape_restores (shelf : ShelfRef) : identityShape.Restores shelf := by
  refine recordShape_restores rfl (by decide) ?_ ?_
  · simp [textShape_restores]
  · simp +contextual

theorem buildParametersShape_restores (parameters : BuildParameters) : buildParametersShape.Restores parameters := by
  refine recordShape_restores rfl (by decide) ?_ ?_
  · simp [textShape_restores, natShape_restores]
  · simp +contextual

theorem isAbout_sortKeys (hplain : Plain item) (h : Value.get item "shelf" = some (identityShape.encode shelf)) :
    isAbout shelf (sortKeys item) = true := by
  unfold isAbout
  rw [get_sortKeys hplain, h, Option.map_some, Option.bind_some, (identityShape_restores shelf).decode]
  exact decide_eq_true rfl

def identityNames : List String := ["host", "owner", "repo", "commit"]

theorem mapM_isSome {α β : Type} {f : α → Option β} {items : List α} :
    (items.mapM f).isSome = true ↔ ∀ item ∈ items, (f item).isSome = true := by
  induction items with
  | nil => simp
  | cons item items ih =>
    rw [mapM_cons, forall_mem_cons, ← ih]
    cases hitem : f item with
    | none => simp
    | some value =>
      cases hrest : items.mapM f with
      | none => simp
      | some values => simp

theorem catalogueKey_isSome : (catalogueKey textOf item).isSome = true ↔
    ∃ identity, Value.get item "shelf" = some identity ∧
      ∀ name ∈ identityNames, (Value.get identity name).isSome = true := by
  unfold catalogueKey
  cases hidentity : Value.get item "shelf" with
  | none => simp
  | some identity =>
    change Option.isSome (identityNames.mapM fun name =>
      (Value.get identity name).map fun value => code (Value.text textOf value)) = true ↔ _
    rw [mapM_isSome]
    simp

/-- An entry of the catalogue as it is read back. -/
structure Settled (textOf : Value → Text) (item : Value) : Prop where
  plain : Plain item
  keyed : (catalogueKey textOf item).isSome = true
  fixed : sortKeys item = item

theorem keyed_sortKeys (hplain : Plain item) (h : (catalogueKey textOf item).isSome = true) :
    (catalogueKey textOf (sortKeys item)).isSome = true := by
  rw [catalogueKey_isSome] at h ⊢
  obtain ⟨identity, hidentity, hnames⟩ := h
  have hidentity' : Plain identity := plain_of_get hplain hidentity
  refine ⟨sortKeys identity, by rw [get_sortKeys hplain, hidentity, Option.map_some], ?_⟩
  intro name hname
  rw [get_sortKeys hidentity', Option.isSome_map]
  exact hnames name hname

theorem settled_sortKeys (hplain : Plain item) (hkeyed : (catalogueKey textOf item).isSome = true) :
    Settled textOf (sortKeys item) :=
  ⟨plain_sortKeys item hplain, keyed_sortKeys hplain hkeyed, sortKeys_sortKeys item⟩

theorem isObject_of_keyed (h : (catalogueKey textOf item).isSome = true) : Value.isObject item = true := by
  obtain ⟨identity, hidentity, -⟩ := catalogueKey_isSome.mp h
  cases item with
  | obj => rfl
  | null | bool | int | float | str | arr => cases hidentity

theorem plain_catalogueEntry (shelf : ShelfRef) (indexSha : Text) : Plain (catalogueEntry shelf indexSha) := by
  have hidentity : Plain (identityShape.encode shelf) := (identityShape_restores shelf).plain
  have hnames : ["index_sha256", "shelf"].Nodup := by decide
  refine ⟨hnames, ?_⟩
  simp [PlainFields, PlainField, Plain, hidentity]

theorem keyed_catalogueEntry (shelf : ShelfRef) (indexSha : Text) :
    (catalogueKey textOf (catalogueEntry shelf indexSha)).isSome = true := by
  rw [catalogueKey_isSome]
  refine ⟨identityShape.encode shelf, rfl, ?_⟩
  simp only [identityNames, forall_mem_cons, not_mem_nil, false_implies, implies_true, and_true]
  exact ⟨rfl, rfl, rfl, rfl⟩

section

variable {entries shelves : List Value} {catalogue : Option Bytes}

theorem plain_catalogueValue (h : ∀ item ∈ entries, Plain item) : Plain (catalogueValue entries) := by
  have hnames : ["schema_version", "shelves"].Nodup := by decide
  have hitems : Plain (.arr entries) := plainItems_iff.mpr h
  refine ⟨hnames, ?_⟩
  simp [PlainFields, PlainField, schemaVersion, Plain]
  exact hitems

theorem get_catalogueValue (h : ∀ item ∈ entries, Plain item) :
    Value.get (sortKeys (catalogueValue entries)) "schema_version" = some schemaVersion ∧
      Value.get (sortKeys (catalogueValue entries)) "shelves" = some (.arr (entries.map sortKeys)) := by
  have hplain := plain_catalogueValue h
  constructor
  · rw [get_sortKeys hplain]
    rfl
  · rw [get_sortKeys hplain]
    change some (Value.arr (sortItems entries)) = _
    rw [sortItems_eq_map]

theorem catalogueShelves_canonical (hplain : ∀ item ∈ entries, Plain item)
    (hkeyed : ∀ item ∈ entries, (catalogueKey textOf item).isSome = true) :
    catalogueShelves (some (canonicalJson (catalogueValue entries))) = .ok (entries.map sortKeys) := by
  obtain ⟨hversion, hshelves⟩ := get_catalogueValue hplain
  have hobjects : (entries.map sortKeys).filter Value.isObject = entries.map sortKeys := by
    rw [filter_eq_self]
    intro value hvalue
    obtain ⟨item, hitem, rfl⟩ := mem_map.mp hvalue
    exact isObject_of_keyed (keyed_sortKeys (hplain item hitem) (hkeyed item hitem))
  unfold catalogueShelves
  simp only [parseJson_canonicalJson (plain_catalogueValue hplain), hversion, hshelves]
  have hone : Value.isVersion schemaVersion = true := rfl
  rw [if_pos hone, hobjects]

/-- The entries after a shelf is entered: its own entry and those of the other shelves. -/
theorem updateCatalog_ok (hshelves : catalogueShelves catalogue = .ok shelves)
    (hsettled : ∀ item ∈ shelves, Settled textOf item) (shelf : ShelfRef) (indexSha : Text) :
    ∃ entries, updateCatalog textOf catalogue shelf indexSha = .ok (canonicalJson (catalogueValue entries)) ∧
      (entries.map sortKeys).Perm
        (shelves.filter (fun item => !isAbout shelf item) ++ [sortKeys (catalogueEntry shelf indexSha)]) ∧
      ∀ item ∈ entries, Plain item ∧ (catalogueKey textOf item).isSome = true := by
  have hall : ∀ item ∈ shelves.filter (fun item => !isAbout shelf item) ++ [catalogueEntry shelf indexSha],
      Plain item ∧ (catalogueKey textOf item).isSome = true := by
    intro item hitem
    rcases mem_append.mp hitem with hitem | hitem
    · have hkept := hsettled item (mem_filter.mp hitem).1
      exact ⟨hkept.plain, hkept.keyed⟩
    · rw [mem_singleton] at hitem
      subst hitem
      exact ⟨plain_catalogueEntry shelf indexSha, keyed_catalogueEntry shelf indexSha⟩
  have hfixed : (shelves.filter fun item => !isAbout shelf item).map sortKeys =
      shelves.filter fun item => !isAbout shelf item := by
    refine (map_congr_left ?_).trans (map_id _)
    intro item hitem
    exact (hsettled item (mem_filter.mp hitem).1).fixed
  have hperm := KeyedList.perm_sortBy (fun item => (catalogueKey textOf item).getD [])
    (shelves.filter (fun item => !isAbout shelf item) ++ [catalogueEntry shelf indexSha])
  have hmap := hperm.map sortKeys
  rw [map_append, map_singleton, hfixed] at hmap
  have hrun : updateCatalog textOf catalogue shelf indexSha = .ok (canonicalJson (catalogueValue
      (KeyedList.sortBy (fun item => (catalogueKey textOf item).getD [])
        (shelves.filter (fun item => !isAbout shelf item) ++ [catalogueEntry shelf indexSha])))) := by
    unfold updateCatalog
    rw [hshelves]
    change (if _ then _ else _) = _
    rw [if_pos (all_eq_true.mpr fun item hitem => (hall item hitem).2)]
    rfl
  exact ⟨_, hrun, hmap, fun item hitem => hall item (hperm.mem_iff.mp hitem)⟩

variable (textOf) in
/-- A catalogue that was written by entering shelves, one after the other. -/
inductive CatalogueBuilt : Option Bytes → Prop
  | absent : CatalogueBuilt none
  | update {catalogue : Option Bytes} {data : Bytes} (h : CatalogueBuilt catalogue) (shelf : ShelfRef) (indexSha : Text)
    (hupdate : updateCatalog textOf catalogue shelf indexSha = .ok data) : CatalogueBuilt (some data)

theorem CatalogueBuilt.settled (h : CatalogueBuilt textOf catalogue) :
    ∃ shelves, catalogueShelves catalogue = .ok shelves ∧ ∀ item ∈ shelves, Settled textOf item := by
  induction h with
  | absent => exact ⟨[], rfl, fun item hitem => absurd hitem not_mem_nil⟩
  | @update catalogue data h shelf indexSha hupdate ih =>
    obtain ⟨shelves, hshelves, hsettled⟩ := ih
    obtain ⟨entries, hentries, -, hall⟩ := updateCatalog_ok hshelves hsettled shelf indexSha
    rw [hentries] at hupdate
    cases hupdate
    refine ⟨_, catalogueShelves_canonical (fun item hitem => (hall item hitem).1) fun item hitem => (hall item hitem).2, ?_⟩
    intro value hvalue
    obtain ⟨item, hitem, rfl⟩ := mem_map.mp hvalue
    exact settled_sortKeys (hall item hitem).1 (hall item hitem).2

/-- The entry of a shelf that was just entered is the only one about it, and names the digest of its index. -/
theorem checkCatalogue_ok {metadata : Value} {indexSha : Text} (hplain : ∀ item ∈ entries, Plain item)
    (hperm : (entries.map sortKeys).Perm
      (shelves.filter (fun item => !isAbout shelf item) ++ [sortKeys (catalogueEntry shelf indexSha)]))
    (hmetadata : Value.get metadata "index_sha256" = some (.str indexSha)) :
    checkCatalogue shelf (sortKeys (catalogueValue entries)) metadata = .ok () := by
  obtain ⟨hversion, hshelves⟩ := get_catalogueValue hplain
  have hentry := plain_catalogueEntry shelf indexSha
  have habout : isAbout shelf (sortKeys (catalogueEntry shelf indexSha)) = true := isAbout_sortKeys hentry rfl
  have hothers : (shelves.filter fun item => !isAbout shelf item).filter (isAbout shelf) = [] := by
    rw [filter_eq_nil_iff]
    intro item hitem
    have hnot := (mem_filter.mp hitem).2
    simpa using hnot
  have hone : (entries.map sortKeys).filter (isAbout shelf) = [sortKeys (catalogueEntry shelf indexSha)] := by
    have hfilter := hperm.filter (isAbout shelf)
    rw [filter_append, hothers, nil_append, filter_cons_of_pos habout, filter_nil] at hfilter
    exact perm_singleton.mp hfilter
  have hsha : Value.get (sortKeys (catalogueEntry shelf indexSha)) "index_sha256" = some (.str indexSha) := by
    rw [get_sortKeys hentry]
    rfl
  unfold checkCatalogue
  rw [hversion, hshelves, show isSomeVersion (some schemaVersion) = true from rfl]
  dsimp only
  rw [hone]
  change (if sameText (Value.get (sortKeys (catalogueEntry shelf indexSha)) "index_sha256") _ then _ else _) = _
  rw [hsha, hmetadata, if_pos]
  exact decide_eq_true rfl

end

end Leitir.Shelf
