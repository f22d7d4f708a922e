import Leitir.ShelfSources
import Leitir.SnapshotFaithful

namespace Leitir.Snapshot

open List

open FileTree (Node Tree)
open Archive (Name Path)
open Shelf (asPosix code)

section

variable {α : Type} {mark stop : α}

def joined (mark stop : α) (record : List α × List α) : List α := record.1 ++ mark :: (record.2 ++ [stop])

/-- Records without the mark in a head and without the stop in a body are told apart. -/
theorem joined_injective {records others : List (List α × List α)}
    (hrecords : ∀ record ∈ records, mark ∉ record.1 ∧ stop ∉ record.2)
    (hothers : ∀ record ∈ others, mark ∉ record.1 ∧ stop ∉ record.2)
    (h : records.flatMap (joined mark stop) = others.flatMap (joined mark stop)) : records = others := by
  induction records generalizing others with
  | nil =>
    cases others with
    | nil => rfl
    | cons other others => simp [joined] at h
  | cons record records ih =>
    cases others with
    | nil => simp [joined] at h
    | cons other others =>
      obtain ⟨hmark, hstop⟩ := hrecords record mem_cons_self
      obtain ⟨hmark', hstop'⟩ := hothers other mem_cons_self
      simp only [flatMap_cons, joined, append_assoc, cons_append, nil_append] at h
      -- the first mark ends the head, and the first stop after it ends the body
      obtain ⟨hhead, hrest⟩ := LineCut.append_cons_unique hmark hmark' h
      obtain ⟨hbody, htail⟩ := LineCut.append_cons_unique hstop hstop' hrest
      have hsame : record = other := Prod.ext hhead hbody
      have hall := ih (fun r hr => hrecords r (mem_cons_of_mem _ hr)) (fun r hr => hothers r (mem_cons_of_mem _ hr))
        htail
      rw [hsame, hall]

theorem eq_of_map_eq {β : Type} {f : α → β} {xs ys : List α} (hinj : ∀ x ∈ xs, ∀ y ∈ ys, f x = f y → x = y)
    (h : xs.map f = ys.map f) : xs = ys := by
  induction xs generalizing ys with
  | nil => exact (map_eq_nil_iff.mp h.symm).symm
  | cons x xs ih =>
    cases ys with
    | nil => cases h
    | cons y ys =>
      obtain ⟨hhead, htail⟩ := List.cons.inj h
      have hrest := ih (fun a ha b hb => hinj a (mem_cons_of_mem _ ha) b (mem_cons_of_mem _ hb)) htail
      rw [hinj x mem_cons_self y mem_cons_self hhead, hrest]

end

section

/-- The modes of a record. -/
inductive GitMode
  | regular | executable | link
deriving DecidableEq, Repr

def GitMode.text : GitMode → Name
  | .regular => "100644 ".toList
  | .executable => "100755 ".toList
  | .link => "120000 ".toList

def treeEntry : Path × Node → Option (GitMode × Path × List Nat)
  | (path, .link target) => some (.link, path, encode target)
  | (path, .file mode data) => some (if mode &&& 0o111 ≠ 0 then .executable else .regular, path, data)
  | (_, .directory _) => none

def treeEntries (tree : Tree) (place : Path) : List (GitMode × Path × List Nat) := (below tree place).filterMap treeEntry

variable {codec : Codec} {tree : Tree} {place : Path}

def recordOf (codec : Codec) (entry : GitMode × Path × List Nat) : Name × Name :=
  (entry.1.text ++ asPosix entry.2.1, codec.gitBlobSha entry.2.2)

theorem treeRecord_eq (codec : Codec) (item : Path × Node) :
    treeRecord codec item = ((treeEntry item).map (recordOf codec)).toList.flatMap (joined '\x00' '\n') := by
  obtain ⟨path, node⟩ := item
  cases node with
  | directory mode => rfl
  | link target =>
    change GitMode.link.text ++ asPosix path ++ '\x00' :: codec.gitBlobSha (encode target) ++ ['\n'] = _
    simp only [treeEntry, recordOf, joined, Option.map_some, Option.toList_some, flatMap_singleton, append_assoc,
      cons_append]
  | file mode data =>
    have hmode : (if mode &&& 0o111 ≠ 0 then GitMode.executable else .regular).text =
        if mode &&& 0o111 ≠ 0 then "100755 ".toList else "100644 ".toList := apply_ite _ _ _ _
    change (if mode &&& 0o111 ≠ 0 then "100755 ".toList else "100644 ".toList) ++ asPosix path ++
      '\x00' :: codec.gitBlobSha data ++ ['\n'] = _
    simp only [← hmode, treeEntry, recordOf, joined, Option.map_some, Option.toList_some, flatMap_singleton,
      append_assoc, cons_append]

theorem records_eq (codec : Codec) (items : List (Path × Node)) :
    items.flatMap (treeRecord codec) = ((items.filterMap treeEntry).map (recordOf codec)).flatMap (joined '\x00' '\n') := by
  induction items with
  | nil => rfl
  | cons item items ih =>
    rw [flatMap_cons, treeRecord_eq, ih]
    cases hentry : treeEntry item with
    | none => simp [hentry]
    | some entry => simp [hentry]

theorem encode_injective : Function.Injective encode := by
  intro text other h
  have htext : ∀ name : Name, encode name = Utf8.encodeText name := fun name => flatMap_map _ _ name
  rw [htext, htext] at h
  exact Utf8.encodeText_injective h

def HostNames (tree : Tree) : Prop := ∀ item ∈ tree, ∀ part ∈ item.1, Plain part ∧ '\x00' ∉ part

theorem treeEntries_named (hnames : HostNames tree) {entry : GitMode × Path × List Nat} (h : entry ∈ treeEntries tree place) :
    entry.2.1 ≠ [] ∧ ∀ part ∈ entry.2.1, Plain part ∧ '\x00' ∉ part := by
  obtain ⟨item, hitem, hentry⟩ := mem_filterMap.mp h
  have hpath : entry.2.1 = item.1 := by
    obtain ⟨path, node⟩ := item
    cases node with
    | directory mode => cases hentry
    | link target => cases hentry; rfl
    | file mode data => cases hentry; rfl
  obtain ⟨source, hsource, hbelow⟩ := mem_filterMap.mp (KeyedList.mem_sortBy.mp hitem)
  split at hbelow
  next hin =>
    cases Option.some.inj hbelow
    obtain ⟨⟨rest, hrest⟩, hne⟩ := hin
    rw [← hrest, drop_left] at hpath
    rw [hpath]
    refine ⟨?_, fun part hpart => hnames source hsource part ?_⟩
    · rintro rfl
      rw [append_nil] at hrest
      exact hne hrest.symm
    · rw [← hrest]
      exact mem_append_right _ hpart
  next => cases hbelow

theorem text_injective : Function.Injective GitMode.text := by
  intro mode other h
  cases mode <;> cases other <;> first | rfl | exact absurd h (by decide)

theorem length_text (mode : GitMode) : mode.text.length = 7 := by
  cases mode <;> rfl

theorem mark_text (mode : GitMode) : '\x00' ∉ mode.text := by
  cases mode <;> decide

variable {other : Tree} {otherPlace : Path}

theorem recordOf_marks (hdigits : ∀ data, '\n' ∉ codec.gitBlobSha data) (hnames : HostNames tree)
    {record : Name × Name} (h : record ∈ (treeEntries tree place).map (recordOf codec)) :
    '\x00' ∉ record.1 ∧ '\n' ∉ record.2 := by
  obtain ⟨entry, hentry, rfl⟩ := mem_map.mp h
  obtain ⟨-, hparts⟩ := treeEntries_named hnames hentry
  refine ⟨fun hmark => ?_, hdigits _⟩
  rcases mem_append.mp hmark with hmark | hmark
  · exact mark_text _ hmark
  · rcases Shelf.mem_asPosix hmark with hslash | ⟨part, hpart, hmark⟩
    · exact absurd hslash (by decide)
    · exact (hparts part hpart).2 hmark

theorem recordOf_inj {entry entry' : GitMode × Path × List Nat}
    (hnamed : entry.2.1 ≠ [] ∧ ∀ part ∈ entry.2.1, Plain part ∧ '\x00' ∉ part)
    (hnamed' : entry'.2.1 ≠ [] ∧ ∀ part ∈ entry'.2.1, Plain part ∧ '\x00' ∉ part)
    (hblob : codec.gitBlobSha entry.2.2 = codec.gitBlobSha entry'.2.2 → entry.2.2 = entry'.2.2)
    (h : recordOf codec entry = recordOf codec entry') : entry = entry' := by
  obtain ⟨hhead, hbody⟩ := Prod.mk.inj h
  have hlength : entry.1.text.length = entry'.1.text.length := by rw [length_text, length_text]
  obtain ⟨htext, hposix⟩ := append_inj hhead hlength
  have hpath := posix_injective hnamed.1 (fun part hpart => (hnamed.2 part hpart).1) hnamed'.1
    (fun part hpart => (hnamed'.2 part hpart).1) hposix
  exact Prod.ext (text_injective htext) (Prod.ext hpath (hblob hbody))

def treeText (codec : Codec) (tree : Tree) (place : Path) : List Nat := encode ((below tree place).flatMap (treeRecord codec))

/-- Two shelves with one digest have the same entries, where the digests are injective on what the two shelves digest. -/
theorem treeEntries_of_treeSha (codec : Codec) (hdigits : ∀ data, '\n' ∉ codec.gitBlobSha data)
    (tree other : Tree) (hnames : HostNames tree) (hnames' : HostNames other) (place otherPlace : Path)
    (hblob : Set.InjOn codec.gitBlobSha
      {data | data ∈ (treeEntries tree place ++ treeEntries other otherPlace).map fun entry => entry.2.2})
    (hsha : Set.InjOn codec.sha256 {treeText codec tree place, treeText codec other otherPlace})
    (h : treeSha codec (below tree place) = treeSha codec (below other otherPlace)) :
    treeEntries tree place = treeEntries other otherPlace := by
  have htexts := encode_injective (hsha (Set.mem_insert _ _) (Set.mem_insert_of_mem _ rfl) h)
  rw [records_eq, records_eq] at htexts
  have hrecords := joined_injective (fun _ => recordOf_marks hdigits hnames) (fun _ => recordOf_marks hdigits hnames') htexts
  refine eq_of_map_eq (fun entry hentry entry' hentry' heq => ?_) hrecords
  have hleft : entry.2.2 ∈ (treeEntries tree place ++ treeEntries other otherPlace).map fun entry => entry.2.2 :=
    mem_map_of_mem (mem_append_left _ hentry)
  have hright : entry'.2.2 ∈ (treeEntries tree place ++ treeEntries other otherPlace).map fun entry => entry.2.2 :=
    mem_map_of_mem (mem_append_right _ hentry')
  exact recordOf_inj (treeEntries_named hnames hentry) (treeEntries_named hnames' hentry') (hblob hleft hright) heq

/-- A shelf beside one with a narrower mode and an empty directory. -/
def narrowTree : Tree :=
  [(["a".toList], .directory 0o755), (["a".toList, "m".toList], .file 0o600 [123, 125]),
    (["a".toList, "x".toList], .file 0o755 [10])]

def wideTree : Tree :=
  [(["b".toList], .directory 0o755), (["b".toList, "m".toList], .file 0o644 [123, 125]),
    (["b".toList, "e".toList], .directory 0o755), (["b".toList, "x".toList], .file 0o711 [10])]

theorem treeEntries_narrow : treeEntries narrowTree ["a".toList] =
    [(.regular, ["m".toList], [123, 125]), (.executable, ["x".toList], [10])] := by decide

theorem treeEntries_wide : treeEntries wideTree ["b".toList] =
    [(.regular, ["m".toList], [123, 125]), (.executable, ["x".toList], [10])] := by decide

theorem treeText_eq (codec : Codec) (tree : Tree) (place : Path) :
    treeText codec tree place = encode (((treeEntries tree place).map (recordOf codec)).flatMap (joined '\x00' '\n')) := by
  unfold treeText treeEntries
  rw [records_eq]

theorem digits_plainCodec (data : List Nat) : '\n' ∉ plainCodec.gitBlobSha data := by
  intro h
  exact absurd ((Sha1.hexdigest_shape _).2 _ h) (by decide)

theorem treeEntries_of_treeSha_wide :
    (∀ data, '\n' ∉ plainCodec.gitBlobSha data) ∧ HostNames narrowTree ∧ HostNames wideTree ∧
      treeSha plainCodec (below narrowTree ["a".toList]) = treeSha plainCodec (below wideTree ["b".toList]) ∧
      treeEntries narrowTree ["a".toList] = treeEntries wideTree ["b".toList] := by
  have hnarrow : HostNames narrowTree := by unfold HostNames Plain; decide
  have hwide : HostNames wideTree := by unfold HostNames Plain; decide
  have htext : treeText plainCodec narrowTree ["a".toList] = treeText plainCodec wideTree ["b".toList] := by
    rw [treeText_eq, treeText_eq, treeEntries_narrow, treeEntries_wide]
  have hsha : treeSha plainCodec (below narrowTree ["a".toList]) = treeSha plainCodec (below wideTree ["b".toList]) :=
    congrArg plainCodec.sha256 htext
  have hcollide : plainCodec.gitBlobSha [123, 125] ≠ plainCodec.gitBlobSha [10] := by decide +kernel
  refine ⟨digits_plainCodec, hnarrow, hwide, hsha, ?_⟩
  refine treeEntries_of_treeSha plainCodec digits_plainCodec narrowTree wideTree hnarrow hwide _ _ ?_ ?_ hsha
  · rw [treeEntries_narrow, treeEntries_wide]
    intro a ha b hb heq
    have hsplit : ∀ data, data ∈ [[123, 125], [10], [123, 125], [10]] → data = [123, 125] ∨ data = [10] := by simp
    rcases hsplit a ha with rfl | rfl <;> rcases hsplit b hb with rfl | rfl
    · rfl
    · exact absurd heq hcollide
    · exact absurd heq.symm hcollide
    · rfl
  · rw [htext, Set.pair_eq_singleton]
    exact Set.injOn_singleton _ _

end

end Leitir.Snapshot
