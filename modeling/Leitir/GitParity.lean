import Leitir.ShelfIndex

namespace Leitir.GitParity

open List KeyedList

open Shelf (gitBlobSha)

abbrev Name := List Char

abbrev Bytes := List Nat

def isHex (ch : Char) : Bool := ch ∈ "0123456789abcdefABCDEF".toList

structure BlobEntry where
  path : Name
  blobSha : Name
  size : Nat
  mode : Option Name
  path_named : path ≠ []
  sha_hex : blobSha.length = 40 ∧ blobSha.all isHex = true
deriving DecidableEq

/-- What stands below the staging directory: regular files, symbolic links with
their targets, and everything else. -/
inductive Node
  | file (data : Bytes)
  | link (target : Bytes)
  | other
deriving DecidableEq

/-- The extracted directory, by the relative path of everything below it. -/
structure Staging where
  nodes : List (Name × Node)
  distinct : (nodes.map Prod.fst).Nodup

inductive Failure
  | value (message : String)
  | verification (message : Name)
  | attribute
  | source (message : Name)
deriving DecidableEq

abbrev Call (σ α : Type) := StateT σ (Except Failure) α

/-- A source of one commit's tree; the two ways to read a blob again may be missing. -/
structure TreeSource (σ : Type) where
  listBlobs : Call σ (List BlobEntry)
  readBlobAtCommit : Option (Name → Call σ Bytes)
  readBlob : Option (Name → Call σ Bytes)

section

variable (staging : Staging) (excludedPaths : List Name)

def extracted : List (Name × Bytes) :=
  staging.nodes.filterMap fun (path, node) =>
    match node with
    | .file data => if path ∈ excludedPaths then none else some (path, data)
    | _ => none

def extractedSymlinks : List (Name × Bytes) :=
  staging.nodes.filterMap fun (path, node) =>
    match node with
    | .link target => if path ∈ excludedPaths then none else some (path, target)
    | _ => none

end

def paths {α : Type} (items : List (Name × α)) : List Name := items.map Prod.fst

def entryPaths (entries : List BlobEntry) : List Name := entries.map (·.path)

def sortedPaths (names : List Name) : List Name := sortBy (fun name => [name.map Char.toNat]) names

def failed {α : Type} (text : String) (path : Name) : Except Failure α := .error (.verification (text.toList ++ path))

/-- The entries of a listing by path, none of which may come twice. -/
def collectExpected : List BlobEntry → List BlobEntry → Except Failure (List BlobEntry)
  | expected, [] => .ok expected
  | expected, entry :: rest =>
    if entry.path ∈ entryPaths expected then failed "duplicate blob path in Git tree: " entry.path
    else collectExpected (expected ++ [entry]) rest

def modesAvailable (entries : List BlobEntry) : Bool := entries.all fun entry => entry.mode.isSome

def hasMode (start : String) (entry : BlobEntry) : Bool :=
  match entry.mode with
  | none => false
  | some mode => start.toList.isPrefixOf mode

def isRegular (entry : BlobEntry) : Bool := hasMode "100" entry

def isSymlink (entry : BlobEntry) : Bool := hasMode "120000" entry

/-- The first path by which two sets of paths differ, the missing ones before the
unexpected ones. -/
def sameUniverse (kind : String) (expected found : List Name) : Except Failure Unit :=
  match sortedPaths (expected.filter fun path => path ∉ found), sortedPaths (found.filter fun path => path ∉ expected) with
  | [], [] => .ok ()
  | path :: _, _ => failed ("missing extracted " ++ kind ++ ": ") path
  | [], path :: _ => failed ("unexpected extracted " ++ kind ++ ": ") path

/-- What is compared: the paths of the regular files with their sizes, and the
entries of the symbolic links. -/
structure Candidates where
  sizes : List (Name × Nat)
  symlinks : List BlobEntry

def candidates (files links : List (Name × Bytes)) (expected : List BlobEntry) : Except Failure Candidates :=
  if modesAvailable expected then
    match sortedPaths (entryPaths (expected.filter fun entry => ¬ (isRegular entry ∨ isSymlink entry))) with
    | path :: _ => failed "unsupported Git blob mode: " path
    | [] => do
      sameUniverse "symbolic link" (entryPaths (expected.filter isSymlink)) (paths links)
      pure ⟨(expected.filter isRegular).map fun entry => (entry.path, entry.size), expected.filter isSymlink⟩
  else .ok ⟨files.map fun file => (file.1, file.2.length), []⟩

def isSampled (expected : List BlobEntry) (sizes : List (Name × Nat)) (maxFiles maxBytes : Int) : Bool :=
  !modesAvailable expected || (sizes.length : Int) > maxFiles || ((sizes.map Prod.snd).sum : Int) > maxBytes

/-- The sample in its order, within both limits. -/
def boundedLoop (maxFiles maxBytes : Int) : List (Name × Nat) → List Name → Nat → List Name
  | [], bounded, _ => bounded
  | (path, size) :: rest, bounded, selectedBytes =>
    if (bounded.length : Int) ≥ maxFiles then bounded
    else if ((selectedBytes + size : Nat) : Int) ≤ maxBytes then
      boundedLoop maxFiles maxBytes rest (bounded ++ [path]) (selectedBytes + size)
    else boundedLoop maxFiles maxBytes rest bounded selectedBytes

def sample (commitSha : Name) (sizes : List (Name × Nat)) (maxFiles maxBytes : Int) : List Name :=
  let selected := sortBy
    (fun item => [Sha256.digest (Utf8.encodeText commitSha ++ 0 :: Utf8.encodeText item.1)]) sizes
  match boundedLoop maxFiles maxBytes selected [] 0 with
  | [] => (paths selected).take 1
  | bounded => bounded

def normalizeNewlines (data : Bytes) : Bytes := data.flatMap fun octet => if octet = 10 then [13, 10] else [octet]

inductive Outcome
  | full
  | sampled
deriving DecidableEq

section

variable {σ : Type} (source : TreeSource σ)

/-- The pinned blob is read again, at the commit where the source can do that. -/
def reread (missing : Failure) (entry : BlobEntry) : Call σ Bytes :=
  match source.readBlobAtCommit, source.readBlob with
  | some read, _ => read entry.path
  | none, some read => read entry.blobSha
  | none, none => throw missing

def verifySymlink (links : List (Name × Bytes)) (entry : BlobEntry) : Call σ Unit :=
  match links.lookup entry.path with
  | none => pure ()
  | some target =>
    if gitBlobSha target = entry.blobSha then pure ()
    else do
      let blob ← reread source (.verification ("tree source cannot re-read symbolic link blob: ".toList ++ entry.path)) entry
      if target ≠ blob then throw (.verification ("Git symbolic-link blob digest mismatch: ".toList ++ entry.path))

/-- How many files the comparison of one file adds to the normalized ones. -/
def verifyRegular (files : List (Name × Bytes)) (expected : List BlobEntry) (relative : Name) : Call σ Nat :=
  match files.lookup relative, expected.find? (fun entry => entry.path = relative) with
  | none, _ => throw (.verification ("missing extracted regular file: ".toList ++ relative))
  | some _, none => throw (.verification ("extracted file is absent from Git tree: ".toList ++ relative))
  | some data, some entry =>
    if gitBlobSha data = entry.blobSha then pure 0
    else do
      let blob ← reread source .attribute entry
      if data = blob ∨ data = normalizeNewlines blob then pure 1
      else throw (.verification ("Git blob digest mismatch: ".toList ++ relative))

def verifySelected (files : List (Name × Bytes)) (expected : List BlobEntry) (selected : List Name) : Call σ Nat :=
  selected.foldlM (fun normalized relative => do
    let more ← verifyRegular source files expected relative
    pure (normalized + more)) 0

def verifyExtractedTree (staging : Staging) (commitSha : Name) (maxFiles maxBytes : Int) (excludedPaths : List Name) :
    Call σ (Outcome × Nat) := do
  if maxFiles < 1 then throw (.value "verification_max_files must be >= 1")
  if maxBytes < 1 then throw (.value "verification_max_bytes must be >= 1")
  let files := extracted staging excludedPaths
  let links := extractedSymlinks staging excludedPaths
  let entries ← source.listBlobs
  let expected ← liftM (collectExpected [] entries)
  let chosen ← liftM (candidates files links expected)
  let sampled := isSampled expected chosen.sizes maxFiles maxBytes
  if !sampled then liftM (sameUniverse "regular file" (paths chosen.sizes) (paths files))
  let selected := if sampled then sample commitSha chosen.sizes maxFiles maxBytes else sortedPaths (paths chosen.sizes)
  (sortBy (fun entry : BlobEntry => [entry.path.map Char.toNat]) chosen.symlinks).forM (verifySymlink source links)
  let normalized ← verifySelected source files expected selected
  pure (if sampled then .sampled else .full, normalized)

end

def githubGitParity (verified : Outcome) (textNormalized : Nat) : String :=
  match verified with
  | .sampled => "unknown"
  | .full => if textNormalized = 0 then "exact" else "drift"

/-- The extracted files and links are the listed ones, every file has the listed
hash, and every link stands in a given relation to its entry. -/
structure Agrees (staging : Staging) (excludedPaths : List Name) (entries : List BlobEntry)
    (linked : BlobEntry → Bytes → Prop) : Prop where
  distinct : (entryPaths entries).Nodup
  supported : ∀ entry ∈ entries, isRegular entry = true ∨ isSymlink entry = true
  files : ∀ path, path ∈ paths (extracted staging excludedPaths) ↔ path ∈ entryPaths (entries.filter isRegular)
  links : ∀ path, path ∈ paths (extractedSymlinks staging excludedPaths) ↔ path ∈ entryPaths (entries.filter isSymlink)
  hashed : ∀ entry ∈ entries, ∀ data, (entry.path, data) ∈ extracted staging excludedPaths → gitBlobSha data = entry.blobSha
  targets : ∀ entry ∈ entries, ∀ target, (entry.path, target) ∈ extractedSymlinks staging excludedPaths → linked entry target

section

variable {σ α β : Type}

theorem call_bind {x : Call σ α} {f : α → Call σ β} {s t : σ} {b : β} (h : (x >>= f) s = .ok (b, t)) :
    ∃ a u, x s = .ok (a, u) ∧ f a u = .ok (b, t) := by
  obtain ⟨⟨a, u⟩, hx, hf⟩ := ExceptRun.bind_ok (x := x s) (f := fun p => f p.1 p.2) h
  exact ⟨a, u, hx, hf⟩

theorem call_lift {x : Except Failure α} {s t : σ} {a : α} (h : (liftM x : Call σ α) s = .ok (a, t)) :
    x = .ok a ∧ s = t := by
  cases x with
  | error err => cases h
  | ok value =>
    cases h
    exact ⟨rfl, rfl⟩

theorem call_forM {f : α → Call σ Unit} {items : List α} {s t : σ} (h : items.forM f s = .ok ((), t)) :
    ∀ item ∈ items, ∃ u v, f item u = .ok ((), v) := by
  induction items generalizing s with
  | nil => simp
  | cons item rest ih =>
    change (f item >>= fun _ => rest.forM f) s = _ at h
    obtain ⟨_, u, hfirst, hrest⟩ := call_bind h
    intro other hother
    rcases mem_cons.mp hother with rfl | hother
    · exact ⟨s, u, hfirst⟩
    · exact ih hrest other hother

theorem call_foldlM_add {f : α → Call σ Nat} {items : List α} {start total : Nat} {s t : σ}
    (h : (items.foldlM (fun count item => do let more ← f item; pure (count + more)) start : Call σ Nat) s =
      .ok (total, t)) :
    start ≤ total ∧ (total = start → ∀ item ∈ items, ∃ u v, f item u = .ok (0, v)) := by
  induction items generalizing start s with
  | nil =>
    cases h
    exact ⟨le_rfl, by simp⟩
  | cons item rest ih =>
    rw [foldlM_cons] at h
    obtain ⟨next, u, hfirst, hrest⟩ := call_bind h
    obtain ⟨more, v, hitem, hnext⟩ := call_bind hfirst
    cases hnext
    obtain ⟨hle, hnone⟩ := ih hrest
    refine ⟨by omega, ?_⟩
    intro heq other hother
    have hzero : more = 0 := by omega
    subst hzero
    rcases mem_cons.mp hother with rfl | hother
    · exact ⟨s, _, hitem⟩
    · exact hnone heq other hother

end

section

variable {staging : Staging} {excludedPaths : List Name}

theorem sortedPaths_nil {names : List Name} (h : sortedPaths names = []) : names = [] := by
  have hperm := perm_sortBy (fun name : Name => [name.map Char.toNat]) names
  rw [show sortBy _ names = [] from h] at hperm
  exact nil_perm.mp hperm

theorem sameUniverse_ok {kind : String} {expected found : List Name} (h : sameUniverse kind expected found = .ok ()) :
    ∀ path, path ∈ found ↔ path ∈ expected := by
  unfold sameUniverse at h
  split at h
  next hmissing hextra =>
    have hleft := filter_eq_nil_iff.mp (sortedPaths_nil hmissing)
    have hright := filter_eq_nil_iff.mp (sortedPaths_nil hextra)
    intro path
    constructor
    · intro hf
      by_contra he
      exact hright path hf (by simpa using he)
    · intro he
      by_contra hf
      exact hleft path he (by simpa using hf)
  next => cases h
  next => cases h

theorem collectExpected_ok {expected entries all : List BlobEntry} (h : collectExpected expected entries = .ok all)
    (hnodup : (entryPaths expected).Nodup) : all = expected ++ entries ∧ (entryPaths all).Nodup := by
  induction entries generalizing expected with
  | nil =>
    cases h
    exact ⟨(append_nil _).symm, hnodup⟩
  | cons entry rest ih =>
    unfold collectExpected at h
    split at h
    next => cases h
    next hfresh =>
      have hgrown : (entryPaths (expected ++ [entry])).Nodup := by
        rw [entryPaths, map_append, map_singleton, nodup_append_comm, singleton_append, nodup_cons]
        exact ⟨hfresh, hnodup⟩
      obtain ⟨hall, hnodup'⟩ := ih h hgrown
      refine ⟨?_, hnodup'⟩
      rw [hall, append_assoc, singleton_append]

variable {path : Name} {data : Bytes}

theorem mem_extracted :
    (path, data) ∈ extracted staging excludedPaths ↔ (path, .file data) ∈ staging.nodes ∧ path ∉ excludedPaths := by
  unfold extracted
  rw [mem_filterMap]
  constructor
  · rintro ⟨⟨name, node⟩, hmem, hnode⟩
    cases node with
    | file found =>
      dsimp only at hnode
      split at hnode
      next => cases hnode
      next hfree =>
        cases hnode
        exact ⟨hmem, hfree⟩
    | link => cases hnode
    | other => cases hnode
  · rintro ⟨hmem, hfree⟩
    exact ⟨(path, .file data), hmem, by simp [hfree]⟩

theorem mem_extractedSymlinks {target : Bytes} :
    (path, target) ∈ extractedSymlinks staging excludedPaths ↔
      (path, .link target) ∈ staging.nodes ∧ path ∉ excludedPaths := by
  unfold extractedSymlinks
  rw [mem_filterMap]
  constructor
  · rintro ⟨⟨name, node⟩, hmem, hnode⟩
    cases node with
    | link found =>
      dsimp only at hnode
      split at hnode
      next => cases hnode
      next hfree =>
        cases hnode
        exact ⟨hmem, hfree⟩
    | file => cases hnode
    | other => cases hnode
  · rintro ⟨hmem, hfree⟩
    exact ⟨(path, .link target), hmem, by simp [hfree]⟩

theorem node_unique {first second : Node} (h : (path, first) ∈ staging.nodes)
    (h' : (path, second) ∈ staging.nodes) : first = second := by
  have hsame := inj_on_of_nodup_map staging.distinct h h' rfl
  exact (Prod.mk.inj hsame).2

theorem lookup_of_mem {items : List (Name × Bytes)} (hunique : ∀ path a b, (path, a) ∈ items → (path, b) ∈ items → a = b) (h : (path, data) ∈ items) : items.lookup path = some data := by
  cases hl : items.lookup path with
  | none =>
    have hnone := lookup_eq_none_iff.mp hl (path, data) h
    simp at hnone
  | some found =>
    obtain ⟨before, after, hsplit, _⟩ := List.lookup_eq_some_iff.mp hl
    rw [hunique path found data (by rw [hsplit]; simp) h]

theorem lookup_extracted (h : (path, data) ∈ extracted staging excludedPaths) :
    (extracted staging excludedPaths).lookup path = some data := by
  refine lookup_of_mem ?_ h
  intro name a b ha hb
  cases node_unique (mem_extracted.mp ha).1 (mem_extracted.mp hb).1
  rfl

theorem lookup_extractedSymlinks {target : Bytes}
    (h : (path, target) ∈ extractedSymlinks staging excludedPaths) :
    (extractedSymlinks staging excludedPaths).lookup path = some target := by
  refine lookup_of_mem ?_ h
  intro name a b ha hb
  cases node_unique (mem_extractedSymlinks.mp ha).1 (mem_extractedSymlinks.mp hb).1
  rfl

theorem find?_entry {entries : List BlobEntry} (hnodup : (entryPaths entries).Nodup) {entry : BlobEntry}
    (h : entry ∈ entries) : entries.find? (fun other => other.path = entry.path) = some entry := by
  cases hf : entries.find? (fun other => other.path = entry.path) with
  | none =>
    have hnone := find?_eq_none.mp hf entry h
    simp at hnone
  | some found =>
    have hpath := find?_some hf
    rw [decide_eq_true_eq] at hpath
    rw [inj_on_of_nodup_map hnodup (mem_of_find?_eq_some hf) h hpath]

theorem candidates_ok {files links : List (Name × Bytes)} {expected : List BlobEntry} {chosen : Candidates}
    (hmodes : modesAvailable expected = true) (h : candidates files links expected = .ok chosen) :
    (∀ entry ∈ expected, isRegular entry = true ∨ isSymlink entry = true) ∧
      (∀ path, path ∈ paths links ↔ path ∈ entryPaths (expected.filter isSymlink)) ∧
      paths chosen.sizes = entryPaths (expected.filter isRegular) ∧ chosen.symlinks = expected.filter isSymlink := by
  unfold candidates at h
  rw [if_pos hmodes] at h
  split at h
  next => cases h
  next hnone =>
    obtain ⟨_, huniverse, hchosen⟩ := ExceptRun.bind_ok h
    cases hchosen
    refine ⟨?_, sameUniverse_ok huniverse, ?_, rfl⟩
    · intro entry hentry
      by_contra hother
      have hnil := sortedPaths_nil hnone
      rw [entryPaths, map_eq_nil_iff, filter_eq_nil_iff] at hnil
      exact hnil entry hentry (by simpa using hother)
    · simp [paths, entryPaths]

end

section

variable {σ : Type} {source : TreeSource σ}

def Reread (source : TreeSource σ) (entry : BlobEntry) (data : Bytes) : Prop :=
  ∃ missing s t, reread source missing entry s = .ok (data, t)

theorem verifySymlink_ok {links : List (Name × Bytes)} {entry : BlobEntry} {s t : σ} {target : Bytes}
    (h : verifySymlink source links entry s = .ok ((), t)) (hl : links.lookup entry.path = some target) :
    gitBlobSha target = entry.blobSha ∨ Reread source entry target := by
  unfold verifySymlink at h
  rw [hl] at h
  dsimp only at h
  split at h
  next hhash => exact Or.inl hhash
  next =>
    obtain ⟨blob, u, hread, hsame⟩ := call_bind h
    split at hsame
    next => cases hsame
    next hblob =>
      rw [not_not] at hblob
      subst hblob
      exact Or.inr ⟨_, s, u, hread⟩

theorem verifyRegular_zero {files : List (Name × Bytes)} {expected : List BlobEntry} {entry : BlobEntry} {data : Bytes}
    {s t : σ} (h : verifyRegular source files expected entry.path s = .ok (0, t))
    (hl : files.lookup entry.path = some data)
    (he : expected.find? (fun other => other.path = entry.path) = some entry) : gitBlobSha data = entry.blobSha := by
  unfold verifyRegular at h
  rw [hl, he] at h
  dsimp only at h
  split at h
  next hhash => exact hhash
  next =>
    obtain ⟨blob, u, _, hblob⟩ := call_bind h
    split at hblob
    next => cases hblob
    next => cases hblob

/-- The stages of a run that comes to its end without sampling. -/
theorem verifyExtractedTree_full {staging : Staging} {commitSha : Name} {maxFiles maxBytes : Int} {excludedPaths : List Name}
    {s t : σ} {normalized : Nat}
    (h : verifyExtractedTree source staging commitSha maxFiles maxBytes excludedPaths s = .ok ((.full, normalized), t)) :
    ∃ entries expected chosen u v w, source.listBlobs s = .ok (entries, u) ∧ collectExpected [] entries = .ok expected ∧
      modesAvailable expected = true ∧
      candidates (extracted staging excludedPaths) (extractedSymlinks staging excludedPaths) expected = .ok chosen ∧
      sameUniverse "regular file" (paths chosen.sizes) (paths (extracted staging excludedPaths)) = .ok () ∧
      (sortBy (fun entry : BlobEntry => [entry.path.map Char.toNat]) chosen.symlinks).forM
        (verifySymlink source (extractedSymlinks staging excludedPaths)) v = .ok ((), w) ∧
      verifySelected source (extracted staging excludedPaths) expected (sortedPaths (paths chosen.sizes)) w =
        .ok (normalized, t) := by
  unfold verifyExtractedTree at h
  split at h
  next => cases h
  next =>
    split at h
    next => cases h
    next =>
      obtain ⟨entries, u, hlist, h⟩ := call_bind h
      obtain ⟨expected, _, hcollect, h⟩ := call_bind h
      obtain ⟨chosen, _, hpick, h⟩ := call_bind h
      obtain ⟨hexpected, rfl⟩ := call_lift hcollect
      obtain ⟨hchosen, rfl⟩ := call_lift hpick
      dsimp only at h
      cases hsampled : isSampled expected chosen.sizes maxFiles maxBytes with
      | true =>
        simp only [hsampled, Bool.not_true, Bool.false_eq_true, if_false, if_true] at h
        obtain ⟨_, _, _, h⟩ := call_bind h
        obtain ⟨_, _, _, h⟩ := call_bind h
        cases h
      | false =>
        simp only [hsampled, Bool.not_false, Bool.false_eq_true, if_false, if_true] at h
        obtain ⟨_, _, hcompare, h⟩ := call_bind h
        obtain ⟨huniverse, rfl⟩ := call_lift hcompare
        obtain ⟨_, w, hlinks, h⟩ := call_bind h
        obtain ⟨_, _, hselected, h⟩ := call_bind h
        cases h
        have hmodes : modesAvailable expected = true := by
          unfold isSampled at hsampled
          simp only [Bool.or_eq_false_iff, Bool.not_eq_false'] at hsampled
          exact hsampled.1.1
        exact ⟨entries, expected, chosen, _, _, w, hlist, hexpected, hmodes, hchosen, huniverse, hlinks, hselected⟩

/-- Where exact parity is claimed, the extracted files and links are the listed ones
and have the listed hashes, but for links that the source, asked again, returns as
they are on disk. -/
theorem exact_parity_agrees {staging : Staging} {commitSha : Name} {maxFiles maxBytes : Int} {excludedPaths : List Name}
    {s t : σ} {verified : Outcome} {normalized : Nat}
    (h : verifyExtractedTree source staging commitSha maxFiles maxBytes excludedPaths s = .ok ((verified, normalized), t))
    (hexact : githubGitParity verified normalized = "exact") :
    ∃ entries u, source.listBlobs s = .ok (entries, u) ∧
      Agrees staging excludedPaths entries fun entry target =>
        gitBlobSha target = entry.blobSha ∨ Reread source entry target := by
  unfold githubGitParity at hexact
  split at hexact
  next => simp at hexact
  next =>
    split at hexact
    next hzero =>
      subst hzero
      obtain ⟨entries, expected, chosen, u, v, w, hlist, hexpected, hmodes, hchosen, huniverse, hlinks, hselected⟩ :=
        verifyExtractedTree_full h
      obtain ⟨hall, hnodup⟩ := collectExpected_ok hexpected nodup_nil
      rw [nil_append] at hall
      subst hall
      obtain ⟨hsupported, hlinked, hsizes, hsymlinks⟩ := candidates_ok hmodes hchosen
      rw [hsizes] at huniverse hselected
      have hfiles := sameUniverse_ok huniverse
      refine ⟨expected, u, hlist, hnodup, hsupported, hfiles, hlinked, ?_, ?_⟩
      · intro entry hentry data hdata
        have hcompared : entry.path ∈ sortedPaths (entryPaths (expected.filter isRegular)) := by
          rw [sortedPaths, mem_sortBy, ← hfiles]
          exact mem_map_of_mem hdata
        obtain ⟨_, _, hzero⟩ := (call_foldlM_add hselected).2 rfl entry.path hcompared
        exact verifyRegular_zero hzero (lookup_extracted hdata) (find?_entry hnodup hentry)
      · intro entry hentry target htarget
        have hpath : entry.path ∈ entryPaths (expected.filter isSymlink) := by
          rw [← hlinked]
          exact mem_map_of_mem htarget
        obtain ⟨found, hfound, hsame⟩ := mem_map.mp hpath
        have hentry' : found = entry := inj_on_of_nodup_map hnodup (mem_of_mem_filter hfound) hentry hsame
        subst hentry'
        rw [← hsymlinks] at hfound
        obtain ⟨_, _, hok⟩ := call_forM hlinks found (mem_sortBy.mpr hfound)
        exact verifySymlink_ok hok (lookup_extractedSymlinks htarget)
    next => simp at hexact

end

/-- A directory with the file `a` and the link `l` to it. -/
def linkedStaging : Staging where
  nodes := [(['a'], .file [120]), (['l'], .link [97])]
  distinct := by decide

def glitchedListing : List BlobEntry :=
  [⟨['a'], gitBlobSha [120], 1, some "100644".toList, by decide, by decide +kernel⟩,
    ⟨['l'], gitBlobSha [98], 1, some "120000".toList, by decide, by decide +kernel⟩]

def glitchedSource : TreeSource Unit where
  listBlobs := pure glitchedListing
  readBlobAtCommit := some fun path => pure (if path = ['l'] then [97] else [120])
  readBlob := none

theorem verify_glitched : verifyExtractedTree glitchedSource linkedStaging [] 10 100 [] () = .ok ((.full, 0), ()) := by
  decide +kernel

theorem exact_parity_agrees_glitched :
    ∃ entries u, glitchedSource.listBlobs () = .ok (entries, u) ∧
      Agrees linkedStaging [] entries fun entry target =>
        gitBlobSha target = entry.blobSha ∨ Reread glitchedSource entry target :=
  exact_parity_agrees verify_glitched (by decide)

theorem glitched_link_claimed_exact :
    ¬ ∀ (source : TreeSource Unit) staging commitSha maxFiles maxBytes excludedPaths s t entries u,
      source.listBlobs s = .ok (entries, u) →
      verifyExtractedTree source staging commitSha maxFiles maxBytes excludedPaths s = .ok ((.full, 0), t) →
      Agrees staging excludedPaths entries fun entry target => gitBlobSha target = entry.blobSha := by
  intro hall
  have hagrees := hall glitchedSource linkedStaging [] 10 100 [] () () glitchedListing () rfl verify_glitched
  have hlink := hagrees.targets _ (mem_cons_of_mem _ (mem_singleton.mpr rfl)) [97]
    (mem_extractedSymlinks.mpr ⟨by decide, by decide⟩)
  revert hlink
  decide +kernel

end Leitir.GitParity
