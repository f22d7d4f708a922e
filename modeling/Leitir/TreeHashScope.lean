import Leitir.FileTree
import Leitir.TreeHash

namespace Leitir.TreeHash

open ExceptRun List KeyedList

inductive Node
  | directory
  | file (data : Bytes)
  /-- A link, and whether the host follows it to a directory. -/
  | link (target : Bytes) (toDirectory : Bool)
  | special
deriving DecidableEq

abbrev Place := List Text

def posix (place : Place) : Text := ['/'].intercalate place

/-- A directory on disk: each node at a place of its own, under proper names and in directories. -/
structure Tree where
  nodes : List (Place × Node)
  distinct : (nodes.map Prod.fst).Nodup
  named : ∀ entry ∈ nodes, entry.1 ≠ [] ∧ ∀ name ∈ entry.1, FileTree.isProper name = true ∧ '/' ∉ name
  rooted : ∀ entry ∈ nodes, entry.1.dropLast = [] ∨ (entry.1.dropLast, Node.directory) ∈ nodes

inductive TreeHashError
  | format (message : String)
  | structure_ (message : String)
  | mismatch (message : String)
deriving DecidableEq

def rootManifestName : Text := "leitir-manifest.json".toList

def validateRelative (relative : Text) : Except TreeHashError Unit :=
  if '\n' ∈ relative then .error (.structure_ "path contains a newline (unsupported)") else .ok ()

/-- What the walk notes at a node. Links to directories are noted before the manifest at the root is left out. -/
def visit (place : Place) (node : Node) : Except TreeHashError (List Entry) :=
  match node with
  | .directory => .ok []
  | .link target true => do
    validateRelative (posix place)
    pure [⟨posix place, .link target⟩]
  | .link target false =>
    if place = [rootManifestName] then .ok []
    else do
      validateRelative (posix place)
      pure [⟨posix place, .link target⟩]
  | .file data =>
    if place = [rootManifestName] then .ok []
    else do
      validateRelative (posix place)
      pure [⟨posix place, .file data⟩]
  | .special =>
    if place = [rootManifestName] then .ok []
    else do
      validateRelative (posix place)
      .error (.structure_ "non-regular entry in materialized tree")

def sortedRegularFiles (tree : Tree) : Except TreeHashError (List Entry) := do
  let found ← tree.nodes.mapM fun entry => visit entry.1 entry.2
  pure (byPath found.flatten)

/-- The target of a link must be text on one line. -/
def scanEntry (entry : Entry) : Except TreeHashError Entry :=
  match entry.content with
  | .file _ => .ok entry
  | .link target =>
    match Utf8.decodeText target with
    | none => .error (.structure_ "path or linkname contains non-UTF-8 bytes (unsupported)")
    | some name =>
      if '\n' ∈ name then .error (.structure_ "linkname contains a newline (unsupported)") else .ok entry

def scanEntries (tree : Tree) : Except TreeHashError (List Entry) := do
  let found ← sortedRegularFiles tree
  found.mapM scanEntry

def treeHashAlgorithm : Text := "dirhash-h1-sha256-v1".toList

def fileDigestAlgorithm : Text := "per-file-sha256-v1".toList

def full : Text := "full".toList

def sampled : Text := "sampled".toList

def maxFiles : Nat := 1000

def maxBytes : Nat := 64 * 1024 * 1024

def totalBytes (entries : List Entry) : Nat := (entries.map Entry.size).sum

def naturalScope (entries : List Entry) : Text :=
  if entries.length ≤ maxFiles ∧ (totalBytes entries ≤ maxBytes ∨ entries.length ≤ 1) then full else sampled

def sampleKey (entry : Entry) : Bytes := Sha256.digest (ascii entry.digestHex ++ 0 :: entry.relativeBytes)

/-- Entries in order while both caps permit. -/
def greedy : List Entry → Nat → Nat → List Entry
  | [], _, _ => []
  | entry :: rest, count, bytes =>
    if maxFiles ≤ count then []
    else if bytes + entry.size ≤ maxBytes then entry :: greedy rest (count + 1) (bytes + entry.size)
    else greedy rest count bytes

def selection (entries : List Entry) : List Entry :=
  let ordered := sortBy (fun entry => [sampleKey entry]) entries
  let selected := greedy ordered 0 0
  if selected = [] then ordered.take 1 else selected

def computeMaterializedTreeHash (tree : Tree) (forceFull : Bool) : Except TreeHashError (List Nat × Text) := do
  let entries ← scanEntries tree
  let scope := if forceFull then full else naturalScope entries
  let selected := if scope = sampled then selection entries else entries
  pure (summaryDigest selected, scope)

structure ManifestFields where
  fileDigestsAlgorithm : Text
  fileDigests : List (Text × Text)
  treeHashAlgorithm : Text
  treeHash : List Nat
  treeHashScope : Text

def digestMap (entries : List Entry) : List (Text × Text) := entries.map fun entry => (entry.relative, entry.digestHex)

def fullCoverageManifestFields (tree : Tree) : Except TreeHashError ManifestFields := do
  let entries ← scanEntries tree
  pure ⟨fileDigestAlgorithm, digestMap entries, treeHashAlgorithm, summaryDigest entries, full⟩

def validatedH1Digest (expected : List Nat) : Except TreeHashError Unit :=
  if ¬ treeHashPrefix <+: expected then
    .error (.format "materialized_tree_hash must be an 'h1:'-prefixed base64 string")
  else
    match Base64.decode (expected.drop treeHashPrefix.length) with
    | none => .error (.format "materialized_tree_hash is not valid base64")
    | some decoded =>
      if Base64.encode decoded ≠ expected.drop treeHashPrefix.length then
        .error (.format "materialized_tree_hash is not in canonical base64 form")
      else .ok ()

def mapPathAllowed (path : Text) : Prop :=
  path ≠ [] ∧ '\\' ∉ path ∧ '\n' ∉ path ∧ path.head? ≠ some '/' ∧ path ≠ rootManifestName ∧
    ∀ segment ∈ path.splitOn '/', FileTree.isProper segment = true

instance (path : Text) : Decidable (mapPathAllowed path) := by
  unfold mapPathAllowed
  infer_instance

def validatedFileDigestMap (map : List (Text × Text)) : Except TreeHashError Unit :=
  (sortBy (fun entry => [ascii entry.1]) map).forM fun entry =>
    if ¬ mapPathAllowed entry.1 then .error (.format "invalid materialized_file_digests path")
    else if ¬ (entry.2.length = 64 ∧ entry.2.all Sha1.isHexDigit = true) then
      .error (.format "invalid materialized_file_digests digest for path")
    else .ok ()

def verifyFileDigestMap (tree : Tree) (expectedMap : List (Text × Text)) (algorithm : Option Text)
    (expectedTreeHash : List Nat) (hashAlgorithm treeHashScope : Option Text) : Except TreeHashError Unit :=
  if algorithm ≠ some fileDigestAlgorithm then .error (.format "unsupported materialized_file_digests_algorithm")
  else if hashAlgorithm ≠ none ∧ hashAlgorithm ≠ some treeHashAlgorithm then
    .error (.format "unsupported materialized_tree_hash_algorithm")
  else if treeHashScope ≠ some full then
    .error (.format "a manifest carrying materialized_file_digests must anchor a full-scope materialized_tree_hash")
  else do
    validatedH1Digest expectedTreeHash
    validatedFileDigestMap expectedMap
    let entries ← scanEntries tree
    let disk := digestMap entries
    if ∃ path ∈ expectedMap.map Prod.fst, path ∉ disk.map Prod.fst then
      .error (.mismatch "file listed in the digest map is absent from the shelf")
    else if ∃ path ∈ disk.map Prod.fst, path ∉ expectedMap.map Prod.fst then
      .error (.mismatch "unexpected file on disk is absent from the digest map")
    else if ∃ path ∈ disk.map Prod.fst, disk.lookup path ≠ expectedMap.lookup path then
      .error (.mismatch "materialized file digest mismatch")
    else if summaryDigest entries ≠ expectedTreeHash then
      .error (.mismatch "materialized file digest map does not match the anchored materialized_tree_hash")
    else .ok ()

def compareDigest (actual expected : List Nat) : Except TreeHashError Unit :=
  if actual ≠ expected then .error (.mismatch "materialized tree hash mismatch") else .ok ()

def verifyMaterializedTreeHash (tree : Tree) (expected : List Nat) (algorithm : Option Text) (scope : Text) :
    Except TreeHashError Unit :=
  if algorithm ≠ none ∧ algorithm ≠ some treeHashAlgorithm then
    .error (.format "unsupported materialized_tree_hash_algorithm")
  else if scope ≠ full ∧ scope ≠ sampled then .error (.format "unsupported materialized_tree_hash_scope")
  else do
    validatedH1Digest expected
    let (actual, actualScope) ← computeMaterializedTreeHash tree false
    if actualScope ≠ scope then
      if scope = full ∧ actualScope = sampled then
        if actual = expected then
          .error (.format "a sampled materialized_tree_hash scope cannot be verified as full")
        else do
          let (forced, _) ← computeMaterializedTreeHash tree true
          compareDigest forced expected
      else .error (.format "materialized_tree_hash_scope does not match the deterministic tree scope")
    else compareDigest actual expected

section

variable {tree : Tree} {entries : List Entry}

theorem validateRelative_ok {relative : Text} (h : validateRelative relative = .ok ()) : '\n' ∉ relative :=
  (guard_ok h).1

/-- The nodes that the walk notes: no directories, and at the place of the root manifest only a link to a directory. -/
def Noted (node : Place × Node) : Prop :=
  node.2 ≠ .directory ∧ (node.1 = [rootManifestName] → ∃ target, node.2 = .link target true)

/-- A visit notes nothing, or one entry at its place. -/
theorem visit_ok {place : Place} {node : Node} {found : List Entry} (h : visit place node = .ok found) :
    found = [] ∧ ¬ Noted (place, node) ∨
      ∃ content, found = [⟨posix place, content⟩] ∧ '\n' ∉ posix place ∧ Noted (place, node) := by
  have hnoted : ∀ {content : Content}, (do validateRelative (posix place); pure [⟨posix place, content⟩] :
      Except TreeHashError (List Entry)) = .ok found → found = [⟨posix place, content⟩] ∧ '\n' ∉ posix place := by
    intro content hrun
    obtain ⟨_, hvalid, hrun⟩ := bind_ok hrun
    cases hrun
    exact ⟨rfl, validateRelative_ok hvalid⟩
  have hskipped : ∀ {rest : Except TreeHashError (List Entry)}, (∀ target, node ≠ .link target true) →
      (if place = [rootManifestName] then .ok [] else rest) = .ok found →
      found = [] ∧ ¬ Noted (place, node) ∨ place ≠ [rootManifestName] ∧ rest = .ok found := by
    intro rest hnode hrun
    split at hrun
    next hplace =>
      cases hrun
      refine .inl ⟨rfl, fun hmark => ?_⟩
      obtain ⟨target, htarget⟩ := hmark.2 hplace
      exact hnode target htarget
    next hplace => exact .inr ⟨hplace, hrun⟩
  unfold visit at h
  split at h
  next =>
    cases h
    exact .inl ⟨rfl, fun hmark => hmark.1 rfl⟩
  next target =>
    obtain ⟨hfound, hbreak⟩ := hnoted h
    exact .inr ⟨_, hfound, hbreak, Node.noConfusion, fun _ => ⟨target, rfl⟩⟩
  next =>
    rcases hskipped (fun _ heq => by cases heq) h with hnone | ⟨hplace, h⟩
    · exact .inl hnone
    · obtain ⟨hfound, hbreak⟩ := hnoted h
      exact .inr ⟨_, hfound, hbreak, Node.noConfusion, fun heq => absurd heq hplace⟩
  next =>
    rcases hskipped (fun _ heq => by cases heq) h with hnone | ⟨hplace, h⟩
    · exact .inl hnone
    · obtain ⟨hfound, hbreak⟩ := hnoted h
      exact .inr ⟨_, hfound, hbreak, Node.noConfusion, fun heq => absurd heq hplace⟩
  next =>
    rcases hskipped (fun _ heq => by cases heq) h with hnone | ⟨-, h⟩
    · exact .inl hnone
    · obtain ⟨_, -, h⟩ := bind_ok h
      cases h

theorem posix_injective {a b : Place} (ha : a ≠ [] ∧ ∀ name ∈ a, FileTree.isProper name = true ∧ '/' ∉ name)
    (hb : b ≠ [] ∧ ∀ name ∈ b, FileTree.isProper name = true ∧ '/' ∉ name) (h : posix a = posix b) : a = b := by
  have hsplit := splitOn_intercalate '/' (fun name hname => (ha.2 name hname).2) ha.1
  have hsplit' := splitOn_intercalate '/' (fun name hname => (hb.2 name hname).2) hb.1
  unfold posix at h
  rw [h, hsplit'] at hsplit
  exact hsplit.symm

theorem scanEntry_ok {entry found : Entry} (h : scanEntry entry = .ok found) : found = entry ∧
    ∀ target, entry.content = .link target → ∃ name, Utf8.decodeText target = some name ∧ '\n' ∉ name := by
  unfold scanEntry at h
  split at h
  next data hcontent =>
    cases h
    refine ⟨rfl, fun target htarget => ?_⟩
    rw [hcontent] at htarget
    cases htarget
  next target hcontent =>
    split at h
    next => cases h
    next name hname =>
      obtain ⟨hbreak, h⟩ := guard_ok h
      cases h
      refine ⟨rfl, fun other hother => ?_⟩
      rw [hcontent] at hother
      cases hother
      exact ⟨name, hname, hbreak⟩

/-- The scan of a tree: valid entries, one for each node that the walk notes. -/
structure Scanned (tree : Tree) (entries : List Entry) : Prop where
  valid : ∀ entry ∈ entries, entry.Valid
  distinct : (entries.map Entry.relative).Nodup
  noted : ∀ entry ∈ entries, ∃ node ∈ tree.nodes, entry.relative = posix node.1 ∧ Noted node
  complete : ∀ node ∈ tree.nodes, Noted node → ∃ entry ∈ entries, entry.relative = posix node.1

theorem sublist_places {nodes : List (Place × Node)} {found : List (List Entry)}
    (h : nodes.mapM (fun node => visit node.1 node.2) = .ok found) :
    (found.flatten.map Entry.relative).Sublist (nodes.map fun node => posix node.1) := by
  induction nodes generalizing found with
  | nil =>
    cases h
    exact List.Sublist.slnil
  | cons node rest ih =>
    rw [mapM_cons] at h
    obtain ⟨first, hfirst, h⟩ := bind_ok h
    obtain ⟨others, hothers, h⟩ := bind_ok h
    cases h
    rw [flatten_cons, map_append, map_cons]
    rcases visit_ok hfirst with ⟨rfl, -⟩ | ⟨content, rfl, -, -⟩
    · exact (ih hothers).cons _
    · exact (ih hothers).cons_cons _

theorem Tree.nodup_posix (tree : Tree) : (tree.nodes.map fun node => posix node.1).Nodup := by
  have hplaces := tree.distinct
  rw [List.Nodup, pairwise_map] at hplaces ⊢
  refine hplaces.imp_of_mem ?_
  intro a b ha hb hne heq
  exact hne (posix_injective (tree.named a ha) (tree.named b hb) heq)

theorem scanEntries_ok (h : scanEntries tree = .ok entries) : Scanned tree entries := by
  obtain ⟨sorted, hsorted, hscan⟩ := bind_ok h
  obtain ⟨found, hfound, hsorted⟩ := bind_ok hsorted
  have hbyPath : byPath found.flatten = sorted := Except.ok.inj hsorted
  have hsame : entries = sorted := by
    have hpairs := mapM_ok_forall₂ hscan
    have heq : List.Forall₂ (fun entry result => entry = result) sorted entries :=
      hpairs.imp fun _ _ hentry => (scanEntry_ok hentry).1.symm
    exact (forall₂_eq_eq_eq ▸ heq : sorted = entries).symm
  have hperm : entries.Perm found.flatten := by
    rw [hsame, ← hbyPath]
    exact perm_sortBy _ _
  obtain ⟨hvisits, hresults⟩ := mapM_ok_mem hfound
  have hnode : ∀ entry ∈ entries, ∃ node ∈ tree.nodes, entry.relative = posix node.1 ∧ Noted node ∧ '\n' ∉ entry.relative := by
    intro entry hentry
    obtain ⟨noted, hnoted, hentry⟩ := mem_flatten.mp (hperm.mem_iff.mp hentry)
    obtain ⟨node, hnode, hvisit⟩ := hresults noted hnoted
    rcases visit_ok hvisit with ⟨rfl, -⟩ | ⟨content, rfl, hbreak, hmark⟩
    · cases hentry
    · rw [mem_singleton.mp hentry]
      exact ⟨node, hnode, rfl, hmark, hbreak⟩
  refine ⟨?_, ?_, ?_, ?_⟩
  · intro entry hentry
    obtain ⟨-, -, -, -, hbreak⟩ := hnode entry hentry
    refine ⟨hbreak, ?_⟩
    rw [hsame] at hentry
    obtain ⟨result, -, hresult⟩ := (mapM_ok_mem hscan).1 entry hentry
    exact (scanEntry_ok hresult).2
  · exact ((hperm.map Entry.relative).nodup_iff).mpr (tree.nodup_posix.sublist (sublist_places hfound))
  · intro entry hentry
    obtain ⟨node, hmem, hrelative, hmark, -⟩ := hnode entry hentry
    exact ⟨node, hmem, hrelative, hmark⟩
  · intro node hmem hmark
    obtain ⟨noted, hnoted, hvisit⟩ := hvisits node hmem
    rcases visit_ok hvisit with ⟨-, hskip⟩ | ⟨content, rfl, -, -⟩
    · exact absurd hmark hskip
    · exact ⟨_, hperm.mem_iff.mpr (mem_flatten.mpr ⟨_, hnoted, mem_singleton.mpr rfl⟩), rfl⟩

end

section

variable {entries others : List Entry}

theorem greedy_bounds (items : List Entry) {count bytes : Nat} (hcount : count ≤ maxFiles) (hbytes : bytes ≤ maxBytes) :
    count + (greedy items count bytes).length ≤ maxFiles ∧ bytes + totalBytes (greedy items count bytes) ≤ maxBytes := by
  induction items generalizing count bytes with
  | nil => exact ⟨hcount, hbytes⟩
  | cons entry rest ih =>
    unfold greedy
    split
    next => exact ⟨hcount, hbytes⟩
    next hroom =>
      split
      next hfits =>
        obtain ⟨hlength, htotal⟩ := ih (show count + 1 ≤ maxFiles by omega) hfits
        simp only [totalBytes, map_cons, sum_cons, length_cons] at htotal ⊢
        omega
      next => exact ih hcount hbytes

theorem mem_of_greedy {items : List Entry} {count bytes : Nat} {entry : Entry} (h : entry ∈ greedy items count bytes) :
    entry ∈ items := by
  induction items generalizing count bytes with
  | nil => cases h
  | cons first rest ih =>
    unfold greedy at h
    split at h
    next => cases h
    next =>
      split at h
      next =>
        rcases mem_cons.mp h with rfl | h
        · exact mem_cons_self
        · exact mem_cons_of_mem _ (ih h)
      next => exact mem_cons_of_mem _ (ih h)

theorem selection_cases (entries : List Entry) :
    ∃ ordered, ordered.Perm entries ∧ (selection entries = ordered.take 1 ∨ selection entries = greedy ordered 0 0) := by
  refine ⟨_, perm_sortBy (fun entry => [sampleKey entry]) entries, ?_⟩
  unfold selection
  dsimp only
  split
  next => exact .inl rfl
  next => exact .inr rfl

theorem mem_of_selection {entry : Entry} (h : entry ∈ selection entries) : entry ∈ entries := by
  obtain ⟨ordered, hperm, hselection⟩ := selection_cases entries
  apply hperm.mem_iff.mp
  rcases hselection with hselection | hselection
  · rw [hselection] at h
    exact mem_of_mem_take h
  · rw [hselection] at h
    exact mem_of_greedy h

theorem naturalScope_eq_full_iff : naturalScope entries = full ↔
    entries.length ≤ maxFiles ∧ (totalBytes entries ≤ maxBytes ∨ entries.length ≤ 1) := by
  have hne : sampled ≠ full := by decide
  unfold naturalScope
  split
  next h => exact ⟨fun _ => h, fun _ => rfl⟩
  next h => exact ⟨fun heq => absurd heq hne, fun hfits => absurd hfits h⟩

theorem naturalScope_selection (entries : List Entry) : naturalScope (selection entries) = full := by
  obtain ⟨ordered, -, hselection⟩ := selection_cases entries
  rw [naturalScope_eq_full_iff]
  rcases hselection with hselection | hselection
  · rw [hselection]
    have hlength : (ordered.take 1).length ≤ 1 := length_take_le 1 _
    have hcap : 1 ≤ maxFiles := by decide
    exact ⟨by omega, .inr hlength⟩
  · rw [hselection]
    obtain ⟨hlength, htotal⟩ := greedy_bounds ordered (Nat.zero_le maxFiles) (Nat.zero_le maxBytes)
    exact ⟨by omega, .inl (by omega)⟩

theorem naturalScope_perm (h : entries.Perm others) : naturalScope entries = naturalScope others := by
  have htotal : totalBytes entries = totalBytes others := (h.map Entry.size).sum_nat
  unfold naturalScope
  rw [h.length_eq, htotal]

theorem naturalScope_cases (entries : List Entry) : naturalScope entries = full ∨ naturalScope entries = sampled := by
  unfold naturalScope
  split
  next => exact .inl rfl
  next => exact .inr rfl

theorem selection_ne_summaryDigest (hentries : ∀ entry ∈ entries, entry.Valid) (hothers : ∀ entry ∈ others, entry.Valid)
    (hfree : CollisionFree (hashed (selection others) ++ hashed entries)) (hscope : naturalScope entries = sampled) :
    summaryDigest (selection others) ≠ summaryDigest entries := by
  intro heq
  have hsorted := byPath_of_summaryDigest (fun entry hentry => hothers entry (mem_of_selection hentry)) hentries hfree heq
  have hperm : (selection others).Perm entries :=
    (perm_sortBy _ _).symm.trans ((List.Perm.of_eq hsorted).trans (perm_sortBy _ _))
  have hfull := naturalScope_selection others
  rw [naturalScope_perm hperm, hscope] at hfull
  revert hfull
  decide

end

section

variable {tree other : Tree} {entries others : List Entry} {fields : ManifestFields}

theorem validatedH1Digest_summaryDigest (entries : List Entry) : validatedH1Digest (summaryDigest entries) = .ok () := by
  have hprefix : treeHashPrefix <+: summaryDigest entries := prefix_append _ _
  have hdrop : (summaryDigest entries).drop treeHashPrefix.length = Base64.encode (Sha256.digest (summary entries)) :=
    drop_left
  unfold validatedH1Digest
  rw [if_neg (not_not.mpr hprefix), hdrop, Base64.decode_encode (digest_octets _)]
  exact if_neg (not_not.mpr rfl)

theorem hexdigest_allowed (data : Bytes) :
    (Sha256.hexdigest data).length = 64 ∧ (Sha256.hexdigest data).all Sha1.isHexDigit = true := by
  refine ⟨Sha256.length_hexdigest data, all_eq_true.mpr ?_⟩
  intro ch hch
  obtain ⟨d, hd, rfl⟩ := Sha256.mem_hexdigest hch
  exact Sha1.isHexDigit_hexDigit d hd

theorem validatedFileDigestMap_digestMap (entries : List Entry) :
    validatedFileDigestMap (digestMap entries) = .ok () ↔ ∀ entry ∈ entries, mapPathAllowed entry.relative := by
  constructor
  · intro h entry hentry
    have hmem : (entry.relative, entry.digestHex) ∈ digestMap entries := mem_map.mpr ⟨entry, hentry, rfl⟩
    have hcheck := forM_ok_mem h _ (mem_sortBy.mpr hmem)
    exact not_not.mp (guard_ok hcheck).1
  · intro h
    apply forM_ok
    intro pair hpair
    obtain ⟨entry, hentry, rfl⟩ := mem_map.mp (mem_sortBy.mp hpair)
    rw [if_neg (not_not.mpr (h entry hentry))]
    exact if_neg (not_not.mpr (hexdigest_allowed entry.payload))

/-- No backslash in the path of a file or link, and no link to a directory in the place of the manifest at the root. -/
structure Portable (tree : Tree) : Prop where
  slashes : ∀ node ∈ tree.nodes, node.2 ≠ .directory → ∀ name ∈ node.1, '\\' ∉ name
  manifest : ∀ target, ([rootManifestName], Node.link target true) ∉ tree.nodes

theorem backslash_posix (place : Place) : '\\' ∈ posix place ↔ ∃ name ∈ place, '\\' ∈ name := by
  have hslash : '\\' ∉ ['/'] := by decide
  induction place with
  | nil => simp [posix]
  | cons name rest ih =>
    cases rest with
    | nil => simp [posix]
    | cons next rest =>
      have hsplit : posix (name :: next :: rest) = name ++ ['/'] ++ posix (next :: rest) := intercalate_cons_cons
      rw [hsplit, mem_append, mem_append]
      refine (or_congr_right ih).trans ?_
      simp [hslash]

theorem posix_head {name : Text} (rest : Place) (h : FileTree.isProper name = true ∧ '/' ∉ name) :
    ∃ ch tail, posix (name :: rest) = ch :: tail ∧ ch ≠ '/' := by
  obtain ⟨hproper, hslash⟩ := h
  cases name with
  | nil => cases hproper
  | cons ch chars =>
    have hne : ch ≠ '/' := fun heq => hslash (heq ▸ mem_cons_self)
    cases rest with
    | nil => exact ⟨ch, chars, by simp [posix], hne⟩
    | cons next rest =>
      refine ⟨ch, chars ++ ['/'] ++ posix (next :: rest), ?_, hne⟩
      unfold posix
      rw [intercalate_cons_cons]
      rfl

theorem posix_single (name : Text) : posix [name] = name := by simp [posix]

theorem rootManifestName_named : [rootManifestName] ≠ [] ∧
    ∀ name ∈ [rootManifestName], (FileTree.isProper name = true ∧ '/' ∉ name) ∧ '\\' ∉ name := by
  refine ⟨cons_ne_nil _ _, fun name hname => ?_⟩
  rw [mem_singleton.mp hname]
  decide

/-- The paths of a portable tree are the ones that a map may have. -/
theorem allowed_of_portable (hscan : Scanned tree entries) (h : Portable tree) {entry : Entry} (hentry : entry ∈ entries) :
    mapPathAllowed entry.relative := by
  obtain ⟨node, hnode, hrelative, hdirectory, hlink⟩ := hscan.noted entry hentry
  obtain ⟨hne, hnames⟩ := tree.named node hnode
  have hsplit := splitOn_intercalate '/' (fun name hname => (hnames name hname).2) hne
  have hbreak := (hscan.valid entry hentry).relative
  rw [hrelative] at hbreak ⊢
  obtain ⟨name, rest, hplace⟩ := exists_cons_of_ne_nil hne
  obtain ⟨ch, tail, hpath, hch⟩ := posix_head rest (hnames name (hplace ▸ mem_cons_self))
  rw [← hplace] at hpath
  refine ⟨?_, ?_, hbreak, ?_, ?_, ?_⟩
  · rw [hpath]
    exact cons_ne_nil _ _
  · rw [backslash_posix]
    rintro ⟨name, hname, hmem⟩
    exact h.slashes node hnode hdirectory name hname hmem
  · rw [hpath]
    exact fun heq => hch (Option.some.inj heq)
  · intro heq
    rw [← posix_single rootManifestName] at heq
    have hroot : node.1 = [rootManifestName] :=
      posix_injective ⟨hne, hnames⟩ ⟨rootManifestName_named.1, fun name hname => (rootManifestName_named.2 name hname).1⟩ heq
    obtain ⟨target, htarget⟩ := hlink hroot
    apply h.manifest target
    rw [← hroot, ← htarget]
    exact hnode
  · intro segment hsegment
    unfold posix at hsegment
    rw [hsplit] at hsegment
    exact (hnames segment hsegment).1

theorem portable_of_allowed (hscan : Scanned tree entries) (h : ∀ entry ∈ entries, mapPathAllowed entry.relative) :
    Portable tree := by
  refine ⟨?_, ?_⟩
  · intro node hnode hdirectory name hname hmem
    have hnoted : Noted node := by
      refine ⟨hdirectory, fun hplace => ?_⟩
      rw [hplace] at hname
      exact absurd hmem (rootManifestName_named.2 name hname).2
    obtain ⟨entry, hentry, hrelative⟩ := hscan.complete node hnode hnoted
    obtain ⟨-, hslash, -⟩ := h entry hentry
    rw [hrelative, backslash_posix] at hslash
    exact hslash ⟨name, hname, hmem⟩
  · intro target hnode
    obtain ⟨entry, hentry, hrelative⟩ := hscan.complete _ hnode ⟨Node.noConfusion, fun _ => ⟨target, rfl⟩⟩
    obtain ⟨-, -, -, -, hroot, -⟩ := h entry hentry
    rw [hrelative, posix_single] at hroot
    exact hroot rfl

/-- The bytes that are hashed for a tree, in full and, over the caps, as a sample. -/
def hashedTree (tree : Tree) : List Bytes :=
  match scanEntries tree with
  | .ok entries => hashed entries ++ if naturalScope entries = sampled then hashed (selection entries) else []
  | .error _ => []

theorem computeMaterializedTreeHash_eq (h : scanEntries tree = .ok entries) : computeMaterializedTreeHash tree false =
    .ok (summaryDigest (if naturalScope entries = sampled then selection entries else entries), naturalScope entries) := by
  unfold computeMaterializedTreeHash
  rw [bind_eq h]
  rfl

theorem computeMaterializedTreeHash_forced (h : scanEntries tree = .ok entries) :
    computeMaterializedTreeHash tree true = .ok (summaryDigest entries, full) := by
  have hne : full ≠ sampled := by decide
  unfold computeMaterializedTreeHash
  rw [bind_eq h]
  show Except.ok (summaryDigest (if full = sampled then selection entries else entries), full) = _
  rw [if_neg hne]

/-- A digest passes as the full one of a tree over the caps just if it is that and not the digest of the sample. -/
theorem verify_full_iff (h : scanEntries tree = .ok entries) {expected : List Nat} {algorithm : Option Text}
    (halgorithm : algorithm = none ∨ algorithm = some treeHashAlgorithm) (hexpected : validatedH1Digest expected = .ok ()) :
    verifyMaterializedTreeHash tree expected algorithm full = .ok () ↔
      (naturalScope entries = sampled → summaryDigest (selection entries) ≠ expected) ∧ summaryDigest entries = expected := by
  have hknown : ¬ (algorithm ≠ none ∧ algorithm ≠ some treeHashAlgorithm) := by
    rintro ⟨hnone, hother⟩
    exact halgorithm.elim hnone hother
  have hcompare : ∀ actual, compareDigest actual expected = .ok () ↔ actual = expected := by
    intro actual
    unfold compareDigest
    split
    next hne => exact ⟨fun hrun => absurd hrun nofun, fun heq => absurd heq hne⟩
    next heq => exact ⟨fun _ => not_not.mp heq, fun _ => rfl⟩
  have hne : sampled ≠ full := by decide
  unfold verifyMaterializedTreeHash
  rw [if_neg hknown, if_neg (fun hscope => hscope.1 rfl), bind_eq hexpected,
    bind_eq (computeMaterializedTreeHash_eq h)]
  dsimp only
  rcases naturalScope_cases entries with hscope | hscope
  · rw [hscope, if_neg (not_not.mpr rfl), if_neg hne.symm, hcompare]
    exact ⟨fun heq => ⟨fun hsampled => absurd hsampled hne.symm, heq⟩, fun hboth => hboth.2⟩
  · rw [hscope, if_pos hne, if_pos rfl, if_pos ⟨rfl, rfl⟩]
    split
    next heq => exact ⟨fun hrun => absurd hrun nofun, fun hboth => absurd heq (hboth.1 rfl)⟩
    next hother =>
      rw [bind_eq (computeMaterializedTreeHash_forced h)]
      exact (hcompare _).trans ⟨fun heq => ⟨fun _ => hother, heq⟩, fun hboth => hboth.2⟩

theorem verifyFileDigestMap_iff (h : scanEntries tree = .ok entries) :
    verifyFileDigestMap tree (digestMap entries) (some fileDigestAlgorithm) (summaryDigest entries)
      (some treeHashAlgorithm) (some full) = .ok () ↔ ∀ entry ∈ entries, mapPathAllowed entry.relative := by
  rw [← validatedFileDigestMap_digestMap]
  unfold verifyFileDigestMap
  rw [if_neg (not_not.mpr rfl), if_neg (fun hother => hother.2 rfl), if_neg (not_not.mpr rfl),
    bind_eq (validatedH1Digest_summaryDigest entries)]
  constructor
  · intro hrun
    obtain ⟨_, hmap, -⟩ := bind_ok hrun
    exact hmap
  · intro hmap
    rw [bind_eq hmap, bind_eq h]
    dsimp only
    rw [if_neg (fun ⟨path, hmem, hout⟩ => hout hmem), if_neg (fun ⟨path, hmem, hout⟩ => hout hmem),
      if_neg (fun ⟨path, hmem, hout⟩ => hout rfl), if_neg (not_not.mpr rfl)]

/-- What the recorded fields of a tree, and the recorded digests of another, are to be accepted as. -/
structure ScopesKept (tree other : Tree) (fields : ManifestFields) : Prop where
  accepted : verifyMaterializedTreeHash tree fields.treeHash (some fields.treeHashAlgorithm) fields.treeHashScope = .ok ()
  roundTrip : verifyFileDigestMap tree fields.fileDigests (some fields.fileDigestsAlgorithm) fields.treeHash
    (some fields.treeHashAlgorithm) (some fields.treeHashScope) = .ok ()
  apart : ∀ digest algorithm, computeMaterializedTreeHash other false = .ok (digest, sampled) →
    (computeMaterializedTreeHash tree false).map Prod.snd = .ok sampled →
    verifyMaterializedTreeHash tree digest algorithm full ≠ .ok ()

theorem accepted_recorded (h : scanEntries tree = .ok entries) (hfree : CollisionFree (hashedTree tree)) :
    verifyMaterializedTreeHash tree (summaryDigest entries) (some treeHashAlgorithm) full = .ok () := by
  have hvalid := (scanEntries_ok h).valid
  rw [verify_full_iff h (.inr rfl) (validatedH1Digest_summaryDigest entries)]
  refine ⟨fun hscope => selection_ne_summaryDigest hvalid hvalid (hfree.subset ?_) hscope, rfl⟩
  intro x hx
  unfold hashedTree
  rw [h]
  dsimp only
  rw [if_pos hscope]
  exact mem_append.mpr (mem_append.mp hx).symm

/-- A sampled digest of any tree is not taken for the full one of a tree over the caps. -/
theorem sampled_refused (hfree : CollisionFree (hashedTree tree ++ hashedTree other)) {digest : List Nat}
    {algorithm : Option Text} (hother : computeMaterializedTreeHash other false = .ok (digest, sampled))
    (htree : (computeMaterializedTreeHash tree false).map Prod.snd = .ok sampled) :
    verifyMaterializedTreeHash tree digest algorithm full ≠ .ok () := by
  intro hrun
  obtain ⟨others, hothers, -⟩ := bind_ok hother
  obtain ⟨result, hresult, -⟩ := map_ok htree
  obtain ⟨entries, hentries, -⟩ := bind_ok hresult
  rw [computeMaterializedTreeHash_eq hothers] at hother
  rw [computeMaterializedTreeHash_eq hentries] at htree
  obtain ⟨hdigest, hscope⟩ := Prod.mk.inj (Except.ok.inj hother)
  have hsampled : naturalScope entries = sampled := Except.ok.inj htree
  rw [if_pos hscope] at hdigest
  have halgorithm : algorithm = none ∨ algorithm = some treeHashAlgorithm := by
    have hguard := (guard_ok hrun).1
    rwa [not_and_or, not_not, not_not] at hguard
  have hvalidated : validatedH1Digest digest = .ok () := by
    rw [← hdigest]
    exact validatedH1Digest_summaryDigest _
  have hfull := ((verify_full_iff hentries halgorithm hvalidated).mp hrun).2
  rw [← hdigest] at hfull
  refine selection_ne_summaryDigest (scanEntries_ok hentries).valid (scanEntries_ok hothers).valid (hfree.subset ?_)
    hsampled hfull.symm
  intro x hx
  unfold hashedTree
  rw [hentries, hothers]
  dsimp only
  rw [if_pos hscope]
  rcases mem_append.mp hx with hx | hx
  · exact mem_append_right _ (mem_append_right _ hx)
  · exact mem_append_left _ (mem_append_left _ hx)

/-- The recorded fields of a tree are accepted, and scopes kept apart, just for portable trees. -/
theorem scopesKept_iff_portable (tree other : Tree) (fields : ManifestFields)
    (hfields : fullCoverageManifestFields tree = .ok fields)
    (hfree : CollisionFree (hashedTree tree ++ hashedTree other)) : ScopesKept tree other fields ↔ Portable tree := by
  obtain ⟨entries, hentries, hfields⟩ := bind_ok hfields
  cases hfields
  have hscan := scanEntries_ok hentries
  constructor
  · intro h
    exact portable_of_allowed hscan ((verifyFileDigestMap_iff hentries).mp h.roundTrip)
  · intro h
    refine ⟨?_, ?_, ?_⟩
    · exact accepted_recorded hentries (hfree.subset fun x hx => mem_append_left _ hx)
    · exact (verifyFileDigestMap_iff hentries).mpr fun entry hentry => allowed_of_portable hscan h hentry
    · exact fun digest algorithm hother htree => sampled_refused hfree hother htree

def sampleTree : Tree where
  nodes := [([['a']], .file [98]), ([['b']], .link [97] false)]
  distinct := by decide
  named := by decide
  rooted := by decide

theorem scanEntries_sample : scanEntries sampleTree = .ok [sampleFile, sampleLink] := rfl

theorem scopesKept_iff_portable_sample : ∃ fields, fullCoverageManifestFields sampleTree = .ok fields ∧
    Portable sampleTree ∧ ScopesKept sampleTree sampleTree fields := by
  have hscope : naturalScope [sampleFile, sampleLink] ≠ sampled := by decide
  have hportable : Portable sampleTree := by
    refine ⟨by decide, ?_⟩
    intro target hmem
    simp [sampleTree] at hmem
  have hfields := bind_eq (f := fun entries => .ok (⟨fileDigestAlgorithm, digestMap entries, treeHashAlgorithm,
    summaryDigest entries, full⟩ : ManifestFields)) scanEntries_sample
  refine ⟨_, hfields, hportable, (scopesKept_iff_portable _ _ _ hfields ?_).mpr hportable⟩
  refine collisionFree_sample.subset ?_
  intro x hx
  unfold hashedTree at hx
  rw [scanEntries_sample] at hx
  dsimp only at hx
  rw [if_neg hscope, append_nil] at hx
  exact (mem_append.mp hx).elim id id

def backslashTree : Tree where
  nodes := [([['a', '\\', 'b']], .file [])]
  distinct := by decide
  named := by decide
  rooted := by decide

theorem scopesKept_backslash : ∃ fields, fullCoverageManifestFields backslashTree = .ok fields ∧
    ¬ ScopesKept backslashTree backslashTree fields := by
  have hscan : scanEntries backslashTree = .ok [⟨['a', '\\', 'b'], .file []⟩] := rfl
  refine ⟨_, bind_eq hscan, fun h => ?_⟩
  obtain ⟨-, hslash, -⟩ := (verifyFileDigestMap_iff hscan).mp h.roundTrip _ mem_cons_self
  exact hslash (by decide)

end

end Leitir.TreeHash
