import Leitir.SnapshotPlan

namespace Leitir.Snapshot

open List

open FileTree (Node Tree Run OsError resolve)
open Archive (Name Path Member parts)
open Shelf (asPosix code)

/-- What stands at the root of the corpus: nothing, something that is no directory, or a directory with what is below it. -/
inductive Destination
  | absent
  | other
  | directory (mode : Nat) (tree : Tree)

def Destination.refusal : Destination → Option SnapshotError
  | .absent => none
  | .other => some (.fileExists "destination corpus is not an ordinary directory")
  | .directory _ [] => none
  | .directory _ (_ :: _) => some (.fileExists "destination corpus is not empty")

/-- The root of the corpus, and the directory beside it that an import fills. -/
structure Site where
  root : Destination
  install : Option Tree

abbrev SiteRun := EStateM SnapshotError Site

/-- The checks of an import, up to the extracted and verified sources. -/
def verifySnapshot (codec : Codec) (allows : Tree → Path → Bool) (fuel : Nat) (host : Tree) (staging : Path)
    (expectedLockSha256 : Option Name) (allowUnverifiedLock : Bool) (snapshot : Lock × List Member) :
    Except SnapshotError (Tree × List Entry) := do
  if expectedLockSha256 = none ∧ allowUnverifiedLock = false then
    .error (.verification "expected_lock_sha256 is required unless allow_unverified_lock=True")
  else
    let records ← loadLock codec snapshot.1 expectedLockSha256
    if isSha256 snapshot.1.tarballSha256 = false then .error (.verification "snapshot lock has no valid tarball_sha256")
    else if codec.sha256 (codec.tarballBytes snapshot.2) ≠ snapshot.1.tarballSha256 then
      .error (.verification "snapshot tarball SHA-256 mismatch")
    else
      match Archive.extractTarball allows staging fuel (some archiveRoot) snapshot.2 host with
      | .error err _ => .error (.extract err)
      | .ok _ tree => do
        let entries ← validateStaged codec tree staging snapshot.1 records
        pure (tree, entries)

/-- The verified sources of both models of an import are the same. -/
theorem importCorpus_eq_verify (codec : Codec) (allows : Tree → Path → Bool) (fuel : Nat) (host : Tree) (staging : Path)
    (occupied : Bool) (expected : Option Name) (allow : Bool) (snapshot : Lock × List Member) :
    importCorpus codec allows fuel host staging occupied expected allow snapshot =
      verifySnapshot codec allows fuel host staging expected allow snapshot >>= fun verified =>
        shelveImportedSources occupied verified.1 staging verified.2 := by
  unfold importCorpus verifySnapshot
  split
  next => rfl
  next =>
    cases loadLock codec snapshot.1 expected with
    | error err => rfl
    | ok records =>
      change (if _ then _ else _) = (if _ then _ else _) >>= _
      split
      next => rfl
      next =>
        split
        next => rfl
        next =>
          cases Archive.extractTarball allows staging fuel (some archiveRoot) snapshot.2 host with
          | error err changed => rfl
          | ok _ tree =>
            change validateStaged codec tree staging snapshot.1 records >>= _ =
              validateStaged codec tree staging snapshot.1 records >>= _ >>= _
            cases validateStaged codec tree staging snapshot.1 records with
            | error err => rfl
            | ok entries => rfl

section

variable {tree made : Tree}

def Unlinked (tree : Tree) (path : Path) : Prop := ∀ item ∈ tree, item.1 <+: path → FileTree.isLink item.2 = false

variable {path : Path}

theorem Unlinked.of_front {front : Path} (h : Unlinked tree path) (hfront : front <+: path) : Unlinked tree front :=
  fun item hitem hp => h item hitem (hp.trans hfront)

def OnWay (path : Path) (tree made : Tree) : Prop :=
  ∀ item ∈ made, item ∈ tree ∨ item.1 <+: path ∧ isFolder item.2 = true

theorem OnWay.unlinked {front : Path} (h : OnWay front tree made) (hlinks : Unlinked tree path) : Unlinked made path := by
  intro item hitem hp
  rcases h item hitem with hold | ⟨_, hfolder⟩
  · exact hlinks item hold hp
  · obtain ⟨place, node⟩ := item
    cases node with
    | directory mode => rfl
    | file mode data => cases hfolder
    | link target => cases hfolder

end

end Leitir.Snapshot
