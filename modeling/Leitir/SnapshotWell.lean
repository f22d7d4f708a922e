import Leitir.SnapshotDestination
import Leitir.SnapshotFaithful

namespace Leitir.Snapshot

open List

open FileTree (Node Tree Run OsError resolve permits)
open Archive (Name Path Member parts)
open Shelf (asPosix code)

section

variable {α β : Type} {site after : Site}

variable {run : SiteRun α} {next : α → SiteRun β}

theorem site_bind :
    (run >>= next) site =
      match run site with
      | .ok a changed => next a changed
      | .error err changed => .error err changed := by
  change EStateM.bind run next site = _
  unfold EStateM.bind
  cases run site with
  | ok a changed => rfl
  | error err changed => rfl

def KeepsRoot (run : SiteRun α) : Prop :=
  ∀ site, match run site with
    | .ok _ after => after.root = site.root
    | .error _ after => after.root = site.root

theorem KeepsRoot.ok {a : α} (hrun : KeepsRoot run) (h : run site = .ok a after) :
    after.root = site.root := by
  have hkeep := hrun site
  rwa [h] at hkeep

theorem KeepsRoot.error {err : SnapshotError} (hrun : KeepsRoot run) (h : run site = .error err after) :
    after.root = site.root := by
  have hkeep := hrun site
  rwa [h] at hkeep

theorem KeepsRoot.bind (hrun : KeepsRoot run) (hnext : ∀ a, KeepsRoot (next a)) :
    KeepsRoot (run >>= next) := by
  intro site
  rw [site_bind]
  cases h : run site with
  | error err changed => exact hrun.error h
  | ok a changed =>
    have hfirst := hrun.ok h
    dsimp only
    cases hlast : next a changed with
    | ok b later => exact ((hnext a).ok hlast).trans hfirst
    | error err later => exact ((hnext a).error hlast).trans hfirst

theorem KeepsRoot.forM {f : α → SiteRun Unit} (h : ∀ a, KeepsRoot (f a)) (items : List α) : KeepsRoot (items.forM f) := by
  induction items with
  | nil => exact fun _ => rfl
  | cons item rest ih => exact (h item).bind fun _ => ih

end

section

variable {tree made staged : Tree} {staging : Path} {done entries : List Entry} {entry : Entry} {site after : Site}

def Belongs (entries : List Entry) (item : Path × Node) : Prop :=
  ∃ entry ∈ entries, entry.place <+: item.1 ∨ item.1 <+: entry.place ∧ isFolder item.2 = true

theorem Belongs.mono {item : Path × Node} (h : Belongs done item) (hsub : done ⊆ entries) : Belongs entries item := by
  obtain ⟨entry, hentry, hplace⟩ := h
  exact ⟨entry, hsub hentry, hplace⟩

end

section

variable {codec : Codec} {tree host : Tree} {staging : Path} {given : Record} {entry : Entry}

def Canonical (entry : Entry) : Prop := Corpus.targetPath entry.shelf.coded = .ok (entry.place.map code)

theorem canonical_congr {a b : Entry} (hpath : a.path = b.path) (hshelf : a.shelf = b.shelf) : Canonical a ↔ Canonical b := by
  have hplace : a.place = b.place := congrArg parts hpath
  unfold Canonical
  rw [hplace, hshelf]

/-- What the checks of a snapshot establish about its sources. -/
structure VerifiedSources (records : List Record) (entries : List Entry) : Prop where
  recorded : ∀ entry ∈ entries, ∃ given ∈ records, entry.path = given.entry.path ∧ entry.shelf = given.entry.shelf
  listed : ∀ given ∈ records, ∃ entry ∈ entries, entry.path = given.entry.path ∧ entry.shelf = given.entry.shelf
  posix : ∀ entry ∈ entries, asPosix entry.place = entry.path
  proper : ∀ entry ∈ entries, ∀ part ∈ entry.place, FileTree.isProper part = true
  distinct : (entries.map fun entry => entry.path).Nodup
  apart : ∀ a ∈ entries, ∀ b ∈ entries, a.path ≠ b.path → ¬ a.place <+: b.place

variable {lock : Lock} {records : List Record}

theorem VerifiedSources.pairwise {entries : List Entry} (h : VerifiedSources records entries) :
    entries.Pairwise fun a b => a ∈ entries ∧ b ∈ entries ∧ a.path ≠ b.path := by
  have hnodup := pairwise_map.mp h.distinct
  exact List.Pairwise.imp_of_mem (fun {a b} ha hb hne => ⟨ha, hb, hne⟩) hnodup

theorem VerifiedSources.sorted {entries : List Entry} (h : VerifiedSources records entries) :
    (KeyedList.sortBy (fun entry : Entry => [code entry.path]) entries).Pairwise fun a b => ¬ a.place <+: b.place := by
  have hperm := KeyedList.perm_sortBy (fun entry : Entry => [code entry.path]) entries
  have hnodup : ((KeyedList.sortBy (fun entry : Entry => [code entry.path]) entries).map fun entry => entry.path).Nodup :=
    (hperm.map _).nodup_iff.mpr h.distinct
  refine List.Pairwise.imp_of_mem (fun {a b} ha hb hne => ?_) (pairwise_map.mp hnodup)
  exact h.apart a (KeyedList.mem_sortBy.mp ha) b (KeyedList.mem_sortBy.mp hb) hne

theorem VerifiedSources.canonical_iff {entries : List Entry} (h : VerifiedSources records entries) :
    (∀ entry ∈ entries, Canonical entry) ↔ ∀ given ∈ records, Canonical given.entry := by
  constructor
  · intro hall given hgiven
    obtain ⟨entry, hentry, hpath, hshelf⟩ := h.listed given hgiven
    exact (canonical_congr hpath hshelf).mp (hall entry hentry)
  · intro hall entry hentry
    obtain ⟨given, hgiven, hpath, hshelf⟩ := h.recorded entry hentry
    exact (canonical_congr hpath hshelf).mpr (hall given hgiven)

theorem VerifiedSources.identities {entries : List Entry} (h : VerifiedSources records entries)
    (hcanonical : ∀ entry ∈ entries, Canonical entry) : entries.Pairwise fun a b => a.shelf ≠ b.shelf := by
  refine h.pairwise.imp ?_
  rintro a b ⟨ha, hb, hne⟩ hshelf
  have hsame : (.ok (a.place.map code) : Except Corpus.ValueError _) = .ok (b.place.map code) := by
    rw [← hcanonical a ha, ← hcanonical b hb, hshelf]
  have hplace : a.place = b.place :=
    map_injective_iff.mpr (map_injective_iff.mpr fun _ _ h => Char.toNat_inj.mp h) (Except.ok.inj hsame)
  exact hne (by rw [← h.posix a ha, ← h.posix b hb, hplace])

end

end Leitir.Snapshot
