import Leitir.Json
import Leitir.KeyedList
import Mathlib.Data.List.Induction

namespace Leitir.Catalogue

open List

open Json (Text)

section

/-- An entry of the catalogue of a corpus. -/
structure SourceEntry where
  name : Text
  host : Text
  owner : Text
  repo : Text
  commitSha : Text
  path : Text
  fetchedAt : Text
  verified : Bool := false
  degradedProvenance : Option Text := none
deriving DecidableEq

structure Identity where
  host : Text
  owner : Text
  repo : Text
  commitSha : Text
deriving DecidableEq

def SourceEntry.key (entry : SourceEntry) : Identity := ⟨entry.host, entry.owner, entry.repo, entry.commitSha⟩

def Identity.order (identity : Identity) : KeyedList.Key :=
  [identity.host.map Char.toNat, identity.owner.map Char.toNat, identity.repo.map Char.toNat,
    identity.commitSha.map Char.toNat]

/-- The first entry of the identity is replaced, and the others of it are dropped. -/
def upsertLoop (entry : SourceEntry) : List SourceEntry → Bool → List SourceEntry
  | [], found => if found then [] else [entry]
  | existing :: rest, found =>
    if existing.key = entry.key then if found then upsertLoop entry rest true else entry :: upsertLoop entry rest true
    else existing :: upsertLoop entry rest found

def upsert (entries : List SourceEntry) (entry : SourceEntry) : List SourceEntry :=
  KeyedList.sortBy (fun item => item.key.order) (upsertLoop entry entries false)

/-- What is removed: one commit, or every commit of a repository. -/
structure Removal where
  host : Text
  owner : Text
  repo : Text
  commitSha : Option Text

def Removal.covers (removal : Removal) (identity : Identity) : Bool :=
  identity.host = removal.host && identity.owner = removal.owner && identity.repo = removal.repo &&
    (removal.commitSha = none || some identity.commitSha = removal.commitSha)

def keep (entries : List SourceEntry) (removal : Removal) : List SourceEntry :=
  entries.filter fun entry => !removal.covers entry.key

variable {item : SourceEntry} {entries : List SourceEntry}

theorem mem_upsertLoop {entry : SourceEntry} {found : Bool} :
    item ∈ upsertLoop entry entries found ↔
      item = entry ∧ found = false ∨ item ∈ entries ∧ item.key ≠ entry.key := by
  induction entries generalizing found with
  | nil => cases found <;> simp [upsertLoop]
  | cons existing rest ih =>
    rw [upsertLoop]
    split
    next hsame =>
      have hdropped : item ∈ existing :: rest ∧ item.key ≠ entry.key ↔ item ∈ rest ∧ item.key ≠ entry.key := by
        rw [mem_cons, and_congr_left_iff]
        intro hne
        refine ⟨?_, Or.inr⟩
        rintro (rfl | hmem)
        · exact absurd hsame hne
        · exact hmem
      rw [hdropped]
      split
      next hfound =>
        rw [ih, hfound]
      next hfound =>
        rw [mem_cons, ih]
        simp [hfound]
    next hne =>
      have hkept : item = existing ∧ item.key ≠ entry.key ↔ item = existing := by
        refine and_iff_left_of_imp ?_
        rintro rfl
        exact hne
      rw [mem_cons, ih, mem_cons, or_and_right, hkept, or_left_comm]

theorem mem_upsert {entry : SourceEntry} :
    item ∈ upsert entries entry ↔ item = entry ∨ item ∈ entries ∧ item.key ≠ entry.key := by
  unfold upsert
  rw [KeyedList.mem_sortBy, mem_upsertLoop]
  simp

theorem mem_keep {removal : Removal} :
    item ∈ keep entries removal ↔ item ∈ entries ∧ removal.covers item.key = false := by
  unfold keep
  rw [mem_filter, Bool.not_eq_true']

end

inductive Operation
  | insert (entry : SourceEntry)
  | remove (removal : Removal)

def Operation.touches : Operation → Identity → Bool
  | .insert entry, identity => entry.key = identity
  | .remove removal, identity => removal.covers identity

def Operation.apply : Operation → List SourceEntry → List SourceEntry
  | .insert entry, entries => upsert entries entry
  | .remove removal, entries => keep entries removal

theorem mem_apply {op : Operation} {entries : List SourceEntry} {item : SourceEntry} :
    item ∈ op.apply entries ↔
      if op.touches item.key then op = .insert item else item ∈ entries := by
  cases op with
  | insert entry =>
    unfold Operation.apply Operation.touches
    rw [mem_upsert]
    by_cases hsame : entry.key = item.key
    · simp only [hsame, decide_true, if_true, Operation.insert.injEq, ne_eq, not_true_eq_false, and_false, or_false]
      exact eq_comm
    · have hne : item ≠ entry := fun heq => hsame (by rw [heq])
      simp [hsame, hne, Ne.symm hsame]
  | remove removal =>
    change item ∈ keep entries removal ↔ if removal.covers item.key then _ else _
    rw [mem_keep]
    cases hcovers : removal.covers item.key with
    | true => simp
    | false => simp

def lastOperation (completed : List Operation) (identity : Identity) : Option Operation :=
  completed.reverse.find? fun op => op.touches identity

/-- What the catalogue should hold: the entries whose last completed operation was their insertion. -/
def Settled (initial : List SourceEntry) (completed : List Operation) (entry : SourceEntry) : Prop :=
  match lastOperation completed entry.key with
  | none => entry ∈ initial
  | some op => op = .insert entry

theorem mem_foldl_apply {initial : List SourceEntry} {completed : List Operation} {entry : SourceEntry} :
    entry ∈ completed.foldl (fun entries op => op.apply entries) initial ↔ Settled initial completed entry := by
  induction completed using List.reverseRecOn with
  | nil => rfl
  | append_singleton completed op ih =>
    rw [foldl_append, foldl_cons, foldl_nil, mem_apply]
    unfold Settled lastOperation
    rw [reverse_append, reverse_singleton, singleton_append, find?_cons]
    split
    next htouches => simp [htouches]
    next htouches =>
      rw [eq_false_of_ne_true htouches]
      exact ih

variable {ι : Type} [DecidableEq ι]

section

/-- How far an operation has come. -/
inductive Phase
  | waiting
  | holding
  | loaded (entries : List SourceEntry)
  | replacing (entries : List SourceEntry)
  | replaced
  | finished
deriving DecidableEq

/-- The root of a corpus: the catalogue file, the lock beside it, the operations that run, and those that are completed. -/
structure Root (ι : Type) where
  file : Option (List SourceEntry)
  lock : Option ι
  phases : ι → Phase
  completed : List Operation

def Root.loadSources (root : Root ι) : List SourceEntry := root.file.getD []

def Root.enter (root : Root ι) (i : ι) (phase : Phase) : Root ι := { root with phases := Function.update root.phases i phase }

def Root.writeSources (root : Root ι) (entries : List SourceEntry) : Root ι := { root with file := some entries }

def Root.complete (root : Root ι) (op : Operation) : Root ι := { root with completed := root.completed ++ [op] }

def Root.holdLock (root : Root ι) (lock : Option ι) : Root ι := { root with lock := lock }

def start (file : Option (List SourceEntry)) : Root ι := ⟨file, none, fun _ => .waiting, []⟩

/-- The steps of the operations. An insertion reads and replaces the catalogue under its lock; a removal reads it, looks
whether there is a file, and replaces it, without the lock. -/
inductive Step (ops : ι → Operation) : ι → Root ι → Root ι → Prop
  | acquire {root : Root ι} {i : ι} {entry : SourceEntry} (hop : ops i = .insert entry) (hphase : root.phases i = .waiting)
      (hfree : root.lock = none) : Step ops i root ((root.holdLock (some i)).enter i .holding)
  | loadLocked {root : Root ι} {i : ι} {entry : SourceEntry} (hop : ops i = .insert entry)
      (hphase : root.phases i = .holding) : Step ops i root (root.enter i (.loaded root.loadSources))
  | insert {root : Root ι} {i : ι} {entry : SourceEntry} {entries : List SourceEntry} (hop : ops i = .insert entry)
      (hphase : root.phases i = .loaded entries) :
      Step ops i root (((root.writeSources (upsert entries entry)).complete (.insert entry)).enter i .replaced)
  | release {root : Root ι} {i : ι} {entry : SourceEntry} (hop : ops i = .insert entry)
      (hphase : root.phases i = .replaced) : Step ops i root ((root.holdLock none).enter i .finished)
  | load {root : Root ι} {i : ι} {removal : Removal} (hop : ops i = .remove removal)
      (hphase : root.phases i = .waiting) : Step ops i root (root.enter i (.loaded root.loadSources))
  | look {root : Root ι} {i : ι} {removal : Removal} {entries : List SourceEntry} (hop : ops i = .remove removal)
      (hphase : root.phases i = .loaded entries) (hwrite : keep entries removal ≠ entries ∨ root.file.isSome = true) :
      Step ops i root (root.enter i (.replacing entries))
  | skip {root : Root ι} {i : ι} {removal : Removal} {entries : List SourceEntry} (hop : ops i = .remove removal)
      (hphase : root.phases i = .loaded entries) (hsame : keep entries removal = entries) (hnone : root.file = none) :
      Step ops i root ((root.complete (.remove removal)).enter i .finished)
  | remove {root : Root ι} {i : ι} {removal : Removal} {entries : List SourceEntry} (hop : ops i = .remove removal)
      (hphase : root.phases i = .replacing entries) :
      Step ops i root (((root.writeSources (keep entries removal)).complete (.remove removal)).enter i .finished)

def Any (ops : ι → Operation) (root root' : Root ι) : Prop := ∃ i, Step ops i root root'

/-- When a removal replaces the catalogue, the catalogue is the one that the removal has read, and no insertion has read a
catalogue that the removal changes. -/
def Root.Undisturbed (ops : ι → Operation) (root : Root ι) (i : ι) : Prop :=
  ∀ removal entries, ops i = .remove removal → root.phases i = .replacing entries →
    root.loadSources = entries ∧
      (keep entries removal = entries ∨ ∀ j entry, ops j = .insert entry → ∀ read, root.phases j ≠ .loaded read)

def UndisturbedStep (ops : ι → Operation) (root root' : Root ι) : Prop := ∃ i, Step ops i root root' ∧ root.Undisturbed ops i

/-- The insertion has the lock. -/
def Phase.locked : Phase → Bool
  | .holding => true
  | .loaded _ => true
  | .replaced => true
  | _ => false

/-- The catalogue is what the completed operations make of the initial one, insertions work one at a time, and what an
insertion has read is still there. -/
structure Consistent (ops : ι → Operation) (initial : List SourceEntry) (root : Root ι) : Prop where
  settled : root.loadSources = root.completed.foldl (fun entries op => op.apply entries) initial
  locked : ∀ i entry, ops i = .insert entry → (root.phases i).locked = true → root.lock = some i
  fresh : ∀ i entry entries, ops i = .insert entry → root.phases i = .loaded entries → entries = root.loadSources

theorem enter_phases (root : Root ι) (i j : ι) (phase : Phase) :
    (root.enter i phase).phases j = if j = i then phase else root.phases j :=
  Function.update_apply root.phases i phase j

variable {ops : ι → Operation} {initial : List SourceEntry} {root root' : Root ι} {i : ι}

omit [DecidableEq ι] in
theorem consistent_start (ops : ι → Operation) (file : Option (List SourceEntry)) :
    Consistent ops (file.getD []) (start file : Root ι) where
  settled := rfl
  locked := by
    intro i entry _ hlocked
    cases hlocked
  fresh := by
    intro i entry entries _ hphase
    cases hphase

theorem Consistent.enter (h : Consistent ops initial root) {phase : Phase}
    (hlocked : ∀ entry, ops i = .insert entry → phase.locked = true → root.lock = some i)
    (hfresh : ∀ entry entries, ops i = .insert entry → phase = .loaded entries → entries = root.loadSources) :
    Consistent ops initial (root.enter i phase) where
  settled := h.settled
  locked := by
    intro j entry hop hj
    rw [enter_phases] at hj
    split at hj
    next hsame =>
      subst hsame
      exact hlocked entry hop hj
    next => exact h.locked j entry hop hj
  fresh := by
    intro j entry entries hop hj
    rw [enter_phases] at hj
    split at hj
    next hsame =>
      subst hsame
      exact hfresh entry entries hop hj
    next => exact h.fresh j entry entries hop hj

/-- The catalogue is replaced by what an operation makes of it, while no other insertion is at work on it. -/
theorem Consistent.replace (h : Consistent ops initial root) {op : Operation} {entries : List SourceEntry} {phase : Phase}
    (hentries : entries = op.apply root.loadSources) (hphase : ∀ read, phase ≠ .loaded read)
    (hlocked : ∀ entry, ops i = .insert entry → phase.locked = true → root.lock = some i)
    (hothers : entries = root.loadSources ∨ ∀ j entry, j ≠ i → ops j = .insert entry → ∀ read, root.phases j ≠ .loaded read) :
    Consistent ops initial (((root.writeSources entries).complete op).enter i phase) where
  settled := by
    change entries = (root.completed ++ [op]).foldl (fun entries op => op.apply entries) initial
    rw [foldl_append, ← h.settled]
    exact hentries
  locked := by
    intro j entry hop hj
    rw [enter_phases] at hj
    split at hj
    next hsame =>
      subst hsame
      exact hlocked entry hop hj
    next => exact h.locked j entry hop hj
  fresh := by
    intro j entry read hop hj
    rw [enter_phases] at hj
    split at hj
    next => exact absurd hj (hphase read)
    next hne =>
      change read = entries
      rcases hothers with hsame | hnone
      · rw [hsame]
        exact h.fresh j entry read hop hj
      · exact absurd hj (hnone j entry hne hop read)

omit [DecidableEq ι] in
/-- An insertion that has read the catalogue is the only one. -/
theorem Consistent.alone (h : Consistent ops initial root) {entry : SourceEntry} {entries : List SourceEntry}
    (hop : ops i = .insert entry) (hphase : root.phases i = .loaded entries) :
    ∀ j other, j ≠ i → ops j = .insert other → ∀ read, root.phases j ≠ .loaded read := by
  intro j other hne hother read hj
  have hmine := h.locked i entry hop (by rw [hphase]; rfl)
  have htheirs := h.locked j other hother (by rw [hj]; rfl)
  rw [hmine] at htheirs
  exact hne (Option.some.inj htheirs).symm

theorem Consistent.step (h : Consistent ops initial root) (hstep : Step ops i root root') (hclear : root.Undisturbed ops i) :
    Consistent ops initial root' := by
  cases hstep with
  | acquire hop hphase hfree =>
    have hnone : ∀ j entry, ops j = .insert entry → (root.phases j).locked = false := by
      intro j entry hother
      refine eq_false_of_ne_true fun hj => ?_
      have hlock := h.locked j entry hother hj
      rw [hfree] at hlock
      cases hlock
    have hheld : Consistent ops initial (root.holdLock (some i)) := by
      refine ⟨h.settled, ?_, h.fresh⟩
      intro j entry hother hj
      rw [show (root.holdLock (some i)).phases j = root.phases j from rfl, hnone j entry hother] at hj
      cases hj
    exact hheld.enter (fun _ _ _ => rfl) (fun _ _ _ hloaded => by cases hloaded)
  | loadLocked hop hphase =>
    refine h.enter (fun entry hown _ => h.locked i entry hown (by rw [hphase]; rfl)) ?_
    intro _ entries _ hloaded
    cases hloaded
    rfl
  | insert hop hphase =>
    have hread := h.fresh i _ _ hop hphase
    refine h.replace (by rw [hread]; rfl) (fun _ hloaded => by cases hloaded) ?_ (Or.inr (h.alone hop hphase))
    exact fun entry hown _ => h.locked i entry hown (by rw [hphase]; rfl)
  | release hop hphase =>
    have hmine := h.locked i _ hop (by rw [hphase]; rfl)
    refine ⟨h.settled, ?_, ?_⟩
    · intro j entry hother hj
      rw [enter_phases] at hj
      split at hj
      next => cases hj
      next hne =>
        have hlock := h.locked j entry hother hj
        rw [hmine] at hlock
        exact absurd (Option.some.inj hlock).symm hne
    · intro j entry entries hother hj
      rw [enter_phases] at hj
      split at hj
      next => cases hj
      next => exact h.fresh j entry entries hother hj
  | load hop hphase =>
    refine h.enter (fun entry hown => by rw [hop] at hown; cases hown) ?_
    exact fun entry _ hown => by rw [hop] at hown; cases hown
  | look hop hphase hwrite =>
    refine h.enter (fun entry hown => by rw [hop] at hown; cases hown) ?_
    exact fun entry _ hown => by rw [hop] at hown; cases hown
  | @skip _ _ removal _ hop hphase hsame hnone =>
    have hempty : root.loadSources = [] := by
      unfold Root.loadSources
      rw [hnone]
      rfl
    have hsettled : root.loadSources =
        (root.completed ++ [Operation.remove removal]).foldl (fun entries op => op.apply entries) initial := by
      rw [foldl_append, ← h.settled, hempty]
      rfl
    have hdone : Consistent ops initial (root.complete (.remove removal)) := ⟨hsettled, h.locked, h.fresh⟩
    refine hdone.enter (fun entry hown => by rw [hop] at hown; cases hown) ?_
    exact fun entry _ hown => by rw [hop] at hown; cases hown
  | remove hop hphase =>
    obtain ⟨hread, hothers⟩ := hclear _ _ hop hphase
    refine h.replace (by rw [hread]; rfl) (fun _ hloaded => by cases hloaded) ?_ ?_
    · exact fun entry hown => by rw [hop] at hown; cases hown
    · rw [hread]
      exact hothers.imp_right fun hnone j entry _ => hnone j entry

/-- In every run in which no removal is disturbed, the catalogue holds at each point exactly the entries whose last
completed operation was their insertion, beside the initial ones that no completed operation is about. -/
theorem catalogue_settled (ops : ι → Operation) (file : Option (List SourceEntry)) (root : Root ι)
    (hrun : Relation.ReflTransGen (UndisturbedStep ops) (start file) root) (entry : SourceEntry) :
    entry ∈ root.loadSources ↔ Settled (file.getD []) root.completed entry := by
  have hconsistent : Consistent ops (file.getD []) root := by
    induction hrun with
    | refl => exact consistent_start ops file
    | tail _ hstep ih =>
      obtain ⟨i, hstep, hclear⟩ := hstep
      exact ih.step hstep hclear
  rw [hconsistent.settled]
  exact mem_foldl_apply

def sampleEntry (repo : String) : SourceEntry where
  name := repo.toList
  host := "github.com".toList
  owner := "o".toList
  repo := repo.toList
  commitSha := List.replicate 40 'a'
  path := []
  fetchedAt := []

/-- One source is inserted while another is removed. -/
def sampleOps : Bool → Operation
  | false => .insert (sampleEntry "new")
  | true => .remove ⟨"github.com".toList, "o".toList, "old".toList, none⟩

theorem catalogue_settled_sample : ∃ root : Root Bool, root.phases true = .finished ∧
    ∀ entry, entry ∈ root.loadSources ↔ Settled [sampleEntry "old"] root.completed entry := by
  have hload : Relation.ReflTransGen (UndisturbedStep sampleOps) (start (some [sampleEntry "old"])) _ :=
    .single ⟨true, .load rfl rfl, fun _ _ _ hphase => nomatch hphase⟩
  have hlook := hload.tail ⟨true, .look rfl rfl (Or.inr rfl), fun _ _ _ hphase => nomatch hphase⟩
  have hremove := hlook.tail ⟨true, .remove rfl rfl, by
    intro removal entries hop hphase
    cases hphase
    refine ⟨rfl, Or.inr ?_⟩
    intro j entry hinsert read hread
    cases j with
    | false => cases hread
    | true => cases hinsert⟩
  exact ⟨_, rfl, catalogue_settled sampleOps (some [sampleEntry "old"]) _ hremove⟩

/-- A removal that has read the catalogue before an insertion replaces it after, and the insertion is lost. -/
theorem insertion_lost : ∃ root : Root Bool,
    Relation.ReflTransGen (Any sampleOps) (start (some [sampleEntry "old"])) root ∧ (∀ i, root.phases i = .finished) ∧
      Settled [sampleEntry "old"] root.completed (sampleEntry "new") ∧ sampleEntry "new" ∉ root.loadSources := by
  have hload : Relation.ReflTransGen (Any sampleOps) (start (some [sampleEntry "old"])) _ := .single ⟨true, .load rfl rfl⟩
  have hacquire := hload.tail ⟨false, .acquire rfl rfl rfl⟩
  have hlocked := hacquire.tail ⟨false, .loadLocked rfl rfl⟩
  have hinsert := hlocked.tail ⟨false, .insert rfl rfl⟩
  have hrelease := hinsert.tail ⟨false, .release rfl rfl⟩
  have hlook := hrelease.tail ⟨true, .look rfl rfl (Or.inr rfl)⟩
  have hremove := hlook.tail ⟨true, .remove rfl rfl⟩
  refine ⟨_, hremove, ?_, ?_, ?_⟩
  · decide
  · rfl
  · decide

end

section

/-- What an operation has read of the catalogue and may write back. -/
def Phase.read : Phase → List SourceEntry
  | .loaded entries => entries
  | .replacing entries => entries
  | _ => []

/-- No identity is listed twice, and every entry is an initial one or one whose insertion is completed. -/
structure Sane (initial : List SourceEntry) (completed : List Operation) (entries : List SourceEntry) : Prop where
  once : (entries.map SourceEntry.key).Nodup
  known : ∀ entry ∈ entries, entry ∈ initial ∨ .insert entry ∈ completed

/-- The file is sane, and so is whatever an operation has read of it, however old it is. -/
structure Root.Sane (initial : List SourceEntry) (root : Root ι) : Prop where
  listed : Catalogue.Sane initial root.completed root.loadSources
  read : ∀ i, Catalogue.Sane initial root.completed (root.phases i).read

variable {initial entries : List SourceEntry} {completed : List Operation} {ops : ι → Operation} {root root' : Root ι} {i : ι}

theorem nodup_upsertLoop {entry : SourceEntry} {found : Bool} (h : (entries.map SourceEntry.key).Nodup) :
    ((upsertLoop entry entries found).map SourceEntry.key).Nodup := by
  induction entries generalizing found with
  | nil => cases found <;> simp [upsertLoop]
  | cons existing rest ih =>
    rw [map_cons, nodup_cons] at h
    rw [upsertLoop]
    split
    next hsame =>
      split
      next => exact ih h.2
      next =>
        rw [map_cons, nodup_cons]
        refine ⟨?_, ih h.2⟩
        intro hmem
        obtain ⟨item, hitem, hkey⟩ := mem_map.mp hmem
        rcases mem_upsertLoop.mp hitem with ⟨_, hfound⟩ | ⟨_, hne⟩
        · cases hfound
        · exact hne hkey
    next hne =>
      rw [map_cons, nodup_cons]
      refine ⟨?_, ih h.2⟩
      intro hmem
      obtain ⟨item, hitem, hkey⟩ := mem_map.mp hmem
      rcases mem_upsertLoop.mp hitem with ⟨rfl, _⟩ | ⟨hrest, _⟩
      · exact hne hkey.symm
      · exact h.1 (mem_map.mpr ⟨item, hrest, hkey⟩)

theorem sane_nil : Sane initial completed [] := ⟨nodup_nil, fun _ hentry => absurd hentry not_mem_nil⟩

theorem Sane.later (h : Sane initial completed entries) (op : Operation) : Sane initial (completed ++ [op]) entries :=
  ⟨h.once, fun entry hentry => (h.known entry hentry).imp_right (mem_append_left [op])⟩

theorem Sane.upsert (h : Sane initial completed entries) (entry : SourceEntry) :
    Sane initial (completed ++ [.insert entry]) (upsert entries entry) where
  once := (((KeyedList.perm_sortBy _ _).map _).nodup_iff).mpr (nodup_upsertLoop h.once)
  known := by
    intro item hitem
    rcases mem_upsert.mp hitem with rfl | ⟨hmem, _⟩
    · exact Or.inr (mem_append_right completed (mem_singleton_self _))
    · exact (h.later _).known item hmem

theorem Sane.keep (h : Sane initial completed entries) (removal : Removal) :
    Sane initial (completed ++ [.remove removal]) (keep entries removal) where
  once := h.once.sublist (filter_sublist.map _)
  known := fun item hitem => (h.later _).known item (mem_keep.mp hitem).1

theorem Root.Sane.enter (h : root.Sane initial) {phase : Phase} (hphase : Catalogue.Sane initial root.completed phase.read) :
    (root.enter i phase).Sane initial where
  listed := h.listed
  read := by
    intro j
    rw [enter_phases]
    split
    next => exact hphase
    next => exact h.read j

omit [DecidableEq ι] in
/-- An operation is completed with a catalogue that is sane then. -/
theorem Root.Sane.complete (h : root.Sane initial) {op : Operation}
    (hentries : Catalogue.Sane initial (root.completed ++ [op]) entries) :
    ((root.writeSources entries).complete op).Sane initial :=
  ⟨hentries, fun j => (h.read j).later op⟩

theorem Root.Sane.step (h : root.Sane initial) (hstep : Step ops i root root') : root'.Sane initial := by
  have hread := h.read i
  cases hstep with
  | acquire _ _ _ =>
    have hheld : (root.holdLock (some i)).Sane initial := ⟨h.listed, h.read⟩
    exact hheld.enter sane_nil
  | loadLocked _ _ => exact h.enter h.listed
  | insert _ hphase =>
    rw [hphase] at hread
    exact (h.complete (hread.upsert _)).enter sane_nil
  | release _ _ =>
    have hfree : (root.holdLock none).Sane initial := ⟨h.listed, h.read⟩
    exact hfree.enter sane_nil
  | load _ _ => exact h.enter h.listed
  | look _ hphase _ =>
    rw [hphase] at hread
    exact h.enter hread
  | skip _ _ _ _ => exact Root.Sane.enter ⟨h.listed.later _, fun j => (h.read j).later _⟩ sane_nil
  | remove _ hphase =>
    rw [hphase] at hread
    exact (h.complete (hread.keep _)).enter sane_nil

/-- In every interleaving of insertions and removals, those that overwrite each other among them, the catalogue lists no
identity twice, and no entry whose insertion has not been completed. -/
theorem catalogue_lists_once (ops : ι → Operation) (file : Option (List SourceEntry)) (root : Root ι)
    (hfile : ((file.getD []).map SourceEntry.key).Nodup) (hrun : Relation.ReflTransGen (Any ops) (start file) root) :
    (root.loadSources.map SourceEntry.key).Nodup ∧
      ∀ entry ∈ root.loadSources, entry ∈ file.getD [] ∨ .insert entry ∈ root.completed := by
  have hsane : root.Sane (file.getD []) := by
    induction hrun with
    | refl => exact ⟨⟨hfile, fun _ => Or.inl⟩, fun _ => sane_nil⟩
    | tail _ hstep ih =>
      obtain ⟨i, hstep⟩ := hstep
      exact ih.step hstep
  exact ⟨hsane.listed.once, hsane.listed.known⟩

theorem catalogue_lists_once_sample : ∃ root : Root Bool, root.phases false = .replaced ∧
    (root.loadSources.map SourceEntry.key).Nodup ∧
      ∀ entry ∈ root.loadSources, entry ∈ [sampleEntry "old"] ∨ .insert entry ∈ root.completed := by
  have hload : Relation.ReflTransGen (Any sampleOps) (start (some [sampleEntry "old"])) _ := .single ⟨true, .load rfl rfl⟩
  have hacquire := hload.tail ⟨false, .acquire rfl rfl rfl⟩
  have hlocked := hacquire.tail ⟨false, .loadLocked rfl rfl⟩
  have hinsert := hlocked.tail ⟨false, .insert rfl rfl⟩
  exact ⟨_, rfl, catalogue_lists_once sampleOps (some [sampleEntry "old"]) _ (nodup_singleton _) hinsert⟩

end

end Leitir.Catalogue
