import Leitir.BtsOrder
import Leitir.LayeredPath

/-! The walk goes breadth first, in every run and up to every limit. -/

namespace Leitir.Bts

open KeyedList LayeredPath List

variable {inp : Inputs} {w v u : Walk} {item : QueueItem} {rest : List QueueItem} {depth : Nat} {edge : Edge} {es : List Edge}

/-- The proposal that a followed edge puts on the heap. -/
structure ProposedBy (depth : Nat) (edge : Edge) (item : QueueItem) : Prop where
  node : item.node = edge.target
  incoming : item.incoming = some edge
  key : item.key = frontierKey ⟨depth + 1, edge.target, some edge⟩

def Walk.Recorded (w : Walk) (edge : Edge) (disposition : Disposition) : Prop :=
  ∃ t ∈ w.traversed, t.edge = edge ∧ t.disposition = disposition

variable (inp) in
/-- What following edges does to a walk, also past its limits. -/
structure Proposes (depth : Nat) (es : List Edge) (w v : Walk) : Prop where
  members : v.members = w.members
  visited : v.visited = w.visited
  halted : w.budgetHit = true → v.budgetHit = true
  sorted : w.queue.Pairwise QueueItem.Le → v.queue.Pairwise QueueItem.Le
  queue : ∀ item ∈ w.queue, item ∈ v.queue
  pushed : ∀ item ∈ v.queue, item ∈ w.queue ∨ ∃ edge ∈ es, Included inp.policy edge.target ∧ ProposedBy depth edge item
  traversed : ∀ t ∈ w.traversed, t ∈ v.traversed
  added : ∀ t ∈ v.traversed, t ∈ w.traversed ∨ t.edge.kind = .imports ∨
    t.edge ∈ es ∧ t.disposition = (evidenceOf inp t.edge).disposition
  recorded : ∀ edge ∈ es, v.Recorded edge (evidenceOf inp edge).disposition
  due : ∀ edge ∈ es, Included inp.policy edge.target → (∃ item ∈ v.queue, ProposedBy depth edge item) ∨ v.budgetHit = true

theorem Proposes.nil : Proposes inp depth [] w w where
  members := rfl
  visited := rfl
  halted h := h
  sorted h := h
  queue _ h := h
  pushed _ h := Or.inl h
  traversed _ h := h
  added _ h := Or.inl h
  recorded _ h := by cases h
  due _ h := by cases h

theorem Proposes.cons (h : Proposes inp depth [edge] w v) (h' : Proposes inp depth es v u) : Proposes inp depth (edge :: es) w u where
  members := h'.members.trans h.members
  visited := h'.visited.trans h.visited
  halted hw := h'.halted (h.halted hw)
  sorted hw := h'.sorted (h.sorted hw)
  queue item hitem := h'.queue item (h.queue item hitem)
  pushed := by
    intro item hitem
    rcases h'.pushed item hitem with hitem | ⟨other, hother, hpush⟩
    · rcases h.pushed item hitem with hitem | ⟨other, hother, hpush⟩
      · exact Or.inl hitem
      · exact Or.inr ⟨other, mem_cons.mpr (Or.inl (mem_singleton.mp hother)), hpush⟩
    · exact Or.inr ⟨other, mem_cons_of_mem _ hother, hpush⟩
  traversed t ht := h'.traversed t (h.traversed t ht)
  added := by
    intro t ht
    rcases h'.added t ht with ht | ht | ⟨ht, hdisposition⟩
    · rcases h.added t ht with ht | ht | ⟨ht, hdisposition⟩
      · exact Or.inl ht
      · exact Or.inr (Or.inl ht)
      · exact Or.inr (Or.inr ⟨mem_cons.mpr (Or.inl (mem_singleton.mp ht)), hdisposition⟩)
    · exact Or.inr (Or.inl ht)
    · exact Or.inr (Or.inr ⟨mem_cons_of_mem _ ht, hdisposition⟩)
  recorded := by
    intro other hother
    rcases mem_cons.mp hother with rfl | hother
    · obtain ⟨t, ht, hfacts⟩ := h.recorded other (mem_singleton.mpr rfl)
      exact ⟨t, h'.traversed t ht, hfacts⟩
    · exact h'.recorded other hother
  due := by
    intro other hother hincluded
    rcases mem_cons.mp hother with rfl | hother
    · rcases h.due other (mem_singleton.mpr rfl) hincluded with ⟨item, hitem, hpush⟩ | hhit
      · exact Or.inl ⟨item, h'.queue item hitem, hpush⟩
      · exact Or.inr (h'.halted hhit)
    · exact h'.due other hother hincluded

def Walk.memberIds (w : Walk) : List NodeId := w.members.map MemberEvidence.node

variable (inp) in
/-- What a round does with the proposal it takes: it visits some owners for the first time, all at the depth of the round,
and every proposal it adds comes from an edge of theirs. -/
structure Round (item : QueueItem) (rest : List QueueItem) (owners : List NodeId) (w v : Walk) : Prop where
  visited : ∀ n, v.visited.lookup n = if n ∈ owners then some (w.depthAfter item.incoming) else w.visited.lookup n
  new : ∀ n ∈ owners, n ∉ w.visited
  sorted : v.queue.Pairwise QueueItem.Le
  queue : ∀ other ∈ rest, other ∈ v.queue
  queued : ∀ other ∈ v.queue, other ∈ rest ∨
    other.node = item.node ∧ other.incoming = item.incoming ∧ other.key = frontierKey (w.arrival item) ∨
    ∃ edge, edge.source ∈ owners ∧ edge.kind ∈ runtimeKinds ∧ v.Recorded edge .includeSource ∧
      ProposedBy (w.depthAfter item.incoming) edge other
  popped : (∃ e ∈ v.visited.lookup item.node, e ≤ w.depthAfter item.incoming) ∨
    ∃ other ∈ v.queue, other.node = item.node ∧ other.incoming = item.incoming
  members : v.memberIds = w.memberIds ∧ (∀ n ∈ owners, n = item.node) ∨
    v.memberIds = w.memberIds ++ [item.node] ∧ item.node ∈ owners ∧
      (∀ n ∈ owners, n = item.node ∨ CarriesId inp.graph item.node n) ∧
      ∀ inner, CarriesId inp.graph item.node inner → inner ∈ v.visited ∨ v.budgetHit = true
  traversed : ∀ t ∈ w.traversed, t ∈ v.traversed
  added : ∀ t ∈ v.traversed, t ∈ w.traversed ∨ t.edge.kind = .imports ∨
    t.edge.source ∈ owners ∧ (t.disposition = .includeSource →
      (∃ other ∈ v.queue, ProposedBy (w.depthAfter item.incoming) t.edge other) ∨ v.budgetHit = true)

section

def Walk.LeadsTo (w : Walk) (source target : NodeId) : Prop :=
  ∃ t ∈ w.traversed, t.disposition = .includeSource ∧ t.edge.kind ∈ runtimeKinds ∧ t.edge.source = source ∧ t.edge.target = target

variable (inp) in
/-- A member carries an owner nested in it. -/
def Walk.Carries (w : Walk) (outer inner : NodeId) : Prop := outer ∈ w.memberIds ∧ CarriesId inp.graph outer inner

variable (inp) in
def Walk.PathTo (w : Walk) : NodeId → Nat → Prop := Path inp.seed w.LeadsTo (w.Carries inp)

def Walk.Awaits (w : Walk) (n : NodeId) (k : Nat) : Prop :=
  (∃ d, w.visited.lookup n = some d ∧ d ≤ k) ∨ (∃ item ∈ w.queue, item.node = n ∧ w.depthAfter item.incoming ≤ k) ∨
    w.budgetHit = true ∧ ∀ m d, w.visited.lookup m = some d → d ≤ k

variable (inp) in
/-- The invariant of the walk: the heap is in order, every depth is that of a path, and what a visited node leads to is awaited. -/
structure Breadth (w : Walk) : Prop where
  ordered : Ordered w
  nodup : w.memberIds.Nodup
  joined : ∀ n ∈ w.memberIds, n ∈ w.visited
  reached : ∀ n d, w.visited.lookup n = some d → w.PathTo inp n d
  proposed : ∀ item ∈ w.queue, w.PathTo inp item.node (w.depthAfter item.incoming)
  seeded : w.Awaits inp.seed 0
  carried : ∀ outer inner, w.Carries inp outer inner → ∃ d, w.visited.lookup outer = some d ∧ w.Awaits inner d
  followed : ∀ source target, w.LeadsTo source target → ∃ d, w.visited.lookup source = some d ∧ w.Awaits target (d + 1)

variable {n : NodeId}

theorem Ordered.due (hw : Ordered w) {k : Nat} (h : w.Awaits n k) : Due w.visited.lookup n k := by
  rcases h with h | ⟨item, hitem, -, hle⟩ | ⟨-, hall⟩
  · exact Or.inl h
  · refine Or.inr fun m d hd => ?_
    exact (hw.level item hitem m d hd).trans hle
  · exact Or.inr hall

variable {owners : List NodeId}

theorem Round.keeps (h : Round inp item rest owners w v) (hn : n ∈ w.visited) :
    v.visited.lookup n = w.visited.lookup n := by
  rw [h.visited, if_neg fun hin => h.new n hin hn]

theorem Round.depthAfter (h : Round inp item rest owners w v) {incoming : Option Edge}
    (hsource : ∀ edge ∈ incoming, edge.source ∈ w.visited) : v.depthAfter incoming = w.depthAfter incoming :=
  depthAfter_mono hsource fun _ hn => h.keeps hn

theorem Round.arrives (h : Round inp item rest owners w v) (hsource : edge.source ∈ owners) :
    v.depthAfter (some edge) = w.depthAfter item.incoming + 1 := by
  apply depthAfter_of_visited
  rw [h.visited, if_pos hsource]

theorem Round.level (h : Round inp item rest owners w v) (hlevel : ∀ n, ∀ k ∈ w.visited.lookup n, k ≤ w.depthAfter item.incoming) :
    ∀ n, ∀ k ∈ v.visited.lookup n, k ≤ w.depthAfter item.incoming := by
  intro n k hk
  rw [h.visited] at hk
  split at hk
  next =>
    cases hk
    exact le_refl _
  next => exact hlevel n k hk

theorem mem_visited_of_lookup {d : Nat} (h : w.visited.lookup n = some d) : n ∈ w.visited :=
  AList.lookup_isSome.mp (by rw [h]; rfl)

/-- The proposals after a round: those before it, the one it took, or those of the owners it visited. -/
theorem Round.arrival_cases (h : Round inp item rest owners w v) (hw : Ordered w) (hq : w.queue = item :: rest) {other : QueueItem}
    (hother : other ∈ v.queue) :
    (other ∈ rest ∧ v.depthAfter other.incoming = w.depthAfter other.incoming) ∨
    (other.node = item.node ∧ other.incoming = item.incoming ∧ other.key = frontierKey (w.arrival item) ∧
      v.depthAfter other.incoming = w.depthAfter item.incoming) ∨
    ∃ edge, edge.source ∈ owners ∧ edge.kind ∈ runtimeKinds ∧ v.Recorded edge .includeSource ∧
      ProposedBy (w.depthAfter item.incoming) edge other ∧ v.depthAfter other.incoming = w.depthAfter item.incoming + 1 := by
  have hmem : ∀ other ∈ rest, other ∈ w.queue := by
    intro other hother
    rw [hq]
    exact mem_cons_of_mem _ hother
  rcases h.queued other hother with hother | ⟨hnode, hincoming, hkey⟩ | ⟨edge, hsource, hkind, hrecorded, hproposed⟩
  · exact Or.inl ⟨hother, h.depthAfter (hw.proposed other (hmem other hother))⟩
  · refine Or.inr (Or.inl ⟨hnode, hincoming, hkey, ?_⟩)
    rw [hincoming]
    exact h.depthAfter (hw.proposed item (by rw [hq]; exact mem_cons_self))
  · refine Or.inr (Or.inr ⟨edge, hsource, hkind, hrecorded, hproposed, ?_⟩)
    rw [hproposed.incoming]
    exact h.arrives hsource

theorem Round.floor (h : Round inp item rest owners w v) (hw : Ordered w) (hq : w.queue = item :: rest) :
    ∀ other ∈ v.queue, w.depthAfter item.incoming ≤ v.depthAfter other.incoming := by
  intro other hother
  rcases h.arrival_cases hw hq hother with ⟨hother, hdepth⟩ | ⟨-, -, -, hdepth⟩ | ⟨edge, -, -, -, -, hdepth⟩
  · have hsorted := hw.sorted
    rw [hq, pairwise_cons] at hsorted
    have hitem : item ∈ w.queue := by
      rw [hq]
      exact mem_cons_self
    have hmem : other ∈ w.queue := by
      rw [hq]
      exact mem_cons_of_mem _ hother
    rw [hdepth]
    exact depth_le_of_le (hsorted.1 other hother) (hw.keyed item hitem) (hw.keyed other hmem)
  · exact hdepth.ge
  · omega

theorem Round.ordered (h : Round inp item rest owners w v) (hw : Ordered w) (hq : w.queue = item :: rest) : Ordered v := by
  have hitem : item ∈ w.queue := by
    rw [hq]
    exact mem_cons_self
  have hmem : ∀ other ∈ rest, other ∈ w.queue := by
    intro other hother
    rw [hq]
    exact mem_cons_of_mem _ hother
  have hvisits : ∀ n ∈ w.visited, n ∈ v.visited := by
    intro n hn
    rw [← AList.lookup_isSome, h.keeps hn, AList.lookup_isSome]
    exact hn
  refine ⟨h.sorted, ?_, ?_, ?_⟩
  · intro other hother
    unfold Walk.arrival
    rcases h.arrival_cases hw hq hother with ⟨hother, hdepth⟩ | ⟨hnode, hincoming, hkey, hdepth⟩ | ⟨edge, -, -, -, hproposed, hdepth⟩
    · rw [hdepth]
      exact hw.keyed other (hmem other hother)
    · rw [hdepth, hnode, hincoming]
      exact hkey
    · rw [hdepth, hproposed.node, hproposed.incoming]
      exact hproposed.key
  · intro other hother edge hedge
    rcases h.queued other hother with hother | ⟨-, hincoming, -⟩ | ⟨edge', hsource, -, -, hproposed⟩
    · exact hvisits _ (hw.proposed other (hmem other hother) edge hedge)
    · rw [hincoming] at hedge
      exact hvisits _ (hw.proposed item hitem edge hedge)
    · rw [hproposed.incoming] at hedge
      cases hedge
      refine mem_visited_of_lookup (d := w.depthAfter item.incoming) ?_
      rw [h.visited, if_pos hsource]
  · intro other hother n k hk
    exact (h.level (hw.level item hitem) n k hk).trans (h.floor hw hq other hother)

theorem Round.members_mono (h : Round inp item rest owners w v) : ∀ n ∈ w.memberIds, n ∈ v.memberIds := by
  intro n hn
  rcases h.members with ⟨heq, -⟩ | ⟨heq, -⟩
  · rw [heq]
    exact hn
  · rw [heq]
    exact mem_append_left _ hn

theorem Round.path (h : Round inp item rest owners w v) {k : Nat} (hpath : w.PathTo inp n k) : v.PathTo inp n k := by
  refine Path.mono ?_ ?_ hpath
  · rintro source target ⟨t, ht, hfacts⟩
    exact ⟨t, h.traversed t ht, hfacts⟩
  · rintro outer inner ⟨hmember, hcarries⟩
    exact ⟨h.members_mono outer hmember, hcarries⟩

theorem Round.nodup (h : Round inp item rest owners w v) (hw : Breadth inp w) : v.memberIds.Nodup := by
  rcases h.members with ⟨heq, -⟩ | ⟨heq, howner, -⟩
  · rw [heq]
    exact hw.nodup
  · rw [heq]
    refine hw.nodup.append (nodup_singleton _) ?_
    intro n hold hnew
    rw [mem_singleton.mp hnew] at hold
    exact h.new _ howner (hw.joined _ hold)

end

end Leitir.Bts
