import Leitir.BtsReach
import Leitir.BtsWalk

namespace Leitir.Bts

open KeyedList List

@[simp] theorem mem_heappush {item other : QueueItem} {queue : List QueueItem} :
    other ∈ heappush item queue ↔ other = item ∨ other ∈ queue :=
  mem_orderedInsert QueueItem.Le

def Walk.Doomed (w : Walk) : Prop := w.budgetHit = true ∨ w.blockers ≠ []

variable {inp : Inputs} {w w' w'' : Walk} {es : List Edge}

section

variable (inp) in
/-- A part of the walk that follows some of the edges: members and visits stay as they are,
traversed edges, proposals and blockers only grow, and what is new comes from these edges. -/
structure Frame (es : List Edge) (w w' : Walk) : Prop where
  members : w'.members = w.members
  visited : w'.visited = w.visited
  work : w.workUnits ≤ w'.workUnits
  doomed : w.Doomed → w'.Doomed
  traversed : ∀ t ∈ w.traversed, t ∈ w'.traversed
  queue : ∀ item ∈ w.queue, item ∈ w'.queue
  added : ∀ t ∈ w'.traversed, t ∈ w.traversed ∨
    t.disposition = (classify inp.policy t.edge.target none).disposition ∧
      (t.edge.kind = .imports ∨ t.edge ∈ es)
  pushed : ∀ item ∈ w'.queue, item ∈ w.queue ∨
    ∃ edge ∈ es, item.node = edge.target ∧ Included inp.policy edge.target

theorem Frame.refl : Frame inp es w w :=
  ⟨rfl, rfl, le_refl _, id, fun _ h => h, fun _ h => h, fun _ h => Or.inl h, fun _ h => Or.inl h⟩

theorem Frame.trans (h : Frame inp es w w') (h' : Frame inp es w' w'') : Frame inp es w w'' := by
  refine ⟨h'.members.trans h.members, h'.visited.trans h.visited, h.work.trans h'.work,
    fun hd => h'.doomed (h.doomed hd), fun t ht => h'.traversed t (h.traversed t ht),
    fun item hi => h'.queue item (h.queue item hi), ?_, ?_⟩
  · intro t ht
    rcases h'.added t ht with ht | ht
    · exact h.added t ht
    · exact Or.inr ht
  · intro item hi
    rcases h'.pushed item hi with hi | hi
    · exact h.pushed item hi
    · exact Or.inr hi

theorem Frame.of_eq (hm : w'.members = w.members) (hv : w'.visited = w.visited)
    (hw : w.workUnits ≤ w'.workUnits) (hd : w.Doomed → w'.Doomed) (ht : w'.traversed = w.traversed)
    (hq : w'.queue = w.queue) : Frame inp es w w' :=
  ⟨hm, hv, hw, hd, fun t h => by rwa [ht], fun item h => by rwa [hq], fun t h => Or.inl (by rwa [ht] at h),
    fun item h => Or.inl (by rwa [hq] at h)⟩

theorem Frame.foldl {β : Type} {f : Walk → β → Walk} {items : List β}
    (hstep : ∀ item ∈ items, ∀ w, Frame inp es w (f w item)) (w : Walk) :
    Frame inp es w (items.foldl f w) := by
  induction items generalizing w with
  | nil => exact Frame.refl
  | cons item rest ih =>
    have hfirst := hstep item mem_cons_self w
    have hrest := ih (fun other hother => hstep other (mem_cons_of_mem _ hother)) (f w item)
    exact hfirst.trans hrest

variable {depth : Nat} {edge : Edge} {item : DispositionEvidence}

theorem frame_record (hedge : edge.kind = .imports ∨ edge ∈ es) :
    Frame inp es w (w.record depth edge (classify inp.policy edge.target (some edge))) := by
  refine ⟨rfl, rfl, Nat.le_add_right _ _, id, fun t ht => mem_append_left _ ht, fun _ h => h, ?_,
    fun _ h => Or.inl h⟩
  intro t ht
  rcases mem_append.mp ht with ht | ht
  · exact Or.inl ht
  · cases mem_singleton.mp ht
    exact Or.inr ⟨classify_edge_irrel _ _, hedge⟩

theorem doomed_refuse : (w.refuse item).Doomed := by
  refine Or.inr ?_
  simp [Walk.refuse]

theorem frame_refuse : Frame inp es w (w.refuse item) :=
  Frame.of_eq rfl rfl (le_refl _) (fun _ => doomed_refuse) rfl rfl

theorem frame_noteExternal : Frame inp es w (w.noteExternal item) := by
  unfold Walk.noteExternal
  split
  next => exact Frame.of_eq rfl rfl (le_refl _) id rfl rfl
  next => exact Frame.refl

theorem frame_supportImport {support : Edge} (hkind : support.kind = .imports) :
    Frame inp es w (supportImport inp depth w support) := by
  have hrecord : Frame inp es w
      (w.record (depth + 1) support (classify inp.policy support.target (some support))) :=
    frame_record (Or.inl hkind)
  unfold supportImport
  dsimp only
  split
  next => exact hrecord.trans frame_refuse
  next => exact hrecord.trans frame_noteExternal

theorem frame_supportBinding :
    Frame inp es w (supportBinding inp depth edge w) := by
  unfold supportBinding
  split
  next => exact Frame.refl
  next =>
    refine Frame.foldl ?_ w
    intro support hsupport w
    have hmem := (mem_filter.mp hsupport).1
    have hkind := (mem_filter.mp hmem).2
    exact frame_supportImport (by simpa using hkind)

theorem frame_push (hmem : edge ∈ es) (hincl : Included inp.policy edge.target) :
    Frame inp es w (w.push depth edge) := by
  refine ⟨rfl, rfl, Nat.le_add_right _ _, id, fun _ h => h, ?_, fun _ h => Or.inl h, ?_⟩
  · intro item hi
    exact mem_heappush.mpr (Or.inr hi)
  · intro item hi
    rcases mem_heappush.mp hi with rfl | hi
    · exact Or.inr ⟨edge, hmem, rfl, hincl⟩
    · exact Or.inl hi

theorem mem_push : ∃ item ∈ (w.push depth edge).queue, item.node = edge.target :=
  ⟨_, mem_heappush.mpr (Or.inl rfl), rfl⟩

theorem doomed_stop {item : FrontierEvidence} : (w.stop item).Doomed := Or.inl rfl

theorem frame_stop {item : FrontierEvidence} : Frame inp es w (w.stop item) :=
  Frame.of_eq rfl rfl (le_refl _) (fun _ => doomed_stop) rfl rfl

variable (inp) in
/-- A runtime edge that is traversed, not rejected, and proposed when its target is included. -/
def Done (w : Walk) (edge : Edge) : Prop :=
  (∃ t ∈ w.traversed, t.edge = edge) ∧ (classify inp.policy edge.target none).disposition ≠ .reject ∧
    (Included inp.policy edge.target → ∃ item ∈ w.queue, item.node = edge.target)

theorem Frame.done {edge : Edge} (hframe : Frame inp es w w') (h : Done inp w edge) : Done inp w' edge := by
  obtain ⟨⟨t, ht, htedge⟩, hd, hq⟩ := h
  refine ⟨⟨t, hframe.traversed t ht, htedge⟩, hd, ?_⟩
  intro hincl
  obtain ⟨item, hi, hnode⟩ := hq hincl
  exact ⟨item, hframe.queue item hi, hnode⟩

theorem followAccepted_spec (hmem : edge ∈ es)
    (hitem : item = classify inp.policy edge.target (some edge)) (haccept : item.disposition ≠ .reject)
    (hseen : ∃ t ∈ w.traversed, t.edge = edge) :
    Frame inp es w (followAccepted inp depth edge item w) ∧
      (¬ (followAccepted inp depth edge item w).Doomed → Done inp (followAccepted inp depth edge item w) edge) := by
  have hclass : item.disposition = (classify inp.policy edge.target none).disposition :=
    hitem ▸ classify_edge_irrel _ _
  have hincl : item.disposition = .includeSource ↔ Included inp.policy edge.target :=
    hitem ▸ classify_include_iff
  unfold followAccepted
  split
  next => exact ⟨frame_stop, fun hd => absurd doomed_stop hd⟩
  next =>
    split
    next h =>
      split
      next => exact ⟨frame_stop, fun hd => absurd doomed_stop hd⟩
      next =>
        have hpush : Frame inp es w (w.push (depth + 1) edge) := frame_push hmem (hincl.mp h)
        have hsupport : Frame inp es _ (supportBinding inp depth edge (w.push (depth + 1) edge)) :=
          frame_supportBinding
        refine ⟨hpush.trans hsupport, fun _ => hsupport.done ?_⟩
        obtain ⟨t, ht, hedge⟩ := hseen
        exact ⟨⟨t, hpush.traversed t ht, hedge⟩, hclass ▸ haccept, fun _ => mem_push⟩
    next h =>
      have hsupport : Frame inp es w (supportBinding inp depth edge w) := frame_supportBinding
      refine ⟨hsupport, fun _ => hsupport.done ?_⟩
      exact ⟨hseen, hclass ▸ haccept, fun hi => absurd (hincl.mpr hi) h⟩

/-- Following an edge is a frame step, and the edge is done unless the walk is doomed. -/
theorem followEdge_spec (hmem : edge ∈ es) (depth : Nat) (w : Walk) :
    Frame inp es w (followEdge inp depth w edge) ∧
      (¬ (followEdge inp depth w edge).Doomed → Done inp (followEdge inp depth w edge) edge) := by
  set item := classify inp.policy edge.target (some edge) with hitem
  set counted : Walk := { w with edgesExamined := w.edgesExamined + 1 }
  have hcount : Frame inp es w counted := Frame.of_eq rfl rfl (le_refl _) id rfl rfl
  have hrecord : Frame inp es w (counted.record (depth + 1) edge item) :=
    hcount.trans (frame_record (Or.inr hmem))
  have hfollow : followEdge inp depth w edge =
      if item.disposition = .reject then (counted.record (depth + 1) edge item).refuse item
      else followAccepted inp depth edge item ((counted.record (depth + 1) edge item).noteExternal item) := rfl
  rw [hfollow]
  split
  next => exact ⟨hrecord.trans frame_refuse, fun hd => absurd doomed_refuse hd⟩
  next hreject =>
    have hnote : Frame inp es _ ((counted.record (depth + 1) edge item).noteExternal item) := frame_noteExternal
    have hseen : ∃ t ∈ ((counted.record (depth + 1) edge item).noteExternal item).traversed, t.edge = edge :=
      ⟨_, hnote.traversed _ (mem_append_right _ (mem_singleton.mpr rfl)), rfl⟩
    obtain ⟨hframe, hdone⟩ := followAccepted_spec hmem hitem hreject hseen
    exact ⟨(hrecord.trans hnote).trans hframe, hdone⟩

theorem followEdges_spec {edges : List Edge} (hsub : ∀ e ∈ edges, e ∈ es) (depth : Nat) (w : Walk) :
    Frame inp es w (edges.foldl (followEdge inp depth) w) ∧
      (¬ (edges.foldl (followEdge inp depth) w).Doomed →
        ∀ edge ∈ edges, Done inp (edges.foldl (followEdge inp depth) w) edge) := by
  induction edges generalizing w with
  | nil => exact ⟨Frame.refl, fun _ edge h => by cases h⟩
  | cons edge rest ih =>
    obtain ⟨hframe, hdone⟩ := followEdge_spec (hsub edge mem_cons_self) depth w
    obtain ⟨hrest, hall⟩ := ih (fun e he => hsub e (mem_cons_of_mem _ he)) (followEdge inp depth w edge)
    refine ⟨hframe.trans hrest, ?_⟩
    intro hd other hother
    rcases mem_cons.mp hother with rfl | hother
    · exact hrest.done (hdone fun h => hd (hrest.doomed h))
    · exact hall hd other hother

end

variable (inp) in
/-- What the pass over nested owners does: it visits all of them, takes those that are new as owners
whose unresolved edges block the set, and leaves the rest of the walk as it was. -/
structure Carry (ids owners owners' : List NodeId) (w w' : Walk) : Prop where
  members : w'.members = w.members
  traversed : w'.traversed = w.traversed
  queue : w'.queue = w.queue
  work : w.workUnits ≤ w'.workUnits
  doomed : w.Doomed → w'.Doomed
  visits : ∀ n ∈ w.visited, n ∈ w'.visited
  visited : ∀ n ∈ w'.visited, n ∈ w.visited ∨ n ∈ ids ∧ n ∈ owners'
  kept : ∀ n ∈ owners, n ∈ owners'
  owned : ∀ n ∈ owners', n ∈ owners ∨ n ∈ ids ∧ n ∈ w'.visited
  covers : ¬ w'.Doomed → ∀ n ∈ ids, n ∈ w'.visited
  resolved : ¬ w'.Doomed → ∀ n ∈ owners', n ∈ owners ∨ unresolvedBySource inp.graph n = []

theorem doomed_own {owner : NodeId} (h : w.Doomed) : (Walk.own inp w owner).Doomed := by
  rcases h with h | h
  · exact Or.inl h
  · refine Or.inr ?_
    simp [Walk.own, h]

theorem unresolved_of_own {owner : NodeId} (h : ¬ (Walk.own inp w owner).Doomed) :
    unresolvedBySource inp.graph owner = [] := by
  by_contra hne
  refine h (Or.inr ?_)
  simp [Walk.own, hne]

theorem carryOwners_spec (entry : FrontierEvidence) (ids owners : List NodeId) (w : Walk) :
    Carry inp ids owners (carryOwners inp entry ids owners w).1 w (carryOwners inp entry ids owners w).2 := by
  induction ids generalizing owners w with
  | nil =>
    refine ⟨rfl, rfl, rfl, le_refl _, id, fun _ h => h, fun _ h => Or.inl h, fun _ h => h, fun _ h => Or.inl h, ?_,
      fun _ _ h => Or.inl h⟩
    intro _ n hn
    cases hn
  | cons nested rest ih =>
    set spent : Walk := { w with workUnits := w.workUnits + 1 }
    set visiting : Walk := Walk.own inp { spent with visited := spent.visited.insert nested entry.depth } nested
    have hfresh : Carry inp (nested :: rest) owners
        (carryOwners inp entry rest (owners ++ [nested]) visiting).1 w
        (carryOwners inp entry rest (owners ++ [nested]) visiting).2 := by
      have h := ih (owners ++ [nested]) visiting
      have hvisit : ∀ n, n ∈ visiting.visited ↔ n = nested ∨ n ∈ w.visited := fun n => AList.mem_insert _
      have hnested := h.kept nested (by simp)
      refine ⟨h.members, h.traversed, h.queue, (Nat.le_succ _).trans h.work, ?_, ?_, ?_, ?_, ?_, ?_, ?_⟩
      · intro hd
        exact h.doomed (doomed_own hd)
      · intro n hn
        exact h.visits n ((hvisit n).mpr (Or.inr hn))
      · intro n hn
        rcases h.visited n hn with hn | ⟨hid, howner⟩
        · rcases (hvisit n).mp hn with rfl | hn
          · exact Or.inr ⟨mem_cons_self, hnested⟩
          · exact Or.inl hn
        · exact Or.inr ⟨mem_cons_of_mem _ hid, howner⟩
      · intro n hn
        exact h.kept n (mem_append_left _ hn)
      · intro n hn
        rcases h.owned n hn with hn | ⟨hid, hv⟩
        · rcases mem_append.mp hn with hn | hn
          · exact Or.inl hn
          · cases mem_singleton.mp hn
            exact Or.inr ⟨mem_cons_self, h.visits nested ((hvisit nested).mpr (Or.inl rfl))⟩
        · exact Or.inr ⟨mem_cons_of_mem _ hid, hv⟩
      · intro hd n hn
        rcases mem_cons.mp hn with rfl | hn
        · exact h.visits n ((hvisit n).mpr (Or.inl rfl))
        · exact h.covers hd n hn
      · intro hd n hn
        rcases h.resolved hd n hn with hn | hn
        · rcases mem_append.mp hn with hn | hn
          · exact Or.inl hn
          · cases mem_singleton.mp hn
            exact Or.inr (unresolved_of_own fun hv => hd (h.doomed hv))
        · exact Or.inr hn
    have hskip : nested ∈ w.visited → Carry inp (nested :: rest) owners
        (carryOwners inp entry rest owners spent).1 w (carryOwners inp entry rest owners spent).2 := by
      intro hmem
      have h := ih owners spent
      refine ⟨h.members, h.traversed, h.queue, (Nat.le_succ _).trans h.work, h.doomed, h.visits, ?_, h.kept, ?_, ?_,
        h.resolved⟩
      · intro n hn
        exact (h.visited n hn).imp_right fun hr => ⟨mem_cons_of_mem _ hr.1, hr.2⟩
      · intro n hn
        exact (h.owned n hn).imp_right fun hr => ⟨mem_cons_of_mem _ hr.1, hr.2⟩
      · intro hd n hn
        rcases mem_cons.mp hn with rfl | hn
        · exact h.visits n hmem
        · exact h.covers hd n hn
    unfold carryOwners
    dsimp only
    split
    next =>
      refine ⟨rfl, rfl, rfl, Nat.le_succ _, fun _ => doomed_stop, fun _ h => h, fun _ h => Or.inl h, fun _ h => h,
        fun _ h => Or.inl h, fun hd => absurd doomed_stop hd, fun hd => absurd doomed_stop hd⟩
    next =>
      split
      next => exact hfresh
      next depth hlookup =>
        split
        next => exact hfresh
        next => exact hskip (AList.lookup_isSome.mp (by rw [hlookup]; rfl))

end Leitir.Bts
