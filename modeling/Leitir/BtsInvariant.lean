import Leitir.BtsFrame

namespace Leitir.Bts

open KeyedList List

variable {inp : Inputs} {w w' : Walk} {item : QueueItem} {rest : List QueueItem}

def Walk.Seen (w : Walk) (n : NodeId) : Prop := n ∈ w.visited ∨ ∃ item ∈ w.queue, item.node = n

variable (inp) in
/-- The invariant of the walk while it is not doomed: what is visited is needed by the seed and has all its
edges traversed, and it is a member or carried by one. -/
structure Holds (w : Walk) : Prop where
  reached : ∀ n ∈ w.visited, Reached inp n
  queued : ∀ item ∈ w.queue, Reached inp item.node
  seed : w.Seen inp.seed
  resolved : ∀ n ∈ w.visited, unresolvedBySource inp.graph n = []
  followed : ∀ n ∈ w.visited, ∀ edge ∈ outgoing inp.graph n, (∃ t ∈ w.traversed, t.edge = edge) ∧
    (classify inp.policy edge.target none).disposition ≠ .reject ∧
    (Included inp.policy edge.target → w.Seen edge.target)
  covered : ∀ n ∈ w.visited, ∃ member ∈ w.members, member.node = n ∨ CarriesId inp.graph member.node n
  carried : ∀ member ∈ w.members, member.node ∈ w.visited ∧
    ∀ n, CarriesId inp.graph member.node n → n ∈ w.visited
  classified : ∀ t ∈ w.traversed, t.disposition = (classify inp.policy t.edge.target none).disposition
  runtime : ∀ t ∈ w.traversed, t.edge.kind ∈ runtimeKinds → t.edge.source ∈ w.visited

theorem Holds.drop (hw : Holds inp w) (hv : w'.visited = w.visited) (hm : w'.members = w.members)
    (ht : w'.traversed = w.traversed) (hsub : ∀ item ∈ w'.queue, item ∈ w.queue)
    (hdrop : ∀ item ∈ w.queue, item ∈ w'.queue ∨ item.node ∈ w.visited) : Holds inp w' := by
  have hseen : ∀ n, w.Seen n → w'.Seen n := by
    rintro n (hn | ⟨item, hitem, rfl⟩)
    · exact Or.inl (by rwa [hv])
    · rcases hdrop item hitem with h | h
      · exact Or.inr ⟨item, h, rfl⟩
      · exact Or.inl (by rwa [hv])
  refine ⟨?_, fun item hi => hw.queued item (hsub item hi), hseen _ hw.seed, ?_, ?_, ?_, ?_, ?_, ?_⟩
  · rw [hv]
    exact hw.reached
  · rw [hv]
    exact hw.resolved
  · rw [hv, ht]
    intro n hn edge hedge
    obtain ⟨h1, h2, h3⟩ := hw.followed n hn edge hedge
    exact ⟨h1, h2, fun h => hseen _ (h3 h)⟩
  · rw [hv, hm]
    exact hw.covered
  · rw [hv, hm]
    exact hw.carried
  · rw [ht]
    exact hw.classified
  · rw [hv, ht]
    exact hw.runtime

variable (inp) in
/-- The walk as a visit begins: one proposal is taken and its node counts as visited. -/
structure Begins (c : NodeId) (w v : Walk) : Prop where
  members : v.members = w.members
  traversed : v.traversed = w.traversed
  visited : ∀ n, n ∈ v.visited ↔ n = c ∨ n ∈ w.visited
  sub : ∀ item ∈ v.queue, item ∈ w.queue
  rest : ∀ item ∈ w.queue, item ∈ v.queue ∨ item.node = c
  reached : Reached inp c

theorem mem_owner_edges {owners : List NodeId} {edge : Edge} :
    edge ∈ sortBy edgeKey (owners.flatMap (outgoing inp.graph)) ↔
      ∃ owner ∈ owners, edge ∈ outgoing inp.graph owner := by
  simp

theorem source_of_outgoing {owner : NodeId} {edge : Edge} (h : edge ∈ outgoing inp.graph owner) :
    edge ∈ inp.graph.edges ∧ edge.kind ∈ runtimeKinds ∧ edge.source = owner := by
  simpa [outgoing] using h

/-- The invariant after a visit, from what its passes over the nested owners and over the edges do. -/
theorem holds_of_visit {c : NodeId} {candidate : MemberEvidence} {v joined carried final : Walk}
    {ids owners : List NodeId} {es : List Edge} (hw : Holds inp w) (hb : Begins inp c w v)
    (hcand : candidate.node = c) (hmembers : joined.members = v.members ++ [candidate])
    (htraversed : joined.traversed = v.traversed) (hvisited : joined.visited = v.visited)
    (hqueue : joined.queue = v.queue) (hresolved : unresolvedBySource inp.graph c = [])
    (hids : ∀ n, n ∈ ids ↔ CarriesId inp.graph c n) (hcarry : Carry inp ids [c] owners joined carried)
    (hlive : ¬ carried.Doomed) (hes : ∀ e, e ∈ es ↔ ∃ owner ∈ owners, e ∈ outgoing inp.graph owner)
    (hframe : Frame inp es carried final) (hdone : ∀ e ∈ es, Done inp final e) : Holds inp final := by
  have hstart : ∀ n, n ∈ joined.visited ↔ n = c ∨ n ∈ w.visited := by
    rw [hvisited]
    exact hb.visited
  have hkeep : ∀ n ∈ joined.visited, n ∈ final.visited := by
    intro n hn
    rw [hframe.visited]
    exact hcarry.visits n hn
  have hcases : ∀ n ∈ final.visited, n ∈ w.visited ∨ n ∈ owners ∧ (n = c ∨ CarriesId inp.graph c n) := by
    intro n hn
    rw [hframe.visited] at hn
    rcases hcarry.visited n hn with hn | ⟨hn, howner⟩
    · rcases (hstart n).mp hn with rfl | hn
      · exact Or.inr ⟨hcarry.kept n (by simp), Or.inl rfl⟩
      · exact Or.inl hn
    · exact Or.inr ⟨howner, Or.inr ((hids n).mp hn)⟩
  have howners : ∀ n ∈ owners, n ∈ final.visited ∧ Reached inp n := by
    intro n hn
    rcases hcarry.owned n hn with hn | ⟨hid, hn⟩
    · cases mem_singleton.mp hn
      exact ⟨hkeep c ((hstart c).mpr (Or.inl rfl)), hb.reached⟩
    · rw [hframe.visited]
      exact ⟨hn, hb.reached.carried ((hids n).mp hid)⟩
  have hold : ∀ n ∈ w.visited, n ∈ final.visited := fun n hn => hkeep n ((hstart n).mpr (Or.inr hn))
  have hqueues : ∀ item ∈ v.queue, item ∈ final.queue := by
    intro item hitem
    apply hframe.queue
    rwa [hcarry.queue, hqueue]
  have hseen : ∀ n, w.Seen n → final.Seen n := by
    rintro n (hn | ⟨item, hitem, rfl⟩)
    · exact Or.inl (hold n hn)
    · rcases hb.rest item hitem with h | h
      · exact Or.inr ⟨item, hqueues item h, rfl⟩
      · exact Or.inl (h ▸ hkeep c ((hstart c).mpr (Or.inl rfl)))
  have holdT : ∀ t ∈ w.traversed, t ∈ final.traversed := by
    intro t ht
    apply hframe.traversed
    rwa [hcarry.traversed, htraversed, hb.traversed]
  have hfinalMembers : final.members = w.members ++ [candidate] := by
    rw [hframe.members, hcarry.members, hmembers, hb.members]
  have hnewT : ∀ t ∈ final.traversed, t ∈ w.traversed ∨
      t.disposition = (classify inp.policy t.edge.target none).disposition ∧
        (t.edge.kind = .imports ∨ t.edge ∈ es) := by
    intro t ht
    have := hframe.added t ht
    rwa [hcarry.traversed, htraversed, hb.traversed] at this
  refine ⟨?_, ?_, hseen _ hw.seed, ?_, ?_, ?_, ?_, ?_, ?_⟩
  · intro n hn
    rcases hcases n hn with hn | ⟨howner, -⟩
    · exact hw.reached n hn
    · exact (howners n howner).2
  · intro item hitem
    rcases hframe.pushed item hitem with hitem | ⟨edge, hedge, hnode, hincl⟩
    · rw [hcarry.queue, hqueue] at hitem
      exact hw.queued item (hb.sub item hitem)
    · obtain ⟨owner, howner, hout⟩ := (hes edge).mp hedge
      rw [hnode]
      exact Reached.target (howners owner howner).2 hout hincl
  · intro n hn
    rcases hcases n hn with hn | ⟨howner, -⟩
    · exact hw.resolved n hn
    · rcases hcarry.resolved hlive n howner with h | h
      · cases mem_singleton.mp h
        exact hresolved
      · exact h
  · intro n hn edge hedge
    rcases hcases n hn with hn | ⟨howner, -⟩
    · obtain ⟨⟨t, ht, hte⟩, hreject, hincl⟩ := hw.followed n hn edge hedge
      exact ⟨⟨t, holdT t ht, hte⟩, hreject, fun h => hseen _ (hincl h)⟩
    · obtain ⟨ht, hreject, hincl⟩ := hdone edge ((hes edge).mpr ⟨n, howner, hedge⟩)
      exact ⟨ht, hreject, fun h => Or.inr (hincl h)⟩
  · intro n hn
    rw [hfinalMembers]
    rcases hcases n hn with hn | ⟨-, hn⟩
    · obtain ⟨member, hmember, h⟩ := hw.covered n hn
      exact ⟨member, mem_append_left _ hmember, h⟩
    · refine ⟨candidate, by simp, ?_⟩
      rw [hcand]
      exact hn.imp_left Eq.symm
  · intro member hmember
    rw [hfinalMembers] at hmember
    rcases mem_append.mp hmember with hmember | hmember
    · obtain ⟨hself, hall⟩ := hw.carried member hmember
      exact ⟨hold _ hself, fun n hn => hold n (hall n hn)⟩
    · cases mem_singleton.mp hmember
      rw [hcand]
      refine ⟨hkeep c ((hstart c).mpr (Or.inl rfl)), ?_⟩
      intro n hn
      rw [hframe.visited]
      exact hcarry.covers hlive n ((hids n).mpr hn)
  · intro t ht
    rcases hnewT t ht with ht | ⟨hd, -⟩
    · exact hw.classified t ht
    · exact hd
  · intro t ht hkind
    rcases hnewT t ht with ht | ⟨-, himport | hedge⟩
    · exact hold _ (hw.runtime t ht hkind)
    · rw [himport] at hkind
      exact absurd hkind (by decide)
    · obtain ⟨owner, howner, hout⟩ := (hes _).mp hedge
      rw [(source_of_outgoing hout).2.2]
      exact (howners owner howner).1

/-- A visit that includes its node keeps the invariant, unless it dooms the walk. -/
theorem includeMember_holds {entry : FrontierEvidence} {candidate : MemberEvidence} {v : Walk}
    (hw : Holds inp w) (hb : Begins inp entry.node w v) (hc : candidate.node = entry.node)
    (hlive : ¬ (includeMember inp entry candidate v).Doomed) :
    Holds inp (includeMember inp entry candidate v) := by
  unfold includeMember at hlive ⊢
  split at hlive
  next => exact absurd doomed_stop hlive
  next hover =>
    rw [if_neg hover]
    dsimp only at hlive ⊢
    set joined : Walk := Walk.own inp { v with members := v.members ++ [candidate] } entry.node
    set ids := sortBy nestedKey (nestedOwners inp.graph entry.node)
    have hcarry : Carry inp ids [entry.node] _ joined _ := carryOwners_spec entry ids [entry.node] joined
    have hids : ∀ n, n ∈ ids ↔ CarriesId inp.graph entry.node n := fun n => mem_sortBy.trans mem_nestedOwners
    split at hlive
    next hhit => exact absurd (Or.inl hhit) hlive
    next hhit =>
      rw [if_neg hhit]
      unfold followOwners at hlive ⊢
      set owners := (carryOwners inp entry ids [entry.node] joined).1
      obtain ⟨hframe, hdone⟩ : Frame inp (sortBy edgeKey (owners.flatMap (outgoing inp.graph))) _ _ ∧ _ :=
        followEdges_spec (fun _ h => h) entry.depth (carryOwners inp entry ids [entry.node] joined).2
      have hcarried : ¬ (carryOwners inp entry ids [entry.node] joined).2.Doomed :=
        fun h => hlive (hframe.doomed h)
      have hjoined : ¬ joined.Doomed := fun h => hcarried (hcarry.doomed h)
      have hmembers : joined.members = v.members ++ [candidate] := rfl
      have hqueue : joined.queue = v.queue := rfl
      exact holds_of_visit hw hb hc hmembers rfl rfl hqueue (unresolved_of_own hjoined) hids hcarry hcarried
        (fun _ => mem_owner_edges) hframe (hdone hlive)

theorem reached_node (hseed : seedValid inp) {n : NodeId} (h : Reached inp n) :
    ∃ node, inp.graph.node n = some node := by
  have hmem : ∀ {id : NodeId}, id ∈ nodeIds inp.graph.nodes → ∃ node, inp.graph.node id = some node := by
    intro id hid
    obtain ⟨node, hnode, rfl⟩ := mem_map.mp hid
    exact ⟨node, Graph.node_of_mem hnode⟩
  cases h with
  | seed =>
    obtain ⟨source, hsource⟩ := Option.isSome_iff_exists.mp hseed.2.2
    obtain ⟨node, hnode, -⟩ := Option.bind_eq_some_iff.mp hsource
    exact ⟨node, hnode⟩
  | carried _ hcarries =>
    obtain ⟨-, -, node, hnode, -, rfl, -⟩ := hcarries
    exact ⟨node, Graph.node_of_mem hnode⟩
  | target _ hedge _ => exact hmem (inp.graph.edge_endpoints _ (source_of_outgoing hedge).1).2

theorem doomed_block {item : DispositionEvidence} : (w.block item).Doomed := by
  refine Or.inr ?_
  simp [Walk.block]

theorem visitNode_holds {entry : FrontierEvidence} {v : Walk} (hseed : seedValid inp) (hw : Holds inp w)
    (hb : Begins inp entry.node w { v with visited := v.visited.insert entry.node entry.depth })
    (hlive : ¬ (visitNode inp entry v).Doomed) : Holds inp (visitNode inp entry v) := by
  obtain ⟨node, hnode⟩ := reached_node hseed hb.reached
  unfold visitNode at hlive ⊢
  simp only [hnode] at hlive ⊢
  split at hlive
  next => exact absurd doomed_block hlive
  next source hsource =>
    split at hlive
    next => exact absurd doomed_block hlive
    next digest hdigest => exact includeMember_holds hw hb rfl hlive

/-- One round of the walk keeps the invariant, unless it dooms the walk. -/
theorem processItem_holds (hseed : seedValid inp) (hw : Holds inp w) (hq : w.queue = item :: rest)
    (hlive : ¬ (processItem inp item { w with queue := rest }).Doomed) :
    Holds inp (processItem inp item { w with queue := rest }) := by
  have hcur : Reached inp item.node := hw.queued item (by rw [hq]; exact mem_cons_self)
  have hsub : ∀ other ∈ rest, other ∈ w.queue := by
    intro other hother
    rw [hq]
    exact mem_cons_of_mem _ hother
  have hrest : ∀ other ∈ w.queue, other ∈ rest ∨ other.node = item.node := by
    intro other hother
    rw [hq] at hother
    rcases mem_cons.mp hother with rfl | h
    · exact Or.inr rfl
    · exact Or.inl h
  unfold processItem at hlive ⊢
  dsimp only at hlive ⊢
  split at hlive
  next => exact absurd (Or.inl rfl) hlive
  next hwork =>
    rw [if_neg hwork]
    split at hlive
    next =>
      exact visitNode_holds hseed hw ⟨rfl, rfl, fun n => AList.mem_insert _, hsub, hrest, hcur⟩ hlive
    next previous hlookup =>
      split at hlive
      next hle =>
        rw [if_pos hle]
        have hvisited : item.node ∈ w.visited := AList.lookup_isSome.mp (by rw [hlookup]; rfl)
        refine hw.drop rfl rfl rfl hsub ?_
        intro other hother
        rcases hrest other hother with h | h
        · exact Or.inl h
        · exact Or.inr (by rwa [h])
      next hle =>
        rw [if_neg hle]
        exact visitNode_holds hseed hw ⟨rfl, rfl, fun n => AList.mem_insert _, hsub, hrest, hcur⟩ hlive

section

/-- Work is only added, and a doomed walk stays doomed. -/
structure Grows (w w' : Walk) : Prop where
  work : w.workUnits ≤ w'.workUnits
  doomed : w.Doomed → w'.Doomed

theorem Grows.trans {w'' : Walk} (h : Grows w w') (h' : Grows w' w'') : Grows w w'' :=
  ⟨h.work.trans h'.work, fun hd => h'.doomed (h.doomed hd)⟩

theorem includeMember_grows {entry : FrontierEvidence} {candidate : MemberEvidence} :
    Grows w (includeMember inp entry candidate w) := by
  unfold includeMember
  split
  next => exact ⟨le_refl _, fun _ => doomed_stop⟩
  next =>
    dsimp only
    set joined : Walk := Walk.own inp { w with members := w.members ++ [candidate] } entry.node
    set ids := sortBy nestedKey (nestedOwners inp.graph entry.node)
    have hjoined : Grows w joined := ⟨le_refl _, fun h => doomed_own h⟩
    have hcarry : Carry inp ids [entry.node] _ joined _ := carryOwners_spec entry ids [entry.node] joined
    have hcarried := hjoined.trans ⟨hcarry.work, hcarry.doomed⟩
    split
    next => exact hcarried
    next =>
      set owners := (carryOwners inp entry ids [entry.node] joined).1
      have hframe : Frame inp (sortBy edgeKey (owners.flatMap (outgoing inp.graph))) _ _ :=
        (followEdges_spec (fun _ h => h) entry.depth (carryOwners inp entry ids [entry.node] joined).2).1
      exact hcarried.trans ⟨hframe.work, hframe.doomed⟩

theorem visitNode_grows (entry : FrontierEvidence) (w : Walk) : Grows w (visitNode inp entry w) := by
  have hvisit : Grows w { w with visited := w.visited.insert entry.node entry.depth } := ⟨le_refl _, id⟩
  unfold visitNode
  dsimp only
  split
  next => exact ⟨le_refl _, id⟩
  next =>
    split
    next => exact ⟨le_refl _, fun _ => doomed_block⟩
    next =>
      split
      next => exact ⟨le_refl _, fun _ => doomed_block⟩
      next => exact hvisit.trans includeMember_grows

theorem processItem_grows (item : QueueItem) (w : Walk) :
    w.workUnits < (processItem inp item w).workUnits ∧ (w.Doomed → (processItem inp item w).Doomed) := by
  have hvisit : ∀ entry, Grows { w with workUnits := w.workUnits + 1 } (visitNode inp entry _) :=
    fun entry => visitNode_grows entry _
  unfold processItem
  dsimp only
  split
  next => exact ⟨Nat.lt_succ_self _, fun _ => Or.inl rfl⟩
  next =>
    split
    next =>
      exact ⟨(hvisit _).work, (hvisit _).doomed⟩
    next =>
      split
      next => exact ⟨Nat.lt_succ_self _, id⟩
      next => exact ⟨(hvisit _).work, (hvisit _).doomed⟩

variable {fuel : Nat}

theorem walkLoop_doomed (h : w.Doomed) : (walkLoop inp fuel w).Doomed := by
  induction fuel generalizing w with
  | zero => exact h
  | succ fuel ih =>
    unfold walkLoop
    split
    next => exact h
    next =>
      split
      next => exact h
      next => exact ih ((processItem_grows _ _).2 h)

theorem walkLoop_holds (hseed : seedValid inp) (hw : Holds inp w)
    (hlive : ¬ (walkLoop inp fuel w).Doomed) : Holds inp (walkLoop inp fuel w) := by
  induction fuel generalizing w with
  | zero => exact hw
  | succ fuel ih =>
    unfold walkLoop at hlive ⊢
    split at hlive
    next hhit => exact absurd (Or.inl hhit) hlive
    next hhit =>
      rw [if_neg hhit]
      split at hlive
      next hq =>
        exact hw
      next item rest hq =>
        have hround : ¬ (processItem inp item { w with queue := rest }).Doomed :=
          fun h => hlive (walkLoop_doomed h)
        exact ih (processItem_holds hseed hw hq hround) hlive

theorem walkLoop_ends (hfuel : inp.budget.maxWorkUnits ≤ fuel + w.workUnits) :
    (walkLoop inp (fuel + 1) w).budgetHit = true ∨ (walkLoop inp (fuel + 1) w).queue = [] := by
  induction fuel generalizing w with
  | zero =>
    unfold walkLoop
    split
    next hhit => exact Or.inl hhit
    next =>
      split
      next hq => exact Or.inr hq
      next item rest hq =>
        left
        unfold walkLoop processItem
        rw [if_pos (by dsimp only; omega)]
  | succ fuel ih =>
    rw [walkLoop]
    split
    next hhit => exact Or.inl hhit
    next =>
      split
      next hq => exact Or.inr hq
      next item rest hq =>
        have hlt : w.workUnits < (processItem inp item { w with queue := rest }).workUnits :=
          (processItem_grows item { w with queue := rest }).1
        exact ih (by omega)

end

theorem initial_holds : Holds inp (initialWalk inp) := by
  have hseed : ⟨frontierKey ⟨0, inp.seed, none⟩, 0, inp.seed, none⟩ ∈ (initialWalk inp).queue :=
    mem_heappush.mpr (Or.inl rfl)
  refine ⟨?_, ?_, Or.inr ⟨_, hseed, rfl⟩, ?_, ?_, ?_, ?_, ?_, ?_⟩
  · intro n hn
    cases hn
  · intro item hitem
    rcases mem_heappush.mp hitem with rfl | h
    · exact Reached.seed
    · cases h
  · intro n hn
    cases hn
  · intro n hn
    cases hn
  · intro n hn
    cases hn
  · intro member hmember
    cases hmember
  · intro t ht
    cases ht
  · intro t ht
    cases ht

theorem drain_doomed : w.drain.Doomed ↔ w.Doomed := Iff.rfl

theorem conclude_complete (h : (conclude inp w).1 = .complete) : ¬ w.Doomed ∧ (conclude inp w).2 = w := by
  unfold conclude at h ⊢
  split at h
  next => cases h
  next hb =>
    rw [if_neg hb]
    dsimp only at h ⊢
    split at h
    next => cases h
    next hhit =>
      rw [if_neg hhit]
      split at h
      next hcov =>
        rw [if_pos hcov, if_pos hcov]
        exact ⟨fun hd => hd.elim hhit hb, rfl⟩
      next => cases h

theorem computeBts_complete (h : (computeBts inp).status = .complete) :
    ∃ w, Holds inp w ∧ w.queue = [] ∧ ∃ counters,
      (computeBts inp).report = reportOf inp .complete (analysisInputs inp) w.drain counters := by
  unfold computeBts at h ⊢
  split at h
  next => cases h
  next hseed =>
    rw [not_not] at hseed
    rw [if_neg (not_not.mpr hseed)]
    dsimp only at h ⊢
    split at h
    next hc =>
      rw [if_pos hc]
      obtain ⟨hlive, hwalk⟩ := conclude_complete hc
      rw [hwalk, hc]
      unfold finalWalk at hlive ⊢
      rw [drain_doomed] at hlive
      refine ⟨_, walkLoop_holds hseed initial_holds hlive, ?_, _, rfl⟩
      rcases walkLoop_ends (Nat.le_add_right _ _) with hhit | hq
      · exact absurd (Or.inl hhit) hlive
      · exact hq
    next hc => exact absurd h hc

end Leitir.Bts
