import Leitir.BtsRaise

namespace Leitir.Bts

open KeyedList List

variable {inp : Inputs} {w v : Walk} {item : QueueItem} {rest : List QueueItem} {depth : Nat} {edge : Edge}

instance : IsTrans QueueItem QueueItem.Le where
  trans a b c hab hbc := by
    rcases hab with hab | ⟨hab, hs⟩
    · rcases hbc with hbc | ⟨hbc, -⟩
      · exact Or.inl (hab.trans hbc)
      · exact Or.inl (hbc ▸ hab)
    · rcases hbc with hbc | ⟨hbc, hs'⟩
      · exact Or.inl (hab ▸ hbc)
      · exact Or.inr ⟨hab.trans hbc, hs.trans hs'⟩

instance : Std.Total QueueItem.Le where
  total a b := by
    rcases lt_trichotomy a.key b.key with h | h | h
    · exact Or.inl (Or.inl h)
    · rcases le_total a.serial b.serial with hs | hs
      · exact Or.inl (Or.inr ⟨h, hs⟩)
      · exact Or.inr (Or.inr ⟨h.symm, hs⟩)
    · exact Or.inr (Or.inl h)

theorem heappush_sorted {queue : List QueueItem} (h : queue.Pairwise QueueItem.Le) (item : QueueItem) :
    (heappush item queue).Pairwise QueueItem.Le := h.orderedInsert item queue

theorem depth_le_of_le {a b : FrontierEvidence} {item other : QueueItem} (h : item.Le other)
    (hitem : item.key = frontierKey a) (hother : other.key = frontierKey b) : a.depth ≤ b.depth := by
  have hle : frontierKey a ≤ frontierKey b := by
    rcases h with h | ⟨h, -⟩
    · rw [hitem, hother] at h
      exact h.le
    · rw [← hitem, ← hother, h]
  by_contra hlt
  have hgt : frontierKey b < frontierKey a := by
    refine cons_lt_cons_iff.mpr (Or.inl (cons_lt_cons_iff.mpr (Or.inl ?_)))
    omega
  exact absurd hle (not_le.mpr hgt)

/-- Proposals are keyed by the depth of their arrival, and nothing is visited deeper than a proposal arrives. -/
structure Ordered (w : Walk) : Prop where
  sorted : w.queue.Pairwise QueueItem.Le
  keyed : ∀ item ∈ w.queue, item.key = frontierKey (w.arrival item)
  proposed : ∀ item ∈ w.queue, ∀ edge ∈ item.incoming, edge.source ∈ w.visited
  level : ∀ item ∈ w.queue, ∀ n, ∀ k ∈ w.visited.lookup n, k ≤ w.depthAfter item.incoming

theorem depthAfter_mono {incoming : Option Edge} (hsource : ∀ edge ∈ incoming, edge.source ∈ w.visited)
    (hkeep : ∀ n ∈ w.visited, v.visited.lookup n = w.visited.lookup n) :
    v.depthAfter incoming = w.depthAfter incoming := by
  cases incoming with
  | none => rfl
  | some edge =>
    unfold Walk.depthAfter
    dsimp only
    rw [hkeep edge.source (hsource edge rfl)]

theorem depthAfter_of_visited (h : w.visited.lookup edge.source = some depth) :
    w.depthAfter (some edge) = depth + 1 := by
  unfold Walk.depthAfter
  dsimp only
  rw [h]

/-- What the pass over nested owners does when nothing is visited below the depth of its entry: it adds owners that
were not visited before, each once. -/
structure Carried (entry : FrontierEvidence) (owners owners' : List NodeId) (w w' : Walk) (added : List NodeId) :
    Prop where
  owners : owners' = owners ++ added
  nodup : added.Nodup
  fresh : ∀ n ∈ added, n ∉ w.visited
  visited : ∀ n, w'.visited.lookup n = if n ∈ added then some entry.depth else w.visited.lookup n
  members : w'.members = w.members
  dispositions : w'.dispositions = w.dispositions
  queue : w'.queue = w.queue

variable (inp) in
theorem carryOwners_carried (entry : FrontierEvidence) (ids owners : List NodeId)
    (hlevel : ∀ n, ∀ k ∈ w.visited.lookup n, k ≤ entry.depth) :
    ∃ added, Carried entry owners (carryOwners inp entry ids owners w).1 w (carryOwners inp entry ids owners w).2
      added := by
  induction ids generalizing owners w with
  | nil => exact ⟨[], by simp [carryOwners], nodup_nil, by simp, by simp [carryOwners], rfl, rfl, rfl⟩
  | cons nested rest ih =>
    have hvisit : w.visited.lookup nested = none →
        ∃ added, Carried entry owners
          (carryOwners inp entry rest (owners ++ [nested])
            (Walk.own inp { w with workUnits := w.workUnits + 1
                                   visited := w.visited.insert nested entry.depth } nested)).1 w
          (carryOwners inp entry rest (owners ++ [nested])
            (Walk.own inp { w with workUnits := w.workUnits + 1
                                   visited := w.visited.insert nested entry.depth } nested)).2 added := by
      intro hlookup
      have hnew : nested ∉ w.visited := AList.lookup_eq_none.mp hlookup
      obtain ⟨added, h⟩ := ih (owners ++ [nested])
        (w := Walk.own inp { w with workUnits := w.workUnits + 1
                                    visited := w.visited.insert nested entry.depth } nested)
        (by
          intro n k hk
          by_cases hn : n = nested
          · subst hn
            change k ∈ (w.visited.insert n entry.depth).lookup n at hk
            rw [AList.lookup_insert] at hk
            cases hk
            exact le_refl _
          · change k ∈ (w.visited.insert nested entry.depth).lookup n at hk
            rw [AList.lookup_insert_ne hn] at hk
            exact hlevel n k hk)
      have hfresh : ∀ n ∈ added, n ≠ nested ∧ n ∉ w.visited := by
        intro n hn
        have hnot : n ∉ w.visited.insert nested entry.depth := h.fresh n hn
        rw [AList.mem_insert] at hnot
        exact ⟨fun heq => hnot (Or.inl heq), fun hmem => hnot (Or.inr hmem)⟩
      refine ⟨nested :: added, ?_, ?_, ?_, ?_, h.members, h.dispositions, h.queue⟩
      · rw [h.owners]
        simp
      · exact nodup_cons.mpr ⟨fun hmem => (hfresh nested hmem).1 rfl, h.nodup⟩
      · exact forall_mem_cons.mpr ⟨hnew, fun n hn => (hfresh n hn).2⟩
      · intro n
        rw [h.visited]
        change (if n ∈ added then _ else (w.visited.insert nested entry.depth).lookup n) = _
        by_cases hn : n = nested
        · subst hn
          rw [AList.lookup_insert]
          simp
        · rw [AList.lookup_insert_ne hn]
          simp [hn]
    unfold carryOwners
    dsimp only
    split
    next => exact ⟨[], by simp, nodup_nil, by simp, fun n => by simp [Walk.stop], rfl, rfl, rfl⟩
    next =>
      split
      next hlookup => exact hvisit hlookup
      next previous hlookup =>
        have hle := hlevel nested previous hlookup
        rw [if_neg (Nat.not_lt.mpr hle)]
        obtain ⟨added, h⟩ := ih owners (w := { w with workUnits := w.workUnits + 1 }) hlevel
        exact ⟨added, h.owners, h.nodup, h.fresh, h.visited, h.members, h.dispositions, h.queue⟩

variable (inp) in
/-- The evidence of an edge and of the imports that support it. -/
def edgeEvidence (edge : Edge) : List DispositionEvidence := (edge :: supports inp edge).map (evidenceOf inp)

variable (inp) in
/-- The dispositions of a walk are those of the edges out of what is visited, each edge once. -/
structure Traced (w : Walk) (edges : List Edge) : Prop where
  dispositions : w.dispositions = edges.flatMap (edgeEvidence inp)
  nodup : edges.Nodup
  mem_iff : ∀ edge, edge ∈ edges ↔ edge ∈ inp.graph.edges ∧ edge.kind ∈ runtimeKinds ∧ edge.source ∈ w.visited
  members : (w.members.map MemberEvidence.node).Nodup

theorem followEdges_dispositions {es : List Edge} (hlive : ¬ (es.foldl (followEdge inp depth) w).Doomed) :
    (es.foldl (followEdge inp depth) w).dispositions = w.dispositions ++ es.flatMap (edgeEvidence inp) := by
  induction es generalizing w with
  | nil => simp
  | cons edge es ih =>
    rw [foldl_cons] at hlive ⊢
    have hfirst : ¬ (followEdge inp depth w edge).Doomed := by
      intro hd
      exact hlive ((followEdges_spec (fun _ h => h) depth _).1.doomed hd)
    rw [ih hlive, (followEdge_live hfirst).1]
    simp [followed, edgeEvidence]

theorem followed_visited : (followed inp depth w edge).visited = w.visited := by
  unfold followed
  dsimp only
  split <;> rfl

/-- Following an edge of a visited owner proposes its target one level below. -/
theorem Ordered.followed (hw : Ordered w) (hsource : w.visited.lookup edge.source = some depth)
    (hlevel : ∀ n, ∀ k ∈ w.visited.lookup n, k ≤ depth) : Ordered (followed inp depth w edge) := by
  have hvisited : (Bts.followed inp depth w edge).visited = w.visited := followed_visited
  have hdepth : ∀ incoming, (Bts.followed inp depth w edge).depthAfter incoming = w.depthAfter incoming := by
    intro incoming
    unfold Walk.depthAfter
    rw [hvisited]
  have hqueue : (Bts.followed inp depth w edge).queue = w.queue ∨
      (Bts.followed inp depth w edge).queue =
        heappush ⟨frontierKey ⟨depth + 1, edge.target, some edge⟩, w.serial + 1, edge.target, some edge⟩ w.queue := by
    unfold Bts.followed
    dsimp only
    split
    next => exact Or.inr rfl
    next => exact Or.inl rfl
  rcases hqueue with hqueue | hqueue
  · refine ⟨?_, ?_, ?_, ?_⟩
    · rw [hqueue]
      exact hw.sorted
    · intro item hitem
      rw [hqueue] at hitem
      rw [Walk.arrival, hdepth]
      exact hw.keyed item hitem
    · intro item hitem
      rw [hqueue] at hitem
      rw [hvisited]
      exact hw.proposed item hitem
    · intro item hitem
      rw [hqueue] at hitem
      rw [hvisited, hdepth]
      exact hw.level item hitem
  · have harrive : w.depthAfter (some edge) = depth + 1 := depthAfter_of_visited hsource
    refine ⟨?_, ?_, ?_, ?_⟩
    · rw [hqueue]
      exact heappush_sorted hw.sorted _
    · intro item hitem
      rw [hqueue] at hitem
      rw [Walk.arrival, hdepth]
      rcases mem_heappush.mp hitem with rfl | hitem
      · rw [harrive]
      · exact hw.keyed item hitem
    · intro item hitem
      rw [hqueue] at hitem
      rw [hvisited]
      rcases mem_heappush.mp hitem with rfl | hitem
      · intro other hother
        cases hother
        exact AList.lookup_isSome.mp (by rw [hsource]; rfl)
      · exact hw.proposed item hitem
    · intro item hitem
      rw [hqueue] at hitem
      rw [hvisited, hdepth]
      rcases mem_heappush.mp hitem with rfl | hitem
      · intro n k hk
        rw [harrive]
        exact Nat.le_succ_of_le (hlevel n k hk)
      · exact hw.level item hitem

theorem edges_nodup (graph : Graph) : graph.edges.Nodup :=
  graph.edges_sorted.imp fun h heq => absurd (congrArg edgeKey heq) h.ne

theorem ownerEdges_nodup {owners : List NodeId} (h : owners.Nodup) : (ownerEdges inp.graph owners).Nodup := by
  refine (perm_insertionSort _ _).nodup_iff.mpr (nodup_flatMap.mpr ⟨?_, ?_⟩)
  · intro owner _
    exact (edges_nodup inp.graph).filter _
  · refine h.imp fun {a b} hne => ?_
    intro edge ha hb
    exact hne ((source_of_outgoing ha).2.2.symm.trans (source_of_outgoing hb).2.2)

theorem mem_ownerEdges {owners : List NodeId} :
    edge ∈ ownerEdges inp.graph owners ↔
      edge ∈ inp.graph.edges ∧ edge.kind ∈ runtimeKinds ∧ edge.source ∈ owners := by
  unfold ownerEdges
  rw [mem_owner_edges]
  constructor
  · intro h
    obtain ⟨owner, howner, hmem⟩ := h
    obtain ⟨hedge, hkind, rfl⟩ := source_of_outgoing hmem
    exact ⟨hedge, hkind, howner⟩
  · intro h
    exact ⟨edge.source, h.2.2, by simpa [outgoing] using ⟨h.1, h.2.1⟩⟩

section

/-- A round that takes a member: its owners are visited for the first time, at the depth of the round. -/
structure Fresh (depth : Nat) (w v : Walk) (candidate : MemberEvidence) (owners : List NodeId) : Prop where
  nodup : owners.Nodup
  new : ∀ n ∈ owners, n ∉ w.visited
  visited : ∀ n, v.visited.lookup n = if n ∈ owners then some depth else w.visited.lookup n
  members : v.members = w.members ++ [candidate]
  dispositions : v.dispositions = w.dispositions
  queue : v.queue = w.queue.tail
  joined : candidate.node ∈ owners

variable {candidate : MemberEvidence} {owners : List NodeId}

theorem fresh_of_carry (hw : Ordered w) (hq : w.queue = item :: rest)
    (hnew : item.node ∉ w.visited) (hnode : candidate.node = item.node)
    (hcarry : carryOwners inp (Walk.arrival { w with queue := rest } item) (sortBy nestedKey (nestedOwners inp.graph item.node))
      [item.node] (joined inp item candidate { w with queue := rest }) = (owners, v)) :
    Fresh (w.depthAfter item.incoming) w v candidate owners := by
  set d := w.depthAfter item.incoming with hd
  have hlevel : ∀ n, ∀ k ∈ w.visited.lookup n, k ≤ d := hw.level item (by rw [hq]; exact mem_cons_self)
  have hjoined : ∀ n, (joined inp item candidate { w with queue := rest }).visited.lookup n =
      if n = item.node then some d else w.visited.lookup n := by
    intro n
    change (w.visited.insert item.node d).lookup n = _
    by_cases hn : n = item.node
    · rw [hn, AList.lookup_insert, if_pos rfl]
    · rw [AList.lookup_insert_ne hn, if_neg hn]
  obtain ⟨added, hcarried⟩ := carryOwners_carried inp (Walk.arrival { w with queue := rest } item)
    (w := joined inp item candidate { w with queue := rest })
    (sortBy nestedKey (nestedOwners inp.graph item.node)) [item.node]
    (by
      intro n k hk
      change k ≤ d
      rw [hjoined] at hk
      split at hk
      next =>
        cases hk
        exact le_refl _
      next => exact hlevel n k hk)
  rw [hcarry] at hcarried
  have hmem : ∀ n, n ∈ (joined inp item candidate { w with queue := rest }).visited ↔
      n = item.node ∨ n ∈ w.visited := fun n => AList.mem_insert _
  have howners : owners = item.node :: added := hcarried.owners
  refine ⟨?_, ?_, ?_, hcarried.members, hcarried.dispositions, ?_, ?_⟩
  · rw [howners]
    refine nodup_cons.mpr ⟨?_, hcarried.nodup⟩
    intro hin
    exact hcarried.fresh _ hin ((hmem _).mpr (Or.inl rfl))
  · rw [howners]
    refine forall_mem_cons.mpr ⟨hnew, ?_⟩
    intro n hn hvisited
    exact hcarried.fresh n hn ((hmem n).mpr (Or.inr hvisited))
  · intro n
    rw [hcarried.visited, hjoined, howners]
    change (if n ∈ added then some d else _) = _
    by_cases hin : n ∈ added
    · simp [hin]
    · by_cases hn : n = item.node
      · simp [hn]
      · simp [hin, hn]
  · rw [hcarried.queue, hq]
    rfl
  · rw [howners, hnode]
    exact mem_cons_self

theorem Opens.fresh_owners (hw : Ordered w)
    (hq : w.queue = item :: rest) (h : Opens inp item { w with queue := rest } candidate owners v) :
    Fresh (w.depthAfter item.incoming) w v candidate owners := by
  refine fresh_of_carry hw hq ?_ h.node h.carry
  intro hmem
  obtain ⟨k, hk⟩ := Option.isSome_iff_exists.mp (AList.lookup_isSome.mpr hmem)
  have hlt : w.depthAfter item.incoming < k := h.fresh k hk
  have hle : k ≤ w.depthAfter item.incoming := hw.level item (by rw [hq]; exact mem_cons_self) item.node k hk
  omega

theorem Fresh.mem_visited
    (h : Fresh depth w v candidate owners) {n : NodeId} : n ∈ v.visited ↔ n ∈ owners ∨ n ∈ w.visited := by
  rw [← AList.lookup_isSome, h.visited]
  split
  next hn => simp [hn]
  next hn => simp [hn, AList.lookup_isSome]

theorem Fresh.level
    (h : Fresh depth w v candidate owners) (hlevel : ∀ n, ∀ k ∈ w.visited.lookup n, k ≤ depth) :
    ∀ n, ∀ k ∈ v.visited.lookup n, k ≤ depth := by
  intro n k hk
  rw [h.visited] at hk
  split at hk
  next =>
    cases hk
    exact le_refl _
  next => exact hlevel n k hk

/-- The order of the proposals once the owners of a member are visited. -/
theorem Fresh.ordered (hw : Ordered w) (hq : w.queue = item :: rest)
    (h : Fresh (w.depthAfter item.incoming) w v candidate owners) : Ordered v := by
  have hqueue : v.queue = rest := by
    rw [h.queue, hq]
    rfl
  have hmem : ∀ other ∈ rest, other ∈ w.queue := by
    intro other hother
    rw [hq]
    exact mem_cons_of_mem _ hother
  have hitem : item ∈ w.queue := by
    rw [hq]
    exact mem_cons_self
  have hsorted := hw.sorted
  rw [hq, pairwise_cons] at hsorted
  have hkeep : ∀ n ∈ w.visited, v.visited.lookup n = w.visited.lookup n := by
    intro n hn
    rw [h.visited, if_neg fun hin => h.new n hin hn]
  have hdepth : ∀ other ∈ rest, v.depthAfter other.incoming = w.depthAfter other.incoming := by
    intro other hother
    exact depthAfter_mono (hw.proposed other (hmem other hother)) hkeep
  refine ⟨?_, ?_, ?_, ?_⟩
  · rw [hqueue]
    exact hsorted.2
  · intro other hother
    rw [hqueue] at hother
    rw [Walk.arrival, hdepth other hother]
    exact hw.keyed other (hmem other hother)
  · intro other hother edge hedge
    rw [hqueue] at hother
    exact h.mem_visited.mpr (Or.inr (hw.proposed other (hmem other hother) edge hedge))
  · intro other hother n k hk
    rw [hqueue] at hother
    have hle : w.depthAfter item.incoming ≤ w.depthAfter other.incoming :=
      depth_le_of_le (hsorted.1 other hother) (hw.keyed item hitem) (hw.keyed other (hmem other hother))
    rw [hdepth other hother]
    exact (h.level (hw.level item hitem) n k hk).trans hle

theorem Traced.opened {edges : List Edge}
    (ht : Traced inp w edges) (h : Fresh depth w v candidate owners) (hmembers : ∀ m ∈ w.members, m.node ∈ w.visited)
    (hlive : ¬ ((ownerEdges inp.graph owners).foldl (followEdge inp depth) v).Doomed) :
    Traced inp ((ownerEdges inp.graph owners).foldl (followEdge inp depth) v)
      (edges ++ ownerEdges inp.graph owners) := by
  have hframe : Frame inp (ownerEdges inp.graph owners) v
      ((ownerEdges inp.graph owners).foldl (followEdge inp depth) v) := (followEdges_spec (fun _ h => h) depth v).1
  refine ⟨?_, ?_, ?_, ?_⟩
  · rw [followEdges_dispositions hlive, h.dispositions, ht.dispositions, flatMap_append]
  · refine ht.nodup.append (ownerEdges_nodup h.nodup) ?_
    intro edge hold hnew
    exact h.new _ (mem_ownerEdges.mp hnew).2.2 ((ht.mem_iff edge).mp hold).2.2
  · intro edge
    rw [mem_append, ht.mem_iff, mem_ownerEdges, hframe.visited, h.mem_visited]
    tauto
  · rw [hframe.members, h.members, map_append, map_singleton]
    refine ht.members.append (nodup_singleton _) ?_
    intro n hold hnew
    cases mem_singleton.mp hnew
    obtain ⟨m, hm, hnode⟩ := mem_map.mp hold
    exact h.new _ h.joined (hnode ▸ hmembers m hm)

/-- A round keeps the order of the proposals and the trace of the dispositions. -/
theorem processItem_traced {edges : List Edge} (hnode : ∃ node, inp.graph.node item.node = some node)
    (hw : Ordered w) (ht : Traced inp w edges) (hmembers : ∀ m ∈ w.members, m.node ∈ w.visited)
    (hq : w.queue = item :: rest) (hlive : ¬ (processItem inp item { w with queue := rest }).Doomed) :
    Ordered (processItem inp item { w with queue := rest }) ∧
      ∃ edges', Traced inp (processItem inp item { w with queue := rest }) edges' := by
  have hitem : item ∈ w.queue := by
    rw [hq]
    exact mem_cons_self
  rcases processItem_live hnode hlive with ⟨-, -, heq⟩ | ⟨candidate, owners, v, hopens, heq⟩
  · have hmem : ∀ other ∈ rest, other ∈ w.queue := by
      intro other hother
      rw [hq]
      exact mem_cons_of_mem _ hother
    have hsorted := hw.sorted
    rw [hq, pairwise_cons] at hsorted
    rw [heq]
    refine ⟨⟨hsorted.2, ?_, ?_, ?_⟩, edges, ht.dispositions, ht.nodup, ht.mem_iff, ht.members⟩
    · exact fun other hother => hw.keyed other (hmem other hother)
    · exact fun other hother => hw.proposed other (hmem other hother)
    · exact fun other hother => hw.level other (hmem other hother)
  · have hfresh := hopens.fresh_owners hw hq
    rw [heq] at hlive ⊢
    refine ⟨?_, _, ht.opened hfresh hmembers hlive⟩
    have hlevel := hfresh.level (hw.level item hitem)
    refine (followEdges_rule (P := fun u => Ordered u ∧ u.visited = v.visited) ?_ ⟨hfresh.ordered hw hq, rfl⟩ hlive).1
    intro before edge after hes hu _ _ _
    obtain ⟨hordered, hvisited⟩ := hu
    have hmem : edge ∈ ownerEdges inp.graph owners := by
      rw [hes]
      exact mem_append_right _ mem_cons_self
    have hedge : edge.source ∈ owners := (mem_ownerEdges.mp hmem).2.2
    refine ⟨hordered.followed ?_ ?_, followed_visited.trans hvisited⟩
    · rw [hvisited, hfresh.visited, if_pos hedge]
      rfl
    · rw [hvisited]
      exact hlevel

theorem initial_ordered : Ordered (initialWalk inp) := by
  have hqueue : (initialWalk inp).queue = [⟨frontierKey ⟨0, inp.seed, none⟩, 0, inp.seed, none⟩] := rfl
  refine ⟨?_, ?_, ?_, ?_⟩
  · rw [hqueue]
    exact pairwise_singleton _ _
  · rw [hqueue]
    exact forall_mem_singleton.mpr rfl
  · rw [hqueue]
    exact forall_mem_singleton.mpr fun edge hedge => nomatch hedge
  · rw [hqueue]
    refine forall_mem_singleton.mpr ?_
    intro n k hk
    cases hk

theorem walkLoop_traced (hseed : seedValid inp) (fuel : Nat) (hlive : ¬ (walkLoop inp fuel (initialWalk inp)).Doomed) :
    Ordered (walkLoop inp fuel (initialWalk inp)) ∧ ∃ edges, Traced inp (walkLoop inp fuel (initialWalk inp)) edges := by
  refine walkLoop_rule (P := fun w => Ordered w ∧ ∃ edges, Traced inp w edges) hseed ?_ ?_ fuel hlive
  · refine ⟨initial_ordered, [], rfl, nodup_nil, ?_, nodup_nil⟩
    intro edge
    constructor
    · intro h
      cases h
    · intro h
      cases h.2.2
  · intro fuel item rest hholds htraced _ hq hlive
    obtain ⟨hordered, edges, htraced⟩ := htraced
    refine processItem_traced ?_ hordered htraced (fun m hm => (hholds.carried m hm).1) hq hlive
    exact reached_node hseed (hholds.queued item (by rw [hq]; exact mem_cons_self))

end

end Leitir.Bts
