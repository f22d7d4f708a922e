import Leitir.BtsInvariant
import Mathlib.Data.List.Induction

namespace Leitir.Bts

open KeyedList List

variable {inp : Inputs} {w w' v : Walk} {item : QueueItem} {depth : Nat} {edge : Edge}

section

variable (inp)

/-- The import statements that support the binding of an edge. -/
def supports (edge : Edge) : List Edge :=
  match edge.provenance.binding with
  | none => []
  | some binding =>
    (importEdges inp.graph).filter fun support =>
      support.provenance.binding = some binding ∨ support.provenance.site = binding

def evidenceOf (edge : Edge) : DispositionEvidence := classify inp.policy edge.target (some edge)

def Rejected (edge : Edge) : Prop := (evidenceOf inp edge).disposition = .reject

instance : DecidablePred (Rejected inp) := fun _ => inferInstanceAs (Decidable (_ = _))

def traversal (depth : Nat) (edge : Edge) : EdgeEvidence :=
  ⟨depth, edge, (evidenceOf inp edge).disposition, (evidenceOf inp edge).ruleId⟩

def refusals (edges : List Edge) : List BlockerEvidence :=
  (edges.filter (Rejected inp)).map fun edge => .disposition (evidenceOf inp edge)

def interfaces (edges : List Edge) (external : List NodeId) : List NodeId :=
  edges.foldl (fun known edge =>
    if (evidenceOf inp edge).disposition = .external then known.insert edge.target else known) external

def chargedWork (w : Walk) (edge : Edge) : Nat :=
  w.workUnits + 2 + (if (evidenceOf inp edge).disposition = .includeSource then 1 else 0) +
    2 * (supports inp edge).length

def chargedExternal (w : Walk) (edge : Edge) : List NodeId :=
  interfaces inp (edge :: supports inp edge) w.external

/-- A limit is passed when an edge that is not rejected comes to its turn. -/
def Exhausts (depth : Nat) (w : Walk) (edge : Edge) : Prop :=
  w.workUnits + 2 > inp.budget.maxWorkUnits ∨ w.edgesExamined + 1 > inp.budget.maxEdges ∨
    (interfaces inp [edge] w.external).length > inp.budget.maxExternalInterfaces ∨
    (evidenceOf inp edge).disposition = .includeSource ∧
      (depth + 1 > inp.budget.maxDepth ∨ w.queue.length + 1 > inp.budget.maxQueueEntries)

instance : Decidable (Exhausts inp depth w edge) := inferInstanceAs (Decidable (_ ∨ _))

/-- The walk once an edge is examined and classified. -/
def examined (depth : Nat) (w : Walk) (edge : Edge) : Walk :=
  { w with edgesExamined := w.edgesExamined + 1
           workUnits := w.workUnits + 2
           dispositions := w.dispositions ++ [evidenceOf inp edge]
           traversed := w.traversed ++ [traversal inp (depth + 1) edge]
           external := interfaces inp [edge] w.external }

/-- The walk after an edge within the limits: its target is proposed, its imports are recorded. -/
def followed (depth : Nat) (w : Walk) (edge : Edge) : Walk :=
  let pushed := if (evidenceOf inp edge).disposition = .includeSource then w.push (depth + 1) edge else w
  { pushed with
    edgesExamined := w.edgesExamined + 1
    workUnits := chargedWork inp w edge
    dispositions := w.dispositions ++ (edge :: supports inp edge).map (evidenceOf inp)
    traversed := w.traversed ++ (edge :: supports inp edge).map (traversal inp (depth + 1))
    blockers := w.blockers ++ refusals inp (supports inp edge)
    external := chargedExternal inp w edge }

end

theorem kind_of_supports {support : Edge} (h : support ∈ supports inp edge) : support.kind = .imports := by
  unfold supports at h
  split at h
  next => cases h
  next =>
    have hmem := (mem_filter.mp h).1
    unfold importEdges at hmem
    simpa using (mem_filter.mp hmem).2

theorem classify_target {policy : ResolutionPolicy} {target : NodeId} {edge : Option Edge} :
    (classify policy target edge).target = target := by
  unfold classify
  split
  next => split <;> rfl
  next => split <;> [rfl; split <;> rfl]

theorem interfaces_rejected (h : Rejected inp edge) (external : List NodeId) :
    interfaces inp [edge] external = external := by
  simp [interfaces, show (evidenceOf inp edge).disposition = .reject from h]

theorem noteExternal_eq (w : Walk) (edge : Edge) :
    w.noteExternal (evidenceOf inp edge) = { w with external := interfaces inp [edge] w.external } := by
  have htarget : (evidenceOf inp edge).target = edge.target := classify_target
  unfold Walk.noteExternal
  split
  next h =>
    have hadd : interfaces inp [edge] w.external = w.external.insert edge.target := by simp [interfaces, h]
    rw [hadd, htarget]
  next h =>
    have hsame : interfaces inp [edge] w.external = w.external := by simp [interfaces, h]
    rw [hsame]

theorem supportImport_eq (depth : Nat) (w : Walk) (edge : Edge) :
    supportImport inp depth w edge =
      { w with workUnits := w.workUnits + 2
               dispositions := w.dispositions ++ [evidenceOf inp edge]
               traversed := w.traversed ++ [traversal inp (depth + 1) edge]
               blockers := w.blockers ++ refusals inp [edge]
               external := interfaces inp [edge] w.external } := by
  unfold supportImport
  change (if Rejected inp edge then _ else Walk.noteExternal _ (evidenceOf inp edge)) = _
  split
  next h =>
    have hrefuse : refusals inp [edge] = [.disposition (evidenceOf inp edge)] := by simp [refusals, h]
    rw [hrefuse, interfaces_rejected h]
    rfl
  next h =>
    have hrefuse : refusals inp [edge] = [] := by simp [refusals, h]
    rw [hrefuse, append_nil, noteExternal_eq]
    rfl

variable (inp) in
theorem interfaces_append (es es' : List Edge) (external : List NodeId) :
    interfaces inp (es ++ es') external = interfaces inp es' (interfaces inp es external) :=
  foldl_append

variable (inp) in
theorem refusals_append (es es' : List Edge) : refusals inp (es ++ es') = refusals inp es ++ refusals inp es' := by
  simp [refusals]

theorem supportImports_eq (depth : Nat) (w : Walk) (es : List Edge) :
    es.foldl (supportImport inp depth) w =
      { w with workUnits := w.workUnits + 2 * es.length
               dispositions := w.dispositions ++ es.map (evidenceOf inp)
               traversed := w.traversed ++ es.map (traversal inp (depth + 1))
               blockers := w.blockers ++ refusals inp es
               external := interfaces inp es w.external } := by
  induction es generalizing w with
  | nil => simp [refusals, interfaces]
  | cons e rest ih =>
    have hrefuse := refusals_append inp [e] rest
    have hext := interfaces_append inp [e] rest w.external
    rw [singleton_append] at hrefuse hext
    rw [foldl_cons, supportImport_eq, ih, hrefuse, hext]
    simp only [length_cons, map_cons, append_assoc, singleton_append, Nat.mul_add_one,
      Nat.add_assoc, Nat.add_comm 2]

theorem supportBinding_eq (depth : Nat) (edge : Edge) (w : Walk) :
    supportBinding inp depth edge w = (supports inp edge).foldl (supportImport inp depth) w := by
  unfold supportBinding supports
  cases edge.provenance.binding with
  | none => rfl
  | some binding => rfl

variable (inp) in
/-- What one edge does to the walk: it is rejected, it passes a limit, or it is followed. -/
theorem followEdge_eq (depth : Nat) (w : Walk) (edge : Edge) :
    followEdge inp depth w edge =
      if Rejected inp edge then (examined inp depth w edge).refuse (evidenceOf inp edge)
      else if Exhausts inp depth w edge then (examined inp depth w edge).stop ⟨depth + 1, edge.target, some edge⟩
      else followed inp depth w edge := by
  unfold followEdge
  change (if Rejected inp edge then _ else
    followAccepted inp depth edge (evidenceOf inp edge) (Walk.noteExternal _ (evidenceOf inp edge))) = _
  split
  next h =>
    unfold examined
    rw [interfaces_rejected h]
    rfl
  next h =>
    rw [noteExternal_eq]
    unfold followAccepted
    by_cases hlimit : w.workUnits + 2 > inp.budget.maxWorkUnits ∨ w.edgesExamined + 1 > inp.budget.maxEdges ∨
        (interfaces inp [edge] w.external).length > inp.budget.maxExternalInterfaces
    · have hex : Exhausts inp depth w edge := by
        rcases hlimit with h | h | h
        · exact Or.inl h
        · exact Or.inr (Or.inl h)
        · exact Or.inr (Or.inr (Or.inl h))
      rw [if_pos hex]
      exact if_pos hlimit
    · refine (if_neg hlimit).trans ?_
      by_cases hincl : (evidenceOf inp edge).disposition = .includeSource
      · refine (if_pos hincl).trans ?_
        by_cases hroom : depth + 1 > inp.budget.maxDepth ∨ w.queue.length + 1 > inp.budget.maxQueueEntries
        · have hex : Exhausts inp depth w edge := Or.inr (Or.inr (Or.inr ⟨hincl, hroom⟩))
          rw [if_pos hex]
          exact if_pos hroom
        · have hex : ¬ Exhausts inp depth w edge := by
            rintro (h | h | h | ⟨-, h⟩)
            · exact hlimit (Or.inl h)
            · exact hlimit (Or.inr (Or.inl h))
            · exact hlimit (Or.inr (Or.inr h))
            · exact hroom h
          rw [if_neg hex]
          refine (if_neg hroom).trans ?_
          rw [supportBinding_eq, supportImports_eq]
          simp [followed, chargedWork, chargedExternal, hincl, Walk.push, Walk.record, interfaces]
          exact ⟨rfl, rfl⟩
      · have hex : ¬ Exhausts inp depth w edge := by
          rintro (h | h | h | ⟨h, -⟩)
          · exact hlimit (Or.inl h)
          · exact hlimit (Or.inr (Or.inl h))
          · exact hlimit (Or.inr (Or.inr h))
          · exact hincl h
        rw [if_neg hex]
        refine (if_neg hincl).trans ?_
        rw [supportBinding_eq, supportImports_eq]
        simp [followed, chargedWork, chargedExternal, hincl, interfaces, Walk.record]
        exact ⟨rfl, rfl⟩

theorem followEdge_live (h : ¬ (followEdge inp depth w edge).Doomed) :
    followEdge inp depth w edge = followed inp depth w edge ∧ ¬ Rejected inp edge ∧
      ¬ Exhausts inp depth w edge ∧ refusals inp (supports inp edge) = [] := by
  have heq := followEdge_eq inp depth w edge
  split at heq
  next hreject =>
    rw [heq] at h
    exact absurd doomed_refuse h
  next hreject =>
    split at heq
    next hex =>
      rw [heq] at h
      exact absurd doomed_stop h
    next hex =>
      refine ⟨heq, hreject, hex, ?_⟩
      by_contra hne
      rw [heq] at h
      refine h (Or.inr ?_)
      simp [followed, hne]

def Walk.arrival (w : Walk) (item : QueueItem) : FrontierEvidence :=
  ⟨w.depthAfter item.incoming, item.node, item.incoming⟩

variable (inp) in
/-- The walk with a new member, before the owners nested in the member are carried along. -/
def joined (item : QueueItem) (candidate : MemberEvidence) (w : Walk) : Walk :=
  Walk.own inp
    { w with workUnits := w.workUnits + 1
             visited := w.visited.insert item.node (w.depthAfter item.incoming)
             members := w.members ++ [candidate] } item.node

variable (inp) in
/-- A round that comes to follow the edges of the owners of a new member. -/
structure Opens (item : QueueItem) (w : Walk) (candidate : MemberEvidence) (owners : List NodeId) (v : Walk) :
    Prop where
  work : w.workUnits + 1 ≤ inp.budget.maxWorkUnits
  fresh : ∀ previous ∈ w.visited.lookup item.node, w.depthAfter item.incoming < previous
  node : candidate.node = item.node
  included : candidate.disposition = .includeSource
  source : ∃ node, inp.graph.node item.node = some node ∧ node.source = some candidate.source
  verified : verifiedSourceDigest inp.digests inp.snapshot candidate.source = .ok candidate.sourceBytesSha256
  room : ¬ overBudget inp (w.members ++ [candidate])
  carry : carryOwners inp (w.arrival item) (sortBy nestedKey (nestedOwners inp.graph item.node)) [item.node]
    (joined inp item candidate w) = (owners, v)
  live : v.budgetHit = false

theorem Opens.state {candidate : MemberEvidence} {owners : List NodeId} (h : Opens inp item w candidate owners v) :
    v = (carryOwners inp (w.arrival item) (sortBy nestedKey (nestedOwners inp.graph item.node)) [item.node]
      (joined inp item candidate w)).2 := by
  rw [h.carry]

def ownerEdges (graph : Graph) (owners : List NodeId) : List Edge :=
  sortBy edgeKey (owners.flatMap (outgoing graph))

/-- A round that opens a member follows its edges. -/
theorem Opens.processItem_eq {candidate : MemberEvidence} {owners : List NodeId}
    (h : Opens inp item w candidate owners v) :
    processItem inp item w =
      (ownerEdges inp.graph owners).foldl (followEdge inp (w.depthAfter item.incoming)) v := by
  have hwork : ¬ w.workUnits + 1 > inp.budget.maxWorkUnits := by
    have := h.work
    omega
  have hvisit : visitNode inp (w.arrival item) { w with workUnits := w.workUnits + 1 } =
      (ownerEdges inp.graph owners).foldl (followEdge inp (w.depthAfter item.incoming)) v := by
    obtain ⟨node, hnode, hsource⟩ := h.source
    have hcandidate : candidate = ⟨item.node, candidate.source, candidate.sourceBytesSha256, .includeSource⟩ := by
      rw [← h.node, ← h.included]
    have hroom := h.room
    rw [hcandidate] at hroom
    unfold visitNode
    simp only [Walk.arrival, hnode, hsource, h.verified]
    unfold includeMember
    refine (if_neg hroom).trans ?_
    have hcarry := h.carry
    rw [hcandidate] at hcarry
    have hlive := h.live
    dsimp only
    change (if (carryOwners inp (w.arrival item) (sortBy nestedKey (nestedOwners inp.graph item.node)) [item.node]
      (joined inp item ⟨item.node, candidate.source, candidate.sourceBytesSha256, .includeSource⟩ w)).2.budgetHit = true
      then _ else followOwners inp _ (carryOwners inp (w.arrival item) _ [item.node] (joined inp item _ w)).1
        (carryOwners inp (w.arrival item) _ [item.node] (joined inp item _ w)).2) = _
    rw [hcarry]
    exact if_neg (Bool.eq_false_iff.mp hlive)
  unfold processItem
  dsimp only
  rw [if_neg hwork]
  cases hlookup : w.visited.lookup item.node with
  | none => exact hvisit
  | some previous =>
    have hlt := h.fresh previous hlookup
    exact (if_neg (Nat.not_le.mpr hlt)).trans hvisit

/-- A round that does not doom the walk drops a visited node, or takes a member and follows its edges. -/
theorem processItem_live (hnode : ∃ node, inp.graph.node item.node = some node)
    (hlive : ¬ (processItem inp item w).Doomed) :
    (w.workUnits + 1 ≤ inp.budget.maxWorkUnits ∧ item.node ∈ w.visited ∧
      processItem inp item w = { w with workUnits := w.workUnits + 1 }) ∨
    ∃ candidate owners v, Opens inp item w candidate owners v ∧
      processItem inp item w =
        (ownerEdges inp.graph owners).foldl (followEdge inp (w.depthAfter item.incoming)) v := by
  obtain ⟨node, hnode⟩ := hnode
  have hvisit : w.workUnits + 1 ≤ inp.budget.maxWorkUnits →
      (∀ previous ∈ w.visited.lookup item.node, w.depthAfter item.incoming < previous) →
      ¬ (visitNode inp (w.arrival item) { w with workUnits := w.workUnits + 1 }).Doomed →
      ∃ candidate owners v, Opens inp item w candidate owners v ∧
        visitNode inp (w.arrival item) { w with workUnits := w.workUnits + 1 } =
          (ownerEdges inp.graph owners).foldl (followEdge inp (w.depthAfter item.incoming)) v := by
    intro hwork hfresh hlive
    unfold visitNode at hlive ⊢
    simp only [Walk.arrival, hnode] at hlive ⊢
    split at hlive
    next => exact absurd doomed_block hlive
    next source hsource =>
      split at hlive
      next => exact absurd doomed_block hlive
      next digest hdigest =>
        unfold includeMember at hlive ⊢
        split at hlive
        next => exact absurd doomed_stop hlive
        next hroom =>
          rw [if_neg hroom]
          dsimp only at hlive ⊢
          split at hlive
          next hhit => exact absurd (Or.inl hhit) hlive
          next hhit =>
            refine ⟨⟨item.node, source, digest, .includeSource⟩, _, _, ⟨hwork, hfresh, rfl, rfl, ⟨node, hnode, hsource⟩, hdigest, hroom, rfl, ?_⟩, ?_⟩
            · exact Bool.eq_false_iff.mpr hhit
            · exact if_neg hhit
  unfold processItem at hlive ⊢
  dsimp only at hlive ⊢
  split at hlive
  next => exact absurd (Or.inl rfl) hlive
  next hwork =>
    rw [if_neg hwork]
    split at hlive
    next hlookup =>
      refine Or.inr (hvisit (by omega) ?_ hlive)
      intro previous hprevious
      rw [hlookup] at hprevious
      cases hprevious
    next previous hlookup =>
      split at hlive
      next hle =>
        rw [if_pos hle]
        exact Or.inl ⟨by omega, AList.lookup_isSome.mp (by rw [hlookup]; rfl), rfl⟩
      next hle =>
        rw [if_neg hle]
        refine Or.inr (hvisit (by omega) ?_ hlive)
        intro other hother
        rw [hlookup] at hother
        cases hother
        omega

section

variable {P : Walk → Prop}

/-- The pass over nested owners keeps what each of its steps keeps. -/
theorem carryOwners_rule {entry : FrontierEvidence}
    (hstop : ∀ w, P w → P (Walk.stop { w with workUnits := w.workUnits + 1 } entry))
    (hskip : ∀ w, P w → w.workUnits + 1 ≤ inp.budget.maxWorkUnits → P { w with workUnits := w.workUnits + 1 })
    (hvisit : ∀ w nested, P w → w.workUnits + 1 ≤ inp.budget.maxWorkUnits →
      (∀ previous ∈ w.visited.lookup nested, entry.depth < previous) →
      P (Walk.own inp { w with workUnits := w.workUnits + 1
                               visited := w.visited.insert nested entry.depth } nested))
    (ids owners : List NodeId) (hw : P w) : P (carryOwners inp entry ids owners w).2 := by
  induction ids generalizing owners w with
  | nil => exact hw
  | cons nested rest ih =>
    unfold carryOwners
    dsimp only
    split
    next => exact hstop w hw
    next hwork =>
      have hle : w.workUnits + 1 ≤ inp.budget.maxWorkUnits := by omega
      split
      next hlookup =>
        refine ih _ (hvisit w nested hw hle ?_)
        intro previous hprevious
        rw [hlookup] at hprevious
        cases hprevious
      next previous hlookup =>
        split
        next hlt =>
          refine ih _ (hvisit w nested hw hle ?_)
          intro other hother
          rw [hlookup] at hother
          cases hother
          exact hlt
        next => exact ih _ (hskip w hw hle)

theorem followEdges_rule {es : List Edge}
    (hstep : ∀ before edge after, es = before ++ edge :: after →
      P (before.foldl (followEdge inp depth) w) → ¬ Rejected inp edge →
      ¬ Exhausts inp depth (before.foldl (followEdge inp depth) w) edge →
      refusals inp (supports inp edge) = [] →
      P (followed inp depth (before.foldl (followEdge inp depth) w) edge))
    (hw : P w) (hlive : ¬ (es.foldl (followEdge inp depth) w).Doomed) : P (es.foldl (followEdge inp depth) w) := by
  induction es using List.reverseRecOn with
  | nil => exact hw
  | append_singleton before edge ih =>
    rw [foldl_append, foldl_cons, foldl_nil] at hlive ⊢
    have hbefore : ¬ (before.foldl (followEdge inp depth) w).Doomed := by
      intro hd
      exact hlive ((followEdge_spec (mem_singleton.mpr rfl) depth _).1.doomed hd)
    obtain ⟨heq, haccept, hroom, hrefuse⟩ := followEdge_live hlive
    rw [heq]
    refine hstep before edge [] rfl (ih ?_ hbefore) haccept hroom hrefuse
    intro before' edge' after' heq'
    exact hstep before' edge' (after' ++ [edge]) (by rw [heq']; simp)

variable (inp) in
theorem walkLoop_succ (fuel : Nat) (w : Walk) :
    walkLoop inp (fuel + 1) w =
      if (walkLoop inp fuel w).budgetHit then walkLoop inp fuel w
      else
        match (walkLoop inp fuel w).queue with
        | [] => walkLoop inp fuel w
        | item :: rest => processItem inp item { walkLoop inp fuel w with queue := rest } := by
  induction fuel generalizing w with
  | zero => rfl
  | succ fuel ih =>
    rw [walkLoop]
    by_cases hhit : w.budgetHit = true
    · have hstay : ∀ n, walkLoop inp n w = w := by
        intro n
        cases n with
        | zero => rfl
        | succ n => rw [walkLoop, if_pos hhit]
      rw [if_pos hhit, hstay, if_pos hhit]
    · rw [if_neg hhit]
      cases hq : w.queue with
      | nil =>
        have hstay : walkLoop inp (fuel + 1) w = w := by rw [walkLoop, if_neg hhit, hq]
        simp only [hstay, if_neg hhit, hq]
      | cons item rest =>
        have hnext : walkLoop inp (fuel + 1) w = walkLoop inp fuel (processItem inp item { w with queue := rest }) := by
          rw [walkLoop, if_neg hhit, hq]
        rw [hnext]
        exact ih _

variable (inp) in
theorem walkLoop_add (fuel more : Nat) (w : Walk) :
    walkLoop inp (fuel + more) w = walkLoop inp more (walkLoop inp fuel w) := by
  induction more with
  | zero => rfl
  | succ more ih => rw [Nat.add_succ, walkLoop_succ, ih, ← walkLoop_succ]

/-- A run that is not doomed keeps what each of its rounds keeps. -/
theorem walkLoop_rule (hseed : seedValid inp) (hinit : P (initialWalk inp))
    (hround : ∀ fuel item rest, Holds inp (walkLoop inp fuel (initialWalk inp)) →
      P (walkLoop inp fuel (initialWalk inp)) → (walkLoop inp fuel (initialWalk inp)).budgetHit = false →
      (walkLoop inp fuel (initialWalk inp)).queue = item :: rest →
      ¬ (processItem inp item { walkLoop inp fuel (initialWalk inp) with queue := rest }).Doomed →
      P (processItem inp item { walkLoop inp fuel (initialWalk inp) with queue := rest }))
    (fuel : Nat) (hlive : ¬ (walkLoop inp fuel (initialWalk inp)).Doomed) :
    P (walkLoop inp fuel (initialWalk inp)) := by
  induction fuel with
  | zero => exact hinit
  | succ fuel ih =>
    have hsucc := walkLoop_succ inp fuel (initialWalk inp)
    split at hsucc
    next =>
      rw [hsucc] at hlive ⊢
      exact ih hlive
    next hhit =>
      split at hsucc
      next =>
        rw [hsucc] at hlive ⊢
        exact ih hlive
      next item rest hq =>
        rw [hsucc] at hlive ⊢
        have hprev : ¬ (walkLoop inp fuel (initialWalk inp)).Doomed :=
          fun hd => hlive ((processItem_grows item { walkLoop inp fuel (initialWalk inp) with queue := rest }).2 hd)
        exact hround fuel item rest (walkLoop_holds hseed initial_holds hprev) (ih hprev)
          (Bool.eq_false_iff.mpr hhit) hq hlive

end

end Leitir.Bts
