import Leitir.BtsReload
import Leitir.BtsRaise

namespace Leitir.Bts

open KeyedList List

variable {inp : Inputs} {w : Walk} {edge : Edge} {depth : Nat}

variable (inp) in
/-- Everything that the constructors of the graph, the seed and the policy check. -/
structure Inputs.Built : Prop where
  seed : inp.seed.Checked
  ids : ∀ node ∈ inp.graph.nodes, node.id.Checked
  sources : ∀ node ∈ inp.graph.nodes, ∀ source ∈ node.source, source.Checked
  edges : ∀ edge ∈ inp.graph.edges, edge.Built
  unresolved : ∀ edge ∈ inp.graph.unresolved, edge.Built
  payloads : ∀ rule ∈ inp.policy.rules, rule.payload.Built

/-- All evidence that the walk holds is made of checked parts. -/
structure Formed (w : Walk) : Prop where
  members : ∀ member ∈ w.members, member.Built
  dispositions : ∀ item ∈ w.dispositions, item.Built
  traversed : ∀ item ∈ w.traversed, item.edge.Built
  unresolved : ∀ edge ∈ w.reachedUnresolved, edge.Built
  blockers : ∀ blocker ∈ w.blockers, blocker.Built
  frontier : ∀ item ∈ w.frontier, item.Built
  queued : ∀ item ∈ w.queue, FrontierEvidence.Built ⟨0, item.node, item.incoming⟩

theorem classify_payload {policy : ResolutionPolicy} {target : NodeId} {edge : Option Edge} {payload : RulePayload}
    (h : payload ∈ (classify policy target edge).rulePayload) :
    ∃ rule ∈ policy.rules, rule.payload = payload ∧
      (classify policy target edge).disposition = rule.payload.expected := by
  unfold classify at h ⊢
  split at h
  next rule hrule =>
    obtain ⟨-, before, after, heq, -⟩ := lookupLast_eq_some_iff.mp hrule
    have hmem : rule ∈ policy.rules := by
      rw [heq]
      exact mem_append_right _ mem_cons_self
    split at h
    next => exact ⟨rule, hmem, Option.some.inj h, rule.fits⟩
    next => exact ⟨rule, hmem, Option.some.inj h, rule.fits⟩
  next =>
    split at h
    next => cases h
    next => split at h <;> cases h

theorem classify_edge {policy : ResolutionPolicy} {target : NodeId} {edge : Option Edge} :
    (classify policy target edge).edge = edge := by
  unfold classify
  split
  next => split <;> rfl
  next => split <;> [rfl; split <;> rfl]

theorem evidenceOf_built (hinp : inp.Built) (hedge : edge.Built) : (evidenceOf inp edge).Built := by
  refine ⟨?_, ?_, ?_⟩
  · intro other hother
    have heq : (evidenceOf inp edge).edge = some edge := classify_edge
    rw [heq] at hother
    cases hother
    exact hedge
  · have heq : (evidenceOf inp edge).target = edge.target := classify_target
    rw [heq]
    exact hedge.2.2.1
  · intro payload hpayload
    obtain ⟨rule, hrule, rfl, -⟩ := classify_payload hpayload
    exact hinp.payloads rule hrule

theorem evidenceOf_recoverable (h : Rejected inp edge) : (evidenceOf inp edge).Recoverable := by
  intro payload hpayload
  obtain ⟨rule, -, rfl, hexpected⟩ := classify_payload hpayload
  have hreject : rule.payload.expected = .reject := hexpected.symm.trans h
  cases hrule : rule.payload with
  | rejectRule => trivial
  | mapRule | adaptRule | replaceRule | externalRule =>
    rw [hrule] at hreject
    cases hreject

theorem refusals_built (hinp : inp.Built) {edges : List Edge} (h : ∀ edge ∈ edges, edge.Built) :
    ∀ blocker ∈ refusals inp edges, blocker.Built := by
  intro blocker hblocker
  obtain ⟨edge, hedge, rfl⟩ := mem_map.mp hblocker
  obtain ⟨hmem, hreject⟩ := mem_filter.mp hedge
  exact ⟨evidenceOf_built hinp (h edge hmem), evidenceOf_recoverable (of_decide_eq_true hreject)⟩

theorem forall_append {α : Type} {P : α → Prop} {xs ys : List α} (hx : ∀ x ∈ xs, P x) (hy : ∀ y ∈ ys, P y) :
    ∀ z ∈ xs ++ ys, P z := forall_mem_append.mpr ⟨hx, hy⟩

theorem Formed.charge (h : Formed w) (work : Nat) (visited : AList fun _ : NodeId => Nat) :
    Formed { w with workUnits := work, visited := visited } :=
  ⟨h.members, h.dispositions, h.traversed, h.unresolved, h.blockers, h.frontier, h.queued⟩

theorem Formed.stop (h : Formed w) {entry : FrontierEvidence} (hentry : entry.Built) : Formed (w.stop entry) :=
  ⟨h.members, h.dispositions, h.traversed, h.unresolved, h.blockers,
    forall_append h.frontier (forall_mem_singleton.mpr hentry), h.queued⟩

theorem Formed.block (h : Formed w) {item : DispositionEvidence} (hitem : item.Built) (hrecover : item.Recoverable) :
    Formed (w.block item) :=
  ⟨h.members, forall_append h.dispositions (forall_mem_singleton.mpr hitem), h.traversed, h.unresolved,
    forall_append h.blockers (forall_mem_singleton.mpr ⟨hitem, hrecover⟩), h.frontier, h.queued⟩

theorem Formed.own (h : Formed w) (hinp : inp.Built) (owner : NodeId) : Formed (Walk.own inp w owner) := by
  have hedges : ∀ edge ∈ unresolvedBySource inp.graph owner, edge.Built := by
    intro edge hedge
    exact hinp.unresolved edge (mem_filter.mp hedge).1
  refine ⟨h.members, h.dispositions, h.traversed, forall_append h.unresolved hedges,
    forall_append h.blockers ?_, h.frontier, h.queued⟩
  intro blocker hblocker
  obtain ⟨edge, hedge, rfl⟩ := mem_map.mp hblocker
  exact hedges edge hedge

theorem Formed.push (h : Formed w) (hedge : edge.Built) : Formed (w.push depth edge) := by
  refine ⟨h.members, h.dispositions, h.traversed, h.unresolved, h.blockers, h.frontier, ?_⟩
  intro item hitem
  rcases mem_heappush.mp hitem with rfl | hitem
  · refine ⟨hedge.2.2.1, ?_⟩
    intro other hother
    cases hother
    exact hedge
  · exact h.queued item hitem

theorem Formed.examined (h : Formed w) (hinp : inp.Built) (hedge : edge.Built) : Formed (examined inp depth w edge) :=
  ⟨h.members, forall_append h.dispositions (forall_mem_singleton.mpr (evidenceOf_built hinp hedge)),
    forall_append h.traversed (forall_mem_singleton.mpr hedge), h.unresolved, h.blockers, h.frontier, h.queued⟩

theorem Formed.refuse (h : Formed w) (hinp : inp.Built) (hedge : edge.Built) (hreject : Rejected inp edge) :
    Formed (w.refuse (evidenceOf inp edge)) :=
  ⟨h.members, h.dispositions, h.traversed, h.unresolved,
    forall_append h.blockers
      (forall_mem_singleton.mpr ⟨evidenceOf_built hinp hedge, evidenceOf_recoverable hreject⟩),
    h.frontier, h.queued⟩

theorem mem_supports {support : Edge} (h : support ∈ supports inp edge) : support ∈ importEdges inp.graph := by
  unfold supports at h
  split at h
  next => cases h
  next => exact (mem_filter.mp h).1

theorem Formed.followed (h : Formed w) (hinp : inp.Built) (hedge : edge.Built) : Formed (followed inp depth w edge) := by
  have hsupport : ∀ support ∈ supports inp edge, support.Built := by
    intro support hmem
    exact hinp.edges support (mem_filter.mp (mem_supports hmem)).1
  have hall : ∀ other ∈ edge :: supports inp edge, other.Built := forall_mem_cons.mpr ⟨hedge, hsupport⟩
  have hpushed : Formed (if (evidenceOf inp edge).disposition = .includeSource then w.push (depth + 1) edge else w) := by
    split
    next => exact h.push hedge
    next => exact h
  refine ⟨hpushed.members, forall_append h.dispositions ?_, forall_append h.traversed ?_, hpushed.unresolved,
    forall_append h.blockers (refusals_built hinp hsupport), hpushed.frontier, hpushed.queued⟩
  · intro item hitem
    obtain ⟨other, hother, rfl⟩ := mem_map.mp hitem
    exact evidenceOf_built hinp (hall other hother)
  · intro item hitem
    obtain ⟨other, hother, rfl⟩ := mem_map.mp hitem
    exact hall other hother

theorem Formed.followEdge (h : Formed w) (hinp : inp.Built) (hedge : edge.Built) : Formed (followEdge inp depth w edge) := by
  rw [followEdge_eq]
  split
  next hreject => exact (h.examined hinp hedge).refuse hinp hedge hreject
  next =>
    split
    next =>
      refine (h.examined hinp hedge).stop ⟨hedge.2.2.1, ?_⟩
      intro other hother
      cases hother
      exact hedge
    next => exact h.followed hinp hedge

theorem Formed.followEdges (hinp : inp.Built) {edges : List Edge} (hedges : ∀ edge ∈ edges, edge.Built)
    (h : Formed w) : Formed (edges.foldl (Bts.followEdge inp depth) w) := by
  induction edges generalizing w with
  | nil => exact h
  | cons edge edges ih =>
    rw [forall_mem_cons] at hedges
    exact ih hedges.2 (h.followEdge hinp hedges.1)

theorem Formed.carryOwners (h : Formed w) (hinp : inp.Built) {entry : FrontierEvidence} (hentry : entry.Built)
    (ids owners : List NodeId) : Formed (carryOwners inp entry ids owners w).2 := by
  refine carryOwners_rule ?_ ?_ ?_ ids owners h
  · intro v hv
    exact (hv.charge (v.workUnits + 1) v.visited).stop hentry
  · intro v hv _
    exact hv.charge (v.workUnits + 1) v.visited
  · intro v nested hv _ _
    exact (hv.charge (v.workUnits + 1) (v.visited.insert nested entry.depth)).own hinp nested

theorem outgoing_built (hinp : inp.Built) {owners : List NodeId} :
    ∀ edge ∈ sortBy edgeKey (owners.flatMap (outgoing inp.graph)), edge.Built := by
  intro edge hedge
  obtain ⟨owner, -, hmem⟩ := mem_owner_edges.mp hedge
  exact hinp.edges edge (source_of_outgoing hmem).1

theorem Formed.includeMember (h : Formed w) (hinp : inp.Built) {entry : FrontierEvidence} (hentry : entry.Built)
    {candidate : MemberEvidence} (hcandidate : candidate.Built) : Formed (includeMember inp entry candidate w) := by
  unfold Bts.includeMember
  split
  next => exact h.stop hentry
  next =>
    have hjoined : Formed { w with members := w.members ++ [candidate] } :=
      ⟨forall_append h.members (forall_mem_singleton.mpr hcandidate), h.dispositions, h.traversed, h.unresolved,
        h.blockers, h.frontier, h.queued⟩
    have hcarried := (hjoined.own hinp entry.node).carryOwners hinp hentry
      (sortBy nestedKey (nestedOwners inp.graph entry.node)) [entry.node]
    dsimp only
    split
    next => exact hcarried
    next => exact Formed.followEdges hinp (outgoing_built hinp) hcarried

theorem Formed.visitNode (h : Formed w) (hinp : inp.Built) {entry : FrontierEvidence} (hentry : entry.Built) :
    Formed (visitNode inp entry w) := by
  have hvisit := h.charge w.workUnits (w.visited.insert entry.node entry.depth)
  have hbuilt : ∀ reason detail,
      DispositionEvidence.Built ⟨entry.incoming, entry.node, .reject, none, some reason, some detail, none, none⟩ := by
    intro reason detail
    refine ⟨hentry.2, hentry.1, ?_⟩
    intro payload hpayload
    cases hpayload
  have hrecover : ∀ reason detail,
      DispositionEvidence.Recoverable ⟨entry.incoming, entry.node, .reject, none, some reason, some detail, none, none⟩ := by
    intro reason detail payload hpayload
    cases hpayload
  unfold Bts.visitNode
  dsimp only
  split
  next => exact hvisit
  next node hnode =>
    split
    next => exact hvisit.block (hbuilt _ _) (hrecover _ _)
    next source hsource =>
      split
      next => exact hvisit.block (hbuilt _ _) (hrecover _ _)
      next digest hdigest =>
        have hsourceChecked := hinp.sources node (Graph.node_eq_some hnode).1 source hsource
        exact hvisit.includeMember hinp hentry ⟨hentry.1, hsourceChecked⟩

theorem Formed.processItem (h : Formed w) (hinp : inp.Built) {item : QueueItem}
    (hitem : FrontierEvidence.Built ⟨0, item.node, item.incoming⟩) : Formed (processItem inp item w) := by
  have hcharged := h.charge (w.workUnits + 1) w.visited
  have hentry : FrontierEvidence.Built ⟨w.depthAfter item.incoming, item.node, item.incoming⟩ := hitem
  unfold Bts.processItem
  dsimp only
  split
  next =>
    refine ⟨h.members, h.dispositions, h.traversed, h.unresolved, h.blockers, h.frontier, ?_⟩
    intro other hother
    rcases mem_heappush.mp hother with rfl | hother
    · exact hitem
    · exact h.queued other hother
  next =>
    split
    next => exact hcharged.visitNode hinp hentry
    next =>
      split
      next => exact hcharged
      next => exact hcharged.visitNode hinp hentry

theorem Formed.walkLoop (hinp : inp.Built) {fuel : Nat} (h : Formed w) : Formed (walkLoop inp fuel w) := by
  induction fuel generalizing w with
  | zero => exact h
  | succ fuel ih =>
    unfold Bts.walkLoop
    split
    next => exact h
    next =>
      split
      next => exact h
      next item rest hq =>
        have hqueued := h.queued
        rw [hq, forall_mem_cons] at hqueued
        have hrest : Formed { w with queue := rest } :=
          ⟨h.members, h.dispositions, h.traversed, h.unresolved, h.blockers, h.frontier, hqueued.2⟩
        exact ih (hrest.processItem hinp hqueued.1)

theorem formed_initial (hinp : inp.Built) : Formed (initialWalk inp) := by
  refine ⟨?_, ?_, ?_, ?_, ?_, ?_, ?_⟩ <;> intro item hitem
  case refine_7 =>
    rcases mem_heappush.mp hitem with rfl | hitem
    · refine ⟨hinp.seed, ?_⟩
      intro edge hedge
      cases hedge
    · cases hitem
  all_goals cases hitem

theorem Formed.drain (h : Formed w) : Formed w.drain := by
  refine ⟨h.members, h.dispositions, h.traversed, h.unresolved, h.blockers, forall_append h.frontier ?_, h.queued⟩
  intro entry hentry
  obtain ⟨item, hitem, rfl⟩ := mem_map.mp hentry
  exact h.queued item hitem

theorem seedReject_built (hinp : inp.Built) (reason : RejectReason) (detail : String) :
    (seedReject inp reason detail).Built ∧ (seedReject inp reason detail).Recoverable := by
  refine ⟨⟨?_, hinp.seed, ?_⟩, ?_⟩ <;> intro _ h <;> cases h

theorem Formed.refer (h : Formed w) {item : DispositionEvidence} (hitem : item.Built ∧ item.Recoverable) :
    Formed { w with blockers := w.blockers ++ [.disposition item] } :=
  ⟨h.members, h.dispositions, h.traversed, h.unresolved,
    forall_append h.blockers (forall_mem_singleton.mpr hitem), h.frontier, h.queued⟩

theorem Formed.conclude (h : Formed w) (hinp : inp.Built) : Formed (conclude inp w).2 := by
  have hcover := h.refer (seedReject_built hinp .underCollection "b4_runtime_references_incomplete_v1")
  have hbudget := seedReject_built hinp .budgetExceeded "bts_walk_budget_v1"
  unfold Bts.conclude
  split
  next => exact h
  next =>
    split
    next =>
      split
      next => exact h.refer hbudget
      next => exact h
    next =>
      split
      next => exact hcover.refer hbudget
      next => exact hcover

theorem reportOf_built (hinp : inp.Built) (h : Formed w) {status : Status} {counters : BudgetCounters}
    (hbytes : counters.fileBytes = []) (hnodes : counters.astNodesPerFile = []) :
    (reportOf inp status (analysisInputs inp) w counters).Built := by
  refine ⟨hinp.seed, ?_, ?_, ?_, ?_, ?_, ?_, hbytes, hnodes⟩
  · exact fun member hmember => h.members member (mem_sortBy.mp hmember)
  · exact fun item hitem => h.dispositions item (mem_of_mem_uniqueLast (mem_sortBy.mp hitem))
  · exact fun item hitem => h.traversed item (mem_of_mem_uniqueLast (mem_sortBy.mp hitem))
  · exact fun edge hedge => h.unresolved edge (mem_sortBy.mp hedge)
  · exact fun blocker hblocker => h.blockers blocker (mem_sortBy.mp hblocker)
  · exact fun item hitem => h.frontier item (mem_sortBy.mp hitem)

theorem computeBts_report (hinp : inp.Built) :
    ∃ status w counters, Formed w ∧ counters.fileBytes = [] ∧ counters.astNodesPerFile = [] ∧
      (computeBts inp).report = reportOf inp status (analysisInputs inp) w counters := by
  unfold computeBts
  split
  next =>
    obtain ⟨hbuilt, hrecover⟩ := seedReject_built hinp .unresolvedEdge "invalid_or_ambiguous_seed_v1"
    have hempty : Formed {} := ⟨by simp, by simp, by simp, by simp, by simp, by simp, by simp⟩
    exact ⟨_, _, _, hempty.block hbuilt hrecover, rfl, rfl, rfl⟩
  next =>
    have hfinal : Formed (conclude inp (finalWalk inp)).2 :=
      ((formed_initial hinp).walkLoop hinp).drain.conclude hinp
    dsimp only
    split
    next => exact ⟨_, _, _, hfinal, rfl, rfl, rfl⟩
    next => exact ⟨_, _, _, hfinal, rfl, rfl, rfl⟩

theorem computeBts_report_built (hinp : inp.Built) : (computeBts inp).report.Built := by
  obtain ⟨status, w, counters, hw, hbytes, hnodes, heq⟩ := computeBts_report hinp
  rw [heq]
  exact reportOf_built hinp hw hbytes hnodes

theorem computeBts_report_digest (hinp : inp.Built) :
    (computeBts inp).report.analysisDigest =
      inp.digests.report { (computeBts inp).report with analysisDigest := [] } := by
  obtain ⟨status, w, counters, -, -, -, heq⟩ := computeBts_report hinp
  rw [heq]
  rfl

/-- A report of the walk is read back as itself exactly when no rule that replaces, and none that adapts with
parameters, stands in its evidence. -/
theorem report_round_trip_iff (hinp : inp.Built) :
    fromJson inp.digests (toBytes (computeBts inp).report) = some (computeBts inp).report ↔
      ∀ item ∈ (computeBts inp).report.dispositions, item.Recoverable :=
  fromJson_toBytes_iff (computeBts_report_built hinp) (computeBts_report_digest hinp)

def ruledPolicy (rule : DispositionRule) : ResolutionPolicy :=
  { samplePolicy with
    adapterCatalog := ⟨"c".toList, "1".toList, zeroDigest, [⟨"wrap".toList, "t".toList, zeroDigest, ["k".toList]⟩]⟩
    rules := [rule]
    rules_sorted := List.pairwise_singleton _ _
    sources_nodup := List.nodup_singleton _ }

def ruledInputs (payload : RulePayload) : Inputs :=
  { sampleInputs firstF definedOnce with
    policy := ruledPolicy ⟨"r1".toList, calledH, payload.expected, payload, zeroDigest, rfl⟩ }

def mappedH : RulePayload := .mapRule calledH "host.h".toList ⟨"h".toList, "1".toList, zeroDigest⟩

def replacedH : RulePayload := .replaceRule calledH "host.h".toList ⟨"h".toList, "1".toList, zeroDigest⟩

def adaptedH : RulePayload := .adaptRule "wrap".toList [("k".toList, "v".toList)]

theorem ruledInputs_built {payload : RulePayload} (h : payload.Built) : (ruledInputs payload).Built where
  seed := (by decide +kernel : firstF.Checked)
  ids := (by decide +kernel : ∀ node ∈ definedOnce.nodes, node.id.Checked)
  sources := (by decide +kernel : ∀ node ∈ definedOnce.nodes, ∀ source ∈ node.source, source.Checked)
  edges := (by decide +kernel : ∀ edge ∈ definedOnce.edges, edge.Built)
  unresolved := (by decide +kernel : ∀ edge ∈ definedOnce.unresolved, edge.Built)
  payloads := forall_mem_singleton.mpr h

theorem report_round_trip_iff_sample :
    (ruledInputs mappedH).Built ∧
      (fromJson sampleDigests (toBytes (computeBts (ruledInputs mappedH)).report) =
          some (computeBts (ruledInputs mappedH)).report ↔
        ∀ item ∈ (computeBts (ruledInputs mappedH)).report.dispositions, item.Recoverable) := by
  have hbuilt : (ruledInputs mappedH).Built := ruledInputs_built (by decide +kernel)
  exact ⟨hbuilt, report_round_trip_iff hbuilt⟩

/-- Reports with a rule that replaces, or with the parameters of an adapter, do not come back. -/
theorem rule_payloads_lost :
    (fromJson sampleDigests (toBytes (computeBts (ruledInputs replacedH)).report) ≠
        some (computeBts (ruledInputs replacedH)).report) ∧
      fromJson sampleDigests (toBytes (computeBts (ruledInputs adaptedH)).report) ≠
        some (computeBts (ruledInputs adaptedH)).report := by
  constructor
  · intro h
    have hbuilt : (ruledInputs replacedH).Built := ruledInputs_built (by decide +kernel)
    have hall := (fromJson_toBytes_iff (computeBts_report_built hbuilt) (computeBts_report_digest hbuilt)).mp h
    revert hall
    decide +kernel
  · intro h
    have hbuilt : (ruledInputs adaptedH).Built := ruledInputs_built (by decide +kernel)
    have hall := (fromJson_toBytes_iff (computeBts_report_built hbuilt) (computeBts_report_digest hbuilt)).mp h
    revert hall
    decide +kernel

end Leitir.Bts
