import Leitir.BtsIndex

namespace Leitir.Bts

open KeyedList

structure QueueItem where
  key : Key
  serial : Nat
  node : NodeId
  incoming : Option Edge
deriving DecidableEq

def QueueItem.Le (a b : QueueItem) : Prop := a.key < b.key ∨ a.key = b.key ∧ a.serial ≤ b.serial

instance : DecidableRel QueueItem.Le := fun _ _ => inferInstanceAs (Decidable (_ ∨ _))

def heappush (item : QueueItem) (queue : List QueueItem) : List QueueItem :=
  queue.orderedInsert QueueItem.Le item

structure Walk where
  members : List MemberEvidence := []
  dispositions : List DispositionEvidence := []
  traversed : List EdgeEvidence := []
  reachedUnresolved : List UnresolvedEdge := []
  blockers : List BlockerEvidence := []
  frontier : List FrontierEvidence := []
  visited : AList (fun _ : NodeId => Nat) := ∅
  queue : List QueueItem := []
  serial : Nat := 0
  peakQueue : Nat := 1
  workUnits : Nat := 1
  edgesExamined : Nat := 0
  external : List NodeId := []
  budgetHit : Bool := false

def Walk.depthAfter (w : Walk) : Option Edge → Nat
  | none => 0
  | some edge =>
    match w.visited.lookup edge.source with
    | none => 0
    | some depth => depth + 1

def Walk.stop (w : Walk) (item : FrontierEvidence) : Walk :=
  { w with frontier := w.frontier ++ [item], budgetHit := true }

def Walk.block (w : Walk) (item : DispositionEvidence) : Walk :=
  { w with dispositions := w.dispositions ++ [item], blockers := w.blockers ++ [.disposition item] }

/-- An edge is examined and its disposition is looked up. -/
def Walk.record (w : Walk) (depth : Nat) (edge : Edge) (item : DispositionEvidence) : Walk :=
  { w with workUnits := w.workUnits + 2
           dispositions := w.dispositions ++ [item]
           traversed := w.traversed ++ [⟨depth, edge, item.disposition, item.ruleId⟩] }

def Walk.refuse (w : Walk) (item : DispositionEvidence) : Walk :=
  { w with blockers := w.blockers ++ [.disposition item] }

def Walk.noteExternal (w : Walk) (item : DispositionEvidence) : Walk :=
  if item.disposition = .external then { w with external := w.external.insert item.target } else w

variable (inp : Inputs)

def Walk.own (w : Walk) (owner : NodeId) : Walk :=
  let unresolved := unresolvedBySource inp.graph owner
  { w with reachedUnresolved := w.reachedUnresolved ++ unresolved
           blockers := w.blockers ++ unresolved.map .unresolved }

/-- The owners nested in the current definition that no visit has reached at this depth. -/
def carryOwners (entry : FrontierEvidence) : List NodeId → List NodeId → Walk → List NodeId × Walk
  | [], owners, w => (owners, w)
  | nested :: rest, owners, w =>
    let w := { w with workUnits := w.workUnits + 1 }
    if w.workUnits > inp.budget.maxWorkUnits then (owners, w.stop entry)
    else
      match w.visited.lookup nested with
      | none =>
        carryOwners entry rest (owners ++ [nested])
          (Walk.own inp { w with visited := w.visited.insert nested entry.depth } nested)
      | some depth =>
        if entry.depth < depth then
          carryOwners entry rest (owners ++ [nested])
            (Walk.own inp { w with visited := w.visited.insert nested entry.depth } nested)
        else carryOwners entry rest owners w

def supportImport (depth : Nat) (w : Walk) (support : Edge) : Walk :=
  let item := classify inp.policy support.target (some support)
  if item.disposition = .reject then (w.record (depth + 1) support item).refuse item
  else (w.record (depth + 1) support item).noteExternal item

def supportBinding (depth : Nat) (edge : Edge) (w : Walk) : Walk :=
  match edge.provenance.binding with
  | none => w
  | some binding =>
    ((importEdges inp.graph).filter fun support =>
      support.provenance.binding = some binding ∨ support.provenance.site = binding).foldl
      (supportImport inp depth) w

def Walk.push (w : Walk) (depth : Nat) (edge : Edge) : Walk :=
  let queue := heappush ⟨frontierKey ⟨depth, edge.target, some edge⟩, w.serial + 1, edge.target, some edge⟩
    w.queue
  { w with serial := w.serial + 1
           queue := queue
           workUnits := w.workUnits + 1
           peakQueue := max w.peakQueue queue.length }

/-- What follows for an edge that is not rejected: limits, the proposal of its target, its import. -/
def followAccepted (depth : Nat) (edge : Edge) (item : DispositionEvidence) (w : Walk) : Walk :=
  if w.workUnits > inp.budget.maxWorkUnits ∨ w.edgesExamined > inp.budget.maxEdges ∨
      w.external.length > inp.budget.maxExternalInterfaces then
    w.stop ⟨depth + 1, edge.target, some edge⟩
  else if item.disposition = .includeSource then
    if depth + 1 > inp.budget.maxDepth ∨ w.queue.length + 1 > inp.budget.maxQueueEntries then
      w.stop ⟨depth + 1, edge.target, some edge⟩
    else supportBinding inp depth edge (w.push (depth + 1) edge)
  else supportBinding inp depth edge w

def followEdge (depth : Nat) (w : Walk) (edge : Edge) : Walk :=
  let item := classify inp.policy edge.target (some edge)
  let w := { w with edgesExamined := w.edgesExamined + 1 }
  if item.disposition = .reject then (w.record (depth + 1) edge item).refuse item
  else followAccepted inp depth edge item ((w.record (depth + 1) edge item).noteExternal item)

def overBudget (members : List MemberEvidence) : Prop :=
  members.length > inp.budget.maxNodes ∨ members.length > inp.budget.maxSymbols ∨
    pathCount members > inp.budget.maxFiles ∨ memberLines members > inp.budget.maxSourceLines ∨
    totalDonorLines inp.graph = 0 ∨
    memberLines members * 10000 > totalDonorLines inp.graph * inp.budget.maxDonorSourceBps

instance (members : List MemberEvidence) : Decidable (overBudget inp members) :=
  inferInstanceAs (Decidable (_ ∨ _))

def followOwners (depth : Nat) (owners : List NodeId) (w : Walk) : Walk :=
  (sortBy edgeKey (owners.flatMap (outgoing inp.graph))).foldl (followEdge inp depth) w

/-- A definition whose source is verified joins the members with all that its source carries. -/
def includeMember (entry : FrontierEvidence) (candidate : MemberEvidence) (w : Walk) : Walk :=
  if overBudget inp (w.members ++ [candidate]) then w.stop entry
  else
    let w := Walk.own inp { w with members := w.members ++ [candidate] } entry.node
    let (owners, w) :=
      carryOwners inp entry (sortBy nestedKey (nestedOwners inp.graph entry.node)) [entry.node] w
    if w.budgetHit then w else followOwners inp entry.depth owners w

def visitNode (entry : FrontierEvidence) (w : Walk) : Walk :=
  let w := { w with visited := w.visited.insert entry.node entry.depth }
  match inp.graph.node entry.node with
  | none => w
  | some node =>
    match node.source with
    | none =>
      w.block ⟨entry.incoming, entry.node, .reject, none, some .provenanceMismatch,
        some "included_node_missing_source_v1".toList, none, none⟩
    | some source =>
      match verifiedSourceDigest inp.digests inp.snapshot source with
      | .error failure =>
        w.block ⟨entry.incoming, entry.node, .reject, none, some failure.reason,
          some (failure.detailCode.getD "bts_source_verification_v1".toList), none, none⟩
      | .ok digest => includeMember inp entry ⟨entry.node, source, digest, .includeSource⟩ w

/-- One round of the walk, with the item that the heap has given out. -/
def processItem (item : QueueItem) (w : Walk) : Walk :=
  let depth := w.depthAfter item.incoming
  let w := { w with workUnits := w.workUnits + 1 }
  if w.workUnits > inp.budget.maxWorkUnits then
    { w with queue := heappush ⟨frontierKey ⟨depth, item.node, item.incoming⟩, w.serial, item.node,
               item.incoming⟩ w.queue
             budgetHit := true }
  else
    match w.visited.lookup item.node with
    | none => visitNode inp ⟨depth, item.node, item.incoming⟩ w
    | some previous => if previous ≤ depth then w else visitNode inp ⟨depth, item.node, item.incoming⟩ w

def walkLoop : Nat → Walk → Walk
  | 0, w => w
  | fuel + 1, w =>
    if w.budgetHit then w
    else
      match w.queue with
      | [] => w
      | item :: rest => walkLoop fuel (processItem inp item { w with queue := rest })

def reportOf (status : Status) (inputs : AnalysisInputs) (w : Walk) (counters : BudgetCounters) : Report :=
  let base : Report := {
    schemaVersion := btsSchemaVersion
    status := status
    inputs := inputs
    members := sortBy memberKey w.members
    dispositions := sortBy dispositionKey (uniqueLast dispositionKey w.dispositions)
    traversedEdges := sortBy traversedKey (uniqueLast traversedKey w.traversed)
    unresolved := sortBy reachedUnresolvedKey w.reachedUnresolved
    blockers := sortBy blockerKey w.blockers
    frontier := sortBy frontierKey w.frontier
    counters := counters
    analysisDigest := [] }
  { base with analysisDigest := inp.digests.report base }

def analysisInputs : AnalysisInputs where
  seed := inp.seed
  donorSlug := inp.snapshot.slug
  donorCommitSha := inp.snapshot.commitSha
  materializedTreeHash := inp.snapshot.materializedTreeHash
  materializedTreeHashAlgorithm := inp.snapshot.materializedTreeHashAlgorithm
  graphSchemaVersion := graphSchemaVersion
  graphDigest := inp.digests.graph inp.graph
  resolverVersion := btsResolverVersion
  budget := inp.budget
  policyId := inp.policy.policyId
  policyDigest := inp.policy.policyDigest
  policyEnvelopeDigest := inp.digests.policy inp.policy
  stdlibAllowlistDigest := inp.policy.stdlibIdentity.allowlistDigest
  adapterCatalogDigest := inp.policy.adapterCatalog.contentDigest

def configEntries : Nat :=
  inp.policy.rules.length + inp.policy.stdlibIdentity.allowlistEntries.length +
    inp.policy.adapterCatalog.entries.length

def seedReject (reason : RejectReason) (detail : String) : DispositionEvidence :=
  ⟨none, inp.seed, .reject, none, some reason, some detail.toList, none, none⟩

/-- The walk before its first round: the seed is proposed, and some limits are checked at once. -/
def initialWalk : Walk where
  queue := heappush ⟨frontierKey ⟨0, inp.seed, none⟩, 0, inp.seed, none⟩ []
  budgetHit := configEntries inp > inp.budget.maxConfigEntries ∨ inp.budget.maxQueueEntries < 1 ∨
    1 > inp.budget.maxWorkUnits

def Walk.drain (w : Walk) : Walk :=
  { w with frontier := w.frontier ++ w.queue.map fun item =>
      ⟨w.depthAfter item.incoming, item.node, item.incoming⟩ }

def countersOf (w : Walk) : BudgetCounters where
  files := pathCount w.members
  edges := w.edgesExamined
  nodes := w.members.length
  queueEntries := w.frontier.length
  peakQueueEntries := w.peakQueue
  depth := (w.visited.entries.map Sigma.snd).foldl max 0
  workUnits := w.workUnits
  symbols := w.members.length
  sourceLines := memberLines w.members
  externalInterfaces := w.external.length
  configEntries := configEntries inp

def coverageComplete : Prop :=
  inp.graph.coverage.files ≠ [] ∧ inp.graph.coverage.files = inp.graph.coverage.parsedFiles

instance : Decidable (coverageComplete inp) := inferInstanceAs (Decidable (_ ∧ _))

/-- The verdict on a finished walk, and the walk with the blockers that the verdict adds. -/
def conclude (w : Walk) : Status × Walk :=
  if w.blockers ≠ [] then (.reject, w)
  else
    let w' :=
      if coverageComplete inp then w
      else { w with blockers :=
        w.blockers ++ [.disposition (seedReject inp .underCollection "b4_runtime_references_incomplete_v1")] }
    if w.budgetHit then
      (.incomplete, { w' with blockers :=
        w'.blockers ++ [.disposition (seedReject inp .budgetExceeded "bts_walk_budget_v1")] })
    else if coverageComplete inp then (.complete, w')
    else (.incomplete, w')

def requiredFiles (members : List MemberEvidence) : List RequiredFileEvidence :=
  sortBy requiredFileKey
    (members.map fun item => ⟨item.source.path, item.source.blobSha, item.sourceBytesSha256⟩).dedup

def requiredSymbols (members : List MemberEvidence) : List RequiredSymbolEvidence :=
  sortBy (fun item => nodeIdKey item.node) (members.map fun item => ⟨item.node, item.source⟩)

def transplantSet (report : Report) (w : Walk) : TransplantSet :=
  let base : TransplantSet := {
    schemaVersion := btsSchemaVersion
    seed := inp.seed
    members := sortBy memberKey w.members
    dispositions := sortBy dispositionKey w.dispositions
    requiredFiles := requiredFiles w.members
    requiredSymbols := requiredSymbols w.members
    btsDigest := []
    memberEquivalenceDigest := [] }
  { base with btsDigest := inp.digests.primary report base
              memberEquivalenceDigest := inp.digests.equivalence base }

def seedValid : Prop :=
  inp.seed.origin = .donor ∧ inp.seed.kind ∈ seedKinds ∧
    ((inp.graph.node inp.seed).bind Node.source).isSome

instance : Decidable (seedValid inp) := inferInstanceAs (Decidable (_ ∧ _))

def finalWalk : Walk := (walkLoop inp (inp.budget.maxWorkUnits + 1) (initialWalk inp)).drain

def computeBts : Result :=
  if ¬ seedValid inp then
    let item := seedReject inp .unresolvedEdge "invalid_or_ambiguous_seed_v1"
    let w : Walk := { dispositions := [item], blockers := [.disposition item] }
    ⟨.reject, reportOf inp .reject (analysisInputs inp) w { configEntries := configEntries inp }, none⟩
  else
    let counters := countersOf inp (finalWalk inp)
    let (status, w) := conclude inp (finalWalk inp)
    let report := reportOf inp status (analysisInputs inp) w counters
    if status = .complete then ⟨.complete, report, some (transplantSet inp report w)⟩
    else ⟨status, report, none⟩

end Leitir.Bts
