import Leitir.BtsRound
import Leitir.BtsClosure

namespace Leitir.Bts

open KeyedList List

variable {inp : Inputs} {w w' v : Walk} {item : QueueItem} {rest : List QueueItem} {depth : Nat} {edge : Edge}

/-- An edge comes to its turn in the walk, in the given state and from a member of the given depth. -/
inductive Follows (inp : Inputs) : Nat → Walk → Edge → Prop
  | intro {fuel : Nat} {w start : Walk} {item : QueueItem} {rest : List QueueItem} {candidate : MemberEvidence}
      {owners : List NodeId} {before after : List Edge} {edge : Edge}
      (hwalk : w = walkLoop inp fuel (initialWalk inp)) (hlive : w.budgetHit = false)
      (hqueue : w.queue = item :: rest) (hopens : Opens inp item { w with queue := rest } candidate owners start)
      (hedges : ownerEdges inp.graph owners = before ++ edge :: after) :
      Follows inp (w.depthAfter item.incoming)
        (before.foldl (followEdge inp (w.depthAfter item.incoming)) start) edge

/-- What an edge and the imports that support it cost is within the limits. -/
def Fits (inp : Inputs) (w : Walk) (edge : Edge) : Prop :=
  chargedWork inp w edge ≤ inp.budget.maxWorkUnits ∧
    (chargedExternal inp w edge).length ≤ inp.budget.maxExternalInterfaces

structure Spends (w w' : Walk) : Prop where
  work : w.workUnits ≤ w'.workUnits
  external : w.external.length ≤ w'.external.length

theorem Spends.refl : Spends w w := ⟨le_refl _, le_refl _⟩

theorem Spends.trans (h : Spends w w') (h' : Spends w' v) : Spends w v :=
  ⟨h.work.trans h'.work, h.external.trans h'.external⟩

theorem length_interfaces_le (es : List Edge) (external : List NodeId) :
    external.length ≤ (interfaces inp es external).length := by
  induction es generalizing external with
  | nil => exact le_refl _
  | cons e es ih =>
    unfold interfaces
    rw [foldl_cons]
    refine le_trans ?_ (ih _)
    split
    next => exact length_le_length_insert
    next => exact le_refl _

theorem followed_spends : Spends w (followed inp depth w edge) := by
  refine ⟨?_, length_interfaces_le _ _⟩
  change w.workUnits ≤ chargedWork inp w edge
  unfold chargedWork
  omega

theorem carryOwners_spends {entry : FrontierEvidence} (ids owners : List NodeId) :
    Spends w (carryOwners inp entry ids owners w).2 := by
  refine carryOwners_rule ?_ ?_ ?_ ids owners Spends.refl
  · intro v hv
    exact hv.trans ⟨Nat.le_succ _, le_refl _⟩
  · intro v hv _
    exact hv.trans ⟨Nat.le_succ _, le_refl _⟩
  · intro v nested hv _ _
    exact hv.trans ⟨Nat.le_succ _, le_refl _⟩

theorem Opens.spends {candidate : MemberEvidence} {owners : List NodeId}
    (h : Opens inp item w candidate owners v) : Spends w v := by
  have hjoined : Spends w (joined inp item candidate w) := ⟨Nat.le_succ _, le_refl _⟩
  rw [h.state]
  exact hjoined.trans (carryOwners_spends _ _)

theorem followEdges_spends {es : List Edge} (hlive : ¬ (es.foldl (followEdge inp depth) w).Doomed) :
    Spends w (es.foldl (followEdge inp depth) w) := by
  refine followEdges_rule ?_ Spends.refl hlive
  intro before edge after _ hw _ _ _
  exact hw.trans followed_spends

theorem processItem_spends (hnode : ∃ node, inp.graph.node item.node = some node)
    (hlive : ¬ (processItem inp item w).Doomed) : Spends w (processItem inp item w) := by
  rcases processItem_live hnode hlive with ⟨-, -, heq⟩ | ⟨candidate, owners, v, hopens, heq⟩
  · rw [heq]
    exact ⟨Nat.le_succ _, le_refl _⟩
  · rw [heq] at hlive ⊢
    exact hopens.spends.trans (followEdges_spends hlive)

variable (inp) in
/-- The limits that the walk checks before it spends. -/
structure Bounded (w : Walk) : Prop where
  members : w.members = [] ∨ ¬ overBudget inp w.members
  edges : w.edgesExamined ≤ inp.budget.maxEdges
  peak : w.peakQueue ≤ inp.budget.maxQueueEntries
  depth : ∀ n d, w.visited.lookup n = some d → d ≤ inp.budget.maxDepth
  queued : ∀ item ∈ w.queue, ∀ edge ∈ item.incoming,
    ∃ d, w.visited.lookup edge.source = some d ∧ d + 1 ≤ inp.budget.maxDepth

theorem Bounded.visit {n : NodeId} {d : Nat} (hw : Bounded inp w) (hd : d ≤ inp.budget.maxDepth)
    (hfresh : ∀ previous ∈ w.visited.lookup n, d < previous) :
    Bounded inp { w with visited := w.visited.insert n d } := by
  refine ⟨hw.members, hw.edges, hw.peak, ?_, ?_⟩
  · intro m e hm
    by_cases heq : m = n
    · rw [heq, AList.lookup_insert] at hm
      cases hm
      exact hd
    · rw [AList.lookup_insert_ne heq] at hm
      exact hw.depth m e hm
  · intro item hitem edge hedge
    obtain ⟨e, hlookup, hle⟩ := hw.queued item hitem edge hedge
    by_cases heq : edge.source = n
    · have hlt := hfresh e (by rw [← heq]; exact hlookup)
      exact ⟨d, by rw [heq]; exact AList.lookup_insert _, by omega⟩
    · exact ⟨e, (AList.lookup_insert_ne heq).trans hlookup, hle⟩

theorem Bounded.of_eq (hw : Bounded inp w) (hm : w'.members = w.members) (he : w'.edgesExamined = w.edgesExamined)
    (hp : w'.peakQueue = w.peakQueue) (hv : w'.visited = w.visited) (hq : ∀ item ∈ w'.queue, item ∈ w.queue) :
    Bounded inp w' := by
  refine ⟨by rw [hm]; exact hw.members, by rw [he]; exact hw.edges, by rw [hp]; exact hw.peak, ?_, ?_⟩
  · rw [hv]
    exact hw.depth
  · rw [hv]
    intro item hitem
    exact hw.queued item (hq item hitem)

section

variable (inp) in
/-- Every reported counter is at most its limit. -/
structure Within (counters : BudgetCounters) : Prop where
  files : counters.files ≤ inp.budget.maxFiles
  edges : counters.edges ≤ inp.budget.maxEdges
  nodes : counters.nodes ≤ inp.budget.maxNodes
  symbols : counters.symbols ≤ inp.budget.maxSymbols
  peakQueueEntries : counters.peakQueueEntries ≤ inp.budget.maxQueueEntries
  depth : counters.depth ≤ inp.budget.maxDepth
  workUnits : counters.workUnits ≤ inp.budget.maxWorkUnits
  sourceLines : counters.sourceLines ≤ inp.budget.maxSourceLines
  externalInterfaces : counters.externalInterfaces ≤ inp.budget.maxExternalInterfaces
  configEntries : counters.configEntries ≤ inp.budget.maxConfigEntries

variable {fuel : Nat}

/-- What a run has spent before one of its rounds counts against what it has spent in the end. -/
theorem walkLoop_spends (hseed : seedValid inp) (fuel more : Nat)
    (hlive : ¬ (walkLoop inp (fuel + more) (initialWalk inp)).Doomed) :
    Spends (walkLoop inp fuel (initialWalk inp)) (walkLoop inp (fuel + more) (initialWalk inp)) := by
  induction more with
  | zero => exact Spends.refl
  | succ more ih =>
    have hsucc := walkLoop_succ inp (fuel + more) (initialWalk inp)
    rw [Nat.add_succ] at hlive ⊢
    split at hsucc
    next =>
      rw [hsucc] at hlive ⊢
      exact ih hlive
    next =>
      split at hsucc
      next =>
        rw [hsucc] at hlive ⊢
        exact ih hlive
      next item rest hq =>
        rw [hsucc] at hlive ⊢
        have hprev : ¬ (walkLoop inp (fuel + more) (initialWalk inp)).Doomed := fun hd =>
          hlive ((processItem_grows item { walkLoop inp (fuel + more) (initialWalk inp) with queue := rest }).2 hd)
        have hholds := walkLoop_holds hseed initial_holds hprev
        have hnode := reached_node hseed (hholds.queued item (by rw [hq]; exact mem_cons_self))
        have hround := processItem_spends hnode hlive
        exact (ih hprev).trans ⟨hround.work, hround.external⟩

theorem walkLoop_stays (more : Nat) (hq : (walkLoop inp fuel w).queue = []) :
    walkLoop inp (fuel + more) w = walkLoop inp fuel w := by
  induction more with
  | zero => rfl
  | succ more ih =>
    rw [Nat.add_succ, walkLoop_succ, ih]
    split
    next => rfl
    next => rw [hq]

theorem computeBts_counters (h : (computeBts inp).status = .complete) :
    seedValid inp ∧ ¬ (walkLoop inp (inp.budget.maxWorkUnits + 1) (initialWalk inp)).Doomed ∧
      (walkLoop inp (inp.budget.maxWorkUnits + 1) (initialWalk inp)).queue = [] ∧
      (computeBts inp).report.counters =
        countersOf inp (walkLoop inp (inp.budget.maxWorkUnits + 1) (initialWalk inp)).drain := by
  unfold computeBts at h ⊢
  split at h
  next => cases h
  next hseed =>
    rw [if_neg hseed]
    dsimp only at h ⊢
    split at h
    next hc =>
      rw [if_pos hc]
      have hlive := (conclude_complete hc).1
      refine ⟨not_not.mp hseed, hlive, ?_, rfl⟩
      rcases walkLoop_ends (Nat.le_add_right _ _) with hhit | hq
      · exact absurd (Or.inl hhit) hlive
      · exact hq
    next hc => exact absurd h hc

/-- An edge that a complete run has followed cost no more than the run has spent in the end. -/
theorem Follows.spent (hseed : seedValid inp)
    (hlive : ¬ (walkLoop inp fuel (initialWalk inp)).Doomed) (hq : (walkLoop inp fuel (initialWalk inp)).queue = [])
    (h : Follows inp depth w edge) :
    Spends (followed inp depth w edge) (walkLoop inp fuel (initialWalk inp)) := by
  cases h with
  | @intro round u start item rest candidate owners before after _ hwalk hhit hqueue hopens hedges =>
    have hlt : round + 1 ≤ fuel := by
      by_contra hle
      have hstay := walkLoop_stays (round - fuel) hq
      rw [show fuel + (round - fuel) = round by omega, ← hwalk] at hstay
      rw [← hstay, hqueue] at hq
      cases hq
    obtain ⟨more, rfl⟩ := Nat.exists_eq_add_of_le hlt
    have hspends := walkLoop_spends hseed (round + 1) more hlive
    have hsucc := walkLoop_succ inp round (initialWalk inp)
    rw [← hwalk, if_neg (Bool.eq_false_iff.mp hhit), hqueue] at hsucc
    have hround : walkLoop inp (round + 1) (initialWalk inp) =
        (before ++ edge :: after).foldl (followEdge inp (u.depthAfter item.incoming)) start := by
      rw [hsucc, ← hedges]
      exact hopens.processItem_eq
    have hfirst : ¬ (walkLoop inp (round + 1) (initialWalk inp)).Doomed := by
      intro hd
      rw [walkLoop_add] at hlive
      exact hlive (walkLoop_doomed hd)
    rw [hround, foldl_append, foldl_cons] at hspends hfirst
    have hfollow : ¬ (followEdge inp (u.depthAfter item.incoming)
        (before.foldl (followEdge inp (u.depthAfter item.incoming)) start) edge).Doomed :=
      fun hd => hfirst ((followEdges_spec (fun _ h => h) _ _).1.doomed hd)
    have hafter := followEdges_spends hfirst
    rw [(followEdge_live hfollow).1] at hafter hspends
    exact hafter.trans hspends

theorem foldl_max_le {bound : Nat} {items : List Nat} (h : ∀ d ∈ items, d ≤ bound) (start : Nat)
    (hstart : start ≤ bound) : items.foldl max start ≤ bound := by
  induction items generalizing start with
  | nil => exact hstart
  | cons d items ih =>
    exact ih (fun e he => h e (mem_cons_of_mem _ he)) _ (max_le hstart (h d mem_cons_self))

theorem Bounded.within (hw : Bounded inp w) (hconfig : configEntries inp ≤ inp.budget.maxConfigEntries)
    (hwork : w.workUnits ≤ inp.budget.maxWorkUnits)
    (hexternal : w.external.length ≤ inp.budget.maxExternalInterfaces) : Within inp (countersOf inp w.drain) := by
  have hmembers : w.members.length ≤ inp.budget.maxNodes ∧ w.members.length ≤ inp.budget.maxSymbols ∧
      pathCount w.members ≤ inp.budget.maxFiles ∧ memberLines w.members ≤ inp.budget.maxSourceLines := by
    rcases hw.members with hnone | hroom
    · rw [hnone]
      exact ⟨Nat.zero_le _, Nat.zero_le _, Nat.zero_le _, Nat.zero_le _⟩
    · unfold overBudget at hroom
      push Not at hroom
      exact ⟨hroom.1, hroom.2.1, hroom.2.2.1, hroom.2.2.2.1⟩
  obtain ⟨hnodes, hsymbols, hfiles, hlines⟩ := hmembers
  refine ⟨hfiles, hw.edges, hnodes, hsymbols, hw.peak, ?_, hwork, hlines, hexternal, hconfig⟩
  refine foldl_max_le ?_ 0 (Nat.zero_le _)
  intro d hd
  obtain ⟨⟨n, e⟩, hentry, rfl⟩ := mem_map.mp hd
  exact hw.depth n e (AList.mem_lookup_iff.mpr hentry)

end

def importRef : SourceRef := sampleRef 1 0 1 4

def jsonModule : NodeId := ⟨.stdlib, .moduleNode, "json".toList, "json".toList, "stdlib:json".toList, by decide +kernel⟩

def jsonDumps : NodeId :=
  ⟨.stdlib, .function, "json".toList, "json.dumps".toList, "stdlib:json.dumps".toList, by decide +kernel⟩

theorem module_named : "m".toList ≠ [] := by decide +kernel

def moduleM : NodeId := sampleId .moduleNode "m" "m.py:module" module_named

def importEdge : Edge :=
  ⟨.imports, moduleM, jsonModule, ⟨importRef, none, "Import".toList, "import_statement_v1".toList, false⟩⟩

def dumpsEdge : Edge :=
  ⟨.calls, firstF, jsonDumps, ⟨sampleRef 3 8 3 11, some importRef, "Call".toList, "import_binding_v1".toList, false⟩⟩

def importingGraph : Graph where
  nodes := [sampleNode firstF (sampleRef 2 0 4 12), sampleNode moduleM (sampleRef 1 0 9 0),
    ⟨jsonDumps, none, "ast".toList⟩, ⟨jsonModule, none, "ast".toList⟩]
  edges := [dumpsEdge, importEdge]
  unresolved := []
  coverage := sampleCoverage
  nodes_sorted := by decide +kernel
  ids_nodup := by decide +kernel
  edges_sorted := by decide +kernel
  unresolved_sorted := definedTwice.unresolved_sorted
  edge_endpoints := by decide +kernel
  unresolved_source := by decide +kernel

def zeroDigest : Text := "sha256:".toList ++ List.replicate 64 '0'

/-- Both the imported module and the called function are pure interfaces of the standard library. -/
def importingPolicy : ResolutionPolicy where
  authority := "a".toList
  policyId := "p".toList
  policyDigest := zeroDigest
  stdlibIdentity := ⟨"cpython".toList, ">=3.11".toList, "v1".toList, zeroDigest,
    [⟨"json".toList, "json".toList⟩, ⟨"json".toList, "json.dumps".toList⟩]⟩
  adapterCatalog := ⟨"c".toList, "v1".toList, zeroDigest, []⟩
  rules := []
  rules_sorted := samplePolicy.rules_sorted
  sources_nodup := List.nodup_nil

def importingInputs (budget : Budget) : Inputs :=
  { sampleInputs firstF importingGraph with budget := budget, policy := importingPolicy }

end Leitir.Bts
