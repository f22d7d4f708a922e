import Leitir.BtsInvariant

namespace Leitir.Bts

open KeyedList

section

def Covered (graph : Graph) (report : Report) (target : NodeId) : Prop :=
  ∃ member ∈ report.members, member.node = target ∨
    ∃ outer ∈ graph.nodes, ∃ inner ∈ graph.nodes, outer.id = member.node ∧ inner.id = target ∧ Inside inner outer

/-- The report accounts for all that a node needs at run time. -/
structure DependenciesMet (graph : Graph) (report : Report) (owner : NodeId) : Prop where
  traversed : ∀ edge ∈ graph.edges, edge.kind ∈ runtimeKinds → edge.source = owner →
    ∃ t ∈ report.traversedEdges, t.edge = edge ∧ t.disposition ≠ .reject
  included : ∀ edge ∈ graph.edges, edge.kind ∈ runtimeKinds → edge.source = owner →
    ∀ t ∈ report.traversedEdges, t.edge = edge → t.disposition = .includeSource → Covered graph report edge.target
  resolved : ∀ edge ∈ graph.unresolved, edge.source = owner → edge.kind ∉ runtimeKinds ∧ edge.kind ≠ .imports

/-- The set is closed: members, and all nodes inside their definitions, have their dependencies met. -/
def Closed (graph : Graph) (report : Report) : Prop :=
  ∀ member ∈ report.members, ∀ outer ∈ graph.nodes, outer.id = member.node →
    ∀ inner ∈ graph.nodes, inner = outer ∨ Inside inner outer → DependenciesMet graph report inner.id

def HasDependency (graph : Graph) (owner : NodeId) : Prop :=
  (∃ edge ∈ graph.edges, edge.kind ∈ runtimeKinds ∧ edge.source = owner) ∨
    ∃ edge ∈ graph.unresolved, (edge.kind ∈ runtimeKinds ∨ edge.kind = .imports) ∧ edge.source = owner

/-- Every node with dependencies inside a reached one is in the lexical index of that one, which
must then be a definition and the last node of its name, or it is reached in some other way. -/
def IndexFinds (inp : Inputs) : Prop :=
  ∀ outer ∈ inp.graph.nodes, ∀ inner ∈ inp.graph.nodes, Reached inp outer.id → Inside inner outer →
    HasDependency inp.graph inner.id → Carries inp.graph outer inner ∨ Reached inp inner.id

variable {inp : Inputs} {w : Walk}

theorem mem_unresolvedBySource {graph : Graph} {owner : NodeId} {edge : UnresolvedEdge} :
    edge ∈ unresolvedBySource graph owner ↔
      edge ∈ graph.unresolved ∧ (edge.kind ∈ runtimeKinds ∨ edge.kind = .imports) ∧ edge.source = owner := by
  simp [unresolvedBySource]

theorem mem_outgoing {graph : Graph} {owner : NodeId} {edge : Edge} :
    edge ∈ outgoing graph owner ↔ edge ∈ graph.edges ∧ edge.kind ∈ runtimeKinds ∧ edge.source = owner := by
  simp [outgoing]

theorem Holds.visited_of_reached (hw : Holds inp w) (hq : w.queue = []) {n : NodeId} (h : Reached inp n) :
    n ∈ w.visited := by
  have hseen : ∀ {k : NodeId}, w.Seen k → k ∈ w.visited := by
    rintro k (hk | ⟨item, hitem, -⟩)
    · exact hk
    · rw [hq] at hitem
      cases hitem
  induction h with
  | seed => exact hseen hw.seed
  | carried _ hcarries ih =>
    obtain ⟨member, hmember, heq | hcarried⟩ := hw.covered _ ih
    · exact (hw.carried member hmember).2 _ (heq ▸ hcarries)
    · exact (hw.carried member hmember).2 _ (hcarried.trans hcarries)
  | target _ hedge hincl ih => exact hseen ((hw.followed _ ih _ hedge).2.2 hincl)

section

variable {counters : BudgetCounters} {inputs : AnalysisInputs} {status : Status}

theorem mem_report_members {member : MemberEvidence} :
    member ∈ (reportOf inp status inputs w.drain counters).members ↔ member ∈ w.members :=
  mem_sortBy

theorem mem_of_mem_report_traversed {t : EdgeEvidence}
    (h : t ∈ (reportOf inp status inputs w.drain counters).traversedEdges) : t ∈ w.traversed :=
  mem_of_mem_uniqueLast (mem_sortBy.mp h)

theorem exists_report_traversed {t : EdgeEvidence} (h : t ∈ w.traversed) :
    ∃ t' ∈ (reportOf inp status inputs w.drain counters).traversedEdges, t'.edge = t.edge := by
  obtain ⟨t', ht', hkey⟩ : ∃ t' ∈ uniqueLast traversedKey w.traversed, traversedKey t' = traversedKey t :=
    exists_mem_uniqueLast h
  exact ⟨t', mem_sortBy.mpr ht', edgeKey_injective (List.cons.inj hkey).2⟩

variable {n : NodeId}

/-- Visited nodes have their dependencies met in the report of an ended walk. -/
theorem Holds.dependenciesMet (hw : Holds inp w) (hq : w.queue = []) (hn : n ∈ w.visited) :
    DependenciesMet inp.graph (reportOf inp status inputs w.drain counters) n := by
  refine ⟨?_, ?_, ?_⟩
  · intro edge hedge hkind hsource
    obtain ⟨⟨t, ht, hte⟩, hreject, -⟩ := hw.followed n hn edge (mem_outgoing.mpr ⟨hedge, hkind, hsource⟩)
    obtain ⟨t', ht', heq⟩ := exists_report_traversed ht
    refine ⟨t', ht', heq.trans hte, ?_⟩
    rwa [hw.classified t' (mem_of_mem_report_traversed ht'), heq, hte]
  · intro edge hedge hkind hsource t ht hte hdisp
    obtain ⟨-, -, hincl⟩ := hw.followed n hn edge (mem_outgoing.mpr ⟨hedge, hkind, hsource⟩)
    rw [hw.classified t (mem_of_mem_report_traversed ht), hte] at hdisp
    have htarget : edge.target ∈ w.visited := by
      rcases hincl (classify_include_iff.mp hdisp) with h | ⟨item, hitem, -⟩
      · exact h
      · rw [hq] at hitem
        cases hitem
    obtain ⟨member, hmember, heq | ⟨outer, houter, inner, hinner, ho, hi, hcarries⟩⟩ := hw.covered _ htarget
    · exact ⟨member, mem_report_members.mpr hmember, Or.inl heq⟩
    · exact ⟨member, mem_report_members.mpr hmember,
        Or.inr ⟨outer, houter, inner, hinner, ho, hi, hcarries.inside⟩⟩
  · intro edge hedge hsource
    have hnone := hw.resolved n hn
    constructor
    · intro hkind
      have : edge ∈ unresolvedBySource inp.graph n := mem_unresolvedBySource.mpr ⟨hedge, Or.inl hkind, hsource⟩
      rw [hnone] at this
      cases this
    · intro hkind
      have : edge ∈ unresolvedBySource inp.graph n := mem_unresolvedBySource.mpr ⟨hedge, Or.inr hkind, hsource⟩
      rw [hnone] at this
      cases this

theorem Holds.visited_of_met (hw : Holds inp w) (hdep : HasDependency inp.graph n)
    (hmet : DependenciesMet inp.graph (reportOf inp status inputs w.drain counters) n) : n ∈ w.visited := by
  rcases hdep with ⟨edge, hedge, hkind, hsource⟩ | ⟨edge, hedge, hkind, hsource⟩
  · obtain ⟨t, ht, hte, -⟩ := hmet.traversed edge hedge hkind hsource
    have := hw.runtime t (mem_of_mem_report_traversed ht) (by rwa [hte])
    rwa [hte, hsource] at this
  · obtain ⟨hruntime, himports⟩ := hmet.resolved edge hedge hsource
    rcases hkind with hkind | hkind
    · exact absurd hkind hruntime
    · exact absurd hkind himports

theorem dependenciesMet_of_not {graph : Graph} {report : Report} (h : ¬ HasDependency graph n) :
    DependenciesMet graph report n := by
  refine ⟨?_, ?_, ?_⟩
  · intro edge hedge hkind hsource
    exact absurd (Or.inl ⟨edge, hedge, hkind, hsource⟩) h
  · intro edge hedge hkind hsource
    exact absurd (Or.inl ⟨edge, hedge, hkind, hsource⟩) h
  · intro edge hedge hsource
    exact ⟨fun hkind => h (Or.inr ⟨edge, hedge, Or.inl hkind, hsource⟩),
      fun hkind => h (Or.inr ⟨edge, hedge, Or.inr hkind, hsource⟩)⟩

end

end

section

variable {inp : Inputs}

def sampleData : Bytes := literal
  "def f():\n    def g():\n        h()\n    return 1\ndef f():\n    return 2\ndef h():\n    return 3\n"

def sampleBlob : Text := "7f4490b9dc4b2117c6888486f8e0a1fc9101dd89".toList

def sampleCommit : Text := "0123456789abcdef0123456789abcdef01234567".toList

def sampleRef (startLine startCol endLine endCol : Nat)
    (h : decide (1 ≤ startLine ∧ positionLe startLine startCol endLine endCol) = true := by exact Eq.refl true) : SourceRef :=
  ⟨"o/r".toList, sampleCommit, "m.py".toList, sampleBlob, startLine, startCol, endLine, endCol, (of_decide_eq_true h).1,
    (of_decide_eq_true h).2⟩

def sampleId (kind : NodeKind) (name location : String) (h : name.toList ≠ [] := by decide +kernel) : NodeId :=
  ⟨.donor, kind, "m".toList, name.toList, location.toList, h⟩

def firstF : NodeId := sampleId .function "m.f" "m.py:1:m.f"
def secondF : NodeId := sampleId .function "m.f" "m.py:5:m.f"
def nestedG : NodeId := sampleId .function "m.f.g" "m.py:2:m.f.g"
def calledH : NodeId := sampleId .function "m.h" "m.py:7:m.h"

def callEdge : Edge :=
  ⟨.calls, nestedG, calledH, ⟨sampleRef 3 8 3 11, some (sampleRef 7 0 8 12), "Call".toList, "lexical_definition_v1".toList, false⟩⟩

def sampleCoverage : GraphCoverage where
  files := [sampleRef 1 0 9 0]
  parsedFiles := [sampleRef 1 0 9 0]
  files_sorted := by decide +kernel
  parsedFiles_sorted := by decide +kernel

def sampleNode (id : NodeId) (ref : SourceRef) : Node := ⟨id, some ref, "ast".toList⟩

def definedTwice : Graph where
  nodes := [sampleNode firstF (sampleRef 1 0 4 12), sampleNode secondF (sampleRef 5 0 6 12),
    sampleNode nestedG (sampleRef 2 4 3 11), sampleNode calledH (sampleRef 7 0 8 12),
    sampleNode (sampleId .moduleNode "m" "m.py:module") (sampleRef 1 0 9 0)]
  edges := [callEdge]
  unresolved := []
  coverage := sampleCoverage
  nodes_sorted := by decide +kernel
  ids_nodup := by decide +kernel
  edges_sorted := by decide +kernel
  unresolved_sorted := by decide +kernel
  edge_endpoints := by decide +kernel
  unresolved_source := by decide +kernel

def sampleBudget : Budget := ⟨1000, 1000, 1000, 100, 100, 100, 100, 100, 100, 100, 1000, 100, 100, 10000, by decide, by decide⟩

def samplePolicy : ResolutionPolicy where
  authority := "a".toList
  policyId := "p".toList
  policyDigest := []
  stdlibIdentity := ⟨"cpython".toList, [], [], [], []⟩
  adapterCatalog := ⟨[], [], [], []⟩
  rules := []
  rules_sorted := by decide
  sources_nodup := by decide

def sampleDigests : Digests where
  sha1 := fun _ => sampleBlob
  sha256 := fun _ => []
  graph := fun _ => []
  policy := fun _ => []
  report := fun _ => []
  equivalence := fun _ => []
  primary := fun _ _ => []

def definedOnce : Graph where
  nodes := [sampleNode firstF (sampleRef 1 0 4 12), sampleNode nestedG (sampleRef 2 4 3 11),
    sampleNode calledH (sampleRef 7 0 8 12)]
  edges := [callEdge]
  unresolved := []
  coverage := sampleCoverage
  nodes_sorted := by decide +kernel
  ids_nodup := by decide +kernel
  edges_sorted := by decide +kernel
  unresolved_sorted := by decide +kernel
  edge_endpoints := by decide +kernel
  unresolved_source := by decide +kernel

def sampleInputs (seed : NodeId) (graph : Graph) : Inputs where
  snapshot := ⟨"o/r".toList, sampleCommit, [], [], fun path => if path = "m.py".toList then some sampleData else none⟩
  seed := seed
  graph := graph
  budget := sampleBudget
  policy := samplePolicy
  digests := sampleDigests

/-- A complete set is closed exactly when the lexical index finds every node with dependencies that lies
inside what the seed reaches. -/
theorem complete_closed_iff (h : (computeBts inp).status = .complete) :
    Closed inp.graph (computeBts inp).report ↔ IndexFinds inp := by
  obtain ⟨w, hw, hq, counters, hreport⟩ := computeBts_complete h
  rw [hreport]
  constructor
  · intro hclosed outer houter inner hinner hreached hinside hdep
    right
    have hvisited := hw.visited_of_reached hq hreached
    obtain ⟨member, hmember, heq | ⟨m, hm, n, hn, hmid, hnid, hcarries⟩⟩ := hw.covered _ hvisited
    · have hmet := hclosed member (mem_report_members.mpr hmember) outer houter heq.symm inner hinner
        (Or.inr hinside)
      exact hw.reached _ (hw.visited_of_met hdep hmet)
    · cases Graph.node_unique hn houter hnid
      have hmet := hclosed member (mem_report_members.mpr hmember) m hm hmid inner hinner
        (Or.inr (hinside.trans hcarries.inside))
      exact hw.reached _ (hw.visited_of_met hdep hmet)
  · intro hindex member hmember outer houter hid inner hinner hinside
    have hvisited : outer.id ∈ w.visited := by
      rw [hid]
      exact (hw.carried member (mem_report_members.mp hmember)).1
    rcases hinside with rfl | hinside
    · exact hw.dependenciesMet hq hvisited
    · by_cases hdep : HasDependency inp.graph inner.id
      · have hreached := hw.reached _ hvisited
        refine hw.dependenciesMet hq (hw.visited_of_reached hq ?_)
        rcases hindex outer houter inner hinner hreached hinside hdep with hcarries | hinner'
        · exact hreached.carried ⟨outer, houter, inner, hinner, rfl, rfl, hcarries⟩
        · exact hinner'
      · exact dependenciesMet_of_not hdep

theorem complete_closed_iff_sample :
    (computeBts (sampleInputs firstF definedOnce)).status = .complete ∧
      (Closed definedOnce (computeBts (sampleInputs firstF definedOnce)).report ↔
        IndexFinds (sampleInputs firstF definedOnce)) := by
  have hcomplete : (computeBts (sampleInputs firstF definedOnce)).status = .complete := by decide +kernel
  exact ⟨hcomplete, complete_closed_iff hcomplete⟩

/-- The call inside the first function is lost when that function is transplanted. -/
theorem redefined_function_not_closed :
    (computeBts (sampleInputs firstF definedTwice)).status = .complete ∧
      ¬ Closed definedTwice (computeBts (sampleInputs firstF definedTwice)).report := by
  refine ⟨by decide +kernel, ?_⟩
  intro hclosed
  have hmember : ∃ member ∈ (computeBts (sampleInputs firstF definedTwice)).report.members,
      firstF = member.node := by decide +kernel
  have hnone : (computeBts (sampleInputs firstF definedTwice)).report.traversedEdges = [] := by decide +kernel
  obtain ⟨member, hmem, hnode⟩ := hmember
  have hinside : Inside (sampleNode nestedG (sampleRef 2 4 3 11)) (sampleNode firstF (sampleRef 1 0 4 12)) :=
    ⟨by decide +kernel, _, rfl, _, rfl, by decide +kernel⟩
  have hmet := hclosed member hmem (sampleNode firstF (sampleRef 1 0 4 12)) (by decide +kernel) hnode
    (sampleNode nestedG (sampleRef 2 4 3 11)) (by decide +kernel) (Or.inr hinside)
  obtain ⟨t, ht, -⟩ := hmet.traversed callEdge (by decide +kernel) (by decide +kernel) rfl
  rw [hnone] at ht
  cases ht

end

end Leitir.Bts
