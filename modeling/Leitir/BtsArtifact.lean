import Leitir.BtsReport
import Leitir.BtsOrder

namespace Leitir.Bts

open KeyedList List

/-- The transplant set that a complete report stands for. -/
def artifactOf (digests : Digests) (report : Report) : TransplantSet :=
  let equivalent : TransplantSet := {
    schemaVersion := btsSchemaVersion
    seed := report.inputs.seed
    members := report.members
    dispositions := report.dispositions
    requiredFiles := requiredFiles report.members
    requiredSymbols := requiredSymbols report.members
    btsDigest := []
    memberEquivalenceDigest := [] }
  { equivalent with btsDigest := digests.primary report equivalent
                    memberEquivalenceDigest := digests.equivalence equivalent }

@[simp] theorem artifactOf_dispositions (digests : Digests) (report : Report) :
    (artifactOf digests report).dispositions = report.dispositions := rfl

def loadBtsArtifact (digests : Digests) (data : Bytes) : Option TransplantSet := do
  let report ← fromJson digests data
  if report.schemaVersion ≠ btsSchemaVersion ∨ report.status ≠ .complete then none
  else some (artifactOf digests report)

theorem loadBtsArtifact_eq_some {digests : Digests} {data : Bytes} {set : TransplantSet} :
    loadBtsArtifact digests data = some set ↔ ∃ report, fromJson digests data = some report ∧
      report.schemaVersion = btsSchemaVersion ∧ report.status = .complete ∧ artifactOf digests report = set := by
  unfold loadBtsArtifact
  rw [Option.bind_eq_bind, Option.bind_eq_some_iff]
  refine exists_congr fun report => and_congr_right fun _ => ?_
  by_cases hschema : report.schemaVersion = btsSchemaVersion
  · by_cases hstatus : report.status = .complete
    · simp [hschema, hstatus]
    · simp [hstatus]
  · simp [hschema]

variable {inp : Inputs} {w : Walk} {edge : Edge} {edges : List Edge}

theorem requiredFileKey_injective : Function.Injective requiredFileKey := by
  intro a b h
  cases a
  cases b
  simp only [requiredFileKey, List.cons.injEq, Text.code_injective.eq_iff, and_true] at h
  simp only [RequiredFileEvidence.mk.injEq]
  exact h

theorem requiredFiles_congr {xs ys : List MemberEvidence} (h : xs.Perm ys) : requiredFiles xs = requiredFiles ys :=
  sortBy_congr (h.map _).dedup fun _ _ _ _ hkey => requiredFileKey_injective hkey

theorem requiredSymbols_congr {xs ys : List MemberEvidence} (h : xs.Perm ys)
    (hnodup : (xs.map MemberEvidence.node).Nodup) : requiredSymbols xs = requiredSymbols ys := by
  refine sortBy_congr (h.map _) ?_
  intro a ha b hb hkey
  obtain ⟨m, hm, rfl⟩ := mem_map.mp ha
  obtain ⟨m', hm', rfl⟩ := mem_map.mp hb
  rw [inj_on_of_nodup_map hnodup hm hm' (nodeIdKey_injective hkey)]

theorem dispositionKey_evidenceOf {a b : Edge} (h : dispositionKey (evidenceOf inp a) = dispositionKey (evidenceOf inp b)) :
    a = b := by
  have ha : (evidenceOf inp a).edge = some a := classify_edge
  have hb : (evidenceOf inp b).edge = some b := classify_edge
  simp only [dispositionKey, ha, hb, incomingKey, cons_append, append_assoc, List.cons.injEq,
    true_and] at h
  exact (edgeKey_append_inj h).1

theorem nodup_keys_iff :
    ((edges.flatMap (edgeEvidence inp)).map dispositionKey).Nodup ↔
      (edges.flatMap fun edge => edge :: supports inp edge).Nodup := by
  have hmap : (edges.flatMap (edgeEvidence inp)).map dispositionKey =
      (edges.flatMap fun edge => edge :: supports inp edge).map fun edge => dispositionKey (evidenceOf inp edge) := by
    simp only [edgeEvidence, map_flatMap, map_map, Function.comp_def]
  rw [hmap]
  exact nodup_map_iff fun a b h => dispositionKey_evidenceOf h

theorem supports_nodup : (supports inp edge).Nodup := by
  unfold supports
  split
  next => exact nodup_nil
  next => exact ((edges_nodup inp.graph).filter _).filter _

/-- Runtime edges, each given once, and their imports are all different exactly when no two edges share an import. -/
theorem nodup_supported_iff (hnodup : edges.Nodup) (hkind : ∀ edge ∈ edges, edge.kind ∈ runtimeKinds) :
    (edges.flatMap fun edge => edge :: supports inp edge).Nodup ↔
      ∀ a ∈ edges, ∀ b ∈ edges, a ≠ b → List.Disjoint (supports inp a) (supports inp b) := by
  have hnot : ∀ a ∈ edges, ∀ b, a ∉ supports inp b := by
    intro a ha b hmem
    have hruntime := hkind a ha
    rw [kind_of_supports hmem] at hruntime
    revert hruntime
    decide
  have hdisjoint : ∀ a ∈ edges, ∀ b ∈ edges, a ≠ b → (List.Disjoint (a :: supports inp a) (b :: supports inp b) ↔
      List.Disjoint (supports inp a) (supports inp b)) := by
    intro a ha b hb hne
    rw [disjoint_cons_left, disjoint_cons_right]
    simp only [mem_cons, hne, hnot a ha b, hnot b hb a, or_self, not_false_eq_true, true_and]
  have : Std.Symm fun a b : Edge => List.Disjoint (a :: supports inp a) (b :: supports inp b) :=
    ⟨fun _ _ h => h.symm⟩
  rw [nodup_flatMap]
  constructor
  · intro h a ha b hb hne
    exact (hdisjoint a ha b hb hne).mp (h.2.forall ha hb hne)
  · intro h
    refine ⟨?_, ?_⟩
    · intro a ha
      exact nodup_cons.mpr ⟨hnot a ha a, supports_nodup⟩
    · refine hnodup.pairwise_of_forall_ne ?_
      intro a ha b hb hne
      exact (hdisjoint a ha b hb hne).mpr (h a ha b hb hne)

section

variable (inp)

def ReachedEdge (edge : Edge) : Prop :=
  edge ∈ inp.graph.edges ∧ edge.kind ∈ runtimeKinds ∧ Reached inp edge.source

/-- The payloads behind the reached edges and behind the imports that support them all come back from a report. -/
def PayloadsRecoverable : Prop :=
  ∀ edge, ReachedEdge inp edge → ∀ other ∈ edge :: supports inp edge, (evidenceOf inp other).Recoverable

def ImportsUnshared : Prop :=
  ∀ a b, ReachedEdge inp a → ReachedEdge inp b → a ≠ b → List.Disjoint (supports inp a) (supports inp b)

variable {inp}

/-- A complete result: its report and its set come from one walk whose dispositions are traced. -/
theorem computeBts_traced (h : (computeBts inp).status = .complete) :
    ∃ w edges counters, Traced inp w edges ∧ (∀ edge, edge ∈ edges ↔ ReachedEdge inp edge) ∧
      (computeBts inp).report = reportOf inp .complete (analysisInputs inp) w counters ∧
      (computeBts inp).bts = some (transplantSet inp (computeBts inp).report w) := by
  obtain ⟨hseed, hlive, hq, -⟩ := computeBts_counters h
  obtain ⟨-, edges, htraced⟩ := walkLoop_traced hseed _ hlive
  have hholds := walkLoop_holds hseed initial_holds hlive
  refine ⟨(lastWalk inp).drain, edges, countersOf inp (finalWalk inp), ?_, ?_, ?_⟩
  · exact ⟨htraced.dispositions, htraced.nodup, htraced.mem_iff, htraced.members⟩
  · intro edge
    rw [htraced.mem_iff]
    unfold ReachedEdge
    have hvisited : edge.source ∈ (walkLoop inp (inp.budget.maxWorkUnits + 1) (initialWalk inp)).visited ↔
        Reached inp edge.source := ⟨hholds.reached _, hholds.visited_of_reached hq⟩
    rw [hvisited]
  · unfold computeBts at h ⊢
    rw [if_neg (not_not.mpr hseed)] at h ⊢
    dsimp only at h ⊢
    split at h
    next hc =>
      have hwalk : (conclude inp (finalWalk inp)).2 = (lastWalk inp).drain := (conclude_complete hc).2
      rw [if_pos hc, hwalk, hc]
      exact ⟨rfl, rfl⟩
    next hc => exact absurd h hc

theorem Traced.recoverable_iff (htraced : Traced inp w edges) (hedges : ∀ edge, edge ∈ edges ↔ ReachedEdge inp edge) :
    (∀ item ∈ w.dispositions, item.Recoverable) ↔ PayloadsRecoverable inp := by
  rw [htraced.dispositions]
  constructor
  · intro h edge hedge other hother
    exact h _ (mem_flatMap.mpr ⟨edge, (hedges edge).mpr hedge, mem_map.mpr ⟨other, hother, rfl⟩⟩)
  · intro h item hitem
    obtain ⟨edge, hedge, hitem⟩ := mem_flatMap.mp hitem
    obtain ⟨other, hother, rfl⟩ := mem_map.mp hitem
    exact h edge ((hedges edge).mp hedge) other hother

theorem Traced.nodup_iff (htraced : Traced inp w edges) (hedges : ∀ edge, edge ∈ edges ↔ ReachedEdge inp edge) :
    (w.dispositions.map dispositionKey).Nodup ↔ ImportsUnshared inp := by
  rw [htraced.dispositions, nodup_keys_iff,
    nodup_supported_iff htraced.nodup fun edge hedge => ((hedges edge).mp hedge).2.1]
  constructor
  · intro h a b ha hb
    exact h a ((hedges a).mpr ha) b ((hedges b).mpr hb)
  · intro h a ha b hb
    exact h a b ((hedges a).mp ha) ((hedges b).mp hb)

theorem artifactOf_reportOf {counters : BudgetCounters} (htraced : Traced inp w edges)
    (hnodup : (w.dispositions.map dispositionKey).Nodup) :
    artifactOf inp.digests (reportOf inp .complete (analysisInputs inp) w counters) =
      transplantSet inp (reportOf inp .complete (analysisInputs inp) w counters) w := by
  have hdispositions : sortBy dispositionKey (uniqueLast dispositionKey w.dispositions) =
      sortBy dispositionKey w.dispositions := by rw [uniqueLast_of_nodup hnodup]
  have hperm : (sortBy memberKey w.members).Perm w.members := perm_sortBy _ _
  have hfiles : requiredFiles (sortBy memberKey w.members) = requiredFiles w.members := requiredFiles_congr hperm
  have hsymbols : requiredSymbols (sortBy memberKey w.members) = requiredSymbols w.members :=
    requiredSymbols_congr hperm ((hperm.map _).nodup_iff.mpr htraced.members)
  unfold artifactOf transplantSet
  simp only [reportOf, hdispositions, hfiles, hsymbols, analysisInputs]

end

/-- The artifact that is loaded from a complete report is the set of the result exactly when no import supports two
reached edges and all payloads come back. -/
theorem load_complete_iff (hinp : inp.Built) (h : (computeBts inp).status = .complete) :
    loadBtsArtifact inp.digests (toBytes (computeBts inp).report) = (computeBts inp).bts ↔
      ImportsUnshared inp ∧ PayloadsRecoverable inp := by
  obtain ⟨w, edges, counters, htraced, hedges, hreport, hbts⟩ := computeBts_traced h
  have hround := fromJson_toBytes_iff (computeBts_report_built hinp) (computeBts_report_digest hinp)
  rw [← htraced.nodup_iff hedges, ← htraced.recoverable_iff hedges, hbts]
  rw [hreport] at hround ⊢
  constructor
  · intro hload
    obtain ⟨report, hread, -, -, hload⟩ := loadBtsArtifact_eq_some.mp hload
    have hset : report.dispositions = sortBy dispositionKey w.dispositions :=
      congrArg TransplantSet.dispositions hload
    have hrecover : ∀ item ∈ w.dispositions, item.Recoverable := by
      intro item hitem
      refine fromJson_recoverable hread item ?_
      rw [hset]
      exact mem_sortBy.mpr hitem
    have hsame := hround.mpr fun item hitem => hrecover item (mem_of_mem_uniqueLast (mem_sortBy.mp hitem))
    rw [hsame] at hread
    refine ⟨length_uniqueLast_eq_iff.mp ?_, hrecover⟩
    rw [← Option.some.inj hread] at hset
    have hlength : (sortBy dispositionKey (uniqueLast dispositionKey w.dispositions)).length =
        (sortBy dispositionKey w.dispositions).length := congrArg List.length hset
    rwa [(perm_sortBy _ _).length_eq, (perm_sortBy _ _).length_eq] at hlength
  · intro hcond
    have hread := hround.mpr fun item hitem => hcond.2 item (mem_of_mem_uniqueLast (mem_sortBy.mp hitem))
    exact loadBtsArtifact_eq_some.mpr ⟨_, hread, rfl, rfl, artifactOf_reportOf htraced hcond.1⟩

theorem importingInputs_built : (importingInputs sampleBudget).Built where
  seed := (by decide +kernel : firstF.Checked)
  ids := (by decide +kernel : ∀ node ∈ importingGraph.nodes, node.id.Checked)
  sources := (by decide +kernel : ∀ node ∈ importingGraph.nodes, ∀ source ∈ node.source, source.Checked)
  edges := (by decide +kernel : ∀ edge ∈ importingGraph.edges, edge.Built)
  unresolved := (by decide +kernel : ∀ edge ∈ importingGraph.unresolved, edge.Built)
  payloads := (by decide +kernel : ∀ rule ∈ importingPolicy.rules, rule.payload.Built)

theorem load_complete_iff_sample :
    (importingInputs sampleBudget).Built ∧ (computeBts (importingInputs sampleBudget)).status = .complete ∧
      (loadBtsArtifact sampleDigests (toBytes (computeBts (importingInputs sampleBudget)).report) =
          (computeBts (importingInputs sampleBudget)).bts ↔
        ImportsUnshared (importingInputs sampleBudget) ∧ PayloadsRecoverable (importingInputs sampleBudget)) := by
  have hcomplete : (computeBts (importingInputs sampleBudget)).status = .complete := by decide +kernel
  exact ⟨importingInputs_built, hcomplete, load_complete_iff importingInputs_built hcomplete⟩

def dumpsAgain : Edge :=
  ⟨.calls, firstF, jsonDumps, ⟨sampleRef 3 0 3 4, some importRef, "Call".toList, "import_binding_v1".toList, false⟩⟩

def sharingGraph : Graph :=
  { importingGraph with
    edges := [dumpsAgain, dumpsEdge, importEdge]
    edges_sorted := by decide +kernel
    edge_endpoints := by decide +kernel }

def sharingInputs : Inputs := { sampleInputs firstF sharingGraph with policy := importingPolicy }

theorem sharingInputs_built : sharingInputs.Built :=
  { importingInputs_built with edges := (by decide +kernel : ∀ edge ∈ sharingGraph.edges, edge.Built) }

/-- Two calls through one import: the set lists the import twice, the artifact once. -/
theorem shared_import_lost :
    (computeBts sharingInputs).status = .complete ∧
      loadBtsArtifact sampleDigests (toBytes (computeBts sharingInputs).report) ≠ (computeBts sharingInputs).bts := by
  refine ⟨by decide +kernel, ?_⟩
  intro hload
  have hrecover : ∀ item ∈ (computeBts sharingInputs).report.dispositions, item.Recoverable := by decide +kernel
  have hread : fromJson sampleDigests (toBytes (computeBts sharingInputs).report) = some (computeBts sharingInputs).report :=
    (fromJson_toBytes_iff (computeBts_report_built sharingInputs_built)
      (computeBts_report_digest sharingInputs_built)).mpr hrecover
  have hschema : (computeBts sharingInputs).report.schemaVersion = btsSchemaVersion := by decide +kernel
  have hstatus : (computeBts sharingInputs).report.status = .complete := by decide +kernel
  have hset := loadBtsArtifact_eq_some.mpr ⟨_, hread, hschema, hstatus, rfl⟩
  rw [hload] at hset
  have hfour : ∀ set ∈ (computeBts sharingInputs).bts, set.dispositions.length = 4 := by decide +kernel
  have hthree : (computeBts sharingInputs).report.dispositions.length = 3 := by decide +kernel
  have hlength := hfour _ hset
  rw [artifactOf_dispositions, hthree] at hlength
  cases hlength

end Leitir.Bts
