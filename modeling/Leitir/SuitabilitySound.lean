import Leitir.SuitabilityGates

namespace Leitir.Suitability

open ExceptRun List KeyedList

section

theorem dot_not_mem_value (kind : GateKind) : '.' ∉ kind.value := by
  cases kind <;> decide

theorem afterDot_value (kind : GateKind) (suffix : Text) : afterDot (kind.value ++ '.' :: suffix) = suffix := by
  have hall : ∀ ch ∈ kind.value, decide (ch ≠ '.') = true := by
    intro ch hch
    refine decide_eq_true ?_
    rintro rfl
    exact dot_not_mem_value kind hch
  unfold afterDot
  rw [dropWhile_append_of_pos hall]
  simp

variable {before after : Text}

theorem splitLastAt_join (h : '@' ∉ after) : splitLastAt (before ++ '@' :: after) = (before, after) := by
  have hall : ∀ ch ∈ after.reverse, decide (ch ≠ '@') = true := by
    intro ch hch
    refine decide_eq_true ?_
    rintro rfl
    exact h (mem_reverse.mp hch)
  have hreverse : (before ++ '@' :: after).reverse = after.reverse ++ '@' :: before.reverse := by simp
  unfold splitLastAt
  rw [hreverse, dropWhile_append_of_pos hall, takeWhile_append_of_pos hall]
  simp

theorem behavior_of_gateId (kind : GateKind) {item : BehaviorRequirement} (h : isName item.contractVersion = true) :
    splitLastAt (afterDot (gateIdOf kind (behaviorSuffix item))) = (item.behaviorId, item.contractVersion) := by
  have hne : behaviorSuffix item ≠ [] := by simp [behaviorSuffix]
  unfold gateIdOf
  rw [if_neg hne, afterDot_value]
  exact splitLastAt_join (at_not_mem_name h)

theorem name_ne_nil {text : Text} (h : isName text = true) : text ≠ [] := by
  rintro rfl
  cases h

theorem afterDot_gateId (kind : GateKind) {suffix : Text} (h : suffix ≠ []) : afterDot (gateIdOf kind suffix) = suffix := by
  unfold gateIdOf
  rw [if_neg h, afterDot_value]

theorem suffix_behind {ending : Text} {ch : Char} (h : ch ∉ ending) :
    ending <:+ before ++ ch :: after ↔ ending <:+ after := by
  constructor
  · intro hending
    rcases suffix_or_suffix_of_suffix hending (suffix_append before (ch :: after)) with hshort | hlong
    · rcases suffix_cons_iff.mp hshort with heq | hshort
      · rw [heq] at h
        exact absurd mem_cons_self h
      · exact hshort
    · exact absurd (hlong.subset mem_cons_self) h
  · intro hending
    exact hending.trans ((suffix_cons ch after).trans (suffix_append before _))

theorem noneSuffix_behind : noneSuffix <:+ before ++ '.' :: after ↔ noneSuffix <:+ '.' :: after := by
  constructor
  · intro hending
    rcases suffix_or_suffix_of_suffix hending (suffix_append before ('.' :: after)) with hshort | hlong
    · exact hshort
    · obtain ⟨lead, hlead⟩ := hlong
      cases lead with
      | nil =>
        rw [← hlead]
        exact suffix_refl _
      | cons first lead =>
        obtain ⟨-, htail⟩ := List.cons.inj (show first :: (lead ++ '.' :: after) = '.' :: "none".toList from hlead)
        have hdot : '.' ∈ "none".toList := by
          rw [← htail]
          exact mem_append_right _ mem_cons_self
        exact absurd hdot (by decide)
  · intro hending
    exact hending.trans (suffix_append before _)

end

section

variable {digest : Text → Text} {candidate : CandidateProposal} {spec : SpecFields} {gate : ExpandedGate} {result : GateResult}

variable {status : GateStatus} {evidence items : List EvidencePointer} {gateId : Text}

theorem gateResult_ok (h : gateResult gate status evidence = .ok result) :
    result.gateId = gate.gateId ∧ result.gateKind = gate.template.kind ∧ result.mode = gate.mode ∧ result.status = status := by
  unfold gateResult at h
  split at h
  next => cases h
  next =>
    split at h
    next => cases h
    next =>
      cases h
      exact ⟨rfl, rfl, rfl, rfl⟩

theorem statusMarker_some {marker : List EvidencePointer}
    (h : statusMarker gateId items = .ok (some (status, marker))) : status ≠ .pass ∧ status ≠ .notApplicable := by
  unfold statusMarker at h
  split at h
  next => cases h
  next =>
    split at h
    next => cases h
    next =>
      split at h
      next => cases h
      next hallowed =>
        cases h
        push Not at hallowed
        exact ⟨hallowed.2.2.1, hallowed.2.2.2⟩
  next => cases h

def SkipsGate (gate : ExpandedGate) : Prop := noneSuffix <:+ gate.gateId ∧ gate.template.notApplicableWhenEmpty = true

theorem evaluateOne_ok (h : evaluateOne digest candidate spec gate = .ok result) :
    (result.gateId = gate.gateId ∧ result.gateKind = gate.template.kind ∧ result.mode = gate.mode) ∧
      ((∃ marker, statusMarker gate.gateId candidate.allEvidence = .ok (some (result.status, marker))) ∨
        statusMarker gate.gateId candidate.allEvidence = .ok none ∧
          (SkipsGate gate ∧ result.status = .notApplicable ∨
            ¬ SkipsGate gate ∧ ∃ evidence, assess digest gate.template.kind gate.gateId candidate spec =
              .ok (result.status, evidence))) := by
  unfold evaluateOne at h
  obtain ⟨marker, hmarker, h⟩ := bind_ok h
  cases marker with
  | some marker =>
    obtain ⟨status, evidence⟩ := marker
    obtain ⟨hid, hkind, hmode, hstatus⟩ := gateResult_ok h
    refine ⟨⟨hid, hkind, hmode⟩, Or.inl ⟨evidence, ?_⟩⟩
    rw [hmarker, hstatus]
  | none =>
    dsimp only at h
    split at h
    next hskips =>
      obtain ⟨hid, hkind, hmode, hstatus⟩ := gateResult_ok h
      exact ⟨⟨hid, hkind, hmode⟩, Or.inr ⟨hmarker, Or.inl ⟨hskips, hstatus⟩⟩⟩
    next hskips =>
      obtain ⟨⟨status, evidence⟩, hassess, h⟩ := bind_ok h
      obtain ⟨hid, hkind, hmode, hstatus⟩ := gateResult_ok h
      refine ⟨⟨hid, hkind, hmode⟩, Or.inr ⟨hmarker, Or.inr ⟨hskips, evidence, ?_⟩⟩⟩
      rw [hassess, hstatus]

theorem present_ne (evidence : List EvidencePointer) : (present evidence).1 ≠ .notApplicable := by
  unfold present
  dsimp only
  split
  next => decide
  next => decide

/-- Evidence never makes a gate not applicable. -/
theorem assess_ne {kind : GateKind}
    (h : assess digest kind gateId candidate spec = .ok (status, evidence)) : status ≠ .notApplicable := by
  unfold assess at h
  dsimp only at h
  split at h
  case h_1 =>
    cases h
    decide
  case h_2 =>
    obtain ⟨hstatus, -⟩ := Prod.mk.inj (Except.ok.inj h)
    rw [← hstatus]
    split
    next => decide
    next => decide
  case h_5 | h_6 =>
    unfold assessBehavior at h
    dsimp only at h
    split at h
    next => cases h
    next =>
      obtain ⟨hstatus, -⟩ := Prod.mk.inj (Except.ok.inj h)
      rw [← hstatus]
      split_ifs <;> decide
  case h_9 =>
    have hstatus : _ = status := congrArg Prod.fst (Except.ok.inj h)
    rw [← hstatus]
    unfold assessLicense
    dsimp only
    split
    next => decide
    next => split_ifs <;> decide
  case h_10 =>
    have hstatus : _ = status := congrArg Prod.fst (Except.ok.inj h)
    rw [← hstatus]
    unfold assessDependency
    dsimp only
    split_ifs <;> decide
  all_goals
    have hstatus : _ = status := congrArg Prod.fst (Except.ok.inj h)
    rw [← hstatus]
    exact present_ne _

theorem verdict_pass {results : List GateResult} (h : verdictOf results = .pass) :
    ∀ result ∈ results, result.mode = .required → result.status = .pass ∨ result.status = .notApplicable := by
  intro result hresult hmode
  unfold verdictOf at h
  dsimp only at h
  split at h
  next => cases h
  next hfail =>
    split at h
    next => cases h
    next hunresolved =>
      have hmem : result ∈ results.filter fun result => decide (result.mode = .required) :=
        mem_filter.mpr ⟨hresult, decide_eq_true hmode⟩
      have hown : ¬ result.status = .fail := fun heq =>
        hfail (any_eq_true.mpr ⟨result, hmem, decide_eq_true heq⟩)
      have hown' : ¬ result.status.unresolved = true := fun heq =>
        hunresolved (any_eq_true.mpr ⟨result, hmem, heq⟩)
      cases hstatus : result.status with
      | pass => exact Or.inl rfl
      | notApplicable => exact Or.inr rfl
      | fail => exact absurd hstatus hown
      | _ =>
        rw [hstatus] at hown'
        exact absurd rfl hown'

theorem required_gate (h : evaluateOne digest candidate spec gate = .ok result)
    (hpass : result.status = .pass ∨ result.status = .notApplicable) :
    SkipsGate gate ∧ result.status = .notApplicable ∨
      ¬ SkipsGate gate ∧ result.status = .pass ∧
        ∃ evidence, assess digest gate.template.kind gate.gateId candidate spec = .ok (.pass, evidence) := by
  obtain ⟨-, ⟨marker, hmarker⟩ | ⟨-, hskips | ⟨hskips, evidence, hassess⟩⟩⟩ := evaluateOne_ok h
  · obtain ⟨hne, hne'⟩ := statusMarker_some hmarker
    rcases hpass with hpass | hpass
    · exact absurd hpass hne
    · exact absurd hpass hne'
  · exact Or.inl hskips
  · have hstatus := hpass.resolve_right (assess_ne hassess)
    rw [hstatus] at hassess
    exact Or.inr ⟨hskips, hstatus, evidence, hassess⟩

theorem statusMarker_named {marker : List EvidencePointer}
    (h : statusMarker gateId items = .ok (some (status, marker))) : ∃ item ∈ items, markerStart gateId <+: item.evidenceKind := by
  unfold statusMarker at h
  split at h
  next => cases h
  next item hitems =>
    have hmem : item ∈ items.filter fun item => markerStart gateId <+: item.evidenceKind := by
      rw [hitems]
      exact mem_singleton_self item
    obtain ⟨hitem, hstart⟩ := mem_filter.mp hmem
    exact ⟨item, hitem, of_decide_eq_true hstart⟩
  next => cases h

theorem statusMarker_none (h : statusMarker gateId items = .ok none) :
    ∀ item ∈ items, ¬ markerStart gateId <+: item.evidenceKind := by
  unfold statusMarker at h
  split at h
  next hitems =>
    intro item hitem hstart
    have hmem : item ∈ items.filter fun item => markerStart gateId <+: item.evidenceKind :=
      mem_filter.mpr ⟨hitem, decide_eq_true hstart⟩
    rw [hitems] at hmem
    cases hmem
  next =>
    split at h
    next => cases h
    next => split at h <;> cases h
  next => cases h

theorem present_pass {test : EvidencePointer → Bool}
    (h : present (items.filter test) = (.pass, evidence)) : ∃ item ∈ items, test item = true := by
  unfold present at h
  obtain ⟨hstatus, -⟩ := Prod.mk.inj h
  split at hstatus
  next => cases hstatus
  next hne =>
    obtain ⟨item, hitem⟩ := exists_mem_of_ne_nil _ hne
    exact ⟨item, mem_filter.mp hitem⟩

end

section

variable {spec : SpecFields}

theorem gatesOrNone_mem {α : Type} {clauses : List α} {gate : α → ExpandedGate} {kind : GateKind} {applicable : List Text}
    {clause : α} (h : clause ∈ clauses) : gate clause ∈ gatesOrNone clauses gate kind applicable := by
  unfold gatesOrNone
  rw [if_neg (ne_nil_of_mem h)]
  exact mem_map_of_mem h

theorem gatesOrNone_cases {α : Type} {clauses : List α} {gate : α → ExpandedGate} {kind : GateKind} {applicable : List Text}
    {expanded : ExpandedGate} (h : expanded ∈ gatesOrNone clauses gate kind applicable) :
    clauses = [] ∧ expanded.template.kind = kind ∨ ∃ clause ∈ clauses, expanded = gate clause := by
  unfold gatesOrNone at h
  split at h
  next hempty =>
    rw [mem_singleton.mp h]
    exact Or.inl ⟨hempty, rfl⟩
  next =>
    obtain ⟨clause, hclause, rfl⟩ := mem_map.mp h
    exact Or.inr ⟨clause, hclause, rfl⟩

theorem requiredGate_mem {item : BehaviorRequirement} (h : item ∈ spec.requiredBehaviors) :
    requiredGate item ∈ expandedGates spec := by
  have hmem : requiredGate item ∈ spec.requiredBehaviors.map requiredGate := mem_map_of_mem h
  simp only [expandedGates, mem_sortBy, mem_append]
  tauto

theorem prohibitedGate_mem {item : BehaviorRequirement} (h : item ∈ spec.prohibitedBehaviors) :
    prohibitedGate item ∈ expandedGates spec := by
  have hmem : prohibitedGate item ∈ gatesOrNone spec.prohibitedBehaviors prohibitedGate .prohibitedBehavior
    ["spec.prohibited_behaviors".toList] := gatesOrNone_mem h
  simp only [expandedGates, mem_sortBy, mem_append]
  tauto

theorem interfaceGate_mem {item : InterfaceRequirement} (h : item ∈ spec.interfaces) :
    interfaceGate item ∈ expandedGates spec := by
  have hmem : interfaceGate item ∈ gatesOrNone spec.interfaces interfaceGate .interfaceEffect ["spec.interfaces".toList] :=
    gatesOrNone_mem h
  simp only [expandedGates, mem_sortBy, mem_append]
  tauto

variable {item : PerformanceConstraint}

theorem performanceGate_mem (h : item ∈ spec.performanceConstraints) :
    performanceGate item ∈ expandedGates spec := by
  have hmem : performanceGate item ∈ gatesOrNone spec.performanceConstraints performanceGate .performance
    ["spec.performance_constraints".toList] := gatesOrNone_mem h
  simp only [expandedGates, mem_sortBy, mem_append]
  tauto

theorem platformGate_mem {platform : Text} (h : platform ∈ spec.requiredPlatforms) :
    platformGate platform ∈ expandedGates spec := by
  have hmem : platformGate platform ∈ spec.requiredPlatforms.map platformGate := mem_map_of_mem h
  simp only [expandedGates, mem_sortBy, mem_append]
  tauto

/-- How many clauses of a specification a kind of gate answers for. -/
def clauseCount (spec : SpecFields) : GateKind → Nat
  | .requiredBehavior => spec.requiredBehaviors.length
  | .prohibitedBehavior => spec.prohibitedBehaviors.length
  | .interfaceEffect => spec.interfaces.length
  | .performance => spec.performanceConstraints.length
  | .dependency => spec.prohibitedDependencies.length
  | .platform => spec.requiredPlatforms.length
  | _ => 1

/-- A skipped gate has no clause, or it is that of a clause whose identifier ends as the empty gate does. -/
theorem skipsGate_cases {gate : ExpandedGate} (h : gate ∈ expandedGates spec) (hskips : SkipsGate gate) :
    clauseCount spec gate.template.kind = 0 ∨ (∃ item ∈ spec.prohibitedBehaviors, gate = prohibitedGate item) ∨
      (∃ item ∈ spec.interfaces, gate = interfaceGate item) ∨
      ∃ item ∈ spec.performanceConstraints, gate = performanceGate item := by
  obtain ⟨hnone, hempty⟩ := hskips
  simp only [expandedGates, mem_sortBy, mem_append] at h
  rcases h with ((((((h | h) | h) | h) | h) | h) | h) | h
  · exfalso
    simp only [mem_cons, not_mem_nil, or_false] at h
    rcases h with rfl | rfl | rfl | rfl <;> exact Bool.false_ne_true hempty
  · obtain ⟨item, -, rfl⟩ := mem_map.mp h
    exact absurd hempty Bool.false_ne_true
  · rcases gatesOrNone_cases h with ⟨hclauses, hkind⟩ | hclause
    · exact Or.inl (by rw [hkind, clauseCount, hclauses, length_nil])
    · exact Or.inr (Or.inl hclause)
  · rcases gatesOrNone_cases h with ⟨hclauses, hkind⟩ | hclause
    · exact Or.inl (by rw [hkind, clauseCount, hclauses, length_nil])
    · exact Or.inr (Or.inr (Or.inl hclause))
  · rcases gatesOrNone_cases h with ⟨hclauses, hkind⟩ | hclause
    · exact Or.inl (by rw [hkind, clauseCount, hclauses, length_nil])
    · exact Or.inr (Or.inr (Or.inr hclause))
  · simp only [mem_cons, not_mem_nil, or_false] at h
    rcases h with rfl | rfl
    · exact absurd hempty (by decide)
    · by_cases hclauses : spec.prohibitedDependencies = []
      · exact Or.inl (length_eq_zero_iff.mpr hclauses)
      · rw [if_neg hclauses] at hnone
        exact absurd hnone (by decide)
  · obtain ⟨item, -, rfl⟩ := mem_map.mp h
    exact absurd hempty Bool.false_ne_true
  · rw [mem_singleton.mp h] at hempty
    exact absurd hempty (by decide)

theorem skips_prohibitedGate (item : BehaviorRequirement) :
    SkipsGate (prohibitedGate item) ↔ noneSuffix <:+ item.contractVersion := by
  have hid : (prohibitedGate item).gateId = (GateKind.prohibitedBehavior.value ++ '.' :: item.behaviorId) ++
      '@' :: item.contractVersion := by
    change gateIdOf _ (behaviorSuffix item) = _
    unfold gateIdOf behaviorSuffix
    rw [if_neg (by simp)]
    simp
  have hat : '@' ∉ noneSuffix := by decide
  unfold SkipsGate
  rw [hid, suffix_behind hat]
  exact and_iff_left rfl

theorem skips_interfaceGate {item : InterfaceRequirement} (h : isName item.interfaceId = true) :
    SkipsGate (interfaceGate item) ↔ noneSuffix <:+ '.' :: item.interfaceId := by
  have hid : (interfaceGate item).gateId = GateKind.interfaceEffect.value ++ '.' :: item.interfaceId :=
    if_neg (name_ne_nil h)
  unfold SkipsGate
  rw [hid, noneSuffix_behind]
  exact and_iff_left rfl

theorem metric_cases
    (h : (item.metricId, item.collectorId, item.collectorVersion, item.unit) ∈ performanceContracts) :
    item.metricId = "duration".toList ∨ item.metricId = "peak_memory".toList := by
  simp only [performanceContracts, mem_cons, Prod.mk.injEq, not_mem_nil, or_false] at h
  exact h.imp And.left And.left

theorem metric_ne_nil
    (h : (item.metricId, item.collectorId, item.collectorVersion, item.unit) ∈ performanceContracts) : item.metricId ≠ [] := by
  rcases metric_cases h with hmetric | hmetric
  · rw [hmetric]
    decide
  · rw [hmetric]
    decide

theorem not_skips_performanceGate
    (h : (item.metricId, item.collectorId, item.collectorVersion, item.unit) ∈ performanceContracts) :
    ¬ SkipsGate (performanceGate item) := by
  have hmetric := metric_cases h
  rintro ⟨hnone, -⟩
  change noneSuffix <:+ gateIdOf .performance item.metricId at hnone
  rcases hmetric with hmetric | hmetric
  · rw [hmetric] at hnone
    exact absurd hnone (by decide)
  · rw [hmetric] at hnone
    exact absurd hnone (by decide)

end

section

variable {digest : Text → Text} {candidate : CandidateProposal} {spec : SpecFields} {outcome : GateOutcome}

def CandidateProposal.evidence (candidate : CandidateProposal) : List EvidencePointer :=
  candidate.extractionEvidence ++ candidate.contextEvidence

theorem mem_allEvidence {item : EvidencePointer} : item ∈ candidate.allEvidence ↔ item ∈ candidate.evidence :=
  mem_sortBy

/-- What a passing outcome stands for: each clause of the specification has its proof. -/
structure Proved (candidate : CandidateProposal) (spec : SpecFields) (outcome : GateOutcome) : Prop where
  required : ∀ item ∈ spec.requiredBehaviors, ∃ contract,
    resolve spec.behaviorRegistry item.behaviorId item.contractVersion = some contract ∧
      ∃ proof ∈ candidate.evidence, Collected contract (proofKind contract) proof
  prohibited : ∀ item ∈ spec.prohibitedBehaviors, ∃ contract,
    resolve spec.behaviorRegistry item.behaviorId item.contractVersion = some contract ∧
      (∃ absence ∈ candidate.evidence, Collected contract (absenceKind contract) absence) ∧
      ∀ proof ∈ candidate.evidence, ¬ Collected contract (proofKind contract) proof
  interfaces : ∀ item ∈ spec.interfaces, item.mode = .required →
    ∃ proof ∈ candidate.evidence, proof.evidenceKind = "interface-proof:".toList ++ item.interfaceId
  performance : ∀ item ∈ spec.performanceConstraints, item.mode = .required →
    ∃ proof ∈ candidate.evidence, proof.evidenceKind = "performance-proof:".toList ++ item.metricId ++ ":pass".toList
  platforms : ∀ platform ∈ spec.requiredPlatforms, ∃ proof ∈ candidate.evidence,
    proof.evidenceKind = "platform:any".toList ∨ proof.evidenceKind = "platform:".toList ++ platform
  applicable : ∀ result ∈ outcome.results, result.status = .notApplicable → clauseCount spec result.gateKind = 0

/-- No clause is named as an empty list is: neither a prohibited contract version nor an interface,
except for a preferred interface whose status has been asserted. -/
def WellNamed (candidate : CandidateProposal) (spec : SpecFields) : Prop :=
  (∀ item ∈ spec.prohibitedBehaviors, ¬ noneSuffix <:+ item.contractVersion) ∧
    ∀ item ∈ spec.interfaces, noneSuffix <:+ '.' :: item.interfaceId →
      item.mode = .preferred ∧ ∃ marker ∈ candidate.evidence, markerStart (interfaceGate item).gateId <+: marker.evidenceKind

variable {item : BehaviorRequirement} {found : List EvidencePointer}

theorem assessBehavior_ok {kind : GateKind} {evidence : List EvidencePointer}
    {status : GateStatus} (hname : isName item.contractVersion = true)
    (h : assessBehavior kind (gateIdOf kind (behaviorSuffix item)) evidence spec = .ok (status, found)) :
    ∃ contract, resolve spec.behaviorRegistry item.behaviorId item.contractVersion = some contract ∧
      status = (let proofs := evidence.filter fun item => Collected contract (proofKind contract) item
        let absences := evidence.filter fun item => Collected contract (absenceKind contract) item
        if proofs ≠ [] ∧ absences ≠ [] then .error
        else if kind = .requiredBehavior then if proofs ≠ [] then .pass else .unknown
        else if proofs ≠ [] then .fail
        else if absences ≠ [] then .pass
        else .unknown) := by
  unfold assessBehavior at h
  rw [behavior_of_gateId kind hname] at h
  dsimp only at h
  split at h
  next => cases h
  next contract hcontract => exact ⟨contract, hcontract, (Prod.mk.inj (Except.ok.inj h)).1.symm⟩

theorem collected_of_ne {contract : BehaviorContract} {kind : Text}
    (h : (candidate.allEvidence.filter fun item => Collected contract kind item) ≠ []) :
    ∃ item ∈ candidate.evidence, Collected contract kind item := by
  obtain ⟨item, hitem⟩ := exists_mem_of_ne_nil _ h
  obtain ⟨hmem, hcollected⟩ := mem_filter.mp hitem
  exact ⟨item, mem_allEvidence.mp hmem, of_decide_eq_true hcollected⟩

theorem required_proved (hname : isName item.contractVersion = true)
    (h : assess digest .requiredBehavior (requiredGate item).gateId candidate spec = .ok (.pass, found)) :
    ∃ contract, resolve spec.behaviorRegistry item.behaviorId item.contractVersion = some contract ∧
      ∃ proof ∈ candidate.evidence, Collected contract (proofKind contract) proof := by
  obtain ⟨contract, hcontract, hstatus⟩ := assessBehavior_ok hname h
  refine ⟨contract, hcontract, ?_⟩
  dsimp only at hstatus
  split at hstatus
  next => cases hstatus
  next =>
    rw [if_pos rfl] at hstatus
    split at hstatus
    next hproofs => exact collected_of_ne hproofs
    next => cases hstatus

theorem prohibited_proved (hname : isName item.contractVersion = true)
    (h : assess digest .prohibitedBehavior (prohibitedGate item).gateId candidate spec = .ok (.pass, found)) :
    ∃ contract, resolve spec.behaviorRegistry item.behaviorId item.contractVersion = some contract ∧
      (∃ absence ∈ candidate.evidence, Collected contract (absenceKind contract) absence) ∧
      ∀ proof ∈ candidate.evidence, ¬ Collected contract (proofKind contract) proof := by
  obtain ⟨contract, hcontract, hstatus⟩ := assessBehavior_ok hname h
  dsimp only at hstatus
  split at hstatus
  next => cases hstatus
  next =>
    rw [if_neg (by decide)] at hstatus
    split at hstatus
    next => cases hstatus
    next hproofs =>
      split at hstatus
      next habsences =>
        refine ⟨contract, hcontract, collected_of_ne habsences, ?_⟩
        intro proof hproof hcollected
        refine hproofs (ne_nil_of_mem (mem_filter.mpr ⟨mem_allEvidence.mpr hproof, ?_⟩))
        exact decide_eq_true hcollected
      next => cases hstatus

theorem present_proved {test : EvidencePointer → Bool}
    (h : (Except.ok (present (candidate.allEvidence.filter test)) : Except Rejection _) = .ok (.pass, found)) :
    ∃ item ∈ candidate.evidence, test item = true := by
  obtain ⟨item, hitem, htest⟩ := present_pass (Except.ok.inj h)
  exact ⟨item, mem_allEvidence.mp hitem, htest⟩

def Passing (digest : Text → Text) (candidate : CandidateProposal) (spec : SpecFields) (outcome : GateOutcome) : Prop :=
  (expandedGates spec).mapM (evaluateOne digest candidate spec) = .ok outcome.results ∧ verdictOf outcome.results = .pass

theorem passing_of_evaluateGates {checked : CapabilitySpec} {profile : RecipientProfile} {policy : SuitabilityPolicy}
    (h : evaluateGates digest candidate checked profile policy = .ok outcome) (hpass : outcome.verdict = .pass) :
    Passing digest candidate checked.toSpecFields outcome := by
  unfold evaluateGates at h
  split at h
  next => cases h
  next =>
    split at h
    next => cases h
    next =>
      obtain ⟨results, hresults, h⟩ := bind_ok h
      cases h
      exact ⟨hresults, hpass⟩

theorem Passing.gate (h : Passing digest candidate spec outcome) {gate : ExpandedGate} (hgate : gate ∈ expandedGates spec)
    (hmode : gate.mode = .required) :
    (∃ result ∈ outcome.results, result.gateKind = gate.template.kind ∧ SkipsGate gate ∧ result.status = .notApplicable) ∨
      ¬ SkipsGate gate ∧ ∃ found, assess digest gate.template.kind gate.gateId candidate spec = .ok (.pass, found) := by
  obtain ⟨result, hmem, hresult⟩ := (mapM_ok_mem h.1).1 gate hgate
  obtain ⟨⟨-, hkind, hresultMode⟩, -⟩ := evaluateOne_ok hresult
  rcases required_gate hresult (verdict_pass h.2 result hmem (hresultMode.trans hmode)) with ⟨hskips, hstatus⟩ | ⟨hskips, -, hassess⟩
  · exact Or.inl ⟨result, hmem, hkind, hskips, hstatus⟩
  · exact Or.inr ⟨hskips, hassess⟩

theorem Passing.assessed (h : Passing digest candidate spec outcome) {gate : ExpandedGate} (hgate : gate ∈ expandedGates spec)
    (hmode : gate.mode = .required) (hskips : ¬ SkipsGate gate) :
    ∃ found, assess digest gate.template.kind gate.gateId candidate spec = .ok (.pass, found) := by
  rcases h.gate hgate hmode with ⟨-, -, -, habsurd, -⟩ | ⟨-, hassess⟩
  · exact absurd habsurd hskips
  · exact hassess

theorem Passing.not_skips (h : Passing digest candidate spec outcome)
    (happlicable : ∀ result ∈ outcome.results, result.status = .notApplicable → clauseCount spec result.gateKind = 0)
    {gate : ExpandedGate} (hgate : gate ∈ expandedGates spec) (hmode : gate.mode = .required)
    (hclause : 0 < clauseCount spec gate.template.kind) : ¬ SkipsGate gate := by
  intro hskips
  rcases h.gate hgate hmode with ⟨result, hmem, hkind, -, hstatus⟩ | ⟨hnot, -⟩
  · have hzero := happlicable result hmem hstatus
    rw [hkind] at hzero
    omega
  · exact hnot hskips

theorem wellNamed_of_proved (haccepted : spec.Accepted) (h : Passing digest candidate spec outcome)
    (hproved : Proved candidate spec outcome) : WellNamed candidate spec := by
  obtain ⟨-, -, -, -, -, -, hinterfaces, -⟩ := haccepted
  refine ⟨?_, ?_⟩
  · intro item hitem hnone
    have hclause : 0 < clauseCount spec .prohibitedBehavior := length_pos_of_mem hitem
    refine h.not_skips hproved.applicable (prohibitedGate_mem hitem) rfl hclause ?_
    exact (skips_prohibitedGate item).mpr hnone
  · intro item hitem hnone
    have hskips := (skips_interfaceGate (hinterfaces.2.1 item hitem)).mpr hnone
    have hclause : 0 < clauseCount spec .interfaceEffect := length_pos_of_mem hitem
    have hgate := interfaceGate_mem hitem
    refine ⟨?_, ?_⟩
    · cases hmode : item.mode with
      | preferred => rfl
      | required => exact absurd hskips (h.not_skips hproved.applicable hgate hmode hclause)
    · obtain ⟨result, hmem, hresult⟩ := (mapM_ok_mem h.1).1 _ hgate
      obtain ⟨⟨-, hkind, -⟩, ⟨marker, hmarker⟩ | ⟨-, ⟨-, hstatus⟩ | ⟨hnot, -⟩⟩⟩ := evaluateOne_ok hresult
      · obtain ⟨pointer, hpointer, hstart⟩ := statusMarker_named hmarker
        exact ⟨pointer, mem_allEvidence.mp hpointer, hstart⟩
      · have hzero := hproved.applicable result hmem hstatus
        rw [hkind] at hzero
        exact absurd hzero (Nat.ne_of_gt hclause)
      · exact absurd hskips hnot

theorem skips_of_notApplicable {gate : ExpandedGate} {result : GateResult}
    (h : evaluateOne digest candidate spec gate = .ok result) (hstatus : result.status = .notApplicable) :
    SkipsGate gate ∧ statusMarker gate.gateId candidate.allEvidence = .ok none := by
  obtain ⟨-, ⟨marker, hmarker⟩ | ⟨hmarker, ⟨hskips, -⟩ | ⟨-, found, hassess⟩⟩⟩ := evaluateOne_ok h
  · exact absurd hstatus (statusMarker_some hmarker).2
  · exact ⟨hskips, hmarker⟩
  · exact absurd hstatus (assess_ne hassess)

theorem applicable_of_wellNamed (haccepted : spec.Accepted) (h : Passing digest candidate spec outcome)
    (hnamed : WellNamed candidate spec) :
    ∀ result ∈ outcome.results, result.status = .notApplicable → clauseCount spec result.gateKind = 0 := by
  obtain ⟨-, -, -, -, -, -, hinterfaces, hperformance, -⟩ := haccepted
  intro result hmem hstatus
  obtain ⟨gate, hgate, hresult⟩ := (mapM_ok_mem h.1).2 result hmem
  obtain ⟨⟨-, hkind, -⟩, -⟩ := evaluateOne_ok hresult
  obtain ⟨hskips, hmarker⟩ := skips_of_notApplicable hresult hstatus
  rw [hkind]
  rcases skipsGate_cases hgate hskips with hzero | ⟨item, hitem, rfl⟩ | ⟨item, hitem, rfl⟩ | ⟨item, hitem, rfl⟩
  · exact hzero
  · exact absurd ((skips_prohibitedGate item).mp hskips) (hnamed.1 item hitem)
  · have hnone := (skips_interfaceGate (hinterfaces.2.1 item hitem)).mp hskips
    obtain ⟨-, marker, hevidence, hstart⟩ := hnamed.2 item hitem hnone
    exact absurd hstart (statusMarker_none hmarker marker (mem_allEvidence.mpr hevidence))
  · exact absurd hskips (not_skips_performanceGate (hperformance.2.1 item hitem))

theorem proved_of_wellNamed (haccepted : spec.Accepted) (h : Passing digest candidate spec outcome)
    (hnamed : WellNamed candidate spec) : Proved candidate spec outcome := by
  have happlicable := applicable_of_wellNamed haccepted h hnamed
  obtain ⟨-, -, hrequired, hprohibited, -, -, hinterfaces, hperformance, -, -, hplatforms, -⟩ := haccepted
  refine ⟨?_, ?_, ?_, ?_, ?_, happlicable⟩
  · intro item hitem
    have hclause : 0 < clauseCount spec .requiredBehavior := length_pos_of_mem hitem
    have hgate := requiredGate_mem hitem
    obtain ⟨found, hassess⟩ := h.assessed hgate rfl (h.not_skips happlicable hgate rfl hclause)
    exact required_proved (hrequired.2.1 item hitem).2 hassess
  · intro item hitem
    have hclause : 0 < clauseCount spec .prohibitedBehavior := length_pos_of_mem hitem
    have hgate := prohibitedGate_mem hitem
    obtain ⟨found, hassess⟩ := h.assessed hgate rfl (h.not_skips happlicable hgate rfl hclause)
    exact prohibited_proved (hprohibited.2.1 item hitem).2 hassess
  · intro item hitem hmode
    have hclause : 0 < clauseCount spec .interfaceEffect := length_pos_of_mem hitem
    have hgate := interfaceGate_mem hitem
    obtain ⟨found, hassess⟩ := h.assessed hgate hmode (h.not_skips happlicable hgate hmode hclause)
    obtain ⟨proof, hproof, hkind⟩ := present_proved hassess
    have hid := afterDot_gateId .interfaceEffect (name_ne_nil (hinterfaces.2.1 item hitem))
    exact ⟨proof, hproof, (of_decide_eq_true hkind).trans (congrArg _ hid)⟩
  · intro item hitem hmode
    have hclause : 0 < clauseCount spec .performance := length_pos_of_mem hitem
    have hgate := performanceGate_mem hitem
    obtain ⟨found, hassess⟩ := h.assessed hgate hmode (h.not_skips happlicable hgate hmode hclause)
    obtain ⟨proof, hproof, hkind⟩ := present_proved hassess
    have hid := afterDot_gateId .performance (metric_ne_nil (hperformance.2.1 item hitem))
    refine ⟨proof, hproof, (of_decide_eq_true hkind).trans ?_⟩
    rw [← hid]
    rfl
  · intro platform hitem
    have hclause : 0 < clauseCount spec .platform := length_pos_of_mem hitem
    have hgate := platformGate_mem hitem
    obtain ⟨found, hassess⟩ := h.assessed hgate rfl (h.not_skips happlicable hgate rfl hclause)
    obtain ⟨proof, hproof, hkind⟩ := present_proved hassess
    have hne : platform ≠ [] := by
      rintro rfl
      exact absurd (hplatforms.2.1 [] hitem) (by decide)
    have hid := afterDot_gateId .platform hne
    exact ⟨proof, hproof, (of_decide_eq_true hkind).imp_right fun heq => heq.trans (congrArg _ hid)⟩

def sampleDigest : Text → Text := fun _ => "e3b0c44298fc1c149afbf4c8996fb92427ae41e4649b934ca495991b7852b855".toList

def sampleContract (behaviorId : String) : BehaviorContract where
  behaviorId := behaviorId.toList
  contractVersion := "v1".toList
  collectorId := "probe".toList
  collectorVersion := "v1".toList
  contentDigest := sampleDigest []

/-- A specification with a required interface of a given name. -/
def sampleFields (interfaceId : String) : SpecFields where
  requiredBehaviors := [⟨"parse".toList, "v1".toList⟩]
  prohibitedBehaviors := [⟨"leak".toList, "v1".toList⟩]
  targetLanguage := "python".toList
  targetRuntime := "python>=3.11".toList
  interfaces := [⟨interfaceId.toList, .required⟩]
  performanceConstraints := []
  licensePolicy := ⟨["MIT".toList], []⟩
  prohibitedDependencies := []
  requiredPlatforms := ["linux".toList]
  behaviorRegistry := [sampleContract "leak", sampleContract "parse"]

def samplePointer (kind : Text) : EvidencePointer := ⟨kind, "probe".toList, "v1".toList, sampleDigest []⟩

/-- A candidate with evidence for all clauses of the specification but its interface. -/
def sampleCandidate (others : List EvidencePointer) : CandidateProposal where
  extractionEvidence := [samplePointer (proofKind (sampleContract "parse")), samplePointer (absenceKind (sampleContract "leak")),
    samplePointer "language:python".toList, samplePointer "runtime:python>=3.11".toList, samplePointer "license:MIT".toList,
    samplePointer "platform:linux".toList]
  contextEvidence := others
  payload := []
  proposalDigest := sampleDigest []

def sampleProfile : RecipientProfile := ⟨[], sampleDigest []⟩

def sampleSpec : CapabilitySpec := ⟨sampleFields "parser", by decide +kernel⟩

def emptyNamedSpec : CapabilitySpec := ⟨sampleFields "none", by decide +kernel⟩

theorem outcome_of_verdict {run : Except Rejection GateOutcome} {verdict : GateVerdictStatus}
    (h : run.toOption.map GateOutcome.verdict = some verdict) : ∃ outcome, run = .ok outcome ∧ outcome.verdict = verdict := by
  cases run with
  | error rejection => cases h
  | ok outcome => exact ⟨outcome, rfl, Option.some.inj h⟩

/-- A passing outcome proves each clause of the specification, exactly when no clause is named as an empty list is. -/
theorem evaluateGates_proved_iff (digest : Text → Text) (candidate : CandidateProposal) (spec : CapabilitySpec)
    (profile : RecipientProfile) (policy : SuitabilityPolicy) (outcome : GateOutcome)
    (h : evaluateGates digest candidate spec profile policy = .ok outcome) (hpass : outcome.verdict = .pass) :
    Proved candidate spec.toSpecFields outcome ↔ WellNamed candidate spec.toSpecFields := by
  have hpassing := passing_of_evaluateGates h hpass
  constructor
  · exact wellNamed_of_proved spec.accepted hpassing
  · exact proved_of_wellNamed spec.accepted hpassing

/-- A candidate that also proves its interface passes, and no clause of its specification is left open. -/
theorem evaluateGates_proved_sample : ∃ outcome,
    evaluateGates sampleDigest (sampleCandidate [samplePointer "interface-proof:parser".toList]) sampleSpec sampleProfile
      pinnedSuitabilityPolicy = .ok outcome ∧ outcome.verdict = .pass ∧
    Proved (sampleCandidate [samplePointer "interface-proof:parser".toList]) sampleSpec.toSpecFields outcome := by
  have hverdict : (evaluateGates sampleDigest (sampleCandidate [samplePointer "interface-proof:parser".toList]) sampleSpec
      sampleProfile pinnedSuitabilityPolicy).toOption.map GateOutcome.verdict = some .pass := by decide +kernel
  obtain ⟨outcome, hrun, hpass⟩ := outcome_of_verdict hverdict
  refine ⟨outcome, hrun, hpass, (evaluateGates_proved_iff _ _ _ _ _ _ hrun hpass).mpr ⟨?_, ?_⟩⟩
  · decide +kernel
  · intro item hitem hnone
    rw [mem_singleton.mp hitem] at hnone
    exact absurd hnone (by decide +kernel)

/-- A required interface with the name of an empty list passes without any evidence for it. -/
theorem evaluateGates_interface_unproved : ∃ outcome,
    evaluateGates sampleDigest (sampleCandidate []) emptyNamedSpec sampleProfile pinnedSuitabilityPolicy = .ok outcome ∧
      outcome.verdict = .pass ∧ ¬ Proved (sampleCandidate []) emptyNamedSpec.toSpecFields outcome := by
  have hverdict : (evaluateGates sampleDigest (sampleCandidate []) emptyNamedSpec sampleProfile
      pinnedSuitabilityPolicy).toOption.map GateOutcome.verdict = some .pass := by decide +kernel
  obtain ⟨outcome, hrun, hpass⟩ := outcome_of_verdict hverdict
  refine ⟨outcome, hrun, hpass, ?_⟩
  intro hproved
  have hinterface := hproved.interfaces ⟨"none".toList, .required⟩ (by decide +kernel) rfl
  exact absurd hinterface (by decide +kernel)

end

end Leitir.Suitability
