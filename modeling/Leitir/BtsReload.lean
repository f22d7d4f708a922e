import Leitir.BtsJson
import Leitir.BtsRound

namespace Leitir.Bts

open KeyedList Json List

def EdgeProvenance.Built (provenance : EdgeProvenance) : Prop :=
  provenance.Checked ∧ provenance.site.Checked ∧ ∀ binding ∈ provenance.binding, binding.Checked

instance : DecidablePred EdgeProvenance.Built := fun _ => inferInstanceAs (Decidable (_ ∧ _))

def Edge.Built (edge : Edge) : Prop :=
  edge.Checked ∧ edge.source.Checked ∧ edge.target.Checked ∧ edge.provenance.Built

instance : DecidablePred Edge.Built := fun _ => inferInstanceAs (Decidable (_ ∧ _))

def UnresolvedEdge.Built (edge : UnresolvedEdge) : Prop :=
  edge.Checked ∧ edge.source.Checked ∧ edge.provenance.Built

instance : DecidablePred UnresolvedEdge.Built := fun _ => inferInstanceAs (Decidable (_ ∧ _))

def EnvironmentContract.Built (contract : EnvironmentContract) : Prop :=
  contract.Checked ∧ contract.constraints.Pairwise fun a b => textKey a ≤ textKey b

instance : DecidablePred EnvironmentContract.Built := fun _ => inferInstanceAs (Decidable (_ ∧ _))

/-- A payload that its constructor has let pass, with all its parts. -/
def RulePayload.Built (payload : RulePayload) : Prop :=
  payload.Checked ∧
    match payload with
    | .mapRule target _ contract | .replaceRule target _ contract => target.Checked ∧ contract.Checked
    | .externalRule target _ environment => target.Checked ∧ ∀ contract ∈ environment, contract.Built
    | .adaptRule .. | .rejectRule .. => True

instance : DecidablePred RulePayload.Built
  | .mapRule .. => inferInstanceAs (Decidable (_ ∧ _ ∧ _))
  | .replaceRule .. => inferInstanceAs (Decidable (_ ∧ _ ∧ _))
  | .externalRule .. => inferInstanceAs (Decidable (_ ∧ _ ∧ _))
  | .adaptRule .. => inferInstanceAs (Decidable (_ ∧ True))
  | .rejectRule .. => inferInstanceAs (Decidable (_ ∧ True))

/-- The payloads that the first fitting alternative of the union gives back. -/
def RulePayload.Recoverable : RulePayload → Prop
  | .replaceRule .. => False
  | .adaptRule _ parameters => parameters = []
  | _ => True

instance : DecidablePred RulePayload.Recoverable
  | .replaceRule .. => isFalse id
  | .adaptRule _ parameters => inferInstanceAs (Decidable (parameters = []))
  | .mapRule .. => isTrue trivial
  | .externalRule .. => isTrue trivial
  | .rejectRule .. => isTrue trivial

def MemberEvidence.Built (member : MemberEvidence) : Prop := member.node.Checked ∧ member.source.Checked

def DispositionEvidence.Built (item : DispositionEvidence) : Prop :=
  (∀ edge ∈ item.edge, edge.Built) ∧ item.target.Checked ∧ ∀ payload ∈ item.rulePayload, payload.Built

def DispositionEvidence.Recoverable (item : DispositionEvidence) : Prop :=
  ∀ payload ∈ item.rulePayload, payload.Recoverable

instance : DecidablePred DispositionEvidence.Recoverable :=
  fun item => inferInstanceAs (Decidable (∀ payload ∈ item.rulePayload, payload.Recoverable))

def FrontierEvidence.Built (item : FrontierEvidence) : Prop :=
  item.node.Checked ∧ ∀ edge ∈ item.incoming, edge.Built

def BlockerEvidence.Built : BlockerEvidence → Prop
  | .extraction blocker => blocker.Checked
  | .unresolved edge => edge.Built
  | .disposition item => item.Built ∧ item.Recoverable

theorem kindShape_restores (kind : NodeKind) : kindShape.Restores kind :=
  enumShape_restores NodeKind.value_injective (by cases kind <;> simp)

theorem originShape_restores (origin : NodeOrigin) : originShape.Restores origin :=
  enumShape_restores NodeOrigin.value_injective (by cases origin <;> simp)

theorem edgeKindShape_restores (kind : EdgeKind) : edgeKindShape.Restores kind :=
  enumShape_restores EdgeKind.value_injective (by cases kind <;> simp)

theorem RejectReason.value_injective : Function.Injective RejectReason.value := by
  intro a b h
  cases a <;> cases b <;> first | rfl | simp [RejectReason.value] at h

theorem reasonShape_restores (reason : RejectReason) : reasonShape.Restores reason :=
  enumShape_restores RejectReason.value_injective (by cases reason <;> simp)

theorem Disposition.value_injective : Function.Injective Disposition.value := by
  intro a b h
  cases a <;> cases b <;> first | rfl | simp [Disposition.value] at h

theorem dispositionShape_restores (disposition : Disposition) : dispositionShape.Restores disposition :=
  enumShape_restores Disposition.value_injective (by cases disposition <;> simp)

theorem Status.value_injective : Function.Injective Status.value := by
  intro a b h
  cases a <;> cases b <;> first | rfl | simp [Status.value] at h

theorem statusShape_restores (status : Status) : statusShape.Restores status :=
  enumShape_restores Status.value_injective (by cases status <;> simp)

theorem sourceRefShape_restores {source : SourceRef} (h : source.Checked) : sourceRefShape.Restores source := by
  refine recordShape_restores rfl (by decide) ?_ ?_
  · simp [textShape_restores, natShape_restores]
  · simp +contextual [source.startLine_pos, source.ordered, h]

theorem nodeIdShape_restores {node : NodeId} (h : node.Checked) : nodeIdShape.Restores node := by
  refine recordShape_restores rfl (by decide) ?_ ?_
  · simp [textShape_restores, originShape_restores, kindShape_restores]
  · simp +contextual [node.named, h]

theorem sourceRefShape_null : sourceRefShape.decode .null = none := rfl

theorem provenanceShape_restores {provenance : EdgeProvenance} (h : provenance.Built) :
    provenanceShape.Restores provenance := by
  obtain ⟨hchecked, hsite, hbinding⟩ := h
  have hopt : (optionShape sourceRefShape).Restores provenance.binding :=
    optionShape_restores sourceRefShape_null fun ref href => sourceRefShape_restores (hbinding ref href)
  refine recordShape_restores rfl (by decide) ?_ ?_
  · simp [textShape_restores, boolShape_restores, sourceRefShape_restores hsite, hopt]
  · simp +contextual [hchecked]

theorem edgeShape_restores {edge : Edge} (h : edge.Built) : edgeShape.Restores edge := by
  obtain ⟨hchecked, hsource, htarget, hprovenance⟩ := h
  refine recordShape_restores rfl (by decide) ?_ ?_
  · simp [edgeKindShape_restores, nodeIdShape_restores hsource, nodeIdShape_restores htarget,
      provenanceShape_restores hprovenance]
  · simp +contextual [hchecked]

theorem unresolvedShape_restores {edge : UnresolvedEdge} (h : edge.Built) : unresolvedShape.Restores edge := by
  obtain ⟨hchecked, hsource, hprovenance⟩ := h
  refine recordShape_restores rfl (by decide) ?_ ?_
  · simp [edgeKindShape_restores, nodeIdShape_restores hsource, provenanceShape_restores hprovenance,
      textShape_restores, reasonShape_restores]
  · simp +contextual [hchecked]

theorem blockerShape_restores {blocker : ExtractionBlocker} (h : blocker.Checked) : blockerShape.Restores blocker := by
  refine recordShape_restores rfl (by decide) ?_ ?_
  · simp [textShape_restores, natShape_restores, reasonShape_restores]
  · simp +contextual [h]

theorem interfaceContractShape_restores {contract : InterfaceContract} (h : contract.Checked) :
    interfaceContractShape.Restores contract := by
  refine recordShape_restores rfl (by decide) ?_ ?_
  · simp [textShape_restores]
  · simp +contextual [h]

theorem environmentContractShape_restores {contract : EnvironmentContract} (h : contract.Built) :
    environmentContractShape.Restores contract := by
  obtain ⟨hchecked, hsorted⟩ := h
  have htuple : (tupleShape textShape).Restores contract.constraints :=
    tupleShape_restores fun item _ => textShape_restores item
  have horder : sortBy textKey contract.constraints = contract.constraints := hsorted.insertionSort_eq
  refine recordShape_restores rfl (by decide) ?_ ?_
  · simp [textShape_restores, htuple]
  · simp +contextual [horder, hchecked]

theorem mapRuleShape_restores {rule : NodeId × Text × InterfaceContract} (htarget : rule.1.Checked)
    (hidentity : rule.2.1 ≠ []) (hcontract : rule.2.2.Checked) : mapRuleShape.Restores rule := by
  refine recordShape_restores rfl (by decide) ?_ ?_
  · simp [nodeIdShape_restores htarget, textShape_restores, interfaceContractShape_restores hcontract]
  · simp +contextual [hidentity]

theorem adaptRuleShape_restores {adapterId : Text} (h : adapterId ≠ []) : adaptRuleShape.Restores (adapterId, []) := by
  have htuple : (tupleShape (pairShape textShape textShape)).Restores [] :=
    tupleShape_restores fun item hitem => absurd hitem not_mem_nil
  refine recordShape_restores rfl (by decide) ?_ ?_
  · simp [textShape_restores, htuple]
  · simp +contextual [h, sortBy]

theorem externalRuleShape_restores {rule : NodeId × Text × Option EnvironmentContract} (htarget : rule.1.Checked)
    (hrequirement : rule.2.1 ≠ []) (henvironment : ∀ contract ∈ rule.2.2, contract.Built) :
    externalRuleShape.Restores rule := by
  have hopt : (optionShape environmentContractShape).Restores rule.2.2 :=
    optionShape_restores rfl fun contract hc => environmentContractShape_restores (henvironment contract hc)
  refine recordShape_restores rfl (by decide) ?_ ?_
  · simp [nodeIdShape_restores htarget, textShape_restores, hopt]
  · simp +contextual [hrequirement]

theorem rejectRuleShape_restores {rule : RejectReason × Text} (h : rule.2 ≠ []) : rejectRuleShape.Restores rule := by
  refine recordShape_restores rfl (by decide) ?_ ?_
  · simp [reasonShape_restores, textShape_restores]
  · simp +contextual [h]

section

variable {payload : RulePayload}

theorem pairs_eq_nil {α β : Type} {first : Shape α} {second : Shape β} {value : Value} {pairs : List (α × β)}
    (h : (tupleShape (pairShape first second)).decode value = some pairs) : pairs = [] := by
  cases pairs with
  | nil => rfl
  | cons pair pairs =>
    obtain ⟨raw, hraw⟩ := tupleShape_decoded h pair mem_cons_self
    cases hraw

/-- A payload comes back as itself when the first alternative that fits is its own. -/
theorem payloadShape_restores (h : payload.Built) (hrecover : payload.Recoverable) : payloadShape.Restores payload := by
  obtain ⟨hchecked, hparts⟩ := h
  cases payload with
  | mapRule target targetIdentity contract =>
    have hmap : mapRuleShape.Restores (target, targetIdentity, contract) :=
      mapRuleShape_restores hparts.1 hchecked hparts.2
    exact ⟨hmap.plain, by simp [payloadShape, hmap.decode]⟩
  | adaptRule adapterId parameters =>
    change parameters = [] at hrecover
    subst hrecover
    have hadapt : adaptRuleShape.Restores (adapterId, []) := adaptRuleShape_restores hchecked.1
    have hmap : mapRuleShape.decode (sortKeys (adaptRuleShape.encode (adapterId, []))) = none :=
      recordShape_other "target" (by decide) (by simp)
    exact ⟨hadapt.plain, by simp [payloadShape, hmap, hadapt.decode]⟩
  | replaceRule => exact hrecover.elim
  | externalRule target requirement environment =>
    have hexternal : externalRuleShape.Restores (target, requirement, environment) :=
      externalRuleShape_restores hparts.1 hchecked hparts.2
    have hmap : mapRuleShape.decode (sortKeys (externalRuleShape.encode (target, requirement, environment))) = none :=
      recordShape_other "contract" (by decide) (by simp)
    have hadapt : adaptRuleShape.decode (sortKeys (externalRuleShape.encode (target, requirement, environment))) = none :=
      recordShape_other "parameters" (by decide) (by simp)
    exact ⟨hexternal.plain, by simp [payloadShape, replaceRuleShape, hmap, hadapt, hexternal.decode]⟩
  | rejectRule reason detailCode =>
    have hreject : rejectRuleShape.Restores (reason, detailCode) := rejectRuleShape_restores hchecked
    have hmap : mapRuleShape.decode (sortKeys (rejectRuleShape.encode (reason, detailCode))) = none :=
      recordShape_other "contract" (by decide) (by simp)
    have hadapt : adaptRuleShape.decode (sortKeys (rejectRuleShape.encode (reason, detailCode))) = none :=
      recordShape_other "parameters" (by decide) (by simp)
    have hexternal : externalRuleShape.decode (sortKeys (rejectRuleShape.encode (reason, detailCode))) = none :=
      recordShape_other "environment" (by decide) (by simp)
    exact ⟨hreject.plain, by simp [payloadShape, replaceRuleShape, hmap, hadapt, hexternal, hreject.decode]⟩

theorem payloadShape_plain (h : payload.Built) : Plain (payloadShape.encode payload) := by
  obtain ⟨hchecked, hparts⟩ := h
  cases payload with
  | mapRule target targetIdentity contract =>
    exact (payloadShape_restores ⟨hchecked, hparts⟩ trivial).plain
  | replaceRule target targetIdentity contract =>
    exact (mapRuleShape_restores hparts.1 hchecked hparts.2 : mapRuleShape.Restores (target, targetIdentity, contract)).plain
  | externalRule => exact (payloadShape_restores ⟨hchecked, hparts⟩ trivial).plain
  | rejectRule => exact (payloadShape_restores ⟨hchecked, hparts⟩ trivial).plain
  | adaptRule adapterId parameters =>
    have htuple : Plain ((tupleShape (pairShape textShape textShape)).encode parameters) :=
      tupleShape_plain fun item _ => ⟨trivial, trivial, trivial⟩
    change Plain (adaptRuleShape.encode (adapterId, parameters))
    refine recordShape_plain rfl (by decide) ?_
    simp [(textShape_restores _).plain, htuple]

/-- No reading gives a rule that replaces, whose fields are those of a rule that maps, or the parameters of an
adapter. -/
theorem recoverable_of_payload {value : Value} (h : payloadShape.decode value = some payload) : payload.Recoverable := by
  change ((mapRuleShape.decode value).map _ <|> (adaptRuleShape.decode value).map _ <|>
    (mapRuleShape.decode value).map _ <|> (externalRuleShape.decode value).map _ <|>
    (rejectRuleShape.decode value).map _) = some payload at h
  cases hmap : mapRuleShape.decode value with
  | some rule =>
    rw [hmap] at h
    cases h
    trivial
  | none =>
    cases hadapt : adaptRuleShape.decode value with
    | some rule =>
      rw [hmap, hadapt] at h
      cases h
      obtain ⟨fields, -, hread⟩ := Option.bind_eq_some_iff.mp hadapt
      obtain ⟨adapterId, -, hread⟩ := Option.bind_eq_some_iff.mp hread
      obtain ⟨parameters, hparameters, hread⟩ := Option.bind_eq_some_iff.mp hread
      have hnone : parameters = [] := by
        obtain ⟨found, -, hfound⟩ := Option.bind_eq_some_iff.mp hparameters
        exact pairs_eq_nil hfound
      subst hnone
      split at hread
      next =>
        cases hread
        rfl
      next => cases hread
    | none =>
      rw [hmap, hadapt] at h
      cases hexternal : externalRuleShape.decode value with
      | some rule =>
        rw [hexternal] at h
        cases h
        trivial
      | none =>
        rw [hexternal] at h
        obtain ⟨rule, -, rfl⟩ := Option.map_eq_some_iff.mp h
        trivial

end

section

theorem memberShape_restores {member : MemberEvidence} (h : member.Built) : memberShape.Restores member := by
  refine recordShape_restores rfl (by decide) ?_ ?_
  · simp [nodeIdShape_restores h.1, sourceRefShape_restores h.2, textShape_restores, dispositionShape_restores]
  · simp +contextual

theorem optionTextShape_restores (item : Option Text) : (optionShape textShape).Restores item :=
  optionShape_restores rfl fun text _ => textShape_restores text

theorem optionReasonShape_restores (item : Option RejectReason) : (optionShape reasonShape).Restores item :=
  optionShape_restores rfl fun reason _ => reasonShape_restores reason

theorem optionEdgeShape_restores {item : Option Edge} (h : ∀ edge ∈ item, edge.Built) :
    (optionShape edgeShape).Restores item :=
  optionShape_restores rfl fun edge hedge => edgeShape_restores (h edge hedge)

variable {item : DispositionEvidence}

theorem dispositionEvidenceShape_restores (h : item.Built) (hrecover : item.Recoverable) :
    dispositionEvidenceShape.Restores item := by
  obtain ⟨hedge, htarget, hpayload⟩ := h
  have hopt : (optionShape payloadShape).Restores item.rulePayload :=
    optionShape_restores rfl fun payload hp => payloadShape_restores (hpayload payload hp) (hrecover payload hp)
  refine recordShape_restores rfl (by decide) ?_ ?_
  · simp [optionEdgeShape_restores hedge, nodeIdShape_restores htarget, dispositionShape_restores,
      optionTextShape_restores, optionReasonShape_restores, hopt]
  · simp +contextual

theorem dispositionEvidenceShape_plain (h : item.Built) : Plain (dispositionEvidenceShape.encode item) := by
  obtain ⟨hedge, htarget, hpayload⟩ := h
  have hopt : Plain ((optionShape payloadShape).encode item.rulePayload) :=
    optionShape_plain fun payload hp => payloadShape_plain (hpayload payload hp)
  refine recordShape_plain rfl (by decide) ?_
  simp [(optionEdgeShape_restores hedge).plain, (nodeIdShape_restores htarget).plain,
    (dispositionShape_restores _).plain, (optionTextShape_restores _).plain, (optionReasonShape_restores _).plain, hopt]

theorem recoverable_of_evidence {value : Value} (h : dispositionEvidenceShape.decode value = some item) :
    item.Recoverable := by
  obtain ⟨fields, -, hread⟩ := Option.bind_eq_some_iff.mp h
  simp only [Option.bind_eq_bind, Option.bind_eq_some_iff] at hread
  obtain ⟨_, -, _, -, _, -, _, -, _, -, _, -, _, -, found, hfound, hread⟩ := hread
  cases hread
  intro payload hpayload
  obtain ⟨raw, -, hraw⟩ := Option.bind_eq_some_iff.mp hfound
  rw [show found = some payload from hpayload] at hraw
  exact recoverable_of_payload (optionShape_decode hraw)

theorem edgeEvidenceShape_restores {item : EdgeEvidence} (h : item.edge.Built) : edgeEvidenceShape.Restores item := by
  refine recordShape_restores rfl (by decide) ?_ ?_
  · simp [natShape_restores, edgeShape_restores h, dispositionShape_restores, optionTextShape_restores]
  · simp +contextual

theorem frontierShape_restores {item : FrontierEvidence} (h : item.Built) : frontierShape.Restores item := by
  refine recordShape_restores rfl (by decide) ?_ ?_
  · simp [natShape_restores, nodeIdShape_restores h.1, optionEdgeShape_restores h.2]
  · simp +contextual

theorem blockerEvidenceShape_restores {blocker : BlockerEvidence} (h : blocker.Built) :
    blockerEvidenceShape.Restores blocker := by
  cases blocker with
  | extraction blocker =>
    have hblocker : blockerShape.Restores blocker := blockerShape_restores h
    exact ⟨hblocker.plain, by simp [blockerEvidenceShape, hblocker.decode]⟩
  | unresolved edge =>
    have hedge : unresolvedShape.Restores edge := unresolvedShape_restores h
    have hblocker : blockerShape.decode (sortKeys (unresolvedShape.encode edge)) = none :=
      recordShape_other "path" (by decide) (by simp)
    exact ⟨hedge.plain, by simp [blockerEvidenceShape, hblocker, hedge.decode]⟩
  | disposition item =>
    have hitem : dispositionEvidenceShape.Restores item := dispositionEvidenceShape_restores h.1 h.2
    have hblocker : blockerShape.decode (sortKeys (dispositionEvidenceShape.encode item)) = none :=
      recordShape_other "path" (by decide) (by simp)
    have hedge : unresolvedShape.decode (sortKeys (dispositionEvidenceShape.encode item)) = none :=
      recordShape_other "expression" (by decide) (by simp)
    exact ⟨hitem.plain, by simp [blockerEvidenceShape, hblocker, hedge, hitem.decode]⟩

theorem countersShape_restores {counters : BudgetCounters} (hbytes : counters.fileBytes = [])
    (hnodes : counters.astNodesPerFile = []) : countersShape.Restores counters := by
  have htuple : (tupleShape (pairShape textShape natShape)).Restores [] :=
    tupleShape_restores fun item hitem => absurd hitem not_mem_nil
  refine recordShape_restores rfl (by decide) ?_ ?_
  · simp [natShape_restores, hbytes, hnodes, htuple]
  · simp +contextual

theorem budgetShape_restores (budget : Budget) : budgetShape.Restores budget := by
  refine recordShape_restores rfl (by decide) ?_ ?_
  · simp [natShape_restores]
  · simp +contextual [budget.minima, budget.bps_le]

theorem inputsShape_restores {inputs : AnalysisInputs} (h : inputs.seed.Checked) : inputsShape.Restores inputs := by
  refine recordShape_restores rfl (by decide) ?_ ?_
  · simp [nodeIdShape_restores h, textShape_restores, stringShape_restores, budgetShape_restores]
  · simp +contextual

end

section

/-- A report of parts that their constructors have let pass. -/
structure Report.Built (report : Report) : Prop where
  seed : report.inputs.seed.Checked
  members : ∀ member ∈ report.members, member.Built
  dispositions : ∀ item ∈ report.dispositions, item.Built
  traversedEdges : ∀ item ∈ report.traversedEdges, item.edge.Built
  unresolved : ∀ edge ∈ report.unresolved, edge.Built
  blockers : ∀ blocker ∈ report.blockers, blocker.Built
  frontier : ∀ item ∈ report.frontier, item.Built
  fileBytes : report.counters.fileBytes = []
  astNodesPerFile : report.counters.astNodesPerFile = []

variable {report : Report}

theorem Report.Built.slots (h : report.Built) :
    (tupleShape memberShape).Restores report.members ∧ (tupleShape edgeEvidenceShape).Restores report.traversedEdges ∧
      (tupleShape unresolvedShape).Restores report.unresolved ∧
      (tupleShape blockerEvidenceShape).Restores report.blockers ∧
      (tupleShape frontierShape).Restores report.frontier := by
  refine ⟨?_, ?_, ?_, ?_, ?_⟩
  · exact tupleShape_restores fun member hmember => memberShape_restores (h.members member hmember)
  · exact tupleShape_restores fun item hitem => edgeEvidenceShape_restores (h.traversedEdges item hitem)
  · exact tupleShape_restores fun edge hedge => unresolvedShape_restores (h.unresolved edge hedge)
  · exact tupleShape_restores fun blocker hblocker => blockerEvidenceShape_restores (h.blockers blocker hblocker)
  · exact tupleShape_restores fun item hitem => frontierShape_restores (h.frontier item hitem)

theorem reportShape_plain (h : report.Built) : Plain (reportShape.encode report) := by
  obtain ⟨hmembers, htraversed, hunresolved, hblockers, hfrontier⟩ := h.slots
  have hdispositions : Plain ((tupleShape dispositionEvidenceShape).encode report.dispositions) :=
    tupleShape_plain fun item hitem => dispositionEvidenceShape_plain (h.dispositions item hitem)
  refine recordShape_plain rfl (by decide) ?_
  simp [(stringShape_restores _).plain, (statusShape_restores _).plain, (inputsShape_restores h.seed).plain,
    hmembers.plain, hdispositions, htraversed.plain, hunresolved.plain, hblockers.plain, hfrontier.plain,
    (countersShape_restores h.fileBytes h.astNodesPerFile).plain, (textShape_restores _).plain]

theorem recoverable_of_report {value : Value} (h : reportShape.decode value = some report) :
    ∀ item ∈ report.dispositions, item.Recoverable := by
  obtain ⟨fields, -, hread⟩ := Option.bind_eq_some_iff.mp h
  obtain ⟨_, -, hread⟩ := Option.bind_eq_some_iff.mp hread
  obtain ⟨_, -, hread⟩ := Option.bind_eq_some_iff.mp hread
  obtain ⟨_, -, hread⟩ := Option.bind_eq_some_iff.mp hread
  obtain ⟨_, -, hread⟩ := Option.bind_eq_some_iff.mp hread
  obtain ⟨dispositions, hfound, hread⟩ := Option.bind_eq_some_iff.mp hread
  obtain ⟨_, -, hread⟩ := Option.bind_eq_some_iff.mp hread
  obtain ⟨_, -, hread⟩ := Option.bind_eq_some_iff.mp hread
  obtain ⟨_, -, hread⟩ := Option.bind_eq_some_iff.mp hread
  obtain ⟨_, -, hread⟩ := Option.bind_eq_some_iff.mp hread
  obtain ⟨_, -, hread⟩ := Option.bind_eq_some_iff.mp hread
  obtain ⟨_, -, hread⟩ := Option.bind_eq_some_iff.mp hread
  have hsame : dispositions = report.dispositions := congrArg Report.dispositions (Option.some.inj hread)
  rw [← hsame]
  obtain ⟨raw, -, hraw⟩ := Option.bind_eq_some_iff.mp hfound
  intro item hitem
  obtain ⟨value, hvalue⟩ := tupleShape_decoded hraw item hitem
  exact recoverable_of_evidence hvalue

theorem reportShape_decode (h : report.Built) (hrecover : ∀ item ∈ report.dispositions, item.Recoverable) :
    reportShape.decode (sortKeys (reportShape.encode report)) = some report := by
  obtain ⟨hmembers, htraversed, hunresolved, hblockers, hfrontier⟩ := h.slots
  have hdispositions : (tupleShape dispositionEvidenceShape).Restores report.dispositions :=
    tupleShape_restores fun item hitem =>
      dispositionEvidenceShape_restores (h.dispositions item hitem) (hrecover item hitem)
  refine (recordShape_restores rfl (by decide) ?_ ?_ : reportShape.Restores report).decode
  · simp [stringShape_restores, statusShape_restores, inputsShape_restores h.seed, hmembers, hdispositions,
      htraversed, hunresolved, hblockers, hfrontier, countersShape_restores h.fileBytes h.astNodesPerFile,
      textShape_restores]
  · simp +contextual

theorem fromJson_recoverable {digests : Digests} {data : Bytes} (h : fromJson digests data = some report) :
    ∀ item ∈ report.dispositions, item.Recoverable := by
  obtain ⟨text, -, h⟩ := Option.bind_eq_some_iff.mp h
  obtain ⟨raw, -, h⟩ := Option.bind_eq_some_iff.mp h
  obtain ⟨other, hother, h⟩ := Option.bind_eq_some_iff.mp h
  split at h
  next => cases h
  next =>
    split at h
    next => cases h
    next =>
      cases h
      exact recoverable_of_report hother

theorem fromJson_toBytes_iff {digests : Digests} (h : report.Built)
    (hdigest : report.analysisDigest = digests.report { report with analysisDigest := [] }) :
    fromJson digests (toBytes report) = some report ↔ ∀ item ∈ report.dispositions, item.Recoverable := by
  refine ⟨fromJson_recoverable, ?_⟩
  intro hrecover
  have hraw : loads (canonicalText report) = some (sortKeys (reportShape.encode report)) :=
    loads_dumps (reportShape_plain h) (Or.inr rfl)
  unfold fromJson toBytes
  rw [Utf8.decodeText_encodeText, Option.bind_eq_bind, Option.bind_some, hraw, Option.bind_eq_bind, Option.bind_some,
    Option.bind_eq_bind, reportShape_decode h hrecover, Option.bind_some, if_neg (not_not_intro hdigest),
    if_neg (not_not_intro rfl)]

end

end Leitir.Bts
