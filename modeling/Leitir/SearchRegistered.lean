import Leitir.SearchParsed

namespace Leitir.Search

open ExceptRun List LineCut

section

/-- An adapter of the registry: on plain lines, on masked lines, or on the nodes of a parsed file. -/
inductive Registered
  | lines (adapter : LineAdapter) (extension : String)
  | masked (inventory : RegexInventory)
  | parsed

def Registered.adapter (registered : Registered) (engine : Engine) (casefold : Text → Text) (parser : PythonParser) :
    LanguageAdapter :=
  match registered with
  | .lines adapter extension => adapter.toLanguage engine extension
  | .masked inventory => inventory.toLanguage engine casefold
  | .parsed => pythonAstAdapter engine parser

def Registered.shown : Registered → Text → List Text
  | .masked _ => fun content => contentLines (maskCommentsAndStrings content) content
  | _ => plainLines

def Registered.limited : Registered → PredicateKind → Bool
  | .parsed => fun kind => kind = .regex
  | _ => PredicateKind.limited

def scoredBatches (content : Text) : List Text := (streamBatches content).filter fun batch => batch ≠ []

/-- An adapter that starts anew at each batch is where it would be in the whole content. -/
def Registered.KeepsState (registered : Registered) (parser : PythonParser) (spec : SearchSpec) (content : Text) : Prop :=
  match registered with
  | .lines _ _ => True
  | .masked _ => ∀ batch ∈ (scoredBatches content).dropLast, maskEnd .code batch = .code
  | .parsed =>
    (Structural (driver spec.contentMust spec.should) → (∀ batch ∈ scoredBatches content, parser.parse batch ≠ none) →
        ParsedAlike parser content (scoredBatches content)) ∧
      ∀ pred ∈ spec.mustNot ++ spec.should, Structural [pred] → ParsedAlike parser content (scoredBatches content)

/-- When a stream without a complaint gives the matches of the content in memory. -/
structure Registered.Streamable (registered : Registered) (engine : Engine) (parser : PythonParser) (spec : SearchSpec)
    (content : Text) : Prop where
  state : registered.KeepsState parser spec content
  short : ∀ pred ∈ spec.mustNot ++ spec.should, registered.limited pred.kind = true → ¬ Overlong (registered.shown content)
  compiles : content = [] → ∀ pred ∈ spec.mustNot ++ driver spec.contentMust spec.should,
    registered.limited pred.kind = true → engine.compiles pred.value = true
  single : spec.contentMust ≠ [] ∨ spec.should.length ≤ 1

variable {engine : Engine} {casefold : Text → Text} {parser : PythonParser} {registered : Registered} {spec : SearchSpec}
  {content : Text} {blob : Blob}

theorem Registered.find_nil (registered : Registered) (text : Text) :
    (registered.adapter engine casefold parser).findMatchesEx text [] false = .ok ⟨[], false⟩ := by
  cases registered with
  | lines adapter extension => exact (adapter.testsLines engine extension).find_nil text
  | masked inventory => exact (inventory.testsLines engine casefold).find_nil text
  | parsed => rfl

theorem scoredBatches_ne_nil (h : content ≠ []) : scoredBatches content ≠ [] := by
  intro hnil
  have hflatten := filter_flatten (streamBatches content)
  unfold scoredBatches at hnil
  rw [hnil, streamBatches_flatten] at hflatten
  exact h hflatten.symm

theorem Registered.steady {pred : Predicate} (hpred : pred ∈ spec.mustNot ++ spec.should)
    (hstate : registered.KeepsState parser spec content)
    (hshort : registered.limited pred.kind = true → ¬ Overlong (registered.shown content)) :
    Steady (registered.adapter engine casefold parser) content (scoredBatches content) pred := by
  cases registered with
  | lines adapter extension => exact (adapter.testsLines engine extension).steady (shownAlike_plain content) hshort
  | masked inventory => exact (inventory.testsLines engine casefold).steady (shownAlike_masked hstate) hshort
  | parsed =>
    refine ParsedAlike.steady (shownAlike_plain content) (hstate.2 pred hpred) ?_
    intro hkind
    exact hshort (decide_eq_true hkind)

theorem Registered.steadyDriver (hcontent : content ≠ []) (hstate : registered.KeepsState parser spec content) :
    SteadyDriver (registered.adapter engine casefold parser) content (scoredBatches content)
      (driver spec.contentMust spec.should) := by
  have hne := scoredBatches_ne_nil hcontent
  cases registered with
  | lines adapter extension => exact (adapter.testsLines engine extension).steadyDriver (shownAlike_plain content) hne
  | masked inventory => exact (inventory.testsLines engine casefold).steadyDriver (shownAlike_masked hstate) hne
  | parsed => exact ParsedAlike.steadyDriver (shownAlike_plain content) hne hstate.1

theorem answered_empty {pred : Predicate} (h : pred.kind.limited = true → engine.compiles pred.value = true) :
    Answered engine [] pred := by
  refine ⟨?_, ?_⟩
  · rintro ⟨hkind, hbroken⟩
    rw [h hkind] at hbroken
    cases hbroken
  · rintro - ⟨line, hline, -⟩
    cases hline

/-- On an empty content nothing is found. -/
theorem Registered.placed_empty {preds : List Predicate}
    (hcompiles : ∀ pred ∈ preds, registered.limited pred.kind = true → engine.compiles pred.value = true)
    (hparsed : registered = .parsed → Structural preds → ParsedAlike parser [] []) :
    Placed (registered.adapter engine casefold parser) [] preds 0 [] [] [] := by
  have hspliced : ∀ {adapter : LanguageAdapter} {whole : List Span}, Placed adapter [] preds 0 [] [] whole →
      Placed adapter [] preds 0 [] [] [] := by
    intro adapter whole hplaced
    obtain ⟨hfind, hbefore, hspliced⟩ := hplaced
    cases hspliced
    exact ⟨hfind, hbefore, .nil 0⟩
  have hmem : ∀ pred ∈ contentPreds preds, pred ∈ preds := fun pred hpred => (mem_filter.mp hpred).1
  cases registered with
  | lines adapter extension =>
    exact hspliced ((adapter.testsLines engine extension).placed ⟨rfl, by simp [CutsLines]⟩ fun pred hpred =>
      answered_empty (hcompiles pred (hmem pred hpred)))
  | masked inventory =>
    exact hspliced ((inventory.testsLines engine casefold).placed ⟨rfl, by simp [CutsLines]⟩ fun pred hpred =>
      answered_empty (hcompiles pred (hmem pred hpred)))
  | parsed =>
    have hanswered : ∀ pred ∈ contentPreds preds, pred.kind ∉ structuralKinds → Answered engine (plainLines []) pred :=
      fun pred hpred hkind => answered_empty fun hlimited =>
        hcompiles pred (hmem pred hpred) (decide_eq_true (regex_of_limited hlimited hkind))
    have hshown : ShownAlike plainLines [] [] := ⟨rfl, by simp [CutsLines]⟩
    by_cases hstructural : Structural preds
    · obtain ⟨whole, hplaced⟩ := (hparsed rfl hstructural).placed hshown hstructural hanswered
      exact hspliced hplaced
    · have hplaced := (pythonAdapter.testsLines engine ".py").placed hshown fun pred hpred => hanswered pred hpred
        fun hkind => hstructural ⟨pred, hpred, hkind⟩
      exact hspliced (hplaced.congr fun text => (astFind_plain hstructural text).symm)

theorem scoredBatches_nil : scoredBatches [] = [] := by
  simp [scoredBatches, streamBatches, complete, rest, cutBatches]

theorem Registered.placed_nothing {preds : List Predicate} (hstate : registered.KeepsState parser spec [])
    (hcompiles : ∀ pred ∈ preds, registered.limited pred.kind = true → engine.compiles pred.value = true)
    (hpreds : preds = driver spec.contentMust spec.should ∨ ∃ pred ∈ spec.mustNot ++ spec.should, preds = [pred]) :
    Placed (registered.adapter engine casefold parser) [] preds 0 [] [] [] := by
  refine registered.placed_empty hcompiles ?_
  rintro rfl hstructural
  unfold Registered.KeepsState at hstate
  rw [scoredBatches_nil] at hstate
  rcases hpreds with rfl | ⟨pred, hpred, rfl⟩
  · exact hstate.1 hstructural (by simp)
  · exact hstate.2 pred hpred hstructural

/-- A stream that neither fails nor complains gives the matches of the content in memory, in a streamable search. -/
theorem Registered.Streamable.run {scored : Scored} (hsafe : registered.Streamable engine parser spec content)
    (hwhole : spec.wholeFileMust = false)
    (hrun : scoreBatches (registered.adapter engine casefold parser) blob spec content = .ok scored)
    (hflag : scored.unavailable = false) :
    scoreInMemory (registered.adapter engine casefold parser) blob spec content = .ok (scored.outcome.1, false) := by
  by_cases hcontent : content = []
  · subst hcontent
    have hcompiles := hsafe.compiles rfl
    have hmain := @Registered.placed_nothing engine casefold parser registered spec _ hsafe.state
      (fun pred hpred => hcompiles pred (mem_append_right _ hpred)) (Or.inl rfl)
    have hnot : ∀ pred ∈ spec.mustNot,
        Placed (registered.adapter engine casefold parser) [] [pred] 0 [] [] [] := fun pred hpred =>
      Registered.placed_nothing hsafe.state (fun own hown => by
        rw [mem_singleton.mp hown]
        exact hcompiles pred (mem_append_left _ hpred)) (Or.inr ⟨pred, mem_append_left _ hpred, rfl⟩)
    have hbatches : ((streamBatches []).filter fun batch => decide (batch ≠ [])) = [] := scoredBatches_nil
    obtain ⟨scored', found, hrun', hmemory, houtcome⟩ :=
      @scoreBatches_places (registered.adapter engine casefold parser) [] blob spec [] hwhole registered.find_nil hsafe.single
        (by
          rw [hbatches]
          exact ⟨⟨[], hmain⟩, fun pred hpred _ => ⟨[], [], hnot pred hpred⟩, fun hne => absurd rfl hne⟩)
        hmain.find
        (fun pred hpred _ => ⟨[], (hnot pred hpred).find, by
          rw [hbatches]
          exact (hnot pred hpred).spliced⟩)
    rw [hrun] at hrun'
    cases hrun'
    rw [hmemory, houtcome]
  · refine scoreBatches_steady hwhole registered.find_nil hsafe.single hcontent (registered.steadyDriver hcontent hsafe.state)
      ?_ ?_ hrun hflag
    · intro pred hpred _
      have hmem := mem_append_left spec.should hpred
      exact registered.steady hmem hsafe.state (hsafe.short pred hmem)
    · intro pred hpred
      have hmem := mem_append_right spec.mustNot hpred
      exact registered.steady hmem hsafe.state (hsafe.short pred hmem)

def noParser : PythonParser where
  parse := fun _ => none
  classifies := fun _ => false

end

section

variable {text : Text}

end

end Leitir.Search
