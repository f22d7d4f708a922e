import Leitir.SearchSplice

namespace Leitir.Search

open ExceptRun List

def PredicateKind.limited : PredicateKind → Bool
  | .regex => true
  | .signature => true
  | _ => false

def Broken (engine : Engine) (pred : Predicate) : Prop := pred.kind.limited = true ∧ engine.compiles pred.value = false

instance (engine : Engine) (pred : Predicate) : Decidable (Broken engine pred) := inferInstanceAs (Decidable (_ ∧ _))

def Overlong (lines : List Text) : Prop := ∃ line ∈ lines, maxRegexLineLength < line.length

instance (lines : List Text) : Decidable (Overlong lines) := inferInstanceAs (Decidable (∃ line ∈ lines, _))

/-- The answer of an adapter that tests each line on its own. -/
def answerLines (engine : Engine) (test : Predicate → Text → Bool) (lines : List Text) (pred : Predicate) :
    Except MatchError (List Nat) :=
  if Broken engine pred then .error .badPattern
  else if pred.kind.limited = true ∧ Overlong lines then .error .budgetExceeded
  else .ok (hitLines (test pred) lines)

theorem hitLines_false (lines : List Text) : hitLines (fun _ => false) lines = [] := by
  simp [hitLines]

theorem boundedMatchingLines_eq {engine : Engine} {test : Predicate → Text → Bool} {extra : Text → Bool}
    {pred : Predicate} (lines : List Text) (hkind : pred.kind.limited = true)
    (htest : test pred = fun line => extra line && engine.search pred.value line) :
    boundedMatchingLines engine pred.value extra lines = answerLines engine test lines pred := by
  unfold boundedMatchingLines answerLines Broken Overlong
  simp only [hkind, true_and, htest, Bool.not_eq_true, any_eq_true, decide_eq_true_eq]

theorem answerLines_plain {engine : Engine} {test : Predicate → Text → Bool} {pred : Predicate} (lines : List Text)
    (hkind : pred.kind.limited = false) : answerLines engine test lines pred = .ok (hitLines (test pred) lines) := by
  unfold answerLines Broken
  simp [hkind]

def LineAdapter.test (adapter : LineAdapter) (engine : Engine) (pred : Predicate) (line : Text) : Bool :=
  match pred.kind with
  | .exactText => contains pred.value line
  | .regex => engine.search pred.value line
  | .identifier => engine.search (bounded pred.value) line
  | .tokenSequence => words pred.value ≠ [] && engine.search (sequencePattern pred.value) line
  | .symbolDefinition => adapter.definitionLine engine pred.value line
  | .symbolReference =>
    engine.search (bounded pred.value) line && !adapter.definitionLine engine pred.value line
  | .signature =>
    (adapter.signatureMarks.any fun mark => contains (chars mark) line) && engine.search pred.value line
  | .call => engine.search (adapter.callPattern (reEscape pred.value)) line
  | .importName => adapter.isImport pred.value line
  | .path => false

theorem LineAdapter.linesForPredicate_eq (adapter : LineAdapter) (engine : Engine) (lines : List Text) (pred : Predicate) :
    adapter.linesForPredicate engine lines pred = answerLines engine (adapter.test engine) lines pred := by
  unfold LineAdapter.linesForPredicate
  split
  case h_2 hkind =>
    refine boundedMatchingLines_eq lines (by rw [hkind]; rfl) ?_
    funext line
    simp [LineAdapter.test, hkind]
  case h_7 hkind =>
    refine boundedMatchingLines_eq lines (by rw [hkind]; rfl) ?_
    funext line
    simp [LineAdapter.test, hkind]
  case h_4 hkind =>
    rw [answerLines_plain lines (by rw [hkind]; rfl)]
    have htest : adapter.test engine pred = fun line =>
        decide (words pred.value ≠ []) && engine.search (sequencePattern pred.value) line := by
      funext line
      simp [LineAdapter.test, hkind]
    rw [htest]
    split
    next hwords => simp [hwords, hitLines_false]
    next hwords => simp [hwords]
  case h_10 hkind =>
    rw [answerLines_plain lines (by rw [hkind]; rfl)]
    have htest : adapter.test engine pred = fun _ => false := by
      funext line
      simp [LineAdapter.test, hkind]
    rw [htest, hitLines_false]
  all_goals
    rename_i hkind
    rw [answerLines_plain lines (by rw [hkind]; rfl)]
    refine congrArg (fun test => Except.ok (hitLines test lines)) ?_
    funext line
    simp [LineAdapter.test, hkind]

def RegexInventory.test (inventory : RegexInventory) (engine : Engine) (pred : Predicate) (line : Text) : Bool :=
  match pred.kind with
  | .exactText => contains pred.value line
  | .regex => engine.search pred.value line
  | .identifier => engine.search (bounded pred.value) line
  | .tokenSequence => words pred.value ≠ [] && engine.search (sequencePattern pred.value) line
  | .symbolDefinition => inventoryLine engine inventory.definitions pred.value line
  | .symbolReference =>
    inventoryLine engine inventory.references pred.value line &&
      !inventoryLine engine inventory.definitions pred.value line
  | .signature =>
    (inventory.definitions.any fun pattern => engine.search pattern line) && engine.search pred.value line
  | .call => inventoryLine engine inventory.calls pred.value line
  | .importName => contains pred.value line && inventory.imports.any fun pattern => engine.search pattern line
  | .path => false

theorem RegexInventory.linesForPredicate_eq (inventory : RegexInventory) (engine : Engine) (lines : List Text)
    (pred : Predicate) :
    inventory.linesForPredicate engine lines pred = answerLines engine (inventory.test engine) lines pred := by
  unfold RegexInventory.linesForPredicate
  split
  case h_2 hkind =>
    refine boundedMatchingLines_eq lines (by rw [hkind]; rfl) ?_
    funext line
    simp [RegexInventory.test, hkind]
  case h_7 hkind =>
    refine boundedMatchingLines_eq lines (by rw [hkind]; rfl) ?_
    funext line
    simp [RegexInventory.test, hkind]
  case h_4 hkind =>
    rw [answerLines_plain lines (by rw [hkind]; rfl)]
    have htest : inventory.test engine pred = fun line =>
        decide (words pred.value ≠ []) && engine.search (sequencePattern pred.value) line := by
      funext line
      simp [RegexInventory.test, hkind]
    rw [htest]
    split
    next hwords => simp [hwords, hitLines_false]
    next hwords => simp [hwords]
  case h_10 hkind =>
    rw [answerLines_plain lines (by rw [hkind]; rfl)]
    have htest : inventory.test engine pred = fun _ => false := by
      funext line
      simp [RegexInventory.test, hkind]
    rw [htest, hitLines_false]
  all_goals
    rename_i hkind
    rw [answerLines_plain lines (by rw [hkind]; rfl)]
    refine congrArg (fun test => Except.ok (hitLines test lines)) ?_
    funext line
    simp [RegexInventory.test, hkind]

section

variable {engine : Engine} {test : Predicate → Text → Bool} {lines : List Text} {preds : List Predicate}

def Answered (engine : Engine) (lines : List Text) (pred : Predicate) : Prop :=
  ¬ Broken engine pred ∧ (pred.kind.limited = true → ¬ Overlong lines)

theorem answerLines_answered {pred : Predicate} (h : Answered engine lines pred) :
    answerLines engine test lines pred = .ok (hitLines (test pred) lines) := by
  unfold answerLines
  rw [if_neg h.1, if_neg fun hlong => h.2 hlong.1 hlong.2]

def contentPreds (preds : List Predicate) : List Predicate := preds.filter fun pred => pred.kind ≠ .path

def testSpans (test : Predicate → Text → Bool) (preds : List Predicate) (lines : List Text) : List SpanMatch :=
  ((List.range lines.length).filter fun i => preds.all fun pred => test pred (lines.getD i [])).map fun i =>
    ⟨i + 1, i + 1, sortKinds (preds.map Predicate.kind), .heuristic⟩

theorem mem_hitLines_iff {test : Text → Bool} {i : Nat} (hi : i < lines.length) :
    i ∈ hitLines test lines ↔ test (lines.getD i []) = true := by
  unfold hitLines
  rw [mem_filter, mem_range]
  exact ⟨fun h => h.2, fun h => ⟨hi, h⟩⟩

theorem lineSpans_eq (preds : List Predicate) :
    lineSpans lines.length false ((preds.map Predicate.kind).zip (preds.map fun pred => hitLines (test pred) lines)) =
      testSpans test preds lines := by
  have hzip : (preds.map Predicate.kind).zip (preds.map fun pred => hitLines (test pred) lines) =
      preds.map fun pred => (pred.kind, hitLines (test pred) lines) := by
    rw [zip_map']
  have hhits : ∀ i < lines.length, ∀ pred : Predicate,
      decide (i ∈ hitLines (test pred) lines) = test pred (lines.getD i []) := by
    intro i hi pred
    rw [Bool.eq_iff_iff, decide_eq_true_eq, mem_hitLines_iff hi]
  unfold lineSpans testSpans
  rw [hzip]
  have hlines : ((List.range lines.length).filter fun i =>
      (preds.map fun pred => (pred.kind, hitLines (test pred) lines)).all fun entry => decide (i ∈ entry.2)) =
      (List.range lines.length).filter fun i => preds.all fun pred => test pred (lines.getD i []) := by
    refine filter_congr ?_
    intro i hi
    rw [all_map]
    refine congrArg preds.all ?_
    funext pred
    exact hhits i (mem_range.mp hi) pred
  simp only [Bool.false_eq_true, if_false]
  rw [hlines]
  refine map_congr_left ?_
  intro i hi
  obtain ⟨hrange, hall⟩ := mem_filter.mp hi
  have hfilter : ((preds.map fun pred => (pred.kind, hitLines (test pred) lines)).filter fun entry => decide (i ∈ entry.2)) =
      preds.map fun pred => (pred.kind, hitLines (test pred) lines) := by
    rw [filter_eq_self]
    intro entry hentry
    obtain ⟨pred, hpred, rfl⟩ := mem_map.mp hentry
    exact (hhits i (mem_range.mp hrange) pred).trans (all_eq_true.mp hall pred hpred)
  rw [hfilter, map_map]
  rfl

theorem testSpans_nil {pred : Predicate} (hpred : pred ∈ preds) (h : hitLines (test pred) lines = []) :
    testSpans test preds lines = [] := by
  unfold testSpans
  rw [map_eq_nil_iff, filter_eq_nil_iff]
  intro i hi hall
  have htest := all_eq_true.mp hall pred hpred
  have hmem := (mem_hitLines_iff (mem_range.mp hi)).mpr htest
  rw [h] at hmem
  cases hmem

theorem findSpans_answered (hne : contentPreds preds ≠ []) (h : ∀ pred ∈ contentPreds preds, Answered engine lines pred) :
    findSpans (answerLines engine test lines) lines.length preds false = .ok (testSpans test (contentPreds preds) lines) := by
  have hmap : (contentPreds preds).mapM (answerLines engine test lines) =
      .ok ((contentPreds preds).map fun pred => hitLines (test pred) lines) :=
    mapM_ok_map fun pred hpred => answerLines_answered (h pred hpred)
  unfold contentPreds at hmap hne
  unfold findSpans
  dsimp only
  rw [if_neg hne, hmap]
  simp only [bind, Except.bind]
  rw [← lineSpans_eq]
  unfold contentPreds
  split
  next hany =>
    obtain ⟨hits, hhits, hnil⟩ := any_eq_true.mp hany
    obtain ⟨pred, hpred, rfl⟩ := mem_map.mp hhits
    rw [lineSpans_eq, testSpans_nil hpred (by simpa using hnil)]
    rfl
  next => rfl

def toSpan (span : SpanMatch) : Span := { span with }

def shownSpans (test : Predicate → Text → Bool) (preds : List Predicate) (lines : List Text) : List Span :=
  if contentPreds preds = [] then [] else (testSpans test (contentPreds preds) lines).map toSpan

theorem catchBudget_answered (h : ∀ pred ∈ contentPreds preds, Answered engine lines pred) :
    catchBudget (findSpans (answerLines engine test lines) lines.length preds false) =
      .ok ⟨shownSpans test preds lines, false⟩ := by
  unfold shownSpans
  by_cases hnil : contentPreds preds = []
  · rw [if_pos hnil]
    unfold contentPreds at hnil
    unfold findSpans
    dsimp only
    rw [if_pos hnil]
    rfl
  · rw [if_neg hnil, findSpans_answered hnil h]
    rfl

theorem testSpans_append (preds : List Predicate) (lines more : List Text) :
    testSpans test preds (lines ++ more) = testSpans test preds lines ++
      (testSpans test preds more).map fun span =>
        { span with startLine := span.startLine + lines.length, endLine := span.endLine + lines.length } := by
  unfold testSpans
  rw [length_append, range_add, filter_append, map_append]
  congr 1
  · refine congrArg _ (filter_congr ?_)
    intro i hi
    rw [getD_append _ _ _ _ (mem_range.mp hi)]
  · rw [filter_map, map_map, map_map]
    have hfilter : ((List.range more.length).filter
        ((fun i => preds.all fun pred => test pred ((lines ++ more).getD i [])) ∘ fun i => lines.length + i)) =
        (List.range more.length).filter fun i => preds.all fun pred => test pred (more.getD i []) := by
      refine filter_congr ?_
      intro i _
      simp only [Function.comp]
      rw [getD_append_right _ _ _ _ (by omega), Nat.add_sub_cancel_left]
    rw [hfilter]
    refine map_congr_left ?_
    intro i _
    simp only [Function.comp, SpanMatch.mk.injEq, and_true]
    omega

theorem shownSpans_append (preds : List Predicate) (lines more : List Text) :
    shownSpans test preds (lines ++ more) =
      shownSpans test preds lines ++ (shownSpans test preds more).map fun span => span.shift lines.length := by
  unfold shownSpans
  split
  next => rfl
  next =>
    rw [testSpans_append, map_append, map_map, map_map]
    rfl

theorem shownSpans_lineByLine (preds : List Predicate) (lines : List Text) : LineByLine (shownSpans test preds lines) := by
  unfold shownSpans
  split
  next => exact ⟨by simp, List.Pairwise.nil⟩
  next =>
    unfold testSpans
    rw [map_map]
    constructor
    · intro span hspan
      obtain ⟨i, -, rfl⟩ := mem_map.mp hspan
      exact ⟨Nat.le_add_left 1 i, rfl⟩
    · rw [pairwise_map]
      refine List.Pairwise.imp ?_ (List.Pairwise.filter _ pairwise_lt_range)
      intro i j hij
      simp only [Function.comp, toSpan]
      omega

theorem shownSpans_bound {span : Span} (h : span ∈ shownSpans test preds lines) : span.startLine ≤ lines.length := by
  unfold shownSpans at h
  split at h
  next => simp at h
  next =>
    unfold testSpans at h
    rw [map_map] at h
    obtain ⟨i, hi, rfl⟩ := mem_map.mp h
    have := mem_range.mp (mem_filter.mp hi).1
    simp only [Function.comp, toSpan]
    omega

end

end Leitir.Search
