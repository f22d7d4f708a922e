import Leitir.SearchServed

namespace Leitir.Search

open ExceptRun List

section

variable {engine : Engine} {test : Predicate → Text → Bool} {lines : List Text} {preds : List Predicate} {wholeFile : Bool}

def Halts (engine : Engine) (lines : List Text) (items : List Predicate) : Prop :=
  ∃ before pred after, items = before ++ pred :: after ∧ Broken engine pred ∧
    (Overlong lines → ∀ earlier ∈ before, earlier.kind.limited = false)

theorem not_halts_nil : ¬ Halts engine lines [] := by
  rintro ⟨before, pred, after, hsplit, -⟩
  simp at hsplit

theorem halts_cons {pred : Predicate} {rest : List Predicate} :
    Halts engine lines (pred :: rest) ↔
      Broken engine pred ∨ (Overlong lines → pred.kind.limited = false) ∧ Halts engine lines rest := by
  constructor
  · rintro ⟨before, own, after, hsplit, hbroken, hearlier⟩
    cases before with
    | nil =>
      cases hsplit
      exact Or.inl hbroken
    | cons other before =>
      cases hsplit
      refine Or.inr ⟨fun hlong => hearlier hlong pred mem_cons_self, before, own, after, rfl, hbroken, ?_⟩
      exact fun hlong earlier hmem => hearlier hlong earlier (mem_cons_of_mem _ hmem)
  · rintro (hbroken | ⟨hlimited, before, own, after, rfl, hbroken, hearlier⟩)
    · exact ⟨[], pred, rest, rfl, hbroken, by simp⟩
    · refine ⟨pred :: before, own, after, rfl, hbroken, ?_⟩
      exact fun hlong => forall_mem_cons.mpr ⟨hlimited hlong, hearlier hlong⟩

theorem mapM_answerLines_bad (items : List Predicate) :
    items.mapM (answerLines engine test lines) = .error .badPattern ↔ Halts engine lines items := by
  induction items with
  | nil => exact ⟨nofun, fun h => absurd h not_halts_nil⟩
  | cons pred rest ih =>
    rw [halts_cons, ← ih, mapM_cons]
    by_cases hbroken : Broken engine pred
    · have hown : answerLines engine test lines pred = .error .badPattern := if_pos hbroken
      rw [hown]
      exact ⟨fun _ => Or.inl hbroken, fun _ => rfl⟩
    by_cases hlong : pred.kind.limited = true ∧ Overlong lines
    · have hown : answerLines engine test lines pred = .error .budgetExceeded := by
        unfold answerLines
        rw [if_neg hbroken, if_pos hlong]
      rw [hown]
      refine ⟨nofun, ?_⟩
      rintro (hself | ⟨hlimited, -⟩)
      · exact absurd hself hbroken
      · rw [hlimited hlong.2] at hlong
        exact absurd hlong.1 Bool.false_ne_true
    · have hown : answerLines engine test lines pred = .ok (hitLines (test pred) lines) :=
        answerLines_answered ⟨hbroken, fun hkind hover => hlong ⟨hkind, hover⟩⟩
      have hlimited : Overlong lines → pred.kind.limited = false := fun hover =>
        eq_false_of_ne_true fun hkind => hlong ⟨hkind, hover⟩
      rw [bind_eq hown]
      cases hrest : rest.mapM (answerLines engine test lines) with
      | error err =>
        constructor
        · exact fun h => Or.inr ⟨hlimited, h⟩
        · rintro (hself | ⟨-, h⟩)
          · exact absurd hself hbroken
          · exact h
      | ok hits =>
        refine ⟨nofun, ?_⟩
        rintro (hself | ⟨-, h⟩)
        · exact absurd hself hbroken
        · cases h

theorem findSpans_bad {count : Nat} : findSpans (answerLines engine test lines) count preds wholeFile = .error .badPattern ↔
    Halts engine lines (contentPreds preds) := by
  rw [← mapM_answerLines_bad]
  unfold findSpans contentPreds
  dsimp only
  split
  next hnil =>
    rw [hnil]
    exact ⟨nofun, nofun⟩
  next =>
    cases hmap : (preds.filter fun pred => decide (pred.kind ≠ .path)).mapM (answerLines engine test lines) with
    | error err =>
      constructor
      · intro h
        cases h
        rfl
      · intro h
        cases h
        rfl
    | ok hits =>
      refine ⟨?_, nofun⟩
      intro h
      change (if _ then pure [] else pure _) = _ at h
      split at h
      next => cases h
      next => cases h

theorem catchBudget_total {found : Except MatchError (List SpanMatch)} :
    (∃ result, catchBudget found = .ok result) ↔ found ≠ .error .badPattern := by
  unfold catchBudget
  split
  next => simp
  next => simp
  next => simp

end

section

variable {engine : Engine} {casefold : Text → Text} {parser : PythonParser} {content : Text} {preds : List Predicate}
  {wholeFile : Bool}

theorem LineAdapter.asked_iff (adapter : LineAdapter) (extension : String) :
    Asked (adapter.toLanguage engine extension) content preds wholeFile ↔
      ¬ Halts engine (plainLines content) (contentPreds preds) := by
  have hlines : adapter.linesForPredicate engine (plainLines content) =
      answerLines engine (adapter.test engine) (plainLines content) :=
    funext fun pred => adapter.linesForPredicate_eq engine _ pred
  unfold Asked
  change (∃ result, catchBudget (findSpans (adapter.linesForPredicate engine (plainLines content)) _ preds wholeFile) =
    .ok result) ↔ _
  rw [catchBudget_total, hlines, ne_eq, findSpans_bad]

theorem RegexInventory.asked_iff (inventory : RegexInventory) :
    Asked (inventory.toLanguage engine casefold) content preds wholeFile ↔
      ¬ Halts engine (contentLines (maskCommentsAndStrings content) content) (contentPreds preds) := by
  have hlines : inventory.linesForPredicate engine (contentLines (maskCommentsAndStrings content) content) =
      answerLines engine (inventory.test engine) (contentLines (maskCommentsAndStrings content) content) :=
    funext fun pred => inventory.linesForPredicate_eq engine _ pred
  unfold Asked
  change (∃ result, catchBudget (findSpans (inventory.linesForPredicate engine
    (contentLines (maskCommentsAndStrings content) content)) _ preds wholeFile) = .ok result) ↔ _
  rw [catchBudget_total, hlines, ne_eq, findSpans_bad]

def RegexesCompile (engine : Engine) (preds : List Predicate) : Prop :=
  ∀ pred ∈ preds, pred.kind = .regex → engine.compiles pred.value = true

variable {pred : Predicate}

theorem broken_signature (hregex : RegexesCompile engine preds) (hpred : pred ∈ preds)
    (h : Broken engine pred) : pred.kind = .signature := by
  obtain ⟨hlimited, hcompiles⟩ := h
  cases hkind : pred.kind with
  | signature => rfl
  | regex =>
    rw [hregex pred hpred hkind] at hcompiles
    cases hcompiles
  | _ =>
    rw [hkind] at hlimited
    cases hlimited

theorem mem_contentPreds (h : pred ∈ contentPreds preds) : pred ∈ preds := (mem_filter.mp h).1

theorem astHits_total {nodes : List AstNode} {lines : List Text} (hregex : RegexesCompile engine preds)
    (hpred : pred ∈ preds) : ∃ item, astHits engine nodes lines pred = .ok item := by
  unfold astHits
  split
  next => exact ⟨_, rfl⟩
  next hplain =>
    have hsound : ¬ Broken engine pred := by
      intro hbroken
      rw [broken_signature hregex hpred hbroken] at hplain
      exact hplain (by decide)
    rw [pythonAdapter.linesForPredicate_eq]
    unfold answerLines
    rw [if_neg hsound]
    split
    next => exact ⟨_, rfl⟩
    next => exact ⟨_, rfl⟩
    next h =>
      split at h
      next => cases h
      next => cases h

theorem astFind_asked_iff (hregex : RegexesCompile engine preds) :
    Asked (pythonAstAdapter engine parser) content preds wholeFile ↔
      ¬ (parser.parse content = none ∧ Halts engine (plainLines content) (contentPreds preds)) := by
  have hplain : Asked (pythonAdapter.toLanguage engine ".py") content preds wholeFile ↔
      ¬ Halts engine (plainLines content) (contentPreds preds) := pythonAdapter.asked_iff ".py"
  change (∃ result, astFindMatchesEx engine parser content preds wholeFile = .ok result) ↔ _
  unfold astFindMatchesEx
  dsimp only
  split
  next hnil =>
    refine ⟨?_, fun _ => ⟨_, rfl⟩⟩
    rintro - ⟨-, hhalts⟩
    unfold contentPreds at hhalts
    rw [hnil] at hhalts
    exact not_halts_nil hhalts
  next =>
    split
    next hall =>
      have hnone : ¬ Halts engine (plainLines content) (contentPreds preds) := by
        rintro ⟨before, pred, after, hsplit, hbroken, -⟩
        have hmem : pred ∈ contentPreds preds := by
          rw [hsplit]
          simp
        have hkind := all_eq_true.mp hall pred hmem
        rw [broken_signature hregex (mem_contentPreds hmem) hbroken] at hkind
        exact absurd hkind (by decide)
      exact ⟨fun _ h => hnone h.2, fun _ => hplain.mpr hnone⟩
    next =>
      split
      next hparse =>
        simp only [hparse, true_and]
        rw [← hplain]
        constructor
        · rintro ⟨result, h⟩
          obtain ⟨own, hown, -⟩ := map_ok h
          exact ⟨own, hown⟩
        · rintro ⟨own, hown⟩
          rw [hown]
          exact ⟨_, rfl⟩
      next nodes hparse =>
        have hsome : parser.parse content ≠ none := by simp [hparse]
        refine ⟨fun _ h => hsome h.1, fun _ => ?_⟩
        obtain ⟨hits, hhits⟩ : ∃ hits, (preds.filter fun pred => decide (pred.kind ≠ .path)).mapM
            (astHits engine nodes (contentLines content content)) = .ok hits :=
          mapM_ok_of_mem fun pred hpred => astHits_total hregex (mem_contentPreds hpred)
        rw [bind_eq hhits]
        split
        next => exact ⟨_, rfl⟩
        next => exact ⟨_, rfl⟩

def Registered.Halts (registered : Registered) (engine : Engine) (parser : PythonParser) (content : Text)
    (preds : List Predicate) : Prop :=
  (registered = .parsed → parser.parse content = none) ∧
    Search.Halts engine (registered.shown content) (contentPreds preds)

theorem Registered.asked_iff (registered : Registered) (hregex : RegexesCompile engine preds) :
    Asked (registered.adapter engine casefold parser) content preds wholeFile ↔
      ¬ registered.Halts engine parser content preds := by
  unfold Registered.Halts
  cases registered with
  | lines adapter extension =>
    simp only [reduceCtorEq, false_implies, true_and]
    exact adapter.asked_iff extension
  | masked inventory =>
    simp only [reduceCtorEq, false_implies, true_and]
    exact inventory.asked_iff
  | parsed =>
    simp only [forall_const]
    exact astFind_asked_iff hregex

end

section

variable {engine : Engine} {casefold : Text → Text} {parser : PythonParser} {content : Text}

theorem lineSpans_oneALine (count : Nat) (wholeFile : Bool) (evidence : List (PredicateKind × List Nat)) :
    OneALine ((lineSpans count wholeFile evidence).map toSpan) := by
  unfold lineSpans
  rw [map_map]
  refine ⟨?_, ?_⟩
  · intro span hspan
    obtain ⟨i, -, rfl⟩ := mem_map.mp hspan
    rfl
  · rw [pairwise_map]
    refine List.Pairwise.imp ?_ (nodup_range.filter _)
    intro i j hne heq
    exact hne (Nat.succ_injective heq)

theorem findSpans_oneALine {hitsFor : Predicate → Except MatchError (List Nat)} {count : Nat} {preds : List Predicate}
    {wholeFile : Bool} {result : AdapterMatchResult}
    (h : catchBudget (findSpans hitsFor count preds wholeFile) = .ok result) : OneALine result.spans := by
  have hnil : OneALine [] := ⟨by simp, List.Pairwise.nil⟩
  by_cases hsome : result.spans = []
  · rw [hsome]
    exact hnil
  obtain ⟨spans, hspans, -, rfl⟩ := catchBudget_ok h hsome
  unfold findSpans at hspans
  dsimp only at hspans
  split at hspans
  next =>
    cases hspans
    exact hnil
  next =>
    obtain ⟨hits, -, hspans⟩ := bind_ok hspans
    split at hspans
    next =>
      cases hspans
      exact hnil
    next =>
      cases hspans
      exact lineSpans_oneALine _ _ _

theorem astSpans_oneALine (hits : List AstHits) (wholeFile : Bool) : OneALine (astSpans hits wholeFile) := by
  unfold astSpans
  refine ⟨?_, ?_⟩
  · intro span hspan
    obtain ⟨line, -, rfl⟩ := mem_map.mp hspan
    rfl
  · rw [pairwise_map]
    exact List.Nodup.filter _ ((perm_insertionSort _ _).nodup_iff.mpr (nodup_dedup _))

theorem astFind_oneALine {preds : List Predicate} {wholeFile : Bool} {result : AdapterMatchResult}
    (h : astFindMatchesEx engine parser content preds wholeFile = .ok result) : OneALine result.spans := by
  have hnil : OneALine [] := ⟨by simp, List.Pairwise.nil⟩
  unfold astFindMatchesEx at h
  dsimp only at h
  split at h
  next =>
    cases h
    exact hnil
  next =>
    split at h
    next => exact findSpans_oneALine h
    next =>
      split at h
      next =>
        obtain ⟨own, hown, rfl⟩ := map_ok h
        have hlines : OneALine own.spans := findSpans_oneALine hown
        exact hlines
      next =>
        obtain ⟨hits, -, h⟩ := bind_ok h
        split at h
        next =>
          cases h
          exact hnil
        next =>
          cases h
          exact astSpans_oneALine hits wholeFile

theorem Registered.lined (registered : Registered) : Lined (registered.adapter engine casefold parser) content := by
  cases registered with
  | lines adapter extension => exact ⟨fun _ => rfl, fun _ _ _ h => findSpans_oneALine h⟩
  | masked inventory => exact ⟨fun _ => rfl, fun _ _ _ h => findSpans_oneALine h⟩
  | parsed => exact ⟨fun _ => rfl, fun _ _ _ h => astFind_oneALine h⟩

end

section

variable {engine : Engine} {casefold : Text → Text} {parser : PythonParser} {content : Text} {spec : SearchSpec}

/-- What an adapter needs to search a content: no pattern ends the search, and without required predicates on the content
the optional ones agree on each line. -/
structure Registered.Serves (registered : Registered) (engine : Engine) (casefold : Text → Text) (parser : PythonParser)
    (content : Text) (spec : SearchSpec) : Prop where
  mustNot : ∀ before pred after, contentPreds spec.mustNot = before ++ pred :: after →
    (∀ earlier ∈ before, ¬ Found (registered.adapter engine casefold parser) content earlier) →
      ¬ registered.Halts engine parser content [pred]
  must : Admits (registered.adapter engine casefold parser) content spec.mustNot →
    ¬ registered.Halts engine parser content spec.contentMust
  should : Admits (registered.adapter engine casefold parser) content spec.mustNot →
    spec.contentMust = [] ∨ Held (registered.adapter engine casefold parser) content spec.contentMust spec.wholeFileMust →
      ∀ pred ∈ spec.should, ¬ registered.Halts engine parser content [pred]
  agreeing : Admits (registered.adapter engine casefold parser) content spec.mustNot → spec.contentMust = [] →
    Agreeing (registered.adapter engine casefold parser) content spec.should

theorem RegexesCompile.single {pred : Predicate} {preds : List Predicate} (h : RegexesCompile engine preds)
    (hpred : pred ∈ preds) : RegexesCompile engine [pred] := by
  intro own hown
  rw [mem_singleton.mp hown]
  exact h pred hpred

theorem Registered.served_iff (registered : Registered)
    (hregex : RegexesCompile engine (spec.must ++ spec.should ++ spec.mustNot)) :
    Served (registered.adapter engine casefold parser) content spec ↔
      registered.Serves engine casefold parser content spec := by
  have hmustNot : ∀ pred ∈ contentPreds spec.mustNot,
      (Asked (registered.adapter engine casefold parser) content [pred] false ↔
        ¬ registered.Halts engine parser content [pred]) := fun pred hpred =>
    registered.asked_iff (hregex.single (mem_append_right _ (mem_contentPreds hpred)))
  have hshould : ∀ pred ∈ spec.should,
      (Asked (registered.adapter engine casefold parser) content [pred] false ↔
        ¬ registered.Halts engine parser content [pred]) := fun pred hpred =>
    registered.asked_iff (hregex.single (mem_append_left _ (mem_append_right _ hpred)))
  have hmust : Asked (registered.adapter engine casefold parser) content spec.contentMust spec.wholeFileMust ↔
      ¬ registered.Halts engine parser content spec.contentMust := by
    refine registered.asked_iff ?_
    intro pred hpred
    exact hregex pred (mem_append_left _ (mem_append_left _ (mem_filter.mp hpred).1))
  have hplace : ∀ before pred after, contentPreds spec.mustNot = before ++ pred :: after →
      pred ∈ contentPreds spec.mustNot := by
    intro before pred after hsplit
    rw [hsplit]
    simp
  constructor
  · intro h
    refine ⟨?_, ?_, ?_, h.agreeing⟩
    · intro before pred after hsplit hbefore
      exact (hmustNot pred (hplace before pred after hsplit)).mp (h.mustNot before pred after hsplit hbefore)
    · exact fun hadmits => hmust.mp (h.answerable hadmits).must
    · exact fun hadmits hheld pred hpred => (hshould pred hpred).mp ((h.answerable hadmits).should hheld pred hpred)
  · intro h
    refine ⟨?_, ?_, h.agreeing⟩
    · intro before pred after hsplit hbefore
      exact (hmustNot pred (hplace before pred after hsplit)).mpr (h.mustNot before pred after hsplit hbefore)
    · refine fun hadmits => ⟨hmust.mpr (h.must hadmits), ?_⟩
      exact fun hheld pred hpred => (hshould pred hpred).mpr (h.should hadmits hheld pred hpred)

end

end Leitir.Search
