import Leitir.SearchLines

namespace Leitir.Search

open List

section

variable {engine : Engine} {test : Predicate → Text → Bool} {show_ : Text → List Text} {adapter : LanguageAdapter}

def TestsLines (adapter : LanguageAdapter) (engine : Engine) (test : Predicate → Text → Bool) (show_ : Text → List Text) :
    Prop :=
  ∀ content preds, adapter.findMatchesEx content preds false =
    catchBudget (findSpans (answerLines engine test (show_ content)) (show_ content).length preds false)

theorem LineAdapter.testsLines (adapter : LineAdapter) (engine : Engine) (extension : String) :
    TestsLines (adapter.toLanguage engine extension) engine (adapter.test engine)
      (fun content => contentLines content content) := by
  intro content preds
  have h : adapter.linesForPredicate engine (contentLines content content) =
      answerLines engine (adapter.test engine) (contentLines content content) :=
    funext fun pred => adapter.linesForPredicate_eq engine _ pred
  rw [← h]
  rfl

theorem RegexInventory.testsLines (inventory : RegexInventory) (engine : Engine) (casefold : Text → Text) :
    TestsLines (inventory.toLanguage engine casefold) engine (inventory.test engine)
      (fun content => contentLines (maskCommentsAndStrings content) content) := by
  intro content preds
  have h : inventory.linesForPredicate engine (contentLines (maskCommentsAndStrings content) content) =
      answerLines engine (inventory.test engine) (contentLines (maskCommentsAndStrings content) content) :=
    funext fun pred => inventory.linesForPredicate_eq engine _ pred
  rw [← h]
  rfl

variable {preds : List Predicate}

theorem TestsLines.find (htests : TestsLines adapter engine test show_) {content : Text}
    (h : ∀ pred ∈ contentPreds preds, Answered engine (show_ content) pred) :
    adapter.findMatchesEx content preds false = .ok ⟨shownSpans test preds (show_ content), false⟩ := by
  rw [htests, catchBudget_answered h]

theorem TestsLines.find_nil (htests : TestsLines adapter engine test show_) (content : Text) :
    adapter.findMatchesEx content [] false = .ok ⟨[], false⟩ := by
  rw [htests.find (by simp [contentPreds])]
  rfl

def CutsLines (show_ : Text → List Text) (batches : List Text) : Prop :=
  ∀ batch ∈ batches.dropLast, (show_ batch).length = batch.count 10

theorem Answered.mono {lines lines' : List Text} {pred : Predicate} (h : Answered engine lines pred)
    (hsub : ∀ line ∈ lines', line ∈ lines) : Answered engine lines' pred := by
  refine ⟨h.1, ?_⟩
  rintro hkind ⟨line, hline, hlong⟩
  exact h.2 hkind ⟨line, hsub line hline, hlong⟩

theorem shift_shift (spans : List Span) (a b : Nat) :
    (spans.map fun span => span.shift a).map (fun span => span.shift b) = spans.map fun span => span.shift (b + a) := by
  rw [map_map]
  refine map_congr_left ?_
  intro span _
  simp only [Function.comp, Span.shift, Span.mk.injEq, SpanMatch.mk.injEq, and_true]
  omega

/-- The answer on the lines of all parts is spliced from the answers on the parts. -/
theorem TestsLines.spliced (htests : TestsLines adapter engine test show_) {batches : List Text}
    (hcuts : CutsLines show_ batches)
    (h : ∀ pred ∈ contentPreds preds, Answered engine (batches.flatMap show_) pred) (offset : Nat) :
    Spliced adapter preds offset batches
      ((shownSpans test preds (batches.flatMap show_)).map fun span => span.shift offset) := by
  induction batches generalizing offset with
  | nil =>
    have hnil : shownSpans test preds [] = [] := by
      unfold shownSpans
      split
      next => rfl
      next => rfl
    rw [flatMap_nil, hnil]
    exact .nil offset
  | cons batch rest ih =>
    have hown : ∀ pred ∈ contentPreds preds, Answered engine (show_ batch) pred := fun pred hpred =>
      (h pred hpred).mono fun line hline => by
        rw [flatMap_cons]
        exact mem_append_left _ hline
    have hothers : ∀ pred ∈ contentPreds preds, Answered engine (rest.flatMap show_) pred := fun pred hpred =>
      (h pred hpred).mono fun line hline => by
        rw [flatMap_cons]
        exact mem_append_right _ hline
    rw [flatMap_cons, shownSpans_append, map_append, shift_shift]
    by_cases hnil : rest = []
    · subst hnil
      have hempty : shownSpans test preds ([].flatMap show_) = [] := by
        unfold shownSpans
        split
        next => rfl
        next => rfl
      rw [hempty]
      exact .cons (htests.find hown) (shownSpans_lineByLine _ _) (fun hne => absurd rfl hne) (.nil _)
    · have hbatch : batch ∈ (batch :: rest).dropLast := by
        rw [dropLast_cons_of_ne_nil hnil]
        exact mem_cons_self
      have hcount := hcuts batch hbatch
      have hrest : CutsLines show_ rest := by
        intro other hother
        refine hcuts other ?_
        rw [dropLast_cons_of_ne_nil hnil]
        exact mem_cons_of_mem _ hother
      have hspliced := ih hrest hothers (offset + batch.count 10)
      rw [hcount]
      refine .cons (htests.find hown) (shownSpans_lineByLine _ _) ?_ hspliced
      intro _ span hspan
      rw [← hcount]
      exact shownSpans_bound hspan

/-- What a content and its batches must have in common. -/
structure ShownAlike (show_ : Text → List Text) (content : Text) (batches : List Text) : Prop where
  lines : show_ content = batches.flatMap show_
  cuts : CutsLines show_ batches

variable {content : Text} {blob : Blob} {spec : SearchSpec}

theorem TestsLines.placed (htests : TestsLines adapter engine test show_) {batches : List Text}
    (hshown : ShownAlike show_ content batches)
    (h : ∀ pred ∈ contentPreds preds, Answered engine (show_ content) pred) :
    Placed adapter content preds 0 batches [] (shownSpans test preds (show_ content)) := by
  have hspliced := htests.spliced hshown.cuts (by rw [← hshown.lines]; exact h) 0
  have hzero : ∀ spans : List Span, (spans.map fun span => span.shift 0) = spans := by
    intro spans
    exact map_id' spans
  rw [← hshown.lines, hzero] at hspliced
  exact ⟨htests.find h, by simp, hspliced⟩

theorem contentPreds_single {pred own : Predicate} (h : own ∈ contentPreds [pred]) : own = pred ∧ pred.kind ≠ .path := by
  unfold contentPreds at h
  obtain ⟨hmem, hkind⟩ := mem_filter.mp h
  have heq := mem_singleton.mp hmem
  subst heq
  exact ⟨rfl, by simpa using hkind⟩

/-- An adapter that tests lines gives the same matches in a stream and in memory, where the batches show the lines of
the content and every predicate that is asked for is answered. -/
theorem TestsLines.agree (htests : TestsLines adapter engine test show_) (hwhole : spec.wholeFileMust = false)
    (hdriver : spec.contentMust ≠ [] ∨ spec.should.length ≤ 1)
    (hshown : ShownAlike show_ content ((streamBatches content).filter fun batch => batch ≠ []))
    (hmain : ∀ pred ∈ contentPreds (driver spec.contentMust spec.should), Answered engine (show_ content) pred)
    (hnot : ∀ pred ∈ spec.mustNot, pred.kind ≠ .path → Answered engine (show_ content) pred)
    (hshould : shownSpans test (driver spec.contentMust spec.should) (show_ content) ≠ [] →
      ∀ pred ∈ spec.should, pred.kind ≠ .path → Answered engine (show_ content) pred) :
    ∃ scored found, scoreBatches adapter blob spec content = .ok scored ∧
      scoreInMemory adapter blob spec content = .ok (found, false) ∧ scored.outcome = (found, false, false) := by
  have hsingle : ∀ pred : Predicate, (pred.kind ≠ .path → Answered engine (show_ content) pred) →
      ∀ own ∈ contentPreds [pred], Answered engine (show_ content) own := by
    intro pred hpred own hown
    obtain ⟨rfl, hkind⟩ := contentPreds_single hown
    exact hpred hkind
  refine scoreBatches_places hwhole htests.find_nil hdriver ?_ (htests.find hmain) ?_
  · refine ⟨⟨[], htests.placed hshown hmain⟩, ?_, ?_⟩
    · intro pred hpred hkind
      exact ⟨_, _, htests.placed hshown (hsingle pred fun _ => hnot pred hpred hkind)⟩
    · intro hsome pred hpred
      exact ⟨_, _, htests.placed hshown (hsingle pred (hshould hsome pred hpred))⟩
  · intro pred hpred hkind
    have hplaced := htests.placed hshown (hsingle pred fun _ => hnot pred hpred hkind)
    exact ⟨_, hplaced.find, hplaced.spliced⟩

end

section

variable {shown : Text}

theorem contentLines_subset {content line : Text} (h : line ∈ contentLines shown content) : line ∈ shown.splitOn 10 := by
  unfold contentLines at h
  dsimp only at h
  split at h
  next => exact dropLast_subset _ h
  next => exact h

def EndsLine (text : Text) : Prop := LineCut.rest 10 text = []

theorem contentLines_eq {content : Text} (h : LineCut.rest 10 shown = [] ↔ LineCut.rest 10 content = []) :
    contentLines shown content = LineCut.complete 10 shown ++
      if LineCut.rest 10 shown = [] then [] else [LineCut.rest 10 shown] := by
  have hsplit := @LineCut.splitOn_eq _ 10 _ shown
  have hcontent := @LineCut.rest_eq_nil_iff _ 10 _ content
  unfold contentLines
  rw [hsplit]
  simp only [getLast?_append, getLast?_singleton, Option.some_or, Option.some.injEq, dropLast_concat]
  by_cases hnil : LineCut.rest 10 shown = []
  · rw [if_pos ⟨hnil, hcontent.mp (h.mp hnil)⟩, if_pos hnil, append_nil]
  · rw [if_neg fun hboth => hnil hboth.1, if_neg hnil]

theorem EndsLine.eq {text : Text} (h : EndsLine text) : LineCut.rest 10 text = [] := h

theorem EndsLine.cut_append {text : Text} (h : EndsLine text) (more : Text) :
    LineCut.complete 10 (text ++ more) = LineCut.complete 10 text ++ LineCut.complete 10 more ∧
      LineCut.rest 10 (text ++ more) = LineCut.rest 10 more := by
  have hcut := @LineCut.cut_append _ 10 _ text more
  unfold EndsLine at h
  rw [h, nil_append] at hcut
  exact hcut

theorem contentLines_append {more content more' : Text} (hends : EndsLine shown) (hends' : EndsLine content)
    (hmore : LineCut.rest 10 more = [] ↔ LineCut.rest 10 more' = []) :
    contentLines (shown ++ more) (content ++ more') = contentLines shown content ++ contentLines more more' := by
  have hcut := hends.cut_append more
  have hcut' := hends'.cut_append more'
  rw [contentLines_eq (by rw [hcut.2, hcut'.2]; exact hmore), contentLines_eq hmore,
    contentLines_eq (iff_of_true hends hends'), hcut.1, hcut.2, hends.eq, if_pos rfl, append_nil, append_assoc]

theorem contentLines_length {content : Text} (hends : EndsLine shown) (hends' : EndsLine content) :
    (contentLines shown content).length = shown.count 10 := by
  rw [contentLines_eq (iff_of_true hends hends'), hends.eq, if_pos rfl, append_nil, LineCut.length_complete]

theorem cutBatches_ends (lines : List Text) (batch : Text) : ∀ flushed ∈ (cutBatches lines batch).1, EndsLine flushed := by
  induction lines generalizing batch with
  | nil => simp [cutBatches]
  | cons line lines ih =>
    rw [cutBatches]
    split
    next =>
      intro flushed hflushed
      rcases mem_cons.mp hflushed with rfl | hflushed
      · exact (LineCut.rest_eq_nil_iff _).mpr (Or.inr (by simp))
      · exact ih [] flushed hflushed
    next => exact ih _

theorem streamBatches_ends (content : Text) :
    ∀ batch ∈ ((streamBatches content).filter fun batch => batch ≠ []).dropLast, EndsLine batch := by
  intro batch hbatch
  have hflushed := cutBatches_ends (LineCut.complete 10 content) []
  unfold streamBatches at hbatch
  rw [filter_append] at hbatch
  have hmem : batch ∈ (cutBatches (LineCut.complete 10 content) []).1 := by
    by_cases hlast : (cutBatches (LineCut.complete 10 content) []).2 ++ LineCut.rest 10 content = []
    · rw [filter_cons_of_neg (by simpa using hlast), filter_nil, append_nil] at hbatch
      exact (mem_filter.mp (dropLast_subset _ hbatch)).1
    · have hkeep : decide ((cutBatches (LineCut.complete 10 content) []).2 ++ LineCut.rest 10 content ≠ []) = true :=
        decide_eq_true hlast
      rw [filter_cons, if_pos hkeep, filter_nil, dropLast_concat] at hbatch
      exact (mem_filter.mp hbatch).1
  exact hflushed batch hmem

theorem filter_flatten (batches : List Text) : (batches.filter fun batch => batch ≠ []).flatten = batches.flatten := by
  induction batches with
  | nil => rfl
  | cons batch rest ih =>
    by_cases hbatch : batch = []
    · rw [filter_cons_of_neg (by simpa using hbatch), flatten_cons, hbatch, nil_append, ih]
    · rw [filter_cons_of_pos (by simpa using hbatch), flatten_cons, flatten_cons, ih]

/-- How a whole content is shown, from how its parts are. -/
theorem shownAlike_of_append {mask : Text → Text} {batches : List Text} (hbreaks : ∀ text, (mask text).count 10 = text.count 10)
    (hends : ∀ text, EndsLine (mask text) ↔ EndsLine text)
    (happend : ∀ batch ∈ batches.dropLast, ∀ more, mask (batch ++ more) = mask batch ++ mask more)
    (hcut : ∀ batch ∈ batches.dropLast, EndsLine batch) (hnil : mask [] = []) :
    ShownAlike (fun text => contentLines (mask text) text) batches.flatten batches := by
  constructor
  · induction batches with
    | nil => simp [hnil, contentLines]
    | cons batch rest ih =>
      by_cases hrest : rest = []
      · subst hrest
        simp
      · rw [dropLast_cons_of_ne_nil hrest] at happend hcut
        have hbatch := hcut batch mem_cons_self
        rw [flatten_cons, flatMap_cons]
        rw [happend batch mem_cons_self, contentLines_append ((hends batch).mpr hbatch) hbatch (hends _)]
        rw [← ih (fun other h => happend other (mem_cons_of_mem _ h)) fun other h => hcut other (mem_cons_of_mem _ h)]
  · intro batch hbatch
    have hbatch' := hcut batch hbatch
    dsimp only
    rw [contentLines_length ((hends batch).mpr hbatch') hbatch', hbreaks]

theorem shownAlike_plain (content : Text) :
    ShownAlike (fun text => contentLines text text) content ((streamBatches content).filter fun batch => batch ≠ []) := by
  have h := @shownAlike_of_append id ((streamBatches content).filter fun batch => batch ≠ []) (fun _ => rfl)
    (fun _ => Iff.rfl) (fun _ _ _ => rfl) (streamBatches_ends content) rfl
  rw [filter_flatten, streamBatches_flatten] at h
  exact h

end

end Leitir.Search
