import Leitir.SearchShown

namespace Leitir.Search

open ExceptRun List

section

variable {engine : Engine} {test : Predicate → Text → Bool} {adapter : LanguageAdapter} {text : Text}

def plainLines (text : Text) : List Text := contentLines text text

abbrev TestsPlain (adapter : LanguageAdapter) (engine : Engine) (test : Predicate → Text → Bool) : Prop :=
  TestsLines adapter engine test plainLines

theorem mapM_broken {lines : List Text} {preds : List Predicate} (hshort : ¬ Overlong lines)
    (h : ∃ pred ∈ preds, Broken engine pred) : preds.mapM (answerLines engine test lines) = .error .badPattern := by
  induction preds with
  | nil => simp at h
  | cons pred preds ih =>
    rw [mapM_cons]
    by_cases hown : Broken engine pred
    · have hanswer : answerLines engine test lines pred = .error .badPattern := by
        unfold answerLines
        rw [if_pos hown]
      rw [hanswer]
      rfl
    · have hrest : ∃ pred ∈ preds, Broken engine pred := by
        obtain ⟨other, hother, hbroken⟩ := h
        rcases mem_cons.mp hother with rfl | hother
        · exact absurd hbroken hown
        · exact ⟨other, hother, hbroken⟩
      rw [answerLines_answered ⟨hown, fun _ => hshort⟩, ih hrest]
      rfl

theorem TestsPlain.find_broken {preds : List Predicate} (htests : TestsPlain adapter engine test)
    (hshort : ¬ Overlong (plainLines text)) (h : ∃ pred ∈ contentPreds preds, Broken engine pred) :
    adapter.findMatchesEx text preds false = .error .badPattern := by
  have hne : contentPreds preds ≠ [] := by
    obtain ⟨pred, hpred, -⟩ := h
    exact ne_nil_of_mem hpred
  have hmap := @mapM_broken engine test (plainLines text) _ hshort h
  unfold contentPreds at hmap hne
  rw [htests]
  unfold findSpans
  dsimp only
  rw [if_neg hne, hmap]
  rfl

theorem TestsPlain.find_unbroken {preds : List Predicate} (htests : TestsPlain adapter engine test)
    (hshort : ¬ Overlong (plainLines text)) (h : ∀ pred ∈ contentPreds preds, ¬ Broken engine pred) :
    adapter.findMatchesEx text preds false = .ok ⟨shownSpans test preds (plainLines text), false⟩ :=
  htests.find fun pred hpred => ⟨h pred hpred, fun _ => hshort⟩

theorem Broken.kind {pred : Predicate} (h : Broken engine pred) : pred.kind ≠ .path := by
  intro hkind
  have hlimited := h.1
  rw [hkind] at hlimited
  cases hlimited

theorem contentPreds_of_kind {pred : Predicate} (h : pred.kind ≠ .path) : contentPreds [pred] = [pred] := by
  simp [contentPreds, h]

theorem TestsPlain.single_broken {pred : Predicate} (htests : TestsPlain adapter engine test)
    (hshort : ¬ Overlong (plainLines text)) (h : Broken engine pred) :
    adapter.findMatchesEx text [pred] false = .error .badPattern := by
  refine htests.find_broken hshort ⟨pred, ?_, h⟩
  rw [contentPreds_of_kind h.kind]
  exact mem_cons_self

theorem TestsPlain.single_unbroken {pred : Predicate} (htests : TestsPlain adapter engine test)
    (hshort : ¬ Overlong (plainLines text)) (h : ¬ Broken engine pred) :
    adapter.findMatchesEx text [pred] false = .ok ⟨shownSpans test [pred] (plainLines text), false⟩ := by
  refine htests.find_unbroken hshort ?_
  intro own hown
  obtain ⟨rfl, -⟩ := contentPreds_single hown
  exact h

theorem mem_shownSpans {preds : List Predicate} {lines : List Text} {span : Span}
    (h : span ∈ shownSpans test preds lines) : ∃ i < lines.length, span.startLine = i + 1 ∧
      ∀ pred ∈ contentPreds preds, test pred (lines.getD i []) = true := by
  unfold shownSpans at h
  split at h
  next => simp at h
  next =>
    unfold testSpans at h
    rw [map_map] at h
    obtain ⟨i, hi, rfl⟩ := mem_map.mp h
    obtain ⟨hrange, hall⟩ := mem_filter.mp hi
    exact ⟨i, mem_range.mp hrange, rfl, all_eq_true.mp hall⟩

theorem shownSpans_mem {preds : List Predicate} {lines : List Text} {i : Nat} (hpreds : contentPreds preds ≠ [])
    (hi : i < lines.length) (hall : ∀ pred ∈ contentPreds preds, test pred (lines.getD i []) = true) :
    ∃ span ∈ shownSpans test preds lines, span.startLine = i + 1 := by
  unfold shownSpans testSpans
  rw [if_neg hpreds]
  refine ⟨_, mem_map.mpr ⟨_, mem_map.mpr ⟨i, mem_filter.mpr ⟨mem_range.mpr hi, ?_⟩, rfl⟩, rfl⟩, rfl⟩
  exact all_eq_true.mpr hall

theorem shownSpans_ne_nil {preds : List Predicate} {lines : List Text} (hpreds : contentPreds preds ≠ []) :
    shownSpans test preds lines ≠ [] ↔ ∃ line ∈ lines, ∀ pred ∈ contentPreds preds, test pred line = true := by
  constructor
  · intro hne
    obtain ⟨span, hspan⟩ := exists_mem_of_ne_nil _ hne
    obtain ⟨i, hi, -, hall⟩ := mem_shownSpans hspan
    refine ⟨lines.getD i [], ?_, hall⟩
    rw [getD_eq_getElem _ _ hi]
    exact getElem_mem hi
  · rintro ⟨line, hline, hall⟩
    obtain ⟨i, hi, rfl⟩ := mem_iff_getElem.mp hline
    obtain ⟨span, hspan, -⟩ := shownSpans_mem hpreds hi (by rw [getD_eq_getElem _ _ hi]; exact hall)
    exact ne_nil_of_mem hspan

theorem single_ne_nil {pred : Predicate} {lines : List Text} (hkind : pred.kind ≠ .path) :
    shownSpans test [pred] lines ≠ [] ↔ ∃ line ∈ lines, test pred line = true := by
  rw [shownSpans_ne_nil (by rw [contentPreds_of_kind hkind]; simp), contentPreds_of_kind hkind]
  simp

theorem single_any {pred : Predicate} {lines : List Text} {i : Nat} (hkind : pred.kind ≠ .path) (hi : i < lines.length) :
    ((shownSpans test [pred] lines).any fun hit => hit.startLine = i + 1) = test pred (lines.getD i []) := by
  have hpreds := contentPreds_of_kind hkind
  rw [Bool.eq_iff_iff, any_eq_true]
  constructor
  · rintro ⟨span, hspan, hline⟩
    obtain ⟨j, hj, hstart, hall⟩ := mem_shownSpans hspan
    have hline := of_decide_eq_true hline
    have hji : j = i := by omega
    subst hji
    exact hall pred (by rw [hpreds]; exact mem_cons_self)
  · intro htest
    obtain ⟨span, hspan, hstart⟩ := shownSpans_mem (by rw [hpreds]; simp) hi (fun own hown => by
      obtain ⟨rfl, -⟩ := contentPreds_single hown
      exact htest)
    exact ⟨span, hspan, decide_eq_true hstart⟩

end

section

variable {engine : Engine} {test : Predicate → Text → Bool} {adapter : LanguageAdapter} {text : Text}
  {mustNot : List Predicate}

theorem TestsPlain.document_kept (htests : TestsPlain adapter engine test) (hshort : ¬ Overlong (plainLines text))
    {unavailable flagged : Bool} (h : documentExcludedEx adapter text mustNot unavailable = .ok (false, flagged)) :
    ∀ pred ∈ mustNot, pred.kind ≠ .path → ¬ Broken engine pred ∧ ∀ line ∈ plainLines text, test pred line = false := by
  induction mustNot generalizing unavailable with
  | nil => simp
  | cons pred rest ih =>
    rw [documentExcludedEx] at h
    split at h
    next hpath =>
      intro other hother hkind
      rcases mem_cons.mp hother with rfl | hother
      · exact absurd hpath hkind
      · exact ih h other hother hkind
    next hkind =>
      obtain ⟨result, hresult, h⟩ := bind_ok h
      split at h
      next => cases h
      next hnone =>
        have hunbroken : ¬ Broken engine pred := by
          intro hbroken
          rw [htests.single_broken hshort hbroken] at hresult
          cases hresult
        rw [htests.single_unbroken hshort hunbroken] at hresult
        cases hresult
        have hlines : ∀ line ∈ plainLines text, test pred line = false := by
          intro line hline
          by_contra htest
          exact hnone ((single_ne_nil hkind).mpr ⟨line, hline, eq_true_of_ne_false htest⟩)
        intro other hother hother'
        rcases mem_cons.mp hother with rfl | hother
        · exact ⟨hunbroken, hlines⟩
        · exact ih h other hother hother'

theorem TestsPlain.document_excluded (htests : TestsPlain adapter engine test) (hshort : ¬ Overlong (plainLines text))
    {unavailable flagged : Bool} (h : documentExcludedEx adapter text mustNot unavailable = .ok (true, flagged)) :
    ∃ pred ∈ mustNot, pred.kind ≠ .path ∧ ¬ Broken engine pred ∧ ∃ line ∈ plainLines text, test pred line = true := by
  induction mustNot generalizing unavailable with
  | nil => cases h
  | cons pred rest ih =>
    have hrest : ∀ unavailable, documentExcludedEx adapter text rest unavailable = .ok (true, flagged) →
        ∃ other ∈ pred :: rest, other.kind ≠ .path ∧ ¬ Broken engine other ∧
          ∃ line ∈ plainLines text, test other line = true := by
      intro unavailable h
      obtain ⟨other, hother, hall⟩ := ih h
      exact ⟨other, mem_cons_of_mem _ hother, hall⟩
    rw [documentExcludedEx] at h
    split at h
    next => exact hrest _ h
    next hkind =>
      obtain ⟨result, hresult, h⟩ := bind_ok h
      split at h
      next hsome =>
        have hunbroken : ¬ Broken engine pred := by
          intro hbroken
          rw [htests.single_broken hshort hbroken] at hresult
          cases hresult
        rw [htests.single_unbroken hshort hunbroken] at hresult
        cases hresult
        exact ⟨pred, mem_cons_self, hkind, hunbroken, (single_ne_nil hkind).mp hsome⟩
      next => exact hrest _ h

theorem TestsPlain.document_returns (htests : TestsPlain adapter engine test) (hshort : ¬ Overlong (plainLines text))
    (h : ∀ pred ∈ mustNot, ¬ Broken engine pred) (unavailable : Bool) :
    ∃ result, documentExcludedEx adapter text mustNot unavailable = .ok result := by
  induction mustNot generalizing unavailable with
  | nil => exact ⟨_, rfl⟩
  | cons pred rest ih =>
    have hrest := ih fun other hother => h other (mem_cons_of_mem _ hother)
    rw [documentExcludedEx]
    split
    next => exact hrest _
    next =>
      rw [htests.single_unbroken hshort (h pred mem_cons_self)]
      simp only [bind, Except.bind]
      split
      next => exact ⟨_, rfl⟩
      next => exact hrest _

theorem plainLines_single {line : Text} (h : 10 ∉ line) : plainLines (line ++ [10]) = [line] := by
  have hcut := @LineCut.cut_unique _ 10 _ [line] [] (by simpa using h) (by simp)
  rw [LineCut.join_cons, LineCut.join_nil, append_nil] at hcut
  unfold plainLines
  rw [contentLines_eq Iff.rfl, hcut.1, hcut.2]
  rfl

/-- A span is excluded as the document that holds its line alone is. -/
theorem TestsPlain.span_excluded (htests : TestsPlain adapter engine test) (hshort : ¬ Overlong (plainLines text)) {span : Span}
    {i : Nat} (hspan : span.startLine = i + 1) (hi : i < (plainLines text).length)
    (hline : 10 ∉ (plainLines text).getD i []) (unavailable : Bool) :
    spanExcludedEx adapter text span false mustNot unavailable =
      documentExcludedEx adapter ((plainLines text).getD i [] ++ [10]) mustNot unavailable := by
  have hsingle := plainLines_single hline
  have hmem : (plainLines text).getD i [] ∈ plainLines text := by
    rw [getD_eq_getElem _ _ hi]
    exact getElem_mem hi
  have hshort' : ¬ Overlong (plainLines ((plainLines text).getD i [] ++ [10])) := by
    rw [hsingle]
    rintro ⟨line, hline, hlong⟩
    rw [mem_singleton.mp hline] at hlong
    exact hshort ⟨_, hmem, hlong⟩
  induction mustNot generalizing unavailable with
  | nil => rfl
  | cons pred rest ih =>
    rw [spanExcludedEx, documentExcludedEx]
    split
    next => exact ih unavailable
    next hkind =>
      by_cases hbroken : Broken engine pred
      · rw [htests.single_broken hshort hbroken, htests.single_broken hshort' hbroken]
        rfl
      · rw [htests.single_unbroken hshort hbroken, htests.single_unbroken hshort' hbroken]
        simp only [bind, Except.bind, Bool.false_eq_true, false_and, if_false, hspan, single_any hkind hi, ih]
        have hiff := @single_ne_nil test pred [(plainLines text).getD i []] hkind
        rw [hsingle]
        by_cases htest : test pred ((plainLines text).getD i []) = true
        · rw [if_pos htest, if_pos (hiff.mpr ⟨_, mem_cons_self, htest⟩)]
        · rw [if_neg htest, if_neg]
          rw [hiff]
          rintro ⟨line, hline, hhit⟩
          rw [mem_singleton.mp hline] at hhit
          exact htest hhit

end

section

variable {engine : Engine} {test : Predicate → Text → Bool} {adapter : LanguageAdapter} {text : Text} {blob : Blob}
  {contentMust should mustNot : List Predicate}

/-- Whether the optional and the excluded predicates are all evaluated on a line, as they are for a span of it. -/
def LineScores (adapter : LanguageAdapter) (engine : Engine) (should mustNot : List Predicate) (line : Text) : Prop :=
  (∃ flagged, documentExcludedEx adapter (line ++ [10]) mustNot false = .ok (true, flagged)) ∨
    (∃ flagged, documentExcludedEx adapter (line ++ [10]) mustNot false = .ok (false, flagged)) ∧
      ∀ pred ∈ should, ¬ Broken engine pred

theorem TestsPlain.should_returns (htests : TestsPlain adapter engine test) (hshort : ¬ Overlong (plainLines text))
    {span : Span} {tally : Tally} :
    (∃ result, overlappingShould adapter text span should tally = .ok result) ↔ ∀ pred ∈ should, ¬ Broken engine pred := by
  induction should generalizing tally with
  | nil => simp [overlappingShould]
  | cons pred rest ih =>
    rw [forall_mem_cons]
    by_cases hbroken : Broken engine pred
    · have herror : overlappingShould adapter text span (pred :: rest) tally = .error .badPattern := by
        rw [overlappingShould, htests.single_broken hshort hbroken]
        rfl
      rw [herror]
      simp [hbroken]
    · rw [overlappingShould, htests.single_unbroken hshort hbroken]
      simp only [bind, Except.bind, hbroken, not_false_eq_true, true_and]
      split
      next => exact ih
      next => exact ih

theorem documentExcludedEx_flag {unavailable flagged excluded : Bool} (other : Bool)
    (h : documentExcludedEx adapter text mustNot unavailable = .ok (excluded, flagged)) :
    ∃ flagged', documentExcludedEx adapter text mustNot other = .ok (excluded, flagged') := by
  induction mustNot generalizing unavailable other with
  | nil =>
    cases h
    exact ⟨other, rfl⟩
  | cons pred rest ih =>
    rw [documentExcludedEx] at h ⊢
    split at h
    next hkind =>
      rw [if_pos hkind]
      exact ih other h
    next hkind =>
      rw [if_neg hkind]
      obtain ⟨result, hresult, h⟩ := bind_ok h
      simp only [hresult, bind, Except.bind]
      split at h
      next hspans =>
        cases h
        rw [if_pos hspans]
        exact ⟨_, rfl⟩
      next hspans =>
        rw [if_neg hspans]
        exact ih _ h

/-- A span is scored exactly when its line is. -/
theorem TestsPlain.span_returns (htests : TestsPlain adapter engine test) (hshort : ¬ Overlong (plainLines text))
    {whole : Tally} {span : Span} {i : Nat} (hspan : span.startLine = i + 1) (hi : i < (plainLines text).length)
    (hline : 10 ∉ (plainLines text).getD i []) (unavailable : Bool) :
    (∃ result, scoreSpan adapter text blob contentMust should mustNot false whole span unavailable = .ok result) ↔
      LineScores adapter engine should mustNot ((plainLines text).getD i []) := by
  have hshould : ∀ tally : Tally, (∃ result, overlappingShould adapter text span should tally = .ok result) ↔
      ∀ pred ∈ should, ¬ Broken engine pred := fun tally => htests.should_returns hshort
  unfold scoreSpan LineScores
  rw [htests.span_excluded hshort hspan hi hline]
  constructor
  · rintro ⟨result, h⟩
    obtain ⟨⟨excluded, flagged⟩, hexcluded, h⟩ := bind_ok h
    have hstart := documentExcludedEx_flag false hexcluded
    cases excluded with
    | true => exact Or.inl hstart
    | false =>
      obtain ⟨tally, htally, -⟩ := bind_ok h
      exact Or.inr ⟨hstart, (hshould _).mp ⟨tally, htally⟩⟩
  · rintro (⟨flagged, hexcluded⟩ | ⟨⟨flagged, hexcluded⟩, hunbroken⟩)
    · obtain ⟨flagged', hexcluded⟩ := documentExcludedEx_flag unavailable hexcluded
      rw [hexcluded]
      exact ⟨_, rfl⟩
    · obtain ⟨flagged', hexcluded⟩ := documentExcludedEx_flag unavailable hexcluded
      obtain ⟨tally, htally⟩ := (hshould { unavailable := flagged' }).mpr hunbroken
      rw [hexcluded]
      simp only [bind, Except.bind, Bool.false_eq_true, if_false, htally]
      exact ⟨_, rfl⟩

theorem scoreSpans_returns {spans : List Span} {whole : Tally} {scores : Span → Prop}
    (h : ∀ span ∈ spans, ∀ unavailable,
      (∃ result, scoreSpan adapter text blob contentMust should mustNot false whole span unavailable = .ok result) ↔
        scores span) (unavailable : Bool) :
    (∃ result, scoreSpans adapter text blob contentMust should mustNot false whole spans unavailable = .ok result) ↔
      ∀ span ∈ spans, scores span := by
  induction spans generalizing unavailable with
  | nil => simp [scoreSpans]
  | cons span spans ih =>
    have hrest := ih fun other hother => h other (mem_cons_of_mem _ hother)
    have hown := h span mem_cons_self unavailable
    rw [forall_mem_cons, scoreSpans]
    constructor
    · rintro ⟨result, hresult⟩
      obtain ⟨⟨found, flagged⟩, hfound, hresult⟩ := bind_ok hresult
      obtain ⟨others, hothers, -⟩ := bind_ok hresult
      exact ⟨hown.mp ⟨_, hfound⟩, (hrest flagged).mp ⟨_, hothers⟩⟩
    · rintro ⟨hscores, hall⟩
      obtain ⟨⟨found, flagged⟩, hfound⟩ := hown.mpr hscores
      obtain ⟨⟨others, flagged'⟩, hothers⟩ := (hrest flagged).mpr hall
      simp only [hfound, hothers, bind, Except.bind]
      exact ⟨_, rfl⟩

theorem plainLines_break {line : Text} (h : line ∈ plainLines text) : 10 ∉ line := by
  unfold plainLines at h
  rw [contentLines_eq Iff.rfl] at h
  rcases mem_append.mp h with h | h
  · exact LineCut.not_mem_complete text line h
  · split at h
    next => simp at h
    next =>
      rw [mem_singleton.mp h]
      exact LineCut.not_mem_rest text

/-- A content is scored exactly when its required patterns compile and every line that holds them all is scored. -/
theorem TestsPlain.content_returns (htests : TestsPlain adapter engine test) (hshort : ¬ Overlong (plainLines text))
    (hmust : contentMust ≠ []) (hkinds : ∀ pred ∈ contentMust, pred.kind ≠ .path) :
    (∃ result, scoreContentEx adapter text blob contentMust should mustNot false = .ok result) ↔
      (∀ pred ∈ contentMust, ¬ Broken engine pred) ∧
        ∀ line ∈ plainLines text, (∀ pred ∈ contentMust, test pred line = true) →
          LineScores adapter engine should mustNot line := by
  have hpreds : contentPreds contentMust = contentMust := by
    unfold contentPreds
    rw [filter_eq_self]
    intro pred hpred
    simpa using hkinds pred hpred
  by_cases hbroken : ∃ pred ∈ contentMust, Broken engine pred
  · have herror : scoreContentEx adapter text blob contentMust should mustNot false = .error .badPattern := by
      unfold scoreContentEx
      rw [htests.find_broken hshort (by rw [hpreds]; exact hbroken)]
      rfl
    obtain ⟨pred, hpred, hown⟩ := hbroken
    rw [herror]
    constructor
    · rintro ⟨result, h⟩
      cases h
    · intro h
      exact absurd hown (h.1 pred hpred)
  · push Not at hbroken
    have hfind := htests.find_unbroken hshort (by rw [hpreds]; exact hbroken)
    have hdriver : driver contentMust should = contentMust := by
      unfold driver
      rw [if_neg hmust]
    have hlines := @shownSpans_lineByLine test contentMust (plainLines text)
    have hspans : ∀ span ∈ shownSpans test contentMust (plainLines text), ∀ unavailable,
        (∃ result, scoreSpan adapter text blob contentMust should mustNot false {} span unavailable = .ok result) ↔
          LineScores adapter engine should mustNot ((plainLines text).getD (span.startLine - 1) []) := by
      intro span hspan unavailable
      obtain ⟨i, hi, hstart, -⟩ := mem_shownSpans hspan
      have hline : 10 ∉ (plainLines text).getD i [] := by
        rw [getD_eq_getElem _ _ hi]
        exact plainLines_break (getElem_mem hi)
      rw [hstart, Nat.add_sub_cancel]
      exact htests.span_returns hshort hstart hi hline unavailable
    rw [scoreContentEx_driven (htests.find_nil text) (Or.inl hmust) (by rw [hdriver]; exact hfind) hlines.nodup,
      scoreSpans_returns hspans, and_iff_right hbroken]
    constructor
    · intro hscores line hline hall
      obtain ⟨i, hi, rfl⟩ := mem_iff_getElem.mp hline
      have hget : (plainLines text).getD i [] = (plainLines text)[i] := getD_eq_getElem _ _ hi
      obtain ⟨span, hspan, hstart⟩ := @shownSpans_mem test contentMust (plainLines text) i (by rw [hpreds]; exact hmust) hi
        (by rw [hpreds, hget]; exact hall)
      have hown := hscores span hspan
      rw [hstart, Nat.add_sub_cancel, hget] at hown
      exact hown
    · intro hscores span hspan
      obtain ⟨i, hi, hstart, hall⟩ := mem_shownSpans hspan
      rw [hpreds] at hall
      rw [hstart, Nat.add_sub_cancel]
      refine hscores _ ?_ hall
      rw [getD_eq_getElem _ _ hi]
      exact getElem_mem hi

end

end Leitir.Search
