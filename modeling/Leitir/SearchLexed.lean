import Leitir.SearchSteady

namespace Leitir.Search

open ExceptRun List

section

/-- The state in which a text leaves the masking loop. -/
def maskEnd : MaskState → Text → MaskState
  | state, [] => state
  | state, [ch] =>
    match maskMove state ch none with
    | .one _ state => state
    | .two _ _ state => state
  | state, ch :: next :: rest =>
    match maskMove state ch (some next) with
    | .one _ state => maskEnd state (next :: rest)
    | .two _ _ state => maskEnd state rest

theorem maskMove_break (state : MaskState) (following : Option Nat) :
    ∃ shown next, maskMove state 10 none = .one shown next ∧ maskMove state 10 following = .one shown next := by
  cases state with
  | code => exact ⟨10, .code, rfl, rfl⟩
  | lineComment => exact ⟨10, .code, rfl, rfl⟩
  | blockComment => exact ⟨10, .blockComment, rfl, rfl⟩
  | string quote =>
    by_cases hquote : 10 = quote
    · refine ⟨32, .code, ?_, ?_⟩
      · simp [maskMove, hquote.symm]
      · simp [maskMove, hquote.symm]
    · refine ⟨10, .string quote, ?_, ?_⟩
      · simp [maskMove, hquote, blank]
      · simp [maskMove, hquote, blank]

theorem last_of_cons {ch next : Nat} {rest : Text} (h : (ch :: next :: rest).getLast? = some 10) :
    (next :: rest).getLast? = some 10 := by
  rw [getLast?_cons_cons] at h
  exact h

variable {text : Text}

/-- After a text that ends a line the loop goes on in the state that the text leaves. -/
theorem maskLoop_append (state : MaskState) (h : text = [] ∨ text.getLast? = some 10) (more : Text) :
    maskLoop state (text ++ more) = maskLoop state text ++ maskLoop (maskEnd state text) more := by
  fun_induction maskLoop state text with
  | case1 => rfl
  | case2 state ch shown after hmove =>
    have hch : ch = 10 := by simpa using h
    subst hch
    cases more with
    | nil => simp [maskLoop, hmove]
    | cons next rest =>
      obtain ⟨shown', after', hnone, hsome⟩ := maskMove_break state (some next)
      rw [hmove] at hnone
      cases hnone
      simp [maskLoop, maskEnd, hmove, hsome]
  | case3 state ch first second after hmove =>
    have hch : ch = 10 := by simpa using h
    subst hch
    obtain ⟨shown', after', hnone, -⟩ := maskMove_break state none
    rw [hmove] at hnone
    cases hnone
  | case4 state ch next rest shown after hmove ih =>
    have hlast := last_of_cons (h.resolve_left (by simp))
    have hrest := ih (Or.inr hlast)
    rw [cons_append] at hrest
    rw [cons_append, cons_append, maskLoop, maskEnd, hmove]
    simp only [cons_append, hrest]
  | case5 state ch next rest first second after hmove ih =>
    have hlast := last_of_cons (h.resolve_left (by simp))
    have hends : rest = [] ∨ rest.getLast? = some 10 := by
      cases rest with
      | nil => exact Or.inl rfl
      | cons other rest => exact Or.inr (last_of_cons hlast)
    have hrest := ih hends
    rw [cons_append, cons_append, maskLoop, maskEnd, hmove]
    simp only [cons_append, hrest]

def MaskState.Quotes : MaskState → Prop
  | .string quote => quote ≠ 10
  | _ => True

def MaskMove.Breaks (ch : Nat) (following : Option Nat) : MaskMove → Prop
  | .one shown state => (shown = 10 ↔ ch = 10) ∧ state.Quotes
  | .two first second state => (first = 10 ↔ ch = 10) ∧ (∀ next ∈ following, second = 10 ↔ next = 10) ∧ state.Quotes

theorem blank_break (ch : Nat) : blank ch = 10 ↔ ch = 10 := by
  unfold blank
  split
  next h => simp [h]
  next h => simp [h]

theorem maskMove_breaks {state : MaskState} (hstate : state.Quotes) (ch : Nat) (following : Option Nat) :
    (maskMove state ch following).Breaks ch following := by
  cases state with
  | code =>
    simp only [maskMove]
    split
    next h => simp [MaskMove.Breaks, MaskState.Quotes, h]
    next =>
      split
      next h => simp [MaskMove.Breaks, MaskState.Quotes, h]
      next =>
        split
        next h =>
          simp only [MaskMove.Breaks, MaskState.Quotes]
          omega
        next => simp [MaskMove.Breaks, MaskState.Quotes]
  | lineComment =>
    simp only [maskMove]
    split
    next h => simp [MaskMove.Breaks, MaskState.Quotes]
    next h => simp [MaskMove.Breaks, MaskState.Quotes, h]
  | blockComment =>
    simp only [maskMove]
    split
    next h => simp [MaskMove.Breaks, MaskState.Quotes, h]
    next h => exact ⟨blank_break ch, trivial⟩
  | string quote =>
    simp only [maskMove]
    split
    next h =>
      split
      next => simp [MaskMove.Breaks, h, hstate]
      next next =>
        refine ⟨by simp [h], ?_, hstate⟩
        intro other hother
        cases hother
        exact blank_break next
    next =>
      split
      next h =>
        have hquote : quote ≠ 10 := hstate
        simp [MaskMove.Breaks, MaskState.Quotes, h, hquote]
      next h => exact ⟨blank_break ch, hstate⟩

theorem maskLoop_breaks {state : MaskState} (hstate : state.Quotes) (text : Text) :
    List.Forall₂ (fun shown ch => shown = 10 ↔ ch = 10) (maskLoop state text) text := by
  fun_induction maskLoop state text with
  | case1 => exact .nil
  | case2 state ch shown after hmove =>
    have h := maskMove_breaks hstate ch none
    rw [hmove] at h
    exact .cons h.1 .nil
  | case3 state ch first second after hmove =>
    have h := maskMove_breaks hstate ch none
    rw [hmove] at h
    exact .cons h.1 .nil
  | case4 state ch next rest shown after hmove ih =>
    have h := maskMove_breaks hstate ch (some next)
    rw [hmove] at h
    exact .cons h.1 (ih h.2)
  | case5 state ch next rest first second after hmove ih =>
    have h := maskMove_breaks hstate ch (some next)
    rw [hmove] at h
    exact .cons h.1 (.cons (h.2.1 next rfl) (ih h.2.2))

theorem count_of_breaks {shown : Text} (h : List.Forall₂ (fun shown ch => shown = 10 ↔ ch = 10) shown text) :
    shown.count 10 = text.count 10 := by
  induction h with
  | nil => rfl
  | @cons a b _ _ hhead _ ih =>
    rw [count_cons, count_cons, ih]
    simp only [beq_iff_eq, hhead]

theorem endsLine_of_breaks {shown : Text} (h : List.Forall₂ (fun shown ch => shown = 10 ↔ ch = 10) shown text) :
    EndsLine shown ↔ EndsLine text := by
  have hnil : shown = [] ↔ text = [] := by
    rw [← length_eq_zero_iff, ← length_eq_zero_iff, h.length_eq]
  have hlast : shown.getLast? = some 10 ↔ text.getLast? = some 10 := by
    clear hnil
    induction h with
    | nil => rfl
    | @cons a b l₁ l₂ hhead htail ih =>
      cases htail with
      | nil => simpa using hhead
      | cons hsecond htail =>
        rw [getLast?_cons_cons, getLast?_cons_cons]
        exact ih
  unfold EndsLine
  rw [LineCut.rest_eq_nil_iff, LineCut.rest_eq_nil_iff, hnil, hlast]

theorem shownAlike_masked {content : Text}
    (hcode : ∀ batch ∈ ((streamBatches content).filter fun batch => batch ≠ []).dropLast, maskEnd .code batch = .code) :
    ShownAlike (fun text => contentLines (maskCommentsAndStrings text) text) content
      ((streamBatches content).filter fun batch => batch ≠ []) := by
  have hbreaks := fun text => maskLoop_breaks (show MaskState.code.Quotes from trivial) text
  have hends := streamBatches_ends content
  have h := @shownAlike_of_append maskCommentsAndStrings ((streamBatches content).filter fun batch => batch ≠ [])
    (fun text => count_of_breaks (hbreaks text)) (fun text => endsLine_of_breaks (hbreaks text))
    (fun batch hbatch more => by
      have happend := maskLoop_append .code ((LineCut.rest_eq_nil_iff batch).mp (hends batch hbatch)) more
      rw [hcode batch hbatch] at happend
      exact happend) hends rfl
  rw [filter_flatten, streamBatches_flatten] at h
  exact h

end

section

variable {engine : Engine} {test : Predicate → Text → Bool} {show_ : Text → List Text} {adapter : LanguageAdapter}
  {content : Text} {batches : List Text} {preds : List Predicate}

variable {pred : Predicate}

theorem answered_of_ok {lines : List Text} {hits : List Nat}
    (h : answerLines engine test lines pred = .ok hits) : Answered engine lines pred := by
  unfold answerLines at h
  split at h
  next => cases h
  next hbroken =>
    split at h
    next => cases h
    next hlong => exact ⟨hbroken, fun hkind hover => hlong ⟨hkind, hover⟩⟩

theorem TestsLines.answered (htests : TestsLines adapter engine test show_) {text : Text} {spans : List Span}
    (h : adapter.findMatchesEx text preds false = .ok ⟨spans, false⟩) :
    ∀ pred ∈ contentPreds preds, Answered engine (show_ text) pred := by
  intro pred hpred
  rw [htests] at h
  cases hfind : findSpans (answerLines engine test (show_ text)) (show_ text).length preds false with
  | error err =>
    rw [hfind] at h
    cases err with
    | badPattern => cases h
    | budgetExceeded => cases h
  | ok found =>
    have hne : contentPreds preds ≠ [] := ne_nil_of_mem hpred
    unfold contentPreds at hpred hne
    unfold findSpans at hfind
    dsimp only at hfind
    rw [if_neg hne] at hfind
    obtain ⟨hits, hhits, -⟩ := bind_ok hfind
    obtain ⟨own, -, hown⟩ := (mapM_ok_mem hhits).1 pred hpred
    exact answered_of_ok hown

theorem TestsLines.steady (htests : TestsLines adapter engine test show_) (hshown : ShownAlike show_ content batches) (hlong : pred.kind.limited = true → ¬ Overlong (show_ content)) :
    Steady adapter content batches pred := by
  rintro ⟨batch, -, part, hpart⟩
  refine ⟨_, htests.placed hshown ?_⟩
  intro own hown
  have hanswered := htests.answered hpart own hown
  obtain ⟨rfl, -⟩ := contentPreds_single hown
  exact ⟨hanswered.1, hlong⟩

theorem ShownAlike.answered (hshown : ShownAlike show_ content batches) (hbatches : batches ≠ [])
    (h : ∀ batch ∈ batches, Answered engine (show_ batch) pred) : Answered engine (show_ content) pred := by
  constructor
  · obtain ⟨batch, hbatch⟩ := exists_mem_of_ne_nil _ hbatches
    exact (h batch hbatch).1
  · rintro hkind ⟨line, hline, hlong⟩
    rw [hshown.lines] at hline
    obtain ⟨batch, hbatch, hline⟩ := mem_flatMap.mp hline
    exact (h batch hbatch).2 hkind ⟨line, hline, hlong⟩

theorem TestsLines.steadyDriver (htests : TestsLines adapter engine test show_) (hshown : ShownAlike show_ content batches)
    (hbatches : batches ≠ []) : SteadyDriver adapter content batches preds := by
  intro hall
  refine ⟨_, htests.placed hshown ?_⟩
  intro pred hpred
  refine hshown.answered hbatches ?_
  intro batch hbatch
  obtain ⟨part, hpart⟩ := hall batch hbatch
  exact htests.answered hpart pred hpred

end

end Leitir.Search
