import Leitir.SearchShown

namespace Leitir.Search

open ExceptRun List

section

variable {adapter : LanguageAdapter} {text : Text} {blob : Blob} {contentMust should mustNot : List Predicate} {span : Span}

theorem result_eq {result : AdapterMatchResult} {spans : List Span} (hspans : result.spans = spans)
    (hflag : result.parserUnavailable = false) : result = ⟨spans, false⟩ := by
  cases result
  cases hspans
  cases hflag
  rfl

variable {unavailable : Bool}

theorem documentExcludedEx_unflagged {excluded : Bool}
    (h : documentExcludedEx adapter text mustNot unavailable = .ok (excluded, false)) : unavailable = false := by
  induction mustNot generalizing unavailable with
  | nil =>
    cases h
    rfl
  | cons pred rest ih =>
    rw [documentExcludedEx] at h
    split at h
    next => exact ih h
    next =>
      obtain ⟨result, -, h⟩ := bind_ok h
      have hor : (unavailable || result.parserUnavailable) = false := by
        split at h
        next => exact (Prod.mk.inj (Except.ok.inj h)).2
        next => exact ih h
      exact (Bool.or_eq_false_iff.mp hor).1

theorem documentExcludedEx_false (h : documentExcludedEx adapter text mustNot false = .ok (false, false)) :
    ∀ pred ∈ mustNot, pred.kind ≠ .path → adapter.findMatchesEx text [pred] false = .ok ⟨[], false⟩ := by
  induction mustNot with
  | nil => simp
  | cons pred rest ih =>
    rw [documentExcludedEx] at h
    split at h
    next hpath =>
      intro other hother hkind
      rcases mem_cons.mp hother with rfl | hother
      · exact absurd hpath hkind
      · exact ih h other hother hkind
    next =>
      obtain ⟨result, hresult, h⟩ := bind_ok h
      split at h
      next => cases h
      next hspans =>
        have hflag : result.parserUnavailable = false := by
          simpa using documentExcludedEx_unflagged h
        rw [hflag] at h
        intro other hother hkind
        rcases mem_cons.mp hother with rfl | hother
        · rw [hresult, result_eq (not_not.mp hspans) hflag]
        · exact ih h other hother hkind

/-- A text that is excluded without a complaint answers the excluded predicates up to one that it holds. -/
theorem documentExcludedEx_true (h : documentExcludedEx adapter text mustNot false = .ok (true, false)) :
    ∃ before pred after, mustNot = before ++ pred :: after ∧ pred.kind ≠ .path ∧
      (∃ spans, adapter.findMatchesEx text [pred] false = .ok ⟨spans, false⟩ ∧ spans ≠ []) ∧
      ∀ other ∈ before, other.kind ≠ .path → adapter.findMatchesEx text [other] false = .ok ⟨[], false⟩ := by
  induction mustNot with
  | nil => cases h
  | cons pred rest ih =>
    rw [documentExcludedEx] at h
    split at h
    next hpath =>
      obtain ⟨before, found, after, heq, hkind, hfound, hbefore⟩ := ih h
      refine ⟨pred :: before, found, after, by rw [heq]; rfl, hkind, hfound, ?_⟩
      intro other hother hother'
      rcases mem_cons.mp hother with rfl | hother
      · exact absurd hpath hother'
      · exact hbefore other hother hother'
    next hkind =>
      obtain ⟨result, hresult, h⟩ := bind_ok h
      split at h
      next hspans =>
        have hflag : result.parserUnavailable = false := (Prod.mk.inj (Except.ok.inj h)).2
        exact ⟨[], pred, rest, rfl, hkind, ⟨result.spans, by rw [hresult, result_eq rfl hflag], hspans⟩, by simp⟩
      next hspans =>
        have hflag : result.parserUnavailable = false := by
          simpa using documentExcludedEx_unflagged h
        rw [hflag] at h
        obtain ⟨before, found, after, heq, hkind', hfound, hbefore⟩ := ih h
        refine ⟨pred :: before, found, after, by rw [heq]; rfl, hkind', hfound, ?_⟩
        intro other hother hother'
        rcases mem_cons.mp hother with rfl | hother
        · rw [hresult, result_eq (not_not.mp hspans) hflag]
        · exact hbefore other hother hother'

theorem spanExcludedEx_unflagged {excluded : Bool}
    (h : spanExcludedEx adapter text span false mustNot unavailable = .ok (excluded, false)) : unavailable = false := by
  induction mustNot generalizing unavailable with
  | nil =>
    cases h
    rfl
  | cons pred rest ih =>
    rw [spanExcludedEx] at h
    split at h
    next => exact ih h
    next =>
      obtain ⟨result, -, h⟩ := bind_ok h
      simp only [Bool.false_eq_true, false_and, if_false] at h
      have hor : (unavailable || result.parserUnavailable) = false := by
        split at h
        next => exact (Prod.mk.inj (Except.ok.inj h)).2
        next => exact ih h
      exact (Bool.or_eq_false_iff.mp hor).1

theorem overlappingShould_unflagged {tally final : Tally} (h : overlappingShould adapter text span should tally = .ok final)
    (hflag : final.unavailable = false) :
    tally.unavailable = false ∧
      ∀ pred ∈ should, ∃ spans, adapter.findMatchesEx text [pred] false = .ok ⟨spans, false⟩ := by
  induction should generalizing tally with
  | nil =>
    cases h
    exact ⟨hflag, by simp⟩
  | cons pred rest ih =>
    rw [overlappingShould] at h
    obtain ⟨result, hresult, h⟩ := bind_ok h
    have hrest : (tally.unavailable || result.parserUnavailable) = false ∧
        ∀ pred ∈ rest, ∃ spans, adapter.findMatchesEx text [pred] false = .ok ⟨spans, false⟩ := by
      dsimp only at h
      split at h
      next => exact ih h
      next => exact ih h
    obtain ⟨hstart, hown⟩ := Bool.or_eq_false_iff.mp hrest.1
    refine ⟨hstart, ?_⟩
    intro other hother
    rcases mem_cons.mp hother with rfl | hother
    · exact ⟨result.spans, by rw [hresult, result_eq rfl hown]⟩
    · exact hrest.2 other hother

theorem scoreSpan_unflagged {whole : Tally} {found : Option SourceMatch}
    (h : scoreSpan adapter text blob contentMust should mustNot false whole span unavailable = .ok (found, false)) :
    unavailable = false ∧ (spanExcludedEx adapter text span false mustNot false = .ok (false, false) →
      ∀ pred ∈ should, ∃ spans, adapter.findMatchesEx text [pred] false = .ok ⟨spans, false⟩) := by
  unfold scoreSpan at h
  obtain ⟨⟨excluded, flagged⟩, hexcluded, h⟩ := bind_ok h
  dsimp only at h
  split at h
  next hyes =>
    cases h
    have hstart := spanExcludedEx_unflagged hexcluded
    subst hstart
    refine ⟨rfl, ?_⟩
    intro hkept
    rw [hkept] at hexcluded
    cases hexcluded
    cases hyes
  next =>
    obtain ⟨tally, htally, h⟩ := bind_ok h
    obtain ⟨-, hflag⟩ := Prod.mk.inj (Except.ok.inj h)
    obtain ⟨hstart, hall⟩ := overlappingShould_unflagged htally hflag
    change flagged = false at hstart
    subst hstart
    have hstart := spanExcludedEx_unflagged hexcluded
    exact ⟨hstart, fun _ => hall⟩

theorem scoreSpans_unflagged {spans : List Span} {whole : Tally} {found : List SourceMatch}
    (h : scoreSpans adapter text blob contentMust should mustNot false whole spans unavailable = .ok (found, false)) :
    unavailable = false ∧ ∀ span ∈ spans, spanExcludedEx adapter text span false mustNot false = .ok (false, false) →
      ∀ pred ∈ should, ∃ hits, adapter.findMatchesEx text [pred] false = .ok ⟨hits, false⟩ := by
  induction spans generalizing unavailable found with
  | nil =>
    cases h
    exact ⟨rfl, by simp⟩
  | cons span spans ih =>
    rw [scoreSpans] at h
    obtain ⟨⟨own, flagged⟩, hown, h⟩ := bind_ok h
    obtain ⟨⟨others, flagged'⟩, hothers, h⟩ := bind_ok h
    obtain ⟨-, hflag⟩ := Prod.mk.inj (Except.ok.inj h)
    change flagged' = false at hflag
    subst hflag
    obtain ⟨hstart, hrest⟩ := ih hothers
    change flagged = false at hstart
    subst hstart
    obtain ⟨hstart, hshould⟩ := scoreSpan_unflagged hown
    refine ⟨hstart, ?_⟩
    intro other hother
    rcases mem_cons.mp hother with rfl | hother
    · exact hshould
    · exact hrest other hother

theorem spanExcludedEx_none
    (h : ∀ pred ∈ mustNot, pred.kind ≠ .path → adapter.findMatchesEx text [pred] false = .ok ⟨[], false⟩) :
    spanExcludedEx adapter text span false mustNot false = .ok (false, false) := by
  induction mustNot with
  | nil => rfl
  | cons pred rest ih =>
    have hrest := ih fun other hother => h other (mem_cons_of_mem _ hother)
    rw [spanExcludedEx]
    split
    next => exact hrest
    next hkind =>
      rw [h pred mem_cons_self hkind]
      simp [bind, Except.bind, hrest]

/-- A content that is scored without a complaint answers the predicates of its spans, and the optional ones where a span
is not excluded. -/
theorem scoreContentEx_unflagged {found : List SourceMatch}
    (hempty : adapter.findMatchesEx text [] false = .ok ⟨[], false⟩) (hdriver : contentMust ≠ [] ∨ should.length ≤ 1)
    (h : scoreContentEx adapter text blob contentMust should mustNot false = .ok (found, false)) :
    ∃ spans, adapter.findMatchesEx text (driver contentMust should) false = .ok ⟨spans, false⟩ ∧
      (spans ≠ [] → (∀ pred ∈ mustNot, pred.kind ≠ .path → adapter.findMatchesEx text [pred] false = .ok ⟨[], false⟩) →
        ∀ pred ∈ should, ∃ hits, adapter.findMatchesEx text [pred] false = .ok ⟨hits, false⟩) := by
  unfold driver
  by_cases hmust : contentMust = []
  · subst hmust
    rw [if_pos rfl]
    match should, hdriver.resolve_left (fun hne => hne rfl) with
    | [], _ => exact ⟨[], hempty, fun hne => absurd rfl hne⟩
    | [pred], _ =>
      simp only [scoreContentEx, hempty, bind, Except.bind, ne_eq, not_true_eq_false, and_false, if_false, if_true,
        optionalSpans] at h
      cases hfind : adapter.findMatchesEx text [pred] false with
      | error err =>
        rw [hfind] at h
        cases h
      | ok result =>
        rw [hfind] at h
        obtain ⟨hflag, -⟩ := scoreSpans_unflagged h
        have hown : result.parserUnavailable = false := by simpa using hflag
        rw [result_eq rfl hown]
        refine ⟨result.spans, rfl, ?_⟩
        intro _ _ other hother
        rw [mem_singleton.mp hother, hfind, result_eq rfl hown]
        exact ⟨result.spans, rfl⟩
    | _ :: _ :: _, hlength => simp at hlength
  · rw [if_neg hmust]
    unfold scoreContentEx at h
    obtain ⟨result, hresult, h⟩ := bind_ok h
    rw [hresult]
    split at h
    next hnone =>
      have hflag : result.parserUnavailable = false := (Prod.mk.inj (Except.ok.inj h)).2
      rw [result_eq rfl hflag]
      exact ⟨result.spans, rfl, fun hne => absurd hnone.1 hne⟩
    next hsome =>
      have hspans : result.spans ≠ [] := fun hnil => hsome ⟨hnil, hmust⟩
      rw [if_neg hspans] at h
      obtain ⟨hflag, hall⟩ := scoreSpans_unflagged h
      change result.parserUnavailable = false at hflag
      rw [result_eq rfl hflag]
      refine ⟨result.spans, rfl, ?_⟩
      intro hne hnone
      obtain ⟨span, hspan⟩ := exists_mem_of_ne_nil _ hne
      exact hall span hspan (spanExcludedEx_none hnone)

end

section

variable {adapter : LanguageAdapter} {content : Text} {blob : Blob} {spec : SearchSpec}

variable {scored : Scored}

/-- What a batch that is scored without a complaint has asked of the adapter. -/
theorem flushBatch_unflagged {scored' : Scored} {batch : Text} (hbatch : batch ≠ [])
    (h : flushBatch adapter blob spec scored batch = .ok scored') (hflag : scored'.unavailable = false) :
    scored.unavailable = false ∧
      (scored.fileExcluded = true ∧ scored'.fileExcluded = true ∨
        scored.fileExcluded = false ∧
          documentExcludedEx adapter batch spec.mustNot false = .ok (scored'.fileExcluded, false)) ∧
      ∃ found, scoreContentEx adapter batch blob spec.contentMust spec.should spec.mustNot false = .ok (found, false) := by
  unfold flushBatch at h
  rw [if_neg hbatch] at h
  obtain ⟨⟨excluded, unavailable⟩, hexcluded, h⟩ := bind_ok h
  obtain ⟨⟨found, flagged⟩, hfound, h⟩ := bind_ok h
  cases h
  obtain ⟨hunavailable, hflagged⟩ := Bool.or_eq_false_iff.mp hflag
  change unavailable = false at hunavailable
  change flagged = false at hflagged
  subst hunavailable
  subst hflagged
  split at hexcluded
  next hfile =>
    obtain ⟨htrue, hstart⟩ := Prod.mk.inj (Except.ok.inj hexcluded)
    exact ⟨hstart, Or.inl ⟨hfile, htrue.symm⟩, found, hfound⟩
  next hfile =>
    have hstart := documentExcludedEx_unflagged hexcluded
    rw [hstart] at hexcluded
    exact ⟨hstart, Or.inr ⟨eq_false_of_ne_true hfile, hexcluded⟩, found, hfound⟩

/-- What a run without a complaint has asked of the adapter on each batch. -/
theorem foldlM_unflagged {batches : List Text} {scored' : Scored} (hbatches : ∀ batch ∈ batches, batch ≠ [])
    (h : batches.foldlM (flushBatch adapter blob spec) scored = .ok scored') (hflag : scored'.unavailable = false) :
    scored.unavailable = false ∧
      (∀ batch ∈ batches,
        ∃ found, scoreContentEx adapter batch blob spec.contentMust spec.should spec.mustNot false = .ok (found, false)) ∧
      (scored'.fileExcluded = false → scored.fileExcluded = false ∧
        ∀ batch ∈ batches, documentExcludedEx adapter batch spec.mustNot false = .ok (false, false)) ∧
      (scored.fileExcluded = false → scored'.fileExcluded = true →
        ∃ batch ∈ batches, documentExcludedEx adapter batch spec.mustNot false = .ok (true, false)) := by
  induction batches generalizing scored with
  | nil =>
    cases h
    refine ⟨hflag, by simp, fun hfile => ⟨hfile, by simp⟩, ?_⟩
    intro hfile hfile'
    rw [hfile] at hfile'
    cases hfile'
  | cons batch rest ih =>
    rw [foldlM_cons] at h
    obtain ⟨next, hnext, h⟩ := bind_ok h
    obtain ⟨hnextFlag, hscores, hkept, hexcluded⟩ :=
      ih (fun other hother => hbatches other (mem_cons_of_mem _ hother)) h
    obtain ⟨hstart, hdocument, hown⟩ := flushBatch_unflagged (hbatches batch mem_cons_self) hnext hnextFlag
    refine ⟨hstart, ?_, ?_, ?_⟩
    · intro other hother
      rcases mem_cons.mp hother with rfl | hother
      · exact hown
      · exact hscores other hother
    · intro hfile
      obtain ⟨hnextFile, hall⟩ := hkept hfile
      rcases hdocument with ⟨-, htrue⟩ | ⟨hfalse, hdocument⟩
      · rw [hnextFile] at htrue
        cases htrue
      · rw [hnextFile] at hdocument
        refine ⟨hfalse, ?_⟩
        intro other hother
        rcases mem_cons.mp hother with rfl | hother
        · exact hdocument
        · exact hall other hother
    · intro hfile hfile'
      rcases hdocument with ⟨htrue, -⟩ | ⟨-, hdocument⟩
      · rw [hfile] at htrue
        cases htrue
      · cases hnextFile : next.fileExcluded with
        | true =>
          rw [hnextFile] at hdocument
          exact ⟨batch, mem_cons_self, hdocument⟩
        | false =>
          obtain ⟨other, hother, hdocument'⟩ := hexcluded hnextFile hfile'
          exact ⟨other, mem_cons_of_mem _ hother, hdocument'⟩

theorem documentExcludedEx_of_hit {mustNot before after : List Predicate} {pred : Predicate}
    (hcut : mustNot = before ++ pred :: after) (hkind : pred.kind ≠ .path)
    (hfound : ∃ spans, adapter.findMatchesEx content [pred] false = .ok ⟨spans, false⟩ ∧ spans ≠ [])
    (hbefore : ∀ other ∈ before, other.kind ≠ .path →
      ∃ spans, adapter.findMatchesEx content [other] false = .ok ⟨spans, false⟩) :
    documentExcludedEx adapter content mustNot false = .ok (true, false) := by
  subst hcut
  induction before with
  | nil =>
    obtain ⟨spans, hspans, hne⟩ := hfound
    rw [nil_append, documentExcludedEx, if_neg hkind, hspans]
    simp [bind, Except.bind, hne, pure, Except.pure]
  | cons other before ih =>
    have hrest := ih fun own hown => hbefore own (mem_cons_of_mem _ hown)
    rw [cons_append, documentExcludedEx]
    split
    next => exact hrest
    next hother =>
      obtain ⟨spans, hspans⟩ := hbefore other mem_cons_self hother
      rw [hspans]
      simp only [bind, Except.bind, Bool.or_self]
      split
      next => rfl
      next => exact hrest

def Steady (adapter : LanguageAdapter) (content : Text) (batches : List Text) (pred : Predicate) : Prop :=
  (∃ batch ∈ batches, ∃ part, adapter.findMatchesEx batch [pred] false = .ok ⟨part, false⟩) →
    ∃ whole, Placed adapter content [pred] 0 batches [] whole

def SteadyDriver (adapter : LanguageAdapter) (content : Text) (batches : List Text) (preds : List Predicate) : Prop :=
  (∀ batch ∈ batches, ∃ part, adapter.findMatchesEx batch preds false = .ok ⟨part, false⟩) →
    ∃ whole, Placed adapter content preds 0 batches [] whole

/-- A stream that neither fails nor complains gives the matches of the content in memory, where the answers for the content
are those for its batches. -/
theorem scoreBatches_steady (hwhole : spec.wholeFileMust = false)
    (hempty : ∀ text, adapter.findMatchesEx text [] false = .ok ⟨[], false⟩)
    (hdriver : spec.contentMust ≠ [] ∨ spec.should.length ≤ 1) (hcontent : content ≠ [])
    (hmain : SteadyDriver adapter content ((streamBatches content).filter fun batch => batch ≠ [])
      (driver spec.contentMust spec.should))
    (hnot : ∀ pred ∈ spec.mustNot, pred.kind ≠ .path →
      Steady adapter content ((streamBatches content).filter fun batch => batch ≠ []) pred)
    (hshould : ∀ pred ∈ spec.should,
      Steady adapter content ((streamBatches content).filter fun batch => batch ≠ []) pred)
    (hrun : scoreBatches adapter blob spec content = .ok scored) (hflag : scored.unavailable = false) :
    scoreInMemory adapter blob spec content = .ok (scored.outcome.1, false) := by
  have hne : ∀ batch ∈ (streamBatches content).filter (fun batch => decide (batch ≠ [])), batch ≠ [] := by
    intro batch hbatch
    simpa using (mem_filter.mp hbatch).2
  obtain ⟨first, hfirst⟩ : ∃ batch, batch ∈ (streamBatches content).filter (fun batch => decide (batch ≠ [])) := by
    refine exists_mem_of_ne_nil _ ?_
    intro hnil
    have hflatten := filter_flatten (streamBatches content)
    rw [hnil, streamBatches_flatten] at hflatten
    exact hcontent hflatten.symm
  have hfold := hrun
  unfold scoreBatches at hfold
  rw [foldlM_flushBatch_filter] at hfold
  obtain ⟨-, hscores, hkept, hexcluded⟩ := foldlM_unflagged hne hfold hflag
  cases hfile : scored.fileExcluded with
  | true =>
    obtain ⟨batch, hbatch, hdocument⟩ := hexcluded rfl hfile
    obtain ⟨before, pred, after, hcut, hkind, ⟨spans, hspans, hsome⟩, hbefore⟩ := documentExcludedEx_true hdocument
    have hpred : pred ∈ spec.mustNot := by
      rw [hcut]
      simp
    obtain ⟨whole, hplaced⟩ := hnot pred hpred hkind ⟨batch, hbatch, spans, hspans⟩
    have hhit := hplaced.spliced.ne_nil_iff.mpr ⟨batch, hbatch, spans, hspans, hsome⟩
    have hothers : ∀ other ∈ before, other.kind ≠ .path →
        ∃ spans, adapter.findMatchesEx content [other] false = .ok ⟨spans, false⟩ := by
      intro other hother hkind'
      have hmem : other ∈ spec.mustNot := by
        rw [hcut]
        exact mem_append_left _ hother
      obtain ⟨whole', hplaced'⟩ := hnot other hmem hkind' ⟨batch, hbatch, [], hbefore other hother hkind'⟩
      exact ⟨_, hplaced'.find⟩
    have hcontentExcluded := documentExcludedEx_of_hit hcut hkind ⟨whole, hplaced.find, hhit⟩ hothers
    unfold scoreInMemory Scored.outcome
    rw [hcontentExcluded, hfile]
    rfl
  | false =>
    obtain ⟨-, hdocuments⟩ := hkept hfile
    have hnone := fun batch hbatch => documentExcludedEx_false (hdocuments batch hbatch)
    obtain ⟨whole, hplaced⟩ := hmain fun batch hbatch => by
      obtain ⟨found, hfound⟩ := hscores batch hbatch
      obtain ⟨spans, hspans, -⟩ := scoreContentEx_unflagged (hempty batch) hdriver hfound
      exact ⟨spans, hspans⟩
    have hnotPlaced : ∀ pred ∈ spec.mustNot, pred.kind ≠ .path → ∃ own,
        Placed adapter content [pred] 0 ((streamBatches content).filter fun batch => batch ≠ []) [] own :=
      fun pred hpred hkind => hnot pred hpred hkind ⟨first, hfirst, [], hnone first hfirst pred hpred hkind⟩
    have hplaces : Places adapter content spec 0 ((streamBatches content).filter fun batch => batch ≠ []) whole := by
      refine ⟨⟨[], hplaced⟩, ?_, ?_⟩
      · intro pred hpred hkind
        obtain ⟨own, hown⟩ := hnotPlaced pred hpred hkind
        exact ⟨[], own, hown⟩
      · intro hsome pred hpred
        obtain ⟨batch, hbatch, part, hpart, hpartSome⟩ := hplaced.spliced.ne_nil_iff.mp hsome
        obtain ⟨found, hfound⟩ := hscores batch hbatch
        obtain ⟨spans, hspans, hanswers⟩ := scoreContentEx_unflagged (hempty batch) hdriver hfound
        rw [hpart] at hspans
        cases hspans
        obtain ⟨hits, hhits⟩ := hanswers hpartSome (hnone batch hbatch) pred hpred
        obtain ⟨own, hown⟩ := hshould pred hpred ⟨batch, hbatch, hits, hhits⟩
        exact ⟨[], own, hown⟩
    obtain ⟨scored', found, hrun', hmemory, houtcome⟩ :=
      @scoreBatches_places adapter content blob spec whole hwhole hempty hdriver hplaces hplaced.find fun pred hpred hkind => by
        obtain ⟨own, hown⟩ := hnotPlaced pred hpred hkind
        exact ⟨own, hown.find, hown.spliced⟩
    rw [hrun] at hrun'
    cases hrun'
    rw [hmemory, houtcome]

end

end Leitir.Search
