import Leitir.DiscoverySearch

namespace Leitir.Discovery

open Search ExceptRun List

section

variable {adapter : LanguageAdapter} {content : Text} {wholeFile : Bool} {span : Span} {mustNot : List Predicate}

/-- A predicate that must not hold excludes a span: it is found on the line of the span, or anywhere in a search over whole
files. -/
def Bars (adapter : LanguageAdapter) (content : Text) (wholeFile : Bool) (span : Span) (pred : Predicate) : Prop :=
  ∃ result, adapter.findMatchesEx content [pred] false = .ok result ∧
    (wholeFile = true ∧ result.spans ≠ [] ∨ ∃ hit ∈ result.spans, hit.startLine = span.startLine)

def Barred (adapter : LanguageAdapter) (content : Text) (wholeFile : Bool) (mustNot : List Predicate) (span : Span) : Prop :=
  ∃ pred ∈ contentPreds mustNot, Bars adapter content wholeFile span pred

def AskedFor (adapter : LanguageAdapter) (content : Text) (wholeFile : Bool) (mustNot : List Predicate) (span : Span) : Prop :=
  ∀ before pred after, contentPreds mustNot = before ++ pred :: after →
    (∀ earlier ∈ before, ¬ Bars adapter content wholeFile span earlier) → Asked adapter content [pred] false

variable {pred : Predicate}

theorem askedFor_cons {rest : List Predicate} (hkind : pred.kind ≠ .path) :
    AskedFor adapter content wholeFile (pred :: rest) span ↔ Asked adapter content [pred] false ∧
      (¬ Bars adapter content wholeFile span pred → AskedFor adapter content wholeFile rest span) := by
  unfold AskedFor
  rw [contentPreds_cons hkind, forall_places_cons]
  simp only [not_mem_nil, false_implies, implies_true, forall_const, forall_mem_cons, and_imp]
  refine and_congr_right fun _ => ?_
  constructor
  · exact fun h hnot before own after hsplit hbefore => h before own after hsplit hnot hbefore
  · exact fun h before own after hsplit hnot hbefore => h hnot before own after hsplit hbefore

theorem barred_cons {rest : List Predicate} (hkind : pred.kind ≠ .path) :
    Barred adapter content wholeFile (pred :: rest) span ↔
      Bars adapter content wholeFile span pred ∨ Barred adapter content wholeFile rest span := by
  unfold Barred
  rw [contentPreds_cons hkind, exists_mem_cons_iff]

theorem bars_iff {result : AdapterMatchResult}
    (hresult : adapter.findMatchesEx content [pred] false = .ok result) :
    Bars adapter content wholeFile span pred ↔
      wholeFile = true ∧ result.spans ≠ [] ∨ result.spans.any (fun hit => hit.startLine = span.startLine) = true := by
  unfold Bars
  constructor
  · rintro ⟨own, hown, h⟩
    rw [hresult] at hown
    cases hown
    simpa using h
  · intro h
    exact ⟨result, hresult, by simpa using h⟩

theorem spanExcludedEx_ok_iff {unavailable : Bool} :
    (∃ result, spanExcludedEx adapter content span wholeFile mustNot unavailable = .ok result) ↔
      AskedFor adapter content wholeFile mustNot span := by
  induction mustNot generalizing unavailable with
  | nil => exact ⟨fun _ before pred after hsplit => by simp [contentPreds] at hsplit, fun _ => ⟨_, rfl⟩⟩
  | cons pred rest ih =>
    rw [spanExcludedEx]
    split
    next hpath =>
      rw [ih]
      unfold AskedFor
      rw [contentPreds_path hpath]
    next hkind =>
      rw [askedFor_cons hkind]
      constructor
      · rintro ⟨final, h⟩
        obtain ⟨result, hresult, h⟩ := bind_ok h
        refine ⟨⟨result, hresult⟩, ?_⟩
        rw [bars_iff hresult, not_or]
        rintro ⟨hwhole, hline⟩
        rw [if_neg hwhole, if_neg hline] at h
        exact ih.mp ⟨final, h⟩
      · rintro ⟨⟨result, hresult⟩, hrest⟩
        rw [bind_eq hresult]
        rw [bars_iff hresult, not_or] at hrest
        dsimp only
        split
        next => exact ⟨_, rfl⟩
        next hwhole =>
          split
          next => exact ⟨_, rfl⟩
          next hline => exact ih.mpr (hrest ⟨hwhole, hline⟩)

theorem spanExcludedEx_result {unavailable excluded flagged : Bool}
    (h : spanExcludedEx adapter content span wholeFile mustNot unavailable = .ok (excluded, flagged)) :
    excluded = true ↔ Barred adapter content wholeFile mustNot span := by
  induction mustNot generalizing unavailable with
  | nil =>
    cases h
    simp [Barred, contentPreds]
  | cons pred rest ih =>
    rw [spanExcludedEx] at h
    split at h
    next hpath =>
      unfold Barred
      rw [contentPreds_path hpath]
      exact ih h
    next hkind =>
      obtain ⟨result, hresult, h⟩ := bind_ok h
      rw [barred_cons hkind, bars_iff hresult]
      split at h
      next hwhole =>
        cases h
        exact ⟨fun _ => Or.inl (Or.inl hwhole), fun _ => rfl⟩
      next hwhole =>
        split at h
        next hline =>
          cases h
          exact ⟨fun _ => Or.inl (Or.inr hline), fun _ => rfl⟩
        next hline =>
          rw [ih h]
          exact ⟨Or.inr, fun hbarred => hbarred.resolve_left (by rintro (hw | hl) <;> contradiction)⟩

end

section

variable {adapter : LanguageAdapter} {content : Text} {contentMust should mustNot : List Predicate} {blob : Blob}
  {wholeFile : Bool} {span : Span}

variable {whole : Tally} {unavailable : Bool}

theorem scoreSpan_total_iff :
    (∃ result, scoreSpan adapter content blob contentMust should mustNot wholeFile whole span unavailable = .ok result) ↔
      AskedFor adapter content wholeFile mustNot span ∧ (¬ Barred adapter content wholeFile mustNot span →
        wholeFile = false → ∀ pred ∈ should, Asked adapter content [pred] false) := by
  constructor
  · rintro ⟨result, h⟩
    unfold scoreSpan at h
    obtain ⟨⟨excluded, flagged⟩, hexcluded, h⟩ := bind_ok h
    refine ⟨spanExcludedEx_ok_iff.mp ⟨_, hexcluded⟩, ?_⟩
    rintro hkept rfl
    rw [← spanExcludedEx_result hexcluded] at hkept
    simp only [if_neg hkept] at h
    obtain ⟨tally, htally, -⟩ := bind_ok h
    exact overlappingShould_ok_iff.mp ⟨tally, htally⟩
  · rintro ⟨hasked, hshould⟩
    obtain ⟨⟨excluded, flagged⟩, hexcluded⟩ := (@spanExcludedEx_ok_iff adapter content wholeFile span mustNot unavailable).mpr hasked
    unfold scoreSpan
    rw [bind_eq hexcluded]
    dsimp only
    split
    next => exact ⟨_, rfl⟩
    next hnot =>
      rw [spanExcludedEx_result hexcluded] at hnot
      cases wholeFile with
      | true => exact ⟨_, rfl⟩
      | false =>
        obtain ⟨tally, htally⟩ : ∃ tally, overlappingShould adapter content span should { unavailable := flagged } = .ok tally :=
          overlappingShould_ok_iff.mpr (hshould hnot rfl)
        simp only [Bool.false_eq_true, if_false]
        rw [bind_eq htally]
        exact ⟨_, rfl⟩

def sourceAt (blob : Blob) (span : Span) : SourceRef :=
  ⟨blob.slug, blob.commitSha, blob.path, blob.blobSha, span.startLine, span.endLine⟩

theorem sortKinds_ne_nil {kinds : List PredicateKind} (h : kinds ≠ []) : sortKinds kinds ≠ [] := by
  obtain ⟨kind, hkind⟩ := exists_mem_of_ne_nil _ h
  have hall : kind ∈ kindsByValue := by cases kind <;> decide
  exact ne_nil_of_mem (mem_filter.mpr ⟨hall, by simpa using hkind⟩)

theorem scoreSpan_found {flagged : Bool} {found : Option SourceMatch}
    (h : scoreSpan adapter content blob contentMust should mustNot wholeFile whole span unavailable = .ok (found, flagged)) :
    Barred adapter content wholeFile mustNot span ∧ found = none ∨
      ¬ Barred adapter content wholeFile mustNot span ∧ ∃ item, found = some item ∧ item.source = sourceAt blob span ∧
        (span.matchedKinds ≠ [] → item.matchedKinds ≠ []) := by
  unfold scoreSpan at h
  obtain ⟨⟨excluded, flagged'⟩, hexcluded, h⟩ := bind_ok h
  rw [← spanExcludedEx_result hexcluded]
  dsimp only at h
  split at h
  next hyes =>
    cases h
    exact Or.inl ⟨hyes, rfl⟩
  next hno =>
    obtain ⟨tally, -, h⟩ := bind_ok h
    cases h
    refine Or.inr ⟨hno, _, rfl, rfl, ?_⟩
    intro hkinds
    exact sortKinds_ne_nil fun hnil => hkinds (append_eq_nil_iff.mp hnil).1

/-- The spans that are kept, in their order, are those of the matches. -/
theorem scoreSpans_found {spans : List Span} {flagged : Bool} {found : List SourceMatch}
    (h : scoreSpans adapter content blob contentMust should mustNot wholeFile whole spans unavailable = .ok (found, flagged)) :
    ∃ kept : List Span, kept.Sublist spans ∧ (∀ span, span ∈ kept ↔ span ∈ spans ∧ ¬ Barred adapter content wholeFile mustNot span) ∧
      found.map SourceMatch.source = kept.map (sourceAt blob) ∧
        ((∀ span ∈ spans, span.matchedKinds ≠ []) → ∀ item ∈ found, item.matchedKinds ≠ []) := by
  induction spans generalizing unavailable flagged found with
  | nil =>
    cases h
    exact ⟨[], List.Sublist.slnil, by simp, rfl, by simp⟩
  | cons span spans ih =>
    rw [scoreSpans] at h
    obtain ⟨⟨own, unavailable'⟩, hown, h⟩ := bind_ok h
    obtain ⟨⟨others, unavailable''⟩, hothers, h⟩ := bind_ok h
    cases h
    obtain ⟨kept, hsub, hmem, hsource, hkinds⟩ := ih hothers
    rcases scoreSpan_found hown with ⟨hbarred, rfl⟩ | ⟨hfree, item, rfl, hitem, hitemKinds⟩
    · refine ⟨kept, hsub.cons _, ?_, hsource, fun hall => hkinds fun span hspan => hall span (mem_cons_of_mem _ hspan)⟩
      intro other
      rw [hmem other, mem_cons]
      constructor
      · exact fun hother => ⟨Or.inr hother.1, hother.2⟩
      · rintro ⟨rfl | hother, hnot⟩
        · exact absurd hbarred hnot
        · exact ⟨hother, hnot⟩
    · refine ⟨span :: kept, hsub.cons_cons _, ?_, ?_, ?_⟩
      · intro other
        rw [mem_cons, hmem other, mem_cons]
        constructor
        · rintro (rfl | ⟨hother, hnot⟩)
          · exact ⟨Or.inl rfl, hfree⟩
          · exact ⟨Or.inr hother, hnot⟩
        · rintro ⟨rfl | hother, hnot⟩
          · exact Or.inl rfl
          · exact Or.inr ⟨hother, hnot⟩
      · change item.source :: others.map SourceMatch.source = _
        rw [hitem, hsource, map_cons]
      · intro hall
        refine forall_mem_cons.mpr ⟨hitemKinds (hall span mem_cons_self), ?_⟩
        exact hkinds fun span hspan => hall span (mem_cons_of_mem _ hspan)

theorem scoreSpans_total_iff {spans : List Span} :
    (∃ result, scoreSpans adapter content blob contentMust should mustNot wholeFile whole spans unavailable = .ok result) ↔
      ∀ span ∈ spans, AskedFor adapter content wholeFile mustNot span ∧ (¬ Barred adapter content wholeFile mustNot span →
        wholeFile = false → ∀ pred ∈ should, Asked adapter content [pred] false) := by
  induction spans generalizing unavailable with
  | nil => exact ⟨fun _ => by simp, fun _ => ⟨_, rfl⟩⟩
  | cons span spans ih =>
    rw [forall_mem_cons]
    constructor
    · rintro ⟨result, h⟩
      rw [scoreSpans] at h
      obtain ⟨own, hown, h⟩ := bind_ok h
      obtain ⟨others, hothers, -⟩ := bind_ok h
      exact ⟨scoreSpan_total_iff.mp ⟨own, hown⟩, ih.mp ⟨others, hothers⟩⟩
    · rintro ⟨hspan, hrest⟩
      obtain ⟨own, hown⟩ : ∃ own,
          scoreSpan adapter content blob contentMust should mustNot wholeFile whole span unavailable = .ok own :=
        scoreSpan_total_iff.mpr hspan
      obtain ⟨others, hothers⟩ := ih.mpr hrest
      rw [scoreSpans, bind_eq hown]
      dsimp only
      rw [bind_eq hothers]
      exact ⟨_, rfl⟩

end

section

variable {adapter : LanguageAdapter} {content : Text} {contentMust should mustNot : List Predicate} {blob : Blob}
  {wholeFile : Bool} {span : Span}

def Located (adapter : LanguageAdapter) (content : Text) (contentMust should : List Predicate) (wholeFile : Bool)
    (span : Span) : Prop :=
  if contentMust = [] then ∃ pred ∈ should, Finds adapter content pred span
  else ∃ result, adapter.findMatchesEx content contentMust wholeFile = .ok result ∧ span ∈ result.spans

def Kept (adapter : LanguageAdapter) (content : Text) (contentMust should mustNot : List Predicate) (wholeFile : Bool)
    (span : Span) : Prop :=
  Located adapter content contentMust should wholeFile span ∧ ¬ Barred adapter content wholeFile mustNot span

/-- What the scoring of a content asks of the adapter. -/
structure Answers (adapter : LanguageAdapter) (content : Text) (contentMust should mustNot : List Predicate)
    (wholeFile : Bool) : Prop where
  must : Asked adapter content contentMust wholeFile
  optional : contentMust = [] ∨ wholeFile = true ∧ Held adapter content contentMust wholeFile →
    ∀ pred ∈ should, Asked adapter content [pred] false
  excluded : ∀ span, Located adapter content contentMust should wholeFile span → AskedFor adapter content wholeFile mustNot span
  scored : ∀ span, Kept adapter content contentMust should mustNot wholeFile span →
    ∀ pred ∈ should, Asked adapter content [pred] false

theorem reported_iff {spans : List Span} (h : Reported adapter content contentMust should wholeFile spans) :
    span ∈ spans ↔ Located adapter content contentMust should wholeFile span := by
  unfold Located
  split
  next hnil => exact (h.optional hnil).2 span
  next hmust =>
    obtain ⟨result, hresult, rfl⟩ := h.required hmust
    constructor
    · exact fun hspan => ⟨result, hresult, hspan⟩
    · rintro ⟨own, hown, hspan⟩
      rw [hresult] at hown
      cases hown
      exact hspan

/-- What a content that is scored gives: the spans that are kept, in their order. -/
structure Scores (adapter : LanguageAdapter) (content : Text) (blob : Blob) (contentMust should mustNot : List Predicate)
    (wholeFile : Bool) (found : List SourceMatch) (spans kept : List Span) : Prop where
  reported : Reported adapter content contentMust should wholeFile spans
  sublist : kept.Sublist spans
  mem_kept : ∀ span, span ∈ kept ↔ Kept adapter content contentMust should mustNot wholeFile span
  sources : found.map SourceMatch.source = kept.map (sourceAt blob)
  kinds : (∀ span ∈ spans, span.matchedKinds ≠ []) → ∀ item ∈ found, item.matchedKinds ≠ []

theorem scores_of_scoreSpans {spans : List Span} {whole : Tally} {unavailable flagged : Bool} {found : List SourceMatch}
    (hreported : Reported adapter content contentMust should wholeFile spans)
    (h : scoreSpans adapter content blob contentMust should mustNot wholeFile whole spans unavailable = .ok (found, flagged)) :
    ∃ kept, Scores adapter content blob contentMust should mustNot wholeFile found spans kept := by
  obtain ⟨kept, hsub, hmem, hsources, hkinds⟩ := scoreSpans_found h
  refine ⟨kept, hreported, hsub, ?_, hsources, hkinds⟩
  intro span
  rw [hmem span, reported_iff hreported]
  rfl

theorem scoreContentEx_scores {found : List SourceMatch} {flagged : Bool}
    (hempty : adapter.findMatchesEx content [] wholeFile = .ok ⟨[], false⟩)
    (h : scoreContentEx adapter content blob contentMust should mustNot wholeFile = .ok (found, flagged)) :
    Answers adapter content contentMust should mustNot wholeFile ∧
      ∃ spans kept, Scores adapter content blob contentMust should mustNot wholeFile found spans kept := by
  unfold scoreContentEx at h
  obtain ⟨result, hresult, h⟩ := bind_ok h
  split at h
  next hnone =>
    cases h
    have hreported : Reported adapter content contentMust should wholeFile [] :=
      ⟨fun _ => ⟨result, hresult, hnone.1⟩, fun hnil => absurd hnil hnone.2⟩
    have hlocated : ∀ span, ¬ Located adapter content contentMust should wholeFile span := fun span hspan =>
      absurd ((reported_iff hreported).mpr hspan) not_mem_nil
    refine ⟨⟨⟨result, hresult⟩, ?_, fun span hspan => absurd hspan (hlocated span),
      fun span hspan => absurd hspan.1 (hlocated span)⟩, [], [], hreported, List.Sublist.slnil, ?_, rfl, by simp⟩
    · rintro (hnil | ⟨-, own, hown, hsome⟩)
      · exact absurd hnil hnone.2
      · rw [hresult] at hown
        cases hown
        exact absurd hnone.1 hsome
    · exact fun span => ⟨fun hspan => absurd hspan not_mem_nil, fun hspan => absurd hspan.1 (hlocated span)⟩
  next hgo =>
    obtain ⟨⟨spans, unavailable⟩, hspans, h⟩ := bind_ok h
    obtain ⟨whole, hwhole, h⟩ := bind_ok h
    have htotal := scoreSpans_total_iff.mp ⟨_, h⟩
    have hasked : contentMust = [] ∨ wholeFile = true → ∀ pred ∈ should, Asked adapter content [pred] false := by
      rintro (hnil | rfl)
      · rw [hnil, hempty] at hresult
        cases hresult
        exact (optionalSpans_ok hspans).1
      · exact wholeFileShould_ok_iff.mp ⟨whole, hwhole⟩
    have hreported : Reported adapter content contentMust should wholeFile spans := by
      split at hspans
      next hnil =>
        have hmust : contentMust = [] := not_not.mp fun hne => hgo ⟨hnil, hne⟩
        obtain ⟨-, hnodup, hmem⟩ := optionalSpans_ok hspans
        refine ⟨fun hne => absurd hmust hne, fun _ => ⟨hnodup, ?_⟩⟩
        intro span
        rw [hmem span]
        simp
      next hsome =>
        cases hspans
        have hmust : contentMust ≠ [] := by
          intro hnil
          rw [hnil, hempty] at hresult
          cases hresult
          exact hsome rfl
        exact ⟨fun _ => ⟨result, hresult, rfl⟩, fun hnil => absurd hnil hmust⟩
    refine ⟨⟨⟨result, hresult⟩, ?_, ?_, ?_⟩, spans, scores_of_scoreSpans hreported h⟩
    · exact fun hcase => hasked (hcase.imp_right And.left)
    · exact fun span hspan => (htotal span ((reported_iff hreported).mpr hspan)).1
    · intro span hspan
      cases hfile : wholeFile with
      | true => exact hasked (Or.inr hfile)
      | false =>
        obtain ⟨-, hshould⟩ := htotal span ((reported_iff hreported).mpr hspan.1)
        exact hshould hspan.2 hfile

theorem scoreContentEx_ok_iff (hempty : adapter.findMatchesEx content [] wholeFile = .ok ⟨[], false⟩) :
    (∃ result, scoreContentEx adapter content blob contentMust should mustNot wholeFile = .ok result) ↔
      Answers adapter content contentMust should mustNot wholeFile := by
  constructor
  · rintro ⟨⟨found, flagged⟩, h⟩
    exact (scoreContentEx_scores hempty h).1
  intro h
  obtain ⟨result, hresult⟩ := h.must
  unfold scoreContentEx
  rw [bind_eq hresult]
  split
  next => exact ⟨_, rfl⟩
  next hgo =>
    have hheld : contentMust = [] ∨ Held adapter content contentMust wholeFile := by
      by_cases hnil : contentMust = []
      · exact Or.inl hnil
      · exact Or.inr ⟨result, hresult, fun hspans => hgo ⟨hspans, hnil⟩⟩
    obtain ⟨spans, flagged, hspans, hreported⟩ : ∃ spans flagged, (if result.spans = [] then
        optionalSpans adapter content should [] result.parserUnavailable
        else pure (result.spans, result.parserUnavailable)) = .ok (spans, flagged) ∧
        ∀ span ∈ spans, Located adapter content contentMust should wholeFile span := by
      unfold Located
      split
      next hnone =>
        have hnil : contentMust = [] := not_not.mp fun hne => hgo ⟨hnone, hne⟩
        obtain ⟨spans, flagged, hspans⟩ := optionalSpans_total (h.optional (Or.inl hnil))
        refine ⟨spans, flagged, hspans, ?_⟩
        intro span hspan
        rw [if_pos hnil]
        simpa using ((optionalSpans_ok hspans).2.2 span).mp hspan
      next hsome =>
        have hmust : contentMust ≠ [] := by
          intro hnil
          rw [hnil, hempty] at hresult
          cases hresult
          exact hsome rfl
        refine ⟨result.spans, result.parserUnavailable, rfl, ?_⟩
        intro span hspan
        rw [if_neg hmust]
        exact ⟨result, hresult, hspan⟩
    obtain ⟨whole, hwhole⟩ : ∃ whole, (if wholeFile then wholeFileShould adapter content should { unavailable := flagged }
        else pure { unavailable := flagged }) = .ok whole := by
      split
      next hfile => exact wholeFileShould_ok_iff.mpr (h.optional (hheld.imp_right fun hheld => ⟨hfile, hheld⟩))
      next => exact ⟨_, rfl⟩
    rw [bind_eq hspans]
    dsimp only
    rw [bind_eq hwhole]
    refine scoreSpans_total_iff.mpr fun span hspan => ⟨h.excluded span (hreported span hspan), ?_⟩
    exact fun hfree _ => h.scored span ⟨hreported span hspan, hfree⟩

end

end Leitir.Discovery
