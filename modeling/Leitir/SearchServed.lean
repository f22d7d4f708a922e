import Leitir.SearchRegistered

namespace Leitir.Search

open ExceptRun List

section

variable {adapter : LanguageAdapter} {content : Text} {preds should mustNot contentMust : List Predicate} {blob : Blob}
  {wholeFile : Bool} {span : Span}

def Asked (adapter : LanguageAdapter) (content : Text) (preds : List Predicate) (wholeFile : Bool) : Prop :=
  ∃ result, adapter.findMatchesEx content preds wholeFile = .ok result

def Finds (adapter : LanguageAdapter) (content : Text) (pred : Predicate) (span : Span) : Prop :=
  ∃ result, adapter.findMatchesEx content [pred] false = .ok result ∧ span ∈ result.spans

theorem found_iff {pred : Predicate} : Found adapter content pred ↔ ∃ span, Finds adapter content pred span := by
  constructor
  · rintro ⟨result, hresult, hsome⟩
    obtain ⟨span, hspan⟩ := exists_mem_of_ne_nil _ hsome
    exact ⟨span, result, hresult, hspan⟩
  · rintro ⟨span, result, hresult, hspan⟩
    exact ⟨result, hresult, ne_nil_of_mem hspan⟩

theorem wholeFileShould_ok_iff {tally : Tally} :
    (∃ final, wholeFileShould adapter content should tally = .ok final) ↔
      ∀ pred ∈ should, Asked adapter content [pred] false := by
  induction should generalizing tally with
  | nil => exact ⟨fun _ => by simp, fun _ => ⟨tally, rfl⟩⟩
  | cons pred rest ih =>
    rw [forall_mem_cons]
    constructor
    · rintro ⟨final, h⟩
      rw [wholeFileShould] at h
      obtain ⟨result, hresult, h⟩ := bind_ok h
      refine ⟨⟨result, hresult⟩, ?_⟩
      split at h
      next => exact ih.mp ⟨final, h⟩
      next => exact ih.mp ⟨final, h⟩
    · rintro ⟨⟨result, hresult⟩, hrest⟩
      rw [wholeFileShould, bind_eq hresult]
      split
      next => exact ih.mpr hrest
      next => exact ih.mpr hrest

theorem overlappingShould_ok_iff {tally : Tally} :
    (∃ final, overlappingShould adapter content span should tally = .ok final) ↔
      ∀ pred ∈ should, Asked adapter content [pred] false := by
  induction should generalizing tally with
  | nil => exact ⟨fun _ => by simp, fun _ => ⟨tally, rfl⟩⟩
  | cons pred rest ih =>
    rw [forall_mem_cons]
    constructor
    · rintro ⟨final, h⟩
      rw [overlappingShould] at h
      obtain ⟨result, hresult, h⟩ := bind_ok h
      refine ⟨⟨result, hresult⟩, ?_⟩
      dsimp only at h
      split at h
      next => exact ih.mp ⟨final, h⟩
      next => exact ih.mp ⟨final, h⟩
    · rintro ⟨⟨result, hresult⟩, hrest⟩
      rw [overlappingShould, bind_eq hresult]
      dsimp only
      split
      next => exact ih.mpr hrest
      next => exact ih.mpr hrest

theorem nodup_eraseDups {α : Type} [DecidableEq α] (items : List α) : items.eraseDups.Nodup := by
  induction hlength : items.length using Nat.strong_induction_on generalizing items with
  | _ n ih =>
    cases items with
    | nil => simp
    | cons item items =>
      rw [eraseDups_cons, nodup_cons]
      refine ⟨?_, ih _ ?_ _ rfl⟩
      · rw [mem_eraseDups, mem_filter]
        simp
      · rw [← hlength]
        exact Nat.lt_succ_of_le (length_filter_le _ _)

theorem optionalSpans_ok {start spans : List Span} {unavailable flagged : Bool}
    (h : optionalSpans adapter content should start unavailable = .ok (spans, flagged)) :
    (∀ pred ∈ should, Asked adapter content [pred] false) ∧ spans.Nodup ∧
      ∀ span, span ∈ spans ↔ span ∈ start ∨ ∃ pred ∈ should, Finds adapter content pred span := by
  induction should generalizing start unavailable with
  | nil =>
    cases h
    exact ⟨by simp, nodup_eraseDups _, by simp⟩
  | cons pred rest ih =>
    rw [optionalSpans] at h
    obtain ⟨result, hresult, h⟩ := bind_ok h
    obtain ⟨hasked, hnodup, hmem⟩ := ih h
    refine ⟨forall_mem_cons.mpr ⟨⟨result, hresult⟩, hasked⟩, hnodup, ?_⟩
    have hown : ∀ span, Finds adapter content pred span ↔ span ∈ result.spans := by
      intro span
      constructor
      · rintro ⟨own, hfind, hspan⟩
        rw [hresult] at hfind
        cases hfind
        exact hspan
      · exact fun hspan => ⟨result, hresult, hspan⟩
    intro span
    rw [hmem span, mem_append, exists_mem_cons_iff, hown, or_assoc]

theorem optionalSpans_total {start : List Span} {unavailable : Bool}
    (h : ∀ pred ∈ should, Asked adapter content [pred] false) :
    ∃ spans flagged, optionalSpans adapter content should start unavailable = .ok (spans, flagged) := by
  induction should generalizing start unavailable with
  | nil => exact ⟨_, _, rfl⟩
  | cons pred rest ih =>
    rw [forall_mem_cons] at h
    obtain ⟨⟨result, hresult⟩, hrest⟩ := h
    rw [optionalSpans, bind_eq hresult]
    exact ih hrest

end

section

variable {adapter : LanguageAdapter} {content : Text} {should mustNot contentMust : List Predicate} {blob : Blob}
  {wholeFile : Bool}

def spanIdentity (blob : Blob) (span : Span) : KeyedList.Key :=
  sourceIdentity ⟨blob.slug, blob.commitSha, blob.path, blob.blobSha, span.startLine, span.endLine⟩

def Clear (adapter : LanguageAdapter) (content : Text) (mustNot : List Predicate) : Prop :=
  ∀ pred ∈ mustNot, pred.kind ≠ .path → ∃ result, adapter.findMatchesEx content [pred] false = .ok result ∧ result.spans = []

theorem spanExcludedEx_clear (hclear : Clear adapter content mustNot) (span : Span) (wholeFile unavailable : Bool) :
    ∃ flagged, spanExcludedEx adapter content span wholeFile mustNot unavailable = .ok (false, flagged) := by
  induction mustNot generalizing unavailable with
  | nil => exact ⟨unavailable, rfl⟩
  | cons pred rest ih =>
    have hrest : Clear adapter content rest := fun other hother => hclear other (mem_cons_of_mem _ hother)
    rw [spanExcludedEx]
    split
    next => exact ih hrest unavailable
    next hkind =>
      obtain ⟨result, hresult, hnone⟩ := hclear pred mem_cons_self hkind
      rw [bind_eq hresult, hnone]
      simpa using ih hrest _

variable {whole : Tally} {unavailable flagged : Bool}

theorem scoreSpan_ok_iff {span : Span} (hclear : Clear adapter content mustNot) :
    (∃ result, scoreSpan adapter content blob contentMust should mustNot wholeFile whole span unavailable = .ok result) ↔
      (wholeFile = false → ∀ pred ∈ should, Asked adapter content [pred] false) := by
  obtain ⟨flagged, hspan⟩ := spanExcludedEx_clear hclear span wholeFile unavailable
  unfold scoreSpan
  rw [bind_eq hspan]
  cases wholeFile with
  | true => exact ⟨fun _ hfalse => by simp at hfalse, fun _ => ⟨_, rfl⟩⟩
  | false =>
    simp only [Bool.false_eq_true, if_false, forall_const]
    rw [← overlappingShould_ok_iff]
    constructor
    · rintro ⟨result, h⟩
      obtain ⟨tally, htally, -⟩ := bind_ok h
      exact ⟨tally, htally⟩
    · rintro ⟨tally, htally⟩
      rw [bind_eq htally]
      exact ⟨_, rfl⟩

theorem scoreSpan_identity {span : Span} {found : Option SourceMatch}
    (hclear : Clear adapter content mustNot)
    (h : scoreSpan adapter content blob contentMust should mustNot wholeFile whole span unavailable = .ok (found, flagged)) :
    found.toList.map SourceMatch.identity = [spanIdentity blob span] := by
  obtain ⟨excluded, hspan⟩ := spanExcludedEx_clear hclear span wholeFile unavailable
  unfold scoreSpan at h
  rw [bind_eq hspan] at h
  obtain ⟨tally, -, h⟩ := bind_ok h
  cases h
  rfl

theorem scoreSpans_identity {spans : List Span} {found : List SourceMatch}
    (hclear : Clear adapter content mustNot)
    (h : scoreSpans adapter content blob contentMust should mustNot wholeFile whole spans unavailable = .ok (found, flagged)) :
    found.map SourceMatch.identity = spans.map (spanIdentity blob) := by
  induction spans generalizing unavailable flagged found with
  | nil =>
    cases h
    rfl
  | cons span spans ih =>
    rw [scoreSpans] at h
    obtain ⟨⟨own, unavailable'⟩, hown, h⟩ := bind_ok h
    obtain ⟨⟨others, unavailable''⟩, hothers, h⟩ := bind_ok h
    cases h
    rw [map_append, scoreSpan_identity hclear hown, ih hothers]
    rfl

theorem scoreSpans_ok_iff {spans : List Span} (hclear : Clear adapter content mustNot) :
    (∃ result, scoreSpans adapter content blob contentMust should mustNot wholeFile whole spans unavailable = .ok result) ↔
      (spans ≠ [] → wholeFile = false → ∀ pred ∈ should, Asked adapter content [pred] false) := by
  induction spans generalizing unavailable with
  | nil => exact ⟨fun _ hne => absurd rfl hne, fun _ => ⟨_, rfl⟩⟩
  | cons span spans ih =>
    constructor
    · rintro ⟨result, h⟩ -
      rw [scoreSpans] at h
      obtain ⟨own, hown, -⟩ := bind_ok h
      exact (scoreSpan_ok_iff hclear).mp ⟨own, hown⟩
    · intro h
      have hasked := h (by simp)
      obtain ⟨own, hown⟩ : ∃ own,
          scoreSpan adapter content blob contentMust should mustNot wholeFile whole span unavailable = .ok own :=
        (scoreSpan_ok_iff hclear).mpr hasked
      obtain ⟨others, hothers⟩ := ih.mpr fun _ => hasked
      rw [scoreSpans, bind_eq hown]
      dsimp only
      rw [bind_eq hothers]
      exact ⟨_, rfl⟩

def Held (adapter : LanguageAdapter) (content : Text) (contentMust : List Predicate) (wholeFile : Bool) : Prop :=
  ∃ result, adapter.findMatchesEx content contentMust wholeFile = .ok result ∧ result.spans ≠ []

structure Answerable (adapter : LanguageAdapter) (content : Text) (contentMust should : List Predicate) (wholeFile : Bool) :
    Prop where
  must : Asked adapter content contentMust wholeFile
  should : contentMust = [] ∨ Held adapter content contentMust wholeFile → ∀ pred ∈ should, Asked adapter content [pred] false

structure Reported (adapter : LanguageAdapter) (content : Text) (contentMust should : List Predicate) (wholeFile : Bool)
    (spans : List Span) : Prop where
  required : contentMust ≠ [] → ∃ result, adapter.findMatchesEx content contentMust wholeFile = .ok result ∧
    result.spans = spans
  optional : contentMust = [] → spans.Nodup ∧ ∀ span, span ∈ spans ↔ ∃ pred ∈ should, Finds adapter content pred span

theorem scoreContentEx_ok {found : List SourceMatch} (hclear : Clear adapter content mustNot)
    (hempty : adapter.findMatchesEx content [] wholeFile = .ok ⟨[], false⟩)
    (h : scoreContentEx adapter content blob contentMust should mustNot wholeFile = .ok (found, flagged)) :
    Answerable adapter content contentMust should wholeFile ∧
      ∃ spans, Reported adapter content contentMust should wholeFile spans ∧
        found.map SourceMatch.identity = spans.map (spanIdentity blob) := by
  unfold scoreContentEx at h
  obtain ⟨result, hresult, h⟩ := bind_ok h
  split at h
  next hnone =>
    cases h
    refine ⟨⟨⟨result, hresult⟩, ?_⟩, [], ⟨fun _ => ⟨result, hresult, hnone.1⟩, fun hnil => absurd hnil hnone.2⟩, rfl⟩
    rintro (hnil | ⟨own, hown, hsome⟩)
    · exact absurd hnil hnone.2
    · rw [hresult] at hown
      cases hown
      exact absurd hnone.1 hsome
  next hgo =>
    obtain ⟨⟨spans, unavailable⟩, hspans, h⟩ := bind_ok h
    obtain ⟨whole, hwhole, h⟩ := bind_ok h
    have hidentity := scoreSpans_identity hclear h
    have hscored := (scoreSpans_ok_iff hclear).mp ⟨_, h⟩
    have hasked : spans ≠ [] → ∀ pred ∈ should, Asked adapter content [pred] false := by
      intro hne
      cases wholeFile with
      | true => exact wholeFileShould_ok_iff.mp ⟨whole, hwhole⟩
      | false => exact hscored hne rfl
    split at hspans
    next hnil =>
      have hmust : contentMust = [] := not_not.mp fun hne => hgo ⟨hnil, hne⟩
      obtain ⟨hshould, hnodup, hmem⟩ := optionalSpans_ok hspans
      refine ⟨⟨⟨result, hresult⟩, fun _ => hshould⟩, spans, ⟨fun hne => absurd hmust hne, fun _ => ⟨hnodup, ?_⟩⟩, hidentity⟩
      intro span
      rw [hmem span]
      simp
    next hsome =>
      cases hspans
      have hmust : contentMust ≠ [] := by
        intro hnil
        rw [hnil, hempty] at hresult
        cases hresult
        exact hsome rfl
      exact ⟨⟨⟨result, hresult⟩, fun _ => hasked hsome⟩, result.spans, ⟨fun _ => ⟨result, hresult, rfl⟩,
        fun hnil => absurd hnil hmust⟩, hidentity⟩

theorem scoreContentEx_total (blob : Blob) (hclear : Clear adapter content mustNot)
    (h : Answerable adapter content contentMust should wholeFile) :
    ∃ result, scoreContentEx adapter content blob contentMust should mustNot wholeFile = .ok result := by
  obtain ⟨result, hresult⟩ := h.must
  unfold scoreContentEx
  rw [bind_eq hresult]
  split
  next => exact ⟨_, rfl⟩
  next hgo =>
    have hshould : ∀ pred ∈ should, Asked adapter content [pred] false := by
      refine h.should ?_
      by_cases hnil : contentMust = []
      · exact Or.inl hnil
      · exact Or.inr ⟨result, hresult, fun hspans => hgo ⟨hspans, hnil⟩⟩
    obtain ⟨spans, hspans⟩ : ∃ spans, (if result.spans = [] then
        optionalSpans adapter content should [] result.parserUnavailable
        else pure (result.spans, result.parserUnavailable)) = .ok spans := by
      split
      next =>
        obtain ⟨spans, flagged, hspans⟩ := optionalSpans_total hshould
        exact ⟨_, hspans⟩
      next => exact ⟨_, rfl⟩
    obtain ⟨whole, hwhole⟩ : ∃ whole, (if wholeFile then wholeFileShould adapter content should { unavailable := spans.2 }
        else pure { unavailable := spans.2 }) = .ok whole := by
      split
      next => exact wholeFileShould_ok_iff.mpr hshould
      next => exact ⟨_, rfl⟩
    rw [bind_eq hspans]
    dsimp only
    rw [bind_eq hwhole]
    exact (scoreSpans_ok_iff hclear).mpr fun _ _ => hshould

end

section

variable {adapter : LanguageAdapter} {content : Text} {mustNot : List Predicate}

theorem forall_places_cons {α : Type} {P : List α → α → Prop} {item : α} {items : List α} :
    (∀ before a after, item :: items = before ++ a :: after → P before a) ↔
      P [] item ∧ ∀ before a after, items = before ++ a :: after → P (item :: before) a := by
  constructor
  · intro h
    refine ⟨h [] item items rfl, ?_⟩
    intro before a after hsplit
    exact h (item :: before) a after (by rw [hsplit, cons_append])
  · rintro ⟨hfirst, hrest⟩ before a after hsplit
    cases before with
    | nil =>
      cases hsplit
      exact hfirst
    | cons other before =>
      cases hsplit
      exact hrest before a after rfl

def Admits (adapter : LanguageAdapter) (content : Text) (mustNot : List Predicate) : Prop :=
  ∀ pred ∈ contentPreds mustNot, ¬ Found adapter content pred

def AskedInTurn (adapter : LanguageAdapter) (content : Text) (mustNot : List Predicate) : Prop :=
  ∀ before pred after, contentPreds mustNot = before ++ pred :: after →
    (∀ earlier ∈ before, ¬ Found adapter content earlier) → Asked adapter content [pred] false

variable {pred : Predicate}

theorem contentPreds_path (h : pred.kind = .path) (rest : List Predicate) :
    contentPreds (pred :: rest) = contentPreds rest := by
  simp [contentPreds, h]

theorem contentPreds_cons (h : pred.kind ≠ .path) (rest : List Predicate) :
    contentPreds (pred :: rest) = pred :: contentPreds rest := by
  simp [contentPreds, h]

theorem askedInTurn_cons {rest : List Predicate} (hkind : pred.kind ≠ .path) :
    AskedInTurn adapter content (pred :: rest) ↔
      Asked adapter content [pred] false ∧ (¬ Found adapter content pred → AskedInTurn adapter content rest) := by
  unfold AskedInTurn
  rw [contentPreds_cons hkind, forall_places_cons]
  simp only [not_mem_nil, false_implies, implies_true, forall_const, forall_mem_cons, and_imp]
  refine and_congr_right fun _ => ?_
  constructor
  · exact fun h hnot before own after hsplit hbefore => h before own after hsplit hnot hbefore
  · exact fun h before own after hsplit hnot hbefore => h hnot before own after hsplit hbefore

theorem not_found_of_nil {result : AdapterMatchResult}
    (hresult : adapter.findMatchesEx content [pred] false = .ok result) : ¬ Found adapter content pred ↔ result.spans = [] := by
  constructor
  · intro hnot
    by_contra hsome
    exact hnot ⟨result, hresult, hsome⟩
  · rintro hnil ⟨own, hown, hsome⟩
    rw [hresult] at hown
    cases hown
    exact hsome hnil

theorem documentExcludedEx_ok_iff {unavailable : Bool} :
    (∃ result, documentExcludedEx adapter content mustNot unavailable = .ok result) ↔ AskedInTurn adapter content mustNot := by
  induction mustNot generalizing unavailable with
  | nil => exact ⟨fun _ before pred after hsplit => by simp [contentPreds] at hsplit, fun _ => ⟨_, rfl⟩⟩
  | cons pred rest ih =>
    rw [documentExcludedEx]
    split
    next hpath =>
      rw [ih]
      unfold AskedInTurn
      rw [contentPreds_path hpath]
    next hkind =>
      rw [askedInTurn_cons hkind]
      constructor
      · rintro ⟨final, h⟩
        obtain ⟨result, hresult, h⟩ := bind_ok h
        refine ⟨⟨result, hresult⟩, ?_⟩
        intro hnot
        rw [not_found_of_nil hresult] at hnot
        rw [if_neg (not_not.mpr hnot)] at h
        exact ih.mp ⟨final, h⟩
      · rintro ⟨⟨result, hresult⟩, hrest⟩
        rw [bind_eq hresult]
        dsimp only
        split
        next => exact ⟨_, rfl⟩
        next hnil =>
          rw [not_not] at hnil
          exact ih.mpr (hrest ((not_found_of_nil hresult).mpr hnil))

/-- A content that is not excluded is clear of the predicates, and one that is excluded holds one of them. -/
theorem documentExcludedEx_result {unavailable excluded flagged : Bool}
    (h : documentExcludedEx adapter content mustNot unavailable = .ok (excluded, flagged)) :
    (excluded = false → Clear adapter content mustNot) ∧ (excluded = false ↔ Admits adapter content mustNot) := by
  induction mustNot generalizing unavailable with
  | nil =>
    cases h
    exact ⟨fun _ => by simp [Clear], fun _ => by simp [Admits, contentPreds], fun _ => rfl⟩
  | cons pred rest ih =>
    rw [documentExcludedEx] at h
    split at h
    next hpath =>
      obtain ⟨hclear, hadmits⟩ := ih h
      refine ⟨?_, ?_⟩
      · intro hnot
        exact forall_mem_cons.mpr ⟨fun hkind => absurd hpath hkind, hclear hnot⟩
      · unfold Admits
        rw [contentPreds_path hpath]
        exact hadmits
    next hkind =>
      obtain ⟨result, hresult, h⟩ := bind_ok h
      have hnil := not_found_of_nil hresult
      unfold Admits
      rw [contentPreds_cons hkind, forall_mem_cons]
      split at h
      next hsome =>
        cases h
        exact ⟨fun hfalse => by simp at hfalse, fun hfalse => by simp at hfalse, fun hall => absurd (hnil.mp hall.1) hsome⟩
      next hspans =>
        rw [not_not] at hspans
        obtain ⟨hclear, hadmits⟩ := ih h
        refine ⟨?_, ?_⟩
        · intro hnot
          exact forall_mem_cons.mpr ⟨fun _ => ⟨result, hresult, hspans⟩, hclear hnot⟩
        · rw [hadmits]
          exact ⟨fun hrest => ⟨hnil.mpr hspans, hrest⟩, fun hall => hall.2⟩

end

section

variable {adapter : LanguageAdapter} {content : Text} {blob : Blob} {spec : SearchSpec} {scope : RepoScope}
  {reader : Reader} {entry : BlobEntry} {data : Bytes}

def OneALine (spans : List Span) : Prop :=
  (∀ span ∈ spans, span.endLine = span.startLine) ∧ spans.Pairwise fun a b => a.startLine ≠ b.startLine

structure Lined (adapter : LanguageAdapter) (content : Text) : Prop where
  empty : ∀ wholeFile, adapter.findMatchesEx content [] wholeFile = .ok ⟨[], false⟩
  lines : ∀ preds wholeFile result, adapter.findMatchesEx content preds wholeFile = .ok result → OneALine result.spans

/-- Predicates that find different spans nowhere on the same line. -/
def Agreeing (adapter : LanguageAdapter) (content : Text) (should : List Predicate) : Prop :=
  ∀ pred ∈ should, ∀ other ∈ should, ∀ a b, Finds adapter content pred a → Finds adapter content other b →
    a.startLine = b.startLine → a = b

theorem spanIdentity_inj {a b : Span} (ha : a.endLine = a.startLine) (hb : b.endLine = b.startLine) :
    spanIdentity blob a = spanIdentity blob b ↔ a.startLine = b.startLine := by
  unfold spanIdentity sourceIdentity
  rw [ha, hb]
  simp

theorem Finds.oneLine (hlined : Lined adapter content) {pred : Predicate} {span : Span}
    (h : Finds adapter content pred span) : span.endLine = span.startLine := by
  obtain ⟨result, hresult, hspan⟩ := h
  exact (hlined.lines _ _ _ hresult).1 span hspan

/-- Only without required predicates on the content can two matches of a file have one identity. -/
theorem Reported.nodup_iff {contentMust should : List Predicate} {wholeFile : Bool} {spans : List Span}
    (h : Reported adapter content contentMust should wholeFile spans) (blob : Blob) (hlined : Lined adapter content) :
    (spans.map (spanIdentity blob)).Nodup ↔ (contentMust = [] → Agreeing adapter content should) := by
  by_cases hmust : contentMust = []
  · obtain ⟨hnodup, hmem⟩ := h.optional hmust
    have hline : ∀ span ∈ spans, span.endLine = span.startLine := by
      intro span hspan
      obtain ⟨pred, -, hfinds⟩ := (hmem span).mp hspan
      exact hfinds.oneLine hlined
    simp only [hmust, forall_const]
    rw [nodup_map_iff_inj_on hnodup]
    constructor
    · intro hinj pred hpred other hother a b ha hb hstart
      refine hinj a ((hmem a).mpr ⟨pred, hpred, ha⟩) b ((hmem b).mpr ⟨other, hother, hb⟩) ?_
      exact (spanIdentity_inj (ha.oneLine hlined) (hb.oneLine hlined)).mpr hstart
    · intro hagree a ha b hb hidentity
      obtain ⟨pred, hpred, hfinds⟩ := (hmem a).mp ha
      obtain ⟨other, hother, hfinds'⟩ := (hmem b).mp hb
      exact hagree pred hpred other hother a b hfinds hfinds' ((spanIdentity_inj (hline a ha) (hline b hb)).mp hidentity)
  · obtain ⟨result, hresult, rfl⟩ := h.required hmust
    obtain ⟨hline, hdistinct⟩ := hlined.lines _ _ _ hresult
    refine ⟨fun _ hnil => absurd hnil hmust, fun _ => ?_⟩
    rw [List.Nodup, pairwise_map]
    refine List.Pairwise.imp_of_mem ?_ hdistinct
    intro a b ha hb hne hidentity
    exact hne ((spanIdentity_inj (hline a ha) (hline b hb)).mp hidentity)

def Matched (adapter : LanguageAdapter) (content : Text) (spec : SearchSpec) : Prop :=
  Admits adapter content spec.mustNot ∧
    if spec.contentMust = [] then ∃ pred ∈ spec.should, Found adapter content pred
    else Held adapter content spec.contentMust spec.wholeFileMust

theorem Reported.ne_nil_iff {spans : List Span}
    (h : Reported adapter content spec.contentMust spec.should spec.wholeFileMust spans) :
    spans ≠ [] ↔ if spec.contentMust = [] then ∃ pred ∈ spec.should, Found adapter content pred
      else Held adapter content spec.contentMust spec.wholeFileMust := by
  split
  next hmust =>
    obtain ⟨-, hmem⟩ := h.optional hmust
    constructor
    · intro hne
      obtain ⟨span, hspan⟩ := exists_mem_of_ne_nil _ hne
      obtain ⟨pred, hpred, hfinds⟩ := (hmem span).mp hspan
      exact ⟨pred, hpred, found_iff.mpr ⟨span, hfinds⟩⟩
    · rintro ⟨pred, hpred, hfound⟩
      obtain ⟨span, hfinds⟩ := found_iff.mp hfound
      exact ne_nil_of_mem ((hmem span).mpr ⟨pred, hpred, hfinds⟩)
  next hmust =>
    obtain ⟨result, hresult, rfl⟩ := h.required hmust
    constructor
    · exact fun hne => ⟨result, hresult, hne⟩
    · rintro ⟨own, hown, hne⟩
      rw [hresult] at hown
      cases hown
      exact hne

structure Served (adapter : LanguageAdapter) (content : Text) (spec : SearchSpec) : Prop where
  mustNot : AskedInTurn adapter content spec.mustNot
  answerable : Admits adapter content spec.mustNot →
    Answerable adapter content spec.contentMust spec.should spec.wholeFileMust
  agreeing : Admits adapter content spec.mustNot → spec.contentMust = [] → Agreeing adapter content spec.should

/-- The matches of a file that is read. -/
theorem scanWhole_ok {coverage : Coverage} (hread : reader.read entry = .ok data)
    (hlined : Lined adapter (Utf8.decodeReplace data)) (h : scanWhole spec scope reader adapter entry = .ok coverage) :
    (coverage.matches_ ≠ [] ↔ Matched adapter (Utf8.decodeReplace data) spec) ∧
      ((coverage.matches_.map SourceMatch.identity).Nodup ↔ Served adapter (Utf8.decodeReplace data) spec) := by
  unfold scanWhole at h
  rw [hread] at h
  obtain ⟨⟨excluded, unavailable⟩, hexcluded, h⟩ := bind_ok (liftSearch_ok h)
  have hturn := documentExcludedEx_ok_iff.mp ⟨_, hexcluded⟩
  obtain ⟨hclear, hadmits⟩ := documentExcludedEx_result hexcluded
  dsimp only at h
  split at h
  next hhit =>
    cases h
    have hnot : ¬ Admits adapter (Utf8.decodeReplace data) spec.mustNot := by
      rw [← hadmits, hhit]
      simp
    refine ⟨⟨fun hne => absurd rfl hne, fun hmatched => absurd hmatched.1 hnot⟩, ?_, fun _ => nodup_nil⟩
    exact fun _ => ⟨hturn, fun hadmits => absurd hadmits hnot, fun hadmits => absurd hadmits hnot⟩
  next hnot =>
    rw [Bool.not_eq_true] at hnot
    obtain ⟨⟨found, flagged⟩, hfound, h⟩ := bind_ok h
    cases h
    obtain ⟨hanswerable, spans, hreported, hidentity⟩ := scoreContentEx_ok (hclear hnot) (hlined.empty _) hfound
    have hclean := hadmits.mp hnot
    have hnodup := hreported.nodup_iff (entry.at_ scope.slug scope.commitSha) hlined
    refine ⟨?_, ?_, ?_⟩
    · have hne : found ≠ [] ↔ spans ≠ [] := by
        have hlength := congrArg List.length hidentity
        rw [length_map, length_map] at hlength
        rw [← length_pos_iff, hlength, length_pos_iff]
      dsimp only
      rw [hne, hreported.ne_nil_iff]
      exact ⟨fun hheld => ⟨hclean, hheld⟩, fun hmatched => hmatched.2⟩
    · intro hdistinct
      rw [hidentity, hnodup] at hdistinct
      exact ⟨hturn, fun _ => hanswerable, fun _ => hdistinct⟩
    · intro hserved
      rw [hidentity, hnodup]
      exact hserved.agreeing hclean

theorem scanWhole_total (hread : reader.read entry = .ok data) (h : Served adapter (Utf8.decodeReplace data) spec) :
    ∃ coverage, scanWhole spec scope reader adapter entry = .ok coverage := by
  obtain ⟨⟨excluded, unavailable⟩, hexcluded⟩ :
      ∃ result, documentExcludedEx adapter (Utf8.decodeReplace data) spec.mustNot false = .ok result :=
    documentExcludedEx_ok_iff.mpr h.mustNot
  obtain ⟨hclear, hadmits⟩ := documentExcludedEx_result hexcluded
  unfold scanWhole
  rw [hread]
  dsimp only
  rw [bind_eq hexcluded]
  cases excluded with
  | true => exact ⟨_, rfl⟩
  | false =>
    obtain ⟨found, hfound⟩ :=
      scoreContentEx_total (entry.at_ scope.slug scope.commitSha) (hclear rfl) (h.answerable (hadmits.mp rfl))
    simp only [Bool.false_eq_true, if_false]
    rw [bind_eq hfound]
    exact ⟨_, rfl⟩

end

end Leitir.Search
