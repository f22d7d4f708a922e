import Leitir.SearchAnswers

namespace Leitir.Search

open ExceptRun List

section

def Span.shift (span : Span) (offset : Nat) : Span :=
  { span with startLine := span.startLine + offset, endLine := span.endLine + offset }

/-- Spans of single lines, in the order of the lines, and one for a line at most. -/
structure LineByLine (spans : List Span) : Prop where
  lines : ∀ span ∈ spans, 1 ≤ span.startLine ∧ span.endLine = span.startLine
  sorted : spans.Pairwise fun a b => a.startLine < b.startLine

theorem LineByLine.nodup {spans : List Span} (h : LineByLine spans) : spans.Nodup := by
  refine h.sorted.imp ?_
  intro a b hlt heq
  rw [heq] at hlt
  exact lt_irrefl _ hlt

/-- The answers for the parts of a text, each moved to the lines where the part stands. -/
inductive Spliced (adapter : LanguageAdapter) (preds : List Predicate) : Nat → List Text → List Span → Prop
  | nil (offset : Nat) : Spliced adapter preds offset [] []
  | cons {offset : Nat} {batch : Text} {rest : List Text} {part others : List Span}
      (hfind : adapter.findMatchesEx batch preds false = .ok ⟨part, false⟩) (hpart : LineByLine part)
      (hbound : rest ≠ [] → ∀ span ∈ part, span.startLine ≤ batch.count 10)
      (hrest : Spliced adapter preds (offset + batch.count 10) rest others) :
      Spliced adapter preds offset (batch :: rest) (part.map (fun span => span.shift offset) ++ others)

variable {adapter : LanguageAdapter} {preds : List Predicate}

theorem Spliced.after {offset : Nat} {batches : List Text} {whole : List Span}
    (h : Spliced adapter preds offset batches whole) : ∀ span ∈ whole, offset < span.startLine := by
  induction h with
  | nil => simp
  | cons _ hpart _ _ ih =>
    intro span hspan
    rcases mem_append.mp hspan with hspan | hspan
    · obtain ⟨own, hown, rfl⟩ := mem_map.mp hspan
      have := (hpart.lines own hown).1
      simp only [Span.shift]
      omega
    · have := ih span hspan
      omega

theorem LineByLine.shift {spans : List Span} (h : LineByLine spans) (offset : Nat) :
    LineByLine (spans.map fun span => span.shift offset) := by
  constructor
  · intro span hspan
    obtain ⟨own, hown, rfl⟩ := mem_map.mp hspan
    have := h.lines own hown
    simp only [Span.shift]
    omega
  · rw [pairwise_map]
    refine h.sorted.imp ?_
    intro a b hlt
    simp only [Span.shift]
    omega

theorem Spliced.lineByLine {offset : Nat} {batches : List Text} {whole : List Span}
    (h : Spliced adapter preds offset batches whole) : LineByLine whole := by
  induction h with
  | nil => exact ⟨by simp, List.Pairwise.nil⟩
  | @cons offset batch rest part others _ hpart hbound hrest ih =>
    have hmoved := hpart.shift offset
    constructor
    · intro span hspan
      rcases mem_append.mp hspan with hspan | hspan
      · exact hmoved.lines span hspan
      · exact ih.lines span hspan
    · rw [pairwise_append]
      refine ⟨hmoved.sorted, ih.sorted, ?_⟩
      intro a ha b hb
      obtain ⟨own, hown, rfl⟩ := mem_map.mp ha
      have hne : rest ≠ [] := by
        intro hnil
        subst hnil
        cases hrest
        simp at hb
      have hlow := hbound hne own hown
      have hhigh := hrest.after b hb
      simp only [Span.shift]
      omega

/-- The answer for a whole text at the batches from some place on. -/
structure Placed (adapter : LanguageAdapter) (content : Text) (preds : List Predicate) (offset : Nat)
    (batches : List Text) (earlier tail : List Span) : Prop where
  find : adapter.findMatchesEx content preds false = .ok ⟨earlier ++ tail, false⟩
  before : ∀ span ∈ earlier, span.startLine ≤ offset ∧ span.endLine = span.startLine
  spliced : Spliced adapter preds offset batches tail

theorem Placed.next {content batch : Text} {offset : Nat} {rest : List Text} {earlier tail : List Span}
    (h : Placed adapter content preds offset (batch :: rest) earlier tail) (hne : rest ≠ []) :
    ∃ part others, adapter.findMatchesEx batch preds false = .ok ⟨part, false⟩ ∧ LineByLine part ∧
      tail = part.map (fun span => span.shift offset) ++ others ∧
      Placed adapter content preds (offset + batch.count 10) rest (earlier ++ part.map fun span => span.shift offset)
        others := by
  obtain ⟨hfind, hbefore, hspliced⟩ := h
  cases hspliced with
  | @cons _ _ _ part others hpartFind hpart hbound hrest =>
    refine ⟨part, others, hpartFind, hpart, rfl, ⟨?_, ?_, hrest⟩⟩
    · rw [append_assoc]
      exact hfind
    · intro span hspan
      rcases mem_append.mp hspan with hspan | hspan
      · have := hbefore span hspan
        omega
      · obtain ⟨own, hown, rfl⟩ := mem_map.mp hspan
        have hlow := hbound hne own hown
        have hline := (hpart.lines own hown).2
        simp only [Span.shift]
        omega

/-- A predicate hits a line of the whole text as it hits the line of the part. -/
structure Local (adapter : LanguageAdapter) (content batch : Text) (offset line : Nat) (pred : Predicate)
    (whole part : List Span) : Prop where
  findWhole : adapter.findMatchesEx content [pred] false = .ok ⟨whole, false⟩
  findPart : adapter.findMatchesEx batch [pred] false = .ok ⟨part, false⟩
  linesWhole : ∀ span ∈ whole, span.endLine = span.startLine
  linesPart : ∀ span ∈ part, span.endLine = span.startLine
  here : (whole.filter fun span => span.startLine = line + offset) =
    (part.filter fun span => span.startLine = line).map fun span => span.shift offset

theorem filter_shift (part : List Span) (offset line : Nat) :
    ((part.map fun span => span.shift offset).filter fun span => span.startLine = line + offset) =
      (part.filter fun span => span.startLine = line).map fun span => span.shift offset := by
  rw [filter_map]
  congr 1
  refine filter_congr ?_
  intro span _
  simp [Span.shift]

theorem Placed.local_ {content batch : Text} {offset line : Nat} {rest : List Text} {pred : Predicate}
    {earlier tail : List Span} (h : Placed adapter content [pred] offset (batch :: rest) earlier tail) (hline : 1 ≤ line)
    (hbound : rest ≠ [] → line ≤ batch.count 10) : ∃ whole part, Local adapter content batch offset line pred whole part := by
  obtain ⟨hfind, hbefore, hspliced⟩ := h
  have htail := hspliced.lineByLine
  cases hspliced with
  | @cons _ _ _ part others hpartFind hpart hpartBound hrest =>
    refine ⟨_, part, hfind, hpartFind, ?_, fun span hspan => (hpart.lines span hspan).2, ?_⟩
    · intro span hspan
      rcases mem_append.mp hspan with hspan | hspan
      · exact (hbefore span hspan).2
      · exact (htail.lines span hspan).2
    · have hearlier : earlier.filter (fun span => decide (span.startLine = line + offset)) = [] := by
        rw [filter_eq_nil_iff]
        intro span hspan
        have := (hbefore span hspan).1
        simp only [decide_eq_true_eq]
        omega
      have hothers : others.filter (fun span => decide (span.startLine = line + offset)) = [] := by
        rw [filter_eq_nil_iff]
        intro span hspan
        have hne : rest ≠ [] := by
          intro hnil
          subst hnil
          cases hrest
          simp at hspan
        have hafter := hrest.after span hspan
        have := hbound hne
        simp only [decide_eq_true_eq]
        omega
      rw [filter_append, filter_append, hearlier, hothers, nil_append, append_nil, filter_shift]

end

section

variable {adapter : LanguageAdapter} {content batch : Text} {offset : Nat} {blob : Blob}
  {contentMust should mustNot : List Predicate} {span : Span}

theorem Local.any {line : Nat} {pred : Predicate} {whole part : List Span}
    (h : Local adapter content batch offset line pred whole part) :
    (whole.any fun hit => hit.startLine = line + offset) = part.any fun hit => hit.startLine = line := by
  have hany : ∀ (spans : List Span) (test : Span → Bool), spans.any test = !(spans.filter test).isEmpty := by
    intro spans test
    induction spans with
    | nil => rfl
    | cons head spans ih =>
      cases htest : test head with
      | true => simp [htest]
      | false => simp [htest, ih]
  rw [hany, hany, h.here, isEmpty_map]

variable {whole : Tally} {spans : List Span}

theorem overlapping_eq (hspans : ∀ item ∈ spans, item.endLine = item.startLine)
    (hspan : span.endLine = span.startLine) :
    (spans.filter fun item => item.startLine ≤ span.endLine ∧ span.startLine ≤ item.endLine) =
      spans.filter fun item => item.startLine = span.startLine := by
  refine filter_congr ?_
  intro item hitem
  have := hspans item hitem
  rw [decide_eq_decide]
  omega

theorem spanExcludedEx_local
    (h : ∀ pred ∈ mustNot, pred.kind ≠ .path → ∃ whole part, Local adapter content batch offset span.startLine pred whole part) :
    ∃ excluded, spanExcludedEx adapter batch span false mustNot false = .ok (excluded, false) ∧
      spanExcludedEx adapter content (span.shift offset) false mustNot false = .ok (excluded, false) := by
  induction mustNot with
  | nil => exact ⟨false, rfl, rfl⟩
  | cons pred rest ih =>
    obtain ⟨excluded, hbatch, hcontent⟩ := ih fun other hother => h other (mem_cons_of_mem _ hother)
    by_cases hkind : pred.kind = .path
    · refine ⟨excluded, ?_, ?_⟩
      · rw [spanExcludedEx, if_pos hkind, hbatch]
      · rw [spanExcludedEx, if_pos hkind, hcontent]
    · obtain ⟨whole, part, hlocal⟩ := h pred mem_cons_self hkind
      have hwhole : (whole.any fun hit => decide (hit.startLine = (span.shift offset).startLine)) =
          part.any fun hit => decide (hit.startLine = span.startLine) := hlocal.any
      rw [spanExcludedEx, spanExcludedEx, if_neg hkind, hlocal.findPart, hlocal.findWhole]
      simp only [bind, Except.bind, Bool.or_self, Bool.false_eq_true, false_and, if_false, hwhole, hbatch, hcontent]
      split
      next => exact ⟨true, rfl, rfl⟩
      next => exact ⟨excluded, rfl, rfl⟩

theorem overlappingShould_local (hspan : span.endLine = span.startLine)
    (h : ∀ pred ∈ should, ∃ whole part, Local adapter content batch offset span.startLine pred whole part) (tally : Tally)
    (htally : tally.unavailable = false) :
    ∃ final, final.unavailable = false ∧ overlappingShould adapter batch span should tally = .ok final ∧
      overlappingShould adapter content (span.shift offset) should tally = .ok final := by
  induction should generalizing tally with
  | nil => exact ⟨tally, htally, rfl, rfl⟩
  | cons pred rest ih =>
    obtain ⟨whole, part, hlocal⟩ := h pred mem_cons_self
    have hrest := fun tally htally => ih (fun other hother => h other (mem_cons_of_mem _ hother)) tally htally
    have hshift : (span.shift offset).endLine = (span.shift offset).startLine := by
      simp only [Span.shift]
      omega
    have hwhole := overlapping_eq hlocal.linesWhole hshift
    have hpart := overlapping_eq hlocal.linesPart hspan
    have hhere : (whole.filter fun item => decide (item.startLine = (span.shift offset).startLine)) =
        (part.filter fun item => decide (item.startLine = span.startLine)).map fun item => item.shift offset := hlocal.here
    have hkinds : ((part.filter fun item => decide (item.startLine = span.startLine)).map fun item =>
        item.shift offset).flatMap (fun item => item.matchedKinds) =
          (part.filter fun item => decide (item.startLine = span.startLine)).flatMap fun item => item.matchedKinds := by
      rw [flatMap_map]
      rfl
    simp only [overlappingShould, hlocal.findPart, hlocal.findWhole, bind, Except.bind, htally, Bool.or_self, hwhole, hpart,
      hhere, hkinds, ne_eq, map_eq_nil_iff]
    split
    next => exact hrest _ rfl
    next => exact hrest _ rfl

theorem scoreSpan_local (whole : Tally) (hspan : span.endLine = span.startLine)
    (hnot : ∀ pred ∈ mustNot, pred.kind ≠ .path →
      ∃ whole part, Local adapter content batch offset span.startLine pred whole part)
    (hshould : ∀ pred ∈ should, ∃ whole part, Local adapter content batch offset span.startLine pred whole part) :
    ∃ found, scoreSpan adapter batch blob contentMust should mustNot false whole span false = .ok (found, false) ∧
      scoreSpan adapter content blob contentMust should mustNot false whole (span.shift offset) false =
        .ok (found.map fun item => item.rebase offset, false) := by
  obtain ⟨excluded, hbatch, hcontent⟩ := spanExcludedEx_local hnot
  obtain ⟨tally, htally, hbatch', hcontent'⟩ := overlappingShould_local hspan hshould { unavailable := false } rfl
  unfold scoreSpan
  simp only [hbatch, hcontent, bind, Except.bind]
  cases excluded with
  | true => exact ⟨none, rfl, rfl⟩
  | false =>
    simp only [Bool.false_eq_true, if_false, hbatch', hcontent', htally]
    exact ⟨_, rfl, rfl⟩

theorem scoreSpans_local {spans : List Span} (whole : Tally) (hspans : ∀ span ∈ spans, span.endLine = span.startLine)
    (hnot : ∀ span ∈ spans, ∀ pred ∈ mustNot, pred.kind ≠ .path →
      ∃ whole part, Local adapter content batch offset span.startLine pred whole part)
    (hshould : ∀ span ∈ spans, ∀ pred ∈ should,
      ∃ whole part, Local adapter content batch offset span.startLine pred whole part) :
    ∃ found, scoreSpans adapter batch blob contentMust should mustNot false whole spans false = .ok (found, false) ∧
      scoreSpans adapter content blob contentMust should mustNot false whole
        (spans.map fun span => span.shift offset) false = .ok (found.map fun item => item.rebase offset, false) := by
  induction spans with
  | nil => exact ⟨[], rfl, rfl⟩
  | cons span spans ih =>
    obtain ⟨others, hbatch, hcontent⟩ := ih (fun other h => hspans other (mem_cons_of_mem _ h))
      (fun other h => hnot other (mem_cons_of_mem _ h)) fun other h => hshould other (mem_cons_of_mem _ h)
    obtain ⟨own, hown, hown'⟩ := @scoreSpan_local adapter content batch offset blob contentMust should mustNot span whole
      (hspans span mem_cons_self) (hnot span mem_cons_self) (hshould span mem_cons_self)
    refine ⟨own.toList ++ others, ?_, ?_⟩
    · simp only [scoreSpans, hown, hbatch, bind, Except.bind]
      rfl
    · simp only [map_cons, scoreSpans, hown', hcontent, bind, Except.bind]
      cases own with
      | none => rfl
      | some item => rfl

theorem scoreSpans_append {spans' : List Span} {found found' : List SourceMatch}
    (h : scoreSpans adapter content blob contentMust should mustNot false whole spans false = .ok (found, false))
    (h' : scoreSpans adapter content blob contentMust should mustNot false whole spans' false = .ok (found', false)) :
    scoreSpans adapter content blob contentMust should mustNot false whole (spans ++ spans') false =
      .ok (found ++ found', false) := by
  have hstep : ∀ spans unavailable, scoreSpans adapter content blob contentMust should mustNot false whole
      (spans ++ spans') unavailable =
        scoreSpans adapter content blob contentMust should mustNot false whole spans unavailable >>= fun own =>
          scoreSpans adapter content blob contentMust should mustNot false whole spans' own.2 >>= fun others =>
            pure (own.1 ++ others.1, others.2) := by
    intro spans
    induction spans with
    | nil =>
      intro unavailable
      simp only [nil_append, scoreSpans, bind, Except.bind]
      cases scoreSpans adapter content blob contentMust should mustNot false whole spans' unavailable with
      | error err => rfl
      | ok result => rfl
    | cons span spans ih =>
      intro unavailable
      simp only [cons_append, scoreSpans, bind, Except.bind]
      cases scoreSpan adapter content blob contentMust should mustNot false whole span unavailable with
      | error err => rfl
      | ok result =>
        simp only [ih, bind, Except.bind]
        cases scoreSpans adapter content blob contentMust should mustNot false whole spans result.2 with
        | error err => rfl
        | ok own =>
          cases hothers : scoreSpans adapter content blob contentMust should mustNot false whole spans' own.2 with
          | error err => simp [pure, Except.pure, hothers]
          | ok others => simp [pure, Except.pure, hothers]
  rw [hstep, h]
  simp only [bind, Except.bind, h']
  rfl

def driver (contentMust should : List Predicate) : List Predicate := if contentMust = [] then should else contentMust

theorem eraseDups_of_nodup {α : Type} [DecidableEq α] {items : List α} (h : items.Nodup) : items.eraseDups = items := by
  induction items with
  | nil => rfl
  | cons item items ih =>
    rw [nodup_cons] at h
    rw [eraseDups_cons, filter_eq_self.mpr ?_, ih h.2]
    intro other hother
    have hne : other ≠ item := fun heq => h.1 (heq ▸ hother)
    simp [hne]

theorem scoreContentEx_driven {spans : List Span} (hempty : adapter.findMatchesEx content [] false = .ok ⟨[], false⟩)
    (hdriver : contentMust ≠ [] ∨ should.length ≤ 1)
    (hfind : adapter.findMatchesEx content (driver contentMust should) false = .ok ⟨spans, false⟩) (hnodup : spans.Nodup) :
    scoreContentEx adapter content blob contentMust should mustNot false =
      scoreSpans adapter content blob contentMust should mustNot false {} spans false := by
  unfold driver at hfind
  by_cases hmust : contentMust = []
  · rw [if_pos hmust] at hfind
    subst hmust
    have hlength : should.length ≤ 1 := hdriver.resolve_left (fun h => h rfl)
    match should with
    | [] =>
      rw [hempty] at hfind
      cases hfind
      simp only [scoreContentEx, hempty, bind, Except.bind, ne_eq, not_true_eq_false, and_false, if_false, if_true,
        optionalSpans]
      rfl
    | [pred] =>
      simp only [scoreContentEx, hempty, bind, Except.bind, ne_eq, not_true_eq_false, and_false, if_false, if_true,
        optionalSpans, hfind, nil_append, eraseDups_of_nodup hnodup]
      rfl
    | _ :: _ :: _ => simp at hlength
  · rw [if_neg hmust] at hfind
    unfold scoreContentEx
    simp only [hfind, bind, Except.bind, hmust, ne_eq, not_false_eq_true, and_true]
    by_cases hnil : spans = []
    · rw [if_pos hnil, hnil]
      rfl
    · rw [if_neg hnil, if_neg hnil]
      rfl

/-- A document in which every excluded predicate is answered. -/
theorem documentExcludedEx_answered
    (h : ∀ pred ∈ mustNot, pred.kind ≠ .path → ∃ spans, adapter.findMatchesEx content [pred] false = .ok ⟨spans, false⟩) :
    ∃ excluded, documentExcludedEx adapter content mustNot false = .ok (excluded, false) ∧
      (excluded = true ↔ ∃ pred ∈ mustNot, pred.kind ≠ .path ∧
        ∃ spans, adapter.findMatchesEx content [pred] false = .ok ⟨spans, false⟩ ∧ spans ≠ []) := by
  induction mustNot with
  | nil => exact ⟨false, rfl, by simp⟩
  | cons pred rest ih =>
    obtain ⟨excluded, hrest, hiff⟩ := ih fun other hother => h other (mem_cons_of_mem _ hother)
    by_cases hkind : pred.kind = .path
    · refine ⟨excluded, by rw [documentExcludedEx, if_pos hkind, hrest], ?_⟩
      rw [hiff]
      simp [hkind]
    · obtain ⟨spans, hspans⟩ := h pred mem_cons_self hkind
      by_cases hnil : spans = []
      · refine ⟨excluded, ?_, ?_⟩
        · rw [documentExcludedEx, if_neg hkind, hspans]
          simp [bind, Except.bind, hnil, hrest]
        · rw [hiff]
          simp [hkind, hspans, hnil]
      · refine ⟨true, ?_, ?_⟩
        · rw [documentExcludedEx, if_neg hkind, hspans]
          simp [bind, Except.bind, hnil, pure, Except.pure]
        · exact ⟨fun _ => ⟨pred, mem_cons_self, hkind, spans, hspans, hnil⟩, fun _ => rfl⟩

theorem scoreSpan_line {unavailable flagged : Bool} {found : Option SourceMatch}
    (h : scoreSpan adapter content blob contentMust should mustNot false whole span unavailable = .ok (found, flagged)) :
    ∀ item ∈ found, item.source.startLine = span.startLine := by
  unfold scoreSpan at h
  obtain ⟨⟨excluded, unavailable'⟩, -, h⟩ := bind_ok h
  dsimp only at h
  split at h
  next =>
    cases h
    simp
  next =>
    obtain ⟨tally, -, h⟩ := bind_ok h
    cases h
    intro item hitem
    cases hitem
    rfl

def SourceMatch.line (found : SourceMatch) : Nat := found.source.startLine

theorem scoreSpans_lines {unavailable flagged : Bool} {found : List SourceMatch}
    (h : scoreSpans adapter content blob contentMust should mustNot false whole spans unavailable = .ok (found, flagged)) :
    (found.map SourceMatch.line).Sublist (spans.map fun span => span.startLine) := by
  induction spans generalizing unavailable flagged found with
  | nil =>
    cases h
    simp
  | cons span spans ih =>
    rw [scoreSpans] at h
    obtain ⟨⟨own, unavailable'⟩, hown, h⟩ := bind_ok h
    obtain ⟨⟨others, unavailable''⟩, hothers, h⟩ := bind_ok h
    cases h
    have hlines := ih hothers
    cases own with
    | none => simpa using hlines.cons span.startLine
    | some item =>
      have hline : item.line = span.startLine := scoreSpan_line hown item rfl
      simp only [Option.toList_some, cons_append, nil_append, map_cons, hline]
      exact hlines.cons_cons _

end

section

variable {blob : Blob}

theorem line_of_identity {a b : SourceMatch} (h : a.identity = b.identity) : a.line = b.line := by
  simp only [SourceMatch.identity, sourceIdentity, List.cons.injEq] at h
  exact h.2.2.2.2.1.1

theorem foldl_addPending {pending found : List SourceMatch} (h : ((pending ++ found).map SourceMatch.line).Nodup) :
    found.foldl addPending pending = pending ++ found := by
  induction found generalizing pending with
  | nil => simp
  | cons item found ih =>
    have hnew : addPending pending item = pending ++ [item] := by
      unfold addPending
      rw [if_neg]
      intro hany
      obtain ⟨prior, hprior, hsame⟩ := any_eq_true.mp hany
      rw [map_append, List.nodup_append] at h
      refine h.2.2 prior.line (mem_map_of_mem hprior) item.line (by simp) ?_
      exact line_of_identity (by simpa using hsame)
    rw [foldl_cons, hnew, ih (by simpa using h)]
    simp

theorem identity_le {a b : SourceMatch} (ha : blob.Owns a.source) (hb : blob.Owns b.source) (h : a.line < b.line) :
    a.identity ≤ b.identity := by
  obtain ⟨ha1, ha2, ha3, ha4⟩ := ha
  obtain ⟨hb1, hb2, hb3, hb4⟩ := hb
  unfold SourceMatch.identity sourceIdentity
  rw [ha1, ha2, ha3, ha4, hb1, hb2, hb3, hb4]
  refine cons_le_cons _ (cons_le_cons _ (cons_le_cons _ (cons_le_cons _ ?_)))
  have hline : [a.source.startLine] < [b.source.startLine] := by
    rw [cons_lt_cons_iff]
    exact Or.inl h
  refine le_of_lt ?_
  rw [cons_lt_cons_iff]
  exact Or.inl hline

theorem sortBy_identity {found : List SourceMatch} (howned : ∀ item ∈ found, blob.Owns item.source)
    (hsorted : (found.map SourceMatch.line).Pairwise (· < ·)) :
    KeyedList.sortBy SourceMatch.identity found = found := by
  unfold KeyedList.sortBy
  refine List.Pairwise.insertionSort_eq ?_
  rw [pairwise_map] at hsorted
  exact hsorted.imp_of_mem fun ha hb h => identity_le (howned _ ha) (howned _ hb) h

end

section

variable {adapter : LanguageAdapter} {content : Text} {blob : Blob} {spec : SearchSpec}

/-- All answers that a search asks for are those of the batches, from some place on. -/
structure Places (adapter : LanguageAdapter) (content : Text) (spec : SearchSpec) (offset : Nat) (batches : List Text)
    (tail : List Span) : Prop where
  main : ∃ earlier, Placed adapter content (driver spec.contentMust spec.should) offset batches earlier tail
  mustNot : ∀ pred ∈ spec.mustNot, pred.kind ≠ .path →
    ∃ earlier tail, Placed adapter content [pred] offset batches earlier tail
  should : tail ≠ [] → ∀ pred ∈ spec.should, ∃ earlier tail, Placed adapter content [pred] offset batches earlier tail

def Hit (adapter : LanguageAdapter) (mustNot : List Predicate) (text : Text) : Prop :=
  ∃ pred ∈ mustNot, pred.kind ≠ .path ∧
    ∃ spans, adapter.findMatchesEx text [pred] false = .ok ⟨spans, false⟩ ∧ spans ≠ []

theorem Places.next {offset : Nat} {batch : Text} {rest : List Text} {part others : List Span}
    (h : Places adapter content spec offset (batch :: rest) (part.map (fun span => span.shift offset) ++ others))
    (hfind : adapter.findMatchesEx batch (driver spec.contentMust spec.should) false = .ok ⟨part, false⟩)
    (hne : rest ≠ []) : Places adapter content spec (offset + batch.count 10) rest others := by
  refine ⟨?_, ?_, ?_⟩
  · obtain ⟨earlier, hmain⟩ := h.main
    obtain ⟨part', others', hfind', -, htail, hnext⟩ := hmain.next hne
    rw [hfind] at hfind'
    cases hfind'
    rw [append_cancel_left htail]
    exact ⟨_, hnext⟩
  · intro pred hpred hkind
    obtain ⟨earlier, tail, hplaced⟩ := h.mustNot pred hpred hkind
    obtain ⟨_, _, -, -, -, hnext⟩ := hplaced.next hne
    exact ⟨_, _, hnext⟩
  · intro hothers pred hpred
    obtain ⟨earlier, tail, hplaced⟩ := h.should (by simp [hothers]) pred hpred
    obtain ⟨_, _, -, -, -, hnext⟩ := hplaced.next hne
    exact ⟨_, _, hnext⟩

/-- What one batch adds: its matches at their lines, and whether it excludes the file. -/
theorem flushBatch_places {offset : Nat} {batch : Text} {rest : List Text} {tail : List Span} {scored : Scored}
    (hempty : ∀ text, adapter.findMatchesEx text [] false = .ok ⟨[], false⟩)
    (hdriver : spec.contentMust ≠ [] ∨ spec.should.length ≤ 1)
    (h : Places adapter content spec offset (batch :: rest) tail) (hbatch : batch ≠ [])
    (hflag : scored.unavailable = false) (hoffset : scored.lineOffset = offset)
    (hlines : (scored.pending.map SourceMatch.line).Nodup) (hbefore : ∀ item ∈ scored.pending, item.line ≤ offset) :
    ∃ part others found excluded, tail = part.map (fun span => span.shift offset) ++ others ∧
      adapter.findMatchesEx batch (driver spec.contentMust spec.should) false = .ok ⟨part, false⟩ ∧
      (rest ≠ [] → ∀ span ∈ part, span.startLine ≤ batch.count 10) ∧ (rest = [] → others = []) ∧
      scoreSpans adapter content blob spec.contentMust spec.should spec.mustNot false {}
        (part.map fun span => span.shift offset) false = .ok (found, false) ∧
      (excluded = true ↔ scored.fileExcluded = true ∨ Hit adapter spec.mustNot batch) ∧
      flushBatch adapter blob spec scored batch =
        .ok ⟨excluded, false, offset + batch.count 10, scored.pending ++ found⟩ := by
  obtain ⟨earlier, hmain⟩ := h.main
  obtain ⟨part, others, hpartFind, hpart, hbound, hlast, htail⟩ : ∃ part others,
      adapter.findMatchesEx batch (driver spec.contentMust spec.should) false = .ok ⟨part, false⟩ ∧ LineByLine part ∧
      (rest ≠ [] → ∀ span ∈ part, span.startLine ≤ batch.count 10) ∧ (rest = [] → others = []) ∧
      tail = part.map (fun span => span.shift offset) ++ others := by
    cases hmain.spliced with
    | cons hfind hpart hbound hrest =>
      refine ⟨_, _, hfind, hpart, hbound, ?_, rfl⟩
      intro hnil
      subst hnil
      cases hrest
      rfl
  have hnot : ∀ span ∈ part, ∀ pred ∈ spec.mustNot, pred.kind ≠ .path →
      ∃ whole own, Local adapter content batch offset span.startLine pred whole own := by
    intro span hspan pred hpred hkind
    obtain ⟨earlier, tail, hplaced⟩ := h.mustNot pred hpred hkind
    exact hplaced.local_ (hpart.lines span hspan).1 fun hne => hbound hne span hspan
  have hshould : ∀ span ∈ part, ∀ pred ∈ spec.should,
      ∃ whole own, Local adapter content batch offset span.startLine pred whole own := by
    intro span hspan pred hpred
    have hsome : tail ≠ [] := by
      rw [htail]
      simp [ne_nil_of_mem hspan]
    obtain ⟨earlier, tail, hplaced⟩ := h.should hsome pred hpred
    exact hplaced.local_ (hpart.lines span hspan).1 fun hne => hbound hne span hspan
  obtain ⟨own, hown, hcontent⟩ := @scoreSpans_local adapter content batch offset blob spec.contentMust spec.should
    spec.mustNot part {} (fun span hspan => (hpart.lines span hspan).2) hnot hshould
  have hanswered : ∀ pred ∈ spec.mustNot, pred.kind ≠ .path →
      ∃ spans, adapter.findMatchesEx batch [pred] false = .ok ⟨spans, false⟩ := by
    intro pred hpred hkind
    obtain ⟨earlier, tail, hplaced⟩ := h.mustNot pred hpred hkind
    cases hplaced.spliced with
    | cons hfind _ _ _ => exact ⟨_, hfind⟩
  obtain ⟨excluded, hexcluded, hiff⟩ := documentExcludedEx_answered hanswered
  have hscore := (@scoreContentEx_driven adapter batch blob spec.contentMust spec.should spec.mustNot part (hempty batch)
    hdriver hpartFind hpart.nodup).trans hown
  have hnodup : ((scored.pending ++ own.map fun item => item.rebase offset).map SourceMatch.line).Nodup := by
    have hsorted := (hpart.shift offset).sorted
    rw [← pairwise_map (f := fun span : Span => span.startLine) (R := (· < ·))] at hsorted
    have hsub := scoreSpans_lines hcontent
    have hincreasing := hsorted.sublist hsub
    rw [map_append, List.nodup_append]
    refine ⟨hlines, hincreasing.imp ne_of_lt, ?_⟩
    intro line hline line' hline' heq
    obtain ⟨item, hitem, rfl⟩ := mem_map.mp hline
    obtain ⟨span, hspan, hown⟩ := mem_map.mp (hsub.subset hline')
    have hlow := hbefore item hitem
    obtain ⟨inner, hinner, rfl⟩ := mem_map.mp hspan
    have hpos := (hpart.lines inner hinner).1
    simp only [Span.shift] at hown
    omega
  refine ⟨part, others, own.map fun item => item.rebase offset, scored.fileExcluded || excluded, htail, hpartFind, hbound,
    hlast, hcontent, ?_, ?_⟩
  · rw [Bool.or_eq_true, hiff]
    rfl
  · unfold flushBatch
    rw [if_neg hbatch, hflag, hoffset]
    cases hb : scored.fileExcluded with
    | true =>
      simp only [if_true, pure, Except.pure, bind, Except.bind, hscore, foldl_addPending hnodup, Bool.or_self,
        Bool.true_or]
    | false =>
      simp only [Bool.false_eq_true, if_false, hexcluded, pure, Except.pure, bind, Except.bind, hscore,
        foldl_addPending hnodup, Bool.or_self, Bool.false_or]

/-- What all batches leave behind: the matches of the whole text, and whether one of them excludes the file. -/
theorem foldlM_places {batches : List Text} {offset : Nat} {tail : List Span} {scored : Scored}
    (hempty : ∀ text, adapter.findMatchesEx text [] false = .ok ⟨[], false⟩)
    (hdriver : spec.contentMust ≠ [] ∨ spec.should.length ≤ 1)
    (h : Places adapter content spec offset batches tail) (hbatches : ∀ batch ∈ batches, batch ≠ [])
    (hflag : scored.unavailable = false) (hoffset : scored.lineOffset = offset)
    (hlines : (scored.pending.map SourceMatch.line).Nodup) (hbefore : ∀ item ∈ scored.pending, item.line ≤ offset) :
    ∃ scored' found, batches.foldlM (flushBatch adapter blob spec) scored = .ok scored' ∧ scored'.unavailable = false ∧
      scored'.pending = scored.pending ++ found ∧
      scoreSpans adapter content blob spec.contentMust spec.should spec.mustNot false {} tail false = .ok (found, false) ∧
      (scored'.fileExcluded = true ↔ scored.fileExcluded = true ∨ ∃ batch ∈ batches, Hit adapter spec.mustNot batch) := by
  induction batches generalizing offset tail scored with
  | nil =>
    obtain ⟨earlier, hmain⟩ := h.main
    cases hmain.spliced
    exact ⟨scored, [], rfl, hflag, by simp, rfl, by simp⟩
  | cons batch rest ih =>
    obtain ⟨part, others, found, excluded, htail, hfind, hbound, hlast, hscore, hexcluded, hflush⟩ :=
      @flushBatch_places adapter content blob spec offset batch rest tail scored hempty hdriver h
        (hbatches batch mem_cons_self) hflag hoffset hlines hbefore
    have hiff : ∀ others : Prop, (excluded = true ∨ others) ↔
        (scored.fileExcluded = true ∨ Hit adapter spec.mustNot batch ∨ others) := by
      intro others
      rw [hexcluded, or_assoc]
    by_cases hnil : rest = []
    · subst hnil
      rw [htail, hlast rfl, append_nil]
      refine ⟨_, found, by rw [foldlM_cons, hflush]; rfl, rfl, rfl, hscore, ?_⟩
      simpa using hexcluded
    · subst htail
      have hsub := scoreSpans_lines hscore
      obtain ⟨earlier, hmain⟩ := h.main
      obtain ⟨part', others', hfind', hpart, -, -⟩ := hmain.next hnil
      rw [hfind] at hfind'
      cases hfind'
      have hincreasing : (found.map SourceMatch.line).Pairwise (· < ·) := by
        refine List.Pairwise.sublist hsub ?_
        rw [pairwise_map]
        exact (hpart.shift offset).sorted
      have hfound : ∀ item ∈ found, offset < item.line ∧ item.line ≤ offset + batch.count 10 := by
        intro item hitem
        obtain ⟨span, hspan, hline⟩ := mem_map.mp (hsub.subset (mem_map_of_mem hitem))
        obtain ⟨own, hown, rfl⟩ := mem_map.mp hspan
        have hlow := (hpart.lines own hown).1
        have hhigh := hbound hnil own hown
        simp only [Span.shift] at hline
        omega
      have hnodup : ((scored.pending ++ found).map SourceMatch.line).Nodup := by
        rw [map_append, List.nodup_append]
        refine ⟨hlines, hincreasing.imp ne_of_lt, ?_⟩
        intro line hline line' hline' heq
        obtain ⟨item, hitem, rfl⟩ := mem_map.mp hline
        obtain ⟨item', hitem', rfl⟩ := mem_map.mp hline'
        have hlow := hbefore item hitem
        have hhigh := (hfound item' hitem').1
        omega
      obtain ⟨scored', found', hrun, hflag', hpending, hscore', hexcluded'⟩ :=
        @ih (offset + batch.count 10) others ⟨excluded, false, offset + batch.count 10, scored.pending ++ found⟩
          (h.next hfind hnil) (fun other hother => hbatches other (mem_cons_of_mem _ hother)) rfl rfl hnodup (by
            intro item hitem
            rcases mem_append.mp hitem with hitem | hitem
            · have := hbefore item hitem
              omega
            · exact (hfound item hitem).2)
      refine ⟨scored', found ++ found', ?_, hflag', ?_, scoreSpans_append hscore hscore', ?_⟩
      · rw [foldlM_cons, hflush]
        exact hrun
      · rw [hpending, append_assoc]
      · rw [hexcluded', hiff]
        simp

theorem Spliced.ne_nil_iff {preds : List Predicate} {offset : Nat} {batches : List Text} {whole : List Span}
    (h : Spliced adapter preds offset batches whole) :
    whole ≠ [] ↔ ∃ batch ∈ batches, ∃ part, adapter.findMatchesEx batch preds false = .ok ⟨part, false⟩ ∧ part ≠ [] := by
  induction h with
  | nil => simp
  | @cons offset batch rest part others hfind _ _ _ ih =>
    have hown : (∃ part, adapter.findMatchesEx batch preds false = .ok ⟨part, false⟩ ∧ part ≠ []) ↔ part ≠ [] := by
      constructor
      · rintro ⟨part', hfind', hne⟩
        rw [hfind] at hfind'
        cases hfind'
        exact hne
      · exact fun hne => ⟨part, hfind, hne⟩
    rw [exists_mem_cons_iff, hown, ← ih]
    simp only [ne_eq, append_eq_nil_iff, map_eq_nil_iff]
    tauto

/-- Document exclusion, then scoring of the whole content. -/
def scoreInMemory (adapter : LanguageAdapter) (blob : Blob) (spec : SearchSpec) (content : Text) :
    Except PatternError (List SourceMatch × Bool) := do
  let (excluded, unavailable) ← documentExcludedEx adapter content spec.mustNot false
  if excluded then pure ([], unavailable)
  else
    let (found, flagged) ← scoreContentEx adapter content blob spec.contentMust spec.should spec.mustNot spec.wholeFileMust
    pure (found, unavailable || flagged)

theorem foldlM_flushBatch_filter (batches : List Text) (scored : Scored) :
    batches.foldlM (flushBatch adapter blob spec) scored =
      (batches.filter fun batch => batch ≠ []).foldlM (flushBatch adapter blob spec) scored := by
  induction batches generalizing scored with
  | nil => rfl
  | cons batch rest ih =>
    by_cases hbatch : batch = []
    · have hskip : flushBatch adapter blob spec scored batch = .ok scored := by
        unfold flushBatch
        rw [if_pos hbatch]
      rw [foldlM_cons, hskip, filter_cons_of_neg (by simpa using hbatch)]
      exact ih scored
    · rw [foldlM_cons, filter_cons_of_pos (by simpa using hbatch), foldlM_cons]
      congr 1
      funext next
      exact ih next

/-- A search whose answers are those of the batches gives the same matches in a stream and in memory. -/
theorem scoreBatches_places {whole : List Span} (hwhole : spec.wholeFileMust = false)
    (hempty : ∀ text, adapter.findMatchesEx text [] false = .ok ⟨[], false⟩)
    (hdriver : spec.contentMust ≠ [] ∨ spec.should.length ≤ 1)
    (h : Places adapter content spec 0 ((streamBatches content).filter fun batch => batch ≠ []) whole)
    (hall : adapter.findMatchesEx content (driver spec.contentMust spec.should) false = .ok ⟨whole, false⟩)
    (hnot : ∀ pred ∈ spec.mustNot, pred.kind ≠ .path → ∃ own, adapter.findMatchesEx content [pred] false =
      .ok ⟨own, false⟩ ∧ Spliced adapter [pred] 0 ((streamBatches content).filter fun batch => batch ≠ []) own) :
    ∃ scored found, scoreBatches adapter blob spec content = .ok scored ∧
      scoreInMemory adapter blob spec content = .ok (found, false) ∧ scored.outcome = (found, false, false) := by
  obtain ⟨scored, found, hrun, hflag, hpending, hscore, hexcluded⟩ :=
    @foldlM_places adapter content blob spec _ 0 whole {} hempty hdriver h
      (fun batch hbatch => by simpa using (mem_filter.mp hbatch).2) rfl rfl (by simp) (by simp)
  have hlines : LineByLine whole := by
    obtain ⟨earlier, hmain⟩ := h.main
    exact hmain.spliced.lineByLine
  obtain ⟨excluded, hdocument, hhit⟩ := documentExcludedEx_answered fun pred hpred hkind =>
    (hnot pred hpred hkind).imp fun own hown => hown.1
  have hsame : scored.fileExcluded = excluded := by
    rw [Bool.eq_iff_iff, hexcluded, hhit]
    simp only [Bool.false_eq_true, false_or]
    constructor
    · rintro ⟨batch, hbatch, pred, hpred, hkind, part, hpart, hne⟩
      obtain ⟨own, hown, hspliced⟩ := hnot pred hpred hkind
      exact ⟨pred, hpred, hkind, own, hown, hspliced.ne_nil_iff.mpr ⟨batch, hbatch, part, hpart, hne⟩⟩
    · rintro ⟨pred, hpred, hkind, spans, hspans, hne⟩
      obtain ⟨own, hown, hspliced⟩ := hnot pred hpred hkind
      rw [hspans] at hown
      cases hown
      obtain ⟨batch, hbatch, part, hpart, hsome⟩ := hspliced.ne_nil_iff.mp hne
      exact ⟨batch, hbatch, pred, hpred, hkind, part, hpart, hsome⟩
  have hcontent := (@scoreContentEx_driven adapter content blob spec.contentMust spec.should spec.mustNot whole
    (hempty content) hdriver hall hlines.nodup).trans hscore
  have hsorted : KeyedList.sortBy SourceMatch.identity found = found := by
    refine sortBy_identity (scoreSpans_owned hscore) ?_
    refine List.Pairwise.sublist (scoreSpans_lines hscore) ?_
    rw [pairwise_map]
    exact hlines.sorted
  refine ⟨scored, if excluded then [] else found, ?_, ?_, ?_⟩
  · unfold scoreBatches
    rw [foldlM_flushBatch_filter]
    exact hrun
  · unfold scoreInMemory
    rw [hwhole]
    simp only [hdocument, bind, Except.bind]
    cases excluded with
    | true => rfl
    | false =>
      simp only [Bool.false_eq_true, if_false, hcontent]
      rfl
  · unfold Scored.outcome
    rw [hsame, hflag, hpending]
    cases excluded with
    | true => rfl
    | false =>
      simp only [Bool.false_eq_true, if_false, nil_append]
      rw [hsorted]

end

end Leitir.Search
