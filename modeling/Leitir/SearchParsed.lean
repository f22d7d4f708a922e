import Leitir.SearchLexed
import Leitir.SearchLineStream

namespace Leitir.Search

open ExceptRun List

section

variable {adapter : LanguageAdapter} {preds : List Predicate}

theorem LineByLine.ext {spans spans' : List Span} (h : LineByLine spans) (h' : LineByLine spans')
    (hmem : ∀ span, span ∈ spans ↔ span ∈ spans') : spans = spans' := by
  have hperm := (perm_ext_iff_of_nodup h.nodup h'.nodup).mpr hmem
  refine hperm.eq_of_pairwise ?_ h.sorted h'.sorted
  intro a b _ _ hab hba
  omega

theorem LineByLine.filter {spans : List Span} (h : LineByLine spans) (keep : Span → Bool) : LineByLine (spans.filter keep) :=
  ⟨fun span hspan => h.lines span (mem_filter.mp hspan).1, h.sorted.filter keep⟩

variable {offset : Nat}

theorem shift_inj {a b : Span} (h : a.shift offset = b.shift offset) : a = b := by
  obtain ⟨⟨start, stop, kinds, method⟩, startCol, endCol⟩ := a
  obtain ⟨⟨start', stop', kinds', method'⟩, startCol', endCol'⟩ := b
  simp only [Span.shift, Span.mk.injEq, SpanMatch.mk.injEq, Nat.add_right_cancel_iff] at h ⊢
  exact h

theorem exists_shift {span : Span} (h : offset < span.startLine) (hline : span.endLine = span.startLine) :
    ∃ own : Span, 1 ≤ own.startLine ∧ own.endLine = own.startLine ∧ own.shift offset = span := by
  refine ⟨{ span with startLine := span.startLine - offset, endLine := span.endLine - offset }, ?_, ?_, ?_⟩
  · simp only
    omega
  · simp only
    omega
  · obtain ⟨⟨start, stop, kinds, method⟩, startCol, endCol⟩ := span
    simp only at h hline
    simp only [Span.shift, Span.mk.injEq, SpanMatch.mk.injEq, and_true]
    omega

/-- What the answer for a batch has in common with the answer for the whole text. -/
structure Part (adapter : LanguageAdapter) (preds : List Predicate) (whole : List Span) (offset count : Nat) (batch : Text)
    (part : List Span) : Prop where
  find : adapter.findMatchesEx batch preds false = .ok ⟨part, false⟩
  lines : LineByLine part
  bound : ∀ span ∈ part, span.startLine ≤ count
  whole : ∀ span : Span, 1 ≤ span.startLine → span.startLine ≤ count → (span ∈ part ↔ span.shift offset ∈ whole)

theorem Part.split {whole part : List Span} {count : Nat} {batch : Text} (hwhole : LineByLine whole)
    (h : Part adapter preds whole offset count batch part) :
    whole.filter (fun span => offset < span.startLine) =
      part.map (fun span => span.shift offset) ++ whole.filter (fun span => offset + count < span.startLine) := by
  refine (hwhole.filter _).ext ?_ ?_
  · have hmoved := h.lines.shift offset
    have hlater := hwhole.filter fun span => offset + count < span.startLine
    constructor
    · intro span hspan
      rcases mem_append.mp hspan with hspan | hspan
      · exact hmoved.lines span hspan
      · exact hlater.lines span hspan
    · rw [pairwise_append]
      refine ⟨hmoved.sorted, hlater.sorted, ?_⟩
      intro a ha b hb
      obtain ⟨own, hown, rfl⟩ := mem_map.mp ha
      have hlow := h.bound own hown
      have hhigh := of_decide_eq_true (mem_filter.mp hb).2
      simp only [Span.shift]
      omega
  · intro span
    simp only [mem_filter, decide_eq_true_eq, mem_append, mem_map]
    constructor
    · rintro ⟨hspan, hafter⟩
      by_cases hlate : offset + count < span.startLine
      · exact Or.inr ⟨hspan, hlate⟩
      · obtain ⟨own, hone, -, rfl⟩ := exists_shift hafter (hwhole.lines span hspan).2
        have hcount : own.startLine ≤ count := by
          simp only [Span.shift] at hlate
          omega
        exact Or.inl ⟨own, (h.whole own hone hcount).mpr hspan, rfl⟩
    · rintro (⟨own, hown, rfl⟩ | ⟨hspan, hlate⟩)
      · have hone := (h.lines.lines own hown).1
        refine ⟨(h.whole own hone (h.bound own hown)).mp hown, ?_⟩
        simp only [Span.shift]
        omega
      · exact ⟨hspan, by omega⟩

/-- An answer whose members are those of its parts is spliced from them. -/
theorem spliced_of_parts {whole : List Span} {show_ : Text → List Text} {batches : List Text} (hwhole : LineByLine whole)
    (hcuts : CutsLines show_ batches) (offset : Nat)
    (hbound : ∀ span ∈ whole, span.startLine ≤ offset + (batches.flatMap show_).length)
    (hparts : ∀ before batch after, batches = before ++ batch :: after →
      ∃ part, Part adapter preds whole (offset + (before.flatMap show_).length) (show_ batch).length batch part) :
    Spliced adapter preds offset batches (whole.filter fun span => offset < span.startLine) := by
  induction batches generalizing offset with
  | nil =>
    have hnil : whole.filter (fun span => decide (offset < span.startLine)) = [] := by
      rw [filter_eq_nil_iff]
      intro span hspan
      have := hbound span hspan
      simp only [flatMap_nil, length_nil] at this
      simp only [decide_eq_true_eq]
      omega
    rw [hnil]
    exact .nil offset
  | cons batch rest ih =>
    obtain ⟨part, hpart⟩ := hparts [] batch rest rfl
    rw [flatMap_nil, length_nil, Nat.add_zero] at hpart
    have hrest := ih (fun other hother => hcuts other (by
        by_cases hnil : rest = []
        · subst hnil
          simp at hother
        · rw [dropLast_cons_of_ne_nil hnil]
          exact mem_cons_of_mem _ hother)) (offset + (show_ batch).length)
      (fun span hspan => by
        have := hbound span hspan
        rw [flatMap_cons, length_append] at this
        omega)
      (fun before other after hcut => by
        obtain ⟨own, hown⟩ := hparts (batch :: before) other after (by rw [hcut]; rfl)
        rw [flatMap_cons, length_append, ← Nat.add_assoc] at hown
        exact ⟨own, hown⟩)
    rw [hpart.split hwhole]
    by_cases hnil : rest = []
    · subst hnil
      generalize whole.filter (fun span => decide (offset + (show_ batch).length < span.startLine)) = others at hrest ⊢
      cases hrest
      exact .cons hpart.find hpart.lines (fun hne => absurd rfl hne) (.nil _)
    · have hcount := hcuts batch (by
        rw [dropLast_cons_of_ne_nil hnil]
        exact mem_cons_self)
      rw [hcount] at hrest ⊢
      refine .cons hpart.find hpart.lines (fun _ => ?_) hrest
      rw [← hcount]
      exact hpart.bound

end

section

variable {engine : Engine} {parser : PythonParser} {text : Text} {nodes : List AstNode} {preds : List Predicate}

/-- A text that the parser reads without a complaint, with every node on one of its lines. -/
structure Reads (parser : PythonParser) (text : Text) (nodes : List AstNode) : Prop where
  parse : parser.parse text = some nodes
  classifies : parser.classifies text = true
  renders : ∀ node ∈ nodes, node.renderUnavailable = false
  lines : ∀ node ∈ nodes, ∀ line ∈ node.line, 1 ≤ line ∧ line ≤ (plainLines text).length

def answeredHits (engine : Engine) (nodes : List AstNode) (lines : List Text) (pred : Predicate) : AstHits :=
  if pred.kind ∈ structuralKinds then structuralHits nodes pred
  else ⟨pred.kind, (hitLines (pythonAdapter.test engine pred) lines).map fun line => (line + 1, none), false⟩

theorem astHits_answered {lines : List Text} {pred : Predicate}
    (h : pred.kind ∉ structuralKinds → Answered engine lines pred) :
    astHits engine nodes lines pred = .ok (answeredHits engine nodes lines pred) := by
  unfold astHits answeredHits
  split
  next => rfl
  next hkind => rw [LineAdapter.linesForPredicate_eq, answerLines_answered (h hkind)]

variable {item : AstHits} {hits : List AstHits} {offset line : Nat}

theorem astHits_inv {lines : List Text} {pred : Predicate} (h : astHits engine nodes lines pred = .ok item)
    (hflag : item.unavailable = false) : pred.kind ∉ structuralKinds → Answered engine lines pred := by
  intro hkind
  unfold astHits at h
  rw [if_neg hkind, LineAdapter.linesForPredicate_eq] at h
  cases hanswer : answerLines engine (pythonAdapter.test engine) lines pred with
  | ok hits => exact answered_of_ok hanswer
  | error err =>
    rw [hanswer] at h
    cases err with
    | badPattern => cases h
    | budgetExceeded =>
      cases h
      cases hflag

theorem answeredHits_kind (lines : List Text) (pred : Predicate) :
    (answeredHits engine nodes lines pred).kind = pred.kind := by
  unfold answeredHits
  split
  next => rfl
  next => rfl

theorem answeredHits_available (hread : Reads parser text nodes) (lines : List Text) (pred : Predicate) :
    (answeredHits engine nodes lines pred).unavailable = false := by
  unfold answeredHits
  split
  next =>
    simp only [structuralHits, any_eq_false]
    intro node hnode
    rw [hread.renders node hnode]
    exact Bool.false_ne_true
  next => rfl

theorem astSpans_empty (hitem : item ∈ hits) (hnil : item.lines = []) :
    astSpans hits false = [] := by
  unfold astSpans
  simp only [map_eq_nil_iff, filter_eq_nil_iff, Bool.false_or]
  intro line _ hall
  have hmentions := all_eq_true.mp hall item hitem
  simp [AstHits.mentions, hnil] at hmentions

def Structural (preds : List Predicate) : Prop := ∃ pred ∈ contentPreds preds, pred.kind ∈ structuralKinds

theorem structural_if {α : Type} (hstructural : Structural preds) (empty plain parsed : α) :
    (if (contentPreds preds) = [] then empty
      else if ((contentPreds preds).all fun pred => decide (pred.kind ∉ structuralKinds)) = true then plain else parsed) =
      parsed := by
  obtain ⟨pred, hpred, hkind⟩ := hstructural
  have hne : contentPreds preds ≠ [] := ne_nil_of_mem hpred
  have hall : ¬ ((contentPreds preds).all fun pred => decide (pred.kind ∉ structuralKinds)) = true := by
    intro hall
    have := all_eq_true.mp hall pred hpred
    simp [hkind] at this
  rw [if_neg hne, if_neg hall]

/-- The answer for a text that is parsed. -/
theorem astFind_reads (hread : Reads parser text nodes) (hstructural : Structural preds)
    (hanswered : ∀ pred ∈ contentPreds preds, pred.kind ∉ structuralKinds → Answered engine (plainLines text) pred) :
    astFindMatchesEx engine parser text preds false =
      .ok ⟨astSpans ((contentPreds preds).map (answeredHits engine nodes (plainLines text))) false, false⟩ := by
  have hmap : (contentPreds preds).mapM (astHits engine nodes (contentLines text text)) =
      .ok ((contentPreds preds).map (answeredHits engine nodes (plainLines text))) :=
    mapM_ok_map fun pred hpred => astHits_answered (hanswered pred hpred)
  have hflag : (((contentPreds preds).map (answeredHits engine nodes (plainLines text))).any AstHits.unavailable) = false := by
    rw [any_map, any_eq_false]
    intro pred _
    simp [answeredHits_available hread]
  have hif := @structural_if preds (Except PatternError AdapterMatchResult) hstructural
  unfold contentPreds at hmap hflag hif ⊢
  unfold astFindMatchesEx
  dsimp only
  rw [hif, hread.parse]
  dsimp only
  rw [hmap]
  simp only [bind, Except.bind, hread.classifies, Bool.not_true, hflag, Bool.or_self]
  split
  next hany =>
    obtain ⟨item, hitem, hnil⟩ := any_eq_true.mp hany
    rw [astSpans_empty hitem (by simpa using hnil)]
    rfl
  next => rfl

theorem astFind_answered {spans : List Span} (hread : Reads parser text nodes) (hstructural : Structural preds)
    (h : astFindMatchesEx engine parser text preds false = .ok ⟨spans, false⟩) :
    ∀ pred ∈ contentPreds preds, pred.kind ∉ structuralKinds → Answered engine (plainLines text) pred := by
  have hif := @structural_if preds (Except PatternError AdapterMatchResult) hstructural
  intro pred hpred
  unfold contentPreds at hif hpred
  unfold astFindMatchesEx at h
  dsimp only at h
  rw [hif, hread.parse] at h
  obtain ⟨hits, hhits, h⟩ := bind_ok h
  have hflag : hits.any AstHits.unavailable = false := by
    split at h
    next =>
      have hor := congrArg AdapterMatchResult.parserUnavailable (Except.ok.inj h)
      exact (Bool.or_eq_false_iff.mp hor).2
    next =>
      have hor := congrArg AdapterMatchResult.parserUnavailable (Except.ok.inj h)
      exact (Bool.or_eq_false_iff.mp hor).2
  obtain ⟨item, hmem, hitem⟩ := (mapM_ok_mem hhits).1 pred hpred
  have hitemFlag : item.unavailable = false := by
    have := any_eq_false.mp hflag item hmem
    simpa using this
  exact astHits_inv hitem hitemFlag

theorem mem_astSpans (hne : hits ≠ []) {span : Span} :
    span ∈ astSpans hits false ↔
      (∀ item ∈ hits, item.mentions span.startLine = true) ∧ span = astSpan hits span.startLine := by
  unfold astSpans
  simp only [Bool.false_or, mem_map, mem_filter, mem_insertionSort, mem_dedup, mem_flatMap,
    all_eq_true]
  constructor
  · rintro ⟨line, ⟨-, hall⟩, rfl⟩
    exact ⟨hall, rfl⟩
  · rintro ⟨hall, hspan⟩
    refine ⟨span.startLine, ⟨?_, hall⟩, hspan.symm⟩
    obtain ⟨item, hitem⟩ := exists_mem_of_ne_nil _ hne
    have hmentions := contains_iff_mem.mp (hall item hitem)
    exact ⟨item, hitem, by simpa using hmentions⟩

theorem astSpans_lineByLine (h : ∀ item ∈ hits, ∀ entry ∈ item.lines, 1 ≤ entry.1) :
    LineByLine (astSpans hits false) := by
  unfold astSpans
  constructor
  · intro span hspan
    obtain ⟨line, hline, rfl⟩ := mem_map.mp hspan
    have hmem := (mem_filter.mp hline).1
    rw [mem_insertionSort, mem_dedup] at hmem
    obtain ⟨item, hitem, hfirst⟩ := mem_flatMap.mp hmem
    obtain ⟨entry, hentry, rfl⟩ := mem_map.mp hfirst
    exact ⟨h item hitem entry hentry, rfl⟩
  · rw [pairwise_map]
    refine List.Pairwise.filter _ ?_
    have hsorted := pairwise_insertionSort (· ≤ ·) (hits.flatMap fun item => item.lines.map Prod.fst).dedup
    have hnodup : ((hits.flatMap fun item => item.lines.map Prod.fst).dedup.insertionSort (· ≤ ·)).Nodup :=
      (perm_insertionSort _ _).nodup_iff.mpr (nodup_dedup _)
    refine List.Pairwise.imp₂ ?_ hsorted hnodup
    intro a b hle hne
    exact lt_of_le_of_ne hle hne

def AstHits.entries (item : AstHits) (line : Nat) : List (Option (List AstNode)) :=
  (item.lines.filter fun entry => entry.1 = line).map Prod.snd

theorem AstHits.mentions_iff (item : AstHits) (line : Nat) : item.mentions line = true ↔ item.entries line ≠ [] := by
  unfold AstHits.mentions AstHits.entries
  rw [contains_iff_mem, ne_eq, map_eq_nil_iff, filter_eq_nil_iff]
  push Not
  simp

def AstNode.shift (node : AstNode) (offset : Nat) : AstNode := { node with line := node.line.map fun line => line + offset }

theorem filter_eraseDups (items : List Nat) (value : Nat) :
    items.eraseDups.filter (fun item => item = value) = if value ∈ items then [value] else [] := by
  induction hlength : items.length using Nat.strong_induction_on generalizing items with
  | _ length ih =>
    cases items with
    | nil => rfl
    | cons head rest =>
      have hshort : (rest.filter fun item => !item == head).length < length := by
        have := length_filter_le (fun item => !item == head) rest
        rw [length_cons] at hlength
        omega
      have hrest := ih _ hshort (rest.filter fun item => !item == head) rfl
      rw [eraseDups_cons, filter_cons, hrest]
      by_cases hhead : head = value
      · subst hhead
        simp
      · have hhead' : value ≠ head := Ne.symm hhead
        simp [hhead, hhead']

theorem entries_structural (nodes : List AstNode) (pred : Predicate) (line : Nat) :
    (structuralHits nodes pred).entries line =
      if (nodes.filter fun node => node.line = some line ∧ pred.value ∈ node.candidates pred.kind) = [] then []
      else [some (nodes.filter fun node => node.line = some line ∧ pred.value ∈ node.candidates pred.kind)] := by
  have hfound : ((nodes.filter fun node => decide (pred.value ∈ node.candidates pred.kind)).filter fun node =>
      decide (node.line = some line)) =
        nodes.filter fun node => decide (node.line = some line ∧ pred.value ∈ node.candidates pred.kind) := by
    rw [filter_filter]
    refine filter_congr ?_
    intro node _
    rw [Bool.decide_and]
  unfold AstHits.entries structuralHits
  rw [← hfound]
  generalize nodes.filter (fun node => decide (pred.value ∈ node.candidates pred.kind)) = found
  have hmem : line ∈ found.filterMap AstNode.line ↔ ¬ found.filter (fun node => decide (node.line = some line)) = [] := by
    rw [mem_filterMap, filter_eq_nil_iff]
    push Not
    simp
  have hlines : ((found.filterMap AstNode.line).eraseDups.filter fun item => decide (item = line)) =
      if line ∈ found.filterMap AstNode.line then [line] else [] := filter_eraseDups _ line
  dsimp only
  rw [filter_map, map_map]
  change List.map _ ((found.filterMap AstNode.line).eraseDups.filter fun item => decide (item = line)) = _
  rw [hlines]
  by_cases hnil : found.filter (fun node => decide (node.line = some line)) = []
  · rw [if_neg fun hin => hmem.mp hin hnil, if_pos hnil]
    rfl
  · rw [if_pos (hmem.mpr hnil), if_neg hnil]
    rfl

theorem entries_text (hits : List Nat) (hnodup : hits.Nodup) (kind : PredicateKind) (line : Nat) :
    (AstHits.mk kind (hits.map fun hit => (hit + 1, none)) false).entries (line + 1) =
      if line ∈ hits then [none] else [] := by
  have hfilter : hits.filter (fun hit => decide (hit = line)) = if line ∈ hits then [line] else [] := by
    rw [← filter_eraseDups, eraseDups_of_nodup hnodup]
  unfold AstHits.entries
  rw [filter_map, map_map]
  have hcongr : hits.filter ((fun entry : Nat × Option (List AstNode) => decide (entry.1 = line + 1)) ∘
      fun hit => (hit + 1, none)) = hits.filter fun hit => decide (hit = line) := by
    refine filter_congr ?_
    intro hit _
    simp
  rw [hcongr, hfilter]
  split
  next => rfl
  next => rfl

def moveEntries (offset : Nat) (entries : List (Option (List AstNode))) : List (Option (List AstNode)) :=
  entries.map fun entry => entry.map fun nodes => nodes.map fun node => node.shift offset

theorem filter_candidates (nodes : List AstNode) (pred : Predicate) (line : Nat) :
    (nodes.filter fun node => decide (node.line = some line ∧ pred.value ∈ node.candidates pred.kind)) =
      (nodes.filter fun node => decide (node.line = some line)).filter fun node =>
        decide (pred.value ∈ node.candidates pred.kind) := by
  rw [filter_filter]
  refine filter_congr ?_
  intro node _
  rw [Bool.and_comm, Bool.decide_and]

def NodesOn (nodes own : List AstNode) (offset line : Nat) : Prop :=
  (nodes.filter fun node => node.line = some (line + offset)) =
    (own.filter fun node => node.line = some line).map fun node => node.shift offset

theorem structural_moved {own : List AstNode} (hnodes : NodesOn nodes own offset line)
    (pred : Predicate) :
    (structuralHits nodes pred).entries (line + offset) = moveEntries offset ((structuralHits own pred).entries line) := by
  have hfound : (nodes.filter fun node => decide (node.line = some (line + offset) ∧ pred.value ∈ node.candidates pred.kind)) =
      (own.filter fun node => decide (node.line = some line ∧ pred.value ∈ node.candidates pred.kind)).map fun node =>
        node.shift offset := by
    rw [filter_candidates, filter_candidates, hnodes, filter_map]
    rfl
  rw [entries_structural, entries_structural, hfound]
  unfold moveEntries
  simp only [map_eq_nil_iff]
  split
  next => rfl
  next => rfl

theorem text_moved {test : Text → Bool} {before lines after : List Text} {line : Nat} (hline : line < lines.length) :
    line + before.length ∈ hitLines test (before ++ (lines ++ after)) ↔ line ∈ hitLines test lines := by
  have hlong : line + before.length < (before ++ (lines ++ after)).length := by
    rw [length_append, length_append]
    omega
  have hget : (before ++ (lines ++ after)).getD (line + before.length) [] = lines.getD line [] := by
    rw [getD_append_right _ _ _ _ (by omega), Nat.add_sub_cancel, getD_append _ _ _ _ hline]
  rw [mem_hitLines_iff hlong, mem_hitLines_iff hline, hget]

theorem hitLines_nodup (test : Text → Bool) (lines : List Text) : (hitLines test lines).Nodup :=
  nodup_range.filter _

theorem answeredHits_moved {own : List AstNode} {before lines after : List Text} {line : Nat} (hone : 1 ≤ line)
    (hline : line ≤ lines.length) (hnodes : NodesOn nodes own before.length line) (pred : Predicate) :
    (answeredHits engine nodes (before ++ (lines ++ after)) pred).entries (line + before.length) =
      moveEntries before.length ((answeredHits engine own lines pred).entries line) := by
  unfold answeredHits
  split
  next => exact structural_moved hnodes pred
  next =>
    obtain ⟨index, rfl⟩ : ∃ index, line = index + 1 := ⟨line - 1, by omega⟩
    have hindex : index + 1 + before.length = index + before.length + 1 := by omega
    have hmoved := @text_moved (pythonAdapter.test engine pred) before lines after index (by omega)
    rw [hindex, entries_text _ (hitLines_nodup _ _), entries_text _ (hitLines_nodup _ _)]
    by_cases hhit : index ∈ hitLines (pythonAdapter.test engine pred) lines
    · rw [if_pos (hmoved.mpr hhit), if_pos hhit]
      rfl
    · rw [if_neg fun h => hhit (hmoved.mp h), if_neg hhit]
      rfl

theorem mentions_moved {item' : AstHits} {line' : Nat}
    (h : item.entries line = moveEntries offset (item'.entries line')) : item.mentions line = item'.mentions line' := by
  rw [Bool.eq_iff_iff, AstHits.mentions_iff, AstHits.mentions_iff, h]
  unfold moveEntries
  rw [ne_eq, map_eq_nil_iff]

/-- The span of a line, from what is found there. -/
def entrySpan (line : Nat) (kinds : List PredicateKind) (found : List (Option (List AstNode))) : Span :=
  let nodes := found.flatMap fun entry => entry.getD []
  let endCols := (nodes.filter AstNode.oneLine).filterMap AstNode.endCol
  { startLine := line
    endLine := line
    matchedKinds := sortKinds kinds
    method := if found.any Option.isNone then .heuristic else .ast
    startCol := (nodes.filterMap AstNode.startCol).min?
    endCol := if endCols.length = nodes.length then endCols.max? else none }

theorem astSpan_eq (items : List Predicate) (hits : Predicate → AstHits) (line : Nat) :
    astSpan (items.map hits) line =
      entrySpan line ((items.filter fun pred => (hits pred).mentions line).map fun pred => (hits pred).kind)
        ((items.filter fun pred => (hits pred).mentions line).flatMap fun pred => (hits pred).entries line) := by
  have hhere : (items.map hits).filter (fun item => item.mentions line) =
      (items.filter fun pred => (hits pred).mentions line).map hits := by
    rw [filter_map]
    rfl
  unfold astSpan entrySpan AstHits.entries
  simp only [hhere, flatMap_map, map_map, Function.comp_def]

/-- Moving nodes changes neither their columns nor how many there are. -/
theorem entrySpan_moved (line offset : Nat) (kinds : List PredicateKind) (found : List (Option (List AstNode))) :
    entrySpan (line + offset) kinds (moveEntries offset found) = (entrySpan line kinds found).shift offset := by
  have hnodes : (moveEntries offset found).flatMap (fun entry => entry.getD []) =
      (found.flatMap fun entry => entry.getD []).map fun node => node.shift offset := by
    unfold moveEntries
    rw [flatMap_map, map_flatMap]
    refine flatMap_congr ?_
    intro entry _
    cases entry with
    | none => rfl
    | some nodes => rfl
  have hnone : (moveEntries offset found).any Option.isNone = found.any Option.isNone := by
    unfold moveEntries
    rw [any_map]
    refine congrArg found.any ?_
    funext entry
    cases entry with
    | none => rfl
    | some nodes => rfl
  unfold entrySpan
  simp only [hnodes, hnone]
  generalize found.flatMap (fun entry => entry.getD []) = nodes
  have hstart : (nodes.map fun node => node.shift offset).filterMap AstNode.startCol = nodes.filterMap AstNode.startCol := by
    rw [filterMap_map]
    rfl
  have hend : ((nodes.map fun node => node.shift offset).filter AstNode.oneLine).filterMap AstNode.endCol =
      (nodes.filter AstNode.oneLine).filterMap AstNode.endCol := by
    rw [filter_map, filterMap_map]
    rfl
  rw [hstart, hend, length_map]
  rfl

/-- The span of a line of a part, and the span of that line of the text around it. -/
theorem astSpan_moved {items : List Predicate} {hits hits' : Predicate → AstHits}
    (hkind : ∀ pred ∈ items, (hits pred).kind = (hits' pred).kind)
    (hentries : ∀ pred ∈ items, (hits pred).entries (line + offset) = moveEntries offset ((hits' pred).entries line)) :
    astSpan (items.map hits) (line + offset) = (astSpan (items.map hits') line).shift offset := by
  have hhere : (items.filter fun pred => (hits pred).mentions (line + offset)) =
      items.filter fun pred => (hits' pred).mentions line := by
    refine filter_congr ?_
    intro pred hpred
    exact mentions_moved (hentries pred hpred)
  have hsub : ∀ pred ∈ items.filter (fun pred => (hits' pred).mentions line), pred ∈ items :=
    fun pred hpred => (mem_filter.mp hpred).1
  have hkinds : (items.filter fun pred => (hits' pred).mentions line).map (fun pred => (hits pred).kind) =
      (items.filter fun pred => (hits' pred).mentions line).map fun pred => (hits' pred).kind :=
    map_congr_left fun pred hpred => hkind pred (hsub pred hpred)
  have hfound : ((items.filter fun pred => (hits' pred).mentions line).flatMap fun pred =>
      (hits pred).entries (line + offset)) =
        moveEntries offset ((items.filter fun pred => (hits' pred).mentions line).flatMap fun pred => (hits' pred).entries line) := by
    unfold moveEntries
    rw [map_flatMap]
    exact flatMap_congr fun pred hpred => hentries pred (hsub pred hpred)
  rw [astSpan_eq, astSpan_eq, hhere, hkinds, hfound, entrySpan_moved]

theorem answeredHits_bound (hread : Reads parser text nodes) (pred : Predicate) :
    ∀ entry ∈ (answeredHits engine nodes (plainLines text) pred).lines, 1 ≤ entry.1 ∧ entry.1 ≤ (plainLines text).length := by
  intro entry hentry
  unfold answeredHits at hentry
  split at hentry
  next =>
    unfold structuralHits at hentry
    obtain ⟨line, hline, rfl⟩ := mem_map.mp hentry
    rw [mem_eraseDups] at hline
    obtain ⟨node, hnode, hnodeLine⟩ := mem_filterMap.mp hline
    exact hread.lines node (mem_filter.mp hnode).1 line hnodeLine
  next =>
    obtain ⟨line, hline, rfl⟩ := mem_map.mp hentry
    have := mem_hitLines hline
    dsimp only
    omega

theorem astSpans_bound (hread : Reads parser text nodes) (hne : contentPreds preds ≠ []) {span : Span}
    (h : span ∈ astSpans ((contentPreds preds).map (answeredHits engine nodes (plainLines text))) false) :
    span.startLine ≤ (plainLines text).length := by
  have hall := ((mem_astSpans (by simpa using hne)).mp h).1
  obtain ⟨pred, hpred⟩ := exists_mem_of_ne_nil _ hne
  have hmentions := contains_iff_mem.mp (hall _ (mem_map_of_mem hpred))
  obtain ⟨entry, hentry, hline⟩ := mem_map.mp hmentions
  rw [← hline]
  exact (answeredHits_bound hread pred entry hentry).2

theorem astSpans_lines (hread : Reads parser text nodes) :
    LineByLine (astSpans ((contentPreds preds).map (answeredHits engine nodes (plainLines text))) false) := by
  refine astSpans_lineByLine ?_
  intro item hitem entry hentry
  obtain ⟨pred, -, rfl⟩ := mem_map.mp hitem
  exact (answeredHits_bound hread pred entry hentry).1

end

section

variable {engine : Engine} {parser : PythonParser} {content : Text} {batches : List Text} {preds : List Predicate}

/-- A content that the parser reads as it reads its batches: on every line of a batch it finds the nodes that it finds on
that line of the content. -/
def ParsedAlike (parser : PythonParser) (content : Text) (batches : List Text) : Prop :=
  ∃ nodes, Reads parser content nodes ∧ ∀ before batch after, batches = before ++ batch :: after →
    ∃ own, Reads parser batch own ∧ ∀ line, 1 ≤ line → line ≤ (plainLines batch).length →
      NodesOn nodes own (before.flatMap plainLines).length line

theorem astPart {nodes own : List AstNode} {before lines after : List Text} {batch : Text}
    (hread : Reads parser batch own) (hstructural : Structural preds)
    (hanswered : ∀ pred ∈ contentPreds preds, pred.kind ∉ structuralKinds → Answered engine (plainLines batch) pred)
    (hlines : lines = before ++ (plainLines batch ++ after))
    (hnodes : ∀ line, 1 ≤ line → line ≤ (plainLines batch).length → NodesOn nodes own before.length line) :
    Part (pythonAstAdapter engine parser) preds
      (astSpans ((contentPreds preds).map (answeredHits engine nodes lines)) false) before.length (plainLines batch).length
      batch (astSpans ((contentPreds preds).map (answeredHits engine own (plainLines batch))) false) := by
  have hne : contentPreds preds ≠ [] := by
    obtain ⟨pred, hpred, -⟩ := hstructural
    exact ne_nil_of_mem hpred
  refine ⟨astFind_reads hread hstructural hanswered, astSpans_lines hread, fun span hspan => astSpans_bound hread hne hspan, ?_⟩
  intro span hone hbound
  have hmoved := fun pred => @answeredHits_moved engine nodes own before (plainLines batch) after span.startLine hone hbound
    (hnodes span.startLine hone hbound) pred
  rw [← hlines] at hmoved
  have hkind : ∀ pred ∈ contentPreds preds, (answeredHits engine nodes lines pred).kind =
      (answeredHits engine own (plainLines batch) pred).kind := fun pred _ => by
    rw [answeredHits_kind, answeredHits_kind]
  have hspan := astSpan_moved hkind fun pred _ => hmoved pred
  rw [mem_astSpans (by simpa using hne), mem_astSpans (by simpa using hne)]
  have hline : (span.shift before.length).startLine = span.startLine + before.length := rfl
  rw [hline, hspan]
  have hmentions : (∀ item ∈ (contentPreds preds).map (answeredHits engine own (plainLines batch)),
      item.mentions span.startLine = true) ↔ ∀ item ∈ (contentPreds preds).map (answeredHits engine nodes lines),
        item.mentions (span.startLine + before.length) = true := by
    rw [forall_mem_map, forall_mem_map]
    refine forall₂_congr ?_
    intro pred _
    rw [mentions_moved (hmoved pred)]
  rw [hmentions]
  exact and_congr_right fun _ => ⟨fun heq => congrArg (fun own => own.shift before.length) heq, fun heq => shift_inj heq⟩

/-- The answer of the parser for a content is spliced from its answers for the batches. -/
theorem ParsedAlike.placed (h : ParsedAlike parser content batches) (hshown : ShownAlike plainLines content batches)
    (hstructural : Structural preds)
    (hanswered : ∀ pred ∈ contentPreds preds, pred.kind ∉ structuralKinds → Answered engine (plainLines content) pred) :
    ∃ whole, Placed (pythonAstAdapter engine parser) content preds 0 batches [] whole := by
  obtain ⟨nodes, hread, hparts⟩ := h
  have hne : contentPreds preds ≠ [] := by
    obtain ⟨pred, hpred, -⟩ := hstructural
    exact ne_nil_of_mem hpred
  have hlines := @astSpans_lines engine parser content nodes preds hread
  have hspliced := @spliced_of_parts (pythonAstAdapter engine parser) preds
    (astSpans ((contentPreds preds).map (answeredHits engine nodes (plainLines content))) false) plainLines batches hlines
    hshown.cuts 0
    (fun span hspan => by
      rw [Nat.zero_add, ← hshown.lines]
      exact astSpans_bound hread hne hspan)
    (fun before batch after hcut => by
      obtain ⟨own, hown, hnodes⟩ := hparts before batch after hcut
      have hcontent : plainLines content = before.flatMap plainLines ++ (plainLines batch ++ after.flatMap plainLines) := by
        rw [hshown.lines, hcut, flatMap_append, flatMap_cons]
      have hbatch : ∀ pred ∈ contentPreds preds, pred.kind ∉ structuralKinds → Answered engine (plainLines batch) pred :=
        fun pred hpred hkind => (hanswered pred hpred hkind).mono fun line hline => by
          rw [hcontent]
          exact mem_append_right _ (mem_append_left _ hline)
      rw [Nat.zero_add]
      exact ⟨_, astPart hown hstructural hbatch hcontent hnodes⟩)
  have hall : (astSpans ((contentPreds preds).map (answeredHits engine nodes (plainLines content))) false).filter
      (fun span => decide (0 < span.startLine)) =
        astSpans ((contentPreds preds).map (answeredHits engine nodes (plainLines content))) false := by
    rw [filter_eq_self]
    intro span hspan
    have := (hlines.lines span hspan).1
    simp only [decide_eq_true_eq]
    omega
  rw [hall] at hspliced
  exact ⟨_, astFind_reads hread hstructural hanswered, by simp, hspliced⟩

theorem astFind_plain (hplain : ¬ Structural preds) (text : Text) :
    (pythonAstAdapter engine parser).findMatchesEx text preds false =
      (pythonAdapter.toLanguage engine ".py").findMatchesEx text preds false := by
  change astFindMatchesEx engine parser text preds false = _
  unfold astFindMatchesEx
  dsimp only
  by_cases hnil : contentPreds preds = []
  · have hfind := (pythonAdapter.testsLines engine ".py").find (by rw [hnil]; simp : ∀ pred ∈ contentPreds preds,
      Answered engine (plainLines text) pred)
    rw [hfind]
    unfold shownSpans
    rw [if_pos hnil]
    unfold contentPreds at hnil
    rw [if_pos hnil]
  · have hall : ((contentPreds preds).all fun pred => decide (pred.kind ∉ structuralKinds)) = true := by
      rw [all_eq_true]
      intro pred hpred
      refine decide_eq_true ?_
      intro hkind
      exact hplain ⟨pred, hpred, hkind⟩
    unfold contentPreds at hnil hall
    rw [if_neg hnil, if_pos hall]

theorem Spliced.congr {adapter adapter' : LanguageAdapter} {offset : Nat} {whole : List Span}
    (heq : ∀ text, adapter.findMatchesEx text preds false = adapter'.findMatchesEx text preds false)
    (h : Spliced adapter preds offset batches whole) : Spliced adapter' preds offset batches whole := by
  induction h with
  | nil offset => exact .nil offset
  | cons hfind hpart hbound _ ih =>
    rw [heq] at hfind
    exact .cons hfind hpart hbound ih

theorem Placed.congr {adapter adapter' : LanguageAdapter} {offset : Nat} {earlier whole : List Span}
    (heq : ∀ text, adapter.findMatchesEx text preds false = adapter'.findMatchesEx text preds false)
    (h : Placed adapter content preds offset batches earlier whole) :
    Placed adapter' content preds offset batches earlier whole := by
  obtain ⟨hfind, hbefore, hspliced⟩ := h
  rw [heq] at hfind
  exact ⟨hfind, hbefore, hspliced.congr heq⟩

theorem regex_of_limited {kind : PredicateKind} (h : kind.limited = true) (hkind : kind ∉ structuralKinds) :
    kind = .regex := by
  cases kind with
  | regex => rfl
  | signature => exact absurd (by decide) hkind
  | _ => cases h

theorem ParsedAlike.steady (hshown : ShownAlike plainLines content batches) {pred : Predicate}
    (hparsed : Structural [pred] → ParsedAlike parser content batches)
    (hlong : pred.kind = .regex → ¬ Overlong (plainLines content)) :
    Steady (pythonAstAdapter engine parser) content batches pred := by
  by_cases hstructural : Structural [pred]
  · intro _
    refine (hparsed hstructural).placed hshown hstructural ?_
    intro own hown hkind
    obtain ⟨other, hother, hkind'⟩ := hstructural
    rw [(contentPreds_single hown).1] at hkind
    rw [(contentPreds_single hother).1] at hkind'
    exact absurd hkind' hkind
  · rintro ⟨batch, hbatch, part, hpart⟩
    have hplain := fun text => @astFind_plain engine parser [pred] hstructural text
    have hlimited : pred.kind.limited = true → ¬ Overlong (plainLines content) := by
      intro hkind
      refine hlong (regex_of_limited hkind ?_)
      intro hown
      refine hstructural ⟨pred, ?_, hown⟩
      have hpath : pred.kind ≠ .path := by
        intro hpath
        rw [hpath] at hkind
        cases hkind
      simp [contentPreds, hpath]
    rw [hplain] at hpart
    obtain ⟨whole, hplaced⟩ :=
      (pythonAdapter.testsLines engine ".py").steady hshown hlimited ⟨batch, hbatch, part, hpart⟩
    exact ⟨whole, hplaced.congr fun text => (hplain text).symm⟩

theorem astFind_parses {text : Text} {spans : List Span} (hstructural : Structural preds)
    (h : astFindMatchesEx engine parser text preds false = .ok ⟨spans, false⟩) : parser.parse text ≠ none := by
  intro hnone
  have hif := @structural_if preds (Except PatternError AdapterMatchResult) hstructural
  unfold contentPreds at hif
  unfold astFindMatchesEx at h
  dsimp only at h
  rw [hif, hnone] at h
  obtain ⟨result, -, h⟩ := map_ok h
  cases h

theorem ParsedAlike.steadyDriver (hshown : ShownAlike plainLines content batches) (hbatches : batches ≠ [])
    (hparsed : Structural preds → (∀ batch ∈ batches, parser.parse batch ≠ none) → ParsedAlike parser content batches) :
    SteadyDriver (pythonAstAdapter engine parser) content batches preds := by
  intro hall
  by_cases hstructural : Structural preds
  · have halike := hparsed hstructural fun batch hbatch => by
      obtain ⟨part, hpart⟩ := hall batch hbatch
      exact astFind_parses hstructural hpart
    refine halike.placed hshown hstructural ?_
    obtain ⟨nodes, -, hparts⟩ := halike
    intro pred hpred hkind
    refine hshown.answered hbatches ?_
    intro batch hbatch
    obtain ⟨before, after, hcut⟩ := append_of_mem hbatch
    obtain ⟨own, hread, -⟩ := hparts before batch after hcut
    obtain ⟨part, hpart⟩ := hall batch hbatch
    exact astFind_answered hread hstructural hpart pred hpred hkind
  · have hplain := fun text => @astFind_plain engine parser preds hstructural text
    obtain ⟨whole, hplaced⟩ := (pythonAdapter.testsLines engine ".py").steadyDriver hshown hbatches fun batch hbatch => by
      obtain ⟨part, hpart⟩ := hall batch hbatch
      rw [hplain] at hpart
      exact ⟨part, hpart⟩
    exact ⟨whole, hplaced.congr fun text => (hplain text).symm⟩

end

end Leitir.Search
