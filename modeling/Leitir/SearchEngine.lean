import Leitir.IndexQuery
import Leitir.SearchMasking

namespace Leitir.Search

open ExceptRun List

structure Span extends SpanMatch where
  startCol : Option Nat := none
  endCol : Option Nat := none
deriving DecidableEq

structure AdapterMatchResult where
  spans : List Span
  parserUnavailable : Bool := false
deriving DecidableEq

/-- A pattern that does not compile: the error leaves the search. -/
inductive PatternError
  | badPattern
deriving DecidableEq, Repr

def catchBudget : Except MatchError (List SpanMatch) → Except PatternError AdapterMatchResult
  | .ok spans => .ok { spans := spans.map fun span => { span with } }
  | .error .budgetExceeded => .ok { spans := [], parserUnavailable := true }
  | .error .badPattern => .error .badPattern

/-- An adapter of a language. Predicates that it finds together it finds one by one. -/
structure LanguageAdapter where
  trustedLanguage : Option Text
  eligible : Text → Bool
  findMatchesEx : Text → List Predicate → Bool → Except PatternError AdapterMatchResult
  composes : ∀ content predicates wholeFile result, findMatchesEx content predicates wholeFile = .ok result →
    result.spans ≠ [] → ∀ pred ∈ predicates, pred.kind ≠ .path →
      ∃ own, findMatchesEx content [pred] false = .ok own ∧ own.spans ≠ []

theorem catchBudget_ok {found : Except MatchError (List SpanMatch)} {result : AdapterMatchResult}
    (h : catchBudget found = .ok result) (hne : result.spans ≠ []) :
    ∃ spans, found = .ok spans ∧ spans ≠ [] ∧ result = { spans := spans.map fun span => { span with } } := by
  unfold catchBudget at h
  split at h
  next spans =>
    cases h
    refine ⟨spans, rfl, ?_, rfl⟩
    intro hnil
    rw [hnil] at hne
    exact hne rfl
  next =>
    cases h
    exact absurd rfl hne
  next => cases h

theorem mem_hitLines {test : Text → Bool} {lines : List Text} {i : Nat} (h : i ∈ hitLines test lines) :
    i < lines.length := by
  simpa using (mem_filter.mp h).1

theorem findSpans_single {hitsFor : Predicate → Except MatchError (List Nat)} {count : Nat} {pred : Predicate}
    {hits : List Nat} (hkind : pred.kind ≠ .path) (hhits : hitsFor pred = .ok hits) (hne : hits ≠ [])
    (hbound : ∀ i ∈ hits, i < count) : ∃ spans, findSpans hitsFor count [pred] false = .ok spans ∧ spans ≠ [] := by
  obtain ⟨i, hi⟩ := exists_mem_of_ne_nil hits hne
  have hfilter : [pred].filter (fun pred => decide (pred.kind ≠ .path)) = [pred] := by simp [hkind]
  refine ⟨lineSpans count false [(pred.kind, hits)], ?_, ?_⟩
  · unfold findSpans
    simp only [hfilter, mapM_cons, mapM_nil, hhits]
    simp [hne, bind, Except.bind, pure, Except.pure]
  · unfold lineSpans
    simp only [ne_eq, map_eq_nil_iff, filter_eq_nil_iff, mem_range]
    intro hnone
    exact hnone i (hbound i hi) (by simp [hi])

theorem boundedMatchingLines_bound {engine : Engine} {pattern : Text} {extra : Text → Bool} {lines : List Text}
    {hits : List Nat} (h : boundedMatchingLines engine pattern extra lines = .ok hits) :
    ∀ i ∈ hits, i < lines.length := by
  intro i hi
  rw [boundedMatchingLines_ok h] at hi
  exact mem_hitLines hi

/-- An adapter that looks for each predicate on the lines that it shows. -/
def linesAdapter (language : String) (eligible : Text → Bool) (show_ : Text → List Text)
    (hitsFor : List Text → Predicate → Except MatchError (List Nat))
    (hbound : ∀ lines pred hits, hitsFor lines pred = .ok hits → ∀ i ∈ hits, i < lines.length) : LanguageAdapter where
  trustedLanguage := some (chars language)
  eligible := eligible
  findMatchesEx := fun content predicates wholeFile =>
    catchBudget (findSpans (hitsFor (show_ content)) (show_ content).length predicates wholeFile)
  composes := by
    intro content predicates wholeFile result h hne pred hpred hkind
    obtain ⟨spans, hspans, hspans', -⟩ := catchBudget_ok h hne
    obtain ⟨hits, hhits, hsome⟩ := findSpans_hits hspans hspans' pred hpred hkind
    obtain ⟨own, hown, hown'⟩ := findSpans_single hkind hhits hsome (hbound _ _ _ hhits)
    refine ⟨_, by rw [hown]; rfl, ?_⟩
    simpa using hown'

theorem LineAdapter.hits_bound {adapter : LineAdapter} {engine : Engine} (lines : List Text) (pred : Predicate)
    (hits : List Nat) (h : adapter.linesForPredicate engine lines pred = .ok hits) : ∀ i ∈ hits, i < lines.length := by
  unfold LineAdapter.linesForPredicate at h
  split at h
  case h_2 => exact boundedMatchingLines_bound h
  case h_7 => exact boundedMatchingLines_bound h
  case h_4 =>
    split at h
    next =>
      cases h
      simp
    next =>
      cases h
      exact fun i hi => mem_hitLines hi
  case h_10 =>
    cases h
    simp
  all_goals
    cases h
    exact fun i hi => mem_hitLines hi

theorem RegexInventory.hits_bound {inventory : RegexInventory} {engine : Engine} (lines : List Text) (pred : Predicate)
    (hits : List Nat) (h : inventory.linesForPredicate engine lines pred = .ok hits) : ∀ i ∈ hits, i < lines.length := by
  unfold RegexInventory.linesForPredicate at h
  split at h
  case h_2 => exact boundedMatchingLines_bound h
  case h_7 => exact boundedMatchingLines_bound h
  case h_4 =>
    split at h
    next =>
      cases h
      simp
    next =>
      cases h
      exact fun i hi => mem_hitLines hi
  case h_10 =>
    cases h
    simp
  all_goals
    cases h
    exact fun i hi => mem_hitLines hi

def LineAdapter.toLanguage (adapter : LineAdapter) (engine : Engine) (extension : String) : LanguageAdapter :=
  linesAdapter adapter.language (fun path => chars extension <:+ path) (fun content => contentLines content content)
    (adapter.linesForPredicate engine) adapter.hits_bound

def RegexInventory.toLanguage (inventory : RegexInventory) (engine : Engine) (casefold : Text → Text) : LanguageAdapter :=
  linesAdapter inventory.language (fun path => inventory.extensions.any fun extension => chars extension <:+ casefold path)
    (fun content => contentLines (maskCommentsAndStrings content) content) (inventory.linesForPredicate engine)
    inventory.hits_bound

/-- A node of a parsed file: its line and the values under which each kind finds it. -/
structure AstNode where
  line : Option Nat
  startCol : Option Nat
  endCol : Option Nat
  oneLine : Bool
  candidates : PredicateKind → List Text
  renderUnavailable : Bool

/-- The parser of the host: the nodes of a file, and whether its names can be classified. -/
structure PythonParser where
  parse : Text → Option (List AstNode)
  classifies : Text → Bool

def structuralKinds : List PredicateKind := [.symbolDefinition, .symbolReference, .call, .importName, .signature]

/-- The lines that a predicate hits, each with the nodes found there, or without any for a hit in the text. -/
structure AstHits where
  kind : PredicateKind
  lines : List (Nat × Option (List AstNode))
  unavailable : Bool

def AstHits.mentions (hits : AstHits) (line : Nat) : Bool := (hits.lines.map Prod.fst).contains line

def structuralHits (nodes : List AstNode) (pred : Predicate) : AstHits where
  kind := pred.kind
  lines :=
    let found := nodes.filter fun node => pred.value ∈ node.candidates pred.kind
    (found.filterMap AstNode.line).eraseDups.map fun line => (line, some (found.filter fun node => node.line = some line))
  unavailable := nodes.any AstNode.renderUnavailable

def astHits (engine : Engine) (nodes : List AstNode) (lines : List Text) (pred : Predicate) :
    Except PatternError AstHits :=
  if pred.kind ∈ structuralKinds then .ok (structuralHits nodes pred)
  else
    match pythonAdapter.linesForPredicate engine lines pred with
    | .ok hits => .ok ⟨pred.kind, hits.map fun line => (line + 1, none), false⟩
    | .error .budgetExceeded => .ok ⟨pred.kind, [], true⟩
    | .error .badPattern => .error .badPattern

/-- The span of a line, from what each predicate found there. -/
def astSpan (hits : List AstHits) (line : Nat) : Span :=
  let here := hits.filter fun item => item.mentions line
  let found := here.flatMap fun item => (item.lines.filter fun entry => entry.1 = line).map Prod.snd
  let nodes := found.flatMap fun entry => entry.getD []
  let endCols := (nodes.filter AstNode.oneLine).filterMap AstNode.endCol
  { startLine := line
    endLine := line
    matchedKinds := sortKinds (here.map AstHits.kind)
    method := if found.any Option.isNone then .heuristic else .ast
    startCol := (nodes.filterMap AstNode.startCol).min?
    endCol := if endCols.length = nodes.length then endCols.max? else none }

def astSpans (hits : List AstHits) (wholeFile : Bool) : List Span :=
  let lines := (hits.flatMap fun item => item.lines.map Prod.fst).dedup.insertionSort (· ≤ ·)
  (lines.filter fun line => wholeFile || hits.all fun item => item.mentions line).map (astSpan hits)

def astFindMatchesEx (engine : Engine) (parser : PythonParser) (content : Text) (predicates : List Predicate)
    (wholeFile : Bool) : Except PatternError AdapterMatchResult :=
  let must := predicates.filter fun pred => pred.kind ≠ .path
  let plain := (pythonAdapter.toLanguage engine ".py").findMatchesEx content predicates wholeFile
  if must = [] then .ok { spans := [] }
  else if must.all fun pred => pred.kind ∉ structuralKinds then plain
  else
    match parser.parse content with
    | none => plain.map fun result => { spans := result.spans, parserUnavailable := true }
    | some nodes => do
      let hits ← must.mapM (astHits engine nodes (contentLines content content))
      let unavailable := !parser.classifies content || hits.any AstHits.unavailable
      if hits.any fun item => item.lines = [] then pure { spans := [], parserUnavailable := unavailable }
      else pure { spans := astSpans hits wholeFile, parserUnavailable := unavailable }

theorem astSpans_single {item : AstHits} (hne : item.lines ≠ []) : astSpans [item] false ≠ [] := by
  obtain ⟨entry, hentry⟩ := exists_mem_of_ne_nil _ hne
  have hline : entry.1 ∈ item.lines.map Prod.fst := mem_map.mpr ⟨entry, hentry, rfl⟩
  have hmentions : item.mentions entry.1 = true := contains_iff_mem.mpr hline
  unfold astSpans
  simp only [ne_eq, map_eq_nil_iff, filter_eq_nil_iff]
  intro hnone
  refine hnone entry.1 ?_ (by simp [hmentions])
  rw [mem_insertionSort, mem_dedup]
  simpa using hline

/-- What the parser finds for one predicate with a hit. -/
theorem astFind_single {engine : Engine} {parser : PythonParser} {content : Text} {pred : Predicate}
    {nodes : List AstNode} {item : AstHits} (hkind : pred.kind ≠ .path) (hparse : parser.parse content = some nodes)
    (hitem : astHits engine nodes (contentLines content content) pred = .ok item) (hne : item.lines ≠ []) :
    ∃ own, astFindMatchesEx engine parser content [pred] false = .ok own ∧ own.spans ≠ [] := by
  have hfilter : [pred].filter (fun pred => decide (pred.kind ≠ .path)) = [pred] := by simp [hkind]
  unfold astFindMatchesEx
  simp only [hfilter, cons_ne_nil, if_false, all_cons, all_nil, Bool.and_true]
  by_cases hstructural : pred.kind ∈ structuralKinds
  · simp only [hstructural, not_true_eq_false, decide_false, Bool.false_eq_true, if_false, hparse, mapM_cons,
      mapM_nil, hitem, bind, Except.bind, pure, Except.pure, any_cons, any_nil, Bool.or_false, hne]
    exact ⟨_, rfl, astSpans_single hne⟩
  · simp only [hstructural, not_false_eq_true, decide_true, if_true]
    unfold astHits at hitem
    rw [if_neg hstructural] at hitem
    cases hlines : pythonAdapter.linesForPredicate engine (contentLines content content) pred with
    | error err =>
      rw [hlines] at hitem
      cases err with
      | badPattern => cases hitem
      | budgetExceeded =>
        cases hitem
        exact absurd rfl hne
    | ok hits =>
      rw [hlines] at hitem
      cases hitem
      have hhits : hits ≠ [] := by
        intro hnil
        rw [hnil] at hne
        exact hne rfl
      obtain ⟨spans, hspans, hspans'⟩ :=
        findSpans_single hkind hlines hhits (LineAdapter.hits_bound _ _ _ hlines)
      refine ⟨{ spans := spans.map fun span => { span with } }, ?_, by simpa using hspans'⟩
      change catchBudget (findSpans _ _ [pred] false) = _
      rw [hspans]
      rfl

theorem astFind_composes (engine : Engine) (parser : PythonParser) (content : Text) (predicates : List Predicate)
    (wholeFile : Bool) (result : AdapterMatchResult)
    (h : astFindMatchesEx engine parser content predicates wholeFile = .ok result) (hne : result.spans ≠ [])
    (pred : Predicate) (hpred : pred ∈ predicates) (hkind : pred.kind ≠ .path) :
    ∃ own, astFindMatchesEx engine parser content [pred] false = .ok own ∧ own.spans ≠ [] := by
  have hmust : pred ∈ predicates.filter fun pred => decide (pred.kind ≠ .path) :=
    mem_filter.mpr ⟨hpred, by simpa using hkind⟩
  have hplain : ∀ found, (pythonAdapter.toLanguage engine ".py").findMatchesEx content predicates wholeFile = .ok found →
      found.spans ≠ [] → ∃ own, (pythonAdapter.toLanguage engine ".py").findMatchesEx content [pred] false = .ok own ∧
        own.spans ≠ [] := fun found hfound hsome =>
    (pythonAdapter.toLanguage engine ".py").composes content predicates wholeFile found hfound hsome pred hpred hkind
  have hfilter : [pred].filter (fun pred => decide (pred.kind ≠ .path)) = [pred] := by simp [hkind]
  unfold astFindMatchesEx at h
  dsimp only at h
  split at h
  next =>
    cases h
    exact absurd rfl hne
  next =>
    split at h
    next hall =>
      have hown : pred.kind ∉ structuralKinds := by simpa using all_eq_true.mp hall pred hmust
      obtain ⟨own, hown', hsome⟩ := hplain result h hne
      refine ⟨own, ?_, hsome⟩
      unfold astFindMatchesEx
      simp only [hfilter, cons_ne_nil, if_false, all_cons, all_nil, Bool.and_true, hown,
        not_false_eq_true, decide_true, if_true]
      exact hown'
    next =>
      split at h
      next hparse =>
        obtain ⟨found, hfound, hresult⟩ : ∃ found,
            (pythonAdapter.toLanguage engine ".py").findMatchesEx content predicates wholeFile = .ok found ∧
              result.spans = found.spans := by
          cases hf : (pythonAdapter.toLanguage engine ".py").findMatchesEx content predicates wholeFile with
          | error err =>
            rw [hf] at h
            cases h
          | ok found =>
            rw [hf] at h
            cases h
            exact ⟨found, rfl, rfl⟩
        obtain ⟨own, hown, hsome⟩ := hplain found hfound (hresult ▸ hne)
        unfold astFindMatchesEx
        simp only [hfilter, cons_ne_nil, if_false, hparse, hown]
        split
        next => exact ⟨own, rfl, hsome⟩
        next => exact ⟨_, rfl, hsome⟩
      next nodes hparse =>
        obtain ⟨hits, hhits, h⟩ := bind_ok h
        split at h
        next =>
          cases h
          exact absurd rfl hne
        next hsome =>
          obtain ⟨item, hmem, hitem⟩ := (mapM_ok_mem hhits).1 pred hmust
          refine astFind_single hkind hparse hitem ?_
          intro hnil
          refine hsome (any_eq_true.mpr ⟨item, hmem, by simpa using hnil⟩)

def pythonAstAdapter (engine : Engine) (parser : PythonParser) : LanguageAdapter where
  trustedLanguage := some (chars "python")
  eligible := fun path => chars ".py" <:+ path
  findMatchesEx := astFindMatchesEx engine parser
  composes := astFind_composes engine parser

section

structure SourceRef where
  slug : Text
  commitSha : Text
  path : Text
  blobSha : Text
  startLine : Nat
  endLine : Nat
deriving DecidableEq

structure SourceMatch where
  source : SourceRef
  score : Nat
  matchedKinds : List PredicateKind
  method : MatchMethod
deriving DecidableEq

/-- The file that is scored. -/
structure Blob where
  slug : Text
  commitSha : Text
  path : Text
  blobSha : Text
deriving DecidableEq

variable (adapter : LanguageAdapter) (content : Text)

/-- Whether a predicate of the content excludes the document, and whether a parser was not available. -/
def documentExcludedEx : List Predicate → Bool → Except PatternError (Bool × Bool)
  | [], unavailable => .ok (false, unavailable)
  | pred :: rest, unavailable =>
    if pred.kind = .path then documentExcludedEx rest unavailable
    else do
      let result ← adapter.findMatchesEx content [pred] false
      let unavailable := unavailable || result.parserUnavailable
      if result.spans ≠ [] then pure (true, unavailable) else documentExcludedEx rest unavailable

def spanExcludedEx (span : Span) (wholeFile : Bool) : List Predicate → Bool → Except PatternError (Bool × Bool)
  | [], unavailable => .ok (false, unavailable)
  | pred :: rest, unavailable =>
    if pred.kind = .path then spanExcludedEx span wholeFile rest unavailable
    else do
      let result ← adapter.findMatchesEx content [pred] false
      let unavailable := unavailable || result.parserUnavailable
      if wholeFile ∧ result.spans ≠ [] then pure (true, unavailable)
      else if result.spans.any fun hit => hit.startLine = span.startLine then pure (true, unavailable)
      else spanExcludedEx span wholeFile rest unavailable

/-- What the optional predicates add: kinds, a boost, and whether a parser was not available. -/
structure Tally where
  kinds : List PredicateKind := []
  boost : Nat := 0
  unavailable : Bool := false

/-- The optional predicates of a search over whole files count wherever they are found. -/
def wholeFileShould : List Predicate → Tally → Except PatternError Tally
  | [], tally => .ok tally
  | pred :: rest, tally => do
    let result ← adapter.findMatchesEx content [pred] false
    let unavailable := tally.unavailable || result.parserUnavailable
    if result.spans ≠ [] then wholeFileShould rest ⟨tally.kinds ++ [pred.kind], tally.boost + 1, unavailable⟩
    else wholeFileShould rest { tally with unavailable := unavailable }

/-- Otherwise they count where their spans overlap the span of a match. -/
def overlappingShould (span : Span) : List Predicate → Tally → Except PatternError Tally
  | [], tally => .ok tally
  | pred :: rest, tally => do
    let result ← adapter.findMatchesEx content [pred] false
    let unavailable := tally.unavailable || result.parserUnavailable
    let overlapping := result.spans.filter fun item =>
      item.startLine ≤ span.endLine ∧ span.startLine ≤ item.endLine
    if overlapping ≠ [] then
      overlappingShould span rest
        ⟨tally.kinds ++ overlapping.flatMap fun item => item.matchedKinds, tally.boost + 1, unavailable⟩
    else overlappingShould span rest { tally with unavailable := unavailable }

/-- Without required predicates on the content, the spans of the optional ones are taken. -/
def optionalSpans : List Predicate → List Span → Bool → Except PatternError (List Span × Bool)
  | [], spans, unavailable => .ok (spans.eraseDups, unavailable)
  | pred :: rest, spans, unavailable => do
    let result ← adapter.findMatchesEx content [pred] false
    optionalSpans rest (spans ++ result.spans) (unavailable || result.parserUnavailable)

/-- The match of a span, unless a predicate that must not hold excludes the span. -/
def scoreSpan (blob : Blob) (contentMust should mustNot : List Predicate) (wholeFile : Bool) (whole : Tally)
    (span : Span) (unavailable : Bool) : Except PatternError (Option SourceMatch × Bool) := do
  let (excluded, unavailable) ← spanExcludedEx adapter content span wholeFile mustNot unavailable
  if excluded then pure (none, unavailable)
  else
    let tally ← (if wholeFile then pure { whole with unavailable := unavailable }
      else overlappingShould adapter content span should { unavailable := unavailable })
    pure (some {
      source := ⟨blob.slug, blob.commitSha, blob.path, blob.blobSha, span.startLine, span.endLine⟩
      score := contentMust.length + tally.boost
      matchedKinds := sortKinds (span.matchedKinds ++ tally.kinds)
      method := span.method }, tally.unavailable)

def scoreSpans (blob : Blob) (contentMust should mustNot : List Predicate) (wholeFile : Bool) (whole : Tally) :
    List Span → Bool → Except PatternError (List SourceMatch × Bool)
  | [], unavailable => .ok ([], unavailable)
  | span :: rest, unavailable => do
    let (found, unavailable) ← scoreSpan adapter content blob contentMust should mustNot wholeFile whole span unavailable
    let (others, unavailable) ← scoreSpans blob contentMust should mustNot wholeFile whole rest unavailable
    pure (found.toList ++ others, unavailable)

def scoreContentEx (blob : Blob) (contentMust should mustNot : List Predicate) (wholeFile : Bool) :
    Except PatternError (List SourceMatch × Bool) := do
  let result ← adapter.findMatchesEx content contentMust wholeFile
  if result.spans = [] ∧ contentMust ≠ [] then pure ([], result.parserUnavailable)
  else
    let (spans, unavailable) ←
      (if result.spans = [] then optionalSpans adapter content should [] result.parserUnavailable
      else pure (result.spans, result.parserUnavailable))
    let whole ← (if wholeFile then wholeFileShould adapter content should { unavailable := unavailable }
      else pure { unavailable := unavailable })
    scoreSpans adapter content blob contentMust should mustNot wholeFile whole spans whole.unavailable

end

section

variable (engine : Engine)

def catastrophicShape : Text :=
  chars "\\((?:\\?:)?[^()]*(?:[+*]|\\\x7b\\d*,\\d*\\\x7d)[^()]*\\)(?:[+*]|\\\x7b\\d*,\\d*\\\x7d)"

def hasCatastrophicShape (pattern : Text) : Bool := engine.search catastrophicShape pattern

/-- Whether a path satisfies one of the path predicates, and whether an attempt with a pattern was left out. -/
def pathMatchesEx (path : Text) : List Predicate → Bool → Bool × Bool
  | [], exceeded => (false, exceeded)
  | pred :: rest, exceeded =>
    if pred.kind ≠ .path then pathMatchesEx path rest exceeded
    else if contains pred.value path then (true, exceeded)
    else if hasCatastrophicShape engine pred.value ∨ maxRegexLineLength < path.length then pathMatchesEx path rest true
    else if engine.compiles pred.value && engine.search pred.value path then (true, exceeded)
    else pathMatchesEx path rest exceeded

/-- A host whose patterns are plain text. -/
def literalEngine : Engine where
  parse := fun pattern =>
    if pattern.all fun ch => ch ∉ specialChars then some (pattern.map Sre.Token.literal, 32) else none
  compiles := fun pattern => pattern.all fun ch => ch ∉ specialChars
  search := fun pattern line => (pattern.all fun ch => ch ∉ specialChars) && contains pattern line
  matchStart := fun pattern line => (pattern.all fun ch => ch ∉ specialChars) && pattern <+: line
  groupOne := fun _ _ => []

end

end Leitir.Search
