import Leitir.IndexQuery
import Leitir.SearchMasking

namespace Leitir.Search

open Sre List

variable {engine : Engine} {tables : Tables}

theorem planned_kind {pred : Predicate} {own : List Bytes} {data : Bytes}
    (hown : predicateLiteralRuns engine pred = .ok own) (hmem : data ∈ own) :
    pred.kind = .exactText ∨ pred.kind = .regex := by
  unfold predicateLiteralRuns at hown
  split at hown
  next h => exact Or.inl h
  next h => exact Or.inr h
  next =>
    cases hown
    cases hmem

theorem LineAdapter.required_infix (hengine : engine.Denotes tables) {adapter : LineAdapter} {content : Text}
    {must : List Predicate} {wholeFile : Bool} {spans : List SpanMatch}
    (hspans : adapter.findMatches engine content must wholeFile = .ok spans) (hne : spans ≠ [])
    {runs : List Bytes} (hruns : requiredRuns engine must = .ok runs) :
    ∀ data ∈ runs, ∃ run, run <:+: content ∧ 0xFFFD ∉ run ∧ data = run.flatMap Utf8.encodePoint := by
  intro data hdata
  obtain ⟨pred, hpred, hkind, own, hown, hmem⟩ := mem_requiredRuns hruns hdata
  obtain ⟨hits, hhits, hsome⟩ := findSpans_hits hspans hne pred hpred hkind
  obtain ⟨line, hline, hexact, hregex⟩ := LineAdapter.exists_line hhits hsome (planned_kind hown hmem)
  obtain ⟨run, hrun, hclean, heq, -⟩ := predicateLiteralRuns_line hengine hown hexact hregex data hmem
  exact ⟨run, hrun.trans (contentLines_part hline), hclean, heq⟩

/-- A host that knows one pattern, a literal with a look-ahead. -/
def sampleEngine : Engine where
  parse := fun pattern =>
    if pattern = chars "abc(?=d)" then
      some ([.literal 97, .literal 98, .literal 99, .assertion 1 [.literal 100]], 32)
    else none
  compiles := fun pattern => pattern = chars "abc(?=d)"
  search := fun pattern line => pattern = chars "abc(?=d)" && contains [97, 98, 99, 100] line
  matchStart := fun pattern line => pattern = chars "abc(?=d)" && [97, 98, 99, 100] <+: line
  groupOne := fun _ _ => []

def sampleTables : Tables := ⟨fun _ point ch => point = ch, fun _ _ _ => True, fun _ _ _ _ => True⟩

theorem sampleEngine_denotes : sampleEngine.Denotes sampleTables := by
  intro pattern line h
  simp only [sampleEngine, Bool.and_eq_true, decide_eq_true_eq, contains] at h
  obtain ⟨rfl, before, after, rfl⟩ := h
  refine ⟨[.literal 97, .literal 98, .literal 99, .assertion 1 [.literal 100]], 32, by simp [sampleEngine],
    ⟨before.length, fun _ => none⟩,
    ⟨before.length + 3, fun _ => none⟩, by simp, ?_⟩
  have hat : ∀ k, (before ++ [97, 98, 99, 100] ++ after)[before.length + k]? = ([97, 98, 99, 100] ++ after)[k]? := by
    intro k
    rw [append_assoc, getElem?_append_right (by omega)]
    simp
  refine .literal (hat 0) rfl (.literal (hat 1) rfl (.literal (hat 2) rfl ?_))
  exact .ahead (by decide) (.literal (hat 3) rfl .nil) .nil

/-- The candidates of a plan keep every allowed document in which an adapter on lines finds a span. -/
theorem candidateIds_keeps_matches (hengine : engine.Denotes tables) (adapter : LineAdapter)
    {documents : List Bytes} {must : List Predicate} {allowed ids : List Nat} {wholeFile : Bool}
    {spans : List SpanMatch} {i : Nat} {data : Bytes} (hallowed : allowed.Pairwise (· ≤ ·))
    (hdata : documents[i]? = some data)
    (hspans : adapter.findMatches engine (Utf8.decodeReplace data) must wholeFile = .ok spans)
    (hne : spans ≠ []) (hids : candidateIds engine must (buildPostings documents) allowed = .ok (some ids))
    (hi : i ∈ allowed) : i ∈ ids := by
  obtain ⟨runs, hruns, hmem⟩ := mem_candidateIds (buildPostings_sorted documents) hallowed hids
  refine (hmem i).mpr ⟨hi, ?_⟩
  intro encoded hencoded gram hgram
  obtain ⟨run, hrun, hclean, rfl⟩ := LineAdapter.required_infix hengine hspans hne hruns encoded hencoded
  obtain ⟨hlen, hinfix⟩ := mem_iterTrigrams.mp hgram
  exact mem_buildPostings.mpr ⟨data, hdata, hlen, hinfix.trans (Utf8.infix_of_decodeReplace hclean hrun)⟩

def sampleMust : List Predicate := [{ kind := .regex, value := chars "abc(?=d)" }]

theorem candidateIds_keeps_matches_sample :
    pythonAdapter.findMatches sampleEngine (Utf8.decodeReplace (chars "x\nabcd")) sampleMust false =
        .ok [⟨2, 2, [.regex], .heuristic⟩] ∧
      candidateIds sampleEngine sampleMust (buildPostings [chars "y", chars "x\nabcd"]) [0, 1] = .ok (some [1]) ∧
      1 ∈ [1] := by
  have hspans : pythonAdapter.findMatches sampleEngine (Utf8.decodeReplace (chars "x\nabcd")) sampleMust false =
      .ok [⟨2, 2, [.regex], .heuristic⟩] := by decide +kernel
  have hids : candidateIds sampleEngine sampleMust (buildPostings [chars "y", chars "x\nabcd"]) [0, 1] =
      .ok (some [1]) := by decide +kernel
  refine ⟨hspans, hids, ?_⟩
  exact candidateIds_keeps_matches sampleEngine_denotes pythonAdapter (by decide) rfl hspans (by simp) hids (by decide)

/-- With the allowed documents out of order the pass loses a match. -/
theorem candidateIds_unsorted_loses_match :
    sampleEngine.Denotes sampleTables ∧
      pythonAdapter.findMatches sampleEngine (Utf8.decodeReplace (chars "abcd")) sampleMust false =
        .ok [⟨1, 1, [.regex], .heuristic⟩] ∧
      candidateIds sampleEngine sampleMust (buildPostings [chars "abcd", chars "abcd"]) [1, 0] = .ok (some [1]) ∧
      0 ∈ [1, 0] ∧ 0 ∉ [1] :=
  ⟨sampleEngine_denotes, by decide +kernel, by decide +kernel, by decide, by decide⟩

theorem infix_of_not_mem {α : Type} {part before after : List α} {x : α} (hx : x ∉ part)
    (h : part <:+: before ++ x :: after) : part <:+: before ∨ part <:+: after := by
  obtain ⟨left, right, heq⟩ := h
  rw [append_assoc] at heq
  rcases append_eq_append_iff.mp heq with ⟨middle, hbefore, hrest⟩ | ⟨middle, hleft, hrest⟩
  · rcases append_eq_append_iff.mp hrest with ⟨inner, hmiddle, -⟩ | ⟨inner, hpart, hafter⟩
    · refine Or.inl ⟨left, inner, ?_⟩
      rw [hbefore, hmiddle, append_assoc]
    · cases inner with
      | nil =>
        refine Or.inl ⟨left, [], ?_⟩
        rw [hbefore, hpart]
        simp
      | cons y inner =>
        refine absurd ?_ hx
        rw [hpart, (List.cons.inj hafter).1]
        simp
  · cases middle with
    | nil =>
      cases part with
      | nil => exact Or.inl nil_infix
      | cons y part =>
        refine absurd ?_ hx
        rw [(List.cons.inj hrest).1]
        exact mem_cons_self
    | cons y middle =>
      refine Or.inr ⟨middle, right, ?_⟩
      rw [append_assoc]
      exact (List.cons.inj hrest).2.symm

theorem encodePoint_space : Utf8.encodePoint 32 = [32] := by decide

theorem window_in_part {run gram : List Nat} (hspace : 32 ∉ gram) (h : gram <:+: run.flatMap Utf8.encodePoint) :
    ∃ part, part <:+: run ∧ 32 ∉ part ∧ gram <:+: part.flatMap Utf8.encodePoint := by
  induction hlen : run.length using Nat.strong_induction_on generalizing run with
  | _ n ih =>
    by_cases hrun : 32 ∈ run
    · obtain ⟨before, after, rfl⟩ := append_of_mem hrun
      rw [flatMap_append, flatMap_cons, encodePoint_space, singleton_append] at h
      rw [length_append, length_cons] at hlen
      rcases infix_of_not_mem hspace h with h | h
      · obtain ⟨part, hpart, hclean, hgram⟩ := ih before.length (by omega) h rfl
        exact ⟨part, hpart.trans (prefix_append _ _).isInfix, hclean, hgram⟩
      · obtain ⟨part, hpart, hclean, hgram⟩ := ih after.length (by omega) h rfl
        refine ⟨part, hpart.trans ?_, hclean, hgram⟩
        exact (suffix_append_of_suffix (suffix_cons _ _)).isInfix
    · exact ⟨run, infix_refl run, hrun, h⟩

theorem window_of_mask {data run gram : List Nat} (hclean : 0xFFFD ∉ run)
    (hrun : run <:+: maskCommentsAndStrings (Utf8.decodeReplace data)) (hspace : 32 ∉ gram)
    (hgram : gram <:+: run.flatMap Utf8.encodePoint) : gram <:+: data := by
  obtain ⟨part, hpart, hnone, hwindow⟩ := window_in_part hspace hgram
  have hshown : part <:+: Utf8.decodeReplace data := infix_of_mask (hpart.trans hrun) hnone
  exact hwindow.trans (Utf8.infix_of_decodeReplace (fun hmem => hclean (hpart.subset hmem)) hshown)

theorem RegexInventory.exists_line {inventory : RegexInventory} {lines : List Text} {pred : Predicate}
    {hits : List Nat} (h : inventory.linesForPredicate engine lines pred = .ok hits) (hne : hits ≠ []) :
    (pred.kind = .exactText ∨ pred.kind = .regex) → ∃ line ∈ lines,
      (pred.kind = .exactText → contains pred.value line = true) ∧
        (pred.kind = .regex → engine.search pred.value line = true) := by
  unfold RegexInventory.linesForPredicate at h
  rintro (hkind | hkind)
  · simp only [hkind] at h ⊢
    obtain ⟨line, hline, htest⟩ := exists_of_hitLines (Except.ok.inj h ▸ hne)
    exact ⟨line, hline, fun _ => htest, by simp⟩
  · simp only [hkind] at h ⊢
    obtain ⟨line, hline, htest⟩ := exists_of_hitLines (boundedMatchingLines_ok h ▸ hne)
    exact ⟨line, hline, by simp, fun _ => by simpa using htest⟩

theorem RegexInventory.required_infix (hengine : engine.Denotes tables) {inventory : RegexInventory} {content : Text}
    {must : List Predicate} {wholeFile : Bool} {spans : List SpanMatch}
    (hspans : inventory.findMatches engine content must wholeFile = .ok spans) (hne : spans ≠ [])
    {runs : List Bytes} (hruns : requiredRuns engine must = .ok runs) :
    ∀ data ∈ runs, ∃ run, run <:+: maskCommentsAndStrings content ∧ 0xFFFD ∉ run ∧
      data = run.flatMap Utf8.encodePoint := by
  intro data hdata
  obtain ⟨pred, hpred, hkind, own, hown, hmem⟩ := mem_requiredRuns hruns hdata
  obtain ⟨hits, hhits, hsome⟩ := findSpans_hits hspans hne pred hpred hkind
  obtain ⟨line, hline, hexact, hregex⟩ := RegexInventory.exists_line hhits hsome (planned_kind hown hmem)
  obtain ⟨run, hrun, hclean, heq, -⟩ := predicateLiteralRuns_line hengine hown hexact hregex data hmem
  exact ⟨run, hrun.trans (contentLines_part hline), hclean, heq⟩

/-- A document in whose masked text an adapter finds a span is a candidate exactly when it holds every window with a
space of the required runs. -/
theorem masked_candidate_iff (hengine : engine.Denotes tables) (inventory : RegexInventory)
    {documents : List Bytes} {must : List Predicate} {allowed ids : List Nat} {wholeFile : Bool}
    {spans : List SpanMatch} {i : Nat} {data : Bytes} {runs : List Bytes} (hallowed : allowed.Pairwise (· ≤ ·))
    (hdata : documents[i]? = some data)
    (hspans : inventory.findMatches engine (Utf8.decodeReplace data) must wholeFile = .ok spans)
    (hne : spans ≠ []) (hids : candidateIds engine must (buildPostings documents) allowed = .ok (some ids))
    (hi : i ∈ allowed) (hruns : requiredRuns engine must = .ok runs) :
    i ∈ ids ↔ ∀ run ∈ runs, ∀ gram ∈ iterTrigrams run, 32 ∈ gram → gram <:+: data := by
  obtain ⟨runs', hruns', hmem⟩ := mem_candidateIds (buildPostings_sorted documents) hallowed hids
  cases hruns.symm.trans hruns'
  rw [hmem i]
  constructor
  · intro h run hrun gram hgram _
    obtain ⟨other, hother, -, hinfix⟩ := mem_buildPostings.mp (h.2 run hrun gram hgram)
    rw [hdata] at hother
    cases hother
    exact hinfix
  · intro h
    refine ⟨hi, ?_⟩
    intro encoded hencoded gram hgram
    obtain ⟨hlen, hinfix⟩ := mem_iterTrigrams.mp hgram
    refine mem_buildPostings.mpr ⟨data, hdata, hlen, ?_⟩
    by_cases hspace : 32 ∈ gram
    · exact h encoded hencoded gram hgram hspace
    · obtain ⟨run, hrun, hclean, rfl⟩ := RegexInventory.required_infix hengine hspans hne hruns encoded hencoded
      exact window_of_mask hclean hrun hspace hinfix

def spacedMust : List Predicate := [{ kind := .exactText, value := chars "a    b" }]

theorem masked_candidate_iff_sample :
    javaInventory.findMatches sampleEngine (Utf8.decodeReplace (chars "int a    b;")) spacedMust false =
        .ok [⟨1, 1, [.exactText], .heuristic⟩] ∧
      candidateIds sampleEngine spacedMust (buildPostings [chars "int a    b;"]) [0] = .ok (some [0]) ∧
      (0 ∈ [0] ↔ ∀ run ∈ [chars "a    b"], ∀ gram ∈ iterTrigrams run, 32 ∈ gram → gram <:+: chars "int a    b;") := by
  have hspans : javaInventory.findMatches sampleEngine (Utf8.decodeReplace (chars "int a    b;")) spacedMust false =
      .ok [⟨1, 1, [.exactText], .heuristic⟩] := by decide +kernel
  have hids : candidateIds sampleEngine spacedMust (buildPostings [chars "int a    b;"]) [0] = .ok (some [0]) := by
    decide +kernel
  have hruns : requiredRuns sampleEngine spacedMust = .ok [chars "a    b"] := by decide +kernel
  refine ⟨hspans, hids, ?_⟩
  exact masked_candidate_iff sampleEngine_denotes javaInventory (by decide) rfl hspans (by simp) hids (by decide) hruns

/-- The spaces that mask a comment take part in a match, and the plan looks for them in the document. -/
theorem masked_comment_loses_match :
    sampleEngine.Denotes sampleTables ∧
      javaInventory.findMatches sampleEngine (Utf8.decodeReplace (chars "int a/**/b;")) spacedMust false =
        .ok [⟨1, 1, [.exactText], .heuristic⟩] ∧
      candidateIds sampleEngine spacedMust (buildPostings [chars "int a/**/b;"]) [0] = .ok (some []) :=
  ⟨sampleEngine_denotes, by decide +kernel, by decide +kernel⟩

end Leitir.Search
