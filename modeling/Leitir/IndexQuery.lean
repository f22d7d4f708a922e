import Leitir.ExceptRun
import Leitir.IndexPostings
import Leitir.Utf8

namespace Leitir.Search

open ExceptRun List

open Sre

section

def flush (current : Text) : List Text := if current = [] then [] else [current]

mutual

/-- The runs inside an operation that every match must go through. -/
def childRuns : Token → List Text
  | .subpattern _ addFlags _ child => if ignoreCase addFlags then [] else visit child []
  | .maxRepeat least _ child => if 0 < least then visit child [] else []
  | .minRepeat least _ child => if 0 < least then visit child [] else []
  | .possessiveRepeat least _ child => if 0 < least then visit child [] else []
  | .assertion direction child => if 0 ≤ direction then visit child [] else []
  | _ => []
termination_by structural token => token

/-- Literal runs of a sequence of operations, with the run that is being read. -/
def visit : List Token → Text → List Text
  | [], current => flush current
  | token :: rest, current =>
    match token with
    | .literal point => visit rest (current ++ [point])
    | .anchor _ => visit rest current
    | .success => visit rest current
    | token => flush current ++ childRuns token ++ visit rest []
termination_by structural tokens => tokens

end

variable {tables : Tables} {text : Text}

variable {current : Text}

theorem flush_infix {n : Nat} (h : current <:+ text.take n) :
    ∀ run ∈ flush current, run <:+: text := by
  intro run hrun
  unfold flush at hrun
  split at hrun
  next => cases hrun
  next =>
    cases mem_singleton.mp hrun
    exact h.isInfix.trans ( take_prefix _ _).isInfix

theorem visit_other_infix {token : Token} {rest : List Token} {n : Nat}
    (hvisit : visit (token :: rest) current = flush current ++ childRuns token ++ visit rest [])
    (hcur : current <:+ text.take n) (hchild : ∀ run ∈ childRuns token, run <:+: text)
    (hrest : ∀ run ∈ visit rest [], run <:+: text) : ∀ run ∈ visit (token :: rest) current, run <:+: text := by
  intro run hrun
  rw [hvisit, mem_append, mem_append] at hrun
  rcases hrun with (hrun | hrun) | hrun
  · exact flush_infix hcur run hrun
  · exact hchild run hrun
  · exact hrest run hrun

theorem RepeatOf.visit_cons {token : Token} {least : Nat} {most : Option Nat} {child : List Token}
    (h : RepeatOf token least most child) (rest : List Token) (current : Text) :
    visit (token :: rest) current = flush current ++ childRuns token ++ visit rest [] ∧
      childRuns token = if 0 < least then visit child [] else [] := by
  cases h <;> exact ⟨rfl, rfl⟩

/-- Every run that the extraction reads from a pattern occurs in every text in which it matches. -/
theorem visit_infix {flags : Nat} {tokens : List Token} {s t : State}
    (h : Matches tables text flags tokens s t) (hflags : ignoreCase flags = false) (hs : s.pos ≤ text.length) (hcur : current <:+ text.take s.pos) : ∀ run ∈ visit tokens current, run <:+: text := by
  have hnil : ∀ n, ([] : Text) <:+ text.take n := fun n => nil_suffix
  have hnone : ∀ run ∈ ([] : List Text), run <:+: text := by simp
  induction h generalizing current with
  | nil => exact flush_infix hcur
  | @literal flags point ch rest s t hch hsame _ ih =>
    have hlt := (List.getElem?_eq_some_iff.mp hch).1
    have heq : ch = point := by simpa [sameLetter, hflags] using hsame
    refine ih hflags hlt ?_
    obtain ⟨before, hbefore⟩ := hcur
    refine ⟨before, ?_⟩
    rw [State.move_pos, take_add_one, hch, heq, ← hbefore]
    simp
  | @single flags token ch rest s t hone hch _ _ ih =>
    have hlt := (List.getElem?_eq_some_iff.mp hch).1
    cases token <;> simp only [Token.takesOne, Bool.false_eq_true] at hone
    all_goals exact visit_other_infix rfl hcur hnone (ih hflags hlt (hnil _))
  | anchor _ _ ih => exact ih hflags hs hcur
  | branch _ halt _ _ ih => exact visit_other_infix rfl hcur hnone (ih hflags (halt.pos_le hs) (hnil _))
  | @subpattern flags group addFlags delFlags child rest s u t hchild _ ihchild ih =>
    refine visit_other_infix rfl hcur ?_ (ih hflags (by rw [State.close_pos]; exact hchild.pos_le hs) (hnil _))
    unfold childRuns
    split
    next => exact hnone
    next hadd => exact ihchild (ignoreCase_combine hflags (by simpa using hadd)) hs (hnil _)
  | repeatDone hrep _ ih =>
    obtain ⟨hvisit, hruns⟩ := RepeatOf.visit_cons hrep _ current
    exact visit_other_infix hvisit hcur (by rw [hruns]; exact hnone) (ih hflags hs (hnil _))
  | @repeatMore flags token least most child rest s u t hrep _ hchild _ ihchild ih =>
    obtain ⟨hvisit, hruns⟩ := RepeatOf.visit_cons hrep rest current
    refine visit_other_infix hvisit hcur ?_ ?_
    · rw [hruns]
      split
      next => exact ihchild hflags hs (hnil _)
      next => exact hnone
    · intro run hrun
      refine ih hflags (hchild.pos_le hs) (hnil _) run ?_
      exact mem_append_right (flush [] ++ childRuns _) hrun
  | @ahead flags direction child rest s u t hdir _ _ ihchild ih =>
    refine visit_other_infix rfl hcur ?_ (ih hflags hs (hnil _))
    unfold childRuns
    rw [if_pos hdir]
    exact ihchild hflags hs (hnil _)
  | @behind flags direction child rest s r u t hdir _ _ _ hu _ _ ih =>
    refine visit_other_infix rfl hcur ?_ (ih hflags (by omega) (hnil _))
    unfold childRuns
    rw [if_neg (by omega)]
    exact hnone
  | notFollowed _ ih => exact visit_other_infix rfl hcur hnone (ih hflags hs (hnil _))
  | @groupRef flags group a b rest s t hgroup hsame hrest ih =>
    have hmove : (s.move (b - a)).pos ≤ text.length := by
      have hempty : Matches tables text flags [.groupRef group] s (s.move (b - a)) :=
        .groupRef hgroup hsame .nil
      exact hempty.pos_le hs
    exact visit_other_infix rfl hcur hnone (ih hflags hmove (hnil _))
  | groupRefYes _ hyes _ _ ih => exact visit_other_infix rfl hcur hnone (ih hflags (hyes.pos_le hs) (hnil _))
  | groupRefNo _ hno _ _ ih => exact visit_other_infix rfl hcur hnone (ih hflags (hno.pos_le hs) (hnil _))
  | atomicGroup hchild _ _ ih =>
    exact visit_other_infix rfl hcur hnone (ih hflags (hchild.pos_le hs) (hnil _))
  | success _ ih => exact ih hflags hs hcur

end

section

inductive EncodeError
  | surrogate
deriving DecidableEq, Repr

def isSurrogate (point : Nat) : Bool := 0xD800 ≤ point && point ≤ 0xDFFF

def encodeUtf8 (text : Text) : Except EncodeError Bytes :=
  if text.any isSurrogate then .error .surrogate else .ok (text.flatMap Utf8.encodePoint)

/-- Runs that survive decoding with replacement and are long enough for a window. -/
def usableRuns : List Text → Except EncodeError (List Bytes)
  | [] => .ok []
  | run :: rest =>
    if 0xFFFD ∈ run then usableRuns rest
    else do
      let data ← encodeUtf8 run
      let others ← usableRuns rest
      pure (if 3 ≤ data.length then data :: others else others)

def parsedLiteralRuns (engine : Engine) (pattern : Text) : Except EncodeError (List Bytes) :=
  match engine.parse pattern with
  | none => .ok []
  | some (tokens, flags) => if ignoreCase flags then .ok [] else usableRuns (visit tokens [])

def predicateLiteralRuns (engine : Engine) (pred : Predicate) : Except EncodeError (List Bytes) :=
  match pred.kind with
  | .exactText => do
    let encoded ← encodeUtf8 pred.value
    pure (if 0xFFFD ∉ pred.value ∧ 3 ≤ encoded.length then [encoded] else [])
  | .regex => parsedLiteralRuns engine pred.value
  | _ => .ok []

/-- The literal runs that a document needs for the predicates. -/
def requiredRuns (engine : Engine) (must : List Predicate) : Except EncodeError (List Bytes) := do
  let runs ← (must.filter fun pred => pred.kind ≠ .path).mapM (predicateLiteralRuns engine)
  pure runs.flatten

/-- The documents that hold all windows of all required runs, among the allowed ones. -/
def candidateIds (engine : Engine) (must : List Predicate) (postings : Bytes → List Nat) (allowed : List Nat) :
    Except EncodeError (Option (List Nat)) := do
  let runs ← requiredRuns engine must
  let grams := (runs.flatMap iterTrigrams).dedup.insertionSort (· ≤ ·)
  if runs = [] ∨ grams = [] then pure none
  else pure (some (intersectSorted (allowed :: grams.map postings)))

/-- The parser's tree of a pattern denotes what the matcher finds. -/
def Engine.Denotes (engine : Engine) (tables : Tables) : Prop :=
  ∀ pattern line, engine.search pattern line = true →
    ∃ tokens flags, engine.parse pattern = some (tokens, flags) ∧ Found tables line flags tokens

theorem encodeUtf8_ok {text : Text} {data : Bytes} (h : encodeUtf8 text = .ok data) :
    data = text.flatMap Utf8.encodePoint := by
  unfold encodeUtf8 at h
  split at h
  next => cases h
  next => exact (Except.ok.inj h).symm

/-- A usable run is the encoding of a run without the replacement character. -/
theorem mem_usableRuns {runs : List Text} {usable : List Bytes} (h : usableRuns runs = .ok usable) :
    ∀ data ∈ usable, ∃ run ∈ runs, 0xFFFD ∉ run ∧ data = run.flatMap Utf8.encodePoint ∧ 3 ≤ data.length := by
  induction runs generalizing usable with
  | nil =>
    cases h
    intro data hdata
    cases hdata
  | cons run rest ih =>
    unfold usableRuns at h
    intro data hdata
    split at h
    next =>
      obtain ⟨other, hother, hrest⟩ := ih h data hdata
      exact ⟨other, mem_cons_of_mem _ hother, hrest⟩
    next hclean =>
      obtain ⟨encoded, hencoded, h⟩ := bind_ok h
      obtain ⟨others, hothers, h⟩ := bind_ok h
      have hinner : data ∈ others → ∃ run' ∈ run :: rest, 0xFFFD ∉ run' ∧
          data = run'.flatMap Utf8.encodePoint ∧ 3 ≤ data.length := by
        intro hmem
        obtain ⟨other, hother, hrest⟩ := ih hothers data hmem
        exact ⟨other, mem_cons_of_mem _ hother, hrest⟩
      cases h
      split at hdata
      next hlen =>
        rcases mem_cons.mp hdata with rfl | hmem
        · exact ⟨run, mem_cons_self, hclean, encodeUtf8_ok hencoded, hlen⟩
        · exact hinner hmem
      next => exact hinner hdata

variable {engine : Engine} {tables : Tables}

/-- A line that a predicate hits has all its required runs, as text. -/
theorem predicateLiteralRuns_line (hengine : engine.Denotes tables) {pred : Predicate} {runs : List Bytes}
    (hruns : predicateLiteralRuns engine pred = .ok runs) {line : Text}
    (hexact : pred.kind = .exactText → contains pred.value line = true)
    (hregex : pred.kind = .regex → engine.search pred.value line = true) :
    ∀ data ∈ runs, ∃ run, run <:+: line ∧ 0xFFFD ∉ run ∧ data = run.flatMap Utf8.encodePoint ∧ 3 ≤ data.length := by
  intro data hdata
  unfold predicateLiteralRuns at hruns
  split at hruns
  next hkind =>
    obtain ⟨encoded, hencoded, hruns⟩ := bind_ok hruns
    cases hruns
    split at hdata
    next hclean =>
      cases mem_singleton.mp hdata
      exact ⟨pred.value, by simpa [contains] using hexact hkind, hclean.1, encodeUtf8_ok hencoded, hclean.2⟩
    next => cases hdata
  next hkind =>
    obtain ⟨tokens, flags, hparse, start, stop, hstart, hmatch⟩ := hengine _ _ (hregex hkind)
    unfold parsedLiteralRuns at hruns
    simp only [hparse] at hruns
    split at hruns
    next =>
      cases hruns
      cases hdata
    next hflags =>
      obtain ⟨run, hrun, hclean, hrest⟩ := mem_usableRuns hruns data hdata
      exact ⟨run, visit_infix hmatch (by simpa using hflags) hstart nil_suffix run hrun, hclean, hrest⟩
  next =>
    cases hruns
    cases hdata

/-- The candidates are the allowed documents that are posted for all windows of the required runs. -/
theorem mem_candidateIds {must : List Predicate} {postings : Bytes → List Nat} {allowed ids : List Nat}
    (hpostings : ∀ gram, (postings gram).Pairwise (· ≤ ·)) (hallowed : allowed.Pairwise (· ≤ ·))
    (h : candidateIds engine must postings allowed = .ok (some ids)) :
    ∃ runs, requiredRuns engine must = .ok runs ∧
      ∀ i, i ∈ ids ↔ i ∈ allowed ∧ ∀ data ∈ runs, ∀ gram ∈ iterTrigrams data, i ∈ postings gram := by
  obtain ⟨runs, hruns, h⟩ := bind_ok h
  refine ⟨runs, hruns, ?_⟩
  intro i
  dsimp only at h
  split at h
  next => cases h
  next =>
    cases h
    rw [intersectSorted, mem_intersectRest hallowed]
    · simp only [forall_mem_map, mem_insertionSort, mem_dedup, mem_flatMap]
      constructor
      · rintro ⟨hi, hall⟩
        exact ⟨hi, fun data hdata gram hgram => hall gram ⟨data, hdata, hgram⟩⟩
      · rintro ⟨hi, hall⟩
        refine ⟨hi, ?_⟩
        rintro gram ⟨data, hdata, hgram⟩
        exact hall data hdata gram hgram
    · intro values hvalues
      obtain ⟨gram, -, rfl⟩ := mem_map.mp hvalues
      exact hpostings gram

theorem mem_requiredRuns {must : List Predicate} {runs : List Bytes} {data : Bytes}
    (h : requiredRuns engine must = .ok runs) (hdata : data ∈ runs) :
    ∃ pred ∈ must, pred.kind ≠ .path ∧ ∃ own, predicateLiteralRuns engine pred = .ok own ∧ data ∈ own := by
  obtain ⟨lists, hlists, h⟩ := bind_ok h
  cases h
  obtain ⟨own, hown, hmem⟩ := mem_flatten.mp hdata
  obtain ⟨pred, hpred, hf⟩ := (mapM_ok_mem hlists).2 own hown
  obtain ⟨hpred, hkind⟩ := mem_filter.mp hpred
  exact ⟨pred, hpred, by simpa using hkind, own, hf, hmem⟩

end

section

variable {engine : Engine}

theorem findSpans_hits {hitsFor : Predicate → Except MatchError (List Nat)} {count : Nat}
    {predicates : List Predicate} {wholeFile : Bool} {spans : List SpanMatch}
    (h : findSpans hitsFor count predicates wholeFile = .ok spans) (hne : spans ≠ []) :
    ∀ pred ∈ predicates, pred.kind ≠ .path → ∃ hits, hitsFor pred = .ok hits ∧ hits ≠ [] := by
  intro pred hpred hkind
  unfold findSpans at h
  dsimp only at h
  split at h
  next =>
    cases h
    exact absurd rfl hne
  next =>
    obtain ⟨lists, hlists, h⟩ := bind_ok h
    obtain ⟨hits, hmem, hf⟩ := (mapM_ok_mem hlists).1 pred (mem_filter.mpr ⟨hpred, by simpa using hkind⟩)
    refine ⟨hits, hf, ?_⟩
    rintro rfl
    rw [if_pos (any_eq_true.mpr ⟨[], hmem, by simp⟩)] at h
    cases h
    exact hne rfl

variable {lines : List Text}

theorem exists_of_hitLines {test : Text → Bool} (h : hitLines test lines ≠ []) :
    ∃ line ∈ lines, test line = true := by
  obtain ⟨i, hi⟩ := exists_mem_of_ne_nil _ h
  obtain ⟨hrange, htest⟩ := mem_filter.mp hi
  rw [mem_range] at hrange
  rw [getD_eq_getElem _ _ hrange] at htest
  exact ⟨_, getElem_mem hrange, htest⟩

theorem boundedMatchingLines_ok {pattern : Text} {extra : Text → Bool} {hits : List Nat}
    (h : boundedMatchingLines engine pattern extra lines = .ok hits) :
    hits = hitLines (fun line => extra line && engine.search pattern line) lines := by
  unfold boundedMatchingLines at h
  split at h
  next => cases h
  next =>
    split at h
    next => cases h
    next => exact (Except.ok.inj h).symm

theorem infix_intercalate {sep line : Text} (h : line ∈ lines) :
    line <:+: sep.intercalate lines := by
  induction lines with
  | nil => cases h
  | cons first rest ih =>
    cases rest with
    | nil =>
      cases mem_singleton.mp h
      simp [List.intercalate]
    | cons second others =>
      have hsplit : sep.intercalate (first :: second :: others) =
          first ++ (sep ++ sep.intercalate (second :: others)) := by
        simp [List.intercalate]
      rw [hsplit]
      rcases mem_cons.mp h with rfl | h
      · exact (prefix_append _ _).isInfix
      · have htail : sep.intercalate (second :: others) <:+ first ++ (sep ++ sep.intercalate (second :: others)) :=
          (suffix_append _ _).trans (suffix_append _ _)
        exact (ih h).trans htail.isInfix

theorem contentLines_part {shown content line : Text} (h : line ∈ contentLines shown content) :
    line <:+: shown := by
  have hmem : line ∈ shown.splitOn 10 := by
    unfold contentLines at h
    dsimp only at h
    split at h
    next => exact mem_of_mem_dropLast h
    next => exact h
  have hinfix : line <:+: [10].intercalate (shown.splitOn 10) := infix_intercalate hmem
  rwa [intercalate_splitOn] at hinfix

theorem LineAdapter.exists_line {adapter : LineAdapter} {pred : Predicate} {hits : List Nat}
    (h : adapter.linesForPredicate engine lines pred = .ok hits) (hne : hits ≠ []) :
    (pred.kind = .exactText ∨ pred.kind = .regex) → ∃ line ∈ lines,
      (pred.kind = .exactText → contains pred.value line = true) ∧
        (pred.kind = .regex → engine.search pred.value line = true) := by
  unfold LineAdapter.linesForPredicate at h
  rintro (hkind | hkind)
  · simp only [hkind] at h ⊢
    obtain ⟨line, hline, htest⟩ := exists_of_hitLines (Except.ok.inj h ▸ hne)
    exact ⟨line, hline, fun _ => htest, by simp⟩
  · simp only [hkind] at h ⊢
    obtain ⟨line, hline, htest⟩ := exists_of_hitLines (boundedMatchingLines_ok h ▸ hne)
    exact ⟨line, hline, by simp, fun _ => by simpa using htest⟩

end

end Leitir.Search
