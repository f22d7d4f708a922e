import Leitir.SearchAdapter
import Mathlib.Data.List.Forall2

namespace Leitir.Search

inductive MaskState
  | code | lineComment | blockComment
  | string (quote : Nat)
deriving DecidableEq, Repr

/-- A move of the masking loop: it writes one character or two and goes to a state. -/
inductive MaskMove
  | one (shown : Nat) (state : MaskState)
  | two (first second : Nat) (state : MaskState)

def blank (ch : Nat) : Nat := if ch = 10 then ch else 32

/-- Slashes are 47, stars 42, backslashes 92; quotes are 34, 39 and 96. -/
def maskMove : MaskState → Nat → Option Nat → MaskMove
  | .code, ch, following =>
    if ch = 47 ∧ following = some 47 then .two 32 32 .lineComment
    else if ch = 47 ∧ following = some 42 then .two 32 32 .blockComment
    else if ch = 39 ∨ ch = 34 ∨ ch = 96 then .one 32 (.string ch)
    else .one ch .code
  | .lineComment, ch, _ => if ch = 10 then .one ch .code else .one 32 .lineComment
  | .blockComment, ch, following =>
    if ch = 42 ∧ following = some 47 then .two 32 32 .code else .one (blank ch) .blockComment
  | .string quote, ch, following =>
    if ch = 92 then
      match following with
      | none => .one 32 (.string quote)
      | some next => .two 32 (blank next) (.string quote)
    else if ch = quote then .one 32 .code
    else .one (blank ch) (.string quote)

def maskLoop : MaskState → Text → Text
  | _, [] => []
  | state, [ch] =>
    match maskMove state ch none with
    | .one shown _ => [shown]
    | .two first _ _ => [first]
  | state, ch :: next :: rest =>
    match maskMove state ch (some next) with
    | .one shown state => shown :: maskLoop state (next :: rest)
    | .two first second state => first :: second :: maskLoop state rest

def maskCommentsAndStrings (content : Text) : Text := maskLoop .code content

def Shows (ch shown : Nat) : Prop := shown = ch ∨ shown = 32

theorem blank_shows (ch : Nat) : Shows ch (blank ch) := by
  unfold blank
  split
  next => exact Or.inl rfl
  next => exact Or.inr rfl

theorem space_shows (ch : Nat) : Shows ch 32 := Or.inr rfl

def MaskMove.Shows (ch : Nat) (following : Option Nat) : MaskMove → Prop
  | .one shown _ => Search.Shows ch shown
  | .two first second _ => Search.Shows ch first ∧ ∀ next ∈ following, Search.Shows next second

theorem maskMove_shows (state : MaskState) (ch : Nat) (following : Option Nat) :
    (maskMove state ch following).Shows ch following := by
  have htwo : ∀ state, (MaskMove.two 32 32 state).Shows ch following :=
    fun _ => ⟨space_shows ch, fun next _ => space_shows next⟩
  cases state with
  | code =>
    simp only [maskMove]
    split
    next => exact htwo _
    next =>
      split
      next => exact htwo _
      next =>
        split
        next => exact space_shows ch
        next => exact Or.inl rfl
  | lineComment =>
    simp only [maskMove]
    split
    next => exact Or.inl rfl
    next => exact space_shows ch
  | blockComment =>
    simp only [maskMove]
    split
    next => exact htwo _
    next => exact blank_shows ch
  | string quote =>
    simp only [maskMove]
    split
    next =>
      split
      next => exact space_shows ch
      next next =>
        refine ⟨space_shows ch, ?_⟩
        intro other hother
        cases hother
        exact blank_shows next
    next =>
      split
      next => exact space_shows ch
      next => exact blank_shows ch

theorem maskLoop_shows (state : MaskState) (content : Text) : List.Forall₂ Shows content (maskLoop state content) := by
  fun_induction maskLoop state content with
  | case1 => exact .nil
  | case2 state ch shown next hmove =>
    have h := maskMove_shows state ch none
    rw [hmove] at h
    exact .cons h .nil
  | case3 state ch first second next hmove =>
    have h := maskMove_shows state ch none
    rw [hmove] at h
    exact .cons h.1 .nil
  | case4 state ch next rest shown state' hmove ih =>
    have h := maskMove_shows state ch (some next)
    rw [hmove] at h
    exact .cons h ih
  | case5 state ch next rest first second state' hmove ih =>
    have h := maskMove_shows state ch (some next)
    rw [hmove] at h
    exact .cons h.1 (.cons (h.2 next rfl) ih)

theorem eq_of_shows {run shown : Text} (h : List.Forall₂ Shows run shown) (hspace : 32 ∉ shown) : shown = run := by
  induction h with
  | nil => rfl
  | cons hhead _ ih =>
    rw [List.mem_cons, not_or] at hspace
    rcases hhead with rfl | rfl
    · rw [ih hspace.2]
    · exact absurd rfl hspace.1

theorem infix_of_mask {content run : Text} (h : run <:+: maskCommentsAndStrings content) (hspace : 32 ∉ run) :
    run <:+: content := by
  obtain ⟨before, after, hcut⟩ := h
  have hshows := maskLoop_shows .code content
  rw [show maskLoop .code content = before ++ run ++ after from hcut.symm] at hshows
  have hmiddle := List.forall₂_drop_append _ _ _ (List.forall₂_take_append _ _ _ hshows)
  rw [eq_of_shows hmiddle hspace]
  exact (List.drop_suffix _ _).isInfix.trans ( List.take_prefix _ _).isInfix

/-- The patterns of a language for an adapter on masked lines. -/
structure RegexInventory where
  language : String
  extensions : List String
  definitions : List Text
  calls : List Text
  imports : List Text
  references : List Text

def inventoryLine (engine : Engine) (patterns : List Text) (value line : Text) : Bool :=
  patterns.any fun pattern => (engine.groupOne pattern line).any fun group => group = value

def RegexInventory.linesForPredicate (inventory : RegexInventory) (engine : Engine) (lines : List Text)
    (pred : Predicate) : Except MatchError (List Nat) :=
  match pred.kind with
  | .exactText => .ok (hitLines (contains pred.value) lines)
  | .regex => boundedMatchingLines engine pred.value (fun _ => true) lines
  | .identifier => .ok (hitLines (engine.search (bounded pred.value)) lines)
  | .tokenSequence =>
    if words pred.value = [] then .ok []
    else .ok (hitLines (engine.search (sequencePattern pred.value)) lines)
  | .symbolDefinition => .ok (hitLines (inventoryLine engine inventory.definitions pred.value) lines)
  | .symbolReference =>
    .ok (hitLines (fun line => inventoryLine engine inventory.references pred.value line &&
      !inventoryLine engine inventory.definitions pred.value line) lines)
  | .signature =>
    boundedMatchingLines engine pred.value
      (fun line => inventory.definitions.any fun pattern => engine.search pattern line) lines
  | .call => .ok (hitLines (inventoryLine engine inventory.calls pred.value) lines)
  | .importName =>
    .ok (hitLines (fun line => contains pred.value line &&
      inventory.imports.any fun pattern => engine.search pattern line) lines)
  | .path => .ok []

/-- The search of an adapter on masked lines. -/
def RegexInventory.findMatches (inventory : RegexInventory) (engine : Engine) (content : Text)
    (predicates : List Predicate) (wholeFile : Bool) : Except MatchError (List SpanMatch) :=
  let lines := contentLines (maskCommentsAndStrings content) content
  findSpans (inventory.linesForPredicate engine lines) lines.length predicates wholeFile

def identifierPattern : Text := chars "(?<![\\w$])([A-Za-z_$][\\w$]*)(?![\\w$])"

def callPattern : Text := chars "(?<![\\w$])([A-Za-z_$][\\w$]*)(?![\\w$])\\s*\\("

def javaInventory : RegexInventory where
  language := "java"
  extensions := [".java"]
  definitions :=
    [chars "^\\s*(?:(?:public|protected|private|abstract|final|static|sea" ++
        chars "led|non-sealed)\\s+)*(?:class|interface|enum|record)\\s+([A-Za" ++
        chars "-z_$][\\w$]*)\\b",
    chars "^\\s*(?:(?:public|protected|private|abstract|final|static|syn" ++
        chars "chronized|native|default)\\s+)*(?:<[^>]+>\\s+)?[A-Za-z_$][\\w$<" ++
        chars ">,.?\\[\\]]*\\s+([A-Za-z_$][\\w$]*)\\s*\\([^;]*\\)\\s*(?:throws\\b[^" ++
        chars "\\\x7b]+)?\\\x7b"]
  calls := [callPattern]
  imports := [chars "^\\s*import\\s+(?:static\\s+)?"]
  references := [identifierPattern]

end Leitir.Search
