import Leitir.SreTree
import Mathlib.Data.List.Infix

namespace Leitir.Search

open Sre

abbrev Text := List Nat

abbrev Bytes := List Nat

def chars (text : String) : Text := text.toList.map Char.toNat

def isSpace (ch : Nat) : Bool :=
  9 ≤ ch && ch ≤ 13 || 28 ≤ ch && ch ≤ 32 || ch = 0x85 || ch = 0xA0 || ch = 0x1680 ||
    0x2000 ≤ ch && ch ≤ 0x200A || ch = 0x2028 || ch = 0x2029 || ch = 0x202F || ch = 0x205F || ch = 0x3000

def strip (text : Text) : Text := ((text.dropWhile isSpace).reverse.dropWhile isSpace).reverse

def words (text : Text) : List Text := (text.splitOnP isSpace).filter fun word => word ≠ []

def specialChars : Text := chars "()[]\x7b\x7d?*+-|^$\\.&~# \t\n\r" ++ [11, 12]

def reEscape (text : Text) : Text := text.flatMap fun ch => if ch ∈ specialChars then [92, ch] else [ch]

def contains (value line : Text) : Bool := value <:+: line

def contentLines (shown content : Text) : List Text :=
  let lines := shown.splitOn 10
  if lines.getLast? = some [] ∧ (content = [] ∨ content.getLast? = some 10) then lines.dropLast else lines

inductive PredicateKind
  | exactText | tokenSequence | identifier | symbolDefinition | symbolReference | signature | call
  | importName | path | regex
deriving DecidableEq, Repr

def PredicateKind.value : PredicateKind → String
  | .exactText => "exact_text"
  | .tokenSequence => "token_sequence"
  | .identifier => "identifier"
  | .symbolDefinition => "symbol_definition"
  | .symbolReference => "symbol_reference"
  | .signature => "signature"
  | .call => "call"
  | .importName => "import"
  | .path => "path"
  | .regex => "regex"

structure Predicate where
  kind : PredicateKind
  value : Text
  language : Option Text := none
deriving DecidableEq

def kindsByValue : List PredicateKind :=
  [.call, .exactText, .identifier, .importName, .path, .regex, .signature, .symbolDefinition,
    .symbolReference, .tokenSequence]

def sortKinds (kinds : List PredicateKind) : List PredicateKind := kindsByValue.filter fun kind => kind ∈ kinds

/-- The regular expressions of the host: its parser, its compiler and its matcher. -/
structure Engine where
  parse : Text → Option (List Token × Nat)
  compiles : Text → Bool
  search : Text → Text → Bool
  matchStart : Text → Text → Bool
  groupOne : Text → Text → List Text

inductive MatchError
  | badPattern | budgetExceeded
deriving DecidableEq, Repr

def maxRegexLineLength : Nat := 4096

def hitLines (test : Text → Bool) (lines : List Text) : List Nat :=
  (List.range lines.length).filter fun i => test (lines.getD i [])

/-- Matching with a pattern of the request: long lines are not tried and fail the whole search. -/
def boundedMatchingLines (engine : Engine) (pattern : Text) (extra : Text → Bool) (lines : List Text) :
    Except MatchError (List Nat) :=
  if ¬ engine.compiles pattern then .error .badPattern
  else if lines.any fun line => maxRegexLineLength < line.length then .error .budgetExceeded
  else .ok (hitLines (fun line => extra line && engine.search pattern line) lines)

def bounded (value : Text) : Text := chars "\\b" ++ reEscape value ++ chars "\\b"

def sequencePattern (value : Text) : Text :=
  chars "\\b" ++ (chars "\\s+").intercalate ((words value).map reEscape) ++ chars "\\b"

inductive MatchMethod
  | ast | heuristic
deriving DecidableEq, Repr

structure SpanMatch where
  startLine : Nat
  endLine : Nat
  matchedKinds : List PredicateKind
  method : MatchMethod
deriving DecidableEq

/-- Spans of single lines, from the predicates and the lines that each of them hits. -/
def lineSpans (count : Nat) (wholeFile : Bool) (evidence : List (PredicateKind × List Nat)) : List SpanMatch :=
  let lines := (List.range count).filter fun i =>
    if wholeFile then evidence.any fun (_, hits) => i ∈ hits else evidence.all fun (_, hits) => i ∈ hits
  lines.map fun i =>
    ⟨i + 1, i + 1, sortKinds ((evidence.filter fun (_, hits) => i ∈ hits).map Prod.fst), .heuristic⟩

/-- The search that all adapters on lines share. -/
def findSpans (hitsFor : Predicate → Except MatchError (List Nat)) (count : Nat)
    (predicates : List Predicate) (wholeFile : Bool) : Except MatchError (List SpanMatch) :=
  let must := predicates.filter fun pred => pred.kind ≠ .path
  if must = [] then .ok []
  else do
    let hits ← must.mapM hitsFor
    if hits.any fun lines => lines = [] then pure []
    else pure (lineSpans count wholeFile ((must.map Predicate.kind).zip hits))

/-- What the adapters on plain lines do not share. -/
structure LineAdapter where
  language : String
  definitions : Text → List Text
  signatureMarks : List String
  callPattern : Text → Text
  isImport : Text → Text → Bool

def LineAdapter.definitionLine (adapter : LineAdapter) (engine : Engine) (name line : Text) : Bool :=
  (adapter.definitions (reEscape name)).any fun pattern => engine.matchStart pattern line

def LineAdapter.linesForPredicate (adapter : LineAdapter) (engine : Engine) (lines : List Text)
    (pred : Predicate) : Except MatchError (List Nat) :=
  match pred.kind with
  | .exactText => .ok (hitLines (contains pred.value) lines)
  | .regex => boundedMatchingLines engine pred.value (fun _ => true) lines
  | .identifier => .ok (hitLines (engine.search (bounded pred.value)) lines)
  | .tokenSequence =>
    if words pred.value = [] then .ok []
    else .ok (hitLines (engine.search (sequencePattern pred.value)) lines)
  | .symbolDefinition => .ok (hitLines (adapter.definitionLine engine pred.value) lines)
  | .symbolReference =>
    .ok (hitLines (fun line => engine.search (bounded pred.value) line &&
      !adapter.definitionLine engine pred.value line) lines)
  | .signature =>
    boundedMatchingLines engine pred.value
      (fun line => adapter.signatureMarks.any fun mark => contains (chars mark) line) lines
  | .call => .ok (hitLines (engine.search (adapter.callPattern (reEscape pred.value))) lines)
  | .importName => .ok (hitLines (adapter.isImport pred.value) lines)
  | .path => .ok []

def LineAdapter.findMatches (adapter : LineAdapter) (engine : Engine) (content : Text)
    (predicates : List Predicate) (wholeFile : Bool) : Except MatchError (List SpanMatch) :=
  let lines := contentLines content content
  findSpans (adapter.linesForPredicate engine lines) lines.length predicates wholeFile

def pythonAdapter : LineAdapter where
  language := "python"
  definitions := fun name =>
    [chars "\\s*(?:async\\s+)?(?:def|class)\\s+" ++ name ++ chars "\\b", chars "\\s*" ++ name ++ chars "\\s*[:=]"]
  signatureMarks := ["def ", "class "]
  callPattern := fun name => chars "\\b" ++ name ++ chars "\\s*\\("
  isImport := fun value line =>
    let stripped := strip line
    (chars "import " <+: stripped || chars "from " <+: stripped) && contains value stripped

end Leitir.Search
