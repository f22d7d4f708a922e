import Leitir.LicenseResolution

namespace Leitir.Lock

open Json (Text Value)
open License (Toml isSpace splitlines)

structure DependencyEdge where
  name : Text
  version : Text
  resolvedSha : Option Text
  spec : Text
deriving DecidableEq

inductive DiagnosticKind
  | absent | malformed | skipped | unsupported
deriving DecidableEq

def DiagnosticKind.value : DiagnosticKind → Text
  | .absent => "absent".toList
  | .malformed => "malformed".toList
  | .skipped => "skipped".toList
  | .unsupported => "unsupported".toList

def isDigit (ch : Char) : Bool := '0' ≤ ch && ch ≤ '9'

def isHex (ch : Char) : Bool := isDigit ch || 'a' ≤ ch && ch ≤ 'f' || 'A' ≤ ch && ch ≤ 'F'

def isAlnum (ch : Char) : Bool := isDigit ch || 'a' ≤ ch && ch ≤ 'z' || 'A' ≤ ch && ch ≤ 'Z'

def lower (ch : Char) : Char := if 'A' ≤ ch ∧ ch ≤ 'Z' then Char.ofNat (ch.toNat + 32) else ch

def commitAt (text : Text) : Option Text :=
  if (text.take 40).length = 40 ∧ (text.take 40).all isHex ∧ ¬ (text.drop 40).head?.any isHex then
    some ((text.take 40).map lower)
  else none

def commitMarked : Text → Option Text
  | [] => none
  | ch :: rest => if ch = '#' ∨ ch = '@' then (commitAt rest).or (commitMarked rest) else commitMarked rest

def commitSearch (text : Text) : Option Text := (commitAt text).or (commitMarked text)

/-- What a package is identified by, from those of its fields that are texts. -/
def identity (field : String → Option Text) : Option Text :=
  match ["gitHead", "checksum", "integrity"].findSome? fun name => (field name).filter fun text => text.any (!isSpace ·) with
  | some text => some text
  | none => ((field "resolved").bind commitSearch).or ((field "source").bind commitSearch)

def isWord (text : Text) : Bool := text ≠ [] && !text.any isSpace

def specOf (ecosystem name version : Text) : Text := ecosystem ++ ':' :: (name ++ '@' :: version)

def edge (ecosystem : Text) (name version found : Option Text) : Option DependencyEdge :=
  match name, version with
  | some name, some version =>
    if isWord name && isWord version then some ⟨name, version, found, specOf ecosystem name version⟩ else none
  | _, _ => none

def code (text : Text) : List Nat := text.map Char.toNat

def DependencyEdge.key (edge : DependencyEdge) : KeyedList.Key := [code edge.name, code edge.version, code edge.spec]

def DependencyEdge.identified (edge : DependencyEdge) : List Nat := code (edge.resolvedSha.getD [])

/-- Of the edges with one key the one with the greatest identity is kept. -/
def enter : List DependencyEdge → DependencyEdge → List DependencyEdge
  | [], edge => [edge]
  | existing :: rest, edge =>
    if edge.key = existing.key then (if existing.identified < edge.identified then edge else existing) :: rest
    else existing :: enter rest edge

def ordered (edges : List DependencyEdge) : List DependencyEdge :=
  KeyedList.sortBy DependencyEdge.key (edges.foldl enter [])

/-- What has been read of a source so far. -/
structure Scan where
  edges : List DependencyEdge
  diagnostics : List (Text × DiagnosticKind)
  attempted : Nat
  parsed : Nat
deriving DecidableEq

def Scan.start : Scan := ⟨[], [], 0, 0⟩

def Scan.attempt (scan : Scan) : Scan := { scan with attempted := scan.attempted + 1 }

def Scan.diagnose (scan : Scan) (record : Text) (kind : DiagnosticKind) : Scan :=
  { scan with diagnostics := scan.diagnostics ++ [(record, kind)] }

def Scan.add (scan : Scan) (edge : DependencyEdge) : Scan :=
  { scan with edges := scan.edges ++ [edge], parsed := scan.parsed + 1 }

/-- A record that is an edge, or a diagnostic in its place. -/
def Scan.record (scan : Scan) (record : Text) (kind : DiagnosticKind) : Option DependencyEdge → Scan
  | some edge => scan.add edge
  | none => scan.diagnose record kind

def npm : Text := "npm".toList

def textField (fields : List (String × Value)) (name : String) : Option Text :=
  match fields.lookup name with
  | some (.str text) => some text
  | _ => none

def npmEdge (name : Option Text) (package : List (String × Value)) : Option DependencyEdge :=
  edge npm name (textField package "version") (identity (textField package))

def afterLast (marker : Text) : Text → Option Text
  | [] => none
  | ch :: rest => (afterLast marker rest).or (if marker <+: ch :: rest then some ((ch :: rest).drop marker.length) else none)

def npmNameFromPath (path : Text) : Option Text :=
  (afterLast "node_modules/".toList path).bind fun remainder =>
    if remainder.head? = some '@' then
      match remainder.splitOn '/' with
      | scope :: name :: _ => some (scope ++ '/' :: name)
      | _ => none
    else some (remainder.takeWhile (· ≠ '/'))

mutual

def npmDependencyTree (lead : Text) : Value → Scan → Scan
  | .obj fields, scan => npmDependencies lead fields scan
  | .null, scan => scan
  | .bool _, scan => (scan.attempt).diagnose lead .malformed
  | .int _, scan => (scan.attempt).diagnose lead .malformed
  | .float _, scan => (scan.attempt).diagnose lead .malformed
  | .str _, scan => (scan.attempt).diagnose lead .malformed
  | .arr _, scan => (scan.attempt).diagnose lead .malformed

def npmDependencies (lead : Text) : List (String × Value) → Scan → Scan
  | [], scan => scan
  | field :: rest, scan => npmDependencies lead rest (npmDependency lead field scan)

def npmDependency (lead : Text) : String × Value → Scan → Scan
  | (name, value), scan => npmRecord (lead ++ '.' :: name.toList) name.toList value (scan.attempt)

def npmRecord (record name : Text) : Value → Scan → Scan
  | .obj package, scan =>
    npmNested (record ++ ".dependencies".toList) package (scan.record record .malformed (npmEdge (some name) package))
  | .null, scan => scan.diagnose record .malformed
  | .bool _, scan => scan.diagnose record .malformed
  | .int _, scan => scan.diagnose record .malformed
  | .float _, scan => scan.diagnose record .malformed
  | .str _, scan => scan.diagnose record .malformed
  | .arr _, scan => scan.diagnose record .malformed

def npmNested (lead : Text) : List (String × Value) → Scan → Scan
  | [], scan => scan
  | field :: rest, scan => if field.1 = "dependencies" then npmField lead field scan else npmNested lead rest scan

def npmField (lead : Text) : String × Value → Scan → Scan
  | (_, value), scan => npmDependencyTree lead value scan

end

def npmPackage (scan : Scan) (entry : String × Value) : Scan :=
  if entry.1 = "" then scan
  else
    let record := "packages.".toList ++ entry.1.toList
    match entry.2 with
    | .obj package =>
      let name := npmNameFromPath entry.1.toList
      scan.attempt.record record (if name = none then .unsupported else .malformed) (npmEdge name package)
    | _ => scan.attempt.diagnose record .malformed

def npmPackages (scan : Scan) : Option Value → Scan
  | some (.obj packages) => packages.foldl npmPackage scan
  | none | some .null => scan
  | some _ => scan.attempt.diagnose "packages".toList .malformed

def fractionDigits (text : Text) : Text := if text.head? = some '.' then (text.drop 1).takeWhile Json.isDigit else []

def exponentOf (text : Text) : Int :=
  let power : Int := Nat.ofDigitChars 10 (text.filter Json.isDigit) 0
  if '-' ∈ text then -power else power

/-- The numerator and the denominator of the number that a literal stands for; of a negative number and of the
constants without digits they are zero and one. -/
def literalRatio (literal : Text) : Nat × Nat :=
  let whole := literal.takeWhile Json.isDigit
  let fraction := fractionDigits (literal.drop whole.length)
  let exponent := exponentOf (literal.dropWhile fun ch => Json.isDigit ch || ch = '.') - fraction.length
  if whole = [] then (0, 1)
  else (Nat.ofDigitChars 10 (whole ++ fraction) 0 * 10 ^ exponent.toNat, 10 ^ (-exponent).toNat)

/-- Two or three. A float is one of them where its literal rounds to it. -/
def isLockfileVersion : Option Value → Bool
  | some (.int version) => version = 2 || version = 3
  | some (.float literal) =>
    let (top, bottom) := literalRatio literal
    (2 ^ 54 - 1) * bottom ≤ 2 ^ 53 * top && 2 ^ 52 * top ≤ (2 ^ 53 + 1) * bottom ||
      (3 * 2 ^ 52 - 1) * bottom ≤ 2 ^ 52 * top && 2 ^ 52 * top ≤ (3 * 2 ^ 52 + 1) * bottom
  | _ => false

def npmClosureFromPayload : Value → Option Scan
  | .obj fields =>
    if isLockfileVersion (fields.lookup "lockfileVersion") then
      some (npmDependencyTree "dependencies".toList ((fields.lookup "dependencies").getD .null)
        (npmPackages .start (fields.lookup "packages")))
    else none
  | _ => none

def crates : Text := "crates".toList

def tomlField (fields : List (Text × Toml)) (name : String) : Option Text := (License.lookup fields name).bind Toml.text?

def indexed (label : String) (index : Nat) : Text := label.toList ++ '[' :: (Nat.toDigits 10 index ++ [']'])

/-- A package without a source is a member of the workspace: it is read, but it is no dependency. -/
def cargoPackage (scan : Scan) (entry : Toml × Nat) : Scan :=
  let record := indexed "package" entry.2
  match entry.1 with
  | .table package =>
    if (License.lookup package "source").isNone then
      match edge crates (tomlField package "name") (tomlField package "version") none with
      | none => scan.attempt.diagnose record .malformed
      | some _ => { scan.attempt with parsed := scan.parsed + 1 }
    else
      scan.attempt.record record .malformed
        (edge crates (tomlField package "name") (tomlField package "version") (identity (tomlField package)))
  | _ => scan.attempt.diagnose record .malformed

def cargoClosureFromPayload (payload : List (Text × Toml)) : Option Scan :=
  match License.lookup payload "package" with
  | some (.arr packages) => some (packages.zipIdx.foldl cargoPackage .start)
  | _ => none

def simpleEscape (ch : Char) : Option Char :=
  [('a', '\x07'), ('b', '\x08'), ('f', '\x0c'), ('n', '\n'), ('r', '\r'), ('t', '\t'), ('v', '\x0b'), ('\\', '\\'),
    ('"', '"')].lookup ch

def isOctal (ch : Char) : Bool := '0' ≤ ch && ch ≤ '7'

def digitValue (ch : Char) : Nat :=
  if isDigit ch then ch.toNat - 48 else if 'a' ≤ ch ∧ ch ≤ 'f' then ch.toNat - 87 else ch.toNat - 55

def intOf (radix : Nat) (digits : Text) : Nat := digits.foldl (fun value ch => value * radix + digitValue ch) 0

def numbered (radix : Nat) (digits : Text) : Option Char :=
  let point := intOf radix digits
  if radix = 8 ∧ 255 < point ∨ 0x10FFFF < point ∨ 0xD800 ≤ point ∧ point ≤ 0xDFFF then none else some (Char.ofNat point)

/-- The character behind a backslash, and what follows it. -/
def goEscape : Text → Option (Char × Text)
  | [] => none
  | ch :: rest =>
    match simpleEscape ch with
    | some found => some (found, rest)
    | none =>
      match [('x', 2), ('u', 4), ('U', 8)].lookup ch with
      | some width =>
        if (rest.take width).length = width ∧ (rest.take width).all isHex then
          (numbered 16 (rest.take width)).map fun found => (found, rest.drop width)
        else none
      | none =>
        if isOctal ch then
          if (rest.take 2).length = 2 ∧ (rest.take 2).all isOctal then
            (numbered 8 (ch :: rest.take 2)).map fun found => (found, rest.drop 2)
          else none
        else none

/-- A quoted text up to its closing quote, and what follows it. -/
def goQuoted : Nat → Text → Option (Text × Text)
  | 0, _ => none
  | _ + 1, [] => none
  | fuel + 1, ch :: rest =>
    if ch = '"' then some ([], rest)
    else if ch = '\\' then do
      let (found, rest) ← goEscape rest
      let (value, rest) ← goQuoted fuel rest
      some (found :: value, rest)
    else do
      let (value, rest) ← goQuoted fuel rest
      some (ch :: value, rest)

/-- A token without quotes, and what follows it. -/
def goBare : Text → Option (Text × Text)
  | [] => some ([], [])
  | ch :: rest =>
    if isSpace ch ∨ ch = '(' ∨ ch = ')' ∨ ch = '/' ∧ rest.head? = some '/' then some ([], ch :: rest)
    else if ch = '"' ∨ ch = '\'' ∨ ch.toNat = 0x60 ∨ ch = '/' ∧ rest.head? = some '*' then none
    else (goBare rest).map fun found => (ch :: found.1, found.2)

def goTokensFrom : Nat → Text → Option (List Text)
  | 0, _ => some []
  | _ + 1, [] => some []
  | fuel + 1, ch :: rest =>
    if isSpace ch then goTokensFrom fuel rest
    else if ch = '/' ∧ rest.head? = some '/' then some []
    else if ch = '(' ∨ ch = ')' then (goTokensFrom fuel rest).map ([ch] :: ·)
    else do
      let (token, rest) ← if ch = '"' then goQuoted (rest.length + 1) rest else goBare (ch :: rest)
      let tokens ← goTokensFrom fuel rest
      some (token :: tokens)

def goModTokens (line : Text) : Option (List Text) := goTokensFrom (line.length + 1) line

def go : Text := "go".toList

def isTagChar (ch : Char) : Bool := isAlnum ch || ch = '.' || ch = '-'

def digitsThen (text : Text) : Option Text := if text.head?.any isDigit then some (text.dropWhile isDigit) else none

def dotThen : Text → Option Text
  | '.' :: rest => some rest
  | _ => none

/-- What follows a leading number of three parts. -/
def goCore : Text → Option Text
  | 'v' :: rest => do
    let rest ← digitsThen rest >>= dotThen >>= digitsThen >>= dotThen
    digitsThen rest
  | _ => none

def optionalTag (sign : Char) (text : Text) : Option Text :=
  if text.head? = some sign then
    if (text.drop 1).head?.any isTagChar then some ((text.drop 1).dropWhile isTagChar) else none
  else some text

def isGoVersion (text : Text) : Bool := (goCore text >>= optionalTag '-' >>= optionalTag '+') = some []

def incompatible : Text := "+incompatible".toList

/-- The revision at the end of a version that stands for a commit. -/
def goPseudoRevision (text : Text) : Option Text :=
  let body := if incompatible <:+ text then text.take (text.length - incompatible.length) else text
  let revision := body.drop (body.length - 12)
  let time := (body.take (body.length - 13)).drop (body.length - 27)
  let sign := (body.take (body.length - 27)).getLast?
  if 28 ≤ body.length ∧ (revision.all fun ch => isDigit ch || 'a' ≤ ch && ch ≤ 'f') ∧ body[body.length - 13]? = some '-' ∧
      time.all isDigit ∧ (sign = some '-' ∨ sign = some '.') ∧ (goCore (body.take (body.length - 28))).isSome then some revision
  else none

structure GoScan where
  scan : Scan
  inRequire : Bool
deriving DecidableEq

def lineRecord (number : Nat) : Text := "line:".toList ++ Nat.toDigits 10 number

def goCandidate (state : GoScan) (number : Nat) (candidate : List Text) : GoScan :=
  match candidate with
  | [name, version] =>
    if isGoVersion version then
      let found := edge go (some name) (some version) (goPseudoRevision version)
      { state with scan := state.scan.record (lineRecord number) .malformed found }
    else { state with scan := state.scan.diagnose (lineRecord number) .malformed }
  | _ => { state with scan := state.scan.diagnose (lineRecord number) .malformed }

def goLine (state : GoScan) (entry : Text × Nat) : GoScan :=
  match goModTokens entry.1 with
  | none => { state with scan := state.scan.diagnose (lineRecord entry.2) .malformed }
  | some [] => state
  | some (first :: rest) =>
    if first :: rest = ["require".toList, "(".toList] then { state with inRequire := true }
    else if state.inRequire ∧ first :: rest = [")".toList] then { state with inRequire := false }
    else if first = "require".toList then goCandidate state entry.2 rest
    else if state.inRequire then goCandidate state entry.2 (first :: rest)
    else state

def goRequirements (text : Text) : Scan :=
  let state := ((splitlines text).zipIdx 1).foldl goLine ⟨.start, false⟩
  if state.inRequire then state.scan.diagnose "require-block".toList .malformed else state.scan

def pypi : Text := "pypi".toList

def isNameChar (ch : Char) : Bool := isAlnum ch || ch = '.' || ch = '_' || ch = '-'

def isVersionChar (ch : Char) : Bool := isAlnum ch || ch ∈ ['.', '!', '+', '_', '-']

/-- Runs of signs become one hyphen. -/
def normalizePythonName : Text → Text
  | [] => []
  | ch :: rest =>
    if ch = '-' ∨ ch = '_' ∨ ch = '.' then
      match normalizePythonName rest with
      | '-' :: others => '-' :: others
      | others => '-' :: others
    else lower ch :: normalizePythonName rest

/-- What follows the extras of a requirement, where it has any. -/
def skipExtras (text : Text) : Option Text :=
  if text.head? = some '[' then
    match (text.drop 1).splitOn ']' with
    | [] | [_] | [] :: _ => none
    | inside :: _ => some (text.drop (inside.length + 2))
  else some text

def pinEnd (text : Text) : Bool :=
  let before := text.takeWhile (· ≠ '#')
  let marked := (before.dropWhile isSpace).head? = some ';'
  if '#' ∈ text then before.getLast?.any isSpace && (marked || before.all isSpace) else marked || before.all isSpace

/-- The name and the version of a pinned requirement on one line. -/
def pythonPin (line : Text) : Option (Text × Text) :=
  let text := line.dropWhile isSpace
  let name := text.takeWhile isNameChar
  if name.head?.any isAlnum then
    (skipExtras (text.drop name.length)).bind fun rest =>
      match rest.dropWhile isSpace with
      | '=' :: '=' :: rest =>
        let rest := rest.dropWhile isSpace
        let version := rest.takeWhile fun ch => !(isSpace ch || ch = ';' || ch = '#')
        if version ≠ [] ∧ pinEnd (rest.drop version.length) then some (name, version) else none
      | _ => none
  else none

def isPythonVersion (text : Text) : Bool := text.head?.any isAlnum && text.all isVersionChar

def pythonLine (scan : Scan) (entry : Text × Nat) : Scan :=
  let stripped := entry.1.dropWhile isSpace
  if stripped = [] ∨ stripped.head? = some '#' then scan
  else
    match pythonPin entry.1 with
    | none => scan.diagnose (lineRecord entry.2) .unsupported
    | some (name, version) =>
      if isPythonVersion version then
        scan.record (lineRecord entry.2) .malformed (edge pypi (some (normalizePythonName name)) (some version) none)
      else scan.diagnose (lineRecord entry.2) .unsupported

def pythonEdges (text : Text) : Scan := ((splitlines text).zipIdx 1).foldl pythonLine .start

def pyprojectDependency (scan : Scan) (entry : Toml × Nat) : Scan :=
  let record := indexed "project.dependencies" entry.2
  match entry.1 with
  | .str dependency =>
    let found := pythonEdges dependency
    { scan with
      edges := scan.edges ++ found.edges
      diagnostics := scan.diagnostics ++ found.diagnostics.map fun item => (record, item.2) }
  | _ => scan.diagnose record .malformed

/-- The dependencies of a project; `none` where a table or the list has another type. -/
def manifestPythonPyproject (payload : List (Text × Toml)) : Option Scan :=
  match License.lookup payload "project" with
  | none => some .start
  | some (.table project) =>
    match License.lookup project "dependencies" with
    | none => some .start
    | some (.arr dependencies) => some (dependencies.zipIdx.foldl pyprojectDependency .start)
    | some _ => none
  | some _ => none

end Leitir.Lock
