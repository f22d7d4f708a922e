import Leitir.LicenseExpression
import Leitir.KeyedList
import Leitir.Json
import Leitir.Sha
import Leitir.Utf8

namespace Leitir.License

abbrev Bytes := List Nat

def canonicalBytes (value : Json.Value) : Bytes := Utf8.encodeText (Json.dumps value ++ ['\n'])

def sha (data : Bytes) : Text := "sha256:".toList ++ Sha256.hexdigest data

def isHex (ch : Char) : Bool := '0' ≤ ch && ch ≤ '9' || 'a' ≤ ch && ch ≤ 'f'

def isDigest (text : Text) : Bool :=
  "sha256:".toList <+: text && (text.drop 7).length = 64 && (text.drop 7).all isHex

theorem isHex_hexDigit : ∀ d < 16, isHex (Sha256.hexDigit d) = true := by decide

theorem isDigest_sha (data : Bytes) : isDigest (sha data) = true := by
  have hlength : (Sha256.hexdigest data).length = 64 := Sha256.length_hexdigest data
  have hhex : (Sha256.hexdigest data).all isHex = true := by
    rw [List.all_eq_true]
    intro c hc
    obtain ⟨d, hd, rfl⟩ := Sha256.mem_hexdigest hc
    exact isHex_hexDigit d hd
  have hdrop : (sha data).drop 7 = Sha256.hexdigest data := rfl
  have hlead : "sha256:".toList <+: sha data := List.prefix_append _ _
  unfold isDigest
  rw [hdrop, hhex, hlength, decide_eq_true hlead]
  rfl

def isPath (path : Text) : Bool :=
  (path.all fun ch => ch ≠ '\\' && ch ≠ '\x00' && ch ≠ '\r' && ch ≠ '\n') &&
    (path.splitOn '/').all fun part => part ≠ [] && part ≠ ['.'] && part ≠ ['.', '.']

def isId (text : Text) : Bool := text.head?.any isAlnum && text.all isPart

def textKey (text : Text) : List Nat := Utf8.encodeText text

/-- A file of the package whose bytes have been locked. -/
structure VerifiedBytes where
  path : Text
  content : Bytes
  sha256 : Text
  packageScope : Text
deriving DecidableEq

structure SourceFields where
  sourceRecordId : Text
  packetPath : Text
  sourcePath : Text
  sourceBytes : Bytes
  sourceBytesSha256 : Text
  packageScope : Text
  verifiedFiles : List VerifiedBytes
  contributingSourceRecordIds : List Text
  modifiedFromSha256 : Option Text
deriving DecidableEq

def VerifiedBytes.Checked (file : VerifiedBytes) : Prop :=
  isPath file.path ∧ (file.packageScope = ['.'] ∨ isPath file.packageScope) ∧ file.sha256 = sha file.content

instance (file : VerifiedBytes) : Decidable file.Checked := inferInstanceAs (Decidable (_ ∧ _))

/-- What the constructor of a bundled source has checked and put in order. -/
def SourceFields.Checked (source : SourceFields) : Prop :=
  isId source.sourceRecordId ∧ isPath source.packetPath ∧ isPath source.sourcePath ∧
    (source.packageScope = ['.'] ∨ isPath source.packageScope) ∧ source.sourceBytesSha256 = sha source.sourceBytes ∧
    (∀ file ∈ source.verifiedFiles, file.Checked) ∧
    (source.verifiedFiles.map fun file => textKey file.path).Pairwise (· < ·) ∧
    (∃ file ∈ source.verifiedFiles, file.path = source.sourcePath ∧ file.packageScope = source.packageScope ∧
      file.content = source.sourceBytes) ∧
    (source.contributingSourceRecordIds ≠ [] ∧ (source.contributingSourceRecordIds.map textKey).Pairwise (· < ·) ∧
      ∀ id ∈ source.contributingSourceRecordIds, isId id) ∧
    ∀ digest ∈ source.modifiedFromSha256, isDigest digest

instance (source : SourceFields) : Decidable source.Checked := inferInstanceAs (Decidable (_ ∧ _))

/-- A source of the packet with the verified view of its package. -/
structure BundledSource extends SourceFields where
  checked : toSourceFields.Checked

instance : DecidableEq BundledSource := fun a b =>
  decidable_of_iff (a.toSourceFields = b.toSourceFields) ⟨fun h => by cases a; cases b; cases h; rfl, fun h => h ▸ rfl⟩

inductive Failure
  | typeError (message : Text)
  | valueError (message : Text)
  | indexError
  | keyError (key : Text)
  | assertionError
  | stopIteration
deriving DecidableEq

def isBlankOctet (octet : Nat) : Bool := octet = 0x20 || octet = 0x09

def isCommentOctet (octet : Nat) : Bool := octet ∈ [0x23, 0x2a, 0x2f, 0x3b, 0x3c, 0x21, 0x2d]

def isValueOctet (octet : Nat) : Bool := octet ∉ [0x0d, 0x0a, 0x2a, 0x3c, 0x3e]

def lowerOctet (octet : Nat) : Nat := if 0x41 ≤ octet ∧ octet ≤ 0x5a then octet + 0x20 else octet

structure FieldMatch where
  value : Bytes
  whole : Bytes
deriving DecidableEq

/-- The field of a marker at the start of a line. A value of blanks alone is its last blank. -/
def fieldMatch (marker line : Bytes) : Option FieldMatch :=
  let indent := line.takeWhile isBlankOctet
  let opened := (line.drop indent.length).takeWhile isCommentOctet
  let blanks := if opened = [] then [] else (line.drop (indent.length + opened.length)).takeWhile isBlankOctet
  let lead := indent ++ opened ++ blanks
  let found := (line.drop lead.length).take (marker.length + 1)
  if found.map lowerOctet = (marker ++ [0x3a]).map lowerOctet then
    let rest := line.drop (lead.length + found.length)
    let spaces := rest.takeWhile isBlankOctet
    let value := (rest.drop spaces.length).takeWhile isValueOctet
    if value ≠ [] then some ⟨value, lead ++ found ++ spaces ++ value⟩
    else spaces.getLast?.map fun last => ⟨[last], lead ++ found ++ spaces⟩
  else none

def fieldMatches (marker content : Bytes) : List (Nat × FieldMatch) :=
  ((content.splitOn 0x0a).zipIdx).filterMap fun (line, index) => (fieldMatch marker line).map fun found => (index + 1, found)

def ascii (text : String) : Bytes := text.toList.map Char.toNat

def decodeAscii (data : Bytes) : Option Text := if data.all (· < 128) then some (data.map Char.ofNat) else none

def isLineEnd (ch : Char) : Bool :=
  ch.toNat ∈ [0x0a, 0x0b, 0x0c, 0x1c, 0x1d, 0x1e, 0x85, 0x2028, 0x2029]

def splitlinesFrom (line : Text) : Text → List Text
  | [] => if line = [] then [] else [line.reverse]
  | '\r' :: '\n' :: rest => line.reverse :: splitlinesFrom [] rest
  | ch :: rest =>
    if ch = '\r' ∨ isLineEnd ch then line.reverse :: splitlinesFrom [] rest else splitlinesFrom (ch :: line) rest

def splitlines (text : Text) : List Text := splitlinesFrom [] text

def words (text : Text) : List Text := (text.splitOnP isSpace).filter fun word => word ≠ []

def inSet (ch : Char) : Text → Bool
  | low :: '-' :: high :: rest => decide (low ≤ ch ∧ ch ≤ high) || inSet ch rest
  | item :: rest => ch = item || inSet ch rest
  | [] => false

/-- The text of a set up to its closing bracket, and what follows. A bracket at its start belongs to it. -/
def setText (text : Text) : Option (Text × Text) :=
  let negation := if text.head? = some '!' then 1 else 0
  let first := if (text.drop negation).head? = some ']' then negation + 1 else negation
  match (text.drop first).dropWhile (fun ch => ch ≠ ']') with
  | [] => none
  | _ :: rest => some (text.take first ++ (text.drop first).takeWhile (fun ch => ch ≠ ']'), rest)

def setMatches (ch : Char) : Text → Bool
  | '!' :: items => !inSet ch items
  | items => inSet ch items

def globMatches : Nat → Text → Text → Bool
  | 0, _, name => name = []
  | _ + 1, [], name => name = []
  | fuel + 1, '*' :: pattern, name =>
    (List.range (name.length + 1)).any fun count => globMatches fuel pattern (name.drop count)
  | fuel + 1, '?' :: pattern, name =>
    match name with
    | _ :: name => globMatches fuel pattern name
    | [] => false
  | fuel + 1, '[' :: pattern, name =>
    match setText pattern, name with
    | some (items, pattern), ch :: name => setMatches ch items && globMatches fuel pattern name
    | none, ch :: name => ch = '[' && globMatches fuel pattern name
    | _, [] => false
  | fuel + 1, ch :: pattern, name =>
    match name with
    | other :: name => ch = other && globMatches fuel pattern name
    | [] => false

def fnmatchcase (name pattern : Text) : Bool := globMatches pattern.length pattern name

end Leitir.License
