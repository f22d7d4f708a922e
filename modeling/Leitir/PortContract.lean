import Leitir.BtsGraph
import Leitir.ExceptRun
import Leitir.GoLexical
import Leitir.LicenseEvidence

namespace Leitir.Port

open Json (Text)
open License (sha isDigest)

section

inductive PortableValueKind
  | bool | int | float | string | list
deriving DecidableEq

abbrev Int64 := { n : Int // -(2 ^ 63) ≤ n ∧ n ≤ 2 ^ 63 - 1 }

variable (F : Type)

/-- A value that is no list, over a type of finite floats. -/
inductive PortableScalar
  | bool (value : Bool)
  | int (value : Int64)
  | float (value : F)
  | string (value : Text)
deriving DecidableEq

variable {F} in
def PortableScalar.kind : PortableScalar F → PortableValueKind
  | .bool _ => .bool
  | .int _ => .int
  | .float _ => .float
  | .string _ => .string

structure PortableList where
  elementKind : PortableValueKind
  items : List (PortableScalar F)
  flat : elementKind ≠ .list
  same : ∀ item ∈ items, item.kind = elementKind
deriving DecidableEq

inductive PortableValue
  | scalar (value : PortableScalar F)
  | list (value : PortableList F)
deriving DecidableEq

variable {F} in
def PortableValue.kind : PortableValue F → PortableValueKind
  | .scalar value => value.kind
  | .list _ => .list

variable {F} in
/-- The kind of the elements, which only a list has. -/
def PortableValue.elementKind : PortableValue F → Option PortableValueKind
  | .scalar _ => none
  | .list value => some value.elementKind

end

section

variable (F : Type)

def isLowerAlnum (ch : Char) : Bool := 'a' ≤ ch && ch ≤ 'z' || '0' ≤ ch && ch ≤ '9'

def isCaseName (name : Text) : Bool :=
  (name.head?.any fun ch => 'a' ≤ ch && ch ≤ 'z') && name.length ≤ 64 && name.all fun ch => isLowerAlnum ch || ch = '_'

def isSlug (slug : Text) : Bool :=
  slug.head?.any isLowerAlnum && slug.length ≤ 128 &&
    (slug.all fun ch => isLowerAlnum ch || ch = '.' || ch = '_' || ch = '/' || ch = '-') &&
    (slug.splitOn '/').all fun part => part ≠ [] && part ≠ ['.'] && part ≠ ['.', '.']

def isHex40 (text : Text) : Bool := text.length = 40 && text.all License.isHex

def isGoIdentifier (name : Text) : Bool :=
  (name.head?.any fun ch => 'A' ≤ ch && ch ≤ 'Z') && name.length ≤ 64 &&
    name.all fun ch => isLowerAlnum ch || 'A' ≤ ch && ch ≤ 'Z' || ch = '_'

structure DonorIdentity where
  slug : Text
  commitSha : Text
  slugged : isSlug slug = true
  pinned : isHex40 commitSha = true
deriving DecidableEq

/-- A behaviour is a value that is returned, or an exception by the name of its type. -/
inductive Outcome
  | returns (expected : PortableValue F)
  | raises (donorExceptionType : Text)
deriving DecidableEq

structure PortableCase where
  name : Text
  args : List (PortableValue F)
  outcome : Outcome F
  named : isCaseName name = true
deriving DecidableEq

variable {F} in
def PortableCase.key (item : PortableCase F) : KeyedList.Key := [item.name.map Char.toNat]

/-- A contract for one function. Its cases stand in the order of their names, which are distinct, and fit its kinds. -/
structure PortableContractSuite where
  donor : DonorIdentity
  btsDigest : Text
  functionQualifiedName : Text
  targetFunctionName : Text
  parameterKinds : List PortableValueKind
  returnKind : Option PortableValueKind
  cases : List (PortableCase F)
  suiteDigest : Text
  bts : isDigest btsDigest = true
  qualified : functionQualifiedName ≠ []
  exported : isGoIdentifier targetFunctionName = true
  nonempty : cases ≠ []
  distinct : (cases.map PortableCase.name).Nodup
  sorted : KeyedList.sortBy PortableCase.key cases = cases
  fits : ∀ item ∈ cases, item.args.map PortableValue.kind = parameterKinds ∧
    ∀ expected, item.outcome = .returns expected → returnKind = some expected.kind
  digested : ∃ data, suiteDigest = sha data

end

section

variable {F : Type} (reprFloat : F → Text)

def goType : PortableValueKind → Option PortableValueKind → Text
  | .bool, _ => "bool".toList
  | .int, _ => "int64".toList
  | .float, _ => "float64".toList
  | .string, _ => "string".toList
  | .list, some .bool => "[]bool".toList
  | .list, some .int => "[]int64".toList
  | .list, some .float => "[]float64".toList
  | .list, some .string => "[]string".toList
  | .list, _ => []

def goControl (ch : Char) : Text :=
  ['\\', 'u', '0', '0', Json.hexDigit (ch.toNat / 16), Json.hexDigit (ch.toNat % 16)]

def goEscaped (ch : Char) : Text :=
  if ch = '\\' then ['\\', '\\']
  else if ch = '"' then ['\\', '"']
  else if ch = '\n' then ['\\', 'n']
  else if ch = '\t' then ['\\', 't']
  else if ch = '\r' then ['\\', 'r']
  else if ch.toNat < 0x20 then goControl ch
  else [ch]

def goStringLiteral (value : Text) : Text := '"' :: (value.flatMap goEscaped ++ ['"'])

def reprInt : Int → Text
  | .ofNat n => Nat.toDigits 10 n
  | .negSucc n => '-' :: Nat.toDigits 10 (n + 1)

def goScalarLiteral : PortableScalar F → Text
  | .bool value => if value then "true".toList else "false".toList
  | .int value => reprInt value.1
  | .float value => reprFloat value
  | .string value => goStringLiteral value

def goLiteral : PortableValue F → Text
  | .scalar value => goScalarLiteral reprFloat value
  | .list value =>
    goType .list (some value.elementKind) ++
      '{' :: ([',', ' '].intercalate (value.items.map (goScalarLiteral reprFloat)) ++ ['}'])

def capitalize : Text → Text
  | [] => []
  | ch :: rest => ch.toUpper :: rest.map Char.toLower

def goCaseIdentifier (name : Text) : Text := (name.splitOn '_').flatMap capitalize

def testFunctionName (name : Text) : Text := "TestPortableContract_".toList ++ goCaseIdentifier name

end

section

variable {F : Type} (reprFloat : F → Text)

/-- A bundle that has been checked: its digest, and the origins of its members. -/
structure Artifact where
  btsDigest : Text
  identities : List (Text × Text)
  digested : ∃ data, btsDigest = sha data
deriving DecidableEq

structure PortError where
  reason : Bts.RejectReason
  detailCode : String
deriving DecidableEq

def requireBoundDonorIdentity (artifact : Artifact) (donor : DonorIdentity) : Except PortError Unit :=
  match artifact.identities.dedup with
  | [identity] =>
    if (donor.slug, donor.commitSha) ≠ identity then
      .error ⟨.provenanceMismatch, "port_contract_donor_identity_mismatch_v1"⟩
    else .ok ()
  | _ => .error ⟨.provenanceMismatch, "port_contract_bts_member_identity_v1"⟩

def classifyCase (item : PortableCase F) : Except PortError (PortableValue F) :=
  match item.outcome with
  | .returns expected => .ok expected
  | .raises _ => .error ⟨.unsupportedConstruct, "port_contract_raises_not_portable_go_v1"⟩

def validateGoIdentifierNamespace (target : Text) (seen : List Text) : List (PortableCase F) → Except PortError Unit
  | [] => .ok ()
  | item :: rest =>
    if goCaseIdentifier item.name ∈ seen then
      .error ⟨.unsupportedConstruct, "port_contract_case_identifier_collision_v1"⟩
    else if target = testFunctionName item.name then
      .error ⟨.unsupportedConstruct, "port_contract_target_function_collision_v1"⟩
    else validateGoIdentifierNamespace target (goCaseIdentifier item.name :: seen) rest

/-- The comment that a file starts with. -/
def commentLines (suite : PortableContractSuite F) (btsDigest : Text) : List Text :=
  ["// Code generated by leitir bts-port-contract from a translated behavioral".toList,
    "// contract (ADR-0033). DO NOT EDIT BY HAND.".toList,
    "//".toList,
    "// The implementation under test is agent-written and is not part of this".toList,
    "// file or any Leitir-published artifact; see attribution.json for the".toList,
    "// donor provenance this contract was translated from.".toList,
    "//".toList,
    "// donor: ".toList ++ (suite.donor.slug ++ '@' :: suite.donor.commitSha),
    "// donor function: ".toList ++ suite.functionQualifiedName,
    "// bts_digest: ".toList ++ btsDigest,
    "// suite_digest: ".toList ++ suite.suiteDigest]

def clauseLines : List Text :=
  [[], "package donorport".toList, [], "import (".toList, "\t\"reflect\"".toList, "\t\"testing\"".toList, ")".toList, []]

/-- The test function of a case, and a line between it and what follows. -/
def caseLines (target : Text) (item : PortableCase F × PortableValue F) : List Text :=
  ["func ".toList ++ (testFunctionName item.1.name ++ "(t *testing.T) \x7b".toList),
    "\tgot := ".toList ++ (target ++ '(' :: ([',', ' '].intercalate (item.1.args.map (goLiteral reprFloat)) ++ [')'])),
    "\twant := ".toList ++ goLiteral reprFloat item.2,
    "\tif !reflect.DeepEqual(got, want) \x7b".toList,
    "\t\tt.Fatalf(\"case %q: got %#v want %#v\", ".toList ++ (goStringLiteral item.1.name ++ ", got, want)".toList),
    "\t\x7d".toList,
    "\x7d".toList,
    []]

def rstripNewlines (text : Text) : Text := (text.reverse.dropWhile fun ch => ch = '\n').reverse

def renderContract (suite : PortableContractSuite F) (btsDigest : Text)
    (expected : List (PortableCase F × PortableValue F)) : Text :=
  rstripNewlines (['\n'].intercalate (commentLines suite btsDigest ++ clauseLines ++
    expected.flatMap (caseLines reprFloat suite.targetFunctionName))) ++ ['\n']

/-- The test file of a suite, for a bundle that has been checked. -/
def translateContract (artifact : Artifact) (suite : PortableContractSuite F) : Except PortError Text :=
  if suite.btsDigest ≠ artifact.btsDigest then .error ⟨.provenanceMismatch, "port_contract_bts_digest_mismatch_v1"⟩
  else do
    requireBoundDonorIdentity artifact suite.donor
    let expected ← suite.cases.mapM fun item => (classifyCase item).map fun value => (item, value)
    validateGoIdentifierNamespace suite.targetFunctionName [] suite.cases
    pure (renderContract reprFloat suite artifact.btsDigest expected)

end

end Leitir.Port
