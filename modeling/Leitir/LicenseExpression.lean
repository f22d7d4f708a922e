import Mathlib.Data.List.Infix
import Leitir.LawfulLists

namespace Leitir.License

abbrev Text := List Char

/-- The pinned part of the list of licences. -/
def licenseIds : List Text :=
  ["0BSD", "AGPL-3.0-only", "AGPL-3.0-or-later", "Apache-2.0", "Artistic-2.0", "BSD-2-Clause", "BSD-3-Clause", "BSL-1.0",
    "CC-BY-4.0", "CC0-1.0", "EPL-1.0", "EPL-2.0", "GPL-2.0", "GPL-2.0-only", "GPL-2.0-or-later", "GPL-3.0", "GPL-3.0-only",
    "GPL-3.0-or-later", "ISC", "LGPL-2.1-only", "LGPL-2.1-or-later", "LGPL-3.0-only", "LGPL-3.0-or-later", "MIT", "MPL-2.0",
    "Python-2.0", "Unlicense", "Zlib"].map String.toList

def exceptionIds : List Text :=
  ["Autoconf-exception-2.0", "Autoconf-exception-3.0", "Bison-exception-2.2", "Classpath-exception-2.0", "GCC-exception-2.0",
    "GCC-exception-3.1", "LLVM-exception", "OpenJDK-assembly-exception-1.0"].map String.toList

def reviewed : List Text := ["0BSD", "Apache-2.0", "BSD-2-Clause", "BSD-3-Clause", "ISC", "MIT"].map String.toList

inductive Expr
  | license (value : Text)
  | ref (value : Text)
  | withException (value exceptionId : Text)
  | and (children : List Expr)
  | or (children : List Expr)

/-- The licences, references and exceptions that an expression is made of. -/
def Expr.leaves : Expr → List Text
  | .license value => [value]
  | .ref value => [value]
  | .withException value exceptionId => [value, exceptionId]
  | .and children => leavesAll children
  | .or children => leavesAll children
where
  leavesAll : List Expr → List Text
    | [] => []
    | child :: rest => child.leaves ++ leavesAll rest

def isAlnum (ch : Char) : Bool := 'a' ≤ ch && ch ≤ 'z' || 'A' ≤ ch && ch ≤ 'Z' || '0' ≤ ch && ch ≤ '9'

def isPart (ch : Char) : Bool := isAlnum ch || ch = '.' || ch = '-'

def isBlank (ch : Char) : Bool := ch = ' ' || ch = '\t'

def isSpace (ch : Char) : Bool :=
  ch.toNat ∈ [0x20, 0x85, 0xa0, 0x1680, 0x2028, 0x2029, 0x202f, 0x205f, 0x3000] || 0x09 ≤ ch.toNat && ch.toNat ≤ 0x0d ||
    0x1c ≤ ch.toNat && ch.toNat ≤ 0x1f || 0x2000 ≤ ch.toNat && ch.toNat ≤ 0x200a

def strip (text : Text) : Text := ((text.dropWhile isSpace).reverse.dropWhile isSpace).reverse

def operators : List Text := ["AND".toList, "OR".toList, "WITH".toList]

/-- Operators that stand alone have a blank on both sides. -/
def operatorsSpaced (before : Option Char) : Text → Bool
  | [] => true
  | ch :: rest =>
    (operators.all fun operator =>
      if before.any isPart || !decide (operator <+: ch :: rest) then true
      else
        let after := ((ch :: rest).drop operator.length).head?
        after.any isPart || before.any isBlank && after.any isBlank) &&
      operatorsSpaced (some ch) rest

def documentRef : Text := "DocumentRef-".toList

def licenseRef : Text := "LicenseRef-".toList

/-- A name behind a word, with the word. -/
def named (word text : Text) : Option (Text × Text) :=
  if word <+: text then
    let name := (text.drop word.length).takeWhile isPart
    if name = [] then none else some (word ++ name, (text.drop word.length).dropWhile isPart)
  else none

def documentToken (text : Text) : Option (Text × Text) := do
  let (document, rest) ← named documentRef text
  let (reference, rest) ← named (':' :: licenseRef) rest
  some (document ++ reference, rest)

def identifierToken : Text → Option (Text × Text)
  | [] => none
  | ch :: rest =>
    if isAlnum ch then
      let name := ch :: rest.takeWhile isPart
      match rest.dropWhile isPart with
      | '+' :: rest => some (name ++ ['+'], rest)
      | rest => some (name, rest)
    else if ch = '(' ∨ ch = ')' then some ([ch], rest)
    else none

def tokenAt (text : Text) : Option (Text × Text) :=
  (documentToken text).orElse fun _ => (named licenseRef text).orElse fun _ => identifierToken text

/-- The tokens of a text, with as many steps as it has signs. -/
def tokensFrom : Nat → Text → Except Text (List Text)
  | 0, _ => .ok []
  | fuel + 1, text =>
    match text.dropWhile isBlank with
    | [] => .ok []
    | ch :: rest =>
      match tokenAt (ch :: rest) with
      | none => .error "invalid SPDX token".toList
      | some (token, rest) => (tokensFrom fuel rest).map (token :: ·)

def tokenize (text : Text) : Except Text (List Text) :=
  if text = [] ∨ text.any fun ch => decide (ch.toNat < 32) && ch ≠ '\t' then .error "invalid SPDX control character".toList
  else if ¬ operatorsSpaced none text then .error "SPDX operators require whitespace".toList
  else tokensFrom text.length text

abbrev Parse := List Text → Except Text (Expr × List Text)

/-- The further items of a chain, each behind the operator. -/
def chain (operator : Text) (item : Parse) : Nat → List Text → Except Text (List Expr × List Text)
  | 0, tokens => .ok ([], tokens)
  | _ + 1, [] => .ok ([], [])
  | fuel + 1, token :: tokens =>
    if token = operator then do
      let (first, tokens) ← item tokens
      let (others, tokens) ← chain operator item fuel tokens
      .ok (first :: others, tokens)
    else .ok ([], token :: tokens)

def chained (operator : Text) (build : List Expr → Expr) (item : Parse) : Parse := fun tokens => do
  let (first, tokens) ← item tokens
  let (others, tokens) ← chain operator item tokens.length tokens
  .ok (if others = [] then first else build (first :: others), tokens)

def parseWith (primary : Parse) : Parse := fun tokens => do
  let (operand, tokens) ← primary tokens
  match tokens with
  | token :: tokens =>
    if token = "WITH".toList then
      match operand with
      | .license value =>
        if value.getLast? = some '+' then .error "WITH requires a simple license".toList
        else
          match tokens with
          | exceptionId :: tokens =>
            if exceptionId ∈ exceptionIds then .ok (.withException value exceptionId, tokens)
            else .error "unknown SPDX exception".toList
          | [] => .error "unknown SPDX exception".toList
      | _ => .error "WITH requires a simple license".toList
    else .ok (operand, token :: tokens)
  | [] => .ok (operand, [])

def parseOr (primary : Parse) : Parse :=
  chained "OR".toList .or (chained "AND".toList .and (parseWith primary))

/-- An operand; the depth bounds the nesting of groups. -/
def parsePrimary : Nat → Parse
  | 0, _ => .error "unclosed SPDX group".toList
  | _ + 1, [] => .error "missing SPDX operand".toList
  | depth + 1, token :: tokens =>
    if token = "(".toList then do
      let (value, tokens) ← parseOr (parsePrimary depth) tokens
      match tokens with
      | closing :: tokens => if closing = ")".toList then .ok (value, tokens) else .error "unclosed SPDX group".toList
      | [] => .error "unclosed SPDX group".toList
    else if licenseRef <+: token ∨ (':' :: licenseRef) <:+: token then .ok (.ref token, tokens)
    else if (if token.getLast? = some '+' then token.dropLast else token) ∈ licenseIds then .ok (.license token, tokens)
    else .error "unknown SPDX license ID".toList

def parse (text : Text) : Except Text Expr := do
  let tokens ← tokenize text
  let (result, rest) ← parseOr (parsePrimary (tokens.length + 1)) tokens
  if rest = [] then .ok result else .error "unexpected SPDX token".toList

def grouped (group : Bool) (text : Text) : Text := if group then '(' :: text ++ [')'] else text

mutual

/-- The text of an expression below an operator of a precedence. -/
def render (parent : Nat) : Expr → Text
  | .license value => value
  | .ref value => value
  | .withException value exceptionId => grouped (3 < parent) (value ++ " WITH ".toList ++ exceptionId)
  | .and children => grouped (2 < parent) (" AND ".toList.intercalate (renderAnd children))
  | .or children => grouped (1 < parent) (" OR ".toList.intercalate (renderOr children))

def renderAll (parent : Nat) : List Expr → List Text
  | [] => []
  | child :: rest => render parent child :: renderAll parent rest

def renderAnd : List Expr → List Text
  | [] => []
  | .and children :: rest => renderAll 2 children ++ renderAnd rest
  | child :: rest => render 2 child :: renderAnd rest

def renderOr : List Expr → List Text
  | [] => []
  | .or children :: rest => renderAll 1 children ++ renderOr rest
  | child :: rest => render 1 child :: renderOr rest

end

def canonicalizeSpdxExpression (expression : Text) : Except Text Text := (parse (strip expression)).map (render 0)

example : (canonicalizeSpdxExpression " (MIT OR ISC) AND MIT\t".toList).toOption = some "(MIT OR ISC) AND MIT".toList := by
  decide +kernel

theorem leaves_reviewed : ∀ expression ∈ reviewed, (parse expression).toOption.map Expr.leaves = some [expression] := by
  decide +kernel

theorem parse_reviewed {expression : Text} (h : expression ∈ reviewed) :
    ∃ tree, parse expression = .ok tree ∧ tree.leaves = [expression] := by
  have hleaves := leaves_reviewed expression h
  cases hparse : parse expression with
  | error message =>
    rw [hparse] at hleaves
    cases hleaves
  | ok tree =>
    rw [hparse] at hleaves
    exact ⟨tree, rfl, Option.some.inj hleaves⟩

end Leitir.License
