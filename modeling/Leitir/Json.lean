import Mathlib.Data.List.Sort
import Mathlib.Data.List.Lex
import Leitir.LawfulLists

namespace Json

abbrev Text := List Char

/-- A parsed document. A number with a fraction or an exponent is kept as its literal. -/
inductive Value
  | null
  | bool (value : Bool)
  | int (value : Int)
  | float (literal : Text)
  | str (text : Text)
  | arr (items : List Value)
  | obj (fields : List (String × Value))

def hexDigit (n : Nat) : Char := if n < 10 then Char.ofNat (48 + n) else Char.ofNat (87 + n)

def escapeChar (c : Char) : Text :=
  if c = '"' then ['\\', '"']
  else if c = '\\' then ['\\', '\\']
  else if c = '\n' then ['\\', 'n']
  else if c = '\r' then ['\\', 'r']
  else if c = '\t' then ['\\', 't']
  else if c = '\x0c' then ['\\', 'f']
  else if c = '\x08' then ['\\', 'b']
  else if c.toNat < 0x20 then ['\\', 'u', '0', '0', hexDigit (c.toNat / 16), hexDigit (c.toNat % 16)]
  else [c]

def printString (text : Text) : Text := '"' :: (text.flatMap escapeChar ++ ['"'])

def printInt : Int → Text
  | .ofNat n => Nat.toDigits 10 n
  | .negSucc n => '-' :: Nat.toDigits 10 (n + 1)

mutual

def print : Value → Text
  | .null => ['n', 'u', 'l', 'l']
  | .bool true => ['t', 'r', 'u', 'e']
  | .bool false => ['f', 'a', 'l', 's', 'e']
  | .int value => printInt value
  | .float literal => literal
  | .str text => printString text
  | .arr items => '[' :: printItems items ++ [']']
  | .obj fields => '{' :: printFields fields ++ ['}']
termination_by structural value => value

def printItems : List Value → Text
  | [] => []
  | item :: rest => print item ++ printRestItems rest
termination_by structural items => items

def printRestItems : List Value → Text
  | [] => []
  | item :: rest => ',' :: print item ++ printRestItems rest
termination_by structural items => items

def printFields : List (String × Value) → Text
  | [] => []
  | field :: rest => printField field ++ printRestFields rest
termination_by structural fields => fields

def printRestFields : List (String × Value) → Text
  | [] => []
  | field :: rest => ',' :: printField field ++ printRestFields rest
termination_by structural fields => fields

def printField : String × Value → Text
  | (key, value) => printString key.toList ++ ':' :: print value
termination_by structural field => field

end

mutual

/-- The document with the fields of every object in the order of their names. -/
def sortKeys : Value → Value
  | .null => .null
  | .bool value => .bool value
  | .int value => .int value
  | .float literal => .float literal
  | .str text => .str text
  | .arr items => .arr (sortItems items)
  | .obj fields => .obj ((sortFields fields).insertionSort fun a b => a.1 ≤ b.1)
termination_by structural value => value

def sortItems : List Value → List Value
  | [] => []
  | item :: rest => sortKeys item :: sortItems rest
termination_by structural items => items

def sortFields : List (String × Value) → List (String × Value)
  | [] => []
  | field :: rest => sortField field :: sortFields rest
termination_by structural fields => fields

def sortField : String × Value → String × Value
  | (key, value) => (key, sortKeys value)
termination_by structural field => field

end

def dumps (value : Value) : Text := print (sortKeys value)

section

def isSpace (c : Char) : Bool := c = ' ' || c = '\t' || c = '\n' || c = '\r'

def skipSpace : Text → Text := List.dropWhile isSpace

def hexValue (c : Char) : Option Nat :=
  if '0' ≤ c ∧ c ≤ '9' then some (c.toNat - 48)
  else if 'a' ≤ c ∧ c ≤ 'f' then some (c.toNat - 87)
  else if 'A' ≤ c ∧ c ≤ 'F' then some (c.toNat - 55)
  else none

def hexFour (a b c d : Char) : Option Nat := do
  let a ← hexValue a
  let b ← hexValue b
  let c ← hexValue c
  let d ← hexValue d
  some (((a * 16 + b) * 16 + c) * 16 + d)

def simpleEscape (c : Char) : Option Char :=
  if c = '"' then some '"'
  else if c = '\\' then some '\\'
  else if c = '/' then some '/'
  else if c = 'b' then some '\x08'
  else if c = 'f' then some '\x0c'
  else if c = 'n' then some '\n'
  else if c = 'r' then some '\r'
  else if c = 't' then some '\t'
  else none

def isHigh (n : Nat) : Bool := 0xD800 ≤ n && n ≤ 0xDBFF

def isLow (n : Nat) : Bool := 0xDC00 ≤ n && n ≤ 0xDFFF

/-- The text of a string after its opening quote, and what follows the closing quote. A surrogate without
its partner is no text. -/
def parseString : Text → Option (Text × Text)
  | [] => none
  | ch :: rest =>
    if ch = '"' then some ([], rest)
    else if ch = '\\' then
      match rest with
      | 'u' :: a :: b :: c :: d :: tail =>
        match hexFour a b c d with
        | none => none
        | some unit =>
          if isHigh unit then
            match tail with
            | '\\' :: 'u' :: e :: f :: g :: h :: tail =>
              match hexFour e f g h with
              | none => none
              | some low =>
                if isLow low then
                  (parseString tail).map fun r =>
                    (Char.ofNat (0x10000 + (unit - 0xD800) * 0x400 + (low - 0xDC00)) :: r.1, r.2)
                else none
            | _ => none
          else if isLow unit then none
          else (parseString tail).map fun r => (Char.ofNat unit :: r.1, r.2)
      | escape :: tail =>
        match simpleEscape escape with
        | none => none
        | some plain => (parseString tail).map fun r => (plain :: r.1, r.2)
      | [] => none
    else if ch.toNat < 0x20 then none
    else (parseString rest).map fun r => (ch :: r.1, r.2)

def isDigit (c : Char) : Bool := '0' ≤ c && c ≤ '9'

def spanDigits (text : Text) : Text × Text := (text.takeWhile isDigit, text.dropWhile isDigit)

/-- The digits of an integer part: a single zero, or digits that start with another one. -/
def parseDigits : Text → Option (Text × Text)
  | [] => none
  | c :: rest =>
    if c = '0' then some (['0'], rest)
    else if isDigit c then some (spanDigits (c :: rest))
    else none

/-- A fraction when a digit follows the point. -/
def parseFraction : Text → Text × Text
  | '.' :: rest =>
    match spanDigits rest with
    | ([], _) => ([], '.' :: rest)
    | (digits, tail) => ('.' :: digits, tail)
  | text => ([], text)

def isSign (c : Char) : Bool := c = '+' || c = '-'

/-- An exponent when a digit follows its letter and sign. -/
def parseExponent : Text → Text × Text
  | [] => ([], [])
  | letter :: rest =>
    if letter = 'e' ∨ letter = 'E' then
      let sign := (rest.take 1).filter isSign
      match spanDigits (rest.drop sign.length) with
      | ([], _) => ([], letter :: rest)
      | (digits, tail) => (letter :: sign ++ digits, tail)
    else ([], letter :: rest)

def parseUnsigned (negative : Bool) (text : Text) : Option (Value × Text) :=
  match parseDigits text with
  | none => none
  | some (digits, rest) =>
    let (fraction, rest) := parseFraction rest
    let (exponent, rest) := parseExponent rest
    if fraction = [] ∧ exponent = [] then
      let magnitude : Int := Nat.ofDigitChars 10 digits 0
      some (.int (if negative then -magnitude else magnitude), rest)
    else some (.float ((if negative then ['-'] else []) ++ digits ++ fraction ++ exponent), rest)

def parseNumber : Text → Option (Value × Text)
  | [] => none
  | c :: rest => if c = '-' then parseUnsigned true rest else parseUnsigned false (c :: rest)

def constants : List (Text × Value) :=
  [("null".toList, .null), ("true".toList, .bool true), ("false".toList, .bool false),
    ("NaN".toList, .float "NaN".toList), ("Infinity".toList, .float "Infinity".toList),
    ("-Infinity".toList, .float "-Infinity".toList)]

def parseScalar (text : Text) : Option (Value × Text) :=
  match constants.find? fun constant => constant.1.isPrefixOf text with
  | some (name, value) => some (value, text.drop name.length)
  | none => parseNumber text

def refuseRepeated (fields : List (String × Value)) : Option (List (String × Value)) :=
  if (fields.map Prod.fst).Nodup then some fields else none

def setField : List (String × Value) → String × Value → List (String × Value)
  | [], field => [field]
  | first :: rest, field => if first.1 = field.1 then field :: rest else first :: setField rest field

def keepLast (fields : List (String × Value)) : Option (List (String × Value)) := some (fields.foldl setField [])

variable (build : List (String × Value) → Option (List (String × Value)))

mutual

def parseValue : Nat → Text → Option (Value × Text)
  | 0, _ => none
  | fuel + 1, text =>
    match text with
    | '"' :: rest => (parseString rest).map fun r => (.str r.1, r.2)
    | '[' :: rest =>
      match skipSpace rest with
      | ']' :: tail => some (.arr [], tail)
      | first => (parseItems fuel first).map fun r => (.arr r.1, r.2)
    | '{' :: rest =>
      match skipSpace rest with
      | '}' :: tail => some (.obj [], tail)
      | first =>
        match parseFields fuel first with
        | none => none
        | some (fields, tail) => (build fields).map fun built => (.obj built, tail)
    | _ => parseScalar text

def parseItems : Nat → Text → Option (List Value × Text)
  | 0, _ => none
  | fuel + 1, text =>
    match parseValue fuel text with
    | none => none
    | some (item, rest) =>
      match skipSpace rest with
      | ']' :: tail => some ([item], tail)
      | ',' :: tail => (parseItems fuel (skipSpace tail)).map fun r => (item :: r.1, r.2)
      | _ => none

def parseFields : Nat → Text → Option (List (String × Value) × Text)
  | 0, _ => none
  | fuel + 1, text =>
    match text with
    | '"' :: quoted =>
      match parseString quoted with
      | none => none
      | some (key, rest) =>
        match skipSpace rest with
        | ':' :: rest =>
          match parseValue fuel (skipSpace rest) with
          | none => none
          | some (value, rest) =>
            match skipSpace rest with
            | '}' :: tail => some ([(String.ofList key, value)], tail)
            | ',' :: tail => (parseFields fuel (skipSpace tail)).map fun r => ((String.ofList key, value) :: r.1, r.2)
            | _ => none
        | _ => none
    | _ => none

end

def byteOrderMark : Char := '\ufeff'

/-- The document that a whole text holds. -/
def loadsWith (text : Text) : Option Value :=
  if text.head? = some byteOrderMark then none
  else
    match parseValue build (2 * text.length + 2) (skipSpace text) with
    | none => none
    | some (value, rest) => if skipSpace rest = [] then some value else none

def loads (text : Text) : Option Value := loadsWith refuseRepeated text

def plainLoads (text : Text) : Option Value := loadsWith keepLast text

end

end Json
