import Leitir.Base64
import Leitir.Utf8
import Leitir.SumdbClient

namespace Leitir.Sumdb

def codes (text : String) : List Nat := text.toList.map Char.toNat

def encode (text : List Char) : Bytes := text.flatMap fun ch => Utf8.encodePoint ch.toNat

/-- The parts before and after the first separator. -/
def splitOnce (sep : List Nat) : List Nat → Option (List Nat × List Nat)
  | [] => none
  | ch :: rest =>
    if sep <+: ch :: rest then some ([], (ch :: rest).drop sep.length)
    else (splitOnce sep rest).map fun (before, after) => (ch :: before, after)

/-- The parts before and after the last separator. -/
def rsplitOnce (sep : List Nat) : List Nat → Option (List Nat × List Nat)
  | [] => none
  | ch :: rest =>
    match rsplitOnce sep rest with
    | some (before, after) => some (ch :: before, after)
    | none => if sep <+: ch :: rest then some ([], (ch :: rest).drop sep.length) else none

def splitLinesLoop (isBreak : Nat → Bool) : List Nat → List Nat → List (List Nat)
  | [], line => if line = [] then [] else [line.reverse]
  | [ch], line => if isBreak ch then [line.reverse] else [(ch :: line).reverse]
  | ch :: next :: rest, line =>
    if ch = 13 ∧ next = 10 then line.reverse :: splitLinesLoop isBreak rest []
    else if isBreak ch then line.reverse :: splitLinesLoop isBreak (next :: rest) []
    else splitLinesLoop isBreak (next :: rest) (ch :: line)

def bytesBreak (ch : Nat) : Bool := ch = 10 || ch = 13

def textBreak (ch : Nat) : Bool :=
  10 ≤ ch && ch ≤ 13 || 0x1C ≤ ch && ch ≤ 0x1E || ch = 0x85 || ch = 0x2028 || ch = 0x2029

def rstrip (drop : Nat → Bool) (data : List Nat) : List Nat := (data.reverse.dropWhile drop).reverse

def isSpace (ch : Nat) : Bool := 9 ≤ ch && ch ≤ 13 || ch = 32

def maxStrDigits : Nat := 4300

/-- Decimal digits with single underscores between them, and their number. -/
def readDigits : List Nat → Nat → Nat → Bool → Option (Nat × Nat)
  | [], value, count, afterDigit => if afterDigit then some (value, count) else none
  | ch :: rest, value, count, afterDigit =>
    if 48 ≤ ch ∧ ch ≤ 57 then readDigits rest (value * 10 + (ch - 48)) (count + 1) true
    else if ch = 95 ∧ afterDigit then readDigits rest value count false
    else none

def natural (digits : List Nat) : Option Nat :=
  match readDigits digits 0 0 false with
  | none => none
  | some (value, count) => if count ≤ maxStrDigits then some value else none

def int (data : List Nat) : Option Int :=
  match rstrip isSpace (data.dropWhile isSpace) with
  | 45 :: digits => (natural digits).map fun value => -(value : Int)
  | 43 :: digits => (natural digits).map Int.ofNat
  | digits => (natural digits).map Int.ofNat

def hexDigit (v : Nat) : Nat := if v < 10 then 48 + v else 87 + v

def hex (data : Bytes) : List Nat := data.flatMap fun octet => [hexDigit (octet / 16), hexDigit (octet % 16)]

def sumGolangOrgKeyFromGolangGoModfetch : List Nat :=
  codes "sum.golang.org+033de0ae+Ac4zctda0e5eza+HJyk9SxEdh+s3Ux18htTTAD8OuAn8"

/-- The text of a signed note; every defect of the note is one failure. The
signature check is a parameter. -/
def noteText (ed25519Verify : Bytes → Bytes → Bytes → Bool) (data : Bytes) : Option Bytes := do
  let (text, signatureLines) ← rsplitOnce [10, 10] data
  let text := text ++ [10]
  let line ← (splitLinesLoop bytesBreak signatureLines []).head?
  let (start, encoded) ← rsplitOnce [32] line
  if start ≠ encode "— sum.golang.org".toList ∨ 10 ∈ rstrip (· = 10) signatureLines then none
  let signature ← Base64.decode encoded
  let (name, rest) ← splitOnce [43] sumGolangOrgKeyFromGolangGoModfetch
  let (keyHash, encodedKey) ← splitOnce [43] rest
  let key ← Base64.decode encodedKey
  if name ≠ codes "sum.golang.org" ∨ key.length ≠ 33 ∨ key.head? ≠ some 1 then none
  if hex (signature.take 4) ≠ keyHash ∨ ¬ ed25519Verify key.tail text (signature.drop 4) then none
  return text

def parseNote (ed25519Verify : Bytes → Bytes → Bytes → Bool) (data : Bytes) : Except Failure Bytes :=
  match noteText ed25519Verify data with
  | some text => .ok text
  | none => .error (.verification "sumdb signed tree note is invalid")

def treeHead (size : Int) (hash : Bytes) : Option TreeHead :=
  if h : hash.length = 32 then if size < 0 then none else some ⟨size.toNat, hash, h⟩ else none

def headText (text : Bytes) : Option TreeHead := do
  let lines := splitLinesLoop textBreak (← Utf8.decodeStrict text) []
  let sizeLine ← lines[1]?
  let size ← int sizeLine
  let hashLine ← lines[2]?
  let digest ← Base64.decode hashLine
  if lines.head? ≠ some (codes "go.sum database tree") ∨ codes (toString size) ≠ sizeLine then none
  treeHead size digest

def parseHead (text : Bytes) : Except Failure TreeHead :=
  match headText text with
  | some head => .ok head
  | none => .error (.verification "sumdb signed tree head is malformed")

variable {head : TreeHead}

theorem treeHead_some {size : Int} {hash : Bytes} (h : treeHead size hash = some head) :
    head.size = size.toNat ∧ head.hash = hash := by
  unfold treeHead at h
  split at h
  next =>
    split at h
    next => simp at h
    next =>
      cases h
      exact ⟨rfl, rfl⟩
  next => simp at h

theorem parseHead_octets {text : Bytes} (h : parseHead text = .ok head) :
    ∀ x ∈ head.hash, x < 256 := by
  unfold parseHead at h
  split at h
  next found hfound =>
    cases h
    unfold headText at hfound
    simp only [Option.bind_eq_bind, Option.bind_eq_some_iff] at hfound
    obtain ⟨points, _, sizeLine, _, size, _, hashLine, _, digest, hdigest, hrest⟩ := hfound
    split at hrest
    next => simp at hrest
    next =>
      obtain ⟨_, hhash⟩ := treeHead_some hrest
      rw [hhash]
      exact Base64.decode_octets hdigest
  next => simp at h

/-- The persisted state: no file, one that cannot be read back, or a payload. -/
inductive StateFile where
  | missing
  | malformed
  | payload (size : Int) (hash : List Nat)
deriving DecidableEq

/-- How writing the state file ends; it is replaced in one step. -/
inductive Write where
  | done
  | failsBefore
  | failsAfter
deriving DecidableEq

/-- What one call meets: the server, whether the lock can be taken and the
state file looked up, and the outcome of writing it. -/
structure Environment where
  server : Server
  locks : Bool
  looksUp : Bool
  write : Write

def storedHead : StateFile → Except Failure (Option TreeHead)
  | .missing => .ok none
  | .malformed => .error (.verification "stored sumdb tree head is malformed")
  | .payload size hash =>
    match (Base64.decode hash).bind (treeHead size) with
    | some head => .ok (some head)
    | none => .error (.verification "stored sumdb tree head is malformed")

def headPayload (head : TreeHead) : StateFile := .payload head.size (Base64.encode head.hash)

/-- The state file and the failure that writing a head leaves. -/
def storeHead (write : Write) (file : StateFile) (head : TreeHead) : Except Failure Unit × StateFile :=
  match write with
  | .done => (.ok (), headPayload head)
  | .failsBefore => (.error .other, file)
  | .failsAfter => (.error .other, headPayload head)

def escapeGoModulePath (module : List Char) : List Char :=
  module.flatMap fun ch => if 'A' ≤ ch ∧ ch ≤ 'Z' then ['!', ch.toLower] else [ch]

/-- A record found by a lookup, with the note that signs its tree. -/
structure Lookup where
  leaf : Nat
  text : Bytes
  sumHash : List Nat
  note : Bytes

def lookupText (module version : List Char) (response : Bytes) : Except Failure Lookup :=
  let malformed : Failure := .verification "sumdb lookup record is malformed or mismatched"
  match splitOnce [10, 10] response with
  | none => .error malformed
  | some (record, note) =>
    match splitOnce [10] record with
    | none => .error malformed
    | some (recordId, text) =>
      let text := text ++ [10]
      match int recordId with
      | none => .error malformed
      | some leaf =>
        if leaf < 0 then .error malformed
        else
          let expected := encode (module ++ ' ' :: version ++ " h1:".toList)
          match (splitLinesLoop bytesBreak text []).find? fun item => expected.isPrefixOf item with
          | none => .error malformed
          | some line =>
            match Utf8.decodeStrict line with
            | none => .error malformed
            | some decoded =>
              match (splitOnce [32] decoded).bind fun parts => splitOnce [32] parts.2 with
              | none => .error .other
              | some (_, sumHash) =>
                if codes "h1:" <+: sumHash then .ok ⟨leaf.toNat, text, sumHash, note⟩ else .error malformed

section

variable (sha256 : Bytes → Bytes) (ed25519Verify : Bytes → Bytes → Bytes → Bool) (server : Server)

/-- The lookup, up to the point where the lock is taken. -/
def lookupRecord (module version : List Char) (escapedModule : Option (List Char)) :
    Method (Lookup × TreeHead) := do
  let escaped := escapedModule.getD (escapeGoModulePath module)
  let response ← fetch server ("lookup/".toList ++ escaped ++ '@' :: version)
  let found ← Method.check (lookupText module version response)
  let text ← Method.check (parseNote ed25519Verify found.note)
  let lookupHead ← Method.check (parseHead text)
  if found.leaf ≥ lookupHead.size then
    Method.fail (.verification "sumdb lookup record is outside signed tree")
  else pure (found, lookupHead)

/-- The checks made under the lock; the result is the latest head. -/
def checkHeads (stored : Option TreeHead) (found : Lookup) (lookupHead : TreeHead) : Method TreeHead := do
  verifyHead sha256 server lookupHead
  verifyRecordInclusion sha256 server lookupHead found.leaf found.text
  let response ← fetch server "latest".toList
  let text ← Method.check (parseNote ed25519Verify response)
  let latest ← Method.check (parseHead text)
  verifyHead sha256 server latest
  match stored with
  | none => pure latest
  | some stored =>
    verifyConsistency sha256 server stored latest
    pure latest

end

/-- The checksum a call returns, with the two heads it has checked. -/
structure Accepted where
  sumHash : List Nat
  lookupHead : TreeHead
  latest : TreeHead
deriving DecidableEq

structure Query where
  module : List Char
  version : List Char
  escapedModule : Option (List Char)

def advances (stored : Option TreeHead) (latest : TreeHead) : Bool :=
  match stored with
  | none => true
  | some stored => latest.size > stored.size

/-- One call on a client and the state file. -/
def verifyHeads (sha256 : Bytes → Bytes) (ed25519Verify : Bytes → Bytes → Bytes → Bool) (environment : Environment)
    (query : Query) (c : Client) (file : StateFile) : Except Failure Accepted × Client × StateFile :=
  match lookupRecord ed25519Verify environment.server query.module query.version query.escapedModule c with
  | (.error failure, d) => (.error failure, d, file)
  | (.ok (found, lookupHead), d) =>
    if ¬ environment.locks ∨ ¬ environment.looksUp then (.error .other, d, file)
    else
      match storedHead file with
      | .error failure => (.error failure, d, file)
      | .ok stored =>
        match checkHeads sha256 ed25519Verify environment.server stored found lookupHead d with
        | (.error failure, e) => (.error failure, e, file)
        | (.ok latest, e) =>
          if advances stored latest then
            match storeHead environment.write file latest with
            | (.ok (), after) => (.ok ⟨found.sumHash, lookupHead, latest⟩, e, after)
            | (.error failure, after) => (.error failure, e, after)
          else (.ok ⟨found.sumHash, lookupHead, latest⟩, e, file)

def verify (sha256 : Bytes → Bytes) (ed25519Verify : Bytes → Bytes → Bytes → Bool) (environment : Environment)
    (query : Query) (c : Client) (file : StateFile) : Except Failure (List Nat) × Client × StateFile :=
  let (result, after) := verifyHeads sha256 ed25519Verify environment query c file
  (result.map Accepted.sumHash, after)

theorem storedHead_headPayload (h : ∀ x ∈ head.hash, x < 256) :
    storedHead (headPayload head) = .ok (some head) := by
  have hhead : treeHead head.size head.hash = some head := by
    rw [treeHead, dif_pos head.hash_length, if_neg (by omega)]
    rfl
  rw [headPayload, storedHead, Base64.decode_encode h, Option.bind_some, hhead]

end Leitir.Sumdb
