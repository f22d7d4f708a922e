import Leitir.KeyedList
import Leitir.LineCut
import Leitir.SearchEngine
import Leitir.Utf8Stream

namespace Leitir.Search

inductive SearchMode
  | scopedExhaustive | globalDiscovery
deriving DecidableEq, Repr

structure RepoScope where
  slug : Text
  commitSha : Text
deriving DecidableEq

structure SearchSpec where
  mode : SearchMode := .scopedExhaustive
  must : List Predicate
  should : List Predicate := []
  mustNot : List Predicate := []
  scopes : List RepoScope := []
  wholeFileMust : Bool := false

def SearchSpec.contentMust (spec : SearchSpec) : List Predicate := spec.must.filter fun pred => pred.kind ≠ .path

structure BlobEntry where
  path : Text
  blobSha : Text
  size : Nat
deriving DecidableEq

def BlobEntry.at_ (entry : BlobEntry) (slug commitSha : Text) : Blob := ⟨slug, commitSha, entry.path, entry.blobSha⟩

def sourceIdentity (source : SourceRef) : KeyedList.Key :=
  [source.slug, source.commitSha, source.path, source.blobSha, [source.startLine], [source.endLine]]

section

def maxLineBytes : Nat := 512 * 1024

def streamChunkSize : Nat := 64 * 1024

inductive StreamError
  | badPattern | exceedsDeclaredSize | lineExceedsBudget | declaredSizeMismatch | blobShaMismatch
deriving DecidableEq, Repr

def liftPattern {α : Type} : Except PatternError α → Except StreamError α
  | .ok value => .ok value
  | .error .badPattern => .error .badPattern

def mergeMatch (existing incoming : SourceMatch) : SourceMatch where
  source := existing.source
  score := max existing.score incoming.score
  method := if existing.method = .ast ∧ incoming.method = .ast then .ast else .heuristic
  matchedKinds := sortKinds (existing.matchedKinds ++ incoming.matchedKinds)

def SourceMatch.identity (found : SourceMatch) : KeyedList.Key := sourceIdentity found.source

def addPending (pending : List SourceMatch) (found : SourceMatch) : List SourceMatch :=
  if pending.any fun prior => prior.identity = found.identity then
    pending.map fun prior => if prior.identity = found.identity then mergeMatch prior found else prior
  else pending ++ [found]

def SourceMatch.rebase (found : SourceMatch) (offset : Nat) : SourceMatch :=
  { found with
    source := { found.source with
      startLine := found.source.startLine + offset
      endLine := found.source.endLine + offset } }

structure Scored where
  fileExcluded : Bool := false
  unavailable : Bool := false
  lineOffset : Nat := 0
  pending : List SourceMatch := []

variable (adapter : LanguageAdapter) (blob : Blob) (spec : SearchSpec)

def flushBatch (scored : Scored) (batch : Text) : Except PatternError Scored :=
  if batch = [] then .ok scored
  else do
    let (excluded, unavailable) ←
      (if scored.fileExcluded then pure (true, scored.unavailable)
      else documentExcludedEx adapter batch spec.mustNot scored.unavailable)
    let (found, flagged) ← scoreContentEx adapter batch blob spec.contentMust spec.should spec.mustNot false
    pure {
      fileExcluded := excluded
      unavailable := unavailable || flagged
      lineOffset := scored.lineOffset + batch.count 10
      pending := (found.map fun item => item.rebase scored.lineOffset).foldl addPending scored.pending }

/-- Complete lines go to the batch, and a batch that is long enough is scored. -/
def consumeLines : List Text → Text → Scored → Except StreamError (Text × Scored)
  | [], batch, scored => .ok (batch, scored)
  | line :: rest, batch, scored =>
    if maxLineBytes < line.length then .error .lineExceedsBudget
    else if streamChunkSize ≤ (batch ++ line ++ [10]).length then do
      let scored ← liftPattern (flushBatch adapter blob spec scored (batch ++ line ++ [10]))
      consumeLines rest [] scored
    else consumeLines rest (batch ++ line ++ [10]) scored

structure StreamState where
  received : Nat := 0
  kept : Bytes := []
  buffer : Text := []
  batch : Text := []
  lineBytes : Nat := 0
  scored : Scored := {}

def consumeChunk (size : Nat) (state : StreamState) (chunk : Bytes) : Except StreamError StreamState :=
  let byteParts := chunk.splitOn 10
  let firstBytes := state.lineBytes + (byteParts.headD []).length
  if size < state.received + chunk.length then .error .exceedsDeclaredSize
  else if maxLineBytes < firstBytes then .error .lineExceedsBudget
  else if byteParts.tail.any fun part => maxLineBytes < part.length then .error .lineExceedsBudget
  else do
    let (piece, kept) := Utf8.decodeMore state.kept chunk
    let text := state.buffer ++ piece
    let (batch, scored) ← consumeLines adapter blob spec (LineCut.complete 10 text) state.batch state.scored
    if maxLineBytes < (LineCut.rest 10 text).length then .error .lineExceedsBudget
    else
      pure {
        received := state.received + chunk.length
        kept := kept
        buffer := LineCut.rest 10 text
        batch := batch
        lineBytes := if byteParts.tail = [] then firstBytes else (byteParts.getLastD []).length
        scored := scored }

def blobHeader (size : Nat) : Bytes := chars "blob " ++ chars (toString size) ++ [0]

/-- The octets that are left are decoded, the last batch is scored, and the blob is compared with its identity. -/
def finishStream (sha1 : Bytes → Text) (size : Nat) (chunks : List Bytes) (state : StreamState) :
    Except StreamError (List SourceMatch × Bool) :=
  let buffer := state.buffer ++ Utf8.decodeReplace state.kept
  if maxLineBytes < buffer.length then .error .lineExceedsBudget
  else do
    let scored ← liftPattern (flushBatch adapter blob spec state.scored (state.batch ++ buffer))
    if state.received ≠ size then .error .declaredSizeMismatch
    else if sha1 (blobHeader size ++ chunks.flatten) ≠ blob.blobSha then .error .blobShaMismatch
    else if scored.fileExcluded then pure ([], scored.unavailable)
    else pure (KeyedList.sortBy SourceMatch.identity scored.pending, scored.unavailable)

/-- The matches of a blob that is read in chunks, whether it was left out, and whether a parser was not available. -/
def scoreBlobStream (sha1 : Bytes → Text) (size : Nat) (chunks : List Bytes) :
    Except StreamError (List SourceMatch × Bool × Bool) :=
  if spec.wholeFileMust then .ok ([], true, false)
  else do
    let state ← chunks.foldlM (consumeChunk adapter blob spec size) {}
    let (found, unavailable) ← finishStream adapter blob spec sha1 size chunks state
    pure (found, false, unavailable)

end

end Leitir.Search
