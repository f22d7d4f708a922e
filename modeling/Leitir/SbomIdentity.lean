import Mathlib.Data.List.Lex
import Mathlib.Data.List.Pairwise
import Mathlib.Data.List.Sort
import Leitir.LawfulLists

namespace Leitir.Sbom

open List

abbrev Text := List Char

def safeChar (ch : Char) : Bool := ch.isAlphanum || ch = '.' || ch = '-'

def edge (ch : Char) : Bool := ch = '-' || ch = '.'

/-- Every run of other characters becomes one dash. -/
def collapse (inRun : Bool) : Text → Text
  | [] => []
  | ch :: rest => if safeChar ch then ch :: collapse false rest else if inRun then collapse true rest else '-' :: collapse true rest

def strip (text : Text) : Text := ((text.dropWhile edge).reverse.dropWhile edge).reverse

def safe (value : Text) : Text := if strip (collapse false value) = [] then "package".toList else strip (collapse false value)

/-- A catalogue entry with what is read of its manifest. The manifest is only valid for a commit of 40 hex digits. -/
structure Shelved where
  host : Text
  owner : Text
  repo : Text
  name : Text
  commitSha : Text
  ecosystem : Option Text
  version : Option Text
  deps : List Text
  pinned : commitSha.length = 40 ∧ commitSha.all fun ch => ch.isDigit || ch ∈ ['a', 'b', 'c', 'd', 'e', 'f']
deriving DecidableEq

def Shelved.key (entry : Shelved) : List Text := [entry.host, entry.owner, entry.repo, entry.commitSha]

def orText (value : Option Text) (other : Text) : Text := if value.getD [] = [] then other else value.getD []

def Shelved.ecosystemText (entry : Shelved) : Text := orText entry.ecosystem "git".toList

def Shelved.versionText (entry : Shelved) : Text := orText entry.version entry.commitSha

def specText (ecosystem name version : Text) : Text := ecosystem ++ ':' :: name ++ '@' :: version

structure Package where
  entry : Shelved
  identity : Text
  spdxId : Text
  bomRef : Text

def Shelved.package (entry : Shelved) : Package :=
  let suffix := safe (entry.ecosystemText ++ '-' :: entry.name ++ '-' :: entry.versionText ++ '-' :: entry.commitSha)
  ⟨entry, specText entry.ecosystemText entry.name entry.versionText, "SPDXRef-Package-".toList ++ suffix, "pkg:".toList ++ suffix⟩

def packages (catalogue : List Shelved) : List Package :=
  ((catalogue.insertionSort fun a b => a.key ≤ b.key).map Shelved.package).insertionSort fun a b => a.identity ≤ b.identity

section

variable (catalogue : List Shelved) (closures : List (List Text))

/-- What a document shows of an entry before its commit. -/
def Shelved.reading (entry : Shelved) : Text :=
  (collapse false (entry.ecosystemText ++ '-' :: entry.name ++ '-' :: entry.versionText ++ ['-'])).dropWhile edge

end

section

variable {catalogue : List Shelved} {closures : List (List Text)}

/-- One repository on a host, at a commit. -/
def sampleEntry (host commit : Char) (h : commit.isDigit = true) : Shelved :=
  ⟨[host], "o".toList, "r".toList, "o/r".toList, List.replicate 40 commit, none, none, [], by simp [h]⟩

end

end Leitir.Sbom
