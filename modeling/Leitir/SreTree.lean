import Mathlib.Data.List.Basic
import Mathlib.Data.Nat.Bitwise
import Leitir.LawfulLists

namespace Sre

/-- Members of a character set. -/
inductive SetItem
  | negate
  | literal (point : Nat)
  | range (low high : Nat)
  | category (code : Nat)
deriving DecidableEq, Repr

/-- The operations of a parsed pattern, with their arguments. -/
inductive Token
  | literal (point : Nat)
  | notLiteral (point : Nat)
  | any
  | inSet (items : List SetItem)
  | anchor (code : Nat)
  | branch (alternatives : List (List Token))
  | subpattern (group : Option Nat) (addFlags delFlags : Nat) (child : List Token)
  | maxRepeat (least : Nat) (most : Option Nat) (child : List Token)
  | minRepeat (least : Nat) (most : Option Nat) (child : List Token)
  | possessiveRepeat (least : Nat) (most : Option Nat) (child : List Token)
  | assertion (direction : Int) (child : List Token)
  | assertionNot (direction : Int) (child : List Token)
  | groupRef (group : Nat)
  | groupRefExists (group : Nat) (yes : List Token) (no : List Token)
  | atomicGroup (child : List Token)
  | success
  | failure

/-- The repetitions do not differ in what they may match, only in the order of the attempts. -/
inductive RepeatOf : Token → Nat → Option Nat → List Token → Prop
  | greedy {least most child} : RepeatOf (.maxRepeat least most child) least most child
  | lazy {least most child} : RepeatOf (.minRepeat least most child) least most child
  | possessive {least most child} : RepeatOf (.possessiveRepeat least most child) least most child

def ignoreCaseBit : Nat := 1

def ignoreCase (flags : Nat) : Bool := flags.testBit ignoreCaseBit

def combineFlags (flags addFlags delFlags : Nat) : Nat :=
  let typeFlags := 256 ||| 4 ||| 32
  let flags := if addFlags &&& typeFlags ≠ 0 then Nat.ldiff flags typeFlags else flags
  Nat.ldiff (flags ||| addFlags) delFlags

theorem ignoreCase_combine {flags addFlags delFlags : Nat} (h : ignoreCase flags = false)
    (hadd : ignoreCase addFlags = false) : ignoreCase (combineFlags flags addFlags delFlags) = false := by
  unfold ignoreCase at *
  unfold combineFlags
  dsimp only
  split
  next => simp [Nat.testBit_ldiff, h, hadd]
  next => simp [Nat.testBit_ldiff, h, hadd]

/-- The tables of the engine: equal letters apart from case, single characters and positions. -/
structure Tables where
  sameCase : Nat → Nat → Nat → Prop
  single : Nat → Token → Nat → Prop
  position : Nat → Nat → List Nat → Nat → Prop

def Token.takesOne : Token → Bool
  | .notLiteral _ | .any | .inSet _ => true
  | _ => false

structure State where
  pos : Nat
  groups : Nat → Option (Nat × Nat)

def State.move (s : State) (count : Nat) : State := { s with pos := s.pos + count }

def State.close (s : State) (group : Option Nat) (start : Nat) : State :=
  match group with
  | none => s
  | some n => { s with groups := fun k => if k = n then some (start, s.pos) else s.groups k }

@[simp] theorem State.move_pos (s : State) (count : Nat) : (s.move count).pos = s.pos + count := rfl

@[simp] theorem State.close_pos (s : State) (group : Option Nat) (start : Nat) :
    (s.close group start).pos = s.pos := by
  cases group <;> rfl

variable (tables : Tables) (text : List Nat)

def sameLetter (flags point ch : Nat) : Prop :=
  if ignoreCase flags then tables.sameCase flags point ch else ch = point

/-- What a parsed pattern may match in a text. Atomic groups and possessive repetitions may match
what their bodies match, and a negative assertion only keeps its place. -/
inductive Matches : Nat → List Token → State → State → Prop
  | nil {flags s} : Matches flags [] s s
  | literal {flags point ch rest s t} : text[s.pos]? = some ch → sameLetter tables flags point ch →
      Matches flags rest (s.move 1) t → Matches flags (.literal point :: rest) s t
  | single {flags token ch rest s t} : token.takesOne = true → text[s.pos]? = some ch →
      tables.single flags token ch → Matches flags rest (s.move 1) t → Matches flags (token :: rest) s t
  | anchor {flags code rest s t} : tables.position flags code text s.pos →
      Matches flags rest s t → Matches flags (.anchor code :: rest) s t
  | branch {flags alternatives alternative rest s u t} : alternative ∈ alternatives →
      Matches flags alternative s u → Matches flags rest u t →
      Matches flags (.branch alternatives :: rest) s t
  | subpattern {flags group addFlags delFlags child rest s u t} :
      Matches (combineFlags flags addFlags delFlags) child s u →
      Matches flags rest (u.close group s.pos) t →
      Matches flags (.subpattern group addFlags delFlags child :: rest) s t
  | repeatDone {flags token most child rest s t} : RepeatOf token 0 most child →
      Matches flags rest s t → Matches flags (token :: rest) s t
  | repeatMore {flags token least most child rest s u t} : RepeatOf token least most child → most ≠ some 0 →
      Matches flags child s u →
      Matches flags (.maxRepeat (least - 1) (most.map (· - 1)) child :: rest) u t →
      Matches flags (token :: rest) s t
  | ahead {flags direction child rest s u t} : 0 ≤ direction → Matches flags child s u →
      Matches flags rest { u with pos := s.pos } t → Matches flags (.assertion direction child :: rest) s t
  | behind {flags direction child rest s r u t} : direction < 0 → r.pos ≤ s.pos → r.groups = s.groups →
      Matches flags child r u → u.pos = s.pos →
      Matches flags rest u t → Matches flags (.assertion direction child :: rest) s t
  | notFollowed {flags direction child rest s t} : Matches flags rest s t →
      Matches flags (.assertionNot direction child :: rest) s t
  | groupRef {flags group a b rest s t} : s.groups group = some (a, b) →
      (∀ k < b - a, ∃ point ch, text[a + k]? = some point ∧ text[s.pos + k]? = some ch ∧
        sameLetter tables flags point ch) →
      Matches flags rest (s.move (b - a)) t → Matches flags (.groupRef group :: rest) s t
  | groupRefYes {flags group yes no rest s u t} : (s.groups group).isSome → Matches flags yes s u →
      Matches flags rest u t → Matches flags (.groupRefExists group yes no :: rest) s t
  | groupRefNo {flags group yes no rest s u t} : s.groups group = none → Matches flags no s u →
      Matches flags rest u t → Matches flags (.groupRefExists group yes no :: rest) s t
  | atomicGroup {flags child rest s u t} : Matches flags child s u → Matches flags rest u t →
      Matches flags (.atomicGroup child :: rest) s t
  | success {flags rest s t} : Matches flags rest s t → Matches flags (.success :: rest) s t

variable {tables text} in
theorem Matches.pos_le {flags : Nat} {tokens : List Token} {s t : State}
    (h : Matches tables text flags tokens s t) (hs : s.pos ≤ text.length) : t.pos ≤ text.length := by
  induction h with
  | nil => exact hs
  | literal hch _ _ ih =>
    have := (List.getElem?_eq_some_iff.mp hch).1
    exact ih (by rw [State.move_pos]; omega)
  | single _ hch _ _ ih =>
    have := (List.getElem?_eq_some_iff.mp hch).1
    exact ih (by rw [State.move_pos]; omega)
  | anchor _ _ ih => exact ih hs
  | branch _ _ _ ihalt ih => exact ih (ihalt hs)
  | subpattern _ _ ihchild ih => exact ih (by rw [State.close_pos]; exact ihchild hs)
  | repeatDone _ _ ih => exact ih hs
  | repeatMore _ _ _ _ ihchild ih => exact ih (ihchild hs)
  | ahead _ _ _ _ ih => exact ih hs
  | behind _ _ _ _ hu _ _ ih => exact ih (by omega)
  | notFollowed _ ih => exact ih hs
  | @groupRef _ _ a b _ s _ _ hsame _ ih =>
    refine ih ?_
    rw [State.move_pos]
    by_cases hab : b - a = 0
    · omega
    · obtain ⟨-, ch, -, hch, -⟩ := hsame (b - a - 1) (by omega)
      have := (List.getElem?_eq_some_iff.mp hch).1
      omega
  | groupRefYes _ _ _ ihyes ih => exact ih (ihyes hs)
  | groupRefNo _ _ _ ihno ih => exact ih (ihno hs)
  | atomicGroup _ _ ihchild ih => exact ih (ihchild hs)
  | success _ ih => exact ih hs

def Found (flags : Nat) (tokens : List Token) : Prop :=
  ∃ start stop, start.pos ≤ text.length ∧ Matches tables text flags tokens start stop

end Sre
