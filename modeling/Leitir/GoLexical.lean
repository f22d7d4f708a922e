import Mathlib.Data.List.Basic
import Leitir.LawfulLists

namespace GoLexical

open List

abbrev Text := List Char

def isOctal (ch : Char) : Bool := '0' ≤ ch && ch ≤ '7'

def isHex (ch : Char) : Bool := '0' ≤ ch && ch ≤ '9' || 'a' ≤ ch && ch ≤ 'f' || 'A' ≤ ch && ch ≤ 'F'

/-- What may stand behind a backslash in a literal with a quote. -/
def isEscape (quote first : Char) (rest : Text) : Bool :=
  rest = [] && ['a', 'b', 'f', 'n', 'r', 't', 'v', '\\', quote].contains first ||
    isOctal first && rest.length = 2 && rest.all isOctal ||
    first = 'x' && rest.length = 2 && rest.all isHex ||
    first = 'u' && rest.length = 4 && rest.all isHex ||
    first = 'U' && rest.length = 8 && rest.all isHex

/-- A character of a literal as it is written. -/
inductive Element
  | plain (ch : Char)
  | escape (first : Char) (rest : Text)
deriving DecidableEq

def Element.text : Element → Text
  | .plain ch => [ch]
  | .escape first rest => '\\' :: first :: rest

def Element.valid (quote : Char) : Element → Bool
  | .plain ch => ch ≠ quote && ch ≠ '\\' && ch ≠ '\n'
  | .escape first rest => isEscape quote first rest

/-- A character of code, a comment or a literal. -/
inductive Piece
  | code (ch : Char)
  | lineComment (body : Text)
  | blockComment (body : Text)
  | interpreted (elements : List Element)
  | raw (body : Text)
  | rune (element : Element)
deriving DecidableEq

def backquote : Char := '\x60'

def Piece.text : Piece → Text
  | .code ch => [ch]
  | .lineComment body => '/' :: '/' :: body
  | .blockComment body => '/' :: '*' :: (body ++ ['*', '/'])
  | .interpreted elements => '"' :: (elements.flatMap Element.text ++ ['"'])
  | .raw body => backquote :: (body ++ [backquote])
  | .rune element => '\'' :: (element.text ++ ['\''])

def unclosed : Text → Bool
  | [] => true
  | ch :: rest => !(ch = '*' && rest.head? = some '/') && unclosed rest

def isCode (ch : Char) : Bool :=
  !(['"', '\'', backquote].contains ch) && !([0x0b, 0x0c, 0x1c, 0x1d, 0x1e, 0x85, 0x2028, 0x2029].contains ch.toNat)

/-- Whether a piece can stand before a character. A slash that opens a comment is not code, and a line comment goes on to
the end of its line. -/
def Piece.valid (next : Option Char) : Piece → Bool
  | .code ch => isCode ch && !(ch = '/' && (next = some '/' || next = some '*'))
  | .lineComment body => !body.contains '\n' && (next = none || next = some '\n')
  | .blockComment body => unclosed body
  | .interpreted elements => elements.all (Element.valid '"')
  | .raw body => !body.contains backquote
  | .rune element => element.valid '\''

def spell (pieces : List Piece) : Text := pieces.flatMap Piece.text

/-- The lexical structure of a file. -/
def lexes : List Piece → Bool
  | [] => true
  | piece :: rest => piece.valid (spell rest).head? && lexes rest

@[simp] theorem spell_nil : spell [] = [] := rfl

@[simp] theorem spell_cons (piece : Piece) (rest : List Piece) : spell (piece :: rest) = piece.text ++ spell rest := rfl

theorem lexes_cons {piece : Piece} {rest : List Piece} :
    lexes (piece :: rest) = true ↔ piece.valid (spell rest).head? = true ∧ lexes rest = true := by
  rw [lexes, Bool.and_eq_true]

def blank (ch : Char) : Char := if ch = '\n' ∨ ch = '\r' then ch else ' '

def Piece.masked : Piece → Text
  | .code ch => [ch]
  | piece => piece.text.map blank

def masked (pieces : List Piece) : Text := pieces.flatMap Piece.masked

@[simp] theorem masked_nil : masked [] = [] := rfl

@[simp] theorem masked_cons (piece : Piece) (rest : List Piece) : masked (piece :: rest) = piece.masked ++ masked rest := rfl

/-- The lines of a file, each of which ends with a line feed and a carriage return before it, if there is one. -/
def fileLinesFrom (line : Text) : Text → List Text
  | [] => if line = [] then [] else [line.reverse]
  | ch :: rest =>
    if ch = '\n' then line.reverse :: fileLinesFrom [] rest
    else if ch = '\r' ∧ rest.head? = some '\n' then fileLinesFrom line rest
    else fileLinesFrom (ch :: line) rest

def fileLines (text : Text) : List Text := fileLinesFrom [] text

/-- Every carriage return stands before a line feed. -/
def paired : Text → Bool
  | [] => true
  | ch :: rest => !(ch = '\r' && rest.head? ≠ some '\n') && paired rest

def strip (text : Text) : Text := text.filter fun ch => ch ≠ '\r'

theorem paired_cons {ch : Char} {rest : Text} :
    paired (ch :: rest) = true ↔ (ch = '\r' → rest.head? = some '\n') ∧ paired rest = true := by
  rw [paired, Bool.and_eq_true, Bool.not_eq_true', Bool.and_eq_false_imp]
  simp

theorem paired_append_right {first second : Text} (h : paired (first ++ second) = true) : paired second = true := by
  induction first with
  | nil => exact h
  | cons ch first ih => exact ih (paired_cons.mp h).2

@[simp] theorem strip_append (first second : Text) : strip (first ++ second) = strip first ++ strip second :=
  filter_append ..

theorem strip_cons_of_ne {ch : Char} (h : ch ≠ '\r') (rest : Text) : strip (ch :: rest) = ch :: strip rest :=
  filter_cons_of_pos (by simpa using h)

theorem strip_cons_return (rest : Text) : strip ('\r' :: rest) = strip rest := filter_cons_of_neg (by simp)

theorem head_strip {text : Text} (h : paired text = true) {ch : Char} (hch : (strip text).head? = some ch)
    (hne : ch ≠ '\n') : text.head? = some ch := by
  cases text with
  | nil => cases hch
  | cons first rest =>
    by_cases hfirst : first = '\r'
    · subst hfirst
      obtain ⟨hnext, -⟩ := paired_cons.mp h
      cases rest with
      | nil => cases hnext rfl
      | cons second rest =>
        cases hnext rfl
        rw [strip_cons_return, strip_cons_of_ne (by decide)] at hch
        cases hch
        exact absurd rfl hne
    · rw [strip_cons_of_ne hfirst] at hch
      exact hch

theorem fileLinesFrom_strip {text : Text} (h : paired text = true) (line : Text) :
    fileLinesFrom line (strip text) = fileLinesFrom line text := by
  induction text generalizing line with
  | nil => rfl
  | cons ch rest ih =>
    obtain ⟨hnext, hrest⟩ := paired_cons.mp h
    by_cases hch : ch = '\r'
    · subst hch
      rw [strip_cons_return, fileLinesFrom, if_neg (by decide), if_pos ⟨rfl, hnext rfl⟩, ih hrest]
    · rw [strip_cons_of_ne hch, fileLinesFrom, fileLinesFrom]
      split
      next => rw [ih hrest]
      next =>
        rw [if_neg fun hboth => hch hboth.1, if_neg fun hboth => hch hboth.1]
        exact ih hrest _

section

theorem spell_append (pieces others : List Piece) : spell (pieces ++ others) = spell pieces ++ spell others :=
  flatMap_append

variable {pieces : List Piece} {text rest : Text}

theorem lexes_append_of_head {others more : List Piece} (h : lexes (pieces ++ others) = true)
    (hmore : lexes more = true) (hhead : (spell others).head? = (spell more).head?) : lexes (pieces ++ more) = true := by
  induction pieces with
  | nil => exact hmore
  | cons piece pieces ih =>
    rw [cons_append] at h ⊢
    obtain ⟨hvalid, hrest⟩ := lexes_cons.mp h
    refine lexes_cons.mpr ⟨?_, ih hrest⟩
    rw [spell_append, head?_append, ← hhead, ← head?_append, ← spell_append]
    exact hvalid

/-- Comments, and the white space between them. -/
def Piece.isBlank : Piece → Bool
  | .code ch => [' ', '\t', '\r', '\n'].contains ch
  | .lineComment _ => true
  | .blockComment _ => true
  | _ => false

def Commentary (text : Text) : Prop :=
  ∃ pieces : List Piece, pieces.all Piece.isBlank = true ∧ lexes (pieces ++ [.code '\n']) = true ∧ spell pieces = text

theorem commentary_nil : Commentary [] := ⟨[], rfl, rfl, rfl⟩

theorem lineComment_eq {body : Text} (hbody : '\n' ∉ body)
    (hvalid : (Piece.lineComment text).valid (spell (pieces ++ [.code '\n'])).head? = true)
    (h : text ++ spell pieces = body ++ '\n' :: rest) : text = body ∧ spell pieces = '\n' :: rest := by
  rw [Piece.valid, Bool.and_eq_true, Bool.not_eq_true', contains_eq_mem, decide_eq_false_iff_not] at hvalid
  rcases append_eq_append_iff.mp h with ⟨more, rfl, hmore⟩ | ⟨more, rfl, hmore⟩
  · cases more with
    | nil => exact ⟨(append_nil _).symm, hmore⟩
    | cons ch more =>
      rw [spell_append, hmore, cons_append, cons_append, head?_cons] at hvalid
      have hch : ch = '\n' := by simpa using hvalid.2
      exact absurd (by simp [hch]) hbody
  · cases more with
    | nil => exact ⟨append_nil _, hmore.symm⟩
    | cons ch more =>
      obtain ⟨rfl, -⟩ := cons_eq_cons.mp hmore
      exact absurd (by simp) hvalid.1

theorem spell_eq_newline (hblank : pieces.all Piece.isBlank = true)
    (h : spell pieces = '\n' :: rest) : ∃ others, pieces = .code '\n' :: others ∧ spell others = rest := by
  cases pieces with
  | nil => cases h
  | cons piece others =>
    rw [spell_cons] at h
    cases piece with
    | code ch =>
      obtain ⟨rfl, hrest⟩ := cons_eq_cons.mp h
      exact ⟨others, rfl, hrest⟩
    | lineComment text => cases head_eq_of_cons_eq h
    | blockComment text => cases head_eq_of_cons_eq h
    | interpreted elements => cases head_eq_of_cons_eq h
    | raw text => cases head_eq_of_cons_eq h
    | rune element => cases head_eq_of_cons_eq h

theorem commentary_line {body : Text} (hbody : '\n' ∉ body) :
    Commentary ('/' :: '/' :: (body ++ '\n' :: rest)) ↔ Commentary rest := by
  constructor
  · rintro ⟨pieces, hblank, hlexes, hspell⟩
    cases pieces with
    | nil => cases hspell
    | cons piece pieces =>
      rw [all_cons, Bool.and_eq_true] at hblank
      rw [cons_append] at hlexes
      obtain ⟨hvalid, hrest⟩ := lexes_cons.mp hlexes
      cases piece with
      | code ch =>
        obtain ⟨rfl, -⟩ := cons_eq_cons.mp hspell
        cases hblank.1
      | lineComment text =>
        have htail : text ++ spell pieces = body ++ '\n' :: rest := tail_eq_of_cons_eq (tail_eq_of_cons_eq hspell)
        obtain ⟨-, hnewline⟩ := lineComment_eq hbody hvalid htail
        obtain ⟨others, rfl, hothers⟩ := spell_eq_newline hblank.2 hnewline
        rw [all_cons, Bool.and_eq_true] at hblank
        rw [cons_append] at hrest
        exact ⟨others, hblank.2.2, (lexes_cons.mp hrest).2, hothers⟩
      | blockComment text => cases head_eq_of_cons_eq (tail_eq_of_cons_eq hspell)
      | interpreted elements => cases hblank.1
      | raw text => cases hblank.1
      | rune element => cases hblank.1
  · rintro ⟨pieces, hblank, hlexes, rfl⟩
    refine ⟨.lineComment body :: .code '\n' :: pieces, hblank, ?_, by simp [Piece.text]⟩
    have hcontains : body.contains '\n' = false := by rwa [contains_eq_mem, decide_eq_false_iff_not]
    rw [cons_append, cons_append]
    refine lexes_cons.mpr ⟨?_, lexes_cons.mpr ⟨rfl, hlexes⟩⟩
    rw [Piece.valid, hcontains]
    rfl

/-- No blank piece with something before a line end goes over it, where no block comment is closed behind it. -/
theorem blank_before {piece : Piece} {first : Char} {more : Text} (hblank : piece.isBlank = true) {next : Option Char}
    (hvalid : piece.valid next = true) (hstar : '*' ∉ more) : piece.text ≠ first :: text ++ '\n' :: more := by
  intro h
  cases piece with
  | code ch => exact absurd (tail_eq_of_cons_eq h) (by simp)
  | lineComment body =>
    rw [Piece.valid, Bool.and_eq_true, Bool.not_eq_true', contains_eq_mem, decide_eq_false_iff_not] at hvalid
    have hmem : '\n' ∈ (Piece.lineComment body).text := h ▸ mem_append_right _ mem_cons_self
    rw [Piece.text, mem_cons, mem_cons] at hmem
    rcases hmem with hslash | hslash | hmem
    · cases hslash
    · cases hslash
    · exact hvalid.1 hmem
  | blockComment body =>
    -- the last two characters of the comment stand behind the line end
    have hlast := congrArg List.reverse h
    simp only [Piece.text, reverse_cons, reverse_append, reverse_nil, nil_append, cons_append,
      append_assoc] at hlast
    rw [← mem_reverse] at hstar
    cases hmore : more.reverse with
    | nil =>
      rw [hmore] at hlast
      cases head_eq_of_cons_eq hlast
    | cons ch rest =>
      rw [hmore] at hlast hstar
      have htail := tail_eq_of_cons_eq hlast
      cases rest with
      | nil => cases head_eq_of_cons_eq htail
      | cons other rest =>
        have hother : '*' = other := head_eq_of_cons_eq htail
        exact hstar (mem_cons_of_mem _ (mem_cons.mpr (Or.inl hother)))
  | interpreted elements => cases hblank
  | raw body => cases hblank
  | rune element => cases hblank

/-- A comment that begins before a line end and has no end behind it ends before it. -/
theorem commentary_of_append (hstar : '*' ∉ rest) (h : Commentary (text ++ '\n' :: rest)) :
    Commentary text := by
  obtain ⟨pieces, hblank, hlexes, hspell⟩ := h
  induction pieces generalizing text with
  | nil => exact absurd hspell.symm (by simp)
  | cons piece pieces ih =>
    cases text with
    | nil => exact commentary_nil
    | cons first text =>
      rw [all_cons, Bool.and_eq_true] at hblank
      rw [cons_append] at hlexes
      obtain ⟨hvalid, hrest⟩ := lexes_cons.mp hlexes
      have hpiece : ∃ more, piece.text ++ more = first :: text ∧ spell pieces = more ++ '\n' :: rest := by
        rcases append_eq_append_iff.mp hspell with ⟨more, hmore, htail⟩ | ⟨more, hmore, htail⟩
        · exact ⟨more, hmore.symm, htail⟩
        · cases more with
          | nil => exact ⟨[], by rw [hmore, append_nil, append_nil], htail.symm⟩
          | cons ch more =>
            obtain ⟨rfl, hrest⟩ := cons_eq_cons.mp htail
            have hmorestar : '*' ∉ more := fun hmem => hstar (hrest ▸ mem_append_left _ hmem)
            exact absurd hmore (blank_before hblank.1 hvalid hmorestar)
      obtain ⟨more, hmore, hspell⟩ := hpiece
      obtain ⟨others, hothers, hlex, hspelled⟩ := ih hblank.2 hrest hspell
      refine ⟨piece :: others, ?_, ?_, ?_⟩
      · rw [all_cons, hblank.1, hothers]
        rfl
      · rw [cons_append]
        refine lexes_cons.mpr ⟨?_, hlex⟩
        rw [spell_append, hspell, append_assoc, head?_append] at hvalid
        rw [spell_append, hspelled, head?_append]
        exact hvalid
      · rw [spell_cons, hspelled, hmore]

theorem commentary_append (hstar : '*' ∉ rest) (hrest : Commentary rest) :
    Commentary (text ++ '\n' :: rest) ↔ Commentary text := by
  refine ⟨commentary_of_append hstar, ?_⟩
  rintro ⟨pieces, hblank, hlexes, rfl⟩
  obtain ⟨others, hothers, hlex, rfl⟩ := hrest
  refine ⟨pieces ++ .code '\n' :: others, ?_, ?_, ?_⟩
  · rw [List.all_append, hblank, all_cons, hothers]
    rfl
  · rw [append_assoc, cons_append]
    exact lexes_append_of_head hlexes (lexes_cons.mpr ⟨rfl, hlex⟩) rfl
  · rw [spell_append, spell_cons]
    rfl

end

end GoLexical
