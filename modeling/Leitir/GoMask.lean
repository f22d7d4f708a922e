import Leitir.GoLexical
import Leitir.LicenseEvidence
import Leitir.LineCut

namespace Leitir.Api

open GoLexical List
open License (splitlines splitlinesFrom isLineEnd)

inductive GoState
  | code | lineComment | blockComment | quoted | rune | raw
deriving DecidableEq

/-- A round of the loop writes one character, or two blanks for two characters. -/
inductive GoMove
  | one (shown : Char) (state : GoState) (escaped : Bool)
  | two (state : GoState) (escaped : Bool)
deriving DecidableEq

def hidden (ch : Char) : Char := if ch = '\n' then '\n' else ' '

/-- Quoted text and runes are read alike: either kind of quote ends either of them. -/
def goMove (state : GoState) (escaped : Bool) (ch : Char) (following : Option Char) : GoMove :=
  match state with
  | .code =>
    if ch = '/' ∧ following = some '/' then .two .lineComment escaped
    else if ch = '/' ∧ following = some '*' then .two .blockComment escaped
    else if ch = '"' then .one ' ' .quoted escaped
    else if ch = '\'' then .one ' ' .rune escaped
    else if ch = backquote then .one ' ' .raw escaped
    else .one ch .code escaped
  | .lineComment => .one (hidden ch) (if ch = '\n' then .code else .lineComment) escaped
  | .blockComment =>
    if ch = '*' ∧ following = some '/' then .two .code escaped else .one (hidden ch) .blockComment escaped
  | .raw => .one (hidden ch) (if ch = backquote then .code else .raw) escaped
  | .quoted | .rune =>
    if ch = '\\' ∧ ¬ escaped then .one (hidden ch) state true
    else if (ch = '"' ∨ ch = '\'') ∧ ¬ escaped then .one (hidden ch) .code escaped
    else .one (hidden ch) state false

def goLoop : GoState → Bool → Text → Text
  | _, _, [] => []
  | state, escaped, [ch] =>
    match goMove state escaped ch none with
    | .one shown _ _ => [shown]
    | .two _ _ => [' ', ' ']
  | state, escaped, ch :: next :: rest =>
    match goMove state escaped ch (some next) with
    | .one shown state escaped => shown :: goLoop state escaped (next :: rest)
    | .two state escaped => ' ' :: ' ' :: goLoop state escaped rest

def goCodeLines (source : Text) : List Text := splitlines (goLoop .code false source)

/-- A text as it is read from a file: every line end becomes a line feed. -/
def readText : Text → Text
  | [] => []
  | ch :: rest =>
    if ch = '\r' then if rest.head? = some '\n' then readText rest else '\n' :: readText rest
    else ch :: readText rest

def goFileLines (content : Text) : List Text := goCodeLines (readText content)

def delta (line : Text) : Int := line.count '{' - line.count '}'

def braceDepth (lines : List Text) (n : Nat) : Int := ((lines.take n).map delta).sum

section

variable {state state' : GoState} {escaped escaped' : Bool} {ch next shown : Char} {rest tail : Text}

theorem goLoop_nil (state : GoState) (escaped : Bool) : goLoop state escaped [] = [] := by
  cases state <;> rfl

theorem goLoop_one (h : goMove state escaped ch rest.head? = .one shown state' escaped') :
    goLoop state escaped (ch :: rest) = shown :: goLoop state' escaped' rest := by
  cases rest with
  | nil =>
    change goMove state escaped ch none = _ at h
    have hloop : goLoop state escaped [ch] = [shown] := by rw [goLoop, h]
    rw [hloop, goLoop_nil]
  | cons next rest =>
    change goMove state escaped ch (some next) = _ at h
    rw [goLoop, h]

theorem goLoop_two (h : goMove state escaped ch (some next) = .two state' escaped') :
    goLoop state escaped (ch :: next :: rest) = ' ' :: ' ' :: goLoop state' escaped' rest := by
  rw [goLoop, h]

theorem goLoop_code (hcode : isCode ch = true) (hslash : ch = '/' → tail.head? ≠ some '/' ∧ tail.head? ≠ some '*') :
    goLoop .code false (ch :: tail) = ch :: goLoop .code false tail := by
  refine goLoop_one ?_
  unfold isCode at hcode
  simp only [contains_eq_mem, mem_cons, not_mem_nil, or_false, Bool.and_eq_true, Bool.not_eq_true',
    decide_eq_false_iff_not, not_or] at hcode
  obtain ⟨⟨hquote, hrune, hraw⟩, -⟩ := hcode
  simp only [goMove]
  rw [if_neg fun h => (hslash h.1).1 h.2, if_neg fun h => (hslash h.1).2 h.2, if_neg hquote, if_neg hrune, if_neg hraw]

variable {body : Text}

theorem goLoop_lineComment (hbody : '\n' ∉ body) (tail : Text) :
    goLoop .lineComment false (body ++ tail) = body.map hidden ++ goLoop .lineComment false tail := by
  induction body with
  | nil => rfl
  | cons ch body ih =>
    rw [mem_cons, not_or] at hbody
    have hmove : goMove .lineComment false ch (body ++ tail).head? = .one (hidden ch) .lineComment false := by
      simp only [goMove, if_neg (Ne.symm hbody.1)]
    rw [cons_append, goLoop_one hmove, ih hbody.2]
    rfl

theorem goLoop_lineEnd (h : tail.head? = none ∨ tail.head? = some '\n') :
    goLoop .lineComment false tail = goLoop .code false tail := by
  cases tail with
  | nil => rfl
  | cons ch tail =>
    have hch : ch = '\n' := by
      rcases h with h | h
      · cases h
      · exact Option.some.inj h
    subst hch
    have hcomment : goMove .lineComment false '\n' tail.head? = .one '\n' .code false := rfl
    have hcode : goMove .code false '\n' tail.head? = .one '\n' .code false := by
      simp only [goMove]
      rw [if_neg fun h => absurd h.1 (by decide), if_neg fun h => absurd h.1 (by decide)]
      rfl
    rw [goLoop_one hcomment, goLoop_one hcode]

theorem goLoop_blockComment (hbody : unclosed body = true) (tail : Text) :
    goLoop .blockComment false (body ++ '*' :: '/' :: tail) = body.map hidden ++ ' ' :: ' ' :: goLoop .code false tail := by
  induction body with
  | nil => exact goLoop_two rfl
  | cons ch body ih =>
    rw [unclosed, Bool.and_eq_true, Bool.not_eq_true', Bool.and_eq_false_imp] at hbody
    have hnext : ¬ (ch = '*' ∧ (body ++ '*' :: '/' :: tail).head? = some '/') := by
      rintro ⟨rfl, hhead⟩
      have hnot := hbody.1 rfl
      cases body with
      | nil => cases hhead
      | cons next body =>
        cases hhead
        simp at hnot
    have hmove : goMove .blockComment false ch (body ++ '*' :: '/' :: tail).head? = .one (hidden ch) .blockComment false := by
      simp only [goMove, if_neg hnext]
    rw [cons_append, goLoop_one hmove, ih hbody.2]
    rfl

theorem goLoop_raw (hbody : backquote ∉ body) (tail : Text) :
    goLoop .raw false (body ++ backquote :: tail) = body.map hidden ++ ' ' :: goLoop .code false tail := by
  induction body with
  | nil => exact goLoop_one rfl
  | cons ch body ih =>
    rw [mem_cons, not_or] at hbody
    have hmove : goMove .raw false ch (body ++ backquote :: tail).head? = .one (hidden ch) .raw false := by
      simp only [goMove, if_neg (Ne.symm hbody.1)]
    rw [cons_append, goLoop_one hmove, ih hbody.2]
    rfl

theorem goLoop_digits (hstate : state = .quoted ∨ state = .rune)
    (hbody : ∀ ch ∈ body, ch ≠ '"' ∧ ch ≠ '\'' ∧ ch ≠ '\\') (tail : Text) :
    goLoop state false (body ++ tail) = body.map hidden ++ goLoop state false tail := by
  induction body with
  | nil => rfl
  | cons ch body ih =>
    rw [forall_mem_cons] at hbody
    obtain ⟨⟨hquote, hrune, hslash⟩, hbody⟩ := hbody
    have hmove : goMove state false ch (body ++ tail).head? = .one (hidden ch) state false := by
      rcases hstate with rfl | rfl <;> simp [goMove, hquote, hrune, hslash]
    rw [cons_append, goLoop_one hmove, ih hbody]
    rfl

theorem goLoop_escaped (hstate : state = .quoted ∨ state = .rune) (first : Char) (tail : Text) :
    goLoop state false ('\\' :: first :: tail) = ' ' :: hidden first :: goLoop state false tail := by
  have hslash : goMove state false '\\' (first :: tail).head? = .one ' ' state true := by
    rcases hstate with rfl | rfl <;> rfl
  have hfirst : goMove state true first tail.head? = .one (hidden first) state false := by
    rcases hstate with rfl | rfl <;> simp [goMove]
  rw [goLoop_one hslash, goLoop_one hfirst]

theorem goLoop_close (hstate : state = .quoted ∨ state = .rune) {quote : Char} (hquote : quote = '"' ∨ quote = '\'')
    (tail : Text) : goLoop state false (quote :: tail) = ' ' :: goLoop .code false tail := by
  have hmove : goMove state false quote tail.head? = .one ' ' .code false := by
    rcases hstate with rfl | rfl <;> rcases hquote with rfl | rfl <;> rfl
  exact goLoop_one hmove

end

section

variable {state : GoState}

theorem ne_of_isHex {ch : Char} (h : isHex ch = true) : ch ≠ '"' ∧ ch ≠ '\'' ∧ ch ≠ '\\' ∧ ch ≠ '\r' := by
  refine ⟨?_, ?_, ?_, ?_⟩ <;> rintro rfl <;> cases h

theorem isHex_of_isOctal {ch : Char} (h : isOctal ch = true) : isHex ch = true := by
  unfold isOctal at h
  unfold isHex
  rw [Bool.and_eq_true, decide_eq_true_iff, decide_eq_true_iff] at h
  have hnine : '7' ≤ '9' := by decide
  have hle : ch ≤ '9' := Char.le_trans h.2 hnine
  simp [h.1, hle]

variable {quote : Char}

theorem isHex_of_isEscape {first : Char} {rest : Text} (h : isEscape quote first rest = true) :
    ∀ ch ∈ rest, isHex ch = true := by
  unfold isEscape at h
  simp only [Bool.or_eq_true, Bool.and_eq_true, decide_eq_true_iff, all_eq_true] at h
  rcases h with (((h | h) | h) | h) | h
  · rw [h.1]
    exact fun ch hch => absurd hch not_mem_nil
  · exact fun ch hch => isHex_of_isOctal (h.2 ch hch)
  · exact h.2
  · exact h.2
  · exact h.2

theorem goLoop_element (hstate : state = .quoted ∨ state = .rune) {element : Element}
    (hvalid : element.valid quote = true) (hquotes : element ≠ .plain '"' ∧ element ≠ .plain '\'') (tail : Text) :
    goLoop state false (element.text ++ tail) = element.text.map hidden ++ goLoop state false tail := by
  cases element with
  | plain ch =>
    refine goLoop_digits hstate ?_ tail
    simp only [Element.valid, Bool.and_eq_true, decide_eq_true_iff] at hvalid
    change ∀ other ∈ [ch], _
    rw [forall_mem_singleton]
    exact ⟨fun h => hquotes.1 (by rw [h]), fun h => hquotes.2 (by rw [h]), hvalid.1.2⟩
  | escape first rest =>
    have hrest : ∀ ch ∈ rest, ch ≠ '"' ∧ ch ≠ '\'' ∧ ch ≠ '\\' := by
      intro ch hch
      have hne := ne_of_isHex (isHex_of_isEscape hvalid ch hch)
      exact ⟨hne.1, hne.2.1, hne.2.2.1⟩
    change goLoop state false ('\\' :: first :: (rest ++ tail)) = _
    rw [goLoop_escaped hstate, goLoop_digits hstate hrest]
    rfl

theorem goLoop_elements (hstate : state = .quoted ∨ state = .rune) {elements : List Element}
    (hvalid : ∀ element ∈ elements, element.valid quote = true)
    (hquotes : ∀ element ∈ elements, element ≠ .plain '"' ∧ element ≠ .plain '\'') (tail : Text) :
    goLoop state false (elements.flatMap Element.text ++ tail) =
      (elements.flatMap Element.text).map hidden ++ goLoop state false tail := by
  induction elements with
  | nil => rfl
  | cons element elements ih =>
    rw [forall_mem_cons] at hvalid hquotes
    rw [flatMap_cons, append_assoc, goLoop_element hstate hvalid.1 hquotes.1, ih hvalid.2 hquotes.2,
      map_append, append_assoc]

theorem newline_not_mem (hquote : quote ≠ '\n') {element : Element} (hvalid : element.valid quote = true) :
    '\n' ∉ element.text := by
  cases element with
  | plain ch =>
    simp only [Element.valid, Bool.and_eq_true, decide_eq_true_iff] at hvalid
    exact fun h => hvalid.2 (mem_singleton.mp h).symm
  | escape first rest =>
    have hfirst : first ≠ '\n' := by
      rintro rfl
      simp only [Element.valid, isEscape, Bool.or_eq_true, Bool.and_eq_true, decide_eq_true_iff, contains_eq_mem,
        mem_cons, not_mem_nil, or_false] at hvalid
      rcases hvalid with (((⟨-, h⟩ | ⟨⟨h, -⟩, -⟩) | ⟨⟨h, -⟩, -⟩) | ⟨⟨h, -⟩, -⟩) | ⟨⟨h, -⟩, -⟩
      · rcases h with h | h | h | h | h | h | h | h | h
        all_goals first
          | exact hquote h.symm
          | exact absurd h (by decide)
      · exact absurd h (by decide)
      · exact absurd h (by decide)
      · exact absurd h (by decide)
      · exact absurd h (by decide)
    intro h
    rcases mem_cons.mp h with h | h
    · cases h
    rcases mem_cons.mp h with h | h
    · exact hfirst h.symm
    · cases isHex_of_isEscape hvalid '\n' h

theorem return_not_mem {body tail : Text} (hquote : quote ≠ '\n') (hbody : '\n' ∉ body)
    (h : paired (body ++ quote :: tail) = true) : '\r' ∉ body := by
  induction body with
  | nil => exact not_mem_nil
  | cons ch body ih =>
    rw [mem_cons, not_or] at hbody
    rw [cons_append, paired_cons] at h
    rw [mem_cons, not_or]
    refine ⟨fun hch => ?_, ih hbody.2 h.2⟩
    have hnext := h.1 hch.symm
    cases body with
    | nil => exact hquote (Option.some.inj hnext)
    | cons next body => exact hbody.2 (by rw [← Option.some.inj hnext]; exact mem_cons_self)

end

/-- A literal with a quote of the other kind in it. -/
def mixed : Piece → Bool
  | .interpreted elements => elements.contains (.plain '\'')
  | .rune element => element = .plain '"'
  | _ => false

theorem strip_eq_self {text : Text} (h : '\r' ∉ text) : strip text = text := by
  unfold strip
  rw [filter_eq_self]
  exact fun ch hch => decide_eq_true fun heq => h (heq ▸ hch)

theorem mem_strip {text : Text} {ch : Char} (h : ch ∈ strip text) : ch ∈ text := mem_of_mem_filter h

theorem strip_map_blank (text : Text) : strip (text.map blank) = (strip text).map hidden := by
  induction text with
  | nil => rfl
  | cons ch text ih =>
    by_cases hch : ch = '\r'
    · subst hch
      rw [map_cons, strip_cons_return]
      change strip ('\r' :: text.map blank) = _
      rw [strip_cons_return, ih]
    · have hblank : blank ch = hidden ch := by
        unfold blank hidden
        simp only [hch, or_false]
        split
        next h => exact h
        next => rfl
      have hne : hidden ch ≠ '\r' := by
        unfold hidden
        split
        next => decide
        next => decide
      rw [map_cons, hblank, strip_cons_of_ne hne, strip_cons_of_ne hch, ih]
      rfl

theorem unclosed_strip {body tail : Text} (hbody : unclosed body = true) (h : paired (body ++ tail) = true)
    (htail : tail.head? ≠ some '/') : unclosed (strip body) = true := by
  induction body with
  | nil => rfl
  | cons ch body ih =>
    rw [unclosed, Bool.and_eq_true, Bool.not_eq_true', Bool.and_eq_false_imp] at hbody
    rw [cons_append, paired_cons] at h
    by_cases hch : ch = '\r'
    · subst hch
      rw [strip_cons_return]
      exact ih hbody.2 h.2
    · rw [strip_cons_of_ne hch, unclosed, Bool.and_eq_true, Bool.not_eq_true', Bool.and_eq_false_imp]
      refine ⟨fun hstar => ?_, ih hbody.2 h.2⟩
      -- a slash that is first without the carriage returns is first with them
      have hnot := hbody.1 hstar
      rw [decide_eq_false_iff_not] at hnot ⊢
      intro hhead
      have hfirst : (strip (body ++ tail)).head? = some '/' := by
        rw [strip_append, head?_append, hhead]
        rfl
      have hraw := head_strip h.2 hfirst (by decide)
      cases body with
      | nil => exact htail hraw
      | cons next body => exact hnot hraw

theorem goLoop_literal {quote : Char} (hquote : quote = '"' ∨ quote = '\'') {elements : List Element}
    (hvalid : ∀ element ∈ elements, element.valid quote = true)
    (hquotes : ∀ element ∈ elements, element ≠ .plain '"' ∧ element ≠ .plain '\'') {body rest : Text}
    (hbody : body = elements.flatMap Element.text) (h : paired (quote :: (body ++ [quote]) ++ rest) = true) :
    goLoop .code false (strip (quote :: (body ++ [quote])) ++ strip rest) =
      strip ((quote :: (body ++ [quote])).map blank) ++ goLoop .code false (strip rest) := by
  have hline : quote ≠ '\n' ∧ quote ≠ '\r' := by
    rcases hquote with rfl | rfl <;> decide
  have hreturn : '\r' ∉ body := by
    have hnewline : '\n' ∉ body := by
      rw [hbody]
      intro hmem
      obtain ⟨element, helement, hin⟩ := mem_flatMap.mp hmem
      exact newline_not_mem hline.1 (hvalid element helement) hin
    have hinner : paired (body ++ quote :: rest) = true := by
      have hopen : paired (quote :: (body ++ [quote] ++ rest)) = true := h
      rw [append_assoc] at hopen
      exact (paired_cons.mp hopen).2
    exact return_not_mem hline.1 hnewline hinner
  have hwhole : strip (quote :: (body ++ [quote])) = quote :: (body ++ [quote]) := by
    refine strip_eq_self fun hmem => ?_
    rcases mem_cons.mp hmem with heq | hmem
    · exact hline.2 heq.symm
    · rcases mem_append.mp hmem with hmem | hmem
      · exact hreturn hmem
      · exact hline.2 (mem_singleton.mp hmem).symm
  obtain ⟨state, hstate, hopen⟩ : ∃ state, (state = .quoted ∨ state = .rune) ∧ ∀ following,
      goMove .code false quote following = .one ' ' state false := by
    rcases hquote with rfl | rfl
    · exact ⟨.quoted, .inl rfl, fun following => rfl⟩
    · exact ⟨.rune, .inr rfl, fun following => rfl⟩
  have hhidden : hidden quote = ' ' := if_neg hline.1
  rw [strip_map_blank, hwhole, cons_append, goLoop_one (hopen _), append_assoc, hbody,
    goLoop_elements hstate hvalid hquotes, singleton_append, goLoop_close hstate hquote, map_cons,
    map_append, hhidden, cons_append, append_assoc]
  change _ = ' ' :: (_ ++ (hidden quote :: goLoop .code false (strip rest)))
  rw [hhidden]

/-- The loop goes over a piece and blanks it, unless it is a character of code. -/
theorem goLoop_piece {piece : Piece} {rest : Text} (hvalid : piece.valid rest.head? = true) (hmixed : mixed piece = false)
    (h : paired (piece.text ++ rest) = true) :
    goLoop .code false (strip piece.text ++ strip rest) = strip piece.masked ++ goLoop .code false (strip rest) := by
  have hrest : paired rest = true := paired_append_right h
  cases piece with
  | code ch =>
    rw [Piece.valid, Bool.and_eq_true, Bool.not_eq_true', Bool.and_eq_false_imp] at hvalid
    change goLoop .code false (strip [ch] ++ strip rest) = strip [ch] ++ _
    by_cases hch : ch = '\r'
    · subst hch
      rfl
    · rw [strip_cons_of_ne hch]
      refine goLoop_code hvalid.1 fun hslash => ?_
      have hnot := hvalid.2 (decide_eq_true hslash)
      simp only [Bool.or_eq_false_iff, decide_eq_false_iff_not] at hnot
      exact ⟨fun hhead => hnot.1 (head_strip hrest hhead (by decide)), fun hhead => hnot.2 (head_strip hrest hhead (by decide))⟩
  | lineComment body =>
    simp only [Piece.valid, Bool.and_eq_true, Bool.not_eq_true', Bool.or_eq_true, decide_eq_true_iff,
      contains_eq_mem, decide_eq_false_iff_not] at hvalid
    have hbody : '\n' ∉ strip body := fun hmem => hvalid.1 (mem_strip hmem)
    have htail : (strip rest).head? = none ∨ (strip rest).head? = some '\n' := by
      cases rest with
      | nil => exact .inl rfl
      | cons ch rest =>
        rcases hvalid.2 with hnone | hsome
        · cases hnone
        · cases hsome
          exact .inr rfl
    change goLoop .code false ('/' :: '/' :: (strip body ++ strip rest)) = strip (('/' :: '/' :: body).map blank) ++ _
    rw [goLoop_two rfl, goLoop_lineComment hbody, goLoop_lineEnd htail, strip_map_blank]
    rfl
  | blockComment body =>
    have hbody : unclosed (strip body) = true := by
      have hinner : paired (body ++ '*' :: '/' :: rest) = true := by
        have hopen : paired ('/' :: '*' :: (body ++ ['*', '/'] ++ rest)) = true := h
        rw [append_assoc] at hopen
        exact (paired_cons.mp (paired_cons.mp hopen).2).2
      exact unclosed_strip hvalid hinner fun hhead => absurd (Option.some.inj hhead) (by decide)
    change goLoop .code false ('/' :: '*' :: (strip (body ++ ['*', '/']) ++ strip rest)) =
      strip (('/' :: '*' :: (body ++ ['*', '/'])).map blank) ++ _
    rw [goLoop_two rfl, strip_append, append_assoc, strip_map_blank]
    change ' ' :: ' ' :: goLoop .blockComment false (strip body ++ '*' :: '/' :: strip rest) =
      ' ' :: ' ' :: ((strip (body ++ ['*', '/'])).map hidden ++ _)
    rw [goLoop_blockComment hbody, strip_append, map_append, append_assoc]
    rfl
  | raw body =>
    simp only [Piece.valid, Bool.not_eq_true', contains_eq_mem, decide_eq_false_iff_not] at hvalid
    have hbody : backquote ∉ strip body := fun hmem => hvalid (mem_strip hmem)
    have hopen : goMove .code false backquote (strip (body ++ [backquote]) ++ strip rest).head? = .one ' ' .raw false := rfl
    change goLoop .code false (backquote :: (strip (body ++ [backquote]) ++ strip rest)) =
      strip ((backquote :: (body ++ [backquote])).map blank) ++ _
    rw [goLoop_one hopen, strip_append, append_assoc, strip_map_blank]
    change ' ' :: goLoop .raw false (strip body ++ backquote :: strip rest) =
      ' ' :: ((strip (body ++ [backquote])).map hidden ++ _)
    rw [goLoop_raw hbody, strip_append, map_append, append_assoc]
    rfl
  | interpreted elements =>
    have hall : ∀ element ∈ elements, element.valid '"' = true := all_eq_true.mp hvalid
    simp only [mixed, contains_eq_mem, decide_eq_false_iff_not] at hmixed
    refine goLoop_literal (.inl rfl) hall (fun element helement => ⟨?_, ?_⟩) rfl h
    · rintro rfl
      cases hall _ helement
    · rintro rfl
      exact hmixed helement
  | rune element =>
    have hone : ∀ other ∈ [element], other.valid '\'' = true := forall_mem_singleton.mpr hvalid
    simp only [mixed, decide_eq_false_iff_not] at hmixed
    refine goLoop_literal (.inr rfl) hone ?_ (append_nil _).symm h
    rw [forall_mem_singleton]
    refine ⟨hmixed, ?_⟩
    rintro rfl
    cases hvalid

theorem goLoop_spell {pieces : List Piece} (hlexes : lexes pieces = true) (hmixed : ∀ piece ∈ pieces, mixed piece = false)
    (h : paired (spell pieces) = true) : goLoop .code false (strip (spell pieces)) = strip (masked pieces) := by
  induction pieces with
  | nil => rfl
  | cons piece rest ih =>
    rw [lexes_cons] at hlexes
    rw [forall_mem_cons] at hmixed
    rw [spell_cons] at h
    rw [spell_cons, masked_cons, strip_append, strip_append, goLoop_piece hlexes.1 hmixed.1 h,
      ih hlexes.2 hmixed.2 (paired_append_right h)]

section

variable {text : Text}

theorem readText_eq (h : paired text = true) : readText text = strip text := by
  induction text with
  | nil => rfl
  | cons ch rest ih =>
    obtain ⟨hnext, hrest⟩ := paired_cons.mp h
    rw [readText]
    split
    next hch =>
      subst hch
      rw [if_pos (hnext rfl), strip_cons_return, ih hrest]
    next hch => rw [strip_cons_of_ne hch, ih hrest]

def Seen (ch shown : Char) : Prop := shown = ch ∨ ch ≠ '\n' ∧ ch ≠ '\r' ∧ shown = ' '

theorem seen_masked (pieces : List Piece) : List.Forall₂ Seen (spell pieces) (masked pieces) := by
  have hblank : ∀ text : Text, List.Forall₂ Seen text (text.map blank) := by
    intro text
    rw [forall₂_map_right_iff]
    refine forall₂_same.mpr fun ch _ => ?_
    unfold blank Seen
    split
    next => exact .inl rfl
    next h =>
      rw [not_or] at h
      exact .inr ⟨h.1, h.2, rfl⟩
  induction pieces with
  | nil => exact .nil
  | cons piece rest ih =>
    rw [spell_cons, masked_cons]
    refine rel_append ?_ ih
    cases piece with
    | code ch => exact .cons (.inl rfl) .nil
    | lineComment body => exact hblank _
    | blockComment body => exact hblank _
    | interpreted elements => exact hblank _
    | raw body => exact hblank _
    | rune element => exact hblank _

theorem paired_of_seen {shown : Text} (h : List.Forall₂ Seen text shown) (hpaired : paired text = true) :
    paired shown = true := by
  induction h with
  | nil => rfl
  | @cons ch other rest others hch hrest ih =>
    obtain ⟨hnext, hpaired⟩ := paired_cons.mp hpaired
    refine paired_cons.mpr ⟨fun hreturn => ?_, ih hpaired⟩
    have hfirst : ch = '\r' := by
      rcases hch with rfl | ⟨-, -, rfl⟩
      · exact hreturn
      · exact absurd hreturn (by decide)
    cases hrest with
    | nil => cases hnext hfirst
    | cons hsecond _ =>
      cases hnext hfirst
      rcases hsecond with rfl | ⟨hne, -⟩
      · rfl
      · exact absurd rfl hne

theorem splitlinesFrom_eq (h : ∀ ch ∈ text, ch ≠ '\r' ∧ (isLineEnd ch = true → ch = '\n')) (line : Text) :
    splitlinesFrom line text = fileLinesFrom line text := by
  induction text generalizing line with
  | nil => rfl
  | cons ch rest ih =>
    rw [forall_mem_cons] at h
    obtain ⟨⟨hreturn, hend⟩, hrest⟩ := h
    have hstep : splitlinesFrom line (ch :: rest) =
        if ch = '\r' ∨ isLineEnd ch then line.reverse :: splitlinesFrom [] rest else splitlinesFrom (ch :: line) rest := by
      rw [splitlinesFrom]
      rintro rest' rfl -
      exact hreturn rfl
    rw [hstep, fileLinesFrom]
    by_cases hch : ch = '\n'
    · subst hch
      rw [if_pos (.inr rfl), if_pos rfl, ih hrest]
    · rw [if_neg fun hboth => hboth.elim hreturn fun hlast => hch (hend hlast), if_neg hch,
        if_neg fun hboth => hreturn hboth.1, ih hrest]

theorem lineEnd_masked {pieces : List Piece} (hlexes : lexes pieces = true) {ch : Char} (hch : ch ∈ masked pieces) :
    isLineEnd ch = true → ch = '\n' := by
  have hblank : ∀ {text : Text}, ch ∈ text.map blank → ch = '\n' ∨ ch = '\r' ∨ ch = ' ' := by
    intro text hmem
    obtain ⟨other, -, rfl⟩ := mem_map.mp hmem
    unfold blank
    split
    next h => exact h.imp_right .inl
    next => exact .inr (.inr rfl)
  have hclosed : ch = '\n' ∨ ch = '\r' ∨ ch = ' ' → isLineEnd ch = true → ch = '\n' := by
    rintro (rfl | rfl | rfl) hend
    · rfl
    · exact absurd hend (by decide)
    · exact absurd hend (by decide)
  induction pieces with
  | nil => cases hch
  | cons piece rest ih =>
    rw [lexes_cons] at hlexes
    rw [masked_cons] at hch
    rcases mem_append.mp hch with hch | hch
    · cases piece with
      | code other =>
        cases mem_singleton.mp hch
        intro hend
        have hcode := hlexes.1
        simp only [Piece.valid, isCode, Bool.and_eq_true, Bool.not_eq_true', contains_eq_mem,
          decide_eq_false_iff_not] at hcode
        have hnot := hcode.1.2
        unfold isLineEnd at hend
        simp only [mem_cons, not_mem_nil, or_false, not_or, decide_eq_true_iff] at hnot hend
        have hten : ch.toNat = 10 := by omega
        exact Char.toNat_inj.mp hten
      | lineComment body => exact hclosed (hblank hch)
      | blockComment body => exact hclosed (hblank hch)
      | interpreted elements => exact hclosed (hblank hch)
      | raw body => exact hclosed (hblank hch)
      | rune element => exact hclosed (hblank hch)
    · exact ih hlexes.2 hch

theorem goFileLines_eq {pieces : List Piece} (hlexes : lexes pieces = true) (hmixed : ∀ piece ∈ pieces, mixed piece = false)
    (h : paired (spell pieces) = true) : goFileLines (spell pieces) = fileLines (masked pieces) := by
  have hmasked : paired (masked pieces) = true := paired_of_seen (seen_masked pieces) h
  have hchars : ∀ ch ∈ strip (masked pieces), ch ≠ '\r' ∧ (isLineEnd ch = true → ch = '\n') := by
    intro ch hch
    have hkept := (mem_filter.mp hch).2
    exact ⟨of_decide_eq_true hkept, lineEnd_masked hlexes (mem_strip hch)⟩
  unfold goFileLines goCodeLines License.splitlines fileLines
  rw [readText_eq h, goLoop_spell hlexes hmixed h, splitlinesFrom_eq hchars, fileLinesFrom_strip hmasked]

end

def counts (ch : Char) : Bool := ch = '{' || ch = '}' || ch = '\n'

def braces : Piece → Text
  | .code ch => [ch].filter counts
  | piece => piece.text.filter fun ch => ch = '\n'

def tokenLines (pieces : List Piece) : List Text := (pieces.flatMap braces).splitOn '\n'

theorem filter_masked (pieces : List Piece) : (masked pieces).filter counts = pieces.flatMap braces := by
  have hblank : ∀ text : Text, (text.map blank).filter counts = text.filter fun ch => ch = '\n' := by
    intro text
    induction text with
    | nil => rfl
    | cons ch text ih =>
      rw [map_cons, filter_cons, filter_cons, ih]
      by_cases hnewline : ch = '\n'
      · subst hnewline
        rfl
      · have hnot : counts (blank ch) = false := by
          unfold blank
          split
          next hend =>
            rw [hend.resolve_left hnewline]
            rfl
          next => rfl
        rw [hnot, decide_eq_false hnewline]
        rfl
  induction pieces with
  | nil => rfl
  | cons piece rest ih =>
    rw [masked_cons, filter_append, ih, flatMap_cons]
    cases piece with
    | code ch => rfl
    | lineComment body => exact congrArg (· ++ rest.flatMap braces) (hblank _)
    | blockComment body => exact congrArg (· ++ rest.flatMap braces) (hblank _)
    | interpreted elements => exact congrArg (· ++ rest.flatMap braces) (hblank _)
    | raw body => exact congrArg (· ++ rest.flatMap braces) (hblank _)
    | rune element => exact congrArg (· ++ rest.flatMap braces) (hblank _)

theorem delta_filter (line : Text) : delta (line.filter counts) = delta line := by
  unfold delta
  rw [count_filter rfl, count_filter rfl]

theorem braceDepth_cons (line : Text) (lines : List Text) (n : Nat) :
    braceDepth (line :: lines) (n + 1) = delta line + braceDepth lines n := by
  unfold braceDepth
  rw [take_succ_cons, map_cons, sum_cons]

theorem braceDepth_map_filter (lines : List Text) (n : Nat) :
    braceDepth (lines.map fun line => line.filter counts) n = braceDepth lines n := by
  induction lines generalizing n with
  | nil => rfl
  | cons line lines ih =>
    cases n with
    | zero => rfl
    | succ n => rw [map_cons, braceDepth_cons, braceDepth_cons, delta_filter, ih]

theorem splitOn_newline (text : Text) : ('\n' :: text).splitOn '\n' = [] :: text.splitOn '\n' := by
  rw [splitOn_cons_eq_if_modifyHead]
  rfl

theorem splitOn_other {ch : Char} (h : ch ≠ '\n') (text : Text) :
    (ch :: text).splitOn '\n' = (text.splitOn '\n').modifyHead (ch :: ·) := by
  rw [splitOn_cons_eq_if_modifyHead, if_neg]
  simpa using h

theorem splitOn_filter (text : Text) :
    (text.filter counts).splitOn '\n' = (text.splitOn '\n').map fun line => line.filter counts := by
  induction text with
  | nil => rfl
  | cons ch text ih =>
    by_cases hnewline : ch = '\n'
    · subst hnewline
      rw [splitOn_newline, filter_cons_of_pos (by decide), splitOn_newline, ih]
      rfl
    · obtain ⟨first, others, hsplit⟩ := exists_cons_of_ne_nil (splitOn_ne_nil '\n' text)
      rw [splitOn_other hnewline, hsplit]
      rw [hsplit] at ih
      by_cases hcounts : counts ch = true
      · rw [filter_cons_of_pos hcounts, splitOn_other hnewline, ih]
        change _ = (ch :: first).filter counts :: _
        rw [filter_cons_of_pos hcounts]
        rfl
      · rw [filter_cons_of_neg hcounts, ih]
        change _ = (ch :: first).filter counts :: _
        rw [filter_cons_of_neg hcounts]
        rfl

/-- An empty line at the end of a file changes no depth. -/
theorem braceDepth_fileLinesFrom {text : Text} (h : '\r' ∉ text) (line : Text) (n : Nat) :
    braceDepth (fileLinesFrom line text) n = braceDepth ((text.splitOn '\n').modifyHead (line.reverse ++ ·)) n := by
  induction text generalizing line n with
  | nil =>
    rw [fileLinesFrom]
    split
    next hline =>
      subst hline
      cases n with
      | zero => rfl
      | succ n =>
        change _ = braceDepth ([] :: []) (n + 1)
        rw [braceDepth_cons]
        unfold braceDepth
        rw [take_nil, take_nil]
        rfl
    next =>
      change _ = braceDepth [line.reverse ++ []] n
      rw [append_nil]
  | cons ch rest ih =>
    rw [mem_cons, not_or] at h
    obtain ⟨first, others, hsplit⟩ := exists_cons_of_ne_nil (splitOn_ne_nil '\n' rest)
    by_cases hnewline : ch = '\n'
    · subst hnewline
      rw [fileLinesFrom, if_pos rfl, splitOn_newline]
      cases n with
      | zero => rfl
      | succ n =>
        change _ = braceDepth ((line.reverse ++ []) :: rest.splitOn '\n') (n + 1)
        rw [braceDepth_cons, braceDepth_cons, append_nil, ih h.2, hsplit]
        rfl
    · rw [fileLinesFrom, if_neg hnewline, if_neg fun hboth => h.1 hboth.1.symm, splitOn_other hnewline, ih h.2, hsplit]
      simp only [modifyHead_cons, reverse_cons, append_assoc, singleton_append]

theorem braceDepth_fileLines {pieces : List Piece} (h : paired (masked pieces) = true) (n : Nat) :
    braceDepth (fileLines (masked pieces)) n = braceDepth (tokenLines pieces) n := by
  have hreturn : '\r' ∉ strip (masked pieces) := fun hmem => of_decide_eq_true (mem_filter.mp hmem).2 rfl
  have hkept : (strip (masked pieces)).filter counts = (masked pieces).filter counts := by
    unfold strip
    rw [filter_filter]
    refine filter_congr fun ch _ => ?_
    by_cases hch : ch = '\r'
    · subst hch
      rfl
    · rw [decide_eq_true hch, Bool.and_true]
  unfold fileLines tokenLines
  rw [← fileLinesFrom_strip h, braceDepth_fileLinesFrom hreturn, ← filter_masked, ← hkept, splitOn_filter,
    braceDepth_map_filter]
  obtain ⟨first, others, hsplit⟩ := exists_cons_of_ne_nil (splitOn_ne_nil '\n' (strip (masked pieces)))
  rw [hsplit]
  rfl

/-- A file that has no lone carriage return, no apostrophe in an interpreted string and no double quote as a rune is read
with exactly its comments and literals blanked, and with the depth of braces that its tokens have. -/
theorem goFileLines_masked {pieces : List Piece} (hlexes : lexes pieces = true)
    (hmixed : ∀ piece ∈ pieces, mixed piece = false) (hpaired : paired (spell pieces) = true) :
    goFileLines (spell pieces) = fileLines (masked pieces) ∧
      ∀ n, braceDepth (goFileLines (spell pieces)) n = braceDepth (tokenLines pieces) n := by
  have hlines := goFileLines_eq hlexes hmixed hpaired
  refine ⟨hlines, fun n => ?_⟩
  rw [hlines]
  exact braceDepth_fileLines (paired_of_seen (seen_masked pieces) hpaired) n

def samplePieces : List Piece :=
  [.code 'x', .interpreted [.plain '{', .escape '"' []], .lineComment ['}'], .code '\n', .rune (.escape '\'' [])]

theorem goFileLines_masked_sample :
    goFileLines (spell samplePieces) = [['x', ' ', ' ', ' ', ' ', ' ', ' ', ' ', ' '], [' ', ' ', ' ', ' ']] :=
  (@goFileLines_masked samplePieces (by decide) (by decide) (by decide)).1

/-- An apostrophe ends the string it stands in, and a brace behind it is taken for code. -/
theorem goFileLines_apostrophe : lexes [.interpreted [.plain '\'', .plain '{']] = true ∧
    goFileLines (spell [.interpreted [.plain '\'', .plain '{']]) ≠
      fileLines (masked [.interpreted [.plain '\'', .plain '{']]) ∧
    braceDepth (goFileLines (spell [.interpreted [.plain '\'', .plain '{']])) 1 ≠
      braceDepth (tokenLines [.interpreted [.plain '\'', .plain '{']]) 1 := by
  decide

end Leitir.Api
