import Leitir.LineCut
import Leitir.PortContract

namespace Leitir.Port

open List ExceptRun LineCut

open Json (Text)
open License (sha isDigest)
open GoLexical (Piece Element spell spell_append lexes isCode Commentary)

def plainCode (ch : Char) : Bool := isCode ch && ch ≠ '/'

def codePieces (text : Text) : List Piece := text.map Piece.code

def Closed (piece : Piece) : Prop := ∀ next, piece.valid next = true

theorem spell_codePieces (text : Text) : spell (codePieces text) = text := by
  induction text with
  | nil => rfl
  | cons ch text ih =>
    change ch :: spell (codePieces text) = _
    rw [ih]

theorem closed_codePieces {text : Text} (h : text.all plainCode = true) : ∀ piece ∈ codePieces text, Closed piece := by
  intro piece hpiece next
  obtain ⟨ch, hch, rfl⟩ := mem_map.mp hpiece
  have hplain := all_eq_true.mp h ch hch
  rw [plainCode, Bool.and_eq_true, decide_eq_true_iff] at hplain
  rw [Piece.valid, hplain.1, decide_eq_false hplain.2]
  rfl

theorem lexes_append {pieces others : List Piece} (h : ∀ piece ∈ pieces, Closed piece) (hothers : lexes others = true) :
    lexes (pieces ++ others) = true := by
  induction pieces with
  | nil => exact hothers
  | cons piece pieces ih =>
    rw [forall_mem_cons] at h
    exact GoLexical.lexes_cons.mpr ⟨h.1 _, ih h.2⟩

theorem all_append {first second : Text} {p : Char → Bool} (hfirst : first.all p = true) (hsecond : second.all p = true) :
    (first ++ second).all p = true := by
  rw [List.all_append, hfirst, hsecond]
  rfl

theorem all_toList {chars : List Char} {p : Char → Bool} (h : chars.all p = true) :
    (String.ofList chars).toList.all p = true := by
  rwa [String.toList_ofList]

theorem plainCode_iff {ch : Char} : plainCode ch = true ↔
    ch.toNat ∉ [34, 39, 96, 47, 0x0b, 0x0c, 0x1c, 0x1d, 0x1e, 0x85, 0x2028, 0x2029] := by
  have hchar : ∀ other : Char, ch = other ↔ ch.toNat = other.toNat := fun other => Char.toNat_inj.symm
  unfold plainCode isCode GoLexical.backquote
  simp only [contains_eq_mem, mem_cons, not_mem_nil, or_false, Bool.and_eq_true, Bool.not_eq_true',
    decide_eq_false_iff_not, decide_eq_true_iff, not_or, hchar, Char.reduceToNat, ne_eq]
  tauto

theorem toNat_of_isLowerAlnum {ch : Char} (h : isLowerAlnum ch = true) :
    97 ≤ ch.toNat ∧ ch.toNat ≤ 122 ∨ 48 ≤ ch.toNat ∧ ch.toNat ≤ 57 := by
  unfold isLowerAlnum at h
  simp only [Bool.or_eq_true, Bool.and_eq_true, decide_eq_true_iff, Char.le_def, UInt32.le_iff_toNat_le] at h
  exact h

section

/-- A character of a string as an element of a literal. -/
def goElement (ch : Char) : Element :=
  if ch = '\\' then .escape '\\' []
  else if ch = '"' then .escape '"' []
  else if ch = '\n' then .escape 'n' []
  else if ch = '\t' then .escape 't' []
  else if ch = '\r' then .escape 'r' []
  else if ch.toNat < 0x20 then .escape 'u' ['0', '0', Json.hexDigit (ch.toNat / 16), Json.hexDigit (ch.toNat % 16)]
  else .plain ch

theorem text_goElement (ch : Char) : (goElement ch).text = goEscaped ch := by
  unfold goElement goEscaped
  repeat' split
  all_goals rfl

theorem isHex_hexDigit : ∀ d < 16, GoLexical.isHex (Json.hexDigit d) = true := by decide

theorem valid_goElement (ch : Char) : (goElement ch).valid '"' = true := by
  unfold goElement
  split
  next => rfl
  next hslash =>
    split
    next => rfl
    next hquote =>
      split
      next => rfl
      next hnewline =>
        split
        next => rfl
        next =>
          split
          next => rfl
          next =>
            split
            next hsmall =>
              have hhigh := isHex_hexDigit (ch.toNat / 16) (by omega)
              have hlow := isHex_hexDigit (ch.toNat % 16) (by omega)
              have hzero : GoLexical.isHex '0' = true := rfl
              simp [Element.valid, GoLexical.isEscape, hhigh, hlow, hzero]
            next =>
              simp only [Element.valid, Bool.and_eq_true, decide_eq_true_iff]
              exact ⟨⟨hquote, hslash⟩, hnewline⟩

theorem spell_string (value : Text) : (Piece.interpreted (value.map goElement)).text = goStringLiteral value := by
  have helements : (value.map goElement).flatMap Element.text = value.flatMap goEscaped := by
    rw [flatMap_map]
    exact flatMap_congr fun ch _ => text_goElement ch
  rw [Piece.text, helements]
  rfl

theorem closed_string (value : Text) : Closed (.interpreted (value.map goElement)) := by
  intro next
  rw [Piece.valid, all_eq_true]
  intro element helement
  obtain ⟨ch, -, rfl⟩ := mem_map.mp helement
  exact valid_goElement ch

theorem plainCode_digit {ch : Char} (h : ch.isDigit = true) : plainCode ch = true := by
  rw [plainCode_iff]
  simp only [Char.isDigit, Bool.and_eq_true, decide_eq_true_iff] at h
  have hlow : 48 ≤ ch.toNat := h.1
  have hhigh : ch.toNat ≤ 57 := h.2
  simp only [mem_cons, not_mem_nil, or_false, not_or]
  omega

theorem plainCode_reprInt (value : Int) : (reprInt value).all plainCode = true := by
  have hdigits : ∀ n, (Nat.toDigits 10 n).all plainCode = true := by
    intro n
    rw [all_eq_true]
    exact fun ch hch => plainCode_digit (Nat.isDigit_of_mem_toDigits (by omega) (by omega) hch)
  cases value with
  | ofNat n => exact hdigits n
  | negSucc n =>
    change (plainCode '-' && _) = true
    rw [hdigits]
    decide

variable {F : Type} (reprFloat : F → Text)

def scalarPieces : PortableScalar F → List Piece
  | .bool value => codePieces (if value then "true".toList else "false".toList)
  | .int value => codePieces (reprInt value.1)
  | .float value => codePieces (reprFloat value)
  | .string value => [.interpreted (value.map goElement)]

def commas : List (List Piece) → List Piece
  | [] => []
  | [first] => first
  | first :: second :: rest => first ++ codePieces [',', ' '] ++ commas (second :: rest)

def literalPieces : PortableValue F → List Piece
  | .scalar value => scalarPieces reprFloat value
  | .list value =>
    codePieces (goType .list (some value.elementKind)) ++ codePieces ['{'] ++
      commas (value.items.map (scalarPieces reprFloat)) ++ codePieces ['}']

theorem spell_commas (items : List (List Piece)) : spell (commas items) = [',', ' '].intercalate (items.map spell) := by
  induction items with
  | nil => rfl
  | cons first rest ih =>
    cases rest with
    | nil => simp [commas, List.intercalate]
    | cons second rest =>
      rw [commas, spell_append, spell_append, ih, spell_codePieces]
      simp [List.intercalate]

theorem closed_commas {items : List (List Piece)} (h : ∀ item ∈ items, ∀ piece ∈ item, Closed piece) :
    ∀ piece ∈ commas items, Closed piece := by
  induction items with
  | nil => exact fun piece hpiece => absurd hpiece not_mem_nil
  | cons first rest ih =>
    rw [forall_mem_cons] at h
    cases rest with
    | nil => exact h.1
    | cons second rest =>
      intro piece hpiece
      rw [commas] at hpiece
      rcases mem_append.mp hpiece with hpiece | hpiece
      · rcases mem_append.mp hpiece with hpiece | hpiece
        · exact h.1 piece hpiece
        · exact closed_codePieces (by decide) piece hpiece
      · exact ih h.2 piece hpiece

theorem spell_scalar (value : PortableScalar F) : spell (scalarPieces reprFloat value) = goScalarLiteral reprFloat value := by
  cases value with
  | bool value => exact spell_codePieces _
  | int value => exact spell_codePieces _
  | float value => exact spell_codePieces _
  | string value =>
    change (Piece.interpreted (value.map goElement)).text ++ [] = _
    rw [append_nil, spell_string]
    rfl

theorem spell_literal (value : PortableValue F) : spell (literalPieces reprFloat value) = goLiteral reprFloat value := by
  cases value with
  | scalar value => exact spell_scalar reprFloat value
  | list value =>
    have hitems : (value.items.map (scalarPieces reprFloat)).map spell = value.items.map (goScalarLiteral reprFloat) := by
      rw [map_map]
      exact map_congr_left fun item _ => spell_scalar reprFloat item
    rw [literalPieces, spell_append, spell_append, spell_append, spell_codePieces, spell_codePieces, spell_codePieces,
      spell_commas, hitems, goLiteral, append_assoc, append_assoc]
    rfl

variable {reprFloat} (hfloat : ∀ value, (reprFloat value).all plainCode = true)
include hfloat

theorem closed_scalar (value : PortableScalar F) : ∀ piece ∈ scalarPieces reprFloat value, Closed piece := by
  cases value with
  | bool value =>
    cases value with
    | true => exact closed_codePieces (all_toList (by decide))
    | false => exact closed_codePieces (all_toList (by decide))
  | int value => exact closed_codePieces (plainCode_reprInt value.1)
  | float value => exact closed_codePieces (hfloat value)
  | string value => exact forall_mem_singleton.mpr (closed_string value)

theorem closed_literal (value : PortableValue F) : ∀ piece ∈ literalPieces reprFloat value, Closed piece := by
  cases value with
  | scalar value => exact closed_scalar hfloat value
  | list value =>
    have htype : (goType .list (some value.elementKind)).all plainCode = true := by
      cases value.elementKind with
      | bool => exact all_toList (by decide)
      | int => exact all_toList (by decide)
      | float => exact all_toList (by decide)
      | string => exact all_toList (by decide)
      | list => rfl
    intro piece hpiece
    rw [literalPieces] at hpiece
    rcases mem_append.mp hpiece with hpiece | hpiece
    · rcases mem_append.mp hpiece with hpiece | hpiece
      · rcases mem_append.mp hpiece with hpiece | hpiece
        · exact closed_codePieces htype piece hpiece
        · exact closed_codePieces (by decide) piece hpiece
      · refine closed_commas ?_ piece hpiece
        intro pieces hpieces
        obtain ⟨item, -, rfl⟩ := mem_map.mp hpieces
        exact closed_scalar hfloat item
    · exact closed_codePieces (by decide) piece hpiece

end

theorem plainCode_of_isLowerAlnum {ch : Char} (h : isLowerAlnum ch = true) :
    plainCode ch = true ∧ plainCode ch.toUpper = true ∧ plainCode ch.toLower = true := by
  have hletters : ∀ k < 26, plainCode (Char.ofNat (97 + k)) = true ∧ plainCode (Char.ofNat (97 + k)).toUpper = true ∧
      plainCode (Char.ofNat (97 + k)).toLower = true := by decide
  have hdigits : ∀ k < 10, plainCode (Char.ofNat (48 + k)) = true ∧ plainCode (Char.ofNat (48 + k)).toUpper = true ∧
      plainCode (Char.ofNat (48 + k)).toLower = true := by decide
  have hrange := toNat_of_isLowerAlnum h
  rw [← Char.ofNat_toNat ch]
  rcases hrange with hrange | hrange
  · have hk : ch.toNat = 97 + (ch.toNat - 97) := by omega
    rw [hk]
    exact hletters _ (by omega)
  · have hk : ch.toNat = 48 + (ch.toNat - 48) := by omega
    rw [hk]
    exact hdigits _ (by omega)

theorem plainCode_capitalize {part : Text} (h : part.all isLowerAlnum = true) : (capitalize part).all plainCode = true := by
  cases part with
  | nil => rfl
  | cons ch rest =>
    rw [all_cons, Bool.and_eq_true] at h
    rw [capitalize, all_cons, (plainCode_of_isLowerAlnum h.1).2.1, Bool.true_and, all_map, all_eq_true]
    exact fun other hother => (plainCode_of_isLowerAlnum (all_eq_true.mp h.2 other hother)).2.2

theorem plainCode_goCaseIdentifier {name : Text} (h : isCaseName name = true) :
    (goCaseIdentifier name).all plainCode = true := by
  unfold isCaseName at h
  rw [Bool.and_eq_true] at h
  rw [goCaseIdentifier, all_flatMap, all_eq_true]
  intro part hpart
  refine plainCode_capitalize (all_eq_true.mpr ?_)
  intro ch hch
  have hchar := all_eq_true.mp h.2 ch (mem_of_mem_splitOn hpart hch)
  rw [Bool.or_eq_true, decide_eq_true_iff] at hchar
  refine hchar.resolve_right ?_
  rintro rfl
  exact not_mem_splitOn name part hpart hch

theorem plainCode_isGoIdentifier {name : Text} (h : isGoIdentifier name = true) : name.all plainCode = true := by
  unfold isGoIdentifier at h
  rw [Bool.and_eq_true] at h
  rw [all_eq_true]
  intro ch hch
  have hchar := all_eq_true.mp h.2 ch hch
  rw [Bool.or_eq_true, Bool.or_eq_true, decide_eq_true_iff] at hchar
  rcases hchar with (hlower | hupper) | rfl
  · exact (plainCode_of_isLowerAlnum hlower).1
  · rw [plainCode_iff]
    simp only [Bool.and_eq_true, decide_eq_true_iff, Char.le_def, UInt32.le_iff_toNat_le] at hupper
    have hlow : 65 ≤ ch.toNat := hupper.1
    have hhigh : ch.toNat ≤ 90 := hupper.2
    simp only [mem_cons, not_mem_nil, or_false, not_or]
    omega
  · decide

section

variable {F : Type} (reprFloat : F → Text)

def lines (rows : List (List Piece)) : List Piece := rows.flatMap fun row => row ++ [.code '\n']

def quoted (value : Text) : Piece := .interpreted (value.map goElement)

def clausePieces : List (List Piece) :=
  [[], codePieces "package donorport".toList, [], codePieces "import (".toList,
    codePieces ['\t'] ++ [quoted "reflect".toList], codePieces ['\t'] ++ [quoted "testing".toList], codePieces [')']]

/-- The test function of a case, after an empty line. -/
def testPieces (target : Text) (item : PortableCase F × PortableValue F) : List (List Piece) :=
  [[], codePieces ("func ".toList ++ (testFunctionName item.1.name ++ "(t *testing.T) \x7b".toList)),
    codePieces ("\tgot := ".toList ++ (target ++ ['('])) ++
      (commas (item.1.args.map (literalPieces reprFloat)) ++ codePieces [')']),
    codePieces "\twant := ".toList ++ literalPieces reprFloat item.2,
    codePieces "\tif !reflect.DeepEqual(got, want) \x7b".toList,
    codePieces "\t\tt.Fatalf(".toList ++ quoted "case %q: got %#v want %#v".toList ::
      (codePieces ", ".toList ++ quoted item.1.name :: codePieces ", got, want)".toList),
    codePieces "\t\x7d".toList,
    codePieces "\x7d".toList]

def generated (target : Text) (expected : List (PortableCase F × PortableValue F)) : List Piece :=
  lines (clausePieces ++ expected.flatMap (testPieces reprFloat target))

theorem spell_lines (rows : List (List Piece)) : spell (lines rows) = join '\n' (rows.map spell) := by
  induction rows with
  | nil => rfl
  | cons row rows ih =>
    change spell ((row ++ [.code '\n']) ++ lines rows) = _
    rw [spell_append, spell_append, ih, map_cons, join_cons, append_assoc]
    rfl

theorem closed_lines {rows : List (List Piece)} (h : ∀ row ∈ rows, ∀ piece ∈ row, Closed piece) :
    ∀ piece ∈ lines rows, Closed piece := by
  intro piece hpiece
  obtain ⟨row, hrow, hpiece⟩ := mem_flatMap.mp hpiece
  rcases mem_append.mp hpiece with hpiece | hpiece
  · exact h row hrow piece hpiece
  · exact @closed_codePieces ['\n'] (by decide) piece hpiece

theorem closed_append {pieces others : List Piece} (h : ∀ piece ∈ pieces, Closed piece)
    (hothers : ∀ piece ∈ others, Closed piece) : ∀ piece ∈ pieces ++ others, Closed piece := by
  intro piece hpiece
  exact (mem_append.mp hpiece).elim (h piece) (hothers piece)

theorem closed_quoted (value : Text) {others : List Piece} (h : ∀ piece ∈ others, Closed piece) :
    ∀ piece ∈ quoted value :: others, Closed piece := forall_mem_cons.mpr ⟨closed_string value, h⟩

theorem spell_quoted (value : Text) (others : List Piece) :
    spell (quoted value :: others) = goStringLiteral value ++ spell others := by
  rw [GoLexical.spell_cons, quoted, spell_string]

theorem closed_clausePieces : ∀ row ∈ clausePieces, ∀ piece ∈ row, Closed piece := by
  have htab : ∀ value : Text, ∀ piece ∈ codePieces ['\t'] ++ [quoted value], Closed piece := fun value =>
    closed_append (closed_codePieces (by decide)) (closed_quoted value fun piece hpiece => absurd hpiece not_mem_nil)
  have hnil : ∀ piece ∈ ([] : List Piece), Closed piece := fun piece hpiece => absurd hpiece not_mem_nil
  unfold clausePieces
  simp only [forall_mem_cons (p := fun row : List Piece => ∀ piece ∈ row, Closed piece)]
  exact ⟨hnil, closed_codePieces (all_toList (by decide)), hnil, closed_codePieces (all_toList (by decide)),
    htab _, htab _, closed_codePieces (by decide), fun row hrow => absurd hrow not_mem_nil⟩

theorem spell_clausePieces : clausePieces.map spell ++ [[]] = clauseLines := by
  unfold clausePieces clauseLines
  simp only [map_cons, map_nil, spell_append, spell_codePieces, spell_quoted]
  rfl

theorem spell_testPieces (target : Text) (item : PortableCase F × PortableValue F) :
    (testPieces reprFloat target item).map spell ++ [[]] = [] :: caseLines reprFloat target item := by
  have hargs : (item.1.args.map (literalPieces reprFloat)).map spell = item.1.args.map (goLiteral reprFloat) := by
    rw [map_map]
    exact map_congr_left fun value _ => spell_literal reprFloat value
  unfold testPieces caseLines
  simp only [map_cons, map_nil, spell_append, spell_codePieces, spell_quoted, spell_commas, hargs, spell_literal]
  simp only [append_assoc, cons_append, nil_append]
  rfl

variable {reprFloat} (hfloat : ∀ value, (reprFloat value).all plainCode = true)
include hfloat

theorem closed_testPieces {target : Text} (htarget : isGoIdentifier target = true)
    (item : PortableCase F × PortableValue F) : ∀ row ∈ testPieces reprFloat target item, ∀ piece ∈ row, Closed piece := by
  have hidentifier : ("func ".toList ++ (testFunctionName item.1.name ++ "(t *testing.T) \x7b".toList)).all plainCode = true := by
    have hfunc : "func ".toList.all plainCode = true := all_toList (by decide)
    have htest : "TestPortableContract_".toList.all plainCode = true := all_toList (by decide)
    have hparameter : "(t *testing.T) \x7b".toList.all plainCode = true := all_toList (by decide)
    have hname : (testFunctionName item.1.name).all plainCode = true :=
      all_append htest (plainCode_goCaseIdentifier item.1.named)
    exact all_append hfunc (all_append hname hparameter)
  have hcall : ("\tgot := ".toList ++ (target ++ ['('])).all plainCode = true := by
    have hgot : "\tgot := ".toList.all plainCode = true := all_toList (by decide)
    exact all_append hgot (all_append (plainCode_isGoIdentifier htarget) (by decide))
  have hargs : ∀ pieces ∈ item.1.args.map (literalPieces reprFloat), ∀ piece ∈ pieces, Closed piece := by
    intro pieces hpieces
    obtain ⟨value, -, rfl⟩ := mem_map.mp hpieces
    exact closed_literal hfloat value
  unfold testPieces
  simp only [forall_mem_cons (p := fun row : List Piece => ∀ piece ∈ row, Closed piece)]
  refine ⟨fun piece hpiece => absurd hpiece not_mem_nil, closed_codePieces hidentifier, ?_, ?_,
    closed_codePieces (all_toList (by decide)), ?_, closed_codePieces (all_toList (by decide)),
    closed_codePieces (all_toList (by decide)), fun row hrow => absurd hrow not_mem_nil⟩
  · exact closed_append (closed_codePieces hcall) (closed_append (closed_commas hargs) (closed_codePieces (by decide)))
  · exact closed_append (closed_codePieces (all_toList (by decide))) (closed_literal hfloat item.2)
  · exact closed_append (closed_codePieces (all_toList (by decide))) (closed_quoted _
      (closed_append (closed_codePieces (all_toList (by decide)))
        (closed_quoted _ (closed_codePieces (all_toList (by decide))))))

theorem lexes_generated {target : Text} (htarget : isGoIdentifier target = true)
    (expected : List (PortableCase F × PortableValue F)) : lexes (generated reprFloat target expected) = true := by
  have hclosed : ∀ piece ∈ generated reprFloat target expected, Closed piece := by
    refine closed_lines ?_
    intro row hrow
    rcases mem_append.mp hrow with hrow | hrow
    · exact closed_clausePieces row hrow
    · obtain ⟨item, -, hrow⟩ := mem_flatMap.mp hrow
      exact closed_testPieces hfloat htarget item row hrow
  have hlexes := @lexes_append _ [] hclosed rfl
  rwa [append_nil] at hlexes

end

section

variable {F : Type} (reprFloat : F → Text)

theorem caseLines_rotate (target : Text) (expected : List (PortableCase F × PortableValue F)) :
    [] :: expected.flatMap (caseLines reprFloat target) =
      (expected.flatMap (testPieces reprFloat target)).map spell ++ [[]] := by
  induction expected with
  | nil => rfl
  | cons item expected ih =>
    rw [flatMap_cons, flatMap_cons, map_append, append_assoc, ← ih, ← cons_append,
      ← spell_testPieces, append_assoc]
    rfl

theorem rstripNewlines_line (text : Text) : rstripNewlines (text ++ ['\x7d'] ++ ['\n']) = text ++ ['\x7d'] := by
  unfold rstripNewlines
  rw [reverse_append, reverse_append]
  change (List.dropWhile _ ('\n' :: '\x7d' :: text.reverse)).reverse = _
  rw [dropWhile_cons_of_pos (by decide), dropWhile_cons_of_neg (by decide), reverse_cons, reverse_reverse]

/-- The file is the comment, line by line, and the generated pieces. -/
theorem renderContract_eq (suite : PortableContractSuite F) (btsDigest : Text)
    {expected : List (PortableCase F × PortableValue F)} (hexpected : expected ≠ []) :
    renderContract reprFloat suite btsDigest expected =
      join '\n' (commentLines suite btsDigest) ++ spell (generated reprFloat suite.targetFunctionName expected) := by
  have hlines : commentLines suite btsDigest ++ clauseLines ++ expected.flatMap (caseLines reprFloat suite.targetFunctionName) =
      (commentLines suite btsDigest ++
        (clausePieces ++ expected.flatMap (testPieces reprFloat suite.targetFunctionName)).map spell) ++ [[]] := by
    rw [← spell_clausePieces, map_append, append_assoc, append_assoc, append_assoc, append_assoc,
      ← caseLines_rotate]
    rfl
  obtain ⟨front, item, rfl⟩ := (eq_nil_or_concat expected).resolve_left hexpected
  -- the last line is the brace that closes the last test function
  obtain ⟨rows, hrows⟩ : ∃ rows, clausePieces ++ (front.concat item).flatMap (testPieces reprFloat suite.targetFunctionName) =
      rows ++ [codePieces "\x7d".toList] := by
    rw [concat_eq_append, flatMap_append, flatMap_singleton, ← append_assoc]
    exact ⟨_, (append_assoc _ ((testPieces reprFloat suite.targetFunctionName item).dropLast) _).symm⟩
  have hbrace : spell (codePieces "\x7d".toList) = ['\x7d'] := spell_codePieces _
  have hwhole : join '\n' (commentLines suite btsDigest ++ (rows ++ [codePieces "\x7d".toList]).map spell) =
      join '\n' (commentLines suite btsDigest ++ rows.map spell) ++ ['\x7d'] ++ ['\n'] := by
    rw [map_append, ← append_assoc, join_append, map_singleton, hbrace, join_cons,
      join_nil, append_assoc _ ['\x7d']]
  rw [renderContract, hlines, intercalate_concat, append_nil, hrows, hwhole, rstripNewlines_line, ← hwhole,
    join_append, ← hrows, ← spell_lines]
  rfl

end

section

def inline (ch : Char) : Bool := ch ≠ '\n' && ch ≠ '*'

variable {text : Text}

theorem not_mem_of_inline (h : text.all inline = true) : '\n' ∉ text ∧ '*' ∉ text := by
  rw [all_eq_true] at h
  exact ⟨fun hmem => absurd (h _ hmem) (by decide), fun hmem => absurd (h _ hmem) (by decide)⟩

theorem inline_of_toNat {ch : Char} (h : 43 ≤ ch.toNat) : inline ch = true := by
  have hnewline : ch ≠ '\n' := by
    rintro rfl
    exact absurd h (by decide)
  have hstar : ch ≠ '*' := by
    rintro rfl
    exact absurd h (by decide)
  rw [inline, decide_eq_true hnewline, decide_eq_true hstar]
  rfl

theorem inline_hex (h : text.all License.isHex = true) : text.all inline = true := by
  rw [all_eq_true] at h ⊢
  intro ch hch
  have hhex := h ch hch
  simp only [License.isHex, Bool.or_eq_true, Bool.and_eq_true, decide_eq_true_iff, Char.le_def,
    UInt32.le_iff_toNat_le] at hhex
  refine inline_of_toNat ?_
  rcases hhex with ⟨hlow, -⟩ | ⟨hlow, -⟩
  · have hdigit : 48 ≤ ch.toNat := hlow
    omega
  · have hletter : 97 ≤ ch.toNat := hlow
    omega

theorem inline_digest (h : isDigest text = true) : text.all inline = true := by
  unfold isDigest at h
  rw [Bool.and_eq_true, Bool.and_eq_true, decide_eq_true_iff] at h
  obtain ⟨hex, rfl⟩ := h.1.1
  exact all_append (all_toList (by decide)) (inline_hex h.2)

theorem inline_slug {slug : Text} (h : isSlug slug = true) : slug.all inline = true := by
  unfold isSlug at h
  rw [Bool.and_eq_true, Bool.and_eq_true] at h
  rw [all_eq_true]
  intro ch hch
  have hchar := all_eq_true.mp h.1.2 ch hch
  simp only [Bool.or_eq_true, decide_eq_true_iff] at hchar
  rcases hchar with (((halnum | rfl) | rfl) | rfl) | rfl
  · have hrange := toNat_of_isLowerAlnum halnum
    exact inline_of_toNat (by omega)
  · decide
  · decide
  · decide
  · decide

theorem commentary_marked {mark : List Char} {body rest : Text} (hmark : mark = '/' :: '/' :: mark.drop 2)
    (hinline : (mark.drop 2).all inline = true) (hbody : '\n' ∉ body) :
    Commentary ((String.ofList mark).toList ++ body ++ '\n' :: rest) ↔ Commentary rest := by
  have hline : '\n' ∉ mark.drop 2 ++ body := by
    rw [mem_append, not_or]
    exact ⟨(not_mem_of_inline hinline).1, hbody⟩
  rw [String.toList_ofList, hmark]
  exact GoLexical.commentary_line hline

theorem commentary_fixed {mark : List Char} {rest : Text} (hmark : mark = '/' :: '/' :: mark.drop 2)
    (hinline : (mark.drop 2).all inline = true) :
    Commentary ((String.ofList mark).toList ++ '\n' :: rest) ↔ Commentary rest := by
  have hmarked := @commentary_marked mark [] rest hmark hinline not_mem_nil
  rwa [append_nil] at hmarked

variable {F : Type} (suite : PortableContractSuite F) {btsDigest : Text}

def digestLines (btsDigest : Text) : Text :=
  join '\n' ["// bts_digest: ".toList ++ btsDigest, "// suite_digest: ".toList ++ suite.suiteDigest]

theorem commentary_digestLines (hbts : isDigest btsDigest = true) : Commentary (digestLines suite btsDigest) := by
  obtain ⟨data, hdata⟩ := suite.digested
  have hsuite : suite.suiteDigest.all inline = true := inline_digest (hdata ▸ License.isDigest_sha data)
  unfold digestLines
  simp only [join_cons, join_nil]
  refine (commentary_marked rfl (by decide) (not_mem_of_inline (inline_digest hbts)).1).mpr ?_
  exact (commentary_marked rfl (by decide) (not_mem_of_inline hsuite).1).mpr GoLexical.commentary_nil

theorem star_digestLines (hbts : isDigest btsDigest = true) : '*' ∉ digestLines suite btsDigest := by
  obtain ⟨data, hdata⟩ := suite.digested
  have hsuite : suite.suiteDigest.all inline = true := inline_digest (hdata ▸ License.isDigest_sha data)
  have hbtsMark : ("// bts_digest: ".toList ++ btsDigest).all inline = true :=
    all_append (all_toList (by decide)) (inline_digest hbts)
  have hsuiteMark : ("// suite_digest: ".toList ++ suite.suiteDigest).all inline = true :=
    all_append (all_toList (by decide)) hsuite
  unfold digestLines
  rw [join_cons, join_cons, join_nil]
  intro hmem
  rcases mem_append.mp hmem with hmem | hmem
  · exact (not_mem_of_inline hbtsMark).2 hmem
  · rcases mem_cons.mp hmem with hmem | hmem
    · cases hmem
    · rcases mem_append.mp hmem with hmem | hmem
      · exact (not_mem_of_inline hsuiteMark).2 hmem
      · cases mem_singleton.mp hmem

def CommentedName (name : Text) : Prop :=
  ∀ first rest, '\n' ∉ first → name = first ++ '\n' :: rest → Commentary rest

theorem commentary_name {name more : Text} (hstar : '*' ∉ more) (hmore : Commentary more) :
    Commentary ("// donor function: ".toList ++ name ++ '\n' :: more) ↔ CommentedName name := by
  by_cases hname : '\n' ∈ name
  · obtain ⟨first, rest, rfl, hfirst⟩ := eq_append_cons_of_mem hname
    have hlines : "// donor function: ".toList ++ (first ++ '\n' :: rest) ++ '\n' :: more =
        "// donor function: ".toList ++ first ++ '\n' :: (rest ++ '\n' :: more) := by
      rw [append_assoc, append_assoc, append_assoc, cons_append]
    rw [hlines, commentary_marked rfl (by decide) hfirst, GoLexical.commentary_append hstar hmore]
    refine ⟨?_, fun h => h first rest hfirst rfl⟩
    intro hrest other rest' hother h
    rcases append_eq_append_iff.mp h with ⟨gap, rfl, hgap⟩ | ⟨gap, rfl, hgap⟩
    · cases gap with
      | nil => exact (cons_eq_cons.mp hgap).2 ▸ hrest
      | cons ch gap =>
        obtain ⟨rfl, -⟩ := cons_eq_cons.mp hgap
        exact absurd (mem_append_right _ mem_cons_self) hother
    · cases gap with
      | nil => exact (cons_eq_cons.mp hgap).2 ▸ hrest
      | cons ch gap =>
        obtain ⟨rfl, -⟩ := cons_eq_cons.mp hgap
        exact absurd (mem_append_right _ mem_cons_self) hfirst
  · refine iff_of_true ((commentary_marked rfl (by decide) hname).mpr hmore) ?_
    rintro first rest - rfl
    exact absurd (mem_append_right _ mem_cons_self) hname

theorem commentary_commentLines (hbts : isDigest btsDigest = true) :
    Commentary (join '\n' (commentLines suite btsDigest)) ↔ CommentedName suite.functionQualifiedName := by
  have hcommit : suite.donor.commitSha.all inline = true := by
    have hpinned := suite.donor.pinned
    rw [isHex40, Bool.and_eq_true] at hpinned
    exact inline_hex hpinned.2
  have hdonor : '\n' ∉ suite.donor.slug ++ '@' :: suite.donor.commitSha := by
    rw [mem_append, mem_cons, not_or, not_or]
    exact ⟨(not_mem_of_inline (inline_slug suite.donor.slugged)).1, by decide, (not_mem_of_inline hcommit).1⟩
  unfold commentLines
  simp only [join_cons]
  refine (commentary_fixed rfl (by decide)).trans ?_
  refine (commentary_fixed rfl (by decide)).trans ?_
  refine (commentary_fixed rfl (by decide)).trans ?_
  refine (commentary_fixed rfl (by decide)).trans ?_
  refine (commentary_fixed rfl (by decide)).trans ?_
  refine (commentary_fixed rfl (by decide)).trans ?_
  refine (commentary_fixed rfl (by decide)).trans ?_
  refine (commentary_marked rfl (by decide) hdonor).trans ?_
  have hname := @commentary_name suite.functionQualifiedName _ (star_digestLines suite hbts) (commentary_digestLines suite hbts)
  unfold digestLines at hname
  simpa only [join_cons] using hname

end

section

variable {F : Type} (reprFloat : F → Text)

/-- A file is a block of comments, the clauses, and the test functions of the suite's cases in their order. What the caller
wrote is in comments and literals, but for the names of the functions. -/
def OnlyGenerated (suite : PortableContractSuite F) (source : Text) : Prop :=
  ∃ comment expected, comment.all Piece.isBlank = true ∧ expected.map Prod.fst = suite.cases ∧
    (∀ item ∈ expected, item.1.outcome = .returns item.2) ∧
    lexes (comment ++ generated reprFloat suite.targetFunctionName expected) = true ∧
    spell (comment ++ generated reprFloat suite.targetFunctionName expected) = source

variable {expected : List (PortableCase F × PortableValue F)}

theorem expected_unique {others : List (PortableCase F × PortableValue F)}
    (h : expected.map Prod.fst = others.map Prod.fst) (hreturns : ∀ item ∈ expected, item.1.outcome = .returns item.2)
    (hothers : ∀ item ∈ others, item.1.outcome = .returns item.2) : expected = others := by
  induction expected generalizing others with
  | nil => exact (map_eq_nil_iff.mp h.symm).symm
  | cons item expected ih =>
    cases others with
    | nil => cases h
    | cons other others =>
      rw [map_cons, map_cons] at h
      obtain ⟨hfirst, hrest⟩ := cons_eq_cons.mp h
      rw [forall_mem_cons] at hreturns hothers
      have hvalue : Outcome.returns item.2 = Outcome.returns other.2 := by rw [← hreturns.1, ← hothers.1, hfirst]
      have hitem : item = other := Prod.ext hfirst (Outcome.returns.inj hvalue)
      rw [hitem, ih hrest hreturns.2 hothers.2]

theorem classified_ok {cases : List (PortableCase F)}
    (h : (cases.mapM fun item => (classifyCase item).map fun value => (item, value)) = .ok expected) :
    expected.map Prod.fst = cases ∧ ∀ item ∈ expected, item.1.outcome = .returns item.2 := by
  have hpair : ∀ item : PortableCase F, ∀ result, (classifyCase item).map (fun value => (item, value)) = .ok result →
      result.1 = item ∧ result.1.outcome = .returns result.2 := by
    intro item result hresult
    obtain ⟨value, hvalue, rfl⟩ := map_ok hresult
    unfold classifyCase at hvalue
    split at hvalue
    next expected houtcome =>
      cases hvalue
      exact ⟨rfl, houtcome⟩
    next => cases hvalue
  have hall := mapM_ok_forall₂ h
  clear h
  induction hall with
  | nil => exact ⟨rfl, fun item hitem => absurd hitem not_mem_nil⟩
  | cons hresult _ ih =>
    obtain ⟨hfst, houtcome⟩ := hpair _ _ hresult
    exact ⟨cons_eq_cons.mpr ⟨hfst, ih.1⟩, forall_mem_cons.mpr ⟨houtcome, ih.2⟩⟩

theorem translateContract_ok {artifact : Artifact} {suite : PortableContractSuite F} {source : Text}
    (h : translateContract reprFloat artifact suite = .ok source) :
    suite.btsDigest = artifact.btsDigest ∧ ∃ expected, expected.map Prod.fst = suite.cases ∧
      (∀ item ∈ expected, item.1.outcome = .returns item.2) ∧
      source = renderContract reprFloat suite artifact.btsDigest expected := by
  unfold translateContract at h
  obtain ⟨hbound, h⟩ := guard_ok h
  obtain ⟨-, -, h⟩ := bind_ok h
  obtain ⟨expected, hexpected, h⟩ := bind_ok h
  obtain ⟨-, -, h⟩ := bind_ok h
  obtain ⟨hcases, hreturns⟩ := classified_ok hexpected
  exact ⟨not_not.mp hbound, expected, hcases, hreturns, (Except.ok.inj h).symm⟩

variable {reprFloat}

def isFloatChar (ch : Char) : Bool := "0123456789.e+-".toList.contains ch

theorem plainCode_of_isFloatChar {text : Text} (h : text.all isFloatChar = true) : text.all plainCode = true := by
  have hplain : "0123456789.e+-".toList.all plainCode = true := all_toList (by decide)
  rw [all_eq_true] at h hplain ⊢
  intro ch hch
  have hfloat := h ch hch
  rw [isFloatChar, contains_eq_mem, decide_eq_true_iff] at hfloat
  exact hplain ch hfloat

theorem onlyGenerated_iff (hfloat : ∀ value, (reprFloat value).all isFloatChar = true) {suite : PortableContractSuite F}
    {btsDigest : Text} (hbts : isDigest btsDigest = true)
    (hcases : expected.map Prod.fst = suite.cases) (hreturns : ∀ item ∈ expected, item.1.outcome = .returns item.2) :
    OnlyGenerated reprFloat suite (renderContract reprFloat suite btsDigest expected) ↔
      CommentedName suite.functionQualifiedName := by
  have hexpected : expected ≠ [] := by
    rintro rfl
    exact suite.nonempty hcases.symm
  have hgenerated := lexes_generated (fun value => plainCode_of_isFloatChar (hfloat value)) suite.exported expected
  have hhead : (spell (generated reprFloat suite.targetFunctionName expected)).head? = (spell [.code '\n']).head? := by
    rw [generated, spell_lines, clausePieces, cons_append, map_cons, join_cons]
    rfl
  rw [renderContract_eq reprFloat suite btsDigest hexpected, ← commentary_commentLines suite hbts]
  constructor
  · rintro ⟨comment, others, hblank, hothers, hvalues, hlexes, hspell⟩
    obtain rfl := expected_unique (hcases.trans hothers.symm) hreturns hvalues
    rw [spell_append, append_cancel_right_eq] at hspell
    exact ⟨comment, hblank, GoLexical.lexes_append_of_head hlexes rfl hhead, hspell⟩
  · rintro ⟨comment, hblank, hlexes, hspell⟩
    refine ⟨comment, expected, hblank, hcases, hreturns, GoLexical.lexes_append_of_head hlexes hgenerated hhead.symm, ?_⟩
    rw [spell_append, hspell]

end

def zeroText (negative : Bool) : Text := if negative then ['-', '0', '.', '0'] else ['0', '.', '0']

theorem zeroText_float : ∀ negative, (zeroText negative).all isFloatChar = true := by decide

def sampleDonor : DonorIdentity where
  slug := ['d']
  commitSha := List.replicate 40 '0'
  slugged := by decide
  pinned := by decide

/-- A suite of one case, whose function has a name. -/
def sampleSuite (name : Text) (h : name ≠ []) : PortableContractSuite Bool where
  donor := sampleDonor
  btsDigest := sha []
  functionQualifiedName := name
  targetFunctionName := ['F']
  parameterKinds := [.float]
  returnKind := some .bool
  cases := [⟨['a'], [.scalar (.float true)], .returns (.scalar (.bool true)), by decide⟩]
  suiteDigest := sha []
  bts := License.isDigest_sha []
  qualified := h
  exported := by decide
  nonempty := List.cons_ne_nil _ _
  distinct := List.nodup_singleton _
  sorted := rfl
  fits := by
    intro item hitem
    rw [List.mem_singleton.mp hitem]
    refine ⟨rfl, ?_⟩
    rintro expected h
    cases h
    rfl
  digested := ⟨[], rfl⟩

def sampleArtifact : Artifact where
  btsDigest := sha []
  identities := [(['d'], List.replicate 40 '0')]
  digested := ⟨[], rfl⟩

def sampleExpected : List (PortableCase Bool × PortableValue Bool) :=
  [(⟨['a'], [.scalar (.float true)], .returns (.scalar (.bool true)), by decide⟩, .scalar (.bool true))]

theorem translateContract_sample (name : Text) (h : name ≠ []) :
    translateContract zeroText sampleArtifact (sampleSuite name h) =
      .ok (renderContract zeroText (sampleSuite name h) (sha []) sampleExpected) := by
  have hdonor : requireBoundDonorIdentity sampleArtifact (sampleSuite name h).donor = .ok () := rfl
  have hcases : ((sampleSuite name h).cases.mapM fun item => (classifyCase item).map fun value => (item, value)) =
      .ok sampleExpected := rfl
  have hnamespace : validateGoIdentifierNamespace (sampleSuite name h).targetFunctionName [] (sampleSuite name h).cases =
      .ok () := rfl
  have hbound : (sampleSuite name h).btsDigest = sampleArtifact.btsDigest := rfl
  unfold translateContract
  rw [if_neg (not_not.mpr hbound), bind_eq hdonor, bind_eq hcases, bind_eq hnamespace]
  rfl

theorem not_commentedName : ¬ CommentedName ['f', '\n', 'v', 'a', 'r', ' ', 'X', ' ', '=', ' ', '1'] := by
  intro h
  obtain ⟨pieces, hblank, -, hspell⟩ := h ['f'] ['v', 'a', 'r', ' ', 'X', ' ', '=', ' ', '1'] (by decide) rfl
  cases pieces with
  | nil => cases hspell
  | cons piece pieces =>
    rw [all_cons, Bool.and_eq_true] at hblank
    cases piece with
    | code ch =>
      obtain ⟨rfl, -⟩ := cons_eq_cons.mp hspell
      cases hblank.1
    | lineComment body => cases head_eq_of_cons_eq hspell
    | blockComment body => cases head_eq_of_cons_eq hspell
    | interpreted elements => cases hblank.1
    | raw body => cases hblank.1
    | rune element => cases hblank.1

section

variable {F : Type} {reprFloat : F → Text}

/-- Every accepted suite gives a file of generated code only, where its function's name holds nothing but comments behind
its first line. Elsewhere the name is code. -/
theorem translateContract_onlyGenerated (hfloat : ∀ value, (reprFloat value).all isFloatChar = true) {artifact : Artifact}
    {suite : PortableContractSuite F} {source : Text} (h : translateContract reprFloat artifact suite = .ok source) :
    OnlyGenerated reprFloat suite source ↔ CommentedName suite.functionQualifiedName := by
  obtain ⟨hbound, expected, hcases, hreturns, hsource⟩ := translateContract_ok reprFloat h
  rw [hsource]
  exact onlyGenerated_iff hfloat (hbound ▸ suite.bts) hcases hreturns

/-- A name of one line. -/
theorem translateContract_onlyGenerated_line : ∃ source,
    translateContract zeroText sampleArtifact (sampleSuite ['f'] (List.cons_ne_nil _ _)) = .ok source ∧
      OnlyGenerated zeroText (sampleSuite ['f'] (List.cons_ne_nil _ _)) source := by
  have hsource := translateContract_sample ['f'] (cons_ne_nil _ _)
  refine ⟨_, hsource, (translateContract_onlyGenerated zeroText_float hsource).mpr ?_⟩
  intro first rest _ h
  have hname : ['f'] = first ++ '\n' :: rest := h
  have hmem : '\n' ∈ ['f'] := hname ▸ mem_append_right _ mem_cons_self
  exact absurd hmem (by decide)

/-- Behind the line end of the name `f` stands a declaration of a variable. -/
theorem translateContract_declares : ∃ source,
    translateContract zeroText sampleArtifact
        (sampleSuite ['f', '\n', 'v', 'a', 'r', ' ', 'X', ' ', '=', ' ', '1'] (List.cons_ne_nil _ _)) = .ok source ∧
      ¬ OnlyGenerated zeroText
        (sampleSuite ['f', '\n', 'v', 'a', 'r', ' ', 'X', ' ', '=', ' ', '1'] (List.cons_ne_nil _ _)) source := by
  refine ⟨_, translateContract_sample _ (cons_ne_nil _ _), ?_⟩
  rw [onlyGenerated_iff zeroText_float (License.isDigest_sha []) rfl (fun item hitem => by
    rw [mem_singleton.mp hitem])]
  exact not_commentedName

end

end Leitir.Port
