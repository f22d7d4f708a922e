import Leitir.UsagePaths

namespace Leitir.Usage

open ExceptRun List

section

variable {isEnd : Char → Bool}

/-- The lines that a text completes, and the open line after it with its last character first. -/
def cursor (isEnd : Char → Bool) (line : Text) : Text → List Text × Text
  | [] => ([], line)
  | '\r' :: '\n' :: rest => (('\n' :: '\r' :: line).reverse :: (cursor isEnd [] rest).1, (cursor isEnd [] rest).2)
  | ch :: rest =>
    if ch = '\r' ∨ isEnd ch then ((ch :: line).reverse :: (cursor isEnd [] rest).1, (cursor isEnd [] rest).2)
    else cursor isEnd (ch :: line) rest

def isNewline (ch : Char) : Bool := ch = '\n'

def isSeparator (ch : Char) : Bool := isLineEnd ch && !isNewline ch

theorem cursor_flatten (isEnd : Char → Bool) (line text : Text) :
    (cursor isEnd line text).1.flatten ++ (cursor isEnd line text).2.reverse = line.reverse ++ text := by
  fun_induction cursor isEnd line text with
  | case1 line => simp
  | case2 line rest ih => simpa using ih
  | case3 line ch rest hpair hbreak ih => simpa using ih
  | case4 line ch rest hpair hbreak ih => simpa using ih

theorem linesKept_append (line text : Text) {rest : Text} (hrest : rest.head? ≠ some '\n') :
    linesKept line (text ++ rest) = (cursor isLineEnd line text).1 ++ linesKept (cursor isLineEnd line text).2 rest := by
  fun_induction cursor isLineEnd line text with
  | case1 line => rfl
  | case2 line tail ih =>
    rw [cons_append, cons_append, linesKept, ih]
    rfl
  | case3 line ch tail hpair hbreak ih =>
    have hopen : ∀ after, ch = '\r' → tail ++ rest = '\n' :: after → False := by
      intro after hch heq
      cases tail with
      | nil =>
        rw [nil_append] at heq
        rw [heq] at hrest
        exact hrest rfl
      | cons first others =>
        obtain ⟨rfl, -⟩ := List.cons.inj heq
        exact hpair others hch rfl
    rw [cons_append, linesKept, if_pos hbreak, ih]
    · rfl
    · exact hopen
  | case4 line ch tail hpair hbreak ih =>
    rw [cons_append, linesKept, if_neg hbreak, ih]
    intro after hch
    exact absurd (Or.inl hch) hbreak

theorem linesKept_within (line : Text) {token : Text} (htoken : ∀ ch ∈ token, ¬ (ch = '\r' ∨ isLineEnd ch)) (rest : Text) :
    linesKept line (token ++ rest) = linesKept (token.reverse ++ line) rest := by
  induction token generalizing line with
  | nil => rfl
  | cons ch token ih =>
    obtain ⟨hch, htoken⟩ := forall_mem_cons.mp htoken
    rw [cons_append, linesKept, if_neg hch, ih (ch :: line) htoken, reverse_cons, append_assoc]
    · rfl
    · exact fun after hreturn => absurd (Or.inl hreturn) hch

theorem linesKept_open {line : Text} (hline : line ≠ []) (text : Text) :
    ∃ tail others, linesKept line text = (line.reverse ++ tail) :: others ∧ (tail = [] ↔ text = []) := by
  fun_induction linesKept line text with
  | case1 => exact absurd rfl hline
  | case2 line hopen => exact ⟨[], [], by simp, by simp⟩
  | case3 line rest ih => exact ⟨['\r', '\n'], linesKept [] rest, by simp, by simp⟩
  | case4 line ch rest hpair hbreak ih => exact ⟨[ch], linesKept [] rest, by simp, by simp⟩
  | case5 line ch rest hpair hbreak ih =>
    obtain ⟨tail, others, hlines, -⟩ := ih (cons_ne_nil _ _)
    exact ⟨ch :: tail, others, by simpa using hlines, by simp⟩

theorem isLineEnd_eq (ch : Char) : isLineEnd ch = (isNewline ch || isSeparator ch) := by
  unfold isSeparator isNewline
  by_cases hch : ch = '\n'
  · subst hch
    decide
  · simp [hch]

/-- Each separator completes one more line for `str.splitlines` than for the parser. -/
theorem cursor_length (line other text : Text) : (cursor isLineEnd line text).1.length =
    (cursor isNewline other text).1.length + (text.filter isSeparator).length := by
  fun_induction cursor isLineEnd line text generalizing other with
  | case1 line => rfl
  | case2 line rest ih =>
    have hfilter : ('\r' :: '\n' :: rest).filter isSeparator = rest.filter isSeparator := by
      rw [filter_cons_of_neg (by decide), filter_cons_of_neg (by decide)]
    have hrest := ih []
    rw [hfilter, cursor, length_cons, length_cons]
    omega
  | case3 line ch rest hpair hbreak ih =>
    have hrest := ih []
    rw [cursor]
    · by_cases hnewline : ch = '\r' ∨ isNewline ch
      · have hplain : ¬ isSeparator ch = true := by
          rcases hnewline with rfl | hnewline
          · decide
          · simp [isSeparator, hnewline]
        rw [if_pos hnewline, filter_cons_of_neg hplain, length_cons, length_cons]
        omega
      · have hseparator : isSeparator ch = true := by
          rw [not_or] at hnewline
          rw [isLineEnd_eq, Bool.or_eq_true] at hbreak
          exact (hbreak.resolve_left hnewline.1).resolve_left hnewline.2
        have hopen := ih (ch :: other)
        rw [if_neg hnewline, filter_cons_of_pos hseparator, length_cons, length_cons]
        omega
    · exact hpair
  | case4 line ch rest hpair hbreak ih =>
    rw [not_or] at hbreak
    have hends : isNewline ch = false ∧ isSeparator ch = false := by
      rw [isLineEnd_eq, Bool.or_eq_true, not_or, Bool.not_eq_true, Bool.not_eq_true] at hbreak
      exact hbreak.2
    have hplain : ¬ (ch = '\r' ∨ isNewline ch = true) := by
      rw [hends.1]
      exact fun h => h.elim hbreak.1 Bool.noConfusion
    rw [cursor, if_neg hplain, filter_cons_of_neg (by rw [hends.2]; exact Bool.noConfusion)]
    · exact ih (ch :: other)
    · exact hpair

theorem cursor_eq {text : Text} (h : ∀ ch ∈ text, isSeparator ch = false) (line : Text) :
    cursor isLineEnd line text = cursor isNewline line text := by
  fun_induction cursor isNewline line text with
  | case1 line => rfl
  | case2 line rest ih =>
    rw [cursor, ih fun ch hch => h ch (mem_cons_of_mem _ (mem_cons_of_mem _ hch))]
  | case3 line ch rest hpair hbreak ih =>
    have hends : ch = '\r' ∨ isLineEnd ch = true := by
      rw [isLineEnd_eq, Bool.or_eq_true]
      exact hbreak.imp_right .inl
    rw [cursor, if_pos hends, ih fun other hother => h other (mem_cons_of_mem _ hother)]
    exact hpair
  | case4 line ch rest hpair hbreak ih =>
    have hends : ¬ (ch = '\r' ∨ isLineEnd ch = true) := by
      rw [isLineEnd_eq, h ch mem_cons_self, Bool.or_false]
      exact hbreak
    rw [cursor, if_neg hends, ih fun other hother => h other (mem_cons_of_mem _ hother)]
    exact hpair

end

section

variable {file before token after : Text}

/-- The position that the parser gives a name: lines by newlines and carriage returns, columns in octets. -/
def nodeSpan (file before token : Text) : SourceSpan :=
  let place := cursor isNewline [] before
  let column := (Utf8.encodeText place.2.reverse).length
  ⟨file, place.1.length + 1, column, place.1.length + 1, column + (Utf8.encodeText token).length⟩

/-- The characters of the source, by their places, that a span on one line selects. -/
def snippetRange (sourceText : Text) (span : SourceSpan) : Nat × Nat :=
  let lines := linesKept [] sourceText
  let start := (lines.take (span.startLine - 1)).flatten.length
  let line := (lines[span.startLine - 1]?).getD []
  (start + min span.startCol line.length, start + min span.endCol line.length)

theorem linesKept_flatten (line text : Text) : (linesKept line text).flatten = line.reverse ++ text := by
  fun_induction linesKept line text with
  | case1 => rfl
  | case2 line hopen => simp
  | case3 line rest ih => simp [ih]
  | case4 line ch rest hpair hbreak ih => simp [ih]
  | case5 line ch rest hpair hbreak ih => simpa using ih

theorem slice_within (first line rest : Text) (start stop : Nat) :
    ((first ++ line ++ rest).take (first.length + min stop line.length)).drop (first.length + min start line.length) =
      (line.take stop).drop start := by
  have htake : (first ++ line ++ rest).take (first.length + min stop line.length) = first ++ line.take stop := by
    rw [append_assoc, take_length_add_append, take_append_of_le_length (by omega),
      ← take_eq_take_min]
  rw [htake, drop_length_add_append]
  by_cases hstart : start ≤ line.length
  · rw [Nat.min_eq_left hstart]
  · have hlength : (line.take stop).length ≤ line.length := length_take_le' stop line
    rw [drop_eq_nil_of_le (by omega), drop_eq_nil_of_le (by omega)]

/-- A span on one line selects the characters of its range. -/
theorem extractSnippet_range {sourceText : Text} {span : SourceSpan} (hone : span.endLine = span.startLine)
    (hfirst : 1 ≤ span.startLine) (hline : span.startLine ≤ (linesKept [] sourceText).length) :
    extractSnippet sourceText span =
      .ok ((sourceText.take (snippetRange sourceText span).2).drop (snippetRange sourceText span).1) := by
  have hindex : span.startLine - 1 < (linesKept [] sourceText).length := by omega
  obtain ⟨line, hat⟩ : ∃ line, (linesKept [] sourceText)[span.startLine - 1]? = some line :=
    ⟨_, getElem?_eq_getElem hindex⟩
  have hselected : ((linesKept [] sourceText).take span.endLine).drop (span.startLine - 1) = [line] := by
    have hstop : span.endLine = span.startLine - 1 + 1 := by omega
    rw [hstop, take_add_one, hat, drop_append, length_take, Nat.min_eq_left hindex.le, Nat.sub_self,
      drop_eq_nil_of_le (by rw [length_take]; omega)]
    rfl
  have htext : sourceText = ((linesKept [] sourceText).take (span.startLine - 1)).flatten ++ line ++
      ((linesKept [] sourceText).drop (span.startLine - 1 + 1)).flatten := by
    have hsplit := take_append_drop (span.startLine - 1) (linesKept [] sourceText)
    have hdrop : (linesKept [] sourceText).drop (span.startLine - 1) =
        line :: (linesKept [] sourceText).drop (span.startLine - 1 + 1) := by
      rw [drop_eq_getElem_cons hindex, Option.some.inj ((getElem?_eq_getElem hindex).symm.trans hat)]
    have hflatten := linesKept_flatten [] sourceText
    rw [← hsplit, hdrop, flatten_append, flatten_cons, ← append_assoc] at hflatten
    exact hflatten.symm
  unfold extractSnippet
  rw [if_neg (by omega), hselected]
  unfold snippetRange
  dsimp only
  rw [hat, Option.getD_some]
  generalize hlines : linesKept [] sourceText = lines at htext
  rw [htext, slice_within]

/-- The characters of a name: some, and none that ends a line. -/
structure IsToken (token : Text) : Prop where
  some : token ≠ []
  within : ∀ ch ∈ token, ¬ (ch = '\r' ∨ isLineEnd ch)

/-- A name on a line of the parser that `str.splitlines` counts the same, after characters of one octet, and of such
characters itself unless it ends the source. -/
structure Plain (before token after : Text) : Prop where
  lines : ∀ ch ∈ before, isSeparator ch = false
  column : ∀ ch ∈ (cursor isNewline [] before).2, ch.toNat < 0x80
  name : (∀ ch ∈ token, ch.toNat < 0x80) ∨ after = []

theorem length_encodePoint (point : Nat) : 1 ≤ (Utf8.encodePoint point).length ∧
    ((Utf8.encodePoint point).length = 1 ↔ point < 0x80) := by
  unfold Utf8.encodePoint
  split
  next h => simp [h]
  next h =>
    split
    next => simp [h]
    next =>
      split
      next => simp [h]
      next => simp [h]

theorem length_encodeText (text : Text) : text.length ≤ (Utf8.encodeText text).length ∧
    ((Utf8.encodeText text).length = text.length ↔ ∀ ch ∈ text, ch.toNat < 0x80) := by
  induction text with
  | nil => exact ⟨le_refl _, fun _ ch hch => absurd hch not_mem_nil, fun _ => rfl⟩
  | cons ch text ih =>
    obtain ⟨hle, hiff⟩ := ih
    obtain ⟨hpoint, hone⟩ := length_encodePoint ch.toNat
    have hsplit : (Utf8.encodeText (ch :: text)).length = (Utf8.encodePoint ch.toNat).length + (Utf8.encodeText text).length :=
      length_append
    rw [hsplit, length_cons, forall_mem_cons, ← hiff, ← hone]
    omega

theorem length_encodeText_reverse (text : Text) : (Utf8.encodeText text.reverse).length = (Utf8.encodeText text).length := by
  unfold Utf8.encodeText
  exact (List.Perm.flatMap_right _ (reverse_perm text)).length_eq

theorem linesKept_token (before after : Text) (htoken : IsToken token) : ∃ tail others,
    linesKept [] (before ++ token ++ after) = (cursor isLineEnd [] before).1 ++
      ((cursor isLineEnd [] before).2.reverse ++ token ++ tail) :: others ∧ (tail = [] ↔ after = []) := by
  obtain ⟨ch, rest, hcons⟩ := exists_cons_of_ne_nil htoken.some
  have hhead : (token ++ after).head? ≠ some '\n' := by
    rw [hcons, cons_append, head?_cons]
    intro heq
    refine htoken.within ch (hcons ▸ mem_cons_self) (.inr ?_)
    rw [Option.some.inj heq]
    decide
  have hopen : token.reverse ++ (cursor isLineEnd [] before).2 ≠ [] := by
    rw [hcons]
    simp
  obtain ⟨tail, others, hlines, htail⟩ := linesKept_open hopen after
  refine ⟨tail, others, ?_, htail⟩
  rw [append_assoc, linesKept_append [] before hhead, linesKept_within _ htoken.within, hlines, reverse_append,
    reverse_reverse]

theorem length_before (isEnd : Char → Bool) (before : Text) :
    before.length = (cursor isEnd [] before).1.flatten.length + (cursor isEnd [] before).2.length := by
  have hflatten := congrArg List.length (cursor_flatten isEnd [] before)
  rw [length_append, length_reverse] at hflatten
  exact hflatten.symm

/-- With a separator before it a name is looked for on an earlier line. -/
theorem range_of_separator (file after : Text) (htoken : IsToken token) (h : ∃ ch ∈ before, isSeparator ch = true) :
    (snippetRange (before ++ token ++ after) (nodeSpan file before token)).2 ≤ before.length := by
  obtain ⟨tail, others, hlines, -⟩ := linesKept_token before after htoken
  obtain ⟨ch, hch, hseparator⟩ := h
  have hcount := cursor_length [] [] before
  have hpos : 0 < (before.filter isSeparator).length := length_pos_of_mem (mem_filter.mpr ⟨hch, hseparator⟩)
  have hbefore := length_before isLineEnd before
  generalize hplace : (cursor isNewline [] before).1.length = index at hcount
  have hindex : index < (cursor isLineEnd [] before).1.length := by omega
  unfold snippetRange nodeSpan
  dsimp only
  rw [hplace, Nat.add_sub_cancel, hlines, take_append_of_le_length hindex.le, getElem?_append_left hindex,
    getElem?_eq_getElem hindex, Option.getD_some]
  have hsum : ((cursor isLineEnd [] before).1.take index).flatten.length + (cursor isLineEnd [] before).1[index].length ≤
      (cursor isLineEnd [] before).1.flatten.length := by
    have hsplit := take_append_drop index (cursor isLineEnd [] before).1
    rw [drop_eq_getElem_cons hindex] at hsplit
    have hlength := congrArg (fun lines => lines.flatten.length) hsplit
    simp only [flatten_append, flatten_cons, length_append] at hlength
    omega
  omega

/-- The range of a name is that of its characters just for plain names. -/
theorem range_eq_iff (file : Text) (htoken : IsToken token) : snippetRange (before ++ token ++ after) (nodeSpan file before token) =
    (before.length, before.length + token.length) ↔ Plain before token after := by
  have hsome : 0 < token.length := length_pos_iff.mpr htoken.some
  by_cases hseparators : ∀ ch ∈ before, isSeparator ch = false
  · obtain ⟨tail, others, hlines, htail⟩ := linesKept_token before after htoken
    have hbefore := length_before isLineEnd before
    rw [cursor_eq hseparators] at hlines hbefore
    have hrange : snippetRange (before ++ token ++ after) (nodeSpan file before token) =
        ((cursor isNewline [] before).1.flatten.length + min (Utf8.encodeText (cursor isNewline [] before).2.reverse).length
            ((cursor isNewline [] before).2.length + token.length + tail.length),
          (cursor isNewline [] before).1.flatten.length + min ((Utf8.encodeText (cursor isNewline [] before).2.reverse).length +
            (Utf8.encodeText token).length) ((cursor isNewline [] before).2.length + token.length + tail.length)) := by
      unfold snippetRange nodeSpan
      dsimp only
      rw [Nat.add_sub_cancel, hlines, take_left, getElem?_append_right (le_refl _), Nat.sub_self,
        getElem?_cons_zero, Option.getD_some, length_append, length_append, length_reverse]
    obtain ⟨hcolumn, hascii⟩ := length_encodeText (cursor isNewline [] before).2
    obtain ⟨hname, hplain⟩ := length_encodeText token
    have htail : tail.length = 0 ↔ after = [] := length_eq_zero_iff.trans htail
    rw [hrange, Prod.mk.injEq, length_encodeText_reverse, hbefore]
    constructor
    · rintro ⟨hstart, hstop⟩
      have hexact : (Utf8.encodeText (cursor isNewline [] before).2).length = (cursor isNewline [] before).2.length := by omega
      refine ⟨hseparators, hascii.mp hexact, ?_⟩
      by_cases hlast : tail.length = 0
      · exact .inr (htail.mp hlast)
      · exact .inl (hplain.mp (by omega))
    · rintro ⟨-, hline, hword⟩
      have hexact := hascii.mpr hline
      rcases hword with hword | hword
      · have hlength := hplain.mpr hword
        omega
      · have hlength := htail.mpr hword
        omega
  · refine ⟨fun hrange => ?_, fun h => absurd h.lines hseparators⟩
    push Not at hseparators
    obtain ⟨ch, hch, hseparator⟩ := hseparators
    have hearlier := range_of_separator file after htoken ⟨ch, hch, (Bool.not_eq_false _).mp hseparator⟩
    rw [hrange] at hearlier
    dsimp only at hearlier
    omega

/-- What a reference is to cover: the characters of a name at their places in the source, and just these. -/
structure Covers (sourceText : Text) (reference : CodeReference) (before token : Text) : Prop where
  range : snippetRange sourceText reference.span = (before.length, before.length + token.length)
  digest : reference.codeDigest = digestBytes (Utf8.encodeText token)

/-- The digest of a reference to a name is that of the characters in the range of its span. -/
theorem reference_digest {distribution : Text} {reference : CodeReference} (htoken : IsToken token)
    (h : codeReference (before ++ token ++ after) distribution (nodeSpan file before token) = .ok reference) :
    reference.span = nodeSpan file before token ∧
      reference.codeDigest = digestBytes (Utf8.encodeText (((before ++ token ++ after).take
        (snippetRange (before ++ token ++ after) (nodeSpan file before token)).2).drop
          (snippetRange (before ++ token ++ after) (nodeSpan file before token)).1)) := by
  obtain ⟨-, hrun⟩ := guard_ok h
  obtain ⟨snippet, hsnippet, hrun⟩ := bind_ok hrun
  obtain ⟨-, hrun⟩ := guard_ok hrun
  cases hrun
  obtain ⟨tail, others, hlines, -⟩ := linesKept_token before after htoken
  have hcount := cursor_length [] [] before
  have hline : (nodeSpan file before token).startLine ≤ (linesKept [] (before ++ token ++ after)).length := by
    unfold nodeSpan
    rw [hlines, length_append, length_cons]
    dsimp only
    omega
  have hfirst : 1 ≤ (nodeSpan file before token).startLine := Nat.le_add_left 1 _
  rw [extractSnippet_range rfl hfirst hline] at hsnippet
  cases hsnippet
  exact ⟨rfl, rfl⟩

/-- A reference covers the characters of the name that it was emitted for just if the name is plain. -/
theorem reference_covers_iff (file before token after distribution : Text) (reference : CodeReference)
    (htoken : IsToken token)
    (h : codeReference (before ++ token ++ after) distribution (nodeSpan file before token) = .ok reference) :
    Covers (before ++ token ++ after) reference before token ↔ Plain before token after := by
  obtain ⟨hspan, hdigest⟩ := reference_digest htoken h
  rw [← range_eq_iff file htoken, ← hspan]
  refine ⟨fun hcovers => hcovers.range, fun hrange => ⟨hrange, ?_⟩⟩
  rw [hdigest, ← hspan, hrange, append_assoc, take_length_add_append, take_left, drop_left]

def importLine : Text := "import widgetlib as x\n".toList

def quoted (ch : Char) : Text := importLine ++ ['"', ch, '"', ';']

theorem isToken_sample : IsToken ['x'] := ⟨by decide, forall_mem_singleton.mpr (by decide)⟩

theorem reference_covers_sample : ∃ reference,
    codeReference (quoted 'e' ++ ['x'] ++ ['\n']) "widgets".toList (nodeSpan "m.py".toList (quoted 'e') ['x']) = .ok reference ∧
      Plain (quoted 'e') ['x'] ['\n'] ∧ Covers (quoted 'e' ++ ['x'] ++ ['\n']) reference (quoted 'e') ['x'] := by
  have hlines : (quoted 'e').all (fun ch => decide (isSeparator ch = false)) = true := by decide
  have hcolumn : (cursor isNewline [] (quoted 'e')).2.all (fun ch => decide (ch.toNat < 0x80)) = true := by decide
  have hplain : Plain (quoted 'e') ['x'] ['\n'] :=
    ⟨fun ch hch => of_decide_eq_true (all_eq_true.mp hlines ch hch),
      fun ch hch => of_decide_eq_true (all_eq_true.mp hcolumn ch hch), .inl (forall_mem_singleton.mpr (by decide))⟩
  have hrun : codeReference (quoted 'e' ++ ['x'] ++ ['\n']) "widgets".toList (nodeSpan "m.py".toList (quoted 'e') ['x']) =
      .ok ⟨"widgets".toList, nodeSpan "m.py".toList (quoted 'e') ['x'], digestBytes (Utf8.encodeText ['x'])⟩ := rfl
  exact ⟨_, hrun, hplain, (reference_covers_iff _ _ _ _ _ _ isToken_sample hrun).mpr hplain⟩

/-- Behind a character of two octets the digest is that of the line end after the name. -/
theorem reference_shifted : ∃ reference,
    codeReference (quoted 'é' ++ ['x'] ++ ['\n']) "widgets".toList (nodeSpan "m.py".toList (quoted 'é') ['x']) = .ok reference ∧
      reference.codeDigest = digestBytes (Utf8.encodeText ['\n']) ∧
      reference.codeDigest ≠ digestBytes (Utf8.encodeText ['x']) := by
  refine ⟨_, rfl, rfl, ?_⟩
  decide +kernel

end

end Leitir.Usage
