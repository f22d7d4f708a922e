import Leitir.Json

namespace Json

open List

theorem hexValue_hexDigit : ∀ d < 16, hexValue (hexDigit d) = some d := by decide

theorem parseString_escape (c : Char) (rest : Text) :
    parseString (escapeChar c ++ rest) = (parseString rest).map fun r => (c :: r.1, r.2) := by
  unfold escapeChar
  by_cases h1 : c = '"'
  · subst h1
    rfl
  by_cases h2 : c = '\\'
  · subst h2
    rfl
  by_cases h3 : c = '\n'
  · subst h3
    rfl
  by_cases h4 : c = '\r'
  · subst h4
    rfl
  by_cases h5 : c = '\t'
  · subst h5
    rfl
  by_cases h6 : c = '\x0c'
  · subst h6
    rfl
  by_cases h7 : c = '\x08'
  · subst h7
    rfl
  rw [if_neg h1, if_neg h2, if_neg h3, if_neg h4, if_neg h5, if_neg h6, if_neg h7]
  by_cases h8 : c.toNat < 0x20
  · have hhigh := hexValue_hexDigit (c.toNat / 16) (by omega)
    have hlow := hexValue_hexDigit (c.toNat % 16) (by omega)
    have hfour : hexFour '0' '0' (hexDigit (c.toNat / 16)) (hexDigit (c.toNat % 16)) = some c.toNat := by
      have hzero : hexValue '0' = some 0 := rfl
      simp only [hexFour, hzero, hhigh, hlow, Option.bind_eq_bind, Option.bind_some, Option.some.injEq]
      omega
    have hno : isHigh c.toNat = false ∧ isLow c.toNat = false := by
      simp only [isHigh, isLow, Bool.and_eq_false_iff, decide_eq_false_iff_not]
      omega
    rw [if_pos h8]
    simp only [cons_append, nil_append]
    rw [parseString, if_neg (by decide), if_pos rfl]
    simp only [hfour, hno.1, hno.2, Bool.false_eq_true, if_false, Char.ofNat_toNat]
  · rw [if_neg h8]
    simp only [cons_append, nil_append]
    rw [parseString.eq_def]
    simp only [h1, h2, h8, if_false]

theorem parseString_print (text rest : Text) :
    parseString (text.flatMap escapeChar ++ '"' :: rest) = some (text, rest) := by
  induction text with
  | nil =>
    rw [flatMap_nil, nil_append, parseString.eq_def]
    rfl
  | cons c text ih =>
    rw [flatMap_cons, append_assoc, parseString_escape, ih]
    rfl

section

def Ends (rest : Text) : Prop := ∀ c ∈ rest.head?, c = ',' ∨ c = ']' ∨ c = '}' ∨ c = '\n'

theorem isDigit_of_mem_toDigits {n : Nat} {c : Char} (h : c ∈ Nat.toDigits 10 n) : isDigit c = true := by
  have hdigit := Nat.isDigit_of_mem_toDigits (by omega) (by omega) h
  simpa [isDigit, Char.isDigit, Char.le_def, UInt32.le_iff_toNat_le] using hdigit

variable {rest : Text}

theorem Ends.not_digit (h : Ends rest) : ∀ c ∈ rest.head?, isDigit c = false := by
  intro c hc
  rcases h c hc with rfl | rfl | rfl | rfl <;> rfl

theorem spanDigits_append {digits : Text} (hdigits : ∀ c ∈ digits, isDigit c = true)
    (hrest : ∀ c ∈ rest.head?, isDigit c = false) : spanDigits (digits ++ rest) = (digits, rest) := by
  have hstop : rest.takeWhile isDigit = [] ∧ rest.dropWhile isDigit = rest := by
    cases rest with
    | nil => exact ⟨rfl, rfl⟩
    | cons c rest =>
      have hc := hrest c rfl
      simp [hc]
  unfold spanDigits
  rw [takeWhile_append_of_pos hdigits, dropWhile_append_of_pos hdigits, hstop.1, hstop.2, append_nil]

theorem head_toDigits {n : Nat} (hn : 0 < n) : (Nat.toDigits 10 n).head? ≠ some '0' := by
  induction n using Nat.strongRecOn with
  | ind n ih =>
    by_cases hlt : n < 10
    · have hsmall : ∀ m < 10, 0 < m → [m.digitChar].head? ≠ some '0' := by decide
      rw [Nat.toDigits_of_lt_base hlt]
      exact hsmall n hlt hn
    · rw [Nat.toDigits_of_base_le (by omega) (by omega), head?_append_of_ne_nil _ Nat.toDigits_ne_nil]
      exact ih (n / 10) (by omega) (by omega)

theorem parseDigits_print (n : Nat) (hrest : Ends rest) :
    parseDigits (Nat.toDigits 10 n ++ rest) = some (Nat.toDigits 10 n, rest) := by
  have hspan : spanDigits (Nat.toDigits 10 n ++ rest) = (Nat.toDigits 10 n, rest) :=
    spanDigits_append (fun c hc => isDigit_of_mem_toDigits hc) hrest.not_digit
  by_cases hzero : n = 0
  · subst hzero
    rfl
  cases hdigits : Nat.toDigits 10 n with
  | nil => exact absurd hdigits Nat.toDigits_ne_nil
  | cons c tail =>
    have hc : isDigit c = true := isDigit_of_mem_toDigits (by rw [hdigits]; exact mem_cons_self)
    have hlead : c ≠ '0' := by
      intro heq
      have hhead := head_toDigits (Nat.pos_of_ne_zero hzero)
      rw [hdigits, heq] at hhead
      exact hhead rfl
    rw [hdigits] at hspan
    rw [cons_append] at hspan ⊢
    rw [parseDigits, if_neg hlead, if_pos hc, hspan]

theorem parseFraction_ends (hrest : Ends rest) : parseFraction rest = ([], rest) := by
  cases rest with
  | nil => rfl
  | cons c rest =>
    rcases hrest c rfl with rfl | rfl | rfl | rfl <;> rfl

theorem parseExponent_ends (hrest : Ends rest) : parseExponent rest = ([], rest) := by
  cases rest with
  | nil => rfl
  | cons c rest =>
    rcases hrest c rfl with rfl | rfl | rfl | rfl <;> rfl

theorem parseUnsigned_print (negative : Bool) (n : Nat) (hrest : Ends rest) :
    parseUnsigned negative (Nat.toDigits 10 n ++ rest) = some (.int (if negative then -n else n), rest) := by
  unfold parseUnsigned
  simp only [parseDigits_print n hrest, parseFraction_ends hrest, parseExponent_ends hrest, and_self, if_true,
    Nat.ofDigitChars_ten_toDigits]

theorem parseNumber_print (value : Int) (hrest : Ends rest) :
    parseNumber (printInt value ++ rest) = some (.int value, rest) := by
  cases value with
  | ofNat n =>
    have hparse := parseUnsigned_print false n hrest
    cases hdigits : Nat.toDigits 10 n with
    | nil => exact absurd hdigits Nat.toDigits_ne_nil
    | cons c tail =>
      have hc : isDigit c = true := isDigit_of_mem_toDigits (by rw [hdigits]; exact mem_cons_self)
      have hsign : c ≠ '-' := by
        intro heq
        rw [heq] at hc
        exact absurd hc (by decide)
      rw [hdigits] at hparse
      rw [printInt, hdigits, cons_append, parseNumber, if_neg hsign]
      exact hparse
  | negSucc n =>
    rw [printInt, cons_append, parseNumber, if_pos rfl, parseUnsigned_print true (n + 1) hrest]
    rfl

end

section

mutual

/-- No number with a fraction, and no object with a repeated name. -/
def Plain : Value → Prop
  | .float _ => False
  | .arr items => PlainItems items
  | .obj fields => (fields.map Prod.fst).Nodup ∧ PlainFields fields
  | _ => True
termination_by structural value => value

def PlainItems : List Value → Prop
  | [] => True
  | item :: rest => Plain item ∧ PlainItems rest
termination_by structural items => items

def PlainFields : List (String × Value) → Prop
  | [] => True
  | field :: rest => PlainField field ∧ PlainFields rest
termination_by structural fields => fields

def PlainField : String × Value → Prop
  | (_, value) => Plain value
termination_by structural field => field

end

theorem plainItems_iff {items : List Value} : PlainItems items ↔ ∀ item ∈ items, Plain item := by
  induction items with
  | nil => simp [PlainItems]
  | cons item items ih => simp [PlainItems, ih]

theorem plainFields_iff {fields : List (String × Value)} : PlainFields fields ↔ ∀ field ∈ fields, Plain field.2 := by
  induction fields with
  | nil => simp [PlainFields]
  | cons field fields ih =>
    obtain ⟨key, value⟩ := field
    simp [PlainFields, PlainField, ih]

variable {rest : Text} {value : Value} {fuel : Nat}

theorem skipSpace_cons {c : Char} (h : isSpace c = false) : skipSpace (c :: rest) = c :: rest := by
  simp [skipSpace, h]

theorem printInt_head (value : Int) : ∃ c tail, printInt value = c :: tail ∧ (c = '-' ∨ isDigit c = true) := by
  cases value with
  | ofNat n =>
    cases hdigits : Nat.toDigits 10 n with
    | nil => exact absurd hdigits Nat.toDigits_ne_nil
    | cons c tail =>
      exact ⟨c, tail, hdigits, Or.inr (isDigit_of_mem_toDigits (by rw [hdigits]; exact mem_cons_self))⟩
  | negSucc n => exact ⟨'-', _, rfl, Or.inl rfl⟩

theorem number_start {c : Char} (h : c = '-' ∨ isDigit c = true) :
    c.toNat < 128 ∧ isSpace c = false ∧ c ≠ ']' ∧ c ≠ '}' ∧ c ≠ '"' ∧ c ≠ '[' ∧ c ≠ '{' ∧ c ≠ 'n' ∧ c ≠ 't' ∧ c ≠ 'f' ∧ c ≠ 'N' ∧ c ≠ 'I' := by
  rcases h with rfl | h
  · decide
  · have hrange : 48 ≤ c.toNat ∧ c.toNat ≤ 57 := by
      simpa [isDigit, Char.le_def, UInt32.le_iff_toNat_le] using h
    refine ⟨by omega, ?_, ?_, ?_, ?_, ?_, ?_, ?_, ?_, ?_, ?_, ?_⟩
    · simp only [isSpace, Bool.or_eq_false_iff, decide_eq_false_iff_not]
      refine ⟨⟨⟨?_, ?_⟩, ?_⟩, ?_⟩ <;> rintro rfl <;> exact absurd hrange (by decide)
    all_goals
      rintro rfl
      exact absurd hrange (by decide)

theorem print_head (h : Plain value) :
    ∃ c tail, print value = c :: tail ∧ isSpace c = false ∧ c ≠ ']' ∧ c ≠ byteOrderMark := by
  cases value with
  | null => exact ⟨'n', _, rfl, by decide, by decide, by decide⟩
  | bool value =>
    cases value with
    | true => exact ⟨'t', _, rfl, by decide, by decide, by decide⟩
    | false => exact ⟨'f', _, rfl, by decide, by decide, by decide⟩
  | int value =>
    obtain ⟨c, tail, heq, hc⟩ := printInt_head value
    obtain ⟨hascii, hspace, hbracket, -⟩ := number_start hc
    refine ⟨c, tail, heq, hspace, hbracket, ?_⟩
    rintro rfl
    exact absurd hascii (by decide)
  | float literal => exact absurd h id
  | str text => exact ⟨'"', _, rfl, by decide, by decide, by decide⟩
  | arr items => exact ⟨'[', _, rfl, by decide, by decide, by decide⟩
  | obj fields => exact ⟨'{', _, rfl, by decide, by decide, by decide⟩

theorem no_constant {c : Char} {tail : Text} (hn : c ≠ 'n') (ht : c ≠ 't') (hf : c ≠ 'f') (hN : c ≠ 'N')
    (hI : c ≠ 'I') (hsign : c = '-' → ∀ d ∈ tail.head?, d ≠ 'I') :
    (constants.find? fun constant => constant.1.isPrefixOf (c :: tail)) = none := by
  have hminus : ("-Infinity".toList).isPrefixOf (c :: tail) = false := by
    by_cases hc : c = '-'
    · cases tail with
      | nil => simp [List.isPrefixOf]
      | cons d tail =>
        have hd := hsign hc d rfl
        simp [List.isPrefixOf, hd.symm]
    · simp [List.isPrefixOf, Ne.symm hc]
  simp only [constants, find?_eq_none, mem_cons, not_mem_nil, or_false, forall_eq_or_imp, forall_eq,
    hminus, Bool.not_eq_true, and_true]
  simp [List.isPrefixOf, hn.symm, ht.symm, hf.symm, hN.symm, hI.symm]

theorem parseScalar_int (value : Int) (hrest : Ends rest) :
    parseScalar (printInt value ++ rest) = some (.int value, rest) := by
  have hparse := parseNumber_print value hrest
  obtain ⟨c, tail, heq, hc⟩ := printInt_head value
  have hsign : c = '-' → ∀ d ∈ (tail ++ rest).head?, d ≠ 'I' := by
    intro hminus d hd
    cases value with
    | ofNat n =>
      have hdigit : isDigit c = true := isDigit_of_mem_toDigits (n := n) (by
        rw [show Nat.toDigits 10 n = c :: tail from heq]
        exact mem_cons_self)
      rw [hminus] at hdigit
      exact absurd hdigit (by decide)
    | negSucc n =>
      cases heq
      cases hdigits : Nat.toDigits 10 (n + 1) with
      | nil => exact absurd hdigits Nat.toDigits_ne_nil
      | cons e more =>
        have hdigit : isDigit e = true := isDigit_of_mem_toDigits (by rw [hdigits]; exact mem_cons_self)
        rw [hdigits] at hd
        cases hd
        exact (number_start (Or.inr hdigit)).2.2.2.2.2.2.2.2.2.2.2
  obtain ⟨-, -, -, -, -, -, -, hn, ht, hf, hN, hI⟩ := number_start hc
  have hnone := no_constant hn ht hf hN hI hsign
  rw [heq] at hparse ⊢
  rw [cons_append] at hparse ⊢
  rw [parseScalar, hnone]
  exact hparse

def ReadsValues (fuel : Nat) : Prop :=
  ∀ value rest, Plain value → Ends rest → (print value).length + 1 ≤ fuel →
    parseValue refuseRepeated fuel (print value ++ rest) = some (value, rest)

def ReadsItems (fuel : Nat) : Prop :=
  ∀ item items rest, PlainItems (item :: items) → (printItems (item :: items)).length + 2 ≤ fuel →
    parseItems refuseRepeated fuel (printItems (item :: items) ++ ']' :: rest) = some (item :: items, rest)

def ReadsFields (fuel : Nat) : Prop :=
  ∀ field fields rest, PlainFields (field :: fields) → (printFields (field :: fields)).length + 2 ≤ fuel →
    parseFields refuseRepeated fuel (printFields (field :: fields) ++ '}' :: rest) = some (field :: fields, rest)

theorem printItems_head {item : Value} (items : List Value) (h : Plain item) (rest : Text) :
    ∃ c tail, printItems (item :: items) ++ rest = c :: tail ∧ isSpace c = false ∧ c ≠ ']' := by
  obtain ⟨c, tail, heq, hspace, hbracket, -⟩ := print_head h
  refine ⟨c, tail ++ printRestItems items ++ rest, ?_, hspace, hbracket⟩
  rw [printItems, heq]
  simp

theorem printFields_head (field : String × Value) (fields : List (String × Value)) (rest : Text) :
    ∃ tail, printFields (field :: fields) ++ rest = '"' :: tail := by
  obtain ⟨key, value⟩ := field
  exact ⟨_, rfl⟩

theorem readsValues_succ (hitems : ReadsItems fuel) (hfields : ReadsFields fuel) :
    ReadsValues (fuel + 1) := by
  intro value rest hplain hrest hfuel
  cases value with
  | null => rfl
  | bool value =>
    cases value with
    | true => rfl
    | false => rfl
  | int value =>
    have hscalar := parseScalar_int value hrest
    obtain ⟨c, tail, heq, hc⟩ := printInt_head value
    obtain ⟨-, -, -, -, hquote, hbracket, hbrace, -⟩ := number_start hc
    rw [print]
    rw [heq, cons_append] at hscalar ⊢
    rw [parseValue]
    · exact hscalar
    · exact fun tail h => hquote (List.cons.inj h).1
    · exact fun tail h => hbracket (List.cons.inj h).1
    · exact fun tail h => hbrace (List.cons.inj h).1
  | float literal => exact absurd hplain id
  | str text =>
    rw [print, printString, cons_append, parseValue, append_assoc, singleton_append, parseString_print]
    rfl
  | arr items =>
    cases items with
    | nil => rfl
    | cons item items =>
      have hsize : (printItems (item :: items)).length + 2 ≤ fuel := by
        simp only [print, length_append, length_cons, length_nil] at hfuel
        omega
      have hread := hitems item items rest hplain hsize
      obtain ⟨c, tail, hstart, hspace, hbracket⟩ := printItems_head items hplain.1 (']' :: rest)
      have hprint : print (.arr (item :: items)) ++ rest = '[' :: (printItems (item :: items) ++ ']' :: rest) := by
        simp [print]
      rw [hstart] at hread hprint
      rw [hprint, parseValue, skipSpace_cons hspace]
      split
      next h => exact absurd (List.cons.inj h).1 hbracket
      next =>
        rw [hread]
        rfl
  | obj fields =>
    cases fields with
    | nil => rfl
    | cons field fields =>
      obtain ⟨hnodup, hplain⟩ := hplain
      have hsize : (printFields (field :: fields)).length + 2 ≤ fuel := by
        simp only [print, length_append, length_cons, length_nil] at hfuel
        omega
      have hread := hfields field fields rest hplain hsize
      obtain ⟨tail, hstart⟩ := printFields_head field fields ('}' :: rest)
      have hprint : print (.obj (field :: fields)) ++ rest = '{' :: (printFields (field :: fields) ++ '}' :: rest) := by
        simp [print]
      rw [hstart] at hread hprint
      rw [hprint, parseValue, skipSpace_cons (by decide)]
      split
      next h => exact absurd (List.cons.inj h).1 (by decide)
      next =>
        have hbuild : refuseRepeated (field :: fields) = some (field :: fields) := if_pos hnodup
        rw [hread]
        simp only [hbuild, Option.map_some]

theorem readsItems_succ (hvalues : ReadsValues fuel) (hitems : ReadsItems fuel) :
    ReadsItems (fuel + 1) := by
  intro item items rest hplain hfuel
  obtain ⟨hitem, hplain⟩ := hplain
  cases items with
  | nil =>
    have hprint : printItems [item] = print item := by simp [printItems, printRestItems]
    rw [hprint] at hfuel ⊢
    have hfirst := hvalues item (']' :: rest) hitem (by simp [Ends]) (by omega)
    rw [parseItems, hfirst]
    simp only [skipSpace_cons (show isSpace ']' = false by decide)]
  | cons next items =>
    have hprint : printItems (item :: next :: items) = print item ++ ',' :: printItems (next :: items) := by
      simp only [printItems, printRestItems, cons_append]
    rw [hprint, length_append, length_cons] at hfuel
    have hfirst := hvalues item (',' :: (printItems (next :: items) ++ ']' :: rest)) hitem (by simp [Ends]) (by omega)
    have hread := hitems next items rest hplain (by omega)
    obtain ⟨c, tail, hstart, hspace, -⟩ := printItems_head items hplain.1 (']' :: rest)
    rw [hprint, append_assoc, cons_append, parseItems, hfirst]
    simp only [skipSpace_cons (show isSpace ',' = false by decide)]
    rw [hstart] at hread ⊢
    rw [skipSpace_cons hspace, hread]
    rfl

/-- One field reads its name, then its value up to the separator. -/
theorem readsField (hvalues : ReadsValues fuel) {key : String} {value : Value} (hvalue : Plain value) (more : Text)
    (hsize : (print value).length + 1 ≤ fuel) (hends : Ends more) :
    parseFields refuseRepeated (fuel + 1) (printField (key, value) ++ more) =
      match skipSpace more with
      | '}' :: tail => some ([(key, value)], tail)
      | ',' :: tail => (parseFields refuseRepeated fuel (skipSpace tail)).map fun r => ((key, value) :: r.1, r.2)
      | _ => none := by
  obtain ⟨c, tail, heq, hspace, -⟩ := print_head hvalue
  have hread := hvalues value more hvalue hends hsize
  have hshape : printField (key, value) ++ more =
      '"' :: (key.toList.flatMap escapeChar ++ '"' :: ':' :: (print value ++ more)) := by
    simp [printField, printString]
  rw [hshape, parseFields, parseString_print]
  simp only [skipSpace_cons (show isSpace ':' = false by decide), String.ofList_toList]
  rw [heq, cons_append] at hread ⊢
  simp only [skipSpace_cons hspace, hread] <;> rfl

theorem readsFields_succ (hvalues : ReadsValues fuel) (hfields : ReadsFields fuel) :
    ReadsFields (fuel + 1) := by
  intro field fields rest hplain hfuel
  obtain ⟨key, value⟩ := field
  obtain ⟨hvalue, hplain⟩ := hplain
  have hone := @readsField fuel hvalues key value hvalue
  have hlen : (print value).length + 1 ≤ (printField (key, value)).length := by
    simp only [printField, printString, length_append, length_cons]
    omega
  cases fields with
  | nil =>
    have hprint : printFields [(key, value)] = printField (key, value) := by simp [printFields, printRestFields]
    rw [hprint] at hfuel ⊢
    rw [hone ('}' :: rest) (by omega) (by simp [Ends])]
    rfl
  | cons next fields =>
    have hprint : printFields ((key, value) :: next :: fields) =
        printField (key, value) ++ ',' :: printFields (next :: fields) := by
      simp only [printFields, printRestFields, cons_append]
    rw [hprint, length_append, length_cons] at hfuel
    have hread := hfields next fields rest hplain (by omega)
    obtain ⟨tail, hstart⟩ := printFields_head next fields ('}' :: rest)
    rw [hprint, append_assoc, cons_append, hone _ (by omega) (by simp [Ends])]
    simp only [skipSpace_cons (show isSpace ',' = false by decide)]
    rw [hstart] at hread ⊢
    rw [skipSpace_cons (by decide), hread]
    rfl

theorem reads (fuel : Nat) : ReadsValues fuel ∧ ReadsItems fuel ∧ ReadsFields fuel := by
  induction fuel with
  | zero =>
    refine ⟨?_, ?_, ?_⟩
    · intro value rest _ _ h
      omega
    · intro item items rest _ h
      omega
    · intro field fields rest _ h
      omega
  | succ fuel ih =>
    obtain ⟨hvalues, hitems, hfields⟩ := ih
    exact ⟨readsValues_succ hitems hfields, readsItems_succ hvalues hitems, readsFields_succ hvalues hfields⟩

theorem isSpace_newline_only (h : rest = [] ∨ rest = ['\n']) : skipSpace rest = [] := by
  rcases h with rfl | rfl <;> rfl

theorem loads_print (hplain : Plain value) (hrest : rest = [] ∨ rest = ['\n']) :
    loads (print value ++ rest) = some value := by
  have hends : Ends rest := by
    rcases hrest with rfl | rfl
    · simp [Ends]
    · simp [Ends]
  obtain ⟨c, tail, heq, hspace, -, hbom⟩ := print_head hplain
  have hread := (reads (2 * (print value ++ rest).length + 2)).1 value rest hplain hends (by simp; omega)
  have hmark : (print value ++ rest).head? ≠ some byteOrderMark := by
    rw [heq]
    exact fun h => hbom (Option.some.inj h)
  unfold loads loadsWith
  rw [if_neg hmark]
  have hskip : skipSpace (print value ++ rest) = print value ++ rest := by
    rw [heq]
    exact skipSpace_cons hspace
  rw [hskip, hread]
  exact if_pos (isSpace_newline_only hrest)

theorem keys_sortFields (fields : List (String × Value)) : (sortFields fields).map Prod.fst = fields.map Prod.fst := by
  induction fields with
  | nil => rfl
  | cons field fields ih =>
    obtain ⟨key, value⟩ := field
    simp [sortFields, sortField, ih]

theorem plainFields_perm {fields fields' : List (String × Value)} (h : fields.Perm fields') :
    PlainFields fields ↔ PlainFields fields' := by
  rw [plainFields_iff, plainFields_iff]
  exact ⟨fun hall field hfield => hall field (h.mem_iff.mpr hfield),
    fun hall field hfield => hall field (h.mem_iff.mp hfield)⟩

mutual

theorem plain_sortKeys : (value : Value) → Plain value → Plain (sortKeys value)
  | .null, h | .bool _, h | .int _, h | .str _, h => h
  | .arr items, h => plainItems_sortItems items h
  | .obj fields, h => by
    obtain ⟨hnodup, hplain⟩ := h
    have hperm : ((sortFields fields).insertionSort fun a b => a.1 ≤ b.1).Perm (sortFields fields) :=
      perm_insertionSort _ _
    refine ⟨?_, (plainFields_perm hperm).mpr (plainFields_sortFields fields hplain)⟩
    rw [(hperm.map Prod.fst).nodup_iff, keys_sortFields]
    exact hnodup

theorem plainItems_sortItems : (items : List Value) → PlainItems items → PlainItems (sortItems items)
  | [], h => h
  | item :: items, h => ⟨plain_sortKeys item h.1, plainItems_sortItems items h.2⟩

theorem plainFields_sortFields : (fields : List (String × Value)) → PlainFields fields → PlainFields (sortFields fields)
  | [], h => h
  | field :: fields, h => ⟨plainField_sortField field h.1, plainFields_sortFields fields h.2⟩

theorem plainField_sortField : (field : String × Value) → PlainField field → PlainField (sortField field)
  | (_, value), h => plain_sortKeys value h

end

theorem loads_dumps (hplain : Plain value) (hrest : rest = [] ∨ rest = ['\n']) :
    loads (dumps value ++ rest) = some (sortKeys value) :=
  loads_print (plain_sortKeys value hplain) hrest

end

end Json
