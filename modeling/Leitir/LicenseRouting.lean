import Leitir.LicenseEvidence
import Leitir.LicenseTokens

/-! The routing of a source by the licences that its expressions name. -/

namespace Leitir.License

open List

def copyleftIds : List Text :=
  ["AGPL-3.0-only", "AGPL-3.0-or-later", "EPL-1.0", "EPL-2.0", "GPL-2.0", "GPL-2.0-only", "GPL-2.0-or-later", "GPL-3.0",
    "GPL-3.0-only", "GPL-3.0-or-later", "LGPL-2.1-only", "LGPL-2.1-or-later", "LGPL-3.0-only", "LGPL-3.0-or-later",
    "MPL-2.0"].map String.toList

def transplantOk : Text := "transplant-ok".toList

def studyOnly : Text := "study-only".toList

def reasonLicenseUndetermined : Text := "license-undetermined".toList

structure LicenseRouting where
  verdict : Text
  reason : Text
deriving DecidableEq

def isSign (ch : Char) : Bool := isPart ch || ch = '+'

def findTokens (text : Text) : List Text :=
  ((text.splitOnP fun ch => !isSign ch).map fun run => run.dropWhile fun ch => !isAlnum ch).filter fun token => token ≠ []

def expressionLicenseIds : Option Text → List Text
  | none => []
  | some value => (findTokens value).filter fun token => token ∈ licenseIds ∨ licenseRef <+: token

def classify (tokens : List Text) : List Text := tokens.filter fun token => token ∈ reviewed ∨ token ∈ copyleftIds

structure Contributors where
  copyleft : List Text
  permissive : List Text
  undetermined : Bool

def contribute (state : Contributors) (value : Option Text) : Contributors :=
  let tokens := expressionLicenseIds value
  let classified := classify tokens
  { copyleft := state.copyleft ++ classified.filter fun token => token ∈ copyleftIds
    permissive := state.permissive ++ classified.filter fun token => token ∉ copyleftIds
    undetermined := state.undetermined || decide (classified = [] ∨ ∃ token ∈ tokens, licenseRef <+: token) }

def contributors (expressions : List (Option Text)) : Contributors :=
  expressions.foldl contribute ⟨[], [], decide (expressions = [])⟩

def listed (label : String) (identifiers : List Text) : List Text :=
  (KeyedList.sortBy (fun identifier => [textKey identifier]) identifiers.dedup).map fun identifier => label.toList ++ identifier

def routingForSource (expressions : List (Option Text)) (proprietaryMarker enterpriseCarveOut : Bool) : LicenseRouting :=
  if proprietaryMarker then ⟨studyOnly, "proprietary".toList⟩
  else if enterpriseCarveOut then ⟨studyOnly, "enterprise-tree-carve-out".toList⟩
  else
    let found := contributors expressions
    if found.copyleft = [] ∧ found.permissive = [] then ⟨studyOnly, reasonLicenseUndetermined⟩
    else if found.copyleft ≠ [] ∨ found.undetermined then
      ⟨studyOnly, [','].intercalate (listed "copyleft:" found.copyleft ++
        (if found.undetermined then [reasonLicenseUndetermined] else []) ++ listed "permissive:" found.permissive)⟩
    else ⟨transplantOk, [','].intercalate (listed "permissive:" found.permissive)⟩

section

variable {expressions : List (Option Text)}

theorem mem_copyleft {state : Contributors} {token : Text} :
    token ∈ (expressions.foldl contribute state).copyleft ↔ token ∈ state.copyleft ∨
      ∃ value ∈ expressions, token ∈ classify (expressionLicenseIds value) ∧ token ∈ copyleftIds := by
  induction expressions generalizing state with
  | nil => simp
  | cons value expressions ih =>
    rw [foldl_cons, ih]
    simp only [contribute, mem_append, mem_filter, decide_eq_true_eq, mem_cons, exists_eq_or_imp]
    rw [or_assoc]

theorem undetermined_iff {state : Contributors} :
    (expressions.foldl contribute state).undetermined = true ↔ state.undetermined = true ∨
      ∃ value ∈ expressions, classify (expressionLicenseIds value) = [] ∨
        ∃ token ∈ expressionLicenseIds value, licenseRef <+: token := by
  induction expressions generalizing state with
  | nil => simp
  | cons value expressions ih =>
    rw [foldl_cons, ih]
    simp only [contribute, Bool.or_eq_true, decide_eq_true_eq, mem_cons, exists_eq_or_imp]
    rw [or_assoc]

/-- A source goes to the transplant only when no expression names a copyleft licence or a reference. -/
theorem transplantOk_spec {proprietaryMarker enterpriseCarveOut : Bool}
    (h : (routingForSource expressions proprietaryMarker enterpriseCarveOut).verdict = transplantOk) :
    ∀ value ∈ expressions, (∀ token ∈ classify (expressionLicenseIds value), token ∉ copyleftIds) ∧
      ∀ token ∈ expressionLicenseIds value, ¬ licenseRef <+: token := by
  have hother : studyOnly ≠ transplantOk := by decide
  unfold routingForSource at h
  split at h
  next => exact absurd h hother
  next =>
    split at h
    next => exact absurd h hother
    next =>
      dsimp only at h
      split at h
      next => exact absurd h hother
      next =>
        split at h
        next => exact absurd h hother
        next hclear =>
          rw [not_or, not_not] at hclear
          intro value hvalue
          constructor
          · intro token htoken hcopyleft
            have hmem : token ∈ (contributors expressions).copyleft :=
              mem_copyleft.mpr (Or.inr ⟨value, hvalue, htoken, hcopyleft⟩)
            rw [hclear.1] at hmem
            cases hmem
          · intro token htoken href
            exact hclear.2 (undetermined_iff.mpr (Or.inr ⟨value, hvalue, Or.inr ⟨token, htoken, href⟩⟩))

end

theorem findTokens_cons {ch : Char} (h : isSign ch = false) (text : Text) : findTokens (ch :: text) = findTokens text := by
  unfold findTokens
  rw [splitOnP_cons_eq_if_modifyHead, if_pos (by simp [h])]
  simp

theorem findTokens_append {lead : Text} (h : ∀ ch ∈ lead, isSign ch = false) (text : Text) :
    findTokens (lead ++ text) = findTokens text := by
  induction lead with
  | nil => rfl
  | cons ch lead ih =>
    rw [cons_append, findTokens_cons (h ch mem_cons_self)]
    exact ih fun other hother => h other (mem_cons_of_mem _ hother)

theorem findTokens_run {run more : Text} (hhead : ∃ ch ∈ run.head?, isAlnum ch = true) (hrun : ∀ ch ∈ run, isSign ch = true)
    (hmore : ∀ ch ∈ more.head?, isSign ch = false) : findTokens (run ++ more) = run :: findTokens more := by
  have hsigns : ∀ ch ∈ run, (!isSign ch) = false := by
    intro ch hch
    simp [hrun ch hch]
  have hkeep : run.dropWhile (fun ch => !isAlnum ch) = run ∧ run ≠ [] := by
    obtain ⟨ch, hch, halnum⟩ := hhead
    cases run with
    | nil => cases hch
    | cons first rest =>
      cases hch
      simp [halnum]
  unfold findTokens
  cases more with
  | nil =>
    rw [append_nil, splitOnP_eq_singleton hsigns]
    simp [hkeep.1, hkeep.2]
  | cons ch more =>
    have hch := hmore ch rfl
    rw [splitOnP_append_cons_of_forall_mem hsigns ch (by simp [hch]), splitOnP_cons_eq_if_modifyHead,
      if_pos (by simp [hch])]
    simp [hkeep.1, hkeep.2]

theorem isSign_of_isPart {ch : Char} (h : isPart ch = true) : isSign ch = true := by
  simp [isSign, h]

theorem isSign_of_isBlank {ch : Char} (h : isBlank ch = true) : isSign ch = false := by
  simp only [isBlank, Bool.or_eq_true, decide_eq_true_eq] at h
  rcases h with rfl | rfl
  · decide
  · decide

theorem operatorsSpaced_append {before : Option Char} {lead text : Text} {last : Char} (hlast : lead.getLast? = some last)
    (h : operatorsSpaced before (lead ++ text) = true) : operatorsSpaced (some last) text = true := by
  induction lead generalizing before with
  | nil => cases hlast
  | cons ch lead ih =>
    rw [cons_append] at h
    unfold operatorsSpaced at h
    obtain ⟨-, hrest⟩ := Bool.and_eq_true_iff.mp h
    cases lead with
    | nil =>
      cases hlast
      exact hrest
    | cons next lead => exact ih (by simpa using hlast) hrest

theorem operator_spaced {before : Char} {operator more : Text} (hoperator : operator ∈ operators) (hbefore : isPart before = false)
    (hmore : ∀ ch ∈ more.head?, isPart ch = false) (h : operatorsSpaced (some before) (operator ++ more) = true) :
    isBlank before = true := by
  have hne : operator ≠ [] := by
    intro hnil
    rw [hnil] at hoperator
    exact absurd hoperator (by decide)
  obtain ⟨ch, rest, rfl⟩ := exists_cons_of_ne_nil hne
  rw [cons_append] at h
  unfold operatorsSpaced at h
  obtain ⟨hall, -⟩ := Bool.and_eq_true_iff.mp h
  have hown := all_eq_true.mp hall _ hoperator
  rw [← cons_append, Option.any_some, hbefore, decide_eq_true (prefix_append _ _), if_neg (by simp),
    drop_left] at hown
  have hafter : more.head?.any isPart = false := by
    cases hhead : more.head? with
    | none => rfl
    | some next => exact hmore next hhead
  dsimp only at hown
  rw [hafter, Bool.false_or, Bool.and_eq_true] at hown
  exact hown.1

/-- The tokens of the parser among the runs of signs: a word as it is, and of a reference the name of the licence. -/
def Shown (words : List Text) (token : Text) : Prop :=
  token = ['('] ∨ token = [')'] ∨ ¬ IsRef token ∧ token ∈ words ∨ ∃ word ∈ words, licenseRef <+: word

theorem Shown.cons {words : List Text} {token : Text} (h : Shown words token) (word : Text) : Shown (word :: words) token := by
  rcases h with h | h | ⟨href, hmem⟩ | ⟨other, hother, hprefix⟩
  · exact Or.inl h
  · exact Or.inr (Or.inl h)
  · exact Or.inr (Or.inr (Or.inl ⟨href, mem_cons_of_mem _ hmem⟩))
  · exact Or.inr (Or.inr (Or.inr ⟨other, mem_cons_of_mem _ hother, hprefix⟩))

theorem shown_run {run : Text} (hrun : ∀ ch ∈ run, isSign ch = true) {words : List Text} (hmem : run ∈ words) :
    Shown words run := by
  by_cases href : IsRef run
  · refine Or.inr (Or.inr (Or.inr ⟨run, hmem, href.resolve_right ?_⟩))
    rintro ⟨lead, tail, rfl⟩
    exact absurd (hrun ':' (by simp)) (by decide)
  · exact Or.inr (Or.inr (Or.inl ⟨href, hmem⟩))

/-- Behind a token that is no grouping sign there is a blank, a grouping sign or the end. -/
theorem token_ends {token more : Text} {tokens : List Text} {before : Option Char} {lead : Text} (hsign : token ≠ ['('] ∧ token ≠ [')'])
    (hmaximal : Maximal token more) (hcuts : Cuts more tokens) (hchain : (token :: tokens).IsChain Adjoins)
    (hspaced : operatorsSpaced before (lead ++ token ++ more) = true) : ∀ ch ∈ more.head?, isSign ch = false := by
  intro ch hch
  by_contra hsigned
  rw [Bool.not_eq_false] at hsigned
  have hblank : isBlank ch = false := by
    by_contra hblank
    rw [isSign_of_isBlank (by simpa using hblank)] at hsigned
    cases hsigned
  have hdrop : more.dropWhile isBlank = more := by
    cases more with
    | nil => rfl
    | cons first more =>
      cases hch
      simp [hblank]
  cases hcuts with
  | nil hnil =>
    rw [← hdrop, hnil] at hch
    cases hch
  | @cons _ next rest tokens hnext _ =>
    rw [hdrop] at hnext
    obtain ⟨hnexttoken, rfl, hmaximal'⟩ := tokenAt_some hnext
    obtain ⟨first, hfirst, -, hplus⟩ := hnexttoken.head
    have heq : first = ch := by
      rw [head?_append, Option.mem_def.mp hfirst] at hch
      exact Option.some.inj hch
    subst heq
    have hpart : isPart first = true := by
      simp only [isSign, Bool.or_eq_true, decide_eq_true_eq] at hsigned
      exact hsigned.resolve_right hplus
    -- Only the sign for later versions ends a token in front of a name, and the parser wants an operator there.
    have hlast : token.getLast? = some '+' := by
      rcases hmaximal first hch hpart with hlast | hopen | hclose
      · exact hlast
      · exact absurd hopen hsign.1
      · exact absurd hclose hsign.2
    have hoperator : next ∈ operators := by
      rcases (isChain_cons_cons.mp hchain).1 with hown | hopen | hoperator | hclose
      · have hnot : ∀ operator ∈ operators, operator.getLast? ≠ some '+' := by decide
        exact absurd hlast (hnot token hown)
      · exact absurd hopen hsign.1
      · exact hoperator
      · rw [hclose] at hfirst
        cases hfirst
        exact absurd hpart (by decide)
    have hnot : ∀ operator ∈ operators, operator.getLast? ≠ some '+' ∧ operator ≠ ['('] ∧ operator ≠ [')'] := by decide
    obtain ⟨hnotplus, hnotopen, hnotclose⟩ := hnot next hoperator
    have hends : ∀ other ∈ rest.head?, isPart other = false := by
      intro other hother
      by_contra hpart'
      rcases hmaximal' other hother (by simpa using hpart') with h | h | h
      · exact hnotplus h
      · exact hnotopen h
      · exact hnotclose h
    have hlead : (lead ++ token).getLast? = some '+' := by
      rw [getLast?_append, hlast]
      rfl
    have hafter := operatorsSpaced_append hlead hspaced
    exact absurd (operator_spaced hoperator (by decide) hends hafter) (by decide)

/-- A run and what follows it, with the token that it shows. -/
theorem shown_token {token more : Text} (htoken : Token token) (hmore : token ≠ ['('] ∧ token ≠ [')'] → ∀ ch ∈ more.head?, isSign ch = false) :
    Shown (findTokens (token ++ more)) token ∧ ∀ other, Shown (findTokens more) other → Shown (findTokens (token ++ more)) other := by
  have hword : ∀ {run : Text}, (∃ ch ∈ run.head?, isAlnum ch = true) → (∀ ch ∈ run, isSign ch = true) → token = run →
      Shown (findTokens (token ++ more)) token ∧ ∀ other, Shown (findTokens more) other → Shown (findTokens (token ++ more)) other := by
    rintro run hhead hrun rfl
    have hgroup : token ≠ ['('] ∧ token ≠ [')'] := by
      constructor
      · rintro rfl
        exact absurd (hrun '(' mem_cons_self) (by decide)
      · rintro rfl
        exact absurd (hrun ')' mem_cons_self) (by decide)
    rw [findTokens_run hhead hrun (hmore hgroup)]
    exact ⟨shown_run hrun mem_cons_self, fun other hother => hother.cons _⟩
  cases htoken with
  | word hhead hbody => exact hword hhead (fun ch hch => isSign_of_isPart (hbody ch hch)) rfl
  | plus hhead hbody _ =>
    refine hword (head_alnum_of_append hhead) (fun ch hch => ?_) rfl
    rcases mem_append.mp hch with hch | hch
    · exact isSign_of_isPart (hbody ch hch)
    · rw [mem_singleton.mp hch]
      decide
  | @document name reference hname hparts hreference hparts' =>
    have hcolon : ':' ∈ documentRef ++ name ++ (':' :: licenseRef ++ reference) := by simp
    have hgroup : documentRef ++ name ++ (':' :: licenseRef ++ reference) ≠ ['('] ∧
        documentRef ++ name ++ (':' :: licenseRef ++ reference) ≠ [')'] := by
      refine ⟨fun heq => ?_, fun heq => ?_⟩
      · rw [heq] at hcolon
        exact absurd hcolon (by decide)
      · rw [heq] at hcolon
        exact absurd hcolon (by decide)
    have hends := hmore hgroup
    have hdocument : ∃ ch ∈ documentRef.head?, isAlnum ch = true := ⟨'D', by decide, by decide⟩
    have hlicense : ∃ ch ∈ licenseRef.head?, isAlnum ch = true := ⟨'L', by decide, by decide⟩
    have hfirst : ∀ ch ∈ documentRef ++ name, isSign ch = true := by
      intro ch hch
      rcases mem_append.mp hch with hch | hch
      · exact isSign_of_isPart (documentRef_parts ch hch)
      · exact isSign_of_isPart (hparts ch hch)
    have hsecond : ∀ ch ∈ licenseRef ++ reference, isSign ch = true := by
      intro ch hch
      rcases mem_append.mp hch with hch | hch
      · exact isSign_of_isPart (licenseRef_parts ch hch)
      · exact isSign_of_isPart (hparts' ch hch)
    have hwords : findTokens (documentRef ++ name ++ (':' :: licenseRef ++ reference) ++ more) =
        (documentRef ++ name) :: (licenseRef ++ reference) :: findTokens more := by
      rw [append_assoc, findTokens_run (head_alnum_of_append hdocument) hfirst (by intro ch hch; cases hch; rfl),
        cons_append, cons_append, findTokens_cons (by decide), findTokens_run (head_alnum_of_append hlicense) hsecond hends]
    rw [hwords]
    refine ⟨Or.inr (Or.inr (Or.inr ⟨licenseRef ++ reference, by simp, prefix_append _ _⟩)), fun other hother => ?_⟩
    exact (hother.cons _).cons _
  | sign hsign =>
    rename_i ch
    have hnot : isSign ch = false := by
      rcases hsign with rfl | rfl
      · decide
      · decide
    rw [singleton_append, findTokens_cons hnot]
    refine ⟨?_, fun other hother => hother⟩
    rcases hsign with rfl | rfl
    · exact Or.inl rfl
    · exact Or.inr (Or.inl rfl)

/-- Every token that the parser has read is shown among the runs of signs. -/
theorem shown_of_cuts {text : Text} {tokens : List Text} (hcuts : Cuts text tokens) {before : Option Char} {lead : Text}
    (hspaced : operatorsSpaced before (lead ++ text) = true) (hchain : tokens.IsChain Adjoins) {tail : Text}
    (htail : ∀ ch ∈ tail, isSign ch = false) : ∀ token ∈ tokens, Shown (findTokens (text ++ tail)) token := by
  induction hcuts generalizing lead with
  | nil => simp
  | @cons text token more tokens htoken hcuts ih =>
    obtain ⟨hshape, htext, hmaximal⟩ := tokenAt_some htoken
    have hsplit : text = text.takeWhile isBlank ++ (token ++ more) := by
      rw [← htext, takeWhile_append_dropWhile]
    have hlead : lead ++ text = (lead ++ text.takeWhile isBlank) ++ token ++ more := by
      rw [append_assoc, append_assoc, ← hsplit]
    have hends : token ≠ ['('] ∧ token ≠ [')'] → ∀ ch ∈ (more ++ tail).head?, isSign ch = false := by
      intro hgroup ch hch
      cases more with
      | nil => exact htail ch (mem_of_mem_head? hch)
      | cons first more =>
        rw [hlead] at hspaced
        exact token_ends hgroup hmaximal hcuts hchain hspaced ch hch
    have hrest := ih (by rw [hlead] at hspaced; exact hspaced) (isChain_of_isChain_cons hchain)
    have hblanks : ∀ ch ∈ text.takeWhile isBlank, isSign ch = false := fun ch hch =>
      isSign_of_isBlank (mem_takeWhile_imp hch)
    have hwords : findTokens (text ++ tail) = findTokens (token ++ (more ++ tail)) := by
      calc findTokens (text ++ tail) = findTokens (text.takeWhile isBlank ++ (token ++ more) ++ tail) := by rw [← hsplit]
        _ = findTokens (token ++ (more ++ tail)) := by
          rw [append_assoc, findTokens_append hblanks, append_assoc]
    rw [hwords]
    obtain ⟨hown, hothers⟩ := shown_token hshape hends
    intro other hother
    rcases mem_cons.mp hother with rfl | hother
    · exact hown
    · exact hothers other (hrest other hother)

section

theorem isSign_code {ch : Char} (h : isSign ch = true) : ch.toNat = 43 ∨ ch.toNat = 45 ∨ ch.toNat = 46 ∨
    48 ≤ ch.toNat ∧ ch.toNat ≤ 57 ∨ 65 ≤ ch.toNat ∧ ch.toNat ≤ 90 ∨ 97 ≤ ch.toNat ∧ ch.toNat ≤ 122 := by
  simp only [isSign, isPart, isAlnum, Bool.or_eq_true, Bool.and_eq_true, decide_eq_true_eq, Char.le_def,
    UInt32.le_iff_toNat_le] at h
  rcases h with ((((hlower | hupper) | hdigit) | rfl) | rfl) | rfl
  · exact Or.inr (Or.inr (Or.inr (Or.inr (Or.inr hlower))))
  · exact Or.inr (Or.inr (Or.inr (Or.inr (Or.inl hupper))))
  · exact Or.inr (Or.inr (Or.inr (Or.inl hdigit)))
  · decide
  · decide
  · decide

theorem isSign_of_isSpace {ch : Char} (h : isSpace ch = true) : isSign ch = false := by
  by_contra hsign
  have hcode := isSign_code (by simpa using hsign)
  simp only [isSpace, Bool.or_eq_true, Bool.and_eq_true, decide_eq_true_eq, mem_cons, not_mem_nil, or_false] at h
  omega

theorem strip_split (text : Text) : ∃ lead tail, text = lead ++ strip text ++ tail ∧ (∀ ch ∈ lead, isSpace ch = true) ∧
    ∀ ch ∈ tail, isSpace ch = true := by
  refine ⟨text.takeWhile isSpace, ((text.dropWhile isSpace).reverse.takeWhile isSpace).reverse, ?_,
    fun ch hch => mem_takeWhile_imp hch, fun ch hch => mem_takeWhile_imp (mem_reverse.mp hch)⟩
  unfold strip
  rw [append_assoc, ← reverse_append, takeWhile_append_dropWhile, reverse_reverse,
    takeWhile_append_dropWhile]

theorem ids_plain : ∀ id ∈ licenseIds, ¬ IsRef id ∧ baseId id = id ∧ id ≠ ['('] ∧ id ≠ [')'] := by
  decide +kernel

def Expr.LeafFormed (leaf : Text) : Prop := ¬ IsRef leaf ∧ baseId leaf ∈ licenseIds ∨ IsRef leaf

mutual

theorem leafFormed_of_wellFormed : (tree : Expr) → tree.WellFormed → ∀ leaf ∈ tree.identifiers, Expr.LeafFormed leaf
  | .license value, hformed, leaf, hleaf => by
    rw [mem_singleton.mp hleaf]
    exact Or.inl hformed.2
  | .ref value, hformed, leaf, hleaf => by
    rw [mem_singleton.mp hleaf]
    exact Or.inr hformed.2
  | .withException value exceptionId, hformed, leaf, hleaf => by
    rw [mem_singleton.mp hleaf]
    obtain ⟨href, hbase, -⟩ := ids_plain value hformed.1
    exact Or.inl ⟨href, hbase.symm ▸ hformed.1⟩
  | .and children, hformed, leaf, hleaf => leafFormed_of_wellFormedAll children hformed.2 leaf hleaf
  | .or children, hformed, leaf, hleaf => leafFormed_of_wellFormedAll children hformed.2 leaf hleaf

theorem leafFormed_of_wellFormedAll : (children : List Expr) → Expr.WellFormed.wellFormedAll children →
    ∀ leaf ∈ Expr.identifiers.identifiersAll children, Expr.LeafFormed leaf
  | [], _, leaf, hleaf => by cases hleaf
  | child :: rest, hformed, leaf, hleaf => by
    rcases mem_append.mp hleaf with hleaf | hleaf
    · exact leafFormed_of_wellFormed child hformed.1 leaf hleaf
    · exact leafFormed_of_wellFormedAll rest hformed.2 leaf hleaf

end

def IsLeaf (expressions : List (Option Text)) (leaf : Text) : Prop :=
  ∃ text, some text ∈ expressions ∧ ∃ tree, parse (strip text) = .ok tree ∧ leaf ∈ tree.identifiers

/-- The routing passes over the leaf: a licence with its sign for later versions, or one of neither class. -/
def Unrouted (leaf : Text) : Prop :=
  leaf.getLast? = some '+' ∧ leaf.dropLast ∉ reviewed ∨ leaf ∈ licenseIds ∧ leaf ∉ reviewed ∧ leaf ∉ copyleftIds

variable {leaf : Text}

theorem leaf_shown {text : Text} {tree : Expr} (h : parse (strip text) = .ok tree) (hleaf : leaf ∈ tree.identifiers) :
    Shown (findTokens text) leaf ∧ Expr.LeafFormed leaf := by
  obtain ⟨tokens, hcuts, hspaced, hchain, hleaves, hformed⟩ := parse_ok h
  obtain ⟨lead, tail, htext, hlead, htail⟩ := strip_split text
  have hshown := shown_of_cuts hcuts (show operatorsSpaced none ([] ++ strip text) = true from hspaced) hchain
    (fun ch hch => isSign_of_isSpace (htail ch hch)) leaf (hleaves leaf hleaf)
  rw [htext, append_assoc, findTokens_append fun ch hch => isSign_of_isSpace (hlead ch hch)]
  exact ⟨hshown, leafFormed_of_wellFormed tree hformed leaf hleaf⟩

theorem permissive_of_routed {expressions : List (Option Text)} {proprietaryMarker enterpriseCarveOut : Bool}
    (h : (routingForSource expressions proprietaryMarker enterpriseCarveOut).verdict = transplantOk)
    (hleaf : IsLeaf expressions leaf) (hrouted : ¬ Unrouted leaf) : baseId leaf ∈ reviewed := by
  obtain ⟨text, htext, tree, hparse, hmem⟩ := hleaf
  obtain ⟨hcopyleft, hrefs⟩ := transplantOk_spec h _ htext
  obtain ⟨hshown, hformed⟩ := leaf_shown hparse hmem
  have hgroup : leaf ≠ ['('] ∧ leaf ≠ [')'] := by
    refine ⟨fun heq => ?_, fun heq => ?_⟩
    · subst heq
      exact absurd hformed (by unfold Expr.LeafFormed; decide +kernel)
    · subst heq
      exact absurd hformed (by unfold Expr.LeafFormed; decide +kernel)
  rcases hshown with heq | heq | ⟨href, hword⟩ | ⟨word, hword, hprefix⟩
  · exact absurd heq hgroup.1
  · exact absurd heq hgroup.2
  · have hid := (hformed.resolve_right href).2
    unfold baseId at hid ⊢
    unfold Unrouted at hrouted
    split at hid
    next hplus =>
      rw [if_pos hplus]
      by_contra hnot
      exact hrouted (Or.inl ⟨hplus, hnot⟩)
    next hplus =>
      rw [if_neg hplus]
      by_contra hnot
      have hclass : leaf ∈ copyleftIds := by
        by_contra hother
        exact hrouted (Or.inr ⟨hid, hnot, hother⟩)
      have hfound : leaf ∈ expressionLicenseIds (some text) := mem_filter.mpr ⟨hword, by simp [hid]⟩
      exact hcopyleft leaf (mem_filter.mpr ⟨hfound, by simp [hclass]⟩) hclass
  · have hfound : word ∈ expressionLicenseIds (some text) := mem_filter.mpr ⟨hword, by simp [ hprefix]⟩
    exact absurd hprefix (hrefs word hfound)

/-- The leaves of a source for the transplant are all permissive exactly when the routing has passed over none. -/
theorem transplantOk_permissive_iff {expressions : List (Option Text)} {proprietaryMarker enterpriseCarveOut : Bool}
    (h : (routingForSource expressions proprietaryMarker enterpriseCarveOut).verdict = transplantOk) :
    (∀ leaf, IsLeaf expressions leaf → baseId leaf ∈ reviewed) ↔ ∀ leaf, IsLeaf expressions leaf → ¬ Unrouted leaf := by
  constructor
  · intro hall leaf hleaf hunrouted
    have hpermissive := hall leaf hleaf
    rcases hunrouted with ⟨hplus, hnot⟩ | ⟨hid, hnot, -⟩
    · unfold baseId at hpermissive
      rw [if_pos hplus] at hpermissive
      exact hnot hpermissive
    · rw [(ids_plain leaf hid).2.1] at hpermissive
      exact hnot hpermissive
  · exact fun hrouted leaf hleaf => permissive_of_routed h hleaf (hrouted leaf hleaf)

theorem isLeaf_singleton {text : Text}
    (h : ((parse (strip text)).toOption.any fun tree => decide (leaf ∈ tree.identifiers)) = true) : IsLeaf [some text] leaf := by
  cases hparse : parse (strip text) with
  | error message =>
    rw [hparse] at h
    cases h
  | ok tree =>
    rw [hparse] at h
    exact ⟨text, mem_cons_self, tree, hparse, of_decide_eq_true h⟩

theorem transplantOk_permissive_single :
    (∀ leaf, IsLeaf [some "MIT".toList] leaf → baseId leaf ∈ reviewed) ↔
      ∀ leaf, IsLeaf [some "MIT".toList] leaf → ¬ Unrouted leaf :=
  transplantOk_permissive_iff (show (routingForSource [some "MIT".toList] false false).verdict = transplantOk by decide +kernel)

/-- A later version of a copyleft licence goes to the transplant, and so does a licence of neither class. -/
theorem unrouted_leaf_transplanted :
    (routingForSource [some "MIT AND GPL-2.0+".toList] false false).verdict = transplantOk ∧
      IsLeaf [some "MIT AND GPL-2.0+".toList] "GPL-2.0+".toList ∧ baseId "GPL-2.0+".toList ∉ reviewed ∧
      (routingForSource [some "MIT AND CC-BY-4.0".toList] false false).verdict = transplantOk ∧
      IsLeaf [some "MIT AND CC-BY-4.0".toList] "CC-BY-4.0".toList ∧ baseId "CC-BY-4.0".toList ∉ reviewed := by
  refine ⟨?_, isLeaf_singleton ?_, ?_, ?_, isLeaf_singleton ?_, ?_⟩
  all_goals decide +kernel

end

end Leitir.License
