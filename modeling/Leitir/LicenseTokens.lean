import Leitir.ExceptRun
import Leitir.LicenseExpression
import Mathlib.Data.List.Chain
import Mathlib.Data.List.TakeWhile

/-! The tokens of an expression, and which of them the parser reads in which order. -/

namespace Leitir.License

open List ExceptRun

/-- The signs that a token is cut into. -/
inductive Token : Text → Prop
  | word {body : Text} (hhead : ∃ ch ∈ body.head?, isAlnum ch = true) (hbody : ∀ ch ∈ body, isPart ch = true) : Token body
  | plus {body : Text} (hhead : ∃ ch ∈ body.head?, isAlnum ch = true) (hbody : ∀ ch ∈ body, isPart ch = true)
      (hplain : ¬ (licenseRef <+: body ∧ licenseRef ≠ body)) : Token (body ++ ['+'])
  | document {name reference : Text} (hname : name ≠ []) (hparts : ∀ ch ∈ name, isPart ch = true) (hreference : reference ≠ [])
      (hparts' : ∀ ch ∈ reference, isPart ch = true) : Token (documentRef ++ name ++ (':' :: licenseRef ++ reference))
  | sign {ch : Char} (h : ch = '(' ∨ ch = ')') : Token [ch]

def Ends (more : Text) : Prop := ∀ ch ∈ more.head?, isPart ch = false

def Separates (more : Text) : Prop := ∀ ch ∈ more.head?, isBlank ch = true ∨ ch = '(' ∨ ch = ')'

theorem isPart_of_isAlnum {ch : Char} (h : isAlnum ch = true) : isPart ch = true := by
  simp [isPart, h]

theorem isPart_separator {ch : Char} (h : isBlank ch = true ∨ ch = '(' ∨ ch = ')') : isPart ch = false ∧ ch ≠ '+' ∧ ch ≠ ':' := by
  simp only [isBlank, Bool.or_eq_true, decide_eq_true_eq] at h
  rcases h with (rfl | rfl) | rfl | rfl
  · decide
  · decide
  · decide
  · decide

theorem Separates.ends {more : Text} (h : Separates more) : Ends more := fun ch hch => (isPart_separator (h ch hch)).1

theorem takeWhile_parts {body more : Text} (hbody : ∀ ch ∈ body, isPart ch = true) (hmore : Ends more) :
    (body ++ more).takeWhile isPart = body ∧ (body ++ more).dropWhile isPart = more := by
  induction body with
  | nil =>
    cases more with
    | nil => simp
    | cons ch more => simp [hmore ch rfl]
  | cons ch body ih =>
    have hch := hbody ch mem_cons_self
    have hrest := ih fun other hother => hbody other (mem_cons_of_mem _ hother)
    simp [hch, hrest.1, hrest.2]

theorem parts_of_takeWhile (text : Text) : (∀ ch ∈ text.takeWhile isPart, isPart ch = true) ∧ Ends (text.dropWhile isPart) := by
  refine ⟨fun ch hch => mem_takeWhile_imp hch, ?_⟩
  intro ch hch
  have hdrop := head?_dropWhile_not isPart text
  rw [Option.mem_def.mp hch] at hdrop
  simpa using hdrop

/-- A name is cut off behind a word exactly when there is one. -/
theorem named_parts {word body more : Text} (hword : ∀ ch ∈ word, isPart ch = true) (hbody : ∀ ch ∈ body, isPart ch = true)
    (hmore : Ends more) : named word (body ++ more) = if word <+: body ∧ word ≠ body then some (body, more) else none := by
  unfold named
  by_cases hprefix : word <+: body
  · obtain ⟨name, rfl⟩ := hprefix
    have hname : ∀ ch ∈ name, isPart ch = true := fun ch hch => hbody ch (mem_append_right _ hch)
    obtain ⟨htake, hdrop⟩ := takeWhile_parts hname hmore
    rw [append_assoc, if_pos (prefix_append _ _), drop_left, htake, hdrop]
    simp
  · have hnot : ¬ word <+: body ++ more := by
      intro hlong
      rcases prefix_or_prefix_of_prefix hlong (prefix_append body more) with hshort | ⟨rest, rfl⟩
      · exact hprefix hshort
      · cases rest with
        | nil => exact hprefix (by simp)
        | cons ch rest =>
          rw [prefix_append_right_inj] at hlong
          obtain ⟨tail, rfl⟩ := hlong
          have hpart := hword ch (by simp)
          rw [hmore ch rfl] at hpart
          cases hpart
    rw [if_neg hnot, if_neg fun h => hprefix h.1]

theorem documentRef_parts : ∀ ch ∈ documentRef, isPart ch = true :=
  all_eq_true.mp (by decide)

theorem licenseRef_parts : ∀ ch ∈ licenseRef, isPart ch = true :=
  all_eq_true.mp (by decide)

theorem documentToken_parts {body more : Text} (hbody : ∀ ch ∈ body, isPart ch = true) (hmore : Ends more)
    (hcolon : ':' ∉ more.head?) : documentToken (body ++ more) = none := by
  unfold documentToken
  rw [named_parts documentRef_parts hbody hmore]
  split
  next =>
    have hnot : ¬ (':' :: licenseRef) <+: more := by
      rintro ⟨rest, rfl⟩
      exact hcolon rfl
    simp [named, hnot]
  next => rfl

theorem tokenAt_parts {body more : Text} (hhead : ∃ ch ∈ body.head?, isAlnum ch = true)
    (hbody : ∀ ch ∈ body, isPart ch = true) (hmore : Ends more) (hcolon : ':' ∉ more.head?) :
    tokenAt (body ++ more) =
      if licenseRef <+: body ∧ licenseRef ≠ body then some (body, more)
      else if more.head? = some '+' then some (body ++ ['+'], more.tail)
      else some (body, more) := by
  unfold tokenAt
  rw [documentToken_parts hbody hmore hcolon, named_parts licenseRef_parts hbody hmore]
  split
  next => rfl
  next =>
    cases body with
    | nil =>
      obtain ⟨ch, hch, -⟩ := hhead
      cases hch
    | cons ch body =>
      obtain ⟨other, hother, halnum⟩ := hhead
      cases hother
      obtain ⟨htake, hdrop⟩ := takeWhile_parts (fun other hother => hbody other (mem_cons_of_mem _ hother)) hmore
      simp only [Option.orElse, cons_append, identifierToken, halnum, if_true, htake, hdrop]
      split
      next rest => simp
      next hother =>
        have hnot : more.head? ≠ some '+' := fun hhead => hother more.tail (cons_head?_tail hhead).symm
        rw [if_neg hnot]

/-- A token is cut off again in front of a separator. -/
theorem tokenAt_append {token more : Text} (h : Token token) (hmore : Separates more) :
    tokenAt (token ++ more) = some (token, more) := by
  have hcolon : ':' ∉ more.head? := fun hch => (isPart_separator (hmore _ hch)).2.2 rfl
  have hplus : more.head? ≠ some '+' := fun hch => (isPart_separator (hmore _ hch)).2.1 rfl
  cases h with
  | word hhead hbody =>
    rw [tokenAt_parts hhead hbody hmore.ends hcolon, if_neg hplus, ite_self]
  | plus hhead hbody hplain =>
    rw [append_assoc, tokenAt_parts hhead hbody (by intro ch hch; cases hch; rfl) (by simp), if_neg hplain]
    rfl
  | @document name reference hname hparts hreference hparts' =>
    have hfirst : named documentRef (documentRef ++ name ++ (':' :: licenseRef ++ reference) ++ more) =
        some (documentRef ++ name, ':' :: licenseRef ++ reference ++ more) := by
      have hbody : ∀ ch ∈ documentRef ++ name, isPart ch = true := by
        intro ch hch
        rcases mem_append.mp hch with hch | hch
        · exact documentRef_parts ch hch
        · exact hparts ch hch
      rw [append_assoc, named_parts documentRef_parts hbody (by intro ch hch; cases hch; rfl), if_pos]
      exact ⟨prefix_append _ _, fun heq => hname (by simpa using heq)⟩
    have hsecond : named (':' :: licenseRef) (':' :: licenseRef ++ reference ++ more) = some (':' :: licenseRef ++ reference, more) := by
      obtain ⟨htake, hdrop⟩ := takeWhile_parts hparts' hmore.ends
      unfold named
      rw [append_assoc, if_pos (prefix_append _ _), drop_left, htake, hdrop]
      exact if_neg hreference
    unfold tokenAt documentToken
    rw [hfirst]
    simp only [Option.bind_eq_bind, Option.bind_some, hsecond]
    rfl
  | sign hsign =>
    rcases hsign with rfl | rfl
    · rfl
    · rfl

theorem named_some {word text token more : Text} (h : named word text = some (token, more)) :
    ∃ name, name ≠ [] ∧ (∀ ch ∈ name, isPart ch = true) ∧ token = word ++ name ∧ text = word ++ name ++ more ∧ Ends more := by
  unfold named at h
  split at h
  next hprefix =>
    obtain ⟨rest, rfl⟩ := hprefix
    rw [drop_left] at h
    dsimp only at h
    split at h
    next => cases h
    next hne =>
      cases h
      obtain ⟨hparts, hends⟩ := parts_of_takeWhile rest
      exact ⟨_, hne, hparts, rfl, by rw [append_assoc, takeWhile_append_dropWhile], hends⟩
  next => cases h

def Maximal (token more : Text) : Prop := ∀ ch ∈ more.head?, isPart ch = true → token.getLast? = some '+' ∨ token = ['('] ∨ token = [')']

theorem Ends.maximal {token more : Text} (h : Ends more) : Maximal token more := by
  intro ch hch hpart
  rw [h ch hch] at hpart
  cases hpart

theorem head_alnum_of_append {word name : Text} (h : ∃ ch ∈ word.head?, isAlnum ch = true) :
    ∃ ch ∈ (word ++ name).head?, isAlnum ch = true := by
  obtain ⟨ch, hch, halnum⟩ := h
  exact ⟨ch, by rw [head?_append, Option.mem_def.mp hch]; rfl, halnum⟩

theorem identifierToken_some {text token more : Text} (hplain : named licenseRef text = none)
    (h : identifierToken text = some (token, more)) : Token token ∧ text = token ++ more ∧ Maximal token more := by
  cases text with
  | nil => cases h
  | cons ch text =>
    simp only [identifierToken] at h
    split at h
    next halnum =>
      obtain ⟨hparts, hends⟩ := parts_of_takeWhile text
      have hhead : ∃ other ∈ (ch :: text.takeWhile isPart).head?, isAlnum other = true := ⟨ch, rfl, halnum⟩
      have hbody : ∀ other ∈ ch :: text.takeWhile isPart, isPart other = true := by
        intro other hother
        rcases mem_cons.mp hother with rfl | hother
        · exact isPart_of_isAlnum halnum
        · exact hparts other hother
      have htext : ch :: text = (ch :: text.takeWhile isPart) ++ text.dropWhile isPart := by
        rw [cons_append, takeWhile_append_dropWhile]
      rw [htext, named_parts licenseRef_parts hbody hends] at hplain
      split at h
      next rest hdrop =>
        cases h
        rw [hdrop] at htext
        refine ⟨.plus hhead hbody ?_, by rw [htext]; simp, fun _ _ _ => Or.inl getLast?_concat⟩
        intro hcond
        rw [if_pos hcond] at hplain
        cases hplain
      next =>
        cases h
        exact ⟨.word hhead hbody, htext, hends.maximal⟩
    next =>
      split at h
      next hsign =>
        cases h
        refine ⟨.sign hsign, rfl, fun _ _ _ => Or.inr ?_⟩
        rcases hsign with rfl | rfl
        · exact Or.inl rfl
        · exact Or.inr rfl
      next => cases h

theorem tokenAt_some {text token more : Text} (h : tokenAt text = some (token, more)) :
    Token token ∧ text = token ++ more ∧ Maximal token more := by
  unfold tokenAt at h
  cases hdocument : documentToken text with
  | some found =>
    rw [hdocument] at h
    cases h
    obtain ⟨⟨document, rest⟩, hfirst, hsecond⟩ := Option.bind_eq_some_iff.mp hdocument
    obtain ⟨⟨reference, last⟩, hreference, hpair⟩ := Option.bind_eq_some_iff.mp hsecond
    cases hpair
    obtain ⟨name, hname, hparts, rfl, htext, -⟩ := named_some hfirst
    obtain ⟨name', hname', hparts', rfl, rfl, hends⟩ := named_some hreference
    exact ⟨.document hname hparts hname' hparts', by rw [htext]; simp, hends.maximal⟩
  | none =>
    rw [hdocument] at h
    cases hreference : named licenseRef text with
    | some found =>
      rw [hreference] at h
      cases h
      obtain ⟨name, -, hparts, rfl, htext, hends⟩ := named_some hreference
      refine ⟨.word (head_alnum_of_append ⟨'L', by decide, by decide⟩) ?_, htext, hends.maximal⟩
      intro ch hch
      rcases mem_append.mp hch with hch | hch
      · exact licenseRef_parts ch hch
      · exact hparts ch hch
    | none =>
      rw [hreference] at h
      exact identifierToken_some hreference h

/-- A token has a sign, and the first is not blank. -/
theorem Token.head {token : Text} (h : Token token) : ∃ ch ∈ token.head?, isBlank ch = false ∧ ch ≠ '+' := by
  have halnum : ∀ ch, isAlnum ch = true → isBlank ch = false ∧ ch ≠ '+' := by
    intro ch hch
    constructor
    · by_contra hblank
      simp only [Bool.not_eq_false, isBlank, Bool.or_eq_true, decide_eq_true_eq] at hblank
      rcases hblank with rfl | rfl
      · exact absurd hch (by decide)
      · exact absurd hch (by decide)
    · rintro rfl
      exact absurd hch (by decide)
  cases h with
  | word hhead _ =>
    obtain ⟨ch, hch, hletter⟩ := hhead
    exact ⟨ch, hch, halnum ch hletter⟩
  | plus hhead _ _ =>
    obtain ⟨ch, hch, hletter⟩ := head_alnum_of_append hhead
    exact ⟨ch, hch, halnum ch hletter⟩
  | document _ _ _ _ =>
    have hdocument : ∃ ch ∈ documentRef.head?, isAlnum ch = true := ⟨'D', by decide, by decide⟩
    obtain ⟨ch, hch, hletter⟩ := head_alnum_of_append (head_alnum_of_append hdocument)
    exact ⟨ch, hch, halnum ch hletter⟩
  | sign hsign =>
    rcases hsign with rfl | rfl
    · exact ⟨_, rfl, by decide, by decide⟩
    · exact ⟨_, rfl, by decide, by decide⟩

/-- The text is cut into the tokens, with blanks between them or none. -/
inductive Cuts : Text → List Text → Prop
  | nil {text : Text} (h : text.dropWhile isBlank = []) : Cuts text []
  | cons {text token more : Text} {tokens : List Text} (h : tokenAt (text.dropWhile isBlank) = some (token, more))
      (hrest : Cuts more tokens) : Cuts text (token :: tokens)

theorem tokenAt_length {text token more : Text} (h : tokenAt text = some (token, more)) : more.length < text.length := by
  obtain ⟨htoken, rfl, -⟩ := tokenAt_some h
  obtain ⟨ch, hch, -⟩ := htoken.head
  cases token with
  | nil => cases hch
  | cons first token =>
    simp only [cons_append, length_cons, length_append]
    omega

theorem tokensFrom_ok_iff {fuel : Nat} {text : Text} {tokens : List Text} (hfuel : text.length ≤ fuel) :
    tokensFrom fuel text = .ok tokens ↔ Cuts text tokens := by
  induction fuel generalizing text tokens with
  | zero =>
    have hempty : text = [] := length_eq_zero_iff.mp (by omega)
    subst hempty
    constructor
    · intro h
      cases h
      exact .nil rfl
    · intro h
      cases h with
      | nil => rfl
      | cons h _ => exact absurd (tokenAt_length h) (by simp)
  | succ fuel ih =>
    have hshort : (text.dropWhile isBlank).length ≤ text.length := (dropWhile_suffix _).length_le
    unfold tokensFrom
    split
    next hblank =>
      constructor
      · intro h
        cases h
        exact .nil hblank
      · intro h
        cases h with
        | nil => rfl
        | cons h _ =>
          rw [hblank] at h
          exact absurd (tokenAt_length h) (by simp)
    next ch rest htext =>
      split
      next hnone =>
        constructor
        · intro h
          cases h
        · intro h
          cases h with
          | nil h => rw [h] at htext; cases htext
          | cons h _ => rw [htext, hnone] at h; cases h
      next token more htoken =>
        have hmore : more.length ≤ fuel := by
          have hlt := tokenAt_length htoken
          rw [← htext] at hlt
          omega
        constructor
        · intro h
          obtain ⟨found, hfound, rfl⟩ := map_ok h
          exact .cons (by rw [htext]; exact htoken) ((ih hmore).mp hfound)
        · intro h
          cases h with
          | nil h => rw [h] at htext; cases htext
          | cons h hrest =>
            rw [htext, htoken] at h
            cases h
            rw [(ih hmore).mpr hrest]
            rfl

theorem Cuts.token {text : Text} {tokens : List Text} (h : Cuts text tokens) : ∀ token ∈ tokens, Token token := by
  induction h with
  | nil => simp
  | cons htoken _ ih =>
    intro token hmem
    rcases mem_cons.mp hmem with rfl | hmem
    · exact (tokenAt_some htoken).1
    · exact ih token hmem

/-- The licences and references of an expression, without the exceptions. -/
def Expr.identifiers : Expr → List Text
  | .license value => [value]
  | .ref value => [value]
  | .withException value _ => [value]
  | .and children => identifiersAll children
  | .or children => identifiersAll children
where
  identifiersAll : List Expr → List Text
    | [] => []
    | child :: rest => child.identifiers ++ identifiersAll rest

def baseId (value : Text) : Text := if value.getLast? = some '+' then value.dropLast else value

def IsRef (token : Text) : Prop := licenseRef <+: token ∨ (':' :: licenseRef) <:+: token

instance (token : Text) : Decidable (IsRef token) := inferInstanceAs (Decidable (_ ∨ _))

/-- What the parser builds: leaves that it knows, and operators with two operands or more. -/
def Expr.WellFormed : Expr → Prop
  | .license value => Token value ∧ ¬ IsRef value ∧ baseId value ∈ licenseIds
  | .ref value => Token value ∧ IsRef value
  | .withException value exceptionId => value ∈ licenseIds ∧ exceptionId ∈ exceptionIds
  | .and children => 2 ≤ children.length ∧ wellFormedAll children
  | .or children => 2 ≤ children.length ∧ wellFormedAll children
where
  wellFormedAll : List Expr → Prop
    | [] => True
    | child :: rest => child.WellFormed ∧ wellFormedAll rest

def Adjoins (token next : Text) : Prop :=
  token ∈ operators ∨ token = "(".toList ∨ next ∈ operators ∨ next = ")".toList

structure Consumed (tokens rest : List Text) (tree : Expr) : Prop where
  used : ∃ used, tokens = used ++ rest ∧ used ≠ [] ∧ used.IsChain Adjoins ∧ ∀ leaf ∈ tree.identifiers, leaf ∈ used
  formed : tree.WellFormed

def Reads (item : Parse) : Prop :=
  ∀ tokens tree rest, (∀ token ∈ tokens, Token token) → item tokens = .ok (tree, rest) → Consumed tokens rest tree

theorem chain_reads {operator : Text} (hoperator : operator ∈ operators) {item : Parse} (hitem : Reads item) {fuel : Nat}
    {tokens rest : List Text} {others : List Expr} (htokens : ∀ token ∈ tokens, Token token)
    (h : chain operator item fuel tokens = .ok (others, rest)) :
    ∃ used, tokens = used ++ rest ∧ used.IsChain Adjoins ∧ (∀ token ∈ used.head?, token = operator) ∧
      (∀ leaf ∈ Expr.identifiers.identifiersAll others, leaf ∈ used) ∧ Expr.WellFormed.wellFormedAll others := by
  induction fuel generalizing tokens others with
  | zero =>
    cases h
    exact ⟨[], rfl, .nil, by simp, by simp [Expr.identifiers.identifiersAll], trivial⟩
  | succ fuel ih =>
    cases tokens with
    | nil =>
      cases h
      exact ⟨[], rfl, .nil, by simp, by simp [Expr.identifiers.identifiersAll], trivial⟩
    | cons token tokens =>
      unfold chain at h
      split at h
      next heq =>
        obtain ⟨⟨first, after⟩, hfirst, h⟩ := bind_ok h
        obtain ⟨⟨later, last⟩, hlater, h⟩ := bind_ok h
        cases h
        have htail : ∀ other ∈ tokens, Token other := fun other hother => htokens other (mem_cons_of_mem _ hother)
        obtain ⟨⟨used, rfl, hne, hchain, hleaves⟩, hformed⟩ := hitem tokens first after htail hfirst
        obtain ⟨used', rfl, hchain', hhead', hleaves', hformed'⟩ :=
          ih (fun other hother => htail other (mem_append_right _ hother)) hlater
        refine ⟨token :: (used ++ used'), by simp, ?_, by simpa using heq, ?_, hformed, hformed'⟩
        · refine isChain_cons.mpr ⟨fun next _ => Or.inl (heq ▸ hoperator), ?_⟩
          refine isChain_append.mpr ⟨hchain, hchain', fun before _ next hnext => ?_⟩
          exact Or.inr (Or.inr (Or.inl (hhead' next hnext ▸ hoperator)))
        · intro leaf hleaf
          refine mem_cons_of_mem _ (mem_append.mpr ?_)
          rcases mem_append.mp hleaf with hleaf | hleaf
          · exact Or.inl (hleaves leaf hleaf)
          · exact Or.inr (hleaves' leaf hleaf)
      next =>
        cases h
        exact ⟨[], rfl, .nil, by simp, by simp [Expr.identifiers.identifiersAll], trivial⟩

theorem chained_reads {operator : Text} (hoperator : operator ∈ operators) {build : List Expr → Expr}
    (hidentifiers : ∀ children, (build children).identifiers = Expr.identifiers.identifiersAll children)
    (hformed : ∀ children, 2 ≤ children.length → Expr.WellFormed.wellFormedAll children → (build children).WellFormed)
    {item : Parse} (hitem : Reads item) : Reads (chained operator build item) := by
  intro tokens tree rest htokens h
  unfold chained at h
  obtain ⟨⟨first, after⟩, hfirst, hrest⟩ := bind_ok h
  obtain ⟨⟨others, last⟩, hothers, hresult⟩ := bind_ok hrest
  obtain ⟨⟨used, rfl, hne, hchain, hleaves⟩, hwell⟩ := hitem tokens first after htokens hfirst
  obtain ⟨used', rfl, hchain', hhead', hleaves', hwell'⟩ :=
    chain_reads hoperator hitem (fun other hother => htokens other (mem_append_right _ hother)) hothers
  dsimp only at hresult
  split at hresult
  next hempty =>
    cases hresult
    -- Without a further item the tokens of the chain are none.
    refine ⟨⟨used ++ used', by simp, by simp [hne], ?_, fun leaf hleaf => mem_append_left _ (hleaves leaf hleaf)⟩, hwell⟩
    exact isChain_append.mpr ⟨hchain, hchain', fun before _ next hnext =>
      Or.inr (Or.inr (Or.inl (hhead' next hnext ▸ hoperator)))⟩
  next hmore =>
    cases hresult
    refine ⟨⟨used ++ used', by simp, by simp [hne], ?_, ?_⟩, ?_⟩
    · exact isChain_append.mpr ⟨hchain, hchain', fun before _ next hnext =>
        Or.inr (Or.inr (Or.inl (hhead' next hnext ▸ hoperator)))⟩
    · intro leaf hleaf
      rw [hidentifiers] at hleaf
      rcases mem_append.mp hleaf with hleaf | hleaf
      · exact mem_append_left _ (hleaves leaf hleaf)
      · exact mem_append_right _ (hleaves' leaf hleaf)
    · refine hformed _ ?_ ⟨hwell, hwell'⟩
      have hpos := length_pos_iff.mpr hmore
      rw [length_cons]
      omega

theorem parseWith_reads {primary : Parse} (hprimary : Reads primary) : Reads (parseWith primary) := by
  intro tokens tree rest htokens h
  unfold parseWith at h
  obtain ⟨⟨operand, after⟩, hoperand, h⟩ := bind_ok h
  have hconsumed := hprimary tokens operand after htokens hoperand
  dsimp only at h
  split at h
  next token others =>
    split at h
    next heq =>
      split at h
      next value =>
        split at h
        next => cases h
        next hplus =>
          split at h
          next exceptionId others =>
            split at h
            next hexception =>
              cases h
              obtain ⟨⟨used, rfl, hne, hchain, hleaves⟩, -, -, hbase⟩ := hconsumed
              refine ⟨⟨used ++ [token, exceptionId], by simp, by simp, ?_, fun leaf hleaf => mem_append_left _ (hleaves leaf hleaf)⟩, ?_, hexception⟩
              · have hoperator : token ∈ operators := by simp [heq, operators]
                refine isChain_append.mpr ⟨hchain, isChain_pair.mpr (Or.inl hoperator), ?_⟩
                intro before _ next hnext
                cases hnext
                exact Or.inr (Or.inr (Or.inl hoperator))
              · unfold baseId at hbase
                rw [if_neg hplus] at hbase
                exact hbase
            next => cases h
          next => cases h
      next => cases h
    next =>
      cases h
      exact hconsumed
  next =>
    cases h
    exact hconsumed

theorem parseOr_reads {primary : Parse} (hprimary : Reads primary) : Reads (parseOr primary) := by
  unfold parseOr
  have hand := @chained_reads "AND".toList (by simp [operators]) Expr.and (fun _ => rfl)
    (fun _ hlength hall => ⟨hlength, hall⟩) _ (parseWith_reads hprimary)
  exact @chained_reads "OR".toList (by simp [operators]) Expr.or (fun _ => rfl) (fun _ hlength hall => ⟨hlength, hall⟩) _ hand

theorem parsePrimary_reads (depth : Nat) : Reads (parsePrimary depth) := by
  induction depth with
  | zero =>
    intro tokens tree rest _ h
    cases h
  | succ depth ih =>
    intro tokens tree rest htokens h
    cases tokens with
    | nil => cases h
    | cons token tokens =>
      unfold parsePrimary at h
      have htail : ∀ other ∈ tokens, Token other := fun other hother => htokens other (mem_cons_of_mem _ hother)
      split at h
      next hopen =>
        obtain ⟨⟨value, after⟩, hvalue, hgroup⟩ := bind_ok h
        obtain ⟨⟨used, rfl, hne, hchain, hleaves⟩, hformed⟩ := parseOr_reads ih tokens value after htail hvalue
        dsimp only at hgroup
        split at hgroup
        next closing others =>
          split at hgroup
          next hclosing =>
            cases hgroup
            refine ⟨⟨token :: (used ++ [closing]), by simp, by simp, ?_, fun leaf hleaf =>
              mem_cons_of_mem _ (mem_append_left _ (hleaves leaf hleaf))⟩, hformed⟩
            refine isChain_cons.mpr ⟨fun next _ => Or.inr (Or.inl hopen), ?_⟩
            refine isChain_append.mpr ⟨hchain, .singleton _, fun before _ next hnext => ?_⟩
            cases hnext
            exact Or.inr (Or.inr (Or.inr hclosing))
          next => cases hgroup
        next => cases hgroup
      next =>
        have hown := htokens token mem_cons_self
        split at h
        next href =>
          cases h
          exact ⟨⟨[token], rfl, by simp, .singleton _, by simp [Expr.identifiers]⟩, hown, href⟩
        next href =>
          by_cases hid : (if token.getLast? = some '+' then token.dropLast else token) ∈ licenseIds
          · rw [if_pos hid] at h
            cases h
            exact ⟨⟨[token], rfl, by simp, .singleton _, by simp [Expr.identifiers]⟩, hown, href, hid⟩
          · rw [if_neg hid] at h
            cases h

theorem parse_ok {text : Text} {tree : Expr} (h : parse text = .ok tree) :
    ∃ tokens, Cuts text tokens ∧ operatorsSpaced none text = true ∧ tokens.IsChain Adjoins ∧
      (∀ leaf ∈ tree.identifiers, leaf ∈ tokens) ∧ tree.WellFormed := by
  unfold parse at h
  obtain ⟨tokens, htokens, h⟩ := bind_ok h
  obtain ⟨⟨result, rest⟩, hresult, h⟩ := bind_ok h
  dsimp only at h
  split at h
  next hempty =>
    cases h
    subst hempty
    unfold tokenize at htokens
    obtain ⟨-, htokens⟩ := guard_ok htokens
    obtain ⟨hspaced, htokens⟩ := guard_ok htokens
    have hcuts := (tokensFrom_ok_iff le_rfl).mp htokens
    obtain ⟨⟨used, rfl, -, hchain, hleaves⟩, hformed⟩ := parseOr_reads (parsePrimary_reads _) tokens _ [] hcuts.token hresult
    refine ⟨used, by simpa using hcuts, not_not.mp hspaced, hchain, hleaves, hformed⟩
  next => cases h

end Leitir.License
