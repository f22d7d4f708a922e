import Leitir.LicenseNormal

/-! The canonical text is accepted again, and read as the flat tree. -/

namespace Leitir.License

open List ExceptRun

section

/-- A text that begins and ends with a visible sign and has no control signs. -/
structure Clean (text : Text) : Prop where
  first : ∃ ch ∈ text.head?, isSpace ch = false
  last : ∃ ch ∈ text.getLast?, isSpace ch = false
  printable : ∀ ch ∈ text, 32 ≤ ch.toNat

theorem sign_visible {ch : Char} (h : isSign ch = true ∨ ch ∈ [':', '(', ')']) : isSpace ch = false ∧ 32 ≤ ch.toNat := by
  rcases h with h | h
  · constructor
    · by_contra hspace
      rw [isSign_of_isSpace (by simpa using hspace)] at h
      cases h
    · by_contra hlow
      have hcode := isSign_code h
      omega
  · simp only [mem_cons, not_mem_nil, or_false] at h
    rcases h with rfl | rfl | rfl
    · decide
    · decide
    · decide

theorem token_visible {token : Text} (h : Token token) : ∀ ch ∈ token, isSpace ch = false ∧ 32 ≤ ch.toNat := by
  intro ch hch
  apply sign_visible
  cases h with
  | word _ hbody => exact Or.inl (isSign_of_isPart (hbody ch hch))
  | plus _ hbody _ =>
    rcases mem_append.mp hch with hch | hch
    · exact Or.inl (isSign_of_isPart (hbody ch hch))
    · rw [mem_singleton.mp hch]
      exact Or.inl (by decide)
  | document _ hparts _ hparts' =>
    simp only [mem_append, mem_cons] at hch
    rcases hch with (hch | hch) | (rfl | hch) | hch
    · exact Or.inl (isSign_of_isPart (documentRef_parts ch hch))
    · exact Or.inl (isSign_of_isPart (hparts ch hch))
    · exact Or.inr (by decide)
    · exact Or.inl (isSign_of_isPart (licenseRef_parts ch hch))
    · exact Or.inl (isSign_of_isPart (hparts' ch hch))
  | sign hsign =>
    rw [mem_singleton.mp hch]
    rcases hsign with rfl | rfl
    · exact Or.inr (by decide)
    · exact Or.inr (by decide)

variable {text : Text}

theorem clean_of_visible (hne : text ≠ []) (h : ∀ ch ∈ text, isSpace ch = false ∧ 32 ≤ ch.toNat) : Clean text := by
  refine ⟨⟨text.head hne, head?_eq_some_head hne, (h _ (head_mem hne)).1⟩,
    ⟨text.getLast hne, getLast?_eq_some_getLast hne, (h _ (getLast_mem hne)).1⟩, fun ch hch => (h ch hch).2⟩

theorem Token.clean {token : Text} (h : Token token) : Clean token := by
  refine clean_of_visible ?_ (token_visible h)
  rintro rfl
  obtain ⟨ch, hch, -⟩ := h.head
  cases hch

theorem Clean.append {left right sep : Text} (hleft : Clean left) (hright : Clean right) (hsep : ∀ ch ∈ sep, 32 ≤ ch.toNat) :
    Clean (left ++ sep ++ right) := by
  obtain ⟨first, hfirst, hvisible⟩ := hleft.first
  obtain ⟨last, hlast, hvisible'⟩ := hright.last
  refine ⟨⟨first, ?_, hvisible⟩, ⟨last, ?_, hvisible'⟩, ?_⟩
  · rw [append_assoc, head?_append, Option.mem_def.mp hfirst]
    rfl
  · rw [getLast?_append, Option.mem_def.mp hlast]
    rfl
  · intro ch hch
    rcases mem_append.mp hch with hch | hch
    · rcases mem_append.mp hch with hch | hch
      · exact hleft.printable ch hch
      · exact hsep ch hch
    · exact hright.printable ch hch

theorem clean_intercalate {sep : Text} (hsep : ∀ ch ∈ sep, 32 ≤ ch.toNat) {texts : List Text} (hne : texts ≠ [])
    (h : ∀ text ∈ texts, Clean text) : Clean (sep.intercalate texts) := by
  induction texts with
  | nil => exact absurd rfl hne
  | cons text texts ih =>
    have hrest := fun hne => ih hne fun other hother => h other (mem_cons_of_mem _ hother)
    cases texts with
    | nil => simpa using h text mem_cons_self
    | cons next texts =>
      rw [intercalate_cons_cons]
      exact (h text mem_cons_self).append (hrest (by simp)) hsep

theorem printable_of_all (h : (text.all fun ch => decide (32 ≤ ch.toNat)) = true) : ∀ ch ∈ text, 32 ≤ ch.toNat := by
  intro ch hch
  exact of_decide_eq_true (all_eq_true.mp h ch hch)

theorem clean_grouped {group : Bool} (h : Clean text) : Clean (grouped group text) := by
  unfold grouped
  cases group with
  | false => exact h
  | true =>
    have hopen : Clean ['('] := ⟨⟨'(', rfl, by decide⟩, ⟨'(', rfl, by decide⟩, printable_of_all (by decide)⟩
    have hclose : Clean [')'] := ⟨⟨')', rfl, by decide⟩, ⟨')', rfl, by decide⟩, printable_of_all (by decide)⟩
    have hnone : ∀ ch : Char, ch ∈ [] → 32 ≤ ch.toNat := by simp
    simpa using (hopen.append h hnone).append hclose hnone

theorem clean_render (tree : Expr) (h : Normal tree) (parent : Nat) : Clean (render parent tree) := by
  induction tree using Expr.induct generalizing parent with
  | license value =>
    rw [render]
    exact h.1.1.clean
  | ref value =>
    rw [render]
    exact h.1.1.clean
  | withException value exceptionId =>
    rw [render]
    refine clean_grouped (Clean.append ?_ ?_ (printable_of_all (by decide)))
    · exact (token_id value (mem_append_left _ h.1.1)).clean
    · exact (token_id exceptionId (mem_append_right _ h.1.2)).clean
  | and children ih =>
    obtain ⟨hlength, hoperands⟩ := normal_and.mp h
    rw [render, renderAnd_operands hoperands]
    refine clean_grouped (clean_intercalate (printable_of_all (by decide)) (fun hnil => ?_) fun text htext => ?_)
    · rw [map_eq_nil_iff.mp hnil] at hlength
      exact absurd hlength (by simp)
    · obtain ⟨child, hchild, rfl⟩ := mem_map.mp htext
      exact ih child hchild (hoperands child hchild).2 2
  | or children ih =>
    obtain ⟨hlength, hoperands⟩ := normal_or.mp h
    rw [render, renderOr_operands hoperands]
    refine clean_grouped (clean_intercalate (printable_of_all (by decide)) (fun hnil => ?_) fun text htext => ?_)
    · rw [map_eq_nil_iff.mp hnil] at hlength
      exact absurd hlength (by simp)
    · obtain ⟨child, hchild, rfl⟩ := mem_map.mp htext
      exact ih child hchild (hoperands child hchild).2 1

theorem strip_of_clean (h : Clean text) : strip text = text := by
  have hdrop : ∀ {text : Text}, (∃ ch ∈ text.head?, isSpace ch = false) → text.dropWhile isSpace = text := by
    rintro text ⟨ch, hch, hspace⟩
    cases text with
    | nil => rfl
    | cons first text =>
      cases hch
      simp [hspace]
  unfold strip
  rw [hdrop h.first, hdrop, reverse_reverse]
  rw [head?_reverse]
  exact h.last

end

section

def Stops (going : List Text) (more : List Text) : Prop := ∀ token ∈ more.head?, token ∉ going

theorem between_cons (operator : Text) (parent : Nat) (first : Expr) (others : List Expr) :
    tokensOf.between operator parent (first :: others) =
      tokensOf parent first ++ others.flatMap fun child => operator :: tokensOf parent child := by
  induction others generalizing first with
  | nil => simp [tokensOf.between]
  | cons next others ih => simp [tokensOf.between, ih next]

variable {children : List Expr} {tree : Expr} {tokens more : List Text} {value : Text}

theorem length_tokensOf_le {operator : Text} {parent : Nat} {child : Expr} (h : child ∈ children) :
    (tokensOf parent child).length ≤ (tokensOf.between operator parent children).length := by
  cases children with
  | nil => cases h
  | cons first others =>
    rw [between_cons, length_append]
    rcases mem_cons.mp h with rfl | h
    · omega
    · obtain ⟨before, after, rfl⟩ := append_of_mem h
      simp only [flatMap_append, flatMap_cons, length_append, length_cons]
      omega

variable {operator : Text} {item : Parse} {parent : Nat} {going : List Text}

def ReadsBack (item : Parse) (parent : Nat) (going : List Text) (tree : Expr) : Prop :=
  ∀ more, Stops going more → item (tokensOf parent tree ++ more) = .ok (tree, more)

theorem chain_readsBack {others : List Expr} (hothers : ∀ child ∈ others, ReadsBack item parent going child)
    (hoperator : operator ∉ going) {rest : List Text} (hrest : Stops (operator :: going) rest) {fuel : Nat}
    (hfuel : others.length ≤ fuel) :
    chain operator item fuel ((others.flatMap fun child => operator :: tokensOf parent child) ++ rest) = .ok (others, rest) := by
  induction others generalizing fuel with
  | nil =>
    rw [flatMap_nil, nil_append]
    cases fuel with
    | zero => rfl
    | succ fuel =>
      cases rest with
      | nil => rfl
      | cons token rest =>
        have hne : token ≠ operator := fun heq => hrest token rfl (by simp [heq])
        rw [chain, if_neg hne]
  | cons child others ih =>
    cases fuel with
    | zero => simp at hfuel
    | succ fuel =>
      have hlater := @ih (fun other hother => hothers other (mem_cons_of_mem _ hother)) fuel (by simpa using hfuel)
      have hstops : Stops going ((others.flatMap fun child => operator :: tokensOf parent child) ++ rest) := by
        cases others with
        | nil => exact fun token htoken hmem => hrest token htoken (mem_cons_of_mem _ hmem)
        | cons next others =>
          intro token htoken
          cases htoken
          exact hoperator
      have hchild := hothers child mem_cons_self _ hstops
      rw [flatMap_cons, append_assoc, cons_append, chain, if_pos rfl, bind_eq hchild]
      dsimp only
      rw [bind_eq hlater]

theorem chained_readsBack {build : List Expr → Expr} {first : Expr} {others : List Expr}
    (hall : ∀ child ∈ first :: others, ReadsBack item parent going child) (hoperator : operator ∉ going) {rest : List Text}
    (hrest : Stops (operator :: going) rest) :
    chained operator build item (tokensOf.between operator parent (first :: others) ++ rest) =
      .ok (if others = [] then first else build (first :: others), rest) := by
  have hlength : others.length ≤ ((others.flatMap fun child => operator :: tokensOf parent child) ++ rest).length := by
    have hcount : others.length ≤ (others.flatMap fun child => operator :: tokensOf parent child).length := by
      clear hall
      induction others with
      | nil => simp
      | cons child others ih =>
        simp only [flatMap_cons, length_append, length_cons]
        omega
    rw [length_append]
    omega
  have hothers := fun child hchild => hall child (mem_cons_of_mem _ hchild)
  have hchain := chain_readsBack hothers hoperator hrest hlength
  have hstops : Stops going ((others.flatMap fun child => operator :: tokensOf parent child) ++ rest) := by
    cases others with
    | nil => exact fun token htoken hmem => hrest token htoken (mem_cons_of_mem _ hmem)
    | cons next others =>
      intro token htoken
      cases htoken
      exact hoperator
  have hfirst := hall first mem_cons_self _ hstops
  unfold chained
  rw [between_cons, append_assoc, bind_eq hfirst]
  dsimp only
  rw [bind_eq hchain]

theorem chained_single {build : List Expr → Expr} (h : ReadsBack item parent going tree) (hoperator : operator ∉ going) :
    ReadsBack (chained operator build item) parent (operator :: going) tree := by
  intro more hmore
  have hchained := @chained_readsBack operator item parent going build tree [] (by simpa using h) hoperator more hmore
  simpa [tokensOf.between] using hchained

theorem length_between {operator : Text} {parent depth : Nat} {child : Expr} (hchild : child ∈ children)
    (h : (tokensOf.between operator parent children).length < depth) : (tokensOf parent child).length < depth :=
  (length_tokensOf_le hchild).trans_lt h

theorem parseWith_readsBack {primary : Parse} (h : primary (tokens ++ more) = .ok (tree, more))
    (hmore : Stops ["WITH".toList] more) : parseWith primary (tokens ++ more) = .ok (tree, more) := by
  unfold parseWith
  rw [bind_eq h]
  cases more with
  | nil => rfl
  | cons token more =>
    have hne : token ≠ "WITH".toList := fun heq => hmore token rfl (by simp [heq])
    dsimp only
    rw [if_neg hne]

/-- The three levels of the grammar read a tree back, each where its operator need not be grouped. -/
structure ReadBack (tree : Expr) : Prop where
  operand : tree.isAnd = false → ∀ depth, (tokensOf 2 tree).length < depth →
    ReadsBack (parseWith (parsePrimary depth)) 2 ["WITH".toList] tree
  conjunction : tree.isOr = false → ∀ depth, (tokensOf 1 tree).length < depth →
    ReadsBack (chained "AND".toList .and (parseWith (parsePrimary depth))) 1 ["AND".toList, "WITH".toList] tree
  whole : ∀ depth, (tokensOf 0 tree).length < depth →
    ReadsBack (parseOr (parsePrimary depth)) 0 ["OR".toList, "AND".toList, "WITH".toList] tree

theorem whole_of_conjunction (htokens : tokensOf 0 tree = tokensOf 1 tree)
    (h : ∀ depth, (tokensOf 1 tree).length < depth →
      ReadsBack (chained "AND".toList .and (parseWith (parsePrimary depth))) 1 ["AND".toList, "WITH".toList] tree) :
    ∀ depth, (tokensOf 0 tree).length < depth →
      ReadsBack (parseOr (parsePrimary depth)) 0 ["OR".toList, "AND".toList, "WITH".toList] tree := by
  intro depth hdepth more hmore
  rw [htokens] at hdepth ⊢
  have hitem := h depth hdepth
  exact chained_single hitem (by decide) more hmore

theorem readBack_leaf (htokens : ∀ parent, tokensOf parent tree = tokens)
    (h : ∀ depth, tokens.length < depth → ∀ more, Stops ["WITH".toList] more →
      parseWith (parsePrimary depth) (tokens ++ more) = .ok (tree, more)) : ReadBack tree := by
  have hoperand : ∀ parent depth, (tokensOf parent tree).length < depth →
      ReadsBack (parseWith (parsePrimary depth)) parent ["WITH".toList] tree := by
    intro parent depth hdepth more hmore
    rw [htokens] at hdepth ⊢
    exact h depth hdepth more hmore
  have hconjunction : ∀ depth, (tokensOf 1 tree).length < depth →
      ReadsBack (chained "AND".toList .and (parseWith (parsePrimary depth))) 1 ["AND".toList, "WITH".toList] tree :=
    fun depth hdepth => chained_single (hoperand 1 depth hdepth) (by decide)
  refine ⟨fun _ => hoperand 2, fun _ => hconjunction, whole_of_conjunction ?_ hconjunction⟩
  rw [htokens, htokens]

theorem parsePrimary_ref (h : IsRef value) (depth : Nat) (more : List Text) :
    parsePrimary (depth + 1) (value :: more) = .ok (.ref value, more) := by
  have hopen : value ≠ "(".toList := by
    rintro rfl
    revert h
    decide
  unfold IsRef at h
  rw [parsePrimary, if_neg hopen, if_pos h]

theorem parsePrimary_license (hplain : ¬ IsRef value) (h : baseId value ∈ licenseIds) (depth : Nat) (more : List Text) :
    parsePrimary (depth + 1) (value :: more) = .ok (.license value, more) := by
  have hopen : value ≠ "(".toList := by
    rintro rfl
    exact (ids_plain _ h).2.2.1 rfl
  unfold IsRef at hplain
  rw [parsePrimary, if_neg hopen, if_neg hplain, if_pos]
  exact h

theorem ids_unversioned : ∀ id ∈ licenseIds, id.getLast? ≠ some '+' := by decide +kernel

theorem parseWith_exception {exceptionId : Text} (hvalue : value ∈ licenseIds) (hexception : exceptionId ∈ exceptionIds)
    (depth : Nat) (more : List Text) :
    parseWith (parsePrimary (depth + 1)) (value :: "WITH".toList :: exceptionId :: more) = .ok (.withException value exceptionId, more) := by
  obtain ⟨hplain, hbase, -⟩ := ids_plain value hvalue
  have hprimary := parsePrimary_license hplain (hbase.symm ▸ hvalue) depth ("WITH".toList :: exceptionId :: more)
  unfold parseWith
  rw [bind_eq hprimary]
  dsimp only
  rw [if_pos rfl, if_neg (ids_unversioned value hvalue), if_pos hexception]

theorem parsePrimary_group {depth : Nat}
    (h : parseOr (parsePrimary depth) (tokens ++ ")".toList :: more) = .ok (tree, ")".toList :: more)) :
    parsePrimary (depth + 1) ("(".toList :: tokens ++ [")".toList] ++ more) = .ok (tree, more) := by
  rw [List.append_assoc, List.singleton_append, List.cons_append, parsePrimary, if_pos rfl, bind_eq h]
  dsimp only
  rw [if_pos rfl]

theorem operands_readsBack {build : List Expr → Expr} (hlength : 2 ≤ children.length)
    (h : ∀ child ∈ children, ReadsBack item parent going child) (hoperator : operator ∉ going)
    (hmore : Stops (operator :: going) more) :
    chained operator build item (tokensOf.between operator parent children ++ more) = .ok (build children, more) := by
  cases children with
  | nil => simp at hlength
  | cons first others =>
    have hothers : others ≠ [] := by
      rintro rfl
      simp at hlength
    rw [chained_readsBack h hoperator hmore, if_neg hothers]

theorem readBack (tree : Expr) (h : Normal tree) : ReadBack tree := by
  induction tree using Expr.induct with
  | license value =>
    refine readBack_leaf (fun _ => rfl) fun depth hdepth more hmore => ?_
    obtain ⟨depth, rfl⟩ := Nat.exists_eq_succ_of_ne_zero (by omega : depth ≠ 0)
    exact parseWith_readsBack (parsePrimary_license h.1.2.1 h.1.2.2 depth more) hmore
  | ref value =>
    refine readBack_leaf (fun _ => rfl) fun depth hdepth more hmore => ?_
    obtain ⟨depth, rfl⟩ := Nat.exists_eq_succ_of_ne_zero (by omega : depth ≠ 0)
    exact parseWith_readsBack (parsePrimary_ref h.1.2 depth more) hmore
  | withException value exceptionId =>
    refine readBack_leaf (fun _ => rfl) fun depth hdepth more _ => ?_
    obtain ⟨depth, rfl⟩ := Nat.exists_eq_succ_of_ne_zero (by omega : depth ≠ 0)
    exact parseWith_exception h.1.1 h.1.2 depth more
  | and children ih =>
    obtain ⟨hlength, hoperands⟩ := normal_and.mp h
    have hchildren : ∀ depth, (tokensOf.between "AND".toList 2 children).length < depth → ∀ child ∈ children,
        ReadsBack (parseWith (parsePrimary depth)) 2 ["WITH".toList] child := by
      intro depth hdepth child hchild
      obtain ⟨hnot, hnormal⟩ := hoperands child hchild
      exact (ih child hchild hnormal).operand hnot depth (length_between hchild hdepth)
    have hconjunction : ∀ depth, (tokensOf 1 (.and children)).length < depth →
        ReadsBack (chained "AND".toList .and (parseWith (parsePrimary depth))) 1 ["AND".toList, "WITH".toList] (.and children) :=
      fun depth hdepth more hmore => operands_readsBack hlength (hchildren depth hdepth) (by decide) hmore
    exact ⟨fun hnot => absurd hnot (by simp [Expr.isAnd]), fun _ => hconjunction, whole_of_conjunction rfl hconjunction⟩
  | or children ih =>
    obtain ⟨hlength, hoperands⟩ := normal_or.mp h
    have hwhole : ∀ depth, (tokensOf.between "OR".toList 1 children).length < depth → ∀ more,
        Stops ["OR".toList, "AND".toList, "WITH".toList] more →
        parseOr (parsePrimary depth) (tokensOf.between "OR".toList 1 children ++ more) = .ok (.or children, more) := by
      intro depth hdepth more hmore
      refine operands_readsBack hlength (fun child hchild => ?_) (by decide) hmore
      obtain ⟨hnot, hnormal⟩ := hoperands child hchild
      exact (ih child hchild hnormal).conjunction hnot depth (length_between hchild hdepth)
    refine ⟨fun _ depth hdepth more hmore => ?_, fun hnot => absurd hnot (by simp [Expr.isOr]), hwhole⟩
    obtain ⟨depth, rfl⟩ := Nat.exists_eq_succ_of_ne_zero (by omega : depth ≠ 0)
    refine parseWith_readsBack (parsePrimary_group (hwhole depth ?_ _ ?_)) hmore
    · have htokens : (tokensOf 2 (.or children)).length = (tokensOf.between "OR".toList 1 children).length + 2 := by
        simp [tokensOf, groupedTokens]
      omega
    · intro token htoken
      cases htoken
      decide

end

/-- The text of a normal tree is accepted, and read as this tree. -/
theorem parse_render {tree : Expr} (h : Normal tree) : parse (render 0 tree) = .ok tree := by
  have hclean := clean_render tree h 0
  have hspaced : operatorsSpaced none (render 0 tree) = true := by
    have hall := spacedBack tree h 0 (by omega) none [] (by intro ch hch; cases hch) fun _ => rfl
    rwa [append_nil] at hall
  have hcuts : Cuts (render 0 tree) (tokensOf 0 tree) := by
    have hall := cutsBack tree h 0 (by omega) [] [] (by intro ch hch; cases hch) (.nil rfl)
    rwa [append_nil, append_nil] at hall
  have hvalid : ¬ (render 0 tree = [] ∨ (render 0 tree).any fun ch => decide (ch.toNat < 32) && ch ≠ '\t') := by
    rintro (hnil | hcontrol)
    · obtain ⟨ch, hch, -⟩ := hclean.first
      rw [hnil] at hch
      cases hch
    · obtain ⟨ch, hch, hlow⟩ := any_eq_true.mp hcontrol
      have hhigh := hclean.printable ch hch
      simp only [Bool.and_eq_true, decide_eq_true_eq] at hlow
      omega
  have htokens : tokenize (render 0 tree) = .ok (tokensOf 0 tree) := by
    unfold tokenize
    rw [if_neg hvalid, if_neg (by simpa using hspaced)]
    exact (tokensFrom_ok_iff le_rfl).mpr hcuts
  have hread := (readBack tree h).whole ((tokensOf 0 tree).length + 1) (by omega) [] (by intro token htoken; cases htoken)
  rw [append_nil] at hread
  unfold parse
  rw [bind_eq htokens, bind_eq hread]
  rfl

/-- What is accepted is rewritten to a text that is accepted and stays as it is, read as the flat form of the expression. -/
theorem canonicalize_flattens {expression canonical : Text} (h : canonicalizeSpdxExpression expression = .ok canonical) :
    ∃ tree, parse (strip expression) = .ok tree ∧ parse (strip canonical) = .ok (flatten tree) ∧ (flatten tree).Flat ∧
      canonicalizeSpdxExpression canonical = .ok canonical := by
  unfold canonicalizeSpdxExpression at h
  obtain ⟨tree, hparse, rfl⟩ := map_ok h
  obtain ⟨-, -, -, -, -, hformed⟩ := parse_ok hparse
  have hnormal := (normal_flatten tree hformed).1
  have hrender : render 0 tree = render 0 (flatten tree) := (sameText tree hformed).own 0
  have hback : parse (strip (render 0 tree)) = .ok (flatten tree) := by
    rw [hrender, strip_of_clean (clean_render _ hnormal 0)]
    exact parse_render hnormal
  refine ⟨tree, hparse, hback, hnormal.2, ?_⟩
  unfold canonicalizeSpdxExpression
  rw [hback]
  exact congrArg Except.ok hrender.symm

theorem canonicalize_flattens_nested :
    (canonicalizeSpdxExpression "(MIT AND (ISC AND MIT))".toList).toOption = some "MIT AND ISC AND MIT".toList ∧
      canonicalizeSpdxExpression "MIT AND ISC AND MIT".toList = .ok "MIT AND ISC AND MIT".toList := by
  have hshown : (canonicalizeSpdxExpression "(MIT AND (ISC AND MIT))".toList).toOption = some "MIT AND ISC AND MIT".toList := by
    decide +kernel
  obtain ⟨-, -, -, -, hsame⟩ := canonicalize_flattens (toOption_ok hshown)
  exact ⟨hshown, hsame⟩

/-- Operands that repeat or are out of order stay as they are. -/
theorem canonicalize_keeps_operands :
    ∃ canonical tree, canonicalizeSpdxExpression "MIT AND ISC AND MIT".toList = .ok canonical ∧
      parse (strip canonical) = .ok tree ∧ ¬ tree.identifiers.Nodup ∧ ¬ tree.identifiers.Pairwise (· ≤ ·) := by
  have hshown : (canonicalizeSpdxExpression "MIT AND ISC AND MIT".toList).toOption = some "MIT AND ISC AND MIT".toList := by
    decide +kernel
  have hleaves : (parse (strip "MIT AND ISC AND MIT".toList)).toOption.map Expr.identifiers =
      some ["MIT".toList, "ISC".toList, "MIT".toList] := by
    decide +kernel
  obtain ⟨tree, htree, hids⟩ := Option.map_eq_some_iff.mp hleaves
  refine ⟨_, tree, toOption_ok hshown, toOption_ok htree, ?_, ?_⟩
  · rw [hids]
    decide
  · rw [hids]
    decide +kernel

end Leitir.License
