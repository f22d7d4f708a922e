import Leitir.LicenseRouting

/-! The canonical text of an expression, and what it is read back as. -/

namespace Leitir.License

open List

mutual

/-- The tree with the operands of nested operators of one kind in their place. -/
def flatten : Expr → Expr
  | .and children => .and (conjuncts children)
  | .or children => .or (disjuncts children)
  | .license value => .license value
  | .ref value => .ref value
  | .withException value exceptionId => .withException value exceptionId

def conjuncts : List Expr → List Expr
  | [] => []
  | .and children :: rest => conjuncts children ++ conjuncts rest
  | child :: rest => flatten child :: conjuncts rest

def disjuncts : List Expr → List Expr
  | [] => []
  | .or children :: rest => disjuncts children ++ disjuncts rest
  | child :: rest => flatten child :: disjuncts rest

end

def Expr.isAnd : Expr → Bool
  | .and _ => true
  | _ => false

def Expr.isOr : Expr → Bool
  | .or _ => true
  | _ => false

theorem Expr.induct {motive : Expr → Prop} (license : ∀ value, motive (.license value)) (ref : ∀ value, motive (.ref value))
    (withException : ∀ value exceptionId, motive (.withException value exceptionId))
    (and : ∀ children, (∀ child ∈ children, motive child) → motive (.and children))
    (or : ∀ children, (∀ child ∈ children, motive child) → motive (.or children)) : (tree : Expr) → motive tree
  | .license value => license value
  | .ref value => ref value
  | .withException value exceptionId => withException value exceptionId
  | .and children => and children fun child _ => Expr.induct license ref withException and or child
  | .or children => or children fun child _ => Expr.induct license ref withException and or child

theorem wellFormedAll_iff {children : List Expr} :
    Expr.WellFormed.wellFormedAll children ↔ ∀ child ∈ children, child.WellFormed := by
  induction children with
  | nil => simp [Expr.WellFormed.wellFormedAll]
  | cons child children ih => simp [Expr.WellFormed.wellFormedAll, ih]

/-- No operand of an operator is of the same operator. -/
def Expr.Flat : Expr → Prop
  | .and children => flatAll Expr.isAnd children
  | .or children => flatAll Expr.isOr children
  | .license _ | .ref _ | .withException _ _ => True
where
  flatAll (same : Expr → Bool) : List Expr → Prop
    | [] => True
    | child :: rest => (same child = false ∧ child.Flat) ∧ flatAll same rest

theorem flatAll_iff {same : Expr → Bool} {children : List Expr} :
    Expr.Flat.flatAll same children ↔ ∀ child ∈ children, same child = false ∧ child.Flat := by
  induction children with
  | nil => simp [Expr.Flat.flatAll]
  | cons child children ih => simp [Expr.Flat.flatAll, ih]

def Expr.asConjuncts : Expr → List Expr
  | .and children => conjuncts children
  | child => [flatten child]

def Expr.asDisjuncts : Expr → List Expr
  | .or children => disjuncts children
  | child => [flatten child]

theorem conjuncts_eq (children : List Expr) : conjuncts children = children.flatMap Expr.asConjuncts := by
  induction children with
  | nil => simp [conjuncts]
  | cons child children ih =>
    cases child with
    | _ => simp [conjuncts, Expr.asConjuncts, ih]

theorem disjuncts_eq (children : List Expr) : disjuncts children = children.flatMap Expr.asDisjuncts := by
  induction children with
  | nil => simp [disjuncts]
  | cons child children ih =>
    cases child with
    | _ => simp [disjuncts, Expr.asDisjuncts, ih]

theorem isAnd_flatten (tree : Expr) : (flatten tree).isAnd = tree.isAnd := by
  cases tree with
  | _ => simp [flatten, Expr.isAnd]

theorem isOr_flatten (tree : Expr) : (flatten tree).isOr = tree.isOr := by
  cases tree with
  | _ => simp [flatten, Expr.isOr]

theorem asConjuncts_of_not {tree : Expr} (h : tree.isAnd = false) : tree.asConjuncts = [flatten tree] := by
  cases tree with
  | and => cases h
  | _ => rfl

theorem asDisjuncts_of_not {tree : Expr} (h : tree.isOr = false) : tree.asDisjuncts = [flatten tree] := by
  cases tree with
  | or => cases h
  | _ => rfl

def Normal (tree : Expr) : Prop := tree.WellFormed ∧ tree.Flat

def Operands (same : Expr → Bool) (children : List Expr) : Prop := ∀ child ∈ children, same child = false ∧ Normal child

theorem operands_iff {same : Expr → Bool} {children : List Expr} :
    (2 ≤ children.length ∧ Expr.WellFormed.wellFormedAll children) ∧ Expr.Flat.flatAll same children ↔
      2 ≤ children.length ∧ Operands same children := by
  unfold Operands Normal
  rw [wellFormedAll_iff, flatAll_iff]
  constructor
  · rintro ⟨⟨hlength, hformed⟩, hflat⟩
    exact ⟨hlength, fun child hchild => ⟨(hflat child hchild).1, hformed child hchild, (hflat child hchild).2⟩⟩
  · rintro ⟨hlength, hall⟩
    exact ⟨⟨hlength, fun child hchild => (hall child hchild).2.1⟩, fun child hchild => ⟨(hall child hchild).1, (hall child hchild).2.2⟩⟩

theorem normal_and {children : List Expr} : Normal (.and children) ↔ 2 ≤ children.length ∧ Operands Expr.isAnd children := operands_iff

theorem normal_or {children : List Expr} : Normal (.or children) ↔ 2 ≤ children.length ∧ Operands Expr.isOr children := operands_iff

theorem length_le_flatMap {children : List Expr} {operands : Expr → List Expr} (h : ∀ child ∈ children, operands child ≠ []) :
    children.length ≤ (children.flatMap operands).length := by
  induction children with
  | nil => simp
  | cons child children ih =>
    have hpos := length_pos_iff.mpr (h child mem_cons_self)
    have hrest := ih fun other hother => h other (mem_cons_of_mem _ hother)
    simp only [length_cons, flatMap_cons, length_append]
    omega

theorem operands_flatMap {same : Expr → Bool} {children : List Expr} {operands : Expr → List Expr}
    (h : ∀ child ∈ children, Operands same (operands child)) : Operands same (children.flatMap operands) := by
  intro operand hoperand
  obtain ⟨child, hchild, hmem⟩ := mem_flatMap.mp hoperand
  exact h child hchild operand hmem

theorem operands_single {same : Expr → Bool} {tree : Expr} (hnot : same tree = false) (h : Normal tree) :
    [tree] ≠ [] ∧ Operands same [tree] := by
  refine ⟨by simp, fun child hchild => ?_⟩
  rw [mem_singleton.mp hchild]
  exact ⟨hnot, h⟩

/-- Flattening gives a normal tree, and normal operands to the operators around it. -/
theorem normal_flatten (tree : Expr) (h : tree.WellFormed) : Normal (flatten tree) ∧
    (tree.asConjuncts ≠ [] ∧ Operands Expr.isAnd tree.asConjuncts) ∧ (tree.asDisjuncts ≠ [] ∧ Operands Expr.isOr tree.asDisjuncts) := by
  have hsingle : ∀ {tree : Expr}, Normal (flatten tree) → tree.isAnd = false →
      tree.asConjuncts ≠ [] ∧ Operands Expr.isAnd tree.asConjuncts := by
    intro tree hnormal hnot
    rw [asConjuncts_of_not hnot]
    exact operands_single ((isAnd_flatten tree).trans hnot) hnormal
  have hsingle' : ∀ {tree : Expr}, Normal (flatten tree) → tree.isOr = false →
      tree.asDisjuncts ≠ [] ∧ Operands Expr.isOr tree.asDisjuncts := by
    intro tree hnormal hnot
    rw [asDisjuncts_of_not hnot]
    exact operands_single ((isOr_flatten tree).trans hnot) hnormal
  induction tree using Expr.induct with
  | license value =>
    have hnormal : Normal (flatten (.license value)) := by
      rw [flatten]
      exact ⟨h, trivial⟩
    exact ⟨hnormal, hsingle hnormal rfl, hsingle' hnormal rfl⟩
  | ref value =>
    have hnormal : Normal (flatten (.ref value)) := by
      rw [flatten]
      exact ⟨h, trivial⟩
    exact ⟨hnormal, hsingle hnormal rfl, hsingle' hnormal rfl⟩
  | withException value exceptionId =>
    have hnormal : Normal (flatten (.withException value exceptionId)) := by
      rw [flatten]
      exact ⟨h, trivial⟩
    exact ⟨hnormal, hsingle hnormal rfl, hsingle' hnormal rfl⟩
  | and children ih =>
    have hformed := wellFormedAll_iff.mp h.2
    have hall := fun child hchild => (ih child hchild (hformed child hchild)).2.1
    have hlength := length_le_flatMap fun child hchild => (hall child hchild).1
    have hoperands := operands_flatMap fun child hchild => (hall child hchild).2
    rw [← conjuncts_eq] at hlength hoperands
    have hnormal : Normal (flatten (.and children)) := by
      rw [flatten]
      exact normal_and.mpr ⟨h.1.trans hlength, hoperands⟩
    refine ⟨hnormal, ⟨?_, hoperands⟩, hsingle' hnormal rfl⟩
    exact ne_nil_of_length_pos (by have := h.1; show 0 < (conjuncts children).length; omega)
  | or children ih =>
    have hformed := wellFormedAll_iff.mp h.2
    have hall := fun child hchild => (ih child hchild (hformed child hchild)).2.2
    have hlength := length_le_flatMap fun child hchild => (hall child hchild).1
    have hoperands := operands_flatMap fun child hchild => (hall child hchild).2
    rw [← disjuncts_eq] at hlength hoperands
    have hnormal : Normal (flatten (.or children)) := by
      rw [flatten]
      exact normal_or.mpr ⟨h.1.trans hlength, hoperands⟩
    refine ⟨hnormal, hsingle hnormal rfl, ⟨?_, hoperands⟩⟩
    exact ne_nil_of_length_pos (by have := h.1; show 0 < (disjuncts children).length; omega)

def trailed (sep : Text) (texts : List Text) : Text := texts.flatMap fun text => text ++ sep

theorem intercalate_append {sep : Text} {texts : List Text} (h : texts ≠ []) : sep.intercalate texts ++ sep = trailed sep texts := by
  induction texts with
  | nil => exact absurd rfl h
  | cons text texts ih =>
    cases texts with
    | nil => simp [trailed]
    | cons next texts =>
      rw [intercalate_cons_cons, append_assoc, ih (by simp)]
      simp [trailed]

theorem intercalate_eq {sep : Text} {texts others : List Text} (htexts : texts ≠ []) (hothers : others ≠ [])
    (h : trailed sep texts = trailed sep others) : sep.intercalate texts = sep.intercalate others := by
  rw [← intercalate_append htexts, ← intercalate_append hothers] at h
  exact append_cancel_right h

theorem trailed_singleton {sep : Text} {texts : List Text} (h : texts ≠ []) : trailed sep [sep.intercalate texts] = trailed sep texts := by
  rw [← intercalate_append h]
  simp [trailed]

theorem trailed_flatMap {sep : Text} {children : List Expr} {shown shown' : Expr → List Text}
    (h : ∀ child ∈ children, trailed sep (shown child) = trailed sep (shown' child)) :
    trailed sep (children.flatMap shown) = trailed sep (children.flatMap shown') := by
  induction children with
  | nil => rfl
  | cons child children ih =>
    have hrest := ih fun other hother => h other (mem_cons_of_mem _ hother)
    have hown := h child mem_cons_self
    unfold trailed at hrest hown ⊢
    rw [flatMap_cons, flatMap_cons, flatMap_append, flatMap_append, hown, hrest]

theorem renderAll_eq (parent : Nat) (children : List Expr) : renderAll parent children = children.map (render parent) := by
  induction children with
  | nil => simp [renderAll]
  | cons child children ih => simp [renderAll, ih]

def Expr.shownAnd : Expr → List Text
  | .and children => children.map (render 2)
  | child => [render 2 child]

def Expr.shownOr : Expr → List Text
  | .or children => children.map (render 1)
  | child => [render 1 child]

theorem renderAnd_eq (children : List Expr) : renderAnd children = children.flatMap Expr.shownAnd := by
  induction children with
  | nil => simp [renderAnd]
  | cons child children ih =>
    cases child with
    | _ => simp [renderAnd, Expr.shownAnd, ih, renderAll_eq]

theorem renderOr_eq (children : List Expr) : renderOr children = children.flatMap Expr.shownOr := by
  induction children with
  | nil => simp [renderOr]
  | cons child children ih =>
    cases child with
    | _ => simp [renderOr, Expr.shownOr, ih, renderAll_eq]

theorem shownAnd_of_not {tree : Expr} (h : tree.isAnd = false) : tree.shownAnd = [render 2 tree] := by
  cases tree with
  | and => cases h
  | _ => rfl

theorem shownOr_of_not {tree : Expr} (h : tree.isOr = false) : tree.shownOr = [render 1 tree] := by
  cases tree with
  | or => cases h
  | _ => rfl

theorem renderAnd_operands {children : List Expr} (h : Operands Expr.isAnd children) : renderAnd children = children.map (render 2) := by
  rw [renderAnd_eq, map_eq_flatMap]
  exact flatMap_congr fun child hchild => shownAnd_of_not (h child hchild).1

theorem renderOr_operands {children : List Expr} (h : Operands Expr.isOr children) : renderOr children = children.map (render 1) := by
  rw [renderOr_eq, map_eq_flatMap]
  exact flatMap_congr fun child hchild => shownOr_of_not (h child hchild).1

def andSep : Text := " AND ".toList

def orSep : Text := " OR ".toList

/-- One text for a tree and its flat form, also where they are operands. -/
structure SameText (tree : Expr) : Prop where
  own : ∀ parent, render parent tree = render parent (flatten tree)
  shownAnd : trailed andSep tree.shownAnd = trailed andSep (tree.asConjuncts.map (render 2))
  asAnd : trailed andSep [render 2 tree] = trailed andSep (tree.asConjuncts.map (render 2))
  shownOr : trailed orSep tree.shownOr = trailed orSep (tree.asDisjuncts.map (render 1))
  asOr : trailed orSep [render 1 tree] = trailed orSep (tree.asDisjuncts.map (render 1))

theorem sameText_and_of_not {tree : Expr} (hown : ∀ parent, render parent tree = render parent (flatten tree))
    (hnot : tree.isAnd = false) : trailed andSep tree.shownAnd = trailed andSep (tree.asConjuncts.map (render 2)) ∧
      trailed andSep [render 2 tree] = trailed andSep (tree.asConjuncts.map (render 2)) := by
  rw [shownAnd_of_not hnot, asConjuncts_of_not hnot, map_singleton, hown 2]
  exact ⟨rfl, rfl⟩

theorem sameText_or_of_not {tree : Expr} (hown : ∀ parent, render parent tree = render parent (flatten tree))
    (hnot : tree.isOr = false) : trailed orSep tree.shownOr = trailed orSep (tree.asDisjuncts.map (render 1)) ∧
      trailed orSep [render 1 tree] = trailed orSep (tree.asDisjuncts.map (render 1)) := by
  rw [shownOr_of_not hnot, asDisjuncts_of_not hnot, map_singleton, hown 1]
  exact ⟨rfl, rfl⟩

theorem sameText_leaf {tree : Expr} (hflatten : flatten tree = tree) (hand : tree.isAnd = false) (hor : tree.isOr = false) :
    SameText tree := by
  have hown : ∀ parent, render parent tree = render parent (flatten tree) := fun parent => by rw [hflatten]
  obtain ⟨hshownAnd, hasAnd⟩ := sameText_and_of_not hown hand
  obtain ⟨hshownOr, hasOr⟩ := sameText_or_of_not hown hor
  exact ⟨hown, hshownAnd, hasAnd, hshownOr, hasOr⟩

theorem flatMap_shown {children : List Expr} {shown : Expr → List Text} (hchildren : children ≠ [])
    (h : ∀ child ∈ children, shown child ≠ []) : children.flatMap shown ≠ [] := by
  obtain ⟨child, hchild⟩ := exists_mem_of_ne_nil children hchildren
  exact fun hnil => h child hchild (flatMap_eq_nil_iff.mp hnil child hchild)

theorem sameText (tree : Expr) (h : tree.WellFormed) : SameText tree := by
  induction tree using Expr.induct with
  | license value => exact sameText_leaf (by rw [flatten]) rfl rfl
  | ref value => exact sameText_leaf (by rw [flatten]) rfl rfl
  | withException value exceptionId => exact sameText_leaf (by rw [flatten]) rfl rfl
  | and children ih =>
    have hall := fun child hchild => ih child hchild (wellFormedAll_iff.mp h.2 child hchild)
    obtain ⟨hnormal, ⟨hne, hoperands⟩, -⟩ := normal_flatten (.and children) h
    have hchildren : children ≠ [] := ne_nil_of_length_pos (by have := h.1; omega)
    have hrenderAnd : trailed andSep (renderAnd children) = trailed andSep ((conjuncts children).map (render 2)) := by
      rw [renderAnd_eq, conjuncts_eq, map_flatMap]
      exact trailed_flatMap fun child hchild => (hall child hchild).shownAnd
    have hmap : trailed andSep (children.map (render 2)) = trailed andSep ((conjuncts children).map (render 2)) := by
      rw [map_eq_flatMap, conjuncts_eq, map_flatMap]
      exact trailed_flatMap fun child hchild => (hall child hchild).asAnd
    have hshown : renderAnd children ≠ [] := by
      rw [renderAnd_eq]
      refine flatMap_shown hchildren fun child hchild => ?_
      have hformed := wellFormedAll_iff.mp h.2 child hchild
      cases child with
      | and nested => exact fun hnil => absurd hformed.1 (by simp [map_eq_nil_iff.mp hnil])
      | _ => exact cons_ne_nil _ _
    have hown : ∀ parent, render parent (.and children) = render parent (flatten (.and children)) := by
      intro parent
      rw [flatten, render, render, renderAnd_operands (show Operands Expr.isAnd (conjuncts children) from hoperands)]
      exact congrArg _ (intercalate_eq hshown (fun hnil => hne (map_eq_nil_iff.mp hnil)) hrenderAnd)
    obtain ⟨hshownOr, hasOr⟩ := sameText_or_of_not hown rfl
    refine ⟨hown, hmap, ?_, hshownOr, hasOr⟩
    have htext : render 2 (.and children) = andSep.intercalate (renderAnd children) := by
      rw [render]
      rfl
    rw [htext, trailed_singleton hshown]
    exact hrenderAnd
  | or children ih =>
    have hall := fun child hchild => ih child hchild (wellFormedAll_iff.mp h.2 child hchild)
    obtain ⟨hnormal, -, ⟨hne, hoperands⟩⟩ := normal_flatten (.or children) h
    have hchildren : children ≠ [] := ne_nil_of_length_pos (by have := h.1; omega)
    have hrenderOr : trailed orSep (renderOr children) = trailed orSep ((disjuncts children).map (render 1)) := by
      rw [renderOr_eq, disjuncts_eq, map_flatMap]
      exact trailed_flatMap fun child hchild => (hall child hchild).shownOr
    have hmap : trailed orSep (children.map (render 1)) = trailed orSep ((disjuncts children).map (render 1)) := by
      rw [map_eq_flatMap, disjuncts_eq, map_flatMap]
      exact trailed_flatMap fun child hchild => (hall child hchild).asOr
    have hshown : renderOr children ≠ [] := by
      rw [renderOr_eq]
      refine flatMap_shown hchildren fun child hchild => ?_
      have hformed := wellFormedAll_iff.mp h.2 child hchild
      cases child with
      | or nested => exact fun hnil => absurd hformed.1 (by simp [map_eq_nil_iff.mp hnil])
      | _ => exact cons_ne_nil _ _
    have hown : ∀ parent, render parent (.or children) = render parent (flatten (.or children)) := by
      intro parent
      rw [flatten, render, render, renderOr_operands (show Operands Expr.isOr (disjuncts children) from hoperands)]
      exact congrArg _ (intercalate_eq hshown (fun hnil => hne (map_eq_nil_iff.mp hnil)) hrenderOr)
    obtain ⟨hshownAnd, hasAnd⟩ := sameText_and_of_not hown rfl
    refine ⟨hown, hshownAnd, hasAnd, hmap, ?_⟩
    have htext : render 1 (.or children) = orSep.intercalate (renderOr children) := by
      rw [render]
      rfl
    rw [htext, trailed_singleton hshown]
    exact hrenderOr

theorem Cuts.blank {ch : Char} (hch : isBlank ch = true) {text : Text} {tokens : List Text} (h : Cuts text tokens) :
    Cuts (ch :: text) tokens := by
  have hdrop : (ch :: text).dropWhile isBlank = text.dropWhile isBlank := by simp [hch]
  cases h with
  | nil hnil => exact .nil (hdrop.trans hnil)
  | cons htoken hrest => exact .cons (by rw [hdrop]; exact htoken) hrest

theorem Cuts.append {token more : Text} {tokens : List Text} (htoken : Token token) (hmore : Separates more) (h : Cuts more tokens) :
    Cuts (token ++ more) (token :: tokens) := by
  have hdrop : (token ++ more).dropWhile isBlank = token ++ more := by
    obtain ⟨ch, hch, hblank, -⟩ := htoken.head
    cases token with
    | nil => cases hch
    | cons first token =>
      cases hch
      simp [hblank]
  exact .cons (by rw [hdrop]; exact tokenAt_append htoken hmore) h

theorem Cuts.operator {operator more : Text} {tokens : List Text} (hoperator : Token operator) (h : Cuts more tokens) :
    Cuts (' ' :: (operator ++ ' ' :: more)) (operator :: tokens) := by
  refine Cuts.blank (by decide) (Cuts.append hoperator ?_ (Cuts.blank (by decide) h))
  intro ch hch
  cases hch
  exact Or.inl (by decide)

theorem separates_blank (more : Text) : Separates (' ' :: more) := by
  intro ch hch
  cases hch
  exact Or.inl (by decide)

theorem token_of_parts {text : Text} (h : (text.head?.any isAlnum && text.all isPart) = true) : Token text := by
  rw [Bool.and_eq_true, all_eq_true] at h
  obtain ⟨hhead, hbody⟩ := h
  refine .word ?_ hbody
  cases hfirst : text.head? with
  | none =>
    rw [hfirst] at hhead
    cases hhead
  | some ch =>
    rw [hfirst] at hhead
    exact ⟨ch, rfl, hhead⟩

theorem token_operator : ∀ operator ∈ operators, Token operator := by
  have hparts : (operators.all fun operator => operator.head?.any isAlnum && operator.all isPart) = true := by decide
  exact fun operator hoperator => token_of_parts (all_eq_true.mp hparts operator hoperator)

theorem token_id : ∀ id ∈ licenseIds ++ exceptionIds, Token id := by
  have hparts : ((licenseIds ++ exceptionIds).all fun id => id.head?.any isAlnum && id.all isPart) = true := by decide +kernel
  exact fun id hid => token_of_parts (all_eq_true.mp hparts id hid)

def groupedTokens (group : Bool) (tokens : List Text) : List Text :=
  if group then "(".toList :: tokens ++ [")".toList] else tokens

/-- The tokens of a normal tree below an operator of a precedence. -/
def tokensOf (parent : Nat) : Expr → List Text
  | .license value => [value]
  | .ref value => [value]
  | .withException value exceptionId => [value, "WITH".toList, exceptionId]
  | .and children => groupedTokens (2 < parent) (between "AND".toList 2 children)
  | .or children => groupedTokens (1 < parent) (between "OR".toList 1 children)
where
  between (operator : Text) (parent : Nat) : List Expr → List Text
    | [] => []
    | [child] => tokensOf parent child
    | child :: next :: rest => tokensOf parent child ++ operator :: between operator parent (next :: rest)

def CutsBack (parent : Nat) (tree : Expr) : Prop :=
  ∀ more tokens, Separates more → Cuts more tokens → Cuts (render parent tree ++ more) (tokensOf parent tree ++ tokens)

theorem cuts_intercalate {operator : Text} (hoperator : Token operator) {parent : Nat} {children : List Expr}
    (hchildren : ∀ child ∈ children, CutsBack parent child) {more : Text} {tokens : List Text} (hmore : Separates more)
    (h : Cuts more tokens) : Cuts ((' ' :: operator ++ [' ']).intercalate (children.map (render parent)) ++ more)
      (tokensOf.between operator parent children ++ tokens) := by
  induction children with
  | nil => exact h
  | cons child children ih =>
    have hrest := ih fun other hother => hchildren other (mem_cons_of_mem _ hother)
    cases children with
    | nil => simpa [tokensOf.between] using hchildren child mem_cons_self more tokens hmore h
    | cons next children =>
      rw [map_cons, map_cons, intercalate_cons_cons]
      simp only [tokensOf.between, append_assoc, cons_append, nil_append]
      refine hchildren child mem_cons_self _ _ (separates_blank _) (Cuts.operator hoperator ?_)
      exact hrest

theorem cuts_grouped {group : Bool} {text : Text} {tokens : List Text}
    (htext : ∀ more others, Separates more → Cuts more others → Cuts (text ++ more) (tokens ++ others)) {more : Text}
    {others : List Text} (hmore : Separates more) (h : Cuts more others) :
    Cuts (grouped group text ++ more) (groupedTokens group tokens ++ others) := by
  unfold grouped groupedTokens
  cases group with
  | false => exact htext more others hmore h
  | true =>
    have hclose : Cuts (')' :: more) (")".toList :: others) := by
      refine .cons ?_ h
      rfl
    have hinner := htext (')' :: more) (")".toList :: others) (by intro ch hch; cases hch; exact Or.inr (Or.inr rfl)) hclose
    simp only [if_true, append_assoc, cons_append, nil_append]
    refine .cons ?_ hinner
    rfl

theorem cutsBack (tree : Expr) (h : Normal tree) : ∀ parent ≤ 2, CutsBack parent tree := by
  induction tree using Expr.induct with
  | license value =>
    intro parent _ more tokens hmore hcuts
    rw [render]
    exact Cuts.append h.1.1 hmore hcuts
  | ref value =>
    intro parent _ more tokens hmore hcuts
    rw [render]
    exact Cuts.append h.1.1 hmore hcuts
  | withException value exceptionId =>
    intro parent hparent more tokens hmore hcuts
    have hid := token_id value (mem_append_left _ h.1.1)
    have hexception := token_id exceptionId (mem_append_right _ h.1.2)
    have hwith : Token "WITH".toList := token_operator _ (by simp [operators])
    have htext : render parent (.withException value exceptionId) ++ more =
        value ++ ' ' :: ("WITH".toList ++ ' ' :: (exceptionId ++ more)) := by
      rw [render]
      simp [grouped, show ¬ 3 < parent by omega]
    rw [htext]
    exact Cuts.append hid (separates_blank _) (Cuts.operator hwith (Cuts.append hexception hmore hcuts))
  | and children ih =>
    intro parent _ more tokens hmore hcuts
    obtain ⟨-, hoperands⟩ := normal_and.mp h
    have hand : Token "AND".toList := token_operator _ (by simp [operators])
    rw [render, renderAnd_operands hoperands]
    refine cuts_grouped (fun more others hmore hcuts => ?_) hmore hcuts
    exact cuts_intercalate hand (fun child hchild => ih child hchild (hoperands child hchild).2 2 le_rfl) hmore hcuts
  | or children ih =>
    intro parent _ more tokens hmore hcuts
    obtain ⟨-, hoperands⟩ := normal_or.mp h
    have hor : Token "OR".toList := token_operator _ (by simp [operators])
    rw [render, renderOr_operands hoperands]
    refine cuts_grouped (fun more others hmore hcuts => ?_) hmore hcuts
    exact cuts_intercalate hor (fun child hchild => ih child hchild (hoperands child hchild).2 1 (by omega)) hmore hcuts

theorem operator_prefix_head {ch : Char} {rest operator : Text} (hoperator : operator ∈ operators) (h : operator <+: ch :: rest) :
    ch ∈ ['A', 'O', 'W'] := by
  have hheads : ∀ operator ∈ operators, operator.head?.any (['A', 'O', 'W'].contains ·) = true := by decide
  obtain ⟨first, hhead, hfirst⟩ := (Option.any_eq_true _ _).mp (hheads operator hoperator)
  rw [contains_iff_mem] at hfirst
  obtain ⟨tail, htail⟩ := h
  have hch := congrArg List.head? htail
  rw [head?_append, hhead] at hch
  cases hch
  exact hfirst

theorem operatorsSpaced_head {before : Option Char} {ch : Char} {rest : Text} (h : ch ∉ ['A', 'O', 'W'])
    (hrest : operatorsSpaced (some ch) rest = true) : operatorsSpaced before (ch :: rest) = true := by
  unfold operatorsSpaced
  rw [hrest, Bool.and_true, all_eq_true]
  intro operator hoperator
  rw [if_pos]
  simp only [Bool.or_eq_true, Bool.not_eq_true', decide_eq_false_iff_not]
  exact Or.inr fun hprefix => h (operator_prefix_head hoperator hprefix)

theorem operatorsSpaced_part {before : Option Char} {ch : Char} {rest : Text} (h : before.any isPart = true)
    (hrest : operatorsSpaced (some ch) rest = true) : operatorsSpaced before (ch :: rest) = true := by
  unfold operatorsSpaced
  rw [hrest, Bool.and_true, all_eq_true]
  intro operator hoperator
  rw [if_pos (by simp [h])]

theorem operatorsSpaced_run {before : Char} {run more : Text} (hbefore : isPart before = true)
    (hrun : ∀ ch ∈ run, isPart ch = true) (hmore : ∀ last, operatorsSpaced last more = true) :
    operatorsSpaced (some before) (run ++ more) = true := by
  induction run generalizing before with
  | nil => exact hmore _
  | cons ch run ih =>
    refine operatorsSpaced_part (by simpa using hbefore) ?_
    exact ih (hrun ch mem_cons_self) fun other hother => hrun other (mem_cons_of_mem _ hother)

theorem operators_parts : ∀ operator ∈ operators, ∀ ch ∈ operator, isPart ch = true := by
  have hparts : (operators.all fun operator => operator.all isPart) = true := by decide
  exact fun operator hoperator => all_eq_true.mp (all_eq_true.mp hparts operator hoperator)

/-- A name is spaced, since it is no operator or stands between blanks. -/
theorem spaced_body {before : Option Char} {body more : Text} (hne : body ≠ []) (hbody : ∀ ch ∈ body, isPart ch = true)
    (hmore : Ends more) (hoperator : body ∈ operators → before.any isBlank = true ∧ more.head?.any isBlank = true)
    (hrest : ∀ last, operatorsSpaced last more = true) : operatorsSpaced before (body ++ more) = true := by
  obtain ⟨ch, rest, rfl⟩ := exists_cons_of_ne_nil hne
  have hrun : operatorsSpaced (some ch) (rest ++ more) = true :=
    operatorsSpaced_run (hbody ch mem_cons_self) (fun other hother => hbody other (mem_cons_of_mem _ hother)) hrest
  rw [cons_append]
  unfold operatorsSpaced
  rw [hrun, Bool.and_true, all_eq_true]
  intro operator hmem
  split
  next => rfl
  next hcond =>
    simp only [Bool.or_eq_true, Bool.not_eq_true', decide_eq_false_iff_not, not_or, not_not] at hcond
    have hprefix : operator <+: ch :: rest := by
      rcases prefix_or_prefix_of_prefix hcond.2 (show ch :: rest <+: ch :: (rest ++ more) from prefix_append _ more) with
        hshort | ⟨tail, htail⟩
      · exact hshort
      · cases tail with
        | nil => exact ⟨[], by rw [← htail]; simp⟩
        | cons next tail =>
          obtain ⟨last, hlast⟩ := hcond.2
          rw [← htail, append_assoc, ← cons_append, append_cancel_left_eq] at hlast
          have hpart := operators_parts operator hmem next (by rw [← htail]; simp)
          rw [hmore next (by rw [← hlast]; rfl)] at hpart
          cases hpart
    obtain ⟨tail, htail⟩ := hprefix
    rw [← cons_append, ← htail, append_assoc, drop_left]
    dsimp only
    cases tail with
    | nil =>
      rw [append_nil] at htail
      obtain ⟨hblank, hafter⟩ := hoperator (htail ▸ hmem)
      rw [nil_append, hblank, hafter]
      simp
    | cons next tail =>
      have hpart := hbody next (by rw [← htail]; simp)
      simp [hpart]

theorem spaced_leaf {before : Option Char} {token more : Text} (htoken : Token token) (hmore : Separates more)
    (hnot : ∀ operator ∈ operators, token ≠ operator ∧ token ≠ operator ++ ['+'])
    (hrest : ∀ last, operatorsSpaced last more = true) : operatorsSpaced before (token ++ more) = true := by
  have hne : ∀ {body : Text}, (∃ ch ∈ body.head?, isAlnum ch = true) → body ≠ [] := by
    rintro body ⟨ch, hch, -⟩ rfl
    cases hch
  cases htoken with
  | word hhead hbody =>
    exact spaced_body (hne hhead) hbody hmore.ends (fun hmem => absurd rfl (hnot _ hmem).1) hrest
  | plus hhead hbody _ =>
    rw [append_assoc]
    refine spaced_body (hne hhead) hbody (by intro ch hch; cases hch; rfl) (fun hmem => absurd rfl (hnot _ hmem).2) ?_
    exact fun last => operatorsSpaced_head (by decide) (hrest _)
  | @document name reference _ hparts _ hparts' =>
    have hfirst : ∀ ch ∈ documentRef ++ name, isPart ch = true := by
      intro ch hch
      rcases mem_append.mp hch with hch | hch
      · exact documentRef_parts ch hch
      · exact hparts ch hch
    have hsecond : ∀ ch ∈ licenseRef ++ reference, isPart ch = true := by
      intro ch hch
      rcases mem_append.mp hch with hch | hch
      · exact licenseRef_parts ch hch
      · exact hparts' ch hch
    have hword : ∀ {word name : Text}, (∀ operator ∈ operators, ¬ word <+: operator) → word ++ name ∉ operators :=
      fun hprefix hmem => hprefix _ hmem (prefix_append _ _)
    have hdocument : documentRef ++ name ∉ operators := hword (by decide)
    have hlicense : licenseRef ++ reference ∉ operators := hword (by decide)
    have hhead : ∃ ch ∈ documentRef.head?, isAlnum ch = true := ⟨'D', by decide, by decide⟩
    have hhead' : ∃ ch ∈ licenseRef.head?, isAlnum ch = true := ⟨'L', by decide, by decide⟩
    rw [append_assoc]
    refine spaced_body (hne (head_alnum_of_append hhead)) hfirst (by intro ch hch; cases hch; rfl)
      (fun hmem => absurd hmem hdocument) ?_
    intro last
    refine operatorsSpaced_head (by decide) ?_
    exact spaced_body (hne (head_alnum_of_append hhead')) hsecond hmore.ends (fun hmem => absurd hmem hlicense) hrest
  | sign hsign =>
    rcases hsign with rfl | rfl
    · exact operatorsSpaced_head (by decide) (hrest _)
    · exact operatorsSpaced_head (by decide) (hrest _)

theorem spaced_operator {before : Option Char} {operator more : Text} (hoperator : operator ∈ operators)
    (h : ∀ last, operatorsSpaced last more = true) : operatorsSpaced before (' ' :: (operator ++ ' ' :: more)) = true := by
  refine operatorsSpaced_head (by decide) ?_
  have hne : operator ≠ [] := by
    rintro rfl
    exact absurd hoperator (by decide)
  refine spaced_body hne (operators_parts operator hoperator) (separates_blank more).ends (fun _ => ⟨by decide, rfl⟩) ?_
  exact fun last => operatorsSpaced_head (by decide) (h _)

theorem Separates.close (more : Text) : Separates (')' :: more) := by
  intro ch hch
  cases hch
  exact Or.inr (Or.inr rfl)

def SpacedBack (parent : Nat) (tree : Expr) : Prop :=
  ∀ before more, Separates more → (∀ last, operatorsSpaced last more = true) →
    operatorsSpaced before (render parent tree ++ more) = true

theorem spaced_intercalate {operator : Text} (hoperator : operator ∈ operators) {parent : Nat} {children : List Expr}
    (hchildren : ∀ child ∈ children, SpacedBack parent child) {before : Option Char} {more : Text} (hmore : Separates more)
    (h : ∀ last, operatorsSpaced last more = true) :
    operatorsSpaced before ((' ' :: operator ++ [' ']).intercalate (children.map (render parent)) ++ more) = true := by
  induction children generalizing before with
  | nil => exact h before
  | cons child children ih =>
    have hrest := fun before => @ih (fun other hother => hchildren other (mem_cons_of_mem _ hother)) before
    cases children with
    | nil => simpa using hchildren child mem_cons_self before more hmore h
    | cons next children =>
      rw [map_cons, map_cons, intercalate_cons_cons]
      simp only [append_assoc, cons_append, nil_append]
      exact hchildren child mem_cons_self before _ (separates_blank _) fun last => spaced_operator hoperator hrest

theorem spaced_grouped {group : Bool} {text : Text} (htext : ∀ before more, Separates more →
    (∀ last, operatorsSpaced last more = true) → operatorsSpaced before (text ++ more) = true) {before : Option Char}
    {more : Text} (hmore : Separates more) (h : ∀ last, operatorsSpaced last more = true) :
    operatorsSpaced before (grouped group text ++ more) = true := by
  unfold grouped
  cases group with
  | false => exact htext before more hmore h
  | true =>
    simp only [if_true, append_assoc, cons_append, nil_append]
    refine operatorsSpaced_head (by decide) (htext _ _ (Separates.close more) ?_)
    exact fun last => operatorsSpaced_head (by decide) (h _)

theorem id_not_operator : ∀ id ∈ licenseIds ++ exceptionIds, ∀ operator ∈ operators, id ≠ operator ∧ id ≠ operator ++ ['+'] := by
  decide +kernel

theorem leaf_not_operator {value : Text} (h : Expr.LeafFormed value) : ∀ operator ∈ operators, value ≠ operator ∧ value ≠ operator ++ ['+'] := by
  have hnot : ∀ operator ∈ operators, ¬ Expr.LeafFormed operator ∧ ¬ Expr.LeafFormed (operator ++ ['+']) := by
    unfold Expr.LeafFormed
    decide +kernel
  intro operator hoperator
  obtain ⟨hplain, hplus⟩ := hnot operator hoperator
  exact ⟨fun heq => hplain (heq ▸ h), fun heq => hplus (heq ▸ h)⟩

theorem spacedBack (tree : Expr) (h : Normal tree) : ∀ parent ≤ 2, SpacedBack parent tree := by
  induction tree using Expr.induct with
  | license value =>
    intro parent _ before more hmore hrest
    rw [render]
    exact spaced_leaf h.1.1 hmore (leaf_not_operator (Or.inl h.1.2)) hrest
  | ref value =>
    intro parent _ before more hmore hrest
    rw [render]
    exact spaced_leaf h.1.1 hmore (leaf_not_operator (Or.inr h.1.2)) hrest
  | withException value exceptionId =>
    intro parent hparent before more hmore hrest
    have hid := mem_append_left exceptionIds h.1.1
    have hexception := mem_append_right licenseIds h.1.2
    have htext : render parent (.withException value exceptionId) ++ more =
        value ++ ' ' :: ("WITH".toList ++ ' ' :: (exceptionId ++ more)) := by
      rw [render]
      simp [grouped, show ¬ 3 < parent by omega]
    rw [htext]
    refine spaced_leaf (token_id value hid) (separates_blank _) (id_not_operator value hid) fun last => ?_
    refine spaced_operator (by simp [operators]) fun last => ?_
    exact spaced_leaf (token_id exceptionId hexception) hmore (id_not_operator exceptionId hexception) hrest
  | and children ih =>
    intro parent _ before more hmore hrest
    obtain ⟨-, hoperands⟩ := normal_and.mp h
    rw [render, renderAnd_operands hoperands]
    refine spaced_grouped (fun before more hmore hrest => ?_) hmore hrest
    have hand : "AND".toList ∈ operators := by simp [operators]
    exact spaced_intercalate hand (fun child hchild => ih child hchild (hoperands child hchild).2 2 le_rfl) hmore hrest
  | or children ih =>
    intro parent _ before more hmore hrest
    obtain ⟨-, hoperands⟩ := normal_or.mp h
    rw [render, renderOr_operands hoperands]
    refine spaced_grouped (fun before more hmore hrest => ?_) hmore hrest
    have hor : "OR".toList ∈ operators := by simp [operators]
    exact spaced_intercalate hor (fun child hchild => ih child hchild (hoperands child hchild).2 1 (by omega)) hmore hrest

end Leitir.License
