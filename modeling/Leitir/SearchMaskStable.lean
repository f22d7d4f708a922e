import Leitir.SearchMasking
import Mathlib.Data.List.Chain

namespace Leitir.Search

open List

def Quote (ch : Nat) : Prop := ch = 39 ∨ ch = 34 ∨ ch = 96

def Opener (ch next : Nat) : Prop := ch = 47 ∧ (next = 47 ∨ next = 42)

def MaskState.Valid : MaskState → Prop
  | .string quote => Quote quote
  | _ => True

def Masked (ch shown : Nat) : Prop := (shown = ch ∧ ¬ Quote ch) ∨ (shown = 32 ∧ ch ≠ 10)

def MaskMove.Keeps (ch : Nat) (following : Option Nat) : MaskMove → Prop
  | .one shown state => Masked ch shown ∧ state.Valid ∧ (shown = 47 → following ≠ some 47 ∧ following ≠ some 42)
  | .two first second state => (first = 32 ∧ ch ≠ 10) ∧ state.Valid ∧ second ≠ 47 ∧ ∀ next ∈ following, Masked next second

theorem blank_masked (ch : Nat) : Masked ch (blank ch) ∧ blank ch ≠ 47 := by
  unfold blank
  split
  next h =>
    subst h
    exact ⟨Or.inl ⟨rfl, by unfold Quote; omega⟩, by omega⟩
  next h => exact ⟨Or.inr ⟨rfl, h⟩, by omega⟩

/-- What one move of the loop writes, and to which state it goes. -/
theorem maskMove_keeps {state : MaskState} (hstate : state.Valid) (ch : Nat) (following : Option Nat) :
    (maskMove state ch following).Keeps ch following := by
  have hblank : ∀ {next : MaskState}, next.Valid → (MaskMove.one (blank ch) next).Keeps ch following := fun hnext =>
    ⟨(blank_masked ch).1, hnext, fun h => absurd h (blank_masked ch).2⟩
  have hspace : ∀ {next : MaskState}, next.Valid → ch ≠ 10 → (MaskMove.one 32 next).Keeps ch following := fun hnext hch =>
    ⟨Or.inr ⟨rfl, hch⟩, hnext, fun h => by omega⟩
  cases state with
  | code =>
    simp only [maskMove]
    split
    next h =>
      refine ⟨⟨rfl, by omega⟩, trivial, by omega, fun next hnext => ?_⟩
      rw [h.2] at hnext
      cases hnext
      exact Or.inr ⟨rfl, by omega⟩
    next hline =>
      split
      next h =>
        refine ⟨⟨rfl, by omega⟩, trivial, by omega, fun next hnext => ?_⟩
        rw [h.2] at hnext
        cases hnext
        exact Or.inr ⟨rfl, by omega⟩
      next hblock =>
        split
        next h => exact hspace h (by omega)
        next h => exact ⟨Or.inl ⟨rfl, h⟩, trivial, fun hch => ⟨fun hf => hline ⟨hch, hf⟩, fun hf => hblock ⟨hch, hf⟩⟩⟩
  | lineComment =>
    simp only [maskMove]
    split
    next h => exact ⟨Or.inl ⟨rfl, by unfold Quote; omega⟩, trivial, fun hch => by omega⟩
    next h => exact hspace trivial h
  | blockComment =>
    simp only [maskMove]
    split
    next h =>
      refine ⟨⟨rfl, by omega⟩, trivial, by omega, fun next hnext => ?_⟩
      rw [h.2] at hnext
      cases hnext
      exact Or.inr ⟨rfl, by omega⟩
    next => exact hblank trivial
  | string quote =>
    simp only [maskMove]
    split
    next h =>
      split
      next => exact hspace hstate (by omega)
      next next =>
        refine ⟨⟨rfl, by omega⟩, hstate, (blank_masked next).2, fun other hother => ?_⟩
        cases hother
        exact (blank_masked next).1
    next =>
      split
      next h =>
        subst h
        refine hspace trivial ?_
        unfold MaskState.Valid Quote at hstate
        omega
      next => exact hblank hstate

/-- A text with no quote and no opener, as masking leaves it. -/
def Clean (text : Text) : Prop := (∀ ch ∈ text, ¬ Quote ch) ∧ text.IsChain fun ch next => ¬ Opener ch next

theorem maskLoop_masked {state : MaskState} (hstate : state.Valid) (content : Text) :
    List.Forall₂ Masked content (maskLoop state content) ∧
      (maskLoop state content).IsChain fun ch next => ¬ Opener ch next := by
  fun_induction maskLoop state content with
  | case1 => exact ⟨.nil, .nil⟩
  | case2 state ch shown next hmove =>
    have h := maskMove_keeps hstate ch none
    rw [hmove] at h
    exact ⟨.cons h.1 .nil, .singleton _⟩
  | case3 state ch first second next hmove =>
    have h := maskMove_keeps hstate ch none
    rw [hmove] at h
    exact ⟨.cons (Or.inr h.1) .nil, .singleton _⟩
  | case4 state ch next rest shown state' hmove ih =>
    have h := maskMove_keeps hstate ch (some next)
    rw [hmove] at h
    obtain ⟨hshown, hvalid, hopener⟩ := h
    obtain ⟨hall, hchain⟩ := ih hvalid
    refine ⟨.cons hshown hall, ?_⟩
    obtain ⟨first, others, hfirst, -, hrest⟩ := forall₂_cons_left_iff.mp hall
    rw [hrest] at hchain ⊢
    -- what follows a slash in code is shown as it is, or as a space
    refine .cons_cons (fun hopen => ?_) hchain
    obtain ⟨hslash, hnext⟩ := hopen
    obtain ⟨hnot, hnot'⟩ := hopener hslash
    rw [ne_eq, Option.some.injEq] at hnot hnot'
    unfold Masked at hfirst
    omega
  | case5 state ch next rest first second state' hmove ih =>
    have h := maskMove_keeps hstate ch (some next)
    rw [hmove] at h
    obtain ⟨hfirst, hvalid, hsecond, hnext⟩ := h
    obtain ⟨hall, hchain⟩ := ih hvalid
    refine ⟨.cons (Or.inr hfirst) (.cons (hnext next rfl) hall), ?_⟩
    refine .cons_cons (fun hopen => ?_) ?_
    · unfold Opener at hopen
      omega
    · cases hrest : maskLoop state' rest with
      | nil => exact .singleton _
      | cons other others =>
        rw [hrest] at hchain
        exact .cons_cons (fun hopen => hsecond hopen.1) hchain

theorem maskLoop_clean {text : Text} (h : Clean text) : maskLoop .code text = text := by
  induction text with
  | nil => rfl
  | cons ch rest ih =>
    have hquote : ¬ (ch = 39 ∨ ch = 34 ∨ ch = 96) := h.1 ch mem_cons_self
    cases rest with
    | nil =>
      unfold maskLoop maskMove
      simp [hquote]
    | cons next rest =>
      obtain ⟨hopen, hchain⟩ := isChain_cons_cons.mp h.2
      have hrest := ih ⟨fun other hother => h.1 other (mem_cons_of_mem _ hother), hchain⟩
      unfold Opener at hopen
      have hline : ¬ (ch = 47 ∧ some next = some 47) := by
        rw [Option.some.injEq]
        omega
      have hblock : ¬ (ch = 47 ∧ some next = some 42) := by
        rw [Option.some.injEq]
        omega
      have hmove : maskMove .code ch (some next) = .one ch .code := by
        simp only [maskMove]
        rw [if_neg hline, if_neg hblock, if_neg hquote]
      rw [maskLoop, hmove]
      exact congrArg (ch :: ·) hrest

theorem masked_getElem {content shown : Text} (h : List.Forall₂ Masked content shown) (i : Nat) :
    (shown[i]? = some 10 ↔ content[i]? = some 10) ∧ (∀ ch, shown[i]? = some ch → content[i]? = some ch ∨ ch = 32) ∧
      ∀ ch, shown[i]? = some ch → ¬ Quote ch := by
  induction h generalizing i with
  | nil => simp
  | cons hhead _ ih =>
    cases i with
    | zero =>
      simp only [getElem?_cons_zero, Option.some.injEq]
      unfold Masked Quote at *
      exact ⟨by omega, fun ch hch => by omega, fun ch hch => by omega⟩
    | succ i =>
      simp only [getElem?_cons_succ]
      exact ih i

theorem no_opener_infix {text : Text} (h : text.IsChain fun ch next => ¬ Opener ch next) {next : Nat}
    (hnext : next = 47 ∨ next = 42) : ¬ [47, next] <:+: text := by
  intro hin
  exact (isChain_cons_cons.mp ( IsChain.infix h hin)).1 ⟨rfl, hnext⟩

/-- Masking keeps the length and the newlines, writes spaces only, leaves no quote and no opener of a comment, and changes
nothing the second time. -/
theorem mask_stable (content : Text) :
    (maskCommentsAndStrings content).length = content.length ∧
    (∀ i : Nat, (maskCommentsAndStrings content)[i]? = some 10 ↔ content[i]? = some 10) ∧
    (∀ (i : Nat) (ch : Nat), (maskCommentsAndStrings content)[i]? = some ch → content[i]? = some ch ∨ ch = 32) ∧
    (∀ ch ∈ maskCommentsAndStrings content, ¬ Quote ch) ∧
    ¬ [47, 47] <:+: maskCommentsAndStrings content ∧ ¬ [47, 42] <:+: maskCommentsAndStrings content ∧
    maskCommentsAndStrings (maskCommentsAndStrings content) = maskCommentsAndStrings content := by
  obtain ⟨hall, hchain⟩ := @maskLoop_masked .code trivial content
  have hquotes : ∀ ch ∈ maskCommentsAndStrings content, ¬ Quote ch := by
    intro ch hch
    obtain ⟨i, hi⟩ := mem_iff_getElem?.mp hch
    exact (masked_getElem hall i).2.2 ch hi
  exact ⟨hall.length_eq.symm, fun i => (masked_getElem hall i).1, fun i => (masked_getElem hall i).2.1, hquotes,
    no_opener_infix hchain (Or.inl rfl), no_opener_infix hchain (Or.inr rfl), maskLoop_clean ⟨hquotes, hchain⟩⟩

end Leitir.Search
