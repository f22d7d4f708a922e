import Leitir.UsagePaths

namespace Leitir.Usage

open List

abbrev Given := {binding : Binding // binding ≠ .ambiguous}

/-- What binds names in a scope: single bindings in order, and branches that start from the same bindings. -/
inductive Flow
  | bind (name : Text) (given : Given)
  | branches (thunks : List (List Flow))

mutual

def runFlow (bindings : Bindings) : Flow → Bindings
  | .bind name given => bind bindings name given.val
  | .branches thunks => mergeBranches bindings (runThunks bindings thunks)

def run (bindings : Bindings) : List Flow → Bindings
  | [] => bindings
  | flow :: rest => run (runFlow bindings flow) rest

def runThunks (bindings : Bindings) : List (List Flow) → List Bindings
  | [] => []
  | thunk :: rest => run bindings thunk :: runThunks bindings rest

end

def Flow.ifElse (body orelse : List Flow) : Flow := .branches [body, orelse]

def handlerThunk (name : Option Text) (body : List Flow) : List Flow :=
  (name.elim [] fun name => if name = [] then [] else [.bind name ⟨.shadow, Binding.noConfusion⟩]) ++ body

def tryFlow (body : List Flow) (handlers : List (List Flow)) (orelse finalbody : List Flow) : List Flow :=
  .branches (body :: handlers) :: (orelse ++ finalbody)

mutual

/-- What a name is given in a flow, in all its branches. -/
def Flow.given (name : Text) : Flow → List Binding
  | .bind other given => if other = name then [given.val] else []
  | .branches thunks => givenThunks name thunks

def given (name : Text) : List Flow → List Binding
  | [] => []
  | flow :: rest => flow.given name ++ given name rest

def givenThunks (name : Text) : List (List Flow) → List Binding
  | [] => []
  | thunk :: rest => given name thunk ++ givenThunks name rest

end

mutual

def Flow.splits : Flow → List (List (List Flow))
  | .bind _ _ => []
  | .branches thunks => thunks :: splitsThunks thunks

def splits : List Flow → List (List (List Flow))
  | [] => []
  | flow :: rest => flow.splits ++ splits rest

def splitsThunks : List (List Flow) → List (List (List Flow))
  | [] => []
  | thunk :: rest => splits thunk ++ splitsThunks rest

end

def isImported : Binding → Bool
  | .imported _ => true
  | _ => false

/-- An import in one branch and something else in another. -/
def Mixed (name : Text) (thunks : List (List Flow)) : Prop :=
  ∃ (i j : Nat) (a b : List Flow), i ≠ j ∧ thunks[i]? = some a ∧ thunks[j]? = some b ∧ (∃ x ∈ given name a, isImported x = true) ∧
    ∃ y ∈ given name b, isImported y = false

/-- Imports of two distributions, or an import and something else in different branches. -/
def Disagrees (name : Text) (flow : List Flow) : Prop :=
  (∃ d e, d ≠ e ∧ Binding.imported d ∈ given name flow ∧ Binding.imported e ∈ given name flow) ∨
    ∃ thunks ∈ splits flow, Mixed name thunks

/-- Branches that leave a name forwarded and shadowed leave it imported or ambiguous in another. -/
def Settled (values : List Binding) : Prop :=
  .reexport ∈ values → .shadow ∈ values → ∃ value ∈ values, isImported value = true ∨ value = .ambiguous

mutual

/-- The steps that keep the meaning of ambiguity: no import of the distribution that the name is bound to, and no merge
of forwarded and shadowed names alone. -/
def Flow.Clean (bindings : Bindings) : Flow → Prop
  | .bind name given => isImported given.val = true → bindings name ≠ some given.val
  | .branches thunks => CleanThunks bindings thunks ∧
      ∀ name, Settled (changedValues bindings (runThunks bindings thunks) name)

def Clean (bindings : Bindings) : List Flow → Prop
  | [] => True
  | flow :: rest => flow.Clean bindings ∧ Clean (runFlow bindings flow) rest

def CleanThunks (bindings : Bindings) : List (List Flow) → Prop
  | [] => True
  | thunk :: rest => Clean bindings thunk ∧ CleanThunks bindings rest

end

section

variable {bindings base : Bindings} {name : Text}

theorem mergeBranches_cases (base : Bindings) (results : List Bindings) (name : Text) :
    (changedValues base results name = [] ∧ mergeBranches base results name = base name) ∨
      (∃ value ∈ changedValues base results name, (∀ other ∈ changedValues base results name, other = value) ∧
        mergeBranches base results name = some value) ∨
      ∃ value ∈ changedValues base results name, ∃ other ∈ changedValues base results name, value ≠ other ∧
        mergeBranches base results name = some .ambiguous := by
  unfold mergeBranches
  split
  next hnone => exact .inl ⟨hnone, rfl⟩
  next value others hchanged =>
    rw [hchanged]
    split
    next hagree =>
      refine .inr (.inl ⟨value, mem_cons_self, ?_, rfl⟩)
      exact forall_mem_cons.mpr ⟨rfl, hagree⟩
    next hdiffer =>
      push Not at hdiffer
      obtain ⟨other, hother, hne⟩ := hdiffer
      exact .inr (.inr ⟨value, mem_cons_self, other, mem_cons_of_mem _ hother, hne.symm, rfl⟩)

theorem runThunks_eq (bindings : Bindings) (thunks : List (List Flow)) : runThunks bindings thunks = thunks.map (run bindings) := by
  induction thunks with
  | nil => rfl
  | cons thunk rest ih =>
    unfold runThunks
    rw [ih]
    rfl

theorem mem_givenThunks {thunks : List (List Flow)} {value : Binding} :
    value ∈ givenThunks name thunks ↔ ∃ thunk ∈ thunks, value ∈ given name thunk := by
  induction thunks with
  | nil =>
    unfold givenThunks
    simp
  | cons thunk rest ih =>
    unfold givenThunks
    rw [mem_append, exists_mem_cons_iff, ih]

theorem mem_splitsThunks {thunks split : List (List Flow)} :
    split ∈ splitsThunks thunks ↔ ∃ thunk ∈ thunks, split ∈ splits thunk := by
  induction thunks with
  | nil =>
    unfold splitsThunks
    simp
  | cons thunk rest ih =>
    unfold splitsThunks
    rw [mem_append, exists_mem_cons_iff, ih]

theorem given_append (name : Text) (xs ys : List Flow) : given name (xs ++ ys) = given name xs ++ given name ys := by
  induction xs with
  | nil => rfl
  | cons flow rest ih =>
    rw [cons_append, given, given, ih, append_assoc]

theorem splits_append (xs ys : List Flow) : splits (xs ++ ys) = splits xs ++ splits ys := by
  induction xs with
  | nil => rfl
  | cons flow rest ih =>
    rw [cons_append, splits, splits, ih, append_assoc]

/-- What may have left a value among the bindings that were given. -/
def Comes (value : Binding) (givens : List Binding) : Prop :=
  match value with
  | .imported distribution => .imported distribution ∈ givens
  | .ambiguous => True
  | _ => ∃ other ∈ givens, isImported other = false

theorem Comes.mono {value : Binding} {xs ys : List Binding} (h : Comes value xs) (hsub : ∀ x ∈ xs, x ∈ ys) : Comes value ys := by
  cases value with
  | imported distribution => exact hsub _ h
  | ambiguous => trivial
  | reexport =>
    obtain ⟨other, hother, hkind⟩ := h
    exact ⟨other, hsub other hother, hkind⟩
  | shadow =>
    obtain ⟨other, hother, hkind⟩ := h
    exact ⟨other, hsub other hother, hkind⟩

theorem comes_merge (existing : Option Binding) (given : Given) : Comes (mergeBinding existing given.val) [given.val] := by
  obtain ⟨value, hvalue⟩ := given
  unfold mergeBinding
  split
  next => trivial
  next hshadow => exact ⟨.shadow, mem_singleton.mpr hshadow.symm, rfl⟩
  next =>
    cases value with
    | imported distribution => exact mem_cons_self
    | ambiguous => exact absurd rfl hvalue
    | reexport => exact ⟨.reexport, mem_cons_self, rfl⟩
    | shadow => exact ⟨.shadow, mem_cons_self, rfl⟩

def Originates (before after : Bindings) (name : Text) (givens : List Binding) : Prop :=
  after name = before name ∨ ∃ value, after name = some value ∧ Comes value givens

mutual

theorem runFlow_origin (bindings : Bindings) (name : Text) (flow : Flow) :
    Originates bindings (runFlow bindings flow) name (flow.given name) := by
  cases flow with
  | bind other given =>
    unfold runFlow Flow.given Usage.bind Originates
    by_cases hname : name = other
    · subst hname
      rw [Function.update_self, if_pos rfl]
      exact .inr ⟨_, rfl, comes_merge _ given⟩
    · rw [Function.update_of_ne hname]
      exact .inl rfl
  | branches thunks =>
    unfold runFlow Flow.given
    have hthunks := runThunks_origin bindings name thunks
    rcases mergeBranches_cases bindings (runThunks bindings thunks) name with ⟨-, hmerge⟩ | ⟨value, hvalue, -, hmerge⟩ |
      ⟨-, -, -, -, -, hmerge⟩
    · exact .inl hmerge
    · obtain ⟨⟨result, hresult, hvalue⟩, hchanged⟩ := mem_changedValues.mp hvalue
      rcases hthunks result hresult with hsame | ⟨other, hother, hcomes⟩
      · rw [hsame] at hvalue
        exact absurd hvalue.symm hchanged
      · rw [hvalue] at hother
        cases hother
        exact .inr ⟨value, hmerge, hcomes⟩
    · exact .inr ⟨.ambiguous, hmerge, trivial⟩

theorem run_origin (bindings : Bindings) (name : Text) (flows : List Flow) :
    Originates bindings (run bindings flows) name (given name flows) := by
  cases flows with
  | nil => exact .inl rfl
  | cons flow rest =>
    unfold run given
    rcases run_origin (runFlow bindings flow) name rest with hsame | ⟨value, hvalue, hcomes⟩
    · rcases runFlow_origin bindings name flow with hfirst | ⟨value, hvalue, hcomes⟩
      · exact .inl (hsame.trans hfirst)
      · exact .inr ⟨value, hsame.trans hvalue, hcomes.mono fun x hx => mem_append_left _ hx⟩
    · exact .inr ⟨value, hvalue, hcomes.mono fun x hx => mem_append_right _ hx⟩

theorem runThunks_origin (bindings : Bindings) (name : Text) (thunks : List (List Flow)) :
    ∀ result ∈ runThunks bindings thunks, Originates bindings result name (givenThunks name thunks) := by
  cases thunks with
  | nil =>
    unfold runThunks
    exact fun result hresult => absurd hresult not_mem_nil
  | cons thunk rest =>
    unfold runThunks givenThunks
    intro result hresult
    rcases mem_cons.mp hresult with rfl | hresult
    · rcases run_origin bindings name thunk with hsame | ⟨value, hvalue, hcomes⟩
      · exact .inl hsame
      · exact .inr ⟨value, hvalue, hcomes.mono fun x hx => mem_append_left _ hx⟩
    · rcases runThunks_origin bindings name rest result hresult with hsame | ⟨value, hvalue, hcomes⟩
      · exact .inl hsame
      · exact .inr ⟨value, hvalue, hcomes.mono fun x hx => mem_append_right _ hx⟩

end

end

section

variable {bindings : Bindings} {name : Text} {history : List Flow}

theorem Disagrees.mono {xs ys : List Flow} (h : Disagrees name xs) (hgiven : ∀ x ∈ given name xs, x ∈ given name ys)
    (hsplits : ∀ split ∈ splits xs, split ∈ splits ys) : Disagrees name ys := by
  rcases h with ⟨d, e, hne, hd, he⟩ | ⟨thunks, hthunks, hmixed⟩
  · exact .inl ⟨d, e, hne, hgiven _ hd, hgiven _ he⟩
  · exact .inr ⟨thunks, hsplits _ hthunks, hmixed⟩

theorem Disagrees.append {xs : List Flow} (h : Disagrees name xs) (ys : List Flow) : Disagrees name (xs ++ ys) := by
  refine h.mono ?_ ?_
  · intro x hx
    rw [given_append]
    exact mem_append_left _ hx
  · intro split hsplit
    rw [splits_append]
    exact mem_append_left _ hsplit

/-- What the bindings of a name say about the flow that led to them. -/
structure History (bindings : Bindings) (name : Text) (history : List Flow) : Prop where
  ambiguous : bindings name = some .ambiguous → Disagrees name history
  imported : ∀ distribution, bindings name = some (.imported distribution) → .imported distribution ∈ given name history

theorem History.imported_run (h : History bindings name history) (flows : List Flow) (distribution : Text)
    (hrun : run bindings flows name = some (.imported distribution)) :
    .imported distribution ∈ given name (history ++ flows) := by
  rw [given_append]
  rcases run_origin bindings name flows with hsame | ⟨value, hvalue, hcomes⟩
  · rw [hsame] at hrun
    exact mem_append_left _ (h.imported distribution hrun)
  · rw [hvalue] at hrun
    cases hrun
    exact mem_append_right _ hcomes

variable {thunks : List (List Flow)} {value : Binding}

theorem changed_thunk
    (h : value ∈ changedValues bindings (runThunks bindings thunks) name) :
    ∃ (i : Nat) (thunk : List Flow), thunks[i]? = some thunk ∧ run bindings thunk name = some value ∧
      Comes value (given name thunk) := by
  obtain ⟨⟨result, hresult, hvalue⟩, hchanged⟩ := mem_changedValues.mp h
  rw [runThunks_eq] at hresult
  obtain ⟨thunk, hthunk, rfl⟩ := mem_map.mp hresult
  obtain ⟨i, hi⟩ := mem_iff_getElem?.mp hthunk
  refine ⟨i, thunk, hi, hvalue, ?_⟩
  rcases run_origin bindings name thunk with hsame | ⟨other, hother, hcomes⟩
  · rw [hsame] at hvalue
    exact absurd hvalue.symm hchanged
  · rw [hvalue] at hother
    cases hother
    exact hcomes

theorem mixed_of_changed {distribution : Text}
    (himport : .imported distribution ∈ changedValues bindings (runThunks bindings thunks) name)
    (hvalue : value ∈ changedValues bindings (runThunks bindings thunks) name)
    (hkind : value = .reexport ∨ value = .shadow) : Mixed name thunks := by
  obtain ⟨i, a, hi, ha, hfrom⟩ := changed_thunk himport
  obtain ⟨j, b, hj, hb, hcomes⟩ := changed_thunk hvalue
  have hne : i ≠ j := by
    rintro rfl
    rw [hi] at hj
    cases hj
    rw [ha] at hb
    cases hb
    rcases hkind with h | h <;> cases h
  refine ⟨i, j, a, b, hne, hi, hj, ⟨_, hfrom, rfl⟩, ?_⟩
  rcases hkind with rfl | rfl
  · exact hcomes
  · exact hcomes

theorem mem_given_branches {thunk : List Flow} (hthunk : thunk ∈ thunks) {x : Binding}
    (hx : x ∈ given name (history ++ thunk)) : x ∈ given name (history ++ [.branches thunks]) := by
  rw [given_append, mem_append] at hx ⊢
  refine hx.imp_right fun hx => ?_
  rw [given, given, append_nil, Flow.given]
  exact mem_givenThunks.mpr ⟨thunk, hthunk, hx⟩

theorem mem_splits_branches {split : List (List Flow)} {thunk : List Flow} (hthunk : thunk ∈ thunks)
    (hx : split ∈ splits (history ++ thunk)) : split ∈ splits (history ++ [.branches thunks]) := by
  rw [splits_append, mem_append] at hx ⊢
  refine hx.imp_right fun hx => ?_
  rw [splits, splits, append_nil, Flow.splits]
  exact mem_cons_of_mem _ (mem_splitsThunks.mpr ⟨thunk, hthunk, hx⟩)

theorem disagrees_of_ambiguous
    (hthunks : ∀ thunk ∈ thunks, History (run bindings thunk) name (history ++ thunk))
    (h : .ambiguous ∈ changedValues bindings (runThunks bindings thunks) name) :
    Disagrees name (history ++ [.branches thunks]) := by
  obtain ⟨i, thunk, hi, hrun, -⟩ := changed_thunk h
  have hmem := mem_of_getElem? hi
  exact ((hthunks thunk hmem).ambiguous hrun).mono (fun _ hx => mem_given_branches hmem hx)
    fun _ hx => mem_splits_branches hmem hx

/-- A merge of branches that end in different values shows a disagreement. -/
theorem disagrees_of_changed
    (hthunks : ∀ thunk ∈ thunks, History (run bindings thunk) name (history ++ thunk))
    (hsettled : Settled (changedValues bindings (runThunks bindings thunks) name)) {other : Binding}
    (hvalue : value ∈ changedValues bindings (runThunks bindings thunks) name)
    (hother : other ∈ changedValues bindings (runThunks bindings thunks) name) (hne : value ≠ other) :
    Disagrees name (history ++ [.branches thunks]) := by
  have hsplit : thunks ∈ splits (history ++ [.branches thunks]) := by
    rw [splits_append]
    simp [splits, Flow.splits]
  have himported : ∀ distribution, .imported distribution ∈ changedValues bindings (runThunks bindings thunks) name →
      .imported distribution ∈ given name (history ++ [.branches thunks]) := by
    intro distribution h
    obtain ⟨i, thunk, hi, hrun, -⟩ := changed_thunk h
    have hmem := mem_of_getElem? hi
    exact mem_given_branches hmem ((hthunks thunk hmem).imported distribution hrun)
  have hmixed : ∀ distribution x, .imported distribution ∈ changedValues bindings (runThunks bindings thunks) name →
      x ∈ changedValues bindings (runThunks bindings thunks) name → x = .reexport ∨ x = .shadow →
      Disagrees name (history ++ [.branches thunks]) :=
    fun distribution x himport hx hkind => .inr ⟨thunks, hsplit, mixed_of_changed himport hx hkind⟩
  -- Neither value is imported or ambiguous: one is forwarded, the other shadowed, and a third one settles it.
  have hplain : .reexport ∈ changedValues bindings (runThunks bindings thunks) name →
      .shadow ∈ changedValues bindings (runThunks bindings thunks) name → Disagrees name (history ++ [.branches thunks]) := by
    intro hreexport hshadow
    obtain ⟨third, hthird, himport | rfl⟩ := hsettled hreexport hshadow
    · cases third with
      | imported distribution => exact hmixed distribution _ hthird hshadow (.inr rfl)
      | ambiguous => cases himport
      | reexport => cases himport
      | shadow => cases himport
    · exact disagrees_of_ambiguous hthunks hthird
  cases value with
  | ambiguous => exact disagrees_of_ambiguous hthunks hvalue
  | imported distribution =>
    cases other with
    | ambiguous => exact disagrees_of_ambiguous hthunks hother
    | imported another =>
      refine .inl ⟨distribution, another, fun heq => hne (by rw [heq]), himported _ hvalue, himported _ hother⟩
    | reexport => exact hmixed distribution _ hvalue hother (.inl rfl)
    | shadow => exact hmixed distribution _ hvalue hother (.inr rfl)
  | reexport =>
    cases other with
    | ambiguous => exact disagrees_of_ambiguous hthunks hother
    | imported another => exact hmixed another _ hother hvalue (.inl rfl)
    | reexport => exact absurd rfl hne
    | shadow => exact hplain hvalue hother
  | shadow =>
    cases other with
    | ambiguous => exact disagrees_of_ambiguous hthunks hother
    | imported another => exact hmixed another _ hother hvalue (.inr rfl)
    | reexport => exact hplain hother hvalue
    | shadow => exact absurd rfl hne

theorem bind_history {other : Text} {given : Given} (h : History bindings name history)
    (hclean : (Flow.bind other given).Clean bindings) :
    bind bindings other given.val name = some .ambiguous → Disagrees name (history ++ [.bind other given]) := by
  unfold Usage.bind
  by_cases hname : name = other
  · subst hname
    rw [Function.update_self]
    intro hmerge
    unfold mergeBinding at hmerge
    split at hmerge
    next d e hbound hgiven =>
      refine .inl ⟨d, e, ?_, ?_, ?_⟩
      · rintro rfl
        refine hclean ?_ ?_
        · rw [hgiven]
          rfl
        · rw [hgiven]
          exact hbound
      · rw [given_append]
        exact mem_append_left _ (h.imported d hbound)
      · rw [given_append, Usage.given, Flow.given, if_pos rfl, hgiven]
        exact mem_append_right _ mem_cons_self
    next => cases hmerge
    next => exact absurd (Option.some.inj hmerge) given.property
  · rw [Function.update_of_ne hname]
    intro hambiguous
    exact (h.ambiguous hambiguous).append _

mutual

theorem runFlow_history (name : Text) {bindings : Bindings} {history : List Flow} (flow : Flow)
    (h : History bindings name history) (hclean : flow.Clean bindings) :
    History (runFlow bindings flow) name (history ++ [flow]) := by
  refine ⟨?_, h.imported_run [flow]⟩
  cases flow with
  | bind other given => exact bind_history h hclean
  | branches thunks =>
    obtain ⟨hthunks, hsettled⟩ := hclean
    have hbranches := runThunks_history name thunks h hthunks
    unfold runFlow
    intro hambiguous
    rcases mergeBranches_cases bindings (runThunks bindings thunks) name with ⟨-, hmerge⟩ | ⟨value, hvalue, -, hmerge⟩ |
      ⟨value, hvalue, other, hother, hne, -⟩
    · exact (h.ambiguous (hmerge.symm.trans hambiguous)).append _
    · cases Option.some.inj (hmerge.symm.trans hambiguous)
      exact disagrees_of_ambiguous hbranches hvalue
    · exact disagrees_of_changed hbranches (hsettled name) hvalue hother hne

theorem run_history (name : Text) {bindings : Bindings} {history : List Flow} (flows : List Flow)
    (h : History bindings name history) (hclean : Clean bindings flows) :
    History (run bindings flows) name (history ++ flows) := by
  cases flows with
  | nil =>
    rw [append_nil]
    exact h
  | cons flow rest =>
    obtain ⟨hflow, hrest⟩ := hclean
    have hlast := run_history name rest (runFlow_history name flow h hflow) hrest
    rw [append_assoc] at hlast
    exact hlast

theorem runThunks_history (name : Text) {bindings : Bindings} {history : List Flow} (thunks : List (List Flow))
    (h : History bindings name history) (hclean : CleanThunks bindings thunks) :
    ∀ thunk ∈ thunks, History (run bindings thunk) name (history ++ thunk) := by
  cases thunks with
  | nil => exact fun thunk hthunk => absurd hthunk not_mem_nil
  | cons first rest =>
    obtain ⟨hfirst, hrest⟩ := hclean
    have hhead := run_history name first h hfirst
    have htail := runThunks_history name rest h hrest
    exact forall_mem_cons.mpr ⟨hhead, htail⟩

end

end

section

variable {name distribution : Text}

def EndsIn (distribution : Text) (before after : Option Binding) (givens : List Binding) : Prop :=
  after = if givens = [] then before else some (.imported distribution)

theorem EndsIn.bound {before after : Option Binding} {givens : List Binding} (h : EndsIn distribution before after givens)
    (hbefore : before = none ∨ before = some (.imported distribution)) :
    after = none ∨ after = some (.imported distribution) := by
  unfold EndsIn at h
  split at h
  next => rwa [h]
  next => exact .inr h

theorem EndsIn.trans {before between after : Option Binding} {xs ys : List Binding} (h : EndsIn distribution before between xs)
    (h' : EndsIn distribution between after ys) : EndsIn distribution before after (xs ++ ys) := by
  unfold EndsIn at h h' ⊢
  by_cases hy : ys = []
  · rw [if_pos hy] at h'
    rw [h', h, hy, append_nil]
  · rw [if_neg hy] at h'
    rw [h', if_neg (append_ne_nil_of_right_ne_nil _ hy)]

theorem merge_endsIn {bindings : Bindings} {thunks : List (List Flow)}
    (hthunks : ∀ thunk ∈ thunks, EndsIn distribution (bindings name) (run bindings thunk name) (given name thunk)) :
    EndsIn distribution (bindings name) (mergeBranches bindings (runThunks bindings thunks) name) (givenThunks name thunks) := by
  have hchanged : ∀ value ∈ changedValues bindings (runThunks bindings thunks) name,
      value = .imported distribution ∧ givenThunks name thunks ≠ [] := by
    intro value hvalue
    obtain ⟨⟨result, hresult, hsome⟩, hne⟩ := mem_changedValues.mp hvalue
    rw [runThunks_eq] at hresult
    obtain ⟨thunk, hthunk, rfl⟩ := mem_map.mp hresult
    have hends := hthunks thunk hthunk
    unfold EndsIn at hends
    split at hends
    next =>
      rw [hends] at hsome
      exact absurd hsome.symm hne
    next hgiven =>
      rw [hends] at hsome
      obtain ⟨source, hsource⟩ := exists_mem_of_ne_nil _ hgiven
      exact ⟨(Option.some.inj hsome).symm, ne_nil_of_mem (mem_givenThunks.mpr ⟨thunk, hthunk, hsource⟩)⟩
  unfold EndsIn
  rcases mergeBranches_cases bindings (runThunks bindings thunks) name with ⟨hnone, hmerge⟩ | ⟨value, hvalue, -, hmerge⟩ |
    ⟨value, hvalue, other, hother, hne, -⟩
  · rw [hmerge]
    split
    next => rfl
    next hgiven =>
      obtain ⟨source, hsource⟩ := exists_mem_of_ne_nil _ hgiven
      obtain ⟨thunk, hthunk, hsource⟩ := mem_givenThunks.mp hsource
      have hends := hthunks thunk hthunk
      unfold EndsIn at hends
      rw [if_neg (ne_nil_of_mem hsource)] at hends
      by_contra hne
      have hmem : .imported distribution ∈ changedValues bindings (runThunks bindings thunks) name := by
        refine mem_changedValues.mpr ⟨⟨run bindings thunk, ?_, hends⟩, fun heq => hne heq.symm⟩
        rw [runThunks_eq]
        exact mem_map.mpr ⟨thunk, hthunk, rfl⟩
      rw [hnone] at hmem
      cases hmem
  · obtain ⟨rfl, hgiven⟩ := hchanged value hvalue
    rw [hmerge, if_neg hgiven]
  · exact absurd ((hchanged value hvalue).1.trans (hchanged other hother).1.symm) hne

mutual

theorem runFlow_endsIn {bindings : Bindings} (flow : Flow) (hclean : flow.Clean bindings)
    (hgiven : ∀ value ∈ flow.given name, value = .imported distribution)
    (hbound : bindings name = none ∨ bindings name = some (.imported distribution)) :
    EndsIn distribution (bindings name) (runFlow bindings flow name) (flow.given name) := by
  cases flow with
  | bind other given =>
    unfold runFlow Usage.bind
    by_cases hname : name = other
    · subst hname
      rw [Flow.given, if_pos rfl] at hgiven ⊢
      have hvalue := hgiven given.val mem_cons_self
      have hfree : bindings name ≠ some given.val := hclean (by rw [hvalue]; rfl)
      rw [hvalue] at hfree ⊢
      rw [Function.update_self]
      rcases hbound with hnone | hsame
      · rw [hnone]
        rfl
      · exact absurd hsame hfree
    · rw [Function.update_of_ne hname, Flow.given, if_neg (fun heq => hname heq.symm)]
      rfl
  | branches thunks =>
    obtain ⟨hthunks, -⟩ := hclean
    unfold runFlow
    rw [Flow.given] at hgiven ⊢
    exact merge_endsIn (runThunks_endsIn thunks hthunks hgiven hbound)

theorem run_endsIn {bindings : Bindings} (flows : List Flow) (hclean : Clean bindings flows)
    (hgiven : ∀ value ∈ given name flows, value = .imported distribution)
    (hbound : bindings name = none ∨ bindings name = some (.imported distribution)) :
    EndsIn distribution (bindings name) (run bindings flows name) (given name flows) := by
  cases flows with
  | nil => rfl
  | cons flow rest =>
    obtain ⟨hflow, hrest⟩ := hclean
    rw [given] at hgiven ⊢
    have hfirst := runFlow_endsIn flow hflow (fun value hvalue => hgiven value (mem_append_left _ hvalue)) hbound
    have hlast := run_endsIn rest hrest (fun value hvalue => hgiven value (mem_append_right _ hvalue)) (hfirst.bound hbound)
    exact hfirst.trans hlast

theorem runThunks_endsIn {bindings : Bindings} (thunks : List (List Flow)) (hclean : CleanThunks bindings thunks)
    (hgiven : ∀ value ∈ givenThunks name thunks, value = .imported distribution)
    (hbound : bindings name = none ∨ bindings name = some (.imported distribution)) :
    ∀ thunk ∈ thunks, EndsIn distribution (bindings name) (run bindings thunk name) (given name thunk) := by
  cases thunks with
  | nil => exact fun thunk hthunk => absurd hthunk not_mem_nil
  | cons first rest =>
    obtain ⟨hfirst, hrest⟩ := hclean
    rw [givenThunks] at hgiven
    have hhead := run_endsIn first hfirst (fun value hvalue => hgiven value (mem_append_left _ hvalue)) hbound
    have htail := runThunks_endsIn rest hrest (fun value hvalue => hgiven value (mem_append_right _ hvalue)) hbound
    exact forall_mem_cons.mpr ⟨hhead, htail⟩

end

end

section

variable (resolver : Resolver)

theorem importBinding_ne_ambiguous (item : Alias) : importBinding resolver item ≠ .ambiguous := by
  unfold importBinding
  split
  next =>
    split
    next => exact Binding.noConfusion
    next => exact Binding.noConfusion
  next => exact Binding.noConfusion

theorem fromBinding_ne_ambiguous (source : Option Text) (level : Nat) (item : Alias) :
    fromBinding resolver source level item ≠ .ambiguous := by
  unfold fromBinding
  split
  next => exact Binding.noConfusion
  next =>
    dsimp only
    split
    next => exact Binding.noConfusion
    next => exact Binding.noConfusion
    next => exact Binding.noConfusion

def shadowed (name : Text) : Flow := .bind name ⟨.shadow, Binding.noConfusion⟩

mutual

/-- What a statement binds at module level. -/
def flowOf : Stmt → List Flow
  | .importNames names => names.map fun item => .bind (boundImport item) ⟨_, importBinding_ne_ambiguous resolver item⟩
  | .importFrom source level names =>
    if isStar names then []
    else names.map fun item => .bind (boundFrom item) ⟨_, fromBinding_ne_ambiguous resolver source level item⟩
  | .assign targets _ => (namesAll targets).map shadowed
  | .annAssign target _ => target.names.map shadowed
  | .augAssign target _ => target.names.map shadowed
  | .expr _ => []
  | .ifElse _ body orelse => [.ifElse (flowsOf body) (flowsOf orelse)]

def flowsOf : List Stmt → List Flow
  | [] => []
  | stmt :: rest => flowOf stmt ++ flowsOf rest

end

theorem run_append (bindings : Bindings) (xs ys : List Flow) : run bindings (xs ++ ys) = run (run bindings xs) ys := by
  induction xs generalizing bindings with
  | nil => rfl
  | cons flow rest ih =>
    rw [cons_append, run, run, ih]

theorem run_map {α : Type} (bindings : Bindings) (items : List α) (name : α → Text) (given : α → Given) :
    run bindings (items.map fun item => .bind (name item) (given item)) =
      items.foldl (fun bindings item => bind bindings (name item) (given item).val) bindings := by
  induction items generalizing bindings with
  | nil => rfl
  | cons item rest ih =>
    rw [map_cons, run, foldl_cons, ih, runFlow]

mutual

/-- The visitor runs the flow of a statement. -/
theorem visitStmt_run (bindings : Bindings) (stmt : Stmt) :
    (visitStmt resolver bindings stmt).bindings = run bindings (flowOf resolver stmt) := by
  cases stmt with
  | importNames names =>
    unfold visitStmt flowOf
    exact (run_map bindings names boundImport fun item => ⟨_, importBinding_ne_ambiguous resolver item⟩).symm
  | importFrom source level names =>
    unfold visitStmt flowOf
    split
    next => rfl
    next =>
      exact (run_map bindings names boundFrom fun item => ⟨_, fromBinding_ne_ambiguous resolver source level item⟩).symm
  | assign targets value =>
    unfold visitStmt flowOf
    exact (run_map bindings (namesAll targets) (fun name => name) fun _ => ⟨.shadow, Binding.noConfusion⟩).symm
  | annAssign target value =>
    unfold flowOf
    cases value with
    | none => exact (run_map bindings target.names (fun name => name) fun _ => ⟨.shadow, Binding.noConfusion⟩).symm
    | some value => exact (run_map bindings target.names (fun name => name) fun _ => ⟨.shadow, Binding.noConfusion⟩).symm
  | augAssign target value =>
    unfold visitStmt flowOf
    exact (run_map bindings target.names (fun name => name) fun _ => ⟨.shadow, Binding.noConfusion⟩).symm
  | expr value => rfl
  | ifElse test body orelse =>
    have hbody := visitStmts_run bindings body
    have horelse := visitStmts_run bindings orelse
    unfold visitStmt flowOf
    dsimp only
    rw [hbody, horelse]
    rfl

theorem visitStmts_run (bindings : Bindings) (stmts : List Stmt) :
    (visitStmts resolver bindings stmts).bindings = run bindings (flowsOf resolver stmts) := by
  cases stmts with
  | nil => rfl
  | cons stmt rest =>
    have hfirst := visitStmt_run bindings stmt
    have hlast := visitStmts_run (visitStmt resolver bindings stmt).bindings rest
    unfold visitStmts flowsOf
    rw [run_append, ← hfirst]
    exact hlast

end

end

/-- In every run without an import of the distribution that its name is bound to, and without a merge of forwarded and
shadowed names alone, an ambiguous name shows a disagreement and a name with one distribution is attributed to it. -/
theorem ambiguous_disagrees (flow : List Flow) (hclean : Clean (fun _ => none) flow) (name : Text) :
    (run (fun _ => none) flow name = some .ambiguous → Disagrees name flow) ∧
      ∀ distribution, given name flow ≠ [] → (∀ value ∈ given name flow, value = .imported distribution) →
        run (fun _ => none) flow name = some (.imported distribution) := by
  have hempty : History (fun _ => none) name [] := ⟨nofun, nofun⟩
  refine ⟨?_, ?_⟩
  · have hhistory := (run_history name flow hempty hclean).ambiguous
    rwa [nil_append] at hhistory
  · intro distribution hsome hgiven
    have hends := run_endsIn flow hclean hgiven (.inl rfl)
    unfold EndsIn at hends
    rwa [if_neg hsome] at hends

def widgets : Given := ⟨.imported "widgets".toList, Binding.noConfusion⟩

/-- A name imported in one branch and assigned in the other, and a name imported after them. -/
def sampleFlow : List Flow := [.branches [[.bind ['x'] widgets], [shadowed ['x']]], .bind ['y'] widgets]

theorem clean_sample : Clean (fun _ => none) sampleFlow := by
  refine ⟨⟨⟨⟨nofun, trivial⟩, ⟨nofun, trivial⟩, trivial⟩, ?_⟩, ?_, trivial⟩
  · intro name hreexport
    obtain ⟨⟨result, hresult, hvalue⟩, -⟩ := mem_changedValues.mp hreexport
    simp only [runThunks, run, runFlow, shadowed, mem_cons, not_mem_nil, or_false] at hresult
    rcases hresult with rfl | rfl
    · by_cases hname : name = ['x']
      · simp [Usage.bind, hname, mergeBinding, widgets] at hvalue
      · simp [Usage.bind, hname] at hvalue
    · by_cases hname : name = ['x']
      · simp [Usage.bind, hname, mergeBinding] at hvalue
      · simp [Usage.bind, hname] at hvalue
  · intro himport
    decide

theorem ambiguous_disagrees_sample : run (fun _ => none) sampleFlow ['x'] = some .ambiguous ∧ Disagrees ['x'] sampleFlow ∧
    run (fun _ => none) sampleFlow ['y'] = some (.imported "widgets".toList) := by
  have hambiguous : run (fun _ => none) sampleFlow ['x'] = some .ambiguous := by decide
  refine ⟨hambiguous, (ambiguous_disagrees sampleFlow clean_sample ['x']).1 hambiguous, ?_⟩
  exact (ambiguous_disagrees sampleFlow clean_sample ['y']).2 "widgets".toList (by decide) (by decide)

def repeatedImport : List Stmt :=
  [.importNames [⟨"widgetlib".toList, some "x".toList⟩], .importNames [⟨"widgetlib".toList, some "x".toList⟩]]

/-- A name that is imported, and assigned once in one branch and twice in the other. -/
def reassigned : List Stmt :=
  [.importNames [⟨"widgetlib".toList, some "x".toList⟩],
    .ifElse (.node []) [.assign [.name "x".toList] (.node [])]
      [.assign [.name "x".toList] (.node []), .assign [.name "x".toList] (.node [])]]

/-- Two imports of one distribution make their name ambiguous; so does an import that two branches only reassign. -/
theorem ambiguous_agreeing :
    ((visitStmts (sampleResolver "") (fun _ => none) repeatedImport).bindings ['x'] = some .ambiguous ∧
      ¬ Disagrees ['x'] (flowsOf (sampleResolver "") repeatedImport)) ∧
    (visitStmts (sampleResolver "") (fun _ => none) reassigned).bindings ['x'] = some .ambiguous ∧
      ¬ Disagrees ['x'] (flowsOf (sampleResolver "") reassigned) := by
  have hrepeated : given ['x'] (flowsOf (sampleResolver "") repeatedImport) =
      [.imported "widgets".toList, .imported "widgets".toList] := by decide
  have hreassigned : given ['x'] (flowsOf (sampleResolver "") reassigned) =
      [.imported "widgets".toList, .shadow, .shadow, .shadow] := by decide
  refine ⟨⟨by decide, ?_⟩, by decide, ?_⟩
  · rintro (⟨d, e, hne, hd, he⟩ | ⟨thunks, hthunks, -⟩)
    · rw [hrepeated] at hd he
      simp only [mem_cons, not_mem_nil, or_false, or_self, Binding.imported.injEq] at hd he
      exact hne (hd.trans he.symm)
    · cases hthunks
  · rintro (⟨d, e, hne, hd, he⟩ | ⟨thunks, hthunks, i, j, a, b, -, ha, -, ⟨x, hx, himport⟩, -⟩)
    · rw [hreassigned] at hd he
      simp only [mem_cons, not_mem_nil, or_false, Binding.imported.injEq, reduceCtorEq] at hd he
      exact hne (hd.trans he.symm)
    · have hplain : ∀ thunks ∈ splits (flowsOf (sampleResolver "") reassigned), ∀ thunk ∈ thunks, ∀ x ∈ given ['x'] thunk,
          isImported x = false := by
        decide
      have hkind := hplain thunks hthunks a (mem_of_getElem? ha) x hx
      rw [himport] at hkind
      cases hkind

end Leitir.Usage
