import Leitir.BtsIndex

namespace Leitir.Bts

open KeyedList List

section

def Extends (name outer : Text) : Prop := outer ++ ['.'] <+: name

instance (name outer : Text) : Decidable (Extends name outer) := inferInstanceAs (Decidable (_ <+: _))

theorem Extends.trans {a b c : Text} (h : Extends a b) (h' : Extends b c) : Extends a c :=
  List.IsPrefix.trans h' ((prefix_append b ['.']).trans h)

theorem beforeLastDot_spec (name : Text) :
    ('.' ∉ name ∧ beforeLastDot name = []) ∨
      ∃ tail, '.' ∉ tail ∧ name = beforeLastDot name ++ '.' :: tail := by
  induction name with
  | nil => exact Or.inl ⟨by simp, rfl⟩
  | cons ch rest ih =>
    unfold beforeLastDot
    split
    next hdot =>
      rcases ih with ⟨hno, -⟩ | ⟨tail, htail, heq⟩
      · exact absurd hdot hno
      · exact Or.inr ⟨tail, htail, by rw [cons_append, ← heq]⟩
    next hdot =>
      by_cases hch : ch = '.'
      · exact Or.inr ⟨rest, hdot, by rw [hch]; rfl⟩
      · refine Or.inl ⟨?_, rfl⟩
        intro hmem
        rcases mem_cons.mp hmem with h | h
        · exact hch h.symm
        · exact hdot h

theorem length_beforeLastDot_le (name : Text) : (beforeLastDot name).length ≤ name.length - 1 := by
  rcases beforeLastDot_spec name with ⟨-, h⟩ | ⟨tail, -, h⟩
  · simp [h]
  · have := congrArg List.length h
    simp at this
    omega

variable {name outer : Text}

/-- The names that a name extends are the part before its last dot and what that part extends. -/
theorem extends_iff (hne : outer ≠ []) :
    Extends name outer ↔ outer = beforeLastDot name ∨ Extends (beforeLastDot name) outer := by
  rcases beforeLastDot_spec name with ⟨hdot, hb⟩ | ⟨tail, htail, hb⟩
  · rw [hb]
    constructor
    · intro h
      exact absurd (h.subset (by simp)) hdot
    · rintro (h | h)
      · exact absurd h hne
      · have := h.length_le
        simp at this
  · have hpre : beforeLastDot name ++ ['.'] <+: name := ⟨tail, by rw [append_assoc]; exact hb.symm⟩
    constructor
    · intro h
      rcases lt_trichotomy outer.length (beforeLastDot name).length with hlt | heq | hgt
      · refine Or.inr (prefix_of_prefix_length_le h ⟨'.' :: tail, hb.symm⟩ ?_)
        simpa [Nat.succ_le_iff] using hlt
      · have houter : outer <+: name := (prefix_append _ _).trans h
        have hbefore : beforeLastDot name <+: name := (prefix_append _ _).trans hpre
        exact Or.inl ((prefix_of_prefix_length_le houter hbefore heq.le).eq_of_length heq)
      · have hinner : beforeLastDot name ++ ['.'] <+: outer := by
          refine prefix_of_prefix_length_le hpre ((prefix_append _ _).trans h) ?_
          simpa [Nat.succ_le_iff] using hgt
        obtain ⟨mid, hmid⟩ := hinner
        obtain ⟨rest, hrest⟩ := h
        rw [← hmid, append_assoc, append_assoc, append_assoc] at hrest
        have htl := append_cancel_left (hrest.trans hb)
        simp only [cons_append, nil_append, List.cons.injEq, true_and] at htl
        exact absurd (by rw [← htl]; simp) htail
    · rintro (rfl | h)
      · exact hpre
      · exact Extends.trans hpre h

theorem mem_enclosingLoop {fuel : Nat} (hfuel : outer.length ≤ fuel) :
    name ∈ enclosingLoop fuel outer ↔ name ≠ [] ∧ (name = outer ∨ Extends outer name) := by
  induction fuel generalizing outer with
  | zero =>
    have : outer = [] := length_eq_zero_iff.mp (by omega)
    subst this
    simp [enclosingLoop, Extends]
  | succ fuel ih =>
    unfold enclosingLoop
    split
    next h => simp [h, Extends]
    next h =>
      have hlen := length_beforeLastDot_le outer
      rw [mem_cons, ih (by omega)]
      constructor
      · rintro (rfl | ⟨hne, hname⟩)
        · exact ⟨h, Or.inl rfl⟩
        · exact ⟨hne, Or.inr ((extends_iff hne).mpr hname)⟩
      · rintro ⟨hne, rfl | hext⟩
        · exact Or.inl rfl
        · exact Or.inr ⟨hne, (extends_iff hne).mp hext⟩

theorem mem_enclosingNames :
    outer ∈ enclosingNames name ↔ outer ≠ [] ∧ Extends name outer := by
  have hlen := length_beforeLastDot_le name
  unfold enclosingNames
  rw [mem_enclosingLoop (by omega)]
  constructor
  · rintro ⟨hne, h⟩
    exact ⟨hne, (extends_iff hne).mpr h⟩
  · rintro ⟨hne, h⟩
    exact ⟨hne, (extends_iff hne).mp h⟩

end

section

theorem SourceRef.Within.trans {a b c : SourceRef} (h : a.Within b) (h' : b.Within c) : a.Within c := by
  obtain ⟨h1, h2, h3, h4, h5, h6⟩ := h
  obtain ⟨g1, g2, g3, g4, g5, g6⟩ := h'
  exact ⟨h1.trans g1, h2.trans g2, h3.trans g3, h4.trans g4, positionLe_trans g5 h5, positionLe_trans h6 g6⟩

def Inside (inner outer : Node) : Prop :=
  Extends inner.id.qualifiedName outer.id.qualifiedName ∧
    ∃ ref ∈ inner.source, ∃ span ∈ outer.source, ref.Within span

theorem Inside.trans {a b c : Node} (h : Inside a b) (h' : Inside b c) : Inside a c := by
  obtain ⟨hext, ref, href, span, hspan, hin⟩ := h
  obtain ⟨hext', ref', href', span', hspan', hin'⟩ := h'
  cases Option.mem_unique hspan href'
  exact ⟨hext.trans hext', ref, href, span', hspan', hin.trans hin'⟩

def LastOfName (graph : Graph) (node : Node) : Prop :=
  ∃ before after, graph.nodes = before ++ node :: after ∧ ∀ other ∈ after, lexicalKey other ≠ lexicalKey node

/-- The lexical index knows the inner node as part of the outer one. -/
structure Carries (graph : Graph) (outer inner : Node) : Prop where
  last : LastOfName graph outer
  definition : outer.id.kind ∈ definitionKinds
  origin : inner.id.origin = outer.id.origin
  moduleName : inner.id.moduleName = outer.id.moduleName
  inside : Inside inner outer

variable {graph : Graph}

theorem Carries.trans {a b c : Node} (h : Carries graph a b) (h' : Carries graph b c) :
    Carries graph a c :=
  ⟨h.last, h.definition, h'.origin.trans h.origin, h'.moduleName.trans h.moduleName,
    h'.inside.trans h.inside⟩

theorem enclosingOwner_eq_some {node : Node} {ref : SourceRef} {name : Text} {id : NodeId} :
    enclosingOwner graph node ref name = some id ↔
      ∃ parent, lookupLast lexicalKey graph.nodes (node.id.origin, node.id.moduleName, name) = some parent ∧
        parent.id = id ∧ parent.id.kind ∈ definitionKinds ∧ ∃ span ∈ parent.source, ref.Within span := by
  unfold enclosingOwner
  constructor
  · intro h
    split at h
    next => cases h
    next parent hparent =>
      split at h
      next => cases h
      next span hspan =>
        split at h
        next hc => exact ⟨parent, hparent, Option.some.inj h, hc.1, span, hspan, hc.2⟩
        next => cases h
  · rintro ⟨parent, hparent, rfl, hkind, span, hspan, hin⟩
    rw [Option.mem_def] at hspan
    simp only [hparent, hspan, hkind, hin, and_self, if_true]

theorem mem_lexicalOwners {inner : Node} {id : NodeId} :
    id ∈ lexicalOwners graph inner ↔ ∃ outer ∈ graph.nodes, outer.id = id ∧ Carries graph outer inner := by
  unfold lexicalOwners
  cases hsource : inner.source with
  | none =>
    constructor
    · intro h
      cases h
    · rintro ⟨outer, -, -, hcarries⟩
      obtain ⟨-, ref, href, -⟩ := hcarries.inside
      rw [hsource] at href
      cases href
  | some ref =>
    simp only [mem_filterMap, mem_enclosingNames, enclosingOwner_eq_some]
    constructor
    · rintro ⟨name, ⟨-, hext⟩, parent, hlookup, hid, hkind, span, hspan, hin⟩
      obtain ⟨hkey, before, after, hnodes, hafter⟩ := lookupLast_eq_some_iff.mp hlookup
      obtain ⟨horigin, hmodule, hname⟩ : parent.id.origin = inner.id.origin ∧
          parent.id.moduleName = inner.id.moduleName ∧ parent.id.qualifiedName = name := by
        simpa [lexicalKey] using hkey
      refine ⟨parent, by rw [hnodes]; simp, hid, ⟨before, after, hnodes, ?_⟩, hkind, horigin.symm, hmodule.symm,
        by rwa [hname], ref, hsource, span, hspan, hin⟩
      rwa [hkey]
    · rintro ⟨outer, -, hid, hcarries⟩
      obtain ⟨before, after, hnodes, hafter⟩ := hcarries.last
      obtain ⟨hext, ref', href', span, hspan, hin⟩ := hcarries.inside
      rw [hsource] at href'
      cases href'
      refine ⟨outer.id.qualifiedName, ⟨outer.id.named, hext⟩, outer, ?_, hid, hcarries.definition, span, hspan, hin⟩
      rw [hcarries.origin, hcarries.moduleName]
      exact lookupLast_eq_some_iff.mpr ⟨rfl, before, after, hnodes, hafter⟩

def CarriesId (graph : Graph) (outer inner : NodeId) : Prop :=
  ∃ m ∈ graph.nodes, ∃ n ∈ graph.nodes, m.id = outer ∧ n.id = inner ∧ Carries graph m n

theorem mem_nestedOwners {outer inner : NodeId} :
    inner ∈ nestedOwners graph outer ↔ CarriesId graph outer inner := by
  simp only [nestedOwners, mem_flatMap, mem_map, mem_filter, decide_eq_true_eq,
    mem_lexicalOwners, CarriesId]
  constructor
  · rintro ⟨n, hn, parent, ⟨⟨m, hm, hid, hcarries⟩, rfl⟩, hinner⟩
    exact ⟨m, hm, n, hn, hid, hinner, hcarries⟩
  · rintro ⟨m, hm, n, hn, rfl, rfl, hcarries⟩
    exact ⟨n, hn, m.id, ⟨⟨m, hm, rfl, hcarries⟩, rfl⟩, rfl⟩

theorem CarriesId.trans {a b c : NodeId} (h : CarriesId graph a b)
    (h' : CarriesId graph b c) : CarriesId graph a c := by
  obtain ⟨m, hm, n, hn, rfl, rfl, hmn⟩ := h
  obtain ⟨n', hn', k, hk, hid, rfl, hnk⟩ := h'
  cases Graph.node_unique hn' hn hid
  exact ⟨m, hm, k, hk, rfl, rfl, hmn.trans hnk⟩

end

def Included (policy : ResolutionPolicy) (target : NodeId) : Prop :=
  (∀ rule ∈ policy.rules, rule.source ≠ target) ∧ target.origin = .donor

theorem classify_include_iff {policy : ResolutionPolicy} {target : NodeId} {edge : Option Edge} :
    (classify policy target edge).disposition = .includeSource ↔ Included policy target := by
  unfold classify Included
  split
  next rule hrule =>
    have hmem : ∃ rule ∈ policy.rules, rule.source = target := by
      obtain ⟨hk, before, after, heq, -⟩ := lookupLast_eq_some_iff.mp hrule
      exact ⟨rule, by rw [heq]; simp, hk⟩
    have hfits := rule.fits
    have hne : rule.disposition ≠ .includeSource := by
      rw [hfits]
      cases rule.payload <;> simp [RulePayload.expected]
    obtain ⟨rule', hrule', hsource⟩ := hmem
    constructor
    · intro h
      split at h <;> exact absurd h hne
    · rintro ⟨h, -⟩
      exact absurd hsource (h rule' hrule')
  next hrule =>
    have hnone := lookupLast_eq_none_iff.mp hrule
    split
    next h => exact ⟨fun _ => ⟨hnone, h⟩, fun _ => rfl⟩
    next h =>
      constructor
      · intro hd
        split at hd <;> simp at hd
      · rintro ⟨-, hdonor⟩
        exact absurd hdonor h

theorem classify_edge_irrel {policy : ResolutionPolicy} {target : NodeId} (edge edge' : Option Edge) :
    (classify policy target edge).disposition = (classify policy target edge').disposition := by
  unfold classify
  split
  next => split <;> rfl
  next => split <;> [rfl; split <;> rfl]

/-- What the seed needs: the owners its source carries, and the included targets of all runtime edges. -/
inductive Reached (inp : Inputs) : NodeId → Prop
  | seed : Reached inp inp.seed
  | carried {outer inner} : Reached inp outer → CarriesId inp.graph outer inner → Reached inp inner
  | target {owner edge} : Reached inp owner → edge ∈ outgoing inp.graph owner →
      Included inp.policy edge.target → Reached inp edge.target

end Leitir.Bts
