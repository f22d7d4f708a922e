import Leitir.VisitedLoop
import Mathlib.Data.Fintype.Order

namespace Leitir.Archive

open Relation List

abbrev Name := List Char

abbrev Path := List Name

abbrev Links := List (Path × Path)

def escapes : String := "symbolic link escapes its target"

def isCurrent (part : Name) : Bool := part = [] || part = ['.']

def isParent (part : Name) : Bool := part = ['.', '.']

/-- The parts of a POSIX path, with its root when it is absolute. -/
def parts (name : Name) : Path :=
  let names := (name.splitOn '/').filter fun part => ¬ isCurrent part
  match name with
  | '/' :: '/' :: '/' :: _ => ['/'] :: names
  | '/' :: '/' :: _ => ['/', '/'] :: names
  | '/' :: _ => ['/'] :: names
  | _ => names

def destinationDepth : Path → Nat → Except String Unit
  | [], _ => .ok ()
  | part :: rest, depth =>
    if isCurrent part then destinationDepth rest depth
    else if isParent part then
      match depth with
      | 0 => .error escapes
      | depth + 1 => destinationDepth rest depth
    else destinationDepth rest (depth + 1)

def symlinkDestination (path : Path) (linkname : Name) : Except String Unit :=
  if linkname = [] ∨ '\\' ∈ linkname then .error "invalid symbolic-link target"
  else if linkname.head? = some '/' then .error escapes
  else destinationDepth (path.dropLast ++ parts linkname) 0

/-- A planned member; the target of a symbolic link has passed its check. -/
structure Planned where
  issym : Bool
  path : Option Path
  linkname : Name
  checked : issym = true → ∀ p, path = some p → symlinkDestination p linkname = .ok ()

/-- The resolution of a path as a loop over its resolved and pending parts. -/
def resolution (links : Links) : Visited.Machine (Path × Path) (Except String Path) where
  done := fun (resolved, pending) => if pending = [] then some (.ok resolved) else none
  repeated := .error escapes
  step := fun (resolved, pending) =>
    match pending with
    | [] => .ok (resolved, [])
    | part :: rest =>
      if isCurrent part then .ok (resolved, rest)
      else if isParent part then
        if resolved = [] then .error (.error escapes) else .ok (resolved.dropLast, rest)
      else
        match links.lookup (resolved ++ [part]) with
        | none => .ok (resolved ++ [part], rest)
        | some target => .ok (resolved, target ++ rest)

def resolvePlannedPath (links : Links) (fuel : Nat) (path : Path) : Option (Except String Path) :=
  (resolution links).run fuel [] ([], path)

def Planned.link (member : Planned) : Option Path := if member.issym then member.path else none

def validateLoop (fuel : Nat) : Links → List Planned → Option (Except String Unit)
  | _, [] => some (.ok ())
  | links, member :: rest =>
    match member.link with
    | none => validateLoop fuel links rest
    | some path =>
      match resolvePlannedPath links fuel path.dropLast with
      | none => none
      | some (.error message) => some (.error message)
      | some (.ok parent) =>
        let physical := parent ++ [path.getLastD []]
        if (links.lookup physical).isSome then some (.error escapes)
        else
          match resolvePlannedPath ((physical, parts member.linkname) :: links) fuel physical with
          | none => none
          | some (.error message) => some (.error message)
          | some (.ok _) => validateLoop fuel ((physical, parts member.linkname) :: links) rest

def validatePlannedSymlinks (fuel : Nat) (planned : List Planned) : Option (Except String Unit) :=
  validateLoop fuel [] planned

/-- One part of a path walked from a directory: nothing, the directory above,
an ordinary entry, or a link whose target is walked in its place. -/
inductive Step (links : Links) : Path × Path → Path × Path → Prop
  | current {dir rest : Path} {part : Name} (h : isCurrent part = true) : Step links (dir, part :: rest) (dir, rest)
  | parent {dir rest : Path} {part : Name} (hc : isCurrent part = false) (h : isParent part = true) (hd : dir ≠ []) :
      Step links (dir, part :: rest) (dir.dropLast, rest)
  | enter {dir rest : Path} {part : Name} (hc : isCurrent part = false) (hp : isParent part = false)
      (h : links.lookup (dir ++ [part]) = none) : Step links (dir, part :: rest) (dir ++ [part], rest)
  | follow {dir rest target : Path} {part : Name} (hc : isCurrent part = false) (hp : isParent part = false)
      (h : links.lookup (dir ++ [part]) = some target) : Step links (dir, part :: rest) (dir, target ++ rest)

def Walks (links : Links) : Path × Path → Path × Path → Prop := ReflTransGen (Step links)

def Follows (links : Links) (dir : Path) (part : Name) (target : Path) : Prop :=
  isCurrent part = false ∧ isParent part = false ∧ links.lookup (dir ++ [part]) = some target

def Regrows (links : Links) (start : Path × Path) : Prop :=
  ∃ dir part target before rest, Follows links dir part target ∧ rest ≠ [] ∧
    Walks links start (dir, part :: before) ∧ Walks links (dir, target) (dir, part :: rest)

variable {links : Links}

variable {s t start : Path × Path} {dir path p : Path} {fuel : Nat}

theorem next_iff : (resolution links).Next s t ↔ Step links s t := by
  obtain ⟨dir, pending⟩ := s
  constructor
  · rintro ⟨hdone, hstep⟩
    cases pending with
    | nil => simp [resolution] at hdone
    | cons part rest =>
      simp only [resolution] at hstep
      split at hstep
      next hc =>
        cases hstep
        exact Step.current hc
      next hc =>
        rw [Bool.not_eq_true] at hc
        split at hstep
        next hp =>
          split at hstep
          next => simp at hstep
          next hd =>
            cases hstep
            exact Step.parent hc hp hd
        next hp =>
          rw [Bool.not_eq_true] at hp
          split at hstep
          next hl =>
            cases hstep
            exact Step.enter hc hp hl
          next target hl =>
            cases hstep
            exact Step.follow hc hp hl
  · intro h
    cases h with
    | current h => exact ⟨by simp [resolution], by simp [resolution, h]⟩
    | parent hc h hd => exact ⟨by simp [resolution], by simp [resolution, hc, h, hd]⟩
    | enter hc hp h => exact ⟨by simp [resolution], by simp [resolution, hc, hp, h]⟩
    | follow hc hp h => exact ⟨by simp [resolution], by simp [resolution, hc, hp, h]⟩

theorem mem_reach_iff : t ∈ (resolution links).reach s ↔ Walks links s t := by
  have heq : (resolution links).Next = Step links := by
    funext a b
    exact propext next_iff
  rw [Visited.Machine.reach, heq]
  rfl

theorem Step.append (h : Step links s t) (more : Path) :
    Step links (s.1, s.2 ++ more) (t.1, t.2 ++ more) := by
  cases h with
  | current h => exact Step.current h
  | parent hc h hd => exact Step.parent hc h hd
  | enter hc hp h => exact Step.enter hc hp h
  | follow hc hp h =>
    rw [append_assoc]
    exact Step.follow hc hp h

theorem Walks.append (h : Walks links s t) (more : Path) :
    Walks links (s.1, s.2 ++ more) (t.1, t.2 ++ more) := by
  induction h with
  | refl => exact ReflTransGen.refl
  | tail _ hstep ih => exact ih.tail (hstep.append more)

theorem Walks.split {first second : Path} (h : Walks links (dir, first ++ second) s) :
    (∃ d left, s = (d, left ++ second) ∧ Walks links (dir, first) (d, left)) ∨
      ∃ d, Walks links (dir, first) (d, []) ∧ Walks links (d, second) s := by
  induction h with
  | refl => exact Or.inl ⟨dir, first, rfl, ReflTransGen.refl⟩
  | @tail b c _ hstep ih =>
    rcases ih with ⟨d, left, rfl, hwalk⟩ | ⟨d, hfirst, hsecond⟩
    · cases left with
      | nil => exact Or.inr ⟨d, hwalk, ReflTransGen.single hstep⟩
      | cons part left =>
        refine Or.inl ?_
        cases hstep with
        | current h => exact ⟨d, left, rfl, hwalk.tail (Step.current h)⟩
        | parent hc h hd => exact ⟨d.dropLast, left, rfl, hwalk.tail (Step.parent hc h hd)⟩
        | enter hc hp h => exact ⟨d ++ [part], left, rfl, hwalk.tail (Step.enter hc hp h)⟩
        | @follow _ _ target _ hc hp h =>
          refine ⟨d, target ++ left, ?_, hwalk.tail (Step.follow hc hp h)⟩
          rw [append_assoc]
          rfl
    · exact Or.inr ⟨d, hfirst, hsecond.tail hstep⟩

theorem walks_nil (h : Walks links (dir, []) s) : s = (dir, []) := by
  rcases ReflTransGen.cases_head h with heq | ⟨u, hstep, _⟩
  · exact heq.symm
  · cases hstep

theorem reach_head_finite (hstep : Step links s t) (h : {u | Walks links t u}.Finite) :
    {u | Walks links s u}.Finite := by
  refine (h.insert s).subset ?_
  intro u hu
  rcases ReflTransGen.cases_head hu with rfl | ⟨v, hv, hrest⟩
  · exact Set.mem_insert _ _
  · have heq : v = t := (next_iff.mpr hv).unique (next_iff.mpr hstep)
    subst heq
    exact Set.mem_insert_of_mem _ hrest

theorem reach_append_finite {first second : Path} (hfirst : {u | Walks links (dir, first) u}.Finite)
    (hsecond : ∀ d, Walks links (dir, first) (d, []) → {u | Walks links (d, second) u}.Finite) :
    {u | Walks links (dir, first ++ second) u}.Finite := by
  have hleft : ((fun s : Path × Path => (s.1, s.2 ++ second)) '' {u | Walks links (dir, first) u}).Finite :=
    hfirst.image _
  have hright : (⋃ u ∈ {u | Walks links (dir, first) u ∧ u.2 = []}, {v | Walks links (u.1, second) v}).Finite := by
    refine Set.Finite.biUnion (hfirst.subset fun u hu => hu.1) ?_
    rintro ⟨d, pending⟩ ⟨hwalk, hnil⟩
    dsimp only at hnil
    subst hnil
    exact hsecond d hwalk
  refine (hleft.union hright).subset ?_
  intro s hs
  rcases Walks.split hs with ⟨d, left, rfl, hwalk⟩ | ⟨d, hend, hrest⟩
  · exact Or.inl ⟨(d, left), hwalk, rfl⟩
  · exact Or.inr (Set.mem_biUnion (show (d, []) ∈ {u | Walks links (dir, first) u ∧ u.2 = []} from ⟨hend, rfl⟩) hrest)

variable {links : Links}

/-- If every link the walk comes to has a finitely walked target, the walk is finite. -/
theorem reach_finite_of_links
    (h : ∀ d part target rest, Follows links d part target → Walks links (dir, path) (d, part :: rest) →
      {u | Walks links (d, target) u}.Finite) : {u | Walks links (dir, path) u}.Finite := by
  induction path generalizing dir with
  | nil =>
    refine (Set.finite_singleton (dir, [])).subset ?_
    intro u hu
    exact walks_nil hu
  | cons part rest ih =>
    have hlater : ∀ t, Step links (dir, part :: rest) (t, rest) → {u | Walks links (dir, part :: rest) u}.Finite := by
      intro t hstep
      apply reach_head_finite hstep
      apply ih
      intro d p target more hf hw
      exact h d p target more hf (ReflTransGen.head hstep hw)
    by_cases hc : isCurrent part = true
    · exact hlater dir (Step.current hc)
    · rw [Bool.not_eq_true] at hc
      by_cases hp : isParent part = true
      · by_cases hd : dir = []
        · refine (Set.finite_singleton (dir, part :: rest)).subset ?_
          intro u hu
          rcases ReflTransGen.cases_head hu with rfl | ⟨v, hv, _⟩
          · rfl
          · cases hv with
            | current hc' => rw [hc] at hc'; cases hc'
            | parent _ _ hd' => exact absurd hd hd'
            | enter _ hp' _ => rw [hp] at hp'; cases hp'
            | follow _ hp' _ => rw [hp] at hp'; cases hp'
        · exact hlater dir.dropLast (Step.parent hc hp hd)
      · rw [Bool.not_eq_true] at hp
        cases hl : links.lookup (dir ++ [part]) with
        | none => exact hlater (dir ++ [part]) (Step.enter hc hp hl)
        | some target =>
          have hstep : Step links (dir, part :: rest) (dir, target ++ rest) := Step.follow hc hp hl
          have htarget := h dir part target rest ⟨hc, hp, hl⟩ ReflTransGen.refl
          apply reach_head_finite hstep
          apply reach_append_finite htarget
          intro d hd
          apply ih
          intro d' p t more hf hw
          have hreach : Walks links (dir, target ++ rest) (d, rest) := hd.append rest
          exact h d' p t more hf (ReflTransGen.head hstep (hreach.trans hw))

theorem Follows.walks {target rest : Path} {part : Name} (h : Follows links dir part target) :
    Walks links (dir, part :: rest) (dir, target ++ rest) :=
  ReflTransGen.single (Step.follow h.1 h.2.1 h.2.2)

theorem reach_infinite_of_regrows (h : Regrows links start) :
    ¬ {u | Walks links start u}.Finite := by
  obtain ⟨dir, part, target, before, rest, hf, hne, hstart, hback⟩ := h
  have hgrow : ∀ n, ∃ more : Path, n ≤ more.length ∧ Walks links start (dir, part :: more) := by
    intro n
    induction n with
    | zero => exact ⟨before, Nat.zero_le _, hstart⟩
    | succ n ih =>
      obtain ⟨more, hlen, hwalk⟩ := ih
      have hpos := length_pos_iff.mpr hne
      refine ⟨rest ++ more, by rw [length_append]; omega, ?_⟩
      exact (hwalk.trans hf.walks).trans (hback.append more)
  intro hfinite
  obtain ⟨bound, hbound⟩ := (hfinite.image fun u => u.2.length).bddAbove
  obtain ⟨more, hlen, hwalk⟩ := hgrow bound
  have hle : (part :: more).length ≤ bound := hbound ⟨_, hwalk, rfl⟩
  rw [length_cons] at hle
  omega

def Endless (links : Links) (start : Path × Path) (p : Path) : Prop :=
  ∃ dir part target before, p = dir ++ [part] ∧ Follows links dir part target ∧
    Walks links start (dir, part :: before) ∧ ¬ {u | Walks links (dir, target) u}.Finite

def Leads (links : Links) (p q : Path) : Prop :=
  ∃ dir part target dir' part' rest, p = dir ++ [part] ∧ q = dir' ++ [part'] ∧ Follows links dir part target ∧
    Walks links (dir, target) (dir', part' :: rest)

theorem Endless.next (h : Endless links start p) :
    ∃ q, Endless links start q ∧ Leads links p q := by
  obtain ⟨dir, part, target, before, rfl, hf, hstart, hinf⟩ := h
  by_contra hnone
  apply hinf
  apply reach_finite_of_links
  intro d q t rest hfq hwalk
  by_contra hq
  apply hnone
  have hreach : Walks links start (d, q :: (rest ++ before)) :=
    (hstart.trans hf.walks).trans (hwalk.append before)
  exact ⟨d ++ [q], ⟨d, q, t, rest ++ before, rfl, hfq, hreach, hq⟩, dir, part, target, d, q, rest, rfl, rfl, hf, hwalk⟩

theorem Leads.trans {q r : Path} (h : Leads links p q) (h' : Leads links q r) : Leads links p r := by
  obtain ⟨dir, part, target, dir', part', rest, rfl, rfl, hf, hw⟩ := h
  obtain ⟨d, x, t, d', x', rest', hq, rfl, hf', hw'⟩ := h'
  obtain ⟨rfl, hx⟩ := append_inj' hq rfl
  cases hx
  exact ⟨dir, part, target, d', x', rest' ++ rest, rfl, rfl, hf, (hw.trans hf'.walks).trans (hw'.append rest)⟩

theorem Endless.mem (h : Endless links start p) : p ∈ links.map Prod.fst := by
  obtain ⟨dir, part, target, _, rfl, hf, _⟩ := h
  obtain ⟨before, after, hlinks, _⟩ := List.lookup_eq_some_iff.mp hf.2.2
  rw [hlinks]
  simp

theorem Endless.cycle (h : Endless links start p) :
    ∃ q, Endless links start q ∧ Leads links q q := by
  by_contra hnone
  have hfinite : Finite {q // Endless links start q} :=
    ((finite_toSet (links.map Prod.fst)).subset fun q hq => hq.mem : {q | Endless links start q}.Finite)
  let back : {q // Endless links start q} → {q // Endless links start q} → Prop := fun a b => Leads links b.1 a.1
  have htrans : IsTrans _ back := ⟨fun a b c hab hbc => hbc.trans hab⟩
  have hirrefl : Std.Irrefl back := ⟨fun a ha => hnone ⟨a.1, a.2, ha⟩⟩
  have hwf : WellFounded back := Finite.wellFounded_of_trans_of_irrefl back
  obtain ⟨q, _, hmin⟩ := hwf.has_min Set.univ ⟨⟨p, h⟩, trivial⟩
  obtain ⟨r, hr, hlead⟩ := q.2.next
  exact hmin ⟨r, hr⟩ trivial hlead

theorem reach_finite_of_return {target : Path} {part : Name} (hf : Follows links dir part target)
    (h : Walks links (dir, target) (dir, [part])) : {u | Walks links (dir, target) u}.Finite := by
  have hcycle : TransGen (Step links) (dir, target) (dir, target) := by
    have hlast : Step links (dir, [part]) (dir, target ++ []) := Step.follow hf.1 hf.2.1 hf.2.2
    rw [append_nil] at hlast
    exact TransGen.tail' h hlast
  have heq : (resolution links).Next = Step links := by
    funext a b
    exact propext next_iff
  rw [← heq] at hcycle
  refine (Visited.Machine.reach_finite_of_cycle hcycle).subset ?_
  intro u hu
  exact mem_reach_iff.mpr hu

/-- A walk has finitely many states exactly when it comes to no link that grows. -/
theorem reach_finite_iff : {u | Walks links start u}.Finite ↔ ¬ Regrows links start := by
  constructor
  · intro hfinite hgrow
    exact reach_infinite_of_regrows hgrow hfinite
  · intro hgrow
    obtain ⟨dir, path⟩ := start
    by_contra hinf
    have hlink : ∃ p, Endless links (dir, path) p := by
      by_contra hnone
      apply hinf
      apply reach_finite_of_links
      intro d part target rest hf hwalk
      by_contra ht
      exact hnone ⟨d ++ [part], d, part, target, rest, rfl, hf, hwalk, ht⟩
    obtain ⟨p, hp⟩ := hlink
    obtain ⟨q, ⟨d, x, target, before, rfl, hf, hstart, hendless⟩, hself⟩ := hp.cycle
    obtain ⟨d₁, x₁, t₁, d₂, x₂, rest, h₁, h₂, hf₁, hwalk⟩ := hself
    obtain ⟨rfl, hx₁⟩ := append_inj' h₁ rfl
    obtain ⟨rfl, hx₂⟩ := append_inj' h₂ rfl
    cases hx₁
    cases hx₂
    have htarget : target = t₁ := Option.some.inj (hf.2.2.symm.trans hf₁.2.2)
    subst htarget
    by_cases hrest : rest = []
    · subst hrest
      exact hendless (reach_finite_of_return hf hwalk)
    · exact hgrow ⟨d, x, target, before, rest, hf, hrest, hstart, hwalk⟩

theorem resolvePlannedPath_returns_iff :
    (∃ fuel r, resolvePlannedPath links fuel path = some r) ↔ ¬ Regrows links ([], path) := by
  rw [← reach_finite_iff]
  have hreach : (resolution links).reach ([], path) = {u | Walks links ([], path) u} := by
    ext u
    exact mem_reach_iff
  rw [← hreach]
  exact Visited.Machine.run_returns_iff

theorem resolvePlannedPath_mono {more : Nat} {r : Except String Path}
    (h : resolvePlannedPath links fuel path = some r) (hle : fuel ≤ more) :
    resolvePlannedPath links more path = some r :=
  Visited.Machine.run_mono h hle

theorem resolvePlannedPath_ok {resolved : Path}
    (h : resolvePlannedPath links fuel path = some (.ok resolved)) : Walks links ([], path) (resolved, []) := by
  rcases Visited.Machine.run_result h with hrep | ⟨⟨dir, pending⟩, hreach, hend⟩
  · simp [resolution] at hrep
  · rcases hend with hdone | ⟨_, herror⟩
    · simp only [resolution] at hdone
      split at hdone
      next hnil =>
        cases hdone
        rw [hnil] at hreach
        exact mem_reach_iff.mp hreach
      next => simp at hdone
    · cases pending with
      | nil => simp [resolution] at herror
      | cons part rest =>
        simp only [resolution] at herror
        split at herror
        next => cases herror
        next =>
          split at herror
          next => split at herror <;> cases herror
          next => split at herror <;> cases herror

theorem resolvePlannedPath_walks {resolved : Path} {r : Except String Path}
    (h : resolvePlannedPath links fuel path = some r) (hwalk : Walks links ([], path) (resolved, [])) :
    r = .ok resolved :=
  Visited.Machine.run_done h (mem_reach_iff.mpr hwalk) (by simp [resolution]) (by simp)

end Leitir.Archive
