import Leitir.ArchiveWalk

namespace Leitir.Archive

open Relation List

/-- Planned one after the other, no link sends the walk to its directory, or the
walk to itself, to a link that grows. -/
def PlanSettles : Links → List Planned → Prop
  | _, [] => True
  | links, member :: rest =>
    match member.link with
    | none => PlanSettles links rest
    | some path =>
      ¬ Regrows links ([], path.dropLast) ∧
        ∀ parent, Walks links ([], path.dropLast) (parent, []) →
          links.lookup (parent ++ [path.getLastD []]) = none →
          ¬ Regrows ((parent ++ [path.getLastD []], parts member.linkname) :: links)
              ([], parent ++ [path.getLastD []]) ∧
            ((∃ resolved, Walks ((parent ++ [path.getLastD []], parts member.linkname) :: links)
                ([], parent ++ [path.getLastD []]) (resolved, [])) →
              PlanSettles ((parent ++ [path.getLastD []], parts member.linkname) :: links) rest)

variable {fuel : Nat} {planned : List Planned} {s t : Path × Path} {path dir : Path}

theorem validateLoop_mono {more : Nat} {links : Links} {r : Except String Unit}
    (h : validateLoop fuel links planned = some r) (hle : fuel ≤ more) :
    validateLoop more links planned = some r := by
  induction planned generalizing links with
  | nil => exact h
  | cons member rest ih =>
    unfold validateLoop at h ⊢
    split
    next hnone =>
      simp only [hnone] at h
      exact ih h
    next path hpath =>
      simp only [hpath] at h
      split at h
      next => simp at h
      next message hdir => simpa only [resolvePlannedPath_mono hdir hle] using h
      next parent hdir =>
        simp only [resolvePlannedPath_mono hdir hle]
        split at h
        next htaken => rwa [if_pos htaken]
        next hfree =>
          rw [if_neg hfree]
          split at h
          next => simp at h
          next message hself => simpa only [resolvePlannedPath_mono hself hle] using h
          next resolved hself =>
            simp only [resolvePlannedPath_mono hself hle]
            exact ih h

theorem planSettles_of_returns {links : Links} {r : Except String Unit}
    (h : validateLoop fuel links planned = some r) : PlanSettles links planned := by
  induction planned generalizing links with
  | nil => trivial
  | cons member rest ih =>
    unfold validateLoop at h
    unfold PlanSettles
    split
    next hnone =>
      simp only [hnone] at h
      exact ih h
    next path hpath =>
      simp only [hpath] at h
      cases hdir : resolvePlannedPath links fuel path.dropLast with
      | none => simp [hdir] at h
      | some found =>
        refine ⟨resolvePlannedPath_returns_iff.mp ⟨fuel, found, hdir⟩, ?_⟩
        intro parent hwalk hfree
        have hfound := resolvePlannedPath_walks hdir hwalk
        subst hfound
        simp only [hdir, hfree, Option.isSome_none, Bool.false_eq_true, if_false] at h
        cases hself : resolvePlannedPath ((parent ++ [path.getLastD []], parts member.linkname) :: links) fuel
            (parent ++ [path.getLastD []]) with
        | none =>
          simp only [hself] at h
          cases h
        | some result =>
          refine ⟨resolvePlannedPath_returns_iff.mp ⟨fuel, result, hself⟩, ?_⟩
          rintro ⟨resolved, hend⟩
          have hresult := resolvePlannedPath_walks hself hend
          subst hresult
          simp only [hself] at h
          exact ih h

theorem returns_of_planSettles {links : Links} (h : PlanSettles links planned) :
    ∃ fuel r, validateLoop fuel links planned = some r := by
  induction planned generalizing links with
  | nil => exact ⟨0, .ok (), rfl⟩
  | cons member rest ih =>
    unfold PlanSettles at h
    unfold validateLoop
    cases hpath : member.link with
    | none =>
      simp only [hpath] at h
      exact ih h
    | some path =>
      simp only [hpath] at h
      obtain ⟨hdirectory, hlater⟩ := h
      obtain ⟨fuel, found, hdir⟩ := resolvePlannedPath_returns_iff.mpr hdirectory
      cases found with
      | error message => exact ⟨fuel, .error message, by simp only [hdir]⟩
      | ok parent =>
        cases hfree : links.lookup (parent ++ [path.getLastD []]) with
        | some taken => exact ⟨fuel, .error escapes, by simp only [hdir, hfree, Option.isSome_some, if_true]⟩
        | none =>
          obtain ⟨hplace, hrest⟩ := hlater parent (resolvePlannedPath_ok hdir) hfree
          obtain ⟨fuel₂, result, hself⟩ := resolvePlannedPath_returns_iff.mpr hplace
          cases result with
          | error message =>
            refine ⟨max fuel fuel₂, .error message, ?_⟩
            simp only [resolvePlannedPath_mono hdir (le_max_left _ _), hfree, Option.isSome_none,
              Bool.false_eq_true, if_false, resolvePlannedPath_mono hself (le_max_right _ _)]
          | ok resolved =>
            obtain ⟨fuel₃, r, hr⟩ := ih (hrest ⟨resolved, resolvePlannedPath_ok hself⟩)
            refine ⟨max fuel (max fuel₂ fuel₃), r, ?_⟩
            have hdir' := resolvePlannedPath_mono hdir (show fuel ≤ max fuel (max fuel₂ fuel₃) by omega)
            have hself' := resolvePlannedPath_mono hself (show fuel₂ ≤ max fuel (max fuel₂ fuel₃) by omega)
            have hr' := validateLoop_mono hr (show fuel₃ ≤ max fuel (max fuel₂ fuel₃) by omega)
            simp only [hdir', hfree, Option.isSome_none, Bool.false_eq_true, if_false, hself', hr']

/-- The pass over the planned members returns, with some amount of fuel, exactly
when no walk it starts comes to a link that grows. -/
theorem validatePlannedSymlinks_returns_iff (planned : List Planned) :
    (∃ fuel r, validatePlannedSymlinks fuel planned = some r) ↔ PlanSettles [] planned := by
  constructor
  · rintro ⟨fuel, r, h⟩
    exact planSettles_of_returns h
  · exact returns_of_planSettles

/-- The link `a` to `a/b`, which passes the lexical check. -/
def nestedLink : Planned where
  issym := true
  path := some [['a']]
  linkname := ['a', '/', 'b']
  checked := by
    intro _ p hp
    cases hp
    decide +kernel

theorem nestedLink_never_returns : ¬ ∃ fuel r, validatePlannedSymlinks fuel [nestedLink] = some r := by
  rintro ⟨fuel, r, h⟩
  have hsettles := planSettles_of_returns h
  have hparts : parts nestedLink.linkname = [['a'], ['b']] := by decide +kernel
  obtain ⟨_, hplace⟩ := hsettles
  obtain ⟨hgrow, _⟩ := hplace [] Relation.ReflTransGen.refl rfl
  apply hgrow
  rw [hparts]
  have hfollow : Follows [([['a']], [['a'], ['b']])] [] ['a'] [['a'], ['b']] := by
    refine ⟨?_, ?_, ?_⟩ <;> decide +kernel
  exact ⟨[], ['a'], [['a'], ['b']], [], [['b']], hfollow, by simp, Relation.ReflTransGen.refl,
    Relation.ReflTransGen.refl⟩

/-- The links that a pass over the members has planned when it comes to its end. -/
def plannedLinks (fuel : Nat) : Links → List Planned → Links
  | links, [] => links
  | links, member :: rest =>
    match member.link with
    | none => plannedLinks fuel links rest
    | some path =>
      match resolvePlannedPath links fuel path.dropLast with
      | some (.ok parent) => plannedLinks fuel ((parent ++ [path.getLastD []], parts member.linkname) :: links) rest
      | _ => links

def Climbs (links : Links) (path : Path) : Prop :=
  ∃ up rest, isParent up = true ∧ Walks links ([], path) ([], up :: rest)

/-- The path leads over a link with a `..` in its target, and the part before that
`..` passes a link that was planned after it and ends at the archive root. -/
def Reroots (links : Links) (path : Path) : Prop :=
  ∃ later earlier dir part before up after rest,
    links = later ++ (dir ++ [part], before ++ up :: after) :: earlier ∧
    Follows links dir part (before ++ up :: after) ∧ isParent up = true ∧
    Walks links ([], path) (dir, part :: rest) ∧ Walks links (dir, before) ([], []) ∧
    ∃ d name target left, Walks links (dir, before) (d, name :: left) ∧ Follows later d name target

variable {links : Links}

theorem step_unique {u : Path × Path} (h : Step links s t) (h' : Step links s u) : t = u :=
  (next_iff.mpr h).unique (next_iff.mpr h')

theorem walks_end_unique {u : Path × Path} (h : Walks links s t) (h' : Walks links s u)
    (ht : ∀ v, ¬ Step links t v) (hu : ∀ v, ¬ Step links u v) : t = u := by
  have hstay : ∀ {a b}, (∀ v, ¬ Step links a v) → Walks links a b → b = a := by
    intro a b ha hab
    rcases ReflTransGen.cases_head hab with rfl | ⟨v, hv, _⟩
    · rfl
    · exact absurd hv (ha v)
  rcases ReflTransGen.total_of_right_unique (r := Step links) (fun _ _ _ hb hc => step_unique hb hc) h h' with htu | hut
  · exact (hstay ht htu).symm
  · exact hstay hu hut

theorem not_step_nil (dir : Path) (s : Path × Path) : ¬ Step links (dir, []) s := by
  intro h
  cases h

theorem isCurrent_of_isParent {part : Name} (h : isParent part = true) : isCurrent part = false := by
  rw [isParent, decide_eq_true_eq] at h
  subst h
  rfl

theorem not_step_climb {up : Name} {rest : Path} (h : isParent up = true) (s : Path × Path) :
    ¬ Step links ([], up :: rest) s := by
  intro hstep
  cases hstep with
  | current hc => rw [isCurrent_of_isParent h] at hc; cases hc
  | parent _ _ hd => exact hd rfl
  | enter _ hp _ => rw [h] at hp; cases hp
  | follow _ hp _ => rw [h] at hp; cases hp

theorem not_climbs_of_walks {resolved : Path} (h : Walks links ([], path) (resolved, [])) :
    ¬ Climbs links path := by
  rintro ⟨up, rest, hup, hwalk⟩
  have hsame := walks_end_unique h hwalk (not_step_nil resolved) (not_step_climb hup)
  cases hsame

/-- Every `..` left in a walk of a path without one comes from a link on the way,
and the part of that link's target before it has been walked so far. -/
theorem walks_parent_origin (hpath : ∀ part ∈ path, isParent part = false) {d pending : Path}
    (h : Walks links ([], path) (d, pending)) {left rest : Path} {up : Name} (hp : pending = left ++ up :: rest)
    (hup : isParent up = true) :
    ∃ dir part before after more, Follows links dir part (before ++ up :: after) ∧
      Walks links ([], path) (dir, part :: more) ∧ Walks links (dir, before) (d, left) := by
  have hmain : ∀ s : Path × Path, Walks links ([], path) s → ∀ left rest, s.2 = left ++ up :: rest →
      ∃ dir part before after more, Follows links dir part (before ++ up :: after) ∧
        Walks links ([], path) (dir, part :: more) ∧ Walks links (dir, before) (s.1, left) := by
    intro s hs
    induction hs with
    | refl =>
      intro left rest hsplit
      have hfalse := hpath up (by rw [show path = _ from hsplit]; simp)
      rw [hup] at hfalse
      cases hfalse
    | @tail b c hwalk hstep ih =>
      intro left rest hsplit
      cases hstep with
      | @current dir pend part hc =>
        obtain ⟨dir, link, before, after, more, hf, hon, hb⟩ := ih (part :: left) rest (congrArg (part :: ·) hsplit)
        exact ⟨dir, link, before, after, more, hf, hon, hb.tail (Step.current hc)⟩
      | @parent dir pend part hc hpar hd =>
        obtain ⟨dir, link, before, after, more, hf, hon, hb⟩ := ih (part :: left) rest (congrArg (part :: ·) hsplit)
        exact ⟨dir, link, before, after, more, hf, hon, hb.tail (Step.parent hc hpar hd)⟩
      | @enter dir pend part hc hpar hl =>
        obtain ⟨dir, link, before, after, more, hf, hon, hb⟩ := ih (part :: left) rest (congrArg (part :: ·) hsplit)
        exact ⟨dir, link, before, after, more, hf, hon, hb.tail (Step.enter hc hpar hl)⟩
      | @follow dir pend target part hc hpar hl =>
        rcases append_eq_append_iff.mp hsplit with ⟨more, hleft, hpend⟩ | ⟨more, htarget, hrest⟩
        · obtain ⟨dir, link, before, after, more', hf, hon, hb⟩ := ih (part :: more) rest (congrArg (part :: ·) hpend)
          refine ⟨dir, link, before, after, more', hf, hon, ?_⟩
          rw [hleft]
          exact hb.tail (Step.follow hc hpar hl)
        · cases more with
          | nil =>
            rw [nil_append] at hrest
            obtain ⟨dir, link, before, after, more', hf, hon, hb⟩ := ih [part] rest (congrArg (part :: ·) hrest.symm)
            refine ⟨dir, link, before, after, more', hf, hon, ?_⟩
            rw [append_nil] at htarget
            rw [← htarget]
            have hlast := hb.tail (Step.follow hc hpar hl)
            rwa [append_nil] at hlast
          | cons first after =>
            obtain ⟨rfl, _⟩ := List.cons.inj hrest
            exact ⟨dir, part, left, after, pend, ⟨hc, hpar, htarget ▸ hl⟩, hwalk, ReflTransGen.refl⟩
  exact hmain (d, pending) h left rest hp

def Solid (links : Links) (dir : Path) : Prop :=
  ∀ before part, before ++ [part] <+: dir →
    isCurrent part = false ∧ isParent part = false ∧ links.lookup (before ++ [part]) = none

theorem Solid.of_isPrefix {short : Path} (h : Solid links dir) (hs : short <+: dir) : Solid links short :=
  fun before part hb => h before part (hb.trans hs)

theorem solid_of_walks (h : Walks links ([], path) s) : Solid links s.1 := by
  induction h with
  | refl =>
    intro before part hb
    simp at hb
  | tail _ hstep ih =>
    cases hstep with
    | current => exact ih
    | parent => exact ih.of_isPrefix ( dropLast_prefix _)
    | @enter dir rest part hc hp hl =>
      intro before name hb
      rcases prefix_concat_iff.mp hb with heq | hshort
      · obtain ⟨rfl, hname⟩ := append_inj' heq rfl
        cases hname
        exact ⟨hc, hp, hl⟩
      · exact ih before name hshort
    | follow => exact ih

theorem Solid.walks (h : Solid links dir) (more : Path) : Walks links ([], dir ++ more) (dir, more) := by
  induction dir using List.reverseRecOn generalizing more with
  | nil => exact ReflTransGen.refl
  | append_singleton dir part ih =>
    obtain ⟨hc, hp, hl⟩ := h dir part prefix_rfl
    have hdir := ih (h.of_isPrefix (prefix_append _ _)) (part :: more)
    rw [append_assoc]
    exact hdir.tail (Step.enter hc hp hl)

theorem Solid.of_append {later base : Links} (h : Solid (later ++ base) dir) : Solid base dir := by
  intro before part hb
  obtain ⟨hc, hp, hl⟩ := h before part hb
  rw [lookup_append, Option.or_eq_none_iff] at hl
  exact ⟨hc, hp, hl.2⟩

theorem walks_earlier {later base : Links} (h : Walks (later ++ base) s t)
    (hnone : ∀ d name target left, Walks (later ++ base) s (d, name :: left) → ¬ Follows later d name target) :
    Walks base s t := by
  induction h with
  | refl => exact ReflTransGen.refl
  | tail hwalk hstep ih =>
    refine ih.tail ?_
    cases hstep with
    | current hc => exact Step.current hc
    | parent hc hp hd => exact Step.parent hc hp hd
    | enter hc hp hl =>
      rw [lookup_append, Option.or_eq_none_iff] at hl
      exact Step.enter hc hp hl.2
    | @follow dir rest target part hc hp hl =>
      rw [lookup_append] at hl
      cases hlater : later.lookup (dir ++ [part]) with
      | some found => exact absurd ⟨hc, hp, hlater⟩ (hnone dir part found rest hwalk)
      | none =>
        rw [hlater, Option.none_or] at hl
        exact Step.follow hc hp hl

/-- Every link of an accepted plan led somewhere when it was planned. -/
theorem plannedLinks_resolve
    (h : validateLoop fuel links planned = some (.ok ())) :
    ∃ added, plannedLinks fuel links planned = added ++ links ∧
      ∀ later place target earlier, added = later ++ (place, target) :: earlier →
        ∃ resolved, Walks ((place, target) :: (earlier ++ links)) ([], place) (resolved, []) := by
  induction planned generalizing links with
  | nil => exact ⟨[], rfl, by simp⟩
  | cons member rest ih =>
    unfold validateLoop at h
    unfold plannedLinks
    split
    next hnone =>
      simp only [hnone] at h
      exact ih h
    next path hpath =>
      simp only [hpath] at h
      split at h
      next => simp at h
      next => simp at h
      next parent hparent =>
        simp only [hparent]
        split at h
        next => simp at h
        next =>
          split at h
          next => simp at h
          next => simp at h
          next resolved hself =>
            obtain ⟨added, hadded, hresolve⟩ := ih h
            refine ⟨added ++ [(parent ++ [path.getLastD []], parts member.linkname)], ?_, ?_⟩
            · rw [hadded, append_assoc]
              rfl
            · intro later place target earlier hsplit
              rcases earlier.eq_nil_or_concat' with rfl | ⟨front, last, rfl⟩
              · obtain ⟨_, hlast⟩ := append_inj' hsplit rfl
                cases hlast
                exact ⟨resolved, resolvePlannedPath_ok hself⟩
              · rw [← cons_append, ← append_assoc] at hsplit
                obtain ⟨hfront, hlast⟩ := append_inj' hsplit rfl
                cases hlast
                obtain ⟨found, hfound⟩ := hresolve later place target front hfront
                refine ⟨found, ?_⟩
                rw [append_assoc]
                exact hfound

theorem Reroots.climbs (h : Reroots links path) : Climbs links path := by
  obtain ⟨_, _, dir, part, before, up, after, rest, _, hf, hup, hon, hroot, _⟩ := h
  refine ⟨up, after ++ rest, hup, (hon.trans hf.walks).trans ?_⟩
  have hwalk := hroot.append (up :: (after ++ rest))
  rw [append_assoc, cons_append]
  exact hwalk

/-- In an accepted plan a path climbs only where a later link has moved the middle
of an earlier link's target to the archive root. -/
theorem Climbs.reroots
    (h : validatePlannedSymlinks fuel planned = some (.ok ())) (hpath : ∀ part ∈ path, isParent part = false)
    (hclimbs : Climbs (plannedLinks fuel [] planned) path) : Reroots (plannedLinks fuel [] planned) path := by
  obtain ⟨all, hall, hresolve⟩ := plannedLinks_resolve h
  rw [append_nil] at hall
  rw [hall] at hclimbs ⊢
  obtain ⟨up, rest, hup, hwalk⟩ := hclimbs
  obtain ⟨dir, part, before, after, more, hf, hon, hroot⟩ := walks_parent_origin hpath hwalk (nil_append _).symm hup
  obtain ⟨later, earlier, hsplit, _⟩ := List.lookup_eq_some_iff.mp hf.2.2
  refine ⟨later, earlier, dir, part, before, up, after, more, hsplit, hf, hup, hon, hroot, ?_⟩
  by_contra hlater
  obtain ⟨resolved, hself⟩ := hresolve later _ _ earlier hsplit
  rw [append_nil] at hself
  rw [hsplit] at hroot hon hlater
  -- Without a later link on the way, the check of the link itself has met the climb.
  have hearlier := walks_earlier hroot fun d name target left hw hfollows => hlater ⟨d, name, target, left, hw, hfollows⟩
  have hplace := (solid_of_walks hon).of_append.walks [part]
  have hfollow : Follows ((dir ++ [part], before ++ up :: after) :: earlier) dir part (before ++ up :: after) :=
    ⟨hf.1, hf.2.1, by simp⟩
  have hclimb := hearlier.append (up :: after)
  have htarget := hplace.trans hfollow.walks
  rw [append_nil] at htarget
  exact not_climbs_of_walks hself ⟨up, after, hup, htarget.trans hclimb⟩

/-- No planned path of an accepted plan climbs above the archive root through all of
the plan's links exactly when none leads over a link with a later one that turns what
stands before a `..` of its target into the root. -/
theorem planned_paths_stay_iff {fuel : Nat} {planned : List Planned}
    (h : validatePlannedSymlinks fuel planned = some (.ok ()))
    (hpaths : ∀ member ∈ planned, ∀ path, member.path = some path → ∀ part ∈ path, isParent part = false) :
    (∀ member ∈ planned, ∀ path, member.path = some path → ¬ Climbs (plannedLinks fuel [] planned) path) ↔
      ∀ member ∈ planned, ∀ path, member.path = some path → ¬ Reroots (plannedLinks fuel [] planned) path := by
  constructor
  · intro hstay member hmember path hpath hreroots
    exact hstay member hmember path hpath hreroots.climbs
  · intro hnone member hmember path hpath hclimbs
    exact hnone member hmember path hpath (hclimbs.reroots h (hpaths member hmember path hpath))

/-- The link `name` to the target, which passes the lexical check. -/
def topLink (name linkname : Name) (h : symlinkDestination [name] linkname = .ok ()) : Planned where
  issym := true
  path := some [name]
  linkname := linkname
  checked := by
    intro _ p hp
    cases hp
    exact h

def swappedLinks : List Planned :=
  [topLink ['x'] "d/../y".toList (by decide +kernel), topLink ['d'] ['.'] (by decide +kernel)]

theorem planned_paths_stay_tidy :
    (∀ member ∈ [topLink ['x'] "d/../y".toList (by decide +kernel)], ∀ path, member.path = some path →
        ¬ Climbs (plannedLinks 9 [] [topLink ['x'] "d/../y".toList (by decide +kernel)]) path) ↔
      ∀ member ∈ [topLink ['x'] "d/../y".toList (by decide +kernel)], ∀ path, member.path = some path →
        ¬ Reroots (plannedLinks 9 [] [topLink ['x'] "d/../y".toList (by decide +kernel)]) path :=
  planned_paths_stay_iff (by decide +kernel) (by
    intro member hm path hpath
    rw [mem_singleton] at hm
    subst hm
    cases hpath
    decide)

theorem swappedLinks_climb :
    ¬ ∀ fuel planned, validatePlannedSymlinks fuel planned = some (.ok ()) →
      ∀ member ∈ planned, ∀ path, member.path = some path → ¬ Climbs (plannedLinks fuel [] planned) path := by
  intro hall
  have haccepted : validatePlannedSymlinks 9 swappedLinks = some (.ok ()) := by decide +kernel
  have hlinks : plannedLinks 9 [] swappedLinks =
      [([['d']], []), ([['x']], [['d'], ['.', '.'], ['y']])] := by decide +kernel
  refine hall 9 swappedLinks haccepted _ (mem_cons_self ..) [['x']] rfl ?_
  rw [hlinks]
  refine ⟨['.', '.'], [['y']], rfl, ?_⟩
  have hx : Follows [([['d']], []), ([['x']], [['d'], ['.', '.'], ['y']])] [] ['x'] [['d'], ['.', '.'], ['y']] :=
    ⟨rfl, rfl, by decide +kernel⟩
  have hd : Follows [([['d']], []), ([['x']], [['d'], ['.', '.'], ['y']])] [] ['d'] [] := ⟨rfl, rfl, by decide +kernel⟩
  exact hx.walks.trans hd.walks

end Leitir.Archive
