import Leitir.DiscoveryScored

namespace Leitir.Discovery

open Search ExceptRun List

theorem count_shown_le {content shown : Text} (h : List.Forall₂ Shows content shown) : shown.count 10 ≤ content.count 10 := by
  induction h with
  | nil => exact Nat.le_refl _
  | @cons ch own content shown hshows _ ih =>
    rw [count_cons, count_cons]
    rcases hshows with rfl | rfl
    · exact Nat.add_le_add_right ih _
    · exact Nat.le_add_right_of_le ih

theorem length_contentLines (shown content : Text) : (contentLines shown content).length =
    shown.count 10 + if LineCut.rest 10 shown = [] ∧ (content = [] ∨ content.getLast? = some 10) then 0 else 1 := by
  unfold contentLines
  dsimp only
  rw [LineCut.splitOn_eq, getLast?_append_of_ne_nil _ (cons_ne_nil _ _), getLast?_singleton]
  simp only [Option.some.injEq]
  split
  next => rw [dropLast_concat, LineCut.length_complete, Nat.add_zero]
  next => rw [length_append, LineCut.length_complete, length_singleton]

/-- There are no more lines than line breaks, and one more for a text after the last of them. -/
theorem length_contentLines_le {content shown : Text} (h : List.Forall₂ Shows content shown) :
    (contentLines shown content).length ≤ lineCount content := by
  rw [length_contentLines]
  unfold lineCount
  have hcount := count_shown_le h
  split
  next hcut =>
    split
    next hnil =>
      subst hnil
      cases h
      exact Nat.le_refl _
    next => split <;> omega
  next hcut =>
    split
    next hnil =>
      subst hnil
      cases h
      exact absurd ⟨rfl, Or.inl rfl⟩ hcut
    next =>
      split
      next hlast =>
        -- the last line break is not shown, or the last part would be empty
        obtain ⟨front, rfl⟩ := getLast?_eq_some_iff.mp hlast
        obtain rfl | ⟨shownFront, own, rfl⟩ := shown.eq_nil_or_concat
        · simp at h
        rw [concat_eq_append] at h ⊢
        have hlength : front.length = shownFront.length := by simpa using h.length_eq
        have hfront := forall₂_take_append _ _ _ h
        have hend := forall₂_drop_append _ _ _ h
        rw [take_left' hlength] at hfront
        rw [drop_left' hlength] at hend
        rcases (forall₂_cons.mp hend).1 with rfl | rfl
        · rw [concat_eq_append] at hcut
          exact absurd ⟨LineCut.rest_append_sep _, Or.inr hlast⟩ hcut
        · have hless := count_shown_le hfront
          rw [count_append, count_append]
          exact Nat.add_le_add_right hless 1
      next => omega

section

/-- A span of a line of the file, with what was found there. -/
structure Placed (count : Nat) (span : SpanMatch) : Prop where
  first : 1 ≤ span.startLine
  last : span.startLine ≤ count
  kinds : span.matchedKinds ≠ []

variable {count : Nat} {wholeFile : Bool}

theorem lineSpans_placed {evidence : List (PredicateKind × List Nat)} {span : SpanMatch}
    (hne : evidence ≠ []) (h : span ∈ lineSpans count wholeFile evidence) : Placed count span := by
  unfold lineSpans at h
  obtain ⟨i, hi, rfl⟩ := mem_map.mp h
  obtain ⟨hrange, htest⟩ := mem_filter.mp hi
  refine ⟨Nat.succ_le_succ (Nat.zero_le i), mem_range.mp hrange, sortKinds_ne_nil ?_⟩
  obtain ⟨entry, hentry, hhits⟩ : ∃ entry ∈ evidence, i ∈ entry.2 := by
    split at htest
    next => simpa using htest
    next =>
      obtain ⟨entry, hentry⟩ := exists_mem_of_ne_nil _ hne
      exact ⟨entry, hentry, by simpa using all_eq_true.mp htest entry hentry⟩
  refine ne_nil_of_mem (mem_map.mpr ⟨entry, mem_filter.mpr ⟨hentry, ?_⟩, rfl⟩)
  simpa using hhits

theorem findSpans_placed {hitsFor : Predicate → Except MatchError (List Nat)} {preds : List Predicate} {spans : List SpanMatch} (h : findSpans hitsFor count preds wholeFile = .ok spans) :
    ∀ span ∈ spans, Placed count span := by
  unfold findSpans at h
  dsimp only at h
  split at h
  next =>
    cases h
    simp
  next hmust =>
    obtain ⟨hits, hhits, h⟩ := bind_ok h
    split at h
    next =>
      cases h
      simp
    next =>
      cases h
      intro span hspan
      refine lineSpans_placed ?_ hspan
      obtain ⟨pred, rest, hpreds⟩ := exists_cons_of_ne_nil hmust
      rw [hpreds] at hhits ⊢
      rw [mapM_cons] at hhits
      obtain ⟨own, -, hhits⟩ := bind_ok hhits
      obtain ⟨others, -, hhits⟩ := bind_ok hhits
      cases hhits
      simp

theorem catchBudget_placed {found : Except MatchError (List SpanMatch)} {result : AdapterMatchResult}
    (h : catchBudget found = .ok result) (hfound : ∀ spans, found = .ok spans → ∀ span ∈ spans, Placed count span) :
    ∀ span ∈ result.spans, Placed count span.toSpanMatch := by
  intro span hspan
  obtain ⟨spans, rfl, -, rfl⟩ := catchBudget_ok h (ne_nil_of_mem hspan)
  obtain ⟨own, hown, rfl⟩ := mem_map.mp hspan
  exact hfound spans rfl own hown

theorem lineSearch_placed {hitsFor : Predicate → Except MatchError (List Nat)} {preds : List Predicate} {result : AdapterMatchResult}
    (h : catchBudget (findSpans hitsFor count preds wholeFile) = .ok result) :
    ∀ span ∈ result.spans, Placed count span.toSpanMatch :=
  catchBudget_placed h fun _ hspans => findSpans_placed hspans

end

section

variable {engine : Engine} {parser : PythonParser} {content : Text}

def PythonParser.Counts (parser : PythonParser) : Prop :=
  ∀ content nodes, parser.parse content = some nodes → ∀ node ∈ nodes, ∀ line ∈ node.line, 1 ≤ line

theorem astHits_first {nodes : List AstNode} {lines : List Text} {pred : Predicate} {item : AstHits}
    (hnodes : ∀ node ∈ nodes, ∀ line ∈ node.line, 1 ≤ line) (h : astHits engine nodes lines pred = .ok item) :
    ∀ entry ∈ item.lines, 1 ≤ entry.1 := by
  unfold astHits at h
  split at h
  next =>
    cases h
    intro entry hentry
    obtain ⟨line, hline, rfl⟩ := mem_map.mp hentry
    obtain ⟨node, hnode, hown⟩ := mem_filterMap.mp (mem_eraseDups.mp hline)
    exact hnodes node (mem_filter.mp hnode).1 line hown
  next =>
    split at h
    next hits _ =>
      cases h
      intro entry hentry
      obtain ⟨line, -, rfl⟩ := mem_map.mp hentry
      exact Nat.succ_le_succ (Nat.zero_le line)
    next =>
      cases h
      simp
    next => cases h

variable {wholeFile : Bool}

theorem astSpans_first {hits : List AstHits} (hhits : ∀ item ∈ hits, ∀ entry ∈ item.lines, 1 ≤ entry.1) :
    ∀ span ∈ astSpans hits wholeFile, 1 ≤ span.startLine ∧ span.matchedKinds ≠ [] := by
  intro span hspan
  unfold astSpans at hspan
  obtain ⟨line, hline, rfl⟩ := mem_map.mp hspan
  have hmem := (mem_filter.mp hline).1
  rw [mem_insertionSort, mem_dedup, mem_flatMap] at hmem
  obtain ⟨item, hitem, hown⟩ := hmem
  obtain ⟨entry, hentry, rfl⟩ := mem_map.mp hown
  refine ⟨hhits item hitem entry hentry, sortKinds_ne_nil ?_⟩
  refine ne_nil_of_mem (mem_map.mpr ⟨item, mem_filter.mpr ⟨hitem, ?_⟩, rfl⟩)
  exact contains_iff_mem.mpr hown

theorem astFind_first (hparser : PythonParser.Counts parser) {preds : List Predicate}
    {result : AdapterMatchResult} (h : astFindMatchesEx engine parser content preds wholeFile = .ok result) :
    ∀ span ∈ result.spans, 1 ≤ span.startLine ∧ span.matchedKinds ≠ [] := by
  have hplain : ∀ own, (pythonAdapter.toLanguage engine ".py").findMatchesEx content preds wholeFile = .ok own →
      ∀ span ∈ own.spans, 1 ≤ span.startLine ∧ span.matchedKinds ≠ [] := by
    intro own hown span hspan
    have hplaced := lineSearch_placed hown span hspan
    exact ⟨hplaced.first, hplaced.kinds⟩
  unfold astFindMatchesEx at h
  dsimp only at h
  split at h
  next =>
    cases h
    simp
  next =>
    split at h
    next => exact hplain result h
    next =>
      split at h
      next =>
        obtain ⟨own, hown, rfl⟩ := map_ok h
        exact hplain own hown
      next nodes hparse =>
        obtain ⟨hits, hhits, h⟩ := bind_ok h
        split at h
        next =>
          cases h
          simp
        next =>
          cases h
          refine astSpans_first ?_
          intro item hitem
          obtain ⟨pred, -, hpred⟩ := (mapM_ok_mem hhits).2 item hitem
          exact astHits_first (hparser content nodes hparse) hpred

/-- Every span of an adapter is of a line with something found on it; only the parser may count more lines than there are
line breaks. -/
theorem registered_placed {casefold : Text → Text} (registered : Registered) (hparser : PythonParser.Counts parser)
    {preds : List Predicate} {result : AdapterMatchResult}
    (h : (registered.adapter engine casefold parser).findMatchesEx content preds wholeFile = .ok result) :
    ∀ span ∈ result.spans, 1 ≤ span.startLine ∧ span.matchedKinds ≠ [] ∧
      (registered ≠ .parsed → span.startLine ≤ lineCount content) := by
  intro span hspan
  cases registered with
  | lines adapter extension =>
    have hplaced := lineSearch_placed h span hspan
    have hcount := length_contentLines_le (forall₂_same.mpr fun ch (_ : ch ∈ content) => Or.inl rfl)
    exact ⟨hplaced.first, hplaced.kinds, fun _ => hplaced.last.trans hcount⟩
  | masked inventory =>
    have hplaced := lineSearch_placed h span hspan
    have hcount := length_contentLines_le (maskLoop_shows .code content)
    exact ⟨hplaced.first, hplaced.kinds, fun _ => hplaced.last.trans hcount⟩
  | parsed =>
    obtain ⟨hfirst, hkinds⟩ := astFind_first hparser h span hspan
    exact ⟨hfirst, hkinds, fun hne => absurd rfl hne⟩

end

/-- The hits of a group are of one blob, and different groups are of different blobs. -/
structure ByBlob (groups : List (List CodeSearchHit)) : Prop where
  same : ∀ group ∈ groups, ∀ a ∈ group, ∀ b ∈ group, a.blobSha = b.blobSha
  apart : groups.Pairwise fun group other => ∀ a ∈ group, ∀ b ∈ other, a.blobSha ≠ b.blobSha

theorem ByBlob.sublist {groups others : List (List CodeSearchHit)} (h : ByBlob groups) (hsub : others.Sublist groups) :
    ByBlob others :=
  ⟨fun group hgroup => h.same group (hsub.subset hgroup), h.apart.sublist hsub⟩

theorem byBlob_collapse (hits : List CodeSearchHit) : ByBlob (collapse CodeSearchHit.blobSha hits) := by
  have hmem : ∀ entry ∈ Grouping.groupBy CodeSearchHit.blobSha hits, ∀ hit ∈ entry.2, hit.blobSha = entry.1 := by
    intro entry hentry hit hhit
    rw [Grouping.mem_groupBy hentry] at hhit
    exact of_decide_eq_true (mem_filter.mp hhit).2
  refine ⟨?_, ?_⟩
  · intro group hgroup a ha b hb
    obtain ⟨entry, hentry, rfl⟩ := mem_map.mp hgroup
    exact (hmem entry hentry a ha).trans (hmem entry hentry b hb).symm
  · have hkeys := Grouping.nodup_groupBy CodeSearchHit.blobSha hits
    unfold collapse
    rw [Grouping.keys, List.Nodup, pairwise_map] at hkeys
    rw [pairwise_map]
    refine List.Pairwise.imp_of_mem ?_ hkeys
    intro entry other hentry hother hne a ha b hb hsame
    exact hne ((hmem entry hentry a ha).symm.trans (hsame.trans (hmem other hother b hb)))

theorem byBlob_eligibleGroups (searcher : GlobalSearcher) (required : Option Text) (hits : List CodeSearchHit) :
    ByBlob (eligibleGroups searcher required hits) :=
  (byBlob_collapse _).sublist filter_sublist

section

variable (searcher : GlobalSearcher) (world : World) (spec : SearchSpec) (required : Option Text)

/-- The files that are read, one for a blob at most, while there are attempts. -/
def filesRead : Nat → List (List CodeSearchHit) → List Reading
  | _, [] => []
  | attempts, group :: rest =>
    if searcher.maxResults ≤ attempts then []
    else
      let walk := walkGroup searcher world spec required attempts 0 group
      walk.reading.toList ++ filesRead walk.attempts rest

variable {searcher world spec required}

variable {attempts : Nat} {reading : Reading}

theorem walkGroup_reading {index : Nat} {group : List CodeSearchHit}
    (h : (walkGroup searcher world spec required attempts index group).reading = some reading) :
    ∃ hit ∈ group, attemptOn searcher world spec required hit = .read reading := by
  induction group generalizing attempts index with
  | nil => cases h
  | cons hit rest ih =>
    rw [walkGroup] at h
    split at h
    next => cases h
    next =>
      dsimp only at h
      split at h
      next own hown =>
        cases h
        exact ⟨hit, mem_cons_self, hown⟩
      next => cases h
      next =>
        obtain ⟨other, hother, hread⟩ := ih h
        exact ⟨other, mem_cons_of_mem _ hother, hread⟩

theorem attemptOn_read {hit : CodeSearchHit}
    (h : attemptOn searcher world spec required hit = .read reading) :
    reading.hit = hit ∧ searcher.adapterFor required hit.path = some reading.registered ∧
      ∃ data, world.readBlob hit.slug hit.commitSha hit.path = some data ∧ gitBlobSha searcher data = hit.blobSha ∧
        Utf8.decodeStrict data = some reading.content := by
  unfold attemptOn at h
  split at h
  next => cases h
  next =>
    split at h
    next => cases h
    next registered hregistered =>
      split at h
      next => cases h
      next =>
        split at h
        next => cases h
        next =>
          unfold readContent at h
          split at h
          next => cases h
          next data hdata =>
            split at h
            next => cases h
            next hsha =>
              split at h
              next => cases h
              next content hcontent =>
                cases h
                exact ⟨rfl, hregistered, data, hdata, not_not.mp hsha, hcontent⟩

theorem mem_filesRead {groups : List (List CodeSearchHit)}
    (h : reading ∈ filesRead searcher world spec required attempts groups) : ∃ group ∈ groups, reading.hit ∈ group := by
  induction groups generalizing attempts with
  | nil => cases h
  | cons group rest ih =>
    rw [filesRead] at h
    split at h
    next => cases h
    next =>
      rcases mem_append.mp h with h | h
      · obtain ⟨hit, hhit, hread⟩ := walkGroup_reading (Option.mem_toList.mp h)
        rw [← (attemptOn_read hread).1] at hhit
        exact ⟨group, mem_cons_self, hhit⟩
      · obtain ⟨other, hother, hhit⟩ := ih h
        exact ⟨other, mem_cons_of_mem _ hother, hhit⟩

theorem filesRead_apart {groups : List (List CodeSearchHit)} (hgroups : ByBlob groups) :
    (filesRead searcher world spec required attempts groups).Pairwise fun a b => a.hit.blobSha ≠ b.hit.blobSha := by
  induction groups generalizing attempts with
  | nil => exact List.Pairwise.nil
  | cons group rest ih =>
    rw [filesRead]
    split
    next => exact List.Pairwise.nil
    next =>
      refine pairwise_append.mpr ⟨?_, ih (hgroups.sublist (sublist_cons_self _ _)), ?_⟩
      · cases (walkGroup searcher world spec required attempts 0 group).reading with
        | none => exact List.Pairwise.nil
        | some reading => exact pairwise_singleton _ _
      · intro a ha b hb
        obtain ⟨hit, hhit, hread⟩ := walkGroup_reading (Option.mem_toList.mp ha)
        obtain ⟨other, hother, hmem⟩ := mem_filesRead hb
        rw [(attemptOn_read hread).1]
        exact (pairwise_cons.mp hgroups.apart).1 other hother hit hhit _ hmem

end

section

variable {searcher : GlobalSearcher} {world : World} {spec : SearchSpec} {required : Option Text}

def readingMatches (searcher : GlobalSearcher) (spec : SearchSpec) (reading : Reading) : List SourceMatch :=
  match scoreReading searcher spec reading with
  | .ok (found, _) => found
  | .error _ => []

@[simp] theorem walked_attempts (progress : Progress) (walk : Walk) : (progress.walked walk).attempts = walk.attempts := rfl

@[simp] theorem walked_verified (progress : Progress) (walk : Walk) :
    (progress.walked walk).verified = progress.verified := rfl

@[simp] theorem walked_found (progress : Progress) (walk : Walk) : (progress.walked walk).found = progress.found := rfl

theorem examineGroups_ok_iff {progress : Progress} {groups : List (List CodeSearchHit)} :
    (∃ final, examineGroups searcher world spec required progress groups = .ok final) ↔
      ∀ reading ∈ filesRead searcher world spec required progress.attempts groups,
        ∃ scored, scoreReading searcher spec reading = .ok scored := by
  induction groups generalizing progress with
  | nil => exact ⟨fun _ => by simp [filesRead], fun _ => ⟨progress, rfl⟩⟩
  | cons group rest ih =>
    rw [examineGroups, filesRead]
    split
    next => exact ⟨fun _ => by simp, fun _ => ⟨_, rfl⟩⟩
    next =>
      dsimp only
      cases hreading : (walkGroup searcher world spec required progress.attempts 0 group).reading with
      | none =>
        have hrest := @ih (progress.walked (walkGroup searcher world spec required progress.attempts 0 group))
        simpa using hrest
      | some reading =>
        rw [Option.toList_some, cons_append, nil_append, forall_mem_cons]
        constructor
        · rintro ⟨final, h⟩
          obtain ⟨⟨found, unavailable⟩, hscored, h⟩ := bind_ok h
          exact ⟨⟨_, hscored⟩, ih.mp ⟨final, h⟩⟩
        · rintro ⟨⟨⟨found, unavailable⟩, hscored⟩, hrest⟩
          dsimp only
          rw [bind_eq hscored]
          exact ih.mpr hrest

theorem examineGroups_result {progress final : Progress} {groups : List (List CodeSearchHit)}
    (h : examineGroups searcher world spec required progress groups = .ok final) :
    final.verified = progress.verified ++ filesRead searcher world spec required progress.attempts groups ∧
      final.found = progress.found ++
        (filesRead searcher world spec required progress.attempts groups).flatMap (readingMatches searcher spec) := by
  induction groups generalizing progress with
  | nil =>
    cases h
    simp [filesRead]
  | cons group rest ih =>
    rw [examineGroups] at h
    rw [filesRead]
    split at h
    next hdone =>
      cases h
      simp [hdone]
    next hgo =>
      rw [if_neg hgo]
      dsimp only at h ⊢
      split at h
      next hreading =>
        obtain ⟨hverified, hfound⟩ := ih h
        rw [hreading]
        exact ⟨hverified, hfound⟩
      next reading hreading =>
        obtain ⟨⟨found, unavailable⟩, hscored, h⟩ := bind_ok h
        obtain ⟨hverified, hfound⟩ := ih h
        have hown : readingMatches searcher spec reading = found := by
          unfold readingMatches
          rw [hscored]
        rw [hreading, Option.toList_some, cons_append, nil_append, flatMap_cons, hown]
        refine ⟨?_, ?_⟩
        · rw [hverified]
          exact append_assoc _ _ _
        · rw [hfound]
          exact append_assoc _ _ _

end

end Leitir.Discovery
