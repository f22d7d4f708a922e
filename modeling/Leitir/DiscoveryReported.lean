import Leitir.DiscoveryReadings
import Leitir.SearchDistinct

namespace Leitir.Discovery

open Search ExceptRun List

section

variable {searcher : GlobalSearcher} {spec : SearchSpec} {reading : Reading}

def safeSlug (slug : Text) : Bool :=
  2 ≤ (slug.splitOn Corpus.slash).length && (slug.splitOn Corpus.slash).all Corpus.isName &&
    !(slug.splitOn Corpus.slash).any Corpus.isDots

def Reading.Keeps (reading : Reading) (searcher : GlobalSearcher) (spec : SearchSpec) (span : Span) : Prop :=
  Kept (searcher.adapter reading.registered) reading.content spec.contentMust spec.should spec.mustNot spec.wholeFileMust span

/-- What the matches of a file that is scored are: one for each span that is kept. -/
structure Reading.Scored (reading : Reading) (searcher : GlobalSearcher) (spec : SearchSpec) (found : List SourceMatch)
    (kept : List Span) : Prop where
  keeps : ∀ span, span ∈ kept ↔ reading.Keeps searcher spec span
  sources : found.map SourceMatch.source = kept.map (sourceAt reading.blob)
  kinds : ∀ item ∈ found, item.matchedKinds ≠ []
  distinct : spec.contentMust ≠ [] → kept.Pairwise fun a b => a.startLine ≠ b.startLine
  nodup : spec.contentMust = [] → kept.Nodup

/-- Spans of one line, counted from one, with what was found there. -/
structure Reading.Lines (reading : Reading) (span : Span) : Prop where
  first : 1 ≤ span.startLine
  single : span.endLine = span.startLine
  kinds : span.matchedKinds ≠ []
  last : reading.registered ≠ .parsed → span.startLine ≤ lineCount reading.content

variable {span : Span} {found : List SourceMatch} {kept : List Span}

theorem Reading.lines_of_found (hparser : PythonParser.Counts searcher.parser) {preds : List Predicate} {wholeFile : Bool}
    {result : AdapterMatchResult}
    (h : (searcher.adapter reading.registered).findMatchesEx reading.content preds wholeFile = .ok result)
    (hspan : span ∈ result.spans) : reading.Lines span := by
  obtain ⟨hfirst, hkinds, hlast⟩ := registered_placed reading.registered hparser h span hspan
  exact ⟨hfirst, (reading.registered.lined.lines _ _ _ h).1 span hspan, hkinds, hlast⟩

theorem Reading.lines_of_located (hparser : PythonParser.Counts searcher.parser)
    (h : Located (searcher.adapter reading.registered) reading.content spec.contentMust spec.should spec.wholeFileMust span) :
    reading.Lines span := by
  unfold Located at h
  split at h
  next =>
    obtain ⟨pred, -, result, hresult, hspan⟩ := h
    exact reading.lines_of_found hparser hresult hspan
  next =>
    obtain ⟨result, hresult, hspan⟩ := h
    exact reading.lines_of_found hparser hresult hspan

theorem Reading.scored_of_ok (hparser : PythonParser.Counts searcher.parser) {flagged : Bool}
    (h : scoreContentEx (searcher.adapter reading.registered) reading.content reading.blob spec.contentMust spec.should
      spec.mustNot spec.wholeFileMust = .ok (found, flagged)) : ∃ kept, reading.Scored searcher spec found kept := by
  have hlined : Lined (searcher.adapter reading.registered) reading.content := reading.registered.lined
  obtain ⟨-, spans, kept, hscores⟩ := scoreContentEx_scores (hlined.empty _) h
  refine ⟨kept, hscores.mem_kept, hscores.sources, ?_, ?_, ?_⟩
  · refine hscores.kinds fun span hspan => ?_
    exact (reading.lines_of_located hparser ((reported_iff hscores.reported).mp hspan)).kinds
  · intro hmust
    obtain ⟨result, hresult, rfl⟩ := hscores.reported.required hmust
    exact (hlined.lines _ _ _ hresult).2.sublist hscores.sublist
  · intro hnil
    exact (hscores.reported.optional hnil).1.sublist hscores.sublist

theorem Reading.Scored.mem_found (h : reading.Scored searcher spec found kept)
    {item : SourceMatch} (hitem : item ∈ found) :
    ∃ span, reading.Keeps searcher spec span ∧ item.source = sourceAt reading.blob span := by
  have hsource : item.source ∈ kept.map (sourceAt reading.blob) := by
    rw [← h.sources]
    exact mem_map_of_mem hitem
  obtain ⟨span, hspan, heq⟩ := mem_map.mp hsource
  exact ⟨span, (h.keeps span).mp hspan, heq.symm⟩

theorem Reading.Scored.exists_found
    (h : reading.Scored searcher spec found kept) (hspan : reading.Keeps searcher spec span) :
    ∃ item ∈ found, item.source = sourceAt reading.blob span := by
  have hsource : sourceAt reading.blob span ∈ found.map SourceMatch.source := by
    rw [h.sources]
    exact mem_map_of_mem ((h.keeps span).mpr hspan)
  exact mem_map.mp hsource

theorem acceptsMatch_iff {item : SourceMatch} (hlines : reading.Lines span) (hkinds : item.matchedKinds ≠ [])
    (hsource : item.source = sourceAt reading.blob span) : acceptsMatch item = safeSlug reading.hit.slug := by
  have hpath := reading.hit.path_checked
  have hcommit := reading.hit.commit_checked
  have hblob := reading.hit.blob_checked
  unfold acceptsMatch safeSlug
  rw [hsource]
  simp only [sourceAt, Reading.blob]
  simp [hpath, hcommit, hblob, hlines.first, hlines.single, hkinds]
  rfl

theorem Reading.Scored.accepted_iff (hparser : PythonParser.Counts searcher.parser) (h : reading.Scored searcher spec found kept) :
    found.all acceptsMatch = true ↔ ((∃ span, reading.Keeps searcher spec span) → safeSlug reading.hit.slug = true) := by
  rw [all_eq_true]
  constructor
  · rintro hall ⟨span, hspan⟩
    obtain ⟨item, hitem, hsource⟩ := h.exists_found hspan
    rw [← acceptsMatch_iff (reading.lines_of_located hparser hspan.1) (h.kinds item hitem) hsource]
    exact hall item hitem
  · intro hsafe item hitem
    obtain ⟨span, hspan, hsource⟩ := h.mem_found hitem
    rw [acceptsMatch_iff (reading.lines_of_located hparser hspan.1) (h.kinds item hitem) hsource]
    exact hsafe ⟨span, hspan⟩

/-- The file is scored, and the constructors take its matches. -/
theorem scoreReading_ok_iff (hparser : PythonParser.Counts searcher.parser) :
    (∃ scored, scoreReading searcher spec reading = .ok scored) ↔
      Answers (searcher.adapter reading.registered) reading.content spec.contentMust spec.should spec.mustNot
        spec.wholeFileMust ∧ ((∃ span, reading.Keeps searcher spec span) → safeSlug reading.hit.slug = true) := by
  have hlined : Lined (searcher.adapter reading.registered) reading.content := reading.registered.lined
  rw [← @scoreContentEx_ok_iff _ _ _ _ _ reading.blob _ (hlined.empty _)]
  unfold scoreReading
  cases hscore : scoreContentEx (searcher.adapter reading.registered) reading.content reading.blob spec.contentMust
      spec.should spec.mustNot spec.wholeFileMust with
  | error err => exact ⟨fun h => by simp at h, fun h => by simp at h⟩
  | ok result =>
    obtain ⟨found, flagged⟩ := result
    obtain ⟨kept, hscored⟩ := reading.scored_of_ok hparser hscore
    rw [← hscored.accepted_iff hparser]
    dsimp only
    split
    next hall => exact ⟨fun _ => ⟨⟨_, rfl⟩, hall⟩, fun _ => ⟨_, rfl⟩⟩
    next hall => exact ⟨fun h => by simp at h, fun h => absurd h.2 hall⟩

theorem scoreReading_scored (hparser : PythonParser.Counts searcher.parser) {scored : List SourceMatch × Bool}
    (h : scoreReading searcher spec reading = .ok scored) :
    ∃ kept, reading.Scored searcher spec (readingMatches searcher spec reading) kept := by
  unfold readingMatches
  rw [h]
  unfold scoreReading at h
  split at h
  next => cases h
  next found flagged hscore =>
    split at h
    next =>
      cases h
      exact reading.scored_of_ok hparser hscore
    next => cases h

/-- Two matches of a file have one identity only without required predicates on the content. -/
theorem Reading.Scored.nodup_iff (hparser : PythonParser.Counts searcher.parser) (h : reading.Scored searcher spec found kept) :
    (found.map SourceMatch.identity).Nodup ↔ (spec.contentMust = [] → ∀ a b, reading.Keeps searcher spec a →
      reading.Keeps searcher spec b → a.startLine = b.startLine → a = b) := by
  have hidentity : found.map SourceMatch.identity = kept.map (spanIdentity reading.blob) := by
    change found.map (sourceIdentity ∘ SourceMatch.source) = kept.map (sourceIdentity ∘ sourceAt reading.blob)
    rw [← map_map, h.sources, map_map]
  have hsingle : ∀ span ∈ kept, span.endLine = span.startLine := fun span hspan =>
    (reading.lines_of_located hparser ((h.keeps span).mp hspan).1).single
  rw [hidentity]
  by_cases hmust : spec.contentMust = []
  · rw [nodup_map_iff_inj_on (h.nodup hmust)]
    simp only [hmust, forall_const]
    constructor
    · intro hinj a b ha hb hline
      have ha' := (h.keeps a).mpr ha
      have hb' := (h.keeps b).mpr hb
      exact hinj a ha' b hb' ((spanIdentity_inj (hsingle a ha') (hsingle b hb')).mpr hline)
    · intro hagree a ha b hb heq
      exact hagree a b ((h.keeps a).mp ha) ((h.keeps b).mp hb) ((spanIdentity_inj (hsingle a ha) (hsingle b hb)).mp heq)
  · refine ⟨fun _ hnil => absurd hnil hmust, fun _ => ?_⟩
    rw [List.Nodup, pairwise_map]
    refine List.Pairwise.imp_of_mem ?_ (h.distinct hmust)
    intro a b ha hb hne heq
    exact hne ((spanIdentity_inj (hsingle a ha) (hsingle b hb)).mp heq)

end

section

theorem validateReport_ok_iff {verified : List Reading} {seen : List KeyedList.Key} {items : List SourceMatch} :
    validateReport verified seen items = .ok () ↔
      (∀ item ∈ items, ∃ reading, verified.find? (fun reading => reading.blob = ⟨item.source.slug, item.source.commitSha,
        item.source.path, item.source.blobSha⟩) = some reading ∧ item.source.endLine ≤ lineCount reading.content) ∧
      (items.map SourceMatch.identity).Nodup ∧ ∀ item ∈ items, item.identity ∉ seen := by
  induction items generalizing seen with
  | nil => exact ⟨fun _ => by simp, fun _ => rfl⟩
  | cons item rest ih =>
    rw [validateReport, forall_mem_cons, forall_mem_cons, map_cons, nodup_cons]
    constructor
    · intro h
      split at h
      next => cases h
      next reading hreading =>
        obtain ⟨hlines, h⟩ := guard_ok h
        obtain ⟨hfresh, h⟩ := guard_ok h
        obtain ⟨hrest, hnodup, hseen⟩ := ih.mp h
        refine ⟨⟨⟨reading, hreading, Nat.not_lt.mp hlines⟩, hrest⟩, ⟨?_, hnodup⟩, hfresh, ?_⟩
        · intro hmem
          obtain ⟨other, hother, heq⟩ := mem_map.mp hmem
          exact hseen other hother (heq ▸ mem_cons_self)
        · exact fun other hother hmem => hseen other hother (mem_cons_of_mem _ hmem)
    · rintro ⟨⟨⟨reading, hreading, hlines⟩, hrest⟩, ⟨hnot, hnodup⟩, hfresh, hseen⟩
      rw [hreading]
      dsimp only
      rw [if_neg (Nat.not_lt.mpr hlines), if_neg hfresh, ih]
      refine ⟨hrest, hnodup, ?_⟩
      intro other hother hmem
      rcases mem_cons.mp hmem with heq | hmem
      · exact hnot (heq ▸ mem_map_of_mem hother)
      · exact hseen other hother hmem

theorem find_reading {readings : List Reading} (h : readings.Pairwise fun a b => a.hit.blobSha ≠ b.hit.blobSha)
    {reading : Reading} (hmem : reading ∈ readings) :
    readings.find? (fun other => other.blob = reading.blob) = some reading := by
  induction readings with
  | nil => cases hmem
  | cons first rest ih =>
    obtain ⟨hfirst, hrest⟩ := pairwise_cons.mp h
    rcases mem_cons.mp hmem with rfl | hmem
    · exact find?_cons_of_pos (decide_eq_true rfl)
    · rw [find?_cons_of_neg, ih hrest hmem]
      intro heq
      exact hfirst reading hmem (congrArg Blob.blobSha (of_decide_eq_true heq))

variable {searcher : GlobalSearcher} {spec : SearchSpec}

theorem readings_nodup_iff {readings : List Reading} (h : readings.Pairwise fun a b => a.hit.blobSha ≠ b.hit.blobSha)
    (hsources : ∀ reading ∈ readings, ∀ item ∈ readingMatches searcher spec reading,
      item.source.blobSha = reading.hit.blobSha) :
    ((readings.flatMap (readingMatches searcher spec)).map SourceMatch.identity).Nodup ↔
      ∀ reading ∈ readings, ((readingMatches searcher spec reading).map SourceMatch.identity).Nodup := by
  rw [map_flatMap, nodup_flatMap, and_iff_left]
  refine List.Pairwise.imp_of_mem ?_ h
  intro a b ha hb hne identity hleft hright
  obtain ⟨item, hitem, rfl⟩ := mem_map.mp hleft
  obtain ⟨other, hother, heq⟩ := mem_map.mp hright
  have hown := hsources a ha item hitem
  rw [← source_of_identity heq, hsources b hb other hother] at hown
  exact hne hown.symm

end

end Leitir.Discovery
