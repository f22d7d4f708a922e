import Leitir.DiscoveryReported
import Leitir.Sha

namespace Leitir.Discovery

open Search ExceptRun List

section

variable {searcher : GlobalSearcher} {world : World} {required : Option Text} {query : Text}

/-- The first page comes, and every page that comes is well formed. -/
structure World.Serves (world : World) (query : Text) : Prop where
  first : (world.search query 1).isSome = true
  pages : ∀ number payload, world.search query number = some payload → ∃ page, payload.page = .ok page

theorem collect_total (hserves : world.Serves query) {fuel number : Nat} {hits : List CodeSearchHit}
    {reasons : List BoundReason} :
    ∃ collected, collect searcher world required query fuel number hits reasons = .ok collected := by
  induction fuel generalizing number hits reasons with
  | zero => exact ⟨_, rfl⟩
  | succ fuel ih =>
    rw [collect]
    split
    next hnone =>
      split
      next hfirst =>
        have hsome := hserves.first
        rw [← hfirst, hnone] at hsome
        cases hsome
      next => exact ⟨_, rfl⟩
    next payload hpayload =>
      obtain ⟨page, hpage⟩ := hserves.pages number payload hpayload
      rw [bind_eq hpage]
      dsimp only
      split
      next => exact ⟨_, rfl⟩
      next =>
        split
        next => exact ⟨_, rfl⟩
        next =>
          split
          next => exact ⟨_, rfl⟩
          next =>
            split
            next => exact ⟨_, rfl⟩
            next => exact ih

theorem compileQuery_translation {spec : SearchSpec} {translation : List QueryTranslation} (hmust : spec.must ≠ [])
    (h : compileQuery searcher.casefold spec = .ok (query, translation)) : translation ≠ [] := by
  unfold compileQuery at h
  obtain ⟨⟨terms, translations, language⟩, hterms, h⟩ := bind_ok h
  obtain ⟨optional, -, h⟩ := bind_ok h
  obtain ⟨excluded, -, h⟩ := bind_ok h
  cases h
  obtain ⟨pred, rest, hpreds⟩ := exists_cons_of_ne_nil hmust
  rw [hpreds, compileMust] at hterms
  split at hterms
  next => cases hterms
  next =>
    obtain ⟨-, hterms⟩ := guard_ok hterms
    obtain ⟨-, hterms⟩ := guard_ok hterms
    obtain ⟨others, -, hterms⟩ := bind_ok hterms
    cases hterms
    simp

/-- The hits of the pages that are read. -/
def hitsListed (searcher : GlobalSearcher) (world : World) (required : Option Text) (query : Text) : List CodeSearchHit :=
  match collect searcher world required query searcher.maxPages 1 [] [] with
  | .ok collected => collected.hits
  | .error _ => []

end

section

variable {searcher : GlobalSearcher} {world : World} {spec : SearchSpec} {required : Option Text} {query : Text}

def Reading.Halts (reading : Reading) (searcher : GlobalSearcher) (preds : List Predicate) : Prop :=
  reading.registered.Halts searcher.engine searcher.parser reading.content preds

/-- No pattern that is asked for ends the search of the file: none of the required predicates; none of the optional ones if
their spans or their presence in the whole file are asked for, or some span is kept; and none of those that must not hold, up
to the first that excludes the span. -/
structure Reading.Compiles (reading : Reading) (searcher : GlobalSearcher) (spec : SearchSpec) : Prop where
  must : ¬ reading.Halts searcher spec.contentMust
  optional : spec.contentMust = [] ∨ spec.wholeFileMust = true ∧
    Held (searcher.adapter reading.registered) reading.content spec.contentMust spec.wholeFileMust →
      ∀ pred ∈ spec.should, ¬ reading.Halts searcher [pred]
  excluded : ∀ span, Located (searcher.adapter reading.registered) reading.content spec.contentMust spec.should
      spec.wholeFileMust span → ∀ before pred after, contentPreds spec.mustNot = before ++ pred :: after →
    (∀ earlier ∈ before, ¬ Bars (searcher.adapter reading.registered) reading.content spec.wholeFileMust span earlier) →
      ¬ reading.Halts searcher [pred]
  scored : ∀ span, reading.Keeps searcher spec span → ∀ pred ∈ spec.should, ¬ reading.Halts searcher [pred]

/-- A file whose matches a report can hold: besides, the repository of a match has a safe name; without required predicates
on the content no two spans that are kept begin on the same line; and the lines that a parser gives for them are lines of
the file. -/
structure Reading.Fits (reading : Reading) (searcher : GlobalSearcher) (spec : SearchSpec) : Prop where
  compiles : reading.Compiles searcher spec
  named : (∃ span, reading.Keeps searcher spec span) → safeSlug reading.hit.slug = true
  agreeing : spec.contentMust = [] → ∀ a b, reading.Keeps searcher spec a → reading.Keeps searcher spec b →
    a.startLine = b.startLine → a = b
  counted : reading.registered = .parsed → ∀ span, reading.Keeps searcher spec span →
    span.startLine ≤ lineCount reading.content

theorem Reading.answers_iff (reading : Reading)
    (hregex : RegexesCompile searcher.engine (spec.must ++ spec.should ++ spec.mustNot)) :
    Answers (searcher.adapter reading.registered) reading.content spec.contentMust spec.should spec.mustNot
      spec.wholeFileMust ↔ reading.Compiles searcher spec := by
  have hmust : Asked (searcher.adapter reading.registered) reading.content spec.contentMust spec.wholeFileMust ↔
      ¬ reading.Halts searcher spec.contentMust := by
    refine reading.registered.asked_iff ?_
    intro pred hpred
    exact hregex pred (mem_append_left _ (mem_append_left _ (mem_filter.mp hpred).1))
  have hshould : ∀ pred ∈ spec.should, (Asked (searcher.adapter reading.registered) reading.content [pred] false ↔
      ¬ reading.Halts searcher [pred]) := fun pred hpred =>
    reading.registered.asked_iff (hregex.single (mem_append_left _ (mem_append_right _ hpred)))
  have hmustNot : ∀ before pred after, contentPreds spec.mustNot = before ++ pred :: after →
      (Asked (searcher.adapter reading.registered) reading.content [pred] false ↔ ¬ reading.Halts searcher [pred]) := by
    intro before pred after hsplit
    have hpred : pred ∈ contentPreds spec.mustNot := by
      rw [hsplit]
      simp
    exact reading.registered.asked_iff (hregex.single (mem_append_right _ (mem_contentPreds hpred)))
  constructor
  · intro h
    refine ⟨hmust.mp h.must, ?_, ?_, ?_⟩
    · exact fun hcase pred hpred => (hshould pred hpred).mp (h.optional hcase pred hpred)
    · intro span hspan before pred after hsplit hbefore
      exact (hmustNot before pred after hsplit).mp (h.excluded span hspan before pred after hsplit hbefore)
    · exact fun span hspan pred hpred => (hshould pred hpred).mp (h.scored span hspan pred hpred)
  · intro h
    refine ⟨hmust.mpr h.must, ?_, ?_, ?_⟩
    · exact fun hcase pred hpred => (hshould pred hpred).mpr (h.optional hcase pred hpred)
    · intro span hspan before pred after hsplit hbefore
      exact (hmustNot before pred after hsplit).mpr (h.excluded span hspan before pred after hsplit hbefore)
    · exact fun span hspan pred hpred => (hshould pred hpred).mpr (h.scored span hspan pred hpred)

theorem makeGlobalCoverage_ok_iff {eligible : Int} {indexed : Nat} {incomplete : Bool}
    {exclusions : List Corpus.FileExclusion} :
    (∃ coverage, makeGlobalCoverage eligible indexed incomplete exclusions = .ok coverage) ↔ (indexed : Int) ≤ eligible := by
  unfold makeGlobalCoverage
  split
  next h => exact ⟨fun _ => h, fun _ => ⟨_, rfl⟩⟩
  next h => exact ⟨fun hok => by simp at hok, fun hle => absurd hle h⟩

theorem liftOrder_ok_iff {found : List SourceMatch} :
    (∃ ordered, liftOrder (orderSourceMatches found) = .ok ordered) ↔ (found.map SourceMatch.identity).Nodup := by
  unfold orderSourceMatches
  split
  next h => exact ⟨fun _ => h, fun _ => ⟨_, rfl⟩⟩
  next h => exact ⟨fun hok => by simp [liftOrder] at hok, fun hnodup => absurd hnodup h⟩

theorem liftOrder_perm {found ordered : List SourceMatch} (h : liftOrder (orderSourceMatches found) = .ok ordered) :
    ordered.Perm found := by
  unfold orderSourceMatches at h
  split at h
  next =>
    cases h
    exact KeyedList.perm_sortBy _ _
  next => cases h

/-- The end of the search, step by step. -/
theorem finishSearch_inv {collected : Collected} {eligible : Int} {translation : List QueryTranslation}
    (htranslation : translation ≠ []) :
    (∃ report, finishSearch searcher world spec collected eligible translation required = .ok report) ↔
      ∃ progress ordered, examineGroups searcher world spec required {} (eligibleGroups searcher required collected.hits) =
        .ok progress ∧ (progress.verified.length : Int) ≤ eligible ∧
          liftOrder (orderSourceMatches progress.found) = .ok ordered ∧ validateReport progress.verified [] ordered = .ok () := by
  constructor
  · rintro ⟨report, h⟩
    unfold finishSearch at h
    obtain ⟨progress, hprogress, h⟩ := bind_ok h
    obtain ⟨coverage, hcoverage, h⟩ := bind_ok h
    obtain ⟨ordered, hordered, h⟩ := bind_ok h
    rw [if_neg htranslation] at h
    obtain ⟨_, hvalid, -⟩ := bind_ok h
    exact ⟨progress, ordered, hprogress, makeGlobalCoverage_ok_iff.mp ⟨coverage, hcoverage⟩, hordered, hvalid⟩
  · rintro ⟨progress, ordered, hprogress, hle, hordered, hvalid⟩
    unfold finishSearch
    dsimp only
    rw [bind_eq hprogress]
    obtain ⟨coverage, hcoverage⟩ := makeGlobalCoverage_ok_iff.mpr hle
    rw [bind_eq hcoverage, bind_eq hordered, if_neg htranslation, bind_eq hvalid]
    exact ⟨_, rfl⟩

def readingsOf (searcher : GlobalSearcher) (world : World) (spec : SearchSpec) (required : Option Text)
    (hits : List CodeSearchHit) : List Reading :=
  filesRead searcher world spec required 0 (eligibleGroups searcher required hits)

theorem readingsOf_apart (hits : List CodeSearchHit) :
    (readingsOf searcher world spec required hits).Pairwise fun a b => a.hit.blobSha ≠ b.hit.blobSha :=
  filesRead_apart (byBlob_eligibleGroups searcher required hits)

theorem checkedLine_iff {readings : List Reading} (h : readings.Pairwise fun a b => a.hit.blobSha ≠ b.hit.blobSha)
    {reading : Reading} (hmem : reading ∈ readings) {item : SourceMatch} {span : Span}
    (hsource : item.source = sourceAt reading.blob span) :
    (∃ own, readings.find? (fun reading => reading.blob = ⟨item.source.slug, item.source.commitSha, item.source.path,
      item.source.blobSha⟩) = some own ∧ item.source.endLine ≤ lineCount own.content) ↔
      span.endLine ≤ lineCount reading.content := by
  have hfind : readings.find? (fun reading => reading.blob = ⟨item.source.slug, item.source.commitSha, item.source.path,
      item.source.blobSha⟩) = some reading := by
    rw [hsource]
    exact find_reading h hmem
  rw [hfind, hsource]
  constructor
  · rintro ⟨own, hown, hline⟩
    cases hown
    exact hline
  · exact fun hline => ⟨reading, rfl, hline⟩

variable {hits : List CodeSearchHit}

theorem examined_readings {progress : Progress}
    (h : examineGroups searcher world spec required {} (eligibleGroups searcher required hits) = .ok progress) :
    progress.verified = readingsOf searcher world spec required hits ∧
      progress.found = (readingsOf searcher world spec required hits).flatMap (readingMatches searcher spec) := by
  obtain ⟨hverified, hfound⟩ := examineGroups_result h
  exact ⟨hverified, hfound⟩

theorem examined_iff :
    (∃ progress, examineGroups searcher world spec required {} (eligibleGroups searcher required hits) = .ok progress) ↔
      ∀ reading ∈ readingsOf searcher world spec required hits, ∃ scored, scoreReading searcher spec reading = .ok scored :=
  examineGroups_ok_iff

/-- The identities of all matches differ if those of each file do. -/
theorem found_nodup_iff (hparser : PythonParser.Counts searcher.parser)
    (hscores : ∀ reading ∈ readingsOf searcher world spec required hits,
      ∃ scored, scoreReading searcher spec reading = .ok scored) :
    (((readingsOf searcher world spec required hits).flatMap (readingMatches searcher spec)).map
        SourceMatch.identity).Nodup ↔
      ∀ reading ∈ readingsOf searcher world spec required hits, spec.contentMust = [] → ∀ a b,
        reading.Keeps searcher spec a → reading.Keeps searcher spec b → a.startLine = b.startLine → a = b := by
  have hkept : ∀ reading ∈ readingsOf searcher world spec required hits,
      ∃ kept, reading.Scored searcher spec (readingMatches searcher spec reading) kept := by
    intro reading hreading
    obtain ⟨scored, hscored⟩ := hscores reading hreading
    exact scoreReading_scored hparser hscored
  rw [readings_nodup_iff (readingsOf_apart hits)]
  · refine forall₂_congr ?_
    intro reading hreading
    obtain ⟨kept, hown⟩ := hkept reading hreading
    exact hown.nodup_iff hparser
  · intro reading hreading item hitem
    obtain ⟨kept, hown⟩ := hkept reading hreading
    obtain ⟨span, -, hsource⟩ := hown.mem_found hitem
    rw [hsource]
    rfl

/-- The matches are valid if the spans that are kept are on lines of their files. -/
theorem validate_found_iff (hparser : PythonParser.Counts searcher.parser)
    (hscores : ∀ reading ∈ readingsOf searcher world spec required hits,
      ∃ scored, scoreReading searcher spec reading = .ok scored) {ordered : List SourceMatch}
    (hperm : ordered.Perm ((readingsOf searcher world spec required hits).flatMap (readingMatches searcher spec)))
    (hnodup : (ordered.map SourceMatch.identity).Nodup) :
    validateReport (readingsOf searcher world spec required hits) [] ordered = .ok () ↔
      ∀ reading ∈ readingsOf searcher world spec required hits, ∀ span, reading.Keeps searcher spec span →
        span.startLine ≤ lineCount reading.content := by
  have hapart := @readingsOf_apart searcher world spec required hits
  rw [validateReport_ok_iff]
  constructor
  · rintro ⟨hchecked, -, -⟩ reading hreading span hspan
    obtain ⟨scored, hscored⟩ := hscores reading hreading
    obtain ⟨kept, hkept⟩ := scoreReading_scored hparser hscored
    obtain ⟨item, hitem, hsource⟩ := hkept.exists_found hspan
    have hmem : item ∈ ordered := by
      rw [hperm.mem_iff]
      exact mem_flatMap.mpr ⟨reading, hreading, hitem⟩
    have hline := (checkedLine_iff hapart hreading hsource).mp (hchecked item hmem)
    rw [(reading.lines_of_located hparser hspan.1).single] at hline
    exact hline
  · intro hlines
    refine ⟨?_, hnodup, by simp⟩
    intro item hitem
    rw [hperm.mem_iff] at hitem
    obtain ⟨reading, hreading, hown⟩ := mem_flatMap.mp hitem
    obtain ⟨scored, hscored⟩ := hscores reading hreading
    obtain ⟨kept, hkept⟩ := scoreReading_scored hparser hscored
    obtain ⟨span, hspan, hsource⟩ := hkept.mem_found hown
    rw [checkedLine_iff hapart hreading hsource, (reading.lines_of_located hparser hspan.1).single]
    exact hlines reading hreading span hspan

theorem Reading.fits_iff (reading : Reading) (hparser : PythonParser.Counts searcher.parser)
    (hregex : RegexesCompile searcher.engine (spec.must ++ spec.should ++ spec.mustNot)) :
    reading.Fits searcher spec ↔ (∃ scored, scoreReading searcher spec reading = .ok scored) ∧
      (spec.contentMust = [] → ∀ a b, reading.Keeps searcher spec a → reading.Keeps searcher spec b →
        a.startLine = b.startLine → a = b) ∧
      ∀ span, reading.Keeps searcher spec span → span.startLine ≤ lineCount reading.content := by
  rw [scoreReading_ok_iff hparser, reading.answers_iff hregex]
  constructor
  · intro h
    refine ⟨⟨h.compiles, h.named⟩, h.agreeing, ?_⟩
    intro span hspan
    by_cases hparsed : reading.registered = .parsed
    · exact h.counted hparsed span hspan
    · exact (reading.lines_of_located hparser hspan.1).last hparsed
  · rintro ⟨⟨hcompiles, hnamed⟩, hagreeing, hcounted⟩
    exact ⟨hcompiles, hnamed, hagreeing, fun _ => hcounted⟩

/-- The report is accepted if the announced number is not exceeded and every file that is read fits. -/
theorem finishSearch_ok_iff {collected : Collected} {eligible : Int} {translation : List QueryTranslation}
    (hparser : PythonParser.Counts searcher.parser)
    (hregex : RegexesCompile searcher.engine (spec.must ++ spec.should ++ spec.mustNot)) (htranslation : translation ≠ []) :
    (∃ report, finishSearch searcher world spec collected eligible translation required = .ok report) ↔
      ((readingsOf searcher world spec required collected.hits).length : Int) ≤ eligible ∧
        ∀ reading ∈ readingsOf searcher world spec required collected.hits, reading.Fits searcher spec := by
  rw [finishSearch_inv htranslation]
  constructor
  · rintro ⟨progress, ordered, hprogress, hle, hordered, hvalid⟩
    have hscores := examined_iff.mp ⟨progress, hprogress⟩
    have hnodup := liftOrder_ok_iff.mp ⟨ordered, hordered⟩
    have hperm := liftOrder_perm hordered
    have hordered' := ((hperm.map SourceMatch.identity).nodup_iff).mpr hnodup
    obtain ⟨hverified, hfound⟩ := examined_readings hprogress
    rw [hverified] at hle hvalid
    rw [hfound] at hnodup hperm
    have hagreeing := (found_nodup_iff hparser hscores).mp hnodup
    have hcounted := (validate_found_iff hparser hscores hperm hordered').mp hvalid
    refine ⟨hle, ?_⟩
    intro reading hreading
    exact (reading.fits_iff hparser hregex).mpr
      ⟨hscores reading hreading, hagreeing reading hreading, hcounted reading hreading⟩
  · rintro ⟨hle, hfits⟩
    have hall := fun reading hreading => (Reading.fits_iff reading hparser hregex).mp (hfits reading hreading)
    have hscores := fun reading hreading => (hall reading hreading).1
    obtain ⟨progress, hprogress⟩ := examined_iff.mpr hscores
    obtain ⟨hverified, hfound⟩ := examined_readings hprogress
    have hnodup : (progress.found.map SourceMatch.identity).Nodup := by
      rw [hfound]
      exact (found_nodup_iff hparser hscores).mpr fun reading hreading => (hall reading hreading).2.1
    obtain ⟨ordered, hordered⟩ := liftOrder_ok_iff.mpr hnodup
    have hperm := liftOrder_perm hordered
    have hordered' := ((hperm.map SourceMatch.identity).nodup_iff).mpr hnodup
    rw [hfound] at hperm
    refine ⟨progress, ordered, hprogress, hverified ▸ hle, hordered, ?_⟩
    rw [hverified]
    exact (validate_found_iff hparser hscores hperm hordered').mpr fun reading hreading => (hall reading hreading).2.2

end

/-- What a report needs: the first page announces at least as many results as files are read, and every file that is read
fits. -/
structure Reports (searcher : GlobalSearcher) (world : World) (spec : SearchSpec) (required : Option Text) (query : Text) :
    Prop where
  announced : ((readingsOf searcher world spec required (hitsListed searcher world required query)).length : Int) ≤
    announced world query
  fits : ∀ reading ∈ readingsOf searcher world spec required (hitsListed searcher world required query),
    reading.Fits searcher spec

/-- For an accepted query that compiles, on well-formed pages of which the first is there, the search ends with a report
exactly if the files that are read are no more than the first page announces and fit a report. -/
theorem globalSearch_reports_iff (searcher : GlobalSearcher) (world : World) (spec : SearchSpec) (required : Option Text)
    (query : Text) (translation : List QueryTranslation) (haccepted : spec.Accepted searcher.engine searcher.casefold)
    (hmode : spec.mode = .globalDiscovery) (hrequired : requiredLanguage searcher.casefold spec = .ok required)
    (hsupported : supports (searcher.registry.map searcher.adapter) required = true)
    (hquery : compileQuery searcher.casefold spec = .ok (query, translation)) (hserves : world.Serves query)
    (hparser : PythonParser.Counts searcher.parser) :
    (∃ report, globalSearch searcher world spec = .ok report) ↔ Reports searcher world spec required query := by
  have hregex : RegexesCompile searcher.engine (spec.must ++ spec.should ++ spec.mustNot) := fun pred hpred hkind =>
    ((haccepted.predicates pred hpred).regex hkind).1
  obtain ⟨collected, hcollected⟩ := @collect_total searcher world required query hserves searcher.maxPages 1 [] []
  have hhits : hitsListed searcher world required query = collected.hits := by
    unfold hitsListed
    rw [hcollected]
  have hfinish := @finishSearch_ok_iff searcher world spec required collected (announced world query) translation hparser
    hregex (compileQuery_translation haccepted.must hquery)
  rw [← hhits] at hfinish
  unfold globalSearch
  rw [if_neg (not_not.mpr hmode), hrequired]
  dsimp only
  rw [if_neg (by simp [hsupported]), bind_eq hquery]
  dsimp only
  rw [bind_eq hcollected, hfinish]
  exact ⟨fun h => ⟨h.1, h.2⟩, fun h => ⟨h.announced, h.fits⟩⟩

def gitSha1 (data : Bytes) : Text := (Sha1.hexdigest data).map Char.toNat

/-- A searcher with plain text for patterns. -/
def plainSearcher : GlobalSearcher where
  engine := literalEngine
  casefold := id
  parser := noParser
  sha1 := gitSha1
  registry := [.lines pythonAdapter ".py"]
  maxResults := 10
  maxPages := 2
  results_bound := by decide
  pages_bound := by decide

def sampleCommit : Text := List.replicate 40 97

def sampleItem : Item :=
  .result (chars "o/r") (chars "ab.py") (chars "7d4290a117a4ddcc11daae7ea675841033830c8f")
    (chars "https://github.com/o/r/blob/" ++ sampleCommit ++ chars "/ab.py") sampleCommit

/-- A service with one file. -/
def oneFile : World where
  search := fun _ number => some (if number = 1 then ⟨[sampleItem], 1, false⟩ else ⟨[], 1, false⟩)
  readBlob := fun _ _ _ => some (chars "x = 1\n")

theorem oneFile_serves (query : Text) : oneFile.Serves query where
  first := rfl
  pages := by
    intro number payload h
    refine exists_ok ?_
    change some (if number = 1 then _ else _) = _ at h
    split at h
    next =>
      cases h
      decide +kernel
    next =>
      cases h
      rfl

def textSpec : SearchSpec where
  mode := .globalDiscovery
  must := [{ kind := .exactText, value := chars "x" }]
  scopes := []

theorem accepted_unscoped {spec : SearchSpec} (hpreds : ∀ pred ∈ spec.must ++ spec.should ++ spec.mustNot,
      strip pred.value ≠ [] ∧ pred.language = none ∧ literalEngine.compiles pred.value = true)
    (hmust : spec.must ≠ []) (hmode : spec.mode = .globalDiscovery) (hscopes : spec.scopes = []) :
    spec.Accepted literalEngine id := by
  have haccepted : { spec with mode := .scopedExhaustive, scopes := [sampleScope] }.Accepted literalEngine id :=
    accepted_literal hpreds hmust (by simp) (by simp)
  refine ⟨haccepted.predicates, hmust, ?_, ?_, haccepted.languages⟩
  · intro h
    rw [hmode] at h
    cases h
  · rw [hscopes]
    simp

theorem noParser_counts : PythonParser.Counts noParser := nofun

theorem globalSearch_reports_oneFile : Reports plainSearcher oneFile textSpec none (chars "x") :=
  (globalSearch_reports_iff plainSearcher oneFile textSpec none (chars "x") _ (accepted_unscoped (by decide) (by decide) rfl rfl)
    rfl rfl rfl rfl (oneFile_serves _) noParser_counts).mp (exists_ok (by decide +kernel))

/-- A required path, and two optional predicates that find the same line. -/
def optionalTexts : SearchSpec where
  mode := .globalDiscovery
  must := [{ kind := .path, value := chars "ab" }]
  should := [{ kind := .exactText, value := chars "x" }, { kind := .regex, value := chars "x" }]
  scopes := []

/-- The two matches have one identity, and the search rejects them. -/
theorem optionalTexts_rejected : optionalTexts.Accepted plainSearcher.engine plainSearcher.casefold ∧
    optionalTexts.mode = .globalDiscovery ∧ requiredLanguage plainSearcher.casefold optionalTexts = .ok none ∧
    supports (plainSearcher.registry.map plainSearcher.adapter) none = true ∧
    (∃ translation, compileQuery plainSearcher.casefold optionalTexts = .ok (chars "path:ab", translation)) ∧
    oneFile.Serves (chars "path:ab") ∧ PythonParser.Counts plainSearcher.parser ∧
    globalSearch plainSearcher oneFile optionalTexts = .error .duplicateIdentities :=
  ⟨accepted_unscoped (by decide) (by decide) rfl rfl, rfl, rfl, rfl, ⟨_, rfl⟩, oneFile_serves _, noParser_counts,
    by decide +kernel⟩

end Leitir.Discovery
