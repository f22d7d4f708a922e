import Leitir.IndexSound
import Leitir.SearchScoped

namespace Leitir.Search

open ExceptRun List

section

variable {adapter : LanguageAdapter} {content : Text} {blob : Blob} {contentMust should mustNot : List Predicate}
  {wholeFile : Bool}

def Found (adapter : LanguageAdapter) (text : Text) (pred : Predicate) : Prop :=
  ∃ result, adapter.findMatchesEx text [pred] false = .ok result ∧ result.spans ≠ []

def Blob.Owns (blob : Blob) (source : SourceRef) : Prop :=
  source.slug = blob.slug ∧ source.commitSha = blob.commitSha ∧ source.path = blob.path ∧ source.blobSha = blob.blobSha

variable {unavailable flagged : Bool}

theorem documentExcludedEx_kept
    (h : documentExcludedEx adapter content mustNot unavailable = .ok (false, flagged)) :
    ∀ pred ∈ mustNot, pred.kind ≠ .path → ¬ Found adapter content pred := by
  induction mustNot generalizing unavailable with
  | nil => simp
  | cons pred rest ih =>
    rw [documentExcludedEx] at h
    split at h
    next hpath =>
      intro other hother hkind
      rcases mem_cons.mp hother with rfl | hother
      · exact absurd hpath hkind
      · exact ih h other hother hkind
    next =>
      obtain ⟨result, hresult, h⟩ := bind_ok h
      split at h
      next => cases h
      next hspans =>
        intro other hother hkind
        rcases mem_cons.mp hother with rfl | hother
        · rintro ⟨own, hown, hsome⟩
          rw [hresult] at hown
          cases hown
          exact hspans hsome
        · exact ih h other hother hkind

theorem scoreSpan_owned {whole : Tally} {span : Span} {found : Option SourceMatch}
    (h : scoreSpan adapter content blob contentMust should mustNot wholeFile whole span unavailable =
      .ok (found, flagged)) : ∀ item ∈ found, blob.Owns item.source := by
  unfold scoreSpan at h
  obtain ⟨⟨excluded, unavailable'⟩, -, h⟩ := bind_ok h
  dsimp only at h
  split at h
  next =>
    cases h
    simp
  next =>
    obtain ⟨tally, -, h⟩ := bind_ok h
    cases h
    intro item hitem
    cases hitem
    exact ⟨rfl, rfl, rfl, rfl⟩

theorem scoreSpans_owned {whole : Tally} {spans : List Span} {found : List SourceMatch}
    (h : scoreSpans adapter content blob contentMust should mustNot wholeFile whole spans unavailable =
      .ok (found, flagged)) : ∀ item ∈ found, blob.Owns item.source := by
  induction spans generalizing unavailable flagged found with
  | nil =>
    cases h
    simp
  | cons span spans ih =>
    rw [scoreSpans] at h
    obtain ⟨⟨own, unavailable'⟩, hown, h⟩ := bind_ok h
    obtain ⟨⟨others, unavailable''⟩, hothers, h⟩ := bind_ok h
    cases h
    intro item hitem
    rcases mem_append.mp hitem with hitem | hitem
    · exact scoreSpan_owned hown item (by simpa using hitem)
    · exact ih hothers item hitem

theorem scoreContentEx_found {found : List SourceMatch}
    (h : scoreContentEx adapter content blob contentMust should mustNot wholeFile = .ok (found, flagged)) :
    (∀ item ∈ found, blob.Owns item.source) ∧
      (found ≠ [] → ∀ pred ∈ contentMust, pred.kind ≠ .path → Found adapter content pred) := by
  unfold scoreContentEx at h
  obtain ⟨result, hresult, h⟩ := bind_ok h
  split at h
  next =>
    cases h
    exact ⟨by simp, fun hne => absurd rfl hne⟩
  next hspans =>
    obtain ⟨⟨spans, unavailable⟩, -, h⟩ := bind_ok h
    obtain ⟨whole, -, h⟩ := bind_ok h
    refine ⟨scoreSpans_owned h, ?_⟩
    intro _ pred hpred hkind
    have hmust : contentMust ≠ [] := ne_nil_of_mem hpred
    have hsome : result.spans ≠ [] := fun hnil => hspans ⟨hnil, hmust⟩
    exact adapter.composes content contentMust wholeFile result hresult hsome pred hpred hkind

end

section

variable {adapter : LanguageAdapter} {blob : Blob} {spec : SearchSpec}

/-- What the texts in which a file is read say of a match. -/
structure Answers (adapter : LanguageAdapter) (spec : SearchSpec) (texts : List Text) : Prop where
  must : ∃ text ∈ texts, ∀ pred ∈ spec.contentMust, Found adapter text pred
  mustNot : ∀ text ∈ texts, ∀ pred ∈ spec.mustNot, pred.kind ≠ .path → ¬ Found adapter text pred

theorem contentMust_kind {pred : Predicate} (h : pred ∈ spec.contentMust) : pred.kind ≠ .path := by
  simpa using (mem_filter.mp h).2

structure Kept (adapter : LanguageAdapter) (blob : Blob) (spec : SearchSpec) (batches : List Text) (scored : Scored) :
    Prop where
  owned : ∀ item ∈ scored.pending, blob.Owns item.source
  must : scored.pending ≠ [] → ∃ text ∈ batches, text ≠ [] ∧ ∀ pred ∈ spec.contentMust, Found adapter text pred
  mustNot : scored.fileExcluded = false →
    ∀ text ∈ batches, text ≠ [] → ∀ pred ∈ spec.mustNot, pred.kind ≠ .path → ¬ Found adapter text pred

theorem addPending_owned {pending : List SourceMatch} {found : SourceMatch}
    (hpending : ∀ item ∈ pending, blob.Owns item.source) (hfound : blob.Owns found.source) :
    ∀ item ∈ addPending pending found, blob.Owns item.source := by
  intro item hitem
  unfold addPending at hitem
  split at hitem
  next =>
    obtain ⟨prior, hprior, rfl⟩ := mem_map.mp hitem
    split
    next => exact hpending prior hprior
    next => exact hpending prior hprior
  next =>
    rcases mem_append.mp hitem with hitem | hitem
    · exact hpending item hitem
    · rw [mem_singleton.mp hitem]
      exact hfound

theorem foldl_addPending_owned {pending found : List SourceMatch} (hpending : ∀ item ∈ pending, blob.Owns item.source)
    (hfound : ∀ item ∈ found, blob.Owns item.source) :
    ∀ item ∈ found.foldl addPending pending, blob.Owns item.source := by
  induction found generalizing pending with
  | nil => exact hpending
  | cons head rest ih =>
    exact ih (addPending_owned hpending (hfound head mem_cons_self)) fun item h => hfound item (mem_cons_of_mem _ h)

theorem flushBatch_kept {batches : List Text} {batch : Text} {scored scored' : Scored}
    (hkept : Kept adapter blob spec batches scored) (h : flushBatch adapter blob spec scored batch = .ok scored') :
    Kept adapter blob spec (batches ++ [batch]) scored' := by
  unfold flushBatch at h
  split at h
  next hempty =>
    cases h
    refine ⟨hkept.owned, ?_, ?_⟩
    · intro hne
      obtain ⟨text, htext, hmust⟩ := hkept.must hne
      exact ⟨text, mem_append_left _ htext, hmust⟩
    · intro hnot text htext hne
      rcases mem_append.mp htext with htext | htext
      · exact hkept.mustNot hnot text htext hne
      · rw [mem_singleton.mp htext] at hne
        exact absurd hempty hne
  next hsome =>
    obtain ⟨⟨excluded, unavailable⟩, hexcluded, h⟩ := bind_ok h
    obtain ⟨⟨found, flagged⟩, hfound, h⟩ := bind_ok h
    cases h
    obtain ⟨howned, hmust⟩ := scoreContentEx_found hfound
    have hrebased : ∀ item ∈ found.map fun item => item.rebase scored.lineOffset, blob.Owns item.source := by
      intro item hitem
      obtain ⟨own, hown, rfl⟩ := mem_map.mp hitem
      exact howned own hown
    refine ⟨foldl_addPending_owned hkept.owned hrebased, ?_, ?_⟩
    · intro hne
      by_cases hnil : found = []
      · rw [hnil] at hne
        obtain ⟨text, htext, hall⟩ := hkept.must hne
        exact ⟨text, mem_append_left _ htext, hall⟩
      · exact ⟨batch, by simp, hsome, fun pred hpred => hmust hnil pred hpred (contentMust_kind hpred)⟩
    · intro hnot
      change excluded = false at hnot
      subst hnot
      have hbefore : scored.fileExcluded = false := by
        cases hb : scored.fileExcluded with
        | false => rfl
        | true =>
          rw [hb] at hexcluded
          cases hexcluded
      rw [hbefore] at hexcluded
      intro text htext hne
      rcases mem_append.mp htext with htext | htext
      · exact hkept.mustNot hbefore text htext hne
      · rw [mem_singleton.mp htext]
        exact documentExcludedEx_kept hexcluded

theorem foldlM_flushBatch_kept {batches more : List Text} {scored scored' : Scored}
    (hkept : Kept adapter blob spec batches scored)
    (h : more.foldlM (flushBatch adapter blob spec) scored = .ok scored') :
    Kept adapter blob spec (batches ++ more) scored' := by
  induction more generalizing batches scored with
  | nil =>
    cases h
    rw [append_nil]
    exact hkept
  | cons batch more ih =>
    rw [foldlM_cons] at h
    obtain ⟨next, hnext, h⟩ := bind_ok h
    have := ih (flushBatch_kept hkept hnext) h
    rwa [append_assoc] at this

def textsOfStream (chunks : List Bytes) : List Text :=
  (streamBatches (Utf8.decodeReplace chunks.flatten)).filter fun batch => batch ≠ []

theorem scoreBlobStream_answers {sha1 : Bytes → Text} {size : Nat} {chunks : List Bytes} {found : List SourceMatch}
    {unavailable : Bool} (h : scoreBlobStream adapter blob spec sha1 size chunks = .ok (found, false, unavailable)) :
    ∀ item ∈ found, blob.Owns item.source ∧ Answers adapter spec (textsOfStream chunks) := by
  have hwhole : spec.wholeFileMust = false := by
    cases hw : spec.wholeFileMust with
    | false => rfl
    | true =>
      unfold scoreBlobStream at h
      rw [hw, if_pos rfl] at h
      cases h
  obtain ⟨scored, hscored, hresult⟩ := scoreBlobStream_ok hwhole h
  have hstart : Kept adapter blob spec [] {} := ⟨by simp, by simp, by simp⟩
  have hkept := foldlM_flushBatch_kept hstart hscored
  rw [nil_append] at hkept
  unfold Scored.outcome at hresult
  obtain ⟨hfound, -⟩ := Prod.mk.inj hresult
  intro item hitem
  rw [hfound] at hitem
  split at hitem
  next => simp at hitem
  next hnot =>
    have hpending := KeyedList.mem_sortBy.mp hitem
    refine ⟨hkept.owned item hpending, ⟨?_, ?_⟩⟩
    · obtain ⟨text, htext, hne, hall⟩ := hkept.must (ne_nil_of_mem hpending)
      exact ⟨text, mem_filter.mpr ⟨htext, by simpa using hne⟩, hall⟩
    · intro text htext
      obtain ⟨hin, hne⟩ := mem_filter.mp htext
      exact hkept.mustNot (eq_false_of_ne_true hnot) text hin (by simpa using hne)

end

section

variable {engine : Engine} {casefold : Text → Text} {sha1 : Bytes → Text} {adapters : List LanguageAdapter}
  {maxBlobSize : Nat} {spec : SearchSpec} {required : Option Text} {scope : RepoScope} {reader : Reader}

def PathSatisfies (engine : Engine) (path : Text) (pred : Predicate) : Prop :=
  pred.value <:+: path ∨ engine.compiles pred.value = true ∧ engine.search pred.value path = true

theorem pathMatchesEx_satisfies {path : Text} {preds : List Predicate} {exceeded : Bool}
    (h : (pathMatchesEx engine path preds exceeded).1 = true) :
    ∃ pred ∈ preds, pred.kind = .path ∧ PathSatisfies engine path pred := by
  induction preds generalizing exceeded with
  | nil => cases h
  | cons pred rest ih =>
    have hrest : ∀ exceeded, (pathMatchesEx engine path rest exceeded).1 = true →
        ∃ other ∈ pred :: rest, other.kind = .path ∧ PathSatisfies engine path other := by
      intro exceeded hmatch
      obtain ⟨other, hother, hsat⟩ := ih hmatch
      exact ⟨other, mem_cons_of_mem _ hother, hsat⟩
    rw [pathMatchesEx] at h
    split at h
    next => exact hrest _ h
    next hkind =>
      have hkind := not_not.mp hkind
      split at h
      next hcontains => exact ⟨pred, mem_cons_self, hkind, Or.inl (by simpa [contains] using hcontains)⟩
      next =>
        split at h
        next => exact hrest _ h
        next =>
          split at h
          next hsearch =>
            rw [Bool.and_eq_true] at hsearch
            exact ⟨pred, mem_cons_self, hkind, Or.inr hsearch⟩
          next => exact hrest _ h

def ReadAs (maxBlobSize : Nat) (reader : Reader) (entry : BlobEntry) (texts : List Text) : Prop :=
  if maxBlobSize < entry.size then ∃ chunks, reader.stream entry = (chunks, none) ∧ texts = textsOfStream chunks
  else ∃ data, reader.read entry = .ok data ∧ texts = [Utf8.decodeReplace data]

variable {entry : BlobEntry} {coverage : Coverage}

theorem scanStream_answers {adapter : LanguageAdapter}
    (h : scanStream sha1 spec scope reader adapter entry = .ok coverage) :
    ∀ item ∈ coverage.matches_, (entry.at_ scope.slug scope.commitSha).Owns item.source ∧
      ∃ chunks, reader.stream entry = (chunks, none) ∧ Answers adapter spec (textsOfStream chunks) := by
  intro item hitem
  unfold scanStream at h
  dsimp only at h
  split at h
  next chunks hstream =>
    split at h
    next =>
      cases h
      simp [leftOut] at hitem
    next =>
      cases h
      simp [leftOut] at hitem
    next found unavailable hscore =>
      cases h
      obtain ⟨howns, hanswers⟩ := scoreBlobStream_answers hscore item hitem
      exact ⟨howns, chunks, hstream, hanswers⟩
  next =>
    split at h
    next =>
      cases h
      simp [leftOut] at hitem
    next =>
      split at h
      next =>
        cases h
        simp [leftOut] at hitem
      next =>
        split at h
        next => cases h
        next =>
          cases h
          simp [leftOut] at hitem

theorem liftSearch_ok {α : Type} {x : Except PatternError α} {value : α} (h : liftSearch x = .ok value) :
    x = .ok value := by
  cases x with
  | ok value' =>
    cases h
    rfl
  | error err =>
    cases err
    cases h

theorem scanWhole_answers {adapter : LanguageAdapter}
    (h : scanWhole spec scope reader adapter entry = .ok coverage) :
    ∀ item ∈ coverage.matches_, (entry.at_ scope.slug scope.commitSha).Owns item.source ∧
      ∃ data, reader.read entry = .ok data ∧ Answers adapter spec [Utf8.decodeReplace data] := by
  intro item hitem
  unfold scanWhole at h
  split at h
  next => cases h
  next =>
    cases h
    simp [leftOut] at hitem
  next data hdata =>
    obtain ⟨⟨excluded, unavailable⟩, hexcluded, h⟩ := bind_ok (liftSearch_ok h)
    dsimp only at h
    split at h
    next =>
      cases h
      simp at hitem
    next hnot =>
      obtain ⟨⟨found, flagged⟩, hfound, h⟩ := bind_ok h
      cases h
      have hexcluded' : excluded = false := eq_false_of_ne_true hnot
      subst hexcluded'
      obtain ⟨howned, hmust⟩ := scoreContentEx_found hfound
      refine ⟨howned item hitem, data, hdata, ⟨?_, ?_⟩⟩
      · refine ⟨_, mem_cons_self, ?_⟩
        intro pred hpred
        exact hmust (ne_nil_of_mem hitem) pred hpred (contentMust_kind hpred)
      · intro text htext
        rw [mem_singleton.mp htext]
        exact documentExcludedEx_kept hexcluded

/-- A match of a blob: its place, the adapter that found it, and what the blob holds. -/
structure AnswersQuery (engine : Engine) (adapters : List LanguageAdapter) (maxBlobSize : Nat) (spec : SearchSpec)
    (required : Option Text) (scope : RepoScope) (reader : Reader) (entry : BlobEntry) (source : SourceRef) : Prop where
  owns : (entry.at_ scope.slug scope.commitSha).Owns source
  path : spec.pathMust = [] ∨ ∃ pred ∈ spec.pathMust, PathSatisfies engine source.path pred
  content : ∃ adapter, adapterFor adapters required source.path = some adapter ∧
    ∃ texts, ReadAs maxBlobSize reader entry texts ∧ Answers adapter spec texts

theorem scanBlobs_answers {entries : List BlobEntry}
    (hpath : ∀ entry ∈ entries, spec.pathMust = [] ∨ ∃ pred ∈ spec.pathMust, PathSatisfies engine entry.path pred)
    (h : scanBlobs sha1 adapters maxBlobSize spec required scope reader entries = .ok coverage) :
    ∀ item ∈ coverage.matches_, ∃ entry ∈ entries,
      AnswersQuery engine adapters maxBlobSize spec required scope reader entry item.source := by
  induction entries generalizing coverage with
  | nil =>
    cases h
    simp
  | cons entry entries ih =>
    rw [scanBlobs] at h
    obtain ⟨own, hown, h⟩ := bind_ok h
    obtain ⟨others, hothers, h⟩ := bind_ok h
    cases h
    intro item hitem
    rcases mem_append.mp hitem with hitem | hitem
    · refine ⟨entry, mem_cons_self, ?_⟩
      unfold scanBlob at hown
      split at hown
      next =>
        cases hown
        simp at hitem
      next adapter hadapter =>
        split at hown
        next hlarge =>
          obtain ⟨howns, chunks, hstream, hanswers⟩ := scanStream_answers hown item hitem
          have hsource : item.source.path = entry.path := howns.2.2.1
          rw [← hsource] at hadapter
          refine ⟨howns, hsource ▸ hpath entry mem_cons_self, adapter, hadapter, _, ?_, hanswers⟩
          unfold ReadAs
          rw [if_pos hlarge]
          exact ⟨chunks, hstream, rfl⟩
        next hsmall =>
          obtain ⟨howns, data, hread, hanswers⟩ := scanWhole_answers hown item hitem
          have hsource : item.source.path = entry.path := howns.2.2.1
          rw [← hsource] at hadapter
          refine ⟨howns, hsource ▸ hpath entry mem_cons_self, adapter, hadapter, _, ?_, hanswers⟩
          unfold ReadAs
          rw [if_neg hsmall]
          exact ⟨data, hread, rfl⟩
    · obtain ⟨entry', hentry', hanswers⟩ :=
        ih (fun entry h => hpath entry (mem_cons_of_mem _ h)) hothers item hitem
      exact ⟨entry', mem_cons_of_mem _ hentry', hanswers⟩

theorem selectBlobs_satisfies {blobs : List BlobEntry}
    (h : entry ∈ (selectBlobs engine adapters spec required blobs).1) :
    entry ∈ blobs ∧ (spec.pathMust = [] ∨ ∃ pred ∈ spec.pathMust, PathSatisfies engine entry.path pred) := by
  unfold selectBlobs at h
  dsimp only at h
  split at h
  next hnil => exact ⟨(mem_filter.mp (KeyedList.mem_sortBy.mp h)).1, Or.inl hnil⟩
  next =>
    obtain ⟨hin, hmatch⟩ := mem_filter.mp h
    obtain ⟨pred, hpred, -, hsat⟩ := pathMatchesEx_satisfies hmatch
    exact ⟨(mem_filter.mp (KeyedList.mem_sortBy.mp hin)).1, Or.inr ⟨pred, hpred, hsat⟩⟩

theorem searchScopes_answers {corpus : Corpus} {scopes : List RepoScope}
    (h : searchScopes engine sha1 adapters maxBlobSize spec required corpus scopes = .ok coverage) :
    ∀ item ∈ coverage.matches_, ∃ scope ∈ scopes, ∃ source, scopeSource scope corpus = .ok source ∧
      ∃ entry ∈ source.blobs,
        AnswersQuery engine adapters maxBlobSize spec required scope source.reader entry item.source := by
  induction scopes generalizing coverage with
  | nil =>
    cases h
    simp
  | cons scope scopes ih =>
    rw [searchScopes] at h
    obtain ⟨source, hsource, h⟩ := bind_ok h
    obtain ⟨own, hown, h⟩ := bind_ok h
    obtain ⟨others, hothers, h⟩ := bind_ok h
    cases h
    intro item hitem
    rcases mem_append.mp hitem with hitem | hitem
    · unfold searchScope at hown
      obtain ⟨scanned, hscanned, hown⟩ := bind_ok hown
      cases hown
      obtain ⟨entry, hentry, hanswers⟩ :=
        scanBlobs_answers (fun entry hin => (selectBlobs_satisfies hin).2) hscanned item hitem
      exact ⟨scope, mem_cons_self, source, hsource, entry, (selectBlobs_satisfies hentry).1, hanswers⟩
    · obtain ⟨scope', hscope', hrest⟩ := ih hothers item hitem
      exact ⟨scope', mem_cons_of_mem _ hscope', hrest⟩

/-- Every match is of a blob of a scope. Its path satisfies one of the required path predicates, where there are any;
its adapter finds every required predicate of the content in a text in which the blob is read, and none of the
excluded ones in any. -/
theorem scopedSearch_answers (engine : Engine) (casefold : Text → Text) (sha1 : Bytes → Text)
    (adapters : List LanguageAdapter) (maxBlobSize : Nat) (spec : SearchSpec) (corpus : Corpus) (report : SearchReport)
    (h : scopedSearch engine casefold sha1 adapters maxBlobSize spec corpus = .ok report) :
    ∃ required, requiredLanguage casefold spec = .ok required ∧ ∀ item ∈ report.matches_,
      ∃ scope ∈ spec.scopes, ∃ source, scopeSource scope corpus = .ok source ∧ ∃ entry ∈ source.blobs,
        AnswersQuery engine adapters maxBlobSize spec required scope source.reader entry item.source := by
  unfold scopedSearch at h
  split at h
  next => cases h
  next =>
    obtain ⟨required, hrequired, h⟩ := bind_ok h
    refine ⟨required, hrequired, ?_⟩
    split at h
    next => cases h
    next =>
      obtain ⟨coverage, hcoverage, h⟩ := bind_ok h
      obtain ⟨ordered, hordered, h⟩ := bind_ok h
      cases h
      intro item hitem
      refine searchScopes_answers hcoverage item ?_
      unfold orderSourceMatches at hordered
      split at hordered
      next =>
        cases hordered
        exact KeyedList.mem_sortBy.mp hitem
      next => cases hordered

def sampleScope : RepoScope := ⟨chars "o/r", List.replicate 40 97⟩

def sampleCorpus : Corpus where
  localShelf := fun _ => .ok none
  listBlobsEx := fun _ => .ok (.listed [⟨chars "ab.py", List.replicate 40 98, 6⟩] false)
  reader := fun _ => ⟨fun _ => .ok (chars "x = 1\n"), fun _ => ([chars "x = 1\n"], none)⟩

/-- Two required paths, and an excluded one. -/
def pathSpec : SearchSpec where
  must := [{ kind := .exactText, value := chars "x" }, { kind := .path, value := chars "ab" },
    { kind := .path, value := chars "zz" }]
  mustNot := [{ kind := .path, value := chars "py" }, { kind := .exactText, value := chars "y" }]
  scopes := [sampleScope]

def sampleMatch : SourceMatch :=
  ⟨⟨chars "o/r", List.replicate 40 97, chars "ab.py", List.replicate 40 98, 1, 1⟩, 1, [.exactText], .heuristic⟩

def sampleReport : SearchReport :=
  ⟨.completeForDeclaredUniverse, ⟨1, 1, 0, false, [sampleMatch]⟩, [sampleMatch]⟩

theorem scopedSearch_answers_sample :
    ∃ required, requiredLanguage id pathSpec = .ok required ∧ ∀ item ∈ [sampleMatch],
      ∃ scope ∈ pathSpec.scopes, ∃ source, scopeSource scope sampleCorpus = .ok source ∧ ∃ entry ∈ source.blobs,
        AnswersQuery literalEngine [pythonAdapter.toLanguage literalEngine ".py"] 100 pathSpec required scope
          source.reader entry item.source := by
  have hsearch : scopedSearch literalEngine id (fun _ => []) [pythonAdapter.toLanguage literalEngine ".py"] 100 pathSpec
      sampleCorpus = .ok sampleReport := by decide +kernel
  exact scopedSearch_answers literalEngine id (fun _ => []) [pythonAdapter.toLanguage literalEngine ".py"] 100 pathSpec
    sampleCorpus sampleReport hsearch

/-- A required path that the match does not satisfy, and an excluded path that it does. -/
theorem path_predicates_passed_over :
    scopedSearch literalEngine id (fun _ => []) [pythonAdapter.toLanguage literalEngine ".py"] 100 pathSpec
        sampleCorpus = .ok sampleReport ∧ sampleMatch ∈ sampleReport.matches_ ∧
      (∃ pred ∈ pathSpec.must, pred.kind = .path ∧ ¬ PathSatisfies literalEngine sampleMatch.source.path pred) ∧
      ∃ pred ∈ pathSpec.mustNot, pred.kind = .path ∧ PathSatisfies literalEngine sampleMatch.source.path pred := by
  refine ⟨by decide +kernel, mem_cons_self, ?_, ?_⟩
  · refine ⟨{ kind := .path, value := chars "zz" }, by decide, rfl, ?_⟩
    unfold PathSatisfies
    decide
  · refine ⟨{ kind := .path, value := chars "py" }, by decide, rfl, ?_⟩
    unfold PathSatisfies
    decide

end

end Leitir.Search
