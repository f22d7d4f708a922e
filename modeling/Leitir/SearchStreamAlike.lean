import Leitir.SearchLineStream

namespace Leitir.Search

open ExceptRun List

theorem cutBatches_ne_nil (lines : List Text) (batch : Text) : ∀ flushed ∈ (cutBatches lines batch).1, flushed ≠ [] := by
  induction lines generalizing batch with
  | nil => simp [cutBatches]
  | cons line lines ih =>
    rw [cutBatches]
    split
    next =>
      intro flushed hflushed
      rcases mem_cons.mp hflushed with rfl | hflushed
      · simp
      · exact ih [] flushed hflushed
    next => exact ih _

def firstBatch (content : Text) : Text := (streamBatches content).headD []

theorem firstBatch_spec {content : Text} (h : content ≠ []) :
    ∃ rest, ((streamBatches content).filter fun batch => batch ≠ []) = firstBatch content :: rest := by
  have hflatten := streamBatches_flatten content
  have hne := cutBatches_ne_nil (LineCut.complete 10 content) []
  unfold firstBatch
  unfold streamBatches at hflatten ⊢
  cases hcut : (cutBatches (LineCut.complete 10 content) []).1 with
  | nil =>
    rw [hcut, nil_append, flatten_singleton] at hflatten
    rw [nil_append, hflatten]
    exact ⟨[], by simp [h]⟩
  | cons flushed others =>
    rw [hcut] at hne
    have hflushed := hne flushed mem_cons_self
    rw [cons_append, filter_cons_of_pos (by simpa using hflushed)]
    exact ⟨_, rfl⟩

section

variable {engine : Engine} {test : Predicate → Text → Bool} {adapter : LanguageAdapter} {blob : Blob} {spec : SearchSpec}

theorem flushBatch_returns {scored : Scored} {batch : Text} (hbatch : batch ≠ []) :
    (∃ result, flushBatch adapter blob spec scored batch = .ok result) ↔
      (scored.fileExcluded = true ∨ ∃ result, documentExcludedEx adapter batch spec.mustNot scored.unavailable = .ok result) ∧
        ∃ result, scoreContentEx adapter batch blob spec.contentMust spec.should spec.mustNot false = .ok result := by
  unfold flushBatch
  rw [if_neg hbatch]
  constructor
  · rintro ⟨result, h⟩
    obtain ⟨excluded, hexcluded, h⟩ := bind_ok h
    obtain ⟨found, hfound, -⟩ := bind_ok h
    refine ⟨?_, found, hfound⟩
    split at hexcluded
    next hfile => exact Or.inl hfile
    next => exact Or.inr ⟨excluded, hexcluded⟩
  · rintro ⟨hexcluded, found, hfound⟩
    cases hfile : scored.fileExcluded with
    | true =>
      simp only [if_true, pure, Except.pure, bind, Except.bind, hfound]
      exact ⟨_, rfl⟩
    | false =>
      obtain ⟨excluded, hexcluded⟩ := hexcluded.resolve_left (by rw [hfile]; exact Bool.false_ne_true)
      simp only [Bool.false_eq_true, if_false, hexcluded, bind, Except.bind, hfound]
      exact ⟨_, rfl⟩

variable {scored : Scored}

theorem foldlM_flushBatch_scored {batches : List Text} {scored' : Scored} (hbatches : ∀ batch ∈ batches, batch ≠ [])
    (h : batches.foldlM (flushBatch adapter blob spec) scored = .ok scored') : ∀ batch ∈ batches,
      ∃ result, scoreContentEx adapter batch blob spec.contentMust spec.should spec.mustNot false = .ok result := by
  induction batches generalizing scored with
  | nil => simp
  | cons batch rest ih =>
    rw [foldlM_cons] at h
    obtain ⟨next, hnext, h⟩ := bind_ok h
    have hown := (flushBatch_returns (hbatches batch mem_cons_self)).mp ⟨next, hnext⟩
    intro other hother
    rcases mem_cons.mp hother with rfl | hother
    · exact hown.2
    · exact ih (fun other hother => hbatches other (mem_cons_of_mem _ hother)) h other hother

theorem flushBatch_excluded {scored' : Scored} {batch : Text}
    (h : flushBatch adapter blob spec scored batch = .ok scored') :
    (scored.fileExcluded = true → scored'.fileExcluded = true) ∧
      (batch ≠ [] → scored.fileExcluded = false → scored'.fileExcluded = false →
        ∃ flagged, documentExcludedEx adapter batch spec.mustNot scored.unavailable = .ok (false, flagged)) := by
  unfold flushBatch at h
  split at h
  next hempty =>
    cases h
    exact ⟨id, fun hne => absurd hempty hne⟩
  next =>
    obtain ⟨⟨excluded, unavailable⟩, hexcluded, h⟩ := bind_ok h
    obtain ⟨⟨found, flagged⟩, -, h⟩ := bind_ok h
    cases h
    split at hexcluded
    next hfile =>
      cases hexcluded
      exact ⟨fun _ => rfl, fun _ hnot => absurd hfile (by rw [hnot]; exact Bool.false_ne_true)⟩
    next hfile =>
      refine ⟨fun hfile' => absurd hfile' hfile, ?_⟩
      intro _ _ hnot
      change excluded = false at hnot
      subst hnot
      exact ⟨unavailable, hexcluded⟩

/-- Once the file is excluded, or no excluded pattern is broken, only the scoring of a batch can raise. -/
theorem foldlM_flushBatch_returns {batches : List Text} (hbatches : ∀ batch ∈ batches, batch ≠ [])
    (hscores : ∀ batch ∈ batches,
      ∃ result, scoreContentEx adapter batch blob spec.contentMust spec.should spec.mustNot false = .ok result)
    (h : scored.fileExcluded = true ∨ ∀ batch ∈ batches, ∀ unavailable,
      ∃ result, documentExcludedEx adapter batch spec.mustNot unavailable = .ok result) :
    ∃ scored', batches.foldlM (flushBatch adapter blob spec) scored = .ok scored' := by
  induction batches generalizing scored with
  | nil => exact ⟨scored, rfl⟩
  | cons batch rest ih =>
    have hown : ∃ result, flushBatch adapter blob spec scored batch = .ok result := by
      refine (flushBatch_returns (hbatches batch mem_cons_self)).mpr ⟨?_, hscores batch mem_cons_self⟩
      exact h.imp id fun hall => hall batch mem_cons_self scored.unavailable
    obtain ⟨next, hnext⟩ := hown
    rw [foldlM_cons, hnext]
    refine ih (fun other hother => hbatches other (mem_cons_of_mem _ hother))
      (fun other hother => hscores other (mem_cons_of_mem _ hother)) ?_
    exact h.imp (flushBatch_excluded hnext).1 fun hall other hother => hall other (mem_cons_of_mem _ hother)

end

section

variable {engine : Engine} {test : Predicate → Text → Bool} {adapter : LanguageAdapter} {blob : Blob} {spec : SearchSpec}
  {content : Text}

/-- The stream returns the matches that document exclusion and scoring in memory return. -/
def StreamsAlike (adapter : LanguageAdapter) (blob : Blob) (spec : SearchSpec) (sha1 : Bytes → Text) (size : Nat)
    (chunks : List Bytes) : Prop :=
  ∀ found flagged, scoreInMemory adapter blob spec (Utf8.decodeReplace chunks.flatten) = .ok (found, flagged) →
    ∃ flagged', scoreBlobStream adapter blob spec sha1 size chunks = .ok (found, false, flagged')

/-- An excluded document that the stream still evaluates a pattern on that does not compile: a required one, an excluded
one that is reached in the first batch, or an excluded or optional one that is reached on a line with all required ones. -/
def RaisesWhenExcluded (adapter : LanguageAdapter) (engine : Engine) (spec : SearchSpec) (content : Text) : Prop :=
  (∃ flagged, documentExcludedEx adapter content spec.mustNot false = .ok (true, flagged)) ∧
    ((∃ pred ∈ spec.contentMust, Broken engine pred) ∨
      (∃ err, documentExcludedEx adapter (firstBatch content) spec.mustNot false = .error err) ∨
      ∃ line ∈ plainLines content, (∀ pred ∈ spec.contentMust, Found adapter (line ++ [10]) pred) ∧
        ¬ LineScores adapter engine spec.should spec.mustNot line)

variable {line : Text}

theorem plainLines_batch {batch : Text} (hbatch : batch ∈ (streamBatches content).filter fun batch => batch ≠ [])
    (hline : line ∈ plainLines batch) : line ∈ plainLines content := by
  have hlines : plainLines content = _ := (shownAlike_plain content).lines
  rw [hlines]
  exact mem_flatMap.mpr ⟨batch, hbatch, hline⟩

theorem exists_batch (hline : line ∈ plainLines content) :
    ∃ batch ∈ (streamBatches content).filter fun batch => batch ≠ [], line ∈ plainLines batch := by
  have hlines : plainLines content = _ := (shownAlike_plain content).lines
  rw [hlines] at hline
  exact mem_flatMap.mp hline

theorem TestsPlain.found_iff (htests : TestsPlain adapter engine test) {text : Text} (hshort : ¬ Overlong (plainLines text))
    {pred : Predicate} (hkind : pred.kind ≠ .path) :
    Found adapter text pred ↔ ¬ Broken engine pred ∧ ∃ line ∈ plainLines text, test pred line = true := by
  constructor
  · rintro ⟨result, hresult, hne⟩
    have hunbroken : ¬ Broken engine pred := by
      intro hbroken
      rw [htests.single_broken hshort hbroken] at hresult
      cases hresult
    rw [htests.single_unbroken hshort hunbroken] at hresult
    cases hresult
    exact ⟨hunbroken, (single_ne_nil hkind).mp hne⟩
  · rintro ⟨hunbroken, hline⟩
    exact ⟨_, htests.single_unbroken hshort hunbroken, (single_ne_nil hkind).mpr hline⟩

theorem short_of_subset {lines lines' : List Text} (h : ¬ Overlong lines) (hsub : ∀ line ∈ lines', line ∈ lines) :
    ¬ Overlong lines' := by
  rintro ⟨line, hline, hlong⟩
  exact h ⟨line, hsub line hline, hlong⟩

theorem TestsPlain.line_found (htests : TestsPlain adapter engine test) (hshort : ¬ Overlong (plainLines content)) (hline : line ∈ plainLines content) :
    (∀ pred ∈ spec.contentMust, Found adapter (line ++ [10]) pred) ↔
      ∀ pred ∈ spec.contentMust, ¬ Broken engine pred ∧ test pred line = true := by
  have hsingle := plainLines_single (plainLines_break hline)
  have hshort' : ¬ Overlong (plainLines (line ++ [10])) := by
    rw [hsingle]
    exact short_of_subset hshort (by simpa using hline)
  refine forall₂_congr ?_
  intro pred hpred
  rw [htests.found_iff hshort' (contentMust_kind hpred), hsingle]
  simp

/-- The batches of an excluded document are scored exactly when no broken pattern is reached. -/
theorem TestsPlain.excluded_returns (htests : TestsPlain adapter engine test) (hshort : ¬ Overlong (plainLines content))
    (hmust : spec.contentMust ≠ []) (hcontent : content ≠ []) :
    (∃ scored, scoreBatches adapter blob spec content = .ok scored) ↔
      ¬ ((∃ pred ∈ spec.contentMust, Broken engine pred) ∨
        (∃ err, documentExcludedEx adapter (firstBatch content) spec.mustNot false = .error err) ∨
        ∃ line ∈ plainLines content, (∀ pred ∈ spec.contentMust, Found adapter (line ++ [10]) pred) ∧
          ¬ LineScores adapter engine spec.should spec.mustNot line) := by
  obtain ⟨rest, hrest⟩ := firstBatch_spec hcontent
  have hne : ∀ batch ∈ (streamBatches content).filter (fun batch => decide (batch ≠ [])), batch ≠ [] := by
    intro batch hbatch
    simpa using (mem_filter.mp hbatch).2
  have hbatchShort : ∀ batch ∈ (streamBatches content).filter (fun batch => decide (batch ≠ [])),
      ¬ Overlong (plainLines batch) := fun batch hbatch =>
    short_of_subset hshort fun line hline => plainLines_batch hbatch hline
  have hreturns := fun batch hbatch => @TestsPlain.content_returns engine test adapter batch blob spec.contentMust spec.should
    spec.mustNot htests (hbatchShort batch hbatch) hmust fun pred hpred => contentMust_kind hpred
  have hfirst : firstBatch content ∈ (streamBatches content).filter (fun batch => decide (batch ≠ [])) := by
    rw [hrest]
    exact mem_cons_self
  unfold scoreBatches
  rw [foldlM_flushBatch_filter]
  constructor
  · rintro ⟨scored, hrun⟩
    have hscored := foldlM_flushBatch_scored hne hrun
    rintro (⟨pred, hpred, hbroken⟩ | ⟨err, herror⟩ | ⟨line, hline, hfound, hraises⟩)
    · exact ((hreturns _ hfirst).mp (hscored _ hfirst)).1 pred hpred hbroken
    · rw [hrest, foldlM_cons] at hrun
      obtain ⟨next, hnext, -⟩ := bind_ok hrun
      obtain ⟨hexcluded, -⟩ := (flushBatch_returns (hne _ hfirst)).mp ⟨next, hnext⟩
      obtain ⟨result, hresult⟩ := hexcluded.resolve_left (by simp)
      rw [herror] at hresult
      cases hresult
    · obtain ⟨batch, hbatch, hown⟩ := exists_batch hline
      rw [htests.line_found hshort hline] at hfound
      exact hraises (((hreturns batch hbatch).mp (hscored batch hbatch)).2 line hown fun pred hpred => (hfound pred hpred).2)
  · intro hnone
    rw [not_or, not_or] at hnone
    obtain ⟨hunbroken, hexclusion, hlines⟩ := hnone
    push Not at hunbroken
    have hscores : ∀ batch ∈ (streamBatches content).filter (fun batch => decide (batch ≠ [])),
        ∃ result, scoreContentEx adapter batch blob spec.contentMust spec.should spec.mustNot false = .ok result := by
      intro batch hbatch
      refine (hreturns batch hbatch).mpr ⟨hunbroken, ?_⟩
      intro line hline hall
      by_contra hraises
      have hin := plainLines_batch hbatch hline
      refine hlines ⟨line, hin, ?_, hraises⟩
      rw [htests.line_found hshort hin]
      exact fun pred hpred => ⟨hunbroken pred hpred, hall pred hpred⟩
    obtain ⟨result, hresult⟩ : ∃ result, documentExcludedEx adapter (firstBatch content) spec.mustNot false = .ok result := by
      cases hdocument : documentExcludedEx adapter (firstBatch content) spec.mustNot false with
      | ok result => exact ⟨result, rfl⟩
      | error err => exact absurd ⟨err, hdocument⟩ hexclusion
    obtain ⟨next, hnext⟩ := (@flushBatch_returns adapter blob spec {} (firstBatch content) (hne _ hfirst)).mpr
      ⟨Or.inr ⟨result, hresult⟩, hscores _ hfirst⟩
    rw [hrest] at hscores hne hbatchShort ⊢
    rw [foldlM_cons, hnext]
    refine foldlM_flushBatch_returns (fun batch hbatch => hne batch (mem_cons_of_mem _ hbatch))
      (fun batch hbatch => hscores batch (mem_cons_of_mem _ hbatch)) ?_
    cases hfile : next.fileExcluded with
    | true => exact Or.inl rfl
    | false =>
      right
      obtain ⟨flagged, hkept⟩ := (flushBatch_excluded hnext).2 (hne _ mem_cons_self) rfl hfile
      have hall := htests.document_kept (hbatchShort _ mem_cons_self) hkept
      intro batch hbatch unavailable
      refine htests.document_returns (hbatchShort batch (mem_cons_of_mem _ hbatch)) ?_ unavailable
      intro pred hpred hbroken
      exact (hall pred hpred hbroken.kind).1 hbroken

theorem TestsPlain.excluded_run (htests : TestsPlain adapter engine test) (hshort : ¬ Overlong (plainLines content))
    {flagged : Bool} {scored : Scored} (hexcluded : documentExcludedEx adapter content spec.mustNot false = .ok (true, flagged))
    (hrun : scoreBatches adapter blob spec content = .ok scored) : scored.fileExcluded = true := by
  obtain ⟨pred, hpred, hkind, hunbroken, line, hline, htest⟩ := htests.document_excluded hshort hexcluded
  obtain ⟨batch, hbatch, hown⟩ := exists_batch hline
  obtain ⟨hin, hne⟩ := mem_filter.mp hbatch
  have hstart : Kept adapter blob spec [] {} := ⟨by simp, by simp, by simp⟩
  have hkept := foldlM_flushBatch_kept hstart hrun
  rw [nil_append] at hkept
  by_contra hnot
  refine hkept.mustNot (eq_false_of_ne_true hnot) batch hin (by simpa using hne) pred hpred hkind ?_
  have hshort' := short_of_subset hshort fun line hline => plainLines_batch hbatch hline
  exact (htests.found_iff hshort' hkind).mpr ⟨hunbroken, line, hown, htest⟩

/-- A document that is not excluded gives the same matches in a stream. -/
theorem TestsPlain.kept_run (htests : TestsPlain adapter engine test) (hshort : ¬ Overlong (plainLines content))
    (hwhole : spec.wholeFileMust = false) (hmust : spec.contentMust ≠ []) {flagged : Bool}
    (hexcluded : documentExcludedEx adapter content spec.mustNot false = .ok (false, flagged))
    (hscore : ∃ result, scoreContentEx adapter content blob spec.contentMust spec.should spec.mustNot false = .ok result) :
    ∃ scored found, scoreBatches adapter blob spec content = .ok scored ∧
      scoreInMemory adapter blob spec content = .ok (found, false) ∧ scored.outcome = (found, false, false) := by
  have hnot := htests.document_kept hshort hexcluded
  obtain ⟨hunbroken, hlines⟩ := (htests.content_returns hshort hmust fun pred hpred => contentMust_kind hpred).mp hscore
  have hdriver : driver spec.contentMust spec.should = spec.contentMust := by
    unfold driver
    rw [if_neg hmust]
  have hpreds : contentPreds spec.contentMust = spec.contentMust := by
    unfold contentPreds
    rw [filter_eq_self]
    intro pred hpred
    simpa using contentMust_kind hpred
  refine htests.agree hwhole (Or.inl hmust) (shownAlike_plain content) ?_ ?_ ?_
  · rw [hdriver, hpreds]
    exact fun pred hpred => ⟨hunbroken pred hpred, fun _ => hshort⟩
  · exact fun pred hpred hkind => ⟨(hnot pred hpred hkind).1, fun _ => hshort⟩
  · rw [hdriver]
    intro hsome pred hpred _
    refine ⟨?_, fun _ => hshort⟩
    obtain ⟨line, hline, hall⟩ := (shownSpans_ne_nil (by rw [hpreds]; exact hmust)).mp hsome
    rw [hpreds] at hall
    rcases hlines line hline hall with ⟨flagged', hline'⟩ | ⟨-, hshould⟩
    · have hshort' : ¬ Overlong (plainLines (line ++ [10])) := by
        rw [plainLines_single (plainLines_break hline)]
        exact short_of_subset hshort (by simpa using hline)
      obtain ⟨other, hother, hkind, -, line', hin, htest⟩ := htests.document_excluded hshort' hline'
      rw [plainLines_single (plainLines_break hline), mem_singleton] at hin
      rw [hin, (hnot other hother hkind).2 line hline] at htest
      cases htest
    · exact hshould pred hpred

theorem TestsPlain.alike_iff (htests : TestsPlain adapter engine test) {sha1 : Bytes → Text} {size : Nat}
    {chunks : List Bytes} (hwhole : spec.wholeFileMust = false) (hmust : spec.contentMust ≠ [])
    (hlines : ∀ line ∈ (Utf8.decodeReplace chunks.flatten).splitOn 10, line.length ≤ maxRegexLineLength)
    (hbytes : ∀ part ∈ chunks.flatten.splitOn 10, part.length ≤ maxLineBytes) (hsize : size = chunks.flatten.length)
    (hsha : sha1 (blobHeader size ++ chunks.flatten) = blob.blobSha) :
    StreamsAlike adapter blob spec sha1 size chunks ↔
      ¬ RaisesWhenExcluded adapter engine spec (Utf8.decodeReplace chunks.flatten) := by
  have hcap : maxRegexLineLength ≤ maxLineBytes := by decide
  have hstream := @scoreBlobStream_eq adapter blob spec size sha1 chunks hwhole hsize hsha hbytes fun line hline =>
    (hlines line hline).trans hcap
  unfold StreamsAlike
  rw [hstream]
  clear hstream
  generalize Utf8.decodeReplace chunks.flatten = content at hlines ⊢
  have hshort : ¬ Overlong (plainLines content) := by
    rintro ⟨line, hline, hlong⟩
    have := hlines line (contentLines_subset hline)
    omega
  unfold RaisesWhenExcluded
  cases hexcluded : documentExcludedEx adapter content spec.mustNot false with
  | error err =>
    have hmemory : scoreInMemory adapter blob spec content = .error err := by
      unfold scoreInMemory
      rw [hexcluded]
      rfl
    rw [hmemory]
    simp
  | ok result =>
    obtain ⟨excluded, flagged⟩ := result
    cases excluded with
    | false =>
      refine iff_of_true ?_ (by simp)
      intro found flagged' hmemory
      have hscore : ∃ result, scoreContentEx adapter content blob spec.contentMust spec.should spec.mustNot false =
          .ok result := by
        unfold scoreInMemory at hmemory
        rw [hexcluded, hwhole] at hmemory
        obtain ⟨first, hfirst, hmemory⟩ := bind_ok hmemory
        cases hfirst
        obtain ⟨result, hresult, -⟩ := bind_ok hmemory
        exact ⟨result, hresult⟩
      obtain ⟨scored, found', hrun, hmemory', houtcome⟩ :=
        @TestsPlain.kept_run engine test adapter blob spec content htests hshort hwhole hmust flagged hexcluded hscore
      rw [hmemory'] at hmemory
      cases hmemory
      rw [hrun]
      exact ⟨false, by rw [← houtcome]; rfl⟩
    | true =>
      have hcontent : content ≠ [] := by
        rintro rfl
        obtain ⟨pred, -, -, -, line, hline, -⟩ := htests.document_excluded hshort hexcluded
        simp [plainLines, contentLines] at hline
      have hmemory : scoreInMemory adapter blob spec content = .ok ([], flagged) := by
        unfold scoreInMemory
        rw [hexcluded]
        rfl
      have hreturns := @TestsPlain.excluded_returns engine test adapter blob spec content htests hshort hmust hcontent
      have hruns : (∀ found flagged', scoreInMemory adapter blob spec content = .ok (found, flagged') →
          ∃ flagged', (liftPattern (scoreBatches adapter blob spec content)).map Scored.outcome =
            .ok (found, false, flagged')) ↔ ∃ scored, scoreBatches adapter blob spec content = .ok scored := by
        rw [hmemory]
        constructor
        · intro h
          obtain ⟨flagged', hout⟩ := h [] flagged rfl
          obtain ⟨scored, hscored, -⟩ := map_ok hout
          exact ⟨scored, liftPattern_ok hscored⟩
        · rintro ⟨scored, hscored⟩ found flagged' heq
          cases heq
          rw [hscored]
          refine ⟨scored.unavailable, ?_⟩
          simp only [liftPattern, Except.map, Scored.outcome, htests.excluded_run hshort hexcluded hscored, if_true]
      rw [hruns, hreturns]
      simp

end

/-- A stream scored with an adapter on plain lines gives the matches of the whole content in memory, exactly when no
excluded document makes it evaluate a pattern that does not compile. -/
theorem lineStream_alike_iff (adapter : LineAdapter) (engine : Engine) (extension : String) (blob : Blob)
    (spec : SearchSpec) (sha1 : Bytes → Text) (size : Nat) (chunks : List Bytes) (hwhole : spec.wholeFileMust = false)
    (hmust : spec.contentMust ≠ [])
    (hlines : ∀ line ∈ (Utf8.decodeReplace chunks.flatten).splitOn 10, line.length ≤ maxRegexLineLength)
    (hbytes : ∀ part ∈ chunks.flatten.splitOn 10, part.length ≤ maxLineBytes) (hsize : size = chunks.flatten.length)
    (hsha : sha1 (blobHeader size ++ chunks.flatten) = blob.blobSha) :
    StreamsAlike (adapter.toLanguage engine extension) blob spec sha1 size chunks ↔
      ¬ RaisesWhenExcluded (adapter.toLanguage engine extension) engine spec (Utf8.decodeReplace chunks.flatten) :=
  TestsPlain.alike_iff (adapter.testsLines engine extension) hwhole hmust hlines hbytes hsize hsha

def streamBlob : Blob := ⟨chars "o/r", List.replicate 40 97, chars "a.py", List.replicate 40 98⟩

/-- A text that excludes the file, and a required signature that does not compile. -/
def brokenSpec : SearchSpec where
  must := [{ kind := .signature, value := chars "(" }]
  mustNot := [{ kind := .exactText, value := chars "x" }]

/-- A required text and an optional one. -/
def plainSpec : SearchSpec where
  must := [{ kind := .exactText, value := chars "x" }]
  should := [{ kind := .exactText, value := chars "1" }]

theorem lineStream_alike_iff_sample :
    StreamsAlike (pythonAdapter.toLanguage literalEngine ".py") streamBlob plainSpec (fun _ => List.replicate 40 98) 6
      [chars "x =", chars " 1\n"] := by
  refine (lineStream_alike_iff pythonAdapter literalEngine ".py" streamBlob plainSpec (fun _ => List.replicate 40 98) 6
    [chars "x =", chars " 1\n"] rfl (by decide) (by decide +kernel) (by decide +kernel) (by decide +kernel) rfl).mpr ?_
  rintro ⟨⟨flagged, hexcluded⟩, -⟩
  cases hexcluded

/-- In memory the file is excluded before the signature is read; the stream reads it and raises. -/
theorem excluded_stream_raises :
    ¬ StreamsAlike (pythonAdapter.toLanguage literalEngine ".py") streamBlob brokenSpec (fun _ => List.replicate 40 98) 6
      [chars "x = 1\n"] := by
  intro h
  have hmemory : scoreInMemory (pythonAdapter.toLanguage literalEngine ".py") streamBlob brokenSpec
      (Utf8.decodeReplace [chars "x = 1\n"].flatten) = .ok ([], false) := by decide +kernel
  have hstream : scoreBlobStream (pythonAdapter.toLanguage literalEngine ".py") streamBlob brokenSpec
      (fun _ => List.replicate 40 98) 6 [chars "x = 1\n"] = .error .badPattern := by decide +kernel
  obtain ⟨flagged, hresult⟩ := h [] false hmemory
  rw [hstream] at hresult
  cases hresult

end Leitir.Search
