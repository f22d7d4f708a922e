import Leitir.SearchStream

namespace Leitir.Search

open ExceptRun List LineCut

/-- The batches that complete lines fill, and the batch that is left. -/
def cutBatches : List Text → Text → List Text × Text
  | [], batch => ([], batch)
  | line :: rest, batch =>
    if streamChunkSize ≤ (batch ++ line ++ [10]).length then
      ((batch ++ line ++ [10]) :: (cutBatches rest []).1, (cutBatches rest []).2)
    else cutBatches rest (batch ++ line ++ [10])

def streamBatches (content : Text) : List Text :=
  (cutBatches (complete 10 content) []).1 ++
    [(cutBatches (complete 10 content) []).2 ++ rest 10 content]

theorem cutBatches_append (lines more : List Text) (batch : Text) :
    cutBatches (lines ++ more) batch =
      ((cutBatches lines batch).1 ++ (cutBatches more (cutBatches lines batch).2).1,
        (cutBatches more (cutBatches lines batch).2).2) := by
  induction lines generalizing batch with
  | nil => rfl
  | cons line lines ih =>
    rw [cons_append, cutBatches, cutBatches]
    split
    next => rw [ih]; rfl
    next => exact ih _

theorem cutBatches_flatten (lines : List Text) (batch : Text) :
    (cutBatches lines batch).1.flatten ++ (cutBatches lines batch).2 = batch ++ join 10 lines := by
  induction lines generalizing batch with
  | nil => simp [cutBatches]
  | cons line lines ih =>
    rw [cutBatches]
    split
    next =>
      have h := ih []
      rw [flatten_cons, append_assoc, h]
      simp
    next =>
      rw [ih]
      simp

theorem streamBatches_flatten (content : Text) : (streamBatches content).flatten = content := by
  unfold streamBatches
  rw [flatten_append, flatten_singleton, ← append_assoc, cutBatches_flatten, nil_append,
    join_complete]

section

variable {adapter : LanguageAdapter} {blob : Blob} {spec : SearchSpec}

theorem liftPattern_bind {α β : Type} (x : Except PatternError α) (f : α → Except PatternError β) :
    liftPattern (x >>= f) = liftPattern x >>= fun a => liftPattern (f a) := by
  cases x with
  | ok value => rfl
  | error err => cases err; rfl

theorem liftPattern_ok {α : Type} {x : Except PatternError α} {value : α} (h : liftPattern x = .ok value) :
    x = .ok value := by
  cases x with
  | ok value' =>
    cases h
    rfl
  | error err =>
    cases err
    cases h

theorem consumeLines_eq {lines : List Text} (hshort : ∀ line ∈ lines, line.length ≤ maxLineBytes) (batch : Text)
    (scored : Scored) :
    consumeLines adapter blob spec lines batch scored =
      (liftPattern ((cutBatches lines batch).1.foldlM (flushBatch adapter blob spec) scored)).map
        fun scored => ((cutBatches lines batch).2, scored) := by
  induction lines generalizing batch scored with
  | nil => rfl
  | cons line lines ih =>
    have hline : ¬ maxLineBytes < line.length := Nat.not_lt.mpr (hshort line mem_cons_self)
    have hrest : ∀ line ∈ lines, line.length ≤ maxLineBytes := fun other h => hshort other (mem_cons_of_mem _ h)
    rw [consumeLines, if_neg hline, cutBatches]
    split
    next =>
      rw [foldlM_cons, liftPattern_bind]
      cases liftPattern (flushBatch adapter blob spec scored (batch ++ line ++ [10])) with
      | error err => rfl
      | ok scored => exact ih hrest [] scored
    next => exact ih hrest _ scored

theorem consumeLines_short {lines : List Text} {batch : Text} {scored : Scored} {result : Text × Scored}
    (h : consumeLines adapter blob spec lines batch scored = .ok result) :
    ∀ line ∈ lines, line.length ≤ maxLineBytes := by
  induction lines generalizing batch scored with
  | nil => simp
  | cons line lines ih =>
    rw [consumeLines] at h
    split at h
    next => cases h
    next hline =>
      have hrest : ∀ line ∈ lines, line.length ≤ maxLineBytes := by
        split at h
        next =>
          obtain ⟨_, -, h⟩ := bind_ok h
          exact ih h
        next => exact ih h
      intro other hother
      rcases mem_cons.mp hother with rfl | hother
      · exact Nat.not_lt.mp hline
      · exact hrest other hother

end

section

variable {adapter : LanguageAdapter} {blob : Blob} {spec : SearchSpec} {size : Nat}

def chunkText (state : StreamState) (chunk : Bytes) : Text := state.buffer ++ (Utf8.decodeMore state.kept chunk).1

/-- A chunk that no limit rejects. -/
structure Fits (size : Nat) (state : StreamState) (chunk : Bytes) : Prop where
  received : state.received + chunk.length ≤ size
  firstBytes : state.lineBytes + ((chunk.splitOn 10).headD []).length ≤ maxLineBytes
  otherBytes : ∀ part ∈ (chunk.splitOn 10).tail, part.length ≤ maxLineBytes
  lines : ∀ line ∈ (chunkText state chunk).splitOn 10, line.length ≤ maxLineBytes

def chunkBatches (state : StreamState) (chunk : Bytes) : List Text × Text :=
  cutBatches (complete 10 (chunkText state chunk)) state.batch

/-- The state after a chunk. -/
def advance (state : StreamState) (chunk : Bytes) (scored : Scored) : StreamState where
  received := state.received + chunk.length
  kept := (Utf8.decodeMore state.kept chunk).2
  buffer := rest 10 (chunkText state chunk)
  batch := (chunkBatches state chunk).2
  lineBytes :=
    if (chunk.splitOn 10).tail = [] then state.lineBytes + ((chunk.splitOn 10).headD []).length
    else ((chunk.splitOn 10).getLastD []).length
  scored := scored

variable {state : StreamState} {chunk : Bytes}

theorem consumeChunk_eq (hfits : Fits size state chunk) :
    consumeChunk adapter blob spec size state chunk =
      (liftPattern ((chunkBatches state chunk).1.foldlM (flushBatch adapter blob spec) state.scored)).map
        (advance state chunk) := by
  have hlines := hfits.lines
  rw [splitOn_eq] at hlines
  have hshort : ∀ line ∈ complete 10 (chunkText state chunk), line.length ≤ maxLineBytes :=
    fun line h => hlines line (mem_append_left _ h)
  have hrest : (rest 10 (chunkText state chunk)).length ≤ maxLineBytes :=
    hlines _ (mem_append_right _ mem_cons_self)
  have hother : ¬ ((chunk.splitOn 10).tail.any fun part => decide (maxLineBytes < part.length)) = true := by
    rw [any_eq_true]
    rintro ⟨part, hpart, hlong⟩
    have := hfits.otherBytes part hpart
    simp only [decide_eq_true_eq] at hlong
    omega
  unfold consumeChunk
  dsimp only
  rw [if_neg (Nat.not_lt.mpr hfits.received), if_neg (Nat.not_lt.mpr hfits.firstBytes), if_neg hother]
  change (consumeLines adapter blob spec (complete 10 (chunkText state chunk)) state.batch state.scored >>= _) = _
  rw [consumeLines_eq hshort]
  unfold chunkBatches
  cases liftPattern (List.foldlM (flushBatch adapter blob spec) state.scored
    (cutBatches (complete 10 (chunkText state chunk)) state.batch).1) with
  | error err => rfl
  | ok scored =>
    change (if maxLineBytes < (rest 10 (chunkText state chunk)).length then _ else _) = _
    rw [if_neg (Nat.not_lt.mpr hrest)]
    rfl

theorem consumeChunk_fits {state' : StreamState}
    (h : consumeChunk adapter blob spec size state chunk = .ok state') : Fits size state chunk := by
  unfold consumeChunk at h
  dsimp only at h
  split at h
  next => cases h
  next hreceived =>
    split at h
    next => cases h
    next hfirst =>
      split at h
      next => cases h
      next hother =>
        obtain ⟨⟨batch, scored⟩, hconsume, h⟩ := bind_ok h
        split at h
        next => cases h
        next hrest =>
          refine ⟨Nat.not_lt.mp hreceived, Nat.not_lt.mp hfirst, ?_, ?_⟩
          · intro part hpart
            by_contra hlong
            exact hother (any_eq_true.mpr ⟨part, hpart, by simpa using hlong⟩)
          · intro line hline
            rw [splitOn_eq] at hline
            rcases mem_append.mp hline with hline | hline
            · exact consumeLines_short hconsume line hline
            · rw [mem_singleton.mp hline]
              exact Nat.not_lt.mp hrest

theorem consumeChunk_ok {state' : StreamState}
    (h : consumeChunk adapter blob spec size state chunk = .ok state') :
    ∃ scored, (chunkBatches state chunk).1.foldlM (flushBatch adapter blob spec) state.scored = .ok scored ∧
      state' = advance state chunk scored := by
  rw [consumeChunk_eq (consumeChunk_fits h)] at h
  obtain ⟨scored, hscored, rfl⟩ := map_ok h
  exact ⟨scored, liftPattern_ok hscored, rfl⟩

end

section

variable {adapter : LanguageAdapter} {blob : Blob} {spec : SearchSpec} {size : Nat}

/-- What a state holds after the chunks of some data, of which a text has been decoded. -/
structure Tracks (data : Bytes) (text : Text) (state : StreamState) : Prop where
  decoded : ∀ more, Utf8.decodeReplace (data ++ more) = text ++ Utf8.decodeReplace (state.kept ++ more)
  kept : state.kept = [] ∨ Utf8.truncated state.kept = true
  received : state.received = data.length
  buffer : state.buffer = rest 10 text
  batch : state.batch = (cutBatches (complete 10 text) []).2
  lineBytes : state.lineBytes = (rest 10 data).length

theorem tracks_start : Tracks [] [] {} := by
  refine ⟨fun _ => rfl, Or.inl rfl, rfl, rfl, rfl, rfl⟩

variable {data : Bytes} {text : Text} {state : StreamState}

theorem Tracks.cut (h : Tracks data text state) (chunk : Bytes) :
    complete 10 (text ++ (Utf8.decodeMore state.kept chunk).1) =
        complete 10 text ++ complete 10 (chunkText state chunk) ∧
      rest 10 (text ++ (Utf8.decodeMore state.kept chunk).1) = rest 10 (chunkText state chunk) := by
  have hcut := @cut_append _ 10 _ text (Utf8.decodeMore state.kept chunk).1
  rw [← h.buffer] at hcut
  exact hcut

theorem Tracks.batches (h : Tracks data text state) (chunk : Bytes) :
    cutBatches (complete 10 (text ++ (Utf8.decodeMore state.kept chunk).1)) [] =
      ((cutBatches (complete 10 text) []).1 ++ (chunkBatches state chunk).1, (chunkBatches state chunk).2) := by
  rw [(h.cut chunk).1, cutBatches_append, ← h.batch]
  rfl

theorem rest_length (data chunk : Bytes) :
    (rest 10 (data ++ chunk)).length =
      if (chunk.splitOn 10).tail = [] then (rest 10 data).length + ((chunk.splitOn 10).headD []).length
      else ((chunk.splitOn 10).getLastD []).length := by
  have hsplit := splitOn_append_of_not_mem (@not_mem_rest _ 10 _ data) chunk
  obtain ⟨first, others, hchunk⟩ := exists_cons_of_ne_nil (splitOn_ne_nil 10 chunk)
  rw [(cut_append data chunk).2]
  unfold rest at hsplit ⊢
  rw [hsplit, hchunk]
  cases others with
  | nil => simp
  | cons other others => simp

theorem Tracks.next (h : Tracks data text state) (chunk : Bytes)
    (scored : Scored) :
    Tracks (data ++ chunk) (text ++ (Utf8.decodeMore state.kept chunk).1) (advance state chunk scored) := by
  refine ⟨?_, ?_, ?_, ?_, ?_, ?_⟩
  · intro more
    rw [append_assoc, h.decoded, ← append_assoc state.kept, Utf8.feed_append le_rfl, append_assoc]
    rfl
  · exact Utf8.feed_kept le_rfl
  · rw [length_append, ← h.received]
    rfl
  · exact (h.cut chunk).2.symm
  · rw [h.batches chunk]
    rfl
  · rw [rest_length, ← h.lineBytes]
    rfl

/-- The limits hold for a chunk where they hold for all data. -/
theorem Tracks.fits {more : Bytes} (h : Tracks data text state) (chunk : Bytes)
    (hsize : (data ++ chunk ++ more).length ≤ size)
    (hbytes : ∀ part ∈ (data ++ chunk ++ more).splitOn 10, part.length ≤ maxLineBytes)
    (hlines : ∀ line ∈ (Utf8.decodeReplace (data ++ chunk ++ more)).splitOn 10, line.length ≤ maxLineBytes) :
    Fits size state chunk := by
  have hparts : ∀ part ∈ (rest 10 data ++ chunk).splitOn 10, part.length ≤ maxLineBytes := by
    intro part hpart
    have hmem : part ∈ (data ++ chunk).splitOn 10 := by
      rw [splitOn_eq, (cut_append data chunk).1, (cut_append data chunk).2, append_assoc,
        ← splitOn_eq]
      exact mem_append_right _ hpart
    obtain ⟨whole, hwhole, hprefix⟩ := part_of_append more hmem
    exact hprefix.length_le.trans (hbytes whole hwhole)
  rw [splitOn_append_of_not_mem (not_mem_rest data)] at hparts
  refine ⟨?_, ?_, ?_, ?_⟩
  · rw [h.received]
    simp only [length_append] at hsize
    omega
  · have hfirst := hparts _ mem_cons_self
    rw [length_append, ← h.lineBytes] at hfirst
    exact hfirst
  · exact fun part hpart => hparts part (mem_cons_of_mem _ hpart)
  · intro line hline
    have hmem : line ∈ (text ++ (Utf8.decodeMore state.kept chunk).1).splitOn 10 := by
      rw [splitOn_eq, (h.cut chunk).1, (h.cut chunk).2, append_assoc, ← splitOn_eq]
      exact mem_append_right _ hline
    obtain ⟨whole, hwhole, hprefix⟩ :=
      part_of_append (Utf8.decodeReplace ((advance state chunk state.scored).kept ++ more)) hmem
    rw [← (h.next chunk state.scored).decoded more] at hwhole
    exact hprefix.length_le.trans (hlines whole hwhole)

/-- Chunks within the limits score the batches that their text fills. -/
theorem consumeChunks_eq {chunks : List Bytes} {data : Bytes} {text : Text} {state : StreamState}
    (h : Tracks data text state) (hsize : (data ++ chunks.flatten).length ≤ size)
    (hbytes : ∀ part ∈ (data ++ chunks.flatten).splitOn 10, part.length ≤ maxLineBytes)
    (hlines : ∀ line ∈ (Utf8.decodeReplace (data ++ chunks.flatten)).splitOn 10, line.length ≤ maxLineBytes) :
    ∃ text' flushed final,
      chunks.foldlM (consumeChunk adapter blob spec size) state =
        (liftPattern (flushed.foldlM (flushBatch adapter blob spec) state.scored)).map final ∧
      (∀ scored, Tracks (data ++ chunks.flatten) text' (final scored) ∧ (final scored).scored = scored) ∧
      (cutBatches (complete 10 text') []).1 = (cutBatches (complete 10 text) []).1 ++ flushed := by
  induction chunks generalizing data text state with
  | nil =>
    refine ⟨text, [], fun scored => { state with scored := scored }, rfl, ?_, by simp⟩
    intro scored
    rw [flatten_nil, append_nil]
    exact ⟨⟨h.decoded, h.kept, h.received, h.buffer, h.batch, h.lineBytes⟩, rfl⟩
  | cons chunk chunks ih =>
    rw [flatten_cons, ← append_assoc] at hsize hbytes hlines ⊢
    rw [foldlM_cons, consumeChunk_eq (h.fits chunk hsize hbytes hlines)]
    have hnext := fun scored => ih (h.next chunk scored) hsize hbytes hlines
    cases hflush : (chunkBatches state chunk).1.foldlM (flushBatch adapter blob spec) state.scored with
    | error err =>
      obtain ⟨text', flushed, final, -, htracks, hcut⟩ := hnext state.scored
      refine ⟨text', (chunkBatches state chunk).1 ++ flushed, final, ?_, htracks, ?_⟩
      · rw [foldlM_append, hflush]
        cases err
        rfl
      · rw [hcut, h.batches chunk, append_assoc]
    | ok scored =>
      obtain ⟨text', flushed, final, hrun, htracks, hcut⟩ := hnext scored
      refine ⟨text', (chunkBatches state chunk).1 ++ flushed, final, ?_, htracks, ?_⟩
      · rw [foldlM_append, hflush]
        exact hrun
      · rw [hcut, h.batches chunk, append_assoc]

theorem consumeChunks_ok {chunks : List Bytes} {state' : StreamState} {start : Scored}
    (h : Tracks data text state)
    (hscored : (cutBatches (complete 10 text) []).1.foldlM (flushBatch adapter blob spec) start = .ok state.scored)
    (hrun : chunks.foldlM (consumeChunk adapter blob spec size) state = .ok state') :
    ∃ text', Tracks (data ++ chunks.flatten) text' state' ∧
      (cutBatches (complete 10 text') []).1.foldlM (flushBatch adapter blob spec) start = .ok state'.scored := by
  induction chunks generalizing data text state with
  | nil =>
    cases hrun
    rw [flatten_nil, append_nil]
    exact ⟨text, h, hscored⟩
  | cons chunk chunks ih =>
    rw [foldlM_cons] at hrun
    obtain ⟨next, hnext, hrun⟩ := bind_ok hrun
    obtain ⟨scored, hflush, rfl⟩ := consumeChunk_ok hnext
    rw [flatten_cons, ← append_assoc]
    refine ih (h.next chunk scored) ?_ hrun
    rw [h.batches chunk, foldlM_append, hscored]
    exact hflush

theorem Tracks.last_cut (h : Tracks data text state) :
    complete 10 (Utf8.decodeReplace data) = complete 10 text ∧
      rest 10 (Utf8.decodeReplace data) = state.buffer ++ Utf8.decodeReplace state.kept := by
  have hcontent := h.decoded []
  rw [append_nil, append_nil] at hcontent
  have hplain : 10 ∉ Utf8.decodeReplace state.kept := by
    rcases h.kept with hnil | hkept
    · rw [hnil]
      simp [Utf8.decodeReplace, Utf8.pieces]
    · rw [Utf8.decodeReplace_truncated hkept]
      simp
  rw [hcontent, h.buffer]
  exact cut_append_of_not_mem text hplain

theorem Tracks.finish (h : Tracks data text state) :
    streamBatches (Utf8.decodeReplace data) = (cutBatches (complete 10 text) []).1 ++
      [state.batch ++ (state.buffer ++ Utf8.decodeReplace state.kept)] := by
  unfold streamBatches
  rw [h.last_cut.1, h.last_cut.2, h.batch]

theorem Tracks.last_line (h : Tracks data text state)
    (hlines : ∀ line ∈ (Utf8.decodeReplace data).splitOn 10, line.length ≤ maxLineBytes) :
    (state.buffer ++ Utf8.decodeReplace state.kept).length ≤ maxLineBytes := by
  rw [← h.last_cut.2]
  refine hlines _ ?_
  rw [splitOn_eq]
  exact mem_append_right _ mem_cons_self

def Scored.outcome (scored : Scored) : List SourceMatch × Bool × Bool :=
  (if scored.fileExcluded then [] else KeyedList.sortBy SourceMatch.identity scored.pending, false, scored.unavailable)

def scoreBatches (adapter : LanguageAdapter) (blob : Blob) (spec : SearchSpec) (content : Text) :
    Except PatternError Scored :=
  (streamBatches content).foldlM (flushBatch adapter blob spec) {}

theorem finishStream_eq {sha1 : Bytes → Text} {chunks : List Bytes} {state : StreamState}
    (hlast : (state.buffer ++ Utf8.decodeReplace state.kept).length ≤ maxLineBytes) (hreceived : state.received = size)
    (hsha : sha1 (blobHeader size ++ chunks.flatten) = blob.blobSha) :
    (do
      let (found, unavailable) ← finishStream adapter blob spec sha1 size chunks state
      pure (found, false, unavailable)) =
      (liftPattern (flushBatch adapter blob spec state.scored
        (state.batch ++ (state.buffer ++ Utf8.decodeReplace state.kept)))).map Scored.outcome := by
  unfold finishStream
  dsimp only
  rw [if_neg (Nat.not_lt.mpr hlast)]
  cases liftPattern (flushBatch adapter blob spec state.scored
    (state.batch ++ (state.buffer ++ Utf8.decodeReplace state.kept))) with
  | error err => rfl
  | ok scored =>
    simp only [bind, Except.bind, hreceived, hsha, ne_eq, not_true_eq_false, if_false, Except.map, Scored.outcome]
    cases scored.fileExcluded with
    | true => rfl
    | false => rfl

/-- A stream within the limits, whose octets are those of the blob, scores the batches of the content. -/
theorem scoreBlobStream_eq {sha1 : Bytes → Text} {chunks : List Bytes} (hwhole : spec.wholeFileMust = false)
    (hsize : size = chunks.flatten.length) (hsha : sha1 (blobHeader size ++ chunks.flatten) = blob.blobSha)
    (hbytes : ∀ part ∈ chunks.flatten.splitOn 10, part.length ≤ maxLineBytes)
    (hlines : ∀ line ∈ (Utf8.decodeReplace chunks.flatten).splitOn 10, line.length ≤ maxLineBytes) :
    scoreBlobStream adapter blob spec sha1 size chunks =
      (liftPattern (scoreBatches adapter blob spec (Utf8.decodeReplace chunks.flatten))).map Scored.outcome := by
  obtain ⟨text, flushed, final, hrun, hfinal, hcut⟩ :=
    @consumeChunks_eq adapter blob spec size chunks [] [] {} tracks_start hsize.ge hbytes hlines
  rw [nil_append] at hfinal
  have hflushed : (cutBatches (complete 10 text) []).1 = flushed := hcut
  have hbatches := fun scored => (hfinal scored).1.finish
  rw [hflushed] at hbatches
  unfold scoreBlobStream scoreBatches
  rw [hwhole, if_neg Bool.false_ne_true, hrun]
  cases hscored : flushed.foldlM (flushBatch adapter blob spec) ({} : Scored) with
  | error err =>
    rw [hbatches {}, foldlM_append, hscored]
    cases err
    rfl
  | ok scored =>
    obtain ⟨htracks, hown⟩ := hfinal scored
    rw [hbatches scored, foldlM_append, hscored]
    have hfinish := @finishStream_eq adapter blob spec size sha1 chunks _ (htracks.last_line hlines)
      (htracks.received.trans hsize.symm) hsha
    rw [hown] at hfinish
    change (finishStream adapter blob spec sha1 size chunks (final scored) >>= _) = _
    rw [hfinish]
    simp only [foldlM_cons, foldlM_nil, bind_pure]
    rfl

/-- A stream that is taken to its end has scored the batches of the content. -/
theorem scoreBlobStream_ok {sha1 : Bytes → Text} {chunks : List Bytes} {result : List SourceMatch × Bool × Bool}
    (hwhole : spec.wholeFileMust = false) (h : scoreBlobStream adapter blob spec sha1 size chunks = .ok result) :
    ∃ scored, scoreBatches adapter blob spec (Utf8.decodeReplace chunks.flatten) = .ok scored ∧
      result = scored.outcome := by
  unfold scoreBlobStream at h
  rw [hwhole, if_neg Bool.false_ne_true] at h
  obtain ⟨state, hrun, h⟩ := bind_ok h
  obtain ⟨text, htracks, hscored⟩ := consumeChunks_ok tracks_start rfl hrun
  rw [nil_append] at htracks
  obtain ⟨⟨found, unavailable⟩, hfinish, h⟩ := bind_ok h
  cases h
  unfold finishStream at hfinish
  dsimp only at hfinish
  split at hfinish
  next => cases hfinish
  next =>
    obtain ⟨scored, hflush, hfinish⟩ := bind_ok hfinish
    refine ⟨scored, ?_, ?_⟩
    · unfold scoreBatches
      rw [htracks.finish, foldlM_append, hscored]
      change (flushBatch adapter blob spec state.scored _ >>= _) = _
      rw [liftPattern_ok hflush]
      rfl
    · split at hfinish
      next => cases hfinish
      next =>
        split at hfinish
        next => cases hfinish
        next =>
          unfold Scored.outcome
          split at hfinish
          next hexcluded =>
            cases hfinish
            rw [if_pos hexcluded]
          next hexcluded =>
            cases hfinish
            rw [if_neg hexcluded]

end

end Leitir.Search
