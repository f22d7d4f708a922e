import Leitir.Base64
import Leitir.ShelfPostings

namespace Leitir.TreeHash

open List KeyedList

abbrev Text := List Char

abbrev Bytes := List Nat

/-- What stands at a path: a regular file with its bytes, or a symbolic link with the bytes of its target. -/
inductive Content
  | file (data : Bytes)
  | link (target : Bytes)
deriving DecidableEq

structure Entry where
  relative : Text
  content : Content
deriving DecidableEq

def Entry.payload (entry : Entry) : Bytes :=
  match entry.content with
  | .file data => data
  | .link target => target

def Entry.relativeBytes (entry : Entry) : Bytes := Utf8.encodeText entry.relative

def Entry.digestHex (entry : Entry) : Text := Sha256.hexdigest entry.payload

def Entry.linknameBytes (entry : Entry) : Option Bytes :=
  match entry.content with
  | .file _ => none
  | .link target => some target

def Entry.size (entry : Entry) : Nat := entry.payload.length

def ascii (text : Text) : Bytes := text.map Char.toNat

def arrow : Bytes := [32, 45, 62, 32]

def Entry.line (entry : Entry) : Bytes :=
  ascii entry.digestHex ++ (entry.linknameBytes.elim [] fun target => arrow ++ target) ++ [32, 32] ++ entry.relativeBytes

def byPath (entries : List Entry) : List Entry := sortBy (fun entry => [ascii entry.relative]) entries

def summary (entries : List Entry) : Bytes := LineCut.join 10 ((byPath entries).map Entry.line)

def treeHashPrefix : List Nat := [104, 49, 58]

def summaryDigest (entries : List Entry) : List Nat := treeHashPrefix ++ Base64.encode (Sha256.digest (summary entries))

/-- No line break in a path, and in the target of a link valid text without one. -/
structure Entry.Valid (entry : Entry) : Prop where
  relative : '\n' ∉ entry.relative
  target : ∀ target, entry.content = .link target → ∃ name, Utf8.decodeText target = some name ∧ '\n' ∉ name

section

variable {a b : Entry}

theorem digest_octets (data : Bytes) : ∀ octet ∈ Sha256.digest data, octet < 256 := by
  intro octet hoctet
  obtain ⟨word, -, hoctet⟩ := mem_flatMap.mp hoctet
  exact Sha256.octetsOf_lt hoctet

theorem hexdigest_inj {x y : Bytes} (h : Sha256.hexdigest x = Sha256.hexdigest y) : Sha256.digest x = Sha256.digest y :=
  Shelf.flatMap_hexOctet_inj (digest_octets x) (digest_octets y) h

theorem ascii_injective {x y : Text} (h : ascii x = ascii y) : x = y :=
  map_injective_iff.mpr (fun _ _ hcode => Char.toNat_inj.mp hcode) h

theorem encodeBase64_inj {x y : Bytes} (hx : ∀ octet ∈ x, octet < 256) (hy : ∀ octet ∈ y, octet < 256)
    (h : Base64.encode x = Base64.encode y) : x = y := by
  have hdecode := Base64.decode_encode hx
  rw [h, Base64.decode_encode hy] at hdecode
  exact (Option.some.inj hdecode).symm

theorem line_inj (h : a.line = b.line) : a.digestHex = b.digestHex ∧ a.linknameBytes.isSome = b.linknameBytes.isSome ∧
    (a.linknameBytes = b.linknameBytes → a.relative = b.relative) := by
  unfold Entry.line at h
  have hlength : (ascii a.digestHex).length = (ascii b.digestHex).length := by
    simp [ascii, Entry.digestHex, Sha256.length_hexdigest]
  rw [append_assoc, append_assoc, append_assoc, append_assoc] at h
  obtain ⟨hdigest, hrest⟩ := append_inj h hlength
  refine ⟨ascii_injective hdigest, ?_, ?_⟩
  · cases ha : a.linknameBytes with
    | none =>
      cases hb : b.linknameBytes with
      | none => rfl
      | some target => simp [ha, hb, arrow] at hrest
    | some target =>
      cases hb : b.linknameBytes with
      | none => simp [ha, hb, arrow] at hrest
      | some other => rfl
  · intro hlink
    rw [hlink] at hrest
    have hpath := (append_inj (append_cancel_left hrest) rfl).2
    exact Utf8.encodeText_injective hpath

theorem newline_of_encodePoint {point : Nat} (h : 10 ∈ Utf8.encodePoint point) : point = 10 := by
  unfold Utf8.encodePoint at h
  split at h
  next => exact (mem_singleton.mp h).symm
  next =>
    split at h
    next =>
      simp only [mem_cons, not_mem_nil, or_false] at h
      omega
    next =>
      split at h
      next =>
        simp only [mem_cons, not_mem_nil, or_false] at h
        omega
      next =>
        simp only [mem_cons, not_mem_nil, or_false] at h
        omega

theorem newline_of_encodeText {text : Text} (h : 10 ∈ Utf8.encodeText text) : '\n' ∈ text := by
  obtain ⟨ch, hch, hcode⟩ := mem_flatMap.mp h
  have hpoint : ch.toNat = '\n'.toNat := newline_of_encodePoint hcode
  rwa [← Char.toNat_inj.mp hpoint]

theorem mapM_mem {α β : Type} {f : α → Option β} {items : List α} {results : List β} (h : items.mapM f = some results) :
    ∀ item ∈ items, ∃ result ∈ results, f item = some result := by
  induction items generalizing results with
  | nil => exact fun item hitem => absurd hitem not_mem_nil
  | cons first rest ih =>
    rw [mapM_cons] at h
    obtain ⟨result, hresult, h⟩ := Option.bind_eq_some_iff.mp h
    obtain ⟨others, hothers, h⟩ := Option.bind_eq_some_iff.mp h
    cases h
    intro item hitem
    rcases mem_cons.mp hitem with rfl | hitem
    · exact ⟨result, mem_cons_self, hresult⟩
    · obtain ⟨other, hother, heq⟩ := ih hothers item hitem
      exact ⟨other, mem_cons_of_mem _ hother, heq⟩

theorem newline_of_decodeText {data : Bytes} {text : Text} (h : Utf8.decodeText data = some text) (hmem : 10 ∈ data) :
    '\n' ∈ text := by
  obtain ⟨points, hpoints, rfl⟩ := Option.map_eq_some_iff.mp h
  rw [← Utf8.pieces_octets (le_refl data.length)] at hmem
  obtain ⟨⟨point, octets⟩, hpiece, hoctets⟩ := mem_flatMap.mp hmem
  obtain ⟨found, hfound, heq⟩ := mapM_mem hpoints _ hpiece
  have hsome : point = some found := heq
  subst hsome
  have hcode : 10 ∈ Utf8.encodePoint found := by
    rw [← Utf8.mem_pieces_point hpiece]
    exact hoctets
  rw [newline_of_encodePoint hcode] at hfound
  exact mem_map.mpr ⟨10, hfound, rfl⟩

theorem newline_not_mem_line (h : a.Valid) : 10 ∉ a.line := by
  have hhex : ∀ d < 16, (Sha256.hexDigit d).toNat ≠ 10 := by decide
  intro hmem
  unfold Entry.line at hmem
  simp only [mem_append] at hmem
  rcases hmem with ((hmem | hmem) | hmem) | hmem
  · obtain ⟨ch, hch, hcode⟩ := mem_map.mp hmem
    obtain ⟨d, hd, rfl⟩ := Sha256.mem_hexdigest hch
    exact hhex d hd hcode
  · cases hcontent : a.content with
    | file data => simp [Entry.linknameBytes, hcontent] at hmem
    | link target =>
      obtain ⟨name, hname, hbreak⟩ := h.target target hcontent
      simp only [Entry.linknameBytes, hcontent, Option.elim_some, mem_append] at hmem
      rcases hmem with hmem | hmem
      · revert hmem
        decide
      · exact hbreak (newline_of_decodeText hname hmem)
  · revert hmem
    decide
  · exact h.relative (newline_of_encodeText hmem)

end

section

variable {xs ys : List Entry}

theorem join_inj {parts others : List Bytes} (hparts : ∀ part ∈ parts, 10 ∉ part) (hothers : ∀ part ∈ others, 10 ∉ part)
    (h : LineCut.join 10 parts = LineCut.join 10 others) : parts = others := by
  have hsplit := LineCut.splitOn_join hparts (not_mem_nil (a := 10))
  rw [h, LineCut.splitOn_join hothers not_mem_nil] at hsplit
  exact (append_cancel_right hsplit).symm

/-- The bytes that are hashed for the summary of some entries: what each of them covers, and the summary itself. -/
def hashed (entries : List Entry) : List Bytes := summary entries :: entries.map Entry.payload

def CollisionFree (inputs : List Bytes) : Prop := ∀ x ∈ inputs, ∀ y ∈ inputs, Sha256.digest x = Sha256.digest y → x = y

theorem CollisionFree.subset {inputs others : List Bytes} (h : CollisionFree inputs) (hsub : ∀ x ∈ others, x ∈ inputs) :
    CollisionFree others := fun x hx y hy heq => h x (hsub x hx) y (hsub y hy) heq

theorem eq_of_line {a b : Entry} (hfree : Sha256.digest a.payload = Sha256.digest b.payload → a.payload = b.payload)
    (h : a.line = b.line) : a = b := by
  obtain ⟨hdigest, hkind, hpath⟩ := line_inj h
  have hpayload := hfree (hexdigest_inj hdigest)
  obtain ⟨relative, content⟩ := a
  obtain ⟨relative', content'⟩ := b
  cases content with
  | file data =>
    cases content' with
    | file data' =>
      have hsame : relative = relative' := hpath rfl
      have hdata : data = data' := hpayload
      rw [hsame, hdata]
    | link target => cases hkind
  | link target =>
    cases content' with
    | file data => cases hkind
    | link target' =>
      have htarget : target = target' := hpayload
      subst htarget
      have hsame : relative = relative' := hpath rfl
      rw [hsame]

theorem eq_of_lines {xs ys : List Entry} (hfree : ∀ a ∈ xs, ∀ b ∈ ys, Sha256.digest a.payload = Sha256.digest b.payload →
    a.payload = b.payload) (h : xs.map Entry.line = ys.map Entry.line) : xs = ys := by
  induction xs generalizing ys with
  | nil => exact (map_eq_nil_iff.mp h.symm).symm
  | cons a rest ih =>
    cases ys with
    | nil => cases h
    | cons b others =>
      rw [map_cons, map_cons, List.cons.injEq] at h
      rw [eq_of_line (hfree a mem_cons_self b mem_cons_self) h.1,
        ih (fun x hx y hy => hfree x (mem_cons_of_mem _ hx) y (mem_cons_of_mem _ hy)) h.2]

theorem byPath_of_summaryDigest (hx : ∀ entry ∈ xs, entry.Valid) (hy : ∀ entry ∈ ys, entry.Valid)
    (hfree : CollisionFree (hashed xs ++ hashed ys)) (h : summaryDigest xs = summaryDigest ys) : byPath xs = byPath ys := by
  have hdigest := encodeBase64_inj (digest_octets _) (digest_octets _) (append_cancel_left h)
  have hsummary : summary xs = summary ys :=
    hfree _ (mem_append_left _ mem_cons_self) _ (mem_append_right _ mem_cons_self) hdigest
  have hlines : ∀ entries : List Entry, (∀ entry ∈ entries, entry.Valid) →
      ∀ line ∈ (byPath entries).map Entry.line, 10 ∉ line := by
    intro entries hvalid line hline
    obtain ⟨entry, hentry, rfl⟩ := mem_map.mp hline
    exact newline_not_mem_line (hvalid entry (mem_sortBy.mp hentry))
  refine eq_of_lines ?_ (join_inj (hlines xs hx) (hlines ys hy) hsummary)
  intro a ha b hb
  exact hfree _ (mem_append_left _ (mem_cons_of_mem _ (mem_map.mpr ⟨a, mem_sortBy.mp ha, rfl⟩)))
    _ (mem_append_right _ (mem_cons_of_mem _ (mem_map.mpr ⟨b, mem_sortBy.mp hb, rfl⟩)))

/-- Summaries do not collide: entries of one digest have the same paths, kinds, contents and targets. -/
theorem perm_of_summaryDigest (xs ys : List Entry) (hx : ∀ entry ∈ xs, entry.Valid) (hy : ∀ entry ∈ ys, entry.Valid)
    (hfree : CollisionFree (hashed xs ++ hashed ys)) (h : summaryDigest xs = summaryDigest ys) : xs.Perm ys := by
  have hsorted := byPath_of_summaryDigest hx hy hfree h
  exact (perm_sortBy _ xs).symm.trans ((List.Perm.of_eq hsorted).trans (perm_sortBy _ ys))

def sampleFile : Entry := ⟨['a'], .file [98]⟩

def sampleLink : Entry := ⟨['b'], .link [97]⟩

theorem valid_sample : sampleFile.Valid ∧ sampleLink.Valid := by
  refine ⟨⟨by decide, ?_⟩, ⟨by decide, ?_⟩⟩
  · intro target htarget
    cases htarget
  · intro target htarget
    cases htarget
    exact ⟨['a'], by decide, by decide⟩

theorem digests_sample : (Sha256.digest [98]).head? = some 62 ∧ (Sha256.digest [97]).head? = some 202 ∧
    (Sha256.digest (summary [sampleFile, sampleLink])).head? = some 85 := by
  decide +kernel

theorem collisionFree_sample : CollisionFree [summary [sampleFile, sampleLink], [98], [97]] := by
  obtain ⟨hfile, hlink, hsummary⟩ := digests_sample
  intro x hx y hy heq
  have hheads : ∀ {x y : Bytes} {m n : Nat}, (Sha256.digest x).head? = some m → (Sha256.digest y).head? = some n → m ≠ n →
      Sha256.digest x ≠ Sha256.digest y := by
    intro x y m n hm hn hne heq
    rw [heq, hn] at hm
    exact hne (Option.some.inj hm).symm
  simp only [mem_cons, not_mem_nil, or_false] at hx hy
  rcases hx with rfl | rfl | rfl
  · rcases hy with rfl | rfl | rfl
    · rfl
    · exact absurd heq (hheads hsummary hfile (by omega))
    · exact absurd heq (hheads hsummary hlink (by omega))
  · rcases hy with rfl | rfl | rfl
    · exact absurd heq (hheads hfile hsummary (by omega))
    · rfl
    · exact absurd heq (hheads hfile hlink (by omega))
  · rcases hy with rfl | rfl | rfl
    · exact absurd heq (hheads hlink hsummary (by omega))
    · exact absurd heq (hheads hlink hfile (by omega))
    · rfl

theorem perm_of_summaryDigest_sample : summaryDigest [sampleFile, sampleLink] = summaryDigest [sampleLink, sampleFile] ∧
    [sampleFile, sampleLink].Perm [sampleLink, sampleFile] := by
  have hsame : byPath [sampleLink, sampleFile] = byPath [sampleFile, sampleLink] := by decide
  have hsummary : summary [sampleLink, sampleFile] = summary [sampleFile, sampleLink] := by
    unfold summary
    rw [hsame]
  have hdigest : summaryDigest [sampleFile, sampleLink] = summaryDigest [sampleLink, sampleFile] := by
    unfold summaryDigest
    rw [hsummary]
  have hvalid : ∀ entry ∈ [sampleFile, sampleLink], entry.Valid := by
    rintro entry (_ | ⟨_, _ | ⟨_, ⟨⟩⟩⟩)
    · exact valid_sample.1
    · exact valid_sample.2
  refine ⟨hdigest, perm_of_summaryDigest _ _ hvalid ?_ ?_ hdigest⟩
  · exact fun entry hentry => hvalid entry ((List.Perm.swap _ _ _).mem_iff.mp hentry)
  · refine collisionFree_sample.subset ?_
    intro x hx
    simp only [hashed, hsummary, map_cons, map_nil, cons_append, nil_append, mem_cons,
      not_mem_nil, or_false] at hx ⊢
    rcases hx with h | h | h | h | h | h
    · exact .inl h
    · exact .inr (.inl h)
    · exact .inr (.inr h)
    · exact .inl h
    · exact .inr (.inr h)
    · exact .inr (.inl h)

end

end Leitir.TreeHash
