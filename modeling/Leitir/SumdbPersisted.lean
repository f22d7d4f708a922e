import Leitir.SumdbCache
import Leitir.SumdbVerify

namespace Leitir.Sumdb

open List Merkle

section

variable {sha256 : Bytes → Bytes} {server : Server}

variable {digest : Bytes} {c d : Client} {start : Nat}

theorem hash_length (model : HashModel sha256) {level number : Nat}
    (h : hash sha256 server (storedHashIndex level number) c = (.ok digest, d)) : digest.length = 32 :=
  (hash_ok h).2.length model

theorem perfectSubtreeHash_length (model : HashModel sha256) {size : Nat} (h : perfectSubtreeHash sha256 server start size c = (.ok digest, d)) :
    digest.length = 32 := by
  unfold perfectSubtreeHash at h
  obtain ⟨_, h⟩ := guard_ok.mp h
  exact hash_length model h

theorem subtreeHash_length (model : HashModel sha256) {size : Nat} (h : subtreeHash sha256 server start size c = (.ok digest, d)) :
    digest.length = 32 := by
  unfold subtreeHash subtreeHashLoop at h
  obtain ⟨_, h⟩ := guard_ok.mp h
  split at h
  next => exact perfectSubtreeHash_length model h
  next =>
    obtain ⟨left, m, _, h⟩ := bind_ok.mp h
    obtain ⟨right, m', _, h⟩ := bind_ok.mp h
    obtain ⟨rfl, _⟩ := pure_ok.mp h
    exact model.length _

theorem extend_length (model : HashModel sha256) {fuel old new : Nat} {oldHash : Bytes} (hold : oldHash.length = 32)
    (h : extend sha256 server fuel old new oldHash start c = (.ok digest, d)) : digest.length = 32 := by
  cases fuel with
  | zero => exact absurd h fail_ok
  | succ fuel =>
    unfold extend at h
    split at h
    next =>
      obtain ⟨rfl, _⟩ := pure_ok.mp h
      exact hold
    next =>
      dsimp only at h
      split at h
      next =>
        obtain ⟨left, m, _, h⟩ := bind_ok.mp h
        obtain ⟨right, m', _, h⟩ := bind_ok.mp h
        obtain ⟨rfl, _⟩ := pure_ok.mp h
        exact model.length _
      next =>
        obtain ⟨left, m, _, h⟩ := bind_ok.mp h
        obtain ⟨oldRight, m', _, h⟩ := bind_ok.mp h
        obtain ⟨_, h⟩ := guard_ok.mp h
        obtain ⟨right, m'', _, h⟩ := bind_ok.mp h
        obtain ⟨rfl, _⟩ := pure_ok.mp h
        exact model.length _

/-- When the rebuilt root is the root of a list of leaves, the old hash is the
root of its first `old` leaves, whatever the subtree reads have returned. -/
theorem extend_sound (model : HashModel sha256) {fuel old : Nat} {oldHash : Bytes}
    {leaves : List Bytes} (hpos : 0 < old) (hle : old ≤ leaves.length)
    (hold : oldHash.length = 32) (hleaves : ∀ x ∈ leaves, x.length = 32)
    (h : extend sha256 server fuel old leaves.length oldHash start c =
      (.ok (root (nodeHash sha256) (sha256 []) leaves), d)) :
    root (nodeHash sha256) (sha256 []) (leaves.take old) = oldHash := by
  induction fuel generalizing old start oldHash leaves c d with
  | zero => exact absurd h fail_ok
  | succ fuel ih =>
    unfold extend at h
    split at h
    next heq =>
      obtain ⟨hroot, _⟩ := pure_ok.mp h
      rw [heq, take_length, hroot]
    next hne =>
      have h2 : 2 ≤ leaves.length := by omega
      have hlt := split_lt h2
      have hsplit := split_pos leaves.length
      have hleft : ∀ x ∈ leaves.take (split leaves.length), x.length = 32 :=
        fun x hx => hleaves x (mem_of_mem_take hx)
      have hright : ∀ x ∈ leaves.drop (split leaves.length), x.length = 32 :=
        fun x hx => hleaves x (mem_of_mem_drop hx)
      have hll : (leaves.take (split leaves.length)).length = split leaves.length := by
        rw [length_take]
        omega
      have hrl : (leaves.drop (split leaves.length)).length =
          leaves.length - split leaves.length := length_drop
      dsimp only at h
      rw [maxpow2_eq_split _ h2, root_split _ _ h2] at h
      split at h
      next hin =>
        obtain ⟨left, m, hx, h⟩ := bind_ok.mp h
        obtain ⟨right, m', hs, h⟩ := bind_ok.mp h
        obtain ⟨hnode, _⟩ := pure_ok.mp h
        obtain ⟨el, _⟩ := model.node_injective _ _ _ _ (extend_length model hold hx)
          (subtreeHash_length model hs) (root_length model.length hleft) (root_length model.length hright) hnode
        rw [el] at hx
        have hh : root (nodeHash sha256) (sha256 [])
            ((leaves.take (split leaves.length)).take old) = oldHash :=
          ih hpos (by omega) hold hleft (by rw [hll]; exact hx)
        rwa [take_take, Nat.min_eq_left hin] at hh
      next hout =>
        obtain ⟨left, m, hp, h⟩ := bind_ok.mp h
        obtain ⟨oldRight, m', hs, h⟩ := bind_ok.mp h
        obtain ⟨hcheck, h⟩ := guard_ok.mp h
        obtain ⟨right, m'', hx, h⟩ := bind_ok.mp h
        obtain ⟨hnode, _⟩ := pure_ok.mp h
        have hor := subtreeHash_length model hs
        obtain ⟨el, er⟩ := model.node_injective _ _ _ _ (perfectSubtreeHash_length model hp)
          (extend_length model hor hx) (root_length model.length hleft) (root_length model.length hright) hnode
        rw [er] at hx
        have hh : root (nodeHash sha256) (sha256 [])
            ((leaves.drop (split leaves.length)).take (old - split leaves.length)) =
              oldRight :=
          ih (by omega) (by omega) hor hright (by rw [hrl]; exact hx)
        have htake : (leaves.take old).length = old := by rw [length_take]; omega
        have hstable : split old = split leaves.length :=
          split_stable (by omega) hle
        rw [root_split _ _ (by omega : 2 ≤ (leaves.take old).length), htake, hstable,
          take_take, Nat.min_eq_left (by omega), drop_take, hh, ← el]
        exact not_not.mp hcheck

/-- Every sequence of records behind the newer head begins with records that
the older head describes. -/
def PrefixHead (sha256 : Bytes → Bytes) (older newer : TreeHead) : Prop :=
  ∀ records : List Bytes, records.length = newer.size → recordsHash sha256 records = newer.hash →
    recordsHash sha256 (records.take older.size) = older.hash

/-- One consistency check, whatever the client holds and the server answers. -/
theorem verifyConsistency_prefix (model : HashModel sha256) {stored latest : TreeHead}
    (h : verifyConsistency sha256 server stored latest c = (.ok (), d)) :
    stored.size ≤ latest.size ∧ PrefixHead sha256 stored latest := by
  obtain ⟨m, hbody, _⟩ := withTreeSize_ok h
  obtain ⟨hback, hbody⟩ := guard_ok.mp hbody
  refine ⟨by omega, ?_⟩
  intro records hlen hroot
  split at hbody
  next hsame =>
    obtain ⟨heq, _⟩ := guard_ok.mp hbody
    rw [← hsame, ← hlen, take_length, hroot]
    exact not_not.mp heq
  next hgrow =>
    split at hbody
    next hzero =>
      obtain ⟨heq, _⟩ := guard_ok.mp hbody
      simp only [hzero, take_zero, recordsHash, map_nil, root_nil]
      exact (not_not.mp heq).symm
    next hpos =>
      obtain ⟨extended, m', hx, hbody⟩ := bind_ok.mp hbody
      obtain ⟨heq, _⟩ := guard_ok.mp hbody
      rw [not_not.mp heq, ← hroot, ← hlen] at hx
      have hl : (records.map (recordHash sha256)).length = records.length := length_map _
      have hh : root (nodeHash sha256) (sha256 [])
          ((records.map (recordHash sha256)).take stored.size) = stored.hash :=
        extend_sound model (by omega) (by omega) stored.hash_length (mem_records_length model.length)
          (by rw [hl]; exact hx)
      rwa [← map_take] at hh

end

/-- A consistency check that succeeds ties the two heads to one sequence of
records, for every server and every cache of the client. -/
theorem verifyConsistency_sound {sha256 : Bytes → Bytes} (model : HashModel sha256) (server : Server)
    (c : Client) (stored latest : TreeHead)
    (h : (verifyConsistency sha256 server stored latest c).1 = .ok ()) :
    stored.size ≤ latest.size ∧
      ∀ records : List Bytes, records.length = latest.size → recordsHash sha256 records = latest.hash →
        recordsHash sha256 (records.take stored.size) = stored.hash := by
  have hrun : verifyConsistency sha256 server stored latest c =
      (.ok (), (verifyConsistency sha256 server stored latest c).2) := Prod.ext h rfl
  obtain ⟨hsize, hprefix⟩ := verifyConsistency_prefix model hrun
  exact ⟨hsize, hprefix⟩

theorem verifyConsistency_sound_sample :
    (verifyConsistency (tableHash sampleTable) (fun _ => .body (leafA ++ leafB)) ⟨1, leafA, rfl⟩
        ⟨2, nodeAB, rfl⟩ {}).1 = .ok () ∧
      ∀ records : List Bytes, records.length = 2 → recordsHash (tableHash sampleTable) records = nodeAB →
        recordsHash (tableHash sampleTable) (records.take 1) = leafA := by
  have hrun : (verifyConsistency (tableHash sampleTable) (fun _ => .body (leafA ++ leafB))
      ⟨1, leafA, rfl⟩ ⟨2, nodeAB, rfl⟩ {}).1 = .ok () := by decide +kernel
  exact ⟨hrun, (verifyConsistency_sound (tableHash_model sampleTable_valid) _ _ _ _ hrun).2⟩

section

variable {sha256 : Bytes → Bytes} {ed25519Verify : Bytes → Bytes → Bytes → Bool}

/-- What the checks under the lock have established, step by step. -/
theorem checkHeads_ok {server : Server} {stored : Option TreeHead} {found : Lookup} {lookupHead latest : TreeHead}
    {c d : Client} (h : checkHeads sha256 ed25519Verify server stored found lookupHead c = (.ok latest, d)) :
    ∃ m₁ m₂ m₃ m₄ response text, verifyHead sha256 server lookupHead c = (.ok (), m₁) ∧
      verifyRecordInclusion sha256 server lookupHead found.leaf found.text m₁ = (.ok (), m₂) ∧
      fetch server "latest".toList m₂ = (.ok response, m₃) ∧ parseNote ed25519Verify response = .ok text ∧
      parseHead text = .ok latest ∧ verifyHead sha256 server latest m₃ = (.ok (), m₄) ∧
      ∀ head, stored = some head → verifyConsistency sha256 server head latest m₄ = (.ok (), d) := by
  obtain ⟨_, m₁, hhead, h⟩ := bind_ok.mp h
  obtain ⟨_, m₂, hrecord, h⟩ := bind_ok.mp h
  obtain ⟨response, m₃, hfetch, h⟩ := bind_ok.mp h
  obtain ⟨text, m, hn, h⟩ := bind_ok.mp h
  obtain ⟨hnote, rfl⟩ := check_ok.mp hn
  obtain ⟨last, m, hp, h⟩ := bind_ok.mp h
  obtain ⟨hparse, rfl⟩ := check_ok.mp hp
  obtain ⟨_, m₄, hlast, h⟩ := bind_ok.mp h
  cases stored with
  | none =>
    obtain ⟨rfl, rfl⟩ := pure_ok.mp h
    exact ⟨m₁, m₂, m₃, m₄, response, text, hhead, hrecord, hfetch, hnote, hparse, hlast, by simp⟩
  | some head =>
    obtain ⟨_, m, hconsistent, h⟩ := bind_ok.mp h
    obtain ⟨rfl, rfl⟩ := pure_ok.mp h
    refine ⟨m₁, m₂, m₃, m₄, response, text, hhead, hrecord, hfetch, hnote, hparse, hlast, ?_⟩
    intro other hother
    cases hother
    exact hconsistent

/-- A call leaves the state file as it was, or replaces it by a head that was
checked against the one the file held. -/
theorem verifyHeads_file {environment : Environment} {query : Query} {c : Client} {file : StateFile} :
    (verifyHeads sha256 ed25519Verify environment query c file).2.2 = file ∨
      ∃ stored latest found lookupHead d e, storedHead file = .ok stored ∧ advances stored latest = true ∧
        checkHeads sha256 ed25519Verify environment.server stored found lookupHead d = (.ok latest, e) ∧
        (verifyHeads sha256 ed25519Verify environment query c file).2.2 = headPayload latest := by
  unfold verifyHeads
  split
  next => exact Or.inl rfl
  next found lookupHead d hlookup =>
    split
    next => exact Or.inl rfl
    next =>
      split
      next => exact Or.inl rfl
      next stored hstored =>
        split
        next => exact Or.inl rfl
        next latest e hcheck =>
          split
          next hadvance =>
            cases hw : environment.write with
            | done => exact Or.inr ⟨stored, latest, found, lookupHead, d, e, hstored, hadvance, hcheck, rfl⟩
            | failsBefore => exact Or.inl rfl
            | failsAfter => exact Or.inr ⟨stored, latest, found, lookupHead, d, e, hstored, hadvance, hcheck, rfl⟩
          next => exact Or.inl rfl

end

theorem PrefixHead.trans {sha256 : Bytes → Bytes} {a b c : TreeHead} (hab : PrefixHead sha256 a b)
    (hbc : PrefixHead sha256 b c) (hle : a.size ≤ b.size) (hle' : b.size ≤ c.size) : PrefixHead sha256 a c := by
  intro records hlen hroot
  have hmid : (records.take b.size).length = b.size := by
    rw [length_take]
    omega
  have h := hab (records.take b.size) hmid (hbc records hlen hroot)
  rwa [take_take, Nat.min_eq_left hle] at h

def Continues (sha256 : Bytes → Bytes) (older newer : TreeHead) : Prop :=
  older.size ≤ newer.size ∧ PrefixHead sha256 older newer

def Advances (sha256 : Bytes → Bytes) (before after : StateFile) : Prop :=
  after = before ∨ ∃ head, storedHead after = .ok (some head) ∧
    ∀ old, storedHead before = .ok (some old) → Continues sha256 old head

theorem Advances.trans {sha256 : Bytes → Bytes} {a b c : StateFile} (hab : Advances sha256 a b)
    (hbc : Advances sha256 b c) : Advances sha256 a c := by
  rcases hbc with rfl | ⟨head, hc, hcont⟩
  · exact hab
  · rcases hab with rfl | ⟨middle, hb, hfirst⟩
    · exact Or.inr ⟨head, hc, hcont⟩
    · refine Or.inr ⟨head, hc, ?_⟩
      intro old hold
      obtain ⟨hle, hpre⟩ := hfirst old hold
      obtain ⟨hle', hpre'⟩ := hcont middle hb
      exact ⟨hle.trans hle', hpre.trans hpre' hle hle'⟩

theorem Advances.continues {sha256 : Bytes → Bytes} {a b : StateFile} (h : Advances sha256 a b) {older newer : TreeHead}
    (ha : storedHead a = .ok (some older)) (hb : storedHead b = .ok (some newer)) :
    Continues sha256 older newer := by
  rcases h with rfl | ⟨head, hhead, hcont⟩
  · rw [ha] at hb
    cases hb
    refine ⟨le_rfl, ?_⟩
    intro records hlen hroot
    rw [← hlen, take_length]
    exact hroot
  · rw [hhead] at hb
    cases hb
    exact hcont older ha

theorem verifyHeads_advances {sha256 : Bytes → Bytes} (model : HashModel sha256)
    (ed25519Verify : Bytes → Bytes → Bytes → Bool) (environment : Environment) (query : Query) (c : Client)
    (file : StateFile) :
    Advances sha256 file (verifyHeads sha256 ed25519Verify environment query c file).2.2 := by
  rcases verifyHeads_file with hsame | ⟨stored, latest, found, lookupHead, d, e, hstored, _, hcheck, hfile⟩
  · exact Or.inl hsame
  · obtain ⟨_, _, _, m, response, text, _, _, _, _, hparse, _, hconsistent⟩ := checkHeads_ok hcheck
    refine Or.inr ⟨latest, ?_, ?_⟩
    · rw [hfile]
      exact storedHead_headPayload (parseHead_octets hparse)
    · intro old hold
      rw [hold] at hstored
      cases hstored
      exact verifyConsistency_prefix model (hconsistent old rfl)

/-- One call in a history: the client may be any, in any state. -/
structure Call where
  environment : Environment
  query : Query
  client : Client

/-- The state file before the first call and after each one. -/
def fileHistory (sha256 : Bytes → Bytes) (ed25519Verify : Bytes → Bytes → Bytes → Bool) :
    StateFile → List Call → List StateFile
  | file, [] => [file]
  | file, call :: rest =>
    file :: fileHistory sha256 ed25519Verify
      (verify sha256 ed25519Verify call.environment call.query call.client file).2.2 rest

theorem fileHistory_advances {sha256 : Bytes → Bytes} (model : HashModel sha256)
    {ed25519Verify : Bytes → Bytes → Bytes → Bool} {calls : List Call} {file later : StateFile}
    (h : later ∈ fileHistory sha256 ed25519Verify file calls) : Advances sha256 file later := by
  induction calls generalizing file with
  | nil =>
    simp only [fileHistory, mem_singleton] at h
    exact Or.inl h
  | cons call rest ih =>
    rcases mem_cons.mp h with rfl | hrest
    · exact Or.inl rfl
    · have hstep := verifyHeads_advances model ed25519Verify call.environment call.query call.client file
      exact hstep.trans (ih hrest)

/-- Over every history of calls, each persisted head continues the log of every
head persisted before it. -/
theorem persisted_heads_continue {sha256 : Bytes → Bytes} (model : HashModel sha256)
    (ed25519Verify : Bytes → Bytes → Bytes → Bool) (file : StateFile) (calls : List Call) :
    (fileHistory sha256 ed25519Verify file calls).Pairwise fun before after =>
      ∀ older newer : TreeHead, storedHead before = .ok (some older) → storedHead after = .ok (some newer) →
        older.size ≤ newer.size ∧
          ∀ records : List Bytes, records.length = newer.size → recordsHash sha256 records = newer.hash →
            recordsHash sha256 (records.take older.size) = older.hash := by
  induction calls generalizing file with
  | nil => simp [fileHistory]
  | cons call rest ih =>
    refine pairwise_cons.mpr ⟨?_, ih _⟩
    intro later hlater older newer hold hnew
    have hstep := verifyHeads_advances model ed25519Verify call.environment call.query call.client file
    exact (hstep.trans (fileHistory_advances model hlater)).continues hold hnew

/-- SHA-256 of the leaf of the record `example.com/m v1.0.0 h1:c2FtcGxl`, and of
its node with the leaf `b`. -/
def leafR : Bytes :=
  [44, 14, 88, 4, 6, 42, 114, 196, 193, 180, 248, 132, 82, 54, 131, 101, 57, 66, 16, 240, 125, 250,
  30, 89, 191, 72, 43, 56, 95, 196, 60, 243]

def nodeRB : Bytes :=
  [243, 29, 132, 43, 3, 82, 60, 173, 89, 217, 43, 203, 4, 35, 230, 54, 111, 104, 73, 247, 63, 255,
  252, 140, 140, 224, 181, 113, 135, 98, 26, 125]

def lookupTable : List (Bytes × Bytes) :=
  [(0 :: codes "example.com/m v1.0.0 h1:c2FtcGxl\n", leafR), ([0, 97], leafA), ([0, 98], leafB),
    (1 :: (leafA ++ leafB), nodeAB), (1 :: (leafR ++ leafB), nodeRB)]

theorem lookupTable_valid : TableValid lookupTable := by decide +kernel

def treeText (head : TreeHead) : Bytes :=
  codes "go.sum database tree\n" ++ codes (toString head.size) ++ 10 :: Base64.encode head.hash ++ [10]

def treeNote (head : TreeHead) : Bytes :=
  treeText head ++ 10 :: encode "— sum.golang.org ".toList ++
    Base64.encode (0x03 :: 0x3d :: 0xe0 :: 0xae :: List.replicate 64 0) ++ [10]

def signs (heads : List TreeHead) : Bytes → Bytes → Bytes → Bool := fun _ message _ => message ∈ heads.map treeText

/-- A lookup at a tree of one record, and any latest head with its own tile. -/
def twoHeadsServer (lookupHead latest : TreeHead) (data : Bytes) : Server
  | [] => .crash
  | path :: _ =>
    if path = "lookup/example.com/m@v1.0.0".toList then
      .body (codes "0\nexample.com/m v1.0.0 h1:c2FtcGxl\n\n" ++ treeNote lookupHead)
    else if path = "latest".toList then .body (treeNote latest)
    else if path = (⟨0, 0, 1⟩ : Tile).path then .body leafR
    else .body data

def sampleQuery : Query := ⟨"example.com/m".toList, "v1.0.0".toList, none⟩

/-- Two calls of a client against one growing log. -/
def sampleCalls : List Call :=
  [⟨⟨twoHeadsServer ⟨1, leafR, rfl⟩ ⟨1, leafR, rfl⟩ [], true, true, .done⟩, sampleQuery, {}⟩,
    ⟨⟨twoHeadsServer ⟨1, leafR, rfl⟩ ⟨2, nodeRB, rfl⟩ (leafR ++ leafB), true, true, .done⟩, sampleQuery, {}⟩]

theorem persisted_heads_continue_sample :
    fileHistory (tableHash lookupTable) (signs [⟨1, leafR, rfl⟩, ⟨2, nodeRB, rfl⟩]) .missing sampleCalls =
        [.missing, headPayload ⟨1, leafR, rfl⟩, headPayload ⟨2, nodeRB, rfl⟩] ∧
      (fileHistory (tableHash lookupTable) (signs [⟨1, leafR, rfl⟩, ⟨2, nodeRB, rfl⟩]) .missing
        sampleCalls).Pairwise fun before after =>
          ∀ older newer : TreeHead, storedHead before = .ok (some older) → storedHead after = .ok (some newer) →
            older.size ≤ newer.size ∧
              ∀ records : List Bytes, records.length = newer.size →
                recordsHash (tableHash lookupTable) records = newer.hash →
                recordsHash (tableHash lookupTable) (records.take older.size) = older.hash :=
  ⟨by decide +kernel, persisted_heads_continue (tableHash_model lookupTable_valid) _ _ _⟩

/-- What a state file says after a call, whatever the server answers: one that cannot be read is left as it is, and one
with a head has a head after. -/
def HeadStays (before after : StateFile) : Prop :=
  (∀ failure, storedHead before = .error failure → after = before) ∧
    ∀ stored, storedHead before = .ok stored →
      ∃ head, storedHead after = .ok head ∧ (stored.isSome = true → head.isSome = true)

theorem HeadStays.refl (file : StateFile) : HeadStays file file :=
  ⟨fun _ _ => rfl, fun stored hstored => ⟨stored, hstored, id⟩⟩

theorem HeadStays.trans {a b c : StateFile} (hab : HeadStays a b) (hbc : HeadStays b c) : HeadStays a c := by
  constructor
  · intro failure hfailure
    have hsame := hab.1 failure hfailure
    subst hsame
    exact hbc.1 failure hfailure
  · intro stored hstored
    obtain ⟨middle, hmiddle, hkept⟩ := hab.2 stored hstored
    obtain ⟨head, hhead, hkept'⟩ := hbc.2 middle hmiddle
    exact ⟨head, hhead, fun hsome => hkept' (hkept hsome)⟩

theorem verifyHeads_headStays (sha256 : Bytes → Bytes) (ed25519Verify : Bytes → Bytes → Bytes → Bool)
    (environment : Environment) (query : Query) (c : Client) (file : StateFile) :
    HeadStays file (verifyHeads sha256 ed25519Verify environment query c file).2.2 := by
  rcases verifyHeads_file with hsame | ⟨stored, latest, found, lookupHead, d, e, hstored, _, hcheck, hfile⟩
  · rw [hsame]
    exact HeadStays.refl file
  · obtain ⟨_, _, _, _, _, _, _, _, _, _, hparse, _⟩ := checkHeads_ok hcheck
    rw [hfile]
    refine ⟨?_, ?_⟩
    · intro failure hfailure
      rw [hstored] at hfailure
      cases hfailure
    · exact fun _ _ => ⟨some latest, storedHead_headPayload (parseHead_octets hparse), fun _ => rfl⟩

theorem fileHistory_headStays {sha256 : Bytes → Bytes} {ed25519Verify : Bytes → Bytes → Bytes → Bool} {calls : List Call}
    {file later : StateFile} (h : later ∈ fileHistory sha256 ed25519Verify file calls) : HeadStays file later := by
  induction calls generalizing file with
  | nil =>
    rw [mem_singleton.mp h]
    exact HeadStays.refl file
  | cons call rest ih =>
    rcases mem_cons.mp h with rfl | hrest
    · exact HeadStays.refl _
    · have hstep := verifyHeads_headStays sha256 ed25519Verify call.environment call.query call.client file
      exact hstep.trans (ih hrest)

/-- Over every history of calls, with any servers and any failures of the writes, a state file that cannot be read is
never replaced, and one that holds a head holds one ever after. -/
theorem stored_heads_stay (sha256 : Bytes → Bytes) (ed25519Verify : Bytes → Bytes → Bytes → Bool) (file : StateFile)
    (calls : List Call) : (fileHistory sha256 ed25519Verify file calls).Pairwise HeadStays := by
  induction calls generalizing file with
  | nil => exact pairwise_singleton _ _
  | cons call rest ih =>
    refine pairwise_cons.mpr ⟨?_, ih _⟩
    intro later hlater
    have hstep := verifyHeads_headStays sha256 ed25519Verify call.environment call.query call.client file
    exact hstep.trans (fileHistory_headStays hlater)

end Leitir.Sumdb
