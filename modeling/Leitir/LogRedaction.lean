import Leitir.Utf8
import Mathlib.Data.List.Lex
import Mathlib.Data.List.Sort

namespace Leitir.Redaction

open List

abbrev Text := List Char

def redacted : Text := "[REDACTED]".toList

inductive Pattern
  | urlFragment | urlUser | openrouterKey | authHeader | bearer | authValue | keyValue

/-- A match: the text since the last one, its first group, with which every pattern starts, and the rest of it. -/
structure Found where
  before : Text
  kept : Text
  gone : Text

/-- The regular expressions: the matches of a pattern in a text from left to right, with the text after the last. -/
structure Engine where
  find : Pattern → Text → List Found × Text
  sensitiveKey : Text → Bool
  covers : ∀ pattern text, ((find pattern text).1.flatMap fun item => item.before ++ (item.kept ++ item.gone)) ++
    (find pattern text).2 = text
  atSign : ∀ text, ∀ item ∈ (find .urlUser text).1, ∃ user, item.gone = user ++ ['@']

def sub (engine : Engine) (pattern : Pattern) (rewrite : Found → Text) (text : Text) : Text :=
  ((engine.find pattern text).1.flatMap fun item => item.before ++ rewrite item) ++ (engine.find pattern text).2

/-- The occurrences of a secret from left to right; so many characters of the last one are still to be skipped. -/
def replaceFrom (secret : Text) : Nat → Text → Text
  | _, [] => []
  | skip + 1, _ :: rest => replaceFrom secret skip rest
  | 0, ch :: rest => if secret <+: ch :: rest then redacted ++ replaceFrom secret (secret.length - 1) rest
    else ch :: replaceFrom secret 0 rest

def replace (secret text : Text) : Text := replaceFrom secret 0 text

def unlessRedacted (item : Found) : Text :=
  if redacted <:+: item.kept ++ item.gone then item.kept ++ item.gone else item.kept ++ redacted

def redactText (engine : Engine) (known : List Text) (value : Text) : Text :=
  let value := sub engine .urlFragment Found.kept value
  let secrets := known.insertionSort fun a b => b.length < a.length ∨ a.length = b.length ∧ a ≤ b
  let value := secrets.foldl (fun value secret => replace secret value) value
  let value := sub engine .urlUser (fun item => item.kept ++ redacted ++ ['@']) value
  let value := sub engine .openrouterKey (fun _ => redacted) value
  let value := sub engine .authHeader (fun item => item.kept ++ redacted) value
  let value := sub engine .bearer (fun item => item.kept ++ redacted) value
  let value := sub engine .authValue unlessRedacted value
  sub engine .keyValue unlessRedacted value

inductive Kind
  | tuple | list | set | frozenset
deriving DecidableEq

/-- A logged value; a mapping as its keys and its values in order. -/
inductive Value
  | text (value : Text)
  | bytes (value : List Nat)
  | mapping (keys : List Text) (values : List Value)
  | nested (kind : Kind) (values : List Value)
  | other

def decode (data : List Nat) : Text := (Utf8.decodeReplace data).map Char.ofNat

mutual

/-- A frozen set is no set, and stays as it is. -/
def redact (engine : Engine) (known : List Text) : Value → Value
  | .text value => .text (redactText engine known value)
  | .bytes value => .bytes (Utf8.encodeText (redactText engine known (decode value)))
  | .mapping keys values => .mapping keys (redactAll engine known keys values)
  | .nested kind values => if kind = .frozenset then .nested kind values else .nested kind (redactAll engine known [] values)
  | .other => .other

def redactAll (engine : Engine) (known : List Text) : List Text → List Value → List Value
  | _, [] => []
  | keys, value :: rest =>
    (if keys.head?.any engine.sensitiveKey then .text redacted else redact engine known value) :: redactAll engine known keys.tail rest

end

mutual

/-- The texts of a value; without those that are left alone, the keys of mappings and what is in frozen sets. -/
def texts (all : Bool) : Value → List Text
  | .text value => [value]
  | .bytes value => [decode value]
  | .mapping keys values => (if all then keys else []) ++ allTexts all values
  | .nested kind values => if kind = .frozenset ∧ all = false then [] else allTexts all values
  | .other => []

def allTexts (all : Bool) : List Value → List Text
  | [] => []
  | value :: rest => texts all value ++ allTexts all rest

end

section

/-- One text comes from another when parts of it become the marker. -/
inductive Blots : Text → Text → Prop
  | nil : Blots [] []
  | keep {text out} (ch : Char) (h : Blots text out) : Blots (ch :: text) (ch :: out)
  | blot {text out} (gone : Text) (h : Blots text out) : Blots (gone ++ text) (redacted ++ out)

/-- A secret that can be told from the marker. -/
structure Maskable (secret : Text) : Prop where
  long : 8 ≤ secret.length
  opened : '[' ∉ secret
  closed : ']' ∉ secret
  apart : ¬ secret <:+: redacted

variable {secret text out : Text} {engine : Engine} {known : List Text}

theorem Blots.refl : ∀ text, Blots text text
  | [] => .nil
  | ch :: rest => .keep ch (Blots.refl rest)

theorem Blots.append {more out' : Text} (h : Blots text out) (h' : Blots more out') : Blots (text ++ more) (out ++ out') := by
  induction h with
  | nil => exact h'
  | keep ch _ ih => exact .keep ch ih
  | blot gone _ ih =>
    rw [append_assoc, append_assoc]
    exact .blot gone ih

theorem Blots.gone (kept gone : Text) : Blots (kept ++ gone) (kept ++ redacted) := by
  have h := Blots.append (.refl kept) (Blots.blot gone .nil)
  rwa [append_nil, append_nil] at h

theorem Blots.isPrefix {front : Text} (h : Blots text out) (hopened : '[' ∉ front) (hfront : front <+: out) : front <+: text := by
  induction h generalizing front with
  | nil => exact hfront
  | keep ch _ ih =>
    cases front with
    | nil => exact nil_prefix
    | cons first front =>
      obtain ⟨rfl, hrest⟩ := cons_prefix_cons.mp hfront
      exact cons_prefix_cons.mpr ⟨rfl, ih (fun hmem => hopened (mem_cons_of_mem _ hmem)) hrest⟩
  | blot gone _ _ =>
    cases front with
    | nil => exact nil_prefix
    | cons first front =>
      obtain ⟨rfl, -⟩ := cons_prefix_cons.mp hfront
      exact absurd mem_cons_self hopened

theorem infix_marker (hsecret : Maskable secret) (marker : Text) (hmarker : marker ++ [']'] <:+: redacted)
    (h : secret <:+: marker ++ ']' :: out) : secret <:+: out := by
  induction marker with
  | nil =>
    rcases infix_cons_iff.mp h with hfront | hrest
    · cases secret with
      | nil => exact absurd hsecret.long (by simp)
      | cons ch secret =>
        obtain ⟨rfl, -⟩ := cons_prefix_cons.mp hfront
        exact absurd mem_cons_self hsecret.closed
    · exact hrest
  | cons ch marker ih =>
    rcases infix_cons_iff.mp h with hfront | hrest
    · have hwhole : ch :: marker ++ [']'] <+: ch :: (marker ++ ']' :: out) := ⟨out, by simp⟩
      rcases prefix_or_prefix_of_prefix hfront hwhole with hshort | hlong
      · exact absurd (hshort.isInfix.trans hmarker) hsecret.apart
      · exact absurd (hlong.subset (by simp)) hsecret.closed
    · exact ih ((suffix_cons ch (marker ++ [']'])).isInfix.trans hmarker) hrest

theorem Blots.isInfix (h : Blots text out) (hsecret : Maskable secret) (hshown : secret <:+: out) : secret <:+: text := by
  induction h with
  | nil => exact hshown
  | keep ch h ih =>
    rcases infix_cons_iff.mp hshown with hfront | hrest
    · exact (Blots.isPrefix (.keep ch h) hsecret.opened hfront).isInfix
    · exact infix_cons (ih hrest)
  | blot gone _ ih => exact (ih (infix_marker hsecret "[REDACTED".toList (infix_refl _) hshown)).trans (suffix_append _ _).isInfix

theorem sub_blots {pattern : Pattern} {rewrite : Found → Text}
    (h : ∀ item ∈ (engine.find pattern text).1, Blots (item.kept ++ item.gone) (rewrite item)) :
    Blots text (sub engine pattern rewrite text) := by
  have hitems : ∀ items : List Found, (∀ item ∈ items, Blots (item.kept ++ item.gone) (rewrite item)) →
      Blots (items.flatMap fun item => item.before ++ (item.kept ++ item.gone)) (items.flatMap fun item => item.before ++ rewrite item) := by
    intro items hitems
    induction items with
    | nil => exact .nil
    | cons item items ih =>
      obtain ⟨hitem, hrest⟩ := forall_mem_cons.mp hitems
      exact ((Blots.refl _).append hitem).append (ih hrest)
  have hwhole := (hitems _ h).append (.refl (engine.find pattern text).2)
  rwa [engine.covers] at hwhole

theorem replaceFrom_blots (hne : secret ≠ []) (skip : Nat) (text : Text) : Blots (text.drop skip) (replaceFrom secret skip text) := by
  fun_induction replaceFrom secret skip text with
  | case1 =>
    rw [drop_nil]
    exact .nil
  | case2 skip ch rest ih => exact ih
  | case3 ch rest hfront ih =>
    obtain ⟨more, hmore⟩ := hfront
    obtain ⟨first, secret, rfl⟩ := exists_cons_of_ne_nil hne
    obtain ⟨rfl, rfl⟩ := cons.inj (show first :: (secret ++ more) = ch :: rest from hmore)
    rw [length_cons, Nat.add_sub_cancel, drop_left] at ih
    exact .blot (first :: secret) ih
  | case4 ch rest _ ih => exact .keep ch ih

theorem ne_nil (hsecret : Maskable secret) : secret ≠ [] := by
  rintro rfl
  exact absurd hsecret.long (by simp)

/-- No occurrence is left, and none begins before a marker. -/
theorem replaceFrom_hides (hsecret : Maskable secret) (skip : Nat) (text : Text) : ¬ secret <:+: replaceFrom secret skip text := by
  fun_induction replaceFrom secret skip text with
  | case1 => exact fun h => ne_nil hsecret (infix_nil.mp h)
  | case2 skip ch rest ih => exact ih
  | case3 ch rest _ ih => exact fun h => ih (infix_marker hsecret "[REDACTED".toList (infix_refl _) h)
  | case4 ch rest hfront ih =>
    intro h
    rcases infix_cons_iff.mp h with hstart | hrest
    · exact hfront (Blots.isPrefix (.keep ch (replaceFrom_blots (ne_nil hsecret) 0 rest)) hsecret.opened hstart)
    · exact ih hrest

theorem foldl_hides (hknown : ∀ other ∈ known, Maskable other) (hsecret : Maskable secret)
    (h : secret ∈ known ∨ ¬ secret <:+: text) : ¬ secret <:+: known.foldl (fun value other => replace other value) text := by
  induction known generalizing text with
  | nil => exact h.resolve_left not_mem_nil
  | cons other known ih =>
    obtain ⟨hother, hrest⟩ := forall_mem_cons.mp hknown
    refine ih hrest ?_
    rcases h with h | h
    · rcases mem_cons.mp h with rfl | h
      · exact .inr (replaceFrom_hides hsecret 0 text)
      · exact .inl h
    · exact .inr fun hshown => h ((replaceFrom_blots (ne_nil hother) 0 text).isInfix hsecret hshown)

theorem unlessRedacted_blots (item : Found) : Blots (item.kept ++ item.gone) (unlessRedacted item) := by
  unfold unlessRedacted
  split
  next => exact .refl _
  next => exact .gone _ _

theorem redactText_hides (hknown : ∀ other ∈ known, Maskable other) (hsecret : secret ∈ known) (value : Text) :
    ¬ secret <:+: redactText engine known value := by
  have hmask := hknown secret hsecret
  have hstep : ∀ {pattern rewrite value}, (∀ item ∈ (engine.find pattern value).1, Blots (item.kept ++ item.gone) (rewrite item)) →
      ¬ secret <:+: value → ¬ secret <:+: sub engine pattern rewrite value :=
    fun h hnot hshown => hnot ((sub_blots h).isInfix hmask hshown)
  unfold redactText
  refine hstep (fun item _ => unlessRedacted_blots item) (hstep (fun item _ => unlessRedacted_blots item) ?_)
  refine hstep (fun item _ => .gone _ _) (hstep (fun item _ => .gone _ _) (hstep (fun item _ => ?_) (hstep (fun item hitem => ?_) ?_)))
  · have h := Blots.blot (item.kept ++ item.gone) .nil
    rwa [append_nil, append_nil] at h
  · obtain ⟨user, huser⟩ := engine.atSign _ item hitem
    rw [huser, ← append_assoc]
    exact (Blots.gone item.kept user).append (.refl ['@'])
  · exact foldl_hides (fun other hother => hknown other ((mem_insertionSort _).mp hother)) hmask (.inl ((mem_insertionSort _).mpr hsecret))

end

section

variable {engine : Engine} {known : List Text} {secret : Text}

theorem decode_encode (text : Text) : decode (Utf8.encodeText text) = text := by
  have hscalar : ∀ point ∈ text.map Char.toNat, Utf8.IsScalar point := forall_mem_map.mpr fun ch _ => Utf8.isScalar_char ch
  have hpieces := Utf8.pieces_encode hscalar le_rfl
  rw [flatMap_map] at hpieces
  unfold decode Utf8.decodeReplace Utf8.encodeText
  rw [hpieces, map_map, map_map, map_map]
  exact map_id'' (fun ch => Char.ofNat_toNat ch) text

mutual

/-- No text of a redacted value holds a secret. -/
theorem texts_hide (hknown : ∀ other ∈ known, Maskable other) (hsecret : secret ∈ known) :
    ∀ value, ∀ text ∈ texts false (redact engine known value), ¬ secret <:+: text
  | .text value, text, htext => by
    rw [redact, texts, mem_singleton] at htext
    rw [htext]
    exact redactText_hides hknown hsecret value
  | .bytes value, text, htext => by
    rw [redact, texts, mem_singleton, decode_encode] at htext
    rw [htext]
    exact redactText_hides hknown hsecret (decode value)
  | .mapping keys values, text, htext => by
    rw [redact, texts, if_neg (by simp), nil_append] at htext
    exact allTexts_hide hknown hsecret keys values text htext
  | .nested kind values, text, htext => by
    rw [redact] at htext
    split at htext
    next hfrozen =>
      rw [texts, if_pos ⟨hfrozen, rfl⟩] at htext
      cases htext
    next hkind =>
      rw [texts, if_neg (fun hfrozen => hkind hfrozen.1)] at htext
      exact allTexts_hide hknown hsecret [] values text htext
  | .other, text, htext => by
    rw [redact, texts] at htext
    cases htext

theorem allTexts_hide (hknown : ∀ other ∈ known, Maskable other) (hsecret : secret ∈ known) :
    ∀ keys values, ∀ text ∈ allTexts false (redactAll engine known keys values), ¬ secret <:+: text
  | _, [], text, htext => by
    rw [redactAll, allTexts] at htext
    cases htext
  | keys, value :: rest, text, htext => by
    rw [redactAll, allTexts] at htext
    rcases mem_append.mp htext with htext | htext
    · split at htext
      next =>
        rw [texts, mem_singleton] at htext
        rw [htext]
        exact (hknown secret hsecret).apart
      next => exact texts_hide hknown hsecret value text htext
    · exact allTexts_hide hknown hsecret keys.tail rest text htext

end

/-- Registered secrets do not survive redaction in any text but the keys of mappings, which are kept, and frozen sets. -/
theorem redact_hides (engine : Engine) (known : List Text) (hknown : ∀ secret ∈ known, Maskable secret) (value : Value) :
    ∀ secret ∈ known, ∀ text ∈ texts false (redact engine known value), ¬ secret <:+: text :=
  fun _ hsecret => texts_hide hknown hsecret value

/-- An engine that finds nothing, as on texts with no key, header or address in them. -/
def silent : Engine := ⟨fun _ text => ([], text), fun _ => false, fun _ _ => rfl, fun _ _ h => absurd h not_mem_nil⟩

def sampleSecret : Text := "hunter2hunter2".toList

theorem maskable_sample : Maskable sampleSecret := ⟨by decide, by decide, by decide, by decide⟩

theorem redact_hides_sample : ¬ sampleSecret <:+: redactText silent [sampleSecret] ("a ".toList ++ sampleSecret) := by
  refine redact_hides silent [sampleSecret] (by simp [maskable_sample]) (.text ("a ".toList ++ sampleSecret)) _ mem_cons_self _ ?_
  rw [redact, texts]
  exact mem_cons_self

theorem redact_keeps_keys : Maskable sampleSecret ∧
    sampleSecret ∈ texts true (redact silent [sampleSecret] (.mapping [sampleSecret] [.text "x".toList])) := by
  refine ⟨maskable_sample, ?_⟩
  rw [redact, texts]
  exact mem_append_left _ mem_cons_self

end

end Leitir.Redaction
