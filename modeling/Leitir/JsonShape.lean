import Leitir.JsonRoundTrip

namespace Json

open List

/-- How the values of a type are written as a document and read back from one. -/
structure Shape (α : Type) where
  encode : α → Value
  decode : Value → Option α

variable {α β : Type}

/-- A value that is read back from its own document, also after the names of its objects are sorted. -/
structure Shape.Restores (shape : Shape α) (x : α) : Prop where
  plain : Plain (shape.encode x)
  decode : shape.decode (sortKeys (shape.encode x)) = some x

section

def textShape : Shape Text where
  encode := .str
  decode
    | .str text => some text
    | _ => none

def stringShape : Shape String where
  encode text := .str text.toList
  decode
    | .str text => some (String.ofList text)
    | _ => none

def natShape : Shape Nat where
  encode n := .int n
  decode
    | .int (.ofNat n) => some n
    | _ => none

def boolShape : Shape Bool where
  encode := .bool
  decode
    | .bool value => some value
    | _ => none

/-- An enumeration by the texts of its members. -/
def enumShape (members : List α) (name : α → String) : Shape α where
  encode x := .str (name x).toList
  decode
    | .str text => members.find? fun member => (name member).toList = text
    | _ => none

/-- A union with `None`, whose other alternative is tried first. -/
def optionShape (shape : Shape α) : Shape (Option α) where
  encode
    | none => .null
    | some x => shape.encode x
  decode value :=
    match shape.decode value with
    | some x => some (some x)
    | none =>
      match value with
      | .null => some none
      | _ => none

/-- A tuple of any length whose entries have one type. -/
def tupleShape (shape : Shape α) : Shape (List α) where
  encode items := .arr (items.map shape.encode)
  decode
    | .arr items => items.mapM shape.decode
    | _ => none

def pairShape (first : Shape α) (second : Shape β) : Shape (α × β) where
  encode pair := .arr [first.encode pair.1, second.encode pair.2]
  decode _ := none

theorem textShape_restores (text : Text) : textShape.Restores text := ⟨trivial, rfl⟩

theorem stringShape_restores (text : String) : stringShape.Restores text :=
  ⟨trivial, congrArg some String.ofList_toList⟩

theorem natShape_restores (n : Nat) : natShape.Restores n := ⟨trivial, rfl⟩

theorem boolShape_restores (b : Bool) : boolShape.Restores b := ⟨trivial, rfl⟩

theorem enumShape_restores {members : List α} {name : α → String} (hname : Function.Injective name) {x : α}
    (hx : x ∈ members) : (enumShape members name).Restores x := by
  refine ⟨trivial, ?_⟩
  change members.find? (fun member => (name member).toList = (name x).toList) = some x
  cases hfind : members.find? fun member => (name member).toList = (name x).toList with
  | none => exact absurd (find?_eq_none.mp hfind x hx) (by simp)
  | some y =>
    have hy := find?_some hfind
    have heq : y = x := hname (String.toList_inj.mp (by simpa using hy))
    rw [heq]

variable {shape : Shape α} {items : List α}

theorem optionShape_none (h : shape.decode .null = none) : (optionShape shape).Restores none := by
  refine ⟨trivial, ?_⟩
  change (match shape.decode .null with | some x => _ | none => _) = _
  rw [h]
  rfl

theorem optionShape_some {x : α} (h : shape.Restores x) : (optionShape shape).Restores (some x) := by
  refine ⟨h.plain, ?_⟩
  change (match shape.decode (sortKeys (shape.encode x)) with | some x => _ | none => _) = _
  rw [h.decode]

theorem optionShape_restores (hnull : shape.decode .null = none) {item : Option α}
    (h : ∀ x ∈ item, shape.Restores x) : (optionShape shape).Restores item := by
  cases item with
  | none => exact optionShape_none hnull
  | some x => exact optionShape_some (h x rfl)

theorem optionShape_plain {item : Option α} (h : ∀ x ∈ item, Plain (shape.encode x)) :
    Plain ((optionShape shape).encode item) := by
  cases item with
  | none => trivial
  | some x => exact h x rfl

theorem optionShape_decode {value : Value} {x : α} (h : (optionShape shape).decode value = some (some x)) :
    shape.decode value = some x := by
  change (match shape.decode value with | some x => _ | none => _) = _ at h
  split at h
  next y hy => rw [hy, Option.some.inj h]
  next => split at h <;> cases h

theorem sortItems_eq_map (items : List Value) : sortItems items = items.map sortKeys := by
  induction items with
  | nil => rfl
  | cons item items ih => rw [sortItems, ih, map_cons]

theorem tupleShape_plain (h : ∀ x ∈ items, Plain (shape.encode x)) :
    Plain ((tupleShape shape).encode items) := by
  change PlainItems (items.map shape.encode)
  rw [plainItems_iff]
  intro value hvalue
  obtain ⟨x, hx, rfl⟩ := mem_map.mp hvalue
  exact h x hx

theorem tupleShape_decoded {value : Value}
    (h : (tupleShape shape).decode value = some items) : ∀ x ∈ items, ∃ raw, shape.decode raw = some x := by
  cases value with
  | arr raws =>
    change raws.mapM shape.decode = some items at h
    induction raws generalizing items with
    | nil =>
      cases h
      simp
    | cons raw raws ih =>
      rw [mapM_cons, Option.bind_eq_bind, Option.bind_eq_some_iff] at h
      obtain ⟨y, hy, h⟩ := h
      rw [Option.bind_eq_bind, Option.bind_eq_some_iff] at h
      obtain ⟨ys, hys, h⟩ := h
      cases h
      exact forall_mem_cons.mpr ⟨⟨raw, hy⟩, ih hys⟩
  | null | bool | int | float | str | obj => cases h

theorem tupleShape_restores (h : ∀ x ∈ items, shape.Restores x) :
    (tupleShape shape).Restores items := by
  constructor
  · exact tupleShape_plain fun x hx => (h x hx).plain
  · change (sortItems (items.map shape.encode)).mapM shape.decode = some items
    rw [sortItems_eq_map, map_map]
    induction items with
    | nil => rfl
    | cons x items ih =>
      rw [map_cons, mapM_cons, Function.comp_apply, (h x mem_cons_self).decode,
        ih fun y hy => h y (mem_cons_of_mem _ hy)]
      rfl

end

theorem sortFields_of_fixed {fields : List (String × Value)} (h : ∀ field ∈ fields, sortKeys field.2 = field.2) :
    sortFields fields = fields := by
  induction fields with
  | nil => rfl
  | cons field fields ih =>
    obtain ⟨hfield, hothers⟩ := forall_mem_cons.mp h
    obtain ⟨key, value⟩ := field
    rw [sortFields, sortField, hfield, ih hothers]

theorem pairwise_sorted_fields (fields : List (String × Value)) :
    (fields.insertionSort fun a b => a.1 ≤ b.1).Pairwise fun a b => a.1 ≤ b.1 := by
  have : Std.Total fun a b : String × Value => a.1 ≤ b.1 := ⟨fun a b => String.le_total a.1 b.1⟩
  have : IsTrans (String × Value) fun a b => a.1 ≤ b.1 := ⟨fun _ _ _ h h' => String.le_trans h h'⟩
  exact pairwise_insertionSort _ _

theorem sortKeys_obj {fields : List (String × Value)} (hfixed : ∀ field ∈ fields, sortKeys field.2 = field.2)
    (hsorted : (fields.map Prod.fst).Pairwise (· ≤ ·)) : sortKeys (.obj fields) = .obj fields := by
  have hpairs : fields.Pairwise fun a b => a.1 ≤ b.1 := pairwise_map.mp hsorted
  change Value.obj ((sortFields fields).insertionSort _) = _
  rw [sortFields_of_fixed hfixed]
  exact congrArg Value.obj hpairs.insertionSort_eq

theorem sortedNames_cons {name next : Text} {rest : List String} (h : List.lex next name (fun a b => decide (a < b)) = false)
    (hrest : (String.ofList next :: rest).Pairwise (· ≤ ·)) :
    (String.ofList name :: String.ofList next :: rest).Pairwise (· ≤ ·) := by
  have hle : String.ofList name ≤ String.ofList next := by
    intro hlt
    have hlex : next < name := by
      have hlists : (String.ofList next).toList < (String.ofList name).toList := hlt
      rwa [String.toList_ofList, String.toList_ofList] at hlists
    rw [lex_eq_true_iff_lt.mpr hlex] at h
    cases h
  refine pairwise_cons.mpr ⟨?_, hrest⟩
  intro other hother
  rcases mem_cons.mp hother with rfl | hother
  · exact hle
  · exact String.le_trans hle ((pairwise_cons.mp hrest).1 other hother)

theorem sortKeys_arr {items : List Value} (h : ∀ item ∈ items, sortKeys item = item) : sortKeys (.arr items) = .arr items := by
  rw [sortKeys, sortItems_eq_map]
  exact congrArg Value.arr ((map_congr_left h).trans (map_id items))

theorem printField_ofList (name : Text) (value : Value) :
    printField (String.ofList name, value) = printString name ++ ':' :: print value := by
  rw [printField, String.toList_ofList]

mutual

theorem sortKeys_sortKeys : (value : Value) → sortKeys (sortKeys value) = sortKeys value
  | .null | .bool _ | .int _ | .float _ | .str _ => rfl
  | .arr items => congrArg Value.arr (sortItems_sortItems items)
  | .obj fields => by
    have hfixed : ∀ field ∈ (sortFields fields).insertionSort (fun a b => a.1 ≤ b.1), sortKeys field.2 = field.2 :=
      fun field hfield => fixed_of_mem_sortFields fields field ((mem_insertionSort _).mp hfield)
    change Value.obj ((sortFields ((sortFields fields).insertionSort fun a b => a.1 ≤ b.1)).insertionSort _) = _
    rw [sortFields_of_fixed hfixed]
    exact congrArg Value.obj (pairwise_sorted_fields (sortFields fields)).insertionSort_eq

theorem sortItems_sortItems : (items : List Value) → sortItems (sortItems items) = sortItems items
  | [] => rfl
  | item :: rest => by rw [sortItems, sortItems, sortKeys_sortKeys item, sortItems_sortItems rest]

theorem fixed_of_mem_sortFields : (fields : List (String × Value)) →
    ∀ field ∈ sortFields fields, sortKeys field.2 = field.2
  | [] => fun field hfield => absurd hfield not_mem_nil
  | entry :: rest => fun field hfield => by
    rcases mem_cons.mp hfield with rfl | hfield
    · exact fixed_sortField entry
    · exact fixed_of_mem_sortFields rest field hfield

theorem fixed_sortField : (field : String × Value) → sortKeys (sortField field).2 = (sortField field).2
  | (_, value) => sortKeys_sortKeys value

end

section

/-- The fields of an object with exactly the given names. -/
def asObject (names : List String) : Value → Option (List (String × Value))
  | .obj fields =>
    if (∀ name ∈ names, name ∈ fields.map Prod.fst) ∧ ∀ name ∈ fields.map Prod.fst, name ∈ names then some fields
    else none
  | _ => none

def field (fields : List (String × Value)) (name : String) (shape : Shape α) : Option α :=
  (fields.lookup name).bind shape.decode

def sortedFields (fields : List (String × Value)) : List (String × Value) :=
  (sortFields fields).insertionSort fun a b => a.1 ≤ b.1

theorem perm_sortedFields (fields : List (String × Value)) : (sortedFields fields).Perm (sortFields fields) :=
  perm_insertionSort _ _

theorem keys_sortedFields (fields : List (String × Value)) :
    ((sortedFields fields).map Prod.fst).Perm (fields.map Prod.fst) := by
  have hperm := (perm_sortedFields fields).map Prod.fst
  rwa [keys_sortFields] at hperm

variable {fields : List (String × Value)}

theorem asObject_sortKeys {names : List String}
    (hnames : fields.map Prod.fst = names) : asObject names (sortKeys (.obj fields)) = some (sortedFields fields) := by
  have hkeys := keys_sortedFields fields
  rw [hnames] at hkeys
  change (if _ then some (sortedFields fields) else none) = _
  rw [if_pos]
  exact ⟨fun name h => hkeys.mem_iff.mpr h, fun name h => hkeys.mem_iff.mp h⟩

theorem asObject_other {names : List String} {name : String}
    (hname : name ∈ names) (hmissing : name ∉ fields.map Prod.fst) : asObject names (sortKeys (.obj fields)) = none := by
  have hkeys := keys_sortedFields fields
  change (if _ then some (sortedFields fields) else none) = _
  rw [if_neg]
  exact fun h => hmissing (hkeys.mem_iff.mp (h.1 name hname))

theorem lookup_sortFields (fields : List (String × Value)) (name : String) :
    (sortFields fields).lookup name = (fields.lookup name).map sortKeys := by
  induction fields with
  | nil => rfl
  | cons field fields ih =>
    obtain ⟨key, value⟩ := field
    rw [sortFields, sortField, lookup_cons, lookup_cons]
    split
    next => rfl
    next => exact ih

theorem lookup_eq_some_iff [BEq α] [LawfulBEq α] {fields : List (α × β)} (hnodup : (fields.map Prod.fst).Nodup)
    {name : α} {value : β} : fields.lookup name = some value ↔ (name, value) ∈ fields := by
  induction fields with
  | nil => simp
  | cons field fields ih =>
    obtain ⟨key, other⟩ := field
    rw [map_cons, nodup_cons] at hnodup
    rw [lookup_cons]
    by_cases hkey : name = key
    · subst hkey
      have hnot : ∀ v, (name, v) ∉ fields := fun v hv => hnodup.1 (mem_map.mpr ⟨_, hv, rfl⟩)
      simp [hnot, eq_comm]
    · have hbeq : (name == key) = false := by simpa using hkey
      rw [hbeq]
      simp [hkey, ih hnodup.2]

theorem lookup_perm [BEq α] [LawfulBEq α] {fields others : List (α × β)} (hperm : fields.Perm others)
    (hnodup : (fields.map Prod.fst).Nodup) (name : α) : fields.lookup name = others.lookup name := by
  have hothers : (others.map Prod.fst).Nodup := (hperm.map Prod.fst).nodup_iff.mp hnodup
  refine Option.ext fun value => ?_
  rw [lookup_eq_some_iff hnodup, lookup_eq_some_iff hothers, hperm.mem_iff]

theorem lookup_sortedFields (hnodup : (fields.map Prod.fst).Nodup) (name : String) :
    (sortedFields fields).lookup name = (fields.lookup name).map sortKeys := by
  have hsorted : ((sortedFields fields).map Prod.fst).Nodup := (keys_sortedFields fields).nodup_iff.mpr hnodup
  rw [lookup_perm (perm_sortedFields fields) hsorted, lookup_sortFields]

/-- A field of a record, with the shape of its values and its value in one record. -/
structure Slot where
  name : String
  type : Type
  shape : Shape type
  value : type

def recordShape (names : List String) (slots : α → List Slot) (read : List (String × Value) → Option α) :
    Shape α where
  encode x := .obj ((slots x).map fun slot => (slot.name, slot.shape.encode slot.value))
  decode value := (asObject names value).bind read

variable {names : List String} {slots : α → List Slot} {read : List (String × Value) → Option α} {x : α}

theorem field_sortedFields (hnodup : (fields.map Prod.fst).Nodup) {name : String}
    {shape : Shape β} {y : β} (hmem : (name, shape.encode y) ∈ fields) :
    field (sortedFields fields) name shape = shape.decode (sortKeys (shape.encode y)) := by
  unfold field
  rw [lookup_sortedFields hnodup, (lookup_eq_some_iff hnodup).mpr hmem]
  rfl

theorem recordShape_decode {P : Option α → Prop} (hnames : (slots x).map Slot.name = names) (hnodup : names.Nodup)
    (h : ∀ found, (∀ slot ∈ slots x,
        field found slot.name slot.shape = slot.shape.decode (sortKeys (slot.shape.encode slot.value))) →
      P (read found)) :
    P ((recordShape names slots read).decode (sortKeys ((recordShape names slots read).encode x))) := by
  have hkeys : ((slots x).map fun slot => (slot.name, slot.shape.encode slot.value)).map Prod.fst = names := by
    rw [map_map, ← hnames]
    rfl
  change P ((asObject names (sortKeys (.obj _))).bind read)
  rw [asObject_sortKeys hkeys]
  refine h _ fun slot hslot => ?_
  exact field_sortedFields (by rwa [hkeys]) (mem_map.mpr ⟨slot, hslot, rfl⟩)

theorem recordShape_plain (hnames : (slots x).map Slot.name = names) (hnodup : names.Nodup)
    (hslots : ∀ slot ∈ slots x, Plain (slot.shape.encode slot.value)) :
    Plain ((recordShape names slots read).encode x) := by
  have hkeys : ((slots x).map fun slot => (slot.name, slot.shape.encode slot.value)).map Prod.fst = names := by
    rw [map_map, ← hnames]
    rfl
  refine ⟨by rwa [hkeys], plainFields_iff.mpr ?_⟩
  intro pair hpair
  obtain ⟨slot, hslot, rfl⟩ := mem_map.mp hpair
  exact hslots slot hslot

theorem recordShape_restores (hnames : (slots x).map Slot.name = names) (hnodup : names.Nodup)
    (hslots : ∀ slot ∈ slots x, slot.shape.Restores slot.value)
    (hread : ∀ found, (∀ slot ∈ slots x, field found slot.name slot.shape = some slot.value) → read found = some x) :
    (recordShape names slots read).Restores x := by
  constructor
  · exact recordShape_plain hnames hnodup fun slot hslot => (hslots slot hslot).plain
  · refine recordShape_decode (P := fun result => result = some x) hnames hnodup fun found hfound => ?_
    refine hread found fun slot hslot => ?_
    rw [hfound slot hslot]
    exact (hslots slot hslot).decode

theorem recordShape_other {other : List String} {slots' : β → List Slot} {read' : List (String × Value) → Option β}
    (name : String) (hname : name ∈ other) (hmissing : name ∉ (slots x).map Slot.name) :
    (recordShape other slots' read').decode (sortKeys ((recordShape names slots read).encode x)) = none := by
  change (asObject other (sortKeys (.obj _))).bind read' = none
  rw [asObject_other hname]
  · rfl
  · rwa [map_map]

end

/-- One array of a document is permuted, at any depth. -/
inductive Rearranged : Value → Value → Prop
  | perm {items others : List Value} (h : items.Perm others) : Rearranged (.arr items) (.arr others)
  | item {before after : List Value} {value other : Value} (h : Rearranged value other) :
    Rearranged (.arr (before ++ value :: after)) (.arr (before ++ other :: after))
  | entry {before after : List (String × Value)} {name : String} {value other : Value} (h : Rearranged value other) :
    Rearranged (.obj (before ++ (name, value) :: after)) (.obj (before ++ (name, other) :: after))

def Rigid (value : Value) : Prop := ∀ other, ¬ Rearranged value other

section

variable {α : Type}

theorem rigid_null : Rigid .null := fun _ h => nomatch h

theorem rigid_bool (value : Bool) : Rigid (.bool value) := fun _ h => nomatch h

theorem rigid_int (value : Int) : Rigid (.int value) := fun _ h => nomatch h

theorem rigid_str (text : Text) : Rigid (.str text) := fun _ h => nomatch h

theorem rigid_obj {fields : List (String × Value)} (h : ∀ field ∈ fields, Rigid field.2) : Rigid (.obj fields) := by
  intro other hstep
  cases hstep with
  | @entry before after name value other hvalue =>
    have hmem : (name, value) ∈ before ++ (name, value) :: after := by simp
    exact h _ hmem other hvalue

theorem textShape_rigid (text : Text) : Rigid (textShape.encode text) := rigid_str text

theorem natShape_rigid (n : Nat) : Rigid (natShape.encode n) := rigid_int n

theorem boolShape_rigid (b : Bool) : Rigid (boolShape.encode b) := rigid_bool b

theorem enumShape_rigid {members : List α} {name : α → String} (x : α) : Rigid ((enumShape members name).encode x) :=
  rigid_str _

theorem optionShape_rigid {shape : Shape α} (h : ∀ x, Rigid (shape.encode x)) (item : Option α) :
    Rigid ((optionShape shape).encode item) := by
  cases item with
  | none => exact rigid_null
  | some x => exact h x

theorem recordShape_rigid {names : List String} {slots : α → List Slot} {read : List (String × Value) → Option α}
    {x : α} (h : ∀ slot ∈ slots x, Rigid (slot.shape.encode slot.value)) :
    Rigid ((recordShape names slots read).encode x) := by
  refine rigid_obj ?_
  intro field hfield
  obtain ⟨slot, hslot, rfl⟩ := mem_map.mp hfield
  exact h slot hslot

end

section

variable {α : Type}

theorem perm_of_perm_map {β : Type} {f : α → β} {items : List α} {others : List β} (h : others.Perm (items.map f)) :
    ∃ items' : List α, items'.Perm items ∧ others = items'.map f := by
  generalize hmap : items.map f = image at h
  induction h generalizing items with
  | nil =>
    obtain rfl := map_eq_nil_iff.mp hmap
    exact ⟨[], .refl _, rfl⟩
  | cons b _ ih =>
    obtain ⟨a, rest, rfl, rfl, hrest⟩ := map_eq_cons_iff.mp hmap
    obtain ⟨rest', hperm, rfl⟩ := ih hrest
    exact ⟨a :: rest', hperm.cons a, rfl⟩
  | swap b c bs =>
    obtain ⟨a, rest, rfl, rfl, hrest⟩ := map_eq_cons_iff.mp hmap
    obtain ⟨a', rest', rfl, rfl, rfl⟩ := map_eq_cons_iff.mp hrest
    exact ⟨a' :: a :: rest', .swap a a' rest', rfl⟩
  | trans _ _ ih ih' =>
    obtain ⟨middle, hmiddle, rfl⟩ := ih' hmap
    obtain ⟨items', hitems', rfl⟩ := ih rfl
    exact ⟨items', hitems'.trans hmiddle, rfl⟩

theorem tupleShape_rearranged {shape : Shape α} {items : List α} {other : Value} (hrigid : ∀ x, Rigid (shape.encode x))
    (h : Rearranged ((tupleShape shape).encode items) other) :
    ∃ items', items'.Perm items ∧ other = (tupleShape shape).encode items' := by
  change Rearranged (.arr (items.map shape.encode)) other at h
  generalize hmap : items.map shape.encode = image at h
  cases h with
  | perm hperm =>
    obtain ⟨items', hitems', heq⟩ := perm_of_perm_map (hmap ▸ hperm.symm)
    exact ⟨items', hitems', congrArg Value.arr heq⟩
  | @item before after value other hstep =>
    have hmem : value ∈ items.map shape.encode := by
      rw [hmap]
      simp
    obtain ⟨x, -, rfl⟩ := mem_map.mp hmem
    exact absurd hstep (hrigid x other)

theorem recordShape_rearranged {names : List String} {slots : α → List Slot}
    {read : List (String × Value) → Option α} {x : α} {other : Value}
    (h : Rearranged ((recordShape names slots read).encode x) other) :
    ∃ before slot after value, slots x = before ++ slot :: after ∧ Rearranged (slot.shape.encode slot.value) value ∧
      other = .obj (before.map (fun slot => (slot.name, slot.shape.encode slot.value)) ++
        (slot.name, value) :: after.map fun slot => (slot.name, slot.shape.encode slot.value)) := by
  change Rearranged (.obj ((slots x).map fun slot => (slot.name, slot.shape.encode slot.value))) other at h
  generalize hmap : (slots x).map (fun slot => (slot.name, slot.shape.encode slot.value)) = image at h
  cases h with
  | @entry before after name value other hstep =>
    obtain ⟨slots₁, slots₂, hslots, rfl, htail⟩ := map_eq_append_iff.mp hmap
    obtain ⟨slot, slots₃, rfl, hslot, rfl⟩ := map_eq_cons_iff.mp htail
    cases hslot
    exact ⟨slots₁, slot, slots₃, other, hslots, hstep, rfl⟩

end

end Json
