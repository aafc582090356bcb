import TypedCbor.Proofs.Item.Defaults
import TypedCbor.Proofs.ItemReader.Blind

namespace TypedCbor

def Item.Open (item : Item) : Prop :=
  match item.body with
  | .array framing _ | .map framing _ => framing = .delimited
  | _ => True

def Item.Indefinite : Item → Prop := Everywhere Open

-- No value in it is written as a byte string of its own encoding.
inductive Value.Unembedded : Value → Prop where
  | intro {value : Value} (here : ∀ inner serialized, value ≠ .embedded inner serialized)
    (inside : ∀ part ∈ value.parts, Value.Unembedded part) : Value.Unembedded value

namespace Item

theorem everywhere_unframed {P Q : Item → Prop} (carried : ∀ item, P item → Q item.unframed)
    {item : Item} (bare : item.Unembedded) (holds : item.Everywhere P) : item.unframed.Everywhere Q := by
  induction holds with
  | @intro item here inside ih =>
    refine .intro (carried item here) ?_
    rcases item with ⟨tags, body⟩
    cases body with
    | unsigned | negative | bytes | text | simple => exact fun child member => absurd member List.not_mem_nil
    | embedded => cases bare.here
    | array framing items =>
      intro child member
      rw [unframed, body_mk, bodyUnframed, Body.children, itemsUnframed_eq] at member
      obtain ⟨child, present, rfl⟩ := List.mem_map.mp member
      exact ih child present (bare.child present)
    | map framing entries =>
      intro child member
      rw [unframed, body_mk, bodyUnframed, Body.children, flattened_unframed, itemsUnframed_eq] at member
      obtain ⟨child, present, rfl⟩ := List.mem_map.mp member
      exact ih child present (bare.child present)

theorem unembedded_unframed {item : Item} (bare : item.Unembedded) : item.unframed.Unembedded := by
  refine everywhere_unframed (fun item here => ?_) bare bare
  rcases item with ⟨tags, body⟩
  cases body with
  | embedded => cases here
  | unsigned | negative | bytes | text | simple | array | map => rfl

theorem indefinite_unframed {item : Item} (bare : item.Unembedded) : item.unframed.Indefinite := by
  refine everywhere_unframed (P := fun item => item.body.isEmbedded = false) (fun item _ => ?_) bare bare
  rcases item with ⟨tags, body⟩
  cases body <;> trivial

theorem made_unframed {item : Item} {definite : Bool} (bare : item.Unembedded)
    (made : item.Everywhere (Made definite)) : item.unframed.Everywhere (Made false) := by
  refine everywhere_unframed (fun item made => ?_) bare made
  rcases item with ⟨tags, body⟩
  refine ⟨made.tags, ?_⟩
  have ending (count : Nat) : Framing.delimited.Made false count :=
    ⟨fun head member => (Option.not_mem_none head member).elim, fun definite => nomatch definite⟩
  cases body with
  | unsigned | negative | bytes | text | simple | embedded => exact made.body
  | array framing items => exact ending _
  | map framing entries => exact ending _

end Item

theorem eq_of_map_eq {α β : Type} {f : α → β} {left right : List α}
    (told : ∀ a ∈ left, ∀ b ∈ right, f a = f b → a = b) (same : left.map f = right.map f) :
    left = right := by
  induction left generalizing right with
  | nil => exact (List.map_eq_nil_iff.mp same.symm).symm
  | cons a left ih =>
    cases right with
    | nil => cases same
    | cons b right =>
      obtain ⟨here, rest⟩ := List.cons.inj same
      have others := ih (fun a' member b' member' => told a' (List.mem_cons_of_mem a member) b'
        (List.mem_cons_of_mem b member')) rest
      rw [told a List.mem_cons_self b List.mem_cons_self here, others]

theorem Framing.Made.eq {framing : Framing} {count : Nat} (made : framing.Made true count) :
    framing = .counted (.narrowest count) := by
  cases framing with
  | counted width =>
    have shortest : width = .narrowest count := made.shortest _ rfl
    rw [shortest]
  | delimited => cases made.definite rfl

namespace Item

theorem eq_of_unframed {item other : Item} (made : item.Everywhere (Made true))
    (made' : other.Everywhere (Made true)) (same : item.unframed = other.unframed) : item = other := by
  induction made generalizing other with
  | @intro item here inside ih =>
    have here' := made'.here
    rcases item with ⟨tags, body⟩
    rcases other with ⟨tags', body'⟩
    obtain ⟨rfl, bodies⟩ := mk.inj same
    cases body with
    | unsigned | negative | bytes | text | simple | embedded =>
      cases body' <;> cases bodies
      rfl
    | array framing items =>
      cases body' with
      | unsigned | negative | bytes | text | simple | embedded | map => cases bodies
      | array framing' items' =>
        have children := (Body.array.inj bodies).2
        rw [itemsUnframed_eq, itemsUnframed_eq] at children
        have equal : items = items' :=
          eq_of_map_eq (fun child member other member' => ih child member (made'.child member')) children
        cases equal
        rw [Framing.Made.eq here.body, Framing.Made.eq here'.body]
    | map framing entries =>
      cases body' with
      | unsigned | negative | bytes | text | simple | embedded | array => cases bodies
      | map framing' entries' =>
        have children := (Body.map.inj bodies).2
        rw [entriesUnframed_eq, entriesUnframed_eq] at children
        have equal : entries = entries' := by
          refine eq_of_map_eq (fun entry member other member' both => ?_) children
          obtain ⟨keys, values⟩ := Prod.mk.inj both
          have key := ih entry.1 (mem_flattened.mpr ⟨entry, member, .inl rfl⟩)
            (made'.child (mem_flattened.mpr ⟨other, member', .inl rfl⟩)) keys
          have value := ih entry.2 (mem_flattened.mpr ⟨entry, member, .inr rfl⟩)
            (made'.child (mem_flattened.mpr ⟨other, member', .inr rfl⟩)) values
          exact Prod.ext key value
        cases equal
        rw [Framing.Made.eq here.body, Framing.Made.eq here'.body]

theorem framedBy_counted {config : Config} (definite : config.definiteLengths = true) {item : Item}
    (made : item.Made true) : item.FramedBy config := by
  rcases item with ⟨tags, body⟩
  have counted (count : Nat) : config.framing count = .counted (.narrowest count) := if_pos definite
  cases body with
  | unsigned | negative | bytes | text | simple | embedded => trivial
  | array framing items => exact (Framing.Made.eq made.body).trans (counted _).symm
  | map framing entries => exact (Framing.Made.eq made.body).trans (counted _).symm

theorem framedBy_unframed {config : Config} (indefinite : config.definiteLengths = false) (item : Item) :
    item.unframed.FramedBy config := by
  rcases item with ⟨tags, body⟩
  have ending (count : Nat) : config.framing count = .delimited := by
    rw [Config.framing, indefinite, if_neg Bool.false_ne_true]
  cases body with
  | unsigned | negative | bytes | text | simple | embedded => trivial
  | array framing items => exact (ending _).symm
  | map framing entries => exact (ending _).symm

theorem unframed_tagged (tags : List UInt64) (item : Item) :
    (item.tagged tags).unframed = item.unframed.tagged tags := by
  rcases item with ⟨own, body⟩
  rfl

end Item

section
variable {config : Config}

theorem Item.unframed_array (items : List Item) :
    (Item.array (config.set .definiteLengths true) items).unframed =
      Item.array (config.set .definiteLengths false) (itemsUnframed items) := rfl

theorem Item.unframed_map (entries : List (Item × Item)) :
    (Item.map (config.set .definiteLengths true) entries).unframed =
      Item.map (config.set .definiteLengths false) (entriesUnframed entries) := rfl

theorem DeclaredDefault.unframed_item (element : Element) (standard : DeclaredDefault) :
    (standard.item (config.set .definiteLengths true) element).unframed =
      standard.item (config.set .definiteLengths false) element := by
  cases standard with
  | null | bool | text => rfl
  | integer value => exact Item.unframed_of_leaf (Item.leaf_ofSigned value)
  | single bits => exact Item.unframed_of_leaf (Item.leaf_ofSingle _ bits)
  | double bits => exact Item.unframed_of_leaf (Item.leaf_ofDouble _ bits)
  | bytes value =>
    have numbers : itemsUnframed (value.map fun byte => .ofWord byte.toUInt64) =
        value.map fun byte => .ofWord byte.toUInt64 := by
      rw [itemsUnframed_eq, List.map_map]
      rfl
    change (if config.byteStrings || element.byteString then Item.ofBytes value else _).unframed =
      if config.byteStrings || element.byteString then Item.ofBytes value else _
    split
    · rfl
    · rw [Item.unframed_array, numbers]
  | emptyArray => exact Item.unframed_array []
  | emptyMap => exact Item.unframed_map []

theorem Element.leavesOut_unframed {element : Element} (plain : element.object = false) {item : Item}
    (made : item.Everywhere (Item.Made true)) (bare : item.Unembedded) :
    element.leavesOut (config.set .definiteLengths false) item.unframed =
      element.leavesOut (config.set .definiteLengths true) item := by
  have told (standard : DeclaredDefault) :
      (item.unframed.wire == standard.encoded (config.set .definiteLengths false) element) =
        (item.wire == standard.encoded (config.set .definiteLengths true) element) := by
    rw [← standard.wire_item plain, ← standard.wire_item plain, Bool.eq_iff_iff, beq_iff_eq, beq_iff_eq]
    have made' := standard.made_item (config.set .definiteLengths true) element
    constructor
    · intro same
      have items := Item.eq_of_wire_default (Item.made_unframed bare made)
        (Item.unembedded_unframed bare) (Item.framedBy_unframed rfl item) same
      rw [← standard.unframed_item] at items
      rw [Item.eq_of_unframed made made' items]
    · intro same
      have items := Item.eq_of_wire_default made bare (Item.framedBy_counted rfl made.here) same
      rw [items, standard.unframed_item]
  have kept (definite : Bool) : (config.set .definiteLengths definite).encodeDefaults = config.encodeDefaults := rfl
  rw [leavesOut, leavesOut, kept, kept]
  cases element.declaredDefault with
  | none => rfl
  | some standard =>
    cases config.encodeDefaults with
    | true => rfl
    | false => exact told standard

namespace Value

-- A value comes to one item up to framing, whichever way its lengths are given.
structure Reframes (config : Config) (value : Value) : Prop where
  items : ∀ markers, markers.object = false →
    value.item (config.set .definiteLengths false) markers =
      Item.unframed <$> value.item (config.set .definiteLengths true) markers
  bare : ∀ markers item, markers.object = false →
    value.item (config.set .definiteLengths true) markers = .ok item → item.Unembedded

theorem reframes_of_leaf {value : Value} {made : Except Error Item}
    (same : ∀ definite markers, markers.object = false →
      value.item (config.set .definiteLengths definite) markers = made)
    (leaf : ∀ item, made = .ok item → item.body.isLeaf = true) : value.Reframes config := by
  refine ⟨fun markers plain => ?_, fun markers item plain found => ?_⟩
  · rw [same false markers plain, same true markers plain]
    cases made with
    | error e => rfl
    | ok item => exact congrArg Except.ok (Item.unframed_of_leaf (leaf item rfl)).symm
  · rw [same true markers plain] at found
    exact Item.unembedded_of_leaf (leaf item found)

theorem items_reframed {values : List Value} (each : ∀ value ∈ values, value.Reframes config) :
    valueItems (config.set .definiteLengths false) values =
      itemsUnframed <$> valueItems (config.set .definiteLengths true) values := by
  induction values with
  | nil => rfl
  | cons value values ih =>
    obtain ⟨here, others⟩ := List.forall_mem_cons.mp each
    rw [valueItems, valueItems, here.items {} rfl, ih others]
    cases value.item (config.set .definiteLengths true) {} with
    | error e => rfl
    | ok item => cases valueItems (config.set .definiteLengths true) values <;> rfl

theorem items_bare {values : List Value} (each : ∀ value ∈ values, value.Reframes config)
    {items : List Item} (found : valueItems (config.set .definiteLengths true) values = .ok items) :
    ∀ item ∈ items, item.Unembedded := by
  induction values generalizing items with
  | nil =>
    cases found
    exact fun item member => absurd member List.not_mem_nil
  | cons value values ih =>
    obtain ⟨here, others⟩ := List.forall_mem_cons.mp each
    obtain ⟨item, first, found⟩ := bind_eq_ok.mp found
    obtain ⟨items, rest, same⟩ := bind_eq_ok.mp found
    cases same
    exact List.forall_mem_cons.mpr ⟨here.bare {} item rfl first, ih others rest⟩

theorem array_reframed {values : List Value} (each : ∀ value ∈ values, value.Reframes config) :
    Item.array (config.set .definiteLengths false) <$>
        valueItems (config.set .definiteLengths false) values =
      Item.unframed <$> (Item.array (config.set .definiteLengths true) <$>
        valueItems (config.set .definiteLengths true) values) := by
  rw [items_reframed each]
  cases valueItems (config.set .definiteLengths true) values <;> rfl

theorem array_bare {values : List Value} (each : ∀ value ∈ values, value.Reframes config) {item : Item}
    (found : Item.array (config.set .definiteLengths true) <$>
      valueItems (config.set .definiteLengths true) values = .ok item) : item.Unembedded := by
  obtain ⟨items, made, rfl⟩ := map_eq_ok.mp found
  exact .intro rfl (items_bare each made)

theorem collected_reframed {values : List Value} (each : ∀ value ∈ values, value.Reframes config)
    (collected : Bytes) :
    collectedItem (config.set .definiteLengths false) values collected =
      Item.unframed <$> collectedItem (config.set .definiteLengths true) values collected := by
  induction values generalizing collected with
  | nil => rfl
  | cons value values ih =>
    obtain ⟨here, others⟩ := List.forall_mem_cons.mp each
    rw [collectedItem, collectedItem]
    cases value.asByte with
    | some byte => exact ih others _
    | none =>
      dsimp only
      rw [here.items {} rfl, items_reframed others]
      cases value.item (config.set .definiteLengths true) {} with
      | error e => rfl
      | ok item =>
        cases valueItems (config.set .definiteLengths true) values with
        | error e => rfl
        | ok items =>
          change Except.ok _ = Except.ok _
          rw [Item.unframed_array]
          simp only [itemsUnframed_eq, List.map_append, List.map_map, List.map_cons]
          rfl

theorem collected_bare {values : List Value} (each : ∀ value ∈ values, value.Reframes config)
    {collected : Bytes} {item : Item}
    (found : collectedItem (config.set .definiteLengths true) values collected = .ok item) :
    item.Unembedded := by
  induction values generalizing collected with
  | nil =>
    cases found
    exact Item.unembedded_of_leaf rfl
  | cons value values ih =>
    obtain ⟨here, others⟩ := List.forall_mem_cons.mp each
    rw [collectedItem] at found
    split at found
    · exact ih others found
    · obtain ⟨item, first, found⟩ := bind_eq_ok.mp found
      obtain ⟨items, rest, same⟩ := bind_eq_ok.mp found
      cases same
      refine .intro rfl fun child member => ?_
      rcases List.mem_append.mp member with replayed | kept
      · obtain ⟨byte, -, rfl⟩ := List.mem_map.mp replayed
        exact Item.unembedded_of_leaf rfl
      · exact List.forall_mem_cons.mpr ⟨here.bare {} _ rfl first, items_bare others rest⟩ child kept

theorem entries_reframed {entries : List (Value × Value)}
    (each : ∀ entry ∈ entries, entry.1.Reframes config ∧ entry.2.Reframes config) :
    entryItems (config.set .definiteLengths false) entries =
      entriesUnframed <$> entryItems (config.set .definiteLengths true) entries := by
  induction entries with
  | nil => rfl
  | cons entry entries ih =>
    obtain ⟨⟨first, second⟩, others⟩ := List.forall_mem_cons.mp each
    rcases entry with ⟨key, value⟩
    rw [entryItems, entryItems, first.items {} rfl, second.items {} rfl, ih others]
    cases key.item (config.set .definiteLengths true) {} with
    | error e => rfl
    | ok keyItem =>
      cases value.item (config.set .definiteLengths true) {} with
      | error e => rfl
      | ok valueItem => cases entryItems (config.set .definiteLengths true) entries <;> rfl

theorem entries_bare {entries : List (Value × Value)}
    (each : ∀ entry ∈ entries, entry.1.Reframes config ∧ entry.2.Reframes config)
    {items : List (Item × Item)}
    (found : entryItems (config.set .definiteLengths true) entries = .ok items) :
    ∀ item ∈ flattened items, item.Unembedded := by
  induction entries generalizing items with
  | nil =>
    cases found
    exact fun item member => absurd member List.not_mem_nil
  | cons entry entries ih =>
    obtain ⟨⟨first, second⟩, others⟩ := List.forall_mem_cons.mp each
    rcases entry with ⟨key, value⟩
    obtain ⟨keyItem, keyFound, found⟩ := bind_eq_ok.mp found
    obtain ⟨valueItem, valueFound, found⟩ := bind_eq_ok.mp found
    obtain ⟨items, rest, same⟩ := bind_eq_ok.mp found
    cases same
    refine List.forall_mem_cons.mpr ⟨first.bare {} _ rfl keyFound, ?_⟩
    exact List.forall_mem_cons.mpr ⟨second.bare {} _ rfl valueFound, ih others rest⟩

theorem fields_reframed {shape : Shape} (plain : ∀ name, (shape.elementNamed name).object = false)
    {fields : List (String × Value)} (each : ∀ field ∈ fields, field.2.Reframes config) :
    fieldItems (config.set .definiteLengths false) shape fields =
      (List.map fun field => (field.1, field.2.unframed)) <$>
        fieldItems (config.set .definiteLengths true) shape fields := by
  induction fields with
  | nil => rfl
  | cons field fields ih =>
    obtain ⟨here, others⟩ := List.forall_mem_cons.mp each
    rcases field with ⟨name, value⟩
    have unmarked : (shape.elementNamed name).markers.object = false := plain name
    rw [fieldItems, fieldItems, here.items _ unmarked, ih others]
    cases made : value.item (config.set .definiteLengths true) (shape.elementNamed name).markers with
    | error e => rfl
    | ok item =>
      have whole : item.Everywhere (Item.Made true) := Value.makes _ value _ item made
      have bare : item.Unembedded := here.bare _ item unmarked made
      simp only [ok_map, ok_bind, Element.leavesOut_unframed (plain name) whole bare]
      cases fieldItems (config.set .definiteLengths true) shape fields with
      | error e => rfl
      | ok items =>
        simp only [ok_map, ok_bind]
        split <;> rfl

theorem fields_bare {shape : Shape} (plain : ∀ name, (shape.elementNamed name).object = false)
    {fields : List (String × Value)} (each : ∀ field ∈ fields, field.2.Reframes config)
    {items : List (Element × Item)}
    (found : fieldItems (config.set .definiteLengths true) shape fields = .ok items) :
    ∀ field ∈ items, field.2.Unembedded := by
  induction fields generalizing items with
  | nil =>
    cases found
    exact fun item member => absurd member List.not_mem_nil
  | cons field fields ih =>
    obtain ⟨here, others⟩ := List.forall_mem_cons.mp each
    rcases field with ⟨name, value⟩
    obtain ⟨item, first, found⟩ := bind_eq_ok.mp found
    obtain ⟨items, rest, same⟩ := bind_eq_ok.mp found
    cases same
    split
    · exact ih others rest
    · exact List.forall_mem_cons.mpr ⟨here.bare _ item (plain name) first, ih others rest⟩

theorem leaf_keyItem (element : Element) : (element.keyItem config).body.isLeaf = true := by
  rw [Element.keyItem, Item.body_tagged]
  split
  · split
    · exact Item.leaf_ofSigned _
    · rfl
  · rfl

theorem unframed_record (shape : Shape) (fields : List (Element × Item)) :
    (Item.record (config.set .definiteLengths true) shape fields).unframed =
      Item.record (config.set .definiteLengths false) shape
        (fields.map fun field => (field.1, field.2.unframed)) := by
  have value (field : Element × Item) :
      (field.1.valueItem (config.set .definiteLengths true) field.2).unframed =
        field.1.valueItem (config.set .definiteLengths false) field.2.unframed :=
    Item.unframed_tagged _ field.2
  unfold Item.record
  cases shape.arrayTags with
  | some tags =>
    dsimp only
    rw [Item.unframed_tagged, Item.unframed_array, itemsUnframed_eq, List.map_map, List.map_map]
    exact congrArg (fun items => (Item.array _ items).tagged tags) (List.map_congr_left fun field _ => value field)
  | none =>
    dsimp only
    rw [Item.unframed_map, entriesUnframed_eq, List.map_map, List.map_map]
    refine congrArg (Item.map _) (List.map_congr_left fun field _ => ?_)
    exact Prod.ext (Item.unframed_of_leaf (leaf_keyItem field.1)) (value field)

theorem bare_tagged {tags : List UInt64} {item : Item} (bare : item.Unembedded) :
    (item.tagged tags).Unembedded := by
  cases bare with
  | intro here inside => exact .intro here inside

theorem bare_record {shape : Shape} {fields : List (Element × Item)}
    (each : ∀ field ∈ fields, field.2.Unembedded) : (Item.record config shape fields).Unembedded := by
  unfold Item.record
  split
  · refine bare_tagged (.intro rfl fun child member => ?_)
    obtain ⟨field, present, rfl⟩ := List.mem_map.mp member
    exact bare_tagged (each field present)
  · refine .intro rfl fun child member => ?_
    obtain ⟨entry, present, same⟩ := mem_flattened.mp member
    obtain ⟨field, written, rfl⟩ := List.mem_map.mp present
    rcases same with rfl | rfl
    · exact Item.unembedded_of_leaf (leaf_keyItem field.1)
    · exact bare_tagged (each field written)

theorem reframes_record (plain : config.WithoutObjects) (name : String) {fields : List (String × Value)}
    (each : ∀ field ∈ fields, field.2.Reframes config) : (Value.record name fields).Reframes config := by
  have unmarked := plain.elementNamed name .keyed []
  refine ⟨fun markers _ => ?_, fun markers item _ found => ?_⟩
  · have fieldsSame := fields_reframed unmarked each
    rw [Value.item, Value.item]
    change Item.record _ (config.shape name .keyed []) <$> fieldItems _ (config.shape name .keyed []) fields =
      Item.unframed <$> (Item.record _ (config.shape name .keyed []) <$>
        fieldItems _ (config.shape name .keyed []) fields)
    rw [fieldsSame]
    cases fieldItems (config.set .definiteLengths true) (config.shape name .keyed []) fields with
    | error e => rfl
    | ok items => exact congrArg Except.ok (unframed_record _ items).symm
  · obtain ⟨items, made, rfl⟩ := map_eq_ok.mp found
    exact bare_record (fields_bare unmarked each made)

theorem reframes_map {entries : List (Value × Value)}
    (each : ∀ entry ∈ entries, entry.1.Reframes config ∧ entry.2.Reframes config) :
    (Value.map entries).Reframes config := by
  refine ⟨fun markers _ => ?_, fun markers item _ found => ?_⟩
  · rw [Value.item, Value.item, entries_reframed each]
    cases entryItems (config.set .definiteLengths true) entries <;> rfl
  · obtain ⟨items, made, rfl⟩ := map_eq_ok.mp found
    exact .intro rfl (entries_bare each made)

theorem reframes_variant (name : String) {content : Value} (reframes : content.Reframes config) :
    (Value.variant name content).Reframes config := by
  refine ⟨fun markers _ => ?_, fun markers item _ found => ?_⟩
  · rw [Value.item, Value.item, reframes.items {} rfl]
    cases content.item (config.set .definiteLengths true) {} <;> rfl
  · obtain ⟨inner, made, rfl⟩ := map_eq_ok.mp found
    refine .intro rfl (List.forall_mem_cons.mpr ⟨Item.unembedded_of_leaf rfl, ?_⟩)
    exact List.forall_mem_singleton.mpr (reframes.bare {} inner rfl made)

theorem reframes (plain : config.WithoutObjects) {value : Value} (bare : value.Unembedded) :
    value.Reframes config := by
  induction bare with
  | @intro value here inside ih =>
    cases value with
    | bool value =>
      refine reframes_of_leaf (fun _ _ _ => rfl) fun item found => ?_
      cases found
      rfl
    | int kind n => exact reframes_of_leaf (fun _ _ _ => rfl) fun item found => Item.leaf_ofInt found
    | single bits =>
      refine @reframes_of_leaf _ _ (.ok (.ofSingle config.floatForm bits)) (fun _ _ _ => rfl) fun item found => ?_
      cases found
      exact Item.leaf_ofSingle _ bits
    | double bits =>
      refine @reframes_of_leaf _ _ (.ok (.ofDouble config.floatForm bits)) (fun _ _ _ => rfl) fun item found => ?_
      cases found
      exact Item.leaf_ofDouble _ bits
    | char c =>
      refine reframes_of_leaf (fun _ _ _ => rfl) fun item found => ?_
      cases found
      rfl
    | text content | unitVariant content | bytes content =>
      refine reframes_of_leaf (fun _ _ _ => rfl) fun item found => ?_
      cases found
      rfl
    | unit | none =>
      refine @reframes_of_leaf _ _ (.ok .null) (fun definite markers unmarked => ?_) fun item found => ?_
      · rw [Value.item, unmarked]
        rfl
      · cases found
        rfl
    | some value | newtype value =>
      have part := ih value (by simp [parts])
      exact ⟨part.items, part.bare⟩
    | visited how value =>
      have part := ih value (by simp [parts])
      exact ⟨part.items, part.bare⟩
    | seq values =>
      refine ⟨fun markers _ => ?_, fun markers item _ found => ?_⟩
      · rw [Value.item, Value.item]
        change (if markers.byteString || config.byteStrings then _ else _) =
          Item.unframed <$> if markers.byteString || config.byteStrings then _ else _
        split
        · exact collected_reframed ih []
        · exact array_reframed ih
      · rw [Value.item] at found
        split at found
        · exact collected_bare ih found
        · exact array_bare ih found
    | tuple values => exact ⟨fun _ _ => array_reframed ih, fun _ _ _ found => array_bare ih found⟩
    | map entries =>
      refine reframes_map fun entry member => ⟨ih _ ?key, ih _ ?value⟩
      case key => exact mem_flattened.mpr ⟨entry, member, .inl rfl⟩
      case value => exact mem_flattened.mpr ⟨entry, member, .inr rfl⟩
    | record name fields =>
      exact reframes_record plain name fun field member => ih _ (List.mem_map_of_mem member)
    | variant name content => exact reframes_variant name (ih content (by simp [parts]))
    | embedded inner serialized => exact absurd rfl (here inner serialized)

end Value
end

-- Two configurations that differ in nothing but how lengths are given write the same items: they fail
-- alike, or one writes an item all of whose lengths are definite and the other the same item with a
-- break at the end of each array and map.
theorem Config.encode_reframed {config : Config}
    (keyed : ∀ descriptor ∈ config.descriptors, descriptor.kind = .keyed)
    (plain : config.WithoutObjects) {value : Value} (bare : value.Unembedded) :
    (∀ e, (config.set .definiteLengths true).encode value = .error e ↔
        (config.set .definiteLengths false).encode value = .error e) ∧
      ∀ counted delimited, (config.set .definiteLengths true).encode value = .ok counted →
        (config.set .definiteLengths false).encode value = .ok delimited →
        counted.length < 2 ^ 64 → delimited.length < 2 ^ 64 →
        ∃ item : Item, counted = item.bytes ∧ item.WellFormed ∧ item.Definite ∧
          delimited = item.unframed.bytes ∧ item.unframed.WellFormed ∧ item.unframed.Indefinite := by
  have reframes := Value.reframes plain bare
  have keyed' (definite : Bool) :
      ∀ descriptor ∈ (config.set .definiteLengths definite).descriptors, descriptor.kind = .keyed := keyed
  rw [Config.encode_eq_wire (keyed' true), Config.encode_eq_wire (keyed' false), reframes.items {} rfl]
  cases found : value.item (config.set .definiteLengths true) {} with
  | error e =>
    refine ⟨fun _ => Iff.rfl, fun counted _ written => ?_⟩
    cases written
  | ok item =>
    refine ⟨fun e => ⟨fun failed => ?_, fun failed => ?_⟩, fun counted delimited first second small small' => ?_⟩
    · cases failed
    · cases failed
    · cases first
      cases second
      have bareItem : item.Unembedded := reframes.bare {} item rfl found
      have made : item.Everywhere (Item.Made true) := Value.makes _ value {} item found
      have made' : item.unframed.Everywhere (Item.Made false) := Item.made_unframed bareItem made
      have bytes : item.wire = item.bytes := Item.wire_eq_bytes made small
      have bytes' : item.unframed.wire = item.unframed.bytes := Item.wire_eq_bytes made' small'
      refine ⟨item, bytes, ?_, made.mono fun _ => Item.Made.isSome_head, bytes', ?_, ?_⟩
      · exact Item.wellFormed_of_made made (bytes ▸ small)
      · exact Item.wellFormed_of_made made' (bytes' ▸ small')
      · exact Item.indefinite_unframed bareItem

-- Batches, whose octets are left out where they are one and two. Their default is an array, so that it
-- has other bytes with a count than without.
def Config.batches : Config :=
  { descriptors := [⟨"Batch", .keyed, none,
      [⟨"octets", some 1, [], [], false, false, some (.bytes [1, 2])⟩,
        ⟨"sizes", some 2, [], [], false, false, none⟩]⟩] }

def Value.batch : Value :=
  .record "Batch" [("octets", .seq [.int .u8 1, .int .u8 2]), ("sizes", .seq [.int .u8 7])]

theorem Value.unembedded_batch : Value.batch.Unembedded := by
  have octet (n : Int) : (Value.int .u8 n).Unembedded :=
    .intro (fun _ _ => Value.noConfusion) fun part member => absurd member List.not_mem_nil
  have octets (numbers : List Int) : (Value.seq (numbers.map (Value.int .u8))).Unembedded := by
    refine .intro (fun _ _ => Value.noConfusion) fun part member => ?_
    obtain ⟨n, -, rfl⟩ := List.mem_map.mp member
    exact octet n
  refine .intro (fun _ _ => Value.noConfusion) fun part member => ?_
  rcases List.mem_cons.mp member with rfl | member
  · exact octets [1, 2]
  · cases List.mem_singleton.mp member
    exact octets [7]

theorem Config.encode_batch :
    (Config.batches.set .definiteLengths true).encode .batch = .ok [0xa1, 0x02, 0x81, 0x07] ∧
      (Config.batches.set .definiteLengths false).encode .batch =
        .ok [0xbf, 0x02, 0x9f, 0x07, 0xff, 0xff] ∧
      ∃ item : Item, [0xa1, 0x02, 0x81, 0x07] = item.bytes ∧ item.WellFormed ∧ item.Definite ∧
        [0xbf, 0x02, 0x9f, 0x07, 0xff, 0xff] = item.unframed.bytes ∧ item.unframed.WellFormed ∧
        item.unframed.Indefinite := by
  have counted : (Config.batches.set .definiteLengths true).encode .batch =
      .ok [0xa1, 0x02, 0x81, 0x07] := by rfl
  have delimited : (Config.batches.set .definiteLengths false).encode .batch =
      .ok [0xbf, 0x02, 0x9f, 0x07, 0xff, 0xff] := by rfl
  have plain : Config.batches.WithoutObjects := by
    intro descriptor member
    cases List.mem_singleton.mp member
    decide
  refine ⟨counted, delimited, ?_⟩
  exact (Config.encode_reframed (by simp [Config.batches]) plain Value.unembedded_batch).2 _ _ counted
    delimited (by decide) (by decide)

end TypedCbor
