import TypedCbor.Proofs.Item.Unframed
import TypedCbor.Proofs.ItemReader.Follows
import TypedCbor.Proofs.Ty

namespace TypedCbor

section
variable {α β : Type}

theorem toOption_bind (x : Except Error α) (next : α → Except Error β) :
    (x >>= next).toOption = x.toOption.bind fun a => (next a).toOption := by
  cases x <;> rfl

theorem toOption_map (f : α → β) (x : Except Error α) :
    (f <$> x).toOption = x.toOption.map f := by
  cases x <;> rfl

theorem toOption_bind_congr {x y : Except Error α} {next other : α → Except Error β}
    (first : x.toOption = y.toOption) (second : ∀ a, (next a).toOption = (other a).toOption) :
    (x >>= next).toOption = (y >>= other).toOption := by
  rw [toOption_bind, toOption_bind, first]
  congr
  funext a
  exact second a

theorem toOption_eq_some {x : Except Error α} {a : α} : x.toOption = some a ↔ x = .ok a := by
  cases x <;> simp [Except.toOption]

theorem toOption_mapM_congr {f : α → Except Error β} {g : γ → Except Error β} {h : α → γ} {items : List α}
    (each : ∀ item ∈ items, (f item).toOption = (g (h item)).toOption) :
    (items.mapM f).toOption = ((items.map h).mapM g).toOption := by
  induction items with
  | nil => rfl
  | cons item items ih =>
    obtain ⟨here, each⟩ := List.forall_mem_cons.mp each
    simp only [List.map_cons, List.mapM_cons, toOption_bind, here, ih each]

end

def Config.WithoutObjects (config : Config) : Prop :=
  ∀ descriptor ∈ config.descriptors, ∀ element ∈ descriptor.elements, element.object = false

def OrdinaryField (field : Option Element) : Prop := (field.map (·.object)).getD false = false

theorem Config.WithoutObjects.element {config : Config} (plain : config.WithoutObjects) (name : String)
    (kind : StructureKind) (fields : List String) (index : Nat) :
    OrdinaryField (some ((config.shape name kind fields).element index)) := by
  have each : ∀ element ∈ (config.shape name kind fields).elements, element.object = false := by
    intro element member
    unfold Config.shape at member
    split at member
    · rename_i descriptor found
      exact plain descriptor (List.mem_of_find?_eq_some found) element member
    · obtain ⟨field, -, rfl⟩ := List.mem_map.mp member
      rfl
  unfold Shape.element
  cases found : (config.shape name kind fields).elements[index]? with
  | none => rfl
  | some element => exact each element (List.mem_of_getElem? found)

theorem Config.WithoutObjects.elementNamed {config : Config} (plain : config.WithoutObjects) (name : String)
    (kind : StructureKind) (fields : List String) (field : String) :
    ((config.shape name kind fields).elementNamed field).object = false := by
  unfold Shape.elementNamed
  split
  · exact plain.element name kind fields _
  · rfl

theorem ordinary_none : OrdinaryField none := rfl

namespace ItemReader

open Decoder

variable {α β : Type} {config : Config} {shape : Shape}

theorem major_delimited_array (items : List Item) :
    (Body.array .delimited items).header.major = .array :=
  Body.header_major fun _ member => nomatch member

theorem major_delimited_map (entries : List (Item × Item)) :
    (Body.map .delimited entries).header.major = .map :=
  Body.header_major fun _ member => nomatch member

-- Why an item is refused may differ with its framing, so errors are not compared.
def BlindBehind (read : List UInt64 → Body Item → Except Error α) : Prop :=
  ∀ tags (item : Item), item.WellFormed →
    (read tags item.body).toOption = (read tags (bodyUnframed item.body)).toOption

def Blind (read : ItemReader α) : Prop := ∀ field, OrdinaryField field → BlindBehind (read field)

def BlindItems (read : List Item → Except Error (α × List Item)) : Prop :=
  ∀ items, (∀ item ∈ items, item.WellFormed) →
    (read (itemsUnframed items)).toOption =
      ((fun p => (p.1, itemsUnframed p.2)) <$> read items).toOption

def BlindEntries (read : List (Item × Item) → Except Error α) : Prop :=
  ∀ entries, (∀ entry ∈ entries, entry.1.WellFormed ∧ entry.2.WellFormed) →
    (read (entriesUnframed entries)).toOption = (read entries).toOption

theorem BlindBehind.of_structures {read : List UInt64 → Body Item → Except Error α}
    (array : ∀ tags framing items, (∀ item ∈ items, item.WellFormed) →
      (Body.array framing items).header.major = .array →
      (read tags (.array framing items)).toOption =
        (read tags (.array .delimited (itemsUnframed items))).toOption)
    (map : ∀ tags framing entries, (∀ entry ∈ entries, entry.1.WellFormed ∧ entry.2.WellFormed) →
      (Body.map framing entries).header.major = .map →
      (read tags (.map framing entries)).toOption =
        (read tags (.map .delimited (entriesUnframed entries))).toOption) : BlindBehind read := by
  intro tags item wellFormed
  rcases wellFormed with ⟨formed, inside⟩
  rcases item with ⟨itemTags, body⟩
  have known : body.header.major = body.major := Body.header_major formed.head
  cases body with
  | array framing items => exact array tags framing items inside known
  | map framing entries =>
    refine map tags framing entries (fun entry member => ?_) known
    exact ⟨inside _ (mem_flattened.mpr ⟨entry, member, .inl rfl⟩),
      inside _ (mem_flattened.mpr ⟨entry, member, .inr rfl⟩)⟩
  | unsigned | negative | bytes | text | simple | embedded => rfl

theorem Blind.on {read : ItemReader α} (blind : read.Blind) {field : Option Element}
    (plain : OrdinaryField field) {item : Item} (wellFormed : item.WellFormed) :
    (read.on field item).toOption = (read.on field item.unframed).toOption := by
  unfold ItemReader.on
  rw [item.tagNumbers_unframed, item.body_unframed]
  exact blind field plain _ item wellFormed

theorem Blind.andThen {read : ItemReader α} (blind : read.Blind) (next : α → Except Error β) :
    (read.andThen next).Blind := by
  intro field plain tags item wellFormed
  unfold ItemReader.andThen
  rw [toOption_bind, toOption_bind, blind field plain tags item wellFormed]

theorem BlindBehind.behindTags {read : List UInt64 → Body Item → Except Error α}
    (blind : BlindBehind read) : (behindTags config read).Blind := by
  intro field _ tags item wellFormed
  unfold ItemReader.behindTags
  rw [toOption_bind, toOption_bind]
  congr
  funext own
  exact blind own item wellFormed

theorem Blind.ofHeader {read : Header → Except Error α}
    (rejects : ∀ header, header.major = .array ∨ header.major = .map → (read header).toOption = none) :
    (ofHeader config read).Blind := by
  apply BlindBehind.behindTags
  apply BlindBehind.of_structures
  · intro tags framing items _ known
    rw [rejects _ (.inl known), rejects _ (.inl (major_delimited_array _))]
  · intro tags framing entries _ known
    rw [rejects _ (.inr known), rejects _ (.inr (major_delimited_map _))]

theorem toOption_integer {header : Header} (opens : header.major = .array ∨ header.major = .map) :
    header.integer.toOption = none := by
  rcases opens with known | known <;> (rw [Header.integer, known]; rfl)

theorem toOption_float {header : Header} (opens : header.major = .array ∨ header.major = .map) :
    header.float.toOption = none := by
  rcases opens with known | known <;> (rw [Header.float, known]; rfl)

theorem toOption_boolean {header : Header} (opens : header.major = .array ∨ header.major = .map) :
    header.boolean.toOption = none := by
  rcases opens with known | known <;> (rw [Header.boolean, known]; rfl)

theorem initial_ne {header : Header} (opens : header.major = .array ∨ header.major = .map) :
    header.initial ≠ nullByte ∧ header.initial ≠ undefinedByte := by
  constructor <;> intro same <;>
    (rw [Header.major, same] at opens; revert opens; decide)

theorem blind_int (kind : IntKind) : (int config kind).Blind :=
  (Blind.ofHeader fun _ opens => toOption_integer opens).andThen _

theorem blind_char : (char config).Blind :=
  (Blind.ofHeader fun _ opens => toOption_integer opens).andThen _

theorem blind_byte : (byte config).Blind :=
  (Blind.ofHeader fun _ opens => toOption_integer opens).andThen _

theorem blind_unit : (unit config).Blind := by
  apply Blind.ofHeader
  intro header opens
  obtain ⟨notNull, notUndefined⟩ := initial_ne opens
  rw [if_neg (by simp [notNull, notUndefined])]
  rfl

theorem blind_text : (text config).Blind := by
  apply BlindBehind.behindTags
  apply BlindBehind.of_structures <;> intros <;> rfl

theorem blind_ignored : ignored.Blind := by
  intro field _ tags item _
  rfl

theorem blind_embedded (read : DecodeM Value) : (embedded config read).Blind := by
  apply BlindBehind.behindTags
  apply BlindBehind.of_structures <;> intros <;> rfl

theorem blind_option {read : ItemReader Value} (blind : read.Blind) : (option config read).Blind := by
  intro field plain tags item wellFormed
  have stays : item.body.isNull field ↔ (bodyUnframed item.body).isNull field := by
    rcases wellFormed with ⟨formed, -⟩
    rcases item with ⟨itemTags, body⟩
    have known : body.header.major = body.major := Body.header_major formed.head
    have never {body : Body Item} (opens : body.header.major = .array ∨ body.header.major = .map) :
        ¬ body.isNull field := by
      obtain ⟨notNull, notUndefined⟩ := initial_ne opens
      simp only [Body.isNull, OrdinaryField] at plain ⊢
      simp [notNull, notUndefined, plain]
    cases body with
    | array framing items =>
      exact iff_of_false (never (.inl known)) (never (.inl (major_delimited_array _)))
    | map framing entries =>
      exact iff_of_false (never (.inr known)) (never (.inr (major_delimited_map _)))
    | unsigned | negative | bytes | text | simple | embedded => exact Iff.rfl
  unfold option
  by_cases null : item.body.isNull field
  · rw [if_pos null, if_pos (stays.mp null)]
  · rw [if_neg null, if_neg fun null' => null (stays.mpr null'), toOption_map, toOption_map,
      blind field plain tags item wellFormed]

theorem toOption_opened {header other : Header} (same : header.major = other.major)
    (own : List UInt64) :
    (discard (opened config shape header own) : Except Error Unit).toOption =
      (discard (opened config shape other own) : Except Error Unit).toOption := by
  unfold opened
  dsimp only
  split
  · rfl
  · rw [same]
    split <;> rfl

theorem toOption_ended (framing other : Framing) (items : List Item) :
    (framing.ended items).toOption = (other.ended (itemsUnframed items)).toOption := by
  cases items <;> cases framing <;> cases other <;> rfl

theorem toOption_bind_error (x : Except Error α) (e : Error) :
    (x >>= fun _ => (.error e : Except Error β)).toOption = none := by
  cases x <;> rfl

theorem BlindItems.arrayed {read : List Item → Except Error (α × List Item)} (blind : BlindItems read)
    (config : Config) (shape : Shape) : BlindBehind (arrayed config shape read) := by
  apply BlindBehind.of_structures
  · intro own framing items each known
    have opens := known.trans (major_delimited_array (itemsUnframed items)).symm
    refine toOption_bind_congr (toOption_opened opens own) fun _ => ?_
    simp only [toOption_bind, blind items each, toOption_map]
    cases read items with
    | error e => rfl
    | ok p => exact congrArg (Option.bind · fun _ => some p.1) (toOption_ended framing .delimited p.2)
  · intro own framing entries _ _
    unfold ItemReader.arrayed
    exact (toOption_bind_error _ _).trans (toOption_bind_error _ _).symm

theorem BlindEntries.mapped {read : List (Item × Item) → Except Error α} (blind : BlindEntries read)
    (config : Config) (shape : Shape) : BlindBehind (mapped config shape read) := by
  apply BlindBehind.of_structures
  · intro own framing items _ _
    unfold ItemReader.mapped
    exact (toOption_bind_error _ _).trans (toOption_bind_error _ _).symm
  · intro own framing entries each known
    have opens := known.trans (major_delimited_map (entriesUnframed entries)).symm
    exact toOption_bind_congr (toOption_opened opens own) fun _ => (blind entries each).symm

theorem blind_elements {read : ItemReader α} (blind : read.Blind) : BlindItems (elements read) := by
  intro items each
  unfold elements
  rw [toOption_map, toOption_map, toOption_map, itemsUnframed_eq,
    ← toOption_mapM_congr fun item member => blind.on ordinary_none (each item member)]
  cases (items.mapM (read.on none)).toOption <;> rfl

theorem blind_bytes : (bytes config).Blind := by
  apply BlindBehind.behindTags
  intro own item wellFormed
  have inside := (blind_elements (@blind_byte config)).arrayed config .list own item wellFormed
  rcases item with ⟨tags, body⟩
  cases body with
  | array framing items =>
    exact (toOption_map _ _).trans ((congrArg _ inside).trans (toOption_map _ _).symm)
  | unsigned | negative | bytes | text | map | simple | embedded => rfl

theorem blind_sequence {ofItems : List Item → Except Error (List Value × List Item)}
    (blind : BlindItems ofItems) (ofBytes : Bytes → Except Error (List Value)) :
    (sequence config ofBytes ofItems).Blind := by
  apply BlindBehind.behindTags
  intro own item wellFormed
  have inside := blind.arrayed config .list own item wellFormed
  rcases item with ⟨tags, body⟩
  cases body with
  | bytes | embedded => rfl
  | array | map | unsigned | negative | text | simple => exact inside

theorem blind_many {slot : Slot (ItemReader Value)} (blind : slot.read.Blind) :
    (many config slot).Blind :=
  blind_sequence (blind_elements blind) _

theorem blind_fill {slots : List (Slot (ItemReader Value))} (each : ∀ slot ∈ slots, slot.read.Blind)
    (expected : String) (filled : Nat) : BlindItems (fill expected filled slots) := by
  induction slots generalizing filled with
  | nil =>
    intro items _
    rfl
  | cons slot slots ih =>
    obtain ⟨here, others⟩ := List.forall_mem_cons.mp each
    intro items wellFormed
    cases items with
    | nil => rfl
    | cons item items =>
      obtain ⟨first, wellFormed⟩ := List.forall_mem_cons.mp wellFormed
      simp only [itemsUnframed, fill, toOption_bind, toOption_map, ← here.on ordinary_none first,
        ih others (filled + 1) items wellFormed]
      cases (slot.read.on none item).toOption with
      | none => rfl
      | some value => cases (fill expected (filled + 1) slots items).toOption <;> rfl

theorem blind_tuple {slots : List (Slot (ItemReader Value))} (each : ∀ slot ∈ slots, slot.read.Blind)
    (expected : String) : (tuple config expected slots).Blind :=
  blind_sequence (blind_fill each expected 0) _

theorem blind_entries {key : ItemReader α} {value : ItemReader β} (blindKey : key.Blind)
    (blindValue : value.Blind) : BlindEntries (entries key value) := by
  intro items wellFormed
  unfold entries
  rw [entriesUnframed_eq]
  refine (toOption_mapM_congr fun entry member => ?_).symm
  obtain ⟨first, second⟩ := wellFormed entry member
  simp only [Prod.map_fst, Prod.map_snd, toOption_bind, blindKey.on ordinary_none first,
    blindValue.on ordinary_none second]

theorem blind_map {key value : ItemReader Value} (blindKey : key.Blind) (blindValue : value.Blind) :
    (map config key value).Blind :=
  ((blind_entries blindKey blindValue).mapped config .map).behindTags

section
variable {fields : List (FieldReader (ItemReader Value))}

theorem blind_takeFields (plain : ∀ index, OrdinaryField (some (shape.element index)))
    (each : ∀ field ∈ fields, field.read.Blind) (expected : String) (taken : Nat) :
    BlindItems (takeFields shape expected taken fields) := by
  induction fields generalizing taken with
  | nil =>
    intro items _
    rfl
  | cons field fields ih =>
    obtain ⟨here, others⟩ := List.forall_mem_cons.mp each
    intro items wellFormed
    cases items with
    | nil =>
      have none := ih others (taken + 1) [] (by simp)
      simp only [itemsUnframed, takeFields] at none ⊢
      split
      · simp only [toOption_bind, toOption_map] at none ⊢
        generalize (takeFields shape expected (taken + 1) fields []).toOption = found at none ⊢
        cases found with
        | none => rfl
        | some p =>
          have left : p.2 = itemsUnframed p.2 := congrArg Prod.snd (Option.some.inj none)
          exact congrArg (fun left => some (_, left)) left
      · rfl
    | cons item items =>
      obtain ⟨first, wellFormed⟩ := List.forall_mem_cons.mp wellFormed
      simp only [itemsUnframed, takeFields, toOption_bind, toOption_map, ← here.on (plain taken) first,
        ih others (taken + 1) items wellFormed]
      cases (field.read.on (some (shape.element taken)) item).toOption with
      | none => rfl
      | some value => cases (takeFields shape expected (taken + 1) fields items).toOption <;> rfl

theorem blind_place (each : ∀ field ∈ fields, field.read.Blind) {field : Option Element}
    (plain : OrdinaryField field) {item : Item} (wellFormed : item.WellFormed)
    (seen : List (String × Value)) (index : Nat) :
    (place shape fields seen index field item).toOption =
      (place shape fields seen index field item.unframed).toOption := by
  unfold place
  dsimp only
  cases found : fields.find? (·.name == shape.elementName index) with
  | none => rfl
  | some reader =>
    dsimp only
    split
    · rfl
    · rw [toOption_bind, toOption_bind, (each reader (List.mem_of_find?_eq_some found)).on plain wellFormed]

theorem blind_placeItems (each : ∀ field ∈ fields, field.read.Blind) {items : List Item}
    (wellFormed : ∀ item ∈ items, item.WellFormed) (seen : List (String × Value)) (index : Nat) :
    (placeItems shape fields seen index items).toOption =
      (placeItems shape fields seen index (itemsUnframed items)).toOption := by
  induction items generalizing seen index with
  | nil => rfl
  | cons item items ih =>
    obtain ⟨first, wellFormed⟩ := List.forall_mem_cons.mp wellFormed
    simp only [itemsUnframed, placeItems, toOption_bind, blind_place each ordinary_none first]
    congr
    funext seen
    exact ih wellFormed seen (index + 1)

theorem toOption_key {item : Item} (wellFormed : item.WellFormed) :
    item.body.key.toOption = (bodyUnframed item.body).key.toOption :=
  @BlindBehind.of_structures _ (fun _ body => body.key) (fun _ _ _ _ _ => rfl) (fun _ _ _ _ _ => rfl) []
    item wellFormed

theorem blind_announced {item : Item} (wellFormed : item.WellFormed) :
    (announced config shape item).toOption = (announced config shape item.unframed).toOption := by
  unfold announced
  rw [item.body_unframed, item.tagNumbers_unframed, toOption_bind, toOption_bind,
    toOption_key wellFormed]

theorem blind_placeEntries (plain : ∀ index, OrdinaryField (some (shape.element index)))
    (each : ∀ field ∈ fields, field.read.Blind) (seen : List (String × Value)) :
    BlindEntries (placeEntries config shape fields seen) := by
  intro entries wellFormed
  induction entries generalizing seen with
  | nil => rfl
  | cons entry entries ih =>
    obtain ⟨⟨first, second⟩, others⟩ := List.forall_mem_cons.mp wellFormed
    rcases entry with ⟨key, value⟩
    simp only [entriesUnframed, placeEntries, List.foldlM_cons, toOption_bind, placeEntry,
      ← blind_announced first]
    have placed (index : Nat) := @blind_place shape _ each _ (plain index) _ second seen index
    cases (announced config shape key).toOption with
    | none => rfl
    | some found =>
      cases found with
      | none => exact ih seen others
      | some index =>
        simp only [Option.bind_some, ← placed index]
        congr
        funext seen
        exact ih seen others

theorem blind_complete {placed other : Except Error (List (String × Value))}
    (same : placed.toOption = other.toOption) :
    (complete fields placed).toOption = (complete fields other).toOption :=
  toOption_bind_congr same fun _ => rfl

theorem blind_recordFields (plain : ∀ index, OrdinaryField (some (shape.element index)))
    (each : ∀ field ∈ fields, field.read.Blind) (expected : String) :
    BlindBehind (recordFields config shape expected fields) := by
  unfold recordFields
  split
  · exact (blind_takeFields plain each expected 0).arrayed config shape
  split
  · refine BlindEntries.mapped (fun entries wellFormed => ?_) config shape
    exact blind_complete (blind_placeEntries plain each [] entries wellFormed)
  split
  · refine BlindEntries.mapped (fun entries wellFormed => ?_) config shape
    rw [flattened_unframed]
    refine blind_complete (blind_placeItems each (fun item member => ?_) [] 0).symm
    obtain ⟨entry, present, rfl | rfl⟩ := mem_flattened.mp member
    · exact (wellFormed entry present).1
    · exact (wellFormed entry present).2
  · refine BlindItems.arrayed (fun items wellFormed => ?_) config shape
    have placed := @blind_complete fields _ _ (@blind_placeItems shape _ each _ wellFormed [] 0)
    simp only [toOption_map, ← placed, Option.map_map]
    rfl

theorem blind_record (plain : config.WithoutObjects) (each : ∀ field ∈ fields, field.read.Blind)
    (name expected : String) : (record config name expected fields).Blind := by
  apply BlindBehind.behindTags
  intro own item wellFormed
  have shaped := plain.element name .keyed (fields.map (·.name))
  have inside := @blind_recordFields config _ _ shaped each (withElements expected fields.length)
    own item wellFormed
  rw [toOption_map, toOption_map, inside]

end

section
variable {variants : List (VariantReader (ItemReader Value))}

def BlindContent : ContentReader (ItemReader Value) → Prop
  | .unit => True
  | .content _ read => read.Blind

theorem blind_contentOf (each : ∀ variant ∈ variants, BlindContent variant.content) {name : String}
    {content : ContentReader (ItemReader Value)} (found : contentOf variants name = .ok content) :
    BlindContent content := by
  unfold contentOf at found
  split at found
  · rename_i variant present
    cases found
    exact each variant (List.mem_of_find?_eq_some present)
  · cases found

theorem blind_bareVariant : (bareVariant config variants).Blind := blind_text.andThen _

theorem blind_variantPair (each : ∀ variant ∈ variants, BlindContent variant.content) :
    BlindItems (variantPair config variants) := by
  intro items wellFormed
  cases items with
  | nil => rfl
  | cons tag items =>
    obtain ⟨first, wellFormed⟩ := List.forall_mem_cons.mp wellFormed
    simp only [itemsUnframed, variantPair, toOption_bind, toOption_map,
      ← blind_text.on ordinary_none first]
    cases ((text config).on none tag).toOption with
    | none => rfl
    | some payload =>
      simp only [Option.bind_some]
      cases found : contentOf variants payload.text with
      | error e => rfl
      | ok content =>
        have blind := blind_contentOf each found
        cases content with
        | unit => cases items <;> rfl
        | content form read =>
          cases items with
          | nil => rfl
          | cons item items =>
            obtain ⟨second, -⟩ := List.forall_mem_cons.mp wellFormed
            have same := ItemReader.Blind.on blind ordinary_none second
            change (read.on none item.unframed >>= fun value =>
                .ok (Value.variant payload.text value, itemsUnframed items)).toOption =
              Option.map _ (read.on none item >>= fun value =>
                .ok (Value.variant payload.text value, items)).toOption
            rw [toOption_bind, toOption_bind, ← same]
            cases (read.on none item).toOption <;> rfl

theorem blind_variant (each : ∀ variant ∈ variants, BlindContent variant.content) :
    (variant config variants).Blind := by
  intro field plain tags item wellFormed
  have bare := @blind_bareVariant config variants field plain tags item wellFormed
  have pair := @BlindBehind.behindTags _ config _
    ((@blind_variantPair config _ each).arrayed config .polymorphic) field plain tags item wellFormed
  rcases item with ⟨itemTags, body⟩
  cases body with
  | text => exact bare
  | array => exact pair
  | unsigned | negative | bytes | map | simple | embedded => rfl

theorem blind_slots {types : List Ty} (each : ∀ type ∈ types, (type.ofItem config).Blind) :
    ∀ slot ∈ itemSlots config types, slot.read.Blind := by
  induction types with
  | nil =>
    intro slot member
    cases member
  | cons type types ih =>
    obtain ⟨here, others⟩ := List.forall_mem_cons.mp each
    exact List.forall_mem_cons.mpr ⟨here, ih others⟩

theorem blind_fields {fields : List (Field Ty)}
    (each : ∀ field ∈ fields, (field.type.ofItem config).Blind) :
    ∀ field ∈ itemFields config fields, field.read.Blind := by
  induction fields with
  | nil =>
    intro field member
    cases member
  | cons field fields ih =>
    obtain ⟨here, others⟩ := List.forall_mem_cons.mp each
    exact List.forall_mem_cons.mpr ⟨here, ih others⟩

theorem blind_content (plain : config.WithoutObjects) {content : Content Ty}
    (each : ∀ type ∈ content.parts, (type.ofItem config).Blind) (parent name : String) :
    BlindContent (itemContent config parent name content) := by
  cases content with
  | unit => trivial
  | newtype type => exact each type (List.mem_singleton_self type)
  | tuple types => exact (blind_tuple (blind_slots each) _).andThen _
  | record fields =>
    exact blind_record plain (blind_fields fun field member => each _ (List.mem_map_of_mem member)) _ _

theorem blind_variants (plain : config.WithoutObjects) {variants : List (Variant Ty)}
    (each : ∀ variant ∈ variants, ∀ type ∈ variant.content.parts, (type.ofItem config).Blind)
    (parent : String) : ∀ variant ∈ itemVariants config parent variants, BlindContent variant.content := by
  induction variants with
  | nil =>
    intro variant member
    cases member
  | cons variant variants ih =>
    obtain ⟨here, others⟩ := List.forall_mem_cons.mp each
    exact List.forall_mem_cons.mpr ⟨blind_content plain here parent variant.name, ih others⟩

end
end ItemReader

-- A type no part of which takes anything it is given.
inductive Ty.AnyFree : Ty → Prop where
  | intro (here : type ≠ .any) (inside : ∀ part ∈ type.parts, AnyFree part) : AnyFree type

open ItemReader in
theorem Ty.AnyFree.blind {type : Ty} (free : type.AnyFree) {config : Config}
    (plain : config.WithoutObjects) : (type.ofItem config).Blind := by
  induction free with
  | @intro type here inside ih =>
    cases type with
    | bool => exact (Blind.ofHeader fun _ opens => toOption_boolean opens).andThen _
    | int kind => exact blind_int kind
    | single | double => exact (Blind.ofHeader fun _ opens => toOption_float opens).andThen _
    | char => exact blind_char
    | text | textSlice | identifier => exact blind_text.andThen _
    | bytes | bytesSlice => exact blind_bytes.andThen _
    | unit | unitStruct => exact blind_unit
    | option type => exact blind_option (ih type (by simp [Ty.parts]))
    | seq type => exact Blind.andThen (blind_many (ih type (by simp [Ty.parts]))) _
    | tuple types | tupleStruct _ types => exact (blind_tuple (blind_slots ih) _).andThen _
    | newtype _ type => exact Blind.andThen (ih type (by simp [Ty.parts])) _
    | map key value =>
      exact (blind_map (ih key (by simp [Ty.parts])) (ih value (by simp [Ty.parts]))).andThen _
    | record name fields =>
      exact blind_record plain
        (blind_fields fun field member => ih _ (Ty.mem_parts_record member)) _ _
    | enumeration name variants =>
      exact blind_variant (blind_variants plain
        (fun variant member part inside => ih part (Ty.mem_parts_enumeration member inside)) name)
    | embedded type => exact blind_embedded _
    | delayed type => exact ih (type ()) (by simp [Ty.parts])
    | any => exact absurd rfl here
    | ignored => exact blind_ignored

end TypedCbor
