import Mathlib.Data.List.Basic
import TypedCbor.Decoder.Typed
import TypedCbor.Proofs.Item.Opening

namespace TypedCbor

-- What a target makes of an item: of the element it is the value of, all its tags and its body.
abbrev ItemReader (α : Type) := Option Element → List UInt64 → Body Item → Except Error α

namespace Body

def isNull (field : Option Element) (body : Body Item) : Prop :=
  body.header.initial = nullByte ∨ body.header.initial = undefinedByte ∨
    (body.header.initial = emptyMapByte ∧ (field.map (·.object)).getD false = true)

instance (field : Option Element) (body : Body Item) : Decidable (body.isNull field) :=
  inferInstanceAs (Decidable (_ ∨ _ ∨ _))

def key : Body Item → Except Error Key
  | unsigned head => .label <$> (head.header .unsigned).integer
  | negative head => .label <$> (head.header .negative).integer
  | text form => (.name ∘ TextPayload.text) <$> Payload.text ⟨form.content, form.isWhole⟩
  | body => .error (body.header.unexpected "label or name")

mutual
def visit : Body Item → Except Error Value
  | unsigned head => Decoder.integerVisit <$> (head.header .unsigned).integer
  | negative head => Decoder.integerVisit <$> (head.header .negative).integer
  | bytes form => .ok (Decoder.bytesVisit ⟨form.content, form.isWhole⟩)
  | text form => Decoder.textVisit <$> Payload.text ⟨form.content, form.isWhole⟩
  | array framing items =>
    (.visited (.seq (framing.announced items.length)) ∘ .seq) <$> visitItems items
  | map framing entries =>
    (.visited (.map (framing.announced entries.length)) ∘ .map) <$> visitEntries entries
  | simple head => Decoder.readSimple (head.header .simple)
  | embedded _ item => .ok (Decoder.bytesVisit ⟨item.bytes, true⟩)

def visitItem : Item → Except Error Value
  | ⟨_, body⟩ => body.visit

def visitItems : List Item → Except Error (List Value)
  | [] => .ok []
  | item :: items => do
    let value ← visitItem item
    return value :: (← visitItems items)

def visitEntries : List (Item × Item) → Except Error (List (Value × Value))
  | [] => .ok []
  | (key, value) :: entries => do
    let key ← visitItem key
    let value ← visitItem value
    return (key, value) :: (← visitEntries entries)
end

end Body

def Framing.ended : Framing → List Item → Except Error Unit
  | _, [] => .ok ()
  | counted _, left => .error (.lengthMismatch left.length)
  | delimited, item :: _ => .error (.unexpectedMajor "break" item.firstMajor)

namespace ItemReader

open Decoder

section
variable {α β : Type} (config : Config)

def on (read : ItemReader α) (field : Option Element) (item : Item) : Except Error α :=
  read field item.tagNumbers item.body

def andThen (read : ItemReader α) (next : α → Except Error β) : ItemReader β :=
  fun field tags body => read field tags body >>= next

def ownTags (field : Option Element) (tags : List UInt64) : Except Error (List UInt64) :=
  match field with
  | some element =>
    if config.verifyValueTags then
      match element.valueTags.isPrefixOf? tags with
      | some own => .ok own
      | none => .error (.tagMismatch element.valueTags tags)
    else .ok tags
  | none => .ok tags

def declaredTags (field : Option Element) : List UInt64 := (field.map Element.valueTags).getD []

theorem append_of_ownTags {config : Config} (verifies : config.verifyValueTags = true) {field : Option Element}
    {tags own : List UInt64} (split : ownTags config field tags = .ok own) : declaredTags field ++ own = tags := by
  cases field with
  | none =>
    cases split
    rfl
  | some element =>
    rw [ownTags, if_pos verifies] at split
    split at split
    · rename_i behind
      cases split
      exact List.isPrefixOf?_eq_some_iff_append_eq.mp behind
    · cases split

def behindTags (read : List UInt64 → Body Item → Except Error α) : ItemReader α :=
  fun field tags body => do read (← ownTags config field tags) body

def ofHeader (read : Header → Except Error α) : ItemReader α :=
  behindTags config fun _ body => read body.header

def text : ItemReader TextPayload :=
  behindTags config fun _ body =>
    match body with
    | .text form => Payload.text ⟨form.content, form.isWhole⟩
    | body => .error (body.header.unexpected "text string")

def arrayed (shape : Shape) (read : List Item → Except Error (α × List Item)) (own : List UInt64)
    (body : Body Item) : Except Error α := do
  discard (opened config shape body.header own)
  match body with
  | .array framing items =>
    let (a, left) ← read items
    framing.ended left
    return a
  | body => .error (body.header.unexpected shape.header.2)

def mapped (shape : Shape) (read : List (Item × Item) → Except Error α) (own : List UInt64)
    (body : Body Item) : Except Error α := do
  discard (opened config shape body.header own)
  match body with
  | .map _ entries => read entries
  | body => .error (body.header.unexpected shape.header.2)

def elements (read : ItemReader α) (items : List Item) : Except Error (List α × List Item) :=
  (·, []) <$> items.mapM (read.on none)

theorem arrayed_elements {framing : Framing} {items : List Item}
    (known : (Body.array framing items).header.major = .array) (read : ItemReader α)
    (own : List UInt64) :
    arrayed config .list (elements read) own (.array framing items) = items.mapM (read.on none) := by
  simp only [arrayed, opened, Shape.list, Shape.arrayTags, Shape.header, Shape.kind, Shape.hasKeys,
    known, elements]
  cases items.mapM (read.on none) <;> rfl

theorem mapped_map {framing : Framing} {entries : List (Item × Item)}
    (known : (Body.map framing entries).header.major = .map)
    (read : List (Item × Item) → Except Error α) (own : List UInt64) :
    mapped config .map read own (.map framing entries) = read entries := by
  simp only [mapped, opened, Shape.map, Shape.arrayTags, Shape.header, Shape.kind, known]
  rfl

def byte : ItemReader UInt8 :=
  (ofHeader config Header.integer).andThen fun n =>
    if 0 ≤ n ∧ n < 256 then .ok (UInt8.ofNat n.toNat) else .error .integerOverflow

def bytes : ItemReader Payload :=
  behindTags config fun own body =>
    match body with
    | .bytes form => .ok ⟨form.content, form.isWhole⟩
    | .embedded _ item => .ok ⟨item.bytes, true⟩
    | .array .. => (⟨·, false⟩) <$> arrayed config .list (elements (byte config)) own body
    | body => .error (body.header.unexpected "byte string")

def int (kind : IntKind) : ItemReader Value :=
  (ofHeader config Header.integer).andThen fun n =>
    if kind.holds n then .ok (.int kind n) else .error .integerOverflow

def char : ItemReader Value :=
  (ofHeader config Header.integer).andThen fun n =>
    if n < 0 ∨ IntKind.u32.high ≤ n then .error .integerOverflow
    else if n.toNat.isValidChar then .ok (.char (Char.ofNat n.toNat))
    else .error (.unsupported (.notACharacter n.toNat))

def textSlice : ItemReader Value :=
  (text config).andThen fun payload =>
    if payload.inPlace then .ok (.text payload.text)
    else .error (.mismatch (.invalidType (.text payload.text) Ty.textSlice.expectation))

def bytesSlice : ItemReader Value :=
  (bytes config).andThen fun payload =>
    if payload.inPlace then .ok (.bytes payload.bytes)
    else .error (.mismatch (.invalidType .bytes Ty.bytesSlice.expectation))

def unit : ItemReader Value :=
  ofHeader config fun header =>
    if header.initial = nullByte ∨ header.initial = undefinedByte then .ok .unit
    else .error (header.unexpected "null")

def option (read : ItemReader Value) : ItemReader Value := fun field tags body =>
  if body.isNull field then do
    discard (ownTags config field tags)
    return .none
  else .some <$> read field tags body

def sequence (ofBytes : Bytes → Except Error (List Value))
    (ofItems : List Item → Except Error (List Value × List Item)) : ItemReader (List Value) :=
  behindTags config fun own body =>
    match body with
    | .bytes form => ofBytes form.content
    | .embedded _ item => ofBytes item.bytes
    | body => arrayed config .list ofItems own body

def many (slot : Slot (ItemReader Value)) : ItemReader (List Value) :=
  sequence config (·.mapM slot.ofByte) (elements slot.read)

def fill (expected : String) (filled : Nat) :
    List (Slot (ItemReader Value)) → List Item → Except Error (List Value × List Item)
  | [], items => .ok ([], items)
  | _ :: _, [] => .error (.length filled expected)
  | slot :: slots, item :: items => do
    let value ← slot.read.on none item
    let (values, left) ← fill expected (filled + 1) slots items
    return (value :: values, left)

theorem mem_of_fill {expected : String} {filled : Nat} {slots : List (Slot (ItemReader Value))}
    {items left : List Item} {values : List Value}
    (found : fill expected filled slots items = .ok (values, left)) {item : Item}
    (member : item ∈ left) : item ∈ items := by
  induction slots generalizing items filled values with
  | nil =>
    cases found
    exact member
  | cons slot slots ih =>
    cases items with
    | nil => cases found
    | cons first items =>
      obtain ⟨value, -, found⟩ := bind_eq_ok.mp found
      obtain ⟨⟨values, left⟩, others, same⟩ := bind_eq_ok.mp found
      cases same
      exact List.mem_cons_of_mem _ (ih others)

def tuple (expected : String) (slots : List (Slot (ItemReader Value))) : ItemReader (List Value) :=
  sequence config (tupleOfBytes expected slots) (fill expected 0 slots)

def entries (key : ItemReader α) (value : ItemReader β) (items : List (Item × Item)) :
    Except Error (List (α × β)) :=
  items.mapM fun item => do
    let k ← key.on none item.1
    let v ← value.on none item.2
    return (k, v)

theorem entries_cons (key : ItemReader α) (value : ItemReader β) (k v : Item)
    (items : List (Item × Item)) :
    entries key value ((k, v) :: items) = (do
      let a ← key.on none k
      let b ← value.on none v
      ((a, b) :: ·) <$> entries key value items) := by
  simp only [entries, List.mapM_cons, bind_assoc, pure_bind]
  rfl

def map (key value : ItemReader Value) : ItemReader (List (Value × Value)) :=
  behindTags config (mapped config .map (entries key value))

def takeFields (shape : Shape) (expected : String) (taken : Nat) :
    List (FieldReader (ItemReader Value)) → List Item →
      Except Error (List (String × Value) × List Item)
  | [], items => .ok ([], items)
  | field :: fields, [] =>
    match field.fallback with
    | some value => do
      let (values, left) ← takeFields shape expected (taken + 1) fields []
      return ((field.name, value) :: values, left)
    | none => .error (.length taken expected)
  | field :: fields, item :: items => do
    let value ← field.read.on (some (shape.element taken)) item
    let (values, left) ← takeFields shape expected (taken + 1) fields items
    return ((field.name, value) :: values, left)

theorem mem_of_takeFields {shape : Shape} {expected : String} {taken : Nat}
    {fields : List (FieldReader (ItemReader Value))} {items left : List Item}
    {values : List (String × Value)}
    (found : takeFields shape expected taken fields items = .ok (values, left)) {item : Item}
    (member : item ∈ left) : item ∈ items := by
  induction fields generalizing items taken values with
  | nil =>
    cases found
    exact member
  | cons field fields ih =>
    cases items with
    | nil =>
      simp only [takeFields] at found
      split at found
      · obtain ⟨⟨values, left⟩, others, same⟩ := bind_eq_ok.mp found
        cases same
        exact ih others
      · cases found
    | cons first items =>
      obtain ⟨value, -, found⟩ := bind_eq_ok.mp found
      obtain ⟨⟨values, left⟩, others, same⟩ := bind_eq_ok.mp found
      cases same
      exact List.mem_cons_of_mem _ (ih others)

def place (shape : Shape) (fields : List (FieldReader (ItemReader Value)))
    (seen : List (String × Value)) (index : Nat) (field : Option Element) (item : Item) :
    Except Error (List (String × Value)) :=
  let name := shape.elementName index
  match fields.find? (·.name == name) with
  | some reader =>
    if (seen.lookup name).isSome then .error (.mismatch (.duplicateField name))
    else do
      let value ← reader.read.on field item
      return (name, value) :: seen
  | none => .ok seen

def announced (shape : Shape) (key : Item) : Except Error (Option Nat) := do
  let found ← key.body.key
  match found.resolve shape with
  | some index =>
    let element := shape.element index
    if acceptsKeyTags config element key.tagNumbers then return some index
    else .error (.tagMismatch element.keyTags key.tagNumbers)
  | none => if config.ignoreUnknownKeys then return none else .error (.unknownKey found)

def placeEntry (shape : Shape) (fields : List (FieldReader (ItemReader Value)))
    (seen : List (String × Value)) (entry : Item × Item) : Except Error (List (String × Value)) := do
  match ← announced config shape entry.1 with
  | some index => place shape fields seen index (some (shape.element index)) entry.2
  | none => .ok seen

def placeEntries (shape : Shape) (fields : List (FieldReader (ItemReader Value)))
    (seen : List (String × Value)) (entries : List (Item × Item)) :
    Except Error (List (String × Value)) :=
  entries.foldlM (placeEntry config shape fields) seen

def placeItems (shape : Shape) (fields : List (FieldReader (ItemReader Value))) :
    List (String × Value) → Nat → List Item → Except Error (List (String × Value))
  | seen, _, [] => .ok seen
  | seen, index, item :: items => do
    placeItems shape fields (← place shape fields seen index none item) (index + 1) items

def complete (fields : List (FieldReader (ItemReader Value)))
    (placed : Except Error (List (String × Value))) : Except Error (List (String × Value)) := do
  fields.mapM (FieldReader.complete (← placed))

def recordFields (shape : Shape) (expected : String) (fields : List (FieldReader (ItemReader Value))) :
    List UInt64 → Body Item → Except Error (List (String × Value)) :=
  if shape.isArrayFramed then arrayed config shape (takeFields shape expected 0 fields)
  else if shape.hasKeys then
    mapped config shape fun entries => complete fields (placeEntries config shape fields [] entries)
  else if shape.kind = .map then
    mapped config shape fun entries =>
      complete fields (placeItems shape fields [] 0 (flattened entries))
  else
    arrayed config shape fun items => (·, []) <$> complete fields (placeItems shape fields [] 0 items)

def record (name expected : String) (fields : List (FieldReader (ItemReader Value))) :
    ItemReader Value :=
  let shape := config.shape name .keyed (fields.map (·.name))
  behindTags config fun own body =>
    .record name <$>
      recordFields config shape (withElements expected fields.length) fields own body

def bareVariant (variants : List (VariantReader (ItemReader Value))) : ItemReader Value :=
  (text config).andThen fun payload => do
    match ← contentOf variants payload.text with
    | .unit => return .unitVariant payload.text
    | .content form _ => .error (.mismatch (.invalidType .unitVariant form))

def variantPair (variants : List (VariantReader (ItemReader Value))) :
    List Item → Except Error (Value × List Item)
  | [] => .error (.unsupported .variantWithoutName)
  | tag :: items => do
    let name := (← (text config).on none tag).text
    match ← contentOf variants name, items with
    | .unit, items => return (.unitVariant name, items.drop 1)
    | .content _ _, [] => .error (.unsupported (.variantWithoutValue name))
    | .content _ read, item :: items =>
      let value ← read.on none item
      return (.variant name value, items)

theorem mem_of_variantPair {variants : List (VariantReader (ItemReader Value))} {items left : List Item}
    {value : Value} (found : variantPair config variants items = .ok (value, left)) {item : Item}
    (member : item ∈ left) : item ∈ items := by
  cases items with
  | nil => cases found
  | cons tag items =>
    refine List.mem_cons_of_mem _ ?_
    obtain ⟨payload, -, found⟩ := bind_eq_ok.mp found
    obtain ⟨content, -, found⟩ := bind_eq_ok.mp found
    cases content with
    | unit =>
      cases found
      exact List.mem_of_mem_drop member
    | content form read =>
      cases items with
      | nil => cases found
      | cons second items =>
        obtain ⟨value, -, same⟩ := bind_eq_ok.mp found
        cases same
        exact List.mem_cons_of_mem _ member

def variant (variants : List (VariantReader (ItemReader Value))) : ItemReader Value :=
  fun field tags body =>
    match body with
    | .text _ => bareVariant config variants field tags body
    | .array .. =>
      behindTags config (arrayed config .polymorphic (variantPair config variants)) field tags body
    | body => .error (.unexpectedMajor "enum variant" body.major)

def embedded (read : DecodeM Value) : ItemReader Value :=
  let inside (bytes : Bytes) := (fun value => .embedded value (some bytes)) <$> whole read bytes
  behindTags config fun _ body =>
    match body with
    | .bytes (.whole chunk) => inside chunk.content
    | .bytes (.chunked _) => .error (.unsupported .chunkedEmbedding)
    | .embedded _ item => inside item.bytes
    | body => .error (body.header.unexpected "byte string")

def any : ItemReader Value := behindTags config fun _ body => body.visit

def ignored : ItemReader Value := fun _ _ _ => .ok (.visited .ignored .unit)

end
end ItemReader

section
open ItemReader

mutual
def Ty.ofItem (config : Config) : Ty → ItemReader Value
  | .bool => (ofHeader config Header.boolean).andThen (.ok ∘ .bool)
  | .int kind => int config kind
  | .single => (ofHeader config Header.float).andThen (.ok ∘ .single ∘ Ieee.singleOfDouble)
  | .double => (ofHeader config Header.float).andThen (.ok ∘ .double)
  | .char => char config
  | .text => (text config).andThen (.ok ∘ .text ∘ TextPayload.text)
  | .textSlice => textSlice config
  | .bytes => (bytes config).andThen (.ok ∘ .bytes ∘ Payload.bytes)
  | .bytesSlice => bytesSlice config
  | .unit | .unitStruct _ => unit config
  | .option type => option config (type.ofItem config)
  | .seq type => (many config ⟨type.ofItem config, type.ofByte⟩).andThen (.ok ∘ .seq)
  | .tuple types =>
    (tuple config ("a tuple of size " ++ toString types.length) (itemSlots config types)).andThen
      (.ok ∘ .tuple)
  | .tupleStruct name types =>
    (tuple config (withElements ("tuple struct " ++ name) types.length)
      (itemSlots config types)).andThen (.ok ∘ .tuple)
  | .newtype _ type => (type.ofItem config).andThen (.ok ∘ .newtype)
  | .map key value => (map config (key.ofItem config) (value.ofItem config)).andThen (.ok ∘ .map)
  | .record name fields => record config name ("struct " ++ name) (itemFields config fields)
  | .enumeration name variants => variant config (itemVariants config name variants)
  | .embedded type => embedded config (type.read config)
  | .delayed type => (type ()).ofItem config
  | .any => any config
  | .identifier => (text config).andThen (.ok ∘ Decoder.textVisit)
  | .ignored => ignored

def itemSlots (config : Config) : List Ty → List (Slot (ItemReader Value))
  | [] => []
  | type :: types => ⟨type.ofItem config, type.ofByte⟩ :: itemSlots config types

def itemFields (config : Config) : List (Field Ty) → List (FieldReader (ItemReader Value))
  | [] => []
  | ⟨name, type, fallback⟩ :: fields =>
    ⟨name, type.ofItem config, fallback, type.isOption⟩ :: itemFields config fields

def itemVariants (config : Config) (parent : String) :
    List (Variant Ty) → List (VariantReader (ItemReader Value))
  | [] => []
  | ⟨name, content⟩ :: variants =>
    ⟨name, itemContent config parent name content⟩ :: itemVariants config parent variants

def itemContent (config : Config) (parent name : String) :
    Content Ty → ContentReader (ItemReader Value)
  | .unit => .unit
  | .newtype type => .content "newtype variant" (type.ofItem config)
  | .tuple types =>
    .content "tuple variant"
      ((tuple config (withElements ("tuple variant " ++ parent ++ "::" ++ name) types.length)
        (itemSlots config types)).andThen (.ok ∘ .tuple))
  | .record fields =>
    .content "struct variant"
      (record config name ("struct variant " ++ parent ++ "::" ++ name) (itemFields config fields))
end

end
end TypedCbor
