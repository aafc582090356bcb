import TypedCbor.Proofs.Elision
import TypedCbor.Proofs.Item.Defaults
import TypedCbor.Proofs.Unlisted

namespace TypedCbor

def Value.isRecord : Value → Bool
  | .record .. => true
  | .some value | .newtype value | .visited _ value => value.isRecord
  | _ => false

theorem Value.isRecord_of_isNull {value : Value} (null : value.isNull = true) : value.isRecord = false := by
  induction value using Value.induction with
  | step value ih =>
    cases value with
    | unit | none => rfl
    | some value | newtype value => exact ih value (by simp [parts]) null
    | visited how value => exact ih value (by simp [parts]) null
    | _ => cases null

theorem tagNumbers_ofInt {kind : IntKind} {n : Int} {item : Item} (found : Item.ofInt kind n = .ok item) :
    item.tagNumbers = [] := by
  cases kind with
  | i8 | i16 | i32 | i64 =>
    cases found
    unfold Item.ofSigned
    split <;> rfl
  | u8 | u16 | u32 | u64 =>
    cases found
    rfl
  | i128 | u128 =>
    unfold Item.ofInt Item.ofWide at found
    dsimp only at found
    split at found <;> split at found <;> cases found <;> rfl

theorem tagNumbers_collectedItem {config : Config} {values : List Value} {collected : Bytes} {item : Item}
    (found : collectedItem config values collected = .ok item) : item.tagNumbers = [] := by
  induction values generalizing collected with
  | nil =>
    cases found
    rfl
  | cons value values ih =>
    rw [collectedItem] at found
    split at found
    · exact ih found
    · obtain ⟨_, -, found⟩ := bind_eq_ok.mp found
      obtain ⟨_, -, same⟩ := bind_eq_ok.mp found
      cases same
      rfl

theorem Value.tagNumbers_item {config : Config} {value : Value} {markers : Markers} {item : Item}
    (made : value.item config markers = .ok item) (other : value.isRecord = false) :
    item.tagNumbers = [] := by
  induction value using Value.induction generalizing markers item with
  | step value ih =>
    cases value with
    | bool | char | text | bytes | unitVariant =>
      cases made
      rfl
    | int kind n => exact tagNumbers_ofInt made
    | single bits =>
      cases made
      obtain ⟨width, n, same⟩ := Item.ofSingle_cases config.floatForm bits
      rw [same]
      rfl
    | double bits =>
      cases made
      obtain ⟨width, n, same⟩ := Item.ofDouble_cases config.floatForm bits
      rw [same]
      rfl
    | unit | none =>
      cases made
      split <;> rfl
    | some value | newtype value => exact ih value (by simp [parts]) made other
    | visited how value => exact ih value (by simp [parts]) made other
    | seq items =>
      rw [Value.item] at made
      split at made
      · exact tagNumbers_collectedItem made
      · obtain ⟨_, -, rfl⟩ := map_eq_ok.mp made
        rfl
    | tuple items =>
      obtain ⟨_, -, rfl⟩ := map_eq_ok.mp made
      rfl
    | map entries =>
      obtain ⟨_, -, rfl⟩ := map_eq_ok.mp made
      rfl
    | record name fields => cases other
    | variant name content =>
      obtain ⟨_, -, rfl⟩ := map_eq_ok.mp made
      rfl
    | embedded value serialized =>
      obtain ⟨_, -, rfl⟩ := map_eq_ok.mp made
      rfl

namespace ItemReader

variable {α β : Type} {config : Config}

-- A reader that gives an answer only where an item has the tags of its field in front.
def Checks (config : Config) (read : ItemReader α) : Prop :=
  ∀ field tags body a, read field tags body = .ok a → ∃ own, ownTags config field tags = .ok own

theorem checks_behindTags (read : List UInt64 → Body Item → Except Error α) :
    Checks config (behindTags config read) := by
  intro field tags body a found
  obtain ⟨own, taken, -⟩ := bind_eq_ok.mp found
  exact ⟨own, taken⟩

theorem Checks.andThen {read : ItemReader α} (checks : Checks config read) (next : α → Except Error β) :
    Checks config (read.andThen next) := by
  intro field tags body b found
  obtain ⟨a, read, -⟩ := bind_eq_ok.mp found
  exact checks field tags body a read

theorem cases_of_option {read : ItemReader Value} {field : Option Element} {tags : List UInt64}
    {body : Body Item} {value : Value} (found : option config read field tags body = .ok value) :
    (body.isNull field ∧ ∃ own, ownTags config field tags = .ok own) ∨
      (¬body.isNull field ∧ ∃ held, read field tags body = .ok held) := by
  unfold option at found
  split at found
  · rename_i null
    obtain ⟨_, taken, -⟩ := bind_eq_ok.mp found
    obtain ⟨own, taken, -⟩ := map_eq_ok.mp taken
    exact .inl ⟨null, own, taken⟩
  · rename_i present
    obtain ⟨held, read, -⟩ := map_eq_ok.mp found
    exact .inr ⟨present, held, read⟩

theorem checks_variant (variants : List (VariantReader (ItemReader Value))) :
    Checks config (variant config variants) := by
  intro field tags body value found
  unfold variant at found
  split at found
  · exact (checks_behindTags _).andThen _ field tags _ value found
  · exact checks_behindTags _ field tags _ value found
  · cases found

end ItemReader

open ItemReader

section
variable {config : Config}

theorem ownTags_of_record (verifies : config.verifyValueTags = true) {name expected : String}
    {values : List (String × Value)} {markers : Markers} {item : Item}
    (made : (Value.record name values).item config markers = .ok item)
    {fields : List (FieldReader (ItemReader Value))} {field : Option Element} {tags : List UInt64}
    {decoded : Value} (read : ItemReader.record config name expected fields field tags item.body = .ok decoded) :
    ∃ own, ownTags config field tags = .ok own ∧ item.tagNumbers <:+ own := by
  obtain ⟨kept, -, rfl⟩ := map_eq_ok.mp made
  obtain ⟨own, taken, read⟩ := bind_eq_ok.mp read
  obtain ⟨entries, inside, -⟩ := map_eq_ok.mp read
  refine ⟨own, taken, ?_⟩
  have framing := config.arrayTags_shape name .keyed [] (fields.map (·.name))
  cases framed : (config.shape name .keyed []).arrayTags with
  | none =>
    rw [Item.record, framed]
    exact List.nil_suffix
  | some tags' =>
    rw [framed] at framing
    have isFramed : (config.shape name .keyed (fields.map (·.name))).isArrayFramed = true := by
      rw [Shape.isArrayFramed, ← framing]
      rfl
    rw [recordFields, if_pos isFramed] at inside
    obtain ⟨_, opened, -⟩ := bind_eq_ok.mp inside
    obtain ⟨_, opened, -⟩ := map_eq_ok.mp opened
    have numbers : (Item.record config (config.shape name .keyed []) kept).tagNumbers = tags' := by
      rw [Item.record, framed]
      exact (Item.tagNumbers_tagged _ _).trans (List.append_nil _)
    rw [numbers]
    exact Decoder.suffix_of_opened opened verifies framing.symm

end

section
variable {config : Config} {record : String → List (Field Ty) → List (String × Value) → Prop}
  {present : Value → Prop}

theorem Ty.ownTags_of_read (verifies : config.verifyValueTags = true) {type : Ty} {value : Value}
    (held : type.Holds record present value) {markers : Markers} {item : Item}
    (plain : markers.object = false) (made : value.item config markers = .ok item) (readable : item.Readable)
    {element : Element} (object : element.object = false) {tags : List UInt64} {decoded : Value}
    (read : type.ofItem config (some element) tags item.body = .ok decoded) :
    ∃ own, ownTags config (some element) tags = .ok own ∧ item.tagNumbers <:+ own := by
  induction type using Ty.induction generalizing value decoded with
  | step type ih =>
    have direct (checks : Checks config (type.ofItem config)) (other : value.isRecord = false) :
        ∃ own, ownTags config (some element) tags = .ok own ∧ item.tagNumbers <:+ own := by
      obtain ⟨own, taken⟩ := checks _ _ _ _ read
      refine ⟨own, taken, ?_⟩
      rw [Value.tagNumbers_item made other]
      exact List.nil_suffix
    cases held with
    | bool | single | double | text =>
      exact direct ((checks_behindTags _).andThen _) rfl
    | int | char | textSlice => exact direct ((checks_behindTags _).andThen _) rfl
    | bytes | bytesSlice | seq | tuple | tupleStruct | map => exact direct ((checks_behindTags _).andThen _) rfl
    | unit | unitStruct | embedded => exact direct (checks_behindTags _) rfl
    | unitVariant | newtypeVariant | tupleVariant | recordVariant => exact direct (checks_variant _) rfl
    | none type =>
      rw [Value.tagNumbers_item made rfl]
      rcases cases_of_option read with ⟨-, own, taken⟩ | ⟨present, -⟩
      · exact ⟨own, taken, List.nil_suffix⟩
      · rw [Value.item, plain] at made
        cases made
        exact absurd (Or.inl rfl) present
    | @some type _ there held =>
      rcases cases_of_option read with ⟨null, own, taken⟩ | ⟨-, inner, read⟩
      · have ordinary : OrdinaryField (Option.some element) := object
        have nothing := Value.isNull_of_item plain made
          (Body.nullLike_of_isNull readable.formed.head ordinary null)
        rw [Value.tagNumbers_item made (Value.isRecord_of_isNull nothing)]
        exact ⟨own, taken, List.nil_suffix⟩
      · exact ih type (by simp [Ty.parts]) held made read
    | @newtype type _ name held =>
      obtain ⟨_, read, -⟩ := bind_eq_ok.mp read
      exact ih type (by simp [Ty.parts]) held made read
    | record asked each => exact ownTags_of_record verifies made read
    | @delayed type _ held => exact ih (type ()) (by simp [Ty.parts]) held made read

end

section
variable {α : Type}

theorem sum_le_of_prefixes {left right : List (List α)} (each : List.Forall₂ (· <+: ·) left right) :
    (left.map List.length).sum ≤ (right.map List.length).sum := by
  induction each with
  | nil => exact Nat.le_refl _
  | cons here _ ih => exact Nat.add_le_add here.length_le ih

theorem eq_of_prefixes {left right : List (List α)} (each : List.Forall₂ (· <+: ·) left right)
    (same : (left.map List.length).sum = (right.map List.length).sum) : left = right := by
  induction each with
  | nil => rfl
  | cons here others ih =>
    have first := here.length_le
    have rest := sum_le_of_prefixes others
    simp only [List.map_cons, List.sum_cons] at same
    rw [here.eq_of_length (by omega), ih (by omega)]

end

-- A class in an array, without objects and defaults, that lists its fields in some order.
structure Config.ListsInPlaces (config : Config) (name : String) (fields : List (Field Ty)) : Prop where
  distinct : (fields.map Field.name).Nodup
  framed : (config.recordShape name fields).isArrayFramed = true
  listed : ((config.recordShape name fields).elements.map Element.name).Perm (fields.map Field.name)
  plain : ∀ element ∈ (config.recordShape name fields).elements,
    element.object = false ∧ element.declaredDefault = none

def Shape.tagsByName (shape : Shape) (fields : List (Field Ty)) : List (List UInt64) :=
  fields.map fun field => (shape.elementNamed field.name).valueTags

def Shape.tagsByPlace (shape : Shape) : List (List UInt64) := shape.elements.map Element.valueTags

namespace Config.ListsInPlaces

variable {config : Config} {name : String} {fields : List (Field Ty)}

theorem plain_elementNamed (lists : config.ListsInPlaces name fields) (field : String) :
    ((config.recordShape name fields).elementNamed field).object = false ∧
      ((config.recordShape name fields).elementNamed field).declaredDefault = none := by
  rcases (config.recordShape name fields).elementNamed_mem_or field with listed | unlisted
  · exact lists.plain _ listed
  · rw [unlisted]
    exact ⟨rfl, rfl⟩

theorem plain_element (lists : config.ListsInPlaces name fields) (index : Nat) :
    ((config.recordShape name fields).element index).object = false := by
  unfold Shape.element
  cases found : (config.recordShape name fields).elements[index]? with
  | none => rfl
  | some element => exact (lists.plain element (List.mem_of_getElem? found)).1

theorem length_eq (lists : config.ListsInPlaces name fields) :
    (config.recordShape name fields).elements.length = fields.length := by
  have length := lists.listed.length_eq
  rwa [List.length_map, List.length_map] at length

theorem perm_tags (lists : config.ListsInPlaces name fields) :
    ((config.recordShape name fields).tagsByPlace).Perm ((config.recordShape name fields).tagsByName fields) := by
  have names : ((config.recordShape name fields).elements.map Element.name).Nodup :=
    lists.listed.nodup_iff.mpr lists.distinct
  have told := lists.listed.map fun field => ((config.recordShape name fields).elementNamed field).valueTags
  rw [List.map_map, List.map_map] at told
  refine (List.Perm.of_eq ?_).trans told
  refine List.map_congr_left fun element member => ?_
  rw [Function.comp, Shape.elementNamed_of_nodup names member]

end Config.ListsInPlaces

section
variable {config : Config} {shape : Shape} {name : String} {fields : List (Field Ty)}
  {values : List (String × Value)}

theorem Value.Returns.inPlace {value : Value} {read : ItemReader Value}
    (returns : value.Returns config config read)
    (tags : config.verifyValueTags = true → config.writeValueTags = true) {writer reader : Element}
    (plain : writer.object = false) (ordinary : reader.object = false)
    (same : reader.valueTags = writer.valueTags) : value.ReturnsAt config writer reader read := by
  intro item made readable
  obtain ⟨own, taken, behind⟩ := exists_ownTags tags writer item
  have taken' : ownTags config (Option.some reader) (writer.valueItem config item).tagNumbers = .ok own := by
    rw [← taken, ownTags, ownTags, same]
  exact returns _ item plain made readable (Option.some reader) _ own ordinary taken' behind

theorem prefix_of_ownTags (verifies : config.verifyValueTags = true) {element : Element}
    {tags itself own : List UInt64} (split : ownTags config (some element) (tags ++ itself) = .ok own)
    (behind : itself <:+ own) : element.valueTags <+: tags := by
  have whole : element.valueTags ++ own = tags ++ itself := append_of_ownTags verifies split
  obtain ⟨between, rfl⟩ := behind
  rw [← List.append_assoc] at whole
  exact ⟨between, List.append_cancel_right whole⟩

theorem prefixes_of_takeFields (keyed : ∀ descriptor ∈ config.descriptors, descriptor.kind = .keyed)
    (writes : config.writeValueTags = true) (verifies : config.verifyValueTags = true)
    (plain : ∀ field, (shape.elementNamed field).object = false ∧
      (shape.elementNamed field).declaredDefault = none)
    (ordinary : ∀ index, (shape.element index).object = false)
    {record : String → List (Field Ty) → List (String × Value) → Prop} {present : Value → Prop}
    (held : Ty.HoldFields record present fields values) {kept : List (Element × Item)}
    (made : fieldItems config shape values = .ok kept) (readable : ∀ pair ∈ kept, pair.2.Readable)
    {expected : String} {taken : Nat} {entries : List (String × Value)} {left : List Item}
    (read : takeFields shape expected taken (itemFields config fields)
      (kept.map fun pair => pair.1.valueItem config pair.2) = .ok (entries, left)) :
    ∀ index field, fields[index]? = some field →
      (shape.element (taken + index)).valueTags <+: (shape.elementNamed field.name).valueTags := by
  induction fields generalizing values kept taken entries left with
  | nil => exact fun _ _ found => nomatch found
  | cons field fields ih =>
    cases held with
    | @cons _ value _ values here others =>
      obtain ⟨item, later, itself, rest, ⟨leftOut, -⟩ | ⟨-, rfl⟩⟩ := fieldItems_cons_cases keyed made
      · exact absurd leftOut (Config.not_leavesOut (plain field.name).2 value)
      · obtain ⟨itemReadable, readable⟩ := List.forall_mem_cons.mp readable
        rw [List.map_cons, itemFields, takeFields] at read
        obtain ⟨decoded, first, read⟩ := bind_eq_ok.mp read
        obtain ⟨⟨entries', left'⟩, read, -⟩ := bind_eq_ok.mp read
        have later := ih others rest readable read
        have numbers : ((shape.elementNamed field.name).valueItem config item).tagNumbers =
            (shape.elementNamed field.name).valueTags ++ item.tagNumbers := by
          rw [Element.valueItem, if_pos writes]
          exact Item.tagNumbers_tagged _ item
        rw [ItemReader.on, numbers] at first
        obtain ⟨own, split, behind⟩ := Ty.ownTags_of_read verifies here (plain field.name).1 itself
          itemReadable (ordinary taken) first
        intro index place found
        cases index with
        | zero =>
          cases found
          exact prefix_of_ownTags verifies split behind
        | succ index =>
          rw [Nat.add_comm index, ← Nat.add_assoc]
          exact later index _ found

theorem Config.ListsInPlaces.forall₂_tags (lists : config.ListsInPlaces name fields)
    {related : List UInt64 → List UInt64 → Prop} :
    List.Forall₂ related (config.recordShape name fields).tagsByPlace
        ((config.recordShape name fields).tagsByName fields) ↔
      ∀ index field, fields[index]? = some field →
        related ((config.recordShape name fields).element index).valueTags
          ((config.recordShape name fields).elementNamed field.name).valueTags := by
  have length := lists.length_eq
  rw [List.forall₂_iff_get]
  simp only [Shape.tagsByPlace, Shape.tagsByName, List.get_eq_getElem, List.getElem_map, List.length_map]
  constructor
  · rintro ⟨-, each⟩ index field found
    obtain ⟨bound, rfl⟩ := List.getElem?_eq_some_iff.mp found
    have bound' : index < (config.recordShape name fields).elements.length := length ▸ bound
    rw [Shape.element_of_lt bound']
    exact each index bound' bound
  · intro each
    refine ⟨length, fun index bound bound' => ?_⟩
    rw [← Shape.element_of_lt bound]
    exact each index _ (List.getElem?_eq_getElem bound')

theorem item_inPlaces (keyed : ∀ descriptor ∈ config.descriptors, descriptor.kind = .keyed)
    (lists : config.ListsInPlaces name fields) (keeps : config.Keeps config name fields values) :
    ∃ kept tags, fieldItems config (config.recordShape name fields) values = .ok kept ∧
      (config.recordShape name fields).arrayTags = some tags ∧
      (Value.record name values).item config {} =
        .ok ((Item.array config (kept.map fun pair => pair.1.valueItem config pair.2)).tagged tags) := by
  obtain ⟨kept, made⟩ := exists_fieldItems keyed keeps.written
  obtain ⟨tags, framed⟩ := Option.isSome_iff_exists.mp lists.framed
  have elements : (config.shape name .keyed []).elementNamed = (config.recordShape name fields).elementNamed :=
    config.elementNamed_shape name .keyed [] _
  have framing : (config.shape name .keyed []).arrayTags = some tags :=
    (config.arrayTags_shape name .keyed [] _).trans framed
  refine ⟨kept, tags, made, framed, ?_⟩
  rw [Value.item, fieldItems_congr elements, made, ok_map, Item.record, framing]

theorem decode_inPlaces (keyed : ∀ descriptor ∈ config.descriptors, descriptor.kind = .keyed)
    {tags : List UInt64} (framed : (config.recordShape name fields).arrayTags = some tags)
    {items : List Item} (readable : ((Item.array config items).tagged tags).Readable)
    {decoded : List (String × Value)}
    (done : takeFields (config.recordShape name fields)
      (withElements ("struct " ++ name) (itemFields config fields).length) 0 (itemFields config fields)
      items = .ok (decoded, [])) :
    config.decode (.record name fields) ((Item.array config items).tagged tags).bytes =
      .ok (.record name decoded) := by
  have shape : config.shape name .keyed ((itemFields config fields).map (·.name)) =
      config.recordShape name fields := by
    rw [names_itemFields]
    rfl
  have numbers : ((Item.array config items).tagged tags).tagNumbers = tags :=
    (Item.tagNumbers_tagged _ _).trans (List.append_nil _)
  have kind : (config.recordShape name fields).kind = .keyed := Config.kind_shape keyed name _
  have inside := @recordFields_array config config _ kind tags framed items readable.of_tagged tags
    (List.suffix_refl tags) _ _ decoded done
  rw [Config.decode_bytes (Config.regular_of_kind keyed) _ readable, Ty.ofItem, ItemReader.record, shape,
    ItemReader.on, numbers]
  change Value.record name <$> recordFields config _ _ _ tags _ = _
  rw [Item.body_tagged, inside]
  rfl

theorem decode_alike (keyed : ∀ descriptor ∈ config.descriptors, descriptor.kind = .keyed)
    (writes : config.writeValueTags = true) (lists : config.ListsInPlaces name fields)
    (keeps : config.Keeps config name fields values)
    (alike : (config.recordShape name fields).tagsByPlace = (config.recordShape name fields).tagsByName fields)
    {kept : List (Element × Item)} (made : fieldItems config (config.recordShape name fields) values = .ok kept)
    {tags : List UInt64} (framed : (config.recordShape name fields).arrayTags = some tags)
    (readable : ((Item.array config
      (kept.map fun pair => pair.1.valueItem config pair.2)).tagged tags).Readable) :
    ∃ decoded, config.decode (.record name fields)
        ((Item.array config (kept.map fun pair => pair.1.valueItem config pair.2)).tagged tags).bytes =
          .ok decoded ∧ decoded.canonical = (Value.record name values).canonical := by
  have inside : ∀ pair ∈ kept, pair.2.Readable := fun pair member =>
    (Item.readable_items readable.of_tagged _ (List.mem_map_of_mem member)).of_tagged
  have each := lists.forall₂_tags.mp ((congrFun₂ List.forall₂_eq_eq_eq _ _).mpr alike)
  have returns : ∀ (index : Nat) pair, (fields.zip values)[index]? = some pair → pair.2.2.ReturnsAt config
      ((config.recordShape name fields).elementNamed pair.1.name)
      ((config.recordShape name fields).element (0 + index)) (pair.1.type.ofItem config) := by
    intro index pair found
    rw [Nat.zero_add]
    refine (keeps.returns pair (List.mem_of_getElem? found)).inPlace (fun _ => writes)
      (lists.plain_elementNamed _).1 (lists.plain_element index) (each index pair.1 ?_)
    exact (List.getElem?_zip_eq_some.mp found).1
  have written (field : String) (value : Value) :
      ¬config.LeavesOut ((config.recordShape name fields).elementNamed field) value :=
    Config.not_leavesOut (lists.plain_elementNamed field).2 value
  obtain ⟨decoded, done, canonicals⟩ := takeFields_returns keyed keeps.names returns
    (fun pair _ left => absurd left (written _ _))
    (List.pairwise_of_forall_mem_list fun _ _ _ _ left => absurd left (written _ _)) made inside _
  exact ⟨_, decode_inPlaces keyed framed readable done, congrArg (Value.record name) canonicals⟩

theorem alike_of_decoded (keyed : ∀ descriptor ∈ config.descriptors, descriptor.kind = .keyed)
    (writes : config.writeValueTags = true) (verifies : config.verifyValueTags = true)
    (lists : config.ListsInPlaces name fields)
    (held : Ty.HoldFields (fun _ _ _ => True) (fun _ => True) fields values)
    {kept : List (Element × Item)} (made : fieldItems config (config.recordShape name fields) values = .ok kept)
    {tags : List UInt64} (built : (Value.record name values).item config {} =
      .ok ((Item.array config (kept.map fun pair => pair.1.valueItem config pair.2)).tagged tags))
    (readable : ((Item.array config
      (kept.map fun pair => pair.1.valueItem config pair.2)).tagged tags).Readable)
    {decoded : Value} (read : config.decode (.record name fields)
      ((Item.array config (kept.map fun pair => pair.1.valueItem config pair.2)).tagged tags).bytes =
        .ok decoded) :
    (config.recordShape name fields).tagsByPlace = (config.recordShape name fields).tagsByName fields := by
  rw [Config.decode_bytes (Config.regular_of_kind keyed) _ readable] at read
  obtain ⟨kept', entries, expected, made', taken, -⟩ := takeFields_of_decoded rfl lists.framed built read
  cases Except.ok.inj (made.symm.trans made')
  have inside : ∀ pair ∈ kept, pair.2.Readable := fun pair member =>
    (Item.readable_items readable.of_tagged _ (List.mem_map_of_mem member)).of_tagged
  have each := prefixes_of_takeFields keyed writes verifies lists.plain_elementNamed lists.plain_element
    held made inside taken
  simp only [Nat.zero_add] at each
  exact eq_of_prefixes (lists.forall₂_tags.mpr each) (lists.perm_tags.map List.length).sum_nat

-- What is written of a record in an array is read as it was, or it is refused; and it is read exactly
-- if every place declares the tags of the field that the type has there.
theorem Config.decode_encode_permuted_iff
    (keyed : ∀ descriptor ∈ config.descriptors, descriptor.kind = .keyed)
    (writes : config.writeValueTags = true) (verifies : config.verifyValueTags = true)
    (lists : config.ListsInPlaces name fields) (keeps : config.Keeps config name fields values)
    (held : Ty.HoldFields (fun _ _ _ => True) (fun _ => True) fields values) :
    ∃ output, config.encode (.record name values) = .ok output ∧ (output.length < 2 ^ 64 →
      ((∃ decoded, config.decode (.record name fields) output = .ok decoded) ↔
        (config.recordShape name fields).tagsByPlace = (config.recordShape name fields).tagsByName fields) ∧
      ∀ decoded, config.decode (.record name fields) output = .ok decoded →
        decoded.canonical = (Value.record name values).canonical) := by
  obtain ⟨kept, tags, made, framed, built⟩ := item_inPlaces keyed lists keeps
  have encoded := Config.encode_eq_wire keyed (.record name values)
  rw [built, ok_map] at encoded
  refine ⟨_, encoded, fun small => ?_⟩
  obtain ⟨item, built', same, readable⟩ := Config.readable_of_encode keyed encoded small
  cases Except.ok.inj (built.symm.trans built')
  rw [same]
  refine ⟨⟨fun ⟨_, read⟩ => ?_, fun alike => ?_⟩, fun decoded read => ?_⟩
  · exact alike_of_decoded keyed writes verifies lists held made built readable read
  · obtain ⟨decoded, read, -⟩ := decode_alike keyed writes lists keeps alike made framed readable
    exact ⟨decoded, read⟩
  · have alike := alike_of_decoded keyed writes verifies lists held made built readable read
    obtain ⟨decoded', read', canonical⟩ := decode_alike keyed writes lists keeps alike made framed readable
    cases Except.ok.inj (read.symm.trans read')
    exact canonical

end

section
def Config.flippedPoints (ordinate abscissa : List UInt64) : Config :=
  { descriptors := [⟨"Point", .keyed, some [],
      [⟨"y", none, [], ordinate, false, false, none⟩, ⟨"x", none, [], abscissa, false, false, none⟩]⟩] }

def Ty.coordinates : List (Field Ty) := [⟨"x", .int .i32, none⟩, ⟨"y", .int .i32, none⟩]

variable {ordinate abscissa : List UInt64}

theorem Config.keyed_flippedPoints :
    ∀ descriptor ∈ (Config.flippedPoints ordinate abscissa).descriptors, descriptor.kind = .keyed :=
  List.forall_mem_singleton.mpr rfl

theorem Config.lists_flippedPoints :
    (Config.flippedPoints ordinate abscissa).ListsInPlaces "Point" Ty.coordinates := by
  refine ⟨by decide, rfl, List.Perm.swap _ _ _, ?_⟩
  exact List.forall_mem_cons.mpr ⟨⟨rfl, rfl⟩, List.forall_mem_singleton.mpr ⟨rfl, rfl⟩⟩

theorem Config.keeps_flippedPoints : (Config.flippedPoints ordinate abscissa).Keeps
    (Config.flippedPoints ordinate abscissa) "Point" Ty.coordinates
      [("x", .int .i32 1), ("y", .int .i32 2)] := by
  refine ⟨rfl, ?_, ?_⟩
  · exact List.forall_mem_cons.mpr ⟨⟨_, rfl⟩, List.forall_mem_singleton.mpr ⟨_, rfl⟩⟩
  · exact List.forall_mem_cons.mpr ⟨Value.int_returns rfl, List.forall_mem_singleton.mpr (Value.int_returns rfl)⟩

theorem Ty.holds_coordinates : Ty.HoldFields (fun _ _ _ => True) (fun _ => True) Ty.coordinates
    [("x", .int .i32 1), ("y", .int .i32 2)] :=
  .cons (.int rfl) (.cons (.int rfl) .nil)

theorem Config.decode_flippedPoint :
    (∃ decoded, (Config.flippedPoints [5] [5]).decode (.record "Point" Ty.coordinates)
        [0x9f, 0xc5, 0x01, 0xc5, 0x02, 0xff] = .ok decoded ∧
      decoded.canonical = (Value.point 1 2).canonical) ∧
    ¬∃ decoded, (Config.flippedPoints [5] []).decode (.record "Point" Ty.coordinates)
        [0x9f, 0x01, 0xc5, 0x02, 0xff] = .ok decoded := by
  constructor
  · have encoded : (Config.flippedPoints [5] [5]).encode (.point 1 2) =
        .ok [0x9f, 0xc5, 0x01, 0xc5, 0x02, 0xff] := by rfl
    obtain ⟨output, same, read⟩ := Config.decode_encode_permuted_iff Config.keyed_flippedPoints rfl rfl
      (@Config.lists_flippedPoints [5] [5]) Config.keeps_flippedPoints Ty.holds_coordinates
    cases Except.ok.inj (encoded.symm.trans same)
    obtain ⟨accepted, canonical⟩ := read (by decide)
    obtain ⟨decoded, read⟩ := accepted.mpr rfl
    exact ⟨decoded, read, canonical decoded read⟩
  · have encoded : (Config.flippedPoints [5] []).encode (.point 1 2) =
        .ok [0x9f, 0x01, 0xc5, 0x02, 0xff] := by rfl
    obtain ⟨output, same, read⟩ := Config.decode_encode_permuted_iff Config.keyed_flippedPoints rfl rfl
      (@Config.lists_flippedPoints [5] []) Config.keeps_flippedPoints Ty.holds_coordinates
    cases Except.ok.inj (encoded.symm.trans same)
    exact fun accepted => absurd ((read (by decide)).1.mp accepted) (by decide)

theorem Config.decode_refuses_flippedPoint :
    (Config.flippedPoints [5] []).ListsInPlaces "Point" Ty.coordinates ∧
      (Config.flippedPoints [5] []).Keeps (Config.flippedPoints [5] []) "Point" Ty.coordinates
        [("x", .int .i32 1), ("y", .int .i32 2)] ∧
      (Config.flippedPoints [5] []).encode (.point 1 2) =
        .ok [0x9f, 0x01, 0xc5, 0x02, 0xff] ∧
      (Config.flippedPoints [5] []).decode (.record "Point" Ty.coordinates) [0x9f, 0x01, 0xc5, 0x02, 0xff] =
        .error (.tagMismatch [5] []) :=
  ⟨Config.lists_flippedPoints, Config.keeps_flippedPoints, rfl, rfl⟩

end
end TypedCbor
