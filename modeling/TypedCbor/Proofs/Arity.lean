import TypedCbor.Proofs.Embedding
import TypedCbor.Proofs.Framing
import TypedCbor.Proofs.Places.Visited

namespace TypedCbor

-- How a reader that stops within an array is refused at its end.
def Framing.Refuses (framing : Framing) (unread : Nat) (ran : Except Error α) : Prop :=
  match framing with
  | .counted _ => ran = .error (.lengthMismatch unread)
  | .delimited => ∃ found, ran = .error (.unexpectedMajor "break" found)

theorem Framing.ended_eq_ok {framing : Framing} {left : List Item} : framing.ended left = .ok () ↔ left = [] := by
  cases left with
  | nil => cases framing <;> exact iff_of_true rfl rfl
  | cons item left => cases framing <;> exact iff_of_false nofun nofun

theorem Framing.refuses_ended (framing : Framing) {items : List Item} {taken : Nat} (long : taken < items.length)
    (α : Type) :
    ∃ e, framing.ended (items.drop taken) = .error e ∧
      framing.Refuses (items.length - taken) (.error e : Except Error α) := by
  rw [← List.length_drop]
  cases left : items.drop taken with
  | nil => exact absurd (List.drop_eq_nil_iff.mp left) (Nat.not_le.mpr long)
  | cons item left =>
    cases framing with
    | counted width => exact ⟨_, rfl, rfl⟩
    | delimited => exact ⟨_, rfl, _, rfl⟩

theorem Framing.Refuses.map {α β : Type} {framing : Framing} {unread : Nat} {ran : Except Error α}
    (refuses : framing.Refuses unread ran) (f : α → β) : framing.Refuses unread (f <$> ran) := by
  cases framing with
  | counted width =>
    cases refuses
    rfl
  | delimited =>
    obtain ⟨found, rfl⟩ := refuses
    exact ⟨found, rfl⟩

def Body.octets? : Body Item → Option Bytes
  | .bytes form => some form.content
  | .embedded _ item => some item.bytes
  | _ => none

namespace ItemReader

variable {α : Type} {config : Config} {shape : Shape} {expected : String}

def fillWith {σ ε : Type} (one : σ → ε → Except Error Value) (expected : String) (filled : Nat) :
    List σ → List ε → Except Error (List Value × List ε)
  | [], left => .ok ([], left)
  | _ :: _, [] => .error (.length filled expected)
  | slot :: slots, a :: left => do
    let value ← one slot a
    let (values, left) ← fillWith one expected (filled + 1) slots left
    return (value :: values, left)

theorem fill_eq_fillWith (expected : String) (filled : Nat) (slots : List (Slot (ItemReader Value)))
    (items : List Item) :
    fill expected filled slots items =
      fillWith (fun slot item => slot.read.on none item) expected filled slots items := by
  induction slots generalizing filled items with
  | nil => rfl
  | cons slot slots ih => cases items <;> simp only [fill, fillWith, ih]

theorem fillFromBytes_eq_fillWith {ρ : Type} (expected : String) (filled : Nat) (slots : List (Slot ρ))
    (bytes : Bytes) :
    Decoder.fillFromBytes expected filled slots bytes = fillWith Slot.ofByte expected filled slots bytes := by
  induction slots generalizing filled bytes with
  | nil => rfl
  | cons slot slots ih => cases bytes <;> simp only [Decoder.fillFromBytes, fillWith, ih]

section
variable {σ ε : Type} {one : σ → ε → Except Error Value} {filled : Nat} {slots : List σ} {given : List ε}

theorem left_of_fillWith {values : List Value} {left : List ε}
    (found : fillWith one expected filled slots given = .ok (values, left)) :
    slots.length ≤ given.length ∧ left = given.drop slots.length := by
  induction slots generalizing filled given values with
  | nil =>
    cases found
    exact ⟨Nat.zero_le _, rfl⟩
  | cons slot slots ih =>
    cases given with
    | nil => cases found
    | cons a given =>
      obtain ⟨value, -, found⟩ := bind_eq_ok.mp found
      obtain ⟨⟨values, left⟩, others, same⟩ := bind_eq_ok.mp found
      cases same
      obtain ⟨enough, rfl⟩ := ih others
      exact ⟨Nat.succ_le_succ enough, rfl⟩

theorem fillWith_of_each (each : ∀ pair ∈ slots.zip given, ∃ value, one pair.1 pair.2 = .ok value) :
    if given.length < slots.length then
      fillWith one expected filled slots given = .error (.length (filled + given.length) expected)
    else ∃ values, fillWith one expected filled slots given = .ok (values, given.drop slots.length) := by
  induction slots generalizing filled given with
  | nil => exact ⟨[], rfl⟩
  | cons slot slots ih =>
    cases given with
    | nil => rfl
    | cons a given =>
      rw [List.zip_cons_cons, List.forall_mem_cons] at each
      obtain ⟨⟨value, here⟩, each⟩ := each
      have others := @ih (filled + 1) given each
      simp only [fillWith, here, ok_bind, List.length_cons, Nat.add_lt_add_iff_right]
      split
      · rename_i short
        rw [if_pos short] at others
        rw [others, Nat.add_right_comm, Nat.add_assoc]
        rfl
      · rename_i enough
        rw [if_neg enough] at others
        obtain ⟨values, others⟩ := others
        exact ⟨value :: values, by rw [others]; rfl⟩

end

theorem left_of_takeFields {taken : Nat} {fields : List (FieldReader (ItemReader Value))} {items left : List Item}
    {values : List (String × Value)} (found : takeFields shape expected taken fields items = .ok (values, left)) :
    left = items.drop fields.length ∧ ∀ field ∈ fields.drop items.length, field.fallback.isSome = true := by
  induction fields generalizing taken items values with
  | nil =>
    cases found
    exact ⟨rfl, by simp⟩
  | cons field fields ih =>
    cases items with
    | nil =>
      simp only [takeFields] at found
      split at found
      · rename_i value known
        obtain ⟨⟨values, left⟩, others, same⟩ := bind_eq_ok.mp found
        cases same
        obtain ⟨rfl, each⟩ := ih others
        exact ⟨by simp, List.forall_mem_cons.mpr ⟨by rw [known]; rfl, each⟩⟩
      · cases found
    | cons item items =>
      obtain ⟨value, -, found⟩ := bind_eq_ok.mp found
      obtain ⟨⟨values, left⟩, others, same⟩ := bind_eq_ok.mp found
      cases same
      exact ih others

theorem takeFields_of_each {taken : Nat} {fields : List (FieldReader (ItemReader Value))} {items : List Item}
    (each : ∀ (i : Nat) field item, fields[i]? = some field → items[i]? = some item →
      ∃ value, field.read.on (some (shape.element (taken + i))) item = .ok value) :
    let missing := fields.drop items.length
    if ∀ field ∈ missing, field.fallback.isSome = true then
      ∃ values, takeFields shape expected taken fields items = .ok (values, items.drop fields.length)
    else takeFields shape expected taken fields items =
      .error (.length (taken + items.length + missing.findIdx fun field => field.fallback.isNone) expected) := by
  induction fields generalizing taken items with
  | nil => simp [takeFields]
  | cons field fields ih =>
    cases items with
    | nil =>
      have others := @ih (taken + 1) [] (by simp)
      simp only [List.length_nil, List.drop_zero, List.drop_nil] at others
      simp only [List.length_nil, List.drop_zero, takeFields, List.forall_mem_cons, List.findIdx_cons, List.drop_nil]
      cases known : field.fallback with
      | none => simp
      | some value =>
        by_cases rest : ∀ field ∈ fields, field.fallback.isSome = true
        · rw [if_pos rest] at others
          obtain ⟨values, others⟩ := others
          rw [if_pos ⟨rfl, rest⟩, others]
          exact ⟨_, rfl⟩
        · rw [if_neg rest] at others
          rw [if_neg (fun all => rest all.2), others]
          simp only [Option.isNone_some, cond_false]
          change Except.error _ = Except.error _
          congr 2
          omega
    | cons item items =>
      obtain ⟨value, here⟩ := each 0 _ _ rfl rfl
      have others := @ih (taken + 1) items fun i field item known known' => by
        rw [Nat.add_assoc, Nat.add_comm 1]
        exact each (i + 1) field item known known'
      rw [Nat.add_zero] at here
      simp only [List.length_cons, List.drop_succ_cons, takeFields, here, ok_bind] at others ⊢
      split
      · rename_i all
        rw [if_pos all] at others
        obtain ⟨values, others⟩ := others
        exact ⟨_, by rw [others]; rfl⟩
      · rename_i some
        rw [if_neg some] at others
        rw [others, Nat.add_assoc taken, Nat.add_comm 1]
        rfl

theorem arrayed_eq_ok {read : List Item → Except Error (α × List Item)} {own : List UInt64} {framing : Framing}
    {items : List Item} {a : α} (found : arrayed config shape read own (.array framing items) = .ok a) :
    read items = .ok (a, []) := by
  obtain ⟨⟨⟩, -, found⟩ := bind_eq_ok.mp found
  obtain ⟨⟨a, left⟩, taken, found⟩ := bind_eq_ok.mp found
  obtain ⟨⟨⟩, ended, same⟩ := bind_eq_ok.mp found
  cases same
  rw [Framing.ended_eq_ok.mp ended] at taken
  exact taken

theorem arrayed_of_read {read : List Item → Except Error (α × List Item)} {own : List UInt64} {framing : Framing}
    {items : List Item} {s : OpenStructure}
    (opens : Decoder.opened config shape (Body.array framing items).header own = .ok s) :
    arrayed config shape read own (.array framing items) =
      read items >>= fun p => framing.ended p.2 >>= fun _ => .ok p.1 := by
  rw [arrayed, opens]
  rfl

theorem variantPair_eq_ok {variants : List (VariantReader (ItemReader Value))} {items : List Item} {value : Value}
    (found : variantPair config variants items = .ok (value, [])) :
    ∃ first more payload content, items = first :: more ∧ (text config).on none first = .ok payload ∧
      Decoder.contentOf variants payload.text = .ok content ∧
      match content with
      | .unit => value = .unitVariant payload.text ∧ more.length ≤ 1
      | .content _ read => ∃ second held, more = [second] ∧ read.on none second = .ok held ∧
          value = .variant payload.text held := by
  cases items with
  | nil => cases found
  | cons first more =>
    obtain ⟨payload, named, found⟩ := bind_eq_ok.mp found
    obtain ⟨content, known, found⟩ := bind_eq_ok.mp found
    refine ⟨first, more, payload, content, rfl, named, known, ?_⟩
    cases content with
    | unit =>
      obtain ⟨rfl, none⟩ := Prod.mk.inj (Except.ok.inj found)
      exact ⟨rfl, List.drop_eq_nil_iff.mp none⟩
    | content form read =>
      cases more with
      | nil => cases found
      | cons second more =>
        obtain ⟨held, inside, same⟩ := bind_eq_ok.mp found
        obtain ⟨rfl, rfl⟩ := Prod.mk.inj (Except.ok.inj same)
        exact ⟨second, held, rfl, inside, rfl⟩

end ItemReader

theorem itemSlots_eq_map (config : Config) (types : List Ty) :
    itemSlots config types = types.map fun type => ⟨type.ofItem config, type.ofByte⟩ := by
  induction types with
  | nil => rfl
  | cons type types ih => rw [itemSlots, ih, List.map_cons]

theorem itemFields_eq_map (config : Config) (fields : List (Field Ty)) :
    itemFields config fields =
      fields.map fun field => ⟨field.name, field.type.ofItem config, field.fallback, field.type.isOption⟩ := by
  induction fields with
  | nil => rfl
  | cons field fields ih => rw [itemFields, ih, List.map_cons]

namespace Target

open ItemReader

def ofItem (config : Config) : Target → ItemReader Value
  | value type => type.ofItem config
  | tuple expected types => (ItemReader.tuple config expected (itemSlots config types)).andThen (.ok ∘ .tuple)
  | record name expected fields => ItemReader.record config name expected (itemFields config fields)

theorem follows {config : Config} (regular : config.Regular) (target : Target) :
    Follows (target.read config) (target.ofItem config) := by
  have each (type : Ty) := Decoder.follows_read regular type
  cases target with
  | value type => exact each type
  | tuple expected types => exact (Decoder.follows_readTuple (Decoder.follows_slots fun type _ => each type)).map _
  | record name expected fields =>
    exact Decoder.follows_readRecord regular (Decoder.follows_fieldReaders fun field _ => each _) _ _

end Target

def Ty.Accepts (config : Config) (field : Option Element) (type : Ty) (item : Item) : Prop :=
  ∃ value, outcome (type.read config) ⟨item.bytes, field, []⟩ = .ok (value, ⟨[], none, []⟩)

section
variable {config : Config} {field : Option Element} {pending own : List UInt64} {item : Item} {rest : Bytes}

theorem Ty.Accepts.told (regular : config.Regular) {type : Ty} (readable : item.Readable)
    (accepts : type.Accepts config field item) : ∃ value, (type.ofItem config).on field item = .ok value := by
  obtain ⟨value, read⟩ := accepts
  have follows := Decoder.follows_read regular type item readable field [] []
  rw [List.append_nil, read] at follows
  obtain ⟨value, told, -⟩ := map_eq_ok.mp follows.symm
  exact ⟨value, told⟩

theorem outcome_target (regular : config.Regular) (target : Target) (readable : item.Readable) :
    outcome (target.read config) ⟨item.bytes ++ rest, field, pending⟩ =
      (·, ⟨rest, none, []⟩) <$> target.ofItem config field (pending ++ item.tagNumbers) item.body :=
  target.follows regular item readable field pending rest

theorem length_of_tupleOfBytes {ρ : Type} {expected : String} {slots : List (Slot ρ)} {bytes : Bytes}
    {values : List Value} (found : Decoder.tupleOfBytes expected slots bytes = .ok values) :
    bytes.length = slots.length := by
  obtain ⟨⟨filled, left⟩, filling, found⟩ := bind_eq_ok.mp found
  rw [ItemReader.fillFromBytes_eq_fillWith] at filling
  obtain ⟨enough, rfl⟩ := ItemReader.left_of_fillWith filling
  dsimp only at found
  split at found
  · rename_i none
    rw [List.isEmpty_iff, List.drop_eq_nil_iff] at none
    exact Nat.le_antisymm none enough
  · cases found

theorem tupleOfBytes_of_each {ρ : Type} {expected : String} {slots : List (Slot ρ)} {bytes : Bytes}
    (each : ∀ pair ∈ slots.zip bytes, ∃ value, pair.1.ofByte pair.2 = .ok value) :
    (bytes.length < slots.length →
      Decoder.tupleOfBytes expected slots bytes = .error (.length bytes.length expected)) ∧
    (slots.length < bytes.length → Decoder.tupleOfBytes expected slots bytes =
      .error (.length bytes.length (counted slots.length "element" ++ " in sequence"))) := by
  have filling := @ItemReader.fillWith_of_each expected _ _ Slot.ofByte 0 slots bytes each
  rw [← ItemReader.fillFromBytes_eq_fillWith, Nat.zero_add] at filling
  constructor
  · intro short
    rw [if_pos short] at filling
    rw [Decoder.tupleOfBytes, filling]
    rfl
  · intro long
    rw [if_neg (Nat.not_lt.mpr (Nat.le_of_lt long))] at filling
    obtain ⟨values, filling⟩ := filling
    have some : (bytes.drop slots.length).isEmpty = false := by
      rw [List.isEmpty_eq_false_iff, Ne, List.drop_eq_nil_iff]
      omega
    rw [Decoder.tupleOfBytes, filling, ok_bind]
    simp only [some, Bool.false_eq_true, if_false]
    rfl

namespace Target

variable {types : List Ty} {expected : String} {framing : Framing} {items : List Item} {tags : List UInt64}

theorem length_of_tuple_array {value : Value}
    (found : (Target.tuple expected types).ofItem config field tags (.array framing items) = .ok value) :
    items.length = types.length := by
  obtain ⟨values, found, -⟩ := bind_eq_ok.mp found
  obtain ⟨own, -, found⟩ := bind_eq_ok.mp found
  have filling := ItemReader.arrayed_eq_ok found
  rw [ItemReader.fill_eq_fillWith, itemSlots_eq_map] at filling
  obtain ⟨enough, none⟩ := ItemReader.left_of_fillWith filling
  rw [List.length_map] at enough none
  exact Nat.le_antisymm (List.drop_eq_nil_iff.mp none.symm) enough

theorem tuple_array_of_each (clear : ItemReader.ownTags config field tags = .ok own)
    (major : (Body.array framing items).header.major = .array)
    (each : ∀ pair ∈ types.zip items, ∃ value, (pair.1.ofItem config).on none pair.2 = .ok value) :
    let told := (Target.tuple expected types).ofItem config field tags (.array framing items)
    (items.length < types.length → told = .error (.length items.length expected)) ∧
    (types.length < items.length → framing.Refuses (items.length - types.length) told) := by
  have opens : Decoder.opened config .list (Body.array framing items).header own =
      .ok ⟨.list, (Body.array framing items).header.length, 0⟩ := if_pos major
  have told : (Target.tuple expected types).ofItem config field tags (.array framing items) =
      (ItemReader.fill expected 0 (itemSlots config types) items >>= fun p =>
        framing.ended p.2 >>= fun _ => .ok p.1) >>= (.ok ∘ .tuple) := by
    rw [← ItemReader.arrayed_of_read opens]
    simp only [ofItem, ItemReader.andThen, ItemReader.tuple, ItemReader.sequence, ItemReader.behindTags, clear, ok_bind]
  have filling := @ItemReader.fillWith_of_each expected _ _ (fun slot item => slot.read.on none item) 0
    (itemSlots config types) items (by
      rw [itemSlots_eq_map, List.zip_map_left]
      intro pair member
      obtain ⟨inner, inside, rfl⟩ := List.mem_map.mp member
      exact each inner inside)
  rw [← ItemReader.fill_eq_fillWith, itemSlots_eq_map, List.length_map, ← itemSlots_eq_map, Nat.zero_add] at filling
  constructor
  · intro short
    rw [if_pos short] at filling
    rw [told, filling]
    rfl
  · intro long
    rw [if_neg (Nat.not_lt.mpr (Nat.le_of_lt long))] at filling
    obtain ⟨values, filling⟩ := filling
    obtain ⟨e, ended, refuses⟩ := framing.refuses_ended long Value
    rw [told, filling, ok_bind, ended]
    exact refuses

theorem tuple_octets {body : Body Item} {content : Bytes} (octets : body.octets? = some content) :
    (Target.tuple expected types).ofItem config field tags body = (do
      discard (ItemReader.ownTags config field tags)
      .tuple <$> Decoder.tupleOfBytes expected (itemSlots config types) content) := by
  have told : (Target.tuple expected types).ofItem config field tags body =
      (ItemReader.ownTags config field tags >>= fun own =>
        ItemReader.tuple config expected (itemSlots config types) none own body) >>= (.ok ∘ .tuple) := by
    simp only [ofItem, ItemReader.andThen, ItemReader.tuple, ItemReader.sequence, ItemReader.behindTags,
      ItemReader.ownTags, ok_bind]
  rw [told]
  cases ItemReader.ownTags config field tags with
  | error e => rfl
  | ok own =>
    have inside : ItemReader.tuple config expected (itemSlots config types) none own body =
        Decoder.tupleOfBytes expected (itemSlots config types) content := by
      cases body <;> cases octets <;> rfl
    rw [ok_bind, inside]
    cases Decoder.tupleOfBytes expected (itemSlots config types) content <;> rfl

variable {name : String} {fields : List (Field Ty)}

theorem told_record (config : Config) (name expected : String) (fields : List (Field Ty)) (field : Option Element)
    (tags : List UInt64) (body : Body Item) :
    (Target.record name expected fields).ofItem config field tags body = (do
      let own ← ItemReader.ownTags config field tags
      .record name <$> ItemReader.recordFields config (config.recordShape name fields)
        (withElements expected fields.length) (itemFields config fields) own body) := by
  have names : (itemFields config fields).map (·.name) = fields.map Field.name := by
    rw [itemFields_eq_map, List.map_map]
    rfl
  have count : (itemFields config fields).length = fields.length := by rw [itemFields_eq_map, List.length_map]
  simp only [ofItem, ItemReader.record, ItemReader.behindTags, names, count]
  rfl

theorem record_array_eq_ok (framed : (config.recordShape name fields).isArrayFramed = true) {value : Value}
    (found : (Target.record name expected fields).ofItem config field tags (.array framing items) = .ok value) :
    items.length ≤ fields.length ∧ ∀ missing ∈ fields.drop items.length, missing.fallback.isSome = true := by
  rw [told_record] at found
  obtain ⟨own, -, found⟩ := bind_eq_ok.mp found
  obtain ⟨values, found, -⟩ := map_eq_ok.mp found
  rw [ItemReader.recordFields, if_pos framed] at found
  obtain ⟨none, each⟩ := ItemReader.left_of_takeFields (ItemReader.arrayed_eq_ok found)
  rw [itemFields_eq_map] at none each
  rw [List.length_map] at none
  refine ⟨List.drop_eq_nil_iff.mp none.symm, fun missing member => ?_⟩
  rw [← List.map_drop] at each
  exact each _ (List.mem_map_of_mem member)

theorem record_array_of_each (framed : (config.recordShape name fields).isArrayFramed = true)
    (clear : ItemReader.ownTags config field tags = .ok own) {s : OpenStructure}
    (opens : Decoder.opened config (config.recordShape name fields) (Body.array framing items).header own = .ok s)
    (each : ∀ (i : Nat) field item, fields[i]? = some field → items[i]? = some item →
      ∃ value, (field.type.ofItem config).on (some ((config.recordShape name fields).element i)) item = .ok value) :
    let told := (Target.record name expected fields).ofItem config field tags (.array framing items)
    let missing := fields.drop items.length
    (fields.length < items.length → framing.Refuses (items.length - fields.length) told) ∧
    (items.length ≤ fields.length → if ∀ field ∈ missing, field.fallback.isSome = true then ∃ value, told = .ok value
      else told = .error (.length (items.length + missing.findIdx fun field => field.fallback.isNone)
        (withElements expected fields.length))) := by
  have told : (Target.record name expected fields).ofItem config field tags (.array framing items) =
      .record name <$> (ItemReader.takeFields (config.recordShape name fields) (withElements expected fields.length) 0
        (itemFields config fields) items >>= fun p => framing.ended p.2 >>= fun _ => .ok p.1) := by
    rw [told_record, clear, ok_bind, ItemReader.recordFields, if_pos framed, ItemReader.arrayed_of_read opens]
  have taking := @ItemReader.takeFields_of_each (config.recordShape name fields) (withElements expected fields.length)
    0 (itemFields config fields) items (by
      intro i reader item known known'
      rw [itemFields_eq_map, List.getElem?_map] at known
      obtain ⟨field, present, rfl⟩ := Option.map_eq_some_iff.mp known
      rw [Nat.zero_add]
      exact each i field item present known')
  have fallbacks : (∀ reader ∈ (itemFields config fields).drop items.length, reader.fallback.isSome = true) ↔
      ∀ field ∈ fields.drop items.length, field.fallback.isSome = true := by
    rw [itemFields_eq_map, ← List.map_drop, List.forall_mem_map]
  have first : ((itemFields config fields).drop items.length).findIdx (fun reader => reader.fallback.isNone) =
      (fields.drop items.length).findIdx fun field => field.fallback.isNone := by
    rw [itemFields_eq_map, ← List.map_drop, List.findIdx_map]
    rfl
  have count : (itemFields config fields).length = fields.length := by rw [itemFields_eq_map, List.length_map]
  simp only [fallbacks, first, count, Nat.zero_add] at taking
  constructor
  · intro long
    have none : fields.drop items.length = [] := List.drop_eq_nil_iff.mpr (Nat.le_of_lt long)
    rw [if_pos (by rw [none]; exact List.forall_mem_nil _)] at taking
    obtain ⟨values, taking⟩ := taking
    obtain ⟨e, ended, refuses⟩ := framing.refuses_ended long Value
    rw [told, taking, ok_bind, ended]
    exact refuses
  · intro enough
    split
    · rename_i all
      rw [if_pos all] at taking
      obtain ⟨values, taking⟩ := taking
      rw [told, taking, List.drop_eq_nil_iff.mpr enough, ok_bind, Framing.ended_eq_ok.mpr rfl]
      exact ⟨_, rfl⟩
    · rename_i some
      rw [if_neg some] at taking
      rw [told, taking]
      rfl

end Target

theorem find?_itemVariants (config : Config) (parent text : String) (variants : List (Variant Ty)) :
    (itemVariants config parent variants).find? (·.name == text) =
      (variants.find? (·.name == text)).map fun variant =>
        ⟨variant.name, itemContent config parent variant.name variant.content⟩ := by
  have all : itemVariants config parent variants =
      variants.map fun variant => ⟨variant.name, itemContent config parent variant.name variant.content⟩ := by
    induction variants with
    | nil => rfl
    | cons variant variants ih => rw [itemVariants, ih, List.map_cons]
  rw [all, List.find?_map]
  rfl

theorem Ty.enumeration_array_eq_ok {parent : String} {variants : List (Variant Ty)} {tags : List UInt64}
    {framing : Framing} {items : List Item} {value : Value}
    (found : (Ty.enumeration parent variants).ofItem config field tags (.array framing items) = .ok value) :
    ∃ first more payload content, items = first :: more ∧ (ItemReader.text config).on none first = .ok payload ∧
      variants.find? (·.name == payload.text) = some ⟨payload.text, content⟩ ∧
      (content = .unit → value = .unitVariant payload.text ∧ more.length ≤ 1) ∧
      (content ≠ .unit → (∃ held, value = .variant payload.text held) ∧ more.length = 1) := by
  obtain ⟨own, -, found⟩ := bind_eq_ok.mp found
  obtain ⟨first, more, payload, content, rfl, named, known, rest⟩ :=
    ItemReader.variantPair_eq_ok (ItemReader.arrayed_eq_ok found)
  rw [Decoder.contentOf, find?_itemVariants] at known
  cases present : variants.find? (·.name == payload.text) with
  | none =>
    rw [present] at known
    cases known
  | some variant =>
    rcases variant with ⟨name, carried⟩
    have same : name = payload.text := by simpa using List.find?_some present
    subst same
    rw [present] at known
    cases known
    refine ⟨first, more, payload, carried, rfl, named, present, ?_⟩
    cases carried with
    | unit => exact ⟨fun _ => rest, fun other => absurd rfl other⟩
    | newtype | tuple | record =>
      obtain ⟨second, held, rfl, -, rfl⟩ := rest
      refine ⟨fun none => ?_, fun _ => ⟨⟨held, rfl⟩, rfl⟩⟩
      cases none

end

theorem Config.Visits.refused {config : Config} {type : Ty} {input : Bytes} {target : Target} {inner : Decoder}
    {e : Error} (visits : config.Visits type input target inner)
    (failed : outcome (target.read config) inner = .error e) : config.decode type input = .error e := by
  obtain ⟨front, resume, rfl, law⟩ := visits.decode_eq
  rw [law _ (.refl _)]
  change outcome (target.read config) inner >>= resume = _
  rw [failed]
  rfl

-- A document, or one that is embedded in it at any depth, with the type it is decoded as.
inductive Config.Holds (config : Config) : Ty → Bytes → Ty → Bytes → Prop where
  | here {type : Ty} {input : Bytes} : Holds config type input type input
  | embedded {type part held : Ty} {input rest content : Bytes} {tags : List Head} {chunk : Chunk} {inner : Decoder}
      {own : List UInt64} (visits : config.Visits type input (.value (.embedded part)) inner)
      (embeds : Embeds tags chunk inner.rest rest)
      (clear : ItemReader.ownTags config inner.field (inner.pendingTags ++ tags.map Head.number) = .ok own)
      (more : Holds config part chunk.content held content) : Holds config type input held content

theorem Config.Holds.refused {config : Config} {type held : Ty} {input content : Bytes} {e : Error}
    (holds : config.Holds type input held content) (failed : config.decode held content = .error e) :
    config.decode type input = .error e := by
  induction holds with
  | here => exact failed
  | @embedded _ part _ _ _ _ _ chunk _ _ visits embeds clear _ ih =>
    have inside : Decoder.whole (part.read config) chunk.content = .error e := ih failed
    refine visits.refused ?_
    rw [Target.read, Ty.read, Decoder.outcome_readEmbedded embeds, clear, ok_bind, inside]
    rfl

-- Wherever one is read, a tuple of any kind is filled from as many elements as it has places, a record that is framed
-- as an array from no more than it has fields, with something to stand in for the missing ones, and a variant from its
-- name and its content.
structure Config.KeepsArity (config : Config) : Prop where
  tuple_of_array : ∀ (expected : String) (types : List Ty) (tags : List Head) (framing : Framing) (items : List Item)
      (field : Option Element) (pending : List UInt64) (rest : Bytes), (Item.mk tags (.array framing items)).Readable →
    let ran := outcome ((Target.tuple expected types).read config)
      ⟨(Item.mk tags (.array framing items)).bytes ++ rest, field, pending⟩
    (∀ p, ran = .ok p → items.length = types.length) ∧
    ∀ own, ItemReader.ownTags config field (pending ++ tags.map Head.number) = .ok own →
      (∀ pair ∈ types.zip items, pair.1.Accepts config none pair.2) →
      (items.length < types.length → ran = .error (.length items.length expected)) ∧
      (types.length < items.length → framing.Refuses (items.length - types.length) ran)
  tuple_of_bytes : ∀ (expected : String) (types : List Ty) (item : Item) (content : Bytes) (field : Option Element)
      (pending : List UInt64) (rest : Bytes), item.Readable → item.body.octets? = some content →
    let ran := outcome ((Target.tuple expected types).read config) ⟨item.bytes ++ rest, field, pending⟩
    (∀ p, ran = .ok p → content.length = types.length) ∧
    ∀ own, ItemReader.ownTags config field (pending ++ item.tagNumbers) = .ok own →
      (∀ pair ∈ types.zip content, ∃ value, pair.1.ofByte pair.2 = .ok value) →
      (content.length < types.length → ran = .error (.length content.length expected)) ∧
      (types.length < content.length →
        ran = .error (.length content.length (counted types.length "element" ++ " in sequence")))
  record_of_array : ∀ (name expected : String) (fields : List (Field Ty)) (tags : List Head) (framing : Framing)
      (items : List Item) (field : Option Element) (pending : List UInt64) (rest : Bytes),
      (config.recordShape name fields).isArrayFramed = true → (Item.mk tags (.array framing items)).Readable →
    let ran := outcome ((Target.record name expected fields).read config)
      ⟨(Item.mk tags (.array framing items)).bytes ++ rest, field, pending⟩
    let missing := fields.drop items.length
    (∀ p, ran = .ok p → items.length ≤ fields.length ∧ ∀ field ∈ missing, field.fallback.isSome = true) ∧
    ∀ own s, ItemReader.ownTags config field (pending ++ tags.map Head.number) = .ok own →
      Decoder.opened config (config.recordShape name fields) (Body.array framing items).header own = .ok s →
      (∀ (i : Nat) field item, fields[i]? = some field → items[i]? = some item →
        field.type.Accepts config (some ((config.recordShape name fields).element i)) item) →
      (fields.length < items.length → framing.Refuses (items.length - fields.length) ran) ∧
      (items.length ≤ fields.length →
        if ∀ field ∈ missing, field.fallback.isSome = true then ∃ value, ran = .ok (value, ⟨rest, none, []⟩)
        else ran = .error (.length (items.length + missing.findIdx fun field => field.fallback.isNone)
          (withElements expected fields.length)))
  variant_of_array : ∀ (parent : String) (variants : List (Variant Ty)) (tags : List Head) (framing : Framing)
      (items : List Item) (field : Option Element) (pending : List UInt64) (rest : Bytes) (value : Value)
      (after : Decoder), (Item.mk tags (.array framing items)).Readable →
    outcome ((Ty.enumeration parent variants).read config)
      ⟨(Item.mk tags (.array framing items)).bytes ++ rest, field, pending⟩ = .ok (value, after) →
    ∃ first more name content, items = first :: more ∧ config.decode .text first.bytes = .ok (.text name) ∧
      variants.find? (·.name == name) = some ⟨name, content⟩ ∧
      (content = .unit → value = .unitVariant name ∧ more.length ≤ 1) ∧
      (content ≠ .unit → (∃ held, value = .variant name held) ∧ more.length = 1)
  refused : ∀ (type held : Ty) (input content : Bytes) (target : Target) (inner : Decoder) (e : Error),
    config.Holds type input held content → config.Visits held content target inner →
      outcome (target.read config) inner = .error e → config.decode type input = .error e

theorem Config.Regular.keepsArity {config : Config} (regular : config.Regular) : config.KeepsArity := by
  refine ⟨?tuple_of_array, ?tuple_of_bytes, ?record_of_array, ?variant_of_array,
    fun _ _ _ _ _ _ _ holds visits failed => holds.refused (visits.refused failed)⟩
  case tuple_of_array =>
    intro expected types tags framing items field pending rest readable ran
    have known : (Body.array framing items).header.major = .array := Body.header_major readable.formed.head
    have come : ran = _ := outcome_target regular (.tuple expected types) readable
    refine ⟨fun p found => ?_, fun own clear each => ?_⟩
    · obtain ⟨value, told, -⟩ := map_eq_ok.mp (come.symm.trans found)
      exact Target.length_of_tuple_array told
    · have told := @Target.tuple_array_of_each config field own types expected framing items _ clear known
        fun pair member => (each pair member).told regular (readable.child (List.of_mem_zip member).2)
      rw [come]
      exact ⟨fun short => congrArg _ (told.1 short), fun long => (told.2 long).map _⟩
  case tuple_of_bytes =>
    intro expected types item content field pending rest readable octets ran
    have come : ran = _ := outcome_target regular (.tuple expected types) readable
    have slots : (itemSlots config types).length = types.length := by rw [itemSlots_eq_map, List.length_map]
    rw [Target.tuple_octets octets] at come
    refine ⟨fun p found => ?_, fun own clear each => ?_⟩
    · obtain ⟨value, told, -⟩ := map_eq_ok.mp (come.symm.trans found)
      obtain ⟨⟨⟩, -, told⟩ := bind_eq_ok.mp told
      obtain ⟨values, told, -⟩ := map_eq_ok.mp told
      rw [← slots]
      exact length_of_tupleOfBytes told
    · have told := @tupleOfBytes_of_each _ expected (itemSlots config types) content (by
        rw [itemSlots_eq_map, List.zip_map_left]
        intro pair member
        obtain ⟨inner, inside, rfl⟩ := List.mem_map.mp member
        exact each inner inside)
      rw [slots] at told
      rw [come, clear]
      exact ⟨fun short => by rw [told.1 short]; rfl, fun long => by rw [told.2 long]; rfl⟩
  case record_of_array =>
    intro name expected fields tags framing items field pending rest framed readable ran missing
    have come : ran = _ := outcome_target regular (.record name expected fields) readable
    refine ⟨fun p found => ?_, fun own s clear opens each => ?_⟩
    · obtain ⟨value, told, -⟩ := map_eq_ok.mp (come.symm.trans found)
      exact Target.record_array_eq_ok framed told
    · have told := @Target.record_array_of_each config field own expected framing items _ name fields framed clear s
        opens fun i field item known known' =>
          (each i field item known known').told regular (readable.child (List.mem_of_getElem? known'))
      rw [come]
      refine ⟨fun long => (told.1 long).map _, fun enough => ?_⟩
      have taken := told.2 enough
      split
      · rename_i all
        rw [if_pos all] at taken
        obtain ⟨value, taken⟩ := taken
        exact ⟨value, congrArg _ taken⟩
      · rename_i some
        rw [if_neg some] at taken
        exact congrArg _ taken
  case variant_of_array =>
    intro parent variants tags framing items field pending rest value after readable found
    have come := @outcome_target config field pending _ rest regular (.value (.enumeration parent variants)) readable
    obtain ⟨value, told, same⟩ := map_eq_ok.mp (come.symm.trans found)
    cases same
    obtain ⟨first, more, payload, content, rfl, named, known, forms⟩ := Ty.enumeration_array_eq_ok told
    refine ⟨first, more, payload.text, content, rfl, ?_, known, forms⟩
    rw [decode_bytes regular .text (readable.child (List.mem_cons_self ..))]
    change (ItemReader.text config).on none first >>= _ = _
    rw [named]
    rfl

theorem Config.registered_of_framed {config : Config} {name : String} {fields : List String}
    (framed : (config.shape name .keyed fields).isArrayFramed = true) :
    ∃ descriptor ∈ config.descriptors, ∀ fields, config.shape name .keyed fields = .described descriptor := by
  unfold Config.shape at framed ⊢
  cases found : config.descriptors.find? (·.name == name) with
  | none =>
    rw [found] at framed
    cases framed
  | some descriptor => exact ⟨descriptor, List.mem_of_find?_eq_some found, fun _ => rfl⟩

-- A data map that is framed as an array stops behind its key. Where it does, the value is there for the next place of
-- a tuple, which so has one element too few.
theorem Config.keepsArity_iff {config : Config}
    (held : ∀ descriptor ∈ config.descriptors, ∀ tags ∈ descriptor.arrayTags, tags.length < 2 ^ 60) :
    config.KeepsArity ↔ config.Regular := by
  refine ⟨fun keeps name fields framed data => ?_, Regular.keepsArity⟩
  obtain ⟨descriptor, present, shaped⟩ := registered_of_framed framed
  rw [shaped] at framed data
  obtain ⟨tags, arrayTags⟩ := Option.isSome_iff_exists.mp framed
  have readable : (Item.halfPair tags (.counted .immediate)).Readable := by
    refine Item.readable_halfPair (held descriptor present tags arrayTags) fun head member => ?_
    cases Option.mem_some.mp member
    exact (by decide : 1 < 24)
  have accepted := @decode_halfPair_counted config name tags (by rw [shaped]; exact arrayTags)
    (by rw [shaped]; exact data) readable
  have visits : config.Visits (.halfPair name) (Item.halfPair tags (.counted .immediate)).bytes (.tuple _ _) _ :=
    .further .here (@Enters.tuple config [.record name [⟨"key", .ignored, none⟩], .int .u8] _)
  obtain ⟨value, after, read⟩ := visits.accepted accepted
  rw [← List.append_nil (Item.halfPair tags (.counted .immediate)).bytes] at read
  have count : 1 = 2 := (keeps.tuple_of_array _ _ _ _ _ none [] [] readable).1 _ read
  exact absurd count (by decide)

theorem Config.decode_pair_as_two :
    (Item.mk [] (.array .delimited [⟨[], .map (.counted .immediate) [(.small 1, .small 5)]⟩])).bytes =
      [0x9f, 0xa1, 0x01, 0x05, 0xff] ∧
    pairsAsArrays.decode (.tuple [.record "Pair" [⟨"key", .int .u8, none⟩], .int .u8]) [0x9f, 0xa1, 0x01, 0x05, 0xff] =
      .ok (.tuple [.record "Pair" [("key", .int .u8 1)], .int .u8 5]) := by
  constructor <;> rfl

theorem Config.decode_crowded_pairs :
    (∃ found, (Config.standard .fixed).decode (.seq (.tuple [.int .u8, .int .u8]))
      [0x81, 0x9f, 0x01, 0x02, 0x03, 0xff] = .error (.unexpectedMajor "break" found)) ∧
    (Config.standard .fixed).decode (.tuple [.int .u8, .int .u8]) [0x43, 0x01, 0x02, 0x03] =
      .error (.length 3 "2 elements in sequence") := by
  have regular : (Config.standard .fixed).Regular := regular_of_kind (by simp [Config.standard])
  have keeps : (Config.standard .fixed).KeepsArity := (keepsArity_iff (by simp [Config.standard])).mpr regular
  constructor
  · have visits : (Config.standard .fixed).Visits (.seq (.tuple [.int .u8, .int .u8]))
        [0x81, 0x9f, 0x01, 0x02, 0x03, 0xff] (.tuple _ _) ⟨[0x9f, 0x01, 0x02, 0x03, 0xff], none, []⟩ :=
      .further (.further .here (.element rfl rfl .done rfl rfl)) (@Enters.tuple _ [.int .u8, .int .u8] _)
    have readable : (Item.mk [] (.array .delimited [.small 1, .small 2, .small 3])).Readable := by
      refine ⟨.intro (Item.formed_of_ordinary (by decide) (by simp) (by simp [Body.head?, Framing.head?])
        (by simp [Body.chunks])) ?_, by decide⟩
      simp only [Item.body_mk, Body.children, List.forall_mem_cons]
      exact ⟨Item.wellFormed_small (by decide), Item.wellFormed_small (by decide),
        Item.wellFormed_small (by decide), List.forall_mem_nil _⟩
    have accepts (n : Nat) (few : n = 1 ∨ n = 2) : (Ty.int .u8).Accepts (Config.standard .fixed) none (.small n) := by
      rcases few with rfl | rfl
      · exact ⟨.int .u8 1, rfl⟩
      · exact ⟨.int .u8 2, rfl⟩
    obtain ⟨-, refuses⟩ := (keeps.tuple_of_array _ [.int .u8, .int .u8] _ _ _ none [] [] readable).2 [] rfl
      (by simp [accepts])
    obtain ⟨found, failed⟩ := refuses (by decide)
    exact ⟨found, keeps.refused _ _ _ _ _ _ _ .here visits failed⟩
  · have visits : (Config.standard .fixed).Visits (.tuple [.int .u8, .int .u8]) [0x43, 0x01, 0x02, 0x03]
        (.tuple _ _) _ := .further .here (@Enters.tuple _ [.int .u8, .int .u8] _)
    have readable : (Item.mk [] (.bytes (.whole ⟨.immediate, [1, 2, 3]⟩))).Readable :=
      ⟨(Item.formed_of_ordinary (by decide) (by simp) (by decide) (by decide)).wellFormed rfl, by decide⟩
    have accepts : ∀ pair ∈ [Ty.int .u8, .int .u8].zip ([1, 2, 3] : Bytes),
        ∃ value, pair.1.ofByte pair.2 = .ok value := by
      simp only [List.zip_cons_cons, List.forall_mem_cons]
      exact ⟨⟨_, if_pos (by decide)⟩, ⟨_, if_pos (by decide)⟩, List.forall_mem_nil _⟩
    obtain ⟨-, refuses⟩ := (keeps.tuple_of_bytes _ _ _ [1, 2, 3] none [] [] readable rfl).2 [] rfl accepts
    exact keeps.refused _ _ _ _ _ _ _ .here visits (refuses (by decide))

end TypedCbor
