import TypedCbor.Proofs.Item.Scalar
import TypedCbor.Proofs.ItemReader.Blind
import TypedCbor.Proofs.Typing

namespace TypedCbor

namespace ItemReader

open Decoder

section
variable {α β : Type} {config : Config} {item : Item} {P : α → Prop} {Q : β → Prop}

-- Wherever the item stands, the reader takes it and makes of it what is said. Its own tags may have
-- others in front of them.
def Yields (config : Config) (read : ItemReader α) (item : Item) (P : α → Prop) : Prop :=
  ∀ field tags own, OrdinaryField field → ownTags config field tags = .ok own →
    item.tagNumbers <:+ own → ∃ a, read field tags item.body = .ok a ∧ P a

theorem yields_behindTags {read : List UInt64 → Body Item → Except Error α}
    (inside : ∀ own, item.tagNumbers <:+ own → ∃ a, read own item.body = .ok a ∧ P a) :
    Yields config (behindTags config read) item P := by
  intro field tags own _ taken behind
  obtain ⟨a, found, holds⟩ := inside own behind
  refine ⟨a, ?_, holds⟩
  rw [behindTags, taken, ok_bind, found]

theorem yields_ofHeader {read : Header → Except Error α} {a : α} (found : read item.body.header = .ok a) :
    Yields config (ofHeader config read) item (· = a) :=
  yields_behindTags fun _ _ => ⟨a, found, rfl⟩

theorem Yields.andThen {read : ItemReader α} {next : α → Except Error β}
    (yields : Yields config read item P) (goes : ∀ a, P a → ∃ b, next a = .ok b ∧ Q b) :
    Yields config (read.andThen next) item Q := by
  intro field tags own plain taken behind
  obtain ⟨a, found, holds⟩ := yields field tags own plain taken behind
  obtain ⟨b, done, kept⟩ := goes a holds
  refine ⟨b, ?_, kept⟩
  rw [ItemReader.andThen, found, ok_bind, done]

theorem Yields.map {read : ItemReader α} {f : α → β} (yields : Yields config read item P)
    (implied : ∀ a, P a → Q (f a)) : Yields config (read.andThen (.ok ∘ f)) item Q :=
  yields.andThen fun a holds => ⟨f a, rfl, implied a holds⟩

theorem Yields.on {read : ItemReader α} (yields : Yields config read item P) :
    ∃ a, read.on none item = .ok a ∧ P a :=
  yields none item.tagNumbers item.tagNumbers ordinary_none rfl (List.suffix_refl _)

theorem opened_ok {shape : Shape} {header : Header} {own : List UInt64}
    (major : header.major = shape.header.1)
    (behind : ∀ tags, shape.arrayTags = some tags → config.verifyValueTags = true → tags <:+ own) :
    opened config shape header own = .ok ⟨shape, header.length, 0⟩ := by
  unfold opened
  cases framed : shape.arrayTags with
  | none =>
    dsimp only
    rw [if_pos major]
  | some tags =>
    have right : (config.verifyValueTags && !tags.isSuffixOf own) = false := by
      cases verify : config.verifyValueTags with
      | false => rfl
      | true => rw [List.isSuffixOf_iff_suffix.mpr (behind tags framed verify)]; rfl
    dsimp only
    rw [right, if_neg Bool.false_ne_true, if_pos major]

theorem arrayed_ok {shape : Shape} {framing : Framing} {items : List Item} {own : List UInt64}
    {read : List Item → Except Error (α × List Item)} {a : α}
    (known : (Body.array framing items).header.major = .array) (array : shape.header.1 = .array)
    (behind : ∀ tags, shape.arrayTags = some tags → config.verifyValueTags = true → tags <:+ own)
    (found : read items = .ok (a, [])) :
    arrayed config shape read own (.array framing items) = .ok a := by
  rw [arrayed, opened_ok (known.trans array.symm) behind]
  change (read items >>= _) = _
  rw [found]
  rfl

theorem mapped_eq {shape : Shape} {framing : Framing} {entries : List (Item × Item)}
    (known : (Body.map framing entries).header.major = .map) (map : shape.header.1 = .map)
    (plain : shape.arrayTags = none) (read : List (Item × Item) → Except Error α) (own : List UInt64) :
    mapped config shape read own (.map framing entries) = read entries := by
  have opens := @opened_ok config shape _ own (known.trans map.symm)
    (fun tags framed => by rw [plain] at framed; cases framed)
  rw [mapped, opens]
  rfl

end

section
variable {target : Config}

theorem yields_text (content : String) :
    Yields target (text target) (.ofText content) (· = ⟨content, true⟩) := by
  refine yields_behindTags fun own _ => ⟨_, ?_, rfl⟩
  simp only [Item.ofText, Item.body_mk, StringForm.content_whole, Payload.text, Bytes.toText?_ofText]
  rfl

theorem yields_bytes (content : Bytes) :
    Yields target (bytes target) (.ofBytes content) (· = ⟨content, true⟩) := by
  refine yields_behindTags fun own _ => ⟨_, rfl, ?_⟩
  rw [StringForm.content_whole]
  rfl

end

end ItemReader

open ItemReader

variable {source target : Config}

-- However the value is marked, reading its item gives it back.
def Value.Returns (source target : Config) (read : ItemReader Value) (value : Value) : Prop :=
  ∀ markers item, markers.object = false → value.item source markers = .ok item → item.Readable →
    Yields target read item fun decoded => decoded.canonical = value.canonical

namespace Value

theorem bool_returns (value : Bool) : (Value.bool value).Returns source target (Ty.bool.ofItem target) := by
  intro markers item _ found _
  cases found
  exact (yields_ofHeader (Item.boolean_ofBool value)).map fun _ same => by rw [same]

theorem int_returns {kind : IntKind} {n : Int} (held : kind.holds n = true) :
    (Value.int kind n).Returns source target ((Ty.int kind).ofItem target) := by
  intro markers item _ found _
  refine (yields_ofHeader (Item.integer_ofInt held found)).andThen fun m same => ?_
  rw [same, if_pos held]
  exact ⟨_, rfl, rfl⟩

theorem single_returns (bits : UInt32) :
    (Value.single bits).Returns source target (Ty.single.ofItem target) := by
  intro markers item _ found _
  cases found
  obtain ⟨wide, read, same⟩ := Item.float_ofSingle source.floatForm bits
  refine (yields_ofHeader read).map fun _ same' => ?_
  rw [same', Function.comp, canonical, canonical]
  rcases same with same | ⟨nan, nan'⟩
  · rw [same]
  · rw [if_pos nan, if_pos nan']

theorem double_returns (bits : UInt64) :
    (Value.double bits).Returns source target (Ty.double.ofItem target) := by
  intro markers item _ found _
  cases found
  obtain ⟨wide, read, same⟩ := Item.float_ofDouble source.floatForm bits
  refine (yields_ofHeader read).map fun _ same' => ?_
  rw [same', canonical, canonical]
  rcases same with same | ⟨nan, nan'⟩
  · rw [same]
  · rw [if_pos nan, if_pos nan']

theorem char_returns (c : Char) : (Value.char c).Returns source target (Ty.char.ofItem target) := by
  intro markers item _ found _
  cases found
  refine (yields_ofHeader (Item.integer_ofWord c.val.toUInt64)).andThen fun n same => ?_
  have number : n = c.toNat := by
    rw [same, UInt32.toNat_toUInt64]
    rfl
  have bound : ¬(n < 0 ∨ IntKind.u32.high ≤ n) := by
    have small := c.val.toNat_lt
    have high : IntKind.u32.high = 2 ^ 32 := rfl
    have above : c.toNat = c.val.toNat := rfl
    omega
  have code : n.toNat = c.toNat := by rw [number, Int.toNat_natCast]
  refine ⟨.char c, ?_, rfl⟩
  have valid : c.toNat.isValidChar := c.valid
  rw [if_neg bound, code, if_pos valid, Char.ofNat_toNat]

theorem text_returns (content : String) :
    (Value.text content).Returns source target (Ty.text.ofItem target) := by
  intro markers item _ found _
  cases found
  exact (yields_text content).map fun _ same => by rw [same]; rfl

theorem textSlice_returns (content : String) :
    (Value.text content).Returns source target (Ty.textSlice.ofItem target) := by
  intro markers item _ found _
  cases found
  exact (yields_text content).andThen fun _ same => by rw [same]; exact ⟨_, rfl, rfl⟩

theorem bytes_returns (content : Bytes) :
    (Value.bytes content).Returns source target (Ty.bytes.ofItem target) := by
  intro markers item _ found _
  cases found
  exact (yields_bytes content).map fun _ same => by rw [same]; rfl

theorem bytesSlice_returns (content : Bytes) :
    (Value.bytes content).Returns source target (Ty.bytesSlice.ofItem target) := by
  intro markers item _ found _
  cases found
  exact (yields_bytes content).andThen fun _ same => by rw [same]; exact ⟨_, rfl, rfl⟩

theorem unit_returns : Value.unit.Returns source target (ItemReader.unit target) := by
  intro markers item plain found _
  rw [Value.item, plain] at found
  cases found
  have taken : Yields target (ItemReader.unit target) Item.null (· = Value.unit) := yields_ofHeader rfl
  intro field tags own plain' behind inside
  obtain ⟨_, read, rfl⟩ := taken field tags own plain' behind inside
  exact ⟨_, read, rfl⟩

end Value

namespace Body

variable {body : Body Item} {field : Option Element}

def NullLike (body : Body Item) : Prop :=
  body.major = .simple ∧ (body.head? = some ⟨.immediate, 22⟩ ∨ body.head? = some ⟨.immediate, 23⟩)

theorem nullLike_of_isNull (fits : ∀ head ∈ body.head?, head.Fits) (plain : OrdinaryField field)
    (null : body.isNull field) : body.NullLike := by
  have major := header_major fits
  rcases null with null | undefined | ⟨-, object⟩
  · have info : body.header.info = 22 := by rw [Header.info, null]; rfl
    refine ⟨?_, .inl ?_⟩
    · rw [← major, Header.major, null]
      rfl
    · rw [head_of_small fits (by omega), info]
  · have info : body.header.info = 23 := by rw [Header.info, undefined]; rfl
    refine ⟨?_, .inr ?_⟩
    · rw [← major, Header.major, undefined]
      rfl
    · rw [head_of_small fits (by omega), info]
  · exact absurd object (by rw [plain]; decide)

end Body

namespace Item

theorem not_nullLike_of_major {item : Item} (other : item.body.major ≠ .simple) : ¬item.body.NullLike :=
  fun null => other null.1

theorem not_nullLike_of_width {width : Width} {n : Nat} (wide : width ≠ .immediate) :
    ¬(simple width n).body.NullLike := by
  rintro ⟨-, null | undefined⟩
  · cases null
    exact wide rfl
  · cases undefined
    exact wide rfl

theorem not_nullLike_ofInt {kind : IntKind} {n : Int} {item : Item} (found : ofInt kind n = .ok item) :
    ¬item.body.NullLike := by
  apply not_nullLike_of_major
  cases kind with
  | i8 | i16 | i32 | i64 =>
    cases found
    unfold ofSigned
    split <;> exact Major.noConfusion
  | u8 | u16 | u32 | u64 =>
    cases found
    exact Major.noConfusion
  | i128 | u128 =>
    unfold ofInt ofWide at found
    dsimp only at found
    split at found <;> split at found <;> cases found <;> exact Major.noConfusion

theorem not_nullLike_compact (bits : UInt64) : ¬(compact bits).body.NullLike := by
  unfold compact
  split
  · exact not_nullLike_of_width (by decide)
  split
  · exact not_nullLike_of_width (by decide)
  split
  · exact not_nullLike_of_width (by decide)
  · exact not_nullLike_of_width (by decide)

theorem not_nullLike_ofSingle (form : Wire.FloatForm) (bits : UInt32) :
    ¬(ofSingle form bits).body.NullLike := by
  cases form with
  | fixed => exact not_nullLike_of_width (by decide)
  | shortest => exact not_nullLike_compact _

theorem not_nullLike_ofDouble (form : Wire.FloatForm) (bits : UInt64) :
    ¬(ofDouble form bits).body.NullLike := by
  cases form with
  | fixed => exact not_nullLike_of_width (by decide)
  | shortest => exact not_nullLike_compact _

theorem not_nullLike_collected {values : List Value} {collected : Bytes} {item : Item}
    (found : collectedItem source values collected = .ok item) : ¬item.body.NullLike := by
  apply not_nullLike_of_major
  induction values generalizing collected with
  | nil =>
    cases found
    exact Major.noConfusion
  | cons value values ih =>
    rw [collectedItem] at found
    split at found
    · exact ih found
    · obtain ⟨_, -, found⟩ := bind_eq_ok.mp found
      obtain ⟨_, -, same⟩ := bind_eq_ok.mp found
      cases same
      exact Major.noConfusion

theorem not_nullLike_record {shape : Shape} {fields : List (Element × Item)} :
    ¬(record source shape fields).body.NullLike := by
  apply not_nullLike_of_major
  unfold record
  split <;> exact Major.noConfusion

end Item

namespace Value

theorem isNull_of_item {value : Value} {markers : Markers} {item : Item} (plain : markers.object = false)
    (found : value.item source markers = .ok item) (null : item.body.NullLike) : value.isNull = true := by
  induction value using Value.induction generalizing markers item with
  | step value ih =>
    cases value with
    | unit | none => rfl
    | some value | newtype value => exact ih value (by simp [parts]) plain found null
    | visited how value => exact ih value (by simp [parts]) plain found null
    | bool value =>
      cases found
      rcases null with ⟨-, null | undefined⟩
      · cases value <;> cases null
      · cases value <;> cases undefined
    | int kind n => exact absurd null (Item.not_nullLike_ofInt found)
    | single bits =>
      cases found
      exact absurd null (Item.not_nullLike_ofSingle _ bits)
    | double bits =>
      cases found
      exact absurd null (Item.not_nullLike_ofDouble _ bits)
    | char | text | bytes | unitVariant =>
      cases found
      exact absurd null (Item.not_nullLike_of_major Major.noConfusion)
    | seq values =>
      rw [Value.item] at found
      split at found
      · exact absurd null (Item.not_nullLike_collected found)
      · obtain ⟨_, -, rfl⟩ := map_eq_ok.mp found
        exact absurd null (Item.not_nullLike_of_major Major.noConfusion)
    | tuple | map | variant | embedded =>
      obtain ⟨_, -, rfl⟩ := map_eq_ok.mp found
      exact absurd null (Item.not_nullLike_of_major Major.noConfusion)
    | record name fields =>
      obtain ⟨_, -, rfl⟩ := map_eq_ok.mp found
      exact absurd null Item.not_nullLike_record

theorem none_returns (type : Ty) :
    Value.none.Returns source target ((Ty.option type).ofItem target) := by
  intro markers item plain found _
  rw [Value.item, plain] at found
  cases found
  intro field tags own _ taken _
  have null : Item.null.body.isNull field := .inl rfl
  refine ⟨.none, ?_, rfl⟩
  change ItemReader.option target (type.ofItem target) field tags Item.null.body = _
  rw [ItemReader.option, if_pos null, taken]
  rfl

end Value

namespace Value.Returns

variable {type : Ty} {value : Value}

theorem some (returns : value.Returns source target (type.ofItem target)) (kept : value.isNull = false) :
    (Value.some value).Returns source target ((Ty.option type).ofItem target) := by
  intro markers item plain found readable field tags own ordinary taken behind
  obtain ⟨decoded, read, same⟩ := returns markers item plain found readable field tags own ordinary taken behind
  have present : ¬item.body.isNull field := by
    intro null
    have gone : value.isNull = true := Value.isNull_of_item plain found
      (Body.nullLike_of_isNull readable.formed.head ordinary null)
    rw [kept] at gone
    cases gone
  refine ⟨.some decoded, ?_, ?_⟩
  · change ItemReader.option target (type.ofItem target) field tags item.body = _
    rw [ItemReader.option, if_neg present, read]
    rfl
  · exact congrArg Value.some same

theorem newtype (returns : value.Returns source target (type.ofItem target)) (name : String) :
    (Value.newtype value).Returns source target ((Ty.newtype name type).ofItem target) := by
  intro markers item plain found readable
  refine (returns markers item plain found readable).map fun decoded same => ?_
  rw [Value.canonical, Value.canonical, same]

theorem embedded (returns : value.Returns source target (type.ofItem target)) (regular : target.Regular)
    (serialized : Option Bytes) :
    (Value.embedded value serialized).Returns source target ((Ty.embedded type).ofItem target) := by
  intro markers item _ found readable
  obtain ⟨inner, made, rfl⟩ := map_eq_ok.mp found
  have innerReadable : inner.Readable := readable.child (by simp [Body.children])
  obtain ⟨decoded, read, same⟩ := (returns {} inner rfl made innerReadable).on
  have whole := Decoder.whole_bytes (Decoder.follows_read regular type inner innerReadable)
  refine yields_behindTags fun own _ => ⟨.embedded decoded (Option.some inner.bytes), ?_, ?_⟩
  · dsimp only [Item.body_mk]
    rw [whole, read]
    rfl
  · rw [Value.canonical, Value.canonical, same]

end Value.Returns
end TypedCbor
