import TypedCbor.Proofs.Item.Skip
import TypedCbor.Proofs.ItemReader

namespace TypedCbor

namespace Item

-- Well-formed, and of a length that a word can hold.
structure Readable (item : Item) : Prop where
  wellFormed : item.WellFormed
  small : item.bytes.length < 2 ^ 64

theorem WellFormed.formed {item : Item} (wellFormed : item.WellFormed) : item.Formed := by
  rcases wellFormed with ⟨formed, _⟩
  exact formed

theorem WellFormed.child {item child : Item} (wellFormed : item.WellFormed)
    (member : child ∈ item.body.children) : child.WellFormed := by
  rcases wellFormed with ⟨_, inside⟩
  exact inside child member

theorem Readable.formed {item : Item} (readable : item.Readable) : item.Formed :=
  readable.wellFormed.formed

theorem Readable.child {item child : Item} (readable : item.Readable)
    (member : child ∈ item.body.children) : child.Readable :=
  ⟨readable.wellFormed.child member,
    Nat.lt_trans (length_lt_of_mem_children member) readable.small⟩

def bare (item : Item) : Item := ⟨[], item.body⟩

@[simp] theorem body_bare (item : Item) : item.bare.body = item.body := rfl

@[simp] theorem tagNumbers_bare (item : Item) : item.bare.tagNumbers = [] := rfl

@[simp] theorem bytes_bare (item : Item) : item.bare.bytes = bodyBytes item.body := by
  rw [Item.bytes_eq]
  rfl

theorem Formed.bare {item : Item} (formed : item.Formed) : item.bare.Formed :=
  ⟨by simp [Item.bare], formed.head, formed.chunks, formed.simple⟩

theorem Readable.bare {item : Item} (readable : item.Readable) : item.bare.Readable := by
  refine ⟨⟨readable.formed.bare, fun child member => readable.wellFormed.child member⟩, ?_⟩
  have small := readable.small
  rw [item.bytes_eq, List.length_append] at small
  rw [bytes_bare]
  omega

end Item

-- The reader leaves off behind the item with nothing armed, whatever was read ahead of it.
def FollowsAt (read : DecodeM α) (told : ItemReader α) (item : Item) : Prop :=
  ∀ field pending rest,
    outcome read ⟨item.bytes ++ rest, field, pending⟩ =
      (·, ⟨rest, none, []⟩) <$> told field (pending ++ item.tagNumbers) item.body

def Follows (read : DecodeM α) (told : ItemReader α) : Prop :=
  ∀ item : Item, item.Readable → FollowsAt read told item

namespace Decoder

variable {config : Config} {item : Item}

theorem outcome_readAhead (formed : item.Formed) (field : Option Element) (pending : List UInt64)
    (rest : Bytes) :
    outcome readAhead ⟨item.bytes ++ rest, field, pending⟩ =
      .ok ((), ⟨bodyBytes item.body ++ rest, field, pending ++ item.tagNumbers⟩) := by
  simp only [readAhead, outcome_bind, outcome_cursor, Cursor.outcome_readTags_item formed, ok_map,
    ok_bind, outcome_modify]

theorem outcome_takeTags (decoder : Decoder) :
    outcome (takeTags config) decoder =
      outcome Cursor.readTags decoder.rest >>= fun p =>
        (·, ⟨p.2, none, []⟩) <$>
          ItemReader.ownTags config decoder.field (decoder.pendingTags ++ p.1) := by
  simp only [takeTags, readAhead, outcome_bind, outcome_cursor, outcome_modify, outcome_get,
    outcome_set]
  cases outcome Cursor.readTags decoder.rest with
  | error e => rfl
  | ok p =>
    cases decoder.field with
    | none => simp [ItemReader.ownTags]
    | some element =>
      simp only [ok_map, ok_bind, ItemReader.ownTags, outcome_ite]
      split
      · cases element.valueTags.isPrefixOf? (decoder.pendingTags ++ p.1) <;> rfl
      · rfl

theorem outcome_takeTags_item (formed : item.Formed) (field : Option Element)
    (pending : List UInt64) (rest : Bytes) :
    outcome (takeTags config) ⟨item.bytes ++ rest, field, pending⟩ =
      (·, ⟨bodyBytes item.body ++ rest, none, []⟩) <$>
        ItemReader.ownTags config field (pending ++ item.tagNumbers) := by
  rw [outcome_takeTags, Cursor.outcome_readTags_item formed, ok_bind]

theorem outcome_readHeader (formed : item.Formed) (field : Option Element) (pending : List UInt64)
    (rest : Bytes) :
    outcome (readHeader config) ⟨item.bytes ++ rest, field, pending⟩ =
      (fun own => ((item.body.header, own), ⟨item.body.content ++ rest, none, []⟩)) <$>
        ItemReader.ownTags config field (pending ++ item.tagNumbers) := by
  simp only [readHeader, outcome_bind, outcome_takeTags_item formed]
  cases ItemReader.ownTags config field (pending ++ item.tagNumbers) with
  | error e => rfl
  | ok own => simp [Cursor.outcome_readHeader_body formed.head]

theorem outcome_readPlainHeader (formed : item.Formed) (field : Option Element)
    (pending : List UInt64) (rest : Bytes) :
    outcome (readPlainHeader config) ⟨item.bytes ++ rest, field, pending⟩ =
      (fun _ => (item.body.header, ⟨item.body.content ++ rest, none, []⟩)) <$>
        ItemReader.ownTags config field (pending ++ item.tagNumbers) := by
  simp only [readPlainHeader, outcome_bind, outcome_readHeader formed]
  cases ItemReader.ownTags config field (pending ++ item.tagNumbers) <;> rfl

end Decoder

section
variable {α β : Type} {config : Config} {read : DecodeM α} {told : ItemReader α} {item : Item}

theorem FollowsAt.andThen (follows : FollowsAt read told item) {next : α → DecodeM β}
    {told' : α → Except Error β}
    (same : ∀ a decoder, outcome (next a) decoder = (·, decoder) <$> told' a) :
    FollowsAt (read >>= next) (told.andThen told') item := by
  intro field pending rest
  rw [outcome_bind, follows]
  simp only [ItemReader.andThen]
  cases told field (pending ++ item.tagNumbers) item.body with
  | error e => rfl
  | ok a => exact same a _

theorem Follows.andThen (follows : Follows read told) {next : α → DecodeM β}
    {told' : α → Except Error β}
    (same : ∀ a decoder, outcome (next a) decoder = (·, decoder) <$> told' a) :
    Follows (read >>= next) (told.andThen told') :=
  fun item readable => (follows item readable).andThen same

theorem Follows.map (follows : Follows read told) (f : α → β) :
    Follows (f <$> read) (told.andThen (.ok ∘ f)) := by
  intro item readable field pending rest
  rw [outcome_map, follows item readable]
  simp only [ItemReader.andThen]
  cases told field (pending ++ item.tagNumbers) item.body <;> rfl

theorem FollowsAt.behindTags (formed : item.Formed) {next : Header × List UInt64 → DecodeM α}
    {told : List UInt64 → Body Item → Except Error α}
    (inside : ∀ own rest,
      outcome (next (item.body.header, own)) ⟨item.body.content ++ rest, none, []⟩ =
        (·, ⟨rest, none, []⟩) <$> told own item.body) :
    FollowsAt (Decoder.readHeader config >>= next) (ItemReader.behindTags config told) item := by
  intro field pending rest
  rw [outcome_bind, Decoder.outcome_readHeader formed]
  simp only [ItemReader.behindTags]
  cases ItemReader.ownTags config field (pending ++ item.tagNumbers) with
  | error e => rfl
  | ok own => exact inside own rest

theorem FollowsAt.behindPlain (formed : item.Formed) {next : Header → DecodeM α}
    {told : Body Item → Except Error α}
    (inside : ∀ rest,
      outcome (next item.body.header) ⟨item.body.content ++ rest, none, []⟩ =
        (·, ⟨rest, none, []⟩) <$> told item.body) :
    FollowsAt (Decoder.readPlainHeader config >>= next)
      (ItemReader.behindTags config fun _ => told) item := by
  intro field pending rest
  rw [outcome_bind, Decoder.outcome_readPlainHeader formed]
  simp only [ItemReader.behindTags]
  cases ItemReader.ownTags config field (pending ++ item.tagNumbers) with
  | error e => rfl
  | ok own => exact inside rest

theorem FollowsAt.ofHeader {f : Header → Except Error α}
    (alone : ∀ body : Body Item, (∀ head ∈ body.head?, head.Fits) →
      ∀ a, f body.header = .ok a → body.content = []) (formed : item.Formed) :
    FollowsAt (Decoder.readPlainHeader config >>= fun header => Decoder.ofExcept (f header))
      (ItemReader.ofHeader config f) item := by
  refine FollowsAt.behindPlain formed fun rest => ?_
  rw [Decoder.outcome_ofExcept]
  cases found : f item.body.header with
  | error e => rfl
  | ok a => rw [alone item.body formed.head a found]; rfl

theorem Follows.ofHeader {f : Header → Except Error α}
    (alone : ∀ body : Body Item, (∀ head ∈ body.head?, head.Fits) →
      ∀ a, f body.header = .ok a → body.content = []) :
    Follows (Decoder.readPlainHeader config >>= fun header => Decoder.ofExcept (f header))
      (ItemReader.ofHeader config f) :=
  fun _ readable => .ofHeader alone readable.formed

end

namespace Body

variable {body : Body Item}

theorem content_of_header (fits : ∀ head ∈ body.head?, head.Fits)
    (alone : body.header.major = .unsigned ∨ body.header.major = .negative ∨
      body.header.major = .simple) : body.content = [] := by
  rw [header_major fits] at alone
  cases body <;> simp_all [major, content]

theorem head_of_small (fits : ∀ head ∈ body.head?, head.Fits) (small : body.header.info < 24) :
    body.head? = some ⟨.immediate, body.header.info⟩ := by
  have info (n : Nat) (bound : n < 32) (found : body.header.initial = body.major.initial n) :
      body.header.info = n := by
    rw [Header.info, found, body.major.initial_info bound]
  cases found : body.head? with
  | none =>
    have none := info indefiniteInfo (by decide) (by rw [header, found]; rfl)
    simp only [indefiniteInfo] at none
    omega
  | some head =>
    have bound := (fits head found).info_lt
    have same := info (head.width.info head.n) (by omega) (by rw [header, found]; rfl)
    rcases head with ⟨width, n⟩
    cases width <;> simp only [Width.info] at same small <;> first | omega | rw [same]

theorem bytes_of_isNull {field : Option Element} (fits : ∀ head ∈ body.head?, head.Fits)
    (null : body.isNull field) : bodyBytes body = [body.header.initial] := by
  have content : body.content = [] ∧ body.header.info < 24 := by
    have known := header_major fits
    rcases null with null | null | ⟨null, -⟩
    · exact ⟨content_of_header fits (.inr (.inr (by rw [Header.major, null]; rfl))),
        by rw [Header.info, null]; decide⟩
    · exact ⟨content_of_header fits (.inr (.inr (by rw [Header.major, null]; rfl))),
        by rw [Header.info, null]; decide⟩
    · have zero : body.header.info = 0 := by rw [Header.info, null]; rfl
      have empty := head_of_small fits (by omega)
      rw [zero] at empty
      have map : body.major = .map := by rw [← known, Header.major, null]; rfl
      refine ⟨?_, by omega⟩
      cases body <;> simp only [major, reduceCtorEq] at map
      case map framing entries =>
        cases framing <;> simp_all [head?, Framing.head?, Body.content, Framing.closing, entriesBytes]
  have alone := head_of_small fits content.2
  rw [bodyBytes_eq, content.1, header, alone]
  rfl

end Body

namespace Header

theorem major_of_integer {header : Header} {n : Int} (found : header.integer = .ok n) :
    header.major = .unsigned ∨ header.major = .negative := by
  unfold integer at found
  split at found
  · exact .inl ‹_›
  · exact .inr ‹_›
  · cases found

theorem major_of_float {header : Header} {bits : UInt64} (found : header.float = .ok bits) :
    header.major = .simple := by
  unfold float at found
  split at found
  · assumption
  · cases found

theorem major_of_boolean {header : Header} {value : Bool} (found : header.boolean = .ok value) :
    header.major = .simple := by
  unfold boolean at found
  split_ifs at found with no yes
  · exact no.1
  · exact yes.1

end Header

namespace Decoder

variable {config : Config}

theorem followsAt_readInteger {item : Item} (formed : item.Formed) :
    FollowsAt (readInteger config) (ItemReader.ofHeader config Header.integer) item := by
  refine FollowsAt.ofHeader (fun body fits n found => Body.content_of_header fits ?_) formed
  rcases Header.major_of_integer found with unsigned | negative
  · exact .inl unsigned
  · exact .inr (.inl negative)

theorem follows_readInteger :
    Follows (readInteger config) (ItemReader.ofHeader config Header.integer) :=
  fun _ readable => followsAt_readInteger readable.formed

theorem followsAt_readFloat {item : Item} (formed : item.Formed) :
    FollowsAt (readFloat config) (ItemReader.ofHeader config Header.float) item :=
  FollowsAt.ofHeader (fun _ fits _ found =>
    Body.content_of_header fits (.inr (.inr (Header.major_of_float found)))) formed

theorem follows_readFloat : Follows (readFloat config) (ItemReader.ofHeader config Header.float) :=
  fun _ readable => followsAt_readFloat readable.formed

theorem follows_readBool : Follows (readBool config) (ItemReader.ofHeader config Header.boolean) :=
  Follows.ofHeader fun _ fits _ found =>
    Body.content_of_header fits (.inr (.inr (Header.major_of_boolean found)))

theorem follows_readText : Follows (readText config) (ItemReader.text config) := by
  rintro ⟨tags, body⟩ readable
  have known : body.header.major = body.major := Body.header_major readable.formed.head
  refine FollowsAt.behindPlain readable.formed fun rest => ?_
  change outcome (if body.header.major = .text then _ else _) (Decoder.mk _ none []) = _
  rw [known, outcome_ite]
  cases body with
  | text form =>
    have payload := @Cursor.outcome_readPayload .text form readable.formed.chunks (fun _ => rfl) rest
    change outcome (cursor (Cursor.readPayload (openingHeader .text form.head?)) >>= _)
      (Decoder.mk (form.body .text ++ rest) none []) = _
    simp only [outcome_bind, outcome_cursor, payload, ok_map, ok_bind, outcome_ofExcept]
    rfl
  | unsigned | negative | bytes | array | map | simple | embedded => rfl

theorem followsAt_readByte {item : Item} (formed : item.Formed) :
    FollowsAt (readByte config) (ItemReader.byte config) item := by
  refine (followsAt_readInteger formed).andThen fun n decoder => ?_
  simp only [outcome_ite]
  split <;> rfl

theorem follows_readInt (kind : IntKind) :
    Follows (readInt config kind) (ItemReader.int config kind) := by
  refine follows_readInteger.andThen fun n decoder => ?_
  simp only [outcome_ite]
  split <;> rfl

theorem follows_readChar : Follows (readChar config) (ItemReader.char config) := by
  refine follows_readInteger.andThen fun n decoder => ?_
  simp only [outcome_ite]
  split_ifs <;> rfl

theorem follows_readTextSlice : Follows (readTextSlice config) (ItemReader.textSlice config) := by
  refine follows_readText.andThen fun payload decoder => ?_
  simp only [outcome_ite]
  split <;> rfl

theorem follows_readUnit : Follows (readUnit config) (ItemReader.unit config) := by
  have same : readUnit config = readPlainHeader config >>= fun header => ofExcept
      (if header.initial = nullByte ∨ header.initial = undefinedByte then .ok .unit
        else .error (header.unexpected "null")) := by
    unfold readUnit
    congr
    funext header
    split <;> rfl
  rw [same]
  refine Follows.ofHeader fun body fits value found => ?_
  have null : body.isNull none := by
    split_ifs at found with null
    exact null.imp_right .inl
  have alone := Body.bytes_of_isNull fits null
  rw [bodyBytes_eq, openingBytes_eq_cons] at alone
  simp_all

theorem outcome_readNull {item : Item} (formed : item.Formed) (field : Option Element)
    (pending : List UInt64) (rest : Bytes) :
    outcome (readNull config) ⟨item.bytes ++ rest, field, pending⟩ =
      if item.body.isNull field then
        (fun _ => (true, ⟨rest, none, []⟩)) <$>
          ItemReader.ownTags config field (pending ++ item.tagNumbers)
      else .ok (false, ⟨item.bare.bytes ++ rest, field, pending ++ item.tagNumbers⟩) := by
  have peeked : outcome Cursor.peek (bodyBytes item.body ++ rest) =
      .ok (item.body.header.initial, bodyBytes item.body ++ rest) := by
    rw [bodyBytes_eq_cons]
    rfl
  simp only [readNull, outcome_bind, outcome_readAhead formed, ok_bind, outcome_get, outcome_cursor,
    peeked, ok_map]
  rw [outcome_ite]
  change (if item.body.isNull field then _ else _) = _
  split
  case isTrue null =>
    have taken := @outcome_takeTags_item config _ formed.bare field (pending ++ item.tagNumbers) rest
    simp only [Item.bytes_bare, Item.tagNumbers_bare, List.append_nil, Item.body_bare] at taken
    rw [Body.bytes_of_isNull formed.head null] at taken ⊢
    simp only [outcome_bind, outcome_discard, taken]
    cases ItemReader.ownTags config field (pending ++ item.tagNumbers) <;> rfl
  case isFalse => rw [Item.bytes_bare]; rfl

theorem follows_readOption {read : DecodeM Value} {told : ItemReader Value}
    (follows : Follows read told) :
    Follows (readOption config read) (ItemReader.option config told) := by
  intro item readable field pending rest
  simp only [readOption, outcome_bind, outcome_readNull readable.formed, ItemReader.option]
  split
  · cases ItemReader.ownTags config field (pending ++ item.tagNumbers) <;> rfl
  · have inner := follows item.bare readable.bare field (pending ++ item.tagNumbers) rest
    simp only [Item.tagNumbers_bare, List.append_nil, Item.body_bare] at inner
    simp only [ok_bind, Bool.false_eq_true, if_false, outcome_bind, inner]
    cases told field (pending ++ item.tagNumbers) item.body <;> rfl

theorem followsAt_readEmbedded (read : DecodeM Value) {item : Item} (formed : item.Formed) :
    FollowsAt (readEmbedded config read) (ItemReader.embedded config read) item := by
  rcases item with ⟨tags, body⟩
  have known : body.header.major = body.major := Body.header_major formed.head
  refine FollowsAt.behindPlain formed fun rest => ?_
  change outcome (if body.header.major = .bytes then _ else _) (Decoder.mk _ none []) = _
  have number : ∀ head ∈ body.head?, head.number.toNat = head.n :=
    fun head member => (formed.head head member).toNat_number
  have inside (head : Head) (content : Bytes) (length : head.number.toNat = content.length) :
      outcome (do
          let bytes ← cursor (Cursor.take head.number.toNat)
          return .embedded (← ofExcept (whole read bytes)) (some bytes))
          (Decoder.mk (content ++ rest) none []) =
        (·, Decoder.mk rest none []) <$>
          (fun value => Value.embedded value (some content)) <$> whole read content := by
    rw [length]
    simp only [outcome_bind, outcome_cursor, Cursor.outcome_take, ok_map, ok_bind, outcome_ofExcept]
    cases whole read content <;> rfl
  rw [known, outcome_ite]
  cases body with
  | bytes form =>
    cases form with
    | whole chunk => exact inside chunk.head chunk.content (number _ rfl)
    | chunked chunks => rfl
  | embedded width item => exact inside ⟨width, item.bytes.length⟩ item.bytes (number _ rfl)
  | unsigned | negative | text | array | map | simple => rfl

theorem follows_readEmbedded (read : DecodeM Value) :
    Follows (readEmbedded config read) (ItemReader.embedded config read) :=
  fun _ readable => followsAt_readEmbedded read readable.formed

theorem follows_readIgnored : Follows readIgnored ItemReader.ignored := by
  intro item readable field pending rest
  simp only [readIgnored, outcome_bind, outcome_modify, ok_bind, outcome_cursor,
    Cursor.outcome_skipItem readable.wellFormed readable.small]
  rfl

end Decoder
end TypedCbor
