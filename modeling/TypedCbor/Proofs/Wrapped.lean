import TypedCbor.Proofs.Taking.Typed

namespace TypedCbor

open Decoder

-- A reader that answers, fails and leaves off alike, whether the tags of its item are in front of it or were read
-- ahead; and that fails with them where they cannot be read.
structure CatchesUp (read : DecodeM α) : Prop where
  ahead : ∀ (tags : List Head) (initial : UInt8) (more : Bytes) (field : Option Element) (pending : List UInt64),
    (∀ tag ∈ tags, tag.Fits) → Major.ofInitial initial ≠ .tag →
    read ⟨tagBytes tags ++ initial :: more, field, pending⟩ =
      read ⟨initial :: more, field, pending ++ tags.map Head.number⟩
  broken : ∀ (decoder : Decoder) (e : Error), outcome Cursor.readTags decoder.rest = .error e →
    outcome read decoder = .error e

section
variable {α β : Type} {read : DecodeM α}

theorem CatchesUp.bind (catchesUp : CatchesUp read) (next : α → DecodeM β) : CatchesUp (read >>= next) where
  ahead := fun tags initial more field pending fit stops =>
    ran_bind (catchesUp.ahead tags initial more field pending fit stops) next
  broken := fun decoder e torn => by rw [outcome_bind, catchesUp.broken decoder e torn, error_bind]

theorem CatchesUp.map (catchesUp : CatchesUp read) (f : α → β) : CatchesUp (f <$> read) where
  ahead := fun tags initial more field pending fit stops =>
    ran_map (catchesUp.ahead tags initial more field pending fit stops) f
  broken := fun decoder e torn => by rw [outcome_map, catchesUp.broken decoder e torn, error_map]

end

namespace Decoder

variable {config : Config}

theorem ran_readAhead {tags : List Head} {initial : UInt8} (fit : ∀ tag ∈ tags, tag.Fits)
    (stops : Major.ofInitial initial ≠ .tag) (more : Bytes) (field : Option Element) (pending : List UInt64) :
    readAhead ⟨tagBytes tags ++ initial :: more, field, pending⟩ =
      .ok () ⟨initial :: more, field, pending ++ tags.map Head.number⟩ := by
  refine ran_of_outcome ?_
  simp only [readAhead, outcome_bind, outcome_cursor, Cursor.outcome_readTags fit stops, ok_map, ok_bind,
    outcome_modify]

theorem catchesUp_readAhead : CatchesUp readAhead := by
  refine ⟨fun tags initial more field pending fit stops => ?_, fun decoder e torn => ?_⟩
  · have again := @ran_readAhead [] initial (by simp) stops more field (pending ++ tags.map Head.number)
    rw [List.map_nil, List.append_nil] at again
    exact (ran_readAhead fit stops more field pending).trans again.symm
  · rw [readAhead, outcome_bind, outcome_cursor, torn]
    rfl

theorem catchesUp_takeTags : CatchesUp (takeTags config) := .bind catchesUp_readAhead _

theorem catchesUp_readHeader : CatchesUp (readHeader config) := .bind catchesUp_takeTags _

theorem catchesUp_readVariant (variants : List (VariantReader (DecodeM Value))) :
    CatchesUp (readVariant config variants) := .bind catchesUp_readAhead _

theorem catchesUp_readNull : CatchesUp (readNull config) := .bind catchesUp_readAhead _

theorem catchesUp_readOption (read : DecodeM Value) : CatchesUp (readOption config read) := .bind catchesUp_readNull _

theorem catchesUp_readAny : CatchesUp (readAny config) := by
  have rounds (rounds : Nat) : CatchesUp (readGeneric config (rounds + 1)) := by
    rw [readGeneric_succ]
    exact .bind catchesUp_readHeader _
  refine ⟨fun tags initial more field pending fit stops => ?_, fun decoder e torn => ?_⟩
  · have shorter : (initial :: more).length ≤ (tagBytes tags ++ initial :: more).length := by simp
    have spare := @readGeneric_enough config ((initial :: more).length + 1)
      ((tagBytes tags ++ initial :: more).length + 1) ⟨initial :: more, field, pending ++ tags.map Head.number⟩
      (Nat.lt_succ_self _) (Nat.lt_succ_of_le shorter)
    exact ((rounds _).ahead tags initial more field pending fit stops).trans spare.symm
  · rw [readAny, outcome_bind, outcome_get, ok_bind]
    exact (rounds decoder.rest.length).broken decoder e torn

theorem skipHead_tagged {tags : List Head} {initial : UInt8} (fit : ∀ tag ∈ tags, tag.Fits)
    (stops : Major.ofInitial initial ≠ .tag) (pending : Cursor.Pending) (more : Bytes) :
    Cursor.skipHead pending (tagBytes tags ++ initial :: more) = Cursor.skipHead pending (initial :: more) := by
  have tagged := ran_of_outcome (Cursor.outcome_readTags fit stops more)
  have bare := ran_of_outcome (Cursor.outcome_readTags_untagged stops more)
  have discarded : discard Cursor.readTags (tagBytes tags ++ initial :: more) =
      discard Cursor.readTags (initial :: more) := by
    change EStateM.map _ Cursor.readTags _ = EStateM.map _ Cursor.readTags _
    rw [EStateM.map, EStateM.map, tagged, bare]
  exact ran_bind discarded _

theorem skipItem_tagged {tags : List Head} {initial : UInt8} (fit : ∀ tag ∈ tags, tag.Fits)
    (stops : Major.ofInitial initial ≠ .tag) (more : Bytes) :
    Cursor.skipItem (tagBytes tags ++ initial :: more) = Cursor.skipItem (initial :: more) := by
  have shorter : (initial :: more).length ≤ (tagBytes tags ++ initial :: more).length := by simp
  have spare := @Cursor.skipRounds_enough (2 * (tagBytes tags ++ initial :: more).length + 1)
    (2 * (initial :: more).length + 1) [] (initial :: more) (by rw [List.length_nil]; omega) (Nat.lt_succ_self _)
  refine Eq.trans ?_ spare
  change Cursor.skipRounds (2 * (tagBytes tags ++ initial :: more).length + 1) [] _ = _
  rw [Cursor.skipRounds_succ]
  exact ran_bind (skipHead_tagged fit stops [] more) _

theorem skipItem_broken {input : Bytes} {e : Error} (torn : outcome Cursor.readTags input = .error e) :
    outcome Cursor.skipItem input = .error e := by
  rw [Cursor.skipItem, outcome_bind, outcome_get, ok_bind, Cursor.skipRounds_succ, outcome_bind, Cursor.skipRound,
    Cursor.skipHead_eq, outcome_bind, outcome_discard, torn]
  rfl

theorem catchesUp_readIgnored : CatchesUp readIgnored := by
  refine ⟨fun tags initial more field pending fit stops => ?_, fun decoder e torn => ?_⟩
  · have skipped : cursor Cursor.skipItem ⟨tagBytes tags ++ initial :: more, none, []⟩ =
        cursor Cursor.skipItem ⟨initial :: more, none, []⟩ := by
      rw [cursor, cursor, skipItem_tagged fit stops]
    exact ran_bind skipped fun _ => pure (Value.visited .ignored .unit)
  · rw [readIgnored, outcome_bind, outcome_modify, ok_bind, outcome_bind, outcome_cursor, skipItem_broken torn]
    rfl

end Decoder

theorem Ty.catchesUp (config : Config) (type : Ty) : CatchesUp (type.read config) :=
  Ty.read_induction (P := CatchesUp) (fun catchesUp next => catchesUp.bind next) catchesUp_takeTags
    (fun _ => catchesUp_readOption _) catchesUp_readVariant catchesUp_readAny catchesUp_readIgnored type

-- There is an item behind the tags, and it is no null to the field it is read for.
def Decoder.FindsSome (decoder : Decoder) : Prop :=
  ∃ (tags : List Head) (initial : UInt8) (more : Bytes), (∀ tag ∈ tags, tag.Fits) ∧ Major.ofInitial initial ≠ .tag ∧
    decoder.rest = tagBytes tags ++ initial :: more ∧ initial ≠ nullByte ∧ initial ≠ undefinedByte ∧
    ∀ element ∈ decoder.field, element.object = true → initial ≠ emptyMapByte

-- What is put around a type without anything being written for it.
inductive Wrapper where
  | option
  | newtype (name : String)

namespace Wrapper

def type : Wrapper → Ty → Ty
  | option => .option
  | newtype name => .newtype name

def value : Wrapper → Value → Value
  | option => .some
  | newtype _ => .newtype

end Wrapper

def Ty.wrapped (wrappers : List Wrapper) (type : Ty) : Ty := wrappers.foldr Wrapper.type type

def Value.wrapped (wrappers : List Wrapper) (value : Value) : Value := wrappers.foldr Wrapper.value value

namespace Decoder

theorem ran_readNull {config : Config} {tags : List Head} {initial : UInt8} {field : Option Element}
    (fit : ∀ tag ∈ tags, tag.Fits) (stops : Major.ofInitial initial ≠ .tag) (notNull : initial ≠ nullByte)
    (notUndefined : initial ≠ undefinedByte)
    (object : ∀ element ∈ field, element.object = true → initial ≠ emptyMapByte) (more : Bytes)
    (pending : List UInt64) :
    readNull config ⟨tagBytes tags ++ initial :: more, field, pending⟩ =
      .ok false ⟨initial :: more, field, pending ++ tags.map Head.number⟩ := by
  have some : ¬(initial = nullByte ∨ initial = undefinedByte ∨
      initial = emptyMapByte ∧ (field.map Element.object).getD false = true) := by
    rintro (null | undefined | ⟨empty, marked⟩)
    · exact notNull null
    · exact notUndefined undefined
    · cases field with
      | none => cases marked
      | some element => exact object element rfl marked empty
  rw [readNull_eq, ran_bind_ok (ran_readAhead fit stops more field pending)]
  change nullAt config field ⟨initial :: more, field, pending ++ tags.map Head.number⟩ = _
  rw [nullAt, ran_bind_ok (show cursor Cursor.peek _ = .ok initial _ from rfl), if_neg some]
  rfl

end Decoder

theorem Ty.read_option {config : Config} {decoder : Decoder} (type : Ty) (some : decoder.FindsSome) :
    (Ty.option type).read config decoder = (Value.some <$> type.read config) decoder := by
  obtain ⟨tags, initial, more, fit, stops, same, notNull, notUndefined, object⟩ := some
  rcases decoder with ⟨rest, field, pending⟩
  cases same
  have goesOn := @ran_readNull config tags initial field fit stops notNull notUndefined object more pending
  refine (ran_bind_ok goesOn _).trans ?_
  rw [if_neg Bool.false_ne_true]
  exact (((type.catchesUp config).map _).ahead tags initial more field pending fit stops).symm

theorem Wrapper.read_type {config : Config} {decoder : Decoder} (wrapper : Wrapper) (type : Ty)
    (some : decoder.FindsSome) :
    (wrapper.type type).read config decoder = (wrapper.value <$> type.read config) decoder := by
  cases wrapper with
  | option => exact type.read_option some
  | newtype name => rfl

theorem Ty.read_wrapped {config : Config} {decoder : Decoder} (type : Ty) (wrappers : List Wrapper)
    (some : decoder.FindsSome) :
    (type.wrapped wrappers).read config decoder = (Value.wrapped wrappers <$> type.read config) decoder := by
  induction wrappers with
  | nil => exact congrFun (id_map (type.read config)).symm decoder
  | cons wrapper wrappers ih =>
    rw [Ty.wrapped, List.foldr_cons, Wrapper.read_type _ _ some]
    refine (ran_map ih _).trans ?_
    rw [Functor.map_map]
    rfl

theorem Value.encode_wrapped (config : Config) (value : Value) (wrappers : List Wrapper) (encoder : Encoder) :
    (value.wrapped wrappers).encode config encoder = value.encode config encoder := by
  induction wrappers with
  | nil => rfl
  | cons wrapper wrappers ih => cases wrapper <;> exact ih

-- An option reads what its type reads, and a newtype always does; from any state, and to the same state also where
-- reading fails. Tags that cannot be read fail for both. So tags and markers that are declared for a field are for
-- what it holds inside of its wrappers, as they are when it is written.
theorem Ty.reads_through_wrappers (config : Config) (type : Ty) :
    (∀ decoder : Decoder, decoder.FindsSome →
      (Ty.option type).read config decoder = (Value.some <$> type.read config) decoder) ∧
    (∀ (decoder : Decoder) (e : Error), outcome Cursor.readTags decoder.rest = .error e →
      outcome ((Ty.option type).read config) decoder = .error e ∧ outcome (type.read config) decoder = .error e) ∧
    (∀ (name : String) (decoder : Decoder),
      (Ty.newtype name type).read config decoder = (Value.newtype <$> type.read config) decoder) ∧
    (∀ (wrappers : List Wrapper) (decoder : Decoder), decoder.FindsSome →
      (type.wrapped wrappers).read config decoder = (Value.wrapped wrappers <$> type.read config) decoder) ∧
    ∀ (wrappers : List Wrapper) (value : Value) (encoder : Encoder),
      (value.wrapped wrappers).encode config encoder = value.encode config encoder :=
  ⟨fun _ => type.read_option,
    fun decoder e torn =>
      ⟨((Ty.option type).catchesUp config).broken decoder e torn, (type.catchesUp config).broken decoder e torn⟩,
    fun _ _ => rfl, fun wrappers _ => type.read_wrapped wrappers,
    fun wrappers value => value.encode_wrapped config wrappers⟩

def Config.framedPoints : Config := { descriptors := [⟨"Point", .keyed, some [18], [.named "x"]⟩] }

def Ty.framedPoint : Ty := .record "Point" [⟨"x", .int .u8, none⟩]

def Element.position : Element := { name := "position", valueTags := [5], object := true }

theorem Ty.reads_wrapped_points :
    (Ty.framedPoint.wrapped [.option, .newtype "Maybe", .option]).read .framedPoints
        ⟨[0xc5, 0xd2, 0x81, 0x07, 0x00], some .position, []⟩ =
      .ok (.some (.newtype (.some (.record "Point" [("x", .int .u8 7)])))) ⟨[0x00], none, []⟩ ∧
    (Ty.framedPoint.wrapped [.option, .newtype "Maybe", .option]).read .framedPoints
        ⟨[0xc6, 0xd2, 0x81, 0x07, 0x00], some .position, []⟩ =
      .error (.tagMismatch [5] [6, 18]) ⟨[0x81, 0x07, 0x00], none, []⟩ := by
  obtain ⟨-, -, -, wrapped, -⟩ := Ty.reads_through_wrappers .framedPoints .framedPoint
  have filled (n : Nat) (small : n < 24) :
      Decoder.FindsSome ⟨tagBytes [⟨.immediate, n⟩, ⟨.immediate, 18⟩] ++ [0x81, 0x07, 0x00], some .position, []⟩ := by
    refine ⟨_, 0x81, [0x07, 0x00], ?_, by decide, rfl, by decide, by decide, fun _ _ _ => by decide⟩
    rintro tag (_ | ⟨_, _ | ⟨_, ⟨⟩⟩⟩)
    · exact small
    · exact (by decide : 18 < 24)
  exact ⟨(wrapped _ _ (filled 5 (by decide))).trans rfl, (wrapped _ _ (filled 6 (by decide))).trans rfl⟩

end TypedCbor
