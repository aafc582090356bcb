import TypedCbor.Document
import TypedCbor.Proofs.Composition
import TypedCbor.Proofs.Typing

namespace TypedCbor

-- One value in another, at any depth and also through what travels as a byte string.
inductive Value.Within : Value → Value → Prop where
  | here (value : Value) : Within value value
  | inside {inner part value : Value} (member : part ∈ value.parts) (within : Within inner part) :
    Within inner value

-- No record of a value has a field with the bytes of its declared default.
def Config.LeavesNothingOut (config : Config) (value : Value) : Prop :=
  ∀ name fields, (Value.record name fields).Within value →
    ∀ field ∈ fields, ¬config.LeavesOut ((config.shape name .keyed []).elementNamed field.1) field.2

def Config.withDefaults (config : Config) : Config := config.set .encodeDefaults true

variable {config : Config}

theorem Config.LeavesNothingOut.part {value part : Value} (nothing : config.LeavesNothingOut value)
    (member : part ∈ value.parts) : config.LeavesNothingOut part :=
  fun name fields within => nothing name fields (.inside member within)

theorem mapM_congr {α β : Type} {f g : α → Except Error β} {values : List α}
    (same : ∀ value ∈ values, f value = g value) : values.mapM f = values.mapM g := by
  induction values with
  | nil => rfl
  | cons value values ih =>
    obtain ⟨here, others⟩ := List.forall_mem_cons.mp same
    rw [List.mapM_cons, List.mapM_cons, here, ih others]

theorem Config.leavesOut_of_elides {element : Element} {value : Value} {bytes : Bytes}
    (written : value.alone config element.markers = .ok bytes)
    (elided : element.elides config bytes = true) : config.LeavesOut element value := by
  unfold Element.elides at elided
  cases declared : element.declaredDefault with
  | none =>
    rw [declared] at elided
    cases elided
  | some standard =>
    cases defaults : config.encodeDefaults with
    | true =>
      rw [declared, defaults] at elided
      cases elided
    | false =>
      rw [declared, defaults] at elided
      refine ⟨defaults, standard, declared, ?_⟩
      rw [Encoder.composes, written, eq_of_beq elided]
      rfl

theorem Element.part_withDefaults (shape : Shape) {element : Element} {bytes : Bytes}
    (kept : element.elides config bytes = false) :
    element.part config.withDefaults shape bytes = element.part config shape bytes := by
  have always : element.elides config.withDefaults bytes = false := by
    unfold Element.elides
    cases element.declaredDefault <;> rfl
  unfold Element.part
  rw [kept, always]
  rfl

section
variable {values : List Value}

theorem arrayAlone_withDefaults
    (each : ∀ value ∈ values, ∀ markers,
      value.alone config.withDefaults markers = value.alone config markers) :
    arrayAlone config.withDefaults values = arrayAlone config values := by
  unfold arrayAlone
  rw [mapM_congr fun value member => each value member {}]
  rfl

theorem collectedAlone_withDefaults
    (each : ∀ value ∈ values, ∀ markers,
      value.alone config.withDefaults markers = value.alone config markers) (collected : Bytes) :
    collectedAlone config.withDefaults values collected = collectedAlone config values collected := by
  induction values generalizing collected with
  | nil => rfl
  | cons value values ih =>
    rw [collectedAlone, collectedAlone]
    cases value.asByte with
    | some byte => exact ih (fun other member => each other (List.mem_cons_of_mem _ member)) _
    | none =>
      dsimp only
      rw [mapM_congr fun value member => each value member {}]
      rfl

theorem sequenceAlone_withDefaults
    (each : ∀ value ∈ values, ∀ markers,
      value.alone config.withDefaults markers = value.alone config markers) (markers : Markers) :
    sequenceAlone config.withDefaults values markers = sequenceAlone config values markers := by
  unfold sequenceAlone
  rw [collectedAlone_withDefaults each, arrayAlone_withDefaults each]
  rfl

end

theorem record_withDefaults (name : String) {fields : List (String × Value)} (markers : Markers)
    (each : ∀ field ∈ fields, ∀ markers,
      field.2.alone config.withDefaults markers = field.2.alone config markers)
    (kept : ∀ field ∈ fields,
      ¬config.LeavesOut ((config.shape name .keyed []).elementNamed field.1) field.2) :
    (Value.record name fields).composed config.withDefaults markers =
      (Value.record name fields).composed config markers := by
  have same : ∀ field ∈ fields,
      ((config.shape name .keyed []).elementNamed field.1).part config.withDefaults
          (config.shape name .keyed []) <$>
        field.2.alone config.withDefaults ((config.shape name .keyed []).elementNamed field.1).markers =
      ((config.shape name .keyed []).elementNamed field.1).part config (config.shape name .keyed []) <$>
        field.2.alone config ((config.shape name .keyed []).elementNamed field.1).markers := by
    intro field member
    rw [each field member]
    cases written : field.2.alone config ((config.shape name .keyed []).elementNamed field.1).markers with
    | error e => rfl
    | ok bytes =>
      refine congrArg Except.ok (Element.part_withDefaults _ ?_)
      rw [← Bool.not_eq_true]
      exact fun elided => kept field member (Config.leavesOut_of_elides written elided)
  rw [Value.composed, Value.composed]
  exact congrArg _ (mapM_congr same)

theorem Value.alone_withDefaults {value : Value} (nothing : config.LeavesNothingOut value)
    (markers : Markers) : value.alone config.withDefaults markers = value.alone config markers := by
  -- Only records ask, and what their fields come to is known.
  induction value using Value.induction generalizing markers with
  | step value ih =>
    have each (part : Value) (member : part ∈ value.parts) (markers : Markers) :
        part.alone config.withDefaults markers = part.alone config markers :=
      ih part member (nothing.part member) markers
    by_cases sequence : ∃ items, value = .seq items
    · obtain ⟨items, rfl⟩ := sequence
      rw [Value.alone_seq, Value.alone_seq]
      exact sequenceAlone_withDefaults each markers
    · have plain (items : List Value) (same : value = .seq items) : False := sequence ⟨items, same⟩
      rw [Value.alone_of_plain _ plain, Value.alone_of_plain _ plain]
      cases value with
      | bool | int | single | double | char | text | bytes | unit | none | unitVariant => rfl
      | seq items => exact absurd rfl (plain items)
      | some value | newtype value => exact each value (List.mem_singleton_self value) markers
      | visited how value => exact each value (List.mem_singleton_self value) markers
      | tuple items => exact arrayAlone_withDefaults each
      | map entries =>
        rw [Value.composed, Value.composed, mapM_congr fun entry member => ?same]
        · rfl
        case same =>
          rw [each _ (mem_flattened.mpr ⟨entry, member, .inl rfl⟩),
            each _ (mem_flattened.mpr ⟨entry, member, .inr rfl⟩)]
      | record name fields =>
        exact record_withDefaults name markers
          (fun field member => each field.2 (List.mem_map_of_mem member))
          (nothing name fields (.here _))
      | variant name content =>
        rw [Value.composed, Value.composed, each content (List.mem_singleton_self content)]
        rfl
      | embedded value serialized =>
        rw [Value.composed, Value.composed, each value (List.mem_singleton_self value)]

theorem Config.encode_eq_alone (config : Config) (value : Value) :
    config.encode value = value.alone config {} := by
  rw [Config.encode, Encoder.composes config value]
  cases value.alone config {} <;> rfl

-- Under a configuration that leaves defaults out, a value in which no field has the bytes of its default
-- comes to what it comes to where defaults are written: the same bytes, or the same error.
theorem Config.encode_withDefaults {value : Value} (nothing : config.LeavesNothingOut value) :
    config.encode value = (config.set .encodeDefaults true).encode value := by
  unfold Config.encode
  rw [Encoder.composes config value, Encoder.composes (config.set .encodeDefaults true) value]
  rw [← Value.alone_withDefaults nothing]
  rfl

def Value.carriedReading : Value :=
  .record "Reading" [("at", .int .i32 5),
    ("octets", .embedded (.record "Reading" [("at", .int .i32 7), ("octets", .seq [.int .u8 9])])
      Option.none)]

theorem Config.encode_carriedReading :
    Config.readings.encodeDefaults = false ∧ Config.readings.LeavesNothingOut Value.carriedReading ∧
      Config.readings.encode Value.carriedReading =
        (Config.readings.set .encodeDefaults true).encode Value.carriedReading := by
  have time (n : Int) (later : n = 5 ∨ n = 7) : ¬Config.readings.LeavesOut
      ((Config.readings.shape "Reading" .keyed []).elementNamed "at") (.int .i32 n) := by
    rintro ⟨-, standard, declared, encoded⟩
    cases declared
    rcases later with rfl | rfl <;> cases encoded
  have octets (value : Value) : ¬Config.readings.LeavesOut
      ((Config.readings.shape "Reading" .keyed []).elementNamed "octets") value := by
    rintro ⟨-, standard, declared, -⟩
    cases declared
  have reading (n : Int) (later : n = 5 ∨ n = 7) (value : Value)
      (inside : Config.readings.LeavesNothingOut value) :
      Config.readings.LeavesNothingOut (.record "Reading" [("at", .int .i32 n), ("octets", value)]) := by
    intro name fields within
    cases within with
    | here =>
      exact List.forall_mem_cons.mpr ⟨time n later, List.forall_mem_singleton.mpr (octets value)⟩
    | inside member within =>
      rcases List.mem_cons.mp member with rfl | member
      · cases within with
        | inside member _ => cases member
      · cases List.mem_singleton.mp member
        exact inside name fields within
  have nothing : Config.readings.LeavesNothingOut Value.carriedReading := by
    refine reading 5 (.inl rfl) _ fun name fields within => ?_
    cases within with
    | inside member within =>
      cases List.mem_singleton.mp member
      refine reading 7 (.inr rfl) _ (fun name fields within => ?_) name fields within
      cases within with
      | inside member within =>
        cases List.mem_singleton.mp member
        cases within with
        | inside member _ => cases member
  exact ⟨rfl, nothing, Config.encode_withDefaults nothing⟩

end TypedCbor
