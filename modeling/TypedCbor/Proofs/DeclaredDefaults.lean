import TypedCbor.Document
import TypedCbor.Proofs.Composition

namespace TypedCbor

-- What a default is declared for: a value that a field may have. Integers may be of any kind that has
-- them.
inductive DeclaredDefault.StandsFor : DeclaredDefault → Value → Prop where
  | null : StandsFor .null .none
  | bool (value : Bool) : StandsFor (.bool value) (.bool value)
  | integer {kind : IntKind} {n : Int64} (held : kind.holds n.toInt = true) :
    StandsFor (.integer n) (.int kind n.toInt)
  | single (bits : UInt32) : StandsFor (.single bits) (.single bits)
  | double (bits : UInt64) : StandsFor (.double bits) (.double bits)
  | text (content : String) : StandsFor (.text content) (.text content)
  | bytes (content : Bytes) :
    StandsFor (.bytes content) (.seq (content.map fun byte => .int .u8 byte.toNat))
  | emptyArray : StandsFor .emptyArray (.seq [])
  | emptyMap : StandsFor .emptyMap (.map [])

-- A sequence without elements is a byte string wherever one of bytes is, its default is an array.
def DeclaredDefault.Astray (config : Config) (element : Element) (standard : DeclaredDefault) : Prop :=
  standard = .emptyArray ∧ (element.byteString || config.byteStrings) = true

namespace Wire

variable {n : Int64}

theorem signed_of_nonneg {m : Nat} (same : n.toInt = m) :
    signed n = head .unsigned (UInt64.ofNat m) := by
  have positive : 0 ≤ n := by
    rw [Int64.le_iff_toInt_le, same]
    exact Int.natCast_nonneg m
  rw [signed, if_pos positive]
  congr 1
  rw [Int64.toInt_eq_toNatClampNeg positive] at same
  rw [← Int.natCast_inj.mp same, ← Int64.toNat_toUInt64_of_le positive, UInt64.ofNat_toNat]

theorem signed_of_neg {m : Nat} (same : n.toInt = Int.negSucc m) :
    signed n = head .negative (UInt64.ofNat m) := by
  have negative : ¬0 ≤ n := by
    rw [Int64.le_iff_toInt_le, same]
    exact Int.not_le.mpr (Int.negSucc_lt_zero m)
  have least : -2 ^ 63 ≤ n.toInt := n.le_toInt
  rw [Int.negSucc_eq] at same
  have complement : (~~~n).toInt = m := by
    rw [Int64.toInt_not, Int.bmod_eq_of_le (by omega) (by omega)]
    omega
  have positive : 0 ≤ ~~~n := by
    rw [Int64.le_iff_toInt_le, complement]
    exact Int.natCast_nonneg m
  rw [signed, if_neg negative]
  congr 1
  rw [Int64.toInt_eq_toNatClampNeg positive] at complement
  rw [← Int.natCast_inj.mp complement, ← Int64.toNat_toUInt64_of_le positive, UInt64.ofNat_toNat]

end Wire

theorem IntKind.item_toInt {kind : IntKind} {n : Int64} (held : kind.holds n.toInt = true) :
    kind.item n.toInt = .ok (Wire.signed n) := by
  have least : kind.low ≤ n.toInt := (by simpa [holds] using held : _ ∧ _).1
  have below : -2 ^ 63 ≤ n.toInt ∧ n.toInt < 2 ^ 63 := ⟨n.le_toInt, n.toInt_lt⟩
  cases kind with
  | i8 | i16 | i32 | i64 => exact congrArg (fun n => Except.ok (Wire.signed n)) (Int64.ofInt_toInt n)
  | u8 | u16 | u32 | u64 =>
    have natural : n.toInt = n.toInt.toNat := (Int.toNat_of_nonneg least).symm
    exact congrArg Except.ok (Wire.signed_of_nonneg natural).symm
  | i128 | u128 =>
    rw [item]
    unfold Wire.wide
    split
    · rename_i m same
      have number : n.toInt = m := same
      have small : m < UInt64.size := by
        rw [UInt64.size]
        omega
      rw [if_pos small, Wire.signed_of_nonneg number]
    · rename_i m same
      have number := same.trans (Int.negSucc_eq m)
      have small : m < UInt64.size := by
        rw [UInt64.size]
        omega
      rw [if_pos small, Wire.signed_of_neg same]

namespace DeclaredDefault

variable {config : Config} {element : Element} {standard : DeclaredDefault} {value : Value}

theorem mapM_asByte (content : Bytes) :
    (content.map fun byte => Value.int .u8 byte.toNat).mapM Value.asByte = some content := by
  induction content with
  | nil => rfl
  | cons byte content ih =>
    have own : (Value.int .u8 byte.toNat).asByte = some byte :=
      congrArg some (UInt8.ofNat_toNat)
    rw [List.map_cons, List.mapM_cons, ih, own]
    rfl

theorem octets (content : Bytes) (n : Int)
    (member : Value.int .u8 n ∈ content.map fun byte => Value.int .u8 byte.toNat) :
    IntKind.u8.holds n = true := by
  obtain ⟨byte, -, same⟩ := List.mem_map.mp member
  cases same
  have small := byte.toNat_lt
  simp only [IntKind.holds, IntKind.low, IntKind.high, IntKind.isSigned, IntKind.width, Bool.false_eq_true,
    if_false, Bool.and_eq_true, decide_eq_true_eq]
  omega

theorem arrayAlone_bytes (config : Config) (content : Bytes) :
    arrayAlone config (content.map fun byte => .int .u8 byte.toNat) =
      .ok (config.framed .array content.length
        (content.flatMap fun byte => Wire.unsigned byte.toUInt64)) := by
  have parts : (content.map fun byte => Value.int .u8 byte.toNat).mapM (fun value => value.alone config {}) =
      .ok (content.map fun byte => Wire.unsigned byte.toUInt64) := by
    induction content with
    | nil => rfl
    | cons byte content ih =>
      have own : (Value.int .u8 byte.toNat).alone config {} = .ok (Wire.unsigned byte.toUInt64) := by
        refine Value.alone_octet config (congrArg some UInt8.ofNat_toNat) fun n same => ?_
        exact octets [byte] n (same ▸ List.mem_singleton_self _)
      rw [List.map_cons, List.mapM_cons, own, ih]
      rfl
  rw [arrayAlone, parts, ok_map, List.length_map, ← List.flatMap_def]

theorem alone_of_standsFor (stands : standard.StandsFor value) (alike : ¬standard.Astray config element) :
    value.alone config element.markers = .ok (standard.encoded config element) := by
  cases stands with
  | null | bool | single | double | text | emptyMap => rfl
  | integer held =>
    rename_i kind n
    change Encoder.output <$> (do return Encoder.put _ (← kind.item n.toInt)) = _
    rw [IntKind.item_toInt held]
    rfl
  | emptyArray =>
    have array : ¬(element.markers.byteString || config.byteStrings) = true := fun strings => alike ⟨rfl, strings⟩
    rw [Value.alone_seq, sequenceAlone, if_neg array]
    rfl
  | bytes content =>
    rw [Value.alone_seq, sequenceAlone, encoded, Bool.or_comm config.byteStrings]
    by_cases strings : (element.byteString || config.byteStrings) = true
    · have collected := collectedAlone_eq config (octets content) []
      rw [mapM_asByte] at collected
      exact (if_pos strings).trans (collected.trans (congrArg Except.ok (if_pos strings).symm))
    · rw [if_neg strings]
      exact (if_neg strings).trans (arrayAlone_bytes config content)

theorem alone_of_astray (stands : standard.StandsFor value) (astray : standard.Astray config element) :
    value.alone config element.markers = .ok (Wire.bytes []) ∧
      standard.encoded config element ≠ Wire.bytes [] := by
  obtain ⟨rfl, strings⟩ := astray
  cases stands
  constructor
  · rw [Value.alone_seq, sequenceAlone]
    exact if_pos strings
  · rw [encoded, Config.framed]
    split <;> decide

end DeclaredDefault

-- A field that makes no difference to its record, whatever other fields there are and wherever the
-- record is written.
def Config.AlwaysLeavesOut (config : Config) (name field : String) (value : Value) : Prop :=
  ∀ before after encoder, (Value.record name (before ++ (field, value) :: after)).encode config encoder =
    (Value.record name (before ++ after)).encode config encoder

section
variable {config : Config} {name field : String} {value : Value} {bytes : Bytes}

theorem filterMap_mapM_skip {α β : Type} {f : α → Except Error (Option β)} {x : α}
    (skipped : f x = .ok none) (before after : List α) :
    List.filterMap id <$> (before ++ x :: after).mapM f = List.filterMap id <$> (before ++ after).mapM f := by
  rw [List.mapM_append, List.mapM_append, List.mapM_cons, skipped]
  cases before.mapM f with
  | error e => rfl
  | ok earlier =>
    cases after.mapM f with
    | error e => rfl
    | ok later =>
      change Except.ok _ = Except.ok _
      rw [List.filterMap_append, List.filterMap_append]
      rfl

def Config.fieldPart (config : Config) (name : String) (field : String × Value) :
    Except Error (Option Bytes) :=
  let element := (config.shape name .keyed []).elementNamed field.1
  element.part config (config.shape name .keyed []) <$> field.2.alone config element.markers

theorem Value.alone_record (config : Config) (name : String) (fields : List (String × Value))
    (markers : Markers) :
    (Value.record name fields).alone config markers =
      (fun kept => (config.shape name .keyed []).enclosed config ⟨kept.flatten, kept.length⟩) <$>
        (List.filterMap id <$> fields.mapM (config.fieldPart name)) := by
  rw [Value.alone_of_plain config (fun _ same => by cases same), Value.composed, ← comp_map]
  rfl

theorem Config.alwaysLeavesOut_of_elides
    (written : value.alone config ((config.shape name .keyed []).elementNamed field).markers = .ok bytes)
    (elided : ((config.shape name .keyed []).elementNamed field).elides config bytes = true) :
    config.AlwaysLeavesOut name field value := by
  intro before after encoder
  have skipped : config.fieldPart name (field, value) = .ok none := by
    rw [fieldPart, written, ok_map]
    exact congrArg Except.ok (if_pos elided)
  have same (markers : Markers) : (Value.record name (before ++ (field, value) :: after)).alone config markers =
      (Value.record name (before ++ after)).alone config markers := by
    rw [Value.alone_record, Value.alone_record, filterMap_mapM_skip skipped]
  rw [Encoder.composes, Encoder.composes, same]

theorem Config.length_framed (config : Config) (major : Major) {count : Nat} (few : count < 24)
    (body : Bytes) : (config.framed major count body).length = (config.framed major 0 []).length + body.length := by
  have short (n : Nat) (few : n < 24) : (Wire.count major n).length = 1 := by
    rw [Wire.count, Wire.head, UInt64.toNat_ofNat_of_lt' (by rw [UInt64.size]; omega), if_pos few]
    rfl
  unfold framed
  split
  · rw [List.length_append, List.length_append, Wire.header, Wire.header, short _ few, short 0 (by decide)]
    simp
  · simp only [List.length_append, List.length_nil, Nat.add_zero]
    omega

theorem Shape.length_enclosed (config : Config) (shape : Shape) {frame : Frame} (few : frame.count < 24) :
    (shape.enclosed config frame).length = (shape.enclosed config {}).length + frame.bytes.length := by
  unfold enclosed
  split
  · rw [List.length_append, List.length_append, config.length_framed .array few, Nat.add_assoc]
  · exact config.length_framed .array few _
  · exact config.length_framed .array few _
  · exact config.length_framed .map (by omega) _
  · exact config.length_framed .map few _

theorem Config.not_alwaysLeavesOut
    (written : value.alone config ((config.shape name .keyed []).elementNamed field).markers = .ok bytes)
    (content : bytes ≠ [])
    (kept : ((config.shape name .keyed []).elementNamed field).elides config bytes = false) :
    ¬config.AlwaysLeavesOut name field value := by
  intro always
  let part := ((config.shape name .keyed []).elementNamed field).introduction config
    (config.shape name .keyed []) ++ bytes
  have added : config.fieldPart name (field, value) = .ok (some part) := by
    rw [fieldPart, written, ok_map]
    exact congrArg Except.ok (if_neg (by rw [kept]; exact Bool.false_ne_true))
  have same : (Value.record name [(field, value)]).alone config {} = (Value.record name []).alone config {} :=
    congrArg (Encoder.output <$> ·) (always [] [] {})
  rw [Value.alone_record, Value.alone_record, List.mapM_cons, added] at same
  have lengths : ((config.shape name .keyed []).enclosed config ⟨part ++ [], 1⟩).length =
      ((config.shape name .keyed []).enclosed config {}).length := congrArg List.length (Except.ok.inj same)
  have few : (⟨part ++ [], 1⟩ : Frame).count < 24 := by simp
  have positive : 0 < bytes.length := List.length_pos_iff.mpr content
  have longer : 0 < (part ++ []).length := by
    rw [List.append_nil, List.length_append]
    exact Nat.add_pos_right _ positive
  rw [Shape.length_enclosed config _ few] at lengths
  exact absurd lengths (Nat.ne_of_gt (Nat.lt_add_of_pos_right longer))

end

-- A default is encoded as the field would be that holds it, but that of an empty array where an empty
-- sequence is a byte string; and those fields are always left out that hold their default, but for
-- these.
theorem DeclaredDefault.encoded_iff {standard : DeclaredDefault} {value : Value}
    (stands : standard.StandsFor value) :
    (∀ (config : Config) (element : Element),
      value.encode config { markers := element.markers } =
          .ok { output := standard.encoded config element } ↔
        ¬standard.Astray config element) ∧
      ∀ (config : Config) (name field : String), config.encodeDefaults = false →
        ((config.shape name .keyed []).elementNamed field).declaredDefault = some standard →
          (config.AlwaysLeavesOut name field value ↔
            ¬standard.Astray config ((config.shape name .keyed []).elementNamed field)) := by
  constructor
  · intro config element
    rw [Encoder.composes]
    constructor
    · intro encoded astray
      obtain ⟨string, other⟩ := alone_of_astray stands astray
      rw [string] at encoded
      exact other (congrArg Encoder.output (Except.ok.inj encoded)).symm
    · intro alike
      rw [alone_of_standsFor stands alike]
      rfl
  · intro config name field elides declared
    have elided (bytes : Bytes) : ((config.shape name .keyed []).elementNamed field).elides config bytes =
        (bytes == standard.encoded config ((config.shape name .keyed []).elementNamed field)) := by
      rw [Element.elides, declared, elides]
    constructor
    · intro always astray
      obtain ⟨string, other⟩ := alone_of_astray stands astray
      refine Config.not_alwaysLeavesOut string (by decide) ?_ always
      rw [elided]
      exact beq_eq_false_iff_ne.mpr other.symm
    · intro alike
      exact Config.alwaysLeavesOut_of_elides (alone_of_standsFor stands alike) (by rw [elided, beq_self_eq_true])

def Config.settings (byteStrings : Bool) : Config :=
  { byteStrings, definiteLengths := true, descriptors := [⟨"Settings", .keyed, none,
      [⟨"peers", some 1, [], [], false, false, some .emptyArray⟩]⟩] }

theorem Config.encode_settings :
    DeclaredDefault.emptyArray.StandsFor (.seq []) ∧
      (Config.settings false).AlwaysLeavesOut "Settings" "peers" (.seq []) ∧
      ¬(Config.settings true).AlwaysLeavesOut "Settings" "peers" (.seq []) := by
  obtain ⟨-, left⟩ := DeclaredDefault.encoded_iff .emptyArray
  refine ⟨.emptyArray, ?_, ?_⟩
  · exact (left (settings false) "Settings" "peers" rfl rfl).mpr fun astray => nomatch astray.2
  · intro always
    exact (left (settings true) "Settings" "peers" rfl rfl).mp always ⟨rfl, rfl⟩

theorem Config.encode_noPeers :
    DeclaredDefault.emptyArray.StandsFor (.seq []) ∧ (Config.settings true).encodeDefaults = false ∧
      (((Config.settings true).shape "Settings" .keyed []).elementNamed "peers").declaredDefault =
        some .emptyArray ∧
      (Config.settings true).encode (.record "Settings" [("peers", .seq [])]) = .ok [0xa1, 0x01, 0x40] ∧
      DeclaredDefault.emptyArray.encoded (Config.settings true)
        (((Config.settings true).shape "Settings" .keyed []).elementNamed "peers") = [0x80] ∧
      (Config.settings true).encode (.record "Settings" []) = .ok [0xa0] :=
  ⟨.emptyArray, rfl, rfl, rfl, rfl, rfl⟩

end TypedCbor
