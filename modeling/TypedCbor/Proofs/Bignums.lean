import TypedCbor.Proofs.Unelided

namespace TypedCbor

def failure? : Except Error α → Option Error
  | .ok _ => none
  | .error e => some e

section
variable {α β γ : Type}

theorem failure?_map (f : α → β) (result : Except Error α) : failure? (f <$> result) = failure? result := by
  cases result <;> rfl

theorem failure?_both (first : Except Error α) (second : Except Error β) (f : α → β → γ) :
    failure? (do return f (← first) (← second)) = (failure? first).or (failure? second) := by
  cases first with
  | error e => rfl
  | ok a => cases second <;> rfl

theorem failure?_mapM (f : α → Except Error β) (values : List α) :
    failure? (values.mapM f) = values.findSome? fun value => failure? (f value) := by
  induction values with
  | nil => rfl
  | cons value values ih =>
    rw [List.mapM_cons, failure?_both, ih, List.findSome?_cons]
    cases failure? (f value) <;> rfl

theorem findSome?_congr {f g : α → Option β} {values : List α} (same : ∀ value ∈ values, f value = g value) :
    values.findSome? f = values.findSome? g := by
  induction values with
  | nil => rfl
  | cons value values ih =>
    obtain ⟨here, others⟩ := List.forall_mem_cons.mp same
    rw [List.findSome?_cons, List.findSome?_cons, here, ih others]

theorem findSome?_flattened (f : α → Option β) (entries : List (α × α)) :
    (flattened entries).findSome? f = entries.findSome? fun entry => (f entry.1).or (f entry.2) := by
  induction entries with
  | nil => rfl
  | cons entry entries ih =>
    rw [flattened_cons, List.findSome?_cons, List.findSome?_cons, List.findSome?_cons, ih]
    cases f entry.1 with
    | some b => rfl
    | none => cases f entry.2 <;> rfl

end

-- The head of an integer has no more than a word for it.
def IsBignum (n : Int) : Prop := n < -2 ^ 64 ∨ 2 ^ 64 - 1 < n

instance (n : Int) : Decidable (IsBignum n) := inferInstanceAs (Decidable (_ ∨ _))

mutual
-- The integers of wide kinds in a value, in the order in which they are written.
def Value.wides : Value → List Int
  | .int .i128 n | .int .u128 n => [n]
  | .some value | .newtype value | .visited _ value | .variant _ value | .embedded value _ => value.wides
  | .seq items | .tuple items => widesOfItems items
  | .map entries => widesOfEntries entries
  | .record _ fields => widesOfFields fields
  | _ => []

def widesOfItems : List Value → List Int
  | [] => []
  | item :: rest => item.wides ++ widesOfItems rest

def widesOfEntries : List (Value × Value) → List Int
  | [] => []
  | (key, value) :: rest => key.wides ++ (value.wides ++ widesOfEntries rest)

def widesOfFields : List (String × Value) → List Int
  | [] => []
  | (_, value) :: rest => value.wides ++ widesOfFields rest
end

theorem widesOfItems_eq (items : List Value) : widesOfItems items = items.flatMap Value.wides := by
  induction items with
  | nil => rfl
  | cons item items ih => rw [widesOfItems, ih, List.flatMap_cons]

theorem widesOfEntries_eq (entries : List (Value × Value)) :
    widesOfEntries entries = (flattened entries).flatMap Value.wides := by
  induction entries with
  | nil => rfl
  | cons entry entries ih =>
    rw [flattened_cons, List.flatMap_cons, List.flatMap_cons, ← ih]
    rfl

theorem widesOfFields_eq (fields : List (String × Value)) :
    widesOfFields fields = (fields.map Prod.snd).flatMap Value.wides := by
  induction fields with
  | nil => rfl
  | cons field fields ih =>
    rw [List.map_cons, List.flatMap_cons, ← ih]
    rfl

namespace Value

theorem wides_int (kind : IntKind) (n : Int) :
    (Value.int kind n).wides = if kind.width = 128 then [n] else [] := by
  cases kind <;> rfl

theorem wides_eq {value : Value} (compound : ∀ kind n, value ≠ .int kind n) :
    value.wides = value.parts.flatMap wides := by
  cases value with
  | int kind n => exact absurd rfl (compound kind n)
  | seq items | tuple items => exact widesOfItems_eq items
  | map entries => exact widesOfEntries_eq entries
  | record name fields => exact widesOfFields_eq fields
  | some value | newtype value | visited _ value | variant _ value | embedded value _ =>
    exact (List.append_nil _).symm
  | _ => rfl

theorem mem_wides {value : Value} {n : Int} :
    n ∈ value.wides ↔ ∃ kind : IntKind, kind.width = 128 ∧ (Value.int kind n).Within value := by
  induction value using Value.induction with
  | step value ih =>
    by_cases integer : ∃ kind m, value = .int kind m
    · obtain ⟨kind, m, rfl⟩ := integer
      rw [wides_int]
      constructor
      · intro member
        split at member
        · cases List.mem_singleton.mp member
          exact ⟨kind, ‹_›, .here _⟩
        · cases member
      · rintro ⟨_, wide, within⟩
        cases within with
        | here => simp [wide]
        | inside member => cases member
    · have compound (kind : IntKind) (m : Int) (same : value = .int kind m) : False := integer ⟨kind, m, same⟩
      rw [wides_eq compound, List.mem_flatMap]
      constructor
      · rintro ⟨part, member, found⟩
        obtain ⟨kind, wide, within⟩ := (ih part member).mp found
        exact ⟨kind, wide, .inside member within⟩
      · rintro ⟨kind, wide, within⟩
        cases within with
        | here => exact absurd rfl (compound kind n)
        | inside member within => exact ⟨_, member, (ih _ member).mpr ⟨kind, wide, within⟩⟩

def complaint (value : Value) : Option Error :=
  (value.wides.find? fun n => decide (IsBignum n)).map fun n => .unsupported (.bignum n)

theorem complaint_eq {value : Value} (compound : ∀ kind n, value ≠ .int kind n) :
    value.complaint = value.parts.findSome? complaint := by
  unfold complaint
  rw [wides_eq compound, List.find?_flatMap, List.map_findSome?]
  rfl

theorem failure?_wide (n : Int) :
    failure? (Wire.wide n) = if IsBignum n then Option.some (.unsupported (.bignum n)) else Option.none := by
  have size : UInt64.size = 2 ^ 64 := rfl
  have fits (m : Nat) : IsBignum (.ofNat m) ↔ ¬m < UInt64.size := by
    simp only [IsBignum, Int.ofNat_eq_natCast]
    omega
  have fits' (m : Nat) : IsBignum (.negSucc m) ↔ ¬m < UInt64.size := by
    simp only [IsBignum, Int.negSucc_eq]
    omega
  unfold Wire.wide
  cases n with
  | ofNat m => by_cases small : m < UInt64.size <;> simp only [fits, small] <;> rfl
  | negSucc m => by_cases small : m < UInt64.size <;> simp only [fits', small] <;> rfl

theorem complaint_int (kind : IntKind) (n : Int) : (Value.int kind n).complaint = failure? (kind.item n) := by
  have found : (Value.complaint (.int .i128 n)) = failure? (Wire.wide n) := by
    rw [failure?_wide, complaint, wides_int, if_pos (show IntKind.i128.width = 128 from rfl)]
    by_cases large : IsBignum n <;> simp [large]
  cases kind with
  | i128 | u128 => exact found
  | _ => rfl

end Value

variable {config : Config}

theorem failure?_arrayAlone (values : List Value) :
    failure? (arrayAlone config values) = values.findSome? fun value => failure? (value.alone config {}) := by
  rw [arrayAlone, failure?_map, failure?_mapM]

theorem failure?_collectedAlone (values : List Value) (collected : Bytes) :
    failure? (collectedAlone config values collected) =
      values.findSome? fun value => failure? (value.alone config {}) := by
  induction values generalizing collected with
  | nil => rfl
  | cons value values ih =>
    rw [collectedAlone]
    cases octet : value.asByte with
    | none => exact (failure?_map _ _).trans (failure?_mapM _ _)
    | some byte =>
      obtain ⟨n, rfl⟩ : ∃ n, value = .int .u8 n := by
        cases value with
        | int kind n => cases kind <;> first | exact ⟨n, rfl⟩ | cases octet
        | _ => cases octet
      exact ih _

theorem failure?_sequenceAlone (values : List Value) (markers : Markers) :
    failure? (sequenceAlone config values markers) =
      values.findSome? fun value => failure? (value.alone config {}) := by
  unfold sequenceAlone
  split
  · exact failure?_collectedAlone values []
  · exact failure?_arrayAlone values

theorem Value.failure?_alone (value : Value) (markers : Markers) :
    failure? (value.alone config markers) = value.complaint := by
  induction value using Value.induction generalizing markers with
  | step value ih =>
    by_cases integer : ∃ kind n, value = .int kind n
    · obtain ⟨kind, n, rfl⟩ := integer
      rw [Value.complaint_int, Value.alone_of_plain _ (by simp)]
      rfl
    have compound (kind : IntKind) (n : Int) (same : value = .int kind n) : False := integer ⟨kind, n, same⟩
    have parts : value.parts.findSome? (fun part => failure? (part.alone config {})) = value.complaint := by
      rw [complaint_eq compound]
      exact findSome?_congr fun part member => ih part member {}
    have only (part : Value) (member : value.parts = [part]) (markers : Markers) :
        failure? (part.alone config markers) = value.complaint := by
      rw [complaint_eq compound, member, List.findSome?_singleton]
      exact ih part (by simp [member]) markers
    by_cases sequence : ∃ items, value = .seq items
    · obtain ⟨items, rfl⟩ := sequence
      rw [Value.alone_seq]
      exact (failure?_sequenceAlone items markers).trans parts
    rw [Value.alone_of_plain _ fun items same => sequence ⟨items, same⟩]
    cases value with
    | int kind n => exact absurd rfl (compound kind n)
    | seq items => exact absurd ⟨items, rfl⟩ sequence
    | tuple items => exact (failure?_arrayAlone items).trans parts
    | map entries =>
      rw [Value.composed, failure?_map, failure?_mapM, ← parts, Value.parts, findSome?_flattened]
      exact congrArg (List.findSome? · entries) (funext fun entry => failure?_both _ _ _)
    | record name fields =>
      rw [Value.composed, failure?_map, failure?_mapM, complaint_eq compound, Value.parts, List.findSome?_map]
      refine findSome?_congr fun field member => ?_
      rw [failure?_map]
      exact ih field.2 (List.mem_map_of_mem member) _
    | variant name content =>
      rw [Value.composed, failure?_map]
      exact only content rfl {}
    | embedded value serialized =>
      rw [Value.composed, failure?_map]
      exact only value rfl {}
    | some value | newtype value | visited _ value => exact only value rfl markers
    | _ => rfl

theorem eq_error_iff {result : Except Error α} {e : Error} : result = .error e ↔ failure? result = some e := by
  cases result <;> simp [failure?]

theorem Value.complaint_eq_some {value : Value} {e : Error} :
    value.complaint = Option.some e ↔
      ∃ n, (value.wides.find? fun n => decide (IsBignum n)) = Option.some n ∧ e = .unsupported (.bignum n) := by
  unfold complaint
  rw [Option.map_eq_some_iff]
  exact exists_congr fun n => and_congr_right fun _ => eq_comm

theorem Value.isSome_complaint {value : Value} :
    (∃ e, value.complaint = Option.some e) ↔ ∃ n ∈ value.wides, IsBignum n := by
  unfold complaint
  rw [← Option.isSome_iff_exists, Option.isSome_map, List.find?_isSome]
  simp

theorem Value.encode_eq_error_iff {value : Value} {encoder : Encoder} {e : Error} :
    value.encode config encoder = .error e ↔ value.complaint = Option.some e := by
  rw [← value.failure?_alone encoder.markers, eq_error_iff, Encoder.composes, failure?_map]

theorem Config.encode_eq_error_iff {value : Value} {e : Error} :
    config.encode value = .error e ↔ value.complaint = some e := by
  rw [Config.encode_eq_alone, ← value.failure?_alone {}, eq_error_iff]

-- Under any configuration a value is written unless an integer of a wide kind in it, at any depth and in any
-- position, is beyond what a head can hold. The error names the first of them in the order of writing; no structure
-- is left open, and none is ended before it began, whatever is open around the value.
theorem Config.encode_fails_iff (config : Config) (value : Value) :
    ((∃ e, config.encode value = .error e) ↔
        ∃ (kind : IntKind) (n : Int), kind.width = 128 ∧ (Value.int kind n).Within value ∧
          (n < -2 ^ 64 ∨ 2 ^ 64 - 1 < n)) ∧
      (∀ e, config.encode value = .error e →
        ∃ n, (value.wides.find? fun n => decide (n < -2 ^ 64 ∨ 2 ^ 64 - 1 < n)) = some n ∧
          e = .unsupported (.bignum n)) ∧
      (∀ count, config.encode value ≠ .error (.unsupported (.structuresOpen count))) ∧
      ∀ encoder, value.encode config encoder ≠ .error (.unsupported .endWithoutBeginning) := by
  refine ⟨?_, fun e failed => ?_, fun count failed => ?_, fun encoder failed => ?_⟩
  · simp only [encode_eq_error_iff, Value.isSome_complaint, Value.mem_wides, IsBignum]
    constructor
    · rintro ⟨n, ⟨kind, wide, within⟩, large⟩
      exact ⟨kind, n, wide, within, large⟩
    · rintro ⟨kind, n, wide, within, large⟩
      exact ⟨n, ⟨kind, wide, within⟩, large⟩
  · exact Value.complaint_eq_some.mp (encode_eq_error_iff.mp failed)
  · obtain ⟨n, -, other⟩ := Value.complaint_eq_some.mp (encode_eq_error_iff.mp failed)
    cases other
  · obtain ⟨n, -, other⟩ := Value.complaint_eq_some.mp (Value.encode_eq_error_iff.mp failed)
    cases other

-- Of two that are too large the first one counts, though it is in a field that might be left out.
example :
    Config.readings.encode (.record "Reading"
      [("at", .seq [.int .u8 1, .int .i128 (2 ^ 64)]), ("octets", .embedded (.int .u128 (2 ^ 65)) none)]) =
      .error (.unsupported (.bignum (2 ^ 64))) := by rfl

end TypedCbor
