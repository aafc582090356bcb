import TypedCbor.Proofs.Acceptance.Scalars
import TypedCbor.Proofs.Encoding
import TypedCbor.Proofs.Shape

namespace TypedCbor

def OpenStructure.left (s : OpenStructure) : Option Nat :=
  s.remaining.map fun count => if s.shape.header.1 = .map then 2 * count + s.isAtValue.toNat else count

structure Passes (count : Nat) (s s' : OpenStructure) : Prop where
  shape : s'.shape = s.shape
  left : s.left = s'.left.map (count + ·)
  parity : s.shape.header.1 = .map → (s.isAtValue.toNat + count) % 2 = s'.isAtValue.toNat

theorem Passes.refl (s : OpenStructure) : Passes 0 s s := by
  refine ⟨rfl, ?_, fun _ => ?_⟩
  · simp
  · cases s.isAtValue <;> rfl

theorem Passes.trans {count count' : Nat} {s s₁ s₂ : OpenStructure} (first : Passes count s s₁)
    (second : Passes count' s₁ s₂) : Passes (count + count') s s₂ := by
  refine ⟨second.shape.trans first.shape, ?_, fun map => ?_⟩
  · rw [first.left, second.left]
    cases s₂.left with
    | none => rfl
    | some left => exact congrArg some (Nat.add_assoc count count' left).symm
  · have here := first.parity map
    have there := second.parity (first.shape ▸ map)
    omega

section
variable {shape : Shape} {remaining : Option Nat} {index : Nat}

theorem Shape.header_of_array (list : shape.kind ≠ .map) (unkeyed : shape.hasKeys = false) :
    shape.header.1 = .array := by
  simp [Shape.header, list, unkeyed]

theorem OpenStructure.isAtValue_of_other (other : shape.kind ≠ .map) (remaining : Option Nat) (index : Nat) :
    OpenStructure.isAtValue ⟨shape, remaining, index⟩ = false := by
  simp [isAtValue, other]

theorem passes_advanced_key (keyed : shape.hasKeys = true) (more : remaining ≠ some 0) :
    Passes 2 ⟨shape, remaining, index⟩ (OpenStructure.advanced ⟨shape, remaining, index⟩) := by
  have header : shape.header.1 = .map := by simp [Shape.header, keyed]
  have between := Decoder.isAtValue_of_keyed keyed
  refine ⟨rfl, ?_, fun _ => ?_⟩
  · simp only [OpenStructure.left, OpenStructure.advanced, between, header]
    cases remaining with
    | none => rfl
    | some count =>
      simp only [ne_eq, Option.some.injEq] at more
      simp
      omega
  · simp [OpenStructure.advanced, between]

theorem passes_advanced_item (other : shape.kind ≠ .map) (unkeyed : shape.hasKeys = false)
    (more : remaining ≠ some 0) :
    Passes 1 ⟨shape, remaining, index⟩ (OpenStructure.advanced ⟨shape, remaining, index⟩) := by
  have header := Shape.header_of_array other unkeyed
  have between := OpenStructure.isAtValue_of_other other
  refine ⟨rfl, ?_, fun map => absurd (map.symm.trans header) (by decide)⟩
  simp only [OpenStructure.left, OpenStructure.advanced, between, header]
  cases remaining with
  | none => rfl
  | some count =>
    simp only [ne_eq, Option.some.injEq] at more
    simp
    omega

theorem passes_advanced_data (data : shape.kind = .map)
    (more : OpenStructure.isAtValue ⟨shape, remaining, index⟩ = false → remaining ≠ some 0) :
    Passes 1 ⟨shape, remaining, index⟩ (OpenStructure.advanced ⟨shape, remaining, index⟩) := by
  have header : shape.header.1 = .map := by simp [Shape.header, data]
  have parity (count : Option Nat) (n : Nat) : (OpenStructure.mk shape count n).isAtValue = (n % 2 == 1) := by
    simp [OpenStructure.isAtValue, data]
  simp only [parity] at more
  rcases Nat.mod_two_eq_zero_or_one index with even | odd
  · have next : (index + 1) % 2 = 1 := by omega
    refine ⟨rfl, ?_, fun _ => ?_⟩
    · simp only [OpenStructure.left, OpenStructure.advanced, parity, header, even, next]
      cases remaining with
      | none => rfl
      | some count =>
        have some := more (by simp [even])
        simp only [ne_eq, Option.some.injEq] at some
        simp
        omega
    · simp [OpenStructure.advanced, parity, even, next]
  · have next : (index + 1) % 2 = 0 := by omega
    refine ⟨rfl, ?_, fun _ => ?_⟩
    · simp only [OpenStructure.left, OpenStructure.advanced, parity, header, odd, next]
      cases remaining with
      | none => rfl
      | some count =>
        simp
        omega
    · simp [OpenStructure.advanced, parity, odd, next]

end

theorem passes_advanced {s : OpenStructure} (unkeyed : s.shape.hasKeys = false)
    (more : s.isAtValue = false → s.remaining ≠ some 0) : Passes 1 s s.advanced := by
  by_cases data : s.shape.kind = .map
  · exact passes_advanced_data data more
  · exact passes_advanced_item data unkeyed (more (OpenStructure.isAtValue_of_other data _ _))

def ItemsBetween (s : OpenStructure) (decoder : Decoder) (s' : OpenStructure) (after : Decoder) : Prop :=
  ∃ items : List Item, (∀ item ∈ items, item.Sound) ∧ decoder.rest = itemsBytes items ++ after.rest ∧
    Passes items.length s s'

-- What the reader of the inside of a structure takes from here are sound items. It does not stop between a key
-- and its value.
def ItemsFrom (s : OpenStructure) (inside : DecodeM (α × OpenStructure)) (decoder : Decoder) : Prop :=
  ∀ a s' after, outcome inside decoder = .ok ((a, s'), after) →
    s'.isAtValue = false ∧ ItemsBetween s decoder s' after

namespace Decoder

variable {config : Config}

theorem key_of_announced (strict : config.ignoreUnknownKeys = false) {s s₁ : OpenStructure}
    (keyed : s.shape.hasKeys = true) {decoder after : Decoder} {next : Option Nat}
    (found : outcome (nextElement config s) decoder = .ok ((next, s₁), after)) :
    (next = none ∧ s₁ = s ∧ after.rest = decoder.rest) ∨
      ∃ (index : Nat) (key : Item), next = some index ∧ s₁ = s.advanced ∧ s.remaining ≠ some 0 ∧
        key.Sound ∧ decoder.rest = key.bytes ++ after.rest ∧ index < s.shape.elements.length := by
  rw [nextElement, if_pos keyed, outcome_bind, outcome_get, ok_bind] at found
  cases keyRound_of_nextByKey found with
  | ended => exact .inl ⟨rfl, rfl, rfl⟩
  | passed _ _ _ _ ignores =>
    rw [strict] at ignores
    cases ignores
  | @announced _ _ _ _ index more tagged named resolved accepts =>
    obtain ⟨item, formed, -, told, spelled⟩ := Cursor.key_of_readKey tagged named
    exact .inr ⟨index, item, rfl, rfl, more (isAtValue_of_keyed keyed _ _), sound_of_key formed told, spelled,
      Key.resolve_lt resolved⟩

theorem keys_of_announced (strict : config.ignoreUnknownKeys = false) {s s₁ : OpenStructure}
    {decoder after : Decoder} {next : Option Nat}
    (found : outcome (nextElement config s) decoder = .ok ((next, s₁), after)) :
    (next = none ∧ s₁ = s ∧ after.rest = decoder.rest ∧ s.isAtValue = false) ∨
      ∃ (index : Nat) (keys : List Item), next = some index ∧ (∀ key ∈ keys, key.Sound) ∧
        decoder.rest = itemsBytes keys ++ after.rest ∧ Passes (keys.length + 1) s s₁ := by
  by_cases keyed : s.shape.hasKeys = true
  · rcases key_of_announced strict keyed found with
      ⟨none, same, kept⟩ | ⟨index, key, some, rfl, more, sound, spelled, -⟩
    · exact .inl ⟨none, same, kept, isAtValue_of_keyed keyed _ _⟩
    · exact .inr ⟨index, [key], some, by simpa using sound, by simpa [itemsBytes] using spelled,
        passes_advanced_key keyed more⟩
  · have unkeyed := Bool.eq_false_iff.mpr keyed
    obtain ⟨kept, ⟨none, same, between, -⟩ | ⟨some, rfl, more⟩⟩ := next_of_unkeyed unkeyed found
    · exact .inl ⟨none, same, kept, between⟩
    · exact .inr ⟨s.index, [], some, by simp, kept.symm, passes_advanced unkeyed more⟩

theorem ended_of_announced (strict : config.ignoreUnknownKeys = false) {s s₁ : OpenStructure} {decoder after : Decoder}
    (found : outcome (nextElement config s) decoder = .ok ((none, s₁), after)) :
    s.isAtValue = false ∧ s₁ = s ∧ after.rest = decoder.rest := by
  rcases keys_of_announced strict found with ⟨-, same, kept, between⟩ | ⟨_, _, some, -⟩
  · exact ⟨between, same, kept⟩
  · cases some

end Decoder

open Decoder

section
variable {config : Config} {β ι : Type} {part : List Nat → Nat → Option Ty} {others : List Nat} {s : OpenStructure}
  {decoder : Decoder}

theorem ItemsBetween.element (strict : config.ignoreUnknownKeys = false) {s₁ s' : OpenStructure}
    {inner behind after : Decoder} {index : Nat}
    (announced : outcome (nextElement config s) decoder = .ok ((some index, s₁), inner)) {item : Item}
    (here : item.Sound) (spelled : inner.rest = item.bytes ++ behind.rest)
    (others : ItemsBetween s₁ behind s' after) : ItemsBetween s decoder s' after := by
  obtain ⟨items, sound, spelled', passes⟩ := others
  rcases keys_of_announced strict announced with ⟨none, -⟩ | ⟨_, keys, -, keysSound, keysSpelled, step⟩
  · cases none
  · refine ⟨keys ++ item :: items, ?_, ?_, ?_⟩
    · intro other member
      rcases List.mem_append.mp member with key | behind
      · exact keysSound other key
      · exact List.forall_mem_cons.mpr ⟨here, sound⟩ other behind
    · rw [keysSpelled, spelled, spelled', itemsBytes_append, itemsBytes]
      simp only [List.append_assoc]
    · have total : (keys ++ item :: items).length = keys.length + 1 + items.length := by
        simp only [List.length_append, List.length_cons]
        omega
      rw [total]
      exact step.trans passes

def SpellsElements (config : Config) (part : List Nat → Nat → Option Ty) (others : List Nat) (s : OpenStructure)
    (decoder : Decoder) : Prop :=
  ∀ others' s₁ decoder₁ index s₂ inner type, Walk config part others s decoder others' s₁ decoder₁ →
    outcome (nextElement config s₁) decoder₁ = .ok ((some index, s₂), inner) → part others' index = some type →
      SpellsAt Item.Sound (type.read config) inner

theorem SpellsElements.here (each : SpellsElements config part others s decoder) {index : Nat} {s₁ : OpenStructure}
    {inner : Decoder} {type : Ty} (announced : outcome (nextElement config s) decoder = .ok ((some index, s₁), inner))
    (known : part others index = some type) : SpellsAt Item.Sound (type.read config) inner :=
  each others s decoder index s₁ inner type .done announced known

theorem SpellsElements.next (each : SpellsElements config part others s decoder) {index : Nat} {s₁ : OpenStructure}
    {inner after : Decoder} {type : Ty} {value : Value}
    (announced : outcome (nextElement config s) decoder = .ok ((some index, s₁), inner))
    (known : part others index = some type) (read : outcome (type.read config) inner = .ok (value, after)) :
    SpellsElements config part (index :: others) s₁ after :=
  fun _ _ _ _ _ _ _ walk => each _ _ _ _ _ _ _ (.next announced known read walk)

-- A loop stops where it is, but not between a key and its value, or it goes on with an element that is one of
-- its parts.
structure Stops (config : Config) (part : List Nat → Nat → Option Ty) (fits : ι → List Nat → OpenStructure → Prop)
    (loop : ι → OpenStructure → DecodeM (β × OpenStructure)) : Prop where
  step : ∀ {x others s decoder b s' after}, fits x others s → outcome (loop x s) decoder = .ok ((b, s'), after) →
    (s.isAtValue = false ∧ s' = s ∧ after.rest = decoder.rest) ∨
      ∃ index s₁ inner type, outcome (nextElement config s) decoder = .ok ((some index, s₁), inner) ∧
        part others index = some type

variable {fits : ι → List Nat → OpenStructure → Prop} {loop : ι → OpenStructure → DecodeM (β × OpenStructure)}

theorem itemsFrom_loop (strict : config.ignoreUnknownKeys = false) (unrolls : Unrolls config part fits loop)
    (stops : Stops config part fits loop) {x : ι} (fit : fits x others s)
    (each : SpellsElements config part others s decoder) : ItemsFrom s (loop x s) decoder := by
  intro b s' after found
  induction length : decoder.rest.length using Nat.strong_induction_on generalizing x others s decoder b with
  | _ total ih =>
    rcases stops.step fit found with ⟨between, rfl, kept⟩ | ⟨index, s₁, inner, type, announced, known⟩
    · exact ⟨between, [], by simp, by rw [kept]; rfl, .refl s'⟩
    · obtain ⟨x', add, fits', law⟩ := unrolls.step fit known ⟨_, _, announced⟩
      rw [law _ _ announced] at found
      obtain ⟨⟨value, behind⟩, read, found⟩ := bind_eq_ok.mp found
      obtain ⟨⟨⟨_, _⟩, _⟩, goes, same⟩ := map_eq_ok.mp found
      cases same
      have first := length_le_of_nextElement announced
      have second := type.delimits.moves config _ _ _ read
      obtain ⟨item, here, spelled⟩ := each.here announced known _ _ read
      obtain ⟨between, others⟩ :=
        ih behind.rest.length (by omega) (fits' value) (each.next announced known read) _ goes rfl
      exact ⟨between, .element strict announced here spelled others⟩

theorem stops_elements (strict : config.ignoreUnknownKeys = false) (type : Ty) :
    Stops config (fun _ _ => some type) (fun (_ : Unit) _ _ => True) fun _ s =>
      readElements config (type.read config) s := by
  refine ⟨fun {x others s decoder b s' after} _ found => ?_⟩
  change outcome (elementRounds config _ (decoder.rest.length + 1) s) decoder = _ at found
  rw [elementRounds] at found
  obtain ⟨⟨⟨next, s₁⟩, inner⟩, announced, found⟩ := bind_eq_ok.mp (outcome_bind .. ▸ found)
  cases next with
  | none =>
    cases found
    exact .inl (ended_of_announced strict announced)
  | some index => exact .inr ⟨index, s₁, inner, type, announced, rfl⟩

theorem stops_entries (strict : config.ignoreUnknownKeys = false) (keys values : Ty) :
    Stops config (fun _ index => some (if index % 2 = 0 then keys else values))
      (fun (x : Option Value) _ s => s.shape = .map ∧ s.index % 2 = if x.isSome then 1 else 0)
      (entriesFrom config (keys.read config) (values.read config)) := by
  refine ⟨fun {x others s decoder b s' after} _ found => ?_⟩
  cases x with
  | none =>
    change outcome (entryRounds config _ _ (decoder.rest.length + 1) s) decoder = _ at found
    rw [entryRounds] at found
    obtain ⟨⟨⟨next, s₁⟩, inner⟩, announced, found⟩ := bind_eq_ok.mp (outcome_bind .. ▸ found)
    cases next with
    | none =>
      cases found
      exact .inl (ended_of_announced strict announced)
    | some index => exact .inr ⟨index, s₁, inner, _, announced, rfl⟩
  | some k =>
    rw [entriesFrom, entryValue] at found
    obtain ⟨⟨⟨next, s₁⟩, inner⟩, announced, found⟩ := bind_eq_ok.mp (outcome_bind .. ▸ found)
    cases next with
    | none => cases found
    | some index => exact .inr ⟨index, s₁, inner, _, announced, rfl⟩

theorem stops_fill (expected : String) (types : List Ty) :
    Stops config (fun _ index => types[index]?) (fun (filled : Nat) _ s => s.shape = .list ∧ s.index = filled)
      fun filled s => fillFromElements config expected filled ((slots config types).drop filled) s := by
  refine ⟨fun {filled others s decoder b s' after} fit found => ?_⟩
  obtain ⟨list, rfl⟩ := fit
  by_cases inside : s.index < types.length
  · rw [drop_slots_of_lt config inside, fillFromElements] at found
    obtain ⟨⟨⟨next, s₁⟩, inner⟩, announced, found⟩ := bind_eq_ok.mp (outcome_bind .. ▸ found)
    cases next with
    | none => cases found
    | some index =>
      obtain ⟨rfl, -⟩ := index_of_unkeyed (by rw [list]; rfl) announced
      exact .inr ⟨_, s₁, inner, _, announced, List.getElem?_eq_getElem inside⟩
  · rw [drop_slots_of_le config (Nat.le_of_not_lt inside)] at found
    cases found
    have between : s.isAtValue = false := OpenStructure.isAtValue_of_other (by rw [list]; decide) _ _
    exact .inl ⟨between, rfl, rfl⟩

theorem eq_of_takeFields_ended {expected : String} {s s' : OpenStructure} (unkeyed : s.shape.hasKeys = false)
    {fields : List (FieldReader (DecodeM Value))} {taken : Nat} {decoder after : Decoder}
    (ended : outcome (isExhausted s) decoder.rest = .ok (true, decoder.rest)) {b : List (String × Value)}
    (found : outcome (takeFields config expected taken fields s) decoder = .ok ((b, s'), after)) :
    s' = s ∧ after.rest = decoder.rest := by
  induction fields generalizing taken decoder b with
  | nil =>
    cases found
    exact ⟨rfl, rfl⟩
  | cons field fields ih =>
    have announced : outcome (nextElement config s) decoder = .ok ((none, s), { decoder with field := none }) := by
      rw [nextElement, if_neg (by simp [unkeyed]), nextByPosition, outcome_bind, outcome_cursor, ended]
      rfl
    rw [takeFields, outcome_bind, announced, ok_bind] at found
    dsimp only at found
    cases put : field.fallback with
    | none =>
      rw [put] at found
      cases found
    | some value =>
      rw [put] at found
      obtain ⟨⟨⟨values, _⟩, _⟩, goes, same⟩ := bind_eq_ok.mp (outcome_bind .. ▸ found)
      cases same
      exact @ih _ { decoder with field := none } ended _ goes

theorem stops_places (expected : String) (fields : List (Field Ty)) {shape : Shape} (kind : shape.kind = .keyed)
    (framed : shape.isArrayFramed = true) :
    Stops config (fun _ index => (fields[index]?).map Field.type)
      (fun (taken : Nat) _ s => s.shape = shape ∧ s.index = taken) fun taken s =>
        takeFields config expected taken ((fieldReaders config fields).drop taken) s := by
  refine ⟨fun {taken others s decoder b s' after} fit found => ?_⟩
  obtain ⟨rfl, rfl⟩ := fit
  have between : s.isAtValue = false := OpenStructure.isAtValue_of_other (by rw [kind]; decide) _ _
  have unkeyed : s.shape.hasKeys = false := by simp [Shape.hasKeys, framed]
  by_cases inside : s.index < fields.length
  · have whole := found
    rw [drop_fieldReaders_of_lt config inside, takeFields] at found
    obtain ⟨⟨⟨next, s₁⟩, inner⟩, announced, -⟩ := bind_eq_ok.mp (outcome_bind .. ▸ found)
    cases next with
    | none =>
      rw [nextElement, if_neg (by simp [unkeyed]), nextByPosition] at announced
      obtain ⟨⟨ended, _⟩, looked, announced⟩ := bind_eq_ok.mp (outcome_bind .. ▸ announced)
      cases ended with
      | false => cases announced
      | true =>
        obtain ⟨rest, peeked, -⟩ := rest_of_cursor looked
        obtain ⟨rfl, -⟩ := eq_of_isExhausted peeked
        exact .inl ⟨between, eq_of_takeFields_ended unkeyed peeked whole⟩
    | some index =>
      obtain ⟨rfl, -⟩ := index_of_unkeyed unkeyed announced
      exact .inr ⟨_, s₁, inner, fields[s.index].type, announced, by simp [inside]⟩
  · rw [drop_fieldReaders_of_le config (Nat.le_of_not_lt inside)] at found
    cases found
    exact .inl ⟨between, rfl, rfl⟩

theorem stops_fields (strict : config.ignoreUnknownKeys = false) (name expected : String) (fields : List (Field Ty))
    (plain : (config.recordShape name fields).isArrayFramed = false) :
    Stops config (Target.part config (.record name expected fields))
      (fun (seen : List (String × Value)) others s => s.shape = config.recordShape name fields ∧
        Placed (config.recordShape name fields) fields seen others)
      (placeFields config (fieldReaders config fields)) := by
  refine ⟨fun {seen others s decoder b s' after} fit found => ?_⟩
  obtain ⟨shape, placed⟩ := fit
  obtain ⟨⟨⟨next, s₁⟩, inner⟩, announced, found⟩ := bind_eq_ok.mp (placeFields_eq .. ▸ found)
  cases next with
  | none =>
    obtain ⟨_, -, same⟩ := map_eq_ok.mp found
    cases same
    exact .inl (ended_of_announced strict announced)
  | some index =>
    have shape' := (shape_of_nextElement announced).trans shape
    refine .inr ⟨index, s₁, inner, ?_⟩
    simp only [Target.part, plain, Bool.false_eq_true, if_false]
    rw [placeAnnounced, shape'] at found
    cases place : fields.find? (·.name == (config.recordShape name fields).elementName index) with
    | none => exact ⟨_, announced, rfl⟩
    | some field =>
      rw [place] at found
      dsimp only at found
      have named : field.name = (config.recordShape name fields).elementName index := by
        simpa using List.find?_some place
      have same := placed field (List.mem_of_find?_eq_some place)
      rw [named] at same
      rw [same] at found
      split at found
      · cases found
      · rename_i fresh
        exact ⟨field.type, announced, if_neg fresh⟩

end

namespace Decoder

variable {config : Config} {α : Type}

theorem readOut_of_passes {s s' : OpenStructure} {count : Nat} (passes : Passes count s s')
    (start : s.isAtValue = false) (stop : s'.isAtValue = false) (ended : s'.remaining = some 0 ∨ s'.remaining = none) :
    (s.shape.header.1 = .map → ∃ entries, count = 2 * entries ∧ ReadOut s.remaining s'.remaining entries) ∧
      (s.shape.header.1 ≠ .map → ReadOut s.remaining s'.remaining count) := by
  rcases ended with none | opens
  · have left : s.left = some count := by
      rw [passes.left]
      simp [OpenStructure.left, none, stop]
    obtain ⟨total, counted, same⟩ := Option.map_eq_some_iff.mp left
    refine ⟨fun map => ⟨total, ?_, .inr ⟨counted, none⟩⟩, fun list => .inr ⟨?_, none⟩⟩
    · rw [if_pos map, start] at same
      exact same.symm
    · rw [if_neg list] at same
      rw [counted, same]
  · have left : s.left = none := by
      rw [passes.left]
      simp [OpenStructure.left, opens]
    have opens' : s.remaining = none := Option.map_eq_none_iff.mp left
    refine ⟨fun map => ⟨count / 2, ?_, .inl ⟨opens', opens⟩⟩, fun _ => .inl ⟨opens', opens⟩⟩
    have even := passes.parity map
    rw [start, stop] at even
    simp only [Bool.toNat_false] at even
    omega

theorem soundBehind_enclosed {shape : Shape} {read : OpenStructure → DecodeM (α × OpenStructure)} {major : Major}
    {head? : Option Head} {own : List UInt64} {inside : Decoder} (fits : ∀ head ∈ head?, head.Fits)
    (parts : ∀ s, opened config shape (openingHeader major head?) own = .ok s → ItemsFrom s (read s) inside) :
    SoundBehind (enclosed config shape read (openingHeader major head?, own)) major head? inside := by
  intro a after found
  obtain ⟨⟨s, _⟩, begun, goes⟩ := bind_eq_ok.mp (outcome_bind .. ▸ found)
  obtain ⟨_, opens, same⟩ := map_eq_ok.mp (outcome_ofExcept .. ▸ begun)
  cases same
  obtain ⟨known, rfl⟩ := eq_of_opened opens
  obtain ⟨⟨⟨_, s'⟩, between⟩, taken, goes⟩ := bind_eq_ok.mp (outcome_bind .. ▸ goes)
  obtain ⟨⟨⟨⟩, _⟩, ended, same⟩ := bind_eq_ok.mp (outcome_bind .. ▸ goes)
  cases same
  obtain ⟨stop, items, sound, spelled, passes⟩ := parts _ opens _ s' between taken
  obtain ⟨asMap, asArray⟩ := readOut_of_passes passes (by simp [OpenStructure.isAtValue]) stop
    ((eq_of_endStructure ended).imp And.left And.left)
  have kind : major = shape.header.1 := (openingHeader_major major fits).symm.trans known
  by_cases map : shape.header.1 = .map
  · obtain ⟨count, even, readOut⟩ := asMap map
    obtain ⟨entries, rfl, rfl⟩ := exists_entries even
    obtain ⟨framing, rfl, closes⟩ := framing_of_enclosed fits readOut ended
    refine ⟨.map framing entries, rfl, (kind.trans map).symm, Item.sound_of_parts ?_ trivial sound, ?_⟩
    · exact ⟨by simp, fits, by simp [Body.chunks], by simp⟩
    · rw [spelled, closes, Body.content, entriesBytes_eq, List.append_assoc]
  · have array : shape.header.1 = .array := by
      unfold Shape.header at map ⊢
      split
      · rename_i isMap
        rw [if_pos isMap] at map
        exact absurd rfl map
      · rfl
    obtain ⟨framing, rfl, closes⟩ := framing_of_enclosed fits (asArray map) ended
    refine ⟨.array framing items, rfl, (kind.trans array).symm, Item.sound_of_parts ?_ trivial sound, ?_⟩
    · exact ⟨by simp, fits, by simp [Body.chunks], by simp⟩
    · rw [spelled, closes, Body.content, List.append_assoc]

theorem begun_of_opened {shape : Shape} {header : Header} {own : List UInt64} {s : OpenStructure}
    {decoder inside : Decoder} (read : outcome (readHeader config) decoder = .ok ((header, own), inside))
    (opens : opened config shape header own = .ok s) :
    outcome (beginStructure config shape) decoder = .ok (s, inside) := by
  rw [beginStructure, outcome_bind, read, ok_bind]
  exact (outcome_ofExcept ..).trans (congrArg _ opens)

theorem spellsAt_enclosed {shape : Shape} {read : OpenStructure → DecodeM (α × OpenStructure)} {decoder : Decoder}
    (parts : ∀ s inside, outcome (beginStructure config shape) decoder = .ok (s, inside) →
      ItemsFrom s (read s) inside) :
    SpellsAt Item.Sound (readHeader config >>= enclosed config shape read) decoder :=
  spellsAt_readHeader fun _ _ _ inside fits read => soundBehind_enclosed fits fun s opens =>
    parts s inside (begun_of_opened read opens)

theorem spellsAt_readSequence {ofBytes : Bytes → Except Error (List Value)}
    {read : OpenStructure → DecodeM (List Value × OpenStructure)} {decoder : Decoder}
    (parts : ∀ s inside, outcome (beginStructure config .list) decoder = .ok (s, inside) →
      ItemsFrom s (read s) inside) :
    SpellsAt Item.Sound (readSequence config ofBytes read) decoder := by
  rw [readSequence_eq]
  refine spellsAt_readHeader fun major head? own inside fits opening => ?_
  dsimp only
  rw [openingHeader_major major fits]
  by_cases bytes : major = .bytes
  · subst bytes
    rw [if_pos rfl]
    exact (soundBehind_bytes fits).andThen fun _ => idle_ofExcept _
  · rw [if_neg bytes]
    exact soundBehind_enclosed fits fun s opens => parts s inside (begun_of_opened opening opens)

end Decoder

theorem Target.spellsAt_frame {config : Config} (strict : config.ignoreUnknownKeys = false)
    (keyed : ∀ descriptor ∈ config.descriptors, descriptor.kind = .keyed) {target : Target} {shape : Shape}
    (framed : target.frame config = some shape) {decoder : Decoder}
    (each : ∀ s inside, outcome (beginStructure config shape) decoder = .ok (s, inside) →
      SpellsElements config (target.part config) [] s inside) :
    SpellsAt Item.Sound (target.read config) decoder := by
  cases target with
  | tuple expected types =>
    cases framed
    refine (spellsAt_readSequence fun s inside begun => ?_).map Value.tuple
    obtain ⟨_, rfl⟩ := eq_of_begun begun
    exact itemsFrom_loop strict (unrolls_fill config expected types) (stops_fill expected types) ⟨rfl, rfl⟩
      (each _ inside begun)
  | record name expected fields =>
    cases framed
    have kind : (config.recordShape name fields).kind = .keyed := Config.kind_shape keyed name _
    rw [Target.read, readRecord_eq, map_name_fieldReaders, length_fieldReaders, ← map_bind]
    refine SpellsAt.map (spellsAt_enclosed fun s inside begun => ?_) (Value.record name)
    have begins := each s inside begun
    obtain ⟨_, rfl⟩ := eq_of_begun begun
    by_cases array : (config.recordShape name fields).isArrayFramed = true
    · rw [Target.part_of_array array] at begins
      rw [if_pos (show (config.shape name .keyed (fields.map Field.name)).isArrayFramed = true from array)]
      exact itemsFrom_loop strict (unrolls_places config _ fields array) (stops_places _ fields kind array)
        ⟨rfl, rfl⟩ begins
    · have plain := Bool.eq_false_iff.mpr array
      rw [if_neg (show ¬(config.shape name .keyed (fields.map Field.name)).isArrayFramed = true from array)]
      exact itemsFrom_loop strict (unrolls_fields config name expected fields plain)
        (stops_fields strict name expected fields plain) (x := []) ⟨rfl, fun _ _ => rfl⟩ begins
  | value type =>
    cases type with
    | seq type =>
      cases framed
      refine (spellsAt_readSequence fun s inside begun => ?_).map Value.seq
      exact itemsFrom_loop strict (unrolls_elements config type) (stops_elements strict type) (x := ()) trivial
        (each s inside begun)
    | map keys values =>
      cases framed
      rw [Target.read, Ty.read, readMap_eq]
      refine SpellsAt.map (spellsAt_enclosed fun s inside begun => ?_) Value.map
      have begins := each s inside begun
      obtain ⟨_, rfl⟩ := eq_of_begun begun
      exact itemsFrom_loop strict (unrolls_entries config keys values) (stops_entries strict keys values) (x := none)
        ⟨rfl, rfl⟩ begins
    | _ => cases framed

end TypedCbor
