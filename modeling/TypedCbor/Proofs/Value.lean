import TypedCbor.Proofs.Item
import TypedCbor.Value

namespace TypedCbor.Value

def parts : Value → List Value
  | some value | newtype value | variant _ value | embedded value _ | visited _ value => [value]
  | seq items | tuple items => items
  | map entries => flattened entries
  | record _ fields => fields.map Prod.snd
  | _ => []

theorem induction {P : Value → Prop} (step : ∀ value, (∀ part ∈ value.parts, P part) → P value)
    (value : Value) : P value := by
  refine @Value.rec P (fun values => ∀ value ∈ values, P value)
    (fun entries => ∀ entry ∈ entries, P entry.1 ∧ P entry.2)
    (fun fields => ∀ field ∈ fields, P field.2) (fun entry => P entry.1 ∧ P entry.2)
    (fun field => P field.2)
    ?bool ?int ?single ?double ?char ?text ?bytes ?unit ?none ?some ?newtype ?seq ?tuple ?map ?record
    ?unitVariant ?variant ?embedded ?visited ?noItem ?items ?noEntry ?entries ?noField ?fields ?entry
    ?field value
  case some | newtype =>
    intro value ih
    exact step _ (by simpa [parts] using ih)
  case variant | visited =>
    intro _ value ih
    exact step _ (by simpa [parts] using ih)
  case embedded =>
    intro value _ ih
    exact step _ (by simpa [parts] using ih)
  case seq | tuple => exact fun items ih => step _ ih
  case map =>
    intro entries ih
    refine step _ fun part member => ?_
    obtain ⟨entry, present, rfl | rfl⟩ := mem_flattened.mp member
    · exact (ih entry present).1
    · exact (ih entry present).2
  case record =>
    intro name fields ih
    refine step _ fun part member => ?_
    obtain ⟨field, present, rfl⟩ := List.mem_map.mp member
    exact ih field present
  case bool | single | double | char | text | bytes | unitVariant =>
    exact fun _ => step _ (by simp [parts])
  case int => exact fun _ _ => step _ (by simp [parts])
  case unit | none => exact step _ (by simp [parts])
  case items | entries | fields =>
    intro first others holds ih
    exact List.forall_mem_cons.mpr ⟨holds, ih⟩
  case entry => exact fun _ _ key value => ⟨key, value⟩
  case field => exact fun _ _ ih => ih
  case noItem | noEntry | noField => simp

-- Equality is not derived for a nested type. This one is run by the kernel, and with it what is read of an input.
mutual
def same : Value → Value → Bool
  | .bool value, .bool value' => value == value'
  | .int kind n, .int kind' n' => kind == kind' && n == n'
  | .single bits, .single bits' => bits == bits'
  | .double bits, .double bits' => bits == bits'
  | .char c, .char c' => c == c'
  | .text content, .text content' => content == content'
  | .bytes content, .bytes content' => content == content'
  | .unit, .unit | .none, .none => true
  | .some value, .some value' | .newtype value, .newtype value' => value.same value'
  | .seq items, .seq items' | .tuple items, .tuple items' => sameItems items items'
  | .map entries, .map entries' => sameEntries entries entries'
  | .record name fields, .record name' fields' => name == name' && sameFields fields fields'
  | .unitVariant name, .unitVariant name' => name == name'
  | .variant name content, .variant name' content' => name == name' && content.same content'
  | .embedded value serialized, .embedded value' serialized' => serialized == serialized' && value.same value'
  | .visited how value, .visited how' value' => how == how' && value.same value'
  | _, _ => false

def sameItems : List Value → List Value → Bool
  | [], [] => true
  | value :: values, value' :: values' => value.same value' && sameItems values values'
  | _, _ => false

def sameEntries : List (Value × Value) → List (Value × Value) → Bool
  | [], [] => true
  | (key, value) :: entries, (key', value') :: entries' =>
    key.same key' && value.same value' && sameEntries entries entries'
  | _, _ => false

def sameFields : List (String × Value) → List (String × Value) → Bool
  | [], [] => true
  | (name, value) :: fields, (name', value') :: fields' =>
    name == name' && value.same value' && sameFields fields fields'
  | _, _ => false
end

theorem sameItems_iff {items : List Value}
    (each : ∀ value ∈ items, ∀ other, value.same other = true ↔ value = other) (others : List Value) :
    sameItems items others = true ↔ items = others := by
  induction items generalizing others with
  | nil => cases others <;> simp [sameItems]
  | cons first items ih =>
    obtain ⟨here, later⟩ := List.forall_mem_cons.mp each
    cases others with
    | nil => simp [sameItems]
    | cons other others => simp [sameItems, here, ih later]

theorem sameEntries_iff {entries : List (Value × Value)}
    (each : ∀ value ∈ flattened entries, ∀ other, value.same other = true ↔ value = other)
    (others : List (Value × Value)) : sameEntries entries others = true ↔ entries = others := by
  induction entries generalizing others with
  | nil => cases others <;> simp [sameEntries]
  | cons first entries ih =>
    obtain ⟨key, value⟩ := first
    simp only [flattened_cons, List.forall_mem_cons] at each
    obtain ⟨keyHere, valueHere, later⟩ := each
    cases others with
    | nil => simp [sameEntries]
    | cons other others =>
      obtain ⟨key', value'⟩ := other
      simp [sameEntries, keyHere, valueHere, ih later]

theorem sameFields_iff {fields : List (String × Value)}
    (each : ∀ value ∈ fields.map Prod.snd, ∀ other, value.same other = true ↔ value = other)
    (others : List (String × Value)) : sameFields fields others = true ↔ fields = others := by
  induction fields generalizing others with
  | nil => cases others <;> simp [sameFields]
  | cons first fields ih =>
    obtain ⟨name, value⟩ := first
    simp only [List.map_cons, List.forall_mem_cons] at each
    obtain ⟨here, later⟩ := each
    cases others with
    | nil => simp [sameFields]
    | cons other others =>
      obtain ⟨name', value'⟩ := other
      simp [sameFields, here, ih later]

theorem same_iff (value other : Value) : value.same other = true ↔ value = other := by
  induction value using Value.induction generalizing other with
  | step value ih =>
    cases value with
    | some inner | newtype inner | variant _ inner | visited _ inner =>
      have here := ih inner (by simp [parts])
      cases other <;> simp [same, here]
    | embedded inner serialized =>
      have here := ih inner (by simp [parts])
      cases other <;> simp [same, here, and_comm]
    | seq items | tuple items =>
      have each := sameItems_iff (show ∀ value ∈ items, _ from ih)
      cases other <;> simp [same, each]
    | map entries =>
      have each := sameEntries_iff (show ∀ value ∈ flattened entries, _ from ih)
      cases other <;> simp [same, each]
    | record name fields =>
      have each := sameFields_iff (show ∀ value ∈ fields.map Prod.snd, _ from ih)
      cases other <;> simp [same, each]
    | _ => cases other <;> simp [same]

instance : DecidableEq Value := fun value other => decidable_of_iff _ (value.same_iff other)

end TypedCbor.Value
