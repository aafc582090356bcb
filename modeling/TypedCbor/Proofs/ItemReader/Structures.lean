import Mathlib.Data.List.Forall2
import TypedCbor.Proofs.ItemReader.Follows

namespace TypedCbor

-- Counts of data maps are of entries, so every second item is not counted.
def Shape.units (shape : Shape) (count : Nat) : Nat := if shape.kind = .map then count / 2 else count

-- A structure without keys in front of the last of its items.
def standing (shape : Shape) (framing : Framing) (total left : Nat) : OpenStructure :=
  ⟨shape, framing.announced (shape.units left), total - left⟩

def Decoder.within (framing : Framing) (items : List Item) (rest : Bytes) : Decoder :=
  ⟨itemsBytes items ++ (framing.closing ++ rest), none, []⟩

def Decoder.facing (field : Option Element) (item : Item) (framing : Framing) (items : List Item)
    (rest : Bytes) : Decoder :=
  ⟨item.bytes ++ (within framing items rest).rest, field, []⟩

theorem FollowsAt.facing {read : DecodeM α} {told : ItemReader α} {item : Item}
    (follows : FollowsAt read told item) (field : Option Element) (framing : Framing)
    (items : List Item) (rest : Bytes) :
    outcome read (Decoder.facing field item framing items rest) =
      (·, Decoder.within framing items rest) <$> told.on field item :=
  follows field [] _

def Shape.atPosition (shape : Shape) (index : Nat) : Option Element :=
  if shape.isArrayFramed then some (shape.element index) else none

structure Slot.Follows (slot : Slot (DecodeM Value)) (told : Slot (ItemReader Value)) : Prop where
  read : TypedCbor.Follows slot.read told.read
  ofByte : slot.ofByte = told.ofByte

structure FieldReader.Follows (field : FieldReader (DecodeM Value))
    (told : FieldReader (ItemReader Value)) : Prop where
  name : field.name = told.name
  read : TypedCbor.Follows field.read told.read
  fallback : field.fallback = told.fallback
  optional : field.optional = told.optional

namespace Decoder

variable {config : Config} {shape : Shape} {framing : Framing} {total left : Nat}

theorem standing_isAtValue (even : shape.kind = .map → total % 2 = 0) (bound : left ≤ total) :
    (standing shape framing total left).isAtValue = (shape.kind == .map && left % 2 == 1) := by
  unfold OpenStructure.isAtValue standing
  by_cases data : shape.kind = .map
  · have parity := even data
    simp only [data, beq_self_eq_true, Bool.true_and, beq_eq_beq]
    omega
  · have other : (shape.kind == .map) = false := by simpa using data
    simp only [other, Bool.false_and]

theorem standing_advanced (even : shape.kind = .map → total % 2 = 0) (bound : left < total) :
    (standing shape framing total (left + 1)).advanced = standing shape framing total left := by
  unfold OpenStructure.advanced
  rw [standing_isAtValue even bound]
  unfold standing Shape.units
  have next : total - (left + 1) + 1 = total - left := by omega
  cases framing with
  | delimited => simp [Framing.announced, next]
  | counted width =>
    by_cases data : shape.kind = .map
    · simp only [data, Framing.announced, next, if_true]
      by_cases odd : (left + 1) % 2 = 1
      · have same : (left + 1) / 2 = left / 2 := by omega
        simp [odd, same]
      · have same : (left + 1) / 2 - 1 = left / 2 := by omega
        simp [odd, same]
    · simp [data, Framing.announced, next]

theorem outcome_isExhausted_end (even : shape.kind = .map → total % 2 = 0) (rest : Bytes) :
    outcome (isExhausted (standing shape framing total 0)) (framing.closing ++ rest) =
      .ok (true, framing.closing ++ rest) := by
  unfold isExhausted
  rw [standing_isAtValue even (by omega)]
  cases framing <;> simp [standing, Shape.units, Framing.announced, Framing.closing, Wire.closing]

theorem outcome_isExhausted_item {item : Item} (formed : item.Formed)
    (even : shape.kind = .map → total % 2 = 0) (bound : left < total) (rest : Bytes) :
    outcome (isExhausted (standing shape framing total (left + 1))) (item.bytes ++ rest) =
      .ok (false, item.bytes ++ rest) := by
  obtain ⟨byte, more, opens, going, -⟩ := Item.bytes_eq_cons formed
  unfold isExhausted
  rw [standing_isAtValue even bound]
  split
  case isTrue => rfl
  case isFalse between =>
    cases framing with
    | delimited => simp [standing, Framing.announced, opens, going]
    | counted width =>
      have more : shape.units (left + 1) ≠ 0 := by
        unfold Shape.units
        split
        · simp_all
          omega
        · omega
      simp [standing, Framing.announced, more]

theorem nextElement_of_unkeyed (unkeyed : shape.hasKeys = false) :
    nextElement config (standing shape framing total left) =
      nextByPosition (standing shape framing total left) := by
  unfold nextElement
  rw [if_neg (by simp [standing, unkeyed])]

theorem outcome_nextElement_nil (unkeyed : shape.hasKeys = false)
    (even : shape.kind = .map → total % 2 = 0) (rest : Bytes) :
    outcome (nextElement config (standing shape framing total 0)) (within framing [] rest) =
      .ok ((none, standing shape framing total 0), within framing [] rest) := by
  rw [nextElement_of_unkeyed unkeyed]
  simp [nextByPosition, outcome_isExhausted_end even, clearField, within, itemsBytes]

theorem outcome_nextElement_cons (unkeyed : shape.hasKeys = false) {item : Item} {items : List Item}
    (formed : item.Formed) (even : shape.kind = .map → total % 2 = 0) (bound : items.length < total)
    (rest : Bytes) :
    outcome (nextElement config (standing shape framing total (item :: items).length))
        (within framing (item :: items) rest) =
      .ok ((some (total - (items.length + 1)), standing shape framing total items.length),
        facing (shape.atPosition (total - (items.length + 1))) item framing items rest) := by
  rw [nextElement_of_unkeyed unkeyed]
  simp only [nextByPosition, within, itemsBytes, List.append_assoc, List.length_cons, outcome_bind,
    outcome_cursor, outcome_isExhausted_item formed even bound, ok_map, ok_bind, Bool.false_eq_true,
    if_false, outcome_modify, outcome_pure, standing_advanced even bound]
  rfl

theorem outcome_endStructure (shape : Shape) (framing : Framing) {items : List Item}
    (formed : ∀ item ∈ items, item.Formed)
    (index : Nat) (rest : Bytes) :
    outcome (endStructure ⟨shape, framing.announced items.length, index⟩)
        (within framing items rest) =
      (fun _ => ((), ⟨rest, none, []⟩)) <$> framing.ended items := by
  cases items with
  | nil => cases framing <;> rfl
  | cons item items =>
    have here := formed item (by simp)
    cases framing with
    | counted width => rfl
    | delimited =>
      simp only [endStructure, clearField, outcome_bind, outcome_modify, ok_bind, within, itemsBytes,
        List.append_assoc, Framing.announced, outcome_cursor, Cursor.outcome_tryBreak_item here,
        ok_map, Bool.false_eq_true, if_false, Cursor.outcome_peekMajor_item here, outcome_throw,
        Framing.ended, error_map]

section
variable {α β : Type} {read : DecodeM α} {told : ItemReader α}

theorem outcome_elementRounds {items : List Item} (formed : ∀ item ∈ items, item.Formed)
    (each : ∀ item ∈ items, FollowsAt read told item) (bound : items.length ≤ total) (rest : Bytes)
    {rounds : Nat} (enough : items.length < rounds) :
    outcome (elementRounds config read rounds (standing .list framing total items.length))
        (within framing items rest) =
      (fun values => ((values, standing .list framing total 0), within framing [] rest)) <$>
        items.mapM (told.on none) := by
  obtain ⟨rounds, rfl⟩ : ∃ n, rounds = n + 1 := ⟨rounds - 1, by omega⟩
  induction items generalizing rounds with
  | nil =>
    rw [elementRounds, outcome_bind, List.length_nil,
      outcome_nextElement_nil rfl (absurd · (by decide))]
    rfl
  | cons item items ih =>
    obtain ⟨rounds, rfl⟩ : ∃ n, rounds = n + 1 := ⟨rounds - 1, by simp at enough; omega⟩
    obtain ⟨first, formed⟩ := List.forall_mem_cons.mp formed
    obtain ⟨follows, each⟩ := List.forall_mem_cons.mp each
    have others := ih formed each (by simp at bound; omega) rounds (by simpa using enough)
    rw [elementRounds, outcome_bind,
      outcome_nextElement_cons rfl first (absurd · (by decide)) bound, ok_bind]
    simp only [outcome_bind, follows.facing, List.mapM_cons]
    change (_ <$> told.on none item >>= _) = _
    cases told.on none item with
    | error e => rfl
    | ok value =>
      simp only [ok_map, ok_bind, others]
      cases items.mapM (told.on none) <;> rfl

theorem outcome_entryRounds (config : Config) (framing : Framing) {key : DecodeM α} {value : DecodeM β} {toldKey : ItemReader α}
    {toldValue : ItemReader β} {entries : List (Item × Item)}
    (formed : ∀ entry ∈ entries, entry.1.Formed ∧ entry.2.Formed)
    (each : ∀ entry ∈ entries, FollowsAt key toldKey entry.1 ∧ FollowsAt value toldValue entry.2)
    (even : total % 2 = 0) (bound : (flattened entries).length ≤ total) (rest : Bytes)
    {rounds : Nat} (enough : entries.length < rounds) :
    outcome (entryRounds config key value rounds
        (standing .map framing total (flattened entries).length))
        (within framing (flattened entries) rest) =
      (fun pairs => ((pairs, standing .map framing total 0), within framing [] rest)) <$>
        ItemReader.entries toldKey toldValue entries := by
  obtain ⟨rounds, rfl⟩ : ∃ n, rounds = n + 1 := ⟨rounds - 1, by omega⟩
  induction entries generalizing rounds with
  | nil =>
    rw [entryRounds, outcome_bind, flattened_nil, List.length_nil,
      outcome_nextElement_nil rfl fun _ => even]
    rfl
  | cons entry entries ih =>
    rcases entry with ⟨k, v⟩
    obtain ⟨rounds, rfl⟩ : ∃ n, rounds = n + 1 := ⟨rounds - 1, by simp at enough; omega⟩
    simp only [flattened_cons, List.length_cons] at bound ⊢
    obtain ⟨⟨keyFormed, valueFormed⟩, formed⟩ := List.forall_mem_cons.mp formed
    obtain ⟨⟨keyFollows, valueFollows⟩, each⟩ := List.forall_mem_cons.mp each
    have others := ih formed each (by omega) rounds (by simpa using enough)
    have first := @outcome_nextElement_cons config .map framing total rfl k (v :: flattened entries)
      keyFormed (fun _ => even) (by simp; omega) rest
    have second := @outcome_nextElement_cons config .map framing total rfl v (flattened entries)
      valueFormed (fun _ => even) (by omega) rest
    simp only [List.length_cons] at first second
    rw [entryRounds, outcome_bind, first, ok_bind]
    simp only [outcome_bind, keyFollows.facing, ItemReader.entries_cons]
    change (_ <$> toldKey.on none k >>= _) = _
    cases toldKey.on none k with
    | error e => rfl
    | ok a =>
      simp only [ok_map, ok_bind]
      rw [second, ok_bind]
      simp only [outcome_bind, valueFollows.facing]
      change (_ <$> toldValue.on none v >>= _) = _
      cases toldValue.on none v with
      | error e => rfl
      | ok b =>
        simp only [ok_map, ok_bind, others]
        cases ItemReader.entries toldKey toldValue entries <;> rfl

end

section
variable {expected : String} {items : List Item}

theorem outcome_fillFromElements {slots : List (Slot (DecodeM Value))}
    {told : List (Slot (ItemReader Value))} (follows : List.Forall₂ Slot.Follows slots told)
    (readable : ∀ item ∈ items, item.Readable) (bound : items.length ≤ total) (filled : Nat)
    (rest : Bytes) :
    outcome (fillFromElements config expected filled slots (standing .list framing total items.length))
        (within framing items rest) =
      (fun p => ((p.1, standing .list framing total p.2.length), within framing p.2 rest)) <$>
        ItemReader.fill expected filled told items := by
  induction follows generalizing items filled with
  | nil => rfl
  | @cons slot twin slots told here _ ih =>
    cases items with
    | nil =>
      rw [fillFromElements, outcome_bind, List.length_nil,
        outcome_nextElement_nil rfl (absurd · (by decide))]
      rfl
    | cons item items =>
      obtain ⟨first, readable⟩ := List.forall_mem_cons.mp readable
      have others := @ih items readable (by simp at bound; omega) (filled + 1)
      rw [fillFromElements, outcome_bind, outcome_nextElement_cons rfl
        first.formed (absurd · (by decide)) bound, ok_bind]
      simp only [outcome_bind, (here.read item first).facing, ItemReader.fill]
      change (_ <$> twin.read.on none item >>= _) = _
      cases twin.read.on none item with
      | error e => rfl
      | ok value =>
        simp only [ok_map, ok_bind, others]
        cases ItemReader.fill expected (filled + 1) told items <;> rfl

theorem outcome_takeFields {fields : List (FieldReader (DecodeM Value))}
    {told : List (FieldReader (ItemReader Value))}
    (follows : List.Forall₂ FieldReader.Follows fields told) (framed : shape.isArrayFramed = true)
    (plain : shape.kind ≠ .map) (readable : ∀ item ∈ items, item.Readable)
    (bound : items.length ≤ total) (taken : Nat)
    (position : items ≠ [] → taken + items.length = total) (rest : Bytes) :
    outcome (takeFields config expected taken fields (standing shape framing total items.length))
        (within framing items rest) =
      (fun p => ((p.1, standing shape framing total p.2.length), within framing p.2 rest)) <$>
        ItemReader.takeFields shape expected taken told items := by
  have unkeyed : shape.hasKeys = false := by simp [Shape.hasKeys, framed]
  induction follows generalizing items taken with
  | nil => rfl
  | @cons field twin fields told here _ ih =>
    cases items with
    | nil =>
      have others := @ih [] readable bound (taken + 1) (absurd rfl)
      rw [List.length_nil] at others ⊢
      rw [takeFields, outcome_bind,
        outcome_nextElement_nil unkeyed (absurd · plain)]
      simp only [ok_bind, here.fallback, here.name, ItemReader.takeFields]
      cases twin.fallback with
      | none => rfl
      | some value =>
        simp only [outcome_bind, others]
        cases ItemReader.takeFields shape expected (taken + 1) told [] <;> rfl
    | cons item items =>
      obtain ⟨first, readable⟩ := List.forall_mem_cons.mp readable
      have others := @ih items readable (by simp at bound; omega) (taken + 1)
        (fun _ => by simp at position; omega)
      have index : total - (items.length + 1) = taken := by simp at position; omega
      rw [takeFields, outcome_bind, outcome_nextElement_cons unkeyed
        first.formed (absurd · plain) bound, ok_bind, index, Shape.atPosition,
        if_pos framed]
      simp only [outcome_bind, (here.read item first).facing, ItemReader.takeFields]
      cases twin.read.on (some (shape.element taken)) item with
      | error e => rfl
      | ok value =>
        simp only [ok_map, ok_bind, others, here.name]
        cases ItemReader.takeFields shape expected (taken + 1) told items <;> rfl

end

end Decoder
end TypedCbor
