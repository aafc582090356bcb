import TypedCbor.Proofs.Entries.Found
import TypedCbor.Proofs.Framing
import TypedCbor.Proofs.Shape

namespace TypedCbor

open Decoder

-- A caller asks for the next element as often as it wants, and takes one item behind each that is announced.
inductive Calls (config : Config) (s : OpenStructure) (opened : Decoder) :
    List Nat → OpenStructure → Decoder → Prop where
  | start : Calls config s opened [] s opened
  | element {indices : List Nat} {s₁ s₂ : OpenStructure} {before inner after : Decoder} {index : Nat} {item : Item}
      (others : Calls config s opened indices s₁ before)
      (announced : outcome (nextElement config s₁) before = .ok ((some index, s₂), inner))
      (wellFormed : item.WellFormed) (taken : inner.rest = item.bytes ++ after.rest) :
    Calls config s opened (indices ++ [index]) s₂ after
  | ended {indices : List Nat} {s₁ s₂ : OpenStructure} {before after : Decoder}
      (others : Calls config s opened indices s₁ before)
      (announced : outcome (nextElement config s₁) before = .ok ((none, s₂), after)) :
    Calls config s opened indices s₂ after

-- A piece of a structure: an item of a list, a key or a value of a data map, or an entry behind a key that names
-- it. A piece without an index was passed over.
structure Piece where
  index : Option Nat
  bytes : Bytes

inductive Piece.Of (config : Config) (shape : Shape) : Piece → Prop where
  | item {index : Nat} {item : Item} (unkeyed : shape.hasKeys = false) (wellFormed : item.WellFormed) :
    Of config shape ⟨some index, item.bytes⟩
  | entry {index : Nat} {key item : Item} (keyed : shape.hasKeys = true) (formed : key.Formed)
      (announced : ItemReader.announced config shape key = .ok (some index)) (wellFormed : item.WellFormed) :
    Of config shape ⟨some index, key.bytes ++ item.bytes⟩
  | passed {key : Item} {value : Bytes} (keyed : shape.hasKeys = true) (formed : key.Formed)
      (unknown : ItemReader.announced config shape key = .ok none)
      (skipped : outcome Cursor.skipItem value = .ok ((), [])) :
    Of config shape ⟨none, key.bytes ++ value⟩

namespace Shape

-- How many pieces a header tells of, and how much of its count is used up behind so many pieces.
def pieces (shape : Shape) (count : Nat) : Nat := if shape.kind = .map then 2 * count else count

def used (shape : Shape) (pieces : Nat) : Nat := if shape.kind = .map then (pieces + 1) / 2 else pieces

variable {shape : Shape} {n count : Nat}

theorem le_pieces_of_used (within : shape.used count ≤ n) : count ≤ shape.pieces n := by
  unfold used at within
  unfold pieces
  split at within <;> rename_i data
  · rw [if_pos data]
    omega
  · rwa [if_neg data]

theorem used_succ (shape : Shape) (count : Nat) :
    shape.used (count + 1) =
      if shape.kind = .map ∧ count % 2 = 1 then shape.used count else shape.used count + 1 := by
  unfold used
  by_cases data : shape.kind = .map
  · simp only [data, if_true, true_and]
    split <;> omega
  · simp only [data, if_false, false_and]

theorem used_eq_iff :
    shape.used count = n ↔
      count = shape.pieces n ∨ shape.kind = .map ∧ count + 1 = shape.pieces n := by
  unfold used pieces
  split
  · rename_i data
    simp only [data, true_and]
    omega
  · rename_i other
    simp only [other, false_and, or_false]

end Shape

-- A structure with so many pieces read, of those that its header told of.
structure Stands (shape : Shape) (n count : Nat) (s : OpenStructure) : Prop where
  same : s.shape = shape
  index : s.index = count
  remaining : s.remaining = some (n - shape.used count)
  within : shape.used count ≤ n

namespace Stands

variable {shape : Shape} {n count : Nat} {s : OpenStructure}

theorem start (shape : Shape) (n : Nat) : Stands shape n 0 ⟨shape, some n, 0⟩ := by
  have unused : shape.used 0 = 0 := by simp [Shape.used]
  exact ⟨rfl, rfl, by rw [unused, Nat.sub_zero], by rw [unused]; exact n.zero_le⟩

theorem advanced (stands : Stands shape n count s) (more : s.isAtValue = false → s.remaining ≠ some 0) :
    Stands shape n (count + 1) s.advanced := by
  obtain ⟨rfl, rfl, remaining, within⟩ := stands
  have used := s.shape.used_succ s.index
  have atValue : s.isAtValue = true ↔ s.shape.kind = .map ∧ s.index % 2 = 1 := by simp [OpenStructure.isAtValue]
  by_cases value : s.isAtValue = true
  · rw [if_pos (atValue.mp value)] at used
    exact ⟨rfl, rfl, by rw [used, ← remaining, OpenStructure.advanced, if_pos value], used ▸ within⟩
  · rw [if_neg (mt atValue.mpr value)] at used
    have some := more (Bool.eq_false_iff.mpr value)
    rw [remaining, ne_eq, Option.some.injEq] at some
    refine ⟨rfl, rfl, ?_, by omega⟩
    rw [used, OpenStructure.advanced, if_neg value, remaining, Option.map_some, Nat.sub_sub]

theorem outcome_endStructure (stands : Stands shape n count s) (decoder : Decoder) :
    outcome (endStructure s) decoder =
      if count = shape.pieces n ∨ shape.kind = .map ∧ count + 1 = shape.pieces n then
        .ok ((), { decoder with field := none })
      else .error (.lengthMismatch (n - shape.used count)) := by
  have within := stands.within
  rw [endStructure, outcome_bind, stands.remaining]
  by_cases whole : shape.used count = n
  · rw [if_pos (Shape.used_eq_iff.mp whole), whole, Nat.sub_self]
    rfl
  · obtain ⟨unread, left⟩ : ∃ unread, n - shape.used count = unread + 1 := ⟨n - shape.used count - 1, by omega⟩
    rw [if_neg fun read => whole (Shape.used_eq_iff.mpr read), left]
    rfl

end Stands

inductive Announces (config : Config) (shape : Shape) (n count : Nat) :
    Bytes → Option Nat × OpenStructure → Prop where
  | ended {s : OpenStructure} (stands : Stands shape n count s) : Announces config shape n count [] (none, s)
  | element {front : Bytes} {index : Nat} {s : OpenStructure} (stands : Stands shape n (count + 1) s)
      (position : shape.hasKeys = false → index = count)
      (piece : ∀ item : Item, item.WellFormed → Piece.Of config shape ⟨some index, front ++ item.bytes⟩) :
    Announces config shape n count front (some index, s)

section
variable {config : Config} {shape : Shape} {n count : Nat} {s : OpenStructure} {decoder after : Decoder}
  {p : Option Nat × OpenStructure}

theorem announces_of_unkeyed (unkeyed : shape.hasKeys = false) (stands : Stands shape n count s)
    (found : outcome (nextElement config s) decoder = .ok (p, after)) :
    after.rest = decoder.rest ∧ Announces config shape n count [] p := by
  rcases p with ⟨next, s'⟩
  obtain ⟨kept, ⟨rfl, rfl, -⟩ | ⟨rfl, rfl, more⟩⟩ := next_of_unkeyed (stands.same ▸ unkeyed) found
  · exact ⟨kept, .ended stands⟩
  · exact ⟨kept, .element (stands.advanced more) (fun _ => stands.index) fun _ => .item unkeyed⟩

theorem announces_of_nextByKey (keyed : shape.hasKeys = true) {rounds : Nat} (stands : Stands shape n count s)
    (found : outcome (nextByKey config rounds s) decoder = .ok (p, after)) :
    ∃ (passed : List Piece) (front : Bytes), (∀ piece ∈ passed, piece.Of config shape ∧ piece.index = none) ∧
      decoder.rest = passed.flatMap Piece.bytes ++ (front ++ after.rest) ∧
        Announces config shape n (count + passed.length) front p := by
  induction rounds generalizing count s decoder with
  | zero => cases found
  | succ rounds ih =>
    have same := stands.same
    cases keyRound_of_nextByKey found with
    | ended => exact ⟨[], [], by simp, rfl, .ended stands⟩
    | announced more tagged named resolved accepts =>
      obtain ⟨key, formed, rfl, told, spelled⟩ := Cursor.key_of_readKey tagged named
      rw [same] at resolved accepts
      refine ⟨[], key.bytes, by simp, spelled, .element (stands.advanced more) (by simp [keyed]) fun _ => ?_⟩
      exact .entry keyed formed (ItemReader.announced_eq_some.mpr ⟨_, told, resolved, accepts⟩)
    | passed more tagged named unknown ignores skipped goes =>
      obtain ⟨key, formed, rfl, told, spelled⟩ := Cursor.key_of_readKey tagged named
      rw [same] at unknown
      obtain ⟨value, rfl, alone⟩ := Cursor.taken_of_skipItem skipped
      obtain ⟨passed, front, each, others, announces⟩ := ih (stands.advanced more) goes
      have here : Piece.Of config shape ⟨none, key.bytes ++ value⟩ :=
        .passed keyed formed (ItemReader.announced_eq_none.mpr ⟨_, told, unknown, ignores⟩) alone
      refine ⟨⟨none, key.bytes ++ value⟩ :: passed, front, List.forall_mem_cons.mpr ⟨⟨here, rfl⟩, each⟩, ?_, ?_⟩
      · dsimp only at others
        rw [spelled, others, List.flatMap_cons]
        simp only [List.append_assoc]
      · rwa [List.length_cons, Nat.add_comm passed.length, ← Nat.add_assoc]

theorem announces_of_nextElement (stands : Stands shape n count s)
    (found : outcome (nextElement config s) decoder = .ok (p, after)) :
    ∃ (passed : List Piece) (front : Bytes), (∀ piece ∈ passed, piece.Of config shape ∧ piece.index = none) ∧
      decoder.rest = passed.flatMap Piece.bytes ++ (front ++ after.rest) ∧
        Announces config shape n (count + passed.length) front p := by
  by_cases keyed : shape.hasKeys = true
  · rw [nextElement, if_pos (stands.same ▸ keyed), outcome_bind, outcome_get, ok_bind] at found
    exact announces_of_nextByKey keyed stands found
  · obtain ⟨kept, announces⟩ := announces_of_unkeyed (Bool.eq_false_iff.mpr keyed) stands found
    exact ⟨[], [], by simp, kept.symm, announces⟩

end

structure Tally (config : Config) (shape : Shape) (input : Bytes) (indices : List Nat) (pieces : List Piece)
    (rest : Bytes) : Prop where
  each : ∀ piece ∈ pieces, piece.Of config shape
  spelled : input = pieces.flatMap Piece.bytes ++ rest
  announced : indices = pieces.filterMap Piece.index
  positions : shape.hasKeys = false → indices = List.range pieces.length

namespace Tally

variable {config : Config} {shape : Shape} {input rest behind : Bytes} {indices : List Nat} {pieces : List Piece}

theorem passed (tally : Tally config shape input indices pieces rest) {passed : List Piece}
    (each : ∀ piece ∈ passed, piece.Of config shape ∧ piece.index = none)
    (spelled : rest = passed.flatMap Piece.bytes ++ behind) :
    Tally config shape input indices (pieces ++ passed) behind where
  each := List.forall_mem_append.mpr ⟨tally.each, fun piece member => (each piece member).1⟩
  spelled := by rw [tally.spelled, spelled, List.flatMap_append, List.append_assoc]
  announced := by
    have silent : passed.filterMap Piece.index = [] := List.filterMap_eq_nil_iff.mpr fun piece member =>
      (each piece member).2
    rw [tally.announced, List.filterMap_append, silent, List.append_nil]
  positions := by
    intro unkeyed
    -- Only behind keys is anything passed over.
    have none : passed = [] := by
      refine List.eq_nil_iff_forall_not_mem.mpr fun piece member => ?_
      obtain ⟨here, silent⟩ := each piece member
      cases here with
      | item => cases silent
      | entry keyed | passed keyed => exact absurd (keyed.symm.trans unkeyed) (by decide)
    rw [none, List.append_nil]
    exact tally.positions unkeyed

theorem element (tally : Tally config shape input indices pieces rest) {index : Nat} {bytes : Bytes}
    (here : Piece.Of config shape ⟨some index, bytes⟩) (position : shape.hasKeys = false → index = pieces.length)
    (spelled : rest = bytes ++ behind) :
    Tally config shape input (indices ++ [index]) (pieces ++ [⟨some index, bytes⟩]) behind where
  each := List.forall_mem_append.mpr ⟨tally.each, by simpa using here⟩
  spelled := by rw [tally.spelled, spelled, List.flatMap_append, List.append_assoc]; simp
  announced := by rw [tally.announced, List.filterMap_append]; rfl
  positions := by
    intro unkeyed
    rw [tally.positions unkeyed, position unkeyed, List.length_append, List.length_singleton, List.range_succ]

theorem length_le (tally : Tally config shape input indices pieces rest) : indices.length ≤ pieces.length := by
  rw [tally.announced]
  exact List.length_filterMap_le ..

theorem lt_of_keyed (tally : Tally config shape input indices pieces rest) (keyed : shape.hasKeys = true)
    {index : Nat} (member : index ∈ indices) : index < shape.length := by
  rw [tally.announced] at member
  obtain ⟨piece, inside, same⟩ := List.mem_filterMap.mp member
  cases tally.each piece inside with
  | item unkeyed => exact absurd (keyed.symm.trans unkeyed) (by decide)
  | entry _ _ announced =>
    cases same
    obtain ⟨_, -, resolved, -⟩ := ItemReader.announced_eq_some.mp announced
    exact Key.resolve_lt resolved
  | passed => cases same

end Tally

theorem Calls.tally {config : Config} {shape : Shape} {n : Nat} {opened after : Decoder} {s s' : OpenStructure}
    {indices : List Nat} (stands : Stands shape n 0 s) (calls : Calls config s opened indices s' after) :
    ∃ pieces : List Piece, Stands shape n pieces.length s' ∧
      Tally config shape opened.rest indices pieces after.rest := by
  -- Each call leaves the structure where the pieces in front of it say.
  induction calls with
  | start => exact ⟨[], stands, by simp, rfl, rfl, fun _ => rfl⟩
  | element _ announced wellFormed taken ih =>
    obtain ⟨pieces, stands, tally⟩ := ih
    obtain ⟨passed, front, each, spelled, announces⟩ := announces_of_nextElement stands announced
    rw [← List.length_append] at announces
    cases announces with
    | element stands position piece =>
      rw [taken, ← List.append_assoc front] at spelled
      refine ⟨_, ?_, (tally.passed each spelled).element (piece _ wellFormed) position rfl⟩
      rwa [List.length_append, List.length_singleton]
  | ended _ announced ih =>
    obtain ⟨pieces, stands, tally⟩ := ih
    obtain ⟨passed, front, each, spelled, announces⟩ := announces_of_nextElement stands announced
    rw [← List.length_append] at announces
    cases announces with
    | ended stands => exact ⟨_, stands, tally.passed each spelled⟩

theorem Decoder.head_of_begun {config : Config} {shape : Shape} {decoder opened : Decoder} {s : OpenStructure}
    {n : Nat} (begun : outcome (beginStructure config shape) decoder = .ok (s, opened))
    (counted : s.remaining = some n) :
    s = ⟨shape, some n, 0⟩ ∧ ∃ (tags : List Head) (head : Head), head.Fits ∧ head.n = n ∧
      decoder.rest = tagBytes tags ++ (openingBytes shape.header.1 (some head) ++ opened.rest) := by
  obtain ⟨header, own, read, opens⟩ := header_of_begun begun
  obtain ⟨major, rfl⟩ := eq_of_opened opens
  obtain ⟨tags, head?, -, fits, -, -, same, spelled⟩ := opening_of_readHeader read
  change header.length = some n at counted
  rw [major] at same spelled
  refine ⟨by rw [counted], ?_⟩
  rw [same] at counted
  cases head? with
  | none => cases counted
  | some head =>
    refine ⟨tags, head, fits head rfl, ?_, spelled⟩
    have length : (openingHeader shape.header.1 (some head)).length = some head.n :=
      congrArg some (fits head rfl).toNat_number
    exact Option.some.inj (length.symm.trans counted)

-- A counted structure ends well where all of it was read, and behind the last key of a data map. Anywhere else its
-- end tells how much of the count is left.
theorem Calls.ends_counted {config : Config} {shape : Shape} {n : Nat} {decoder opened after : Decoder}
    {s s' : OpenStructure} {indices : List Nat}
    (begun : outcome (beginStructure config shape) decoder = .ok (s, opened)) (counted : s.remaining = some n)
    (calls : Calls config s opened indices s' after) :
    ∃ (tags : List Head) (head : Head) (pieces : List Piece), head.Fits ∧ head.n = n ∧
      decoder.rest = tagBytes tags ++ (openingBytes shape.header.1 (some head) ++ opened.rest) ∧
      Tally config shape opened.rest indices pieces after.rest ∧
      indices.length ≤ shape.pieces n ∧
      (shape.hasKeys = true → ∀ index ∈ indices, index < shape.length) ∧
      outcome (endStructure s') after =
        if pieces.length = shape.pieces n ∨ shape.kind = .map ∧ pieces.length + 1 = shape.pieces n then
          .ok ((), { after with field := none })
        else .error (.lengthMismatch (n - shape.used pieces.length)) := by
  obtain ⟨rfl, tags, head, fits, same, spelled⟩ := head_of_begun begun counted
  obtain ⟨pieces, stands, tally⟩ := calls.tally (.start shape n)
  exact ⟨tags, head, pieces, fits, same, spelled, tally,
    Nat.le_trans tally.length_le (Shape.le_pieces_of_used stands.within),
    fun keyed _ => tally.lt_of_keyed keyed, stands.outcome_endStructure after⟩

theorem Calls.ends_list_early :
    ∃ s opened s' after, outcome (beginStructure {} .list) ⟨[0x82, 0x01, 0x02], none, []⟩ = .ok (s, opened) ∧
      s.remaining = some 2 ∧ Calls {} s opened [0] s' after ∧
        outcome (endStructure s') after = .error (.lengthMismatch 1) := by
  have begun : outcome (beginStructure {} .list) ⟨[0x82, 0x01, 0x02], none, []⟩ =
      .ok (⟨.list, some 2, 0⟩, ⟨[0x01, 0x02], none, []⟩) := rfl
  have announced : outcome (nextElement {} ⟨.list, some 2, 0⟩) ⟨[0x01, 0x02], none, []⟩ =
      .ok ((some 0, ⟨.list, some 1, 1⟩), ⟨[0x01, 0x02], none, []⟩) := rfl
  have calls : Calls {} ⟨.list, some 2, 0⟩ ⟨[0x01, 0x02], none, []⟩ [0] ⟨.list, some 1, 1⟩ ⟨[0x02], none, []⟩ :=
    .element .start announced (Item.wellFormed_small (show 1 < 24 by decide)) rfl
  obtain ⟨_, _, pieces, -, -, -, tally, -, -, ends⟩ := Calls.ends_counted begun rfl calls
  have one : 1 = pieces.length := by
    simpa using congrArg List.length (tally.positions rfl)
  rw [← one] at ends
  exact ⟨_, _, _, _, begun, rfl, calls, ends⟩

theorem Calls.ends_map_behind_key :
    outcome (beginStructure {} .map) ⟨[0xa1, 0x01, 0x05], none, []⟩ =
        .ok (⟨.map, some 1, 0⟩, ⟨[0x01, 0x05], none, []⟩) ∧
      Calls {} ⟨.map, some 1, 0⟩ ⟨[0x01, 0x05], none, []⟩ [0] ⟨.map, some 0, 1⟩ ⟨[0x05], none, []⟩ ∧
      outcome (nextElement {} ⟨.map, some 0, 1⟩) ⟨[0x05], none, []⟩ =
        .ok ((some 1, ⟨.map, some 0, 2⟩), ⟨[0x05], none, []⟩) ∧
      outcome (endStructure ⟨.map, some 0, 1⟩) ⟨[0x05], none, []⟩ = .ok ((), ⟨[0x05], none, []⟩) := by
  have announced : outcome (nextElement {} ⟨.map, some 1, 0⟩) ⟨[0x01, 0x05], none, []⟩ =
      .ok ((some 0, ⟨.map, some 0, 1⟩), ⟨[0x01, 0x05], none, []⟩) := rfl
  exact ⟨rfl, .element .start announced (Item.wellFormed_small (show 1 < 24 by decide)) rfl, rfl, rfl⟩

end TypedCbor
