import TypedCbor.Proofs.Item.Opening

namespace TypedCbor

mutual
-- Bytes of an item whose heads are all of the shortest form. They are its true bytes as long as words
-- hold its counts and lengths.
def Item.wire : Item → Bytes
  | ⟨tags, body⟩ => Wire.tags (tags.map Head.number) ++ bodyWire body

def bodyWire : Body Item → Bytes
  | .unsigned head => Wire.head .unsigned head.number
  | .negative head => Wire.head .negative head.number
  | .bytes form => Wire.bytes form.content
  | .text form => Wire.count .text form.content.length ++ form.content
  | .array framing items =>
    Wire.header .array (framing.announced items.length) ++ (itemsWire items ++ framing.closing)
  | .map framing entries =>
    Wire.header .map (framing.announced entries.length) ++ (entriesWire entries ++ framing.closing)
  | .simple head => head.bytes .simple
  | .embedded _ item => Wire.bytes item.wire

def itemsWire : List Item → Bytes
  | [] => []
  | item :: items => item.wire ++ itemsWire items

def entriesWire : List (Item × Item) → Bytes
  | [] => []
  | (key, value) :: entries => key.wire ++ (value.wire ++ entriesWire entries)
end

structure Head.Made (head : Head) : Prop where
  shortest : head.IsShortest
  small : head.n < 2 ^ 64

-- The framing as writing chooses it: counts of the shortest form, and no other framing if lengths are
-- to be definite.
structure Framing.Made (definite : Bool) (count : Nat) (framing : Framing) : Prop where
  shortest : ∀ head ∈ framing.head? count, head.IsShortest
  definite : definite = true → (framing.head? count).isSome

def Body.Made (definite : Bool) : Body Item → Prop
  | .unsigned head | .negative head => head.Made
  | .bytes form | .text form => ∃ chunk, form = .whole chunk ∧ chunk.head.IsShortest
  | .array framing items => framing.Made definite items.length
  | .map framing entries => framing.Made definite entries.length
  | .simple head => head.Fits ∧ head.width ≠ .one
  | .embedded width item => width = .narrowest item.bytes.length

structure Item.Made (definite : Bool) (item : Item) : Prop where
  tags : ∀ tag ∈ item.tags, tag.Made
  body : item.body.Made definite

theorem Head.made_shortest {n : Nat} (small : n < 2 ^ 64) : (Head.shortest n).Made := ⟨rfl, small⟩

theorem Head.Made.fits {head : Head} (made : head.Made) : head.Fits := made.shortest.fits made.small

theorem Framing.Made.fits {definite : Bool} {count : Nat} {framing : Framing}
    (made : framing.Made definite count) (small : count < 2 ^ 64) :
    ∀ head ∈ framing.head? count, head.Fits := by
  intro head member
  refine (made.shortest head member).fits ?_
  cases framing with
  | delimited => cases member
  | counted width =>
    cases Option.mem_some.mp member
    exact small

theorem Head.Made.wire {head : Head} (made : head.Made) (major : Major) :
    Wire.head major head.number = head.bytes major := by
  rcases head with ⟨width, n⟩
  rcases made with ⟨shortest, small⟩
  change width = .narrowest n at shortest
  subst shortest
  have number : (UInt64.ofNat n).toNat = n := UInt64.toNat_ofNat_of_lt' small
  simp only [Wire.head, Head.number, number, Head.bytes, Width.narrowest, UInt8.size, UInt16.size,
    UInt32.size, Nat.reducePow]
  split_ifs <;> rfl

theorem Wire.head_eq (major : Major) (n : UInt64) : head major n = (Head.shortest n.toNat).bytes major := by
  have wire := (Head.made_shortest n.toNat_lt).wire major
  rwa [Head.number, Head.shortest, UInt64.ofNat_toNat] at wire

theorem Cursor.outcome_readHeader_head (major : Major) (n : UInt64) (rest : Bytes) :
    outcome readHeader (Wire.head major n ++ rest) = .ok ((Head.shortest n.toNat).header major, rest) := by
  rw [Wire.head_eq]
  exact outcome_readHeader_bytes (Head.fits_shortest n.toNat_lt) major rest

theorem Framing.Made.wire {framing : Framing} {definite : Bool} {count : Nat}
    (made : framing.Made definite count) (small : count < 2 ^ 64) (major : Major) :
    Wire.header major (framing.announced count) = openingBytes major (framing.head? count) := by
  cases framing with
  | counted width => exact Head.Made.wire ⟨made.shortest _ rfl, small⟩ major
  | delimited => rfl

theorem wire_tags {tags : List Head} (made : ∀ tag ∈ tags, tag.Made) :
    Wire.tags (tags.map Head.number) = tagBytes tags := by
  induction tags with
  | nil => rfl
  | cons tag tags ih =>
    obtain ⟨here, others⟩ := List.forall_mem_cons.mp made
    have same := ih others
    simp only [Wire.tags, tagBytes, List.map_cons, List.flatMap_cons] at same ⊢
    rw [same, Wire.tag, here.wire]

theorem itemsWire_eq {items : List Item}
    (each : ∀ item ∈ items, item.wire.length < 2 ^ 64 → item.wire = item.bytes)
    (small : (itemsWire items).length < 2 ^ 64) : itemsWire items = itemsBytes items := by
  induction items with
  | nil => rfl
  | cons item items ih =>
    obtain ⟨here, others⟩ := List.forall_mem_cons.mp each
    rw [itemsWire, List.length_append] at small
    rw [itemsWire, itemsBytes, here (by omega), ih others (by omega)]

theorem entriesWire_eq (entries : List (Item × Item)) :
    entriesWire entries = itemsWire (flattened entries) := by
  induction entries with
  | nil => rfl
  | cons entry entries ih =>
    rcases entry with ⟨key, value⟩
    rw [entriesWire, flattened_cons, itemsWire, itemsWire, ih]

namespace Item

variable {item : Item} {definite : Bool}

theorem wire_eq_bytes (made : item.Everywhere (Made definite)) (small : item.wire.length < 2 ^ 64) :
    item.wire = item.bytes := by
  induction made with
  | @intro item here inside ih =>
    rcases item with ⟨tags, body⟩
    rcases here with ⟨tagsMade, bodyMade⟩
    simp only [wire, List.length_append] at small
    rw [wire, Item.bytes, @wire_tags tags tagsMade]
    congr 1
    cases body with
    | unsigned head | negative head => exact Head.Made.wire bodyMade _
    | simple head => rfl
    | bytes form | text form =>
      rcases bodyMade with ⟨chunk, rfl, shortest⟩
      simp only [bodyWire, Wire.bytes, StringForm.content_whole, List.length_append] at small ⊢
      have opening (major : Major) :=
        @Head.Made.wire chunk.head ⟨shortest, by simp only [Chunk.head]; omega⟩ major
      exact congrArg (· ++ chunk.content) (opening _)
    | array framing items =>
      simp only [bodyWire, List.length_append] at small
      have same := @itemsWire_eq items ih (by omega)
      have count := length_le_itemsBytes items
      rw [same] at small
      rw [bodyWire, bodyBytes, same, Framing.Made.wire bodyMade (by omega)]
    | map framing entries =>
      simp only [bodyWire, List.length_append, entriesWire_eq] at small
      have same := @itemsWire_eq (flattened entries) ih (by omega)
      have count := length_le_itemsBytes (flattened entries)
      rw [length_flattened] at count
      rw [same] at small
      rw [bodyWire, bodyBytes, entriesWire_eq, entriesBytes_eq, same,
        Framing.Made.wire bodyMade (by omega)]
    | embedded width item =>
      simp only [bodyWire, Wire.bytes, List.length_append] at small
      have same := ih item (by simp [Body.children]) (by omega)
      rw [same] at small
      have opening := @Head.Made.wire ⟨width, item.bytes.length⟩ ⟨bodyMade, by dsimp only; omega⟩ .bytes
      rw [bodyWire, bodyBytes, same]
      exact congrArg (· ++ item.bytes) opening

theorem Everywhere.mono {P Q : Item → Prop} (implied : ∀ item, P item → Q item)
    (everywhere : item.Everywhere P) : item.Everywhere Q := by
  induction everywhere with
  | intro here _ ih => exact .intro (implied _ here) ih

theorem Made.short (made : item.Made definite) : item.Short := by
  rcases item with ⟨tags, body⟩
  rcases made with ⟨tagsMade, bodyMade⟩
  refine ⟨fun tag member => (tagsMade tag member).shortest, fun other => ?_, ?_⟩
  · intro head member
    cases body with
    | unsigned head | negative head =>
      cases Option.mem_some.mp member
      exact bodyMade.shortest
    | bytes form | text form =>
      rcases bodyMade with ⟨chunk, rfl, shortest⟩
      cases Option.mem_some.mp member
      exact shortest
    | array framing items => exact bodyMade.shortest head member
    | map framing entries => exact bodyMade.shortest head member
    | simple head => exact absurd rfl other
    | embedded width item =>
      cases Option.mem_some.mp member
      exact bodyMade
  · intro chunk member
    cases body with
    | bytes form | text form =>
      rcases bodyMade with ⟨chunk', rfl, shortest⟩
      cases List.mem_singleton.mp member
      exact shortest
    | unsigned | negative | array | map | simple | embedded => cases member

theorem Made.isSome_head (made : item.Made true) : item.body.head?.isSome := by
  rcases item with ⟨tags, body⟩
  rcases made with ⟨-, bodyMade⟩
  cases body with
  | bytes form | text form =>
    rcases bodyMade with ⟨chunk, rfl, -⟩
    rfl
  | array framing items => exact bodyMade.definite rfl
  | map framing entries => exact bodyMade.definite rfl
  | unsigned | negative | simple | embedded => rfl

theorem Made.formed (made : item.Made definite) (small : item.bytes.length < 2 ^ 64) :
    item.Formed := by
  have inside := item.length_content_lt
  rcases item with ⟨tags, body⟩
  rcases made with ⟨tagsMade, bodyMade⟩
  refine ⟨fun tag member => (tagsMade tag member).fits, ?_, ?_, ?_⟩
  · intro head member
    cases body with
    | unsigned head | negative head =>
      cases Option.mem_some.mp member
      exact bodyMade.fits
    | simple head =>
      cases Option.mem_some.mp member
      exact bodyMade.1
    | bytes form | text form =>
      rcases bodyMade with ⟨chunk, rfl, shortest⟩
      cases Option.mem_some.mp member
      exact shortest.fits (Nat.lt_trans inside small)
    | array framing items =>
      have count := length_le_itemsBytes items
      simp only [body_mk, Body.content, List.length_append] at inside
      exact bodyMade.fits (by omega) head member
    | map framing entries =>
      have count := length_le_itemsBytes (flattened entries)
      rw [length_flattened] at count
      simp only [body_mk, Body.content, entriesBytes_eq, List.length_append] at inside
      exact bodyMade.fits (by omega) head member
    | embedded width item =>
      cases Option.mem_some.mp member
      exact Head.IsShortest.fits bodyMade (Nat.lt_trans inside small)
  · intro chunk member
    cases body with
    | bytes form | text form =>
      rcases bodyMade with ⟨chunk', rfl, shortest⟩
      cases List.mem_singleton.mp member
      exact shortest.fits (Nat.lt_trans inside small)
    | unsigned | negative | array | map | simple | embedded => cases member
  · intro n same
    cases same
    exact absurd rfl bodyMade.2

theorem wellFormed_of_made (made : item.Everywhere (Made definite))
    (small : item.bytes.length < 2 ^ 64) : item.WellFormed := by
  induction made with
  | intro here _ ih =>
    refine .intro (here.formed small) fun child member => ?_
    exact ih child member (Nat.lt_trans (length_lt_of_mem_children member) small)

end Item

end TypedCbor
