import TypedCbor.Proofs.Item.Opening

namespace TypedCbor

def StringForm.joined (form : StringForm) : StringForm := .whole ⟨.eight, form.content⟩

mutual
-- The item with every string in one piece. Whether the bytes of a string are told as an item makes no difference,
-- and strings in there are not strings of this item.
def Item.joined : Item → Item
  | ⟨tags, body⟩ => ⟨tags, bodyJoined body⟩

def bodyJoined : Body Item → Body Item
  | .array framing items => .array framing (itemsJoined items)
  | .map framing entries => .map framing (entriesJoined entries)
  | .unsigned head => .unsigned head
  | .negative head => .negative head
  | .bytes form => .bytes form.joined
  | .text form => .text form.joined
  | .simple head => .simple head
  | .embedded _ item => .bytes (.whole ⟨.eight, item.bytes⟩)

def itemsJoined : List Item → List Item
  | [] => []
  | item :: items => item.joined :: itemsJoined items

def entriesJoined : List (Item × Item) → List (Item × Item)
  | [] => []
  | (key, value) :: entries => (key.joined, value.joined) :: entriesJoined entries
end

def Item.Rechunked (item other : Item) : Prop := item.joined = other.joined

theorem StringForm.content_eq_of_joined {form other : StringForm} (same : form.joined = other.joined) :
    form.content = other.content :=
  congrArg Chunk.content (whole.inj same)

theorem major_joined (body : Body Item) : (bodyJoined body).major = body.major := by
  cases body <;> rfl

theorem flattened_joined (entries : List (Item × Item)) :
    flattened (entriesJoined entries) = itemsJoined (flattened entries) := by
  induction entries with
  | nil => rfl
  | cons entry entries ih =>
    rcases entry with ⟨key, value⟩
    simp only [entriesJoined, flattened_cons, itemsJoined, ih]

theorem length_entriesJoined (entries : List (Item × Item)) : (entriesJoined entries).length = entries.length := by
  induction entries with
  | nil => rfl
  | cons entry entries ih => rw [entriesJoined, List.length_cons, List.length_cons, ih]

theorem length_itemsJoined (items : List Item) : (itemsJoined items).length = items.length := by
  induction items with
  | nil => rfl
  | cons item items ih => rw [itemsJoined, List.length_cons, List.length_cons, ih]

end TypedCbor
