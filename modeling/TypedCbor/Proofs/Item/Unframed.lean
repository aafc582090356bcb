import TypedCbor.Proofs.Item.Opening

namespace TypedCbor

mutual
-- The item with every array and map ended by a break. Strings stay as they are, also those that hold
-- an item.
def Item.unframed : Item → Item
  | ⟨tags, body⟩ => ⟨tags, bodyUnframed body⟩

def bodyUnframed : Body Item → Body Item
  | .array _ items => .array .delimited (itemsUnframed items)
  | .map _ entries => .map .delimited (entriesUnframed entries)
  | .unsigned head => .unsigned head
  | .negative head => .negative head
  | .bytes form => .bytes form
  | .text form => .text form
  | .simple head => .simple head
  | .embedded width item => .embedded width item

def itemsUnframed : List Item → List Item
  | [] => []
  | item :: items => item.unframed :: itemsUnframed items

def entriesUnframed : List (Item × Item) → List (Item × Item)
  | [] => []
  | (key, value) :: entries => (key.unframed, value.unframed) :: entriesUnframed entries
end

def Item.Reframed (item other : Item) : Prop := item.unframed = other.unframed

theorem itemsUnframed_eq (items : List Item) : itemsUnframed items = items.map Item.unframed := by
  induction items with
  | nil => rfl
  | cons item items ih => rw [itemsUnframed, ih, List.map_cons]

theorem entriesUnframed_eq (entries : List (Item × Item)) :
    entriesUnframed entries = entries.map (Prod.map Item.unframed Item.unframed) := by
  induction entries with
  | nil => rfl
  | cons entry entries ih =>
    rcases entry with ⟨key, value⟩
    rw [entriesUnframed, ih, List.map_cons]
    rfl

theorem flattened_unframed (entries : List (Item × Item)) :
    flattened (entriesUnframed entries) = itemsUnframed (flattened entries) := by
  induction entries with
  | nil => rfl
  | cons entry entries ih =>
    rcases entry with ⟨key, value⟩
    simp only [entriesUnframed, flattened_cons, itemsUnframed, ih]

namespace Item

theorem body_unframed (item : Item) : item.unframed.body = bodyUnframed item.body := by
  rcases item with ⟨tags, body⟩
  rfl

theorem tagNumbers_unframed (item : Item) : item.unframed.tagNumbers = item.tagNumbers := by
  rcases item with ⟨tags, body⟩
  rfl

end Item
end TypedCbor
