import TypedCbor.Proofs.Item.Unframed
import TypedCbor.Proofs.Output

namespace TypedCbor

def Body.isEmbedded : Body ι → Bool
  | .embedded .. => true
  | _ => false

-- Whether framing says nothing of an item, nor of anything in it.
def Body.isLeaf : Body ι → Bool
  | .array .. | .map .. | .embedded .. => false
  | _ => true

def Item.Unembedded : Item → Prop := Everywhere fun item => item.body.isEmbedded = false

def DeclaredDefault.item (config : Config) (element : Element) : DeclaredDefault → Item
  | null => .null
  | bool value => .ofBool value
  | integer value => .ofSigned value
  | single bits => .ofSingle config.floatForm bits
  | double bits => .ofDouble config.floatForm bits
  | text value => .ofText value
  | bytes value =>
    if config.byteStrings || element.byteString then .ofBytes value
    else .array config (value.map fun byte => .ofWord byte.toUInt64)
  | emptyArray => .array config []
  | emptyMap => .map config []

namespace Item

theorem Everywhere.here {P : Item → Prop} {item : Item} (everywhere : item.Everywhere P) : P item := by
  cases everywhere with
  | intro here _ => exact here

theorem Everywhere.child {P : Item → Prop} {item child : Item} (everywhere : item.Everywhere P)
    (member : child ∈ item.body.children) : child.Everywhere P := by
  cases everywhere with
  | intro _ inside => exact inside child member

theorem ofSigned_cases (n : Int64) :
    (∃ word, ofSigned n = ofWord word) ∨ ∃ head, ofSigned n = ⟨[], .negative head⟩ := by
  unfold ofSigned
  split
  · exact .inl ⟨_, rfl⟩
  · exact .inr ⟨_, rfl⟩

theorem compact_cases (bits : UInt64) : ∃ width n, compact bits = simple width n := by
  unfold compact
  split
  · exact ⟨_, _, rfl⟩
  split
  · exact ⟨_, _, rfl⟩
  split
  · exact ⟨_, _, rfl⟩
  · exact ⟨_, _, rfl⟩

theorem ofSingle_cases (form : Wire.FloatForm) (bits : UInt32) :
    ∃ width n, ofSingle form bits = simple width n := by
  cases form with
  | fixed => exact ⟨_, _, rfl⟩
  | shortest => exact compact_cases _

theorem ofDouble_cases (form : Wire.FloatForm) (bits : UInt64) :
    ∃ width n, ofDouble form bits = simple width n := by
  cases form with
  | fixed => exact ⟨_, _, rfl⟩
  | shortest => exact compact_cases _

theorem unframed_of_leaf {item : Item} (leaf : item.body.isLeaf = true) : item.unframed = item := by
  rcases item with ⟨tags, body⟩
  cases body with
  | array | map | embedded => cases leaf
  | unsigned | negative | bytes | text | simple => rfl

theorem unembedded_of_leaf {item : Item} (leaf : item.body.isLeaf = true) : item.Unembedded := by
  rcases item with ⟨tags, body⟩
  cases body with
  | array | map | embedded => cases leaf
  | unsigned | negative | bytes | text | simple =>
    exact .intro rfl fun child member => absurd member List.not_mem_nil

theorem leaf_ofSigned (n : Int64) : (ofSigned n).body.isLeaf = true := by
  obtain ⟨word, same⟩ | ⟨head, same⟩ := ofSigned_cases n
  · rw [same]
    rfl
  · rw [same]
    rfl

theorem leaf_ofInt {kind : IntKind} {n : Int} {item : Item} (found : ofInt kind n = .ok item) :
    item.body.isLeaf = true := by
  cases kind with
  | i8 | i16 | i32 | i64 =>
    cases found
    exact leaf_ofSigned _
  | u8 | u16 | u32 | u64 =>
    cases found
    rfl
  | i128 | u128 =>
    change ofWide n = .ok item at found
    unfold ofWide at found
    split at found <;> split at found
    · cases found
      rfl
    · cases found
    · cases found
      rfl
    · cases found

theorem leaf_ofSingle (form : Wire.FloatForm) (bits : UInt32) : (ofSingle form bits).body.isLeaf = true := by
  obtain ⟨width, n, same⟩ := ofSingle_cases form bits
  rw [same]
  rfl

theorem leaf_ofDouble (form : Wire.FloatForm) (bits : UInt64) : (ofDouble form bits).body.isLeaf = true := by
  obtain ⟨width, n, same⟩ := ofDouble_cases form bits
  rw [same]
  rfl

end Item

namespace DeclaredDefault

variable {config : Config} {element : Element}

theorem wire_item (plain : element.object = false) (standard : DeclaredDefault) :
    (standard.item config element).wire = standard.encoded config element := by
  cases standard with
  | null =>
    rw [item, encoded, plain]
    rfl
  | bool value => exact Item.wire_ofBool value
  | integer value => exact Item.wire_ofSigned value
  | single bits => exact Item.wire_ofSingle _ bits
  | double bits => exact Item.wire_ofDouble _ bits
  | text value => exact Item.wire_ofText value
  | bytes value =>
    have numbers : itemsWire (value.map fun byte => .ofWord byte.toUInt64) =
        value.flatMap fun byte => Wire.unsigned byte.toUInt64 := by
      induction value with
      | nil => rfl
      | cons byte value ih => rw [List.map_cons, itemsWire, ih, Item.wire_ofWord, List.flatMap_cons]
    rw [item, encoded]
    split
    · exact Item.wire_ofBytes value
    · rw [Item.wire_array, numbers, List.length_map]
  | emptyArray => exact Item.wire_array config []
  | emptyMap => exact Item.wire_map config []

theorem item_cases (config : Config) (element : Element) (standard : DeclaredDefault) :
    ((standard.item config element).tags = [] ∧ (standard.item config element).body.isLeaf = true) ∨
      (∃ content : Bytes, standard.item config element =
        .array config (content.map fun byte => .ofWord byte.toUInt64)) ∨
      standard.item config element = .map config [] := by
  cases standard with
  | null | bool | text => exact .inl ⟨rfl, rfl⟩
  | integer value =>
    refine .inl ⟨?_, Item.leaf_ofSigned value⟩
    obtain ⟨word, same⟩ | ⟨head, same⟩ := Item.ofSigned_cases value
    · rw [item, same]
      rfl
    · rw [item, same]
      rfl
  | single bits =>
    obtain ⟨width, n, same⟩ := Item.ofSingle_cases config.floatForm bits
    rw [item, same]
    exact .inl ⟨rfl, rfl⟩
  | double bits =>
    obtain ⟨width, n, same⟩ := Item.ofDouble_cases config.floatForm bits
    rw [item, same]
    exact .inl ⟨rfl, rfl⟩
  | bytes value =>
    rw [item]
    split
    · exact .inl ⟨rfl, rfl⟩
    · exact .inr (.inl ⟨value, rfl⟩)
  | emptyArray => exact .inr (.inl ⟨[], rfl⟩)
  | emptyMap => exact .inr (.inr rfl)

theorem made_item (config : Config) (element : Element) (standard : DeclaredDefault) :
    (standard.item config element).Everywhere (Item.Made config.definiteLengths) := by
  cases standard with
  | null => exact Item.made_null false
  | bool value => exact Item.made_simple (by cases value <;> decide) (by decide)
  | integer value => exact Item.made_ofSigned value
  | single bits => exact Item.made_ofSingle _ bits
  | double bits => exact Item.made_ofDouble _ bits
  | text value => exact Item.made_ofText value
  | bytes value =>
    rw [item]
    split
    · exact Item.made_ofBytes value
    · refine Item.made_array fun child member => ?_
      obtain ⟨byte, -, rfl⟩ := List.mem_map.mp member
      exact Item.made_ofWord _
  | emptyArray => exact Item.made_array fun child member => absurd member List.not_mem_nil
  | emptyMap => exact Item.made_map fun entry member => absurd member List.not_mem_nil

end DeclaredDefault

theorem Wire.head_append_inj {major : Major} {m n : UInt64} {left right : Bytes}
    (same : Wire.head major m ++ left = Wire.head major n ++ right) : m = n ∧ left = right := by
  have both := congrArg (outcome Cursor.readHeader) same
  rw [Cursor.outcome_readHeader_head, Cursor.outcome_readHeader_head] at both
  obtain ⟨headers, rests⟩ := Prod.mk.inj (Except.ok.inj both)
  have arguments := congrArg Header.argument headers
  simp only [Head.argument_header, Head.shortest, Head.number, UInt64.ofNat_toNat] at arguments
  exact ⟨Argument.value.inj arguments, rests⟩

theorem Head.Made.eq_of_number {head other : Head} (made : head.Made) (made' : other.Made)
    (same : head.number = other.number) : head = other := by
  have count : head.n = other.n := by
    rw [← made.fits.toNat_number, ← made'.fits.toNat_number, same]
  rcases head with ⟨width, n⟩
  rcases other with ⟨width', n'⟩
  cases count
  have narrowest : width = .narrowest n := made.shortest
  have narrowest' : width' = .narrowest n := made'.shortest
  rw [narrowest, narrowest']

theorem Chunk.eq_of_content {chunk other : Chunk} (shortest : chunk.head.IsShortest)
    (shortest' : other.head.IsShortest) (same : chunk.content = other.content) : chunk = other := by
  rcases chunk with ⟨width, content⟩
  rcases other with ⟨width', content'⟩
  cases same
  have narrowest : width = .narrowest content.length := shortest
  have narrowest' : width' = .narrowest content.length := shortest'
  rw [narrowest, narrowest']

theorem Head.eq_of_bytes {major : Major} {head other : Head} (fits : head.Fits) (fits' : other.Fits)
    (same : head.bytes major = other.bytes major) : head = other := by
  have both := Cursor.outcome_readHeader_bytes fits major []
  rw [same, Cursor.outcome_readHeader_bytes fits' major []] at both
  exact Head.eq_of_header fits fits' (Prod.mk.inj (Except.ok.inj both)).1.symm

theorem Config.framed_inj {config : Config} {major : Major} {m n : Nat} {left right : Bytes}
    (same : config.framed major m left = config.framed major n right) : left = right := by
  unfold Config.framed at same
  split at same
  · exact (Wire.head_append_inj same).2
  · rw [List.append_cancel_right_eq] at same
    exact List.append_cancel_left same

namespace Item

section
variable {definite definite' : Bool} {item other : Item} {left right : Bytes}

theorem wire_head_cons (major : Major) (n : UInt64) :
    ∃ info more, Wire.head major n = major.initial info :: more ∧ info < 32 := by
  unfold Wire.head
  dsimp only
  split_ifs with small
  · exact ⟨_, _, rfl, by omega⟩
  all_goals exact ⟨_, _, rfl, by decide⟩

theorem wire_cons (made : item.Made definite) :
    ∃ info more, item.wire = item.firstMajor.initial info :: more ∧ info < 32 := by
  rcases item with ⟨tags, body⟩
  cases tags with
  | cons tag tags =>
    obtain ⟨info, more, head, small⟩ := wire_head_cons .tag tag.number
    refine ⟨info, more ++ (Wire.tags (tags.map Head.number) ++ bodyWire body), ?_, small⟩
    simp only [wire, List.map_cons, Wire.tags, List.flatMap_cons, Wire.tag, head, List.cons_append,
      List.append_assoc]
    rfl
  | nil =>
    have opened (major : Major) (count? : Option Nat) :
        ∃ info more, Wire.header major count? = major.initial info :: more ∧ info < 32 := by
      cases count? with
      | none => exact ⟨_, _, rfl, by decide⟩
      | some count => exact wire_head_cons major _
    have behind (major : Major) (opening rest : Bytes)
        (first : ∃ info more, opening = major.initial info :: more ∧ info < 32) :
        ∃ info more, opening ++ rest = major.initial info :: more ∧ info < 32 := by
      obtain ⟨info, more, rfl, small⟩ := first
      exact ⟨info, more ++ rest, rfl, small⟩
    change ∃ info more, bodyWire body = body.major.initial info :: more ∧ info < 32
    cases body with
    | unsigned head => exact wire_head_cons .unsigned head.number
    | negative head => exact wire_head_cons .negative head.number
    | bytes form => exact behind .bytes _ _ (wire_head_cons _ _)
    | text form => exact behind .text _ _ (wire_head_cons _ _)
    | array framing items => exact behind .array _ _ (opened _ _)
    | map framing entries => exact behind .map _ _ (opened _ _)
    | simple head =>
      have small := Head.Fits.info_lt made.body.1
      exact ⟨_, _, rfl, by omega⟩
    | embedded width item => exact behind .bytes _ _ (wire_head_cons _ _)

theorem wire_ne_nil (made : item.Made definite) : item.wire ≠ [] := by
  obtain ⟨info, more, same, -⟩ := wire_cons made
  rw [same]
  exact List.cons_ne_nil _ _

theorem untagged_of_wire (made : item.Made definite) (made' : other.Made definite')
    (plain : other.tags = []) (same : item.wire ++ left = other.wire ++ right) :
    item.tags = [] ∧ item.body.major = other.body.major := by
  obtain ⟨info, more, opens, small⟩ := wire_cons made
  obtain ⟨info', more', opens', small'⟩ := wire_cons made'
  rw [opens, opens', List.cons_append, List.cons_append] at same
  have majors : item.firstMajor = other.firstMajor := by
    rw [← item.firstMajor.ofInitial_initial small, ← other.firstMajor.ofInitial_initial small',
      (List.cons.inj same).1]
  rw [firstMajor, firstMajor, if_pos plain] at majors
  split at majors
  · exact ⟨‹_›, majors⟩
  · exact absurd majors.symm other.body.major_ne_tag

theorem eq_of_wire_ofWord (made : item.Made definite) {word : UInt64}
    (same : item.wire ++ left = (ofWord word).wire ++ right) : item = ofWord word ∧ left = right := by
  have made' : (ofWord word).Made true := ⟨by simp [ofWord], Head.made_shortest word.toNat_lt⟩
  obtain ⟨plain, kind⟩ := untagged_of_wire made made' rfl same
  rcases item with ⟨tags, body⟩
  cases plain
  cases body with
  | unsigned head =>
    obtain ⟨numbers, rest⟩ := Wire.head_append_inj same
    exact ⟨by rw [Head.Made.eq_of_number made.body made'.body numbers]; rfl, rest⟩
  | negative | bytes | text | array | map | simple | embedded => cases kind

theorem eq_of_wire_leaf (made : item.Made definite) (bare : item.body.isEmbedded = false)
    (made' : other.Made definite') (plain' : other.tags = []) (leaf : other.body.isLeaf = true)
    (same : item.wire = other.wire) : item = other := by
  obtain ⟨plain, kind⟩ := @untagged_of_wire _ _ _ _ [] [] made made' plain' (by rw [same])
  have bodies : bodyWire item.body = bodyWire other.body := by
    rcases item with ⟨tags, body⟩
    rcases other with ⟨tags', body'⟩
    cases plain
    cases plain'
    exact same
  rcases item with ⟨tags, body⟩
  rcases other with ⟨tags', body'⟩
  cases plain
  cases plain'
  cases body' with
  | unsigned head' | negative head' =>
    cases body <;> cases kind
    rename_i head
    have numbers := (Wire.head_append_inj (congrArg (· ++ []) bodies)).1
    rw [Head.Made.eq_of_number made.body made'.body numbers]
  | text form' =>
    cases body <;> cases kind
    obtain ⟨chunk, rfl, shortest⟩ := made.body
    obtain ⟨chunk', rfl, shortest'⟩ := made'.body
    have contents := (Wire.head_append_inj bodies).2
    rw [StringForm.content_whole, StringForm.content_whole] at contents
    rw [Chunk.eq_of_content shortest shortest' contents]
  | bytes form' =>
    cases body with
    | bytes form =>
      obtain ⟨chunk, rfl, shortest⟩ := made.body
      obtain ⟨chunk', rfl, shortest'⟩ := made'.body
      have contents := (Wire.head_append_inj bodies).2
      rw [StringForm.content_whole, StringForm.content_whole] at contents
      rw [Chunk.eq_of_content shortest shortest' contents]
    | embedded => cases bare
    | unsigned | negative | text | array | map | simple => cases kind
  | simple head' =>
    cases body <;> cases kind
    rename_i head
    have fits : head.Fits := made.body.1
    have fits' : head'.Fits := made'.body.1
    rw [Head.eq_of_bytes fits fits' bodies]
  | array | map | embedded => cases leaf

theorem items_of_wire {items : List Item} (made : ∀ item ∈ items, item.Made definite) {content : Bytes}
    (same : itemsWire items = itemsWire (content.map fun byte => .ofWord byte.toUInt64)) :
    items = content.map fun byte => .ofWord byte.toUInt64 := by
  induction content generalizing items with
  | nil =>
    cases items with
    | nil => rfl
    | cons item items =>
      have here := (List.append_eq_nil_iff.mp same).1
      exact absurd here (wire_ne_nil (made item (by simp)))
  | cons byte content ih =>
    cases items with
    | nil =>
      have here := (List.append_eq_nil_iff.mp same.symm).1
      exact absurd here (wire_ne_nil (@made_ofWord true byte.toUInt64).here)
    | cons item items =>
      obtain ⟨here, others⟩ := List.forall_mem_cons.mp made
      obtain ⟨first, rest⟩ := eq_of_wire_ofWord here same
      rw [first, ih others rest, List.map_cons]

end

def FramedBy (config : Config) (item : Item) : Prop :=
  match item.body with
  | .array framing items => framing = config.framing items.length
  | .map framing entries => framing = config.framing entries.length
  | _ => True

theorem eq_of_wire_default {config : Config} {element : Element} {standard : DeclaredDefault} {item : Item}
    (made : item.Everywhere (Made config.definiteLengths)) (bare : item.Unembedded)
    (framed : item.FramedBy config) (same : item.wire = (standard.item config element).wire) :
    item = standard.item config element := by
  have made' := standard.made_item config element
  rcases standard.item_cases config element with ⟨plain, leaf⟩ | ⟨content, array⟩ | map
  · exact eq_of_wire_leaf made.here bare.here made'.here plain leaf same
  · rw [array] at made' same ⊢
    obtain ⟨plain, kind⟩ := @untagged_of_wire _ _ _ _ [] [] made.here made'.here rfl (by rw [same])
    rcases item with ⟨tags, body⟩
    cases plain
    cases body <;> cases kind
    rename_i framing items
    cases framed
    have inside : itemsWire items = itemsWire (content.map fun byte => .ofWord byte.toUInt64) := by
      have wires := (wire_array config items).symm.trans (same.trans (wire_array config _))
      exact Config.framed_inj wires
    have each : ∀ child ∈ items, child.Made config.definiteLengths := fun child member =>
      (made.child member).here
    exact congrArg (Item.array config) (items_of_wire each inside)
  · rw [map] at made' same ⊢
    obtain ⟨plain, kind⟩ := @untagged_of_wire _ _ _ _ [] [] made.here made'.here rfl (by rw [same])
    rcases item with ⟨tags, body⟩
    cases plain
    cases body <;> cases kind
    rename_i framing entries
    cases framed
    have inside : entriesWire entries = [] := by
      have wires := (wire_map config entries).symm.trans (same.trans (wire_map config []))
      exact Config.framed_inj wires
    cases entries with
    | nil => rfl
    | cons entry entries =>
      rcases entry with ⟨key, value⟩
      have here := (List.append_eq_nil_iff.mp inside).1
      exact absurd here (wire_ne_nil (made.child (mem_flattened.mpr ⟨_, List.mem_cons_self, .inl rfl⟩)).here)

end Item
end TypedCbor
