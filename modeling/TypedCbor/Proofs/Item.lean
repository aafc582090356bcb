import Mathlib.Algebra.Group.Int.Defs
import Mathlib.Algebra.Group.Nat.Defs
import Mathlib.Tactic.SplitIfs
import TypedCbor.Wire

namespace TypedCbor

inductive Width where
  | immediate
  | one
  | two
  | four
  | eight
  deriving DecidableEq, Repr

namespace Width

def size : Width → Nat
  | immediate => 0
  | one => 1
  | two => 2
  | four => 4
  | eight => 8

def limit : Width → Nat
  | immediate => 24
  | one => 256 ^ 1
  | two => 256 ^ 2
  | four => 256 ^ 4
  | eight => 256 ^ 8

def info (n : Nat) : Width → Nat
  | immediate => n
  | one => 24
  | two => 25
  | four => 26
  | eight => 27

def narrowest (n : Nat) : Width :=
  if n < 24 then immediate
  else if n < 2 ^ 8 then one
  else if n < 2 ^ 16 then two
  else if n < 2 ^ 32 then four
  else eight

theorem limit_le (width : Width) : width.limit ≤ 2 ^ 64 := by cases width <;> decide

theorem narrowest_holds {n : Nat} (small : n < 2 ^ 64) : n < (narrowest n).limit := by
  unfold narrowest
  split_ifs <;> simp only [limit] <;> omega

theorem narrowest_least {n : Nat} {width : Width} (fits : n < width.limit) :
    (narrowest n).size ≤ width.size := by
  unfold narrowest
  cases width <;> simp only [limit] at fits <;> split_ifs <;> simp only [size] <;> omega

end Width

structure Head where
  width : Width
  n : Nat
  deriving DecidableEq, Repr

namespace Head

def Fits (head : Head) : Prop := head.n < head.width.limit

instance (head : Head) : Decidable head.Fits := inferInstanceAs (Decidable (head.n < head.width.limit))

def IsShortest (head : Head) : Prop := head.width = .narrowest head.n

def shortest (n : Nat) : Head := ⟨.narrowest n, n⟩

def number (head : Head) : UInt64 := UInt64.ofNat head.n

def bytes (major : Major) (head : Head) : Bytes :=
  major.initial (head.width.info head.n) :: Bytes.bigEndian head.width.size head.n

def header (major : Major) (head : Head) : Header :=
  ⟨major.initial (head.width.info head.n), .value head.number⟩

@[simp] theorem argument_header (major : Major) (head : Head) :
    (head.header major).argument = .value head.number := rfl

theorem Fits.lt {head : Head} (fits : head.Fits) : head.n < 2 ^ 64 :=
  Nat.lt_of_lt_of_le fits head.width.limit_le

theorem fits_shortest {n : Nat} (small : n < 2 ^ 64) : (shortest n).Fits :=
  Width.narrowest_holds small

theorem IsShortest.fits {head : Head} (shortest : head.IsShortest) (small : head.n < 2 ^ 64) :
    head.Fits := by
  unfold Fits
  rw [shortest]
  exact Width.narrowest_holds small

theorem Fits.toNat_number {head : Head} (fits : head.Fits) : head.number.toNat = head.n :=
  UInt64.toNat_ofNat_of_lt' fits.lt

theorem map_number_shortest (numbers : List UInt64) :
    (numbers.map fun n => shortest n.toNat).map number = numbers := by
  have same : (number ∘ fun n : UInt64 => shortest n.toNat) = id := by
    funext n
    exact UInt64.ofNat_toNat
  rw [List.map_map, same, List.map_id]

theorem Fits.info_lt {head : Head} (fits : head.Fits) : head.width.info head.n < 28 := by
  rcases head with ⟨width, n⟩
  cases width <;> simp only [Fits, Width.limit, Width.info] at * <;> omega

theorem eq_of_header {major : Major} {head other : Head} (fits : head.Fits) (fits' : other.Fits)
    (same : head.header major = other.header major) : head = other := by
  have count : head.n = other.n := by
    have arguments := congrArg Header.argument same
    rw [argument_header, argument_header] at arguments
    rw [← fits.toNat_number, ← fits'.toNat_number, Argument.value.inj arguments]
  have info : head.width.info head.n = other.width.info other.n := by
    rw [← major.initial_info (Nat.lt_trans fits.info_lt (by decide)),
      ← major.initial_info (Nat.lt_trans fits'.info_lt (by decide))]
    exact congrArg Header.info same
  rcases head with ⟨width, n⟩
  rcases other with ⟨width', n'⟩
  cases count
  cases width <;> cases width' <;> simp only [Width.info, Fits, Width.limit] at info fits fits' <;>
    first | rfl | omega

end Head

theorem length_le_length_flatMap {f : α → Bytes} {parts : List α}
    (each : ∀ part ∈ parts, 0 < (f part).length) : parts.length ≤ (parts.flatMap f).length := by
  induction parts with
  | nil => simp
  | cons part parts ih =>
    have here := each part (by simp)
    have others := ih fun other member => each other (by simp [member])
    simp only [List.flatMap_cons, List.length_append, List.length_cons]
    omega

def openingBytes (major : Major) : Option Head → Bytes
  | some head => head.bytes major
  | none => [major.initial indefiniteInfo]

def openingHeader (major : Major) : Option Head → Header
  | some head => head.header major
  | none => ⟨major.initial indefiniteInfo, .indefinite⟩

inductive Framing where
  | counted (width : Width)
  | delimited
  deriving DecidableEq, Repr

namespace Framing

def head? (count : Nat) : Framing → Option Head
  | counted width => some ⟨width, count⟩
  | delimited => none

def closing : Framing → Bytes
  | counted _ => []
  | delimited => Wire.closing

def announced (count : Nat) : Framing → Option Nat
  | counted _ => some count
  | delimited => none

theorem counted_ne_delimited {width : Width} : counted width ≠ delimited := by
  rintro ⟨⟩

end Framing

structure Chunk where
  width : Width
  content : Bytes
  deriving DecidableEq, Repr

namespace Chunk

def head (chunk : Chunk) : Head := ⟨chunk.width, chunk.content.length⟩

def bytes (major : Major) (chunk : Chunk) : Bytes := chunk.head.bytes major ++ chunk.content

end Chunk

inductive StringForm where
  | whole (chunk : Chunk)
  | chunked (chunks : List Chunk)
  deriving DecidableEq, Repr

namespace StringForm

def head? : StringForm → Option Head
  | whole chunk => some chunk.head
  | chunked _ => none

def body (major : Major) : StringForm → Bytes
  | whole chunk => chunk.content
  | chunked chunks => chunks.flatMap (Chunk.bytes major) ++ Wire.closing

def chunks : StringForm → List Chunk
  | whole chunk => [chunk]
  | chunked chunks => chunks

def content (form : StringForm) : Bytes := form.chunks.flatMap Chunk.content

def isWhole : StringForm → Bool
  | whole _ => true
  | chunked _ => false

@[simp] theorem content_whole (chunk : Chunk) : (whole chunk).content = chunk.content := by
  simp [content, chunks]

end StringForm

inductive Body (ι : Type) where
  | unsigned (head : Head)
  | negative (head : Head)
  | bytes (form : StringForm)
  | text (form : StringForm)
  | array (framing : Framing) (items : List ι)
  | map (framing : Framing) (entries : List (ι × ι))
  -- Simple values and floats.
  | simple (head : Head)
  -- A byte string whose content is an item of its own.
  | embedded (width : Width) (item : ι)

def flattened (entries : List (ι × ι)) : List ι := entries.flatMap fun entry => [entry.1, entry.2]

@[simp] theorem flattened_nil : flattened ([] : List (ι × ι)) = [] := rfl

@[simp] theorem flattened_cons (key value : ι) (entries : List (ι × ι)) :
    flattened ((key, value) :: entries) = key :: value :: flattened entries := rfl

theorem length_flattened (entries : List (ι × ι)) :
    (flattened entries).length = 2 * entries.length := by
  induction entries with
  | nil => rfl
  | cons entry entries ih =>
    simp only [flattened, List.flatMap_cons, List.length_append, List.length_cons] at ih ⊢
    simp only [List.length_nil]
    omega

theorem exists_entries {items : List ι} {count : Nat} (even : items.length = 2 * count) :
    ∃ entries : List (ι × ι), flattened entries = items ∧ entries.length = count := by
  induction count generalizing items with
  | zero => exact ⟨[], (List.length_eq_zero_iff.mp even).symm, rfl⟩
  | succ count ih =>
    match items, even with
    | key :: value :: others, even =>
      obtain ⟨entries, rfl, length⟩ := ih (show others.length = 2 * count by simp at even; omega)
      exact ⟨(key, value) :: entries, rfl, congrArg (· + 1) length⟩

theorem mem_flattened {entries : List (ι × ι)} {part : ι} :
    part ∈ flattened entries ↔ ∃ entry ∈ entries, part = entry.1 ∨ part = entry.2 := by
  simp [flattened]

def Body.children : Body ι → List ι
  | .array _ items => items
  | .map _ entries => flattened entries
  | .embedded _ item => [item]
  | _ => []

-- What a document says, together with every choice that its encoding leaves open: the width of each
-- head, the framing of arrays and maps, the chunks of strings.
inductive Item where
  | mk (tags : List Head) (body : Body Item)

def tagBytes (tags : List Head) : Bytes := tags.flatMap (Head.bytes .tag)

theorem tagBytes_cons (tag : Head) (tags : List Head) :
    tagBytes (tag :: tags) = tag.bytes .tag ++ tagBytes tags := List.flatMap_cons

mutual
def Item.bytes : Item → Bytes
  | ⟨tags, body⟩ => tagBytes tags ++ bodyBytes body

def bodyBytes : Body Item → Bytes
  | .unsigned head => openingBytes .unsigned (some head)
  | .negative head => openingBytes .negative (some head)
  | .bytes form => openingBytes .bytes form.head? ++ form.body .bytes
  | .text form => openingBytes .text form.head? ++ form.body .text
  | .array framing items =>
    openingBytes .array (framing.head? items.length) ++ (itemsBytes items ++ framing.closing)
  | .map framing entries =>
    openingBytes .map (framing.head? entries.length) ++ (entriesBytes entries ++ framing.closing)
  | .simple head => openingBytes .simple (some head)
  | .embedded width item =>
    openingBytes .bytes (some ⟨width, item.bytes.length⟩) ++ item.bytes

def itemsBytes : List Item → Bytes
  | [] => []
  | item :: rest => item.bytes ++ itemsBytes rest

def entriesBytes : List (Item × Item) → Bytes
  | [] => []
  | (key, value) :: rest => key.bytes ++ (value.bytes ++ entriesBytes rest)
end

namespace Body

def major : Body ι → Major
  | unsigned _ => .unsigned
  | negative _ => .negative
  | bytes _ | embedded .. => .bytes
  | text _ => .text
  | array .. => .array
  | map .. => .map
  | simple _ => .simple

def head? : Body Item → Option Head
  | unsigned head | negative head | simple head => some head
  | bytes form | text form => form.head?
  | array framing items => framing.head? items.length
  | map framing entries => framing.head? entries.length
  | embedded width item => some ⟨width, item.bytes.length⟩

def chunks : Body ι → List Chunk
  | bytes form | text form => form.chunks
  | _ => []

def content : Body Item → Bytes
  | unsigned _ | negative _ | simple _ => []
  | bytes form => form.body .bytes
  | text form => form.body .text
  | array framing items => itemsBytes items ++ framing.closing
  | map framing entries => entriesBytes entries ++ framing.closing
  | embedded _ item => item.bytes

def header (body : Body Item) : Header := openingHeader body.major body.head?

end Body

theorem itemsBytes_append (left right : List Item) :
    itemsBytes (left ++ right) = itemsBytes left ++ itemsBytes right := by
  induction left with
  | nil => rfl
  | cons item left ih => simp [itemsBytes, ih]

theorem entriesBytes_eq (entries : List (Item × Item)) :
    entriesBytes entries = itemsBytes (flattened entries) := by
  induction entries with
  | nil => rfl
  | cons entry entries ih => simp_all [entriesBytes, itemsBytes, flattened]

theorem length_bytes_le_of_mem {item : Item} {items : List Item} (member : item ∈ items) :
    item.bytes.length ≤ (itemsBytes items).length := by
  obtain ⟨before, after, rfl⟩ := List.append_of_mem member
  simp only [itemsBytes_append, itemsBytes, List.length_append]
  omega

theorem bodyBytes_eq (body : Body Item) :
    bodyBytes body = openingBytes body.major body.head? ++ body.content := by
  cases body <;> simp [bodyBytes, Body.major, Body.head?, Body.content]

namespace Item

def tags : Item → List Head
  | ⟨tags, _⟩ => tags

def body : Item → Body Item
  | ⟨_, body⟩ => body

@[simp] theorem tags_mk (tags : List Head) (body : Body Item) : (mk tags body).tags = tags := rfl

@[simp] theorem body_mk (tags : List Head) (body : Body Item) : (mk tags body).body = body := rfl

theorem bytes_eq (item : Item) : item.bytes = tagBytes item.tags ++ bodyBytes item.body := by
  rcases item with ⟨tags, body⟩
  rw [Item.bytes, tags_mk, body_mk]

def tagNumbers (item : Item) : List UInt64 := item.tags.map Head.number

inductive Everywhere (P : Item → Prop) : Item → Prop where
  | intro (here : P item) (inside : ∀ child ∈ item.body.children, Everywhere P child) :
    Everywhere P item

-- Every argument fits the width it is written in, and the simple values below 32 have no second
-- form with a byte of their own.
structure Formed (item : Item) : Prop where
  tags : ∀ tag ∈ item.tags, tag.Fits
  head : ∀ head ∈ item.body.head?, head.Fits
  chunks : ∀ chunk ∈ item.body.chunks, chunk.head.Fits
  simple : ∀ n, item.body = .simple ⟨.one, n⟩ → 32 ≤ n

-- Well-formed in the sense of the format: counts are true and breaks in place by construction.
def WellFormed : Item → Prop := Everywhere Formed

theorem formed_of_ordinary {item : Item} (ordinary : item.body.major ≠ .simple)
    (tags : ∀ tag ∈ item.tags, tag.Fits) (head : ∀ head ∈ item.body.head?, head.Fits)
    (chunks : ∀ chunk ∈ item.body.chunks, chunk.head.Fits) : item.Formed where
  tags := tags
  head := head
  chunks := chunks
  simple := fun _ same => absurd (congrArg Body.major same) ordinary

theorem Formed.wellFormed {item : Item} (formed : item.Formed) (childless : item.body.children = []) :
    item.WellFormed := by
  refine .intro formed ?_
  rw [childless]
  exact List.forall_mem_nil _

-- Every tag, number, length and count is written in the narrowest width that holds it. Of major type
-- seven the width is no choice: it tells simple values and the three kinds of floats apart.
structure Short (item : Item) : Prop where
  tags : ∀ tag ∈ item.tags, tag.IsShortest
  head : item.body.major ≠ .simple → ∀ head ∈ item.body.head?, head.IsShortest
  chunks : ∀ chunk ∈ item.body.chunks, chunk.head.IsShortest

def Shortest : Item → Prop := Everywhere Short

def Definite : Item → Prop := Everywhere fun item => item.body.head?.isSome

theorem induction {P : Item → Prop}
    (step : ∀ tags body, (∀ child ∈ body.children, P child) → P ⟨tags, body⟩) (item : Item) :
    P item := by
  refine @Item.rec P (fun body => ∀ child ∈ body.children, P child)
    (fun items => ∀ child ∈ items, P child) (fun entries => ∀ entry ∈ entries, P entry.1 ∧ P entry.2)
    (fun entry => P entry.1 ∧ P entry.2) step ?unsigned ?negative ?bytes ?text ?array ?map ?simple
    ?embedded ?noItem ?items ?noEntry ?entries ?entry item
  case array => exact fun _ _ inside => inside
  case map =>
    intro framing entries inside child member
    obtain ⟨entry, present, rfl | rfl⟩ := mem_flattened.mp member
    · exact (inside entry present).1
    · exact (inside entry present).2
  case embedded => exact fun _ _ inside => by simpa [Body.children] using inside
  case entry => exact fun _ _ left right => ⟨left, right⟩
  all_goals simp +contextual [Body.children]

end Item
end TypedCbor
