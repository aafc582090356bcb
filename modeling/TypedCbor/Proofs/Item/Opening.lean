import TypedCbor.Proofs.Item
import TypedCbor.Proofs.Outcome

namespace TypedCbor

theorem Bytes.ofBigEndian_bigEndian {width n : Nat} (fits : n < 256 ^ width) :
    ofBigEndian (bigEndian width n) = n := by
  induction width generalizing n with
  | zero => rw [Nat.pow_zero] at fits; rw [bigEndian, show n = 0 by omega]; rfl
  | succ width ih =>
    have above : n / 256 < 256 ^ width :=
      Nat.div_lt_of_lt_mul (by rw [Nat.pow_succ] at fits; omega)
    rw [bigEndian, ofBigEndian_concat, ih above, UInt8.toNat_ofNat']
    omega

theorem Major.initial_ne_break {major : Major} {info : Nat} (small : info < 32)
    (other : major = .simple → info ≠ indefiniteInfo) : major.initial info ≠ breakByte := by
  intro same
  have known := major.ofInitial_initial small
  have kept := major.initial_info small
  rw [same] at known kept
  exact other (by rw [← known]; decide) (by rw [← kept]; decide)

section
variable {major : Major} {head? : Option Head}

theorem openingHeader_info_lt (major : Major) (fits : ∀ head ∈ head?, head.Fits) :
    ∃ info < 32, (openingHeader major head?).initial = major.initial info ∧
      (head?.isSome → info ≠ indefiniteInfo) := by
  cases head? with
  | none => exact ⟨indefiniteInfo, by decide, rfl, by simp⟩
  | some head =>
    have small := (fits head rfl).info_lt
    exact ⟨_, by omega, rfl, fun _ same => by simp only [indefiniteInfo] at same; omega⟩

theorem openingHeader_major (major : Major) (fits : ∀ head ∈ head?, head.Fits) :
    (openingHeader major head?).major = major := by
  obtain ⟨info, small, same, _⟩ := openingHeader_info_lt major fits
  rw [Header.major, same, major.ofInitial_initial small]

theorem openHeader_major (major : Major) : (openingHeader major none).major = major :=
  @openingHeader_major none major nofun

theorem openingHeader_ne_break (major : Major) (fits : ∀ head ∈ head?, head.Fits)
    (closed : major = .simple → head?.isSome) : (openingHeader major head?).initial ≠ breakByte := by
  obtain ⟨info, small, same, told⟩ := openingHeader_info_lt major fits
  rw [same]
  exact Major.initial_ne_break small fun simple => told (closed simple)

theorem openingBytes_eq_cons (major : Major) (head? : Option Head) :
    openingBytes major head? =
      (openingHeader major head?).initial :: (openingBytes major head?).tail := by
  cases head? <;> rfl

end

namespace Cursor

@[simp] theorem outcome_readByte (byte : UInt8) (rest : Bytes) :
    outcome readByte (byte :: rest) = .ok (byte, rest) := rfl

@[simp] theorem outcome_peek (byte : UInt8) (rest : Bytes) :
    outcome peek (byte :: rest) = .ok (byte, byte :: rest) := rfl

@[simp] theorem outcome_peekMajor (byte : UInt8) (rest : Bytes) :
    outcome peekMajor (byte :: rest) = .ok (Major.ofInitial byte, byte :: rest) := rfl

theorem outcome_take (taken rest : Bytes) :
    outcome (take taken.length) (taken ++ rest) = .ok (taken, rest) := by
  rw [outcome, take_append]

theorem outcome_tryBreak (rest : Bytes) :
    outcome tryBreak (Wire.closing ++ rest) = .ok (true, rest) := rfl

theorem outcome_word {width n : Nat} (fits : n < 256 ^ width) (rest : Bytes) :
    outcome (word width) (Bytes.bigEndian width n ++ rest) = .ok (.value (UInt64.ofNat n), rest) := by
  have taken := outcome_take (Bytes.bigEndian width n) rest
  rw [Bytes.length_bigEndian] at taken
  rw [word, outcome_bind, taken, ok_bind, Bytes.ofBigEndian_bigEndian fits, outcome_pure]

theorem outcome_readArgument (major : Major) {head : Head} (fits : head.Fits) (rest : Bytes) :
    outcome (readArgument (major.initial (head.width.info head.n)))
        (Bytes.bigEndian head.width.size head.n ++ rest) = .ok (.value head.number, rest) := by
  have small := fits.info_lt
  unfold readArgument
  rw [major.initial_info (by omega)]
  rcases head with ⟨width, n⟩
  cases width with
  | immediate =>
    have below : n < 24 := fits
    simp [Width.info, Width.size, Bytes.bigEndian, Head.number, below]
  | one => exact outcome_word fits rest
  | two => exact outcome_word fits rest
  | four => exact outcome_word fits rest
  | eight => exact outcome_word fits rest

theorem outcome_readHeader {major : Major} {head? : Option Head} (fits : ∀ head ∈ head?, head.Fits)
    (opens : head? = none → major.hasIndefinite = true) (rest : Bytes) :
    outcome readHeader (openingBytes major head? ++ rest) = .ok (openingHeader major head?, rest) := by
  cases head? with
  | some head =>
    simp only [readHeader, openingBytes, Head.bytes, List.cons_append, outcome_bind, outcome_readByte,
      ok_bind, outcome_readArgument major (fits head rfl), outcome_pure]
    rfl
  | none =>
    have known : Major.ofInitial (major.initial indefiniteInfo) = major :=
      major.ofInitial_initial (by decide)
    have info : (major.initial indefiniteInfo).toNat % 32 = 31 := major.initial_info (by decide)
    simp [readHeader, openingBytes, openingHeader, readArgument, info, known, opens rfl]

theorem outcome_readHeader_bytes {head : Head} (fits : head.Fits) (major : Major) (rest : Bytes) :
    outcome readHeader (head.bytes major ++ rest) = .ok (head.header major, rest) :=
  @outcome_readHeader major (some head) (fun _ member => Option.mem_some.mp member ▸ fits) (by simp) rest

theorem outcome_peekMajor_opening {major : Major} {head? : Option Head}
    (fits : ∀ head ∈ head?, head.Fits) (rest : Bytes) :
    outcome peekMajor (openingBytes major head? ++ rest) =
      .ok (major, openingBytes major head? ++ rest) := by
  have known : Major.ofInitial (openingHeader major head?).initial = major :=
    openingHeader_major _ fits
  rw [openingBytes_eq_cons, List.cons_append, outcome_peekMajor, known]

theorem outcome_chunkRounds {major : Major} {chunks : List Chunk}
    (fits : ∀ chunk ∈ chunks, chunk.head.Fits) (rest : Bytes) {rounds : Nat}
    (enough : chunks.length < rounds) :
    outcome (chunkRounds major rounds)
        (chunks.flatMap (Chunk.bytes major) ++ (Wire.closing ++ rest)) =
      .ok (chunks.flatMap Chunk.content, rest) := by
  induction chunks generalizing rounds with
  | nil =>
    obtain ⟨rounds, rfl⟩ : ∃ n, rounds = n + 1 := ⟨rounds - 1, by simp at enough; omega⟩
    have closed : outcome readHeader (Wire.closing ++ rest) = .ok (⟨breakByte, .indefinite⟩, rest) :=
      @outcome_readHeader .simple none (by simp) (fun _ => rfl) rest
    simp [chunkRounds, closed, Header.isBreak]
  | cons chunk chunks ih =>
    obtain ⟨rounds, rfl⟩ : ∃ n, rounds = n + 1 := ⟨rounds - 1, by simp at enough; omega⟩
    have here : ∀ head ∈ some chunk.head, head.Fits := by simpa using fits chunk (by simp)
    have known := openingHeader_major major here
    have going := openingHeader_ne_break major here (by simp)
    have others := ih (fun other member => fits other (by simp [member]))
      (show chunks.length < rounds by simpa using enough)
    have length : chunk.head.number.toNat = chunk.content.length :=
      (fits chunk (by simp)).toNat_number
    simp only [List.flatMap_cons, Chunk.bytes, List.append_assoc]
    change outcome _ (openingBytes major (some chunk.head) ++ _) = _
    simp only [openingHeader] at known going
    rw [chunkRounds, outcome_bind, outcome_readHeader here (by simp)]
    simp [openingHeader, Header.isBreak, going, known, length, outcome_take, others]

theorem outcome_readPayload {major : Major} {form : StringForm}
    (fits : ∀ chunk ∈ form.chunks, chunk.head.Fits) (opens : form.head? = none → major.hasIndefinite)
    (rest : Bytes) :
    outcome (readPayload (openingHeader major form.head?)) (form.body major ++ rest) =
      .ok (⟨form.content, form.isWhole⟩, rest) := by
  cases form with
  | whole chunk =>
    have length : chunk.head.number.toNat = chunk.content.length :=
      (fits chunk (by simp [StringForm.chunks])).toNat_number
    simp [readPayload, openingHeader, StringForm.head?, length, StringForm.body,
      outcome_take, StringForm.isWhole]
  | chunked chunks =>
    have known := @openingHeader_major none major (by simp)
    have enough : chunks.length <
        (chunks.flatMap (Chunk.bytes major) ++ (Wire.closing ++ rest)).length + 1 := by
      have bound := @length_le_length_flatMap _ (Chunk.bytes major) chunks
        (by simp [Chunk.bytes, Head.bytes])
      simp only [List.length_append]
      omega
    simp only [openingHeader] at known
    simp only [readPayload, openingHeader, StringForm.head?, StringForm.body, List.append_assoc,
      outcome_bind, outcome_get, ok_bind, known, @outcome_chunkRounds major chunks fits rest _ enough, outcome_pure]
    rfl

end Cursor

namespace Body

variable {body : Body Item}

theorem major_ne_tag (body : Body Item) : body.major ≠ .tag := by cases body <;> simp [major]

theorem hasIndefinite_of_open (opens : body.head? = none) : body.major.hasIndefinite = true := by
  cases body <;> simp_all [head?, major, Major.hasIndefinite]

theorem isSome_of_simple (simple : body.major = .simple) : body.head?.isSome := by
  cases body <;> simp_all [head?, major]

theorem header_major (fits : ∀ head ∈ body.head?, head.Fits) : body.header.major = body.major :=
  openingHeader_major _ fits

theorem ofInitial_header (fits : ∀ head ∈ body.head?, head.Fits) :
    Major.ofInitial body.header.initial = body.major := header_major fits

theorem header_ne_break (fits : ∀ head ∈ body.head?, head.Fits) : body.header.initial ≠ breakByte :=
  openingHeader_ne_break _ fits isSome_of_simple

end Body

theorem bodyBytes_eq_cons (body : Body Item) :
    bodyBytes body = body.header.initial :: (bodyBytes body).tail := by
  rw [bodyBytes_eq, openingBytes_eq_cons]
  rfl

namespace Cursor

theorem outcome_readHeader_body {body : Body Item} (fits : ∀ head ∈ body.head?, head.Fits)
    (rest : Bytes) :
    outcome readHeader (bodyBytes body ++ rest) = .ok (body.header, body.content ++ rest) := by
  rw [bodyBytes_eq, List.append_assoc]
  exact outcome_readHeader fits Body.hasIndefinite_of_open _

theorem outcome_tagRounds {tags : List Head} (fits : ∀ tag ∈ tags, tag.Fits) {byte : UInt8}
    (stops : Major.ofInitial byte ≠ .tag) (rest : Bytes) {rounds : Nat} (enough : tags.length < rounds) :
    outcome (tagRounds rounds) (tagBytes tags ++ byte :: rest) =
      .ok (tags.map Head.number, byte :: rest) := by
  induction tags generalizing rounds with
  | nil =>
    obtain ⟨rounds, rfl⟩ : ∃ n, rounds = n + 1 := ⟨rounds - 1, by simp at enough; omega⟩
    simp [tagRounds, tagBytes, stops]
  | cons tag tags ih =>
    obtain ⟨rounds, rfl⟩ : ∃ n, rounds = n + 1 := ⟨rounds - 1, by simp at enough; omega⟩
    have here : ∀ head ∈ some tag, head.Fits := by simpa using fits tag (by simp)
    have others := ih (fun other member => fits other (by simp [member]))
      (show tags.length < rounds by simpa using enough)
    simp only [tagBytes, List.flatMap_cons, List.append_assoc] at others ⊢
    change outcome _ (openingBytes .tag (some tag) ++ _) = _
    rw [tagRounds, outcome_bind, outcome_peekMajor_opening here]
    simp only [ok_bind, outcome_ite, if_true, outcome_bind, outcome_readHeader here (by simp)]
    simp [openingHeader, others]

theorem outcome_readTags {tags : List Head} (fits : ∀ tag ∈ tags, tag.Fits) {byte : UInt8}
    (stops : Major.ofInitial byte ≠ .tag) (rest : Bytes) :
    outcome readTags (tagBytes tags ++ byte :: rest) = .ok (tags.map Head.number, byte :: rest) := by
  have enough : tags.length < (tagBytes tags ++ byte :: rest).length + 1 := by
    have bound := @length_le_length_flatMap _ (Head.bytes .tag) tags (by simp [Head.bytes])
    simp only [List.length_append, tagBytes]
    omega
  simp only [readTags, outcome_bind, outcome_get, ok_bind]
  exact outcome_tagRounds fits stops rest enough

theorem outcome_readTags_untagged {byte : UInt8} (stops : Major.ofInitial byte ≠ .tag) (rest : Bytes) :
    outcome readTags (byte :: rest) = .ok ([], byte :: rest) :=
  @outcome_readTags [] (by simp) byte stops rest

theorem outcome_readTags_item {item : Item} (formed : item.Formed) (rest : Bytes) :
    outcome readTags (item.bytes ++ rest) = .ok (item.tagNumbers, bodyBytes item.body ++ rest) := by
  rw [item.bytes_eq, List.append_assoc, bodyBytes_eq_cons, List.cons_append]
  refine outcome_readTags formed.tags ?_ _
  rw [Body.ofInitial_header formed.head]
  exact item.body.major_ne_tag

end Cursor

namespace Item

def firstMajor (item : Item) : Major := if item.tags = [] then item.body.major else .tag

theorem bytes_eq_cons {item : Item} (formed : item.Formed) :
    ∃ byte more, item.bytes = byte :: more ∧ byte ≠ breakByte ∧
      Major.ofInitial byte = item.firstMajor := by
  rw [item.bytes_eq, firstMajor]
  cases found : item.tags with
  | nil =>
    refine ⟨_, _, bodyBytes_eq_cons item.body, Body.header_ne_break formed.head, ?_⟩
    rw [Body.ofInitial_header formed.head, if_pos rfl]
  | cons tag tags =>
    have here : ∀ head ∈ some tag, head.Fits := by simpa using formed.tags tag (by simp [found])
    refine ⟨_, _, rfl, openingHeader_ne_break .tag here (by simp), ?_⟩
    rw [if_neg (by simp)]
    exact openingHeader_major _ here

end Item

namespace Cursor

theorem outcome_tryBreak_item {item : Item} (formed : item.Formed) (rest : Bytes) :
    outcome tryBreak (item.bytes ++ rest) = .ok (false, item.bytes ++ rest) := by
  obtain ⟨byte, more, opens, going, -⟩ := Item.bytes_eq_cons formed
  simp [opens, tryBreak, outcome, going]

theorem outcome_peekMajor_item {item : Item} (formed : item.Formed) (rest : Bytes) :
    outcome peekMajor (item.bytes ++ rest) = .ok (item.firstMajor, item.bytes ++ rest) := by
  obtain ⟨byte, more, opens, -, major⟩ := Item.bytes_eq_cons formed
  simp [opens, major]

end Cursor

namespace Item

theorem length_bytes_pos (item : Item) : 0 < item.bytes.length := by
  rw [item.bytes_eq, bodyBytes_eq_cons]
  simp only [List.length_append, List.length_cons]
  omega

theorem length_le_itemsBytes (items : List Item) : items.length ≤ (itemsBytes items).length := by
  induction items with
  | nil => simp
  | cons item items ih =>
    have here := item.length_bytes_pos
    simp only [itemsBytes, List.length_append, List.length_cons]
    omega

theorem length_content_lt (item : Item) : item.body.content.length < item.bytes.length := by
  rw [item.bytes_eq, bodyBytes_eq, openingBytes_eq_cons]
  simp only [List.length_append, List.length_cons]
  omega

theorem length_lt_of_mem_children {item child : Item} (member : child ∈ item.body.children) :
    child.bytes.length < item.bytes.length := by
  have bound := item.length_content_lt
  cases found : item.body <;> simp only [found, Body.children, Body.content, entriesBytes_eq,
    List.length_append, List.mem_singleton, List.not_mem_nil] at member bound
  case array | map =>
    have inside := length_bytes_le_of_mem member
    omega
  case embedded => exact member ▸ bound

end Item
end TypedCbor
