import TypedCbor.Proofs.Item.Opening

namespace TypedCbor

-- What passing over an item looks at. More can be outlined so than the format knows.
inductive Outline where
  -- A head with the bytes behind it that it measures.
  | leaf (tags : List Head) (major : Major) (head : Head) (content : Bytes)
  -- Parts behind a head that counts them, or up to a break.
  | compound (tags : List Head) (major : Major) (framing : Framing) (parts : List Outline)

def Major.units (major : Major) (count : Nat) : Nat := if major = .map then count / 2 else count

mutual
def Outline.bytes : Outline → Bytes
  | .leaf tags major head content => tagBytes tags ++ (head.bytes major ++ content)
  | .compound tags major framing parts =>
    tagBytes tags ++ (openingBytes major (framing.head? (major.units parts.length)) ++
      (partsBytes parts ++ framing.closing))

def partsBytes : List Outline → Bytes
  | [] => []
  | part :: parts => part.bytes ++ partsBytes parts
end

def Head.Measures (head : Head) (major : Major) (content : Bytes) : Prop :=
  match major with
  | .unsigned | .negative | .simple => content = []
  | .bytes | .text => content.length = head.n
  | .array | .map | .tag => False

-- How many parts a structure may have, as far as its head tells. In chunks only its opening tells that
-- it is a string.
def Framing.Admits (framing : Framing) (major : Major) (count : Nat) : Prop :=
  match framing, major with
  | .counted _, .array => True
  | .counted _, .map => count % 2 = 0
  | .delimited, .bytes | .delimited, .text | .delimited, .array | .delimited, .map => True
  | _, _ => False

namespace Outline

-- Every argument fits the width it is written in, counts are true and breaks in place.
inductive Sound : Outline → Prop where
  | leaf {tags : List Head} {major : Major} {head : Head} {content : Bytes}
    (tagsFit : ∀ tag ∈ tags, tag.Fits) (fits : head.Fits) (measured : head.Measures major content) :
    Sound (.leaf tags major head content)
  | compound {tags : List Head} {major : Major} {framing : Framing} {parts : List Outline}
    (tagsFit : ∀ tag ∈ tags, tag.Fits)
    (fits : ∀ head ∈ framing.head? (major.units parts.length), head.Fits)
    (admitted : framing.Admits major parts.length) (inside : ∀ part ∈ parts, Sound part) :
    Sound (.compound tags major framing parts)

-- What the format asks for beyond that: chunks are strings of the same type, measured and without
-- tags, every key has its value, and simple values have one form only.
inductive Strict : Outline → Prop where
  | leaf {tags : List Head} {major : Major} {head : Head} {content : Bytes}
    (first : major = .simple → head.width = .one → 32 ≤ head.n) : Strict (.leaf tags major head content)
  | compound {tags : List Head} {major : Major} {framing : Framing} {parts : List Outline}
    (chunks : major = .bytes ∨ major = .text →
      ∀ part ∈ parts, ∃ head content, part = .leaf [] major head content)
    (pairs : major = .map → parts.length % 2 = 0) (inside : ∀ part ∈ parts, Strict part) :
    Strict (.compound tags major framing parts)

def tags : Outline → List Head
  | leaf tags .. | compound tags .. => tags

def major : Outline → Major
  | leaf _ major .. | compound _ major .. => major

def head? : Outline → Option Head
  | leaf _ _ head _ => some head
  | compound _ major framing parts => framing.head? (major.units parts.length)

def content : Outline → Bytes
  | leaf _ _ _ content => content
  | compound _ _ framing parts => partsBytes parts ++ framing.closing

theorem bytes_eq (outline : Outline) :
    outline.bytes = tagBytes outline.tags ++
      (openingBytes outline.major outline.head? ++ outline.content) := by
  cases outline <;> rw [bytes] <;> rfl

end Outline

theorem partsBytes_append (left right : List Outline) :
    partsBytes (left ++ right) = partsBytes left ++ partsBytes right := by
  induction left with
  | nil => rfl
  | cons part left ih => rw [List.cons_append, partsBytes, partsBytes, ih, List.append_assoc]

structure Opening (tags : List Head) (major : Major) (head? : Option Head) : Prop where
  tagsFit : ∀ tag ∈ tags, tag.Fits
  fits : ∀ head ∈ head?, head.Fits
  opens : head? = none → major.hasIndefinite = true
  untagged : major ≠ .tag

namespace Opening

variable {tags tags' : List Head} {major major' : Major} {head? head?' : Option Head}
  {left right : Bytes}

theorem ofTag {tag : Head} (fits : tag.Fits) : ∀ head ∈ some tag, head.Fits :=
  fun _ member => Option.mem_some.mp member ▸ fits

theorem eq_of_openingBytes (fits : ∀ head ∈ head?, head.Fits) (fits' : ∀ head ∈ head?', head.Fits)
    (opens : head? = none → major.hasIndefinite = true)
    (opens' : head?' = none → major'.hasIndefinite = true)
    (same : openingBytes major head? ++ left = openingBytes major' head?' ++ right) :
    major = major' ∧ head? = head?' ∧ left = right := by
  have both := congrArg (outcome Cursor.readHeader) same
  rw [Cursor.outcome_readHeader fits opens, Cursor.outcome_readHeader fits' opens'] at both
  obtain ⟨headers, rests⟩ := Prod.mk.inj (Except.ok.inj both)
  have majors : major = major' := by
    rw [← openingHeader_major major fits, headers, openingHeader_major major' fits']
  subst majors
  refine ⟨rfl, ?_, rests⟩
  cases head? with
  | none =>
    cases head?' with
    | none => rfl
    | some other => cases congrArg Header.argument headers
  | some head =>
    cases head?' with
    | none => cases congrArg Header.argument headers
    | some other => rw [Head.eq_of_header (fits head rfl) (fits' other rfl) headers]

theorem eq_of_bytes (opening : Opening tags major head?) (opening' : Opening tags' major' head?')
    (same : tagBytes tags ++ (openingBytes major head? ++ left) =
      tagBytes tags' ++ (openingBytes major' head?' ++ right)) :
    tags = tags' ∧ major = major' ∧ head? = head?' ∧ left = right := by
  have closed (tag : Head) : some tag = none → Major.tag.hasIndefinite = true := nofun
  induction tags generalizing tags' with
  | nil =>
    cases tags' with
    | nil =>
      obtain ⟨majors, heads, rests⟩ :=
        eq_of_openingBytes opening.fits opening'.fits opening.opens opening'.opens same
      exact ⟨rfl, majors, heads, rests⟩
    | cons tag tags' =>
      have tagFits := ofTag (opening'.tagsFit tag List.mem_cons_self)
      rw [tagBytes_cons, List.append_assoc] at same
      exact absurd (eq_of_openingBytes opening.fits tagFits opening.opens (closed tag) same).1
        opening.untagged
  | cons tag tags ih =>
    have tagFits := ofTag (opening.tagsFit tag List.mem_cons_self)
    rw [tagBytes_cons, List.append_assoc] at same
    cases tags' with
    | nil =>
      exact absurd (eq_of_openingBytes opening'.fits tagFits opening'.opens (closed tag) same.symm).1
        opening'.untagged
    | cons tag' tags' =>
      have tagFits' := ofTag (opening'.tagsFit tag' List.mem_cons_self)
      rw [tagBytes_cons, List.append_assoc] at same
      obtain ⟨-, first, others⟩ :=
        eq_of_openingBytes tagFits tagFits' (closed tag) (closed tag') same
      cases first
      obtain ⟨rfl, rest⟩ := ih ⟨fun _ member => opening.tagsFit _ (List.mem_cons_of_mem _ member),
        opening.fits, opening.opens, opening.untagged⟩
        ⟨fun _ member => opening'.tagsFit _ (List.mem_cons_of_mem _ member), opening'.fits,
          opening'.opens, opening'.untagged⟩ others
      exact ⟨rfl, rest⟩

theorem bytes_eq_cons (opening : Opening tags major head?) (closed : major = .simple → head?.isSome)
    (rest : Bytes) :
    ∃ byte more, tagBytes tags ++ (openingBytes major head? ++ rest) = byte :: more ∧
      byte ≠ breakByte := by
  cases tags with
  | nil =>
    refine ⟨_, (openingBytes major head?).tail ++ rest, ?_, openingHeader_ne_break major opening.fits closed⟩
    rw [openingBytes_eq_cons]
    rfl
  | cons tag tags =>
    have tagFits := ofTag (opening.tagsFit tag List.mem_cons_self)
    exact ⟨_, _, rfl, openingHeader_ne_break .tag tagFits fun none => nomatch none⟩

end Opening

namespace Outline

theorem Sound.opening {outline : Outline} (sound : outline.Sound) :
    Opening outline.tags outline.major outline.head? := by
  cases sound with
  | @leaf tags major head content tagsFit fits measured =>
    refine ⟨tagsFit, Opening.ofTag fits, fun none => ?_, ?_⟩
    · cases none
    · rintro rfl
      exact measured
  | @compound tags major framing parts tagsFit fits admitted =>
    refine ⟨tagsFit, fits, fun none => ?_, ?_⟩
    · cases framing with
      | counted width => cases none
      | delimited => cases major <;> first | rfl | cases admitted
    · rintro rfl
      cases framing <;> exact admitted

theorem Sound.bytes_eq_cons {outline : Outline} (sound : outline.Sound) :
    ∃ byte more, outline.bytes = byte :: more ∧ byte ≠ breakByte := by
  rw [outline.bytes_eq]
  refine sound.opening.bytes_eq_cons (fun simple => ?_) _
  cases sound with
  | leaf => rfl
  | @compound tags major framing parts _ _ admitted =>
    cases simple
    cases framing <;> cases admitted

theorem Sound.length_bytes_pos {outline : Outline} (sound : outline.Sound) : 0 < outline.bytes.length := by
  obtain ⟨byte, more, same, -⟩ := sound.bytes_eq_cons
  rw [same]
  exact Nat.succ_pos _

theorem length_le_partsBytes {parts : List Outline} (sound : ∀ part ∈ parts, part.Sound) :
    parts.length ≤ (partsBytes parts).length := by
  induction parts with
  | nil => exact Nat.le_refl _
  | cons part parts ih =>
    obtain ⟨here, others⟩ := List.forall_mem_cons.mp sound
    have first := here.length_bytes_pos
    have rest := ih others
    rw [partsBytes, List.length_append, List.length_cons]
    omega

theorem length_bytes_le_partsBytes {part : Outline} {parts : List Outline} (member : part ∈ parts) :
    part.bytes.length ≤ (partsBytes parts).length := by
  obtain ⟨before, after, rfl⟩ := List.append_of_mem member
  rw [partsBytes_append, partsBytes, List.length_append, List.length_append]
  omega

theorem eq_of_partsBytes {parts parts' : List Outline} {framing : Framing} {left right : Bytes}
    (each : ∀ part ∈ parts, ∀ other : Outline, other.Sound → ∀ rest rest',
      part.bytes ++ rest = other.bytes ++ rest' → part = other ∧ rest = rest')
    (sound : ∀ part ∈ parts, part.Sound) (sound' : ∀ part ∈ parts', part.Sound)
    (count : framing ≠ .delimited → parts.length = parts'.length)
    (same : partsBytes parts ++ (framing.closing ++ left) = partsBytes parts' ++ (framing.closing ++ right)) :
    parts = parts' ∧ left = right := by
  induction parts generalizing parts' with
  | nil =>
    cases parts' with
    | nil => exact ⟨rfl, List.append_cancel_left same⟩
    | cons other parts' =>
      cases framing with
      | counted width => cases count Framing.counted_ne_delimited
      | delimited =>
        obtain ⟨byte, more, opens, going⟩ := (sound' other List.mem_cons_self).bytes_eq_cons
        rw [partsBytes, partsBytes, opens] at same
        exact absurd (List.cons.inj same).1.symm going
  | cons part parts ih =>
    obtain ⟨here, others⟩ := List.forall_mem_cons.mp each
    obtain ⟨soundHere, soundOthers⟩ := List.forall_mem_cons.mp sound
    cases parts' with
    | nil =>
      cases framing with
      | counted width => cases count Framing.counted_ne_delimited
      | delimited =>
        obtain ⟨byte, more, opens, going⟩ := soundHere.bytes_eq_cons
        rw [partsBytes, partsBytes, opens] at same
        exact absurd (List.cons.inj same).1 going
    | cons other parts' =>
      obtain ⟨otherSound, sound'⟩ := List.forall_mem_cons.mp sound'
      rw [partsBytes, partsBytes, List.append_assoc, List.append_assoc] at same
      obtain ⟨first, rest⟩ := here other otherSound _ _ same
      obtain ⟨further, rests⟩ :=
        ih others soundOthers sound' (fun counted => Nat.succ.inj (count counted)) rest
      exact ⟨by rw [first, further], rests⟩

theorem framing_of_head {framing framing' : Framing} {count count' : Nat}
    (same : framing.head? count = framing'.head? count') :
    framing = framing' ∧ (framing ≠ .delimited → count = count') := by
  cases framing <;> cases framing' <;> cases same <;> simp

theorem Sound.opening_eq {outline other : Outline} (sound : outline.Sound) (sound' : other.Sound)
    {left right : Bytes} (same : outline.bytes ++ left = other.bytes ++ right) :
    outline.tags = other.tags ∧ outline.major = other.major ∧ outline.head? = other.head? ∧
      outline.content ++ left = other.content ++ right := by
  rw [outline.bytes_eq, other.bytes_eq] at same
  simp only [List.append_assoc] at same
  exact sound.opening.eq_of_bytes sound'.opening same

theorem head?_ne_of_measures {major : Major} {framing : Framing} {head : Head} {content : Bytes}
    {count n : Nat} (measured : head.Measures major content) (admitted : framing.Admits major count) :
    framing.head? n ≠ some head := by
  cases framing with
  | delimited => rintro ⟨⟩
  | counted width => cases major <;> first | exact measured.elim | exact admitted.elim

theorem eq_of_units {major : Major} {framing : Framing} {count count' : Nat}
    (admitted : framing.Admits major count) (admitted' : framing.Admits major count')
    (counted : framing ≠ .delimited) (units : major.units count = major.units count') : count = count' := by
  cases framing with
  | delimited => exact absurd rfl counted
  | counted width =>
    cases major with
    | array => exact units
    | map =>
      have even : count % 2 = 0 := admitted
      have even' : count' % 2 = 0 := admitted'
      have halves : count / 2 = count' / 2 := units
      omega
    | unsigned | negative | bytes | text | tag | simple => exact admitted.elim

theorem Sound.eq_of_bytes {outline other : Outline} (sound : outline.Sound) (sound' : other.Sound)
    {left right : Bytes} (same : outline.bytes ++ left = other.bytes ++ right) :
    outline = other ∧ left = right := by
  induction sound generalizing other left right with
  | @leaf tags major head content tagsFit fits measured =>
    obtain ⟨tagsSame, majors, heads, rests⟩ := (Sound.leaf tagsFit fits measured).opening_eq sound' same
    cases sound' with
    | @leaf _ _ head' content' _ _ measured' =>
      cases tagsSame
      cases majors
      cases heads
      have lengths : content.length = content'.length := by
        cases major <;> simp only [Head.Measures] at measured measured' <;> simp [measured, measured']
      obtain ⟨rfl, rfl⟩ := List.append_inj rests lengths
      exact ⟨rfl, rfl⟩
    | @compound _ _ framing _ _ _ admitted =>
      cases majors
      exact absurd heads.symm (head?_ne_of_measures measured admitted)
  | @compound tags major framing parts tagsFit fits admitted inside ih =>
    obtain ⟨tagsSame, majors, heads, rests⟩ :=
      (Sound.compound tagsFit fits admitted inside).opening_eq sound' same
    cases sound' with
    | @leaf _ _ _ _ _ _ measured =>
      cases majors
      exact absurd heads (head?_ne_of_measures measured admitted)
    | @compound _ _ framing' parts' _ _ admitted' inside' =>
      cases tagsSame
      cases majors
      obtain ⟨rfl, units⟩ := framing_of_head heads
      change partsBytes parts ++ framing.closing ++ left = partsBytes parts' ++ framing.closing ++ right
        at rests
      rw [List.append_assoc, List.append_assoc] at rests
      obtain ⟨rfl, after⟩ := eq_of_partsBytes
        (fun part member other sound rest rest' same => ih part member sound same) inside inside'
        (fun counted => eq_of_units admitted admitted' counted (units counted)) rests
      exact ⟨rfl, after⟩

end Outline

namespace Chunk

variable {chunk : Chunk} {major : Major}

def outline (major : Major) (chunk : Chunk) : Outline := .leaf [] major chunk.head chunk.content

theorem sound_outline (string : major = .bytes ∨ major = .text) (fits : chunk.head.Fits) :
    (chunk.outline major).Sound := by
  refine .leaf (List.forall_mem_nil _) fits ?_
  rcases string with rfl | rfl <;> rfl

theorem strict_outline (string : major = .bytes ∨ major = .text) : (chunk.outline major).Strict := by
  refine .leaf fun simple => ?_
  rcases string with rfl | rfl <;> cases simple

theorem exists_outline (string : major = .bytes ∨ major = .text) {head : Head} {content : Bytes}
    (sound : (Outline.leaf [] major head content).Sound) :
    ∃ chunk : Chunk, chunk.head.Fits ∧ Outline.leaf [] major head content = chunk.outline major := by
  cases sound with
  | leaf _ fits measured =>
    have length : content.length = head.n := by rcases string with rfl | rfl <;> exact measured
    have same : (Chunk.mk head.width content).head = head := by rw [Chunk.head, length]
    exact ⟨⟨head.width, content⟩, same.symm ▸ fits, by rw [outline, same]⟩

end Chunk

theorem partsBytes_chunks (major : Major) (chunks : List Chunk) :
    partsBytes (chunks.map (Chunk.outline major)) = chunks.flatMap (Chunk.bytes major) := by
  induction chunks with
  | nil => rfl
  | cons chunk chunks ih =>
    rw [List.map_cons, partsBytes, ih]
    rfl

theorem exists_chunks {major : Major} (string : major = .bytes ∨ major = .text) {parts : List Outline}
    (sound : ∀ part ∈ parts, part.Sound)
    (each : ∀ part ∈ parts, ∃ head content, part = .leaf [] major head content) :
    ∃ chunks : List Chunk, (∀ chunk ∈ chunks, chunk.head.Fits) ∧
      parts = chunks.map (Chunk.outline major) := by
  induction parts with
  | nil => exact ⟨[], nofun, rfl⟩
  | cons part parts ih =>
    obtain ⟨soundHere, soundOthers⟩ := List.forall_mem_cons.mp sound
    obtain ⟨⟨head, content, rfl⟩, others⟩ := List.forall_mem_cons.mp each
    obtain ⟨chunk, fits, same⟩ := Chunk.exists_outline string soundHere
    obtain ⟨chunks, allFit, rest⟩ := ih soundOthers others
    exact ⟨chunk :: chunks, List.forall_mem_cons.mpr ⟨fits, allFit⟩, by rw [same, rest, List.map_cons]⟩

namespace Outline

def Renders (outline : Outline) (item : Item) : Prop :=
  outline.Sound ∧ outline.Strict ∧ outline.bytes = item.bytes

theorem renders_items {items : List Item} (each : ∀ item ∈ items, ∃ outline : Outline, outline.Renders item) :
    ∃ parts : List Outline, parts.length = items.length ∧ (∀ part ∈ parts, part.Sound) ∧
      (∀ part ∈ parts, part.Strict) ∧ partsBytes parts = itemsBytes items := by
  induction items with
  | nil => exact ⟨[], rfl, nofun, nofun, rfl⟩
  | cons item items ih =>
    obtain ⟨⟨part, sound, strict, same⟩, others⟩ := List.forall_mem_cons.mp each
    obtain ⟨parts, length, allSound, allStrict, rest⟩ := ih others
    exact ⟨part :: parts, congrArg (· + 1) length, List.forall_mem_cons.mpr ⟨sound, allSound⟩,
      List.forall_mem_cons.mpr ⟨strict, allStrict⟩, by rw [partsBytes, itemsBytes, same, rest]⟩

theorem renders_integer {major : Major} (integer : major = .unsigned ∨ major = .negative) {item : Item}
    {head : Head} (tagsFit : ∀ tag ∈ item.tags, tag.Fits) (fits : head.Fits)
    (same : bodyBytes item.body = openingBytes major (some head)) :
    ∃ outline : Outline, outline.Renders item := by
  refine ⟨.leaf item.tags major head [], .leaf tagsFit fits ?_, .leaf ?_, ?_⟩
  · rcases integer with rfl | rfl <;> rfl
  · rintro rfl
    simp at integer
  · rw [Outline.bytes, item.bytes_eq, same, List.append_nil]
    rfl

theorem renders_string {major : Major} (string : major = .bytes ∨ major = .text) {item : Item}
    {form : StringForm} (tagsFit : ∀ tag ∈ item.tags, tag.Fits)
    (allFit : ∀ chunk ∈ form.chunks, chunk.head.Fits)
    (same : bodyBytes item.body = openingBytes major form.head? ++ form.body major) :
    ∃ outline : Outline, outline.Renders item := by
  cases form with
  | whole chunk =>
    have fits := allFit chunk List.mem_cons_self
    refine ⟨.leaf item.tags major chunk.head chunk.content, .leaf tagsFit fits ?_, .leaf ?_, ?_⟩
    · rcases string with rfl | rfl <;> rfl
    · rintro rfl
      simp at string
    · rw [Outline.bytes, item.bytes_eq, same]
      rfl
  | chunked chunks =>
    refine ⟨.compound item.tags major .delimited (chunks.map (Chunk.outline major)),
      .compound tagsFit nofun ?_ ?_, .compound ?_ ?_ ?_, ?_⟩
    · rcases string with rfl | rfl <;> exact True.intro
    · exact List.forall_mem_map.mpr fun chunk member => chunk.sound_outline string (allFit chunk member)
    · exact fun _ => List.forall_mem_map.mpr fun chunk _ => ⟨chunk.head, chunk.content, rfl⟩
    · rintro rfl
      simp at string
    · exact List.forall_mem_map.mpr fun chunk _ => chunk.strict_outline string
    · rw [Outline.bytes, partsBytes_chunks, item.bytes_eq, same]
      rfl

end Outline

theorem Item.WellFormed.exists_outline {item : Item} (wellFormed : item.WellFormed) :
    ∃ outline : Outline, outline.Renders item := by
  induction wellFormed with
  | @intro item formed inside ih =>
    rcases item with ⟨tags, body⟩
    cases body with
    | unsigned head => exact Outline.renders_integer (.inl rfl) formed.tags (formed.head head rfl) rfl
    | negative head => exact Outline.renders_integer (.inr rfl) formed.tags (formed.head head rfl) rfl
    | simple head =>
      refine ⟨.leaf tags .simple head [], .leaf formed.tags (formed.head head rfl) rfl, .leaf ?_, ?_⟩
      · rcases head with ⟨width, n⟩
        rintro - rfl
        exact formed.simple n rfl
      · rw [Outline.bytes, List.append_nil]
        rfl
    | embedded width item =>
      exact ⟨.leaf tags .bytes ⟨width, item.bytes.length⟩ item.bytes,
        .leaf formed.tags (formed.head _ rfl) rfl, .leaf nofun, rfl⟩
    | bytes form => exact Outline.renders_string (.inl rfl) formed.tags formed.chunks rfl
    | text form => exact Outline.renders_string (.inr rfl) formed.tags formed.chunks rfl
    | array framing items =>
      obtain ⟨parts, length, allSound, allStrict, same⟩ := Outline.renders_items ih
      refine ⟨.compound tags .array framing parts, .compound formed.tags ?_ ?_ allSound,
        .compound (by simp) nofun allStrict, ?_⟩
      · rw [Major.units, length]
        exact formed.head
      · cases framing <;> exact True.intro
      · rw [Outline.bytes, same, Major.units, length]
        rfl
    | map framing entries =>
      obtain ⟨parts, length, allSound, allStrict, same⟩ := Outline.renders_items ih
      change parts.length = (flattened entries).length at length
      change partsBytes parts = itemsBytes (flattened entries) at same
      have units : Major.units .map parts.length = entries.length := by
        rw [Major.units, if_pos rfl, length, length_flattened]
        omega
      have even : parts.length % 2 = 0 := by
        rw [length, length_flattened]
        omega
      refine ⟨.compound tags .map framing parts, .compound formed.tags ?_ ?_ allSound,
        .compound (by simp) (fun _ => even) allStrict, ?_⟩
      · rw [units]
        exact formed.head
      · cases framing with
        | counted width => exact even
        | delimited => exact True.intro
      · rw [Outline.bytes, same, units, ← entriesBytes_eq]
        rfl

namespace Outline

theorem exists_items {parts : List Outline}
    (each : ∀ part ∈ parts, ∃ item : Item, item.WellFormed ∧ item.bytes = part.bytes) :
    ∃ items : List Item, items.length = parts.length ∧ (∀ item ∈ items, item.WellFormed) ∧
      itemsBytes items = partsBytes parts := by
  induction parts with
  | nil => exact ⟨[], rfl, nofun, rfl⟩
  | cons part parts ih =>
    obtain ⟨⟨item, wellFormed, same⟩, others⟩ := List.forall_mem_cons.mp each
    obtain ⟨items, length, allFormed, rest⟩ := ih others
    exact ⟨item :: items, congrArg (· + 1) length, List.forall_mem_cons.mpr ⟨wellFormed, allFormed⟩,
      by rw [partsBytes, itemsBytes, same, rest]⟩

theorem exists_item_string {tags : List Head} {major : Major} (string : major = .bytes ∨ major = .text)
    (form : StringForm) (tagsFit : ∀ tag ∈ tags, tag.Fits)
    (allFit : ∀ chunk ∈ form.chunks, chunk.head.Fits) :
    ∃ item : Item, item.WellFormed ∧
      item.bytes = tagBytes tags ++ (openingBytes major form.head? ++ form.body major) := by
  have heads : ∀ head ∈ form.head?, head.Fits := by
    cases form with
    | whole chunk => exact Opening.ofTag (allFit chunk List.mem_cons_self)
    | chunked chunks => exact fun head member => absurd member.symm (Option.some_ne_none head)
  rcases string with rfl | rfl
  · have formed : (Item.mk tags (.bytes form)).Formed :=
      Item.formed_of_ordinary (show Major.bytes ≠ .simple by decide) tagsFit heads allFit
    exact ⟨⟨tags, .bytes form⟩, .intro formed (List.forall_mem_nil _), by rw [Item.bytes, bodyBytes]⟩
  · have formed : (Item.mk tags (.text form)).Formed :=
      Item.formed_of_ordinary (show Major.text ≠ .simple by decide) tagsFit heads allFit
    exact ⟨⟨tags, .text form⟩, .intro formed (List.forall_mem_nil _), by rw [Item.bytes, bodyBytes]⟩

theorem exists_item_leaf {tags : List Head} {major : Major} {head : Head} {content : Bytes}
    (tagsFit : ∀ tag ∈ tags, tag.Fits) (fits : head.Fits) (measured : head.Measures major content)
    (first : major = .simple → head.width = .one → 32 ≤ head.n) :
    ∃ item : Item, item.WellFormed ∧ item.bytes = (leaf tags major head content).bytes := by
  have exactly : ∀ head' ∈ some head, head'.Fits := Opening.ofTag fits
  have string (string : major = .bytes ∨ major = .text) (length : content.length = head.n) :
      ∃ item : Item, item.WellFormed ∧ item.bytes = (leaf tags major head content).bytes := by
    have same : (Chunk.mk head.width content).head = head := by rw [Chunk.head, length]
    have one := exists_item_string string (.whole ⟨head.width, content⟩) tagsFit
      (List.forall_mem_singleton.mpr (same.symm ▸ fits))
    rw [StringForm.head?, same] at one
    exact one
  cases major with
  | bytes => exact string (.inl rfl) measured
  | text => exact string (.inr rfl) measured
  | unsigned =>
    cases measured
    have formed : (Item.mk tags (.unsigned head)).Formed :=
      Item.formed_of_ordinary (show Major.unsigned ≠ .simple by decide) tagsFit exactly (List.forall_mem_nil _)
    refine ⟨⟨tags, .unsigned head⟩, .intro formed (List.forall_mem_nil _), ?_⟩
    rw [Item.bytes, Outline.bytes, List.append_nil]
    rfl
  | negative =>
    cases measured
    have formed : (Item.mk tags (.negative head)).Formed :=
      Item.formed_of_ordinary (show Major.negative ≠ .simple by decide) tagsFit exactly (List.forall_mem_nil _)
    refine ⟨⟨tags, .negative head⟩, .intro formed (List.forall_mem_nil _), ?_⟩
    rw [Item.bytes, Outline.bytes, List.append_nil]
    rfl
  | simple =>
    cases measured
    refine ⟨⟨tags, .simple head⟩,
      .intro ⟨tagsFit, exactly, List.forall_mem_nil _, ?_⟩ (List.forall_mem_nil _), ?_⟩
    · intro n same
      cases same
      exact first rfl rfl
    · rw [Item.bytes, Outline.bytes, List.append_nil]
      rfl
  | array | map | tag => exact measured.elim

theorem exists_item_chunked {tags : List Head} {major : Major} (string : major = .bytes ∨ major = .text)
    {parts : List Outline} (tagsFit : ∀ tag ∈ tags, tag.Fits) (sound : ∀ part ∈ parts, part.Sound)
    (each : ∀ part ∈ parts, ∃ head content, part = .leaf [] major head content) :
    ∃ item : Item, item.WellFormed ∧ item.bytes = (compound tags major .delimited parts).bytes := by
  obtain ⟨chunks, allFit, rfl⟩ := exists_chunks string sound each
  rw [Outline.bytes, partsBytes_chunks]
  exact exists_item_string string (.chunked chunks) tagsFit allFit

theorem Sound.exists_item {outline : Outline} (sound : outline.Sound) (strict : outline.Strict) :
    ∃ item : Item, item.WellFormed ∧ item.bytes = outline.bytes := by
  induction sound with
  | leaf tagsFit fits measured =>
    cases strict with
    | leaf first => exact exists_item_leaf tagsFit fits measured first
  | @compound tags major framing parts tagsFit fits admitted inside ih =>
    cases strict with
    | compound chunks pairs strictInside =>
      cases major with
      | unsigned | negative | simple | tag => cases framing <;> cases admitted
      | bytes =>
        cases framing with
        | counted width => cases admitted
        | delimited => exact exists_item_chunked (.inl rfl) tagsFit inside (chunks (.inl rfl))
      | text =>
        cases framing with
        | counted width => cases admitted
        | delimited => exact exists_item_chunked (.inr rfl) tagsFit inside (chunks (.inr rfl))
      | array =>
        obtain ⟨items, length, allFormed, same⟩ :=
          exists_items fun part member => ih part member (strictInside part member)
        have head : ∀ head ∈ (Body.array framing items).head?, head.Fits := by
          rw [Body.head?, length]
          exact fits
        have formed : (Item.mk tags (.array framing items)).Formed :=
          Item.formed_of_ordinary (show Major.array ≠ .simple by decide) tagsFit head (List.forall_mem_nil _)
        refine ⟨⟨tags, .array framing items⟩, .intro formed allFormed, ?_⟩
        rw [Item.bytes_eq, Item.body_mk, bodyBytes, same, length]
        rfl
      | map =>
        obtain ⟨items, length, allFormed, same⟩ :=
          exists_items fun part member => ih part member (strictInside part member)
        have even := pairs rfl
        have paired : items.length = 2 * (parts.length / 2) := by omega
        obtain ⟨entries, rfl, count⟩ := exists_entries paired
        have head : ∀ head ∈ (Body.map framing entries).head?, head.Fits := by
          rw [Body.head?, count]
          exact fits
        have formed : (Item.mk tags (.map framing entries)).Formed :=
          Item.formed_of_ordinary (show Major.map ≠ .simple by decide) tagsFit head (List.forall_mem_nil _)
        refine ⟨⟨tags, .map framing entries⟩, .intro formed allFormed, ?_⟩
        rw [Item.bytes_eq, Item.body_mk, bodyBytes, entriesBytes_eq, same, count]
        rfl

theorem Sound.exists_item_iff {outline : Outline} (sound : outline.Sound) :
    (∃ item : Item, item.WellFormed ∧ item.bytes = outline.bytes) ↔ outline.Strict := by
  constructor
  · rintro ⟨item, wellFormed, same⟩
    obtain ⟨other, otherSound, strict, alike⟩ := wellFormed.exists_outline
    have together : outline.bytes ++ [] = other.bytes ++ [] := by rw [alike, same]
    obtain ⟨rfl, -⟩ := sound.eq_of_bytes otherSound together
    exact strict
  · exact sound.exists_item

end Outline
end TypedCbor
