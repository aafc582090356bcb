import TypedCbor.Proofs.Grammar
import TypedCbor.Proofs.Item.Denotation

namespace TypedCbor

def Spells (read : DecodeM α) : Prop :=
  ∀ decoder a after, outcome read decoder = .ok (a, after) →
    ∃ item : Item, item.WellFormed ∧ decoder.rest = item.bytes ++ after.rest

-- What the reader takes from here is the spelling of an item that is as asked.
def SpellsAt (P : Item → Prop) (read : DecodeM α) (decoder : Decoder) : Prop :=
  ∀ a after, outcome read decoder = .ok (a, after) →
    ∃ item : Item, P item ∧ decoder.rest = item.bytes ++ after.rest

def SpellsBehind (read : DecodeM α) (major : Major) (head? : Option Head) : Prop :=
  ∀ inside a after, outcome read inside = .ok (a, after) →
    ∃ body : Body Item, body.head? = head? ∧ body.major = major ∧
      (Item.mk [] body).WellFormed ∧ inside.rest = body.content ++ after.rest

namespace Decoder

variable {config : Config}

theorem opening_of_readHeader {decoder after : Decoder} {header : Header} {own : List UInt64}
    (found : outcome (readHeader config) decoder = .ok ((header, own), after)) :
    ∃ (tags : List Head) (head? : Option Head), (∀ tag ∈ tags, tag.Fits) ∧
      (∀ head ∈ head?, head.Fits) ∧ (head? = none → header.major.hasIndefinite = true) ∧
      header.major ≠ .tag ∧ header = openingHeader header.major head? ∧
      decoder.rest = tagBytes tags ++ (openingBytes header.major head? ++ after.rest) := by
  obtain ⟨⟨own', between⟩, taken, found⟩ := bind_eq_ok.mp (outcome_bind .. ▸ found)
  obtain ⟨⟨header, after'⟩, read, same⟩ := bind_eq_ok.mp (outcome_bind .. ▸ found)
  cases same
  rw [outcome_takeTags] at taken
  obtain ⟨⟨numbers, rest⟩, ahead, kept⟩ := bind_eq_ok.mp taken
  obtain ⟨own'', -, same⟩ := map_eq_ok.mp kept
  cases same
  obtain ⟨rest', headed, rfl⟩ := rest_of_cursor read
  obtain ⟨tags, tagsFit, -, spelled, byte, more, rfl, other⟩ := Cursor.tags_of_readTags ahead
  obtain ⟨head?, fits, opens, same, spelled'⟩ := Cursor.opening_of_readHeader headed
  have initial : header.initial = byte := by
    rw [openingBytes_eq_cons, ← same] at spelled'
    exact (List.cons.inj spelled').1.symm
  exact ⟨tags, head?, tagsFit, fits, opens, by rw [Header.major, initial]; exact other, same,
    by rw [spelled, ← spelled']⟩

theorem eq_of_isExhausted {s : OpenStructure} {input rest : Bytes} {ended : Bool}
    (found : outcome (isExhausted s) input = .ok (ended, rest)) :
    rest = input ∧ (ended = true → s.isAtValue = false ∧ (s.remaining = none ∨ s.remaining = some 0)) ∧
      (ended = false → s.isAtValue = false → s.remaining ≠ some 0) := by
  unfold isExhausted at found
  split at found
  · rename_i value
    cases found
    simp [value]
  · rename_i between
    split at found
    · rename_i count counted
      cases found
      simp [between, counted]
    · rename_i opens
      cases input with
      | nil => cases found
      | cons byte input =>
        simp only [outcome_bind, Cursor.outcome_peek, ok_bind, outcome_pure] at found
        cases found
        simp [between, opens]

theorem next_of_unkeyed {s after : OpenStructure} {decoder decoder' : Decoder} {next : Option Nat}
    (unkeyed : s.shape.hasKeys = false)
    (found : outcome (nextElement config s) decoder = .ok ((next, after), decoder')) :
    decoder'.rest = decoder.rest ∧
      ((next = none ∧ after = s ∧ s.isAtValue = false ∧
          (s.remaining = none ∨ s.remaining = some 0)) ∨
        (next = some s.index ∧ after = s.advanced ∧ (s.isAtValue = false → s.remaining ≠ some 0))) := by
  rw [nextElement, if_neg (by simp [unkeyed]), nextByPosition] at found
  obtain ⟨⟨ended, between⟩, looked, found⟩ := bind_eq_ok.mp (outcome_bind .. ▸ found)
  obtain ⟨rest, peeked, rfl⟩ := rest_of_cursor looked
  obtain ⟨rfl, whenEnded, whenNot⟩ := eq_of_isExhausted peeked
  cases ended with
  | true =>
    cases found
    exact ⟨rfl, .inl ⟨rfl, rfl, whenEnded rfl⟩⟩
  | false =>
    cases found
    exact ⟨rfl, .inr ⟨rfl, rfl, whenNot rfl⟩⟩

theorem eq_of_endStructure {s : OpenStructure} {decoder after : Decoder}
    (found : outcome (endStructure s) decoder = .ok ((), after)) :
    (s.remaining = some 0 ∧ decoder.rest = after.rest) ∨
      (s.remaining = none ∧ decoder.rest = Wire.closing ++ after.rest) := by
  simp only [endStructure, clearField, outcome_bind, outcome_modify, ok_bind] at found
  split at found
  · rename_i opens
    obtain ⟨⟨closed, between⟩, tried, found⟩ := bind_eq_ok.mp (outcome_bind .. ▸ found)
    obtain ⟨rest, read, rfl⟩ := rest_of_cursor tried
    cases closed with
    | true =>
      cases found
      exact .inr ⟨opens, Cursor.eq_of_tryBreak read⟩
    | false =>
      simp only [Bool.false_eq_true, if_false] at found
      obtain ⟨_, -, thrown⟩ := bind_eq_ok.mp (outcome_bind .. ▸ found)
      cases thrown
  · rename_i none
    cases found
    exact .inl ⟨none, rfl⟩
  · cases found

-- How many parts a structure had when it was read to its end.
def ReadOut (before after : Option Nat) (count : Nat) : Prop :=
  (before = none ∧ after = none) ∨ (before = some count ∧ after = some 0)

theorem ReadOut.next {before after : Option Nat} {count : Nat} (more : before ≠ some 0)
    (others : ReadOut (before.map (· - 1)) after count) : ReadOut before after (count + 1) := by
  rcases others with ⟨opens, ended⟩ | ⟨counted, ended⟩
  · exact .inl ⟨by simpa using opens, ended⟩
  · obtain ⟨n, rfl, same⟩ := Option.map_eq_some_iff.mp counted
    refine .inr ⟨?_, ended⟩
    simp only [ne_eq, Option.some.injEq] at more ⊢
    omega

theorem items_of_elementRounds {P : Item → Prop} {read : DecodeM α} (spells : ∀ decoder, SpellsAt P read decoder)
    {rounds : Nat} {s s' : OpenStructure} (list : s.shape = .list) {decoder after : Decoder} {values : List α}
    (found : outcome (elementRounds config read rounds s) decoder = .ok ((values, s'), after)) :
    ∃ items : List Item, (∀ item ∈ items, P item) ∧
      decoder.rest = itemsBytes items ++ after.rest ∧ ReadOut s.remaining s'.remaining items.length := by
  induction rounds generalizing s decoder values with
  | zero => cases found
  | succ rounds ih =>
    rw [elementRounds, outcome_bind, bind_eq_ok] at found
    rcases found with ⟨⟨⟨next, s₁⟩, decoder₁⟩, announced, goes⟩
    obtain ⟨kept, ⟨rfl, rfl, -, ended⟩ | ⟨rfl, rfl, more⟩⟩ :=
      next_of_unkeyed (by rw [list]; rfl) announced
    · cases goes
      refine ⟨[], by simp, by rw [← kept]; rfl, ?_⟩
      exact ended.imp (fun opens => ⟨opens, opens⟩) fun none => ⟨none, none⟩
    · obtain ⟨⟨value, decoder₂⟩, first, goes⟩ := bind_eq_ok.mp (outcome_bind .. ▸ goes)
      obtain ⟨⟨⟨others, s₂⟩, decoder₃⟩, rest, same⟩ := bind_eq_ok.mp (outcome_bind .. ▸ goes)
      cases same
      obtain ⟨item, here, spelled⟩ := spells _ _ _ first
      obtain ⟨items, each, spelled', count⟩ := ih (by exact list) rest
      have between : s.isAtValue = false := by simp [OpenStructure.isAtValue, list, Shape.kind, Shape.list]
      refine ⟨item :: items, List.forall_mem_cons.mpr ⟨here, each⟩, ?_, ReadOut.next (more between) ?_⟩
      · rw [← kept, spelled, spelled', itemsBytes, List.append_assoc]
      · simpa [OpenStructure.advanced, between] using count

theorem entries_of_entryRounds {key : DecodeM α} {value : DecodeM β} (spellsKey : Spells key)
    (spellsValue : Spells value) {rounds : Nat} {s s' : OpenStructure} (data : s.shape = .map)
    (even : s.index % 2 = 0) {decoder after : Decoder} {pairs : List (α × β)}
    (found : outcome (entryRounds config key value rounds s) decoder = .ok ((pairs, s'), after)) :
    ∃ entries : List (Item × Item), (∀ entry ∈ entries, entry.1.WellFormed ∧ entry.2.WellFormed) ∧
      decoder.rest = entriesBytes entries ++ after.rest ∧
      ReadOut s.remaining s'.remaining entries.length := by
  induction rounds generalizing s decoder pairs with
  | zero => cases found
  | succ rounds ih =>
    rw [entryRounds, outcome_bind, bind_eq_ok] at found
    rcases found with ⟨⟨⟨next, s₁⟩, decoder₁⟩, announced, goes⟩
    obtain ⟨kept, ⟨rfl, rfl, -, ended⟩ | ⟨rfl, rfl, more⟩⟩ :=
      next_of_unkeyed (by rw [data]; rfl) announced
    · cases goes
      refine ⟨[], by simp, by rw [← kept]; rfl, ?_⟩
      exact ended.imp (fun opens => ⟨opens, opens⟩) fun none => ⟨none, none⟩
    · obtain ⟨⟨k, decoder₂⟩, first, goes⟩ := bind_eq_ok.mp (outcome_bind .. ▸ goes)
      obtain ⟨⟨⟨next, s₂⟩, decoder₃⟩, announced', goes⟩ := bind_eq_ok.mp (outcome_bind .. ▸ goes)
      have between : s.isAtValue = false := by simp [OpenStructure.isAtValue, even]
      have atValue : s.advanced.isAtValue = true := by
        simp [OpenStructure.isAtValue, OpenStructure.advanced, data, Shape.kind, Shape.map]
        omega
      obtain ⟨kept', ⟨-, -, other, -⟩ | ⟨rfl, rfl, -⟩⟩ :=
        next_of_unkeyed (by rw [OpenStructure.advanced, data]; rfl) announced'
      · rw [atValue] at other
        cases other
      · obtain ⟨⟨v, decoder₄⟩, second, goes⟩ := bind_eq_ok.mp (outcome_bind .. ▸ goes)
        obtain ⟨⟨⟨others, s₃⟩, decoder₅⟩, rest, same⟩ := bind_eq_ok.mp (outcome_bind .. ▸ goes)
        cases same
        obtain ⟨keyItem, keyWellFormed, keySpelled⟩ := spellsKey _ _ _ first
        obtain ⟨valueItem, valueWellFormed, valueSpelled⟩ := spellsValue _ _ _ second
        obtain ⟨entries, allWellFormed, spelled, count⟩ := ih
          (by simp only [OpenStructure.advanced, data])
          (by simp only [OpenStructure.advanced]; omega) rest
        refine ⟨(keyItem, valueItem) :: entries,
          List.forall_mem_cons.mpr ⟨⟨keyWellFormed, valueWellFormed⟩, allWellFormed⟩, ?_,
          ReadOut.next (more between) ?_⟩
        · rw [← kept, keySpelled, ← kept', valueSpelled, spelled, entriesBytes]
          simp only [List.append_assoc]
        · have twice : s.advanced.advanced.remaining = s.remaining.map (· - 1) := by
            change (if s.advanced.isAtValue then s.advanced.remaining else _) = _
            rw [if_pos atValue]
            exact if_neg (by simp [between])
          rwa [twice] at count

theorem framing_of_enclosed {major : Major} {head? : Option Head} {count : Nat}
    {s : OpenStructure} {between after : Decoder} (fits : ∀ head ∈ head?, head.Fits)
    (readOut : ReadOut (openingHeader major head?).length s.remaining count)
    (ended : outcome (endStructure s) between = .ok ((), after)) :
    ∃ framing : Framing, framing.head? count = head? ∧ between.rest = framing.closing ++ after.rest := by
  cases head? with
  | none =>
    rcases readOut with ⟨-, opens⟩ | ⟨counted, -⟩
    · obtain ⟨none, -⟩ | ⟨-, closed⟩ := eq_of_endStructure ended
      · rw [opens] at none
        cases none
      · exact ⟨.delimited, rfl, closed⟩
    · cases counted
  | some head =>
    have length : (openingHeader major (some head)).length = some head.n := by
      simp [openingHeader, Header.length, (fits head rfl).toNat_number]
    rw [length] at readOut
    rcases readOut with ⟨opens, -⟩ | ⟨counted, done⟩
    · cases opens
    · cases counted
      obtain ⟨-, kept⟩ | ⟨opens, -⟩ := eq_of_endStructure ended
      · exact ⟨.counted head.width, rfl, kept⟩
      · rw [done] at opens
        cases opens

theorem parts_of_enclosed {shape : Shape} {read : OpenStructure → DecodeM (α × OpenStructure)}
    {header : Header} {own : List UInt64} {inside after : Decoder} {a : α}
    (found : outcome (enclosed config shape read (header, own)) inside = .ok (a, after)) :
    ∃ s between,
      outcome (read ⟨shape, header.length, 0⟩) inside = .ok ((a, s), between) ∧
        outcome (endStructure s) between = .ok ((), after) := by
  obtain ⟨⟨s, inside'⟩, opens, goes⟩ := bind_eq_ok.mp (outcome_bind .. ▸ found)
  rw [outcome_ofExcept, map_eq_ok] at opens
  rcases opens with ⟨s', opens, same⟩
  cases same
  obtain ⟨-, rfl⟩ := eq_of_opened opens
  obtain ⟨⟨⟨a', s⟩, between⟩, taken, goes⟩ := bind_eq_ok.mp (outcome_bind .. ▸ goes)
  obtain ⟨⟨⟨⟩, after'⟩, ended, same⟩ := bind_eq_ok.mp (outcome_bind .. ▸ goes)
  cases same
  exact ⟨s, between, taken, ended⟩

theorem width_of_readSimple {head : Head} {value : Value}
    (found : readSimple (head.header .simple) = .ok value) : head.width ≠ .one := by
  rcases head with ⟨width, n⟩
  rintro rfl
  have initial : ((Head.mk .one n).header .simple).initial = 0xf8 := rfl
  simp [readSimple, Header.info, initial, nullByte, undefinedByte, falseInfo, trueInfo, halfInfo,
    singleInfo, doubleInfo] at found

section
variable {major : Major} {head? : Option Head}

theorem spellsBehind_map {read : DecodeM α} (behind : SpellsBehind read major head?) (f : α → β) :
    SpellsBehind (f <$> read) major head? := by
  intro inside b after found
  rw [outcome_map, map_eq_ok] at found
  rcases found with ⟨⟨a, after'⟩, ran, same⟩
  cases same
  exact behind inside a _ ran

theorem spellsBehind_checked {γ : Type} {read : DecodeM α} (behind : SpellsBehind read major head?)
    (check : α → Except Error β) (f : β → γ) :
    SpellsBehind (do return f (← ofExcept (check (← read)))) major head? := by
  intro inside c after found
  obtain ⟨⟨a, between⟩, ran, found⟩ := bind_eq_ok.mp (outcome_bind .. ▸ found)
  rw [outcome_bind, outcome_ofExcept, bind_eq_ok] at found
  rcases found with ⟨⟨b, between'⟩, checked, done⟩
  obtain ⟨b', -, kept⟩ := map_eq_ok.mp checked
  cases kept
  cases done
  exact behind inside a _ ran

theorem spellsBehind_leaf {body : Body Item} {e : Except Error α} (bare : body.content = [])
    (childless : body.children = []) (formed : ∀ a, e = .ok a → (Item.mk [] body).Formed) :
    SpellsBehind (ofExcept e) body.major body.head? := by
  intro inside a after found
  rw [outcome_ofExcept] at found
  obtain ⟨a', done, same⟩ := map_eq_ok.mp found
  cases same
  refine ⟨body, rfl, rfl, ⟨formed a done, fun child member => ?_⟩, ?_⟩
  · rw [Item.body_mk, childless] at member
    cases member
  · rw [bare, List.nil_append]

theorem spellsBehind_simple (fits : ∀ head ∈ head?, head.Fits) :
    SpellsBehind (ofExcept (readSimple (openingHeader .simple head?))) .simple head? := by
  cases head? with
  | none =>
    intro inside value after found
    cases found
  | some head =>
    have formed (value : Value) (read : readSimple (head.header .simple) = .ok value) :
        (Item.mk [] (.simple head)).Formed := by
      refine ⟨by simp, fits, by simp [Body.chunks], fun n shape => ?_⟩
      cases shape
      exact absurd rfl (width_of_readSimple read)
    exact @spellsBehind_leaf _ (.simple head) _ rfl rfl formed

theorem spellsBehind_payload (fits : ∀ head ∈ head?, head.Fits)
    (known : (openingHeader major head?).major = major) (string : major = .bytes ∨ major = .text) :
    SpellsBehind (cursor (Cursor.readPayload (openingHeader major head?))) major head? := by
  intro inside payload after found
  obtain ⟨rest, read, rfl⟩ := rest_of_cursor found
  obtain ⟨form, head, chunks, spelled⟩ := Cursor.form_of_readPayload fits known read
  have headFits : ∀ head ∈ form.head?, head.Fits := head ▸ fits
  rcases string with rfl | rfl
  · exact ⟨.bytes form, head, rfl, ⟨⟨by simp, headFits, chunks, by simp⟩, by simp [Body.children]⟩, spelled⟩
  · exact ⟨.text form, head, rfl, ⟨⟨by simp, headFits, chunks, by simp⟩, by simp [Body.children]⟩, spelled⟩

theorem spellsBehind_elements {read : DecodeM α} (spells : Spells read) (fits : ∀ head ∈ head?, head.Fits)
    (own : List UInt64) :
    SpellsBehind (enclosed config .list (readElements config read) (openingHeader .array head?, own))
      .array head? := by
  intro inside values after found
  obtain ⟨s, between, taken, ended⟩ := parts_of_enclosed found
  simp only [readElements, outcome_bind, outcome_get, ok_bind] at taken
  obtain ⟨items, allWellFormed, spelled, count⟩ := items_of_elementRounds spells rfl taken
  obtain ⟨framing, head, closed⟩ := framing_of_enclosed fits count ended
  have formed : (Item.mk [] (.array framing items)).Formed :=
    ⟨by simp, by rwa [Item.body_mk, Body.head?, head], by simp [Body.chunks], by simp⟩
  refine ⟨.array framing items, head, rfl, ⟨formed, allWellFormed⟩, ?_⟩
  rw [spelled, closed, Body.content, List.append_assoc]

theorem spellsBehind_entries {key : DecodeM α} {value : DecodeM β} (spellsKey : Spells key)
    (spellsValue : Spells value) (fits : ∀ head ∈ head?, head.Fits) (own : List UInt64) :
    SpellsBehind (enclosed config .map (readEntries config key value) (openingHeader .map head?, own))
      .map head? := by
  intro inside pairs after found
  obtain ⟨s, between, taken, ended⟩ := parts_of_enclosed found
  simp only [readEntries, outcome_bind, outcome_get, ok_bind] at taken
  obtain ⟨entries, allWellFormed, spelled, count⟩ :=
    entries_of_entryRounds spellsKey spellsValue rfl rfl taken
  obtain ⟨framing, head, closed⟩ := framing_of_enclosed fits count ended
  have formed : (Item.mk [] (.map framing entries)).Formed :=
    ⟨by simp, by rwa [Item.body_mk, Body.head?, head], by simp [Body.chunks], by simp⟩
  refine ⟨.map framing entries, head, rfl, ⟨formed, fun child member => ?_⟩, ?_⟩
  · obtain ⟨entry, present, rfl | rfl⟩ := mem_flattened.mp member
    · exact (allWellFormed entry present).1
    · exact (allWellFormed entry present).2
  · rw [spelled, closed, Body.content, List.append_assoc]

end

theorem spells_readGeneric (rounds : Nat) : Spells (readGeneric config rounds) := by
  induction rounds with
  | zero => exact fun _ _ _ found => nomatch found
  | succ rounds ih =>
    intro decoder value after found
    rw [readGeneric_succ, outcome_bind, bind_eq_ok] at found
    rcases found with ⟨⟨⟨header, own⟩, inside⟩, opened, goes⟩
    obtain ⟨tags, head?, tagsFit, fits, opens, untagged, same, spelled⟩ := opening_of_readHeader opened
    generalize known : header.major = major at opens untagged same spelled
    subst same
    dsimp only at goes
    rw [known] at goes
    obtain ⟨body, head, kind, ⟨formed, children⟩, content⟩ : ∃ body : Body Item, body.head? = head? ∧
        body.major = major ∧ (Item.mk [] body).WellFormed ∧ inside.rest = body.content ++ after.rest := by
      have present (definite : major.hasIndefinite = false) : ∃ head, head? = some head := by
        cases head? with
        | none => exact nomatch definite.symm.trans (opens rfl)
        | some head => exact ⟨head, rfl⟩
      cases major with
      | unsigned =>
        obtain ⟨head, rfl⟩ := present rfl
        exact spellsBehind_map (@spellsBehind_leaf _ (.unsigned head) _ rfl rfl fun _ _ =>
          ⟨by simp, fits, by simp [Body.chunks], by simp⟩) _ _ _ _ goes
      | negative =>
        obtain ⟨head, rfl⟩ := present rfl
        exact spellsBehind_map (@spellsBehind_leaf _ (.negative head) _ rfl rfl fun _ _ =>
          ⟨by simp, fits, by simp [Body.chunks], by simp⟩) _ _ _ _ goes
      | bytes =>
        exact spellsBehind_map (spellsBehind_payload fits known (.inl rfl)) _ _ _ _ goes
      | text =>
        have payload := spellsBehind_payload fits known (.inr rfl)
        exact spellsBehind_checked payload Payload.text textVisit _ _ _ goes
      | array => exact spellsBehind_map (spellsBehind_elements ih fits own) _ _ _ _ goes
      | map => exact spellsBehind_map (spellsBehind_entries ih ih fits own) _ _ _ _ goes
      | tag => cases goes
      | simple => exact spellsBehind_simple fits _ _ _ goes
    refine ⟨⟨tags, body⟩, ⟨{ formed with tags := tagsFit }, children⟩, ?_⟩
    rw [spelled, Item.bytes_eq, bodyBytes_eq, Item.tags_mk, Item.body_mk, head, kind, content]
    simp only [List.append_assoc]

theorem outcome_of_whole {read : DecodeM α} {input : Bytes} {a : α}
    (found : whole read input = .ok a) :
    ∃ after : Decoder, outcome read { rest := input } = .ok (a, after) ∧ after.rest = [] := by
  rw [whole_eq, map_eq_ok] at found
  rcases found with ⟨⟨a', after⟩, ran, rfl⟩
  obtain ⟨⟨a', between⟩, took, ran⟩ := bind_eq_ok.mp (outcome_bind .. ▸ ran)
  obtain ⟨⟨⟨⟩, after'⟩, finished, same⟩ := bind_eq_ok.mp (outcome_bind .. ▸ ran)
  cases same
  refine ⟨between, took, ?_⟩
  simp only [finish, outcome_bind, outcome_get, ok_bind] at finished
  split at finished
  · rename_i none
    exact List.length_eq_zero_iff.mp none
  · cases finished

end Decoder

-- A document is accepted without a type exactly if it is one well-formed item that says something,
-- and it is told as what that item says.
theorem Config.decode_any_iff (config : Config) (input : Bytes) (value : Value) :
    config.decode .any input = .ok value ↔
      ∃ item : Item, item.WellFormed ∧ item.Plain ∧ item.bytes = input ∧ value = item.denotation := by
  have told (item : Item) (wellFormed : item.WellFormed) :
      config.decode .any item.bytes = Body.visitItem item := by
    rw [← ItemReader.any_on config]
    refine Decoder.whole_bytes ?_
    intro field pending rest
    simp only [Ty.read, Decoder.readAny, outcome_bind, outcome_get, ok_bind]
    exact Decoder.followsAt_readGeneric wellFormed (by simp only [List.length_append]; omega) _ _ _
  constructor
  · intro accepted
    obtain ⟨after, ran, nothing⟩ := Decoder.outcome_of_whole accepted
    simp only [Ty.read, Decoder.readAny, outcome_bind, outcome_get, ok_bind] at ran
    obtain ⟨item, wellFormed, spelled⟩ := Decoder.spells_readGeneric _ _ _ _ ran
    rw [nothing, List.append_nil] at spelled
    change input = item.bytes at spelled
    rw [spelled, told item wellFormed, Body.tells_of_wellFormed wellFormed value] at accepted
    exact ⟨item, wellFormed, accepted.1, spelled.symm, accepted.2⟩
  · rintro ⟨item, wellFormed, plain, rfl, rfl⟩
    rw [told item wellFormed, Body.tells_of_wellFormed wellFormed]
    exact ⟨plain, rfl⟩

end TypedCbor
