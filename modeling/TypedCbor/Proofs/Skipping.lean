import TypedCbor.Proofs.Generic
import TypedCbor.Proofs.Item.Skip

namespace TypedCbor

namespace Cursor

variable {major : Major}

-- Bytes that bring a skip to its end: for each open structure, innermost first, sound parts of the
-- number it still lacks, or up to a break. Outside all structures that is a single item.
inductive Completes : Option Pending → Bytes → Prop where
  | done : Completes none []
  | item {outline : Outline} (sound : outline.Sound) : Completes (some []) outline.bytes
  | counted {parts : List Outline} {outer : Pending} {bytes : Bytes} (sound : ∀ part ∈ parts, part.Sound)
    (after : Completes (settled outer) bytes) :
    Completes (some (some parts.length :: outer)) (partsBytes parts ++ bytes)
  | delimited {parts : List Outline} {outer : Pending} {bytes : Bytes}
    (sound : ∀ part ∈ parts, part.Sound) (after : Completes (settled outer) bytes) :
    Completes (some (none :: outer)) (partsBytes parts ++ (Wire.closing ++ bytes))

namespace Completes

variable {outer : Pending} {bytes : Bytes} {outline : Outline}

theorem opened {framing : Framing} {count : Nat}
    (completes : Completes (some (framing.announced count :: outer)) bytes) :
    ∃ (parts : List Outline) (others : Bytes), (∀ part ∈ parts, part.Sound) ∧
      (framing ≠ .delimited → parts.length = count) ∧ Completes (settled outer) others ∧
      bytes = partsBytes parts ++ (framing.closing ++ others) := by
  cases framing with
  | counted width =>
    cases completes with
    | counted sound after => exact ⟨_, _, sound, fun _ => rfl, after, rfl⟩
  | delimited =>
    cases completes with
    | delimited sound after => exact ⟨_, _, sound, absurd rfl, after, rfl⟩

theorem consCounted {count : Nat} (sound : outline.Sound)
    (completes : Completes (some (some count :: outer)) bytes) :
    Completes (some (some (count + 1) :: outer)) (outline.bytes ++ bytes) := by
  cases completes with
  | @counted parts _ others allSound after =>
    rw [← List.append_assoc]
    exact @counted (outline :: parts) _ _ (List.forall_mem_cons.mpr ⟨sound, allSound⟩) after

theorem consDelimited (sound : outline.Sound) (completes : Completes (some (none :: outer)) bytes) :
    Completes (some (none :: outer)) (outline.bytes ++ bytes) := by
  cases completes with
  | @delimited parts _ others allSound after =>
    rw [← List.append_assoc]
    exact @delimited (outline :: parts) _ _ (List.forall_mem_cons.mpr ⟨sound, allSound⟩) after

end Completes

theorem eq_of_skipContent {head? : Option Head} {pending : Pending} {next : Option Pending}
    {input after : Bytes} (fits : ∀ head ∈ head?, head.Fits) (untagged : major ≠ .tag)
    (opens : head? = none → major.hasIndefinite = true)
    (found : outcome (skipContent pending (openingHeader major head?)) input = .ok (next, after)) :
    (∃ head content, head? = some head ∧ head.Measures major content ∧ input = content ++ after ∧
      next = settled pending) ∨
    ∃ (framing : Framing) (count : Nat), head? = framing.head? (major.units count) ∧
      framing.Admits major count ∧ input = after ∧ next = some (framing.announced count :: pending) := by
  have known := openingHeader_major major fits
  unfold skipContent at found
  rw [known] at found
  cases head? with
  | none =>
    cases major with
    | bytes | text | array | map =>
      cases found
      exact .inr ⟨.delimited, 0, rfl, True.intro, rfl, rfl⟩
    | simple => cases found
    | unsigned | negative => cases opens rfl
    | tag => exact absurd rfl untagged
  | some head =>
    have length := (fits head rfl).toNat_number
    rw [show (openingHeader major (some head)).argument = .value head.number from rfl] at found
    cases major with
    | unsigned | negative | simple =>
      cases found
      exact .inl ⟨head, [], rfl, rfl, rfl, rfl⟩
    | bytes | text =>
      obtain ⟨⟨⟨⟩, rest⟩, taken, same⟩ := bind_eq_ok.mp (outcome_bind .. ▸ found)
      obtain ⟨⟨content, rest'⟩, took, kept⟩ := map_eq_ok.mp (outcome_discard .. ▸ taken)
      cases kept
      cases same
      obtain ⟨measured, spelled⟩ := eq_of_take took
      exact .inl ⟨head, content, rfl, measured.trans length, spelled, rfl⟩
    | array =>
      cases found
      refine .inr ⟨.counted head.width, head.n, rfl, True.intro, rfl, ?_⟩
      rw [settled_cons, length]
      rfl
    | map =>
      dsimp only at found
      split at found
      · cases found
        refine .inr ⟨.counted head.width, 2 * head.n, ?_, ?_, rfl, ?_⟩
        · rw [Major.units, if_pos rfl, Nat.mul_div_cancel_left _ Nat.two_pos]
          rfl
        · exact Nat.mul_mod_right 2 head.n
        · rw [settled_cons, length]
          rfl
      · cases found
    | tag => exact absurd rfl untagged

theorem outline_of_skipHead {pending : Pending} {next : Option Pending} {input after bytes : Bytes}
    (found : outcome (skipHead pending) input = .ok (next, after)) (completes : Completes next bytes) :
    ∃ (outline : Outline) (others : Bytes), outline.Sound ∧ Completes (settled pending) others ∧
      ∀ rest, after = bytes ++ rest → input = outline.bytes ++ (others ++ rest) := by
  rw [skipHead_eq] at found
  obtain ⟨⟨⟨⟩, between⟩, tagged, found⟩ := bind_eq_ok.mp (outcome_bind .. ▸ found)
  obtain ⟨⟨header, inside⟩, headed, found⟩ := bind_eq_ok.mp (outcome_bind .. ▸ found)
  obtain ⟨⟨numbers, rest⟩, read, kept⟩ := map_eq_ok.mp (outcome_discard .. ▸ tagged)
  cases kept
  obtain ⟨tags, tagsFit, -, spelled, byte, more, rfl, other⟩ := tags_of_readTags read
  obtain ⟨head?, fits, opens, same, spelled'⟩ := opening_of_readHeader headed
  have initial : header.initial = byte := by
    rw [openingBytes_eq_cons, ← same] at spelled'
    exact (List.cons.inj spelled').1.symm
  have untagged : header.major ≠ .tag := by
    rw [Header.major, initial]
    exact other
  generalize header.major = major at untagged opens same spelled'
  subst same
  replace spelled : input = tagBytes tags ++ (openingBytes major head? ++ inside) := spelled'.symm ▸ spelled
  rcases eq_of_skipContent fits untagged opens found with
    ⟨head, content, rfl, measured, rfl, rfl⟩ | ⟨framing, count, rfl, admitted, rfl, rfl⟩
  · refine ⟨.leaf tags major head content, bytes, .leaf tagsFit (fits head rfl) measured, completes, ?_⟩
    rintro rest rfl
    rw [spelled, Outline.bytes, openingBytes]
    simp only [List.append_assoc]
  · obtain ⟨parts, others, sound, length, after, rfl⟩ := completes.opened
    have units : framing.head? (major.units parts.length) = framing.head? (major.units count) := by
      cases framing with
      | counted width => rw [length Framing.counted_ne_delimited]
      | delimited => rfl
    have admits : framing.Admits major parts.length := by
      cases framing with
      | counted width => rwa [length Framing.counted_ne_delimited]
      | delimited => cases major <;> exact admitted
    refine ⟨.compound tags major framing parts, others, .compound tagsFit (units ▸ fits) admits sound,
      after, ?_⟩
    rintro rest rfl
    rw [spelled, Outline.bytes, units]
    simp only [List.append_assoc]

theorem completes_of_skipRound {pending : Pending} {next : Option Pending} {input after bytes rest : Bytes}
    (found : outcome (skipRound pending) input = .ok (next, after)) (completes : Completes next bytes)
    (spelled : after = bytes ++ rest) :
    ∃ owed, Completes (some pending) owed ∧ input = owed ++ rest := by
  match pending with
  | [] =>
    obtain ⟨outline, others, sound, nothing, same⟩ := outline_of_skipHead found completes
    cases nothing
    exact ⟨outline.bytes, .item sound, same rest spelled⟩
  | some 0 :: outer =>
    cases found
    exact ⟨bytes, @Completes.counted [] _ _ nofun completes, spelled⟩
  | some (count + 1) :: outer =>
    obtain ⟨outline, others, sound, owed, same⟩ := outline_of_skipHead found completes
    refine ⟨outline.bytes ++ others, owed.consCounted sound, ?_⟩
    rw [same rest spelled, List.append_assoc]
  | none :: outer =>
    obtain ⟨⟨closes, between⟩, tried, found⟩ := bind_eq_ok.mp (outcome_bind .. ▸ found)
    cases closes with
    | true =>
      cases found
      refine ⟨Wire.closing ++ bytes, @Completes.delimited [] _ _ nofun completes, ?_⟩
      rw [eq_of_tryBreak tried, List.append_assoc, ← spelled]
    | false =>
      obtain ⟨outline, others, sound, owed, same⟩ := outline_of_skipHead found completes
      refine ⟨outline.bytes ++ others, owed.consDelimited sound, ?_⟩
      rw [eq_of_tryBreak_false tried, List.append_assoc]
      exact same rest spelled

theorem completes_of_continued {rounds : Nat} {next : Option Pending} {input rest : Bytes}
    (found : outcome (continued rounds next) input = .ok ((), rest)) :
    ∃ owed, Completes next owed ∧ input = owed ++ rest := by
  induction rounds generalizing next input with
  | zero =>
    cases next with
    | none =>
      cases found
      exact ⟨[], .done, rfl⟩
    | some pending => cases found
  | succ rounds ih =>
    cases next with
    | none =>
      cases found
      exact ⟨[], .done, rfl⟩
    | some pending =>
      rw [continued, skipRounds_succ] at found
      obtain ⟨⟨next, after⟩, round, found⟩ := bind_eq_ok.mp (outcome_bind .. ▸ found)
      obtain ⟨bytes, completes, spelled⟩ := ih found
      exact completes_of_skipRound round completes spelled

theorem outline_of_skipItem {input rest : Bytes} (found : outcome skipItem input = .ok ((), rest)) :
    ∃ outline : Outline, outline.Sound ∧ input = outline.bytes ++ rest := by
  simp only [skipItem, outcome_bind, outcome_get, ok_bind] at found
  obtain ⟨owed, completes, spelled⟩ := @completes_of_continued (2 * input.length + 1) (some []) _ _ found
  cases completes with
  | @item outline sound => exact ⟨outline, sound, spelled⟩

-- What is passed over has a sound outline, and everything that has one is passed over. It is an item
-- exactly if the outline keeps to the rules that passing over it does not look at.
theorem skipItem_eq_ok_iff {input rest : Bytes} (small : input.length < 2 ^ 64) :
    outcome skipItem input = .ok ((), rest) ↔
      ∃ outline : Outline, outline.Sound ∧ input = outline.bytes ++ rest ∧
        ((∃ item : Item, item.WellFormed ∧ item.bytes = outline.bytes) ↔ outline.Strict) := by
  constructor
  · intro found
    obtain ⟨outline, sound, spelled⟩ := outline_of_skipItem found
    exact ⟨outline, sound, spelled, sound.exists_item_iff⟩
  · rintro ⟨outline, sound, rfl, -⟩
    rw [List.length_append] at small
    exact sound.outcome_skipItem (by omega) rest

theorem skipItem_array :
    outcome skipItem [0x9f, 0x81, 0x01, 0xff, 0x05] = .ok ((), [0x05]) ∧
      ∃ outline : Outline, outline.Sound ∧ [0x9f, 0x81, 0x01, 0xff, 0x05] = outline.bytes ++ [0x05] ∧
        ((∃ item : Item, item.WellFormed ∧ item.bytes = outline.bytes) ↔ outline.Strict) := by
  have skipped : outcome skipItem [0x9f, 0x81, 0x01, 0xff, 0x05] = .ok ((), [0x05]) := rfl
  exact ⟨skipped, (skipItem_eq_ok_iff (by decide)).mp skipped⟩

def misshapen : List Outline :=
  [.compound [] .bytes .delimited [.leaf [] .unsigned ⟨.immediate, 1⟩ []],
    .compound [] .map .delimited [.leaf [] .unsigned ⟨.immediate, 1⟩ []],
    .leaf [] .simple ⟨.one, 20⟩ []]

theorem sound_of_misshapen {outline : Outline} (member : outline ∈ misshapen) : outline.Sound := by
  have key : ∀ part ∈ [Outline.leaf [] .unsigned ⟨.immediate, 1⟩ []], part.Sound :=
    List.forall_mem_singleton.mpr (.leaf nofun (by decide) rfl)
  simp only [misshapen, List.mem_cons, List.not_mem_nil, or_false] at member
  rcases member with rfl | rfl | rfl
  · exact .compound nofun nofun True.intro key
  · exact .compound nofun nofun True.intro key
  · exact .leaf nofun (by decide) rfl

theorem not_strict_of_misshapen {outline : Outline} (member : outline ∈ misshapen) : ¬ outline.Strict := by
  intro strict
  simp only [misshapen, List.mem_cons, List.not_mem_nil, or_false] at member
  rcases member with rfl | rfl | rfl
  · cases strict with
    | compound chunks =>
      obtain ⟨head, content, same⟩ := chunks (.inl rfl) _ List.mem_cons_self
      cases same
  · cases strict with
    | compound _ pairs => exact absurd (pairs rfl) (by decide)
  · cases strict with
    | leaf first => exact absurd (first rfl rfl) (by decide)

theorem skipItem_misshapen :
    misshapen.map Outline.bytes = [[0x5f, 0x01, 0xff], [0xbf, 0x01, 0xff], [0xf8, 0x14]] ∧
      (∀ outline ∈ misshapen, outcome skipItem outline.bytes = .ok ((), []) ∧
        ¬ ∃ item : Item, item.WellFormed ∧ item.bytes = outline.bytes) ∧
      (Config.standard .fixed).decode .ignored [0x5f, 0x01, 0xff] = .ok (.visited .ignored .unit) ∧
      (Config.standard .fixed).decode .any [0x5f, 0x01, 0xff] = .error (.malformedHeader 0x01) := by
  refine ⟨rfl, fun outline member => ⟨?_, ?_⟩, rfl, rfl⟩
  · simp only [misshapen, List.mem_cons, List.not_mem_nil, or_false] at member
    rcases member with rfl | rfl | rfl <;> rfl
  · rw [(sound_of_misshapen member).exists_item_iff]
    exact not_strict_of_misshapen member

end Cursor

open Decoder

-- Passing over an item stops exactly behind it, and so where the item ends for whoever reads it.
theorem Cursor.skipItem_stops_behind :
    (∀ item : Item, item.WellFormed → item.bytes.length < 2 ^ 64 → ∀ rest : Bytes,
      outcome skipItem (item.bytes ++ rest) = .ok ((), rest)) ∧
    ∀ (config : Config) (decoder after : Decoder) (value : Value), decoder.rest.length < 2 ^ 64 →
      outcome (readAny config) decoder = .ok (value, after) →
      outcome skipItem decoder.rest = .ok ((), after.rest) := by
  refine ⟨fun item wellFormed small rest => outcome_skipItem wellFormed small rest, ?_⟩
  intro config decoder after value small accepted
  simp only [readAny, outcome_bind, outcome_get, ok_bind] at accepted
  obtain ⟨item, wellFormed, spelled⟩ := spells_readGeneric _ _ _ _ accepted
  rw [spelled, List.length_append] at small
  rw [spelled]
  exact outcome_skipItem wellFormed (by omega) after.rest

section
def Item.chunkedSeven : Item := ⟨[], .bytes (.chunked [⟨.immediate, [0x07]⟩, ⟨.one, []⟩])⟩

def Item.oneToNothing : Item :=
  ⟨[], .map (.counted .immediate) [(⟨[], .unsigned ⟨.immediate, 1⟩⟩, ⟨[], .array (.counted .one) []⟩)]⟩

def Item.assorted : Item := ⟨[⟨.immediate, 5⟩], .array .delimited [Item.chunkedSeven, Item.oneToNothing]⟩

theorem Item.wellFormed_assorted : Item.assorted.WellFormed := by
  have string : Item.chunkedSeven.WellFormed := .intro ⟨nofun, nofun, by decide, nofun⟩ nofun
  have key : (Item.mk [] (.unsigned ⟨.immediate, 1⟩)).WellFormed :=
    .intro ⟨nofun, by decide, nofun, nofun⟩ nofun
  have nothing : (Item.mk [] (.array (.counted .one) [])).WellFormed :=
    .intro ⟨nofun, by decide, nofun, nofun⟩ nofun
  have map : Item.oneToNothing.WellFormed := by
    refine .intro ⟨nofun, by decide, nofun, nofun⟩ fun child member => ?_
    rcases List.mem_pair.mp member with rfl | rfl
    · exact key
    · exact nothing
  refine .intro ⟨by decide, nofun, nofun, nofun⟩ fun child member => ?_
  rcases List.mem_pair.mp member with rfl | rfl
  · exact string
  · exact map

theorem Cursor.skipItem_assorted :
    Item.assorted.WellFormed ∧
      Item.assorted.bytes = [0xc5, 0x9f, 0x5f, 0x41, 0x07, 0x58, 0x00, 0xff, 0xa1, 0x01, 0x98, 0x00, 0xff] ∧
      outcome skipItem (Item.assorted.bytes ++ [0x05]) = .ok ((), [0x05]) ∧
      ∃ value after,
        outcome (readAny (Config.standard .fixed))
          { rest := [0xc5, 0x9f, 0x5f, 0x41, 0x07, 0x58, 0x00, 0xff, 0x01, 0xff, 0x05] } = .ok (value, after) ∧
        outcome skipItem [0xc5, 0x9f, 0x5f, 0x41, 0x07, 0x58, 0x00, 0xff, 0x01, 0xff, 0x05] =
          .ok ((), after.rest) := by
  obtain ⟨behind, alike⟩ := Cursor.skipItem_stops_behind
  have bytes : Item.assorted.bytes =
    [0xc5, 0x9f, 0x5f, 0x41, 0x07, 0x58, 0x00, 0xff, 0xa1, 0x01, 0x98, 0x00, 0xff] := by rfl
  have small : Item.assorted.bytes.length < 2 ^ 64 := by
    rw [bytes]
    decide
  have read : outcome (readAny (Config.standard .fixed))
      { rest := [0xc5, 0x9f, 0x5f, 0x41, 0x07, 0x58, 0x00, 0xff, 0x01, 0xff, 0x05] } =
        .ok (.visited (.seq none)
          (.seq [.visited .bytesJoined (.bytes [0x07]), .visited .u64 (.int .u64 1)]), { rest := [0x05] }) := by
    rfl
  exact ⟨Item.wellFormed_assorted, bytes, behind _ Item.wellFormed_assorted small [0x05], _, _, read,
    alike _ _ _ _ (by decide) read⟩

end
end TypedCbor
