import Mathlib.Tactic.IntervalCases
import TypedCbor.Proofs.ItemReader.Typed

namespace TypedCbor

def Head.simpleValue : Head → Option Value
  | ⟨.immediate, 20⟩ => some (.visited .bool (.bool false))
  | ⟨.immediate, 21⟩ => some (.visited .bool (.bool true))
  | ⟨.immediate, 22⟩ | ⟨.immediate, 23⟩ => some (.visited .unit .unit)
  | ⟨.two, n⟩ => some (.visited .double (.double (Ieee.doubleOfHalf (UInt16.ofNat n))))
  | ⟨.four, n⟩ => some (.visited .double (.double (Ieee.doubleOfSingle (UInt32.ofNat n))))
  | ⟨.eight, n⟩ => some (.visited .double (.double (UInt64.ofNat n)))
  | _ => none

namespace Body

def elements : Body ι → List ι
  | array _ items => items
  | map _ entries => flattened entries
  | _ => []

def Says : Body ι → Prop
  | text form => form.content.toText?.isSome
  | simple head => head.simpleValue.isSome
  | _ => True

end Body

namespace Item

-- Texts are valid, and of major type seven there are only values.
inductive Plain : Item → Prop where
  | intro (here : item.body.Says) (inside : ∀ child ∈ item.body.elements, Plain child) : Plain item

mutual
def denotation : Item → Value
  | ⟨_, body⟩ => bodyDenotation body

def bodyDenotation : Body Item → Value
  | .unsigned head => .visited .u64 (.int .u64 head.n)
  | .negative head =>
    if head.n < 2 ^ 63 then .visited .i64 (.int .i64 (-1 - head.n))
    else .visited .i128 (.int .i128 (-1 - head.n))
  | .bytes form =>
    .visited (if form.isWhole then .bytesInPlace else .bytesJoined) (.bytes form.content)
  | .text form =>
    .visited (if form.isWhole then .textInPlace else .textJoined)
      (.text (form.content.toText?.getD ""))
  | .array framing items =>
    .visited (.seq (framing.announced items.length)) (.seq (denotations items))
  | .map framing entries =>
    .visited (.map (framing.announced entries.length)) (.map (entryDenotations entries))
  | .simple head => head.simpleValue.getD (.visited .unit .unit)
  | .embedded _ item => .visited .bytesInPlace (.bytes item.bytes)

def denotations : List Item → List Value
  | [] => []
  | item :: items => item.denotation :: denotations items

def entryDenotations : List (Item × Item) → List (Value × Value)
  | [] => []
  | (key, value) :: entries => (key.denotation, value.denotation) :: entryDenotations entries
end

end Item

theorem Head.Fits.integer_unsigned {head : Head} (fits : head.Fits) :
    (head.header .unsigned).integer = .ok head.n := by
  have known : (head.header .unsigned).major = .unsigned :=
    Major.unsigned.ofInitial_initial (by have := fits.info_lt; omega)
  simp only [Header.integer, known, Head.argument_header, fits.toNat_number]

theorem Head.Fits.integer_negative {head : Head} (fits : head.Fits) :
    (head.header .negative).integer = .ok (-1 - head.n) := by
  have known : (head.header .negative).major = .negative :=
    Major.negative.ofInitial_initial (by have := fits.info_lt; omega)
  simp only [Header.integer, known, Head.argument_header, fits.toNat_number]

theorem Head.Fits.readSimple_eq {head : Head} (fits : head.Fits) :
    Decoder.readSimple (head.header .simple) =
      match head.simpleValue with
      | some value => .ok value
      | none => .error (.malformedHeader (Major.simple.initial (head.width.info head.n))) := by
  rcases head with ⟨width, n⟩
  have known (info : Nat) (found : width.info n = info) :
      ((Head.mk width n).header .simple).initial = Major.simple.initial info := by rw [← found]; rfl
  cases width with
  | immediate =>
    have small : n < 24 := fits
    interval_cases n <;> rfl
  | one =>
    have initial := known 24 rfl
    simp only [Decoder.readSimple, Header.info, initial]
    rfl
  | two =>
    have initial := known 25 rfl
    have major : ((Head.mk .two n).header .simple).major = .simple := by rw [Header.major, initial]; rfl
    simp only [Decoder.readSimple, Header.float, major, Header.info, initial, Head.argument_header,
      Head.number, UInt64.toUInt16_ofNat']
    rfl
  | four =>
    have initial := known 26 rfl
    have major : ((Head.mk .four n).header .simple).major = .simple := by rw [Header.major, initial]; rfl
    simp only [Decoder.readSimple, Header.float, major, Header.info, initial, Head.argument_header,
      Head.number, UInt64.toUInt32_ofNat']
    rfl
  | eight =>
    have initial := known 27 rfl
    have major : ((Head.mk .eight n).header .simple).major = .simple := by rw [Header.major, initial]; rfl
    simp only [Decoder.readSimple, Header.float, major, Header.info, initial, Head.argument_header,
      Head.number]
    rfl

namespace Item

theorem plain_iff {item : Item} :
    item.Plain ↔ item.body.Says ∧ ∀ child ∈ item.body.elements, child.Plain :=
  ⟨fun ⟨here, inside⟩ => ⟨here, inside⟩, fun ⟨here, inside⟩ => ⟨here, inside⟩⟩

theorem mem_children_of_elements {item child : Item} (member : child ∈ item.body.elements) :
    child ∈ item.body.children := by
  rcases item with ⟨tags, body⟩
  cases body <;> first | exact member | cases member

end Item

namespace Body

open Item

def Tells (item : Item) : Prop :=
  ∀ value, visitItem item = .ok value ↔ item.Plain ∧ value = item.denotation

theorem visitItems_eq_ok {items : List Item} (each : ∀ item ∈ items, Tells item)
    (values : List Value) :
    visitItems items = .ok values ↔ (∀ item ∈ items, item.Plain) ∧ values = denotations items := by
  induction items generalizing values with
  | nil => simp [visitItems, denotations, eq_comm]
  | cons item items ih =>
    obtain ⟨here, each⟩ := List.forall_mem_cons.mp each
    simp only [visitItems, bind_eq_ok, here _, ih each, List.forall_mem_cons, denotations, pure,
      Except.pure, Except.ok.injEq]
    constructor
    · rintro ⟨_, ⟨plain, rfl⟩, _, ⟨others, rfl⟩, rfl⟩
      exact ⟨⟨plain, others⟩, rfl⟩
    · rintro ⟨⟨plain, others⟩, rfl⟩
      exact ⟨_, ⟨plain, rfl⟩, _, ⟨others, rfl⟩, rfl⟩

theorem visitEntries_eq_ok {entries : List (Item × Item)}
    (each : ∀ entry ∈ entries, Tells entry.1 ∧ Tells entry.2) (values : List (Value × Value)) :
    visitEntries entries = .ok values ↔
      (∀ entry ∈ entries, entry.1.Plain ∧ entry.2.Plain) ∧ values = entryDenotations entries := by
  induction entries generalizing values with
  | nil => simp [visitEntries, entryDenotations, eq_comm]
  | cons entry entries ih =>
    rcases entry with ⟨key, value⟩
    obtain ⟨⟨keyTells, valueTells⟩, each⟩ := List.forall_mem_cons.mp each
    simp only [visitEntries, bind_eq_ok, keyTells _, valueTells _, ih each, List.forall_mem_cons,
      entryDenotations, pure, Except.pure, Except.ok.injEq]
    constructor
    · rintro ⟨_, ⟨keyPlain, rfl⟩, _, ⟨valuePlain, rfl⟩, _, ⟨others, rfl⟩, rfl⟩
      exact ⟨⟨⟨keyPlain, valuePlain⟩, others⟩, rfl⟩
    · rintro ⟨⟨⟨keyPlain, valuePlain⟩, others⟩, rfl⟩
      exact ⟨_, ⟨keyPlain, rfl⟩, _, ⟨valuePlain, rfl⟩, _, ⟨others, rfl⟩, rfl⟩

theorem tells_of_wellFormed {item : Item} (wellFormed : item.WellFormed) : Tells item := by
  induction wellFormed with
  | @intro item formed inside ih =>
    intro value
    rw [plain_iff]
    have within (child : Item) (member : child ∈ item.body.elements) : Tells child :=
      ih child (mem_children_of_elements member)
    rcases item with ⟨tags, body⟩
    simp only [body_mk, visitItem, denotation] at within ⊢
    have fits := formed.head
    cases body with
    | unsigned head =>
      have fits : head.Fits := fits head rfl
      simp only [visit, fits.integer_unsigned, ok_map, Except.ok.injEq, Says, elements,
        List.not_mem_nil, false_imp_iff, implies_true, and_self, true_and, bodyDenotation,
        Decoder.integerVisit]
      rw [if_pos (by omega), eq_comm]
    | negative head =>
      have fits : head.Fits := fits head rfl
      simp only [visit, fits.integer_negative, ok_map, Except.ok.injEq, Says, elements,
        List.not_mem_nil, false_imp_iff, implies_true, and_self, true_and, bodyDenotation,
        Decoder.integerVisit]
      have least : IntKind.i64.low = -2 ^ 63 := rfl
      rw [if_neg (by omega), eq_comm]
      by_cases small : head.n < 2 ^ 63
      · rw [if_pos small, if_pos (by omega)]
      · rw [if_neg small, if_neg (by omega)]
    | bytes form | embedded width item =>
      simp [visit, Says, elements, bodyDenotation, Decoder.bytesVisit, @eq_comm _ value]
    | text form =>
      simp only [visit, Payload.text, Says, elements, bodyDenotation]
      cases form.content.toText? <;> simp [Decoder.textVisit, @eq_comm _ value]
    | simple head =>
      have fits : head.Fits := fits head rfl
      simp only [visit, fits.readSimple_eq, Says, elements, bodyDenotation]
      cases head.simpleValue <;> simp [@eq_comm _ value]
    | array framing items =>
      have each : ∀ item ∈ items, Tells item := within
      simp only [visit, map_eq_ok, visitItems_eq_ok each, Says, true_and, bodyDenotation, elements]
      constructor
      · rintro ⟨_, ⟨plain, rfl⟩, rfl⟩
        exact ⟨plain, rfl⟩
      · rintro ⟨plain, rfl⟩
        exact ⟨_, ⟨plain, rfl⟩, rfl⟩
    | map framing entries =>
      have both (entry : Item × Item) (member : entry ∈ entries) : Tells entry.1 ∧ Tells entry.2 :=
        ⟨within _ (mem_flattened.mpr ⟨entry, member, .inl rfl⟩),
          within _ (mem_flattened.mpr ⟨entry, member, .inr rfl⟩)⟩
      simp only [visit, map_eq_ok, visitEntries_eq_ok both, Says, true_and, bodyDenotation, elements,
        mem_flattened]
      constructor
      · rintro ⟨_, ⟨plain, rfl⟩, rfl⟩
        refine ⟨?_, rfl⟩
        rintro child ⟨entry, member, rfl | rfl⟩
        · exact (plain entry member).1
        · exact (plain entry member).2
      · rintro ⟨plain, rfl⟩
        exact ⟨_, ⟨fun entry member =>
          ⟨plain _ ⟨entry, member, .inl rfl⟩, plain _ ⟨entry, member, .inr rfl⟩⟩, rfl⟩, rfl⟩

end Body
end TypedCbor
