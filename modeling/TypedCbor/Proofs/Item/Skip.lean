import TypedCbor.Cursor.Skip
import TypedCbor.Proofs.Item.Outline

namespace TypedCbor

theorem Outline.Sound.outcome_tryBreak {outline : Outline} (sound : outline.Sound) (rest : Bytes) :
    outcome Cursor.tryBreak (outline.bytes ++ rest) = .ok (false, outline.bytes ++ rest) := by
  obtain ⟨byte, more, same, going⟩ := sound.bytes_eq_cons
  rw [same, List.cons_append]
  simp [Cursor.tryBreak, outcome, going]

namespace Cursor

variable {major : Major}

def skipContent (pending : Pending) (header : Header) : ReadM (Option Pending) :=
  match header.major, header.argument with
  | .bytes, .value length | .text, .value length => do
    discard (take length.toNat)
    return settled pending
  | .bytes, .indefinite | .text, .indefinite | .array, .indefinite | .map, .indefinite =>
    return settled (none :: pending)
  | .array, .value count => return settled (some count.toNat :: pending)
  | .map, .value count =>
    if 2 * count.toNat < UInt64.size then return settled (some (2 * count.toNat) :: pending)
    else throw (.malformedHeader header.initial)
  | .simple, .indefinite => throw (.malformedHeader header.initial)
  | _, _ => return settled pending

theorem skipHead_eq (pending : Pending) :
    skipHead pending = discard readTags >>= fun _ => readHeader >>= skipContent pending := rfl

theorem outcome_skipHead {tags : List Head} {head? : Option Head} (opening : Opening tags major head?)
    (pending : Pending) (rest : Bytes) :
    outcome (skipHead pending) (tagBytes tags ++ (openingBytes major head? ++ rest)) =
      outcome (skipContent pending (openingHeader major head?)) rest := by
  have known : Major.ofInitial (openingHeader major head?).initial = major :=
    openingHeader_major major opening.fits
  have stops : Major.ofInitial (openingHeader major head?).initial ≠ .tag := known.symm ▸ opening.untagged
  have readTags := outcome_readTags opening.tagsFit stops ((openingBytes major head?).tail ++ rest)
  rw [← List.cons_append, ← openingBytes_eq_cons] at readTags
  rw [skipHead_eq, outcome_bind, outcome_discard, readTags, ok_map, ok_bind, outcome_bind,
    outcome_readHeader opening.fits opening.opens, ok_bind]

theorem outcome_skipContent_leaf {head : Head} {content : Bytes} (fits : head.Fits)
    (measured : head.Measures major content) (pending : Pending) (rest : Bytes) :
    outcome (skipContent pending (openingHeader major (some head))) (content ++ rest) =
      .ok (settled pending, rest) := by
  have known := openingHeader_major major (Opening.ofTag fits)
  have length := fits.toNat_number
  have argument : (openingHeader major (some head)).argument = .value head.number := rfl
  rw [skipContent, known, argument]
  cases major with
  | unsigned | negative | simple =>
    cases measured
    rfl
  | bytes | text =>
    have string : content.length = head.n := measured
    dsimp only
    rw [length, ← string, outcome_bind, outcome_discard, outcome_take]
    rfl
  | array | map | tag => exact measured.elim

theorem outcome_skipContent_compound {framing : Framing} {count : Nat}
    (fits : ∀ head ∈ framing.head? (major.units count), head.Fits)
    (admitted : framing.Admits major count) (small : count < 2 ^ 64) (pending : Pending) (rest : Bytes) :
    outcome (skipContent pending (openingHeader major (framing.head? (major.units count)))) rest =
      .ok (some (framing.announced count :: pending), rest) := by
  have known := openingHeader_major major fits
  cases framing with
  | delimited =>
    have argument : (openingHeader major (Framing.delimited.head? (major.units count))).argument =
      .indefinite := rfl
    rw [skipContent, known, argument]
    cases major with
    | bytes | text | array | map => rfl
    | unsigned | negative | simple | tag => exact admitted.elim
  | counted width =>
    have length := (fits _ rfl).toNat_number
    have argument : (openingHeader major ((Framing.counted width).head? (major.units count))).argument =
      .value (Head.number ⟨width, major.units count⟩) := rfl
    rw [skipContent, known, argument]
    cases major with
    | array =>
      dsimp only
      rw [length]
      rfl
    | map =>
      have even : count % 2 = 0 := admitted
      have doubled : 2 * Major.map.units count = count := by
        rw [Major.units, if_pos rfl]
        omega
      dsimp only
      rw [length, doubled, if_pos (show count < UInt64.size from small)]
      rfl
    | unsigned | negative | simple | tag | bytes | text => exact admitted.elim

def continued (rounds : Nat) : Option Pending → ReadM Unit
  | none => pure ()
  | some pending => skipRounds rounds pending

theorem skipRounds_succ (rounds : Nat) (pending : Pending) :
    skipRounds (rounds + 1) pending = skipRound pending >>= continued rounds := by
  rw [skipRounds]
  congr

-- The bytes are one item to skip: from its head on, that many rounds later, it is done with.
def Skips (rounds : Nat) (bytes : Bytes) : Prop :=
  ∀ pending rest more,
    outcome (skipHead pending >>= continued (rounds + more)) (bytes ++ rest) =
      outcome (continued more (settled pending)) rest

theorem settled_cons (left : Option Nat) (pending : Pending) :
    settled (left :: pending) = some (left :: pending) := rfl

theorem skips_counted {parts : List Outline}
    (each : ∀ part ∈ parts, ∃ rounds < 2 * part.bytes.length, Skips rounds part.bytes) :
    ∃ rounds ≤ 2 * (partsBytes parts).length + 1, ∀ pending rest more,
      outcome (skipRounds (rounds + more) (some parts.length :: pending)) (partsBytes parts ++ rest) =
        outcome (continued more (settled pending)) rest := by
  induction parts with
  | nil =>
    refine ⟨1, by simp, fun pending rest more => ?_⟩
    rw [Nat.add_comm, skipRounds_succ]
    simp [partsBytes, skipRound]
  | cons part parts ih =>
    obtain ⟨⟨first, small, skips⟩, others⟩ := List.forall_mem_cons.mp each
    obtain ⟨further, bound, passes⟩ := ih others
    refine ⟨first + further + 1, by simp only [partsBytes, List.length_append]; omega,
      fun pending rest more => ?_⟩
    rw [show first + further + 1 + more = first + (further + more) + 1 by omega, skipRounds_succ,
      List.length_cons, partsBytes, List.append_assoc]
    simp only [skipRound]
    rw [skips, settled_cons]
    exact passes pending rest more

theorem skips_delimited {parts : List Outline} (sound : ∀ part ∈ parts, part.Sound)
    (each : ∀ part ∈ parts, ∃ rounds < 2 * part.bytes.length, Skips rounds part.bytes) :
    ∃ rounds ≤ 2 * (partsBytes parts).length + 1, ∀ pending rest more,
      outcome (skipRounds (rounds + more) (none :: pending))
          (partsBytes parts ++ (Wire.closing ++ rest)) =
        outcome (continued more (settled pending)) rest := by
  induction parts with
  | nil =>
    refine ⟨1, by simp, fun pending rest more => ?_⟩
    rw [Nat.add_comm, skipRounds_succ]
    simp [partsBytes, skipRound, outcome_tryBreak]
  | cons part parts ih =>
    obtain ⟨here, soundOthers⟩ := List.forall_mem_cons.mp sound
    obtain ⟨⟨first, small, skips⟩, others⟩ := List.forall_mem_cons.mp each
    obtain ⟨further, bound, passes⟩ := ih soundOthers others
    refine ⟨first + further + 1, by simp only [partsBytes, List.length_append]; omega,
      fun pending rest more => ?_⟩
    rw [show first + further + 1 + more = first + (further + more) + 1 by omega, skipRounds_succ,
      partsBytes, List.append_assoc]
    have stays := here.outcome_tryBreak (partsBytes parts ++ (Wire.closing ++ rest))
    have goes := skips (none :: pending) (partsBytes parts ++ (Wire.closing ++ rest)) (further + more)
    rw [settled_cons, outcome_bind] at goes
    simp only [skipRound, outcome_bind, stays, ok_bind, Bool.false_eq_true, if_false]
    rw [goes]
    exact passes pending rest more

end Cursor

namespace Outline

open Cursor

theorem skips_leaf {tags : List Head} {major : Major} {head : Head} {content : Bytes}
    (tagsFit : ∀ tag ∈ tags, tag.Fits) (fits : head.Fits) (measured : head.Measures major content) :
    Skips 0 (leaf tags major head content).bytes := by
  intro pending rest more
  rw [Outline.bytes_eq, List.append_assoc, List.append_assoc, outcome_bind,
    outcome_skipHead (Sound.leaf tagsFit fits measured).opening]
  change (outcome (skipContent pending (openingHeader major (some head))) (content ++ rest) >>= _) = _
  rw [outcome_skipContent_leaf fits measured, ok_bind, Nat.zero_add]

theorem Sound.skips {outline : Outline} (sound : outline.Sound) (small : outline.bytes.length < 2 ^ 64) :
    ∃ rounds < 2 * outline.bytes.length, Skips rounds outline.bytes := by
  have positive := sound.length_bytes_pos
  induction sound with
  | leaf tagsFit fits measured => exact ⟨0, by omega, skips_leaf tagsFit fits measured⟩
  | @compound tags major framing parts tagsFit fits admitted inside ih =>
    have opening : Opening tags major (framing.head? (major.units parts.length)) :=
      (Sound.compound tagsFit fits admitted inside).opening
    have total : (Outline.compound tags major framing parts).bytes.length =
        (tagBytes tags).length + ((openingBytes major (framing.head? (major.units parts.length))).length +
          ((partsBytes parts).length + framing.closing.length)) := by
      simp only [Outline.bytes, List.length_append]
    have opened : 0 < (openingBytes major (framing.head? (major.units parts.length))).length := by
      rw [openingBytes_eq_cons]
      exact Nat.succ_pos _
    have count := length_le_partsBytes inside
    have each (part : Outline) (member : part ∈ parts) :
        ∃ rounds < 2 * part.bytes.length, Skips rounds part.bytes := by
      have bound := length_bytes_le_partsBytes member
      exact ih part member (by omega) (inside part member).length_bytes_pos
    have first := outcome_skipContent_compound fits admitted (show parts.length < 2 ^ 64 by omega)
    have begins (pending : Pending) (rest : Bytes) :
        outcome (skipHead pending) ((Outline.compound tags major framing parts).bytes ++ rest) =
          .ok (some (framing.announced parts.length :: pending),
            partsBytes parts ++ (framing.closing ++ rest)) := by
      rw [Outline.bytes, List.append_assoc, List.append_assoc, List.append_assoc, outcome_skipHead opening]
      exact first pending _
    cases framing with
    | counted width =>
      obtain ⟨rounds, bound, passes⟩ := skips_counted each
      refine ⟨rounds, by omega, fun pending rest more => ?_⟩
      rw [outcome_bind, begins]
      exact passes pending rest more
    | delimited =>
      obtain ⟨rounds, bound, passes⟩ := skips_delimited inside each
      refine ⟨rounds, by omega, fun pending rest more => ?_⟩
      rw [outcome_bind, begins]
      exact passes pending rest more

theorem Sound.outcome_skipItem {outline : Outline} (sound : outline.Sound)
    (small : outline.bytes.length < 2 ^ 64) (rest : Bytes) :
    outcome skipItem (outline.bytes ++ rest) = .ok ((), rest) := by
  obtain ⟨rounds, bound, skips⟩ := sound.skips small
  obtain ⟨more, total⟩ : ∃ more, 2 * (outline.bytes ++ rest).length = rounds + more :=
    ⟨2 * (outline.bytes ++ rest).length - rounds, by rw [List.length_append]; omega⟩
  simp only [skipItem, outcome_bind, outcome_get, ok_bind]
  rw [total, skipRounds_succ]
  exact skips [] rest more

end Outline

theorem Cursor.outcome_skipItem {item : Item} (wellFormed : item.WellFormed)
    (small : item.bytes.length < 2 ^ 64) (rest : Bytes) :
    outcome skipItem (item.bytes ++ rest) = .ok ((), rest) := by
  obtain ⟨outline, sound, -, same⟩ := wellFormed.exists_outline
  rw [← same] at small ⊢
  exact sound.outcome_skipItem small rest

end TypedCbor
