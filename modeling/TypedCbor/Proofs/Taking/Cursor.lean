import TypedCbor.Proofs.Grammar
import TypedCbor.Proofs.Item.Skip
import TypedCbor.Proofs.Taking

namespace TypedCbor

open Decoder

namespace Cursor

theorem takes_peek : Takes (fun _ => True) (cursor peek) (cursor peek) := by
  refine takes_cursor fun input byte rest found => ?_
  cases input with
  | nil => cases found
  | cons first input =>
    cases found
    refine ⟨[], rfl, fun more kept => ?_, fun part lost split => .inl ?_⟩
    · cases more with
      | nil => cases kept trivial
      | cons other more =>
        cases kept trivial
        rfl
    · obtain ⟨rfl, rfl⟩ := List.append_eq_nil_iff.mp split.symm
      rfl

theorem takes_peekMajor : Takes (fun _ => True) (cursor peekMajor) (cursor peekMajor) := by
  unfold peekMajor
  rw [cursor_bind]
  exact takes_peek.bind (fun byte => takes_pure _) fun _ _ => .inl gives_true

theorem takes_readByte : TakesAlone (cursor readByte) (cursor readByte) := by
  refine takes_cursor fun input byte rest found => ?_
  cases input with
  | nil => cases found
  | cons first input =>
    cases found
    refine ⟨[byte], rfl, fun more _ => rfl, fun part lost split => ?_⟩
    cases part with
    | nil => exact .inl rfl
    | cons other part =>
      obtain ⟨rfl, rest⟩ := List.cons.inj split
      obtain ⟨rfl, rfl⟩ := List.append_eq_nil_iff.mp rest.symm
      exact .inr ⟨rfl, rfl⟩

theorem moves_readByte : Moves (cursor readByte) := by
  intro decoder byte after found
  obtain ⟨rest, read, rfl⟩ := rest_of_cursor found
  rw [eq_of_readByte read]
  exact Nat.lt_succ_self _

theorem takes_take (count : Nat) : TakesAlone (cursor (take count)) (cursor (take count)) := by
  refine takes_cursor fun input bytes rest found => ?_
  obtain ⟨rfl, rfl⟩ := eq_of_take found
  refine ⟨bytes, rfl, fun more _ => outcome_take bytes more, fun part lost split => ?_⟩
  subst split
  cases lost with
  | nil =>
    refine .inr ⟨rfl, ?_⟩
    have taken := outcome_take part []
    rwa [List.append_nil] at taken ⊢
  | cons byte lost =>
    refine .inl ?_
    have short : part.length < (part ++ byte :: lost).length := by simp
    rw [outcome, take, if_pos short]

theorem takes_tryBreak : Takes (· = false) (cursor tryBreak) (cursor tryBreak) := by
  refine takes_cursor fun input closed rest found => ?_
  cases input with
  | nil => cases found
  | cons byte input =>
    by_cases closes : byte = breakByte
    · simp only [outcome, tryBreak, closes, if_true, Except.ok.injEq, Prod.mk.injEq] at found
      rcases found with ⟨rfl, rfl⟩
      refine ⟨[byte], rfl, fun more _ => by simp [outcome, tryBreak, closes], fun part lost split => ?_⟩
      cases part with
      | nil => exact .inl rfl
      | cons other part =>
        obtain ⟨rfl, rest⟩ := List.cons.inj split
        obtain ⟨rfl, rfl⟩ := List.append_eq_nil_iff.mp rest.symm
        exact .inr ⟨rfl, by simp [outcome, tryBreak, closes]⟩
    · simp only [outcome, tryBreak, closes, if_false, Except.ok.injEq, Prod.mk.injEq] at found
      rcases found with ⟨rfl, rfl⟩
      refine ⟨[], rfl, fun more kept => ?_, fun part lost split => .inl ?_⟩
      · cases more with
        | nil => cases kept rfl
        | cons other more =>
          cases kept rfl
          simp [outcome, tryBreak, closes]
      · obtain ⟨rfl, rfl⟩ := List.append_eq_nil_iff.mp split.symm
        rfl

theorem takes_word (width : Nat) : TakesAlone (cursor (word width)) (cursor (word width)) := by
  unfold word
  rw [cursor_bind]
  exact (takes_take width).andThen (fun _ => takes_pure _)

theorem takes_readArgument (initial : UInt8) :
    TakesAlone (cursor (readArgument initial)) (cursor (readArgument initial)) := by
  unfold readArgument
  dsimp only
  split
  · exact takes_pure _
  split
  · exact takes_word 1
  · exact takes_word 2
  · exact takes_word 4
  · exact takes_word 8
  · split
    · exact takes_pure _
    · exact takes_throw _ _
  · exact takes_throw _ _

theorem takes_argumentOf (initial : UInt8) :
    TakesAlone (cursor (do return Header.mk initial (← readArgument initial)))
      (cursor (do return Header.mk initial (← readArgument initial))) := by
  rw [cursor_bind]
  exact (takes_readArgument initial).andThen (fun _ => takes_pure _)

theorem takes_readHeader : TakesAlone (cursor readHeader) (cursor readHeader) := by
  unfold readHeader
  rw [cursor_bind]
  exact takes_readByte.andThen takes_argumentOf

theorem moves_readHeader : Moves (cursor readHeader) := by
  unfold readHeader
  rw [cursor_bind]
  exact moves_readByte.bind takes_argumentOf

theorem length_lt_of_readHeader {input rest : Bytes} {header : Header}
    (found : outcome readHeader input = .ok (header, rest)) : rest.length < input.length :=
  moves_readHeader ⟨input, none, []⟩ header ⟨rest, none, []⟩ (by rw [outcome_cursor, found]; rfl)

theorem takes_tagRounds (rounds : Nat) :
    Takes (fun _ => True) (cursor (tagRounds rounds)) (cursor (tagRounds rounds)) := by
  induction rounds with
  | zero => exact takes_throw _ _
  | succ rounds ih =>
    rw [tagRounds, cursor_bind]
    refine takes_peekMajor.bind (fun major => ?_) fun _ _ => .inl gives_true
    split
    · rw [cursor_bind]
      refine takes_readHeader.andThen (fun header => ?_)
      cases header.argument with
      | value tag =>
        dsimp only
        rw [cursor_bind]
        exact ih.bind (fun _ => takes_pure _) fun _ _ => .inl gives_true
      | indefinite => exact ih
    · exact takes_pure _

theorem tagRounds_enough {rounds rounds' : Nat} {input : Bytes} (enough : input.length < rounds)
    (enough' : input.length < rounds') :
    outcome (tagRounds rounds) input = outcome (tagRounds rounds') input := by
  induction rounds generalizing rounds' input with
  | zero => cases enough
  | succ rounds ih =>
    obtain ⟨rounds', rfl⟩ : ∃ n, rounds' = n + 1 := ⟨rounds' - 1, by omega⟩
    rw [tagRounds, tagRounds]
    refine outcome_bind_congr fun major after peeked => ?_
    obtain rfl : after = input := by
      cases input with
      | nil => cases peeked
      | cons byte input =>
        cases peeked
        rfl
    rw [outcome_ite, outcome_ite]
    split
    · refine outcome_bind_congr fun header after read => ?_
      have shorter := length_lt_of_readHeader read
      have others := ih (show after.length < rounds by omega) (show after.length < rounds' by omega)
      cases header.argument with
      | value tag => exact (outcome_bind ..).trans (by rw [others, outcome_bind])
      | indefinite => exact others
    · rfl

theorem takes_readTags : Takes (fun _ => True) (cursor readTags) (cursor readTags) := by
  refine takes_rounds (· + 1) takes_tagRounds ?_ ?_
  all_goals
    intro count decoder enough
    rw [outcome_cursor, outcome_cursor, tagRounds_enough enough (Nat.lt_succ_self _)]

theorem takes_chunkRounds (major : Major) (rounds : Nat) :
    TakesAlone (cursor (chunkRounds major rounds)) (cursor (chunkRounds major rounds)) := by
  induction rounds with
  | zero => exact takes_throw _ _
  | succ rounds ih =>
    rw [chunkRounds, cursor_bind]
    refine takes_readHeader.andThen (fun chunk => ?_)
    split
    · exact takes_pure _
    · cases chunk.argument with
      | value length =>
        dsimp only
        split
        · rw [cursor_bind]
          refine (takes_take _).andThen (fun content => ?_)
          rw [cursor_bind]
          exact ih.andThen (fun _ => takes_pure _)
        · exact takes_throw _ _
      | indefinite => exact takes_throw _ _

theorem chunkRounds_enough {major : Major} {rounds rounds' : Nat} {input : Bytes}
    (enough : input.length < rounds) (enough' : input.length < rounds') :
    outcome (chunkRounds major rounds) input = outcome (chunkRounds major rounds') input := by
  induction rounds generalizing rounds' input with
  | zero => cases enough
  | succ rounds ih =>
    obtain ⟨rounds', rfl⟩ : ∃ n, rounds' = n + 1 := ⟨rounds' - 1, by omega⟩
    rw [chunkRounds, chunkRounds]
    refine outcome_bind_congr fun chunk after read => ?_
    have shorter := length_lt_of_readHeader read
    rw [outcome_ite, outcome_ite]
    split
    · rfl
    · cases chunk.argument with
      | value length =>
        dsimp only
        rw [outcome_ite, outcome_ite]
        split
        · refine outcome_bind_congr fun content rest taken => ?_
          obtain ⟨-, rfl⟩ := eq_of_take taken
          rw [List.length_append] at shorter
          rw [outcome_bind, outcome_bind, ih (by omega) (show rest.length < rounds' by omega)]
        · rfl
      | indefinite => rfl

theorem takes_readPayload (header : Header) :
    TakesAlone (cursor (readPayload header)) (cursor (readPayload header)) := by
  rcases header with ⟨initial, argument⟩
  cases argument with
  | value length =>
    rw [readPayload, cursor_bind]
    exact (takes_take _).andThen (fun _ => takes_pure _)
  | indefinite =>
    let loop (rounds : Nat) : ReadM Payload :=
      return ⟨← chunkRounds (Header.mk initial .indefinite).major rounds, false⟩
    have each : ∀ rounds, TakesAlone (cursor (loop rounds)) (cursor (loop rounds)) := by
      intro rounds
      dsimp only [loop]
      rw [cursor_bind]
      exact (takes_chunkRounds _ rounds).andThen fun _ => takes_pure _
    refine takes_rounds (· + 1) each ?_ ?_
    all_goals
      intro count decoder enough
      simp only [loop, outcome_cursor, outcome_bind]
      rw [chunkRounds_enough enough (Nat.lt_succ_self _)]

theorem takes_skipContent (pending : Pending) (header : Header) :
    TakesAlone (cursor (skipContent pending header)) (cursor (skipContent pending header)) := by
  unfold skipContent
  generalize header.major = major
  generalize header.argument = argument
  cases major with
  | bytes | text =>
    cases argument with
    | value length =>
      rw [cursor_bind, cursor_discard]
      exact ((takes_take _).discard fun _ => id).andThen (fun _ => takes_pure _)
    | indefinite => exact takes_pure _
  | map =>
    cases argument with
    | value count =>
      dsimp only
      split
      · exact takes_pure _
      · exact takes_throw _ _
    | indefinite => exact takes_pure _
  | simple =>
    cases argument with
    | value => exact takes_pure _
    | indefinite => exact takes_throw _ _
  | unsigned | negative | array | tag => cases argument <;> exact takes_pure _

theorem eq_of_settled {pending pending' : Pending} (found : settled pending = some pending') :
    pending' = pending := by
  cases pending with
  | nil => cases found
  | cons count outer =>
    cases found
    rfl

theorem length_le_of_skipContent {pending pending' : Pending} {header : Header} {input rest : Bytes}
    (found : outcome (skipContent pending header) input = .ok (some pending', rest)) :
    pending'.length ≤ pending.length + 1 := by
  have left : settled pending = some pending' ∨ ∃ count, settled (count :: pending) = some pending' := by
    unfold skipContent at found
    generalize header.major = major at found
    generalize header.argument = argument at found
    cases major with
    | bytes | text =>
      cases argument with
      | value length =>
        obtain ⟨_, _, done⟩ := bind_eq_ok.mp (outcome_bind .. ▸ found)
        exact .inl (congrArg Prod.fst (Except.ok.inj done))
      | indefinite => exact .inr ⟨_, congrArg Prod.fst (Except.ok.inj found)⟩
    | array => cases argument <;> exact .inr ⟨_, congrArg Prod.fst (Except.ok.inj found)⟩
    | map =>
      cases argument with
      | value count =>
        dsimp only at found
        split at found
        · exact .inr ⟨_, congrArg Prod.fst (Except.ok.inj found)⟩
        · cases found
      | indefinite => exact .inr ⟨_, congrArg Prod.fst (Except.ok.inj found)⟩
    | simple =>
      cases argument with
      | value => exact .inl (congrArg Prod.fst (Except.ok.inj found))
      | indefinite => cases found
    | unsigned | negative | tag => cases argument <;> exact .inl (congrArg Prod.fst (Except.ok.inj found))
  rcases left with same | ⟨count, same⟩
  · rw [eq_of_settled same]
    exact Nat.le_succ _
  · rw [eq_of_settled same]
    exact Nat.le_refl _

theorem takes_discardTags :
    Takes (fun _ => True) (discard (cursor readTags)) (discard (cursor readTags)) :=
  takes_readTags.discard fun _ => id

theorem takes_skipHead (pending : Pending) :
    TakesAlone (cursor (skipHead pending)) (cursor (skipHead pending)) := by
  rw [skipHead_eq, cursor_bind, cursor_discard]
  refine takes_discardTags.bind (fun _ => ?_) fun _ _ => .inr ?_
  · rw [cursor_bind]
    exact takes_readHeader.andThen (takes_skipContent pending)
  · rw [cursor_bind]
    exact moves_readHeader.bind (takes_skipContent pending)

theorem moves_skipHead (pending : Pending) : Moves (cursor (skipHead pending)) := by
  rw [skipHead_eq, cursor_bind, cursor_discard]
  refine Moves.after takes_discardTags fun _ => ?_
  rw [cursor_bind]
  exact moves_readHeader.bind (takes_skipContent pending)

theorem fewer_of_skipHead {pending pending' : Pending} {input rest : Bytes}
    (found : outcome (skipHead pending) input = .ok (some pending', rest)) :
    rest.length < input.length ∧ pending'.length ≤ pending.length + 1 := by
  refine ⟨moves_skipHead pending ⟨input, none, []⟩ _ ⟨rest, none, []⟩ (by rw [outcome_cursor, found]; rfl),
    ?_⟩
  rw [skipHead_eq] at found
  obtain ⟨_, _, found⟩ := bind_eq_ok.mp (outcome_bind .. ▸ found)
  obtain ⟨_, _, found⟩ := bind_eq_ok.mp (outcome_bind .. ▸ found)
  exact length_le_of_skipContent found

theorem takes_skipRound (pending : Pending) :
    TakesAlone (cursor (skipRound pending)) (cursor (skipRound pending)) := by
  match pending with
  | some 0 :: outer => exact takes_pure _
  | some (count + 1) :: outer => exact takes_skipHead _
  | none :: outer =>
    rw [skipRound, cursor_bind]
    refine takes_tryBreak.bind (fun closed => ?_) fun closed goes => .inr ?_
    · split
      · exact takes_pure _
      · exact takes_skipHead _
    · cases goes
      exact moves_skipHead _
  | [] => exact takes_skipHead _

theorem closes_or_takes_of_skipRound {pending pending' : Pending} {input rest : Bytes}
    (found : outcome (skipRound pending) input = .ok (some pending', rest)) :
    (rest.length ≤ input.length ∧ pending'.length + 1 = pending.length) ∨
      (rest.length < input.length ∧ pending'.length ≤ pending.length + 1) := by
  match pending with
  | some 0 :: outer =>
    obtain ⟨same, rfl⟩ := Prod.mk.inj (Except.ok.inj found)
    rw [eq_of_settled same]
    exact .inl ⟨Nat.le_refl _, rfl⟩
  | some (count + 1) :: outer => exact .inr (@fewer_of_skipHead (some count :: outer) _ _ _ found)
  | none :: outer =>
    obtain ⟨⟨closed, after⟩, first, found⟩ := bind_eq_ok.mp (outcome_bind .. ▸ found)
    cases closed with
    | true =>
      obtain ⟨same, rfl⟩ := Prod.mk.inj (Except.ok.inj found)
      rw [eq_of_settled same, eq_of_tryBreak first]
      exact .inl ⟨by simp, rfl⟩
    | false =>
      rw [eq_of_tryBreak_false first]
      exact .inr (fewer_of_skipHead found)
  | [] => exact .inr (fewer_of_skipHead found)

theorem fewer_of_skipRound {pending pending' : Pending} {input rest : Bytes}
    (found : outcome (skipRound pending) input = .ok (some pending', rest)) :
    2 * rest.length + pending'.length < 2 * input.length + pending.length := by
  rcases closes_or_takes_of_skipRound found with ⟨kept, closed⟩ | ⟨took, opened⟩
  · omega
  · omega

theorem takes_skipRounds (rounds : Nat) (pending : Pending) :
    TakesAlone (cursor (skipRounds rounds pending)) (cursor (skipRounds rounds pending)) := by
  induction rounds generalizing pending with
  | zero => exact takes_throw _ _
  | succ rounds ih =>
    rw [skipRounds, cursor_bind]
    refine (takes_skipRound pending).andThen (fun left => ?_)
    cases left with
    | none => exact takes_pure _
    | some left => exact ih left

theorem skipRounds_enough {rounds rounds' : Nat} {pending : Pending} {input : Bytes}
    (enough : 2 * input.length + pending.length < rounds)
    (enough' : 2 * input.length + pending.length < rounds') :
    skipRounds rounds pending input = skipRounds rounds' pending input := by
  induction rounds generalizing rounds' pending input with
  | zero => cases enough
  | succ rounds ih =>
    obtain ⟨rounds', rfl⟩ : ∃ n, rounds' = n + 1 := ⟨rounds' - 1, by omega⟩
    rw [skipRounds, skipRounds]
    refine ran_bind_congr fun left rest found => ?_
    cases left with
    | none => rfl
    | some left =>
      have fewer := fewer_of_skipRound found
      exact ih (by omega) (by omega)

theorem takes_continued (rounds : Nat) (left : Option Pending) :
    TakesAlone (cursor (continued rounds left)) (cursor (continued rounds left)) := by
  cases left with
  | none => exact takes_pure _
  | some left => exact takes_skipRounds rounds left

theorem takes_skipItem : TakesAlone (cursor skipItem) (cursor skipItem) := by
  refine takes_rounds (2 * · + 1) (fun rounds => takes_skipRounds rounds []) ?_ ?_
  all_goals
    intro count decoder enough
    have same := @skipRounds_enough _ _ [] _ enough (Nat.lt_succ_self (2 * decoder.rest.length))
    rw [outcome_cursor, outcome_cursor, outcome_congr same]

theorem moves_skipItem : Moves (cursor skipItem) := by
  intro decoder a after found
  have first : Moves (cursor (skipHead [] >>= continued (2 * decoder.rest.length))) := by
    rw [cursor_bind]
    exact (moves_skipHead []).bind (takes_continued _)
  refine first decoder a after ?_
  rw [← found, outcome_cursor, outcome_cursor]
  simp only [skipItem, outcome_bind, outcome_get, ok_bind, skipRounds_succ, skipRound]

theorem takes_isExhausted (s : OpenStructure) :
    Takes (fun _ => s.remaining = none) (cursor (isExhausted s)) (cursor (isExhausted s)) := by
  unfold isExhausted
  split
  · exact takes_pure _
  · cases s.remaining with
    | some count => exact takes_pure _
    | none =>
      dsimp only
      rw [cursor_bind]
      exact takes_peek.bind (fun _ => takes_pure _) fun _ _ => .inl fun _ _ _ _ => rfl

def keyContent (header : Header) : ReadM Key :=
  match header.major with
  | .unsigned | .negative =>
    match header.integer with
    | .ok n => return .label n
    | .error e => throw e
  | .text => do
    match (← readPayload header).text with
    | .ok name => return .name name.text
    | .error e => throw e
  | _ => throw (header.unexpected "label or name")

theorem readKey_eq : readKey = readHeader >>= keyContent := rfl

theorem takes_keyContent (header : Header) :
    TakesAlone (cursor (keyContent header)) (cursor (keyContent header)) := by
  unfold keyContent
  split
  case h_3 =>
    rw [cursor_bind]
    refine (takes_readPayload header).andThen (fun payload => ?_)
    cases payload.text with
    | ok name => exact takes_pure _
    | error e => exact takes_throw _ _
  case h_4 => exact takes_throw _ _
  all_goals
    cases header.integer with
    | ok n => exact takes_pure _
    | error e => exact takes_throw _ _

theorem takes_readKey : TakesAlone (cursor readKey) (cursor readKey) := by
  rw [readKey_eq, cursor_bind]
  exact takes_readHeader.andThen takes_keyContent

theorem moves_readKey : Moves (cursor readKey) := by
  rw [readKey_eq, cursor_bind]
  exact moves_readHeader.bind takes_keyContent

end Cursor
end TypedCbor
