import TypedCbor.Proofs.Rechunked

namespace TypedCbor

open Decoder

theorem Payload.text_eq (payload : Payload) :
    TextPayload.text <$> payload.text = TextPayload.text <$> (Payload.mk payload.bytes true).text := by
  unfold Payload.text
  cases payload.bytes.toText? <;> rfl

namespace Cursor

variable {input input' rest : Bytes}

theorem seamless_peekMajor : Seamless (cursor peekMajor) := by
  refine seamless_cursor fun input input' major rest recut found => ?_
  cases input with
  | nil => cases found
  | cons byte more =>
    obtain ⟨byte', more', rfl, same, -⟩ := recut.begins
    cases found
    exact ⟨_, by rw [outcome_peekMajor, same], recut⟩

theorem isBreak_of_recut {byte byte' : UInt8} {more more' : Bytes} (recut : Recut (byte :: more) (byte' :: more')) :
    byte = breakByte ↔ byte' = breakByte := by
  obtain ⟨_, _, same, -, plain⟩ := recut.begins
  obtain ⟨_, _, same', -, plain'⟩ := recut.symm.begins
  cases same
  cases same'
  constructor
  · rintro rfl
    exact plain (by decide)
  · rintro rfl
    exact plain' (by decide)

theorem tryBreak_recut {closed : Bool} (recut : Recut input input')
    (found : outcome tryBreak input = .ok (closed, rest)) :
    ∃ rest', outcome tryBreak input' = .ok (closed, rest') ∧ Recut rest rest' := by
  cases closed with
  | true =>
    rw [eq_of_tryBreak found] at recut
    rcases @Recut.of_opening .simple none _ _ nofun (fun _ => rfl) recut with ⟨-, rest', rfl, inner⟩ | ⟨string, -⟩
    · exact ⟨rest', outcome_tryBreak rest', inner⟩
    · exact absurd string (by decide)
  | false =>
    obtain rfl := eq_of_tryBreak_false found
    cases input with
    | nil => cases found
    | cons byte more =>
      obtain ⟨byte', more', rfl, -, -⟩ := recut.begins
      have going : byte ≠ breakByte := by
        rintro rfl
        cases found
      refine ⟨byte' :: more', ?_, recut⟩
      simp [outcome, tryBreak, mt (isBreak_of_recut recut).mpr going]

theorem seamless_tryBreak : Seamless (cursor tryBreak) :=
  seamless_cursor fun _ _ _ _ => tryBreak_recut

theorem readTags_recut {numbers : List UInt64} (recut : Recut input input')
    (found : outcome readTags input = .ok (numbers, rest)) :
    ∃ rest', outcome readTags input' = .ok (numbers, rest') ∧ Recut rest rest' := by
  obtain ⟨tags, fit, rfl, rfl, byte, more, rfl, stops⟩ := tags_of_readTags found
  obtain ⟨rest', rfl, inner⟩ := recut.of_tags fit
  obtain ⟨byte', more', rfl, same, -⟩ := inner.begins
  exact ⟨_, outcome_readTags fit (same ▸ stops) more', inner⟩

theorem seamless_readTags : Seamless (cursor readTags) :=
  seamless_cursor fun _ _ _ _ => readTags_recut

theorem seamless_isExhausted (s : OpenStructure) : Seamless (cursor (isExhausted s)) := by
  unfold isExhausted
  split
  · exact seamless_pure _
  · cases s.remaining with
    | some count => exact seamless_pure _
    | none =>
      refine seamless_cursor fun input input' ended rest recut found => ?_
      cases input with
      | nil => cases found
      | cons byte more =>
        obtain ⟨byte', more', rfl, -, -⟩ := recut.begins
        cases found
        refine ⟨byte' :: more', ?_, recut⟩
        have same : (byte' == breakByte) = (byte == breakByte) := by
          rw [Bool.eq_iff_iff, beq_iff_eq, beq_iff_eq, isBreak_of_recut recut]
        simp [same]

theorem seamless_readKey : Seamless (cursor readKey) := by
  rw [readKey_eq, cursor_bind]
  refine seamless_readHeader (fun header plain => ?_) fun major string => ?_
  · unfold keyContent
    split
    case h_3 text => exact absurd (.inr text) plain
    case h_4 => exact seamless_throw _
    all_goals
      cases header.integer with
      | ok n => exact seamless_pure _
      | error e => exact seamless_throw e
  · rcases string with rfl | rfl
    · refine seamlessBehind_of_refused fun header bytes decoder key after found => ?_
      rw [keyContent, bytes] at found
      cases found
    · refine seamlessBehind_of_payload (.inr rfl) (fun content => seamless_ofExcept
        (Key.name <$> TextPayload.text <$> (Payload.mk content true).text)) fun header text => ?_
      rw [keyContent, text]
      dsimp only
      rw [cursor_bind]
      congr
      funext payload
      rw [← payload.text_eq]
      cases payload.text <;> rfl

theorem outcome_skipContent_plain {header : Header} (plain : ¬ header.major.IsString) (pending : Pending) :
    ∃ result : Except Error (Option Pending),
      ∀ input, outcome (skipContent pending header) input = (·, input) <$> result := by
  unfold skipContent
  generalize header.major = major at plain
  generalize header.argument = argument
  cases major with
  | bytes => exact absurd (.inl rfl) plain
  | text => exact absurd (.inr rfl) plain
  | map =>
    cases argument with
    | value count =>
      dsimp only
      split
      · exact ⟨.ok _, fun _ => rfl⟩
      · exact ⟨.error _, fun _ => rfl⟩
    | indefinite => exact ⟨.ok _, fun _ => rfl⟩
  | simple =>
    cases argument with
    | value => exact ⟨.ok _, fun _ => rfl⟩
    | indefinite => exact ⟨.error _, fun _ => rfl⟩
  | unsigned | negative | array | tag => cases argument <;> exact ⟨.ok _, fun _ => rfl⟩

theorem Chunk.measured {major : Major} (string : major.IsString) (chunk : Chunk) :
    chunk.head.Measures major chunk.content := by
  rcases string with rfl | rfl <;> rfl

theorem skips_string {major : Major} (string : major.IsString) {form : StringForm}
    (fits : ∀ chunk ∈ form.chunks, chunk.head.Fits) :
    ∃ rounds, ∀ pending rest more,
      outcome (skipContent pending (openingHeader major form.head?) >>= continued (rounds + more))
          (form.body major ++ rest) =
        outcome (continued more (settled pending)) rest := by
  cases form with
  | whole chunk =>
    refine ⟨0, fun pending rest more => ?_⟩
    have passed := outcome_skipContent_leaf (fits chunk (List.mem_singleton_self chunk))
      (Chunk.measured string chunk) pending rest
    rw [outcome_bind, Nat.zero_add]
    change (outcome (skipContent pending (openingHeader major (some chunk.head))) (chunk.content ++ rest) >>= _) = _
    rw [passed]
    rfl
  | chunked chunks =>
    have sound : ∀ part ∈ chunks.map (Chunk.outline major), part.Sound :=
      List.forall_mem_map.mpr fun chunk member => chunk.sound_outline string (fits chunk member)
    have each : ∀ part ∈ chunks.map (Chunk.outline major),
        ∃ rounds < 2 * part.bytes.length, Skips rounds part.bytes := by
      refine List.forall_mem_map.mpr fun chunk member => ?_
      have some := (chunk.sound_outline string (fits chunk member)).length_bytes_pos
      exact ⟨0, by omega, Outline.skips_leaf (List.forall_mem_nil _) (fits chunk member) (Chunk.measured string chunk)⟩
    obtain ⟨rounds, -, passes⟩ := skips_delimited sound each
    refine ⟨rounds, fun pending rest more => ?_⟩
    have opened : outcome (skipContent pending (openingHeader major none))
          (StringForm.body major (.chunked chunks) ++ rest) =
        .ok (some (none :: pending), StringForm.body major (.chunked chunks) ++ rest) := by
      have known := openHeader_major major
      rw [skipContent, known]
      rcases string with rfl | rfl <;> rfl
    change outcome (skipContent pending (openingHeader major none) >>= _) _ = _
    rw [outcome_bind, opened, ok_bind, StringForm.body, List.append_assoc, ← partsBytes_chunks]
    exact passes pending rest more

theorem continued_mono {rounds rounds' : Nat} (enough : rounds ≤ rounds') {left : Option Pending}
    {input : Bytes} {result : Unit × Bytes} (found : outcome (continued rounds left) input = .ok result) :
    outcome (continued rounds' left) input = .ok result := by
  induction rounds generalizing rounds' left input with
  | zero =>
    cases left with
    | none => exact found
    | some pending => cases found
  | succ rounds ih =>
    obtain ⟨rounds', rfl⟩ : ∃ n, rounds' = n + 1 := ⟨rounds' - 1, by omega⟩
    cases left with
    | none => exact found
    | some pending =>
      rw [continued, skipRounds_succ, outcome_bind] at found ⊢
      obtain ⟨p, round, goes⟩ := bind_eq_ok.mp found
      rw [round, ok_bind]
      exact ih (by omega) goes

-- A skip that comes to its end on one side does on the other, if in another number of rounds.
def SkipsOn (rounds : Nat) (left : Option Pending) : Prop :=
  ∀ input input' rest, Recut input input' → outcome (continued rounds left) input = .ok ((), rest) →
    ∃ rounds' rest', outcome (continued rounds' left) input' = .ok ((), rest') ∧ Recut rest rest'

theorem outcome_skipHead_bind {numbers : List UInt64} {between : Bytes} {header : Header}
    (tagged : outcome readTags input = .ok (numbers, between))
    (headed : outcome readHeader between = .ok (header, rest)) (pending : Pending)
    (next : Option Pending → ReadM Unit) :
    outcome (skipHead pending >>= next) input = outcome (skipContent pending header >>= next) rest := by
  simp only [skipHead_eq, outcome_bind, outcome_discard, tagged, ok_map, ok_bind, headed]

theorem skipHead_recut {rounds : Nat} (goesOn : ∀ left, SkipsOn rounds left) (pending : Pending)
    (recut : Recut input input')
    (found : outcome (skipHead pending >>= continued rounds) input = .ok ((), rest)) :
    ∃ rounds' rest', outcome (skipHead pending >>= continued rounds') input' = .ok ((), rest') ∧
      Recut rest rest' := by
  obtain ⟨⟨left, after⟩, head, goes⟩ := bind_eq_ok.mp (outcome_bind .. ▸ found)
  rw [skipHead_eq] at head
  obtain ⟨⟨⟨⟩, between⟩, discarded, head⟩ := bind_eq_ok.mp (outcome_bind .. ▸ head)
  obtain ⟨⟨numbers, _⟩, tagged, same⟩ := map_eq_ok.mp (outcome_discard .. ▸ discarded)
  cases same
  obtain ⟨⟨header, inside⟩, headed, content⟩ := bind_eq_ok.mp (outcome_bind .. ▸ head)
  obtain ⟨between', tagged', inner⟩ := readTags_recut recut tagged
  obtain ⟨head?, fits, opens, same, spelled⟩ := opening_of_readHeader headed
  generalize known : header.major = major at same spelled opens
  subst same
  dsimp only at spelled
  rw [spelled] at inner
  rcases inner.of_opening fits opens with
    ⟨other, inside', rfl, behind⟩ | ⟨string, form, other, first, first', agrees, behind, rfl, rfl, rfl⟩
  · have headed' := outcome_readHeader fits opens inside'
    have inert : ¬ (openingHeader major head?).major.IsString := by rwa [known]
    obtain ⟨result, passes⟩ := outcome_skipContent_plain inert pending
    rw [passes] at content
    obtain ⟨_, told, same⟩ := map_eq_ok.mp content
    cases same
    obtain ⟨rounds', rest', goes', recut'⟩ := goesOn left inside inside' rest behind goes
    refine ⟨rounds', rest', ?_, recut'⟩
    rw [outcome_skipHead_bind tagged' headed', outcome_bind, passes, told]
    exact goes'
  · have headed' := outcome_readHeader (StringForm.fits_head agrees.fits') string.opens (other.body major ++ first')
    obtain ⟨count, skips⟩ := skips_string string agrees.fits
    obtain ⟨count', skips'⟩ := skips_string string agrees.fits'
    have more : outcome (skipContent pending (openingHeader major form.head?) >>= continued (count + rounds))
        (form.body major ++ first) = .ok ((), rest) := by
      rw [outcome_bind, content, ok_bind]
      exact continued_mono (Nat.le_add_left _ _) goes
    rw [skips] at more
    obtain ⟨rounds', rest', goes', recut'⟩ := goesOn _ first first' rest behind more
    refine ⟨count' + rounds', rest', ?_, recut'⟩
    rw [outcome_skipHead_bind tagged' headed', skips']
    exact goes'

theorem skipRound_recut {rounds : Nat} (goesOn : ∀ left, SkipsOn rounds left) (pending : Pending)
    (recut : Recut input input')
    (found : outcome (skipRound pending >>= continued rounds) input = .ok ((), rest)) :
    ∃ rounds' rest', outcome (skipRound pending >>= continued rounds') input' = .ok ((), rest') ∧
      Recut rest rest' := by
  match pending with
  | some 0 :: outer => exact goesOn (settled outer) input input' rest recut found
  | some (count + 1) :: outer => exact skipHead_recut goesOn (some count :: outer) recut found
  | [] => exact skipHead_recut goesOn [] recut found
  | none :: outer =>
    have law (next : Option Pending → ReadM Unit) (input : Bytes) :
        outcome (skipRound (none :: outer) >>= next) input = outcome tryBreak input >>= fun p =>
          if p.1 then outcome (next (settled outer)) p.2 else outcome (skipHead (none :: outer) >>= next) p.2 := by
      rw [skipRound, bind_assoc, outcome_bind]
      congr 1
      funext p
      cases p.1 <;> rfl
    rw [law] at found
    obtain ⟨⟨closed, between⟩, looked, found⟩ := bind_eq_ok.mp found
    obtain ⟨between', looked', inner⟩ := tryBreak_recut recut looked
    cases closed with
    | true =>
      obtain ⟨rounds', rest', goes, recut'⟩ := goesOn (settled outer) between between' rest inner found
      exact ⟨rounds', rest', by rw [law, looked']; exact goes, recut'⟩
    | false =>
      obtain ⟨rounds', rest', goes, recut'⟩ := skipHead_recut goesOn (none :: outer) inner found
      exact ⟨rounds', rest', by rw [law, looked']; exact goes, recut'⟩

theorem skipsOn (rounds : Nat) (left : Option Pending) : SkipsOn rounds left := by
  induction rounds generalizing left with
  | zero =>
    intro input input' rest recut found
    cases left with
    | none =>
      cases found
      exact ⟨0, input', rfl, recut⟩
    | some pending => cases found
  | succ rounds ih =>
    intro input input' rest recut found
    cases left with
    | none =>
      cases found
      exact ⟨0, input', rfl, recut⟩
    | some pending =>
      rw [continued, skipRounds_succ] at found
      obtain ⟨rounds', rest', goes, recut'⟩ := skipRound_recut ih pending recut found
      exact ⟨rounds' + 1, rest', by rw [continued, skipRounds_succ, goes], recut'⟩

theorem seamless_skipItem : Seamless (cursor skipItem) := by
  refine seamless_cursor fun input input' _ rest recut found => ?_
  simp only [skipItem, outcome_bind, outcome_get, ok_bind] at found ⊢
  obtain ⟨rounds, rest', goes, recut'⟩ := skipsOn (2 * input.length + 1) (some []) input input' rest recut found
  have spare := @skipRounds_enough (2 * input'.length + 1) (max rounds (2 * input'.length + 1)) [] input'
    (Nat.lt_succ_self _) (by rw [List.length_nil]; omega)
  have goes := continued_mono (Nat.le_max_left rounds (2 * input'.length + 1)) goes
  exact ⟨rest', (outcome_congr spare).trans goes, recut'⟩

end Cursor
end TypedCbor
