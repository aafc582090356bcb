import TypedCbor.Proofs.Taking.Structures

namespace TypedCbor

open Decoder

section
variable {σ α : Type}

-- A loop ends after so many rounds. A round answers, fails or leaves a state to the next one.
inductive Ends (round : σ → Except Error (σ ⊕ α)) : Nat → σ → Except Error α → Prop where
  | answers {state : σ} {a : α} (ran : round state = .ok (.inr a)) : Ends round 1 state (.ok a)
  | fails {state : σ} {e : Error} (ran : round state = .error e) : Ends round 1 state (.error e)
  | goesOn {count : Nat} {state next : σ} {result : Except Error α} (ran : round state = .ok (.inl next))
      (others : Ends round count next result) : Ends round (count + 1) state result

inductive Comes (round : σ → Except Error (σ ⊕ α)) (start : σ) : σ → Prop where
  | here : Comes round start start
  | further {state next : σ} (comes : Comes round start state) (ran : round state = .ok (.inl next)) :
      Comes round start next

variable {round : σ → Except Error (σ ⊕ α)}

theorem Ends.unique {count count' : Nat} {state : σ} {result result' : Except Error α}
    (ends : Ends round count state result) (again : Ends round count' state result') :
    count' = count ∧ result' = result := by
  induction ends generalizing count' with
  | answers ran =>
    cases again with
    | answers ran' =>
      cases ran.symm.trans ran'
      exact ⟨rfl, rfl⟩
    | fails ran' | goesOn ran' => cases ran.symm.trans ran'
  | fails ran =>
    cases again with
    | fails ran' =>
      cases ran.symm.trans ran'
      exact ⟨rfl, rfl⟩
    | answers ran' | goesOn ran' => cases ran.symm.trans ran'
  | goesOn ran _ ih =>
    cases again with
    | answers ran' | fails ran' => cases ran.symm.trans ran'
    | goesOn ran' others' =>
      cases ran.symm.trans ran'
      obtain ⟨rfl, rfl⟩ := ih others'
      exact ⟨rfl, rfl⟩

section
variable {measure : σ → Nat} (falls : ∀ state next, round state = .ok (.inl next) → measure next < measure state)
include falls

theorem Ends.count_le {count : Nat} {state : σ} {result : Except Error α} (ends : Ends round count state result) :
    count ≤ measure state + 1 := by
  induction ends with
  | answers | fails => exact Nat.le_add_left 1 _
  | goesOn ran _ ih =>
    have fewer := falls _ _ ran
    omega

theorem exists_ends {loop : Nat → σ → Except Error α}
    (unrolls : ∀ rounds state, loop (rounds + 1) state = round state >>= Sum.elim (loop rounds) .ok)
    {rounds : Nat} {state : σ} (enough : measure state < rounds) :
    ∃ count, Ends round count state (loop rounds state) := by
  induction rounds generalizing state with
  | zero => cases enough
  | succ rounds ih =>
    rw [unrolls]
    cases ran : round state with
    | error e => exact ⟨1, .fails ran⟩
    | ok p =>
      cases p with
      | inr a => exact ⟨1, .answers ran⟩
      | inl next =>
        have fewer := falls state next ran
        obtain ⟨count, ends⟩ := @ih next (by omega)
        exact ⟨count + 1, .goesOn ran ends⟩

end

theorem Comes.keeps {P : σ → Prop} (step : ∀ state next, P state → round state = .ok (.inl next) → P next)
    {start state : σ} (holds : P start) (comes : Comes round start state) : P state := by
  induction comes with
  | here => exact holds
  | further _ ran ih => exact step _ _ ih ran

end

namespace Cursor

-- The stack of open structures as it is kept: each count is a word.
abbrev Words := List (Option UInt64)

namespace Words

def counts (words : Words) : Pending := words.map (Option.map UInt64.toNat)

def left (words : Words) : Option Words := if words.isEmpty then none else some words

def skipHead (words : Words) : ReadM (Option Words) := do
  discard readTags
  let header ← readHeader
  match header.major, header.argument with
  | .bytes, .value length | .text, .value length =>
    discard (take length.toNat)
    return left words
  | .bytes, .indefinite | .text, .indefinite | .array, .indefinite | .map, .indefinite => return left (none :: words)
  | .array, .value count => return left (some count :: words)
  | .map, .value count =>
    if 2 * count.toNat < UInt64.size then return left (some (2 * count) :: words)
    else throw (.malformedHeader header.initial)
  | .simple, .indefinite => throw (.malformedHeader header.initial)
  | _, _ => return left words

-- One round of the loop. What is taken off a word would wrap around below zero.
def skipRound : Words → ReadM (Option Words)
  | some count :: outer => if count = 0 then return left outer else skipHead (some (count - 1) :: outer)
  | none :: outer => do if ← tryBreak then return left outer else skipHead (none :: outer)
  | [] => skipHead []

def skipStep (state : Words × Bytes) : Except Error ((Words × Bytes) ⊕ Bytes) :=
  (fun p => match p.1 with
    | some words => .inl (words, p.2)
    | none => .inr p.2) <$> outcome (skipRound state.1) state.2

theorem length_counts (words : Words) : words.counts.length = words.length := List.length_map ..

theorem counts_left (words : Words) : (left words).map counts = settled words.counts := by
  cases words <;> rfl

theorem counts_pure (words : Words) :
    Option.map counts <$> (pure (left words) : ReadM _) = pure (settled words.counts) := by
  rw [map_pure, counts_left]

theorem counts_skipHead (words : Words) : (Option.map counts) <$> skipHead words = Cursor.skipHead words.counts := by
  rw [skipHead, Cursor.skipHead, map_bind]
  congr
  funext _
  rw [map_bind]
  congr
  funext header
  generalize header.major = major
  generalize header.argument = argument
  cases major with
  | bytes | text =>
    cases argument with
    | value length => simp only [map_bind, map_pure, counts_left]
    | indefinite => exact counts_pure _
  | map =>
    cases argument with
    | value count =>
      dsimp only
      split
      · rename_i small
        have doubled : (2 * count).toNat = 2 * count.toNat := by
          rw [UInt64.toNat_mul]
          exact Nat.mod_eq_of_lt small
        rw [map_pure, counts_left, counts, List.map_cons, Option.map_some, doubled]
        rfl
      · rfl
    | indefinite => exact counts_pure _
  | simple =>
    cases argument with
    | value => exact counts_pure _
    | indefinite => rfl
  | unsigned | negative | array | tag => cases argument <;> exact counts_pure _

-- No count is taken down below zero: a round on words is the round on the numbers that they hold.
theorem counts_skipRound (words : Words) :
    (Option.map counts) <$> skipRound words = Cursor.skipRound words.counts := by
  match words with
  | [] => exact counts_skipHead []
  | some count :: outer =>
    rw [skipRound]
    split
    · rename_i none
      rw [none]
      exact counts_pure outer
    · rename_i some
      have positive : count.toNat ≠ 0 := fun zero => some (UInt64.toNat_inj.mp zero)
      have least : (1 : UInt64) ≤ count := UInt64.le_iff_toNat_le.mpr (Nat.one_le_iff_ne_zero.mpr positive)
      have fewer : count.toNat = (count - 1).toNat + 1 := by
        rw [UInt64.toNat_sub_of_le _ _ least]
        exact (Nat.sub_add_cancel (Nat.one_le_iff_ne_zero.mpr positive)).symm
      rw [counts_skipHead, counts, counts, List.map_cons, List.map_cons, Option.map_some, Option.map_some, fewer]
      rfl
  | none :: outer =>
    change _ <$> (tryBreak >>= _) = tryBreak >>= _
    rw [map_bind]
    congr
    funext closed
    cases closed with
    | true => exact counts_pure outer
    | false => exact counts_skipHead _

theorem outcome_skipRound (words : Words) (input : Bytes) :
    outcome (Cursor.skipRound words.counts) input =
      (fun p => (p.1.map counts, p.2)) <$> outcome (skipRound words) input := by
  rw [← counts_skipRound, outcome_map]

theorem skipRound_of_skipStep {words words' : Words} {input rest : Bytes}
    (ran : skipStep (words, input) = .ok (.inl (words', rest))) :
    outcome (Cursor.skipRound words.counts) input = .ok (some words'.counts, rest) := by
  obtain ⟨⟨next, after⟩, found, same⟩ := map_eq_ok.mp ran
  rw [outcome_skipRound, found]
  cases next with
  | none => cases same
  | some words =>
    cases same
    rfl

theorem falls_of_skipStep {words words' : Words} {input rest : Bytes}
    (ran : skipStep (words, input) = .ok (.inl (words', rest))) :
    2 * rest.length + words'.length < 2 * input.length + words.length := by
  have fewer := fewer_of_skipRound (skipRound_of_skipStep ran)
  rwa [length_counts, length_counts] at fewer

theorem shallow_of_skipStep {words words' : Words} {input rest : Bytes}
    (ran : skipStep (words, input) = .ok (.inl (words', rest))) :
    words'.length + rest.length ≤ words.length + input.length := by
  have round := closes_or_takes_of_skipRound (skipRound_of_skipStep ran)
  rw [length_counts, length_counts] at round
  rcases round with ⟨kept, closed⟩ | ⟨took, opened⟩
  · omega
  · omega

theorem ends_skipItem (input : Bytes) :
    ∃ count, Ends skipStep count ([], input) (Prod.snd <$> outcome skipItem input) := by
  let loop (rounds : Nat) (state : Words × Bytes) := Prod.snd <$> outcome (skipRounds rounds state.1.counts) state.2
  have unrolls : ∀ rounds state, loop (rounds + 1) state = skipStep state >>= Sum.elim (loop rounds) .ok := by
    rintro rounds ⟨words, input⟩
    dsimp only [loop]
    rw [skipRounds_succ, outcome_bind, outcome_skipRound, skipStep]
    cases outcome (skipRound words) input with
    | error e => rfl
    | ok p =>
      obtain ⟨_ | words', rest⟩ := p
      · rfl
      · rfl
  exact exists_ends (fun _ _ ran => falls_of_skipStep ran) unrolls (Nat.lt_succ_self (2 * input.length))

end Words
end Cursor

namespace Decoder

variable {config : Config}

def resolveKey (config : Config) (s : OpenStructure) (tags : List UInt64) (key : Key) :
    DecodeM (Option (Option Nat × OpenStructure)) :=
  match key.resolve s.shape with
  | some index =>
    let element := s.shape.element index
    if acceptsKeyTags config element tags then do
      modify fun decoder => { decoder with field := some element }
      return some (some index, s.advanced)
    else throw (.tagMismatch element.keyTags tags)
  | none =>
    if config.ignoreUnknownKeys then do
      cursor Cursor.skipItem
      return none
    else throw (.unknownKey key)

def lookRound (config : Config) (s : OpenStructure) : DecodeM (Option (Option Nat × OpenStructure)) :=
  if s.shape.hasKeys then do
    if ← cursor (isExhausted s) then
      clearField
      return some (none, s)
    else
      let tags ← cursor Cursor.readTags
      let key ← cursor readKey
      resolveKey config s tags key
  else some <$> nextByPosition s

def lookStep (config : Config) (state : OpenStructure × Decoder) :
    Except Error ((OpenStructure × Decoder) ⊕ ((Option Nat × OpenStructure) × Decoder)) :=
  (fun p => match p.1 with
    | some found => .inr (found, p.2)
    | none => .inl (state.1.advanced, p.2)) <$> outcome (lookRound config state.1) state.2

theorem nextByKey_eq {s : OpenStructure} (keyed : s.shape.hasKeys = true) (rounds : Nat) :
    nextByKey config (rounds + 1) s = lookRound config s >>= fun found =>
      match found with
      | some found => pure found
      | none => nextByKey config rounds s.advanced := by
  rw [nextByKey_succ, lookRound, if_pos keyed, bind_assoc]
  congr
  funext ended
  cases ended with
  | true => rfl
  | false =>
    simp only [Bool.false_eq_true, if_false, bind_assoc]
    congr
    funext tags
    congr
    funext key
    rw [behindKey, resolveKey]
    cases key.resolve s.shape with
    | some index =>
      dsimp only
      split
      · rfl
      · rfl
    | none =>
      dsimp only
      split
      · rw [bind_assoc]
        rfl
      · rfl

theorem skipped_of_resolveKey {s : OpenStructure} {tags : List UInt64} {key : Key} {decoder after : Decoder}
    (resolved : outcome (resolveKey config s tags key) decoder = .ok (none, after)) :
    after.rest.length < decoder.rest.length := by
  rw [resolveKey] at resolved
  cases known : key.resolve s.shape with
  | some index =>
    rw [known] at resolved
    dsimp only at resolved
    split at resolved
    · cases resolved
    · cases resolved
  | none =>
    rw [known] at resolved
    dsimp only at resolved
    split at resolved
    · obtain ⟨⟨_, skipped⟩, skip, same⟩ := bind_eq_ok.mp (outcome_bind .. ▸ resolved)
      cases same
      exact Cursor.moves_skipItem _ _ _ skip
    · cases resolved

theorem passes_of_lookStep {s s' : OpenStructure} {decoder after : Decoder}
    (ran : lookStep config (s, decoder) = .ok (.inl (s', after))) :
    s' = s.advanced ∧ s.shape.hasKeys = true ∧ s.remaining ≠ some 0 ∧ after.rest.length + 2 ≤ decoder.rest.length := by
  obtain ⟨⟨found, _⟩, looked, same⟩ := map_eq_ok.mp ran
  cases found with
  | some found => cases same
  | none =>
    cases same
    by_cases keyed : s.shape.hasKeys = true
    · rw [lookRound, if_pos keyed] at looked
      obtain ⟨⟨ended, _⟩, peeked, looked⟩ := bind_eq_ok.mp (outcome_bind .. ▸ looked)
      obtain ⟨_, kept, rfl⟩ := rest_of_cursor peeked
      obtain ⟨rfl, -, more⟩ := eq_of_isExhausted kept
      cases ended with
      | true => cases looked
      | false =>
        obtain ⟨⟨tags, tagged⟩, readTags, looked⟩ := bind_eq_ok.mp (outcome_bind .. ▸ looked)
        obtain ⟨⟨key, named⟩, readKey, looked⟩ := bind_eq_ok.mp (outcome_bind .. ▸ looked)
        have first : tagged.rest.length ≤ decoder.rest.length := Cursor.takes_readTags.length_le readTags
        have second : named.rest.length < tagged.rest.length := Cursor.moves_readKey _ _ _ readKey
        have third := skipped_of_resolveKey looked
        refine ⟨rfl, keyed, more rfl (isAtValue_of_keyed keyed _ _), ?_⟩
        dsimp only at third ⊢
        omega
    · rw [lookRound, if_neg keyed, outcome_map] at looked
      obtain ⟨_, -, same⟩ := map_eq_ok.mp looked
      cases same

theorem falls_of_lookStep {state next : OpenStructure × Decoder} (ran : lookStep config state = .ok (.inl next)) :
    next.2.rest.length / 2 < state.2.rest.length / 2 := by
  obtain ⟨-, -, -, shorter⟩ := passes_of_lookStep ran
  omega

theorem ends_nextElement (s : OpenStructure) (decoder : Decoder) :
    ∃ count, Ends (lookStep config) count (s, decoder) (outcome (nextElement config s) decoder) := by
  let loop (rounds : Nat) (state : OpenStructure × Decoder) :=
    outcome (if state.1.shape.hasKeys then nextByKey config rounds state.1 else nextByPosition state.1) state.2
  have unrolls : ∀ rounds state,
      loop (rounds + 1) state = lookStep config state >>= Sum.elim (loop rounds) .ok := by
    rintro rounds ⟨s, decoder⟩
    dsimp only [loop]
    by_cases keyed : s.shape.hasKeys = true
    · rw [if_pos keyed, nextByKey_eq keyed, outcome_bind, lookStep]
      cases outcome (lookRound config s) decoder with
      | error e => rfl
      | ok p =>
        obtain ⟨_ | found, after⟩ := p
        · exact (congrArg (outcome · after) (if_pos keyed)).symm
        · rfl
    · rw [if_neg keyed, lookStep, lookRound, if_neg keyed, outcome_map]
      cases outcome (nextByPosition s) decoder <;> rfl
  have enough : decoder.rest.length / 2 < decoder.rest.length + 1 := by omega
  have same : outcome (nextElement config s) decoder = loop (decoder.rest.length + 1) (s, decoder) := by
    dsimp only [loop]
    unfold nextElement
    split
    · rfl
    · rfl
  rw [same]
  exact @exists_ends _ _ _ (fun state => state.2.rest.length / 2) (fun _ _ ran => falls_of_lookStep ran) loop unrolls
    _ (s, decoder) enough

end Decoder

-- The loops that pass items over: the one over the parts of an item, and the one over the entries of a record whose
-- keys are unknown.
structure Config.SkipsEnd (config : Config) : Prop where
  -- From any byte on the loop over an item ends, and it does what the reader does.
  ends : ∀ input, ∃ count, Ends Cursor.Words.skipStep count ([], input) (Prod.snd <$> outcome Cursor.skipItem input)
  rounds : ∀ input count result, Ends Cursor.Words.skipStep count ([], input) result →
    count ≤ 2 * input.length + 1 ∧ result = Prod.snd <$> outcome Cursor.skipItem input
  -- Wherever it comes to, no more structures are open than bytes have been taken.
  shallow : ∀ input words rest, Comes Cursor.Words.skipStep ([], input) (words, rest) →
    words.length + rest.length ≤ input.length
  -- Its words are the numbers they stand for, which are never taken down below zero.
  counts : ∀ words, (Option.map Cursor.Words.counts) <$> Cursor.Words.skipRound words =
    Cursor.skipRound words.counts
  takes : ∀ input rest, outcome Cursor.skipItem input = .ok ((), rest) → rest.length < input.length
  -- The loop over the entries ends for every structure, and each that is passed over takes two bytes or more.
  looks : ∀ s decoder, ∃ count, Ends (lookStep config) count (s, decoder) (outcome (nextElement config s) decoder)
  entries : ∀ s decoder s' after, lookStep config (s, decoder) = .ok (.inl (s', after)) →
    s' = s.advanced ∧ s.shape.hasKeys = true ∧ s.remaining ≠ some 0 ∧ after.rest.length + 2 ≤ decoder.rest.length
  passes : ∀ s decoder count result, Ends (lookStep config) count (s, decoder) result →
    2 * count ≤ decoder.rest.length + 2 ∧ result = outcome (nextElement config s) decoder

-- Neither the counts nor the bytes go down with every round of a skip: a count may be of any size, and to close a
-- structure takes no byte. What does is twice the bytes that are left with the structures that are open.
theorem Config.skipsEnd (config : Config) : config.SkipsEnd := by
  have ends : ∀ input, ∃ count,
      Ends Cursor.Words.skipStep count ([], input) (Prod.snd <$> outcome Cursor.skipItem input) :=
    Cursor.Words.ends_skipItem
  refine ⟨ends, fun input count result loop => ⟨?_, ?_⟩, fun input words rest comes => ?_,
    Cursor.Words.counts_skipRound, fun input rest skipped => ?_, ends_nextElement,
    fun s decoder s' after ran => passes_of_lookStep ran, fun s decoder count result loop => ⟨?_, ?_⟩⟩
  · exact @Ends.count_le _ _ _ (fun state => 2 * state.2.length + state.1.length)
      (fun state next ran => Cursor.Words.falls_of_skipStep ran) _ _ _ loop
  · obtain ⟨_, ended⟩ := ends input
    exact (ended.unique loop).2
  · have opened := @Comes.keeps _ _ _ (fun state => state.1.length + state.2.length ≤ input.length)
      (fun state next held ran => (Cursor.Words.shallow_of_skipStep ran).trans held) _ _ (by simp) comes
    exact opened
  · have moves := Cursor.moves_skipItem ⟨input, none, []⟩ () ⟨rest, none, []⟩
    exact moves (by rw [outcome_cursor, skipped]; rfl)
  · have fewer := @Ends.count_le _ _ _ (fun state => state.2.rest.length / 2)
      (fun _ _ ran => falls_of_lookStep ran) _ _ _ loop
    dsimp only at fewer
    omega
  · obtain ⟨_, ended⟩ := ends_nextElement s decoder
    exact (ended.unique loop).2

def Bytes.boastful : Bytes :=
  [0x9b, 0xff, 0xff, 0xff, 0xff, 0xff, 0xff, 0xff, 0xff, 0x9b, 0xff, 0xff, 0xff, 0xff, 0xff, 0xff, 0xff, 0xff]

theorem Config.skipsEnd_boastful :
    ∃ count ≤ 37, Ends Cursor.Words.skipStep count ([], Bytes.boastful) (.error .truncatedInput) := by
  have skips := Config.skipsEnd {}
  have short : outcome Cursor.skipItem Bytes.boastful = .error .truncatedInput := rfl
  obtain ⟨count, ends⟩ := skips.ends Bytes.boastful
  rw [short] at ends
  exact ⟨count, (skips.rounds _ _ _ ends).1, ends⟩

end TypedCbor
