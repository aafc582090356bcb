import TypedCbor.Proofs.Outcome

namespace TypedCbor

def Decoder.before (decoder : Decoder) (rest : Bytes) : Decoder := { decoder with rest }

@[simp] theorem Decoder.rest_before (decoder : Decoder) (rest : Bytes) :
    (decoder.before rest).rest = rest := rfl

@[simp] theorem Decoder.field_before (decoder : Decoder) (rest : Bytes) :
    (decoder.before rest).field = decoder.field := rfl

@[simp] theorem Decoder.pendingTags_before (decoder : Decoder) (rest : Bytes) :
    (decoder.before rest).pendingTags = decoder.pendingTags := rfl

theorem Decoder.before_rest (decoder : Decoder) : decoder.before decoder.rest = decoder := rfl

-- How the twin of a reader does on what the reader took: alike with anything behind it, as long as the
-- byte that was peeked at is there; on a part of it, it finds that the input ends too soon.
structure Taken (peeks : Prop) (twin : DecodeM α) (decoder : Decoder) (taken : Bytes) (a : α)
    (after : Decoder) : Prop where
  whole : ∀ more, (peeks → more.head? = after.rest.head?) →
    outcome twin (decoder.before (taken ++ more)) = .ok (a, after.before more)
  cut : ∀ part lost, taken = part ++ lost →
    outcome twin (decoder.before part) = .error .truncatedInput ∨
      (lost = [] ∧ outcome twin (decoder.before part) = .ok (a, after.before []))

def TakesAt (peeks : α → Prop) (read twin : DecodeM α) (decoder : Decoder) : Prop :=
  ∀ a after, outcome read decoder = .ok (a, after) →
    ∃ taken, decoder.rest = taken ++ after.rest ∧ Taken (peeks a) twin decoder taken a after

def Takes (peeks : α → Prop) (read twin : DecodeM α) : Prop :=
  ∀ decoder, TakesAt peeks read twin decoder

abbrev TakesAlone (read twin : DecodeM α) : Prop := Takes (fun _ => False) read twin

def Moves (read : DecodeM α) : Prop :=
  ∀ decoder a after, outcome read decoder = .ok (a, after) → after.rest.length < decoder.rest.length

def Gives (read : DecodeM α) (P : α → Prop) : Prop :=
  ∀ decoder a after, outcome read decoder = .ok (a, after) → P a

open Decoder

section
variable {α β : Type} {peeks : α → Prop} {peeks' : β → Prop} {read twin : DecodeM α}
  {next next' : α → DecodeM β} {decoder : Decoder}

theorem TakesAt.bind (first : TakesAt peeks read twin decoder)
    (second : ∀ a between, outcome read decoder = .ok (a, between) →
      TakesAt peeks' (next a) (next' a) between)
    (goes : ∀ a between b after, outcome read decoder = .ok (a, between) →
      outcome (next a) between = .ok (b, after) → peeks a →
        peeks' b ∨ after.rest.length < between.rest.length) :
    TakesAt peeks' (read >>= next) (twin >>= next') decoder := by
  intro b after found
  rw [outcome_bind] at found
  obtain ⟨⟨a, between⟩, here, there⟩ := bind_eq_ok.mp found
  obtain ⟨taken, split, one⟩ := first a between here
  obtain ⟨others, split', two⟩ := second a between here b after there
  refine ⟨taken ++ others, by rw [split, split', List.append_assoc], ?_, ?_⟩
  · intro more kept
    have looked : peeks a → (others ++ more).head? = between.rest.head? := by
      intro peeked
      rw [split']
      cases others with
      | cons byte others => rfl
      | nil =>
        rcases goes a between b after here there peeked with behind | moved
        · exact kept behind
        · rw [split'] at moved
          exact absurd moved (Nat.lt_irrefl _)
    rw [outcome_bind, List.append_assoc, one.whole _ looked]
    exact two.whole more kept
  · intro part lost splits
    -- The cut falls within what the first reader takes, or behind some of what the second one takes.
    rcases List.append_eq_append_iff.mp splits with ⟨front, rfl, rest⟩ | ⟨front, here', rfl⟩
    · cases front with
      | nil =>
        rw [List.nil_append] at rest
        rw [List.append_nil, outcome_bind]
        rcases one.cut taken [] (List.append_nil taken).symm with short | ⟨-, kept⟩
        · rw [short]
          exact .inl rfl
        · rw [kept]
          exact two.cut [] lost rest
      | cons byte front =>
        have looked : peeks a → (byte :: front).head? = between.rest.head? := by
          intro _
          rw [split', rest]
          rfl
        rw [outcome_bind, one.whole (byte :: front) looked]
        exact two.cut (byte :: front) lost rest
    · rw [outcome_bind]
      rcases one.cut part front here' with short | ⟨rfl, kept⟩
      · rw [short]
        exact .inl rfl
      · rw [kept, ok_bind]
        exact two.cut [] others rfl

theorem Takes.bind (first : Takes peeks read twin) (second : ∀ a, Takes peeks' (next a) (next' a))
    (goes : ∀ a, peeks a → Gives (next a) peeks' ∨ Moves (next a)) :
    Takes peeks' (read >>= next) (twin >>= next') := by
  intro decoder
  refine (first decoder).bind (fun a between _ => second a between) ?_
  intro a between b after _ found peeked
  exact (goes a peeked).imp (fun gives => gives between b after found)
    fun moves => moves between b after found

theorem Takes.andThen (first : TakesAlone read twin) (second : ∀ a, Takes peeks' (next a) (next' a)) :
    Takes peeks' (read >>= next) (twin >>= next') := first.bind second fun _ => False.elim

theorem Takes.weaken (takes : Takes peeks read twin) {peeks' : α → Prop} (weaker : ∀ a, peeks a → peeks' a) :
    Takes peeks' read twin := by
  intro decoder a after found
  obtain ⟨taken, split, law⟩ := takes decoder a after found
  exact ⟨taken, split, fun more kept => law.whole more fun peeked => kept (weaker a peeked), law.cut⟩

theorem takes_pure (a : α) : Takes peeks (pure a) (pure a) := by
  intro decoder a' after found
  cases found
  refine ⟨[], rfl, fun more _ => rfl, fun part lost split => .inr ?_⟩
  obtain ⟨rfl, rfl⟩ := List.append_eq_nil_iff.mp split.symm
  exact ⟨rfl, rfl⟩

theorem takes_throw (e : Error) (twin : DecodeM α) : Takes peeks (throw e) twin := by
  intro decoder a after found
  cases found

theorem takes_check {result result' : Except Error α} (passes : ∀ a, result = .ok a → result' = .ok a) :
    TakesAlone (Decoder.ofExcept result) (Decoder.ofExcept result') := by
  cases result with
  | error e => exact takes_throw e _
  | ok a =>
    rw [passes a rfl]
    exact takes_pure a

theorem takes_ofExcept (result : Except Error α) :
    TakesAlone (Decoder.ofExcept result) (Decoder.ofExcept result) := takes_check fun _ same => same

theorem TakesAt.of_eq {read' twin' : DecodeM α} {start : Decoder}
    (found : TakesAt peeks read' twin' start) (here : decoder.rest = start.rest)
    (same : outcome read decoder = outcome read' start)
    (same' : ∀ rest, outcome twin (decoder.before rest) = outcome twin' (start.before rest)) :
    TakesAt peeks read twin decoder := by
  intro a after ran
  obtain ⟨taken, split, law⟩ := found a after (same ▸ ran)
  refine ⟨taken, here.trans split, fun more kept => ?_, fun part lost splits => ?_⟩
  · rw [same']
    exact law.whole more kept
  · rw [same']
    exact law.cut part lost splits

theorem Takes.ite {c : Prop} [Decidable c] {no no' : DecodeM α} (yes : Takes peeks read twin)
    (other : Takes peeks no no') : Takes peeks (if c then read else no) (if c then twin else no') := by
  split
  · exact yes
  · exact other

theorem Takes.map (first : Takes peeks read twin) (f : α → β) {peeks' : β → Prop}
    (goes : ∀ a, peeks a → peeks' (f a)) : Takes peeks' (f <$> read) (f <$> twin) := by
  intro decoder b after found
  rw [outcome_map] at found
  obtain ⟨⟨a, between⟩, here, same⟩ := map_eq_ok.mp found
  cases same
  obtain ⟨taken, split, law⟩ := first decoder a between here
  refine ⟨taken, split, fun more kept => ?_, fun part lost splits => ?_⟩
  · rw [outcome_map, law.whole more fun peeked => kept (goes a peeked)]
    rfl
  · rw [outcome_map]
    rcases law.cut part lost splits with short | ⟨none, kept⟩
    · rw [short]
      exact .inl rfl
    · rw [kept]
      exact .inr ⟨none, rfl⟩

theorem Takes.discard (first : Takes peeks read twin) {peeks' : PUnit → Prop}
    (goes : ∀ a, peeks a → peeks' ⟨⟩) :
    Takes peeks' (Functor.discard read) (Functor.discard twin) := first.map (fun _ => PUnit.unit) goes

theorem takes_cursor {read : ReadM α}
    (law : ∀ input a rest, outcome read input = .ok (a, rest) → ∃ taken, input = taken ++ rest ∧
      (∀ more, (peeks a → more.head? = rest.head?) → outcome read (taken ++ more) = .ok (a, more)) ∧
      ∀ part lost, taken = part ++ lost →
        outcome read part = .error .truncatedInput ∨ (lost = [] ∧ outcome read part = .ok (a, []))) :
    Takes peeks (cursor read) (cursor read) := by
  intro decoder a after found
  rw [outcome_cursor] at found
  obtain ⟨⟨a', rest⟩, here, same⟩ := map_eq_ok.mp found
  cases same
  obtain ⟨taken, split, whole, cut⟩ := law _ _ _ here
  refine ⟨taken, split, fun more kept => ?_, fun part lost splits => ?_⟩
  · rw [outcome_cursor, Decoder.rest_before, whole more kept]
    rfl
  · rw [outcome_cursor, Decoder.rest_before]
    rcases cut part lost splits with short | ⟨none, kept⟩
    · rw [short]
      exact .inl rfl
    · rw [kept]
      exact .inr ⟨none, rfl⟩

theorem takes_rounds (rounds : Nat → Nat) {loop loop' : Nat → DecodeM α}
    (law : ∀ count, Takes peeks (loop count) (loop' count))
    (enough : ∀ count decoder, rounds decoder.rest.length ≤ count →
      outcome (loop count) decoder = outcome (loop (rounds decoder.rest.length)) decoder)
    (enough' : ∀ count decoder, rounds decoder.rest.length ≤ count →
      outcome (loop' count) decoder = outcome (loop' (rounds decoder.rest.length)) decoder) :
    Takes peeks (do loop (rounds (← get).rest.length)) (do loop' (rounds (← get).rest.length)) := by
  intro decoder a after found
  rw [outcome_bind, outcome_get, ok_bind] at found
  obtain ⟨taken, split, -⟩ := law _ decoder a after found
  -- Any other input may call for more rounds, and then the first reader is given as many.
  have within : ∀ input : Bytes, ∃ count, Taken (peeks a) (loop' count) decoder taken a after ∧
      outcome (do loop' (rounds (← get).rest.length)) (decoder.before input) =
        outcome (loop' count) (decoder.before input) := by
    intro input
    refine ⟨max (rounds decoder.rest.length) (rounds input.length), ?_, ?_⟩
    · obtain ⟨taken', split', law⟩ := law _ decoder a after
        ((enough _ decoder (Nat.le_max_left _ _)).trans found)
      rwa [List.append_cancel_right (split.symm.trans split')]
    · rw [outcome_bind, outcome_get, ok_bind]
      exact (enough' _ (decoder.before input) (Nat.le_max_right _ _)).symm
  refine ⟨taken, split, fun more kept => ?_, fun part lost splits => ?_⟩
  · obtain ⟨count, law, same⟩ := within (taken ++ more)
    rw [same]
    exact law.whole more kept
  · obtain ⟨count, law, same⟩ := within part
    rw [same]
    exact law.cut part lost splits

theorem Takes.length_le (takes : Takes peeks read twin) {a : α} {after : Decoder}
    (found : outcome read decoder = .ok (a, after)) : after.rest.length ≤ decoder.rest.length := by
  obtain ⟨taken, split, -⟩ := takes decoder a after found
  rw [split, List.length_append]
  exact Nat.le_add_left _ _

theorem Moves.bind {next : α → DecodeM β} {peeks' : β → Prop} {next' : α → DecodeM β}
    (moves : Moves read) (second : ∀ a, Takes peeks' (next a) (next' a)) : Moves (read >>= next) := by
  intro decoder b after found
  rw [outcome_bind] at found
  obtain ⟨⟨a, between⟩, here, there⟩ := bind_eq_ok.mp found
  exact Nat.lt_of_le_of_lt ((second a).length_le there) (moves decoder a between here)

theorem Moves.thenPure (moves : Moves read) (f : α → β) : Moves (read >>= fun a => pure (f a)) := by
  intro decoder b after found
  rw [outcome_bind] at found
  obtain ⟨⟨a, between⟩, here, there⟩ := bind_eq_ok.mp found
  cases there
  exact moves decoder a between here

theorem Moves.after {next : α → DecodeM β} (first : Takes peeks read twin)
    (moves : ∀ a, Moves (next a)) : Moves (read >>= next) := by
  intro decoder b after found
  rw [outcome_bind] at found
  obtain ⟨⟨a, between⟩, here, there⟩ := bind_eq_ok.mp found
  exact Nat.lt_of_lt_of_le (moves a between b after there) (first.length_le here)

theorem moves_throw (e : Error) : Moves (throw e : DecodeM α) := by
  intro decoder a after found
  cases found

theorem Moves.map (moves : Moves read) (f : α → β) : Moves (f <$> read) := by
  intro decoder b after found
  rw [outcome_map] at found
  obtain ⟨⟨a, between⟩, here, same⟩ := map_eq_ok.mp found
  cases same
  exact moves decoder a _ here

theorem gives_pure {P : α → Prop} {a : α} (holds : P a) : Gives (pure a) P := by
  intro decoder a' after found
  cases found
  exact holds

theorem gives_throw {P : α → Prop} (e : Error) : Gives (throw e) P := by
  intro decoder a after found
  cases found

theorem Gives.bind {next : α → DecodeM β} {P : α → Prop} {Q : β → Prop} (gives : Gives read P)
    (second : ∀ a, P a → Gives (next a) Q) : Gives (read >>= next) Q := by
  intro decoder b after found
  rw [outcome_bind] at found
  obtain ⟨⟨a, between⟩, here, there⟩ := bind_eq_ok.mp found
  exact second a (gives decoder a between here) between b after there

theorem Gives.after {next : α → DecodeM β} {P : β → Prop} (gives : ∀ a, Gives (next a) P) :
    Gives (read >>= next) P := by
  have all : Gives read fun _ => True := fun _ _ _ _ => trivial
  exact all.bind fun a _ => gives a

theorem gives_true {read : DecodeM α} : Gives read fun _ => True := fun _ _ _ _ => trivial

end
end TypedCbor
