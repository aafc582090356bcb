import TypedCbor.Decoder

namespace TypedCbor

-- Where a failed reader left off is forgotten, so that two readers which answer alike have equal outcomes.
def outcome (read : EStateM Error σ α) (state : σ) : Except Error (α × σ) :=
  match read state with
  | .ok a after => .ok (a, after)
  | .error e _ => .error e

section
variable {σ α β : Type}

@[simp] theorem outcome_pure (a : α) (state : σ) :
    outcome (pure a : EStateM Error σ α) state = .ok (a, state) := rfl

@[simp] theorem outcome_throw (e : Error) (state : σ) :
    outcome (throw e : EStateM Error σ α) state = .error e := rfl

@[simp] theorem outcome_get (state : σ) :
    outcome (get : EStateM Error σ σ) state = .ok (state, state) := rfl

@[simp] theorem outcome_set (after state : σ) :
    outcome (set after : EStateM Error σ PUnit) state = .ok (⟨⟩, after) := rfl

@[simp] theorem outcome_modify (f : σ → σ) (state : σ) :
    outcome (modify f : EStateM Error σ PUnit) state = .ok (⟨⟩, f state) := rfl

@[simp] theorem outcome_bind (read : EStateM Error σ α) (next : α → EStateM Error σ β) (state : σ) :
    outcome (read >>= next) state = outcome read state >>= fun p => outcome (next p.1) p.2 := by
  simp only [outcome, bind, EStateM.bind, Except.bind]
  cases read state <;> rfl

@[simp] theorem outcome_map (f : α → β) (read : EStateM Error σ α) (state : σ) :
    outcome (f <$> read) state = (fun p => (f p.1, p.2)) <$> outcome read state := by
  simp only [outcome, Functor.map, EStateM.map, Except.map]
  cases read state <;> rfl

@[simp] theorem outcome_discard (read : EStateM Error σ α) (state : σ) :
    outcome (discard read) state = (fun p => (⟨⟩, p.2)) <$> outcome read state :=
  outcome_map (fun _ => PUnit.unit) read state

theorem discard_bind (read : EStateM Error σ α) (next : PUnit → EStateM Error σ β) :
    (discard read >>= next) = read >>= fun _ => next ⟨⟩ := by
  funext state
  change EStateM.bind (EStateM.map (fun _ => PUnit.unit) read) next state = EStateM.bind read _ state
  simp only [EStateM.bind, EStateM.map]
  cases read state <;> rfl

theorem outcome_ite (c : Prop) [Decidable c] (yes no : EStateM Error σ α) (state : σ) :
    outcome (if c then yes else no) state = if c then outcome yes state else outcome no state := by
  split <;> rfl

@[simp] theorem ok_bind (a : α) (next : α → Except Error β) : (Except.ok a >>= next) = next a := rfl

@[simp] theorem error_bind (e : Error) (next : α → Except Error β) :
    (Except.error e >>= next) = .error e := rfl

@[simp] theorem ok_map (f : α → β) (a : α) : f <$> (Except.ok a : Except Error α) = .ok (f a) := rfl

@[simp] theorem error_map (f : α → β) (e : Error) :
    f <$> (Except.error e : Except Error α) = .error e := rfl

theorem outcome_bind_congr {read : EStateM Error σ α} {next other : α → EStateM Error σ β} {state : σ}
    (same : ∀ a after, outcome read state = .ok (a, after) →
      outcome (next a) after = outcome (other a) after) :
    outcome (read >>= next) state = outcome (read >>= other) state := by
  rw [outcome_bind, outcome_bind]
  cases found : outcome read state with
  | error e => rfl
  | ok p => exact same p.1 p.2 found

theorem ran_bind_congr {read : EStateM Error σ α} {next other : α → EStateM Error σ β} {state : σ}
    (same : ∀ a after, outcome read state = .ok (a, after) → next a after = other a after) :
    (read >>= next) state = (read >>= other) state := by
  change EStateM.bind read next state = EStateM.bind read other state
  unfold EStateM.bind
  cases ran : read state with
  | error e after => rfl
  | ok a after => exact same a after (by rw [outcome, ran])

theorem ran_bind {read other : EStateM Error σ α} {state state' : σ} (same : read state = other state')
    (next : α → EStateM Error σ β) : (read >>= next) state = (other >>= next) state' := by
  change EStateM.bind read next state = EStateM.bind other next state'
  rw [EStateM.bind, EStateM.bind, same]

theorem ran_bind_ok {ε : Type} {read : EStateM ε σ α} {state after : σ} {a : α} (ran : read state = .ok a after)
    (next : α → EStateM ε σ β) : (read >>= next) state = next a after := by
  change EStateM.bind read next state = _
  rw [EStateM.bind, ran]

theorem ran_bind_error {ε : Type} {read : EStateM ε σ α} {state after : σ} {e : ε}
    (ran : read state = .error e after) (next : α → EStateM ε σ β) : (read >>= next) state = .error e after := by
  change EStateM.bind read next state = _
  rw [EStateM.bind, ran]

theorem ran_map {read other : EStateM Error σ α} {state state' : σ} (same : read state = other state') (f : α → β) :
    (f <$> read) state = (f <$> other) state' := by
  change EStateM.map f read state = EStateM.map f other state'
  rw [EStateM.map, EStateM.map, same]

theorem outcome_congr {read other : EStateM Error σ α} {state : σ} (same : read state = other state) :
    outcome read state = outcome other state := by
  rw [outcome, outcome, same]

theorem ran_of_outcome {read : EStateM Error σ α} {state after : σ} {a : α}
    (found : outcome read state = .ok (a, after)) : read state = .ok a after := by
  unfold outcome at found
  split at found
  · cases found
    assumption
  · cases found

theorem bind_eq_ok {x : Except Error α} {next : α → Except Error β} {b : β} :
    (x >>= next) = .ok b ↔ ∃ a, x = .ok a ∧ next a = .ok b := by
  cases x <;> simp

theorem map_eq_ok {f : α → β} {x : Except Error α} {b : β} :
    f <$> x = .ok b ↔ ∃ a, x = .ok a ∧ f a = b := by
  cases x <;> simp

end

namespace Decoder

@[simp] theorem outcome_cursor (read : ReadM α) (decoder : Decoder) :
    outcome (cursor read) decoder =
      (fun p => (p.1, { decoder with rest := p.2 })) <$> outcome read decoder.rest := by
  simp only [outcome, cursor, Functor.map, Except.map]
  cases read decoder.rest <;> rfl

@[simp] theorem outcome_ofExcept (result : Except Error α) (decoder : Decoder) :
    outcome (ofExcept result) decoder = (·, decoder) <$> result := by
  cases result <;> rfl

theorem rest_of_cursor {read : ReadM α} {decoder after : Decoder} {a : α}
    (found : outcome (cursor read) decoder = .ok (a, after)) :
    ∃ rest, outcome read decoder.rest = .ok (a, rest) ∧ after = { decoder with rest := rest } := by
  rw [outcome_cursor] at found
  obtain ⟨⟨a', rest⟩, read, same⟩ := map_eq_ok.mp found
  cases same
  exact ⟨rest, read, rfl⟩

theorem cursor_bind (read : ReadM α) (next : α → ReadM β) :
    cursor (read >>= next) = cursor read >>= fun a => cursor (next a) := by
  funext decoder
  simp only [cursor, bind, EStateM.bind]
  cases read decoder.rest <;> rfl

theorem cursor_map (f : α → β) (read : ReadM α) : cursor (f <$> read) = f <$> cursor read := by
  funext decoder
  simp only [cursor, Functor.map, EStateM.map]
  cases read decoder.rest <;> rfl

theorem cursor_discard (read : ReadM α) : cursor (discard read) = discard (cursor read) :=
  cursor_map (fun _ => PUnit.unit) read

end Decoder
end TypedCbor
