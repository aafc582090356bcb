import TypedCbor.Decoder.Record
import TypedCbor.Proofs.Generic
import TypedCbor.Proofs.Taking.Cursor

namespace TypedCbor

-- A configuration that refuses nothing of what another one takes. Whatever steers only the encoder may
-- differ.
structure Config.Relaxes (lenient strict : Config) : Prop where
  described : ∀ name, lenient.descriptors.find? (·.name == name) = strict.descriptors.find? (·.name == name)
  keyTags : lenient.verifyKeyTags = true → strict.verifyKeyTags = true
  valueTags : lenient.verifyValueTags = true → strict.verifyValueTags = true
  unknownKeys : strict.ignoreUnknownKeys = true → lenient.ignoreUnknownKeys = true

theorem Config.Relaxes.refl (config : Config) : config.Relaxes config :=
  ⟨fun _ => rfl, id, id, id⟩

theorem Config.Relaxes.shape_eq {lenient strict : Config} (relaxes : lenient.Relaxes strict)
    (name : String) (kind : StructureKind) (fields : List String) :
    lenient.shape name kind fields = strict.shape name kind fields := by
  rw [Config.shape, Config.shape, relaxes.described]

-- A reader that takes an item, no less and no more.
structure Delimits (read : Config → DecodeM α) : Prop where
  takes : ∀ {strict lenient}, lenient.Relaxes strict → TakesAlone (read strict) (read lenient)
  moves : ∀ config, Moves (read config)

structure Twins (read twin : DecodeM α) : Prop where
  takes : TakesAlone read twin
  moves : Moves read
  moves' : Moves twin

theorem Delimits.twins {read : Config → DecodeM α} (delimits : Delimits read) {strict lenient : Config}
    (relaxes : lenient.Relaxes strict) : Twins (read strict) (read lenient) :=
  ⟨delimits.takes relaxes, delimits.moves strict, delimits.moves lenient⟩

namespace Decoder

section
variable {peeks : α → Prop}

theorem takes_modify {f : Decoder → Decoder}
    (keeps : ∀ decoder rest, f (decoder.before rest) = (f decoder).before rest) :
    TakesAlone (modify f) (modify f) := by
  intro decoder a after found
  cases found
  have same : (f decoder).rest = ((f decoder).before decoder.rest).rest :=
    congrArg Decoder.rest (keeps decoder decoder.rest)
  refine ⟨[], same.symm, fun more _ => ?_, fun part lost split => .inr ?_⟩
  · rw [outcome_modify, keeps]
    rfl
  · obtain ⟨rfl, rfl⟩ := List.append_eq_nil_iff.mp split.symm
    exact ⟨rfl, by rw [outcome_modify, keeps]⟩

theorem takes_clearField : TakesAlone clearField clearField :=
  takes_modify fun _ _ => rfl

theorem takes_readAhead : Takes (fun _ => True) readAhead readAhead :=
  Cursor.takes_readTags.bind (fun _ => (takes_modify fun _ _ => rfl).weaken fun _ => False.elim) fun _ _ =>
    .inl gives_true

theorem takes_ofField {next next' : Option Element → DecodeM α}
    (second : ∀ field, Takes peeks (next field) (next' field)) :
    Takes peeks (do next (← get).field) (do next' (← get).field) :=
  fun decoder => (second decoder.field decoder).of_eq rfl rfl fun _ => rfl

end

section
variable {strict lenient : Config} (relaxes : lenient.Relaxes strict)

def settleTags (config : Config) (tags : List UInt64) : DecodeM (List UInt64) := do
  let decoder ← get
  set { decoder with pendingTags := [], field := none }
  ofExcept (ItemReader.ownTags config decoder.field (decoder.pendingTags ++ tags))

theorem takeTags_eq (config : Config) (decoder : Decoder) :
    outcome (takeTags config) decoder = outcome (cursor Cursor.readTags >>= settleTags config) decoder := by
  rw [outcome_takeTags, outcome_bind, outcome_cursor]
  cases outcome Cursor.readTags decoder.rest with
  | error e => rfl
  | ok p =>
    simp only [settleTags, ok_bind, ok_map, outcome_bind, outcome_get, outcome_set, outcome_ofExcept]

include relaxes in
theorem ownTags_relaxed {field : Option Element} {tags own : List UInt64}
    (found : ItemReader.ownTags strict field tags = .ok own) :
    ∃ own', ItemReader.ownTags lenient field tags = .ok own' ∧
      (lenient.verifyValueTags = true → own' = own) := by
  cases field with
  | none => exact ⟨tags, rfl, fun _ => Except.ok.inj found⟩
  | some element =>
    by_cases checks : lenient.verifyValueTags = true
    · refine ⟨own, ?_, fun _ => rfl⟩
      rw [← found, ItemReader.ownTags, ItemReader.ownTags, checks, relaxes.valueTags checks]
    · refine ⟨tags, ?_, fun checked => absurd checked checks⟩
      rw [ItemReader.ownTags, if_neg checks]

theorem takeTags_bind_eq (config : Config) (next : List UInt64 → DecodeM β) (decoder : Decoder) :
    outcome (takeTags config >>= next) decoder =
      outcome (cursor Cursor.readTags >>= fun tags => settleTags config tags >>= next) decoder := by
  rw [← bind_assoc, outcome_bind, takeTags_eq, ← outcome_bind]

theorem moves_settleTags {config : Config} {next : List UInt64 → DecodeM β}
    (moves : ∀ own, Moves (next own)) (tags : List UInt64) : Moves (settleTags config tags >>= next) := by
  intro decoder b after ran
  rw [outcome_bind] at ran
  obtain ⟨⟨own, between⟩, here, there⟩ := bind_eq_ok.mp ran
  have kept : between.rest = decoder.rest := by
    simp only [settleTags, outcome_bind, outcome_get, ok_bind, outcome_set, outcome_ofExcept] at here
    obtain ⟨_, _, same⟩ := map_eq_ok.mp here
    cases same
    rfl
  rw [← kept]
  exact moves own between b after there

theorem moves_takeTags {config : Config} {next : List UInt64 → DecodeM β}
    (moves : ∀ own, Moves (next own)) : Moves (takeTags config >>= next) := by
  intro decoder b after ran
  rw [takeTags_bind_eq] at ran
  exact Moves.after Cursor.takes_readTags (moves_settleTags moves) decoder b after ran

include relaxes in
theorem takes_takeTags {peeks : β → Prop} {next next' : List UInt64 → DecodeM β}
    (second : ∀ own own', (lenient.verifyValueTags = true → own' = own) →
      Takes peeks (next own) (next' own'))
    (moves : ∀ own, Moves (next own)) :
    Takes peeks (takeTags strict >>= next) (takeTags lenient >>= next') := by
  have settles : ∀ tags, Takes peeks (settleTags strict tags >>= next) (settleTags lenient tags >>= next') := by
    intro tags decoder
    cases found : ItemReader.ownTags strict decoder.field (decoder.pendingTags ++ tags) with
    | error e =>
      intro b after ran
      simp [settleTags, found] at ran
    | ok own =>
      obtain ⟨own', found', agrees⟩ := ownTags_relaxed relaxes found
      refine (second own own' agrees ⟨decoder.rest, none, []⟩).of_eq rfl ?_ fun rest => ?_
      · simp [settleTags, found]
      · simp [settleTags, found', before]
  intro decoder
  exact (Cursor.takes_readTags.bind settles (fun tags _ => .inr (moves_settleTags moves tags)) decoder).of_eq
    rfl (takeTags_bind_eq ..) fun rest => takeTags_bind_eq ..

theorem opened_relaxed {shape : Shape} {header : Header} {own own' : List UInt64} {s : OpenStructure}
    (relaxes : lenient.Relaxes strict) (agrees : lenient.verifyValueTags = true → own' = own)
    (found : opened strict shape header own = .ok s) : opened lenient shape header own' = .ok s := by
  by_cases checks : lenient.verifyValueTags = true
  · rw [← found, opened, opened, checks, relaxes.valueTags checks, agrees checks]
  · have passes : opened lenient shape header own' =
        if header.major = shape.header.1 then .ok ⟨shape, header.length, 0⟩
        else .error (header.unexpected shape.header.2) := by
      cases framed : shape.arrayTags <;> simp [opened, framed, checks]
    rw [passes]
    dsimp only [opened] at found
    split at found
    · cases found
    · exact found

theorem delimits_readHeader (next : Config → Header × List UInt64 → DecodeM β)
    (second : ∀ {strict lenient : Config}, lenient.Relaxes strict → ∀ header own own',
      (lenient.verifyValueTags = true → own' = own) →
        TakesAlone (next strict (header, own)) (next lenient (header, own'))) :
    Delimits fun config => readHeader config >>= next config := by
  have moves : ∀ config own, Moves (cursor Cursor.readHeader >>= fun header => next config (header, own)) :=
    fun config own => Cursor.moves_readHeader.bind fun header =>
      second (.refl config) header own own fun _ => rfl
  refine ⟨fun {strict lenient} relaxes => ?_, fun config => ?_⟩
  · simp only [readHeader, bind_assoc, pure_bind]
    refine takes_takeTags relaxes (fun own own' agrees => ?_) (moves strict)
    exact Cursor.takes_readHeader.andThen (fun header => second relaxes header own own' agrees)
  · simp only [readHeader, bind_assoc, pure_bind]
    exact moves_takeTags (moves config)

theorem moves_readHeader (config : Config) : Moves (readHeader config) :=
  moves_takeTags fun _ => Cursor.moves_readHeader.thenPure _

theorem delimits_readPlainHeader {next : Config → Header → DecodeM β}
    (second : ∀ {strict lenient : Config}, lenient.Relaxes strict → ∀ header,
      TakesAlone (next strict header) (next lenient header)) :
    Delimits fun config => readPlainHeader config >>= next config := by
  have plain := delimits_readHeader (fun config p => next config p.1)
    fun relaxes header _ _ _ => second relaxes header
  simpa only [readPlainHeader, bind_assoc, pure_bind] using plain

theorem takes_nextByPosition (s : OpenStructure) :
    Takes (·.2.remaining = none) (nextByPosition s) (nextByPosition s) := by
  unfold nextByPosition
  refine (Cursor.takes_isExhausted s).bind (fun ended => ?_) fun ended opens => .inl ?_
  · split
    · exact takes_clearField.andThen (fun _ => takes_pure _)
    · exact (takes_modify fun _ _ => rfl).andThen (fun _ => takes_pure _)
  · split
    · exact Gives.after fun _ => gives_pure opens
    · exact Gives.after fun _ => gives_pure (by simp [OpenStructure.advanced, opens])

def behindKey (config : Config) (next : DecodeM (Option Nat × OpenStructure)) (s : OpenStructure)
    (tags : List UInt64) (key : Key) : DecodeM (Option Nat × OpenStructure) :=
  match key.resolve s.shape with
  | some index =>
    let element := s.shape.element index
    if acceptsKeyTags config element tags then do
      modify fun decoder => { decoder with field := some element }
      return (some index, s.advanced)
    else throw (.tagMismatch element.keyTags tags)
  | none =>
    if config.ignoreUnknownKeys then do
      cursor Cursor.skipItem
      next
    else throw (.unknownKey key)

theorem nextByKey_succ (config : Config) (rounds : Nat) (s : OpenStructure) :
    nextByKey config (rounds + 1) s = (do
      if ← cursor (isExhausted s) then
        clearField
        return (none, s)
      else
        let tags ← cursor Cursor.readTags
        let key ← cursor readKey
        behindKey config (nextByKey config rounds s.advanced) s tags key) := rfl

-- What a look for the next key comes to: the end, an element, or an entry to pass over and another look behind it.
inductive KeyRound (config : Config) (s : OpenStructure) (decoder : Decoder)
    (again : DecodeM (Option Nat × OpenStructure)) : Option Nat × OpenStructure → Decoder → Prop where
  | ended (spent : s.remaining = none ∨ s.remaining = some 0) :
    KeyRound config s decoder again (none, s) { decoder with field := none }
  | announced {tags : List UInt64} {between rest : Bytes} {key : Key} {index : Nat}
      (more : s.isAtValue = false → s.remaining ≠ some 0)
      (tagged : outcome Cursor.readTags decoder.rest = .ok (tags, between))
      (named : outcome readKey between = .ok (key, rest)) (resolved : key.resolve s.shape = some index)
      (accepts : acceptsKeyTags config (s.shape.element index) tags = true) :
      KeyRound config s decoder again (some index, s.advanced)
        { decoder with rest, field := some (s.shape.element index) }
  | passed {tags : List UInt64} {between rest behind : Bytes} {key : Key} {p : Option Nat × OpenStructure}
      {after : Decoder} (more : s.isAtValue = false → s.remaining ≠ some 0)
      (tagged : outcome Cursor.readTags decoder.rest = .ok (tags, between))
      (named : outcome readKey between = .ok (key, rest)) (unknown : key.resolve s.shape = none)
      (ignores : config.ignoreUnknownKeys = true)
      (skipped : outcome Cursor.skipItem rest = .ok ((), behind))
      (goes : outcome again { decoder with rest := behind } = .ok (p, after)) :
      KeyRound config s decoder again p after

theorem keyRound_of_nextByKey {config : Config} {rounds : Nat} {s : OpenStructure} {decoder after : Decoder}
    {p : Option Nat × OpenStructure} (found : outcome (nextByKey config (rounds + 1) s) decoder = .ok (p, after)) :
    KeyRound config s decoder (nextByKey config rounds s.advanced) p after := by
  rw [nextByKey_succ] at found
  obtain ⟨⟨ended, _⟩, looked, found⟩ := bind_eq_ok.mp (outcome_bind .. ▸ found)
  obtain ⟨_, peeked, rfl⟩ := rest_of_cursor looked
  obtain ⟨rfl, whenEnded, whenNot⟩ := eq_of_isExhausted peeked
  cases ended with
  | true =>
    cases found
    exact .ended (whenEnded rfl).2
  | false =>
    obtain ⟨⟨tags, _⟩, readTags, found⟩ := bind_eq_ok.mp (outcome_bind .. ▸ found)
    obtain ⟨between, tagged, rfl⟩ := rest_of_cursor readTags
    obtain ⟨⟨key, _⟩, readKey, found⟩ := bind_eq_ok.mp (outcome_bind .. ▸ found)
    obtain ⟨rest, named, rfl⟩ := rest_of_cursor readKey
    unfold behindKey at found
    dsimp only at found
    cases resolved : key.resolve s.shape with
    | some index =>
      rw [resolved] at found
      dsimp only at found
      split at found
      · rename_i accepts
        cases found
        exact .announced (whenNot rfl) tagged named resolved accepts
      · cases found
    | none =>
      rw [resolved] at found
      dsimp only at found
      split at found
      · rename_i ignores
        obtain ⟨⟨_, _⟩, skip, found⟩ := bind_eq_ok.mp (outcome_bind .. ▸ found)
        obtain ⟨behind, skipped, rfl⟩ := rest_of_cursor skip
        exact .passed (whenNot rfl) tagged named resolved ignores skipped found
      · cases found

theorem acceptsKeyTags_relaxed (relaxes : lenient.Relaxes strict) {element : Element}
    {tags : List UInt64} (accepts : acceptsKeyTags strict element tags = true) :
    acceptsKeyTags lenient element tags = true := by
  cases checks : lenient.verifyKeyTags with
  | false => simp [acceptsKeyTags, checks]
  | true => simpa [acceptsKeyTags, checks, relaxes.keyTags checks] using accepts

theorem takes_behindKey {peeks : Option Nat × OpenStructure → Prop}
    {next next' : DecodeM (Option Nat × OpenStructure)} (relaxes : lenient.Relaxes strict)
    (goesOn : Takes peeks next next') (s : OpenStructure) (tags : List UInt64) (key : Key) :
    Takes peeks (behindKey strict next s tags key) (behindKey lenient next' s tags key) := by
  unfold behindKey
  cases key.resolve s.shape with
  | some index =>
    dsimp only
    by_cases accepts : acceptsKeyTags strict (s.shape.element index) tags = true
    · rw [if_pos accepts, if_pos (acceptsKeyTags_relaxed relaxes accepts)]
      exact (takes_modify fun _ _ => rfl).andThen (fun _ => takes_pure _)
    · rw [if_neg accepts]
      exact takes_throw _ _
  | none =>
    dsimp only
    by_cases ignores : strict.ignoreUnknownKeys = true
    · rw [if_pos ignores, if_pos (relaxes.unknownKeys ignores)]
      exact Cursor.takes_skipItem.andThen (fun _ => goesOn)
    · rw [if_neg ignores]
      exact takes_throw _ _

theorem takes_nextByKey (relaxes : lenient.Relaxes strict) (rounds : Nat) (s : OpenStructure) :
    Takes (fun p => p.1 = none ∧ p.2.remaining = none) (nextByKey strict rounds s)
      (nextByKey lenient rounds s) := by
  induction rounds generalizing s with
  | zero => exact takes_throw _ _
  | succ rounds ih =>
    rw [nextByKey_succ, nextByKey_succ]
    refine (Cursor.takes_isExhausted s).bind (fun ended => ?_) fun ended opens => ?_
    · split
      · exact takes_clearField.andThen (fun _ => takes_pure _)
      · refine Cursor.takes_readTags.bind (fun tags => ?_) fun tags _ => ?_
        · exact Cursor.takes_readKey.andThen (takes_behindKey relaxes (ih s.advanced) s tags)
        · exact .inr (Cursor.moves_readKey.bind (takes_behindKey relaxes (ih s.advanced) s tags))
    · split
      · exact .inl (Gives.after fun _ => gives_pure ⟨rfl, opens⟩)
      · exact .inr (Moves.after Cursor.takes_readTags fun tags =>
          Cursor.moves_readKey.bind (takes_behindKey relaxes (ih s.advanced) s tags))

theorem nextByKey_enough {config : Config} {rounds rounds' : Nat} {s : OpenStructure} {decoder : Decoder}
    (enough : decoder.rest.length < rounds) (enough' : decoder.rest.length < rounds') :
    outcome (nextByKey config rounds s) decoder = outcome (nextByKey config rounds' s) decoder := by
  induction rounds generalizing rounds' s decoder with
  | zero => cases enough
  | succ rounds ih =>
    obtain ⟨rounds', rfl⟩ : ∃ n, rounds' = n + 1 := ⟨rounds' - 1, by omega⟩
    rw [nextByKey_succ, nextByKey_succ]
    refine outcome_bind_congr fun ended after found => ?_
    have first := (Cursor.takes_isExhausted s).length_le found
    rw [outcome_ite, outcome_ite]
    split
    · rfl
    · refine outcome_bind_congr fun tags after' found => ?_
      have second := Cursor.takes_readTags.length_le found
      refine outcome_bind_congr fun key after'' found => ?_
      have third := Cursor.moves_readKey _ _ _ found
      unfold behindKey
      cases key.resolve s.shape with
      | some index => rfl
      | none =>
        dsimp only
        rw [outcome_ite, outcome_ite]
        split
        · refine outcome_bind_congr fun _ rest found => ?_
          have fourth := Cursor.takes_skipItem.length_le found
          exact ih (by omega) (by omega)
        · rfl

theorem takes_nextElement_keyed (relaxes : lenient.Relaxes strict) {s : OpenStructure}
    (keyed : s.shape.hasKeys = true) :
    Takes (fun p => p.1 = none ∧ p.2.remaining = none) (nextElement strict s) (nextElement lenient s) := by
  unfold nextElement
  rw [if_pos keyed, if_pos keyed]
  refine takes_rounds (· + 1) (fun rounds => takes_nextByKey relaxes rounds s) ?_ ?_
  all_goals exact fun count decoder enough => nextByKey_enough enough (Nat.lt_succ_self _)

theorem takes_nextElement (relaxes : lenient.Relaxes strict) (s : OpenStructure) :
    Takes (·.2.remaining = none) (nextElement strict s) (nextElement lenient s) := by
  by_cases keyed : s.shape.hasKeys = true
  · exact (takes_nextElement_keyed relaxes keyed).weaken fun _ looked => looked.2
  · unfold nextElement
    rw [if_neg keyed, if_neg keyed]
    exact takes_nextByPosition s

theorem gives_nextElement_of {config : Config} (P : OpenStructure → Prop)
    (advances : ∀ s, P s → P s.advanced) {s : OpenStructure} (holds : P s) :
    Gives (nextElement config s) fun p => P p.2 := by
  have byKey : ∀ rounds (s : OpenStructure), P s → Gives (nextByKey config rounds s) fun p => P p.2 := by
    intro rounds
    induction rounds with
    | zero => exact fun _ _ => gives_throw _
    | succ rounds ih =>
      intro s holds decoder p after found
      cases keyRound_of_nextByKey found with
      | ended => exact holds
      | announced => exact advances s holds
      | passed _ _ _ _ _ _ goes => exact ih _ (advances s holds) _ _ _ goes
  unfold nextElement
  split
  · exact Gives.after fun _ => byKey _ s holds
  · unfold nextByPosition
    refine Gives.after fun ended => ?_
    split
    · exact Gives.after fun _ => gives_pure holds
    · exact Gives.after fun _ => gives_pure (advances s holds)

theorem gives_nextElement {config : Config} {s : OpenStructure} (opens : s.remaining = none) :
    Gives (nextElement config s) (·.2.remaining = none) :=
  gives_nextElement_of (·.remaining = none) (fun s opens => by simp [OpenStructure.advanced, opens]) opens

theorem shape_of_nextElement {config : Config} {s s' : OpenStructure} {decoder after : Decoder}
    {next : Option Nat} (found : outcome (nextElement config s) decoder = .ok ((next, s'), after)) :
    s'.shape = s.shape := by
  have kept : Gives (nextElement config s) fun p => p.2.shape = s.shape :=
    gives_nextElement_of (·.shape = s.shape) (fun _ same => same) rfl
  exact kept _ _ _ found

theorem length_le_of_nextElement {config : Config} {s : OpenStructure} {decoder after : Decoder}
    {p : Option Nat × OpenStructure} (found : outcome (nextElement config s) decoder = .ok (p, after)) :
    after.rest.length ≤ decoder.rest.length := (takes_nextElement (.refl config) s).length_le found

theorem moves_endStructure {s : OpenStructure} (opens : s.remaining = none) : Moves (endStructure s) := by
  unfold endStructure
  rw [opens]
  refine Moves.after takes_clearField fun _ => ?_
  intro decoder a after found
  rw [outcome_bind] at found
  obtain ⟨⟨closed, between⟩, first, second⟩ := bind_eq_ok.mp found
  obtain ⟨rest, read, rfl⟩ := rest_of_cursor first
  cases closed with
  | true =>
    cases second
    rw [Cursor.eq_of_tryBreak read]
    exact Nat.lt_succ_self _
  | false =>
    obtain ⟨_, _, thrown⟩ := bind_eq_ok.mp (outcome_bind .. ▸ second)
    cases thrown

theorem takes_endStructure (s : OpenStructure) : TakesAlone (endStructure s) (endStructure s) := by
  unfold endStructure
  refine takes_clearField.andThen (fun _ => ?_)
  cases s.remaining with
  | none =>
    refine Cursor.takes_tryBreak.bind (fun closed => ?_) fun closed goes => ?_
    · split
      · exact takes_pure _
      · exact Cursor.takes_peekMajor.bind (fun _ => takes_throw _ _) fun _ _ => .inr (moves_throw _)
    · rw [if_neg (by simp [goes])]
      exact .inr (Moves.after Cursor.takes_peekMajor fun _ => moves_throw _)
  | some count =>
    cases count with
    | zero => exact takes_pure _
    | succ unread => exact takes_throw _ _

theorem takes_enclosed {read read' : OpenStructure → DecodeM (β × OpenStructure)} {shape : Shape}
    {header : Header} {own own' : List UInt64} (relaxes : lenient.Relaxes strict)
    (agrees : lenient.verifyValueTags = true → own' = own)
    (takes : ∀ s, Takes (·.2.remaining = none) (read s) (read' s)) :
    TakesAlone (enclosed strict shape read (header, own)) (enclosed lenient shape read' (header, own')) := by
  refine (takes_check fun _ => opened_relaxed relaxes agrees).andThen (fun s => ?_)
  refine (takes s).bind (fun p => ?_) fun p opens => .inr ?_
  · exact (takes_endStructure p.2).andThen (fun _ => takes_pure _)
  · exact (moves_endStructure opens).thenPure _

end

end Decoder
end TypedCbor
