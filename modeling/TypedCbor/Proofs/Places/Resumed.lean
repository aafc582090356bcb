import TypedCbor.Proofs.Places

namespace TypedCbor

-- For whoever looks no further than a byte a map that is not empty begins like any other.
def Resembles (rest rest' : Bytes) : Prop :=
  rest = rest' ∨ ∃ byte more byte' more', rest = byte :: more ∧ rest' = byte' :: more' ∧
    (byte = byte' ∨ (Major.ofInitial byte = .map ∧ Major.ofInitial byte' = .map ∧ byte' ≠ emptyMapByte))

theorem Resembles.refl (rest : Bytes) : Resembles rest rest := .inl rfl

theorem Resembles.cons (byte : UInt8) (more more' : Bytes) : Resembles (byte :: more) (byte :: more') :=
  .inr ⟨byte, more, byte, more', rfl, rfl, .inl rfl⟩

theorem Resembles.prepend {rest rest' : Bytes} (resembles : Resembles rest rest') (front : Bytes) :
    Resembles (front ++ rest) (front ++ rest') := by
  cases front with
  | nil => exact resembles
  | cons byte front => exact .cons byte (front ++ rest) (front ++ rest')

theorem Resembles.begins {byte : UInt8} {more rest' : Bytes} (resembles : Resembles (byte :: more) rest') :
    ∃ byte' more', rest' = byte' :: more' ∧
      (byte = byte' ∨ (Major.ofInitial byte = .map ∧ Major.ofInitial byte' = .map ∧ byte' ≠ emptyMapByte)) := by
  obtain rfl | ⟨_, _, byte', more', same, rfl, alike⟩ := resembles
  · exact ⟨byte, more, rfl, .inl rfl⟩
  · cases same
    exact ⟨byte', more', rfl, alike⟩

def Reaches (read : DecodeM α) (decoder : Decoder) (a : α) (after : Decoder) : Prop :=
  ∃ front, decoder.rest = front ++ after.rest ∧ ∀ rest, Resembles after.rest rest →
    outcome read (decoder.before (front ++ rest)) = .ok (a, after.before rest)

theorem TakesAlone.reaches {read : DecodeM α} (takes : TakesAlone read read) {decoder after : Decoder} {a : α}
    (found : outcome read decoder = .ok (a, after)) : Reaches read decoder a after := by
  obtain ⟨taken, split, law⟩ := takes decoder a after found
  exact ⟨taken, split, fun rest _ => law.whole rest False.elim⟩

-- A reader that runs another one on its way, and how it goes on from its answer.
def ResumesAt (read : DecodeM α) (decoder : Decoder) (inside : DecodeM β) (inner : Decoder) : Prop :=
  ∃ (front : Bytes) (resume : β × Decoder → Except Error (α × Decoder)), decoder.rest = front ++ inner.rest ∧
    ∀ rest, Resembles inner.rest rest →
      outcome read (decoder.before (front ++ rest)) = outcome inside (inner.before rest) >>= resume

section
variable {α β γ : Type} {read : DecodeM α} {inside : DecodeM β} {decoder between inner : Decoder}

theorem resumesAt_here (read : DecodeM α) (decoder : Decoder) : ResumesAt read decoder read decoder := by
  refine ⟨[], .ok, rfl, fun rest _ => ?_⟩
  rw [List.nil_append]
  cases outcome read (decoder.before rest) <;> rfl

theorem ResumesAt.trans {middle : DecodeM γ} (first : ResumesAt read decoder middle between)
    (second : ResumesAt middle between inside inner) : ResumesAt read decoder inside inner := by
  obtain ⟨front, resume, split, law⟩ := first
  obtain ⟨front', resume', split', law'⟩ := second
  refine ⟨front ++ front', fun p => resume' p >>= resume, by rw [split, split', List.append_assoc],
    fun rest alike => ?_⟩
  have begins : Resembles between.rest (front' ++ rest) := by
    rw [split']
    exact alike.prepend front'
  rw [List.append_assoc, law _ begins, law' rest alike]
  cases outcome inside (inner.before rest) <;> rfl

theorem ResumesAt.andThen (resumes : ResumesAt read decoder inside inner) (next : α → DecodeM γ) :
    ResumesAt (read >>= next) decoder inside inner := by
  obtain ⟨front, resume, split, law⟩ := resumes
  refine ⟨front, fun p => resume p >>= fun q => outcome (next q.1) q.2, split, fun rest alike => ?_⟩
  rw [outcome_bind, law rest alike]
  cases outcome inside (inner.before rest) <;> rfl

theorem ResumesAt.map (resumes : ResumesAt read decoder inside inner) (f : α → γ) :
    ResumesAt (f <$> read) decoder inside inner := by
  obtain ⟨front, resume, split, law⟩ := resumes
  refine ⟨front, fun p => (fun q => (f q.1, q.2)) <$> resume p, split, fun rest alike => ?_⟩
  rw [outcome_map, law rest alike]
  cases outcome inside (inner.before rest) <;> rfl

theorem Reaches.resumesAt {whole : DecodeM γ} {a : α} (reaches : Reaches read decoder a between)
    {next : DecodeM γ} (same : ∀ start after : Decoder, outcome read start = .ok (a, after) →
      outcome whole start = outcome next after)
    (resumes : ResumesAt next between inside inner) : ResumesAt whole decoder inside inner := by
  obtain ⟨front, split, law⟩ := reaches
  obtain ⟨front', resume, split', law'⟩ := resumes
  refine ⟨front ++ front', resume, by rw [split, split', List.append_assoc], fun rest alike => ?_⟩
  have begins : Resembles between.rest (front' ++ rest) := by
    rw [split']
    exact alike.prepend front'
  rw [List.append_assoc, same _ _ (law _ begins), law' rest alike]

theorem Reaches.bind {a : α} (reaches : Reaches read decoder a between) {next : α → DecodeM γ}
    (resumes : ResumesAt (next a) between inside inner) : ResumesAt (read >>= next) decoder inside inner :=
  reaches.resumesAt (fun start after found => by rw [outcome_bind, found, ok_bind]) resumes

end

namespace Decoder

variable {config : Config}

theorem reaches_isExhausted {s : OpenStructure} {decoder after : Decoder}
    (found : outcome (cursor (isExhausted s)) decoder = .ok (false, after)) :
    Reaches (cursor (isExhausted s)) decoder false after := by
  obtain ⟨rest, looked, rfl⟩ := rest_of_cursor found
  obtain ⟨rfl, -, -⟩ := eq_of_isExhausted looked
  refine ⟨[], rfl, fun rest alike => ?_⟩
  obtain rfl | ⟨byte, more, byte', more', split, rfl, same⟩ := alike
  · exact found
  dsimp only at split
  rw [split] at looked
  have looked' : outcome (isExhausted s) (byte' :: more') = .ok (false, byte' :: more') := by
    unfold isExhausted at looked ⊢
    split
    · rfl
    · rename_i between
      rw [if_neg between] at looked
      cases counted : s.remaining with
      | some count =>
        rw [counted] at looked
        cases count with
        | zero => cases looked
        | succ count => rfl
      | none =>
        rw [counted] at looked
        have going : byte ≠ breakByte := by
          intro closes
          cases closes
          cases looked
        have going' : byte' ≠ breakByte := by
          rcases same with rfl | ⟨-, map, -⟩
          · exact going
          · intro closes
            rw [closes] at map
            exact absurd map (by decide)
        simp [going']
  rw [List.nil_append, outcome_cursor, rest_before, looked']
  rfl

theorem reaches_nextElement {s s' : OpenStructure} {decoder after : Decoder} {index : Nat}
    (found : outcome (nextElement config s) decoder = .ok ((some index, s'), after)) :
    Reaches (nextElement config s) decoder (some index, s') after := by
  by_cases keyed : s.shape.hasKeys = true
  · obtain ⟨taken, split, law⟩ := takes_nextElement_keyed (.refl config) keyed decoder _ after found
    exact ⟨taken, split, fun rest _ => law.whole rest fun looked => nomatch looked.1⟩
  · rw [nextElement, if_neg keyed, nextByPosition] at found ⊢
    obtain ⟨⟨ended, between⟩, looked, found⟩ := bind_eq_ok.mp (outcome_bind .. ▸ found)
    cases ended with
    | true => cases found
    | false =>
      cases found
      obtain ⟨front, split, law⟩ := reaches_isExhausted looked
      refine ⟨front, split, fun rest alike => ?_⟩
      rw [outcome_bind, law rest alike, ok_bind]
      rfl

theorem reaches_nullAt {field : Option Element} {decoder after : Decoder}
    (found : outcome (nullAt config field) decoder = .ok (false, after)) :
    after = decoder ∧ ∀ rest, Resembles decoder.rest rest →
      outcome (nullAt config field) (decoder.before rest) = .ok (false, decoder.before rest) := by
  obtain ⟨⟨initial, between⟩, looked, found⟩ := bind_eq_ok.mp (outcome_bind .. ▸ found)
  obtain ⟨rest, peeked, rfl⟩ := rest_of_cursor looked
  dsimp only at found
  split at found
  · obtain ⟨_, _, found⟩ := bind_eq_ok.mp (outcome_bind .. ▸ found)
    obtain ⟨_, _, found⟩ := bind_eq_ok.mp (outcome_bind .. ▸ found)
    cases found
  · rename_i other
    cases found
    obtain ⟨rfl, more, begins⟩ := Cursor.eq_of_peek peeked
    refine ⟨rfl, fun rest alike => ?_⟩
    rw [begins] at alike
    obtain ⟨byte', more', rfl, same⟩ := alike.begins
    have other' : ¬(byte' = nullByte ∨ byte' = undefinedByte ∨
        (byte' = emptyMapByte ∧ (field.map (·.object)).getD false = true)) := by
      rcases same with rfl | ⟨-, map, some⟩
      · exact other
      · rintro (rfl | rfl | ⟨rfl, -⟩)
        · exact absurd map (by decide)
        · exact absurd map (by decide)
        · exact some rfl
    simp only [nullAt, outcome_bind, outcome_cursor, rest_before, Cursor.outcome_peek, ok_map, ok_bind,
      if_neg other']
    rfl

theorem reaches_readNull {decoder after : Decoder}
    (found : outcome (readNull config) decoder = .ok (false, after)) :
    Reaches (readNull config) decoder false after := by
  rw [readNull_eq] at found ⊢
  obtain ⟨⟨_, between⟩, ahead, found⟩ := bind_eq_ok.mp (outcome_bind .. ▸ found)
  change outcome (nullAt config between.field) between = .ok (false, after) at found
  obtain ⟨rfl, stays⟩ := reaches_nullAt found
  obtain ⟨⟨numbers, tagged⟩, read, found⟩ := bind_eq_ok.mp (outcome_bind .. ▸ ahead)
  obtain ⟨rest, readTags, rfl⟩ := rest_of_cursor read
  cases found
  obtain ⟨tags, fits, rfl, split, byte, more, begins, stops⟩ := Cursor.tags_of_readTags readTags
  refine ⟨tagBytes tags, split, fun rest' alike => ?_⟩
  have stays := stays rest' alike
  rw [begins] at alike
  obtain ⟨byte', more', rfl, same⟩ := alike.begins
  have stops' : Major.ofInitial byte' ≠ .tag := by
    rcases same with rfl | ⟨-, map, -⟩
    · exact stops
    · rw [map]
      decide
  simp only [readAhead, outcome_bind, outcome_cursor, rest_before, Cursor.outcome_readTags fits stops' more',
    ok_map, ok_bind, outcome_modify, outcome_get]
  exact stays

end Decoder

open Decoder

section
variable {config : Config} {β ι : Type} {part : List Nat → Nat → Option Ty}

-- A loop over the elements of a structure which reads them as the parts they are.
structure Unrolls (config : Config) (part : List Nat → Nat → Option Ty)
    (fits : ι → List Nat → OpenStructure → Prop) (loop : ι → OpenStructure → DecodeM (β × OpenStructure)) :
    Prop where
  step : ∀ {x others s index s' type}, fits x others s → part others index = some type →
    (∃ start reached, outcome (nextElement config s) start = .ok ((some index, s'), reached)) →
      ∃ (x' : Value → ι) (add : Value → β → β), (∀ value, fits (x' value) (index :: others) s') ∧
        ∀ decoder after, outcome (nextElement config s) decoder = .ok ((some index, s'), after) →
          outcome (loop x s) decoder = outcome (type.read config) after >>= fun p =>
            (fun q => ((add p.1 q.1.1, q.1.2), q.2)) <$> outcome (loop (x' p.1) s') p.2

variable {fits : ι → List Nat → OpenStructure → Prop} {loop : ι → OpenStructure → DecodeM (β × OpenStructure)}

theorem Unrolls.resumes (unrolls : Unrolls config part fits loop) {others others' : List Nat}
    {s s₁ s₂ : OpenStructure} {decoder decoder₁ inner : Decoder} {index : Nat} {type : Ty}
    (walk : Walk config part others s decoder others' s₁ decoder₁)
    (announced : outcome (nextElement config s₁) decoder₁ = .ok ((some index, s₂), inner))
    (known : part others' index = some type) {x : ι} (fit : fits x others s) :
    ResumesAt (loop x s) decoder (type.read config) inner := by
  induction walk generalizing x with
  | done =>
    obtain ⟨x', add, -, law⟩ := unrolls.step fit known ⟨_, _, announced⟩
    obtain ⟨front, split, reaches⟩ := reaches_nextElement announced
    refine ⟨front, fun p => (fun q => ((add p.1 q.1.1, q.1.2), q.2)) <$> outcome (loop (x' p.1) s₂) p.2, split,
      fun rest alike => ?_⟩
    exact law _ _ (reaches rest alike)
  | @next _ _ _ _ _ _ _ _ _ _ first value firstAnnounced firstKnown read _ ih =>
    obtain ⟨x', add, fits', law⟩ := unrolls.step fit firstKnown ⟨_, _, firstAnnounced⟩
    obtain ⟨front, split, reaches⟩ := reaches_nextElement firstAnnounced
    obtain ⟨front', split', reaches'⟩ := (first.delimits.takes (.refl config)).reaches read
    obtain ⟨front'', resume, split'', others⟩ := ih announced known (fits' value)
    refine ⟨front ++ (front' ++ front''), fun p => (fun q => ((add value q.1.1, q.1.2), q.2)) <$> resume p,
      by rw [split, split', split'', List.append_assoc, List.append_assoc], fun rest alike => ?_⟩
    have inside := alike.prepend front''
    rw [← split''] at inside
    have between := inside.prepend front'
    rw [← split'] at between
    rw [List.append_assoc, List.append_assoc, law _ _ (reaches _ between), reaches' _ inside, ok_bind,
      others rest alike]
    cases outcome (type.read config) (inner.before rest) <;> rfl

end

end TypedCbor
