import TypedCbor.Proofs.Rechunked.Cursor

namespace TypedCbor.Decoder

section
variable {α : Type} {config : Config}

theorem seamless_clearField : Seamless clearField := seamless_modify fun _ _ => rfl

theorem seamless_readAhead : Seamless readAhead :=
  Cursor.seamless_readTags.bind fun _ => seamless_modify fun _ _ => rfl

theorem seamless_settleTags (tags : List UInt64) : Seamless (settleTags config tags) := by
  intro decoder rest' recut own after found
  simp only [settleTags, outcome_bind, outcome_get, ok_bind, outcome_set, outcome_ofExcept] at found ⊢
  obtain ⟨_, split, same⟩ := map_eq_ok.mp found
  cases same
  exact ⟨rest', by rw [field_before, pendingTags_before, split]; rfl, recut⟩

theorem seamless_takeTags : Seamless (takeTags config) :=
  (Cursor.seamless_readTags.bind seamless_settleTags).of_eq (takeTags_eq config)

theorem seamless_behindHeader {next : Header × List UInt64 → DecodeM α}
    (plain : ∀ header own, ¬ header.major.IsString → Seamless (next (header, own)))
    (strings : ∀ major own, major.IsString → SeamlessBehind (fun header => next (header, own)) major) :
    Seamless (readHeader config >>= next) := by
  simp only [readHeader, bind_assoc, pure_bind]
  exact seamless_takeTags.bind fun own =>
    seamless_readHeader (fun header => plain header own) fun major => strings major own

theorem seamless_behindPlainHeader {next : Header → DecodeM α}
    (plain : ∀ header, ¬ header.major.IsString → Seamless (next header))
    (strings : ∀ major, major.IsString → SeamlessBehind next major) :
    Seamless (readPlainHeader config >>= next) := by
  simp only [readPlainHeader, bind_assoc, pure_bind]
  exact seamless_behindHeader (fun header _ => plain header) fun major _ => strings major

theorem seamless_nextByPosition (s : OpenStructure) : Seamless (nextByPosition s) := by
  unfold nextByPosition
  refine (Cursor.seamless_isExhausted s).bind fun ended => ?_
  split
  · exact seamless_clearField.bind fun _ => seamless_pure _
  · exact (seamless_modify fun _ _ => rfl).bind fun _ => seamless_pure _

theorem seamless_behindKey {next : DecodeM (Option Nat × OpenStructure)} (goesOn : Seamless next)
    (s : OpenStructure) (tags : List UInt64) (key : Key) : Seamless (behindKey config next s tags key) := by
  unfold behindKey
  cases key.resolve s.shape with
  | some index =>
    exact Seamless.ite ((seamless_modify fun _ _ => rfl).bind fun _ => seamless_pure _) (seamless_throw _)
  | none => exact Seamless.ite (Cursor.seamless_skipItem.bind fun _ => goesOn) (seamless_throw _)

theorem seamless_nextByKey (rounds : Nat) (s : OpenStructure) : Seamless (nextByKey config rounds s) := by
  induction rounds generalizing s with
  | zero => exact seamless_throw _
  | succ rounds ih =>
    rw [nextByKey_succ]
    refine (Cursor.seamless_isExhausted s).bind fun ended => ?_
    split
    · exact seamless_clearField.bind fun _ => seamless_pure _
    · exact Cursor.seamless_readTags.bind fun tags =>
        Cursor.seamless_readKey.bind fun key => seamless_behindKey (ih s.advanced) s tags key

theorem seamless_nextElement (s : OpenStructure) : Seamless (nextElement config s) := by
  unfold nextElement
  split
  · exact seamless_rounds (· + 1) (fun rounds => seamless_nextByKey rounds s)
      fun count decoder enough => nextByKey_enough enough (Nat.lt_succ_self _)
  · exact seamless_nextByPosition s

theorem seamless_endStructure (s : OpenStructure) : Seamless (endStructure s) := by
  unfold endStructure
  refine seamless_clearField.bind fun _ => ?_
  split
  · refine Cursor.seamless_tryBreak.bind fun closed => ?_
    exact Seamless.ite (seamless_pure _) (Cursor.seamless_peekMajor.bind fun _ => seamless_throw _)
  · exact seamless_pure _
  · exact seamless_throw _

theorem seamless_enclosed {shape : Shape} {inside : OpenStructure → DecodeM (α × OpenStructure)}
    (seamless : ∀ s, Seamless (inside s)) (opening : Header × List UInt64) :
    Seamless (enclosed config shape inside opening) :=
  (seamless_ofExcept _).bind fun s => (seamless s).bind fun p =>
    (seamless_endStructure p.2).bind fun _ => seamless_pure _

theorem enclosed_refuses {shape : Shape} {inside : OpenStructure → DecodeM (α × OpenStructure)} {header : Header}
    (string : header.major.IsString) (own : List UInt64) (decoder : Decoder) (a : α) (after : Decoder) :
    outcome (enclosed config shape inside (header, own)) decoder ≠ .ok (a, after) := by
  intro found
  obtain ⟨⟨s, _⟩, opens, -⟩ := bind_eq_ok.mp (outcome_bind .. ▸ found)
  obtain ⟨_, opened, -⟩ := map_eq_ok.mp (outcome_ofExcept .. ▸ opens)
  have structured : ¬ shape.header.1.IsString := by
    unfold Shape.header
    split <;> decide
  rw [(eq_of_opened opened).1] at string
  exact structured string

theorem seamless_structure {shape : Shape} {inside : OpenStructure → DecodeM (α × OpenStructure)}
    (seamless : ∀ s, Seamless (inside s)) : Seamless (readHeader config >>= enclosed config shape inside) :=
  seamless_behindHeader (fun header own _ => seamless_enclosed seamless (header, own))
    fun _ own string => seamlessBehind_of_refused fun _ known => enclosed_refuses (known ▸ string) own

end

section
variable {α β : Type} {config : Config} {item key : DecodeM α} {value : DecodeM β}

theorem seamless_elementRounds (seamless : Seamless item) (rounds : Nat) (s : OpenStructure) :
    Seamless (elementRounds config item rounds s) := by
  induction rounds generalizing s with
  | zero => exact seamless_throw _
  | succ rounds ih =>
    rw [elementRounds]
    refine (seamless_nextElement s).bind fun p => ?_
    rcases p with ⟨_ | index, s⟩
    · exact seamless_pure _
    · exact seamless.bind fun _ => (ih s).bind fun _ => seamless_pure _

theorem seamless_readElements (seamless : Seamless item) (moves : Moves item) (s : OpenStructure) :
    Seamless (readElements config item s) :=
  seamless_rounds (· + 1) (fun rounds => seamless_elementRounds seamless rounds s) fun _ _ enough =>
    outcome_congr (elementRounds_agree moves (fun _ _ => rfl) (Nat.le_refl _) enough (Nat.lt_succ_self _))

theorem seamless_entryRounds (keys : Seamless key) (values : Seamless value) (rounds : Nat) (s : OpenStructure) :
    Seamless (entryRounds config key value rounds s) := by
  induction rounds generalizing s with
  | zero => exact seamless_throw _
  | succ rounds ih =>
    rw [entryRounds]
    refine (seamless_nextElement s).bind fun p => ?_
    rcases p with ⟨_ | index, s⟩
    · exact seamless_pure _
    · refine keys.bind fun k => (seamless_nextElement s).bind fun p => ?_
      rcases p with ⟨_ | index, s⟩
      · exact seamless_throw _
      · exact values.bind fun _ => (ih s).bind fun _ => seamless_pure _

theorem seamless_readEntries (keys : Seamless key) (values : Seamless value) (keysMove : Moves key)
    (valuesMove : Moves value) (s : OpenStructure) : Seamless (readEntries config key value s) :=
  seamless_rounds (· + 1) (fun rounds => seamless_entryRounds keys values rounds s) fun _ _ enough =>
    outcome_congr (entryRounds_agree keysMove valuesMove (fun _ _ => rfl) (fun _ _ => rfl) (Nat.le_refl _) enough
      (Nat.lt_succ_self _))

end

section
variable {config : Config}

theorem seamless_fillFromElements {slots : List (Slot (DecodeM Value))} (each : ∀ slot ∈ slots, Seamless slot.read)
    (expected : String) (filled : Nat) (s : OpenStructure) :
    Seamless (fillFromElements config expected filled slots s) := by
  induction slots generalizing filled s with
  | nil => exact seamless_pure _
  | cons slot slots ih =>
    obtain ⟨here, each⟩ := List.forall_mem_cons.mp each
    rw [fillFromElements]
    refine (seamless_nextElement s).bind fun p => ?_
    rcases p with ⟨_ | index, s⟩
    · exact seamless_throw _
    · exact here.bind fun _ => (ih each (filled + 1) s).bind fun _ => seamless_pure _

theorem seamless_takeFields {fields : List (FieldReader (DecodeM Value))}
    (each : ∀ field ∈ fields, Seamless field.read) (expected : String) (taken : Nat) (s : OpenStructure) :
    Seamless (takeFields config expected taken fields s) := by
  induction fields generalizing taken s with
  | nil => exact seamless_pure _
  | cons field fields ih =>
    obtain ⟨here, each⟩ := List.forall_mem_cons.mp each
    rw [takeFields]
    refine (seamless_nextElement s).bind fun p => ?_
    rcases p with ⟨_ | index, s⟩
    · cases field.fallback with
      | some value => exact (ih each (taken + 1) s).bind fun _ => seamless_pure _
      | none => exact seamless_throw _
    · exact here.bind fun _ => (ih each (taken + 1) s).bind fun _ => seamless_pure _

theorem seamless_readIgnored : Seamless readIgnored :=
  (seamless_modify fun _ _ => rfl).bind fun _ => Cursor.seamless_skipItem.bind fun _ => seamless_pure _

theorem seamless_fieldRounds {fields : List (FieldReader (DecodeM Value))}
    (each : ∀ field ∈ fields, Seamless field.read) (rounds : Nat) (s : OpenStructure)
    (seen : List (String × Value)) : Seamless (fieldRounds config fields rounds s seen) := by
  induction rounds generalizing s seen with
  | zero => exact seamless_throw _
  | succ rounds ih =>
    rw [fieldRounds]
    refine (seamless_nextElement s).bind fun p => ?_
    rcases p with ⟨_ | index, s⟩
    · exact seamless_pure _
    · dsimp only
      cases known : fields.find? (·.name == s.shape.elementName index) with
      | none => exact (seamless_readIgnored.map _).bind fun _ => ih s seen
      | some field =>
        have here := each field (List.mem_of_find?_eq_some known)
        exact Seamless.ite (seamless_throw _) (here.bind fun value => ih s _)

theorem seamless_readFields {fields : List (FieldReader (DecodeM Value))}
    (each : ∀ field ∈ fields, Seamless field.read) (move : ∀ field ∈ fields, Moves field.read) (s : OpenStructure) :
    Seamless (readFields config fields s) := by
  have loop : Seamless (do fieldRounds config fields ((← get).rest.length + 1) s []) :=
    seamless_rounds (· + 1) (fun rounds => seamless_fieldRounds each rounds s []) fun _ _ enough =>
      fieldRounds_enough move enough (Nat.lt_succ_self _)
  have completed := loop.bind fun p => ((seamless_ofExcept (fields.mapM (FieldReader.complete p.1))).bind
    fun values => seamless_pure (values, p.2))
  simpa only [readFields, bind_assoc] using completed

end
end TypedCbor.Decoder
