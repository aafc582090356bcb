import TypedCbor.Proofs.Indexed

namespace TypedCbor

inductive Operation where
  | remaining
  | peek
  | peekMajor
  | readByte
  | take (count : Nat)
  | readHeader
  | readTags
  | skipTags
  | tryBreak
  | payload (parts : HeaderParts)
  | skipItem
  deriving DecidableEq, Repr

namespace Operation

abbrev Answer : Operation → Type
  | remaining => Nat
  | peek | readByte => UInt8
  | peekMajor => Major
  | take _ => Bytes
  | readHeader => Header
  | readTags => List UInt64
  | skipTags | skipItem => PUnit
  | tryBreak => Bool
  | payload _ => Payload

def read : (op : Operation) → ReadM op.Answer
  | remaining => return (← get).length
  | peek => Cursor.peek
  | peekMajor => Cursor.peekMajor
  | readByte => Cursor.readByte
  | take count => Cursor.take count
  | readHeader => Cursor.readHeader
  | readTags => Cursor.readTags
  | skipTags => discard Cursor.readTags
  | tryBreak => Cursor.tryBreak
  | payload parts => Cursor.payloadBehind parts
  | skipItem => Cursor.skipItem

def rest (op : Operation) (input : Bytes) : Bytes :=
  match op.read input with
  | .ok _ rest | .error _ rest => rest

section
variable (limit : Nat) (data : Bytes)

def readAt : (op : Operation) → IndexM op.Answer
  | remaining => Indexed.remaining data
  | peek => Indexed.peek data
  | peekMajor => Indexed.peekMajor data
  | readByte => Indexed.readByte limit data
  | take count => Indexed.take limit data count
  | readHeader => Indexed.readHeader limit data
  | readTags => Indexed.readTags limit data
  | skipTags => discard (Indexed.readTags limit data)
  | tryBreak => Indexed.tryBreak limit data
  | payload parts => Indexed.readPayload limit data parts
  | skipItem => Indexed.skipItem limit data

def next (op : Operation) (pos : Nat) : Except Fault Nat :=
  match op.readAt limit data pos with
  | .ok _ next | .error (.reported _) next => .ok next
  | .error (.fault fault) _ => .error fault

def run (ops : List Operation) (pos : Nat) : Except Fault Nat := ops.foldlM (fun pos op => op.next limit data pos) pos

end

def Looks : Operation → Prop
  | remaining | peek | peekMajor => True
  | _ => False

def TakesAllOrNothing : Operation → Prop
  | peek | peekMajor | readByte | take _ | tryBreak => True
  | _ => False

theorem rest_of_looks {op : Operation} (looks : op.Looks) (input : Bytes) : op.rest input = input := by
  cases op with
  | remaining => rfl
  | peek | peekMajor => cases input <;> rfl
  | readByte | take | readHeader | readTags | skipTags | tryBreak | payload | skipItem => exact looks.elim

theorem rest_of_fails {op : Operation} (whole : op.TakesAllOrNothing) {input rest : Bytes} {e : Error}
    (failed : op.read input = .error e rest) : rest = input := by
  cases op with
  | peek | peekMajor | readByte =>
    cases input with
    | nil => cases failed; rfl
    | cons byte input => cases failed
  | take count =>
    change (if input.length < count then _ else _) = _ at failed
    split at failed
    · cases failed
      rfl
    · cases failed
  | tryBreak =>
    cases input with
    | nil => cases failed; rfl
    | cons byte input =>
      change (if byte = breakByte then _ else _) = _ at failed
      split at failed
      · cases failed
      · cases failed
  | remaining | readHeader | readTags | skipTags | payload | skipItem => exact whole.elim

variable {limit : Nat} {data : Bytes}

section
variable (fits : data.length < limit)
include fits

theorem tracks (op : Operation) : Tracks data (op.readAt limit data) op.read := by
  cases op with
  | remaining => exact Indexed.tracks_remaining
  | peek => exact Indexed.tracks_peek
  | peekMajor => exact Indexed.tracks_peekMajor
  | readByte => exact Indexed.tracks_readByte fits
  | take count => exact Indexed.tracks_take fits count
  | readHeader => exact Indexed.tracks_readHeader fits
  | readTags => exact Indexed.tracks_readTags fits
  | skipTags => exact (Indexed.tracks_readTags fits).map _
  | tryBreak => exact Indexed.tracks_tryBreak fits
  | payload parts => exact Indexed.tracks_readPayload fits parts
  | skipItem => exact Indexed.tracks_skipItem fits

variable {pos : Nat} (within : pos ≤ data.length)
include within

theorem next_within (op : Operation) :
    ∃ later, op.next limit data pos = .ok later ∧ pos ≤ later ∧ later ≤ data.length ∧
      op.rest (data.drop pos) = data.drop later := by
  have agrees := op.tracks fits pos within
  unfold next rest
  generalize op.readAt limit data pos = result at agrees
  generalize op.read (data.drop pos) = result' at agrees
  cases agrees with
  | @answers _ later forth inside => exact ⟨later, rfl, forth, inside, rfl⟩
  | @fails _ later forth inside => exact ⟨later, rfl, forth, inside, rfl⟩

theorem run_within (ops : List Operation) :
    ∃ later, run limit data ops pos = .ok later ∧ pos ≤ later ∧ later ≤ data.length ∧
      ops.foldl (fun input op => op.rest input) (data.drop pos) = data.drop later := by
  induction ops generalizing pos with
  | nil => exact ⟨pos, rfl, Nat.le_refl _, within, rfl⟩
  | cons op ops ih =>
    obtain ⟨middle, first, forth, inside, left⟩ := op.next_within fits within
    obtain ⟨later, others, further, inside', left'⟩ := ih inside
    refine ⟨later, ?_, Nat.le_trans forth further, inside', ?_⟩
    · rw [run, List.foldlM_cons, first]
      exact others
    · rw [List.foldl_cons, left, left']

end

def Reached (limit : Nat) (data : Bytes) (pos : Nat) : Prop := ∃ ops, run limit data ops 0 = .ok pos

-- What holds of a reader wherever it has come to.
structure KeepsPlace (limit : Nat) (data : Bytes) : Prop where
  -- No operations are at fault. The index is within the input, and the cursor has left what lies behind it.
  within : ∀ ops, ∃ pos ≤ data.length, run limit data ops 0 = .ok pos ∧
    ops.foldl (fun input op => op.rest input) data = data.drop pos
  forth : ∀ pos, Reached limit data pos → ∀ ops later, run limit data ops pos = .ok later → pos ≤ later
  -- The next operation answers or reports what the cursor does.
  agrees : ∀ pos, Reached limit data pos → ∀ op : Operation,
    Agrees data pos (op.readAt limit data pos) (op.read (data.drop pos))
  looks : ∀ pos, Reached limit data pos → ∀ op : Operation, op.Looks → op.next limit data pos = .ok pos
  fails : ∀ pos, Reached limit data pos → ∀ op : Operation, op.TakesAllOrNothing → ∀ failure later,
    op.readAt limit data pos = .error failure later → later = pos
  -- Behind a header that was read itself, the content is that of its string.
  payload : ∀ header : Header, (payload header.parts).read = Cursor.readPayload header

theorem eq_of_drop {pos later : Nat} (within : pos ≤ data.length) (within' : later ≤ data.length)
    (same : data.drop later = data.drop pos) : later = pos := by
  have lengths := congrArg List.length same
  rw [List.length_drop, List.length_drop] at lengths
  omega

theorem Reached.within (fits : data.length < limit) {pos : Nat} (reached : Reached limit data pos) :
    pos ≤ data.length := by
  obtain ⟨ops, ran⟩ := reached
  obtain ⟨pos', ran', -, within, -⟩ := run_within fits (Nat.zero_le _) ops
  cases ran.symm.trans ran'
  exact within

-- Operations come in any order, whatever became of those before. No difference, sum or slice that they make is out of
-- range.
theorem keepsPlace (fits : data.length < limit) : KeepsPlace limit data where
  within ops := by
    obtain ⟨pos, ran, -, within, left⟩ := run_within fits (Nat.zero_le _) ops
    exact ⟨pos, within, ran, left⟩
  forth pos reached ops later ran := by
    obtain ⟨later', ran', forth, -⟩ := run_within fits (reached.within fits) ops
    cases ran.symm.trans ran'
    exact forth
  agrees pos reached op := op.tracks fits pos (reached.within fits)
  looks pos reached op looks := by
    obtain ⟨later, ran, -, within, left⟩ := op.next_within fits (reached.within fits)
    rw [rest_of_looks looks] at left
    rw [ran, eq_of_drop (reached.within fits) within left.symm]
  fails pos reached op whole failure later failed := by
    have agrees := op.tracks fits pos (reached.within fits)
    rw [failed] at agrees
    generalize result : op.read (data.drop pos) = result' at agrees
    cases agrees with
    | fails forth within => exact eq_of_drop (reached.within fits) within (rest_of_fails whole result)
  payload := Cursor.payloadBehind_parts

end Operation

def Bytes.boasted : Bytes :=
  [0x5f, 0x41, 0x07, 0x5b, 0xff, 0xff, 0xff, 0xff, 0xff, 0xff, 0xff, 0xff, 0xc1, 0x9b, 0xff, 0xff, 0xff, 0xff, 0xff,
    0xff, 0xff, 0xff, 0x01]

namespace Operation

def begun : List Operation := [readHeader, payload ⟨0x5f, 2, 31, .indefinite⟩]

def gone : List Operation :=
  [take (2 ^ 64 - 1), payload ⟨0xff, 9, 0, .indefinite⟩, skipItem, readTags, tryBreak, readByte, take 0, remaining]

theorem keepsPlace_boasted :
    Bytes.boasted.length < 2 ^ 64 ∧ run (2 ^ 64) Bytes.boasted begun 0 = .ok 12 ∧
      peek.next (2 ^ 64) Bytes.boasted 12 = .ok 12 ∧
      (take (2 ^ 64 - 1)).readAt (2 ^ 64) Bytes.boasted 12 = .error (.reported .truncatedInput) 12 ∧
      Agrees Bytes.boasted 12 (skipItem.readAt (2 ^ 64) Bytes.boasted 12) (skipItem.read (Bytes.boasted.drop 12)) ∧
      run (2 ^ 64) Bytes.boasted gone 12 = .ok 23 ∧ 12 ≤ 23 ∧ 23 ≤ Bytes.boasted.length := by
  have fits : Bytes.boasted.length < 2 ^ 64 := by decide
  have keeps := keepsPlace fits
  have reached : Reached (2 ^ 64) Bytes.boasted 12 := ⟨begun, rfl⟩
  have ended : run (2 ^ 64) Bytes.boasted (begun ++ gone) 0 = .ok 23 := rfl
  obtain ⟨pos, within, ran, -⟩ := keeps.within (begun ++ gone)
  cases ended.symm.trans ran
  exact ⟨fits, rfl, keeps.looks 12 reached peek trivial, rfl, keeps.agrees 12 reached skipItem, rfl,
    keeps.forth 12 reached gone 23 rfl, within⟩

end Operation
end TypedCbor
