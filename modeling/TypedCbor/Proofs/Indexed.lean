import TypedCbor.Proofs.Item.Skip
import TypedCbor.Proofs.Outcome

namespace TypedCbor

inductive Fault where
  | underflow
  | overflow
  | outOfBounds
  deriving DecidableEq, Repr

-- An error is reported, and the reader can be used on. A fault ends everything.
inductive Failure where
  | fault (fault : Fault)
  | reported (error : Error)
  deriving DecidableEq, Repr

-- The cursor with an index into the whole input. What is left is a difference, the index moves by sums, and content
-- is cut out between two indices, each of them defined only within its range.
abbrev IndexM := EStateM Failure Nat

-- A header as a caller may put it together. Its parts need not belong to each other, and its major type may be a
-- number that no initial byte has room for.
structure HeaderParts where
  initial : UInt8
  major : UInt8
  info : UInt8
  argument : Argument
  deriving DecidableEq, Repr

def Header.parts (header : Header) : HeaderParts where
  initial := header.initial
  major := UInt8.ofNat header.major.code
  info := UInt8.ofNat header.info
  argument := header.argument

namespace Cursor

def chunksBehind (major : UInt8) : Nat → ReadM Bytes
  | 0 => throw .truncatedInput
  | rounds + 1 => do
    let chunk ← readHeader
    if chunk.isBreak then return []
    else
      match chunk.argument with
      | .value length =>
        if chunk.major.code = major.toNat then
          let content ← take length.toNat
          return content ++ (← chunksBehind major rounds)
        else throw (.malformedHeader chunk.initial)
      | .indefinite => throw (.malformedHeader chunk.initial)

def payloadBehind (parts : HeaderParts) : ReadM Payload := do
  match parts.argument with
  | .value length => return ⟨← take length.toNat, true⟩
  | .indefinite => return ⟨← chunksBehind parts.major ((← get).length + 1), false⟩

theorem chunksBehind_eq (header : Header) (rounds : Nat) :
    chunksBehind header.parts.major rounds = chunkRounds header.major rounds := by
  have code (chunk : Header) : chunk.major.code = header.parts.major.toNat ↔ chunk.major = header.major := by
    rw [Header.parts, UInt8.toNat_ofNat']
    generalize chunk.major = major
    generalize header.major = major'
    cases major <;> cases major' <;> decide
  induction rounds with
  | zero => rfl
  | succ rounds ih =>
    rw [chunksBehind, chunkRounds]
    congr
    funext chunk
    cases chunk.argument with
    | value length =>
      dsimp only
      simp only [code, ih]
    | indefinite => rfl

theorem payloadBehind_parts (header : Header) : payloadBehind header.parts = readPayload header := by
  unfold payloadBehind readPayload
  simp only [chunksBehind_eq]
  rfl

end Cursor

namespace Indexed

-- A word of the machine is a number below the limit.
variable (limit : Nat) (data : Bytes)

def report (e : Error) : IndexM α := throw (.reported e)

def difference (m n : Nat) : IndexM Nat := if n ≤ m then return m - n else throw (.fault .underflow)

def sum (m n : Nat) : IndexM Nat := if m + n < limit then return m + n else throw (.fault .overflow)

def slice (start stop : Nat) : IndexM Bytes :=
  if start ≤ stop ∧ stop ≤ data.length then return (data.drop start).take (stop - start)
  else throw (.fault .outOfBounds)

def remaining : IndexM Nat := do difference data.length (← get)

def advance (count : Nat) : IndexM Unit := do set (← sum limit (← get) count)

def peek : IndexM UInt8 := do
  match data[← get]? with
  | some byte => return byte
  | none => report .truncatedInput

def readByte : IndexM UInt8 := do
  let byte ← peek data
  advance limit 1
  return byte

def take (count : Nat) : IndexM Bytes := do
  if (← remaining data) < count then report .truncatedInput
  else
    let start ← get
    let content ← slice data start (← sum limit start count)
    advance limit count
    return content

def takeLength (length : UInt64) : IndexM Bytes :=
  if length.toNat < limit then take limit data length.toNat else report .truncatedInput

def tryBreak : IndexM Bool := do
  if (← peek data) = breakByte then
    advance limit 1
    return true
  else return false

def peekMajor : IndexM Major := return Major.ofInitial (← peek data)

def word (width : Nat) : IndexM Argument :=
  return .value (UInt64.ofNat (Bytes.ofBigEndian (← take limit data width)))

def readArgument (initial : UInt8) : IndexM Argument :=
  let info := initial.toNat % 32
  if info < 24 then return .value (UInt64.ofNat info)
  else
    match info with
    | 24 => word limit data 1
    | 25 => word limit data 2
    | 26 => word limit data 4
    | 27 => word limit data 8
    | 31 =>
      if (Major.ofInitial initial).hasIndefinite then return .indefinite
      else report (.malformedHeader initial)
    | _ => report (.malformedHeader initial)

def readHeader : IndexM Header := do
  let initial ← readByte limit data
  return ⟨initial, ← readArgument limit data initial⟩

def tagRounds : Nat → IndexM (List UInt64)
  | 0 => report .truncatedInput
  | rounds + 1 => do
    if (← peekMajor data) = .tag then
      match (← readHeader limit data).argument with
      | .value tag => return tag :: (← tagRounds rounds)
      | .indefinite => tagRounds rounds
    else return []

def readTags : IndexM (List UInt64) := do tagRounds limit data ((← remaining data) + 1)

def chunkRounds (major : UInt8) : Nat → IndexM Bytes
  | 0 => report .truncatedInput
  | rounds + 1 => do
    let chunk ← readHeader limit data
    if chunk.isBreak then return []
    else
      match chunk.argument with
      | .value length =>
        if chunk.major.code = major.toNat then
          let content ← takeLength limit data length
          return content ++ (← chunkRounds major rounds)
        else report (.malformedHeader chunk.initial)
      | .indefinite => report (.malformedHeader chunk.initial)

def readPayload (parts : HeaderParts) : IndexM Payload := do
  match parts.argument with
  | .value length => return ⟨← takeLength limit data length, true⟩
  | .indefinite => return ⟨← chunkRounds limit data parts.major ((← remaining data) + 1), false⟩

open Cursor (Pending settled)

def skipContent (pending : Pending) (header : Header) : IndexM (Option Pending) :=
  match header.major, header.argument with
  | .bytes, .value length | .text, .value length => do
    discard (takeLength limit data length)
    return settled pending
  | .bytes, .indefinite | .text, .indefinite | .array, .indefinite | .map, .indefinite =>
    return settled (none :: pending)
  | .array, .value count => return settled (some count.toNat :: pending)
  | .map, .value count =>
    if 2 * count.toNat < UInt64.size then return settled (some (2 * count.toNat) :: pending)
    else report (.malformedHeader header.initial)
  | .simple, .indefinite => report (.malformedHeader header.initial)
  | _, _ => return settled pending

def skipHead (pending : Pending) : IndexM (Option Pending) := do
  discard (readTags limit data)
  skipContent limit data pending (← readHeader limit data)

def skipRound : Pending → IndexM (Option Pending)
  | some 0 :: outer => return settled outer
  | some (count + 1) :: outer => skipHead limit data (some count :: outer)
  | none :: outer => do
    if ← tryBreak limit data then return settled outer else skipHead limit data (none :: outer)
  | [] => skipHead limit data []

def skipRounds : Nat → Pending → IndexM Unit
  | 0, _ => report .truncatedInput
  | rounds + 1, pending => do
    match ← skipRound limit data pending with
    | none => return ()
    | some pending => skipRounds rounds pending

def skipItem : IndexM Unit := do skipRounds limit data (2 * (← remaining data) + 1) []

end Indexed

section
variable {limit : Nat} {data : Bytes} {α β : Type}

-- The same answer or error on both sides. The index is not in front of where it started, it is within the input, and
-- the cursor has left what lies behind it.
inductive Agrees (data : Bytes) (start : Nat) : EStateM.Result Failure Nat α → EStateM.Result Error Bytes α → Prop where
  | answers {a : α} {pos : Nat} (forth : start ≤ pos) (within : pos ≤ data.length) :
      Agrees data start (.ok a pos) (.ok a (data.drop pos))
  | fails {e : Error} {pos : Nat} (forth : start ≤ pos) (within : pos ≤ data.length) :
      Agrees data start (.error (.reported e) pos) (.error e (data.drop pos))

def Tracks (data : Bytes) (indexed : IndexM α) (read : ReadM α) : Prop :=
  ∀ start ≤ data.length, Agrees data start (indexed start) (read (data.drop start))

theorem Agrees.since {start later : Nat} {result : EStateM.Result Failure Nat α} {result' : EStateM.Result Error Bytes α}
    (agrees : Agrees data later result result') (forth : start ≤ later) : Agrees data start result result' := by
  cases agrees with
  | answers further within => exact .answers (Nat.le_trans forth further) within
  | fails further within => exact .fails (Nat.le_trans forth further) within

theorem Tracks.answers {indexed : IndexM α} {read : ReadM α} (tracks : Tracks data indexed read) {start : Nat}
    (within : start ≤ data.length) {a : α} {rest : Bytes} (ran : read (data.drop start) = .ok a rest) :
    indexed start = .ok a (data.length - rest.length) := by
  have agrees := tracks start within
  rw [ran] at agrees
  generalize indexed start = result at agrees
  cases agrees with
  | @answers _ pos _ inside =>
    rw [List.length_drop, Nat.sub_sub_self inside]

theorem tracks_pure (a : α) : Tracks data (pure a) (pure a) := fun _ within => .answers (Nat.le_refl _) within

theorem tracks_report (e : Error) : Tracks data (Indexed.report e : IndexM α) (throw e) :=
  fun _ within => .fails (Nat.le_refl _) within

section
variable {indexed indexed' : IndexM α} {read read' : ReadM α}

theorem Tracks.bind {next : α → IndexM β} {next' : α → ReadM β} (first : Tracks data indexed read)
    (others : ∀ a, Tracks data (next a) (next' a)) : Tracks data (indexed >>= next) (read >>= next') := by
  intro start within
  have here := first start within
  change Agrees data start (EStateM.bind indexed next start) (EStateM.bind read next' (data.drop start))
  unfold EStateM.bind
  generalize indexed start = result at here
  generalize read (data.drop start) = result' at here
  cases here with
  | answers forth within => exact (others _ _ within).since forth
  | fails forth within => exact .fails forth within

theorem Tracks.map (tracks : Tracks data indexed read) (f : α → β) : Tracks data (f <$> indexed) (f <$> read) := by
  rw [← bind_pure_comp, ← bind_pure_comp]
  exact tracks.bind fun _ => tracks_pure _

theorem Tracks.ite {c : Prop} [Decidable c] (yes : Tracks data indexed read) (no : Tracks data indexed' read') :
    Tracks data (if c then indexed else indexed') (if c then read else read') := by
  split
  · exact yes
  · exact no

end

namespace Indexed

theorem ran_get (pos : Nat) : (get : IndexM Nat) pos = .ok pos pos := rfl

theorem ran_remaining {start : Nat} (within : start ≤ data.length) :
    remaining data start = .ok (data.length - start) start := by
  rw [remaining, ran_bind_ok (ran_get start), difference, if_pos within]
  rfl

-- An index behind the input has no bytes left, and not none.
example : remaining [] 1 = .error (.fault .underflow) 1 := rfl

theorem ran_sum {m n : Nat} (room : m + n < limit) (start : Nat) : sum limit m n start = .ok (m + n) start := by
  rw [sum, if_pos room]
  rfl

theorem ran_slice {start stop : Nat} (forth : start ≤ stop) (within : stop ≤ data.length) (pos : Nat) :
    slice data start stop pos = .ok ((data.drop start).take (stop - start)) pos := by
  rw [slice, if_pos ⟨forth, within⟩]
  rfl

theorem ran_advance {start count : Nat} (room : start + count < limit) :
    advance limit count start = .ok ⟨⟩ (start + count) := by
  rw [advance, ran_bind_ok (ran_get start), ran_bind_ok (ran_sum room start)]
  rfl

theorem ran_peek {start : Nat} {byte : UInt8} {rest : Bytes} (behind : data.drop start = byte :: rest) :
    peek data start = .ok byte start := by
  have here : data[start]? = some byte := by
    rw [← Nat.add_zero start, ← List.getElem?_drop, behind]
    rfl
  rw [peek, ran_bind_ok (ran_get start), here]
  rfl

theorem ran_peek_end {start : Nat} (behind : data.drop start = []) :
    peek data start = .error (.reported .truncatedInput) start := by
  have ended : data[start]? = none := List.getElem?_eq_none (List.drop_eq_nil_iff.mp behind)
  rw [peek, ran_bind_ok (ran_get start), ended]
  rfl

theorem drop_succ {start : Nat} {byte : UInt8} {rest : Bytes} (behind : data.drop start = byte :: rest) :
    start + 1 ≤ data.length ∧ rest = data.drop (start + 1) := by
  have length := congrArg List.length behind
  rw [List.length_drop, List.length_cons] at length
  refine ⟨by omega, ?_⟩
  rw [← List.drop_drop, behind]
  rfl

theorem tracks_remaining : Tracks data (remaining data) (do return (← get).length) := by
  intro start within
  change Agrees data start _ (.ok (data.drop start).length (data.drop start))
  rw [ran_remaining within, List.length_drop]
  exact .answers (Nat.le_refl _) within

theorem tracks_rounds {loop : Nat → IndexM α} {loop' : Nat → ReadM α}
    (each : ∀ count, Tracks data (loop count) (loop' count)) :
    Tracks data (remaining data >>= loop) (get >>= fun rest => loop' rest.length) := by
  intro start within
  have agrees := each (data.length - start) start within
  change Agrees data start _ (loop' (data.drop start).length (data.drop start))
  rwa [ran_bind_ok (ran_remaining within), List.length_drop]

theorem tracks_peek : Tracks data (peek data) Cursor.peek := by
  intro start within
  cases behind : data.drop start with
  | nil =>
    rw [ran_peek_end behind, Cursor.peek, ← behind]
    exact .fails (Nat.le_refl _) within
  | cons byte rest =>
    rw [ran_peek behind, Cursor.peek, ← behind]
    exact .answers (Nat.le_refl _) within

theorem tracks_peekMajor : Tracks data (peekMajor data) Cursor.peekMajor := tracks_peek.bind fun _ => tracks_pure _

variable (fits : data.length < limit)
include fits

theorem tracks_readByte : Tracks data (readByte limit data) Cursor.readByte := by
  intro start within
  cases behind : data.drop start with
  | nil =>
    rw [readByte, ran_bind_error (ran_peek_end behind), Cursor.readByte, ← behind]
    exact .fails (Nat.le_refl _) within
  | cons byte rest =>
    obtain ⟨room, rfl⟩ := drop_succ behind
    rw [readByte, ran_bind_ok (ran_peek behind), ran_bind_ok (ran_advance (by omega)), Cursor.readByte]
    exact .answers (Nat.le_succ start) room

theorem tracks_tryBreak : Tracks data (tryBreak limit data) Cursor.tryBreak := by
  intro start within
  cases behind : data.drop start with
  | nil =>
    rw [tryBreak, ran_bind_error (ran_peek_end behind), Cursor.tryBreak, ← behind]
    exact .fails (Nat.le_refl _) within
  | cons byte rest =>
    obtain ⟨room, rfl⟩ := drop_succ behind
    rw [tryBreak, ran_bind_ok (ran_peek behind), Cursor.tryBreak]
    split
    · rw [ran_bind_ok (ran_advance (by omega))]
      exact .answers (Nat.le_succ start) room
    · rw [← behind]
      exact .answers (Nat.le_refl _) within

theorem tracks_take (count : Nat) : Tracks data (take limit data count) (Cursor.take count) := by
  intro start within
  rw [take, ran_bind_ok (ran_remaining within), Cursor.take, List.length_drop]
  split
  · exact .fails (Nat.le_refl _) within
  · have stop : start + count ≤ data.length := by omega
    rw [ran_bind_ok (ran_get start), ran_bind_ok (ran_sum (by omega) start),
      ran_bind_ok (ran_slice (Nat.le_add_right _ _) stop start), ran_bind_ok (ran_advance (by omega)),
      Nat.add_sub_cancel_left, List.drop_drop]
    exact .answers (Nat.le_add_right _ _) stop

theorem tracks_takeLength (length : UInt64) :
    Tracks data (takeLength limit data length) (Cursor.take length.toNat) := by
  rw [takeLength]
  split
  · exact tracks_take fits length.toNat
  · intro start within
    rw [Cursor.take, if_pos (by rw [List.length_drop]; omega)]
    exact .fails (Nat.le_refl _) within

theorem tracks_word (width : Nat) : Tracks data (word limit data width) (Cursor.word width) :=
  (tracks_take fits width).bind fun _ => tracks_pure _

theorem tracks_readArgument (initial : UInt8) :
    Tracks data (readArgument limit data initial) (Cursor.readArgument initial) := by
  unfold readArgument Cursor.readArgument
  dsimp only
  have small : initial.toNat % 32 < 32 := Nat.mod_lt _ (by decide)
  generalize initial.toNat % 32 = info at small
  by_cases immediate : info < 24
  · rw [if_pos immediate, if_pos immediate]
    exact tracks_pure _
  · rw [if_neg immediate, if_neg immediate]
    have known : info = 24 ∨ info = 25 ∨ info = 26 ∨ info = 27 ∨ info = 28 ∨ info = 29 ∨ info = 30 ∨ info = 31 := by
      omega
    rcases known with rfl | rfl | rfl | rfl | rfl | rfl | rfl | rfl
    · exact tracks_word fits 1
    · exact tracks_word fits 2
    · exact tracks_word fits 4
    · exact tracks_word fits 8
    · exact tracks_report _
    · exact tracks_report _
    · exact tracks_report _
    · exact .ite (tracks_pure _) (tracks_report _)

theorem tracks_readHeader : Tracks data (readHeader limit data) Cursor.readHeader :=
  (tracks_readByte fits).bind fun initial => (tracks_readArgument fits initial).bind fun _ => tracks_pure _

theorem tracks_tagRounds (rounds : Nat) : Tracks data (tagRounds limit data rounds) (Cursor.tagRounds rounds) := by
  induction rounds with
  | zero => exact tracks_report _
  | succ rounds ih =>
    refine tracks_peekMajor.bind fun major => .ite ((tracks_readHeader fits).bind fun header => ?_) (tracks_pure _)
    cases header.argument with
    | value tag => exact ih.bind fun _ => tracks_pure _
    | indefinite => exact ih

theorem tracks_readTags : Tracks data (readTags limit data) Cursor.readTags :=
  tracks_rounds fun count => tracks_tagRounds fits (count + 1)

theorem tracks_chunkRounds (major : UInt8) (rounds : Nat) :
    Tracks data (chunkRounds limit data major rounds) (Cursor.chunksBehind major rounds) := by
  induction rounds with
  | zero => exact tracks_report _
  | succ rounds ih =>
    refine (tracks_readHeader fits).bind fun chunk => .ite (tracks_pure _) ?_
    cases chunk.argument with
    | value length =>
      exact .ite ((tracks_takeLength fits length).bind fun _ => ih.bind fun _ => tracks_pure _) (tracks_report _)
    | indefinite => exact tracks_report _

theorem tracks_readPayload (parts : HeaderParts) :
    Tracks data (readPayload limit data parts) (Cursor.payloadBehind parts) := by
  rcases parts with ⟨initial, major, info, argument⟩
  cases argument with
  | value length => exact (tracks_takeLength fits length).bind fun _ => tracks_pure _
  | indefinite =>
    exact tracks_rounds fun count => (tracks_chunkRounds fits major (count + 1)).bind fun _ => tracks_pure _

theorem tracks_skipContent (pending : Cursor.Pending) (header : Header) :
    Tracks data (skipContent limit data pending header) (Cursor.skipContent pending header) := by
  unfold skipContent Cursor.skipContent
  generalize header.major = major
  generalize header.argument = argument
  cases major with
  | bytes | text =>
    cases argument with
    | value length => exact ((tracks_takeLength fits length).map _).bind fun _ => tracks_pure _
    | indefinite => exact tracks_pure _
  | map =>
    cases argument with
    | value count => exact .ite (tracks_pure _) (tracks_report _)
    | indefinite => exact tracks_pure _
  | simple =>
    cases argument with
    | value => exact tracks_pure _
    | indefinite => exact tracks_report _
  | unsigned | negative | array | tag => cases argument <;> exact tracks_pure _

theorem tracks_skipHead (pending : Cursor.Pending) :
    Tracks data (skipHead limit data pending) (Cursor.skipHead pending) := by
  rw [Cursor.skipHead_eq]
  exact ((tracks_readTags fits).map _).bind fun _ => (tracks_readHeader fits).bind (tracks_skipContent fits pending)

theorem tracks_skipRound (pending : Cursor.Pending) :
    Tracks data (skipRound limit data pending) (Cursor.skipRound pending) := by
  match pending with
  | some 0 :: outer => exact tracks_pure _
  | some (count + 1) :: outer => exact tracks_skipHead fits _
  | none :: outer => exact (tracks_tryBreak fits).bind fun closed => .ite (tracks_pure _) (tracks_skipHead fits _)
  | [] => exact tracks_skipHead fits []

theorem tracks_skipRounds (rounds : Nat) (pending : Cursor.Pending) :
    Tracks data (skipRounds limit data rounds pending) (Cursor.skipRounds rounds pending) := by
  induction rounds generalizing pending with
  | zero => exact tracks_report _
  | succ rounds ih =>
    refine (tracks_skipRound fits pending).bind fun left => ?_
    cases left with
    | none => exact tracks_pure _
    | some pending => exact ih pending

theorem tracks_skipItem : Tracks data (skipItem limit data) Cursor.skipItem :=
  tracks_rounds fun count => tracks_skipRounds fits (2 * count + 1) []

end Indexed
end
end TypedCbor
