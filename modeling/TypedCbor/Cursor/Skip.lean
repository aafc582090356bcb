import TypedCbor.Cursor

namespace TypedCbor.Cursor

-- How many items each open structure still lacks, innermost first; one of open length lacks an
-- unknown number.
abbrev Pending := List (Option Nat)

def settled (pending : Pending) : Option Pending := if pending.isEmpty then none else some pending

def skipHead (pending : Pending) : ReadM (Option Pending) := do
  discard readTags
  let header ← readHeader
  match header.major, header.argument with
  | .bytes, .value length | .text, .value length =>
    discard (take length.toNat)
    return settled pending
  | .bytes, .indefinite | .text, .indefinite | .array, .indefinite | .map, .indefinite =>
    return settled (none :: pending)
  | .array, .value count => return settled (some count.toNat :: pending)
  | .map, .value count =>
    if 2 * count.toNat < UInt64.size then return settled (some (2 * count.toNat) :: pending)
    else throw (.malformedHeader header.initial)
  | .simple, .indefinite => throw (.malformedHeader header.initial)
  | _, _ => return settled pending

def skipRound : Pending → ReadM (Option Pending)
  | some 0 :: outer => return settled outer
  | some (count + 1) :: outer => skipHead (some count :: outer)
  | none :: outer => do if ← tryBreak then return settled outer else skipHead (none :: outer)
  | [] => skipHead []

def skipRounds : Nat → Pending → ReadM Unit
  | 0, _ => throw .truncatedInput
  | rounds + 1, pending => do
    match ← skipRound pending with
    | none => return ()
    | some pending => skipRounds rounds pending

-- A round consumes a byte, fails, or closes a counted structure that an earlier byte opened, so
-- these rounds are enough.
def skipItem : ReadM Unit := do skipRounds (2 * (← get).length + 1) []

end TypedCbor.Cursor
