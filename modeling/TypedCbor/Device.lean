import TypedCbor.Error

namespace TypedCbor

structure Sink where
  -- How many more bytes fit, if that is bounded.
  room : Option Nat
  taken : Bytes := []
  deriving DecidableEq, Repr

structure Source where
  content : Bytes
  -- How many bytes it gives before it fails, if it does.
  failsAfter : Option Nat
  deriving DecidableEq, Repr

def Sink.write (sink : Sink) (bytes : Bytes) : Except Error Sink :=
  match sink.room with
  | none => .ok { sink with taken := sink.taken ++ bytes }
  | some room =>
    if bytes.length ≤ room then .ok ⟨some (room - bytes.length), sink.taken ++ bytes⟩
    else .error (.device .sinkFull)

-- Reading goes on until nothing more comes, so a source that fails after its last byte fails too.
def Source.readToEnd (source : Source) : Except Error Bytes :=
  match source.failsAfter with
  | none => .ok source.content
  | some limit =>
    if limit ≤ source.content.length then .error (.device .readFailed) else .ok source.content

end TypedCbor
