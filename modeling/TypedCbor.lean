import TypedCbor.Bytes
import TypedCbor.Text.Hex
import TypedCbor.Text.Printable
import TypedCbor.Text.Quoted
import TypedCbor.Ieee
import TypedCbor.Head
import TypedCbor.Shape
import TypedCbor.Error
import TypedCbor.Wire
import TypedCbor.Cursor
import TypedCbor.Cursor.Skip
import TypedCbor.Config
import TypedCbor.Value
import TypedCbor.Ty
import TypedCbor.Encoder
import TypedCbor.Encoder.Value
import TypedCbor.Decoder
import TypedCbor.Decoder.Sequence
import TypedCbor.Decoder.Generic
import TypedCbor.Decoder.Record
import TypedCbor.Decoder.Enumeration
import TypedCbor.Decoder.Typed
import TypedCbor.Device
import TypedCbor.Document
import TypedCbor.Proofs.Outcome
import TypedCbor.Proofs.Item
import TypedCbor.Proofs.Item.Opening
import TypedCbor.Proofs.Item.Outline
import TypedCbor.Proofs.Item.Skip
import TypedCbor.Proofs.ItemReader
import TypedCbor.Proofs.ItemReader.Follows
import TypedCbor.Proofs.Ty
import TypedCbor.Proofs.ItemReader.Structures
import TypedCbor.Proofs.ItemReader.Fields
import TypedCbor.Proofs.ItemReader.Compounds
import TypedCbor.Proofs.ItemReader.Named
import TypedCbor.Proofs.ItemReader.Typed
import TypedCbor.Proofs.Grammar
import TypedCbor.Proofs.Item.Denotation
import TypedCbor.Proofs.Generic
import TypedCbor.Proofs.Skipping
import TypedCbor.Proofs.Item.Unframed
import TypedCbor.Proofs.ItemReader.Blind
import TypedCbor.Proofs.Framing
import TypedCbor.Proofs.Encoding
import TypedCbor.Proofs.Output
import TypedCbor.Proofs.Ieee
import TypedCbor.Proofs.Item.Scalar
import TypedCbor.Proofs.Typing
import TypedCbor.Proofs.Shape
import TypedCbor.Proofs.RoundTrip.Items
import TypedCbor.Proofs.RoundTrip.Compounds
import TypedCbor.Proofs.RoundTrip.Records
import TypedCbor.Proofs.RoundTrip
import TypedCbor.Proofs.Unlisted
import TypedCbor.Proofs.Objects
import TypedCbor.Proofs.Taking
import TypedCbor.Proofs.Taking.Cursor
import TypedCbor.Proofs.Taking.Structures
import TypedCbor.Proofs.Taking.Loops
import TypedCbor.Proofs.Taking.Typed
import TypedCbor.Proofs.Prefixes
import TypedCbor.Proofs.Leniency
import TypedCbor.Proofs.Taking.Settled
import TypedCbor.Proofs.Places
import TypedCbor.Proofs.Places.Resumed
import TypedCbor.Proofs.Places.Loops
import TypedCbor.Proofs.Places.Visited
import TypedCbor.Proofs.Entries
import TypedCbor.Proofs.Entries.Listing
import TypedCbor.Proofs.Entries.Found
import TypedCbor.Proofs.Entries.Order
import TypedCbor.Proofs.Entries.Unknown
import TypedCbor.Proofs.Composition
import TypedCbor.Proofs.Elision
import TypedCbor.Proofs.Item.Defaults
import TypedCbor.Proofs.Lengths
import TypedCbor.Proofs.Acceptance.Scalars
import TypedCbor.Proofs.Acceptance.Structures
import TypedCbor.Proofs.Acceptance.Units
import TypedCbor.Proofs.Acceptance
import TypedCbor.Proofs.Unelided
import TypedCbor.Proofs.DeclaredDefaults
import TypedCbor.Proofs.Permuted
import TypedCbor.Proofs.DeclaredTags
import TypedCbor.Proofs.Bignums
import TypedCbor.Proofs.Fallback
import TypedCbor.Proofs.Octets
import TypedCbor.Proofs.Item.Joined
import TypedCbor.Proofs.Rechunked
import TypedCbor.Proofs.Rechunked.Cursor
import TypedCbor.Proofs.Rechunked.Structures
import TypedCbor.Proofs.Rechunked.Typed
import TypedCbor.Proofs.Chunks.Broken
import TypedCbor.Proofs.Chunks
import TypedCbor.Proofs.Floats
import TypedCbor.Proofs.Integers
import TypedCbor.Proofs.Wrapped
import TypedCbor.Proofs.Embedding
import TypedCbor.Proofs.Closing
import TypedCbor.Proofs.Arity
import TypedCbor.Proofs.Apart
import TypedCbor.Proofs.Rounds
import TypedCbor.Proofs.Indexed
import TypedCbor.Proofs.Positions
import TypedCbor.Proofs.Heads
