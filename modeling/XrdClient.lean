import XrdClient.Lib.Bytes
import XrdClient.Lib.Loop
import XrdClient.Lib.Assoc
import XrdClient.Lib.Log
import XrdClient.Proto.Wire
import XrdClient.Proto.Responses
import XrdClient.Auth.Select
import XrdClient.Crypto.Sigver
import XrdClient.Proto.Requests
import XrdClient.Proto.Machine
import XrdClient.Proto.Receive
import XrdClient.Proto.Framing
import XrdClient.Proto.Sync
import XrdClient.Proto.Run
import XrdClient.Proto.Bounds
import XrdClient.Proto.TlsPolicy
import XrdClient.Proto.TlsBoundary
import XrdClient.Proto.Streams
import XrdClient.Proto.World
import XrdClient.Proto.Pool
import XrdClient.Proto.Endings
import XrdClient.Proto.Ledger
import XrdClient.Proto.Attribution
import XrdClient.Session.Lead
import XrdClient.Lib.Act
import XrdClient.Session.Bulk
import XrdClient.Session.BulkFrames
import XrdClient.Session.BulkSettle
import XrdClient.Session.Shared
import XrdClient.Session.Mailboxes
import XrdClient.Session.Torn
import XrdClient.Session.PoolKey
import XrdClient.Session.Replay
import XrdClient.Lib.Extent
import XrdClient.Copy.Plan
import XrdClient.Copy.Verify
import XrdClient.Copy.Move
import XrdClient.Copy.Transfer
import XrdClient.Copy.Landed
import XrdClient.Copy.Success
import XrdClient.Copy.OpenStream
import XrdClient.Copy.Cleanup
import XrdClient.Copy.Exclusive
import XrdClient.Copy.ThirdParty
import XrdClient.Copy.Targets
import XrdClient.Client.Append
import XrdClient.Client.Fanout
import XrdClient.Client.Parallel
import XrdClient.Copy.Replicas
import XrdClient.Copy.Tree
import XrdClient.Proto.Encoders
import XrdClient.Proto.OneFormat
import XrdClient.Proto.Outgoing
import XrdClient.Proto.Signed
import XrdClient.Session.Answer
import XrdClient.Session.Discipline
import XrdClient.Session.SendOrder
import XrdClient.Session.Sequence
import XrdClient.Copy.Dropped
import XrdClient.Client.Glob
import XrdClient.Client.RemoveTree
import XrdClient.Copy.Inside
import XrdClient.Copy.Verified
import XrdClient.Lib.Crc32
import XrdClient.Lib.Decoder
import XrdClient.Zip.MemberIO
import XrdClient.Zip.PlainFile
import XrdClient.Client.Batches
import XrdClient.Http.RawIO
import XrdClient.Http.Upload
import XrdClient.Lib.Landed
import XrdClient.Lib.Logged
import XrdClient.Lib.Pipeline
import XrdClient.S3.Listing
import XrdClient.S3.Parts
import XrdClient.Session.Into
import XrdClient.Session.Streamed
import XrdClient.Session.Writes
import XrdClient.Lib.Grid
import XrdClient.Client.Kept
import XrdClient.Client.PgWrite
import XrdClient.Client.Readahead
import XrdClient.Client.Sizes
import XrdClient.Client.Stored
import XrdClient.Copy.LocalReader
import XrdClient.Io.LocalFile
import XrdClient.Io.Raw
import XrdClient.Io.Refinement
import XrdClient.Lib.Pieces
import XrdClient.Proto.Agreed
import XrdClient.Proto.Parsers
import XrdClient.Proto.Resend
import XrdClient.Session.Tried
import XrdClient.Client.Vector
import XrdClient.Client.VectorCodec
import XrdClient.Transport.Send
import XrdClient.Urls.InStep
import XrdClient.Urls.RoundTrip
import XrdClient.Lib.Alternate
import XrdClient.Session.Written
import XrdClient.Transport.Dial
import XrdClient.Lib.Filed
import XrdClient.Client.Readv
import XrdClient.Http.Reading
import XrdClient.Proto.Checkpointed
import XrdClient.Client.Checkpoint
import XrdClient.Copy.Rendezvous
import XrdClient.Copy.Closing
import XrdClient.Copy.Order
