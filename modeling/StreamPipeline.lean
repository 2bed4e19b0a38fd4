import StreamPipeline.Merge.Fsm
import StreamPipeline.Merge.Late
import StreamPipeline.Lib.Decimal
import StreamPipeline.Lib.Lines
import StreamPipeline.Merge.Segments
import StreamPipeline.Store.Base64
import StreamPipeline.Store.Format
import StreamPipeline.Lib.Probing
import StreamPipeline.Store.Index
import StreamPipeline.Store.Compact
import StreamPipeline.Store.Faults
import StreamPipeline.Codec.Jsonl
import StreamPipeline.Store.Main
import StreamPipeline.Store.Refinement
import StreamPipeline.Store.Frame
import StreamPipeline.Lib.Json
import StreamPipeline.Lib.JsonTokens
import StreamPipeline.Codec.Reader
import StreamPipeline.Merge.Emit
import StreamPipeline.Merge.Keys
import StreamPipeline.Lib.Files
import StreamPipeline.Lib.Runs
import StreamPipeline.Store.Processes
import StreamPipeline.Store.Concurrent
import StreamPipeline.Merge.Reader
import StreamPipeline.Merge.Watch
import StreamPipeline.Merge.Handoff
import StreamPipeline.Lib.DynamicBuffer
import StreamPipeline.Merge.Drain
import StreamPipeline.Store.Lookup
import StreamPipeline.Store.Torn
import StreamPipeline.Lib.Stdio
import StreamPipeline.Store.Buffered
import StreamPipeline.Parse.Filter
import StreamPipeline.Parse.Agree
import StreamPipeline.Parse.Main
import StreamPipeline.Pipeline.Downstream
import StreamPipeline.Dispatch.World
import StreamPipeline.Dispatch.Plumbing
import StreamPipeline.Dispatch.Supervise
import StreamPipeline.Dispatch.Terminate
import StreamPipeline.Buffer.Calls
import StreamPipeline.Lib.Stores
import StreamPipeline.Store.Base64Memory
import StreamPipeline.Lib.Binary64
import StreamPipeline.Lib.Strtod
import StreamPipeline.Parse.Aggregate
import StreamPipeline.Store.Decompress
import StreamPipeline.Store.Buckets
import StreamPipeline.Dispatch.Options
import StreamPipeline.Lib.Csv
import StreamPipeline.Parse.Csv
import StreamPipeline.Lib.Distinct
import StreamPipeline.Merge.Tags
import StreamPipeline.Lib.Tokens
import StreamPipeline.Parse.Fields
import StreamPipeline.Parse.Verdict
import StreamPipeline.Lib.Getopt
import StreamPipeline.Store.Arguments
import StreamPipeline.Parse.Applet
import StreamPipeline.Dispatch.Config
import StreamPipeline.Parse.Compose
import StreamPipeline.Pipeline.Box
import StreamPipeline.Merge.Output
import StreamPipeline.Pipeline.EndToEnd
import StreamPipeline.Store.Linear
import StreamPipeline.Store.Observe
import StreamPipeline.Store.Moment
import StreamPipeline.Merge.Liveness
import StreamPipeline.Lib.Pipes
import StreamPipeline.Pipeline.Flow
import StreamPipeline.Dispatch.Return
import StreamPipeline.Merge.Inotify
import StreamPipeline.Lib.Blocks
import StreamPipeline.Store.Memory
import StreamPipeline.Store.Ownership
import StreamPipeline.Store.Released
import StreamPipeline.Store.Walks
import StreamPipeline.Store.Overrun
import StreamPipeline.Store.Ingest
