import Turbine.Cache.Budget
import Turbine.Codec.RoundTrip
import Turbine.Codec.ExtraRecord
import Turbine.Codec.Canonical
import Turbine.Codec.Appends
import Turbine.Library.Writer
import Turbine.Handle.Append
import Turbine.Async.Slots
import Turbine.Async.Ring
import Turbine.Async.Lifecycle
import Turbine.Async.Callbacks
import Turbine.Data.CreateNested
import Turbine.Data.Updateable
import Turbine.Mpi.Delivery
import Turbine.DeepWait.Progress
import Turbine.Library.Obligations
import Turbine.App.Retries
import Turbine.App.CommandLine
import Turbine.Stats.Runs
import Turbine.Ranks.Layout
import Turbine.Data.Transparent
import Turbine.Blob.Ownership
import Turbine.MkStatic.Resources
import Turbine.Nested.Enumerate
import Turbine.Cache.Recency
import Turbine.Rule.Orders
import Turbine.Rule.Release
import Turbine.Tcl.Messages
import Turbine.Blob.Transfers
import Turbine.Blob.Strings
import Turbine.Create.StructTypes
import Turbine.Codec.CompoundStores
import Turbine.Library.Traces
import Turbine.Async.Polling
import Turbine.Library.Settlements
import Turbine.Async.NoopRuns
import Turbine.Async.CoasterRuns
import Turbine.Async.Options
import Turbine.Data.Reductions
import Turbine.Data.DistributedRanges
import Turbine.Strings.Substrings
import Turbine.Strings.Fields
import Turbine.Stats.Sequential
import Turbine.MkStatic.Order
import Turbine.Data.Integers
import Turbine.Data.ParseInt
import Turbine.Data.Loops
import Turbine.Checkpoint.Settings
import Turbine.Blob.Arrays
import Turbine.App.Unpack
import Turbine.App.Argv
import Turbine.Gemtc.Worker
import Turbine.Files.Protocol
import Turbine.Library.Dataflow
import Turbine.Dataflow.Builtins
import Turbine.Dataflow.Meaning
import Turbine.Dataflow.Bodies
import Turbine.Dataflow.Runs
import Turbine.Dataflow.Division
import Turbine.Library.Shares
import Turbine.References.Store
import Turbine.References.Shares
import Turbine.References.Builtins
import Turbine.References.Bodies
import Turbine.References.Runs
import Turbine.References.Closing
import Turbine.References.Collection
import Turbine.References.Progress
import Turbine.Library.Refinement
import Turbine.References.Arrays
import Turbine.References.Refinement
import Turbine.References.Simulation
import Turbine.Nested.Structs
