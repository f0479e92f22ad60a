import RequestGraph.AppendList.Program
import RequestGraph.Contention
import RequestGraph.Interner.Program
import RequestGraph.SlotTable.Program
import RequestGraph.Proofs.AppendList.Reading
import RequestGraph.Proofs.Cell.Soundness
import RequestGraph.Proofs.Engine.Moves
import RequestGraph.Proofs.Engine.Cells
import RequestGraph.Proofs.Engine.Ending
import RequestGraph.Proofs.Engine.Flow
import RequestGraph.Proofs.Engine.History
import RequestGraph.Proofs.Ownership
import RequestGraph.Proofs.Cell.Lifetime
import RequestGraph.Proofs.Delivery.Registration
import RequestGraph.Proofs.Engine.Calm
import RequestGraph.Proofs.Delivery.Order
import RequestGraph.Proofs.Delivery.ExactlyOnce
import RequestGraph.Proofs.Interner.Indices
import RequestGraph.Proofs.Engine.Contexts
import RequestGraph.Proofs.Request.Placement
import RequestGraph.Proofs.Request.Gathering
import RequestGraph.Proofs.FanIn.Counting
import RequestGraph.Proofs.Request.Cancelling
import RequestGraph.Proofs.FanIn.Signals
import RequestGraph.Proofs.FanIn.Standing
import RequestGraph.Proofs.FanIn.Awaiting
import RequestGraph.Proofs.FanIn.Marking
import RequestGraph.Proofs.FanIn.Setup
import RequestGraph.Proofs.FanIn.Settling
import RequestGraph.Proofs.Request.Holding
import RequestGraph.Proofs.Request.Progress
import RequestGraph.Proofs.Request.Course
import RequestGraph.Proofs.Request.Yank
import RequestGraph.Proofs.Request.Providers
import RequestGraph.Proofs.Request.Jobs
import RequestGraph.Proofs.Request.Memoizing
import RequestGraph.Proofs.Request.Registering
import RequestGraph.Proofs.Engine.Returning
import RequestGraph.Proofs.Delivery.Spreading
import RequestGraph.Proofs.Graph.Rules
import RequestGraph.Proofs.Graph.Tracking
import RequestGraph.Proofs.Graph.Changes
import RequestGraph.Proofs.Graph.Joining
import RequestGraph.Proofs.Graph.Cascade
import RequestGraph.Proofs.Graph.Awaiting
import RequestGraph.Proofs.Graph.Entering
import RequestGraph.Proofs.Graph.Fetching
import RequestGraph.Proofs.Graph.Schedule
import RequestGraph.Proofs.Graph.Opening
import RequestGraph.Proofs.Graph.Evaluation
import RequestGraph.Proofs.Engine.Stock
import RequestGraph.Proofs.Request.Asking
import RequestGraph.Proofs.AppendList.Cursors
import RequestGraph.Proofs.AppendList.Growth
import RequestGraph.Proofs.AppendList.Sequence
import RequestGraph.Proofs.Interner.Cache
import RequestGraph.Proofs.SlotTable.Nesting
import RequestGraph.Proofs.Engine.Grounded
import RequestGraph.Proofs.Request.Finality
import RequestGraph.Proofs.Engine.Sequels
import RequestGraph.Proofs.Delivery.Links
import RequestGraph.Proofs.Delivery.Following
import RequestGraph.Proofs.Delivery.Pipelines
import RequestGraph.Proofs.OrderedMap
import RequestGraph.Proofs.Request.Views
import RequestGraph.Proofs.Request.Lookups
import RequestGraph.Proofs.Engine.Containment
import RequestGraph.Proofs.Request.Panics
import RequestGraph.Proofs.Engine.Queues
import RequestGraph.Proofs.Engine.Executors
import RequestGraph.Proofs.Engine.Threads
import RequestGraph.Proofs.SlotTable.Addresses
import RequestGraph.Proofs.Delivery.Latches
import RequestGraph.Proofs.Delivery.Waiting
