import EngineKit.Lib.LastAnswer
import EngineKit.Lib.LinkTree
import EngineKit.Lib.Topmost
import EngineKit.Lib.LittleEndian
import EngineKit.Lib.Align
import EngineKit.Lib.Truncation
import EngineKit.Lib.FirstMatch
import EngineKit.Lib.FramedLog
import EngineKit.Lib.Reach
import EngineKit.Lib.Patch
import EngineKit.Lib.Records
import EngineKit.Lib.NativeWords
import EngineKit.Lib.SparseSet
import EngineKit.Lib.DepOrder
import EngineKit.Lib.Levels
import EngineKit.Lib.Reorder
import EngineKit.Lib.Ring
import EngineKit.Lib.Runs
import EngineKit.Lib.BitScan
import EngineKit.Sync.Packet
import EngineKit.Sync.Wal
import EngineKit.Sync.WalFacts
import EngineKit.Sync.Live
import EngineKit.Sync.Torn
import EngineKit.Sync.Replicator
import EngineKit.Sync.Script
import EngineKit.Sync.Calls
import EngineKit.Sync.Opened
import EngineKit.Sync.Durable
import EngineKit.Sync.Restart
import EngineKit.Sync.Sessions
import EngineKit.Sync.Order
import EngineKit.Sync.Link
import EngineKit.Sync.Delivery
import EngineKit.Sync.Coalesce
import EngineKit.Sync.Wire
import EngineKit.Sync.Compact
import EngineKit.Sync.Attach
import EngineKit.Sync.Envelope
import EngineKit.Sync.Books
import EngineKit.Sync.Outgoing
import EngineKit.Ui.Paint
import EngineKit.Ui.Components
import EngineKit.Ui.Text
import EngineKit.Ui.Tree
import EngineKit.Ui.Slots
import EngineKit.Ui.Shape
import EngineKit.Ui.Mutations
import EngineKit.Ui.Commands
import EngineKit.Ui.TreeRuns
import EngineKit.Ui.TreeLaws
import EngineKit.Ui.DirtyFlags
import EngineKit.Ui.LayoutRuns
import EngineKit.Ui.Boxes
import EngineKit.Ui.Walk
import EngineKit.Ui.Painted
import EngineKit.Ui.Input
import EngineKit.Ui.PaintErrors
import EngineKit.Ui.Dirty
import EngineKit.Ui.Batches
import EngineKit.Ui.Subsystem
import EngineKit.Ui.Shader
import EngineKit.Ui.Encoded
import EngineKit.Ui.Exact
import EngineKit.Ui.Wrapping
import EngineKit.Ui.Focus
import EngineKit.Ui.Siblings
import EngineKit.Ui.OutOfFlow
import EngineKit.Ui.Clips
import EngineKit.Render.SlotTable
import EngineKit.Render.Mesh
import EngineKit.Render.MeshIndices
import EngineKit.Render.Budget
import EngineKit.Render.World
import EngineKit.Render.Upload
import EngineKit.Render.Decoded
import EngineKit.Render.Staging
import EngineKit.Render.Present
import EngineKit.Render.Draws
import EngineKit.Render.Renderer
import EngineKit.Render.Mirror
import EngineKit.Render.Frames
import EngineKit.Render.Pipeline
import EngineKit.Ecs.Bitset
import EngineKit.Ecs.Entity
import EngineKit.Ecs.Handles
import EngineKit.Ecs.Storage
import EngineKit.Ecs.World
import EngineKit.Ecs.Alive
import EngineKit.Ecs.Presence
import EngineKit.Ecs.Query
import EngineKit.Schedule.Toposort
import EngineKit.Schedule.Waves
import EngineKit.Schedule.Serial
import EngineKit.Bus.Ring
import EngineKit.Bus.MessageBus
import EngineKit.Bus.Delivery
import EngineKit.Bus.Refused
import EngineKit.Bus.Spsc
import EngineKit.Core.Registry
import EngineKit.Core.Kernel
import EngineKit.Core.Lifecycle
import EngineKit.Core.Restart
import EngineKit.Core.Contents
import EngineKit.Window.Headless
import EngineKit.Window.Resize
import EngineKit.Threads.ThreadPool
import EngineKit.Threads.Books
import EngineKit.Threads.WaitIdle
import EngineKit.Threads.Wakeup
import EngineKit.Threads.Wave
import EngineKit.Mem.Pool
import EngineKit.Mem.PoolRuns
import EngineKit.Mem.Arena
import EngineKit.Threads.Barrier
import EngineKit.Threads.Rounds
import EngineKit.Vulkan.Swapchain
import EngineKit.Vulkan.WorldUpload
import EngineKit.Vulkan.WorldShader
import EngineKit.Vulkan.Policy
import EngineKit.Vulkan.Device
import EngineKit.Vulkan.Engine
import EngineKit.Vulkan.Surface
import EngineKit.Vulkan.Calls
import EngineKit.Vulkan.Frame
import EngineKit.Vulkan.Fences
import EngineKit.Vulkan.WorldBuffer
import EngineKit.Vulkan.Acquired
import EngineKit.Platform.IoUring
import EngineKit.Platform.RingRuns
import EngineKit.Platform.Iocp
import EngineKit.Lib.Answers
import EngineKit.Ecs.EntryMap
import EngineKit.Ecs.Inserted
import EngineKit.Ecs.Deferred
import EngineKit.Lib.Checksum
import EngineKit.Sync.Corrupt
import EngineKit.Sync.Refusals
import EngineKit.Sync.Repair
import EngineKit.Lib.FileSystem
import EngineKit.Sync.TempFile
import EngineKit.Lib.Ascending
import EngineKit.Lib.Collect
import EngineKit.Input.Snapshot
import EngineKit.Input.Edges
import EngineKit.Input.Folds
import EngineKit.Physics.Integrate
import EngineKit.Sync.Retries
import EngineKit.Ecs.Superset
import EngineKit.Audio.Voices
import EngineKit.Platform.CpuList
import EngineKit.Bus.Drops
import EngineKit.Ui.Atlas
import EngineKit.Trace.FrameTracer
import EngineKit.Scripting.Life
import EngineKit.Rubik.Solve
import EngineKit.Sudoku.Game
import EngineKit.Threads.Shutdown
import EngineKit.Bus.Outbox
import EngineKit.Mem.Bump
import EngineKit.Voxel.Finite
import EngineKit.Voxel.Settling
