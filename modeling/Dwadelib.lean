import Dwadelib.Run
import Dwadelib.Keyed
import Dwadelib.Memory
import Dwadelib.Memory.Word
import Dwadelib.Memory.Loop
import Dwadelib.Memory.Copied
import Dwadelib.Format
import Dwadelib.Cells
import Dwadelib.Ring
import Dwadelib.Simulation
import Dwadelib.BoundedQueue
import Dwadelib.While
import Dwadelib.CInt
import Dwadelib.CString
import Dwadelib.Traced
import Dwadelib.Slices
import Dwadelib.Circular
import Dwadelib.Circular.Rings
import Dwadelib.Linked
import Dwadelib.Linked.Lists
import Dwadelib.Linked.Rules
import Dwadelib.Linked.Walk
import Dwadelib.Occurrence
import Dwadelib.Border
import Dwadelib.Brackets
import Dwadelib.Announced
import Dwadelib.Utf8
import Dwadelib.Tally
import Dwadelib.Ipc.Param
import Dwadelib.Ipc.Param.Types
import Dwadelib.Ipc.Message
import Dwadelib.Ipc.Convert
import Dwadelib.Ipc.Convert.Encode
import Dwadelib.Ipc.Convert.Decode
import Dwadelib.Ipc.Convert.RoundTrip
import Dwadelib.Ipc.Convert.Bounds
import Dwadelib.Ipc.Convert.Passes
import Dwadelib.Ipc.Convert.Declared
import Dwadelib.Ipc.Transport
import Dwadelib.Ipc.CallbackList
import Dwadelib.Ipc.Server
import Dwadelib.Ipc.Server.Receive
import Dwadelib.Ipc.Server.Answer
import Dwadelib.Ipc.Server.Delivery
import Dwadelib.Ipc.Server.Isolation
import Dwadelib.Ipc.Server.Pending
import Dwadelib.Ipc.Server.Push
import Dwadelib.Ipc.Client
import Dwadelib.Ipc.Client.Search
import Dwadelib.Ipc.Client.Step
import Dwadelib.Ipc.Client.Access
import Dwadelib.Ipc.Client.Outstanding
import Dwadelib.Ipc.Client.Registration
import Dwadelib.Ipc.Client.Output
import Dwadelib.Ipc.Client.Output.Copy
import Dwadelib.Ipc.Client.Output.Asynchronous
import Dwadelib.Ipc.Client.Output.Synchronous
import Dwadelib.Ipc.Client.Output.Arrival
import Dwadelib.Ipc.Client.Output.Transfer
import Dwadelib.Ipc.Client.Output.Offered
import Dwadelib.Ipc.System
import Dwadelib.Ipc.System.Serving
import Dwadelib.Ipc.System.Wakeup
import Dwadelib.Ipc.System.Correlation
import Dwadelib.Ipc.System.Session
import Dwadelib.Ipc.System.Answered
import Dwadelib.Ipc.NodeList
import Dwadelib.Ipc.NodeList.Operations
import Dwadelib.Ipc.NodeList.Refinement
import Dwadelib.Base.Ringbuf
import Dwadelib.Base.Ringbuf.Refinement
import Dwadelib.Base.Ringbuf.Accounting
import Dwadelib.Base.ListMsg
import Dwadelib.Base.ListMsg.Links
import Dwadelib.Base.ListMsg.Sequence
import Dwadelib.Base.ListMsg.Refinement
import Dwadelib.Base.ListMsg.Swap
import Dwadelib.KernelList
import Dwadelib.KernelList.Operations
import Dwadelib.KernelList.Refinement
import Dwadelib.KernelList.Persons
import Dwadelib.Descriptors
import Dwadelib.Popen
import Dwadelib.Popen.Steps
import Dwadelib.Popen.Ends
import Dwadelib.Popen.Streams
import Dwadelib.Popen.Commands
import Dwadelib.Popen.Groups
import Dwadelib.Popen.Wiring
import Dwadelib.Popen.Room
import Dwadelib.Seekable
import Dwadelib.Dram
import Dwadelib.Dram.Serving
import Dwadelib.FileView
import Dwadelib.FileView.Numerals
import Dwadelib.FileView.Lines
import Dwadelib.FileView.Navigation
import Dwadelib.FileView.Drawing
import Dwadelib.FileView.Seeking
import Dwadelib.KeyApp
import Dwadelib.KeyApp.Step
import Dwadelib.KeyApp.Tracking
import Dwadelib.KeyApp.Locking
import Dwadelib.KeyApp.Phase
import Dwadelib.KeyApp.Clicks
import Dwadelib.KeyApp.LongPress
import Dwadelib.KeyApp.Gesture
import Dwadelib.KeyApp.Counters
import Dwadelib.KeyTable
import Dwadelib.KeyTable.Lookups
import Dwadelib.KeyTable.Refinement
import Dwadelib.Wgrep.Sunday
import Dwadelib.Wgrep.Sunday.Search
import Dwadelib.Wgrep.Sunday.Safety
import Dwadelib.Wgrep
import Dwadelib.Wgrep.Lines
import Dwadelib.Wgrep.Reports
import Dwadelib.Character
import Dwadelib.Character.Sequences
import Dwadelib.Character.Inverse
import Dwadelib.Character.Units
import Dwadelib.Character.RoundTrip
import Dwadelib.Character.Progress
import Dwadelib.Character.Buffers
import Dwadelib.Algorithm.Kmp
import Dwadelib.Algorithm.Kmp.Search
import Dwadelib.Algorithm.Kmp.Places
import Dwadelib.Algorithm.Kmp.Borders
import Dwadelib.Grammar
import Dwadelib.Grammar.Balance
import Dwadelib.Grammar.Storage
import Dwadelib.MqTest
import Dwadelib.MqTest.Agreement
import Dwadelib.MqTest.Addressing
import Dwadelib.AmrDuration
import Dwadelib.AmrDuration.Frames
import Dwadelib.AmrDuration.Walk
import Dwadelib.Hex
import Dwadelib.Hex.Writing
import Dwadelib.Hex.Reading
import Dwadelib.Monitor
import Dwadelib.Monitor.Relay
import Dwadelib.Hardware
import Dwadelib.Hardware.Reply
import Dwadelib.Hardware.Report
import Dwadelib.Hardware.Lines
import Dwadelib.Hardware.Marks
import Dwadelib.Hardware.Serials
import Dwadelib.Hardware.Identity
import Dwadelib.Hardware.Addresses
import Dwadelib.Threads
import Dwadelib.Semaphore
