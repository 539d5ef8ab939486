import ChatServer.Heap
import ChatServer.Simulation
import ChatServer.LinkedQueue
import ChatServer.ByteString
import ChatServer.Io
import ChatServer.Transfers
import ChatServer.Protocol
import ChatServer.ServerState
import ChatServer.Broadcast
import ChatServer.Command
import ChatServer.Reader
import ChatServer.ServerLoop
import ChatServer.Room
import ChatServer.History
import ChatServer.ReadTurn
import ChatServer.Seat
import ChatServer.Writing
import ChatServer.Quiet
import ChatServer.Outbox
import ChatServer.Beats
import ChatServer.Serving
import ChatServer.Decoder
import ChatServer.Bystander
import ChatServer.Isolation
import ChatServer.Accumulate
import ChatServer.Parsing
import ChatServer.Hearing
import ChatServer.Refinement
import ChatServer.WriteRefinement
import ChatServer.BroadcastRefinement
import ChatServer.CommandRefinement
import ChatServer.ReadRefinement
import ChatServer.Progress
import ChatServer.LoopRefinement
import ChatServer.ReapRefinement
import ChatServer.Idle
import ChatServer.Moves
import ChatServer.RunRefinement
import ChatServer.Sweep
import ChatServer.ReapPass
import ChatServer.Decoding
import ChatServer.Separation
import ChatServer.Handover
import ChatServer.Answers
import ChatServer.Conversation
import ChatServer.Listings
import ChatServer.NameCycle
import ChatServer.BinaryChat
import ChatServer.EndOfStream
import ChatServer.QueueInvariant
import ChatServer.Ownership
import ChatServer.Delivery
import ChatServer.FrameIntegrity
import ChatServer.Terminal
import ChatServer.Wakeup
import ChatServer.Farewell
import ChatServer.ClientMain
import ChatServer.TypedLines
import ChatServer.Blame
import ChatServer.Parting
import ChatServer.ClientListen
import ChatServer.Listening
import ChatServer.Notices
import ChatServer.Stranding
import ChatServer.Locks
import ChatServer.Ledger
import ChatServer.Cleanup
import ChatServer.Rounds
import ChatServer.ShutdownCause
import ChatServer.Screen
import ChatServer.EndToEnd
import ChatServer.Redirect
import ChatServer.ReaderBounds
import ChatServer.Framing
import ChatServer.ClientProcess
import ChatServer.Records
import ChatServer.Targets
import ChatServer.Whisper
import ChatServer.Independence
import ChatServer.Assembly
import ChatServer.BlockCalls
import ChatServer.ReadLoop
import ChatServer.Safety
import ChatServer.Startup
import ChatServer.Draining
import ChatServer.Packets
