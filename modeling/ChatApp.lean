import ChatApp.Foundation.Program
import ChatApp.Foundation.Interleaving
import ChatApp.Foundation.Delimited
import ChatApp.Foundation.Tally
import ChatApp.Protocol
import ChatApp.Server.State
import ChatApp.Server.Actions
import ChatApp.Server.RoomManager
import ChatApp.Server.ClientStateManager
import ChatApp.Server.ConnectionHandler
import ChatApp.Server.ClientDistributor
import ChatApp.Server.System
import ChatApp.Server.Schedule
import ChatApp.Server.Effects
import ChatApp.Server.Dispatch
import ChatApp.Server.Control
import ChatApp.Server.Routines
import ChatApp.Server.Interference
import ChatApp.Server.RoomInvariant
import ChatApp.Server.HandOff
import ChatApp.Server.Release
import ChatApp.Server.Framing
import ChatApp.Server.Reassembly
import ChatApp.Server.Texts
import ChatApp.Server.Buffers
import ChatApp.Server.Crowding
import ChatApp.Client.Main
import ChatApp.Client.Encoding
import ChatApp.Foundation.Registry
import ChatApp.Server.Ownership
import ChatApp.Server.Epoll
import ChatApp.Server.Gate
import ChatApp.Server.Invariants
import ChatApp.Server.Replies
import ChatApp.Foundation.Broadcast
import ChatApp.Server.Membership
import ChatApp.Server.Chronicle
import ChatApp.Foundation.Locks
import ChatApp.Server.Code
import ChatApp.Server.Discipline
import ChatApp.Foundation.Refinement
import ChatApp.Server.Drafts
import ChatApp.Server.Coupling
import ChatApp.Server.Atomicity
import ChatApp.Server.Delivery
import ChatApp.Foundation.RoundRobin
import ChatApp.Server.Selection
import ChatApp.Server.Listing
import ChatApp.Server.Refused
import ChatApp.Server.Resync
import ChatApp.Server.Sending
import ChatApp.Server.Errno
import ChatApp.Server.Failures
import ChatApp.Client.Agreement
import ChatApp.Server.Ordered
import ChatApp.Client.Following
import ChatApp.Server.Forgery
import ChatApp.Server.Draining
import ChatApp.Foundation.Exchange
import ChatApp.Server.Dialogue
import ChatApp.Server.Conversation
import ChatApp.Client.Alone
import ChatApp.Client.Shutdown
import ChatApp.Foundation.Writers
import ChatApp.Server.Wire
