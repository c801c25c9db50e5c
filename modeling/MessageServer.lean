import MessageServer.EffectProg
import MessageServer.Util
import MessageServer.Entry
import MessageServer.FileSystem
import MessageServer.Dbms
import MessageServer.NetUtil
import MessageServer.Services
import MessageServer.Transfer
import MessageServer.EntryIo
import MessageServer.ErasedNodes
import MessageServer.Removal
import MessageServer.RemovalProgress
import MessageServer.Calls
import MessageServer.TableBuilding
import MessageServer.TableCreation
import MessageServer.Requests
import MessageServer.Confine
import MessageServer.Schema
import MessageServer.Executions
import MessageServer.Isolation
import MessageServer.Quiet
import MessageServer.FailedConnect
import MessageServer.Incomplete
import MessageServer.Transition
import MessageServer.ConnQueue
import MessageServer.WakeUps
import MessageServer.Client
import MessageServer.RequestWire
import MessageServer.ClientWire
import MessageServer.Content
import MessageServer.Handlers
import MessageServer.FailedSend
import MessageServer.Registration
import MessageServer.Interleaving
import MessageServer.RegisterSteps
import MessageServer.RegisterRace
import MessageServer.Account
import MessageServer.EntryCalls
import MessageServer.AccountCalls
import MessageServer.Outcomes
import MessageServer.Served
import MessageServer.Histories
import MessageServer.Counter
import MessageServer.Status
import MessageServer.SharedRecord
import MessageServer.SessionMoves
import MessageServer.Sessions
import MessageServer.Footprint
import MessageServer.DrainSteps
import MessageServer.Drains
import MessageServer.SendPhases
import MessageServer.FirstAck
import MessageServer.RecordCounts
import MessageServer.Numbering
import MessageServer.MessageIds
import MessageServer.ClientReply
import MessageServer.PartialMap
import MessageServer.EntryStore
import MessageServer.Erasure
import MessageServer.Posts
import MessageServer.DeliveryOrder
import MessageServer.Bookkeeping
import MessageServer.ReadBack
import MessageServer.FailedWrite
import MessageServer.FoundMessage
import MessageServer.ConnectDecision
import MessageServer.ExactRemoval
import MessageServer.Formats
import MessageServer.Unreachable
import MessageServer.Mailbox
import MessageServer.Transmission
import MessageServer.Delivery
import MessageServer.Redelivery
import MessageServer.Attributes
import MessageServer.Undisturbed
import MessageServer.ReadLine
import MessageServer.Numerals
import MessageServer.ReceiveString
import MessageServer.Listener
import MessageServer.TransferLoop
import MessageServer.TransferLoops
import MessageServer.FileTransfers
import MessageServer.IssueMoves
import MessageServer.ConcurrentIds
import MessageServer.Standings
import MessageServer.Stranded
import MessageServer.TableTags
import MessageServer.WholeTables
import MessageServer.PartialRun
import MessageServer.Parallel
import MessageServer.Stalling
import MessageServer.Lifecycle
import MessageServer.AddressRecords
import MessageServer.AddressThreads
import MessageServer.Addresses
import MessageServer.WireSessions
import MessageServer.JointSystem
import MessageServer.Agreement
import MessageServer.AgreementRuns
import MessageServer.SocketPhases
import MessageServer.SocketServices
import MessageServer.SocketHistory
import MessageServer.Descriptors
import MessageServer.Sockets
import MessageServer.Shell
import MessageServer.Editing
import MessageServer.EditHistories
import MessageServer.Edits
import MessageServer.Relays
import MessageServer.Provenance
import MessageServer.WebService
