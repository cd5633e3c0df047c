import Spitfire.Transition.Run
import Spitfire.Transition.Trace
import Spitfire.Transition.Carrier
import Spitfire.Regex.Language
import Spitfire.Ice.Parser
import Spitfire.Ice.Line
import Spitfire.Ice.Numbers
import Spitfire.Ice.Acceptance
import Spitfire.Ice.Candidate
import Spitfire.Ice.Address
import Spitfire.Regex.Priority
import Spitfire.Regex.Effort
import Spitfire.Ice.Reading
import Spitfire.Ice.TokenBoundaries
import Spitfire.Ice.AddressSoundness
import Spitfire.Ice.Serialization
import Spitfire.Conductor.Operations
import Spitfire.Conductor.Registry
import Spitfire.Conductor.ChannelRuns
import Spitfire.Conductor.Initialization
import Spitfire.Conductor.Session
import Spitfire.Conductor.TeardownRace
import Spitfire.Conductor.Negotiation
import Spitfire.Conductor.Handshake
import Spitfire.Conductor.HandshakeTurns
import Spitfire.Conductor.HandshakeAgreement
import Spitfire.Conductor.HandshakeProgress
import Spitfire.Conductor.LabelIsolation
import Spitfire.Conductor.Conversation
import Spitfire.Conductor.LargeMessages
import Spitfire.Conductor.Trickle
import Spitfire.Conductor.Glare
import Spitfire.Conductor.Outcomes
import Spitfire.Conductor.ChannelRace
import Spitfire.Conductor.ChannelRaceSafety
import Spitfire.Conductor.Reentrancy
import Spitfire.Conductor.ReentrancySafety
import Spitfire.Observers.RefCount
import Spitfire.Utils.DataChannelUtils
import Spitfire.Utils.Chunking
import Spitfire.Conductor.Lifecycle
import Spitfire.Conductor.TeardownCompleteness
import Spitfire.Conductor.Directory
import Spitfire.Conductor.Callbacks
import Spitfire.Conductor.Traffic
import Spitfire.Conductor.Dependencies
import Spitfire.Conductor.DependencySafety
import Spitfire.Conductor.Isolation
import Spitfire.Conductor.Ownership
import Spitfire.Buffer.Carry
import Spitfire.Utils.CopyLoops
import Spitfire.Utils.Bounds
import Spitfire.Buffer.Links
import Spitfire.Rtc.Logging
import Spitfire.Rtc.Servers
import Spitfire.Rtc.DataChannels
import Spitfire.Rtc.Delegates
import Spitfire.Ice.Foundations
import Spitfire.Ice.Context
import Spitfire.Ice.Attributes
import Spitfire.Ice.NormalForm
import Spitfire.Ice.Description
import Spitfire.Ice.Backtracking
import Spitfire.Ice.Events
