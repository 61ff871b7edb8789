import AeroNyra.Calls.Isolation
import AeroNyra.Coordinator.Announcing
import AeroNyra.Coordinator.Beacons
import AeroNyra.Coordinator.Blocking
import AeroNyra.Coordinator.Convergence
import AeroNyra.Coordinator.Departures
import AeroNyra.Coordinator.Greeting
import AeroNyra.Coordinator.Lengths
import AeroNyra.Coordinator.Outflow
import AeroNyra.Coordinator.Receipts
import AeroNyra.Coordinator.Recognition
import AeroNyra.Enrollment.Atomic
import AeroNyra.Enrollment.Denylist
import AeroNyra.Enrollment.Exclusion
import AeroNyra.Enrollment.SingleUse
import AeroNyra.Inbox.Acknowledged
import AeroNyra.Inbox.Duplicates
import AeroNyra.Lib.BitWindow
import AeroNyra.Lib.Stream
import AeroNyra.Media.Bodies
import AeroNyra.Media.Completion
import AeroNyra.Media.Retry
import AeroNyra.PushToTalk.AudioChannel
import AeroNyra.PushToTalk.LinkLoss
import AeroNyra.PushToTalk.PeerRows
import AeroNyra.PushToTalk.Playable
import AeroNyra.PushToTalk.Silence
import AeroNyra.PushToTalk.VerifiedGate
import AeroNyra.Router.Inbound
import AeroNyra.Router.LoopFree
import AeroNyra.Router.Reroute
import AeroNyra.Router.Timers
import AeroNyra.Session.Replacement
import AeroNyra.Transport.Acceptance
import AeroNyra.Transport.Deliverable
import AeroNyra.Transport.EventLedger
import AeroNyra.Transport.LinkLocal
import AeroNyra.Transport.Links
import AeroNyra.Transport.NotifyQueue
import AeroNyra.Transport.Resync
import AeroNyra.Transport.SelfHealing
import AeroNyra.Transport.Subscribers
import AeroNyra.Transport.WriteQueue
import AeroNyra.Wipe.ContentView
import AeroNyra.Wipe.EmergencyWipe
import AeroNyra.Wipe.Rebuild
import AeroNyra.Coordinator.SharedBuffers
import AeroNyra.Enrollment.Unblock
import AeroNyra.Session.TrialOpen
import AeroNyra.Inbox.Ephemerality
import AeroNyra.Inbox.Reaper
import AeroNyra.Inbox.BoundedLife
import AeroNyra.Lib.Base64
import AeroNyra.Nostr.ChaCha20
import AeroNyra.Nostr.NIP44
import AeroNyra.Lib.PrefixCode
import AeroNyra.Nostr.EventJSON
import AeroNyra.Nostr.Wrapping
import AeroNyra.Enrollment.Wire
import AeroNyra.Enrollment.Tables
import AeroNyra.Transport.Ladder
import AeroNyra.Transport.PublishQueue
import AeroNyra.Media.Configurations
import AeroNyra.Calls.Driving
import AeroNyra.PushToTalk.Hold
import AeroNyra.Session.BeaconStore
import AeroNyra.Session.FailedWrite
import AeroNyra.Enrollment.InviteText
import AeroNyra.Session.InboundOpen
import AeroNyra.Enrollment.InviteDamage
import AeroNyra.Transport.WriteEngine
import AeroNyra.Transport.DeadLink
import AeroNyra.Transport.OneInFlight
import AeroNyra.Transport.AudioRings
import AeroNyra.Transport.NotifyRings
import AeroNyra.Transport.Refusals
import AeroNyra.PushToTalk.JitterBuffer
import AeroNyra.PushToTalk.Playing
import AeroNyra.Nostr.Canonical
import AeroNyra.Lib.Unicode
import AeroNyra.Nostr.Hexadecimal
import AeroNyra.PushToTalk.FrameOpener
import AeroNyra.PushToTalk.FrameSlicer
import AeroNyra.Session.BundleWire
import AeroNyra.Session.WordPhrase
import AeroNyra.Nostr.NIP19
import AeroNyra.Router.Covering
import AeroNyra.Calls.Consent
import AeroNyra.Identity.Boot
import AeroNyra.AtRest.Vault
import AeroNyra.AtRest.SealedStores
import AeroNyra.Identity.Nostr
import AeroNyra.PushToTalk.SessionOwner
import AeroNyra.PushToTalk.Press
import AeroNyra.Identity.Phases
import AeroNyra.Session.FlatRecords
import AeroNyra.Transport.Connection
