import LicoArc.EncodingLaws
import LicoArc.RecordCompleteness
import LicoArc.CommitOutcome
import LicoArc.Custody
import LicoArc.PendingWork
import LicoArc.Interaction.Trace
import LicoArc.GovernanceSigners
import LicoArc.Identity
import LicoArc.AuthorityRuns
import LicoArc.IdentityPanics
import LicoArc.Messaging
import LicoArc.Reliable
import LicoArc.GroupRoster
import LicoArc.HandlePaths
import LicoArc.EndpointLaws
import LicoArc.Conformance
import LicoArc.FirstPacketWire
import LicoArc.MessageWire
import LicoArc.SignedInputs
import LicoArc.Honest
import LicoArc.Moves
import LicoArc.SameRoute
import LicoArc.Reopen
import LicoArc.Deletion
import LicoArc.Verdicts
import LicoArc.Replay
import LicoArc.FirstPacketRequest
import LicoArc.Teardown
import LicoArc.DigestBinding
import LicoArc.RecordSchemas
import LicoArc.Retransmission
import LicoArc.Aggregation
import LicoArc.ConfirmationRecord
import LicoArc.ReceiveSuccession
import LicoArc.AttachmentChunks
import LicoArc.ChunkRanges
import LicoArc.CanonicalInjectivity
import LicoArc.Bundle
import LicoArc.RecordFraming
import LicoArc.EncodingListing
import LicoArc.RecordConformance
import LicoArc.ProfileIdentity
import LicoArc.FlowIdentity
import LicoArc.Numbering
import LicoArc.StagedReads
import LicoArc.Turns
import LicoArc.Coordinates
import LicoArc.Counterparts
import LicoArc.Interaction.Joint
import LicoArc.SharedKeys
import LicoArc.SessionExchange
import LicoArc.Delivery
import LicoArc.Accounting
import LicoArc.AccountingLaws
