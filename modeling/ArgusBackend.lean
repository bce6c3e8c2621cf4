import ArgusBackend.Auth.DeviceLogin
import ArgusBackend.Auth.Rotation
import ArgusBackend.Auth.SessionCache
import ArgusBackend.Call.Escalation
import ArgusBackend.Call.FalseAlarm
import ArgusBackend.Call.Followups
import ArgusBackend.Call.Superseded
import ArgusBackend.Download.Ending
import ArgusBackend.Download.Keeping
import ArgusBackend.Extract.CallMoments
import ArgusBackend.Extract.CallTime
import ArgusBackend.Extract.CallWords
import ArgusBackend.Extract.Occurrences
import ArgusBackend.Extract.RepeatReader
import ArgusBackend.Extract.RepeatText
import ArgusBackend.Guard.ChangeGate
import ArgusBackend.Guard.Climbing
import ArgusBackend.Guard.Dialogue
import ArgusBackend.Guard.Digests
import ArgusBackend.Guard.Encounters
import ArgusBackend.Guard.Schedule
import ArgusBackend.Heartbeat.Refills
import ArgusBackend.Library.Breadth
import ArgusBackend.Library.Deletion
import ArgusBackend.Library.Rewriting
import ArgusBackend.Library.Suffixes
import ArgusBackend.Library.Utf8
import ArgusBackend.Library.Vectors
import ArgusBackend.Link.ClientHello
import ArgusBackend.Link.Codec
import ArgusBackend.Link.Credit
import ArgusBackend.Link.PushLedger
import ArgusBackend.Link.SealedPush
import ArgusBackend.Link.Uplink
import ArgusBackend.Link.Wiring
import ArgusBackend.Maintenance.Answers
import ArgusBackend.Maintenance.UnknownPerson
import ArgusBackend.Modules.Convergence
import ArgusBackend.Modules.Engine
import ArgusBackend.Modules.Jobs
import ArgusBackend.Modules.Reload
import ArgusBackend.Modules.Resolver
import ArgusBackend.Modules.Spared
import ArgusBackend.Outbox.TransactionalOutbox
import ArgusBackend.Phrase.Cuts
import ArgusBackend.Phrase.RuleParser
import ArgusBackend.Presence.Withdrawal
import ArgusBackend.Productivity.SeriesWindow
import ArgusBackend.Push.Envelope
import ArgusBackend.Response.Survival
import ArgusBackend.Rtc.CallLimit
import ArgusBackend.Runtime.BlockingStrand
import ArgusBackend.Runtime.ElasticPool
import ArgusBackend.Safety.Duress
import ArgusBackend.Safety.Lockout
import ArgusBackend.Sync.Deliveries
import ArgusBackend.Sync.Membership
import ArgusBackend.Sync.Revocation
import ArgusBackend.Synthesis.UnigramTokenizer
import ArgusBackend.Tamper.Alarms
import ArgusBackend.Tamper.Groups
import ArgusBackend.Text.Base64
import ArgusBackend.Text.IsoTime
import ArgusBackend.Text.Merging
import ArgusBackend.Text.Replay
import ArgusBackend.Text.SecretPhrase
import ArgusBackend.Text.SpokenPhrase
import ArgusBackend.TextMatch.Matches
import ArgusBackend.Voice.Cameras
import ArgusBackend.Voice.Carry
import ArgusBackend.Voice.ConsentAnswers
import ArgusBackend.Voice.ConsentKept
import ArgusBackend.Voice.HouseholdReplies
import ArgusBackend.Voice.VisitorConsent
import ArgusBackend.Whereabouts.Sharing
