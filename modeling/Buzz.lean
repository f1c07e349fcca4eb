import Buzz.Relay.FanOut
import Buzz.Relay.CountAgreement
import Buzz.Relay.ThreadCounts
import Buzz.Git.Closure
import Buzz.Git.ReadBack
import Buzz.Acp.QueueDispatch
import Buzz.Acp.QueueFlushable
import Buzz.Acp.DeadLetterRuns
import Buzz.Acp.QueueFairness
import Buzz.Acp.QueueDrain
import Buzz.Audit.Chain
import Buzz.Pairing.Agreement
import Buzz.Pairing.QrRoundTrip
import Buzz.Git.PushPolicy
import Buzz.Git.PermsPattern
import Buzz.Core.EngramRefs
import Buzz.Core.EngramHead
import Buzz.Core.EngramBody
import Buzz.Mesh.Gossip
import Buzz.Agent.ToolPairing
import Buzz.Agent.Steers
import Buzz.Acp.UsageConservation
import Buzz.Acp.UsageLocality
import Buzz.Tunnel.Fencing
import Buzz.Audio.Roster
import Buzz.Workflow.IntervalFires
import Buzz.Workflow.CronTicks
import Buzz.Db.ReplicaSoundness
import Buzz.Db.ReplicaRewind
import Buzz.Db.ReplaceableRuns
import Buzz.Push.Duplicates
import Buzz.ReadState.Monotone
import Buzz.Unread.Resurrection
import Buzz.Media.Metadata
import Buzz.GitSign.Hash
import Buzz.GitSign.Envelope
import Buzz.GitSign.SignVerify
import Buzz.Db.EventCount
import Buzz.Relay.CountColumns
import Buzz.Relay.CountExact
import Buzz.Relay.ThreadAncestry
import Buzz.Acp.DeadLetter
import Buzz.Lib.Percent
import Buzz.Pairing.Qr
import Buzz.Core.Engram
import Buzz.Lib.JsonGrammar
import Buzz.Lib.CutAt
import Buzz.Workflow.Executor
import Buzz.Workflow.Template
import Buzz.Lib.TypedTable
import Buzz.Workflow.EvalContext
import Buzz.Agent.Truncation
import Buzz.Agent.TurnRun
import Buzz.Agent.RoundBudget
import Buzz.Agent.LivePrompt
import Buzz.Lib.Fill
import Buzz.Agent.HandoffPrompt
import Buzz.Agent.HandoffBudget
import Buzz.Agent.UsagePartition
import Buzz.Lib.Saturating
import Buzz.Terminal.Units
import Buzz.DevMcp.StrReplace
import Buzz.Terminal.Damage
import Buzz.Lib.Forest
import Buzz.Media.Mp4
import Buzz.Media.Mp4Walk
import Buzz.Media.Mp4Arithmetic
import Buzz.Sdk.NipOa
import Buzz.Sdk.NipOaAgree
import Buzz.Db.ChannelWindow
import Buzz.Db.ChannelWalk
import Buzz.Terminal.DrainBound
import Buzz.Terminal.SmallVte
import Buzz.Terminal.FenceAccount
import Buzz.ReadState.SlotTrim
import Buzz.ReadState.SlotDeal
import Buzz.ReadState.SlotSplit
import Buzz.ReadState.Publishing
import Buzz.ReadState.PublishContexts
import Buzz.ReadState.PublishFrame
import Buzz.ReadState.PublishRuns
import Buzz.ReadState.PublishMarks
import Buzz.Lib.LittleEndian
import Buzz.Terminal.Frames
import Buzz.Terminal.Grid
import Buzz.Terminal.Publisher
import Buzz.Terminal.SessionLoop
import Buzz.Terminal.SessionRuns
import Buzz.PairRelay.Bounds
