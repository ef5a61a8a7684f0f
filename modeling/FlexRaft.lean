import FlexRaft.Liveness
import FlexRaft.Recoverability
import FlexRaft.Legitimacy
import FlexRaft.ProposeOrder
import FlexRaft.Acknowledged
import FlexRaft.AppliedIndex
import FlexRaft.LrcRepair
import FlexRaft.CommitThreshold
import FlexRaft.Clustering
import FlexRaft.StripeJourney
import FlexRaft.GroupRouting
import FlexRaft.LogMerge
import FlexRaft.EncodingCalls
import FlexRaft.Ticks
import FlexRaft.EntryDecoding
import FlexRaft.SentStripes
import FlexRaft.KvFragments
import FlexRaft.StoredReads
import FlexRaft.KvLog
import FlexRaft.LogDiscard
import FlexRaft.AppendEntriesService
import FlexRaft.MessageSizes
import FlexRaft.ApplyMeta
import FlexRaft.StripeInverse
import FlexRaft.CrossGroupTracker
import FlexRaft.FragmentFetch
import FlexRaft.PollPartitions
import FlexRaft.Tenure
import FlexRaft.ConcurrentQueue
import FlexRaft.Mailbox
