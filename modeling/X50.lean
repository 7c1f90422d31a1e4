import X50.Lib.Machine
import X50.Lib.Records
import X50.CJson
import X50.Lib.Listing
import X50.CJsonParse
import X50.CJsonRound
import X50.Memory
import X50.Database
import X50.Lib.Follow
import X50.History
import X50.HistoryInv
import X50.HistoryChange
import X50.HistoryOrder
import X50.Lib.Sorting
import X50.HistorySort
import X50.HistoryMirror
import X50.HistoryUpdate
import X50.HistoryInsert
import X50.HistoryQuota
import X50.HistoryFollow
import X50.HistoryFields
import X50.Lib.Framing
import X50.Lib.Probe
import X50.EcbUart
import X50.EcbScan
import X50.EcbLink
import X50.Gesture
import X50.UartLoop
import X50.Resend
import X50.ResendRun
import X50.Uds
import X50.UdsFrame
import X50.UdsRound
import X50.UdsBounds
import X50.FrameCheck
import X50.Cloud
import X50.Lib.Trigger
import X50.Lib.Tagged
import X50.CloudTable
import X50.CloudReport
import X50.CloudPaths
import X50.CloudFrame
import X50.FrameBytes
import X50.Lib.Merge
import X50.CloudCopy
import X50.CloudClient
import X50.HistorySeqid
import X50.HistoryListed
import X50.CloudSet
import X50.CloudAccess
import X50.Lib.BigEndian
import X50.CloudSized
import X50.CloudBuffers
import X50.Remind
import X50.CloudWrites
import X50.CloudRound
import X50.CloudEcho
import X50.Fault
import X50.FaultWord
import X50.Ota
import X50.CloudLink
import X50.Lib.Crc
import X50.Crc
import X50.Lib.Slots
import X50.SelectServer
import X50.UdsServer
import X50.UdsClients
import X50.UdsDispatch
import X50.Lib.Stretch
import X50.Heart
import X50.Push
import X50.ResendWrap
import X50.Rejection
import X50.UdsText
import X50.Quad
import X50.Recipes
import X50.Lib.Bucket
import X50.KvStore
import X50.Unbind
import X50.UdsReply
import X50.Poll
import X50.Lib.Causal
import X50.GestureStream
import X50.GestureEvents
import X50.Lib.Ring
import X50.Lib.Simulation
import X50.ResendHeap
import X50.ResendMemory
import X50.PrintBuffer
import X50.ParseString
import X50.ParseBuffer
