import VBox.Storage.Vdi.SectorHistory
import VBox.Runtime.SgRuns
import VBox.Runtime.SgSegArray
import VBox.Runtime.SgCmp
import VBox.Runtime.KAvlStackBound
import VBox.Runtime.KAvlEqualRuns
import VBox.Runtime.HeapOffsetRuns
import VBox.Vmm.Tm.ClockRuns
import VBox.Vmm.Tm.CatchUpRate
import VBox.Vmm.Pdm.BlkCacheReqRuns
import VBox.Vmm.Pdm.CritSectRwWakeups
import VBox.Net.IntNetRingRuns
import VBox.Vmm.Gmm.Isolation
import VBox.Vmm.Gmm.AccountRuns
import VBox.Vmm.Ssm.StrmRuns
import VBox.Vmm.Ssm.DataReadBounds
import VBox.Storage.Qed.LogicalOffset
import VBox.Devices.VBoxScsiTransfer
import VBox.Devices.VirtioChain
import VBox.Devices.PicPoll
import VBox.Devices.EepromRuns
import VBox.Devices.EepromSessions
import VBox.Storage.Vhd.ExpandRuns
import VBox.Storage.Vhd.ResizeRuns
import VBox.Storage.Qed.CheckImageExact
import VBox.Storage.Qed.L2CacheRuns
import VBox.Storage.Qed.ClusterAllocFailed
import VBox.Runtime.HandleTableRuns
import VBox.Runtime.SimplePatternMeaning
import VBox.Runtime.StrVersionOrder
import VBox.Devices.VirtioPut
import VBox.Storage.Vdi.RepairRuns
import VBox.Runtime.StrSpaceRuns
import VBox.Storage.Vdi.ResizeRuns
import VBox.Storage.Vci.Lookup
import VBox.Storage.Vci.BlkMapDisk
import VBox.Vmm.Tm.QueueRun
import VBox.Vmm.Tm.DestroyExact
import VBox.Vmm.Pdm.BlkCacheDiscardRuns
import VBox.Storage.Vci.BlkMapAllocRuns
import VBox.Storage.Vdi.Places
import VBox.Storage.Vd.DiscardRuns
import VBox.Runtime.UriFile
import VBox.Runtime.GetOptArgvRoundTrip
import VBox.Runtime.GetOptArgvQuotes
import VBox.Runtime.Base64RoundTrip
import VBox.Runtime.Utf8Inside
import VBox.Runtime.Utf16Fold
import VBox.Runtime.CircBufRuns
import VBox.Runtime.TimeString
