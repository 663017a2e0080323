import Sfs.Header
import Sfs.LinkCount
import Sfs.Mount
import Sfs.PageCount
import Sfs.Refine
import Sfs.RoundTrip
import Sfs.Shrink
import Sfs.Stack
import Sfs.Extend
import Sfs.Gap
import Sfs.Pending
import Sfs.Share
import Sfs.Scan
import Sfs.Entry
import Sfs.Range
import Sfs.Again
import Sfs.DirMap
import Sfs.Reclaim
import Sfs.Follow
import Sfs.Success
import Sfs.Unique
import Sfs.Lib.Partition
import Sfs.NodeCensus
import Sfs.Isolation
import Sfs.TreeServe
import Sfs.Exchange
import Sfs.Device
import Sfs.Outcome
import Sfs.Ledger
import Sfs.Attributes
import Sfs.Makes
import Sfs.Rollback
import Sfs.Balance
import Sfs.Isolated
import Sfs.Failure
import Sfs.Revert
