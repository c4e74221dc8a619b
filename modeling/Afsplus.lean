import Afsplus.Portable.Writer
import Afsplus.Core.FreshMount
import Afsplus.Core.AllocatorAccounting
import Afsplus.Core.SharedSession
import Afsplus.Portable.ScanAgreement
import Afsplus.Core.LifetimeLedger
import Afsplus.Aros.WriteProtect
import Afsplus.Format.TreeReads
import Afsplus.Core.TreeVisits
import Afsplus.Format.Bitmap
import Afsplus.Format.Crc
import Afsplus.Format.Attributes
import Afsplus.Core.OrphanProgress
import Afsplus.Core.FileLimits
import Afsplus.Portable.Resolution
import Afsplus.Block.Overlay
