import SysbakAdmin.Lib.EventRun
import SysbakAdmin.Lib.SearchTree
import SysbakAdmin.ExtentCache
import SysbakAdmin.Lib.Striping
import SysbakAdmin.Lib.PartialRead
import SysbakAdmin.Crc32c
import SysbakAdmin.Volumes
import SysbakAdmin.MapBlock
import SysbakAdmin.BtrfsExtents
import SysbakAdmin.Lib.LevelTree
import SysbakAdmin.BtrfsTree
import SysbakAdmin.BtrfsCursor
import SysbakAdmin.BtrfsScan
import SysbakAdmin.ChunkTree
import SysbakAdmin.DiskIo
import SysbakAdmin.Lib.ReflectedCrc
import SysbakAdmin.Lib.Transfer
import SysbakAdmin.Lib.GroupStream
import SysbakAdmin.Bitmap
import SysbakAdmin.Lib.FileIo
import SysbakAdmin.Lib.CMemory
import SysbakAdmin.Checksum
import SysbakAdmin.ChecksumCalls
import SysbakAdmin.Lib.PackedRecord
import SysbakAdmin.Io
import SysbakAdmin.Share
import SysbakAdmin.BitmapSet
import SysbakAdmin.Opening
import SysbakAdmin.Backup
import SysbakAdmin.Handlers
import SysbakAdmin.PartitionCopy
import SysbakAdmin.ProgressSignals
import SysbakAdmin.ForeignFiles
import SysbakAdmin.ImageWriter
import SysbakAdmin.Restore
import SysbakAdmin.ReaderLoops
import SysbakAdmin.ImageReader
import SysbakAdmin.RoundTrip
import SysbakAdmin.WriterBounds
import SysbakAdmin.BitmapSection
import SysbakAdmin.PtfRun
import SysbakAdmin.BackupOutcome
import SysbakAdmin.RestoreRun
import SysbakAdmin.Detection
import SysbakAdmin.BufferBounds
import SysbakAdmin.Counts
import SysbakAdmin.SpaceCheck
import SysbakAdmin.Divisors
import SysbakAdmin.RestoreCursor
import SysbakAdmin.Xfs
import SysbakAdmin.XfsScan
import SysbakAdmin.Fat
import SysbakAdmin.FatUsed
import SysbakAdmin.Fat12
import SysbakAdmin.Ext
import SysbakAdmin.BtrfsMarks
import SysbakAdmin.Replies
import SysbakAdmin.DiskRestore
import SysbakAdmin.SourceSize
import SysbakAdmin.DiskInfo
import SysbakAdmin.DiskDispatch
import SysbakAdmin.LvmOrder
import SysbakAdmin.LvmBackup
import SysbakAdmin.TrailingChecksum
import SysbakAdmin.Service
import SysbakAdmin.RadixTree
import SysbakAdmin.Perag
import SysbakAdmin.SysArray
