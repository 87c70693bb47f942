import ZyOs.Library.Outcome
import ZyOs.Library.Bytes
import ZyOs.Kernel.Debug
import ZyOs.Kernel.Bitmap
import ZyOs.Kernel.Inode
import ZyOs.Kernel.Block
import ZyOs.Kernel.Format
import ZyOs.Proofs.Bitmap
import ZyOs.Proofs.Ide
import ZyOs.Proofs.Inode
import ZyOs.Proofs.Format
import ZyOs.Kernel.String
import ZyOs.Kernel.Dir
import ZyOs.Kernel.FileData
import ZyOs.Kernel.File
import ZyOs.Kernel.Fs
import ZyOs.Proofs.Block
import ZyOs.Proofs.DirEntry
import ZyOs.Proofs.Dir
import ZyOs.Proofs.DirMap
import ZyOs.Proofs.FileBlocks
import ZyOs.Proofs.FileData
import ZyOs.Proofs.FileRuns
import ZyOs.Proofs.Quiet
import ZyOs.Proofs.OpenInodes
import ZyOs.Proofs.FileTable
import ZyOs.Proofs.Writers
import ZyOs.Proofs.ForkFiles
import ZyOs.Kernel.Thread
import ZyOs.Kernel.Sync
import ZyOs.Proofs.Sched
import ZyOs.Proofs.SchedRuns
import ZyOs.Kernel.Remove
import ZyOs.Kernel.FsDirs
import ZyOs.Library.Words
import ZyOs.Proofs.Path
import ZyOs.Proofs.Entries
import ZyOs.Proofs.Cache
import ZyOs.Proofs.Tree
import ZyOs.Proofs.Walk
import ZyOs.Kernel.Shell
import ZyOs.Proofs.WashPath
import ZyOs.Proofs.Getcwd
import ZyOs.Proofs.ThroughFile
import ZyOs.Proofs.Tracks
import ZyOs.Proofs.OpenCounts
import ZyOs.Proofs.Effects
import ZyOs.Proofs.Synced
import ZyOs.Proofs.SyncedCalls
import ZyOs.Proofs.SyncedWrite
import ZyOs.Proofs.DirBody
import ZyOs.Proofs.DirEdit
import ZyOs.Proofs.Sure
import ZyOs.Proofs.Place
import ZyOs.Proofs.Takeout
import ZyOs.Proofs.Volume
import ZyOs.Proofs.Edited
import ZyOs.Proofs.Release
import ZyOs.Proofs.Rmdir
import ZyOs.Library.Machine
import ZyOs.Library.Ring
import ZyOs.Kernel.Lock
import ZyOs.Kernel.IoQueue
import ZyOs.Proofs.Lock
import ZyOs.Proofs.IoQueue
import ZyOs.Kernel.Pid
import ZyOs.Proofs.Pid
import ZyOs.Kernel.IdeChannel
import ZyOs.Proofs.IdeChannel
import ZyOs.Kernel.Pages
import ZyOs.Proofs.Pages
import ZyOs.Proofs.FileSure
import ZyOs.Proofs.FileLimit
import ZyOs.Proofs.FileReads
import ZyOs.Kernel.DeleteDirEntry
import ZyOs.Proofs.DeleteDirEntry
import ZyOs.Kernel.Heap
import ZyOs.Kernel.HeapCalls
import ZyOs.Proofs.Heap
import ZyOs.Proofs.HeapCalls
import ZyOs.Kernel.Arena
import ZyOs.Proofs.Vaddr
import ZyOs.Proofs.Arena
import ZyOs.Proofs.ArenaCalls
import ZyOs.Library.LinkedBytes
import ZyOs.Library.Refine
import ZyOs.Kernel.ArenaBytes
import ZyOs.Proofs.ListBytes
import ZyOs.Proofs.ArenaBytes
import ZyOs.Proofs.ArenaAccount
import ZyOs.Proofs.ArenaRefines
import ZyOs.Proofs.ArenaRuns
import ZyOs.Kernel.DirRead
import ZyOs.Proofs.DirRead
import ZyOs.Proofs.ReleaseExact
import ZyOs.Proofs.SamePath
import ZyOs.Kernel.PathBuffer
import ZyOs.Proofs.PathBuffer
import ZyOs.Proofs.Placed
import ZyOs.Proofs.NameLength
import ZyOs.Proofs.DirShape
import ZyOs.Proofs.FilePosition
import ZyOs.Proofs.FailedOpen
import ZyOs.Kernel.Scarce
import ZyOs.Proofs.Scarce
import ZyOs.Proofs.FailedWrite
import ZyOs.Proofs.FailedCreate
import ZyOs.Kernel.FormatLayout
import ZyOs.Proofs.FormatLayout
import ZyOs.Proofs.PartitionScan
import ZyOs.Proofs.PartitionTable
import ZyOs.Proofs.IdeInit
import ZyOs.Proofs.InodeSlots
import ZyOs.Proofs.IoBuf
import ZyOs.Kernel.PartitionScan
import ZyOs.Kernel.FilesysInit
import ZyOs.Proofs.FilesysInit
import ZyOs.Proofs.Descriptors
import ZyOs.Kernel.HeapCwd
import ZyOs.Proofs.Holding
import ZyOs.Proofs.Leaks
import ZyOs.Kernel.IdePorts
import ZyOs.Proofs.IdePorts
import ZyOs.Proofs.BitmapScan
import ZyOs.Kernel.PageAlloc
import ZyOs.Proofs.PageAlloc
import ZyOs.Kernel.BitmapReads
import ZyOs.Proofs.Exhaustion
import ZyOs.Kernel.MemPool
import ZyOs.Proofs.MemPool
import ZyOs.Library.BitFields
import ZyOs.Kernel.PageTables
import ZyOs.Proofs.PageTables
import ZyOs.Kernel.Exec
import ZyOs.Proofs.Exec
import ZyOs.Kernel.Malloc
import ZyOs.Proofs.Malloc
import ZyOs.Proofs.Creates
import ZyOs.Proofs.PathEnds
import ZyOs.Proofs.PathCalls
import ZyOs.Library.CString
import ZyOs.Proofs.Text
import ZyOs.Proofs.NormalForm
import ZyOs.Kernel.CommandLine
import ZyOs.Proofs.Readline
import ZyOs.Proofs.CmdParse
import ZyOs.Kernel.Stdio
import ZyOs.Library.Numeral
import ZyOs.Proofs.Numeral
import ZyOs.Proofs.Stdio
import ZyOs.Proofs.Keyboard
import ZyOs.Library.Linked
import ZyOs.Kernel.List
import ZyOs.Proofs.List
import ZyOs.Kernel.Fork
import ZyOs.Proofs.Fork
import ZyOs.Kernel.ExecWatch
import ZyOs.Proofs.ExecWatch
import ZyOs.Proofs.ExecPages
import ZyOs.Proofs.ExecHeap
import ZyOs.Kernel.AddressSpace
import ZyOs.Kernel.Boot
import ZyOs.Proofs.Paging
import ZyOs.Proofs.Spaces
import ZyOs.Proofs.AddressSpace
import ZyOs.Proofs.AddressCalls
import ZyOs.Proofs.AddressFree
import ZyOs.Proofs.Processes
import ZyOs.Proofs.ForkCopy
import ZyOs.Proofs.Running
import ZyOs.Proofs.Boot
import ZyOs.Proofs.AddressRuns
import ZyOs.Kernel.Switch
import ZyOs.Proofs.ContextRuns
