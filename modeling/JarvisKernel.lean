import JarvisKernel.Lib.Bitmap
import JarvisKernel.Lib.ByteBuffer
import JarvisKernel.Lib.Counting
import JarvisKernel.Lib.Extent
import JarvisKernel.Lib.LinkedList
import JarvisKernel.Lib.Ownership
import JarvisKernel.Lib.RedBlack
import JarvisKernel.Lib.RingBuffer
import JarvisKernel.Lib.Run
import JarvisKernel.Lib.Table
import JarvisKernel.Lib.Word32
import JarvisKernel.Process.Defs
import JarvisKernel.Process.Queue
import JarvisKernel.Process.Effects
import JarvisKernel.Process.Invariant
import JarvisKernel.Process.Operations
import JarvisKernel.Process.Calls
import JarvisKernel.Process.Interrupt
import JarvisKernel.Process.ContextSwitch
import JarvisKernel.Process.TimeSlice
import JarvisKernel.Rbtree.Defs
import JarvisKernel.Rbtree.Rep
import JarvisKernel.Rbtree.Insert
import JarvisKernel.Rbtree.Delete
import JarvisKernel.Rbtree.Runs
import JarvisKernel.Malloc.Defs
import JarvisKernel.Malloc.Runs
import JarvisKernel.Paging.Defs
import JarvisKernel.Paging.Frames
import JarvisKernel.Paging.Slots
import JarvisKernel.Paging.Isolation
import JarvisKernel.Paging.Coverage
import JarvisKernel.Paging.KernelMap
import JarvisKernel.Paging.Processes
import JarvisKernel.Paging.Leaks
import JarvisKernel.Paging.PhysicalMemory
import JarvisKernel.Driver.Keyboard
import JarvisKernel.Vfs.Mount
import JarvisKernel.Vfs.Defs
import JarvisKernel.Devfs.Defs
import JarvisKernel.Vfs.OpenPath
import JarvisKernel.Vfs.Ownership
import JarvisKernel.Vfs.Reads
import JarvisKernel.Vfs.FreedOnce
import JarvisKernel.Vfs.InodeNumbers
import JarvisKernel.Devfs.Inodes
import JarvisKernel.Syscall.Files
import JarvisKernel.Ext4.Defs
import JarvisKernel.Ext4.Layout
import JarvisKernel.Ext4.Allocator
import JarvisKernel.Ext4.Counts
import JarvisKernel.Ext4.Directories
import JarvisKernel.Ext4.Balance
import JarvisKernel.Driver.Manager
import JarvisKernel.Paging.FramePool
import JarvisKernel.Paging.Ranges
import JarvisKernel.Malloc.Reuse
import JarvisKernel.Lib.WordMemory
import JarvisKernel.Lib.X86
import JarvisKernel.Interrupt.Stubs
import JarvisKernel.Interrupt.Syscall
import JarvisKernel.Paging.Permissions
import JarvisKernel.Paging.RoundTrip
import JarvisKernel.Paging.TableAddresses
import JarvisKernel.Paging.Faults
import JarvisKernel.Paging.CreateFailures
import JarvisKernel.Process.Scheduler
import JarvisKernel.Process.CleanUp
import JarvisKernel.Process.WakeUp
import JarvisKernel.Ext4.MkdirFailures
import JarvisKernel.Ext4.BlockAddresses
import JarvisKernel.Ext4.SplitCounts
import JarvisKernel.Ext4.FileRead
import JarvisKernel.Ext4.InodeSlots
import JarvisKernel.Ext4.MountChecks
import JarvisKernel.Lib.Records
import JarvisKernel.Ext4.DirBlocks
import JarvisKernel.Ext4.AddEntry
import JarvisKernel.Ext4.RemoveEntry
import JarvisKernel.Ext4.Scans
import JarvisKernel.Ext4.Readdir
import JarvisKernel.Ext4.Transfers
import JarvisKernel.Ext4.BufferSizes
import JarvisKernel.Lib.Words
import JarvisKernel.Vfs.ParsePath
import JarvisKernel.Ext4.ParentPath
import JarvisKernel.Vfs.NormalizePath
import JarvisKernel.Lib.BestMatch
import JarvisKernel.Devfs.BlockRead
import JarvisKernel.Devfs.BlockWrite
import JarvisKernel.Vfs.FindMountPoint
import JarvisKernel.Devfs.Names
import JarvisKernel.Driver.Ide
import JarvisKernel.Driver.KeyboardFlags
import JarvisKernel.Lib.Numeral
import JarvisKernel.Text.IntToString
import JarvisKernel.Text.Printf
import JarvisKernel.Process.WakePass
import JarvisKernel.Console.Attributes
import JarvisKernel.Gdt.Descriptors
import JarvisKernel.Text.NumberBounds
import JarvisKernel.Text.PrintfFormat
import JarvisKernel.Text.SnprintfBuffer
import JarvisKernel.Text.Tokenize
import JarvisKernel.Installer.SelectDevice
import JarvisKernel.Rbtree.Rotate
import JarvisKernel.Text.Compare
import JarvisKernel.Vfs.PathMemory
import JarvisKernel.Console.Shown
import JarvisKernel.Lib.LineEdit
import JarvisKernel.Lib.NamedCells
import JarvisKernel.Paging.UserMemory
import JarvisKernel.Process.Starvation
import JarvisKernel.Shell.Commands
import JarvisKernel.Shell.Session
import JarvisKernel.Boot.Devices
import JarvisKernel.Interrupt.Delivery
import JarvisKernel.Syscall.Dispatch
import JarvisKernel.Installer.Commands
import JarvisKernel.Installer.Dialogue
import JarvisKernel.Installer.Session
import JarvisKernel.Ext4.DirLog
import JarvisKernel.Ext4.DirRuns
import JarvisKernel.Vfs.MountLog
import JarvisKernel.Vfs.Routes
