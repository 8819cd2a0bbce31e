import Swinx.LTS.Basic
import Swinx.LTS.Token
import Swinx.LTS.Sum
import Swinx.Sync.Object
import Swinx.Sync.Single
import Swinx.Sync.Mutex
import Swinx.Sync.Event
import Swinx.Sync.Semaphore
import Swinx.Sync.System
import Swinx.Sync.WaitMultiple
import Swinx.Sync.Accounting
import Swinx.Sync.CountMutex
import Swinx.Table.Basic
import Swinx.Table.Invariant
import Swinx.Table.Create
import Swinx.Posix.RecordLock
import Swinx.Posix.RecursiveMutex
import Swinx.Flock.Basic
import Swinx.Flock.Occupancy
import Swinx.Flock.Exclusion
import Swinx.SharedMemory
import Swinx.Data.SortedMap
import Swinx.Data.CString
import Swinx.Data.Bytes
import Swinx.Data.Uniconv
import Swinx.Registry.Path
import Swinx.Registry.Basic
import Swinx.Registry.Value
import Swinx.Registry.Line
import Swinx.Registry.WellFormed
import Swinx.Registry.Content
import Swinx.Registry.Api
import Swinx.Registry.RoundTrip
import Swinx.Posix.FileSystem
import Swinx.Registry.Flush
import Swinx.Registry.Structure
import Swinx.Message.Counted
import Swinx.Message.SendReply
import Swinx.Message.Queue
import Swinx.Message.Dispatch
import Swinx.Message.Deliver
import Swinx.Message.Timer
import Swinx.Message.MsgWait
import Swinx.Message.Ipc
import Swinx.Message.Callback
import Swinx.Clipboard.Incr
import Swinx.Clipboard.Data
import Swinx.Process.Child
import Swinx.Process.Suspend
import Swinx.Window.Paint
import Swinx.Window.Destroy
import Swinx.Watch.Invariant
import Swinx.Posix.Pages
import Swinx.Mapping.Invariant
import Swinx.Sync.TimerRuns
import Swinx.Sync.WaitItem
import Swinx.Region.Basic
import Swinx.Data.Yields
import Swinx.Data.Band
import Swinx.Region.Sweep
import Swinx.Region.Combine
import Swinx.Region.Shapes
import Swinx.Region.Moves
import Swinx.Region.RoundRect
import Swinx.Region.Polygon
import Swinx.Region.Scan
import Swinx.Region.Equal
import Swinx.Coff.Basic
import Swinx.Coff.Bounds
import Swinx.Data.UniconvCalls
import Swinx.Hook.Basic
import Swinx.Hook.Runs
import Swinx.WinEvent.Basic
import Swinx.WinEvent.Runs
import Swinx.Window.Geometry
import Swinx.Window.Xdnd
import Swinx.Sync.InitOnce
import Swinx.Sync.TSemRwLock
import Swinx.Freertos.SRWLock
import Swinx.Message.WakeUp
import Swinx.Freertos.Winobjs
import Swinx.Freertos.MsgLoop
import Swinx.Winsock.Pump
import Swinx.Posix.Inodes
import Swinx.Posix.Pathname
import Swinx.Fileapi.DelDir
import Swinx.Message.Ownership
import Swinx.Sync.TimerQueue
import Swinx.Window.ClassMgr
import Swinx.Coff.Lookup
import Swinx.Process.CommandLine
import Swinx.Data.ReverseIndex
import Swinx.Data.CodePage
import Swinx.Data.CodePageCalls
import Swinx.Gdi.SaveDC
import Swinx.Shlwapi.Path
import Swinx.Shlwapi.Unicode
import Swinx.Registry.Query
import Swinx.Registry.Enum
import Swinx.Data.OrderedTree
import Swinx.Menu.Items
import Swinx.Window.ScrollInfo
import Swinx.Window.ScrollBar
import Swinx.Data.Chain
import Swinx.Window.Coords
import Swinx.Message.Motion
import Swinx.Hook.Delivery
import Swinx.Clipboard.Selection
import Swinx.Winsock.Select
import Swinx.Winsock.AddressText
import Swinx.Fileapi.FindFile
import Swinx.Memory.Heap
import Swinx.Memory.Local
import Swinx.Memory.Represent
import Swinx.Memory.Runs
import Swinx.Window.Clip
import Swinx.Window.ClipRuns
import Swinx.Strapi.StringType
import Swinx.Strapi.CharNext
import Swinx.Message.DoubleClick
import Swinx.Keyboard.RulesNames
import Swinx.Freertos.Blit
import Swinx.Oleacc.HandleTable
import Swinx.Data.Cells
import Swinx.Winsock.AddrInfo
import Swinx.Shell.DropQuery
import Swinx.Shlwapi.CommonPrefix
import Swinx.Data.Components
import Swinx.Shlwapi.Canonicalize
import Swinx.Shlwapi.FullPathName
import Swinx.Data.Segments
import Swinx.Sysapi.Qsort
import Swinx.Data.Lines
import Swinx.Profile.Format
import Swinx.Profile.Encoding
import Swinx.Data.Calendar
import Swinx.Fileapi.FileTime
import Swinx.Window.Lifetime
import Swinx.Data.MixedRadix
import Swinx.Oleaut.SafeArrayIndex
import Swinx.Oleaut.SafeArray
