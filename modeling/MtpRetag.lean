import MtpRetag.Machinery.Transition
import MtpRetag.Machinery.Pool
import MtpRetag.Machinery.Rose
import MtpRetag.Machinery.LazyTree
import MtpRetag.Machinery.LittleEndian
import MtpRetag.Machinery.Descent
import MtpRetag.Machinery.Scan
import MtpRetag.Machinery.Cuts
import MtpRetag.Machinery.Loop
import MtpRetag.Native.Basic
import MtpRetag.Native.SplitString
import MtpRetag.Native.Storage
import MtpRetag.Native.Substorage
import MtpRetag.Native.DeviceInfo
import MtpRetag.Native.MetaItems
import MtpRetag.Native.Delete
import MtpRetag.Native.Transfer
import MtpRetag.Native.Metadata
import MtpRetag.Native.Detect
import MtpRetag.Native.ReadFile
import MtpRetag.Native.Listing
import MtpRetag.Native.Bypath
import MtpRetag.Native.CreateFolder
import MtpRetag.Native.SplitVector
import MtpRetag.Native.Kinds
import MtpRetag.Native.Registry
import MtpRetag.Native.Refresh
import MtpRetag.Native.Initialised
import MtpRetag.Native.Reports
import MtpRetag.Native.Abort
import MtpRetag.Native.Lifecycle
import MtpRetag.Native.Walks
import MtpRetag.Native.Arguments
import MtpRetag.Native.ParseFolder
import MtpRetag.Native.MscCopy
import MtpRetag.Native.CopyResult
import MtpRetag.Native.CopyProgress
import MtpRetag.App.CopyList
import MtpRetag.App.SameFile
import MtpRetag.App.Selection
import MtpRetag.App.TreeView
import MtpRetag.App.Destination
import MtpRetag.App.Navigate
import MtpRetag.App.Worker
import MtpRetag.App.Events
import MtpRetag.App.Machine
import MtpRetag.App.Preparation
import MtpRetag.App.Moves
import MtpRetag.App.Conservation
import MtpRetag.App.Progress
import MtpRetag.App.Batch
import MtpRetag.App.Lifetime
import MtpRetag.App.Shutdown
import MtpRetag.Native.Descriptors
import MtpRetag.Native.CheckDevice
import MtpRetag.Native.Removable
import MtpRetag.Native.Canonical
import MtpRetag.Machinery.PathMap
import MtpRetag.Native.DeviceMap
import MtpRetag.Native.Answers
import MtpRetag.Native.Session
import MtpRetag.Native.Lasting
import MtpRetag.Machinery.DirTree
import MtpRetag.Native.Mounted
import MtpRetag.Native.Agreement
import MtpRetag.App.Completion
import MtpRetag.App.Connection
import MtpRetag.App.Desktop
import MtpRetag.App.Delivery
import MtpRetag.App.Arrival
