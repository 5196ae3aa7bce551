import UefiLkl.Lib.Interaction
import UefiLkl.Lib.PathWalk
import UefiLkl.Efi
import UefiLkl.Strings
import UefiLkl.Interface
import UefiLkl.Linux
import UefiLkl.RealPath
import UefiLkl.Open
import UefiLkl.Confinement
import UefiLkl.Time
import UefiLkl.Info
import UefiLkl.InfoLaws
import UefiLkl.FileProtocol
import UefiLkl.Resources
import UefiLkl.HandleBalance
import UefiLkl.OpenAtomic
import UefiLkl.Deletion
import UefiLkl.ReadOnly
import UefiLkl.Driver
import UefiLkl.DmCrypt
import UefiLkl.Probe
import UefiLkl.ProbeAgreement
import UefiLkl.Volume
import UefiLkl.Ledger
import UefiLkl.StartAccount
import UefiLkl.SetInfo
import UefiLkl.Listing
import UefiLkl.Targets
import UefiLkl.ReadHandle
import UefiLkl.OpenRun
import UefiLkl.Refusal
import UefiLkl.Entries
import UefiLkl.Names
import UefiLkl.Agreement
import UefiLkl.Started
import UefiLkl.FailedStart
import UefiLkl.LifeCycle
import UefiLkl.Lib.Coroutine
import UefiLkl.Lk.Changes
import UefiLkl.Lk.Runs
import UefiLkl.Lk.Objects
import UefiLkl.Lk.Exits
import UefiLkl.Lk.Expiry
import UefiLkl.Lk.Interrupts
import UefiLkl.Lk.Semaphores
import UefiLkl.Lk.Timers
import UefiLkl.Lk.Selection
import UefiLkl.Lk.Handover
import UefiLkl.Lk.Priorities
import UefiLkl.Lk.Quanta
import UefiLkl.Lk.Events
import UefiLkl.Lk.Counters
import UefiLkl.Lk.Balance
import UefiLkl.Lk.Mutexes
import UefiLkl.Lk.Timeouts
import UefiLkl.Lk.ListRuns
import UefiLkl.Lk.Accounts
import UefiLkl.Lk.Reaping
import UefiLkl.Lib.FlatMemory
import UefiLkl.Block
import UefiLkl.Sizes
import UefiLkl.KeyTable
import UefiLkl.PathBuffers
import UefiLkl.CreateAgain
import UefiLkl.RelativeOpen
import UefiLkl.Lib.ByteStore
import UefiLkl.Service
import UefiLkl.FileStore
import UefiLkl.FileHistory
import UefiLkl.Lk.Stopping
