import Pintos.Userprog.Wait
import Pintos.Userprog.Exec
import Pintos.Userprog.Balance
import Pintos.Userprog.UserOnly
import Pintos.Userprog.Panic
import Pintos.Vm.SwapSpace
import Pintos.Filesys.FiniteMap
import Pintos.Userprog.Release
import Pintos.Userprog.PageMap
import Pintos.Threads.Wakeups
import Pintos.Devices.Serial
import Pintos.Filesys.Archive
import Pintos.Filesys.Agreement
import Pintos.Userprog.StackGrowth
import Pintos.Userprog.Fresh
import Pintos.Userprog.Executable
import Pintos.Userprog.Teardown
import Pintos.Userprog.Load
import Pintos.Lib.FirstFit
import Pintos.Lib.Headers
import Pintos.Lib.ListSort
import Pintos.Lib.HashIterator
import Pintos.Devices.PartitionScan
import Pintos.Userprog.Read
import Pintos.Userprog.Spawn
import Pintos.Lib.Arithmetic
import Pintos.Lib.Search
import Pintos.Lib.Atoi
import Pintos.Threads.Realloc
import Pintos.Lib.Memmove
import Pintos.Devices.Timer
import Pintos.Threads.Init
import Pintos.Lib.Console
