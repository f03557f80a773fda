import Chimera.Pmap.Translate
import Chimera.Pmap.Reversible
import Chimera.Pmap.Isolation
import Chimera.Zone.Runs
import Chimera.Sched.Sleepers
import Chimera.Ipc.Table
import Chimera.Ipc.Fresh
import Chimera.Ipc.Queues
import Chimera.Ipc.Requests
import Chimera.Ipc.Fetch
import Chimera.Pipe.Stream
import Chimera.Smp.Shootdown
import Chimera.Smp.Spinlock
import Chimera.Sched.Slots
import Chimera.Proc.Sigreturn
import Chimera.Vfs.Listing
import Chimera.Vfs.Position
import Chimera.Vfs.Descriptors
import Chimera.Fat.Bitmap
import Chimera.Proc.Cred
import Chimera.Net.E1000
import Chimera.Net.ArpCache
import Chimera.Net.Calls
import Chimera.Net.Loopback
import Chimera.Net.Datagram
import Chimera.Exec.Faithful
import Chimera.Exec.Execve
