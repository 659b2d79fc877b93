import Xv6.Sched.RoundRobin
import Xv6.Queue.Lost
import Xv6.Queue.Bounds
import Xv6.Queue.Slices
import Xv6.Sched.Sweep
import Xv6.Sched.Lowest
import Xv6.Proc.Times
import Xv6.Log.Reserve
import Xv6.Bio.Refines
import Xv6.Pipe.Wakeup
import Xv6.Fs.Paths
import Xv6.Sys.Failed
import Xv6.Console.Line
import Xv6.Ide.Requests
import Xv6.Sleep.Wakeup
import Xv6.Sh.Command
import Xv6.Sched.Choice
import Xv6.Mkfs.Main
import Xv6.Queue.Ageing
import Xv6.Grep.Lines
import Xv6.Sys.Args
import Xv6.Umalloc.Wrap
import Xv6.Bytes.Move
import Xv6.Mp.Table
import Xv6.Sys.Parts
