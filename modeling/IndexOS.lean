import IndexOS.Aiwass.Stream
import IndexOS.Antenna.Accepts
import IndexOS.Antenna.Datagrams
import IndexOS.Antenna.Stream
import IndexOS.Blocking.Wakeups
import IndexOS.Channel.Stream
import IndexOS.Console.Canonical
import IndexOS.DarkMatter.Invariant
import IndexOS.Descriptors.Runs
import IndexOS.Esper.Frames
import IndexOS.Esper.Final
import IndexOS.Esper.HalfBuilt
import IndexOS.Esper.Pending
import IndexOS.Ext2.MountCheck
import IndexOS.Files.Descriptions
import IndexOS.Futex.Exact
import IndexOS.Lateran.FatWalks
import IndexOS.Lateran.Routing
import IndexOS.Misaka.Inheritance
import IndexOS.Poll.Retries
import IndexOS.Poll.Timers
import IndexOS.Reality.Accounts
import IndexOS.Reality.Kernel
import IndexOS.Testament.Contents
import IndexOS.Testament.Umount
import IndexOS.TreeDiagram.Safety
