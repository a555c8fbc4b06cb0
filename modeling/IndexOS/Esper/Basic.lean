/-!
# What an Esper can wait for

`Esper::IpcWaitKind` of `esper.hpp`: why an Esper that is waiting in the kernel is waiting.  Pipes
are not here, they have two fields of their own.
-/

set_option autoImplicit false

namespace IndexOS

/-- `Esper::IpcWaitKind` -/
inductive IpcWaitKind where
  | none
  | antennaAccept
  | antennaRecv
  | antennaConnect
  | channelAccept
  | channelRecv
  | eventfdRead
  | epollWait
  | ptyMasterRead
  | ptySlaveRead
  | consoleRead
  | vforkDone
  | pollWait
  | inotifyRead
  | ptraceStop
deriving DecidableEq

end IndexOS
