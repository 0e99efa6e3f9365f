import ActiveFsm.Completion
import ActiveFsm.Conserve
import ActiveFsm.Observe
import ActiveFsm.Delivery
import ActiveFsm.Configuration
import ActiveFsm.Confinement
import ActiveFsm.Refinement
import ActiveFsm.Lifetime
import ActiveFsm.Observers
import ActiveFsm.Malformed
import ActiveFsm.Propagate
import ActiveFsm.Effect
import ActiveFsm.Dispatch
import ActiveFsm.Script
import ActiveFsm.Asked
import ActiveFsm.Detect
import ActiveFsm.Linked
import ActiveFsm.Timer
import ActiveFsm.Expiry
import ActiveFsm.Abstraction
import ActiveFsm.Examples.Motor
import ActiveFsm.Examples.AlarmPanel
import ActiveFsm.Examples.CentrifugeTest
import ActiveFsm.Bare
import ActiveFsm.Examples.TcpConnection
import ActiveFsm.Examples.Player
import ActiveFsm.AsyncWait
import ActiveFsm.Shutdown
import ActiveFsm.Descent
import ActiveFsm.Remote.Budget
import ActiveFsm.Remote.Link
import ActiveFsm.Remote.Serial
import ActiveFsm.Remote.Drain
