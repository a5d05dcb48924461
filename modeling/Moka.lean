import Moka.Common
import Moka.Invalidator.Registry
import Moka.Invalidator.Task
import Moka.Invalidator.Handoff
import Moka.Cache.Deque
import Moka.Cache.Inner
import Moka.Cache.Admit
import Moka.Cache.Insert
import Moka.Cache.Sync
import Moka.Cache.System
import Moka.Cache.Frame
import Moka.Cache.Abstract
import Moka.Cache.Removal
import Moka.Cache.Pool
import Moka.Cache.Regions
import Moka.Cache.Unbounded
import Moka.Cache.Dropped
