import Foretoken.RequestLedger.Capacity
import Foretoken.RequestLedger.Entry
import Foretoken.RequestLedger.Redelivery
import Foretoken.ApiStore.History
import Foretoken.ApiStore.Terminal
import Foretoken.ApiStore.Isolation
import Foretoken.ApiStore.Paging
import Foretoken.KvLocality.Progress
import Foretoken.KvLocality.Eviction
import Foretoken.KvLocality.Aliasing
import Foretoken.KvLocality.Lookup
import Foretoken.Router.Balance
import Foretoken.Autoscaling.Bounds
import Foretoken.Autoscaling.Window
import Foretoken.Registry.Scopes
import Foretoken.ServingConfig.Membership
import Foretoken.ServingConfig.Consumer
import Foretoken.ServingConfig.Ports
import Foretoken.Cli.Exclusion
