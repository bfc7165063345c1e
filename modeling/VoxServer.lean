import VoxServer.Accounts.Authority
import VoxServer.Accounts.ChangePassword
import VoxServer.Accounts.Disabled
import VoxServer.Accounts.Faults
import VoxServer.Accounts.KeyVersion
import VoxServer.Accounts.Passwords
import VoxServer.Accounts.Search
import VoxServer.Accounts.Usernames
import VoxServer.Attachments.Chunks
import VoxServer.Attachments.Quota
import VoxServer.Attachments.Sizes
import VoxServer.Common.Shutdown
import VoxServer.Conversations.Authority
import VoxServer.Conversations.Caps
import VoxServer.Conversations.Confidentiality
import VoxServer.Conversations.MemberNames
import VoxServer.Delivery.Acknowledge
import VoxServer.Delivery.Dedup
import VoxServer.Delivery.Reach
import VoxServer.Devices.BundleRoutes
import VoxServer.Devices.Isolation
import VoxServer.Devices.Prekeys
import VoxServer.History.Progress
import VoxServer.Net.Handshake
import VoxServer.Net.Query
import VoxServer.Net.RateLimiter
import VoxServer.Net.RouteTable
import VoxServer.Relay.DeviceQueues
import VoxServer.Sessions.Revocation
import VoxServer.Sessions.SingleUse
import VoxServer.Sessions.TokenHashes
import VoxServer.Store.Upgrade
import VoxServer.Sync.Conflict
import VoxServer.Sync.Incremental
