import RealmFormal.NodeAttest.Honest
import RealmFormal.NodeAttest.Spelling
import RealmFormal.NodeAttest.Accounting
import RealmFormal.NodeAttest.Quota
import RealmFormal.NodeAttest.Withdrawal
import RealmFormal.NodeAttest.ServerStream
import RealmFormal.NodeAttest.AgentStream
import RealmFormal.NodeAttest.Configure
import RealmFormal.NodeAttest.LimitListener
import RealmFormal.NodeAttest.Scrape
import RealmFormal.NodeAttest.UnknownClaims
import RealmFormal.Agent.TcpPath
import RealmFormal.Agent.PeerName
import RealmFormal.Agent.DnsSlots
import RealmFormal.Agent.Survivors
import RealmFormal.Agent.Ports
import RealmFormal.Agent.Policy
import RealmFormal.Agent.Tunnel
import RealmFormal.Agent.WorkerConfig
import RealmFormal.Agent.Shutdown
import RealmFormal.Nix.Egress
import RealmFormal.Nix.Conn
import RealmFormal.Nix.LiteralIP
import RealmFormal.Helper.Settled
import RealmFormal.IdentityMetrics.Staleness
import RealmFormal.IdentityMetrics.Workloads
import RealmFormal.Agent.Sandbox
import RealmFormal.Agent.Cgroup
import RealmFormal.Agent.Resolver
import RealmFormal.Agent.Namespace
import RealmFormal.Helper.EntryIDs
import RealmFormal.IdentityMetrics.History
import RealmFormal.IdentityMetrics.Activity
import RealmFormal.IdentityMetrics.WellFormed
import RealmFormal.IdentityMetrics.BundleFile
