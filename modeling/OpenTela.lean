import OpenTela.Analytics.Recorder
import OpenTela.Auth.Challenges
import OpenTela.Auth.Heads
import OpenTela.Crdt.Migration
import OpenTela.Crdt.Races
import OpenTela.Crdt.Serializable
import OpenTela.Crdt.Transparency
import OpenTela.Dag.AutoBan
import OpenTela.Dag.Batches
import OpenTela.Dag.Cluster
import OpenTela.Dag.Fetching
import OpenTela.Dag.HeadStore
import OpenTela.Dag.Heights
import OpenTela.Dag.Repair
import OpenTela.Dag.Tidy
import OpenTela.Dag.Writes
import OpenTela.Metrics.Scraper
import OpenTela.NodeTable.Connections
import OpenTela.NodeTable.Hooks
import OpenTela.NodeTable.Interleaving
import OpenTela.NodeTable.LastSeen
import OpenTela.NodeTable.Mirror
import OpenTela.NodeTable.Signed
import OpenTela.NodeTable.Trust
import OpenTela.NodeTable.Writers
import OpenTela.Rewards.Accounting
import OpenTela.Rewards.Authorisation
import OpenTela.Server.Candidates
import OpenTela.Server.Fidelity
import OpenTela.Server.LoadBalancer
import OpenTela.Server.Nonces
import OpenTela.Server.Retrying
import OpenTela.Server.Revocation
import OpenTela.Server.Wallet
import OpenTela.Services.Hysteresis
import OpenTela.Services.Registry
import OpenTela.Services.Withdrawal
import OpenTela.Snapshot.Duplicates
import OpenTela.Snapshot.Merge
import OpenTela.Snapshot.Writer
import OpenTela.Solana.Addresses
import OpenTela.Solana.Encoding
import OpenTela.Solana.Payments
import OpenTela.Solana.Rates
import OpenTela.Swim.Accusations
import OpenTela.Swim.Brevity
import OpenTela.Swim.Buffer
import OpenTela.Swim.Deadlines
import OpenTela.Swim.Metadata
import OpenTela.Swim.Probing
import OpenTela.Swim.Resurrection
import OpenTela.Upkeep.Eviction
import OpenTela.Upkeep.Retention
import OpenTela.Usage.Aggregates
import OpenTela.Usage.Disputes
import OpenTela.Usage.Extractor
import OpenTela.Usage.Store
import OpenTela.Wallet.Accounts
