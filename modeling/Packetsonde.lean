import Packetsonde.Agent.Frame
import Packetsonde.Remote.Passthrough
import Packetsonde.Discovery.Handshake
import Packetsonde.Recipe.RecvBudget
import Packetsonde.Recipe.StepBudget
import Packetsonde.Recipe.Lifecycle
import Packetsonde.Recipe.Hex
import Packetsonde.Central.Post
import Packetsonde.Flows.Keys
import Packetsonde.Flows.Templates
import Packetsonde.Flows.Wire
import Packetsonde.Flows.Clocks
import Packetsonde.Flows.Conservation
import Packetsonde.Probe.TcpReports
import Packetsonde.Ipc.Delivery
import Packetsonde.Priv.Poll
import Packetsonde.Priv.Client
import Packetsonde.Hosts.Table
import Packetsonde.Probe.WalkHops
import Packetsonde.Passive.Dhcp
import Packetsonde.Passive.DnsName
import Packetsonde.Central.JsonLookup
import Packetsonde.Baseline.Rollup
import Packetsonde.Agent.FrameType
import Packetsonde.Agent.AcceptLoop
import Packetsonde.Agent.ClientCap
import Packetsonde.Agent.Modules
import Packetsonde.Ids.Ulid
import Packetsonde.Scan.Sweep
import Packetsonde.Baseline.Dest
import Packetsonde.Detect.Suggest
import Packetsonde.Detect.PolicyCache
import Packetsonde.Detect.EnvelopeStore
import Packetsonde.Baseline.Spawn
import Packetsonde.Provenance.Roots
import Packetsonde.Recipe.Templates
import Packetsonde.Provenance.Bundle
import Packetsonde.Inspect.Delivery
import Packetsonde.Central.CollectChain
