import ScyllaDriver.Cluster.ExecutionProfile

/-!
# The cluster builder

`Builder` is the settings record of `Cassandra\Cluster\Builder`. `build()`
reads it twice: once to make the cache key of a persistent cluster
(`cacheKey`), and, when no cluster is cached under that key, once to configure
a new one. `applied` is everything the second pass hands to the driver; a
setting is an `Option` where the driver's setter is called conditionally.

Objects of the driver (TLS options, retry policies, timestamp generators) are
known by their addresses.
-/

namespace ScyllaDriver
namespace Cluster

open CString

/-- The driver the extension is compiled against. -/
inductive Backend where
  | cassandra
  | scylla
  | scyllaRust
  deriving DecidableEq

/-- `php_scylladb_load_balancing`. -/
inductive LoadBalancing where
  | default
  | roundRobin
  | dcAwareRoundRobin
  | rackAware
  deriving DecidableEq

def LoadBalancing.code : LoadBalancing → Int64
  | .default => 0
  | .roundRobin => 1
  | .dcAwareRoundRobin => 2
  | .rackAware => 3

/-- `php_scylladb_reconnect_policy`. -/
inductive ReconnectPolicy where
  | constant
  | exponential
  deriving DecidableEq

def ReconnectPolicy.code : ReconnectPolicy → Int64
  | .constant => 0
  | .exponential => 1

/-- `php_scylladb_cluster_builder`, without the settings that stay with the
cluster object (default consistency, page size and timeout). User name and
password are set together. -/
structure Builder where
  contactPoints : Bytes
  credentials : Option (Bytes × Bytes)
  localDc : Option Bytes
  blacklistHosts : Option Bytes
  whitelistHosts : Option Bytes
  blacklistDcs : Option Bytes
  whitelistDcs : Option Bytes
  localRack : Option Bytes
  applicationName : Option Bytes
  applicationVersion : Option Bytes
  localAddress : Option Bytes
  usedHostsPerRemoteDc : UInt32
  connectTimeout : UInt32
  protocolVersion : UInt32
  ioThreads : UInt32
  coreConnectionsPerHost : UInt32
  maxConnectionsPerHost : UInt32
  reconnectInterval : UInt32
  tcpKeepaliveDelay : UInt32
  enableLatencyAwareRouting : Bool
  enableTcpNodelay : Bool
  enableTcpKeepalive : Bool
  enableSchema : Bool
  enableHostnameResolution : Bool
  enableRandomizedContactPoints : Bool
  allowRemoteDcsForLocalCl : Bool
  useTokenAwareRouting : Bool
  connectionHeartbeatInterval : UInt32
  requestTimeout : UInt32
  reconnectMaxInterval : UInt32
  speculativeExecutionDelay : UInt32
  speculativeExecutionMax : Int32
  coalesceDelay : Int32
  newRequestRatio : Int32
  connectionIdleTimeout : UInt32
  maxSchemaWaitTime : UInt32
  resolveTimeout : UInt32
  monitorReportingInterval : UInt32
  queueSizeIo : UInt32
  tracingConsistency : UInt32
  tracingMaxWaitTime : UInt32
  tracingRetryWaitTime : UInt32
  prepareOnAllHosts : Bool
  prepareOnUpOrAddHost : Bool
  shuffleReplicas : Bool
  noCompact : Bool
  betaProtocol : Bool
  port : UInt16
  reconnectPolicy : ReconnectPolicy
  loadBalancingPolicy : LoadBalancing
  retryPolicy : Option UInt64
  timestampGen : Option UInt64
  sslOptions : Option UInt64
  executionProfiles : List (Bytes × List ProfileCall)
  deriving DecidableEq

/-- `php_scylladb_cluster_builder_new`, with the settings file left empty. -/
def Builder.initial : Builder where
  contactPoints := ascii "127.0.0.1"
  credentials := none
  localDc := none
  blacklistHosts := none
  whitelistHosts := none
  blacklistDcs := none
  whitelistDcs := none
  localRack := none
  applicationName := none
  applicationVersion := none
  localAddress := none
  usedHostsPerRemoteDc := 0
  connectTimeout := 5000
  protocolVersion := 4
  ioThreads := 1
  coreConnectionsPerHost := 1
  maxConnectionsPerHost := 2
  reconnectInterval := 2000
  tcpKeepaliveDelay := 0
  enableLatencyAwareRouting := true
  enableTcpNodelay := true
  enableTcpKeepalive := false
  enableSchema := true
  enableHostnameResolution := false
  enableRandomizedContactPoints := true
  allowRemoteDcsForLocalCl := false
  useTokenAwareRouting := true
  connectionHeartbeatInterval := 30
  requestTimeout := 12000
  reconnectMaxInterval := 60000
  speculativeExecutionDelay := 0
  speculativeExecutionMax := 2
  coalesceDelay := 200
  newRequestRatio := 50
  connectionIdleTimeout := 60
  maxSchemaWaitTime := 10000
  resolveTimeout := 2000
  monitorReportingInterval := 300
  queueSizeIo := 8192
  tracingConsistency := 1
  tracingMaxWaitTime := 15
  tracingRetryWaitTime := 3
  prepareOnAllHosts := true
  prepareOnUpOrAddHost := true
  shuffleReplicas := true
  noCompact := false
  betaProtocol := false
  port := 9042
  reconnectPolicy := .constant
  loadBalancingPolicy := .default
  retryPolicy := none
  timestampGen := none
  sslOptions := none
  executionProfiles := []

namespace Mixed

/-- `cache_key_mix_int` of a `uint32_t`. -/
def uint32 (v : UInt32) : Mixed :=
  .int v.toUInt64.toInt64

/-- `cache_key_mix_int` of an `int32_t`. -/
def int32 (v : Int32) : Mixed :=
  .int v.toInt64

/-- `cache_key_mix_int` of a `uint16_t`. -/
def uint16 (v : UInt16) : Mixed :=
  .int v.toUInt64.toInt64

/-- `cache_key_mix_int` of a `cass_bool_t`. -/
def bool (b : Bool) : Mixed :=
  .int (if b then 1 else 0)

end Mixed

def fixedFields (b : Builder) : List Mixed :=
  [ .zstr (some (ascii "cassandra")),
    .zstr (some b.contactPoints),
    .uint16 b.port,
    .int b.loadBalancingPolicy.code,
    .zstr b.localDc,
    .uint32 b.usedHostsPerRemoteDc,
    .bool b.allowRemoteDcsForLocalCl,
    .bool b.useTokenAwareRouting,
    .zstr (b.credentials.map Prod.fst),
    .zstr (b.credentials.map Prod.snd),
    .uint32 b.connectTimeout,
    .uint32 b.requestTimeout,
    .uint32 b.protocolVersion,
    .uint32 b.ioThreads,
    .uint32 b.coreConnectionsPerHost,
    .uint32 b.maxConnectionsPerHost,
    .uint32 b.reconnectInterval,
    .bool b.enableLatencyAwareRouting,
    .bool b.enableTcpNodelay,
    .bool b.enableTcpKeepalive,
    .uint32 b.tcpKeepaliveDelay,
    .bool b.enableSchema,
    .bool b.enableHostnameResolution,
    .bool b.enableRandomizedContactPoints,
    .uint32 b.connectionHeartbeatInterval,
    .zstr b.whitelistHosts,
    .zstr b.whitelistDcs,
    .zstr b.blacklistHosts,
    .zstr b.blacklistDcs,
    .zstr b.localRack,
    .zstr b.applicationName,
    .zstr b.applicationVersion,
    .int b.reconnectPolicy.code,
    .uint32 b.reconnectMaxInterval,
    .uint32 b.speculativeExecutionDelay,
    .int32 b.speculativeExecutionMax,
    .int32 b.coalesceDelay,
    .int32 b.newRequestRatio,
    .zstr b.localAddress,
    .uint32 b.connectionIdleTimeout,
    .uint32 b.maxSchemaWaitTime,
    .uint32 b.resolveTimeout,
    .uint32 b.monitorReportingInterval,
    .uint32 b.queueSizeIo,
    .uint32 b.tracingConsistency,
    .uint32 b.tracingMaxWaitTime,
    .uint32 b.tracingRetryWaitTime,
    .bool b.prepareOnAllHosts,
    .bool b.prepareOnUpOrAddHost,
    .bool b.shuffleReplicas,
    .bool b.noCompact,
    .bool b.betaProtocol ]

section

variable (thousandths : UInt64 → Int32)

/-- A profile contributes its name and the fingerprint of its setter calls. -/
def profileFields (profile : Bytes × List ProfileCall) : List Mixed :=
  [ .zstr (some profile.1), .ulong (configHash thousandths profile.2) ]

def keyFields (b : Builder) : List Mixed :=
  fixedFields b ++ b.executionProfiles.flatMap (profileFields thousandths)

def cacheKey (b : Builder) : UInt64 :=
  (keyFields thousandths b).foldl Mixed.mix cacheKeyInit

def keyStream (b : Builder) : Bytes :=
  streamOf (keyFields thousandths b)

theorem cacheKey_eq (b : Builder) :
    cacheKey thousandths b = cacheKeyMixBytes cacheKeyInit (keyStream thousandths b) :=
  foldl_mix _ _

/-- Every stream that is fingerprinted for a builder. -/
def fingerprinted (b : Builder) : List Bytes :=
  keyStream thousandths b ::
    b.executionProfiles.map fun profile => profileStream thousandths profile.2

end

/-- No two of these streams have one fingerprint. -/
def CollisionFree (streams : List Bytes) : Prop :=
  ∀ s ∈ streams, ∀ t ∈ streams,
    cacheKeyMixBytes cacheKeyInit s = cacheKeyMixBytes cacheKeyInit t → s = t

instance (streams : List Bytes) : Decidable (CollisionFree streams) :=
  inferInstanceAs (Decidable (∀ s ∈ streams, ∀ t ∈ streams,
    cacheKeyMixBytes cacheKeyInit s = cacheKeyMixBytes cacheKeyInit t → s = t))

/-- A C string ends at its first zero byte; `SAFE_ZEND_STRING` of a null string
is empty. -/
def safeZendString (s : Option Bytes) : Bytes :=
  (s.getD []).takeWhile (· ≠ 0)

/-- The load balancing call made, if any. -/
inductive BalancingCall where
  | none
  | roundRobin
  | dcAware (localDc : Bytes) (usedHostsPerRemoteDc : UInt32) (allowRemoteDcs : Bool)
  | rackAware (localDc localRack : Bytes)
  deriving DecidableEq

/-- The reconnect call made. -/
inductive ReconnectCall where
  | constant (delay : UInt32)
  | exponential (base max : UInt32)
  deriving DecidableEq

/-- Settings the Rust driver does not have. -/
structure CppSettings where
  maxConnectionsPerHost : UInt32
  prepareOnAllHosts : Bool
  newRequestRatio : Int32
  queueSizeIo : UInt32
  monitorReportingInterval : UInt32
  prepareOnUpOrAddHost : Bool
  noCompact : Bool
  tracingConsistency : UInt32
  tracingMaxWaitTime : UInt32
  tracingRetryWaitTime : UInt32
  useHostnameResolution : Bool
  deriving DecidableEq

/-- The arguments of the driver's setters. -/
structure ClusterSettings where
  loadBalance : BalancingCall
  blacklistFiltering : Option Bytes
  whitelistFiltering : Option Bytes
  blacklistDcFiltering : Option Bytes
  whitelistDcFiltering : Option Bytes
  tokenAwareRouting : Bool
  credentials : Option (Bytes × Bytes)
  connectTimeout : UInt32
  requestTimeout : UInt32
  ssl : Option UInt64
  contactPoints : Bytes
  port : UInt16
  protocolVersion : UInt32
  numThreadsIo : UInt32
  coreConnectionsPerHost : UInt32
  reconnect : ReconnectCall
  speculativeExecution : Option (UInt32 × Int32)
  coalesceDelay : Int32
  connectionIdleTimeout : UInt32
  maxSchemaWaitTime : UInt32
  resolveTimeout : UInt32
  shuffleReplicas : Bool
  useBetaProtocolVersion : Bool
  cpp : Option CppSettings
  localAddress : Option Bytes
  executionProfiles : List (Bytes × List ProfileCall)
  applicationName : Option Bytes
  applicationVersion : Option Bytes
  latencyAwareRouting : Bool
  tcpNodelay : Bool
  tcpKeepalive : Bool × UInt32
  useSchema : Bool
  useRandomizedContactPoints : Bool
  connectionHeartbeatInterval : UInt32
  timestampGen : Option UInt64
  retryPolicy : Option UInt64
  deriving DecidableEq

section

variable (backend : Backend)

def balancingCall (b : Builder) : BalancingCall :=
  match b.loadBalancingPolicy with
  | .default => .none
  | .roundRobin => .roundRobin
  | .dcAwareRoundRobin =>
    .dcAware (safeZendString b.localDc) b.usedHostsPerRemoteDc b.allowRemoteDcsForLocalCl
  | .rackAware =>
    -- the DataStax driver has no such policy: a warning, and no call
    if backend = .cassandra then .none
    else .rackAware (safeZendString b.localDc) (safeZendString b.localRack)

def reconnectCall (b : Builder) : ReconnectCall :=
  match b.reconnectPolicy with
  | .exponential => .exponential b.reconnectInterval b.reconnectMaxInterval
  | .constant => .constant b.reconnectInterval

def cppSettings (b : Builder) : Option CppSettings :=
  if backend = .scyllaRust then none
  else
    some
      { maxConnectionsPerHost := b.maxConnectionsPerHost
        prepareOnAllHosts := b.prepareOnAllHosts
        newRequestRatio := b.newRequestRatio
        queueSizeIo := b.queueSizeIo
        monitorReportingInterval := b.monitorReportingInterval
        prepareOnUpOrAddHost := b.prepareOnUpOrAddHost
        noCompact := b.noCompact
        tracingConsistency := b.tracingConsistency
        tracingMaxWaitTime := b.tracingMaxWaitTime
        tracingRetryWaitTime := b.tracingRetryWaitTime
        useHostnameResolution := b.enableHostnameResolution }

/-- What `build()` hands to the driver for a new cluster. -/
def applied (b : Builder) : ClusterSettings where
  loadBalance := balancingCall backend b
  blacklistFiltering := b.blacklistHosts
  whitelistFiltering := b.whitelistHosts
  blacklistDcFiltering := b.blacklistDcs
  whitelistDcFiltering := b.whitelistDcs
  tokenAwareRouting := b.useTokenAwareRouting
  credentials := b.credentials
  connectTimeout := b.connectTimeout
  requestTimeout := b.requestTimeout
  ssl := b.sslOptions
  contactPoints := b.contactPoints
  port := b.port
  protocolVersion := b.protocolVersion
  numThreadsIo := b.ioThreads
  coreConnectionsPerHost := b.coreConnectionsPerHost
  reconnect := reconnectCall b
  speculativeExecution :=
    if b.speculativeExecutionDelay > 0 then
      some (b.speculativeExecutionDelay, b.speculativeExecutionMax)
    else none
  coalesceDelay := b.coalesceDelay
  connectionIdleTimeout := b.connectionIdleTimeout
  maxSchemaWaitTime := b.maxSchemaWaitTime
  resolveTimeout := b.resolveTimeout
  shuffleReplicas := b.shuffleReplicas
  useBetaProtocolVersion := b.betaProtocol
  cpp := cppSettings backend b
  localAddress := b.localAddress
  executionProfiles :=
    b.executionProfiles.map fun profile => (profile.1, profile.2.map ProfileCall.handed)
  applicationName := b.applicationName
  applicationVersion := b.applicationVersion
  latencyAwareRouting := b.enableLatencyAwareRouting
  tcpNodelay := b.enableTcpNodelay
  tcpKeepalive := (b.enableTcpKeepalive, b.tcpKeepaliveDelay)
  useSchema := b.enableSchema
  useRandomizedContactPoints := b.enableRandomizedContactPoints
  connectionHeartbeatInterval := b.connectionHeartbeatInterval
  timestampGen := b.timestampGen
  retryPolicy := b.retryPolicy

end

end Cluster
end ScyllaDriver
