import ScyllaDriver.Cluster.Consistency
import ScyllaDriver.Cluster.ExecutionProfile
import ScyllaDriver.Library.FloatFormat

/-!
# What a profile's fingerprint shows of its settings

The setters of `Cassandra\ExecutionProfile` check their arguments, mix them into
`config_hash` and hand them to the driver's profile, whose fields keep the last value set, or
collect host names.

The stream shows the whole sequence of calls, but of a time in milliseconds, a count and a
policy's address only the low 32 bits, and of the exclusion threshold the thousandths. So
profiles with one stream can differ in four of the driver's fields, and in no others.
-/

namespace ScyllaDriver
namespace Cluster

open CString FloatFormat

/-- `throw_invalid_argument(object, name, expected)`. -/
structure InvalidArgument where
  name : String
  expected : String
  deriving DecidableEq

/-- The C expressions that turn a double into an integer. -/
structure DoubleCasts where
  /-- `(int)(x * 1000)`. -/
  thousandths : UInt64 → Int32
  /-- `(cass_uint64_t)ceil(x * 1000)`. -/
  milliseconds : UInt64 → UInt64
  /-- `(cass_int64_t)ceil(x * 1000)`. -/
  signedMilliseconds : UInt64 → Int64

/-- `x < 0`. -/
def doubleNegative (x : UInt64) : Bool :=
  decide (binary64.less x.toNat 0)

/-- `x <= 0`. -/
def doubleNotPositive (x : UInt64) : Bool :=
  decide (¬ binary64.isNan x.toNat ∧ binary64.position x.toNat ≤ 0)

/-- A call of a with-method; a double is given by its bits, an argument of a filter that is
no string by `none`. -/
inductive ProfileMethod where
  | withConsistency (consistency : Int64)
  | withSerialConsistency (consistency : Int64)
  | withRequestTimeout (timeout : UInt64)
  | withRetryPolicy (policy : UInt64)
  | withRoundRobinLoadBalancingPolicy
  | withDatacenterAwareRoundRobinLoadBalancingPolicy (localDc : Bytes)
      (hostsPerRemoteDc : Int64) (allowRemoteForLocal : Bool)
  | withTokenAwareRouting (enabled : Bool)
  | withTokenAwareRoutingShuffleReplicas (enabled : Bool)
  | withLatencyAwareRouting (enabled : Bool)
  | withLatencyAwareRoutingSettings (exclusionThreshold scale retryPeriod updateRate : UInt64)
      (minMeasured : Int64)
  | withConstantSpeculativeExecutionPolicy (delay : UInt64) (maxExecutions : Int64)
  | withNoSpeculativeExecutionPolicy
  | withWhiteListHosts (args : List (Option Bytes))
  | withBlackListHosts (args : List (Option Bytes))
  | withWhiteListDCs (args : List (Option Bytes))
  | withBlackListDCs (args : List (Option Bytes))

/-- `php_scylladb_profile_join`. -/
def profileJoin (args : List (Option Bytes)) : Option Bytes :=
  (args.mapM id).map (List.intercalate (ascii ","))

/-- `php_scylladb_profile_filter`, up to the call of the driver. -/
def profileFilter (filter : Bytes → ProfileCall) (args : List (Option Bytes)) :
    Except InvalidArgument ProfileCall :=
  match profileJoin args with
  | none => .error ⟨"hosts", "a string ip address, hostname or datacenter name"⟩
  | some joined => .ok (filter joined)

/-- The checks of a method and what it hands to the driver. -/
def ProfileMethod.call (casts : DoubleCasts) : ProfileMethod → Except InvalidArgument ProfileCall
  | .withConsistency consistency =>
    if validateConsistency consistency.toUInt64.toUInt32 = -1 then
      .error ⟨"consistency", "one of Cassandra::CONSISTENCY_*"⟩
    else .ok (.consistency consistency.toInt32)
  | .withSerialConsistency consistency =>
    if validateSerialConsistency consistency.toUInt64.toUInt32 = -1 then
      .error ⟨"consistency", "Cassandra::CONSISTENCY_SERIAL or Cassandra::CONSISTENCY_LOCAL_SERIAL"⟩
    else .ok (.serialConsistency consistency.toInt32)
  | .withRequestTimeout timeout =>
    if doubleNegative timeout then .error ⟨"timeout", "a positive number"⟩
    else .ok (.requestTimeout (casts.milliseconds timeout))
  | .withRetryPolicy policy => .ok (.retryPolicy policy)
  | .withRoundRobinLoadBalancingPolicy => .ok .roundRobin
  | .withDatacenterAwareRoundRobinLoadBalancingPolicy localDc hostsPerRemoteDc
      allowRemoteForLocal =>
      if hostsPerRemoteDc < 0 then
        .error ⟨"hostPerRemoteDatacenter", "zero or a positive integer"⟩
      else .ok (.dcAware localDc hostsPerRemoteDc.toUInt64.toUInt32 allowRemoteForLocal)
  | .withTokenAwareRouting enabled => .ok (.tokenAware enabled)
  | .withTokenAwareRoutingShuffleReplicas enabled => .ok (.shuffleReplicas enabled)
  | .withLatencyAwareRouting enabled => .ok (.latencyAware enabled)
  | .withLatencyAwareRoutingSettings exclusionThreshold scale retryPeriod updateRate minMeasured =>
      if doubleNegative exclusionThreshold || doubleNegative scale ||
          doubleNegative retryPeriod || doubleNegative updateRate || minMeasured < 0 then
        .error ⟨"latency aware routing settings", "positive numbers"⟩
      else
        .ok (.latencyAwareSettings exclusionThreshold (casts.milliseconds scale)
          (casts.milliseconds retryPeriod) (casts.milliseconds updateRate) minMeasured.toUInt64)
  | .withConstantSpeculativeExecutionPolicy delay maxExecutions =>
    if doubleNotPositive delay then .error ⟨"delay", "a positive number"⟩
    else if maxExecutions ≤ 0 then
      .error ⟨"maxSpeculativeExecutions", "a positive integer"⟩
    else .ok (.speculative (casts.signedMilliseconds delay) maxExecutions.toInt32)
  | .withNoSpeculativeExecutionPolicy => .ok .noSpeculative
  | .withWhiteListHosts args => profileFilter .whitelistHosts args
  | .withBlackListHosts args => profileFilter .blacklistHosts args
  | .withWhiteListDCs args => profileFilter .whitelistDcs args
  | .withBlackListDCs args => profileFilter .blacklistDcs args

/-- The calls that reach `config_hash` and the driver. -/
def profileCalls (casts : DoubleCasts) (methods : List ProfileMethod) : List ProfileCall :=
  methods.filterMap fun method =>
    match method.call casts with
    | .error _ => none
    | .ok call => some call

/-- `LatencyAwarePolicy::Settings`. -/
structure LatencySettings where
  exclusionThreshold : UInt64
  scaleNs : UInt64
  retryPeriodNs : UInt64
  updateRateMs : UInt64
  minMeasured : UInt64
  deriving DecidableEq

inductive BasePolicy where
  | roundRobin
  | dcAware (localDc : Bytes) (hostsPerRemoteDc : UInt32) (allowRemoteForLocal : Bool)
  deriving DecidableEq

inductive SpeculativePolicy where
  | none
  | constant (delayMs : Int64) (maxExecutions : Int32)
  deriving DecidableEq

/-- `ExecutionProfile` of the driver. -/
structure DriverProfile where
  requestTimeoutMs : UInt64
  consistency : Int32
  serialConsistency : Int32
  blacklist : List Bytes
  blacklistDc : List Bytes
  latencyAwareRouting : Bool
  latencyAwareRoutingSettings : LatencySettings
  tokenAwareRouting : Bool
  tokenAwareRoutingShuffleReplicas : Bool
  whitelist : List Bytes
  whitelistDc : List Bytes
  baseLoadBalancingPolicy : Option BasePolicy
  retryPolicy : Option UInt64
  speculativeExecutionPolicy : Option SpeculativePolicy
  deriving DecidableEq

/-- The constructor; 0x4000000000000000 is the double 2.0. -/
def DriverProfile.new : DriverProfile where
  requestTimeoutMs := 0xffffffffffffffff
  consistency := 0xffff
  serialConsistency := 0xffff
  blacklist := []
  blacklistDc := []
  latencyAwareRouting := false
  latencyAwareRoutingSettings := ⟨0x4000000000000000, 100000000, 10000000000, 100, 50⟩
  tokenAwareRouting := true
  tokenAwareRoutingShuffleReplicas := true
  whitelist := []
  whitelistDc := []
  baseLoadBalancingPolicy := none
  retryPolicy := none
  speculativeExecutionPolicy := none

/-- `trim`. -/
def trim (s : Bytes) : Bytes :=
  ((s.dropWhile isspace).reverse.dropWhile isspace).reverse

/-- `explode`, which appends to the vector. -/
def explode (s : Bytes) (list : List Bytes) : List Bytes :=
  list ++ ((s.splitOn (chr ',')).map trim).filter (· ≠ [])

/-- A filtering setter: an empty string clears the list. -/
def filtering (hosts : Bytes) (list : List Bytes) : List Bytes :=
  if CString.seen hosts = [] then [] else explode (CString.seen hosts) list

/-- The setters of the driver. A call that it refuses changes nothing. -/
def DriverProfile.apply (profile : DriverProfile) : ProfileCall → DriverProfile
  | .consistency level => { profile with consistency := level }
  | .serialConsistency level => { profile with serialConsistency := level }
  | .requestTimeout timeoutMs => { profile with requestTimeoutMs := timeoutMs }
  | .retryPolicy policy => { profile with retryPolicy := some policy }
  | .roundRobin => { profile with baseLoadBalancingPolicy := some .roundRobin }
  | .dcAware localDc hostsPerRemoteDc allowRemoteForLocal =>
    if localDc = [] then profile
    else
      { profile with
        baseLoadBalancingPolicy := some (.dcAware localDc hostsPerRemoteDc allowRemoteForLocal) }
  | .tokenAware enabled => { profile with tokenAwareRouting := enabled }
  | .shuffleReplicas enabled => { profile with tokenAwareRoutingShuffleReplicas := enabled }
  | .latencyAware enabled => { profile with latencyAwareRouting := enabled }
  | .latencyAwareSettings exclusionThreshold scaleMs retryPeriodMs updateRateMs minMeasured =>
    { profile with
      latencyAwareRoutingSettings :=
        { exclusionThreshold := exclusionThreshold
          scaleNs := scaleMs * 1000 * 1000
          retryPeriodNs := retryPeriodMs * 1000 * 1000
          updateRateMs := updateRateMs
          minMeasured := minMeasured } }
  | .speculative delayMs maxExecutions =>
    if delayMs < 0 ∨ maxExecutions < 0 then profile
    else { profile with speculativeExecutionPolicy := some (.constant delayMs maxExecutions) }
  | .noSpeculative => { profile with speculativeExecutionPolicy := some .none }
  | .whitelistHosts joined => { profile with whitelist := filtering joined profile.whitelist }
  | .blacklistHosts joined => { profile with blacklist := filtering joined profile.blacklist }
  | .whitelistDcs joined => { profile with whitelistDc := filtering joined profile.whitelistDc }
  | .blacklistDcs joined => { profile with blacklistDc := filtering joined profile.blacklistDc }

def driverProfile (calls : List ProfileCall) : DriverProfile :=
  calls.foldl DriverProfile.apply .new

namespace ProfileCall

/-- The call with its arguments cut to what is mixed in. -/
def shown (casts : DoubleCasts) : ProfileCall → ProfileCall
  | .requestTimeout timeoutMs => .requestTimeout timeoutMs.toUInt32.toUInt64
  | .retryPolicy policy => .retryPolicy policy.toUInt32.toUInt64
  | .latencyAwareSettings exclusionThreshold scaleMs retryPeriodMs updateRateMs minMeasured =>
    .latencyAwareSettings (casts.thousandths exclusionThreshold).toUInt32.toUInt64
      scaleMs.toUInt32.toUInt64 retryPeriodMs.toUInt32.toUInt64
      updateRateMs.toUInt32.toUInt64 minMeasured.toUInt32.toUInt64
  | .speculative delayMs maxExecutions =>
    .speculative delayMs.toUInt64.toUInt32.toUInt64.toInt64 maxExecutions
  | call => call

def setsTimeout : ProfileCall → Option UInt64
  | .requestTimeout timeoutMs => some timeoutMs
  | _ => none

def setsRetryPolicy : ProfileCall → Option UInt64
  | .retryPolicy policy => some policy
  | _ => none

def setsLatencySettings : ProfileCall → Option LatencySettings
  | .latencyAwareSettings exclusionThreshold scaleMs retryPeriodMs updateRateMs minMeasured =>
    some ⟨exclusionThreshold, scaleMs * 1000 * 1000, retryPeriodMs * 1000 * 1000,
      updateRateMs, minMeasured⟩
  | _ => none

/-- The speculative execution policy that a call sets, unless the driver refuses it. -/
def setsSpeculation : ProfileCall → Option SpeculativePolicy
  | .speculative delayMs maxExecutions =>
    if delayMs < 0 ∨ maxExecutions < 0 then none else some (.constant delayMs maxExecutions)
  | .noSpeculative => some .none
  | _ => none

end ProfileCall

/-- The last of the values that the calls set. -/
def lastSetBy {α : Type} (sets : ProfileCall → Option α) (calls : List ProfileCall) : Option α :=
  (calls.filterMap sets).getLast?

/-- The last calls of the four setters whose arguments are cut agree in the whole arguments,
as far as the driver uses them. -/
structure LastCallsAgree (calls₁ calls₂ : List ProfileCall) : Prop where
  timeout : lastSetBy ProfileCall.setsTimeout calls₁ = lastSetBy ProfileCall.setsTimeout calls₂
  retryPolicy :
    lastSetBy ProfileCall.setsRetryPolicy calls₁ = lastSetBy ProfileCall.setsRetryPolicy calls₂
  latency :
    lastSetBy ProfileCall.setsLatencySettings calls₁ =
      lastSetBy ProfileCall.setsLatencySettings calls₂
  speculation :
    lastSetBy ProfileCall.setsSpeculation calls₁ = lastSetBy ProfileCall.setsSpeculation calls₂

theorem field_foldl {α : Type} {field : DriverProfile → α} {sets : ProfileCall → Option α}
    (hfield : ∀ profile call, field (profile.apply call) = (sets call).getD (field profile))
    (calls : List ProfileCall) (profile : DriverProfile) :
    field (calls.foldl DriverProfile.apply profile) =
      (lastSetBy sets calls).getD (field profile) := by
  induction calls generalizing profile with
  | nil => rfl
  | cons call calls ih =>
    rw [List.foldl_cons, ih, hfield, lastSetBy, lastSetBy]
    cases hset : sets call with
    | none => rw [List.filterMap_cons_none hset]; rfl
    | some value =>
      rw [List.filterMap_cons_some hset, List.getLast?_cons]
      rfl

theorem lastSetBy_map {α β : Type} (sets : ProfileCall → Option α) (f : α → β)
    (calls : List ProfileCall) :
    lastSetBy (fun call => (sets call).map f) calls = (lastSetBy sets calls).map f := by
  have hmap : calls.filterMap (fun call => (sets call).map f) = (calls.filterMap sets).map f :=
    (List.map_filterMap ..).symm
  rw [lastSetBy, lastSetBy, hmap, List.getLast?_map]

theorem requestTimeoutMs_driverProfile (calls : List ProfileCall) :
    (driverProfile calls).requestTimeoutMs =
      (lastSetBy ProfileCall.setsTimeout calls).getD DriverProfile.new.requestTimeoutMs := by
  refine field_foldl (fun profile call => ?_) calls .new
  cases call <;> first | rfl | (simp only [DriverProfile.apply]; split <;> rfl)

theorem latencySettings_driverProfile (calls : List ProfileCall) :
    (driverProfile calls).latencyAwareRoutingSettings =
      (lastSetBy ProfileCall.setsLatencySettings calls).getD
        DriverProfile.new.latencyAwareRoutingSettings := by
  refine field_foldl (fun profile call => ?_) calls .new
  cases call <;> first | rfl | (simp only [DriverProfile.apply]; split <;> rfl)

theorem retryPolicy_driverProfile (calls : List ProfileCall) :
    (driverProfile calls).retryPolicy = lastSetBy ProfileCall.setsRetryPolicy calls := by
  have hfield : ∀ (profile : DriverProfile) (call : ProfileCall),
      (profile.apply call).retryPolicy =
        ((call.setsRetryPolicy).map some).getD profile.retryPolicy := by
    intro profile call
    cases call with
    | dcAware | speculative =>
      simp only [DriverProfile.apply]
      split <;> rfl
    | _ => rfl
  rw [driverProfile, field_foldl hfield, lastSetBy_map]
  cases lastSetBy ProfileCall.setsRetryPolicy calls with
  | none => rfl
  | some policy => rfl

theorem speculation_driverProfile (calls : List ProfileCall) :
    (driverProfile calls).speculativeExecutionPolicy =
      lastSetBy ProfileCall.setsSpeculation calls := by
  have hfield : ∀ (profile : DriverProfile) (call : ProfileCall),
      (profile.apply call).speculativeExecutionPolicy =
        ((call.setsSpeculation).map some).getD profile.speculativeExecutionPolicy := by
    intro profile call
    cases call with
    | dcAware =>
      simp only [DriverProfile.apply]
      split <;> rfl
    | speculative delayMs maxExecutions =>
      have hsets : (ProfileCall.speculative delayMs maxExecutions).setsSpeculation =
          if delayMs < 0 ∨ maxExecutions < 0 then none
          else some (.constant delayMs maxExecutions) := rfl
      simp only [DriverProfile.apply, hsets]
      split_ifs
      · rfl
      · rfl
    | _ => rfl
  rw [driverProfile, field_foldl hfield, lastSetBy_map]
  cases lastSetBy ProfileCall.setsSpeculation calls with
  | none => rfl
  | some policy => rfl

namespace DriverProfile

/-- The profile without the four fields of which the stream shows a part only. -/
def visible (profile : DriverProfile) : DriverProfile :=
  { profile with
    requestTimeoutMs := new.requestTimeoutMs
    retryPolicy := new.retryPolicy
    latencyAwareRoutingSettings := new.latencyAwareRoutingSettings
    speculativeExecutionPolicy := new.speculativeExecutionPolicy }

theorem visible_apply (casts : DoubleCasts) (profile : DriverProfile) (call : ProfileCall) :
    (profile.apply call).visible = (profile.visible.apply (call.shown casts)).visible := by
  cases call <;>
    first
      | rfl
      | (simp only [apply, ProfileCall.shown]; split <;> rfl)
      | (simp only [apply, ProfileCall.shown]; split <;> split <;> rfl)

/-- The visible fields follow from what the calls show. -/
theorem visible_driverProfile {casts : DoubleCasts} {calls₁ calls₂ : List ProfileCall}
    (hshown : calls₁.map (ProfileCall.shown casts) = calls₂.map (ProfileCall.shown casts)) :
    (driverProfile calls₁).visible = (driverProfile calls₂).visible := by
  have hfold : ∀ (calls : List ProfileCall) (profile : DriverProfile),
      (calls.foldl apply profile).visible =
        (calls.map (ProfileCall.shown casts)).foldl (fun p call => (p.apply call).visible)
          profile.visible := by
    intro calls
    induction calls with
    | nil => exact fun _ => rfl
    | cons call calls ih =>
      intro profile
      rw [List.foldl_cons, ih, visible_apply casts, List.map_cons, List.foldl_cons]
  rw [driverProfile, driverProfile, hfold, hfold, hshown]

theorem eq_iff_visible (p q : DriverProfile) :
    p = q ↔ p.visible = q.visible ∧ p.requestTimeoutMs = q.requestTimeoutMs ∧
      p.retryPolicy = q.retryPolicy ∧
      p.latencyAwareRoutingSettings = q.latencyAwareRoutingSettings ∧
      p.speculativeExecutionPolicy = q.speculativeExecutionPolicy := by
  constructor
  · rintro rfl
    exact ⟨rfl, rfl, rfl, rfl, rfl⟩
  · rintro ⟨hvisible, htimeout, hpolicy, hlatency, hspeculation⟩
    cases p
    cases q
    simp only [visible, mk.injEq] at hvisible htimeout hpolicy hlatency hspeculation ⊢
    tauto

end DriverProfile

theorem mixTruncated_content_iff {v w : UInt64} :
    (mixTruncated v).content = (mixTruncated w).content ↔ v.toUInt32 = w.toUInt32 := by
  rw [mixTruncated, mixTruncated, mixInt32_content_inj,
    (Function.LeftInverse.injective UInt32.toUInt32_toInt32).eq_iff]

@[simp] theorem ProfileCall.setter_shown (casts : DoubleCasts) (call : ProfileCall) :
    (call.shown casts).setter = call.setter := by
  cases call <;> rfl

theorem mixedArgs_eq_iff_shown_eq (casts : DoubleCasts) {a b : ProfileCall}
    (hsetter : a.setter = b.setter) :
    (a.mixedArgs casts.thousandths).map Mixed.content =
        (b.mixedArgs casts.thousandths).map Mixed.content ↔
      a.shown casts = b.shown casts := by
  cases a <;> cases b <;> cases hsetter <;>
    simp only [ProfileCall.mixedArgs, ProfileCall.shown, List.map_cons, List.map_nil,
      List.cons.injEq, and_true, mixInt32_content_inj, mixTruncated_content_iff,
      mixBool_content_inj, zstr_content, Content.text.injEq,
      (Function.LeftInverse.injective UInt32.toUInt32_toInt32).eq_iff,
      (Function.LeftInverse.injective UInt64.toUInt64_toInt64).eq_iff,
      (Function.LeftInverse.injective Int32.toInt32_toUInt32).eq_iff, UInt32.toUInt64_inj,
      ProfileCall.consistency.injEq, ProfileCall.serialConsistency.injEq,
      ProfileCall.requestTimeout.injEq, ProfileCall.retryPolicy.injEq, ProfileCall.dcAware.injEq,
      ProfileCall.tokenAware.injEq, ProfileCall.shuffleReplicas.injEq,
      ProfileCall.latencyAware.injEq, ProfileCall.latencyAwareSettings.injEq,
      ProfileCall.speculative.injEq, ProfileCall.whitelistHosts.injEq,
      ProfileCall.blacklistHosts.injEq, ProfileCall.whitelistDcs.injEq,
      ProfileCall.blacklistDcs.injEq]

theorem seen_eq_iff_shown_eq (casts : DoubleCasts) (a b : ProfileCall) :
    a.seen casts.thousandths = b.seen casts.thousandths ↔ a.shown casts = b.shown casts := by
  constructor
  · intro hseen
    obtain ⟨htag, hargs⟩ := List.cons.inj hseen
    have hsetter := setter_eq_of_tag_eq (Content.text.inj htag)
    exact (mixedArgs_eq_iff_shown_eq casts hsetter).mp hargs
  · intro hshown
    have hsetter : a.setter = b.setter := by
      simpa using congrArg ProfileCall.setter hshown
    have hargs := (mixedArgs_eq_iff_shown_eq casts hsetter).mpr hshown
    simp only [ProfileCall.seen, ProfileCall.mixed, List.map_cons, hsetter, hargs]

theorem map_seen_eq_iff (casts : DoubleCasts) (calls₁ calls₂ : List ProfileCall) :
    calls₁.map (ProfileCall.seen casts.thousandths) =
        calls₂.map (ProfileCall.seen casts.thousandths) ↔
      calls₁.map (ProfileCall.shown casts) = calls₂.map (ProfileCall.shown casts) := by
  induction calls₁ generalizing calls₂ with
  | nil => cases calls₂ <;> simp
  | cons call₁ calls₁ ih =>
    cases calls₂ with
    | nil => simp
    | cons call₂ calls₂ =>
      rw [List.map_cons, List.map_cons, List.map_cons, List.map_cons, List.cons.injEq,
        List.cons.injEq, seen_eq_iff_shown_eq, ih]

/-- Calls that are shown alike leave the same stream. -/
theorem profileStream_eq_of_seen_eq {thousandths : UInt64 → Int32}
    {calls₁ calls₂ : List ProfileCall}
    (hseen : calls₁.map (ProfileCall.seen thousandths) =
      calls₂.map (ProfileCall.seen thousandths)) :
    profileStream thousandths calls₁ = profileStream thousandths calls₂ := by
  rw [profileStream_eq, profileStream_eq, hseen]

/-- If the streams of two profiles are the same, so are the settings that the driver has. -/
def StreamTellsSettings (casts : DoubleCasts) (methods₁ methods₂ : List ProfileMethod) : Prop :=
  profileStream casts.thousandths (profileCalls casts methods₁) =
      profileStream casts.thousandths (profileCalls casts methods₂) →
    driverProfile (profileCalls casts methods₁) = driverProfile (profileCalls casts methods₂)

/-- The condition: profiles whose calls agree in their cut arguments have the same whole
arguments in the last calls. -/
def CutArgumentsSuffice (casts : DoubleCasts) (methods₁ methods₂ : List ProfileMethod) : Prop :=
  (profileCalls casts methods₁).map (ProfileCall.shown casts) =
      (profileCalls casts methods₂).map (ProfileCall.shown casts) →
    LastCallsAgree (profileCalls casts methods₁) (profileCalls casts methods₂)

theorem eq_iff_getD_eq {α : Type} {o₁ o₂ : Option α} (hsome : o₁.isSome = o₂.isSome) (default : α) :
    o₁ = o₂ ↔ o₁.getD default = o₂.getD default := by
  cases o₁ <;> cases o₂ <;> simp_all

theorem isSome_lastSetBy {α : Type} {casts : DoubleCasts} {sets : ProfileCall → Option α}
    (hsets : ∀ call : ProfileCall, (sets (call.shown casts)).isSome = (sets call).isSome)
    {calls₁ calls₂ : List ProfileCall}
    (hshown : calls₁.map (ProfileCall.shown casts) = calls₂.map (ProfileCall.shown casts)) :
    (lastSetBy sets calls₁).isSome = (lastSetBy sets calls₂).isSome := by
  have hany : ∀ calls : List ProfileCall, (lastSetBy sets calls).isSome =
      (calls.map (ProfileCall.shown casts)).any fun call => (sets call).isSome := by
    intro calls
    rw [lastSetBy, List.any_map]
    induction calls with
    | nil => rfl
    | cons call calls ih =>
      rw [List.any_cons, Function.comp_apply, hsets, ← ih]
      cases hset : sets call with
      | none => rw [List.filterMap_cons_none hset]; rfl
      | some value =>
        rw [List.filterMap_cons_some hset, List.getLast?_cons]
        rfl
  rw [hany, hany, hshown]

/-- For calls that are shown alike, the settings are the same if and only if the last calls
agree. -/
theorem driverProfile_eq_iff {casts : DoubleCasts} {calls₁ calls₂ : List ProfileCall}
    (hshown : calls₁.map (ProfileCall.shown casts) = calls₂.map (ProfileCall.shown casts)) :
    driverProfile calls₁ = driverProfile calls₂ ↔ LastCallsAgree calls₁ calls₂ := by
  have htimeout : (lastSetBy ProfileCall.setsTimeout calls₁).isSome =
      (lastSetBy ProfileCall.setsTimeout calls₂).isSome :=
    isSome_lastSetBy (fun call => by cases call <;> rfl) hshown
  have hlatency : (lastSetBy ProfileCall.setsLatencySettings calls₁).isSome =
      (lastSetBy ProfileCall.setsLatencySettings calls₂).isSome :=
    isSome_lastSetBy (fun call => by cases call <;> rfl) hshown
  rw [DriverProfile.eq_iff_visible,
    and_iff_right (DriverProfile.visible_driverProfile hshown), requestTimeoutMs_driverProfile,
    requestTimeoutMs_driverProfile, ← eq_iff_getD_eq htimeout, latencySettings_driverProfile,
    latencySettings_driverProfile, ← eq_iff_getD_eq hlatency, retryPolicy_driverProfile,
    retryPolicy_driverProfile, speculation_driverProfile, speculation_driverProfile]
  constructor
  · rintro ⟨h₁, h₂, h₃, h₄⟩
    exact ⟨h₁, h₂, h₃, h₄⟩
  · rintro ⟨h₁, h₂, h₃, h₄⟩
    exact ⟨h₁, h₂, h₃, h₄⟩

/-- The stream of a profile tells its settings, unless a last call has an argument that was
cut on its way into the stream. -/
theorem streamTellsSettings_iff
    (casts : DoubleCasts)
    {methods₁ methods₂ : List ProfileMethod}
    (hclean₁ : ∀ call ∈ profileCalls casts methods₁, call.Clean)
    (hclean₂ : ∀ call ∈ profileCalls casts methods₂, call.Clean) :
    StreamTellsSettings casts methods₁ methods₂ ↔
      CutArgumentsSuffice casts methods₁ methods₂ := by
  unfold StreamTellsSettings CutArgumentsSuffice
  have hstream : profileStream casts.thousandths (profileCalls casts methods₁) =
        profileStream casts.thousandths (profileCalls casts methods₂) ↔
      (profileCalls casts methods₁).map (ProfileCall.shown casts) =
        (profileCalls casts methods₂).map (ProfileCall.shown casts) := by
    rw [← map_seen_eq_iff]
    exact ⟨map_seen_eq_of_profileStream_eq hclean₁ hclean₂, profileStream_eq_of_seen_eq⟩
  rw [hstream]
  exact forall_congr' driverProfile_eq_iff

def zeroCasts : DoubleCasts where
  thousandths := fun _ => 0
  milliseconds := fun _ => 0
  signedMilliseconds := fun _ => 0

theorem streamTellsSettings_overwritten :
    StreamTellsSettings zeroCasts
      [.withLatencyAwareRoutingSettings 0 0 0 0 1, .withLatencyAwareRoutingSettings 0 0 0 0 5]
      [.withLatencyAwareRoutingSettings 0 0 0 0 4294967297,
        .withLatencyAwareRoutingSettings 0 0 0 0 5] := by
  have hclean : ∀ call : ProfileCall, call.setter = .latencyAwareSettings → call.Clean := by
    intro call hsetter
    cases call <;> trivial
  refine (streamTellsSettings_iff zeroCasts (fun call hmem => hclean call ?_)
    (fun call hmem => hclean call ?_)).mpr fun _ => ⟨by decide, by decide, by decide, by decide⟩
  · revert call
    decide
  · revert call
    decide

/-- The stream misses a difference of 2³² in the minimum of measurements, and takes a zero
byte in a host name for the end of the call. -/
theorem stream_misses_settings :
    ¬ StreamTellsSettings zeroCasts [.withLatencyAwareRoutingSettings 0 0 0 0 1]
        [.withLatencyAwareRoutingSettings 0 0 0 0 4294967297] ∧
      ¬ StreamTellsSettings zeroCasts
        [.withWhiteListHosts [some (ascii "a")], .withConsistency 1]
        [.withWhiteListHosts
          [some (ascii "a" ++ [0] ++ ascii "consistency" ++ [0, 1, 0, 0, 0, 0, 0, 0])]] := by
  refine ⟨fun htells => ?_, fun htells => ?_⟩
  · exact absurd (htells (by decide)) (by decide)
  · exact absurd (htells (by decide)) (by decide)

end Cluster
end ScyllaDriver
