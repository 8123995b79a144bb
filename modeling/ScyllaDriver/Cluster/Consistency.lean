import Mathlib.Data.List.Basic

/-!
# Consistency levels

`CassConsistency` and the checks of `php_scylladb_consistency.h`. The checks take 32 bits,
whatever the integer was that they are called with.
-/

namespace ScyllaDriver
namespace Cluster

/-- `CassConsistency`. -/
inductive Consistency where
  | any
  | one
  | two
  | three
  | quorum
  | all
  | localQuorum
  | eachQuorum
  | serial
  | localSerial
  | localOne
  deriving DecidableEq, Repr

def Consistency.code : Consistency → UInt32
  | .any => 0x0000
  | .one => 0x0001
  | .two => 0x0002
  | .three => 0x0003
  | .quorum => 0x0004
  | .all => 0x0005
  | .localQuorum => 0x0006
  | .eachQuorum => 0x0007
  | .serial => 0x0008
  | .localSerial => 0x0009
  | .localOne => 0x000A

def Consistency.levels : List Consistency :=
  [.any, .one, .two, .three, .quorum, .all, .localQuorum, .eachQuorum, .serial, .localSerial,
    .localOne]

def Consistency.serialLevels : List Consistency :=
  [.serial, .localSerial]

/-- `php_scylladb_validate_consistency`. -/
def validateConsistency (consistency : UInt32) : Int32 :=
  if consistency ∈ Consistency.levels.map Consistency.code then 0 else -1

/-- `php_scylladb_validate_serial_consistency`. -/
def validateSerialConsistency (serialConsistency : UInt32) : Int32 :=
  if serialConsistency ∈ Consistency.serialLevels.map Consistency.code then 0 else -1

theorem validateConsistency_eq_iff (consistency : UInt32) :
    validateConsistency consistency = -1 ↔
      consistency ∉ Consistency.levels.map Consistency.code := by
  unfold validateConsistency
  split
  · rename_i hmem
    exact iff_of_false (by decide) (not_not_intro hmem)
  · rename_i hmem
    exact iff_of_true rfl hmem

theorem validateSerialConsistency_eq_iff (serialConsistency : UInt32) :
    validateSerialConsistency serialConsistency = -1 ↔
      serialConsistency ∉ Consistency.serialLevels.map Consistency.code := by
  unfold validateSerialConsistency
  split
  · rename_i hmem
    exact iff_of_false (by decide) (not_not_intro hmem)
  · rename_i hmem
    exact iff_of_true rfl hmem

end Cluster
end ScyllaDriver
