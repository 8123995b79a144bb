import ScyllaDriver.Library.CString

/-!
# Futures of the driver

A future of the driver is pending until it is settled, once, with an error or
with a value. A wait for it succeeds as soon as it is settled, whatever the
timeout; while it is pending a wait can only time out.
-/

namespace ScyllaDriver

open CString

structure CassError where
  code : Nat
  message : Bytes
  deriving DecidableEq

/-- How a driver future stands. -/
inductive Outcome (α : Type) where
  | pending
  | error (e : CassError)
  | value (a : α)
  deriving DecidableEq

inductive Failure where
  /-- The wait timed out, or the timeout argument was refused. -/
  | waitFailed
  /-- The driver's own error. -/
  | driverError (e : CassError)
  deriving DecidableEq

/-- `php_scylladb_future_wait_timed` followed by `php_scylladb_future_is_error`:
the value, or the exception. -/
def Outcome.wait {α : Type} : Outcome α → Except Failure α
  | .pending => .error .waitFailed
  | .error e => .error (.driverError e)
  | .value a => .ok a

end ScyllaDriver
