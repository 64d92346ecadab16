import FileProcessing.Api.FileService

/-!
# The two sweeps of the worker

`cleanupPendingUploads` and `cleanupGuestResources` differ in the batch they read and in how they remove a row: one loop,
with the two calls as parameters.
-/

namespace FileProcessing

/-- Which of the two sweeps. -/
inductive SweepKind where
  | pendingUploads
  | guestResources
  deriving DecidableEq, Repr

/-- The suspension points of a sweep: `cutoff`, the read of the batch, and the two calls of the loop, with the items the loop
has still to reach and the length of the batch. -/
inductive Sweep where
  | cutoff
  | find (before : Time)
  | removeObject (file : FileRow) (rest : List FileRow) (count : Nat)
  | removeRow (file : FileRow) (rest : List FileRow) (count : Nat)
  | returned (count : Nat)
  | threw (err : Err)
  deriving DecidableEq, Repr

/-- The loop with the items that are left. -/
def Sweep.loop (count : Nat) : List FileRow → Sweep
  | [] => .returned count
  | file :: rest => .removeObject file rest count

/-- The read of the batch. -/
def SweepKind.findExpired : SweepKind → Time → Call (List FileRow)
  | .pendingUploads, before => .findExpiredPending before
  | .guestResources, before => .findExpiredGuestFiles before

/-- The age past which a row is swept. -/
def SweepKind.ttlSeconds (cfg : Config) : SweepKind → Nat
  | .pendingUploads => cfg.pendingUploadTtlSeconds
  | .guestResources => cfg.guestResourceTtlSeconds

/-- What a loop does once the row of an item is removed, or not. -/
def Sweep.afterRow {α : Type} (rest : List FileRow) (count : Nat) : Except Err α → Sweep
  | .error e => .threw e
  | .ok _ => Sweep.loop count rest

/-- The removal of a row: `softDelete` in the one sweep, `hardDelete` in the other. -/
def SweepKind.removeRow (kind : SweepKind) (file : FileRow) (rest : List FileRow) (count : Nat) : Await Sweep :=
  match kind with
  | .pendingUploads => { call := .softDelete file.userId file.id, resume := Sweep.afterRow rest count }
  | .guestResources => { call := .hardDelete file.userId file.id, resume := Sweep.afterRow rest count }

/-- The body the two sweeps share. -/
def sweep (cfg : Config) (kind : SweepKind) : Sweep → Option (Await Sweep)
  | .cutoff => some
    { call := .dateNow
      resume := fun
        | .error e => .threw e
        | .ok now => .find (now - kind.ttlSeconds cfg * 1000) }
  | .find before => some
    { call := kind.findExpired before
      resume := fun
        | .error e => .threw e
        | .ok expired => Sweep.loop expired.length expired }
  | .removeObject file rest count => some
    { call := .removeObject file.storagePath
      -- a rejection is caught and logged
      resume := fun _ => .removeRow file rest count }
  | .removeRow file rest count => some (kind.removeRow file rest count)
  | .returned _ => none
  | .threw _ => none

/-- `cleanupPendingUploads`. -/
def cleanupPendingUploads (cfg : Config) : Sweep → Option (Await Sweep) := sweep cfg .pendingUploads

/-- `cleanupGuestResources`. -/
def cleanupGuestResources (cfg : Config) : Sweep → Option (Await Sweep) := sweep cfg .guestResources

end FileProcessing
