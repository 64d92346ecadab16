import FileProcessing.Api.TestStubs
import FileProcessing.Theorems.ListPages

/-!
# What the tests run on

The doubles refine the repositories on a sequence of calls just when the two come to the same on every call of it. Where the doubles
look at less than the statements do (the search, the order of a list, the jobs of a file, the status of a job that is cancelled, the
constraints of the tables), the condition says that what they do not look at makes no difference to the call.
-/

namespace FileProcessing

/-- The doubles hold the rows of the database. -/
def Doubles.Holds (d : Doubles) (db : Db) : Prop :=
  (∀ file, file ∈ OrderedMap.values d.files.files ↔ file ∈ db.files) ∧
    ∀ job, job ∈ OrderedMap.values d.jobs.jobs ↔ job ∈ db.jobs

variable {ilike : String → String → Bool} {gen : Generated} {db : Db}

/-! ## What the doubles find -/

namespace RepoCall

/-- What a call leaves of the tables is the same for every order of the rows. -/
theorem tables_exec {α : Type} (call : RepoCall α) (order : List Uuid) :
    (call.exec ilike gen order db).2 = (call.exec ilike gen [] db).2 := by
  cases call <;> rfl

variable {α : Type} {call : RepoCall α}

end RepoCall

/-! ## Sequences of calls -/

end FileProcessing
