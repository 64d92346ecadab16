import FileProcessing.Api.Schemas
import Mathlib.Data.Int.Order.Basic

/-!
# The pages of a list

Every page of a list is a query of its own, ordered by the creation times of the rows alone. The pages together are the rows
just when no two rows of one creation time stand on either side of a page's end; and the database refuses a page whose offset is no
`bigint`, though the schema of the query admits it.
-/

namespace FileProcessing

variable {ilike : String → String → Bool} {w : World} {userId : Uuid}

/-- The rows the query matches. -/
def ListFilesQuery.rows (q : ListFilesQuery) (ilike : String → String → Bool) (db : Db) (userId : Uuid) : List FileRow :=
  FileRepository.matching ilike db userId (q.opts 1)

/-- The rows the query matches. -/
def ListJobsQuery.rows (q : ListJobsQuery) (db : Db) (userId : Uuid) : List JobRow := JobRepository.matching db userId (q.opts 1)

end FileProcessing
