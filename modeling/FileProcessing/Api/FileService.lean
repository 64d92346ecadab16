import FileProcessing.World

/-!
# `FileService`: reserving, confirming and deleting an upload

Each method is the list of its suspension points. A point says which call it awaits and, for every reply, the point (or the
return, or the throw) that follows; a rejected call throws out of the method unless the source catches it.
-/

namespace FileProcessing

/-- The settings of the two processes the model reads. -/
structure Config where
  maxFileSizeBytes : Nat
  presignedUrlTtlSeconds : Nat
  pendingUploadTtlSeconds : Nat
  guestResourceTtlSeconds : Nat
  deriving DecidableEq, Repr

/-- The defaults of the two `EnvSchema`s. -/
def Config.default : Config where
  maxFileSizeBytes := 50 * 1024 * 1024
  presignedUrlTtlSeconds := 900
  pendingUploadTtlSeconds := 3600
  guestResourceTtlSeconds := 3600

namespace FileService

structure CreateUploadUrlInput where
  filename : String
  mimeType : String
  size : Int
  deriving DecidableEq, Repr

structure CreateUploadUrlResult where
  fileId : Uuid
  formFields : PostPolicy
  expiresAt : Time
  deriving DecidableEq, Repr

/-- The suspension points of `createUploadUrl`. -/
inductive CreateUploadUrl where
  | create (objectKey : String)
  | expiresAt (file : FileRow)
  | presign (file : FileRow) (policy : PostPolicy)
  | returned (result : CreateUploadUrlResult)
  | threw (err : Err)
  deriving DecidableEq, Repr

/-- `createUploadUrl` up to its first `await`; `random` is its `randomUUID()`. -/
def createUploadUrl.start (cfg : Config) (userId : Uuid) (input : CreateUploadUrlInput) (random : Uuid) : CreateUploadUrl :=
  if input.size ≤ 0 then .threw (badRequest "INVALID_FILE_SIZE" "File size must be greater than 0")
  else if cfg.maxFileSizeBytes < input.size then
    .threw (badRequest "FILE_TOO_LARGE"
      ("File exceeds the maximum allowed size of " ++ toString cfg.maxFileSizeBytes ++ " bytes"))
  else .create (uploadKey userId random (extname input.filename))

/-- `FileService.createUploadUrl`. -/
def createUploadUrl (cfg : Config) (userId : Uuid) (input : CreateUploadUrlInput) :
    CreateUploadUrl → Option (Await CreateUploadUrl)
  | .create objectKey => some
    { call := .createFile
        { userId := userId, originalName := input.filename, mimeType := input.mimeType, size := input.size,
          storagePath := objectKey, status := .pending }
      resume := fun
        | .error e => .threw e
        | .ok file => .expiresAt file }
  | .expiresAt file => some
    { call := .dateNow
      resume := fun
        | .error e => .threw e
        | .ok now => .presign file
          { key := file.storagePath, expires := now + cfg.presignedUrlTtlSeconds * 1000, minLength := input.size,
            maxLength := input.size, contentType := input.mimeType } }
  | .presign file policy => some
    { call := .presignedPostPolicy policy
      resume := fun
        | .error e => .threw e
        | .ok () => .returned { fileId := file.id, formFields := policy, expiresAt := policy.expires } }
  | .returned _ => none
  | .threw _ => none

/-- The suspension points of `confirmUpload`. -/
inductive ConfirmUpload where
  | findById
  | statObject (file : FileRow)
  | markReady (file : FileRow)
  | returned (file : FileRow)
  | threw (err : Err)
  deriving DecidableEq, Repr

/-- `FileService.confirmUpload`. -/
def confirmUpload (userId fileId : Uuid) : ConfirmUpload → Option (Await ConfirmUpload)
  | .findById => some
    { call := .findFile userId fileId
      resume := fun
        | .error e => .threw e
        | .ok none => .threw (notFound "FILE_NOT_FOUND" "File not found")
        | .ok (some file) =>
          -- a repeated confirmation of a ready file succeeds without a size check
          if file.status = .ready then .returned file
          else if file.status ≠ .pending then
            .threw (conflict "FILE_NOT_PENDING" "File is not awaiting upload confirmation")
          else .statObject file }
  | .statObject file => some
    { call := .statObject file.storagePath
      resume := fun
        | .error _ => .threw (conflict "UPLOAD_NOT_FOUND" "No uploaded object was found for this file")
        | .ok stat =>
          if (stat.size : Int) ≠ file.size then
            .threw (conflict "UPLOAD_SIZE_MISMATCH" "Uploaded object size does not match the reserved file size")
          else .markReady file }
  | .markReady _ => some
    { call := .markReady userId fileId
      resume := fun
        | .error e => .threw e
        | .ok none => .threw (conflict "FILE_NOT_PENDING" "File is not awaiting upload confirmation")
        | .ok (some updated) => .returned updated }
  | .returned _ => none
  | .threw _ => none

/-- The suspension points of `delete`. -/
inductive Delete where
  | findById
  | softDelete
  | returned
  | threw (err : Err)
  deriving DecidableEq, Repr

/-- `FileService.delete`. -/
def delete (userId fileId : Uuid) : Delete → Option (Await Delete)
  | .findById => some
    { call := .findFile userId fileId
      resume := fun
        | .error e => .threw e
        | .ok none => .threw (notFound "FILE_NOT_FOUND" "File not found")
        | .ok (some file) =>
          if file.status = .deleted then .threw (conflict "FILE_ALREADY_DELETED" "File is already deleted")
          else .softDelete }
  | .softDelete => some
    { call := .softDelete userId fileId
      resume := fun
        | .error e => .threw e
        | .ok _ => .returned }
  | .returned => none
  | .threw _ => none

end FileService

end FileProcessing
