import FileProcessing.Api.Schemas

/-!
# `uploadFile`: the browsers, the API and the storage

An upload is a call of `uploadFile` in some browser. It asks the API for a policy, posts the file to the storage under it, and asks the
API to confirm. Each answer comes at any time, or never; between the two ends of an await everything else goes on.
-/

namespace FileProcessing

open FileService

/-- What `uploadFile` reads of a `File`. -/
structure BrowserFile where
  name : String
  type : String
  size : Nat
  deriving DecidableEq, Repr

/-- The body of the first request. -/
def BrowserFile.params (file : BrowserFile) : CreateUploadUrlInput where
  filename := file.name
  mimeType := if file.type = "" then "application/octet-stream" else file.type
  size := file.size

/-- `createUploadUrlBodySchema` accepts the body. -/
def BrowserFile.admitted (file : BrowserFile) : Bool :=
  1 ≤ file.params.filename.length && file.params.filename.length ≤ 255 && 1 ≤ file.params.mimeType.length &&
    file.params.mimeType.length ≤ 127 && 1 ≤ file.params.size

/-- The suspension points of `uploadFile`. A request to the API is known by its place among the tasks; the post has been made, or the
storage has taken the file and its answer is on the way. -/
inductive UploadFile where
  | requestUploadUrl (task : Nat)
  | post (fileId : Uuid) (formFields : PostPolicy)
  | posted (fileId : Uuid)
  | confirmUpload (fileId : Uuid) (task : Nat)
  | returned (file : FileRow)
  | threw
  deriving DecidableEq, Repr

/-- A call of `uploadFile`, by the user whose token the client sends with its first request. -/
structure Upload where
  userId : Uuid
  file : BrowserFile
  p : UploadFile
  deriving DecidableEq, Repr

/-- The platform and the uploads. -/
structure Uploads where
  system : System
  uploads : List Upload

/-- The state before the first step. -/
def Uploads.empty : Uploads := ⟨System.empty, []⟩

/-- What happens: a step of the platform, whoever makes it; `uploadFile` is called; the storage takes the post of upload `i`; upload `i`
is answered and goes on, and if that sends a request, the client has the token of `userId` by then; it is told of a failure. `random` is
the UUID a request draws. -/
inductive UploadAction where
  | platform (a : Action)
  | call (userId : Uuid) (file : BrowserFile) (random : Uuid)
  | post (i : Nat)
  | answer (i : Nat) (userId random : Uuid)
  | fail (i : Nat)
  deriving DecidableEq, Repr

/-- Upload `i` goes on. -/
def Uploads.put (u : Uploads) (system : System) (i : Nat) (up : Upload) (p : UploadFile) : Uploads where
  system := system
  uploads := u.uploads.set i { up with p := p }

/-- Where `uploadFile` is once the API has answered its first request. -/
def UploadFile.ofReservation : Task → Option UploadFile
  | .createUploadUrl _ _ (.returned result) => some (.post result.fileId result.formFields)
  | .createUploadUrl _ _ (.threw _) => some .threw
  | _ => none

/-- Where it is once the API has answered its second. -/
def UploadFile.ofConfirmation : Task → Option UploadFile
  | .confirmUpload _ _ (.returned file) => some (.returned file)
  | .confirmUpload _ _ (.threw _) => some .threw
  | _ => none

/-- The step; `none` where it is not possible. -/
def Uploads.step (cfg : Config) (u : Uploads) : UploadAction → Option Uploads
  | .platform a => (System.step cfg u.system a).map (fun system => { u with system := system })
  | .call userId file random =>
    if file.admitted then
      (System.step cfg u.system (.request (.createUploadUrl userId file.params) random)).map
        (fun system => ⟨system, u.uploads ++ [⟨userId, file, .requestUploadUrl u.system.tasks.length⟩]⟩)
    else some { u with uploads := u.uploads ++ [⟨userId, file, .threw⟩] }
  | .post i =>
    match u.uploads[i]? with
    | some ⟨userId, file, .post fileId formFields⟩ =>
      (System.step cfg u.system (.upload formFields file.size)).map
        (fun system => u.put system i ⟨userId, file, .post fileId formFields⟩ (.posted fileId))
    | _ => none
  | .answer i sender random =>
    match u.uploads[i]? with
    | some ⟨userId, file, .requestUploadUrl k⟩ =>
      ((u.system.tasks[k]?).bind UploadFile.ofReservation).map
        (u.put u.system i ⟨userId, file, .requestUploadUrl k⟩)
    | some ⟨userId, file, .posted fileId⟩ =>
      (System.step cfg u.system (.request (.confirmUpload sender fileId) random)).map
        (fun system => u.put system i ⟨userId, file, .posted fileId⟩ (.confirmUpload fileId u.system.tasks.length))
    | some ⟨userId, file, .confirmUpload fileId k⟩ =>
      ((u.system.tasks[k]?).bind UploadFile.ofConfirmation).map
        (u.put u.system i ⟨userId, file, .confirmUpload fileId k⟩)
    | _ => none
  | .fail i =>
    match u.uploads[i]? with
    | some ⟨_, _, .returned _⟩ | some ⟨_, _, .threw⟩ | none => none
    | some up => some (u.put u.system i up .threw)

/-- The uploads as a labelled transition system: its runs begin in the empty state. -/
def uploads (cfg : Config) : Lts Uploads UploadAction where
  init u := u = Uploads.empty
  step := Uploads.step cfg

end FileProcessing
