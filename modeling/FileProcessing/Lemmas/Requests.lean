import FileProcessing.Lemmas.Answers

/-!
# What the handlers reply

The reply to a call shows rows of the user of the call, and hands out tokens of users who have a row. A call keeps its place, so the
reply found there is to the request that started it; and a request starts what the services let a signed-in user start.
-/

namespace FileProcessing

open AuthService ApiKeyService FileService

variable {env : Env} {c c' : Tenants} {a : TenantAction}

/-! ## The replies -/

/-- The users whose rows the body shows. -/
def ReplyBody.owners : ReplyBody → List Uuid
  | .user data => [data.id]
  | .keys data => data.map ApiKey.userId
  | .key data _ => [data.userId]
  | .file data | .stream data _ => [data.userId]
  | .files result => result.data.map FileRow.userId
  | .job data => [data.userId]
  | .jobs result => result.data.map JobRow.userId
  | .empty | .session _ _ | .accessToken _ | .guest _ | .uploadUrl _ | .error _ _ | .fallback _ _ => []

/-- The token in the body of a reply. -/
def ReplyBody.token? : ReplyBody → Option String
  | .session _ token | .accessToken token | .guest token => some token
  | _ => none

/-- The token a reply sets as the cookie. -/
def RefreshCookie.token? : RefreshCookie → Option String
  | .set token => some token
  | .kept | .cleared => none

/-- The tokens a reply hands out. -/
def HttpReply.tokens (reply : HttpReply) : List String := reply.body.token?.toList ++ reply.cookie.token?.toList

/-- The call at the place serves the request. -/
def Tenants.Serves (c : Tenants) : ServiceCall × Nat → Prop
  | (.account r, i) => ∃ t, c.calls[i]? = some t ∧ t.request = r
  | (.platform r, i) => ∃ t, c.system.tasks[i]? = some t ∧ t.request = some r
  | (.read r, i) => ∃ t, c.reads[i]? = some t ∧ t.request = r

/-- The token is the server's, of a user who has a row: the access token or the refresh token of a session. -/
def TokenOf (env : ServerEnv) (users : Table User.id) (token : String) : Prop :=
  ∃ u, HasUser users u ∧ ∃ now, token = env.auth.signAccessToken env.jwt now u none ∨ token = env.auth.signRefreshToken env.jwt now u

/-- What the reply to a call shows and hands out: rows of the user of the call, tokens of users who have a row, and in a session those
of its user. -/
structure Replies (env : ServerEnv) (users : Table User.id) (userId? : Option Uuid) (reply : HttpReply) : Prop where
  owners : ∀ u ∈ reply.body.owners, userId? = some u
  tokens : ∀ token ∈ reply.tokens, TokenOf env users token
  session : ∀ data token, reply.body = .session data token → HasUser users data.id ∧
    (∃ now, token = env.auth.signAccessToken env.jwt now data.id none) ∧
    ∃ now, reply.cookie = .set (env.auth.signRefreshToken env.jwt now data.id)

/-- A reply that hands no token out. -/
theorem replies_of_owners {env : ServerEnv} {users : Table User.id} {userId? : Option Uuid} {reply : HttpReply}
    (howners : ∀ u ∈ reply.body.owners, userId? = some u) (htokens : reply.tokens = []) : Replies env users userId? reply where
  owners := howners
  tokens token ht := by
    rw [htokens] at ht
    cases ht
  session data token hbody := by
    rw [HttpReply.tokens, hbody] at htokens
    cases htokens

/-- A reply that shows rows of the user. -/
theorem replies_rows {env : ServerEnv} {users : Table User.id} {α : Type} {owner : α → Uuid} {rows : List α} {userId : Uuid}
    {reply : HttpReply} (hrows : reply.body.owners = rows.map owner) (h : ∀ x ∈ rows, owner x = userId) (htokens : reply.tokens = []) :
    Replies env users (some userId) reply := by
  refine replies_of_owners (fun u hu => ?_) htokens
  rw [hrows] at hu
  obtain ⟨x, hx, rfl⟩ := List.mem_map.1 hu
  exact congrArg some (h x hx).symm

/-- A reply that shows a row of the user. -/
theorem replies_row {env : ServerEnv} {users : Table User.id} {u userId : Uuid} {reply : HttpReply}
    (hrow : reply.body.owners = [u]) (h : u = userId) (htokens : reply.tokens = []) : Replies env users (some userId) reply := by
  refine replies_of_owners (fun x hx => ?_) htokens
  rw [hrow] at hx
  exact congrArg some ((List.mem_singleton.1 hx).trans h).symm

theorem replies_failed {env : ServerEnv} {users : Table User.id} {userId? : Option Uuid} (e : Err) :
    Replies env users userId? (failed e) :=
  replies_of_owners (fun _ hu => nomatch hu) rfl

/-- The reply to a download shows a row of the user, or none. -/
theorem replies_download {env : ServerEnv} {users : Table User.id} {stream : StoredObject} {file : FileRow} {userId : Uuid}
    (h : file.userId = userId) : Replies env users (some userId) (downloadReply stream file) := by
  unfold downloadReply
  split
  · exact replies_of_owners (fun _ hu => nomatch hu) rfl
  split
  · exact replies_failed _
  · exact replies_row rfl h rfl

/-- A reply that sends the session to its user. -/
theorem replies_session {env : ServerEnv} {users : Table User.id} {userId? : Option Uuid} {session : Session} (statusCode : Nat)
    (h : SessionOf env users session) :
    Replies env users userId?
      { statusCode := statusCode, body := .session session.user session.accessToken, cookie := .set session.refreshToken } := by
  obtain ⟨now, haccess⟩ := h.access
  obtain ⟨now', hrefresh⟩ := h.refresh
  refine ⟨fun u hu => (nomatch hu), fun token ht => ⟨session.user.id, h.account, ?_⟩, fun data token hbody => ?_⟩
  · have ht : token = session.accessToken ∨ token = session.refreshToken := by
      simpa [HttpReply.tokens, ReplyBody.token?, RefreshCookie.token?] using ht
    rcases ht with rfl | rfl
    · exact ⟨now, Or.inl haccess⟩
    · exact ⟨now', Or.inr hrefresh⟩
  · cases hbody
    exact ⟨h.account, ⟨now, haccess⟩, now', congrArg RefreshCookie.set hrefresh⟩

/-- The reply to a call on the accounts. -/
theorem replies_account {env : ServerEnv} {users : Table User.id} {t : AccountTask} {reply : HttpReply} (h : t.Answers env users)
    (hr : t.reply = some reply) : Replies env users t.request.userId? reply := by
  cases t with
  | register email password p =>
    cases p with
    | returned session =>
      cases hr
      exact replies_session 201 h
    | threw e =>
      cases hr
      exact replies_failed e
    | findByEmail | hash | create | setRefreshTokenHash => cases hr
  | login email password p =>
    cases p with
    | returned session =>
      cases hr
      exact replies_session 200 h
    | threw e =>
      cases hr
      exact replies_failed e
    | findByEmail | compare | setRefreshTokenHash => cases hr
  | refresh token p =>
    cases p with
    | returned accessToken =>
      cases hr
      obtain ⟨now, userId, hu, he⟩ := h
      refine ⟨fun u hu => (nomatch hu), fun tok ht => ⟨userId, hu, now, Or.inl ?_⟩, fun data tok hbody => (nomatch hbody)⟩
      rw [← he]
      simpa [HttpReply.tokens, ReplyBody.token?, RefreshCookie.token?] using ht
    | threw e =>
      cases hr
      exact replies_failed e
    | findById | setRefreshTokenHash => cases hr
  | me userId p =>
    cases p with
    | returned user =>
      cases hr
      exact replies_row rfl h rfl
    | threw e =>
      cases hr
      exact replies_failed e
    | findById => cases hr
  | listKeys userId p =>
    cases p with
    | returned keys =>
      cases hr
      exact replies_rows rfl h rfl
    | threw e =>
      cases hr
      exact replies_failed e
    | findByUserId => cases hr
  | createKey userId p =>
    cases p with
    | returned key fullKey =>
      cases hr
      exact replies_row rfl h rfl
    | threw e =>
      cases hr
      exact replies_failed e
    | countByUserId | create => cases hr
  | logout userId p | changePassword userId cur new p | revokeKey userId keyId p =>
    cases p <;> cases hr <;> exact replies_of_owners (fun u hu => nomatch hu) rfl

/-- The reply to a call that reads. -/
theorem replies_read {env : ServerEnv} {users : Table User.id} {t : ReadTask} {reply : HttpReply} (h : t.Answers)
    (hr : t.reply = some reply) : Replies env users (some t.request.userId) reply := by
  cases t with
  | listFiles userId opts p =>
    cases p with
    | returned page =>
      cases hr
      exact replies_rows rfl h rfl
    | threw e =>
      cases hr
      exact replies_failed e
    | findAllByUser | count | select => cases hr
  | listJobs userId opts p =>
    cases p with
    | returned page =>
      cases hr
      exact replies_rows rfl h rfl
    | threw e =>
      cases hr
      exact replies_failed e
    | findAllByUser | count | select => cases hr
  | findFile userId fileId p =>
    cases p with
    | returned file =>
      cases hr
      exact replies_row rfl h rfl
    | threw e =>
      cases hr
      exact replies_failed e
    | findById => cases hr
  | downloadFile userId fileId p =>
    cases p with
    | returned stream file =>
      cases hr
      exact replies_download h
    | threw e =>
      cases hr
      exact replies_failed e
    | findById | getObject => cases hr
  | findJob userId jobId p =>
    cases p with
    | returned job =>
      cases hr
      exact replies_row rfl h rfl
    | threw e =>
      cases hr
      exact replies_failed e
    | findById => cases hr

/-- The reply to a call of the platform. -/
theorem replies_task {env : ServerEnv} {users : Table User.id} {t : Task} {reply : HttpReply} (h : t.Answers)
    (hr : t.reply = some reply) : Replies env users (t.request.map Request.userId) reply := by
  cases t with
  | createUploadUrl userId input p | deleteFile userId fileId p | cancelJob userId jobId p =>
    cases p <;> cases hr <;> exact replies_of_owners (fun u hu => nomatch hu) rfl
  | confirmUpload userId fileId p =>
    cases p with
    | returned file =>
      cases hr
      exact replies_row rfl h rfl
    | threw e =>
      cases hr
      exact replies_failed e
    | findById | statObject | markReady => cases hr
  | createJob userId fileId type options p =>
    cases p with
    | returned job =>
      cases hr
      exact replies_row rfl h rfl
    | threw e =>
      cases hr
      exact replies_failed e
    | findFile | create | add => cases hr
  | attempt | failedListener | report | sweep => cases hr

/-- The reply to a call that has ended. -/
theorem replies_of_call {env : ServerEnv} {call : ServiceCall} {i : Nat} {reply : HttpReply} (hI : CallsAnswer env c)
    (hs : c.Serves (call, i)) (hr : c.replyOf (call, i) = some reply) : Replies env c.world.db.users call.userId? reply := by
  cases call with
  | account r =>
    obtain ⟨t, ht, rfl⟩ := hs
    rw [Tenants.replyOf, ht] at hr
    exact replies_account (hI.calls t (List.mem_of_getElem? ht)) hr
  | platform r =>
    obtain ⟨t, ht, hreq⟩ := hs
    rw [Tenants.replyOf, ht] at hr
    have h : Replies env c.world.db.users (t.request.map Request.userId) reply := replies_task (hI.tasks t (List.mem_of_getElem? ht)) hr
    rw [hreq] at h
    exact h
  | read r =>
    obtain ⟨t, ht, rfl⟩ := hs
    rw [Tenants.replyOf, ht] at hr
    exact replies_read (hI.reads t (List.mem_of_getElem? ht)) hr

/-! ## The places of the calls -/

/-- A call that reads stays in its place: it waits, or one of its statements is answered. -/
theorem readMoves_forward (h : TenantStepped env c a c') {i : Nat} {t : ReadTask} (hi : c.reads[i]? = some t) :
    ∃ t', c'.reads[i]? = some t' ∧
      ((t' = t ∧ ∀ countFirst, (∀ ch, a ≠ .execRead i countFirst ch) ∧ ∀ e, a ≠ .rejectRead i countFirst e) ∨
        ∃ countFirst aw r, t.next countFirst = some aw ∧ t' = aw.resume r) := by
  have hlt := (List.getElem?_eq_some_iff.1 hi).1
  cases h with
  | read r =>
    exact ⟨t, (List.getElem?_append_left hlt).trans hi,
      Or.inl ⟨rfl, fun _ => ⟨fun _ he => (nomatch he), fun _ he => (nomatch he)⟩⟩⟩
  | @execRead j countFirst ch t₀ aw ht hn =>
    by_cases hij : i = j
    · subst hij
      cases hi.symm.trans ht
      exact ⟨_, List.getElem?_set_self hlt, Or.inr ⟨countFirst, aw, _, hn, rfl⟩⟩
    · refine ⟨t, (List.getElem?_set_ne (Ne.symm hij)).trans hi, Or.inl ⟨rfl, fun _ => ⟨fun _ he => ?_, fun _ he => (nomatch he)⟩⟩⟩
      cases he
      exact hij rfl
  | @rejectRead j countFirst e t₀ aw ht hn =>
    by_cases hij : i = j
    · subst hij
      cases hi.symm.trans ht
      exact ⟨_, List.getElem?_set_self hlt, Or.inr ⟨countFirst, aw, _, hn, rfl⟩⟩
    · refine ⟨t, (List.getElem?_set_ne (Ne.symm hij)).trans hi, Or.inl ⟨rfl, fun _ => ⟨fun _ he => (nomatch he), fun _ he => ?_⟩⟩⟩
      cases he
      exact hij rfl
  | platform | call | exec | reject =>
    exact ⟨t, hi, Or.inl ⟨rfl, fun _ => ⟨fun _ he => (nomatch he), fun _ he => (nomatch he)⟩⟩⟩

/-- A call goes on serving its request. -/
theorem serves_kept (h : TenantStepped env c a c') {p : ServiceCall × Nat} (hs : c.Serves p) : c'.Serves p := by
  obtain ⟨call, i⟩ := p
  cases call with
  | account r =>
    obtain ⟨t, ht, rfl⟩ := hs
    obtain ⟨t', ht', hm⟩ := callMoves_forward h ht
    refine ⟨t', ht', ?_⟩
    cases hm with
    | waits => rfl
    | exec ch ha hn => exact request_resume hn _
    | reject e ha hn => exact request_resume hn _
  | platform r =>
    obtain ⟨t, ht, hr⟩ := hs
    rcases platform_or_same h with ⟨b, rfl, hb⟩ | ⟨htasks, -⟩
    · obtain ⟨t', ht', hm⟩ := task_forward hb ht
      exact ⟨t', ht', hm.request.trans hr⟩
    · exact ⟨t, htasks ▸ ht, hr⟩
  | read r =>
    obtain ⟨t, ht, rfl⟩ := hs
    obtain ⟨t', ht', ⟨rfl, -⟩ | ⟨countFirst, aw, r, hn, rfl⟩⟩ := readMoves_forward h ht
    · exact ⟨t', ht', rfl⟩
    · exact ⟨_, ht', readRequest_resume hn r⟩

/-- A call that begins serves its request at its place. -/
theorem serves_start (env : Env) (c : Tenants) (random : Uuid) (call : ServiceCall) :
    (c.start env random call).Serves (call, c.place call) := by
  cases call with
  | account r =>
    have hreq : (r.task env.crypto c.world.now).request = r := by cases r <;> rfl
    exact ⟨_, List.getElem?_concat_length, hreq⟩
  | platform r =>
    have hreq : (r.task env.config random).request = some r := by cases r <;> rfl
    exact ⟨_, List.getElem?_concat_length, hreq⟩
  | read r => exact ⟨_, List.getElem?_concat_length, (readAnswers_task r).2⟩

/-- A call a signed-in user makes is a step of the whole. -/
theorem start_step (env : Env) {random : Uuid} {call : ServiceCall} (hnew : random ∉ c.world.issued)
    (hsigned : ∀ u, call.userId? = some u → u ∈ c.world.sessions) : ∃ b, (tenants env).step c b = some (c.start env random call) := by
  cases call with
  | account r =>
    have hs : (tenants env).step c (.call r) = some (c.start env random (.account r)) := if_pos hsigned
    exact ⟨_, hs⟩
  | platform r =>
    have hs : System.step env.config c.system (.request r random) =
        some ({ c.system with world := c.world.issue random }.spawn (r.task env.config random)) :=
      if_pos ⟨hsigned r.userId rfl, hnew⟩
    exact ⟨.platform (.request r random), congrArg (Option.map (fun system : System => ({ c with system := system } : Tenants))) hs⟩
  | read r =>
    have hs : (tenants env).step c (.read r) = some (c.start env random (.read r)) := if_pos (hsigned r.userId rfl)
    exact ⟨_, hs⟩

/-- A guest session is a step of the whole, and its id is a guest's. -/
theorem guestSession_step (env : Env) {id : Uuid} (hnew : id ∉ c.world.issued)
    (hissued : ∀ user ∈ c.world.db.users, user.id ∈ c.world.issued) :
    (∃ a, (tenants env).step c a = some (c.guestSession id)) ∧ Subject (c.guestSession id) id (some .guest) := by
  have hs : System.step env.config c.system (.guestSession id) =
      some { c.system with world := { c.world.issue id with sessions := id :: c.world.sessions } } := if_neg hnew
  have hstep : (tenants env).step c (.platform (.guestSession id)) = some (c.guestSession id) :=
    congrArg (Option.map (fun system : System => ({ c with system := system } : Tenants))) hs
  refine ⟨⟨_, hstep⟩, List.mem_cons_self, List.mem_cons_self, fun hu => ?_, nofun⟩
  obtain ⟨user, hmem, hid⟩ := hasUser_iff.1 hu
  exact absurd (hid ▸ hissued user hmem) hnew

end FileProcessing
