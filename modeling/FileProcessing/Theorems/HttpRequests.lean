import FileProcessing.Lemmas.Requests
import FileProcessing.Theorems.TokenKinds

/-!
# Every request is its caller's

The services trust `request.userId`. It comes from a bearer token alone, and the tokens are the server's own: in every run in which
nobody forges a signature, a request that reaches a service was made with a token the server has handed out, to that user; what the
request starts is what the services allow a signed-in user, and what it is answered with are rows of that user. A guest, whose id has no
row in `users`, never reaches what is for registered accounts.
-/

namespace FileProcessing

open AuthService

/-- The token was handed out: a reply carries it. -/
def Delivered (s : Server) (token : String) : Prop := ∃ x ∈ s.exchanges, ∃ reply, x.reply = some reply ∧ token ∈ reply.tokens

/-- The step forges no signature: a token that comes in was handed out, if its signature holds under the access secret. -/
structure Unforged (env : ServerEnv) (s : Server) (a : ServerAction) : Prop where
  bearer : ∀ req random token, a = .http req random → req.authorization = some ("Bearer " ++ token) →
    (env.jwt.decode env.auth.accessSecret token).isSome → Delivered s token
  socket : ∀ token, a = .socket (some token) → (env.jwt.decode env.auth.accessSecret token).isSome → Delivered s token

/-- The token was handed out to the user, with that role. -/
def TokenFor (env : ServerEnv) (s : Server) (token : String) (requester : JwtConfig.Requester) : Prop :=
  Delivered s token ∧ ∃ payload, env.jwt.decode env.auth.accessSecret token = some payload ∧
    payload.sub = some requester.userId ∧ payload.role = requester.role

/-- What a reply sends belongs to the user of the request, and a session to the user it shows. -/
structure OwnReply (env : ServerEnv) (s : Server) (userId? : Option Uuid) (reply : HttpReply) : Prop where
  owners : ∀ u ∈ reply.body.owners, userId? = some u
  session : ∀ data token, reply.body = .session data token → HasUser s.tenants.world.db.users data.id ∧
    (∃ now, token = env.auth.signAccessToken env.jwt now data.id none) ∧
    ∃ now, reply.cookie = .set (env.auth.signRefreshToken env.jwt now data.id)

/-- The request is its caller's. -/
structure Authentic (env : ServerEnv) (s : Server) (x : Exchange) : Prop where
  -- who is set on a request has presented a token of theirs, is signed in, and has an account or is a guest
  requester : ∀ r, x.requester = some r →
    (∃ token, x.request.authorization = some ("Bearer " ++ token) ∧ TokenFor env s token r) ∧ Subject s.tenants r.userId r.role
  -- the call its handler makes is for them, and is the one at its place
  call : ∀ p, x.call = some p → p.1.userId? = x.requester.map (·.userId) ∧ s.tenants.Serves p
  -- a guest does not get to the routes of registered accounts
  registered : ∀ route p r, x.request.target = .user route → route.registeredOnly = true → x.call = some p → x.requester = some r →
    r.role = none
  -- the call is one the schema of the route admits
  admitted : ∀ r i, x.call = some (.platform r, i) → r.Admitted
  reply : ∀ reply, x.reply = some reply → OwnReply env s (x.requester.map (·.userId)) reply

/-- Every request is its caller's. -/
structure RequestsAuthentic (env : ServerEnv) : Prop where
  /-- The preHandlers are all the services ask for: what the requests make of the database is a run in which only signed-in users call. -/
  services : ∀ s, (server env).Reach (Unforged env) s → (tenants env.env).Reach Lts.Free s.tenants
  requests : ∀ s x, (server env).Reach (Unforged env) s → x ∈ s.exchanges → Authentic env s x
  /-- A socket is added under the user of a token of theirs. -/
  sockets : ∀ s h userId, (server env).Reach (Unforged env) s → h ∈ s.handshakes → h.userId = some userId →
    ∃ token r, h.token = some token ∧ TokenFor env s token r ∧ userId = r.userId.text ∧ Subject s.tenants r.userId r.role

variable {env : ServerEnv} {s s' : Server} {a : ServerAction}

/-! ## The tokens -/

/-- A header that passes `authenticate` holds a token of the requester. -/
theorem bearer_of_authenticate {config : JwtConfig} {jwt : JsonWebToken} {now : Time} {authorization : Option String}
    {requester : JwtConfig.Requester} (h : config.authenticate jwt now authorization = .ok requester) :
    ∃ token payload, authorization = some ("Bearer " ++ token) ∧ jwt.decode config.accessSecret token = some payload ∧
      payload.sub = some requester.userId ∧ payload.role = requester.role := by
  unfold JwtConfig.authenticate at h
  split at h
  · cases h
  rename_i header
  split at h
  · rename_i hbearer
    split at h
    · cases h
    rename_i payload hverify
    split at h
    · cases h
    rename_i userId hsub
    cases h
    obtain ⟨payload', hdecode, hexp⟩ := Option.bind_eq_some_iff.1 hverify
    split at hexp
    · cases hexp
    · cases hexp
      have hheader : header.toList = "Bearer ".toList ++ header.toList.drop 7 :=
        (List.take_append_drop 7 header.toList).symm.trans (congrArg (· ++ header.toList.drop 7) hbearer)
      refine ⟨String.ofList (header.toList.drop 7), payload, congrArg some (String.toList_inj.1 ?_), hdecode, hsub, rfl⟩
      rw [String.toList_append]
      exact hheader.trans (congrArg ("Bearer ".toList ++ ·) String.toList_ofList.symm)
  · cases h

/-- A token the server signs: of a user, or of a guest. -/
def Names (env : ServerEnv) (c : Tenants) (token : String) : Prop :=
  ∃ id role, Subject c id role ∧ ∃ now,
    token = env.auth.signAccessToken env.jwt now id role ∨ (role = none ∧ token = env.auth.signRefreshToken env.jwt now id)

/-- The claims of such a token name whom it was signed for. -/
theorem Names.subject {c : Tenants} {token secret : String} {payload : TokenPayload} (h : Names env c token)
    (hd : env.jwt.decode secret token = some payload) : ∃ id, payload.sub = some id ∧ Subject c id payload.role := by
  obtain ⟨id, role, hsubject, now, rfl | ⟨rfl, rfl⟩⟩ := h
  · rw [JwtConfig.signAccessToken, env.jwt.decode_sign, Option.ite_none_right_eq_some, Option.some.injEq] at hd
    obtain ⟨-, rfl⟩ := hd
    exact ⟨id, rfl, hsubject⟩
  · rw [JwtConfig.signRefreshToken, env.jwt.decode_sign, Option.ite_none_right_eq_some, Option.some.injEq] at hd
    obtain ⟨-, rfl⟩ := hd
    exact ⟨id, rfl, hsubject⟩

/-! ## What is made of a request -/

/-- A reply that shows no row and hands no token out. -/
structure Bare (reply : HttpReply) : Prop where
  owners : reply.body.owners = []
  tokens : reply.tokens = []

/-- What is made of a request that has come in. -/
inductive Handled (env : ServerEnv) (now : Time) (req : HttpRequest) : Handling → Prop where
  | refused (reply : HttpReply) (bare : Bare reply) : Handled env now req (.answer none reply)
  | denied (requester : JwtConfig.Requester) (reply : HttpReply)
      (auth : env.auth.authenticate env.jwt now req.authorization = .ok requester) (bare : Bare reply) :
      Handled env now req (.answer (some requester) reply)
  | anyone (route : PublicRoute) (target : req.target = .anyone route) (r : AccountRequest) (nobody : r.userId? = none) :
      Handled env now req (.call none (.account r))
  | user (route : UserRoute) (target : req.target = .user route) (requester : JwtConfig.Requester)
      (auth : env.auth.authenticate env.jwt now req.authorization = .ok requester)
      (registered : route.registeredOnly = true → requester.role = none) :
      Handled env now req (.call (some requester) (route.call requester.userId))
  | guestSession (target : req.target = .anyone .guest) : Handled env now req .guestSession

/-- Every request is made one of these. -/
theorem handled (env : ServerEnv) (now : Time) (req : HttpRequest) : Handled env now req (env.auth.handle env.jwt now req) := by
  obtain ⟨target, authorization, refreshToken⟩ := req
  cases target with
  | rejected message => exact .refused _ ⟨rfl, rfl⟩
  | anyone route =>
    cases route with
    | register body => exact .anyone _ rfl _ rfl
    | login body => exact .anyone _ rfl _ rfl
    | refresh =>
      simp only [JwtConfig.handle, handlePublic]
      split
      · exact .refused _ ⟨rfl, rfl⟩
      · exact .refused _ ⟨rfl, rfl⟩
      · exact .anyone _ rfl _ rfl
    | guest => exact .guestSession rfl
  | user route =>
    simp only [JwtConfig.handle, JwtConfig.handleUser]
    split
    · exact .refused _ ⟨rfl, rfl⟩
    · rename_i requester hauth
      split
      · rename_i hregistered
        unfold requireRegisteredUser
        by_cases hguest : requester.role = some .guest
        · rw [if_pos hguest]
          exact .denied requester _ hauth ⟨rfl, rfl⟩
        · rw [if_neg hguest]
          refine .user route rfl requester hauth (fun _ => ?_)
          cases hrole : requester.role with
          | none => rfl
          | some role =>
            cases role
            exact absurd hrole hguest
      · rename_i hregistered
        exact .user route rfl requester hauth (fun h => absurd h hregistered)

/-- The call of a route is for the user set on the request. -/
theorem userId_call (route : UserRoute) (userId : Uuid) : (route.call userId).userId? = some userId := by
  cases route <;> rfl

/-- What a route starts on the platform is what its schema admits. -/
theorem admitted_call (route : UserRoute) (userId : Uuid) {r : Request} (h : route.call userId = .platform r) : r.Admitted := by
  cases route with
  | createUploadUrl body =>
    cases h
    exact ⟨body, rfl⟩
  | createJob body =>
    cases h
    exact ⟨body, rfl, rfl, rfl⟩
  | confirmUpload | deleteFile | cancelJob =>
    cases h
    trivial
  | logout | me | changePassword | listKeys | createKey | revokeKey | listFiles | findFile | downloadFile | listJobs | findJob => cases h

/-! ## The steps -/

/-- The steps of the server, one constructor a case. -/
inductive ServerStepped (env : ServerEnv) (s : Server) : ServerAction → Server → Prop where
  | answered (req : HttpRequest) (random : Uuid) (requester : Option JwtConfig.Requester) (reply : HttpReply) (bare : Bare reply)
      (auth : ∀ r, requester = some r → env.auth.authenticate env.jwt s.tenants.world.now req.authorization = .ok r) :
      ServerStepped env s (.http req random) { s with exchanges := s.exchanges ++ [⟨req, requester, none, some reply⟩] }
  | called (req : HttpRequest) (random : Uuid) (requester : Option JwtConfig.Requester) (call : ServiceCall)
      (new : random ∉ s.tenants.world.issued)
      (auth : ∀ r, requester = some r → env.auth.authenticate env.jwt s.tenants.world.now req.authorization = .ok r)
      (user : call.userId? = requester.map (·.userId)) (admitted : ∀ r, call = .platform r → r.Admitted)
      (registered : ∀ route r, req.target = .user route → route.registeredOnly = true → requester = some r → r.role = none) :
      ServerStepped env s (.http req random)
        { s with
          tenants := s.tenants.start env.env random call
          exchanges := s.exchanges ++ [⟨req, requester, some (call, s.tenants.place call), none⟩] }
  | guest (req : HttpRequest) (random : Uuid) (new : random ∉ s.tenants.world.issued) :
      ServerStepped env s (.http req random)
        { s with
          tenants := s.tenants.guestSession random
          exchanges := s.exchanges ++
            [⟨req, none, none, some (guestReply (env.auth.signAccessToken env.jwt s.tenants.world.now random (some .guest)))⟩] }
  | socket (token : Option String) :
      ServerStepped env s (.socket token)
        { s with handshakes := s.handshakes ++ [⟨token, env.auth.wsHandshake env.jwt s.tenants.world.now token⟩] }
  | reply (e : Nat) (x : Exchange) (p : ServiceCall × Nat) (reply : HttpReply) (hx : s.exchanges[e]? = some x)
      (hnone : x.reply = none) (hcall : x.call = some p) (hreply : s.tenants.replyOf p = some reply) :
      ServerStepped env s (.reply e) { s with exchanges := s.exchanges.set e { x with reply := some reply } }
  | tenants (b : TenantAction) (c : Tenants) (step : (tenants env.env).step s.tenants b = some c) :
      ServerStepped env s (.tenants b) { s with tenants := c }

/-- A step is one of these. -/
theorem server_step_cases (h : (server env).step s a = some s') : ServerStepped env s a s' := by
  cases a with
  | http req random =>
    simp only [server, Server.step, Option.ite_none_left_eq_some, Option.some.injEq] at h
    obtain ⟨hnew, rfl⟩ := h
    have hcase := handled env s.tenants.world.now req
    unfold Server.receive
    generalize env.auth.handle env.jwt s.tenants.world.now req = handling at hcase
    cases hcase with
    | refused reply bare => exact .answered req random none reply bare nofun
    | denied requester reply auth bare => exact .answered req random _ reply bare (fun r hr => Option.some.inj hr ▸ auth)
    | anyone route target r nobody =>
      refine .called req random none _ hnew nofun nobody nofun (fun route' r' ht => ?_)
      rw [target] at ht
      cases ht
    | user route target requester auth registered =>
      refine .called req random _ _ hnew (fun r hr => Option.some.inj hr ▸ auth) (userId_call route _)
        (fun r hr => admitted_call route _ hr) (fun route' r' ht hreg hr => ?_)
      rw [target] at ht
      cases ht
      cases hr
      exact registered hreg
    | guestSession target => exact .guest req random hnew
  | socket token =>
    cases h
    exact .socket token
  | reply e =>
    simp only [server, Server.step] at h
    split at h
    · cases h
    rename_i x hx
    split at h
    · rename_i reply hnone hsome
      obtain rfl := Option.some.inj h
      obtain ⟨p, hp, hreply⟩ := Option.bind_eq_some_iff.1 hsome
      exact .reply e x p reply hx hnone hp hreply
    · cases h
  | tenants b =>
    simp only [server, Server.step] at h
    split at h
    · obtain ⟨c, hc, rfl⟩ := Option.map_eq_some_iff.1 h
      exact .tenants b c hc
    · cases h

/-! ## What a step leaves standing -/

/-- The database has gone on by a step, or not at all, and what was handed out stays so. -/
structure Goes (env : ServerEnv) (s s' : Server) : Prop where
  tenants : s'.tenants = s.tenants ∨ ∃ b, TenantStepped env.env s.tenants b s'.tenants
  delivered : ∀ token, Delivered s token → Delivered s' token

theorem Goes.subject (h : Goes env s s') {id : Uuid} {role : Option TokenRole} (hI : Subject s.tenants id role) :
    Subject s'.tenants id role := by
  rcases h.tenants with he | ⟨b, hb⟩
  · rw [he]
    exact hI
  · exact hI.kept hb

theorem Goes.hasUser (h : Goes env s s') {u : Uuid} (hu : HasUser s.tenants.world.db.users u) :
    HasUser s'.tenants.world.db.users u := by
  rcases h.tenants with he | ⟨b, hb⟩
  · rw [he]
    exact hu
  · exact hasUser_kept hb hu

theorem Goes.serves (h : Goes env s s') {p : ServiceCall × Nat} (hp : s.tenants.Serves p) : s'.tenants.Serves p := by
  rcases h.tenants with he | ⟨b, hb⟩
  · rw [he]
    exact hp
  · exact serves_kept hb hp

theorem Goes.tokenFor (h : Goes env s s') {token : String} {r : JwtConfig.Requester} (ht : TokenFor env s token r) :
    TokenFor env s' token r :=
  ⟨h.delivered token ht.1, ht.2⟩

/-- A request stays its caller's. -/
theorem Authentic.kept {x : Exchange} (hI : Authentic env s x) (h : Goes env s s') : Authentic env s' x where
  requester r hr := by
    obtain ⟨⟨token, hheader, ht⟩, hsubject⟩ := hI.requester r hr
    exact ⟨⟨token, hheader, h.tokenFor ht⟩, h.subject hsubject⟩
  call p hp := ⟨(hI.call p hp).1, h.serves (hI.call p hp).2⟩
  registered := hI.registered
  admitted := hI.admitted
  reply reply hr :=
    { owners := (hI.reply reply hr).owners
      session := fun data token hbody => by
        obtain ⟨hu, htokens⟩ := (hI.reply reply hr).session data token hbody
        exact ⟨h.hasUser hu, htokens⟩ }

/-- What holds of every state of a run without forgery. -/
structure Trusted (env : ServerEnv) (s : Server) : Prop where
  services : (tenants env.env).Reach Lts.Free s.tenants
  requests : ∀ x ∈ s.exchanges, Authentic env s x
  names : ∀ token, Delivered s token → Names env s.tenants token
  sockets : ∀ h ∈ s.handshakes, ∀ userId, h.userId = some userId →
    ∃ token r, h.token = some token ∧ TokenFor env s token r ∧ userId = r.userId.text ∧ Subject s.tenants r.userId r.role

/-- What was handed out by a request stays so as others come in. -/
theorem delivered_append {token : String} {c : Tenants} {x : Exchange} {handshakes : List Handshake} (h : Delivered s token) :
    Delivered ⟨c, s.exchanges ++ [x], handshakes⟩ token := by
  obtain ⟨y, hy, hreply⟩ := h
  exact ⟨y, List.mem_append_left _ hy, hreply⟩

/-- What is handed out after a request has come in was before, or by its reply. -/
theorem delivered_concat {token : String} {c : Tenants} {x : Exchange} {handshakes : List Handshake}
    (h : Delivered ⟨c, s.exchanges ++ [x], handshakes⟩ token) :
    Delivered s token ∨ ∃ reply, x.reply = some reply ∧ token ∈ reply.tokens := by
  obtain ⟨y, hy, hreply⟩ := h
  rcases List.mem_append.1 hy with hy | hy
  · exact Or.inl ⟨y, hy, hreply⟩
  · exact Or.inr (List.mem_singleton.1 hy ▸ hreply)

/-- Who passes `authenticate` presents a token of theirs. -/
theorem presented (hI : Trusted env s) {req : HttpRequest} {random : Uuid} (hok : Unforged env s (.http req random))
    {r : JwtConfig.Requester} (h : env.auth.authenticate env.jwt s.tenants.world.now req.authorization = .ok r) :
    (∃ token, req.authorization = some ("Bearer " ++ token) ∧ TokenFor env s token r) ∧ Subject s.tenants r.userId r.role := by
  obtain ⟨token, payload, hheader, hdecode, hsub, hrole⟩ := bearer_of_authenticate h
  have hdelivered := hok.bearer req random token rfl hheader (Option.isSome_iff_exists.2 ⟨payload, hdecode⟩)
  obtain ⟨id, hid, hsubject⟩ := (hI.names token hdelivered).subject hdecode
  rw [hsub, Option.some.injEq] at hid
  exact ⟨⟨token, hheader, hdelivered, payload, hdecode, hsub, hrole⟩, hid ▸ hrole ▸ hsubject⟩

/-- Who passes the handshake presents a token of theirs. -/
theorem handshaken (hI : Trusted env s) {token : Option String} (hok : Unforged env s (.socket token)) {userId : String}
    (h : env.auth.wsHandshake env.jwt s.tenants.world.now token = some userId) :
    ∃ tok r, token = some tok ∧ TokenFor env s tok r ∧ userId = r.userId.text ∧ Subject s.tenants r.userId r.role := by
  cases token with
  | none => cases h
  | some tok =>
    simp only [JwtConfig.wsHandshake, handshake, Option.bind_some] at h
    split at h
    · cases h
    obtain ⟨payload, hverify, hsub⟩ := Option.bind_eq_some_iff.1 h
    obtain ⟨id, hid, rfl⟩ := Option.map_eq_some_iff.1 hsub
    obtain ⟨payload', hdecode, hexp⟩ := Option.bind_eq_some_iff.1 hverify
    split at hexp
    · cases hexp
    cases hexp
    have hdelivered := hok.socket tok rfl (Option.isSome_iff_exists.2 ⟨payload, hdecode⟩)
    obtain ⟨id', hid', hsubject⟩ := (hI.names tok hdelivered).subject hdecode
    rw [hid, Option.some.injEq] at hid'
    exact ⟨tok, ⟨id, payload.role⟩, rfl, ⟨hdelivered, payload, hdecode, hid, rfl⟩, rfl, hid' ▸ hsubject⟩

/-- A token of a user who has a row names them. -/
theorem TokenOf.names {token : String} {c : Tenants} (hr : (tenants env.env).Reach Lts.Free c)
    (h : TokenOf env c.world.db.users token) : Names env c token := by
  obtain ⟨u, hu, now, htoken⟩ := h
  obtain ⟨user, hmem, hid⟩ := hasUser_iff.1 hu
  have hsubject : Subject c u none := ⟨usersSignedIn hr u hu, hid ▸ usersIssued hr user hmem, fun _ => rfl, fun _ => hu⟩
  exact ⟨u, none, hsubject, now, htoken.imp id (fun he => ⟨rfl, he⟩)⟩

/-! ## The run -/

/-- A request has come in: what it adds is its caller's. -/
theorem trusted_append (hI : Trusted env s) {c : Tenants} {x : Exchange} (hc : (tenants env.env).Reach Lts.Free c)
    (hgo : Goes env s ⟨c, s.exchanges ++ [x], s.handshakes⟩) (hx : Authentic env ⟨c, s.exchanges ++ [x], s.handshakes⟩ x)
    (hnames : ∀ reply token, x.reply = some reply → token ∈ reply.tokens → Names env c token) :
    Trusted env ⟨c, s.exchanges ++ [x], s.handshakes⟩ where
  services := hc
  requests y hy := by
    rcases List.mem_append.1 hy with hy | hy
    · exact (hI.requests y hy).kept hgo
    · exact List.mem_singleton.1 hy ▸ hx
  names token ht := by
    rcases delivered_concat ht with hold | ⟨reply, hreply, hmem⟩
    · obtain ⟨id, role, hsubject, htoken⟩ := hI.names token hold
      exact ⟨id, role, hgo.subject hsubject, htoken⟩
    · exact hnames reply token hreply hmem
  sockets h hh userId hu := by
    obtain ⟨token, r, htoken, hfor, hid, hsubject⟩ := hI.sockets h hh userId hu
    exact ⟨token, r, htoken, hgo.tokenFor hfor, hid, hgo.subject hsubject⟩

/-- A request that is answered at once. -/
theorem trusted_answered (hI : Trusted env s) {req : HttpRequest} {random : Uuid} (hok : Unforged env s (.http req random))
    {requester : Option JwtConfig.Requester} {reply : HttpReply} (bare : Bare reply)
    (auth : ∀ r, requester = some r → env.auth.authenticate env.jwt s.tenants.world.now req.authorization = .ok r) :
    Trusted env { s with exchanges := s.exchanges ++ [⟨req, requester, none, some reply⟩] } := by
  have hgo : Goes env s { s with exchanges := s.exchanges ++ [⟨req, requester, none, some reply⟩] } :=
    ⟨Or.inl rfl, fun _ => delivered_append⟩
  refine trusted_append hI hI.services hgo ?_ (fun reply' token hr ht => ?_)
  · refine ⟨fun r hr => ?_, fun _ h => (nomatch h), fun _ _ _ _ _ h => (nomatch h), fun _ _ h => (nomatch h),
      fun reply' hr => ⟨fun u hu => ?_, fun data token hbody => ?_⟩⟩
    · obtain ⟨⟨token, hheader, hfor⟩, hsubject⟩ := presented hI hok (auth r hr)
      exact ⟨⟨token, hheader, hgo.tokenFor hfor⟩, hsubject⟩
    · obtain rfl := Option.some.inj hr
      rw [bare.owners] at hu
      cases hu
    · obtain rfl := Option.some.inj hr
      have hnone := bare.tokens
      rw [HttpReply.tokens, hbody] at hnone
      cases hnone
  · obtain rfl := Option.some.inj hr
    rw [bare.tokens] at ht
    cases ht

/-- A request that reaches a service. -/
theorem trusted_called (hI : Trusted env s) {req : HttpRequest} {random : Uuid} (hok : Unforged env s (.http req random))
    {requester : Option JwtConfig.Requester} {call : ServiceCall} (new : random ∉ s.tenants.world.issued)
    (auth : ∀ r, requester = some r → env.auth.authenticate env.jwt s.tenants.world.now req.authorization = .ok r)
    (user : call.userId? = requester.map (·.userId)) (admitted : ∀ r, call = .platform r → r.Admitted)
    (registered : ∀ route r, req.target = .user route → route.registeredOnly = true → requester = some r → r.role = none) :
    Trusted env ⟨s.tenants.start env.env random call,
      s.exchanges ++ [⟨req, requester, some (call, s.tenants.place call), none⟩], s.handshakes⟩ := by
  have hsigned : ∀ u, call.userId? = some u → u ∈ s.tenants.world.sessions := by
    intro u hu
    rw [user] at hu
    obtain ⟨r, hr, rfl⟩ := Option.map_eq_some_iff.1 hu
    exact (presented hI hok (auth r hr)).2.session
  obtain ⟨b, hb⟩ := start_step env.env new hsigned
  have hgo : Goes env s ⟨s.tenants.start env.env random call,
      s.exchanges ++ [⟨req, requester, some (call, s.tenants.place call), none⟩], s.handshakes⟩ :=
    ⟨Or.inr ⟨b, tenants_step_cases hb⟩, fun _ => delivered_append⟩
  refine trusted_append hI (hI.services.step b trivial hb) hgo ?_ (fun _ _ h => (nomatch h))
  refine ⟨fun r hr => ?_, fun p hp => ?_, fun route p r ht hreg _ hr => registered route r ht hreg hr, fun r i hr => ?_,
    fun _ h => (nomatch h)⟩
  · obtain ⟨⟨token, hheader, hfor⟩, hsubject⟩ := presented hI hok (auth r hr)
    exact ⟨⟨token, hheader, hgo.tokenFor hfor⟩, hgo.subject hsubject⟩
  · obtain rfl := Option.some.inj hp
    exact ⟨user, serves_start env.env s.tenants random call⟩
  · exact admitted r (congrArg Prod.fst (Option.some.inj hr))

/-- A guest session. -/
theorem trusted_guest (hI : Trusted env s) (req : HttpRequest) {random : Uuid} (new : random ∉ s.tenants.world.issued) :
    Trusted env ⟨s.tenants.guestSession random, s.exchanges ++
      [⟨req, none, none, some (guestReply (env.auth.signAccessToken env.jwt s.tenants.world.now random (some .guest)))⟩],
      s.handshakes⟩ := by
  obtain ⟨⟨b, hb⟩, hsubject⟩ := guestSession_step env.env new (usersIssued hI.services)
  refine trusted_append hI (hI.services.step b trivial hb) ⟨Or.inr ⟨b, tenants_step_cases hb⟩, fun _ => delivered_append⟩ ?_
    (fun reply token hr ht => ?_)
  · refine ⟨fun _ h => (nomatch h), fun _ h => (nomatch h), fun _ _ _ _ _ h => (nomatch h), fun _ _ h => (nomatch h),
      fun reply hr => ?_⟩
    obtain rfl := Option.some.inj hr
    exact ⟨fun u hu => (nomatch hu), fun data token hbody => (nomatch hbody)⟩
  · obtain rfl := Option.some.inj hr
    exact ⟨random, some .guest, hsubject, s.tenants.world.now, Or.inl (List.mem_singleton.1 ht)⟩

/-- The reply to a call. -/
theorem trusted_reply (hI : Trusted env s) {e : Nat} {x : Exchange} {p : ServiceCall × Nat} {reply : HttpReply}
    (hx : s.exchanges[e]? = some x) (hnone : x.reply = none) (hcall : x.call = some p) (hreply : s.tenants.replyOf p = some reply) :
    Trusted env { s with exchanges := s.exchanges.set e { x with reply := some reply } } := by
  have hold := hI.requests x (List.mem_of_getElem? hx)
  obtain ⟨huser, hserves⟩ := hold.call p hcall
  have hreplies : Replies env s.tenants.world.db.users p.1.userId? reply := replies_of_call (callsAnswer hI.services) hserves hreply
  have hgo : Goes env s { s with exchanges := s.exchanges.set e { x with reply := some reply } } := by
    refine ⟨Or.inl rfl, ?_⟩
    rintro token ⟨y, hy, r, hr, ht⟩
    obtain ⟨i, hi⟩ := List.getElem?_of_mem hy
    have hne : e ≠ i := by
      rintro rfl
      rw [hx, Option.some.injEq] at hi
      rw [← hi, hnone] at hr
      cases hr
    exact ⟨y, List.mem_of_getElem? ((List.getElem?_set_ne hne).trans hi), r, hr, ht⟩
  have hnew : Authentic env { s with exchanges := s.exchanges.set e { x with reply := some reply } } { x with reply := some reply } := by
    have hkept := hold.kept hgo
    refine ⟨hkept.requester, hkept.call, hkept.registered, hkept.admitted, fun reply' hr => ?_⟩
    obtain rfl := Option.some.inj hr
    exact ⟨fun u hu => huser.symm.trans (hreplies.owners u hu), hreplies.session⟩
  refine ⟨hI.services, fun y hy => ?_, ?_, fun h hh userId hu => ?_⟩
  · rcases List.mem_or_eq_of_mem_set hy with hy | rfl
    · exact (hI.requests y hy).kept hgo
    · exact hnew
  · rintro token ⟨y, hy, r, hr, ht⟩
    rcases List.mem_or_eq_of_mem_set hy with hy | rfl
    · exact hI.names token ⟨y, hy, r, hr, ht⟩
    · obtain rfl := Option.some.inj hr
      exact (hreplies.tokens token ht).names hI.services
  · obtain ⟨token, r, htoken, hfor, hid, hsubject⟩ := hI.sockets h hh userId hu
    exact ⟨token, r, htoken, hgo.tokenFor hfor, hid, hsubject⟩

/-- A step without forgery. -/
theorem trusted_step (hI : Trusted env s) (hok : Unforged env s a) (h : ServerStepped env s a s') : Trusted env s' := by
  cases h with
  | answered req random requester reply bare auth => exact trusted_answered hI hok bare auth
  | called req random requester call new auth user admitted registered =>
    exact trusted_called hI hok new auth user admitted registered
  | guest req random new => exact trusted_guest hI req new
  | reply e x p reply hx hnone hcall hreply => exact trusted_reply hI hx hnone hcall hreply
  | socket token =>
    have hgo : Goes env s { s with handshakes := s.handshakes ++ [⟨token, env.auth.wsHandshake env.jwt s.tenants.world.now token⟩] } :=
      ⟨Or.inl rfl, fun _ ht => ht⟩
    refine ⟨hI.services, fun x hx => (hI.requests x hx).kept hgo, hI.names, fun h hh userId hu => ?_⟩
    rcases List.mem_append.1 hh with hh | hh
    · exact hI.sockets h hh userId hu
    · obtain rfl := List.mem_singleton.1 hh
      exact handshaken hI hok hu
  | tenants b c step =>
    have hgo : Goes env s { s with tenants := c } := ⟨Or.inr ⟨b, tenants_step_cases step⟩, fun _ ht => ht⟩
    refine ⟨hI.services.step b trivial step, fun x hx => (hI.requests x hx).kept hgo, fun token ht => ?_, fun h hh userId hu => ?_⟩
    · obtain ⟨id, role, hsubject, htoken⟩ := hI.names token ht
      exact ⟨id, role, hgo.subject hsubject, htoken⟩
    · obtain ⟨token, r, htoken, hfor, hid, hsubject⟩ := hI.sockets h hh userId hu
      exact ⟨token, r, htoken, hgo.tokenFor hfor, hid, hgo.subject hsubject⟩

/-- In every run without forgery. -/
theorem trusted (h : (server env).Reach (Unforged env) s) : Trusted env s := by
  refine h.invariant ?_ (fun s a s' _ hI hok hs => trusted_step hI hok (server_step_cases hs))
  rintro s rfl
  exact ⟨.init rfl, fun x hx => (nomatch hx), fun token ⟨x, hx, _⟩ => (nomatch hx), fun h hh => (nomatch hh)⟩

/-- Every request is its caller's. -/
theorem requests_authentic (env : ServerEnv) : RequestsAuthentic env where
  services _ h := (trusted h).services
  requests _ x h hx := (trusted h).requests x hx
  sockets _ x userId h hx hu := (trusted h).sockets x hx userId hu

/-- A guest begins a session, is not let to the API keys, and reserves an upload with the same token. -/
example :
    let env : ServerEnv := ⟨Trace.jwt, Trace.crypto, fun _ _ => false, Config.default, Trace.oneSecret⟩
    let bearer := "Bearer " ++ env.auth.signAccessToken env.jwt 0 (Trace.uuid 1) (some .guest)
    let body : CreateUploadUrlBody := ⟨⟨"a.png", "image/png", 7⟩, by decide, by decide, by decide, by decide, by decide⟩
    let run : List ServerAction :=
      [.http ⟨.anyone .guest, none, none⟩ (Trace.uuid 1), .http ⟨.user .listKeys, some bearer, none⟩ (Trace.uuid 2),
        .http ⟨.user (.createUploadUrl body), some bearer, none⟩ (Trace.uuid 3), .tenants (.platform (Trace.call 0 10)),
        .tenants (.platform (Trace.call 0 0)), .tenants (.platform (Trace.call 0 0)), .reply 2]
    ((server env).run Server.empty run).map (fun s => s.exchanges.map (fun x => x.reply.map HttpReply.statusCode)) =
      some [some 201, some 403, some 201] := by
  decide +kernel

end FileProcessing
