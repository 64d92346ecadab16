import FileProcessing.Lemmas.Subscriptions

/-!
# Who receives the events of a job

`broadcast` sends the events of a job to every socket that has subscribed to its id, and `subscribe` takes any id: neither looks
at the user of the socket, nor at the row of the job. A user receives the events of their own jobs only in the runs where sockets
subscribe only to jobs that are not another user's.
-/

namespace FileProcessing

variable {cfg : Config} {ok : Gateway → GatewayAction → Prop} {s s' : Gateway} {a : GatewayAction}

/-- A row of the job belongs to the user. -/
def OwnedBy (s : Gateway) (jobId userId : String) : Prop :=
  ∀ row ∈ s.platform.world.db.jobs, row.id.text = jobId → row.userId.text = userId

/-- Tenant isolation: what a step sends on a socket are events of jobs of the user the socket was authenticated as. -/
def TenantsApart (cfg : Config) (ok : Gateway → GatewayAction → Prop) : Prop :=
  ∀ s a s', (gateway cfg).Reach ok s → ok s a → (gateway cfg).step s a = some s' →
    ∀ (k : Nat) c c', s.api.sockets[k]? = some c → s'.api.sockets[k]? = some c' →
      ∀ d ∈ c'.sent.drop c.sent.length, OwnedBy s d.jobId c.userId

/-- The conditions on a step: a socket does not subscribe to a job of another user, nor is a job of another user created under an id
a socket has already subscribed to. -/
structure OwnJobsOnly (s : Gateway) (a : GatewayAction) : Prop where
  subscribed : ∀ (k : Nat) c msg jobId, a = .api (.message k (some msg)) → s.api.sockets[k]? = some c → Subscribes msg jobId →
    OwnedBy s jobId c.userId
  created : ∀ (i pick : Nat) ch u f ty o, a = .platform (.exec i pick ch) →
    s.platform.tasks[i]? = some (.createJob u f ty o .create) → ∀ (k : Nat) c, s.api.sockets[k]? = some c →
      s.api.manager.subscribed k ch.id.text = true → u.text = c.userId

/-- A step of the two is a step of the one or the other. -/
theorem gateway_step_cases (h : (gateway cfg).step s a = some s') :
    (∃ x platform, a = .platform x ∧ Stepped cfg s.platform x platform ∧ s' = { s with platform := platform }) ∨
      ∃ x api, a = .api x ∧ ApiStepped s.api x api ∧ s' = { s with api := api } := by
  cases a with
  | platform x =>
    obtain ⟨platform, hp, rfl⟩ := Option.map_eq_some_iff.1 h
    exact Or.inl ⟨x, platform, rfl, step_cases hp, rfl⟩
  | api x =>
    obtain ⟨api, hp, rfl⟩ := Option.map_eq_some_iff.1 h
    exact Or.inr ⟨x, api, rfl, (api_step_cases hp).2, rfl⟩

/-- A socket has subscribed only to jobs of its user. -/
def SubscriptionsOwned (s : Gateway) : Prop :=
  ∀ (k : Nat) c jobId, s.api.sockets[k]? = some c → s.api.manager.subscribed k jobId = true → OwnedBy s jobId c.userId

/-- A step of the platform keeps the subscriptions to jobs of their users: no row changes its owner, and no row is inserted under an
id another user's socket has subscribed to. -/
theorem subscriptionsOwned_platform {x : Action} {platform : System} (hok : OwnJobsOnly s (.platform x))
    (h : Stepped cfg s.platform x platform) (hI : SubscriptionsOwned s) :
    SubscriptionsOwned { s with platform := platform } := by
  intro k c jobId hc hs row' hrow' hid
  rcases jobs_step h hrow' with hrow | ⟨i, t, ch, e, hw, ⟨row, hrow, hwr⟩ | ⟨data, rfl, hnew, -⟩⟩
  · exact hI k c jobId hc hs row' hrow hid
  · obtain ⟨hrid, hru, -⟩ := hwr.core
    rw [hru]
    exact hI k c jobId hc hs row hrow (hrid ▸ hid)
  · obtain ⟨pick, rfl⟩ := hw.action
    obtain ⟨u, f, ty, o, rfl, rfl⟩ := job_creator hw
    rw [hnew] at hid ⊢
    exact hok.created i pick ch u f ty o rfl hw.task k c hc (hid ▸ hs)

/-- A step of the process keeps the subscriptions to jobs of their users. -/
theorem subscriptionsOwned_api {x : ApiAction} {api : Api} (hok : OwnJobsOnly s (.api x)) (h : ApiStepped s.api x api)
    (hI : SubscriptionsOwned s) : SubscriptionsOwned { s with api := api } := by
  intro k c' jobId hc' hs
  rcases connection_back h hc' with ⟨c, hc, hu, -⟩ | ⟨-, hno⟩
  · rw [← hu]
    rcases subscribed_back h hs with hs | ⟨msg, rfl, hmsg⟩
    · exact hI k c jobId hc hs
    · exact hok.subscribed k c msg jobId rfl hc hmsg
  · rw [hno jobId] at hs
    cases hs

/-- In every run where sockets subscribe to jobs of their users only. -/
theorem subscriptionsOwned (h : (gateway cfg).Reach OwnJobsOnly s) : SubscriptionsOwned s := by
  refine h.invariant ?_ ?_
  · rintro s rfl k c jobId hc
    cases hc
  · intro s a s' _ hI hok hs
    rcases gateway_step_cases hs with ⟨x, platform, rfl, hst, rfl⟩ | ⟨x, api, rfl, hst, rfl⟩
    · exact subscriptionsOwned_platform hok hst hI
    · exact subscriptionsOwned_api hok hst hI

/-- Users receive the events of their own jobs in every run where sockets subscribe to jobs of their users only. -/
theorem tenants_apart (cfg : Config) : TenantsApart cfg OwnJobsOnly := by
  intro s a s' hr _ hs k c c' hc hc' d hd
  rcases gateway_step_cases hs with ⟨x, platform, rfl, -, rfl⟩ | ⟨x, api, rfl, hst, rfl⟩
  · rw [hc] at hc'
    cases hc'
    rw [List.drop_length] at hd
    cases hd
  · rcases connection_back hst hc' with ⟨c₀, hc₀, -, hsent | ⟨jobId, event, hsub, -, hsent⟩⟩ | ⟨hsent, -⟩
    · rw [hc] at hc₀
      cases hc₀
      rw [hsent, List.drop_length] at hd
      cases hd
    · rw [hc] at hc₀
      cases hc₀
      rw [hsent, List.drop_left, List.mem_singleton] at hd
      rw [hd]
      exact subscriptionsOwned hr k c jobId hc hsub
    · rw [hsent, List.drop_nil] at hd
      cases hd

/-- The guest creates a job, another guest connects and subscribes to it, and the worker publishes its progress. -/
def eavesdropping : List GatewayAction :=
  (Trace.upload ++ Trace.job).map .platform ++ [.platform (.guestSession (Trace.uuid 5)),
    .api (.connect (some "token") (some (Trace.uuid 5).text)),
    .api (.message 0 (some (.object [("type", .string "subscribe"), ("jobId", .string (Trace.uuid 20).text)])))]

/-- The message the worker publishes when it starts the job. -/
def firstProgress : GatewayAction :=
  .api (.pmessage 1 ("job:progress:" ++ (Trace.uuid 20).text)
    (some (.object [("progress", .number (.finite 0)), ("status", .string "active")])))

/-- The message is sent to a socket of a user who does not own the job. -/
def leaks (s : Gateway) : Bool :=
  match s.api.sockets[0]?, ((gateway Config.default).step s firstProgress).bind (fun s' => s'.api.sockets[0]?) with
  | some c, some c' => (c'.sent.drop c.sent.length).any (fun d => s.platform.world.db.jobs.rows.any (fun row =>
      row.id.text = d.jobId && row.userId.text ≠ c.userId))
  | _, _ => false

/-- Users receive the events of the jobs of others: whoever knows the id of a job can subscribe to it. -/
theorem tenants_mixed : ¬ TenantsApart Config.default Lts.Free := by
  intro h
  have hrun : ((gateway Config.default).run ⟨System.empty, Api.start⟩ eavesdropping).any leaks = true := by
    decide +kernel
  obtain ⟨s, hs, hp⟩ := Lts.steps_of_any hrun
  unfold leaks at hp
  split at hp
  · rename_i c c' hc hc'
    obtain ⟨s', hst, hc''⟩ := Option.bind_eq_some_iff.1 hc'
    obtain ⟨d, hd, hrow⟩ := List.any_eq_true.1 hp
    obtain ⟨row, hrow, hr⟩ := List.any_eq_true.1 hrow
    rw [Bool.and_eq_true, decide_eq_true_eq, decide_eq_true_eq] at hr
    exact hr.2 (h s firstProgress s' ⟨_, rfl, hs⟩ trivial hst 0 c c' hc hc'' d hd row hrow hr.1)
  · cases hp

end FileProcessing
