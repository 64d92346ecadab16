import FileProcessing.Lemmas.Ranks
import FileProcessing.Lemmas.Requests

/-!
# How far a call has come

The calls of the three kinds have few suspension points and no loop. A step that settles a call brings it closer to its end, no other
step moves it, and a call with nothing left has the reply of its handler.
-/

namespace FileProcessing

open AuthService ApiKeyService FileService

variable {env : Env} {c c' : Tenants} {b : TenantAction} {p : ServiceCall × Nat}

/-! ## The calls left -/

/-- The calls left at most. -/
def AccountTask.left : AccountTask → Nat
  | .register _ _ .findByEmail | .changePassword _ _ _ .findById => 4
  | .register _ _ .hash | .login _ _ .findByEmail | .changePassword _ _ _ (.compare _) => 3
  | .register _ _ (.create _) | .login _ _ (.compare _) | .refresh _ (.findById _) | .changePassword _ _ _ .hash
  | .createKey _ .countByUserId => 2
  | .register _ _ (.setRefreshTokenHash _) | .login _ _ (.setRefreshTokenHash _) | .refresh _ (.setRefreshTokenHash _)
  | .logout _ .setRefreshTokenHash | .me _ .findById | .changePassword _ _ _ (.updatePassword _) | .listKeys _ .findByUserId
  | .createKey _ (.create _) | .revokeKey _ _ .deleteById => 1
  | _ => 0

def Listing.left {α : Type} : Listing α → Nat
  | .findAllByUser => 2
  | .count _ | .select _ => 1
  | .returned _ | .threw _ => 0

/-- The calls left at most. -/
def ReadTask.left : ReadTask → Nat
  | .listFiles _ _ p => p.left
  | .listJobs _ _ p => p.left
  | .downloadFile _ _ .findById => 2
  | .downloadFile _ _ (.getObject _) | .findFile _ _ .findById | .findJob _ _ .findById => 1
  | _ => 0

/-- The calls left at most, of a task that serves a request. -/
def Task.left : Task → Nat
  | .createUploadUrl _ _ p => p.left
  | .confirmUpload _ _ p => p.left
  | .deleteFile _ _ p => p.left
  | .createJob _ _ _ _ p => p.left
  | .cancelJob _ _ p => p.left
  | _ => 0

/-- A call on the accounts that settles brings its task closer to the end. -/
theorem account_left {crypto : Crypto} {auth : AuthServiceConfig} {now : Time} {random : BitVec 192} {t : AccountTask}
    {aw : AccountAwait AccountTask} (hn : t.next crypto auth now random = some aw) (r : Except Err aw.α) :
    (aw.resume r).left < t.left := by
  cases t with
  | register email password p =>
    obtain ⟨aw, hp, rfl⟩ := Option.map_eq_some_iff.1 hn
    cases p with
    | findByEmail =>
      cases hp
      rcases r with e | _ | user <;> exact Nat.le_of_ble_eq_true rfl
    | hash | create | setRefreshTokenHash =>
      cases hp
      cases r <;> exact Nat.le_of_ble_eq_true rfl
    | returned | threw => cases hp
  | login email password p =>
    obtain ⟨aw, hp, rfl⟩ := Option.map_eq_some_iff.1 hn
    cases p with
    | findByEmail =>
      cases hp
      rcases r with e | _ | user <;> exact Nat.le_of_ble_eq_true rfl
    | compare =>
      cases hp
      rcases r with e | _ | _ <;> exact Nat.le_of_ble_eq_true rfl
    | setRefreshTokenHash =>
      cases hp
      cases r <;> exact Nat.le_of_ble_eq_true rfl
    | returned | threw => cases hp
  | refresh token p =>
    obtain ⟨aw, hp, rfl⟩ := Option.map_eq_some_iff.1 hn
    cases p with
    | findById =>
      cases hp
      cases r with
      | error e => exact Nat.succ_pos _
      | ok found =>
        dsimp only [AccountAwait.map]
        split
        · exact Nat.succ_pos _
        · split
          · exact Nat.succ_pos _
          · split
            · exact Nat.lt_succ_self _
            · exact Nat.succ_pos _
    | setRefreshTokenHash =>
      cases hp
      cases r <;> exact Nat.le_of_ble_eq_true rfl
    | returned | threw => cases hp
  | changePassword userId cur new p =>
    obtain ⟨aw, hp, rfl⟩ := Option.map_eq_some_iff.1 hn
    cases p with
    | findById =>
      cases hp
      rcases r with e | _ | user <;> exact Nat.le_of_ble_eq_true rfl
    | compare =>
      cases hp
      rcases r with e | _ | _ <;> exact Nat.le_of_ble_eq_true rfl
    | hash | updatePassword =>
      cases hp
      cases r <;> exact Nat.le_of_ble_eq_true rfl
    | returned | threw => cases hp
  | me userId p =>
    obtain ⟨aw, hp, rfl⟩ := Option.map_eq_some_iff.1 hn
    cases p with
    | findById =>
      cases hp
      rcases r with e | _ | user <;> exact Nat.le_of_ble_eq_true rfl
    | returned | threw => cases hp
  | revokeKey userId keyId p =>
    obtain ⟨aw, hp, rfl⟩ := Option.map_eq_some_iff.1 hn
    cases p with
    | deleteById =>
      cases hp
      rcases r with e | _ | _ <;> exact Nat.le_of_ble_eq_true rfl
    | returned | threw => cases hp
  | createKey userId p =>
    obtain ⟨aw, hp, rfl⟩ := Option.map_eq_some_iff.1 hn
    cases p with
    | countByUserId =>
      cases hp
      cases r with
      | error e => exact Nat.succ_pos _
      | ok count =>
        dsimp only [AccountAwait.map]
        split
        · exact Nat.succ_pos _
        · exact Nat.lt_succ_self _
    | create =>
      cases hp
      cases r <;> exact Nat.le_of_ble_eq_true rfl
    | returned | threw => cases hp
  | logout userId p | listKeys userId p =>
    obtain ⟨aw, hp, rfl⟩ := Option.map_eq_some_iff.1 hn
    cases p <;> cases hp
    cases r <;> exact Nat.one_pos

/-- A list whose statement is answered is closer to its end. -/
theorem listing_left {α : Type} {select : ReadCall (List α)} {count : ReadCall Nat} {page limit : Nat} {countFirst : Bool}
    {p : Listing α} {aw : ReadAwait (Listing α)} (hn : listing select count page limit countFirst p = some aw) (r : Except Err aw.α) :
    (aw.resume r).left < p.left := by
  cases p with
  | findAllByUser => cases countFirst <;> cases hn <;> cases r <;> exact Nat.le_of_ble_eq_true rfl
  | count | select =>
    cases hn
    cases r <;> exact Nat.one_pos
  | returned | threw => cases hn

/-- A call that reads and settles is closer to its end. -/
theorem read_left {countFirst : Bool} {t : ReadTask} {aw : ReadAwait ReadTask} (hn : t.next countFirst = some aw)
    (r : Except Err aw.α) : (aw.resume r).left < t.left := by
  cases t with
  | listFiles userId opts p | listJobs userId opts p =>
    obtain ⟨aw, hp, rfl⟩ := Option.map_eq_some_iff.1 hn
    exact listing_left hp r
  | findFile userId fileId p =>
    obtain ⟨aw, hp, rfl⟩ := Option.map_eq_some_iff.1 hn
    cases p with
    | findById =>
      cases hp
      rcases r with e | _ | file
      · exact Nat.one_pos
      · exact Nat.one_pos
      · dsimp only [ReadAwait.map]
        split <;> exact Nat.one_pos
    | returned | threw => cases hp
  | downloadFile userId fileId p =>
    obtain ⟨aw, hp, rfl⟩ := Option.map_eq_some_iff.1 hn
    cases p with
    | findById =>
      cases hp
      rcases r with e | _ | file
      · exact Nat.succ_pos _
      · exact Nat.succ_pos _
      · dsimp only [ReadAwait.map]
        split
        · exact Nat.succ_pos _
        · exact Nat.lt_succ_self _
    | getObject =>
      cases hp
      cases r <;> exact Nat.one_pos
    | returned | threw => cases hp
  | findJob userId jobId p =>
    obtain ⟨aw, hp, rfl⟩ := Option.map_eq_some_iff.1 hn
    cases p with
    | findById =>
      cases hp
      rcases r with e | _ | job <;> exact Nat.one_pos
    | returned | threw => cases hp

/-- A task that serves a request waits, or is closer to its end. -/
theorem task_left {cfg : Config} {s : System} {a : Action} {i : Nat} {t t' : Task} (h : TaskMoves cfg s a i t t')
    (hr : t.request.isSome = true) : (t' = t ∧ a.caller ≠ some i) ∨ t'.left < t.left := by
  cases h with
  | waits _ hw =>
    refine Or.inl ⟨rfl, fun hc => hw ?_⟩
    cases a <;> first | exact hc | cases hc
  | createUploadUrl hn _ he => exact Or.inr (he ▸ createUploadUrl_left hn _)
  | confirmUpload hn _ he => exact Or.inr (he ▸ confirmUpload_left hn _)
  | deleteFile hn _ he => exact Or.inr (he ▸ deleteFile_left hn _)
  | createJob hn _ he => exact Or.inr (he ▸ createJob_left hn _)
  | cancelJob hn _ he => exact Or.inr (he ▸ cancelJob_left hn _)
  | attempt | settled | failedListener | report | sweep => cases hr

/-! ## The call at a place -/

/-- The step settles the call at the place. -/
def TenantAction.SettlesAt (b : TenantAction) : ServiceCall × Nat → Prop
  | (.account _, i) => (∃ ch, b = .exec i ch) ∨ ∃ e, b = .reject i e
  | (.platform _, i) => ∃ a, b = .platform a ∧ a.caller = some i
  | (.read _, i) => ∃ countFirst, (∃ ch, b = .execRead i countFirst ch) ∨ ∃ e, b = .rejectRead i countFirst e

/-- The calls left of the one at the place. -/
def Tenants.left (c : Tenants) : ServiceCall × Nat → Nat
  | (.account _, i) => ((c.calls[i]?).map AccountTask.left).getD 0
  | (.platform _, i) => ((c.system.tasks[i]?).map Task.left).getD 0
  | (.read _, i) => ((c.reads[i]?).map ReadTask.left).getD 0

/-- A call that has its reply has nothing left. -/
theorem left_of_replied {reply : HttpReply} (h : c.replyOf p = some reply) : c.left p = 0 := by
  obtain ⟨call, i⟩ := p
  cases call with
  | account r =>
    obtain ⟨t, ht, hreply⟩ := Option.bind_eq_some_iff.1 h
    rw [Tenants.left, ht]
    cases t with
    | register _ _ p | login _ _ p | refresh _ p | logout _ p | me _ p | changePassword _ _ _ p | listKeys _ p | createKey _ p
    | revokeKey _ _ p => cases p <;> first | rfl | cases hreply
  | platform r =>
    obtain ⟨t, ht, hreply⟩ := Option.bind_eq_some_iff.1 h
    rw [Tenants.left, ht]
    cases t with
    | createUploadUrl _ _ p | confirmUpload _ _ p | deleteFile _ _ p | createJob _ _ _ _ p | cancelJob _ _ p =>
      cases p <;> first | rfl | cases hreply
    | attempt | failedListener | report | sweep => cases hreply
  | read r =>
    obtain ⟨t, ht, hreply⟩ := Option.bind_eq_some_iff.1 h
    rw [Tenants.left, ht]
    cases t with
    | listFiles _ _ p | listJobs _ _ p | findFile _ _ p | downloadFile _ _ p | findJob _ _ p =>
      cases p <;> first | rfl | cases hreply

/-- The call at the place stays as it is. -/
structure PlaceWaits (c c' : Tenants) (p : ServiceCall × Nat) : Prop where
  left : c'.left p = c.left p
  reply : c'.replyOf p = c.replyOf p

/-- A step that settles the call at a place brings it closer to its end; no other step moves it. -/
theorem left_step (h : TenantStepped env c b c') (hs : c.Serves p) : (¬ b.SettlesAt p ∧ PlaceWaits c c' p) ∨ c'.left p < c.left p := by
  obtain ⟨call, i⟩ := p
  cases call with
  | account r =>
    obtain ⟨t, ht, -⟩ := hs
    obtain ⟨t', ht', hm⟩ := callMoves_forward h ht
    have hleft : c.left (.account r, i) = t.left := by simp only [Tenants.left, ht, Option.map_some, Option.getD_some]
    have hleft' : c'.left (.account r, i) = t'.left := by simp only [Tenants.left, ht', Option.map_some, Option.getD_some]
    rw [hleft, hleft']
    cases hm with
    | waits hexec hreject =>
      refine Or.inl ⟨?_, hleft'.trans hleft.symm, by simp only [Tenants.replyOf, ht, ht']⟩
      rintro (⟨ch, rfl⟩ | ⟨e, rfl⟩)
      · exact hexec ch rfl
      · exact hreject e rfl
    | exec ch ha hn => exact Or.inr (account_left hn _)
    | reject e ha hn => exact Or.inr (account_left hn _)
  | platform r =>
    obtain ⟨t, ht, hr⟩ := hs
    have hleft : c.left (.platform r, i) = t.left := by simp only [Tenants.left, ht, Option.map_some, Option.getD_some]
    cases h with
    | platform a system step old =>
      obtain ⟨t', ht', hm⟩ := task_forward (step_cases step) ht
      have hafter : (Tenants.system { c with system := system }).tasks[i]? = some t' := ht'
      rcases task_left hm (hr ▸ rfl) with ⟨rfl, hne⟩ | hlt
      · refine Or.inl ⟨?_, by simp only [Tenants.left, ht, hafter], by simp only [Tenants.replyOf, ht, hafter]⟩
        rintro ⟨a', he, hcaller⟩
        cases he
        exact hne hcaller
      · rw [hleft]
        simp only [Tenants.left, hafter, Option.map_some, Option.getD_some]
        exact Or.inr hlt
    | call | exec | reject | read | execRead | rejectRead =>
      refine Or.inl ⟨?_, rfl, rfl⟩
      rintro ⟨a, he, -⟩
      cases he
  | read r =>
    obtain ⟨t, ht, -⟩ := hs
    have hleft : c.left (.read r, i) = t.left := by simp only [Tenants.left, ht, Option.map_some, Option.getD_some]
    obtain ⟨t', ht', ⟨rfl, hne⟩ | ⟨countFirst, aw, r', hn, rfl⟩⟩ := readMoves_forward h ht
    · refine Or.inl ⟨?_, by simp only [Tenants.left, ht, ht'], by simp only [Tenants.replyOf, ht, ht']⟩
      rintro ⟨countFirst, ⟨ch, rfl⟩ | ⟨e, rfl⟩⟩
      · exact (hne countFirst).1 ch rfl
      · exact (hne countFirst).2 e rfl
    · have hleft' : c'.left (.read r, i) = (aw.resume r').left := by simp only [Tenants.left, ht', Option.map_some, Option.getD_some]
      rw [hleft, hleft']
      exact Or.inr (read_left hn r')

/-- A call that begins leaves the others as they are. -/
theorem waits_start (env : Env) (random : Uuid) (call : ServiceCall) (hs : c.Serves p) :
    (c.start env random call).Serves p ∧ PlaceWaits c (c.start env random call) p := by
  have hkept {α : Type} {l : List α} {i : Nat} {x y : α} (h : l[i]? = some x) : (l ++ [y])[i]? = some x :=
    (List.getElem?_append_left (List.getElem?_eq_some_iff.1 h).1).trans h
  obtain ⟨call', i⟩ := p
  cases call' with
  | account r =>
    obtain ⟨t, ht, hr⟩ := hs
    have ht' : (c.start env random call).calls[i]? = some t := by
      cases call with
      | account => exact hkept ht
      | platform | read => exact ht
    exact ⟨⟨t, ht', hr⟩, by simp only [Tenants.left, ht, ht'], by simp only [Tenants.replyOf, ht, ht']⟩
  | platform r =>
    obtain ⟨t, ht, hr⟩ := hs
    have ht' : (c.start env random call).system.tasks[i]? = some t := by
      cases call with
      | platform => exact hkept ht
      | account | read => exact ht
    exact ⟨⟨t, ht', hr⟩, by simp only [Tenants.left, ht, ht'], by simp only [Tenants.replyOf, ht, ht']⟩
  | read r =>
    obtain ⟨t, ht, hr⟩ := hs
    have ht' : (c.start env random call).reads[i]? = some t := by
      cases call with
      | read => exact hkept ht
      | account | platform => exact ht
    exact ⟨⟨t, ht', hr⟩, by simp only [Tenants.left, ht, ht'], by simp only [Tenants.replyOf, ht, ht']⟩

/-- A guest session leaves every call as it is. -/
theorem waits_guestSession (id : Uuid) (hs : c.Serves p) : (c.guestSession id).Serves p ∧ PlaceWaits c (c.guestSession id) p := by
  obtain ⟨call, i⟩ := p
  cases call with
  | account | platform | read => exact ⟨hs, rfl, rfl⟩

end FileProcessing
