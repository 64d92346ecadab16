import FileProcessing.Lemmas.Accounts

/-!
# The limit on API keys

`createKey` counts the rows of its user and inserts in a second statement, with nothing between the two that holds the other calls
back. The rows of a user and the creations that have counted and not yet inserted together stay at five, so long as no creation
counts while fewer rows than five and those creations already come to five; two that count at four rows pass the limit.
-/

namespace FileProcessing

open AuthService ApiKeyService

variable {crypto : Crypto} {cfg : AuthServiceConfig} {s s' : Accounts}

/-- The rows of a user. -/
def keysOf (s : Accounts) (u : Uuid) : Nat := ApiKeyRepository.countByUserId s.store.apiKeys u

/-- The call has counted the keys of its user and is to insert one. -/
def AccountTask.inserting (u : Uuid) : AccountTask → Bool
  | .createKey userId (.create _) => userId = u
  | _ => false

/-- The creations of a user between their count and their insert. -/
def underWay (s : Accounts) (u : Uuid) : Nat := s.tasks.countP (AccountTask.inserting u)

/-- Every user owns at most five rows of `api_keys`, in every state a run reaches whose steps all meet the condition. -/
def KeysLimited (crypto : Crypto) (cfg : AuthServiceConfig) (ok : Accounts → AccountAction → Prop) : Prop :=
  ∀ s, (accounts crypto cfg).Reach ok s → ∀ u, keysOf s u ≤ 5

/-- A creation that counts finds room for itself and for the creations of its user that are under way, or finds the limit
reached. -/
def RoomCounted (s : Accounts) : AccountAction → Prop
  | .exec i _ => ∀ u, s.tasks[i]? = some (.createKey u .countByUserId) → keysOf s u + underWay s u < 5 ∨ 5 ≤ keysOf s u
  | _ => True

/-! ## What a call does to the rows of a user -/

/-- The call is a statement that changes `api_keys`. -/
def AccountCall.writesKeys : {α : Type} → AccountCall α → Bool
  | _, .createKey _ | _, .deleteById _ _ => true
  | _, _ => false

/-- Every other call leaves `api_keys` alone. -/
theorem apiKeys_exec {α : Type} {call : AccountCall α} (h : call.writesKeys = false) (ch : AccountChoice) (a : AccountStore) :
    (call.exec crypto ch a).2.apiKeys = a.apiKeys := by
  cases call with
  | createKey | deleteById => cases h
  | createUser email passwordHash =>
    simp only [AccountCall.exec]
    split
    · rfl
    split <;> rfl
  | findByEmail | findById | setRefreshTokenHash | updatePassword | bcryptHash | bcryptCompare | findByUserId | countByUserId =>
    rfl

/-- An insert adds a row to its user, and to no other. -/
theorem count_insert {apiKeys apiKeys' : Table ApiKeyRow.id} {now : Time} {id : Uuid} {data : NewApiKey}
    (h : apiKeys.insert (ApiKeyRepository.newRow now id data) = some apiKeys') (u : Uuid) :
    ApiKeyRepository.countByUserId apiKeys' u =
      ApiKeyRepository.countByUserId apiKeys u + if data.userId = u then 1 else 0 := by
  unfold ApiKeyRepository.countByUserId ApiKeyRepository.keysOf
  rw [Table.select_insert h, List.length_append]
  by_cases hu : data.userId = u <;> simp [ApiKeyRepository.newRow, hu]

/-- A delete adds no row. -/
theorem count_delete (apiKeys : Table ApiKeyRow.id) (id userId u : Uuid) :
    ApiKeyRepository.countByUserId (ApiKeyRepository.deleteById apiKeys id userId).2 u ≤
      ApiKeyRepository.countByUserId apiKeys u := by
  unfold ApiKeyRepository.countByUserId ApiKeyRepository.keysOf ApiKeyRepository.deleteById Table.select Table.delete
  exact (List.filter_sublist.filter _).length_le

/-- One, where the task is a creation of the user that is to insert. -/
def AccountTask.reserves (u : Uuid) (t : AccountTask) : Nat := if t.inserting u then 1 else 0

/-- A call of `AuthService`, and `listKeys`, neither reserves a row nor writes one. -/
theorem reserves_other {t : AccountTask} {aw : AccountAwait AccountTask} {now : Time} {random : BitVec 192}
    (hn : t.next crypto cfg now random = some aw) (hc : ∀ userId p, t ≠ .createKey userId p)
    (hr : ∀ userId keyId p, t ≠ .revokeKey userId keyId p) :
    aw.call.writesKeys = false ∧ ∀ r u, (aw.resume r).reserves u = 0 := by
  cases t with
  | createKey userId p => exact absurd rfl (hc userId p)
  | revokeKey userId keyId p => exact absurd rfl (hr userId keyId p)
  | register email password p | login email password p | refresh token p | logout userId p | me userId p
  | changePassword userId currentPassword newPassword p | listKeys userId p =>
    cases p <;> cases hn <;> exact ⟨rfl, fun _ _ => rfl⟩

/-- What a call does to the rows of a user and the row it reserves: a creation that counts may reserve one where it counts fewer
than five, and every other call makes the two no more together. -/
theorem keys_exec {t : AccountTask} {aw : AccountAwait AccountTask} {ch : AccountChoice} {a : AccountStore}
    (hn : t.next crypto cfg a.now ch.random = some aw) (u : Uuid) :
    (t = .createKey u .countByUserId ∧ (aw.call.exec crypto ch a).2.apiKeys = a.apiKeys ∧
      (5 ≤ ApiKeyRepository.countByUserId a.apiKeys u → (aw.resume (aw.call.exec crypto ch a).1).reserves u = 0)) ∨
    ApiKeyRepository.countByUserId (aw.call.exec crypto ch a).2.apiKeys u + (aw.resume (aw.call.exec crypto ch a).1).reserves u ≤
      ApiKeyRepository.countByUserId a.apiKeys u + t.reserves u := by
  have other (hc : ∀ userId p, t ≠ .createKey userId p) (hr : ∀ userId keyId p, t ≠ .revokeKey userId keyId p) :
      ApiKeyRepository.countByUserId (aw.call.exec crypto ch a).2.apiKeys u +
        (aw.resume (aw.call.exec crypto ch a).1).reserves u ≤ ApiKeyRepository.countByUserId a.apiKeys u + t.reserves u := by
    obtain ⟨hcall, hres⟩ := reserves_other hn hc hr
    rw [apiKeys_exec hcall, hres]
    omega
  cases t with
  | createKey v p =>
    cases p with
    | countByUserId =>
      cases hn
      by_cases hv : v = u
      · subst hv
        refine Or.inl ⟨rfl, rfl, ?_⟩
        intro hfull
        have hcap : MAX_KEYS_PER_USER ≤ ApiKeyRepository.countByUserId a.apiKeys v := hfull
        simp only [AccountCall.exec, AccountAwait.map]
        rw [if_pos hcap]
        rfl
      · refine Or.inr ?_
        have hnone : ∀ p, AccountTask.reserves u (.createKey v p) = 0 := by
          intro p
          cases p <;> simp [AccountTask.reserves, AccountTask.inserting, hv]
        simp only [AccountCall.exec, AccountAwait.map, hnone]
        omega
    | create rawKey =>
      cases hn
      refine Or.inr ?_
      have hpending : AccountTask.reserves u (.createKey v (.create rawKey)) = if v = u then 1 else 0 := by
        simp [AccountTask.reserves, AccountTask.inserting]
      rw [hpending]
      simp only [AccountAwait.map]
      rcases exec_createKey ch a ⟨v, crypto.sha256 rawKey, KEY_PREFIX, lastFour rawKey⟩ with he | ⟨apiKeys, he, hins, -⟩
      · rw [he]
        simp [AccountTask.reserves, AccountTask.inserting]
      · rw [he]
        simp only [count_insert hins u]
        simp [AccountTask.reserves, AccountTask.inserting]
    | returned | threw => cases hn
  | revokeKey v keyId p =>
    cases p with
    | deleteById =>
      cases hn
      refine Or.inr ?_
      have hless := count_delete a.apiKeys keyId v u
      have hnone : ∀ p, AccountTask.reserves u (.revokeKey v keyId p) = 0 := fun _ => rfl
      simp only [AccountCall.exec, AccountAwait.map, hnone]
      omega
    | returned | threw => cases hn
  | register | login | refresh | logout | me | changePassword | listKeys =>
    exact Or.inr (other (by intros; intro h; cases h) (by intros; intro h; cases h))

/-! ## The limit -/

/-- What a run keeps: the rows of a user and its creations under way come to five at most. -/
def Rationed (s : Accounts) : Prop := ∀ u, keysOf s u + underWay s u ≤ 5

/-- Putting a task in the place of another changes what is under way by what the two reserve. -/
theorem underWay_set {tasks : List AccountTask} {i : Nat} {t : AccountTask} (h : tasks[i]? = some t) (t' : AccountTask)
    (u : Uuid) :
    (tasks.set i t').countP (AccountTask.inserting u) + t.reserves u =
      tasks.countP (AccountTask.inserting u) + t'.reserves u := by
  obtain ⟨hi, he⟩ := List.getElem?_eq_some_iff.1 h
  have hle : t.reserves u ≤ tasks.countP (AccountTask.inserting u) := by
    unfold AccountTask.reserves
    split
    · rename_i hins
      exact List.countP_pos_iff.2 ⟨t, List.mem_of_getElem? h, hins⟩
    · omega
  rw [List.countP_set hi, he]
  unfold AccountTask.reserves at hle ⊢
  omega

theorem rationed_step {a : AccountAction} (hI : Rationed s) (hok : RoomCounted s a)
    (hs : (accounts crypto cfg).step s a = some s') : Rationed s' := by
  intro u
  have hu := hI u
  cases Accounts.moves hs with
  | tick ms => exact hu
  | call r =>
    have hnew : AccountTask.inserting u (r.task crypto s.store.now) = false := by cases r <;> rfl
    unfold keysOf underWay at hu ⊢
    simp only [Accounts.start, List.countP_append, List.countP_singleton, hnew]
    simpa using hu
  | exec i ch t aw ht hn =>
    have hset := underWay_set ht (aw.resume (aw.call.exec crypto ch s.store).1) u
    unfold keysOf underWay at hu ⊢
    simp only [Accounts.resume]
    rcases keys_exec hn u with ⟨rfl, hkeys, hfull⟩ | hle
    · rw [hkeys]
      have hbefore : AccountTask.reserves u (.createKey u .countByUserId) = 0 := rfl
      rcases hok u ht with hroom | hlimit
      · have hone : (aw.resume (aw.call.exec crypto ch s.store).1).reserves u ≤ 1 := by
          unfold AccountTask.reserves
          split <;> omega
        unfold keysOf underWay at hroom
        omega
      · have hnone := hfull hlimit
        omega
    · omega

/-- In a run in which every creation that counts finds room for itself and the creations under way, or the limit reached, no user
ever owns more than five keys. -/
theorem keys_limited (crypto : Crypto) (cfg : AuthServiceConfig) : KeysLimited crypto cfg RoomCounted := by
  intro s hr u
  have hI : Rationed s := by
    refine hr.invariant ?_ (fun s a s' _ hI hok hs => rationed_step hI hok hs)
    rintro s rfl u
    exact Nat.zero_le 5
  have hu := hI u
  omega

/-- Six creations of one user count before the first of them inserts, and each of them inserts. -/
theorem keys_unlimited : ¬KeysLimited Trace.crypto Trace.ttl Lts.Free := by
  intro h
  have hrun : ((accounts Trace.crypto Trace.ttl).run Accounts.empty
      (Trace.signUp ++ List.replicate 6 (.call (.createKey (Trace.uuid 1))) ++
        (List.range 6).map (fun k => Trace.query (k + 1) 0) ++ (List.range 6).map (fun k => Trace.query (k + 1) (k + 10)))).any
      (fun s => keysOf s (Trace.uuid 1) = 6) = true := by
    decide +kernel
  obtain ⟨s, hr, hp⟩ := Trace.reachAccounts hrun
  have hsix : keysOf s (Trace.uuid 1) = 6 := by simpa using hp
  have hle := h s hr (Trace.uuid 1)
  omega

end FileProcessing
