import FileProcessing.Lemmas.Tenants
import FileProcessing.Theorems.ApiKeyLimit

/-!
# The API keys and what has been told of them

What the calls of `ApiKeyService` have told their clients determines `api_keys`, whatever interleaves: the rows are the keys that
were handed out and not revoked since. So a list shows these keys, the limit counts these keys, and a revocation succeeds on exactly
one of these.
-/

namespace FileProcessing

open ApiKeyService

variable {env : Env} {ok : Tenants → TenantAction → Prop} {c c' : Tenants} {a : TenantAction}

/-! ## What the calls have told -/

/-- What a call that has ended told its client of a key. -/
inductive KeyTold where
  | created (userId : Uuid) (key : ApiKey) (fullKey : String)
  | revoked (userId keyId : Uuid)
  deriving DecidableEq, Repr

def AccountTask.told : AccountTask → Option KeyTold
  | .createKey userId (.returned key fullKey) => some (.created userId key fullKey)
  | .revokeKey userId keyId .returned => some (.revoked userId keyId)
  | _ => none

/-- What the call at a place told. -/
def toldAt (calls : List AccountTask) (i : Nat) : Option KeyTold := calls[i]?.bind AccountTask.told

/-- The user was handed the key. -/
def KeyHanded (c : Tenants) (u : Uuid) (key : ApiKey) (fullKey : String) : Prop :=
  ∃ i, toldAt c.calls i = some (.created u key fullKey)

/-- The user was told that a key is revoked. -/
def KeyRevoked (c : Tenants) (u keyId : Uuid) : Prop := ∃ i, toldAt c.calls i = some (.revoked u keyId)

/-- The user was handed the key and has not revoked it. -/
structure KeyStands (c : Tenants) (u : Uuid) (key : ApiKey) (fullKey : String) : Prop where
  handed : KeyHanded c u key fullKey
  stands : ¬KeyRevoked c u key.id

/-- The list is of the keys of the user that stand, each once. -/
structure ListsKeys (c : Tenants) (u : Uuid) (keys : List ApiKey) : Prop where
  once : (keys.map ApiKey.id).Nodup
  stands : ∀ key, key ∈ keys ↔ ∃ fullKey, KeyStands c u key fullKey

/-- What has been told of the keys, and the table. -/
structure KeyLedger (env : Env) (c : Tenants) : Prop where
  rows : ∀ row, row ∈ c.apiKeys ↔
    ∃ fullKey, KeyStands c row.userId (toApiKey row) fullKey ∧ row.keyHash = env.crypto.sha256 fullKey
  own : ∀ u key fullKey, KeyHanded c u key fullKey → key.userId = u
  made : ∀ u key fullKey, KeyHanded c u key fullKey →
    key.keyPrefix = KEY_PREFIX ∧ key.lastFour = lastFour fullKey ∧ ∃ random, fullKey = generateRawKey random
  handedOnce : ∀ i j u v key key' fullKey fullKey', toldAt c.calls i = some (.created u key fullKey) →
    toldAt c.calls j = some (.created v key' fullKey') → key.id = key'.id → i = j
  revokedHanded : ∀ u keyId, KeyRevoked c u keyId → ∃ key fullKey, KeyHanded c u key fullKey ∧ key.id = keyId
  revokedOnce : ∀ i j u v keyId, toldAt c.calls i = some (.revoked u keyId) → toldAt c.calls j = some (.revoked v keyId) → i = j

/-- The ledger of every reachable state, and the replies to the statements of `ApiKeyService`: each tells what the ledger says where
the statement runs. -/
structure KeysExact (env : Env) : Prop where
  ledger : ∀ c, (tenants env).Reach Lts.Free c → KeyLedger env c
  listed : ∀ c c' i ch u, (tenants env).Reach Lts.Free c → (tenants env).step c (.exec i ch) = some c' →
    c.calls[i]? = some (.listKeys u .findByUserId) →
    ∃ keys, ListsKeys c u keys ∧ c'.calls[i]? = some (.listKeys u (.returned keys))
  counted : ∀ c c' i ch u, (tenants env).Reach Lts.Free c → (tenants env).step c (.exec i ch) = some c' →
    c.calls[i]? = some (.createKey u .countByUserId) →
    ∃ keys, ListsKeys c u keys ∧
      c'.calls[i]? = some (.createKey u (if 5 ≤ keys.length then
        .threw (conflict "API_KEY_LIMIT_REACHED" "Maximum of 5 API keys allowed per user") else .create (generateRawKey ch.random)))
  revoked : ∀ c c' i ch u keyId, (tenants env).Reach Lts.Free c → (tenants env).step c (.exec i ch) = some c' →
    c.calls[i]? = some (.revokeKey u keyId .deleteById) →
    ((∃ key fullKey, KeyStands c u key fullKey ∧ key.id = keyId) ∧ c'.calls[i]? = some (.revokeKey u keyId .returned)) ∨
      ((∀ key fullKey, KeyStands c u key fullKey → key.id ≠ keyId) ∧
        c'.calls[i]? = some (.revokeKey u keyId (.threw (notFound "API_KEY_NOT_FOUND" "API key not found"))))

theorem toldAt_set {calls : List AccountTask} {i : Nat} {t : AccountTask} (h : calls[i]? = some t) (t' : AccountTask) (j : Nat) :
    toldAt (calls.set i t') j = if j = i then t'.told else toldAt calls j := by
  unfold toldAt
  by_cases hj : j = i
  · subst hj
    rw [if_pos rfl, List.getElem?_set_self (List.getElem?_eq_some_iff.1 h).1, Option.bind_some]
  · rw [if_neg hj, List.getElem?_set_ne (Ne.symm hj)]

theorem toldAt_append (calls : List AccountTask) {t : AccountTask} (h : t.told = none) (j : Nat) :
    toldAt (calls ++ [t]) j = toldAt calls j := by
  unfold toldAt
  by_cases hj : j < calls.length
  · rw [List.getElem?_append_left hj]
  · rw [List.getElem?_append_right (Nat.le_of_not_lt hj), List.getElem?_eq_none (Nat.le_of_not_lt hj)]
    cases hone : [t][j - calls.length]? with
    | none => rfl
    | some t' =>
      cases List.mem_singleton.1 (List.mem_of_getElem? hone)
      exact h

/-- Putting a task that has told nothing in the place of another leaves what was told. -/
theorem toldAt_quiet {calls : List AccountTask} {i : Nat} {t t' : AccountTask} (h : calls[i]? = some t) (ht : t.told = none)
    (ht' : t'.told = none) (j : Nat) : toldAt (calls.set i t') j = toldAt calls j := by
  rw [toldAt_set h]
  split
  · rename_i hj
    rw [hj, toldAt, h, Option.bind_some, ht, ht']
  · rfl

/-! ## A step and the keys -/

/-- A delete finds its row, where there is one. -/
theorem deleted_iff {apiKeys : Table ApiKeyRow.id} {u keyId : Uuid} : (ApiKeyRepository.deleteById apiKeys keyId u).1 = true ↔
    ∃ row ∈ apiKeys, ApiKeyRepository.owned u keyId row = true := by
  unfold ApiKeyRepository.deleteById
  rw [decide_eq_true_iff, List.length_pos_iff_exists_mem]
  simp only [Table.mem_select]

/-- What a step does to the keys: nothing, or it hands one out, or it takes one back. -/
inductive KeyStepped (env : Env) (c c' : Tenants) : Prop where
  | same (told : ∀ j, toldAt c'.calls j = toldAt c.calls j) (rows : c'.apiKeys = c.apiKeys)
  | creates (i : Nat) (u id : Uuid) (fullKey : String) (now : Time) (row : ApiKeyRow)
      (call : c.calls[i]? = some (.createKey u (.create fullKey)))
      (new : row = ApiKeyRepository.newRow now id ⟨u, env.crypto.sha256 fullKey, KEY_PREFIX, lastFour fullKey⟩)
      (told : ∀ j, toldAt c'.calls j = if j = i then some (.created u (toApiKey row) fullKey) else toldAt c.calls j)
      (insert : c.apiKeys.insert row = some c'.apiKeys) (fresh : id ∉ c.world.issued) (issued : id ∈ c'.world.issued)
  | revokes (i : Nat) (u keyId : Uuid) (row : ApiKeyRow) (call : c.calls[i]? = some (.revokeKey u keyId .deleteById))
      (hit : row ∈ c.apiKeys) (owned : ApiKeyRepository.owned u keyId row = true)
      (told : ∀ j, toldAt c'.calls j = if j = i then some (.revoked u keyId) else toldAt c.calls j)
      (delete : c'.apiKeys = c.apiKeys.delete (ApiKeyRepository.owned u keyId))

/-- A call that goes on has told nothing. -/
theorem told_of_next {crypto : Crypto} {auth : AuthServiceConfig} {now : Time} {random : BitVec 192} {t : AccountTask}
    {aw : AccountAwait AccountTask} (hn : t.next crypto auth now random = some aw) : t.told = none := by
  cases t with
  | createKey u p => cases p <;> first | rfl | cases hn
  | revokeKey u keyId p => cases p <;> first | rfl | cases hn
  | register | login | refresh | logout | me | changePassword | listKeys => rfl

/-- A call that is told of a failure tells of no key. -/
theorem told_error {crypto : Crypto} {auth : AuthServiceConfig} {now : Time} {random : BitVec 192} {t : AccountTask}
    {aw : AccountAwait AccountTask} (hn : t.next crypto auth now random = some aw) (e : Err) : (aw.resume (.error e)).told = none := by
  cases t with
  | createKey u p => cases p <;> cases hn <;> rfl
  | revokeKey u keyId p =>
    cases p with
    | deleteById =>
      cases hn
      rfl
    | returned | threw => cases hn
  | register | login | refresh | logout | me | changePassword | listKeys =>
    obtain ⟨aw, -, rfl⟩ := Option.map_eq_some_iff.1 hn
    rfl

/-- A call is an insert or a delete of a key, or it leaves the table and tells of no key. -/
theorem key_call_cases {crypto : Crypto} {auth : AuthServiceConfig} {now : Time} {random : BitVec 192} {t : AccountTask}
    {aw : AccountAwait AccountTask} (hn : t.next crypto auth now random = some aw) :
    (∃ u fullKey, t = .createKey u (.create fullKey)) ∨ (∃ u keyId, t = .revokeKey u keyId .deleteById) ∨
      aw.call.writesKeys = false ∧ ∀ r, (aw.resume r).told = none := by
  cases t with
  | createKey u p =>
    cases p with
    | countByUserId =>
      cases hn
      refine Or.inr (Or.inr ⟨rfl, fun r => ?_⟩)
      cases r with
      | error e => rfl
      | ok count =>
        dsimp only [AccountAwait.map]
        split <;> rfl
    | create fullKey => exact Or.inl ⟨u, fullKey, rfl⟩
    | returned | threw => cases hn
  | revokeKey u keyId p =>
    cases p with
    | deleteById => exact Or.inr (Or.inl ⟨u, keyId, rfl⟩)
    | returned | threw => cases hn
  | register email password p | login email password p | refresh token p | logout u p | me u p | changePassword u cur new p
  | listKeys u p =>
    refine Or.inr (Or.inr ⟨?_, ?_⟩)
    · cases p <;> cases hn <;> rfl
    · obtain ⟨aw, -, rfl⟩ := Option.map_eq_some_iff.1 hn
      exact fun _ => rfl

/-- A step does one of these. -/
theorem key_step_cases (h : TenantStepped env c a c') : KeyStepped env c c' := by
  cases h with
  | call r signed =>
    have hnew : (r.task env.crypto c.world.now).told = none := by cases r <;> rfl
    exact .same (toldAt_append c.calls hnew) rfl
  | reject ht hn => exact .same (toldAt_quiet ht (told_of_next hn) (told_error hn _)) rfl
  | @exec i ch t aw ht hn =>
    have hquiet := told_of_next hn
    rcases key_call_cases hn with ⟨u, fullKey, rfl⟩ | ⟨u, keyId, rfl⟩ | ⟨hcall, htold⟩
    · cases hn
      dsimp only [AccountAwait.map]
      rcases @exec_createKey env.crypto ch c.store ⟨u, env.crypto.sha256 fullKey, KEY_PREFIX, lastFour fullKey⟩ with
        he | ⟨apiKeys, he, hins, hfresh⟩
      · rw [he]
        exact .same (toldAt_quiet ht hquiet rfl) rfl
      · rw [he]
        exact .creates i u ch.id fullKey c.world.now _ ht rfl (toldAt_set ht _) hins hfresh List.mem_cons_self
    · cases hn
      dsimp only [AccountAwait.map, AccountCall.exec]
      by_cases hdel : (ApiKeyRepository.deleteById c.apiKeys keyId u).1 = true
      · obtain ⟨row, hrow, hown⟩ := deleted_iff.1 hdel
        rw [show c.store.apiKeys = c.apiKeys from rfl, if_pos hdel]
        exact .revokes i u keyId row ht hrow hown (toldAt_set ht _) rfl
      · have hnone : ∀ row ∈ c.apiKeys, ApiKeyRepository.owned u keyId row = false := by
          intro row hrow
          exact Bool.eq_false_iff.2 (fun hown => hdel (deleted_iff.2 ⟨row, hrow, hown⟩))
        rw [show c.store.apiKeys = c.apiKeys from rfl, if_neg hdel]
        exact .same (toldAt_quiet ht hquiet rfl) (Table.delete_of_not hnone)
    · exact .same (toldAt_quiet ht hquiet (htold _)) (apiKeys_exec hcall ch c.store)
  | platform | read | execRead | rejectRead => exact .same (fun _ => rfl) rfl

/-! ## The ledger -/

/-- What a creation is to insert was drawn. -/
def KeysDrawn (c : Tenants) : Prop :=
  ∀ (i : Nat) u fullKey, c.calls[i]? = some (AccountTask.createKey u (.create fullKey)) → ∃ random, fullKey = generateRawKey random

/-- What holds of a run besides: an id that was handed out has been issued, and what a creation is to insert was drawn. -/
structure KeysKept (env : Env) (c : Tenants) : Prop where
  ledger : KeyLedger env c
  issued : ∀ u key fullKey, KeyHanded c u key fullKey → key.id ∈ c.world.issued
  drawn : KeysDrawn c

/-- A call that tells something adds it to what was told. -/
theorem told_iff {x : KeyTold} {i : Nat} (hnone : toldAt c.calls i = none)
    (htold : ∀ j, toldAt c'.calls j = if j = i then some x else toldAt c.calls j) (y : KeyTold) :
    (∃ j, toldAt c'.calls j = some y) ↔ y = x ∨ ∃ j, toldAt c.calls j = some y := by
  constructor
  · rintro ⟨j, hj⟩
    rw [htold] at hj
    split at hj
    · exact Or.inl (Option.some.inj hj).symm
    · exact Or.inr ⟨j, hj⟩
  · rintro (rfl | ⟨j, hj⟩)
    · exact ⟨i, by rw [htold, if_pos rfl]⟩
    · refine ⟨j, ?_⟩
      have hne : j ≠ i := by
        rintro rfl
        rw [hnone] at hj
        cases hj
      rw [htold, if_neg hne, hj]

theorem keysKept_init : KeysKept env Tenants.empty where
  ledger :=
    { rows := fun row => ⟨fun h => absurd h (Table.not_mem_empty row), fun ⟨_, ⟨⟨_, h⟩, _⟩, _⟩ => nomatch h⟩
      own := fun _ _ _ ⟨_, h⟩ => nomatch h
      made := fun _ _ _ ⟨_, h⟩ => nomatch h
      handedOnce := fun _ _ _ _ _ _ _ _ h => nomatch h
      revokedHanded := fun _ _ ⟨_, h⟩ => nomatch h
      revokedOnce := fun _ _ _ _ _ h => nomatch h }
  issued := fun _ _ _ ⟨_, h⟩ => nomatch h
  drawn := fun _ _ _ h => nomatch h

/-- What a creation is to insert was drawn where it counted. -/
theorem drawn_step (h : TenantStepped env c a c') (hI : KeysDrawn c) : KeysDrawn c' := by
  have resumed {now : Time} {random : BitVec 192} {t : AccountTask} {aw : AccountAwait AccountTask} {r : Except Err aw.α} {u : Uuid}
      {fullKey : String} (hn : t.next env.crypto env.auth now random = some aw) (hr : aw.resume r = .createKey u (.create fullKey)) :
      fullKey = generateRawKey random := by
    cases t with
    | createKey v p =>
      cases p with
      | countByUserId =>
        cases hn
        cases r with
        | error e => cases hr
        | ok count =>
          dsimp only [AccountAwait.map] at hr
          split at hr
          · cases hr
          · cases hr
            rfl
      | create raw =>
        cases hn
        cases r <;> cases hr
      | returned | threw => cases hn
    | register | login | refresh | logout | me | changePassword | listKeys | revokeKey =>
      obtain ⟨aw, -, rfl⟩ := Option.map_eq_some_iff.1 hn
      cases hr
  intro i u fullKey hi
  rcases callMoves_back h hi with ⟨t, ht, hm⟩ | ⟨r, -, -, hr⟩
  · generalize ht' : AccountTask.createKey u (.create fullKey) = t' at hm
    cases hm with
    | waits => exact hI i u fullKey (ht' ▸ ht)
    | exec ch ha hn => exact ⟨ch.random, resumed hn ht'.symm⟩
    | reject e ha hn => exact ⟨0, resumed hn ht'.symm⟩
  · cases r <;> cases hr

/-- A key is handed out. -/
theorem KeyLedger.creates (hL : KeyLedger env c) (hissued : ∀ u key fullKey, KeyHanded c u key fullKey → key.id ∈ c.world.issued)
    {i : Nat} {u id : Uuid} {random : BitVec 192} {now : Time} {row : ApiKeyRow} (hnone : toldAt c.calls i = none)
    (hrow : row = ApiKeyRepository.newRow now id
      ⟨u, env.crypto.sha256 (generateRawKey random), KEY_PREFIX, lastFour (generateRawKey random)⟩)
    (htold : ∀ j, toldAt c'.calls j =
      if j = i then some (.created u (toApiKey row) (generateRawKey random)) else toldAt c.calls j)
    (hins : c.apiKeys.insert row = some c'.apiKeys) (hfresh : id ∉ c.world.issued) : KeyLedger env c' := by
  have handed (v : Uuid) (key : ApiKey) (fullKey : String) : KeyHanded c' v key fullKey ↔
      KeyTold.created v key fullKey = .created u (toApiKey row) (generateRawKey random) ∨ KeyHanded c v key fullKey :=
    told_iff hnone htold _
  have revoked (v keyId : Uuid) : KeyRevoked c' v keyId ↔ KeyRevoked c v keyId := by
    refine (told_iff hnone htold _).trans (or_iff_right ?_)
    intro he
    cases he
  have hid : row.id = id := hrow ▸ rfl
  have hnew (v : Uuid) (key : ApiKey) (fullKey : String) (hk : KeyHanded c v key fullKey) : key.id ≠ row.id := by
    intro he
    exact hfresh (hid ▸ he ▸ hissued v key fullKey hk)
  refine ⟨fun x => ?_, fun v key fullKey hk => ?_, fun v key fullKey hk => ?_, ?_, fun v keyId hk => ?_, ?_⟩
  · rw [Table.insert_eq_some hins, hL.rows]
    constructor
    · rintro (⟨fullKey, ⟨hk, hs⟩, hhash⟩ | rfl)
      · exact ⟨fullKey, ⟨(handed _ _ _).2 (Or.inr hk), fun hr => hs ((revoked _ _).1 hr)⟩, hhash⟩
      · refine ⟨generateRawKey random, ⟨(handed _ _ _).2 (Or.inl ?_), fun hr => ?_⟩, ?_⟩
        · rw [hrow]
          rfl
        · obtain ⟨key, fullKey, hk, he⟩ := hL.revokedHanded _ _ ((revoked _ _).1 hr)
          exact hnew _ key fullKey hk he
        · rw [hrow]
          rfl
    · rintro ⟨fullKey, ⟨hk, hs⟩, hhash⟩
      rcases (handed _ _ _).1 hk with he | hk
      · refine Or.inr ?_
        injection he with hu hkey hfull
        injection hkey with hid hown hopen hlast hat
        cases x
        cases row
        simp_all [ApiKeyRepository.newRow]
      · exact Or.inl ⟨fullKey, ⟨hk, fun hr => hs ((revoked _ _).2 hr)⟩, hhash⟩
  · rcases (handed _ _ _).1 hk with he | hk
    · cases he
      rw [hrow]
      rfl
    · exact hL.own v key fullKey hk
  · rcases (handed _ _ _).1 hk with he | hk
    · cases he
      rw [hrow]
      exact ⟨rfl, rfl, random, rfl⟩
    · exact hL.made v key fullKey hk
  · intro j k v w key key' fullKey fullKey' hj hk he
    rw [htold] at hj hk
    split at hj <;> split at hk
    · rename_i hji hki
      rw [hji, hki]
    · cases hj
      exact absurd he.symm (hnew w key' fullKey' ⟨k, hk⟩)
    · cases hk
      exact absurd he (hnew v key fullKey ⟨j, hj⟩)
    · exact hL.handedOnce j k v w key key' fullKey fullKey' hj hk he
  · obtain ⟨key, fullKey, hk, he⟩ := hL.revokedHanded v keyId ((revoked v keyId).1 hk)
    exact ⟨key, fullKey, (handed _ _ _).2 (Or.inr hk), he⟩
  · intro j k v w keyId hj hk
    rw [htold] at hj hk
    split at hj <;> split at hk
    · cases hj
    · cases hj
    · cases hk
    · exact hL.revokedOnce j k v w keyId hj hk

/-- A key is revoked. -/
theorem KeyLedger.revokes (hL : KeyLedger env c) {i : Nat} {u keyId : Uuid} {row : ApiKeyRow} (hnone : toldAt c.calls i = none)
    (hrow : row ∈ c.apiKeys) (howned : ApiKeyRepository.owned u keyId row = true)
    (htold : ∀ j, toldAt c'.calls j = if j = i then some (.revoked u keyId) else toldAt c.calls j)
    (hdel : c'.apiKeys = c.apiKeys.delete (ApiKeyRepository.owned u keyId)) : KeyLedger env c' := by
  have handed (v : Uuid) (key : ApiKey) (fullKey : String) : KeyHanded c' v key fullKey ↔ KeyHanded c v key fullKey := by
    refine (told_iff hnone htold _).trans (or_iff_right ?_)
    intro he
    cases he
  have revoked (v id : Uuid) : KeyRevoked c' v id ↔ KeyTold.revoked v id = .revoked u keyId ∨ KeyRevoked c v id :=
    told_iff hnone htold _
  obtain ⟨hid, hown⟩ : row.id = keyId ∧ row.userId = u := by
    simpa only [ApiKeyRepository.owned, Bool.and_eq_true, decide_eq_true_eq] using howned
  obtain ⟨rowKey, hstands, -⟩ := (hL.rows row).1 hrow
  -- nobody was told so of this key
  have hfirst (v : Uuid) : ¬KeyRevoked c v keyId := by
    intro hv
    obtain ⟨key, fullKey, ⟨j, hj⟩, he⟩ := hL.revokedHanded v keyId hv
    obtain ⟨k, hk⟩ := hstands.handed
    have hjk := hL.handedOnce j k _ _ _ _ _ _ hj hk (he.trans hid.symm)
    rw [hjk, hk] at hj
    cases hj
    exact hstands.stands (show KeyRevoked c row.userId row.id from hid.symm ▸ hv)
  refine ⟨fun x => ?_, fun v key fullKey hk => hL.own v key fullKey ((handed v key fullKey).1 hk),
    fun v key fullKey hk => hL.made v key fullKey ((handed v key fullKey).1 hk), ?_, fun v id hv => ?_, ?_⟩
  · rw [hdel, Table.mem_delete, hL.rows]
    constructor
    · rintro ⟨⟨fullKey, ⟨hk, hs⟩, hhash⟩, hnot⟩
      refine ⟨fullKey, ⟨(handed _ _ _).2 hk, fun hv => ?_⟩, hhash⟩
      rcases (revoked _ _).1 hv with he | hv
      · injection he with hu hx
        have hx' : x.id = keyId := hx
        simp [ApiKeyRepository.owned, hu, hx'] at hnot
      · exact hs hv
    · rintro ⟨fullKey, ⟨hk, hs⟩, hhash⟩
      refine ⟨⟨fullKey, ⟨(handed _ _ _).1 hk, fun hv => hs ((revoked _ _).2 (Or.inr hv))⟩, hhash⟩, ?_⟩
      refine Bool.eq_false_iff.2 (fun hx => hs ((revoked _ _).2 (Or.inl ?_)))
      simp only [ApiKeyRepository.owned, Bool.and_eq_true, decide_eq_true_eq] at hx
      show KeyTold.revoked x.userId x.id = .revoked u keyId
      rw [hx.1, hx.2]
  · intro j k v w key key' fullKey fullKey' hj hk he
    rw [htold] at hj hk
    split at hj <;> split at hk
    · cases hj
    · cases hj
    · cases hk
    · exact hL.handedOnce j k v w key key' fullKey fullKey' hj hk he
  · rcases (revoked v id).1 hv with he | hv
    · cases he
      exact ⟨_, rowKey, (handed _ _ _).2 (hown ▸ hstands.handed), hid⟩
    · obtain ⟨key, fullKey, hk, he⟩ := hL.revokedHanded v id hv
      exact ⟨key, fullKey, (handed _ _ _).2 hk, he⟩
  · intro j k v w id hj hk
    rw [htold] at hj hk
    split at hj <;> split at hk
    · rename_i hji hki
      rw [hji, hki]
    · cases hj
      exact absurd ⟨k, hk⟩ (hfirst w)
    · cases hk
      exact absurd ⟨j, hj⟩ (hfirst v)
    · exact hL.revokedOnce j k v w id hj hk

/-- The ledger reads the table and what was told, and nothing else. -/
theorem KeyLedger.same (hL : KeyLedger env c) (htold : ∀ j, toldAt c'.calls j = toldAt c.calls j) (hrows : c'.apiKeys = c.apiKeys) :
    KeyLedger env c' := by
  have handed (v : Uuid) (key : ApiKey) (fullKey : String) : KeyHanded c' v key fullKey ↔ KeyHanded c v key fullKey := by
    simp only [KeyHanded, htold]
  have revoked (v id : Uuid) : KeyRevoked c' v id ↔ KeyRevoked c v id := by simp only [KeyRevoked, htold]
  have stands (v : Uuid) (key : ApiKey) (fullKey : String) : KeyStands c' v key fullKey ↔ KeyStands c v key fullKey :=
    ⟨fun h => ⟨(handed _ _ _).1 h.handed, fun hv => h.stands ((revoked _ _).2 hv)⟩,
      fun h => ⟨(handed _ _ _).2 h.handed, fun hv => h.stands ((revoked _ _).1 hv)⟩⟩
  refine ⟨?_, ?_, ?_, ?_, ?_, ?_⟩
  · simpa only [hrows, stands] using hL.rows
  · simpa only [handed] using hL.own
  · simpa only [handed] using hL.made
  · simpa only [htold] using hL.handedOnce
  · simpa only [handed, revoked] using hL.revokedHanded
  · simpa only [htold] using hL.revokedOnce

theorem keysKept_step (h : TenantStepped env c a c') (hI : KeysKept env c) : KeysKept env c' := by
  refine ⟨?_, ?_, drawn_step h hI.drawn⟩
  · cases key_step_cases h with
    | same told rows => exact hI.ledger.same told rows
    | creates i u id fullKey now row call new told insert fresh issued =>
      obtain ⟨random, rfl⟩ := hI.drawn i u fullKey call
      have hnone : toldAt c.calls i = none := by
        rw [toldAt, call]
        rfl
      exact hI.ledger.creates hI.issued hnone new told insert fresh
    | revokes i u keyId row call hit owned told delete =>
      have hnone : toldAt c.calls i = none := by
        rw [toldAt, call]
        rfl
      exact hI.ledger.revokes hnone hit owned told delete
  · rintro u key fullKey ⟨j, hj⟩
    cases key_step_cases h with
    | same told rows => exact issued_kept h (hI.issued u key fullKey ⟨j, told j ▸ hj⟩)
    | creates i v id fullKey' now row call new told insert fresh issued =>
      rw [told] at hj
      split at hj
      · cases hj
        rw [new]
        exact issued
      · exact issued_kept h (hI.issued u key fullKey ⟨j, hj⟩)
    | revokes i v keyId row call hit owned told delete =>
      rw [told] at hj
      split at hj
      · cases hj
      · exact issued_kept h (hI.issued u key fullKey ⟨j, hj⟩)

/-- In every reachable state. -/
theorem keysKept (h : (tenants env).Reach ok c) : KeysKept env c := by
  refine h.invariant ?_ (fun c a c' _ hI _ hs => keysKept_step (tenants_step_cases hs) hI)
  rintro c rfl
  exact keysKept_init

/-! ## The replies -/

/-- The rows of a user, in whatever order they come, are the keys of theirs that stand. -/
theorem KeyLedger.lists (hL : KeyLedger env c) (u : Uuid) (order : List Uuid) :
    ListsKeys c u ((ApiKeyRepository.findByUserId order c.apiKeys u).map toApiKey) where
  once := by
    have hids : ((ApiKeyRepository.findByUserId order c.apiKeys u).map toApiKey).map ApiKey.id =
        (ApiKeyRepository.findByUserId order c.apiKeys u).map ApiKeyRow.id := by
      rw [List.map_map]
      rfl
    rw [hids, ApiKeyRepository.findByUserId, ((inOrder_perm order _).map ApiKeyRow.id).nodup_iff]
    exact c.apiKeys.nodup_keys _
  stands := by
    intro key
    rw [List.mem_map]
    constructor
    · rintro ⟨row, hrow, rfl⟩
      obtain ⟨hmem, hown⟩ := Table.mem_select.1 (mem_inOrder.1 hrow)
      obtain ⟨fullKey, hstands, -⟩ := (hL.rows row).1 hmem
      exact ⟨fullKey, of_decide_eq_true hown ▸ hstands⟩
    · rintro ⟨fullKey, hstands⟩
      have hown := hL.own u key fullKey hstands.handed
      subst hown
      exact ⟨⟨key.id, key.userId, env.crypto.sha256 fullKey, key.keyPrefix, key.lastFour, key.createdAt⟩,
        mem_inOrder.2 (Table.mem_select.2 ⟨(hL.rows _).2 ⟨fullKey, hstands, rfl⟩, decide_eq_true rfl⟩), rfl⟩

/-- A delete finds the keys of the user that stand. -/
theorem KeyLedger.deleted (hL : KeyLedger env c) {u keyId : Uuid} : (ApiKeyRepository.deleteById c.apiKeys keyId u).1 = true ↔
    ∃ key fullKey, KeyStands c u key fullKey ∧ key.id = keyId := by
  rw [deleted_iff]
  constructor
  · rintro ⟨row, hmem, hown⟩
    simp only [ApiKeyRepository.owned, Bool.and_eq_true, decide_eq_true_eq] at hown
    obtain ⟨rfl, rfl⟩ := hown
    obtain ⟨fullKey, hstands, -⟩ := (hL.rows row).1 hmem
    exact ⟨toApiKey row, fullKey, hstands, rfl⟩
  · rintro ⟨key, fullKey, hstands, rfl⟩
    obtain ⟨row, hrow, he⟩ := List.mem_map.1 (((hL.lists u []).stands key).2 ⟨fullKey, hstands⟩)
    obtain ⟨hmem, hown⟩ := Table.mem_select.1 (mem_inOrder.1 hrow)
    refine ⟨row, hmem, ?_⟩
    rw [ApiKeyRepository.owned, ← he, hown, Bool.and_true]
    exact decide_eq_true rfl

/-- A statement of the accounts runs. -/
theorem exec_call {i : Nat} {ch : AccountChoice} {t : AccountTask} {aw : AccountAwait AccountTask}
    (hs : (tenants env).step c (.exec i ch) = some c') (ht : c.calls[i]? = some t)
    (hn : t.next env.crypto env.auth c.world.now ch.random = some aw) :
    c'.calls[i]? = some (aw.resume (aw.call.exec env.crypto ch c.store).1) := by
  cases tenants_step_cases hs with
  | exec ht' hn' =>
    rw [ht] at ht'
    cases ht'
    rw [hn] at hn'
    cases hn'
    exact List.getElem?_set_self (List.getElem?_eq_some_iff.1 ht).1

/-- In every run the table `api_keys` is what the replies have told of it, and each reply tells what the table is where its statement
runs. -/
theorem keys_exact (env : Env) : KeysExact env where
  ledger c h := (keysKept h).ledger
  listed c c' i ch u h hs ht := ⟨_, (keysKept h).ledger.lists u ch.order, exec_call hs ht rfl⟩
  counted c c' i ch u h hs ht := by
    refine ⟨_, (keysKept h).ledger.lists u [], (exec_call hs ht rfl).trans (congrArg some ?_)⟩
    rw [List.length_map, ApiKeyRepository.findByUserId, (inOrder_perm _ _).length_eq]
    rfl
  revoked c c' i ch u keyId h hs ht := by
    have hL := (keysKept h).ledger
    have hreply := exec_call hs ht rfl
    dsimp only [AccountAwait.map, AccountCall.exec] at hreply
    by_cases hdel : (ApiKeyRepository.deleteById c.store.apiKeys keyId u).1 = true
    · rw [if_pos hdel] at hreply
      exact Or.inl ⟨hL.deleted.1 hdel, hreply⟩
    · rw [if_neg hdel] at hreply
      exact Or.inr ⟨fun key fullKey hk he => hdel (hL.deleted.2 ⟨key, fullKey, hk, he⟩), hreply⟩

end FileProcessing
