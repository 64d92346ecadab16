import FileProcessing.Accounts
import FileProcessing.Api.Tokens

/-!
# The two kinds of token apart

The claims of an access token and of a refresh token are of one shape, and no verifier looks for a kind. What keeps the kinds apart is
the secret alone: they are apart in every configuration with two different secrets, and in no other. `EnvSchema` does not compare the
two.
-/

namespace FileProcessing

open AuthService

/-- No token of one kind passes where the other is asked for, whatever the user, the role, the time of issue and the time of use. -/
structure TokensApart (jwt : JsonWebToken) (rest : Crypto) (config : JwtConfig) : Prop where
  bearer : ∀ userId issued now, ∃ err,
    config.authenticate jwt now (some ("Bearer " ++ config.signRefreshToken jwt issued userId)) = .error err
  socket : ∀ userId issued now, config.wsHandshake jwt now (some (config.signRefreshToken jwt issued userId)) = none
  refresh : ∀ userId role issued now, refresh.start (config.crypto jwt rest) now (config.signAccessToken jwt issued userId role) =
    .threw (unauthorized "INVALID_REFRESH_TOKEN" "Refresh token is invalid or expired")

namespace JwtConfig

variable (config : JwtConfig) (jwt : JsonWebToken) (rest : Crypto)

/-- A session holds the tokens the configuration signs. -/
theorem newSession_tokens (now : Time) (user : User) :
    (newSession (config.crypto jwt rest) config.toAuthServiceConfig now user).accessToken =
      config.signAccessToken jwt now user.id none ∧
    (newSession (config.crypto jwt rest) config.toAuthServiceConfig now user).refreshToken =
      config.signRefreshToken jwt now user.id :=
  ⟨rfl, rfl⟩

/-- The preHandler verifies what stands behind `Bearer `. -/
theorem authenticate_bearer (now : Time) (token : String) : config.authenticate jwt now (some ("Bearer " ++ token)) =
    match jwt.verify config.accessSecret now token with
    | none => .error (unauthorized "INVALID_TOKEN" "Token is invalid or expired")
    | some payload =>
      match payload.sub with
      | none => .error (unauthorized "INVALID_TOKEN" "Token payload is malformed")
      | some userId => .ok ⟨userId, payload.role⟩ := by
  have htake : ("Bearer " ++ token).toList.take 7 = "Bearer ".toList := by simp
  have hdrop : String.ofList (("Bearer " ++ token).toList.drop 7) = token := by simp
  conv_rhs => rw [← hdrop]
  exact if_pos htake

end JwtConfig

/-- A token is not verified under another secret. -/
theorem JsonWebToken.verify_other (jwt : JsonWebToken) {secret secret' : String} (h : secret' ≠ secret) (now : Time)
    (payload : TokenPayload) : jwt.verify secret' now (jwt.sign secret payload) = none := by
  rw [JsonWebToken.verify, jwt.decode_sign, if_neg h, Option.bind_none]

/-- A token is verified under its own secret when it is issued. -/
theorem JsonWebToken.verify_own (jwt : JsonWebToken) (secret : String) {ttl : Nat} (httl : 0 < ttl) (now : Time) (userId : Uuid)
    (role : Option TokenRole) :
    jwt.verify secret now (jwt.sign secret ⟨claims ttl now userId, role⟩) = some ⟨claims ttl now userId, role⟩ := by
  have hexp : ¬ (claims ttl now userId).exp ≤ clockTimestamp now := by
    simp only [claims]
    omega
  rw [JsonWebToken.verify, jwt.decode_sign, if_pos rfl, Option.bind_some, if_neg hexp]

theorem apart_of_secrets {jwt : JsonWebToken} {rest : Crypto} {config : JwtConfig}
    (h : config.accessSecret ≠ config.refreshSecret) : TokensApart jwt rest config where
  bearer userId issued now := by
    rw [config.authenticate_bearer, JwtConfig.signRefreshToken, jwt.verify_other h]
    exact ⟨_, rfl⟩
  socket userId issued now := by
    rw [JwtConfig.wsHandshake, Option.bind_some, JwtConfig.signRefreshToken, jwt.verify_other h, Option.bind_none]
    unfold handshake
    exact ite_self none
  refresh userId role issued now := by
    have hdecode : (config.crypto jwt rest).decodeRefresh (config.signAccessToken jwt issued userId role) = none := by
      simp only [JwtConfig.crypto, JwtConfig.signAccessToken, jwt.decode_sign, if_neg h.symm, Option.map_none]
    simp only [refresh.start, verifyRefreshToken, hdecode, Option.bind_none]

theorem secrets_of_apart {jwt : JsonWebToken} {rest : Crypto} {config : JwtConfig} (h : TokensApart jwt rest config) :
    config.accessSecret ≠ config.refreshSecret := by
  intro he
  -- a refresh token is a bearer credential from the moment it is issued
  obtain ⟨err, herr⟩ := h.bearer ⟨0⟩ 0 0
  rw [config.authenticate_bearer, JwtConfig.signRefreshToken, ← he, jwt.verify_own _ config.refreshTtlSeconds_pos] at herr
  cases herr

/-- The two kinds of token are apart exactly when the two secrets differ. -/
theorem tokens_apart (jwt : JsonWebToken) (rest : Crypto) (config : JwtConfig) :
    TokensApart jwt rest config ↔ config.accessSecret ≠ config.refreshSecret :=
  ⟨secrets_of_apart, apart_of_secrets⟩

namespace Trace

/-- The claims spelled out, a guest's behind a letter of its own. -/
def spellToken (payload : TokenPayload) : List Char :=
  match payload.role with
  | none => (spell payload.toJwtPayload).toList
  | some .guest => 'g' :: (spell payload.toJwtPayload).toList

/-- The claims a text spells. -/
def readToken (text : List Char) : TokenPayload where
  toJwtPayload := read (String.ofList text)
  role := if 'g' ∈ text then some .guest else none

theorem mem_spell {payload : JwtPayload} {c : Char} (h : c ∈ (spell payload).toList) : c = 's' ∨ c = 'i' ∨ c = 'e' := by
  simp only [spell, String.toList_ofList, List.mem_append, List.mem_replicate] at h
  rcases h with (⟨-, h⟩ | ⟨-, h⟩) | ⟨-, h⟩ <;> simp [h]

theorem readToken_spellToken (payload : TokenPayload) : readToken (spellToken payload) = payload := by
  obtain ⟨claims, role⟩ := payload
  cases role with
  | none =>
    have hg : 'g' ∉ (spell claims).toList := fun h => by simpa using mem_spell h
    simp only [readToken, spellToken, hg, if_false, String.ofList_toList, read_spell]
  | some role =>
    cases role
    have hread : read (String.ofList ('g' :: (spell claims).toList)) = read (spell claims) := by
      simp [read]
    simp only [readToken, spellToken, List.mem_cons, true_or, if_true, hread, read_spell]

theorem mem_spellToken {payload : TokenPayload} {c : Char} (h : c ∈ spellToken payload) : c ≠ '.' := by
  unfold spellToken at h
  split at h
  · rcases mem_spell h with rfl | rfl | rfl <;> decide
  · rcases List.mem_cons.1 h with rfl | h
    · decide
    · rcases mem_spell h with rfl | rfl | rfl <;> decide

/-- The token of the claims: the claims spelled out, a dot and the secret. -/
def signToken (secret : String) (payload : TokenPayload) : String := String.ofList (spellToken payload ++ '.' :: secret.toList)

/-- A scheme to evaluate with. -/
def jwt : JsonWebToken where
  sign := signToken
  decode secret token :=
    let payload := readToken (token.toList.takeWhile (fun c => c ≠ '.'))
    if signToken secret payload = token then some payload else none
  decode_sign secret secret' payload := by
    have hread : readToken ((signToken secret payload).toList.takeWhile (fun c => c ≠ '.')) = payload := by
      rw [signToken, String.toList_ofList, List.takeWhile_append_of_pos (by simpa using fun c hc => mem_spellToken hc)]
      simp [readToken_spellToken]
    have hsign : signToken secret' payload = signToken secret payload ↔ secret' = secret := by
      simp [signToken]
    simp only [hread, hsign]

/-- One secret for both kinds of token. -/
def oneSecret : JwtConfig where
  toAuthServiceConfig := ttl
  accessSecret := "an-access-secret-of-32-characters"
  refreshSecret := "an-access-secret-of-32-characters"
  accessSecret_min := by decide
  refreshSecret_min := by decide
  accessTtlSeconds_pos := by decide
  refreshTtlSeconds_pos := by decide

end Trace

/-- Under one secret a refresh token is a bearer credential. -/
theorem tokens_not_apart : ¬∀ (jwt : JsonWebToken) (rest : Crypto) (config : JwtConfig), TokensApart jwt rest config :=
  fun h => secrets_of_apart (h Trace.jwt Trace.crypto Trace.oneSecret) rfl

end FileProcessing
