import PiHerder.Api.Scopes
import PiHerder.Auth.Model
import PiHerder.Lib.Runs

/-!
# Agents that sign in (`services/mcp_oauth.py`)

An admin consents; the agent exchanges the code it gets for an API token with a refresh token. The scopes stand in
the row of the code, in the refresh token's and in the API token's.

| here | there |
| --- | --- |
| `consent`                        | `routers/mcp_oauth.py:197`, `issue_code` (`mcp_oauth.py:268`) |
| `readExchange`, `commitExchange` | `exchange_code` (`:373`), `_burn` (`:300`), `_issue_grant` (`:315`) |
| `refreshGrant`                   | `refresh_grant` (`:403`) |
| `revokeApiToken`, `updateApiToken`, `rotateApiToken`, `lookupActiveToken` | `api_tokens.py:577`–`647` |
| `detachAndDeleteUser`            | `user_admin.py:93` |

`exchange_code` reads everything before its first commit, so it is two steps here; only exchanges write a code that
is there. The other requests are one step each. Times are in milliseconds. The public demo, which answers none of
these, and the texts of the errors' pages are left out.
-/
namespace PiHerder.Api
open Lib Lib.Str Auth

structure ApiToken where
  id : Nat
  tokenHash : Str
  /-- Comma-separated. -/
  scopes : Str
  createdByUserId : Option Nat
  revokedAt : Option Nat := none
  expiresAt : Option Nat := none
deriving DecidableEq, Repr

structure OauthClient where
  clientId : Str
  revokedAt : Option Nat := none
deriving DecidableEq, Repr

/-- `granted` are the words of `scopes`: what was consented to. -/
structure OauthCode where
  id : Nat
  codeHash : Str
  clientId : Str
  userId : Nat
  redirectUri : Str
  codeChallenge : Str
  granted : List Str
  scopes : Str := join ' ' granted
  expiresAt : Nat
  usedAt : Option Nat := none
deriving DecidableEq, Repr

structure OauthRefresh where
  id : Nat
  tokenHash : Str
  apiTokenId : Nat
  clientId : Str
  scopes : Str
  expiresAt : Nat
  revokedAt : Option Nat := none
deriving DecidableEq, Repr

structure OauthError where
  error : Str
  description : Str
  status : Nat := 400
deriving DecidableEq, Repr

def invalidGrant (description : String) : OauthError := ⟨lit "invalid_grant", lit description, 400⟩

/-- `sha256(…).hexdigest()` and `pkce_s256`. -/
structure Hashes where
  sha256 : Str → Str
  pkceS256 : Str → Str

/-- A grant that was issued: for which code, whose consent to which scopes, and the API token. -/
structure Grant where
  code : Nat
  userId : Nat
  tokenId : Nat
  scopes : List Str
deriving DecidableEq, Repr

/-- An exchange that has read and not committed: it will burn the code, and issue a grant when `grant` says to. -/
structure Exchange where
  code : Nat
  grant : Option (Nat × Str × List Str)
  granted : List Str
deriving DecidableEq, Repr

/-- The tables. Beside them: `reading`, the exchanges under way; the grants issued; and `left`, the scopes that the
last `update_api_token` of a row left in it. -/
structure OauthState where
  now : Nat
  users : List User := []
  clients : List OauthClient := []
  codes : List OauthCode := []
  tokens : List ApiToken := []
  refreshes : List OauthRefresh := []
  reading : Dict Nat Exchange := []
  grants : List Grant := []
  left : Dict Nat (List Str) := []

namespace OauthState
variable (s : OauthState)

def user (id : Nat) : Option User := Table.lookup User.id id s.users
def token (id : Nat) : Option ApiToken := Table.lookup ApiToken.id id s.tokens

/-- `get_client`. -/
def getClient (clientId : Str) : Option OauthClient :=
  let cid := strip clientId
  if cid.isEmpty then none else (s.clients.find? fun r => r.clientId == cid).filter fun r => r.revokedAt.isNone

def setToken (id : Nat) (f : ApiToken → ApiToken) : OauthState :=
  { s with tokens := s.tokens.map fun t => if t.id = id then f t else t }

def setRefresh (id : Nat) (f : OauthRefresh → OauthRefresh) : OauthState :=
  { s with refreshes := s.refreshes.map fun r => if r.id = id then f r else r }

end OauthState

/-- `is_admin`. -/
def isAdmin (u : Option User) : Bool := u.any fun u => u.isActive && u.role == .admin

section Requests
variable (k : Hashes) (s : OauthState)

/-- `CODE_TTL`, `ACCESS_TTL` and `REFRESH_TTL`. -/
def codeTtl : Nat := 5 * 60000
def accessTtl : Nat := 60 * 60000
def refreshTtl : Nat := 30 * 86400000

/-- The consent of a user to what an agent asked for with `scopeRaw`. -/
def consent (userId : Nat) (clientId redirectUri codeChallenge scopeRaw : Str) (picked : List Str) (plain : Str) : OauthState :=
  let granted := consentScopes (parseOauthScopes scopeRaw) picked
  if !isAdmin (s.user userId) || granted.isEmpty then s
  else { s with codes := s.codes ++
    [{ id := freshId (s.codes.map OauthCode.id)
       codeHash := k.sha256 plain
       clientId := clientId
       userId := userId
       redirectUri := redirectUri
       codeChallenge := codeChallenge
       granted := granted
       expiresAt := s.now + codeTtl }] }

structure ExchangeForm where
  code : Str
  clientId : Str
  redirectUri : Str
  codeVerifier : Str
deriving DecidableEq, Repr

/-- `exchange_code` up to `_burn`. -/
def readExchange (f : ExchangeForm) : Except OauthError Exchange :=
  match s.codes.find? fun r => r.codeHash == k.sha256 f.code with
  | none => .error (invalidGrant "Authorization code is invalid or expired.")
  | some row =>
    let verifier := strip f.codeVerifier
    if row.usedAt.isSome || decide (row.expiresAt < s.now) then
      .error (invalidGrant "Authorization code is invalid or expired.")
    else if row.clientId ≠ strip f.clientId ∨ row.redirectUri ≠ strip f.redirectUri then .ok ⟨row.id, none, row.granted⟩
    else if verifier.length < 43 ∨ 128 < verifier.length ∨ k.pkceS256 verifier ≠ row.codeChallenge then
      .ok ⟨row.id, none, row.granted⟩
    else if (s.getClient row.clientId).isNone || !isAdmin (s.user row.userId) then .ok ⟨row.id, none, row.granted⟩
    else .ok ⟨row.id, some (row.userId, row.clientId, parseOauthScopes row.scopes), row.granted⟩

/-- `_burn`. -/
def burn (code : Nat) : OauthState :=
  { s with codes := s.codes.map fun r => if r.id = code then { r with usedAt := some s.now } else r }

/-- `_issue_grant`; a user or client that is gone by now cannot be read again. -/
def issueGrant (x : Exchange) (userId : Nat) (clientId : Str) (scopes : List Str) (plain refresh : Str) : OauthState :=
  if (s.user userId).isNone || (s.clients.find? fun r => r.clientId == clientId).isNone then s
  else
    let id := freshId (s.tokens.map ApiToken.id)
    { s with
      tokens := s.tokens ++ [{
        id := id
        tokenHash := k.sha256 plain
        scopes := scopesCsv (.list scopes)
        createdByUserId := some userId
        expiresAt := some (s.now + accessTtl) }]
      refreshes := s.refreshes ++ [{
        id := freshId (s.refreshes.map OauthRefresh.id)
        tokenHash := k.sha256 refresh
        apiTokenId := id
        clientId := clientId
        scopes := join ' ' scopes
        expiresAt := s.now + refreshTtl }]
      grants := s.grants ++ [⟨x.code, userId, id, x.granted⟩] }

def commitExchange (x : Exchange) (plain refresh : Str) : OauthState :=
  match x.grant with
  | none => burn s x.code
  | some (userId, clientId, scopes) => issueGrant k (burn s x.code) x userId clientId scopes plain refresh

structure TokenBody where
  accessToken : Str
  refreshToken : Str
  scopes : List Str
  expiresIn : Nat := accessTtl / 1000
deriving DecidableEq, Repr

/-- `refresh_grant` up to its first write; with the error, the row that is revoked. -/
def readRefresh (refreshToken clientId : Str) : Except (OauthError × Option Nat) (OauthRefresh × ApiToken) :=
  match s.refreshes.find? fun r => r.tokenHash == k.sha256 refreshToken with
  | none => .error (invalidGrant "Refresh token is invalid or expired.", none)
  | some row =>
    if row.revokedAt.isSome || decide (row.expiresAt < s.now) then
      .error (invalidGrant "Refresh token is invalid or expired.", none)
    else if !clientId.isEmpty && row.clientId != strip clientId then
      .error (invalidGrant "Refresh token does not match this client.", none)
    else match (s.token row.apiTokenId).filter fun t => t.revokedAt.isNone with
      | none => .error (invalidGrant "The API token for this sign-in was revoked.", some row.id)
      | some api =>
        if (s.getClient row.clientId).isNone then .error (invalidGrant "The MCP client was revoked.", none)
        else .ok (row, api)

def refreshGrant (refreshToken clientId plain refresh : Str) : Except OauthError TokenBody × OauthState :=
  match readRefresh k s refreshToken clientId with
  | .error (e, none) => (.error e, s)
  | .error (e, some id) => (.error e, s.setRefresh id fun r => { r with revokedAt := some s.now })
  | .ok (row, api) =>
    let scopes := parseOauthScopes row.scopes
    let api' := { api with
      tokenHash := k.sha256 plain
      expiresAt := some (s.now + accessTtl)
      scopes := scopesCsv (.list scopes) }
    (.ok { accessToken := plain, refreshToken := refresh, scopes := scopes },
      (s.setToken api.id fun _ => api').setRefresh row.id fun r => { r with tokenHash := k.sha256 refresh })

def revokeApiToken (id : Nat) : OauthState :=
  s.setToken id fun t => if t.revokedAt.isNone then { t with revokedAt := some s.now } else t

/-- `scopes` is `none` where the update leaves them alone. -/
def updateApiToken (id : Nat) (scopes : Option ScopeInput) : OauthState :=
  match s.token id with
  | none => s
  | some t =>
    if t.revokedAt.isSome then s
    else
      let csv := match scopes with
        | some l => scopesCsv l
        | none => t.scopes
      { s.setToken id fun t => { t with scopes := csv } with left := s.left.set id (parseScopes csv) }

def rotateApiToken (id : Nat) (plain : Str) : OauthState :=
  match s.token id with
  | none => s
  | some t =>
    if t.revokedAt.isSome || (t.expiresAt.any fun e => decide (e < s.now)) then s
    else s.setToken id fun t => { t with tokenHash := k.sha256 plain }

/-- `TOKEN_PREFIX` is `ph_`. -/
def lookupActiveToken (plain : Str) : Option ApiToken :=
  if plain.isEmpty || !startsWith (lit "ph_") plain then none
  else match s.tokens.find? fun t => t.tokenHash == k.sha256 plain with
    | none => none
    | some t => if t.revokedAt.isSome || (t.expiresAt.any fun e => decide (e < s.now)) then none else some t

/-- The user's row goes, and the tokens lose their creator. -/
def detachAndDeleteUser (userId : Nat) : OauthState :=
  { s with
    users := s.users.filter fun u => u.id != userId
    tokens := s.tokens.map fun t => if t.createdByUserId = some userId then { t with createdByUserId := none } else t }

def setUser (userId : Nat) (f : User → User) : OauthState :=
  { s with users := s.users.map fun u => if u.id = userId then f u else u }

end Requests

/-! ## Runs -/

inductive OauthEvent
  | tick (ms : Nat)
  | consent (userId : Nat) (clientId redirectUri codeChallenge scopeRaw : Str) (picked : List Str) (plain : Str)
  /-- Exchange `i` reads; exchange `i` commits, with the secrets it draws. -/
  | read (i : Nat) (f : ExchangeForm)
  | commit (i : Nat) (plain refresh : Str)
  | refresh (refreshToken clientId plain refresh : Str)
  | update (id : Nat) (scopes : Option ScopeInput)
  | rotate (id : Nat) (plain : Str)
  | revoke (id : Nat)
  | setRole (userId : Nat) (role : Role)
  | setActive (userId : Nat) (active : Bool)
  | deleteUser (userId : Nat)

variable (k : Hashes)

def oauthStep (s : OauthState) : OauthEvent → OauthState
  | .tick ms => { s with now := s.now + ms }
  | .consent u cid uri challenge raw picked plain => consent k s u cid uri challenge raw picked plain
  | .read i f => match s.reading.get? i, readExchange k s f with
    | none, .ok x => { s with reading := s.reading.set i x }
    | _, _ => s
  | .commit i plain refresh => match s.reading.get? i with
    | none => s
    | some x => commitExchange k { s with reading := s.reading.del i } x plain refresh
  | .refresh tok cid plain refresh => (refreshGrant k s tok cid plain refresh).2
  | .update id scopes => updateApiToken s id scopes
  | .rotate id plain => rotateApiToken k s id plain
  | .revoke id => revokeApiToken s id
  | .setRole u role => setUser s u fun x => { x with role := role }
  | .setActive u active => setUser s u fun x => { x with isActive := active }
  | .deleteUser u => detachAndDeleteUser s u

/-- The codes of the exchanges that have read, and will issue a grant. -/
def underWay (reading : Dict Nat Exchange) : List Nat := (reading.filter fun e => e.2.grant.isSome).map fun e => e.2.code

/-- No exchange reads a code that another one has read and not burned yet; what is refreshed was created by a user
who is an admin now, and has all the scopes of its refresh token still; and an update gives an agent's token no scope
that was not consented to. -/
def OauthEvent.Minds (s : OauthState) : OauthEvent → Prop
  | .read _ f => ∀ x, readExchange k s f = .ok x → x.grant.isSome = true → x.code ∉ underWay s.reading
  | .refresh tok cid _ _ => ∀ row api, readRefresh k s tok cid = .ok (row, api) →
      isAdmin (api.createdByUserId.bind s.user) = true ∧ ∀ x ∈ parseOauthScopes row.scopes, x ∈ parseScopes api.scopes
  | .update id (some l) => ∀ t, s.token id = some t → t.revokedAt = none →
      ∀ g ∈ s.grants, g.tokenId = id → ∀ x ∈ normalizeScopes l, x ∈ g.scopes
  | _ => True

/-- **What an agent's secret allows was consented to and was left in place, and no code has two grants.** -/
structure Allowed (s : OauthState) : Prop where
  scopes : ∀ plain t, lookupActiveToken k s plain = some t → ∀ g ∈ s.grants, g.tokenId = t.id →
    ∀ x ∈ parseScopes t.scopes, x ∈ g.scopes ∧ ∀ l, s.left.get? t.id = some l → x ∈ l
  once : (s.grants.map Grant.code).Nodup

/-- A grant is refreshed only while the user who consented to it is an active admin. -/
def OauthEvent.ByAdmin (s : OauthState) : OauthEvent → Prop
  | .refresh tok cid plain fresh => ∀ body, (refreshGrant k s tok cid plain fresh).1 = .ok body →
      ∃ row ∈ s.refreshes, row.tokenHash = k.sha256 tok ∧
        ∀ g ∈ s.grants, g.tokenId = row.apiTokenId → isAdmin (s.user g.userId) = true
  | _ => True

/-! ## The scopes -/

section Tokens
variable {k : Hashes} {tokens : List ApiToken} {grants : List Grant} {left : Dict Nat (List Str)}

/-- A token's scopes are within the consent and within what was left, and its creator is who consented. -/
structure ApiToken.Ok (grants : List Grant) (left : Dict Nat (List Str)) (t : ApiToken) : Prop where
  consented : ∀ g ∈ grants, g.tokenId = t.id → ∀ x ∈ parseScopes t.scopes, x ∈ g.scopes
  kept : ∀ l, left.get? t.id = some l → ∀ x ∈ parseScopes t.scopes, x ∈ l
  creator : ∀ g ∈ grants, g.tokenId = t.id → ∀ u, t.createdByUserId = some u → u = g.userId

/-- Every token is, and the books name no other. -/
structure TokensOk (tokens : List ApiToken) (grants : List Grant) (left : Dict Nat (List Str)) : Prop where
  ok : ∀ t ∈ tokens, t.Ok grants left
  granted : ∀ g ∈ grants, g.tokenId ∈ tokens.map ApiToken.id
  known : ∀ i l, left.get? i = some l → i ∈ tokens.map ApiToken.id

/-- A write that keeps the ids is judged row by row. -/
theorem TokensOk.map {f : ApiToken → ApiToken} (h : TokensOk tokens grants left) (hid : ∀ t, (f t).id = t.id)
    (hf : ∀ t ∈ tokens, (f t).Ok grants left) : TokensOk (tokens.map f) grants left := by
  have hids : (tokens.map f).map ApiToken.id = tokens.map ApiToken.id := by
    rw [List.map_map]
    exact List.map_congr_left fun t _ => hid t
  refine ⟨?_, ?_, ?_⟩
  · intro t ht
    obtain ⟨t₀, ht₀, rfl⟩ := List.mem_map.1 ht
    exact hf t₀ ht₀
  · rw [hids]
    exact h.granted
  · rw [hids]
    exact h.known

/-- A write of neither the scopes nor a new creator. -/
theorem ApiToken.Ok.of_same {t t' : ApiToken} (h : t.Ok grants left) (hid : t'.id = t.id) (hs : t'.scopes = t.scopes)
    (hc : t'.createdByUserId = t.createdByUserId ∨ t'.createdByUserId = none) : t'.Ok grants left := by
  refine ⟨?_, ?_, ?_⟩
  · rw [hid, hs]
    exact h.consented
  · rw [hid, hs]
    exact h.kept
  · intro g hg hgt u hu
    rcases hc with hc | hc
    · exact h.creator g hg (hgt.trans hid) u (hc ▸ hu)
    · rw [hc] at hu
      cases hu

/-- A token with a new id, for a grant with its scopes. -/
theorem TokensOk.insert {t : ApiToken} {g : Grant} (h : TokensOk tokens grants left) (hfresh : t.id ∉ tokens.map ApiToken.id)
    (hg : g.tokenId = t.id) (hc : t.createdByUserId = some g.userId) (hs : ∀ x ∈ parseScopes t.scopes, x ∈ g.scopes) :
    TokensOk (tokens ++ [t]) (grants ++ [g]) left := by
  have hnew : ∀ g' ∈ grants, g'.tokenId ≠ t.id := by
    intro g' hg' heq
    exact hfresh (heq ▸ h.granted g' hg')
  refine ⟨?_, ?_, ?_⟩
  · intro t' ht'
    rcases List.mem_append.1 ht' with ht' | ht'
    · have hne : g.tokenId ≠ t'.id := by
        rw [hg]
        intro heq
        exact hfresh (List.mem_map.2 ⟨t', ht', heq.symm⟩)
      have hok := h.ok t' ht'
      refine ⟨?_, hok.kept, ?_⟩
      · intro g' hg' hgt
        rcases List.mem_append.1 hg' with hg' | hg'
        · exact hok.consented g' hg' hgt
        · exact absurd hgt (List.mem_singleton.1 hg' ▸ hne)
      · intro g' hg' hgt
        rcases List.mem_append.1 hg' with hg' | hg'
        · exact hok.creator g' hg' hgt
        · exact absurd hgt (List.mem_singleton.1 hg' ▸ hne)
    · obtain rfl := List.mem_singleton.1 ht'
      refine ⟨?_, fun l hl => absurd (h.known _ l hl) hfresh, ?_⟩
      · intro g' hg' hgt
        rcases List.mem_append.1 hg' with hg' | hg'
        · exact absurd hgt (hnew g' hg')
        · rw [List.mem_singleton.1 hg']
          exact hs
      · intro g' hg' hgt u hu
        rcases List.mem_append.1 hg' with hg' | hg'
        · exact absurd hgt (hnew g' hg')
        · rw [List.mem_singleton.1 hg']
          rw [hc] at hu
          exact (Option.some.inj hu).symm
  · intro g' hg'
    rw [List.map_append]
    rcases List.mem_append.1 hg' with hg' | hg'
    · exact List.mem_append_left _ (h.granted g' hg')
    · rw [List.mem_singleton.1 hg', hg]
      exact List.mem_append_right _ (List.mem_singleton_self _)
  · intro i l hl
    rw [List.map_append]
    exact List.mem_append_left _ (h.known i l hl)

end Tokens

/-! ## The codes -/

section Codes
variable {k : Hashes} {s : OauthState} {codes : List OauthCode} {reading : Dict Nat Exchange} {grants : List Grant}

/-- A code has one grant or one exchange under way that will issue one, and is used when it has a grant; and a
grant to come is within the consent. -/
structure CodesOk (codes : List OauthCode) (reading : Dict Nat Exchange) (grants : List Grant) : Prop where
  granted : ∀ r ∈ codes, scopeRead ∈ r.granted ∧ (∀ x ∈ r.granted, x ∈ oauthScopes) ∧ r.scopes = join ' ' r.granted
  reads : ∀ e ∈ reading, ∀ u c l, e.2.grant = some (u, c, l) → scopeRead ∈ l ∧ ∀ x ∈ l, x ∈ oauthScopes ∧ x ∈ e.2.granted
  keys : (Dict.keys reading).Nodup
  once : (underWay reading ++ grants.map Grant.code).Nodup
  burned : ∀ g ∈ grants, ∀ r ∈ codes, r.id = g.code → r.usedAt.isSome = true
  known : ∀ c ∈ underWay reading ++ grants.map Grant.code, c ∈ codes.map OauthCode.id

/-- What an exchange reads: an unused code, and the scopes in its row. -/
theorem readExchange_ok {f : ExchangeForm} {x : Exchange} (h : readExchange k s f = .ok x) :
    ∃ r ∈ s.codes, x.code = r.id ∧ x.granted = r.granted ∧ r.usedAt = none ∧
      ∀ u c l, x.grant = some (u, c, l) → l = parseOauthScopes r.scopes := by
  unfold readExchange at h
  split at h
  · cases h
  · rename_i row hrow
    dsimp only at h
    split at h
    · cases h
    · rename_i hlive
      have hunused : row.usedAt = none := by
        simp only [Bool.or_eq_true, not_or, Bool.not_eq_true, Option.isSome_eq_false_iff, Option.isNone_iff_eq_none] at hlive
        exact hlive.1
      refine ⟨row, List.mem_of_find?_eq_some hrow, ?_⟩
      split at h
      · cases h
        exact ⟨rfl, rfl, hunused, fun _ _ _ hg => by cases hg⟩
      split at h
      · cases h
        exact ⟨rfl, rfl, hunused, fun _ _ _ hg => by cases hg⟩
      split at h
      · cases h
        exact ⟨rfl, rfl, hunused, fun _ _ _ hg => by cases hg⟩
      · cases h
        refine ⟨rfl, rfl, hunused, ?_⟩
        intro u c l hg
        cases hg
        rfl

/-- A consent adds a code, and nothing else. -/
theorem consent_rest (u : Nat) (cid uri challenge raw : Str) (picked : List Str) (plain : Str) :
    (consent k s u cid uri challenge raw picked plain).tokens = s.tokens ∧
      (consent k s u cid uri challenge raw picked plain).reading = s.reading ∧
      (consent k s u cid uri challenge raw picked plain).grants = s.grants ∧
      (consent k s u cid uri challenge raw picked plain).left = s.left := by
  unfold consent
  dsimp only
  split <;> exact ⟨rfl, rfl, rfl, rfl⟩

theorem consent_codes {u : Nat} {cid uri challenge raw plain : Str} {picked : List Str} (h : CodesOk s.codes s.reading s.grants) :
    CodesOk (consent k s u cid uri challenge raw picked plain).codes s.reading s.grants := by
  unfold consent
  dsimp only
  split
  · exact h
  · have hfresh := freshId_not_mem (s.codes.map OauthCode.id)
    refine ⟨?_, h.reads, h.keys, h.once, ?_, ?_⟩
    · intro r hr
      rcases List.mem_append.1 hr with hr | hr
      · exact h.granted r hr
      · obtain rfl := List.mem_singleton.1 hr
        exact ⟨scopeRead_mem_consentScopes (scopeRead_mem_parseOauthScopes raw) picked, fun x hx => (mem_consentScopes hx).2, rfl⟩
    · intro g hg r hr hid
      rcases List.mem_append.1 hr with hr | hr
      · exact h.burned g hg r hr hid
      · obtain rfl := List.mem_singleton.1 hr
        have hknown := h.known g.code (List.mem_append_right _ (List.mem_map_of_mem hg))
        rw [← hid] at hknown
        exact absurd hknown hfresh
    · intro c hc
      rw [List.map_append]
      exact List.mem_append_left _ (h.known c hc)

theorem underWay_append (d e : Dict Nat Exchange) : underWay (d ++ e) = underWay d ++ underWay e := by
  simp [underWay, List.filter_append]

/-- An exchange reads a code that no other one has read. -/
theorem CodesOk.read {i : Nat} {f : ExchangeForm} {x : Exchange} (h : CodesOk s.codes s.reading s.grants)
    (hi : s.reading.get? i = none) (hr : readExchange k s f = .ok x) (hfree : x.grant.isSome = true → x.code ∉ underWay s.reading) :
    CodesOk s.codes (s.reading.set i x) s.grants := by
  obtain ⟨r, hrow, hcode, hgranted, hunused, hscopes⟩ := readExchange_ok hr
  have hadd : s.reading.set i x = s.reading ++ [(i, x)] := Dict.set_of_not_mem (Dict.get?_eq_none.1 hi)
  have hone : underWay [(i, x)] = if x.grant.isSome then [x.code] else [] := by
    cases hg : x.grant <;> simp [underWay, hg]
  obtain ⟨hread, hoauth, htext⟩ := h.granted r hrow
  refine ⟨h.granted, ?_, Dict.keys_set_nodup h.keys, ?_, h.burned, ?_⟩
  · intro e he u c l hg
    rw [hadd] at he
    rcases List.mem_append.1 he with he | he
    · exact h.reads e he u c l hg
    · rw [List.mem_singleton.1 he] at hg ⊢
      obtain rfl := hscopes u c l hg
      refine ⟨scopeRead_mem_parseOauthScopes _, fun y hy => ⟨parseOauthScopes_oauth hy, ?_⟩⟩
      rw [hgranted]
      rw [htext] at hy
      exact parseOauthScopes_join hoauth hread hy
  · rw [hadd, underWay_append, hone]
    cases hg : x.grant with
    | none => simpa using h.once
    | some g =>
      have hnew : x.code ∉ underWay s.reading ++ s.grants.map Grant.code := by
        intro hin
        rcases List.mem_append.1 hin with hin | hin
        · exact hfree (by rw [hg]; rfl) hin
        · obtain ⟨g', hg', hgc⟩ := List.mem_map.1 hin
          have hused := h.burned g' hg' r hrow (hcode ▸ hgc.symm)
          rw [hunused] at hused
          cases hused
      have hp : (underWay s.reading ++ [x.code] ++ s.grants.map Grant.code).Perm
          (x.code :: (underWay s.reading ++ s.grants.map Grant.code)) := by
        rw [List.append_assoc]
        exact List.perm_middle
      exact hp.nodup_iff.2 (List.nodup_cons.2 ⟨hnew, h.once⟩)
  · intro c hc
    rw [hadd, underWay_append, hone, List.append_assoc] at hc
    rcases List.mem_append.1 hc with hc | hc
    · exact h.known c (List.mem_append_left _ hc)
    rcases List.mem_append.1 hc with hc | hc
    · split at hc
      · rw [List.mem_singleton.1 hc, hcode]
        exact List.mem_map_of_mem hrow
      · cases hc
    · exact h.known c (List.mem_append_right _ hc)

/-- The exchanges under way but one, and that one. -/
theorem underWay_del {i : Nat} {x : Exchange} (hk : (Dict.keys reading).Nodup) (hi : reading.get? i = some x) :
    (underWay reading).Perm ((if x.grant.isSome then [x.code] else []) ++ underWay (reading.del i)) := by
  have hp : (underWay reading).Perm (underWay ((i, x) :: reading.del i)) := ((Dict.perm_del hk hi).filter _).map _
  refine hp.trans (List.Perm.of_eq ?_)
  cases hg : x.grant <;> simp [underWay, hg]

/-- An exchange burns its code, and issues a grant at most. -/
theorem CodesOk.commit {i : Nat} {x : Exchange} {used : Nat} {gs : List Grant} (h : CodesOk codes reading grants)
    (hi : reading.get? i = some x) (hgs : gs = [] ∨ x.grant.isSome = true ∧ ∃ g, gs = [g] ∧ g.code = x.code) :
    CodesOk (codes.map fun r => if r.id = x.code then { r with usedAt := some used } else r) (reading.del i) (grants ++ gs) := by
  have hids : (codes.map fun r => if r.id = x.code then { r with usedAt := some used } else r).map OauthCode.id =
      codes.map OauthCode.id := by
    rw [List.map_map]
    refine List.map_congr_left fun r _ => ?_
    simp only [Function.comp_apply]
    split <;> rfl
  have hsub : ∀ e ∈ reading.del i, e ∈ reading := (Dict.del_sublist i reading).subset
  have hout := underWay_del h.keys hi
  -- the codes with a grant or an exchange are no more than before
  obtain ⟨rest, hperm⟩ : ∃ rest, (rest ++ (underWay (reading.del i) ++ (grants ++ gs).map Grant.code)).Perm
      (underWay reading ++ grants.map Grant.code) := by
    rcases hgs with rfl | ⟨hg, g, rfl, hcode⟩
    · refine ⟨if x.grant.isSome then [x.code] else [], ?_⟩
      rw [List.append_nil, ← List.append_assoc]
      exact (hout.append_right _).symm
    · refine ⟨[], ?_⟩
      rw [if_pos hg] at hout
      rw [List.nil_append, List.map_append, List.map_cons, List.map_nil, hcode, ← List.append_assoc]
      exact (List.perm_append_singleton ..).trans (hout.append_right _).symm
  have hback : ∀ r ∈ codes.map (fun r => if r.id = x.code then { r with usedAt := some used } else r), ∃ r₀ ∈ codes,
      r₀.id = r.id ∧ r.granted = r₀.granted ∧ r.scopes = r₀.scopes ∧ (r.usedAt = r₀.usedAt ∨ r.usedAt = some used) ∧
      (r.id = x.code → r.usedAt = some used) := by
    intro r hr
    obtain ⟨r₀, hr₀, rfl⟩ := List.mem_map.1 hr
    refine ⟨r₀, hr₀, ?_⟩
    split
    · exact ⟨rfl, rfl, rfl, Or.inr rfl, fun _ => rfl⟩
    · rename_i hne
      exact ⟨rfl, rfl, rfl, Or.inl rfl, fun he => absurd he hne⟩
  refine ⟨?_, fun e he => h.reads e (hsub e he), Dict.keys_del_nodup h.keys, ?_, ?_, ?_⟩
  · intro r hr
    obtain ⟨r₀, hr₀, -, hgr, hsc, -⟩ := hback r hr
    rw [hgr, hsc]
    exact h.granted r₀ hr₀
  · exact (List.nodup_append.1 (hperm.nodup_iff.2 h.once)).2.1
  · intro g hg r hr hid
    obtain ⟨r₀, hr₀, hid₀, -, -, hor, hused⟩ := hback r hr
    rcases List.mem_append.1 hg with hg | hg
    · have hburned := h.burned g hg r₀ hr₀ (hid₀.trans hid)
      rcases hor with hor | hor
      · rw [hor]
        exact hburned
      · rw [hor]
        rfl
    · rcases hgs with rfl | ⟨-, g', rfl, hcode⟩
      · cases hg
      · rw [List.mem_singleton.1 hg, hcode] at hid
        rw [hused hid]
        rfl
  · intro c hc
    rw [hids]
    exact h.known c (hperm.mem_iff.1 (List.mem_append_right _ hc))

end Codes

/-! ## One event -/

section Events
variable {k : Hashes} {s : OauthState}

structure OauthState.Sound (s : OauthState) : Prop where
  tokens : TokensOk s.tokens s.grants s.left
  codes : CodesOk s.codes s.reading s.grants

/-- The scopes that the text of a token gets from those of a sign-in. -/
theorem mem_parseScopes_csv {l : List Str} {x : Str} (hl : ∀ y ∈ l, y ∈ oauthScopes) (hr : scopeRead ∈ l)
    (h : x ∈ parseScopes (scopesCsv (.list l))) : x ∈ l := by
  have hvalid : ∀ y ∈ oauthScopes, y ∈ validScopes := by decide
  rw [parseScopes_scopesCsv] at h
  exact mem_normalizeScopes_list (fun y hy => hvalid y (hl y hy)) hr h

theorem readRefresh_ok {tok cid : Str} {row : OauthRefresh} {api : ApiToken} (h : readRefresh k s tok cid = .ok (row, api)) :
    row ∈ s.refreshes ∧ row.tokenHash = k.sha256 tok ∧ api ∈ s.tokens ∧ api.id = row.apiTokenId := by
  unfold readRefresh at h
  split at h
  · cases h
  · rename_i r hr
    split at h
    · cases h
    split at h
    · cases h
    split at h
    · cases h
    · rename_i a ha
      split at h
      · cases h
      · cases h
        have hlook := (Option.filter_eq_some_iff.1 ha).1
        exact ⟨List.mem_of_find?_eq_some hr, by simpa using List.find?_some hr, Table.lookup_mem hlook, Table.lookup_key hlook⟩

/-- A refresh writes the tokens of one id. -/
theorem refresh_tokens {tok cid plain fresh : Str} (h : TokensOk s.tokens s.grants s.left)
    (hok : OauthEvent.Minds k s (.refresh tok cid plain fresh)) :
    TokensOk (refreshGrant k s tok cid plain fresh).2.tokens s.grants s.left := by
  unfold refreshGrant
  split
  · exact h
  · exact h
  · rename_i row api hread
    obtain ⟨-, hscopes⟩ := hok row api hread
    obtain ⟨-, -, hapi, -⟩ := readRefresh_ok hread
    have hold := h.ok api hapi
    have hwithin : ∀ x ∈ parseScopes (scopesCsv (.list (parseOauthScopes row.scopes))), x ∈ parseScopes api.scopes :=
      fun x hx => hscopes x (mem_parseScopes_csv (fun y hy => parseOauthScopes_oauth hy) (scopeRead_mem_parseOauthScopes _) hx)
    refine h.map ?_ ?_
    · intro t
      split
      · exact Eq.symm ‹t.id = api.id›
      · rfl
    · intro t ht
      split
      · exact ⟨fun g hg hgt x hx => hold.consented g hg hgt x (hwithin x hx), fun l hl x hx => hold.kept l hl x (hwithin x hx), hold.creator⟩
      · exact h.ok t ht

theorem update_tokens {id : Nat} {scopes : Option ScopeInput} (h : TokensOk s.tokens s.grants s.left)
    (hok : OauthEvent.Minds k s (.update id scopes)) :
    TokensOk (updateApiToken s id scopes).tokens s.grants (updateApiToken s id scopes).left := by
  unfold updateApiToken
  split
  · exact h
  · rename_i t₀ ht₀
    split
    · exact h
    · rename_i hlive
      have hin : t₀ ∈ s.tokens := Table.lookup_mem ht₀
      have hid : t₀.id = id := Table.lookup_key ht₀
      dsimp only
      generalize hcsv : (match scopes with
        | some l => scopesCsv l
        | none => t₀.scopes) = csv
      have hconsented : ∀ g ∈ s.grants, g.tokenId = id → ∀ x ∈ parseScopes csv, x ∈ g.scopes := by
        intro g hg hgt x hx
        subst hcsv
        cases scopes with
        | some l =>
          rw [parseScopes_scopesCsv] at hx
          exact hok t₀ ht₀ (by simpa using hlive) g hg hgt x hx
        | none => exact (h.ok t₀ hin).consented g hg (hgt.trans hid.symm) x hx
      have hids : (s.tokens.map fun t => if t.id = id then { t with scopes := csv } else t).map ApiToken.id = s.tokens.map ApiToken.id := by
        rw [List.map_map]
        refine List.map_congr_left fun t _ => ?_
        simp only [Function.comp_apply]
        split <;> rfl
      refine ⟨?_, ?_, ?_⟩
      · intro t ht
        obtain ⟨t', ht', rfl⟩ := List.mem_map.1 ht
        have hold := h.ok t' ht'
        split
        · rename_i heq
          refine ⟨fun g hg hgt => hconsented g hg (hgt.trans heq), ?_, hold.creator⟩
          intro l hl x hx
          rw [Dict.get?_set, if_pos heq] at hl
          exact Option.some.inj hl ▸ hx
        · rename_i hne
          refine ⟨hold.consented, ?_, hold.creator⟩
          intro l hl
          rw [Dict.get?_set, if_neg hne] at hl
          exact hold.kept l hl
      · rw [show (OauthState.setToken s id fun t => { t with scopes := csv }).tokens.map ApiToken.id = _ from hids]
        exact h.granted
      · intro i l hl
        rw [show (OauthState.setToken s id fun t => { t with scopes := csv }).tokens.map ApiToken.id = _ from hids]
        rw [Dict.get?_set] at hl
        split at hl
        · rename_i heq
          rw [heq, ← hid]
          exact List.mem_map_of_mem hin
        · exact h.known i l hl

/-- A write of one token that leaves its scopes and its creator alone. -/
theorem setToken_tokens {id : Nat} {f : ApiToken → ApiToken} (h : TokensOk s.tokens s.grants s.left)
    (hf : ∀ t, (f t).id = t.id ∧ (f t).scopes = t.scopes ∧ (f t).createdByUserId = t.createdByUserId) :
    TokensOk (s.setToken id f).tokens s.grants s.left := by
  refine h.map ?_ ?_
  · intro t
    split
    · exact (hf t).1
    · rfl
  · intro t ht
    split
    · exact (h.ok t ht).of_same (hf t).1 (hf t).2.1 (Or.inl (hf t).2.2)
    · exact h.ok t ht

theorem commit_sound {i : Nat} {x : Exchange} {plain fresh : Str} (h : s.Sound) (hi : s.reading.get? i = some x) :
    (commitExchange k { s with reading := s.reading.del i } x plain fresh).Sound := by
  unfold commitExchange
  cases hg : x.grant with
  | none =>
    refine ⟨h.tokens, ?_⟩
    have hcodes := @CodesOk.commit s.codes s.reading s.grants i x s.now [] h.codes hi (Or.inl rfl)
    rw [List.append_nil] at hcodes
    exact hcodes
  | some g =>
    obtain ⟨u, cid, l⟩ := g
    dsimp only
    unfold issueGrant
    split
    · refine ⟨h.tokens, ?_⟩
      have hcodes := @CodesOk.commit s.codes s.reading s.grants i x s.now [] h.codes hi (Or.inl rfl)
      rw [List.append_nil] at hcodes
      exact hcodes
    · obtain ⟨hread, hl⟩ := h.codes.reads (i, x) (Dict.mem_of_get? hi) u cid l hg
      refine ⟨h.tokens.insert (freshId_not_mem _) rfl rfl ?_, ?_⟩
      · intro y hy
        exact (hl y (mem_parseScopes_csv (fun z hz => (hl z hz).1) hread hy)).2
      · exact h.codes.commit hi (Or.inr ⟨by rw [hg]; rfl, _, rfl, rfl⟩)

theorem oauthStep_sound (s : OauthState) (e : OauthEvent) (h : s.Sound) (hok : e.Minds k s) : (oauthStep k s e).Sound := by
  cases e with
  | tick ms => exact ⟨h.tokens, h.codes⟩
  | consent u cid uri challenge raw picked plain =>
    have hcodes := @consent_codes k s u cid uri challenge raw plain picked h.codes
    obtain ⟨htokens, hreading, hgrants, hleft⟩ := @consent_rest k s u cid uri challenge raw picked plain
    refine ⟨?_, ?_⟩
    · simp only [oauthStep, htokens, hgrants, hleft]
      exact h.tokens
    · simp only [oauthStep, hreading, hgrants]
      exact hcodes
  | read i f =>
    simp only [oauthStep]
    split
    · rename_i x hi hr
      exact ⟨h.tokens, h.codes.read hi hr (hok x hr)⟩
    · exact h
  | commit i plain fresh =>
    simp only [oauthStep]
    split
    · exact h
    · exact commit_sound h ‹_›
  | refresh tok cid plain fresh =>
    have htokens := refresh_tokens h.tokens hok
    simp only [oauthStep]
    unfold refreshGrant at htokens ⊢
    split at htokens
    · exact h
    · exact ⟨htokens, h.codes⟩
    · exact ⟨htokens, h.codes⟩
  | update id scopes =>
    have htokens := update_tokens (k := k) h.tokens hok
    simp only [oauthStep]
    unfold updateApiToken at htokens ⊢
    split at htokens
    · exact h
    · split at htokens
      · rename_i hrevoked
        simp only [hrevoked, if_true]
        exact h
      · rename_i hlive
        simp only [hlive]
        exact ⟨htokens, h.codes⟩
  | rotate id plain =>
    simp only [oauthStep]
    unfold rotateApiToken
    split
    · exact h
    · split
      · exact h
      · exact ⟨setToken_tokens h.tokens fun t => ⟨rfl, rfl, rfl⟩, h.codes⟩
  | revoke id =>
    refine ⟨setToken_tokens h.tokens fun t => ?_, h.codes⟩
    split <;> exact ⟨rfl, rfl, rfl⟩
  | setRole u role => exact ⟨h.tokens, h.codes⟩
  | setActive u active => exact ⟨h.tokens, h.codes⟩
  | deleteUser u =>
    refine ⟨h.tokens.map ?_ ?_, h.codes⟩
    · intro t
      split <;> rfl
    · intro t ht
      split
      · exact (h.tokens.ok t ht).of_same rfl rfl (Or.inr rfl)
      · exact h.tokens.ok t ht

theorem lookupActiveToken_mem {plain : Str} {t : ApiToken} (h : lookupActiveToken k s plain = some t) : t ∈ s.tokens := by
  unfold lookupActiveToken at h
  split at h
  · cases h
  split at h
  · cases h
  · rename_i t₀ ht₀
    split at h
    · cases h
    · exact Option.some.inj h ▸ List.mem_of_find?_eq_some ht₀

theorem OauthState.Sound.allowed (h : s.Sound) : Allowed k s := by
  refine ⟨?_, (List.nodup_append.1 h.codes.once).2.1⟩
  intro plain t ht g hg hgt x hx
  have hok := h.tokens.ok t (lookupActiveToken_mem ht)
  exact ⟨hok.consented g hg hgt x hx, fun l hl => hok.kept l hl x hx⟩

/-- The creator of what is refreshed is who consented to it. -/
theorem OauthState.Sound.byAdmin {e : OauthEvent} (h : s.Sound) (hok : e.Minds k s) : e.ByAdmin k s := by
  cases e with
  | refresh tok cid plain fresh =>
    intro body hbody
    unfold refreshGrant at hbody
    split at hbody
    · cases hbody
    · cases hbody
    · rename_i row api hread
      obtain ⟨hrow, hhash, hapi, hid⟩ := readRefresh_ok hread
      obtain ⟨hadmin, -⟩ := hok row api hread
      refine ⟨row, hrow, hhash, ?_⟩
      intro g hg hgt
      cases hc : api.createdByUserId with
      | none =>
        rw [hc] at hadmin
        cases hadmin
      | some u =>
        rw [hc, Option.bind_some] at hadmin
        rw [← (h.tokens.ok api hapi).creator g hg (hgt.trans hid.symm) u hc]
        exact hadmin
  | _ => trivial

/-- No agent has signed in yet. -/
def OauthState.Start (s : OauthState) : Prop :=
  s.codes = [] ∧ s.refreshes = [] ∧ s.reading = [] ∧ s.grants = [] ∧ s.left = []

theorem OauthState.Start.sound (h : s.Start) : s.Sound := by
  obtain ⟨hcodes, -, hreading, hgrants, hleft⟩ := h
  refine ⟨?_, ?_⟩
  · rw [hgrants, hleft]
    exact ⟨fun t _ => ⟨by simp, by simp [Dict.get?], by simp⟩, by simp, by simp [Dict.get?]⟩
  · rw [hcodes, hreading, hgrants]
    exact ⟨by simp, by simp, List.nodup_nil, List.nodup_nil, by simp, by simp [underWay]⟩

/-- **An agent's access is what was consented to and left in place, is refreshed only for an admin, and comes once
for each code**, where refreshing minds the admin and the scopes, and exchanges mind each other. -/
theorem access_within_consent (h0 : s.Start) {es : List OauthEvent} (hg : Guarded (oauthStep k) (OauthEvent.Minds k) s es) :
    (∀ pre post, es = pre ++ post → Allowed k (runs (oauthStep k) s pre)) ∧
      ∀ pre e post, es = pre ++ e :: post → e.ByAdmin k (runs (oauthStep k) s pre) := by
  have hsound : ∀ pre post, es = pre ++ post → (runs (oauthStep k) s pre).Sound := by
    rintro pre post rfl
    exact runs_invariant oauthStep_sound pre s h0.sound hg.of_append
  refine ⟨fun pre post heq => (hsound pre post heq).allowed, ?_⟩
  intro pre e post heq
  exact (hsound pre (e :: post) heq).byAdmin (guarded_iff.1 hg pre e post heq)

/-- Nothing is hashed. -/
def plainHashes : Hashes := ⟨id, id⟩

/-- Alice, an admin, consents to `read` and `jobs`; the agent exchanges its code; and its token is cut to `read`. -/
def testSignIn : List OauthEvent :=
  let verifier := List.replicate 43 'v'
  [.consent 1 (lit "cursor") (lit "http://127.0.0.1/cb") verifier (lit "read jobs") [lit "jobs"] (lit "CODE"),
    .read 0 ⟨lit "CODE", lit "cursor", lit "http://127.0.0.1/cb", verifier⟩, .commit 0 (lit "ph_oa_A") (lit "mcr_A"),
    .update 1 (some (.list [lit "read"]))]

def testHerder : OauthState := { now := 0, users := [{ id := 1 }], clients := [⟨lit "cursor", none⟩] }

theorem access_within_consent_cut :
    ((runs (oauthStep plainHashes) testHerder testSignIn).tokens.map fun t => parseScopes t.scopes) = [[scopeRead]] ∧
      Allowed plainHashes (runs (oauthStep plainHashes) testHerder testSignIn) := by
  refine ⟨by decide +kernel, (@access_within_consent plainHashes testHerder ⟨rfl, rfl, rfl, rfl, rfl⟩ testSignIn
    ⟨trivial, ?_, trivial, ?_, trivial⟩).1 testSignIn [] (List.append_nil _).symm⟩
  · intro x _ _ hin
    simp only [oauthStep, consent_rest] at hin
    cases hin
  · intro t _ _
    decide +kernel

/-- The refresh token brings `jobs` back. -/
theorem refresh_undoes_cut : ¬ ∀ (k : Hashes) (s : OauthState) (es : List OauthEvent), s.Start →
    (∀ pre post, es = pre ++ post → Allowed k (runs (oauthStep k) s pre)) ∧
      ∀ pre e post, es = pre ++ e :: post → e.ByAdmin k (runs (oauthStep k) s pre) := by
  intro h
  let es := testSignIn ++ [.refresh (lit "mcr_A") (lit "cursor") (lit "ph_oa_B") (lit "mcr_B")]
  have hall := (h plainHashes testHerder es ⟨rfl, rfl, rfl, rfl, rfl⟩).1 es [] (List.append_nil _).symm
  have hleft : ∀ t ∈ (lookupActiveToken plainHashes (runs (oauthStep plainHashes) testHerder es) (lit "ph_oa_B")).toList,
      ∀ g ∈ (runs (oauthStep plainHashes) testHerder es).grants, g.tokenId = t.id → ∀ x ∈ parseScopes t.scopes,
      ∀ l ∈ ((runs (oauthStep plainHashes) testHerder es).left.get? t.id).toList, x ∈ l := by
    intro t ht g hg hgt x hx l hl
    exact (hall.scopes _ t (Option.mem_toList.1 ht) g hg hgt x hx).2 l (Option.mem_toList.1 hl)
  revert hleft
  decide +kernel

end Events

end PiHerder.Api
