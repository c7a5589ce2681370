import PiHerder.Api.Oauth
import PiHerder.Lib.IpAddress

/-!
# What a token is restricted to (`services/api_tokens.py`)

The row of an API token with its allowlist, and the requests that write it. The column holds the JSON list that
`json.dumps` wrote, or a text that is no such list.

| here | there |
| --- | --- |
| `featureKeysAllowed`, `tokenAllowsFeature` | `:139`, `:148` |
| `normalizeAllowedCidrs`, `allowedCidrsJson`, `parseAllowedCidrs`, `clientIpAllowed` | `:381`–`:453` |
| `createApiToken`, `TokenRow.updateApiToken`, `rotateApiToken`, `revokeApiToken` | `:494`, `:585`, `:613`, `:576` |
| `TokenTable.verifyBearerToken`, `TokenRow.publicDict` | `:725`, `:747` |

`TokenLife` keeps beside the row what the last request that wrote each column asked for.
-/
namespace PiHerder.Api
open Lib Lib.Str Lib.Ip

/-! ## Features -/

def featurePrefix : Str := lit "feature:"

/-- `FEATURE_SCOPE_BY_KEY`. -/
def featureKeys : List Str := [lit "backup", lit "os", lit "docker"]

/-- `FEATURE_SCOPES`. -/
def featureScopes : List Str := featureKeys.map (featurePrefix ++ ·)

def featureKeysAllowed (scopes : List Str) : Option (List Str) :=
  let features := featureKeys.filter fun k => scopes.contains (featurePrefix ++ k)
  if features.isEmpty && !scopes.any featureScopes.contains then none else some features

def tokenAllowsFeature (scopes : List Str) (featureKey : Str) : Bool :=
  match featureKeysAllowed scopes with
  | none => true
  | some allowed => allowed.contains featureKey

/-! ## Allowlists -/

/-- `Iterable[str] | str | None`. -/
inductive CidrInput
  | none
  | text (s : Str)
  | list (l : List Str)
deriving Repr

/-- The ends of a line for `str.splitlines`. -/
def isLineBreak (c : Char) : Bool := [10, 11, 12, 13, 28, 29, 30, 133, 8232, 8233].contains c.toNat

/-- The entries of an input that are not blank. -/
def CidrInput.entries : CidrInput → List Str
  | .none => []
  | .text s =>
    ((split '\n' (s.map fun c => if c = ';' ∨ c = ',' ∨ isLineBreak c then '\n' else c)).map strip).filter fun p => !p.isEmpty
  | .list l => (l.map strip).filter fun p => !p.isEmpty

/-- The network of one entry; a single address is one of its own. -/
def allowedNetwork (item : Str) : Option Network :=
  if '/' ∈ item then ipNetwork item else (ipAddress item).bind fun ip => ipNetwork (ip.str ++ '/' :: ofNat ip.width)

/-- An entry that does not parse is dropped. -/
def normalizeAllowedCidrs (value : CidrInput) : List Str :=
  (value.entries.filterMap fun item => (allowedNetwork item).map (·.str)).eraseDups

inductive CidrColumn
  | json (items : List Str)
  | text (s : Str)
deriving DecidableEq, Repr

def allowedCidrsJson (value : CidrInput) : Option CidrColumn :=
  if (normalizeAllowedCidrs value).isEmpty then none else some (.json (normalizeAllowedCidrs value))

def parseAllowedCidrs : Option CidrColumn → List Str
  | none => []
  | some (.json items) => normalizeAllowedCidrs (.list items)
  | some (.text s) => normalizeAllowedCidrs (.text s)

/-- An empty list admits every client. -/
def clientIpAllowed (allowedCidrs : List Str) (clientIp : Option Str) : Bool :=
  let cidrs := normalizeAllowedCidrs (.list allowedCidrs)
  if cidrs.isEmpty then true
  else match (clientIp.filter fun ip => !ip.isEmpty).bind fun ip => ipAddress (strip ip) with
    | none => false
    | some addr => cidrs.any fun c => (ipNetwork c).any (·.contains addr)

/-! ## The row -/

structure TokenRow extends ApiToken where
  name : Str
  allowedCidrs : Option CidrColumn := none
deriving DecidableEq, Repr

/-- `(name or "unnamed").strip()[:120] or "unnamed"`. -/
def tokenName (name : Str) : Str :=
  let cut := (strip (if name.isEmpty then lit "unnamed" else name)).take 120
  if cut.isEmpty then lit "unnamed" else cut

section Requests
variable (k : Hashes)

def createApiToken (id : Nat) (name : Str) (createdBy : Option Nat) (scopes : ScopeInput) (allowedCidrs : CidrInput)
    (expiresAt : Option Nat) (plain : Str) : TokenRow where
  id := id
  name := tokenName name
  tokenHash := k.sha256 plain
  scopes := scopesCsv scopes
  allowedCidrs := allowedCidrsJson allowedCidrs
  createdByUserId := createdBy
  expiresAt := expiresAt

namespace TokenRow
variable (row : TokenRow)

/-- `none` is the `ValueError` of a revoked token. -/
def updateApiToken (name : Option Str) (scopes : ScopeInput) (allowedCidrs : CidrInput) (updateCidrs : Bool) : Option TokenRow :=
  if row.revokedAt.isSome then none
  else
    let row := match name with
      | some name => { row with name := tokenName name }
      | none => row
    let row := match scopes with
      | .none => row
      | _ => { row with scopes := scopesCsv scopes }
    some (if updateCidrs then { row with allowedCidrs := allowedCidrsJson allowedCidrs } else row)

def rotateApiToken (now : Nat) (plain : Str) : Option TokenRow :=
  if row.revokedAt.isSome || row.expiresAt.any fun e => decide (e < now) then none
  else some { row with tokenHash := k.sha256 plain }

def revokeApiToken (now : Nat) : TokenRow := if row.revokedAt.isNone then { row with revokedAt := some now } else row

end TokenRow

/-- What a `PATCH` of `token_public_dict` sends back: the name, the scopes and the allowlist. -/
structure PublicDict where
  name : Str
  scopes : List Str
  allowedCidrs : List Str
deriving DecidableEq, Repr

def TokenRow.publicDict (row : TokenRow) : PublicDict := ⟨row.name, parseScopes row.scopes, parseAllowedCidrs row.allowedCidrs⟩

def TokenRow.writeBack (row : TokenRow) : Option TokenRow :=
  row.updateApiToken (some row.publicDict.name) (.list row.publicDict.scopes) (.list row.publicDict.allowedCidrs) true

structure TokenTable where
  now : Nat
  rows : List TokenRow
deriving Repr

namespace TokenTable
variable (t : TokenTable)

def lookupActiveToken (plain : Str) : Option TokenRow :=
  if plain.isEmpty || !startsWith (lit "ph_") plain then none
  else match t.rows.find? fun row => row.tokenHash == k.sha256 plain with
    | none => none
    | some row => if row.revokedAt.isSome || row.expiresAt.any fun e => decide (e < t.now) then none else some row

def verifyBearerToken (plain : Str) (clientIp : Option Str) (checkIp : Bool) : Option TokenRow :=
  match t.lookupActiveToken k plain with
  | none => none
  | some row =>
    let cidrs := parseAllowedCidrs row.allowedCidrs
    if checkIp && !cidrs.isEmpty && !clientIpAllowed cidrs clientIp then none else some row

end TokenTable

/-! ## The life of a token -/

/-- A row, and what was asked for when its columns were last written. -/
structure TokenLife where
  row : TokenRow
  name : Str
  scopes : ScopeInput
  cidrs : CidrInput

inductive TokenEvent
  | update (name : Option Str) (scopes : ScopeInput) (allowedCidrs : CidrInput) (updateCidrs : Bool)
  | rotate (now : Nat) (plain : Str)
  | revoke (now : Nat)

def createdToken (id : Nat) (name : Str) (createdBy : Option Nat) (scopes : ScopeInput) (cidrs : CidrInput)
    (expiresAt : Option Nat) (plain : Str) : TokenLife :=
  ⟨createApiToken k id name createdBy scopes cidrs expiresAt plain, name, scopes, cidrs⟩

def tokenStep (s : TokenLife) : TokenEvent → TokenLife
  | .update name scopes cidrs updateCidrs =>
    match s.row.updateApiToken name scopes cidrs updateCidrs with
    | none => s
    | some row =>
      { row := row
        name := name.getD s.name
        scopes := match scopes with
          | .none => s.scopes
          | given => given
        cidrs := if updateCidrs then cidrs else s.cidrs }
  | .rotate now plain =>
    match s.row.rotateApiToken k now plain with
    | none => s
    | some row => { s with row := row }
  | .revoke now => { s with row := s.row.revokeApiToken now }

end Requests

/-! ## What was asked for -/

/-- The networks that the entries name. -/
def CidrInput.networks (value : CidrInput) : List Network := value.entries.filterMap allowedNetwork

/-- The names that ask for a feature. -/
def ScopeInput.features (scopes : ScopeInput) : List Str := scopes.raw.filter (startsWith featurePrefix)

/-- The restrictions that a client at `client` meets with are those that were asked for. -/
structure TokenLife.Restricted (s : TokenLife) (accepted : Bool) (client : Address) : Prop where
  allowlist : s.cidrs.entries ≠ [] → (accepted = true ↔ ∃ n ∈ s.cidrs.networks, n.contains client.unmap = true)
  features : s.scopes.features ≠ [] → ∀ key, tokenAllowsFeature (parseScopes s.row.scopes) key = true → featurePrefix ++ key ∈ s.scopes.raw
  capabilities : ∀ x ∈ parseScopes s.row.scopes, x ∈ capabilityScopes → x ≠ scopeRead → x ∈ s.scopes.raw
  writeBack : s.row.writeBack = some s.row

/-- The requests for which this is so. -/
structure TokenLife.Parses (s : TokenLife) (client : Address) : Prop where
  entries : s.cidrs.entries = [] ∨ s.cidrs.networks ≠ [] ∧ (client.unmap = client ∨
    ((∃ n ∈ s.cidrs.networks, n.contains client = true) ↔ ∃ n ∈ s.cidrs.networks, n.contains client.unmap = true))
  features : s.scopes.features = [] ∨ ∃ x ∈ s.scopes.features, x ∈ featureScopes
  name : ∀ c ∈ (strip s.name)[119]?, isSpace c = false

/-! ## An allowlist reads back -/

theorem allowedNetwork_str (n : Network) : allowedNetwork n.str = some n := by
  unfold allowedNetwork
  rw [if_pos (by simp [Network.str]), ipNetwork_str]

theorem normalizeAllowedCidrs_eq (value : CidrInput) : normalizeAllowedCidrs value = (value.networks.map Network.str).eraseDups := by
  unfold normalizeAllowedCidrs CidrInput.networks
  rw [List.map_filterMap]

theorem mem_normalizeAllowedCidrs {value : CidrInput} {c : Str} :
    c ∈ normalizeAllowedCidrs value ↔ ∃ n ∈ value.networks, n.str = c := by
  rw [normalizeAllowedCidrs_eq, List.mem_eraseDups, List.mem_map]

/-- **What was normalized is normal.** -/
theorem normalizeAllowedCidrs_list (value : CidrInput) :
    normalizeAllowedCidrs (.list (normalizeAllowedCidrs value)) = normalizeAllowedCidrs value := by
  have hstr : ∀ c ∈ normalizeAllowedCidrs value, ∃ n : Network, n.str = c := fun c hc =>
    (mem_normalizeAllowedCidrs.1 hc).imp fun n h => h.2
  have hentries : (CidrInput.list (normalizeAllowedCidrs value)).entries = normalizeAllowedCidrs value := by
    have hstrip : (normalizeAllowedCidrs value).map strip = normalizeAllowedCidrs value := by
      refine (List.map_congr_left fun c hc => ?_).trans (List.map_id _)
      obtain ⟨n, rfl⟩ := hstr c hc
      exact strip_str n
    simp only [CidrInput.entries]
    rw [hstrip]
    refine List.filter_eq_self.2 fun c hc => ?_
    obtain ⟨n, rfl⟩ := hstr c hc
    simp [str_ne_nil]
  have hmap : ∀ l : List Str, (∀ c ∈ l, ∃ n : Network, n.str = c) →
      (l.filterMap fun item => (allowedNetwork item).map (·.str)) = l := by
    intro l
    induction l with
    | nil => exact fun _ => rfl
    | cons c l ih =>
      intro h
      obtain ⟨n, rfl⟩ := h c List.mem_cons_self
      rw [List.filterMap_cons_some (b := n.str) (by rw [allowedNetwork_str]; rfl), ih fun d hd => h d (List.mem_cons_of_mem _ hd)]
  rw [normalizeAllowedCidrs, hentries, hmap _ hstr, eraseDups_of_nodup]
  rw [normalizeAllowedCidrs_eq]
  exact nodup_eraseDups _

/-- **The column reads back.** -/
theorem parseAllowedCidrs_allowedCidrsJson (value : CidrInput) :
    parseAllowedCidrs (allowedCidrsJson value) = normalizeAllowedCidrs value := by
  unfold allowedCidrsJson
  split
  · rename_i h
    exact (List.isEmpty_iff.1 h).symm
  · exact normalizeAllowedCidrs_list value

/-- The column of what is written back. -/
theorem allowedCidrsJson_list (value : CidrInput) :
    allowedCidrsJson (.list (normalizeAllowedCidrs value)) = allowedCidrsJson value := by
  unfold allowedCidrsJson
  rw [normalizeAllowedCidrs_list]

theorem normalizeAllowedCidrs_eq_nil {value : CidrInput} : normalizeAllowedCidrs value = [] ↔ value.networks = [] := by
  constructor
  · intro h
    rw [List.eq_nil_iff_forall_not_mem] at h ⊢
    exact fun n hn => h n.str (mem_normalizeAllowedCidrs.2 ⟨n, hn, rfl⟩)
  · intro h
    rw [normalizeAllowedCidrs_eq, h]
    rfl

/-- A client with an address is admitted where its address lies in a network, and where there is none. -/
theorem clientIpAllowed_iff (value : CidrInput) {ip : Str} {client : Address} (hip : ipAddress (strip ip) = some client) :
    clientIpAllowed (normalizeAllowedCidrs value) (some ip) = true ↔
      value.networks = [] ∨ ∃ n ∈ value.networks, n.contains client = true := by
  have hne : ip ≠ [] := by
    rintro rfl
    have hnone : ipAddress (strip []) = none := by decide +kernel
    rw [hnone] at hip
    cases hip
  unfold clientIpAllowed
  simp only [normalizeAllowedCidrs_list]
  rw [show (some ip).filter (fun ip => !ip.isEmpty) = some ip by simp [hne], Option.bind_some, hip]
  simp only
  split
  · rename_i h
    exact iff_of_true rfl (Or.inl (normalizeAllowedCidrs_eq_nil.1 (List.isEmpty_iff.1 h)))
  · rename_i h
    have hnets : value.networks ≠ [] := fun hnil => h (List.isEmpty_iff.2 (normalizeAllowedCidrs_eq_nil.2 hnil))
    rw [List.any_eq_true]
    constructor
    · rintro ⟨c, hc, hany⟩
      obtain ⟨n, hn, rfl⟩ := mem_normalizeAllowedCidrs.1 hc
      rw [ipNetwork_str] at hany
      exact Or.inr ⟨n, hn, hany⟩
    · rintro (hnil | ⟨n, hn, hin⟩)
      · exact absurd hnil hnets
      · exact ⟨n.str, mem_normalizeAllowedCidrs.2 ⟨n, hn, rfl⟩, by rw [ipNetwork_str]; exact hin⟩

/-! ## Scopes and names read back -/

/-- A scope that restricts to a feature is kept exactly when it was named. -/
theorem featureScope_mem_sortedScopes {raw : List Str} {x : Str} (hx : x ∈ featureScopes) : x ∈ sortedScopes raw ↔ x ∈ raw := by
  have hfeature : ∀ y ∈ featureScopes, y ∈ validScopes ∧ y ≠ scopeRead := by decide
  obtain ⟨hvalid, hread⟩ := hfeature x hx
  refine ⟨fun h => (mem_sortedScopes h).2.resolve_right hread, fun h => ?_⟩
  have hkept : x ∈ validScopes.filter raw.contains := List.mem_filter.2 ⟨hvalid, by simpa using h⟩
  unfold sortedScopes
  simp only
  split
  · exact hkept
  · refine List.mem_filter.2 ⟨hvalid, ?_⟩
    rw [Bool.or_eq_true_iff]
    exact Or.inl (by simpa using hkept)

theorem tokenAllowsFeature_iff {scopes : List Str} {key : Str} : tokenAllowsFeature scopes key = true ↔
    (∀ x ∈ featureScopes, x ∉ scopes) ∨ key ∈ featureKeys ∧ featurePrefix ++ key ∈ scopes := by
  have hkeys : (∀ x ∈ featureScopes, x ∉ scopes) ↔ featureKeys.filter (fun k => scopes.contains (featurePrefix ++ k)) = [] := by
    simp [featureScopes, List.filter_eq_nil_iff]
  unfold tokenAllowsFeature featureKeysAllowed
  simp only
  by_cases hnone : ∀ x ∈ featureScopes, x ∉ scopes
  · have hany : scopes.any featureScopes.contains = false := by
      rw [List.any_eq_false]
      intro x hx hin
      exact hnone x (by simpa using hin) hx
    rw [hkeys.1 hnone, hany]
    exact iff_of_true rfl (Or.inl hnone)
  · have hsome : (featureKeys.filter fun k => scopes.contains (featurePrefix ++ k)).isEmpty = false := by
      simpa using fun h => hnone (hkeys.2 h)
    rw [hsome]
    simp only [Bool.false_and, Bool.false_eq_true, if_false]
    rw [List.contains_iff_mem, List.mem_filter, List.contains_iff_mem]
    exact (or_iff_right hnone).symm

/-- **The features of a token** are those named, as soon as one that exists was. -/
theorem features_iff (scopes : ScopeInput) :
    (scopes.features ≠ [] → ∀ key, tokenAllowsFeature (normalizeScopes scopes) key = true → featurePrefix ++ key ∈ scopes.raw) ↔
      (scopes.features = [] ∨ ∃ x ∈ scopes.features, x ∈ featureScopes) := by
  have hstarts : ∀ x ∈ featureScopes, startsWith featurePrefix x = true := by decide
  have hmem : ∀ {x}, x ∈ featureScopes → (x ∈ scopes.features ↔ x ∈ normalizeScopes scopes) := fun hx => by
    rw [normalizeScopes, featureScope_mem_sortedScopes hx, ScopeInput.features, List.mem_filter, and_iff_left (hstarts _ hx)]
  constructor
  · intro h
    rw [or_iff_not_imp_left]
    intro hne
    by_contra hno
    -- without a feature that exists every feature is allowed, backups too
    have hbackup : featurePrefix ++ lit "backup" ∈ featureScopes := by decide
    have hall : ∀ x ∈ featureScopes, x ∉ normalizeScopes scopes := fun x hx hin => hno ⟨x, (hmem hx).2 hin, hx⟩
    have hraw := h hne (lit "backup") (tokenAllowsFeature_iff.2 (Or.inl hall))
    exact hall _ hbackup ((featureScope_mem_sortedScopes hbackup).2 hraw)
  · rintro h hne key hkey
    obtain ⟨x, hx, hfeature⟩ := h.resolve_left hne
    rcases tokenAllowsFeature_iff.1 hkey with hall | ⟨hk, hin⟩
    · exact absurd ((hmem hfeature).1 hx) (hall x hfeature)
    · exact (featureScope_mem_sortedScopes (List.mem_map_of_mem hk)).1 hin

theorem normalizeScopes_list (scopes : ScopeInput) : normalizeScopes (.list (normalizeScopes scopes)) = normalizeScopes scopes := by
  have hvalid : ∀ x ∈ normalizeScopes scopes, x ∈ validScopes := fun x hx => (mem_sortedScopes hx).1
  have hraw : (ScopeInput.list (normalizeScopes scopes)).raw = normalizeScopes scopes := by
    simp only [ScopeInput.raw]
    have hfilter : ((normalizeScopes scopes).filter fun w => !(strip w).isEmpty) = normalizeScopes scopes := by
      refine List.filter_eq_self.2 fun w hw => ?_
      obtain ⟨-, -, hnil, hstrip, -⟩ := validScopes_plain w (hvalid w hw)
      simp [hstrip, hnil]
    rw [hfilter, List.map_map]
    refine (List.map_congr_left fun w hw => ?_).trans (List.map_id _)
    obtain ⟨-, -, -, hstrip, hlower⟩ := validScopes_plain w (hvalid w hw)
    simp [hstrip, hlower]
  rw [normalizeScopes, hraw]
  exact sortedScopes_idem scopes.raw

/-- A name is written back as it was unless the cut left a blank at its end. -/
theorem tokenName_tokenName (name : Str) :
    tokenName (tokenName name) = tokenName name ↔ ∀ c ∈ (strip name)[119]?, isSpace c = false := by
  by_cases hname : strip name = []
  · have hun : tokenName name = lit "unnamed" := by
      unfold tokenName
      cases name with
      | nil => decide +kernel
      | cons c name => simp [hname]
    rw [hun, hname]
    exact iff_of_true (by decide +kernel) (by simp)
  · have hne : name ≠ [] := by
      rintro rfl
      exact hname (by decide +kernel)
    obtain ⟨c, t, hs⟩ := List.exists_cons_of_ne_nil hname
    have hc := head_strip hs
    have hcut : tokenName name = (c :: t).take 120 := by
      unfold tokenName
      simp [hne, hs]
    have htwice : tokenName ((c :: t).take 120) = ((c :: t).take 120).rdropWhile isSpace := by
      have hstrip : strip ((c :: t).take 120) = ((c :: t).take 120).rdropWhile isSpace := by
        unfold strip rstripWhere lstripWhere
        rw [List.take_succ_cons, List.dropWhile_cons_of_neg (by simp [hc])]
      have hkept : ((c :: t).take 120).rdropWhile isSpace ≠ [] := by
        rw [Ne, List.rdropWhile_eq_nil_iff]
        intro hall
        rw [hall c (by simp)] at hc
        cases hc
      have hlen : (((c :: t).take 120).rdropWhile isSpace).length ≤ 120 :=
        (List.rdropWhile_prefix _ _).length_le.trans (List.length_take_le _ _)
      have hfull : ((c :: t).take 120).isEmpty = false := rfl
      unfold tokenName
      simp only [hfull, Bool.false_eq_true, if_false, hstrip]
      rw [List.take_of_length_le hlen, if_neg (by simpa using hkept)]
    rw [hcut, htwice, List.rdropWhile_eq_self_iff, hs]
    rcases Nat.lt_or_ge (c :: t).length 120 with hlen | hlen
    · refine iff_of_true (fun hl => ?_) fun x hx => ?_
      · have hlast := List.getLast?_eq_some_getLast hl
        generalize ((c :: t).take 120).getLast hl = x at hlast ⊢
        rw [List.take_of_length_le (by omega), ← hs] at hlast
        rw [last_strip hlast]
        simp
      · rw [List.getElem?_eq_none (by omega)] at hx
        cases hx
    · have hlast : ((c :: t).take 120).getLast? = (c :: t)[119]? := by
        rw [List.getLast?_eq_getElem?, List.length_take, Nat.min_eq_left hlen, List.getElem?_take]
        rfl
      constructor
      · intro h x hx
        rw [← hlast] at hx
        have hne' : (c :: t).take 120 ≠ [] := by simp
        obtain rfl := Option.some.inj ((List.getLast?_eq_some_getLast hne').symm.trans hx)
        simpa using h hne'
      · intro h hl
        rw [h _ (hlast ▸ List.getLast?_eq_some_getLast hl)]
        simp

/-! ## Over a token's life -/

/-- The columns hold what was asked for last. -/
structure TokenLife.Written (s : TokenLife) : Prop where
  name : s.row.name = tokenName s.name
  scopes : s.row.scopes = scopesCsv s.scopes
  cidrs : s.row.allowedCidrs = allowedCidrsJson s.cidrs

variable {k : Hashes}

theorem TokenLife.Written.update {s : TokenLife} (h : s.Written) (name : Option Str) (scopes : ScopeInput) (cidrs : CidrInput)
    (updateCidrs : Bool) : (tokenStep k s (.update name scopes cidrs updateCidrs)).Written := by
  unfold tokenStep TokenRow.updateApiToken
  by_cases hrevoked : s.row.revokedAt.isSome = true
  · simpa [hrevoked] using h
  · refine ⟨?_, ?_, ?_⟩ <;> cases name <;> cases scopes <;> cases updateCidrs <;>
      simp [hrevoked, h.name, h.scopes, h.cidrs]

theorem TokenLife.Written.step {s : TokenLife} (h : s.Written) (e : TokenEvent) : (tokenStep k s e).Written := by
  cases e with
  | update name scopes cidrs updateCidrs => exact h.update name scopes cidrs updateCidrs
  | rotate now plain =>
    cases hrow : s.row.rotateApiToken k now plain with
    | none => simpa only [tokenStep, hrow] using h
    | some row =>
      simp only [tokenStep, hrow]
      unfold TokenRow.rotateApiToken at hrow
      split at hrow
      · cases hrow
      · cases hrow
        exact ⟨h.name, h.scopes, h.cidrs⟩
  | revoke now =>
    simp only [tokenStep, TokenRow.revokeApiToken]
    split
    · exact ⟨h.name, h.scopes, h.cidrs⟩
    · exact h

theorem tokenRuns_written (id : Nat) (name : Str) (createdBy : Option Nat) (scopes : ScopeInput) (cidrs : CidrInput)
    (expiresAt : Option Nat) (plain : Str) (es : List TokenEvent) :
    (runs (tokenStep k) (createdToken k id name createdBy scopes cidrs expiresAt plain) es).Written :=
  runs_keeps (fun _ e h => h.step e) es _ ⟨rfl, rfl, rfl⟩

theorem lookupActiveToken_live {t : TokenTable} {plain : Str} {row : TokenRow} (h : t.lookupActiveToken k plain = some row) :
    row.revokedAt.isSome = false := by
  unfold TokenTable.lookupActiveToken at h
  split at h
  · cases h
  · split at h
    · cases h
    · split at h
      · cases h
      · rename_i hlive
        cases h
        rw [Bool.or_eq_true_iff, not_or] at hlive
        simpa using hlive.1

/-- A bearer is accepted where the allowlist names no network, or one that holds the client. -/
theorem verifyBearerToken_iff {t : TokenTable} {plain ip : Str} {s : TokenLife} {client : Address} (hs : s.Written)
    (hlook : t.lookupActiveToken k plain = some s.row) (hip : ipAddress (strip ip) = some client) :
    (t.verifyBearerToken k plain (some ip) true).isSome = true ↔
      s.cidrs.networks = [] ∨ ∃ n ∈ s.cidrs.networks, n.contains client = true := by
  unfold TokenTable.verifyBearerToken
  rw [hlook]
  simp only [hs.cidrs, parseAllowedCidrs_allowedCidrsJson, Bool.true_and]
  rw [← clientIpAllowed_iff s.cidrs hip]
  by_cases hnil : normalizeAllowedCidrs s.cidrs = []
  · have hallowed : clientIpAllowed (normalizeAllowedCidrs s.cidrs) (some ip) = true :=
      (clientIpAllowed_iff s.cidrs hip).2 (Or.inl (normalizeAllowedCidrs_eq_nil.1 hnil))
    rw [hnil] at hallowed ⊢
    simp [hallowed]
  · cases hallowed : clientIpAllowed (normalizeAllowedCidrs s.cidrs) (some ip) <;> simp [hnil]

theorem writeBack_iff {s : TokenLife} (hs : s.Written) (hlive : s.row.revokedAt.isSome = false) :
    s.row.writeBack = some s.row ↔ ∀ c ∈ (strip s.name)[119]?, isSpace c = false := by
  have hscopes : scopesCsv (.list (parseScopes s.row.scopes)) = s.row.scopes := by
    rw [hs.scopes, parseScopes_scopesCsv, scopesCsv, normalizeScopes_list]
    rfl
  have hcidrs : allowedCidrsJson (.list (parseAllowedCidrs s.row.allowedCidrs)) = s.row.allowedCidrs := by
    rw [hs.cidrs, parseAllowedCidrs_allowedCidrsJson, allowedCidrsJson_list]
  have hback : s.row.writeBack = some { s.row with name := tokenName s.row.name } := by
    unfold TokenRow.writeBack TokenRow.updateApiToken TokenRow.publicDict
    rw [hlive]
    simp only [Bool.false_eq_true, if_false, if_true, hscopes, hcidrs]
  rw [hback, ← tokenName_tokenName, Option.some.injEq, ← hs.name]
  constructor
  · intro h
    exact congrArg TokenRow.name h
  · intro h
    rw [h]

/-- **A token's restrictions are those that were asked for, exactly when the requests parse.** -/
theorem restricted_iff (k : Hashes) (id : Nat) (name : Str) (createdBy : Option Nat) (scopes : ScopeInput) (cidrs : CidrInput)
    (expiresAt : Option Nat) (secret : Str) (es : List TokenEvent) (t : TokenTable) (plain ip : Str) (client : Address)
    (hlook : t.lookupActiveToken k plain =
      some (runs (tokenStep k) (createdToken k id name createdBy scopes cidrs expiresAt secret) es).row)
    (hip : ipAddress (strip ip) = some client) :
    (runs (tokenStep k) (createdToken k id name createdBy scopes cidrs expiresAt secret) es).Restricted
        (t.verifyBearerToken k plain (some ip) true).isSome client ↔
      (runs (tokenStep k) (createdToken k id name createdBy scopes cidrs expiresAt secret) es).Parses client := by
  have hs := tokenRuns_written (k := k) id name createdBy scopes cidrs expiresAt secret es
  generalize runs (tokenStep k) (createdToken k id name createdBy scopes cidrs expiresAt secret) es = s at hs hlook ⊢
  have hlive := lookupActiveToken_live hlook
  have hverify := verifyBearerToken_iff hs hlook hip
  have hparse : parseScopes s.row.scopes = normalizeScopes s.scopes := by rw [hs.scopes, parseScopes_scopesCsv]
  have hallow : (s.cidrs.entries ≠ [] → ((t.verifyBearerToken k plain (some ip) true).isSome = true ↔
      ∃ n ∈ s.cidrs.networks, n.contains client.unmap = true)) ↔
      (s.cidrs.entries = [] ∨ s.cidrs.networks ≠ [] ∧ (client.unmap = client ∨
        ((∃ n ∈ s.cidrs.networks, n.contains client = true) ↔ ∃ n ∈ s.cidrs.networks, n.contains client.unmap = true))) := by
    rw [hverify, or_iff_not_imp_left (a := s.cidrs.entries = [])]
    refine imp_congr_right fun _ => ?_
    by_cases hnil : s.cidrs.networks = []
    · simp [hnil]
    · simp only [hnil, false_or, ne_eq, not_false_eq_true, true_and]
      constructor
      · exact Or.inr
      · rintro (hsame | h)
        · rw [hsame]
        · exact h
  have hcaps : ∀ x ∈ parseScopes s.row.scopes, x ∈ capabilityScopes → x ≠ scopeRead → x ∈ s.scopes.raw := by
    intro x hx _ hread
    rw [hparse] at hx
    exact (mem_sortedScopes hx).2.resolve_right hread
  constructor
  · rintro ⟨hlist, hfeatures, -, hback⟩
    rw [hparse] at hfeatures
    exact ⟨hallow.1 hlist, (features_iff s.scopes).1 hfeatures, (writeBack_iff hs hlive).1 hback⟩
  · rintro ⟨hlist, hfeatures, hname⟩
    refine ⟨hallow.2 hlist, ?_, hcaps, (writeBack_iff hs hlive).2 hname⟩
    rw [hparse]
    exact (features_iff s.scopes).2 hfeatures

namespace PlainTokens

/-- A token for the addresses of `cidrs` whose name is short. -/
def life (scopes : ScopeInput) (cidrs : CidrInput) : TokenLife :=
  createdToken plainHashes 1 (lit "n8n") none scopes cidrs none (lit "ph_x")

def table (scopes : ScopeInput) (cidrs : CidrInput) : TokenTable := ⟨0, [(life scopes cidrs).row]⟩

def accepts (scopes : ScopeInput) (cidrs : CidrInput) (ip : Str) : Bool :=
  ((table scopes cidrs).verifyBearerToken plainHashes (lit "ph_x") (some ip) true).isSome

/-- 10.1.2.3, and ::ffff:10.1.2.3. -/
def client : Address := .v4 167838211 (by decide)
def mapped : Address := .v6 281470849581571 (by decide) none

end PlainTokens

open PlainTokens in
/-- An update to another network, seen from a client in it. -/
theorem restricted_updated :
    (runs (tokenStep plainHashes) (life (.list [lit "jobs"]) .none)
        [.update none (.list [lit "jobs", lit "feature:os"]) (.text (lit "10.0.0.0/8; nowhere")) true]).Restricted true client := by
  have h := (restricted_iff plainHashes 1 (lit "n8n") none (.list [lit "jobs"]) .none none (lit "ph_x")
    [.update none (.list [lit "jobs", lit "feature:os"]) (.text (lit "10.0.0.0/8; nowhere")) true]
    (table (.list [lit "jobs", lit "feature:os"]) (.text (lit "10.0.0.0/8; nowhere"))) (lit "ph_x") (lit "10.1.2.3") client
    (by decide +kernel) (by decide +kernel)).2
    ⟨Or.inr ⟨by decide +kernel, Or.inl rfl⟩, Or.inr ⟨lit "feature:os", by decide +kernel, by decide⟩, fun c hc => by
      have hshort : (strip (lit "n8n"))[119]? = none := by decide +kernel
      exact absurd (hshort.symm.trans hc) nofun⟩
  have haccepts : ((table (.list [lit "jobs", lit "feature:os"]) (.text (lit "10.0.0.0/8; nowhere"))).verifyBearerToken plainHashes
      (lit "ph_x") (some (lit "10.1.2.3")) true).isSome = true := by decide +kernel
  rwa [haccepts] at h

open PlainTokens in
/-- An allowlist with a typing error admits every client, one that names a client's IPv4 address does not admit the
mapped form of it, and a token for a feature with a typing error acts on all of them. -/
theorem typing_error_widens :
    ¬ (life .none (.text (lit "10.0.0.0/33"))).Restricted (accepts .none (.text (lit "10.0.0.0/33")) (lit "10.1.2.3")) client ∧
      ¬ (life .none (.text (lit "10.1.2.3"))).Restricted (accepts .none (.text (lit "10.1.2.3")) (lit "::ffff:10.1.2.3")) mapped ∧
      ¬ (life (.list [lit "jobs", lit "feature:backups"]) .none).Restricted
        (accepts (.list [lit "jobs", lit "feature:backups"]) .none (lit "10.1.2.3")) client := by
  refine ⟨fun h => ?_, fun h => ?_, fun h => ?_⟩
  · have := h.allowlist (by decide +kernel)
    revert this
    decide +kernel
  · have := h.allowlist (by decide +kernel)
    revert this
    decide +kernel
  · have := h.features (by decide +kernel) (lit "docker") (by decide +kernel)
    revert this
    decide +kernel

end PiHerder.Api
