import PiHerder.Lib.Dict
import PiHerder.Lib.IpAddress
import PiHerder.Lib.Path

/-!
# The address of a client

What the app takes for the address of a client, behind the proxy of the `Caddyfile` or straight at its own port.

| here | there |
| --- | --- |
| `normalizeIpCandidate`, `parseTrustedProxyCidrs` | `services/request_ip.py:32`, `:52` |
| `peerIsTrustedProxy`, `forwardedIpFromHeaders`, `extractClientIp` | `:86`, `:116`, `:134` |
| `requestHeaders`     | `dict(request.headers)` (`:166`): the first line of each name |
| `reverseProxy`       | the two `handle` blocks of the `Caddyfile` (`:46`-`:65`) |

A header line is a name, in any case, and a value.
-/
namespace PiHerder.Api
open Lib Lib.Str Lib.Ip

abbrev Headers := List (Str × Str)

/-- Strip brackets and a trailing port. -/
def normalizeIpCandidate (raw : Str) : Str :=
  let s := strip raw
  let unported :=
    if s.count ':' = 1 then
      match splitOnce ':' s with
      | some (host, port) => if isdigit port then host else s
      | none => s
    else s
  if s.head? = some '[' ∧ ']' ∈ s then (s.drop 1).takeWhile (· != ']') else unported

def parseTrustedProxyCidrs (raw : Str) : List Network :=
  (split ',' (raw.map fun c => if c = ';' then ',' else c)).filterMap fun part =>
    if (strip part).isEmpty then none else ipNetwork (strip part)

def peerIsTrustedProxy (nets : List Network) (peerHost : Str) : Bool :=
  (ipAddress (normalizeIpCandidate peerHost)).any fun addr => nets.any fun n => n.contains addr

/-- `h.get(key)`, empty where there is none. -/
def value (h : Dict Str Str) (key : String) : Str := (h.get? (lit key)).getD []

/-- `val.split(",")[0]`, normalized. -/
def firstHop (val : Str) : Str := normalizeIpCandidate ((split ',' val).headD [])

/-- `h.get(a) or h.get(b)`. -/
def orElse (a b : Str) : Str := if a.isEmpty then b else a

def forwardedIpFromHeaders (headers : Dict Str Str) : Str :=
  let h : Dict Str Str := headers.foldl (fun h kv => Dict.set (lower kv.1) kv.2 h) []
  if !(value h "cf-connecting-ip").isEmpty then firstHop (value h "cf-connecting-ip")
  else if !(value h "true-client-ip").isEmpty then firstHop (value h "true-client-ip")
  else
    let xff := orElse (value h "x-forwarded-for") (value h "x-forwarded_for")
    let xri := orElse (value h "x-real-ip") (value h "x-real_ip")
    if !xff.isEmpty then firstHop xff else if !xri.isEmpty then normalizeIpCandidate xri else []

/-- `extract_client_ip`, with the networks of `PIHERDER_TRUSTED_PROXY_CIDRS`. -/
def extractClientIp (nets : List Network) (headers : Dict Str Str) (peerHost : Str) : Str :=
  let peer := normalizeIpCandidate peerHost
  if peerIsTrustedProxy nets peer then orElse (forwardedIpFromHeaders headers) peer else peer

/-! ## On the wire -/

/-- The values of a header, which is named in lower case here. -/
def headerValues (name : Str) (lines : Headers) : List Str := (lines.filter fun l => lower l.1 == name).map (·.2)

/-- `dict(request.headers)`: the server lowers the names, and a name that comes twice reads its first line. -/
def requestHeaders (lines : Headers) : Dict Str Str :=
  lines.foldl (fun d l => Dict.set (lower l.1) ((headerValues (lower l.1) lines).headD []) d) []

/-- `header_up name value`. -/
def headerUp (name : String) (v : Str) (lines : Headers) : Headers :=
  (lines.filter fun l => lower l.1 != lit name) ++ [(lit name, v)]

/-- The request that goes to the app; `{http.request.header.…}` joins the lines of a header. -/
def reverseProxy (remoteHost host : Str) (lines : Headers) : Headers :=
  let cf := headerValues (lit "cf-connecting-ip") lines
  let up :=
    if cf.isEmpty then headerUp "x-forwarded-for" remoteHost (headerUp "x-real-ip" remoteHost lines)
    else headerUp "cf-connecting-ip" (join ',' cf) (headerUp "x-forwarded-for" (join ',' cf) (headerUp "x-real-ip" (join ',' cf) lines))
  headerUp "x-forwarded-host" host (headerUp "x-forwarded-proto" (lit "https") up)

/-- How a request comes to the app. -/
inductive Route
  /-- To its own port. -/
  | straight
  /-- Through the proxy at this address. -/
  | proxied (proxy : Address) (host : Str)

/-- A TCP peer: the zone of an address, the name of an interface, has no comma, and no blank at its end. -/
structure Peer where
  addr : Address
  comma : ',' ∉ addr.str
  trimmed : strip addr.str = addr.str

/-- `request.client.host` and the headers, as the app gets them. -/
def clientIp (nets : List Network) (peer : Peer) (lines : Headers) : Route → Str
  | .straight => extractClientIp nets (requestHeaders lines) peer.addr.str
  | .proxied proxy host => extractClientIp nets (requestHeaders (reverseProxy peer.addr.str host lines)) proxy.str

/-- A request from an untrusted peer to the app's port, or one through a trusted proxy. -/
def Route.Admitted (nets : List Network) (peer : Peer) : Route → Prop
  | .straight => peerIsTrustedProxy nets peer.addr.str = false
  | .proxied proxy _ => strip proxy.str = proxy.str ∧ peerIsTrustedProxy nets proxy.str = true

/-- The first value of a header. -/
def firstValue (name : String) (lines : Headers) : Str := (headerValues (lit name) lines).headD []

/-- What the client's own headers say its address is, behind the proxy: a header that Cloudflare sets, and, where that
one is there and empty, the names with an underscore. -/
def named (lines : Headers) : Option Str :=
  let cf := headerValues (lit "cf-connecting-ip") lines
  if !(join ',' cf).isEmpty then some (firstHop (join ',' cf))
  else if !(firstValue "true-client-ip" lines).isEmpty then some (firstHop (firstValue "true-client-ip" lines))
  else if cf.isEmpty then none
  else if !(firstValue "x-forwarded_for" lines).isEmpty then some (firstHop (firstValue "x-forwarded_for" lines))
  else some (normalizeIpCandidate (firstValue "x-real_ip" lines))

/-- The headers name no address, or the client's own; a blank one stands for the proxy's. -/
def Route.Honest (peer : Peer) (lines : Headers) : Route → Prop
  | .straight => True
  | .proxied proxy _ => ∀ s, named lines = some s → orElse s proxy.str = peer.addr.str

theorem named_plain {lines : Headers} (hcf : headerValues (lit "cf-connecting-ip") lines = [])
    (htci : firstValue "true-client-ip" lines = []) : named lines = none := by
  simp [named, hcf, htci, join]

/-! ## Reading headers -/

section Headers

/-- Writes that agree on each key leave what they agree on. -/
theorem get?_foldl_set {α K V : Type} [DecidableEq K] {key : α → K} {item : α → V} {val : K → V} {k : K} :
    ∀ (l : List α) (d : Dict K V), (∀ x ∈ l, item x = val (key x)) →
      (k ∈ l.map key → Dict.get? k (l.foldl (fun d x => Dict.set (key x) (item x) d) d) = some (val k)) ∧
        (k ∉ l.map key → Dict.get? k (l.foldl (fun d x => Dict.set (key x) (item x) d) d) = Dict.get? k d)
  | [], d, _ => by simp
  | x :: l, d, h => by
    obtain ⟨hin, hout⟩ := get?_foldl_set (k := k) l (Dict.set (key x) (item x) d) fun y hy => h y (List.mem_cons_of_mem x hy)
    rw [List.foldl_cons, List.map_cons]
    refine ⟨fun hk => ?_, fun hk => ?_⟩
    · by_cases hl : k ∈ l.map key
      · exact hin hl
      · obtain rfl := (List.mem_cons.1 hk).resolve_right hl
        rw [hout hl, Dict.get?_set, if_pos rfl, h x List.mem_cons_self]
    · rw [List.mem_cons, not_or] at hk
      rw [hout hk.2, Dict.get?_set, if_neg hk.1]

theorem mem_foldl_set {α K V : Type} [DecidableEq K] {key : α → K} {item : α → V} {e : K × V} :
    ∀ (l : List α) (d : Dict K V), e ∈ l.foldl (fun d x => Dict.set (key x) (item x) d) d → e ∈ d ∨ ∃ x ∈ l, e = (key x, item x)
  | [], _, h => Or.inl h
  | x :: l, d, h => by
    rcases mem_foldl_set l _ h with h | ⟨y, hy, he⟩
    · rcases Dict.mem_set h with rfl | h
      · exact Or.inr ⟨x, List.mem_cons_self, rfl⟩
      · exact Or.inl h
    · exact Or.inr ⟨y, List.mem_cons_of_mem x hy, he⟩

/-- The app reads the first line of a name. -/
theorem value_requestHeaders (key : String) (lines : Headers) :
    value ((requestHeaders lines).foldl (fun h kv => Dict.set (lower kv.1) kv.2 h) []) key = firstValue key lines := by
  have hitems : ∀ kv ∈ requestHeaders lines, lower kv.1 = kv.1 ∧ kv.2 = (headerValues kv.1 lines).headD [] := by
    intro kv hkv
    rcases mem_foldl_set lines [] hkv with h | ⟨l, -, rfl⟩
    · cases h
    · exact ⟨lower_lower _, rfl⟩
  have hread := @get?_foldl_set _ _ _ _ (fun kv : Str × Str => lower kv.1) (·.2) (fun k => (headerValues k lines).headD []) (lit key)
    (requestHeaders lines) [] fun kv hkv => by rw [(hitems kv hkv).1, (hitems kv hkv).2]
  unfold value firstValue
  by_cases hk : lit key ∈ (requestHeaders lines).map (fun kv => lower kv.1)
  · rw [hread.1 hk]
    rfl
  · rw [hread.2 hk]
    have hnone : lit key ∉ lines.map (fun l => lower l.1) := by
      intro hmem
      have hsome := (@get?_foldl_set _ _ _ _ (fun l : Str × Str => lower l.1) _ (fun k => (headerValues k lines).headD []) (lit key)
        lines [] fun _ _ => rfl).1 hmem
      have hkv := Dict.mem_of_get? hsome
      exact hk (List.mem_map.2 ⟨_, hkv, (hitems _ hkv).1⟩)
    have hempty : headerValues (lit key) lines = [] := by
      unfold headerValues
      rw [List.map_eq_nil_iff, List.filter_eq_nil_iff]
      intro l hl hname
      exact hnone (List.mem_map.2 ⟨l, hl, beq_iff_eq.1 hname⟩)
    rw [hempty]
    rfl

theorem headerValues_headerUp {name : String} {n : Str} (hname : lower (lit name) = lit name) (v : Str) (lines : Headers) :
    headerValues n (headerUp name v lines) = if n = lit name then [v] else headerValues n lines := by
  unfold headerValues headerUp
  rw [List.filter_append, List.map_append, List.filter_filter]
  by_cases hn : n = lit name
  · subst hn
    rw [if_pos rfl]
    simp [hname]
  · rw [if_neg hn, List.filter_cons_of_neg (by simpa [hname] using fun h => hn h.symm)]
    simp only [List.filter_nil, List.map_nil, List.append_nil]
    congr 1
    refine List.filter_congr fun l _ => ?_
    by_cases hl : lower l.1 = n
    · simp [hl, hn]
    · simp [hl]

theorem firstValue_headerUp {name : String} (hname : lower (lit name) = lit name) (key : String) (v : Str) (lines : Headers) :
    firstValue key (headerUp name v lines) = if key = name then v else firstValue key lines := by
  unfold firstValue
  rw [headerValues_headerUp hname]
  by_cases h : key = name
  · rw [if_pos h, if_pos (congrArg String.toList h)]
    rfl
  · rw [if_neg h, if_neg fun hl => h (String.toList_inj.1 hl)]

/-- The headers that the app reads, as the proxy sends them on. -/
theorem firstValue_reverseProxy (remoteHost host : Str) (lines : Headers) (key : String) :
    firstValue key (reverseProxy remoteHost host lines) =
      if key = "x-forwarded-host" then host
      else if key = "x-forwarded-proto" then lit "https"
      else if headerValues (lit "cf-connecting-ip") lines = [] then
        if key = "x-forwarded-for" ∨ key = "x-real-ip" then remoteHost else firstValue key lines
      else if key = "cf-connecting-ip" ∨ key = "x-forwarded-for" ∨ key = "x-real-ip" then
        join ',' (headerValues (lit "cf-connecting-ip") lines)
      else firstValue key lines := by
  unfold reverseProxy
  simp only [List.isEmpty_iff]
  rw [firstValue_headerUp (by decide), firstValue_headerUp (by decide)]
  by_cases hcf : headerValues (lit "cf-connecting-ip") lines = []
  · simp only [if_pos hcf]
    rw [firstValue_headerUp (by decide), firstValue_headerUp (by decide)]
    grind
  · simp only [if_neg hcf]
    rw [firstValue_headerUp (by decide), firstValue_headerUp (by decide), firstValue_headerUp (by decide)]
    by_cases hip : key = "cf-connecting-ip"
    · simp [hip]
    · by_cases hxff : key = "x-forwarded-for"
      · simp [hxff]
      · simp [hip, hxff]

end Headers

/-! ## Writing an address -/

section Text

theorem two_le_count_colon {ip : Nat} (h : ip < 2 ^ 128) : 2 ≤ (ipv6ToString ip).count ':' := by
  have hparse := ipv6FromString_ipv6ToString h
  have hlen := length_split ':' (ipv6ToString ip)
  by_contra hfew
  have hshort : (split ':' (ipv6ToString ip)).length < 3 := by omega
  have hnone : ipv6FromString (ipv6ToString ip) = none := by
    unfold ipv6FromString ipv6Parts
    simp only [hshort, if_true]
    rfl
  rw [hnone] at hparse
  cases hparse

theorem count_colon_str (a : Address) : a.str.count ':' ≠ 1 := by
  cases a with
  | v4 ip h =>
    have hno : ':' ∉ (Address.v4 ip h).str := notMem_ipv4ToString (by decide) (by decide) ip
    rw [List.count_eq_zero_of_not_mem hno]
    decide
  | v6 ip h scope =>
    have htwo := two_le_count_colon h
    cases scope with
    | none => exact fun hone => by rw [show (Address.v6 ip h none).str = ipv6ToString ip from rfl] at hone; omega
    | some scope =>
      intro hone
      rw [show (Address.v6 ip h (some scope)).str = ipv6ToString ip ++ '%' :: scope.1 from rfl, List.count_append] at hone
      omega

theorem address_str_ne_nil (a : Address) : a.str ≠ [] := by
  intro hnil
  have hparse := ipAddress_str a
  rw [hnil] at hparse
  have hnone : ipAddress [] = none := by decide
  rw [hnone] at hparse
  cases hparse

theorem head_str (a : Address) : a.str.head? ≠ some '[' := by
  have hv6 : ∀ ip, (ipv6ToString ip).head? ≠ some '[' := fun ip h =>
    notMem_ipv6ToString (by decide) (by decide) ip (List.mem_of_mem_head? h)
  cases a with
  | v4 ip h => exact fun h => notMem_ipv4ToString (by decide) (by decide) ip (List.mem_of_mem_head? h)
  | v6 ip h scope =>
    cases scope with
    | none => exact hv6 ip
    | some scope =>
      have hne : ipv6ToString ip ≠ [] := List.ne_nil_of_mem (colon_mem_ipv6ToString ip)
      rw [show (Address.v6 ip h (some scope)).str = ipv6ToString ip ++ '%' :: scope.1 from rfl, List.head?_append_of_ne_nil _ hne]
      exact hv6 ip

/-- An address has neither brackets nor a port. -/
theorem normalizeIpCandidate_str {a : Address} (htrim : strip a.str = a.str) : normalizeIpCandidate a.str = a.str := by
  unfold normalizeIpCandidate
  simp only [htrim]
  rw [if_neg fun h => head_str a h.1, if_neg (count_colon_str a)]

theorem firstHop_str (peer : Peer) : firstHop peer.addr.str = peer.addr.str := by
  unfold firstHop
  rw [split_of_notMem peer.comma]
  exact normalizeIpCandidate_str peer.trimmed

theorem orElse_of_ne_nil {a : Str} (h : a ≠ []) (b : Str) : orElse a b = a := by
  unfold orElse
  rw [if_neg (by simpa using h)]

end Text

/-! ## What the app takes -/

section Taken
variable {nets : List Network} {peer : Peer} {lines : Headers} {route : Route}

/-- **Behind the proxy** the app goes by what the client's headers name, and by the client's own address without them. -/
theorem forwarded_reverseProxy (host : Str) : forwardedIpFromHeaders (requestHeaders (reverseProxy peer.addr.str host lines)) =
    (named lines).getD peer.addr.str := by
  have hne := address_str_ne_nil peer.addr
  unfold forwardedIpFromHeaders
  simp only [value_requestHeaders, firstValue_reverseProxy]
  by_cases hcf : headerValues (lit "cf-connecting-ip") lines = []
  · have hfirst : firstValue "cf-connecting-ip" lines = [] := by
      unfold firstValue
      rw [hcf]
      rfl
    by_cases htci : firstValue "true-client-ip" lines = []
    · simp [named, hcf, hfirst, htci, orElse_of_ne_nil hne, hne, firstHop_str, join]
    · simp [named, hcf, hfirst, htci, join]
  · by_cases hjoin : join ',' (headerValues (lit "cf-connecting-ip") lines) = []
    · by_cases htci : firstValue "true-client-ip" lines = []
      · by_cases hxff : firstValue "x-forwarded_for" lines = []
        · by_cases hxri : firstValue "x-real_ip" lines = []
          · have hblank : normalizeIpCandidate [] = [] := by decide
            simp [named, hcf, hjoin, htci, hxff, hxri, orElse, hblank]
          · simp [named, hcf, hjoin, htci, hxff, hxri, orElse]
        · simp [named, hcf, hjoin, htci, hxff, orElse]
      · simp [named, hcf, hjoin, htci]
    · simp [named, hcf, hjoin]

theorem clientIp_straight (h : Route.straight.Admitted nets peer) : clientIp nets peer lines .straight = peer.addr.str := by
  unfold clientIp extractClientIp
  simp only [normalizeIpCandidate_str peer.trimmed]
  rw [if_neg (by rw [Bool.not_eq_true]; exact h)]

theorem clientIp_proxied {proxy : Address} {host : Str} (h : (Route.proxied proxy host).Admitted nets peer) :
    clientIp nets peer lines (.proxied proxy host) = orElse ((named lines).getD peer.addr.str) proxy.str := by
  unfold clientIp extractClientIp
  simp only [normalizeIpCandidate_str h.1, forwarded_reverseProxy]
  rw [if_pos h.2]

/-- **A request has its client's address exactly when its headers name no other.** -/
theorem clientIp_iff (h : route.Admitted nets peer) : clientIp nets peer lines route = peer.addr.str ↔ route.Honest peer lines := by
  cases route with
  | straight => exact iff_of_true (clientIp_straight h) trivial
  | proxied proxy host =>
    rw [clientIp_proxied h]
    unfold Route.Honest
    cases named lines with
    | none => simp [orElse_of_ne_nil (address_str_ne_nil peer.addr)]
    | some s => simp

end Taken

/-- **Two requests of one client** have one address, the client's own, exactly when the headers of neither name another
address. -/
theorem own_address_iff (nets : List Network) (peer : Peer) (lines₁ lines₂ : Headers) (route₁ route₂ : Route)
    (h₁ : route₁.Admitted nets peer) (h₂ : route₂.Admitted nets peer) :
    (clientIp nets peer lines₁ route₁ = clientIp nets peer lines₂ route₂ ∧ clientIp nets peer lines₁ route₁ = peer.addr.str) ↔
      route₁.Honest peer lines₁ ∧ route₂.Honest peer lines₂ := by
  rw [← clientIp_iff h₁, ← clientIp_iff h₂]
  constructor
  · rintro ⟨heq, hown⟩
    exact ⟨hown, heq ▸ hown⟩
  · rintro ⟨hown₁, hown₂⟩
    exact ⟨hown₁.trans hown₂.symm, hown₁⟩

namespace Bridge

/-- The networks of the compose file. -/
def nets : List Network := parseTrustedProxyCidrs (lit "10.0.0.0/8,172.16.0.0/12,192.168.0.0/16,127.0.0.1/32,::1/128")

/-- The proxy at 172.18.0.2, and a client at 203.0.113.9. -/
def proxy : Address := .v4 2886860802 (by decide)
def client : Peer := ⟨.v4 3405803785 (by decide), by decide +kernel, by decide +kernel⟩

def route : Route := .proxied proxy (lit "pi.example.com")

theorem admitted : route.Admitted nets client := ⟨by decide +kernel, by decide +kernel⟩

end Bridge

open Bridge in
theorem own_address_bridge :
    clientIp nets client [(lit "X-Forwarded-For", lit "10.0.0.1")] route = clientIp nets client [] route ∧
      clientIp nets client [(lit "X-Forwarded-For", lit "10.0.0.1")] route = client.addr.str :=
  (own_address_iff nets client [(lit "X-Forwarded-For", lit "10.0.0.1")] [] route route admitted admitted).2
    ⟨fun _ hs => absurd ((named_plain (by decide +kernel) (by decide +kernel)).symm.trans hs) nofun,
      fun _ hs => absurd ((named_plain rfl rfl).symm.trans hs) nofun⟩

open Bridge in
/-- **The client chooses its address** with a header that the proxy passes on. -/
theorem header_names_address :
    clientIp nets client [(lit "True-Client-IP", lit "192.168.1.10")] route = lit "192.168.1.10" ∧
      clientIp nets client [(lit "CF-Connecting-IP", lit "192.168.1.10")] route = lit "192.168.1.10" ∧
      clientIp nets client [] route = lit "203.0.113.9" := by
  refine ⟨by decide +kernel, by decide +kernel, by decide +kernel⟩

end PiHerder.Api
