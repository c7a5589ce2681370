import PiHerder.Lib.Path

/-!
# IP addresses and networks

Addresses and networks of Python's `ipaddress` (`ip_address`, and `ip_network` with `strict=False`), with the texts
they are read from and written to. What is written reads back: `ipAddress_str`, `ipNetwork_str`.

An `Address` holds a number below the bound of its version, and a `Network` an address without host bits.
-/
namespace Lib

/-! ## Numbers in a base -/

/-- The last `k` digits of a number, the highest first. -/
def toBase (b : Nat) : Nat → Nat → List Nat
  | 0, _ => []
  | k + 1, n => toBase b k (n / b) ++ [n % b]

def ofBase (b : Nat) (ds : List Nat) : Nat := ds.foldl (fun n d => n * b + d) 0

@[simp] theorem length_toBase (b : Nat) : ∀ k n, (toBase b k n).length = k
  | 0, _ => rfl
  | k + 1, n => by simp [toBase, length_toBase b k]

theorem mem_toBase {b d : Nat} (hb : 0 < b) : ∀ {k n}, d ∈ toBase b k n → d < b
  | 0, _, h => by simp [toBase] at h
  | k + 1, n, h => by
    rcases List.mem_append.1 h with h | h
    · exact mem_toBase hb h
    · obtain rfl := List.mem_singleton.1 h
      exact Nat.mod_lt n hb

theorem ofBase_append (b : Nat) (ds : List Nat) (d : Nat) : ofBase b (ds ++ [d]) = ofBase b ds * b + d := by
  simp [ofBase, List.foldl_append]

theorem ofBase_toBase {b : Nat} : ∀ {k n}, n < b ^ k → ofBase b (toBase b k n) = n
  | 0, n, h => by simp at h; simp [toBase, ofBase, h]
  | k + 1, n, h => by
    have hq : n / b < b ^ k := Nat.div_lt_of_lt_mul (by rw [Nat.pow_succ, Nat.mul_comm] at h; exact h)
    rw [toBase, ofBase_append, ofBase_toBase hq]
    exact Nat.div_add_mod' n b

namespace Ip
open Str

/-! ## IPv4 -/

/-- `IPv4Address._parse_octet`: no leading zeros. -/
def parseOctet (s : Str) : Option Nat :=
  if isdigit s = false ∨ 3 < s.length ∨ (s ≠ lit "0" ∧ s.head? = some '0') ∨ 255 < int s then none else some (int s)

/-- `IPv4Address._ip_int_from_string`. -/
def ipv4FromString (s : Str) : Option Nat :=
  if (split '.' s).length ≠ 4 then none else ((split '.' s).mapM parseOctet).map (ofBase 256)

/-- `IPv4Address._string_from_ip_int`. -/
def ipv4ToString (n : Nat) : Str := join '.' ((toBase 256 4 n).map ofNat)

/-! ## IPv6 -/

def isHexDigit (c : Char) : Bool := decide ('0' ≤ c ∧ c ≤ '9' ∨ 'a' ≤ c ∧ c ≤ 'f' ∨ 'A' ≤ c ∧ c ≤ 'F')

def hexDigit (c : Char) : Nat :=
  if c ≤ '9' then c.toNat - '0'.toNat else if c ≤ 'F' then c.toNat - 'A'.toNat + 10 else c.toNat - 'a'.toNat + 10

/-- `int(s, 16)` of a string of hexadecimal digits. -/
def hexInt (s : Str) : Nat := s.foldl (fun n c => n * 16 + hexDigit c) 0

/-- `'%x' % n`. -/
def hex (n : Nat) : Str := Nat.toDigits 16 n

/-- `IPv6Address._parse_hextet`. -/
def parseHextet (s : Str) : Option Nat :=
  if s = [] ∨ s.all isHexDigit = false ∨ 4 < s.length then none else some (hexInt s)

/-- A side of the `::`, where the empty part before or behind it stands for nothing. -/
def gapSide (parts : List Str) : List Str := if parts = [[]] then [] else parts

/-- The eight hextets, the zeros of a `::` filled in. -/
def expandHextets (parts : List Str) : Option (List Nat) :=
  let inner := parts.tail.dropLast
  match inner.filter (·.isEmpty) with
  | [] => if parts.length = 8 then parts.mapM parseHextet else none
  | [_] =>
    let gap := inner.findIdx (·.isEmpty) + 1
    let hi := gapSide (parts.take gap)
    let lo := gapSide (parts.drop (gap + 1))
    if 8 ≤ hi.length + lo.length then none
    else do
      let his ← hi.mapM parseHextet
      let los ← lo.mapM parseHextet
      pure (his ++ List.replicate (8 - (hi.length + lo.length)) 0 ++ los)
  | _ => none

/-- The parts between the colons, a dotted quad at the end written as two hextets. -/
def ipv6Parts (s : Str) : Option (List Str) :=
  let parts := split ':' s
  let last := (parts.getLast?).getD []
  if parts.length < 3 then none
  else if '.' ∈ last then
    (ipv4FromString last).map fun n => parts.dropLast ++ [hex (n / 65536 % 65536), hex (n % 65536)]
  else some parts

/-- `IPv6Address._ip_int_from_string`. -/
def ipv6FromString (s : Str) : Option Nat := do
  let parts ← ipv6Parts s
  if 9 < parts.length then none else (expandHextets parts).map (ofBase 65536)

/-- The loop of `_compress_hextets`: the run of zeros that ends here, and the longest so far. -/
structure RunScan where
  index : Nat := 0
  len : Nat := 0
  bestStart : Nat := 0
  bestLen : Nat := 0

def RunScan.step (s : RunScan) (hextet : Str) : RunScan :=
  if hextet = lit "0" then
    let s' : RunScan := { s with index := s.index + 1, len := s.len + 1 }
    if s.bestLen < s.len + 1 then { s' with bestStart := s.index - s.len, bestLen := s.len + 1 } else s'
  else { s with index := s.index + 1, len := 0 }

/-- A side of the `::`, as it is written. -/
def writeSide (parts : List Str) : List Str := if parts = [] then [[]] else parts

/-- `IPv6Address._compress_hextets`. -/
def compressHextets (hextets : List Str) : List Str :=
  let s := hextets.foldl RunScan.step {}
  if 1 < s.bestLen then
    writeSide (hextets.take s.bestStart) ++ [] :: writeSide (hextets.drop (s.bestStart + s.bestLen))
  else hextets

/-- `IPv6Address._string_from_ip_int`. -/
def ipv6ToString (n : Nat) : Str := join ':' (compressHextets ((toBase 65536 8 n).map hex))

/-! ## Addresses -/

/-- A zone: what follows the `%`. -/
abbrev Scope := {s : Str // s ≠ [] ∧ '%' ∉ s ∧ '/' ∉ s}

inductive Address
  | v4 (ip : Nat) (h : ip < 2 ^ 32)
  | v6 (ip : Nat) (h : ip < 2 ^ 128) (scope : Option Scope)
deriving DecidableEq

namespace Address

def ip : Address → Nat
  | v4 ip _ | v6 ip _ _ => ip

def isV6 : Address → Bool
  | v4 .. => false
  | v6 .. => true

/-- `max_prefixlen`. -/
def width : Address → Nat
  | v4 .. => 32
  | v6 .. => 128

/-- The address with its last `k` bits cleared, and no zone. -/
def truncate (k : Nat) : Address → Address
  | v4 ip h => v4 (ip - ip % 2 ^ k) (by omega)
  | v6 ip h _ => v6 (ip - ip % 2 ^ k) (by omega) none

/-- An IPv4-mapped address as its IPv4 address (`ipv4_mapped`). -/
def unmap : Address → Address
  | v4 ip h => v4 ip h
  | v6 ip h scope => if ip / 2 ^ 32 = 0xffff then v4 (ip % 2 ^ 32) (Nat.mod_lt _ (by decide)) else v6 ip h scope

def str : Address → Str
  | v4 ip _ => ipv4ToString ip
  | v6 ip _ none => ipv6ToString ip
  | v6 ip _ (some scope) => ipv6ToString ip ++ '%' :: scope.1

end Address

/-- `IPv4Address(s)`. -/
def ipv4Address (s : Str) : Option Address :=
  (ipv4FromString s).bind fun n => if h : n < 2 ^ 32 then some (.v4 n h) else none

def ipv6Number (s : Str) (scope : Option Scope) : Option Address :=
  (ipv6FromString s).bind fun n => if h : n < 2 ^ 128 then some (.v6 n h scope) else none

/-- `IPv6Address(s)`. -/
def ipv6Address (s : Str) : Option Address :=
  match splitOnce '%' s with
  | none => ipv6Number s none
  | some (addr, scope) =>
    if h : scope ≠ [] ∧ '%' ∉ scope ∧ '/' ∉ scope then ipv6Number addr (some ⟨scope, h⟩) else none

/-- `ipaddress.ip_address`. -/
def ipAddress (s : Str) : Option Address := ipv4Address s <|> ipv6Address s

/-! ## Networks -/

/-- A network: an address that has no bits behind its prefix. -/
structure Network where
  addr : Address
  prefixlen : Nat
  le : prefixlen ≤ addr.width
  masked : addr.ip % 2 ^ (addr.width - prefixlen) = 0
deriving DecidableEq

@[simp] theorem Address.width_truncate (k : Nat) (a : Address) : (a.truncate k).width = a.width := by cases a <;> rfl

@[simp] theorem Address.ip_truncate (k : Nat) (a : Address) : (a.truncate k).ip = a.ip - a.ip % 2 ^ k := by cases a <;> rfl

/-- The network of an address: it is kept where no host bits are set. -/
def Network.of (a : Address) (p : Nat) (h : p ≤ a.width) : Network :=
  if hm : a.ip % 2 ^ (a.width - p) = 0 then ⟨a, p, h, hm⟩
  else ⟨a.truncate (a.width - p), p, by simpa using h, by
    rw [Address.width_truncate, Address.ip_truncate]
    exact Nat.sub_mod_eq_zero_of_mod_eq (by simp)⟩

/-- `_prefix_from_prefix_string`. -/
def prefixOfDigits (width : Nat) (s : Str) : Option Nat :=
  if isdigit s ∧ s.length ≤ 4300 ∧ int s ≤ width then some (int s) else none

/-- `_prefix_from_ip_int`: the length of the prefix this number is the mask of. -/
def prefixOfMask (n : Nat) : Option Nat := (List.range 33).find? fun p => decide (n = 2 ^ 32 - 2 ^ (32 - p))

/-- `_prefix_from_ip_string`: a netmask, else a hostmask. -/
def prefixOfMaskString (s : Str) : Option Nat :=
  (ipv4FromString s).bind fun n => prefixOfMask n <|> prefixOfMask (2 ^ 32 - 1 - n)

/-- `IPv4Network(s, strict=False)` and `IPv6Network(s, strict=False)`: an address and the text of its mask. -/
def networkOf (a : Option Address) (mask : Option Str) : Option Network :=
  a.bind fun a =>
    let p := match mask with
      | none => some a.width
      | some m => prefixOfDigits a.width m <|> if a.isV6 then none else prefixOfMaskString m
    p.bind fun p => if h : p ≤ a.width then some (.of a p h) else none

/-- `ipaddress.ip_network(s, strict=False)`. -/
def ipNetwork (s : Str) : Option Network :=
  match split '/' s with
  | [addr] => networkOf (ipv4Address addr) none <|> networkOf (ipv6Address addr) none
  | [addr, mask] => networkOf (ipv4Address addr) (some mask) <|> networkOf (ipv6Address addr) (some mask)
  | _ => none

namespace Network

def str (n : Network) : Str := n.addr.str ++ '/' :: ofNat n.prefixlen

/-- `addr in network`: of one version, and equal under the netmask. -/
def contains (n : Network) (a : Address) : Bool :=
  a.isV6 == n.addr.isV6 && a.ip - a.ip % 2 ^ (n.addr.width - n.prefixlen) == n.addr.ip

end Network

/-! ## What is written reads back: numbers -/

theorem mapM_map {α β : Type} {f : β → Option α} {g : α → β} : ∀ {l : List α}, (∀ x ∈ l, f (g x) = some x) → (l.map g).mapM f = some l
  | [], _ => rfl
  | x :: xs, h => by
    have hxs := mapM_map fun y hy => h y (List.mem_cons_of_mem x hy)
    simp [List.mapM_cons, h x List.mem_cons_self, hxs]

theorem parseOctet_ofNat : ∀ n < 256, parseOctet (ofNat n) = some n := by decide +kernel

theorem notMem_ofNat {c : Char} (hc : isDigit c = false) (n : Nat) : c ∉ ofNat n := by
  have h := isdigit_ofNat n
  simp only [isdigit, Bool.and_eq_true, List.all_eq_true] at h
  intro hmem
  rw [h.2 c hmem] at hc
  cases hc

theorem ipv4FromString_ipv4ToString {n : Nat} (h : n < 2 ^ 32) : ipv4FromString (ipv4ToString n) = some n := by
  have hne : (toBase 256 4 n).map ofNat ≠ [] := List.ne_nil_of_length_pos (by simp)
  have hdot : ∀ w ∈ (toBase 256 4 n).map ofNat, '.' ∉ w := by
    intro w hw
    obtain ⟨d, -, rfl⟩ := List.mem_map.1 hw
    exact notMem_ofNat (by decide) d
  unfold ipv4FromString ipv4ToString
  rw [split_join hne hdot, List.length_map, length_toBase, if_neg (by decide),
    mapM_map fun d hd => parseOctet_ofNat d (mem_toBase (by decide) hd), Option.map_some, ofBase_toBase (by exact h)]

theorem hexDigit_digitChar : ∀ d < 16, isHexDigit d.digitChar = true ∧ hexDigit d.digitChar = d := by decide

theorem hex_lt {n : Nat} (h : n < 16) : hex n = [n.digitChar] := Nat.toDigits_of_lt_base h

theorem hex_le {n : Nat} (h : 16 ≤ n) : hex n = hex (n / 16) ++ [(n % 16).digitChar] := Nat.toDigits_of_base_le (by decide) h

theorem hex_digits (n : Nat) : (hex n).all isHexDigit = true := by
  induction n using Nat.strongRecOn with
  | ind n ih =>
    rcases Nat.lt_or_ge n 16 with h | h
    · simp [hex_lt h, (hexDigit_digitChar n h).1]
    · have hlast := (hexDigit_digitChar (n % 16) (Nat.mod_lt n (by decide))).1
      rw [hex_le h, List.all_append, ih (n / 16) (by omega)]
      simp [hlast]

theorem hexInt_hex (n : Nat) : hexInt (hex n) = n := by
  induction n using Nat.strongRecOn with
  | ind n ih =>
    rcases Nat.lt_or_ge n 16 with h | h
    · simp [hex_lt h, hexInt, (hexDigit_digitChar n h).2]
    · have hlast := (hexDigit_digitChar (n % 16) (Nat.mod_lt n (by decide))).2
      have hfront := ih (n / 16) (by omega)
      unfold hexInt at hfront ⊢
      rw [hex_le h, List.foldl_append, hfront]
      simp only [List.foldl_cons, List.foldl_nil, hlast]
      omega

theorem hex_ne_nil (n : Nat) : hex n ≠ [] := Nat.toDigits_ne_nil

theorem notMem_hex {c : Char} (hc : isHexDigit c = false) (n : Nat) : c ∉ hex n := by
  intro hmem
  rw [List.all_eq_true.1 (hex_digits n) c hmem] at hc
  cases hc

theorem parseHextet_hex {n : Nat} (h : n < 65536) : parseHextet (hex n) = some n := by
  have hlen : (hex n).length ≤ 4 := (Nat.length_toDigits_le_iff (by decide) (by decide)).2 h
  unfold parseHextet
  rw [if_neg (by simp [hex_ne_nil, hex_digits, hlen]), hexInt_hex]

/-! ## The zeros of a `::` -/

/-- What `compressHextets` knows of the hextets it has seen. -/
structure RunScan.Seen (s : RunScan) (xs : List Str) : Prop where
  index : s.index = xs.length
  run : ∃ a, xs = a ++ List.replicate s.len (lit "0")
  best : ∃ a b, xs = a ++ List.replicate s.bestLen (lit "0") ++ b ∧ a.length = s.bestStart

theorem RunScan.Seen.step {s : RunScan} {xs : List Str} (h : s.Seen xs) (x : Str) : (s.step x).Seen (xs ++ [x]) := by
  obtain ⟨hindex, ⟨a, hrun⟩, ⟨c, d, hbest, hstart⟩⟩ := h
  unfold RunScan.step
  split
  · rename_i hx
    have hnew : xs ++ [x] = a ++ List.replicate (s.len + 1) (lit "0") := by
      rw [List.replicate_succ', ← List.append_assoc, ← hrun, hx]
    simp only
    split
    · refine ⟨by simp [hindex], ⟨a, hnew⟩, ⟨a, [], by rw [List.append_nil]; exact hnew, ?_⟩⟩
      have hlen := congrArg List.length hrun
      rw [List.length_append, List.length_replicate] at hlen
      simp only
      omega
    · exact ⟨by simp [hindex], ⟨a, hnew⟩, ⟨c, d ++ [x], by rw [← List.append_assoc, ← hbest], hstart⟩⟩
  · exact ⟨by simp [hindex], ⟨xs ++ [x], by simp⟩, ⟨c, d ++ [x], by rw [← List.append_assoc, ← hbest], hstart⟩⟩

theorem RunScan.seen (xs : List Str) : (xs.foldl RunScan.step {}).Seen xs := by
  have hfold : ∀ (xs seen : List Str) (s : RunScan), s.Seen seen → (xs.foldl RunScan.step s).Seen (seen ++ xs) := by
    intro xs
    induction xs with
    | nil => intro seen s h; simpa using h
    | cons x xs ih =>
      intro seen s h
      have hnext := ih (seen ++ [x]) (s.step x) (h.step x)
      rwa [List.append_assoc, List.singleton_append] at hnext
  have hnil : RunScan.Seen {} [] := ⟨rfl, ⟨[], rfl⟩, ⟨[], [], rfl, rfl⟩⟩
  simpa using hfold xs [] {} hnil

/-- A compressed address leaves out a run of two zeros or more, or nothing. -/
theorem compressHextets_cases (hs : List Str) : compressHextets hs = hs ∨
    ∃ pre k post, 2 ≤ k ∧ hs = pre ++ List.replicate k (lit "0") ++ post ∧
      compressHextets hs = writeSide pre ++ [] :: writeSide post := by
  obtain ⟨-, -, ⟨a, b, hbest, hstart⟩⟩ := RunScan.seen hs
  unfold compressHextets
  simp only
  split
  · rename_i hlen
    refine Or.inr ⟨a, _, b, hlen, hbest, ?_⟩
    generalize hs.foldl RunScan.step {} = s at hbest hstart hlen
    have htake : hs.take s.bestStart = a := by rw [hbest, List.append_assoc, List.take_left' hstart]
    have hdrop : hs.drop (s.bestStart + s.bestLen) = b := by
      rw [hbest, List.drop_left' (by simp [hstart])]
    rw [htake, hdrop]
  · exact Or.inl rfl

theorem gapSide_writeSide {parts : List Str} (h : ∀ w ∈ parts, w ≠ []) : gapSide (writeSide parts) = parts := by
  unfold writeSide gapSide
  split
  · rename_i hnil; simp [hnil]
  · rw [if_neg]
    rintro rfl
    exact h [] (by simp) rfl

/-- A list with one gap inside, by its sides. -/
theorem expandHextets_gap {pre post : List Nat} (hpre : ∀ n ∈ pre, n < 65536) (hpost : ∀ n ∈ post, n < 65536)
    (hlen : pre.length + post.length < 8) :
    expandHextets (writeSide (pre.map hex) ++ [] :: writeSide (post.map hex)) =
      some (pre ++ List.replicate (8 - (pre.length + post.length)) 0 ++ post) := by
  have hpre' : ∀ w ∈ pre.map hex, w ≠ [] := by simp [hex_ne_nil]
  have hpost' : ∀ w ∈ post.map hex, w ≠ [] := by simp [hex_ne_nil]
  -- the inner parts are those of the left side but its first, the gap, and those of the right but its last
  have hsides : ∀ {side : List Nat}, ∃ x xs, writeSide (side.map hex) = x :: xs ∧ ∀ w ∈ xs, w.isEmpty = false := by
    intro side
    cases side with
    | nil => exact ⟨[], [], rfl, by simp⟩
    | cons n ns => exact ⟨hex n, ns.map hex, rfl, by simp [hex_ne_nil]⟩
  have hback : ∀ w ∈ (writeSide (post.map hex)).dropLast, w.isEmpty = false := by
    cases post with
    | nil => simp [writeSide]
    | cons n ns =>
      intro w hw
      have := hpost' w (List.dropLast_subset _ hw)
      simpa using this
  obtain ⟨x, xs, hx, hxs⟩ := @hsides pre
  obtain ⟨y, ys, hy, -⟩ := @hsides post
  have hinner : (writeSide (pre.map hex) ++ [] :: writeSide (post.map hex)).tail.dropLast =
      xs ++ [] :: (writeSide (post.map hex)).dropLast := by
    rw [hx, hy, List.cons_append, List.tail_cons, List.dropLast_append_of_ne_nil (by simp), List.dropLast_cons_of_ne_nil (by simp)]
  have hfilter : (xs ++ [] :: (writeSide (post.map hex)).dropLast).filter (·.isEmpty) = [[]] := by
    rw [List.filter_append, List.filter_eq_nil_iff.2 (by simpa using hxs), List.filter_cons_of_pos (by rfl),
      List.filter_eq_nil_iff.2 (by simpa using hback)]
    rfl
  have hidx : (xs ++ [] :: (writeSide (post.map hex)).dropLast).findIdx (·.isEmpty) + 1 = (writeSide (pre.map hex)).length := by
    have hno : xs.findIdx (·.isEmpty) = xs.length := List.findIdx_eq_length.2 hxs
    rw [hx, List.findIdx_append, hno, if_neg (Nat.lt_irrefl _)]
    simp [List.findIdx_cons]
  unfold expandHextets
  simp only [hinner, hfilter, hidx]
  have hhi : gapSide ((writeSide (pre.map hex) ++ [] :: writeSide (post.map hex)).take (writeSide (pre.map hex)).length) =
      pre.map hex := by
    rw [List.take_left, gapSide_writeSide hpre']
  have hlo : gapSide ((writeSide (pre.map hex) ++ [] :: writeSide (post.map hex)).drop ((writeSide (pre.map hex)).length + 1)) =
      post.map hex := by
    rw [List.append_cons, List.drop_left' (by simp), gapSide_writeSide hpost']
  rw [hhi, hlo, List.length_map, List.length_map, if_neg (by omega), mapM_map fun n hn => parseHextet_hex (hpre n hn),
    mapM_map fun n hn => parseHextet_hex (hpost n hn)]
  rfl

/-- What `compressHextets` writes is expanded again. -/
theorem expandHextets_compressHextets {ds : List Nat} (hlen : ds.length = 8) (hds : ∀ n ∈ ds, n < 65536) :
    expandHextets (compressHextets (ds.map hex)) = some ds ∧
      3 ≤ (compressHextets (ds.map hex)).length ∧ (compressHextets (ds.map hex)).length ≤ 9 := by
  rcases compressHextets_cases (ds.map hex) with heq | ⟨pre, k, post, hk, hsplit, heq⟩
  · have hinner : (ds.map hex).tail.dropLast.filter (·.isEmpty) = [] := by
      refine List.filter_eq_nil_iff.2 fun w hw => ?_
      have hmem := List.mem_of_mem_tail (List.dropLast_subset _ hw)
      obtain ⟨n, -, rfl⟩ := List.mem_map.1 hmem
      simp [hex_ne_nil]
    rw [heq]
    refine ⟨?_, by simp [hlen], by simp [hlen]⟩
    unfold expandHextets
    simp only [hinner]
    rw [if_pos (by rw [List.length_map, hlen]), mapM_map fun n hn => parseHextet_hex (hds n hn)]
  · obtain ⟨pre', rest', rfl, hpre, hrest⟩ := List.map_eq_append_iff.1 (hsplit.trans (List.append_assoc ..))
    obtain ⟨zeros, post', rfl, hzeros, hpost⟩ := List.map_eq_append_iff.1 hrest
    have hzero : zeros = List.replicate k 0 := by
      have hzlen : zeros.length = k := by simpa using congrArg List.length hzeros
      refine List.eq_replicate_iff.2 ⟨hzlen, fun n hn => ?_⟩
      have h0 : hex n = lit "0" := by
        have hmem : hex n ∈ List.replicate k (lit "0") := hzeros ▸ List.mem_map_of_mem hn
        exact List.eq_of_mem_replicate hmem
      have hval := hexInt_hex n
      rw [h0] at hval
      exact hval.symm
    subst hzero
    simp only [List.length_append, List.length_replicate] at hlen
    rw [heq, ← hpre, ← hpost, expandHextets_gap (fun n hn => hds n (by simp [hn])) (fun n hn => hds n (by simp [hn])) (by omega)]
    have hwrite : ∀ side : List Nat, 1 ≤ (writeSide (side.map hex)).length ∧ (writeSide (side.map hex)).length ≤ max 1 side.length := by
      intro side
      cases side <;> simp [writeSide]
    obtain ⟨hpre1, hpre2⟩ := hwrite pre'
    obtain ⟨hpost1, hpost2⟩ := hwrite post'
    refine ⟨?_, ?_, ?_⟩
    · rw [show 8 - (pre'.length + post'.length) = k by omega, List.append_assoc]
    · simp only [List.length_append, List.length_cons]
      omega
    · simp only [List.length_append, List.length_cons]
      omega

/-- The parts of a written address hold hexadecimal digits only. -/
theorem notMem_compressHextets {c : Char} (hc : isHexDigit c = false) {ds : List Nat} {w : Str}
    (hw : w ∈ compressHextets (ds.map hex)) : c ∉ w := by
  have hdigits : ∀ {v : Str}, v ∈ ds.map hex → c ∉ v := by
    intro v hv
    obtain ⟨n, -, rfl⟩ := List.mem_map.1 hv
    exact notMem_hex hc n
  have hside : ∀ {side : List Str}, (∀ v ∈ side, v ∈ ds.map hex) → w ∈ writeSide side → c ∉ w := by
    intro side hsub hmem
    unfold writeSide at hmem
    split at hmem
    · obtain rfl := List.mem_singleton.1 hmem
      simp
    · exact hdigits (hsub w hmem)
  rcases compressHextets_cases (ds.map hex) with heq | ⟨pre, k, post, -, hsplit, heq⟩
  · exact hdigits (heq ▸ hw)
  · rw [heq] at hw
    rcases List.mem_append.1 hw with hw | hw
    · exact hside (fun v hv => by rw [hsplit]; simp [hv]) hw
    · rcases List.mem_cons.1 hw with rfl | hw
      · simp
      · exact hside (fun v hv => by rw [hsplit]; simp [hv]) hw

theorem ipv6FromString_ipv6ToString {n : Nat} (h : n < 2 ^ 128) : ipv6FromString (ipv6ToString n) = some n := by
  obtain ⟨hexpand, hmin, hmax⟩ := expandHextets_compressHextets (length_toBase 65536 8 n)
    fun d hd => mem_toBase (by decide) hd
  have hne : compressHextets ((toBase 65536 8 n).map hex) ≠ [] := List.ne_nil_of_length_pos (by omega)
  have hsplit : split ':' (ipv6ToString n) = compressHextets ((toBase 65536 8 n).map hex) :=
    split_join hne fun w hw => notMem_compressHextets (by decide) hw
  have hdot : '.' ∉ ((compressHextets ((toBase 65536 8 n).map hex)).getLast?).getD [] := by
    rw [List.getLast?_eq_some_getLast hne]
    exact notMem_compressHextets (by decide) (List.getLast_mem hne)
  have hparts : ipv6Parts (ipv6ToString n) = some (compressHextets ((toBase 65536 8 n).map hex)) := by
    unfold ipv6Parts
    simp only [hsplit]
    rw [if_neg (by omega), if_neg hdot]
  unfold ipv6FromString
  rw [hparts]
  simp only [Option.bind_eq_bind, Option.bind_some]
  rw [if_neg (by omega), hexpand, Option.map_some, ofBase_toBase (by exact h)]

/-! ## What is written reads back: addresses and networks -/

theorem notMem_ipv4ToString {c : Char} (hdot : c ≠ '.') (hc : isDigit c = false) (n : Nat) : c ∉ ipv4ToString n := by
  intro hmem
  rcases mem_join hmem with rfl | ⟨w, hw, hcw⟩
  · exact hdot rfl
  · obtain ⟨d, -, rfl⟩ := List.mem_map.1 hw
    exact notMem_ofNat hc d hcw

theorem notMem_ipv6ToString {c : Char} (hcolon : c ≠ ':') (hc : isHexDigit c = false) (n : Nat) : c ∉ ipv6ToString n := by
  intro hmem
  rcases mem_join hmem with rfl | ⟨w, hw, hcw⟩
  · exact hcolon rfl
  · exact notMem_compressHextets hc hw hcw

/-- A text with a colon is no IPv4 address. -/
theorem ipv4FromString_colon {s : Str} (h : ':' ∈ s) : ipv4FromString s = none := by
  unfold ipv4FromString
  split
  · rfl
  · rw [Option.map_eq_none_iff]
    have hpart : ∃ w ∈ split '.' s, ':' ∈ w := by
      rw [← join_split '.' s] at h
      exact (mem_join h).resolve_left (by decide)
    obtain ⟨w, hw, hcolon⟩ := hpart
    have hbad : parseOctet w = none := by
      unfold parseOctet
      rw [if_pos (Or.inl ?_)]
      unfold isdigit
      rw [Bool.and_eq_false_iff, List.all_eq_false]
      exact Or.inr ⟨':', hcolon, by decide⟩
    -- one bad part is enough
    have hall : ∀ {ps : List Str}, w ∈ ps → ps.mapM parseOctet = none := by
      intro ps
      induction ps with
      | nil => intro h; cases h
      | cons p ps ih =>
        intro hmem
        rcases List.mem_cons.1 hmem with rfl | hmem
        · simp [List.mapM_cons, hbad]
        · rw [List.mapM_cons, ih hmem]
          cases parseOctet p <;> rfl
    exact hall hw

theorem colon_mem_ipv6ToString (n : Nat) : ':' ∈ ipv6ToString n := by
  obtain ⟨-, hmin, -⟩ := expandHextets_compressHextets (length_toBase 65536 8 n) fun d hd => mem_toBase (by decide) hd
  unfold ipv6ToString
  generalize compressHextets ((toBase 65536 8 n).map hex) = ps at hmin
  match ps, hmin with
  | p :: q :: ps, _ => simp [join]

theorem ipv4Address_str {ip : Nat} (h : ip < 2 ^ 32) : ipv4Address (ipv4ToString ip) = some (.v4 ip h) := by
  unfold ipv4Address
  rw [ipv4FromString_ipv4ToString h, Option.bind_some, dif_pos h]

theorem ipv6Address_str {ip : Nat} (h : ip < 2 ^ 128) (scope : Option Scope) :
    ipv6Address (Address.str (.v6 ip h scope)) = some (.v6 ip h scope) := by
  have hnum : ∀ scope, ipv6Number (ipv6ToString ip) scope = some (.v6 ip h scope) := by
    intro scope
    unfold ipv6Number
    rw [ipv6FromString_ipv6ToString h, Option.bind_some, dif_pos h]
  have hpercent : '%' ∉ ipv6ToString ip := notMem_ipv6ToString (by decide) (by decide) ip
  cases scope with
  | none =>
    have hsplit : splitOnce '%' (Address.str (.v6 ip h none)) = none := if_neg hpercent
    unfold ipv6Address
    rw [hsplit]
    exact hnum none
  | some scope =>
    have hsplit : splitOnce '%' (Address.str (.v6 ip h (some scope))) = some (ipv6ToString ip, scope.1) :=
      splitOnce_append_cons hpercent scope.1
    unfold ipv6Address
    rw [hsplit]
    simp only
    rw [dif_pos scope.2]
    exact hnum (some scope)

theorem ipv4Address_v6 {ip : Nat} (h : ip < 2 ^ 128) (scope : Option Scope) : ipv4Address (Address.str (.v6 ip h scope)) = none := by
  have hcolon : ':' ∈ Address.str (.v6 ip h scope) := by
    cases scope with
    | none => exact colon_mem_ipv6ToString ip
    | some scope => exact List.mem_append_left _ (colon_mem_ipv6ToString ip)
  unfold ipv4Address
  rw [ipv4FromString_colon hcolon]
  rfl

/-- **An address reads back.** -/
theorem ipAddress_str (a : Address) : ipAddress a.str = some a := by
  unfold ipAddress
  cases a with
  | v4 ip h =>
    rw [show Address.str (.v4 ip h) = ipv4ToString ip from rfl, ipv4Address_str h]
    rfl
  | v6 ip h scope =>
    rw [ipv4Address_v6 h scope, ipv6Address_str h scope]
    rfl

theorem slash_notMem_str (a : Address) : '/' ∉ a.str := by
  cases a with
  | v4 ip h => exact notMem_ipv4ToString (by decide) (by decide) ip
  | v6 ip h scope =>
    have hnum : '/' ∉ ipv6ToString ip := notMem_ipv6ToString (by decide) (by decide) ip
    cases scope with
    | none => exact hnum
    | some scope => simp [Address.str, hnum, scope.2.2.2]

theorem prefixOfDigits_ofNat {w p : Nat} (h : p ≤ w) (hw : w ≤ 128) : prefixOfDigits w (ofNat p) = some p := by
  have hlen : (ofNat p).length ≤ 4300 :=
    ((Nat.length_toDigits_le_iff (by decide) (by decide)).2 (by omega : p < 10 ^ 3)).trans (by decide)
  unfold prefixOfDigits
  rw [if_pos ⟨isdigit_ofNat p, hlen, by rwa [int_ofNat]⟩, int_ofNat]

theorem networkOf_ofNat (n : Network) : networkOf (some n.addr) (some (ofNat n.prefixlen)) = some n := by
  have hw : n.addr.width ≤ 128 := by
    cases n.addr with
    | v4 => exact (by decide : 32 ≤ 128)
    | v6 => exact Nat.le_refl 128
  unfold networkOf
  simp only [Option.bind_some]
  rw [prefixOfDigits_ofNat n.le hw]
  change (if h : n.prefixlen ≤ n.addr.width then some (Network.of n.addr n.prefixlen h) else none) = some n
  rw [dif_pos n.le, Network.of, dif_pos n.masked]

/-- **A network reads back.** -/
theorem ipNetwork_str (n : Network) : ipNetwork n.str = some n := by
  have hp : '/' ∉ ofNat n.prefixlen := notMem_ofNat (by decide) _
  unfold ipNetwork Network.str
  rw [split_append_cons, split_of_notMem (slash_notMem_str n.addr), split_of_notMem hp]
  simp only [List.singleton_append]
  have hnet := networkOf_ofNat n
  cases haddr : n.addr with
  | v4 ip h =>
    rw [haddr] at hnet
    rw [show Address.str (.v4 ip h) = ipv4ToString ip from rfl, ipv4Address_str h, hnet]
    rfl
  | v6 ip h scope =>
    rw [haddr] at hnet
    rw [ipv4Address_v6 h scope, ipv6Address_str h scope, hnet]
    rfl

theorem str_ne_nil (n : Network) : n.str ≠ [] := by simp [Network.str]

/-- A blank is no part of a number. -/
theorem isSpace_plain {c : Char} (h : isSpace c = true) : isDigit c = false ∧ isHexDigit c = false ∧ c ≠ ':' ∧ c ≠ '.' := by
  have hne : ∀ d : Char, isSpace d = false → c ≠ d := by
    rintro d hd rfl
    rw [h] at hd
    cases hd
  have hrange : ∀ n, 48 ≤ n → n ≤ 102 → c.toNat ≠ n := by
    intro n hlo hhi hn
    simp only [isSpace, hn, Bool.or_eq_true, Bool.and_eq_true, decide_eq_true_eq, beq_iff_eq] at h
    omega
  have hcode : ∀ d : Char, (d ≤ c ↔ d.toNat ≤ c.toNat) ∧ (c ≤ d ↔ c.toNat ≤ d.toNat) := fun d =>
    ⟨by rw [Char.le_def, UInt32.le_iff_toNat_le]; rfl, by rw [Char.le_def, UInt32.le_iff_toNat_le]; rfl⟩
  have hcodes : '0'.toNat = 48 ∧ '9'.toNat = 57 ∧ 'a'.toNat = 97 ∧ 'f'.toNat = 102 ∧ 'A'.toNat = 65 ∧ 'F'.toNat = 70 := by decide
  have hno : ¬ (48 ≤ c.toNat ∧ c.toNat ≤ 102) := fun hc => hrange c.toNat hc.1 hc.2 rfl
  refine ⟨?_, ?_, hne ':' (by decide), hne '.' (by decide)⟩
  · simp only [isDigit, decide_eq_false_iff_not, (hcode '0').1, (hcode '9').2]
    omega
  · simp only [isHexDigit, decide_eq_false_iff_not, (hcode '0').1, (hcode '9').2, (hcode 'a').1, (hcode 'f').2, (hcode 'A').1,
      (hcode 'F').2]
    omega

/-- A written network has no blanks at its ends. -/
theorem strip_str (n : Network) : strip n.str = n.str := by
  refine strip_eq_self (fun c hc => ?_) fun c hc => ?_
  · by_contra hspace
    obtain ⟨hdigit, hhex, hcolon, hdot⟩ := isSpace_plain (Bool.not_eq_false _ ▸ hspace)
    -- the first character is one of the address's number
    have hnum : ∀ {s : Str}, s ≠ [] → c ∉ s → ∀ t : Str, (s ++ t).head? ≠ some c := by
      rintro s hs hcs t hhead
      rw [List.head?_append_of_ne_nil _ hs] at hhead
      exact hcs (List.mem_of_mem_head? hhead)
    have hv4 : ∀ ip, ipv4ToString ip ≠ [] := fun ip h => by
      have hlen := length_toBase 256 4 ip
      unfold ipv4ToString at h
      match hds : toBase 256 4 ip, hlen with
      | d :: e :: ds, _ => simp [hds, join] at h
    have hv6 : ∀ ip, ipv6ToString ip ≠ [] := fun ip h => by
      have := colon_mem_ipv6ToString ip
      simp [h] at this
    unfold Network.str at hc
    cases haddr : n.addr with
    | v4 ip h =>
      rw [haddr] at hc
      exact hnum (hv4 ip) (notMem_ipv4ToString hdot hdigit ip) _ hc
    | v6 ip h scope =>
      rw [haddr] at hc
      cases scope with
      | none => exact hnum (hv6 ip) (notMem_ipv6ToString hcolon hhex ip) _ hc
      | some scope =>
        rw [Address.str, List.append_assoc] at hc
        exact hnum (hv6 ip) (notMem_ipv6ToString hcolon hhex ip) _ hc
  · by_contra hspace
    obtain ⟨hdigit, -, -, -⟩ := isSpace_plain (Bool.not_eq_false _ ▸ hspace)
    have hlast : c ∈ ofNat n.prefixlen := by
      have hne : ofNat n.prefixlen ≠ [] := Nat.toDigits_ne_nil
      unfold Network.str at hc
      rw [List.append_cons, List.getLast?_append_of_ne_nil _ hne] at hc
      exact List.mem_of_mem_getLast? hc
    exact notMem_ofNat hdigit _ hlast

/-! ## Membership -/

/-- A network holds the addresses of its version that share its prefix. -/
theorem Network.contains_iff {n : Network} {a : Address} : n.contains a = true ↔
    a.isV6 = n.addr.isV6 ∧ a.ip / 2 ^ (n.addr.width - n.prefixlen) = n.addr.ip / 2 ^ (n.addr.width - n.prefixlen) := by
  have hpos : 0 < 2 ^ (n.addr.width - n.prefixlen) := Nat.two_pow_pos _
  have hn := n.masked
  unfold Network.contains
  generalize 2 ^ (n.addr.width - n.prefixlen) = m at hpos hn
  rw [Bool.and_eq_true, beq_iff_eq, beq_iff_eq]
  have ha : a.ip - a.ip % m = m * (a.ip / m) := by have := Nat.div_add_mod a.ip m; omega
  have hnet : n.addr.ip = m * (n.addr.ip / m) := by have := Nat.div_add_mod n.addr.ip m; omega
  refine and_congr_right fun _ => ?_
  rw [ha]
  constructor
  · intro h
    exact Nat.eq_of_mul_eq_mul_left hpos (h.trans hnet)
  · intro h
    rw [h, ← hnet]

/-! ## Subnets -/

namespace Network

/-- `num_addresses`. -/
def numAddresses (n : Network) : Nat := 2 ^ (n.addr.width - n.prefixlen)

/-- `broadcast_address`, as a number. -/
def broadcast (n : Network) : Nat := n.addr.ip + (n.numAddresses - 1)

/-- `a.subnet_of(b)`, for networks of one version. An address is `<=` another if it is smaller, or the same with its zone. -/
def subnetOf (a b : Network) : Bool :=
  (decide (b.addr.ip < a.addr.ip) || decide (b.addr = a.addr)) && decide (a.broadcast ≤ b.broadcast)

/-- A network is an interval. -/
theorem contains_iff_between {n : Network} {a : Address} :
    n.contains a = true ↔ a.isV6 = n.addr.isV6 ∧ n.addr.ip ≤ a.ip ∧ a.ip ≤ n.broadcast := by
  have hpos : 0 < n.numAddresses := Nat.two_pow_pos _
  have hmasked : n.addr.ip % n.numAddresses = 0 := n.masked
  rw [contains_iff]
  refine and_congr_right fun _ => ?_
  change a.ip / n.numAddresses = n.addr.ip / n.numAddresses ↔ _
  unfold broadcast
  have hnet : n.numAddresses * (n.addr.ip / n.numAddresses) = n.addr.ip := by
    have := Nat.div_add_mod n.addr.ip n.numAddresses
    omega
  rw [Nat.div_eq_iff hpos]
  rw [Nat.mul_comm] at hnet
  rw [hnet]
  omega

/-- **What is in a subnet is in the network.** -/
theorem contains_of_subnetOf {a b : Network} {x : Address} (hversion : a.addr.isV6 = b.addr.isV6) (h : a.subnetOf b = true)
    (hx : a.contains x = true) : b.contains x = true := by
  rw [contains_iff_between] at hx ⊢
  simp only [subnetOf, Bool.and_eq_true, Bool.or_eq_true, decide_eq_true_eq] at h
  obtain ⟨hlow, hhigh⟩ := h
  have hle : b.addr.ip ≤ a.addr.ip := by
    rcases hlow with hlow | hlow
    · exact hlow.le
    · exact (congrArg Address.ip hlow).le
  exact ⟨hx.1.trans hversion, hle.trans hx.2.1, hx.2.2.trans hhigh⟩

end Network

/-! ## The characters of an address -/

/-- What does not stand in an address before its zone, nor between an address and a prefix. -/
def Foreign (c : Char) : Prop := isHexDigit c = false ∧ isDigit c = false ∧ c ≠ ':' ∧ c ≠ '.' ∧ c ≠ '%' ∧ c ≠ '/'

instance (c : Char) : Decidable (Foreign c) := inferInstanceAs (Decidable (_ ∧ _))

def Address.scope : Address → Option Scope
  | .v4 .. => none
  | .v6 _ _ scope => scope

theorem Address.notMem_str {c : Char} (hc : Foreign c) {a : Address} (hscope : ∀ scope ∈ a.scope, c ∉ scope.1) : c ∉ a.str := by
  obtain ⟨hhex, hdigit, hcolon, hdot, hpercent, -⟩ := hc
  cases a with
  | v4 ip h => exact notMem_ipv4ToString hdot hdigit ip
  | v6 ip h scope =>
    cases scope with
    | none => exact notMem_ipv6ToString hcolon hhex ip
    | some scope =>
      have hzone : c ∉ scope.1 := hscope scope rfl
      simp [Address.str, notMem_ipv6ToString hcolon hhex ip, hpercent, hzone]

/-- A zone is read off the text. -/
theorem scope_ipAddress {s : Str} {a : Address} (h : ipv4Address s = some a ∨ ipv6Address s = some a) :
    ∀ scope ∈ a.scope, ∀ c ∈ scope.1, c ∈ s := by
  have hnumber : ∀ {s : Str} {zone : Option Scope} {a : Address}, ipv6Number s zone = some a → a.scope = zone := by
    intro s zone a h
    simp only [ipv6Number, Option.bind_eq_some_iff] at h
    obtain ⟨n, -, h⟩ := h
    split at h
    · cases h
      rfl
    · cases h
  intro scope hscope c hc
  rcases h with h | h
  · simp only [ipv4Address, Option.bind_eq_some_iff] at h
    obtain ⟨n, -, h⟩ := h
    split at h
    · cases h
      cases hscope
    · cases h
  · unfold ipv6Address at h
    split at h
    · rw [hnumber h] at hscope
      cases hscope
    · rename_i addr zone hsplit
      split at h
      · rw [hnumber h] at hscope
        obtain rfl := Option.some.inj hscope
        unfold splitOnce at hsplit
        split at hsplit
        · cases hsplit
          exact List.dropWhile_sublist _ |>.subset (List.mem_of_mem_tail hc)
        · cases hsplit
      · cases h

theorem notMem_networkOf {c : Char} (hc : Foreign c) {a : Option Address} {mask : Option Str} {n : Network}
    (h : networkOf a mask = some n) (ha : ∀ x ∈ a, ∀ scope ∈ x.scope, c ∉ scope.1) : c ∉ n.str := by
  have haddr : ∀ scope ∈ n.addr.scope, c ∉ scope.1 := by
    simp only [networkOf, Option.bind_eq_some_iff] at h
    obtain ⟨x, hx, p, -, h⟩ := h
    split at h
    · cases h
      unfold Network.of
      split
      · exact ha x hx
      · cases x <;> exact fun _ h => nomatch h
    · cases h
  have hnum : c ∉ ofNat n.prefixlen := notMem_ofNat hc.2.1 _
  simp [Network.str, Address.notMem_str hc haddr, hc.2.2.2.2.2, hnum]

theorem notMem_ipNetwork {c : Char} (hc : Foreign c) {s : Str} {n : Network} (h : ipNetwork s = some n) (hs : c ∉ s) : c ∉ n.str := by
  have hpart : ∀ {addr : Str} {mask : Option Str}, (∀ x ∈ addr, x ∈ s) →
      (networkOf (ipv4Address addr) mask <|> networkOf (ipv6Address addr) mask) = some n → c ∉ n.str := by
    intro addr mask hsub h
    have hzone : ∀ {a : Option Address}, (a = ipv4Address addr ∨ a = ipv6Address addr) → ∀ x ∈ a, ∀ scope ∈ x.scope, c ∉ scope.1 := by
      intro a ha x hx scope hscope hmem
      refine hs (hsub c (scope_ipAddress (s := addr) (a := x) ?_ scope hscope c hmem))
      rcases ha with rfl | rfl
      · exact Or.inl hx
      · exact Or.inr hx
    cases h4 : networkOf (ipv4Address addr) mask with
    | some m =>
      rw [h4] at h
      cases h
      exact notMem_networkOf hc h4 (hzone (Or.inl rfl))
    | none =>
      rw [h4] at h
      exact notMem_networkOf hc h (hzone (Or.inr rfl))
  have hsub : ∀ p ∈ split '/' s, ∀ x ∈ p, x ∈ s := fun p hp x hx => mem_of_mem_split hp hx
  unfold ipNetwork at h
  split at h
  · rename_i addr heq
    exact hpart (hsub addr (by simp [heq])) h
  · rename_i addr mask heq
    exact hpart (hsub addr (by simp [heq])) h
  · cases h

/-! ## A foreign first character -/

section Foreign
variable {d : Char} (hd : Foreign d) (s : Str)
include hd

theorem ipv4FromString_foreign : ipv4FromString (d :: s) = none := by
  obtain ⟨w, ws, hsplit⟩ := split_cons_of_ne hd.2.2.2.1 s
  have hbad : parseOctet (d :: w) = none := if_pos (Or.inl (by simp [isdigit, hd.2.1]))
  unfold ipv4FromString
  rw [hsplit, List.mapM_cons, hbad]
  exact ite_self none

theorem parseHextet_foreign : parseHextet (d :: s) = none := if_pos (Or.inr (Or.inl (by simp [hd.1])))

theorem expandHextets_foreign (parts : List Str) : expandHextets ((d :: s) :: parts) = none := by
  have hmapM : ∀ ps : List Str, ((d :: s) :: ps).mapM parseHextet = none := by
    intro ps
    rw [List.mapM_cons, parseHextet_foreign hd]
    rfl
  have hgap : ∀ k, gapSide (((d :: s) :: parts).take (k + 1)) = (d :: s) :: parts.take k := by
    intro k
    rw [List.take_succ_cons, gapSide, if_neg (by simp)]
  unfold expandHextets
  dsimp only
  split
  · rw [hmapM]
    exact ite_self none
  · rw [hgap, hmapM]
    exact ite_self none
  · rfl

theorem ipv6FromString_foreign : ipv6FromString (d :: s) = none := by
  obtain ⟨w, ws, hsplit⟩ := split_cons_of_ne hd.2.2.1 s
  have hparts : ∀ parts ∈ ipv6Parts (d :: s), ∃ rest, parts = (d :: w) :: rest := by
    intro parts hparts
    unfold ipv6Parts at hparts
    simp only [hsplit] at hparts
    split at hparts
    · cases hparts
    · rename_i hlen
      split at hparts
      · obtain ⟨n, -, rfl⟩ := Option.map_eq_some_iff.1 hparts
        have hne : ws ≠ [] := by
          rintro rfl
          simp at hlen
        rw [List.dropLast_cons_of_ne_nil hne]
        exact ⟨_, rfl⟩
      · cases hparts
        exact ⟨ws, rfl⟩
  unfold ipv6FromString
  cases hp : ipv6Parts (d :: s) with
  | none => rfl
  | some parts =>
    obtain ⟨rest, rfl⟩ := hparts parts hp
    simp only [Option.bind_eq_bind, Option.bind_some, expandHextets_foreign hd w rest, Option.map_none, ite_self]

theorem ipv4Address_foreign : ipv4Address (d :: s) = none := by
  rw [ipv4Address, ipv4FromString_foreign hd]
  rfl

theorem ipv6Address_foreign : ipv6Address (d :: s) = none := by
  have hnumber : ∀ (t : Str) (zone : Option Scope), ipv6Number (d :: t) zone = none := by
    intro t zone
    rw [ipv6Number, ipv6FromString_foreign hd]
    rfl
  unfold ipv6Address splitOnce
  split
  · exact hnumber s none
  · rename_i addr zone hsplit
    split at hsplit
    · cases hsplit
      rw [List.takeWhile_cons_of_pos (by simpa using hd.2.2.2.2.1)]
      split
      · exact hnumber _ _
      · rfl
    · cases hsplit

theorem ipNetwork_foreign : ipNetwork (d :: s) = none := by
  obtain ⟨w, ws, hsplit⟩ := split_cons_of_ne hd.2.2.2.2.2 s
  have hnone : ∀ mask, networkOf none mask = none := fun _ => rfl
  unfold ipNetwork
  rw [hsplit]
  split
  · rename_i heq
    cases heq
    rw [ipv4Address_foreign hd, ipv6Address_foreign hd, hnone]
    rfl
  · rename_i heq
    cases heq
    rw [ipv4Address_foreign hd, ipv6Address_foreign hd, hnone]
    rfl
  · rfl

end Foreign

end Ip
end Lib
