import PiHerder.Lib.IpAddress
import PiHerder.Lib.Regex

/-!
# Published ports

What `docker ps` prints of a container's ports, and what is read of it.

| here | there |
| --- | --- |
| `BIND`, `ARROW`, `BARE` | the expressions of `dns_fabric/ports.py` (11–17) |
| `chunks`, `parsePublishedPorts` | `parse_published_ports` (125–195); `once` is its `seen` |
| `normProto`, `portRows`, `dockerPublishedRows` | `_norm_proto`, `_docker_published_rows` (`dns_fabric/host_ports.py` 143–212) |
| `portsUsed`, `destUsedPorts` | `_dest_used_ports` (`service_migrate/preflight.py` 658–684) |
| `portsList`, `shown` | what `docker_management.py` (1247–1300) keeps of the column |

Of a row of the port inventory there is the port, not its owner and its role.
-/
namespace PiHerder.Docker
open Lib Lib.Str Lib.Regex

/-! ## The code -/

def bindClass (c : Char) : Bool := Ip.isHexDigit c || c == ':'

def BIND : Regex :=
  alt (seq (thrice (seq (times isDigit 1 3) (char '.'))) (times isDigit 1 3))
    (alt (seq (opt (char '[')) (seq (many bindClass) (opt (char ']')))) (char '*'))

def HOST : Regex :=
  seq (opt (seq (group (lit "bind") BIND) (char ':'))) (seq (group (lit "host") (times isDigit 1 5)) (seq (char '-') (char '>')))

def PROTO : Regex := opt (seq (char '/') (group (lit "proto") (alt (word (lit "tcp")) (word (lit "udp")))))

def ARROW : Regex := seq HOST (seq (group (lit "container") (times isDigit 1 5)) PROTO)

def BARE : Regex := seq (group (lit "port") (times isDigit 1 5)) PROTO

structure PortMapping where
  host : Str
  container : Str
  proto : Str
  bind : Str
  label : Str
  published : Bool
deriving DecidableEq, Repr

/-- `ports` of a container: no list, a list of texts, or a text. -/
inductive PortsField
  | absent
  | list (items : List Str)
  | text (s : Str)

def chunks (portsDisplay : Str) (ports : PortsField) : List Str :=
  (if strip portsDisplay ∈ [[], lit "—", lit "-"] then [] else [portsDisplay]) ++
    match ports with
    | .absent => []
    | .list items => items.filter fun p => decide (strip p ≠ [])
    | .text s => if strip s ≠ [] ∧ s ∉ [lit "—", lit "-"] then [s] else []

/-- `m.group("proto") or "tcp"`, in lower case. -/
def protoOf (m : Hit) : Str := lower (if (m.group (lit "proto")).getD [] = [] then lit "tcp" else (m.group (lit "proto")).getD [])

def isBracket (c : Char) : Bool := c == '[' || c == ']'

def publishedMapping (bind host container proto : Str) : PortMapping where
  host := host
  container := container
  proto := proto
  bind := bind
  label := (if bind ∈ [lit "*", lit "0.0.0.0", lit "::", []] then [] else bind ++ lit ":") ++ host ++ lit "→" ++ container ++ lit "/" ++ proto
  published := true

/-- `(bind or "").strip("[]") or "*"`. -/
def bindOf (bind : Option Str) : Str :=
  let bare := rstripWhere isBracket (lstripWhere isBracket (bind.getD []))
  if bare = [] then lit "*" else bare

def arrowMapping (m : Hit) : PortMapping :=
  publishedMapping (bindOf (m.group (lit "bind"))) ((m.group (lit "host")).getD []) ((m.group (lit "container")).getD []) (protoOf m)

def arrowKey (p : PortMapping) : Str := p.bind ++ lit ":" ++ p.host ++ lit "->" ++ p.container ++ lit "/" ++ p.proto

def bareMapping (m : Hit) : PortMapping :=
  let port := (m.group (lit "port")).getD []
  ⟨port, port, protoOf m, lit "*", port ++ lit "/" ++ protoOf m, false⟩

def bareKey (p : PortMapping) : Str := p.host ++ lit "/" ++ p.proto

/-- The first with each key. -/
def once {α : Type} (key : α → Str) : List Str → List α → List α
  | _, [] => []
  | seen, x :: xs => if key x ∈ seen then once key seen xs else x :: once key (key x :: seen) xs

def parsePublishedPorts (portsDisplay : Str) (ports : PortsField) : List PortMapping :=
  let text := (lit ", ").intercalate (chunks portsDisplay ports)
  if strip text = [] then []
  else
    let out := once arrowKey [] ((ARROW.finditer text).map arrowMapping)
    if out ≠ [] then out.take 16
    else (once bareKey [] (((BARE.finditer text).map bareMapping).filter fun p => decide (p.host ≠ lit "22"))).take 16

structure Container where
  portsDisplay : Str
  ports : PortsField
  placeholder : Bool

structure PortInventory where
  projects : List (List Container)
  orphanContainers : List Container

def portsUsed (c : Container) : List (Str × Str) :=
  ((parsePublishedPorts c.portsDisplay c.ports).map fun p => (p.host, p.proto)).filter fun p => decide (p.1 ≠ [])

def destUsedPorts (inv : PortInventory) : List (Str × Str) :=
  (inv.projects.flatMap fun p => (p.filter fun c => !c.placeholder).flatMap portsUsed) ++ inv.orphanContainers.flatMap portsUsed

structure PortRow where
  hostPort : Nat
  container : Str
  proto : Str
  bind : Str
  label : Str
deriving DecidableEq, Repr

def normProto (proto : Str) : Str :=
  let p := lower (strip (if proto = [] then lit "tcp" else proto))
  if p ∈ [lit "tcp", lit "udp"] then p else lit "tcp"

def portRows (c : Container) : List PortRow :=
  (parsePublishedPorts c.portsDisplay c.ports).filterMap fun p =>
    if p.published ∧ isdigit p.host then some ⟨int p.host, p.container, normProto p.proto, p.bind, p.label⟩ else none

def PortRow.key (r : PortRow) : Str := Str.ofNat r.hostPort ++ lit "/" ++ r.proto

def dockerPublishedRows (inv : PortInventory) : List PortRow :=
  once PortRow.key [] ((inv.projects.flatten ++ inv.orphanContainers).flatMap portRows)

def portsList (raw : Str) : List Str := ((split ',' raw).map strip).filter fun p => decide (p ≠ [])

def shown (raw : Str) : Container := ⟨if raw = [] then lit "—" else raw, .list (portsList raw), false⟩

/-! ## What is printed -/

inductive Proto | tcp | udp | sctp
deriving DecidableEq, Repr

def Proto.text : Proto → Str
  | tcp => lit "tcp"
  | udp => lit "udp"
  | sctp => lit "sctp"

/-- The address of a binding, in brackets or not. -/
abbrev Bind := {b : Str // ∀ c ∈ b, bindClass c = true ∨ c ∈ ['.', '[', ']', '*']}

abbrev Port := Fin 65536

/-- An entry of the list. A range has at least two ports. -/
inductive Entry
  | single (bind : Option Bind) (host container : Port) (proto : Proto)
  | range (bind : Option Bind) (host container : Port) (more : Nat) (hhost : host + more + 1 < 65536) (hcontainer : container + more + 1 < 65536)
      (proto : Proto)
  | unpublished (container : Port) (proto : Proto)

namespace Entry

def front : Option Bind → Str
  | none => []
  | some b => b.1 ++ lit ":"

def text : Entry → Str
  | single bind h c proto => front bind ++ Str.ofNat h ++ lit "->" ++ Str.ofNat c ++ lit "/" ++ proto.text
  | range bind h c more _ _ proto =>
    front bind ++ Str.ofNat h ++ lit "-" ++ Str.ofNat (h + more + 1) ++ lit "->" ++ Str.ofNat c ++ lit "-" ++ Str.ofNat (c + more + 1) ++ lit "/" ++
      proto.text
  | unpublished c proto => Str.ofNat c ++ lit "/" ++ proto.text

/-- The host port, the container port and the protocol of each port that is published. -/
def pairs : Entry → List (Str × Str × Str)
  | single _ h c proto => [(Str.ofNat h, Str.ofNat c, proto.text)]
  | range _ h c more _ _ proto => (List.range (more + 2)).map fun i => (Str.ofNat (h + i), Str.ofNat (c + i), proto.text)
  | unpublished _ _ => []

def isRange : Entry → Bool
  | range .. => true
  | _ => false

def proto : Entry → Proto
  | single _ _ _ proto => proto
  | range _ _ _ _ _ _ proto => proto
  | unpublished _ proto => proto

end Entry

def denoted (es : List Entry) : List (Str × Str × Str) := es.flatMap Entry.pairs

/-- The column of `docker ps`. -/
def psText (es : List Entry) : Str := (lit ", ").intercalate (es.map Entry.text)

def PortMapping.pair (p : PortMapping) : Str × Str × Str := (p.host, p.container, p.proto)

def published (ps : List PortMapping) : List (Str × Str × Str) := (ps.filter PortMapping.published).map PortMapping.pair

/-! ## How an entry is read -/

/-- The longest end of a bind that is one as the expression has it. -/
def readBind : Str → Option Str
  | [] => none
  | c :: b => if BIND.fullmatch (c :: b) then some (c :: b) else readBind b

/-- A range is read as its last host port and its first container port, over tcp; what is not udp is read as tcp. -/
def Entry.reading : Entry → Option PortMapping
  | single bind h c proto =>
    some (publishedMapping (bindOf (bind.bind fun b => readBind b.1)) (Str.ofNat h) (Str.ofNat c) (if proto = .udp then lit "udp" else lit "tcp"))
  | range _ h c more _ _ _ => some (publishedMapping (lit "*") (Str.ofNat (h + more + 1)) (Str.ofNat c) (lit "tcp"))
  | unpublished _ _ => none

/-- What is read of the list: the first sixteen that differ in bind, ports or protocol. -/
def firstReadings (es : List Entry) : List PortMapping := (once arrowKey [] (es.filterMap Entry.reading)).take 16

/-! ## One match -/

section scan
variable {t u w z b : Str} {x : Hit}

theorem cut_eq {c : Char} {a a' r r' : Str} (ha : c ∉ a) (ha' : c ∉ a') (h : a ++ c :: r = a' ++ c :: r') : a = a' ∧ r = r' := by
  have hfront := congrArg (List.takeWhile (· != c)) h
  rw [takeWhile_append_cons ha, takeWhile_append_cons ha'] at hfront
  subst hfront
  exact ⟨rfl, (List.cons.inj (List.append_cancel_left h)).2⟩

/-- A number of at most five digits. -/
def IsPort (h : Str) : Prop := (∀ c ∈ h, isDigit c = true) ∧ 1 ≤ h.length ∧ h.length ≤ 5

theorem isPort_ofNat {n : Nat} (h : n < 65536) : IsPort (Str.ofNat n) := by
  have hdigits := isdigit_ofNat n
  rw [isdigit, Bool.and_eq_true, List.all_eq_true] at hdigits
  refine ⟨hdigits.2, ?_, (Nat.length_toDigits_le_iff (by omega) (by omega)).2 (by omega)⟩
  have hne := hdigits.1
  rw [Bool.not_eq_true', List.isEmpty_eq_false_iff] at hne
  exact List.length_pos_iff.2 hne

theorem IsPort.notMem {h : Str} (hh : IsPort h) {c : Char} (hc : isDigit c = false) : c ∉ h := fun hmem =>
  Bool.noConfusion (hc.symm.trans (hh.1 c hmem))

/-- What stands before an arrow that matches, and the groups in it. -/
def Front (t : Str) (gs : List (Str × Str)) : Prop :=
  ∃ h, IsPort h ∧ ((t = h ∧ gs = [(lit "host", h)]) ∨
    ∃ b, BIND.fullmatch b = true ∧ t = b ++ ':' :: h ∧ gs = [(lit "bind", b), (lit "host", h)])

theorem lang_host {gs : List (Str × Str)} : Lang HOST u gs ↔ ∃ t, u = t ++ ['-', '>'] ∧ Front t gs := by
  have hport : ∀ {t : Str} {gs : List (Str × Str)}, Lang (seq (group (lit "host") (times isDigit 1 5)) (seq (char '-') (char '>'))) t gs ↔
      ∃ h, IsPort h ∧ t = h ++ ['-', '>'] ∧ gs = [(lit "host", h)] := by
    intro t gs
    constructor
    · rintro ⟨h, -, -, -, ⟨-, ⟨hall, hleast, hmost, rfl⟩, rfl⟩, ⟨-, -, -, -, ⟨⟨c, hc, rfl⟩, rfl⟩, ⟨⟨d, hd, rfl⟩, rfl⟩, rfl, rfl⟩, rfl, rfl⟩
      rw [beq_iff_eq] at hc hd
      exact ⟨h, ⟨hall, hleast, hmost⟩, by rw [hc, hd]; rfl, rfl⟩
    · rintro ⟨h, ⟨hall, hleast, hmost⟩, rfl, rfl⟩
      exact ⟨h, _, ['-', '>'], [], ⟨[], ⟨hall, hleast, hmost, rfl⟩, rfl⟩,
        ⟨['-'], [], ['>'], [], ⟨⟨'-', rfl, rfl⟩, rfl⟩, ⟨⟨'>', rfl, rfl⟩, rfl⟩, rfl, rfl⟩, rfl, rfl⟩
  constructor
  · rintro ⟨f, gf, r, gr, hf, hr, rfl, rfl⟩
    obtain ⟨h, hh, rfl, rfl⟩ := hport.1 hr
    rcases hf with ⟨b, gb, c, gc, ⟨gs', hb, rfl⟩, ⟨⟨d, hd, rfl⟩, rfl⟩, rfl, rfl⟩ | ⟨rfl, rfl⟩
    · rw [beq_iff_eq] at hd
      obtain rfl := hb.groups_nil (by decide)
      refine ⟨b ++ ':' :: h, ?_, h, hh, Or.inr ⟨b, fullmatch_iff.2 ⟨[], hb⟩, rfl, rfl⟩⟩
      rw [hd]
      simp
    · exact ⟨h, rfl, h, hh, Or.inl ⟨rfl, rfl⟩⟩
  · rintro ⟨t, rfl, h, hh, ⟨rfl, rfl⟩ | ⟨b, hb, rfl, rfl⟩⟩
    · exact ⟨[], [], _, _, Or.inr ⟨rfl, rfl⟩, hport.2 ⟨t, hh, rfl, rfl⟩, rfl, rfl⟩
    · obtain ⟨gs, hlang⟩ := fullmatch_iff.1 hb
      obtain rfl := hlang.groups_nil (by decide)
      refine ⟨b ++ [':'], [(lit "bind", b)], _, _, Or.inl ⟨b, _, [':'], [], ⟨[], hlang, rfl⟩, ⟨⟨':', rfl, rfl⟩, rfl⟩, rfl, rfl⟩,
        hport.2 ⟨h, hh, rfl, rfl⟩, ?_, rfl⟩
      simp

theorem bind_uses {c : Char} (hb : BIND.fullmatch b = true) (hc : c ∈ b) : BIND.uses c = true := by
  obtain ⟨gs, hlang⟩ := fullmatch_iff.1 hb
  exact hlang.uses hc

theorem Front.notMem {gs : List (Str × Str)} (h : Front t gs) {c : Char} (hd : isDigit c = false) (hb : BIND.uses c = false) (hcolon : c ≠ ':') : c ∉ t := by
  obtain ⟨p, hp, ⟨rfl, -⟩ | ⟨b, hbind, rfl, -⟩⟩ := h
  · exact hp.notMem hd
  · rw [List.mem_append, List.mem_cons, not_or, not_or]
    exact ⟨fun hc => Bool.noConfusion (hb.symm.trans (bind_uses hbind hc)), hcolon, hp.notMem hd⟩

/-- Before an arrow the host part matches up to the arrow. -/
theorem mem_run_host (ht : '>' ∉ t) : x ∈ HOST.run (t ++ '-' :: '>' :: w) ↔ x.text = t ++ ['-', '>'] ∧ x.rest = w ∧ Front t x.groups := by
  rw [mem_run, lang_host]
  constructor
  · rintro ⟨heq, t', htext, hfront⟩
    rw [htext] at heq
    have hgt : '>' ∉ t' := hfront.notMem (by decide) (by decide) (by decide)
    obtain ⟨hcut, hrest⟩ := @cut_eq '>' (t ++ ['-']) (t' ++ ['-']) w x.rest (by simpa using ht) (by simpa using hgt) (by simpa using heq)
    obtain rfl : t = t' := List.append_cancel_right hcut
    exact ⟨htext, hrest.symm, hfront⟩
  · rintro ⟨htext, hrest, hfront⟩
    exact ⟨by rw [htext, hrest]; simp, t, htext, hfront⟩

/-- The groups are determined by what stands before the arrow. -/
theorem Front.unique {gs gs' : List (Str × Str)} (h : Front t gs) (h' : Front t gs') : gs = gs' := by
  obtain ⟨p, hp, ⟨rfl, rfl⟩ | ⟨b, hb, rfl, rfl⟩⟩ := h
  · obtain ⟨q, hq, ⟨rfl, rfl⟩ | ⟨b', hb', rfl, rfl⟩⟩ := h'
    · rfl
    · exact absurd (List.mem_append_right b' List.mem_cons_self) (hp.notMem (show isDigit ':' = false by decide))
  · obtain ⟨q, hq, ⟨rfl, rfl⟩ | ⟨b', hb', heq, rfl⟩⟩ := h'
    · exact absurd (List.mem_append_right b List.mem_cons_self) (hq.notMem (show isDigit ':' = false by decide))
    · -- both ports stand after the last colon
      have hrev : p.reverse ++ ':' :: b.reverse = q.reverse ++ ':' :: b'.reverse := by
        have := congrArg List.reverse heq
        simpa using this
      obtain ⟨hpq, hbb⟩ := cut_eq (by simpa using hp.notMem (show isDigit ':' = false by decide))
        (by simpa using hq.notMem (show isDigit ':' = false by decide)) hrev
      rw [List.reverse_injective hpq, List.reverse_injective hbb]

/-- The protocol as the expression has it: with a group of its own, or the default. -/
def ProtoGroups (proto : Str) (groups : List (Str × Str)) : Prop :=
  (groups = [] ∧ proto = lit "tcp") ∨ (groups = [(lit "proto", proto)] ∧ (proto = lit "tcp" ∨ proto = lit "udp"))

/-- What follows a container port, what is taken of it as the protocol, and what is left. -/
structure Tail (z : Str) (proto : Str) (left : Str) : Prop where
  head : ∀ c ∈ z.head?, isDigit c = false
  run : ∃ text groups, (PROTO.run z).head? = some ⟨text, groups, left⟩ ∧ ProtoGroups proto groups

theorem tail_word {name : Str} (hname : name = lit "tcp" ∨ name = lit "udp") (s : Str) : Tail ('/' :: (name ++ s)) name s := by
  refine ⟨fun c hc => by rw [← Option.some.inj hc]; rfl, ?_⟩
  rcases hname with rfl | rfl
  · exact ⟨_, _, rfl, Or.inr ⟨rfl, Or.inl rfl⟩⟩
  · exact ⟨_, _, rfl, Or.inr ⟨rfl, Or.inr rfl⟩⟩

/-- Neither protocol: nothing is taken. -/
theorem tail_other {z : Str} (hhead : ∀ c ∈ z.head?, isDigit c = false) (hrun : (PROTO.run z).head? = some ⟨[], [], z⟩) : Tail z (lit "tcp") z :=
  ⟨hhead, _, _, hrun, Or.inl ⟨rfl, rfl⟩⟩

/-- **A match at an arrow.** -/
theorem arrow_hit {gs : List (Str × Str)} {c proto left : Str} (ht : '>' ∉ t) (hfront : Front t gs) (hc : IsPort c) (hz : Tail z proto left) :
    ∃ text groups, (ARROW.run (t ++ '-' :: '>' :: (c ++ z))).head? = some ⟨t ++ text, gs ++ (lit "container", c) :: groups, left⟩ ∧ text ≠ [] ∧
      ProtoGroups proto groups := by
  obtain ⟨text, groups, hrun, hproto⟩ := hz.run
  have hunique : ∀ y ∈ HOST.run (t ++ '-' :: '>' :: (c ++ z)), y = ⟨t ++ ['-', '>'], gs, c ++ z⟩ := by
    rintro ⟨ty, gy, ry⟩ hy
    obtain ⟨htext, hrest, hf⟩ := (mem_run_host ht).1 hy
    exact Hit.mk.injEq .. ▸ ⟨htext, hf.unique hfront, hrest⟩
  have hin : (⟨t ++ ['-', '>'], gs, c ++ z⟩ : Hit) ∈ HOST.run (t ++ '-' :: '>' :: (c ++ z)) := (mem_run_host ht).2 ⟨rfl, rfl, hfront⟩
  have hcontainer : ((group (lit "container") (times isDigit 1 5)).run (c ++ z)).head? = some ⟨c, [(lit "container", c)], z⟩ :=
    head?_group (head?_times hc.1 hz.head hc.2.1 hc.2.2)
  refine ⟨['-', '>'] ++ (c ++ text), groups, ?_, List.cons_ne_nil _ _, hproto⟩
  rw [← List.append_assoc]
  exact head?_seq_of_unique hin hunique (head?_seq hcontainer hrun)

theorem run_arrow_nil (ht : '>' ∉ t) (h : ∀ gs, ¬ Front t gs) : ARROW.run (t ++ '-' :: '>' :: w) = [] := by
  unfold ARROW
  rw [run, List.flatMap_eq_nil_iff]
  exact fun x hx => absurd ((mem_run_host ht).1 hx).2.2 (h x.groups)

/-- No match goes over a comma and a blank. -/
theorem run_arrow_separator (ht : '>' ∉ t) : ARROW.run (t ++ ',' :: ' ' :: w) = [] := by
  rw [run_eq_nil_iff]
  rintro v rest gs heq ⟨p, gp, q, gq, hhost, -, rfl, -⟩
  obtain ⟨f, rfl, hfront⟩ := lang_host.1 hhost
  have hcomma : ',' ∉ f ++ ['-'] := by
    rw [List.mem_append, not_or]
    exact ⟨hfront.notMem (by decide) (by decide) (by decide), by decide⟩
  -- the arrow of the match would stand in what is without one
  rcases List.append_eq_append_iff.1 (show t ++ ',' :: ' ' :: w = (f ++ ['-']) ++ '>' :: (q ++ rest) by simpa using heq) with ⟨v, hv, hv'⟩ | ⟨v, rfl, hv⟩
  · cases v with
    | nil => exact absurd (List.cons.inj hv').1 (by decide)
    | cons d v =>
      obtain ⟨rfl, -⟩ := List.cons.inj hv'
      exact hcomma (hv ▸ List.mem_append_right t List.mem_cons_self)
  · cases v with
    | nil => exact absurd (List.cons.inj hv).1 (by decide)
    | cons d v =>
      obtain ⟨rfl, -⟩ := List.cons.inj hv
      exact ht (List.mem_append_right _ List.mem_cons_self)

theorem run_arrow_end (ht : '>' ∉ t) : ARROW.run t = [] := by
  rw [run_eq_nil_iff]
  rintro v rest gs rfl ⟨p, gp, q, gq, hhost, -, rfl, -⟩
  obtain ⟨f, rfl, -⟩ := lang_host.1 hhost
  exact ht (by simp)

/-! ## One entry -/

/-- What the arrows of a text are read as. -/
def reads (s : Str) : List PortMapping := (ARROW.finditer s).map arrowMapping

theorem reads_cons {c : Char} (h : ARROW.run (c :: w) = []) : reads (c :: w) = reads w := by
  rw [reads, finditer_cons h, reads]

theorem run_arrow_blank : ARROW.run (' ' :: w) = [] := by
  rw [run_eq_nil_iff]
  rintro v rest gs heq ⟨p, gp, q, gq, hhost, -, rfl, -⟩
  obtain ⟨f, rfl, hfront⟩ := lang_host.1 hhost
  have hblank : ' ' ∉ f := hfront.notMem (by decide) (by decide) (by decide)
  cases f with
  | nil => exact absurd (List.cons.inj heq).1 (by decide)
  | cons c f => exact hblank ((List.cons.inj heq).1 ▸ List.mem_cons_self)

/-- What is left of an entry is passed over. -/
theorem reads_separator (ht : '>' ∉ t) : reads (t ++ ',' :: ' ' :: w) = reads w := by
  induction t with
  | nil =>
    have h := @run_arrow_separator [] w ht
    rw [List.nil_append] at h ⊢
    rw [reads_cons h, reads_cons run_arrow_blank]
  | cons c t ih =>
    have h := @run_arrow_separator (c :: t) w ht
    rw [List.cons_append] at h ⊢
    rw [reads_cons h, ih fun h => ht (List.mem_cons_of_mem c h)]

theorem reads_end (ht : '>' ∉ t) : reads t = [] := by
  induction t with
  | nil => rw [reads, finditer_nil, List.map_nil]
  | cons c t ih => rw [reads_cons (run_arrow_end ht), ih fun h => ht (List.mem_cons_of_mem c h)]

/-- The groups of a match by their names. -/
theorem arrowMapping_eq {bind : Option Str} {h c proto text rest : Str} {groups : List (Str × Str)} (hproto : ProtoGroups proto groups) :
    arrowMapping ⟨text, ((bind.map fun b => (lit "bind", b)).toList ++ [(lit "host", h)]) ++ (lit "container", c) :: groups, rest⟩ =
      publishedMapping (bindOf bind) h c proto := by
  have hgroups : ∀ m : Hit, m.groups = ((bind.map fun b => (lit "bind", b)).toList ++ [(lit "host", h)]) ++ (lit "container", c) :: groups →
      m.group (lit "bind") = bind ∧ m.group (lit "host") = some h ∧ m.group (lit "container") = some c ∧ protoOf m = proto := by
    intro m hm
    unfold protoOf Hit.group
    rw [hm]
    rcases hproto with ⟨rfl, rfl⟩ | ⟨rfl, rfl | rfl⟩ <;> cases bind <;> exact ⟨rfl, rfl, rfl, rfl⟩
  obtain ⟨hbind, hhost, hcontainer, hp⟩ := hgroups ⟨text, _, rest⟩ rfl
  unfold arrowMapping
  rw [hbind, hhost, hcontainer, hp]
  rfl

theorem reads_hit {h c proto left : Str} {bind : Option Str} (ht : '>' ∉ t)
    (hfront : Front t ((bind.map fun b => (lit "bind", b)).toList ++ [(lit "host", h)])) (hc : IsPort c) (hz : Tail z proto left) :
    reads (t ++ '-' :: '>' :: (c ++ z)) = publishedMapping (bindOf bind) h c proto :: reads left := by
  obtain ⟨text, groups, hrun, hne, hproto⟩ := arrow_hit ht hfront hc hz
  have hne' : t ++ text ≠ [] := fun heq => hne (List.append_eq_nil_iff.1 heq).2
  rw [reads, finditer_hit hrun hne', List.map_cons, arrowMapping_eq hproto, reads]

/-- Before a bound port the longest end of the bind that is one is read. -/
theorem reads_bound {h c proto left : Str} (hh : IsPort h) (hc : IsPort c) (hz : Tail z proto left) : ∀ {b : Str}, '>' ∉ b →
    reads (b ++ ':' :: (h ++ '-' :: '>' :: (c ++ z))) = publishedMapping (bindOf (readBind b)) h c proto :: reads left := by
  have hgt : ∀ {b : Str}, '>' ∉ b → '>' ∉ b ++ ':' :: h := fun hb => by
    rw [List.mem_append, List.mem_cons, not_or, not_or]
    exact ⟨hb, by decide, hh.notMem (by decide)⟩
  -- a front that reaches over the colon has a bind of its own
  have hbind : ∀ {b : Str} {gs : List (Str × Str)}, Front (b ++ ':' :: h) gs → BIND.fullmatch b = true := by
    rintro b gs ⟨p, hp, ⟨heq, -⟩ | ⟨b', hb', heq, -⟩⟩
    · exact absurd (heq ▸ List.mem_append_right b List.mem_cons_self) (hp.notMem (show isDigit ':' = false by decide))
    · have hrev : h.reverse ++ ':' :: b.reverse = p.reverse ++ ':' :: b'.reverse := by
        have := congrArg List.reverse heq
        simpa using this
      obtain ⟨-, hbb⟩ := cut_eq (by simpa using hh.notMem (show isDigit ':' = false by decide))
        (by simpa using hp.notMem (show isDigit ':' = false by decide)) hrev
      rw [List.reverse_injective hbb]
      exact hb'
  have hassoc : ∀ b : Str, b ++ ':' :: (h ++ '-' :: '>' :: (c ++ z)) = (b ++ ':' :: h) ++ '-' :: '>' :: (c ++ z) := fun b => by simp
  intro b
  induction b with
  | nil =>
    intro hb
    have hnone : ARROW.run (([] ++ ':' :: h) ++ '-' :: '>' :: (c ++ z)) = [] :=
      run_arrow_nil (hgt hb) fun gs hf => Bool.noConfusion ((show BIND.fullmatch [] = false by decide).symm.trans (hbind hf))
    rw [← hassoc, List.nil_append] at hnone
    rw [List.nil_append, reads_cons hnone]
    exact @reads_hit h z h c proto left none (hh.notMem (by decide)) ⟨h, hh, Or.inl ⟨rfl, rfl⟩⟩ hc hz
  | cons d b ih =>
    intro hb
    unfold readBind
    by_cases hd : BIND.fullmatch (d :: b) = true
    · rw [if_pos hd, hassoc]
      exact @reads_hit ((d :: b) ++ ':' :: h) z h c proto left (some (d :: b)) (hgt hb) ⟨h, hh, Or.inr ⟨d :: b, hd, rfl, rfl⟩⟩ hc hz
    · have hnone : ARROW.run (((d :: b) ++ ':' :: h) ++ '-' :: '>' :: (c ++ z)) = [] := run_arrow_nil (hgt hb) fun gs hf => hd (hbind hf)
      rw [← hassoc, List.cons_append] at hnone
      rw [if_neg hd, List.cons_append, reads_cons hnone, ih fun hmem => hb (List.mem_cons_of_mem d hmem)]

/-- A range is passed over up to its last host port. -/
theorem reads_range {h c left : Str} (hh : IsPort h) (hc : IsPort c) (hz : Tail z (lit "tcp") left) : ∀ {f : Str}, '>' ∉ f →
    reads (f ++ '-' :: (h ++ '-' :: '>' :: (c ++ z))) = publishedMapping (lit "*") h c (lit "tcp") :: reads left := by
  have hskip : ∀ {f : Str}, '>' ∉ f → ARROW.run (f ++ '-' :: (h ++ '-' :: '>' :: (c ++ z))) = [] := by
    intro f hf
    have hassoc : f ++ '-' :: (h ++ '-' :: '>' :: (c ++ z)) = (f ++ '-' :: h) ++ '-' :: '>' :: (c ++ z) := by simp
    rw [hassoc]
    refine run_arrow_nil ?_ fun gs hfront => ?_
    · rw [List.mem_append, List.mem_cons, not_or, not_or]
      exact ⟨hf, by decide, hh.notMem (by decide)⟩
    · exact hfront.notMem (c := '-') (by decide) (by decide) (by decide) (List.mem_append_right f List.mem_cons_self)
  intro f
  induction f with
  | nil =>
    intro hf
    have h0 := hskip hf
    rw [List.nil_append] at h0 ⊢
    rw [reads_cons h0]
    exact @reads_hit h z h c (lit "tcp") left none (hh.notMem (by decide)) ⟨h, hh, Or.inl ⟨rfl, rfl⟩⟩ hc hz
  | cons d f ih =>
    intro hf
    have h0 := hskip hf
    rw [List.cons_append] at h0 ⊢
    rw [reads_cons h0, ih fun hmem => hf (List.mem_cons_of_mem d hmem)]

theorem front_notMem (bind : Option Bind) {c : Char} (hc : bindClass c = false) (hother : c ∉ ['.', '[', ']', '*']) (hcolon : c ≠ ':') :
    c ∉ Entry.front bind := by
  cases bind with
  | none => exact List.not_mem_nil
  | some b =>
    unfold Entry.front
    rw [List.mem_append, not_or]
    exact ⟨fun h => (b.2 c h).elim (fun h => Bool.noConfusion (hc.symm.trans h)) hother, fun h => hcolon (List.mem_singleton.1 h)⟩

theorem ofNat_notMem {n : Nat} {c : Char} (hc : isDigit c = false) : c ∉ Str.ofNat n := by
  have h := isdigit_ofNat n
  rw [isdigit, Bool.and_eq_true, List.all_eq_true] at h
  exact fun hmem => Bool.noConfusion (hc.symm.trans (h.2 c hmem))

theorem Proto.tail (proto : Proto) (s : Str) :
    ∃ left, '>' ∉ left ∧ Tail ('/' :: (proto.text ++ s)) (if proto = .udp then lit "udp" else lit "tcp") (left ++ s) := by
  cases proto with
  | tcp => exact ⟨[], List.not_mem_nil, tail_word (Or.inl rfl) s⟩
  | udp => exact ⟨[], List.not_mem_nil, tail_word (Or.inr rfl) s⟩
  | sctp => exact ⟨lit "/sctp", by decide, tail_other (fun c hc => by rw [← Option.some.inj hc]; rfl) rfl⟩

theorem Proto.text_notMem (proto : Proto) : '>' ∉ proto.text := by
  cases proto <;> decide

theorem Entry.single_text (bind : Option Bind) (h c : Port) (proto : Proto) (s : Str) :
    (Entry.single bind h c proto).text ++ s = front bind ++ (Str.ofNat h ++ '-' :: '>' :: (Str.ofNat c ++ '/' :: (proto.text ++ s))) := by
  unfold Entry.text
  simp only [List.append_assoc]
  rfl

theorem Entry.range_text (bind : Option Bind) (h c : Port) (more : Nat) (hhost : h + more + 1 < 65536) (hcontainer : c + more + 1 < 65536)
    (proto : Proto) (s : Str) : (Entry.range bind h c more hhost hcontainer proto).text ++ s = (front bind ++ Str.ofNat h) ++
      '-' :: (Str.ofNat (h + more + 1) ++ '-' :: '>' :: (Str.ofNat c ++ '-' :: (Str.ofNat (c + more + 1) ++ '/' :: (proto.text ++ s)))) := by
  unfold Entry.text
  simp only [List.append_assoc]
  rfl

/-- **What is read of one entry**, where `s` comes after it. -/
theorem reads_entry (e : Entry) {s : Str} {rest : List PortMapping} (hs : ∀ left, '>' ∉ left → reads (left ++ s) = rest) :
    reads (e.text ++ s) = e.reading.toList ++ rest := by
  cases e with
  | single bind h c proto =>
    obtain ⟨left, hleft, htail⟩ := proto.tail s
    have hh : IsPort (Str.ofNat h) := isPort_ofNat h.isLt
    have hc : IsPort (Str.ofNat c) := isPort_ofNat c.isLt
    rw [Entry.single_text, Entry.reading, Option.toList_some, List.singleton_append, ← hs left hleft]
    cases bind with
    | none => exact @reads_hit (Str.ofNat h) _ (Str.ofNat h) (Str.ofNat c) _ _ none (hh.notMem (by decide)) ⟨_, hh, Or.inl ⟨rfl, rfl⟩⟩ hc htail
    | some b =>
      have hbind : '>' ∉ b.1 := fun hgt => (b.2 _ hgt).elim (by decide) (by decide)
      rw [show Entry.front (some b) = b.1 ++ [':'] from rfl, List.append_assoc]
      exact reads_bound hh hc htail hbind
  | range bind h c more hhost hcontainer proto =>
    have hh : IsPort (Str.ofNat (h + more + 1)) := isPort_ofNat hhost
    have hc : IsPort (Str.ofNat c) := isPort_ofNat c.isLt
    have htail : Tail ('-' :: (Str.ofNat (c + more + 1) ++ '/' :: (proto.text ++ s))) (lit "tcp") ('-' :: (Str.ofNat (c + more + 1) ++ '/' :: (proto.text ++ s))) :=
      tail_other (fun c hc => by rw [← Option.some.inj hc]; rfl) rfl
    have hfront : '>' ∉ Entry.front bind ++ Str.ofNat h := by
      rw [List.mem_append, not_or]
      exact ⟨front_notMem bind (by decide) (by decide) (by decide), ofNat_notMem (by decide)⟩
    have hleft : '>' ∉ '-' :: (Str.ofNat (c + more + 1) ++ '/' :: proto.text) := by
      rw [List.mem_cons, List.mem_append, List.mem_cons, not_or, not_or, not_or]
      exact ⟨by decide, ofNat_notMem (by decide), by decide, proto.text_notMem⟩
    rw [Entry.range_text, reads_range hh hc htail hfront, Entry.reading, Option.toList_some, List.singleton_append, ← hs _ hleft]
    simp only [List.cons_append, List.append_assoc]
  | unpublished c proto =>
    rw [Entry.reading, Option.toList_none, List.nil_append]
    refine hs _ ?_
    rw [Entry.text, List.append_assoc, List.mem_append, List.mem_append, not_or, not_or]
    exact ⟨ofNat_notMem (by decide), by decide, proto.text_notMem⟩

theorem psText_cons (e : Entry) {es : List Entry} (hes : es ≠ []) : psText (e :: es) = e.text ++ lit ", " ++ psText es := by
  obtain ⟨e', es, rfl⟩ := List.exists_cons_of_ne_nil hes
  unfold psText
  rw [List.map_cons, List.map_cons, List.intercalate_cons_cons]

/-- **What is read of the list.** -/
theorem reads_psText : ∀ es : List Entry, reads (psText es) = es.filterMap Entry.reading
  | [] => reads_end List.not_mem_nil
  | [e] => by
    have h := reads_entry e (s := []) fun left hleft => by rw [List.append_nil]; exact reads_end hleft
    rw [List.append_nil, List.append_nil] at h
    rw [show psText [e] = e.text by simp [psText], h]
    cases he : e.reading <;> simp [he]
  | e :: e' :: es => by
    have ih := reads_psText (e' :: es)
    have h : reads (e.text ++ (lit ", " ++ psText (e' :: es))) = e.reading.toList ++ reads (psText (e' :: es)) :=
      reads_entry e fun left hleft => reads_separator hleft
    rw [psText_cons e (List.cons_ne_nil e' es), List.append_assoc, h, ih]
    cases he : e.reading <;> simp [he]

end scan

/-! ## The whole text -/

section parse
variable {α : Type} {key : α → Str} {seen : List Str} {xs ys : List α} {es : List Entry}

theorem once_append (h : ∀ y ∈ ys, key y ∈ seen ∨ ∃ x ∈ xs, key x = key y) : once key seen (xs ++ ys) = once key seen xs := by
  induction xs generalizing seen with
  | nil =>
    induction ys with
    | nil => rfl
    | cons y ys ih =>
      have hy := (h y List.mem_cons_self).resolve_right fun ⟨x, hx, _⟩ => absurd hx List.not_mem_nil
      show (if key y ∈ seen then once key seen ys else y :: once key (key y :: seen) ys) = []
      rw [if_pos hy]
      exact ih fun z hz => h z (List.mem_cons_of_mem y hz)
  | cons x xs ih =>
    have hrest : ∀ seen', seen ⊆ seen' → key x ∈ seen' → ∀ y ∈ ys, key y ∈ seen' ∨ ∃ z ∈ xs, key z = key y := by
      intro seen' hsub hx y hy
      rcases h y hy with hin | ⟨z, hz, heq⟩
      · exact Or.inl (hsub hin)
      · rcases List.mem_cons.1 hz with rfl | hz
        · exact Or.inl (heq ▸ hx)
        · exact Or.inr ⟨z, hz, heq⟩
    rw [List.cons_append, once, once]
    split
    · rename_i hx
      exact ih (hrest seen (List.Subset.refl seen) hx)
    · exact congrArg (x :: ·) (ih (hrest _ (List.subset_cons_self _ _) List.mem_cons_self))

theorem once_twice (key : α → Str) (xs : List α) : once key [] (xs ++ xs) = once key [] xs :=
  once_append fun y hy => Or.inr ⟨y, hy, rfl⟩

theorem mem_of_mem_once {x : α} (h : x ∈ once key seen xs) : x ∈ xs := by
  induction xs generalizing seen with
  | nil => exact h
  | cons y xs ih =>
    rw [once] at h
    split at h
    · exact List.mem_cons_of_mem y (ih h)
    · exact (List.mem_cons.1 h).elim (fun h => h ▸ List.mem_cons_self) fun h => List.mem_cons_of_mem y (ih h)

/-- Of every key one is kept. -/
theorem once_covers {x : α} (h : x ∈ xs) : key x ∈ seen ∨ ∃ y ∈ once key seen xs, key y = key x := by
  induction xs generalizing seen with
  | nil => cases h
  | cons y xs ih =>
    rw [once]
    split
    · rename_i hy
      rcases List.mem_cons.1 h with rfl | h
      · exact Or.inl hy
      · exact ih h
    · rcases List.mem_cons.1 h with rfl | h
      · exact Or.inr ⟨x, List.mem_cons_self, rfl⟩
      · rcases @ih (key y :: seen) h with hin | ⟨z, hz, heq⟩
        · rcases List.mem_cons.1 hin with heq | hin
          · exact Or.inr ⟨y, List.mem_cons_self, heq.symm⟩
          · exact Or.inl hin
        · exact Or.inr ⟨z, List.mem_cons_of_mem y hz, heq⟩

theorem slash_mem_text (e : Entry) : '/' ∈ e.text := by
  have hslash : '/' ∈ lit "/" := List.mem_singleton.2 rfl
  cases e <;> exact List.mem_append_left _ (List.mem_append_right _ hslash)

theorem text_ne_nil (e : Entry) : e.text ≠ [] := List.ne_nil_of_mem (slash_mem_text e)

theorem slash_mem_psText (hes : es ≠ []) : '/' ∈ psText es := by
  obtain ⟨e, es, rfl⟩ := List.exists_cons_of_ne_nil hes
  cases es with
  | nil => simpa [psText] using slash_mem_text e
  | cons e' es =>
    rw [psText_cons e (List.cons_ne_nil e' es)]
    exact List.mem_append_left _ (List.mem_append_left _ (slash_mem_text e))

theorem slash_mem_strip {s : Str} (h : '/' ∈ s) : '/' ∈ strip s := by
  obtain ⟨a, b, rfl⟩ := List.append_of_mem h
  rw [strip_append (by decide)]
  exact List.mem_append_right _ List.mem_cons_self

theorem strip_psText (hes : es ≠ []) : strip (psText es) ∉ [[], lit "—", lit "-"] := by
  have hall : ∀ s ∈ [[], lit "—", lit "-"], '/' ∉ s := by decide
  exact fun h => hall _ h (slash_mem_strip (slash_mem_psText hes))

theorem psText_append {as bs : List Entry} (has : as ≠ []) (hbs : bs ≠ []) : psText (as ++ bs) = psText as ++ lit ", " ++ psText bs := by
  induction as with
  | nil => exact absurd rfl has
  | cons e as ih =>
    by_cases hnil : as = []
    · rw [hnil, List.singleton_append, psText_cons e hbs, show psText [e] = e.text by simp [psText]]
    · rw [List.cons_append, psText_cons e (fun h => hbs (List.append_eq_nil_iff.1 h).2), ih hnil, psText_cons e hnil]
      simp only [List.append_assoc]

theorem reading_published {e : Entry} {p : PortMapping} (h : e.reading = some p) : p.published = true := by
  cases e with
  | single bind host container proto => rw [← Option.some.inj h]; rfl
  | range bind host container more hhost hcontainer proto => rw [← Option.some.inj h]; rfl
  | unpublished container proto => cases h

/-- What is read of any text that is a list of entries. -/
theorem published_of_text {portsDisplay : Str} {ports : PortsField} (hes : es ≠ []) (h : (lit ", ").intercalate (chunks portsDisplay ports) = psText es) :
    published (parsePublishedPorts portsDisplay ports) = (firstReadings es).map PortMapping.pair := by
  have hblank : strip (psText es) ≠ [] := List.ne_nil_of_mem (slash_mem_strip (slash_mem_psText hes))
  have hreads : (ARROW.finditer (psText es)).map arrowMapping = es.filterMap Entry.reading := reads_psText es
  unfold parsePublishedPorts
  simp only [h, if_neg hblank, hreads]
  split
  · unfold published firstReadings
    rw [List.filter_eq_self.2]
    intro p hp
    obtain ⟨e, -, he⟩ := List.mem_filterMap.1 (mem_of_mem_once (List.mem_of_mem_take hp))
    exact reading_published he
  · rename_i hnone
    rw [not_not] at hnone
    have hbare : ∀ p ∈ (once bareKey [] (((BARE.finditer (psText es)).map bareMapping).filter fun p => decide (p.host ≠ lit "22"))).take 16,
        p.published = false := by
      intro p hp
      obtain ⟨m, -, rfl⟩ := List.mem_map.1 (List.mem_of_mem_filter (mem_of_mem_once (List.mem_of_mem_take hp)))
      rfl
    unfold published firstReadings
    rw [hnone, List.filter_eq_nil_iff.2 fun p hp => by rw [hbare p hp]; exact Bool.noConfusion]
    rfl

/-- **What is read of the column** is what is first of the readings of its entries. -/
theorem parse_psText (es : List Entry) :
    published (parsePublishedPorts (psText es) .absent) = (firstReadings es).map PortMapping.pair := by
  by_cases hes : es = []
  · rw [hes]
    rfl
  · refine published_of_text hes ?_
    unfold chunks
    rw [if_neg (strip_psText hes)]
    simp

/-- The characters of an entry. -/
def entryChar (c : Char) : Bool := bindClass c || decide (c ∈ ['.', '[', ']', '*', '-', '>', '/', 't', 'c', 'p', 'u', 'd', 's'])

theorem all_text (e : Entry) : e.text.all entryChar = true := by
  have hnumber : ∀ n, (Str.ofNat n).all entryChar = true := by
    intro n
    have h := isdigit_ofNat n
    rw [isdigit, Bool.and_eq_true, List.all_eq_true] at h
    refine List.all_eq_true.2 fun c hc => Bool.or_eq_true_iff.2 (Or.inl (Bool.or_eq_true_iff.2 (Or.inl (decide_eq_true (Or.inl ?_)))))
    exact of_decide_eq_true (h.2 c hc)
  have hfront : ∀ bind : Option Bind, (Entry.front bind).all entryChar = true := by
    intro bind
    cases bind with
    | none => rfl
    | some b =>
      rw [Entry.front, List.all_append, Bool.and_eq_true, List.all_eq_true]
      refine ⟨fun c hc => Bool.or_eq_true_iff.2 ((b.2 c hc).imp_right fun h => decide_eq_true ?_), rfl⟩
      exact List.mem_append_left ['-', '>', '/', 't', 'c', 'p', 'u', 'd', 's'] h
  have hproto : ∀ proto : Proto, proto.text.all entryChar = true := by
    intro proto
    cases proto <;> rfl
  have harrow : (lit "->").all entryChar = true := rfl
  have hdash : (lit "-").all entryChar = true := rfl
  have hslash : (lit "/").all entryChar = true := rfl
  cases e <;> simp only [Entry.text, List.all_append, hnumber, hfront, hproto, harrow, hdash, hslash, Bool.and_self]

theorem entryChar_space {c : Char} (h : entryChar c = true) : isSpace c = false := by
  rcases Bool.or_eq_true_iff.1 h with h | h
  · rw [← Bool.not_eq_true]
    intro hspace
    obtain ⟨-, hhex, hcolon, -⟩ := Ip.isSpace_plain hspace
    rw [bindClass, hhex, Bool.false_or, beq_iff_eq] at h
    exact hcolon h
  · have hall : ['.', '[', ']', '*', '-', '>', '/', 't', 'c', 'p', 'u', 'd', 's'].all (fun c => !isSpace c) = true := by decide
    simpa using List.all_eq_true.1 hall c (of_decide_eq_true h)

theorem comma_notMem_text (e : Entry) : ',' ∉ e.text := fun h =>
  absurd (List.all_eq_true.1 (all_text e) _ h) (by decide)

theorem strip_text (e : Entry) : strip e.text = e.text := by
  have hspace := fun c hc => entryChar_space (List.all_eq_true.1 (all_text e) c hc)
  exact strip_eq_self (fun c hc => hspace c (List.mem_of_head? hc)) fun c hc => hspace c (List.mem_of_getLast? hc)

/-- The column taken apart again. -/
theorem map_strip_split (es : List Entry) (hes : es ≠ []) : (split ',' (psText es)).map strip = es.map Entry.text := by
  have hblank : ∀ s : Str, (split ',' (' ' :: s)).map strip = (split ',' s).map strip := by
    intro s
    rw [split, if_neg (by decide)]
    cases hs : split ',' s with
    | nil => exact absurd hs (split_ne_nil ',' s)
    | cons p ps => rfl
  induction es with
  | nil => exact absurd rfl hes
  | cons e es ih =>
    by_cases hnil : es = []
    · rw [hnil, show psText [e] = e.text by simp [psText], split_of_notMem (comma_notMem_text e), List.map_singleton, List.map_singleton, strip_text]
    · rw [psText_cons e hnil, List.append_assoc, show e.text ++ (lit ", " ++ psText es) = e.text ++ ',' :: (' ' :: psText es) from rfl, split_append_cons,
        split_of_notMem (comma_notMem_text e), List.map_append, hblank, ih hnil, List.map_singleton, strip_text]
      rfl

theorem portsList_psText (es : List Entry) : portsList (psText es) = es.map Entry.text := by
  by_cases hes : es = []
  · rw [hes]
    rfl
  · unfold portsList
    rw [map_strip_split es hes, List.filter_eq_self]
    intro p hp
    obtain ⟨e, -, rfl⟩ := List.mem_map.1 hp
    exact decide_eq_true (text_ne_nil e)

/-- The list of the ports says the same a second time. -/
theorem parse_shown (es : List Entry) : published (parsePublishedPorts (shown (psText es)).portsDisplay (shown (psText es)).ports) =
    (firstReadings es).map PortMapping.pair := by
  by_cases hes : es = []
  · rw [hes]
    decide
  · have hne : psText es ≠ [] := List.ne_nil_of_mem (slash_mem_psText hes)
    have htwice : firstReadings (es ++ es) = firstReadings es := by
      unfold firstReadings
      rw [List.filterMap_append, once_twice]
    rw [← htwice]
    refine published_of_text (fun h => hes (List.append_eq_nil_iff.1 h).1) ?_
    have hitems : ((es.map Entry.text).filter fun p => decide (strip p ≠ [])) = es.map Entry.text := by
      refine List.filter_eq_self.2 fun p hp => ?_
      obtain ⟨e, -, rfl⟩ := List.mem_map.1 hp
      rw [strip_text]
      exact decide_eq_true (text_ne_nil e)
    obtain ⟨e, es', rfl⟩ := List.exists_cons_of_ne_nil hes
    unfold shown chunks
    simp only [if_neg hne, portsList_psText, if_neg (strip_psText hes), hitems]
    rw [psText_append hes hes, List.singleton_append, List.map_cons, List.intercalate_cons_cons, ← List.map_cons]
    rfl

end parse

/-! ## Complete reading -/

/-- The port is known to be taken: to the check of a move to this host, and in its port inventory. -/
def Occupied (inv : PortInventory) (x : Str × Str × Str) : Prop :=
  (x.1, x.2.2) ∈ destUsedPorts inv ∧ ∃ r ∈ dockerPublishedRows inv, Str.ofNat r.hostPort = x.1 ∧ r.proto = x.2.2

/-- What is published is read, nothing else is, and no port of a container with this column is missing where it is taken. -/
def ReadCompletely (es : List Entry) : Prop :=
  (∀ x, x ∈ published (parsePublishedPorts (psText es) .absent) ↔ x ∈ denoted es) ∧
    ∀ inv : PortInventory, (∃ p ∈ inv.projects, shown (psText es) ∈ p) ∨ shown (psText es) ∈ inv.orphanContainers → ∀ x ∈ denoted es, Occupied inv x

/-- No port is published over sctp, all of them are among what is read first, and so is nothing else that a range is read as. -/
structure Readable (es : List Entry) : Prop where
  noSctp : ∀ e ∈ es, e.pairs ≠ [] → e.proto ≠ .sctp
  first : ∀ x ∈ denoted es, x ∈ (firstReadings es).map PortMapping.pair
  ranges : ∀ e ∈ es, e.isRange = true → ∀ p ∈ e.reading, p ∈ firstReadings es → p.pair ∈ denoted es

section complete
variable {es : List Entry} {e : Entry} {p : PortMapping}

theorem reading_proto (h : e.reading = some p) : p.proto = lit "tcp" ∨ p.proto = lit "udp" := by
  cases e with
  | single bind host container proto =>
    rw [← Option.some.inj h]
    show (if proto = .udp then lit "udp" else lit "tcp") = lit "tcp" ∨ (if proto = .udp then lit "udp" else lit "tcp") = lit "udp"
    split
    · exact Or.inr rfl
    · exact Or.inl rfl
  | range bind host container more hhost hcontainer proto =>
    rw [← Option.some.inj h]
    exact Or.inl rfl
  | unpublished container proto => cases h

theorem reading_host (h : e.reading = some p) : ∃ n, p.host = Str.ofNat n := by
  cases e with
  | single bind host container proto => exact ⟨host, by rw [← Option.some.inj h]; rfl⟩
  | range bind host container more hhost hcontainer proto => exact ⟨host + more + 1, by rw [← Option.some.inj h]; rfl⟩
  | unpublished container proto => cases h

theorem mem_firstReadings (h : p ∈ firstReadings es) : ∃ e ∈ es, e.reading = some p :=
  List.mem_filterMap.1 (mem_of_mem_once (List.mem_of_mem_take h))

/-- A single port is read as it is printed, unless it is published over sctp. -/
theorem reading_single (hsingle : e.isRange = false) (hsctp : e.pairs ≠ [] → e.proto ≠ .sctp) (h : e.reading = some p) : p.pair ∈ e.pairs := by
  cases e with
  | single bind host container proto =>
    rw [← Option.some.inj h]
    cases proto with
    | tcp => exact List.mem_singleton.2 rfl
    | udp => exact List.mem_singleton.2 rfl
    | sctp => exact absurd rfl (hsctp (List.cons_ne_nil _ _))
  | range bind host container more hhost hcontainer proto => cases hsingle
  | unpublished container proto => cases h

/-- **What the published ports are read as is what they are** iff the column is readable. -/
theorem read_iff (es : List Entry) : (∀ x, x ∈ (firstReadings es).map PortMapping.pair ↔ x ∈ denoted es) ↔ Readable es := by
  constructor
  · intro h
    refine ⟨fun e he hpairs hsctp => ?_, fun x hx => (h x).2 hx, fun e he _ p hp hfirst => (h _).1 (List.mem_map.2 ⟨p, hfirst, rfl⟩)⟩
    obtain ⟨x, hx⟩ := List.exists_mem_of_ne_nil _ hpairs
    have hproto : x.2.2 = lit "sctp" := by
      cases e with
      | single bind host container proto =>
        obtain rfl : proto = .sctp := hsctp
        rw [List.mem_singleton.1 hx]
        rfl
      | range bind host container more hhost hcontainer proto =>
        obtain rfl : proto = .sctp := hsctp
        obtain ⟨i, -, rfl⟩ := List.mem_map.1 hx
        rfl
      | unpublished container proto => cases hx
    obtain ⟨p, hp, rfl⟩ := List.mem_map.1 ((h x).2 (List.mem_flatMap.2 ⟨e, he, hx⟩))
    obtain ⟨e', -, he'⟩ := mem_firstReadings hp
    rcases reading_proto he' with htcp | hudp
    · exact absurd (htcp.symm.trans hproto) (by decide)
    · exact absurd (hudp.symm.trans hproto) (by decide)
  · intro h x
    refine ⟨fun hx => ?_, h.first x⟩
    obtain ⟨p, hp, rfl⟩ := List.mem_map.1 hx
    obtain ⟨e, he, hread⟩ := mem_firstReadings hp
    cases hrange : e.isRange with
    | true => exact h.ranges e he hrange p hread hp
    | false => exact List.mem_flatMap.2 ⟨e, he, reading_single hrange (h.noSctp e he) hread⟩

theorem normProto_self {proto : Str} (h : proto = lit "tcp" ∨ proto = lit "udp") : normProto proto = proto := by
  rcases h with rfl | rfl <;> decide

theorem key_inj {r r' : PortRow} (h : r.key = r'.key) : Str.ofNat r.hostPort = Str.ofNat r'.hostPort ∧ r.proto = r'.proto := by
  have hslash : ∀ n, '/' ∉ Str.ofNat n := fun n => ofNat_notMem (by decide)
  unfold PortRow.key at h
  rw [List.append_assoc, List.append_assoc] at h
  exact cut_eq (hslash r.hostPort) (hslash r'.hostPort) h

/-- What is read of a container is known where it is taken. -/
theorem occupied_of_read {inv : PortInventory} {c : Container} (hc : (∃ ps ∈ inv.projects, c ∈ ps) ∨ c ∈ inv.orphanContainers)
    (hreal : c.placeholder = false) (hp : p ∈ parsePublishedPorts c.portsDisplay c.ports) (hpublished : p.published = true) {n : Nat} (hhost : p.host = Str.ofNat n)
    (hproto : p.proto = lit "tcp" ∨ p.proto = lit "udp") : Occupied inv p.pair := by
  have hdigits : isdigit p.host = true := hhost ▸ isdigit_ofNat n
  constructor
  · have hused : (p.host, p.proto) ∈ portsUsed c := by
      refine List.mem_filter.2 ⟨List.mem_map.2 ⟨p, hp, rfl⟩, decide_eq_true ?_⟩
      intro hnil
      rw [show p.host = [] from hnil] at hdigits
      exact Bool.noConfusion hdigits
    unfold destUsedPorts
    rw [List.mem_append, List.mem_flatMap, List.mem_flatMap]
    rcases hc with ⟨ps, hps, hc⟩ | hc
    · exact Or.inl ⟨ps, hps, List.mem_flatMap.2 ⟨c, List.mem_filter.2 ⟨hc, by rw [hreal]; rfl⟩, hused⟩⟩
    · exact Or.inr ⟨c, hc, hused⟩
  · have hrow : (⟨int p.host, p.container, normProto p.proto, p.bind, p.label⟩ : PortRow) ∈ (inv.projects.flatten ++ inv.orphanContainers).flatMap portRows := by
      refine List.mem_flatMap.2 ⟨c, ?_, List.mem_filterMap.2 ⟨p, hp, if_pos ⟨hpublished, hdigits⟩⟩⟩
      rw [List.mem_append, List.mem_flatten]
      exact hc
    obtain ⟨r, hr, hkey⟩ := (@once_covers _ PortRow.key [] _ _ hrow).resolve_left List.not_mem_nil
    obtain ⟨hport, hproto'⟩ := key_inj hkey
    refine ⟨r, hr, hport.trans ?_, hproto'.trans (normProto_self hproto)⟩
    show Str.ofNat (int p.host) = p.host
    rw [hhost, int_ofNat]

/-- **The published ports are read completely** iff none is over sctp, each is among the first sixteen readings that differ, and
no range is read there as what is not published. -/
theorem readCompletely_iff (es : List Entry) : ReadCompletely es ↔ Readable es := by
  unfold ReadCompletely
  rw [parse_psText, read_iff, and_iff_left_iff_imp]
  intro hreadable inv hc x hx
  have hin : x ∈ published (parsePublishedPorts (shown (psText es)).portsDisplay (shown (psText es)).ports) := by
    rw [parse_shown]
    exact hreadable.first x hx
  have hfirst := hreadable.first x hx
  obtain ⟨p, hp, rfl⟩ := List.mem_map.1 hin
  obtain ⟨hmem, hpublished⟩ := List.mem_filter.1 hp
  obtain ⟨q, hq, hpair⟩ := List.mem_map.1 hfirst
  obtain ⟨e, -, hread⟩ := mem_firstReadings hq
  obtain ⟨n, hn⟩ := reading_host hread
  have hhost : q.host = p.host := congrArg Prod.fst hpair
  have hproto : q.proto = p.proto := congrArg (fun x => x.2.2) hpair
  exact occupied_of_read hc rfl hmem hpublished (hhost.symm.trans hn) (hproto ▸ reading_proto hread)

end complete

/-- **A range of two ports** is read as one, and wrongly: the last port of the host to the first of the container. -/
theorem range_misread :
    let es := [Entry.range none 8000 8000 0 (by decide) (by decide) .tcp]
    psText es = lit "8000-8001->8000-8001/tcp" ∧
      published (parsePublishedPorts (psText es) .absent) = [(lit "8001", lit "8000", lit "tcp")] ∧
      denoted es = [(lit "8000", lit "8000", lit "tcp"), (lit "8001", lit "8001", lit "tcp")] ∧ ¬ ReadCompletely es := by
  refine ⟨by decide +kernel, by decide +kernel, by decide +kernel, fun h => ?_⟩
  have hmem := (h.1 (lit "8000", lit "8000", lit "tcp")).2 (by decide +kernel)
  exact absurd hmem (by decide +kernel)

end PiHerder.Docker
