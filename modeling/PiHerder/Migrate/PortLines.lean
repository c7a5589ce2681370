import PiHerder.Migrate.BindAliases
import PiHerder.Migrate.Names

/-!
# The ports of a compose file, line by line (`service_migrate/overrides.py`)

| here | there |
| --- | --- |
| `SHORT_PORT`, `BARE_PORT`, `PUBLISHED` | lines 26–41 |
| `rewritePortSpec` | `rewrite_port_spec` (303–353) |
| `rewriteLinesPorts`, `rewriteLinePorts` | `_rewrite_lines_ports` (385–434) |
| `withoutIdentity` | the first lines of `apply_staging_overrides` (571) |

`placedLines` is a reader of block style: it gives every line that is a list item or a mapping line its place, the keys and items around
it. The line rewriter knows no places.
-/
namespace PiHerder.Migrate
open Lib Lib.Str Lib.Regex

/-- The map that is applied. -/
def withoutIdentity (portMap : PortMap) : PortMap := portMap.filter fun e => decide (e.1.host ≠ e.2)

/-! ## The lines as the rewriter matches them -/

def ADDRESS : Regex := seq (thrice (seq (times isDigit 1 3) (char '.'))) (times isDigit 1 3)

def PROTOCOL : Regex := seq (char '/') (alt (word (lit "tcp")) (word (lit "udp")))

/-- `(?:(?P<ip>…):)?(?P<host>\d{1,5}):(?P<container>\d{1,5})(?P<pr>/tcp|/udp)?`. -/
def PORTS : Regex :=
  seq (opt (seq (group (lit "ip") ADDRESS) (char ':')))
    (seq (group (lit "host") (times isDigit 1 5))
      (seq (char ':') (seq (group (lit "container") (times isDigit 1 5)) (opt (group (lit "pr") PROTOCOL)))))

/-- `(?P<host>\d{1,5})(?P<pr>/tcp|/udp)?`. -/
def PORT : Regex := seq (group (lit "host") (times isDigit 1 5)) (opt (group (lit "pr") PROTOCOL))

def quoteGroup (name : Str) : Regex := group name (opt (one isQuote))

def itemOf (r : Regex) : Regex :=
  seq (group (lit "pre") (seq blanks (seq (char '-') blanks)))
    (seq (quoteGroup (lit "q")) (seq r (seq (quoteGroup (lit "q2")) (group (lit "sp") blanks))))

def SHORT_PORT : Regex := itemOf PORTS

def BARE_PORT : Regex := itemOf PORT

def PUBLISHED : Regex :=
  seq (group (lit "pre") (seq blanks (seq (word (lit "published:")) blanks)))
    (seq (quoteGroup (lit "q")) (seq (group (lit "host") (times isDigit 1 5)) (seq (quoteGroup (lit "q2")) (group (lit "sp") blanks))))

inductive Form
  | short | bare | published
deriving DecidableEq, Repr

def Form.regex : Form → Regex
  | .short => SHORT_PORT
  | .bare => BARE_PORT
  | .published => PUBLISHED

/-- `(m.group("pr") or "/tcp").lstrip("/").lower()`. -/
def protocolOf (m : Hit) : Option Proto := Proto.parse (lower (lstrip '/' (if m.get (lit "pr") = [] then lit "/tcp" else m.get (lit "pr"))))

/-- The protocols that are looked up, in this order. -/
def Form.protocols (m : Hit) : Form → List Proto
  | .published => [.tcp, .udp]
  | _ => (protocolOf m).toList

def ipPrefix (m : Hit) : Str := if m.get (lit "ip") = [] then [] else m.get (lit "ip") ++ lit ":"

/-- The line with another host port. -/
def Form.render (m : Hit) (new : Str) : Form → Str
  | .short => m.get (lit "pre") ++ m.get (lit "q") ++ ipPrefix m ++ new ++ lit ":" ++ m.get (lit "container") ++ m.get (lit "pr") ++ m.get (lit "q2")
  | .bare => m.get (lit "pre") ++ m.get (lit "q") ++ new ++ m.get (lit "pr") ++ m.get (lit "q2")
  | .published => m.get (lit "pre") ++ m.get (lit "q") ++ new ++ m.get (lit "q2")

/-- The first form that matches. -/
def readPort (body : Str) : Option (Form × Hit) :=
  [Form.short, .bare, .published].findSome? fun f => (f.regex.matchLine body).map fun m => (f, m)

def mappedPort (portMap : PortMap) (x : Form × Hit) : Option Nat :=
  (x.1.protocols x.2).findSome? fun proto => portMap.get? ⟨int (x.2.get (lit "host")), proto⟩

def rewriteLinePorts (portMap : PortMap) (line : Str) : Str :=
  let (body, nl) := lineBody line
  match readPort body with
  | none => body ++ nl
  | some x =>
    match mappedPort portMap x with
    | some new => x.1.render x.2 (Str.ofNat new) ++ nl
    | none => body ++ nl

def rewriteLinesPorts (text : Str) (portMap : PortMap) : Str := (Stacks.splitlinesKeep text).flatMap (rewriteLinePorts portMap)

/-! ## The entries as they are rewritten -/

inductive Scalar
  | int (n : Nat)
  | text (s : Str)
deriving DecidableEq, Repr

/-- `str(x)`. -/
def Scalar.str : Scalar → Str
  | .int n => Str.ofNat n
  | .text s => s

/-- An entry of `ports`. -/
inductive PortSpec
  | scalar (s : Scalar)
  | long (published protocol : Option Scalar)
deriving DecidableEq, Repr

/-- `str(spec.get("protocol") or "tcp").lower()`. -/
def longProtocol (protocol : Option Scalar) : Str :=
  match protocol with
  | none => lit "tcp"
  | some p => if p = .int 0 ∨ p = .text [] then lit "tcp" else lower p.str

/-- `int(s)`, of what has no minus sign. -/
def parseInt (s : Str) : Option Nat :=
  let s := strip s
  let s := if startsWith (lit "+") s then s.drop 1 else s
  if (split '_' s).all isdigit then some (int (s.filter (· != '_'))) else none

def longPort (portMap : PortMap) (published protocol : Option Scalar) : Option Nat :=
  published.bind fun p =>
    (parseInt (p.str.takeWhile (· != '-'))).bind fun host => (Proto.parse (longProtocol protocol)).bind fun proto => portMap.get? ⟨host, proto⟩

/-- What the expressions of `rewrite_port_spec` make of a text. -/
def textPort (portMap : PortMap) (text : Str) : Option Str :=
  match PORTS.matchLine text with
  | some m =>
    (protocolOf m).bind fun proto => (portMap.get? ⟨int (m.get (lit "host")), proto⟩).map fun new =>
      ipPrefix m ++ Str.ofNat new ++ lit ":" ++ m.get (lit "container") ++ m.get (lit "pr")
  | none =>
    (PORT.matchLine text).bind fun m =>
      (protocolOf m).bind fun proto => (portMap.get? ⟨int (m.get (lit "host")), proto⟩).map fun new => Str.ofNat new ++ m.get (lit "pr")

def rewritePortSpec (spec : PortSpec) (portMap : PortMap) : PortSpec :=
  match spec with
  | .scalar (.int n) => .scalar (.int ((portMap.get? ⟨n, .tcp⟩).getD n))
  | .scalar (.text s) => .scalar (.text ((textPort portMap (strip s)).getD s))
  | .long published protocol =>
    match longPort portMap published protocol with
    | none => .long published protocol
    | some new =>
      .long (some (match published with
        | some (.int _) => .int new
        | _ => .text (Str.ofNat new))) protocol

/-! ## Block style -/

/-- A line without its end, whatever ends it. -/
def cutEnd (line : Str) : Str × Str :=
  let (body, nl) := lineBody line
  match body.getLast? with
  | some c => if nl = [] ∧ endsLine c = true then (body.dropLast, [c]) else (body, nl)
  | none => (body, nl)

/-- A scalar on its line: its quote, its text, and what follows that. -/
structure Value where
  quote : Str
  text : Str
  after : Str
deriving DecidableEq, Repr

def nulls : List Str := [[], lit "~", lit "null", lit "Null", lit "NULL"]

def Value.scalar (v : Value) : Option Scalar :=
  if v.quote ≠ [] then some (.text v.text)
  else if v.text ∈ nulls then none
  else if isdigit v.text then some (.int (int v.text))
  else some (.text v.text)

/-- What stands before a comment. -/
def uncomment : Str → Str
  | [] => []
  | c :: s => if isSpace c = true ∧ s.head? = some '#' then [] else c :: uncomment s

/-- Blanks, and a comment after one. -/
def onlyComment (s : Str) : Bool :=
  s.all isSpace || ((s.dropWhile isSpace).head? == some '#' && s.head?.all isSpace)

/-- Escapes in quotes are not read. -/
def readValue : Str → Option Value
  | [] => some ⟨[], [], []⟩
  | c :: s =>
    if isQuote c then (splitOnce c s).bind fun (text, after) => if onlyComment after then some ⟨[c], text, c :: after⟩ else none
    else if c = '#' then some ⟨[], [], c :: s⟩
    else
      let text := rstripWhere isSpace (uncomment (c :: s))
      some ⟨[], text, (c :: s).drop text.length⟩

/-- The key of a mapping line ends at a colon that a blank follows. -/
def untilColon : Str → Option Str
  | [] => none
  | c :: s => if c = ':' ∧ s.head?.all isSpace = true then some [] else (untilColon s).map (c :: ·)

/-- The key, with how long it is, its colon included. -/
def readKey : Str → Option (Str × Nat)
  | [] => none
  | c :: s =>
    if c = '#' then none
    else if isQuote c then
      (splitOnce c s).bind fun (key, after) => (untilColon after).bind fun gap =>
        if gap.all isSpace then some (key, key.length + gap.length + 3) else none
    else (untilColon (uncomment (c :: s))).map fun key => (rstripWhere isSpace key, key.length + 1)

structure LineRead where
  dash : Option Nat
  column : Nat
  key : Option Str
  before : Str
  value : Value
deriving DecidableEq, Repr

/-- What stands behind the indentation and a dash. -/
def readContent (dash : Option Nat) (before s : Str) : Option LineRead :=
  match readKey s with
  | some (key, n) =>
    let gap := (s.drop n).takeWhile isSpace
    (readValue ((s.drop n).dropWhile isSpace)).map fun v => ⟨dash, before.length, some key, before ++ s.take n ++ gap, v⟩
  | none => if dash = none then none else (readValue s).map fun v => ⟨dash, before.length, none, before, v⟩

/-- `none` for a blank line, a comment, and what is no line of block style. -/
def readLine (body : Str) : Option LineRead :=
  let indent := body.takeWhile isSpace
  match body.dropWhile isSpace with
  | [] => none
  | c :: s =>
    if c = '#' then none
    else if c = '-' ∧ s.head?.all isSpace = true then
      readContent (some indent.length) (indent ++ c :: s.takeWhile isSpace) (s.dropWhile isSpace)
    else readContent none indent (c :: s)

inductive PathStep
  | key (k : Str)
  | item (n : Nat)
deriving DecidableEq, Repr

/-- The column where something begins that the next lines may belong to. -/
abbrev Frame := Nat × PathStep

def PathStep.isItem : PathStep → Bool
  | .item _ => true
  | .key _ => false

/-- What a line belongs to: a list may stand at the column of its key. -/
def enclosing (stack : List Frame) (r : LineRead) : List Frame :=
  match r.dash with
  | some column => stack.dropWhile fun f => decide (column < f.1) || (f.1 == column && f.2.isItem)
  | none => stack.dropWhile fun f => decide (r.column ≤ f.1)

/-- What a line opens; an item is named by the number of its line. -/
def LineRead.frames (r : LineRead) (n : Nat) : List Frame :=
  (r.key.map fun k => (r.column, PathStep.key k)).toList ++ (r.dash.map fun column => (column, PathStep.item n)).toList

structure Placed where
  line : Str
  read : Option LineRead
  path : List PathStep

def walk : Nat → List Frame → List Str → List Placed
  | _, _, [] => []
  | n, stack, line :: lines =>
    match readLine (cutEnd line).1 with
    | none => ⟨line, none, []⟩ :: walk (n + 1) stack lines
    | some r =>
      let stack := r.frames n ++ enclosing stack r
      ⟨line, some r, (stack.map Prod.snd).reverse⟩ :: walk (n + 1) stack lines

def placedLines (text : Str) : List Placed := walk 0 [] (Stacks.splitlinesKeep text)

/-- What a line is to the lists `services.<name>.ports`. -/
inductive LineRole
  | other
  | entry (r : LineRead)
  | published (r : LineRead) (protocol : Option Scalar)

/-- The protocol beside a `published`. -/
def protocolAt (lines : List Placed) (path : List PathStep) : Option Scalar :=
  (lines.find? fun x => decide (x.path = path ++ [.key (lit "protocol")])).bind fun x => x.read.bind fun r => r.value.scalar

def Placed.role (x : Placed) (lines : List Placed) : LineRole :=
  match x.read, x.path with
  | some r, [.key top, .key _, .key list, .item _] =>
    if top = lit "services" ∧ list = lit "ports" ∧ r.key = none then .entry r else .other
  | some r, [.key top, .key _, .key list, .item _, .key _] =>
    if top = lit "services" ∧ list = lit "ports" ∧ r.key = some (lit "published") then .published r (protocolAt lines x.path.dropLast) else .other
  | _, _ => .other

/-! ## The property -/

def PortSpec.text : PortSpec → Str
  | .scalar s => s.str
  | .long published _ => (published.map Scalar.str).getD []

/-- The entry that a line is of. -/
def LineRole.spec : LineRole → Option (LineRead × PortSpec)
  | .other => none
  | .entry r => some (r, .scalar (r.value.scalar.getD (.text [])))
  | .published r protocol => some (r, .long r.value.scalar protocol)

/-- The line with the text of an entry in the place of its own; the blanks behind it may go. -/
def LineRead.put (r : LineRead) (line text : Str) : Str :=
  r.before ++ r.value.quote ++ text ++ rstripWhere isSpace r.value.after ++ (cutEnd line).2

/-- A line is changed iff it is of an entry that the structured rewrite changes, and then to what that gives. -/
def LineOk (portMap : PortMap) (role : LineRole) (line out : Str) : Prop :=
  match role.spec with
  | none => out = line
  | some (r, spec) => (out ≠ line ↔ rewritePortSpec spec portMap ≠ spec) ∧
      (rewritePortSpec spec portMap ≠ spec → out = r.put line (rewritePortSpec spec portMap).text)

/-- **The line rewriter agrees with the structured one.** -/
structure LinesAgree (portMap : PortMap) (text : Str) : Prop where
  lines : rewriteLinesPorts text portMap = (placedLines text).flatMap fun x => rewriteLinePorts portMap x.line
  ok : ∀ x ∈ placedLines text, LineOk portMap (x.role (placedLines text)) x.line (rewriteLinePorts portMap x.line)

/-- The port that an entry in long form is mapped to. -/
def ownPort (portMap : PortMap) (host : Nat) (protocol : Option Scalar) : Option Nat :=
  (Proto.parse (longProtocol protocol)).bind fun proto => portMap.get? ⟨host, proto⟩

/-- What the rewriter would put on a line is what the entry is mapped to. -/
def LineRole.Own (portMap : PortMap) (x : Form × Hit) (new : Nat) : LineRole → Prop
  | .published _ protocol => ownPort portMap (int (x.2.get (lit "host"))) protocol = some new
  | _ => True

/-- The lines that the rewriter has right: no other line reads as a mapped port; the line of an entry that is rewritten matches, is
closed by the quote that opened it and ends as `lineBody` knows; and a `published` has the protocol that is looked up. -/
structure ReadsRight (portMap : PortMap) (role : LineRole) (line : Str) : Prop where
  other : role.spec = none → ∀ x, readPort (lineBody line).1 = some x → mappedPort portMap x = none
  matched : ∀ r spec, role.spec = some (r, spec) → rewritePortSpec spec portMap ≠ spec → (readPort (lineBody line).1).isSome
  same : role.spec ≠ none → ∀ x new, readPort (lineBody line).1 = some x → mappedPort portMap x = some new →
    x.2.get (lit "q2") = x.2.get (lit "q") ∧ (lineBody line).2 = (cutEnd line).2 ∧ role.Own portMap x new

/-! ## What the expressions match -/

/-- The text of a port: an address, the host's port, the container's, the protocol with its slash. -/
structure PortText where
  ip : Option Str
  host : Str
  container : Option Str
  pr : Option Str
deriving DecidableEq

def IsPort (s : Str) : Prop := (∀ c ∈ s, isDigit c = true) ∧ 1 ≤ s.length ∧ s.length ≤ 5

namespace PortText

def parts (p : PortText) : List Str := p.ip.toList ++ p.host :: p.container.toList

def text (p : PortText) : Str := join ':' p.parts ++ p.pr.getD []

def groups (p : PortText) : List (Str × Str) :=
  (p.ip.map fun s => (lit "ip", s)).toList ++ ((lit "host", p.host) :: (p.container.map fun s => (lit "container", s)).toList) ++
    (p.pr.map fun s => (lit "pr", s)).toList

structure Valid (p : PortText) : Prop where
  ip : ∀ s ∈ p.ip, Lang ADDRESS s []
  host : IsPort p.host
  container : ∀ s ∈ p.container, IsPort s
  pr : ∀ s ∈ p.pr, Lang PROTOCOL s []
  bare : p.container = none → p.ip = none

end PortText

theorem lang_port {name t : Str} {gs : List (Str × Str)} : Lang (group name (times isDigit 1 5)) t gs ↔ IsPort t ∧ gs = [(name, t)] := by
  constructor
  · rintro ⟨-, ⟨hall, hleast, hmost, rfl⟩, rfl⟩
    exact ⟨⟨hall, hleast, hmost⟩, rfl⟩
  · rintro ⟨⟨hall, hleast, hmost⟩, rfl⟩
    exact ⟨[], ⟨hall, hleast, hmost, rfl⟩, rfl⟩

theorem lang_pr {t : Str} {gs : List (Str × Str)} : Lang (opt (group (lit "pr") PROTOCOL)) t gs ↔
    ∃ pr : Option Str, (∀ s ∈ pr, Lang PROTOCOL s []) ∧ t = pr.getD [] ∧ gs = (pr.map fun s => (lit "pr", s)).toList := by
  constructor
  · rintro (⟨gs', hlang, rfl⟩ | ⟨rfl, rfl⟩)
    · obtain rfl := hlang.groups_nil (by decide)
      exact ⟨some t, fun s hs => Option.some.inj hs ▸ hlang, rfl, rfl⟩
    · exact ⟨none, fun s hs => absurd hs (by simp), rfl, rfl⟩
  · rintro ⟨pr, hpr, rfl, rfl⟩
    cases pr with
    | none => exact Or.inr ⟨rfl, rfl⟩
    | some s => exact Or.inl ⟨[], hpr s rfl, rfl⟩

theorem lang_colon {t : Str} {gs : List (Str × Str)} : Lang (char ':') t gs ↔ t = [':'] ∧ gs = [] := by
  constructor
  · rintro ⟨⟨c, hc, rfl⟩, rfl⟩
    exact ⟨by rw [beq_iff_eq.1 hc], rfl⟩
  · rintro ⟨rfl, rfl⟩
    exact ⟨⟨':', rfl, rfl⟩, rfl⟩

theorem lang_ip {t : Str} {gs : List (Str × Str)} : Lang (opt (seq (group (lit "ip") ADDRESS) (char ':'))) t gs ↔
    ∃ ip : Option Str, (∀ s ∈ ip, Lang ADDRESS s []) ∧ t = (ip.map (· ++ [':'])).getD [] ∧ gs = (ip.map fun s => (lit "ip", s)).toList := by
  constructor
  · rintro (⟨b, gb, c, gc, ⟨gs', hb, rfl⟩, hc, rfl, rfl⟩ | ⟨rfl, rfl⟩)
    · obtain ⟨rfl, rfl⟩ := lang_colon.1 hc
      obtain rfl := hb.groups_nil (by decide)
      exact ⟨some b, fun s hs => Option.some.inj hs ▸ hb, rfl, rfl⟩
    · exact ⟨none, fun s hs => absurd hs (by simp), rfl, rfl⟩
  · rintro ⟨ip, hip, rfl, rfl⟩
    cases ip with
    | none => exact Or.inr ⟨rfl, rfl⟩
    | some s => exact Or.inl ⟨s, _, [':'], [], ⟨[], hip s rfl, rfl⟩, lang_colon.2 ⟨rfl, rfl⟩, rfl, rfl⟩

theorem lang_ports {t : Str} {gs : List (Str × Str)} : Lang PORTS t gs ↔ ∃ p : PortText, p.Valid ∧ p.container ≠ none ∧ t = p.text ∧ gs = p.groups := by
  constructor
  · rintro ⟨t₁, g₁, t₂, g₂, h₁, ⟨h, gh, t₃, g₃, hh, ⟨t₄, g₄, t₅, g₅, hcolon, ⟨c, gc, t₆, g₆, hc, hpr, rfl, rfl⟩, rfl, rfl⟩, rfl, rfl⟩, rfl, rfl⟩
    obtain ⟨ip, hip, rfl, rfl⟩ := lang_ip.1 h₁
    obtain ⟨hhost, rfl⟩ := lang_port.1 hh
    obtain ⟨rfl, rfl⟩ := lang_colon.1 hcolon
    obtain ⟨hcont, rfl⟩ := lang_port.1 hc
    obtain ⟨pr, hvalid, rfl, rfl⟩ := lang_pr.1 hpr
    refine ⟨⟨ip, h, some c, pr⟩, ⟨hip, hhost, fun s hs => Option.some.inj hs ▸ hcont, hvalid, by simp⟩, by simp, ?_, ?_⟩
    · cases ip <;> simp [PortText.text, PortText.parts, join]
    · cases ip <;> simp [PortText.groups]
  · rintro ⟨⟨ip, h, container, pr⟩, hv, hsome, rfl, rfl⟩
    obtain ⟨c, rfl⟩ := Option.ne_none_iff_exists'.1 hsome
    refine ⟨_, _, _, _, lang_ip.2 ⟨ip, hv.ip, rfl, rfl⟩, ⟨_, _, _, _, lang_port.2 ⟨hv.host, rfl⟩, ⟨_, _, _, _, lang_colon.2 ⟨rfl, rfl⟩,
      ⟨_, _, _, _, lang_port.2 ⟨hv.container c rfl, rfl⟩, lang_pr.2 ⟨pr, hv.pr, rfl, rfl⟩, rfl, rfl⟩, rfl, rfl⟩, rfl, rfl⟩, ?_, ?_⟩
    · cases ip <;> simp [PortText.text, PortText.parts, join]
    · cases ip <;> simp [PortText.groups]

theorem lang_bare {t : Str} {gs : List (Str × Str)} : Lang PORT t gs ↔
    ∃ p : PortText, p.Valid ∧ p.ip = none ∧ p.container = none ∧ t = p.text ∧ gs = p.groups := by
  constructor
  · rintro ⟨h, gh, t₂, g₂, hh, hpr, rfl, rfl⟩
    obtain ⟨hhost, rfl⟩ := lang_port.1 hh
    obtain ⟨pr, hvalid, rfl, rfl⟩ := lang_pr.1 hpr
    exact ⟨⟨none, h, none, pr⟩, ⟨by simp, hhost, by simp, hvalid, fun _ => rfl⟩, rfl, rfl, rfl, rfl⟩
  · rintro ⟨⟨ip, h, container, pr⟩, hv, hip, hcont, rfl, rfl⟩
    obtain rfl : ip = none := hip
    obtain rfl : container = none := hcont
    exact ⟨_, _, _, _, lang_port.2 ⟨hv.host, rfl⟩, lang_pr.2 ⟨pr, hv.pr, rfl, rfl⟩, rfl, rfl⟩

/-! ## The characters of a port -/

/-- No blank, no quote, and no beginning of a comment. -/
def Inner (c : Char) : Prop := isSpace c = false ∧ isQuote c = false ∧ c ≠ '#'

instance (c : Char) : Decidable (Inner c) := inferInstanceAs (Decidable (_ ∧ _ ∧ _))

theorem inner_digit {c : Char} (h : isDigit c = true) : Inner c := by
  have hc := of_decide_eq_true h
  have hlow : 48 ≤ c.toNat := hc.1
  have hhigh : c.toNat ≤ 57 := hc.2
  refine ⟨?_, ?_, ?_⟩
  · unfold isSpace
    simp only [Bool.or_eq_false_iff, Bool.and_eq_false_iff, decide_eq_false_iff_not, beq_eq_false_iff_ne]
    omega
  · unfold isQuote
    rw [Bool.or_eq_false_iff]
    constructor <;> refine beq_eq_false_iff_ne.2 ?_ <;> rintro rfl <;> exact absurd h (by decide)
  · rintro rfl
    exact absurd h (by decide)

/-- A letter, whatever its case. -/
theorem inner_letter {c l : Char} (h : (c.toLower == l.toLower) = true) (hl : Inner l.toLower) : Inner c := by
  rw [beq_iff_eq] at h
  refine ⟨?_, ?_, ?_⟩
  · rw [← isSpace_toLower, h]
    exact hl.1
  · unfold isQuote
    rw [Bool.or_eq_false_iff]
    constructor <;> refine beq_eq_false_iff_ne.2 ?_ <;> rintro rfl <;> rw [← h] at hl <;> exact absurd hl.2.1 (by decide)
  · rintro rfl
    rw [← h] at hl
    exact absurd hl.2.2 (by decide)

theorem address_char {s : Str} {c : Char} (h : Lang ADDRESS s []) (hc : c ∈ s) : isDigit c = true ∨ c = '.' := by
  have huses := h.uses hc
  simp only [ADDRESS, thrice, Regex.char, Regex.uses, Bool.or_eq_true, beq_iff_eq] at huses
  tauto

/-- The letters of a word, whatever their case. -/
theorem word_inner {w : Str} (hw : ∀ l ∈ w, Inner l.toLower) : ∀ {s : Str} {gs : List (Str × Str)}, Lang (word w) s gs → ∀ c ∈ s, Inner c := by
  induction w with
  | nil =>
    rintro s gs ⟨-, -, hlen, -⟩ c hc
    rw [List.length_eq_zero_iff.1 (Nat.le_zero.1 hlen)] at hc
    cases hc
  | cons l w ih =>
    have hl := hw l List.mem_cons_self
    cases w with
    | nil =>
      rintro s gs ⟨⟨c, hc, rfl⟩, -⟩ d hd
      rw [List.mem_singleton.1 hd]
      exact inner_letter hc hl
    | cons l' w =>
      rintro s gs ⟨_, _, t, _, ⟨⟨c, hc, rfl⟩, -⟩, ht, rfl, -⟩ d hd
      rcases List.mem_cons.1 hd with rfl | hd
      · exact inner_letter hc hl
      · exact ih (fun x hx => hw x (List.mem_cons_of_mem l hx)) ht d hd

theorem protocol_cons {s : Str} (h : Lang PROTOCOL s []) : ∃ name, s = '/' :: name ∧ ∀ c ∈ name, Inner c := by
  obtain ⟨_, _, name, _, ⟨⟨c, hc, rfl⟩, -⟩, hname, rfl, -⟩ := h
  rw [beq_iff_eq] at hc
  refine ⟨name, by rw [hc]; rfl, ?_⟩
  rcases hname with hname | hname
  · exact word_inner (forall_of_all (by decide)) hname
  · exact word_inner (forall_of_all (by decide)) hname

theorem IsPort.notMem {s : Str} (h : IsPort s) {c : Char} (hc : isDigit c = false) : c ∉ s := fun hmem =>
  Bool.noConfusion (hc.symm.trans (h.1 c hmem))

theorem mem_join {s : List Str} {c d : Char} (h : c ∈ join d s) : c = d ∨ ∃ x ∈ s, c ∈ x := by
  induction s with
  | nil => cases h
  | cons x s ih =>
    cases s with
    | nil => exact Or.inr ⟨x, List.mem_cons_self, h⟩
    | cons y s =>
      rcases List.mem_append.1 h with h | h
      · exact Or.inr ⟨x, List.mem_cons_self, h⟩
      · rcases List.mem_cons.1 h with rfl | h
        · exact Or.inl rfl
        · exact (ih h).imp_right fun ⟨z, hz, hc⟩ => ⟨z, List.mem_cons_of_mem x hz, hc⟩

namespace PortText
variable {p p' : PortText}

theorem Valid.part {s : Str} {c : Char} (h : p.Valid) (hs : s ∈ p.parts) (hc : c ∈ s) : isDigit c = true ∨ c = '.' := by
  rcases List.mem_append.1 hs with hs | hs
  · exact address_char (h.ip s (Option.mem_toList.1 hs)) hc
  · rcases List.mem_cons.1 hs with rfl | hs
    · exact Or.inl (h.host.1 c hc)
    · exact Or.inl ((h.container s (Option.mem_toList.1 hs)).1 c hc)

theorem Valid.notMem_part {s : Str} {c : Char} (h : p.Valid) (hs : s ∈ p.parts) (hd : isDigit c = false) (hdot : c ≠ '.') : c ∉ s := by
  intro hc
  rcases h.part hs hc with hdigit | hdot'
  · exact Bool.noConfusion (hd.symm.trans hdigit)
  · exact hdot hdot'

theorem Valid.inner {c : Char} (h : p.Valid) (hc : c ∈ p.text) : Inner c := by
  rcases List.mem_append.1 hc with hc | hc
  · rcases mem_join hc with rfl | ⟨s, hs, hc⟩
    · decide
    · rcases h.part hs hc with hd | rfl
      · exact inner_digit hd
      · decide
  · cases hpr : p.pr with
    | none =>
      rw [hpr] at hc
      cases hc
    | some s =>
      obtain ⟨name, rfl, hname⟩ := protocol_cons (h.pr s hpr)
      rw [hpr] at hc
      rcases List.mem_cons.1 hc with rfl | hc
      · decide
      · exact hname c hc

theorem parts_ne_nil : p.parts ≠ [] := by simp [parts]

/-- What stands before the slash, and behind it. -/
theorem Valid.cut (h : p.Valid) : p.text.takeWhile (· != '/') = join ':' p.parts ∧ p.text.dropWhile (· != '/') = p.pr.getD [] := by
  have hslash : '/' ∉ join ':' p.parts := by
    intro hc
    rcases mem_join hc with heq | ⟨s, hs, hc⟩
    · cases heq
    · exact h.notMem_part hs (by decide) (by decide) hc
  unfold text
  cases hpr : p.pr with
  | none =>
    have hall : ∀ c ∈ join ':' p.parts, (c != '/') = true := fun c hc => bne_iff_ne.2 fun heq => hslash (heq ▸ hc)
    rw [Option.getD_none, List.append_nil]
    exact ⟨List.takeWhile_eq_self_iff.2 hall, List.dropWhile_eq_nil_iff.2 hall⟩
  | some s =>
    obtain ⟨name, rfl, -⟩ := protocol_cons (h.pr s hpr)
    exact ⟨takeWhile_append_cons hslash name, dropWhile_append_cons hslash name⟩

/-- A port is determined by its text. -/
theorem Valid.text_injective (h : p.Valid) (h' : p'.Valid) (htext : p.text = p'.text) : p = p' := by
  have hsplit : ∀ {p : PortText}, p.Valid → split ':' (join ':' p.parts) = p.parts := fun h =>
    split_join parts_ne_nil fun s hs => h.notMem_part hs (by decide) (by decide)
  have hparts : p.parts = p'.parts := by rw [← hsplit h, ← hsplit h', ← h.cut.1, ← h'.cut.1, htext]
  have hpr : p.pr.getD [] = p'.pr.getD [] := by rw [← h.cut.2, ← h'.cut.2, htext]
  have hsome : ∀ {p : PortText}, p.Valid → p.pr = if p.pr.getD [] = [] then none else some (p.pr.getD []) := by
    intro p h
    cases hpr : p.pr with
    | none => rfl
    | some s =>
      obtain ⟨name, rfl, -⟩ := protocol_cons (h.pr s hpr)
      rfl
  have hprs : p.pr = p'.pr := by rw [hsome h, hsome h', hpr]
  obtain ⟨ip, host, container, pr⟩ := p
  obtain ⟨ip', host', container', pr'⟩ := p'
  have hb := h.bare
  have hb' := h'.bare
  simp only at hprs hb hb'
  subst hprs
  cases container <;> cases container' <;> cases ip <;> cases ip' <;> simp_all [parts]

end PortText

/-! ## What the rewriter reads off a line -/

def Blank (s : Str) : Prop := ∀ c ∈ s, isSpace c = true

def IsQuoteText (q : Str) : Prop := q = [] ∨ ∃ c, isQuote c = true ∧ q = [c]

/-- The protocol of a port in short form. -/
def PortText.protocol (p : PortText) : Option Proto := Proto.parse (lower (lstrip '/' (p.pr.getD (lit "/tcp"))))

/-- A line that matches, part by part. -/
structure PortLine (body : Str) (x : Form × Hit) (pre q : Str) (p : PortText) (q2 sp : Str) : Prop where
  body : body = pre ++ q ++ p.text ++ q2 ++ sp
  quote : IsQuoteText q
  quote2 : IsQuoteText q2
  blank : Blank sp
  valid : p.Valid
  item : x.1 ≠ .published → (∃ a b, Blank a ∧ Blank b ∧ pre = a ++ '-' :: b) ∧ x.1.protocols x.2 = p.protocol.toList
  published : x.1 = .published → (∃ a w b, Blank a ∧ Blank b ∧ lower w = lit "published:" ∧ pre = a ++ w ++ b) ∧ p = ⟨none, p.host, none, none⟩
  getQuote : x.2.get (lit "q") = q ∧ x.2.get (lit "q2") = q2
  host : x.2.get (lit "host") = p.host
  render : ∀ new, x.1.render x.2 new = pre ++ q ++ ({ p with host := new } : PortText).text ++ q2

theorem lang_blanks {t : Str} {gs : List (Str × Str)} (h : Lang blanks t gs) : Blank t ∧ gs = [] := by
  rcases h with ⟨hall, -, rfl⟩ | ⟨rfl, rfl⟩
  · exact ⟨hall, rfl⟩
  · exact ⟨fun c hc => absurd hc List.not_mem_nil, rfl⟩

theorem lang_quote {name t : Str} {gs : List (Str × Str)} (h : Lang (quoteGroup name) t gs) : IsQuoteText t ∧ gs = [(name, t)] := by
  obtain ⟨gs', h, rfl⟩ := h
  rcases h with ⟨⟨c, hc, rfl⟩, rfl⟩ | ⟨rfl, rfl⟩
  · exact ⟨Or.inr ⟨c, hc, rfl⟩, rfl⟩
  · exact ⟨Or.inl rfl, rfl⟩

theorem lang_sp {t : Str} {gs : List (Str × Str)} (h : Lang (group (lit "sp") blanks) t gs) : Blank t ∧ gs = [(lit "sp", t)] := by
  obtain ⟨gs', h, rfl⟩ := h
  obtain ⟨hblank, rfl⟩ := lang_blanks h
  exact ⟨hblank, rfl⟩

theorem lang_word {w : Str} : ∀ {s : Str} {gs : List (Str × Str)}, Lang (word w) s gs → lower s = lower w ∧ gs = [] := by
  induction w with
  | nil =>
    rintro s gs ⟨-, -, hlen, rfl⟩
    rw [List.length_eq_zero_iff.1 (Nat.le_zero.1 hlen)]
    exact ⟨rfl, rfl⟩
  | cons l w ih =>
    cases w with
    | nil =>
      rintro s gs ⟨⟨c, hc, rfl⟩, rfl⟩
      exact ⟨congrArg (fun x => [x]) (beq_iff_eq.1 hc), rfl⟩
    | cons l' w =>
      rintro s gs ⟨_, _, t, _, ⟨⟨c, hc, rfl⟩, rfl⟩, ht, rfl, rfl⟩
      obtain ⟨htext, rfl⟩ := ih ht
      exact ⟨congrArg₂ List.cons (beq_iff_eq.1 hc) htext, rfl⟩

theorem matchLine_some {r : Regex} {s : Str} {m : Hit} (h : r.matchLine s = some m) :
    s = m.text ++ m.rest ∧ Lang r m.text m.groups ∧ Blank m.rest := by
  obtain ⟨heq, hlang⟩ := mem_run.1 (List.mem_of_find?_eq_some h)
  have hfound := List.find?_some (p := fun x : Hit => decide (x.rest = [] ∨ x.rest = ['\n'])) h
  have hrest := of_decide_eq_true hfound
  refine ⟨heq, hlang, ?_⟩
  rcases hrest with hnil | hnl
  · rw [hnil]
    exact fun c hc => absurd hc List.not_mem_nil
  · rw [hnl]
    intro c hc
    rw [List.mem_singleton.1 hc]
    decide

theorem Blank.append {a b : Str} (ha : Blank a) (hb : Blank b) : Blank (a ++ b) := fun c hc => (List.mem_append.1 hc).elim (ha c) (hb c)

/-- The parts of an item. -/
theorem lang_item {r : Regex} {t : Str} {gs : List (Str × Str)} (h : Lang (itemOf r) t gs) :
    ∃ a b q core gcore q2 sp, Blank a ∧ Blank b ∧ IsQuoteText q ∧ IsQuoteText q2 ∧ Blank sp ∧ Lang r core gcore ∧
      t = (a ++ '-' :: b) ++ q ++ core ++ q2 ++ sp ∧
      gs = (lit "pre", a ++ '-' :: b) :: (lit "q", q) :: (gcore ++ [(lit "q2", q2), (lit "sp", sp)]) := by
  obtain ⟨pre, _, _, _, ⟨gpre, ⟨a, _, _, _, ha, ⟨_, _, b, _, ⟨⟨c, hc, rfl⟩, rfl⟩, hb, rfl, rfl⟩, rfl, rfl⟩, rfl⟩,
    ⟨q, _, _, _, hq, ⟨core, gcore, _, _, hcore, ⟨q2, _, sp, _, hq2, hsp, rfl, rfl⟩, rfl, rfl⟩, rfl, rfl⟩, rfl, rfl⟩ := h
  obtain ⟨hblankA, rfl⟩ := lang_blanks ha
  obtain ⟨hblankB, rfl⟩ := lang_blanks hb
  obtain ⟨hquote, rfl⟩ := lang_quote hq
  obtain ⟨hquote2, rfl⟩ := lang_quote hq2
  obtain ⟨hblank, rfl⟩ := lang_sp hsp
  rw [beq_iff_eq] at hc
  subst hc
  refine ⟨a, b, q, core, gcore, q2, sp, hblankA, hblankB, hquote, hquote2, hblank, hcore, ?_, ?_⟩
  · simp only [List.append_assoc, List.cons_append, List.nil_append]
  · simp only [List.nil_append, List.append_nil, List.cons_append]

theorem address_ne_nil {s : Str} (h : Lang ADDRESS s []) : s ≠ [] := by
  obtain ⟨_, _, _, _, ⟨_, _, _, _, ⟨_, _, _, _, -, ⟨⟨c, -, rfl⟩, -⟩, rfl, -⟩, -, rfl, -⟩, -, rfl, -⟩ := h
  simp

/-- The groups of a line. -/
theorem get_groups {m : Hit} {pre q q2 sp : Str} {p : PortText}
    (h : m.groups = (lit "pre", pre) :: (lit "q", q) :: (p.groups ++ [(lit "q2", q2), (lit "sp", sp)])) :
    m.get (lit "pre") = pre ∧ m.get (lit "q") = q ∧ m.get (lit "q2") = q2 ∧ m.get (lit "host") = p.host ∧
      m.get (lit "ip") = p.ip.getD [] ∧ m.get (lit "container") = p.container.getD [] ∧ m.get (lit "pr") = p.pr.getD [] := by
  obtain ⟨ip, host, container, pr⟩ := p
  unfold Hit.get Hit.group
  rw [h]
  cases ip <;> cases container <;> cases pr <;> exact ⟨rfl, rfl, rfl, rfl, rfl, rfl, rfl⟩

theorem protocolOf_eq {m : Hit} {p : PortText} (hv : p.Valid) (h : m.get (lit "pr") = p.pr.getD []) : protocolOf m = p.protocol := by
  unfold protocolOf PortText.protocol
  rw [h]
  cases hpr : p.pr with
  | none => rfl
  | some s =>
    obtain ⟨name, rfl, -⟩ := protocol_cons (hv.pr s hpr)
    rfl

theorem ipPrefix_eq {m : Hit} {p : PortText} (hv : p.Valid) (h : m.get (lit "ip") = p.ip.getD []) : ipPrefix m = (p.ip.map (· ++ [':'])).getD [] := by
  unfold ipPrefix
  rw [h]
  cases hip : p.ip with
  | none => rfl
  | some s => exact if_neg (address_ne_nil (hv.ip s hip))

theorem PortText.text_eq (p : PortText) (h : p.container = none → p.ip = none) : p.text = (p.ip.map (· ++ [':'])).getD [] ++ p.host ++
    (p.container.map (':' :: ·)).getD [] ++ p.pr.getD [] := by
  obtain ⟨ip, host, container, pr⟩ := p
  cases ip <;> cases container <;> simp_all [text, parts, join]

theorem portLine_short {body : Str} {m : Hit} (h : SHORT_PORT.matchLine body = some m) :
    ∃ pre q p q2 sp, PortLine body (.short, m) pre q p q2 sp ∧ p.container ≠ none := by
  obtain ⟨hbody, hlang, hrest⟩ := matchLine_some h
  obtain ⟨a, b, q, core, gcore, q2, sp, ha, hb, hq, hq2, hsp, hcore, htext, hgs⟩ := lang_item hlang
  obtain ⟨p, hv, hsome, rfl, rfl⟩ := lang_ports.1 hcore
  obtain ⟨hpre, hgq, hgq2, hhost, hip, hcont, hpr⟩ := get_groups hgs
  refine ⟨a ++ '-' :: b, q, p, q2, sp ++ m.rest, ⟨?_, hq, hq2, hsp.append hrest, hv, fun _ => ⟨⟨a, b, ha, hb, rfl⟩, ?_⟩, fun hpub => absurd hpub (by simp),
    ⟨hgq, hgq2⟩, hhost, fun new => ?_⟩, hsome⟩
  · rw [hbody, htext]
    simp only [List.append_assoc]
  · exact congrArg Option.toList (protocolOf_eq hv hpr)
  · obtain ⟨c, hc⟩ := Option.ne_none_iff_exists'.1 hsome
    rw [PortText.text_eq { p with host := new } hv.bare]
    unfold Form.render
    rw [hpre, hgq, hgq2, ipPrefix_eq hv hip, hcont, hpr, hc]
    simp [lit]

theorem portLine_bare {body : Str} {m : Hit} (h : BARE_PORT.matchLine body = some m) :
    ∃ pre q p q2 sp, PortLine body (.bare, m) pre q p q2 sp ∧ p.container = none := by
  obtain ⟨hbody, hlang, hrest⟩ := matchLine_some h
  obtain ⟨a, b, q, core, gcore, q2, sp, ha, hb, hq, hq2, hsp, hcore, htext, hgs⟩ := lang_item hlang
  obtain ⟨p, hv, hip, hcont, rfl, rfl⟩ := lang_bare.1 hcore
  obtain ⟨hpre, hgq, hgq2, hhost, -, -, hpr⟩ := get_groups hgs
  refine ⟨a ++ '-' :: b, q, p, q2, sp ++ m.rest, ⟨?_, hq, hq2, hsp.append hrest, hv, fun _ => ⟨⟨a, b, ha, hb, rfl⟩, ?_⟩, fun hpub => absurd hpub (by simp),
    ⟨hgq, hgq2⟩, hhost, fun new => ?_⟩, hcont⟩
  · rw [hbody, htext]
    simp only [List.append_assoc]
  · exact congrArg Option.toList (protocolOf_eq hv hpr)
  · rw [PortText.text_eq { p with host := new } hv.bare]
    unfold Form.render
    rw [hpre, hgq, hgq2, hpr, hip, hcont]
    simp

theorem portLine_published {body : Str} {m : Hit} (h : PUBLISHED.matchLine body = some m) :
    ∃ pre q p q2 sp, PortLine body (.published, m) pre q p q2 sp := by
  obtain ⟨hbody, hlang, hrest⟩ := matchLine_some h
  obtain ⟨_, _, _, _, ⟨_, ⟨a, _, _, _, ha, ⟨w, _, b, _, hw, hb, rfl, rfl⟩, rfl, rfl⟩, rfl⟩,
    ⟨q, _, _, _, hq, ⟨host, _, _, _, hhost, ⟨q2, _, sp, _, hq2, hsp, rfl, rfl⟩, rfl, rfl⟩, rfl, rfl⟩, htext, hgs⟩ := hlang
  obtain ⟨hblankA, rfl⟩ := lang_blanks ha
  obtain ⟨hblankB, rfl⟩ := lang_blanks hb
  obtain ⟨hword, rfl⟩ := lang_word hw
  obtain ⟨hquote, rfl⟩ := lang_quote hq
  obtain ⟨hport, rfl⟩ := lang_port.1 hhost
  obtain ⟨hquote2, rfl⟩ := lang_quote hq2
  obtain ⟨hblank, rfl⟩ := lang_sp hsp
  have hgroups : m.groups = (lit "pre", a ++ (w ++ b)) :: (lit "q", q) ::
      ((⟨none, host, none, none⟩ : PortText).groups ++ [(lit "q2", q2), (lit "sp", sp)]) := hgs
  obtain ⟨hpre, hgq, hgq2, hgh, -, -, -⟩ := get_groups hgroups
  refine ⟨a ++ (w ++ b), q, ⟨none, host, none, none⟩, q2, sp ++ m.rest, ⟨?_, hquote, hquote2, hblank.append hrest,
    ⟨by simp, hport, by simp, by simp, fun _ => rfl⟩, fun hne => absurd rfl hne,
    fun _ => ⟨⟨a, w, b, hblankA, hblankB, hword.trans (by decide), (List.append_assoc a w b).symm⟩, ?_⟩, ⟨hgq, hgq2⟩, hgh, fun new => ?_⟩⟩
  · rw [hbody, htext]
    simp [PortText.text, PortText.parts, join]
  · rfl
  · unfold Form.render
    rw [hpre, hgq, hgq2]
    simp [PortText.text, PortText.parts, join]

theorem readPort_some {body : Str} {x : Form × Hit} (h : readPort body = some x) : ∃ pre q p q2 sp, PortLine body x pre q p q2 sp := by
  obtain ⟨f, -, hf⟩ := List.exists_of_findSome?_eq_some h
  obtain ⟨m, hm, rfl⟩ := Option.map_eq_some_iff.1 hf
  cases f with
  | short =>
    obtain ⟨pre, q, p, q2, sp, hline, -⟩ := portLine_short hm
    exact ⟨pre, q, p, q2, sp, hline⟩
  | bare =>
    obtain ⟨pre, q, p, q2, sp, hline, -⟩ := portLine_bare hm
    exact ⟨pre, q, p, q2, sp, hline⟩
  | published => exact portLine_published hm

/-! ## A line that is rewritten is another -/

/-- It does not begin with a digit. -/
def NoDigit (s : Str) : Prop := ∀ c ∈ s.head?, isDigit c = false

theorem NoDigit.append {a b : Str} (ha : NoDigit a) (hb : NoDigit b) : NoDigit (a ++ b) := by
  cases a with
  | nil => exact hb
  | cons c a => exact ha

theorem noDigit_of_not_inner {s : Str} (h : ∀ c ∈ s, ¬ Inner c) : NoDigit s := by
  intro c hc
  cases hd : isDigit c with
  | false => rfl
  | true => exact absurd (inner_digit hd) (h c (List.mem_of_mem_head? hc))

theorem Blank.noDigit {s : Str} (h : Blank s) : NoDigit s := noDigit_of_not_inner fun c hc hinner => Bool.noConfusion ((h c hc).symm.trans hinner.1)

theorem IsQuoteText.not_inner {q : Str} (h : IsQuoteText q) : ∀ c ∈ q, ¬ Inner c := by
  rcases h with rfl | ⟨c, hc, rfl⟩
  · exact fun c hc => absurd hc List.not_mem_nil
  · intro d hd hinner
    rw [List.mem_singleton.1 hd] at hinner
    exact Bool.noConfusion (hc.symm.trans hinner.2.1)

theorem IsQuoteText.noDigit {q : Str} (h : IsQuoteText q) : NoDigit q := noDigit_of_not_inner h.not_inner

/-- Digits are cut where they end. -/
theorem digits_cut {a a' s s' : Str} (ha : ∀ c ∈ a, isDigit c = true) (ha' : ∀ c ∈ a', isDigit c = true) (hs : NoDigit s) (hs' : NoDigit s')
    (h : a ++ s = a' ++ s') : a = a' := by
  have htake : ∀ {a s : Str}, (∀ c ∈ a, isDigit c = true) → NoDigit s → (a ++ s).takeWhile isDigit = a := by
    intro a s ha hs
    rw [List.takeWhile_append_of_pos ha]
    cases s with
    | nil => simp
    | cons c s => rw [List.takeWhile_cons_of_neg (by rw [hs c rfl]; simp), List.append_nil]
  rw [← htake ha hs, h, htake ha' hs']

theorem digits_ofNat (n : Nat) : ∀ c ∈ Str.ofNat n, isDigit c = true := by
  have h := isdigit_ofNat n
  rw [isdigit, Bool.and_eq_true, List.all_eq_true] at h
  exact h.2

theorem PortText.Valid.tail_noDigit {p : PortText} (hv : p.Valid) : NoDigit ((p.container.map (':' :: ·)).getD [] ++ p.pr.getD []) := by
  cases p.container with
  | some c => exact fun d hd => by rw [← Option.some.inj hd]; rfl
  | none =>
    cases hpr : p.pr with
    | none => exact fun d hd => absurd hd (by simp)
    | some s =>
      obtain ⟨name, rfl, -⟩ := protocol_cons (hv.pr s hpr)
      exact fun d hd => by rw [← Option.some.inj hd]; rfl

/-- The port of a text is determined, whatever follows. -/
theorem PortText.Valid.host_cut {p : PortText} (hv : p.Valid) {a b s t : Str} (ha : ∀ c ∈ a, isDigit c = true) (hb : ∀ c ∈ b, isDigit c = true)
    (hs : NoDigit s) (ht : NoDigit t) (h : ({ p with host := a } : PortText).text ++ s = ({ p with host := b } : PortText).text ++ t) : a = b := by
  rw [PortText.text_eq { p with host := a } hv.bare, PortText.text_eq { p with host := b } hv.bare] at h
  simp only [List.append_assoc, List.append_cancel_left_eq] at h
  have htail := hv.tail_noDigit
  exact digits_cut ha hb (htail.append hs) (htail.append ht) (by simpa only [List.append_assoc] using h)

theorem PortText.Valid.withHost_ne {p : PortText} (hv : p.Valid) {new : Nat} (hne : new ≠ int p.host) {s s' : Str} (hs : NoDigit s) (hs' : NoDigit s') :
    ({ p with host := Str.ofNat new } : PortText).text ++ s ≠ p.text ++ s' := by
  intro heq
  have hhost := hv.host_cut (b := p.host) (digits_ofNat new) hv.host.1 hs hs' heq
  exact hne (by rw [← hhost, int_ofNat])

theorem PortLine.render_ne {body : Str} {x : Form × Hit} {pre q : Str} {p : PortText} {q2 sp nl : Str} (h : PortLine body x pre q p q2 sp)
    (hnl : Blank nl) {new : Nat} (hne : new ≠ int p.host) : x.1.render x.2 (Str.ofNat new) ++ nl ≠ body ++ nl := by
  intro heq
  rw [h.render, h.body] at heq
  simp only [List.append_assoc, List.append_cancel_left_eq] at heq
  exact h.valid.withHost_ne hne (h.quote2.noDigit.append hnl.noDigit) (h.quote2.noDigit.append (h.blank.noDigit.append hnl.noDigit)) heq

/-! ## Such a line in block style -/

theorem untilColon_append {s : Str} : ∀ {u : Str}, ':' ∉ u → untilColon (u ++ s) = (untilColon s).map (u ++ ·)
  | [], _ => by
    rw [List.nil_append]
    cases untilColon s <;> rfl
  | c :: u, h => by
    have hc : ¬ (c = ':' ∧ (u ++ s).head?.all isSpace = true) := fun hboth => h (hboth.1 ▸ List.mem_cons_self)
    rw [List.cons_append, untilColon, if_neg hc, untilColon_append fun hmem => h (List.mem_cons_of_mem c hmem)]
    cases untilColon s <;> rfl

theorem untilColon_none {u : Str} (h : ':' ∉ u) : untilColon u = none := by
  have happ := untilColon_append (s := []) h
  rwa [List.append_nil] at happ

/-- A colon that no blank follows ends no key. -/
theorem untilColon_colon {c : Char} {s : Str} (hc : isSpace c = false) : untilColon (':' :: c :: s) = (untilColon (c :: s)).map (':' :: ·) := by
  rw [untilColon, if_neg fun h => by simp [hc] at h]

theorem port_cons {s : Str} (h : IsPort s) : ∃ c t, s = c :: t ∧ isDigit c = true := by
  cases s with
  | nil => exact absurd h.2.1 (by simp)
  | cons c t => exact ⟨c, t, rfl, h.1 c List.mem_cons_self⟩

/-- The colons of a port end no key. -/
theorem PortText.Valid.untilColon {p : PortText} (hv : p.Valid) {s : Str} (hs : untilColon s = none) : untilColon (p.text ++ s) = none := by
  have hpr : Migrate.untilColon (p.pr.getD [] ++ s) = none := by
    cases hpr : p.pr with
    | none => exact hs
    | some r =>
      have hcolon : ':' ∉ r := fun hc => absurd ((hv.pr r hpr).uses hc) (by decide)
      rw [Option.getD_some, untilColon_append hcolon, hs]
      rfl
  have hcontainer : Migrate.untilColon ((p.container.map (':' :: ·)).getD [] ++ (p.pr.getD [] ++ s)) = none := by
    cases hc : p.container with
    | none => exact hpr
    | some r =>
      obtain ⟨c, t, rfl, hd⟩ := port_cons (hv.container r hc)
      rw [Option.map_some, Option.getD_some, List.cons_append, List.cons_append, untilColon_colon (inner_digit hd).1, ← List.cons_append,
        untilColon_append ((hv.container _ hc).notMem (by decide)), hpr]
      rfl
  have hhost : Migrate.untilColon (p.host ++ ((p.container.map (':' :: ·)).getD [] ++ (p.pr.getD [] ++ s))) = none := by
    rw [untilColon_append (hv.host.notMem (by decide)), hcontainer]
    rfl
  rw [p.text_eq hv.bare]
  simp only [List.append_assoc]
  cases hip : p.ip with
  | none => exact hhost
  | some r =>
    have hcolon : ':' ∉ r := fun hc => by
      rcases address_char (hv.ip r hip) hc with h | h
      · exact absurd h (by decide)
      · exact absurd h (by decide)
    obtain ⟨c, t, heq, hd⟩ := port_cons hv.host
    rw [Option.map_some, Option.getD_some, List.append_assoc, untilColon_append hcolon, List.singleton_append]
    rw [heq, List.cons_append] at hhost ⊢
    rw [untilColon_colon (inner_digit hd).1, hhost]
    rfl

theorem uncomment_of_notMem : ∀ {s : Str}, '#' ∉ s → uncomment s = s
  | [], _ => rfl
  | c :: s, h => by
    have hs : '#' ∉ s := fun hmem => h (List.mem_cons_of_mem c hmem)
    rw [uncomment, if_neg fun hboth => hs (List.mem_of_mem_head? hboth.2), uncomment_of_notMem hs]

theorem Blank.notMem {s : Str} (h : Blank s) {c : Char} (hc : isSpace c = false) : c ∉ s := fun hmem => Bool.noConfusion ((h c hmem).symm.trans hc)

theorem IsQuoteText.notMem {q : Str} (h : IsQuoteText q) {c : Char} (hc : isQuote c = false) : c ∉ q := by
  rcases h with rfl | ⟨d, hd, rfl⟩
  · exact List.not_mem_nil
  · rw [List.mem_singleton]
    rintro rfl
    exact Bool.noConfusion (hc.symm.trans hd)

theorem takeWhile_blank {a s : Str} (ha : Blank a) (hs : ∀ c ∈ s.head?, isSpace c = false) : (a ++ s).takeWhile isSpace = a ∧ (a ++ s).dropWhile isSpace = s := by
  rw [List.takeWhile_append_of_pos ha, List.dropWhile_append_of_pos ha]
  cases s with
  | nil => simp
  | cons c s =>
    rw [List.takeWhile_cons_of_neg (by rw [hs c rfl]; simp), List.dropWhile_cons_of_neg (by rw [hs c rfl]; simp), List.append_nil]
    exact ⟨rfl, rfl⟩

theorem rstrip_blank {s sp : Str} (hs : ∀ c ∈ s.getLast?, isSpace c = false) (hsp : Blank sp) : rstripWhere isSpace (s ++ sp) = s := by
  unfold rstripWhere List.rdropWhile
  have hrev : ∀ c ∈ sp.reverse, isSpace c = true := fun c hc => hsp c (List.mem_reverse.1 hc)
  rw [List.reverse_append, List.dropWhile_append_of_pos hrev]
  cases hlast : s.reverse with
  | nil => rw [List.reverse_eq_nil_iff.1 hlast]; rfl
  | cons c t =>
    have hc : c ∈ s.getLast? := by rw [List.getLast?_eq_head?_reverse, hlast]; rfl
    rw [List.dropWhile_cons_of_neg (by rw [hs c hc]; simp), ← hlast, List.reverse_reverse]

/-- The value of a text between quotes, blanks behind them. -/
def valueOf (q text q2 sp : Str) : Option Value :=
  if q = [] then some ⟨[], text ++ q2, sp⟩ else if q2 = q then some ⟨q, text, q ++ sp⟩ else none

theorem quote_not_space {c : Char} (h : isQuote c = true) : isSpace c = false := by
  unfold isQuote at h
  rw [Bool.or_eq_true, beq_iff_eq, beq_iff_eq] at h
  rcases h with rfl | rfl <;> decide

theorem readValue_quoted {c : Char} (h : isQuote c = true) (s : Str) : readValue (c :: s) =
    (splitOnce c s).bind fun x => if onlyComment x.2 then some ⟨[c], x.1, c :: x.2⟩ else none := by
  rw [readValue, if_pos h]

theorem readValue_plain {c : Char} (h : isQuote c = false) (hc : c ≠ '#') (s : Str) : readValue (c :: s) =
    some ⟨[], rstripWhere isSpace (uncomment (c :: s)), (c :: s).drop (rstripWhere isSpace (uncomment (c :: s))).length⟩ := by
  rw [readValue, if_neg (by rw [h]; simp), if_neg hc]

theorem core_head {q text : Str} (hq : IsQuoteText q) (htext : ∀ c ∈ text, Inner c) (hne : text ≠ []) (s : Str) :
    ∀ c ∈ (q ++ text ++ s).head?, isSpace c = false ∧ c ≠ '#' := by
  obtain ⟨d, t, rfl⟩ := List.exists_cons_of_ne_nil hne
  intro c hc
  rcases hq with rfl | ⟨e, he, rfl⟩
  · obtain rfl : d = c := Option.some.inj hc
    exact ⟨(htext d List.mem_cons_self).1, (htext d List.mem_cons_self).2.2⟩
  · obtain rfl : e = c := Option.some.inj hc
    refine ⟨quote_not_space he, ?_⟩
    rintro rfl
    exact absurd he (by decide)

/-- A value is read off as it was matched, if its quote is closed. -/
theorem readValue_core {q text q2 sp : Str} (hq : IsQuoteText q) (hq2 : IsQuoteText q2) (hsp : Blank sp) (htext : ∀ c ∈ text, Inner c)
    (hne : text ≠ []) : readValue (q ++ text ++ q2 ++ sp) = valueOf q text q2 sp := by
  obtain ⟨d, t, rfl⟩ := List.exists_cons_of_ne_nil hne
  have hd := htext d List.mem_cons_self
  unfold valueOf
  rcases hq with rfl | ⟨e, he, rfl⟩
  · have hhash : '#' ∉ d :: t ++ q2 ++ sp := by
      rw [List.mem_append, List.mem_append, not_or, not_or]
      exact ⟨⟨fun hmem => (htext _ hmem).2.2 rfl, hq2.notMem (by decide)⟩, hsp.notMem (by decide)⟩
    have hlast : ∀ c ∈ (d :: t ++ q2).getLast?, isSpace c = false := by
      intro c hc
      rcases hq2 with rfl | ⟨e, he, rfl⟩
      · rw [List.append_nil] at hc
        exact (htext c (List.mem_of_getLast? hc)).1
      · rw [List.getLast?_concat] at hc
        obtain rfl := Option.some.inj hc
        exact quote_not_space he
    rw [if_pos rfl, List.nil_append, List.cons_append, List.cons_append, readValue_plain hd.2.1 hd.2.2, ← List.cons_append, ← List.cons_append,
      uncomment_of_notMem hhash, rstrip_blank hlast hsp, List.drop_left]
  · have hnot : e ∉ d :: t := fun hmem => Bool.noConfusion ((htext e hmem).2.1.symm.trans he)
    have hspace : e ∉ sp := hsp.notMem (quote_not_space he)
    rw [if_neg (by simp), List.append_assoc, List.append_assoc, List.singleton_append, readValue_quoted he, ← List.append_assoc]
    by_cases hclosed : q2 = [e]
    · subst hclosed
      have honly : onlyComment sp = true := by
        unfold onlyComment
        rw [Bool.or_eq_true]
        exact Or.inl (List.all_eq_true.2 hsp)
      rw [List.append_assoc, List.singleton_append, splitOnce_append_cons hnot, if_pos rfl, Option.bind_some, if_pos honly]
    · have hopen : e ∉ q2 := by
        rcases hq2 with rfl | ⟨f, -, rfl⟩
        · exact List.not_mem_nil
        · rw [List.mem_singleton]
          rintro rfl
          exact hclosed rfl
      have hno : splitOnce e (d :: t ++ q2 ++ sp) = none := by
        refine if_neg ?_
        rw [List.mem_append, List.mem_append, not_or, not_or]
        exact ⟨⟨hnot, hopen⟩, hspace⟩
      rw [hno, if_neg hclosed]
      rfl

theorem PortText.Valid.ne_nil {p : PortText} (hv : p.Valid) : p.text ≠ [] := by
  obtain ⟨c, t, heq, -⟩ := port_cons hv.host
  rw [p.text_eq hv.bare, heq]
  simp

theorem core_noHash {q : Str} {p : PortText} {q2 sp : Str} (hq : IsQuoteText q) (hq2 : IsQuoteText q2) (hsp : Blank sp) (hv : p.Valid) :
    '#' ∉ q ++ p.text ++ q2 ++ sp := by
  rw [List.mem_append, List.mem_append, List.mem_append, not_or, not_or, not_or]
  exact ⟨⟨⟨hq.notMem (by decide), fun hmem => (hv.inner hmem).2.2 rfl⟩, hq2.notMem (by decide)⟩, hsp.notMem (by decide)⟩

theorem untilColon_core {p : PortText} {q2 sp : Str} (hq2 : IsQuoteText q2) (hsp : Blank sp) (hv : p.Valid) : untilColon (p.text ++ (q2 ++ sp)) = none := by
  have hend : ':' ∉ q2 ++ sp := by
    rw [List.mem_append, not_or]
    exact ⟨hq2.notMem (by decide), hsp.notMem (by decide)⟩
  exact hv.untilColon (untilColon_none hend)

/-- A port has no key before it. -/
theorem readKey_core {q : Str} {p : PortText} {q2 sp : Str} (hq : IsQuoteText q) (hq2 : IsQuoteText q2) (hsp : Blank sp) (hv : p.Valid) :
    readKey (q ++ p.text ++ q2 ++ sp) = none := by
  have hnone := untilColon_core hq2 hsp hv
  obtain ⟨d, t, htext⟩ := List.exists_cons_of_ne_nil hv.ne_nil
  have hd : Inner d := hv.inner (htext ▸ List.mem_cons_self)
  rcases hq with rfl | ⟨e, he, rfl⟩
  · have hhash : '#' ∉ p.text ++ q2 ++ sp := core_noHash (Or.inl rfl) hq2 hsp hv
    rw [← List.append_assoc, htext] at hnone
    rw [htext] at hhash
    rw [List.nil_append, htext, List.cons_append, List.cons_append, readKey, if_neg hd.2.2, if_neg (by rw [hd.2.1]; simp), ← List.cons_append,
      ← List.cons_append, uncomment_of_notMem hhash, hnone]
    rfl
  · have hhash : e ≠ '#' := by
      rintro rfl
      exact absurd he (by decide)
    have hnot : e ∉ p.text := fun hmem => Bool.noConfusion ((hv.inner hmem).2.1.symm.trans he)
    rw [List.append_assoc, List.append_assoc, List.singleton_append, readKey, if_neg hhash, if_pos he, ← List.append_assoc]
    by_cases hclosed : q2 = [e]
    · subst hclosed
      rw [List.append_assoc, List.singleton_append, splitOnce_append_cons hnot, Option.bind_some]
      simp only [untilColon_none (hsp.notMem (show isSpace ':' = false by decide)), Option.bind_none]
    · have hopen : e ∉ q2 := by
        rcases hq2 with rfl | ⟨f, -, rfl⟩
        · exact List.not_mem_nil
        · rw [List.mem_singleton]
          rintro rfl
          exact hclosed rfl
      have hno : splitOnce e (p.text ++ q2 ++ sp) = none := by
        refine if_neg ?_
        rw [List.mem_append, List.mem_append, not_or, not_or]
        exact ⟨⟨hnot, hopen⟩, hsp.notMem (quote_not_space he)⟩
      rw [hno]
      rfl

/-- An item that matches, as block style has it. -/
theorem readLine_item {a b q q2 sp : Str} {p : PortText} {r : LineRead} (ha : Blank a) (hb : Blank b) (hq : IsQuoteText q) (hq2 : IsQuoteText q2)
    (hsp : Blank sp) (hv : p.Valid) (h : readLine ((a ++ '-' :: b) ++ q ++ p.text ++ q2 ++ sp) = some r) :
    r.key = none ∧ r.before = a ++ '-' :: b ∧ valueOf q p.text q2 sp = some r.value := by
  have hhead := core_head hq (fun c hc => hv.inner hc) hv.ne_nil (q2 ++ sp)
  have hline : (a ++ '-' :: b) ++ q ++ p.text ++ q2 ++ sp = a ++ '-' :: (b ++ (q ++ p.text ++ q2 ++ sp)) := by simp
  obtain ⟨htake, hdrop⟩ := takeWhile_blank (s := '-' :: (b ++ (q ++ p.text ++ q2 ++ sp))) ha fun c hc => by
    rw [← Option.some.inj hc]
    decide
  rw [hline] at h
  unfold readLine at h
  rw [htake, hdrop] at h
  simp only at h
  rw [if_neg (by decide)] at h
  rw [← List.append_assoc] at hhead
  split at h
  · obtain ⟨htake', hdrop'⟩ := takeWhile_blank (s := q ++ p.text ++ q2 ++ sp) hb fun c hc => (hhead c hc).1
    unfold readContent at h
    rw [htake', hdrop', readKey_core hq hq2 hsp hv] at h
    simp only at h
    rw [if_neg (by simp), readValue_core hq hq2 hsp (fun c hc => hv.inner hc) hv.ne_nil] at h
    obtain ⟨v, hvalue, rfl⟩ := Option.map_eq_some_iff.1 h
    exact ⟨rfl, rfl, hvalue⟩
  · rename_i hnospace
    -- no blank behind the dash: no item, and no key either
    have hbnil : b = [] := by
      cases b with
      | nil => rfl
      | cons c b => exact absurd ⟨trivial, by simpa using hb c List.mem_cons_self⟩ hnospace
    subst hbnil
    rw [List.nil_append] at h
    have hcolon : ':' ∉ '-' :: q := by
      rw [List.mem_cons, not_or]
      exact ⟨by decide, hq.notMem (by decide)⟩
    have hkey : readKey ('-' :: (q ++ p.text ++ q2 ++ sp)) = none := by
      have hhash : '#' ∉ '-' :: (q ++ p.text ++ q2 ++ sp) := by
        rw [List.mem_cons, not_or]
        exact ⟨by decide, core_noHash hq hq2 hsp hv⟩
      have hnone := untilColon_append (s := p.text ++ (q2 ++ sp)) hcolon
      rw [untilColon_core hq2 hsp hv, Option.map_none] at hnone
      rw [readKey, if_neg (by decide), if_neg (by decide), uncomment_of_notMem hhash, List.append_assoc, List.append_assoc, ← List.cons_append, hnone]
      rfl
    unfold readContent at h
    rw [hkey] at h
    cases h

theorem eq_of_toLower {c d : Char} (hlow : d.toNat < 65) (h : c.toLower = d) : c = d := by
  have hnat := congrArg Char.toNat h
  rw [toNat_toLower] at hnat
  split at hnat
  · omega
  · exact Char.toNat_inj.1 hnat

/-- The word, whatever its case. -/
theorem published_word {w : Str} (h : lower w = lit "published:") : ∃ c k, w = c :: k ++ [':'] ∧ ∀ d ∈ c :: k, Inner d ∧ d ≠ ':' ∧ d ≠ '-' := by
  have hcut : lit "published:" = lit "published" ++ [':'] := by decide
  rw [hcut] at h
  obtain ⟨k, last, rfl, hk, hlast⟩ := List.map_eq_append_iff.1 h
  obtain ⟨d, rfl, hd⟩ := List.map_eq_singleton_iff.1 hlast
  obtain rfl := eq_of_toLower (by decide) hd
  have hletters : ∀ l ∈ lit "published", Inner l.toLower ∧ l.toLower = l ∧ l ≠ ':' ∧ l ≠ '-' := forall_of_all (by decide)
  have hall : ∀ d ∈ k, Inner d ∧ d ≠ ':' ∧ d ≠ '-' := by
    intro d hd
    have hmem : d.toLower ∈ lit "published" := hk ▸ List.mem_map_of_mem hd
    obtain ⟨hinner, hlow, hcolon, hdash⟩ := hletters _ hmem
    refine ⟨inner_letter (beq_iff_eq.2 hlow.symm) hinner, ?_, ?_⟩
    · rintro rfl
      exact hcolon (by decide)
    · rintro rfl
      exact hdash (by decide)
  cases k with
  | nil => exact absurd hk (by decide)
  | cons c k => exact ⟨c, k, rfl, hall⟩

/-- A `published` that matches, as block style has it. -/
theorem readLine_published {a w b q q2 sp : Str} {p : PortText} {r : LineRead} (ha : Blank a) (hb : Blank b) (hw : lower w = lit "published:")
    (hq : IsQuoteText q) (hq2 : IsQuoteText q2) (hsp : Blank sp) (hv : p.Valid)
    (h : readLine ((a ++ w ++ b) ++ q ++ p.text ++ q2 ++ sp) = some r) :
    r.key ≠ none ∧ r.before = a ++ w ++ b ∧ valueOf q p.text q2 sp = some r.value := by
  obtain ⟨c, k, rfl, hk⟩ := published_word hw
  have hc := hk c List.mem_cons_self
  have hhead := core_head hq (fun c hc => hv.inner hc) hv.ne_nil (q2 ++ sp)
  rw [← List.append_assoc] at hhead
  have hline : (a ++ (c :: k ++ [':']) ++ b) ++ q ++ p.text ++ q2 ++ sp = a ++ (c :: k ++ ':' :: (b ++ (q ++ p.text ++ q2 ++ sp))) := by simp
  obtain ⟨htake, hdrop⟩ := takeWhile_blank (s := c :: k ++ ':' :: (b ++ (q ++ p.text ++ q2 ++ sp))) ha fun d hd => by
    obtain rfl : c = d := Option.some.inj hd
    exact hc.1.1
  rw [hline] at h
  unfold readLine at h
  rw [htake, hdrop] at h
  simp only [List.cons_append] at h
  rw [if_neg hc.1.2.2, if_neg fun hboth => hc.2.2 hboth.1, ← List.cons_append] at h
  have hhash : '#' ∉ c :: k ++ ':' :: (b ++ (q ++ p.text ++ q2 ++ sp)) := by
    intro hmem
    rcases List.mem_append.1 hmem with hmem | hmem
    · exact (hk _ hmem).1.2.2 rfl
    · rcases List.mem_cons.1 hmem with heq | hmem
      · exact absurd heq (by decide)
      · exact (List.mem_append.1 hmem).elim (hb.notMem (by decide)) (core_noHash hq hq2 hsp hv)
  have hcolon : ':' ∉ c :: k := fun hmem => (hk _ hmem).2.1 rfl
  have huntil := untilColon_append (s := ':' :: (b ++ (q ++ p.text ++ q2 ++ sp))) hcolon
  have hread : readKey (c :: k ++ ':' :: (b ++ (q ++ p.text ++ q2 ++ sp))) =
      (untilColon (c :: k ++ ':' :: (b ++ (q ++ p.text ++ q2 ++ sp)))).map fun key => (rstripWhere isSpace key, key.length + 1) := by
    rw [List.cons_append, readKey, if_neg hc.1.2.2, if_neg (by rw [hc.1.2.1]; simp), ← List.cons_append, uncomment_of_notMem hhash]
  unfold readContent at h
  cases b with
  | nil =>
    -- no blank behind the colon: no key
    have hno : untilColon (':' :: ([] ++ (q ++ p.text ++ q2 ++ sp))) = none := by
      rw [List.nil_append]
      cases hcore : q ++ p.text ++ q2 ++ sp with
      | nil =>
        have hnil := (List.append_eq_nil_iff.1 (List.append_eq_nil_iff.1 (List.append_eq_nil_iff.1 hcore).1).1).2
        exact absurd hnil hv.ne_nil
      | cons d t =>
        rw [untilColon_colon (hhead d (by rw [hcore]; rfl)).1, ← hcore, List.append_assoc, List.append_assoc,
          untilColon_append (hq.notMem (by decide)), untilColon_core hq2 hsp hv]
        rfl
    rw [hread, huntil, hno] at h
    cases h
  | cons d b =>
    have hd : isSpace d = true := hb d List.mem_cons_self
    have hyes : untilColon (':' :: (d :: b ++ (q ++ p.text ++ q2 ++ sp))) = some [] := by
      rw [untilColon, if_pos ⟨rfl, by simpa using hd⟩]
    obtain ⟨htake', hdrop'⟩ := takeWhile_blank (s := q ++ p.text ++ q2 ++ sp) hb fun c hc => (hhead c hc).1
    have hcut : c :: k ++ ':' :: (d :: b ++ (q ++ p.text ++ q2 ++ sp)) = (c :: k ++ [':']) ++ (d :: b ++ (q ++ p.text ++ q2 ++ sp)) := by simp
    have hlen : (c :: k ++ []).length + 1 = (c :: k ++ [':']).length := by simp
    rw [hread, huntil, hyes] at h
    simp only [Option.map_some] at h
    rw [hlen, hcut, List.drop_left, List.take_left, htake', hdrop', readValue_core hq hq2 hsp (fun c hc => hv.inner hc) hv.ne_nil] at h
    obtain ⟨v, hvalue, rfl⟩ := Option.map_eq_some_iff.1 h
    exact ⟨by simp, rfl, hvalue⟩

theorem isSpace_of_endsLine {c : Char} (h : endsLine c = true) : isSpace c = true := by
  unfold endsLine at h
  unfold isSpace
  simp only [List.contains_cons, List.contains_nil, Bool.or_false, Bool.or_eq_true, beq_iff_eq] at h
  simp only [Bool.or_eq_true, Bool.and_eq_true, decide_eq_true_eq, beq_iff_eq]
  omega

/-- What the rewriter takes for the body of a line may have the end of the line in it. -/
theorem cutEnd_spec (line : Str) : ∃ t, Blank t ∧ (lineBody line).1 = (cutEnd line).1 ++ t ∧ (cutEnd line).2 = t ++ (lineBody line).2 := by
  unfold cutEnd
  simp only
  split
  · rename_i c hc
    split
    · rename_i hend
      refine ⟨[c], fun d hd => List.mem_singleton.1 hd ▸ isSpace_of_endsLine hend.2, ?_, by rw [hend.1]; rfl⟩
      exact (List.dropLast_append_getLast? c hc).symm
    · exact ⟨[], fun d hd => absurd hd List.not_mem_nil, (List.append_nil _).symm, rfl⟩
  · exact ⟨[], fun d hd => absurd hd List.not_mem_nil, (List.append_nil _).symm, rfl⟩

theorem lineBody_end (line : Str) : Blank (lineBody line).2 := by
  have hnl : ∀ {s : Str}, s ∈ [[], lit "\n", lit "\r", lit "\r\n"] → Blank s := fun {s} hs =>
    List.all_eq_true.1 (List.all_eq_true.1 (show [[], lit "\n", lit "\r", lit "\r\n"].all (List.all · isSpace) = true by decide) s hs)
  apply hnl
  unfold lineBody
  simp only
  repeat' split
  all_goals simp

theorem blank_suffix {s sp b t : Str} (hs : ∀ c ∈ s.getLast?, isSpace c = false) (ht : Blank t) (h : s ++ sp = b ++ t) :
    ∃ sp', b = s ++ sp' ∧ sp = sp' ++ t := by
  rcases List.append_eq_append_iff.1 h with ⟨a, rfl, rfl⟩ | ⟨a, rfl, rfl⟩
  · exact ⟨a, rfl, rfl⟩
  · cases hlast : a.getLast? with
    | none =>
      rw [List.getLast?_eq_none_iff.1 hlast]
      exact ⟨[], by simp, rfl⟩
    | some c =>
      have hc : c ∈ (b ++ a).getLast? := by
        rw [List.getLast?_append, hlast]
        rfl
      have hspace := ht c (List.mem_append_left sp (List.mem_of_getLast? hlast))
      exact Bool.noConfusion ((hs c hc).symm.trans hspace)

/-- **A line that the rewriter matches**, as block style has it. -/
theorem PortLine.read {body : Str} {x : Form × Hit} {pre q : Str} {p : PortText} {q2 sp b t : Str} (h : PortLine body x pre q p q2 sp)
    (ht : Blank t) (hbody : body = b ++ t) : ∃ sp', Blank sp' ∧ ∀ r, readLine b = some r →
      (r.key = none ↔ x.1 ≠ .published) ∧ r.before = pre ∧ valueOf q p.text q2 sp' = some r.value := by
  have hlast : ∀ c ∈ (pre ++ q ++ p.text ++ q2).getLast?, isSpace c = false := by
    intro c hc
    rw [List.append_assoc, List.getLast?_append] at hc
    have hsome : (p.text ++ q2).getLast? ≠ none := fun hnone => h.valid.ne_nil (List.append_eq_nil_iff.1 (List.getLast?_eq_none_iff.1 hnone)).1
    obtain ⟨d, hd⟩ := Option.ne_none_iff_exists'.1 hsome
    rw [hd] at hc
    obtain rfl : d = c := Option.some.inj hc
    rcases List.mem_append.1 (List.mem_of_getLast? hd) with hmem | hmem
    · exact (h.valid.inner hmem).1
    · rcases h.quote2 with hnil | ⟨e, he, hone⟩
      · rw [hnil] at hmem
        cases hmem
      · rw [hone, List.mem_singleton] at hmem
        exact hmem ▸ quote_not_space he
  obtain ⟨sp', hb, rfl⟩ := blank_suffix hlast ht (h.body.symm.trans hbody)
  have hsp' : Blank sp' := fun c hc => h.blank c (List.mem_append_left t hc)
  refine ⟨sp', hsp', fun r hr => ?_⟩
  rw [hb] at hr
  by_cases hpub : x.1 = .published
  · obtain ⟨⟨a, w, b', ha, hb', hw, rfl⟩, -⟩ := h.published hpub
    obtain ⟨hkey, hbefore, hvalue⟩ := readLine_published ha hb' hw h.quote h.quote2 hsp' h.valid hr
    exact ⟨iff_of_false hkey fun hne => hne hpub, hbefore, hvalue⟩
  · obtain ⟨⟨a, b', ha, hb', rfl⟩, -⟩ := h.item hpub
    obtain ⟨hkey, hbefore, hvalue⟩ := readLine_item ha hb' h.quote h.quote2 hsp' h.valid hr
    exact ⟨iff_of_true hkey hpub, hbefore, hvalue⟩

/-- Where the quote is closed, the text is that of the port; else there is a quote in it. -/
theorem valueOf_some {q text q2 sp : Str} {v : Value} (hq2 : IsQuoteText q2) (hsp : Blank sp) (h : valueOf q text q2 sp = some v) :
    (q2 = q ∧ v.quote = q ∧ v.text = text ∧ rstripWhere isSpace v.after = q2) ∨
      q2 ≠ q ∧ v.quote = [] ∧ ∃ e, isQuote e = true ∧ v.text = text ++ [e] := by
  unfold valueOf at h
  split at h
  · rename_i hq
    obtain rfl := Option.some.inj h
    rcases hq2 with rfl | ⟨e, he, rfl⟩
    · refine Or.inl ⟨hq.symm, hq.symm, List.append_nil text, ?_⟩
      have hstrip := rstrip_blank (s := []) (by simp) hsp
      rwa [List.nil_append] at hstrip
    · exact Or.inr ⟨by rw [hq]; simp, rfl, e, he, rfl⟩
  · split at h
    · rename_i hq
      obtain rfl := Option.some.inj h
      refine Or.inl ⟨hq, rfl, rfl, ?_⟩
      rw [← hq]
      refine rstrip_blank (fun c hc => ?_) hsp
      rcases hq2 with rfl | ⟨e, he, rfl⟩
      · cases hc
      · obtain rfl := Option.some.inj hc
        exact quote_not_space he
    · cases h

/-! ## The structured rewrite of such a line -/

/-- The port that a port in short form is mapped to. -/
def PortText.mapped (p : PortText) (portMap : PortMap) : Option Nat := p.protocol.bind fun proto => portMap.get? ⟨int p.host, proto⟩

theorem matchLine_of_lang {r : Regex} {s : Str} {gs : List (Str × Str)} (h : Lang r s gs) : ∃ m, r.matchLine s = some m := by
  refine Option.isSome_iff_exists.1 (List.find?_isSome.2 ⟨⟨s, gs, []⟩, mem_run.2 ⟨(List.append_nil s).symm, h⟩, ?_⟩)
  exact decide_eq_true (Or.inl rfl)

/-- Of a text without blanks the whole is matched. -/
theorem matchLine_whole {r : Regex} {s : Str} {m : Hit} (hs : ∀ c ∈ s, Inner c) (h : r.matchLine s = some m) : m.text = s ∧ Lang r m.text m.groups := by
  obtain ⟨heq, hlang, hrest⟩ := matchLine_some h
  have hnil : m.rest = [] := by
    cases hr : m.rest with
    | nil => rfl
    | cons c t =>
      have hc : c ∈ m.rest := hr ▸ List.mem_cons_self
      have hinner := hs c (heq ▸ List.mem_append_right m.text hc)
      exact Bool.noConfusion ((hrest c hc).symm.trans hinner.1)
  rw [hnil, List.append_nil] at heq
  exact ⟨heq.symm, hlang⟩

theorem get_spec {m : Hit} {p : PortText} (h : m.groups = p.groups) : m.get (lit "host") = p.host ∧ m.get (lit "ip") = p.ip.getD [] ∧
    m.get (lit "container") = p.container.getD [] ∧ m.get (lit "pr") = p.pr.getD [] := by
  obtain ⟨ip, host, container, pr⟩ := p
  unfold Hit.get Hit.group
  rw [h]
  cases ip <;> cases container <;> cases pr <;> exact ⟨rfl, rfl, rfl, rfl⟩

theorem textPort_text {p : PortText} (hv : p.Valid) (portMap : PortMap) :
    textPort portMap p.text = (p.mapped portMap).map fun new => ({ p with host := Str.ofNat new } : PortText).text := by
  have hinner : ∀ c ∈ p.text, Inner c := fun c hc => hv.inner hc
  have hfound : ∀ {m : Hit} {p' : PortText}, p'.Valid → m.text = p.text → m.text = p'.text → m.groups = p'.groups → p' = p ∧ m.groups = p.groups := by
    intro m p' hv' hm hm' hgs
    obtain rfl := hv'.text_injective hv (hm'.symm.trans hm)
    exact ⟨rfl, hgs⟩
  unfold textPort PortText.mapped
  rw [Option.map_bind]
  by_cases hcont : p.container = none
  · have hno : PORTS.matchLine p.text = none := by
      cases hm : PORTS.matchLine p.text with
      | none => rfl
      | some m =>
        obtain ⟨htext, hlang⟩ := matchLine_whole hinner hm
        obtain ⟨p', hv', hsome, htext', hgs⟩ := lang_ports.1 hlang
        obtain ⟨rfl, -⟩ := hfound hv' htext htext' hgs
        exact absurd hcont hsome
    obtain ⟨m, hm⟩ := matchLine_of_lang (lang_bare.2 ⟨p, hv, hv.bare hcont, hcont, rfl, rfl⟩)
    obtain ⟨htext, hlang⟩ := matchLine_whole hinner hm
    obtain ⟨p', hv', -, -, htext', hgs⟩ := lang_bare.1 hlang
    obtain ⟨rfl, hgroups⟩ := hfound hv' htext htext' hgs
    obtain ⟨hhost, -, -, hpr⟩ := get_spec hgroups
    rw [hno, hm, Option.bind_some, protocolOf_eq hv hpr, hhost, hpr]
    simp only
    refine congrArg _ (funext fun proto => congrArg (Option.map · _) (funext fun new => ?_))
    rw [PortText.text_eq { p' with host := Str.ofNat new } hv.bare, hv.bare hcont, hcont]
    simp
  · obtain ⟨m, hm⟩ := matchLine_of_lang (lang_ports.2 ⟨p, hv, hcont, rfl, rfl⟩)
    obtain ⟨htext, hlang⟩ := matchLine_whole hinner hm
    obtain ⟨p', hv', hsome, htext', hgs⟩ := lang_ports.1 hlang
    obtain ⟨rfl, hgroups⟩ := hfound hv' htext htext' hgs
    obtain ⟨hhost, hip, hc, hpr⟩ := get_spec hgroups
    obtain ⟨c, hcsome⟩ := Option.ne_none_iff_exists'.1 hsome
    rw [hm]
    simp only
    rw [protocolOf_eq hv hpr, hhost, ipPrefix_eq hv hip, hc, hpr]
    refine congrArg _ (funext fun proto => congrArg (Option.map · _) (funext fun new => ?_))
    rw [PortText.text_eq { p' with host := Str.ofNat new } hv.bare, hcsome]
    simp [lit]

/-- A text with something else in it is no port. -/
theorem textPort_none {s : Str} {c : Char} (hc : c ∈ s) (hinner : ¬ Inner c) (hspace : isSpace c = false) (portMap : PortMap) : textPort portMap s = none := by
  have hports : PORTS.matchLine s = none := by
    cases hm : PORTS.matchLine s with
    | none => rfl
    | some m =>
      obtain ⟨rfl, hlang, hrest⟩ := matchLine_some hm
      obtain ⟨p, hv, -, htext, -⟩ := lang_ports.1 hlang
      rcases List.mem_append.1 hc with hc | hc
      · exact absurd (hv.inner (htext ▸ hc)) hinner
      · exact Bool.noConfusion ((hrest c hc).symm.trans hspace)
  have hport : PORT.matchLine s = none := by
    cases hm : PORT.matchLine s with
    | none => rfl
    | some m =>
      obtain ⟨rfl, hlang, hrest⟩ := matchLine_some hm
      obtain ⟨p, hv, -, -, htext, -⟩ := lang_bare.1 hlang
      rcases List.mem_append.1 hc with hc | hc
      · exact absurd (hv.inner (htext ▸ hc)) hinner
      · exact Bool.noConfusion ((hrest c hc).symm.trans hspace)
  unfold textPort
  rw [hports, hport]
  rfl

theorem PortText.Valid.head {p : PortText} (hv : p.Valid) : ∃ c t, p.text = c :: t ∧ (isDigit c = true ∨ c = '.') := by
  rw [p.text_eq hv.bare]
  cases hip : p.ip with
  | none =>
    obtain ⟨c, t, heq, hd⟩ := port_cons hv.host
    exact ⟨c, _, by rw [heq]; rfl, Or.inl hd⟩
  | some s =>
    obtain ⟨c, t, rfl⟩ := List.exists_cons_of_ne_nil (address_ne_nil (hv.ip s hip))
    exact ⟨c, _, rfl, address_char (hv.ip _ hip) List.mem_cons_self⟩

theorem PortText.Valid.notNull {p : PortText} (hv : p.Valid) (s : Str) : p.text ++ s ∉ nulls := by
  obtain ⟨c, t, htext, hc⟩ := hv.head
  have hnulls : nulls.all (fun s => s.head?.all fun c => !isDigit c && c != '.') = true := by decide
  intro hmem
  have hfirst := List.all_eq_true.1 hnulls _ hmem
  rw [htext] at hfirst
  simp only [List.cons_append, List.head?_cons, Option.all_some, Bool.and_eq_true, Bool.not_eq_true', bne_iff_ne] at hfirst
  obtain ⟨hdigit, hdot⟩ := hfirst
  rcases hc with hc | hc
  · exact Bool.noConfusion (hdigit.symm.trans hc)
  · exact hdot hc

/-- A port that is a number is a port alone. -/
theorem PortText.Valid.of_isdigit {p : PortText} (hv : p.Valid) (h : isdigit p.text = true) : p = ⟨none, p.host, none, none⟩ := by
  rw [isdigit, Bool.and_eq_true, List.all_eq_true] at h
  have hno : ∀ {c : Char}, isDigit c = false → c ∉ p.text := fun hc hmem => Bool.noConfusion (hc.symm.trans (h.2 _ hmem))
  have hcont : p.container = none := by
    cases hc : p.container with
    | none => rfl
    | some s => exact absurd (by rw [p.text_eq hv.bare, hc]; simp) (hno (show isDigit ':' = false by decide))
  have hpr : p.pr = none := by
    cases hr : p.pr with
    | none => rfl
    | some s =>
      obtain ⟨name, rfl, -⟩ := protocol_cons (hv.pr s hr)
      exact absurd (by rw [p.text_eq hv.bare, hr]; simp) (hno (show isDigit '/' = false by decide))
  obtain ⟨ip, host, container, pr⟩ := p
  obtain rfl : container = none := hcont
  obtain rfl : pr = none := hpr
  obtain rfl : ip = none := hv.bare rfl
  rfl

theorem withHost_text {p : PortText} (h : p = ⟨none, p.host, none, none⟩) (host : Str) : ({ p with host := host } : PortText).text = host := by
  rw [h]
  simp [PortText.text, PortText.parts, join]

theorem strip_inner {s : Str} (h : ∀ c ∈ s, isSpace c = false) : strip s = s :=
  strip_eq_self (fun c hc => h c (List.mem_of_mem_head? hc)) fun c hc => h c (List.mem_of_getLast? hc)

theorem parseInt_plain {s : Str} (hspace : ∀ c ∈ s, isSpace c = false) (hplus : '+' ∉ s) (hunder : '_' ∉ s) :
    parseInt s = if isdigit s then some (int s) else none := by
  have hstart : ¬ startsWith (lit "+") s = true := by
    intro h
    obtain ⟨t, ht⟩ := List.isPrefixOf_iff_prefix.1 h
    exact hplus (ht ▸ List.mem_cons_self)
  have hfilter : s.filter (· != '_') = s := List.filter_eq_self.2 fun c hc => bne_iff_ne.2 fun heq => hunder (heq ▸ hc)
  unfold parseInt
  simp only [strip_inner hspace, if_neg hstart, split_of_notMem hunder, List.all_cons, List.all_nil, Bool.and_true, hfilter]

/-- The whole of a text without a dash is taken for the port. -/
theorem longPort_plain {portMap : PortMap} {s : Scalar} {t : Str} (ht : s.str = t) (hdash : '-' ∉ t) (protocol : Option Scalar) :
    longPort portMap (some s) protocol = (parseInt t).bind fun host => ownPort portMap host protocol := by
  have hwhole : t.takeWhile (· != '-') = t := List.takeWhile_eq_self_iff.2 fun c hc => bne_iff_ne.2 fun heq => hdash (heq ▸ hc)
  unfold longPort ownPort
  rw [Option.bind_some, ht, hwhole]

theorem longPort_digits {portMap : PortMap} {s : Scalar} {t : Str} (ht : s.str = t) (hs : isdigit t = true) (protocol : Option Scalar) :
    longPort portMap (some s) protocol = ownPort portMap (int t) protocol := by
  have hall := hs
  rw [isdigit, Bool.and_eq_true, List.all_eq_true] at hall
  have hno : ∀ {c : Char}, isDigit c = false → c ∉ t := fun hc hmem => Bool.noConfusion (hc.symm.trans (hall.2 _ hmem))
  rw [longPort_plain ht (hno (by decide)), parseInt_plain (fun c hc => (inner_digit (hall.2 c hc)).1) (hno (by decide)) (hno (by decide)), if_pos hs,
    Option.bind_some]

section Rewritten
variable {portMap : PortMap} (hm : ∀ k new, portMap.get? k = some new → new ≠ k.host) {p : PortText} {v : Value}
include hm

theorem mapped_ne {new : Nat} (h : p.mapped portMap = some new) : new ≠ int p.host := by
  obtain ⟨proto, -, hget⟩ := Option.bind_eq_some_iff.1 h
  exact hm _ _ hget

/-- An entry in short form is rewritten iff its port is mapped. -/
theorem entry_rewritten (hv : p.Valid) (htext : v.text = p.text) :
    (p.mapped portMap = none → rewritePortSpec (.scalar (v.scalar.getD (.text []))) portMap = .scalar (v.scalar.getD (.text []))) ∧
    ∀ new, p.mapped portMap = some new → rewritePortSpec (.scalar (v.scalar.getD (.text []))) portMap ≠ .scalar (v.scalar.getD (.text [])) ∧
      (rewritePortSpec (.scalar (v.scalar.getD (.text []))) portMap).text = ({ p with host := Str.ofNat new } : PortText).text := by
  have hstrip : strip p.text = p.text := strip_inner fun c hc => (hv.inner hc).1
  -- a text is rewritten as a text
  have hastext : (p.mapped portMap = none → rewritePortSpec (.scalar (.text p.text)) portMap = .scalar (.text p.text)) ∧
      ∀ new, p.mapped portMap = some new → rewritePortSpec (.scalar (.text p.text)) portMap ≠ .scalar (.text p.text) ∧
        (rewritePortSpec (.scalar (.text p.text)) portMap).text = ({ p with host := Str.ofNat new } : PortText).text := by
    constructor
    · intro hnone
      rw [rewritePortSpec, hstrip, textPort_text hv, hnone]
      rfl
    · intro new hnew
      have hempty : NoDigit [] := by simp [NoDigit]
      have hne := hv.withHost_ne (mapped_ne hm hnew) hempty hempty
      rw [List.append_nil, List.append_nil] at hne
      rw [rewritePortSpec, hstrip, textPort_text hv, hnew]
      exact ⟨fun heq => hne (Scalar.text.inj (PortSpec.scalar.inj heq)), rfl⟩
  have hnull : p.text ∉ nulls := by
    have h := hv.notNull []
    rwa [List.append_nil] at h
  unfold Value.scalar
  rw [htext]
  by_cases hq : v.quote = []
  · rw [if_neg (not_not.2 hq), if_neg hnull]
    by_cases hdigit : isdigit p.text = true
    · have hp := hv.of_isdigit hdigit
      have hhost : p.text = p.host := withHost_text hp p.host
      have hmapped : p.mapped portMap = portMap.get? ⟨int p.host, .tcp⟩ := by
        rw [hp]
        rfl
      rw [if_pos hdigit, hhost, Option.getD_some, rewritePortSpec, hmapped]
      refine ⟨fun hnone => by rw [hnone]; rfl, fun new hnew => ?_⟩
      rw [hnew]
      refine ⟨fun heq => hm _ _ hnew (Scalar.int.inj (PortSpec.scalar.inj heq)), ?_⟩
      rw [withHost_text hp]
      rfl
    · rw [if_neg hdigit]
      exact hastext
  · rw [if_pos hq]
    exact hastext

/-- A `published` of digits is rewritten iff its port is mapped under its protocol. -/
theorem published_rewritten {host : Str} (hhost : IsPort host) (htext : v.text = host) (protocol : Option Scalar) :
    (ownPort portMap (int host) protocol = none → rewritePortSpec (.long v.scalar protocol) portMap = .long v.scalar protocol) ∧
    ∀ new, ownPort portMap (int host) protocol = some new → rewritePortSpec (.long v.scalar protocol) portMap ≠ .long v.scalar protocol ∧
      (rewritePortSpec (.long v.scalar protocol) portMap).text = Str.ofNat new := by
  obtain ⟨c, t, hcons, hc⟩ := port_cons hhost
  have hdigit : isdigit host = true := by
    rw [isdigit, Bool.and_eq_true, List.all_eq_true]
    exact ⟨by rw [hcons]; rfl, hhost.1⟩
  have hnull : host ∉ nulls := by
    intro hmem
    have hnulls : ∀ s ∈ nulls, isdigit s = false := by decide +kernel
    exact Bool.noConfusion ((hnulls _ hmem).symm.trans hdigit)
  have hne : ∀ new, ownPort portMap (int host) protocol = some new → new ≠ int host := by
    intro new hnew
    obtain ⟨proto, -, hget⟩ := Option.bind_eq_some_iff.1 hnew
    exact hm _ _ hget
  unfold Value.scalar
  rw [htext]
  by_cases hq : v.quote = []
  · rw [if_neg (not_not.2 hq), if_neg hnull, if_pos hdigit, rewritePortSpec,
      longPort_digits (show (Scalar.int (int host)).str = Str.ofNat (int host) from rfl) (isdigit_ofNat (int host)) protocol, int_ofNat]
    refine ⟨fun hnone => by rw [hnone], fun new hnew => ?_⟩
    rw [hnew]
    exact ⟨fun heq => hne new hnew (Scalar.int.inj (Option.some.inj (PortSpec.long.inj heq).1)), rfl⟩
  · rw [if_pos hq, rewritePortSpec, longPort_digits (show (Scalar.text host).str = host from rfl) hdigit protocol]
    refine ⟨fun hnone => by rw [hnone], fun new hnew => ?_⟩
    rw [hnew]
    refine ⟨fun heq => hne new hnew ?_, rfl⟩
    have htexts := Scalar.text.inj (Option.some.inj (PortSpec.long.inj heq).1)
    rw [← htexts, int_ofNat]

end Rewritten

section Unclosed
variable {p : PortText} (hv : p.Valid) {v : Value} {e : Char} (he : isQuote e = true) (hquote : v.quote = []) (htext : v.text = p.text ++ [e])
include hv he hquote htext

theorem unclosed_scalar : v.scalar = some (.text (p.text ++ [e])) := by
  have hdigit : ¬ isdigit (p.text ++ [e]) = true := by
    intro h
    rw [isdigit, Bool.and_eq_true, List.all_eq_true] at h
    have hd := h.2 e (List.mem_append_right _ List.mem_cons_self)
    exact Bool.noConfusion ((inner_digit hd).2.1.symm.trans he)
  unfold Value.scalar
  rw [htext, if_neg (not_not.2 hquote), if_neg (hv.notNull _), if_neg hdigit]

/-- With a quote behind it a port is none. -/
theorem unclosed_kept (portMap : PortMap) : rewritePortSpec (.scalar (v.scalar.getD (.text []))) portMap = .scalar (v.scalar.getD (.text [])) := by
  have hspace : ∀ c ∈ p.text ++ [e], isSpace c = false := by
    intro c hc
    rcases List.mem_append.1 hc with hc | hc
    · exact (hv.inner hc).1
    · exact List.mem_singleton.1 hc ▸ quote_not_space he
  rw [unclosed_scalar hv he hquote htext, Option.getD_some, rewritePortSpec, strip_inner hspace,
    textPort_none (List.mem_append_right p.text List.mem_cons_self) (fun hinner => Bool.noConfusion (hinner.2.1.symm.trans he)) (quote_not_space he)]
  rfl

theorem unclosed_published (hhost : p = ⟨none, p.host, none, none⟩) (portMap : PortMap) (protocol : Option Scalar) :
    rewritePortSpec (.long v.scalar protocol) portMap = .long v.scalar protocol := by
  have hscalar := unclosed_scalar hv he hquote htext
  rw [show p.text = p.host from withHost_text hhost p.host] at hscalar
  have hchars : ∀ c ∈ p.host ++ [e], isDigit c = true ∨ isQuote c = true := by
    intro c hc
    rcases List.mem_append.1 hc with hc | hc
    · exact Or.inl (hv.host.1 c hc)
    · rw [List.mem_singleton.1 hc]
      exact Or.inr he
  have hno : ∀ {c : Char}, isDigit c = false → isQuote c = false → c ∉ p.host ++ [e] := fun hd hq hmem =>
    (hchars _ hmem).elim (fun h => Bool.noConfusion (hd.symm.trans h)) fun h => Bool.noConfusion (hq.symm.trans h)
  have hspace : ∀ c ∈ p.host ++ [e], isSpace c = false := fun c hc => (hchars c hc).elim (fun h => (inner_digit h).1) quote_not_space
  have hdigit : ¬ isdigit (p.host ++ [e]) = true := by
    intro h
    rw [isdigit, Bool.and_eq_true, List.all_eq_true] at h
    have hd := h.2 e (List.mem_append_right _ List.mem_cons_self)
    exact Bool.noConfusion ((inner_digit hd).2.1.symm.trans he)
  have hnone : longPort portMap v.scalar protocol = none := by
    rw [hscalar, longPort_plain (show (Scalar.text (p.host ++ [e])).str = p.host ++ [e] from rfl) (hno (by decide) (by decide)), parseInt_plain hspace (hno (by decide) (by decide)) (hno (by decide) (by decide)),
      if_neg hdigit]
    rfl
  rw [rewritePortSpec, hnone]

end Unclosed

/-! ## One line -/

section Line
variable {portMap : PortMap} {line : Str}

theorem rewriteLinePorts_none (h : readPort (lineBody line).1 = none) : rewriteLinePorts portMap line = line := by
  unfold rewriteLinePorts
  simp only [h]
  exact lineBody_append line

theorem rewriteLinePorts_unmapped {x : Form × Hit} (h : readPort (lineBody line).1 = some x) (hx : mappedPort portMap x = none) :
    rewriteLinePorts portMap line = line := by
  unfold rewriteLinePorts
  simp only [h, hx]
  exact lineBody_append line

theorem rewriteLinePorts_mapped {x : Form × Hit} {new : Nat} (h : readPort (lineBody line).1 = some x) (hx : mappedPort portMap x = some new) :
    rewriteLinePorts portMap line = x.1.render x.2 (Str.ofNat new) ++ (lineBody line).2 := by
  unfold rewriteLinePorts
  simp only [h, hx]

variable (hm : ∀ k new, portMap.get? k = some new → new ≠ k.host)
include hm

/-- A line with a mapped port is changed. -/
theorem rewriteLinePorts_ne {x : Form × Hit} {new : Nat} (h : readPort (lineBody line).1 = some x) (hx : mappedPort portMap x = some new) :
    rewriteLinePorts portMap line ≠ line := by
  obtain ⟨pre, q, p, q2, sp, hline⟩ := readPort_some h
  obtain ⟨proto, -, hget⟩ := List.exists_of_findSome?_eq_some hx
  have hne : new ≠ int p.host := hline.host ▸ hm _ _ hget
  have hrender := hline.render_ne (lineBody_end line) hne
  rw [rewriteLinePorts_mapped h hx]
  rwa [lineBody_append] at hrender

/-- What a role says of the line that has it. -/
def LineRole.Of (line : Str) : LineRole → Prop
  | .other => True
  | .entry r => readLine (cutEnd line).1 = some r ∧ r.key = none
  | .published r _ => readLine (cutEnd line).1 = some r ∧ r.key = some (lit "published")

/-- The entry of a line whose quote is closed is rewritten iff it is mapped; and so is the line, if the protocol is the right one. -/
theorem spec_rewritten {role : LineRole} (hrole : role.Of line) {x : Form × Hit} {pre q : Str} {p : PortText} {q2 sp : Str}
    (hline : PortLine (lineBody line).1 x pre q p q2 sp) {r : LineRead} {spec : PortSpec} (hspec : role.spec = some (r, spec))
    (hkey : r.key = none ↔ x.1 ≠ .published) (htext : r.value.text = p.text) :
    ∃ own : Option Nat, (own = none → rewritePortSpec spec portMap = spec) ∧
      (∀ new, own = some new → rewritePortSpec spec portMap ≠ spec ∧
        (rewritePortSpec spec portMap).text = ({ p with host := Str.ofNat new } : PortText).text) ∧
      (mappedPort portMap x = none → own = none) ∧ ∀ new, mappedPort portMap x = some new → (role.Own portMap x new ↔ own = some new) := by
  cases role with
  | other => cases hspec
  | entry r' =>
    obtain ⟨rfl, rfl⟩ := Prod.mk.inj (Option.some.inj hspec)
    have hmapped : mappedPort portMap x = p.mapped portMap := by
      unfold mappedPort PortText.mapped
      rw [(hline.item (hkey.1 hrole.2)).2, hline.host]
      cases p.protocol <;> simp
    obtain ⟨hnone, hsome⟩ := entry_rewritten hm hline.valid htext
    exact ⟨p.mapped portMap, hnone, hsome, fun h => hmapped.symm.trans h, fun new hnew => iff_of_true trivial (hmapped.symm.trans hnew)⟩
  | published r' protocol =>
    obtain ⟨rfl, rfl⟩ := Prod.mk.inj (Option.some.inj hspec)
    have hpub : x.1 = .published := by
      by_contra hne
      have hnone := hkey.2 hne
      rw [hrole.2] at hnone
      cases hnone
    have hp := (hline.published hpub).2
    have hhost : p.text = p.host := withHost_text hp p.host
    obtain ⟨hnone, hsome⟩ := published_rewritten hm hline.valid.host (htext.trans hhost) protocol
    refine ⟨ownPort portMap (int p.host) protocol, hnone, fun new hnew => ?_, fun h => ?_, fun new _ => ?_⟩
    · rw [withHost_text hp]
      exact hsome new hnew
    · unfold mappedPort at h
      rw [hpub, hline.host] at h
      have hall := List.findSome?_eq_none_iff.1 h
      refine Option.bind_eq_none_iff.2 fun proto _ => hall proto ?_
      cases proto <;> simp [Form.protocols]
    · unfold LineRole.Own
      rw [hline.host]

omit hm in
/-- An entry whose quote is not closed is no port. -/
theorem unclosed_same {role : LineRole} (hrole : role.Of line) {x : Form × Hit} {pre q : Str} {p : PortText} {q2 sp : Str}
    (hline : PortLine (lineBody line).1 x pre q p q2 sp) {r : LineRead} {spec : PortSpec} (hspec : role.spec = some (r, spec))
    (hkey : r.key = none ↔ x.1 ≠ .published) {e : Char} (he : isQuote e = true) (hquote : r.value.quote = []) (htext : r.value.text = p.text ++ [e]) :
    rewritePortSpec spec portMap = spec := by
  cases role with
  | other => cases hspec
  | entry r' =>
    obtain ⟨rfl, rfl⟩ := Prod.mk.inj (Option.some.inj hspec)
    exact unclosed_kept hline.valid he hquote htext portMap
  | published r' protocol =>
    obtain ⟨rfl, rfl⟩ := Prod.mk.inj (Option.some.inj hspec)
    have hpub : x.1 = .published := by
      by_contra hne
      have hnone := hkey.2 hne
      rw [hrole.2] at hnone
      cases hnone
    exact unclosed_published hline.valid he hquote htext (hline.published hpub).2 portMap protocol

omit hm in
theorem readLine_of_role {role : LineRole} (hrole : role.Of line) {r : LineRead} {spec : PortSpec} (hspec : role.spec = some (r, spec)) :
    readLine (cutEnd line).1 = some r := by
  cases role with
  | other => cases hspec
  | entry r' =>
    obtain ⟨rfl, -⟩ := Prod.mk.inj (Option.some.inj hspec)
    exact hrole.1
  | published r' protocol =>
    obtain ⟨rfl, -⟩ := Prod.mk.inj (Option.some.inj hspec)
    exact hrole.1

omit hm in
theorem lineOk_same {role : LineRole} {r : LineRead} {spec : PortSpec} (hspec : role.spec = some (r, spec)) :
    LineOk portMap role line line ↔ rewritePortSpec spec portMap = spec := by
  unfold LineOk
  rw [hspec]
  simp only
  constructor
  · intro h
    by_contra hne
    exact h.1.2 hne rfl
  · exact fun h => ⟨iff_of_false (fun hne => hne rfl) fun hne => hne h, fun hne => absurd h hne⟩

omit hm in
/-- Where no mapped port is read, only an entry that is rewritten asks for a match. -/
theorem readsRight_unmapped {role : LineRole} {r : LineRead} {spec : PortSpec} (hspec : role.spec = some (r, spec))
    (hx : ∀ x new, readPort (lineBody line).1 = some x → mappedPort portMap x ≠ some new) :
    ReadsRight portMap role line ↔ (rewritePortSpec spec portMap ≠ spec → (readPort (lineBody line).1).isSome) := by
  constructor
  · exact fun hright => hright.matched r spec hspec
  · refine fun h => ⟨fun hnone => ?_, fun r' spec' heq => ?_, fun _ x new hread hnew => absurd hnew (hx x new hread)⟩
    · rw [hspec] at hnone
      cases hnone
    · obtain ⟨-, rfl⟩ := Prod.mk.inj (Option.some.inj (hspec.symm.trans heq))
      exact h

/-- **A line is rewritten as its entry is** iff it reads right. -/
theorem lineOk_iff {role : LineRole} (hrole : role.Of line) : LineOk portMap role line (rewriteLinePorts portMap line) ↔ ReadsRight portMap role line := by
  cases hspec : role.spec with
  | none =>
    constructor
    · intro hok
      unfold LineOk at hok
      rw [hspec] at hok
      refine ⟨fun _ x hx => ?_, fun r spec h => ?_, fun h => absurd hspec h⟩
      · by_contra hmapped
        obtain ⟨new, hnew⟩ := Option.ne_none_iff_exists'.1 hmapped
        exact rewriteLinePorts_ne hm hx hnew hok
      · rw [hspec] at h
        cases h
    · intro hright
      unfold LineOk
      rw [hspec]
      cases hx : readPort (lineBody line).1 with
      | none => exact rewriteLinePorts_none hx
      | some x => exact rewriteLinePorts_unmapped hx (hright.other hspec x hx)
  | some rs =>
    obtain ⟨r, spec⟩ := rs
    have hread := readLine_of_role hrole hspec
    obtain ⟨t, ht, hbody, hend⟩ := cutEnd_spec line
    cases hx : readPort (lineBody line).1 with
    | none =>
      rw [rewriteLinePorts_none hx, lineOk_same hspec, readsRight_unmapped hspec (fun x new h => by simp [hx] at h), hx]
      exact ⟨fun h hne => absurd h hne, fun h => by by_contra hne; exact absurd (h hne) (by simp)⟩
    | some x =>
      obtain ⟨pre, q, p, q2, sp, hline⟩ := readPort_some hx
      obtain ⟨sp', hsp', hreads⟩ := hline.read ht hbody
      obtain ⟨hkey, hbefore, hvalue⟩ := hreads r hread
      obtain ⟨hgq, hgq2⟩ := hline.getQuote
      have hunmapped : mappedPort portMap x = none → rewritePortSpec spec portMap = spec →
          (LineOk portMap role line (rewriteLinePorts portMap line) ↔ ReadsRight portMap role line) := by
        intro hnew hkept
        rw [rewriteLinePorts_unmapped hx hnew, lineOk_same hspec, readsRight_unmapped hspec fun x' new h hn => ?_]
        · exact iff_of_true hkept fun _ => by rw [hx]; rfl
        · obtain rfl := Option.some.inj (hx.symm.trans h)
          rw [hnew] at hn
          cases hn
      rcases valueOf_some hline.quote2 hsp' hvalue with ⟨hclosed, hquote, htext, hafter⟩ | ⟨hopen, hquote, e, he, htext⟩
      · obtain ⟨own, hnone, hsome, howned, hown⟩ := spec_rewritten hm hrole hline hspec hkey htext
        cases hnew : mappedPort portMap x with
        | none => exact hunmapped hnew (hnone (howned hnew))
        | some new =>
          have hput : r.put line (rewritePortSpec spec portMap).text = pre ++ q ++ (rewritePortSpec spec portMap).text ++ q2 ++ (cutEnd line).2 := by
            unfold LineRead.put
            rw [hbefore, hquote, hafter]
          have hout : rewriteLinePorts portMap line = pre ++ q ++ ({ p with host := Str.ofNat new } : PortText).text ++ q2 ++ (lineBody line).2 := by
            rw [rewriteLinePorts_mapped hx hnew, hline.render]
          have hdiff := rewriteLinePorts_ne hm hx hnew
          unfold LineOk
          rw [hspec]
          constructor
          · rintro ⟨hiff, heq⟩
            have hchanged := hiff.1 hdiff
            obtain ⟨new', hnew'⟩ := Option.ne_none_iff_exists'.1 fun h => hchanged (hnone h)
            have htexts := heq hchanged
            rw [hout, hput, (hsome new' hnew').2, hend] at htexts
            simp only [List.append_assoc, List.append_cancel_left_eq] at htexts
            have hnl := (lineBody_end line).noDigit
            have hhost := hline.valid.host_cut (digits_ofNat new) (digits_ofNat new') (hline.quote2.noDigit.append hnl)
              (hline.quote2.noDigit.append (ht.noDigit.append hnl)) htexts
            rw [hhost, List.append_cancel_left_eq, List.append_cancel_left_eq] at htexts
            have hsame : own = some new := by rw [hnew', ← int_ofNat new', ← hhost, int_ofNat]
            refine ⟨fun h => ?_, fun _ _ _ _ => by rw [hx]; rfl, fun _ x' new'' h hn => ?_⟩
            · rw [hspec] at h
              cases h
            · obtain rfl := Option.some.inj (hx.symm.trans h)
              obtain rfl := Option.some.inj (hnew.symm.trans hn)
              exact ⟨by rw [hgq, hgq2, hclosed], by rw [hend]; exact htexts, (hown new hnew).2 hsame⟩
          · intro hright
            obtain ⟨-, hends, hisown⟩ := hright.same (by rw [hspec]; simp) x new hx hnew
            obtain ⟨hchanged, htext'⟩ := hsome new ((hown new hnew).1 hisown)
            exact ⟨iff_of_true hdiff hchanged, fun _ => by rw [hout, hput, htext', hends]⟩
      · have hkept : rewritePortSpec spec portMap = spec := unclosed_same hrole hline hspec hkey he hquote htext
        cases hnew : mappedPort portMap x with
        | none => exact hunmapped hnew hkept
        | some new =>
          refine iff_of_false (fun hok => ?_) fun hright => hopen ?_
          · unfold LineOk at hok
            rw [hspec] at hok
            exact hok.1.1 (rewriteLinePorts_ne hm hx hnew) hkept
          · have hquotes := (hright.same (by rw [hspec]; simp) x new hx hnew).1
            rwa [hgq, hgq2] at hquotes

end Line

/-! ## A text -/

theorem walk_lines (lines : List Str) : ∀ (n : Nat) (stack : List Frame), (walk n stack lines).map Placed.line = lines := by
  induction lines with
  | nil => exact fun _ _ => rfl
  | cons line lines ih =>
    intro n stack
    unfold walk
    split <;> exact congrArg (line :: ·) (ih _ _)

theorem walk_read {lines : List Str} {x : Placed} : ∀ {n : Nat} {stack : List Frame}, x ∈ walk n stack lines → x.read = readLine (cutEnd x.line).1 := by
  induction lines with
  | nil =>
    intro n stack h
    cases h
  | cons line lines ih =>
    intro n stack h
    unfold walk at h
    split at h
    · rename_i hnone
      rcases List.mem_cons.1 h with rfl | h
      · exact hnone.symm
      · exact ih h
    · rename_i r hsome
      rcases List.mem_cons.1 h with rfl | h
      · exact hsome.symm
      · exact ih h

theorem role_of {text : Str} {x : Placed} (h : x ∈ placedLines text) : (x.role (placedLines text)).Of x.line := by
  have hread := walk_read h
  unfold Placed.role
  split
  · rename_i r _ _ _ _ hr _
    split
    · rename_i hentry
      exact ⟨hread.symm.trans hr, hentry.2.2⟩
    · trivial
  · rename_i r _ _ _ _ _ hr _
    split
    · rename_i hpublished
      exact ⟨hread.symm.trans hr, hpublished.2.2⟩
    · trivial
  · trivial

theorem withoutIdentity_ne {portMap : PortMap} (k : PortKey) (new : Nat) (h : (withoutIdentity portMap).get? k = some new) : new ≠ k.host := by
  have hmem := (List.mem_filter.1 (Dict.mem_of_get? h)).2
  exact Ne.symm (of_decide_eq_true hmem)

/-- **The line rewriter agrees with the structured one** iff every line reads right. -/
theorem linesAgree_iff (portMap : PortMap) (text : Str) :
    LinesAgree (withoutIdentity portMap) text ↔ ∀ x ∈ placedLines text, ReadsRight (withoutIdentity portMap) (x.role (placedLines text)) x.line := by
  have hline : ∀ x ∈ placedLines text, LineOk (withoutIdentity portMap) (x.role (placedLines text)) x.line (rewriteLinePorts (withoutIdentity portMap) x.line) ↔
      ReadsRight (withoutIdentity portMap) (x.role (placedLines text)) x.line := fun x hx => lineOk_iff withoutIdentity_ne (role_of hx)
  constructor
  · exact fun h x hx => (hline x hx).1 (h.ok x hx)
  · refine fun h => ⟨?_, fun x hx => (hline x hx).2 (h x hx)⟩
    have hlines := congrArg (List.flatMap (rewriteLinePorts (withoutIdentity portMap))) (walk_lines (Stacks.splitlinesKeep text) 0 [])
    rw [List.flatMap_map] at hlines
    exact hlines.symm

/-- A service that exposes a port which another publishes. -/
def exposed : Str := lit "services:
  web:
    expose:
      - 8080
    ports:
      - 8080:80
"

/-- The exposed port is rewritten with the published one. -/
theorem exposed_rewritten : ¬ ∀ (portMap : PortMap) (text : Str), LinesAgree (withoutIdentity portMap) text := by
  intro h
  have hok := (h [(⟨8080, .tcp⟩, 9090)] exposed).ok
  have hbad : ∃ x ∈ placedLines exposed, (x.role (placedLines exposed)).spec = none ∧
      rewriteLinePorts (withoutIdentity [(⟨8080, .tcp⟩, 9090)]) x.line ≠ x.line := by decide +kernel
  obtain ⟨x, hx, hnone, hne⟩ := hbad
  have hline := hok x hx
  unfold LineOk at hline
  rw [hnone] at hline
  exact hne hline

end PiHerder.Migrate
