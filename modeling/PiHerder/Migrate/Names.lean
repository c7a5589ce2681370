import PiHerder.Lib.Dict
import PiHerder.Lib.PyStr

/-!
# Project names, port maps and volume names of a Move

`compose_project_name` (`service_migrate/host_lock.py`), `normalize_dest_project`,
`validate_port_map`, `mapped_host_port`, `remap_named_volume` (`service_migrate/overrides.py`) and
`invert_port_map` (`service_migrate/undo.py`).

A port map that `validate_port_map` has cleaned is keyed by `port_map_key(host, proto)`, the text
`"{host}/{proto}"` of two numbers in normal form; here its keys are that pair.
-/
namespace PiHerder.Migrate
open Lib Lib.Str

/-! ## Project names -/

/-- `_MAX_PROJECT` (host_lock.py). -/
def maxProject : Nat := 128

/-- `compose_project_name` (host_lock.py:53); the error is `HostLockError.message`. -/
def composeProjectName (raw : Str) : Except Str Str :=
  let name := strip raw
  if name = [] ∨ startsWith (lit "/") name ∨ hasInfix (lit "..") name ∨ '/' ∈ name ∨ '\\' ∈ name ∨
      '\x00' ∈ name ∨ name.any (fun c => c ∈ ['\n', '\r', ';', '|', '&', Char.ofNat 96]) then
    .error (lit "invalid compose project name")
  else if maxProject < name.length then .error (lit "compose project name is too long")
  else .ok name

/-- `normalize_dest_project` (overrides.py:112). -/
def normalizeDestProject (sourceProject : Str) (destRaw : Option Str) : Str × Option Str :=
  let raw := strip (destRaw.getD [])
  if raw = [] then (sourceProject, none)
  else match composeProjectName raw with
    | .ok name => (name, none)
    | .error message => (sourceProject, some message)

/-! ## Port maps -/

inductive Proto
  | tcp | udp
deriving DecidableEq, Repr

def Proto.name : Proto → Str
  | .tcp => lit "tcp"
  | .udp => lit "udp"

def Proto.parse (s : Str) : Option Proto :=
  if s = lit "tcp" then some .tcp else if s = lit "udp" then some .udp else none

/-- `port_map_key(host, proto)`. -/
structure PortKey where
  host : Nat
  proto : Proto
deriving DecidableEq, Repr

def PortKey.text (k : PortKey) : Str := Str.ofNat k.host ++ '/' :: k.proto.name

/-- A cleaned port map: published source port to published destination port. -/
abbrev PortMap := Dict PortKey Nat

/-- `s.isdigit() and 1 <= int(s) <= 65535`. -/
def parsePort (s : Str) : Option Nat :=
  if isdigit s ∧ 1 ≤ int s ∧ int s ≤ 65535 then some (int s) else none

/-- The three dictionaries of the loop of `validate_port_map`. -/
structure PortMapScan where
  clean : PortMap := []
  errors : List Str := []
  seenDest : Dict PortKey PortKey := []

/-- One item of the loop of `validate_port_map` (overrides.py:82-107). -/
def PortMapScan.item (s : PortMapScan) (raw : Str × Str) : PortMapScan :=
  let key := lower (strip raw.1)
  let val := strip raw.2
  match splitOnce '/' key with
  | none => { s with errors := s.errors ++ [lit "invalid port map key " ++ raw.1] }
  | some (hostS, protoS) =>
    match Proto.parse protoS, parsePort hostS, parsePort val with
    | none, _, _ => { s with errors := s.errors ++ [key ++ lit ": protocol must be tcp or udp"] }
    | some _, none, _ => { s with errors := s.errors ++ [key ++ lit ": source host port must be 1–65535"] }
    | some _, some _, none =>
      { s with errors := s.errors ++ [key ++ lit ": destination host port must be 1–65535"] }
    | some proto, some host, some dest =>
      let destKey : PortKey := ⟨dest, proto⟩
      let srcKey : PortKey := ⟨host, proto⟩
      if (s.seenDest.get? destKey).any (fun prev => decide (prev ≠ srcKey)) then
        { s with errors := s.errors ++ [lit "two published ports mapped to " ++ destKey.text] }
      else
        { s with clean := s.clean.set srcKey dest, seenDest := s.seenDest.set destKey srcKey }

/-- `validate_port_map` (overrides.py:78): the clean map and the errors. -/
def validatePortMap (portMap : Dict Str Str) : PortMap × List Str :=
  let s := portMap.foldl PortMapScan.item {}
  (s.clean, s.errors)

/-! ## Volume names -/

/-- `remap_named_volume` (overrides.py:125). -/
def remapNamedVolume (volume sourceProject destProject : Str) : Str :=
  let vol := strip volume
  let src := strip sourceProject
  let dest := strip destProject
  if vol = [] ∨ src = [] ∨ dest = [] ∨ src = dest then vol
  else if startsWith (src ++ ['_']) vol then dest ++ '_' :: vol.drop (src.length + 1)
  else if startsWith (src ++ ['-']) vol then dest ++ '-' :: vol.drop (src.length + 1)
  else vol

/-! ## Facts about names -/

/-- A project name is stripped and nonempty, holds no slash and is not the folder above. -/
structure ValidProject (name : Str) : Prop where
  nonempty : name ≠ []
  noSlash : '/' ∉ name
  notUp : name ≠ lit ".."
  stripped : strip name = name

theorem composeProjectName_valid {raw name : Str} (h : composeProjectName raw = .ok name) :
    ValidProject name ∧ name = strip raw := by
  unfold composeProjectName at h
  simp only at h
  split at h
  · cases h
  · rename_i hbad
    split at h
    · cases h
    · cases h
      simp only [not_or] at hbad
      refine ⟨⟨hbad.1, hbad.2.2.2.1, fun hup => hbad.2.2.1 ?_, strip_strip raw⟩, rfl⟩
      rw [hup]
      decide

/-- A valid name passes its own check, so storing and re-reading it changes nothing. -/
theorem composeProjectName_idem {raw name : Str} (h : composeProjectName raw = .ok name) :
    composeProjectName name = .ok name := by
  have hs : name = strip raw := (composeProjectName_valid h).2
  have : composeProjectName name = composeProjectName raw := by
    unfold composeProjectName
    rw [hs, strip_strip]
  rw [this, h]

/-! ## Facts about port maps -/

/-- What the loop of `validate_port_map` keeps: every entry is the one `seen_dest` remembers for its
destination, and both ports are published ports. -/
def PortMapScan.Ok (s : PortMapScan) : Prop :=
  ∀ k v, s.clean.get? k = some v → s.seenDest.get? ⟨v, k.proto⟩ = some k

theorem PortMapScan.item_ok {s : PortMapScan} (h : s.Ok) (raw : Str × Str) : (s.item raw).Ok := by
  unfold PortMapScan.item
  simp only
  split
  · exact h
  · split
    · exact h
    · exact h
    · exact h
    · rename_i proto host dest _ _ _
      split
      · exact h
      · rename_i hprev
        intro k v hk
        simp only [Dict.get?_set] at hk ⊢
        by_cases hsrc : k = ⟨host, proto⟩
        · subst hsrc
          simp only [if_true] at hk
          obtain rfl := Option.some.inj hk
          simp
        · rw [if_neg hsrc] at hk
          have hseen := h k v hk
          by_cases hd : (⟨v, k.proto⟩ : PortKey) = ⟨dest, proto⟩
          · rw [hd] at hseen
            simp [hseen, hsrc] at hprev
          · rw [if_neg hd, hseen]

theorem validatePortMap_ok (portMap : Dict Str Str) : (portMap.foldl PortMapScan.item {}).Ok := by
  have hinit : PortMapScan.Ok {} := fun k v h => by simp [Dict.get?] at h
  exact List.foldlRecOn portMap _ hinit fun s hs raw _ => PortMapScan.item_ok hs raw

/-- Two published ports of one protocol never share a destination. -/
def PortMap.Injective (m : PortMap) : Prop :=
  ∀ k k' v, m.get? k = some v → m.get? k' = some v → k.proto = k'.proto → k = k'

/-- **A cleaned port map is injective.** -/
theorem validatePortMap_injective (portMap : Dict Str Str) : (validatePortMap portMap).1.Injective := by
  intro k k' v hk hk' hp
  have h := validatePortMap_ok portMap k v hk
  have h' := validatePortMap_ok portMap k' v hk'
  rw [hp, h'] at h
  exact (Option.some.inj h).symm

end PiHerder.Migrate
