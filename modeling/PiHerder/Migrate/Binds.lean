import PiHerder.Migrate.Names

/-!
# Volume and bind paths of a Move

The path functions of `service_migrate/overrides.py`, `classify_volume_source`
(`compose_project_files.py:97`), and `named_volume_id`, `_bind_item_kind`, `_is_outside_jail_bind`
(`service_migrate/preflight.py`). A path is a string; nothing here asks a host.
-/
namespace PiHerder.Migrate
open Lib Lib.Str

/-- `is_truncated_host_path` (overrides.py:130): an ellipsis stands in the path. -/
def isTruncatedHostPath (path : Str) : Bool :=
  decide ('…' ∈ strip path) || hasInfix (lit "...") (strip path)

/-- `_FORBIDDEN_BIND_DEST`. -/
def forbiddenBindDest : List Str :=
  ["/", "/home", "/var", "/opt", "/usr", "/root", "/etc", "/boot", "/dev", "/proc", "/sys"].map lit

/-- `_HOST_LOCAL_PATHS`. -/
def hostLocalPaths : List Str :=
  ["/var/run/docker.sock", "/run/docker.sock", "/var/run/docker.sock.raw", "/run/containerd/containerd.sock",
   "/var/run/podman/podman.sock", "/run/podman/podman.sock", "/var/run/dbus/system_bus_socket",
   "/run/dbus/system_bus_socket"].map lit

/-- `_HOST_LOCAL_PREFIXES`. -/
def hostLocalPrefixes : List Str := ["/dev/", "/proc/", "/sys/"].map lit

/-- `is_host_local_bind` (overrides.py:171): a socket or device that stays on its host. -/
def isHostLocalBind (path : Str) : Bool :=
  let p := normpath (strip path)
  if ¬ startsWith (lit "/") p ∨ p = lit "." ∨ p = lit "/" then false
  else decide (p ∈ hostLocalPaths) || endsWith (lit ".sock") p || decide (p ∈ ["/dev", "/proc", "/sys"].map lit) ||
    hostLocalPrefixes.any fun pref => startsWith pref p

/-- The last component of a normalized path. -/
def bindLeaf (src : Str) : Str :=
  let leaf := basename (rstrip '/' src)
  let leaf := if leaf = [] then lit "data" else leaf
  if leaf = lit "." ∨ leaf = lit ".." then lit "data" else leaf

/-- `suggest_dest_bind` (overrides.py:189): a path in the source docker base goes to the same place in the
destination's, any other into the project folder. -/
def suggestDestBind (sourcePath srcBase destBase destProject : Str) : Str :=
  let src := normpath (strip sourcePath)
  if isHostLocalBind src then src
  else
    let srcB := rstrip '/' (normpath (strip srcBase))
    let destB := rstrip '/' (normpath (strip destBase))
    let destP := if strip destProject ≠ [] then strip destProject else lit "project"
    if srcB ≠ [] ∧ destB ≠ [] ∧ (src = srcB ∨ startsWith (srcB ++ lit "/") src) then
      let rel := src.drop srcB.length
      destB ++ if rel ≠ [] then rel else lit "/"
    else destB ++ '/' :: destP ++ '/' :: bindLeaf src

/-- `validate_dest_bind_path` (overrides.py:229); the answer is the error. -/
def validateDestBindPath (path destBase : Str) : Option Str :=
  let p := strip path
  if p = [] then some (lit "destination bind path is required (or skip copy)")
  else if ¬ startsWith (lit "/") p ∨ lit ".." ∈ split '/' p ∨ '\x00' ∈ p then
    some (lit "destination bind must be an absolute path without ..")
  else
    let n := normpath p
    if n ∈ forbiddenBindDest then some (lit "refusing dest bind of " ++ n)
    else if destBase ≠ [] ∧ n = normpath (strip destBase) then
      some (lit "destination bind cannot be the docker base dir itself")
    else none

/-! ## Kinds of mounts -/

inductive ItemKind
  | named | bindAbsolute | bindRelative | bindHostLocal
deriving DecidableEq, Repr

/-- `classify_volume_source` (compose_project_files.py:97). -/
def classifyVolumeSource (source : Str) : ItemKind :=
  let src := strip source
  if src = [] then .named
  else if startsWith (lit "/") src ∧ ¬ startsWith (lit "//") src then .bindAbsolute
  else if startsWith (lit "./") src ∨ startsWith (lit "../") src then .bindRelative
  else if '/' ∈ src ∨ src = lit "." ∨ src = lit ".." then .bindRelative
  else .named

/-- `_bind_item_kind` (preflight.py:520). -/
def bindItemKind (src : Str) : ItemKind :=
  if isHostLocalBind src then .bindHostLocal else classifyVolumeSource src

def volumeStore : Str := lit "/var/lib/docker/volumes/"

/-- The group of `_VOL_DATA_RE`: the one component between the volume store and `_data`. -/
def volDataName (source : Str) : Option Str :=
  if startsWith volumeStore source then
    let rest := source.drop volumeStore.length
    let name := rest.takeWhile (· != '/')
    let tail := rest.dropWhile (· != '/')
    if name ≠ [] ∧ (tail = lit "/_data" ∨ tail = lit "/_data/") then some name else none
  else none

/-- `named_volume_id` (preflight.py:51). -/
def namedVolumeId (source mtype name : Str) : Option Str :=
  let n := strip name
  if lower (strip mtype) = lit "volume" ∧ n ≠ [] ∧ '/' ∉ n ∧ ¬ hasInfix (lit "..") n then some n
  else (volDataName (strip source)).filter fun vol => !hasInfix (lit "..") vol

/-- `_is_outside_jail_bind` (preflight.py:527). -/
def isOutsideJailBind (src : Str) (mode : ItemKind) (dockerBase : Str) : Bool :=
  let jail := rstrip '/' dockerBase ++ lit "/"
  if mode ≠ .bindAbsolute ∧ mode ≠ .bindHostLocal then false
  else if jail = lit "/" ∨ startsWith jail src ∨ src = dockerBase then false
  else !startsWith (lit "/dev/") src

example : suggestDestBind (lit "/home/pi/docker/shared/db") (lit "/home/pi/docker") (lit "/srv/docker") (lit "web") =
    lit "/srv/docker/shared/db" := by decide
example : suggestDestBind (lit "/mnt/media/") (lit "/home/pi/docker") (lit "/srv/docker") (lit "web") =
    lit "/srv/docker/web/media" := by decide

end PiHerder.Migrate
