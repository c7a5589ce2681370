import PiHerder.Discovery.Devices

/-!
# One row for each device

`Identified` is what every call keeps: a row's key is read off its own columns, with the MAC where it has one, and a key
is on one row of an integration. Under it the search of a host for its row has two outcomes only: the row with the
host's key, or, for a host with a MAC, a row at its address that has none yet.

A host that is reported without a MAC is searched by its address. The row it has under its MAC is not found that way.
-/
namespace PiHerder.Discovery
open Lib Lib.Str Lib.Ip

/-! ## Keys -/

theorem isHexDigit_toUpper (c : Char) : isHexDigit c.toUpper = isHexDigit c := by
  have hle : ∀ a b : Char, a ≤ b ↔ a.toNat ≤ b.toNat := fun a b => Iff.rfl
  unfold isHexDigit
  simp only [hle, toNat_toUpper]
  split
  · rw [Bool.eq_iff_iff]
    simp
    omega
  · rfl

theorem not_isHexDigit_of_isSpace {c : Char} (h : isSpace c = true) : isHexDigit c = false := by
  have hle : ∀ a b : Char, a ≤ b ↔ a.toNat ≤ b.toNat := fun a b => Iff.rfl
  unfold isSpace at h
  unfold isHexDigit
  simp only [hle]
  simp at h ⊢
  omega

/-- Digits are neither lost nor won with the blanks around them. -/
theorem filter_isHexDigit_strip (s : Str) : (strip s).filter isHexDigit = s.filter isHexDigit := by
  have hdrop : ∀ l : Str, (l.dropWhile isSpace).filter isHexDigit = l.filter isHexDigit := by
    intro l
    induction l with
    | nil => rfl
    | cons c l ih =>
      by_cases hc : isSpace c
      · rw [List.dropWhile_cons_of_pos hc, ih, List.filter_cons_of_neg (by simp [not_isHexDigit_of_isSpace hc])]
      · rw [List.dropWhile_cons_of_neg hc]
  unfold strip lstripWhere rstripWhere List.rdropWhile
  rw [List.filter_reverse, hdrop, ← List.filter_reverse, List.reverse_reverse, hdrop]

theorem filter_isHexDigit_upper (s : Str) : (upper s).filter isHexDigit = upper (s.filter isHexDigit) := by
  unfold upper
  rw [List.filter_map]
  exact congrArg (List.map _ <| List.filter · s) (funext isHexDigit_toUpper)

theorem filter_octets : ∀ s : Str, (octets s).filter isHexDigit = s.filter isHexDigit
  | a :: b :: c :: rest => by
    have hcolon : isHexDigit ':' = false := by decide
    rw [octets]
    simp only [List.filter_cons, hcolon, Bool.false_eq_true, if_false, filter_octets (c :: rest)]
  | [] => rfl
  | [_] => rfl
  | [_, _] => rfl

theorem octets_ne_nil {s : Str} (h : s ≠ []) : octets s ≠ [] := by
  unfold octets
  split
  · simp
  · exact h

theorem normMac_some {s : Str} (hne : s ≠ []) : normMac (some s) =
    if (upper (s.filter isHexDigit)).length ≠ 12 then orNone (upper (strip s)) else some (octets (upper (s.filter isHexDigit))) :=
  if_neg hne

/-- A normalised MAC is its own normal form. -/
theorem normMac_normMac {mac : Option Str} {m : Str} (h : normMac mac = some m) : m ≠ [] ∧ normMac (some m) = some m := by
  simp only [normMac] at h
  split at h
  · cases h
  · set s := upper ((text mac).filter isHexDigit) with hs
    split at h
    · rename_i hlen
      unfold orNone at h
      split at h
      · cases h
      · rename_i hne
        cases h
        have hdigits : upper ((upper (strip (text mac))).filter isHexDigit) = s := by
          rw [filter_isHexDigit_upper, filter_isHexDigit_strip, upper_upper]
        refine ⟨hne, ?_⟩
        rw [normMac_some hne, hdigits, if_pos hlen, strip_upper, strip_strip, upper_upper, orNone, if_neg hne]
    · rename_i hlen
      cases h
      have hne : s ≠ [] := by
        rintro hnil
        simp [hnil] at hlen
      have hdigits : upper ((octets s).filter isHexDigit) = s := by
        rw [filter_octets, hs, filter_isHexDigit_upper, upper_upper, List.filter_filter]
        simp
      refine ⟨octets_ne_nil hne, ?_⟩
      rw [normMac_some (octets_ne_nil hne), hdigits, if_neg hlen]

theorem ParsedHost.key_of_mac {h : ParsedHost} {m : Str} (hm : h.mac = some m) : h.key = lit "mac:" ++ m := by
  simp only [ParsedHost.key, deviceIdentityKey, hm, (normMac_normMac hm).2]

theorem ParsedHost.key_of_none {h : ParsedHost} (hm : h.mac = none) : h.key = lit "ip:" ++ h.ip := by
  have hnone : normMac none = none := rfl
  simp only [ParsedHost.key, deviceIdentityKey, hm, hnone, ParsedHost.ip, strip_strip]

/-- The key that a row's own columns give. -/
def NmapDevice.ownKey (d : NmapDevice) : Str :=
  match d.macAddress with
  | some m => lit "mac:" ++ m
  | none => lit "ip:" ++ d.ipAddress

theorem mac_ne_ip (a b : Str) : lit "mac:" ++ a ≠ lit "ip:" ++ b := by
  intro h
  exact absurd (List.cons.inj h).1 (by decide)

/-! ## The invariant -/

structure Identified (t : Tables) : Prop where
  ids : (t.devices.map NmapDevice.id).Nodup
  fresh : ∀ d ∈ t.devices, d.id < t.serial
  key : ∀ d ∈ t.devices, d.identityKey = d.ownKey
  mac : ∀ d ∈ t.devices, d.macAddress ≠ some []
  unique : ∀ d ∈ t.devices, ∀ d' ∈ t.devices, d.integrationId = d'.integrationId → d.identityKey = d'.identityKey → d = d'

theorem Identified.eq_of_id {t : Tables} (ht : Identified t) {d d' : NmapDevice} (hd : d ∈ t.devices) (hd' : d' ∈ t.devices)
    (h : d.id = d'.id) : d = d' :=
  List.inj_on_of_nodup_map ht.ids hd hd' h

/-- The columns that a row is found by. -/
def NmapDevice.identity (d : NmapDevice) : Nat × Nat × Str × Str × Option Str :=
  (d.id, d.integrationId, d.identityKey, d.ipAddress, d.macAddress)

/-- Writes that leave those columns alone. -/
theorem Identified.map {t t' : Tables} (ht : Identified t) {f : NmapDevice → NmapDevice} (hf : ∀ d, (f d).identity = d.identity)
    (hrows : t'.devices = t.devices.map f) (hserial : t'.serial = t.serial) : Identified t' := by
  simp only [NmapDevice.identity, Prod.mk.injEq] at hf
  have hmem : ∀ d' ∈ t'.devices, ∃ d ∈ t.devices, f d = d' := by
    intro d' hd'
    rw [hrows] at hd'
    exact List.mem_map.1 hd'
  constructor
  · have hid : NmapDevice.id ∘ f = NmapDevice.id := funext fun d => (hf d).1
    rw [hrows, List.map_map, hid]
    exact ht.ids
  · intro d' hd'
    obtain ⟨d, hd, rfl⟩ := hmem d' hd'
    rw [(hf d).1, hserial]
    exact ht.fresh d hd
  · intro d' hd'
    obtain ⟨d, hd, rfl⟩ := hmem d' hd'
    obtain ⟨-, -, hkey, hip, hmac⟩ := hf d
    rw [NmapDevice.ownKey, hkey, hip, hmac]
    exact ht.key d hd
  · intro d' hd'
    obtain ⟨d, hd, rfl⟩ := hmem d' hd'
    rw [(hf d).2.2.2.2]
    exact ht.mac d hd
  · intro a ha b hb hint hkey
    obtain ⟨d, hd, rfl⟩ := hmem a ha
    obtain ⟨e, he, rfl⟩ := hmem b hb
    rw [(hf d).2.1, (hf e).2.1] at hint
    rw [(hf d).2.2.1, (hf e).2.2.1] at hkey
    rw [ht.unique d hd e he hint hkey]

theorem Identified.filter {t t' : Tables} (ht : Identified t) {p : NmapDevice → Bool} (hrows : t'.devices = t.devices.filter p)
    (hserial : t'.serial = t.serial) : Identified t' := by
  have hmem : ∀ d ∈ t'.devices, d ∈ t.devices := by
    intro d hd
    rw [hrows] at hd
    exact List.mem_of_mem_filter hd
  refine ⟨?_, fun d hd => hserial ▸ ht.fresh d (hmem d hd), fun d hd => ht.key d (hmem d hd), fun d hd => ht.mac d (hmem d hd),
    fun d hd e he => ht.unique d (hmem d hd) e (hmem e he)⟩
  rw [hrows]
  exact ht.ids.sublist (List.filter_sublist.map _)

/-! ## The search for a row -/

section Resolve
variable {q : FirstRow NmapDevice} {i : Nat} {t : Tables} {h : ParsedHost}

theorem FirstRow.eq_none {R : Type} {q : FirstRow R} {l : List R} (hnone : q.first l = none) : l = [] := by
  by_contra hne
  have := q.first_isSome hne
  rw [hnone] at this
  cases this

/-- How a row is found: it has the key, or it had no MAC at the address of the host. -/
inductive Found (i : Nat) (t : Tables) (h : ParsedHost) (d : NmapDevice) : NmapDevice → Prop
  | key (hkey : d.identityKey = h.key) : Found i t h d d
  | address {mac : Str} (hmac : h.mac = some mac) (hnone : d.macAddress = none) (hip : d.ipAddress = h.ip) (hstate : d.state ≠ .ignored)
      (hfree : ∀ e ∈ t.devices, e.integrationId = i → e.identityKey ≠ h.key) :
      Found i t h d { d with identityKey := h.key, macAddress := some mac }

/-- No row has the key of a host without a row. -/
theorem resolve_none (hr : resolve q i t h = none) : ∀ d ∈ t.devices, d.integrationId = i → d.identityKey ≠ h.key := by
  intro d hd hint hkey
  unfold resolve at hr
  split at hr
  · cases hr
  · rename_i hnone
    have : d ∈ t.devices.filter fun d => d.integrationId = i && d.identityKey = h.key :=
      List.mem_filter.2 ⟨hd, by simp [hint, hkey]⟩
    rw [FirstRow.eq_none hnone] at this
    cases this

/-- A row that has the MAC of the host has its key, so that the second search finds nothing the first did not. -/
theorem resolve_found (ht : Identified t) {row : NmapDevice} (hr : resolve q i t h = some row) :
    ∃ d ∈ t.devices, d.integrationId = i ∧ Found i t h d row := by
  unfold resolve at hr
  split at hr
  · rename_i found hfirst
    cases hr
    obtain ⟨hmem, hp⟩ := List.mem_filter.1 (q.first_mem hfirst)
    simp only [Bool.and_eq_true, decide_eq_true_eq] at hp
    exact ⟨_, hmem, hp.1, .key hp.2⟩
  · rename_i hnone
    have hfree : ∀ e ∈ t.devices, e.integrationId = i → e.identityKey ≠ h.key := by
      intro e he hint hkey
      have : e ∈ t.devices.filter fun d => d.integrationId = i && d.identityKey = h.key :=
        List.mem_filter.2 ⟨he, by simp [hint, hkey]⟩
      rw [FirstRow.eq_none hnone] at this
      cases this
    cases hmac : h.mac with
    | none => simp [hmac] at hr
    | some mac =>
      simp only [hmac] at hr
      split at hr
      · rename_i byMac hfirst
        obtain ⟨hmem, hp⟩ := List.mem_filter.1 (q.first_mem hfirst)
        simp only [Bool.and_eq_true, decide_eq_true_eq] at hp
        have hkey := ht.key byMac hmem
        rw [NmapDevice.ownKey, hp.2] at hkey
        exact absurd (hkey.trans (ParsedHost.key_of_mac hmac).symm) (hfree byMac hmem hp.1)
      · split at hr
        · rename_i byIp hfirst
          obtain ⟨hmem, hp⟩ := List.mem_filter.1 (q.first_mem hfirst)
          simp only [Bool.and_eq_true, decide_eq_true_eq, ne_eq] at hp
          split at hr
          · rename_i hblank
            cases hr
            have hnomac : byIp.macAddress = none := by
              cases hcol : byIp.macAddress with
              | none => rfl
              | some m =>
                rw [text, hcol, Option.getD_some] at hblank
                exact absurd (hblank ▸ hcol) (ht.mac byIp hmem)
            exact ⟨byIp, hmem, hp.1.1, .address hmac hnomac hp.1.2 hp.2 hfree⟩
          · cases hr
        · cases hr

theorem Found.id_eq {d row : NmapDevice} (hf : Found i t h d row) : row.id = d.id := by
  cases hf <;> rfl

theorem Found.integrationId_eq {d row : NmapDevice} (hf : Found i t h d row) : row.integrationId = d.integrationId := by
  cases hf <;> rfl

theorem Found.key_eq {d row : NmapDevice} (hf : Found i t h d row) : row.identityKey = h.key := by
  cases hf with
  | key hkey => exact hkey
  | address => rfl

/-- Nothing was written to an ignored row while it was searched. -/
theorem Found.of_ignored {d row : NmapDevice} (hf : Found i t h d row) (hig : row.state = .ignored) : row = d := by
  cases hf with
  | key => rfl
  | address _ _ _ hstate => exact absurd hig hstate

/-- Only that row has, or gets, the key. -/
theorem Found.only {d row : NmapDevice} (ht : Identified t) (hd : d ∈ t.devices) (hint : d.integrationId = i)
    (hf : Found i t h d row) : ∀ e ∈ t.devices, e.integrationId = i → e.identityKey = h.key → e = d := by
  intro e he heint hekey
  cases hf with
  | key hkey => exact ht.unique e he d hd (heint.trans hint.symm) (hekey.trans hkey.symm)
  | address _ _ _ _ hfree => exact absurd hekey (hfree e he heint)

end Resolve

/-! ## One host of a report -/

/-- The tables after one host. -/
def afterHost (scan : Scan) (t : Tables) (h : ParsedHost) : Tables := (upsertHost scan ({}, t) h).2

/-- The counts do not bear on the tables. -/
theorem upsertHost_tables (scan : Scan) (n : Counts) (t : Tables) (h : ParsedHost) :
    (upsertHost scan (n, t) h).2 = afterHost scan t h := by
  unfold afterHost upsertHost
  dsimp only
  split
  · rfl
  · split
    · rfl
    · split <;> rfl

@[simp] theorem writeScripts_devices (scan : Scan) (id : Nat) (h : ParsedHost) (t : Tables) : (writeScripts scan id h t).devices = t.devices := by
  unfold writeScripts
  split <;> rfl

@[simp] theorem writeScripts_serial (scan : Scan) (id : Nat) (h : ParsedHost) (t : Tables) : (writeScripts scan id h t).serial = t.serial := by
  unfold writeScripts
  split <;> rfl

theorem Identified.put_self {t : Tables} (ht : Identified t) {d : NmapDevice} (hd : d ∈ t.devices) : t.put d = t := by
  have : ∀ e ∈ t.devices, (if e.id = d.id then d else e) = id e := by
    intro e he
    split
    · rename_i hid
      exact (ht.eq_of_id he hd hid).symm
    · rfl
  rw [Tables.put, List.map_congr_left this, List.map_id]

/-- What a host does to the rows. -/
inductive HostStep (scan : Scan) (t : Tables) (h : ParsedHost) (t' : Tables) : Prop
  | skipped (hskip : h.skipped scan.onlyUp = true) (hrows : t'.devices = t.devices) (hserial : t'.serial = t.serial)
  | ignored {d : NmapDevice} (hskip : h.skipped scan.onlyUp = false) (hr : resolve scan.query scan.integrationId t h = some d)
      (hd : d ∈ t.devices) (hstate : d.state = .ignored) (hrows : t'.devices = t.devices) (hserial : t'.serial = t.serial)
  | created (hskip : h.skipped scan.onlyUp = false) (hr : resolve scan.query scan.integrationId t h = none)
      (hrows : t'.devices = t.devices ++ [newDevice scan t h]) (hserial : t'.serial = t.serial + 1)
  | updated {d row : NmapDevice} (hskip : h.skipped scan.onlyUp = false) (hr : resolve scan.query scan.integrationId t h = some row)
      (hd : d ∈ t.devices) (hint : d.integrationId = scan.integrationId) (hfound : Found scan.integrationId t h d row)
      (hstate : d.state ≠ .ignored) (hrows : t'.devices = (t.put (refresh scan h row)).devices) (hserial : t'.serial = t.serial)

theorem hostStep {t : Tables} (ht : Identified t) (scan : Scan) (h : ParsedHost) : HostStep scan t h (afterHost scan t h) := by
  by_cases hskip : h.skipped scan.onlyUp = true
  · have heq : afterHost scan t h = t := by simp [afterHost, upsertHost, hskip]
    exact .skipped hskip (by rw [heq]) (by rw [heq])
  rw [Bool.not_eq_true] at hskip
  cases hr : resolve scan.query scan.integrationId t h with
  | none =>
    have heq : afterHost scan t h =
        writeScripts scan t.serial h { t with devices := t.devices ++ [newDevice scan t h], serial := t.serial + 1 } := by
      simp [afterHost, upsertHost, hskip, hr]
    exact .created hskip hr (by rw [heq, writeScripts_devices]) (by rw [heq, writeScripts_serial])
  | some row =>
    obtain ⟨d, hd, hint, hfound⟩ := resolve_found ht hr
    by_cases hig : row.state = .ignored
    · obtain rfl := hfound.of_ignored hig
      have heq : afterHost scan t h = t := by
        simp [afterHost, upsertHost, hskip, hr, hig, ht.put_self hd]
      exact .ignored hskip hr hd hig (by rw [heq]) (by rw [heq])
    · have heq : afterHost scan t h = writeScripts scan row.id h (t.put (refresh scan h row)) := by
        simp [afterHost, upsertHost, hskip, hr, hig]
      have hstate : d.state ≠ .ignored := by
        intro hd'
        cases hfound with
        | key => exact hig hd'
        | address _ _ _ hne => exact hne hd'
      exact .updated hskip hr hd hint hfound hstate (by rw [heq, writeScripts_devices]) (by rw [heq, writeScripts_serial]; rfl)

theorem mem_put {t : Tables} {row d : NmapDevice} (hd : d ∈ t.devices) (hid : row.id = d.id) {e : NmapDevice} :
    e ∈ (t.put row).devices ↔ e = row ∨ (e ∈ t.devices ∧ e.id ≠ row.id) := by
  simp only [Tables.put, List.mem_map]
  constructor
  · rintro ⟨x, hx, rfl⟩
    split
    · exact Or.inl rfl
    · rename_i hne
      exact Or.inr ⟨hx, hne⟩
  · rintro (rfl | ⟨he, hne⟩)
    · exact ⟨d, hd, if_pos hid.symm⟩
    · exact ⟨e, he, if_neg hne⟩

/-- A row is written whose key is on no other row. -/
theorem Identified.put {t t' : Tables} (ht : Identified t) {d row : NmapDevice} (hd : d ∈ t.devices) (hid : row.id = d.id)
    (hkey : row.identityKey = row.ownKey) (hmac : row.macAddress ≠ some [])
    (honly : ∀ e ∈ t.devices, e.integrationId = row.integrationId → e.identityKey = row.identityKey → e = d)
    (hrows : t'.devices = (t.put row).devices) (hserial : t'.serial = t.serial) : Identified t' := by
  have hmem : ∀ e ∈ t'.devices, e = row ∨ (e ∈ t.devices ∧ e.id ≠ row.id) := by
    intro e he
    rw [hrows] at he
    exact (mem_put hd hid).1 he
  constructor
  · have hids : t'.devices.map NmapDevice.id = t.devices.map NmapDevice.id := by
      rw [hrows, Tables.put, List.map_map]
      refine List.map_congr_left fun e _ => ?_
      simp only [Function.comp_apply]
      split
      · rename_i he
        exact he.symm
      · rfl
    rw [hids]
    exact ht.ids
  · intro e he
    rw [hserial]
    rcases hmem e he with rfl | ⟨he, -⟩
    · exact hid ▸ ht.fresh d hd
    · exact ht.fresh e he
  · intro e he
    rcases hmem e he with rfl | ⟨he, -⟩
    · exact hkey
    · exact ht.key e he
  · intro e he
    rcases hmem e he with rfl | ⟨he, -⟩
    · exact hmac
    · exact ht.mac e he
  · intro a ha b hb hint hab
    rcases hmem a ha with rfl | ⟨ha, hane⟩ <;> rcases hmem b hb with rfl | ⟨hb, hbne⟩
    · rfl
    · exact absurd (honly b hb hint.symm hab.symm ▸ hid.symm) hbne
    · exact absurd (honly a ha hint hab ▸ hid.symm) hane
    · exact ht.unique a ha b hb hint hab

theorem Identified.append {t t' : Tables} (ht : Identified t) {row : NmapDevice} (hid : row.id = t.serial)
    (hkey : row.identityKey = row.ownKey) (hmac : row.macAddress ≠ some [])
    (hfree : ∀ e ∈ t.devices, e.integrationId = row.integrationId → e.identityKey ≠ row.identityKey)
    (hrows : t'.devices = t.devices ++ [row]) (hserial : t'.serial = t.serial + 1) : Identified t' := by
  have hmem : ∀ e ∈ t'.devices, e ∈ t.devices ∨ e = row := by
    intro e he
    rw [hrows] at he
    simpa using he
  constructor
  · rw [hrows, List.map_append, List.nodup_append]
    refine ⟨ht.ids, by simp, fun a ha b hb => ?_⟩
    obtain ⟨d, hd, rfl⟩ := List.mem_map.1 ha
    obtain rfl : b = row.id := by simpa using hb
    have := ht.fresh d hd
    omega
  · intro e he
    rw [hserial]
    rcases hmem e he with he | rfl
    · exact Nat.lt_succ_of_lt (ht.fresh e he)
    · omega
  · intro e he
    rcases hmem e he with he | rfl
    · exact ht.key e he
    · exact hkey
  · intro e he
    rcases hmem e he with he | rfl
    · exact ht.mac e he
    · exact hmac
  · intro a ha b hb hint hab
    rcases hmem a ha with ha | rfl <;> rcases hmem b hb with hb | rfl
    · exact ht.unique a ha b hb hint hab
    · exact absurd hab (hfree a ha hint)
    · exact absurd hab.symm (hfree b hb hint.symm)
    · rfl

theorem ParsedHost.mac_ne_nil (h : ParsedHost) : h.mac ≠ some [] := fun hm => (normMac_normMac hm).1 rfl

/-- **Step.** A host leaves every row under its own key, and every key on one row. -/
theorem afterHost_identified {t : Tables} (ht : Identified t) (scan : Scan) (h : ParsedHost) : Identified (afterHost scan t h) := by
  rcases hostStep ht scan h with ⟨-, hrows, hserial⟩ | ⟨-, -, -, -, hrows, hserial⟩ | ⟨-, hr, hrows, hserial⟩ |
    ⟨-, hr, hd, hint, hfound, -, hrows, hserial⟩
  · exact ht.filter (by rw [hrows, List.filter_eq_self.2 fun _ _ => rfl]) hserial
  · exact ht.filter (by rw [hrows, List.filter_eq_self.2 fun _ _ => rfl]) hserial
  · refine ht.append rfl ?_ h.mac_ne_nil (resolve_none hr) hrows hserial
    cases hm : h.mac with
    | none => simp only [newDevice, NmapDevice.ownKey, hm, ParsedHost.key_of_none hm]
    | some m => simp only [newDevice, NmapDevice.ownKey, hm, ParsedHost.key_of_mac hm]
  · rename_i d row
    have honly := hfound.only ht hd hint
    have hkey : (refresh scan h row).identityKey = h.key := by
      simp only [refresh, hfound.key_eq, ite_self]
    have hcols : (refresh scan h row).integrationId = scan.integrationId := hfound.integrationId_eq.trans hint
    refine @Identified.put t _ ht d (refresh scan h row) hd hfound.id_eq ?_ ?_ ?_ hrows hserial
    · cases hm : h.mac with
      | some m => simp only [NmapDevice.ownKey, refresh, hm, reduceCtorEq, if_false, ParsedHost.key_of_mac hm]
      | none =>
        -- The host was found by its key, so that the row has no MAC either.
        have hrowmac : row.macAddress = none := by
          cases hfound with
          | address hmac => rw [hm] at hmac; cases hmac
          | key hdkey =>
            cases hcol : d.macAddress with
            | none => rfl
            | some m =>
              have hown := ht.key d hd
              rw [NmapDevice.ownKey, hcol, hdkey, ParsedHost.key_of_none hm] at hown
              exact absurd hown.symm (mac_ne_ip m h.ip)
        simp only [NmapDevice.ownKey, refresh, hm, if_true, hrowmac, hfound.key_eq, ParsedHost.key_of_none hm]
    · cases hm : h.mac with
      | some m =>
        have hcol : (refresh scan h row).macAddress = h.mac := by simp [refresh, hm]
        rw [hcol]
        exact h.mac_ne_nil
      | none =>
        simp only [refresh, hm, if_true]
        cases hfound with
        | key => exact ht.mac d hd
        | address hmac => rw [hm] at hmac; cases hmac
    · intro e he heint hekey
      exact honly e he (heint.trans hcols) (hekey.trans hkey)

/-- The tables after the first hosts of a report. -/
def afterHosts (scan : Scan) (t : Tables) (hosts : List ParsedHost) : Tables := (upsertHosts scan t hosts).2

theorem afterHosts_eq_runs (scan : Scan) (t : Tables) (hosts : List ParsedHost) :
    afterHosts scan t hosts = runs (afterHost scan) t hosts := by
  have hfold : ∀ (n : Counts) (t : Tables), (hosts.foldl (upsertHost scan) (n, t)).2 = runs (afterHost scan) t hosts := by
    induction hosts with
    | nil => exact fun _ _ => rfl
    | cons h hosts ih =>
      intro n t
      rw [List.foldl_cons, ← Prod.eta (upsertHost scan (n, t) h), ih, upsertHost_tables, runs_cons]
  exact hfold {} t

theorem afterHosts_identified {t : Tables} (ht : Identified t) (scan : Scan) (hosts : List ParsedHost) :
    Identified (afterHosts scan t hosts) := by
  rw [afterHosts_eq_runs]
  exact @runs_keeps _ _ (afterHost scan) Identified (fun t h ht => afterHost_identified ht scan h) hosts t ht

/-! ## The other calls -/

section Calls
variable {s : Session}

theorem writeAll_identified (hs : Identified s.live) {f : NmapDevice → NmapDevice} (hf : ∀ d, (f d).identity = d.identity) :
    Identified (s.writeAll f).live :=
  hs.map hf rfl rfl

theorem write_identified (hs : Identified s.live) (id : Nat) {f : NmapDevice → NmapDevice} (hf : ∀ d, (f d).identity = d.identity) :
    Identified (s.write id f).live := by
  refine writeAll_identified hs fun d => ?_
  split
  · exact hf d
  · rfl

/-- The rows that a session sees, and those that are committed. -/
def Both (P : Tables → Prop) (s : Session) : Prop := P s.live ∧ P s.committed

theorem Both.commit {P : Tables → Prop} (h : P s.live) : Both P s.commit := ⟨h, h⟩

theorem setDeviceState_identified (hs : Both Identified s) (now : Time) (id : Nat) (state : Str) (server : Option Nat) :
    Both Identified (setDeviceState now id state server s).2 := by
  unfold setDeviceState
  split
  · exact hs
  · split
    · exact ⟨write_identified hs.1 id fun _ => rfl, hs.2⟩
    · exact Both.commit (write_identified hs.1 id fun _ => rfl)
  · exact Both.commit (write_identified hs.1 id fun _ => rfl)

theorem setDeviceMapIdentity_identified (hs : Both Identified s) (m : MapIdentity) (id : Nat) :
    Both Identified (setDeviceMapIdentity m id s).2 := by
  have hclear : ∀ d, (m.clear id d).identity = d.identity := by
    intro d
    unfold MapIdentity.clear
    split <;> rfl
  unfold setDeviceMapIdentity
  refine Both.commit (write_identified (writeAll_identified ?_ hclear) id fun _ => rfl)
  split <;> exact hs.1

theorem applyStale_identified (hs : Both Identified s) (w : Sweep) : Both Identified (applyStaleDeviceStates w s).2 := by
  have hmark : ∀ d, (w.mark d).identity = d.identity := by
    intro d
    unfold Sweep.mark
    split <;> rfl
  unfold applyStaleDeviceStates
  dsimp only
  split
  · exact Both.commit (writeAll_identified hs.1 hmark)
  · exact ⟨writeAll_identified hs.1 hmark, hs.2⟩

theorem replaceStaleMac_identified (hs : Both Identified s) (c : NicChange) : Both Identified (replaceStaleMac c s).2 := by
  unfold replaceStaleMac
  split
  · split
    · exact hs
    · split
      · exact setDeviceState_identified ⟨write_identified hs.1 _ (f := takeFields _ c.now) fun _ => rfl, hs.2⟩ _ _ _ _
      · exact hs
  · exact hs

/-- **Step.** Every call keeps the keys. -/
theorem step_identified (s : Session) (c : Call) (hs : Both Identified s) : Both Identified (step s c) := by
  cases c with
  | scan scan => exact Both.commit (afterHosts_identified hs.1 scan scan.hosts)
  | sweep w => exact applyStale_identified hs w
  | setState now id state server => exact setDeviceState_identified hs now id state server
  | markKnown now id =>
    simp only [step, Call.outcome, markDeviceKnown]
    split
    · exact hs
    · exact setDeviceState_identified hs _ _ _ _
  | markNew now id =>
    simp only [step, Call.outcome, markDeviceNew]
    split
    · exact hs
    · exact setDeviceState_identified hs _ _ _ _
  | mapIdentity m id => exact setDeviceMapIdentity_identified hs m id
  | link now id server => exact Both.commit (write_identified hs.1 id fun _ => rfl)
  | unlink now id => exact Both.commit (write_identified hs.1 id fun _ => rfl)
  | replaceStaleMac c => exact replaceStaleMac_identified hs c
  | purge id => exact Both.commit (hs.1.filter rfl rfl)
  | commit => exact Both.commit hs.1
  | close => exact ⟨hs.2, hs.2⟩

end Calls

/-- Before the first scan. -/
def Session.opened (schedules : List NmapScanSchedule) : Session := { live := { schedules }, committed := { schedules } }

theorem runs_identified (schedules : List NmapScanSchedule) (calls : List Call) :
    Both Identified (runs step (Session.opened schedules) calls) := by
  have hstart : Identified { schedules } := by
    constructor <;> simp
  exact runs_keeps step_identified calls _ ⟨hstart, hstart⟩

/-! ## The rows after any calls -/

structure OneRow (t : Tables) : Prop where
  key_unique : ∀ d ∈ t.devices, ∀ d' ∈ t.devices, d.integrationId = d'.integrationId → d.identityKey = d'.identityKey → d = d'
  mac_key : ∀ d ∈ t.devices, ∀ m, d.macAddress = some m → d.identityKey = lit "mac:" ++ m
  mac_unique : ∀ d ∈ t.devices, ∀ d' ∈ t.devices, d.integrationId = d'.integrationId →
    ∀ m, d.macAddress = some m → d'.macAddress = some m → d = d'

theorem Identified.oneRow {t : Tables} (ht : Identified t) : OneRow t := by
  have hkey : ∀ d ∈ t.devices, ∀ m, d.macAddress = some m → d.identityKey = lit "mac:" ++ m := by
    intro d hd m hm
    have := ht.key d hd
    rwa [NmapDevice.ownKey, hm] at this
  refine ⟨ht.unique, hkey, fun d hd d' hd' hint m hm hm' => ?_⟩
  exact ht.unique d hd d' hd' hint ((hkey d hd m hm).trans (hkey d' hd' m hm').symm)

/-- What a host of a report leaves alone, and the row it gets when it has no MAC. -/
structure OwnRowOnly (scan : Scan) (h : ParsedHost) (t t' : Tables) : Prop where
  ignored : ∀ d ∈ t.devices, d.state = .ignored → d ∈ t'.devices
  others : ∀ d ∈ t.devices, (∀ row, resolve scan.query scan.integrationId t h = some row → row.id ≠ d.id) → d ∈ t'.devices
  nothingElse : ∀ d' ∈ t'.devices, d' ∈ t.devices ∨
    match resolve scan.query scan.integrationId t h with
    | some row => d'.id = row.id
    | none => d' = newDevice scan t h
  withoutMac : h.skipped scan.onlyUp = false → h.mac = none →
    (t'.devices = t.devices ++ [newDevice scan t h] ↔
      ∀ d ∈ t.devices, d.integrationId = scan.integrationId → d.identityKey ≠ lit "ip:" ++ h.ip)

theorem Identified.ownRowOnly {t : Tables} (ht : Identified t) (scan : Scan) (h : ParsedHost) :
    OwnRowOnly scan h t (afterHost scan t h) := by
  -- A row that is found has the key of the host, so that no new one is made.
  have hfoundKey : ∀ {d row}, d ∈ t.devices → d.integrationId = scan.integrationId → Found scan.integrationId t h d row → h.mac = none →
      ¬ ∀ d ∈ t.devices, d.integrationId = scan.integrationId → d.identityKey ≠ lit "ip:" ++ h.ip := by
    intro d row hd hint hfound hm hfree
    cases hfound with
    | key hkey => exact hfree d hd hint (hkey.trans (ParsedHost.key_of_none hm))
    | address hmac => rw [hm] at hmac; cases hmac
  have hlonger : ∀ {rows : List NmapDevice}, rows.length = t.devices.length → rows ≠ t.devices ++ [newDevice scan t h] := by
    intro rows hlen heq
    rw [heq, List.length_append] at hlen
    simp at hlen
  rcases hostStep ht scan h with ⟨hskip, hrows, -⟩ | ⟨-, hr, hd, hstate, hrows, -⟩ | ⟨-, hr, hrows, -⟩ |
    ⟨-, hr, hd, hint, hfound, hstate, hrows, -⟩
  · refine ⟨fun d hd _ => hrows ▸ hd, fun d hd _ => hrows ▸ hd, fun d hd => Or.inl (hrows ▸ hd), fun hskip' => ?_⟩
    rw [hskip] at hskip'
    cases hskip'
  · refine ⟨fun d hd _ => hrows ▸ hd, fun d hd _ => hrows ▸ hd, fun d hd => Or.inl (hrows ▸ hd), fun _ hm => ?_⟩
    obtain ⟨d, hd, hint, hfound⟩ := resolve_found ht hr
    exact ⟨fun heq => absurd heq (hlonger (by rw [hrows])), fun hfree => absurd hfree (hfoundKey hd hint hfound hm)⟩
  · have hmem : ∀ d ∈ t.devices, d ∈ (afterHost scan t h).devices := fun d hd => hrows ▸ List.mem_append_left _ hd
    refine ⟨fun d hd _ => hmem d hd, fun d hd _ => hmem d hd, fun d hd => ?_, fun _ hm => ?_⟩
    · rw [hr]
      rw [hrows] at hd
      simpa using hd
    · exact ⟨fun _ d hd hint => ParsedHost.key_of_none hm ▸ resolve_none hr d hd hint, fun _ => hrows⟩
  · rename_i d row
    have hput := @mem_put t (refresh scan h row) d hd hfound.id_eq
    have hmem : ∀ e ∈ t.devices, e.id ≠ d.id → e ∈ (afterHost scan t h).devices := by
      intro e he hne
      rw [hrows]
      exact hput.2 (Or.inr ⟨he, fun hid => hne (hid.trans hfound.id_eq)⟩)
    refine ⟨fun e he hig => hmem e he ?_, fun e he hne => hmem e he ?_, fun e he => ?_, fun _ hm => ?_⟩
    · intro hid
      exact hstate (ht.eq_of_id he hd hid ▸ hig)
    · exact fun hid => hne row hr (hfound.id_eq.trans hid.symm)
    · rw [hr]
      rw [hrows] at he
      rcases hput.1 he with rfl | ⟨he, -⟩
      · exact Or.inr rfl
      · exact Or.inl he
    · refine ⟨fun heq => absurd heq (hlonger ?_), fun hfree => absurd hfree (hfoundKey hd hint hfound hm)⟩
      rw [hrows, Tables.put, List.length_map]

/-- **One row for each device.** After any calls, in the rows a session sees and in the committed ones: a key is on one
row, a row with a MAC has its key, a host of a report writes the row it is resolved to and no other, no ignored one among
them. A host without a MAC gets a new row exactly when no row has its address for a key. -/
theorem one_row_each (schedules : List NmapScanSchedule) (calls : List Call) :
    Both (fun t => OneRow t ∧
        ∀ (scan : Scan) (seen : List ParsedHost) (h : ParsedHost),
          OwnRowOnly scan h (afterHosts scan t seen) (afterHosts scan t (seen ++ [h])))
      (runs step (Session.opened schedules) calls) := by
  have hrow : ∀ t, Identified t → OneRow t ∧ ∀ (scan : Scan) (seen : List ParsedHost) (h : ParsedHost),
      OwnRowOnly scan h (afterHosts scan t seen) (afterHosts scan t (seen ++ [h])) := by
    refine fun t ht => ⟨ht.oneRow, fun scan seen h => ?_⟩
    have := (afterHosts_identified ht scan seen).ownRowOnly scan h
    rwa [afterHosts_eq_runs, afterHosts_eq_runs scan t (seen ++ [h]), runs_append, runs_cons, runs_nil, ← afterHosts_eq_runs] at *
  obtain ⟨hlive, hcommitted⟩ := runs_identified schedules calls
  exact ⟨hrow _ hlive, hrow _ hcommitted⟩

/-- A report of one host. -/
def reportOf (h : ParsedHost) : Call := .scan ⟨1, [h], none, true, 0, FirstRow.head NmapDevice⟩

/-- Seen with its MAC, then at the same address without it. -/
theorem second_row_without_mac :
    ((runs step (Session.opened []) [
        reportOf { ipAddress := lit "192.168.1.10", macAddress := some (lit "aa:bb:cc:dd:ee:ff") },
        reportOf { ipAddress := lit "192.168.1.10" }]).committed.devices.map fun d => (d.identityKey, d.ipAddress)) =
      [(lit "mac:AA:BB:CC:DD:EE:FF", lit "192.168.1.10"), (lit "ip:192.168.1.10", lit "192.168.1.10")] := by
  decide

end PiHerder.Discovery
