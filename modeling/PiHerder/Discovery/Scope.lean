import PiHerder.Discovery.Targets

/-!
# A scan stays in its scope

`reads` is how nmap takes a command line apart: options, some of them with a value, and the other words, which are targets.
A token stands for the addresses of the network it is read as. The targets of a run lie in the configured networks one by
one; of the excluded networks nothing gets lost between the form, the configuration and `--exclude`, except where a comma
in a zone id would part a token. Both routes part their text areas at commas first.
-/
namespace PiHerder.Discovery
open Lib Lib.Str Lib.Ip

/-! ## What a command line says -/

/-- The options that take the word behind them. -/
def valued : List Str := [lit "-oX", lit "-p", lit "--top-ports", lit "--exclude", lit "--script"]

/-- The targets, and the values of `--exclude`. -/
def reads : List Str → List Str × List Str
  | [] => ([], [])
  | [w] => if w.head? = some '-' then ([], []) else ([w], [])
  | w :: v :: rest =>
    if w = lit "--exclude" then ((reads rest).1, v :: (reads rest).2)
    else if w ∈ valued then reads rest
    else if w.head? = some '-' then reads (v :: rest)
    else (w :: (reads (v :: rest)).1, (reads (v :: rest)).2)

/-- The addresses a word of the command line stands for. -/
def Denotes (token : Str) (a : Address) : Prop := ∃ n, readNetwork token = some n ∧ n.contains a = true

/-- The addresses of an entry of the configuration. -/
def EntryDenotes (entry : Str) (a : Address) : Prop := ∃ n, parseNetwork entry = some n ∧ n.contains a = true

/-- The addresses of the targets, without the program's own name. -/
def Targeted (argv : List Str) (a : Address) : Prop := ∃ t ∈ (reads argv.tail).1, Denotes t a

/-- `--exclude` takes its hosts with commas between them. -/
def Excluded (argv : List Str) (a : Address) : Prop := ∃ v ∈ (reads argv.tail).2, ∃ t ∈ split ',' v, Denotes t a

instance (token : Str) (a : Address) : Decidable (Denotes token a) :=
  decidable_of_iff ((readNetwork token).any fun n => n.contains a) (by simp [Denotes, Option.any_eq_true])

instance (argv : List Str) (a : Address) : Decidable (Targeted argv a) := inferInstanceAs (Decidable (∃ _ ∈ _, _))

instance (argv : List Str) (a : Address) : Decidable (Excluded argv a) := inferInstanceAs (Decidable (∃ _ ∈ _, ∃ _ ∈ _, _))

/-! ## Words -/

/-- A part of a command line that is read on its own. -/
def Reads (args targets excludes : List Str) : Prop :=
  ∀ rest, reads (args ++ rest) = (targets ++ (reads rest).1, excludes ++ (reads rest).2)

theorem Reads.nil : Reads [] [] [] := fun _ => rfl

theorem Reads.append {args args' ts ts' es es' : List Str} (h : Reads args ts es) (h' : Reads args' ts' es') :
    Reads (args ++ args') (ts ++ ts') (es ++ es') := by
  intro rest
  rw [List.append_assoc, h, h']
  simp

theorem Reads.of_eq {args ts ts' es es' : List Str} (h : Reads args ts es) (hts : ts = ts') (hes : es = es') : Reads args ts' es' :=
  hts ▸ hes ▸ h

theorem Reads.flag {w : Str} (hhead : w.head? = some '-') (hw : w ∉ valued) : Reads [w] [] [] := by
  have hne : w ≠ lit "--exclude" := by
    rintro rfl
    exact hw (by decide)
  intro rest
  cases rest with
  | nil => simp [reads, hhead]
  | cons v rest => simp [reads, hhead, hw, hne]

theorem Reads.value {w : Str} (hw : w ∈ valued) (hne : w ≠ lit "--exclude") (v : Str) : Reads [w, v] [] [] := by
  intro rest
  simp [reads, hw, hne]

theorem Reads.exclude (v : Str) : Reads [lit "--exclude", v] [] [v] := fun _ => rfl

theorem Reads.target {w : Str} (hhead : w.head? ≠ some '-') : Reads [w] [w] [] := by
  have hne : w ≠ lit "--exclude" := by
    rintro rfl
    exact hhead rfl
  have hw : w ∉ valued := by
    intro h
    have hall : ∀ v ∈ valued, v.head? = some '-' := by decide
    exact hhead (hall w h)
  intro rest
  cases rest with
  | nil => simp [reads, hhead]
  | cons v rest => simp [reads, hhead, hw, hne]

theorem Reads.targets : ∀ {ws : List Str}, (∀ w ∈ ws, w.head? ≠ some '-') → Reads ws ws []
  | [], _ => Reads.nil
  | w :: _, h => (Reads.target (h w List.mem_cons_self)).append (Reads.targets fun v hv => h v (List.mem_cons_of_mem _ hv))

/-- Options alone. -/
theorem Reads.ite {c : Prop} [Decidable c] {args args' : List Str} (h : Reads args [] []) (h' : Reads args' [] []) :
    Reads (if c then args else args') [] [] := by
  split
  · exact h
  · exact h'

theorem reads_portArgs (mode : PortMode) (ports : Str) (topPorts : Int) : Reads (portArgs mode ports topPorts) [] [] := by
  cases mode with
  | list => exact Reads.ite (Reads.value (by decide) (by decide) ports) Reads.nil
  | all => exact Reads.flag (by decide) (by decide)
  | top => exact Reads.value (by decide) (by decide) _

theorem reads_intensityPortArgs (intensity : Str) (mode : PortMode) (ports : Str) (topPorts : Int) :
    Reads (intensityPortArgs intensity mode ports topPorts) [] [] :=
  Reads.ite (reads_portArgs _ _ _) (reads_portArgs _ _ _)

theorem reads_timingArgs (timing : Option Int) : Reads (timingArgs timing) [] [] := by
  unfold timingArgs
  split
  · refine Reads.ite (Reads.flag rfl fun hmem => ?_) Reads.nil
    have hall : ∀ v ∈ valued, v[1]? ≠ some 'T' := by decide
    exact hall _ hmem rfl
  · exact Reads.nil

theorem reads_scriptArgs (pack : VulnPack) (preset : ScriptPreset) : Reads (scriptArgsForPreset pack preset) [] [] := by
  cases preset with
  | none => exact Reads.nil
  | cpe | offline | full => exact Reads.value (by decide) (by decide) _

theorem reads_excludeArgs (excludes : List Str) :
    Reads (nmapExcludeArgs excludes) [] (nmapExcludeArgs excludes).tail := by
  unfold nmapExcludeArgs
  dsimp only
  split
  · exact Reads.nil
  · exact Reads.exclude _

/-! ## Networks through their texts -/

theorem readNetwork_str (n : Network) : readNetwork n.str = some n := by
  unfold readNetwork
  rw [if_pos (by simp [Network.str]), ipNetwork_str]

theorem parseNetwork_str (n : Network) : parseNetwork n.str = some n := by
  unfold parseNetwork
  rw [strip_str, if_neg (str_ne_nil n), readNetwork_str]

/-- The token of `--exclude` is read as the network it was written for. -/
theorem readNetwork_excludeToken (n : Network) : readNetwork (excludeToken n) = some n := by
  unfold excludeToken
  split
  · rename_i hone
    have hwidth : n.addr.width = n.prefixlen := by
      have hle := n.le
      have hzero : n.addr.width - n.prefixlen = 0 := by
        by_contra hpos
        have := Nat.one_lt_two_pow hpos
        unfold Network.numAddresses at hone
        omega
      omega
    unfold readNetwork
    rw [if_neg (slash_notMem_str n.addr), ipAddress_str, Option.bind_some, hwidth]
    exact ipNetwork_str n
  · exact readNetwork_str n

theorem parseNetwork_strip (s : Str) : parseNetwork (strip s) = parseNetwork s := by
  unfold parseNetwork
  rw [strip_strip]

theorem parseNetwork_blank {s : Str} (h : strip s = []) : parseNetwork s = none := if_pos h

/-- Blank entries denote nothing. -/
theorem filterMap_entries (l : List Str) : ((l.map strip).filter (· ≠ [])).filterMap parseNetwork = l.filterMap parseNetwork := by
  induction l with
  | nil => rfl
  | cons s l ih =>
    rw [List.map_cons]
    by_cases hs : strip s = []
    · rw [List.filter_cons_of_neg (by simp [hs]), ih, List.filterMap_cons_none (parseNetwork_blank hs)]
    · rw [List.filter_cons_of_pos (by simp [hs]), List.filterMap_cons, List.filterMap_cons, parseNetwork_strip, ih]

theorem validateCidrs_fst (l : List Str) : (validateCidrs l).1 = (l.filterMap parseNetwork).map Network.str := by
  rw [← filterMap_entries, List.map_filterMap]
  rfl

/-- A list of networks that was written reads back. -/
theorem filterMap_map_str (ns : List Network) : (ns.map Network.str).filterMap parseNetwork = ns := by
  rw [List.filterMap_map, show parseNetwork ∘ Network.str = some from funext parseNetwork_str, List.filterMap_some]

theorem cfgCidrList_map_str (ns : List Network) : cfgCidrList (ns.map Network.str) = ns.map Network.str := by
  have hstrip : strip ∘ Network.str = Network.str := funext strip_str
  unfold cfgCidrList
  rw [List.map_map, hstrip]
  refine List.filter_eq_self.2 fun s hs => ?_
  obtain ⟨n, -, rfl⟩ := List.mem_map.1 hs
  simp [str_ne_nil]

/-- A character that stands in no address and not in the text stands in no network read from it. -/
theorem notMem_readNetwork {c : Char} (hc : Foreign c) {s : Str} {n : Network} (h : readNetwork s = some n) (hs : c ∉ s) : c ∉ n.str := by
  unfold readNetwork at h
  split at h
  · exact notMem_ipNetwork hc h hs
  · obtain ⟨a, ha, hnet⟩ := Option.bind_eq_some_iff.1 h
    refine notMem_ipNetwork hc hnet ?_
    have hsplit : ipv4Address s = some a ∨ ipv6Address s = some a := by
      unfold ipAddress at ha
      cases h4 : ipv4Address s with
      | some b => rw [h4] at ha; exact Or.inl ha
      | none => rw [h4] at ha; exact Or.inr ha
    have haddr : c ∉ a.str := Address.notMem_str hc fun scope hscope hmem => hs (scope_ipAddress hsplit scope hscope c hmem)
    have hnum : c ∉ ofNat a.width := notMem_ofNat hc.2.1 _
    simp [haddr, hc.2.2.2.2.2, hnum]

theorem notMem_excludeToken {c : Char} {n : Network} (h : c ∉ n.str) : c ∉ excludeToken n := by
  unfold excludeToken
  split
  · exact fun hmem => h (List.mem_append_left _ hmem)
  · exact h

/-- A network does not start with a dash. -/
theorem head_readNetwork {s : Str} {n : Network} (h : readNetwork s = some n) : s.head? ≠ some '-' := by
  have hdash : Foreign '-' := by decide
  rintro hhead
  cases s with
  | nil => cases hhead
  | cons d s =>
    obtain rfl := Option.some.inj hhead
    unfold readNetwork at h
    split at h
    · rw [ipNetwork_foreign hdash] at h
      cases h
    · rw [ipAddress, ipv4Address_foreign hdash, ipv6Address_foreign hdash] at h
      cases h

/-! ## The excluded networks of an intensity -/

/-- The lists that apply to an intensity. -/
def NmapConfig.excludesAt (cfg : NmapConfig) (intensity : Str) : List Str :=
  cfg.excludes ++ (if normIntensity intensity ∈ [lit "inventory", lit "detailed", lit "deep"] then cfg.excludesPortScans else [])
    ++ if normIntensity intensity = lit "deep" then cfg.excludesDeep else []

theorem mem_addEntries {x : Str} : ∀ {items out : List Str}, x ∈ addEntries out items ↔ x ∈ out ∨ (x ≠ [] ∧ ∃ r ∈ items, strip r = x)
  | [], out => by simp [addEntries]
  | r :: items, out => by
    rw [addEntries, List.foldl_cons, ← addEntries, mem_addEntries]
    split
    · rename_i h
      constructor
      · rintro (h' | ⟨hne, q, hq, rfl⟩)
        · exact Or.inl h'
        · exact Or.inr ⟨hne, q, List.mem_cons_of_mem _ hq, rfl⟩
      · rintro (h' | ⟨hne, q, hq, rfl⟩)
        · exact Or.inl h'
        · rcases List.mem_cons.1 hq with rfl | hq
          · exact Or.inl (h.resolve_left hne)
          · exact Or.inr ⟨hne, q, hq, rfl⟩
    · rename_i h
      rw [not_or] at h
      simp only [List.mem_append, List.mem_cons, List.not_mem_nil, or_false, exists_eq_or_imp]
      constructor
      · rintro ((h' | rfl) | ⟨hne, h'⟩)
        · exact Or.inl h'
        · exact Or.inr ⟨h.1, Or.inl rfl⟩
        · exact Or.inr ⟨hne, Or.inr h'⟩
      · rintro (h' | ⟨hne, h' | h'⟩)
        · exact Or.inl (Or.inl h')
        · exact Or.inl (Or.inr h'.symm)
        · exact Or.inr ⟨hne, h'⟩

/-- Entries that are networks as they are written. -/
theorem mem_addEntries_str {x : Str} {ns : List Network} {out : List Str} :
    x ∈ addEntries out (ns.map Network.str) ↔ x ∈ out ∨ ∃ n ∈ ns, n.str = x := by
  rw [mem_addEntries]
  refine or_congr_right ⟨fun ⟨_, r, hr, hx⟩ => ?_, fun ⟨n, hn, hx⟩ => ?_⟩
  · obtain ⟨n, hn, rfl⟩ := List.mem_map.1 hr
    exact ⟨n, hn, by rw [← hx, strip_str]⟩
  · exact ⟨hx ▸ str_ne_nil n, n.str, List.mem_map_of_mem hn, by rw [strip_str, hx]⟩

section Written
variable {cfg written : NmapConfig} (h : dumpNmapConfig cfg = .ok written)
include h

/-- The configuration holds the networks of its entries. -/
theorem dumpNmapConfig_lists :
    written.cidrs = (cfg.cidrs.filterMap parseNetwork).map Network.str ∧
      written.excludes = (cfg.excludes.filterMap parseNetwork).map Network.str ∧
      written.excludesPortScans = (cfg.excludesPortScans.filterMap parseNetwork).map Network.str ∧
      written.excludesDeep = (cfg.excludesDeep.filterMap parseNetwork).map Network.str := by
  unfold dumpNmapConfig at h
  simp only at h
  split at h
  · cases h
  split at h
  · cases h
  split at h
  · cases h
  split at h
  · cases h
  cases h
  exact ⟨validateCidrs_fst _, validateCidrs_fst _, validateCidrs_fst _, validateCidrs_fst _⟩

theorem integrationCidrs_allowed (intensity : Str) :
    (integrationCidrs written intensity).1 = (cfg.cidrs.filterMap parseNetwork).map Network.str := by
  simp only [integrationCidrs, parseNmapConfig]
  rw [(dumpNmapConfig_lists h).1, cfgCidrList_map_str, validateCidrs_fst, filterMap_map_str]

/-- **Nothing excluded gets lost**, and nothing is added, between the form and the run. -/
theorem mem_integrationCidrs_excludes (intensity : Str) {n : Network} :
    n ∈ (integrationCidrs written intensity).2.filterMap parseNetwork ↔ n ∈ (cfg.excludesAt intensity).filterMap parseNetwork := by
  obtain ⟨-, halways, hport, hdeep⟩ := dumpNmapConfig_lists h
  simp only [integrationCidrs, parseNmapConfig]
  rw [validateCidrs_fst, filterMap_map_str, halways, hport, hdeep, cfgCidrList_map_str, cfgCidrList_map_str, cfgCidrList_map_str]
  have hentries : ∀ x, x ∈ effectiveExcludes ((cfg.excludes.filterMap parseNetwork).map Network.str) intensity
      ((cfg.excludesPortScans.filterMap parseNetwork).map Network.str) ((cfg.excludesDeep.filterMap parseNetwork).map Network.str) ↔
        ∃ m ∈ (cfg.excludesAt intensity).filterMap parseNetwork, m.str = x := by
    intro x
    unfold effectiveExcludes NmapConfig.excludesAt
    dsimp only
    by_cases hdeep : normIntensity intensity = lit "deep"
    · have hin : lit "deep" ∈ [lit "inventory", lit "detailed", lit "deep"] := by decide
      simp only [hdeep, if_pos hin, if_true, mem_addEntries_str, List.filterMap_append, List.mem_append, List.not_mem_nil, false_or, or_and_right, exists_or]
    · rw [if_neg hdeep, if_neg hdeep, List.append_nil]
      split
      · simp only [mem_addEntries_str, List.filterMap_append, List.mem_append, List.not_mem_nil, false_or, or_and_right, exists_or]
      · simp only [mem_addEntries_str, List.append_nil, List.not_mem_nil, false_or]
  rw [List.mem_filterMap]
  constructor
  · rintro ⟨x, hx, hparse⟩
    obtain ⟨m, hm, rfl⟩ := (hentries x).1 hx
    rw [parseNetwork_str] at hparse
    exact Option.some.inj hparse ▸ hm
  · exact fun hn => ⟨n.str, (hentries n.str).2 ⟨n, hn, rfl⟩, parseNetwork_str n⟩

end Written

/-! ## The command lines of a run -/

theorem mem_filterTargets {targets allowed excludes : List Str} {t : Str} (ht : t ∈ filterTargets targets allowed excludes) :
    strip t = t ∧ t ≠ [] ∧ targetInScope t allowed = true := by
  obtain ⟨hmem, hok⟩ := List.mem_filter.1 ht
  obtain ⟨hmap, hne⟩ := List.mem_filter.1 hmem
  obtain ⟨s, -, rfl⟩ := List.mem_map.1 hmap
  rw [targetAllowed, Bool.and_eq_true] at hok
  exact ⟨strip_strip s, by simpa using hne, hok.1⟩

/-- A target in scope is a network inside an allowed one. -/
theorem readNetwork_of_inScope {t : Str} (hstrip : strip t = t) {allowed : List Str} (h : targetInScope t allowed = true) :
    ∃ tgt, readNetwork t = some tgt ∧ ∃ al ∈ allowed.filterMap parseNetwork, withinNetwork tgt al = true := by
  unfold targetInScope at h
  split at h
  · cases h
  · rename_i tgt hparse
    unfold parseNetwork at hparse
    split at hparse
    · cases hparse
    · rw [hstrip] at hparse
      exact ⟨tgt, hparse, List.any_eq_true.1 h⟩

/-- The addresses of a target inside a network are the network's. -/
theorem contains_of_withinNetwork {tgt al : Network} (h : withinNetwork tgt al = true) {a : Address} (ha : tgt.contains a = true) :
    al.contains a = true := by
  simp only [withinNetwork, Bool.and_eq_true, Bool.or_eq_true, beq_iff_eq] at h
  obtain ⟨hversion, hsub | ⟨hone, hal⟩⟩ := h
  · exact Network.contains_of_subnetOf hversion hsub ha
  · -- The network of one address holds that address only.
    rw [Network.contains_iff_between] at ha hal ⊢
    obtain ⟨hv, hlow, hhigh⟩ := ha
    rw [Network.broadcast, hone] at hhigh
    have hip : a.ip = tgt.addr.ip := by omega
    rw [hip]
    exact ⟨hv.trans hversion, hal.2⟩

/-- What `build_nmap_argv` gives is read as its targets and its excludes. -/
theorem reads_buildNmapArgv {intensity out : Str} {targets excludes argv : List Str} {skipDns useSyn : Bool} {opts : ScanOptions}
    (hwords : ∀ t ∈ targets, strip t = t ∧ t ≠ [] ∧ t.head? ≠ some '-')
    (h : buildNmapArgv intensity targets out skipDns useSyn false opts excludes [] = some argv) :
    ∃ args, argv = lit "nmap" :: args ∧ Reads args targets (nmapExcludeArgs excludes).tail := by
  have htargets : (targets.map strip).filter (· ≠ []) = targets := by
    have hmap : targets.map strip = targets := (List.map_congr_left fun t ht => (hwords t ht).1).trans (List.map_id _)
    rw [hmap]
    exact List.filter_eq_self.2 fun t ht => by simpa using (hwords t ht).2.1
  unfold buildNmapArgv at h
  simp only [htargets] at h
  generalize (if normIntensity intensity ∈ intensities then normIntensity intensity else lit "discovery") = intensity at h
  split at h
  · cases h
  cases h
  refine ⟨_, rfl, ?_⟩
  have hextra : Reads (keptExtraArgs []) [] [] := Reads.nil
  have hout := Reads.value (w := lit "-oX") (by decide) (by decide) out
  have hskip : Reads (if skipDns = true then [lit "-n"] else []) [] [] := Reads.ite (Reads.flag (by decide) (by decide)) Reads.nil
  have hscan : Reads [if useSyn = true then lit "-sS" else lit "-sT", lit "-sV"] [] [] := by
    cases useSyn
    · exact (Reads.flag (w := lit "-sT") (by decide) (by decide)).append (Reads.flag (w := lit "-sV") (by decide) (by decide))
    · exact (Reads.flag (w := lit "-sS") (by decide) (by decide)).append (Reads.flag (w := lit "-sV") (by decide) (by decide))
  have hudp : Reads (if opts.includeUdp = true then [lit "-sU"] else []) [] [] := Reads.ite (Reads.flag (by decide) (by decide)) Reads.nil
  have hdiscovery : Reads [lit "-sn", lit "-PR"] [] [] :=
    (Reads.flag (w := lit "-sn") (by decide) (by decide)).append (Reads.flag (w := lit "-PR") (by decide) (by decide))
  have hscripts : ∀ intensity : Str, Reads (if intensity = lit "deep" ∧ false = true then [lit "--script", lit "vuln,vulners"] else []) [] [] :=
    fun _ => Reads.ite (Reads.value (by decide) (by decide) _) Reads.nil
  refine Reads.of_eq (((((hout.append hskip).append (?_ : Reads _ [] [])).append (reads_excludeArgs excludes)).append hextra).append
    (Reads.targets fun t ht => (hwords t ht).2.2)) (by simp) (by simp)
  split
  · exact hdiscovery
  · exact (((hscan.append (reads_intensityPortArgs _ _ _ _)).append (hscripts _)).append (reads_timingArgs _)).append hudp

theorem streamed_cons (binary : Str) (args : List Str) :
    streamed (binary :: args) = binary :: args ∨ streamed (binary :: args) = binary :: lit "-v" :: args := by
  simp only [streamed]
  split
  · exact Or.inl rfl
  · exact Or.inr rfl

/-- **A run's command lines.** Each is read as the targets that were let through and the excludes of the intensity. -/
theorem reads_runNmapScan {worker : Worker} {enabled : Bool} {config : NmapConfig} {run : NmapScanRun} {opts : ScanOptions}
    {useSyn : Option Bool} {argv : List Str} (h : argv ∈ runNmapScan worker enabled config run opts useSyn) :
    ∃ targets, (∀ t ∈ targets, strip t = t ∧ targetInScope t (integrationCidrs config run.intensity).1 = true) ∧
      reads argv.tail = (targets, (nmapExcludeArgs (integrationCidrs config run.intensity).2).tail) := by
  unfold runNmapScan at h
  split at h
  · cases h
  dsimp only at h
  generalize integrationCidrs config run.intensity = cidrs at h ⊢
  generalize (if (run.targets.map strip).filter (· ≠ []) = [] then cidrs.1 else (run.targets.map strip).filter (· ≠ [])) = asked at h
  generalize hok : filterTargets asked cidrs.1 cidrs.2 = okTargets at h
  split at h
  · cases h
  obtain ⟨command, hcommand, rfl⟩ := List.mem_map.1 h
  obtain ⟨withSyn, -, hbuild⟩ := List.mem_filterMap.1 hcommand
  obtain ⟨built, hargv, rfl⟩ := Option.map_eq_some_iff.1 hbuild
  have hin : ∀ t ∈ okTargets, strip t = t ∧ t ≠ [] ∧ targetInScope t cidrs.1 = true :=
    fun t ht => mem_filterTargets (hok ▸ ht)
  have hwords : ∀ t ∈ okTargets, strip t = t ∧ t ≠ [] ∧ t.head? ≠ some '-' := by
    intro t ht
    obtain ⟨hstrip, hne, hscope⟩ := hin t ht
    obtain ⟨tgt, hread, -⟩ := readNetwork_of_inScope hstrip hscope
    exact ⟨hstrip, hne, head_readNetwork hread⟩
  obtain ⟨args, rfl, hargs⟩ := reads_buildNmapArgv hwords hargv
  refine ⟨okTargets, fun t ht => ⟨(hin t ht).1, (hin t ht).2.2⟩, ?_⟩
  -- The script arguments stand behind the targets, and `-v` before everything.
  have hscripted : ∃ more, Reads more [] [] ∧ ∀ c : Bool, (if c = true then lit "nmap" :: args ++ scriptArgsForPreset worker.pack opts.scriptPreset
      else lit "nmap" :: args) = lit "nmap" :: (args ++ if c = true then more else []) :=
    ⟨_, reads_scriptArgs worker.pack opts.scriptPreset, fun c => by cases c <;> simp⟩
  obtain ⟨more, hmore, heq⟩ := hscripted
  have hverbose := Reads.flag (w := lit "-v") (by decide) (by decide)
  have hall : ∀ more', Reads more' [] [] → reads (streamed (lit "nmap" :: (args ++ more'))).tail = (okTargets, (nmapExcludeArgs cidrs.2).tail) := by
    intro more' hmore'
    rcases streamed_cons (lit "nmap") (args ++ more') with hstream | hstream
    · rw [hstream]
      simpa [reads] using (hargs.append hmore') []
    · rw [hstream]
      simpa [reads] using (hverbose.append (hargs.append hmore')) []
  rw [heq]
  exact hall _ (Reads.ite hmore Reads.nil)

/-! ## The scope -/

/-- The place of an intensity on the ladder; an unknown one is a discovery. -/
def intensityRank (intensity : Str) : Nat :=
  if normIntensity intensity = lit "inventory" then 1
  else if normIntensity intensity = lit "detailed" then 2
  else if normIntensity intensity = lit "deep" then 3
  else 0

/-- A higher intensity keeps the lists of a lower one. -/
theorem excludesAt_mono (cfg : NmapConfig) {lower higher : Str} (h : intensityRank lower ≤ intensityRank higher) :
    ∀ e ∈ cfg.excludesAt lower, e ∈ cfg.excludesAt higher := by
  have hport : ∀ i, normIntensity i ∈ [lit "inventory", lit "detailed", lit "deep"] ↔ 1 ≤ intensityRank i := by
    intro i
    unfold intensityRank
    split_ifs <;> simp_all
  have hdeep : ∀ i, normIntensity i = lit "deep" ↔ 3 ≤ intensityRank i := by
    intro i
    have hinventory : lit "inventory" ≠ lit "deep" := by decide
    have hdetailed : lit "detailed" ≠ lit "deep" := by decide
    unfold intensityRank
    split_ifs <;> simp_all
  intro e he
  unfold NmapConfig.excludesAt at he ⊢
  simp only [hport, hdeep] at he ⊢
  rcases List.mem_append.1 he with he | he
  · rcases List.mem_append.1 he with he | he
    · exact List.mem_append_left _ (List.mem_append_left _ he)
    · split at he
      · refine List.mem_append_left _ (List.mem_append_right _ ?_)
        rwa [if_pos (by omega)]
      · cases he
  · split at he
    · refine List.mem_append_right _ ?_
      rwa [if_pos (by omega)]
    · cases he

/-- A text area's entries hold no commas. -/
theorem comma_parseCidrsTextarea (raw : Str) : ∀ e ∈ parseCidrsTextarea raw, ',' ∉ e := by
  intro e he hmem
  obtain ⟨hmap, -⟩ := List.mem_filter.1 he
  obtain ⟨line, hline, rfl⟩ := List.mem_map.1 hmap
  have hin : ',' ∈ line := by
    unfold strip lstripWhere rstripWhere at hmem
    exact (List.dropWhile_sublist _).subset ((List.rdropWhile_prefix _ _).subset hmem)
  obtain ⟨c, -, hc⟩ := List.mem_map.1 (mem_of_mem_splitlines hline hin)
  split at hc
  · exact absurd hc (by decide)
  · rename_i hne
    exact hne hc

section Scope
variable {cfg written : NmapConfig} (h : dumpNmapConfig cfg = .ok written)
include h

/-- Every target is a network inside a configured one. -/
theorem targeted_in_scope {worker : Worker} {enabled : Bool} {run : NmapScanRun} {opts : ScanOptions} {useSyn : Option Bool} {argv : List Str}
    (hargv : argv ∈ runNmapScan worker enabled written run opts useSyn) {a : Address} (ha : Targeted argv a) :
    ∃ c ∈ cfg.cidrs, EntryDenotes c a := by
  obtain ⟨targets, htargets, hreads⟩ := reads_runNmapScan hargv
  obtain ⟨t, ht, n, hn, hcontains⟩ := ha
  rw [hreads] at ht
  obtain ⟨hstrip, hscope⟩ := htargets t ht
  obtain ⟨tgt, htgt, al, hal, hwithin⟩ := readNetwork_of_inScope hstrip hscope
  obtain rfl := Option.some.inj (hn.symm.trans htgt)
  rw [integrationCidrs_allowed h, filterMap_map_str] at hal
  obtain ⟨c, hc, hparse⟩ := List.mem_filterMap.1 hal
  exact ⟨c, hc, al, hparse, contains_of_withinNetwork hwithin hcontains⟩

/-- **What `--exclude` says** is what the lists of the intensity say. -/
theorem excluded_iff (hcomma : ∀ e ∈ cfg.excludes ++ cfg.excludesPortScans ++ cfg.excludesDeep, ',' ∉ e) {worker : Worker} {enabled : Bool}
    {run : NmapScanRun} {opts : ScanOptions} {useSyn : Option Bool} {argv : List Str}
    (hargv : argv ∈ runNmapScan worker enabled written run opts useSyn) (a : Address) :
    Excluded argv a ↔ ∃ e ∈ cfg.excludesAt run.intensity, EntryDenotes e a := by
  obtain ⟨targets, -, hreads⟩ := reads_runNmapScan hargv
  have hnets := fun n => @mem_integrationCidrs_excludes cfg written h run.intensity n
  set nets := (integrationCidrs written run.intensity).2.filterMap parseNetwork with hdef
  have hplain : ∀ n ∈ nets, ',' ∉ n.str := by
    intro n hn
    obtain ⟨e, he, hparse⟩ := List.mem_filterMap.1 ((hnets n).1 hn)
    have hin : ',' ∉ e := by
      refine hcomma e ?_
      unfold NmapConfig.excludesAt at he
      simp only [List.mem_append] at he ⊢
      rcases he with (he | he) | he
      · exact Or.inl (Or.inl he)
      · split at he
        · exact Or.inl (Or.inr he)
        · cases he
      · split at he
        · exact Or.inr he
        · cases he
    unfold parseNetwork at hparse
    split at hparse
    · cases hparse
    · refine notMem_readNetwork (by decide) hparse fun hmem => hin ?_
      unfold strip lstripWhere rstripWhere at hmem
      exact (List.dropWhile_sublist _).subset ((List.rdropWhile_prefix _ _).subset hmem)
  have hparts : Excluded argv a ↔ ∃ t ∈ (nets.map excludeToken).eraseDups, Denotes t a := by
    unfold Excluded
    rw [hreads]
    unfold nmapExcludeArgs
    rw [← hdef]
    dsimp only
    split
    · rename_i hnil
      simp [hnil]
    · rename_i hne
      have hsplit : split ',' (join ',' (nets.map excludeToken).eraseDups) = (nets.map excludeToken).eraseDups := by
        refine split_join hne fun t ht => ?_
        obtain ⟨n, hn, rfl⟩ := List.mem_map.1 (List.mem_eraseDups.1 ht)
        exact notMem_excludeToken (hplain n hn)
      simp [hsplit]
  rw [hparts]
  constructor
  · rintro ⟨t, ht, m, hm, hcontains⟩
    obtain ⟨n, hn, rfl⟩ := List.mem_map.1 (List.mem_eraseDups.1 ht)
    obtain rfl := Option.some.inj ((readNetwork_excludeToken n).symm.trans hm)
    obtain ⟨e, he, hparse⟩ := List.mem_filterMap.1 ((hnets n).1 hn)
    exact ⟨e, he, n, hparse, hcontains⟩
  · rintro ⟨e, he, n, hparse, hcontains⟩
    have hn : n ∈ nets := (hnets n).2 (List.mem_filterMap.2 ⟨e, he, hparse⟩)
    exact ⟨excludeToken n, List.mem_eraseDups.2 (List.mem_map_of_mem hn), n, readNetwork_excludeToken n, hcontains⟩

/-- **A scan never leaves its scope.** For a configuration as it was given to the form, and every command line of every run:
what is targeted and not excluded lies in a configured network and in no excluded one of the intensity; and the command
lines of a higher intensity exclude what those of a lower one do. -/
theorem scan_stays_in_scope (hcomma : ∀ e ∈ cfg.excludes ++ cfg.excludesPortScans ++ cfg.excludesDeep, ',' ∉ e) :
    (∀ worker enabled run opts useSyn, ∀ argv ∈ runNmapScan worker enabled written run opts useSyn, ∀ a,
        Targeted argv a → ¬ Excluded argv a →
          (∃ c ∈ cfg.cidrs, EntryDenotes c a) ∧ ∀ e ∈ cfg.excludesAt run.intensity, ¬ EntryDenotes e a) ∧
      ∀ worker enabled run opts useSyn, ∀ argv ∈ runNmapScan worker enabled written run opts useSyn,
        ∀ worker' enabled' run' opts' useSyn', ∀ argv' ∈ runNmapScan worker' enabled' written run' opts' useSyn',
          intensityRank run.intensity ≤ intensityRank run'.intensity → ∀ a, Excluded argv a → Excluded argv' a := by
  constructor
  · intro worker enabled run opts useSyn argv hargv a htarget hnot
    refine ⟨targeted_in_scope h hargv htarget, fun e he hdenotes => hnot ?_⟩
    exact (excluded_iff h hcomma hargv a).2 ⟨e, he, hdenotes⟩
  · intro worker enabled run opts useSyn argv hargv worker' enabled' run' opts' useSyn' argv' hargv' hle a hexcluded
    obtain ⟨e, he, hdenotes⟩ := (excluded_iff h hcomma hargv a).1 hexcluded
    exact (excluded_iff h hcomma hargv' a).2 ⟨e, excludesAt_mono cfg hle e he, hdenotes⟩

end Scope

/-- A LAN with a printer that no scan touches and a camera that deep scans leave out. -/
def homeLan : NmapConfig where
  cidrs := parseCidrsTextarea (lit "192.168.1.0/24\n")
  excludes := parseCidrsTextarea (lit "192.168.1.7, 192.168.1.9")
  excludesPortScans := parseCidrsTextarea []
  excludesDeep := parseCidrsTextarea (lit "192.168.1.64/30")

def homeWorker : Worker where
  outPath := lit "/tmp/scan.xml"
  lockFree := true
  root := false
  refused := false
  pack := ⟨false, none, none⟩

/-- `192.168.1.20`. -/
def homeDesk : Address := .v4 3232235796 (by decide)

/-- What a deep scan of it runs, for an address that is left. -/
theorem home_scan_in_scope :
    (∃ c ∈ homeLan.cidrs, EntryDenotes c homeDesk) ∧
      ∀ e ∈ homeLan.excludesAt (lit "deep"), ¬ EntryDenotes e homeDesk := by
  refine (@scan_stays_in_scope homeLan { homeLan with excludes := [lit "192.168.1.7/32", lit "192.168.1.9/32"] } (by decide +kernel)
    fun e he => ?_).1 homeWorker true ⟨lit "deep", []⟩ {} none
    [lit "nmap", lit "-v", lit "-oX", lit "/tmp/scan.xml", lit "-sT", lit "-sV", lit "-p-", lit "-T4", lit "--exclude",
      lit "192.168.1.7,192.168.1.9,192.168.1.64/30", lit "192.168.1.0/24"] (by decide +kernel) _ (by decide +kernel) (by decide +kernel)
  rcases List.mem_append.1 he with he | he
  · rcases List.mem_append.1 he with he | he <;> exact comma_parseCidrsTextarea _ e he
  · exact comma_parseCidrsTextarea _ e he

end PiHerder.Discovery
