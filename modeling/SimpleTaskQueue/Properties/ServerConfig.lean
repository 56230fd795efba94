import SimpleTaskQueue.Model.Controller.GRPCServer.Config
import SimpleTaskQueue.Properties.Address
/-!
# SimpleTaskQueue.Properties.ServerConfig

**Is an accepted configuration valid?** A config file overwrites what the command line gave, and is
checked a second time by code of its own, which leaves out the port.
-/

namespace SimpleTaskQueue

namespace Config

variable {env : ConfigEnv} {cmd : CommandLine} {disk disk' : Disk} {obj conf : Config} {path : Str}

/-- What is promised of an accepted configuration. -/
structure Valid (conf : Config) (disk : Disk) : Prop where
  ip : verifyIP conf.listenIP = 0
  port : conf.listenPort ≤ 65535
  logPath : conf.logPath = [] ∨ disk conf.logPath = some .directory

/-- What `getcwd` returns is a directory, and so is what `create_directory` created. -/
structure Documented (env : ConfigEnv) (disk : Disk) : Prop where
  getcwd : ∀ buf, env.getcwd = some buf → disk buf = some .directory
  createDirectory : ∀ disk path disk', env.createDirectory disk path = some disk' →
    disk' path = some .directory

/-- The port in the config file, if one is given and read, is at most 65535. -/
def PortFits (env : ConfigEnv) (cmd : CommandLine) : Prop :=
  ∀ options file n, cmd.argc ≠ 1 → cmd.options = some options → options.configFile.getD [] ≠ [] →
    env.loadFile (options.configFile.getD []) = some file → file.port = some n → n ≤ 65535

/-- The defaults pass the checks. -/
theorem new_valid : verifyIP new.listenIP = 0 ∧ new.listenPort ≤ 65535 := by
  have hoctets : IsOctet "127".toList ∧ IsOctet "0".toList ∧ IsOctet "1".toList := by
    decide +kernel
  obtain ⟨ha, hb, hd⟩ := hoctets
  exact ⟨verifyIP_eq_zero_iff.mpr ⟨_, _, _, _, ha, hb, hb, hd, rfl⟩, by decide⟩

theorem verifyDir_eq_zero (henv : Documented env disk)
    {d : Disk} (h : DirUtils.verifyDir env.createDirectory d path = (0, disk')) :
    disk' path = some .directory := by
  unfold DirUtils.verifyDir at h
  split at h
  · cases h
  split at h
  · split at h
    · cases h
    · next hcreate =>
      cases h
      exact henv.createDirectory _ _ _ hcreate
  · next hdir =>
    cases h
    exact hdir
  · cases h
  · cases h

theorem asU16_le {n : Nat} {port : UInt64} (h : asU16 n = some port) :
    port ≤ 65535 ↔ n ≤ 65535 := by
  unfold asU16 at h
  split at h
  · next hlt =>
    cases h
    rw [UInt64.le_iff_toNat_le, UInt64.toNat_ofNat_of_lt' hlt]
    rfl
  · cases h

/-- What a config file that is accepted gives. -/
theorem parseFile_eq_zero (henv : Documented env disk) {d : Disk}
    (h : parseFile env obj path d = (0, conf, disk')) :
    verifyIP conf.listenIP = 0 ∧ disk' conf.logPath = some .directory ∧
      ∃ file n, env.loadFile path = some file ∧ file.port = some n ∧
        (conf.listenPort ≤ 65535 ↔ n ≤ 65535) := by
  unfold parseFile at h
  split at h
  · cases h
  next file hfile =>
  split at h
  · cases h
  dsimp only at h
  split at h
  · cases h
  next logPath hlog =>
  rcases hdir : DirUtils.verifyDir env.createDirectory d (DirUtils.convertPath logPath) with
    ⟨rc, d'⟩
  simp only [hdir] at h
  split at h
  · cases h
  next hrc =>
  obtain rfl : rc = 0 := not_not.mp hrc
  split at h
  · cases h
  next port hport =>
  obtain ⟨n, hn, hnport⟩ := Option.bind_eq_some_iff.mp hport
  split at h
  · cases h
  next ip _ =>
  split at h
  · cases h
  next hip =>
  split at h
  · cases h
  cases h
  exact ⟨not_not.mp hip, verifyDir_eq_zero henv hdir, file, n, hfile, hn, asU16_le hnport⟩

theorem verifyLogPath_eq_zero (henv : Documented env disk) {d : Disk}
    (h : verifyLogPath env d path = (0, disk')) : path = [] ∨ disk' path = some .directory := by
  unfold verifyLogPath at h
  split at h
  · next hnil => exact .inl (List.isEmpty_iff.mp hnil)
  · exact .inr (verifyDir_eq_zero henv h)

/-- What the options gave and was not refused is valid. -/
theorem verifyOptions_eq_zero (henv : Documented env disk) {d : Disk}
    (h : verifyOptions env obj d = (0, conf, disk')) : Valid conf disk' := by
  rcases hlog : verifyLogPath env d (DirUtils.convertPath obj.logPath) with ⟨rc, d'⟩
  simp only [verifyOptions, hlog] at h
  split at h
  · cases h
  next hrc =>
  obtain rfl : rc = 0 := not_not.mp hrc
  split at h
  · cases h
  next hport =>
  split at h
  · cases h
  next hip =>
  cases h
  exact ⟨not_not.mp hip, UInt64.not_lt.mp hport, verifyLogPath_eq_zero henv hlog⟩

theorem parseOptions_eq_zero (henv : Documented env disk) {buf : Str} {options : CliOptions}
    {d : Disk} (h : parseOptions env buf options d = (0, conf, disk')) :
    (options.configFile.getD [] = [] ∧ Valid conf disk') ∨
      options.configFile.getD [] ≠ [] ∧ ∃ obj d,
        parseFile env obj (options.configFile.getD []) d = (0, conf, disk') := by
  unfold parseOptions at h
  dsimp only at h
  split at h
  · cases h
  split at h
  · cases h
  split at h
  · cases h
  rcases hverify : verifyOptions env (ofOptions buf options) d with ⟨rc, obj, d'⟩
  simp only [hverify] at h
  split at h
  · cases h
  next hrc =>
  obtain rfl : rc = 0 := not_not.mp hrc
  split at h
  · next hnil =>
    cases h
    exact .inl ⟨List.isEmpty_iff.mp hnil, verifyOptions_eq_zero henv hverify⟩
  · next hfile =>
    rcases hparse : parseFile env obj (options.configFile.getD []) d' with ⟨rc, obj', d''⟩
    simp only [hparse] at h
    split at h
    · cases h
    next hrc' =>
    obtain rfl : rc = 0 := not_not.mp hrc'
    cases h
    exact .inr ⟨fun hnil => hfile (List.isEmpty_iff.mpr hnil), obj, d', hparse⟩

/-- **An accepted configuration is valid** if and only if the port in the config file, if one was
given, is at most 65535. -/
theorem valid_iff (henv : Documented env disk)
    (h : parse env (some new) cmd disk = (0, conf, disk')) :
    Valid conf disk' ↔ PortFits env cmd := by
  unfold parse at h
  dsimp only at h
  split at h
  · cases h
  split at h
  · cases h
  next buf hbuf =>
  split at h
  · next hargc =>
    cases h
    obtain ⟨hip, hport⟩ := new_valid
    exact iff_of_true ⟨hip, hport, .inr (henv.getcwd buf hbuf)⟩
      fun _ _ _ hne => absurd hargc hne
  next hargc =>
  split at h
  · cases h
  next options hoptions =>
  rcases parseOptions_eq_zero henv h with ⟨hnil, hvalid⟩ | ⟨hfile, obj, d, hparse⟩
  · refine iff_of_true hvalid fun options' _ _ _ hoptions' hne => ?_
    obtain rfl := Option.some.inj (hoptions.symm.trans hoptions')
    exact absurd hnil hne
  · obtain ⟨hip, hlog, file, n, hload, hn, hport⟩ := parseFile_eq_zero henv hparse
    constructor
    · intro hvalid options' file' n' _ hoptions' _ hload' hn'
      obtain rfl := Option.some.inj (hoptions.symm.trans hoptions')
      obtain rfl := Option.some.inj (hload.symm.trans hload')
      obtain rfl := Option.some.inj (hn.symm.trans hn')
      exact hport.mp hvalid.port
    · intro hfits
      exact ⟨hip, hport.mpr (hfits options file n hargc hoptions hfile hload hn), .inr hlog⟩

/-- The root directory, and the config file. -/
def smallDisk : Disk := fun path =>
  if path = "/".toList then some .directory
  else if path = "/stq.yml".toList then some .file
  else none

/-- A config file with a port. -/
def portFile (port : Nat) : YamlFile :=
  ⟨some "/db".toList, some "/log".toList, some port, some "127.0.0.1".toList, some 2⟩

/-- Every call of the system works. -/
def fileEnv (port : Nat) : ConfigEnv where
  getcwd := some "/".toList
  createDirectory disk path := some (Function.update disk path (some .directory))
  loadFile path := if path = "/stq.yml".toList then some (portFile port) else none

/-- The config file is the only option. -/
def withFile : CommandLine :=
  ⟨3, true, some ⟨some "/stq.yml".toList, none, none, none, none, none, false, false⟩⟩

theorem documented_fileEnv (port : Nat) : Documented (fileEnv port) smallDisk := by
  constructor
  · rintro buf ⟨⟩
    decide
  · rintro disk path disk' ⟨⟩
    exact Function.update_self ..

theorem parse_withFile (port : Nat)
    (h : (parse (fileEnv port) (some new) withFile smallDisk).1 = 0) :
    ∃ conf disk', parse (fileEnv port) (some new) withFile smallDisk = (0, conf, disk') :=
  ⟨_, _, by rw [← h]⟩

theorem valid_iff_withFile :
    ∃ conf disk', parse (fileEnv 8080) (some new) withFile smallDisk = (0, conf, disk') ∧
      (Valid conf disk' ↔ PortFits (fileEnv 8080) withFile) := by
  obtain ⟨conf, disk', h⟩ := parse_withFile 8080 (by decide +kernel)
  exact ⟨conf, disk', h, valid_iff (documented_fileEnv 8080) h⟩

/-- **The port 70000 in a config file** is accepted. -/
theorem large_port_accepted :
    (parse (fileEnv 70000) (some new) withFile smallDisk).1 = 0 ∧
      (parse (fileEnv 70000) (some new) withFile smallDisk).2.1.listenPort = 70000 ∧
      ¬ Valid (parse (fileEnv 70000) (some new) withFile smallDisk).2.1
        (parse (fileEnv 70000) (some new) withFile smallDisk).2.2 := by
  have hport : (parse (fileEnv 70000) (some new) withFile smallDisk).2.1.listenPort = 70000 := by
    decide +kernel
  refine ⟨by decide +kernel, hport, fun hvalid => ?_⟩
  have hle := hvalid.port
  rw [hport] at hle
  exact absurd hle (by decide)

end Config

end SimpleTaskQueue
