import SimpleTaskQueue.Model.Dao.DirUtils
import SimpleTaskQueue.Model.Utils
/-!
# SimpleTaskQueue.Model.Controller.GRPCServer.Config

`Config::parse` (`controller/grpcserver/config.cpp`). What `cxxopts` makes of the command line and
`yaml-cpp` of the config file are arguments; their defaults and the conversion of the numbers are
here. `u16` is `uint_fast16_t`, 64 bits wide on x86-64 Linux.
-/

namespace SimpleTaskQueue

/-- The members of the class; `u16` is the type of the port. -/
structure Config where
  dbPath : Str
  logPath : Str
  listenPort : UInt64
  listenIP : Str
  logLevel : Int
  deriving Repr, DecidableEq

/-- `Config::Config`; the log level is `info`. -/
def Config.new : Config := ⟨[], [], 12345, "127.0.0.1".toList, 2⟩

/-- The options given on the command line, each with its value. -/
structure CliOptions where
  configFile : Option Str
  dbPath : Option Str
  logPath : Option Str
  logLevel : Option Int
  address : Option Str
  port : Option UInt64
  version : Bool
  help : Bool
  deriving Repr, DecidableEq

/-- The arguments of `main`. -/
structure CommandLine where
  argc : Nat
  /-- `argv` is not null. -/
  argv : Bool
  /-- What `cxxopts` reads; `none` is an exception. -/
  options : Option CliOptions
  deriving Repr, DecidableEq

/-- The nodes of a config file; `none` where a node is missing or is not of its type. -/
structure YamlFile where
  dbPath : Option Str
  logPath : Option Str
  /-- The number that is written in the file. -/
  port : Option Nat
  ip : Option Str
  logLevel : Option UInt8
  deriving Repr, DecidableEq

/-- The answers of the system during `Config::parse`. -/
structure ConfigEnv where
  /-- The working directory, `none` if `getcwd` fails. -/
  getcwd : Option Str
  createDirectory : Disk → Str → Option Disk
  /-- `YAML::LoadFile`; `none` is an exception. -/
  loadFile : Str → Option YamlFile

namespace Config

/-- `as<u16>` of the number `n`; `none` is an exception. -/
def asU16 (n : Nat) : Option UInt64 := if n < 2 ^ 64 then some (UInt64.ofNat n) else none

/-- `Config::parse` of a config file: 0 or 1, the object and the disk then. -/
def parseFile (env : ConfigEnv) (obj : Config) (path : Str) (disk : Disk) : Nat × Config × Disk :=
  match env.loadFile path with
  | none => (1, obj, disk)
  | some config =>
    match config.dbPath with
    | none => (1, obj, disk)
    | some dbPath =>
      let obj := { obj with dbPath := dbPath }
      match config.logPath with
      | none => (1, obj, disk)
      | some logPath =>
        let obj := { obj with logPath := DirUtils.convertPath logPath }
        let (rc, disk) := DirUtils.verifyDir env.createDirectory disk obj.logPath
        if rc ≠ 0 then (1, obj, disk)
        else
          match config.port.bind asU16 with
          | none => (1, obj, disk)
          | some port =>
            let obj := { obj with listenPort := port }
            match config.ip with
            | none => (1, obj, disk)
            | some ip =>
              let obj := { obj with listenIP := ip }
              if verifyIP obj.listenIP ≠ 0 then (1, obj, disk)
              else
                match config.logLevel with
                | none => (1, obj, disk)
                | some level => (0, { obj with logLevel := level.toNat }, disk)

/-- The object behind `options.parse`: every option has its value or its default. -/
def ofOptions (cwd : Str) (options : CliOptions) : Config where
  dbPath := options.dbPath.getD cwd
  logPath := options.logPath.getD []
  listenPort := options.port.getD 12345
  listenIP := options.address.getD "127.0.0.1".toList
  logLevel := options.logLevel.getD 2

/-- The log path may be left empty among the options. -/
def verifyLogPath (env : ConfigEnv) (disk : Disk) (logPath : Str) : Nat × Disk :=
  if logPath.isEmpty then (0, disk) else DirUtils.verifyDir env.createDirectory disk logPath

/-- The checks in `Config::parse` of what the options gave. -/
def verifyOptions (env : ConfigEnv) (obj : Config) (disk : Disk) : Nat × Config × Disk :=
  let obj := { obj with logPath := DirUtils.convertPath obj.logPath }
  let (rc, disk) := verifyLogPath env disk obj.logPath
  if rc ≠ 0 then (1, obj, disk)
  else if obj.listenPort > 65535 then (1, obj, disk)
  else if verifyIP obj.listenIP ≠ 0 then (1, obj, disk)
  else (0, obj, disk)

/-- `Config::parse` behind `options.parse`. -/
def parseOptions (env : ConfigEnv) (buf : Str) (options : CliOptions) (disk : Disk) :
    Nat × Config × Disk :=
  let configFile := options.configFile.getD []
  let obj := ofOptions buf options
  if options.help then (2, obj, disk)
  else if options.version then (2, obj, disk)
  else if !configFile.isEmpty && DirUtils.verifyFile disk configFile ≠ 0 then (1, obj, disk)
  else
    let (rc, obj, disk) := verifyOptions env obj disk
    if rc ≠ 0 then (1, obj, disk)
    else if configFile.isEmpty then (0, obj, disk)
    else
      let (rc, obj, disk) := parseFile env obj configFile disk
      if rc ≠ 0 then (1, obj, disk) else (0, obj, disk)

/-- `Config::parse` of the command line: 0, 1, or 2 where it only prints. The object that an
exception of `cxxopts` leaves behind is not modelled; nobody uses it. -/
def parse (env : ConfigEnv) (in_ : Option Config) (cmd : CommandLine) (disk : Disk) :
    Nat × Config × Disk :=
  match in_ with
  | none => (1, new, disk)
  | some obj =>
    if !cmd.argv then (1, obj, disk)
    else
      match env.getcwd with
      | none => (1, obj, disk)
      | some buf =>
        if cmd.argc = 1 then (0, { obj with dbPath := buf, logPath := buf }, disk)
        else
          match cmd.options with
          | none => (1, obj, disk)
          | some options => parseOptions env buf options disk

end Config

end SimpleTaskQueue
