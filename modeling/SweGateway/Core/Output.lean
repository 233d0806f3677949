import SweGateway.Core.File.Local
import SweGateway.Lib.OsPath
import SweGateway.Saf.Config

/-!
# Output sinks (`core/output.rs`, `saf/builders.rs`)

`sink` and `configuredSink` both dispatch on the sink section of the configuration.  `FileSink`
splits its path into a directory and a file name, and writes through a file gateway on the directory.

The section is `SinkSection`, as the process holds it: its path may be any path of the operating
system.  `SinkConfig.section` is the one that is read from a TOML text.  The file system, what text
is made of bytes that are not valid UTF-8 (`lossy`) and what printing does to the world (`print`)
are parameters.
-/

namespace SweGateway

open LexicalPath

/-- The sink section of a configuration. -/
structure SinkSection where
  /-- Where to write reports. -/
  sinkType : SinkType := .stdout
  /-- File path (required for files). -/
  path : Option PathBuf := none

/-- The section that is read from a text. -/
def SinkConfig.section (c : SinkConfig) : SinkSection :=
  { sinkType := c.sinkType, path := c.path.map fun path => PathBuf.ofText path.toList }

section

variable {W : Type} (fs : FileSystem W) (lossy : List UInt8 → List Char)
  (print : List Char → W → W)

/-- `StdoutSink::write`: writes output data to stdout. -/
def StdoutSink.write (data : List UInt8) : Eff W GatewayError Unit :=
  Eff.modify (print (lossy data))

/-- Writes output data to a file via the file gateway. -/
structure FileSink where
  path : PathBuf

def FileSink.write (s : FileSink) (data : List UInt8) : Eff W GatewayError Unit := do
  let parent := s.path.parent.getD PathBuf.here
  let filename := (s.path.fileName.bind OsName.toStr).getD "output".toList
  let gw : LocalFileGateway := ⟨parent.toStringLossy lossy⟩
  let _ ← gw.write fs (String.ofList filename) data { overwrite := true }
  return ()

/-- Config-driven sink that dispatches to stdout or file. -/
structure ConfiguredOutputSink where
  config : SinkSection

def ConfiguredOutputSink.write (s : ConfiguredOutputSink) (data : List UInt8) :
    Eff W GatewayError Unit :=
  match s.config.sinkType with
  | .stdout => StdoutSink.write lossy print data
  | .file =>
    match s.config.path with
    | none => Eff.fail (.new .invalidInput
        "sink_type is 'file' but no 'path' specified in gateway.toml")
    | some path => FileSink.write fs lossy ⟨path⟩ data

/-- `builders::sink(config)`, writing. -/
def sinkWrite (config : SinkSection) (data : List UInt8) : Eff W GatewayError Unit :=
  match config.sinkType with
  | .file => FileSink.write fs lossy ⟨config.path.getD PathBuf.empty⟩ data
  | .stdout => StdoutSink.write lossy print data

/-- `builders::configured_sink(config)`, writing. -/
def configuredSinkWrite (config : SinkSection) (data : List UInt8) : Eff W GatewayError Unit :=
  ConfiguredOutputSink.write fs lossy print ⟨config⟩ data

end

end SweGateway
