import RequestRouting.Config.Decode
import RequestRouting.Text.Utf8
import RequestRouting.Toml.Parser

/-!
Configuration files.

A file that is not there or is blank stands for the configuration that is all defaults.
-/

namespace RequestRouting.Config

/-- What is found in the place of a file. -/
inductive FileState where
  | missing
  /-- Something that cannot be read, such as a directory. -/
  | unreadable
  | bytes (content : List UInt8)
deriving DecidableEq, Repr

/-- Why a file gives no configuration. -/
inductive LoadError where
  | unreadable
  | notToml
  | data (cause : DataError)
deriving Repr

/-- The wording of an error, with the path of the file. -/
def LoadError.message (path : String) : LoadError → String
  | unreadable => "Failed to read config file: " ++ Text.quote path
  | notToml | data _ => "Failed to parse config file: " ++ Text.quote path

/-- The file that is read unless another is named. -/
def defaultPath : String := "dispatch.toml"

/-- The configuration that a document describes. -/
def ofToml (text : String) : Except LoadError Config :=
  match Toml.parse? text with
  | some (.table entries) =>
    match ofEntries entries with
    | .ok c => .ok c
    | .error cause => .error (.data cause)
  | _ => .error .notToml

/-- The configuration in a file. -/
def ofFile : FileState → Except LoadError Config
  | .missing => .ok {}
  | .unreadable => .error .unreadable
  | .bytes content =>
    match Text.ofUtf8? content with
    | none => .error .unreadable
    | some cs => if cs.all Unicode.isBlank then .ok {} else ofToml (String.ofList cs)

end RequestRouting.Config
