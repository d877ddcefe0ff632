import ConfigGraph.Error
import ConfigGraph.Store.Write
import ConfigGraph.Format.Json.Document
import ConfigGraph.Format.Toml.Document
import ConfigGraph.Text.Quoted
import ConfigGraph.Text.Utf8

/-!
# Formats

Decoders by file extension. Extensions are compared without dots in front and in lower case.
-/

namespace ConfigGraph

/-- A decoder: what it makes of some bytes. -/
abbrev Decoder := List UInt8 → Except DecodeError Value

namespace Decoder

/-- TOML documents in UTF-8. -/
def toml : Decoder := fun bytes =>
  match Text.ofUtf8? bytes with
  | none => .error .utf8
  | some s => (Toml.decode? s).elim (.error .toml) fun t => .ok (.ofToml t)

/-- JSON texts in UTF-8. -/
def json : Decoder := fun bytes =>
  (Text.ofUtf8? bytes >>= Json.decode?).elim (.error .json) fun j => .ok (.ofJson j)

end Decoder

/-- Decoders by normalized extension, in the order of the extensions. -/
structure Registry where
  decoders : Entries Decoder

namespace Registry

/-- An extension without dots in front, in lower case. -/
def normalize (ext : Text) : Text :=
  Text.asciiLower (ext.dropWhile (· == '.'))

/-- The registry without decoders. -/
def empty : Registry := ⟨[]⟩

/-- The registry with a decoder for an extension, in the stead of an earlier one. -/
def register (r : Registry) (ext : Text) (decoder : Decoder) : Registry :=
  ⟨Entries.put (normalize ext) decoder r.decoders⟩

/-- The registry of the TOML and JSON decoders. -/
def standard : Registry :=
  (empty.register "toml".toList .toml).register "json".toList .json

/-- Whether there is a decoder for an extension. -/
def supports (r : Registry) (ext : Text) : Bool :=
  (Entries.find? r.decoders (normalize ext)).isSome

/-- Decodes bytes with the decoder of an extension. -/
def decode (r : Registry) (ext : Text) (bytes : List UInt8) : Except ConfigError Value :=
  let ext := normalize ext
  match Entries.find? r.decoders ext with
  | none => .error (.unsupportedFormat ext)
  | some decoder => (decoder bytes).mapError (.decode ext)

/-- The extensions, quoted. -/
def describe (r : Registry) : String :=
  let extensions := ", ".intercalate (r.decoders.map fun (ext, _) => (Text.quoted ext).str)
  "FormatRegistry \x7b extensions: [" ++ extensions ++ "] \x7d"

end Registry

namespace Store

/-- Decodes bytes and stores the tree at the root. -/
def read (s : Store) (formats : Registry) (ext : Text) (bytes : List UInt8) :
    Except ConfigError Store := do
  return s.set ['$'] (← formats.decode ext bytes)

end Store

end ConfigGraph
