import ConfigGraph.Value.Serial

/-!
# Configuration errors

The causes for which configuration cannot be loaded, resolved or bound, and their wording.
-/

namespace ConfigGraph

/-- The text as a string. -/
def Text.str (s : Text) : String :=
  String.ofList s

/-- Why bytes could not be decoded. -/
inductive DecodeError where
  /-- No TOML document. -/
  | toml
  /-- No JSON text. -/
  | json
  /-- No UTF-8. -/
  | utf8
  /-- What another decoder reports. -/
  | other (text : Text)

def DecodeError.message : DecodeError → String
  | toml => "malformed TOML"
  | json => "malformed JSON"
  | utf8 => "invalid UTF-8"
  | other text => text.str

/-- Why configuration could not be loaded, resolved or bound. -/
inductive ConfigError where
  | fileNotFound (path : Text)
  | unreadable (path : Text)
  | unsupportedFormat (ext : Text)
  | decode (ext : Text) (cause : DecodeError)
  | serialize (cause : SerialError)
  | referenceNotFound (key : Text)
  /-- The keys being expanded, from the outermost on, and the one that was met again. -/
  | referenceCycle (chain : List Text)
  | unclosedReference
  | invalidTag (tag : Text)
  | propertyNotFound (key path : Text)
  | compositeDefault (key path : Text)
  | coerce (key value : Text) (target : String)

namespace ConfigError

def message : ConfigError → String
  | fileNotFound path => "required config file not found: " ++ path.str
  | unreadable path => "failed to read config file '" ++ path.str ++ "'"
  | unsupportedFormat ext => "unsupported file type '" ++ ext.str ++ "'"
  | decode ext cause => "failed to decode '" ++ ext.str ++ "' content: " ++ cause.message
  | serialize cause => "failed to convert value into properties: " ++ cause.message
  | referenceNotFound key => "referenced property not found: " ++ key.str
  | referenceCycle chain =>
    "reference cycle detected: " ++ " -> ".intercalate (chain.map Text.str)
  | unclosedReference => "unclosed reference (missing '\x7d')"
  | invalidTag tag =>
    "invalid tag '" ++ tag.str ++ "', expected '$\x7bname\x7d' or '$\x7bname:=default\x7d'"
  | propertyNotFound key path =>
    "property not found: " ++ key.str ++ " (bound to " ++ path.str ++ ")"
  | compositeDefault key path =>
    path.str ++ " is a composite and cannot take a non-empty default (key " ++ key.str ++ ")"
  | coerce key value target =>
    "cannot convert '" ++ value.str ++ "' at " ++ key.str ++ " to " ++ target

end ConfigError

end ConfigGraph
