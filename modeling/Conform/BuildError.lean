/-!
# What can go wrong before an object is looked at

Rules, locales and settings that cannot be built.
-/

namespace Conform

inductive BuildError where
  /-- A member is bound to the empty path. -/
  | emptyPath
  /-- A text that should hold settings, a locale or phrases does not. -/
  | malformed
  | unknownCategory (name : String)
  /-- A setting taken from the environment has a text that means nothing. -/
  | invalidVariable (name value : String)
deriving DecidableEq, Repr

namespace BuildError

def message : BuildError → String
  | emptyPath => "member path must not be empty"
  | malformed => "invalid configuration"
  | unknownCategory name => "unknown grammar category '" ++ name ++ "'"
  | invalidVariable name value => "invalid value '" ++ value ++ "' for " ++ name

end BuildError

end Conform
