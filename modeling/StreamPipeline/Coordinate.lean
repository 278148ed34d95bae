/-!
# Artifacts

A coordinate says where the program of an app is found. Its locator usually ends with its version;
`pin` replaces that end, and nothing else, when another version is wanted.
-/

namespace StreamPipeline

/-- Where an artifact is found. -/
structure Coordinate where
  name : String
  kind : String
  version : String
  locator : String
  deriving DecidableEq, Repr

/-- A text without an end that it has. -/
def dropEnd? (s suffix : String) : Option String :=
  let cs := s.toList
  let e := suffix.toList
  if e.isSuffixOf cs then some (String.ofList (cs.take (cs.length - e.length))) else none

/-- A locator for `new` in place of `old`, if it ends with a colon and `old`. -/
def pinLocator (locator old new : String) : String :=
  match dropEnd? locator (":" ++ old) with
  | some base => base ++ ":" ++ new
  | none => locator

/-- The coordinate with another version. -/
def Coordinate.pin (c : Coordinate) (version : String) : Coordinate :=
  { c with version, locator := pinLocator c.locator c.version version }

end StreamPipeline
