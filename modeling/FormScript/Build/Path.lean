import FormScript.Text.ByteString

/-!
# Output paths

A program in `name.lisp` is compiled to `name.js`; a path without the source suffix gets the target
suffix appended. A path that is not valid text is never stripped.
-/

namespace FormScript.Build

/-- A path, as the system takes it. -/
abbrev Path := ByteString

/-- The suffix of programs. -/
def sourceSuffix : String := ".lisp"

/-- The suffix of compiled programs. -/
def targetSuffix : String := ".js"

/-- What is left of `cs` before `suffix`, if it ends so. -/
def beforeSuffix? (suffix cs : List Char) : Option (List Char) :=
  if suffix.isSuffixOf cs then some (cs.take (cs.length - suffix.length)) else none

/-- A path without the suffix of programs. -/
def stem (path : Path) : Path :=
  match path.text? with
  | some text => .ofText (String.ofList ((beforeSuffix? sourceSuffix.toList text.toList).getD text.toList))
  | none => path

/-- Where the program at a path is compiled to. -/
def outputPath (path : Path) : Path := stem path ++ .ofText targetSuffix

end FormScript.Build
