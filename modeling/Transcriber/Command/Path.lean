import Transcriber.Text.Split

/-!
# Paths

Paths are names between slashes.  A path is taken as text: nothing is looked up.

* `Path.join`, `Path.baseName`, `Path.withoutExtension`, `Path.absolute` — operations on paths.
-/

namespace Transcriber.Path

def join (directory path : String) : String :=
  if path.startsWith "/" then path
  else if directory.isEmpty || directory.endsWith "/" then directory ++ path
  else directory ++ "/" ++ path

def baseName (path : String) : String := ((Text.split '/' path).getLast?).getD ""

/-- The path without its extension: what begins with the last point of the last name, unless only
points stand before it. -/
def withoutExtension (path : String) : String :=
  let base := (baseName path).toList
  let extension := base.reverse.takeWhile (· != '.')
  let stem := base.take (base.length - extension.length - 1)
  if base.contains '.' && stem.any (· != '.') then
    String.ofList (path.toList.take (path.length - extension.length - 1))
  else path

/-- The names of a path from the root on, the latest first: a point is left out, and two points take
back the name before them. -/
def namesOf (path : String) : List String :=
  (Text.split '/' path).foldl (fun names name =>
    if name.isEmpty || name == "." then names
    else if name == ".." then names.drop 1
    else name :: names) []

/-- A path from the root on.  Two slashes at the start are kept, more count as one. -/
def absolute (workingDirectory path : String) : String :=
  let full := join workingDirectory path
  let root := if full.startsWith "//" && !full.startsWith "///" then "//" else "/"
  root ++ "/".intercalate (namesOf full).reverse

/-- The file with the settings for an input file in a directory of settings. -/
def settingsFile (workingDirectory input directory : String) : String :=
  absolute workingDirectory (join directory (baseName (withoutExtension input))) ++ ".py"

end Transcriber.Path
