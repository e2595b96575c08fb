import HourlyPrices.Config.File

/-!
# A directory of files

The program runs in a directory. Here it is known by the files in it and below it, each with its
path and its text; what lies outside of it is not known, and counts as missing.
-/

namespace HourlyPrices

/-- The files of a directory, by their paths. -/
structure Directory where
  files : List (String × String)

namespace Directory

/-- The parts of a path that stays inside of the directory. -/
def inside? (path : String) : Option (List String) :=
  if path.startsWith "/" then none
  else (path.splitOn "/").foldlM (fun parts part =>
    if part == "" || part == "." then some parts
    else if part == ".." then (if parts.isEmpty then none else some parts.dropLast)
    else some (parts ++ [part])) []

/-- The paths that lead to a path with these parts, the path itself among them. -/
def leading (parts : List String) : List String :=
  (List.range parts.length).map fun i => "/".intercalate (parts.take (i + 1))

/-- Whether a path names a file. -/
def isFile (d : Directory) (path : String) : Bool := (d.files.lookup path).isSome

/-- Reads a file. -/
def read (d : Directory) (path : String) : Except FileFault String :=
  if path.isEmpty then .error .missing
  else if path.toList.all (· == '/') then .error .isDirectory
  else match inside? path with
    | none => .error .missing
    | some [] => .error .isDirectory
    | some parts =>
      let name := "/".intercalate parts
      if (leading parts.dropLast).any d.isFile then .error .notDirectory
      else match d.files.lookup name with
        | some text =>
          if path.endsWith "/" || path.endsWith "/." then .error .notDirectory else .ok text
        | none =>
          if d.files.any fun (p, _) => p.startsWith (name ++ "/") then .error .isDirectory
          else .error .missing

/-- Whether files can be made below a path. -/
def canHold (d : Directory) (path : String) : Bool :=
  match inside? path with
  | none => true
  | some parts => !(leading parts).any d.isFile

end Directory

end HourlyPrices
