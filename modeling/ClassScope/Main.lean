import ClassScope.Program

/-! The command line: the part of the disk that the arguments name is read into a file tree, the
program runs on it, and what it changed is written back. -/
namespace ClassScope.Disk

def fileName (place : Place) : String :=
  String.ofList ('/' :: Text.join ['/'] place)

def names (path : String) : Place := (Path.pieces path.toList).filter (!Path.isTrivial ·)

def entry (place : Place) : IO.FS.DirEntry :=
  ⟨fileName place.dropLast, String.ofList (place.getLast?.getD [])⟩

def namesIn (place : Place) : IO (List Text) := do
  try
    return (← (entry place).path.readDir).toList.map (·.fileName.toList)
  catch _ => return []

partial def load (place : Place) : IO (List (Place × Entry)) := do
  if ← (entry place).path.isDir then
    let below ← (← namesIn place).mapM fun name => load (place ++ [name])
    return (place, .folder) :: below.flatten
  else if ← (entry place).path.pathExists then
    let bytes ← IO.FS.readBinFile (fileName place)
    return [(place, .file (.ofBytes bytes.data.toList))]
  else return []

def above (place : Place) : List (Place × Entry) :=
  (List.range place.length).filterMap fun n =>
    if n = 0 then none else some (place.take n, .folder)

def placeOf (here : Place) (path : Path) : Place :=
  path.components.foldl (fun place c =>
    match c with
    | .root => []
    | .here => place
    | .up => place.dropLast
    | .name n => place ++ [n]) here

/-- The tree that the arguments can see: the given paths with all that is below and above. -/
def treeFor (here : Place) (paths : List Path) : IO FileTree := do
  let loaded ← paths.mapM fun path => do
    let place := placeOf here path
    return above place ++ (← load place)
  let start : FileTree := ⟨here, above here ++ [(here, .folder)]⟩
  return loaded.flatten.foldl (fun tree (place, entry) =>
    if place.isEmpty then tree else tree.put place entry) start

def save (old new : FileTree) : IO Unit :=
  for (place, entry) in new.entries do
    if old.entryAt? place ≠ some entry then
      match entry with
      | .folder => IO.FS.createDirAll (fileName place)
      | .file (.text t) => IO.FS.writeFile (fileName place) (String.ofList t)
      | .file (.binary bytes) => IO.FS.writeBinFile (fileName place) ⟨bytes.toArray⟩

end ClassScope.Disk

def main (args : List String) : IO UInt32 := do
  let args := args.map String.toList
  let here := ClassScope.Disk.names (← IO.currentDir).toString
  let paths := match ClassScope.Invocation.ofArguments args with
    | .ok i => i.paths ++ i.debugLog :: i.outFolder.toList
    | .error _ => []
  let tree ← ClassScope.Disk.treeFor here paths
  let ending := ClassScope.Program.run args tree
  ClassScope.Disk.save tree ending.tree
  IO.print (String.ofList ending.stdout)
  IO.eprint (String.ofList ending.stderr)
  return ending.exitCode.toUInt32
