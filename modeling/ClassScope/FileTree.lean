import ClassScope.Path

/-! A tree of files and folders, as far as a run can see it. Everything in the tree has one place,
the list of names from the top of the tree down to it; a path is looked up from the working
folder. -/
namespace ClassScope

/-- What a file holds: a text or, if its bytes are not the encoding of one, bytes. -/
inductive Content where
  | text (t : Text)
  | binary (bytes : List UInt8)
  deriving DecidableEq, Repr

namespace Content

def ofBytes (bytes : List UInt8) : Content :=
  match String.fromUTF8? ⟨bytes.toArray⟩ with
  | some s => text s.toList
  | none => binary bytes

/-- The content with a text added at its end. What is no text does not become one. -/
def append : Content → Text → Content
  | text t, more => text (t ++ more)
  | binary bytes, more => binary (bytes ++ more.flatMap String.utf8EncodeChar)

end Content

abbrev Place := List Text

inductive Entry where
  | folder
  | file (content : Content)
  deriving DecidableEq, Repr

structure FileTree where
  here : Place
  /-- All there is below the top, each place once, in no particular order. -/
  entries : List (Place × Entry)
  deriving DecidableEq, Repr

namespace FileTree

def entryAt? (tree : FileTree) (place : Place) : Option Entry :=
  if place.isEmpty then some .folder else tree.entries.lookup place

def isFolderAt (tree : FileTree) (place : Place) : Bool := tree.entryAt? place == some .folder

def put (tree : FileTree) (place : Place) (entry : Entry) : FileTree :=
  { tree with entries :=
      if tree.entries.any (·.1 == place) then
        tree.entries.map fun e => if e.1 == place then (place, entry) else e
      else tree.entries ++ [(place, entry)] }

def origin (tree : FileTree) (path : Path) : Place := if path.isAbsolute then [] else tree.here

def enter? (tree : FileTree) (place : Place) (piece : Text) : Option Place :=
  if tree.isFolderAt place then
    if Path.isTrivial piece then some place
    else if piece = ['.', '.'] then some place.dropLast
    else if (tree.entryAt? (place ++ [piece])).isSome then some (place ++ [piece])
    else none
  else none

def locate? (tree : FileTree) (path : Path) : Option Place :=
  if path.isEmpty then none else path.pieces.foldlM tree.enter? (tree.origin path)

def find? (tree : FileTree) (path : Path) : Option Entry := (tree.locate? path).bind tree.entryAt?

def isFile (tree : FileTree) (path : Path) : Bool :=
  match tree.find? path with
  | some (.file _) => true
  | _ => false

/-- The place of a file that is to be written: its folder is there, and it is none itself. -/
def target? (tree : FileTree) (path : Path) : Option Place :=
  match path.pieces.reverse with
  | name :: before =>
    if Path.isTrivial name || name == ['.', '.'] then none
    else
      match before.reverse.foldlM tree.enter? (tree.origin path) with
      | some folder =>
        if tree.isFolderAt folder && !tree.isFolderAt (folder ++ [name]) then some (folder ++ [name])
        else none
      | none => none
  | [] => none

def write? (tree : FileTree) (path : Path) (t : Text) : Option FileTree :=
  (tree.target? path).map fun place => tree.put place (.file (.text t))

def append? (tree : FileTree) (path : Path) (t : Text) : Option FileTree :=
  (tree.target? path).map fun place =>
    match tree.entryAt? place with
    | some (.file content) => tree.put place (.file (content.append t))
    | _ => tree.put place (.file (.text t))

/-- Makes the folders that are missing on the way down from a place. A file in the way ends it:
then the flag is `false`, and the folders made so far remain. -/
def makeFoldersFrom (tree : FileTree) (place : Place) : List Text → FileTree × Bool
  | [] => (tree, true)
  | piece :: rest =>
    if Path.isTrivial piece then makeFoldersFrom tree place rest
    else if piece = ['.', '.'] then makeFoldersFrom tree place.dropLast rest
    else
      match tree.entryAt? (place ++ [piece]) with
      | some .folder => makeFoldersFrom tree (place ++ [piece]) rest
      | some (.file _) => (tree, false)
      | none => makeFoldersFrom (tree.put (place ++ [piece]) .folder) (place ++ [piece]) rest

def makeFolders (tree : FileTree) (path : Path) : FileTree × Bool :=
  tree.makeFoldersFrom (tree.origin path) path.pieces

/-- The files below a place, by their names from there down. -/
def filesBelow (tree : FileTree) (place : Place) : List Place :=
  tree.entries.filterMap fun e =>
    match e.2, place.isPrefixOf? e.1 with
    | .file _, some names => if names.isEmpty then none else some names
    | _, _ => none

end FileTree
end ClassScope
