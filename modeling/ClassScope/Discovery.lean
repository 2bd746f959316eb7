import ClassScope.FileTree
import ClassScope.Text.Order

/-! Which files a run works on. A file that is named is taken as it is; below a folder all files
are taken that look like sources and are not ignored, in the order of their paths. -/
namespace ClassScope

structure SourceFile where
  path : Path
  /-- The path as seen from the root it was found under. -/
  relative : Path
  deriving DecidableEq, Repr

namespace Discovery

def extensions : List Text :=
  ["js", "jsx", "mjs", "cjs", "ts", "tsx", "mts", "cts"].map String.toList

def isSource (path : Path) : Bool := path.extension?.any extensions.contains

def sourceFile (root : Path) (names : Place) : SourceFile :=
  let relative := Text.join ['/'] names
  ⟨root.join relative, relative⟩

def below (tree : FileTree) (ignored : Path → Bool) (root : Path) (place : Place) :
    List SourceFile :=
  (((tree.filesBelow place).mergeSort Text.listLe).map (sourceFile root)).filter fun file =>
    isSource file.path && !ignored file.relative

structure Missing where
  path : Path
  deriving DecidableEq, Repr

def ofRoot (tree : FileTree) (ignored : Path → Bool) (root : Path) :
    Except Missing (List SourceFile) :=
  match tree.locate? root with
  | none => .error ⟨root⟩
  | some place =>
    if tree.isFolderAt place then .ok (below tree ignored root place)
    else .ok [⟨root, root.fileName?.getD root⟩]

def ofRoots (tree : FileTree) (ignored : Path → Bool) (roots : List Path) :
    Except Missing (List SourceFile) :=
  (roots.mapM (ofRoot tree ignored)).map List.flatten

end Discovery
end ClassScope
