import ClassScope.Event
import ClassScope.FileTree

/-! The debug log: a file to which a record of every event is added. A record that cannot be
written is lost, and nothing else happens. -/
namespace ClassScope.Journal

def record (e : Event) : Text := e.message ++ ['\n', '\n']

def add (path : Path) (tree : FileTree) (e : Event) : FileTree :=
  (tree.append? path (record e)).getD tree

def addAll (path : Path) (tree : FileTree) (events : List Event) : FileTree :=
  events.foldl (add path) tree

end ClassScope.Journal
