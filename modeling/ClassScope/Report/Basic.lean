import ClassScope.Event
import ClassScope.Path

/-! What a run says about the files it worked on. -/
namespace ClassScope

inductive FileStatus where
  | changed
  | unchanged
  | failed
  deriving DecidableEq, Repr

/-- A value that was left alone, by the name of its shape. -/
structure Remark where
  label : Text
  line : Nat
  deriving DecidableEq, Repr

structure FileReport where
  path : Path
  status : FileStatus
  events : List Event
  skipped : List Remark
  error : Option Text
  deriving DecidableEq, Repr

namespace FileReport

def failed (path : Path) (error : Text) : FileReport := ⟨path, .failed, [], [], some error⟩

end FileReport

structure Summary where
  files : Nat
  changed : Nat
  events : Nat
  skipped : Nat
  failed : Nat
  deriving DecidableEq, Repr

namespace Summary

def ofReports (rs : List FileReport) : Summary where
  files := rs.length
  changed := rs.countP (·.status == .changed)
  events := (rs.flatMap (·.events)).length
  skipped := (rs.flatMap (·.skipped)).length
  failed := rs.countP (·.status == .failed)

def counted (n : Nat) (noun : String) : String :=
  if n = 1 then s!"{n} {noun}" else s!"{n} {noun}s"

def line (s : Summary) : Text :=
  let literals := counted s.events "literal"
  let files := counted s.files "file"
  (s!"classname-prefixer rewrote {literals} in {s.changed} of {files} " ++
    s!"({s.skipped} skipped, {s.failed} failed)").toList

end Summary
end ClassScope
