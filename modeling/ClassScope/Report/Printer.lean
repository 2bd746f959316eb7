import ClassScope.Invocation.Basic
import ClassScope.Json.Layout
import ClassScope.Report.Basic

/-! Reports as they are printed, for people and for programs. -/
namespace ClassScope

namespace FileReport

def note (line : Nat) (t : Text) : Text :=
  "  ".toList ++ (toString line).toList ++ ": ".toList ++ t ++ ['\n']

/-- A report for people; a file that did not change is not mentioned. -/
def human (r : FileReport) : Text :=
  match r.status with
  | .unchanged => []
  | .failed =>
    r.path ++ "\nError: ".toList ++ r.error.getD "unknown error".toList ++ "\n\n".toList
  | .changed =>
    r.path ++ '\n' :: r.events.flatMap (fun e => note e.line e.message) ++
      r.skipped.flatMap (fun k => note k.line ("skipped ".toList ++ k.label)) ++ ['\n']

def statusName : FileStatus → String
  | .changed => "rewritten"
  | .unchanged => "unchanged"
  | .failed => "failed"

def eventLines (e : Event) : Json.Lines :=
  Json.object [Json.member "original" (Json.ofText e.before),
    Json.member "updated" (Json.ofText e.after), Json.member "line" (Json.ofNat e.line)]

def remarkLines (k : Remark) : Json.Lines :=
  Json.object [Json.member "kind" (Json.ofText k.label), Json.member "line" (Json.ofNat k.line)]

def json (r : FileReport) : Json.Lines :=
  Json.object ([
    Json.member "path" (Json.ofText r.path),
    Json.member "status" (Json.ofText (statusName r.status).toList),
    Json.member "rewrites" (Json.array (r.events.map eventLines)),
    Json.member "skipped" (Json.array (r.skipped.map remarkLines))] ++
    (r.error.map fun e => Json.member "error" (Json.ofText e)).toList)

end FileReport

namespace Summary

def json (s : Summary) : Json.Lines :=
  Json.object [
    Json.member "file_count" (Json.ofNat s.files),
    Json.member "changed_count" (Json.ofNat s.changed),
    Json.member "rewrite_count" (Json.ofNat s.events),
    Json.member "skipped_count" (Json.ofNat s.skipped),
    Json.member "failed_count" (Json.ofNat s.failed)]

end Summary

namespace Report

def text (format : ReportFormat) (rs : List FileReport) : Text :=
  let summary := Summary.ofReports rs
  match format with
  | .human => rs.flatMap (·.human) ++ summary.line
  | .json => Json.text (Json.object [
      Json.member "files" (Json.array (rs.map (·.json))), Json.member "summary" summary.json])

end Report
end ClassScope
