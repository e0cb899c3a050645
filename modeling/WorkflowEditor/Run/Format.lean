/-
  WorkflowEditor.Run.Format
  ─────────────────────────
  **A TRACE AS TEXT.**

  First a line on the run, then a tree of its nodes with what went in and
  came out, or the failure instead; then the error and the answer.

  No Mathlib.
-/
import WorkflowEditor.Json.Printer
import WorkflowEditor.Run.Session

namespace WorkflowEditor.Run

/-- A duration in seconds, to three places. -/
def seconds (x : Float) : String :=
  ((Decimal.places? 3 x).getD (if x.isNaN then "NaN" else if x < 0 then "-inf" else "inf")) ++ "s"

/-- A value on a line.  Text stands without quotes, and a float that is a
whole number below `10 ^ 15` is written as one. -/
def valueText : Json → String
  | .str s => s
  | .num (.float x) =>
      if x.floor == x && x.abs < 1e15 then toString x.toInt64.toInt
      else (Num.float x).text
  | value => value.compact

/-! ## §1. Nodes. -/

/-- What is shown of an entry, line by line. -/
def NodeTrace.details (entry : NodeTrace) : List (String × Json) :=
  (if entry.input.isNull then [] else [("input", entry.input)])
    ++ (if entry.output.isNull then [] else [("output", entry.output)])
    ++ (entry.error.map fun error => ("error", error)).toList

/-- The lines below an entry. -/
def detailLines (indent : String) : List (String × Json) → String
  | [] => ""
  | (name, value) :: rest =>
      indent ++ (if rest.isEmpty then "└── " else "├── ") ++ name ++ ": " ++ valueText value
        ++ "\n" ++ detailLines indent rest

/-- An entry as a branch of the tree. -/
def NodeTrace.lines (entry : NodeTrace) (last : Bool) : String :=
  let label :=
    match entry.name with
    | some name => name ++ " (" ++ entry.nodeId ++ ")"
    | none => entry.nodeId
  let elapsed := (entry.elapsed.map fun x => " " ++ seconds x).getD ""
  (if last then "└── " else "├── ") ++ "[" ++ entry.status.name ++ "] " ++ label ++ elapsed
    ++ "\n" ++ detailLines (if last then "    " else "│   ") entry.details

/-- Entries as a tree. -/
def treeLines : List NodeTrace → String
  | [] => ""
  | entry :: rest => entry.lines rest.isEmpty ++ treeLines rest

/-! ## §2. Runs and chats. -/

/-- A trace as text. -/
def Trace.text (t : Trace) : String :=
  "Run " ++ t.status.name ++ ((t.elapsed.map fun x => " in " ++ seconds x).getD "") ++ "\n"
    ++ (match t.failure with
      | some raw => "└── error: " ++ valueText raw ++ "\n"
      | none => treeLines t.nodes)
    ++ ((t.error.map fun error => "Error: " ++ valueText error ++ "\n").getD "")
    ++ ((t.content.map fun content => "Answer: " ++ content ++ "\n").getD "")

/-- A displayed entry as text.  Of an answer the status, the nodes or the
failure, and the content are shown. -/
def Item.text : Item → String
  | .user text => "> " ++ text ++ "\n"
  | .assistant content status sub _ =>
      let shown : Trace := { Trace.idle with status := status, content := content }
      match sub with
      | .nodes entries => Trace.text { shown with nodes := entries }
      | .failure raw => Trace.text { shown with failure := some raw }

end WorkflowEditor.Run
