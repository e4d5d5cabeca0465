import GemDroid.Lib.InStream
import GemDroid.Sa.Flows

/-! Reading the flow table from a text with one flow a line. -/

namespace GemDroid

/-- The lines of a text (`getline`); the last one may end with the text. -/
def getLines (text : List Char) : List (List Char) :=
  match text.splitOn '\n' with
  | [] => []
  | lines => if lines.getLast? = some [] then lines.dropLast else lines

/-- A table without flows. -/
def FlowTable.unused : FlowTable :=
  fun _ _ _ => -1

/-- Store an entry; there is no result when the place is outside the table. -/
def FlowTable.store (table : FlowTable) (app_id : Int) (flowId pos : Nat) (ip_id : Int) :
    Option FlowTable :=
  if 0 ≤ app_id ∧ app_id < appIdEnd ∧ flowId < maxFlowsInApp ∧ pos < maxIpsInFlow then
    some fun app flow entry =>
      if (app : Int) = app_id ∧ flow = flowId ∧ entry = pos then ip_id else table app flow entry
  else none

/-- The variables of `loadFlows`, whose ids have no initial value. -/
structure FlowLoad where
  flowTable : FlowTable
  app_id : Int
  ip_id : Int
  flowId : Nat
  last_app_id : Int

namespace FlowLoad

/-- Nothing has been read yet. -/
def start (app_id ip_id : Int) : FlowLoad :=
  { flowTable := .unused, app_id, ip_id, flowId := 0, last_app_id := -1 }

/--
Read entries into a row until -1 has been stored (the inner loop of `loadFlows`).

The loop knows no end of the row, but there is no result once it stores an entry behind it.
-/
def readRow (app_id : Int) (flowId : Nat) :
    Nat → InStream → Int → FlowTable → Option (FlowTable × Int)
  | 0, _, _, _ => none
  | room + 1, iss, ip_id, table =>
    let (ip_id, iss) := iss.getInt ip_id
    match table.store app_id flowId (maxIpsInFlow - (room + 1)) ip_id with
    | none => none
    | some table =>
      if ip_id = -1 then some (table, ip_id) else readRow app_id flowId room iss ip_id table

/-- Read one line (in `loadFlows`). -/
def readLine (s : FlowLoad) (line : List Char) : Option FlowLoad :=
  let (app_id, iss) := (InStream.ofText line).getInt s.app_id
  let flowId := if app_id ≠ s.last_app_id then 0 else s.flowId
  match readRow app_id flowId maxIpsInFlow iss s.ip_id s.flowTable with
  | none => none
  | some (flowTable, ip_id) =>
    some { flowTable, app_id, ip_id, flowId := flowId + 1, last_app_id := app_id }

/-- The lines that are read, of which the first empty one is the end. -/
def linesRead (text : List Char) : List (List Char) :=
  (getLines text).takeWhile fun line => !line.isEmpty

end FlowLoad

/--
Fill the flow table from a text (`loadFlows`).

The two ids begin with whatever their memory holds. There is no result when an entry is stored
outside the table.
-/
def loadFlows (app_id ip_id : Int) (text : List Char) : Option FlowTable :=
  ((FlowLoad.linesRead text).foldlM FlowLoad.readLine (.start app_id ip_id)).map (·.flowTable)

end GemDroid
