import GemDroid.Lib.Search
import GemDroid.Sa.LoadFlows
import Mathlib.Data.List.Forall2
import Mathlib.Data.List.GetD
import Mathlib.Data.List.Induction

/-! Which texts fill the flow table without a store outside it, and what it holds then. -/

namespace GemDroid

/-- A row of the table. -/
def FlowTable.Row (app_id : Int) (flowId : Nat) : Prop :=
  0 ≤ app_id ∧ app_id < appIdEnd ∧ flowId < maxFlowsInApp

/-- A table with new entries in one row, from a place on. -/
def FlowTable.write (table : FlowTable) (app_id : Int) (flowId pos : Nat) (values : List Int) :
    FlowTable :=
  fun app flow entry =>
    if (app : Int) = app_id ∧ flow = flowId ∧ pos ≤ entry ∧ entry < pos + values.length then
      values.getD (entry - pos) (-1)
    else table app flow entry

namespace FlowTable

variable {table : FlowTable} {app_id : Int} {flowId pos : Nat}

theorem store_row (row : Row app_id flowId) (inside : pos < maxIpsInFlow) (ip_id : Int) :
    table.store app_id flowId pos ip_id = some (table.write app_id flowId pos [ip_id]) := by
  obtain ⟨low, high, flow⟩ := row
  rw [store, if_pos ⟨low, high, flow, inside⟩]
  congr 1
  funext app flow' entry
  by_cases here : (app : Int) = app_id ∧ (flow' : Nat) = flowId ∧ (entry : Nat) = pos
  · obtain ⟨same_app, same_flow, same_pos⟩ := here
    simp [write, same_app, same_flow, same_pos]
  · have elsewhere : ¬ ((app : Int) = app_id ∧ (flow' : Nat) = flowId ∧ pos ≤ entry ∧
        (entry : Nat) < pos + [ip_id].length) := by
      rintro ⟨same_app, same_flow, low, high⟩
      exact here ⟨same_app, same_flow, by simp at high; omega⟩
    rw [write, if_neg here, if_neg elsewhere]

theorem row_of_store {ip_id : Int} {after : FlowTable}
    (stored : table.store app_id flowId pos ip_id = some after) :
    Row app_id flowId ∧ pos < maxIpsInFlow := by
  rw [store] at stored
  split at stored
  · rename_i inside
    exact ⟨⟨inside.1, inside.2.1, inside.2.2.1⟩, inside.2.2.2⟩
  · cases stored

theorem write_write (value : Int) (values : List Int) :
    (table.write app_id flowId pos [value]).write app_id flowId (pos + 1) values =
      table.write app_id flowId pos (value :: values) := by
  funext app flow entry
  simp only [write, List.length_cons, List.length_nil]
  by_cases here : (app : Int) = app_id ∧ (flow : Nat) = flowId
  · obtain ⟨same_app, same_flow⟩ := here
    simp only [same_app, same_flow, true_and]
    rcases Nat.lt_trichotomy entry pos with before | first | later
    · rw [if_neg (by omega), if_neg (by omega), if_neg (by omega)]
    · rw [if_neg (by omega), if_pos (by omega), if_pos (by omega), first, Nat.sub_self]
      rfl
    · obtain ⟨k, next⟩ := Nat.exists_eq_add_of_lt later
      have index : (entry : Nat) - pos = k + 1 := by omega
      have index' : (entry : Nat) - (pos + 1) = k := by omega
      rw [index, index', List.getD_cons_succ]
      by_cases inside : k < values.length
      · rw [if_pos (by omega), if_pos (by omega)]
        rfl
      · rw [if_neg (by omega), if_neg (by omega), if_neg (by omega)]
  · rw [if_neg (by tauto), if_neg (by tauto), if_neg (by tauto)]

end FlowTable

namespace FlowLoad

variable {iss : InStream} {app_id ip_id : Int} {flowId room : Nat} {table : FlowTable}

/-- The stream stores -1 before a row is full, where a variable with some value is read. -/
def RowEnds (room : Nat) (iss : InStream) (before : Int) : Prop :=
  (∃ ns : List Int, iss.Gives (ns ++ [-1]) ∧ -1 ∉ ns ∧ ns.length < room) ∨
    iss.next = .nothing ∧ before = -1

theorem readRow_gives (row : FlowTable.Row app_id flowId) (fits : room ≤ maxIpsInFlow)
    {ns : List Int} (gives : iss.Gives (ns ++ [-1])) (inner : -1 ∉ ns) (short : ns.length < room)
    (ip_id : Int) (table : FlowTable) :
    readRow app_id flowId room iss ip_id table =
      some (table.write app_id flowId (maxIpsInFlow - room) (ns ++ [-1]), -1) := by
  -- The induction is on the numbers before the end mark; each takes one place of the row.
  induction ns generalizing room iss ip_id table with
  | nil =>
    obtain ⟨room, rfl⟩ := Nat.exists_eq_succ_of_ne_zero (Nat.ne_of_gt short)
    obtain ⟨rest, found, -⟩ := gives
    rw [readRow, InStream.getInt_number found]
    simp only [FlowTable.store_row row (show maxIpsInFlow - (room + 1) < maxIpsInFlow by omega),
      if_true, List.nil_append]
  | cons n ns ih =>
    obtain ⟨room, rfl⟩ := Nat.exists_eq_succ_of_ne_zero (Nat.ne_of_gt (Nat.zero_lt_of_lt short))
    obtain ⟨rest, found, gives⟩ := gives
    have real : n ≠ -1 := fun ends => inner (by simp [ends])
    have next : maxIpsInFlow - room = maxIpsInFlow - (room + 1) + 1 := by omega
    rw [readRow, InStream.getInt_number found]
    simp only [FlowTable.store_row row (show maxIpsInFlow - (room + 1) < maxIpsInFlow by omega),
      if_neg real]
    rw [ih (Nat.le_of_succ_le fits) gives (fun member => inner (List.mem_cons_of_mem n member))
      (Nat.lt_of_succ_lt_succ short) n _, next, FlowTable.write_write]
    rfl

theorem readRow_nothing (row : FlowTable.Row app_id flowId) (ended : iss.next = .nothing) :
    readRow app_id flowId maxIpsInFlow iss (-1) table =
      some (table.write app_id flowId 0 [-1], -1) := by
  have first : maxIpsInFlow - (4 + 1) = 0 := rfl
  rw [maxIpsInFlow, readRow, InStream.getInt_nothing ended]
  simp only [first, FlowTable.store_row row (show 0 < maxIpsInFlow by decide), if_true]

theorem not_rowEnds_failed {value : Int} (real : value ≠ -1) :
    ¬ RowEnds room { rest := [], good := false } value := by
  rintro (⟨ns, gives, -, -⟩ | ⟨-, ends⟩)
  · cases ns <;> obtain ⟨rest, found, -⟩ := gives <;> cases found
  · exact real ends

/-- A row that was written is one of the table, and its end came in time. -/
theorem rowEnds_of_readRow {after : FlowTable × Int}
    (read : readRow app_id flowId room iss ip_id table = some after) :
    FlowTable.Row app_id flowId ∧ RowEnds room iss ip_id := by
  -- The induction follows the loop; once a reading fails, the variable never becomes -1.
  induction room generalizing iss ip_id table with
  | zero => cases read
  | succ room ih =>
    rw [readRow] at read
    cases found : iss.next with
    | number n rest =>
      rw [InStream.getInt_number found] at read
      dsimp only at read
      split at read
      · cases read
      · rename_i stored
        have row := (FlowTable.row_of_store stored).1
        split at read
        · rename_i ends
          exact ⟨row, Or.inl ⟨[], ⟨rest, ends ▸ found, trivial⟩, by simp, Nat.zero_lt_succ _⟩⟩
        · rename_i real
          obtain ⟨-, ⟨ns, gives, inner, short⟩ | ⟨-, ends⟩⟩ := ih read
          · refine ⟨row, Or.inl ⟨n :: ns, ⟨rest, found, gives⟩, ?_, Nat.succ_lt_succ short⟩⟩
            rw [List.mem_cons, not_or]
            exact ⟨fun same => real same.symm, inner⟩
          · exact absurd ends real
    | wrong n =>
      have real : n ≠ -1 := by
        rcases InStream.value_of_wrong found with rfl | rfl | rfl <;> decide
      rw [InStream.getInt, found] at read
      dsimp only at read
      split at read
      · cases read
      · rw [if_neg real] at read
        exact absurd (ih read).2 (not_rowEnds_failed real)
    | nothing =>
      rw [InStream.getInt_nothing found] at read
      dsimp only at read
      split at read
      · cases read
      · rename_i stored
        have row := (FlowTable.row_of_store stored).1
        split at read
        · rename_i ends
          exact ⟨row, Or.inr ⟨found, ends⟩⟩
        · rename_i real
          exact absurd (ih read).2 (not_rowEnds_failed real)

/-- The application of a line, and what is left of the line, after a line of some application. -/
def appOf (before : Int) (line : List Char) : Int × InStream :=
  (InStream.ofText line).getInt before

/-- The applications of some lines in their order. -/
def appIds (app_id : Int) (lines : List (List Char)) : List Int :=
  lines.foldl (fun apps line => apps ++ [(appOf (apps.getLastD app_id) line).1]) []

/-- The number of entries at the end of a list that are of one application. -/
def flowNumber (apps : List Int) (app : Int) : Nat :=
  (apps.reverse.takeWhile (· == app)).length

/-- A line has a row of the table, and its end mark comes before the row is full. -/
structure LineFits (app_id ip_id : Int) (before : List (List Char)) (line : List Char) :
    Prop where
  row : FlowTable.Row (appOf ((appIds app_id before).getLastD app_id) line).1
    (flowNumber (appIds app_id before) (appOf ((appIds app_id before).getLastD app_id) line).1)
  ends : RowEnds maxIpsInFlow (appOf ((appIds app_id before).getLastD app_id) line).2
    (if before = [] then ip_id else -1)

/-- All lines of a text that are read have rows, and their end marks come in time. -/
def Admissible (app_id ip_id : Int) (lines : List (List Char)) : Prop :=
  ∀ before line after, lines = before ++ line :: after → LineFits app_id ip_id before line

theorem appIds_append (app_id : Int) (lines : List (List Char)) (line : List Char) :
    appIds app_id (lines ++ [line]) = appIds app_id lines ++
      [(appOf ((appIds app_id lines).getLastD app_id) line).1] := by
  rw [appIds, List.foldl_append]
  rfl

theorem flowNumber_append (apps : List Int) (app : Int) :
    flowNumber (apps ++ [app]) app = flowNumber apps app + 1 := by
  simp [flowNumber]

theorem admissible_append {app_id ip_id : Int} {lines : List (List Char)} {line : List Char} :
    Admissible app_id ip_id (lines ++ [line]) ↔
      Admissible app_id ip_id lines ∧ LineFits app_id ip_id lines line := by
  constructor
  · intro admissible
    refine ⟨fun before line' after split => ?_, admissible lines line [] rfl⟩
    exact admissible before line' (after ++ [line]) (by rw [split]; simp)
  · rintro ⟨admissible, fits⟩ before line' after split
    rcases List.eq_nil_or_concat after with rfl | ⟨front, last, rfl⟩
    · obtain ⟨rfl, same⟩ := List.append_inj' split rfl
      exact (List.singleton_inj.mp same) ▸ fits
    · rw [List.concat_eq_append, ← List.cons_append, ← List.append_assoc] at split
      exact admissible before line' front (List.append_inj' split rfl).1

/-- The variables between two lines. -/
structure Reached (app_id ip_id : Int) (lines : List (List Char)) (s : FlowLoad) : Prop where
  app : s.app_id = (appIds app_id lines).getLastD app_id
  ip : s.ip_id = if lines = [] then ip_id else -1
  last : s.last_app_id = (appIds app_id lines).getLastD (-1)
  flow : s.flowId = flowNumber (appIds app_id lines) s.last_app_id

theorem Reached.flowNumber_eq {lines : List (List Char)} {s : FlowLoad} {ip_id : Int}
    (reached : Reached app_id ip_id lines s) (app : Int) :
    (if app ≠ s.last_app_id then 0 else s.flowId) = flowNumber (appIds app_id lines) app := by
  by_cases same : app = s.last_app_id
  · rw [if_neg (not_not.mpr same), reached.flow, same]
  · rw [if_pos same]
    rw [reached.last] at same
    rcases List.eq_nil_or_concat (appIds app_id lines) with empty | ⟨front, last, shape⟩
    · rw [empty]
      rfl
    · rw [shape] at same ⊢
      have differ : last ≠ app := by simpa [eq_comm] using same
      simp [flowNumber, differ]

theorem Reached.readLine_eq {lines : List (List Char)} {s : FlowLoad} {ip_id : Int}
    (reached : Reached app_id ip_id lines s) (line : List Char) :
    s.readLine line =
      (readRow (appOf ((appIds app_id lines).getLastD app_id) line).1
        (flowNumber (appIds app_id lines) (appOf ((appIds app_id lines).getLastD app_id) line).1)
        maxIpsInFlow (appOf ((appIds app_id lines).getLastD app_id) line).2 s.ip_id
        s.flowTable).map fun after =>
      { flowTable := after.1, ip_id := after.2
        app_id := (appOf ((appIds app_id lines).getLastD app_id) line).1
        flowId := flowNumber (appIds app_id lines)
          (appOf ((appIds app_id lines).getLastD app_id) line).1 + 1
        last_app_id := (appOf ((appIds app_id lines).getLastD app_id) line).1 } := by
  rw [← reached.flowNumber_eq, ← reached.app, readLine, appOf]
  dsimp only
  split <;> rename_i read <;> rw [read] <;> rfl

theorem Reached.next (app_id ip_id : Int) (lines : List (List Char)) (line : List Char)
    (table : FlowTable) : Reached app_id ip_id (lines ++ [line])
      { flowTable := table, ip_id := -1
        app_id := (appOf ((appIds app_id lines).getLastD app_id) line).1
        flowId := flowNumber (appIds app_id lines)
          (appOf ((appIds app_id lines).getLastD app_id) line).1 + 1
        last_app_id := (appOf ((appIds app_id lines).getLastD app_id) line).1 } where
  app := by rw [appIds_append, List.getLastD_concat]
  ip := by simp
  last := by rw [appIds_append, List.getLastD_concat]
  flow := by rw [appIds_append, flowNumber_append]

theorem readRow_of_rowEnds (row : FlowTable.Row app_id flowId)
    (ends : RowEnds maxIpsInFlow iss ip_id) (table : FlowTable) :
    ∃ after, readRow app_id flowId maxIpsInFlow iss ip_id table = some (after, -1) := by
  obtain ⟨ns, gives, inner, short⟩ | ⟨ended, rfl⟩ := ends
  · exact ⟨_, readRow_gives row (Nat.le_refl _) gives inner short _ _⟩
  · exact ⟨_, readRow_nothing row ended⟩

theorem readLines_eq (app_id ip_id : Int) (lines : List (List Char)) :
    (Admissible app_id ip_id lines ∧ ∃ s,
      lines.foldlM readLine (start app_id ip_id) = some s ∧ Reached app_id ip_id lines s) ∨
    ¬ Admissible app_id ip_id lines ∧ lines.foldlM readLine (start app_id ip_id) = none := by
  -- The induction is on what has been read, so the last line is the one that may not fit.
  induction lines using List.reverseRecOn with
  | nil =>
    exact Or.inl ⟨fun before line after split => by simp at split, _, rfl, rfl, rfl, rfl, rfl⟩
  | append_singleton lines line ih =>
    rw [admissible_append, List.foldlM_append]
    obtain ⟨admissible, s, read, reached⟩ | ⟨not_admissible, stopped⟩ := ih
    · have one : [line].foldlM readLine s = s.readLine line := by simp
      rw [read, Option.bind_eq_bind, Option.bind_some, one, reached.readLine_eq]
      by_cases fits : LineFits app_id ip_id lines line
      · obtain ⟨after, row_read⟩ := readRow_of_rowEnds fits.row fits.ends s.flowTable
        rw [← reached.ip] at row_read
        rw [row_read]
        exact Or.inl ⟨⟨admissible, fits⟩, _, rfl, Reached.next _ _ _ _ after⟩
      · refine Or.inr ⟨fun both => fits both.2, ?_⟩
        cases row_read : readRow _ _ _ _ s.ip_id s.flowTable with
        | none => rfl
        | some after =>
          obtain ⟨row, ends⟩ := rowEnds_of_readRow row_read
          exact absurd ⟨row, reached.ip ▸ ends⟩ fits
    · exact Or.inr ⟨fun both => not_admissible both.1, by rw [stopped]; rfl⟩

end FlowLoad

/-- The flows of a file in their order, each with its application. -/
abbrev FlowFile :=
  List (Nat × List Int)

namespace FlowFile

/-- The flows of one application. -/
def ofApp (file : FlowFile) (app : Nat) : List (List Int) :=
  (file.filter fun flow => flow.1 == app).map Prod.snd

/-- The table with the flows of a file, each ended by -1. -/
def table (file : FlowFile) : FlowTable :=
  fun app flow entry => ((file.ofApp app).getD flow []).getD entry (-1)

/--
Lines that describe the flows of a file: an application, its IPs and the end mark each.

The lines of an application stand together, and neither a row nor the rows are too many.
-/
structure Describes (file : FlowFile) (lines : List (List Char)) : Prop where
  lines : List.Forall₂ (fun line flow =>
    (InStream.ofText line).Gives ((flow.1 : Int) :: (flow.2 ++ [-1]))) lines file
  apps : ∀ flow ∈ file, flow.1 < appIdEnd
  ips : ∀ flow ∈ file, flow.2.length ≤ maxIpsInFlow - 1 ∧ -1 ∉ flow.2
  few : ∀ app, (file.ofApp app).length ≤ maxFlowsInApp
  together : ∀ first middle last, [first, middle, last].Sublist file →
    first.1 = last.1 → middle.1 = first.1

variable {file : FlowFile} {lines : List (List Char)} {line : List Char} {flow : Nat × List Int}

theorem ofApp_append (app : Nat) : FlowFile.ofApp (file ++ [flow]) app =
    file.ofApp app ++ if flow.1 = app then [flow.2] else [] := by
  by_cases same : flow.1 = app <;> simp [ofApp, List.filter_append, same]

theorem getD_endMark (ips : List Int) (entry : Nat) :
    (ips ++ [-1]).getD entry (-1) = ips.getD entry (-1) := by
  rcases Nat.lt_or_ge entry ips.length with inside | behind
  · rw [List.getD_append _ _ _ _ inside]
  · rw [List.getD_append_right _ _ _ _ behind, List.getD_eq_default _ _ behind]
    cases entry - ips.length <;> rfl

theorem table_append (ips : List Int) (app : Nat) :
    FlowFile.table (file ++ [(app, ips)]) =
      file.table.write app (file.ofApp app).length 0 (ips ++ [-1]) := by
  funext app' row entry
  simp only [table, FlowTable.write, ofApp_append, Nat.zero_le, Nat.zero_add, true_and,
    Nat.sub_zero, getD_endMark, Int.natCast_inj]
  by_cases same : app = app'
  · subst same
    rw [if_pos rfl]
    rcases Nat.lt_trichotomy row (file.ofApp app').length with before | new | after
    · rw [if_neg (by omega), List.getD_append _ _ _ _ before]
    · have default : (file.ofApp app').getD row [] = [] :=
        List.getD_eq_default _ _ (Nat.le_of_eq new.symm)
      rw [new, List.getD_append_right _ _ _ _ (Nat.le_refl _), Nat.sub_self]
      split
      · rfl
      · rename_i behind
        rw [← new, default, List.getD_cons_zero, List.getD_nil]
        refine List.getD_eq_default _ _ ?_
        rw [List.length_append, List.length_singleton] at behind
        omega
    · rw [if_neg (by omega), List.getD_append_right _ _ _ _ (Nat.le_of_lt after),
        List.getD_eq_default _ _ (Nat.le_of_lt after)]
      obtain ⟨k, far⟩ := Nat.exists_eq_add_of_lt after
      rw [show (row : Nat) - (file.ofApp app').length = k + 1 by omega]
      rfl
  · rw [if_neg same, List.append_nil, if_neg fun here => same here.1.symm]

theorem flowNumber_eq (together : ∀ first middle last,
    [first, middle, last].Sublist (file ++ [flow]) → first.1 = last.1 → middle.1 = first.1) :
    FlowLoad.flowNumber (file.map fun flow => (flow.1 : Int)) flow.1 =
      (file.ofApp flow.1).length := by
  -- Counting back from the end, no flow of the application stands behind one of another.
  have persists : file.reverse.Pairwise fun later earlier =>
      ((earlier.1 : Int) == flow.1) = true → ((later.1 : Int) == flow.1) = true := by
    rw [List.pairwise_reverse, List.pairwise_iff_forall_sublist]
    intro earlier later both same
    rw [beq_iff_eq, Int.natCast_inj] at same ⊢
    rw [together earlier later flow (both.append (List.Sublist.refl [flow])) same, same]
  rw [FlowLoad.flowNumber, ← List.map_reverse, List.takeWhile_map, List.length_map, ofApp,
    List.length_map]
  have found := Search.takeWhile_eq_filter persists
  simp only [Function.comp_def]
  rw [found, List.filter_reverse, List.length_reverse]
  congr 1
  refine List.filter_congr fun other _ => ?_
  rw [Bool.eq_iff_iff, beq_iff_eq, beq_iff_eq, Int.natCast_inj]

theorem Describes.init (describes : Describes (file ++ [flow]) lines) :
    ∃ before line, lines = before ++ [line] ∧ Describes file before ∧
      (InStream.ofText line).Gives ((flow.1 : Int) :: (flow.2 ++ [-1])) := by
  have taken := List.forall₂_take_append _ _ _ describes.lines
  have dropped := List.forall₂_drop_append _ _ _ describes.lines
  have whole := (List.take_append_drop file.length lines).symm
  generalize lines.drop file.length = rest at dropped whole
  obtain _ | ⟨gives, _ | _⟩ := dropped
  refine ⟨_, _, whole, ⟨taken, fun f member => describes.apps f (List.mem_append_left _ member),
    fun f member => describes.ips f (List.mem_append_left _ member), fun app => ?_,
    fun first middle last sub => describes.together first middle last
      (sub.trans (List.sublist_append_left _ _))⟩, gives⟩
  refine Nat.le_trans ?_ (describes.few app)
  rw [ofApp_append, List.length_append]
  exact Nat.le_add_right _ _

/-- The lines that describe a file are read to its table. -/
theorem Describes.readLines (describes : Describes file lines) (app_id ip_id : Int) :
    ∃ s, lines.foldlM FlowLoad.readLine (.start app_id ip_id) = some s ∧
      s.flowTable = file.table ∧ FlowLoad.Reached app_id ip_id lines s ∧
      FlowLoad.appIds app_id lines = file.map fun flow => (flow.1 : Int) := by
  -- The induction is on what has been read; the last line writes the next row of its application.
  induction file using List.reverseRecOn generalizing lines with
  | nil =>
    obtain _ | _ := describes.lines
    exact ⟨_, rfl, rfl, ⟨rfl, rfl, rfl, rfl⟩, rfl⟩
  | append_singleton file flow ih =>
    obtain ⟨before, line, rfl, described, rest, found, gives⟩ := describes.init
    obtain ⟨s, read, table, reached, apps⟩ := ih described
    obtain ⟨app, ips⟩ := flow
    have given (value : Int) := InStream.getInt_number found value
    have here : FlowLoad.appOf ((FlowLoad.appIds app_id before).getLastD app_id) line =
        ((app : Int), { rest, good := !rest.isEmpty }) := given _
    have number := flowNumber_eq describes.together
    have few := describes.few app
    have row : FlowTable.Row app (FlowFile.ofApp file app).length := by
      rw [ofApp_append, if_pos rfl, List.length_append, List.length_singleton] at few
      exact ⟨Int.natCast_nonneg app,
        Int.ofNat_lt.mpr (describes.apps (app, ips) (by simp)), few⟩
    obtain ⟨short, inner⟩ := describes.ips (app, ips) (by simp)
    have one : [line].foldlM FlowLoad.readLine s = s.readLine line := by simp
    have row_read := FlowLoad.readRow_gives row (Nat.le_refl _) gives inner
      (Nat.lt_of_le_of_lt short (by decide)) s.ip_id s.flowTable
    have next := FlowLoad.Reached.next app_id ip_id before line
      ((FlowFile.table file).write app (FlowFile.ofApp file app).length 0 (ips ++ [-1]))
    rw [here, apps, number] at next
    rw [List.foldlM_append, read, Option.bind_eq_bind, Option.bind_some, one,
      reached.readLine_eq, here, apps, number, row_read]
    refine ⟨_, rfl, ?_, ?_, ?_⟩
    · rw [table, table_append, Nat.sub_self]
    · rw [table, Nat.sub_self]
      exact next
    · rw [FlowLoad.appIds_append, here, apps, List.map_append]
      rfl

theorem Describes.linesRead {text : List Char} (describes : Describes file (getLines text)) :
    FlowLoad.linesRead text = getLines text := by
  have matched := describes.lines
  clear describes
  rw [FlowLoad.linesRead]
  generalize getLines text = lines at matched ⊢
  induction matched with
  | nil => rfl
  | @cons line flow lines file gives others ih =>
    obtain ⟨rest, found, -⟩ := gives
    have shown : (!line.isEmpty) = true := by
      cases line with
      | nil => cases found
      | cons c line => rfl
    rw [List.takeWhile_cons, if_pos shown, ih]

end FlowFile

/--
The table is filled without a store outside it, and as a well-formed text says, exactly if every
line that is read has a row and stores the end mark before the row is full.
-/
theorem loadFlows_right_iff (app_id ip_id : Int) (text : List Char) :
    ((loadFlows app_id ip_id text).isSome = true ∧
      ∀ file, FlowFile.Describes file (getLines text) →
        loadFlows app_id ip_id text = some (FlowFile.table file)) ↔
    FlowLoad.Admissible app_id ip_id (FlowLoad.linesRead text) := by
  have described : ∀ file, FlowFile.Describes file (getLines text) →
      loadFlows app_id ip_id text = some (FlowFile.table file) := by
    intro file describes
    obtain ⟨s, read, table, -⟩ := describes.readLines app_id ip_id
    rw [loadFlows, describes.linesRead, read, Option.map_some, table]
  rw [loadFlows] at described ⊢
  rw [and_iff_left described, Option.isSome_map]
  obtain ⟨admissible, s, read, -⟩ | ⟨not_admissible, stopped⟩ :=
    FlowLoad.readLines_eq app_id ip_id (FlowLoad.linesRead text)
  · rw [read]
    exact iff_of_true rfl admissible
  · rw [stopped]
    exact iff_of_false (Bool.false_ne_true) not_admissible

/-- A line without end mark, or of an application without rows, is stored outside the table. -/
theorem loadFlows_outside :
    loadFlows 0 0 ['0', ' ', '8', ' ', '1'] = none ∧
    loadFlows 0 0 ['1', '3', ' ', '0', ' ', '5', ' ', '9', ' ', '2', ' ', '-', '1'] = none ∧
    ¬ ∀ app_id ip_id text, (loadFlows app_id ip_id text).isSome = true := by
  refine ⟨rfl, rfl, fun always => ?_⟩
  exact Bool.false_ne_true (always 0 0 ['0', ' ', '8', ' ', '1'])

end GemDroid
