import GemDroid.Sa.Agent

/-! The flow table, and the calls the agent makes when an IP completes a frame. -/

namespace GemDroid

/-- Number of applications (`APP_ID_END`). -/
def appIdEnd : Nat := 13

/-- Rows of the flow table for one application (`MAX_FLOWS_IN_APP`). -/
def maxFlowsInApp : Nat := 5

/-- Entries of one row of the flow table (`MAX_IPS_IN_FLOW`). -/
def maxIpsInFlow : Nat := 5

/-- The part of the flow table that belongs to one application. -/
abbrev AppFlows := Fin maxFlowsInApp → Fin maxIpsInFlow → Int

/-- The flow table (`flowTable`). -/
abbrev FlowTable := Fin appIdEnd → AppFlows

/-- The type of a flow is its last IP before the end mark (`flowType`). -/
def flowType (row : List Int) : Int :=
  row.getD (row.findIdx (· = -1) - 1) (-1)

namespace AppFlows

/-- The rows in use; the first row without an IP ends the search. -/
def rows (flows : AppFlows) : List (List Int) :=
  ((List.finRange maxFlowsInApp).map fun i => List.ofFn (flows i)).takeWhile fun row =>
    row.headD (-1) ≠ -1

/-- The entries that stand after an IP in the rows of a flow type. -/
def nextEntries (flows : AppFlows) (currIpActive flowTy : Int) : List Int :=
  flows.rows.flatMap fun row =>
    (row.zip row.tail).filterMap fun (ip, next) =>
      if ip = currIpActive ∧ flowTy = flowType row then some next else none

/--
The IPs to call after an IP (`nextIPtoCall`).

There is no result when more entries are found than the caller's array can hold.
-/
def nextIPtoCall (flows : AppFlows) (currIpActive flowTy : Int) : Option (List Int) :=
  let ips := flows.nextEntries currIpActive flowTy
  if ips.length ≤ maxIpsInFlow then some ips else none

/-- The numbers of the rows in which an IP stands, once for each time it stands there. -/
def flowEntries (flows : AppFlows) (ipType : Int) : List Int :=
  flows.rows.zipIdx.flatMap fun (row, i) => (row.filter (· = ipType)).map fun _ => (i : Int)

/-- The flows of an IP, with no result when the caller's array is too short. -/
def flowIdentification (flows : AppFlows) (ipType : Int) : Option (List Int) :=
  let found := flows.flowEntries ipType
  if found.length ≤ maxFlowsInApp then some found else none

/--
The calls the agent tries when an IP completes a frame, in order.

Most successors are fixed, and some depend on the first entry found in the flow table.
-/
def ipCalls (flows : AppFlows) (sender : IpType) (senderId coreId frameNum flowTy : Int) :
    Option (List IpReqMsg) := do
  let found ← flows.flowIdentification sender.code
  let flowid1 := found.getD 0 (-1)
  let flowid2 := found.getD 1 (-1)
  let call (target : IpType) (addr size : Int) (isRead : Bool) (flowId : Int) : IpReqMsg :=
    ⟨sender, senderId, target,
      ⟨coreId, BitVec.ofInt 64 addr, size, isRead, frameNum, flowTy, flowId⟩⟩
  match sender with
  | .cam =>
    let display ← flows.nextIPtoCall sender.code IpType.dc.code
    let stored ← flows.nextIPtoCall sender.code IpType.mmcOut.code
    let network ← flows.nextIPtoCall sender.code IpType.nw.code
    some (
      (if display.headD (-1) = IpType.img.code then
        [call .img IpType.cam.addrStart (4 * frameSize / 2) true flowid1] else []) ++
      (if stored.headD (-1) = IpType.ve.code then
        [call .ve IpType.cam.addrStart (4 * frameSize / 1) true flowid2] else []) ++
      (if network.headD (-1) = IpType.ve.code then
        [call .ve IpType.cam.addrStart (4 * frameSize / 1) true flowid2] else []))
  | .mic => some [call .ae IpType.mic.addrStart (4 * audFrameSize) true flowid1]
  | .vd => some [call .dc (IpType.vd.addrStart + frameSize) (4 * frameSize) true flowid1]
  | .ad => some [call .snd (IpType.ad.addrStart + audFrameSize) (4 * audFrameSize) true flowid1]
  | .img =>
    let stored ← flows.nextIPtoCall sender.code IpType.mmcOut.code
    some (
      call .dc (IpType.img.addrStart + frameSize) (4 * frameSize) true flowid1 ::
      (if stored.headD (-1) ≠ -1 then
        [call .mmcOut (IpType.img.addrStart + frameSize) frameSize false flowid2] else []))
  | .ve =>
    let ips ← flows.nextIPtoCall sender.code IpType.ve.code
    some (
      if ips.headD (-1) = IpType.nw.code then []
      else [call .mmcOut (IpType.ve.addrStart + frameSize) (frameSize / vidCodingRatio) false
        flowid1])
  | .ae =>
    let ips ← flows.nextIPtoCall sender.code IpType.ae.code
    some (
      if ips.headD (-1) = IpType.nw.code then []
      else [call .mmcOut (IpType.ae.addrStart + audFrameSize) (audFrameSize / audCodingRatio)
        false flowid1])
  | .mmcIn =>
    let ips ← flows.nextIPtoCall sender.code flowTy
    some (
      if ips.headD (-1) = IpType.ad.code then
        [call .ad IpType.mmcIn.addrStart (4 * audFrameSize / audCodingRatio) true flowid1]
      else if ips.headD (-1) = IpType.img.code then
        [call .img IpType.mmcIn.addrStart (4 * frameSize / 2) true flowid1]
      else if ips.headD (-1) = IpType.vd.code then
        [call .vd IpType.mmcIn.addrStart (4 * frameSize / vidCodingRatio) true flowid1]
      else [])
  | .gpu => some [call .dc (dc1AddrStart + frameSize) (4 * frameSize) true flowid1]
  | .cpu | .dc | .nw | .snd | .mmcOut | .dma | .cache => some []

end AppFlows

/--
An IP completes a frame (`enqueueIPResponse`).

The result is the agent afterwards and the calls it tried, whether queued or dropped.
-/
def Sa.enqueueIPResponse (flowTable : FlowTable) (appId : Int → Fin appIdEnd) (sender : IpType)
    (senderId receiverCoreId frameNum flowTy : Int) (sa : Sa) : Option (Sa × List IpReqMsg) :=
  ((flowTable (appId receiverCoreId)).ipCalls sender senderId receiverCoreId frameNum flowTy).map
    fun calls => (calls.foldl (fun sa call => (sa.enqueueIPIPRequest call).1) sa, calls)

namespace AppFlows

/-- The IPs of a flow, which end before the end mark. -/
def ips (row : List Int) : List Int :=
  row.takeWhile (· ≠ -1)

/-- Pairs of an IP and its direct successor in a flow. -/
def links (row : List Int) : List (Int × Int) :=
  (ips row).zip (ips row).tail

/-- Some flow of the application has one IP directly after another. -/
def Follows (flows : AppFlows) (x y : IpType) : Prop :=
  ∃ row ∈ flows.rows, (x.code, y.code) ∈ links row

/-- The successor of an IP in a flow of the given type. -/
def Owed (flows : AppFlows) (flowTy : Int) (x : IpType) (y : Int) : Prop :=
  ∃ row ∈ flows.rows, flowType row = flowTy ∧ (x.code, y) ∈ links row

/-- The calls after an IP are those the flow table asks for. -/
structure FollowsTable (flows : AppFlows) (x : IpType) (flowTy : Int) (calls : List IpReqMsg) :
    Prop where
  sound : ∀ call ∈ calls, flows.Follows x call.ipType
  complete : ∀ y, flows.Owed flowTy x y → ∃ call ∈ calls, call.ipType.code = y

/-- The first entry the table gives after an IP in the flows of a type, or the end mark. -/
def firstNext (flows : AppFlows) (x : IpType) (flowTy : Int) : Int :=
  (flows.nextEntries x.code flowTy).headD (-1)

/-- The table has the fixed successor after the IP, and in the given type no other. -/
def Fixed (flows : AppFlows) (flowTy : Int) (x y : IpType) : Prop :=
  flows.Follows x y ∧ ∀ z, flows.Owed flowTy x z → z = y.code

/-- No flow of the type goes on after the IP. -/
def Ends (flows : AppFlows) (flowTy : Int) (x : IpType) : Prop :=
  ∀ z, ¬ flows.Owed flowTy x z

/--
The flow table agrees with the successors that are fixed in the agent.

Where the agent looks only at the first entry it finds, the others of that type must be the same.
An encoder stores its frame unless the first entry for flows that end in the encoder itself is
the network.
-/
def Agrees (flows : AppFlows) (flowTy : Int) : IpType → Prop
  | .mic => flows.Fixed flowTy .mic .ae
  | .vd => flows.Fixed flowTy .vd .dc
  | .ad => flows.Fixed flowTy .ad .snd
  | .gpu => flows.Fixed flowTy .gpu .dc
  | .img =>
    if flows.firstNext .img IpType.mmcOut.code = -1 then flows.Fixed flowTy .img .dc
    else flows.Follows .img .dc ∧ flows.Follows .img .mmcOut ∧
      ∀ z, flows.Owed flowTy .img z → z = IpType.dc.code ∨ z = IpType.mmcOut.code
  | .ve =>
    if flows.firstNext .ve IpType.ve.code = IpType.nw.code then flows.Ends flowTy .ve
    else flows.Fixed flowTy .ve .mmcOut
  | .ae =>
    if flows.firstNext .ae IpType.ae.code = IpType.nw.code then flows.Ends flowTy .ae
    else flows.Fixed flowTy .ae .mmcOut
  | .mmcIn =>
    if flows.firstNext .mmcIn flowTy = IpType.ad.code then flows.Fixed flowTy .mmcIn .ad
    else if flows.firstNext .mmcIn flowTy = IpType.img.code then flows.Fixed flowTy .mmcIn .img
    else if flows.firstNext .mmcIn flowTy = IpType.vd.code then flows.Fixed flowTy .mmcIn .vd
    else flows.Ends flowTy .mmcIn
  | .cam =>
    let toImg := flows.firstNext .cam IpType.dc.code = IpType.img.code
    let toVe := flows.firstNext .cam IpType.mmcOut.code = IpType.ve.code ∨
      flows.firstNext .cam IpType.nw.code = IpType.ve.code
    (toImg → flows.Follows .cam .img) ∧ (toVe → flows.Follows .cam .ve) ∧
      ∀ z, flows.Owed flowTy .cam z →
        (toImg ∧ z = IpType.img.code) ∨ (toVe ∧ z = IpType.ve.code)
  | .cpu => flows.Ends flowTy .cpu
  | .dc => flows.Ends flowTy .dc
  | .nw => flows.Ends flowTy .nw
  | .snd => flows.Ends flowTy .snd
  | .mmcOut => flows.Ends flowTy .mmcOut
  | .dma => flows.Ends flowTy .dma
  | .cache => flows.Ends flowTy .cache

private theorem fst_zip_sublist (xs ys : List Int) :
    ((xs.zip ys).map Prod.fst).Sublist xs := by
  -- Zipping cuts the longer list, and the first entries keep their order.
  induction xs generalizing ys with
  | nil => simp
  | cons x xs ih =>
    cases ys with
    | nil => simp
    | cons y ys => simpa using ih ys

private theorem row_next_length (row : List Int) (x flowTy : Int) :
    ((row.zip row.tail).filterMap fun (ip, next) =>
      if ip = x ∧ flowTy = flowType row then some next else none).length ≤
      (row.filter (· = x)).length := by
  -- Each successor comes from a pair whose first entry is the IP, and these entries are places.
  have fewer : ∀ pairs : List (Int × Int),
      (pairs.filterMap fun (ip, next) =>
        if ip = x ∧ flowTy = flowType row then some next else none).length ≤
        ((pairs.map Prod.fst).filter (· = x)).length := by
    intro pairs
    induction pairs with
    | nil => simp
    | cons pair pairs ih =>
      obtain ⟨ip, next⟩ := pair
      by_cases same : ip = x
      · by_cases typed : flowTy = flowType row
        · simpa [same, typed] using ih
        · simp [same, typed]
      · simpa [same] using ih
  exact Nat.le_trans (fewer _) ((fst_zip_sublist row row.tail).filter _).length_le

theorem nextEntries_length_le (flows : AppFlows) (x flowTy : Int) :
    (flows.nextEntries x flowTy).length ≤ (flows.flowEntries x).length := by
  -- Both lookups walk the same rows, so they are compared row by row.
  -- The row number only labels the entries; it is generalised for the induction.
  unfold nextEntries flowEntries
  generalize flows.rows = rows
  generalize 0 = n
  induction rows generalizing n with
  | nil => simp
  | cons row rows ih =>
    rw [List.flatMap_cons, List.zipIdx_cons, List.flatMap_cons, List.length_append,
      List.length_append]
    exact Nat.add_le_add (by simpa using row_next_length row x flowTy) (ih (n + 1))

theorem nextIPtoCall_eq {flows : AppFlows} {x : IpType}
    (few : (flows.flowEntries x.code).length ≤ maxFlowsInApp) (flowTy : Int) :
    flows.nextIPtoCall x.code flowTy = some (flows.nextEntries x.code flowTy) := by
  -- The array holds the places of the IP, and there is at most one successor for each.
  have length := nextEntries_length_le flows x.code flowTy
  exact if_pos (Nat.le_trans length few)

theorem followsTable_iff (flows : AppFlows) (x : IpType) (flowTy : Int)
    (calls : List IpReqMsg) :
    flows.FollowsTable x flowTy calls ↔
      (∀ y ∈ calls.map IpReqMsg.ipType, flows.Follows x y) ∧
        ∀ z, flows.Owed flowTy x z → ∃ y ∈ calls.map IpReqMsg.ipType, y.code = z := by
  -- The remaining fields of a call take no part.
  constructor
  · rintro ⟨sound, complete⟩
    exact ⟨by simpa using sound, by simpa using complete⟩
  · rintro ⟨sound, complete⟩
    exact ⟨by simpa using sound, by simpa using complete⟩

theorem followsTable_single (flows : AppFlows) (x : IpType) (flowTy : Int) (call : IpReqMsg) :
    flows.FollowsTable x flowTy [call] ↔ flows.Fixed flowTy x call.ipType := by
  simp [followsTable_iff, Fixed, eq_comm]

theorem followsTable_nil (flows : AppFlows) (x : IpType) (flowTy : Int) :
    flows.FollowsTable x flowTy [] ↔ flows.Ends flowTy x := by
  simp [followsTable_iff, Ends]

/-- The calls after an IP agree with the table exactly when the table agrees with the agent. -/
theorem followsTable_iff_agrees {flows : AppFlows} {x : IpType}
    (few : (flows.flowEntries x.code).length ≤ maxFlowsInApp)
    (senderId coreId frameNum flowTy : Int) :
    ∃ calls, flows.ipCalls x senderId coreId frameNum flowTy = some calls ∧
      (flows.FollowsTable x flowTy calls ↔ flows.Agrees flowTy x) := by
  have found : flows.flowIdentification x.code = some (flows.flowEntries x.code) := if_pos few
  have lookup := fun flowTy => nextIPtoCall_eq few flowTy
  have first : ∀ flowTy, (flows.nextEntries x.code flowTy).headD (-1) =
      flows.firstNext x flowTy := fun _ => rfl
  unfold ipCalls
  rw [found]
  -- The cases follow the branches of the agent; most make one fixed call or none.
  cases x
  case mic => exact ⟨_, rfl, followsTable_single _ _ _ _⟩
  case vd => exact ⟨_, rfl, followsTable_single _ _ _ _⟩
  case ad => exact ⟨_, rfl, followsTable_single _ _ _ _⟩
  case gpu => exact ⟨_, rfl, followsTable_single _ _ _ _⟩
  case cpu => exact ⟨_, rfl, followsTable_nil _ _ _⟩
  case dc => exact ⟨_, rfl, followsTable_nil _ _ _⟩
  case nw => exact ⟨_, rfl, followsTable_nil _ _ _⟩
  case snd => exact ⟨_, rfl, followsTable_nil _ _ _⟩
  case mmcOut => exact ⟨_, rfl, followsTable_nil _ _ _⟩
  case dma => exact ⟨_, rfl, followsTable_nil _ _ _⟩
  case cache => exact ⟨_, rfl, followsTable_nil _ _ _⟩
  case ve =>
    simp only [Option.bind_eq_bind, Option.bind_some, lookup, first, Agrees]
    refine ⟨_, rfl, ?_⟩
    by_cases network : flows.firstNext .ve IpType.ve.code = IpType.nw.code
    · simp only [network, if_true]
      exact followsTable_nil _ _ _
    · simp only [network, if_false]
      exact followsTable_single _ _ _ _
  case ae =>
    simp only [Option.bind_eq_bind, Option.bind_some, lookup, first, Agrees]
    refine ⟨_, rfl, ?_⟩
    by_cases network : flows.firstNext .ae IpType.ae.code = IpType.nw.code
    · simp only [network, if_true]
      exact followsTable_nil _ _ _
    · simp only [network, if_false]
      exact followsTable_single _ _ _ _
  case mmcIn =>
    simp only [Option.bind_eq_bind, Option.bind_some, lookup, first, Agrees]
    refine ⟨_, rfl, ?_⟩
    by_cases audio : flows.firstNext .mmcIn flowTy = IpType.ad.code
    · rw [if_pos audio, if_pos audio]
      exact followsTable_single _ _ _ _
    rw [if_neg audio, if_neg audio]
    by_cases image : flows.firstNext .mmcIn flowTy = IpType.img.code
    · rw [if_pos image, if_pos image]
      exact followsTable_single _ _ _ _
    rw [if_neg image, if_neg image]
    by_cases video : flows.firstNext .mmcIn flowTy = IpType.vd.code
    · rw [if_pos video, if_pos video]
      exact followsTable_single _ _ _ _
    rw [if_neg video, if_neg video]
    exact followsTable_nil _ _ _
  case img =>
    simp only [Option.bind_eq_bind, Option.bind_some, lookup, first, Agrees]
    refine ⟨_, rfl, ?_⟩
    by_cases none : flows.firstNext .img IpType.mmcOut.code = -1
    · rw [if_neg (not_not_intro none), if_pos none]
      exact followsTable_single _ _ _ _
    · rw [if_pos none, if_neg none, followsTable_iff]
      simp [eq_comm, and_assoc]
  case cam =>
    simp only [Option.bind_eq_bind, Option.bind_some, lookup, first, Agrees]
    refine ⟨_, rfl, ?_⟩
    rw [followsTable_iff]
    by_cases image : flows.firstNext .cam IpType.dc.code = IpType.img.code <;>
      by_cases stored : flows.firstNext .cam IpType.mmcOut.code = IpType.ve.code <;>
      by_cases network : flows.firstNext .cam IpType.nw.code = IpType.ve.code <;>
      simp [image, stored, network, eq_comm, and_assoc]

end AppFlows

/--
The calls after a completed frame follow the flow table exactly when the table agrees with the
agent.

An IP that stands in the flows more often than the agent's array can hold has no calls at all.
-/
theorem enqueueIPResponse_follows_iff (flowTable : FlowTable) (appId : Int → Fin appIdEnd)
    (sender : IpType) (senderId receiverCoreId frameNum flowTy : Int) (sa : Sa) :
    (∃ after calls, sa.enqueueIPResponse flowTable appId sender senderId receiverCoreId frameNum
        flowTy = some (after, calls) ∧
      (flowTable (appId receiverCoreId)).FollowsTable sender flowTy calls) ↔
    ((flowTable (appId receiverCoreId)).flowEntries sender.code).length ≤ maxFlowsInApp ∧
      (flowTable (appId receiverCoreId)).Agrees flowTy sender := by
  -- The agent after the response plays no part, only the calls it tried.
  generalize table : flowTable (appId receiverCoreId) = flows
  simp only [Sa.enqueueIPResponse, table]
  by_cases few : (flows.flowEntries sender.code).length ≤ maxFlowsInApp
  · obtain ⟨calls, called, agrees⟩ :=
      flows.followsTable_iff_agrees few senderId receiverCoreId frameNum flowTy
    simp [called, few, agrees]
  · -- The rows found do not fit, so nothing is called.
    have lost : flows.flowIdentification sender.code = none := if_neg few
    simp [AppFlows.ipCalls, lost, few]

/-- The flows of the video calls in the shipped table: the camera's frames go to the network. -/
def skypeFlows : AppFlows := fun i j =>
  let rows : List (List Int) := [[0, 8, 1], [0, 5, 9, 2], [0, 4, 11], [0, 10, 3]]
  (rows.getD i []).getD j (-1)

/-- The encoder of a video call stores its frame, though the table sends it to the network. -/
theorem skype_encoder_stores :
    ∃ after calls, (Sa.start 0).enqueueIPResponse (fun _ => skypeFlows)
        (fun _ => ⟨9, by decide⟩) .ve 0 0 0 IpType.nw.code = some (after, calls) ∧
      ¬ skypeFlows.FollowsTable .ve IpType.nw.code calls := by
  obtain ⟨calls, called, agrees⟩ := skypeFlows.followsTable_iff_agrees (x := .ve)
    (by decide) 0 0 0 IpType.nw.code
  have responded := congrArg (Option.map fun calls : List IpReqMsg =>
    (calls.foldl (fun sa call => (sa.enqueueIPIPRequest call).1) (Sa.start 0), calls)) called
  refine ⟨_, calls, responded, ?_⟩
  -- No flow of the application has the storage after the encoder.
  have unlisted : skypeFlows.firstNext .ve IpType.ve.code ≠ IpType.nw.code := by decide
  rw [agrees, AppFlows.Agrees, if_neg unlisted]
  rintro ⟨⟨row, member, linked⟩, -⟩
  revert row
  decide

end GemDroid
