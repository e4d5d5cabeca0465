import GemDroid.Mem.Packet

/-! Address ranges, the interval map over them, and the lookup of a port on a bus. -/

namespace GemDroid

/-- Some bits of an address, as a number (`bits`). -/
def bits (val : Addr) (first last : Nat) : Nat :=
  (val.toNat >>> last) % 2 ^ (first + 1 - last)

/--
A range of addresses with both ends, whose stripes may belong to several owners (`AddrRange`).

The slice that selects the stripe ends at `intlvHighBit` and has `intlvBits` bits.
-/
structure AddrRange where
  start : Addr
  last : Addr
  intlvHighBit : Nat
  intlvBits : Nat
  intlvMatch : Nat
  deriving DecidableEq, Repr

/-- What stops the simulation in an operation on ranges. -/
inductive RangePanic
  /-- Two interleaved ranges of different regions are compared (`intersects`). -/
  | intersectsInterleaved
  /-- An interleaved range is compared with another one (`isSubset`). -/
  | subsetOfInterleaved
  /-- The merged ranges are not all the stripes of one region, in their order. -/
  | cannotMerge
  deriving DecidableEq, Repr

namespace AddrRange

/-- The range without addresses (the constructor without arguments). -/
def empty : AddrRange :=
  { start := 1, last := 0, intlvHighBit := 0, intlvBits := 0, intlvMatch := 0 }

/-- So many addresses from one on (`RangeSize`). -/
def rangeSize (start size : Addr) : AddrRange :=
  { start := start, last := start + size - 1, intlvHighBit := 0, intlvBits := 0, intlvMatch := 0 }

def interleaved (range : AddrRange) : Bool :=
  range.intlvBits != 0

/-- The number of neighbouring addresses in one stripe (`granularity`). -/
def granularity (range : AddrRange) : Addr :=
  1#64 <<< (range.intlvHighBit + 1 - range.intlvBits)

/-- The number of owners that hold stripes of the region (`stripes`). -/
def stripes (range : AddrRange) : BitVec 32 :=
  (1#64 <<< range.intlvBits).setWidth 32

/-- The number of addresses, if the region is made of whole stripes (`size`). -/
def size (range : AddrRange) : Addr :=
  (range.last - range.start + 1) >>> range.intlvBits

/-- Two ranges are part of one region with the same interleaving (`mergesWith`). -/
def mergesWith (range r : AddrRange) : Bool :=
  r.start == range.start && r.last == range.last && r.intlvHighBit == range.intlvHighBit &&
    r.intlvBits == range.intlvBits

/-- The stripe of the region that an address lies in. -/
def stripe (range : AddrRange) (a : Addr) : Nat :=
  bits a range.intlvHighBit (range.intlvHighBit + 1 - range.intlvBits)

/-- The range contains an address (`contains`). -/
def contains (range : AddrRange) (a : Addr) : Bool :=
  decide (range.start ≤ a) && decide (a ≤ range.last) &&
    (!range.interleaved || range.stripe a == range.intlvMatch)

/-- The region of a range and that of another one have an address in common. -/
def meets (range r : AddrRange) : Bool :=
  decide (range.start ≤ r.last) && decide (r.start ≤ range.last)

/-- The test for a common address (`intersects`). -/
def intersects (range r : AddrRange) : Except RangePanic Bool :=
  if !range.interleaved then .ok (range.meets r)
  else if r.size = 1#64 then .ok (range.contains r.start)
  -- The interleaving is ignored to be on the safe side.
  else if !r.interleaved then .ok (range.meets r)
  else if range.mergesWith r then .ok (range.intlvMatch == r.intlvMatch)
  else .error .intersectsInterleaved

/-- The range lies in another one (`isSubset`). -/
def isSubset (range r : AddrRange) : Except RangePanic Bool :=
  if range.interleaved then .error .subsetOfInterleaved
  else .ok (decide (r.start ≤ range.start) && decide (range.last ≤ r.last))

/-- The order of the ranges in a map (`operator<`). -/
def below (range r : AddrRange) : Bool :=
  if range.start ≠ r.start then decide (range.start < r.start)
  else decide (range.intlvMatch < r.intlvMatch)

/-- The region whose stripes are given, in their order (the constructor from a vector). -/
def merge (ranges : List AddrRange) : Except RangePanic AddrRange :=
  match ranges with
  | [] => .ok empty
  | first :: _ =>
    if ranges.length ≠ 2 ^ first.intlvBits then .error .cannotMerge
    else if !ranges.all first.mergesWith then .error .cannotMerge
    else if ranges.map intlvMatch ≠ (List.range ranges.length).map (· % 2 ^ 8) then .error
      .cannotMerge
    else .ok { first with intlvHighBit := 0, intlvBits := 0, intlvMatch := 0 }

end AddrRange

/-- The entries of an interval map in their order (`AddrRangeMap`). -/
abbrev AddrRangeMap (V : Type) :=
  List (AddrRange × V)

namespace AddrRangeMap

variable {V : Type}

/-- Go back through the entries of one region until one intersects (the loop of `find`). -/
def walkBack (r origRange : AddrRange) :
    AddrRange × V → List (AddrRange × V) → Except RangePanic (Option (AddrRange × V))
  | i, [] => do return if ← i.1.intersects r then some i else none
  | i, before :: rest =>
    if i.1.mergesWith origRange then do
      if ← before.1.intersects r then return some before
      walkBack r origRange before rest
    else do return if ← i.1.intersects r then some i else none

/-- The entries before the upper bound of a range, the last one first (`upper_bound`). -/
def notAbove (r : AddrRange) (tree : AddrRangeMap V) : List (AddrRange × V) :=
  (tree.filter fun entry => !r.below entry.1).reverse

/-- The entry that intersects a range (`find`). -/
def find (r : AddrRange) (tree : AddrRangeMap V) :
    Except RangePanic (Option (AddrRange × V)) :=
  match tree.notAbove r with
  | [] =>
    match tree with
    | [] => .ok none
    | first :: _ => do return if ← first.1.intersects r then some first else none
  | i :: rest => do
    if ← i.1.intersects r then return some i
    if i.1.interleaved then walkBack r i.1 i rest else return none

/-- The entry that contains an address (`find`). -/
def findAddr (a : Addr) (tree : AddrRangeMap V) : Except RangePanic (Option (AddrRange × V)) :=
  tree.find (.rangeSize a 1#64)

/-- Put an entry in its place, unless there is one of the same order (`insert` of the map). -/
def put (r : AddrRange) (d : V) (tree : AddrRangeMap V) : AddrRangeMap V :=
  if tree.any fun entry => !entry.1.below r && !r.below entry.1 then tree
  else (tree.filter fun entry => entry.1.below r) ++ (r, d) ::
    tree.filter fun entry => !entry.1.below r

/-- Insert a range that intersects none; says whether it did (`insert`). -/
def insert (r : AddrRange) (d : V) (tree : AddrRangeMap V) :
    Except RangePanic (AddrRangeMap V × Bool) := do
  if (← tree.find r).isSome then return (tree, false)
  return (tree.put r d, true)

end AddrRangeMap

/-- The number of a port of a bus (`PortID`). -/
abbrev PortID :=
  Nat

/-- The ports of a bus and the use it makes of one of them as default. -/
structure BusConfig where
  masterPorts : Nat
  /-- The port for what no range contains, if there is one. -/
  defaultPortID : Option PortID
  /-- The default port only takes the addresses of its own range. -/
  useDefaultRange : Bool

/-- What stops the simulation in a bus. -/
inductive BusFault
  | range (fault : RangePanic)
  /-- A lookup comes before all ranges are known (`assert(gotAllAddrRanges)`). -/
  | noRangesYet
  /-- No port is responsible for an address. -/
  | noDestination
  /-- The default port has more or less than one range. -/
  | defaultRanges
  /-- Two ports have the same range. -/
  | sameRange
  /-- The default port has not given its range. -/
  | noDefaultRange
  /-- A range reaches into the default range and out of it. -/
  | intersectsDefault
  deriving DecidableEq, Repr

/-- A range that was looked up (`PortCache`). -/
structure PortCache where
  valid : Bool
  id : PortID
  range : AddrRange

/-- The part of a bus that finds the port for an address (`BaseBus`). -/
structure BaseBus where
  portMap : AddrRangeMap PortID
  /-- The ranges that were looked up last, the latest first. -/
  portCache0 : PortCache
  portCache1 : PortCache
  portCache2 : PortCache
  gotAddrRanges : PortID → Bool
  gotAllAddrRanges : Bool
  defaultRange : AddrRange
  /-- What the bus tells its own masters. -/
  busRanges : List AddrRange

namespace BaseBus

variable (config : BusConfig)

/-- A bus that knows no range yet (the constructor). -/
def start : BaseBus :=
  let nothing := { valid := false, id := 0, range := .empty }
  { portMap := [], portCache0 := nothing, portCache1 := nothing, portCache2 := nothing
    gotAddrRanges := fun _ => false, gotAllAddrRanges := false, defaultRange := .empty
    busRanges := [] }

/-- The port of a range that was looked up and contains the address (`checkPortCache`). -/
def checkPortCache (addr : Addr) (bus : BaseBus) : Option PortID :=
  if bus.portCache0.valid && bus.portCache0.range.contains addr then some bus.portCache0.id
  else if bus.portCache1.valid && bus.portCache1.range.contains addr then some bus.portCache1.id
  else if bus.portCache2.valid && bus.portCache2.range.contains addr then some bus.portCache2.id
  else none

/-- Remember a range, and forget the one before the last two (`updatePortCache`). -/
def updatePortCache (id : PortID) (range : AddrRange) (bus : BaseBus) : BaseBus :=
  { bus with
    portCache2 := bus.portCache1
    portCache1 := bus.portCache0
    portCache0 := { valid := true, id, range } }

/-- Forget what was looked up (`clearPortCache`). -/
def clearPortCache (bus : BaseBus) : BaseBus :=
  { bus with
    portCache2 := { bus.portCache2 with valid := false }
    portCache1 := { bus.portCache1 with valid := false }
    portCache0 := { bus.portCache0 with valid := false } }

/-- The port for an address that no range contains (the end of `findPort`). -/
def findDefault (addr : Addr) (bus : BaseBus) : Except BusFault PortID :=
  match config.defaultPortID with
  | none => .error .noDestination
  | some id =>
    if config.useDefaultRange then
      if bus.defaultRange.contains addr then .ok id else .error .noDestination
    else .ok id

/-- The port for an address (`findPort`). -/
def findPort (addr : Addr) (bus : BaseBus) : Except BusFault (PortID × BaseBus) :=
  if !bus.gotAllAddrRanges then .error .noRangesYet
  else
    match bus.checkPortCache addr with
    | some dest_id => .ok (dest_id, bus)
    | none =>
      match bus.portMap.findAddr addr with
      | .error fault => .error (.range fault)
      | .ok (some (range, dest_id)) => .ok (dest_id, bus.updatePortCache dest_id range)
      | .ok none => do return (← findDefault config addr bus, bus)

/-- Give a range to a port (in `recvRangeChange`). -/
def addRange (id : PortID) (portMap : AddrRangeMap PortID) (r : AddrRange) :
    Except BusFault (AddrRangeMap PortID) :=
  match portMap.insert r id with
  | .error fault => .error (.range fault)
  | .ok (_, false) => .error .sameRange
  | .ok (portMap, true) => .ok portMap

/-- Keep a range that is not part of the default range (in `recvRangeChange`). -/
def keepRange (bus : BaseBus) (busRanges : List AddrRange) (range : AddrRange) :
    Except RangePanic (List AddrRange) := do
  if config.useDefaultRange then
    if ← range.isSubset bus.defaultRange then return busRanges
  return busRanges ++ [range]

/-- Take one range into the ranges of the bus; stripes wait until their region is complete. -/
def aggregate (bus : BaseBus) (state : List AddrRange × List AddrRange)
    (entry : AddrRange × PortID) : Except RangePanic (List AddrRange × List AddrRange) := do
  let (busRanges, intlv_ranges) := state
  if entry.1.interleaved then
    match intlv_ranges.getLast? with
    | none => return (busRanges, [entry.1])
    | some back =>
      if back.mergesWith entry.1 then return (busRanges, intlv_ranges ++ [entry.1])
      else return (← keepRange config bus busRanges (← AddrRange.merge intlv_ranges), [entry.1])
  else return (← keepRange config bus busRanges entry.1, intlv_ranges)

/-- The ranges that the bus is responsible for (in `recvRangeChange`). -/
def aggregated (bus : BaseBus) : Except RangePanic (List AddrRange) := do
  let first := if config.useDefaultRange then [bus.defaultRange] else []
  let (busRanges, intlv_ranges) ← bus.portMap.foldlM (aggregate config bus) (first, [])
  if intlv_ranges.isEmpty then return busRanges
  keepRange config bus busRanges (← AddrRange.merge intlv_ranges)

/-- A range may not reach into the default range and out of it (in `recvRangeChange`). -/
def checkDefault (bus : BaseBus) (r : AddrRange) : Except BusFault Unit :=
  match r.intersects bus.defaultRange, r.isSubset bus.defaultRange with
  | .error fault, _ => .error (.range fault)
  | .ok false, _ => .ok ()
  | .ok true, .error fault => .error (.range fault)
  | .ok true, .ok inside => if inside then .ok () else .error .intersectsDefault

/-- Tell the masters which ranges the bus has (in `recvRangeChange`). -/
def tellRanges (bus : BaseBus) : Except BusFault BaseBus :=
  if config.useDefaultRange && !(config.defaultPortID.any bus.gotAddrRanges) then
    .error .noDefaultRange
  else
    match aggregated config bus with
    | .error fault => .error (.range fault)
    | .ok busRanges => do
      if config.useDefaultRange then busRanges.forM (checkDefault bus)
      return { bus with busRanges }

/-- Take the ranges of a port in (in `recvRangeChange`). -/
def takeRanges (master_port_id : PortID) (ranges : List AddrRange) (bus : BaseBus) :
    Except BusFault BaseBus :=
  if config.defaultPortID = some master_port_id then
    if config.useDefaultRange then
      match ranges with
      | [range] => .ok { bus with defaultRange := range }
      | _ => .error .defaultRanges
    else .ok bus
  else do
    -- The port may give its ranges again, so the ones it had are taken out.
    let others := bus.portMap.filter fun entry => entry.2 != master_port_id
    let portMap ← ranges.foldlM (addRange master_port_id) others
    return { bus with portMap }

/-- The ranges behind a port have changed (`recvRangeChange`). -/
def recvRangeChange (master_port_id : PortID) (ranges : List AddrRange) (bus : BaseBus) :
    Except BusFault BaseBus := do
  let got := Function.update bus.gotAddrRanges master_port_id true
  let bus ← takeRanges config master_port_id ranges { bus with
    gotAddrRanges := got
    gotAllAddrRanges := bus.gotAllAddrRanges || (List.range config.masterPorts).all got }
  let told ← if bus.gotAllAddrRanges then tellRanges config bus else .ok bus
  return told.clearPortCache

end BaseBus

end GemDroid
