import GemDroid.Defines

/-! Frequency states of cores and IPs, their tables and the operations that move between them. -/

namespace GemDroid

/-- Voltage and frequency (GHz) of each core state (`GemDroidCore::voltage_freq_table`). -/
def coreVoltageFreq : List (Rat × Rat) :=
  [(925 / 1000, 3 / 10), (9485714286 / 10000000000, 4 / 10), (9721428571 / 10000000000, 5 / 10),
   (9957142857 / 10000000000, 6 / 10), (10192857143 / 10000000000, 7 / 10),
   (10428571429 / 10000000000, 8 / 10), (10664285714 / 10000000000, 9 / 10),
   (109 / 100, 1), (11135714286 / 10000000000, 11 / 10), (11371428571 / 10000000000, 12 / 10),
   (11607142857 / 10000000000, 14 / 10), (11842857143 / 10000000000, 16 / 10),
   (1255 / 1000, 18 / 10)]

/-- Voltage and frequency (GHz) of each IP state (`GemDroidIP::voltage_freq_table`). -/
def ipVoltageFreq : List (Rat × Rat) :=
  [(835 / 1000, 2 / 10), (872 / 1000, 3 / 10), (909 / 1000, 4 / 10), (946 / 1000, 5 / 10),
   (983 / 1000, 6 / 10), (102 / 100, 7 / 10), (1057 / 1000, 8 / 10)]

/-- The frequency column of a table. -/
def freqs (table : List (Rat × Rat)) : List Rat :=
  table.map Prod.snd

/-- The first row with this frequency (`getIndexInTable`), nothing when there is none. -/
def getIndexInTable (table : List (Rat × Rat)) (freq : Rat) : Option Nat :=
  (freqs table).findIdx? (· == freq)

/--
The frequency stored in a row.

The source reads past the table for other indices, which this function answers with zero.
-/
def tableFreq (table : List (Rat × Rat)) (index : Int) : Rat :=
  if 0 ≤ index then (freqs table).getD index.toNat 0 else 0

/-- Dynamic power of a table row, `C * V * V * F`. -/
def dynamicPower (capacitance : Rat) (row : Rat × Rat) : Rat :=
  capacitance * row.1 * row.1 * row.2

/-- The frequency of the first row below the power, that of the last row when there is none. -/
def freqForPower (table : List (Rat × Rat)) (power : Rat × Rat → Rat) (budget : Rat) : Rat :=
  -- The rows are tried from the lowest frequency on, and the first that fits ends the search.
  match table.find? fun row => power row < budget with
  | some row => row.2
  | none => (freqs table).getLastD 0

/-- Static power of a core in each state (`CORE_STATIC_PWR`). -/
def coreStaticPwr : Rat := 35 / 100

/-- Capacitance of a core (`CORE_CAPACITANCE`). -/
def coreCapacitance : Rat := 1

/-- Voltage squared times frequency at the top IP state (`V2F`). -/
def v2f : Rat := (1057 / 1000) * (1057 / 1000) * (8 / 10)

/-- Capacitance of an IP (`*_DYNAMIC_PWR_PER_CL`), zero for kinds without a table. -/
def IpType.capacitance : IpType → Rat
  | .dc => (5 / 10) / v2f
  | .snd => 0 / v2f
  | .mic => 0 / v2f
  | .nw => (2 / 10) / v2f
  | .cam => 1 / v2f
  | .mmcIn => (3 / 10) / v2f
  | .mmcOut => (3 / 10) / v2f
  | .vd => 1 / v2f
  | .ve => (15 / 10) / v2f
  | .ad => (75 / 100) / v2f
  | .ae => (75 / 100) / v2f
  | .img => (15 / 10) / v2f
  | .gpu => 4 / v2f
  | .cpu | .dma | .cache => 0

/-- The frequency management of a core. -/
structure CoreDvfs where
  dvfsState : Int
  dvfsCounter : Int
  optDVFSState : Int
  powerInLastEpoch : Rat
  deriving DecidableEq, Repr

namespace CoreDvfs

/-- The frequency of the current state (`getCoreFreq`). -/
def getCoreFreq (c : CoreDvfs) : Rat :=
  tableFreq coreVoltageFreq c.dvfsState

/-- Raise the state, whatever is left above it (`incFreq`). -/
def incFreq (steps : Int) (c : CoreDvfs) : CoreDvfs :=
  -- The guard knows one step, while the caller may ask for two.
  if c.dvfsState < coreDvfsStates - 1 then { c with dvfsState := c.dvfsState + steps } else c

/-- Lower the state unless the interactive governor still holds it (`decFreq`). -/
def decFreq (governor : Governor) (steps : Int) (c : CoreDvfs) : CoreDvfs :=
  if governor = .interactive ∧ 0 < c.dvfsCounter then c
  else if steps - 1 < c.dvfsState then { c with dvfsState := c.dvfsState - steps }
  else c

/-- Go to the top state (`setMaxCoreFreq`). -/
def setMaxCoreFreq (governor : Governor) (c : CoreDvfs) : CoreDvfs :=
  -- Only the interactive governor arms the counter for cores.
  if governor = .interactive then
    { c with dvfsState := coreDvfsStates - 1, dvfsCounter := interactiveGovernorLat }
  else { c with dvfsState := coreDvfsStates - 1 }

/-- Go to the optimal state (`setOptCoreFreq`). -/
def setOptCoreFreq (c : CoreDvfs) : CoreDvfs :=
  { c with dvfsState := c.optDVFSState }

/-- Select a tabulated frequency (`setCoreFreq`); its assertion fails for any other. -/
def setCoreFreq (freq : Rat) (c : CoreDvfs) : Option CoreDvfs :=
  (getIndexInTable coreVoltageFreq freq).map fun (index : Nat) => { c with dvfsState := index }

/-- The frequency for a power budget (`GemDroidCore::getFreqForPower`). -/
def getFreqForPower (power : Rat) : Rat :=
  freqForPower coreVoltageFreq (fun row => coreStaticPwr + dynamicPower coreCapacitance row) power

/-- Select a state for the power left by the rest of the platform (`setMaxAllowedFreq`). -/
def setMaxAllowedFreq (coordinatedPower : Rat) (c : CoreDvfs) : Option CoreDvfs :=
  -- The frequency is stored in an `int` and then used as a table index.
  let freq := Rounding.trunc (getFreqForPower (coordinatedPower - c.powerInLastEpoch))
  c.setCoreFreq (tableFreq coreVoltageFreq freq)

/-- Count down at the start of an epoch (`updateDVFS`). -/
def updateDVFS (governor : Governor) (c : CoreDvfs) : CoreDvfs :=
  if governor = .interactive then { c with dvfsCounter := c.dvfsCounter - 1 } else c

/-- The state is a row of the table. -/
def InRange (c : CoreDvfs) : Prop :=
  0 ≤ c.dvfsState ∧ c.dvfsState < coreDvfsStates

end CoreDvfs

/-- The frequency management of an IP. -/
structure IpDvfs where
  ipType : IpType
  dvfsState : Int
  dvfsCounter : Int
  optDVFSState : Int
  powerInLastEpoch : Rat
  deriving DecidableEq, Repr

namespace IpDvfs

/-- The frequency of the current state (`getIPFreq`). -/
def getIPFreq (ip : IpDvfs) : Rat :=
  tableFreq ipVoltageFreq ip.dvfsState

/-- Go to the top state (`setMaxIPFreq`). -/
def setMaxIPFreq (ip : IpDvfs) : IpDvfs :=
  { ip with dvfsState := ipDvfsStates - 1, dvfsCounter := interactiveGovernorLat }

/-- Raise the state, to the top when fewer steps are left (`incFreq`). -/
def incFreq (steps : Int) (ip : IpDvfs) : IpDvfs :=
  -- Here the guard takes the number of steps into account.
  if ip.dvfsState < ipDvfsStates - steps - 1 then { ip with dvfsState := ip.dvfsState + steps }
  else ip.setMaxIPFreq

/-- Lower the state unless the interactive governor still holds it (`decFreq`). -/
def decFreq (governor : Governor) (steps : Int) (ip : IpDvfs) : IpDvfs :=
  if governor = .interactive ∧ 0 < ip.dvfsCounter then ip
  else if steps - 1 < ip.dvfsState then { ip with dvfsState := ip.dvfsState - steps }
  else ip

/-- Go to the optimal state (`setOptIPFreq`). -/
def setOptIPFreq (ip : IpDvfs) : IpDvfs :=
  { ip with dvfsState := ip.optDVFSState }

/-- Select a tabulated frequency (`setIPFreq`); its assertion fails for any other. -/
def setIPFreq (freq : Rat) (ip : IpDvfs) : Option IpDvfs :=
  (getIndexInTable ipVoltageFreq freq).map fun (index : Nat) => { ip with dvfsState := index }

/-- The frequency for a power budget (`GemDroidIP::getFreqForPower`). -/
def getFreqForPower (ip : IpDvfs) (power : Rat) : Rat :=
  freqForPower ipVoltageFreq (dynamicPower ip.ipType.capacitance) power

/-- Select a frequency for the power left by the rest of the platform (`setMaxAllowedFreq`). -/
def setMaxAllowedFreq (coordinatedPower : Rat) (ip : IpDvfs) : Option IpDvfs :=
  ip.setIPFreq (ip.getFreqForPower (coordinatedPower - ip.powerInLastEpoch))

/-- Count down at the start of an epoch (`updateDVFS`). -/
def updateDVFS (ip : IpDvfs) : IpDvfs :=
  { ip with dvfsCounter := ip.dvfsCounter - 1 }

/-- The state is a row of the table. -/
def InRange (ip : IpDvfs) : Prop :=
  0 ≤ ip.dvfsState ∧ ip.dvfsState < ipDvfsStates

end IpDvfs

end GemDroid
