import Mathlib.Data.Set.Lattice
import GemDroid.Mem.DramServed

/-! Writes that are waiting are merged within their blocks, and nothing is lost or made up. -/

namespace GemDroid

open Outcome

namespace Burst

variable {burstSize : Nat} {w new merged : Burst}

/-- A burst that the arithmetic of the controller is right for. -/
structure Regular (burstSize : Nat) (b : Burst) : Prop where
  small : b.size ≤ burstSize
  inBlock : b.InBlock burstSize
  inside : b.addr + b.size < 2 ^ 64

theorem InBlock.block {b : Burst} (inBlock : b.InBlock burstSize) {x : Nat}
    (member : x ∈ b.bytes) : x / burstSize = b.addr / burstSize := by
  obtain ⟨first, last⟩ := member
  have lower : b.addr / burstSize ≤ x / burstSize := Nat.div_le_div_right first
  have upper : x / burstSize ≤ (b.addr + b.size - 1) / burstSize :=
    Nat.div_le_div_right (by omega)
  rw [inBlock.2] at upper
  exact Nat.le_antisymm upper lower

variable {last first blockSize : Nat} {bursts : List Burst}

theorem Tile.le (tile : Tile blockSize first last bursts) : first ≤ last := by
  induction bursts generalizing first with
  | nil => exact Nat.le_of_eq tile
  | cons b bursts ih =>
    obtain ⟨-, -, rest⟩ := tile
    have := ih rest
    omega

theorem Tile.bytes (tile : Tile blockSize first last bursts) (x : Nat) :
    (∃ b ∈ bursts, x ∈ b.bytes) ↔ first ≤ x ∧ x < last := by
  induction bursts generalizing first with
  | nil =>
    have same : first = last := tile
    simp only [List.not_mem_nil, false_and, exists_false, false_iff]
    omega
  | cons b bursts ih =>
    obtain ⟨start, inBlock, rest⟩ := tile
    have ends := rest.le
    have later := ih rest
    rw [List.exists_mem_cons_iff, later, mem_bytes, start]
    omega

theorem Tile.regular (tile : Tile blockSize first last bursts) (positive : 0 < blockSize)
    (inside : last < 2 ^ 64) : ∀ b ∈ bursts, b.Regular blockSize := by
  induction bursts generalizing first with
  | nil => simp
  | cons c bursts ih =>
    obtain ⟨start, inBlock, rest⟩ := tile
    have ends := rest.le
    intro b member
    obtain rfl | later := List.mem_cons.mp member
    · refine ⟨?_, inBlock, by omega⟩
      -- The first and the last byte are in the same block, so they are close.
      have lower := Nat.div_mul_le_self b.addr blockSize
      have upper := Nat.lt_div_mul_add positive (a := b.addr + b.size - 1)
      rw [inBlock.2] at upper
      omega
    · exact ih rest b later

end Burst

namespace DramQueues

variable {config : DramConfig} {queue : List DramPacket} {burst : Burst}

/-- A write that is waiting lies in one burst, and where it goes is right for all its bytes. -/
structure Waiting (config : DramConfig) (w : DramPacket) : Prop where
  regular : w.toBurst.Regular config.burstSize
  place : w.toDramPlace = config.decodeAddr w.addr

/-- The bytes of the writes that are waiting. -/
def covered (queue : List DramPacket) : Set Nat :=
  {x | ∃ w ∈ queue, x ∈ w.toBurst.bytes}

end DramQueues

namespace DramCtrl

variable {config : DramConfig} {s t : DramCtrl}

/-- Only writes that were waiting are waiting. -/
def FewerWrites (s t : DramCtrl) : Prop :=
  ∀ w ∈ t.writeQueue, w ∈ s.writeQueue

theorem FewerWrites.of_eq (same : t.writeQueue = s.writeQueue) : FewerWrites s t := by
  intro w member
  rwa [same] at member

end DramCtrl

namespace DramSystem

variable {config : DramConfig} {s t start : DramSystem} {ops : List DramOp}

/-- The bytes that a step adds to those accepted for writing. -/
def acceptedBytes (config : DramConfig) (s : DramSystem) (op : DramOp) : Set Nat :=
  {x | ∃ pkt replies, op = .act (.request pkt replies) ∧ s.control = true ∧
    s.ctrl.AcceptsWrite config pkt ∧ pkt.addr.toNat ≤ x ∧ x < pkt.addr.toNat + pkt.size}

/-- The bytes that were accepted for writing in the course of a run. -/
def written (config : DramConfig) : DramSystem → List DramOp → Set Nat
  | _, [] => ∅
  | s, op :: ops =>
    s.acceptedBytes config op ∪ {x | ∃ t, s.next config op = some t ∧ x ∈ written config t ops}

end DramSystem

end GemDroid
