import Mathlib.Logic.Relation
import GemDroid.Lib.While
import GemDroid.Lib.Tiling

/-! The options of IPv4 and TCP headers and the extension headers of IPv6, read from a packet. -/

namespace GemDroid

/-- What the code takes from the library that declares the formats of packets. -/
structure Dnet where
  /-- An option of IPv4 of this type is a single byte. -/
  IP_OPT_TYPEONLY : UInt8 → Bool
  /-- An option of TCP of this type is a single byte. -/
  TCP_OPT_TYPEONLY : UInt8 → Bool
  IP_PROTO_HOPOPTS : UInt8
  IP_PROTO_ROUTING : UInt8
  IP_PROTO_FRAGMENT : UInt8
  IP_PROTO_AH : UInt8
  IP_PROTO_ESP : UInt8
  IP_PROTO_DSTOPTS : UInt8

/-- The bytes of a packet from the first one of a header on, with whatever follows the packet. -/
abbrev Bytes := Nat → UInt8

/-- A loop over the options of a header. -/
structure OptionWalk where
  /-- How many bytes of the header are left (`all`). -/
  all : Int
  /-- Where the next option begins (`data`). -/
  data : Nat
  /-- Where the options found so far begin. -/
  vec : List Nat
  /-- An option is longer than what is left, so that the loop has returned `false`. -/
  cut : Bool
  deriving DecidableEq, Repr

namespace OptionWalk

/-- Whether the loop goes round. -/
def goes (w : OptionWalk) : Bool :=
  !w.cut && decide (0 < w.all)

/-- One round of the loop, with the lengths of the options at all places. -/
def round (len : Nat → UInt8) (w : OptionWalk) : Option OptionWalk :=
  let len := (len w.data).toNat
  if w.all < len then some { w with cut := true }
  else some { w with all := w.all - len, data := w.data + len, vec := w.vec ++ [w.data] }

end OptionWalk

/-- What `options` returns of a header whose fixed part ends at `data`, if the fuel suffices. -/
def optionsFrom (len : Nat → UInt8) (data : Nat) (all : Int) (fuel : Nat) :
    Option (Bool × List Nat) :=
  (While.loop OptionWalk.goes (OptionWalk.round len) fuel { all, data, vec := [], cut :=
    false }).map
    fun w => (!w.cut, w.vec)

namespace IpOpt

/-- The length of an option of IPv4. -/
def len (dnet : Dnet) (bytes : Bytes) (data : Nat) : UInt8 :=
  if dnet.IP_OPT_TYPEONLY (bytes data) then 1 else bytes (data + 1)

end IpOpt

namespace IpHdr

/-- The length of the header, whose low four bits of the first byte count words. -/
def hlen (bytes : Bytes) : UInt8 :=
  (bytes 0 &&& 0xf) * 4

/-- How many bytes the options take; a header that is too short leaves less than none. -/
def all (bytes : Bytes) : Int :=
  (hlen bytes).toNat - 20

/-- Collect the options of an IPv4 header. -/
def options (dnet : Dnet) (bytes : Bytes) (fuel : Nat) : Option (Bool × List Nat) :=
  optionsFrom (IpOpt.len dnet bytes) 20 (all bytes) fuel

end IpHdr

namespace TcpOpt

/-- The length of an option of TCP. -/
def len (dnet : Dnet) (bytes : Bytes) (data : Nat) : UInt8 :=
  if dnet.TCP_OPT_TYPEONLY (bytes data) then 1 else bytes (data + 1)

end TcpOpt

namespace TcpHdr

/-- The offset of the payload, which the high four bits of a byte count in words. -/
def off (bytes : Bytes) : UInt8 :=
  (bytes 12 >>> 4) * 4

/-- How many bytes the options take; an offset that is too small leaves less than none. -/
def all (bytes : Bytes) : Int :=
  (off bytes).toNat - 20

/-- Collect the options of a TCP header. -/
def options (dnet : Dnet) (bytes : Bytes) (fuel : Nat) : Option (Bool × List Nat) :=
  optionsFrom (TcpOpt.len dnet bytes) 20 (all bytes) fuel

end TcpHdr

/-- The protocol numbers of extension headers (`IP6_EXTENSION`). -/
def Dnet.IP6_EXTENSION (dnet : Dnet) (nxt : UInt8) : Bool :=
  nxt == dnet.IP_PROTO_HOPOPTS || nxt == dnet.IP_PROTO_ROUTING ||
    nxt == dnet.IP_PROTO_FRAGMENT || nxt == dnet.IP_PROTO_AH || nxt == dnet.IP_PROTO_ESP ||
    nxt == dnet.IP_PROTO_DSTOPTS

namespace Ip6Opt

/-- The protocol of what follows an extension header. -/
def nxt (bytes : Bytes) (data : Nat) : UInt8 :=
  bytes data

/-- The length byte of an extension header. -/
def extlen (bytes : Bytes) (data : Nat) : UInt8 :=
  bytes (data + 1)

/-- The length of an extension header, in eight bits. -/
def len (bytes : Bytes) (data : Nat) : UInt8 :=
  extlen bytes data + 8

end Ip6Opt

/-- A loop over the extension headers of an IPv6 header. -/
structure ExtWalk where
  data : Nat
  nxt : UInt8
  /-- The sum of the lengths so far. -/
  len : Int
  /-- How many bytes of the payload are left (`all`). -/
  all : Int
  /-- The assertion that some are left has failed. -/
  failed : Bool
  deriving DecidableEq, Repr

namespace ExtWalk

/-- Whether the loop goes round; a header of a type that is looked for breaks it off. -/
def goes (dnet : Dnet) (wanted : UInt8 → Bool) (w : ExtWalk) : Bool :=
  !w.failed && dnet.IP6_EXTENSION w.nxt && !wanted w.nxt

/-- One round of the loop: skip an extension header. -/
def round (bytes : Bytes) (w : ExtWalk) : Option ExtWalk :=
  let len := (Ip6Opt.len bytes w.data).toNat
  some { data := w.data + len, nxt := Ip6Opt.nxt bytes w.data, len := w.len + len
         all := w.all - len, failed := decide (w.all - len < 0) }

end ExtWalk

/-- A failure of `assert(all >= 0)`. -/
inductive InetFault
  | assertion
  deriving DecidableEq, Repr

namespace Ip6Hdr

/-- The length of the payload, in network byte order. -/
def plen (bytes : Bytes) : Nat :=
  256 * (bytes 4).toNat + (bytes 5).toNat

/-- The loops begin behind the fixed header, with the protocol that it names. -/
def start (bytes : Bytes) : ExtWalk :=
  { data := 40, nxt := bytes 6, len := 0, all := plen bytes, failed := false }

/-- Walk over the extension headers up to a wanted type and judge the end, if the fuel suffices. -/
def walk {α : Type} (dnet : Dnet) (bytes : Bytes) (wanted : UInt8 → Bool) (judge : ExtWalk → α)
    (fuel : Nat) : Option (Except InetFault α) :=
  (While.loop (ExtWalk.goes dnet wanted) (ExtWalk.round bytes) fuel (start bytes)).map fun w =>
    if w.failed then .error .assertion else .ok (judge w)

/-- The length of all extension headers. -/
def extensionLength (dnet : Dnet) (bytes : Bytes) : Nat → Option (Except InetFault Int) :=
  walk dnet bytes (fun _ => false) ExtWalk.len

/-- Find an extension header of some type, if there is one. -/
def getExt (dnet : Dnet) (bytes : Bytes) (ext_type : UInt8) :
    Nat → Option (Except InetFault (Option Nat)) :=
  walk dnet bytes (· == ext_type) fun w => if dnet.IP6_EXTENSION w.nxt then some w.data else none

/-- The protocol behind the extension headers. -/
def proto (dnet : Dnet) (bytes : Bytes) : Nat → Option (Except InetFault UInt8) :=
  walk dnet bytes (fun _ => false) ExtWalk.nxt

end Ip6Hdr

end GemDroid
