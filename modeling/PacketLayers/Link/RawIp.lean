/-
  PacketLayers.Link.RawIp
  ────────────────────────────────
  **THE LINK LAYER WITHOUT A HEADER.**

  The buffer starts with an IP packet; the first nibble of the packet tells
  its version.  There has to be a first byte.
-/
import PacketLayers.Layer.Dissector

namespace PacketLayers.RawIp

/-- The version nibble of the payload. -/
def next : Bytes → Option Discriminant
  | [] => none
  | x :: _ => some (.ipVersion (x >>> 4))

/-- Raw IP as a layer of a packet. -/
def dissector : Dissector where
  kind := .rawIp
  headerLength h := if h.isEmpty then .error .truncated else .ok 0
  next _ payload := .ok (next payload)
  discriminantOf
    | .ipv4 => some (.ipVersion 4)
    | .ipv6 => some (.ipVersion 6)
    | _ => none
  defaultHeader := []
  requiredLength _ := .ok (some 0)

end PacketLayers.RawIp
