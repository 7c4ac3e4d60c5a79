/-
  PacketLayers.Listing.Transport
  ────────────────────────────────
  **TABLES OF THE TRANSPORT LAYERS.**
-/
import PacketLayers.Listing.Table
import PacketLayers.Transport.Tcp.Header
import PacketLayers.Transport.Udp

namespace PacketLayers

open Listing

instance : Listable Tcp.Flags := .ofNumber Tcp.Flags
instance : Listable Tcp.SequenceNumber := .ofNumber Tcp.SequenceNumber

/-- The parts of the contents of a TCP header. -/
def Tcp.form : Form Tcp.Header Tcp.Header :=
  Form.of Tcp.Header.mk |>.part "src_port" (·.sourcePort)
    |>.part "dst_port" (·.destinationPort) |>.part "flags" (·.flags)
    |>.part "seq_number" (·.sequence) |>.part "ack_number" (·.acknowledgement)
    |>.part "window_len" (·.window) |>.part "window_scale" (·.windowScale)
    |>.part "max_seg_size" (·.maxSegmentSize) |>.part "sack_permitted" (·.sackPermitted)

/-- The table of TCP. -/
def Tcp.table : Table :=
  .of "tcp" format
    [.of "src_port" Layout.sourcePort, .of "dst_port" Layout.destinationPort,
      .of "seq_number" Layout.sequence, .of "ack_number" Layout.acknowledgement,
      .of "flags" Layout.flags, .of "header_len" Layout.headerLength,
      .of "window_len" Layout.window, .of "checksum" Layout.checksum,
      .of "urgent_at" Layout.urgent, .both "options" getOptions setOptions] form

/-- The parts of the contents of a UDP header. -/
def Udp.form : Form Udp.Header Udp.Header :=
  Form.of Udp.Header.mk |>.part "src_port" (·.sourcePort)
    |>.part "dst_port" (·.destinationPort)

/-- The table of UDP. -/
def Udp.table : Table :=
  .of "udp" format
    [.of "src_port" Layout.sourcePort, .of "dst_port" Layout.destinationPort,
      .of "len" Layout.length, .of "checksum" Layout.checksum] form

end PacketLayers
