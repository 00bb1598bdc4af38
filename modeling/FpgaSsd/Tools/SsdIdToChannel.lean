/-
# Tools.SsdIdToChannel — the channel of an id, on the command line

`ssd_id_to_channel` prints the channel that the driver puts an id on. It has its own copies
of `char2id` and `id2channel`; the copy of `char2id` is the one of `ssd_recover`.
-/
import FpgaSsd.Tools.SsdRecover

namespace FpgaSsd.Tools.SsdIdToChannel

open FpgaSsd.Driver

set_option autoImplicit false

abbrev ssdS6Nums : UInt64 := 4
abbrev ssdChannelsInS6 : UInt64 := 11

def id2channel (id : BlockId) : Nat :=
  (id.mNLow % ssdS6Nums * ssdChannelsInS6 + id.mNLow / ssdS6Nums % ssdChannelsInS6).toNat

/-- What `main` prints behind the name. -/
def main (name : List UInt8) : Nat := id2channel (char2id name)

end FpgaSsd.Tools.SsdIdToChannel
