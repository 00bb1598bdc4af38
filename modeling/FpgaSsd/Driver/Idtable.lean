/-
# Driver.Idtable — the table of ids, read by a process

`ssd_read_idtable` lists the nodes of one channel after the other in a buffer that has room
for one channel, and copies each list behind the last one to the process. The buffer of the
process is memory of the process, so it is passed along.

* `stageNodes`, `stageBuckets` — one channel in the buffer;
* `sendChannels` — the loop over the channels, with the running offset;
* `ssdReadIdtable` — an error is answered as one more than there can be ids;
* `ioctlReadIdTable` — the branch of `ssd_block_ioctl`, which changes the sign twice.
-/
import FpgaSsd.Driver.Open

namespace FpgaSsd.Driver

open FpgaSsd.Lib

set_option autoImplicit false

/-- The entries of a list of nodes, from entry `n` on. -/
def stageNodes : List HashNode → Nat → Mem → Mem
  | [], _, m => m
  | node :: rest, n, m => stageNodes rest (n + 1) ((flushIdInfoOf node).encode m (flushIdInfoSize * n))

/-- The buckets of one channel; the number counts the entries in the buffer. -/
def stageBuckets (channel : Nat) : List Nat → Nat → Mem → Drv (Nat × Mem)
  | [], n, m => pure (n, m)
  | b :: rest, n, m => do
      let nodes ← Drv.chan channel (.copyBucket b)
      stageBuckets channel rest (n + nodes.length) (stageNodes nodes n m)

/-- The channels that are left, with the ids so far, the offset in the buffer of the process,
the buffer for one channel and the one of the process. A copy that faults ends the loop. -/
def sendChannels : List Nat → Nat → Nat → Mem → Mem → Drv (Option Nat × Mem)
  | [], idNum, _, _, usr => pure (some idNum, usr)
  | channel :: rest, idNum, usrBuf, buffer, usr => do
      let (idNumInChannel, buffer) ← stageBuckets channel (List.range ssdHashSize) 0 buffer
      let size := idNumInChannel * flushIdInfoSize
      if 0 < idNumInChannel then
        let failed ← Program.perform Act.copyParam
        if failed then pure (none, usr)
        else sendChannels rest (idNum + idNumInChannel) (usrBuf + size) buffer (copyBytes usr usrBuf buffer 0 size)
      else sendChannels rest (idNum + idNumInChannel) (usrBuf + size) buffer usr

/-- The answer, and the buffer of the process. -/
def ssdReadIdtable (usr : Mem) : Drv (Int × Mem) := do
  let null ← Program.perform Act.kmalloc
  if null then pure (ssdMaxIdNum + 1, usr)
  else
    let (idNum, usr) ← sendChannels (List.range ssdMaxChannel) 0 0 (fun _ => 0) usr
    match idNum with
    | none => pure (ssdMaxIdNum + 1, usr)
    | some idNum => pure (idNum, usr)

/-- `IOCTL_READ_ID_TABLE`. -/
def ioctlReadIdTable (usr : Mem) : Drv (Int × Mem) := do
  let failed ← Program.perform Act.copyParam
  let (ret, usr) ←
    if failed then pure (-errCopyFromUser, usr)
    else do
      let (ret, usr) ← ssdReadIdtable usr
      pure (-ret, usr)
  pure (if ret < 0 then -ret else ret, usr)

end FpgaSsd.Driver
