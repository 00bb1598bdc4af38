/-
# Api.Process — opening and closing the card from one process

`SSD_open`, `SSD_recover_open`, `SSD_open_newcard`, `SSD_flush`, `SSD_close` and
`SSD_close_force` on the globals of the library. What the outside answers (the
descriptors of `open`, the results of the ioctls, the status registers) is an
argument of each call; the ioctls on `/dev/ssd_Baidu0` are listed in the order in
which they are issued. Delays, messages and the checksum tables are left out, and
`ssd_reg_write` has no result that is read.

* `openFiles`, `closeDown` — the descriptors of the 44 device files;
* `checkStatus`, `cfgS6`, `cfgS6Times` — waiting for the hardware, reconfiguring it;
* `openLoop` — the five rounds of reset, open ioctl and reconfiguration;
* `LibCall.run` — one call on the globals.
-/
import FpgaSsd.Api.Library

namespace FpgaSsd.Api

open FpgaSsd.Lib FpgaSsd.Driver

set_option autoImplicit false

abbrev ssdClosed : Int := 0
abbrev ssdOpened : Int := 1
abbrev errNoDev : Int := 10
abbrev errOepnDevFailed : Int := 22

/-- The globals of the library. -/
structure Process where
  gOpenedFlag : Int
  gSsdFd : Nat → Int
  /-- `crc_fp` is not null. -/
  crcFp : Bool

/-- The globals of a process that has called nothing. -/
def Process.initial : Process := ⟨ssdClosed, fun _ => 0, false⟩

inductive IoctlKind where
  | «open»
  | recoverOpen
  | sysInit
  | flush
  | close
  deriving DecidableEq, Repr

/-- An ioctl with its descriptor and its result. -/
structure Issued where
  kind : IoctlKind
  fd : Int
  ret : Int
  deriving DecidableEq, Repr

/-- What a call returns, `none` for `void`, what it leaves, and what it issued. -/
structure Answered where
  ret : Option Int
  lib : Process
  issued : List Issued

/-! ## The device files -/

/-- Open the files from `i` on, up to `n` of them, until one fails. -/
def openFilesFrom (files : Nat → Int) : Nat → Nat → (Nat → Int) → Nat × (Nat → Int)
  | 0, i, fd => (i, fd)
  | n + 1, i, fd =>
      let fd := Function.update fd i (files i)
      if files i < 0 then (i, fd) else openFilesFrom files n (i + 1) fd

/-- The index where opening stopped, and the descriptors. -/
def openFiles (files fd : Nat → Int) : Nat × (Nat → Int) :=
  openFilesFrom files ssdMaxChannel 0 fun i => if i < ssdMaxChannel then -1 else fd i

/-- `while (i--) { close (g_ssd_fd[i]); g_ssd_fd[i] = -1; }`. -/
def closeDown : Nat → (Nat → Int) → Nat → Int
  | 0, fd => fd
  | i + 1, fd => closeDown i (Function.update fd i (-1))

/-- Close every descriptor that is not negative. -/
def closeAll (fd : Nat → Int) : Nat → Int := fun i =>
  if i < ssdMaxChannel ∧ 0 ≤ fd i then -1 else fd i

/-! ## The hardware behind the status registers -/

/-- What one `ssd_reg_read` meets: its own `open` fails, or a value is left in
`read_value`. -/
abbrev RegRead := Option UInt64

def ssdRegRead : RegRead → UInt64
  | none => 0
  | some value => value

/-- The two registers that one turn of `check_status` reads. -/
structure StatusReads where
  status1 : RegRead
  status2 : RegRead

def busy (status1 status2 : UInt64) : Bool :=
  decide (status1 &&& 0x01 ≠ 0) || decide (status2 &&& 0x0f0000 ≠ 0)

/-- The loop of `check_status` with `n` reads left before the timeout. -/
def checkStatusFrom (reads : Nat → StatusReads) : Nat → Nat → UInt64 → UInt64 → Int
  | 0, _, status1, status2 => if busy status1 status2 then -1 else 0
  | n + 1, i, status1, status2 =>
      if busy status1 status2 then
        checkStatusFrom reads n (i + 1) (ssdRegRead (reads i).status1) (ssdRegRead (reads i).status2)
      else 0

def checkStatus (reads : Nat → StatusReads) : Int := checkStatusFrom reads 6 0 0xffff 0xffff

/-- What the two waits of one `cfg_s6` read. -/
structure CfgReads where
  before : Nat → StatusReads
  after : Nat → StatusReads

def cfgS6 (reads : CfgReads) : Int :=
  if checkStatus reads.before ≠ 0 then -1 else checkStatus reads.after

/-- The loop of `cfg_s6_times` with `n` attempts left. -/
def cfgS6TimesFrom (reads : Nat → CfgReads) : Nat → Nat → Int → Int
  | 0, _, ret => ret
  | n + 1, i, _ =>
      let ret := cfgS6 (reads i)
      if ret = 0 then ret else cfgS6TimesFrom reads n (i + 1) ret

def cfgS6Times (reads : Nat → CfgReads) : Int := cfgS6TimesFrom reads 5 0 0

/-! ## Open -/

/-- One round of the open loop: the result of the ioctl, and what the
reconfiguration reads. -/
structure Round where
  ioctl : Int
  cfg : Nat → CfgReads

/-- The loop with `n` rounds left; `ret` is the result variable of the call. -/
def openLoop (kind : IoctlKind) (fd : Int) (rounds : Nat → Round) :
    Nat → Nat → Int → Int × List Issued
  | 0, _, ret => (ret, [])
  | n + 1, k, _ =>
      let ret := (rounds k).ioctl
      if ret = ssdOk ∨ ret = errNotClosed then (ret, [⟨kind, fd, ret⟩])
      else
        let cfg := cfgS6Times (rounds k).cfg
        -- the reconfiguration takes the place of the result of the ioctl
        if cfg ≠ ssdOk then (cfg, [⟨kind, fd, ret⟩])
        else
          let (last, issued) := openLoop kind fd rounds n (k + 1) cfg
          (last, ⟨kind, fd, ret⟩ :: issued)

/-- What `SSD_open` and `SSD_recover_open` meet outside. -/
structure OpenWorld where
  files : Nat → Int
  rounds : Nat → Round
  /-- `fopen` of the checksum switch succeeds. -/
  crcFile : Bool

/-- The body that `SSD_open` and `SSD_recover_open` share. -/
def openCard (kind : IoctlKind) (w : OpenWorld) (lib : Process) : Answered :=
  let (i, fd) := openFiles w.files lib.gSsdFd
  if i ≠ ssdMaxChannel then
    ⟨some (apiValue errOepnDevFailed), { lib with gSsdFd := closeDown i fd }, []⟩
  else
    let (ret, issued) := openLoop kind (fd 0) w.rounds 5 0 ssdOk
    if ret ≠ ssdOk then
      ⟨some (apiValue ret), { lib with gSsdFd := closeDown ssdMaxChannel fd }, issued⟩
    else ⟨some ssdOk, ⟨ssdOpened, fd, w.crcFile⟩, issued⟩

def ssdOpen (w : OpenWorld) (lib : Process) : Answered :=
  if lib.gOpenedFlag = ssdOpened then ⟨some (apiValue errNotClosed), lib, []⟩
  else openCard .open w lib

/-- The check of `g_opened_flag` is commented out. -/
def ssdRecoverOpen (w : OpenWorld) (lib : Process) : Answered := openCard .recoverOpen w lib

def ssdOpenNewcard (files : Nat → Int) (ioctl : Int) (lib : Process) : Answered :=
  if lib.gOpenedFlag = ssdOpened then ⟨some (apiValue errNotClosed), lib, []⟩
  else
    let (i, fd) := openFiles files lib.gSsdFd
    if i ≠ ssdMaxChannel then
      ⟨some (apiValue errOepnDevFailed), { lib with gSsdFd := closeDown i fd }, []⟩
    else if ioctl ≠ ssdOk then
      ⟨some (apiValue ioctl), { lib with gSsdFd := closeDown ssdMaxChannel fd },
        [⟨.sysInit, fd 0, ioctl⟩]⟩
    else ⟨some ssdOk, { lib with gOpenedFlag := ssdOpened, gSsdFd := fd }, [⟨.sysInit, fd 0, ioctl⟩]⟩

/-! ## Flush and close -/

def ssdFlush (ioctl : Int) (lib : Process) : Answered :=
  if lib.gOpenedFlag ≠ ssdOpened then ⟨some (apiValue errNotOpened), lib, []⟩
  else ⟨some (apiValue ioctl), lib, [⟨.flush, lib.gSsdFd 0, ioctl⟩]⟩

def ssdClose (ioctl : Int) (lib : Process) : Answered :=
  if lib.gOpenedFlag ≠ ssdOpened then ⟨none, lib, []⟩
  else
    let lib := { lib with gOpenedFlag := ssdClosed }
    let issued : List Issued := [⟨.close, lib.gSsdFd 0, ioctl⟩]
    if ioctl ≠ ssdOk then ⟨none, lib, issued⟩
    else ⟨none, { lib with gSsdFd := closeAll lib.gSsdFd }, issued⟩

/-- Try `IOCTL_CLOSE` until it succeeds, `n` times at most. -/
def closeLoop (fd : Int) (ioctls : Nat → Int) : Nat → Nat → Int → Int × List Issued
  | 0, _, ret => (ret, [])
  | n + 1, k, _ =>
      let ret := ioctls k
      if ret = ssdOk then (ret, [⟨.close, fd, ret⟩])
      else
        let (last, issued) := closeLoop fd ioctls n (k + 1) ret
        (last, ⟨.close, fd, ret⟩ :: issued)

def ssdCloseForce (files ioctls : Nat → Int) (lib : Process) : Answered :=
  let (i, fd) := openFiles files lib.gSsdFd
  if i ≠ ssdMaxChannel then ⟨some (-errNoDev), { lib with gSsdFd := closeDown i fd }, []⟩
  else
    let (ret, issued) := closeLoop (fd 0) ioctls 5 0 ssdOk
    ⟨some ret, { lib with gSsdFd := closeAll fd }, issued⟩

/-! ## Calls -/

/-- A call with what the outside answers to it. -/
inductive LibCall where
  | open (w : OpenWorld)
  | recoverOpen (w : OpenWorld)
  | openNewcard (files : Nat → Int) (ioctl : Int)
  | flush (ioctl : Int)
  | close (ioctl : Int)
  | closeForce (files ioctls : Nat → Int)

def LibCall.run : LibCall → Process → Answered
  | .open w => ssdOpen w
  | .recoverOpen w => ssdRecoverOpen w
  | .openNewcard files ioctl => ssdOpenNewcard files ioctl
  | .flush ioctl => ssdFlush ioctl
  | .close ioctl => ssdClose ioctl
  | .closeForce files ioctls => ssdCloseForce files ioctls

end FpgaSsd.Api
