/-
# Theory.Sessions — what the library believes about the card

Runs of calls of one process, with every answer of `open`, the ioctls and the
status registers left open.

* `openLoop_ok`, `openLoop_last` — the open loop ends with `SSD_OK` when an ioctl
  succeeds, and also when all rounds are used up;
* `opened_is_believed` — the library believes the card open exactly as long as no
  call meets the second case, and no `SSD_recover_open` fails on an opened library;
* `close_is_retryable` — a close can be retried exactly as long as no `IOCTL_CLOSE`
  of `SSD_close` fails.
-/
import FpgaSsd.Api.Process
import FpgaSsd.Lib.Machine

namespace FpgaSsd.Theory

open FpgaSsd.Lib FpgaSsd.Driver FpgaSsd.Api

set_option autoImplicit false

/-! ## The device files -/

/-- Every device file opens. -/
def FilesOpen (files : Nat → Int) : Prop := ∀ i < ssdMaxChannel, 0 ≤ files i

section Files

variable {files fd : Nat → Int}

theorem openFilesFrom_open {n i : Nat} (opens : ∀ j < n, 0 ≤ files (i + j)) :
    (openFilesFrom files n i fd).1 = i + n ∧
      ∀ j, (openFilesFrom files n i fd).2 j = if i ≤ j ∧ j < i + n then files j else fd j := by
  induction n generalizing i fd with
  | zero =>
      constructor
      · rfl
      · intro j
        rw [if_neg (by omega)]
        rfl
  | succ n ih =>
      have first : ¬ files i < 0 := by
        have := opens 0 (by omega)
        rw [Nat.add_zero] at this
        omega
      have rest := @ih (Function.update fd i (files i)) (i + 1) fun j below => by
        have := opens (j + 1) (by omega)
        rwa [← Nat.add_assoc, Nat.add_right_comm] at this
      simp only [openFilesFrom, first, if_false]
      constructor
      · rw [rest.1]
        omega
      · intro j
        rw [rest.2]
        by_cases here : j = i
        · subst here
          rw [if_neg (by omega), if_pos (by omega), Function.update_self]
        · rw [Function.update_of_ne here]
          by_cases inside : i + 1 ≤ j ∧ j < i + 1 + n
          · rw [if_pos inside, if_pos (by omega)]
          · rw [if_neg inside, if_neg (by omega)]

theorem openFilesFrom_stops {n i j : Nat} (below : j < n) (fails : files (i + j) < 0) :
    (openFilesFrom files n i fd).1 < i + n := by
  induction n generalizing i j fd with
  | zero => omega
  | succ n ih =>
      simp only [openFilesFrom]
      split
      · simp only
        omega
      · rename_i first
        cases j with
        | zero => exact absurd fails first
        | succ j =>
            have := @ih (Function.update fd i (files i)) (i + 1) j (by omega) (by
              rwa [Nat.add_right_comm, Nat.add_assoc])
            omega

theorem openFiles_count : (openFiles files fd).1 = ssdMaxChannel ↔ FilesOpen files := by
  constructor
  · intro all i below
    by_contra negative
    have stops := @openFilesFrom_stops files (fun i => if i < ssdMaxChannel then -1 else fd i)
      ssdMaxChannel 0 i below (by
        rw [Nat.zero_add]
        omega)
    rw [Nat.zero_add] at stops
    exact absurd all (Nat.ne_of_lt stops)
  · intro opens
    have all := (@openFilesFrom_open files (fun i => if i < ssdMaxChannel then -1 else fd i)
      ssdMaxChannel 0 fun j below => by
        rw [Nat.zero_add]
        exact opens j below).1
    rwa [Nat.zero_add] at all

theorem openFiles_fd (opens : FilesOpen files) {i : Nat} (below : i < ssdMaxChannel) :
    (openFiles files fd).2 i = files i := by
  have all := (@openFilesFrom_open files (fun i => if i < ssdMaxChannel then -1 else fd i)
    ssdMaxChannel 0 fun j below => by
      rw [Nat.zero_add]
      exact opens j below).2 i
  rwa [if_pos (by omega)] at all

end Files

/-! ## The open loop -/

/-- The ioctl of the round fails and its reconfiguration succeeds. -/
def Repeats (r : Round) : Prop :=
  r.ioctl ≠ ssdOk ∧ r.ioctl ≠ errNotClosed ∧ cfgS6Times r.cfg = ssdOk

/-- The ioctl of one of the rounds `k`, .., `k + n - 1` succeeds, after rounds that
are repeated. -/
def OpensFrom (rounds : Nat → Round) (n k : Nat) : Prop :=
  ∃ j < n, (rounds (k + j)).ioctl = ssdOk ∧ ∀ i < j, Repeats (rounds (k + i))

/-- All rounds are repeated. -/
def ExhaustsFrom (rounds : Nat → Round) (n k : Nat) : Prop := ∀ j < n, Repeats (rounds (k + j))

abbrev Opens (rounds : Nat → Round) : Prop := OpensFrom rounds 5 0

abbrev Exhausts (rounds : Nat → Round) : Prop := ExhaustsFrom rounds 5 0

/-- The result of the last of the ioctls of some kinds. -/
def lastResult (kinds : IoctlKind → Bool) (log : List Issued) : Option Int :=
  ((log.filter fun e => kinds e.kind).getLast?).map Issued.ret

theorem lastResult_append (kinds : IoctlKind → Bool) (log later : List Issued) :
    lastResult kinds (log ++ later) = (lastResult kinds later).or (lastResult kinds log) := by
  simp only [lastResult, List.filter_append, List.getLast?_append]
  cases (later.filter fun e => kinds e.kind).getLast? <;> rfl

theorem lastResult_cons {kinds : IoctlKind → Bool} {e : Issued} (log : List Issued)
    (here : kinds e.kind = true) :
    lastResult kinds (e :: log) = (lastResult kinds log).or (some e.ret) := by
  have split := lastResult_append kinds [e] log
  rw [List.singleton_append] at split
  rw [split]
  congr 1
  simp [lastResult, here]

section Rounds

variable {kind : IoctlKind} {fd : Int} {rounds : Nat → Round} {n k : Nat}

theorem opensFrom_succ : OpensFrom rounds (n + 1) k ↔ (rounds k).ioctl = ssdOk ∨
    Repeats (rounds k) ∧ OpensFrom rounds n (k + 1) := by
  constructor
  · rintro ⟨j, below, opens, before⟩
    cases j with
    | zero => exact .inl opens
    | succ j =>
        refine .inr ⟨before 0 (by omega), j, by omega, ?_, fun i less => ?_⟩
        · rwa [Nat.add_right_comm, Nat.add_assoc]
        · have := before (i + 1) (by omega)
          rwa [← Nat.add_assoc, Nat.add_right_comm] at this
  · rintro (opens | ⟨repeats, j, below, opens, before⟩)
    · exact ⟨0, by omega, opens, fun i less => absurd less (by omega)⟩
    · refine ⟨j + 1, by omega, ?_, fun i less => ?_⟩
      · rwa [← Nat.add_assoc, Nat.add_right_comm]
      · cases i with
        | zero => exact repeats
        | succ i =>
            have := before i (by omega)
            rwa [Nat.add_right_comm, Nat.add_assoc] at this

theorem exhaustsFrom_succ : ExhaustsFrom rounds (n + 1) k ↔
    Repeats (rounds k) ∧ ExhaustsFrom rounds n (k + 1) := by
  constructor
  · intro all
    refine ⟨all 0 (by omega), fun j below => ?_⟩
    have := all (j + 1) (by omega)
    rwa [← Nat.add_assoc, Nat.add_right_comm] at this
  · rintro ⟨first, rest⟩ j below
    cases j with
    | zero => exact first
    | succ j =>
        have := rest j (by omega)
        rwa [Nat.add_right_comm, Nat.add_assoc] at this

/-- The loop ends with `SSD_OK` when an ioctl succeeds or the rounds are used up. -/
theorem openLoop_ok : (openLoop kind fd rounds n k ssdOk).1 = ssdOk ↔
    OpensFrom rounds n k ∨ ExhaustsFrom rounds n k := by
  induction n generalizing k with
  | zero => simp [openLoop, ExhaustsFrom]
  | succ n ih =>
      rw [opensFrom_succ, exhaustsFrom_succ]
      simp only [openLoop]
      by_cases ends : (rounds k).ioctl = ssdOk ∨ (rounds k).ioctl = errNotClosed
      · rw [if_pos ends]
        constructor
        · exact fun ok => .inl (.inl ok)
        · rintro ((ok | ⟨repeats, -⟩) | ⟨repeats, -⟩)
          · exact ok
          · exact absurd ends (not_or.2 ⟨repeats.1, repeats.2.1⟩)
          · exact absurd ends (not_or.2 ⟨repeats.1, repeats.2.1⟩)
      · rw [if_neg ends]
        obtain ⟨notOk, notClosed⟩ := not_or.1 ends
        by_cases cfg : cfgS6Times (rounds k).cfg = ssdOk
        · have repeats : Repeats (rounds k) := ⟨notOk, notClosed, cfg⟩
          rw [if_neg (not_not.2 cfg), cfg]
          simp only [ih, notOk, repeats, true_and, false_or]
        · rw [if_pos cfg]
          constructor
          · exact fun ok => absurd ok cfg
          · rintro ((ok | ⟨repeats, -⟩) | ⟨repeats, -⟩)
            · exact absurd ok notOk
            · exact absurd repeats.2.2 cfg
            · exact absurd repeats.2.2 cfg

/-- The last ioctl of the loop is the one that succeeds, or a failure. -/
theorem openLoop_last {kinds : IoctlKind → Bool} (counts : kinds kind = true) :
    (OpensFrom rounds n k →
      lastResult kinds (openLoop kind fd rounds n k ssdOk).2 = some ssdOk) ∧
    (¬ OpensFrom rounds n k → ∀ r,
      lastResult kinds (openLoop kind fd rounds n k ssdOk).2 = some r → r ≠ ssdOk) ∧
    (0 < n → (lastResult kinds (openLoop kind fd rounds n k ssdOk).2).isSome = true) := by
  induction n generalizing k with
  | zero =>
      refine ⟨?_, ?_, ?_⟩
      · rintro ⟨j, below, -⟩
        omega
      · exact fun _ r last => by cases last
      · omega
  | succ n ih =>
      rw [opensFrom_succ]
      simp only [openLoop]
      have single : ∀ r, lastResult kinds [(⟨kind, fd, r⟩ : Issued)] = some r :=
        fun r => lastResult_cons [] counts
      by_cases ends : (rounds k).ioctl = ssdOk ∨ (rounds k).ioctl = errNotClosed
      · rw [if_pos ends, single]
        refine ⟨?_, ?_, fun _ => rfl⟩
        · rintro (ok | ⟨repeats, -⟩)
          · rw [ok]
          · exact absurd ends (not_or.2 ⟨repeats.1, repeats.2.1⟩)
        · rintro fails r ⟨⟩ ok
          exact fails (.inl ok)
      · rw [if_neg ends]
        obtain ⟨notOk, notClosed⟩ := not_or.1 ends
        by_cases cfg : cfgS6Times (rounds k).cfg = ssdOk
        · have repeats : Repeats (rounds k) := ⟨notOk, notClosed, cfg⟩
          rw [if_neg (not_not.2 cfg), cfg]
          simp only [notOk, repeats, true_and, false_or]
          rw [lastResult_cons _ counts]
          obtain ⟨opens, fails, -⟩ := @ih (k + 1)
          refine ⟨fun opened => ?_, fun failed r last => ?_, fun _ => ?_⟩
          · rw [opens opened]
            rfl
          · cases rest : lastResult kinds (openLoop kind fd rounds n (k + 1) ssdOk).2 with
            | none =>
                rw [rest] at last
                cases last
                exact notOk
            | some r' =>
                rw [rest] at last
                cases last
                exact fails failed _ rest
          · cases lastResult kinds (openLoop kind fd rounds n (k + 1) ssdOk).2 <;> rfl
        · rw [if_pos cfg, single]
          refine ⟨?_, ?_, fun _ => rfl⟩
          · rintro (ok | ⟨repeats, -⟩)
            · exact absurd ok notOk
            · exact absurd repeats.2.2 cfg
          · rintro - r ⟨⟩
            exact notOk

end Rounds

/-! ## Open calls -/

/-- `IOCTL_OPEN` and `IOCTL_RECOVER_OPEN`. -/
def isOpen : IoctlKind → Bool
  | .open | .recoverOpen => true
  | _ => false

/-- The ioctls that open the card for a process: these, and the `IOCTL_SYS_INIT` of
`SSD_open_newcard`. -/
def isOpening : IoctlKind → Bool
  | .open | .recoverOpen | .sysInit => true
  | _ => false

section Open

variable {kind : IoctlKind} {w : OpenWorld} {lib : Process} {kinds : IoctlKind → Bool}

theorem apiValue_ok {r : Int} : apiValue r = ssdOk ↔ r = ssdOk := by
  simp only [apiValue, ssdOk]
  omega

/-- A device file does not open. -/
theorem openCard_noFiles (fails : ¬ FilesOpen w.files) : (openCard kind w lib).issued = [] ∧
    (openCard kind w lib).lib.gOpenedFlag = lib.gOpenedFlag ∧
      (openCard kind w lib).ret ≠ some ssdOk := by
  simp only [openCard, ne_eq, openFiles_count, fails, not_false_eq_true, if_true]
  exact ⟨trivial, trivial, fun ok => absurd (Option.some.inj ok) (by decide)⟩

/-- An ioctl succeeds. -/
theorem openCard_opens (files : FilesOpen w.files) (opens : Opens w.rounds) :
    (openCard kind w lib).ret = some ssdOk ∧
      (openCard kind w lib).lib.gOpenedFlag = ssdOpened ∧
      (∀ i < ssdMaxChannel, (openCard kind w lib).lib.gSsdFd i = w.files i) ∧
      (kinds kind = true → lastResult kinds (openCard kind w lib).issued = some ssdOk) := by
  have ok : ∀ fd, (openLoop kind fd w.rounds 5 0 ssdOk).1 = ssdOk :=
    fun fd => openLoop_ok.2 (.inl opens)
  simp only [openCard, ne_eq, openFiles_count, files, not_true_eq_false, if_false, ok]
  exact ⟨trivial, trivial, fun i below => openFiles_fd files below,
    fun counts => (openLoop_last counts).1 opens⟩

/-- All rounds are used up. -/
theorem openCard_exhausts (files : FilesOpen w.files) (exhausts : Exhausts w.rounds) :
    (openCard kind w lib).ret = some ssdOk ∧
      (openCard kind w lib).lib.gOpenedFlag = ssdOpened ∧
      (kinds kind = true → lastResult kinds (openCard kind w lib).issued ≠ some ssdOk) := by
  have ok : ∀ fd, (openLoop kind fd w.rounds 5 0 ssdOk).1 = ssdOk :=
    fun fd => openLoop_ok.2 (.inr exhausts)
  have closed : ¬ Opens w.rounds := by
    rintro ⟨j, below, opened, -⟩
    exact (exhausts j below).1 opened
  simp only [openCard, ne_eq, openFiles_count, files, not_true_eq_false, if_false, ok]
  exact ⟨trivial, trivial, fun counts last => (openLoop_last counts).2.1 closed _ last rfl⟩

/-- No ioctl succeeds, and the last round is not repeated. -/
theorem openCard_fails (files : FilesOpen w.files) (closed : ¬ Opens w.rounds)
    (ends : ¬ Exhausts w.rounds) : (openCard kind w lib).ret ≠ some ssdOk ∧
      (openCard kind w lib).lib.gOpenedFlag = lib.gOpenedFlag ∧
      (kinds kind = true → ∃ r, lastResult kinds (openCard kind w lib).issued = some r ∧
        r ≠ ssdOk) := by
  have notOk : ∀ fd, (openLoop kind fd w.rounds 5 0 ssdOk).1 ≠ ssdOk := by
    intro fd ok
    exact (openLoop_ok.1 ok).elim closed ends
  simp only [openCard, ne_eq, openFiles_count, files, not_true_eq_false, if_false, notOk,
    not_false_eq_true, if_true]
  refine ⟨fun ok => ?_, trivial, fun counts => ?_⟩
  · exact notOk _ (apiValue_ok.1 (Option.some.inj ok))
  · obtain ⟨-, failed, some⟩ :=
      @openLoop_last kind ((openFiles w.files lib.gSsdFd).2 0) w.rounds 5 0 kinds counts
    obtain ⟨r, last⟩ := Option.isSome_iff_exists.1 (some (by omega))
    exact ⟨r, last, failed closed r last⟩

end Open

/-! ## What the library believes -/

/-- A process between two calls, with the ioctls issued so far. -/
structure LibState where
  lib : Process
  log : List Issued

def LibState.initial : LibState := ⟨Process.initial, []⟩

def LibState.next (s : LibState) (call : LibCall) : LibState :=
  ⟨(call.run s.lib).lib, s.log ++ (call.run s.lib).issued⟩

/-- `SSD_open` and `SSD_recover_open`. -/
def IsOpenCall : LibCall → Prop
  | .open _ | .recoverOpen _ => True
  | _ => False

/-- The call does not leave the library believing a card open that is not. -/
structure Believed (s : LibState) (call : LibCall) : Prop where
  /-- An open call that returns `SSD_OK` has had it from its last open ioctl. -/
  returned : IsOpenCall call → (call.run s.lib).ret = some ssdOk →
    lastResult isOpen (call.run s.lib).issued = some ssdOk
  /-- An open call that leaves the flag set has had no other result from its last one. -/
  opened : IsOpenCall call → (s.next call).lib.gOpenedFlag = ssdOpened →
    ∀ r, lastResult isOpen (call.run s.lib).issued = some r → r = ssdOk
  /-- After any call, the flag is set only where the last ioctl of the process that
  opens the card has succeeded. -/
  flag : (s.next call).lib.gOpenedFlag = ssdOpened →
    lastResult isOpening (s.next call).log = some ssdOk

/-- The open loop is not used up, and on an opened library, which `SSD_recover_open`
does not refuse, an ioctl succeeds. -/
def OpenSound (s : LibState) : LibCall → Prop
  | .open w => s.lib.gOpenedFlag ≠ ssdOpened → FilesOpen w.files → ¬ Exhausts w.rounds
  | .recoverOpen w => FilesOpen w.files → ¬ Exhausts w.rounds ∧
      (s.lib.gOpenedFlag = ssdOpened → Opens w.rounds)
  | _ => True

/-- The flag is set only where the last opening ioctl has succeeded. -/
def FlagTrue (s : LibState) : Prop :=
  s.lib.gOpenedFlag = ssdOpened → lastResult isOpening s.log = some ssdOk

section Believed

variable {s : LibState} {call : LibCall}

/-- A call that issues no open ioctl and does not set the flag. -/
theorem believed_quiet (quiet : ¬ IsOpenCall call) (before : FlagTrue s)
    (flag : (s.next call).lib.gOpenedFlag = ssdOpened → s.lib.gOpenedFlag = ssdOpened)
    (issued : ∀ e ∈ (call.run s.lib).issued, isOpening e.kind = false) : Believed s call := by
  constructor
  · exact fun isOpen => absurd isOpen quiet
  · exact fun isOpen => absurd isOpen quiet
  · intro opened
    have none : lastResult isOpening (call.run s.lib).issued = none := by
      have empty : (call.run s.lib).issued.filter (fun e => isOpening e.kind) = [] :=
        List.filter_eq_nil_iff.2 fun e member => by simp [issued e member]
      rw [lastResult, empty]
      rfl
    rw [LibState.next, lastResult_append, none]
    exact before (flag opened)

theorem closeLoop_issued {fd : Int} {ioctls : Nat → Int} {n k : Nat} {ret : Int} :
    ∀ e ∈ (closeLoop fd ioctls n k ret).2, e.kind = .close := by
  induction n generalizing k ret with
  | zero => nofun
  | succ n ih =>
      simp only [closeLoop]
      split
      · simp
      · intro e member
        rcases List.mem_cons.1 member with rfl | later
        · rfl
        · exact ih e later

theorem believed_closeForce {files ioctls : Nat → Int} (before : FlagTrue s) :
    Believed s (.closeForce files ioctls) := by
  apply believed_quiet id before
  · simp only [LibState.next, LibCall.run, ssdCloseForce]
    split <;> exact id
  · intro e member
    simp only [LibCall.run, ssdCloseForce] at member
    split at member
    · cases member
    · rw [closeLoop_issued e member]
      rfl

theorem believed_close {ioctl : Int} (before : FlagTrue s) : Believed s (.close ioctl) := by
  apply believed_quiet id before
  · intro opened
    by_contra closed
    simp only [LibState.next, LibCall.run, ssdClose, ne_eq, closed, not_false_eq_true, if_true]
      at opened
  · intro e member
    simp only [LibCall.run, ssdClose] at member
    split at member
    · cases member
    · split at member <;> (rw [List.mem_singleton.1 member]; rfl)

theorem believed_flush {ioctl : Int} (before : FlagTrue s) : Believed s (.flush ioctl) := by
  apply believed_quiet id before
  · simp only [LibState.next, LibCall.run, ssdFlush]
    split <;> exact id
  · intro e member
    simp only [LibCall.run, ssdFlush] at member
    split at member
    · cases member
    · rw [List.mem_singleton.1 member]
      rfl

theorem believed_openNewcard {files : Nat → Int} {ioctl : Int} (before : FlagTrue s) :
    Believed s (.openNewcard files ioctl) := by
  constructor
  · exact fun isOpen => absurd isOpen id
  · exact fun isOpen => absurd isOpen id
  · simp only [LibState.next, LibCall.run, ssdOpenNewcard]
    split
    · rw [List.append_nil]
      exact before
    rename_i closed
    split
    · exact fun opened => absurd opened closed
    split
    · exact fun opened => absurd opened closed
    · rename_i ok
      intro _
      rw [lastResult_append]
      exact congrArg some (not_not.1 ok)

/-- An open call is believed exactly where the loop does not deceive it. -/
theorem believed_openCard {kind : IoctlKind} {w : OpenWorld} (isOpenCall : IsOpenCall call)
    (counts : isOpen kind = true) (body : call.run s.lib = openCard kind w s.lib)
    (before : FlagTrue s) : Believed s call ↔ (FilesOpen w.files → ¬ Exhausts w.rounds ∧
      (s.lib.gOpenedFlag = ssdOpened → Opens w.rounds)) := by
  have counts' : isOpening kind = true := by cases kind <;> first | rfl | cases counts
  have split : ∀ {r}, lastResult isOpening (call.run s.lib).issued = some r →
      lastResult isOpening (s.next call).log = some r := by
    intro r last
    rw [LibState.next, lastResult_append, last]
    rfl
  by_cases files : FilesOpen w.files
  · by_cases opens : Opens w.rounds
    · obtain ⟨-, -, -, last⟩ := @openCard_opens kind w s.lib isOpen files opens
      obtain ⟨-, -, -, last'⟩ := @openCard_opens kind w s.lib isOpening files opens
      rw [← body] at last last'
      have running : ¬ Exhausts w.rounds := by
        obtain ⟨j, below, opened, -⟩ := opens
        exact fun exhausts => (exhausts j below).1 opened
      constructor
      · exact fun _ _ => ⟨running, fun _ => opens⟩
      · intro _
        constructor
        · exact fun _ _ => last counts
        · intro _ _ r result
          rw [last counts] at result
          exact (Option.some.inj result).symm
        · exact fun _ => split (last' counts')
    by_cases exhausts : Exhausts w.rounds
    · obtain ⟨ok, -, last⟩ := @openCard_exhausts kind w s.lib isOpen files exhausts
      rw [← body] at ok last
      constructor
      · exact fun believed => absurd (believed.returned isOpenCall ok) (last counts)
      · exact fun sound => absurd exhausts (sound files).1
    · obtain ⟨notOk, flag, last⟩ := @openCard_fails kind w s.lib isOpen files opens exhausts
      rw [← body] at notOk flag last
      obtain ⟨r, result, failed⟩ := last counts
      constructor
      · intro believed _
        refine ⟨exhausts, fun opened => ?_⟩
        exact absurd (believed.opened isOpenCall (flag.trans opened) r result) failed
      · intro sound
        have closed : (call.run s.lib).lib.gOpenedFlag ≠ ssdOpened := by
          rw [flag]
          exact fun opened => opens ((sound files).2 opened)
        constructor
        · exact fun _ ok => absurd ok notOk
        · exact fun _ opened => absurd opened closed
        · exact fun opened => absurd opened closed
  · obtain ⟨issued, flag, notOk⟩ := @openCard_noFiles kind w s.lib files
    rw [← body] at issued flag notOk
    constructor
    · exact fun _ opens => absurd opens files
    · intro _
      constructor
      · exact fun _ ok => absurd ok notOk
      · intro _ _ r result
        rw [issued] at result
        cases result
      · intro opened
        rw [LibState.next, issued, List.append_nil]
        exact before (flag.symm.trans opened)

theorem believed_iff (before : FlagTrue s) (call : LibCall) : Believed s call ↔ OpenSound s call := by
  cases call with
  | «open» w =>
      by_cases opened : s.lib.gOpenedFlag = ssdOpened
      · have refused : ssdOpen w s.lib = ⟨some (apiValue errNotClosed), s.lib, []⟩ := if_pos opened
        constructor
        · exact fun _ closed => absurd opened closed
        · intro _
          constructor
          · intro _ ok
            simp only [LibCall.run, refused] at ok
            exact absurd (Option.some.inj ok) (by decide)
          · intro _ _ r result
            simp only [LibCall.run, refused] at result
            cases result
          · intro _
            simp only [LibState.next, LibCall.run, refused, List.append_nil]
            exact before opened
      · have body : (LibCall.open w).run s.lib = openCard .open w s.lib := if_neg opened
        have opens : IsOpenCall (.open w) := trivial
        rw [believed_openCard opens rfl body before]
        simp only [OpenSound, opened, ne_eq, not_false_eq_true, false_imp_iff, and_true,
          true_imp_iff]
  | recoverOpen w =>
      have opens : IsOpenCall (.recoverOpen w) := trivial
      exact believed_openCard opens rfl rfl before
  | openNewcard files ioctl => exact iff_of_true (believed_openNewcard before) trivial
  | flush ioctl => exact iff_of_true (believed_flush before) trivial
  | close ioctl => exact iff_of_true (believed_close before) trivial
  | closeForce files ioctls => exact iff_of_true (believed_closeForce before) trivial

/-- **The library believes the card open exactly while its open loop is sound**: in a
run whose open calls are sound, the next call leaves the belief true if and only if
it is sound. -/
theorem opened_is_believed (run : Reach LibState.next OpenSound LibState.initial s) (call : LibCall) :
    Believed s call ↔ OpenSound s call :=
  run.exact (I := FlagTrue) (fun opened => absurd opened (by decide))
    (fun _ call before sound => ((believed_iff before call).2 sound).flag)
    (fun _ call before => believed_iff before call) call

end Believed

/-- Every status register shows an idle card. -/
def idleReads : Nat → CfgReads :=
  fun _ => ⟨fun _ => ⟨some 0, some 0⟩, fun _ => ⟨some 0, some 0⟩⟩

/-- All files open, every open ioctl returns `ret`, every reconfiguration succeeds. -/
def openWorld (ret : Int) : OpenWorld := ⟨fun i => 3 + i, fun _ => ⟨ret, idleReads⟩, true⟩

theorem openWorld_opens : Opens (openWorld 0).rounds :=
  ⟨0, by decide, rfl, fun _ less => absurd less (Nat.not_lt_zero _)⟩

theorem openWorld_running : ¬ Exhausts (openWorld 0).rounds :=
  fun exhausts => (exhausts 0 (by decide)).1 rfl

/-- An open that succeeds, and a recovery open on top of it that does. -/
theorem opened_is_believed_reopened :
    Believed (LibState.initial.next (.open (openWorld 0))) (.recoverOpen (openWorld 0)) := by
  have sound : OpenSound LibState.initial (.open (openWorld 0)) := fun _ _ => openWorld_running
  have again : OpenSound (LibState.initial.next (.open (openWorld 0))) (.recoverOpen (openWorld 0)) :=
    fun _ => ⟨openWorld_running, fun _ => openWorld_opens⟩
  exact (opened_is_believed (.step .here _ sound) _).2 again

/-- **Five failing open ioctls open the library** when the card can be reconfigured
after each of them. -/
theorem used_up_rounds_open :
    (ssdOpen (openWorld (-1)) Process.initial).ret = some ssdOk ∧
      (ssdOpen (openWorld (-1)) Process.initial).lib.gOpenedFlag = ssdOpened ∧
      (ssdOpen (openWorld (-1)) Process.initial).issued =
        List.replicate 5 ⟨.open, 3, -1⟩ ∧
      ¬ Believed LibState.initial (.open (openWorld (-1))) := by
  have issued : (ssdOpen (openWorld (-1)) Process.initial).issued =
      List.replicate 5 ⟨.open, 3, -1⟩ := by decide
  have ok : (ssdOpen (openWorld (-1)) Process.initial).ret = some ssdOk := by decide
  refine ⟨ok, by decide, issued, fun believed => ?_⟩
  have last := believed.returned trivial ok
  simp only [LibCall.run, LibState.initial, issued] at last
  exact absurd last (by decide)

/-! ## Closing again -/

/-- What an ioctl does to the driver's being open for the process. -/
def driverStep (opened : Bool) (e : Issued) : Bool :=
  if e.ret = ssdOk then
    if isOpen e.kind then true else if e.kind = .close then false else opened
  else opened

/-- An open ioctl has succeeded, and no `IOCTL_CLOSE` since. -/
def driverOpen (log : List Issued) : Bool := log.foldl driverStep false

/-- A process with the descriptors of the open call that opened the driver. -/
structure Holding where
  base : LibState
  descriptors : Nat → Int

def Holding.initial : Holding := ⟨LibState.initial, fun _ => 0⟩

def Holding.next (s : Holding) (call : LibCall) : Holding where
  base := s.base.next call
  descriptors := match call with
    | .open w =>
        if lastResult isOpen (call.run s.base.lib).issued = some ssdOk then w.files
        else s.descriptors
    | _ => s.descriptors

/-- While the driver is open the flag is set and the descriptors are held. -/
def DescriptorsHeld (s : Holding) : Prop := driverOpen s.base.log = true →
  s.base.lib.gOpenedFlag = ssdOpened ∧
    ∀ i < ssdMaxChannel, s.base.lib.gSsdFd i = s.descriptors i

/-- The call leaves a close possible. -/
structure Retryable (s : Holding) (call : LibCall) : Prop where
  held : DescriptorsHeld (s.next call)
  /-- A close that fails changes nothing. -/
  same : ∀ ioctl, call = .close ioctl → ioctl ≠ ssdOk → driverOpen s.base.log = true →
    (call.run s.base.lib).lib = s.base.lib
  /-- The next flush or close reaches the driver. -/
  reaches : driverOpen (s.next call).base.log = true → ∀ ioctl,
    (ssdFlush ioctl (s.next call).base.lib).issued =
        [⟨.flush, (s.next call).descriptors 0, ioctl⟩] ∧
      (ssdClose ioctl (s.next call).base.lib).issued =
        [⟨.close, (s.next call).descriptors 0, ioctl⟩]

/-- `SSD_open`, `SSD_flush` and `SSD_close`. -/
def IsBasicCall : LibCall → Prop
  | .open _ | .flush _ | .close _ => True
  | _ => False

/-- `IOCTL_CLOSE` does not fail while the driver is open. -/
def CloseSound (s : Holding) (call : LibCall) : Prop :=
  IsBasicCall call ∧ ∀ ioctl, call = .close ioctl → driverOpen s.base.log = true → ioctl = ssdOk

section Closing

variable {s : Holding} {call : LibCall} {log : List Issued}

theorem driverOpen_append {later : List Issued} (quiet : ∀ e ∈ later, driverStep true e = true ∧
    driverStep false e = false) : driverOpen (log ++ later) = driverOpen log := by
  simp only [driverOpen, List.foldl_append]
  generalize log.foldl driverStep false = opened
  induction later with
  | nil => rfl
  | cons e later ih =>
      have here := quiet e (List.mem_cons_self ..)
      have step : driverStep opened e = opened := by
        cases opened
        · exact here.2
        · exact here.1
      rw [List.foldl_cons, step]
      exact ih fun e member => quiet e (List.mem_cons_of_mem _ member)

theorem driverStep_failed {e : Issued} (failed : e.ret ≠ ssdOk) :
    driverStep true e = true ∧ driverStep false e = false := by
  simp only [driverStep, failed, if_false, and_self]

/-- Without a success every ioctl of the loop is a failure. -/
theorem openLoop_failed {kind : IoctlKind} {fd : Int} {rounds : Nat → Round} {n k : Nat}
    (closed : ¬ OpensFrom rounds n k) :
    ∀ e ∈ (openLoop kind fd rounds n k ssdOk).2, e.ret ≠ ssdOk := by
  induction n generalizing k with
  | zero => nofun
  | succ n ih =>
      rw [opensFrom_succ] at closed
      obtain ⟨notOk, rest⟩ := not_or.1 closed
      simp only [openLoop]
      split
      · simpa using notOk
      rename_i ends
      split
      · simpa using notOk
      rename_i cfg
      have repeats : Repeats (rounds k) := ⟨notOk, (not_or.1 ends).2, not_not.1 cfg⟩
      rw [not_not.1 cfg]
      intro e member
      rcases List.mem_cons.1 member with rfl | later
      · exact notOk
      · exact ih (fun opens => rest ⟨repeats, opens⟩) e later

theorem openCard_failed {kind : IoctlKind} {w : OpenWorld} {lib : Process}
    (closed : ¬ (FilesOpen w.files ∧ Opens w.rounds)) :
    ∀ e ∈ (openCard kind w lib).issued, e.ret ≠ ssdOk := by
  by_cases files : FilesOpen w.files
  · have failed : ¬ Opens w.rounds := fun opens => closed ⟨files, opens⟩
    simp only [openCard, ne_eq, openFiles_count, files, not_true_eq_false, if_false]
    split <;> exact openLoop_failed failed
  · rw [(openCard_noFiles files).1]
    nofun

theorem held_open {w : OpenWorld} (before : DescriptorsHeld s) : DescriptorsHeld (s.next (.open w)) := by
  by_cases opened : s.base.lib.gOpenedFlag = ssdOpened
  · have refused : ssdOpen w s.base.lib = ⟨some (apiValue errNotClosed), s.base.lib, []⟩ :=
      if_pos opened
    intro isOpen
    simp only [Holding.next, LibState.next, LibCall.run, refused, List.append_nil] at isOpen ⊢
    exact before isOpen
  · have body : ssdOpen w s.base.lib = openCard .open w s.base.lib := if_neg opened
    simp only [DescriptorsHeld, Holding.next, LibState.next, LibCall.run, body]
    by_cases success : FilesOpen w.files ∧ Opens w.rounds
    · obtain ⟨-, flag, fds, last⟩ := @openCard_opens .open w s.base.lib isOpen success.1 success.2
      rw [if_pos (last rfl)]
      exact fun _ => ⟨flag, fds⟩
    · rw [driverOpen_append fun e member => driverStep_failed (openCard_failed success e member)]
      exact fun isOpen => absurd (before isOpen).1 opened

theorem held_flush {ioctl : Int} (before : DescriptorsHeld s) : DescriptorsHeld (s.next (.flush ioctl)) := by
  simp only [DescriptorsHeld, Holding.next, LibState.next, LibCall.run, ssdFlush]
  split
  · rw [List.append_nil]
    exact before
  · have quiet : driverOpen (s.base.log ++ [⟨.flush, s.base.lib.gSsdFd 0, ioctl⟩]) =
        driverOpen s.base.log := by
      apply driverOpen_append
      simp [driverStep, isOpen]
    rw [quiet]
    exact before

theorem held_close {ioctl : Int} (before : DescriptorsHeld s)
    (sound : driverOpen s.base.log = true → ioctl = ssdOk) : DescriptorsHeld (s.next (.close ioctl)) := by
  simp only [DescriptorsHeld, Holding.next, LibState.next, LibCall.run, ssdClose]
  split
  · rw [List.append_nil]
    exact before
  split
  · rename_i failed
    rw [driverOpen_append (by simpa using driverStep_failed failed)]
    exact fun opened => absurd (sound opened) failed
  · rename_i ok
    have closed : driverOpen (s.base.log ++ [⟨.close, s.base.lib.gSsdFd 0, ioctl⟩]) = false := by
      simp only [driverOpen, List.foldl_append, List.foldl_cons, List.foldl_nil, driverStep,
        not_not.1 ok]
      rfl
    rw [closed]
    exact Bool.noConfusion

/-- A close that fails while the driver is open loses the flag. -/
theorem close_fails {ioctl : Int} (before : DescriptorsHeld s) (opened : driverOpen s.base.log = true)
    (failed : ioctl ≠ ssdOk) : ¬ DescriptorsHeld (s.next (.close ioctl)) := by
  intro held
  have flag := (before opened).1
  simp only [DescriptorsHeld, Holding.next, LibState.next, LibCall.run, ssdClose, flag, ne_eq,
    not_true_eq_false, if_false, failed, not_false_eq_true, if_true] at held
  have still : driverOpen (s.base.log ++ [⟨.close, s.base.lib.gSsdFd 0, ioctl⟩]) = true := by
    rw [driverOpen_append (by simpa using driverStep_failed failed)]
    exact opened
  exact absurd (held still).1 (by decide)

theorem DescriptorsHeld.reaches (held : DescriptorsHeld s) (opened : driverOpen s.base.log = true) (ioctl : Int) :
    (ssdFlush ioctl s.base.lib).issued = [⟨.flush, s.descriptors 0, ioctl⟩] ∧
      (ssdClose ioctl s.base.lib).issued = [⟨.close, s.descriptors 0, ioctl⟩] := by
  obtain ⟨flag, fds⟩ := held opened
  have first := fds 0 (by decide)
  constructor
  · simp only [ssdFlush, flag, ne_eq, not_true_eq_false, if_false, first]
  · simp only [ssdClose, flag, ne_eq, not_true_eq_false, if_false, first]
    split <;> rfl

theorem retryable_iff (basic : IsBasicCall call) (before : DescriptorsHeld s) :
    Retryable s call ↔ CloseSound s call := by
  constructor
  · intro retryable
    refine ⟨basic, ?_⟩
    rintro ioctl rfl opened
    by_contra failed
    exact close_fails before opened failed retryable.held
  · rintro ⟨-, sound⟩
    have held : DescriptorsHeld (s.next call) := by
      cases call with
      | «open» w => exact held_open before
      | flush ioctl => exact held_flush before
      | close ioctl => exact held_close before (sound ioctl rfl)
      | _ => cases basic
    constructor
    · exact held
    · exact fun ioctl here failed opened => absurd (sound ioctl here opened) failed
    · exact held.reaches

/-- **A close can be retried exactly while none fails**: in a run of opens, flushes and
closes in which no `IOCTL_CLOSE` fails while the driver is open, the next call leaves
the library as open as the driver if and only if it is no such close. -/
theorem close_is_retryable (run : Reach Holding.next CloseSound Holding.initial s)
    (basic : IsBasicCall call) : Retryable s call ↔ CloseSound s call := by
  apply retryable_iff basic
  apply run.invariant
  · exact fun opened => absurd opened (by decide)
  · exact fun t c before sound => ((retryable_iff sound.1 before).2 sound).held

end Closing

/-- An open, a flush that fails, and a close. -/
theorem close_is_retryable_once :
    Retryable ((Holding.initial.next (.open (openWorld 0))).next (.flush (-1))) (.close 0) := by
  have opens : CloseSound Holding.initial (.open (openWorld 0)) := ⟨trivial, nofun⟩
  have flushes : ∀ s, CloseSound s (.flush (-1)) := fun _ => ⟨trivial, nofun⟩
  have basic : IsBasicCall (.close 0) := trivial
  refine (close_is_retryable (.step (.step .here _ opens) _ (flushes _)) basic).2 ⟨basic, ?_⟩
  rintro ioctl ⟨⟩ _
  rfl

/-- **A close that fails closes the library**: after an open and a close whose ioctl
fails the driver is open, and neither a flush nor a close reaches it. -/
theorem failed_close_is_final :
    driverOpen ((Holding.initial.next (.open (openWorld 0))).next (.close (-1))).base.log = true ∧
      ((Holding.initial.next (.open (openWorld 0))).next (.close (-1))).base.lib.gOpenedFlag =
        ssdClosed ∧
      (∀ ioctl, (ssdClose ioctl
        ((Holding.initial.next (.open (openWorld 0))).next (.close (-1))).base.lib).issued = []) ∧
      ¬ Retryable (Holding.initial.next (.open (openWorld 0))) (.close (-1)) := by
  have opened : driverOpen (Holding.initial.next (.open (openWorld 0))).base.log = true := by decide
  have held : DescriptorsHeld (Holding.initial.next (.open (openWorld 0))) :=
    held_open fun opened => absurd opened (by decide)
  refine ⟨by decide, by decide, fun ioctl => rfl, fun retryable => ?_⟩
  exact close_fails held opened (by decide) retryable.held

end FpgaSsd.Theory
