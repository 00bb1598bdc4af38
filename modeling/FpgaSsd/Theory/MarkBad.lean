/-
# Theory.MarkBad — marking the bad blocks of an id

`ssd_mark_bad_block` with `PARAM_ID` deletes the id, erases its extent and frees it, and
only then reads the two tables and writes the marks. Its runs are looked at with a log of
the commands they complete.

* `MarkBadEffect` — what a run answers, the books it leaves, and its log;
* `ssdMarkBadBlock_effect` — every run has one of the effects;
* `mark_bad_all_or_nothing` — a run is all or nothing if and only if each of its table
  transfers is answered with success and has moved its table.
-/
import FpgaSsd.Lib.History
import FpgaSsd.Theory.NoTrace

namespace FpgaSsd.Theory

open FpgaSsd.Lib FpgaSsd.Driver

set_option autoImplicit false

/-! ## The log -/

/-- A completed command, with its channel before it took effect and behind it. -/
structure Completed where
  cmd : Command
  ret : Int
  before : Channel
  after : Channel

def logCommand (a : Act) (r : a.Reply) (d d' : Device) (log : List Completed) : List Completed :=
  match a, r with
  | .chan c .await, ret =>
      match (d.ch c).outstanding with
      | some cmd => log ++ [⟨Command.ofWord cmd, ret, d.ch c, d'.ch c⟩]
      | none => log
  | _, _ => log

/-- The runs of a program with the log of its commands. -/
abbrev LoggedRun {α : Type} (p : Drv α) (d : Device) (value : α) (d' : Device) (log : List Completed) :
    Prop :=
  Runs (recorded (Device.perform 0) logCommand) (fun _ _ _ => True) p (d, []) value (d', log)

/-- The triple with the log. -/
abbrev Logs {α : Type} (p : Drv α) (post : α → Device → List Completed → Prop) (d : Device)
    (log : List Completed) : Prop :=
  Traced (Device.perform 0) logCommand anyOutcome p post d log

/-- Actions that are not logged. -/
def Unlogged (a : Act) : Prop := ∀ r d d' log, logCommand a r d d' log = log

section Logs

variable {c : Nat} {d : Device} {log : List Completed}

/-- A completed command is logged. -/
theorem channelOp_logs (cmd : Nat) :
    Logs (channelOp c cmd) (fun ret d' log' => ledger d' = ledger d ∧ ∃ e : Completed, log' = log ++ [e] ∧
      e.cmd = Command.ofWord cmd ∧ e.ret = ret ∧ e.before.kbuf = (d.ch c).kbuf ∧ e.after = d'.ch c) d log := by
  have issued : Holds anyOutcome (Drv.chan c (.issue cmd)) (fun _ d' =>
      d' = d.setCh c { d.ch c with outstanding := some cmd }) d := Holds.chan fun o r ch _ step => by
    cases step
    rfl
  refine Traced.seq (Traced.quiet ⟨fun _ _ _ _ => rfl, fun _ => trivial⟩ issued) ?_
  rintro _ d1 log1 ⟨rfl, rfl⟩
  apply Traced.action
  intro o r d2 _ step
  obtain ⟨⟨r', ch⟩, acted, eq⟩ := Option.map_eq_some_iff.1 step
  cases eq
  rw [Device.setCh_ch_same] at acted
  obtain ⟨cmd', kbuf, flash, out, done, rfl, rfl⟩ := Channel.perform_await acted
  cases out
  rw [Device.setCh_setCh]
  let e : Completed := ⟨Command.ofWord cmd, o.ret.toInt, { d.ch c with outstanding := some cmd },
    { d.ch c with outstanding := none, kbuf := kbuf, flash := flash }⟩
  refine ⟨ledger_setCh_same rfl rfl, e, ?_, rfl, rfl, rfl, (Device.setCh_ch_same ..).symm⟩
  simp only [logCommand, Device.setCh_ch_same, e]

end Logs

/-! ## The tables -/

section Entries

variable {m : Mem} {b i : Nat}

/-- Bit 15 of an entry. -/
def withBadFlag (entry : Nat) : Nat := entry % 32768 + 32768

theorem withBadFlag_idem (entry : Nat) : withBadFlag (withBadFlag entry) = withBadFlag entry := by
  simp only [withBadFlag]
  omega

theorem tableEntry_setBadFlag (m : Mem) (b i : Nat) :
    tableEntry (setBadFlag m b) i = if i = b then withBadFlag (tableEntry m i) else tableEntry m i := by
  unfold setBadFlag tableEntry
  by_cases same : i = b
  · subst same
    rw [if_pos rfl, getLE_putLE_of_lt _ (by omega)]
    rfl
  · rw [if_neg same, getLE_putLE_disjoint _ (by omega)]

theorem tableEntry_markBlocks (blocks : List Nat) (m : Mem) (valid : i ≠ invalidValue) :
    (i ∈ blocks → tableEntry (markBlocks blocks m) i = withBadFlag (tableEntry m i)) ∧
      (i ∉ blocks → tableEntry (markBlocks blocks m) i = tableEntry m i) := by
  induction blocks generalizing m with
  | nil => exact ⟨fun member => absurd member List.not_mem_nil, fun _ => rfl⟩
  | cons b rest ih =>
      -- the table behind the first mark
      obtain ⟨inside, outside⟩ := ih (if b ≠ invalidValue then setBadFlag m b else m)
      have first : tableEntry (if b ≠ invalidValue then setBadFlag m b else m) i =
          if i = b then withBadFlag (tableEntry m i) else tableEntry m i := by
        split
        · exact tableEntry_setBadFlag m b i
        · rename_i invalid
          rw [if_neg fun same => valid (same.trans (not_not.1 invalid))]
      rw [first] at inside outside
      constructor
      · intro member
        by_cases later : i ∈ rest
        · refine (inside later).trans ?_
          split
          · exact withBadFlag_idem _
          · rfl
        · obtain rfl : i = b := (List.mem_cons.1 member).resolve_right later
          exact (outside later).trans (if_pos rfl)
      · intro absent
        obtain ⟨apart, later⟩ := not_or.1 (List.mem_cons.not.1 absent)
        exact (outside later).trans (if_neg apart)

/-- The physical blocks are those of the marked logical blocks. -/
theorem mem_physicalBlocks {marks : List Nat} (valid : i ≠ invalidValue)
    (only : ∀ mark ∈ marks, mark = badBlock ∨ mark = invalidValue) (m : Mem) (b start : Nat) :
    i ∈ physicalBlocks m b start marks ↔
      ∃ k : Nat, marks[k]? = some badBlock ∧ addrEntryBlock m (b + (start + k)) = i := by
  induction marks generalizing start with
  | nil => simp [physicalBlocks]
  | cons mark rest ih =>
      have later := ih (fun mark member => only mark (List.mem_cons_of_mem _ member)) (start + 1)
      have shape := only mark (List.mem_cons_self ..)
      rw [physicalBlocks, List.mem_cons, later]
      constructor
      · rintro (first | ⟨k, marked, entry⟩)
        · split at first
          · rename_i bad
            exact ⟨0, by rw [bad]; rfl, first.symm⟩
          · rename_i good
            exact absurd (first.trans (shape.resolve_left good)) valid
        · exact ⟨k + 1, marked, by rwa [show start + (k + 1) = start + 1 + k by omega]⟩
      · rintro ⟨k, marked, entry⟩
        cases k with
        | zero =>
            left
            rw [if_pos (Option.some.inj marked)]
            exact entry.symm
        | succ k => exact .inr ⟨k, marked, by rwa [show start + 1 + k = start + (k + 1) by omega]⟩

/-- Tables that agree in their bytes have the same entries. -/
theorem tableEntry_congr {m m' : Mem} (same : ∀ j < ssdTableSize, m j = m' j) (small : i < 8192) :
    tableEntry m i = tableEntry m' i := by
  unfold tableEntry
  refine getLE_congr fun k below => same _ ?_
  simp only [ssdTableSize]
  omega

end Entries

/-! ## The effect of a run -/

/-- A transfer of a table between the card and the buffer. -/
def Completed.IsTable (e : Completed) : Prop :=
  e.cmd.flag = flagReadAddrTable ∨ e.cmd.flag = flagReadEraseTable ∨ e.cmd.flag = flagWriteEraseTable

/-- A transfer has moved its table, the whole of it. -/
structure Completed.Moved (e : Completed) : Prop where
  addr : e.cmd.flag = flagReadAddrTable → ∀ j < ssdTableSize, e.after.kbuf j = e.before.flash.addrTable j
  erase : e.cmd.flag = flagReadEraseTable → ∀ j < ssdTableSize, e.after.kbuf j = e.before.flash.eraseTable j
  write : e.cmd.flag = flagWriteEraseTable → ∀ j < ssdTableSize, e.after.flash.eraseTable j = e.before.kbuf j

def Completed.mark (e : Completed) : Nat := if e.ret ≠ ssdOk then badBlock else invalidValue

/-- Physical block `i` belongs to a marked logical block, by the address table `addr`. -/
def Marked (addr : Mem) (block : Nat) (marks : List Nat) (i : Nat) : Prop :=
  ∃ k : Nat, marks[k]? = some badBlock ∧ addrEntryBlock addr (block + k) = i

/-- The table that is written has the flags of the marked blocks set in the one that was read. -/
structure MarksWritten (read written : Mem) (marked : Nat → Prop) : Prop where
  set : ∀ i < ssdMaxPhyblocksPerChannel, marked i →
    tableEntry written i = withBadFlag (tableEntry read i)
  kept : ∀ i < ssdMaxPhyblocksPerChannel, ¬ marked i → tableEntry written i = tableEntry read i

/-- The table transfers of a run, up to the first that fails, and what it answers. -/
inductive Transfers (block : Nat) (marks : List Nat) : List Completed → Int → Prop
  | addrFailed (a : Completed) (addr : a.cmd.flag = flagReadAddrTable) (failed : a.ret ≠ ssdOk) :
      Transfers block marks [a] a.ret
  | eraseFailed (a e : Completed) (addr : a.cmd.flag = flagReadAddrTable)
      (erase : e.cmd.flag = flagReadEraseTable) (failed : e.ret ≠ ssdOk) : Transfers block marks [a, e] e.ret
  | written (a e w : Completed) (addr : a.cmd.flag = flagReadAddrTable) (addrOk : a.ret = ssdOk)
      (erase : e.cmd.flag = flagReadEraseTable) (eraseOk : e.ret = ssdOk)
      (write : w.cmd.flag = flagWriteEraseTable)
      (done : MarksWritten e.after.kbuf w.before.kbuf (Marked a.after.kbuf block marks)) :
      Transfers block marks [a, e, w] w.ret

section Transfers

variable {c : Nat} {d : Device} {log : List Completed}

theorem ofWord_tableTransfer {flag : Nat} (small : flag < 32) :
    Command.ofWord (cmdValue 0 addrTablePages flag) = ⟨0, addrTablePages, flag⟩ :=
  decode_cmdValue (by decide) (by decide) small

/-- A read of a table is logged with what it leaves in the buffer. -/
theorem ramTableRead_logs (type : Nat) :
    Logs (ramTableRead ⟨c, type⟩) (fun ret d' log' => ledger d' = ledger d ∧ ∃ e : Completed,
      log' = log ++ [e] ∧ e.ret = ret ∧
      e.cmd.flag = (if type = tableEraseType then flagReadEraseTable else flagReadAddrTable) ∧
      (d'.ch c).kbuf = e.after.kbuf) d log := by
  refine (channelOp_logs _).weaken ?_
  rintro ret d' _ ⟨same, e, rfl, word, answer, -, after⟩
  refine ⟨same, e, rfl, answer, ?_, by rw [after]⟩
  rw [word, ofWord_tableTransfer (by split <;> decide)]

theorem markBadTables_logs {block : Nat} {marks : List Nat}
    (only : ∀ mark ∈ marks, mark = badBlock ∨ mark = invalidValue) :
    Logs (markBadTables c block marks) (fun ret d' log' => ledger d' = ledger d ∧ ∃ tail,
      log' = log ++ tail ∧ Transfers block marks tail ret) d log := by
  refine Traced.seq (ramTableRead_logs tableAddrType) ?_
  rintro ret d1 log1 ⟨same1, a, rfl, rfl, addr, addrBuffer⟩
  split
  · rename_i failed
    exact Traced.pure ⟨same1, [a], rfl, .addrFailed a addr failed⟩
  rename_i addrOk
  have addrOk := not_not.1 addrOk
  have buffer : Holds anyOutcome (Drv.readKbuf c) (fun m d' => m = (d1.ch c).kbuf ∧ ledger d' = ledger d1) d1 :=
    Holds.chan fun o r ch _ step => by
      cases step
      exact ⟨rfl, ledger_setCh_same rfl rfl⟩
  refine Traced.seq (Traced.quiet ⟨fun _ _ _ _ => rfl, fun _ => trivial⟩ buffer) ?_
  rintro m d2 log2 ⟨⟨rfl, same2⟩, rfl⟩
  refine Traced.seq (ramTableRead_logs tableEraseType) ?_
  rintro ret d3 log3 ⟨same3, e, rfl, rfl, erase, eraseBuffer⟩
  split
  · rename_i failed
    refine Traced.pure ⟨same3.trans (same2.trans same1), [a, e], ?_, .eraseFailed a e addr erase failed⟩
    rw [List.append_assoc]
    rfl
  rename_i eraseOk
  have eraseOk := not_not.1 eraseOk
  have marked : Holds anyOutcome (Drv.modKbuf c (markBlocks (physicalBlocks (d1.ch c).kbuf block 0 marks)))
      (fun _ d' => (d'.ch c).kbuf = markBlocks (physicalBlocks (d1.ch c).kbuf block 0 marks) (d3.ch c).kbuf ∧
        ledger d' = ledger d3) d3 := Holds.chan fun o r ch _ step => by
    cases step
    rw [Device.setCh_ch_same]
    exact ⟨rfl, ledger_setCh_same rfl rfl⟩
  refine Traced.seq (Traced.quiet ⟨fun _ _ _ _ => rfl, fun _ => trivial⟩ marked) ?_
  rintro _ d4 log4 ⟨⟨written, same4⟩, rfl⟩
  refine (channelOp_logs _).weaken ?_
  rintro ret d5 _ ⟨same5, w, rfl, word, rfl, buffer, -⟩
  refine ⟨same5.trans (same4.trans (same3.trans (same2.trans same1))), [a, e, w], by simp only [List.append_assoc]; rfl,
    .written a e w addr addrOk erase eraseOk ?_ ?_⟩
  · rw [word, ofWord_tableTransfer (by decide)]
  -- the marks in the buffer of the write command
  rw [buffer, written, addrBuffer, eraseBuffer]
  have entries : ∀ i < 8192, (i ∈ physicalBlocks a.after.kbuf block 0 marks ↔ Marked a.after.kbuf block marks i) := by
    intro i small
    rw [mem_physicalBlocks (by simp only [invalidValue]; omega) only]
    simp only [Nat.zero_add, Marked]
  constructor
  · intro i small mark
    simp only [ssdMaxPhyblocksPerChannel] at small
    exact (tableEntry_markBlocks _ _ (by simp only [invalidValue]; omega)).1 ((entries i small).2 mark)
  · intro i small clear
    simp only [ssdMaxPhyblocksPerChannel] at small
    refine (tableEntry_markBlocks _ _ (by simp only [invalidValue]; omega)).2 fun member => ?_
    exact clear ((entries i small).1 member)

/-- The read of one logical block. -/
def readBlock (b : Nat) : Command := ⟨b * ssdPagesPerBlock, ssdPagesPerBlock, flagRead⟩

theorem findBadBlocks_logs {block : Nat} (n : Nat) : ∀ (start : Nat) (d : Device) (log : List Completed),
    block + start + n ≤ 2 ^ 20 →
    Logs (findBadBlocks c block start n) (fun marks d' log' => ledger d' = ledger d ∧ ∃ reads,
      log' = log ++ reads ∧ marks = reads.map Completed.mark ∧
      reads.map Completed.cmd = (List.range' start n).map fun k => readBlock (block + k)) d log := by
  induction n with
  | zero => exact fun _ _ log _ => Traced.pure ⟨rfl, [], (List.append_nil log).symm, rfl, rfl⟩
  | succ n ih =>
      intro start d log small
      refine Traced.seq (channelOp_logs _) ?_
      rintro ret d1 _ ⟨same1, e, rfl, cmd, rfl, -, -⟩
      refine Traced.seq (ih (start + 1) _ _ (by omega)) ?_
      rintro rest d2 log2 ⟨same, reads, rfl, rfl, cmds⟩
      have word : Command.ofWord (cmdValue ((block + start) * ssdPagesPerBlock) ssdPagesPerBlock flagRead) =
          readBlock (block + start) :=
        decode_cmdValue (by simp only [ssdPagesPerBlock]; omega) (by decide) (by decide)
      refine Traced.pure ⟨same.trans same1, e :: reads, List.append_assoc .., rfl, ?_⟩
      rw [List.map_cons, cmds, cmd, word, List.range'_succ, List.map_cons]

end Transfers

/-- The blocks of `info` were read, and its extent was erased. -/
structure ReadAndErased (info : IdInfo) (reads : List Completed) (erase : Completed) : Prop where
  reads : reads.map Completed.cmd =
    (List.range' 0 info.len.size).map fun k => readBlock (info.block.val + k)
  erase : erase.cmd.flag = flagErase

/-- What a mark-bad of `id` answers, with the books it leaves and its log. -/
inductive MarkBadEffect (id : BlockId) (s : ChannelSpace) (h : Nat → HashHead) :
    Int → Books → List Completed → Prop
  | refused {ret : Int} {log : List Completed} (failed : ret ≠ ssdOk)
      (clean : ∀ e ∈ log, ¬ e.IsTable ∧ e.ret = ssdOk) : MarkBadEffect id s h ret (s, h) log
  | undone {info : IdInfo} {ret : Int} {reads : List Completed} {erase : Completed}
      (found : find h id = some info) (failed : ret ≠ ssdOk) (before : ReadAndErased info reads erase) :
      MarkBadEffect id s h ret (s, insertNode (removeNode h id) id info) (reads ++ [erase])
  | deleted {info : IdInfo} {ret : Int} {reads tail : List Completed} {erase : Completed}
      (found : find h id = some info) (before : ReadAndErased info reads erase)
      (transfers : Transfers info.block.val (reads.map Completed.mark) tail ret) :
      MarkBadEffect id s h ret (deleteLogicBlock s info, removeNode h id) (reads ++ erase :: tail)

section Effect

variable {c : Nat} {id : BlockId} {d : Device}

theorem reads_noTable {reads : List Completed} {blocks : List Nat}
    (cmds : reads.map Completed.cmd = blocks.map readBlock) : ∀ e ∈ reads, ¬ e.IsTable := by
  intro e member
  have read : e.cmd ∈ blocks.map readBlock := cmds ▸ List.mem_map_of_mem member
  obtain ⟨b, -, same⟩ := List.mem_map.1 read
  simp only [Completed.IsTable, ← same, readBlock]
  decide

theorem marks_only (reads : List Completed) :
    ∀ mark ∈ reads.map Completed.mark, mark = badBlock ∨ mark = invalidValue := by
  intro mark member
  obtain ⟨e, -, rfl⟩ := List.mem_map.1 member
  unfold Completed.mark
  split
  · exact .inl rfl
  · exact .inr rfl

/-- The lookup of an id, unlogged. -/
theorem getIdInfo_quiet : Holds anyOutcome (Drv.getIdInfo c id)
    (fun known d' => known = find (ledger d c).2 id ∧ ledger d' = ledger d) d :=
  Holds.chan fun o r ch _ step => by
    cases step
    exact ⟨rfl, ledger_setCh_same rfl rfl⟩

theorem delIdInfo_quiet {info : IdInfo} (found : find (ledger d c).2 id = some info) :
    Holds anyOutcome (Drv.delIdInfo c id) (fun deleted d' => deleted = some info ∧
      ledger d' = Function.update (ledger d) c ((ledger d c).1, removeNode (ledger d c).2 id)) d := by
  refine Holds.chan fun o r ch _ step => ?_
  have found : lookup ((d.ch c).hash (idHash id)).first id = some info := found
  simp only [Channel.perform, found] at step
  cases step
  exact ⟨rfl, ledger_setCh⟩

theorem setIdInfo_quiet (info : IdInfo) : Holds anyOutcome (Drv.setIdInfo id info) (fun _ d' =>
    ledger d' = Function.update (ledger d) info.channel.val ((ledger d info.channel.val).1,
      insertNode (ledger d info.channel.val).2 id info)) d := by
  refine Holds.chan fun o r ch _ step => ?_
  simp only [Channel.perform] at step
  split at step
  · cases step
  · cases step
    exact ledger_setCh

theorem deleteLogicBlock_quiet (info : IdInfo) : Holds anyOutcome (Drv.deleteLogicBlock info) (fun _ d' =>
    ledger d' = Function.update (ledger d) info.channel.val
      (deleteLogicBlock (ledger d info.channel.val).1 info, (ledger d info.channel.val).2)) d :=
  Holds.seq (Holds.chan fun o r ch _ step => by
    cases step
    exact ledger_setCh) fun _ d' after => Holds.pure after

theorem markBadId_effect (c : Nat) (id : BlockId) (d : Device) :
    Logs (markBadId c id) (fun ret d' log => ∃ books,
      MarkBadEffect id (ledger d c).1 (ledger d c).2 ret books log ∧
        ledger d' = Function.update (ledger d) c books) d [] := by
  have same : Function.update (ledger d) c (ledger d c) = ledger d := Function.update_eq_self ..
  have refuse : ∀ {ret : Int} {d' : Device} {log : List Completed}, ret ≠ ssdOk →
      (∀ e ∈ log, ¬ e.IsTable ∧ e.ret = ssdOk) → ledger d' = ledger d → ∃ books,
        MarkBadEffect id (ledger d c).1 (ledger d c).2 ret books log ∧
          ledger d' = Function.update (ledger d) c books := fun failed clean kept =>
    ⟨_, .refused failed clean, by rw [kept, same]⟩
  refine Traced.seq (Traced.quiet ⟨fun _ _ _ _ => rfl, fun _ => trivial⟩ getIdInfo_quiet) ?_
  rintro known d1 _ ⟨⟨rfl, same1⟩, rfl⟩
  cases found : find (ledger d c).2 id with
  | none => exact Traced.pure (refuse (by decide) (fun _ member => absurd member List.not_mem_nil) same1)
  | some info =>
      simp only
      have short := info.len.size_le
      have low := info.block.isLt
      have memory : Holds anyOutcome (Program.perform Act.kmalloc) (fun _ d' => ledger d' = ledger d1) d1 :=
        Holds.neutral ⟨trivial, fun _ => trivial⟩
      refine Traced.seq (Traced.quiet ⟨fun _ _ _ _ => rfl, fun _ => trivial⟩ memory) ?_
      rintro null d2 _ ⟨same2, rfl⟩
      have same2 := same2.trans same1
      split
      · exact Traced.pure (refuse (by decide) (fun _ member => absurd member List.not_mem_nil) same2)
      split
      · exact Traced.pure (refuse (by decide) (fun _ member => absurd member List.not_mem_nil) same2)
      rename_i home
      have home := not_not.1 home
      refine Traced.seq (findBadBlocks_logs info.len.size 0 d2 [] (by omega)) ?_
      rintro marks d3 entries ⟨same3, reads, logged, rfl, cmds⟩
      rw [List.nil_append] at logged
      subst entries
      have same3 := same3.trans same2
      have blocks : reads.map Completed.cmd =
          ((List.range' 0 info.len.size).map fun k => info.block.val + k).map readBlock := by
        rw [cmds, List.map_map]
        rfl
      split
      · rename_i fine
        refine Traced.pure (refuse (by decide) (fun e member => ⟨reads_noTable blocks e member, ?_⟩) same3)
        by_contra failed
        exact fine (List.mem_map.2 ⟨e, member, if_pos failed⟩)
      have found3 : find (ledger d3 c).2 id = some info := by rw [same3]; exact found
      refine Traced.seq (Traced.quiet ⟨fun _ _ _ _ => rfl, fun _ => trivial⟩ (delIdInfo_quiet found3)) ?_
      rintro _ d4 entries ⟨⟨rfl, moved⟩, same4⟩
      subst entries
      simp only
      refine Traced.seq (channelOp_logs _) ?_
      rintro ret d5 _ ⟨same5, erase, rfl, cmd, -, -, -⟩
      have word : Command.ofWord (cmdValue info.block.val info.len.size flagErase) =
          ⟨info.block.val, info.len.size, flagErase⟩ := decode_cmdValue (by omega) (by omega) (by decide)
      have flag : erase.cmd.flag = flagErase := by rw [cmd, word]
      have moved5 : ledger d5 = Function.update (ledger d) c ((ledger d c).1, removeNode (ledger d c).2 id) := by
        rw [same5, moved, same3]
      have here : ledger d5 c = ((ledger d c).1, removeNode (ledger d c).2 id) := by
        rw [moved5, Function.update_self]
      split
      · rename_i failed
        refine Traced.seq (Traced.quiet ⟨fun _ _ _ _ => rfl, fun _ => trivial⟩ (setIdInfo_quiet info)) ?_
        rintro _ d6 _ ⟨restored, rfl⟩
        rw [← home, here, moved5, Function.update_idem] at restored
        exact Traced.pure ⟨_, .undone found failed ⟨cmds, flag⟩, restored⟩
      · have quiet : (Drv.deleteLogicBlock info).All Unlogged := ⟨fun _ _ _ _ => rfl, fun _ => trivial⟩
        refine Traced.seq (Traced.quiet quiet (deleteLogicBlock_quiet info)) ?_
        rintro _ d6 _ ⟨freed, rfl⟩
        rw [← home, here, moved5, Function.update_idem] at freed
        refine (markBadTables_logs (marks_only reads)).weaken fun ret d7 log7 after => ?_
        obtain ⟨same7, tail, rfl, transfers⟩ := after
        refine ⟨_, ?_, same7.trans freed⟩
        rw [List.append_assoc, List.singleton_append]
        exact .deleted found ⟨cmds, flag⟩ transfers

/-- **A mark-bad has one of the effects** on the channel of the id. -/
theorem ssdMarkBadBlock_effect {p : MarkBadParam} (byId : p.type = paramId) :
    Logs (ssdMarkBadBlock p) (fun ret d' log => ∃ books,
      MarkBadEffect p.id (ledger d (id2channel p.id)).1 (ledger d (id2channel p.id)).2 ret books log ∧
        ledger d' = Function.update (ledger d) (id2channel p.id) books) d [] := by
  rw [ssdMarkBadBlock, if_pos byId]
  have down : Holds anyOutcome (Drv.down (id2channel p.id)) (fun _ d' => ledger d' = ledger d) d :=
    Holds.neutral ⟨trivial, fun _ => trivial⟩
  refine Traced.seq (Traced.quiet ⟨fun _ _ _ _ => rfl, fun _ => trivial⟩ down) ?_
  rintro _ d1 _ ⟨same1, rfl⟩
  refine Traced.seq (markBadId_effect _ p.id d1) ?_
  rintro ret d2 log ⟨books, effect, after⟩
  rw [same1] at effect after
  have up : Holds anyOutcome (Drv.up (id2channel p.id)) (fun _ d' => ledger d' = ledger d2) d2 :=
    Holds.neutral ⟨trivial, fun _ => trivial⟩
  refine Traced.seq (Traced.quiet ⟨fun _ _ _ _ => rfl, fun _ => trivial⟩ up) ?_
  rintro _ d3 _ ⟨same3, rfl⟩
  exact Traced.pure ⟨books, effect, same3.trans after⟩

end Effect

/-! ## All or nothing -/

/-- Physical block `i` backs, by the address table `addr`, a logical block whose read failed. -/
def FailedIn (log : List Completed) (addr : Mem) (i : Nat) : Prop :=
  ∃ e ∈ log, e.ret ≠ ssdOk ∧ ∃ b, e.cmd = readBlock b ∧ addrEntryBlock addr b = i

/-- The tables of the card were read, and the erase table that it has then has the marks of
exactly the blocks whose reads failed. -/
structure BadBlocksWritten (log : List Completed) (a e w : Completed) : Prop where
  logged : a ∈ log ∧ e ∈ log ∧ w ∈ log
  addr : a.cmd.flag = flagReadAddrTable ∧ a.ret = ssdOk ∧ a.Moved
  erase : e.cmd.flag = flagReadEraseTable ∧ e.ret = ssdOk ∧ e.Moved
  write : w.cmd.flag = flagWriteEraseTable ∧ w.ret = ssdOk ∧ w.Moved
  marks : MarksWritten e.before.flash.eraseTable w.after.flash.eraseTable (FailedIn log a.before.flash.addrTable)

/-- A mark-bad of `id` happens whole or not at all. -/
structure AllOrNothing (id : BlockId) (d : Device) (ret : Int) (d' : Device) (log : List Completed) :
    Prop where
  failed : ret ≠ ssdOk → ∀ c, SameBooks (ledger d c) (ledger d' c)
  gone : ret = ssdOk → tableLookup d' id = none ∧ ∃ info, tableLookup d id = some info ∧
    ∀ b ∈ info.extent.blocks, b ∈ freeSet (d'.ch (id2channel id)).space
  written : ret = ssdOk → ∃ a e w, BadBlocksWritten log a e w
  /-- A block whose read failed is in the free set only with its mark on the card. -/
  released : ∀ r ∈ log, r.ret ≠ ssdOk → ∀ b, r.cmd = readBlock b →
    b ∈ freeSet (d'.ch (id2channel id)).space → ∃ a e w, BadBlocksWritten log a e w

section Whole

variable {d d' : Device} {id : BlockId} {s : ChannelSpace} {h : Nat → HashHead} {c : Nat}
variable {ret : Int} {log : List Completed} {books : Books}

/-- The blocks of an extent that is found are not free, and are after they are deleted. -/
theorem extent_used (inv : ChannelInv c [] (s, h)) {info : IdInfo} (found : find h id = some info) {b : Nat}
    (inside : b ∈ info.extent.blocks) :
    b ∉ freeSet s ∧ b ∈ freeSet (deleteLogicBlock s info) := by
  have perm := extentsOf_perm (nodesOf_removeNode found)
  have ok : SpaceOk s (info.extent :: extentsOf (removeNode h id)) := inv.space.perm perm
  have covered : 0 < multiplicity (info.extent :: extentsOf (removeNode h id)) b :=
    multiplicity_pos_iff.2 ⟨_, List.mem_cons_self .., inside⟩
  constructor
  · intro free
    have := ((mem_freeSet ok).1 free).2
    omega
  · rw [mem_freeSet (deleteLogicBlock_spec ok)]
    have below := ok.tiles.lt (List.mem_append_right _ (List.mem_cons_self ..)) inside
    refine ⟨below, Nat.eq_zero_of_not_pos fun twice => ?_⟩
    obtain ⟨e', member, covers⟩ := multiplicity_pos_iff.1 twice
    exact ok.tiles.separate.append_right.head_apart member inside covers

/-- The reads of a log are the commands in front of the erase. -/
theorem ReadAndErased.read_mem {info : IdInfo} {reads tail : List Completed} {erase e : Completed}
    (before : ReadAndErased info reads erase) (tables : ∀ e ∈ tail, e.IsTable) {b : Nat}
    (member : e ∈ reads ++ erase :: tail) (read : e.cmd = readBlock b) : e ∈ reads := by
  have flag : e.cmd.flag = flagRead := congrArg Command.flag read
  rcases List.mem_append.1 member with inside | rest
  · exact inside
  rcases List.mem_cons.1 rest with rfl | later
  · rw [before.erase] at flag
    exact absurd flag (by decide)
  · have table := tables e later
    simp only [Completed.IsTable, flag] at table
    exact absurd table (by decide)

theorem ReadAndErased.read_inside {info : IdInfo} {reads : List Completed} {erase e : Completed}
    (before : ReadAndErased info reads erase) {b : Nat} (member : e ∈ reads) (read : e.cmd = readBlock b) :
    b ∈ info.extent.blocks := by
  have listed : e.cmd ∈ (List.range' 0 info.len.size).map fun k => readBlock (info.block.val + k) :=
    before.reads ▸ List.mem_map_of_mem member
  obtain ⟨k, small, same⟩ := List.mem_map.1 listed
  rw [List.mem_range'_1] at small
  have start : (info.block.val + k) * ssdPagesPerBlock = b * ssdPagesPerBlock :=
    congrArg Command.start (same.trans read)
  simp only [ssdPagesPerBlock] at start
  rw [Extent.mem_blocks]
  show info.block.val ≤ b ∧ b < info.block.val + info.len.size
  omega

/-- The tables of a log are behind the erase. -/
theorem ReadAndErased.table_mem {info : IdInfo} {reads tail : List Completed} {erase e : Completed}
    (before : ReadAndErased info reads erase) (member : e ∈ reads ++ erase :: tail) (table : e.IsTable) :
    e ∈ tail := by
  have blocks : reads.map Completed.cmd =
      ((List.range' 0 info.len.size).map fun k => info.block.val + k).map readBlock := by
    rw [before.reads, List.map_map]
    rfl
  rcases List.mem_append.1 member with read | rest
  · exact absurd table (reads_noTable blocks e read)
  rcases List.mem_cons.1 rest with rfl | later
  · simp only [Completed.IsTable, before.erase] at table
    exact absurd table (by decide)
  · exact later

/-- The marked physical blocks are those of the reads that failed. -/
theorem ReadAndErased.marked_iff {info : IdInfo} {reads tail : List Completed} {erase : Completed}
    (before : ReadAndErased info reads erase) (tables : ∀ e ∈ tail, e.IsTable) {addr : Mem} {i : Nat} :
    Marked addr info.block.val (reads.map Completed.mark) i ↔ FailedIn (reads ++ erase :: tail) addr i := by
  have each : ∀ {k : Nat} {e : Completed}, reads[k]? = some e → e.cmd = readBlock (info.block.val + k) := by
    intro k e here
    have listed := congrArg (fun l : List Command => l[k]?) before.reads
    simp only [List.getElem?_map, here, Option.map_some, List.range'_eq_map_range, List.map_map] at listed
    obtain ⟨j, at_k, same⟩ := Option.map_eq_some_iff.1 listed.symm
    rw [List.getElem?_range (by
      by_contra past
      rw [List.getElem?_eq_none (by rwa [List.length_range, ← not_lt])] at at_k
      cases at_k)] at at_k
    cases at_k
    rw [← same]
    simp
  constructor
  · rintro ⟨k, marked, entry⟩
    rw [List.getElem?_map] at marked
    obtain ⟨e, here, mark⟩ := Option.map_eq_some_iff.1 marked
    refine ⟨e, List.mem_append_left _ (List.mem_of_getElem? here), fun ok => ?_, _, each here, entry⟩
    rw [Completed.mark, if_neg (not_not.2 ok)] at mark
    exact absurd mark (by decide)
  · rintro ⟨e, member, failed, b, read, entry⟩
    obtain ⟨k, here⟩ := List.getElem?_of_mem (before.read_mem tables member read)
    have start : b * ssdPagesPerBlock = (info.block.val + k) * ssdPagesPerBlock :=
      congrArg Command.start (read.symm.trans (each here))
    simp only [ssdPagesPerBlock] at start
    refine ⟨k, ?_, by rwa [show info.block.val + k = b by omega]⟩
    rw [List.getElem?_map, here, Option.map_some, Completed.mark, if_pos failed]

theorem Transfers.tables {block : Nat} {marks : List Nat} {tail : List Completed}
    (transfers : Transfers block marks tail ret) : ∀ e ∈ tail, e.IsTable := by
  cases transfers with
  | addrFailed a addr => simp [Completed.IsTable, addr]
  | eraseFailed a e addr erase => simp [Completed.IsTable, addr, erase]
  | written a e w addr _ erase _ write => simp [Completed.IsTable, addr, erase, write]

theorem Transfers.ok_iff {block : Nat} {marks : List Nat} {tail : List Completed}
    (transfers : Transfers block marks tail ret) : ret = ssdOk ↔ ∀ e ∈ tail, e.ret = ssdOk := by
  cases transfers with
  | addrFailed a addr failed => simp
  | eraseFailed a e addr erase failed => simp [failed]
  | written a e w addr addrOk erase eraseOk write => simp [addrOk, eraseOk]

/-- The tables of a run that succeeds. -/
theorem Transfers.bad_blocks {info : IdInfo} {reads tail : List Completed} {erase : Completed}
    (transfers : Transfers info.block.val (reads.map Completed.mark) tail ssdOk)
    (before : ReadAndErased info reads erase) (inside : info.block.val + reads.length ≤ ssdMaxPhyblocksPerChannel)
    (moved : ∀ e ∈ tail, e.Moved) : ∃ a e w, BadBlocksWritten (reads ++ erase :: tail) a e w := by
  have tables := transfers.tables
  generalize answer : ssdOk = ret at transfers
  cases transfers with
  | addrFailed a addr failed => exact absurd answer.symm failed
  | eraseFailed a e addr eraseTable failed => exact absurd answer.symm failed
  | written a e w addr addrOk eraseTable eraseOk write done =>
      have movedAddr := moved a (by simp)
      have movedErase := moved e (by simp)
      have movedWrite := moved w (by simp)
      refine ⟨a, e, w, ⟨?_, ?_, ?_⟩, ⟨addr, addrOk, movedAddr⟩, ⟨eraseTable, eraseOk, movedErase⟩,
        ⟨write, answer.symm, movedWrite⟩, ?_⟩
      · simp
      · simp
      · simp
      have same : ∀ i, Marked a.after.kbuf info.block.val (reads.map Completed.mark) i ↔
          FailedIn (reads ++ erase :: [a, e, w]) a.before.flash.addrTable i := by
        intro i
        rw [← before.marked_iff tables]
        refine exists_congr fun k => and_congr_right fun bad => ?_
        have small : k < reads.length := by
          have listed := (List.getElem?_eq_some_iff.1 bad).1
          rwa [List.length_map] at listed
        simp only [ssdMaxPhyblocksPerChannel] at inside
        rw [addrEntryBlock, addrEntryBlock, tableEntry_congr (movedAddr.addr addr) (by omega)]
      constructor
      · intro i small failed
        rw [tableEntry_congr (movedWrite.write write) small, ← tableEntry_congr (movedErase.erase eraseTable) small]
        exact done.set i small ((same i).2 failed)
      · intro i small fine
        rw [tableEntry_congr (movedWrite.write write) small, ← tableEntry_congr (movedErase.erase eraseTable) small]
        exact done.kept i small fun marked => fine ((same i).1 marked)

/-- The transfers behind a run with its bad blocks written are those that moved them. -/
theorem Transfers.moved {block : Nat} {marks : List Nat} {log tail : List Completed}
    (transfers : Transfers block marks tail ssdOk) (inTail : ∀ e ∈ log, e.IsTable → e ∈ tail) {a e w : Completed}
    (written : BadBlocksWritten log a e w) : ∀ e ∈ tail, e.Moved := by
  obtain ⟨inA, inE, inW⟩ := written.logged
  have inA := inTail a inA (.inl written.addr.1)
  have inE := inTail e inE (.inr (.inl written.erase.1))
  have inW := inTail w inW (.inr (.inr written.write.1))
  generalize answer : ssdOk = ret at transfers
  cases transfers with
  | addrFailed a' addr failed => exact absurd answer.symm failed
  | eraseFailed a' e' addr erase failed => exact absurd answer.symm failed
  | written a' e' w' addr addrOk erase eraseOk write done =>
      -- each transfer has a flag of its own
      have one : ∀ {x y : Completed}, x ∈ [a', e', w'] → x.cmd.flag = y.cmd.flag → y ∈ [a', e', w'] → x = y := by
        intro x y inX same inY
        have apart : flagReadAddrTable ≠ flagReadEraseTable ∧ flagReadAddrTable ≠ flagWriteEraseTable ∧
            flagReadEraseTable ≠ flagWriteEraseTable := by decide
        simp only [List.mem_cons, List.not_mem_nil, or_false] at inX inY
        rcases inX with rfl | rfl | rfl <;> rcases inY with rfl | rfl | rfl <;> grind
      have first : a = a' := one inA (written.addr.1.trans addr.symm) (by simp)
      have second : e = e' := one inE (written.erase.1.trans erase.symm) (by simp)
      have third : w = w' := one inW (written.write.1.trans write.symm) (by simp)
      subst first second third
      simpa using ⟨written.addr.2.2, written.erase.2.2, written.write.2.2⟩

/-- **Marking bad is all or nothing** if and only if each transfer of a table is answered with
success and has moved its table. -/
theorem mark_bad_all_or_nothing {p : MarkBadParam} (byId : p.type = paramId)
    (work : AtWork d (id2channel p.id)) (run : LoggedRun (ssdMarkBadBlock p) d ret d' log) :
    AllOrNothing p.id d ret d' log ↔ ∀ e ∈ log, e.IsTable → e.ret = ssdOk ∧ e.Moved := by
  have inside : ∀ info, find (ledger d (id2channel p.id)).2 p.id = some info →
      info.block.val + info.len.size ≤ ssdMaxVirblocksPerChannel := fun info found =>
    work.space.space.tiles.end_le (List.mem_append_right _ (List.mem_map_of_mem
      ((nodesOf_removeNode found).mem_iff.2 (List.mem_cons_self ..)))) info.len.size_pos
  obtain ⟨books, effect, after⟩ := (ssdMarkBadBlock_effect byId).runs run
  have here : ledger d' (id2channel p.id) = books := by rw [after, Function.update_self]
  have spaceAfter : (d'.ch (id2channel p.id)).space = books.1 := congrArg Prod.fst here
  have tableAfter : tableLookup d' p.id = find books.2 p.id := by rw [← here]; rfl
  -- the books of the other channels
  have kept : SameBooks (ledger d (id2channel p.id)) books → ∀ c, SameBooks (ledger d c) (ledger d' c) := by
    intro same c
    rw [after]
    by_cases home : c = id2channel p.id
    · rw [home, Function.update_self]
      exact same
    · rw [Function.update_of_ne home]
      exact .refl _
  cases effect with
  | refused failed clean =>
      refine ⟨fun _ e member table => absurd table (clean e member).1, fun _ => ?_⟩
      refine ⟨fun _ => kept (.refl _), fun ok => absurd ok failed, fun ok => absurd ok failed, ?_⟩
      exact fun r member bad => absurd (clean r member).2 bad
  | @undone info _ reads erase found failed before =>
      have none : ∀ e ∈ ([] : List Completed), e.IsTable := fun _ member => absurd member List.not_mem_nil
      constructor
      · exact fun _ e member table => absurd (before.table_mem member table) List.not_mem_nil
      · intro _
        refine ⟨fun _ => kept ⟨find_restored work.table found, rfl, rfl⟩, fun ok => absurd ok failed,
          fun ok => absurd ok failed, fun r member _ b read free => ?_⟩
        rw [spaceAfter] at free
        have block := before.read_inside (before.read_mem none member read) read
        exact absurd free (extent_used work.space found block).1
  | @deleted info _ reads tail erase found before transfers =>
      have lost : tableLookup d' p.id = none := by
        rw [tableAfter]
        exact (find_removeNode work.table p.id).trans (if_pos rfl)
      constructor
      · intro whole e member table
        have ok : ret = ssdOk := by
          by_contra failed
          have same := (whole.failed failed (id2channel p.id)).map p.id
          rw [here] at same
          exact absurd (same.symm.trans (tableAfter.symm.trans lost)) (by rw [found]; exact nofun)
        subst ok
        obtain ⟨a, e', w, written⟩ := whole.written rfl
        have inTail := before.table_mem member table
        exact ⟨transfers.ok_iff.1 rfl e inTail,
          transfers.moved (fun _ => before.table_mem) written e inTail⟩
      · intro fine
        have transfer : ∀ e ∈ tail, e.ret = ssdOk ∧ e.Moved := fun e member =>
          fine e (List.mem_append_right _ (List.mem_cons_of_mem _ member)) (transfers.tables e member)
        obtain rfl : ret = ssdOk := transfers.ok_iff.2 fun e member => (transfer e member).1
        have count : reads.length = info.len.size := by
          have lengths := congrArg List.length before.reads
          simpa using lengths
        have written := transfers.bad_blocks before (by
          have fits := inside info found
          simp only [ssdMaxVirblocksPerChannel] at fits
          simp only [ssdMaxPhyblocksPerChannel]
          omega) fun e member => (transfer e member).2
        refine ⟨fun failed => absurd rfl failed, fun _ => ⟨lost, info, found, fun b block => ?_⟩,
          fun _ => written, fun _ _ _ _ _ _ => written⟩
        rw [spaceAfter]
        exact (extent_used work.space found block).2

end Whole

/-! ## A first id -/

/-- The books of a channel behind a first write. -/
theorem emptyChannel_written : ∃ s, WriteEffect 0 ⟨0, 0⟩ .iblock emptyChannel.space emptyChannel.hash
    ssdOk (s, insertNode emptyChannel.hash ⟨0, 0⟩ (.at 0 0 .iblock)) := by
  have zero : emptyChannel.space.area.iblock.areaMap 0 = false := by
    rw [emptyChannel_space, reloadSpace_empty]
    rfl
  obtain ⟨s, alloc, -⟩ := alloc_first zero
  have fresh : find emptyChannel.hash ⟨0, 0⟩ = none := rfl
  exact ⟨s, .done fresh alloc⟩

/-- A device with one id, as a first write leaves it. -/
theorem exists_written : ∃ ch : Channel, AtWork (emptyDevice.setCh 0 ch) 0 ∧
    find ch.hash ⟨0, 0⟩ = some (.at 0 0 .iblock) := by
  obtain ⟨s, effect⟩ := emptyChannel_written
  have start := emptyDevice_atWork
  let ch : Channel := { emptyChannel with
    space := s, hash := insertNode emptyChannel.hash ⟨0, 0⟩ (.at 0 0 .iblock) }
  have here : (emptyDevice.setCh 0 ch).ch 0 = ch := Device.setCh_ch_same ..
  have books : ledger (emptyDevice.setCh 0 ch) 0 = (ch.space, ch.hash) := by
    rw [ledger_setCh, Function.update_self]
  refine ⟨ch, ⟨by rw [here]; rfl, ?_, ?_⟩, ?_⟩
  · rw [books]
    exact effect.inv (by decide) start.space
  · rw [here]
    exact effect.placed rfl start.table
  · exact (find_insertNode ⟨0, 0⟩).trans (if_pos rfl)

/-- The id of a bad block. -/
def firstId : MarkBadParam := ⟨paramId, ⟨0, 0⟩, 0, 0⟩

/-- A command that fails and is answered with success all the same. -/
def failsUnseen : Outcome := { succeeds with taken := false }

/-- A command that was answered with outcome `o`. -/
structure Completed.Answered (e : Completed) (command : Command) (o : Outcome) : Prop where
  cmd : e.cmd = command
  ret : e.ret = o.ret.toInt
  done : Flash.exec command o e.before.kbuf e.before.flash = some (e.after.kbuf, e.after.flash)

section Logged

variable {P : Drv Int → Device × List Completed → Prop} {d d' : Device} {ch k : Channel} {c : Nat}
variable {log : List Completed}

/-- An action that is not logged. -/
theorem logged_leads_act {a : Act} {rest : a.Reply → Drv Int} {r : a.Reply} (unlogged : Unlogged a)
    (step : Device.perform 0 a succeeds d = some (r, d'))
    (tail : Leads (recorded (Device.perform 0) logCommand) (fun _ _ _ => True) P (rest r) (d', log)) :
    Leads (recorded (Device.perform 0) logCommand) (fun _ _ _ => True) P (.act a rest) (d, log) := by
  have kept : (d', log).2 = logCommand a r (d, log).1 (d', log).1 (d, log).2 := (unlogged ..).symm
  exact Leads.act succeeds trivial (recorded_eq_some.2 ⟨step, kept⟩) tail

theorem logged_leads_chan {a : ChanAct} {rest : a.Reply → Drv Int} {r : a.Reply} (unlogged : Unlogged (.chan c a))
    (step : ch.perform a succeeds = some (r, k))
    (tail : Leads (recorded (Device.perform 0) logCommand) (fun _ _ _ => True) P (rest r) (d.setCh c k, log)) :
    Leads (recorded (Device.perform 0) logCommand) (fun _ _ _ => True) P (.act (.chan c a) rest)
      (d.setCh c ch, log) := by
  refine logged_leads_act unlogged ?_ tail
  simp only [Device.perform, Device.setCh_ch_same, step, Option.map_some, Device.setCh_setCh]

theorem logged_leads_down {rest : Unit → Drv Int} (free : ch.sema = none)
    (tail : Leads (recorded (Device.perform 0) logCommand) (fun _ _ _ => True) P (rest ())
      (d.setCh c { ch with sema := some 0 }, log)) :
    Leads (recorded (Device.perform 0) logCommand) (fun _ _ _ => True) P (.act (.down c) rest) (d.setCh c ch, log) := by
  refine logged_leads_act (fun _ _ _ _ => rfl) ?_ tail
  simp only [Device.perform, Device.setCh_ch_same, free, if_true, Device.setCh_setCh]

/-- A command and its entry in the log. -/
theorem logged_leads_command {cmd : Nat} {decoded : Command} {rest : Int → Drv Int} (o : Outcome)
    {kbuf : Mem} {flash : Flash} (word : Command.ofWord cmd = decoded)
    (done : Flash.exec decoded o ch.kbuf ch.flash = some (kbuf, flash))
    (tail : ∀ e : Completed, e.Answered decoded o → Leads (recorded (Device.perform 0) logCommand)
      (fun _ _ _ => True) P (rest o.ret.toInt)
      (d.setCh c { ch with outstanding := none, kbuf := kbuf, flash := flash }, log ++ [e])) :
    Leads (recorded (Device.perform 0) logCommand) (fun _ _ _ => True) P (channelOp c cmd >>= rest)
      (d.setCh c ch, log) := by
  refine logged_leads_chan (k := { ch with outstanding := some cmd }) (fun _ _ _ _ => rfl) rfl ?_
  let e : Completed := ⟨decoded, o.ret.toInt, { ch with outstanding := some cmd },
    { ch with outstanding := none, kbuf := kbuf, flash := flash }⟩
  refine Leads.act o trivial (recorded_eq_some.2 ⟨?_, ?_⟩) (tail e ⟨rfl, rfl, done⟩)
  · simp only [Device.perform, Channel.perform, Device.setCh_ch_same, Option.bind_eq_bind, Option.bind_some,
      word, done, Option.pure_def, Option.map_some, Device.setCh_setCh]
  · simp only [logCommand, Device.setCh_ch_same, word, e]

end Logged

/-- The read of the block of `firstId` fails, and the transfers of its tables are answered
with success, whatever they did. -/
theorem firstId_logged {ch : Channel} (free : ch.sema = none)
    (found : find ch.hash ⟨0, 0⟩ = some (.at 0 0 .iblock)) {o : Outcome} (answered : o.ret = .ok) :
    ∃ d' read erase a e w,
      LoggedRun (ssdMarkBadBlock firstId) (emptyDevice.setCh 0 ch) ssdOk d' [read, erase, a, e, w] ∧
      read.Answered (readBlock 0) timesOut ∧ erase.Answered ⟨0, 1, flagErase⟩ succeeds ∧
      a.Answered ⟨0, addrTablePages, flagReadAddrTable⟩ o ∧ e.Answered ⟨0, addrTablePages, flagReadEraseTable⟩ o ∧
      w.Answered ⟨0, addrTablePages, flagWriteEraseTable⟩ o := by
  have leads : Leads (recorded (Device.perform 0) logCommand) (fun _ _ _ => True) (fun rest s =>
      rest = .pure ssdOk ∧ ∃ read erase a e w, s.2 = [read, erase, a, e, w] ∧
        read.Answered (readBlock 0) timesOut ∧ erase.Answered ⟨0, 1, flagErase⟩ succeeds ∧
        a.Answered ⟨0, addrTablePages, flagReadAddrTable⟩ o ∧ e.Answered ⟨0, addrTablePages, flagReadEraseTable⟩ o ∧
        w.Answered ⟨0, addrTablePages, flagWriteEraseTable⟩ o)
      (ssdMarkBadBlock firstId) (emptyDevice.setCh 0 ch, []) := by
    obtain ⟨sema, out, kbuf, flash, hash, space, stat⟩ := ch
    obtain rfl : sema = none := free
    obtain ⟨ret, failed, taken, keep, data, kbuf', addrTable, eraseTable, time⟩ := o
    obtain rfl : ret = .ok := answered
    have found : lookup (hash 0).first ⟨0, 0⟩ = some (IdInfo.at 0 0 .iblock) := found
    have looked : ∀ {out kbuf flash}, Channel.perform (.getIdInfo ⟨0, 0⟩) succeeds
        ⟨some 0, out, kbuf, flash, hash, space, stat⟩ =
          some (some (IdInfo.at 0 0 .iblock), ⟨some 0, out, kbuf, flash, hash, space, stat⟩) :=
      congrArg (fun info => some (info, _)) found
    have unlinked : ∀ {out kbuf flash}, Channel.perform (.delIdInfo ⟨0, 0⟩) succeeds
        ⟨some 0, out, kbuf, flash, hash, space, stat⟩ = some (some (IdInfo.at 0 0 .iblock),
          ⟨some 0, out, kbuf, flash, Function.update hash 0 ((hash 0).delete ⟨0, 0⟩), space, stat⟩) := by
      intro out kbuf flash
      simp only [Channel.perform, show idHash ⟨0, 0⟩ = 0 from rfl, found, Channel.setHead]
    generalize Function.update hash 0 ((hash 0).delete ⟨0, 0⟩) = hash' at *
    refine logged_leads_down rfl ?_
    refine logged_leads_chan (fun _ _ _ _ => rfl) looked ?_
    refine logged_leads_act (r := false) (fun _ _ _ _ => rfl) rfl ?_
    refine logged_leads_command timesOut (show _ = readBlock 0 from rfl) rfl fun read readIs => ?_
    refine logged_leads_chan (fun _ _ _ _ => rfl) unlinked ?_
    refine logged_leads_command succeeds (show _ = (⟨0, 1, flagErase⟩ : Command) from rfl) rfl fun erase eraseIs => ?_
    refine logged_leads_chan (fun _ _ _ _ => rfl) rfl ?_
    have transfer : ∀ {flag : Nat}, flag < 32 →
        Command.ofWord (cmdValue 0 addrTablePages flag) = ⟨0, addrTablePages, flag⟩ := ofWord_tableTransfer
    let o : Outcome := ⟨.ok, failed, taken, keep, data, kbuf', addrTable, eraseTable, time⟩
    refine logged_leads_command o (transfer (by decide)) rfl fun a addr => ?_
    refine logged_leads_chan (fun _ _ _ _ => rfl) rfl ?_
    refine logged_leads_command o (transfer (by decide)) rfl fun e table => ?_
    refine logged_leads_chan (fun _ _ _ _ => rfl) rfl ?_
    refine logged_leads_command o (transfer (by decide)) rfl fun w write => ?_
    refine logged_leads_act (r := ()) (fun _ _ _ _ => rfl) rfl ?_
    exact Leads.here ⟨rfl, read, erase, a, e, w, rfl, readIs, eraseIs, addr, table, write⟩
  obtain ⟨_, ⟨d', log⟩, reach, rfl, read, erase, a, e, w, rfl, facts⟩ := leads
  exact ⟨d', read, erase, a, e, w, reach.runs, facts⟩

theorem copyBytes_below {dst src : Mem} {n j : Nat} (below : j < n) : copyBytes dst 0 src 0 n j = src j := by
  simp only [copyBytes, Nat.zero_add, Nat.sub_zero, Nat.zero_le, below, and_self, if_true]

/-- A transfer that succeeds has moved its table. -/
theorem Completed.Answered.moved {e : Completed} {flag : Nat}
    (answered : e.Answered ⟨0, addrTablePages, flag⟩ succeeds) : e.Moved := by
  have flags : e.cmd.flag = flag := by rw [answered.cmd]
  have done := answered.done
  refine ⟨fun same j small => ?_, fun same j small => ?_, fun same j small => ?_⟩
  · obtain rfl := flags.symm.trans same
    have done : some (copyBytes e.before.kbuf 0 e.before.flash.addrTable 0 ssdTableSize, _) = _ := done
    rw [← (Prod.mk.inj (Option.some.inj done)).1]
    exact copyBytes_below small
  · obtain rfl := flags.symm.trans same
    have done : some (copyBytes e.before.kbuf 0 e.before.flash.eraseTable 0 ssdTableSize, _) = _ := done
    rw [← (Prod.mk.inj (Option.some.inj done)).1]
    exact copyBytes_below small
  · obtain rfl := flags.symm.trans same
    have done : some (_, { e.before.flash with
        eraseTable := copyBytes e.before.flash.eraseTable 0 e.before.kbuf 0 ssdTableSize }) = _ := done
    rw [← (Prod.mk.inj (Option.some.inj done)).2]
    exact copyBytes_below small

/-- The block of an id is bad, and every other command succeeds. -/
theorem mark_bad_of_first_id : ∃ d d' log, LoggedRun (ssdMarkBadBlock firstId) d ssdOk d' log ∧
    (∃ e ∈ log, e.IsTable) ∧ AllOrNothing firstId.id d ssdOk d' log := by
  obtain ⟨ch, work, found⟩ := exists_written
  have free := work.free
  rw [Device.setCh_ch_same] at free
  obtain ⟨d', read, erase, a, e, w, run, readIs, eraseIs, addr, table, write⟩ :=
    firstId_logged free found (show succeeds.ret = .ok from rfl)
  refine ⟨_, d', _, run, ⟨a, by simp, .inl (by rw [addr.cmd])⟩, ?_⟩
  refine (mark_bad_all_or_nothing rfl work run).2 fun f member transfer => ?_
  simp only [List.mem_cons, List.not_mem_nil, or_false] at member
  rcases member with rfl | rfl | rfl | rfl | rfl
  · simp only [Completed.IsTable, readIs.cmd] at transfer
    exact absurd transfer (by decide)
  · simp only [Completed.IsTable, eraseIs.cmd] at transfer
    exact absurd transfer (by decide)
  · exact ⟨addr.ret, addr.moved⟩
  · exact ⟨table.ret, table.moved⟩
  · exact ⟨write.ret, write.moved⟩

/-- When the poll for the address table runs out, the id is gone. -/
theorem lost_behind_poll {ch : Channel} (work : AtWork (emptyDevice.setCh 0 ch) 0)
    (found : find ch.hash ⟨0, 0⟩ = some (.at 0 0 .iblock)) :
    ∃ d' log, LoggedRun (ssdMarkBadBlock firstId) (emptyDevice.setCh 0 ch) (-49) d' log ∧
      ¬ AllOrNothing firstId.id (emptyDevice.setCh 0 ch) (-49) d' log := by
  have free := work.free
  rw [Device.setCh_ch_same] at free
  obtain ⟨rest, d', cut, rfl, ch', rfl, -, hash⟩ := markBad_leads emptyDevice free found
  obtain ⟨ret, d'', first, last⟩ := runs_bind_iff.1 cut.runs
  cases last
  obtain ⟨log, run⟩ := first.withHistory logCommand []
  refine ⟨_, log, run, fun whole => ?_⟩
  have same := (whole.failed (by decide) 0).map ⟨0, 0⟩
  rw [ledger_setCh, ledger_setCh, Function.update_self, Function.update_self] at same
  simp only [hash] at same
  have placed := work.table
  rw [Device.setCh_ch_same] at placed
  have lost : find (removeNode ch.hash ⟨0, 0⟩) ⟨0, 0⟩ = none :=
    (find_removeNode placed ⟨0, 0⟩).trans (if_pos rfl)
  exact absurd (lost.symm.trans (same.trans found)) nofun

/-- Transfers that fail and are answered with success leave zeros on the card, and no mark. -/
theorem unmarked_behind_unseen {ch : Channel} (free : ch.sema = none)
    (found : find ch.hash ⟨0, 0⟩ = some (.at 0 0 .iblock)) :
    ∃ d' log, LoggedRun (ssdMarkBadBlock firstId) (emptyDevice.setCh 0 ch) ssdOk d' log ∧
      (∀ e ∈ log, e.IsTable → e.ret = ssdOk) ∧ ¬ AllOrNothing firstId.id (emptyDevice.setCh 0 ch) ssdOk d' log := by
  obtain ⟨d', read, erase, a, e, w, run, readIs, eraseIs, addr, table, write⟩ :=
    firstId_logged free found (show failsUnseen.ret = .ok from rfl)
  refine ⟨d', _, run, fun f member transfer => ?_, fun whole => ?_⟩
  · simp only [List.mem_cons, List.not_mem_nil, or_false] at member
    rcases member with rfl | rfl | rfl | rfl | rfl
    · simp only [Completed.IsTable, readIs.cmd] at transfer
      exact absurd transfer (by decide)
    · simp only [Completed.IsTable, eraseIs.cmd] at transfer
      exact absurd transfer (by decide)
    · exact addr.ret
    · exact table.ret
    · exact write.ret
  obtain ⟨a', e', w', written⟩ := whole.written rfl
  -- only the last command writes a table, and it left zeros
  have last : w' = w := by
    have member := written.logged.2.2
    have flag := written.write.1
    simp only [List.mem_cons, List.not_mem_nil, or_false] at member
    rcases member with rfl | rfl | rfl | rfl | rfl
    · exact absurd (readIs.cmd ▸ flag) (by decide)
    · exact absurd (eraseIs.cmd ▸ flag) (by decide)
    · exact absurd (addr.cmd ▸ flag) (by decide)
    · exact absurd (table.cmd ▸ flag) (by decide)
    · rfl
  subst last
  have failed : FailedIn [read, erase, a, e, w'] a'.before.flash.addrTable
      (addrEntryBlock a'.before.flash.addrTable 0) :=
    ⟨read, by simp, by rw [readIs.ret]; decide, 0, readIs.cmd, rfl⟩
  have small : addrEntryBlock a'.before.flash.addrTable 0 < 8192 := Nat.mod_lt _ (by omega)
  have marked := written.marks.set _ small failed
  have done : some (_, { w'.before.flash with
      eraseTable := copyBytes w'.before.flash.eraseTable 0 (fun _ => 0) 0 ssdTableSize }) = _ := write.done
  rw [← (Prod.mk.inj (Option.some.inj done)).2, tableEntry_congr (fun _ => copyBytes_below) small] at marked
  have zero : ∀ i, tableEntry (fun _ => 0) i = 0 := fun _ => by simp [tableEntry, getLE]
  rw [zero] at marked
  simp only [withBadFlag] at marked
  omega

/-- The read of the block fails, the erase succeeds, and the poll for the address table runs
out: the id is lost, its block is free, and it is not marked. A transfer that fails but is
answered with success leaves the block without its mark too. -/
theorem mark_bad_loses_the_id :
    (∃ d d' log, AtWork d (id2channel firstId.id) ∧ LoggedRun (ssdMarkBadBlock firstId) d (-49) d' log ∧
      ¬ AllOrNothing firstId.id d (-49) d' log) ∧
    ∃ d d' log, AtWork d (id2channel firstId.id) ∧ LoggedRun (ssdMarkBadBlock firstId) d ssdOk d' log ∧
      (∀ e ∈ log, e.IsTable → e.ret = ssdOk) ∧ ¬ AllOrNothing firstId.id d ssdOk d' log := by
  obtain ⟨ch, work, found⟩ := exists_written
  have free := work.free
  rw [Device.setCh_ch_same] at free
  obtain ⟨d1, log1, timedOut, lost⟩ := lost_behind_poll work found
  obtain ⟨d2, log2, answered, fine, unmarked⟩ := unmarked_behind_unseen free found
  exact ⟨⟨_, d1, log1, work, timedOut, lost⟩, _, d2, log2, work, answered, fine, unmarked⟩

end FpgaSsd.Theory
