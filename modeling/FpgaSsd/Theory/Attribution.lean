/-
# Theory.Attribution — which command a completion is credited to

`Attributed` ties the shared fields to the command in progress: a call that would
now return `SSD_OK` has had its command completed with success. Every event keeps
it apart from an interrupt that is credited to the wrong command (`Line.Sound`
excludes these):

* `ok_means_completed` — in every run of sound steps, a call that returned
  `SSD_OK` had its own command completed with success;
* `late_interrupt_is_credited`, `failed_ram_table_succeeds` — two runs of events
  that are not, each with a wrong success.
-/
import FpgaSsd.Driver.Completion

namespace FpgaSsd.Theory

open FpgaSsd.Driver

set_option autoImplicit false

/-! ## The condition -/

/-- The interrupt finds the call waiting for it: the flag of a RAM-table command,
or a timer it can stop. With the error bit of the group set, a status of zero is
stored whether there is a timer or not. -/
def Line.Credited (l : Line) (failed : Bool) (status : Fin 32) : Prop :=
  if isRamTable l.cmd then
    (l.phase = .writeCmd ∨ l.phase = .poll) ∧ l.ctl.errorRam = ramPending
  else
    l.phase ≠ .idle ∧ l.ctl.errorRam ≠ ramPending ∧ l.ctl.errors ≠ -errTimeout ∧
      if failed then status = 0 else l.ctl.timerFunction = true ∧ l.ctl.timerPending = true

/-- An interrupt that the call takes as its own success is one. -/
def Line.Sound (l : Line) : Event → Prop
  | .interrupt n failed => ∀ status, l.device n = .completed status →
      Line.Credited l failed status → n = l.call ∧ status = 0
  | _ => True

/-! ## The invariant -/

/-- The command of call `n` was completed with success. -/
def Line.Succeeded (l : Line) (n : Nat) : Prop := (l.device n).status = some 0

structure Attributed (l : Line) : Prop where
  answered : ∀ n, (n, ssdOk) ∈ l.returns → Line.Succeeded l n
  data : isRamTable l.cmd = false → l.phase ≠ .idle → l.ctl.errors = ssdOk → Line.Succeeded l l.call
  ram : isRamTable l.cmd = true → l.phase = .writeCmd ∨ l.phase = .poll →
    l.ctl.errorRam ≠ ramPending → Line.Succeeded l l.call
  ramPhase : isRamTable l.cmd = true →
    l.phase = .idle ∨ l.phase = .setRam ∨ l.phase = .writeCmd ∨ l.phase = .poll
  dataPhase : isRamTable l.cmd = false → l.phase ≠ .poll
  later : ∀ n, l.call < n → l.device n = .absent
  ungiven : l.phase = .setRam ∨ l.phase = .addTimer ∨ l.phase = .writeCmd → l.device l.call = .absent

theorem fresh_attributed {l : Line} (fresh : l.Fresh) : Attributed l where
  answered n member := by rw [fresh.returns] at member; cases member
  data _ busy := absurd fresh.phase busy
  ram _ phase := by rw [fresh.phase] at phase; simp at phase
  ramPhase _ := .inl fresh.phase
  dataPhase _ := by rw [fresh.phase]; simp
  later n _ := fresh.device n
  ungiven phase := by rw [fresh.phase] at phase; simp at phase

theorem delTimer_ne_ok : -errDelTimer ≠ ssdOk := by decide

theorem wait_ne_ok : -errWait ≠ ssdOk := by decide

theorem timeout_ne_ok : -errTimeout ≠ ssdOk := by decide

section Steps

variable {l l' : Line}

theorem not_succeeded_of_absent {n : Nat} (absent : l.device n = .absent) : ¬ Line.Succeeded l n := by
  simp [Line.Succeeded, absent, CommandState.status]

/-- The device is not touched, and neither are the call and its command. -/
theorem Attributed.local (inv : Attributed l) (device : l'.device = l.device) (call : l'.call = l.call)
    (cmd : l'.cmd = l.cmd) (returns : ∀ n, (n, ssdOk) ∈ l'.returns → Line.Succeeded l n)
    (data : isRamTable l.cmd = false → l'.phase ≠ .idle → l'.ctl.errors = ssdOk →
      Line.Succeeded l l.call)
    (ram : isRamTable l.cmd = true → l'.phase = .writeCmd ∨ l'.phase = .poll →
      l'.ctl.errorRam ≠ ramPending → Line.Succeeded l l.call)
    (ramPhase : isRamTable l.cmd = true →
      l'.phase = .idle ∨ l'.phase = .setRam ∨ l'.phase = .writeCmd ∨ l'.phase = .poll)
    (dataPhase : isRamTable l.cmd = false → l'.phase ≠ .poll)
    (ungiven : l'.phase = .setRam ∨ l'.phase = .addTimer ∨ l'.phase = .writeCmd →
      l.device l.call = .absent) : Attributed l' := by
  have same : ∀ n, Line.Succeeded l' n ↔ Line.Succeeded l n := fun n => by
    rw [Line.Succeeded, Line.Succeeded, device]
  refine ⟨fun n member => (same n).2 (returns n member), ?_, ?_, ?_, ?_, ?_, ?_⟩
  · rw [cmd, call, same]; exact data
  · rw [cmd, call, same]; exact ram
  · rw [cmd]; exact ramPhase
  · rw [cmd]; exact dataPhase
  · rw [device, call]; exact inv.later
  · rw [device, call]; exact ungiven

/-- A call ends with success only when its command did. -/
theorem Attributed.answer (inv : Attributed l) {ret : Int}
    (earned : ret = ssdOk → Line.Succeeded l l.call) : Attributed (l.answer ret) := by
  refine inv.local rfl rfl rfl (fun n member => ?_) (fun _ busy => absurd rfl busy) (fun _ phase => ?_)
    (fun _ => .inl rfl) (fun _ => nofun) fun phase => ?_
  · rcases List.mem_cons.1 member with last | old
    · cases last
      exact earned rfl
    · exact inv.answered n old
  · simp [Line.answer] at phase
  · simp [Line.answer] at phase

/-- **One statement of the request thread.** -/
theorem Attributed.next (inv : Attributed l) (step : l.next = some l') : Attributed l' := by
  simp only [Line.next] at step
  cases phase : l.phase with
  | idle => simp [phase] at step
  | setRam =>
      simp only [phase] at step
      have absent := inv.ungiven (.inl phase)
      split at step
      · rename_i isRam
        cases step
        exact inv.local rfl rfl rfl inv.answered (fun no => by simp [isRam] at no)
          (fun _ _ cleared => absurd rfl cleared) (fun _ => .inr (.inr (.inl rfl)))
          (fun _ => nofun) fun _ => absent
      · rename_i isData
        cases step
        exact inv.local rfl rfl rfl inv.answered
          (fun no _ => inv.data no (by simp [phase])) (fun yes => absurd yes isData)
          (fun yes => absurd yes isData) (fun _ => nofun) fun _ => absent
  | addTimer =>
      simp only [phase] at step
      have notRam : ¬ isRamTable l.cmd = true := fun yes => by
        have := inv.ramPhase yes
        simp [phase] at this
      cases step
      exact inv.local rfl rfl rfl inv.answered
        (fun no _ => inv.data no (by simp [phase])) (fun yes => absurd yes notRam)
        (fun yes => absurd yes notRam) (fun _ => nofun) fun _ => inv.ungiven (.inr (.inl phase))
  | writeCmd =>
      simp only [phase] at step
      have absent := inv.ungiven (.inr (.inr phase))
      have lost := not_succeeded_of_absent absent
      cases step
      refine ⟨fun n member => ?_, fun no busy ok => ?_, fun yes _ cleared => ?_, fun yes => ?_,
        fun no => ?_, fun n later => ?_, fun early => ?_⟩
      · have other : n ≠ l.call := fun eq => lost (eq ▸ inv.answered n member)
        have kept := inv.answered n member
        simpa only [Line.Succeeded, Function.update_of_ne other] using kept
      · exact absurd (inv.data no (by simp [phase]) ok) lost
      · exact absurd (inv.ram yes (.inl phase) cleared) lost
      · simp only at yes
        simp [yes]
      · simp only at no
        simp [no]
      · simp only [Function.update_of_ne (Nat.ne_of_gt later)]
        exact inv.later n later
      · simp only at early
        split at early <;> simp at early
  | setWaiting =>
      simp only [phase] at step
      have notRam : ¬ isRamTable l.cmd = true := fun yes => by
        have := inv.ramPhase yes
        simp [phase] at this
      cases step
      exact inv.local rfl rfl rfl inv.answered (fun no _ => inv.data no (by simp [phase]))
        (fun yes => absurd yes notRam) (fun yes => absurd yes notRam) (fun _ => nofun)
        fun early => by simp at early
  | wait =>
      simp only [phase] at step
      have notRam : ¬ isRamTable l.cmd = true := fun yes => by
        have := inv.ramPhase yes
        simp [phase] at this
      split at step
      · cases step
        exact inv.local rfl rfl rfl inv.answered (fun no _ => inv.data no (by simp [phase]))
          (fun yes => absurd yes notRam) (fun yes => absurd yes notRam) (fun _ => nofun)
          fun early => by simp at early
      · cases step
  | clearWaiting =>
      simp only [phase] at step
      have notRam : ¬ isRamTable l.cmd = true := fun yes => by
        have := inv.ramPhase yes
        simp [phase] at this
      cases step
      exact inv.local rfl rfl rfl inv.answered (fun no _ => inv.data no (by simp [phase]))
        (fun yes => absurd yes notRam) (fun yes => absurd yes notRam) (fun _ => nofun)
        fun early => by simp at early
  | finish =>
      simp only [phase] at step
      have notRam : ¬ isRamTable l.cmd = true := fun yes => by
        have := inv.ramPhase yes
        simp [phase] at this
      cases step
      exact inv.answer fun ok => inv.data (by simpa using notRam) (by simp [phase]) ok
  | poll =>
      simp only [phase] at step
      have isRam : isRamTable l.cmd = true := by
        by_contra no
        exact inv.dataPhase (by simpa using no) phase
      split at step
      · cases step
      · rename_i cleared
        cases step
        exact inv.answer fun _ => inv.ram isRam (.inr phase) cleared

/-- What an interrupt leaves in the two flags of the control block. -/
theorem ssdInterrupt_flags (failed : Bool) (status : Nat) (c : ChannelCtl) :
    ((ssdInterrupt failed status c).1.errorRam = c.errorRam ∨
        c.errorRam = ramPending ∧ (ssdInterrupt failed status c).1.errors = c.errors) ∧
      ((ssdInterrupt failed status c).1.errors = ssdOk → c.errors = ssdOk ∨
        c.errorRam ≠ ramPending ∧ c.errors ≠ -errTimeout ∧
          if failed then status = 0 else c.timerFunction = true ∧ c.timerPending = true) := by
  simp only [ssdInterrupt]
  split
  · rename_i pending
    exact ⟨.inr ⟨pending, rfl⟩, .inl⟩
  rename_i idle
  split
  · exact ⟨.inl rfl, .inl⟩
  rename_i running
  have timer : (ssdDeleteTimer c).2.errorRam = c.errorRam := by
    simp only [ssdDeleteTimer]
    split <;> rfl
  have stopped : (ssdDeleteTimer c).1 = ssdOk → c.timerFunction = true ∧ c.timerPending = true := by
    simp only [ssdDeleteTimer]
    split
    · rename_i function
      split
      · rename_i pending
        exact fun _ => ⟨function, pending⟩
      · exact fun ok => absurd ok delTimer_ne_ok
    · exact fun ok => absurd ok delTimer_ne_ok
  cases failed with
  | true =>
      refine ⟨.inl timer, fun ok => .inr ⟨idle, running, ?_⟩⟩
      have zero : (status : Int) * 128 = 0 := ok
      rw [if_pos rfl]
      omega
  | false =>
      simp only [Bool.false_eq_true, if_false]
      split
      · exact ⟨.inl timer, fun ok => .inr ⟨idle, running, stopped ok⟩⟩
      · exact ⟨.inl timer, fun ok => .inr ⟨idle, running, stopped ok⟩⟩

/-- **A sound interrupt** is not credited to another command. -/
theorem Attributed.interrupt (inv : Attributed l) {n : Nat} {failed : Bool}
    (sound : Line.Sound l (.interrupt n failed)) (step : l.step (.interrupt n failed) = some l') :
    Attributed l' := by
  simp only [Line.step] at step
  cases given : l.device n with
  | absent | running | raised => simp [given] at step
  | completed status =>
      simp only [given] at step
      have sound := sound status given
      split at step
      · cases step
      cases step
      obtain ⟨errorRam, errors⟩ := ssdInterrupt_flags failed status l.ctl
      -- the status of every command is what it was
      have same : ∀ k, (Function.update l.device n (.raised status) k).status = (l.device k).status := by
        intro k
        by_cases here : k = n
        · subst here
          rw [Function.update_self, given]
          rfl
        · rw [Function.update_of_ne here]
      have own : n = l.call ∧ status = 0 → Line.Succeeded l l.call := by
        rintro ⟨rfl, rfl⟩
        simp only [Line.Succeeded, given, CommandState.status]
      refine ⟨fun k member => ?_, fun isData busy ok => ?_, fun isRam polled cleared => ?_, inv.ramPhase,
        inv.dataPhase, fun k later => ?_, fun early => ?_⟩
      · exact (same k).trans (inv.answered k member)
      · refine (same _).trans ?_
        rcases errors ok with before | credited
        · exact inv.data isData busy before
        · refine own (sound ?_)
          simp only at isData
          obtain ⟨idle, running, found⟩ := credited
          rw [Line.Credited, if_neg (by simp [isData])]
          refine ⟨busy, idle, running, ?_⟩
          cases failed with
          | true => exact Fin.ext found
          | false => exact found
      · refine (same _).trans ?_
        rcases errorRam with kept | ⟨pending, -⟩
        · exact inv.ram isRam polled (kept ▸ cleared)
        · refine own (sound ?_)
          simp only at isRam
          rw [Line.Credited, if_pos isRam]
          exact ⟨polled, pending⟩
      · have other : k ≠ n := by
          rintro rfl
          rw [inv.later k later] at given
          cases given
        exact (Function.update_of_ne other ..).trans (inv.later k later)
      · have other : l.call ≠ n := by
          rintro rfl
          rw [inv.ungiven early] at given
          cases given
        exact (Function.update_of_ne other ..).trans (inv.ungiven early)

/-- A command that completes was running, so nothing was said about it yet. -/
theorem Attributed.complete (inv : Attributed l) {n : Nat} {status : Fin 32}
    (step : l.step (.complete n status) = some l') : Attributed l' := by
  simp only [Line.step] at step
  split at step
  · rename_i running
    cases step
    have kept : ∀ k, Line.Succeeded l k →
        (Function.update l.device n (.completed status) k).status = some 0 := by
      intro k before
      have other : k ≠ n := by
        rintro rfl
        rw [Line.Succeeded, running] at before
        cases before
      rw [Function.update_of_ne other]
      exact before
    refine ⟨fun k member => kept k (inv.answered k member),
      fun isData busy ok => kept _ (inv.data isData busy ok),
      fun isRam polled cleared => kept _ (inv.ram isRam polled cleared), inv.ramPhase, inv.dataPhase,
      fun k later => ?_, fun early => ?_⟩
    · have other : k ≠ n := by
        rintro rfl
        rw [inv.later k later] at running
        cases running
      exact (Function.update_of_ne other ..).trans (inv.later k later)
    · have other : l.call ≠ n := by
        rintro rfl
        rw [inv.ungiven early] at running
        cases running
      exact (Function.update_of_ne other ..).trans (inv.ungiven early)
  · cases step

/-- **One event** that is sound. -/
theorem Attributed.step (inv : Attributed l) {e : Event} (sound : Line.Sound l e)
    (step : l.step e = some l') : Attributed l' := by
  cases e with
  | call cmd =>
      simp only [Line.step] at step
      split at step
      · rename_i idle
        cases step
        have absent := inv.later (l.call + 1) (Nat.lt_succ_self _)
        exact ⟨inv.answered, fun _ _ ok => absurd ok wait_ne_ok, fun _ phase => by simp at phase,
          fun _ => .inr (.inl rfl), fun _ => nofun, fun n later => inv.later n (Nat.lt_of_succ_lt later),
          fun _ => absent⟩
      · cases step
  | next => exact inv.next step
  | giveUp =>
      simp only [Line.step] at step
      cases phase : l.phase with
      | wait =>
          simp only [phase] at step
          have notRam : ¬ isRamTable l.cmd = true := fun yes => by
            have := inv.ramPhase yes
            simp [phase] at this
          cases step
          exact inv.local rfl rfl rfl inv.answered (fun no _ => inv.data no (by simp [phase]))
            (fun yes => absurd yes notRam) (fun yes => absurd yes notRam) (fun _ => nofun)
            fun early => by simp at early
      | poll =>
          simp only [phase] at step
          cases step
          exact inv.answer fun ok => by cases ok
      | idle | setRam | addTimer | writeCmd | setWaiting | clearWaiting | finish =>
          simp [phase] at step
  | timer =>
      simp only [Line.step, ssdTimeout] at step
      split at step
      · cases step
        exact inv.local rfl rfl rfl inv.answered (fun _ _ ok => absurd ok timeout_ne_ok) inv.ram inv.ramPhase
          inv.dataPhase inv.ungiven
      · cases step
  | complete n status => exact inv.complete step
  | interrupt n failed => exact inv.interrupt sound step

end Steps

/-! ## Runs -/

theorem run_attributed {l l' : Line} (inv : Attributed l) (run : Line.Run Line.Sound l l') :
    Attributed l' := by
  induction run with
  | refl => exact inv
  | tail _ sound step ih => exact ih.step sound step

/-- **A success is earned.** In a run whose interrupts are sound, a call that
returned `SSD_OK` had its command completed with success. -/
theorem ok_means_completed {l l' : Line} (fresh : l.Fresh) (run : Line.Run Line.Sound l l') (n : Nat)
    (returned : (n, ssdOk) ∈ l'.returns) : (l'.device n).status = some 0 :=
  (run_attributed (fresh_attributed fresh) run).answered n returned

/-- A channel after `ssd_set_conf`. -/
def newLine : Line :=
  ⟨⟨0, 0, false, false, false⟩, .idle, 0, 0, false, fun _ => .absent, []⟩

theorem newLine_fresh : newLine.Fresh := ⟨rfl, rfl, fun _ => rfl, rfl⟩

/-- A write that is completed and returns. -/
theorem ok_means_completed_write : ∃ l', (1, ssdOk) ∈ l'.returns ∧
    Line.Run Line.Sound newLine l' ∧ (l'.device 1).status = some 0 := by
  have given := (Line.Run.refl newLine : Line.Run Line.Sound newLine newLine).play
    [.call flagWrite, .next, .next, .next, .next, .complete 1 0]
    (by simp [Line.Sound]) rfl
  have interrupted := given.tail (e := .interrupt 1 false)
    (fun status done _ => by cases done; exact ⟨rfl, rfl⟩) rfl
  have finished := interrupted.play [.next, .next, .next]
    (by simp [Line.Sound]) rfl
  have returned : (1, ssdOk) ∈ [(1, ssdOk)] := List.mem_singleton.2 rfl
  exact ⟨_, returned, finished, ok_means_completed newLine_fresh finished 1 returned⟩

/-! ## The wrong successes -/

def anyEvent : Line → Event → Prop := fun _ _ => True

/-- **A late interrupt is credited to the next command.** The first write times
out, the second one is given; then the first completes, and the second call
returns `SSD_OK` while its command is still running. -/
theorem late_interrupt_is_credited : newLine.Fresh ∧ ∃ l', Line.Run anyEvent newLine l' ∧
    (2, ssdOk) ∈ l'.returns ∧ l'.device 2 = .running :=
  ⟨newLine_fresh, _, (Line.Run.refl newLine).play
    [.call flagWrite, .next, .next, .next, .next, .timer, .next, .next, .next,
      .call flagWrite, .next, .next, .next, .next, .complete 1 0, .interrupt 1 false,
      .next, .next, .next] (fun _ _ _ => trivial) rfl, List.mem_cons_self .., rfl⟩

/-- **A failed RAM-table command succeeds**: the handler clears its flag whatever
the status is. -/
theorem failed_ram_table_succeeds : newLine.Fresh ∧ ∃ l', Line.Run anyEvent newLine l' ∧
    (1, ssdOk) ∈ l'.returns ∧ (l'.device 1).status = some 5 :=
  ⟨newLine_fresh, _, (Line.Run.refl newLine).play
    [.call flagWriteAddrTable, .next, .next, .complete 1 5, .interrupt 1 true, .next]
    (fun _ _ _ => trivial) rfl, List.mem_cons_self .., rfl⟩

end FpgaSsd.Theory
