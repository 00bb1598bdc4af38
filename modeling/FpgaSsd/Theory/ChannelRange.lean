/-
# Theory.ChannelRange — channel numbers across the library and the driver

The arrays of 44 entries are `g_ssd_fd` in the library and `channel_ctl`,
`kbuftable_cpu` and `ch_hash` in the driver. Some calls are checked in the library, some
in the driver, and some in neither.

* `ChannelInside`, `IndexInside` — the indices that an action uses;
* `markBadId_stays` — the channel of a node is used once it was compared;
* `Sound` — the arguments and the state for which a call is checked in time;
* `staysInRange_iff` — a call uses no other index and refuses what is out of range if
  and only if it is sound.
-/
import FpgaSsd.Api.Tables
import FpgaSsd.Theory.MarkBad

namespace FpgaSsd.Theory

open FpgaSsd.Lib FpgaSsd.Driver FpgaSsd.Api

set_option autoImplicit false

/-! ## Indices -/

/-- The entries of the driver's arrays that an action uses. -/
def ChannelInside : Act → Prop
  | .chan c _ | .down c | .up c => c < ssdMaxChannel
  | _ => True

/-- The same of `g_ssd_fd`. -/
def IndexInside : UserAct → Prop
  | .gSsdFd i => 0 ≤ i ∧ i < ssdMaxChannel
  | .kernel a => ChannelInside a

/-- Every action of `p` stays inside, and `post` holds at the end. -/
abbrev Stays {α : Type} (p : Drv α) (post : α → Device → Prop) (d : Device) : Prop :=
  Safe (Device.perform 0) (Permits anyOutcome ChannelInside) p post d

section Driver

variable {α : Type} {c : Nat} {d : Device}

theorem channelOp_inside (inside : c < ssdMaxChannel) (cmd : Nat) : (channelOp c cmd).All ChannelInside :=
  ⟨inside, fun _ => ⟨inside, fun _ => trivial⟩⟩

theorem withSema_inside (inside : c < ssdMaxChannel) {body : Drv α} (all : body.All ChannelInside) :
    (Drv.withSema c body).All ChannelInside :=
  ⟨inside, fun _ => all.bind fun _ => ⟨inside, fun _ => trivial⟩⟩

theorem ssdTableRead_inside {p : TableParam} (inside : p.channel < ssdMaxChannel) :
    (ssdTableRead p).All ChannelInside := by
  apply withSema_inside inside
  refine (channelOp_inside inside _).bind fun ret => ?_
  split
  · trivial
  · refine ⟨inside, fun copied => ?_⟩
    cases copied <;> trivial

theorem markBadTables_inside (inside : c < ssdMaxChannel) (block : Nat) (blocks : List Nat) :
    (markBadTables c block blocks).All ChannelInside := by
  refine (channelOp_inside inside _).bind fun ret => ?_
  split
  · trivial
  refine ⟨inside, fun addr => (channelOp_inside inside _).bind fun ret => ?_⟩
  split
  · trivial
  · exact ⟨inside, fun _ => channelOp_inside inside _⟩

theorem findBadBlocks_inside (inside : c < ssdMaxChannel) (block start n : Nat) :
    (findBadBlocks c block start n).All ChannelInside := by
  induction n generalizing start with
  | zero => trivial
  | succ n ih => exact (channelOp_inside inside _).bind fun ret => (ih _).bind fun _ => trivial

/-- The driver compares the channel itself. -/
theorem ssdMarkEraseCount_inside (p : MarkEraseCountParam) : (ssdMarkEraseCount p).All ChannelInside := by
  unfold ssdMarkEraseCount
  split
  · trivial
  rename_i low
  have inside : p.channel < ssdMaxChannel := Nat.lt_of_not_le low
  split
  · trivial
  refine ⟨trivial, fun null => ?_⟩
  show (if null then _ else _ : Drv Int).All ChannelInside
  split
  · trivial
  apply withSema_inside inside
  refine ⟨trivial, fun failed => ?_⟩
  show (if failed then _ else _ : Drv Int).All ChannelInside
  split
  · trivial
  refine (channelOp_inside inside _).bind fun ret => ?_
  split
  · trivial
  · exact ⟨inside, fun _ => channelOp_inside inside _⟩

/-- A triple about programs whose actions all stay inside. -/
theorem stays_of_all {p : Drv α} {post : α → Device → Prop} (all : p.All ChannelInside)
    (holds : Holds anyOutcome p post d) : Stays p post d := by
  induction p generalizing d with
  | pure value => exact holds
  | act a rest ih =>
      intro t same
      exact ⟨all.1, fun o r u allowed step => ih r (all.2 r) ((holds t same).2 o r u allowed step)⟩

theorem stays_seq {β : Type} {p : Drv α} {next : α → Drv β} {M : α → Device → Prop} {post : β → Device → Prop}
    (first : Stays p M d) (rest : ∀ value d', M value d' → Stays (next value) post d') :
    Stays (p >>= next) post d := Safe.seq (permits_steady ..) first rest

theorem stays_all {p : Drv α} (all : p.All ChannelInside) (d : Device) : Stays p (fun _ _ => True) d :=
  permits_all all d

/-- **A mark-bad by id** uses the channel of the node only where it was found equal to the
channel of the id. -/
theorem markBadId_stays (inside : c < ssdMaxChannel) (id : BlockId) (d : Device) :
    Stays (markBadId c id) (fun _ _ => True) d := by
  refine stays_seq (stays_of_all ⟨inside, fun _ => trivial⟩ getIdInfo_quiet) ?_
  rintro known d1 ⟨rfl, same1⟩
  cases found : find (ledger d c).2 id with
  | none => exact stays_all (p := .pure _) trivial d1
  | some info =>
      have memory : Holds anyOutcome (Program.perform Act.kmalloc) (fun _ d' => ledger d' = ledger d1) d1 :=
        Holds.neutral ⟨trivial, fun _ => trivial⟩
      refine stays_seq (stays_of_all ⟨trivial, fun _ => trivial⟩ memory) fun null d2 same2 => ?_
      split
      · exact stays_all (p := .pure _) trivial d2
      split
      · exact stays_all (p := .pure _) trivial d2
      rename_i home
      have home : c = info.channel.val := not_not.1 home
      have reads : Holds anyOutcome (findBadBlocks c info.block.val 0 info.len.size)
          (fun _ d' => ledger d' = ledger d2) d2 :=
        Holds.neutral ((findBadBlocks_onBuffer ..).mono fun _ => Act.OnBuffer.neutral)
      refine stays_seq (stays_of_all (findBadBlocks_inside inside ..) reads) fun marks d3 same3 => ?_
      split
      · exact stays_all (p := .pure _) trivial d3
      have found3 : find (ledger d3 c).2 id = some info := by
        rw [same3, same2, same1]
        exact found
      refine stays_seq (stays_of_all ⟨inside, fun _ => trivial⟩ (delIdInfo_quiet found3)) ?_
      rintro _ d4 ⟨rfl, -⟩
      have own : info.channel.val < ssdMaxChannel := home ▸ inside
      refine stays_all ?_ d4
      refine (channelOp_inside inside _).bind fun ret => ?_
      split
      · exact ⟨own, fun _ => trivial⟩
      · exact ⟨own, fun _ => markBadTables_inside inside ..⟩

theorem ssdMarkBadBlock_stays {p : MarkBadParam} (inside : p.type = paramBlock → p.channel % 256 < ssdMaxChannel)
    (d : Device) : Stays (ssdMarkBadBlock p) (fun _ _ => True) d := by
  unfold ssdMarkBadBlock
  split
  · have own := id2channel_lt p.id
    have marks := markBadId_stays own p.id
    exact permits_withSema own own (marks _)
  split
  · rename_i byBlock
    have own := inside byBlock
    have body : (markBadBlockParam (p.channel % 256) p.block).All ChannelInside := by
      refine ⟨trivial, fun null => ?_⟩
      show (if null then _ else _ : Drv Int).All ChannelInside
      split
      · trivial
      · exact markBadTables_inside own ..
    exact stays_all (withSema_inside own body) d
  · exact stays_all (p := .pure _) trivial d

end Driver

/-! ## Calls -/

/-- Every action of a call stays inside, and `post` holds of what it returns. -/
abbrev UserStays {α : Type} (p : Usr α) (post : α → Prop) (d : Device) : Prop :=
  Safe (userPerform 0) ⟨Eq, fun _ => IndexInside, fun _ _ _ => True⟩ p (fun value _ => post value) d

section Calls

variable {α β : Type} {d : Device}

theorem userStays_pure {value : α} {post : α → Prop} (holds : post value) :
    UserStays (Program.pure value) post d := fun _ _ => holds

theorem userStays_seq {p : Usr α} {next : α → Usr β} {M : α → Prop} {post : β → Prop}
    (first : UserStays p M d) (rest : ∀ value d', M value → UserStays (next value) post d') :
    UserStays (p >>= next) post d :=
  Safe.seq ⟨fun _ => rfl, Eq.trans⟩ first rest

theorem userStays_map {p : Usr α} (f : α → β) {post : β → Prop}
    (spec : UserStays p (fun value => post (f value)) d) : UserStays (f <$> p) post d :=
  userStays_seq spec fun _ _ holds => userStays_pure holds

theorem inKernel_stays {p : Drv α} {post : α → Prop} (stays : Stays p (fun value _ => post value) d) :
    UserStays (inKernel p) post d := by
  unfold inKernel
  refine Safe.embed ?_ ?_ ?_ ?_ stays
  · exact fun same => same
  · exact fun _ _ inside => inside
  · exact fun _ _ _ _ => trivial
  · exact fun _ _ _ _ _ step => step

/-- A request through a descriptor of the array. -/
theorem ioctl_stays {fd : Descriptor} {request : Ioctl} {post : Int × Option Mem → Prop}
    (shared : ∀ i, fd = .shared i → 0 ≤ i ∧ i < ssdMaxChannel)
    (stays : ∀ d, Stays (ssdBlockIoctl request) (fun value _ => post value) d) :
    UserStays (ioctl fd request) post d := by
  cases fd with
  | own => exact inKernel_stays (stays d)
  | shared i =>
      rintro d' rfl
      exact ⟨shared i rfl, fun o r d'' _ step => by cases step; exact inKernel_stays (stays d)⟩

/-- What every attempt keeps. -/
theorem attempts_stays {request : Usr Int} {post : Int → Prop} (each : ∀ d, UserStays request post d)
    (n : Nat) (ret : Int) (d : Device) : UserStays (attempts request (n + 1) ret) post d := by
  induction n generalizing ret d with
  | zero =>
      refine userStays_seq (each d) fun ret d' holds => ?_
      split <;> exact userStays_pure holds
  | succ n ih =>
      refine userStays_seq (each d) fun ret d' holds => ?_
      split
      · exact userStays_pure holds
      · exact ih ret d'

/-- The requests of `ssd_block_ioctl` behind their parameter block. -/
theorem stays_withParam {request : Ioctl} {body : Drv (Int × Option Mem)} {post : Int × Option Mem → Prop}
    (same : ioctlBody request = withParam (-errCopyFromUser, none) body) (fault : post (errCopyFromUser, none))
    (stays : ∀ d, Stays body (fun r _ => post (if r.1 < 0 then -r.1 else r.1, r.2)) d) (d : Device) :
    Stays (ssdBlockIoctl request) (fun value _ => post value) d := by
  unfold ssdBlockIoctl
  rw [same]
  refine stays_seq (M := fun r _ => post (if r.1 < 0 then -r.1 else r.1, r.2)) ?_ fun r d' holds => ?_
  · rintro d' rfl
    refine ⟨trivial, fun o failed d'' _ step => ?_⟩
    cases step
    show Stays (if o.failed then _ else body) _ d
    split
    · exact fun _ _ => fault
    · exact stays d
  · exact fun _ _ => holds

end Calls

/-! ## Sound calls -/

def ChannelArgument (channel : Int) : Prop := 0 ≤ channel ∧ channel < ssdMaxChannel

def BlockArgument (block : Int) : Prop := 0 ≤ block ∧ block < ssdMaxVirblocksPerChannel

/-- An argument is out of range; a mark-bad by id looks at neither. -/
def OutOfRange : TableCall → Prop
  | .readAddrtable channel | .readErasetable channel | .utilTest channel => ¬ ChannelArgument channel
  | .markBadId .. => False
  | .markBadBlock _ _ block channel => ¬ (ChannelArgument channel ∧ BlockArgument block)
  | .markEraseCount _ _ channel => ¬ ChannelArgument channel

/-- The answer is an error; the only one of `SSD_util_test` is the missing device. -/
def Refuses : TableCall → Int → Prop
  | .utilTest _, ret => ret = 2 ^ 64 - errOepnDevFailed
  | _, ret => ret < 0

/-- Whether a call is checked before its channel is used. -/
def Sound (u : Caller) : TableCall → Prop
  | .readAddrtable channel | .readErasetable channel => channel ≠ ssdMaxChannel ∨ u.opens (devPath 0) = false
  | .utilTest channel => ChannelArgument channel ∨ u.opens (devPath channel) = false
  | .markBadId .. => True
  | .markBadBlock devNum _ block channel =>
      ChannelArgument channel ∧ BlockArgument block ∨ ssdMaxChannel ≤ channel % 65536 ∨
        ssdMaxVirblocksPerChannel ≤ block % 65536 ∨ u.opened = false ∧ devNum ≠ monitorDev ∨
          devNum = monitorDev ∧ u.opens (devPath 0) = false
  | .markEraseCount _ count channel =>
      ChannelArgument channel ∨ u.opened = false ∨
        channel % 256 < ssdMaxChannel ∧ ssdMaxPhyblocksPerChannel < count % 65536

/-- From every state of the driver, a call uses only entries that exist, and it answers
arguments that are out of range with an error. -/
structure StaysInRange (u : Caller) (call : TableCall) : Prop where
  indices : ∀ d a rest d', Reaches (userPerform 0) (fun _ _ _ => True) (call.run u) d (.act a rest) d' →
    IndexInside a
  refused : OutOfRange call → ∀ d ret d', Runs (userPerform 0) (fun _ _ _ => True) (call.run u) d ret d' →
    Refuses call ret

section Sound

variable {u : Caller} {call : TableCall}

theorem staysInRange_of_stays
    (stays : ∀ d, UserStays (call.run u) (fun ret => OutOfRange call → Refuses call ret) d) :
    StaysInRange u call := by
  constructor
  · intro d a rest d' reach
    exact ((stays d).reaches (fun _ => rfl) reach d' rfl).1
  · intro outside d ret d' run
    exact (stays d).runs (fun _ => rfl) run outside

theorem apiValue_neg {value : Int} (failed : value ≠ ssdOk) : apiValue value < 0 := by
  simp only [apiValue, ssdOk] at *
  omega

/-- A table of a channel that exists. -/
theorem readTable_stays {channel : Int} (inside : ChannelArgument channel) (type : Nat) (d : Device) :
    UserStays (ioctl .own (.readTable ⟨(channel % 256).toNat, type⟩)) (fun _ => True) d := by
  apply ioctl_stays
  · rintro i ⟨⟩
  · intro d
    obtain ⟨low, high⟩ := inside
    refine stays_withParam rfl trivial (fun d => stays_all (ssdTableRead_inside ?_) d) d
    simp only [ssdMaxChannel] at *
    omega

theorem ssdReadTable_stays {channel : Int} (type : Nat)
    (sound : channel ≠ ssdMaxChannel ∨ u.opens (devPath 0) = false) (d : Device) :
    UserStays (Prod.fst <$> ssdReadTable type u channel) (fun ret => ¬ ChannelArgument channel → ret < 0) d := by
  apply userStays_map
  unfold ssdReadTable
  split
  · exact userStays_pure fun _ => by decide
  split
  · exact userStays_pure fun _ => by decide
  rename_i checked opens
  have inside : ChannelArgument channel := by
    rcases sound with other | closed
    · simp only [ChannelArgument, ssdMaxChannel] at *
      omega
    · exact absurd closed opens
  refine userStays_seq (readTable_stays inside type d) fun _ _ _ => ?_
  exact userStays_pure fun outside => absurd inside outside

theorem ssdUtilTest_stays {channel : Int} (sound : ChannelArgument channel ∨ u.opens (devPath channel) = false)
    (d : Device) : UserStays ((fun value : Nat => (value : Int)) <$> ssdUtilTest u channel)
      (fun ret => ¬ ChannelArgument channel → ret = 2 ^ 64 - errOepnDevFailed) d := by
  apply userStays_map
  unfold ssdUtilTest
  split
  · exact userStays_pure fun _ => by decide
  rename_i opens
  have inside : ChannelArgument channel := sound.resolve_right opens
  split
  · exact userStays_pure fun outside => absurd inside outside
  refine userStays_seq (readTable_stays inside _ d) ?_
  rintro ⟨ret, data⟩ d' -
  dsimp only
  split
  · exact userStays_pure fun outside => absurd inside outside
  · exact userStays_pure fun outside => absurd inside outside

/-- The marks of a block are requests with a channel that exists. -/
theorem markBad_stays {fd : Descriptor} {p : MarkBadParam} (shared : ∀ i, fd = .shared i → 0 ≤ i ∧ i < ssdMaxChannel)
    (inside : p.type = paramBlock → p.channel % 256 < ssdMaxChannel) (d : Device) :
    UserStays (attempts (Prod.fst <$> ioctl fd (.markBadBlock p)) 3 0) (fun _ => True) d := by
  apply attempts_stays
  intro d
  apply userStays_map
  apply ioctl_stays shared
  intro d
  refine stays_withParam rfl trivial (fun d => ?_) d
  exact stays_seq (ssdMarkBadBlock_stays inside d) fun _ _ _ => fun _ _ => trivial

/-- What is checked in the library is refused there, and what is not is in range. -/
theorem ssdCallMarkBadBlock_stays {devNum block channel : Int} {id : BlockId}
    (sound : Sound u (.markBadBlock devNum id block channel)) (d : Device) :
    UserStays (ssdCallMarkBadBlock u devNum paramBlock id block channel)
      (fun ret => ¬ (ChannelArgument channel ∧ BlockArgument block) → ret < 0) d := by
  unfold ssdCallMarkBadBlock
  simp only [paramBlock, paramId, true_and, Nat.one_ne_zero, if_false, if_true]
  split
  · exact userStays_pure fun _ => by decide
  rename_i opened
  split
  · exact userStays_pure fun _ => by decide
  rename_i checked
  split
  · exact userStays_pure fun _ => by decide
  rename_i monitor
  have inside : ChannelArgument channel ∧ BlockArgument block := by
    rcases sound with inside | far | far | closed | closed
    · exact inside
    · simp only [ssdMaxChannel] at *
      omega
    · simp only [ssdMaxVirblocksPerChannel] at *
      omega
    · exact absurd closed opened
    · exact absurd closed monitor
  have ⟨low, high⟩ := inside.1
  simp only [ssdMaxChannel] at low high
  refine userStays_seq (markBad_stays ?_ ?_ d) fun ret d' _ => userStays_pure fun outside => absurd inside outside
  · intro i same
    split at same <;> cases same
    simp only [ssdMaxChannel]
    omega
  · intro _
    simp only [ssdMaxChannel]
    omega

theorem ssdCallMarkBadBlock_id_stays {devNum block channel : Int} {id : BlockId} (d : Device) :
    UserStays (ssdCallMarkBadBlock u devNum paramId id block channel) (fun _ => True) d := by
  unfold ssdCallMarkBadBlock
  simp only [paramBlock, paramId, Nat.zero_ne_one, false_and, if_false, if_true]
  split
  · exact userStays_pure trivial
  split
  · exact userStays_pure trivial
  refine userStays_seq (markBad_stays ?_ ?_ d) fun ret d' _ => userStays_pure trivial
  · intro i same
    split at same <;> cases same
    simp only [libId2channel, ssdMaxChannel]
    omega
  · intro byBlock
    cases byBlock

theorem ssdCallMarkEraseCount_stays {buffer : Mem} {count channel : Int}
    (sound : Sound u (.markEraseCount buffer count channel)) (d : Device) :
    UserStays (ssdCallMarkEraseCount u buffer count channel) (fun ret => ¬ ChannelArgument channel → ret < 0) d := by
  unfold ssdCallMarkEraseCount
  split
  · exact userStays_pure fun _ => by decide
  rename_i opened
  have index : channel % 256 < ssdMaxChannel ∧
      (ChannelArgument channel ∨ ssdMaxPhyblocksPerChannel < count % 65536) := by
    rcases sound with inside | closed | far
    · refine ⟨?_, .inl inside⟩
      obtain ⟨low, high⟩ := inside
      simp only [ssdMaxChannel] at *
      omega
    · exact absurd closed opened
    · exact ⟨far.1, .inr far.2⟩
  refine userStays_seq (M := fun ret => ¬ ChannelArgument channel → ret ≠ ssdOk) ?_ ?_
  · apply attempts_stays
    intro d
    apply userStays_map
    apply ioctl_stays
    · rintro i ⟨⟩
      simp only [ssdMaxChannel] at *
      omega
    intro d
    refine stays_withParam rfl (fun _ => by decide) (fun d => ?_) d
    rcases index.2 with inside | many
    · refine stays_seq (stays_all (ssdMarkEraseCount_inside _) d) fun ret d' _ => ?_
      exact fun _ _ outside => absurd inside outside
    · have refuses : ssdMarkEraseCount ⟨(channel % 256).toNat, (count % 65536).toNat, buffer⟩ = pure ssdError := by
        unfold ssdMarkEraseCount
        split
        · rfl
        · rw [if_pos]
          simp only [ssdMaxPhyblocksPerChannel] at *
          omega
      rw [noData, refuses]
      exact fun _ _ _ => by decide
  · intro ret d' failed
    exact userStays_pure fun outside => apiValue_neg (failed outside)

/-- **A sound call** stays in range. -/
theorem Sound.staysInRange (sound : Sound u call) : StaysInRange u call := by
  apply staysInRange_of_stays
  intro d
  cases call with
  | readAddrtable channel => exact ssdReadTable_stays tableAddrType sound d
  | readErasetable channel => exact ssdReadTable_stays tableEraseType sound d
  | utilTest channel => exact ssdUtilTest_stays sound d
  | markBadId devNum id block channel =>
      exact (ssdCallMarkBadBlock_id_stays d).weaken fun _ _ _ outside => outside.elim
  | markBadBlock devNum id block channel => exact ssdCallMarkBadBlock_stays sound d
  | markEraseCount buffer count channel => exact ssdCallMarkEraseCount_stays sound d

end Sound

/-! ## Calls that are not sound -/

section Runs

variable {α β : Type} {u : Caller} {d d' : Device}

/-- A run of a call from a state. -/
abbrev UserRun (p : Usr α) (d : Device) (value : α) (d' : Device) : Prop :=
  Runs (userPerform 0) (fun _ _ _ => True) p d value d'

theorem UserRun.seq {p : Usr α} {next : α → Usr β} {mid : α} {value : β} {d'' : Device}
    (first : UserRun p d mid d') (rest : UserRun (next mid) d' value d'') : UserRun (p >>= next) d value d'' :=
  runs_bind_iff.2 ⟨mid, d', first, rest⟩

theorem UserRun.map {p : Usr α} (f : α → β) {value : α} (run : UserRun p d value d') :
    UserRun (f <$> p) d (f value) d' := run.seq (.pure _ _)

/-- A request that the driver answers is answered to the call. -/
theorem ioctl_run {fd : Descriptor} {request : Ioctl} {value : Int × Option Mem} {may : May}
    (run : Run may (ssdBlockIoctl request) d value d') : UserRun (ioctl fd request) d value d' := by
  have kernel : UserRun (inKernel (ssdBlockIoctl request)) d value d' := by
    unfold inKernel
    refine Runs.embed ?_ ?_ run
    · exact fun _ _ _ _ => trivial
    · exact fun a o s r t step => ⟨r, rfl, step⟩
  cases fd with
  | own => exact kernel
  | shared i => exact .act (o := succeeds) trivial rfl kernel

/-- The first attempt succeeds. -/
theorem attempts_run {request : Usr Int} (n : Nat) (ret : Int) (run : UserRun request d ssdOk d') :
    UserRun (attempts request (n + 1) ret) d ssdOk d' :=
  run.seq (by rw [if_pos rfl]; exact .pure _ _)

/-! ### Answers -/

theorem channelOp_ok {c cmd : Nat} (plain : (Command.ofWord cmd).flag ≠ flagReadtablesFromFlash) :
    Holds noFailure (channelOp c cmd) (fun ret _ => ret = ssdOk) d := by
  refine Holds.seq (M := fun _ d1 => (d1.ch c).outstanding = some cmd) ?_ fun _ d1 issued => ?_
  · refine Holds.chan fun o r ch _ step => ?_
    cases step
    rw [Device.setCh_ch_same]
  · refine Holds.chan fun o r ch allowed step => ?_
    obtain ⟨cmd', kbuf, flash, out, -, rfl, -⟩ := Channel.perform_await step
    obtain ⟨-, -, answer⟩ := allowed
    rcases answer c rfl with ok | ⟨⟨lost, out, read, -⟩, -⟩
    · rw [ok]
      rfl
    · rw [issued] at out
      cases out
      exact absurd read plain

theorem ramTableRead_ok (p : TableParam) : Holds noFailure (ramTableRead p) (fun ret _ => ret = ssdOk) d := by
  apply channelOp_ok
  split <;> decide

theorem markBadTables_ok (c block : Nat) (blocks : List Nat) :
    Holds noFailure (markBadTables c block blocks) (fun ret _ => ret = ssdOk) d := by
  refine Holds.seq (ramTableRead_ok _) fun ret d1 ok => ?_
  rw [if_neg (not_not.2 ok)]
  refine Holds.seq (M := fun _ _ => True) (Holds.chan fun _ _ _ _ _ => trivial) fun addr d2 _ => ?_
  refine Holds.seq (ramTableRead_ok _) fun ret d3 ok => ?_
  rw [if_neg (not_not.2 ok)]
  refine Holds.seq (M := fun _ _ => True) (Holds.chan fun _ _ _ _ _ => trivial) fun _ d4 _ => ?_
  exact channelOp_ok (by decide)

theorem withSema_ok {c : Nat} {body : Drv Int} (each : ∀ d, Holds noFailure body (fun ret _ => ret = ssdOk) d) :
    Holds noFailure (Drv.withSema c body) (fun ret _ => ret = ssdOk) d := by
  refine Holds.seq (M := fun _ _ => True) (Holds.perform fun _ _ _ _ _ => trivial) fun _ d1 _ => ?_
  refine Holds.seq (each d1) fun ret d2 ok => ?_
  exact Holds.seq (M := fun _ _ => True) (Holds.perform fun _ _ _ _ _ => trivial) fun _ d3 _ => Holds.pure ok

/-- An allocation or a copy that does not fail. -/
theorem unfailed_ok {a : Act} {next : a.Reply → Drv Int} {post : Int → Device → Prop} (good : a.Reply)
    (replies : ∀ o r d', noFailure d a o → d.perform 0 a o = some (r, d') → r = good)
    (rest : ∀ d', Holds noFailure (next good) post d') : Holds noFailure (Program.perform a >>= next) post d :=
  Holds.seq (M := fun r _ => r = good) (Holds.perform replies) fun r d' same => by
    rw [same]
    exact rest d'

theorem ssdMarkBadBlock_ok {p : MarkBadParam} (byBlock : p.type = paramBlock) :
    Holds noFailure (ssdMarkBadBlock p) (fun ret _ => ret = ssdOk) d := by
  unfold ssdMarkBadBlock
  rw [if_neg (by rw [byBlock]; decide), if_pos byBlock]
  refine withSema_ok fun d => unfailed_ok false ?_ fun d' => ?_
  · rintro o r d' allowed ⟨⟩
    exact allowed.1
  · exact markBadTables_ok (p.channel % 256) p.block [badBlock]

theorem ssdMarkEraseCount_ok {p : MarkEraseCountParam} (inside : p.channel < ssdMaxChannel)
    (few : p.count ≤ ssdMaxPhyblocksPerChannel) :
    Holds noFailure (ssdMarkEraseCount p) (fun ret _ => ret = ssdOk) d := by
  unfold ssdMarkEraseCount
  rw [if_neg (Nat.not_le_of_lt inside), if_neg (Nat.not_lt_of_le few)]
  refine unfailed_ok false ?_ fun d' => withSema_ok fun d => unfailed_ok false ?_ fun d' => ?_
  · rintro o r d' allowed ⟨⟩
    exact allowed.1
  · rintro o r d' allowed ⟨⟩
    exact allowed.1
  refine Holds.seq (ramTableRead_ok _) fun ret d3 ok => ?_
  rw [if_neg (not_not.2 ok)]
  refine Holds.seq (M := fun _ _ => True) (Holds.chan fun _ _ _ _ _ => trivial) fun _ d4 _ => ?_
  exact channelOp_ok (by decide)

/-- A request that succeeds without failures has such a run. -/
theorem request_run {request : Ioctl} {body : Drv Int}
    (same : ioctlBody request = withParam (-errCopyFromUser, none) (noData body))
    (locks : ∀ h, Free h → Locks false anyReply body h)
    (ok : ∀ d, Holds noFailure body (fun ret _ => ret = ssdOk) d) :
    ∃ d, Run noFailure (ssdBlockIoctl request) emptyDevice (ssdOk, none) d := by
  have spec : Holds noFailure (ssdBlockIoctl request) (fun r _ => r = (ssdOk, none)) emptyDevice := by
    unfold ssdBlockIoctl
    rw [same]
    refine Holds.seq (M := fun r _ => r = (ssdOk, none)) ?_ fun r d' value => ?_
    · refine Holds.seq (M := fun r _ => r = false) (Holds.perform ?_) fun failed d' good => ?_
      · rintro o r d' allowed ⟨⟩
        exact allowed.1
      · rw [if_neg (by rw [good]; decide)]
        refine Holds.seq (ok d') fun ret d'' value => Holds.pure ?_
        rw [value]
    · rw [value]
      exact Holds.pure rfl
  have free : Locks false anyReply (ssdBlockIoctl request) Held.none := by
    unfold ssdBlockIoctl
    rw [same]
    exact (withParam_locks _ (noData_locks (locks _ free_none))).bind fun _ => rfl
  obtain ⟨value, d, run, -⟩ := exists_run noFailure_live emptyDevice_mirrors free
  obtain rfl := spec.runs run
  exact ⟨d, run⟩

theorem ssdMarkBadBlock_run {p : MarkBadParam} (byBlock : p.type = paramBlock) :
    ∃ d, Run noFailure (ssdBlockIoctl (.markBadBlock p)) emptyDevice (ssdOk, none) d :=
  request_run rfl (fun _ free => ssdMarkBadBlock_locks free p) fun _ => ssdMarkBadBlock_ok byBlock

theorem ssdMarkEraseCount_run {p : MarkEraseCountParam} (inside : p.channel < ssdMaxChannel)
    (few : p.count ≤ ssdMaxPhyblocksPerChannel) :
    ∃ d, Run noFailure (ssdBlockIoctl (.markEraseCount p)) emptyDevice (ssdOk, none) d :=
  request_run rfl (fun _ free => ssdMarkEraseCount_locks free p) fun _ => ssdMarkEraseCount_ok inside few

/-! ### Failures -/

/-- The table of channel 44 is read through an entry that does not exist. -/
theorem ssdReadTable_leaves (type : Nat) (opens : u.opens (devPath 0) = true) :
    ∃ rest d', Reaches (userPerform 0) (fun _ _ _ => True) (Prod.fst <$> ssdReadTable type u ssdMaxChannel)
      emptyDevice (.act (.kernel (.down 44)) rest) d' := by
  unfold ssdReadTable
  rw [if_neg (by decide), if_neg (by rw [opens]; decide)]
  have copied : userPerform 0 (.kernel .copyParam) succeeds emptyDevice = some (false, emptyDevice) := rfl
  exact ⟨_, _, .act trivial copied (.here _ _)⟩

/-- Whatever the driver answers, the number of free bytes is no error. -/
theorem ssdUtilTest_answers {channel : Int} (opens : u.opens (devPath channel) = true) :
    ∃ (value : Nat) (d : Device), UserRun (ssdUtilTest u channel) emptyDevice value d ∧
      (value : Int) ≠ 2 ^ 64 - errOepnDevFailed := by
  unfold ssdUtilTest
  rw [if_neg (by rw [opens]; decide)]
  cases null : u.null with
  | true => exact ⟨0, emptyDevice, .pure _ _, by decide⟩
  | false =>
      have locks : Locks false anyReply (ssdBlockIoctl (.readTable ⟨(channel % 256).toNat, tableEraseType⟩))
          Held.none :=
        (withParam_locks _ (ssdTableRead_locks free_none _)).bind fun _ => rfl
      obtain ⟨⟨ret, data⟩, d, run, -⟩ := exists_run anyOutcome_live emptyDevice_mirrors locks
      have sent : UserRun (ioctl .own (.readTable ⟨(channel % 256).toNat, tableEraseType⟩)) emptyDevice (ret, data) d :=
        ioctl_run run
      by_cases ok : ret = ssdOk
      · let blocksIdle : Int := ssdMaxVirblocksPerChannel - blockUsed (data.getD fun _ => 0)
        refine ⟨(blocksIdle * ssdBlockSize % 2 ^ 64).toNat, d, sent.seq ?_, ?_⟩
        · simp only [ok, ne_eq, not_true, if_false]
          exact .pure _ _
        · simp only [ssdBlockSize, errOepnDevFailed]
          omega
      · refine ⟨0, d, sent.seq ?_, by decide⟩
        simp only [ne_eq, ok, not_false_eq_true, if_true]
        exact .pure _ _

theorem ssdCallMarkBadBlock_accepts {devNum block channel : Int} {id : BlockId}
    (unsound : ¬ Sound u (.markBadBlock devNum id block channel)) :
    ∃ d, UserRun (ssdCallMarkBadBlock u devNum paramBlock id block channel) emptyDevice 0 d := by
  simp only [Sound, not_or] at unsound
  obtain ⟨-, near, low, opened, opens⟩ := unsound
  unfold ssdCallMarkBadBlock
  simp only [paramBlock, paramId, true_and, Nat.one_ne_zero, if_false, if_true]
  rw [if_neg opened, if_neg (by simp only [ssdMaxChannel, ssdMaxVirblocksPerChannel] at *; omega), if_neg opens]
  obtain ⟨d, run⟩ := ssdMarkBadBlock_run (p := ⟨paramBlock, id, (block % 65536).toNat, (channel % 65536).toNat⟩) rfl
  exact ⟨d, (attempts_run 2 0 (UserRun.map Prod.fst (ioctl_run run))).seq (.pure _ _)⟩

/-- An open library uses the entry of the channel before anything is checked. -/
theorem ssdCallMarkEraseCount_first (buffer : Mem) (count : Int) {channel : Int} (opened : u.opened = true) :
    ∃ rest, ssdCallMarkEraseCount u buffer count channel = .act (.gSsdFd ((channel % 256).toNat : Int)) rest := by
  unfold ssdCallMarkEraseCount
  rw [if_neg (by rw [opened]; decide)]
  exact ⟨_, rfl⟩

theorem ssdCallMarkEraseCount_accepts (buffer : Mem) {count channel : Int} (opened : u.opened = true)
    (index : channel % 256 < ssdMaxChannel) (few : ¬ (ssdMaxPhyblocksPerChannel : Int) < count % 65536) :
    ∃ d, UserRun (ssdCallMarkEraseCount u buffer count channel) emptyDevice 0 d := by
  unfold ssdCallMarkEraseCount
  rw [if_neg (by rw [opened]; decide)]
  obtain ⟨d, run⟩ := ssdMarkEraseCount_run (p := ⟨(channel % 256).toNat, (count % 65536).toNat, buffer⟩)
    (by simp only [ssdMaxChannel] at *; omega) (by simp only [ssdMaxPhyblocksPerChannel] at *; omega)
  exact ⟨d, (attempts_run 2 0 (UserRun.map Prod.fst (ioctl_run run))).seq (.pure _ _)⟩

/-- **A call stays in range** if and only if it is sound. -/
theorem staysInRange_iff (u : Caller) (call : TableCall) : StaysInRange u call ↔ Sound u call := by
  refine ⟨fun stays => ?_, Sound.staysInRange⟩
  by_contra unsound
  cases call with
  | readAddrtable channel =>
      simp only [Sound, not_or, not_not, Bool.not_eq_false] at unsound
      obtain ⟨rfl, opens⟩ := unsound
      obtain ⟨rest, d', reach⟩ := ssdReadTable_leaves tableAddrType opens
      exact absurd (stays.indices _ _ _ _ reach) (by decide : ¬ (44 < 44))
  | readErasetable channel =>
      simp only [Sound, not_or, not_not, Bool.not_eq_false] at unsound
      obtain ⟨rfl, opens⟩ := unsound
      obtain ⟨rest, d', reach⟩ := ssdReadTable_leaves tableEraseType opens
      exact absurd (stays.indices _ _ _ _ reach) (by decide : ¬ (44 < 44))
  | utilTest channel =>
      simp only [Sound, not_or, Bool.not_eq_false] at unsound
      obtain ⟨outside, opens⟩ := unsound
      obtain ⟨value, d, run, fine⟩ := ssdUtilTest_answers opens
      exact fine (stays.refused outside _ _ _ (run.map fun value : Nat => (value : Int)))
  | markBadId devNum id block channel => exact unsound trivial
  | markBadBlock devNum id block channel =>
      obtain ⟨d, run⟩ := ssdCallMarkBadBlock_accepts unsound
      have outside : OutOfRange (.markBadBlock devNum id block channel) := fun inside => unsound (.inl inside)
      exact absurd (stays.refused outside _ _ _ run) (Int.lt_irrefl 0)
  | markEraseCount buffer count channel =>
      simp only [Sound, not_or, Bool.not_eq_false] at unsound
      obtain ⟨outside, opened, many⟩ := unsound
      by_cases index : channel % 256 < ssdMaxChannel
      · obtain ⟨d, run⟩ := ssdCallMarkEraseCount_accepts buffer opened index fun far => many ⟨index, far⟩
        exact absurd (stays.refused outside _ _ _ run) (Int.lt_irrefl 0)
      · obtain ⟨rest, first⟩ := ssdCallMarkEraseCount_first buffer count opened
        have reach : Reaches (userPerform 0) (fun _ _ _ => True) (ssdCallMarkEraseCount u buffer count channel)
            emptyDevice (.act (.gSsdFd ((channel % 256).toNat : Int)) rest) emptyDevice := by
          rw [first]
          exact .here _ _
        have inside := stays.indices _ _ _ _ reach
        simp only [IndexInside, ssdMaxChannel] at inside index
        omega

/-- A process that has not opened the card, where every device file of the driver is there. -/
def plainCaller : Caller := ⟨false, fun path => (List.range ssdMaxChannel).any fun c => path = devPath c, false, 0⟩

/-- **Channel 44** passes the check of the library, and the driver has none. -/
theorem channel_44_is_read : ¬ StaysInRange plainCaller (.readAddrtable 44) := by
  intro stays
  rcases (staysInRange_iff plainCaller (.readAddrtable 44)).1 stays with other | closed
  · exact other rfl
  · exact absurd closed (by decide)

/-- The name of a device file loses its second digit. -/
example : devPath 44 = devPath 4 := by decide

end Runs

end FpgaSsd.Theory
