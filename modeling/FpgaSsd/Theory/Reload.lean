/-
# Theory.Reload — loading a card whose blocks are intact

What `ssd_sys_init` makes of the newest record when nothing fails: the image comes from the
table blocks, the hash table from the id list, and the RAM tables from the image.

* `ssdReadFlushTabledata_flawless` — the image is the one that the blocks hold;
* `rebuildEntries_spec`, `linkNodes_bucket` — the nodes of the list, each at the head of its
  bucket, so that a bucket is rebuilt in the reverse order;
* `ssdUpdataTables_flawless` — every channel gets its two tables;
* `ssdSysInit_flawless` — the whole load;
* `ssdSysOpen_flawless` — the opening around it, with the allocators.
-/
import FpgaSsd.Theory.Alignment
import FpgaSsd.Theory.CorruptRecord
import FpgaSsd.Theory.DirectoryWalk
import FpgaSsd.Theory.FlushRun

namespace FpgaSsd.Theory

open FpgaSsd.Lib FpgaSsd.Driver

set_option autoImplicit false

/-! ## Hash buckets in the view -/

/-- The view with other buckets in one channel. -/
def View.setHash (v : View) (c : Nat) (h : Nat → HashHead) : View :=
  { v with hash := Function.update v.hash c h }

/-- What a change of one channel leaves in all of them. -/
theorem channels_setCh {α : Type} {d : Device} {c : Nat} {ch : Channel} (f : Channel → α) (same : f ch = f (d.ch c)) :
    (fun c' => f ((d.setCh c ch).ch c')) = fun c' => f (d.ch c') := by
  funext c'
  by_cases here : c' = c
  · subst here
    rw [Device.setCh_ch_same, same]
  · rw [Device.setCh_ch_other _ _ here]

theorem view_setCh_hash {d : Device} {c : Nat} {ch : Channel} (flash : ch.flash = (d.ch c).flash)
    (space : ch.space = (d.ch c).space) : view (d.setCh c ch) = (view d).setHash c ch.hash := by
  simp only [view, View.setHash, View.mk.injEq]
  refine ⟨channels_setCh _ flash, ?_, channels_setCh _ space, rfl, rfl, rfl, rfl⟩
  funext c'
  by_cases here : c' = c
  · subst here
    rw [Device.setCh_ch_same, Function.update_self]
  · rw [Device.setCh_ch_other _ _ here, Function.update_of_ne here]

theorem view_setCh_space {d : Device} {c : Nat} {ch : Channel} (flash : ch.flash = (d.ch c).flash)
    (hash : ch.hash = (d.ch c).hash) :
    view (d.setCh c ch) = { view d with space := fun c' => ((d.setCh c ch).ch c').space } := by
  simp only [view, View.mk.injEq]
  exact ⟨channels_setCh _ flash, channels_setCh _ hash, trivial, rfl, rfl, rfl, rfl⟩

namespace OnView

variable {α : Type} {must : View → Prop} {may : May} {v : View}

/-- An action on one channel. -/
theorem chan {c : Nat} {a : ChanAct} {post : a.Reply → View → Prop} (here : must v)
    (each : ∀ d o r ch, view d = v → may d (.chan c a) o → (d.ch c).perform a o = some (r, ch) →
      post r (view (d.setCh c ch))) : OnView must may (Drv.chan c a) post v :=
  act here fun d o r d' shows allowed step => by
    obtain ⟨⟨r', ch⟩, acted, eq⟩ := Option.map_eq_some_iff.1 step
    cases eq
    exact each d o _ ch shows allowed acted

/-- A program that the view does not show. -/
theorem quiet {p : Drv α} (all : p.All Act.Silent) (here : must v) :
    OnView must may p (fun _ v' => v' = v) v := by
  induction p with
  | pure value => exact pure rfl
  | act a rest ih =>
      refine seq (p := Program.perform a) (silent here all.1) fun r v' same => ?_
      subst same
      exact ih r (all.2 r)

theorem setIdInfo (here : must v) (id : BlockId) (info : IdInfo) :
    OnView must may (Drv.setIdInfo id info) (fun ret v' => ret = ssdOk ∧
      v' = v.setHash info.channel.val (insertNode (v.hash info.channel.val) id info)) v :=
  chan here fun d o r ch shows _ step => by
    subst shows
    simp only [Channel.perform] at step
    split at step
    · cases step
    · cases step
      exact ⟨rfl, view_setCh_hash rfl rfl⟩

/-- The allocator of a channel is computed anew. -/
theorem setSpace (here : must v) (c : Nat) (space : ChannelSpace) :
    OnView must may (Drv.chan c (.space fun _ => some (ssdOk, space)))
      (fun ret v' => ret = ssdOk ∧ ∃ spaces, v' = { v with space := spaces }) v :=
  chan here fun d o r ch shows _ step => by
    subst shows
    cases step
    exact ⟨rfl, _, view_setCh_space rfl rfl⟩

end OnView

/-! ## All buckets -/

section Buckets

variable {must : View → Prop} {may : May} {v : View} {f : HashHead → HashHead}

/-- The buckets before bucket `b` of channel `c` are changed. -/
def changedBefore (f : HashHead → HashHead) (h : Nat → Nat → HashHead) (c b : Nat) : Nat → Nat → HashHead :=
  fun c' b' => if b' < ssdHashSize ∧ (c' < c ∨ c' = c ∧ b' < b) then f (h c' b') else h c' b'

theorem changedBefore_step (h : Nat → Nat → HashHead) (c : Nat) {b : Nat} (inside : b < ssdHashSize) :
    Function.update (changedBefore f h c b) c
      (Function.update (changedBefore f h c b c) b (f (changedBefore f h c b c b))) = changedBefore f h c (b + 1) := by
  have old : changedBefore f h c b c b = h c b := if_neg (by omega)
  funext c' b'
  by_cases channel : c' = c
  · subst channel
    rw [Function.update_self]
    by_cases bucket : b' = b
    · subst bucket
      rw [Function.update_self, old, changedBefore, if_pos ⟨inside, .inr ⟨rfl, Nat.lt_succ_self b'⟩⟩]
    · rw [Function.update_of_ne bucket]
      simp only [changedBefore, Nat.lt_irrefl, true_and, false_or]
      congr 1
      simp only [eq_iff_iff]
      omega
  · rw [Function.update_of_ne channel]
    simp only [changedBefore, channel, false_and, or_false]

theorem changedBefore_channel (h : Nat → Nat → HashHead) (c : Nat) :
    changedBefore f h c ssdHashSize = changedBefore f h (c + 1) 0 := by
  funext c' b'
  simp only [changedBefore]
  congr 1
  simp only [eq_iff_iff]
  omega

/-- One action for every bucket. -/
theorem forBuckets_spec (here : ∀ h, must { v with hash := h }) {a : Nat → ChanAct}
    (acts : ∀ (ch : Channel) b o r ch', ch.perform (a b) o = some (r, ch') → ch' = ch.setHead b (f (ch.hash b))) :
    OnView must may (forBuckets a) (fun _ v' => v' = { v with hash := changedBefore f v.hash ssdMaxChannel 0 }) v := by
  have bucket : ∀ c b v', b < ssdHashSize → v' = { v with hash := changedBefore f v.hash c b } →
      OnView must may (do
        let _ ← Drv.chan c (a b)
        pure (none : Option Unit)) (fun found v'' => found = none ∧
          v'' = { v with hash := changedBefore f v.hash c (b + 1) }) v' := by
    rintro c b _ inside rfl
    refine OnView.seq (M := fun _ v'' => v'' = { v with hash := changedBefore f v.hash c (b + 1) })
      (OnView.chan (here _) fun d o r ch shows _ step => ?_) fun _ v'' eq => OnView.pure ⟨rfl, eq⟩
    obtain rfl := acts _ _ _ _ _ step
    have same : (d.ch c).hash = changedBefore f v.hash c b c := congrFun (congrArg View.hash shows) c
    have after : view (d.setCh c ((d.ch c).setHead b (f ((d.ch c).hash b)))) = (view d).setHash c _ :=
      view_setCh_hash rfl rfl
    rw [after, shows, View.setHash, ← changedBefore_step v.hash c inside]
    simp only [Channel.setHead, same]
  have channel : ∀ c v', v' = { v with hash := changedBefore f v.hash c 0 } →
      OnView must may (Program.firstSome (fun b => do
        let _ ← Drv.chan c (a b)
        pure (none : Option Unit)) (List.range ssdHashSize)) (fun found v'' => found = none ∧
          v'' = { v with hash := changedBefore f v.hash (c + 1) 0 }) v' := by
    intro c v' start
    refine (OnView.forRange (I := fun b v'' => v'' = { v with hash := changedBefore f v.hash c b })
      (R := fun _ _ => False) (fun b v'' inside before => ?_) start).weaken fun found v'' after => ?_
    · refine (bucket c b v'' inside before).weaken ?_
      rintro _ v3 ⟨rfl, rfl⟩
      rfl
    · cases found with
      | none =>
          rw [← changedBefore_channel]
          exact ⟨rfl, after⟩
      | some x => exact after.elim
  unfold forBuckets
  refine OnView.seq (M := fun _ v' => v' = { v with hash := changedBefore f v.hash ssdMaxChannel 0 }) ?_
    fun _ v' eq => OnView.pure eq
  refine (OnView.forRange (I := fun c v'' => v'' = { v with hash := changedBefore f v.hash c 0 })
    (R := fun _ _ => False) (fun c v'' _ before => ?_) ?_).weaken fun found v'' after => ?_
  · refine (channel c v'' before).weaken ?_
    rintro _ v3 ⟨rfl, rfl⟩
    rfl
  · have start : changedBefore f v.hash 0 0 = v.hash := by
      funext c b
      exact if_neg (by omega)
    rw [start]
  · cases found with
    | none => exact after
    | some x => exact after.elim

/-- The hash table behind `ssd_init_hash`. -/
def clearedHash (h : Nat → Nat → HashHead) : Nat → Nat → HashHead :=
  changedBefore (fun _ => ⟨0, []⟩) h ssdMaxChannel 0

/-- The hash table behind `ssd_destory_slab`. -/
def freedHash (h : Nat → Nat → HashHead) : Nat → Nat → HashHead :=
  changedBefore (fun head => { head with first := [] }) h ssdMaxChannel 0

theorem ssdInitHash_spec (here : ∀ h, must { v with hash := h }) :
    OnView must may ssdInitHash (fun _ v' => v' = { v with hash := clearedHash v.hash }) v :=
  forBuckets_spec here fun ch b o r ch' step => by
    cases step
    rfl

theorem ssdDestorySlab_spec (here : ∀ h, must { v with hash := h }) :
    OnView must may ssdDestorySlab (fun _ v' => v' = { v with hash := freedHash v.hash }) v :=
  forBuckets_spec here fun ch b o r ch' step => by
    cases step
    rfl

end Buckets

/-! ## The image -/

section Image

variable {may : May} {v : View} {image : Mem}

/-- Bytes that follow those of `image` in the buffer. -/
theorem copyBytes_next {old src : Mem} {offset n start k : Nat}
    (next : ∀ i < k, src (start + i) = image (offset + n + i)) :
    copyBytes (copyBytes old offset image offset n) (offset + n) src start k =
      copyBytes old offset image offset (n + k) := by
  funext i
  simp only [copyBytes]
  by_cases new : offset + n ≤ i ∧ i < offset + n + k
  · rw [if_pos new, if_pos (by omega), next _ (by omega)]
    congr 1
    omega
  · rw [if_neg new]
    congr 1
    simp only [eq_iff_iff]
    omega

theorem copyBytes_none (old src : Mem) (offset start : Nat) : copyBytes old offset src start 0 = old := by
  funext i
  exact if_neg (by omega)

/-- One more part of `src`, behind the first `m` bytes. -/
theorem copyBytes_extend {old src : Mem} {m k i : Nat} (before : ∀ i < m, old i = src i) (less : i < m + k) :
    copyBytes old m src m k i = src i := by
  simp only [copyBytes]
  split
  · congr 1
    omega
  · exact before i (by omega)

/-- A page that holds its bytes is read. -/
theorem ssdReadTabledata_flawless (flawless : Flawless may) {pos page start : Nat} (inside : pos < reserveBlocksTotal)
    (low : page < ssdPagesPerBlock) (holds : PageHolds v pos page image start) {α : Type} {next : Int → Drv α}
    {post : α → View → Prop} (found : ∀ d, view d = v →
      (∀ i < ssdPageSize, (d.ch (posChannel pos)).kbuf i = image (start + i)) →
      OnDevice always may (next ssdOk) post d) :
    OnView always may (ssdReadTabledata pos page >>= next) post v := by
  rintro d rfl
  obtain ⟨clean, m, content, bytes⟩ := holds
  rw [ssdReadTabledata, physBlock_mod inside]
  refine Safe.seq (solo_steady _ _) (OnView.op trivial) ?_
  rintro ret d' ⟨o, kbuf, flash, allowed, done, rfl, rfl⟩
  rw [ofWord_tableCmd low (by decide)] at done
  have mayTable : MayTable may (view d) pos page flagReadtablesFromFlash o :=
    ⟨_, view_issue d _ _, by rw [Device.setCh_ch_same], allowed⟩
  have ok := MayTable.ok_read flawless mayTable low content clean
  simp only [View.page, View.suspect, view] at content clean
  simp only [Flash.exec, if_pos ok, content, clean] at done
  cases done
  rw [ok]
  refine found _ (view_setCh rfl rfl rfl) fun i small => ?_
  have copied := @copyBytes_inside (d.ch (posChannel pos)).kbuf m 0 0 ssdPageSize i small
  rw [Nat.zero_add] at copied
  rw [Device.setCh_ch_same]
  exact copied.trans (bytes i small)

/-- A copy whose block holds the bytes of the image at its place. -/
theorem readTableCopy_flawless (flawless : Flawless may) {pos offset : Nat} (inside : pos < reserveBlocksTotal)
    (holds : BlockHolds v pos image offset) : OnView always may (readTableCopy pos offset) (fun found v' =>
      found = none ∧ v' = v.setImage (copyBytes v.kbufFlush offset image offset ssdBlockSize)) v := by
  unfold readTableCopy
  refine (OnView.forRange
    (I := fun k v' => v' = v.setImage (copyBytes v.kbufFlush offset image offset (ssdPageSize * k)))
    (R := fun _ _ => False) (fun k v' low before => ?_) ?_).weaken fun found v' after => ?_
  · subst before
    have held : PageHolds (v.setImage (copyBytes v.kbufFlush offset image offset (ssdPageSize * k))) pos k image
        (offset + k * ssdPageSize) := holds k low
    refine ssdReadTabledata_flawless flawless inside low held fun d shows bytes => ?_
    rw [if_neg (by decide)]
    refine Safe.seq (solo_steady _ _) (OnView.readKbuf trivial) ?_
    rintro kbuf d' ⟨rfl, same⟩
    refine OnView.seq (OnView.modFlush trivial _) ?_ d' (same.trans shows)
    rintro _ v' rfl
    apply OnView.pure
    have grown := @copyBytes_next image v.kbufFlush (d.ch (posChannel pos)).kbuf offset (ssdPageSize * k) 0 ssdPageSize
      fun i small => by
        rw [Nat.zero_add, bytes i small]
        congr 1
        simp only [ssdPageSize]
        omega
    simp only [View.setImage, grown, Nat.mul_succ]
  · rw [Nat.mul_zero, copyBytes_none]
    rfl
  · cases found with
    | none => exact ⟨rfl, after⟩
    | some ret => exact after.elim

/-- The first copy of every block holds its part of the image. -/
def FirstCopies (v : View) (r : SsdMetadata) (image : Mem) : Prop := ∀ k < r.blockNum.toNat,
  r.pos (k * 2) < reserveBlocksTotal ∧ BlockHolds v (r.pos (k * 2)) image (k * ssdBlockSize)

/-- **All blocks** are read at once. -/
theorem ssdReadFlushTabledata_flawless (flawless : Flawless may) (copies : FirstCopies v v.metadata image) :
    OnView always may ssdReadFlushTabledata (fun ret v' => ret = ssdOk ∧ ∃ buffer, v' = v.setImage buffer ∧
      ∀ i < v.metadata.blockNum.toNat * ssdBlockSize, buffer i = image i) v := by
  have blocks : ∀ fuel n buffer, v.metadata.blockNum.toNat < fuel + n → n ≤ v.metadata.blockNum.toNat →
      (∀ i < n * ssdBlockSize, buffer i = image i) →
      OnView always may (readFlushLoop fuel n) (fun ret v' => ret = ssdOk ∧ ∃ buffer, v' = v.setImage buffer ∧
        ∀ i < v.metadata.blockNum.toNat * ssdBlockSize, buffer i = image i) (v.setImage buffer) := by
    intro fuel
    induction fuel with
    | zero => exact fun n buffer most few => absurd most (by omega)
    | succ fuel ih =>
        intro n buffer most few bytes
        rw [readFlushLoop]
        refine OnView.seq (OnView.getMeta trivial) ?_
        rintro record _ ⟨same, rfl⟩
        obtain rfl : v.metadata = record := same.symm
        split
        · rename_i more
          obtain ⟨inside, holds⟩ := copies n more
          refine OnView.seq (M := fun found v' => found = none ∧ ∃ buffer, v' = v.setImage buffer ∧
            ∀ i < (n + 1) * ssdBlockSize, buffer i = image i) ?_ ?_
          · rw [show List.range tableDuplicate = [0, 1] from rfl, readTableCopies]
            refine OnView.seq (OnView.getMeta trivial) ?_
            rintro record _ ⟨same, rfl⟩
            obtain rfl : v.metadata = record := same.symm
            have at0 : n * tableDuplicate + 0 = n * 2 := rfl
            rw [at0, Nat.mul_comm ssdBlockSize n]
            refine OnView.seq (readTableCopy_flawless flawless inside holds) ?_
            rintro _ _ ⟨rfl, rfl⟩
            refine OnView.pure ⟨rfl, _, rfl, fun i less => ?_⟩
            rw [Nat.succ_mul] at less
            exact copyBytes_extend bytes less
          · rintro _ _ ⟨rfl, buffer, rfl, bytes⟩
            exact ih (n + 1) buffer (by omega) more bytes
        · rename_i done
          obtain rfl : n = v.metadata.blockNum.toNat := by omega
          exact OnView.pure ⟨rfl, buffer, rfl, bytes⟩
  unfold ssdReadFlushTabledata
  refine blocks 65536 0 v.kbufFlush (UInt16.toNat_lt _) (Nat.zero_le _) fun i less => ?_
  rw [Nat.zero_mul] at less
  exact absurd less (Nat.not_lt_zero i)

end Image

/-! ## The hash table -/

/-- The node of an entry of the list, in the channel of its id. -/
def entryNode (entry : FlushIdInfo) : HashNode :=
  ⟨entry.id, { entry.info with channel := Fin.ofNat 64 (id2channel entry.id) }⟩

/-- The node at the head of its bucket. -/
def linkNode (h : Nat → Nat → HashHead) (node : HashNode) : Nat → Nat → HashHead :=
  Function.update h node.info.channel.val (insertNode (h node.info.channel.val) node.id node.info)

/-- Whether a node belongs to bucket `b` of channel `c`. -/
def inBucket (c b : Nat) (node : HashNode) : Bool := node.info.channel.val = c ∧ idHash node.id = b

section Hash

variable {must : View → Prop} {may : May} {v : View} {h : Nat → Nat → HashHead} {c b : Nat}

/-- **The entries of the list**, one behind the other. -/
theorem rebuildEntries_spec (n i : Nat) :
    OnView always may (rebuildEntries true n i) (fun ret v' => ret = ssdOk ∧ v' = { v with
      hash := ((List.range' i n).map fun j => entryNode (listed v.kbufFlush j)).foldl linkNode v.hash }) v := by
  induction n generalizing i v with
  | zero => exact OnView.pure ⟨rfl, rfl⟩
  | succ n ih =>
      rw [rebuildEntries]
      refine OnView.seq (OnView.readFlush trivial) ?_
      rintro image _ ⟨rfl, rfl⟩
      dsimp only
      rw [if_neg fun no => Bool.false_ne_true no.1.symm]
      refine OnView.seq (OnView.setIdInfo trivial _ _) ?_
      rintro _ _ ⟨rfl, rfl⟩
      rw [if_neg (by decide)]
      exact ih (i + 1)

theorem linkNode_bucket (node : HashNode) : linkNode h node c b =
    if inBucket c b node then (h c b).insert node else h c b := by
  simp only [linkNode, inBucket, Bool.decide_and, Bool.and_eq_true, decide_eq_true_eq]
  by_cases channel : c = node.info.channel.val
  · subst channel
    rw [Function.update_self, insertNode]
    by_cases bucket : b = idHash node.id
    · subst bucket
      rw [Function.update_self, if_pos ⟨rfl, rfl⟩]
    · rw [Function.update_of_ne bucket, if_neg fun both => bucket both.2.symm]
  · rw [Function.update_of_ne channel, if_neg fun both => channel both.1.symm]

/-- A bucket gets its nodes in the reverse order. -/
theorem linkNodes_bucket (nodes : List HashNode) : nodes.foldl linkNode h c b =
    ⟨(h c b).count + (nodes.filter (inBucket c b)).length, (nodes.filter (inBucket c b)).reverse ++ (h c b).first⟩ := by
  induction nodes generalizing h with
  | nil => simp
  | cons node rest ih =>
      rw [List.foldl_cons, ih, linkNode_bucket]
      by_cases mine : inBucket c b node
      · rw [List.filter_cons_of_pos mine, if_pos mine]
        simp only [HashHead.insert, List.length_cons, List.reverse_cons, List.append_assoc, List.cons_append,
          List.nil_append, Nat.cast_add, Nat.cast_one, HashHead.mk.injEq, and_true]
        omega
      · rw [List.filter_cons_of_neg mine, if_neg mine]

/-- One list among empty ones. -/
theorem flatMap_range_single {α : Type} {n k : Nat} {f : Nat → List α} (inside : k < n)
    (others : ∀ i < n, i ≠ k → f i = []) : (List.range n).flatMap f = f k := by
  induction n with
  | zero => exact absurd inside (Nat.not_lt_zero k)
  | succ n ih =>
      rw [List.range_succ, List.flatMap_append, List.flatMap_singleton]
      by_cases last : k = n
      · subst last
        have before : (List.range k).flatMap f = [] := List.flatMap_eq_nil_iff.2 fun i member =>
          others i (Nat.lt_succ_of_lt (List.mem_range.1 member)) (Nat.ne_of_lt (List.mem_range.1 member))
        rw [before, List.nil_append]
      · rw [others n (Nat.lt_succ_self n) (Ne.symm last), List.append_nil]
        exact ih (by omega) fun i less => others i (Nat.lt_succ_of_lt less)

/-- The nodes of a channel and a bucket, in a table where each is in its place. -/
theorem nodes_filter (placed : ∀ c < ssdMaxChannel, ChannelPlaced c (v.hash c)) (inside : c < ssdMaxChannel)
    (below : b < ssdHashSize) : v.nodes.filter (inBucket c b) = (v.hash c b).first := by
  have each : ∀ c' < ssdMaxChannel, ∀ b' < ssdHashSize, (v.hash c' b').first.filter (inBucket c b) =
      if c' = c ∧ b' = b then (v.hash c' b').first else [] := by
    intro c' inside' b' below'
    split
    · rename_i same
      apply List.filter_eq_self.2
      intro node member
      obtain ⟨-, own, hash⟩ := (placed c' inside').node b' below' node member
      simp only [inBucket, decide_eq_true_eq]
      exact ⟨own.trans same.1, hash.trans same.2⟩
    · rename_i apart
      apply List.filter_eq_nil_iff.2
      intro node member mine
      obtain ⟨-, own, hash⟩ := (placed c' inside').node b' below' node member
      simp only [inBucket, decide_eq_true_eq] at mine
      exact apart ⟨own.symm.trans mine.1, hash.symm.trans mine.2⟩
  rw [View.nodes, List.filter_flatMap, flatMap_range_single inside, List.filter_flatMap, flatMap_range_single below]
  · rw [each c inside b below, if_pos ⟨rfl, rfl⟩]
  · intro b' below' other
    rw [each c inside b' below', if_neg fun both => other both.2]
  · intro c' inside' other
    rw [List.filter_flatMap]
    apply List.flatMap_eq_nil_iff.2
    intro b' member
    rw [each c' inside' b' (List.mem_range.1 member), if_neg fun both => other both.1]

end Hash

/-- Every bucket has the nodes that it had, in the reverse order. -/
def Reversed (h h' : Nat → Nat → HashHead) : Prop := ∀ c < ssdMaxChannel, ∀ b < ssdHashSize,
  h' c b = ⟨(h c b).first.length, (h c b).first.reverse⟩

section Reversed

variable {h h' : Nat → Nat → HashHead} {c : Nat}

theorem Reversed.placed (reversed : Reversed h h') (inside : c < ssdMaxChannel) (placed : ChannelPlaced c (h c)) :
    ChannelPlaced c (h' c) := by
  constructor
  · intro b below node member
    rw [reversed c inside b below, List.mem_reverse] at member
    exact placed.node b below node member
  · intro b below
    rw [reversed c inside b below, List.map_reverse, List.nodup_reverse]
    exact placed.distinct b below
  · intro b below
    rw [reversed c inside b below, List.length_reverse]

/-- Lookups do not see the order. -/
theorem lookup_reverse {nodes : List HashNode} (nodup : (nodes.map HashNode.id).Nodup) (id : BlockId) :
    lookup nodes.reverse id = lookup nodes id := by
  cases found : lookup nodes id with
  | none =>
      rw [lookup_eq_none] at found ⊢
      rwa [List.map_reverse, List.mem_reverse]
  | some info =>
      have nodup' : (nodes.reverse.map HashNode.id).Nodup := by
        rwa [List.map_reverse, List.nodup_reverse]
      exact lookup_of_mem nodup' (List.mem_reverse.2 (lookup_mem found))

theorem Reversed.find (reversed : Reversed h h') (placed : ∀ c < ssdMaxChannel, ChannelPlaced c (h c)) (id : BlockId) :
    Theory.find (h' (id2channel id)) id = Theory.find (h (id2channel id)) id := by
  have inside := id2channel_lt id
  have below := idHash_lt id
  rw [Theory.find, Theory.find, reversed _ inside _ below]
  exact lookup_reverse ((placed _ inside).distinct _ below) id

theorem Reversed.nodes (reversed : Reversed h h') (inside : c < ssdMaxChannel) :
    (nodesOf (h' c)).Perm (nodesOf (h c)) := by
  apply List.Perm.flatMap_left
  intro b member
  rw [reversed c inside b (List.mem_range.1 member)]
  exact List.reverse_perm _

end Reversed

/-! ## The RAM tables -/

/-- The two tables of a channel are those of the image. -/
def loadTables (image : Mem) (c : Nat) (f : Flash) : Flash :=
  { f with
    addrTable := copyBytes f.addrTable 0 image (addrOffset c) ssdTableSize
    eraseTable := copyBytes f.eraseTable 0 image (eraseOffset c) ssdTableSize }

/-- The channels before `n` have their tables. -/
def loadedBefore (image : Mem) (flash : Nat → Flash) (n : Nat) : Nat → Flash :=
  fun c => if c < n then loadTables image c (flash c) else flash c

section Tables

variable {may : May} {v : View}

theorem copyBytes_through (old kbuf image : Mem) (offset n : Nat) :
    copyBytes old 0 (copyBytes kbuf 0 image offset n) 0 n = copyBytes old 0 image offset n := by
  funext i
  simp only [copyBytes]
  by_cases inside : 0 ≤ i ∧ i < 0 + n
  · rw [if_pos inside, if_pos inside, if_pos (by omega)]
    congr 1
    omega
  · rw [if_neg inside, if_neg inside]

/-- One table from the image to the hardware. -/
theorem updataTable_flawless (flawless : Flawless may) (c offset : Nat) {flag : Nat} (small : flag < 32)
    (change : flag ≠ flagReadtablesFromFlash) {f : Flash}
    (runs : ∀ o kbuf, o.ret = .ok ∧ o.taken = true →
      Flash.exec ⟨0, addrTablePages, flag⟩ o (copyBytes kbuf 0 v.kbufFlush offset ssdTableSize) (v.flash c) =
        some (copyBytes kbuf 0 v.kbufFlush offset ssdTableSize, f)) :
    OnView always may (updataTable c offset flag) (fun ret v' => ret = ssdOk ∧ v' = v.setFlash c f) v := by
  unfold updataTable
  refine OnView.seq (OnView.readFlush trivial) ?_
  rintro image _ ⟨rfl, rfl⟩
  refine (OnView.loadedOp _ trivial).weaken ?_
  rintro ret v' ⟨d, o, kbuf, kbuf', flash, -, issued, allowed, done, rfl, rfl⟩
  have decoded : Command.ofWord (cmdValue 0 addrTablePages flag) = ⟨0, addrTablePages, flag⟩ :=
    decode_cmdValue (by decide) (by decide) small
  have ok : o.ret = .ok := by
    rcases (flawless _ _ _ allowed).2.2 c rfl with ok | ⟨⟨cmd, out, read, -⟩, -⟩
    · exact ok
    · rw [issued] at out
      cases out
      rw [decoded] at read
      exact absurd read change
  rw [decoded, runs o kbuf ⟨ok, (flawless _ _ _ allowed).2.1⟩] at done
  cases done
  rw [ok]
  exact ⟨rfl, rfl⟩

theorem loadedBefore_succ (image : Mem) (v : View) (c : Nat) :
    ({ v with flash := loadedBefore image v.flash c }.setFlash c (loadTables image c (v.flash c))) =
      { v with flash := loadedBefore image v.flash (c + 1) } := by
  have flash : Function.update (loadedBefore image v.flash c) c (loadTables image c (v.flash c)) =
      loadedBefore image v.flash (c + 1) := by
    funext c'
    by_cases here : c' = c
    · subst here
      rw [Function.update_self, loadedBefore, if_pos (Nat.lt_succ_self c')]
    · rw [Function.update_of_ne here]
      simp only [loadedBefore]
      congr 1
      simp only [eq_iff_iff]
      omega
  rw [View.setFlash, flash]

/-- **The tables of all channels.** -/
theorem ssdUpdataTables_flawless (flawless : Flawless may) : OnView always may ssdUpdataTables (fun ret v' =>
    ret = ssdOk ∧ v' = { v with flash := loadedBefore v.kbufFlush v.flash ssdMaxChannel }) v := by
  unfold ssdUpdataTables
  refine OnView.seq (M := fun found v' => found = none ∧
    v' = { v with flash := loadedBefore v.kbufFlush v.flash ssdMaxChannel }) ?_ ?_
  · refine (OnView.forRange (I := fun c v' => v' = { v with flash := loadedBefore v.kbufFlush v.flash c })
      (R := fun _ _ => False) (fun c v' _ before => ?_) ?_).weaken fun found v' after => ?_
    · subst before
      have here : loadedBefore v.kbufFlush v.flash c c = v.flash c := if_neg (Nat.lt_irrefl c)
      -- the erase table
      let erased : Flash := { v.flash c with
        eraseTable := copyBytes (v.flash c).eraseTable 0 v.kbufFlush (eraseOffset c) ssdTableSize }
      refine OnView.seq (updataTable_flawless (f := erased) flawless c (eraseOffset c) (by decide) (by decide)
        fun o kbuf done => ?_) ?_
      · dsimp only
        rw [here]
        simp only [Flash.exec, Flash.fill, Flash.polled, if_pos done, if_pos (Or.inl done.1)]
        rw [show addrTablePages * ssdPageSize = ssdTableSize from rfl, copyBytes_through]
      rintro _ _ ⟨rfl, rfl⟩
      rw [if_neg (by decide)]
      -- the address table
      refine OnView.seq (updataTable_flawless (f := loadTables v.kbufFlush c (v.flash c)) flawless c (addrOffset c)
        (by decide) (by decide) fun o kbuf done => ?_) ?_
      · rw [View.flash_setFlash]
        simp only [Flash.exec, Flash.fill, Flash.polled, if_pos done, if_pos (Or.inl done.1), erased, loadTables]
        rw [show addrTablePages * ssdPageSize = ssdTableSize from rfl]
        simp only [View.setFlash, copyBytes_through]
      rintro _ _ ⟨rfl, rfl⟩
      rw [if_neg (by decide)]
      apply OnView.pure
      dsimp only
      rw [← loadedBefore_succ]
      simp only [View.setFlash, Function.update_idem]
    · have none : loadedBefore v.kbufFlush v.flash 0 = v.flash := by
        funext c
        exact if_neg (Nat.not_lt_zero c)
      rw [none]
    · cases found with
      | none => exact ⟨rfl, after⟩
      | some ret => exact after.elim
  · rintro _ v' ⟨rfl, after⟩
    exact OnView.pure ⟨rfl, after⟩

end Tables

/-! ## The whole load -/

/-- The record that the search selects, and the image in the first copies of its blocks. -/
structure HoldsRecord (v : View) (r : SsdMetadata) (image : Mem) (b p : Nat) : Prop where
  clean : v.Clean
  wins : Wins v b p r
  copies : FirstCopies v r image
  list : tabledataBytes (idMax r) ≤ r.blockNum.toNat * ssdBlockSize

/-- The reserved pages are as they were. -/
def SamePages (v v' : View) : Prop := ∀ pos < reserveBlocksTotal, ∀ pg < ssdPagesPerBlock,
  v'.page pos pg = v.page pos pg ∧ v'.suspect pos pg = v.suspect pos pg

theorem SamePages.of_flash {v v' : View} (flash : v'.flash = v.flash) : SamePages v v' := by
  intro pos _ pg _
  rw [View.page, View.suspect, flash]
  exact ⟨rfl, rfl⟩

theorem FirstCopies.keep {v v' : View} {r : SsdMetadata} {image : Mem} (copies : FirstCopies v r image)
    (same : SamePages v v') : FirstCopies v' r image := by
  intro k less
  obtain ⟨inside, block⟩ := copies k less
  refine ⟨inside, fun pg low => ?_⟩
  obtain ⟨page, suspect⟩ := same _ inside pg low
  rw [PageHolds, page, suspect]
  exact block pg low

/-- What can be loaded depends on the reserved pages only. -/
theorem HoldsRecord.keep {v v' : View} {r : SsdMetadata} {image : Mem} {b p : Nat} (holds : HoldsRecord v r image b p)
    (same : SamePages v v') : HoldsRecord v' r image b p := by
  constructor
  · intro pos pg inside low
    rw [(same pos (metaPos_inside inside) pg low).2]
    exact holds.clean pos pg inside low
  · exact holds.wins.congr fun g group pg low plane inside =>
      View.record_congr (same _ (metaPos_inside (groupPos_lt group inside)) pg low).1
  · exact holds.copies.keep same
  · exact holds.list

/-- The nodes of the first `n` entries of the list. -/
def listNodes (image : Mem) (n : Nat) : List HashNode := (List.range' 0 n).map fun j => entryNode (listed image j)

/-- The state behind a load of the record. -/
structure Loaded (r : SsdMetadata) (image : Mem) (b p : Nat) (v v' : View) : Prop where
  metadata : v'.metadata = r
  metaPos : v'.metaPos = ⟨p, b * ssdMaxPlanes⟩
  opened : v'.opened = v.opened
  hash : v'.hash = (listNodes image (idMax r)).foldl linkNode v.hash
  flash : v'.flash = loadedBefore image v.flash ssdMaxChannel

section Load

variable {may : May} {v : View} {r : SsdMetadata} {image buffer : Mem} {b p : Nat}

/-- What the load uses lies in the blocks that were read. -/
theorem listNodes_congr {n size : Nat} (same : ∀ i < size, buffer i = image i) (list : tabledataBytes n ≤ size) :
    listNodes buffer n = listNodes image n := by
  apply List.map_congr_left
  intro j member
  have less : j < n := by
    have := List.mem_range'_1.1 member
    omega
  refine congrArg entryNode (FlushIdInfo.decode_congr fun k small => same _ ?_)
  simp only [tabledataBytes, idListOffset, flushIdInfoSize] at *
  omega

theorem idList_le (n : Nat) : idListOffset ≤ tabledataBytes n := by
  unfold tabledataBytes
  omega

theorem loadedBefore_congr {size : Nat} (same : ∀ i < size, buffer i = image i) (tables : idListOffset ≤ size)
    (flash : Nat → Flash) : loadedBefore buffer flash ssdMaxChannel = loadedBefore image flash ssdMaxChannel := by
  have table : ∀ (old : Mem) offset, offset + ssdTableSize ≤ idListOffset →
      copyBytes old 0 buffer offset ssdTableSize = copyBytes old 0 image offset ssdTableSize := by
    intro old offset fits
    funext i
    simp only [copyBytes]
    split
    · exact same _ (by omega)
    · rfl
  funext c
  simp only [loadedBefore]
  split
  · rename_i inside
    simp only [ssdMaxChannel] at inside
    have low : addrOffset c + ssdTableSize ≤ idListOffset := by
      simp only [addrOffset, ssdTableSize, idListOffset]
      omega
    have high : eraseOffset c + ssdTableSize ≤ idListOffset := by
      simp only [eraseOffset, addrOffset, ssdTableSize, idListOffset]
      omega
    rw [loadTables, loadTables, table _ _ low, table _ _ high]
  · rfl

/-- **The whole load.** A record of a close is loaded, any other is refused. -/
theorem ssdSysInit_flawless (flawless : Flawless may) (holds : HoldsRecord v r image b p) :
    OnView always may ssdSysInit (fun ret v' =>
      if normalUninstall r then ret = ssdOk ∧ Loaded r image b p v v'
      else ret = -44 ∧ v'.opened = v.opened) v := by
  obtain ⟨clean, wins, copies, list⟩ := holds
  unfold ssdSysInit
  refine OnView.seq (ssdSearchMetadata_spec flawless clean wins) ?_
  rintro _ _ ⟨rfl, rfl⟩
  rw [if_neg (by decide)]
  refine OnView.seq (OnView.getMeta trivial) ?_
  rintro record _ ⟨same, rfl⟩
  obtain rfl : r = record := same.symm
  refine OnView.seq (OnView.modFlush trivial _) ?_
  rintro _ _ rfl
  generalize fillBytes _ 0 (imageSize r) 0 = blank
  refine OnView.seq (ssdReadFlushTabledata_flawless flawless (copies.keep (.of_flash rfl))) ?_
  rintro _ _ ⟨rfl, buffer, rfl, bytes⟩
  rw [if_neg (by decide)]
  refine OnView.seq (OnView.getMeta trivial) ?_
  rintro record _ ⟨same, rfl⟩
  obtain rfl : r = record := same.symm
  cases closed : normalUninstall r with
  | false =>
      rw [if_pos rfl]
      exact OnView.pure ⟨rfl, rfl⟩
  | true =>
      rw [if_neg (by decide)]
      simp only [if_true]
      let rebuilt : View := { v with
        metadata := r, metaPos := ⟨p, b * ssdMaxPlanes⟩, kbufFlush := buffer
        hash := (listNodes image (idMax r)).foldl linkNode v.hash }
      refine OnView.seq (M := fun ret v' => ret = ssdOk ∧ v' = rebuilt) ?_ ?_
      · unfold ssdRebuildHash
        refine OnView.seq (OnView.getMeta trivial) ?_
        rintro record _ ⟨same, rfl⟩
        obtain rfl : r = record := same.symm
        simp only [closed]
        refine (rebuildEntries_spec _ 0).weaken ?_
        rintro _ _ ⟨rfl, rfl⟩
        refine ⟨rfl, ?_⟩
        simp only [rebuilt, ← listNodes_congr bytes list]
        rfl
      rintro _ _ ⟨rfl, rfl⟩
      rw [if_neg (by decide)]
      refine OnView.seq (M := fun _ v' => v' = rebuilt) ?_ ?_
      · unfold ssdRebuildErasetable
        refine OnView.seq (OnView.getMeta trivial) ?_
        rintro record _ ⟨same, rfl⟩
        obtain rfl : r = record := same.symm
        rw [if_pos closed]
        exact OnView.pure rfl
      rintro _ _ rfl
      refine (ssdUpdataTables_flawless flawless).weaken ?_
      rintro _ _ ⟨rfl, rfl⟩
      refine ⟨rfl, rfl, rfl, rfl, rfl, loadedBefore_congr bytes ?_ _⟩
      exact Nat.le_trans (idList_le _) list

/-! ### The allocators -/

theorem scanNodes_inChannel {c : Nat} {nodes : List HashNode}
    (own : ∀ node ∈ nodes, node.info.channel.val = c) (m : Bitmap) :
    ∃ m', scanNodes c nodes m = some m' := by
  induction nodes generalizing m with
  | nil => exact ⟨m, rfl⟩
  | cons node rest ih =>
      rw [scanNodes, if_neg (not_not.2 (own node (List.mem_cons_self ..)).symm)]
      exact ih (fun other member => own other (List.mem_cons_of_mem _ member)) _

theorem scanBuckets_inChannel {c : Nat} {buckets : List Nat}
    (own : ∀ b ∈ buckets, ∀ node ∈ (v.hash c b).first, node.info.channel.val = c) (m : Bitmap) :
    OnView always may (scanBuckets c buckets m) (fun found v' => (∃ m', found = some m') ∧ v' = v) v := by
  induction buckets generalizing m with
  | nil => exact OnView.pure ⟨⟨m, rfl⟩, rfl⟩
  | cons b rest ih =>
      rw [scanBuckets]
      refine OnView.seq (OnView.copyBucket trivial c b) ?_
      rintro _ _ ⟨rfl, rfl⟩
      obtain ⟨m', scanned⟩ := scanNodes_inChannel (own b (List.mem_cons_self ..)) m
      rw [scanned]
      exact ih (fun other member => own other (List.mem_cons_of_mem _ member)) m'

/-- Nothing but the allocators changes, when every node is in its channel. -/
theorem ssdReloadBitmap_own
    (own : ∀ c < ssdMaxChannel, ∀ b < ssdHashSize, ∀ node ∈ (v.hash c b).first, node.info.channel.val = c) :
    OnView always may ssdReloadBitmap (fun ret v' => ret = ssdOk ∧ ∃ spaces, v' = { v with space := spaces }) v := by
  unfold ssdReloadBitmap
  refine OnView.seq (M := fun found v' => found = none ∧ ∃ spaces, v' = { v with space := spaces }) ?_ ?_
  · refine (OnView.forRange (I := fun _ v' => ∃ spaces, v' = { v with space := spaces }) (R := fun _ _ => False)
      (fun c v' inside before => ?_) ⟨v.space, rfl⟩).weaken fun found v' after => ?_
    · obtain ⟨spaces, rfl⟩ := before
      unfold reloadChannel
      refine OnView.seq (scanBuckets_inChannel (v := { v with space := spaces })
        (fun b member => own c inside b (List.mem_range.1 member)) _) ?_
      rintro _ _ ⟨⟨m, rfl⟩, rfl⟩
      dsimp only
      refine OnView.seq (M := fun _ v' => ∃ spaces, v' = { v with space := spaces }) ?_
        fun _ v' after => OnView.pure after
      refine OnView.withSema trivial (fun _ _ _ => trivial) ((OnView.setSpace trivial c _).weaken ?_)
      rintro _ _ ⟨-, spaces', rfl⟩
      exact ⟨spaces', rfl⟩
    · cases found with
      | none => exact ⟨rfl, after⟩
      | some ret => exact after.elim
  · rintro _ v' ⟨rfl, after⟩
    exact OnView.pure ⟨rfl, after⟩

/-- **The allocators of a table.** -/
theorem ssdReloadBitmap_flawless
    (own : ∀ c < ssdMaxChannel, ∀ b < ssdHashSize, ∀ node ∈ (v.hash c b).first, node.info.channel.val = c) :
    OnView always may ssdReloadBitmap (fun ret v' => ret = ssdOk ∧ ∃ spaces, v' = { v with space := spaces } ∧
      ∀ c < ssdMaxChannel, Reloaded c (v.space c, v.hash c) (spaces c, v.hash c)) v := by
  rintro d rfl
  have reloads : Holds may ssdReloadBitmap (fun ret d' => ret = ssdOk →
    ∀ c < ssdMaxChannel, Reloaded c (ledger d c) (ledger d' c)) d := ssdReloadBitmap_reloads
  refine Safe.weaken (Safe.and (ssdReloadBitmap_own own d rfl) reloads) ?_
  rintro ret d' ⟨⟨rfl, spaces, after⟩, reloaded⟩
  refine ⟨rfl, spaces, after, fun c inside => ?_⟩
  have books : ledger d' c = (spaces c, (view d).hash c) := by
    show ((view d').space c, (view d').hash c) = _
    rw [after]
  rw [← books]
  exact reloaded rfl c inside

/-- A reload partitions the channel. -/
theorem Reloaded.inv {c : Nat} {before after : ChannelSpace × (Nat → HashHead)} (reloaded : Reloaded c before after)
    (ok : TableOk before.2) : ChannelInv c [] after := by
  obtain ⟨⟨m, space, bits⟩, hash, own⟩ := reloaded
  refine ⟨?_, fun node member => own node (by rwa [hash] at member)⟩
  rw [space, hash]
  exact reloadSpace_spec (separate_of_pairwise ok.disjoint) ok.inside bits

/-! ### Opening -/

/-- A bucket behind `ssd_init_hash`. -/
theorem clearedHash_bucket {h : Nat → Nat → HashHead} {c b : Nat} (inside : c < ssdMaxChannel)
    (below : b < ssdHashSize) :
    clearedHash h c b = ⟨0, []⟩ := if_pos ⟨below, .inl inside⟩

/-- A card that was opened with the record `r`. -/
structure Opened (r : SsdMetadata) (image : Mem) (b p : Nat) (v v' : View) : Prop where
  metadata : v'.metadata = r
  metaPos : v'.metaPos = ⟨p, b * ssdMaxPlanes⟩
  opened : v'.opened = true
  hash : v'.hash = (listNodes image (idMax r)).foldl linkNode (clearedHash v.hash)
  flash : v'.flash = loadedBefore image v.flash ssdMaxChannel
  space : ∃ spaces : Nat → ChannelSpace, ∀ c < ssdMaxChannel, Reloaded c (spaces c, v'.hash c) (v'.space c, v'.hash c)

theorem publishAllFreeBlocks_silent : publishAllFreeBlocks.All Act.Silent := by
  refine Program.All.bind (.firstSome fun c _ => ?_) fun _ => trivial
  exact ⟨trivial, fun _ => trivial⟩

/-- **Opening** succeeds with a record of a close, and fails with any other. -/
theorem ssdSysOpen_flawless (flawless : Flawless may) (holds : HoldsRecord v r image b p) (off : v.opened = false) :
    OnView always may ssdSysOpen (fun ret v' => if normalUninstall r then ret = ssdOk ∧ Opened r image b p v v'
      else ret = ssdError ∧ v'.opened = false) v := by
  unfold ssdSysOpen openWith
  refine OnView.seq (OnView.getOpened trivial) ?_
  rintro _ v ⟨rfl, rfl⟩
  rw [off, if_neg Bool.false_ne_true]
  refine OnView.seq (M := fun failed v' => failed = false ∧ v' = v) (OnView.act trivial ?_) ?_
  · intro d o failed d' shows allowed step
    cases step
    exact ⟨(flawless _ _ _ allowed).1, shows⟩
  rintro _ v ⟨rfl, rfl⟩
  rw [if_neg Bool.false_ne_true]
  refine OnView.seq (ssdInitHash_spec fun _ => trivial) ?_
  rintro _ _ rfl
  refine OnView.seq (ssdSysInit_flawless flawless (holds.keep (.of_flash rfl))) ?_
  intro ret v1 after
  cases closed : normalUninstall r with
  | false =>
      rw [closed] at after
      obtain ⟨rfl, shut⟩ := after
      rw [if_pos (by decide)]
      refine OnView.seq (ssdDestorySlab_spec fun _ => trivial) ?_
      rintro _ _ rfl
      exact OnView.pure ⟨rfl, shut.trans off⟩
  | true =>
      rw [closed] at after
      obtain ⟨rfl, loaded⟩ := after
      rw [if_neg (by decide)]
      simp only [if_true]
      have own : ∀ c < ssdMaxChannel, ∀ b < ssdHashSize, ∀ node ∈ (v1.hash c b).first, node.info.channel.val = c := by
        intro c inside b below node member
        have cleared := @clearedHash_bucket v.hash c b inside below
        rw [loaded.hash, linkNodes_bucket] at member
        simp only [cleared, List.append_nil, List.mem_reverse] at member
        have mine := (List.mem_filter.1 member).2
        simp only [inBucket, decide_eq_true_eq] at mine
        exact mine.1
      refine OnView.seq (ssdReloadBitmap_flawless own) ?_
      rintro _ _ ⟨rfl, spaces, rfl, reloaded⟩
      rw [if_neg (by decide)]
      refine OnView.seq (OnView.quiet publishAllFreeBlocks_silent trivial) ?_
      rintro _ _ rfl
      refine OnView.seq (OnView.silent (a := .initFlushSema) trivial trivial) ?_
      rintro _ _ rfl
      refine OnView.seq (OnView.setOpened trivial true) ?_
      rintro _ _ rfl
      exact OnView.pure ⟨rfl, loaded.metadata, loaded.metaPos, rfl, loaded.hash, loaded.flash, v1.space, reloaded⟩

end Load

end FpgaSsd.Theory
