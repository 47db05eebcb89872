import Rtai.Runs
import Rtai.WbufTransparency

/-! # sys.c: the bounce buffers over many calls

    `lxrt_fun_call_wbuf` copies between the user's buffers and `msg_buf[0]` and
    `msg_buf[1]` of the task, which grow as the calls need it.  Sizes are what
    the user passes, and `rt_malloc` may fail. -/

namespace RtaiBounceSafety

open RtaiRuns RtaiWbufCall

/-- The blocks at `msg_buf`, `none` for `NULL`, and `max_msg_size`. -/
structure Task where
  block : Bool → Option Nat
  max : Bool → Int

/-- What `__task_init` leaves: two blocks of `max_msg_size` bytes. -/
def taskInit (maxMsgSize : Nat) : Task where
  block := fun _ => some maxMsgSize
  max := fun _ => maxMsgSize

/-- A call of `rt_copy_from_user` or `rt_copy_to_user`, with the block that is
    there. -/
structure Copy where
  second : Bool
  size : Int
  block : Option Nat
  deriving DecidableEq

/-- A call of a service by the user, and the blocks that `rt_malloc` gives. -/
structure Call where
  type : Nat
  args : Nat → Int
  rtMalloc : Bool → Option Nat

/-- `rsize > wsize ? rsize : wsize` -/
def Call.msgSize (c : Call) (second : Bool) : Int :=
  if readSize c.type c.args second > writeSize c.type c.args second then
    readSize c.type c.args second
  else writeSize c.type c.args second

/-- `(msg_size << 7)/100` -/
def newSize (msgSize : Int) : Int := (toInt (msgSize * 2 ^ 7)).tdiv 100

/-- The buffer is freed and another one is asked for, if the message does not
    fit. -/
def grow (second : Bool) (msgSize : Int) (rtMalloc : Option Nat) (t : Task) : Task :=
  if msgSize > t.max second then
    { block := Function.update t.block second rtMalloc
      max := Function.update t.max second (newSize msgSize) }
  else t

/-- An argument that is not `NULL`. -/
def Task.holds (t : Task) : Arg → Bool
  | .long v => v ≠ 0
  | .msgBuf second => (t.block second).isSome

/-- Before the call, for one of the two buffers. -/
def bounceIn (second : Bool) (c : Call) (t : Task) (args : Nat → Arg) :
    Task × (Nat → Arg) × List Copy :=
  let rsize := readSize c.type c.args second
  let wsize := writeSize c.type c.args second
  if c.msgSize second > 0 then
    let t := grow second (c.msgSize second) (c.rtMalloc second) t
    let reads : Bool := rsize ≠ 0 ∧ t.holds (args (readBuf c.type second))
    let copies := if reads then [⟨second, rsize, t.block second⟩] else []
    let args :=
      if reads then Function.update args (readBuf c.type second) (.msgBuf second)
      else args
    let args :=
      if wsize ≠ 0 then Function.update args (writeBuf c.type second) (.msgBuf second)
      else args
    (t, args, copies)
  else (t, args, [])

/-- After the call. -/
def bounceOut (c : Call) (t : Task) : List Copy :=
  if writeSize c.type c.args false ≠ 0 then
    ⟨false, writeSize c.type c.args false, t.block false⟩ ::
      if writeSize c.type c.args true ≠ 0 then
        [⟨true, writeSize c.type c.args true, t.block true⟩]
      else []
  else []

/-- `lxrt_fun_call_wbuf`: in, the call, out. -/
def lxrtFunCallWbuf (c : Call) (t : Task) : Task × List Copy :=
  let (t, args, copies) := bounceIn false c t fun i => .long (c.args i)
  let (t, _, copies2) := bounceIn true c t args
  (t, copies ++ copies2 ++ bounceOut c t)

/-- A task that makes its calls: the copies so far, and how the task was before
    each call. -/
structure Run where
  task : Task
  copies : List Copy
  earlier : List Task

/-- A task before its first call. -/
def started (maxMsgSize : Nat) : Run := ⟨taskInit maxMsgSize, [], []⟩

/-- One call of the task. -/
def callStep (x : Run) (c : Call) : Option (Run × Unit) :=
  let (t, copies) := lxrtFunCallWbuf c x.task
  some (⟨t, x.copies ++ copies, x.task :: x.earlier⟩, ())

/-- A block that `rt_malloc` gives has as many bytes as it is asked for. -/
def Served (c : Call) : Prop :=
  ∀ second k, c.rtMalloc second = some k → newSize (c.msgSize second) ≤ k

/-- The copy stays inside the block. -/
def Copy.Inside (p : Copy) : Prop := ∃ k : Nat, p.block = some k ∧ 0 ≤ p.size ∧ p.size ≤ k

/-- `max_msg_size` is not above the sizes of the blocks. -/
def Task.Bounded (t : Task) : Prop := ∀ second, t.max second ≤ (t.block second).getD 0

/-- No copy of the run has gone past a buffer, and `max_msg_size` has been right
    all the time. -/
structure Safe (x : Run) : Prop where
  copies : ∀ p ∈ x.copies, p.Inside
  task : x.task.Bounded
  earlier : ∀ t ∈ x.earlier, t.Bounded

/-! ## What a call asks for -/

/-- A new buffer is asked for. -/
def Call.Grows (c : Call) (t : Task) (second : Bool) : Prop :=
  0 < c.msgSize second ∧ t.max second < c.msgSize second

instance (c : Call) (t : Task) (second : Bool) : Decidable (c.Grows t second) :=
  inferInstanceAs (Decidable (_ ∧ _))

/-- The block that the call uses. -/
def Call.blockAt (c : Call) (t : Task) (second : Bool) : Option Nat :=
  if c.Grows t second then c.rtMalloc second else t.block second

/-- The first buffer has taken the place of the argument with the address of the
    second read buffer. -/
def Call.Replaced (c : Call) : Prop :=
  0 < c.msgSize false ∧ ((writeSize c.type c.args false ≠ 0 ∧
        readBuf c.type true = writeBuf c.type false) ∨
      (readSize c.type c.args false ≠ 0 ∧ c.args (readBuf c.type false) ≠ 0 ∧
        readBuf c.type true = readBuf c.type false))

instance (c : Call) : Decidable c.Replaced := inferInstanceAs (Decidable (_ ∧ _))

/-- The address of a read buffer is not `NULL`. -/
def Call.given (c : Call) (t : Task) : Bool → Bool
  | false => c.args (readBuf c.type false) ≠ 0
  | true =>
    if c.Replaced then (c.blockAt t false).isSome
    else c.args (readBuf c.type true) ≠ 0

/-- The sizes of the copies that a call makes at a buffer. -/
def Call.sizes (c : Call) (t : Task) (second : Bool) : List Int :=
  (if 0 < c.msgSize second ∧ readSize c.type c.args second ≠ 0 ∧ c.given t second then
    [readSize c.type c.args second] else []) ++
  (if writeSize c.type c.args false ≠ 0 ∧ writeSize c.type c.args second ≠ 0 then
    [writeSize c.type c.args second] else [])

/-- The condition of a call at one of the buffers: no size is negative, and a new
    buffer has room for what is copied. -/
structure FitsAt (c : Call) (t : Task) (second : Bool) : Prop where
  nonneg : ∀ n ∈ c.sizes t second, 0 ≤ n
  room : c.Grows t second →
    (∃ k : Nat, c.rtMalloc second = some k ∧ ∀ n ∈ c.sizes t second, n ≤ k) ∨
    (c.rtMalloc second = none ∧ c.sizes t second = [] ∧ newSize (c.msgSize second) ≤ 0)

/-- What is left of a buffer by a call. -/
def Call.maxAt (c : Call) (t : Task) (second : Bool) : Int :=
  if c.Grows t second then newSize (c.msgSize second) else t.max second

section Call

variable {c : Call} {t : Task} {args : Nat → Arg} {s s' : Bool} {p : Copy}

/-- The task when a buffer is ready. -/
def Call.grown (c : Call) (t : Task) (second : Bool) : Task :=
  if c.msgSize second > 0 then grow second (c.msgSize second) (c.rtMalloc second) t else t

theorem grown_eq : c.grown t s =
    if c.Grows t s then
      { block := Function.update t.block s (c.rtMalloc s)
        max := Function.update t.max s (newSize (c.msgSize s)) }
    else t := by
  by_cases hpos : 0 < c.msgSize s
  · rw [Call.grown, if_pos hpos, grow]
    by_cases hgt : t.max s < c.msgSize s
    · rw [if_pos hgt, if_pos ⟨hpos, hgt⟩]
    · rw [if_neg hgt, if_neg fun h => hgt h.2]
  · rw [Call.grown, if_neg hpos, if_neg fun h => hpos h.1]

@[simp] theorem grown_block : (c.grown t s).block s = c.blockAt t s := by
  rw [grown_eq, Call.blockAt]
  split
  · exact Function.update_self ..
  · rfl

@[simp] theorem grown_max : (c.grown t s).max s = c.maxAt t s := by
  rw [grown_eq, Call.maxAt]
  split
  · exact Function.update_self ..
  · rfl

theorem grown_block_of_ne (h : s' ≠ s) : (c.grown t s).block s' = t.block s' := by
  rw [grown_eq]
  split
  · exact Function.update_of_ne h ..
  · rfl

theorem grown_max_of_ne (h : s' ≠ s) : (c.grown t s).max s' = t.max s' := by
  rw [grown_eq]
  split
  · exact Function.update_of_ne h ..
  · rfl

/-- One buffer does not change what the other one asks for. -/
theorem grows_grown (h : s' ≠ s) : c.Grows (c.grown t s) s' ↔ c.Grows t s' := by
  rw [Call.Grows, Call.Grows, grown_max_of_ne h]

theorem blockAt_grown (h : s' ≠ s) : c.blockAt (c.grown t s) s' = c.blockAt t s' := by
  simp only [Call.blockAt, grows_grown h, grown_block_of_ne h]

theorem maxAt_grown (h : s' ≠ s) : c.maxAt (c.grown t s) s' = c.maxAt t s' := by
  simp only [Call.maxAt, grows_grown h, grown_max_of_ne h]

theorem bounceIn_task : (bounceIn s c t args).1 = c.grown t s := by
  rw [bounceIn, Call.grown]
  split <;> rfl

theorem mem_bounceIn : p ∈ (bounceIn s c t args).2.2 ↔
    (0 < c.msgSize s ∧ readSize c.type c.args s ≠ 0 ∧
        (c.grown t s).holds (args (readBuf c.type s)) = true) ∧
      p = ⟨s, readSize c.type c.args s, c.blockAt t s⟩ := by
  by_cases hpos : 0 < c.msgSize s
  · have hg : grow s (c.msgSize s) (c.rtMalloc s) t = c.grown t s := by
      rw [Call.grown, if_pos hpos]
    simp only [bounceIn, if_pos hpos, hg, grown_block]
    by_cases hread : readSize c.type c.args s ≠ 0 ∧
        (c.grown t s).holds (args (readBuf c.type s)) = true
    · rw [if_pos (decide_eq_true hread), List.mem_singleton]
      simp [hpos, hread]
    · rw [if_neg (by simpa using hread)]
      simp [hpos, hread]
  · rw [bounceIn, if_neg hpos]
    simp [hpos]

theorem bounceIn_args : (bounceIn false c t fun i => .long (c.args i)).2.1
      (readBuf c.type true) =
    if c.Replaced then .msgBuf false else .long (c.args (readBuf c.type true)) := by
  by_cases hpos : 0 < c.msgSize false
  · by_cases hw : writeSize c.type c.args false = 0
    · by_cases hr : readSize c.type c.args false ≠ 0 ∧ c.args (readBuf c.type false) ≠ 0
      · simp [bounceIn, hpos, Call.Replaced, Task.holds, Function.update_apply, hw, hr]
      · simp [bounceIn, hpos, Call.Replaced, Task.holds, hw, ← and_assoc, hr]
    · by_cases hr : readSize c.type c.args false ≠ 0 ∧ c.args (readBuf c.type false) ≠ 0
      · simp [bounceIn, hpos, Call.Replaced, Task.holds, Function.update_apply, hw, hr, ite_or]
      · simp [bounceIn, hpos, Call.Replaced, Task.holds, Function.update_apply, hw,
          ← and_assoc, hr]
  · rw [bounceIn, if_neg hpos, if_neg fun h => hpos h.1]

/-- **THE BUFFERS AFTER A CALL**. -/
theorem call_task : (lxrtFunCallWbuf c t).1.block s = c.blockAt t s ∧
    (lxrtFunCallWbuf c t).1.max s = c.maxAt t s := by
  have ht : (lxrtFunCallWbuf c t).1 = c.grown (c.grown t false) true := by
    rw [lxrtFunCallWbuf]
    simp only [bounceIn_task]
  rw [ht]
  cases s with
  | false =>
    have h : false ≠ true := by decide
    rw [grown_block_of_ne h, grown_max_of_ne h, grown_block, grown_max]
    exact ⟨rfl, rfl⟩
  | true =>
    have h : true ≠ false := by decide
    rw [grown_block, grown_max, blockAt_grown h, maxAt_grown h]
    exact ⟨rfl, rfl⟩

theorem mem_sizes {n : Int} : n ∈ c.sizes t s ↔
    ((0 < c.msgSize s ∧ readSize c.type c.args s ≠ 0 ∧ c.given t s = true) ∧
        n = readSize c.type c.args s) ∨
      (writeSize c.type c.args false ≠ 0 ∧ writeSize c.type c.args s ≠ 0) ∧
        n = writeSize c.type c.args s := by
  rw [Call.sizes, List.mem_append]
  split <;> split <;> simp_all

theorem mem_bounceOut : p ∈ bounceOut c t ↔
    (writeSize c.type c.args false ≠ 0 ∧ writeSize c.type c.args p.second ≠ 0) ∧
      p = ⟨p.second, writeSize c.type c.args p.second, t.block p.second⟩ := by
  obtain ⟨second, size, block⟩ := p
  by_cases hw : writeSize c.type c.args false = 0
  · simp [bounceOut, hw]
  · by_cases hw2 : writeSize c.type c.args true = 0
    · cases second <;> simp [bounceOut, hw, hw2]
    · cases second <;> simp [bounceOut, hw, hw2]

/-- **THE COPIES OF A CALL**. -/
theorem mem_copies : p ∈ (lxrtFunCallWbuf c t).2 ↔
    p.size ∈ c.sizes t p.second ∧ p.block = c.blockAt t p.second := by
  have hargs := bounceIn_args (c := c) (t := t)
  have h : true ≠ false := by decide
  have hfirst : (c.grown (c.grown t false) true).block false = c.blockAt t false := by
    rw [grown_block_of_ne h.symm, grown_block]
  simp only [lxrtFunCallWbuf, List.mem_append, mem_bounceIn, bounceIn_task, hargs,
    mem_bounceOut, mem_sizes]
  obtain ⟨second, size, block⟩ := p
  cases second with
  | false =>
    have hgiven : (c.grown t false).holds (.long (c.args (readBuf c.type false))) =
        c.given t false := rfl
    simp only [hgiven, hfirst, Copy.mk.injEq]
    constructor
    · rintro ((⟨hr, -, hn, hb⟩ | ⟨-, hf, -⟩) | ⟨hw, -, hn, hb⟩)
      · exact ⟨Or.inl ⟨hr, hn⟩, hb⟩
      · exact nomatch hf
      · exact ⟨Or.inr ⟨hw, hn⟩, hb⟩
    · rintro ⟨⟨hr, hn⟩ | ⟨hw, hn⟩, hb⟩
      · exact Or.inl (Or.inl ⟨hr, trivial, hn, hb⟩)
      · exact Or.inr ⟨hw, trivial, hn, hb⟩
  | true =>
    have hgiven : (c.grown (c.grown t false) true).holds (if c.Replaced then .msgBuf false
          else .long (c.args (readBuf c.type true))) = c.given t true := by
      rw [Call.given]
      split
      · rw [Task.holds, hfirst]
      · rfl
    simp only [hgiven, blockAt_grown h, grown_block, Copy.mk.injEq]
    constructor
    · rintro ((⟨-, hf, -⟩ | ⟨hr, -, hn, hb⟩) | ⟨hw, -, hn, hb⟩)
      · exact nomatch hf
      · exact ⟨Or.inl ⟨hr, hn⟩, hb⟩
      · exact ⟨Or.inr ⟨hw, hn⟩, hb⟩
    · rintro ⟨⟨hr, hn⟩ | ⟨hw, hn⟩, hb⟩
      · exact Or.inl (Or.inr ⟨hr, trivial, hn, hb⟩)
      · exact Or.inr ⟨hw, trivial, hn, hb⟩

/-! ## One call -/

theorem size_le {n : Int} (h : n ∈ c.sizes t s) : n ≠ 0 ∧ n ≤ c.msgSize s := by
  rw [mem_sizes] at h
  rw [Call.msgSize]
  rcases h with ⟨⟨-, hr, -⟩, rfl⟩ | ⟨⟨-, hw⟩, rfl⟩
  · refine ⟨hr, ?_⟩
    split <;> omega
  · refine ⟨hw, ?_⟩
    split <;> omega

/-- What a call does at one of the buffers. -/
theorem fitsAt_iff (hserved : ∀ k, c.rtMalloc s = some k → newSize (c.msgSize s) ≤ k)
    (ht : t.max s ≤ (t.block s).getD 0) :
    ((∀ n ∈ c.sizes t s, ∃ k : Nat, c.blockAt t s = some k ∧ 0 ≤ n ∧ n ≤ k) ∧
      c.maxAt t s ≤ (c.blockAt t s).getD 0) ↔ FitsAt c t s := by
  by_cases hg : c.Grows t s
  · rw [Call.blockAt, Call.maxAt, if_pos hg, if_pos hg]
    cases hm : c.rtMalloc s with
    | none =>
      constructor
      · rintro ⟨hsizes, hmax⟩
        refine ⟨fun n hn => ?_, fun _ => Or.inr ⟨hm, ?_, hmax⟩⟩
        · obtain ⟨k, hk, -⟩ := hsizes n hn
          exact nomatch hk
        · rw [List.eq_nil_iff_forall_not_mem]
          intro n hn
          obtain ⟨k, hk, -⟩ := hsizes n hn
          exact nomatch hk
      · rintro ⟨-, hroom⟩
        rcases hroom hg with ⟨k, hk, -⟩ | ⟨-, hnil, hmax⟩
        · rw [hm] at hk
          exact nomatch hk
        · rw [hnil]
          exact ⟨fun n hn => (nomatch hn), hmax⟩
    | some k =>
      constructor
      · rintro ⟨hsizes, -⟩
        refine ⟨fun n hn => ?_, fun _ => Or.inl ⟨k, hm, fun n hn => ?_⟩⟩
        · obtain ⟨-, -, h0, -⟩ := hsizes n hn
          exact h0
        · obtain ⟨k', hk, -, hle⟩ := hsizes n hn
          cases hk
          exact hle
      · rintro ⟨hnonneg, hroom⟩
        refine ⟨fun n hn => ⟨k, rfl, hnonneg n hn, ?_⟩, hserved k hm⟩
        rcases hroom hg with ⟨k', hk, hle⟩ | ⟨hk, -⟩
        · rw [hm] at hk
          cases hk
          exact hle n hn
        · rw [hm] at hk
          exact nomatch hk
  · rw [Call.blockAt, Call.maxAt, if_neg hg, if_neg hg]
    constructor
    · rintro ⟨hsizes, -⟩
      refine ⟨fun n hn => ?_, fun h => absurd h hg⟩
      obtain ⟨-, -, h0, -⟩ := hsizes n hn
      exact h0
    · rintro ⟨hnonneg, -⟩
      refine ⟨fun n hn => ?_, ht⟩
      -- a message that fits, in a block that is there
      have h0 := hnonneg n hn
      obtain ⟨hne, hle⟩ := size_le hn
      have hfit : c.msgSize s ≤ t.max s := by
        by_contra hc
        exact hg ⟨by omega, by omega⟩
      cases hb : t.block s with
      | none =>
        rw [hb] at ht
        have hnone : t.max s ≤ 0 := ht
        omega
      | some k =>
        rw [hb] at ht
        have hsome : t.max s ≤ k := ht
        exact ⟨k, rfl, h0, by omega⟩

/-- Below 16 MB every new block has room. -/
theorem fitsAt_of_small (hserved : Served c) (hnonneg : ∀ n ∈ c.sizes t s, 0 ≤ n)
    (hsmall : c.msgSize s < 2 ^ 24) (hm : c.Grows t s → (c.rtMalloc s).isSome) :
    FitsAt c t s := by
  refine ⟨hnonneg, fun hg => Or.inl ?_⟩
  obtain ⟨k, hk⟩ := Option.isSome_iff_exists.mp (hm hg)
  refine ⟨k, hk, fun n hn => ?_⟩
  have hle := (size_le hn).2
  have hnew := hserved s k hk
  rw [newSize, RtaiWbufTransparency.newSize_small hg.1 hsmall] at hnew
  omega

end Call

/-! ## Every run -/

/-- **THE COPIES OF A TASK STAY INSIDE ITS BUFFERS** exactly in the runs whose
    calls all fit. -/
theorem safe_iff (maxMsgSize : Nat) (x : Run)
    (h : Reach callStep (fun _ c => Served c) (started maxMsgSize) x) :
    Safe x ↔ Reach callStep (fun x c => Served c ∧ ∀ second, FitsAt c x.task second)
      (started maxMsgSize) x := by
  refine h.good_iff (I := fun _ => True) trivial ?_ (fun _ _ _ _ _ _ _ => trivial) ?_
  · constructor
    · intro p hp
      exact nomatch hp
    · intro second
      exact Int.le_refl _
    · intro t ht
      exact nomatch ht
  · intro x c x' o _ hserved hs
    rw [callStep, Option.some.injEq, Prod.mk.injEq] at hs
    obtain ⟨rfl, -⟩ := hs
    constructor
    -- the buffers of this call are among the copies of the run
    · rintro ⟨hcopies, htask, hearlier⟩
      have hx : x.task.Bounded := hearlier _ List.mem_cons_self
      refine ⟨⟨fun p hp => hcopies p (List.mem_append_left _ hp), hx,
        fun t ht => hearlier t (List.mem_cons_of_mem _ ht)⟩, fun s => ?_⟩
      refine (fitsAt_iff (hserved s) (hx s)).mp ⟨fun n hn => ?_, ?_⟩
      · exact hcopies ⟨s, n, c.blockAt x.task s⟩
          (List.mem_append_right _ (mem_copies.mpr ⟨hn, rfl⟩))
      · have h := htask s
        rw [call_task.1, call_task.2] at h
        exact h
    · rintro ⟨⟨hcopies, hx, hearlier⟩, hfits⟩
      constructor
      · intro p hp
        rcases List.mem_append.mp hp with hp | hp
        · exact hcopies p hp
        · obtain ⟨hn, hb⟩ := mem_copies.mp hp
          obtain ⟨k, hk, hin⟩ :=
            ((fitsAt_iff (hserved _) (hx _)).mpr (hfits p.second)).1 _ hn
          exact ⟨k, hb.trans hk, hin⟩
      · intro s
        rw [call_task.1, call_task.2]
        exact ((fitsAt_iff (hserved s) (hx s)).mpr (hfits s)).2
      · intro t ht
        rcases List.mem_cons.mp ht with rfl | ht
        · exact hx
        · exact hearlier t ht

/-! ## A failure of rt_malloc -/

/-- A service that reads a buffer of 200 bytes. -/
def reading (block : Option Nat) : Call where
  type := UR1 2 4
  args := fun i => if i = 2 then 4096 else 200
  rtMalloc := fun _ => block

/-- With memory the call is small enough, and copies to the new buffer. -/
theorem safe_reading : ∃ x,
    Reach callStep (fun x c => Served c ∧ ∀ second, FitsAt c x.task second) (started 128) x ∧
      ⟨false, 200, some 256⟩ ∈ x.copies ∧ Safe x := by
  have hserved : Served (reading (some 256)) := by
    intro s k hk
    cases hk
    cases s <;> decide
  have hfits : ∀ second, FitsAt (reading (some 256)) (started 128).task second := by
    intro second
    refine fitsAt_of_small hserved ?_ ?_ fun _ => rfl
    · cases second <;> decide
    · cases second <;> decide
  obtain ⟨x, hx, hcopy⟩ : ∃ x, callStep (started 128) (reading (some 256)) = some (x, ()) ∧
      ⟨false, 200, some 256⟩ ∈ x.copies :=
    ⟨_, rfl, by decide⟩
  have hreach : Reach callStep (fun x c => Served c ∧ ∀ second, FitsAt c x.task second)
      (started 128) x :=
    (Reach.refl (started 128)).tail ⟨hserved, hfits⟩ hx
  exact ⟨x, hreach, hcopy, (safe_iff 128 x (hreach.mono fun _ _ hg => hg.1)).mpr hreach⟩

/-- The user's bytes go to `NULL`, and `max_msg_size` is 256. -/
theorem reading_copies_to_null : ∃ x, Reach callStep (fun _ c => Served c) (started 128) x ∧
      ⟨false, 200, none⟩ ∈ x.copies ∧ x.task.max false = 256 ∧ ¬ Safe x := by
  have hserved : Served (reading none) := fun s k hk => nomatch hk
  refine ⟨_, (Reach.refl (started 128)).tail (a := reading none) (o := ()) hserved rfl,
    by decide, by decide, fun h => ?_⟩
  have h := h.task false
  revert h
  decide

end RtaiBounceSafety
