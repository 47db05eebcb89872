import Rtai.WbufCall

/-! # User buffers and the buffers of the task

    What a service does is a value and a set of bytes that it writes.  On the
    user's buffers the other bytes stay as they are; on the buffers of the task
    the other bytes of a write buffer are those that the read buffer of the
    same number, or an earlier call, has left there. -/

namespace RtaiWbufTransparency

open RtaiWbufCall

/-! ## The fields of a type -/

/-- The field of three bits at an offset. -/
def field (off x : Nat) : Nat := (x >>> off) &&& 0x7

theorem testBit_seven (i : Nat) : Nat.testBit 7 i = decide (i < 3) :=
  Nat.testBit_two_pow_sub_one 3 i

theorem field_or (off x y : Nat) : field off (x ||| y) = field off x ||| field off y := by
  rw [field, Nat.shiftRight_or_distrib, Nat.and_or_distrib_right]
  rfl

theorem field_self (off v : Nat) (hv : v < 8) : field off ((v &&& 0x7) <<< off) = v := by
  have h7 : v &&& 0x7 = v % 8 := Nat.and_two_pow_sub_one_eq_mod v 3
  rw [field, Nat.shiftLeft_shiftRight, h7, Nat.mod_eq_of_lt hv]
  exact (Nat.and_two_pow_sub_one_eq_mod v 3).trans (Nat.mod_eq_of_lt hv)

theorem field_other (off off' v : Nat) (h : off + 3 ≤ off' ∨ off' + 3 ≤ off) :
    field off' ((v &&& 0x7) <<< off) = 0 := by
  refine Nat.eq_of_testBit_eq fun i => ?_
  rw [field, Nat.testBit_and, testBit_seven, Nat.testBit_shiftRight,
    Nat.testBit_shiftLeft, Nat.testBit_and, testBit_seven, Nat.zero_testBit]
  by_cases hi : i < 3
  · by_cases hle : off ≤ off' + i
    · have hge : ¬ off' + i - off < 3 := by omega
      rw [decide_eq_false hge, Bool.and_false, Bool.and_false, Bool.false_and]
    · rw [decide_eq_false hle, Bool.false_and, Bool.false_and]
  · rw [decide_eq_false hi, Bool.and_false]

/-- Three bits in their place. -/
theorem and_seven (off x : Nat) : x &&& (0x7 <<< off) = field off x <<< off := by
  refine Nat.eq_of_testBit_eq fun i => ?_
  rw [field, Nat.testBit_and, Nat.testBit_shiftLeft, Nat.testBit_shiftLeft,
    Nat.testBit_and, Nat.testBit_shiftRight]
  by_cases hle : off ≤ i
  · have hi : off + (i - off) = i := by omega
    rw [decide_eq_true hle, Bool.true_and, Bool.true_and, hi]
  · rw [decide_eq_false hle, Bool.false_and, Bool.and_false, Bool.false_and]

/-- Six bits are two fields. -/
theorem need_iff (off x : Nat) :
    x &&& (0x3F <<< off) ≠ 0 ↔ field off x ≠ 0 ∨ field (off + 3) x ≠ 0 := by
  have h6 : (0x3F : Nat) <<< off = (0x7 <<< off) ||| (0x7 <<< (off + 3)) := by
    have h3 : (0x3F : Nat) = 0x7 ||| (0x7 <<< 3) := by decide
    rw [h3, Nat.shiftLeft_or_distrib, Nat.add_comm, Nat.shiftLeft_add]
  rw [h6, Nat.and_or_distrib_left, and_seven, and_seven]
  constructor
  · intro h
    by_contra hno
    obtain ⟨h1, h2⟩ := not_or.mp hno
    rw [not_not.mp h1, not_not.mp h2] at h
    exact h (by rw [Nat.zero_shiftLeft, Nat.zero_shiftLeft]; rfl)
  · intro h hz
    obtain ⟨h1, h2⟩ := Nat.or_eq_zero_iff.mp hz
    rcases h with h | h
    · exact h (Nat.shiftLeft_eq_zero_iff.mp h1)
    · exact h (Nat.shiftLeft_eq_zero_iff.mp h2)

/-- The two fields of a buffer that may be missing. -/
def bfOf (o : Option Desc) : Nat := o.elim 0 Desc.bf

/-- The size field. -/
def szOf (o : Option Desc) : Nat := o.elim 0 Desc.sz

theorem bfOf_lt (o : Option Desc) : bfOf o < 8 := by
  cases o with
  | none => exact Nat.succ_pos 7
  | some d => exact d.bf_lt

theorem szOf_lt (o : Option Desc) : szOf o < 8 := by
  cases o with
  | none => exact Nat.succ_pos 7
  | some d => exact d.sz_lt

theorem bfOf_ne {o : Option Desc} : bfOf o ≠ 0 ∨ szOf o ≠ 0 ↔ o.isSome := by
  cases o with
  | none => exact ⟨fun h => absurd rfl (h.elim (fun h => h) fun h => h), nofun⟩
  | some d => exact ⟨fun _ => rfl, fun _ => Or.inl (Nat.ne_of_gt d.bf_pos)⟩

/-- A type, field by field. -/
def fields (e : EntryType) : Nat :=
  (if e.rtSwitch then 1 else 0) ||| (((bfOf (e.reads false) &&& 0x7) <<< 3) |||
      ((szOf (e.reads false) &&& 0x7) <<< 6)) |||
    (((bfOf (e.reads true) &&& 0x7) <<< 9) ||| ((szOf (e.reads true) &&& 0x7) <<< 12)) |||
    (((bfOf (e.writes false) &&& 0x7) <<< 19) ||| ((szOf (e.writes false) &&& 0x7) <<< 22)) |||
    (((bfOf (e.writes true) &&& 0x7) <<< 25) ||| ((szOf (e.writes true) &&& 0x7) <<< 28))

theorem encode_eq (e : EntryType) : e.encode = fields e := by
  rw [EntryType.encode, fields]
  congr 1
  · congr 1
    · congr 1
      · congr 1
        cases e.reads false <;> rfl
      · cases e.reads true <;> rfl
    · cases e.writes false <;> rfl
  · cases e.writes true <;> rfl

/-- The bit for a switch is in no field. -/
theorem field_switch (b : Bool) {off : Nat} (h : 0 < off) :
    field off (if b then 1 else 0) = 0 := by
  cases b with
  | false =>
    show (0 >>> off) &&& 0x7 = 0
    rw [Nat.zero_shiftRight, Nat.zero_and]
  | true =>
    show (1 >>> off) &&& 0x7 = 0
    have hlt : 1 < 2 ^ off := Nat.one_lt_two_pow (Nat.ne_of_gt h)
    rw [Nat.shiftRight_eq_div_pow, Nat.div_eq_of_lt hlt, Nat.zero_and]

theorem field_encode (e : EntryType) : field 3 e.encode = bfOf (e.reads false) ∧
      field 6 e.encode = szOf (e.reads false) ∧
      field 9 e.encode = bfOf (e.reads true) ∧
      field 12 e.encode = szOf (e.reads true) ∧
      field 19 e.encode = bfOf (e.writes false) ∧
      field 22 e.encode = szOf (e.writes false) ∧
      field 25 e.encode = bfOf (e.writes true) ∧
      field 28 e.encode = szOf (e.writes true) := by
  have hbf := bfOf_lt
  have hsz := szOf_lt
  rw [encode_eq, fields]
  refine ⟨?_, ?_, ?_, ?_, ?_, ?_, ?_, ?_⟩ <;>
    simp (disch := first | omega | exact hbf _ | exact hsz _) only [field_or,
      field_switch, field_self, field_other, Nat.zero_or, Nat.or_zero]

/-- **What is decoded** is what was encoded. -/
theorem decode_bufs (e : EntryType) (s : Bool) : readBuf e.encode s = bfOf (e.reads s) ∧
      writeBuf e.encode s = bfOf (e.writes s) := by
  obtain ⟨h1, -, h2, -, h3, -, h4, -⟩ := field_encode e
  cases s with
  | false => exact ⟨h1, h3⟩
  | true => exact ⟨h2, h4⟩

theorem need_decode {x off : Nat} {o : Option Desc}
    (h1 : field off x = bfOf o) (h2 : field (off + 3) x = szOf o) :
    (decide (x &&& (0x3F <<< off) ≠ 0)) = o.isSome := by
  rw [Bool.eq_iff_iff, decide_eq_true_iff, need_iff, h1, h2]
  exact bfOf_ne

/-- The size of a buffer, 0 if there is none. -/
def sizeOf (args : Nat → Int) (o : Option Desc) : Int :=
  o.elim 0 fun d => sizeArg args d.sz

theorem decode_sizes (e : EntryType) (args : Nat → Int) (s : Bool) :
    readSize e.encode args s = sizeOf args (e.reads s) ∧
      writeSize e.encode args s = sizeOf args (e.writes s) := by
  obtain ⟨r1, rs1, r2, rs2, w1, ws1, w2, ws2⟩ := field_encode e
  have hr1 : NEED_TO_R e.encode = (e.reads false).isSome :=
    need_decode r1 rs1
  have hr2 : NEED_TO_R2ND e.encode = (e.reads true).isSome :=
    need_decode r2 rs2
  have hw1 : NEED_TO_W e.encode = (e.writes false).isSome :=
    need_decode w1 ws1
  have hw2 : NEED_TO_W2ND e.encode = (e.writes true).isSome :=
    need_decode w2 ws2
  have hsize : ∀ {o : Option Desc} {b : Bool} {sz : Nat}, b = o.isSome →
      sz = szOf o → (if b then sizeArg args sz else 0) = sizeOf args o := by
    intro o b sz hb hs
    subst hb hs
    cases o with
    | none => rfl
    | some d => rfl
  cases s with
  | false => exact ⟨hsize hr1 rs1, hsize hw1 ws1⟩
  | true =>
    constructor
    · refine Eq.trans ?_ (hsize hr2 rs2)
      refine if_congr ⟨fun h => h.2, fun h => ⟨?_, h⟩⟩ rfl rfl
      rw [hr1]
      exact e.reads_first (hr2 ▸ h)
    · refine Eq.trans ?_ (hsize hw2 ws2)
      refine if_congr ⟨fun h => h.2, fun h => ⟨?_, h⟩⟩ rfl rfl
      rw [hw1]
      exact e.writes_first (hw2 ▸ h)

/-! ## What a service does -/

/-- The bytes written so far, by buffer and offset. -/
abbrev Written := Bool → Nat → Option UInt8

/-- A byte is written. -/
def Written.set (w : Written) (second : Bool) (off : Nat) (b : UInt8) : Written :=
  Function.update w second (Function.update (w second) off (some b))

/-- What a service returns and writes when its read buffers have certain
    bytes. -/
def effect (decl : Decl) (bytes : Bool → Nat → UInt8) : Written → Service → Int × Written
  | w, .ret v => (v, w)
  | w, .read second off next =>
    match inBuf decl.reads second off with
    | some _ => effect decl bytes w (next (bytes second off))
    | none => effect decl bytes w (next 0)
  | w, .write second off b next =>
    match inBuf decl.writes second off with
    | some _ => effect decl bytes (w.set second off b) next
    | none => effect decl bytes w next

/-- The same on the buffers of the task: a byte of a read buffer is found as it
    was at the `start`, or as the service has overwritten it, since the write
    buffer of the same number is at the same place. -/
def shared (decl : Decl) (args : Nat → Int) (start : Bool → Nat → UInt8) :
    Written → Service → Int × Written
  | w, .ret v => (v, w)
  | w, .read second off next =>
    match inBuf decl.reads second off with
    | some bf =>
      shared decl args start w (next (if args bf = 0 then 0
          else (w second off).getD (start second off)))
    | none => shared decl args start w (next 0)
  | w, .write second off b next =>
    match inBuf decl.writes second off with
    | some _ => shared decl args start (w.set second off b) next
    | none => shared decl args start w next

/-- The arguments as they look to a service on the buffers of the task: no write
    buffer is at `NULL`. -/
def withRoom (decl : Decl) (args : Nat → Int) (i : Nat) : Arg :=
  if (decl.writes false).map (·.1) = some i ∨
      (decl.writes true).map (·.1) = some i then .msgBuf false
  else .long (args i)

/-- A service reads no byte of a read buffer after it has changed the byte at
    the same place of the write buffer with the same number. -/
def ReadsFirst (decl : Decl) (bytes : Bool → Nat → UInt8) : Written → Service → Prop
  | _, .ret _ => True
  | w, .read second off next =>
    match inBuf decl.reads second off with
    | some _ =>
      (w second off = none ∨ w second off = some (bytes second off)) ∧
        ReadsFirst decl bytes w (next (bytes second off))
    | none => ReadsFirst decl bytes w (next 0)
  | w, .write second off b next =>
    match inBuf decl.writes second off with
    | some _ => ReadsFirst decl bytes (w.set second off b) next
    | none => ReadsFirst decl bytes w next

theorem Written.set_self (w : Written) (second : Bool) (off : Nat) (b : UInt8) :
    w.set second off b second off = some b := by
  rw [Written.set, Function.update_self, Function.update_self]

theorem Written.set_of_ne (w : Written) {second s : Bool} {off i : Nat} (b : UInt8)
    (h : s = second → i ≠ off) : w.set second off b s i = w s i := by
  rw [Written.set]
  by_cases hs : s = second
  · subst hs
    rw [Function.update_self, Function.update_of_ne (h rfl)]
  · rw [Function.update_of_ne hs]

theorem inBuf_some {bufs : Bool → Option (Nat × Int)} {s : Bool} {off bf : Nat}
    (h : inBuf bufs s off = some bf) : ∃ n, bufs s = some (bf, n) ∧ off < n := by
  simp only [inBuf] at h
  split at h
  · next bf' n hb =>
      split at h
      · next hlt =>
          cases h
          exact ⟨n, hb, hlt⟩
      · exact nomatch h
  · exact nomatch h

theorem inBuf_of {bufs : Bool → Option (Nat × Int)} {s : Bool} {off bf : Nat}
    {n : Int} (hb : bufs s = some (bf, n)) (hlt : off < n) :
    inBuf bufs s off = some bf := by
  simp only [inBuf, hb]
  exact if_pos hlt

/-- The bytes that a service finds in the user's read buffers. -/
def userBytes (decl : Decl) (args : Nat → Int) (user : Int → UInt8)
    (second : Bool) (off : Nat) : UInt8 :=
  match inBuf decl.reads second off with
  | some bf => if args bf = 0 then 0 else user (args bf + off)
  | none => 0

/-! ## On the user's buffers -/

section Direct

variable {decl : Decl} {args : Nat → Int} {user : Int → UInt8}

/-- The user's memory after some bytes have been written.  What is written to
    `NULL` is nowhere. -/
structure DirectAt (decl : Decl) (args : Nat → Int) (user : Int → UInt8)
    (m : Mem) (w : Written) : Prop where
  wrote : ∀ s bf n, decl.writes s = some (bf, n) → args bf ≠ 0 → ∀ off : Nat, off < n →
      m.user (args bf + off) = (w s off).getD (user (args bf + off))
  other : ∀ a, (∀ s bf n, decl.writes s = some (bf, n) → args bf ≠ 0 →
    ∀ off : Nat, off < n → a ≠ args bf + off) → m.user a = user a

/-- A byte of the write buffers has one place. -/
theorem apart_place (h : Apart decl args) {s s' : Bool} {bf bf' : Nat}
    {n n' : Int} (hb : decl.writes s = some (bf, n))
    (hb' : decl.writes s' = some (bf', n')) (hne : args bf ≠ 0)
    (hne' : args bf' ≠ 0) {i j : Nat} (hi : i < n) (hj : j < n')
    (he : args bf + i = args bf' + j) : s = s' ∧ i = j := by
  by_cases hs : s = s'
  · subst hs
    rw [hb] at hb'
    cases hb'
    exact ⟨rfl, by omega⟩
  · cases s with
    | false =>
      have hs' : s' = true := by
        cases s' with
        | false => exact absurd rfl hs
        | true => rfl
      subst hs'
      exact absurd he (h.writes _ _ _ _ hb hb' hne hne' i j hi hj)
    | true =>
      have hs' : s' = false := by
        cases s' with
        | false => rfl
        | true => exact absurd rfl hs
      subst hs'
      exact absurd he.symm (h.writes _ _ _ _ hb' hb hne' hne j i hj hi)

/-- **A direct call.** -/
theorem run_direct (h : Apart decl args) (p : Service) :
    ∀ {m : Mem} {w : Written}, DirectAt decl args user m w →
    (run decl (fun i => .long (args i)) m p).1 =
        (effect decl (userBytes decl args user) w p).1 ∧
      DirectAt decl args user (run decl (fun i => .long (args i)) m p).2
        (effect decl (userBytes decl args user) w p).2 := by
  induction p with
  | ret v =>
    intro m w hm
    exact ⟨rfl, hm⟩
  | read s off next ih =>
    intro m w hm
    simp only [run, effect]
    cases hin : inBuf decl.reads s off with
    | none => exact ih 0 hm
    | some bf =>
      -- no write buffer has the byte
      have hbyte : m.load (.long (args bf)) off =
          userBytes decl args user s off := by
        simp only [Mem.load, userBytes, hin]
        split
        · rfl
        · next hne =>
            obtain ⟨n, hb, hlt⟩ := inBuf_some hin
            refine hm.other _ fun s' bf' n' hb' hne' j hj => ?_
            exact h.reads s s' bf bf' n n' hb hb' hne hne' off j hlt hj
      dsimp only
      rw [hbyte]
      exact ih _ hm
  | write s off b next ih =>
    intro m w hm
    simp only [run, effect]
    cases hin : inBuf decl.writes s off with
    | none => exact ih hm
    | some bf =>
      obtain ⟨n, hb, hlt⟩ := inBuf_some hin
      refine ih ?_
      by_cases hne : args bf = 0
      · -- the other buffer is not touched
        simp only [Mem.store, if_pos hne]
        refine ⟨fun s' bf' n' hb' hne' j hj => ?_, hm.other⟩
        have hs : s' ≠ s := by
          rintro rfl
          rw [hb] at hb'
          cases hb'
          exact hne' hne
        rw [Written.set_of_ne w b fun he => absurd he hs]
        exact hm.wrote s' bf' n' hb' hne' j hj
      simp only [Mem.store, if_neg hne]
      refine ⟨fun s' bf' n' hb' hne' j hj => ?_, fun a ha => ?_⟩
      · show Function.update m.user (args bf + off) b (args bf' + j) = _
        by_cases he : args bf' + j = args bf + off
        · obtain ⟨hs, hij⟩ := apart_place h hb' hb hne' hne hj hlt he
          subst hs hij
          rw [he, Function.update_self, Written.set_self]
          rfl
        · have hplace : s' = s → j ≠ off := by
            rintro rfl rfl
            rw [hb] at hb'
            cases hb'
            exact he rfl
          rw [Function.update_of_ne he, Written.set_of_ne w b hplace]
          exact hm.wrote s' bf' n' hb' hne' j hj
      · show Function.update m.user (args bf + off) b a = _
        rw [Function.update_of_ne (ha s bf n hb hne off hlt)]
        exact hm.other a ha

end Direct

/-! ## On the buffers of the task -/

section Bounced

variable {decl : Decl} {args : Nat → Int} {user : Int → UInt8}
  {data : Bool → Nat → UInt8} {funArgs : Nat → Arg}

/-- The buffers of the task after some bytes have been written. -/
structure BouncedAt (user : Int → UInt8) (data : Bool → Nat → UInt8) (m : Mem)
    (w : Written) : Prop where
  user : m.user = user
  wrote : ∀ s off, m.data s off = (w s off).getD (data s off)

/-- The arguments that the service is called with. -/
structure Bounced (decl : Decl) (args : Nat → Int) (funArgs : Nat → Arg) :
    Prop where
  writes : ∀ s bf n, decl.writes s = some (bf, n) → funArgs bf = .msgBuf s
  reads : ∀ s bf n, decl.reads s = some (bf, n) →
    funArgs bf = if args bf = 0 then .long 0 else .msgBuf s

/-- **A call on the buffers of the task.** -/
theorem run_bounced (hargs : Bounced decl args funArgs) (p : Service) :
    ∀ {m : Mem} {w : Written}, BouncedAt user data m w →
    (run decl funArgs m p).1 = (shared decl args data w p).1 ∧
      BouncedAt user data (run decl funArgs m p).2 (shared decl args data w p).2 := by
  induction p with
  | ret v =>
    intro m w hm
    exact ⟨rfl, hm⟩
  | read s off next ih =>
    intro m w hm
    simp only [run, shared]
    cases hin : inBuf decl.reads s off with
    | none => exact ih 0 hm
    | some bf =>
      obtain ⟨n, hb, hlt⟩ := inBuf_some hin
      have hbyte : m.load (funArgs bf) off =
          if args bf = 0 then 0 else (w s off).getD (data s off) := by
        rw [hargs.reads s bf n hb]
        split
        · rfl
        · exact hm.wrote s off
      dsimp only
      rw [hbyte]
      exact ih _ hm
  | write s off b next ih =>
    intro m w hm
    simp only [run, shared]
    cases hin : inBuf decl.writes s off with
    | none => exact ih hm
    | some bf =>
      obtain ⟨n, hb, hlt⟩ := inBuf_some hin
      refine ih ?_
      rw [hargs.writes s bf n hb]
      refine ⟨hm.user, fun s' j => ?_⟩
      show Function.update m.data s (Function.update (m.data s) off b) s' j = _
      by_cases hs : s' = s
      · subst hs
        rw [Function.update_self]
        by_cases hj : j = off
        · subst hj
          rw [Function.update_self, Written.set_self]
          rfl
        · rw [Function.update_of_ne hj, Written.set_of_ne w b fun _ => hj]
          exact hm.wrote s' j
      · rw [Function.update_of_ne hs, Written.set_of_ne w b fun h => absurd h hs]
        exact hm.wrote s' j

/-- Only the bytes of the read buffers matter at the start. -/
theorem shared_congr {start : Bool → Nat → UInt8}
    (h : ∀ s off bf, inBuf decl.reads s off = some bf → data s off = start s off)
    (p : Service) : ∀ w, shared decl args data w p = shared decl args start w p := by
  induction p with
  | ret v => exact fun _ => rfl
  | read s off next ih =>
    intro w
    simp only [shared]
    cases hin : inBuf decl.reads s off with
    | none => exact ih 0 w
    | some bf =>
      dsimp only
      rw [h s off bf hin]
      exact ih _ w
  | write s off b next ih =>
    intro w
    simp only [shared]
    cases inBuf decl.writes s off with
    | none => exact ih w
    | some bf => exact ih _

/-- **A service that reads first** cannot tell that the buffers are shared. -/
theorem shared_of_readsFirst
    (hdata : ∀ s off bf, inBuf decl.reads s off = some bf → args bf ≠ 0 →
      data s off = user (args bf + off)) (p : Service) :
    ∀ w, ReadsFirst decl (userBytes decl args user) w p →
      shared decl args data w p = effect decl (userBytes decl args user) w p := by
  induction p with
  | ret v => exact fun _ _ => rfl
  | read s off next ih =>
    intro w hfirst
    simp only [ReadsFirst] at hfirst
    simp only [shared, effect]
    cases hin : inBuf decl.reads s off with
    | none =>
      rw [hin] at hfirst
      exact ih 0 w hfirst
    | some bf =>
      rw [hin] at hfirst
      obtain ⟨hw, hfirst⟩ := hfirst
      have hbytes : userBytes decl args user s off =
          if args bf = 0 then 0 else user (args bf + off) := by
        simp only [userBytes, hin]
      have hbyte : (if args bf = 0 then 0
          else (w s off).getD (data s off)) =
            userBytes decl args user s off := by
        rw [hbytes] at hw ⊢
        split
        · rfl
        · next hne =>
            rw [if_neg hne] at hw
            rcases hw with hw | hw
            · rw [hw]
              exact hdata s off bf hin hne
            · rw [hw]
              rfl
      dsimp only
      rw [hbyte]
      exact ih _ w hfirst
  | write s off b next ih =>
    intro w hfirst
    simp only [ReadsFirst] at hfirst
    simp only [shared, effect]
    cases hin : inBuf decl.writes s off with
    | none =>
      rw [hin] at hfirst
      exact ih w hfirst
    | some bf =>
      rw [hin] at hfirst
      exact ih _ hfirst

end Bounced

/-! ## The buffers before the call -/

/-- The size of the message in a buffer. -/
def need (rsize wsize : Int) : Int := if rsize > wsize then rsize else wsize

/-- A buffer has room for a message, or a new one that has room can be had: the
    size of a new one is computed in an `int`, which a message of 16 MB
    overflows. -/
def Fits (rtMalloc : Bool → Int → Option (Nat → UInt8)) (m : Mem)
    (second : Bool) (msgSize : Int) : Prop :=
  msgSize ≤ m.size second ∨ msgSize < 2 ^ 24 ∧ (rtMalloc second (msgSize * 2 ^ 7 / 100)).isSome

/-- The bytes of an old or a new buffer. -/
def leftover (rtMalloc : Bool → Int → Option (Nat → UInt8)) (m : Mem)
    (second : Bool) (msgSize : Int) : Nat → UInt8 :=
  if msgSize ≤ m.size second then m.data second
  else (rtMalloc second (msgSize * 2 ^ 7 / 100)).getD fun _ => 0

section Before

variable {rtMalloc : Bool → Int → Option (Nat → UInt8)} {m : Mem} {s : Bool}
  {n rsize wsize : Int} {rbf wbf : Nat} {args : Nat → Arg}

/-- The size of a new buffer below 16 MB. -/
theorem newSize_small (h0 : 0 < n) (h : n < 2 ^ 24) :
    (toInt (n * 2 ^ 7)).tdiv 100 = n * 2 ^ 7 / 100 := by
  have hint : toInt (n * 2 ^ 7) = n * 2 ^ 7 :=
    Int.bmod_eq_of_le (by omega) (by omega)
  rw [hint]
  exact Int.tdiv_eq_ediv_of_nonneg (by omega)

/-- And from there on. -/
theorem newSize_large (h0 : 2 ^ 24 ≤ n) (h1 : n < 2 ^ 31) :
    (toInt (n * 2 ^ 7)).tdiv 100 < n := by
  have hlt : toInt (n * 2 ^ 7) < 2 ^ 31 := by
    have := Int.bmod_lt (x := n * 2 ^ 7) (m := 2 ^ 32) (by decide)
    simp only [toInt]
    omega
  have hmod : toInt (n * 2 ^ 7) % (2 ^ 32 : Nat) = n * 2 ^ 7 % (2 ^ 32 : Nat) :=
    Int.bmod_emod
  rcases Int.lt_or_le (toInt (n * 2 ^ 7)) 0 with hneg | hpos
  · have hle : 0 ≤ (-toInt (n * 2 ^ 7)).tdiv 100 :=
      Int.tdiv_nonneg (by omega) (by decide)
    rw [Int.neg_tdiv] at hle
    omega
  · rw [Int.tdiv_eq_ediv_of_nonneg hpos]
    omega

/-- **`growBuf`** finds or makes room, or fails. -/
theorem growBuf_spec (h0 : 0 < n) (h1 : n < 2 ^ 31) :
    (growBuf rtMalloc s n m = none ∧ ¬ Fits rtMalloc m s n) ∨
      (Fits rtMalloc m s n ∧ ∃ size : Bool → Int,
        growBuf rtMalloc s n m = some { m with
          size := size
          data := Function.update m.data s (leftover rtMalloc m s n) } ∧
        ∀ s', s' ≠ s → size s' = m.size s') := by
  by_cases hle : n ≤ m.size s
  · have hng : ¬ n > m.size s := Int.not_lt.mpr hle
    refine Or.inr ⟨Or.inl hle, m.size, ?_, fun _ _ => rfl⟩
    rw [growBuf, if_neg hng, leftover, if_pos hle, Function.update_eq_self]
  · have hgt : n > m.size s := Int.not_le.mp hle
    rw [growBuf, if_pos hgt]
    by_cases hsmall : n < 2 ^ 24
    · rw [newSize_small h0 hsmall]
      dsimp only
      cases hdata : rtMalloc s (n * 2 ^ 7 / 100) with
      | none =>
        refine Or.inl ⟨rfl, ?_⟩
        rintro (h | ⟨-, h⟩)
        · exact hle h
        · rw [hdata] at h
          exact nomatch h
      | some data =>
        have hroom : ¬ n * 2 ^ 7 / 100 < n := by omega
        have hleft : leftover rtMalloc m s n = data := by
          rw [leftover, if_neg hle, hdata]
          rfl
        refine Or.inr ⟨Or.inr ⟨hsmall, ?_⟩, Function.update m.size s (n * 2 ^ 7 / 100), ?_,
          fun s' hs => Function.update_of_ne hs ..⟩
        · rw [hdata]
          rfl
        · rw [hleft]
          exact if_neg hroom
    · have hover := newSize_large (Int.not_lt.mp hsmall) h1
      refine Or.inl ⟨?_, ?_⟩
      · dsimp only
        cases hdata : rtMalloc s ((toInt (n * 2 ^ 7)).tdiv 100) with
        | none => rfl
        | some data => exact if_pos hover
      · rintro (h | ⟨h, -⟩)
        · exact hle h
        · exact hsmall h

/-- Whether there is something to read. -/
def readsIn (rsize : Int) (rbf : Nat) (args : Nat → Arg) : Bool :=
  rsize ≠ 0 ∧ args rbf ≠ .long 0

/-- The arguments after one of the two buffers has been put in place. -/
def argsIn (s : Bool) (rsize wsize : Int) (rbf wbf : Nat) (args : Nat → Arg) : Nat → Arg :=
  let args :=
    if readsIn rsize rbf args then Function.update args rbf (.msgBuf s) else args
  if wsize ≠ 0 then Function.update args wbf (.msgBuf s) else args

/-- The address that is kept. -/
def adrIn (s : Bool) (rsize wsize : Int) (rbf wbf : Nat) (args : Nat → Arg) :
    Arg :=
  let args :=
    if readsIn rsize rbf args then Function.update args rbf (.msgBuf s) else args
  if wsize ≠ 0 then args wbf else .long 0

/-- **`bounceIn`** -/
theorem bounceIn_spec (hr : 0 ≤ rsize) (hw : 0 ≤ wsize) (hr' : rsize < 2 ^ 31)
    (hw' : wsize < 2 ^ 31) (hbuf : rsize ≠ 0 → ∃ v, args rbf = .long v) :
    (bounceIn rtMalloc s rsize wsize rbf wbf m args = none ∧
      ¬ (0 < need rsize wsize → Fits rtMalloc m s (need rsize wsize))) ∨
      ((0 < need rsize wsize → Fits rtMalloc m s (need rsize wsize)) ∧
        ∃ m', bounceIn rtMalloc s rsize wsize rbf wbf m args =
            some (m', argsIn s rsize wsize rbf wbf args, adrIn s rsize wsize rbf wbf args) ∧
          m'.user = m.user ∧
          (∀ s', s' ≠ s → m'.size s' = m.size s' ∧ m'.data s' = m.data s') ∧
          (0 < need rsize wsize → ∀ i : Nat, m'.data s i =
            if readsIn rsize rbf args ∧ i < rsize then m.load (args rbf) i
            else leftover rtMalloc m s (need rsize wsize) i)) := by
  have hneed : need rsize wsize < 2 ^ 31 := by
    simp only [need]
    split
    · exact hr'
    · exact hw'
  by_cases hpos : 0 < need rsize wsize
  · have hbounce : bounceIn rtMalloc s rsize wsize rbf wbf m args =
        (growBuf rtMalloc s (need rsize wsize) m).bind fun m =>
          some (if readsIn rsize rbf args then
              { m with data := Function.update m.data s fun i =>
                if i < rsize then m.load (args rbf) i else m.data s i }
            else m, argsIn s rsize wsize rbf wbf args, adrIn s rsize wsize rbf wbf args) := by
      rw [bounceIn]
      refine (if_pos hpos).trans (congrArg _ ?_)
      funext m1
      simp only [argsIn, adrIn, readsIn]
      by_cases hz : wsize ≠ 0
      · rw [if_pos hz, if_pos hz, if_pos hz]
        rfl
      · rw [if_neg hz, if_neg hz, if_neg hz]
        rfl
    rcases @growBuf_spec rtMalloc m s _ hpos hneed with
      ⟨hg, hno⟩ | ⟨hfit, size, hg, hsize⟩
    · refine Or.inl ⟨?_, fun h => hno (h hpos)⟩
      rw [hbounce, hg]
      rfl
    · rw [hbounce, hg]
      refine Or.inr ⟨fun _ => hfit, _, rfl, ?_, fun s' hs => ?_, fun _ i => ?_⟩
      · split <;> rfl
      · have hother : Function.update m.data s
            (leftover rtMalloc m s (need rsize wsize)) s' = m.data s' :=
          Function.update_of_ne hs ..
        split
        · exact ⟨hsize s' hs, (Function.update_of_ne hs ..).trans hother⟩
        · exact ⟨hsize s' hs, hother⟩
      · have hleft : Function.update m.data s (leftover rtMalloc m s (need rsize wsize)) s =
              leftover rtMalloc m s (need rsize wsize) :=
          Function.update_self ..
        by_cases hread : readsIn rsize rbf args
        · rw [if_pos hread]
          dsimp only
          rw [Function.update_self, hleft]
          have hr0 : rsize ≠ 0 := (of_decide_eq_true hread).1
          obtain ⟨v, hv⟩ := hbuf hr0
          by_cases hi : i < rsize
          · rw [if_pos hi, if_pos ⟨hread, hi⟩, hv]
            rfl
          · rw [if_neg hi, if_neg fun h => hi h.2]
        · rw [if_neg hread, if_neg fun h => hread h.1]
          exact congrFun hleft i
  · have hr0 : rsize = 0 := by
      simp only [need] at hpos
      split at hpos <;> omega
    have hw0 : wsize = 0 := by
      simp only [need] at hpos
      split at hpos <;> omega
    refine Or.inr ⟨fun h => absurd h hpos, m, ?_, rfl, fun _ _ => ⟨rfl, rfl⟩,
      fun h => absurd h hpos⟩
    subst hr0 hw0
    rfl

/-- Another argument. -/
theorem argsIn_other {i : Nat} (hr : rsize ≠ 0 → i ≠ rbf)
    (hw : wsize ≠ 0 → i ≠ wbf) : argsIn s rsize wsize rbf wbf args i = args i := by
  have hread : (if readsIn rsize rbf args then
      Function.update args rbf (.msgBuf s) else args) i = args i := by
    by_cases h : readsIn rsize rbf args
    · rw [if_pos h]
      exact Function.update_of_ne (hr (of_decide_eq_true h).1) ..
    · rw [if_neg h]
  simp only [argsIn]
  by_cases hz : wsize ≠ 0
  · rw [if_pos hz, Function.update_of_ne (hw hz)]
    exact hread
  · rw [if_neg hz]
    exact hread

theorem argsIn_write (hw : wsize ≠ 0) : argsIn s rsize wsize rbf wbf args wbf = .msgBuf s := by
  simp only [argsIn]
  rw [if_pos hw, Function.update_self]

theorem argsIn_read (hr : rsize ≠ 0) (hw : wsize ≠ 0 → rbf ≠ wbf) :
    argsIn s rsize wsize rbf wbf args rbf =
      if args rbf = .long 0 then .long 0 else .msgBuf s := by
  have hread : (if readsIn rsize rbf args then
      Function.update args rbf (.msgBuf s) else args) rbf =
        if args rbf = .long 0 then .long 0 else .msgBuf s := by
    by_cases h0 : args rbf = .long 0
    · have hno : ¬ readsIn rsize rbf args :=
        fun h => (of_decide_eq_true h).2 h0
      rw [if_neg hno, if_pos h0, h0]
    · have hyes : readsIn rsize rbf args := decide_eq_true ⟨hr, h0⟩
      rw [if_pos hyes, if_neg h0, Function.update_self]
  simp only [argsIn]
  by_cases hz : wsize ≠ 0
  · rw [if_pos hz, Function.update_of_ne (hw hz)]
    exact hread
  · rw [if_neg hz]
    exact hread

theorem adrIn_eq (hw : wsize ≠ 0) (hr : rsize ≠ 0 → wbf ≠ rbf) :
    adrIn s rsize wsize rbf wbf args = args wbf := by
  simp only [adrIn]
  rw [if_pos hw]
  by_cases h : readsIn rsize rbf args
  · rw [if_pos h]
    exact Function.update_of_ne (hr (of_decide_eq_true h).1) ..
  · rw [if_neg h]

end Before

/-! ## The buffers of an entry -/

section Entry

variable {e : EntryType} {args : Nat → Int}

theorem sizeArg_lt (args : Nat → Int) (sz : Nat) : sizeArg args sz < 2 ^ 31 := by
  have hlt : toInt (args sz) < 2 ^ 31 := by
    have := Int.bmod_lt (x := args sz) (m := 2 ^ 32) (by decide)
    simp only [toInt]
    omega
  simp only [sizeArg]
  split
  · exact hlt
  · decide

/-- A buffer that is declared. -/
theorem map_desc {o : Option Desc} {bf : Nat} {n : Int}
    (h : o.map (fun d => (d.bf, sizeArg args d.sz)) = some (bf, n)) :
    bfOf o = bf ∧ sizeOf args o = n := by
  cases o with
  | none => exact nomatch h
  | some d =>
    cases h
    exact ⟨rfl, rfl⟩

theorem desc_map {o : Option Desc} (h : sizeOf args o ≠ 0) :
    o.map (fun d => (d.bf, sizeArg args d.sz)) = some (bfOf o, sizeOf args o) := by
  cases o with
  | none => exact absurd rfl h
  | some d => rfl

theorem sizeOf_range {o : Option Desc}
    (h : ∀ bf n, o.map (fun d => (d.bf, sizeArg args d.sz)) = some (bf, n) →
      0 < n) : 0 ≤ sizeOf args o ∧ sizeOf args o < 2 ^ 31 := by
  cases o with
  | none => exact ⟨Int.le_refl 0, (by decide : (0 : Int) < 2 ^ 31)⟩
  | some d => exact ⟨Int.le_of_lt (h _ _ rfl), sizeArg_lt args d.sz⟩

/-- Two buffers that are not the same argument. -/
theorem bfOf_ne_of {o o' : Option Desc}
    (h : ∀ d ∈ o, ∀ d' ∈ o', d.bf ≠ d'.bf) (ho : sizeOf args o ≠ 0)
    (ho' : sizeOf args o' ≠ 0) : bfOf o ≠ bfOf o' := by
  cases o with
  | none => exact absurd rfl ho
  | some d =>
    cases o' with
    | none => exact absurd rfl ho'
    | some d' => exact h d rfl d' rfl

/-- The arguments for the service: first those of `msg_buf[0]`. -/
def args1 (e : EntryType) (args : Nat → Int) : Nat → Arg :=
  argsIn false (sizeOf args (e.reads false)) (sizeOf args (e.writes false))
    (bfOf (e.reads false)) (bfOf (e.writes false)) fun i => .long (args i)

/-- The arguments after both buffers. -/
def args2 (e : EntryType) (args : Nat → Int) : Nat → Arg :=
  argsIn true (sizeOf args (e.reads true)) (sizeOf args (e.writes true))
    (bfOf (e.reads true)) (bfOf (e.writes true)) (args1 e args)

/-- The second buffers are as the user has passed them at first. -/
theorem args1_second (e : EntryType) (args : Nat → Int) : (sizeOf args (e.reads true) ≠ 0 →
      args1 e args (bfOf (e.reads true)) = .long (args (bfOf (e.reads true)))) ∧
    (sizeOf args (e.writes true) ≠ 0 → args1 e args (bfOf (e.writes true)) =
        .long (args (bfOf (e.writes true)))) := by
  constructor
  · intro h
    exact argsIn_other (fun h' => (bfOf_ne_of e.reads_apart h' h).symm)
      fun h' => bfOf_ne_of (e.apart true false) h h'
  · intro h
    exact argsIn_other (fun h' => (bfOf_ne_of (e.apart false true) h' h).symm)
      fun h' => (bfOf_ne_of e.writes_apart h' h).symm

/-- **The arguments that the service gets.** -/
theorem args2_write (e : EntryType) (args : Nat → Int) (s : Bool)
    (h : sizeOf args (e.writes s) ≠ 0) :
    args2 e args (bfOf (e.writes s)) = .msgBuf s := by
  cases s with
  | true => exact argsIn_write h
  | false =>
    have hother : args2 e args (bfOf (e.writes false)) =
        args1 e args (bfOf (e.writes false)) :=
      argsIn_other (fun h' => (bfOf_ne_of (e.apart true false) h' h).symm)
        fun h' => bfOf_ne_of e.writes_apart h h'
    exact hother.trans (argsIn_write h)

theorem args2_read (e : EntryType) (args : Nat → Int) (s : Bool)
    (h : sizeOf args (e.reads s) ≠ 0) :
    args2 e args (bfOf (e.reads s)) =
      if args (bfOf (e.reads s)) = 0 then .long 0 else .msgBuf s := by
  have hlong : ∀ v : Int, Arg.long v = .long 0 ↔ v = 0 :=
    fun v => ⟨fun h => Arg.long.inj h, fun h => h ▸ rfl⟩
  cases s with
  | true =>
    refine (argsIn_read h fun h' => bfOf_ne_of (e.apart true true) h h').trans ?_
    rw [(args1_second e args).1 h]
    exact if_congr (hlong _) rfl rfl
  | false =>
    have hother : args2 e args (bfOf (e.reads false)) = args1 e args (bfOf (e.reads false)) :=
      argsIn_other (fun h' => bfOf_ne_of e.reads_apart h h')
        fun h' => bfOf_ne_of (e.apart false true) h h'
    refine hother.trans ((argsIn_read h fun h' =>
      bfOf_ne_of (e.apart false false) h h').trans ?_)
    exact if_congr (hlong _) rfl rfl

/-- The addresses that are kept. -/
def adr1 (e : EntryType) (args : Nat → Int) : Arg :=
  adrIn false (sizeOf args (e.reads false)) (sizeOf args (e.writes false))
    (bfOf (e.reads false)) (bfOf (e.writes false)) fun i => .long (args i)

/-- The second buffer. -/
def adr2 (e : EntryType) (args : Nat → Int) : Arg :=
  adrIn true (sizeOf args (e.reads true)) (sizeOf args (e.writes true))
    (bfOf (e.reads true)) (bfOf (e.writes true)) (args1 e args)

theorem adr1_eq (e : EntryType) (args : Nat → Int) (h : sizeOf args (e.writes false) ≠ 0) :
    adr1 e args = .long (args (bfOf (e.writes false))) :=
  adrIn_eq h fun hr => (bfOf_ne_of (e.apart false false) hr h).symm

theorem adr2_eq (e : EntryType) (args : Nat → Int) (h : sizeOf args (e.writes true) ≠ 0) :
    adr2 e args = .long (args (bfOf (e.writes true))) := by
  have hkept : adr2 e args = args1 e args (bfOf (e.writes true)) :=
    adrIn_eq h fun hr => (bfOf_ne_of (e.apart true true) hr h).symm
  exact hkept.trans ((args1_second e args).2 h)

theorem args2_other (e : EntryType) (args : Nat → Int) {i : Nat}
    (hr : ∀ s, sizeOf args (e.reads s) ≠ 0 → i ≠ bfOf (e.reads s))
    (hw : ∀ s, sizeOf args (e.writes s) ≠ 0 → i ≠ bfOf (e.writes s)) :
    args2 e args i = .long (args i) :=
  (argsIn_other (hr true) (hw true)).trans (argsIn_other (hr false) (hw false))

end Entry

/-! ## The user's memory after the call -/

section After

variable {decl : Decl} {args : Nat → Int} {user u : Int → UInt8}
  {bytes : Bool → Nat → UInt8} {done : Bool → Prop} {m md : Mem} {w : Written}

/-- Some of the write buffers have been copied to the user. -/
structure Copied (decl : Decl) (args : Nat → Int) (user : Int → UInt8)
    (bytes : Bool → Nat → UInt8) (done : Bool → Prop) (u : Int → UInt8) :
    Prop where
  wrote : ∀ s bf n, done s → decl.writes s = some (bf, n) → args bf ≠ 0 →
    ∀ off : Nat, off < n → u (args bf + off) = bytes s off
  other : ∀ a, (∀ s bf n, done s → decl.writes s = some (bf, n) → args bf ≠ 0 →
    ∀ off : Nat, off < n → a ≠ args bf + off) → u a = user a

theorem copied_none (decl : Decl) (args : Nat → Int) (user : Int → UInt8)
    (bytes : Bool → Nat → UInt8) :
    Copied decl args user bytes (fun _ => False) user :=
  ⟨fun _ _ _ h => h.elim, fun _ _ => rfl⟩

/-- One more, or what is at `NULL`, which is not copied. -/
theorem copied_copyToUser (h : Apart decl args) {s : Bool} {bf : Nat} {n : Int}
    (hb : decl.writes s = some (bf, n)) (hdata : m.data = bytes)
    (hm : Copied decl args user bytes done m.user) :
    Copied decl args user bytes (fun s' => done s' ∨ s' = s)
      (copyToUser m (.long (args bf)) s n).user := by
  by_cases hne : args bf = 0
  · have huser : (copyToUser m (.long (args bf)) s n).user = m.user := by
      simp only [copyToUser]
      rw [if_pos hne]
    rw [huser]
    refine ⟨fun s' bf' n' hs' hb' hne' => ?_,
      fun a ha => hm.other a fun s' bf' n' hs' => ha s' bf' n' (Or.inl hs')⟩
    rcases hs' with hs' | rfl
    · exact hm.wrote s' bf' n' hs' hb' hne'
    · rw [hb] at hb'
      cases hb'
      exact absurd hne hne'
  have huser : ∀ a, (copyToUser m (.long (args bf)) s n).user a =
      if args bf ≤ a ∧ a < args bf + n then bytes s (a - args bf).toNat
      else m.user a := by
    intro a
    simp only [copyToUser]
    rw [if_neg hne, hdata]
  constructor
  · intro s' bf' n' hs' hb' hne' off hoff
    rw [huser]
    split
    · next hin =>
        have hlt : (args bf' + off - args bf).toNat < n := by omega
        have hat : args bf' + off =
            args bf + ((args bf' + off - args bf).toNat : Nat) := by omega
        obtain ⟨hs, hij⟩ := apart_place h hb' hb hne' hne hoff hlt hat
        rw [← hij, hs]
    · next hout =>
        rcases hs' with hs' | hs'
        · exact hm.wrote s' bf' n' hs' hb' hne' off hoff
        · subst hs'
          rw [hb] at hb'
          cases hb'
          exact absurd ⟨by omega, by omega⟩ hout
  · intro a ha
    rw [huser]
    split
    · next hin =>
        have hlt : (a - args bf).toNat < n := by omega
        exact absurd (by omega) (ha s bf n (Or.inr rfl) hb hne _ hlt)
    · exact hm.other a fun s' bf' n' hs' => ha s' bf' n' (Or.inl hs')

/-- The two memories. -/
theorem copied_eq_iff (hm : Copied decl args user bytes done u)
    (hall : ∀ s bf n, decl.writes s = some (bf, n) → done s)
    (hd : DirectAt decl args user md w) :
    u = md.user ↔ ∀ s bf n (off : Nat), decl.writes s = some (bf, n) →
      args bf ≠ 0 → off < n → bytes s off = (w s off).getD (user (args bf + off)) := by
  constructor
  · intro he s bf n off hb hne hoff
    rw [← hm.wrote s bf n (hall s bf n hb) hb hne off hoff, he]
    exact hd.wrote s bf n hb hne off hoff
  · intro he
    funext a
    by_cases ha : ∃ s bf n, ∃ off : Nat, decl.writes s = some (bf, n) ∧
        args bf ≠ 0 ∧ off < n ∧ a = args bf + off
    · obtain ⟨s, bf, n, off, hb, hne, hoff, rfl⟩ := ha
      rw [hm.wrote s bf n (hall s bf n hb) hb hne off hoff, hd.wrote s bf n hb hne off hoff]
      exact he s bf n off hb hne hoff
    · rw [hm.other a fun s bf n _ hb hne off hoff hat =>
          ha ⟨s, bf, n, off, hb, hne, hoff, hat⟩,
        hd.other a fun s bf n hb hne off hoff hat =>
          ha ⟨s, bf, n, off, hb, hne, hoff, hat⟩]

end After

/-! ## The call -/

/-- The size of the message in a buffer of the task. -/
def msgSize (e : EntryType) (args : Nat → Int) (s : Bool) : Int :=
  need (sizeOf args (e.reads s)) (sizeOf args (e.writes s))

/-- What a buffer of the task has when the service starts: the bytes of the
    user's read buffer, and what was there before. -/
def bounceByte (rtMalloc : Bool → Int → Option (Nat → UInt8)) (e : EntryType)
    (args : Nat → Int) (m : Mem) (s : Bool) (off : Nat) : UInt8 :=
  match inBuf (e.decl args).reads s off with
  | some bf =>
    if args bf = 0 then leftover rtMalloc m s (msgSize e args s) off
    else m.user (args bf + off)
  | none => leftover rtMalloc m s (msgSize e args s) off

/-- The two buffers before the call. -/
def prepare (rtMalloc : Bool → Int → Option (Nat → UInt8)) (e : EntryType)
    (args : Nat → Int) (m : Mem) : Option (Mem × (Nat → Arg) × Arg × Arg) := do
  let (m, funArgs, wmsgAdr) ← bounceIn rtMalloc false
    (sizeOf args (e.reads false)) (sizeOf args (e.writes false))
    (bfOf (e.reads false)) (bfOf (e.writes false)) m fun i => .long (args i)
  let (m, funArgs, w2msgAdr) ← bounceIn rtMalloc true
    (sizeOf args (e.reads true)) (sizeOf args (e.writes true))
    (bfOf (e.reads true)) (bfOf (e.writes true)) m funArgs
  some (m, funArgs, wmsgAdr, w2msgAdr)

section Call

variable {rtMalloc : Bool → Int → Option (Nat → UInt8)} {e : EntryType}
  {args : Nat → Int} {fn : (Nat → Arg) → Service} {m : Mem}

/-- The sizes of the buffers of an entry. -/
theorem apart_sizes (h : Apart (e.decl args) args) (s : Bool) :
    (0 ≤ sizeOf args (e.reads s) ∧ sizeOf args (e.reads s) < 2 ^ 31) ∧
      0 ≤ sizeOf args (e.writes s) ∧ sizeOf args (e.writes s) < 2 ^ 31 :=
  ⟨sizeOf_range fun bf n => h.reads_pos s bf n, sizeOf_range fun bf n => h.writes_pos s bf n⟩

/-- A byte of a message is in its buffer. -/
theorem msgSize_pos {s : Bool} {off : Nat} (h : off < sizeOf args (e.reads s) ∨
    off < sizeOf args (e.writes s)) : 0 < msgSize e args s := by
  simp only [msgSize, need]
  split <;> omega

theorem bounceByte_eq {m' : Mem} {s : Bool} {a : Nat → Arg} {i : Nat}
    (ha : sizeOf args (e.reads s) ≠ 0 → a (bfOf (e.reads s)) = .long (args (bfOf (e.reads s))))
    (huser : m'.user = m.user) :
    (if readsIn (sizeOf args (e.reads s)) (bfOf (e.reads s)) a ∧
        i < sizeOf args (e.reads s) then m'.load (a (bfOf (e.reads s))) i
      else leftover rtMalloc m s (msgSize e args s) i) =
      bounceByte rtMalloc e args m s i := by
  by_cases hi : (i : Int) < sizeOf args (e.reads s)
  · have hz : sizeOf args (e.reads s) ≠ 0 := by omega
    have hbuf : inBuf (e.decl args).reads s i = some (bfOf (e.reads s)) :=
      inBuf_of (desc_map hz) hi
    simp only [bounceByte, hbuf]
    have hlong := ha hz
    by_cases h0 : args (bfOf (e.reads s)) = 0
    · have hno : ¬ readsIn (sizeOf args (e.reads s)) (bfOf (e.reads s)) a := by
        intro h
        exact (of_decide_eq_true h).2 (hlong.trans (congrArg Arg.long h0))
      rw [if_neg fun h => hno h.1, if_pos h0]
    · have hyes : readsIn (sizeOf args (e.reads s)) (bfOf (e.reads s)) a := by
        refine decide_eq_true ⟨hz, fun h => h0 ?_⟩
        exact Arg.long.inj (hlong.symm.trans h)
      rw [if_pos ⟨hyes, hi⟩, if_neg h0, hlong, ← huser]
      exact if_neg h0
  · have hbuf : inBuf (e.decl args).reads s i = none := by
      cases hin : inBuf (e.decl args).reads s i with
      | none => rfl
      | some bf =>
        obtain ⟨n, hb, hlt⟩ := inBuf_some hin
        exact absurd ((map_desc hb).2 ▸ hlt) hi
    rw [if_neg fun h => hi h.2]
    simp only [bounceByte, hbuf]

/-- **`prepare`** -/
theorem prepare_spec (h : Apart (e.decl args) args) : (prepare rtMalloc e args m = none ∧
      ¬ ∀ s, 0 < msgSize e args s → Fits rtMalloc m s (msgSize e args s)) ∨
      ((∀ s, 0 < msgSize e args s → Fits rtMalloc m s (msgSize e args s)) ∧
        ∃ m', prepare rtMalloc e args m = some (m', args2 e args, adr1 e args, adr2 e args) ∧
          m'.user = m.user ∧
          ∀ s, 0 < msgSize e args s → ∀ i : Nat,
            m'.data s i = bounceByte rtMalloc e args m s i) := by
  obtain ⟨⟨hr0, hr1⟩, hw0, hw1⟩ := apart_sizes h false
  obtain ⟨⟨hr0', hr1'⟩, hw0', hw1'⟩ := apart_sizes h true
  rcases @bounceIn_spec rtMalloc m false _ _ (bfOf (e.reads false))
    (bfOf (e.writes false)) (fun i => .long (args i)) hr0 hw0 hr1 hw1
    (fun _ => ⟨args (bfOf (e.reads false)), rfl⟩) with
    ⟨hnone, hno⟩ | ⟨hfit, m1, hsome, huser, hother, hdata⟩
  · refine Or.inl ⟨?_, fun hall => hno (hall false)⟩
    rw [prepare, hnone]
    rfl
  have hsecond := (args1_second e args).1
  obtain ⟨hsize, hold⟩ := hother true (nofun)
  -- the first buffer is of no concern to the second one
  have hfits : Fits rtMalloc m1 true (msgSize e args true) ↔
      Fits rtMalloc m true (msgSize e args true) := by
    simp only [Fits]
    rw [hsize]
  have hleft : leftover rtMalloc m1 true (msgSize e args true) =
      leftover rtMalloc m true (msgSize e args true) := by
    simp only [leftover]
    rw [hsize, hold]
  rcases @bounceIn_spec rtMalloc m1 true _ _ (bfOf (e.reads true))
    (bfOf (e.writes true)) (args1 e args) hr0' hw0' hr1' hw1'
    (fun hz => ⟨_, hsecond hz⟩) with
    ⟨hnone, hno⟩ | ⟨hfit', m2, hsome', huser', hother', hdata'⟩
  · refine Or.inl ⟨?_, fun hall => hno fun hp => hfits.mpr (hall true hp)⟩
    rw [prepare, hsome]
    refine (Option.bind_some ..).trans ?_
    exact congrArg (fun o => Option.bind o _) hnone
  refine Or.inr ⟨fun s hp => ?_, m2, ?_, huser'.trans huser, fun s hp i => ?_⟩
  · cases s with
    | false => exact hfit hp
    | true => exact hfits.mp (hfit' hp)
  · rw [prepare, hsome]
    refine (Option.bind_some ..).trans ?_
    exact congrArg (fun o => Option.bind o _) hsome'
  · cases s with
    | false =>
      rw [(hother' false nofun).2, hdata hp i]
      exact bounceByte_eq (fun _ => rfl) rfl
    | true =>
      have hbyte := hdata' hp i
      rw [← bounceByte_eq hsecond huser, ← hleft]
      exact hbyte

end Call

/-- The write buffers go back to the user. -/
def copyBack (e : EntryType) (args : Nat → Int) (adr adr2 : Arg) (m : Mem) :
    Mem :=
  if sizeOf args (e.writes false) ≠ 0 then
    let m := copyToUser m adr false (sizeOf args (e.writes false))
    if sizeOf args (e.writes true) ≠ 0 then
      copyToUser m adr2 true (sizeOf args (e.writes true))
    else m
  else m

/-- A call, step by step. -/
theorem call_eq (rtMalloc : Bool → Int → Option (Nat → UInt8)) (e : EntryType)
    (args : Nat → Int) (fn : (Nat → Arg) → Service) (m : Mem) :
    lxrtFunCallWbuf rtMalloc e.encode args (e.decl args) fn m =
      (prepare rtMalloc e args m).bind fun x =>
        let r := run (e.decl args) x.2.1 x.1 (fn x.2.1)
        some (r.1, copyBack e args x.2.2.1 x.2.2.2 r.2) := by
  simp only [lxrtFunCallWbuf, prepare, decode_bufs, decode_sizes]
  cases bounceIn rtMalloc false (sizeOf args (e.reads false))
    (sizeOf args (e.writes false)) (bfOf (e.reads false))
    (bfOf (e.writes false)) m fun i => .long (args i) with
  | none => rfl
  | some x =>
    dsimp only [Option.bind_eq_bind, Option.bind_some]
    cases bounceIn rtMalloc true (sizeOf args (e.reads true))
      (sizeOf args (e.writes true)) (bfOf (e.reads true))
      (bfOf (e.writes true)) x.1 x.2.1 with
    | none => rfl
    | some y =>
      dsimp only [Option.bind_some]
      simp only [copyBack]
      split
      · split <;> rfl
      · rfl

/-- What is declared, and what is not. -/
theorem writes_of_sizeOf {e : EntryType} {args : Nat → Int} {s : Bool}
    (h : sizeOf args (e.writes s) ≠ 0) :
    (e.decl args).writes s = some (bfOf (e.writes s), sizeOf args (e.writes s)) :=
  desc_map h

theorem sizeOf_of_writes {e : EntryType} {args : Nat → Int}
    (h : Apart (e.decl args) args) {s : Bool} {bf : Nat} {n : Int}
    (hb : (e.decl args).writes s = some (bf, n)) :
    sizeOf args (e.writes s) ≠ 0 := by
  have hpos := h.writes_pos s bf n hb
  have hn := (map_desc hb).2
  omega

section Back

variable {e : EntryType} {args : Nat → Int} {fn : (Nat → Arg) → Service}

/-- **All write buffers** go back to the user. -/
theorem copied_copyBack (h : Apart (e.decl args) args) (m : Mem) : ∃ done, (∀ s bf n, (e.decl args).writes s = some (bf, n) → done s) ∧
      Copied (e.decl args) args m.user m.data done
        (copyBack e args (adr1 e args) (adr2 e args) m).user := by
  have hstart := copied_none (e.decl args) args m.user m.data
  by_cases h1 : sizeOf args (e.writes false) ≠ 0
  · have hb1 := writes_of_sizeOf h1
    have hone := copied_copyToUser h hb1 rfl hstart
    by_cases h2 : sizeOf args (e.writes true) ≠ 0
    · have hb2 := writes_of_sizeOf h2
      have hdata : (copyToUser m (.long (args (bfOf (e.writes false)))) false
          (sizeOf args (e.writes false))).data = m.data := by
        simp only [copyToUser]
        split
        · rfl
        · rfl
      have htwo := copied_copyToUser h hb2 hdata hone
      refine ⟨fun s' => (False ∨ s' = false) ∨ s' = true, fun s _ _ _ => ?_, ?_⟩
      · cases s with
        | false => exact Or.inl (Or.inr rfl)
        | true => exact Or.inr rfl
      · rw [copyBack, if_pos h1, adr1_eq e args h1, adr2_eq e args h2]
        dsimp only
        rw [if_pos h2]
        exact htwo
    · refine ⟨fun s' => False ∨ s' = false, fun s bf n hb => ?_, ?_⟩
      · cases s with
        | false => exact Or.inr rfl
        | true => exact absurd (sizeOf_of_writes h hb) h2
      · rw [copyBack, if_pos h1, adr1_eq e args h1]
        dsimp only
        rw [if_neg h2]
        exact hone
  · refine ⟨fun _ => False, fun s bf n hb => ?_, ?_⟩
    · -- there is no second buffer without a first one
      have hs := sizeOf_of_writes h hb
      cases s with
      | false => exact absurd hs h1
      | true =>
        have hsome : (e.writes true).isSome := by
          cases hw : e.writes true with
          | none => rw [hw] at hs; exact absurd rfl hs
          | some d => rfl
        have hfirst := e.writes_first hsome
        cases hw : e.writes false with
        | none => rw [hw] at hfirst; exact nomatch hfirst
        | some d =>
          have hb1 : (e.decl args).writes false = some (d.bf, sizeArg args d.sz) :=
            congrArg (Option.map fun d : Desc => (d.bf, sizeArg args d.sz)) hw
          exact absurd (sizeOf_of_writes h hb1) h1
    · rw [copyBack, if_neg h1]
      exact hstart

theorem withRoom_write {s : Bool} {bf : Nat} {n : Int}
    (hb : (e.decl args).writes s = some (bf, n)) :
    withRoom (e.decl args) args bf = .msgBuf false := by
  refine if_pos ?_
  cases s with
  | false => exact Or.inl (congrArg (Option.map (·.1)) hb)
  | true => exact Or.inr (congrArg (Option.map (·.1)) hb)

theorem withRoom_other {i : Nat} (hi : ∀ s n, (e.decl args).writes s ≠ some (i, n)) :
    withRoom (e.decl args) args i = .long (args i) := by
  refine if_neg ?_
  rintro (h | h)
  · obtain ⟨⟨bf, n⟩, hb, rfl⟩ := Option.map_eq_some_iff.mp h
    exact hi false n hb
  · obtain ⟨⟨bf, n⟩, hb, rfl⟩ := Option.map_eq_some_iff.mp h
    exact hi true n hb

/-- **The service cannot tell** what it gets from buffers that are no `NULL`. -/
theorem fn_args2 (h : Apart (e.decl args) args) (hfn : ByContent (e.decl args) fn) :
    fn (args2 e args) = fn (withRoom (e.decl args) args) := by
  refine hfn _ _ (fun i hr hw => ?_) fun i => ?_
  · rw [withRoom_other fun s n => hw s n]
    refine args2_other e args (fun s hz hi => ?_) fun s hz hi => ?_
    · exact hr s _ (hi ▸ desc_map hz)
    · exact hw s _ (hi ▸ desc_map hz)
  · by_cases hw : ∃ s n, (e.decl args).writes s = some (i, n)
    · obtain ⟨s, n, hb⟩ := hw
      have hz := sizeOf_of_writes h hb
      have hi : args2 e args i = .msgBuf s := by
        rw [← (map_desc hb).1]
        exact args2_write e args s hz
      rw [hi, withRoom_write hb]
      exact ⟨nofun, nofun⟩
    have hno : ∀ s n, (e.decl args).writes s ≠ some (i, n) :=
      fun s n hb => hw ⟨s, n, hb⟩
    rw [withRoom_other hno]
    by_cases hr : ∃ s, sizeOf args (e.reads s) ≠ 0 ∧ i = bfOf (e.reads s)
    · obtain ⟨s, hz, rfl⟩ := hr
      rw [args2_read e args s hz]
      constructor
      · intro h0
        split at h0
        · next hzero => rw [hzero]
        · exact nomatch h0
      · intro h0
        rw [if_pos (Arg.long.inj h0)]
    · rw [args2_other e args (fun s hz hi => hr ⟨s, hz, hi⟩)
        fun s hz hi => hno s _ (hi ▸ writes_of_sizeOf hz)]

theorem bounced_args2 (h : Apart (e.decl args) args) :
    Bounced (e.decl args) args (args2 e args) := by
  constructor
  · intro s bf n hb
    have hz := sizeOf_of_writes h hb
    rw [← (map_desc hb).1]
    exact args2_write e args s hz
  · intro s bf n hb
    have hpos := h.reads_pos s bf n hb
    obtain ⟨hbf, hn⟩ := map_desc hb
    rw [← hbf]
    exact args2_read e args s (by omega)

end Back

/-- **A SERVICE DOES THE SAME** on the buffers of the task, where no write buffer
    is at `NULL` and the read buffer of a number is at the place of the write
    buffer: it returns the same value, and each byte of a write buffer of the
    user ends as in a direct call, where it is left as the user has it. -/
structure DoesTheSame (rtMalloc : Bool → Int → Option (Nat → UInt8))
    (e : EntryType) (args : Nat → Int) (fn : (Nat → Arg) → Service) (m : Mem) :
    Prop where
  value : (shared (e.decl args) args (bounceByte rtMalloc e args m)
      (fun _ _ => none) (fn (withRoom (e.decl args) args))).1 =
    (effect (e.decl args) (userBytes (e.decl args) args m.user) (fun _ _ => none)
      (fn fun i => .long (args i))).1
  bytes : ∀ s bf n (off : Nat), (e.decl args).writes s = some (bf, n) →
    args bf ≠ 0 → off < n → ((shared (e.decl args) args (bounceByte rtMalloc e args m)
        (fun _ _ => none) (fn (withRoom (e.decl args) args))).2 s off).getD
          (bounceByte rtMalloc e args m s off) =
      ((effect (e.decl args) (userBytes (e.decl args) args m.user)
        (fun _ _ => none) (fn fun i => .long (args i))).2 s off).getD (m.user (args bf + off))

section Same

variable {rtMalloc : Bool → Int → Option (Nat → UInt8)} {e : EntryType}
  {args : Nat → Int} {fn : (Nat → Arg) → Service} {m : Mem}

/-- What the buffer of the task has at the place of a read buffer. -/
theorem bounceByte_read {s : Bool} {off bf : Nat}
    (h : inBuf (e.decl args).reads s off = some bf) (hne : args bf ≠ 0) :
    bounceByte rtMalloc e args m s off = m.user (args bf + off) := by
  simp only [bounceByte, h]
  exact if_neg hne

/-- **What is left of its write buffers** is all that matters of a service that
    reads first and has no write buffer at `NULL`. -/
theorem doesTheSame_iff (hfn : ByContent (e.decl args) fn)
    (hnull : ∀ s bf n, (e.decl args).writes s = some (bf, n) → args bf ≠ 0)
    (hfirst : ReadsFirst (e.decl args) (userBytes (e.decl args) args m.user)
      (fun _ _ => none) (fn fun i => .long (args i))) :
    DoesTheSame rtMalloc e args fn m ↔
      ∀ s bf n (off : Nat), (e.decl args).writes s = some (bf, n) → off < n →
        (effect (e.decl args) (userBytes (e.decl args) args m.user)
          (fun _ _ => none) (fn fun i => .long (args i))).2 s off = none →
        bounceByte rtMalloc e args m s off = m.user (args bf + off) := by
  have hfn' : fn (withRoom (e.decl args) args) = fn fun i => .long (args i) := by
    refine hfn _ _ (fun i _ hw => withRoom_other fun s n => hw s n) fun i => ?_
    by_cases hw : ∃ s n, (e.decl args).writes s = some (i, n)
    · obtain ⟨s, n, hb⟩ := hw
      rw [withRoom_write hb]
      exact ⟨nofun, fun h0 => absurd (Arg.long.inj h0) (hnull s i n hb)⟩
    · rw [withRoom_other fun s n hb => hw ⟨s, n, hb⟩]
  have heq := @shared_of_readsFirst (e.decl args) args m.user
    (bounceByte rtMalloc e args m) (fun s off bf hin hne => bounceByte_read hin hne)
    _ _ hfirst
  constructor
  · intro h s bf n off hb hoff hleft
    have hbyte := h.bytes s bf n off hb (hnull s bf n hb) hoff
    rw [hfn', heq, hleft] at hbyte
    exact hbyte
  · intro h
    refine ⟨by rw [hfn', heq], fun s bf n off hb hne hoff => ?_⟩
    rw [hfn', heq]
    cases hleft : (effect (e.decl args) (userBytes (e.decl args) args m.user)
        (fun _ _ => none) (fn fun i => .long (args i))).2 s off with
    | some b => rfl
    | none => exact h s bf n off hb hoff hleft

end Same

/-- `UR1(2, 4) | UW1(3, 5)` -/
def rpcxEntry : EntryType where
  rtSwitch := false
  reads := fun s => if s then none else some ⟨2, 4, by decide, by decide, by decide⟩
  writes := fun s => if s then none else some ⟨3, 5, by decide, by decide, by decide⟩
  reads_first := nofun
  writes_first := nofun
  writes_apart := nofun
  apart := by
    rintro (_ | _) (_ | _) d hd d' hd'
    · cases hd
      cases hd'
      exact (by decide : (2 : Nat) ≠ 3)
    · exact nomatch hd'
    · exact nomatch hd
    · exact nomatch hd
  reads_apart := nofun

/-- A message of one byte at 1000, and a byte for the answer. -/
def rpcxArgsTo (rmsg : Int) : Nat → Int
  | 2 => 1000
  | 3 => rmsg
  | 4 => 1
  | 5 => 1
  | _ => 0

/-- The arguments of a call with a reply. -/
def rpcxArgs : Nat → Int := rpcxArgsTo 2000

/-- The message to send. -/
def rpcxMem : Mem where
  user := fun a => if a = 1000 then 7 else 0
  data := fun _ _ => 0
  size := fun _ => 256

theorem rpcx_reads {s : Bool} {bf : Nat} {n rmsg : Int}
    (h : (rpcxEntry.decl (rpcxArgsTo rmsg)).reads s = some (bf, n)) :
    s = false ∧ bf = 2 ∧ n = 1 := by
  cases s with
  | true => exact nomatch h
  | false =>
    cases h
    exact ⟨rfl, rfl, rfl⟩

theorem rpcx_writes {s : Bool} {bf : Nat} {n rmsg : Int}
    (h : (rpcxEntry.decl (rpcxArgsTo rmsg)).writes s = some (bf, n)) :
    s = false ∧ bf = 3 ∧ n = 1 := by
  cases s with
  | true => exact nomatch h
  | false =>
    cases h
    exact ⟨rfl, rfl, rfl⟩

theorem rpcx_apart {rmsg : Int} (hne : rmsg ≠ 1000) :
    Apart (rpcxEntry.decl (rpcxArgsTo rmsg)) (rpcxArgsTo rmsg) := by
  constructor
  · intro s bf n h
    obtain ⟨-, -, rfl⟩ := rpcx_reads h
    decide
  · intro s bf n h
    obtain ⟨-, -, rfl⟩ := rpcx_writes h
    decide
  · intro s s' bf bf' n n' h h' _ _ i j hi hj
    obtain ⟨-, rfl, rfl⟩ := rpcx_reads h
    obtain ⟨-, rfl, rfl⟩ := rpcx_writes h'
    show (1000 : Int) + i ≠ rmsg + j
    omega
  · intro bf bf' n n' _ h'
    exact absurd (rpcx_writes h').1 (by decide)

theorem rpcx_fits (rmsg : Int) (s : Bool) : 0 < msgSize rpcxEntry (rpcxArgsTo rmsg) s →
      Fits (fun _ _ => none) rpcxMem s (msgSize rpcxEntry (rpcxArgsTo rmsg) s) := by
  intro _
  refine Or.inl ?_
  cases s with
  | false => exact show (1 : Int) ≤ 256 by decide
  | true => exact show (0 : Int) ≤ 256 by decide

end RtaiWbufTransparency
