import Rtai.DeletionSafety

/-! # What the calls on a deleted mailbox return

    A call that is no error says how many bytes it has not moved.  The `_if`
    forms return 0 without looking: they move everything, since nobody else
    takes from the room that they have found as long as they are inside the
    semaphore, be it deleted or not. -/

namespace RtaiDeletionReturns

open RtaiMailbox RtaiMailboxDelete RtaiRuns RtaiDeletionSafety
open RtaiKernel (Ret)

/-- The semaphore of its end is the task's. -/
def Inside {T : Type} (d : Door) : Stage T → Prop
  | .semWait => d = .granted
  | .wakeup _ _ _ => False
  | _ => True

/-- A value to return, with so many bytes that have not been moved. -/
def Tells {T : Type} (r : Ret T) (left : Int) : Prop :=
  ∀ n, r = .val n → n = left ∨ n = 0 ∧ left ≤ 0

/-- What a call has still to move, stage by stage: the `_if` forms find room for
    all of it. -/
def Settled {T M : Type} (x : Mbx T) (c : Call M) : Stage T → Prop
  | .semWait => waits c.mode = true
  | .loop => waits c.mode = true
  | .asleep _ => waits c.mode = true
  | .woken => waits c.mode = true
  | .copy => c.mode = .cond → c.msgSize ≤ x.fravbs c.side
  | .counters n _ => 0 ≤ n ∧ (c.mode = .cond → c.msgSize ≤ x.fravbs c.side)
  | .index _ => c.mode = .cond → c.msgSize ≤ x.fravbs c.side
  | .mbxSignal => c.mode = .cond → c.msgSize ≤ 0
  | .semSignal none => c.mode = .wp ∨ c.msgSize ≤ 0
  | .semSignal (some r) => Tells r c.msgSize
  | .wakeup _ _ r => Tells r c.msgSize
  | _ => False

section Returns

variable {T M : Type}

/-- The calls on a mailbox and what they have returned. -/
structure Tally (s : Sys T M) : Prop where
  settled : ∀ t c stage, s.st.pc t = .call c stage → Settled (s.st.mbx c.mbx) c stage
  holds : ∀ t c stage, s.st.pc t = .call c stage → Inside (s.door t) stage →
    (s.st.mbx c.mbx).sem c.side = some t
  accounted : ∀ x ∈ s.returns, x.Accounted

theorem tally_start (buffer : M → List UInt8) (priority : T → Int) :
    Tally (start buffer priority) where
  settled _ _ _ h := nomatch h
  holds _ _ _ h := nomatch h
  accounted _ h := nomatch h

/-- More room does no harm. -/
theorem Settled.mono {x x' : Mbx T} {c : Call M} {stage : Stage T}
    (h : Settled x c stage) (hle : x.fravbs c.side ≤ x'.fravbs c.side) :
    Settled x' c stage := by
  cases stage with
  | copy => exact fun hc => le_trans (h hc) hle
  | counters n bytes => exact ⟨h.1, fun hc => le_trans (h.2 hc) hle⟩
  | index n => exact fun hc => le_trans (h hc) hle
  | semSignal error => cases error <;> exact h
  | _ => exact h

/-- Outside the semaphore nothing hangs on the mailbox. -/
theorem Settled.outside {x x' : Mbx T} {c : Call M} {stage : Stage T} {d : Door}
    (h : Settled x c stage) (hout : ¬ Inside d stage) : Settled x' c stage := by
  cases stage with
  | semWait => exact h
  | wakeup ql reason r => exact h
  | _ => exact absurd trivial hout

/-- An error says nothing of bytes. -/
theorem tells_error {r : Ret T} {left : Int} (h : ∀ n, r ≠ .val n) :
    Tells r left :=
  fun n hn => absurd hn (h n)

/-- A call that finds room for what it is to find room for. -/
theorem settled_new (x : Mbx T) (side : Side) (mode : Mode) (m : M)
    (msg : Nat → UInt8) (n : Int) (h : mode = .cond → n ≤ x.fravbs side) :
    Settled x (newCall side mode m msg n) .copy := h

/-! ## A section of one task -/

/-- What a section of `t` leaves to the others: their places, their semaphores,
    and the room that they have found. -/
structure Leaves (s s' : Sys T M) (t : T) : Prop where
  pc : ∀ x ≠ t, s'.st.pc x = s.st.pc x
  door : ∀ x ≠ t, s'.door x = s.door x
  sem : ∀ m side, ∀ x ≠ t, (s.st.mbx m).sem side = some x → (s'.st.mbx m).sem side = some x
  room : ∀ m side, (s.st.mbx m).sem side ≠ some t →
    (s.st.mbx m).fravbs side ≤ (s'.st.mbx m).fravbs side

/-- **One section**: the others find what they have found. -/
theorem Tally.turn {s s' : Sys T M} {t : T} (h : Tally s) (hl : Leaves s s' t)
    (hself : ∀ c stage, s'.st.pc t = .call c stage → Settled (s'.st.mbx c.mbx) c stage ∧
        (Inside (s'.door t) stage → (s'.st.mbx c.mbx).sem c.side = some t))
    (hret : ∀ x ∈ s'.returns, x.Accounted) : Tally s' where
  settled u c stage hpc := by
    by_cases hu : u = t
    · subst hu
      exact (hself c stage hpc).1
    · rw [hl.pc u hu] at hpc
      have hs := h.settled u c stage hpc
      by_cases hin : Inside (s.door u) stage
      · have hsem := h.holds u c stage hpc hin
        refine hs.mono (hl.room c.mbx c.side ?_)
        rw [hsem]
        exact fun he => hu (Option.some.inj he)
      · exact hs.outside hin
  holds u c stage hpc hin := by
    by_cases hu : u = t
    · subst hu
      exact (hself c stage hpc).2 hin
    · rw [hl.pc u hu] at hpc
      rw [hl.door u hu] at hin
      exact hl.sem c.mbx c.side u hu (h.holds u c stage hpc hin)
  accounted := hret

/-- The semaphores and the counters are as before. -/
def Same (f f' : M → Mbx T) : Prop :=
  ∀ m, (f' m).sem = (f m).sem ∧ (f' m).fravbs = (f m).fravbs

theorem leaves_same {s s' : Sys T M} {t : T} (hsame : Same s.st.mbx s'.st.mbx)
    (hpc : ∀ x ≠ t, s'.st.pc x = s.st.pc x)
    (hdoor : ∀ x ≠ t, s'.door x = s.door x) : Leaves s s' t where
  pc := hpc
  door := hdoor
  sem m side x _ hx := by
    rw [(hsame m).1]
    exact hx
  room m side _ := by
    rw [(hsame m).2]

/-- `t` is no longer in a call, or in front of the semaphore as before. -/
theorem Tally.leaves {s s' : Sys T M} {t : T} (h : Tally s) (hsame : Same s.st.mbx s'.st.mbx)
    (hpc : ∀ x ≠ t, s'.st.pc x = s.st.pc x)
    (hdoor : ∀ x ≠ t, s'.door x = s.door x)
    (hself : s'.st.pc t = .idle ∨ s'.st.pc t = s.st.pc t ∧
      ∃ c, s.st.pc t = .call c .semWait ∧ s'.door t ≠ .granted)
    (hret : ∀ x ∈ s'.returns, x.Accounted) : Tally s' := by
  refine h.turn (t := t) (leaves_same hsame hpc hdoor) ?_ hret
  intro c stage hp
  rcases hself with hidle | ⟨hst, c', hc', hd⟩
  · rw [hidle] at hp
    cases hp
  · rw [hst, hc'] at hp
    cases hp
    exact ⟨h.settled t _ _ hc', fun hi => absurd hi hd⟩

/-- What is read and noted on the way is nobody's business. -/
theorem Tally.same {s s' : Sys T M} (h : Tally s) (hst : s'.st = s.st)
    (hdoor : s'.door = s.door) (hret : s'.returns = s.returns) : Tally s' where
  settled := by
    rw [hst]
    exact h.settled
  holds := by
    rw [hst, hdoor]
    exact h.holds
  accounted := by
    rw [hret]
    exact h.accounted

/-- The room of one end, when a pass of the other has counted. -/
theorem fravbs_counted (x : Mbx T) (side : Side) {n : Int} (hn : 0 ≤ n)
    (x' : Mbx T) (hx : x' = if side = .send then x.fill n else x.drain n) :
    x'.fravbs side = x.fravbs side - n ∧ ∀ side' ≠ side, x.fravbs side' ≤ x'.fravbs side' := by
  subst hx
  cases side with
  | send =>
    refine ⟨rfl, fun side' hne => ?_⟩
    cases side' with
    | send => exact absurd rfl hne
    | recv => exact le_add_of_nonneg_right hn
  | recv =>
    refine ⟨rfl, fun side' hne => ?_⟩
    cases side' with
    | recv => exact absurd rfl hne
    | send => exact le_add_of_nonneg_right hn

theorem same_setMbx [DecidableEq M] {s : St T M} {m : M} {x : Mbx T}
    (hsem : x.sem = (s.mbx m).sem) (hroom : x.fravbs = (s.mbx m).fravbs) :
    Same s.mbx (s.setMbx m x).mbx := by
  intro m'
  by_cases hm : m' = m
  · subst hm
    rw [setMbx_self]
    exact ⟨hsem, hroom⟩
  · rw [setMbx_of_ne hm]
    exact ⟨rfl, rfl⟩

/-- A semaphore of `t` is let go, or a task gets it that is none's. -/
theorem leaves_setSem [DecidableEq M] {s : Sys T M} {t : T} {m : M} {side : Side} {w : Option T}
    (hheld : ∀ x, (s.st.mbx m).sem side = some x → x = t) {s' : Sys T M}
    (hmbx : s'.st.mbx = (s.st.setMbx m ((s.st.mbx m).setSem side w)).mbx)
    (hpc : ∀ x ≠ t, s'.st.pc x = s.st.pc x)
    (hdoor : ∀ x ≠ t, s'.door x = s.door x) : Leaves s s' t where
  pc := hpc
  door := hdoor
  sem m' side' x hx hs := by
    rw [hmbx]
    by_cases hm : m' = m
    · subst hm
      rw [setMbx_self]
      by_cases hside : side' = side
      · subst hside
        exact absurd (hheld x hs) hx
      · exact (Function.update_of_ne hside _ _).trans hs
    · rw [setMbx_of_ne hm]
      exact hs
  room m' side' _ := by
    rw [hmbx]
    by_cases hm : m' = m
    · subst hm
      rw [setMbx_self]
      exact le_of_eq rfl
    · rw [setMbx_of_ne hm]

/-- `t` gets a semaphore that is nobody's, and `enters` with it. -/
theorem Tally.enters [DecidableEq M] {s s' : Sys T M} {t : T} {c : Call M} {stage : Stage T}
    (h : Tally s) (hfree : (s.st.mbx c.mbx).sem c.side = none)
    (hst : s'.st.mbx = (s.st.setMbx c.mbx ((s.st.mbx c.mbx).setSem c.side (some t))).mbx)
    (hpc : ∀ x ≠ t, s'.st.pc x = s.st.pc x) (hself : s'.st.pc t = .call c stage)
    (hdoor : ∀ x ≠ t, s'.door x = s.door x) (hret : s'.returns = s.returns)
    (hset : Settled (s.st.mbx c.mbx) c stage) : Tally s' := by
  refine h.turn (t := t) (leaves_setSem (fun x hx => ?_) hst hpc hdoor)
    (fun c' stage' hp => ?_) (hret ▸ h.accounted)
  · rw [hfree] at hx
    cases hx
  · rw [hself] at hp
    cases hp
    have hat : s'.st.mbx c.mbx = (s.st.mbx c.mbx).setSem c.side (some t) := by
      rw [hst, setMbx_self]
    rw [hat]
    exact ⟨hset.mono (le_of_eq rfl), fun _ => Function.update_self ..⟩

/-- What is behind `rt_sem_signal` returns what is left. -/
theorem afterRelease_tells {c : Call M} {error : Option (Ret T)}
    {x : Mbx T} (h : Settled x c (.semSignal error)) (hmode : c.mode ≠ .ovrwr) :
    (∃ ql reason v, afterRelease c error = .inl (.call c (.wakeup ql reason v)) ∧
      Tells v c.msgSize) ∨
    ∃ v, afterRelease c error = .inr v ∧ Tells v c.msgSize := by
  have hleft : Tells (.val c.msgSize : Ret T) c.msgSize :=
    fun n hn => Or.inl (Ret.val.inj hn).symm
  cases error with
  | some r => exact Or.inl ⟨_, _, _, rfl, h⟩
  | none =>
    have hzero (hw : c.mode ≠ .wp) : Tells (.val 0 : Ret T) c.msgSize := by
      intro n hn
      exact Or.inr ⟨(Ret.val.inj hn).symm, h.resolve_left hw⟩
    simp only [afterRelease]
    cases hm : c.mode with
    | wp =>
      dsimp only
      split
      · exact Or.inl ⟨_, _, _, rfl, hleft⟩
      · exact Or.inr ⟨_, rfl, hleft⟩
    | ovrwr => exact absurd hm hmode
    | wait => exact Or.inl ⟨_, _, _, rfl, hzero (by rw [hm]; rintro ⟨⟩)⟩
    | «until» time =>
      exact Or.inl ⟨_, _, _, rfl, hzero (by rw [hm]; rintro ⟨⟩)⟩
    | cond => exact Or.inl ⟨_, _, _, rfl, hzero (by rw [hm]; rintro ⟨⟩)⟩

variable [DecidableEq T]

/-- `t` goes from a stage to another. -/
theorem Tally.goes {s s' : Sys T M} {t : T} {c c' : Call M}
    {stage stage' : Stage T} (h : Tally s) (hpc : s.st.pc t = .call c stage)
    (hsame : Same s.st.mbx s'.st.mbx)
    (hpc' : s'.st.pc = Function.update s.st.pc t (.call c' stage'))
    (hdoor : s'.door = s.door) (hret : s'.returns = s.returns)
    (hmbx : c'.mbx = c.mbx) (hside : c'.side = c.side)
    (hin : Inside (s.door t) stage' → Inside (s.door t) stage)
    (hset : Settled (s.st.mbx c.mbx) c' stage') : Tally s' := by
  refine h.turn (t := t) (leaves_same hsame (fun x hx => ?_) fun x _ => congrFun hdoor x) ?_ ?_
  · rw [hpc', Function.update_of_ne hx]
  · intro c₁ stage₁ hp
    rw [hpc', Function.update_self] at hp
    cases hp
    rw [hmbx, hside, hdoor, (hsame c.mbx).1]
    refine ⟨hset.mono ?_, fun hi => h.holds t c stage hpc (hin hi)⟩
    rw [(hsame c.mbx).2]
  · rw [hret]
    exact h.accounted

/-- Who sleeps in `mbx_wait` is made ready. -/
theorem Tally.rouses {s s' : Sys T M} {u : T} (h : Tally s) (hsame : Same s.st.mbx s'.st.mbx)
    (hpc : s'.st.pc = Function.update s.st.pc u (s.st.pc u).readyMbx)
    (hdoor : s'.door = s.door) (hret : s'.returns = s.returns) : Tally s' := by
  cases hu : s.st.pc u with
  | call c stage =>
    cases stage with
    | asleep d =>
      rw [hu] at hpc
      exact h.goes hu hsame hpc hdoor hret rfl rfl (fun _ => trivial)
        (h.settled u c (.asleep d) hu)
    | _ =>
      rw [hu] at hpc
      exact h.goes hu hsame hpc hdoor hret rfl rfl id (h.settled u c _ hu)
  | _ =>
    rw [hu] at hpc
    refine h.turn (t := u) (leaves_same hsame (fun x hx => ?_)
      fun x _ => congrFun hdoor x) (fun c stage hp => ?_)
      (hret ▸ h.accounted)
    · rw [hpc, Function.update_of_ne hx]
    · rw [hpc, Function.update_self] at hp
      cases hp

/-- `t` returns. -/
theorem Tally.finishes {s : Sys T M} {t : T} {c : Call M} {v : Ret T}
    (h : Tally s) (hv : Tells v c.msgSize) : Tally (finish s t c v) := by
  refine h.leaves (fun _ => ⟨rfl, rfl⟩) (fun x hx => Function.update_of_ne hx _ _)
    (fun _ _ => rfl) (Or.inl (Function.update_self ..)) ?_
  intro x hx
  rcases List.mem_cons.mp hx with rfl | hx
  · exact ⟨fun h => (by cases h), hv⟩
  · exact h.accounted x hx

variable [DecidableEq M]

/-! ## The sections of a pass -/

theorem Tally.copy {s : Sys T M} {t : T} {c : Call M} (h : Tally s)
    (hpc : s.st.pc t = .call c .copy) (hmode : c.mode ≠ .ovrwr) :
    Tally { s with st := RtaiMailbox.copy s.st t c } := by
  have hroom := h.settled t c _ hpc
  have hover : ¬ (c.msgSize > 0 ∧ (s.st.mbx c.mbx).fravbs c.side ≠ 0) →
      Tally { s with st := s.st.goto t (.call c .mbxSignal) } := by
    intro hstop
    refine h.goes hpc (fun _ => ⟨rfl, rfl⟩) rfl rfl rfl rfl rfl id ?_
    intro hc
    have hle := hroom hc
    by_contra hpos
    exact hstop ⟨by omega, by omega⟩
  have hwild : Tally { s with st := { s.st with wild := true } } :=
    ⟨h.settled, h.holds, h.accounted⟩
  have hput : Tally { s with st := mbxputCopy s.st t c } := by
    simp only [mbxputCopy]
    split
    · exact hwild
    · rename_i buf hbuf
      refine h.goes hpc (same_setMbx rfl rfl) rfl rfl rfl rfl rfl id ⟨?_, hroom⟩
      simp only [memcpyTo, Option.ite_none_right_eq_some] at hbuf
      exact hbuf.1.2.1
  have hget : Tally { s with st := mbxgetCopy s.st t c } := by
    simp only [mbxgetCopy]
    split
    · exact hwild
    · rename_i bytes hbuf
      refine h.goes hpc (fun _ => ⟨rfl, rfl⟩) rfl rfl rfl rfl rfl id ⟨?_, hroom⟩
      simp only [memcpyFrom, Option.ite_none_right_eq_some] at hbuf
      exact hbuf.1.2.1
  simp only [RtaiMailbox.copy]
  split
  · exact absurd ‹c.mode = .ovrwr› hmode
  · rename_i hside _
    rw [hside] at hover
    split
    · exact hput
    · exact hover ‹_›
  · rename_i hside
    rw [hside] at hover
    split
    · exact hget
    · exact hover ‹_›

theorem Tally.counters {s : Sys T M} {t : T} {c : Call M} {n : Int}
    {bytes : List UInt8} (h : Tally s)
    (hpc : s.st.pc t = .call c (.counters n bytes)) :
    Tally { s with st := (RtaiMailbox.counters s.st t c n bytes).1 } := by
  obtain ⟨hn, hroom⟩ := h.settled t c _ hpc
  have hheld := h.holds t c _ hpc trivial
  obtain ⟨x', hx', hst⟩ : ∃ x' : Mbx T, x' = (if c.side = .send then (s.st.mbx c.mbx).fill n
        else (s.st.mbx c.mbx).drain n) ∧
      (RtaiMailbox.counters s.st t c n bytes).1 =
        (s.st.setMbx c.mbx x').goto t (.call (c.advance n) (.index n)) := by
    simp only [RtaiMailbox.counters]
    cases c.side with
    | send => exact ⟨_, rfl, rfl⟩
    | recv => exact ⟨_, rfl, rfl⟩
  obtain ⟨hown, hother⟩ := fravbs_counted (s.st.mbx c.mbx) c.side hn x' hx'
  have hsem : x'.sem = (s.st.mbx c.mbx).sem := by
    rw [hx']
    split
    · rfl
    · rfl
  have hat : (s.st.setMbx c.mbx x').mbx c.mbx = x' := setMbx_self ..
  rw [hst]
  refine h.turn (t := t) ⟨fun x hx => Function.update_of_ne hx _ _,
    fun _ _ => rfl, fun m side x _ hx => ?_, fun m side hfree => ?_⟩
    (fun c' stage hp => ?_) h.accounted
  · show ((s.st.setMbx c.mbx x').mbx m).sem side = some x
    by_cases hm : m = c.mbx
    · subst hm
      rw [hat, hsem]
      exact hx
    · rw [setMbx_of_ne hm]
      exact hx
  · show _ ≤ ((s.st.setMbx c.mbx x').mbx m).fravbs side
    by_cases hm : m = c.mbx
    · subst hm
      rw [hat]
      exact hother side fun he => hfree (he ▸ hheld)
    · rw [setMbx_of_ne hm]
  · rw [show ((s.st.setMbx c.mbx x').goto t (.call (c.advance n) (.index n))).pc t =
      .call (c.advance n) (.index n) from Function.update_self ..] at hp
    cases hp
    constructor
    · intro hc
      show c.msgSize - n ≤ ((s.st.setMbx c.mbx x').mbx c.mbx).fravbs c.side
      rw [hat, hown]
      exact Int.sub_le_sub_right (hroom hc) n
    · intro _
      show ((s.st.setMbx c.mbx x').mbx c.mbx).sem c.side = some t
      rw [hat, hsem]
      exact hheld

theorem Tally.index {s : Sys T M} {t : T} {c : Call M} {n : Int} (h : Tally s)
    (hpc : s.st.pc t = .call c (.index n)) (hmode : c.mode ≠ .ovrwr) :
    Tally { s with st := RtaiMailbox.index s.st t c n } := by
  have hsame : Same s.st.mbx (RtaiMailbox.index s.st t c n).mbx := by
    refine same_setMbx (s := s.st) ?_ ?_
    · cases c.side with
      | send => rfl
      | recv => rfl
    · cases c.side with
      | send => rfl
      | recv => rfl
  have hpc' : (RtaiMailbox.index s.st t c n).pc =
      Function.update s.st.pc t (.call c .copy) := by
    simp only [RtaiMailbox.index, if_neg hmode]
    rfl
  exact h.goes hpc hsame hpc' rfl rfl rfl rfl id (h.settled t c (.index n) hpc)

/-- `mbx_signal` of who sleeps in `mbx_wait`. -/
theorem Tally.signals {s : Sys T M} (h : Tally s) (m : M) :
    Tally { s with st := mbxSignal s.st m } := by
  simp only [mbxSignal]
  split
  · exact h
  · exact h.rouses (same_setMbx rfl rfl) rfl rfl rfl

theorem runSignal_fields (s : Sys T M) (t : T) (c : Call M) :
    (RtaiMailboxDelete.runSignal s t c).st =
        (mbxSignal s.st c.mbx).goto t (.call c c.mode.afterSignal) ∧
      (RtaiMailboxDelete.runSignal s t c).door = s.door ∧
      (RtaiMailboxDelete.runSignal s t c).returns = s.returns := by
  unfold RtaiMailboxDelete.runSignal Sys.access
  dsimp only
  split
  · exact ⟨rfl, rfl, rfl⟩
  · exact ⟨rfl, rfl, rfl⟩

theorem Tally.runSignal {s : Sys T M} {t : T} {c : Call M} (h : Tally s)
    (hi : DelInv s) (hpc : s.st.pc t = .call c .mbxSignal) :
    Tally (RtaiMailboxDelete.runSignal s t c) := by
  have hmode := (hi.stands t).mode c _ hpc
  have hleft := h.settled t c _ hpc
  have h₁ : Tally { s with st := mbxSignal s.st c.mbx } := h.signals c.mbx
  have hpc₁ : (mbxSignal s.st c.mbx).pc t = .call c .mbxSignal := by
    simp only [mbxSignal]
    cases hw : (s.st.mbx c.mbx).waitingTask with
    | none => exact hpc
    | some u =>
      have hut : t ≠ u := by
        rintro rfl
        exact hi.awake hpc trivial c.mbx hw
      exact (Function.update_of_ne hut _ _).trans hpc
  have h₂ : Tally { s with st :=
      (mbxSignal s.st c.mbx).goto t (.call c c.mode.afterSignal) } := by
    refine h₁.goes hpc₁ (fun _ => ⟨rfl, rfl⟩) rfl rfl rfl rfl rfl ?_ ?_
    · exact fun _ => trivial
    · cases hm : c.mode with
      | wait => exact (congrArg waits hm).trans rfl
      | «until» time => exact (congrArg waits hm).trans rfl
      | wp => exact Or.inl hm
      | cond => exact Or.inr (hleft hm)
      | ovrwr => exact absurd hm hmode
  obtain ⟨hst, hdoor, hret⟩ := runSignal_fields s t c
  exact h₂.same hst hdoor hret

/-- `mbx_wait` up to the reschedule. -/
theorem Tally.mbxWait {s : Sys T M} {t : T} {c : Call M} (h : Tally s)
    (hpc : s.st.pc t = .call c .loop) :
    Tally { s with st := RtaiMailbox.mbxWait s.st t c } := by
  have hwaits : waits c.mode = true := h.settled t c _ hpc
  simp only [RtaiMailbox.mbxWait]
  split
  · split
    · split
      · exact h.goes hpc (same_setMbx rfl rfl) rfl rfl rfl rfl rfl id hwaits
      · exact h.goes hpc (same_setMbx rfl rfl) rfl rfl rfl rfl rfl id (tells_error fun _ h => by cases h)
    · exact h.goes hpc (same_setMbx rfl rfl) rfl rfl rfl rfl rfl id hwaits
  · refine h.goes hpc (fun _ => ⟨rfl, rfl⟩) rfl rfl rfl rfl rfl id fun hc => ?_
    rw [hc] at hwaits
    cases hwaits

theorem Tally.runWoken {s : Sys T M} {t : T} {c : Call M} (h : Tally s)
    (hpc : s.st.pc t = .call c .woken) :
    Tally (RtaiMailboxDelete.runWoken s t c) := by
  have hwaits : waits c.mode = true := h.settled t c _ hpc
  have hfails (r : Ret T) (hr : ∀ n, r ≠ .val n) : Tally { s with
      st := (s.st.setMbx c.mbx
        { s.st.mbx c.mbx with waitingTask := none }).goto t
          (.call c (.semSignal (some r))) } :=
    h.goes hpc (same_setMbx rfl rfl) rfl rfl rfl rfl rfl id (tells_error hr)
  simp only [RtaiMailboxDelete.runWoken]
  split
  · exact (hfails .objrem fun _ h => by cases h).same rfl rfl rfl
  · have htail : Tally { s with st := mbxWaitTail s.st t c } := by
      simp only [mbxWaitTail]
      cases s.st.blockedOn t with
      | null =>
        refine h.goes hpc (fun _ => ⟨rfl, rfl⟩) rfl rfl rfl rfl rfl id fun hc => ?_
        rw [hc] at hwaits
        cases hwaits
      | ptr => exact hfails .timout fun _ h => by cases h
      | unblkd => exact hfails .unblkd fun _ h => by cases h
    split
    · exact htail
    · exact htail.same rfl rfl rfl

/-! ## `sndsem` and `rcvsem` -/

theorem Tally.runSemSignal {s : Sys T M} {t : T} {c : Call M}
    {error : Option (Ret T)} (h : Tally s) (hi : DelInv s)
    (hpc : s.st.pc t = .call c (.semSignal error)) :
    Tally (RtaiMailboxDelete.runSemSignal s t c error) := by
  have hheld := h.holds t c _ hpc trivial
  simp only [RtaiMailboxDelete.runSemSignal]
  rw [access_eq ((hi.stands t).live hpc fun h => by cases h)]
  generalize hs : (if s.semMagic c.mbx c.side = true then
    { s with st := s.st.setMbx c.mbx ((s.st.mbx c.mbx).setSem c.side none) }
    else s) = s₁
  -- released or not, `t` is behind the semaphore
  obtain ⟨hl, hret⟩ : Leaves s s₁ t ∧ s₁.returns = s.returns := by
    rw [← hs]
    split
    · refine ⟨@leaves_setSem T M _ s t c.mbx c.side none
        (fun x hx => ?_) _ rfl (fun _ _ => rfl) fun _ _ => rfl, rfl⟩
      exact Option.some.inj (hx.symm.trans hheld)
    · exact ⟨leaves_same (fun _ => ⟨rfl, rfl⟩) (fun _ _ => rfl) fun _ _ => rfl, rfl⟩
  rcases afterRelease_tells (h.settled t c _ hpc) ((hi.stands t).mode c _ hpc) with
    ⟨ql, reason, v, he, hv⟩ | ⟨v, he, hv⟩
  · rw [he]
    dsimp only
    refine h.turn (t := t) ⟨fun x hx => ?_, hl.door, hl.sem, hl.room⟩ ?_ (hret ▸ h.accounted)
    · exact (Function.update_of_ne hx _ _).trans (hl.pc x hx)
    · intro c' stage hp
      have hp' : Pc.call c (.wakeup ql reason v) = Pc.call c' stage :=
        (Function.update_self t _ s₁.st.pc).symm.trans hp
      cases hp'
      exact ⟨hv, fun hin => hin.elim⟩
  · rw [he]
    dsimp only
    refine h.turn (t := t) ⟨fun x hx => ?_, hl.door, hl.sem, hl.room⟩ ?_ ?_
    · exact (Function.update_of_ne hx _ _).trans (hl.pc x hx)
    · intro c' stage hp
      have hp' : Pc.idle = Pc.call c' stage :=
        (Function.update_self t _ s₁.st.pc).symm.trans hp
      cases hp'
    · intro x hx
      rcases List.mem_cons.mp hx with rfl | hx
      · exact ⟨fun h => (by cases h), hv⟩
      · exact h.accounted x (hret ▸ hx)

theorem Tally.runSem {s s' : Sys T M} {t : T} {c : Call M} (h : Tally s)
    (hpc : s.st.pc t = .call c .semWait)
    (hrun : RtaiMailboxDelete.runSem s t c = some s') : Tally s' := by
  have hwaits : waits c.mode = true := h.settled t c _ hpc
  have herror (r : Ret T) (hr : ∀ n, r ≠ .val n) : Tells (semError c r) c.msgSize := by
    rcases semError_cases c r with he | he
    · rw [he]
      exact tells_error hr
    · rw [he]
      exact fun n hn => Or.inl (Ret.val.inj hn).symm
  have hstays (s₁ : Sys T M) (hst : s₁.st = s.st)
      (hdoor : ∀ x ≠ t, s₁.door x = s.door x) (hd : s₁.door t ≠ .granted)
      (hret : s₁.returns = s.returns) : Tally s₁ := by
    refine h.leaves (fun m => by rw [hst]; exact ⟨rfl, rfl⟩) (fun x _ => by rw [hst]) hdoor
      (Or.inr ⟨by rw [hst], c, hpc, hd⟩) (hret ▸ h.accounted)
  simp only [RtaiMailboxDelete.runSem] at hrun
  cases hd : s.door t with
  | calling =>
    simp only [hd] at hrun
    split at hrun
    · rw [← Option.some.inj hrun]
      refine hstays _ rfl (fun x hx => Function.update_of_ne hx _ _) ?_ rfl
      rw [show ((s.access c.mbx).enterDoor t .checked).door t = .checked from
        Function.update_self ..]
      rintro ⟨⟩
    · rw [← Option.some.inj hrun]
      exact (h.same rfl rfl rfl : Tally (s.access c.mbx)).finishes (herror .objinv fun _ h => by cases h)
  | checked =>
    simp only [hd] at hrun
    split at hrun
    · rw [← Option.some.inj hrun]
      exact h.enters ‹_› rfl (fun x hx => Function.update_of_ne hx _ _)
        (Function.update_self ..) (fun _ _ => rfl) rfl hwaits
    · rw [← Option.some.inj hrun]
      refine hstays _ rfl (fun x hx => Function.update_of_ne hx _ _) ?_ rfl
      rw [show (((s.access c.mbx).enterDoor t .queued).setTold t false).door t =
        .queued from Function.update_self ..]
      rintro ⟨⟩
  | queued =>
    simp only [hd] at hrun
    split at hrun
    · rw [← Option.some.inj hrun]
      exact h.finishes (herror .objrem fun _ h => by cases h)
    · cases hrun
  | ended unblocked =>
    simp only [hd] at hrun
    rw [← Option.some.inj hrun]
    refine (h.same rfl rfl rfl : Tally (s.access c.mbx)).finishes (herror _ ?_)
    split
    · exact fun _ h => by cases h
    · exact fun _ h => by cases h
  | granted =>
    simp only [hd] at hrun
    rw [← Option.some.inj hrun]
    refine (h.same rfl rfl rfl : Tally (s.access c.mbx)).goes hpc
      (fun _ => ⟨rfl, rfl⟩) rfl rfl rfl rfl rfl (fun _ => ?_) hwaits
    exact hd

theorem Tally.grant {s s' : Sys T M} {t : T} {c : Call M} (h : Tally s)
    (hpc : s.st.pc t = .call c .semWait)
    (hrun : RtaiMailboxDelete.grant s t c = some s') : Tally s' := by
  have hwaits : waits c.mode = true := h.settled t c _ hpc
  simp only [RtaiMailboxDelete.grant] at hrun
  split at hrun
  · rename_i hfree
    have hin (st' : St T M) (hst : st' = s.st.setMbx c.mbx
        ((s.st.mbx c.mbx).setSem c.side (some t))) :
        Tally (({ s with st := st' }.enterDoor t .granted).setTold t false) := by
      subst hst
      exact h.enters hfree.2 rfl (fun _ _ => rfl) hpc
        (fun x hx => Function.update_of_ne hx _ _) rfl hwaits
    split at hrun
    · rw [← Option.some.inj hrun]
      exact hin _ rfl
    · rw [← Option.some.inj hrun]
      exact hin _ rfl
    · cases hrun
  · cases hrun

/-- A section of a task in a call. -/
theorem Tally.runSection {s s' : Sys T M} {t : T} {c : Call M} {stage : Stage T}
    (h : Tally s) (hi : DelInv s) (hpc : s.st.pc t = .call c stage)
    (hrun : RtaiMailboxDelete.runSection s t c stage = some s') : Tally s' := by
  have hmode := (hi.stands t).mode c stage hpc
  cases stage with
  | semWait => exact h.runSem hpc hrun
  | loop =>
    simp only [RtaiMailboxDelete.runSection] at hrun
    split at hrun
    · rw [← Option.some.inj hrun]
      exact (h.mbxWait hpc).same rfl rfl rfl
    · rename_i hzero
      rw [← Option.some.inj hrun]
      refine h.goes hpc (fun _ => ⟨rfl, rfl⟩) rfl rfl rfl rfl rfl id (Or.inr ?_)
      exact le_of_eq (not_not.mp hzero)
  | asleep d => cases hrun
  | woken =>
    rw [← Option.some.inj hrun]
    exact h.runWoken hpc
  | copy =>
    simp only [RtaiMailboxDelete.runSection] at hrun
    rw [← Option.some.inj hrun]
    have hcopy := h.copy hpc hmode
    split
    · exact hcopy.same rfl rfl rfl
    · exact hcopy.same rfl rfl rfl
  | counters n bytes =>
    simp only [RtaiMailboxDelete.runSection] at hrun
    rw [← Option.some.inj hrun]
    exact (h.counters hpc).same rfl rfl rfl
  | index n =>
    simp only [RtaiMailboxDelete.runSection] at hrun
    rw [← Option.some.inj hrun]
    exact (h.index hpc hmode).same rfl rfl rfl
  | drop => cases hrun
  | dropCounters n => cases hrun
  | dropIndex n => cases hrun
  | mbxSignal =>
    rw [← Option.some.inj hrun]
    exact h.runSignal hi hpc
  | semSignal error =>
    rw [← Option.some.inj hrun]
    exact h.runSemSignal hi hpc
  | wakeup ql reason retval =>
    have hnone : wakeupPoller (s.access c.mbx).st c.mbx ql reason = none :=
      hi.wakeupPoller c.mbx ql reason
    simp only [RtaiMailboxDelete.runSection, hnone] at hrun
    rw [← Option.some.inj hrun]
    exact (h.same rfl rfl rfl : Tally (s.access c.mbx)).finishes (h.settled t c _ hpc)

/-! ## The beginning of a call -/

/-- The first section of a call: it goes to the semaphore, or finds it free and
    room enough, or returns what it has not moved. -/
theorem request_settles (s : St T M) (t : T) {r : Request M} {m : M}
    (hm : mailbox r = some m) :
    ∃ c : Call M, c.mbx = m ∧ ((waits c.mode = true ∧
          request s t r = (s.goto t (.call c .semWait), .silent)) ∨
        ((s.mbx m).sem c.side = none ∧ Settled (s.mbx m) c .copy ∧
          request s t r = (enter s t c .copy, .silent)) ∨
        request s t r = (s, .returned t (.val (msgSize r)))) := by
  have htry (c : Call M) (able : Bool) (hc : c.mbx = m)
      (hsize : c.msgSize = msgSize r) (hr : request s t r = tryCall s t c able)
      (hroom : able = true → Settled (s.mbx m) c .copy) :
      ∃ c : Call M, c.mbx = m ∧ ((waits c.mode = true ∧
            request s t r = (s.goto t (.call c .semWait), .silent)) ∨
          ((s.mbx m).sem c.side = none ∧ Settled (s.mbx m) c .copy ∧
            request s t r = (enter s t c .copy, .silent)) ∨
          request s t r = (s, .returned t (.val (msgSize r)))) := by
    refine ⟨c, hc, Or.inr ?_⟩
    rw [hr]
    simp only [tryCall]
    split
    · rename_i hfree
      exact Or.inl ⟨hc ▸ hfree.1, hroom hfree.2, rfl⟩
    · exact Or.inr (by rw [hsize])
  cases r with
  | mbxSend m' msg n =>
    exact ⟨newCall .send .wait m' msg n, Option.some.inj hm, Or.inl ⟨rfl, rfl⟩⟩
  | mbxSendUntil m' msg n time =>
    exact ⟨newCall .send (.until time) m' msg n, Option.some.inj hm, Or.inl ⟨rfl, rfl⟩⟩
  | mbxReceive m' n =>
    exact ⟨newCall .recv .wait m' (fun _ => 0) n, Option.some.inj hm, Or.inl ⟨rfl, rfl⟩⟩
  | mbxReceiveUntil m' n time =>
    exact ⟨newCall .recv (.until time) m' (fun _ => 0) n, Option.some.inj hm,
      Or.inl ⟨rfl, rfl⟩⟩
  | mbxSendWp m' msg n =>
    exact htry (newCall .send .wp m' msg n) _ (Option.some.inj hm) rfl rfl
      fun _ => settled_new _ _ _ _ _ _ fun h => by cases h
  | mbxReceiveWp m' n =>
    exact htry (newCall .recv .wp m' (fun _ => 0) n) _ (Option.some.inj hm) rfl rfl
      fun _ => settled_new _ _ _ _ _ _ fun h => by cases h
  | mbxSendIf m' msg n =>
    obtain rfl : m' = m := Option.some.inj hm
    exact htry (newCall .send .cond m' msg n) _ rfl rfl rfl
      fun ha => settled_new _ _ _ _ _ _ fun _ => of_decide_eq_true ha
  | mbxReceiveIf m' n =>
    obtain rfl : m' = m := Option.some.inj hm
    exact htry (newCall .recv .cond m' (fun _ => 0) n) _ rfl rfl rfl
      fun ha => settled_new _ _ _ _ _ _ fun _ => of_decide_eq_true ha
  | mbxOvrwrSend m' msg n => cases hm
  | poll pds timeout => cases hm

theorem Tally.runBegun {s : Sys T M} {t : T} {r : Request M} {m : M}
    (h : Tally s) (hidle : s.st.pc t = .idle) (hm : mailbox r = some m) :
    Tally (RtaiMailboxDelete.runBegun s t r) := by
  obtain ⟨c, rfl, ⟨hw, hr⟩ | ⟨hfree, hset, hr⟩ | hr⟩ := request_settles s.st t hm
  · simp only [RtaiMailboxDelete.runBegun, hr]
    refine h.turn (t := t) (leaves_same (fun _ => ⟨rfl, rfl⟩)
      (fun x hx => Function.update_of_ne hx _ _)
      fun x hx => Function.update_of_ne hx _ _) (fun c' stage hp => ?_) h.accounted
    have hp' : Pc.call c .semWait = Pc.call c' stage :=
      (Function.update_self t _ s.st.pc).symm.trans hp
    cases hp'
    refine ⟨hw, fun hin => ?_⟩
    have hd : Door.calling = .granted :=
      (Function.update_self t _ s.door).symm.trans hin
    cases hd
  · simp only [RtaiMailboxDelete.runBegun, hr]
    exact h.enters hfree rfl (fun x hx => Function.update_of_ne hx _ _)
      (Function.update_self ..) (fun x hx => Function.update_of_ne hx _ _) rfl hset
  · simp only [RtaiMailboxDelete.runBegun, hr]
    refine h.leaves (fun _ => ⟨rfl, rfl⟩) (fun _ _ => rfl) (fun _ _ => rfl) (Or.inl hidle) ?_
    intro x hx
    rcases List.mem_cons.mp hx with rfl | hx
    · exact ⟨fun h => (by cases h), fun n hn => Or.inl (Ret.val.inj hn).symm⟩
    · exact h.accounted x hx

/-! ## One step -/

/-- A section of the deletion wakes at most one task of `mbx_wait`. -/
theorem Tally.goDelete {s s' : Sys T M} {m : M} (h : Tally s) (hi : DelInv s)
    (hrun : RtaiMailboxDelete.goDelete s m = some s') : Tally s' := by
  simp only [RtaiMailboxDelete.goDelete] at hrun
  cases hd : s.deletion m with
  | none =>
    simp only [hd] at hrun
    cases hrun
  | pollers side =>
    simp only [hd, hi.wakeupPoller m side .objrem] at hrun
    rw [← Option.some.inj hrun]
    exact h.same rfl rfl rfl
  | sem side =>
    simp only [hd] at hrun
    rw [← Option.some.inj hrun]
    exact h.same rfl rfl rfl
  | waiter =>
    simp only [hd] at hrun
    split at hrun
    · rw [← Option.some.inj hrun]
      exact h.same rfl rfl rfl
    · rw [← Option.some.inj hrun]
      exact h.rouses (same_setMbx rfl rfl) rfl rfl rfl
  | freeBuf =>
    simp only [hd] at hrun
    rw [← Option.some.inj hrun]
    exact h.same rfl rfl rfl
  | freeMbx =>
    simp only [hd] at hrun
    rw [← Option.some.inj hrun]
    exact h.same rfl rfl rfl
  | done =>
    simp only [hd] at hrun
    cases hrun

/-- **One step** keeps the accounts. -/
theorem Tally.step {s s' : Sys T M} {a : DelAction T M} {o : Unit} (h : Tally s)
    (hi : DelInv s) (hstep : deletionStep s a = some (s', o)) : Tally s' := by
  simp only [deletionStep] at hstep
  split at hstep
  · cases hstep
  obtain ⟨s₁, hrun, he⟩ := Option.map_eq_some_iff.mp hstep
  cases he
  cases a with
  | call t r =>
    dsimp only at hrun
    split at hrun
    · split at hrun
      · rw [← Option.some.inj hrun]
        exact h.same rfl rfl rfl
      · rw [← Option.some.inj hrun]
        refine ⟨h.settled, h.holds, fun x hx => ?_⟩
        rcases List.mem_cons.mp hx with rfl | hx
        · exact ⟨fun _ => rfl, fun _ h => by cases h⟩
        · exact h.accounted x hx
    · cases hrun
  | run t =>
    dsimp only at hrun
    cases hb : s.begun t with
    | some r =>
      rw [hb] at hrun
      dsimp only at hrun
      cases hm : mailbox r with
      | none =>
        rw [hm] at hrun
        cases hrun
      | some m =>
        rw [hm] at hrun
        rw [← Option.some.inj hrun]
        have hidle := ((hi.stands t).begun r hb).1
        split
        · exact h.runBegun hidle hm
        · exact (h.same rfl rfl rfl : Tally (s.access m)).runBegun hidle hm
    | none =>
      rw [hb] at hrun
      cases hpc : s.st.pc t with
      | idle =>
        rw [hpc] at hrun
        cases hrun
      | poll p stage => exact absurd hpc ((hi.stands t).poll p stage)
      | call c stage =>
        rw [hpc] at hrun
        exact h.runSection hi hpc hrun
  | giveUp t unblocked =>
    dsimp only at hrun
    split at hrun
    · rename_i c hpc hdoor
      split at hrun
      · cases hrun
      · rw [← Option.some.inj hrun]
        refine h.leaves (t := t) (fun _ => ⟨rfl, rfl⟩) (fun _ _ => rfl)
          (fun x hx => Function.update_of_ne hx _ _)
          (Or.inr ⟨rfl, c, hpc, fun hd => ?_⟩) h.accounted
        have hd' : Door.ended unblocked = .granted :=
          (Function.update_self t _ s.door).symm.trans hd
        cases hd'
    · cases hrun
  | grant t =>
    dsimp only at hrun
    split at hrun
    · exact h.grant ‹_› hrun
    · cases hrun
  | expire t =>
    dsimp only at hrun
    split at hrun
    · rw [← Option.some.inj hrun]
      exact h.rouses (fun _ => ⟨rfl, rfl⟩) rfl rfl rfl
    · cases hrun
  | unblock t =>
    dsimp only at hrun
    split at hrun
    · rw [← Option.some.inj hrun]
      exact h.rouses (fun _ => ⟨rfl, rfl⟩) rfl rfl rfl
    · cases hrun
  | tick time timeH =>
    rw [← Option.some.inj hrun]
    exact ⟨h.settled, h.holds, h.accounted⟩
  | delete m named =>
    dsimp only at hrun
    split at hrun
    · rw [← Option.some.inj hrun]
      exact h.same rfl rfl rfl
    · cases hrun
  | goDelete m => exact h.goDelete hi hrun

end Returns

/-! ## The deletion of a mailbox -/

instance {T M : Type} [DecidableEq T] [DecidableEq M] (s : Sys T M) (m : M) (t : T)
    (c : Call M) (stage : Stage T) : Decidable (Past s m t c stage) := by
  cases stage with
  | semWait => cases h : s.door t <;> simp only [Past, h] <;> infer_instance
  | counters n bytes => unfold Past Rest; infer_instance
  | _ => unfold Past; try unfold Rest; infer_instance

instance {T M : Type} [DecidableEq T] [DecidableEq M] (s : Sys T M) (m : M)
    (t : T) : Decidable (Finished s m t) := by
  cases h : s.st.pc t <;> simp only [Finished, h] <;> infer_instance

/-- The guard of a run that stops before a mailbox is freed. -/
def KeepsMbx (s : Sys Unit Unit) : DelAction Unit Unit → Prop
  | .call _ _ => s.mbxFreed () = false
  | .goDelete m => s.deletion m ≠ .freeMbx ∧ (s.deletion m = .freeBuf → Finished s m ())
  | _ => True

instance (s : Sys Unit Unit) (a : DelAction Unit Unit) : Decidable (KeepsMbx s a) := by
  cases a <;> simp only [KeepsMbx] <;> infer_instance

theorem KeepsMbx.heeds {s : Sys Unit Unit} {a : DelAction Unit Unit}
    (h : KeepsMbx s a) : Heeds s a := by
  cases a with
  | call t r => exact fun _ _ => h
  | goDelete m =>
    obtain ⟨hmbx, hbuf⟩ := h
    simp only [Heeds]
    split
    · exact fun t => hbuf ‹_›
    · exact absurd ‹_› hmbx
    · trivial
  | _ => trivial

/-- A receiver sleeps, is told, and returns after the buffer is freed.  It calls
    again. -/
def receivedRun : List (DelAction Unit Unit) :=
  DelAction.call () (.mbxReceive () 1) :: List.replicate 4 (DelAction.run ()) ++
    DelAction.delete () false :: List.replicate 7 (DelAction.goDelete ()) ++
    List.replicate 3 (DelAction.run ()) ++ [DelAction.call () (.mbxReceive () 1)]

/-- A sender is about to copy when the mailbox is deleted. -/
def sentRun : List (DelAction Unit Unit) :=
  DelAction.call () (.mbxSend () (fun _ => 7) 1) :: List.replicate 4 (DelAction.run ()) ++
    DelAction.delete () false :: List.replicate 6 (DelAction.goDelete ()) ++
    [DelAction.run ()]

end RtaiDeletionReturns
