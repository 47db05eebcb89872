import Rtai.Mailbox
import Rtai.Runs

/-! # The pollers of a mailbox

    A task that polls a mailbox to receive is woken by `rt_wakeup_pollers`,
    which a send calls once, at its end.  The bytes of a send that goes to
    sleep before its end, and those of `_rt_mbx_ovrwr_send`, are announced by
    nobody, and a poller links itself to a mailbox some time after it has found
    it empty. -/

namespace RtaiPollers

open RtaiMailbox RtaiRuns
open RtaiKernel (Ret)

variable {T M : Type} [decT : DecidableEq T] [decM : DecidableEq M]

/-- A call that ends with a wake up of the receive-pollers, unless it fails. -/
def announces (c : Call M) : Bool :=
  match c.side, c.mode with
  | .recv, _ => false
  | .send, .ovrwr => false
  | .send, .wp => c.msgSize < c.size
  | .send, _ => true

/-- A call that wakes the receive-pollers of a mailbox before it sleeps or
    ends. -/
def willWake (m : M) : Pc T M → Bool
  | .call _ .semWait => false
  | .call _ (.asleep _) => false
  | .call c (.wakeup ql _ _) => c.mbx = m ∧ ql = .recv
  | .call c (.semSignal (some _)) => c.mbx = m
  | .call c _ => c.mbx = m ∧ announces c
  | _ => false

/-- **BYTES ARE ANNOUNCED**: some call will wake the receive-pollers that are
    linked to a mailbox with bytes in it. -/
def Announced (s : St T M) (m : M) : Prop :=
  0 < (s.mbx m).avbs → (s.mbx m).pollq .recv ≠ [] → ∃ t, willWake m (s.pc t) = true

/-- The places of its list that a poller which nobody has signalled is linked
    at. -/
def mustLink : PollStage T → Nat → Bool
  | .test k polled, i => polled = 0 ∧ i < k
  | .link k polled, i => polled = 0 ∧ i < k
  | .await, _ => true
  | .asleep _, _ => true
  | _, _ => false

/-- In `mbx_wait`, at the reschedule or behind it. -/
def waitsAt (m : M) : Pc T M → Bool
  | .call c (.asleep _) => c.mbx = m
  | .call c .woken => c.mbx = m
  | _ => false

/-- What a pass has copied, and what is left of a message. -/
def Sized : Pc T M → Prop
  | .call c (.counters n _) => (c.mode = .wp → c.msgSize ≤ c.size) ∧ 0 ≤ n
  | .call c _ => c.mode = .wp → c.msgSize ≤ c.size
  | _ => True

/-- What holds of a task at a place. -/
structure Placed (s : St T M) (t : T) (pc : Pc T M) : Prop where
  sized : Sized pc
  waiting : ∀ m, (s.mbx m).waitingTask = some t → waitsAt m pc = true ∧ s.blockedOn t ≠ .null
  asleep : ∀ p delayed, pc = .poll p (.asleep delayed) →
    s.wait t = true ∧ s.blockedOn t ≠ .null
  linked : ∀ p st, pc = .poll p st → s.wait t = true →
    ∀ i m side, mustLink st i = true → p.pds[i]? = some (m, side) →
      (t, i) ∈ (s.mbx m).pollq side

/-- **WHAT HOLDS BETWEEN THE SECTIONS**. -/
structure Watched (s : St T M) : Prop where
  placed : ∀ t, Placed s t (s.pc t)
  announced : ∀ m, Announced s m

section Rules

variable {s s' : St T M} {t : T} {q : Pc T M}

omit decT in
/-- What a task is told by does not change. -/
theorem Placed.frame (P : Placed s t q) (hw : s'.wait t = s.wait t)
    (hb : s'.blockedOn t = s.blockedOn t)
    (hwt : ∀ m, (s'.mbx m).waitingTask = some t → (s.mbx m).waitingTask = some t)
    (hq : ∀ m side i, (t, i) ∈ (s.mbx m).pollq side →
      (t, i) ∈ (s'.mbx m).pollq side) : Placed s' t q where
  sized := P.sized
  waiting := by
    intro m hm
    rw [hb]
    exact P.waiting m (hwt m hm)
  asleep := by
    intro p delayed hpc
    rw [hw, hb]
    exact P.asleep p delayed hpc
  linked := by
    intro p st hpc hwait i m side hi hp
    rw [hw] at hwait
    exact hq m side i (P.linked p st hpc hwait i m side hi hp)

omit decT in
/-- A call that is not in `mbx_wait`. -/
theorem placed_call {c : Call M} {st : Stage T} (hs : Sized (.call c st : Pc T M))
    (hw : ∀ m, (s.mbx m).waitingTask ≠ some t) : Placed s t (.call c st) where
  sized := hs
  waiting := fun m hm => absurd hm (hw m)
  asleep := nofun
  linked := nofun

/-- **THE RULE FOR A SECTION OF ONE TASK**: the others see the same, and bytes
    that nobody announces are announced by the task itself. -/
theorem Watched.acts (I : Watched s) (hpc : s'.pc = Function.update s.pc t q)
    (hP : Placed s' t q)
    (hw : ∀ u, u ≠ t → s'.wait u = s.wait u)
    (hb : ∀ u, u ≠ t → s'.blockedOn u = s.blockedOn u)
    (hwt : ∀ m u, u ≠ t → (s'.mbx m).waitingTask = some u → (s.mbx m).waitingTask = some u)
    (hq : ∀ m side u i, u ≠ t → (u, i) ∈ (s.mbx m).pollq side → (u, i) ∈ (s'.mbx m).pollq side)
    (hann : ∀ m, 0 < (s'.mbx m).avbs → (s'.mbx m).pollq .recv ≠ [] →
      (0 < (s.mbx m).avbs ∧ (s.mbx m).pollq .recv ≠ [] ∧
        (willWake m (s.pc t) = true → willWake m q = true)) ∨
      willWake m q = true ∨ ∃ u, u ≠ t ∧ willWake m (s.pc u) = true) :
    Watched s' where
  placed := by
    intro u
    rw [hpc]
    by_cases hu : u = t
    · subst hu
      rw [Function.update_self]
      exact hP
    · rw [Function.update_of_ne hu]
      exact (I.placed u).frame (hw u hu) (hb u hu) (fun m => hwt m u hu)
        fun m side i => hq m side u i hu
  announced := by
    intro m ha hne
    rw [hpc]
    have hself : willWake m q = true →
        ∃ u, willWake m (Function.update s.pc t q u) = true := by
      intro h
      exact ⟨t, by rw [Function.update_self]; exact h⟩
    have hother : ∀ u, u ≠ t → willWake m (s.pc u) = true →
        ∃ u, willWake m (Function.update s.pc t q u) = true := by
      intro u hu h
      exact ⟨u, by rw [Function.update_of_ne hu]; exact h⟩
    rcases hann m ha hne with ⟨ha', hne', hkeep⟩ | h | ⟨u, hu, h⟩
    · obtain ⟨u, h⟩ := I.announced m ha' hne'
      by_cases hu : u = t
      · subst hu
        exact hself (hkeep h)
      · exact hother u hu h
    · exact hself h
    · exact hother u hu h

/-- A section of a task that changes nothing but the task's place. -/
theorem Watched.goto (I : Watched s) (hP : Placed s t q)
    (hkeep : ∀ m, 0 < (s.mbx m).avbs → (s.mbx m).pollq .recv ≠ [] →
      willWake m (s.pc t) = true → willWake m q = true ∨
        ∃ u, u ≠ t ∧ willWake m (s.pc u) = true) :
    Watched (s.goto t q) := by
  refine I.acts rfl ?_ (fun _ _ => rfl) (fun _ _ => rfl) (fun _ _ _ => id)
    (fun _ _ _ _ _ => id) ?_
  · exact hP.frame rfl rfl (fun _ => id) fun _ _ _ => id
  · intro m ha hne
    by_cases hw : willWake m (s.pc t) = true
    · rcases hkeep m ha hne hw with h | h
      · exact Or.inr (Or.inl h)
      · exact Or.inr (Or.inr h)
    · exact Or.inl ⟨ha, hne, fun h => absurd h hw⟩

/-- A mailbox changes in what no poller and no sleeper looks at. -/
theorem Watched.mailbox (I : Watched s) {m : M} {x : Mbx T}
    (ha : 0 < x.avbs → 0 < (s.mbx m).avbs)
    (hq : x.pollq = (s.mbx m).pollq)
    (hwt : ∀ u, x.waitingTask = some u → (s.mbx m).waitingTask = some u) :
    Watched (s.setMbx m x) := by
  have hm : ∀ m', (0 < ((s.setMbx m x).mbx m').avbs → 0 < (s.mbx m').avbs) ∧
      ((s.setMbx m x).mbx m').pollq = (s.mbx m').pollq ∧
      ∀ u, ((s.setMbx m x).mbx m').waitingTask = some u → (s.mbx m').waitingTask = some u := by
    intro m'
    by_cases h : m' = m
    · subst h
      rw [setMbx_self]
      exact ⟨ha, hq, hwt⟩
    · rw [setMbx_of_ne h]
      exact ⟨id, rfl, fun _ => id⟩
  constructor
  · intro u
    refine (I.placed u).frame rfl rfl (fun m' => (hm m').2.2 u) ?_
    intro m' side i h
    rw [(hm m').2.1]
    exact h
  · intro m' hpos hne
    rw [(hm m').2.1] at hne
    exact I.announced m' ((hm m').1 hpos) hne

/-- **THE RULE FOR A SECTION AT ONE MAILBOX**. -/
theorem Watched.visits (I : Watched s) {m : M} {x : Mbx T} (hP : Placed (s.setMbx m x) t q)
    (hwt : ∀ u, x.waitingTask = some u → (s.mbx m).waitingTask = some u)
    (hq : ∀ side u i, u ≠ t → (u, i) ∈ (s.mbx m).pollq side → (u, i) ∈ x.pollq side)
    (hkeep : ∀ m, willWake m (s.pc t) = true → willWake m q = true)
    (hann : 0 < x.avbs → x.pollq .recv ≠ [] →
      (0 < (s.mbx m).avbs ∧ (s.mbx m).pollq .recv ≠ []) ∨
        willWake m q = true ∨ ∃ u, u ≠ t ∧ willWake m (s.pc u) = true) :
    Watched ((s.setMbx m x).goto t q) := by
  refine I.acts rfl (hP.frame rfl rfl (fun _ => id) fun _ _ _ => id)
    (fun _ _ => rfl) (fun _ _ => rfl) ?_ ?_ ?_
  · intro m' u _ hm
    by_cases h : m' = m
    · subst h
      exact hwt u ((setMbx_self s m' x) ▸ hm)
    · exact (setMbx_of_ne h s x) ▸ hm
  · intro m' side u i hu hmem
    show (u, i) ∈ ((s.setMbx m x).mbx m').pollq side
    by_cases h : m' = m
    · subst h
      rw [setMbx_self]
      exact hq side u i hu hmem
    · rw [setMbx_of_ne h]
      exact hmem
  · intro m' ha hne
    by_cases h : m' = m
    · subst h
      have ha' : 0 < x.avbs := (setMbx_self s m' x) ▸ ha
      have hne' : x.pollq .recv ≠ [] := (setMbx_self s m' x) ▸ hne
      rcases hann ha' hne' with ⟨h1, h2⟩ | h
      · exact Or.inl ⟨h1, h2, hkeep m'⟩
      · exact Or.inr h
    · have ha' : 0 < (s.mbx m').avbs := (setMbx_of_ne h s x) ▸ ha
      have hne' : (s.mbx m').pollq .recv ≠ [] := (setMbx_of_ne h s x) ▸ hne
      exact Or.inl ⟨ha', hne', hkeep m'⟩

/-- Fields that nobody looks at here. -/
theorem Watched.same (I : Watched s) (hm : s'.mbx = s.mbx) (hpc : s'.pc = s.pc)
    (hw : s'.wait = s.wait) (hb : s'.blockedOn = s.blockedOn) : Watched s' where
  placed := by
    intro u
    rw [hpc]
    exact (I.placed u).frame (by rw [hw]) (by rw [hb])
      (fun m => by rw [hm]; exact id) fun m side i => by rw [hm]; exact id
  announced := by
    intro m
    simp only [Announced, hm, hpc]
    exact I.announced m

omit decT in
/-- A task that is not in `mbx_wait` is nobody's `waiting_task`. -/
theorem Placed.not_waiting (P : Placed s t q) (h : ∀ m, waitsAt m q = false)
    (m : M) : (s.mbx m).waitingTask ≠ some t := by
  intro hm
  have := (P.waiting m hm).1
  rw [h m] at this
  exact nomatch this

end Rules

/-! ## Sends and receives -/

section Calls

variable {s s' : St T M} {t : T} {c : Call M}

omit decT in
/-- A mailbox whose `waiting_task` does not change. -/
theorem setMbx_waiting {m : M} {x : Mbx T} (hx : x.waitingTask = (s.mbx m).waitingTask)
    (h : ∀ m', (s.mbx m').waitingTask ≠ some t) (m' : M) :
    ((s.setMbx m x).mbx m').waitingTask ≠ some t := by
  by_cases hm : m' = m
  · subst hm
    rw [setMbx_self, hx]
    exact h m'
  · rw [setMbx_of_ne hm]
    exact h m'

omit decT in
theorem Watched.at_pc (I : Watched s) {pc : Pc T M} (hpc : s.pc t = pc) :
    Placed s t pc := hpc ▸ I.placed t

/-- A place outside `mbx_wait`, reached from one. -/
theorem Watched.call_goto (I : Watched s) {q : Pc T M} (hpc : s.pc t = q)
    (hout : ∀ m, waitsAt m q = false) {c' : Call M} {st : Stage T}
    (hs : Sized (.call c' st : Pc T M))
    (hkeep : ∀ m, 0 < (s.mbx m).avbs → (s.mbx m).pollq .recv ≠ [] →
      willWake m q = true → willWake m (.call c' st : Pc T M) = true ∨
        ∃ u, u ≠ t ∧ willWake m (s.pc u) = true) :
    Watched (s.goto t (.call c' st)) :=
  I.goto (placed_call hs ((I.at_pc hpc).not_waiting hout)) (by rw [hpc]; exact hkeep)

theorem Watched.idle_goto (I : Watched s) {pc : Pc T M} (hpc : s.pc t = pc)
    (hout : ∀ m, waitsAt m pc = false)
    (hkeep : ∀ m, (s.mbx m).pollq .recv ≠ [] → willWake m pc = false) :
    Watched (s.goto t .idle) := by
  refine I.goto ⟨trivial, fun m hm => ?_, nofun, nofun⟩ fun m _ hne hw => ?_
  · exact absurd hm ((I.at_pc hpc).not_waiting hout m)
  · rw [hpc, hkeep m hne] at hw
    exact nomatch hw

/-- Going into a semaphore and out of it. -/
theorem Watched.setSem (I : Watched s) (m : M) (side : Side) (o : Option T) :
    Watched (s.setMbx m ((s.mbx m).setSem side o)) :=
  I.mailbox id rfl fun _ => id

theorem enter_watched (I : Watched s) {pc : Pc T M} (hpc : s.pc t = pc)
    (hout : ∀ m, waitsAt m pc = false) (hsilent : ∀ m, willWake m pc = false)
    {st : Stage T} (hs : Sized (.call c st : Pc T M)) :
    Watched (enter s t c st) := by
  refine Watched.call_goto (q := pc) (I.setSem c.mbx c.side (some t)) hpc hout
    hs fun m _ _ hw => ?_
  rw [hsilent m] at hw
  exact nomatch hw

/-- A task in `mbx_wait`, or one that has found its time past. -/
theorem Watched.waits (I : Watched s) (hpc : s.pc t = .call c .loop)
    {w : Option T} (hw : w = none ∨ w = some t) {b : Blocked} {q : Stage T}
    (hb : b ≠ .null) (hs : Sized (.call c q : Pc T M))
    (hin : w = some t → waitsAt c.mbx (.call c q : Pc T M) = true)
    (hkeep : 0 < (s.mbx c.mbx).avbs → (s.mbx c.mbx).pollq .recv ≠ [] →
      announces c = true → willWake c.mbx (.call c q : Pc T M) = true ∨
        ∃ u, u ≠ t ∧ willWake c.mbx (s.pc u) = true) :
    Watched (((s.setMbx c.mbx { s.mbx c.mbx with waitingTask := w }).block t
      b).goto t (.call c q)) := by
  have hnot := (I.at_pc hpc).not_waiting fun _ => rfl
  have hmbx : ∀ m, ((s.setMbx c.mbx { s.mbx c.mbx with waitingTask := w }).mbx m).avbs =
        (s.mbx m).avbs ∧
      ((s.setMbx c.mbx { s.mbx c.mbx with waitingTask := w }).mbx m).pollq = (s.mbx m).pollq ∧
      ∀ u, ((s.setMbx c.mbx { s.mbx c.mbx with waitingTask := w }).mbx
          m).waitingTask = some u →
        (m = c.mbx ∧ w = some u) ∨ (s.mbx m).waitingTask = some u := by
    intro m
    by_cases hm : m = c.mbx
    · subst hm
      rw [setMbx_self]
      exact ⟨rfl, rfl, fun u hu => Or.inl ⟨rfl, hu⟩⟩
    · rw [setMbx_of_ne hm]
      exact ⟨rfl, rfl, fun u hu => Or.inr hu⟩
  refine I.acts rfl ⟨hs, ?_, nofun, nofun⟩ (fun _ _ => rfl)
    (fun u hu => Function.update_of_ne hu ..) ?_ ?_ ?_
  · intro m hm
    refine ⟨?_, ?_⟩
    · rcases (hmbx m).2.2 t hm with ⟨rfl, h⟩ | h
      · exact hin h
      · exact absurd h (hnot m)
    · show Function.update s.blockedOn t b t ≠ _
      rw [Function.update_self]
      exact hb
  · intro m u hu hm
    rcases (hmbx m).2.2 u hm with ⟨rfl, h⟩ | h
    · rcases hw with rfl | rfl
      · exact nomatch h
      · exact absurd (Option.some.inj h).symm hu
    · exact h
  · intro m side u i _ h
    show (u, i) ∈ ((s.setMbx c.mbx _).mbx m).pollq side
    rw [(hmbx m).2.1]
    exact h
  · intro m ha hne
    have ha' : 0 < (s.mbx m).avbs := (hmbx m).1 ▸ ha
    have hne' : (s.mbx m).pollq .recv ≠ [] := (hmbx m).2.1 ▸ hne
    by_cases hwake : willWake m (s.pc t) = true
    · rw [hpc] at hwake
      simp only [willWake, Bool.decide_and, Bool.decide_eq_true,
        Bool.and_eq_true, decide_eq_true_eq] at hwake
      obtain ⟨rfl, hann⟩ := hwake
      rcases hkeep ha' hne' hann with h | h
      · exact Or.inr (Or.inl h)
      · exact Or.inr (Or.inr h)
    · exact Or.inl ⟨ha', hne', fun h => absurd h hwake⟩

/-- A call that may wait for the mailbox. -/
def patient (s : St T M) (c : Call M) : Bool :=
  match c.mode with
  | .until time => time > s.timeH
  | _ => true

/-- A call whose `mbx_wait` will put it to sleep. -/
def SleepsNext (s : St T M) (c : Call M) : Prop :=
  c.msgSize ≠ 0 ∧ (s.mbx c.mbx).fravbs c.side = 0 ∧ patient s c = true

/-- Another task will wake the receive-pollers of a mailbox, or there is
    none. -/
def OtherWakes (s : St T M) (t : T) (m : M) : Prop :=
  (s.mbx m).pollq .recv ≠ [] → ∃ u, u ≠ t ∧ willWake m (s.pc u) = true

theorem mbxWait_watched (I : Watched s) (hpc : s.pc t = .call c .loop) (hne : c.msgSize ≠ 0)
    (hheeds : announces c = true → SleepsNext s c →
      0 < (s.mbx c.mbx).avbs → OtherWakes s t c.mbx) :
    Watched (mbxWait s t c) := by
  have hsized : c.mode = .wp → c.msgSize ≤ c.size := (I.at_pc hpc).sized
  have hsleep : ∀ delayed, SleepsNext s c →
      Watched (((s.setMbx c.mbx { s.mbx c.mbx with waitingTask := some t }).block
        t .ptr).goto t (.call c (.asleep delayed))) := by
    intro delayed hnext
    refine I.waits hpc (Or.inr rfl) nofun hsized
      (fun _ => decide_eq_true rfl) fun ha hq hann => ?_
    exact Or.inr (hheeds hann hnext ha hq)
  simp only [mbxWait]
  split
  case isTrue h0 =>
    split
    case h_1 time hmode =>
      split
      case isTrue htime =>
        refine (hsleep true ?_).same rfl rfl rfl rfl
        refine ⟨hne, h0, ?_⟩
        simp only [patient, hmode]
        exact decide_eq_true htime
      case isFalse =>
        refine (I.waits hpc (w := none) (b := .ptr)
          (q := .semSignal (some .timout)) (Or.inl rfl) nofun hsized nofun
          fun _ _ _ => Or.inl (decide_eq_true rfl)).same rfl rfl rfl rfl
    case h_2 hmode =>
      exact hsleep false ⟨hne, h0, by simp only [patient]⟩
  case isFalse =>
    exact I.call_goto hpc (fun _ => rfl) hsized fun _ _ _ hw => Or.inl hw

theorem mbxWaitTail_watched (I : Watched s) (hpc : s.pc t = .call c .woken) :
    Watched (mbxWaitTail s t c) := by
  have P := I.at_pc hpc
  have hsized : c.mode = .wp → c.msgSize ≤ c.size := P.sized
  simp only [mbxWaitTail]
  split
  case h_1 herr =>
    have hnull : s.blockedOn t = .null := by
      cases hb : s.blockedOn t with
      | null => rfl
      | ptr | unblkd =>
        rw [hb] at herr
        exact nomatch herr
    refine I.goto (placed_call hsized fun m hm => (P.waiting m hm).2 hnull)
      fun m _ _ hw => Or.inl ?_
    rw [hpc] at hw
    exact hw
  case h_2 r herr =>
    have I' : Watched (s.setMbx c.mbx
        { s.mbx c.mbx with waitingTask := none }) :=
      I.mailbox id rfl nofun
    refine I'.goto (placed_call hsized fun m hm => ?_) fun m _ _ hw => Or.inl ?_
    · by_cases hmc : m = c.mbx
      · subst hmc
        rw [setMbx_self] at hm
        exact nomatch hm
      · rw [setMbx_of_ne hmc] at hm
        exact hmc (of_decide_eq_true (P.waiting m hm).1).symm
    · have hw' : willWake m (s.pc t) = true := hw
      rw [hpc] at hw'
      have := of_decide_eq_true hw'
      exact decide_eq_true this.1

theorem memcpyTo_length {buf buf' : List UInt8} {ofs n : Int} {msg : Nat → UInt8}
    (h : memcpyTo buf ofs n msg = some buf') : 0 ≤ n := by
  simp only [memcpyTo] at h
  split at h
  case isTrue hin => exact hin.2.1
  case isFalse => exact nomatch h

theorem memcpyFrom_length {buf bytes : List UInt8} {ofs n : Int}
    (h : memcpyFrom buf ofs n = some bytes) : 0 ≤ n := by
  simp only [memcpyFrom] at h
  split at h
  case isTrue hin => exact hin.2.1
  case isFalse => exact nomatch h

theorem copy_watched (I : Watched s) (hpc : s.pc t = .call c .copy) :
    Watched (copy s t c) := by
  have hsized : c.mode = .wp → c.msgSize ≤ c.size := (I.at_pc hpc).sized
  have hstay : ∀ {st : Stage T}, Sized (.call c st : Pc T M) →
      (∀ m, waitsAt m (.call c st : Pc T M) = false) →
      (∀ m, willWake m (.call c st : Pc T M) =
        decide (c.mbx = m ∧ announces c)) →
      Watched (s.goto t (.call c st)) := by
    intro st hs _ hw
    exact I.call_goto hpc (fun _ => rfl) hs fun m _ _ h =>
      Or.inl ((hw m).trans h)
  have hput : Watched (mbxputCopy s t c) := by
    simp only [mbxputCopy]
    split
    case h_1 => exact I.same rfl rfl rfl rfl
    case h_2 buf hc =>
      have I' : Watched (s.setMbx c.mbx { s.mbx c.mbx with bufadr := buf }) :=
        I.mailbox id rfl fun _ => id
      exact I'.call_goto hpc (fun _ => rfl) ⟨hsized, memcpyTo_length hc⟩
        fun m _ _ h => Or.inl h
  have hget : Watched (mbxgetCopy s t c) := by
    simp only [mbxgetCopy]
    split
    case h_1 => exact I.same rfl rfl rfl rfl
    case h_2 bytes hc =>
      exact I.call_goto hpc (fun _ => rfl) ⟨hsized, memcpyFrom_length hc⟩
        fun m _ _ h => Or.inl h
  simp only [copy]
  split
  case h_1 hside hmode =>
    split
    · split
      · exact hput
      · exact hstay hsized (fun _ => rfl) fun _ => rfl
    case isFalse hle =>
      refine I.call_goto hpc (fun _ => rfl) ?_ fun m _ _ h => ?_
      · intro hwp
        rw [show c.mode = .ovrwr from hmode] at hwp
        exact nomatch hwp
      · have hno : announces c = false := by simp [announces, hside, hmode]
        have := (of_decide_eq_true h).2
        rw [hno] at this
        exact nomatch this
  case h_2 =>
    split
    · exact hput
    · exact hstay hsized (fun _ => rfl) fun _ => rfl
  case h_3 =>
    split
    · exact hget
    · exact hstay hsized (fun _ => rfl) fun _ => rfl

omit decM in
/-- A pass that has got on makes a call no less sure to announce. -/
theorem announces_advance {n : Int} (hn : 0 ≤ n) (h : announces c = true) :
    announces (c.advance n) = true := by
  obtain ⟨side, mode, m, msg, msgSize, size⟩ := c
  cases side with
  | recv => exact h
  | send =>
    cases mode with
    | wp =>
      have hlt : msgSize < size := of_decide_eq_true h
      exact decide_eq_true (show msgSize - n < size by omega)
    | _ => exact h

/-- **THE COUNTERS OF A PASS**: a send that is not an overwriting one will
    announce its bytes. -/
theorem counters_watched (I : Watched s) {n : Int} {bytes : List UInt8}
    (hpc : s.pc t = .call c (.counters n bytes))
    (hheeds : c.side = .send → c.mode = .ovrwr → 0 < (s.mbx c.mbx).avbs + n →
      OtherWakes s t c.mbx) :
    Watched (counters s t c n bytes).1 := by
  obtain ⟨hsized, hn⟩ := (I.at_pc hpc).sized
  have hsized' : c.mode = .wp → c.msgSize - n ≤ c.size := by
    intro hwp
    have := hsized hwp
    omega
  have hgrows := announces_advance (c := c) hn
  simp only [counters]
  split
  case h_1 hside =>
    have hkeep : ∀ m, willWake m (s.pc t) = true →
        willWake m (.call (c.advance n) (.index n) : Pc T M) = true := by
      intro m h
      rw [hpc] at h
      obtain ⟨h1, h2⟩ := of_decide_eq_true h
      exact decide_eq_true ⟨h1, hgrows h2⟩
    refine I.visits (placed_call hsized' ?_) (fun _ => id) (fun _ _ _ _ => id)
      hkeep fun ha hne => ?_
    · exact setMbx_waiting rfl ((I.at_pc hpc).not_waiting fun _ => rfl)
    · by_cases hov : c.mode = .ovrwr
      · exact Or.inr (Or.inr (hheeds hside hov ha hne))
      · by_cases h0 : n = 0
        · have ha' : 0 < (s.mbx c.mbx).avbs + n := ha
          exact Or.inl ⟨by omega, hne⟩
        · refine Or.inr (Or.inl (decide_eq_true ⟨rfl, ?_⟩))
          cases hmode : c.mode with
          | ovrwr => exact absurd hmode hov
          | wp =>
            have := hsized hmode
            simp only [announces, Call.advance, hside, hmode]
            exact decide_eq_true (by omega)
          | wait | «until» | cond =>
            simp only [announces, Call.advance, hside, hmode]
  case h_2 hside =>
    have I' : Watched (s.setMbx c.mbx ((s.mbx c.mbx).drain n)) := by
      refine I.mailbox ?_ rfl fun _ => id
      show 0 < (s.mbx c.mbx).avbs - n → _
      omega
    refine I'.call_goto hpc (fun _ => rfl) hsized' fun m _ _ h => Or.inl ?_
    obtain ⟨h1, h2⟩ := of_decide_eq_true h
    exact decide_eq_true ⟨h1, hgrows h2⟩

theorem index_watched (I : Watched s) {n : Int}
    (hpc : s.pc t = .call c (.index n)) : Watched (index s t c n) := by
  have hsized : c.mode = .wp → c.msgSize ≤ c.size := (I.at_pc hpc).sized
  have I' : Watched (s.setMbx c.mbx ((s.mbx c.mbx).advance c.side n)) := by
    refine I.mailbox ?_ ?_ ?_ <;> cases c.side <;> first | exact id | rfl | skip
    all_goals exact fun _ => id
  simp only [index]
  split
  · exact I'.call_goto hpc (fun _ => rfl) hsized fun _ _ _ h => Or.inl h
  · exact I'.call_goto hpc (fun _ => rfl) hsized fun _ _ _ h => Or.inl h

/-- **DROPPING BYTES** leaves those that remain to somebody who announces
    them. -/
theorem dropCounters_watched (I : Watched s) {n : Int}
    (hpc : s.pc t = .call c (.dropCounters n))
    (hheeds : 0 < (s.mbx c.mbx).avbs - n → OtherWakes s t c.mbx) :
    Watched (dropCounters s t c n) := by
  refine I.visits (placed_call (I.at_pc hpc).sized ?_) (fun _ => id)
    (fun _ _ _ _ => id) (fun m h => ?_) fun ha hne => ?_
  · exact setMbx_waiting rfl ((I.at_pc hpc).not_waiting fun _ => rfl)
  · rw [hpc] at h
    exact h
  · exact Or.inr (Or.inr (hheeds ha hne))

theorem drop_watched (I : Watched s) (hpc : s.pc t = .call c .drop) :
    Watched (drop s t c) := by
  have hsized : c.mode = .wp → c.msgSize ≤ c.size := (I.at_pc hpc).sized
  simp only [drop]
  split
  · exact I.call_goto hpc (fun _ => rfl) hsized fun _ _ _ h => Or.inl h
  · exact I.call_goto hpc (fun _ => rfl) hsized fun _ _ _ h => Or.inl h

theorem dropIndex_watched (I : Watched s) {n : Int}
    (hpc : s.pc t = .call c (.dropIndex n)) : Watched (dropIndex s t c n) := by
  have hsized : c.mode = .wp → c.msgSize ≤ c.size := (I.at_pc hpc).sized
  have I' : Watched (s.setMbx c.mbx ((s.mbx c.mbx).advance .recv n)) :=
    I.mailbox id rfl fun _ => id
  exact I'.call_goto hpc (fun _ => rfl) hsized fun _ _ _ h => Or.inl h

/-! ## Waking up -/

omit decT in
/-- A task that is woken in `mbx_wait` announces no less. -/
theorem willWake_readyMbx {m : M} {pc : Pc T M} (h : willWake m pc = true) :
    willWake m pc.readyMbx = true := by
  cases pc with
  | call c st =>
    cases st with
    | asleep => exact nomatch h
    | _ => exact h
  | _ => exact h

omit decT in
theorem willWake_readyPoll {m : M} {pc : Pc T M} (h : willWake m pc = true) :
    willWake m pc.readyPoll = true := by
  cases pc with
  | poll p st => cases st <;> exact h
  | _ => exact h

omit decT in
theorem waitsAt_readyMbx {m : M} {pc : Pc T M} (h : waitsAt m pc = true) :
    waitsAt m pc.readyMbx = true := by
  cases pc with
  | call c st => cases st <;> exact h
  | _ => exact h

omit decT in
theorem waitsAt_readyPoll {m : M} {pc : Pc T M} (h : waitsAt m pc = true) :
    waitsAt m pc.readyPoll = true := by
  cases pc with
  | poll p st => cases st <;> exact nomatch h
  | _ => exact h

omit decT decM in
theorem sized_readyMbx {pc : Pc T M} (h : Sized pc) : Sized pc.readyMbx := by
  cases pc with
  | call c st => cases st <;> exact h
  | _ => exact h

omit decT decM in
theorem sized_readyPoll {pc : Pc T M} (h : Sized pc) : Sized pc.readyPoll := by
  cases pc with
  | poll p st => cases st <;> exact h
  | _ => exact h

omit decT in
/-- Where `mbx_wait` may be. -/
theorem call_of_waitsAt {m : M} {pc : Pc T M} (h : waitsAt m pc = true) :
    ∃ c st, pc = .call c st ∧ c.mbx = m ∧ pc.readyMbx = .call c .woken := by
  cases pc with
  | call c st =>
    cases st with
    | asleep => exact ⟨c, _, rfl, of_decide_eq_true h, rfl⟩
    | woken => exact ⟨c, _, rfl, of_decide_eq_true h, rfl⟩
    | _ => exact nomatch h
  | _ => exact nomatch h

/-- **`mbx_signal`** wakes a task of this mailbox and no other. -/
theorem mbxSignal_watched (I : Watched s) (m : M) : Watched (mbxSignal s m) := by
  simp only [mbxSignal]
  split
  case h_1 => exact I
  case h_2 u hu =>
    have P := I.placed u
    obtain ⟨c, st, hpc, hcm, hready⟩ := call_of_waitsAt (P.waiting m hu).1
    have I' : Watched (s.setMbx m { s.mbx m with waitingTask := none }) :=
      I.mailbox id rfl nofun
    have hnot : ∀ m', ((s.setMbx m { s.mbx m with waitingTask := none }).mbx
        m').waitingTask ≠ some u := by
      intro m' hm'
      by_cases hm : m' = m
      · subst hm
        rw [setMbx_self] at hm'
        exact nomatch hm'
      · rw [setMbx_of_ne hm] at hm'
        obtain ⟨c', st', hpc', hcm', -⟩ :=
          call_of_waitsAt (P.waiting m' hm').1
        rw [hpc] at hpc'
        cases hpc'
        exact hm (hcm'.symm.trans hcm)
    refine I'.acts (t := u) rfl ?_ (fun _ _ => rfl)
      (fun v hv => Function.update_of_ne hv ..) (fun _ _ _ => id)
      (fun _ _ _ _ _ => id) fun m' ha hne => ?_
    · rw [hready]
      refine placed_call ?_ hnot
      have := sized_readyMbx P.sized
      rwa [hready] at this
    · exact Or.inl ⟨ha, hne, willWake_readyMbx⟩

/-- **`rt_poll_signal`** leaves no poller asleep that has been signalled. -/
theorem rtPollSignal_watched (s : St T M) (I : Watched s) (u : T) :
    Watched (rtPollSignal s u) := by
  have P := I.placed u
  simp only [rtPollSignal]
  split
  case isTrue hp =>
    have hpoll : ∀ m, waitsAt m (s.pc u) = false := by
      intro m
      simp only [polling] at hp
      split at hp
      · rename_i hpc
        rw [hpc]
        rfl
      · rename_i hpc
        rw [hpc]
        rfl
      · exact nomatch hp
    refine I.acts (t := u) rfl
      ⟨sized_readyPoll P.sized, fun m hm => ?_, fun p d hpc => ?_, fun p st _ hw => ?_⟩
      (fun v hv => Function.update_of_ne hv ..)
      (fun v hv => Function.update_of_ne hv ..) (fun _ _ _ => id)
      (fun _ _ _ _ _ => id) fun m ha hne => ?_
    · exact absurd hm (P.not_waiting hpoll m)
    · cases hs : s.pc u with
      | poll p st =>
        rw [hs] at hpc
        cases st <;> exact nomatch hpc
      | idle | call =>
        rw [hs] at hpc
        exact nomatch hpc
    · have : Function.update s.wait u false u = true := hw
      rw [Function.update_self] at this
      exact nomatch this
    · exact Or.inl ⟨ha, hne, willWake_readyPoll⟩
  case isFalse hp =>
    refine I.acts (t := u) (q := s.pc u) (Function.update_eq_self u s.pc).symm
      ⟨P.sized, P.waiting, fun p d hpc => ?_, fun p st _ hw => ?_⟩
      (fun v hv => Function.update_of_ne hv ..) (fun _ _ => rfl)
      (fun _ _ _ => id) (fun _ _ _ _ _ => id) fun m ha hne => ?_
    · refine absurd ?_ hp
      simp only [polling, hpc]
      exact decide_eq_true (P.asleep p d hpc).2
    · have : Function.update s.wait u false u = true := hw
      rw [Function.update_self] at this
      exact nomatch this
    · exact Or.inl ⟨ha, hne, id⟩

omit decM in
theorem rtPollSignal_mbx (s : St T M) (u : T) : (rtPollSignal s u).mbx = s.mbx := by
  simp only [rtPollSignal]
  split <;> rfl

omit decM in
theorem rtPollSignal_wait (s : St T M) (u : T) : (rtPollSignal s u).wait u = false := by
  simp only [rtPollSignal]
  split <;> exact Function.update_self ..

/-- **A PASS OF `rt_wakeup_pollers`**. -/
theorem wakeupPoller_watched (I : Watched s) {m : M} {ql : Side}
    {reason : Ret T} (h : wakeupPoller s m ql reason = some s') :
    Watched s' := by
  simp only [wakeupPoller] at h
  split at h
  case h_1 => exact nomatch h
  case h_2 u i rest hl =>
    rw [← Option.some.inj h]
    -- the poller is signalled first here, so that its node may go
    have I' := rtPollSignal_watched s I u
    have hm := congrFun (rtPollSignal_mbx s u) m
    have P := I'.placed u
    have hsub : ∀ side v j, v ≠ u → (v, j) ∈ (s.mbx m).pollq side →
        (v, j) ∈ ((s.mbx m).setPollq ql rest).pollq side := by
      intro side v j hv hmem
      by_cases hside : side = ql
      · subst hside
        rw [hl] at hmem
        rw [setPollq_self]
        rcases List.mem_cons.mp hmem with heq | hrest
        · exact absurd (congrArg Prod.fst heq) hv
        · exact hrest
      · rw [setPollq_of_ne hside]
        exact hmem
    have hne : ((s.mbx m).setPollq ql rest).pollq .recv ≠ [] → (s.mbx m).pollq .recv ≠ [] := by
      intro hrest
      by_cases hside : Side.recv = ql
      · subst hside
        rw [hl]
        exact List.cons_ne_nil _ _
      · rwa [setPollq_of_ne hside] at hrest
    have I'' : Watched (((rtPollSignal s u).setMbx m
        ((s.mbx m).setPollq ql rest)).goto u ((rtPollSignal s u).pc u)) := by
      refine I'.visits ⟨P.sized, fun m' hm' => P.waiting m' ?_, P.asleep,
        fun p st _ hw => ?_⟩ (fun v hv => ?_) (fun side v j hv hmem => ?_)
        (fun _ => id) fun ha hrest => Or.inl ⟨?_, ?_⟩
      · by_cases h' : m' = m
        · subst h'
          rw [setMbx_self] at hm'
          rw [hm]
          exact hm'
        · rwa [setMbx_of_ne h'] at hm'
      · have : (rtPollSignal s u).wait u = true := hw
        rw [rtPollSignal_wait] at this
        exact nomatch this
      · rw [hm]
        exact hv
      · rw [hm] at hmem
        exact hsub side v j hv hmem
      · rw [hm]
        exact ha
      · rw [hm]
        exact hne hrest
    refine I''.same ?_ ?_ ?_ ?_
    · rw [rtPollSignal_mbx]
      show _ = Function.update (rtPollSignal s u).mbx m _
      rw [rtPollSignal_mbx]
      rfl
    · show _ = Function.update (rtPollSignal s u).pc u _
      rw [Function.update_eq_self]
      simp only [rtPollSignal]
      split <;> (split <;> first | rfl | contradiction)
    · simp only [rtPollSignal]
      split <;> split <;> rfl
    · simp only [rtPollSignal]
      split <;> (split <;> first | rfl | contradiction)

/-- **WHAT A CALL OWES TO THE POLLERS** it still owes behind
    `rt_sem_signal`. -/
theorem semSignal_watched (I : Watched s) {error : Option (Ret T)}
    (hpc : s.pc t = .call c (.semSignal error)) :
    Watched (semSignal s t c error).1 := by
  have hsized : c.mode = .wp → c.msgSize ≤ c.size := (I.at_pc hpc).sized
  have I' := I.setSem c.mbx c.side none
  have hto : ∀ ql reason retval,
      (∀ m, willWake m (.call c (.semSignal error) : Pc T M) = true → ql = .recv) →
      Watched ((s.setMbx c.mbx ((s.mbx c.mbx).setSem c.side none)).goto t
        (.call c (.wakeup ql reason retval))) := by
    intro ql reason retval hql
    refine I'.call_goto hpc (fun _ => rfl) hsized fun m _ _ h => Or.inl ?_
    refine decide_eq_true ⟨?_, hql m h⟩
    cases error with
    | some r => exact of_decide_eq_true h
    | none => exact (of_decide_eq_true h).1
  have hdone : (∀ m, willWake m (.call c (.semSignal error) : Pc T M) = false) →
      Watched ((s.setMbx c.mbx ((s.mbx c.mbx).setSem c.side none)).goto t
        .idle) := fun hno =>
    I'.idle_goto hpc (fun _ => rfl) fun m _ => hno m
  cases error with
  | some r => exact hto .recv r r fun _ _ => rfl
  | none =>
    have hann : ∀ m, willWake m (.call c (.semSignal none) : Pc T M) = true →
        announces c = true := fun m h => (of_decide_eq_true h).2
    have hside : announces c = true → c.side = .send := by
      intro h
      simp only [announces] at h
      cases hs : c.side with
      | send => rfl
      | recv =>
        rw [hs] at h
        exact nomatch h
    have hno : announces c = false →
        ∀ m, willWake m (.call c (.semSignal none) : Pc T M) = false := by
      intro h m
      cases hw : willWake m (.call c (.semSignal none) : Pc T M) with
      | false => rfl
      | true => exact absurd (hann m hw) (by rw [h]; decide)
    have hql : ∀ m, willWake m (.call c (.semSignal none) : Pc T M) = true →
        (if c.side = .send then Side.recv else Side.send) = .recv :=
      fun m h => if_pos (hside (hann m h))
    cases hmode : c.mode with
    | wp =>
      by_cases hlt : c.msgSize < c.size
      · simp only [semSignal, afterRelease, hmode, if_pos hlt]
        exact hto _ _ _ hql
      · simp only [semSignal, afterRelease, hmode, if_neg hlt]
        refine hdone (hno ?_)
        cases hs : c.side with
        | send =>
          simp only [announces, hs, hmode]
          exact decide_eq_false hlt
        | recv => simp only [announces, hs]
    | ovrwr =>
      simp only [semSignal, afterRelease, hmode]
      refine hdone (hno ?_)
      cases hs : c.side <;> simp only [announces, hs, hmode]
    | wait | «until» | cond =>
      simp only [semSignal, afterRelease, hmode]
      exact hto _ _ _ hql

/-- The conditions under which the sections of a call keep bytes announced. -/
def CallHeeds (s : St T M) (t : T) (c : Call M) : Stage T → Prop
  | .loop => announces c = true → SleepsNext s c → 0 < (s.mbx c.mbx).avbs →
      OtherWakes s t c.mbx
  | .counters n _ => c.side = .send → c.mode = .ovrwr →
      0 < (s.mbx c.mbx).avbs + n → OtherWakes s t c.mbx
  | .dropCounters n => 0 < (s.mbx c.mbx).avbs - n → OtherWakes s t c.mbx
  | _ => True

/-- **EVERY SECTION OF A CALL**. -/
theorem runCall_watched (I : Watched s) {st : Stage T} {e : Event T M}
    (hpc : s.pc t = .call c st) (hheeds : CallHeeds s t c st)
    (h : runCall s t c st = some (s', e)) : Watched s' := by
  cases st with
  | semWait =>
    simp only [runCall] at h
    split at h
    · cases h
      exact enter_watched I hpc (fun _ => rfl) (fun _ => rfl) (I.at_pc hpc).sized
    · exact nomatch h
  | loop =>
    simp only [runCall] at h
    split at h
    case isTrue hne =>
      cases h
      exact mbxWait_watched I hpc hne hheeds
    case isFalse =>
      cases h
      exact I.call_goto hpc (fun _ => rfl) (I.at_pc hpc).sized fun _ _ _ hw => Or.inl hw
  | asleep => exact nomatch h
  | woken =>
    cases h
    exact mbxWaitTail_watched I hpc
  | copy =>
    cases h
    exact copy_watched I hpc
  | counters n bytes =>
    have hW := counters_watched I hpc hheeds
    rw [Option.some.inj h] at hW
    exact hW
  | index n =>
    cases h
    exact index_watched I hpc
  | drop =>
    cases h
    exact drop_watched I hpc
  | dropCounters n =>
    cases h
    exact dropCounters_watched I hpc hheeds
  | dropIndex n =>
    cases h
    exact dropIndex_watched I hpc
  | mbxSignal =>
    cases h
    have hpc' : (mbxSignal s c.mbx).pc t = .call c .mbxSignal := by
      simp only [mbxSignal]
      split
      case h_1 => exact hpc
      case h_2 u hu =>
        have hut : t ≠ u := by
          rintro rfl
          exact (I.at_pc hpc).not_waiting (fun _ => rfl) _ hu
        exact (Function.update_of_ne hut ..).trans hpc
    refine (mbxSignal_watched I c.mbx).call_goto hpc' (fun _ => rfl) ?_
      fun m _ _ hw => Or.inl ?_
    · have hs : c.mode = .wp → c.msgSize ≤ c.size := (I.at_pc hpc).sized
      cases c.mode <;> exact hs
    · cases hm : c.mode <;> exact hw
  | semSignal error =>
    have hW := semSignal_watched I hpc
    rw [Option.some.inj h] at hW
    exact hW
  | wakeup ql reason retval =>
    simp only [runCall] at h
    split at h
    case h_1 s'' hw =>
      cases h
      exact wakeupPoller_watched I hw
    case h_2 hw =>
      cases h
      refine I.idle_goto hpc (fun _ => rfl) fun m hne => ?_
      simp only [wakeupPoller] at hw
      split at hw
      case h_1 hempty =>
        refine decide_eq_false ?_
        rintro ⟨rfl, rfl⟩
        exact hne hempty
      case h_2 => exact nomatch hw

end Calls

/-! ## Polls -/

section Polls

variable {s s' : St T M} {t : T} {p : Poll M}

/-- A poll is nobody's `waiting_task` and announces nothing. -/
theorem Watched.poll_not_waiting (I : Watched s) {st : PollStage T}
    (hpc : s.pc t = .poll p st) (m : M) : (s.mbx m).waitingTask ≠ some t :=
  (I.at_pc hpc).not_waiting (fun _ => rfl) m

/-- A section of a poll that changes only what the poller itself looks at. -/
theorem Watched.poll_acts (I : Watched s) {st st' : PollStage T}
    (hpc : s.pc t = .poll p st) (hm : s'.mbx = s.mbx) (hs' : s'.pc = s.pc)
    (hw : ∀ u, u ≠ t → s'.wait u = s.wait u)
    (hb : ∀ u, u ≠ t → s'.blockedOn u = s.blockedOn u)
    (hasleep : ∀ d, st' = .asleep d → s'.wait t = true ∧ s'.blockedOn t ≠ .null)
    (hlink : s'.wait t = true → ∀ i m side, mustLink st' i = true →
      p.pds[i]? = some (m, side) → (t, i) ∈ (s.mbx m).pollq side) :
    Watched (s'.goto t (.poll p st')) := by
  refine I.acts (t := t) (q := .poll p st') ?_ ⟨trivial, fun m h => ?_, ?_, ?_⟩
    hw hb (fun m u _ h => ?_) (fun m side u i _ h => ?_) fun m ha hne => ?_
  · show Function.update s'.pc t _ = _
    rw [hs']
  · exact absurd (show (s.mbx m).waitingTask = some t from hm ▸ h) (I.poll_not_waiting hpc m)
  · intro p' d h
    cases h
    exact hasleep d rfl
  · intro p' st'' h hwait i m side hi hp
    cases h
    show (t, i) ∈ (s'.mbx m).pollq side
    rw [hm]
    exact hlink hwait i m side hi hp
  · exact hm ▸ h
  · show (u, i) ∈ (s'.mbx m).pollq side
    rw [hm]
    exact h
  · exact Or.inl ⟨hm ▸ ha, hm ▸ hne, fun h => by rw [hpc] at h; exact nomatch h⟩

theorem rtPoll_watched (I : Watched s) (hpc : s.pc t = .idle)
    (pds : List (M × Side)) (timeout : Int) :
    Watched (rtPoll s t pds timeout).1 := by
  refine I.acts (t := t) (q := .poll ⟨pds, timeout⟩ (.test 0 0)) rfl
    ⟨trivial, fun m h => ?_, nofun, ?_⟩
    (fun u hu => Function.update_of_ne hu ..) (fun _ _ => rfl)
    (fun _ _ _ => id) (fun _ _ _ _ _ => id) fun m ha hne => ?_
  · exact absurd h ((I.at_pc hpc).not_waiting (fun _ => rfl) m)
  · intro p' st' h _ i m side hi _
    cases h
    have hlt : 0 = 0 ∧ i < 0 := of_decide_eq_true hi
    exact absurd hlt.2 (Nat.not_lt_zero i)
  · exact Or.inl ⟨ha, hne, fun h => by rw [hpc] at h; exact nomatch h⟩

theorem pollTest_watched (I : Watched s) {k polled : Nat}
    (hpc : s.pc t = .poll p (.test k polled)) :
    Watched (pollTest s t p k polled) := by
  have hlinked := (I.at_pc hpc).linked p _ rfl
  simp only [pollTest]
  split
  case h_1 hend =>
    split
    case isTrue h0 =>
      refine I.poll_acts hpc rfl rfl (fun _ _ => rfl) (fun _ _ => rfl) nofun ?_
      intro hwait i m side _ hp
      -- every place of the list is before its end
      have hi : i < p.pds.length := (List.getElem?_eq_some_iff.mp hp).1
      have hk := List.getElem?_eq_none_iff.mp hend
      exact hlinked hwait i m side (decide_eq_true ⟨h0, by omega⟩) hp
    case isFalse =>
      exact I.poll_acts hpc rfl rfl (fun _ _ => rfl) (fun _ _ => rfl) nofun
        nofun
  case h_2 m side hk =>
    split
    · exact I.poll_acts hpc rfl rfl (fun _ _ => rfl) (fun _ _ => rfl) nofun hlinked
    · refine I.poll_acts hpc rfl rfl (fun _ _ => rfl) (fun _ _ => rfl) nofun ?_
      intro _ i m side hi _
      have hlt : polled + 1 = 0 ∧ i < k + 1 := of_decide_eq_true hi
      exact absurd hlt.1 (Nat.succ_ne_zero polled)

omit decT in
/-- A poller stays linked where it was, and others too, when one links
    itself. -/
theorem mem_linkNode {prio : T → Int} {l : List (T × Nat)} {i : Nat}
    {q : T × Nat} : q ∈ linkNode prio l t i ↔ q = (t, i) ∨ q ∈ l := by
  simp only [linkNode, List.mem_append, List.mem_cons]
  conv_rhs =>
    rw [← List.takeWhile_append_dropWhile
      (p := fun q : T × Nat => decide (prio q.1 ≤ prio t)) (l := l),
      List.mem_append]
  exact or_left_comm

/-- **LINKING A POLLER** to a mailbox that is still empty, or whose bytes some
    call will announce. -/
theorem pollLink_watched (I : Watched s) {k polled : Nat}
    (hpc : s.pc t = .poll p (.link k polled))
    (hheeds : ∀ m, p.pds[k]? = some (m, .recv) → 0 < (s.mbx m).avbs →
      ∃ u, u ≠ t ∧ willWake m (s.pc u) = true) :
    Watched (pollLink s t p k polled) := by
  have hlinked := (I.at_pc hpc).linked p _ rfl
  simp only [pollLink]
  split
  case h_1 hend =>
    refine I.poll_acts hpc rfl rfl (fun _ _ => rfl) (fun _ _ => rfl) nofun ?_
    intro hwait i m side hi hp
    obtain ⟨h0, hlt⟩ := of_decide_eq_true hi
    have hne : i ≠ k := by
      rintro rfl
      rw [hend] at hp
      exact nomatch hp
    exact hlinked hwait i m side (decide_eq_true ⟨h0, by omega⟩) hp
  case h_2 m side hk =>
    have I' : Watched (setNode s t k .sem) := I.same rfl rfl rfl rfl
    have hmem : ∀ side' q, q ∈ (s.mbx m).pollq side' → q ∈ ((s.mbx m).setPollq side
          (linkNode s.priority ((s.mbx m).pollq side) t k)).pollq side' := by
      intro side' q hq
      by_cases hside : side' = side
      · subst hside
        rw [setPollq_self]
        exact mem_linkNode.mpr (Or.inr hq)
      · rw [setPollq_of_ne hside]
        exact hq
    refine I'.visits ⟨trivial, fun m' h => ?_, nofun, ?_⟩ (fun _ => id)
      (fun side' u i _ hu => hmem side' (u, i) hu) (fun m' h => ?_)
      fun ha hne => ?_
    · refine absurd h (setMbx_waiting (s := setNode s t k .sem) ?_ (I.poll_not_waiting hpc) m')
      rfl
    · intro p' st' h hwait i m' side' hi hp
      cases h
      obtain ⟨h0, hlt⟩ := of_decide_eq_true hi
      show (t, i) ∈ ((s.setMbx m _).mbx m').pollq side'
      by_cases hik : i = k
      · subst hik
        rw [hk] at hp
        cases hp
        rw [setMbx_self]
        rw [setPollq_self]
        exact mem_linkNode.mpr (Or.inl rfl)
      · have hold := hlinked hwait i m' side' (decide_eq_true ⟨h0, by omega⟩) hp
        by_cases hm : m' = m
        · subst hm
          rw [setMbx_self]
          exact hmem side' (t, i) hold
        · rw [setMbx_of_ne hm]
          exact hold
    · have h' : willWake m' (s.pc t) = true := h
      rw [hpc] at h'
      exact nomatch h'
    · cases side with
      | send =>
        refine Or.inl ⟨ha, ?_⟩
        have hne' := hne
        rwa [setPollq_of_ne (show Side.recv ≠ .send from nofun)] at hne'
      | recv => exact Or.inr (Or.inr (hheeds m hk ha))

theorem pollAwait_watched (I : Watched s) (hpc : s.pc t = .poll p .await) :
    Watched (pollAwait s t p) := by
  have hlinked := (I.at_pc hpc).linked p _ rfl
  have hskip : ∀ semret, Watched (s.goto t (.poll p (.unlink 0 0 semret))) :=
    fun _ => I.poll_acts hpc rfl rfl (fun _ _ => rfl) (fun _ _ => rfl) nofun nofun
  have huntil : ∀ time, Watched (rtPollWaitUntil s t p time) := by
    intro time
    simp only [rtPollWaitUntil]
    split
    case isTrue hw =>
      split
      · refine I.poll_acts hpc rfl rfl (fun _ _ => rfl)
          (fun u hu => Function.update_of_ne hu ..) (fun _ _ => ⟨hw, ?_⟩)
          fun hwait i m side _ hp => hlinked hwait i m side rfl hp
        show Function.update s.blockedOn t .ptr t ≠ _
        rw [Function.update_self]
        exact nofun
      · exact I.poll_acts hpc rfl rfl (fun _ _ => rfl)
          (fun u hu => Function.update_of_ne hu ..) nofun nofun
    case isFalse => exact hskip _
  simp only [pollAwait]
  split
  · exact huntil _
  · split
    · exact huntil _
    · split
      · simp only [rtPollWait]
        split
        case isTrue hw =>
          refine I.poll_acts hpc rfl rfl (fun _ _ => rfl)
            (fun u hu => Function.update_of_ne hu ..) (fun _ _ => ⟨hw, ?_⟩)
            fun hwait i m side _ hp => hlinked hwait i m side rfl hp
          show Function.update s.blockedOn t .ptr t ≠ _
          rw [Function.update_self]
          exact nofun
        case isFalse => exact hskip _
      · exact hskip _

theorem pollUnlink_watched (I : Watched s) {k polled : Nat} {semret : Ret T}
    (hpc : s.pc t = .poll p (.unlink k polled semret)) :
    Watched (pollUnlink s t p k polled semret).1 := by
  simp only [pollUnlink]
  split
  case h_1 => exact I.idle_goto hpc (fun _ => rfl) fun _ _ => rfl
  case h_2 m side hk =>
    split
    · refine I.visits ⟨trivial, fun m' h => ?_, nofun, ?_⟩ (fun _ => id)
        (fun side' u i hu hmem => ?_) (fun m' h => ?_)
        fun ha hne => Or.inl ⟨ha, ?_⟩
      · refine absurd h (setMbx_waiting ?_ (I.poll_not_waiting hpc) m')
        rfl
      · intro p' st' h _ i _ _ hi _
        cases h
        exact nomatch hi
      · by_cases hside : side' = side
        · subst hside
          rw [setPollq_self]
          exact (List.mem_erase_of_ne fun h => hu (congrArg Prod.fst h)).mpr hmem
        · rw [setPollq_of_ne hside]
          exact hmem
      · rw [hpc] at h
        exact nomatch h
      · intro hempty
        refine hne ?_
        by_cases hside : Side.recv = side
        · subst hside
          rw [setPollq_self, hempty]
          rfl
        · rw [setPollq_of_ne hside]
          exact hempty
    · exact I.poll_acts hpc rfl rfl (fun _ _ => rfl) (fun _ _ => rfl) nofun
        nofun

/-- **EVERY SECTION OF A POLL**. -/
theorem runPoll_watched (I : Watched s) {st : PollStage T} {e : Event T M}
    (hpc : s.pc t = .poll p st)
    (hheeds : ∀ k polled, st = .link k polled → ∀ m,
      p.pds[k]? = some (m, .recv) → 0 < (s.mbx m).avbs →
      ∃ u, u ≠ t ∧ willWake m (s.pc u) = true)
    (h : runPoll s t p st = some (s', e)) : Watched s' := by
  cases st with
  | test k polled =>
    cases h
    exact pollTest_watched I hpc
  | link k polled =>
    cases h
    exact pollLink_watched I hpc (hheeds k polled rfl)
  | await =>
    cases h
    exact pollAwait_watched I hpc
  | asleep => exact nomatch h
  | woken =>
    cases h
    exact I.poll_acts hpc rfl rfl (fun _ _ => rfl)
      (fun u hu => Function.update_of_ne hu ..) nofun nofun
  | unlink k polled semret =>
    have hW := pollUnlink_watched I hpc
    rw [Option.some.inj h] at hW
    exact hW

end Polls

/-! ## Every run -/

/-- **THE CONDITION ON A STEP.**  Where a receive-poller is linked to a
    mailbox, a send that goes to sleep leaves no bytes behind, nor does a
    section of `_rt_mbx_ovrwr_send`, and a poller links itself to no mailbox
    with bytes, unless another task will still wake the pollers. -/
def Heeds (s : St T M) : MbxAction T M → Prop
  | .run t =>
    match s.pc t with
    | .call c st => CallHeeds s t c st
    | .poll p (.link k _) => ∀ m, p.pds[k]? = some (m, .recv) →
        0 < (s.mbx m).avbs → ∃ u, u ≠ t ∧ willWake m (s.pc u) = true
    | _ => True
  | _ => True

theorem request_watched {s : St T M} (I : Watched s) {t : T}
    (hpc : s.pc t = .idle) (q : Request M) : Watched (request s t q).1 := by
  have hwait : ∀ c : Call M, c.msgSize = c.size → Watched (waitCall s t c).1 :=
    fun c hc => I.call_goto hpc (fun _ => rfl) (fun _ => hc.le) fun _ _ _ h => nomatch h
  have hin : ∀ c : Call M, (c.mode = .wp → c.msgSize ≤ c.size) →
      Watched (enter s t c .copy) := fun c hc =>
    enter_watched I hpc (fun _ => rfl) (fun _ => rfl) hc
  have htry : ∀ (c : Call M) able, c.msgSize = c.size → Watched (tryCall s t c able).1 := by
    intro c able hc
    simp only [tryCall]
    split
    · exact hin c fun _ => hc.le
    · exact I
  cases q with
  | mbxSend | mbxSendUntil | mbxReceive | mbxReceiveUntil => exact hwait _ rfl
  | mbxSendWp | mbxSendIf | mbxReceiveWp | mbxReceiveIf => exact htry _ _ rfl
  | mbxOvrwrSend m msg n =>
    simp only [request, rtMbxOvrwrSend]
    split
    · exact hin _ nofun
    · exact htry _ _ rfl
  | poll pds timeout => exact rtPoll_watched I hpc pds timeout

/-- A sleeper that is woken by the timer or by `rt_task_masked_unblock`. -/
theorem awake_watched {s s' : St T M} (I : Watched s) {t : T}
    (hsleeps : (s.pc t).sleeps ≠ none) (hm : s'.mbx = s.mbx)
    (hs : s'.pc = s.pc) (hw : s'.wait = s.wait)
    (hb : ∀ u, u ≠ t → s'.blockedOn u = s.blockedOn u)
    (hbt : s.blockedOn t ≠ .null → s'.blockedOn t ≠ .null) :
    Watched (s'.goto t (s.pc t).readyMbx.readyPoll) := by
  have P := I.placed t
  refine I.acts (t := t) (q := (s.pc t).readyMbx.readyPoll) ?_
    ⟨sized_readyPoll (sized_readyMbx P.sized), fun m h => ?_, fun p d h => ?_,
      fun p st h _ i m side hi _ => ?_⟩
    (fun u _ => congrFun hw u) hb (fun m u _ h => hm ▸ h)
    (fun m side u i _ h => ?_) fun m ha hne => Or.inl ⟨hm ▸ ha, hm ▸ hne,
      fun h => willWake_readyPoll (willWake_readyMbx h)⟩
  · show Function.update s'.pc t _ = _
    rw [hs]
  · have hwt : (s.mbx m).waitingTask = some t := hm ▸ h
    obtain ⟨hat, hnull⟩ := P.waiting m hwt
    exact ⟨waitsAt_readyPoll (waitsAt_readyMbx hat), hbt hnull⟩
  · -- nobody is asleep who has just been woken
    cases hpc : s.pc t with
    | idle => exact absurd (congrArg Pc.sleeps hpc) hsleeps
    | call c st =>
      rw [hpc] at h
      cases st <;> exact nomatch h
    | poll p' st =>
      rw [hpc] at h
      cases st <;> exact nomatch h
  · cases hpc : s.pc t with
    | idle => exact absurd (congrArg Pc.sleeps hpc) hsleeps
    | call c st =>
      rw [hpc] at h
      cases st <;> exact nomatch h
    | poll p' st' =>
      rw [hpc] at h hsleeps
      cases st' with
      | asleep =>
        cases h
        exact nomatch hi
      | _ => exact absurd rfl hsleeps
  · show (u, i) ∈ (s'.mbx m).pollq side
    rw [hm]
    exact h

/-- **EVERY STEP KEEPS BYTES ANNOUNCED**. -/
theorem Watched.step {s s' : St T M} (I : Watched s) {a : MbxAction T M}
    {e : Event T M} (ha : Heeds s a) (h : step s a = some (s', e)) :
    Watched s' := by
  simp only [RtaiMailbox.step] at h
  split at h
  case isTrue => exact nomatch h
  case isFalse =>
    cases a with
    | call t q =>
      simp only at h
      split at h
      case h_1 hpc =>
        have hW := request_watched I hpc q
        rw [Option.some.inj h] at hW
        exact hW
      case h_2 => exact nomatch h
    | run t =>
      simp only [Heeds] at ha
      simp only at h
      split at h
      case h_1 => exact nomatch h
      case h_2 c st hpc =>
        rw [hpc] at ha
        exact runCall_watched I hpc ha h
      case h_3 p st hpc =>
        rw [hpc] at ha
        refine runPoll_watched I hpc ?_ h
        rintro k polled rfl
        exact ha
    | giveUp t error =>
      simp only at h
      split at h
      case h_1 c hpc =>
        cases h
        exact I.idle_goto hpc (fun _ => rfl) fun _ _ => rfl
      case h_2 => exact nomatch h
    | expire t =>
      simp only at h
      split at h
      case isTrue hs =>
        cases h
        refine awake_watched I ?_ rfl rfl rfl (fun _ _ => rfl) id
        rw [hs.1]
        exact nofun
      case isFalse => exact nomatch h
    | unblock t =>
      simp only at h
      split at h
      case isTrue hs =>
        cases h
        refine awake_watched I hs rfl rfl rfl
          (fun u hu => Function.update_of_ne hu ..) fun _ => ?_
        show Function.update s.blockedOn t .unblkd t ≠ _
        rw [Function.update_self]
        exact nofun
      case isFalse => exact nomatch h
    | tick time timeH =>
      cases h
      exact I.same rfl rfl rfl rfl

omit decT in
theorem watched_boot (buffer : M → List UInt8) (priority : T → Int) :
    Watched (boot buffer priority) where
  placed := fun _ => ⟨trivial, nofun, nofun, nofun⟩
  announced := fun _ h => absurd h (lt_irrefl 0)

/-- Blocked, or outside any call. -/
def Resting : Pc T M → Prop
  | .idle => True
  | .call _ .semWait => True
  | .call _ (.asleep _) => True
  | .poll _ (.asleep _) => True
  | _ => False

/-- No task sleeps in `_rt_poll` until there is something to receive from a
    mailbox that has something. -/
def NoSleeper (s : St T M) : Prop :=
  ∀ t p delayed m, s.pc t = .poll p (.asleep delayed) → (m, .recv) ∈ p.pds →
    ¬ 0 < (s.mbx m).avbs

omit decT in
/-- What wakes pollers does not rest. -/
theorem Resting.not_willWake {pc : Pc T M} (h : Resting pc) (m : M) :
    willWake m pc = false := by
  cases pc with
  | idle => rfl
  | call c st => cases st <;> first | rfl | exact h.elim
  | poll p st => rfl

/-- **NO RECEIVE-POLLER SLEEPS ON BYTES** when every task is blocked or has
    completed its call, in every run that heeds the condition. -/
theorem no_sleeper (buffer : M → List UInt8) (priority : T → Int)
    (s : St T M) (h : Reach step Heeds (boot buffer priority) s)
    (hrest : ∀ t, Resting (s.pc t)) : NoSleeper s := by
  have I : Watched s := h.invariant (I := Watched) (watched_boot buffer priority)
    fun _ _ _ _ I ha hs => I.step ha hs
  intro t p delayed m hpc hm ha
  obtain ⟨i, hi⟩ := List.mem_iff_getElem?.mp hm
  obtain ⟨hwait, -⟩ := (I.placed t).asleep p delayed hpc
  have hlinked := (I.placed t).linked p _ hpc hwait i m .recv rfl hi
  -- somebody would be about to wake the pollers
  obtain ⟨u, hu⟩ := I.announced m ha (List.ne_nil_of_mem hlinked)
  rw [(hrest u).not_willWake m] at hu
  exact nomatch hu

instance (s : St T M) (c : Call M) : Decidable (SleepsNext s c) :=
  inferInstanceAs (Decidable (_ ∧ _ ∧ _))

instance [Fintype T] (s : St T M) (t : T) (m : M) : Decidable (OtherWakes s t m) :=
  inferInstanceAs (Decidable (_ → _))

instance [Fintype T] (s : St T M) (t : T) (c : Call M) (st : Stage T) :
    Decidable (CallHeeds s t c st) :=
  match st with
  | .loop => inferInstanceAs (Decidable (_ → _ → _ → _))
  | .counters _ _ => inferInstanceAs (Decidable (_ → _ → _ → _))
  | .dropCounters _ => inferInstanceAs (Decidable (_ → _))
  | .semWait | .asleep _ | .woken | .copy | .index _ | .drop | .dropIndex _
  | .mbxSignal | .semSignal _ | .wakeup _ _ _ => isTrue trivial

instance [Fintype T] [Fintype M] (s : St T M) (a : MbxAction T M) : Decidable (Heeds s a) :=
  match a with
  | .run t => by
      simp only [Heeds]
      cases s.pc t with
      | idle => exact isTrue trivial
      | call c st => exact inferInstanceAs (Decidable (CallHeeds s t c st))
      | poll p st =>
        cases st with
        | link k polled => exact inferInstanceAs (Decidable (∀ _, _))
        | _ => exact isTrue trivial
  | .call _ _ => isTrue trivial
  | .giveUp _ _ => isTrue trivial
  | .expire _ => isTrue trivial
  | .unblock _ => isTrue trivial
  | .tick _ _ => isTrue trivial

/-- A task polls two mailboxes of one byte, and sleeps; another sends to the first
    and wakes it; and it polls the second again. -/
def wokenRun : List (MbxAction (Fin 2) (Fin 2)) :=
  .call 1 (.poll [(0, .recv), (1, .recv)] 0) :: List.replicate 6 (.run 1) ++
    .call 0 (.mbxSend 0 (fun _ => 7) 1) :: List.replicate 11 (.run 0) ++
    List.replicate 4 (.run 1) ++
    .call 1 (.poll [(1, .recv)] 0) :: List.replicate 4 (.run 1)

theorem no_sleeper_woken : ∃ s : St (Fin 2) (Fin 2),
      s.pc 1 = .poll ⟨[(1, .recv)], 0⟩ (.asleep false) ∧ (s.mbx 0).avbs = 1 ∧
        NoSleeper s := by
  obtain ⟨s, hplay, h0, h1, hbytes⟩ : ∃ s, play step Heeds
      (boot (fun _ => [0]) (fun _ => 0)) wokenRun = some s ∧ s.pc 0 = .idle ∧
      s.pc 1 = .poll ⟨[(1, .recv)], 0⟩ (.asleep false) ∧ (s.mbx 0).avbs = 1 :=
    ⟨_, rfl, rfl, rfl, rfl⟩
  refine ⟨s, h1, hbytes, no_sleeper (fun _ => [0]) (fun _ => 0) s (reach_of_play hplay)
    fun t => ?_⟩
  fin_cases t
  · show Resting (s.pc 0)
    rw [h0]
    trivial
  · show Resting (s.pc 1)
    rw [h1]
    trivial

/-- A task polls one mailbox of one byte, and sleeps. -/
def pollingRun : List (MbxAction (Fin 2) (Fin 1)) :=
  .call 1 (.poll [(0, .recv)] 0) :: List.replicate 4 (.run 1)

/-- Then another sends two bytes, and sleeps behind the first. -/
def sendingRun : List (MbxAction (Fin 2) (Fin 1)) :=
  pollingRun ++ .call 0 (.mbxSend 0 (fun _ => 0) 2) :: List.replicate 8 (.run 0)

/-- **A POLLER SLEEPS ON A BYTE** and the sender behind it. -/
theorem sleeper_on_bytes : ∃ s : St (Fin 2) (Fin 1),
      Reach step (fun _ _ => True) (boot (fun _ => [0]) (fun _ => 0)) s ∧
      (∀ t, Resting (s.pc t)) ∧ ¬ NoSleeper s := by
  obtain ⟨s, hplay, h0, h1, ha⟩ : ∃ s, play step (fun _ _ => True)
      (boot (fun _ => [0]) (fun _ => 0)) sendingRun = some s ∧
      Resting (s.pc 0) ∧
      s.pc 1 = .poll ⟨[(0, .recv)], 0⟩ (.asleep false) ∧ (s.mbx 0).avbs = 1 :=
    ⟨_, rfl, trivial, rfl, rfl⟩
  refine ⟨s, reach_of_play hplay, fun t => ?_, fun h => ?_⟩
  · fin_cases t
    · exact h0
    · show Resting (s.pc 1)
      rw [h1]
      trivial
  · exact h 1 _ _ 0 h1 (List.mem_singleton.mpr rfl) (by rw [ha]; decide)

end RtaiPollers
