import Rtai.LinuxServer

/-! # The calls of a server, in order

    The calls are numbered as they are accepted.  Call `k` is in slot
    `k % nr`, the task puts the next one in, the server is at call `served`,
    and `suspdepth` counts what lies between. -/

namespace RtaiServerOrder

open RtaiRuns RtaiLinuxServer

variable {A R U : Type} [decU : DecidableEq U]

/-! ## Slots of a ring -/

theorem advance_mod {nr : Nat} (h : 2 ≤ nr) (i : Nat) :
    advance nr (i % nr) = (i + 1) % nr := by
  have hlt : i % nr < nr := Nat.mod_lt _ (by omega)
  have hone : 1 % nr = 1 := Nat.mod_eq_of_lt (by omega)
  rw [advance, Nat.add_mod, hone]
  split
  · next hge =>
      have heq : i % nr + 1 = nr := by omega
      rw [heq, Nat.mod_self]
  · next hlt' => exact (Nat.mod_eq_of_lt (by omega)).symm

/-- Two numbers closer than the size of the ring have different slots. -/
theorem eq_of_mod {nr i j : Nat} (h : i % nr = j % nr) (hij : i < j + nr)
    (hji : j < i + nr) : i = j := by
  have hi := Nat.div_add_mod i nr
  have hj := Nat.div_add_mod j nr
  rcases Nat.lt_trichotomy (i / nr) (j / nr) with hlt | heq | hgt
  · have hmul := Nat.mul_le_mul_left nr hlt
    rw [Nat.mul_succ] at hmul
    omega
  · rw [heq] at hi
    omega
  · have hmul := Nat.mul_le_mul_left nr hgt
    rw [Nat.mul_succ] at hmul
    omega

omit decU in
/-- A slot holds one call. -/
theorem Holds.unique {s : Server A R U} {i j : Nat} (hi : Holds s i)
    (hj : Holds s j) (h : i % s.nr = j % s.nr) : i = j := by
  obtain ⟨hi1, hi2⟩ := hi
  obtain ⟨hj1, hj2⟩ := hj
  exact eq_of_mod h (by omega) (by omega)

/-! ## The places of the task and the server -/

/-- The calls that the server has answered or passed over. -/
def answered (served : Nat) : ServerPc R → Nat
  | .advances => served + 1
  | _ => served

/-- What holds of a ring of `nr` slots with `n` calls where the task is. -/
def TaskAt (nr n served ans in_ : Nat) (id depth : Int) : TaskPc A → Prop
  | .out => in_ = n % nr ∧ n + 1 ≤ served + nr ∧ depth = 0
  | .fills _ from_ =>
    in_ = n % nr ∧ from_.slot = n % nr ∧ from_.id = id ∧
      n + 1 ≤ served + nr ∧ (from_.mode = .async → n + 2 ≤ served + nr) ∧
      depth = 0
  | .names from_ | .puts from_ =>
    0 < n ∧ from_.slot = (n - 1) % nr ∧ from_.id = id ∧ n ≤ served + nr ∧
      (from_.mode = .async → n + 1 ≤ served + nr) ∧ depth = 0
  | .wakes from_ =>
    in_ = n % nr ∧ 0 < n ∧ n ≤ served + nr ∧
      (from_.mode = .async → n + 1 ≤ served + nr) ∧ depth = 0
  | .suspends _ =>
    in_ = n % nr ∧ n ≤ served + nr ∧ (depth = 0 ∨ depth = -1 ∧ n ≤ ans)
  | .asleep _ => in_ = n % nr ∧ n ≤ served + nr ∧ depth = 1
  | .reads _ => in_ = n % nr ∧ n ≤ ans ∧ depth = 0

/-- What the `suspdepth` of the server says where it is. -/
def ServerAt (woken served : Nat) (depth : Int) : ServerPc R → Prop
  | .suspends => (woken : Int) = served - depth ∧ depth ≤ 0
  | .asleep => depth = 1 ∧ served = woken
  | .ended => False
  | _ => (woken : Int) = served + 1 - depth ∧ depth ≤ 0

/-- The task waits for its call. -/
def Waits (depth : Int) : TaskPc A → Prop
  | .names from_ | .puts from_ | .wakes from_ => from_.mode = .sync
  | .suspends _ => depth = 0
  | .asleep _ => True
  | _ => False

/-- The ring, as far as numbers go. -/
structure RingInv (s : Server A R U) : Prop where
  nr : 2 ≤ s.nr
  out : s.out = s.served % s.nr
  ids : 0 ≤ s.id ∧ s.id < 2 ^ 31
  task : TaskAt s.nr s.log.length s.served (answered s.served s.server) s.in_
    s.id s.taskDepth s.task
  server : ServerAt (woken s) s.served s.servDepth s.server
  /-- Only the last call can be a synchronous one that is not answered. -/
  sync : ∀ k c, s.log[k]? = some c → c.mode = .sync → answered s.served s.server ≤ k →
    k + 1 = s.log.length ∧ Waits s.taskDepth s.task

section Numbers

variable {nr n served served' ans ans' in_ woken : Nat} {id depth : Int}

theorem nextId_range : 0 ≤ nextId id ∧ nextId id < 2 ^ 31 := by
  have hlt : toInt (id + 1) < 2 ^ 31 := by
    have := Int.bmod_lt (x := id + 1) (m := 2 ^ 32) (by decide)
    simp only [toInt]
    omega
  simp only [nextId]
  split
  · exact ⟨le_refl _, by decide⟩
  · next h => exact ⟨not_lt.mp h, hlt⟩

/-- The server goes on. -/
theorem TaskAt.mono {p : TaskPc A} (h : TaskAt nr n served ans in_ id depth p)
    (hs : served ≤ served') (ha : ans ≤ ans') :
    TaskAt nr n served' ans' in_ id depth p := by
  cases p with
  | out =>
    obtain ⟨h1, h2, h3⟩ := h
    exact ⟨h1, by omega, h3⟩
  | fills args from_ =>
    obtain ⟨h1, h2, h3, h4, h5, h6⟩ := h
    exact ⟨h1, h2, h3, by omega, fun hm => by have := h5 hm; omega, h6⟩
  | names from_ =>
    obtain ⟨h1, h2, h3, h4, h5, h6⟩ := h
    exact ⟨h1, h2, h3, by omega, fun hm => by have := h5 hm; omega, h6⟩
  | puts from_ =>
    obtain ⟨h1, h2, h3, h4, h5, h6⟩ := h
    exact ⟨h1, h2, h3, by omega, fun hm => by have := h5 hm; omega, h6⟩
  | wakes from_ =>
    obtain ⟨h1, h2, h3, h4, h5⟩ := h
    exact ⟨h1, h2, by omega, fun hm => by have := h4 hm; omega, h5⟩
  | suspends slot =>
    obtain ⟨h1, h2, h3⟩ := h
    exact ⟨h1, by omega, h3.imp_right fun h => ⟨h.1, by omega⟩⟩
  | asleep slot =>
    obtain ⟨h1, h2, h3⟩ := h
    exact ⟨h1, by omega, h3⟩
  | reads slot =>
    obtain ⟨h1, h2, h3⟩ := h
    exact ⟨h1, by omega, h3⟩

/-- The server is behind the calls it has been woken for. -/
theorem ServerAt.le {p : ServerPc R} (h : ServerAt woken served depth p) :
    answered served p ≤ woken := by
  cases p with
  | suspends =>
    obtain ⟨h1, h2⟩ := h
    show served ≤ woken
    omega
  | asleep => exact le_of_eq h.2
  | ended => exact h.elim
  | advances =>
    obtain ⟨h1, h2⟩ := h
    show served + 1 ≤ woken
    omega
  | _ =>
    obtain ⟨h1, h2⟩ := h
    show served ≤ woken
    omega

theorem answered_le {p : ServerPc R} : answered served p ≤ served + 1 := by
  cases p with
  | advances => exact le_refl _
  | _ => exact Nat.le_succ _

theorem wokenOf_le (p : TaskPc A) : wokenOf n p ≤ n := by
  cases p with
  | names from_ => exact Nat.sub_le ..
  | puts from_ => exact Nat.sub_le ..
  | wakes from_ => exact Nat.sub_le ..
  | _ => exact le_refl n

end Numbers

section Ring

variable {s s' : Server A R U} {o : Option Int}

omit decU in
/-- **The task looks at the ring.** -/
theorem RingInv.exec (I : RingInv s) {args : A}
    (h : exec s args = some (s', o)) : RingInv s' := by
  cases hpc : s.task with
  | out =>
    have ht := I.task
    have hs := I.server
    rw [hpc] at ht
    obtain ⟨hin, hroom, hd⟩ := ht
    simp only [woken, hpc] at hs
    simp only [RtaiLinuxServer.exec, hpc] at h
    split at h
    · cases h
      exact I
    · next hfull =>
        cases h
        have hroom' : s.mode = .async → s.log.length + 2 ≤ s.served + s.nr := by
          intro hm
          by_contra hlt
          refine hfull ⟨hm, ?_⟩
          -- the slot after the next one is the server's
          rw [hin, advance_mod I.nr, I.out]
          have heq : s.log.length + 1 = s.served + s.nr := by omega
          rw [heq, Nat.add_mod_right]
        refine ⟨I.nr, I.out, I.ids, ⟨hin, hin, rfl, hroom, hroom', hd⟩, hs,
          fun k c hk hm ha => ?_⟩
        have hw := (I.sync k c hk hm ha).2
        rw [hpc] at hw
        exact hw.elim
  | _ =>
    simp only [RtaiLinuxServer.exec, hpc] at h
    exact nomatch h

/-- Where the server is after a resume that leaves it a depth. -/
def rousedServer (depth : Int) : ServerPc R → ServerPc R
  | .asleep => if depth = 0 then .returns else .asleep
  | p => p

omit decU in
theorem resumeServer_eq : resumeServer s = { s with
    servDepth := s.servDepth - 1
    server := rousedServer (s.servDepth - 1) s.server } := by
  simp only [resumeServer]
  by_cases hd : s.servDepth - 1 = 0
  · rw [if_pos hd]
    cases hpc : s.server with
    | asleep => simp only [rousedServer, if_pos hd]
    | _ => rfl
  · rw [if_neg hd]
    cases hpc : s.server with
    | asleep =>
      simp only [rousedServer, if_neg hd]
    | _ => simp only [rousedServer]

/-- A call more. -/
theorem ServerAt.roused {w served : Nat} {depth : Int} {p : ServerPc R}
    (h : ServerAt w served depth p) :
    ServerAt (w + 1) served (depth - 1) (rousedServer (depth - 1) p) := by
  cases p with
  | suspends =>
    obtain ⟨h1, h2⟩ := h
    exact ⟨by omega, by omega⟩
  | asleep =>
    obtain ⟨h1, h2⟩ := h
    have h0 : depth - 1 = 0 := by omega
    simp only [rousedServer, if_pos h0]
    exact ⟨by omega, by omega⟩
  | ended => exact h.elim
  | _ =>
    obtain ⟨h1, h2⟩ := h
    exact ⟨by omega, by omega⟩

theorem answered_roused {served : Nat} {depth : Int} {p : ServerPc R} :
    answered served (rousedServer depth p) = answered served p := by
  cases p with
  | asleep =>
    simp only [rousedServer]
    split <;> rfl
  | _ => rfl

theorem pastOf_roused {served : Nat} {depth : Int} {p : ServerPc R} :
    pastOf served (rousedServer depth p) = pastOf served p := by
  cases p with
  | asleep =>
    simp only [rousedServer]
    split <;> rfl
  | _ => rfl

/-- The depth of a server that has not been resumed too often. -/
theorem ServerAt.depth_ge {w served nr : Nat} {depth : Int} {p : ServerPc R}
    (h : ServerAt w served depth p) (hw : w ≤ served + nr) :
    depth ≥ -(nr : Int) := by
  cases p with
  | asleep =>
    have := h.1
    omega
  | ended => exact h.elim
  | _ =>
    obtain ⟨h1, h2⟩ := h
    omega

omit decU in
/-- **The task goes on.** -/
theorem RingInv.taskGo (I : RingInv s) {owns : Bool}
    (hguard : ∀ slot, s.task = .suspends slot → owns = false)
    (h : taskGo s owns = some (s', o)) : RingInv s' := by
  have ht := I.task
  have hs := I.server
  have hsync := I.sync
  simp only [woken] at hs
  have hbehind := hs.le
  cases hpc : s.task with
  | out =>
    simp only [RtaiLinuxServer.taskGo, hpc] at h
    exact nomatch h
  | fills args from_ =>
    rw [hpc] at ht hs hsync
    simp only [RtaiLinuxServer.taskGo, hpc] at h
    cases h
    obtain ⟨h1, h2, h3, h4, h5, h6⟩ := ht
    have hlen : (s.log ++ [(⟨args, from_.id, from_.mode⟩ : Call A)]).length =
        s.log.length + 1 := by
      rw [List.length_append]
      rfl
    refine ⟨I.nr, I.out, I.ids, ?_, ?_, fun k c hk hm ha => ?_⟩
    · show TaskAt s.nr (s.log ++ [_]).length s.served _ s.in_ s.id s.taskDepth (.names from_)
      rw [hlen]
      refine ⟨Nat.succ_pos _, h2, h3, by omega, fun hm => ?_, h6⟩
      have := h5 hm
      omega
    · show ServerAt ((s.log ++ [_]).length - 1) s.served s.servDepth s.server
      rw [hlen]
      exact hs
    · -- no earlier call is waited for
      have hk' : (s.log ++ [⟨args, from_.id, from_.mode⟩])[k]? = some c := hk
      rcases Nat.lt_or_ge k s.log.length with hlt | hge
      · rw [List.getElem?_append_left hlt] at hk'
        exact (hsync k c hk' hm ha).2.elim
      · have hkn : k = s.log.length := by
          have := (List.getElem?_eq_some_iff.mp hk').1
          omega
        subst hkn
        rw [List.getElem?_concat_length] at hk'
        cases hk'
        exact ⟨hlen.symm, hm⟩
  | names from_ =>
    rw [hpc] at ht hs hsync
    simp only [RtaiLinuxServer.taskGo, hpc] at h
    cases h
    exact ⟨I.nr, I.out, I.ids, ht, hs, hsync⟩
  | puts from_ =>
    rw [hpc] at ht hs hsync
    simp only [RtaiLinuxServer.taskGo, hpc] at h
    cases h
    obtain ⟨h1, h2, h3, h4, h5, h6⟩ := ht
    have hin : advance s.nr from_.slot = s.log.length % s.nr := by
      have hn : s.log.length - 1 + 1 = s.log.length := by omega
      rw [h2, advance_mod I.nr, hn]
    exact ⟨I.nr, I.out, nextId_range, ⟨hin, h1, h4, h5, h6⟩, hs, hsync⟩
  | wakes from_ =>
    rw [hpc] at ht hs hsync hbehind
    simp only [RtaiLinuxServer.taskGo, hpc] at h
    obtain ⟨h1, h2, h3, h4, h5⟩ := ht
    replace hs : ServerAt (s.log.length - 1) s.served s.servDepth s.server := hs
    have hdepth : s.servDepth ≥ -(s.nr : Int) := hs.depth_ge (by omega)
    have hs' := hs.roused
    have hn : s.log.length - 1 + 1 = s.log.length := by omega
    rw [hn] at hs'
    rw [if_pos hdepth, resumeServer_eq] at h
    cases hm : from_.mode with
    | sync =>
      rw [hm] at h
      cases h
      refine ⟨I.nr, I.out, I.ids, ⟨h1, h3, Or.inl h5⟩, hs',
        fun k c hk hcm ha => ⟨(hsync k c hk hcm ?_).1, h5⟩⟩
      exact answered_roused.symm.le.trans ha
    | async =>
      rw [hm] at h
      cases h
      refine ⟨I.nr, I.out, I.ids, ⟨h1, h4 hm, h5⟩, hs', fun k c hk hcm ha => ?_⟩
      have hwaits := (hsync k c hk hcm (answered_roused.symm.le.trans ha)).2
      exact nomatch hm.symm.trans hwaits
  | suspends slot =>
    rw [hpc] at ht hs hsync
    have howns := hguard slot hpc
    subst howns
    simp only [RtaiLinuxServer.taskGo, hpc] at h
    obtain ⟨h1, h2, h3⟩ := ht
    split at h
    · next hd =>
        cases h
        exact ⟨I.nr, I.out, I.ids, ⟨h1, h2, rfl⟩, hs,
          fun k c hk hm ha => ⟨(hsync k c hk hm ha).1, trivial⟩⟩
    · next hd =>
        cases h
        have hne : s.taskDepth ≠ 0 := fun h0 => hd ⟨rfl, h0⟩
        obtain ⟨hd1, hle⟩ := h3.resolve_left hne
        refine ⟨I.nr, I.out, I.ids, ⟨h1, hle, ?_⟩, hs,
          fun k c hk hm ha => absurd (hsync k c hk hm ha).2 hne⟩
        show s.taskDepth + 1 = 0
        omega
  | asleep slot =>
    simp only [RtaiLinuxServer.taskGo, hpc] at h
    exact nomatch h
  | reads slot =>
    rw [hpc] at ht hs hsync
    simp only [RtaiLinuxServer.taskGo, hpc] at h
    cases h
    obtain ⟨h1, h2, h3⟩ := ht
    have hnr := I.nr
    have hans : answered s.served s.server ≤ s.served + 1 := answered_le
    have hroom : s.log.length + 1 ≤ s.served + s.nr := by omega
    exact ⟨I.nr, I.out, I.ids, ⟨h1, hroom, h3⟩, hs,
      fun k c hk hm ha => (hsync k c hk hm ha).2.elim⟩

/-- Where the task is after a resume that leaves it a depth. -/
def rousedTask (depth : Int) : TaskPc A → TaskPc A
  | .asleep slot => if depth = 0 then .reads slot else .asleep slot
  | p => p

omit decU in
theorem resumeTask_eq : resumeTask s = { s with
    taskDepth := s.taskDepth - 1
    task := rousedTask (s.taskDepth - 1) s.task } := by
  simp only [resumeTask]
  by_cases hd : s.taskDepth - 1 = 0
  · rw [if_pos hd]
    cases hpc : s.task with
    | asleep => simp only [rousedTask, if_pos hd]
    | _ => rfl
  · rw [if_neg hd]
    cases hpc : s.task with
    | asleep => simp only [rousedTask, if_neg hd]
    | _ => simp only [rousedTask]

theorem wokenOf_roused {n : Nat} {depth : Int} {p : TaskPc A} :
    wokenOf n (rousedTask depth p) = wokenOf n p := by
  cases p with
  | asleep slot =>
    simp only [rousedTask]
    split <;> rfl
  | _ => rfl

/-- The task's call is answered. -/
theorem TaskAt.answered {nr n served in_ : Nat} {id depth : Int} {p : TaskPc A}
    (h : TaskAt nr n served served in_ id depth p) (hn : served + 1 = n)
    (hp : served < wokenOf n p) (hw : Waits depth p) :
    TaskAt nr n served (served + 1) in_ id (depth - 1) (rousedTask (depth - 1) p) := by
  cases p with
  | suspends slot =>
    obtain ⟨h1, h2, h3⟩ := h
    have hd : depth = 0 := hw
    subst hd
    exact ⟨h1, h2, Or.inr ⟨rfl, le_of_eq hn.symm⟩⟩
  | asleep slot =>
    obtain ⟨h1, h2, h3⟩ := h
    subst h3
    exact ⟨h1, le_of_eq hn.symm, rfl⟩
  | names from_ =>
    have : served < n - 1 := hp
    omega
  | puts from_ =>
    have : served < n - 1 := hp
    omega
  | wakes from_ =>
    have : served < n - 1 := hp
    omega
  | out => exact hw.elim
  | fills args from_ => exact hw.elim
  | reads slot => exact hw.elim

omit decU in
/-- **The server goes on.** -/
theorem RingInv.serverGo (I : RingInv s) {lowErr : Nat} {retval : R}
    (hguard : s.server = .returns → s.servDepth.natAbs < lowErr)
    (hmode : s.server = .answers → (s.slots s.out).mode = .call .sync →
      ∃ c, s.log[s.served]? = some c ∧ c.mode = .sync)
    (h : serverGo lowErr s retval = some s') : RingInv s' := by
  have ht := I.task
  have hs := I.server
  have hsync := I.sync
  have hbehind := hs.le
  cases hpc : s.server with
  | suspends =>
    rw [hpc] at ht hs hsync
    simp only [RtaiLinuxServer.serverGo, hpc] at h
    obtain ⟨h1, h2⟩ := hs
    split at h
    · next hd =>
        cases h
        refine ⟨I.nr, I.out, I.ids, ht, ⟨rfl, ?_⟩, hsync⟩
        show s.served = woken s
        omega
    · next hd =>
        cases h
        refine ⟨I.nr, I.out, I.ids, ht, ⟨?_, ?_⟩, hsync⟩
        · show (woken s : Int) = s.served + 1 - (s.servDepth + 1)
          omega
        · show s.servDepth + 1 ≤ 0
          omega
  | asleep =>
    simp only [RtaiLinuxServer.serverGo, hpc] at h
    exact nomatch h
  | ended =>
    rw [hpc] at hs
    exact hs.elim
  | returns =>
    rw [hpc] at ht hs hsync
    simp only [RtaiLinuxServer.serverGo, hpc, if_pos (hguard hpc)] at h
    cases h
    exact ⟨I.nr, I.out, I.ids, ht, hs, hsync⟩
  | tests =>
    rw [hpc] at ht hs hsync
    simp only [RtaiLinuxServer.serverGo, hpc] at h
    split at h
    · cases h
      exact ⟨I.nr, I.out, I.ids, ht.mono (le_refl _) (Nat.le_succ _), hs,
        fun k c hk hm ha => hsync k c hk hm (Nat.le_of_succ_le ha)⟩
    · cases h
      exact ⟨I.nr, I.out, I.ids, ht, hs, hsync⟩
  | runs =>
    rw [hpc] at ht hs hsync
    simp only [RtaiLinuxServer.serverGo, hpc] at h
    cases h
    exact ⟨I.nr, I.out, I.ids, ht, hs, hsync⟩
  | stores retval =>
    rw [hpc] at ht hs hsync
    simp only [RtaiLinuxServer.serverGo, hpc] at h
    cases h
    exact ⟨I.nr, I.out, I.ids, ht, hs, hsync⟩
  | marks retval =>
    rw [hpc] at ht hs hsync
    simp only [RtaiLinuxServer.serverGo, hpc] at h
    cases h
    exact ⟨I.nr, I.out, I.ids, ht, hs, hsync⟩
  | answers =>
    rw [hpc] at ht hs hsync
    simp only [RtaiLinuxServer.serverGo, hpc] at h
    split at h
    · next hm =>
        obtain ⟨c, hc, hcm⟩ := hmode hpc hm
        obtain ⟨hn, hwaits⟩ := hsync _ c hc hcm (le_refl _)
        rw [resumeTask_eq] at h
        cases h
        have hlt : s.served < wokenOf s.log.length s.task := by
          obtain ⟨h1, h2⟩ := hs
          have h3 : (wokenOf s.log.length s.task : Int) = s.served + 1 - s.servDepth := h1
          omega
        refine ⟨I.nr, I.out, I.ids, ht.answered hn hlt hwaits, ?_, fun k c hk hkm ha => ?_⟩
        · show ServerAt (wokenOf _ (rousedTask _ s.task)) _ _ _
          rw [wokenOf_roused]
          exact hs
        · -- the call that was answered was the last one
          have hlast := (hsync k c hk hkm (Nat.le_of_succ_le ha)).1
          have ha' : s.served + 1 ≤ k := ha
          have hlast' : k + 1 = s.log.length := hlast
          omega
    · cases h
      exact ⟨I.nr, I.out, I.ids, ht.mono (le_refl _) (Nat.le_succ _), hs,
        fun k c hk hm ha => hsync k c hk hm (Nat.le_of_succ_le ha)⟩
  | advances =>
    rw [hpc] at ht hs hsync
    simp only [RtaiLinuxServer.serverGo, hpc] at h
    cases h
    refine ⟨I.nr, ?_, I.ids, ht.mono (Nat.le_succ _) (le_refl _), ?_, hsync⟩
    · show advance s.nr s.out = _
      rw [I.out]
      exact advance_mod I.nr _
    · obtain ⟨h1, h2⟩ := hs
      refine ⟨?_, h2⟩
      show (woken s : Int) = (s.served + 1 : Nat) - s.servDepth
      omega

end Ring

/-! ## What the slots hold -/

/-- The calls whose end is noted. -/
def noted (served : Nat) : ServerPc R → Nat
  | .answers | .advances => served + 1
  | _ => served

/-- Call `k` of `n` has no id in its slot yet. -/
def naming (n k : Nat) : TaskPc A → Prop
  | .names _ => k + 1 = n
  | _ => False

/-- What the slot of a call has. -/
structure SlotAt (canceled : Bool) (result : Option R) (naming : Prop)
    (c : Call A) (v : Slot A R) : Prop where
  args : v.args = c.args
  mode : v.mode = if canceled then .canceled else .call c.mode
  id : ¬ naming → v.id = if result.isSome then -c.id else c.id
  retval : ∀ r, result = some r → v.retval = r

/-- The slots, as far as their contents go. -/
structure SlotInv (s : Server A R U) : Prop where
  ids : ∀ k c, s.log[k]? = some c → 0 ≤ c.id ∧ c.id < 2 ^ 31 ∧
    (c.mode = .async → 0 < c.id ∧ slotOf s c.id = k % s.nr)
  slots : ∀ k c, s.log[k]? = some c → Holds s k →
    SlotAt (s.canceled k) (s.results k) (naming s.log.length k s.task) c (s.slots (k % s.nr))
  results : ∀ k, s.results k ≠ none → k < noted s.served s.server
  skipped : ∀ k, s.skipped k → s.canceled k ∧ k < pastOf s.served s.server
  canceled : ∀ k, s.canceled k → k < s.log.length
  done : s.done = turns s.log s.skipped (pastOf s.served s.server)
  mark : ∀ r, s.server = .marks r → (s.slots s.out).retval = r
  name : ∀ from_, s.task = .names from_ → ∀ c,
    s.log[s.log.length - 1]? = some c → c.id = from_.id

section Turns

variable {log : List (Call A)} {skipped : Nat → Bool} {m : Nat}

theorem turns_append {c : Call A} (h : m ≤ log.length) :
    turns (log ++ [c]) skipped m = turns log skipped m := by
  refine List.filterMap_congr fun k hk => ?_
  have hlt : k < m := List.mem_range.mp (List.mem_filter.mp hk).1
  rw [List.getElem?_append_left (Nat.lt_of_lt_of_le hlt h)]

theorem turns_run {c : Call A} (hs : skipped m = false) (hc : log[m]? = some c) :
    turns log skipped (m + 1) = turns log skipped m ++ [(m, c.args)] := by
  have hkeep : (List.range (m + 1)).filter (fun k => !skipped k) =
      (List.range m).filter (fun k => !skipped k) ++ [m] := by
    rw [List.range_succ, List.filter_append]
    refine congrArg _ ?_
    rw [List.filter_singleton, hs]
    rfl
  rw [turns, hkeep, List.filterMap_append]
  refine congrArg _ ?_
  rw [List.filterMap_cons, hc]
  rfl

theorem turns_skip :
    turns log (Function.update skipped m true) (m + 1) = turns log skipped m := by
  have hkeep : (List.range (m + 1)).filter (fun k => !Function.update skipped m true k) =
      (List.range m).filter (fun k => !skipped k) := by
    rw [List.range_succ, List.filter_append]
    have hlast : [m].filter (fun k => !Function.update skipped m true k) = [] := by
      rw [List.filter_singleton, Function.update_self]
      rfl
    rw [hlast, List.append_nil]
    refine List.filter_congr fun k hk => ?_
    have hne : k ≠ m := Nat.ne_of_lt (List.mem_range.mp hk)
    rw [Function.update_of_ne hne]
  rw [turns, hkeep]
  rfl

end Turns

section Slots

variable {s s' : Server A R U} {o : Option Int}

theorem noted_roused {served : Nat} {depth : Int} {p : ServerPc R} :
    noted served (rousedServer depth p) = noted served p := by
  cases p with
  | asleep =>
    simp only [rousedServer]
    split <;> rfl
  | _ => rfl

theorem naming_roused {n k : Nat} {depth : Int} {p : TaskPc A} :
    naming n k (rousedTask depth p) ↔ naming n k p := by
  cases p with
  | asleep slot =>
    simp only [rousedTask]
    split <;> exact Iff.rfl
  | _ => exact Iff.rfl

theorem names_of_roused {depth : Int} {p : TaskPc A} {from_ : From}
    (h : rousedTask depth p = .names from_) : p = .names from_ := by
  cases p with
  | asleep slot =>
    simp only [rousedTask] at h
    split at h <;> exact nomatch h
  | _ => exact h

/-- The id of a call that has ended. -/
theorem toInt_neg {id : Int} (h0 : 0 ≤ id) (h1 : id < 2 ^ 31) : toInt (-id) = -id := by
  refine Int.bmod_eq_of_le (by omega) ?_
  omega

theorem marks_of_roused {depth : Int} {p : ServerPc R} {r : R}
    (h : rousedServer depth p = .marks r) : p = .marks r := by
  cases p with
  | asleep =>
    simp only [rousedServer] at h
    split at h <;> exact nomatch h
  | _ => exact h

omit decU in
/-- A step that leaves the slots. -/
theorem SlotInv.same (I : SlotInv s) (hnr : s'.nr = s.nr) (hlog : s'.log = s.log)
    (hslots : s'.slots = s.slots) (hout : s'.out = s.out)
    (hcan : s'.canceled = s.canceled) (hres : s'.results = s.results)
    (hskip : s'.skipped = s.skipped) (hdone : s'.done = s.done)
    (hpast : pastOf s'.served s'.server = pastOf s.served s.server)
    (hnoted : noted s'.served s'.server = noted s.served s.server)
    (hmark : ∀ r, s'.server = .marks r → s.server = .marks r)
    (hnaming : ∀ n k, naming n k s'.task ↔ naming n k s.task)
    (hname : ∀ from_, s'.task = .names from_ → s.task = .names from_) :
    SlotInv s' := by
  refine ⟨?_, ?_, ?_, ?_, ?_, ?_, ?_, ?_⟩
  · intro k c hk
    rw [hlog] at hk
    simp only [slotOf, hnr]
    exact I.ids k c hk
  · intro k c hk hh
    rw [hlog] at hk
    have hh' : Holds s k := by
      simp only [Holds, hlog, hnr] at hh
      exact hh
    have h := I.slots k c hk hh'
    rw [hcan, hres, hslots, hnr]
    exact ⟨h.args, h.mode, fun hn => h.id fun hm => hn
      (by rw [hlog]; exact (hnaming _ _).mpr hm), h.retval⟩
  · rw [hres, hnoted]
    exact I.results
  · rw [hskip, hcan, hpast]
    exact I.skipped
  · rw [hcan, hlog]
    exact I.canceled
  · rw [hdone, hlog, hskip, hpast]
    exact I.done
  · intro r hr
    rw [hslots, hout]
    exact I.mark r (hmark r hr)
  · intro from_ hf c hc
    rw [hlog] at hc
    exact I.name from_ (hname from_ hf) c hc

/-- A server that has taken up or answered a call has been woken for it. -/
theorem ServerAt.busy {w served : Nat} {depth : Int} {p : ServerPc R}
    (h : ServerAt w served depth p) :
    pastOf served p ≤ w ∧ noted served p ≤ w := by
  have hle := h.le
  cases p with
  | suspends => exact ⟨hle, hle⟩
  | asleep => exact ⟨hle, hle⟩
  | ended => exact h.elim
  | returns => exact ⟨hle, hle⟩
  | tests => exact ⟨hle, hle⟩
  | runs => exact ⟨hle, hle⟩
  | _ =>
    obtain ⟨h1, h2⟩ := h
    have hlt : served + 1 ≤ w := by omega
    exact ⟨hlt, by first | exact hlt | exact hle⟩

/-- There are never more calls than slots. -/
theorem TaskAt.room {nr n served ans in_ : Nat} {id depth : Int} {p : TaskPc A}
    (h : TaskAt nr n served ans in_ id depth p) (hnr : 2 ≤ nr)
    (ha : ans ≤ served + 1) : n ≤ served + nr := by
  cases p with
  | out =>
    have := h.2.1
    omega
  | fills args from_ =>
    have := h.2.2.2.1
    omega
  | names from_ => exact h.2.2.2.1
  | puts from_ => exact h.2.2.2.1
  | wakes from_ => exact h.2.2.1
  | suspends slot => exact h.2.1
  | asleep slot => exact h.2.1
  | reads slot =>
    have := h.2.1
    omega

omit decU in
theorem RingInv.room (I : RingInv s) : s.log.length ≤ s.served + s.nr :=
  I.task.room I.nr answered_le

omit decU in
/-- The call that the server is at is in its slot. -/
theorem RingInv.holds (I : RingInv s) (h : s.served < woken s) : Holds s s.served :=
  ⟨Nat.lt_of_lt_of_le h (wokenOf_le _), I.room⟩

omit decU in
/-- The slot of the server and the call in it. -/
theorem SlotInv.atServer (J : SlotInv s) (I : RingInv s) (h : s.served < woken s) :
    ∃ c, s.log[s.served]? = some c ∧ SlotAt (s.canceled s.served) (s.results s.served)
        (naming s.log.length s.served s.task) c (s.slots s.out) ∧
      ¬ naming s.log.length s.served s.task := by
  have hh := I.holds h
  have hc := List.getElem?_eq_getElem hh.1
  refine ⟨_, hc, ?_, ?_⟩
  · rw [I.out]
    exact J.slots _ _ hc hh
  · intro hn
    simp only [woken] at h
    cases hpc : s.task with
    | names from_ =>
      rw [hpc] at hn h
      have hn' : s.served + 1 = s.log.length := hn
      have hlt : s.served < s.log.length - 1 := h
      omega
    | _ =>
      rw [hpc] at hn
      exact hn.elim

omit decU in
/-- **A slot is filled** with a new call. -/
theorem SlotInv.fill (J : SlotInv s) (I : RingInv s) {args : A} {from_ : From}
    (hpc : s.task = .fills args from_)
    (hguard : from_.mode = .async → from_.id ≠ 0 ∧ slotOf s from_.id = from_.slot) :
    SlotInv { s.setSlot from_.slot { s.slots from_.slot with
        args := args
        mode := .call from_.mode } with
      task := .names from_
      log := s.log ++ [⟨args, from_.id, from_.mode⟩] } := by
  have ht := I.task
  obtain ⟨hpast, hnoted⟩ := I.server.busy
  rw [hpc] at ht
  obtain ⟨-, hslot, hid, hroom, -, -⟩ := ht
  have hw : woken s = s.log.length := by
    simp only [woken, hpc]
    rfl
  rw [hw] at hpast hnoted
  have hlen : (s.log ++ [(⟨args, from_.id, from_.mode⟩ : Call A)]).length =
      s.log.length + 1 := by
    rw [List.length_append]
    rfl
  have hcall : ∀ k c, (s.log ++ [⟨args, from_.id, from_.mode⟩])[k]? = some c →
      s.log[k]? = some c ∨ k = s.log.length ∧ c = ⟨args, from_.id, from_.mode⟩ := by
    intro k c hk
    rcases Nat.lt_or_ge k s.log.length with hlt | hge
    · rw [List.getElem?_append_left hlt] at hk
      exact Or.inl hk
    · have hkn : k = s.log.length := by
        have := (List.getElem?_eq_some_iff.mp hk).1
        omega
      subst hkn
      rw [List.getElem?_concat_length] at hk
      exact Or.inr ⟨rfl, (Option.some.inj hk).symm⟩
  obtain ⟨h0, h1⟩ := I.ids
  refine ⟨fun k c hk => ?_, fun k c hk hh => ?_, J.results, J.skipped,
    fun k hk => ?_, ?_, fun r hr => ?_, fun f hf c hc => ?_⟩
  · rcases hcall k c hk with hk | ⟨rfl, rfl⟩
    · exact J.ids k c hk
    · refine ⟨hid ▸ h0, hid ▸ h1, fun hm => ?_⟩
      obtain ⟨hne, hal⟩ := hguard hm
      refine ⟨lt_of_le_of_ne (hid ▸ h0) hne.symm, hal.trans hslot⟩
  · show SlotAt (s.canceled k) (s.results k) _ c
      (Function.update s.slots from_.slot _ (k % s.nr))
    have hnew : Holds { s with log := s.log ++ [⟨args, from_.id, from_.mode⟩] }
        k := hh
    obtain ⟨hk1, hk2⟩ := hnew
    rw [hlen] at hk1 hk2
    replace hk2 : s.log.length + 1 ≤ k + s.nr := hk2
    rcases hcall k c hk with hk | ⟨rfl, rfl⟩
    · -- an earlier call is in another slot
      have hlt := (List.getElem?_eq_some_iff.mp hk).1
      have hne : k % s.nr ≠ from_.slot := by
        rw [hslot]
        intro heq
        have := eq_of_mod heq (by omega) (by omega)
        omega
      rw [Function.update_of_ne hne]
      have hold := J.slots k c hk ⟨hlt, by omega⟩
      refine ⟨hold.args, hold.mode, fun _ => hold.id ?_, hold.retval⟩
      rw [hpc]
      exact fun h => h
    · rw [← hslot, Function.update_self]
      have hcan : s.canceled s.log.length = false := by
        rw [Bool.eq_false_iff]
        intro hc
        exact Nat.lt_irrefl _ (J.canceled _ hc)
      refine ⟨rfl, ?_, fun hn => absurd hlen.symm hn, fun r hr => ?_⟩
      · show SlotMode.call from_.mode = _
        rw [hcan]
        rfl
      · have hres := J.results s.log.length (hr ▸ nofun)
        omega
  · show k < (s.log ++ [(⟨args, from_.id, from_.mode⟩ : Call A)]).length
    rw [hlen]
    exact Nat.lt_succ_of_lt (J.canceled k hk)
  · exact J.done.trans (turns_append hpast).symm
  · show (Function.update s.slots from_.slot _ s.out).retval = r
    have hm := J.mark r hr
    by_cases hs : s.out = from_.slot
    · rw [← hs, Function.update_self]
      exact hm
    · rw [Function.update_of_ne hs]
      exact hm
  · cases hf
    replace hc : (s.log ++ [(⟨args, from_.id, from_.mode⟩ : Call A)])[
        (s.log ++ [(⟨args, from_.id, from_.mode⟩ : Call A)]).length - 1]? =
        some c := hc
    rw [hlen, Nat.add_sub_cancel, List.getElem?_concat_length] at hc
    cases hc
    rfl

omit decU in
/-- **A call gets its id.** -/
theorem SlotInv.rename (J : SlotInv s) (I : RingInv s) {from_ : From}
    (hpc : s.task = .names from_) :
    SlotInv { s.setSlot from_.slot { s.slots from_.slot with id := from_.id }
      with task := .puts from_ } := by
  have ht := I.task
  obtain ⟨-, hnoted⟩ := I.server.busy
  rw [hpc] at ht
  obtain ⟨hpos, hslot, -, -, -, -⟩ := ht
  have hw : woken s = s.log.length - 1 := by
    simp only [woken, hpc]
    rfl
  rw [hw] at hnoted
  refine ⟨J.ids, fun k c hk hh => ?_, J.results, J.skipped, J.canceled, J.done,
    fun r hr => ?_, nofun⟩
  · show SlotAt (s.canceled k) (s.results k) _ c
      (Function.update s.slots from_.slot _ (k % s.nr))
    have hold := J.slots k c hk hh
    by_cases hlast : k = s.log.length - 1
    · subst hlast
      rw [← hslot, Function.update_self]
      rw [← hslot] at hold
      refine ⟨hold.args, hold.mode, fun _ => ?_, hold.retval⟩
      have hnone : s.results (s.log.length - 1) = none := by
        by_contra hr
        have := J.results _ hr
        omega
      rw [hnone]
      exact (J.name from_ hpc c hk).symm
    · have hne : k % s.nr ≠ from_.slot := by
        rw [hslot]
        intro heq
        have hh2 : s.log.length ≤ k + s.nr := hh.2
        have hh1 : k < s.log.length := hh.1
        exact hlast (eq_of_mod heq (by omega) (by omega))
      rw [Function.update_of_ne hne]
      refine ⟨hold.args, hold.mode, fun _ => hold.id ?_, hold.retval⟩
      rw [hpc]
      intro hn
      have hn' : k + 1 = s.log.length := hn
      omega
  · show (Function.update s.slots from_.slot _ s.out).retval = r
    have hm := J.mark r hr
    by_cases hs : s.out = from_.slot
    · rw [← hs, Function.update_self]
      exact hm
    · rw [Function.update_of_ne hs]
      exact hm

omit decU in
/-- **The task goes on.** -/
theorem SlotInv.taskGo (J : SlotInv s) (I : RingInv s) {owns : Bool}
    (hguard : ∀ args from_, s.task = .fills args from_ →
      from_.mode = .async → from_.id ≠ 0 ∧ slotOf s from_.id = from_.slot)
    (h : taskGo s owns = some (s', o)) : SlotInv s' := by
  cases hpc : s.task with
  | out =>
    simp only [RtaiLinuxServer.taskGo, hpc] at h
    exact nomatch h
  | fills args from_ =>
    simp only [RtaiLinuxServer.taskGo, hpc] at h
    cases h
    exact J.fill I hpc (hguard args from_ hpc)
  | names from_ =>
    simp only [RtaiLinuxServer.taskGo, hpc] at h
    cases h
    exact J.rename I hpc
  | puts from_ =>
    simp only [RtaiLinuxServer.taskGo, hpc] at h
    cases h
    exact J.same rfl rfl rfl rfl rfl rfl rfl rfl rfl rfl (fun _ h => h)
      (fun _ _ => by rw [hpc]; exact Iff.rfl) nofun
  | wakes from_ =>
    simp only [RtaiLinuxServer.taskGo, hpc] at h
    have J' : ∀ p, (∀ n k, naming n k p ↔ False) → (∀ from_, p ≠ .names from_) →
        SlotInv { s with
          servDepth := s.servDepth - 1
          server := rousedServer (s.servDepth - 1) s.server
          task := p } := by
      intro p hp hp'
      refine J.same rfl rfl rfl rfl rfl rfl rfl rfl pastOf_roused noted_roused
        (fun r hr => ?_) (fun n k => ?_) fun f hf => absurd hf (hp' f)
      · exact marks_of_roused hr
      · rw [hpc]
        exact hp n k
    have hdepth : s.servDepth ≥ -(s.nr : Int) :=
      I.server.depth_ge ((wokenOf_le _).trans I.room)
    rw [if_pos hdepth, resumeServer_eq] at h
    cases hm : from_.mode with
    | sync =>
      rw [hm] at h
      cases h
      exact J' (.suspends from_.slot) (fun _ _ => Iff.rfl) fun _ => nofun
    | async =>
      rw [hm] at h
      cases h
      exact J' .out (fun _ _ => Iff.rfl) fun _ => nofun
  | suspends slot =>
    simp only [RtaiLinuxServer.taskGo, hpc] at h
    split at h
    · cases h
      exact J.same rfl rfl rfl rfl rfl rfl rfl rfl rfl rfl (fun _ h => h)
        (fun _ _ => by rw [hpc]; exact Iff.rfl) nofun
    · cases h
      exact J.same rfl rfl rfl rfl rfl rfl rfl rfl rfl rfl (fun _ h => h)
        (fun _ _ => by rw [hpc]; exact Iff.rfl) nofun
  | asleep slot =>
    simp only [RtaiLinuxServer.taskGo, hpc] at h
    exact nomatch h
  | reads slot =>
    simp only [RtaiLinuxServer.taskGo, hpc] at h
    cases h
    exact J.same rfl rfl rfl rfl rfl rfl rfl rfl rfl rfl (fun _ h => h)
      (fun _ _ => by rw [hpc]; exact Iff.rfl) nofun

omit decU in
/-- A store of the server into its slot. -/
theorem SlotInv.put (J : SlotInv s) (I : RingInv s) (h : s.served < woken s)
    {v : Slot A R} {res : Nat → Option R}
    (hres : ∀ k, k ≠ s.served → res k = s.results k)
    (hv : ∀ c, s.log[s.served]? = some c → SlotAt (s.canceled s.served) (s.results s.served)
        (naming s.log.length s.served s.task) c (s.slots s.out) →
      SlotAt (s.canceled s.served) (res s.served) (naming s.log.length s.served s.task) c v) :
    ∀ k c, s.log[k]? = some c → Holds s k →
      SlotAt (s.canceled k) (res k) (naming s.log.length k s.task) c
        (Function.update s.slots s.out v (k % s.nr)) := by
  intro k c hk hh
  have hold := J.slots k c hk hh
  by_cases hks : k = s.served
  · subst hks
    rw [← I.out] at hold ⊢
    rw [Function.update_self]
    exact hv c hk hold
  · have hne : k % s.nr ≠ s.out := by
      rw [I.out]
      exact fun heq => hks (Holds.unique hh (I.holds h) heq)
    rw [Function.update_of_ne hne, hres k hks]
    exact hold

omit decU in
/-- **The server goes on.** -/
theorem SlotInv.serverGo (J : SlotInv s) (I : RingInv s) {lowErr : Nat}
    {retval : R} (h : serverGo lowErr s retval = some s') : SlotInv s' := by
  have hs := I.server
  cases hpc : s.server with
  | suspends =>
    simp only [RtaiLinuxServer.serverGo, hpc] at h
    split at h
    · cases h
      exact J.same rfl rfl rfl rfl rfl rfl rfl rfl (by rw [hpc]; rfl)
        (by rw [hpc]; rfl) nofun (fun _ _ => Iff.rfl) fun _ h => h
    · cases h
      exact J.same rfl rfl rfl rfl rfl rfl rfl rfl (by rw [hpc]; rfl)
        (by rw [hpc]; rfl) nofun (fun _ _ => Iff.rfl) fun _ h => h
  | asleep =>
    simp only [RtaiLinuxServer.serverGo, hpc] at h
    exact nomatch h
  | ended =>
    simp only [RtaiLinuxServer.serverGo, hpc] at h
    exact nomatch h
  | returns =>
    simp only [RtaiLinuxServer.serverGo, hpc] at h
    split at h
    · cases h
      exact J.same rfl rfl rfl rfl rfl rfl rfl rfl (by rw [hpc]; rfl)
        (by rw [hpc]; rfl) nofun (fun _ _ => Iff.rfl) fun _ h => h
    · cases h
      exact J.same rfl rfl rfl rfl rfl rfl rfl rfl (by rw [hpc]; rfl)
        (by rw [hpc]; rfl) nofun (fun _ _ => Iff.rfl) fun _ h => h
  -- the call in the slot may have been cancelled
  | tests =>
    rw [hpc] at hs
    have hlt : s.served < woken s := by
      obtain ⟨h1, h2⟩ := hs
      omega
    obtain ⟨c, hc, hat, -⟩ := J.atServer I hlt
    simp only [RtaiLinuxServer.serverGo, hpc] at h
    split at h
    · next hmode =>
        cases h
        have hcan : s.canceled s.served = true := by
          have := hat.mode
          rw [hmode] at this
          by_contra hno
          rw [if_neg hno] at this
          exact nomatch this
        have hdone := J.done
        rw [hpc] at hdone
        refine ⟨J.ids, J.slots, fun k hk => ?_, fun k hk => ?_, J.canceled, ?_, nofun, J.name⟩
        · have hr := J.results k hk
          rw [hpc] at hr
          exact Nat.lt_succ_of_lt hr
        · show s.canceled k ∧ k < s.served + 1
          by_cases hks : k = s.served
          · subst hks
            exact ⟨hcan, Nat.lt_succ_self _⟩
          · replace hk : Function.update s.skipped s.served true k := hk
            rw [Function.update_of_ne hks] at hk
            obtain ⟨h1, h2⟩ := J.skipped k hk
            rw [hpc] at h2
            exact ⟨h1, Nat.lt_succ_of_lt h2⟩
        · exact hdone.trans turns_skip.symm
    · cases h
      exact J.same rfl rfl rfl rfl rfl rfl rfl rfl (by rw [hpc]; rfl)
        (by rw [hpc]; rfl) nofun (fun _ _ => Iff.rfl) fun _ h => h
  -- the call is done here, and is the next of the log
  | runs =>
    rw [hpc] at hs
    have hlt : s.served < woken s := by
      obtain ⟨h1, h2⟩ := hs
      omega
    obtain ⟨c, hc, hat, -⟩ := J.atServer I hlt
    simp only [RtaiLinuxServer.serverGo, hpc] at h
    cases h
    have hdone := J.done
    rw [hpc] at hdone
    have hkept : s.skipped s.served = false := by
      rw [Bool.eq_false_iff]
      intro hk
      have h2 := (J.skipped _ hk).2
      rw [hpc] at h2
      exact Nat.lt_irrefl _ h2
    refine ⟨J.ids, J.slots, fun k hk => ?_, fun k hk => ?_, J.canceled, ?_, nofun, J.name⟩
    · have hr := J.results k hk
      rw [hpc] at hr
      exact hr
    · obtain ⟨h1, h2⟩ := J.skipped k hk
      rw [hpc] at h2
      exact ⟨h1, Nat.lt_succ_of_lt h2⟩
    · show s.done ++ [(s.served, (s.slots s.out).args)] = turns s.log s.skipped (s.served + 1)
      rw [turns_run hkept hc, hat.args, hdone]
      rfl
  | stores retval =>
    rw [hpc] at hs
    have hlt : s.served < woken s := by
      obtain ⟨h1, h2⟩ := hs
      omega
    simp only [RtaiLinuxServer.serverGo, hpc] at h
    cases h
    have hnone : s.results s.served = none := by
      by_contra hr
      have hr := J.results _ hr
      rw [hpc] at hr
      exact Nat.lt_irrefl _ hr
    refine ⟨J.ids, ?_, fun k hk => ?_, fun k hk => ?_, J.canceled, ?_, ?_, J.name⟩
    · refine J.put I hlt (fun _ _ => rfl) fun c _ hat => ?_
      refine ⟨hat.args, hat.mode, hat.id, fun r hr => ?_⟩
      exact nomatch hnone.symm.trans hr
    · have hr := J.results k hk
      rw [hpc] at hr
      exact hr
    · have h2 := J.skipped k hk
      rw [hpc] at h2
      exact h2
    · have hdone := J.done
      rw [hpc] at hdone
      exact hdone
    · intro r hr
      cases hr
      show (Function.update s.slots s.out _ s.out).retval = retval
      rw [Function.update_self]
  -- the slot is free again only after this store
  | marks retval =>
    rw [hpc] at hs
    have hlt : s.served < woken s := by
      obtain ⟨h1, h2⟩ := hs
      omega
    obtain ⟨c, hc, -, hnaming⟩ := J.atServer I hlt
    simp only [RtaiLinuxServer.serverGo, hpc] at h
    cases h
    have hnone : s.results s.served = none := by
      by_contra hr
      have hr := J.results _ hr
      rw [hpc] at hr
      exact Nat.lt_irrefl _ hr
    refine ⟨J.ids, ?_, fun k hk => ?_, fun k hk => ?_, J.canceled, ?_, nofun, J.name⟩
    · refine J.put I hlt (fun k hk => Function.update_of_ne hk ..) fun c hc hat => ?_
      show SlotAt _ (Function.update s.results s.served (some retval) s.served)
        _ c _
      rw [Function.update_self]
      refine ⟨hat.args, hat.mode, fun _ => ?_, fun r hr => ?_⟩
      · -- the id has been positive or 0 so far
        obtain ⟨h0, h1, -⟩ := J.ids _ c hc
        have hid := hat.id hnaming
        rw [hnone] at hid
        show toInt (-(s.slots s.out).id) = -c.id
        rw [hid]
        exact toInt_neg h0 h1
      · cases hr
        exact J.mark retval hpc
    · show k < s.served + 1
      by_cases hks : k = s.served
      · omega
      · replace hk : Function.update s.results s.served (some retval) k ≠ none :=
          hk
        rw [Function.update_of_ne hks] at hk
        have hr := J.results k hk
        rw [hpc] at hr
        exact Nat.lt_succ_of_lt hr
    · have h2 := J.skipped k hk
      rw [hpc] at h2
      exact h2
    · have hdone := J.done
      rw [hpc] at hdone
      exact hdone
  | answers =>
    simp only [RtaiLinuxServer.serverGo, hpc] at h
    split at h
    · rw [resumeTask_eq] at h
      cases h
      exact J.same rfl rfl rfl rfl rfl rfl rfl rfl (by rw [hpc]; rfl)
        (by rw [hpc]; rfl) nofun (fun _ _ => naming_roused) fun _ =>
        names_of_roused
    · cases h
      exact J.same rfl rfl rfl rfl rfl rfl rfl rfl (by rw [hpc]; rfl)
        (by rw [hpc]; rfl) nofun (fun _ _ => Iff.rfl) fun _ h => h
  | advances =>
    simp only [RtaiLinuxServer.serverGo, hpc] at h
    cases h
    refine ⟨J.ids, J.slots, fun k hk => ?_, fun k hk => ?_, J.canceled, ?_, nofun, J.name⟩
    · have hr := J.results k hk
      rw [hpc] at hr
      exact hr
    · have h2 := J.skipped k hk
      rw [hpc] at h2
      exact h2
    · have hdone := J.done
      rw [hpc] at hdone
      exact hdone

/-- **A call is cancelled.** -/
theorem SlotInv.cancelEnd (J : SlotInv s) (I : RingInv s) {u : U}
    (hguard : ∀ id, s.canceling u = some id → id = (s.slots (slotOf s id)).id.natAbs ∧
        ∀ from_, s.task = .names from_ → from_.slot ≠ slotOf s id)
    (h : cancelEnd s u = some (s', o)) : SlotInv s' := by
  cases hu : s.canceling u with
  | none =>
    simp only [RtaiLinuxServer.cancelEnd, hu] at h
    exact nomatch h
  | some id =>
    obtain ⟨hid, hfree⟩ := hguard id hu
    simp only [RtaiLinuxServer.cancelEnd, hu] at h
    cases h
    refine ⟨J.ids, fun k c hk hh => ?_, J.results, fun k hk => ?_,
      fun k hk => ?_, J.done, fun r hr => ?_, J.name⟩
    · replace hk : s.log[k]? = some c := hk
      have hold := J.slots k c hk hh
      show SlotAt (s.canceled k || decide (IsCall s (slotOf s id) id k))
        (s.results k) _ c (Function.update s.slots (slotOf s id) _ (k % s.nr))
      by_cases hslot : k % s.nr = slotOf s id
      · rw [← hslot, Function.update_self]
        have hnaming : ¬ naming s.log.length k s.task := by
          intro hn
          cases hpc : s.task with
          | names from_ =>
            rw [hpc] at hn
            have ht := I.task
            rw [hpc] at ht
            have hn' : k + 1 = s.log.length := hn
            refine hfree from_ hpc ?_
            rw [ht.2.1, ← hslot, ← hn', Nat.add_sub_cancel]
          | _ =>
            rw [hpc] at hn
            exact hn.elim
        -- the slot has the id of the call, so it is the call
        have hcid : c.id = id := by
          obtain ⟨h0, -, -⟩ := J.ids k c hk
          have hv := hold.id hnaming
          rw [hslot] at hv
          rw [hid, hv]
          split
          · omega
          · omega
        have hcall : IsCall s (k % s.nr) id k := by
          refine ⟨hh, rfl, ?_⟩
          rw [hk]
          exact decide_eq_true hcid
        rw [decide_eq_true hcall, Bool.or_true]
        exact ⟨hold.args, rfl, hold.id, hold.retval⟩
      · have hno : ¬ IsCall s (slotOf s id) id k := fun h => hslot h.2.1
        rw [Function.update_of_ne hslot, decide_eq_false hno, Bool.or_false]
        exact hold
    · obtain ⟨h1, h2⟩ := J.skipped k hk
      refine ⟨?_, h2⟩
      show (s.canceled k || decide (IsCall s (slotOf s id) id k)) = true
      rw [h1, Bool.true_or]
    · replace hk : (s.canceled k || decide (IsCall s (slotOf s id) id k)) =
        true := hk
      rcases Bool.or_eq_true_iff.mp hk with hk | hk
      · exact J.canceled k hk
      · exact (of_decide_eq_true hk).1.1
    · show (Function.update s.slots (slotOf s id) _ s.out).retval = r
      have hm := J.mark r hr
      by_cases hs : s.out = slotOf s id
      · rw [← hs, Function.update_self]
        exact hm
      · rw [Function.update_of_ne hs]
        exact hm

end Slots

/-! ## Runs -/

/-- The task is in a synchronous call that it has put into the ring. -/
def inSync : TaskPc A → Prop
  | .names from_ | .puts from_ | .wakes from_ => from_.mode = .sync
  | .suspends _ | .asleep _ => True
  | _ => False

/-- It is the last one. -/
def LastSync (s : Server A R U) : Prop :=
  inSync s.task → ∀ c, s.log[s.log.length - 1]? = some c → c.mode = .sync

section Runs

variable {s s' : Server A R U} {o : Option Int} {lowErr : Nat}

omit decU in
theorem LastSync.taskGo (K : LastSync s) {owns : Bool}
    (h : taskGo s owns = some (s', o)) : LastSync s' := by
  have hr : (resumeServer s).task = s.task ∧ (resumeServer s).log = s.log := by
    rw [resumeServer_eq]
    exact ⟨rfl, rfl⟩
  cases hpc : s.task with
  | out =>
    simp only [RtaiLinuxServer.taskGo, hpc] at h
    exact nomatch h
  | fills args from_ =>
    simp only [RtaiLinuxServer.taskGo, hpc] at h
    cases h
    intro hm c hc
    replace hc : (s.log ++ [(⟨args, from_.id, from_.mode⟩ : Call A)])[
      (s.log ++ [(⟨args, from_.id, from_.mode⟩ : Call A)]).length - 1]? =
      some c := hc
    rw [List.length_append, List.length_singleton, Nat.add_sub_cancel,
      List.getElem?_concat_length] at hc
    cases hc
    exact hm
  | names from_ =>
    simp only [RtaiLinuxServer.taskGo, hpc] at h
    cases h
    rw [LastSync, hpc] at K
    exact K
  | puts from_ =>
    simp only [RtaiLinuxServer.taskGo, hpc] at h
    cases h
    rw [LastSync, hpc] at K
    exact K
  | wakes from_ =>
    simp only [RtaiLinuxServer.taskGo, hpc] at h
    rw [LastSync, hpc] at K
    have hlog : (if s.servDepth ≥ -(s.nr : Int) then resumeServer s
        else s).log = s.log := by
      split
      · exact hr.2
      · rfl
    cases hm : from_.mode with
    | sync =>
      rw [hm] at h
      cases h
      intro _ c hc
      refine K hm c ?_
      rw [← hlog]
      exact hc
    | async =>
      rw [hm] at h
      cases h
      exact fun h => h.elim
  | suspends slot =>
    rw [LastSync, hpc] at K
    simp only [RtaiLinuxServer.taskGo, hpc] at h
    split at h
    · cases h
      exact K
    · cases h
      exact fun h => h.elim
  | asleep slot =>
    simp only [RtaiLinuxServer.taskGo, hpc] at h
    exact nomatch h
  | reads slot =>
    simp only [RtaiLinuxServer.taskGo, hpc] at h
    cases h
    exact fun h => h.elim

omit decU in
theorem LastSync.serverGo (K : LastSync s) {retval : R}
    (h : serverGo lowErr s retval = some s') : LastSync s' := by
  have hkeep : s'.log = s.log ∧ (inSync s'.task → inSync s.task) := by
    simp only [RtaiLinuxServer.serverGo] at h
    split at h
    · split at h <;> cases h <;> exact ⟨rfl, fun h => h⟩
    · exact nomatch h
    · exact nomatch h
    · cases h
      exact ⟨rfl, fun h => h⟩
    · split at h <;> cases h <;> exact ⟨rfl, fun h => h⟩
    · cases h
      exact ⟨rfl, fun h => h⟩
    · cases h
      exact ⟨rfl, fun h => h⟩
    · cases h
      exact ⟨rfl, fun h => h⟩
    · split at h
      · rw [resumeTask_eq] at h
        cases h
        refine ⟨rfl, fun h => ?_⟩
        cases hpc : s.task with
        | asleep slot => trivial
        | _ =>
          rw [hpc] at h
          exact h
      · cases h
        exact ⟨rfl, fun h => h⟩
    · cases h
      exact ⟨rfl, fun h => h⟩
  intro hsync c hc
  rw [hkeep.1] at hc
  exact K (hkeep.2 hsync) c hc

/-- The whole invariant. -/
structure ServerInv (s : Server A R U) : Prop where
  ring : RingInv s
  slots : SlotInv s
  last : LastSync s

/-- **ONE STEP**. -/
theorem ServerInv.step (V : ServerInv s) {a : ServerAction A R U}
    (hguard : Plain lowErr s a) (h : serverStep lowErr s a = some (s', o)) :
    ServerInv s' := by
  obtain ⟨I, J, K⟩ := V
  cases a with
  | exec args =>
    have I' := I.exec h
    cases hpc : s.task with
    | out =>
      simp only [serverStep, RtaiLinuxServer.exec, hpc] at h
      split at h
      · cases h
        exact ⟨I, J, K⟩
      · cases h
        exact ⟨I', J.same rfl rfl rfl rfl rfl rfl rfl rfl rfl rfl
          (fun _ h => h) (fun _ _ => by rw [hpc]; exact Iff.rfl) nofun,
          fun h => h.elim⟩
    | _ =>
      simp only [serverStep, RtaiLinuxServer.exec, hpc] at h
      exact nomatch h
  | task owns =>
    refine ⟨I.taskGo (fun slot hpc => ?_) h,
      J.taskGo I (fun args from_ hpc => ?_) h, K.taskGo h⟩
    · simp only [Plain, hpc] at hguard
      exact hguard
    · simp only [Plain, hpc] at hguard
      exact hguard
  | server retval =>
    obtain ⟨t, ht, h⟩ := Option.bind_eq_some_iff.mp h
    cases h
    refine ⟨I.serverGo (fun hpc => ?_) (fun hpc hm => ?_) ht, J.serverGo I ht, K.serverGo ht⟩
    · simp only [Plain, hpc] at hguard
      exact hguard
    · have hs := I.server
      rw [hpc] at hs
      have hlt : s.served < woken s := by
        obtain ⟨h1, h2⟩ := hs
        omega
      obtain ⟨c, hc, hat, -⟩ := J.atServer I hlt
      refine ⟨c, hc, ?_⟩
      have hmode := hat.mode
      rw [hm] at hmode
      split at hmode
      · exact nomatch hmode
      · exact (SlotMode.call.inj hmode).symm
  | cancel u id =>
    simp only [serverStep, cancelBegin] at h
    split at h
    · exact nomatch h
    · split at h
      · cases h
        exact ⟨I, J, K⟩
      · split at h
        · cases h
          exact ⟨I, J, K⟩
        · split at h
          · cases h
            exact ⟨I, J, K⟩
          · cases h
            exact ⟨⟨I.nr, I.out, I.ids, I.task, I.server, I.sync⟩,
              J.same rfl rfl rfl rfl rfl rfl rfl rfl rfl rfl (fun _ h => h)
                (fun _ _ => Iff.rfl) fun _ h => h, K⟩
  | cancelEnd u =>
    have J' := J.cancelEnd I (fun id hu => ?_) h
    · cases hu : s.canceling u with
      | none =>
        simp only [serverStep, RtaiLinuxServer.cancelEnd, hu] at h
        exact nomatch h
      | some id =>
        simp only [serverStep, RtaiLinuxServer.cancelEnd, hu] at h
        cases h
        exact ⟨⟨I.nr, I.out, I.ids, I.task, I.server, I.sync⟩, J', K⟩
    · simp only [Plain, hu] at hguard
      refine ⟨hguard.1, fun from_ hpc => ?_⟩
      have hfree := hguard.2
      rw [hpc] at hfree
      exact hfree
  | setMode mode =>
    cases h
    exact ⟨⟨I.nr, I.out, I.ids, I.task, I.server, I.sync⟩,
      J.same rfl rfl rfl rfl rfl rfl rfl rfl rfl rfl (fun _ h => h)
        (fun _ _ => Iff.rfl) fun _ h => h, K⟩

omit decU in
theorem serverInv_create (args : A) (retval : R) {nrCalls : Nat}
    (hn : 0 < nrCalls) (mode : SyscallMode) :
    ServerInv (create args retval nrCalls mode : Server A R U) := by
  have hempty : ∀ {k : Nat} {c : Call A}, ([] : List (Call A))[k]? ≠ some c :=
    fun h => nomatch h
  refine ⟨⟨Nat.succ_le_succ hn, (Nat.zero_mod _).symm, ⟨le_refl _, (by decide : (0 : Int) < 2 ^ 31)⟩,
    ⟨(Nat.zero_mod _).symm, ?_, rfl⟩, ⟨rfl, le_refl _⟩,
    fun _ _ h => absurd h hempty⟩, ?_, fun h => h.elim⟩
  · show 0 + 1 ≤ 0 + (nrCalls + 1)
    omega
  · exact ⟨fun _ _ h => absurd h hempty, fun _ _ h => absurd h hempty,
      fun _ h => absurd rfl h, fun _ h => (nomatch h), fun _ h => (nomatch h), rfl,
      nofun, nofun⟩

/-- A ring that has no slot left has a synchronous call in it. -/
theorem TaskAt.full {nr n served ans in_ : Nat} {id depth : Int} {p : TaskPc A}
    (h : TaskAt nr n served ans in_ id depth p) (hnr : 2 ≤ nr)
    (ha : ans ≤ served + 1) (hn : n = served + nr) : inSync p := by
  cases p with
  | out =>
    have := h.2.1
    omega
  | fills args from_ =>
    have := h.2.2.2.1
    omega
  | names from_ =>
    have hasync := h.2.2.2.2.1
    cases hm : from_.mode with
    | sync => exact hm
    | async =>
      have := hasync hm
      omega
  | puts from_ =>
    have hasync := h.2.2.2.2.1
    cases hm : from_.mode with
    | sync => exact hm
    | async =>
      have := hasync hm
      omega
  | wakes from_ =>
    have hasync := h.2.2.2.1
    cases hm : from_.mode with
    | sync => exact hm
    | async =>
      have := hasync hm
      omega
  | suspends slot => trivial
  | asleep slot => trivial
  | reads slot =>
    have := h.2.1
    omega

omit decU in
theorem outstanding_le : outstanding s ≤ s.log.length - s.served := by
  have h := List.countP_le_length (l := s.log.drop s.served) (p := fun c => c.mode = .async)
  rw [List.length_drop] at h
  exact h

omit decU in
/-- **There is room** for the asynchronous calls. -/
theorem ServerInv.bound (V : ServerInv s) : outstanding s ≤ s.nr - 1 := by
  obtain ⟨I, -, K⟩ := V
  have hnr := I.nr
  have hroom := I.room
  have hle := outstanding_le (s := s)
  by_contra hgt
  have hn : s.log.length = s.served + s.nr := by omega
  -- all the calls would be asynchronous, and the last one is not
  have hall : (s.log.drop s.served).countP (fun c => c.mode = .async) =
      (s.log.drop s.served).length := by
    have hout : outstanding s = s.log.length - s.served := by omega
    rw [List.length_drop]
    exact hout
  have hsync := I.task.full hnr answered_le hn
  have hlt : s.log.length - 1 < s.log.length := by omega
  have hlast := List.getElem?_eq_getElem hlt
  have hm := K hsync _ hlast
  have hmem : s.log[s.log.length - 1] ∈ s.log.drop s.served := by
    refine List.mem_drop_iff_getElem.mpr ⟨s.log.length - 1 - s.served, ?_, ?_⟩
    · omega
    · congr 1
      omega
  have hasync := List.countP_eq_length.mp hall _ hmem
  rw [hm] at hasync
  exact absurd hasync (by decide)

omit decU in
/-- **The status of a call.** -/
theorem ServerInv.status (V : ServerInv s) {k : Nat} {c : Call A}
    (hk : s.log[k]? = some c) (hm : c.mode = .async) (hw : k < woken s)
    (hh : Holds s k) :
    rtLinuxSyscallStatus s c.id =
      if s.canceled k then (ECANCELED, none)
      else
        match s.results k with
        | none => (EINPROGRESS, none)
        | some retval => (0, some retval) := by
  obtain ⟨-, J, -⟩ := V
  have hat := J.slots k c hk hh
  obtain ⟨-, h1, hpos⟩ := J.ids k c hk
  obtain ⟨h0, hslot⟩ := hpos hm
  have hnaming : ¬ naming s.log.length k s.task := by
    intro hn
    cases hpc : s.task with
    | names from_ =>
      simp only [woken, hpc] at hw
      rw [hpc] at hn
      have hn' : k + 1 = s.log.length := hn
      have hlt : k < s.log.length - 1 := hw
      omega
    | _ =>
      rw [hpc] at hn
      exact hn.elim
  have hid := hat.id hnaming
  have habs : c.id = (s.slots (k % s.nr)).id.natAbs := by
    rw [hid]
    split <;> omega
  have hneg : ¬ c.id < 0 := by omega
  have hne : ¬ c.id ≠ (s.slots (k % s.nr)).id.natAbs := fun h => h habs
  simp only [rtLinuxSyscallStatus, hslot, if_neg hneg, if_neg hne]
  cases hcan : s.canceled k with
  | true =>
    have hmode := hat.mode
    rw [hcan] at hmode
    replace hmode : (s.slots (k % s.nr)).mode = .canceled := hmode
    rw [if_pos hmode]
    rfl
  | false =>
    have hmode : (s.slots (k % s.nr)).mode ≠ .canceled := by
      have hmode := hat.mode
      rw [hcan] at hmode
      rw [hmode]
      nofun
    rw [if_neg hmode]
    cases hres : s.results k with
    | none =>
      rw [hres] at hid
      have hgt : (s.slots (k % s.nr)).id > 0 := by
        rw [hid]
        exact h0
      rw [if_pos hgt]
      rfl
    | some retval =>
      rw [hres] at hid
      have hle : ¬ (s.slots (k % s.nr)).id > 0 := by
        rw [hid]
        show ¬ -c.id > 0
        omega
      rw [if_neg hle, hat.retval retval hres]
      rfl

omit decU in
theorem ServerInv.ok (V : ServerInv s) : ServerOk s := by
  refine ⟨V.slots.done, fun k hk => (V.slots.skipped k hk).1, ?_, V.bound, ?_,
    fun k c => V.status⟩
  · have hs := V.ring.server
    rintro (hpc | hpc)
    · rw [hpc] at hs
      exact hs.2
    · rw [hpc] at hs
      exact hs.elim
  · intro args hpc hm hout
    have I := V.ring
    have hnr := I.nr
    have ht := I.task
    have hle := outstanding_le (s := s)
    rw [hpc] at ht
    obtain ⟨hin, hroom, -⟩ := ht
    have hfull : advance s.nr s.in_ = s.out := by
      have hn : s.log.length + 1 = s.served + s.nr := by omega
      rw [hin, advance_mod hnr, hn, Nat.add_mod_right, I.out]
    simp only [exec, hpc, if_pos (And.intro hm hfull)]

end Runs

/-- **THE CALLS ARE SERVED IN ORDER** and their status is what has become of
    them. -/
theorem server_in_order (lowErr : Nat) (args : A) (retval : R) {nrCalls : Nat}
    (hn : 0 < nrCalls) (mode : SyscallMode) {s : Server A R U}
    (h : Reach (serverStep lowErr) (Plain lowErr)
      (create args retval nrCalls mode) s) : ServerOk s := by
  have V : ServerInv s := h.invariant (serverInv_create args retval hn mode)
    fun _ _ _ _ V hguard hs => V.step hguard hs
  exact V.ok

instance (lowErr : Nat) (s : Server A R U) : ∀ a, Decidable (Plain lowErr s a)
  | .task owns =>
    match hpc : s.task with
    | .fills _ from_ => decidable_of_iff
        (from_.mode = .async → from_.id ≠ 0 ∧ slotOf s from_.id = from_.slot)
        (by simp only [Plain, hpc])
    | .suspends _ => decidable_of_iff (owns = false) (by simp only [Plain, hpc])
    | .out | .names _ | .puts _ | .wakes _ | .asleep _ | .reads _ =>
      .isTrue (by simp only [Plain, hpc])
  | .server _ =>
    match hpc : s.server with
    | .returns => decidable_of_iff (s.servDepth.natAbs < lowErr) (by simp only [Plain, hpc])
    | .suspends | .asleep | .tests | .runs | .stores _ | .marks _ | .answers
    | .advances | .ended => .isTrue (by simp only [Plain, hpc])
  | .cancelEnd u =>
    match hu : s.canceling u with
    | none => .isTrue (by simp only [Plain, hu])
    | some id =>
      match hpc : s.task with
      | .names from_ => decidable_of_iff
          (id = (s.slots (slotOf s id)).id.natAbs ∧ from_.slot ≠ slotOf s id)
          (by simp only [Plain, hu, hpc])
      | .out | .fills .. | .puts _ | .wakes _ | .suspends _ | .asleep _
      | .reads _ => decidable_of_iff (id = (s.slots (slotOf s id)).id.natAbs)
          (by simp only [Plain, hu, hpc, and_true])
  | .exec _ | .cancel .. | .setMode _ => .isTrue trivial

/-- A synchronous call, and two asynchronous ones of which the second is
    cancelled. -/
theorem server_in_order_three : ∃ s : Server Nat Nat Unit,
    Reach (serverStep 65531) (Plain 65531) (create 0 0 2 .sync) s ∧
      s.done = [(0, 10), (1, 20)] ∧
      rtLinuxSyscallStatus s 1 = (0, some 8) ∧
      rtLinuxSyscallStatus s 2 = (ECANCELED, none) ∧ ServerOk s := by
  obtain ⟨s, hs, hdone, h1, h2⟩ : ∃ s : Server Nat Nat Unit,
      play (serverStep 65531) (Plain 65531) (create 0 0 2 .sync)
        ([ServerAction.exec 10] ++ List.replicate 4 (ServerAction.task false) ++
          List.replicate 7 (ServerAction.server 7) ++
          List.replicate 2 (ServerAction.task false) ++
          [ServerAction.server 7, .setMode .async, .exec 20] ++
          List.replicate 4 (ServerAction.task false) ++
          [ServerAction.exec 30] ++
          List.replicate 4 (ServerAction.task false) ++
          [ServerAction.cancel () 2, .cancelEnd ()] ++
          List.replicate 12 (ServerAction.server 8)) = some s ∧
      s.done = [(0, 10), (1, 20)] ∧
      rtLinuxSyscallStatus s 1 = (0, some 8) ∧
      rtLinuxSyscallStatus s 2 = (ECANCELED, none) :=
    ⟨_, rfl, rfl, rfl, rfl⟩
  have hreach := reach_of_play hs
  exact ⟨s, hreach, hdone, h1, h2, server_in_order 65531 0 0 (by decide) .sync hreach⟩

/-- **THE FIRST CALL**: its id is 0, which has no sign, and its status is 0
    before the server has begun it. -/
theorem first_call_has_ended : ∃ s : Server Nat Nat Unit,
    Reach (serverStep 65531) (fun _ _ => True) (create 0 0 2 .async) s ∧
      s.server = .suspends ∧ s.done = [] ∧
      rtLinuxSyscallStatus s 0 = (0, some 0) ∧ ¬ ServerOk s := by
  obtain ⟨s, hs, hpc, hdone, hst, hk, hw, hh, hcan, hres⟩ : ∃ s : Server Nat Nat Unit,
        play (serverStep 65531) (fun _ _ => True) (create 0 0 2 .async)
          ([ServerAction.exec 10] ++ List.replicate 4 (ServerAction.task false)) = some s ∧
        s.server = .suspends ∧ s.done = [] ∧
        rtLinuxSyscallStatus s 0 = (0, some 0) ∧
        s.log[0]? = some ⟨10, 0, .async⟩ ∧ 0 < woken s ∧ Holds s 0 ∧
        s.canceled 0 = false ∧ s.results 0 = none :=
    ⟨_, rfl, rfl, rfl, rfl, rfl, by decide, by decide, rfl, rfl⟩
  refine ⟨s, reach_of_play hs, hpc, hdone, hst, fun h => ?_⟩
  have hstatus := h.status 0 _ hk rfl hw hh
  rw [hst, hcan, hres] at hstatus
  exact absurd hstatus (by decide)

end RtaiServerOrder
