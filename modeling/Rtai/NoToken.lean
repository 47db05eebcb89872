import Rtai.Holders
import Rtai.Broadcast

/-! # Counting semaphores that never have a token

    A semaphore that is only signalled when somebody waits for it counts its
    waiters.  Here it is, section by section, who enters and leaves its queue
    and who is granted what it waits for. -/

namespace RtaiNoToken

open RtaiKernel RtaiSched RtaiSem RtaiSteps RtaiControl RtaiSemEffects
  RtaiSemControl RtaiServices RtaiSemSteps RtaiHolders RtaiBroadcast

variable {T S : Type} [decT : DecidableEq T] [decS : DecidableEq S] [finT : Fintype T]
  [finS : Fintype S]

/-- No resource, owned by nobody, and as many tokens short as tasks are
    linked. -/
structure NoToken (k : Kernel T S) (L : Head T S → List T) (s : S) : Prop where
  type : k.type s = 0
  owndby : k.owndby s = none
  count : k.count s = - (L (.sem s)).length

/-- What a section does to such a semaphore. -/
inductive QueueStep (k : Kernel T S) (L : Head T S → List T) (k' : Kernel T S)
    (L' : Head T S → List T) (s : S) : Prop where
  | same (hc : k'.count s = k.count s) (hL : (L' (.sem s)).length = (L (.sem s)).length)
      (hg : ∀ t, Granted k' s t ↔ Granted k s t)
  | enter (hc : k'.count s = k.count s - 1)
      (hL : (L' (.sem s)).length = (L (.sem s)).length + 1)
      (hg : ∀ t, Granted k' s t ↔ Granted k s t)
  | collect (c : T) (hgc : Granted k s c) (hc : k'.count s = k.count s)
      (hL : (L' (.sem s)).length = (L (.sem s)).length)
      (hg : ∀ t, Granted k' s t ↔ Granted k s t ∧ t ≠ c)
  | leave (hc : k'.count s = k.count s + 1)
      (hL : (L' (.sem s)).length + 1 = (L (.sem s)).length)
      (hg : ∀ t, Granted k' s t ↔ Granted k s t)
  | grant (u : T) (hc : k'.count s = k.count s + 1)
      (hL : (L' (.sem s)).length + 1 = (L (.sem s)).length)
      (hg : ∀ t, Granted k' s t ↔ Granted k s t ∨ t = u)
  | empty (hc : k'.count s = 0) (hL : (L' (.sem s)).length = 0)
      (hg : ∀ t, Granted k' s t ↔ Granted k s t ∨ t ∈ L (.sem s))

/-- A section that is about another semaphore. -/
structure Untouched (k : Kernel T S) (L : Head T S → List T)
    (k' : Kernel T S) (L' : Head T S → List T) (s : S) : Prop where
  count : k'.count s = k.count s
  length : (L' (.sem s)).length = (L (.sem s)).length
  granted : ∀ t, Granted k' s t ↔ Granted k s t

section Steps

variable {k k' : Kernel T S} {L L' : Head T S → List T} {s s₀ : S} {c : T} {o : Option (Ret T)}

omit decT decS finT finS in
theorem Untouched.queueStep (h : Untouched k L k' L' s) :
    QueueStep k L k' L' s :=
  .same h.count h.length h.granted

omit decT decS finT finS in
/-- **The semaphore goes on counting its waiters.** -/
theorem QueueStep.noToken (h : QueueStep k L k' L' s)
    (ht : k'.type s = k.type s) (ho : k'.owndby s = k.owndby s)
    (N : NoToken k L s) : NoToken k' L' s := by
  have hcount := N.count
  refine ⟨ht.trans N.type, ho.trans N.owndby, ?_⟩
  cases h <;> omega

/-- The owner and the type of a semaphore that is no resource do not
    change. -/
theorem Waits.owner_same {tries : Bool} (W : Waits tries k L c s₀ k' L' o)
    (hne : s₀ ≠ s ∨ k.type s = 0 ∧ k.owndby s = none) :
    k'.type s = k.type s ∧ k'.owndby s = k.owndby s := by
  have hself : s₀ = s → k.type s₀ = 0 ∧ k.owndby s₀ = none := by
    rintro rfl
    exact hne.resolve_left fun h => h rfl
  cases W with
  | refuse k₀ r hP _ hk _ _ _ =>
    obtain ⟨h1, -, h3, -⟩ := Prepared.sems hP
    rw [hk]
    exact ⟨congrFun h3 s, congrFun h1 s⟩
  | take _ hk _ _ =>
    obtain ⟨ow, rq, he⟩ := takeOwnership_eq { k with
      count := Function.update k.count s₀ (k.count s₀ - 1) } c s₀
    have ht : k'.type s = k.type s := by rw [hk, he]; rfl
    refine ⟨ht, ?_⟩
    rw [hk]
    by_cases hs : s₀ = s
    · have hz := (hself hs).1
      unfold takeOwnership
      rw [if_neg]
      · rfl
      · dsimp only
        omega
    · exact takeOwnership_other _ c hs
  | nested k₀ hP _ hown _ hk _ _ =>
    obtain ⟨h1, -, h3, -⟩ := Prepared.sems hP
    have hs : s₀ ≠ s := by
      intro hs
      rw [(hself hs).2] at hown
      exact nomatch hown
    rw [hk]
    exact ⟨(Function.update_of_ne (Ne.symm hs) ..).trans (congrFun h3 s),
      congrFun h1 s⟩
  | rob k₀ u _ _ _ hP _ hpos _ _ _ _ _ _ _ _ hk _ =>
    obtain ⟨h1, -, h3, -⟩ := Prepared.sems hP
    have hs : s₀ ≠ s := by
      intro hs
      rw [(hself hs).1] at hpos
      exact lt_irrefl _ hpos
    obtain ⟨_, _, _, _, _, _, _, _, _, _, _, rfl, -, -⟩ := hk
    exact ⟨congrFun h3 s, (Function.update_of_ne (Ne.symm hs) ..).trans (congrFun h1 s)⟩
  | expire k₁ k₂ _ _ hk₁ _ hre hk _ _ =>
    obtain ⟨h1, -, h3, -⟩ := Recomputes.sems hre
    obtain ⟨_, _, _, _, _, _, _, _, _, _, _, rfl, -, -⟩ := hk₁
    rw [hk]
    exact ⟨congrFun h3 s, congrFun h1 s⟩
  | block k₀ k₁ _ _ _ _ _ hP _ _ hpass _ _ _ _ _ _ hk _ =>
    obtain ⟨h1, -, h3, -⟩ := Prepared.sems hP
    obtain ⟨g1, -, g3, -⟩ := Passes.sems hpass
    obtain ⟨_, _, _, _, _, _, _, _, _, _, _, rfl, -, -⟩ := hk
    exact ⟨congrFun (g3.trans h3) s, congrFun (g1.trans h1) s⟩

/-- A task that goes to sleep has not been granted anything. -/
theorem blocked_granted {k₀ k₁ k₂ : Kernel T S} {p : Pc T S}
    (hcall : Caller k c) (h4 : k₀.pc = k.pc)
    (h5 : ∀ t, t ≠ c → k₀.blockedOn t = k.blockedOn t)
    (g4 : k₁.pc = k₀.pc) (g5 : k₁.blockedOn = k₀.blockedOn)
    (hpc : k₂.pc = Function.update k₁.pc c p := by rfl)
    (hb : k₂.blockedOn = Function.update k₁.blockedOn c (.queue (.sem s₀)) :=
      by rfl) (t : T) : Granted k₂ s t ↔ Granted k s t := by
  refine granted_caller (p := p) hcall.waits ?_ (Or.inr ?_) (fun u hu => ?_) t
  · rw [hpc, g4, h4]
  · rw [hb, Function.update_self]
    exact nofun
  · rw [hb, Function.update_of_ne hu, g5, h5 u hu]

/-- **A wait for another semaphore** -/
theorem Waits.untouched {tries : Bool} (W : Waits tries k L c s₀ k' L' o)
    (hcall : Caller k c) (hrob : RobsGranted k c s₀) (hs : s₀ ≠ s) :
    Untouched k L k' L' s := by
  cases W with
  | refuse k₀ r hP _ hk hL _ _ =>
    obtain ⟨-, h2, -, h4, h5⟩ := Prepared.sems hP
    subst hk
    refine ⟨congrFun h2 s, by rw [hL], ?_⟩
    refine granted_caller (p := .idle) hcall.waits ?_ (Or.inl rfl) h5
    unfold returned
    rw [h4]
  | take hc hk hL _ =>
    obtain ⟨ow, rq, he⟩ := takeOwnership_eq { k with
      count := Function.update k.count s₀ (k.count s₀ - 1) } c s₀
    rw [he] at hk
    subst hk
    exact ⟨Function.update_of_ne (Ne.symm hs) .., by rw [hL],
      granted_caller (p := .idle) hcall.waits rfl (Or.inl rfl) fun _ _ => rfl⟩
  | nested k₀ hP _ _ _ hk hL _ =>
    obtain ⟨-, h2, -, h4, h5⟩ := Prepared.sems hP
    subst hk
    refine ⟨congrFun h2 s, by rw [hL], ?_⟩
    refine granted_caller (p := .idle) hcall.waits ?_ (Or.inl rfl) h5
    unfold returned
    dsimp only
    rw [h4]
  | rob k₀ u l₁ l₂ q hP _ hpos hown hprio hrun hl hL _ _ _ hk _ =>
    obtain ⟨-, h2, -, h4, h5⟩ := Prepared.sems hP
    obtain ⟨hw, -⟩ := hrob u hpos hown hprio (le_of_eq hrun)
    have hlen := length_inserted hl hL s
    rw [if_neg hs] at hlen
    obtain ⟨_, _, _, _, _, _, _, _, _, _, _, rfl, -, -⟩ := hk
    refine ⟨?_, hlen, fun t => ?_⟩
    · exact (Function.update_of_ne (Ne.symm hs) ..).trans (congrFun h2 s)
    · -- the robbed task waits for another semaphore
      have hnot : ∀ b, ¬ (waitsOn (k.pc u) = some s ∧ b = BlockedOn.null
          (T := T) (S := S)) := by
        rintro b ⟨h, -⟩
        rw [hw] at h
        exact hs (Option.some.inj h)
      unfold Granted returned robbed
      dsimp only
      rw [h4]
      by_cases htc : t = c
      · subst htc
        rw [Function.update_self, hcall.waits]
        exact ⟨fun h => (nomatch h.1), fun h => (nomatch h.1)⟩
      · rw [Function.update_of_ne htc]
        by_cases htu : t = u
        · subst htu
          exact ⟨fun h => absurd h (hnot _), fun h => absurd h (hnot _)⟩
        · rw [Function.update_of_ne htu, h5 t htc]
  | expire k₁ k₂ _ _ hk₁ _ hre hk hL _ =>
    obtain ⟨-, h2, -, h4, h5⟩ := Recomputes.sems hre
    obtain ⟨_, _, _, _, _, _, _, _, _, _, _, rfl, -, -⟩ := hk₁
    subst hk
    refine ⟨congrFun h2 s, by rw [hL], ?_⟩
    refine granted_caller (p := .idle) hcall.waits ?_ (Or.inl rfl) ?_
    · unfold returned
      rw [h4]
    · intro t htc
      exact (congrFun h5 t).trans (Function.update_of_ne htc ..)
  | block k₀ k₁ L₁ l₁ l₂ q p hP _ _ hpass _ hl hL _ _ hp hk _ =>
    obtain ⟨-, h2, -, h4, h5⟩ := Prepared.sems hP
    obtain ⟨-, g2, -, g4, g5, g6⟩ := Passes.sems hpass
    have hlen := length_inserted hl hL s
    rw [g6, if_neg hs] at hlen
    obtain ⟨_, _, _, _, _, _, _, _, _, _, _, rfl, -, -⟩ := hk
    refine ⟨?_, hlen, ?_⟩
    · refine (Function.update_of_ne (Ne.symm hs) ..).trans ?_
      rw [g2, h2]
    · exact blocked_granted hcall h4 h5 g4 g5

/-- A wait for such a semaphore is granted nothing, and takes no grant. -/
theorem Waits.grants_nothing {tries : Bool}
    (W : Waits tries k L c s k' L' o) (hcall : Caller k c)
    (N : NoToken k L s) : ∀ t, Granted k' s t ↔ Granted k s t := by
  have hcount := N.count
  cases W with
  | refuse k₀ r hP _ hk _ _ _ =>
    obtain ⟨-, -, -, h4, h5⟩ := Prepared.sems hP
    subst hk
    refine granted_caller (p := .idle) hcall.waits ?_ (Or.inl rfl) h5
    unfold returned
    rw [h4]
  | take hc _ _ _ => omega
  | nested _ _ _ hown _ _ _ _ =>
    rw [N.owndby] at hown
    exact nomatch hown
  | rob _ _ _ _ _ _ _ hpos _ _ _ _ _ _ _ _ _ _ =>
    rw [N.type] at hpos
    exact absurd hpos (lt_irrefl _)
  | expire k₁ k₂ _ _ hk₁ _ hre hk _ _ =>
    obtain ⟨-, -, -, h4, h5⟩ := Recomputes.sems hre
    obtain ⟨_, _, _, _, _, _, _, _, _, _, _, rfl, -, -⟩ := hk₁
    subst hk
    refine granted_caller (p := .idle) hcall.waits ?_ (Or.inl rfl) ?_
    · unfold returned
      rw [h4]
    · intro u huc
      exact (congrFun h5 u).trans (Function.update_of_ne huc ..)
  | block k₀ k₁ _ _ _ _ p hP _ _ hpass _ _ _ _ _ hp hk _ =>
    obtain ⟨-, -, -, h4, h5⟩ := Prepared.sems hP
    obtain ⟨-, -, -, g4, g5, -⟩ := Passes.sems hpass
    obtain ⟨_, _, _, _, _, _, _, _, _, _, _, rfl, -, -⟩ := hk
    exact blocked_granted hcall h4 h5 g4 g5

/-- **A wait** enters the queue, or leaves everything as it is. -/
theorem Waits.queueStep {tries : Bool} (W : Waits tries k L c s₀ k' L' o)
    (hcall : Caller k c) (hrob : RobsGranted k c s₀) (N : NoToken k L s) :
    QueueStep k L k' L' s := by
  by_cases hs : s₀ = s
  · subst hs
    have hcount := N.count
    have hg := Waits.grants_nothing W hcall N
    cases W with
    | refuse k₀ r hP _ hk hL _ _ =>
      obtain ⟨-, h2, -⟩ := Prepared.sems hP
      subst hk
      exact .same (congrFun h2 s₀) (by rw [hL]) hg
    | take hc _ _ _ => omega
    | nested _ _ _ hown _ _ _ _ =>
      rw [N.owndby] at hown
      exact nomatch hown
    | rob _ _ _ _ _ _ _ hpos _ _ _ _ _ _ _ _ _ _ =>
      rw [N.type] at hpos
      exact absurd hpos (lt_irrefl _)
    | expire k₁ k₂ _ _ hk₁ _ hre hk hL _ =>
      obtain ⟨-, h2, -⟩ := Recomputes.sems hre
      obtain ⟨_, _, _, _, _, _, _, _, _, _, _, rfl, -, -⟩ := hk₁
      subst hk
      exact .same (congrFun h2 s₀) (by rw [hL]) hg
    | block k₀ k₁ L₁ l₁ l₂ q p hP _ _ hpass _ hl hL _ _ hp hk _ =>
      obtain ⟨-, h2, -⟩ := Prepared.sems hP
      obtain ⟨-, g2, -, -, -, g6⟩ := Passes.sems hpass
      have hlen := length_inserted hl hL s₀
      rw [g6, if_pos rfl] at hlen
      obtain ⟨_, _, _, _, _, _, _, _, _, _, _, rfl, -, -⟩ := hk
      refine .enter ?_ hlen hg
      exact (Function.update_self ..).trans (by rw [g2, h2])
  · exact (Waits.untouched W hcall hrob hs).queueStep

/-- A resource that is waited for has an owner. -/
theorem Waits.owned {tries : Bool} (W : Waits tries k L c s k' L' o)
    (ht : 0 < k.type s) (hfree : k.owndby s = none → 0 < k.count s) :
    k'.owndby s ≠ none := by
  have hbusy : k.count s ≤ 0 → k.owndby s ≠ none := by
    intro hc h
    have := hfree h
    omega
  cases W with
  | refuse k₀ _ hP hc hk _ _ _ =>
    obtain ⟨h1, -⟩ := Prepared.sems hP
    subst hk
    show k₀.owndby s ≠ none
    rw [h1]
    exact hbusy hc
  | take _ hk _ _ =>
    subst hk
    have h := takeOwnership_self { k with
      count := Function.update k.count s (k.count s - 1) } c ht
    exact fun hn => nomatch hn.symm.trans h
  | nested k₀ hP hc _ _ hk _ _ =>
    obtain ⟨h1, -⟩ := Prepared.sems hP
    subst hk
    show k₀.owndby s ≠ none
    rw [h1]
    exact hbusy hc
  | rob _ _ _ _ _ _ _ _ _ _ _ _ _ _ _ _ hk _ =>
    obtain ⟨_, _, _, _, _, _, _, _, _, _, _, rfl, -, -⟩ := hk
    exact fun hn => nomatch hn.symm.trans (Function.update_self ..)
  | expire _ k₂ _ hc hk₁ _ hre hk _ _ =>
    obtain ⟨h1, -⟩ := Recomputes.sems hre
    obtain ⟨_, _, _, _, _, _, _, _, _, _, _, rfl, -, -⟩ := hk₁
    subst hk
    show k₂.owndby s ≠ none
    rw [h1]
    exact hbusy hc
  | block _ _ _ _ _ _ _ hP hc _ hpass _ _ _ _ _ _ hk _ =>
    obtain ⟨h1, -⟩ := Prepared.sems hP
    obtain ⟨g1, -⟩ := Passes.sems hpass
    obtain ⟨_, _, _, _, _, _, _, _, _, _, _, rfl, -, -⟩ := hk
    exact fun hn => hbusy hc ((congrFun (g1.trans h1) s).symm.trans hn)

/-- A wait for such a semaphore sleeps, or its time is over. -/
theorem Waits.sleeps_or_expires (W : Waits false k L c s k' L' o)
    (N : NoToken k L s) : o = none ∨ o = some .timout := by
  have hcount := N.count
  cases W with
  | refuse _ _ _ _ _ _ _ hr =>
    rcases hr with ⟨h, -⟩ | ⟨h, -⟩
    · rw [N.owndby] at h
      exact nomatch h
    · exact nomatch h
  | take hc _ _ _ => omega
  | nested _ _ _ h _ _ _ _ =>
    rw [N.owndby] at h
    exact nomatch h
  | rob _ _ _ _ _ _ _ hpos _ _ _ _ _ _ _ _ _ _ =>
    rw [N.type] at hpos
    exact absurd hpos (lt_irrefl _)
  | expire _ _ _ _ _ _ _ _ _ ho => exact Or.inr ho
  | block _ _ _ _ _ _ _ _ _ _ _ _ _ _ _ _ _ _ ho => exact Or.inl ho

/-- **The end of a wait** -/
theorem WaitEnds.owner_same (W : WaitEnds k L c s₀ k' L' o) (hne : s₀ ≠ s ∨ k.type s = 0) :
    k'.type s = k.type s ∧ k'.owndby s = k.owndby s := by
  cases W with
  | granted _ hk _ _ =>
    obtain ⟨ow, rq, he⟩ := takeOwnership_eq k c s₀
    have ht : k'.type s = k.type s := by rw [hk, he]; rfl
    refine ⟨ht, ?_⟩
    rw [hk]
    by_cases hs : s₀ = s
    · subst hs
      have hz := hne.resolve_left fun h => h rfl
      unfold takeOwnership
      rw [if_neg (by omega)]
      rfl
    · exact takeOwnership_other _ c hs
  | failed k₂ _ _ _ _ _ _ _ hre hk _ =>
    obtain ⟨h1, -, h3, -⟩ := Recomputes.sems hre
    rw [hk]
    exact ⟨congrFun h3 s, congrFun h1 s⟩

/-- The task that comes back from its wait is in no wait any more. -/
theorem WaitEnds.moves (W : WaitEnds k L c s₀ k' L' o) :
    k'.pc c = .idle ∧ ∀ t, t ≠ c → k'.pc t = k.pc t := by
  rw [WaitEnds.pc W]
  exact ⟨Function.update_self .., fun t ht => Function.update_of_ne ht ..⟩

theorem WaitEnds.untouched (W : WaitEnds k L c s₀ k' L' o)
    (hpc : waitsOn (k.pc c) = some s₀) (hs : s₀ ≠ s) :
    Untouched k L k' L' s := by
  obtain ⟨hidle, hoth⟩ := WaitEnds.moves W
  have hno : ¬ Granted k s c :=
    fun h => hs (Option.some.inj (hpc.symm.trans h.1))
  have hquiet : ¬ Granted k' s c :=
    not_granted_of_quiet (by rw [hidle]; rfl)
  cases W with
  | granted hb hk hL _ =>
    obtain ⟨ow, rq, he⟩ := takeOwnership_eq k c s₀
    rw [he] at hk
    subst hk
    exact ⟨rfl, by rw [hL], granted_others hno hquiet hoth fun _ _ => rfl⟩
  | failed k₂ l₁ l₂ q hb hl hL _ hre hk _ =>
    obtain ⟨-, h2, -, -, h5⟩ := Recomputes.sems hre
    have hlen := length_removed hl hL s
    rw [if_neg hs] at hlen
    subst hk
    refine ⟨?_, hlen, granted_others hno hquiet hoth fun t htc => ?_⟩
    · exact (congrFun h2 s).trans (Function.update_of_ne (Ne.symm hs) ..)
    · exact (congrFun h5 t).trans (Function.update_of_ne htc ..)

/-- A wait that has failed was not granted anything, and its task leaves. -/
theorem WaitEnds.fails (W : WaitEnds k L c s₀ k' L' o) (hb : k.blockedOn c ≠ .null) :
    (L' (.sem s)).length ≤ (L (.sem s)).length ∧ ∀ t, Granted k' s t ↔ Granted k s t := by
  obtain ⟨hidle, hoth⟩ := WaitEnds.moves W
  cases W with
  | granted hnull _ _ _ => exact absurd hnull hb
  | failed k₂ l₁ l₂ q _ hl hL _ hre hk _ =>
    obtain ⟨-, -, -, -, h5⟩ := Recomputes.sems hre
    have hlen := length_removed hl hL s
    subst hk
    refine ⟨by omega, granted_others (fun h => hb h.2)
      (not_granted_of_quiet (by rw [hidle]; rfl)) hoth fun t htc => ?_⟩
    exact (congrFun h5 t).trans (Function.update_of_ne htc ..)

theorem WaitEnds.queueStep (W : WaitEnds k L c s₀ k' L' o)
    (hpc : waitsOn (k.pc c) = some s₀) (N : NoToken k L s) :
    QueueStep k L k' L' s := by
  by_cases hs : s₀ = s
  · subst hs
    obtain ⟨hidle, hoth⟩ := WaitEnds.moves W
    have hquiet : ¬ Granted k' s₀ c :=
      not_granted_of_quiet (by rw [hidle]; rfl)
    cases W with
    | granted hb hk hL _ =>
      obtain ⟨ow, rq, he⟩ := takeOwnership_eq k c s₀
      rw [he] at hk
      subst hk
      exact .collect c ⟨hpc, hb⟩ rfl (by rw [hL])
        (granted_leaves (by rw [hidle]; rfl) hoth fun _ _ => rfl)
    | failed k₂ l₁ l₂ q hb hl hL _ hre hk _ =>
      obtain ⟨-, h2, -, -, h5⟩ := Recomputes.sems hre
      have hlen := length_removed hl hL s₀
      rw [if_pos rfl] at hlen
      have hcount := N.count
      subst hk
      refine .leave ?_ hlen (granted_others (fun h => hb h.2) hquiet hoth fun t htc => ?_)
      · refine (congrFun h2 s₀).trans ((Function.update_self ..).trans ?_)
        exact moreCount_of_nonpos (by omega)
      · exact (congrFun h5 t).trans (Function.update_of_ne htc ..)
  · exact (WaitEnds.untouched W hpc hs).queueStep

omit decS finT finS in
/-- A quiet task may return. -/
theorem granted_returned (hq : waitsOn (k.pc c) = none) (t : T) :
    Granted (returned k c) s t ↔ Granted k s t := by
  have hpc : ∀ u, u ≠ c → (returned k c).pc u = k.pc u :=
    fun u hu => Function.update_of_ne hu ..
  have hb : ∀ u, u ≠ c → (returned k c).blockedOn u = k.blockedOn u :=
    fun _ _ => rfl
  refine granted_others (not_granted_of_quiet hq) (not_granted_of_quiet ?_) hpc hb t
  show waitsOn (Function.update k.pc c .idle c) = none
  rw [Function.update_self]
  rfl

omit decS finT finS in
theorem QueueStep.returned (h : QueueStep k L k' L' s) (hq : waitsOn (k'.pc c) = none) :
    QueueStep k L (RtaiSemEffects.returned k' c) L' s := by
  have hr := granted_returned (s := s) hq
  cases h with
  | same hc hL hg => exact .same hc hL fun t => (hr t).trans (hg t)
  | enter hc hL hg => exact .enter hc hL fun t => (hr t).trans (hg t)
  | collect u hu hc hL hg => exact .collect u hu hc hL fun t => (hr t).trans (hg t)
  | leave hc hL hg => exact .leave hc hL fun t => (hr t).trans (hg t)
  | grant u hc hL hg => exact .grant u hc hL fun t => (hr t).trans (hg t)
  | empty hc hL hg => exact .empty hc hL fun t => (hr t).trans (hg t)

/-- **A signal** is sent when somebody waits. -/
theorem Signals.owner_same {who : Option T} (G : Signals k L who s₀ k' L' o)
    (hne : s₀ ≠ s ∨ k.type s = 0) :
    k'.type s = k.type s ∧ k'.owndby s = k.owndby s := by
  have hself : 0 < k.type s₀ → s ≠ s₀ := by
    rintro hpos rfl
    rw [hne.resolve_left fun h => h rfl] at hpos
    exact lt_irrefl _ hpos
  cases G with
  | refuse _ _ _ hk _ _ => rw [hk]; exact ⟨rfl, rfl⟩
  | unnest _ h1 hk _ _ =>
    rw [hk]
    exact ⟨Function.update_of_ne (hself (by omega)) .., rfl⟩
  | give _ _ hk _ _ => rw [hk]; exact ⟨rfl, rfl⟩
  | grant _ _ _ _ _ _ _ hk _ =>
    obtain ⟨_, _, _, _, _, _, _, _, _, _, _, rfl, -, -⟩ := hk
    exact ⟨rfl, rfl⟩
  | release _ _ _ h1 _ _ k₁ hk₁ _ hk _ _ =>
    subst hk₁
    obtain ⟨_, _, _, _, _, _, _, _, _, _, _, rfl, -, -⟩ := hk
    exact ⟨rfl, Function.update_of_ne (hself (by omega)) ..⟩
  | handOver _ _ _ _ _ _ h1 _ _ _ _ _ _ k₁ hk₁ _ hk _ =>
    subst hk₁
    obtain ⟨_, _, _, _, _, _, _, _, _, _, _, rfl, -, -⟩ := hk
    exact ⟨rfl, Function.update_of_ne (hself (by omega)) ..⟩

omit decS finT finS in
/-- The first waiter of a queue is granted no other semaphore. -/
theorem signalled_granted {u : T} (C : Control k L) (hu : u ∈ L (.sem s₀))
    (hs : s₀ ≠ s) (hpc : k'.pc = k.pc)
    (hb : k'.blockedOn = Function.update k.blockedOn u .null) (t : T) :
    Granted k' s t ↔ Granted k s t := by
  have hat := (C.stands u).home (.sem s₀) hu
  unfold Granted
  rw [hpc, hb]
  by_cases htu : t = u
  · subst htu
    have hno : waitsOn (k.pc t) ≠ some s := by
      rw [hat.1]
      exact fun h => hs (Option.some.inj h)
    exact ⟨fun h => absurd h.1 hno, fun h => absurd h.1 hno⟩
  · rw [Function.update_of_ne htu]

theorem Signals.untouched {who : Option T} (G : Signals k L who s₀ k' L' o)
    (C : Control k L) (hs : s₀ ≠ s) : Untouched k L k' L' s := by
  cases G with
  | refuse _ _ _ hk hL _ =>
    rw [hk, hL]
    exact ⟨rfl, rfl, fun _ => Iff.rfl⟩
  | unnest _ _ hk hL _ =>
    rw [hk, hL]
    exact ⟨rfl, rfl, fun _ => Iff.rfl⟩
  | give _ hl hk hL _ =>
    rw [hk, hL]
    exact ⟨Function.update_of_ne (Ne.symm hs) .., rfl, fun _ => Iff.rfl⟩
  | grant u l q _ hl hL _ hk _ =>
    have hlen := length_removed (l := []) hl hL s
    rw [if_neg hs] at hlen
    obtain ⟨_, _, _, _, _, _, _, _, _, _, _, rfl, -, -⟩ := hk
    exact ⟨Function.update_of_ne (Ne.symm hs) .., hlen,
      signalled_granted C (by rw [hl]; exact List.mem_cons_self) hs rfl rfl⟩
  | release _ _ _ _ _ _ k₁ hk₁ _ hk hL _ =>
    subst hk₁
    obtain ⟨_, _, _, _, _, _, _, _, _, _, _, rfl, -, -⟩ := hk
    rw [hL]
    exact ⟨Function.update_of_ne (Ne.symm hs) .., rfl, fun _ => Iff.rfl⟩
  | handOver _ _ _ u l q _ _ hl hL _ _ _ k₁ hk₁ _ hk _ =>
    have hlen := length_removed (l := []) hl hL s
    rw [if_neg hs] at hlen
    subst hk₁
    obtain ⟨_, _, _, _, _, _, _, _, _, _, _, rfl, -, -⟩ := hk
    exact ⟨Function.update_of_ne (Ne.symm hs) .., hlen,
      signalled_granted C (by rw [hl]; exact List.mem_cons_self) hs rfl rfl⟩

theorem Signals.queueStep {who : Option T} (G : Signals k L who s₀ k' L' o)
    (C : Control k L) (N : NoToken k L s)
    (hne : s₀ ≠ s ∨ L (.sem s) ≠ []) :
    QueueStep k L k' L' s ∧ (s₀ = s → ∃ u, Granted k' s u) := by
  by_cases hs : s₀ = s
  · subst hs
    have hcount := N.count
    have hl₀ : L (.sem s₀) ≠ [] := hne.resolve_left fun h => h rfl
    cases G with
    | refuse h1 _ _ _ _ _ => exact absurd N.type h1
    | unnest _ h1 _ _ _ => exact absurd N.type (by omega)
    | give _ hl _ _ _ => exact absurd hl hl₀
    | grant u l q _ hl hL _ hk _ =>
      have hlen := length_removed (l := []) hl hL s₀
      rw [if_pos rfl] at hlen
      have hat := (C.stands u).home (.sem s₀) (by rw [hl]; exact List.mem_cons_self)
      have hsame : k'.pc = k.pc ∧ k'.blockedOn = Function.update k.blockedOn u .null ∧
          k'.count = Function.update k.count s₀ (moreCount k s₀) := by
        obtain ⟨_, _, _, _, _, _, _, _, _, _, _, rfl, -, -⟩ := hk
        exact ⟨rfl, rfl, rfl⟩
      obtain ⟨hpc, hb, hc⟩ := hsame
      have hg : ∀ t, Granted k' s₀ t ↔ Granted k s₀ t ∨ t = u := by
        refine granted_joins hat.1 ?_ hpc fun t ht => ?_
        · rw [hb, Function.update_self]
        · rw [hb, Function.update_of_ne ht]
      refine ⟨.grant u ?_ hlen hg, fun _ => ⟨u, (hg u).mpr (Or.inr rfl)⟩⟩
      rw [hc, Function.update_self, moreCount_of_nonpos (by omega)]
    | release _ _ _ h1 _ _ _ _ _ _ _ _ => exact absurd N.type (by omega)
    | handOver _ _ _ _ _ _ h1 _ _ _ _ _ _ _ _ _ _ _ =>
      exact absurd N.type (by omega)
  · exact ⟨(Signals.untouched G C hs).queueStep, fun h => absurd h hs⟩

omit finT finS in
/-- A broadcast grants the other semaphores to nobody. -/
theorem Served.granted_other {k₁ : Kernel T S} (D : Served s₀ (L (.sem s₀)) k L k₁ L')
    (hk : k' = { k₁ with count := Function.update k₁.count s₀ 0 })
    (C : Control k L) (hs : s₀ ≠ s) (t : T) :
    Granted k' s t ↔ Granted k s t := by
  obtain ⟨h1, -, -, -, -, -, -, h8⟩ := Served.fields D
  rw [hk]
  unfold Granted
  dsimp only
  rw [h1, h8]
  by_cases ht : t ∈ L (.sem s₀)
  · have hno : waitsOn (k.pc t) ≠ some s := by
      rw [((C.stands t).home (.sem s₀) ht).1]
      exact fun h => hs (Option.some.inj h)
    exact ⟨fun h => absurd h.1 hno, fun h => absurd h.1 hno⟩
  · rw [if_neg ht]

theorem Served.untouched {k₁ : Kernel T S}
    (D : Served s₀ (L (.sem s₀)) k L k₁ (Function.update L (.sem s₀) []))
    (hk : k' = { k₁ with count := Function.update k₁.count s₀ 0 })
    (C : Control k L) (hs : s₀ ≠ s) :
    Untouched k L k' (Function.update L (.sem s₀) []) s where
  count := by
    rw [hk]
    exact (Function.update_of_ne (Ne.symm hs) ..).trans
      (congrFun (Served.fields D).2.2.2.2.1 s)
  length := by rw [Function.update_of_ne (sem_ne hs)]
  granted := Served.granted_other D hk C hs

/-- **A broadcast** empties the queue. -/
theorem Served.queueStep {k₁ : Kernel T S}
    (D : Served s₀ (L (.sem s₀)) k L k₁ (Function.update L (.sem s₀) []))
    (hk : k' = { k₁ with count := Function.update k₁.count s₀ 0 })
    (C : Control k L) :
    QueueStep k L k' (Function.update L (.sem s₀) []) s := by
  by_cases hs : s₀ = s
  · subst hs
    obtain ⟨h1, -, -, -, -, -, -, h8⟩ := Served.fields D
    refine .empty ?_ ?_ fun t => ?_
    · rw [hk]
      exact Function.update_self ..
    · rw [Function.update_self]
      rfl
    · rw [hk]
      unfold Granted
      dsimp only
      rw [h1, h8]
      by_cases ht : t ∈ L (.sem s₀)
      · have hw := ((C.stands t).home (.sem s₀) ht).1
        rw [if_pos ht]
        exact ⟨fun _ => Or.inr ht, fun _ => ⟨hw, rfl⟩⟩
      · rw [if_neg ht]
        exact ⟨Or.inl, fun h => h.resolve_right ht⟩
  · exact (Served.untouched D hk C hs).queueStep

omit finT finS in
/-- Whoever waited is granted the semaphore. -/
theorem Served.grants {k₁ : Kernel T S} (D : Served s₀ (L (.sem s₀)) k L k₁ L')
    (hk : k' = { k₁ with count := Function.update k₁.count s₀ 0 })
    (C : Control k L) {t : T} (ht : t ∈ L (.sem s₀)) : Granted k' s₀ t := by
  obtain ⟨h1, -, -, -, -, -, -, h8⟩ := Served.fields D
  rw [hk]
  constructor
  · show waitsOn (k₁.pc t) = some s₀
    rw [h1]
    exact ((C.stands t).home (.sem s₀) ht).1
  · exact (h8 t).trans (if_pos ht)

/-- **Every action that is about no semaphore.** -/
theorem Delays.untouched {a : Action T S} (D : Delays k a k')
    (hkeep : ActionKeepsGrants k a) : Untouched k L k' L s :=
  ⟨congrFun (Delays.sems D).1 s, rfl, Delays.granted D hkeep⟩

theorem Delays.queueStep {a : Action T S} (D : Delays k a k')
    (hkeep : ActionKeepsGrants k a) : QueueStep k L k' L s :=
  (Delays.untouched D hkeep).queueStep

omit decS finT finS in
theorem Untouched.returned (h : Untouched k L k' L' s) (hq : waitsOn (k'.pc c) = none) :
    Untouched k L (RtaiSemEffects.returned k' c) L' s :=
  ⟨h.count, h.length, fun t => (granted_returned hq t).trans (h.granted t)⟩

end Steps

end RtaiNoToken
