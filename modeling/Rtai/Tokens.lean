import Rtai.SemSteps

/-! # Semaphore tokens

    A run of a system of counting and binary semaphores keeps accounts: the
    tokens issued, at the beginning and by signals, the tokens consumed, by a
    wait that finds one and by a signal that hands one to the first waiter,
    and the waits that have returned success.  A waiter that has been handed
    a token and has not yet come back from its wait is `granted`. -/

namespace RtaiTokens

open RtaiRings RtaiRuns RtaiKernel RtaiTaskApi RtaiSched RtaiSem
  RtaiSteps RtaiControl RtaiSemEffects RtaiSemControl RtaiServices
  RtaiSemSteps

variable {T S : Type} [decT : DecidableEq T] [decS : DecidableEq S] [finT : Fintype T]
  [finS : Fintype S]

/-! ## The accounts -/

/-- The kernel, with what has happened to the tokens of each semaphore. -/
structure Account (T S : Type) where
  kernel : Kernel T S
  issued : S → Int
  consumed : S → Int
  succeeded : S → Int

/-- A system in which nothing has happened. -/
def opening (cfg : Config T S) : Account T S where
  kernel := boot cfg
  issued := (boot cfg).count
  consumed := fun _ => 0
  succeeded := fun _ => 0

/-- A signal on a binary semaphore at 1 is absorbed. -/
def absorbed (k : Kernel T S) (s : S) : Bool :=
  k.type s ≠ 0 && k.count s = 1

/-- A signal issues a token, unless it is absorbed. -/
def issues (k : Kernel T S) (a : Action T S) (s : S) : Bool :=
  signalled a = some s && !absorbed k s

/-- A wait consumes a token that is there, and a signal has its token consumed
    by the first waiter. -/
def consumes (k : Kernel T S) (a : Action T S) (s : S) : Bool :=
  (entered a = some s && 0 < k.count s) ||
    (signalled a = some s && k.queue.next (.head (.sem s)) ≠ .head (.sem s))

/-- One atomic section, with the accounts. -/
def account (x : Account T S) (a : Action T S) : Option (Account T S × Option (Ret T)) :=
  match exec x.kernel a with
  | none => none
  | some (k, o) => some
      ({ kernel := k
         issued := fun s => x.issued s + if issues x.kernel a s then 1 else 0
         consumed := fun s =>
          x.consumed s + if consumes x.kernel a s then 1 else 0
         succeeded := fun s =>
          x.succeeded s + if waitSucceeds x.kernel a o s then 1 else 0 }, o)

/-! ## The runs -/

/-- The services about a counting or binary semaphore, and those that suspend,
    resume and unblock. -/
def TokenOp (k : Kernel T S) : Op T S → Prop
  | .semWait s => k.type s ≤ 0
  | .semWaitIf s => k.type s ≤ 0
  | .semWaitUntil s _ => k.type s ≤ 0
  | .semSignal s => k.type s ≤ 0
  | .suspend _ => True
  | .resume _ => True
  | .unblock _ mask => .ready ∉ mask
  | _ => False

/-- The actions of a system of counting and binary semaphores. -/
def TokenAction (x : Account T S) : Action T S → Prop
  | .call _ op => TokenOp x.kernel op
  | .linux op => TokenOp x.kernel op
  | _ => True

/-- The waiters that have been handed a token and have not come back. -/
def grantedWaiters (k : Kernel T S) (s : S) : Finset T :=
  Finset.univ.filter (Granted k s)

/-- The law for one semaphore. -/
structure Conserved (x : Account T S) (L : Head T S → List T) (s : S) :
    Prop where
  count : x.kernel.count s = x.issued s - x.consumed s - (L (.sem s)).length
  apart : x.issued s - x.consumed s = 0 ∨ L (.sem s) = []
  tokens : 0 ≤ x.issued s - x.consumed s
  successes : x.succeeded s + (grantedWaiters x.kernel s).card = x.consumed s

/-- **Tokens are conserved**: the count of every counting or binary semaphore
    is the number of unconsumed tokens minus the number of linked tasks, not
    both are nonzero, and the tokens consumed are those of the waits that
    have returned success or have been granted it. -/
def TokensConserved (x : Account T S) : Prop :=
  ∃ L, Rings x.kernel.queue L ∧ ∀ s, x.kernel.type s ≤ 0 → Conserved x L s

/-! ## What a step does to the tokens of one semaphore -/

/-- The count, the queue and the granted waiters of `s` after a step, with
    what the step adds to the accounts. -/
inductive TokenStep (k : Kernel T S) (L : Head T S → List T) (a : Action T S)
    (o : Option (Ret T)) (k' : Kernel T S) (L' : Head T S → List T) (s : S) :
    Prop where
  | same (hc : k'.count s = k.count s) (hL : L' (.sem s) = L (.sem s))
      (hg : (grantedWaiters k' s).card = (grantedWaiters k s).card)
      (hi : issues k a s = false) (hu : consumes k a s = false)
      (hs : waitSucceeds k a o s = false)
  | take (hpos : 0 < k.count s) (hc : k'.count s = k.count s - 1)
      (hL : L' (.sem s) = L (.sem s))
      (hg : (grantedWaiters k' s).card = (grantedWaiters k s).card)
      (hi : issues k a s = false) (hu : consumes k a s = true)
      (hs : waitSucceeds k a o s = true)
  | block (hle : k.count s ≤ 0) (hc : k'.count s = k.count s - 1)
      (hL : (L' (.sem s)).length = (L (.sem s)).length + 1)
      (hg : (grantedWaiters k' s).card = (grantedWaiters k s).card)
      (hi : issues k a s = false) (hu : consumes k a s = false)
      (hs : waitSucceeds k a o s = false)
  | collect (hc : k'.count s = k.count s) (hL : L' (.sem s) = L (.sem s))
      (hg : (grantedWaiters k' s).card + 1 = (grantedWaiters k s).card)
      (hi : issues k a s = false) (hu : consumes k a s = false)
      (hs : waitSucceeds k a o s = true)
  | leave (hc : k'.count s = moreCount k s)
      (hL : (L' (.sem s)).length + 1 = (L (.sem s)).length)
      (hg : (grantedWaiters k' s).card = (grantedWaiters k s).card)
      (hi : issues k a s = false) (hu : consumes k a s = false)
      (hs : waitSucceeds k a o s = false)
  | give (hsig : signalled a = some s) (hl : L (.sem s) = []) (hc : k'.count s = moreCount k s)
      (hL : L' (.sem s) = [])
      (hg : (grantedWaiters k' s).card = (grantedWaiters k s).card)
      (hi : issues k a s = !absorbed k s)
      (hu : consumes k a s = false) (hs : waitSucceeds k a o s = false)
  | hand (hc : k'.count s = moreCount k s)
      (hL : (L' (.sem s)).length + 1 = (L (.sem s)).length)
      (hg : (grantedWaiters k' s).card = (grantedWaiters k s).card + 1)
      (hi : issues k a s = !absorbed k s)
      (hu : consumes k a s = true) (hs : waitSucceeds k a o s = false)

/-- The law, with the bound on the count of a binary semaphore. -/
def Kept (x : Account T S) (L : Head T S → List T) (s : S) : Prop :=
  Conserved x L s ∧ (x.kernel.type s ≠ 0 → x.kernel.count s ≤ 1)

omit finS in
theorem kept_iff {x : Account T S} {L : Head T S → List T} {s : S} : Kept x L s ↔
      x.kernel.count s = x.issued s - x.consumed s - (L (.sem s)).length ∧
      (x.issued s - x.consumed s = 0 ∨ (L (.sem s)).length = 0) ∧
      0 ≤ x.issued s - x.consumed s ∧
      x.succeeded s + (grantedWaiters x.kernel s).card = x.consumed s ∧
      (x.kernel.type s ≠ 0 → x.kernel.count s ≤ 1) := by
  rw [List.length_eq_zero_iff]
  exact ⟨fun ⟨⟨h1, h2, h3, h4⟩, h5⟩ => ⟨h1, h2, h3, h4, h5⟩,
    fun ⟨h1, h2, h3, h4, h5⟩ => ⟨⟨h1, h2, h3, h4⟩, h5⟩⟩

omit decT decS finT finS in
/-- So can that of a semaphore that does not absorb the signal. -/
theorem moreCount_of_bounded {k : Kernel T S} {s : S}
    (h : k.type s ≠ 0 → k.count s ≤ 1) (hroom : k.count s < 2 ^ 31 - 1) :
    (absorbed k s = true ∧ moreCount k s = k.count s ∧ k.type s ≠ 0) ∨
    (absorbed k s = false ∧ moreCount k s = k.count s + 1 ∧
      (k.type s ≠ 0 → k.count s ≤ 0)) := by
  unfold moreCount absorbed
  rw [incr_of_lt hroom]
  by_cases ht : k.type s = 0
  · right
    simp [ht]
  · have hle := h ht
    by_cases hc : k.count s = 1
    · left
      simp [ht, hc]
    · right
      rw [if_neg (by omega)]
      refine ⟨by simp [hc], rfl, fun _ => by omega⟩

/-- A signal finds room for one token more in `count`, which is an `int`. -/
def ActionCountsInRange (k : Kernel T S) (a : Action T S) : Prop :=
  ∀ s, signalled a = some s → k.count s < 2 ^ 31 - 1

/-- **EVERY STEP KEEPS THE LAW.** -/
theorem TokenStep.kept {x : Account T S} {L L' : Head T S → List T}
    {a : Action T S} {o : Option (Ret T)} {k' : Kernel T S} {s : S}
    {x' : Account T S} (h : TokenStep x.kernel L a o k' L' s)
    (hx : account x a = some (x', o)) (he : exec x.kernel a = some (k', o))
    (htype : k'.type = x.kernel.type)
    (hroom : ActionCountsInRange x.kernel a) (K : Kept x L s) : Kept x' L' s := by
  unfold account at hx
  rw [he] at hx
  cases hx
  obtain ⟨hcount, hapart, htok, hsucc, hbin⟩ := kept_iff.mp K
  rw [kept_iff]
  dsimp only
  rw [htype]
  cases h with
  | same hc hL hg hi hu hs =>
    rw [hi, hu, hs, hc, hL, hg]
    simp only [Bool.false_eq_true, if_false]
    exact ⟨by omega, by omega, by omega, by omega, hbin⟩
  | take hpos hc hL hg hi hu hs =>
    rw [hi, hu, hs, hc, hL, hg]
    simp only [Bool.false_eq_true, if_false, if_true]
    refine ⟨by omega, by omega, by omega, by omega, fun ht => ?_⟩
    have := hbin ht
    omega
  | block hle hc hL hg hi hu hs =>
    rw [hi, hu, hs, hc, hL, hg]
    simp only [Bool.false_eq_true, if_false]
    exact ⟨by omega, by omega, by omega, by omega, by omega⟩
  | collect hc hL hg hi hu hs =>
    rw [hi, hu, hs, hc, hL]
    simp only [Bool.false_eq_true, if_false, if_true]
    exact ⟨by omega, by omega, by omega, by omega, hbin⟩
  | leave hc hL hg hi hu hs =>
    rw [hi, hu, hs, hc, hg, moreCount_of_nonpos (by omega)]
    simp only [Bool.false_eq_true, if_false]
    exact ⟨by omega, by omega, by omega, by omega, by omega⟩
  | give hsig hl hc hL hg hi hu hs =>
    rw [hi, hu, hs, hc, hg, hL]
    rw [hl] at hcount
    dsimp only [List.length_nil] at hcount ⊢
    rcases moreCount_of_bounded hbin (hroom s hsig) with ⟨ha, hm, ht⟩ | ⟨ha, hm, ht⟩
    · have hle := hbin ht
      rw [ha, hm]
      simp only [Bool.not_true, Bool.false_eq_true, if_false]
      exact ⟨by omega, Or.inr trivial, by omega, by omega, fun _ => hle⟩
    · rw [ha, hm]
      simp only [Bool.not_false, Bool.false_eq_true, if_false, if_true]
      refine ⟨by omega, Or.inr trivial, by omega, by omega, fun h => ?_⟩
      have := ht h
      omega
  | hand hc hL hg hi hu hs =>
    have hle : x.kernel.count s ≤ 0 := by omega
    have ha : absorbed x.kernel s = false := by
      have hne : x.kernel.count s ≠ 1 := by omega
      unfold absorbed
      simp [hne]
    rw [hi, hu, hs, hc, hg, moreCount_of_nonpos hle, ha]
    simp only [Bool.not_false, Bool.false_eq_true, if_true, if_false]
    exact ⟨by omega, by omega, by omega, by omega, by omega⟩

/-! ## The services take these steps -/

omit finS in
/-- Only one task moves, and it is not granted before or after. -/
theorem granted_same {k k' : Kernel T S} {s : S} {c : T}
    (hc : ¬ Granted k s c) (hc' : ¬ Granted k' s c)
    (hpc : ∀ t, t ≠ c → k'.pc t = k.pc t)
    (hb : ∀ t, t ≠ c → k'.blockedOn t = k.blockedOn t) :
    grantedWaiters k' s = grantedWaiters k s :=
  Finset.filter_congr fun t _ => granted_others hc hc' hpc hb t

omit finS in
/-- A granted waiter that comes back. -/
theorem granted_erase {k k' : Kernel T S} {s : S} {c : T} (hc : Granted k s c)
    (h : ∀ t, Granted k' s t ↔ Granted k s t ∧ t ≠ c) :
    (grantedWaiters k' s).card + 1 = (grantedWaiters k s).card := by
  have hmem : c ∈ grantedWaiters k s :=
    Finset.mem_filter.mpr ⟨Finset.mem_univ c, hc⟩
  have herase : grantedWaiters k' s = (grantedWaiters k s).erase c := by
    ext t
    unfold grantedWaiters
    rw [Finset.mem_erase, Finset.mem_filter, Finset.mem_filter, h]
    exact ⟨fun ⟨h1, h2, h3⟩ => ⟨h3, h1, h2⟩, fun ⟨h3, h1, h2⟩ => ⟨h1, h2, h3⟩⟩
  rw [herase, Finset.card_erase_add_one hmem]

omit finS in
/-- A waiter that is granted what it waits for. -/
theorem granted_insert {k k' : Kernel T S} {s : S} {u : T} (hu : ¬ Granted k s u)
    (h : ∀ t, Granted k' s t ↔ Granted k s t ∨ t = u) :
    (grantedWaiters k' s).card = (grantedWaiters k s).card + 1 := by
  have hmem : u ∉ grantedWaiters k s :=
    fun hm => hu (Finset.mem_filter.mp hm).2
  have hinsert : grantedWaiters k' s = insert u (grantedWaiters k s) := by
    ext t
    unfold grantedWaiters
    rw [Finset.mem_insert, Finset.mem_filter, Finset.mem_filter, h]
    refine ⟨fun ⟨h1, h2⟩ => h2.elim (fun h2 => Or.inr ⟨h1, h2⟩) Or.inl, ?_⟩
    rintro (h2 | ⟨h1, h2⟩)
    · exact ⟨Finset.mem_univ t, Or.inr h2⟩
    · exact ⟨h1, Or.inl h2⟩
  rw [hinsert, Finset.card_insert_of_notMem hmem]

section Enter

variable {k : Kernel T S} {c : T} {op : Op T S} {s s₀ : S} {tries : Bool}

omit decT finT finS in
theorem issues_enter (hop : entersWait op = some (s₀, tries)) :
    issues k (.call c op) s = false := by
  cases op <;> first | rfl | (cases hop)

omit finT finS in
theorem consumes_enter (hop : entersWait op = some (s₀, tries)) :
    consumes k (.call c op) s = (decide (s₀ = s) && decide (0 < k.count s)) := by
  have hno : signalled (.call c op) ≠ some s := by
    cases op <;> first | (cases hop; done) | exact nofun
  have hen : (entered (.call c op) = some s) ↔ s₀ = s := by
    unfold entered
    dsimp only
    rw [hop]
    exact Option.some_inj
  unfold consumes
  simp [hno, hen]

end Enter

section Steps

variable {k k' : Kernel T S} {L L' : Head T S → List T} {a : Action T S}
  {o : Option (Ret T)} {s s₀ : S} {c : T}

omit finS in
/-- A caller that returns is granted nothing. -/
theorem granted_returned {k₁ : Kernel T S} (hw : waitsOn (k.pc c) = none) (hpc : k₁.pc = k.pc)
    (hb : ∀ t, t ≠ c → k₁.blockedOn t = k.blockedOn t) :
    grantedWaiters (returned k₁ c) s = grantedWaiters k s := by
  refine granted_same (c := c) (not_granted_of_quiet hw) ?_ ?_ hb
  · refine not_granted_of_quiet ?_
    have hidle : (returned k₁ c).pc c = .idle := Function.update_self ..
    rw [hidle]
    rfl
  · intro t ht
    exact (Function.update_of_ne ht ..).trans (congrFun hpc t)

omit finT finS in
theorem takeOwnership_of_token {t : T} (h : k.type s ≤ 0) : takeOwnership k t s = k :=
  if_neg (not_lt.mpr h)

omit decS finT finS in
theorem Prepared.others {k₀ : Kernel T S} (h : Prepared k c s k₀) :
    k₀.pc = k.pc ∧ k₀.count = k.count ∧ ∀ t, t ≠ c → k₀.blockedOn t = k.blockedOn t := by
  rcases h with h | h <;>
    obtain ⟨_, _, _, _, _, _, _, _, _, _, _, rfl, -, -⟩ := h
  · exact ⟨rfl, rfl, fun _ _ => rfl⟩
  · exact ⟨rfl, rfl, fun t ht => Function.update_of_ne ht ..⟩

/-- **A wait on a counting or binary semaphore.** -/
theorem Waits.tokenStep {op : Op T S} {tries : Bool} (W : Waits tries k L c s₀ k' L' o)
    (hop : entersWait op = some (s₀, tries)) (hcall : Caller k c)
    (ht : k.type s₀ ≤ 0) (hrt : k.restype s₀ = 0) (s : S) :
    TokenStep k L (.call c op) o k' L' s := by
  have hi : issues k (.call c op) s = false := issues_enter hop
  have hu := consumes_enter (k := k) (c := c) (s := s) hop
  cases W with
  | refuse k₀ r hP hc hk hL ho hr =>
    obtain ⟨hpc, hct, hb⟩ := Prepared.others hP
    have hs : waitSucceeds k (.call c op) o s = false := by
      rw [ho]
      rcases hr with ⟨-, rfl⟩ | ⟨rfl, rfl⟩
      · exact waitSucceeds_error nofun
      · rw [waitSucceeds_enter hop, decide_eq_false (not_lt.mpr hc)]
        simp
    refine .same ?_ (by rw [hL]) ?_ hi ?_ hs
    · rw [hk]
      exact congrFun hct s
    · rw [hk, granted_returned hcall.waits hpc hb]
    · rw [hu]
      by_cases he : s₀ = s
      · subst he
        rw [decide_eq_false (not_lt.mpr hc), Bool.and_false]
      · rw [decide_eq_false he, Bool.false_and]
  | take hc hk hL ho =>
    have hown : takeOwnership { k with
        count := Function.update k.count s₀ (k.count s₀ - 1) } c s₀ =
        { k with count := Function.update k.count s₀ (k.count s₀ - 1) } :=
      takeOwnership_of_token ht
    rw [hown] at hk
    have hg : grantedWaiters k' s = grantedWaiters k s := by
      rw [hk]
      exact granted_returned hcall.waits rfl (fun _ _ => rfl)
    have hs := waitSucceeds_enter (k := k) (c := c) (s := s) (n := k.count s₀) hop
    rw [decide_eq_true hc, Bool.or_true, Bool.and_true] at hs
    by_cases he : s₀ = s
    · subst he
      refine .take hc ?_ (by rw [hL]) (by rw [hg]) hi ?_ ?_
      · rw [hk]
        exact Function.update_self ..
      · rw [hu, decide_eq_true rfl, decide_eq_true hc]
        rfl
      · rw [ho, hs]
        exact decide_eq_true rfl
    · refine .same ?_ (by rw [hL]) (by rw [hg]) hi ?_ ?_
      · rw [hk]
        exact Function.update_of_ne (Ne.symm he) ..
      · rw [hu, decide_eq_false he, Bool.false_and]
      · rw [ho, hs]
        exact decide_eq_false he
  -- the semaphore is no resource
  | nested k₀ _ _ _ hpos _ _ _ =>
    rw [hrt] at hpos
    exact absurd hpos (lt_irrefl 0)
  | rob k₀ u l₁ l₂ q _ _ hpos _ _ _ _ _ _ _ _ _ _ =>
    exact absurd hpos (not_lt.mpr ht)
  | expire k₁ k₂ q hc hk₁ R hre hk hL ho =>
    have hsame : k₂.pc = k.pc ∧ k₂.count = k.count ∧
        ∀ t, t ≠ c → k₂.blockedOn t = k.blockedOn t := by
      obtain ⟨_, _, _, _, _, _, _, _, _, _, _, rfl, -, -⟩ := hk₁
      cases hre with
      | none _ h =>
        obtain ⟨_, _, _, _, _, _, _, _, _, _, _, rfl, -, -⟩ := h
        exact ⟨rfl, rfl, fun t ht => Function.update_of_ne ht ..⟩
      | owner _ _ _ hpos _ _ => exact absurd hpos (not_lt.mpr ht)
    refine .same ?_ (by rw [hL]) ?_ hi ?_ ?_
    · rw [hk]
      exact congrFun hsame.2.1 s
    · rw [hk, granted_returned hcall.waits hsame.1 hsame.2.2]
    · rw [hu]
      by_cases he : s₀ = s
      · subst he
        rw [decide_eq_false (not_lt.mpr hc), Bool.and_false]
      · rw [decide_eq_false he, Bool.false_and]
    · rw [ho]
      exact waitSucceeds_error nofun
  -- the count goes below 0 by one, and the queue grows by one
  | block k₀ k₁ L₁ l₁ l₂ q p hP hc _ hpass _ hl hL _ _ hp hk ho =>
    have hdest : passDest k s₀ = .null := if_neg (not_lt.mpr ht)
    rw [hdest] at hpass
    cases hpass
    obtain ⟨hpc, hct, hb⟩ := Prepared.others hP
    have hw : waitsOn p = some s₀ := by rcases hp with rfl | rfl <;> rfl
    obtain ⟨_, _, _, _, _, _, _, _, _, _, _, rfl, -, -⟩ := hk
    have hg : ∀ k₂ : Kernel T S, k₂.pc = Function.update k₀.pc c p →
        k₂.blockedOn = Function.update k₀.blockedOn c (.queue (.sem s₀)) →
        grantedWaiters k₂ s = grantedWaiters k s := by
      intro k₂ h1 h2
      refine granted_same (c := c) (not_granted_of_quiet hcall.waits) (fun hg => ?_) ?_ ?_
      · have hb' := hg.2
        rw [h2, Function.update_self] at hb'
        exact nomatch hb'
      · intro t ht
        rw [h1, Function.update_of_ne ht, hpc]
      · intro t ht
        rw [h2, Function.update_of_ne ht, hb t ht]
    have hs : waitSucceeds k (.call c op) o s = false := by
      rw [ho]
      exact waitSucceeds_error nofun
    by_cases he : s₀ = s
    · subst he
      refine .block hc ?_ ?_ (by rw [hg _ rfl rfl]) hi ?_ hs
      · exact (Function.update_self ..).trans (by rw [hct])
      · rw [hL, Function.update_self, hl, List.length_append,
          List.length_append, List.length_cons]
        omega
      · rw [hu, decide_eq_false (not_lt.mpr hc), Bool.and_false]
    · refine .same ?_ ?_ (by rw [hg _ rfl rfl]) hi ?_ hs
      · exact (Function.update_of_ne (Ne.symm he) ..).trans (congrFun hct s)
      · rw [hL]
        exact Function.update_of_ne (fun h => he (Head.sem.inj h).symm) ..
      · rw [hu, decide_eq_false he, Bool.false_and]

/-- **The end of a wait.** -/
theorem WaitEnds.tokenStep (W : WaitEnds k L c s₀ k' L' o)
    (hpc : waitsOn (k.pc c) = some s₀) (ht : k.type s₀ ≤ 0) (s : S) :
    TokenStep k L (.cont c) o k' L' s := by
  have hi : issues k (.cont c) s = false := rfl
  have hu : consumes k (.cont c) s = false := by
    unfold consumes
    simp [entered, signalled]
  cases W with
  | granted hb hk hL ho =>
    rw [takeOwnership_of_token ht] at hk
    have hidle : k'.pc c = .idle := by
      rw [hk]
      exact Function.update_self ..
    have hs : waitSucceeds k (.cont c) o s = decide (s₀ = s) := by
      rw [ho]
      show decide (waitsOn (k.pc c) = some s) = _
      rw [hpc]
      simp
    have hoth : ∀ t, t ≠ c → k'.pc t = k.pc t := by
      rw [hk]
      exact fun t ht => Function.update_of_ne ht ..
    by_cases he : s₀ = s
    · subst he
      refine .collect (by rw [hk]; rfl) (by rw [hL]) ?_ hi hu (hs.trans (decide_eq_true rfl))
      exact granted_erase ⟨hpc, hb⟩ (granted_leaves (by rw [hidle]; rfl)
        hoth (by rw [hk]; exact fun _ _ => rfl))
    · refine .same (by rw [hk]; rfl) (by rw [hL]) ?_ hi hu (hs.trans (decide_eq_false he))
      have hg : grantedWaiters k' s = grantedWaiters k s := by
        refine granted_same (c := c) (fun h => ?_) (fun h => ?_) hoth
          (by rw [hk]; exact fun _ _ => rfl)
        · exact absurd (Option.some.inj (hpc.symm.trans h.1)) he
        · have hw := h.1
          rw [hidle] at hw
          exact nomatch hw
      rw [hg]
  | failed k₂ l₁ l₂ q hb hl hL _ hre hk ho =>
    have hsame : k₂.pc = k.pc ∧ k₂.count = Function.update k.count s₀ (moreCount k s₀) ∧
        ∀ t, t ≠ c → k₂.blockedOn t = k.blockedOn t := by
      cases hre with
      | none _ h =>
        obtain ⟨_, _, _, _, _, _, _, _, _, _, _, rfl, -, -⟩ := h
        exact ⟨rfl, rfl, fun t ht => Function.update_of_ne ht ..⟩
      | owner _ _ _ hpos _ _ => exact absurd hpos (not_lt.mpr ht)
    obtain ⟨hpc₂, hct₂, hb₂⟩ := hsame
    have hs : waitSucceeds k (.cont c) o s = false := by
      rcases ho with rfl | rfl <;> rfl
    have hg : grantedWaiters k' s = grantedWaiters k s := by
      refine granted_same (c := c) (fun h => hb h.2) (fun h => ?_) ?_ ?_
      · have hidle : k'.pc c = .idle := by
          rw [hk]
          exact Function.update_self ..
        have hw := h.1
        rw [hidle] at hw
        exact nomatch hw
      · intro t ht
        rw [hk]
        exact (Function.update_of_ne ht ..).trans (congrFun hpc₂ t)
      · rw [hk]
        exact hb₂
    by_cases he : s₀ = s
    · subst he
      refine .leave ?_ ?_ (by rw [hg]) hi hu hs
      · rw [hk]
        exact (congrFun hct₂ s₀).trans (Function.update_self ..)
      · rw [hL, Function.update_self, hl, List.length_append,
          List.length_append, List.length_cons]
        omega
    · refine .same ?_ ?_ (by rw [hg]) hi hu hs
      · rw [hk]
        exact (congrFun hct₂ s).trans (Function.update_of_ne (Ne.symm he) ..)
      · rw [hL]
        exact Function.update_of_ne (fun h => he (Head.sem.inj h).symm) ..

/-- **A signal of a counting or binary semaphore.** -/
theorem Signals.tokenStep {who : Option T} (G : Signals k L who s₀ k' L' o)
    (ha : signalled a = some s₀) (hno : entered a = none)
    (hsucc : waitSucceeds k a o s = false) (C : Control k L)
    (ht : k.type s₀ ≤ 0) (hrt : k.restype s₀ = 0) :
    TokenStep k L a o k' L' s := by
  have hi : ∀ he : s₀ = s, issues k a s = !absorbed k s := by
    rintro rfl
    unfold issues
    rw [ha, decide_eq_true rfl, Bool.true_and]
  have hi' : s₀ ≠ s → issues k a s = false := by
    intro he
    unfold issues
    rw [ha, decide_eq_false (fun h => he (Option.some.inj h)), Bool.false_and]
  have hu' : s₀ ≠ s → consumes k a s = false := by
    intro he
    unfold consumes
    rw [ha, hno, decide_eq_false (fun h => he (Option.some.inj h))]
    rfl
  cases G with
  | refuse _ hr _ _ _ _ => exact absurd hrt hr
  | unnest _ h1 _ _ _ => exact absurd ht (by omega)
  | release _ _ _ h1 _ _ _ _ _ _ _ _ => exact absurd ht (by omega)
  | handOver _ _ _ _ _ _ h1 _ _ _ _ _ _ _ _ _ _ _ =>
    exact absurd ht (by omega)
  | give _ hl hk hL _ =>
    have hg : grantedWaiters k' s = grantedWaiters k s := by rw [hk]; rfl
    by_cases he : s₀ = s
    · subst he
      refine .give ha hl ?_ (by rw [hL, hl]) (by rw [hg]) (hi rfl) ?_ hsucc
      · rw [hk]
        exact Function.update_self ..
      · unfold consumes
        rw [hno, C.rings.next_head, hl]
        simp
    · refine .same ?_ (by rw [hL]) (by rw [hg]) (hi' he) (hu' he) hsucc
      rw [hk]
      exact Function.update_of_ne (Ne.symm he) ..
  | grant u l q _ hl hL _ hk _ =>
    have hat := (C.stands u).home (.sem s₀) (by rw [hl]; exact List.mem_cons_self)
    obtain ⟨_, _, _, _, _, _, _, _, _, _, _, rfl, -, -⟩ := hk
    by_cases he : s₀ = s
    · subst he
      refine .hand (Function.update_self ..) ?_ ?_ (hi rfl) ?_ hsucc
      · rw [hL, Function.update_self, hl, List.length_cons]
      · exact granted_insert (fun h => hat.2 h.2)
          (granted_joins hat.1 (Function.update_self ..) rfl
            (fun t ht => Function.update_of_ne ht ..))
      · unfold consumes
        rw [ha, hno, C.rings.next_head, hl]
        simp [firstOf]
    · refine .same (Function.update_of_ne (Ne.symm he) ..) ?_ ?_ (hi' he) (hu' he) hsucc
      · rw [hL]
        exact Function.update_of_ne (fun h => he (Head.sem.inj h).symm) ..
      · congr 1
        refine granted_same (c := u) (fun h => ?_) (fun h => ?_)
          (fun _ _ => rfl) (fun t ht => Function.update_of_ne ht ..)
        · exact absurd (Option.some.inj (hat.1.symm.trans h.1)) he
        · exact absurd (Option.some.inj (hat.1.symm.trans h.1)) he

omit finS in
/-- A signal returns. -/
theorem TokenStep.returned (h : TokenStep k L a o k' L' s)
    (hg : grantedWaiters (returned k' c) s = grantedWaiters k' s) :
    TokenStep k L a o (returned k' c) L' s := by
  cases h with
  | same hc hL hg' hi hu hs => exact .same hc hL (hg ▸ hg') hi hu hs
  | take hpos hc hL hg' hi hu hs => exact .take hpos hc hL (hg ▸ hg') hi hu hs
  | block hle hc hL hg' hi hu hs => exact .block hle hc hL (hg ▸ hg') hi hu hs
  | collect hc hL hg' hi hu hs => exact .collect hc hL (hg ▸ hg') hi hu hs
  | leave hc hL hg' hi hu hs => exact .leave hc hL (hg ▸ hg') hi hu hs
  | give hsig hl hc hL hg' hi hu hs =>
    exact .give hsig hl hc hL (hg ▸ hg') hi hu hs
  | hand hc hL hg' hi hu hs => exact .hand hc hL (hg ▸ hg') hi hu hs

omit finS in
/-- A step that is about no semaphore. -/
theorem tokenStep_still (hk : k'.count s = k.count s)
    (hg : grantedWaiters k' s = grantedWaiters k s)
    (ha : signalled a = none) (hno : entered a = none)
    (hsucc : waitSucceeds k a o s = false) : TokenStep k L a o k' L s := by
  refine .same hk rfl (by rw [hg]) ?_ ?_ hsucc
  · unfold issues
    rw [ha]
    rfl
  · unfold consumes
    rw [ha, hno]
    rfl

/-! ## The types stay -/

theorem Waits.types {tries : Bool} (W : Waits tries k L c s₀ k' L' o)
    (ht : k.type s₀ ≤ 0) (hrt : k.restype s₀ = 0) :
    k'.type = k.type ∧ k'.restype = k.restype := by
  have hprep : ∀ {k₀ : Kernel T S}, Prepared k c s₀ k₀ →
      k₀.type = k.type ∧ k₀.restype = k.restype := by
    intro k₀ h
    rcases h with h | h <;>
      obtain ⟨_, _, _, _, _, _, _, _, _, _, _, rfl, -, -⟩ := h <;>
      exact ⟨rfl, rfl⟩
  cases W with
  | refuse k₀ r hP _ hk _ _ _ =>
    have hsame := hprep hP
    rw [hk]
    exact hsame
  | take _ hk _ _ =>
    obtain ⟨ow, rq, he⟩ := takeOwnership_eq { k with
      count := Function.update k.count s₀ (k.count s₀ - 1) } c s₀
    rw [hk, he]
    exact ⟨rfl, rfl⟩
  | nested k₀ _ _ _ hpos _ _ _ =>
    rw [hrt] at hpos
    exact absurd hpos (lt_irrefl 0)
  | rob k₀ u l₁ l₂ q _ _ hpos _ _ _ _ _ _ _ _ _ _ =>
    exact absurd hpos (not_lt.mpr ht)
  | expire k₁ k₂ q _ hk₁ _ hre hk _ _ =>
    rw [hk]
    obtain ⟨_, _, _, _, _, _, _, _, _, _, _, rfl, -, -⟩ := hk₁
    cases hre with
    | none _ h =>
      obtain ⟨_, _, _, _, _, _, _, _, _, _, _, rfl, -, -⟩ := h
      exact ⟨rfl, rfl⟩
    | owner _ _ _ hpos _ _ => exact absurd hpos (not_lt.mpr ht)
  | block k₀ k₁ L₁ l₁ l₂ q p hP _ _ hpass _ _ _ _ _ _ hk _ =>
    have hdest : passDest k s₀ = .null := if_neg (not_lt.mpr ht)
    rw [hdest] at hpass
    cases hpass
    have hsame := hprep hP
    obtain ⟨_, _, _, _, _, _, _, _, _, _, _, rfl, -, -⟩ := hk
    exact hsame

theorem WaitEnds.types (W : WaitEnds k L c s₀ k' L' o) (ht : k.type s₀ ≤ 0) :
    k'.type = k.type ∧ k'.restype = k.restype := by
  cases W with
  | granted _ hk _ _ =>
    rw [takeOwnership_of_token ht] at hk
    rw [hk]
    exact ⟨rfl, rfl⟩
  | failed k₂ _ _ q _ _ _ _ hre hk _ =>
    rw [hk]
    cases hre with
    | none _ h =>
      obtain ⟨_, _, _, _, _, _, _, _, _, _, _, rfl, -, -⟩ := h
      exact ⟨rfl, rfl⟩
    | owner _ _ _ hpos _ _ => exact absurd hpos (not_lt.mpr ht)

theorem Signals.types {who : Option T} (G : Signals k L who s₀ k' L' o)
    (ht : k.type s₀ ≤ 0) : k'.type = k.type ∧ k'.restype = k.restype := by
  cases G with
  | refuse _ _ _ hk _ _ => rw [hk]; exact ⟨rfl, rfl⟩
  | unnest _ h1 _ _ _ => exact absurd ht (by omega)
  | release _ _ _ h1 _ _ _ _ _ _ _ _ => exact absurd ht (by omega)
  | handOver _ _ _ _ _ _ h1 _ _ _ _ _ _ _ _ _ _ _ =>
    exact absurd ht (by omega)
  | give _ _ hk _ _ => rw [hk]; exact ⟨rfl, rfl⟩
  | grant _ _ _ _ _ _ _ hk _ =>
    obtain ⟨_, _, _, _, _, _, _, _, _, _, _, rfl, -, -⟩ := hk
    exact ⟨rfl, rfl⟩

/-! ## The other actions -/

/-- **The other actions are about no token.** -/
theorem Delays.tokenStep (h : Delays k a k') (hd : delays k a = true)
    (hkeep : ActionKeepsGrants k a) : TokenStep k L a o k' L s := by
  obtain ⟨hsig, hen, hs⟩ := delays_silent (o := o) (s := s) hd
  exact tokenStep_still (congrFun (Delays.sems h).1 s)
    (Finset.filter_congr fun t _ => Delays.granted h hkeep t) hsig hen hs

end Steps

/-! ## The invariant -/

/-- A place in a call of these services. -/
def TokenPc (k : Kernel T S) (p : Pc T S) : Prop :=
  p = .idle ∨ p = .start ∨ delayed p = true ∨ ∃ s, waitsOn p = some s ∧ k.type s ≤ 0

/-- What holds between the steps. -/
structure TokenInv (x : Account T S) (L : Head T S → List T) : Prop where
  control : Control x.kernel L
  places : ∀ t, TokenPc x.kernel (x.kernel.pc t)
  restypes : ∀ s, x.kernel.type s ≤ 0 → x.kernel.restype s = 0
  kept : ∀ s, x.kernel.type s ≤ 0 → Kept x L s

omit finS in
theorem tokenInv_opening (cfg : Config T S) :
    TokenInv (opening cfg) (fun _ => []) where
  control := control_boot cfg
  places := fun _ => Or.inl rfl
  restypes := by
    intro s hs
    have hs' : (boot cfg).type s ≤ 0 := hs
    show (boot cfg).restype s = 0
    unfold boot at hs' ⊢
    dsimp only at hs' ⊢
    cases hk : (cfg.sems s).kind with
    | binSem => rfl
    | cntSem => rfl
    | resSem r =>
      rw [hk] at hs'
      exact absurd (show (1 : Int) ≤ 0 from hs') (by decide)
  kept := by
    intro s hs
    have hs' : (boot cfg).type s ≤ 0 := hs
    have hgranted : grantedWaiters (boot cfg) s = ∅ :=
      Finset.filter_eq_empty_iff.mpr fun t _ h => nomatch h.1
    have hcount : 0 ≤ (boot cfg).count s ∧
        ((boot cfg).type s ≠ 0 → (boot cfg).count s ≤ 1) := by
      unfold boot at hs' ⊢
      dsimp only at hs' ⊢
      cases hk : (cfg.sems s).kind with
      | binSem =>
        dsimp only
        split
        · exact ⟨by decide, fun _ => le_refl _⟩
        · exact ⟨by omega, fun _ => by omega⟩
      | cntSem => exact ⟨by dsimp only; omega, fun h => absurd rfl h⟩
      | resSem r =>
        rw [hk] at hs'
        exact absurd (show (1 : Int) ≤ 0 from hs') (by decide)
    refine kept_iff.mpr ⟨?_, Or.inr rfl, ?_, ?_, hcount.2⟩
    · show (boot cfg).count s = (boot cfg).count s - 0 - 0
      omega
    · show 0 ≤ (boot cfg).count s - 0
      omega
    · show 0 + ((grantedWaiters (boot cfg) s).card : Int) = 0
      rw [hgranted]
      rfl

/-- A semaphore action of these runs is about a counting or binary
    semaphore. -/
theorem tokenAction_cases {x : Account T S} {L : Head T S → List T}
    (I : TokenInv x L) {a : Action T S} {r : Kernel T S × Option (Ret T)}
    (ha : TokenAction x a) (he : exec x.kernel a = some r) :
    delays x.kernel a = true ∨ aboutSem x.kernel a = true := by
  cases a with
  | call c op =>
    have ha' : TokenOp x.kernel op := ha
    cases op <;> first
      | exact Or.inl rfl | exact Or.inr rfl | exact ha'.elim
  | linux op =>
    have ha' : TokenOp x.kernel op := ha
    cases op <;> first
      | exact Or.inl rfl | exact Or.inr rfl | exact ha'.elim
      | exact nomatch he
  | cont c =>
    refine cont_cases ?_ he
    rcases I.places c with hp | hp | hp | ⟨s, hp, -⟩
    · exact Or.inl hp
    · exact Or.inr (Or.inl hp)
    · exact Or.inr (Or.inr (Or.inl hp))
    · exact Or.inr (Or.inr (Or.inr ⟨s, hp⟩))
  | _ => exact Or.inl rfl

omit decT decS finT finS in
/-- These runs wait for and signal no resource. -/
theorem tokenAction_sems {x : Account T S} {a : Action T S} (ha : TokenAction x a) :
    (∀ s, entered a = some s → x.kernel.type s ≤ 0) ∧
      ∀ s, signalled a = some s → x.kernel.type s ≤ 0 := by
  cases a with
  | call c op =>
    have ha' : TokenOp x.kernel op := ha
    constructor
    · intro s h
      cases op with
      | semWait s' => cases h; exact ha'
      | semWaitIf s' => cases h; exact ha'
      | semWaitUntil s' time => cases h; exact ha'
      | _ => exact nomatch h
    · intro s h
      cases op with
      | semSignal s' => cases h; exact ha'
      | _ => exact nomatch h
  | linux op =>
    have ha' : TokenOp x.kernel op := ha
    refine ⟨fun s h => (nomatch h), fun s h => ?_⟩
    cases op with
    | semSignal s' => cases h; exact ha'
    | _ => exact nomatch h
  | _ => exact ⟨fun s h => (nomatch h), fun s h => (nomatch h)⟩

/-- **One step keeps the invariant.** -/
theorem TokenInv.step {x x' : Account T S} {L : Head T S → List T}
    (I : TokenInv x L) {a : Action T S} {o : Option (Ret T)}
    (ha : TokenAction x a) (hroom : ActionCountsInRange x.kernel a)
    (hkeep : ActionKeepsGrants x.kernel a)
    (hx : account x a = some (x', o)) : ∃ L', TokenInv x' L' := by
  have hexec : ∃ k', exec x.kernel a = some (k', o) ∧ x'.kernel = k' := by
    unfold account at hx
    cases he : exec x.kernel a with
    | none => rw [he] at hx; exact nomatch hx
    | some r =>
      obtain ⟨k', o'⟩ := r
      rw [he] at hx
      cases hx
      exact ⟨k', rfl, rfl⟩
  obtain ⟨k', he, hk'⟩ := hexec
  -- it is enough to know the control state, the types and the token step
  have hfinish : ∀ L', Control k' L' → k'.type = x.kernel.type →
      k'.restype = x.kernel.restype → (∀ t, TokenPc x.kernel (k'.pc t)) →
      (∀ s, x.kernel.type s ≤ 0 → TokenStep x.kernel L a o k' L' s) →
      TokenInv x' L' := by
    intro L' C' htype hrt hpc hstep
    refine ⟨hk' ▸ C', ?_, ?_, ?_⟩
    · intro t
      rw [hk']
      unfold TokenPc
      rw [htype]
      exact hpc t
    · intro s hs
      rw [hk', htype] at hs
      rw [hk', hrt]
      exact I.restypes s hs
    · intro s hs
      rw [hk', htype] at hs
      exact (hstep s hs).kept hx he htype hroom (I.kept s hs)
  rcases tokenAction_cases I ha he with hd | hd
  · have D := exec_delays hd he
    obtain ⟨-, htype, hrt, -⟩ := Delays.sems D
    refine ⟨L, hfinish L (Delays.control D I.control hkeep) htype hrt ?_
      fun s _ => Delays.tokenStep D hd hkeep⟩
    intro t
    rcases Delays.pc D t with h | ⟨-, h | h | h⟩
    · rw [h]; exact I.places t
    · exact Or.inl h
    · exact Or.inr (Or.inl h)
    · exact Or.inr (Or.inr (Or.inl h))
  · -- the semaphore is no resource: nobody is robbed
    have hsem := tokenAction_sems ha
    have hrob : ActionRobsGranted x.kernel a := by
      cases a with
      | call c op =>
        unfold ActionRobsGranted
        dsimp only
        cases hop : entersWait op with
        | none => trivial
        | some e =>
          intro u ht
          exact absurd ht (not_lt.mpr (hsem.1 e.1 (entered_call hop)))
      | _ => trivial
    have hsd : SignalsUndeleted x.kernel a := by
      cases a with
      | call c op =>
        cases op with
        | semSignal s =>
          exact fun ht => absurd ht (not_lt.mpr (hsem.2 s rfl))
        | _ => trivial
      | _ => trivial
    obtain ⟨L', D⟩ := exec_sem hd he I.control hrob hsd
    have hpc : ∀ t, TokenPc x.kernel (k'.pc t) := by
      intro t
      rcases SemStep.pc D t with h | h | ⟨c, op, s, tries, rfl, hop, hw⟩
      · rw [h]; exact I.places t
      · exact Or.inl h
      · exact Or.inr (Or.inr (Or.inr ⟨s, hw, hsem.1 s (entered_call hop)⟩))
    refine ⟨L', ?_⟩
    have C' := SemStep.control D I.control hrob
    cases D with
    | waits c op s tries ha hop hc W =>
      subst ha
      have ht : x.kernel.type s ≤ 0 := hsem.1 s (entered_call hop)
      have hrt := I.restypes s ht
      obtain ⟨htype, hres⟩ := Waits.types W ht hrt
      exact hfinish L' C' htype hres hpc fun s' _ =>
        Waits.tokenStep W hop (I.control.caller hc) ht hrt s'
    | ends c s ha hw hex W =>
      subst ha
      have ht : x.kernel.type s ≤ 0 := by
        rcases I.places c with h | h | h | ⟨s', h, hs'⟩
        · rw [h] at hw; exact nomatch hw
        · rw [h] at hw; exact nomatch hw
        · exact nomatch (quiet_of_delayed h).1.symm.trans hw
        · rw [hw] at h
          cases h
          exact hs'
      obtain ⟨htype, hres⟩ := WaitEnds.types W ht
      exact hfinish L' C' htype hres hpc fun s' _ =>
        WaitEnds.tokenStep W hw ht s'
    | signals c s k₁ ha hc G hk =>
      subst ha
      have ht : x.kernel.type s ≤ 0 := hsem.2 s rfl
      have hrt := I.restypes s ht
      obtain ⟨htype, hres⟩ := Signals.types G ht
      rw [hk] at hfinish C' hpc
      refine hfinish L' C' htype hres hpc fun s' _ => ?_
      have hstep := Signals.tokenStep (s := s') (a := .call c (.semSignal s))
        G rfl rfl (by unfold waitSucceeds; split <;> rfl) I.control ht hrt
      refine hstep.returned (granted_returned ?_ rfl (fun _ _ => rfl))
      rw [Signals.pc G]
      exact (quiet_of_mayCall hc).1
    | linux s ha G =>
      subst ha
      have ht : x.kernel.type s ≤ 0 := hsem.2 s rfl
      have hrt := I.restypes s ht
      obtain ⟨htype, hres⟩ := Signals.types G ht
      exact hfinish L' C' htype hres hpc fun s' _ =>
        Signals.tokenStep G rfl rfl (by unfold waitSucceeds; split <;> rfl) I.control ht hrt

/-! ## Every run -/

/-- The steps that leave alone what is granted, and keep the counts `int`s. -/
def Conserves (x : Account T S) (a : Action T S) : Prop :=
  TokenAction x a ∧ ActionCountsInRange x.kernel a ∧ ActionKeepsGrants x.kernel a

/-- **TOKENS ARE CONSERVED** in every run in which a resume makes no waiter
    ready that is still linked in the queue of its semaphore, an unblock none
    that has been handed a token, and no signal overflows a count. -/
theorem tokens_conserved (cfg : Config T S) (x : Account T S)
    (h : Reach account Conserves (opening cfg) x) : TokensConserved x := by
  have hinv : ∃ L, TokenInv x L := by
    refine h.invariant (I := fun x => ∃ L, TokenInv x L) ⟨_, tokenInv_opening cfg⟩ ?_
    rintro x a x' o ⟨L, I⟩ ⟨ha, hroom, hkeep⟩ hx
    exact I.step ha hroom hkeep hx
  obtain ⟨L, I⟩ := hinv
  exact ⟨L, I.control.rings, fun s hs => (I.kept s hs).1⟩

instance (k : Kernel T S) (op : Op T S) : Decidable (TokenOp k op) := by
  induction op using Op.casesOn <;> unfold TokenOp <;> infer_instance

instance (x : Account T S) (a : Action T S) : Decidable (TokenAction x a) := by
  induction a using RtaiSteps.Action.casesOn <;> unfold TokenAction <;>
    infer_instance

instance (x : Account T S) (a : Action T S) : Decidable (Conserves x a) := by
  unfold Conserves ActionCountsInRange
  infer_instance

/-- One hard task and one counting semaphore without tokens. -/
def oneWaiter : Config (Fin 1) (Fin 1) where
  hard := fun _ => true
  priority := fun _ => 0
  receiver := fun _ => none
  schedlat := fun _ => 0
  linuxSchedlat := 0
  sems := fun _ => { kind := .cntSem, value := 0, fifo := false }
  time := 0

/-- A wait that is served by a signal. -/
theorem tokens_conserved_served :
    ∃ x : Account (Fin 1) (Fin 1), x.succeeded 0 = 1 ∧ TokensConserved x := by
  obtain ⟨x, hplay, hs⟩ : ∃ x, play account Conserves (opening oneWaiter)
      [.linux (.resume 0), .dispatch 0, .call 0 (.semWait 0),
        .linux (.semSignal 0), .dispatch 0, .cont 0] = some x ∧
      x.succeeded 0 = 1 := ⟨_, rfl, rfl⟩
  exact ⟨x, hs, tokens_conserved oneWaiter x (reach_of_play hplay)⟩

/-- The task waits, is suspended, is unblocked from its wait, and is resumed. -/
def forgingRun : List (RtaiSteps.Action (Fin 1) (Fin 1)) :=
  [.linux (.resume 0), .dispatch 0, .call 0 (.semWait 0),
    .linux (.suspend 0), .linux (.unblock 0 {.semaphore}),
    .linux (.resume 0), .dispatch 0, .cont 0]

/-- **A RESUME FORGES A SUCCESS**: the wait returns success although no token
    was ever there. -/
theorem resume_forges_success : ∃ x : Account (Fin 1) (Fin 1),
      Reach account TokenAction (opening oneWaiter) x ∧
      ¬ TokensConserved x := by
  obtain ⟨x, hplay, htype, hconsumed, hsucceeded⟩ :
      ∃ x, play account TokenAction (opening oneWaiter) forgingRun = some x ∧
        x.kernel.type 0 = 0 ∧ x.consumed 0 = 0 ∧ x.succeeded 0 = 1 :=
    ⟨_, rfl, rfl, rfl, rfl⟩
  refine ⟨x, reach_of_play hplay, ?_⟩
  rintro ⟨L, -, hlaw⟩
  have hsum := (hlaw 0 (by rw [htype])).successes
  rw [hconsumed, hsucceeded] at hsum
  omega

end RtaiTokens
