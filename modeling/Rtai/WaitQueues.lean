import Rtai.Frames

/-! # What the wait queue operations do to the queues

    The wait queues are a family of rings, and `L h` is the list of the tasks
    in the queue of head `h`.  Here each operation on the links is given as
    one on these lists: `enqueue_blocked` puts a task behind those of the same
    or a higher priority, `dequeue_blocked` takes it out, and a task that is
    given a priority moves in its queue. -/

namespace RtaiWaitQueues

open RtaiRings RtaiKernel RtaiSchedCore RtaiFrames

variable {T S : Type} [decT : DecidableEq T] [decS : DecidableEq S] [finT : Fintype T]
  [finS : Fintype S]

/-- The place behind the tasks that go before priority `p`. -/
theorem queuePos_spec {k : Kernel T S} {L : Head T S → List T}
    (R : Rings k.queue L) {h : Head T S} {p : Int} {pos : Node T (Head T S)}
    (hpos : queuePos k h p = some pos) :
    ∃ l₁ l₂, L h = l₁ ++ l₂ ∧ pos = firstOf l₂ (.head h) ∧
      (∀ a ∈ l₁, k.priority a ≤ p) ∧ ∀ b ∈ l₂.head?, p < k.priority b := by
  unfold queuePos at hpos
  rw [R.next_head] at hpos
  have hstop : queueStop k h p (.head h) = some true := if_pos rfl
  have helem : ∀ a, queueStop k h p (.elem a) =
      some (!(k.priority a ≤ p)) := fun a => if_neg (elem_ne_head a h)
  have h0 : L h = [] ++ L h := rfl
  obtain ⟨l₁, l₂, hL, hpos, h1, h2⟩ := R.walk_split hstop h0 hpos
  refine ⟨l₁, l₂, hL, hpos, ?_, ?_⟩
  · intro a ha
    have := h1 a ha
    rw [helem] at this
    simpa using this
  · intro b hb
    have := h2 b hb
    rw [helem] at this
    simpa using this

/-- **`enqueue_blocked`** puts an unlinked task behind those that go before
    it in a priority queue, and last in a FIFO queue. -/
theorem enqueueBlocked_spec {k k' : Kernel T S} {L : Head T S → List T}
    {t : T} {h : Head T S} {qtype : Int}
    (he : enqueueBlocked k t h qtype = some k') (R : Rings k.queue L)
    (ht : ∀ h', t ∉ L h') :
    ∃ l₁ l₂ q, L h = l₁ ++ l₂ ∧
      k' = { k with
        blockedOn := Function.update k.blockedOn t (.queue h)
        queue := q } ∧
      Rings q (Function.update L h (l₁ ++ t :: l₂)) ∧
      (qtype = 0 → (∀ a ∈ l₁, k.priority a ≤ k.priority t) ∧
        ∀ b ∈ l₂.head?, k.priority t < k.priority b) := by
  unfold enqueueBlocked at he
  simp only at he
  split at he
  · obtain ⟨pos, hpos, he⟩ := Option.bind_eq_some_iff.mp he
    cases he
    have R' : Rings { k with
        blockedOn := Function.update k.blockedOn t (.queue h) }.queue L := R
    obtain ⟨l₁, l₂, hL, rfl, h1, h2⟩ := queuePos_spec R' hpos
    exact ⟨l₁, l₂, _, hL, rfl, R.insert hL ht, fun _ => ⟨h1, h2⟩⟩
  · next hq =>
      cases he
      have hL : L h = L h ++ [] := (List.append_nil _).symm
      exact ⟨L h, [], _, hL, rfl, R.insert hL ht, fun h => absurd h hq⟩

omit decT decS finT finS in
/-- The previous node of a task is the head exactly when the task is first. -/
theorem prev_eq_head {k : Links (Node T (Head T S))}
    {L : Head T S → List T} (R : Rings k L) {h : Head T S} {l₁ l₂ : List T}
    {t : T} (hL : L h = l₁ ++ t :: l₂) :
    k.prev (.elem t) = .head h ↔ l₁ = [] := by
  rw [(R.elem_links hL).2]
  constructor
  · intro hl
    cases l₁ with
    | nil => rfl
    | cons a l =>
      exfalso
      rcases lastOf_mem l (.elem a : Node T (Head T S)) with hc | ⟨b, -, hc⟩
      · exact elem_ne_head a h (hc.symm.trans hl)
      · exact elem_ne_head b h (hc.symm.trans hl)
  · rintro rfl
    rfl

/-- **`reposition`**: a task goes behind those of its queue that go before
    the given priority. -/
theorem reposition_spec {k k' : Kernel T S} {L : Head T S → List T}
    (R : Rings k.queue L) {t : T} {h : Head T S} {p : Int} {l₁ l₂ : List T}
    (hL : L h = l₁ ++ t :: l₂) (hr : reposition k t h p = some k') :
    ∃ m₁ m₂ q, l₁ ++ l₂ = m₁ ++ m₂ ∧ k' = { k with queue := q } ∧
      Rings q (Function.update L h (m₁ ++ t :: m₂)) ∧
      (∀ a ∈ m₁, k.priority a ≤ p) ∧ ∀ b ∈ m₂.head?, p < k.priority b := by
  unfold reposition at hr
  obtain ⟨pos, hpos, hr⟩ := Option.bind_eq_some_iff.mp hr
  cases hr
  have R' := R.unlink hL
  obtain ⟨m₁, m₂, hm, rfl, h1, h2⟩ := queuePos_spec R' hpos
  rw [Function.update_self] at hm
  have hnd := R.nodup h
  rw [hL, List.nodup_middle, List.nodup_cons] at hnd
  have ht : ∀ h', t ∉ Function.update L h (l₁ ++ l₂) h' := by
    intro h'
    by_cases he : h' = h
    · rw [he, Function.update_self]; exact hnd.1
    · rw [Function.update_of_ne he]
      intro hmem
      have hmem' : t ∈ L h := by rw [hL]; simp
      exact he (R.apart h' h t hmem hmem')
  have hm' : Function.update L h (l₁ ++ l₂) h = m₁ ++ m₂ := by
    rw [Function.update_self]; exact hm
  have hins := R'.insert hm' ht
  rw [Function.update_idem] at hins
  exact ⟨m₁, m₂, _, hm, rfl, hins, h1, h2⟩

/-- The tasks that are moved when they get a priority are where `blocked_on`
    says. -/
def QueuedWhereBlocked (k : Kernel T S) (L : Head T S → List T) : Prop :=
  ∀ t h, inPriorityQueue k t = some true → k.blockedOn t = .queue h → t ∈ L h

/-- What `givePriority` does: a ready task keeps its links to the wait queues,
    a task in a priority queue is moved there, and the walk goes on only from
    the first task of a queue. -/
inductive Gives (k : Kernel T S) (L : Head T S → List T) (t : T) (p : Int)
    (k' : Kernel T S) (L' : Head T S → List T) (next : TaskPtr T) : Prop where
  | ready (hready : k.state t = {.ready}) (hL : L' = L) (hn : next = .null)
      (hk : Still { k with priority := Function.update k.priority t p } k')
  | first (hready : k.state t ≠ {.ready})
      (hq : inPriorityQueue k t = some true) (h : Head T S) (l : List T)
      (hb : k.blockedOn t = .queue h) (hl : L h = t :: l) (hL : L' = L)
      (hn : nextOwner k t = some next)
      (hk : k' = { k with priority := Function.update k.priority t p })
  | moved (hready : k.state t ≠ {.ready}) (hq : inPriorityQueue k t = some true) (h : Head T S)
      (l₁ l₂ m₁ m₂ : List T) (q : Links (Node T (Head T S)))
      (hb : k.blockedOn t = .queue h) (hne : l₁ ≠ [])
      (hl : L h = l₁ ++ t :: l₂) (hm : l₁ ++ l₂ = m₁ ++ m₂)
      (hle : ∀ a ∈ m₁, k.priority a ≤ p)
      (hlt : ∀ b ∈ m₂.head?, p < k.priority b)
      (hL : L' = Function.update L h (m₁ ++ t :: m₂))
      (hn : m₁ = [] ∧ nextOwner k t = some next ∨ m₁ ≠ [] ∧ next = .null)
      (hk : k' = { k with
        priority := Function.update k.priority t p
        queue := q })
  | other (hready : k.state t ≠ {.ready}) (hq : inPriorityQueue k t = some false) (hL : L' = L)
      (hn : next = .task t)
      (hk : k' = { k with priority := Function.update k.priority t p })

/-- **One round of the inheritance walk**, with the queues as lists. -/
theorem givePriority_gives {k k' : Kernel T S} {L : Head T S → List T}
    (R : Rings k.queue L) (hQ : QueuedWhereBlocked k L) {t : T} {p : Int}
    {next : TaskPtr T} (hg : givePriority k t p = some (k', next)) :
    ∃ L', Rings k'.queue L' ∧ Gives k L t p k' L' next := by
  unfold givePriority at hg
  simp only at hg
  split at hg
  · next hready =>
      split at hg
      · obtain ⟨k₁, he, hg⟩ := Option.bind_eq_some_iff.mp hg
        cases hg
        have hstill := enqReadyTask_still he hready
        have hk : Still { k with priority := Function.update k.priority t p }
            k' := by
          exact (Still.ready _ _).trans hstill
        refine ⟨L, ?_, .ready hready rfl rfl hk⟩
        obtain ⟨_, _, _, _, _, _, _, _, _, _, _, rfl, -, -⟩ := hk
        exact R
      · cases hg
        exact ⟨L, R, .ready hready rfl rfl (Still.refl _)⟩
  · next hready =>
      obtain ⟨b, hb, hg⟩ := Option.bind_eq_some_iff.mp hg
      have hq : inPriorityQueue k t = some b := hb
      cases b with
      | false =>
        cases hg
        exact ⟨L, R, .other hready hq rfl rfl rfl⟩
      | true =>
        simp only [if_true] at hg
        cases hbo : k.blockedOn t with
        | null => rw [hbo] at hg; exact nomatch hg
        | objrem => rw [hbo] at hg; exact nomatch hg
        | unblkd => rw [hbo] at hg; exact nomatch hg
        | self _ => rw [hbo] at hg; exact nomatch hg
        | queue h =>
          rw [hbo] at hg
          simp only at hg
          obtain ⟨l₁, l₂, hl⟩ := List.append_of_mem (hQ t h hq hbo)
          split at hg
          · next hfirst =>
              obtain ⟨n, hn, hg⟩ := Option.bind_eq_some_iff.mp hg
              cases hg
              have hnil : l₁ = [] := (prev_eq_head R hl).mp hfirst
              subst hnil
              exact ⟨L, R, .first hready hq h l₂ hbo hl rfl hn rfl⟩
          · next hnot =>
              obtain ⟨k₁, hr, hg⟩ := Option.bind_eq_some_iff.mp hg
              have R₁ : Rings { k with
                  priority := Function.update k.priority t p }.queue L := R
              obtain ⟨m₁, m₂, q, hm, rfl, R', h1, h2⟩ :=
                reposition_spec R₁ hl hr
              have hnd := R.nodup h
              rw [hl, List.nodup_middle, List.nodup_cons, hm] at hnd
              have hold : ∀ a, a ∈ m₁ ++ m₂ →
                  Function.update k.priority t p a = k.priority a := by
                intro a ha
                refine Function.update_of_ne ?_ ..
                intro hc
                exact hnd.1 (hc ▸ ha)
              have hle : ∀ a ∈ m₁, k.priority a ≤ p := fun a ha =>
                hold a (List.mem_append_left _ ha) ▸ h1 a ha
              have hlt : ∀ b ∈ m₂.head?, p < k.priority b := by
                intro b hb
                have hbm : b ∈ m₂ := List.mem_of_mem_head? hb
                exact hold b (List.mem_append_right _ hbm) ▸ h2 b hb
              have hne : l₁ ≠ [] :=
                fun hc => hnot ((prev_eq_head R hl).mpr hc)
              have hL' : Function.update L h (m₁ ++ t :: m₂) h =
                  m₁ ++ t :: m₂ := Function.update_self ..
              simp only at hg
              split at hg
              · next hfirst =>
                  obtain ⟨n, hn, hg⟩ := Option.bind_eq_some_iff.mp hg
                  cases hg
                  exact ⟨_, R', .moved hready hq h l₁ l₂ m₁ m₂ q hbo hne hl hm hle hlt rfl
                    (Or.inl ⟨(prev_eq_head R' hL').mp hfirst, hn⟩) rfl⟩
              · next hnf =>
                  cases hg
                  exact ⟨_, R', .moved hready hq h l₁ l₂ m₁ m₂ q hbo hne
                    hl hm hle hlt rfl (Or.inr
                      ⟨fun hc => hnf ((prev_eq_head R' hL').mpr hc), rfl⟩)
                    rfl⟩

omit finT finS in
/-- A round of the walk keeps the tasks of every queue, in another order. -/
theorem Gives.perm {k k' : Kernel T S} {L L' : Head T S → List T} {t : T}
    {p : Int} {next : TaskPtr T} (G : Gives k L t p k' L' next)
    (h : Head T S) : (L' h).Perm (L h) := by
  cases G with
  | ready _ hL _ _ => rw [hL]
  | first _ _ _ _ _ _ hL _ _ => rw [hL]
  | other _ _ hL _ _ => rw [hL]
  | moved _ _ h₀ l₁ l₂ m₁ m₂ _ _ _ hl hm _ _ hL _ _ =>
    rw [hL]
    by_cases he : h = h₀
    · rw [he, Function.update_self, hl]
      refine List.perm_middle.trans (List.Perm.trans ?_ List.perm_middle.symm)
      rw [hm]
    · rw [Function.update_of_ne he]

/-- The walk only changes priorities, the order in the wait queues and what is
    `Still`. -/
def Shuffles (k : Kernel T S) (L : Head T S → List T) (k' : Kernel T S)
    (L' : Head T S → List T) : Prop :=
  ∃ pr q, Rings q L' ∧ (∀ h, (L' h).Perm (L h)) ∧
    Still { k with priority := pr, queue := q } k'

omit finT finS in
theorem Gives.shuffles {k k' : Kernel T S} {L L' : Head T S → List T} {t : T}
    {p : Int} {next : TaskPtr T} (G : Gives k L t p k' L' next)
    (R' : Rings k'.queue L') : Shuffles k L k' L' := by
  have hperm := G.perm
  refine ⟨Function.update k.priority t p, k'.queue, R', hperm, ?_⟩
  cases G with
  | ready _ _ _ hk =>
    obtain ⟨_, _, _, _, _, _, _, _, _, _, _, rfl, hst, hwk⟩ := hk
    exact ⟨_, _, _, _, _, _, _, _, _, _, _, rfl, hst, hwk⟩
  | first _ _ _ _ _ _ _ _ hk => rw [hk]; exact Still.refl _
  | moved _ _ _ _ _ _ _ _ _ _ _ _ _ _ _ _ hk => rw [hk]; exact Still.refl _
  | other _ _ _ _ hk => rw [hk]; exact Still.refl _

omit decT decS finT finS in
theorem Shuffles.trans {k₁ k₂ k₃ : Kernel T S} {L₁ L₂ L₃ : Head T S → List T}
    (h₁ : Shuffles k₁ L₁ k₂ L₂) (h₂ : Shuffles k₂ L₂ k₃ L₃) :
    Shuffles k₁ L₁ k₃ L₃ := by
  obtain ⟨pr, q, -, hp, S₁⟩ := h₁
  obtain ⟨pr', q', R', hp', S₂⟩ := h₂
  refine ⟨pr', q', R', fun h => (hp' h).trans (hp h), Still.trans ?_ S₂⟩
  obtain ⟨_, _, _, _, _, _, _, _, _, _, _, rfl, hst, hwk⟩ := S₁
  exact ⟨_, _, _, _, _, _, _, _, _, _, _, rfl, hst, hwk⟩

/-- The walk of `pass_prio`: as long as the next task is there and has a lower
    priority, it is given priority `p`. -/
inductive Passes (p : Int) : Kernel T S → (Head T S → List T) → TaskPtr T →
    Kernel T S → (Head T S → List T) → Prop where
  | null (k : Kernel T S) (L : Head T S → List T) : Passes p k L .null k L
  | stop (k : Kernel T S) (L : Head T S → List T) (t : T)
      (hp : k.priority t ≤ p) : Passes p k L (.task t) k L
  | step {k k₁ k' : Kernel T S} {L L₁ L' : Head T S → List T} {t : T}
      {next : TaskPtr T} (hp : p < k.priority t)
      (G : Gives k L t p k₁ L₁ next) (R : Rings k₁.queue L₁)
      (rest : Passes p k₁ L₁ next k' L') : Passes p k L (.task t) k' L'

omit finT finS in
/-- Where the tasks of the priority queues are is not changed by a round that
    does not end the walk. -/
theorem Gives.queuedWhereBlocked {k k' : Kernel T S}
    {L L' : Head T S → List T} {t : T} {p : Int} {next : TaskPtr T}
    (G : Gives k L t p k' L' next) (hnext : next ≠ .null)
    (hQ : QueuedWhereBlocked k L) : QueuedWhereBlocked k' L' := by
  intro u h hq hb
  have hperm := G.perm h
  cases G with
  | ready _ _ hn _ => exact absurd hn hnext
  | first _ _ _ _ _ _ _ _ hk => subst hk; exact hperm.mem_iff.mpr (hQ u h hq hb)
  | moved _ _ _ _ _ _ _ _ _ _ _ _ _ _ _ _ hk =>
    subst hk; exact hperm.mem_iff.mpr (hQ u h hq hb)
  | other _ _ _ _ hk => subst hk; exact hperm.mem_iff.mpr (hQ u h hq hb)

/-- **The inheritance walk is a sequence of rounds.** -/
theorem passLoop_passes {p : Int} {fuel : Nat} :
    ∀ {k k' : Kernel T S} {L : Head T S → List T} {dest : TaskPtr T},
      Rings k.queue L → QueuedWhereBlocked k L →
      passLoop fuel k dest p = some k' →
      ∃ L', Rings k'.queue L' ∧ Passes p k L dest k' L' := by
  induction fuel with
  | zero =>
    intro k k' L dest R _ h
    cases dest with
    | null => cases h; exact ⟨L, R, .null k L⟩
    | higerr => exact nomatch h
    | task t => exact nomatch h
  | succ fuel ih =>
    intro k k' L dest R hQ h
    cases dest with
    | null => cases h; exact ⟨L, R, .null k L⟩
    | higerr => exact nomatch h
    | task t =>
      unfold passLoop at h
      split at h
      · next hp =>
          obtain ⟨⟨k₁, next⟩, hg, h⟩ := Option.bind_eq_some_iff.mp h
          obtain ⟨L₁, R₁, G⟩ := givePriority_gives R hQ hg
          by_cases hnext : next = .null
          · subst hnext
            have hk : k' = k₁ := by
              cases fuel <;> exact (Option.some.inj h).symm
            subst hk
            exact ⟨L₁, R₁, .step hp G R₁ (.null _ _)⟩
          · have hQ₁ := G.queuedWhereBlocked hnext hQ
            obtain ⟨L', R', hrest⟩ := ih R₁ hQ₁ h
            exact ⟨L', R', .step hp G R₁ hrest⟩
      · next hp =>
          cases h
          exact ⟨L, R, .stop k L t (not_lt.mp hp)⟩

omit finT finS in
theorem Passes.shuffles {p : Int} {k k' : Kernel T S}
    {L L' : Head T S → List T} {dest : TaskPtr T}
    (P : Passes p k L dest k' L') (R : Rings k.queue L) :
    Shuffles k L k' L' := by
  induction P with
  | null k L => exact ⟨k.priority, k.queue, R, fun _ => .refl _, Still.refl _⟩
  | stop k L _ _ => exact ⟨k.priority, k.queue, R, fun _ => .refl _, Still.refl _⟩
  | step _ G R₁ _ ih => exact (G.shuffles R₁).trans (ih R₁)

end RtaiWaitQueues
