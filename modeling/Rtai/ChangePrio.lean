import Rtai.NoToken

/-! # What `rt_change_prio` does

    A new priority moves tasks in the ready list and in their wait queues, and
    nothing else. -/

namespace RtaiChangePrio

open RtaiKernel RtaiSchedCore RtaiTaskApi RtaiFrames RtaiWaitQueues RtaiControl
  RtaiSemSteps RtaiNoToken

variable {T S : Type}

/-- Priorities change, and the order that they give to the queues. -/
def Reorders (k : Kernel T S) (L : Head T S → List T) (k' : Kernel T S)
    (L' : Head T S → List T) : Prop :=
  ∃ bp, Shuffles { k with basePriority := bp } L k' L'

variable [DecidableEq T] [DecidableEq S] [Fintype T] [Fintype S] in
/-- **`rt_change_prio`** -/
theorem rtChangePrio_reorders {k : Kernel T S} {L : Head T S → List T} {t : T}
    {priority : Int} {r : Outcome T S}
    (h : rtChangePrio k t priority = some r) (C : Control k L) :
    ∃ L' v, r.2 = some v ∧ Reorders k L r.1 L' := by
  have hrefl : ∀ bp, Shuffles { k with basePriority := bp } L
      { k with basePriority := bp } L := fun bp =>
    ⟨k.priority, k.queue, C.rings, fun _ => .refl _, Still.refl _⟩
  unfold rtChangePrio at h
  split at h
  · cases h
    exact ⟨L, _, rfl, k.basePriority, hrefl _⟩
  · dsimp only at h
    generalize (if (!k.isHard t && decide (priority < BASE_SOFT_PRIORITY)) =
      true then priority + BASE_SOFT_PRIORITY else priority) = p at h
    have C₁ := C.data k.priority (Function.update k.basePriority t p) k.count
      k.type k.owndby k.resq
    split at h
    · obtain ⟨⟨k₁, next⟩, hg, h⟩ := Option.bind_eq_some_iff.mp h
      obtain ⟨k₂, hp, h⟩ := Option.bind_eq_some_iff.mp h
      cases h
      obtain ⟨L₁, R₁, G⟩ :=
        givePriority_gives C₁.rings C₁.queuedWhereBlocked hg
      have h1 := G.shuffles R₁
      by_cases hnext : next = .null
      · -- the walk is over after its first round
        subst hnext
        unfold taskFuel at hp
        cases hp
        exact ⟨L₁, _, rfl, _, h1⟩
      · have hQ := G.queuedWhereBlocked hnext C₁.queuedWhereBlocked
        obtain ⟨L₂, R₂, P⟩ := passLoop_passes R₁ hQ hp
        exact ⟨L₂, _, rfl, _, h1.trans (P.shuffles R₁)⟩
    · cases h
      exact ⟨L, _, rfl, _, hrefl _⟩

section Reorders

variable {k k' : Kernel T S} {L L' : Head T S → List T} {s : S}

theorem Reorders.control (h : Reorders k L k' L') (C : Control k L) :
    Control k' L' := by
  obtain ⟨bp, h⟩ := h
  exact (C.data k.priority bp k.count k.type k.owndby k.resq).shuffles h

/-- The fields that a new priority leaves alone. -/
theorem Reorders.fields (h : Reorders k L k' L') :
    k'.pc = k.pc ∧ k'.blockedOn = k.blockedOn ∧ k'.count = k.count ∧
      k'.type = k.type ∧ k'.restype = k.restype ∧ k'.owndby = k.owndby ∧
      ∀ h, (L' h).length = (L h).length := by
  obtain ⟨bp, pr, q, -, hp, hst⟩ := h
  obtain ⟨_, _, _, _, _, _, _, _, _, _, _, rfl, -, -⟩ := hst
  exact ⟨rfl, rfl, rfl, rfl, rfl, rfl, fun h => (hp h).length_eq⟩

theorem Reorders.deep (h : Reorders k L k' L') (hd : Deep k) : Deep k' := by
  obtain ⟨bp, pr, q, -, -, hst⟩ := h
  exact hst.deep hd

theorem Reorders.granted (h : Reorders k L k' L') (t : T) :
    Granted k' s t ↔ Granted k s t := by
  obtain ⟨h1, h2, -⟩ := Reorders.fields h
  unfold Granted
  rw [h1, h2]

theorem Reorders.untouched (h : Reorders k L k' L') :
    Untouched k L k' L' s := by
  obtain ⟨-, -, h3, -, -, -, h7⟩ := Reorders.fields h
  exact ⟨congrFun h3 s, h7 _, Reorders.granted h⟩

theorem Reorders.queueStep (h : Reorders k L k' L') :
    QueueStep k L k' L' s :=
  (Reorders.untouched h).queueStep

end Reorders

end RtaiChangePrio
