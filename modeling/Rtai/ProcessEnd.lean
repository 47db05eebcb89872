import Rtai.UseCounts

/-! # sys.c: the end of a process

    `linux_process_termination` goes over the slots of the registry, drops a
    reference of each object that the process has registered, and deletes and
    frees the object when there are references left. -/

namespace RtaiProcessEnd

open RtaiProbing RtaiRegistry RtaiRegistrySlots RtaiRegistryMap
open RtaiUseCounts

/-! ## The functions -/

/-- What an object is, whatever it is registered as. -/
inductive Kind where
  | sem
  | rwl
  | spl
  | mbx
  | prx
  | task
  | other
  deriving DecidableEq

/-- The registry, the objects that are allocated, and those that have been
    deleted by the routine of their kind, which has released their waiters.  Of
    a pointer that is `wild` nothing more is known: it has been read and
    freed. -/
structure World where
  reg : Registry
  heap : Nat → Option Kind
  deleted : Nat → Bool
  wild : Bool

variable (w : World)

/-- The delete routine of a kind, and `rt_free`. -/
def World.deleteAs (kind : Kind) (adr : Nat) : World :=
  { w with
    heap := Function.update w.heap adr none
    deleted := if w.heap adr = some kind then
      Function.update w.deleted adr true else w.deleted }

/-- The `switch (entry.type)`.  `PROXY_DETACH` wants the address of the proxy, and
    is called with its pid, which `rt_task_delete` takes for the address. -/
def World.release (type : Int) (adr : Nat) : World :=
  if type = IS_SEM then w.deleteAs .sem adr
  else if type = IS_RWL then w.deleteAs .rwl adr
  else if type = IS_SPL then w.deleteAs .spl adr
  else if type = IS_MBX then w.deleteAs .mbx adr
  else if type = IS_PRX then { w with wild := true }
  else w

/-- The body of the loop. -/
def World.slot (current : Nat) (w : World) (slot : Nat) : World :=
  match rtGetRegistrySlot w.reg slot with
  | none => w
  | some entry =>
    if entry.tsk ≠ current then w
    else
      let r := rtDrgOnNameCnt w.reg entry.name
      if r.2 ≤ 0 then { w with reg := r.1 }
      else { w with reg := r.1 }.release entry.type entry.adr

/-- The loop, over the slots `1, ..., max_slots`. -/
def World.slots (current : Nat) : World :=
  (List.range' 1 w.reg.maxSlots).foldl (World.slot current) w

/-- The task of the process, whose address is in `TSKEXT0`, when `clr_rtext`
    returns 0. -/
def World.endTask (tskext0 : Nat) : World :=
  { w with
    reg := (rtDrgOnAdr w.reg tskext0).1
    heap := Function.update w.heap tskext0 none
    deleted := Function.update w.deleted tskext0 true }

/-- `linux_process_termination`.  `cleared` says that `clr_rtext` returns 0. -/
def linuxProcessTermination (current tskext0 : Nat) (cleared : Bool) : World :=
  if isProcessRegistered w.reg tskext0 = 0 then w
  else if cleared then (w.slots current).endTask tskext0
  else w.slots current

/-! ## What it is to do -/

/-- An object is gone, deleted by the routine of its kind. -/
def Gone (w' : World) (name : Nat) (o : Object) : Prop :=
  (∀ o', ¬ Has w'.reg name o') ∧ w'.heap o.adr = none ∧ w'.deleted o.adr = true

/-- An object is there as before, with these references. -/
def Stays (w w' : World) (name : Nat) (o : Object) (count : Nat) : Prop :=
  Has w'.reg name { o with count := count } ∧
    w'.heap o.adr = w.heap o.adr ∧ w'.deleted o.adr = w.deleted o.adr

/-- **A PROCESS ENDS RIGHTLY**: its references are dropped, and the objects whose
    last they were are deleted and freed, and no others.  Its own task is gone
    when `clr_rtext` takes it, unless others refer to it. -/
def EndsRightly (w w' : World) (current tskext0 : Nat) (cleared : Bool) : Prop :=
  w'.wild = false ∧ ∀ name o, Has w.reg name o →
    if o.adr = tskext0 then
      cleared = true →
        if o.count = 1 then Gone w' name o else Stays w w' name o (o.count - 1)
    else if o.tsk = current then
      if o.count = 1 then Gone w' name o else Stays w w' name o (o.count - 1)
    else Stays w w' name o o.count

/-- The types whose objects are freed. -/
def Released (type : Int) : Prop :=
  type = IS_SEM ∨ type = IS_RWL ∨ type = IS_SPL ∨ type = IS_MBX

instance (type : Int) : Decidable (Released type) := by
  unfold Released
  infer_instance

/-- A proxy of the process, with further references. -/
def Detached (current : Nat) (o : Object) : Prop :=
  o.tsk = current ∧ o.count ≠ 1 ∧ o.type = IS_PRX

/-- The process has registered nothing, or only what others still refer to and
    what is of no type that is freed or detached, and others do not refer to its
    task. -/
def NothingToRelease (w : World) (current tskext0 : Nat) (cleared : Bool) :
    Prop :=
  (∀ name o, Has w.reg name o → isProcessRegistered w.reg tskext0 ≠ 0 → ¬ Detached current o) ∧
  ∀ name o, Has w.reg name o →
    if o.adr = tskext0 then cleared = true → o.count = 1
    else o.tsk = current →
      isProcessRegistered w.reg tskext0 ≠ 0 ∧ o.count ≠ 1 ∧ ¬ Released o.type

/-! ## What the switch does -/

section Switch

variable {w : World} {adr b : Nat} {type : Int} {kind : Kind}

theorem deleteAs_frame (hb : b ≠ adr) : (w.deleteAs kind adr).heap b = w.heap b ∧
      (w.deleteAs kind adr).deleted b = w.deleted b := by
  unfold World.deleteAs
  refine ⟨Function.update_of_ne hb .., ?_⟩
  dsimp only
  split
  · exact Function.update_of_ne hb ..
  · rfl

theorem deleteAs_heap : (w.deleteAs kind adr).heap adr = none :=
  Function.update_self ..

/-- What is released is freed. -/
theorem release_of_released (h : Released type) :
    ∃ kind, w.release type adr = w.deleteAs kind adr := by
  unfold World.release
  split
  · exact ⟨_, rfl⟩
  split
  · exact ⟨_, rfl⟩
  split
  · exact ⟨_, rfl⟩
  split
  · exact ⟨_, rfl⟩
  · exfalso
    rcases h with h | h | h | h <;> contradiction

/-- **A PROXY IS NOT DETACHED**: nothing happens to what is of other types. -/
theorem release_of_not (h : ¬ Released type) : (w.release type adr).heap = w.heap ∧
      (w.release type adr).deleted = w.deleted := by
  have h1 : type ≠ IS_SEM := fun heq => h (Or.inl heq)
  have h2 : type ≠ IS_RWL := fun heq => h (Or.inr (Or.inl heq))
  have h3 : type ≠ IS_SPL := fun heq => h (Or.inr (Or.inr (Or.inl heq)))
  have h4 : type ≠ IS_MBX := fun heq => h (Or.inr (Or.inr (Or.inr heq)))
  unfold World.release
  rw [if_neg h1, if_neg h2, if_neg h3, if_neg h4]
  split
  · exact ⟨rfl, rfl⟩
  · exact ⟨rfl, rfl⟩

/-- **ITS PID IS TAKEN FOR ITS ADDRESS.** -/
theorem release_wild : (w.release type adr).wild = true ↔ w.wild = true ∨ type = IS_PRX := by
  by_cases hrel : Released type
  · have hne : type ≠ IS_PRX := by
      rintro rfl
      exact absurd hrel (by decide)
    obtain ⟨kind, hdel⟩ := @release_of_released w adr type hrel
    rw [hdel]
    exact (or_iff_left hne).symm
  · unfold Released at hrel
    obtain ⟨h1, h2, h3, h4⟩ : type ≠ IS_SEM ∧ type ≠ IS_RWL ∧ type ≠ IS_SPL ∧
        type ≠ IS_MBX := by
      push Not at hrel
      exact hrel
    unfold World.release
    rw [if_neg h1, if_neg h2, if_neg h3, if_neg h4]
    split
    · exact iff_of_true rfl (Or.inr ‹_›)
    · exact (or_iff_left ‹_›).symm

theorem release_reg : (w.release type adr).reg = w.reg := by
  by_cases h : Released type
  · obtain ⟨kind, hrel⟩ := @release_of_released w adr type h
    rw [hrel]
    rfl
  · unfold World.release
    repeat (split; · rfl)
    rfl

/-- Nothing happens at other addresses. -/
theorem release_frame (hb : b ≠ adr) : (w.release type adr).heap b = w.heap b ∧
      (w.release type adr).deleted b = w.deleted b := by
  by_cases h : Released type
  · obtain ⟨kind, hrel⟩ := @release_of_released w adr type h
    rw [hrel]
    exact deleteAs_frame hb
  · obtain ⟨h1, h2⟩ := @release_of_not w adr type h
    exact ⟨congrFun h1 b, congrFun h2 b⟩

end Switch

/-! ## One slot -/

/-- The registry is in order. -/
structure Sound (w : World) : Prop where
  consistent : Consistent w.reg.lxrtList w.reg.maxSlots
  used : Used w.reg.lxrtList w.reg.maxSlots

/-- The object in a slot. -/
def Sits (w : World) (k name : Nat) (o : Object) : Prop :=
  NamedAt w.reg.lxrtList w.reg.maxSlots k name ∧ objectAt w.reg.lxrtList k = o

/-- A reference of the object in a slot is dropped. -/
def World.dropRef (w : World) (k : Nat) : World :=
  { w with reg :=
    ⟨dropped w.reg.lxrtList w.reg.maxSlots k (-EFAULT), w.reg.maxSlots⟩ }

/-- Nothing has the name any more, or the address. -/
def Away (w : World) (name adr : Nat) : Prop :=
  ∀ m o, Has w.reg m o → m ≠ name ∧ o.adr ≠ adr

/-- The process has lost its reference. -/
def Dropped (w w' : World) (k name : Nat) (o : Object) : Prop :=
  if o.count = 1 then
    Away w' name o.adr ∧ w'.heap o.adr = w.heap o.adr ∧ w'.deleted o.adr = w.deleted o.adr
  else
    Sits w' k name { o with count := o.count - 1 } ∧ (Released o.type → w'.heap o.adr = none) ∧
      (¬ Released o.type → w'.heap o.adr = w.heap o.adr ∧ w'.deleted o.adr = w.deleted o.adr)

section Slot

variable {w : World} {current k k' name m adr : Nat} {o o' : Object}

theorem Sits.has (h : Sits w k name o) : Has w.reg name o :=
  ⟨k, h.1, h.2⟩

/-- The name of a slot is not touched by the removal of another. -/
theorem dropped_name (list : Slots) (n : Nat) (dec : Int) {x : Nat}
    (hx : x ≠ k) : (dropped list n k dec x).name = (list x).name := by
  have hf := counted_fields list k dec x
  unfold dropped
  split
  · show (if x = k then _ else (counted list k dec x).name) = _
    rw [if_neg hx]
    exact hf.1
  · exact hf.1

theorem slot_of_free (h : ¬ NONAME < (w.reg.lxrtList k).name) :
    World.slot current w k = w := by
  unfold World.slot rtGetRegistrySlot
  rw [if_neg h]

theorem slot_of_other (h : Sits w k name o) (htsk : o.tsk ≠ current) :
    World.slot current w k = w := by
  obtain ⟨hk, rfl⟩ := h
  unfold World.slot rtGetRegistrySlot
  rw [if_pos hk.live]
  exact if_pos htsk

/-- A reference to an object of the process is dropped. -/
theorem slot_of_own (S : Sound w) (h : Sits w k name o) (htsk : o.tsk = current) :
    World.slot current w k =
      if o.count = 1 then w.dropRef k
      else (w.dropRef k).release o.type o.adr := by
  obtain ⟨hk, rfl⟩ := h
  have hpos : 0 < (w.reg.lxrtList k).count := S.used name _ ⟨k, hk, rfl⟩
  have hdrop : rtDrgOnNameCnt w.reg (w.reg.lxrtList k).name =
      (⟨dropped w.reg.lxrtList w.reg.maxSlots k (-EFAULT), w.reg.maxSlots⟩,
        (((w.reg.lxrtList k).count - 1 : Nat) : Int)) := by
    rw [hk.2.2]
    exact rtDrgOnNameCnt_named S.consistent hk
  unfold World.slot rtGetRegistrySlot
  rw [if_pos hk.live]
  dsimp only
  have htsk' : ¬ (w.reg.lxrtList k).tsk ≠ current := not_not.mpr htsk
  rw [if_neg htsk', hdrop]
  dsimp only
  by_cases h1 : (w.reg.lxrtList k).count = 1
  · have hle : (((w.reg.lxrtList k).count - 1 : Nat) : Int) ≤ 0 := by omega
    rw [if_pos hle]
    exact (if_pos h1).symm
  · have hlt : ¬ (((w.reg.lxrtList k).count - 1 : Nat) : Int) ≤ 0 := by omega
    rw [if_neg hlt]
    exact (if_neg h1).symm

/-- What the registry is after one slot: the same, or a reference of the object
    in the slot has been dropped. -/
theorem slot_reg (S : Sound w) (hk : Seat w.reg.maxSlots k) : World.slot current w k = w ∨
      ∃ m o', Sits w k m o' ∧ o'.tsk = current ∧
        (World.slot current w k).reg = (w.dropRef k).reg ∧
        ∀ b, b ≠ o'.adr → (World.slot current w k).heap b = w.heap b ∧
          (World.slot current w k).deleted b = w.deleted b := by
  by_cases hlive : NONAME < (w.reg.lxrtList k).name
  · have h : Sits w k (w.reg.lxrtList k).name (objectAt w.reg.lxrtList k) :=
      ⟨⟨hk, hlive, rfl⟩, rfl⟩
    by_cases htsk : (objectAt w.reg.lxrtList k).tsk = current
    · right
      refine ⟨_, _, h, htsk, ?_⟩
      rw [slot_of_own S h htsk]
      split
      · exact ⟨rfl, fun b _ => ⟨rfl, rfl⟩⟩
      · exact ⟨release_reg, fun b hb => release_frame hb⟩
    · left
      exact slot_of_other h htsk
  · left
    exact slot_of_free hlive

theorem slot_maxSlots (S : Sound w) (hk : Seat w.reg.maxSlots k) :
    (World.slot current w k).reg.maxSlots = w.reg.maxSlots := by
  rcases @slot_reg w current k S hk with h | ⟨m, o', -, -, hreg, -⟩
  · rw [h]
  · rw [hreg]
    rfl

theorem slot_sound (S : Sound w) (hk : Seat w.reg.maxSlots k) :
    Sound (World.slot current w k) := by
  rcases @slot_reg w current k S hk with h | ⟨m, o', hsits, -, hreg, -⟩
  · rw [h]
    exact S
  · constructor
    · rw [hreg]
      exact S.consistent.drops hsits.1 _
    · rw [hreg]
      exact used_dropped S.consistent S.used hsits.1 _

/-- **THE OTHER SLOTS ARE LEFT ALONE.** -/
theorem slot_keeps (S : Sound w) (hk : Seat w.reg.maxSlots k)
    (h : Sits w k' name o) (hne : k ≠ k') :
    Sits (World.slot current w k) k' name o ∧
      (World.slot current w k).heap o.adr = w.heap o.adr ∧
      (World.slot current w k).deleted o.adr = w.deleted o.adr := by
  have C := S.consistent
  rcases @slot_reg w current k S hk with hsame | ⟨m, o', hsits, -, hreg, hother⟩
  · rw [hsame]
    exact ⟨h, rfl, rfl⟩
  · have hname : name ≠ m := by
      rintro rfl
      exact hne (C.sameSlot hsits.1 h.1)
    have hadr : o.adr ≠ o'.adr := fun heq =>
      hname (C.sameName h.has hsits.has heq)
    refine ⟨?_, hother _ hadr⟩
    unfold Sits
    rw [hreg]
    have hslot := @dropped_name k w.reg.lxrtList w.reg.maxSlots (-EFAULT) k' (Ne.symm hne)
    have hat : NamedAt (dropped w.reg.lxrtList w.reg.maxSlots k (-EFAULT))
        w.reg.maxSlots k' name := ⟨h.1.1, h.1.2.1, hslot.trans h.1.2.2⟩
    refine ⟨hat, ?_⟩
    have hstill : Registered (dropped w.reg.lxrtList w.reg.maxSlots k (-EFAULT))
        w.reg.maxSlots name o := by
      have hless := dropped_oneLess C S.used hsits.1 name o
      exact hless.mpr ((if_neg hname).symm ▸ h.has)
    exact (C.drops hsits.1 (-EFAULT)).sameObject ⟨k', hat, rfl⟩ hstill

/-- **WHAT IS GONE STAYS AWAY.** -/
theorem slot_away (S : Sound w) (hk : Seat w.reg.maxSlots k) (h : Away w name adr) :
    Away (World.slot current w k) name adr ∧ (World.slot current w k).heap adr = w.heap adr ∧
      (World.slot current w k).deleted adr = w.deleted adr := by
  rcases @slot_reg w current k S hk with hsame | ⟨m, o', hsits, -, hreg, hother⟩
  · rw [hsame]
    exact ⟨h, rfl, rfl⟩
  · refine ⟨?_, hother _ (h m o' hsits.has).2.symm⟩
    intro x o hx
    unfold Has at hx
    rw [hreg] at hx
    have hless := (dropped_oneLess S.consistent S.used hsits.1 x o).mp hx
    by_cases hxm : x = m
    · rw [if_pos hxm, hsits.2] at hless
      obtain ⟨-, rfl⟩ := hless
      exact ⟨hxm ▸ (h m o' hsits.has).1, (h m o' hsits.has).2⟩
    · rw [if_neg hxm] at hless
      exact h x o hless

/-- The object in the slot loses a reference. -/
theorem slot_drops (S : Sound w) (h : Sits w k name o)
    (htsk : o.tsk = current) : Dropped w (World.slot current w k) k name o := by
  unfold Dropped
  have C := S.consistent
  have hless := dropped_oneLess C S.used h.1
  rw [slot_of_own S h htsk]
  by_cases h1 : o.count = 1
  · rw [if_pos h1, if_pos h1]
    refine ⟨?_, rfl, rfl⟩
    intro x o' hx
    have hx' := (hless x o').mp hx
    by_cases hxn : x = name
    · rw [if_pos hxn, h.2] at hx'
      have := hx'.1
      omega
    · rw [if_neg hxn] at hx'
      exact ⟨hxn, fun heq => hxn (C.sameName hx' h.has heq)⟩
  · rw [if_neg h1, if_neg h1]
    have hpos : 0 < o.count := S.used name o h.has
    refine ⟨?_, ?_, ?_⟩
    · unfold Sits
      rw [release_reg]
      have hmore : Registered (w.dropRef k).reg.lxrtList
          (w.dropRef k).reg.maxSlots name { o with count := o.count - 1 } := by
        refine (hless name _).mpr ?_
        rw [if_pos rfl, h.2]
        exact ⟨by omega, rfl⟩
      obtain ⟨x, hx, hobj⟩ := hmore
      -- the name has not moved
      have hxk : x = k := by
        by_contra hne
        have hname := @dropped_name k w.reg.lxrtList w.reg.maxSlots (-EFAULT) x hne
        have hx' : NamedAt w.reg.lxrtList w.reg.maxSlots x name :=
          ⟨hx.1, hx.2.1, hname.symm.trans hx.2.2⟩
        exact hne (C.sameSlot hx' h.1)
      subst hxk
      exact ⟨hx, hobj⟩
    · intro hrel
      obtain ⟨kind, hdel⟩ := @release_of_released (w.dropRef k) o.adr o.type hrel
      rw [hdel]
      exact deleteAs_heap
    · intro hnot
      obtain ⟨hheap, hdel⟩ := @release_of_not (w.dropRef k) o.adr o.type hnot
      exact ⟨congrFun hheap o.adr, congrFun hdel o.adr⟩

/-- What sits in another slot was there before. -/
theorem sits_slot (S : Sound w) (hk : Seat w.reg.maxSlots k) (hne : k' ≠ k) :
    Sits (World.slot current w k) k' name o ↔ Sits w k' name o := by
  constructor
  · intro h
    have hat : NamedAt w.reg.lxrtList w.reg.maxSlots k' name := by
      rcases @slot_reg w current k S hk with hsame | ⟨m, o', -, -, hreg, -⟩
      · exact hsame ▸ h.1
      · have h1 := h.1
        rw [hreg] at h1
        have hname := dropped_name w.reg.lxrtList w.reg.maxSlots (-EFAULT) hne
        exact ⟨h1.1, h1.2.1, hname.symm.trans h1.2.2⟩
    have hsits : Sits w k' name (objectAt w.reg.lxrtList k') := ⟨hat, rfl⟩
    obtain ⟨hthere, -⟩ := @slot_keeps w current k k' name _ S hk hsits (Ne.symm hne)
    exact ⟨hat, hthere.2.symm.trans h.2⟩
  · intro h
    exact (slot_keeps S hk h (Ne.symm hne)).1

/-- A proxy of the process that keeps references makes the pointer wild. -/
theorem slot_wild (S : Sound w) (hk : Seat w.reg.maxSlots k) :
    (World.slot current w k).wild = true ↔
      w.wild = true ∨ ∃ name o, Sits w k name o ∧ Detached current o := by
  by_cases hlive : NONAME < (w.reg.lxrtList k).name
  · have h : Sits w k (w.reg.lxrtList k).name (objectAt w.reg.lxrtList k) :=
      ⟨⟨hk, hlive, rfl⟩, rfl⟩
    have hthis : (∃ name o, Sits w k name o ∧ Detached current o) ↔
        Detached current (objectAt w.reg.lxrtList k) := by
      constructor
      · rintro ⟨name, o, ⟨-, rfl⟩, hd⟩
        exact hd
      · intro hd
        exact ⟨_, _, h, hd⟩
    rw [hthis]
    by_cases htsk : (objectAt w.reg.lxrtList k).tsk = current
    · rw [slot_of_own S h htsk]
      split
      · next h1 => exact (or_iff_left fun hd => hd.2.1 h1).symm
      · next h1 =>
          rw [release_wild]
          exact or_congr_right ⟨fun ht => ⟨htsk, h1, ht⟩, fun hd => hd.2.2⟩
    · rw [slot_of_other h htsk]
      exact (or_iff_left fun hd => htsk hd.1).symm
  · rw [slot_of_free hlive]
    refine (or_iff_left ?_).symm
    rintro ⟨name, o, ⟨⟨-, hpos, hname⟩, -⟩, -⟩
    exact hlive (hname ▸ hpos)

end Slot

/-! ## All the slots -/

section Loop

variable {w : World} {current k' name adr n : Nat} {o : Object}

/-- The other slots are still slots. -/
theorem seats_slot {k : Nat} {l : List Nat} (S : Sound w)
    (hl : ∀ x ∈ k :: l, Seat w.reg.maxSlots x) :
    ∀ x ∈ l, Seat (World.slot current w k).reg.maxSlots x := by
  intro x hx
  rw [slot_maxSlots S (hl k List.mem_cons_self)]
  exact hl x (List.mem_cons_of_mem k hx)

theorem slots_sound (l : List Nat) (hl : ∀ k ∈ l, Seat w.reg.maxSlots k)
    (S : Sound w) : Sound (l.foldl (World.slot current) w) := by
  induction l generalizing w with
  | nil => exact S
  | cons k l ih =>
    exact ih (seats_slot S hl) (slot_sound S (hl k List.mem_cons_self))

/-- **WHAT IS NOT THE PROCESS'** stays as it is, and so does what is in no slot
    of the list. -/
theorem slots_keep (l : List Nat) (hl : ∀ k ∈ l, Seat w.reg.maxSlots k)
    (S : Sound w) (h : Sits w k' name o) (hne : k' ∉ l ∨ o.tsk ≠ current) :
    Sits (l.foldl (World.slot current) w) k' name o ∧
      (l.foldl (World.slot current) w).heap o.adr = w.heap o.adr ∧
      (l.foldl (World.slot current) w).deleted o.adr = w.deleted o.adr := by
  induction l generalizing w with
  | nil => exact ⟨h, rfl, rfl⟩
  | cons k l ih =>
    have hk := hl k List.mem_cons_self
    have hne' : k' ∉ l ∨ o.tsk ≠ current :=
      hne.imp_left fun hn hx => hn (List.mem_cons_of_mem k hx)
    have hstep : Sits (World.slot current w k) k' name o ∧
        (World.slot current w k).heap o.adr = w.heap o.adr ∧
        (World.slot current w k).deleted o.adr = w.deleted o.adr := by
      by_cases hkk : k = k'
      · subst hkk
        have htsk := hne.resolve_left fun hn => hn List.mem_cons_self
        rw [slot_of_other h htsk]
        exact ⟨h, rfl, rfl⟩
      · exact slot_keeps S hk h hkk
    obtain ⟨h1, h2, h3⟩ := hstep
    obtain ⟨g1, g2, g3⟩ := ih (seats_slot S hl) (slot_sound S hk) h1 hne'
    exact ⟨g1, g2.trans h2, g3.trans h3⟩

theorem slots_away (l : List Nat) (hl : ∀ k ∈ l, Seat w.reg.maxSlots k)
    (S : Sound w) (h : Away w name adr) :
    Away (l.foldl (World.slot current) w) name adr ∧
      (l.foldl (World.slot current) w).heap adr = w.heap adr ∧
      (l.foldl (World.slot current) w).deleted adr = w.deleted adr := by
  induction l generalizing w with
  | nil => exact ⟨h, rfl, rfl⟩
  | cons k l ih =>
    have hk := hl k List.mem_cons_self
    obtain ⟨h1, h2, h3⟩ := @slot_away w current k name adr S hk h
    obtain ⟨g1, g2, g3⟩ := ih (seats_slot S hl) (slot_sound S hk) h1
    exact ⟨g1, g2.trans h2, g3.trans h3⟩

/-- **WHAT IS THE PROCESS'** loses a reference, once. -/
theorem slots_drop (l : List Nat) (hl : ∀ k ∈ l, Seat w.reg.maxSlots k)
    (hnd : l.Nodup) (S : Sound w) (h : Sits w k' name o) (hmem : k' ∈ l)
    (htsk : o.tsk = current) :
    Dropped w (l.foldl (World.slot current) w) k' name o := by
  induction l generalizing w with
  | nil => exact absurd hmem List.not_mem_nil
  | cons k l ih =>
    have hk := hl k List.mem_cons_self
    have S' : Sound (World.slot current w k) := slot_sound S hk
    obtain ⟨hnk, hnd'⟩ := List.nodup_cons.mp hnd
    by_cases hkk : k = k'
    · -- this is its slot, and none of the others is
      subst hkk
      have hdrop := slot_drops S h htsk
      unfold Dropped at hdrop ⊢
      by_cases h1 : o.count = 1
      · rw [if_pos h1] at hdrop ⊢
        obtain ⟨h1, h2, h3⟩ := hdrop
        obtain ⟨g1, g2, g3⟩ := slots_away l (seats_slot S hl) S' h1
        exact ⟨g1, g2.trans h2, g3.trans h3⟩
      · rw [if_neg h1] at hdrop ⊢
        obtain ⟨h1, h2, h3⟩ := hdrop
        obtain ⟨g1, g2, g3⟩ := slots_keep l (seats_slot S hl) S' h1 (Or.inl hnk)
        exact ⟨g1, fun hrel => g2.trans (h2 hrel),
          fun hnot => ⟨g2.trans (h3 hnot).1, g3.trans (h3 hnot).2⟩⟩
    · obtain ⟨h1, h2, h3⟩ := slot_keeps S hk h hkk
      have hmem' : k' ∈ l :=
        (List.mem_cons.mp hmem).resolve_left (Ne.symm hkk)
      have hdrop := ih (seats_slot S hl) hnd' S' h1 hmem'
      unfold Dropped at hdrop ⊢
      rw [h2, h3] at hdrop
      exact hdrop

/-- **THE POINTER IS WILD** exactly when a proxy of the process keeps
    references. -/
theorem slots_wild (l : List Nat) (hl : ∀ k ∈ l, Seat w.reg.maxSlots k)
    (hnd : l.Nodup) (S : Sound w) :
    (l.foldl (World.slot current) w).wild = true ↔ w.wild = true ∨
      ∃ k ∈ l, ∃ name o, Sits w k name o ∧ Detached current o := by
  induction l generalizing w with
  | nil => simp
  | cons k l ih =>
    have hk := hl k List.mem_cons_self
    obtain ⟨hnk, hnd'⟩ := List.nodup_cons.mp hnd
    have hrest : (∃ x ∈ l, ∃ name o,
        Sits (World.slot current w k) x name o ∧ Detached current o) ↔
        ∃ x ∈ l, ∃ name o, Sits w x name o ∧ Detached current o := by
      refine exists_congr fun x => and_congr_right fun hx => ?_
      have hne : x ≠ k := fun heq => hnk (heq ▸ hx)
      exact exists_congr fun name => exists_congr fun o =>
        and_congr_left' (sits_slot S hk hne)
    show (l.foldl (World.slot current) (World.slot current w k)).wild = true ↔ _
    rw [ih (seats_slot S hl) hnd' (slot_sound S hk), slot_wild S hk, hrest, or_assoc,
      List.exists_mem_cons_iff]

end Loop

/-! ## The task -/

section Task

variable {w : World} {tskext0 name : Nat} {o : Object}

/-- The name of the task is removed with all its references. -/
theorem endTask_has (S : Sound w) (hlt : NOADR < tskext0) :
    Has (w.endTask tskext0).reg name o ↔ Has w.reg name o ∧ o.adr ≠ tskext0 := by
  have C := S.consistent
  rcases C.adr_cases hlt with ⟨k, m, hk, rfl⟩ | hno
  · have hreg : (w.endTask (objectAt w.reg.lxrtList k).adr).reg.lxrtList =
        dropped w.reg.lxrtList w.reg.maxSlots k 0 := by
      unfold World.endTask rtDrgOnAdr
      rw [hashRemAdr_registered C hk]
      rfl
    have hdrop : Registered (dropped w.reg.lxrtList w.reg.maxSlots k 0)
        w.reg.maxSlots name o ↔ _ :=
      registered_dropped C hk (S.used m _ ⟨k, hk, rfl⟩)
    show Registered _ _ name o ↔ _
    rw [hreg]
    refine hdrop.trans ?_
    by_cases hm : name = m
    · rw [if_pos hm]
      constructor
      · rintro ⟨h, -⟩
        exact absurd rfl h
      · rintro ⟨h, hne⟩
        subst hm
        rw [C.sameObject h ⟨k, hk, rfl⟩] at hne
        exact absurd rfl hne
    · rw [if_neg hm]
      constructor
      · intro h
        exact ⟨h, fun heq => hm (C.sameName h ⟨k, hk, rfl⟩ heq)⟩
      · rintro ⟨h, -⟩
        exact h
  · have hreg : (w.endTask tskext0).reg.lxrtList = w.reg.lxrtList := by
      unfold World.endTask rtDrgOnAdr
      rcases @hashRemAdr_nameless _ _ tskext0 0 C hno with ⟨h, -⟩ | ⟨h, -⟩
      · rw [h]
        rfl
      · rw [h]
        rfl
    show Registered _ _ name o ↔ _
    rw [hreg]
    constructor
    · intro h
      exact ⟨h, fun heq => C.not_nameless h (heq ▸ hno)⟩
    · rintro ⟨h, -⟩
      exact h

/-- The task of the process is found when it is registered. -/
theorem isProcessRegistered_of_has (S : Sound w) (h : Has w.reg name o) :
    isProcessRegistered w.reg o.adr ≠ 0 := by
  obtain ⟨k, hk, rfl⟩ := h
  have hadr := (S.consistent.adrSlot hk).2.1
  have h1 : NOADR = 1 := rfl
  have h2 : NONAME = 1 := rfl
  have hlive := hk.2.1
  unfold isProcessRegistered
  rw [if_neg (by omega), hashFindAdr_registered S.consistent hk]
  show name ≠ 0
  omega

/-- The task is looked for after the loop. -/
def World.finish (tskext0 : Nat) (cleared : Bool) (w : World) : World :=
  if cleared then w.endTask tskext0 else w

/-- What is not the task is as the loop has left it. -/
theorem finish_has {cleared : Bool} (S : Sound w) (hlt : NOADR < tskext0)
    (hne : o.adr ≠ tskext0) :
    Has (w.finish tskext0 cleared).reg name o ↔ Has w.reg name o := by
  unfold World.finish
  split
  · rw [endTask_has S hlt]
    exact and_iff_left hne
  · exact Iff.rfl

theorem finish_frame {cleared : Bool} {b : Nat} (hne : b ≠ tskext0) :
    (w.finish tskext0 cleared).heap b = w.heap b ∧
      (w.finish tskext0 cleared).deleted b = w.deleted b := by
  unfold World.finish
  split
  · exact ⟨Function.update_of_ne hne .., Function.update_of_ne hne ..⟩
  · exact ⟨rfl, rfl⟩

theorem finish_stays {cleared : Bool} {w0 : World} {count : Nat} (S : Sound w)
    (hlt : NOADR < tskext0) (hne : o.adr ≠ tskext0) :
    Stays w0 (w.finish tskext0 cleared) name o count ↔
      Stays w0 w name o count := by
  obtain ⟨h1, h2⟩ := @finish_frame w tskext0 cleared o.adr hne
  have hhas := @finish_has w tskext0 name { o with count := count } cleared S hlt hne
  unfold Stays
  rw [h1, h2, hhas]

theorem finish_gone {cleared : Bool}
    (hne : o.adr ≠ tskext0) (h : Gone (w.finish tskext0 cleared) name o) :
    w.heap o.adr = none ∧ w.deleted o.adr = true := by
  obtain ⟨h1, h2⟩ := @finish_frame w tskext0 cleared o.adr hne
  obtain ⟨-, h3, h4⟩ := h
  exact ⟨h1 ▸ h3, h2 ▸ h4⟩

end Task

/-! ## The process -/

/-- The registry is in order, what is registered is allocated, and nothing has
    been deleted, nor a pointer gone wild. -/
structure Running (w : World) : Prop where
  sound : Sound w
  allocated : ∀ name o, Has w.reg name o → w.heap o.adr ≠ none
  none_deleted : ∀ adr, w.deleted adr = false
  tame : w.wild = false

section Process

variable {w : World} {current tskext0 name : Nat} {cleared : Bool} {o : Object}

/-- The slots that are gone over. -/
theorem slots_seats : ∀ k ∈ List.range' 1 w.reg.maxSlots, Seat w.reg.maxSlots k := by
  intro k hk
  obtain ⟨h1, h2⟩ := List.mem_range'_1.mp hk
  exact ⟨h1, by omega⟩

theorem slots_mem {k : Nat} (hk : Seat w.reg.maxSlots k) :
    k ∈ List.range' 1 w.reg.maxSlots := by
  obtain ⟨h1, h2⟩ := hk
  exact List.mem_range'_1.mpr ⟨h1, by omega⟩

/-- **NO PID IS TAKEN FOR AN ADDRESS** when no proxy of the process keeps
    references. -/
theorem finish_wild (S : Sound w) (hw : w.wild = false) :
    ((w.slots current).finish tskext0 cleared).wild = false ↔
      ∀ name o, Has w.reg name o → ¬ Detached current o := by
  have hfin : ((w.slots current).finish tskext0 cleared).wild = (w.slots current).wild := by
    unfold World.finish
    split
    · rfl
    · rfl
  have hloop : (w.slots current).wild = true ↔ _ :=
    slots_wild _ slots_seats List.nodup_range' S
  rw [hfin, ← Bool.not_eq_true, hloop, hw]
  constructor
  · intro hno name o h hd
    obtain ⟨k, hk⟩ := h
    exact hno (Or.inr ⟨k, slots_mem hk.1.1, name, o, hk, hd⟩)
  · rintro hno (hfalse | ⟨k, -, name, o, hsits, hd⟩)
    · exact absurd hfalse Bool.false_ne_true
    · exact hno name o hsits.has hd

/-- **AN OBJECT OF THE PROCESS** ends rightly when it has further references and
    is of no type that is freed. -/
theorem own_ends (R : Running w) (hlt : NOADR < tskext0)
    (h : Has w.reg name o) (hne : o.adr ≠ tskext0) (htsk : o.tsk = current) :
    (if o.count = 1 then
        Gone ((w.slots current).finish tskext0 cleared) name o
      else Stays w ((w.slots current).finish tskext0 cleared) name o
        (o.count - 1)) ↔ o.count ≠ 1 ∧ ¬ Released o.type := by
  have S := R.sound
  have S' : Sound (w.slots current) := slots_sound _ slots_seats S
  obtain ⟨k, hk⟩ := h
  have hsits : Sits w k name o := hk
  have hdrop : Dropped w (w.slots current) k name o :=
    slots_drop _ slots_seats List.nodup_range' S hsits (slots_mem hk.1.1) htsk
  unfold Dropped at hdrop
  by_cases h1 : o.count = 1
  · rw [if_pos h1] at hdrop ⊢
    constructor
    · intro hgone
      obtain ⟨-, hdel⟩ := finish_gone hne hgone
      rw [hdrop.2.2, R.none_deleted] at hdel
      exact absurd hdel Bool.false_ne_true
    · rintro ⟨hne, -⟩
      exact absurd h1 hne
  · rw [if_neg h1] at hdrop ⊢
    rw [finish_stays S' hlt hne]
    constructor
    · rintro ⟨-, hheap, -⟩
      refine ⟨h1, ?_⟩
      intro hrel
      rw [hdrop.2.1 hrel] at hheap
      exact R.allocated name o hsits.has hheap.symm
    · rintro ⟨-, hnot⟩
      exact ⟨hdrop.1.has, hdrop.2.2 hnot⟩

/-- **AN OBJECT OF ANOTHER PROCESS** stays. -/
theorem other_stays (R : Running w) (hlt : NOADR < tskext0)
    (h : Has w.reg name o) (hne : o.adr ≠ tskext0) (htsk : o.tsk ≠ current) :
    Stays w ((w.slots current).finish tskext0 cleared) name o o.count := by
  have S := R.sound
  have S' : Sound (w.slots current) := slots_sound _ slots_seats S
  obtain ⟨k, hk⟩ := h
  have hsits : Sits w k name o := hk
  rw [finish_stays S' hlt hne]
  obtain ⟨h1, h2⟩ := slots_keep _ slots_seats S hsits (Or.inr htsk)
  exact ⟨h1.has, h2⟩

/-- **THE TASK** ends rightly when the process alone refers to it. -/
theorem task_ends (R : Running w) (h : Has w.reg name o) (heq : o.adr = tskext0) :
    (if o.count = 1 then Gone ((w.slots current).endTask tskext0) name o
      else Stays w ((w.slots current).endTask tskext0) name o (o.count - 1)) ↔
      o.count = 1 := by
  have S := R.sound
  have S' : Sound (w.slots current) := slots_sound _ slots_seats S
  obtain ⟨k, hk⟩ := h
  have hsits : Sits w k name o := hk
  have hlt : NOADR < tskext0 := by
    obtain ⟨hat, rfl⟩ := hsits
    exact heq ▸ (S.consistent.adrSlot hat).2.1
  by_cases h1 : o.count = 1
  · rw [if_pos h1]
    refine iff_of_true ?_ h1
    refine ⟨?_, heq ▸ Function.update_self .., heq ▸ Function.update_self ..⟩
    intro o' ho'
    obtain ⟨hthere, hne⟩ := (endTask_has S' hlt).mp ho'
    by_cases htsk : o.tsk = current
    · have hdrop : Dropped w (w.slots current) k name o :=
        slots_drop _ slots_seats List.nodup_range' S hsits (slots_mem hk.1.1) htsk
      unfold Dropped at hdrop
      rw [if_pos h1] at hdrop
      exact (hdrop.1 name o' hthere).1 rfl
    · obtain ⟨hstill, -⟩ := slots_keep _ slots_seats S hsits (Or.inr htsk)
      have hsame : o' = o := S'.consistent.sameObject hthere hstill.has
      exact hne (hsame ▸ heq)
  · rw [if_neg h1]
    refine iff_of_false ?_ h1
    rintro ⟨hthere, -⟩
    exact ((endTask_has S' hlt).mp hthere).2 heq

/-- A process whose task is not registered leaves everything as it is. -/
theorem unregistered_ends (R : Running w)
    (hreg : isProcessRegistered w.reg tskext0 = 0) (h : Has w.reg name o) :
    (if o.adr = tskext0 then
        cleared = true →
          if o.count = 1 then Gone w name o else Stays w w name o (o.count - 1)
      else if o.tsk = current then
        if o.count = 1 then Gone w name o else Stays w w name o (o.count - 1)
      else Stays w w name o o.count) ↔ o.tsk ≠ current := by
  have hne : o.adr ≠ tskext0 := fun heq =>
    isProcessRegistered_of_has R.sound h (heq ▸ hreg)
  rw [if_neg hne]
  by_cases htsk : o.tsk = current
  · rw [if_pos htsk]
    refine iff_of_false ?_ (not_not.mpr htsk)
    intro hends
    split at hends
    · exact hends.1 o h
    · have hpos := R.sound.used name o h
      have hsame := R.sound.consistent.sameObject h hends.1
      have hcount : o.count = o.count - 1 := congrArg Object.count hsame
      omega
  · rw [if_neg htsk]
    exact iff_of_true ⟨h, rfl, rfl⟩ htsk

/-- **WHEN A PROCESS ENDS RIGHTLY.** -/
theorem endsRightly_iff (R : Running w) (ht : tskext0 = 0 ∨ NOADR < tskext0) :
    EndsRightly w (linuxProcessTermination w current tskext0 cleared) current
      tskext0 cleared ↔ NothingToRelease w current tskext0 cleared := by
  unfold EndsRightly NothingToRelease linuxProcessTermination
  by_cases hreg : isProcessRegistered w.reg tskext0 = 0
  · rw [if_pos hreg]
    refine and_congr (iff_of_true R.tame fun _ _ _ h => absurd hreg h) ?_
    refine forall_congr' fun name => forall_congr' fun o => imp_congr_right ?_
    intro h
    have hne : o.adr ≠ tskext0 := fun heq =>
      isProcessRegistered_of_has R.sound h (heq ▸ hreg)
    rw [unregistered_ends R hreg h, if_neg hne]
    exact ⟨fun h1 h2 => absurd h2 h1, fun h1 h2 => (h1 h2).1 hreg⟩
  · rw [if_neg hreg]
    have hlt : NOADR < tskext0 := by
      refine ht.resolve_left ?_
      rintro rfl
      exact hreg rfl
    have hfin : (if cleared = true then (w.slots current).endTask tskext0
        else w.slots current) = (w.slots current).finish tskext0 cleared := rfl
    rw [hfin, finish_wild R.sound R.tame]
    refine and_congr ⟨fun h1 n o h2 _ => h1 n o h2, fun h1 n o h2 =>
      h1 n o h2 hreg⟩ ?_
    refine forall_congr' fun name => forall_congr' fun o => imp_congr_right ?_
    intro h
    by_cases heq : o.adr = tskext0
    · rw [if_pos heq, if_pos heq]
      refine imp_congr_right fun hc => ?_
      subst hc
      exact task_ends R h heq
    · rw [if_neg heq, if_neg heq]
      by_cases htsk : o.tsk = current
      · rw [if_pos htsk, own_ends R hlt h heq htsk]
        exact ⟨fun hc _ => ⟨hreg, hc⟩, fun hc => (hc htsk).2⟩
      · rw [if_neg htsk]
        exact iff_of_true (other_stays R hlt h heq htsk) fun htsk' => absurd htsk' htsk

end Process

/-! ## Every process -/

/-- The world before a process ends: nothing has been deleted. -/
def World.start (reg : Registry) (heap : Nat → Option Kind) : World where
  reg := reg
  heap := heap
  deleted := fun _ => false
  wild := false

theorem running_start {n : Nat} (hn : 0 < n) {ops : List Op}
    (hops : Always Counts (rtRegistryAlloc n) ops) {heap : Nat → Option Kind}
    (hheap : ∀ m o, Has (ran (rtRegistryAlloc n) ops) m o → heap o.adr ≠ none) :
    Running (World.start (ran (rtRegistryAlloc n) ops) heap) := by
  have hused : Used cleared n := fun _ _ h => absurd h not_registered_cleared
  obtain ⟨C, U⟩ := @ran_used ops (rtRegistryAlloc n) (consistent_cleared hn) hused hops
  exact ⟨⟨C, U⟩, hheap, fun _ => rfl, rfl⟩

/-- **PROCESS TERMINATION RELEASES EXACTLY WHAT IT MUST** only when there is
    nothing to release: the process has no object whose last reference is its
    own, none of a type that is freed or detached, and others do not refer to
    its task. -/
theorem process_ends_rightly {n : Nat} (hn : 0 < n) (ops : List Op)
    (hops : Always Counts (rtRegistryAlloc n) ops) (heap : Nat → Option Kind)
    (hheap : ∀ m o, Has (ran (rtRegistryAlloc n) ops) m o → heap o.adr ≠ none)
    (current tskext0 : Nat) (ht : tskext0 = 0 ∨ NOADR < tskext0)
    (cleared : Bool) :
    let w := World.start (ran (rtRegistryAlloc n) ops) heap
    EndsRightly w (linuxProcessTermination w current tskext0 cleared) current
      tskext0 cleared ↔ NothingToRelease w current tskext0 cleared := by
  intro w
  exact endsRightly_iff (running_start hn hops hheap) ht

/-- The task 2 of the process 7, and the semaphore 3 of the process 9, which the
    process 7 has opened. -/
def openedOps : List Op :=
  [.register 2 4096 IS_TASK 0, .register 3 8192 IS_SEM 9, .getAdrCnt 3]

/-- A task and a semaphore. -/
def openedHeap (adr : Nat) : Option Kind :=
  if adr = 4096 then some .task else if adr = 8192 then some .sem else none

/-- Their process. -/
def openedWorld : World :=
  World.start (ran (rtRegistryAlloc 103) openedOps) openedHeap

/-- What is registered, slot by slot. -/
theorem has_slots {reg : Registry} {P : Nat → Object → Prop} {name : Nat}
    {o : Object} (h : Has reg name o)
    (hall : ∀ k ∈ List.range' 1 reg.maxSlots, NONAME < (reg.lxrtList k).name →
      P (reg.lxrtList k).name (objectAt reg.lxrtList k)) : P name o := by
  obtain ⟨k, ⟨⟨h1, h2⟩, hlt, rfl⟩, rfl⟩ := h
  exact hall k (List.mem_range'_1.mpr ⟨h1, by omega⟩) hlt

theorem opened_objects {name : Nat} {o : Object} (h : Has openedWorld.reg name o) :
    (o.adr = 4096 ∧ o.count = 1 ∨ o.adr = 8192 ∧ o.count = 2) ∧ o.tsk ≠ 7 := by
  refine has_slots (P := fun _ o =>
    (o.adr = 4096 ∧ o.count = 1 ∨ o.adr = 8192 ∧ o.count = 2) ∧ o.tsk ≠ 7) h ?_
  decide +kernel

/-- No name or address is registered twice, and no count wraps. -/
theorem openedOps_counts : Always Counts (rtRegistryAlloc 103) openedOps := by
  refine ⟨⟨⟨by decide, by decide, ?_⟩, trivial⟩,
    ⟨⟨by decide, by decide, ?_⟩, trivial⟩, ⟨trivial, ?_⟩, trivial⟩
  · right; right
    constructor
    · intro m o h
      exact absurd h not_registered_cleared
    · rintro ⟨k, -, hk⟩
      exact absurd hk (show (0 : Nat) ≠ 4096 by decide)
  · right; right
    constructor
    · intro m o h
      exact has_slots (P := fun m o => o.adr = 8192 → m = 3) h (by decide +kernel)
    · rintro ⟨k, hk, hadr⟩
      have hvac : ∀ x ∈ vacancy 103 8192 (adrs (exec (rtRegistryAlloc 103)
          (.register 2 4096 IS_TASK 0)).1.lxrtList),
          adrs (exec (rtRegistryAlloc 103) (.register 2 4096 IS_TASK 0)).1.lxrtList
            x ≠ 8192 := by
        decide +kernel
      exact absurd hadr (hvac k hk)
  · intro o h
    have hcount : o.count = 1 :=
      has_slots (P := fun _ o => o.count = 1) h (by decide +kernel)
    rw [hcount]
    decide

/-- The process 7 ends, and leaves the semaphore where it is. -/
theorem process_ends_rightly_opened :
    EndsRightly openedWorld (linuxProcessTermination openedWorld 7 4096 true) 7
      4096 true ∧ Has openedWorld.reg 3 ⟨8192, IS_SEM, 9, 2⟩ := by
  refine ⟨(process_ends_rightly (by decide) openedOps ?_ openedHeap ?_ 7 4096
    (Or.inr (by decide)) true).mpr ?_, ?_⟩
  · exact openedOps_counts
  · intro m o h
    rcases (opened_objects h).1 with ⟨hadr, -⟩ | ⟨hadr, -⟩
    · rw [hadr]
      decide
    · rw [hadr]
      decide
  · constructor
    · rintro m o h - ⟨htsk, -⟩
      exact (opened_objects h).2 htsk
    · intro m o h
      obtain ⟨hadr | hadr, htsk⟩ := opened_objects h
      · rw [if_pos hadr.1]
        exact fun _ => hadr.2
      · rw [if_neg (by rw [hadr.1]; decide)]
        exact fun h7 => absurd h7 htsk
  · exact ⟨4, ⟨⟨by decide, by decide⟩, by decide, by decide⟩, by decide⟩

/-- The task 2 of the process 7, its semaphore 3, and what another process
    does. -/
def semaphoreOps (more : List Op) : List Op :=
  .register 2 4096 IS_TASK 0 :: .register 3 8192 IS_SEM 7 :: more

/-- The same after more calls. -/
def semaphoreWorld (more : List Op) : World :=
  World.start (ran (rtRegistryAlloc 103) (semaphoreOps more)) openedHeap

/-- **A SEMAPHORE IS LEFT WHEN IT IS TO BE DELETED, AND FREED WHEN IT IS TO BE
    LEFT**: the loop goes on to the next slot when no references are left. -/
theorem semaphore_not_released : (¬ EndsRightly (semaphoreWorld [])
      (linuxProcessTermination (semaphoreWorld []) 7 4096 true) 7 4096 true) ∧
    ¬ EndsRightly (semaphoreWorld [.getAdrCnt 3])
      (linuxProcessTermination (semaphoreWorld [.getAdrCnt 3]) 7 4096 true) 7
      4096 true := by
  have hat1 : Has (semaphoreWorld []).reg 3 ⟨8192, IS_SEM, 7, 1⟩ :=
    ⟨4, ⟨⟨by decide, by decide⟩, by decide, by decide⟩, by decide⟩
  have hat2 : Has (semaphoreWorld [.getAdrCnt 3]).reg 3 ⟨8192, IS_SEM, 7, 2⟩ :=
    ⟨4, ⟨⟨by decide, by decide⟩, by decide, by decide⟩, by decide⟩
  constructor
  · intro h
    have hgone := h.2 3 _ hat1
    rw [if_neg (by decide), if_pos rfl, if_pos rfl] at hgone
    exact absurd hgone.2.1 (by decide +kernel)
  · intro h
    have hstays := h.2 3 _ hat2
    rw [if_neg (by decide), if_pos rfl, if_neg (by decide)] at hstays
    exact absurd hstays.2.1 (by decide +kernel)

end RtaiProcessEnd
