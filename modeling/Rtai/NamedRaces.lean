import Rtai.UseCounts
import Rtai.Runs

/-! # Creations of one name that race

    `namedInit` taken apart: the lookup, the allocation, and the three sections
    of `rt_register`, each of which other tasks may come between.  The calls are
    indexed by `ι`; all create the same name. -/

namespace RtaiNamedRaces

open RtaiRuns RtaiProbing RtaiRegistry RtaiRegistrySlots RtaiRegistryMap
open RtaiRegistryErrors RtaiUseCounts

/-! ## The sections of an insertion -/

/-- `hash_ins_name` as far as it holds the lock: what it returns, or the slot
    with which it goes on to `hash_ins_adr`. -/
def insNameSection (name : Nat) (type : Int) (lnxtsk : Nat) (list : Slots)
    (lstlen : Nat) (inc : Bool) : Slots × (Int ⊕ Nat) :=
  match vacancy lstlen name (names list) with
  | none => (list, .inl 0)
  | some k =>
    if (list k).name = name then
      (if inc then incCount list k else list, .inl (-k))
    else (setName name type lnxtsk list k, .inr k)

/-- The rest of it. -/
def insAdrSection (adr : Nat) (list : Slots) (lstlen k : Nat) : Slots × Int :=
  let r := hashInsAdr adr list lstlen k
  (r.1, if r.2 ≤ 0 then 0 else k)

/-- **Taken together, the sections are `hash_ins_name`.** -/
theorem hashInsName_sections (name adr : Nat) (type : Int) (lnxtsk : Nat)
    (list : Slots) (lstlen : Nat) (inc : Bool) :
    hashInsName name adr type lnxtsk list lstlen inc =
      match insNameSection name type lnxtsk list lstlen inc with
      | (list, .inl v) => (list, v)
      | (list, .inr k) => insAdrSection adr list lstlen k := by
  unfold hashInsName insNameSection
  cases vacancy lstlen name (names list) with
  | none => rfl
  | some k =>
    dsimp only
    by_cases hk : (list k).name = name
    · rw [if_pos hk, if_pos hk]
    · rw [if_neg hk, if_neg hk]
      rfl

/-! ## The calls -/

/-- Where a call stands: before the lookup, before the allocation, and with
    what it has allocated before `get_adr`, before the section of the name and
    before the section of the address. -/
inductive Pc where
  | lookup
  | alloc
  | check (adr : Nat)
  | insName (adr : Nat)
  | insAdr (adr k : Nat)
  | done (ret : Nat)
  deriving DecidableEq

/-- What a call has allocated and not yet registered or freed. -/
def Pc.own : Pc → Option Nat
  | .check adr => some adr
  | .insName adr => some adr
  | .insAdr adr _ => some adr
  | _ => none

/-- What a call has returned. -/
def Pc.got : Pc → Nat
  | .done ret => ret
  | _ => 0

/-- The call has put the name into the registry, and not yet the address. -/
def Pc.Inside : Pc → Prop
  | .insAdr _ _ => True
  | _ => False

instance : DecidablePred Pc.Inside := fun p => by
  cases p <;> unfold Pc.Inside <;> infer_instance

/-- The type under which a creation registers its object. -/
def typeOf : Contents → Int
  | .sem => IS_SEM
  | .mbx => IS_MBX
  | _ => IS_HPCK

/-- What is left of an object that cannot be registered. -/
def leftOf : Contents → Option Contents
  | .chunk => some .chunk
  | _ => none

/-- The registry, the memory in use, and the calls. -/
structure Race (ι : Type) where
  reg : Registry
  heap : Nat → Option Contents
  pc : ι → Pc

section Race

variable {ι : Type} [decI : DecidableEq ι] (name : Nat) (kind : ι → Contents) (s : Race ι)
  (t : ι)

/-- A call moves. -/
def Race.goto (p : Pc) : Race ι :=
  { s with pc := Function.update s.pc t p }

/-- The object is deleted and freed, and the call returns `NULL`. -/
def Race.fails (adr : Nat) : Race ι :=
  { s with heap := Function.update s.heap adr (leftOf (kind t)) }.goto t (.done 0)

/-- The next section of a call.  `mem` is what the allocation returns. -/
def Race.next (mem : Option Nat) : Race ι :=
  match s.pc t with
  | .lookup =>
    let r := getAdrCnt s.reg name
    { s with reg := r.1 }.goto t (if r.2 ≠ 0 then .done r.2 else .alloc)
  | .alloc =>
    match mem with
    | none => s.goto t (.done 0)
    | some adr =>
      { s with heap := Function.update s.heap adr (some (kind t)) }.goto t (.check adr)
  | .check adr =>
    if getAdr s.reg name ≠ 0 then s.fails kind t adr
    else s.goto t (.insName adr)
  | .insName adr =>
    match insNameSection name (typeOf (kind t)) 0 s.reg.lxrtList
      s.reg.maxSlots true with
    | (list, .inl v) =>
      let s := { s with reg := { s.reg with lxrtList := list } }
      if |v| ≠ 0 then s.goto t (.done adr) else s.fails kind t adr
    | (list, .inr k) =>
      { s with reg := { s.reg with lxrtList := list } }.goto t (.insAdr adr k)
  | .insAdr adr k =>
    let r := insAdrSection adr s.reg.lxrtList s.reg.maxSlots k
    let s := { s with reg := { s.reg with lxrtList := r.1 } }
    if |r.2| ≠ 0 then s.goto t (.done adr) else s.fails kind t adr
  | .done _ => s

/-- The calls take their sections in any order. -/
def racing (s : Race ι) (a : ι × Option Nat) : Option (Race ι × Unit) :=
  some (s.next name kind a.1 a.2, ())

/-- Before the calls. -/
def Race.start (reg : Registry) (heap : Nat → Option Contents) : Race ι where
  reg := reg
  heap := heap
  pc := fun _ => .lookup

/-- The allocation returns memory that is not in use. -/
def Mallocs (s : Race ι) (a : ι × Option Nat) : Prop :=
  ∀ adr ∈ a.2, NOADR < adr ∧ s.heap adr = none

/-- A lookup does not come between the two sections of an insertion, nor does a
    count wrap, and the name is not there when a call is about to insert it. -/
def Spares (s : Race ι) (a : ι × Option Nat) : Prop :=
  match s.pc a.1 with
  | .lookup => (∀ u, ¬ (s.pc u).Inside) ∧ ∀ o, Has s.reg name o → o.count + 1 < 65536
  | .insName _ => ∀ k, Seat s.reg.maxSlots k → (s.reg.lxrtList k).name ≠ name
  | _ => True

/-- **THE CREATION IS UNIQUE**: what a call has returned, a lookup finds, and
    the object has as many references as calls have returned it. -/
def Unique [Fintype ι] (s : Race ι) : Prop :=
  ∀ t, (s.pc t).got ≠ 0 → getAdr s.reg name = (s.pc t).got ∧
    ∃ o, Has s.reg name o ∧ o.adr = (s.pc t).got ∧
      o.count = (Finset.univ.filter fun u => (s.pc u).got ≠ 0).card

/-! ## How far the creation has come -/

/-- The name is not there; or its slot is written, the address is not; or it is
    there, and has been returned as often as it is counted. -/
inductive Phase [Fintype ι] (s : Race ι) (base : Slots) : Prop where
  | absent (hlist : s.reg.lxrtList = base) (hunk : Unknown base s.reg.maxSlots name)
      (hout : ∀ u, ¬ (s.pc u).Inside) (hgot : ∀ u, (s.pc u).got = 0)
  | between (t : ι) (adr k : Nat) (hpc : s.pc t = .insAdr adr k)
      (hlist : s.reg.lxrtList = setName name (typeOf (kind t)) 0 base k)
      (hk : vacancy s.reg.maxSlots name (names base) = some k)
      (hseat : Seat s.reg.maxSlots k)
      (hunk : Unknown base s.reg.maxSlots name)
      (hout : ∀ u, u ≠ t → ¬ (s.pc u).Inside) (hgot : ∀ u, (s.pc u).got = 0)
  | named (k : Nat) (hlist : s.reg.lxrtList = base) (hk : NamedAt base s.reg.maxSlots k name)
      (hout : ∀ u, ¬ (s.pc u).Inside)
      (hgot : ∀ u, (s.pc u).got ≠ 0 → (s.pc u).got = (objectAt base k).adr)
      (hcount : (base k).count = (Finset.univ.filter fun u => (s.pc u).got ≠ 0).card)

/-- `base` is the registry without the insertion under way.  What a call has
    allocated is in use, its own, and not registered. -/
structure RaceInv [Fintype ι] (s : Race ι) (base : Slots) : Prop where
  consistent : Consistent base s.reg.maxSlots
  allocated : ∀ m o, Registered base s.reg.maxSlots m o → s.heap o.adr ≠ none
  own : ∀ u adr, (s.pc u).own = some adr → NOADR < adr ∧ s.heap adr ≠ none ∧
    ∀ m o, Registered base s.reg.maxSlots m o → o.adr ≠ adr
  apart : ∀ u v adr, (s.pc u).own = some adr → (s.pc v).own = some adr → u = v
  phase : Phase name kind s base

/-! ## Every section keeps the invariant -/

section Steps

variable {name kind} {s : Race ι} {t : ι} {base : Slots}

theorem Race.goto_pc (s : Race ι) (t : ι) (p : Pc) (u : ι) :
    (s.goto t p).pc u = if u = t then p else s.pc u := by
  unfold Race.goto
  exact Function.update_apply ..

/-- The calls that have returned something, when one goes on that returns
    nothing. -/
theorem got_goto {p : Pc} (hold : (s.pc t).got = 0) (hnew : p.got = 0) (u : ι) :
    ((s.goto t p).pc u).got = (s.pc u).got := by
  rw [Race.goto_pc]
  by_cases hu : u = t
  · rw [if_pos hu, hu, hold, hnew]
  · rw [if_neg hu]

theorem inside_goto {p : Pc} (hnew : ¬ p.Inside) {u : ι}
    (hu : ¬ (s.pc u).Inside) : ¬ ((s.goto t p).pc u).Inside := by
  rw [Race.goto_pc]
  by_cases hut : u = t
  · rw [if_pos hut]
    exact hnew
  · rw [if_neg hut]
    exact hu

variable [finI : Fintype ι]

/-- The registry stays as it is, and a call goes on that is not inside and
    returns nothing. -/
theorem Phase.goto {p : Pc} (h : Phase name kind s base)
    (hin : ¬ (s.pc t).Inside) (hold : (s.pc t).got = 0) (hnew : p.got = 0)
    (hout' : ¬ p.Inside) : Phase name kind (s.goto t p) base := by
  have hgots := @got_goto ι _ s t p hold hnew
  cases h with
  | absent hlist hunk hout hgot =>
    refine .absent hlist hunk (fun u => inside_goto hout' (hout u)) ?_
    intro u
    rw [hgots]
    exact hgot u
  | between t₁ adr k hpc hlist hk hseat hunk hout hgot =>
    have hne : t₁ ≠ t := by
      rintro rfl
      exact hin (by rw [hpc]; exact trivial)
    refine .between t₁ adr k ?_ hlist hk hseat hunk ?_ ?_
    · rw [Race.goto_pc, if_neg hne]
      exact hpc
    · intro u hu
      exact inside_goto hout' (hout u hu)
    · intro u
      rw [hgots]
      exact hgot u
  | named k hlist hk hout hgot hcount =>
    refine .named k hlist hk (fun u => inside_goto hout' (hout u)) ?_ ?_
    · intro u
      rw [hgots]
      exact hgot u
    · rw [hcount]
      congr 1
      refine Finset.filter_congr fun u _ => ?_
      rw [hgots]

omit decI in
/-- The memory in use does not matter. -/
theorem Phase.heap {h : Nat → Option Contents} (hp : Phase name kind s base) :
    Phase name kind { s with heap := h } base := by
  cases hp with
  | absent hlist hunk hout hgot => exact .absent hlist hunk hout hgot
  | between t₁ adr k hpc hlist hk hseat hunk hout hgot =>
    exact .between t₁ adr k hpc hlist hk hseat hunk hout hgot
  | named k hlist hk hout hgot hcount =>
    exact .named k hlist hk hout hgot hcount

/-- A call goes on with what it has. -/
theorem RaceInv.goto {p : Pc} (I : RaceInv name kind s base)
    (hin : ¬ (s.pc t).Inside) (hold : (s.pc t).got = 0) (hnew : p.got = 0)
    (hout' : ¬ p.Inside) (hown : ∀ adr, p.own = some adr →
      (s.pc t).own = some adr) : RaceInv name kind (s.goto t p) base := by
  have hsub : ∀ u adr, ((s.goto t p).pc u).own = some adr → (s.pc u).own = some adr := by
    intro u adr h
    rw [Race.goto_pc] at h
    by_cases hu : u = t
    · rw [if_pos hu] at h
      rw [hu]
      exact hown adr h
    · rw [if_neg hu] at h
      exact h
  refine ⟨I.consistent, I.allocated, ?_, ?_, I.phase.goto hin hold hnew hout'⟩
  · intro u adr h
    exact I.own u adr (hsub u adr h)
  · intro u v adr hu hv
    exact I.apart u v adr (hsub u adr hu) (hsub v adr hv)

/-- An object is allocated. -/
theorem RaceInv.takes {adr : Nat} {c : Contents} (I : RaceInv name kind s base)
    (hpc : s.pc t = .alloc) (hadr : NOADR < adr) (hfree : s.heap adr = none) :
    RaceInv name kind ({ s with heap := Function.update s.heap adr (some c) }.goto t
        (.check adr)) base := by
  have hne : ∀ b, s.heap b ≠ none → b ≠ adr := by
    rintro b hb rfl
    exact hb hfree
  have hheap : ∀ b, s.heap b ≠ none → Function.update s.heap adr (some c) b ≠ none := by
    intro b hb
    rw [Function.update_of_ne (hne b hb)]
    exact hb
  have hcases : ∀ u b, ((Race.goto { s with
        heap := Function.update s.heap adr (some c) } t (.check adr)).pc u).own =
        some b → u = t ∧ b = adr ∨ u ≠ t ∧ (s.pc u).own = some b := by
    intro u b h
    rw [Race.goto_pc] at h
    by_cases hu : u = t
    · rw [if_pos hu] at h
      exact Or.inl ⟨hu, (Option.some.inj h).symm⟩
    · rw [if_neg hu] at h
      exact Or.inr ⟨hu, h⟩
  refine ⟨I.consistent, ?_, ?_, ?_, ?_⟩
  · intro m o ho
    exact hheap _ (I.allocated m o ho)
  · intro u b h
    rcases hcases u b h with ⟨-, rfl⟩ | ⟨-, h⟩
    · refine ⟨hadr, ?_, ?_⟩
      · show Function.update s.heap b (some c) b ≠ none
        rw [Function.update_self]
        exact Option.some_ne_none c
      · rintro m o ho rfl
        exact I.allocated m o ho hfree
    · obtain ⟨h1, h2, h3⟩ := I.own u b h
      exact ⟨h1, hheap b h2, h3⟩
  · intro u v b hu hv
    rcases hcases u b hu with ⟨hut, hb⟩ | ⟨-, hu'⟩
    · rcases hcases v b hv with ⟨hvt, -⟩ | ⟨-, hv'⟩
      · exact hut.trans hvt.symm
      · exact absurd hb (hne b (I.own v b hv').2.1)
    · rcases hcases v b hv with ⟨-, hb⟩ | ⟨-, hv'⟩
      · exact absurd hb (hne b (I.own u b hu').2.1)
      · exact I.apart u v b hu' hv'
  · exact I.phase.heap.goto (by rw [hpc]; exact not_false) (by rw [hpc]; rfl) rfl not_false

/-- An object is freed that could not be registered. -/
theorem RaceInv.fails {adr : Nat} (I : RaceInv name kind s base)
    (hown : (s.pc t).own = some adr) (hin : ¬ (s.pc t).Inside)
    (hold : (s.pc t).got = 0) :
    RaceInv name kind (s.fails kind t adr) base := by
  obtain ⟨-, -, hfree⟩ := I.own t adr hown
  have hcases : ∀ u b, ((s.fails kind t adr).pc u).own = some b →
      u ≠ t ∧ (s.pc u).own = some b := by
    intro u b h
    unfold Race.fails at h
    rw [Race.goto_pc] at h
    by_cases hu : u = t
    · rw [if_pos hu] at h
      exact nomatch h
    · rw [if_neg hu] at h
      exact ⟨hu, h⟩
  have hheap : ∀ b, b ≠ adr → (s.fails kind t adr).heap b = s.heap b := by
    intro b hb
    exact Function.update_of_ne hb ..
  refine ⟨I.consistent, ?_, ?_, ?_, ?_⟩
  · intro m o ho
    rw [hheap _ (hfree m o ho)]
    exact I.allocated m o ho
  · intro u b h
    obtain ⟨hu, h⟩ := hcases u b h
    obtain ⟨h1, h2, h3⟩ := I.own u b h
    refine ⟨h1, ?_, h3⟩
    rw [hheap b fun heq => hu (I.apart u t adr (heq ▸ h) hown)]
    exact h2
  · intro u v b hu hv
    exact I.apart u v b (hcases u b hu).2 (hcases v b hv).2
  · exact I.phase.heap.goto hin hold rfl not_false

/-- **THE LOOKUP.** -/
theorem RaceInv.looksUp (I : RaceInv name kind s base) (hpc : s.pc t = .lookup)
    {mem : Option Nat} (hs : Spares name s (t, mem)) :
    ∃ base', RaceInv name kind (s.next name kind t mem) base' := by
  simp only [Spares, hpc] at hs
  obtain ⟨hout, hlt⟩ := hs
  have hin : ¬ (s.pc t).Inside := hout t
  have hold : (s.pc t).got = 0 := by rw [hpc]; rfl
  have C := I.consistent
  simp only [Race.next, hpc]
  -- no name, a name without its object, or both
  cases I.phase with
  | absent hlist hunk _ hgot =>
    subst hlist
    rw [show getAdrCnt s.reg name = _ from getAdrCnt_unknown C hunk]
    dsimp only
    rw [if_neg (not_not.mpr rfl)]
    refine ⟨_, I.goto hin hold rfl not_false ?_⟩
    intro adr h
    exact nomatch h
  | between t₁ adr k hpc₁ _ _ _ _ _ _ =>
    exact absurd (by rw [hpc₁]; exact trivial) (hout t₁)
  | named k hlist hk _ hgot hcount =>
    subst hlist
    have hadr : (objectAt s.reg.lxrtList k).adr ≠ 0 :=
      Nat.pos_iff_ne_zero.mp (lt_trans Nat.one_pos (C.adrSlot hk).2.1)
    rw [show getAdrCnt s.reg name = _ from
      getAdrCnt_named C hk (hlt _ ⟨k, hk, rfl⟩)]
    dsimp only
    rw [if_pos hadr]
    have hreg : ∀ m o, Registered (recounted s.reg.lxrtList k
        ((s.reg.lxrtList k).count + 1)) s.reg.maxSlots m o →
        ∃ o', Registered s.reg.lxrtList s.reg.maxSlots m o' ∧ o'.adr = o.adr := by
      intro m o ho
      have hiff : Registered (recounted s.reg.lxrtList k
        ((s.reg.lxrtList k).count + 1)) s.reg.maxSlots m o ↔ _ :=
        registered_recounted C hk
      rw [hiff] at ho
      by_cases hm : m = name
      · rw [if_pos hm] at ho
        subst ho
        exact ⟨_, ⟨k, hm ▸ hk, rfl⟩, rfl⟩
      · rw [if_neg hm] at ho
        exact ⟨o, ho, rfl⟩
    have hobj := objectAt_recounted s.reg.lxrtList k ((s.reg.lxrtList k).count + 1) k
    have hpcs : ∀ u, ((s.goto t (.done (objectAt s.reg.lxrtList k).adr)).pc
        u) = if u = t then .done (objectAt s.reg.lxrtList k).adr
          else s.pc u := fun u => Race.goto_pc ..
    refine ⟨recounted s.reg.lxrtList k ((s.reg.lxrtList k).count + 1),
      C.recounts .., ?_, ?_, ?_, ?_⟩
    · intro m o ho
      obtain ⟨o', ho', heq⟩ := hreg m o ho
      exact heq ▸ I.allocated m o' ho'
    · intro u adr h
      have h' : (s.pc u).own = some adr := by
        rw [Race.goto_pc] at h
        by_cases hu : u = t
        · rw [if_pos hu] at h
          exact nomatch h
        · rw [if_neg hu] at h
          exact h
      obtain ⟨h1, h2, h3⟩ := I.own u adr h'
      refine ⟨h1, h2, ?_⟩
      intro m o ho
      obtain ⟨o', ho', heq⟩ := hreg m o ho
      exact heq ▸ h3 m o' ho'
    · intro u v adr hu hv
      rw [Race.goto_pc] at hu
      rw [Race.goto_pc] at hv
      by_cases hut : u = t
      · rw [if_pos hut] at hu
        exact nomatch hu
      · by_cases hvt : v = t
        · rw [if_pos hvt] at hv
          exact nomatch hv
        · rw [if_neg hut] at hu
          rw [if_neg hvt] at hv
          exact I.apart u v adr hu hv
    · refine .named k rfl (namedAt_recounted.mpr hk) ?_ ?_ ?_
      · intro u
        exact inside_goto (show ¬ (Pc.done _).Inside from not_false) (hout u)
      · intro u hu
        rw [Race.goto_pc] at hu ⊢
        rw [hobj]
        by_cases hut : u = t
        · rw [if_pos hut]
          rfl
        · rw [if_neg hut] at hu ⊢
          exact hgot u hu
      · -- one more call has returned the object
        have hset : (Finset.univ.filter fun u =>
            ((s.goto t (.done (objectAt s.reg.lxrtList k).adr)).pc u).got ≠ 0) =
            insert t (Finset.univ.filter fun u => (s.pc u).got ≠ 0) := by
          ext u
          rw [Finset.mem_insert, Finset.mem_filter, Finset.mem_filter, hpcs]
          by_cases hut : u = t
          · rw [if_pos hut]
            exact ⟨fun _ => Or.inl hut, fun _ => ⟨Finset.mem_univ u, hadr⟩⟩
          · rw [if_neg hut]
            exact ⟨Or.inr, fun h => h.resolve_left hut⟩
        have hnot : t ∉ Finset.univ.filter fun u => (s.pc u).got ≠ 0 := by
          rw [Finset.mem_filter]
          exact fun h => h.2 hold
        have hc : (recounted s.reg.lxrtList k ((s.reg.lxrtList k).count + 1) k).count =
            (s.reg.lxrtList k).count + 1 := by
          unfold recounted
          rw [Function.update_self]
        rw [hc, hcount, ← Finset.card_insert_of_notMem hnot, ← hset]
        rfl

/-- **THE SECTION OF THE NAME.** -/
theorem RaceInv.insertsName (I : RaceInv name kind s base) {adr : Nat}
    (hpc : s.pc t = .insName adr) {mem : Option Nat}
    (hs : Spares name s (t, mem)) :
    RaceInv name kind (s.next name kind t mem) base := by
  simp only [Spares, hpc] at hs
  have hin : ¬ (s.pc t).Inside := by
    rw [hpc]
    exact not_false
  have hold : (s.pc t).got = 0 := by rw [hpc]; rfl
  have hown : (s.pc t).own = some adr := by rw [hpc]; rfl
  have C := I.consistent
  simp only [Race.next, hpc]
  cases I.phase with
  | absent hlist hunk hout hgot =>
    subst hlist
    unfold insNameSection
    rcases vacancy_cases C.pos name (names s.reg.lxrtList) with
      ⟨k, hseat, hk, -⟩ | ⟨hk, -⟩
    · have hne : (s.reg.lxrtList k).name ≠ name := hunk k hseat
      rw [hk]
      dsimp only
      rw [if_neg hne]
      dsimp only
      have hpcs : ∀ u, ((s.goto t (.insAdr adr k)).pc u).own = (s.pc u).own := by
        intro u
        rw [Race.goto_pc]
        by_cases hu : u = t
        · rw [if_pos hu, hu, hown]
          rfl
        · rw [if_neg hu]
      refine ⟨C, I.allocated, ?_, ?_, ?_⟩
      · intro u b h
        exact I.own u b ((hpcs u).symm.trans h)
      · intro u v b hu hv
        exact I.apart u v b ((hpcs u).symm.trans hu) ((hpcs v).symm.trans hv)
      · refine .between t adr k ?_ rfl hk hseat hunk ?_ ?_
        · exact (Race.goto_pc ..).trans (if_pos rfl)
        · intro u hu
          rw [Race.goto_pc, if_neg hu]
          exact hout u
        · intro u
          have h := @got_goto ι _ s t (.insAdr adr k) hold rfl u
          exact h.trans (hgot u)
    · rw [hk]
      dsimp only
      rw [if_neg (by rw [abs_zero]; exact not_not.mpr rfl)]
      exact I.fails hown hin hold
  | between t₁ b k hpc₁ hlist hk hseat _ _ _ =>
    refine absurd ?_ (hs k hseat)
    rw [hlist]
    unfold setName
    rw [Function.update_self]
  | named k hlist hk _ _ _ =>
    refine absurd ?_ (hs k hk.1)
    rw [hlist]
    exact hk.2.2

/-- **THE SECTION OF THE ADDRESS.** -/
theorem RaceInv.insertsAdr (I : RaceInv name kind s base)
    (hname : NONAME < name) {adr k : Nat} (hpc : s.pc t = .insAdr adr k)
    (mem : Option Nat) :
    ∃ base', RaceInv name kind (s.next name kind t mem) base' := by
  have hin : (s.pc t).Inside := by
    rw [hpc]
    exact trivial
  have hown : (s.pc t).own = some adr := by rw [hpc]; rfl
  have C := I.consistent
  obtain ⟨hadr, hused, hfree⟩ := I.own t adr hown
  simp only [Race.next, hpc]
  cases I.phase with
  | absent _ _ hout _ => exact absurd hin (hout t)
  | named _ _ _ hout _ _ => exact absurd hin (hout t)
  | between t₁ b k₁ hpc₁ hlist hk hseat hunk hout hgot =>
    have ht : t = t₁ := by
      by_contra hne
      exact hout t hne hin
    subst ht
    rw [hpc] at hpc₁
    obtain ⟨rfl, rfl⟩ := Pc.insAdr.inj hpc₁
    have hless : Nameless base s.reg.maxSlots adr := by
      rcases C.adr_cases hadr with ⟨x, m, hx, heq⟩ | hno
      · exact absurd heq (hfree m _ ⟨x, hx, rfl⟩)
      · exact hno
    have hne : (base k).name ≠ name := hunk k hseat
    -- the two sections are the insertion into the registry as it was
    have hins := hashInsName_sections name adr (typeOf (kind t)) 0 base s.reg.maxSlots true
    have hsec : insNameSection name (typeOf (kind t)) 0 base s.reg.maxSlots
        true = (setName name (typeOf (kind t)) 0 base k, .inr k) := by
      unfold insNameSection
      rw [hk]
      exact if_neg hne
    rw [hsec] at hins
    rcases @hashInsName_new base s.reg.maxSlots name adr (typeOf (kind t)) 0
      true C hname hunk hadr hless with
      ⟨x, j, hx, hj, hx1, hj1, hnew, C'⟩ | ⟨hfull, -⟩
    · have hres : insAdrSection adr s.reg.lxrtList s.reg.maxSlots k =
          (inserted base name adr (typeOf (kind t)) 0 x j, (x : Int)) := by
        rw [hlist]
        exact hins.symm.trans hnew
      have hx0 : |(x : Int)| ≠ 0 := by
        have := hx.1
        rw [abs_ne_zero]
        omega
      rw [hres]
      dsimp only
      rw [if_pos hx0]
      have hreg : ∀ m o, Registered (inserted base name adr
          (typeOf (kind t)) 0 x j) s.reg.maxSlots m o ↔ _ :=
        fun m o => registered_inserted C hx hname hx1 hj1
      have hcases : ∀ u c, ((s.goto t (.done adr)).pc u).own = some c →
          u ≠ t ∧ (s.pc u).own = some c := by
        intro u c h
        rw [Race.goto_pc] at h
        by_cases hu : u = t
        · rw [if_pos hu] at h
          exact nomatch h
        · rw [if_neg hu] at h
          exact ⟨hu, h⟩
      have hgots : ∀ u, ((s.goto t (.done adr)).pc u).got =
          if u = t then adr else 0 := by
        intro u
        rw [Race.goto_pc]
        by_cases hu : u = t
        · rw [if_pos hu, if_pos hu]
          rfl
        · rw [if_neg hu, if_neg hu]
          exact hgot u
      have hadr0 : adr ≠ 0 :=
        Nat.pos_iff_ne_zero.mp (lt_trans Nat.one_pos hadr)
      refine ⟨inserted base name adr (typeOf (kind t)) 0 x j, C', ?_, ?_, ?_, ?_⟩
      · intro m o ho
        rcases (hreg m o).mp ho with ho | ⟨-, rfl⟩
        · exact I.allocated m o ho
        · exact hused
      · intro u c h
        obtain ⟨hu, h⟩ := hcases u c h
        obtain ⟨h1, h2, h3⟩ := I.own u c h
        refine ⟨h1, h2, ?_⟩
        intro m o ho
        rcases (hreg m o).mp ho with ho | ⟨-, rfl⟩
        · exact h3 m o ho
        · rintro rfl
          exact hu (I.apart u t adr h hown)
      · intro u v c hu hv
        exact I.apart u v c (hcases u c hu).2 (hcases v c hv).2
      · obtain ⟨y, hy, hobj⟩ := (hreg name _).mpr (Or.inr ⟨rfl, rfl⟩)
        refine .named y rfl hy ?_ ?_ ?_
        · intro u
          rw [Race.goto_pc]
          by_cases hu : u = t
          · rw [if_pos hu]
            exact not_false
          · rw [if_neg hu]
            exact hout u hu
        · intro u hu
          refine (hgots u).trans ?_
          rw [hobj]
          by_cases hut : u = t
          · rw [if_pos hut]
          · exact absurd ((hgots u).trans (if_neg hut)) hu
        · have hset : (Finset.univ.filter fun u =>
              ((s.goto t (.done adr)).pc u).got ≠ 0) = {t} := by
            ext u
            rw [Finset.mem_filter, Finset.mem_singleton, hgots]
            by_cases hu : u = t
            · rw [if_pos hu]
              exact ⟨fun _ => hu, fun _ => ⟨Finset.mem_univ u, hadr0⟩⟩
            · rw [if_neg hu]
              exact ⟨fun h => absurd rfl h.2, fun h => absurd h hu⟩
          have hone : (objectAt (inserted base name adr (typeOf (kind t)) 0
              x j) y).count = 1 := by
            rw [hobj]
          refine Eq.trans (show Entry.count _ = _ from hone) ?_
          rw [← Finset.card_singleton t, ← hset]
          rfl
    · have hfound := hfull k hseat
      rcases vacancy_cases C.pos name (names base) with
        ⟨k', -, hk', hle⟩ | ⟨hk', -⟩
      · rw [hk] at hk'
        obtain rfl := Option.some.inj hk'
        exact absurd hfound (not_lt.mpr (hle.resolve_left hne))
      · rw [hk] at hk'
        exact nomatch hk'

/-- **EVERY SECTION KEEPS THE INVARIANT.** -/
theorem RaceInv.next (I : RaceInv name kind s base) (hname : NONAME < name)
    {mem : Option Nat} (hm : Mallocs s (t, mem)) (hs : Spares name s (t, mem)) :
    ∃ base', RaceInv name kind (s.next name kind t mem) base' := by
  cases hpc : s.pc t with
  | lookup => exact I.looksUp hpc hs
  | alloc =>
    have hin : ¬ (s.pc t).Inside := by
      rw [hpc]
      exact not_false
    have hold : (s.pc t).got = 0 := by rw [hpc]; rfl
    refine ⟨base, ?_⟩
    simp only [Race.next, hpc]
    cases mem with
    | none =>
      refine I.goto hin hold rfl not_false ?_
      intro adr h
      exact nomatch h
    | some adr =>
      obtain ⟨hadr, hfree⟩ := hm adr rfl
      exact I.takes hpc hadr hfree
  | check adr =>
    have hin : ¬ (s.pc t).Inside := by
      rw [hpc]
      exact not_false
    have hold : (s.pc t).got = 0 := by rw [hpc]; rfl
    have hown : (s.pc t).own = some adr := by rw [hpc]; rfl
    refine ⟨base, ?_⟩
    simp only [Race.next, hpc]
    split
    · exact I.fails hown hin hold
    · refine I.goto hin hold rfl not_false ?_
      rintro c h
      exact hown.trans h
  | insName adr => exact ⟨base, I.insertsName hpc hs⟩
  | insAdr adr k => exact I.insertsAdr hname hpc mem
  | done ret =>
    simp only [Race.next, hpc]
    exact ⟨base, I⟩

omit decI in
/-- What the invariant says of the calls that have returned. -/
theorem RaceInv.unique (I : RaceInv name kind s base) : Unique name s := by
  intro u hu
  cases I.phase with
  | absent _ _ _ hgot => exact absurd (hgot u) hu
  | between _ _ _ _ _ _ _ _ _ hgot => exact absurd (hgot u) hu
  | named k hlist hk _ hgot hcount =>
    subst hlist
    have hadr := hgot u hu
    refine ⟨?_, objectAt s.reg.lxrtList k, ⟨k, hk, rfl⟩, hadr.symm, hcount⟩
    rw [hadr]
    unfold getAdr
    rw [hashFindName_registered I.consistent hk]

end Steps

section Runs

variable [finI : Fintype ι] {name kind}

/-- **NAMED CREATION IS UNIQUE** in every run in which no call inserts the name
    while it is there, and no lookup comes between the two sections of an
    insertion. -/
theorem creation_is_unique {n : Nat} (hn : 0 < n) (ops : List Op)
    (hops : Always Keeps (rtRegistryAlloc n) ops)
    (heap : Nat → Option Contents)
    (hheap : ∀ m o, Has (ran (rtRegistryAlloc n) ops) m o → heap o.adr ≠ none)
    (hname : NONAME < name)
    (hunk : ∀ o, ¬ Has (ran (rtRegistryAlloc n) ops) name o) {s : Race ι}
    (h : Reach (racing name kind) (fun s a => Mallocs s a ∧ Spares name s a)
      (Race.start (ran (rtRegistryAlloc n) ops) heap) s) :
    Unique name s := by
  have C := @ran_consistent ops (rtRegistryAlloc n) (consistent_cleared hn) hops
  -- nobody has looked the name up yet
  have h0 : RaceInv name kind (@Race.start ι (ran (rtRegistryAlloc n) ops) heap)
      (ran (rtRegistryAlloc n) ops).lxrtList := by
    refine ⟨C, hheap, fun u adr hu => (nomatch hu), fun u v adr hu => (nomatch hu),
      .absent rfl ?_ (fun u => not_false) (fun u => rfl)⟩
    intro k hk heq
    exact hunk _ ⟨k, ⟨hk, hname, heq⟩, rfl⟩
  obtain ⟨base, I⟩ := h.invariant (I := fun s => ∃ base, RaceInv name kind s base)
    ⟨_, h0⟩ (by
      rintro s ⟨t, mem⟩ s' o ⟨base, I⟩ ⟨hm, hs⟩ hstep
      obtain rfl := congrArg Prod.fst (Option.some.inj hstep)
      exact I.next hname hm hs)
  exact I.unique

omit finI in
instance (s : Race ι) (a : ι × Option Nat) : Decidable (Mallocs s a) := by
  unfold Mallocs
  infer_instance

/-- Three calls: the second has looked the name up and allocated before the first
    inserts it, and gives up; the third looks it up afterwards. -/
theorem creation_is_unique_thrice :
    ∃ s : Race (Fin 3), (s.pc 0).got = 4096 ∧ s.pc 1 = .done 0 ∧
      (s.pc 2).got = 4096 ∧ Unique 2 s := by
  have hno : ∀ m o, ¬ Has (rtRegistryAlloc 103) m o := fun _ _ =>
    not_registered_cleared
  have hnone : ∀ (s : Race (Fin 3)) t, Mallocs s (t, none) :=
    fun _ _ _ h => nomatch h
  have h0 : Reach (racing 2 fun _ => Contents.sem)
      (fun (s : Race (Fin 3)) a => Mallocs s a ∧ Spares 2 s a)
      (Race.start (rtRegistryAlloc 103) fun _ => none)
      (Race.start (rtRegistryAlloc 103) fun _ => none) := Reach.refl _
  have h1 := h0.tail (a := (0, none)) (o := ())
    ⟨hnone _ _, fun _ => not_false, fun o h => absurd h (hno 2 o)⟩ rfl
  have h2 := h1.tail (a := (1, none)) (o := ())
    ⟨hnone _ _, by decide, fun o h => absurd h (hno 2 o)⟩ rfl
  have h3 := h2.tail (a := (0, some 4096)) (o := ()) ⟨by rintro adr ⟨⟩; decide, trivial⟩ rfl
  have h4 := h3.tail (a := (1, some 8192)) (o := ()) ⟨by rintro adr ⟨⟩; decide, trivial⟩ rfl
  have h5 := h4.tail (a := (0, none)) (o := ()) ⟨hnone _ _, trivial⟩ rfl
  have h6 := h5.tail (a := (0, none)) (o := ())
    ⟨hnone _ _, fun k _ h => absurd h (show (0 : Nat) ≠ 2 by decide)⟩ rfl
  have h7 := h6.tail (a := (0, none)) (o := ()) ⟨hnone _ _, trivial⟩ rfl
  have h8 := h7.tail (a := (1, none)) (o := ()) ⟨hnone _ _, trivial⟩ rfl
  have h9 := h8.tail (a := (2, none)) (o := ())
    ⟨hnone _ _, by decide, by
      rintro o ⟨k, ⟨⟨-, hk⟩, -, -⟩, rfl⟩
      revert k
      decide⟩ rfl
  exact ⟨_, by decide, by decide, by decide, creation_is_unique (by decide) []
    trivial (fun _ => none) (fun m o h => absurd h (hno m o)) (by decide) (hno 2) h9⟩

/-- **TWO CALLS RETURN TWO SEMAPHORES**: both find that the name is not there,
    and both insert it.  The second insertion finds the name, counts a
    reference, and is taken for a success. -/
theorem two_semaphores : ∃ s : Race Bool, Reach (racing 2 fun _ => .sem) Mallocs
        (Race.start (rtRegistryAlloc 103) fun _ => none) s ∧
      s.pc false = .done 4096 ∧ s.pc true = .done 8192 ∧ ¬ Unique 2 s := by
  have hrun : ∃ s : Race Bool, play (racing 2 fun _ => .sem) Mallocs
      (Race.start (rtRegistryAlloc 103) fun _ => none)
      [(false, none), (true, none), (false, some 4096), (true, some 8192),
        (false, none), (true, none), (false, none), (false, none),
        (true, none)] = some s ∧
      s.pc false = .done 4096 ∧ s.pc true = .done 8192 ∧
      getAdr s.reg 2 = 4096 :=
    ⟨_, rfl, by decide, by decide, by decide⟩
  obtain ⟨s, hplay, hf, ht, hadr⟩ := hrun
  refine ⟨s, reach_of_play hplay, hf, ht, ?_⟩
  intro hunique
  have h := (hunique true (by rw [ht]; decide)).1
  rw [hadr, ht] at h
  exact absurd h (by decide)

end Runs

end Race

end RtaiNamedRaces
