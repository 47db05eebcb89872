import Mathlib

/-! # The table of the services

    `rt_fun_lxrt` and what a module does to it when it is loaded and when it
    goes: `set_rt_fun_entries` and `reset_rt_fun_entries`, for any type `F` of
    functions and whatever function `nihil` is.  The table of a module is the
    list of its entries up to the one without a function.  An index reaches
    any place of the memory of which `rt_fun_lxrt` is a part, and the places
    that are reached are noted. -/

namespace RtaiFunEntries

/-- The number of services. -/
def MAX_LXRT_FUN : Int := 189

/-- `struct rt_fun_entry` -/
structure RtFunEntry (F : Type) where
  type : Nat
  fn : F
  deriving DecidableEq

/-- `struct rt_native_fun_entry` -/
structure RtNativeFunEntry (F : Type) where
  entry : RtFunEntry F
  index : Int
  deriving DecidableEq

/-- `rt_fun_lxrt`, with what is in front of it and behind it. -/
structure Services (F : Type) where
  rtFunLxrt : Int → RtFunEntry F
  reached : List Int

namespace Services

variable {F : Type} (s : Services F)

/-- A place is read. -/
def reads (i : Int) : Services F := { s with reached := i :: s.reached }

/-- A place is written. -/
def writes (i : Int) (e : RtFunEntry F) : Services F where
  rtFunLxrt := Function.update s.rtFunLxrt i e
  reached := i :: s.reached

end Services

section Functions

variable {F : Type} [decF : DecidableEq F] (nihil : F)

/-- `(struct rt_fun_entry){ 1, nihil }` -/
def vacant : RtFunEntry F := ⟨1, nihil⟩

/-- `reset_rt_fun_entries` -/
def resetRtFunEntries : List (RtNativeFunEntry F) → Services F → Services F
  | [], s => s
  | e :: entry, s =>
    if e.index ≥ MAX_LXRT_FUN then resetRtFunEntries entry s
    else resetRtFunEntries entry (s.writes e.index (vacant nihil))

/-- The loop of `set_rt_fun_entries`: the services, `error`, and `entry`
    behind it. -/
def setLoop : List (RtNativeFunEntry F) → Services F → Int →
    Services F × Int × List (RtNativeFunEntry F)
  | [], s, error => (s, error, [])
  | e :: entry, s, error =>
    let s' := s.reads e.index
    if (s.rtFunLxrt e.index).fn ≠ nihil then setLoop entry s' (-1)
    else if e.index ≥ MAX_LXRT_FUN then setLoop entry s' (-1)
    else setLoop entry (s'.writes e.index e.entry) error

/-- `set_rt_fun_entries` -/
def setRtFunEntries (entry : List (RtNativeFunEntry F)) (s : Services F) : Services F × Int :=
  let r := setLoop nihil entry s 0
  (if r.2.1 ≠ 0 then resetRtFunEntries nihil r.2.2 r.1 else r.1, 0)

/-- The part of the memory that is the table. -/
def InTable (i : Int) : Prop := 0 ≤ i ∧ i < MAX_LXRT_FUN

/-- Every entry is in its slot, and the other slots are as they were. -/
structure Installed (entry : List (RtNativeFunEntry F))
    (before after : Int → RtFunEntry F) : Prop where
  set : ∀ e ∈ entry, after e.index = e.entry
  kept : ∀ i, (∀ e ∈ entry, e.index ≠ i) → after i = before i

/-- **ALL OR NOTHING**, within the table, and it can be taken back. -/
structure Atomic (entry : List (RtNativeFunEntry F))
    (slots : Int → RtFunEntry F) : Prop where
  inTable : ∀ i ∈ (setRtFunEntries nihil entry ⟨slots, []⟩).1.reached, InTable i
  allOrNothing :
    let r := setRtFunEntries nihil entry ⟨slots, []⟩
    (Installed entry slots r.1.rtFunLxrt ∧ r.2 = 0) ∨
      (r.2 ≠ 0 ∧ ∀ i, InTable i → r.1.rtFunLxrt i = slots i)
  takenBack :
    let r := setRtFunEntries nihil entry ⟨slots, []⟩
    r.2 = 0 → ∀ i, InTable i → (resetRtFunEntries nihil entry r.1).rtFunLxrt i = slots i

end Functions

section Effects

variable {F : Type} [decF : DecidableEq F] {nihil : F} {s : Services F} {error : Int}
  {entry : List (RtNativeFunEntry F)} {i : Int}

/-- **`entry` HAS COME TO THE END**, so nothing is reset. -/
theorem setLoop_rest : (setLoop nihil entry s error).2.2 = [] := by
  induction entry generalizing s error with
  | nil => rfl
  | cons e entry ih =>
    unfold setLoop
    dsimp only
    split
    · exact ih
    · split
      · exact ih
      · exact ih

theorem setRtFunEntries_services :
    (setRtFunEntries nihil entry s).1 = (setLoop nihil entry s 0).1 := by
  unfold setRtFunEntries
  dsimp only
  rw [setLoop_rest]
  exact ite_self _

/-- **SUCCESS IS ALL THAT IS EVER REPORTED**. -/
theorem setRtFunEntries_returns : (setRtFunEntries nihil entry s).2 = 0 := rfl

/-- Every index is read, and nothing else is reached. -/
theorem mem_reached : i ∈ (setLoop nihil entry s error).1.reached ↔
    i ∈ s.reached ∨ ∃ e ∈ entry, e.index = i := by
  induction entry generalizing s error with
  | nil => simp [setLoop]
  | cons e entry ih =>
    have hhere : (∃ x ∈ e :: entry, x.index = i) ↔ e.index = i ∨ ∃ x ∈ entry, x.index = i := by
      simp only [List.mem_cons, exists_eq_or_imp]
    unfold setLoop
    dsimp only
    rw [hhere]
    split
    · rw [ih, Services.reads, List.mem_cons]
      tauto
    · split
      · rw [ih, Services.reads, List.mem_cons]
        tauto
      · rw [ih, Services.writes, Services.reads, List.mem_cons, List.mem_cons]
        tauto

/-- A slot that no entry names. -/
theorem setLoop_kept (h : ∀ e ∈ entry, e.index ≠ i) :
    (setLoop nihil entry s error).1.rtFunLxrt i = s.rtFunLxrt i := by
  induction entry generalizing s error with
  | nil => rfl
  | cons e entry ih =>
    have hne := h e (List.mem_cons_self ..)
    have hrest : ∀ x ∈ entry, x.index ≠ i :=
      fun x hx => h x (List.mem_cons_of_mem _ hx)
    unfold setLoop
    dsimp only
    split
    · exact ih hrest
    · split
      · exact ih hrest
      · rw [ih hrest]
        exact Function.update_of_ne hne.symm _ _

/-- A slot that is vacant, or has the entry that all agree on. -/
theorem setLoop_set {v : RtFunEntry F} (hi : i < MAX_LXRT_FUN)
    (hv : ∀ e ∈ entry, e.index = i → e.entry = v)
    (hs : s.rtFunLxrt i = v ∨ (s.rtFunLxrt i).fn = nihil ∧ ∃ e ∈ entry, e.index = i) :
    (setLoop nihil entry s error).1.rtFunLxrt i = v := by
  induction entry generalizing s error with
  | nil =>
    rcases hs with h | ⟨-, e, he, -⟩
    · exact h
    · exact absurd he List.not_mem_nil
  | cons e entry ih =>
    have hrest : ∀ x ∈ entry, x.index = i → x.entry = v :=
      fun x hx => hv x (List.mem_cons_of_mem _ hx)
    have hnext : ∀ s' : Services F, s'.rtFunLxrt i = s.rtFunLxrt i →
        (e.index = i → s.rtFunLxrt i = v) →
        s'.rtFunLxrt i = v ∨ (s'.rtFunLxrt i).fn = nihil ∧ ∃ x ∈ entry, x.index = i := by
      intro s' hsame hhere
      rw [hsame]
      rcases hs with h | ⟨hfree, x, hx, hxi⟩
      · exact Or.inl h
      · rcases List.mem_cons.mp hx with rfl | hx
        · exact Or.inl (hhere hxi)
        · exact Or.inr ⟨hfree, x, hx, hxi⟩
    unfold setLoop
    dsimp only
    split
    · next hfn =>
        refine ih hrest (hnext _ rfl ?_)
        rintro rfl
        exact hs.resolve_right fun h => hfn h.1
    · split
      · next hge =>
          refine ih hrest (hnext _ rfl ?_)
          rintro rfl
          exact absurd hge (Int.not_le.mpr hi)
      · by_cases he : e.index = i
        · refine ih hrest (Or.inl ?_)
          show Function.update s.rtFunLxrt e.index e.entry i = v
          rw [he, Function.update_self]
          exact hv e (List.mem_cons_self ..) he
        · refine ih hrest (hnext _ ?_ fun h => absurd h he)
          exact Function.update_of_ne (Ne.symm he) _ _

omit decF in
/-- What is taken back. -/
theorem resetRtFunEntries_slot (hi : i < MAX_LXRT_FUN) :
    (resetRtFunEntries nihil entry s).rtFunLxrt i =
      if ∃ e ∈ entry, e.index = i then vacant nihil else s.rtFunLxrt i := by
  induction entry generalizing s with
  | nil => simp [resetRtFunEntries]
  | cons e entry ih =>
    have hhere : (∃ x ∈ e :: entry, x.index = i) ↔ e.index = i ∨ ∃ x ∈ entry, x.index = i := by
      simp only [List.mem_cons, exists_eq_or_imp]
    unfold resetRtFunEntries
    by_cases hrest : ∃ x ∈ entry, x.index = i
    · rw [if_pos (hhere.mpr (Or.inr hrest))]
      split
      · rw [ih, if_pos hrest]
      · rw [ih, if_pos hrest]
    · by_cases he : e.index = i
      · rw [if_pos (hhere.mpr (Or.inl he)), if_neg (by rw [he]; exact Int.not_le.mpr hi),
          ih, if_neg hrest]
        show Function.update s.rtFunLxrt e.index (vacant nihil) i = _
        rw [he, Function.update_self]
      · rw [if_neg fun h => (hhere.mp h).elim he hrest]
        split
        · rw [ih, if_neg hrest]
        · rw [ih, if_neg hrest]
          exact Function.update_of_ne (Ne.symm he) _ _

/-- What the entries of a module are to meet. -/
structure Fits (nihil : F) (entry : List (RtNativeFunEntry F))
    (slots : Int → RtFunEntry F) : Prop where
  inTable : ∀ e ∈ entry, InTable e.index
  vacant : ∀ e ∈ entry, slots e.index = vacant nihil
  agree : ∀ e ∈ entry, ∀ e' ∈ entry, e'.index = e.index → e'.entry = e.entry

/-- **INSTALLING IS ATOMIC** if and only if every entry has a vacant slot of
    the table and no two differ about one. -/
theorem atomic_iff (nihil : F) (entry : List (RtNativeFunEntry F))
    (slots : Int → RtFunEntry F) :
    Atomic nihil entry slots ↔ Fits nihil entry slots := by
  constructor
  · intro h
    have hin : ∀ e ∈ entry, InTable e.index := by
      intro e he
      refine h.inTable e.index ?_
      rw [setRtFunEntries_services, mem_reached]
      exact Or.inr ⟨e, he, rfl⟩
    have hset : ∀ e ∈ entry, (setRtFunEntries nihil entry ⟨slots, []⟩).1.rtFunLxrt e.index =
          e.entry := by
      rcases h.allOrNothing with ⟨hall, -⟩ | ⟨hne, -⟩
      · exact hall.set
      · exact absurd setRtFunEntries_returns hne
    refine ⟨hin, ?_, ?_⟩
    · intro e he
      have hback := h.takenBack setRtFunEntries_returns e.index (hin e he)
      rw [resetRtFunEntries_slot (hin e he).2, if_pos ⟨e, he, rfl⟩] at hback
      exact hback.symm
    · intro e he e' he' heq
      rw [← hset e he, ← heq, hset e' he']
  · intro h
    have hset : Installed entry slots
        (setRtFunEntries nihil entry ⟨slots, []⟩).1.rtFunLxrt := by
      rw [setRtFunEntries_services]
      constructor
      · intro e he
        refine setLoop_set (h.inTable e he).2 (h.agree e he) (Or.inr ⟨?_, e, he, rfl⟩)
        exact congrArg RtFunEntry.fn (h.vacant e he)
      · intro i hi
        exact setLoop_kept hi
    refine ⟨?_, Or.inl ⟨hset, rfl⟩, ?_⟩
    · intro i hi
      rw [setRtFunEntries_services, mem_reached] at hi
      rcases hi with hi | ⟨e, he, rfl⟩
      · exact absurd hi List.not_mem_nil
      · exact h.inTable e he
    · intro r _ i hi
      rw [resetRtFunEntries_slot hi.2]
      split
      · next hex =>
          obtain ⟨e, he, rfl⟩ := hex
          exact (h.vacant e he).symm
      · next hno => exact hset.kept i fun e he hei => hno ⟨e, he, hei⟩

end Effects

/-- **A CLASH IS REPORTED AS A SUCCESS**: of two functions for one index the
    first stays installed. -/
theorem clash_reported_as_success :
    ¬ Atomic (F := Nat) 0 [⟨⟨1, 7⟩, 5⟩, ⟨⟨1, 8⟩, 5⟩] (fun _ => ⟨1, 0⟩) ∧
      (setRtFunEntries 0 [⟨⟨1, 7⟩, 5⟩, ⟨⟨1, 8⟩, 5⟩] ⟨fun _ => ⟨1, 0⟩, []⟩).2 = 0 ∧
      (setRtFunEntries 0 [⟨⟨1, 7⟩, 5⟩, ⟨⟨1, 8⟩, 5⟩]
        ⟨fun _ => ⟨1, 0⟩, []⟩).1.rtFunLxrt 5 = ⟨1, 7⟩ := by
  refine ⟨?_, rfl, rfl⟩
  intro h
  rcases h.allOrNothing with ⟨hall, -⟩ | ⟨hne, -⟩
  · exact absurd (hall.set ⟨⟨1, 8⟩, 5⟩ (by decide)) (by decide)
  · exact hne rfl

end RtaiFunEntries
