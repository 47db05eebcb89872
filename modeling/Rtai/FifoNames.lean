import Rtai.CStrings
import Rtai.Proxies
import Rtai.Runs

/-! # The names of the fifos

    `rtf_named_create`, `rtf_getfifobyname`, and what `rtf_create` and `rtf_destroy`
    do to the open counts and the names of all fifos.  The buffers and the sizes of
    one fifo are in `RtaiFifoOpen`. -/

namespace RtaiFifoNames

open RtaiCStrings RtaiRuns
open RtaiProxies (atomicInc atomicDec)

/-- The number of fifos. -/
def MAX_FIFOS : Nat := 64

/-- The longest name. -/
def RTF_NAMELEN : Nat := 15

/-- The errors. -/
def EBUSY : Int := 16

def EINVAL : Int := 22

def ENODEV : Int := 19

def ENOMEM : Int := 12

/-- The fields of a fifo that its name needs. -/
structure Fifo where
  opncnt : Int
  name : List UInt8
  deriving DecidableEq

/-- `fifo[MAX_FIFOS]` -/
abbrev Fifos := Nat → Fifo

/-- The table before any fifo. -/
def Fifos.start : Fifos := fun _ => ⟨0, []⟩

/-- A new use count. -/
def Fifos.setOpncnt (fifo : Fifos) (minor : Nat) (n : Int) : Fifos :=
  Function.update fifo minor { fifo minor with opncnt := n }

/-- A new name. -/
def Fifos.setName (fifo : Fifos) (minor : Nat) (name : List UInt8) : Fifos :=
  Function.update fifo minor { fifo minor with name := name }

/-- `kmalloc` or `vmalloc` succeeds if `got`. -/
def rtfCreate (fifo : Fifos) (minor : Nat) (got : Bool) : Fifos × Int :=
  if minor ≥ MAX_FIFOS then (fifo, -ENODEV)
  else if (fifo minor).opncnt = 0 then
    let fifo := fifo.setOpncnt minor 1
    if got = false then (fifo.setOpncnt minor 0, -ENOMEM) else (fifo, 0)
  else (fifo.setOpncnt minor (atomicInc (fifo minor).opncnt), 0)

/-- `rtf_destroy`: the name goes with the last use. -/
def rtfDestroy (fifo : Fifos) (minor : Nat) : Fifos × Int :=
  if minor ≥ MAX_FIFOS then (fifo, -ENODEV)
  else if (fifo minor).opncnt = 0 then (fifo, -EINVAL)
  else
    let n := atomicDec (fifo minor).opncnt
    let fifo := fifo.setOpncnt minor n
    if n = 0 then (fifo.setName minor (clear (fifo minor).name), 0)
    else (fifo, n)

/-- The loop of `rtf_named_create` over what remains of the table: the slot to use,
    if the search does not `break` before it. -/
def freeSlot (fifo : Fifos) (name : List UInt8) : Nat → Nat → Option Nat
  | 0, _ => none
  | n + 1, minor =>
    if strncmp RTF_NAMELEN name (fifo minor).name = 0 then none
    else if (fifo minor).opncnt = 0 ∧ (fifo minor).name.headD 0 = 0 then some minor
    else freeSlot fifo name n (minor + 1)

/-- `rtf_named_create`: the first free slot. -/
def rtfNamedCreate (fifo : Fifos) (name : List UInt8) (got : Bool) : Fifos × Int :=
  if strlen name > RTF_NAMELEN then (fifo, -EINVAL)
  else
    match freeSlot fifo name MAX_FIFOS 0 with
    | none => (fifo, -EBUSY)
    | some minor =>
      let fifo :=
        fifo.setName minor (strncpy (fifo minor).name name (RTF_NAMELEN + 1))
      match rtfCreate fifo minor got with
      | (fifo, err) =>
        if err < 0 then (fifo.setName minor (clear (fifo minor).name), err)
        else (fifo, minor)

/-- The loop of `rtf_getfifobyname`. -/
def openNamed (fifo : Fifos) (name : List UInt8) : Nat → Nat → Option Nat
  | 0, _ => none
  | n + 1, minor =>
    if (fifo minor).opncnt ≠ 0 ∧ strncmp RTF_NAMELEN name (fifo minor).name = 0 then some minor
    else openNamed fifo name n (minor + 1)

/-- `rtf_getfifobyname`. -/
def rtfGetfifobyname (fifo : Fifos) (name : List UInt8) : Int :=
  if strlen name > RTF_NAMELEN then -EINVAL
  else
    match openNamed fifo name MAX_FIFOS 0 with
    | none => -ENODEV
    | some minor => minor

/-- The calls on the table. -/
inductive Action where
  | namedCreate (name : List UInt8) (got : Bool)
  | create (minor : Nat) (got : Bool)
  | destroy (minor : Nat)
  deriving DecidableEq

/-- A call, with what it returns. -/
def step (fifo : Fifos) : Action → Option (Fifos × Int)
  | .namedCreate name got => some (rtfNamedCreate fifo name got)
  | .create minor got => some (rtfCreate fifo minor got)
  | .destroy minor => some (rtfDestroy fifo minor)

/-- The minor carries the name, as `strncmp` compares them. -/
def Carries (fifo : Fifos) (minor : Nat) (name : List UInt8) : Prop :=
  strncmp RTF_NAMELEN name (fifo minor).name = 0

/-- **No two minors carry the same nonempty name.** -/
def Unique (fifo : Fifos) : Prop :=
  ∀ i j name, i < MAX_FIFOS → j < MAX_FIFOS → str name ≠ [] →
    Carries fifo i name → Carries fifo j name → i = j

/-- `!fifo[minor].opncnt && !fifo[minor].name[0]` -/
def Free (fifo : Fifos) (minor : Nat) : Prop :=
  (fifo minor).opncnt = 0 ∧ (fifo minor).name.headD 0 = 0

/-- A creation by name finds no minor with the name above a free one, and no
    `rtf_create` brings the open count of a named fifo round to 0. -/
def Clear (fifo : Fifos) : Action → Prop
  | .namedCreate name _ =>
    str name ≠ [] → strlen name ≤ RTF_NAMELEN →
      ∀ i j, i < j → j < MAX_FIFOS → Free fifo i → ¬ Carries fifo j name
  | .create minor _ =>
    str (fifo minor).name ≠ [] → atomicInc (fifo minor).opncnt ≠ 0
  | .destroy _ => True

/-- The last `rtf_destroy` of a fifo. -/
def Destroys (fifo : Fifos) (m : Nat) (a : Action) : Prop :=
  a = .destroy m ∧ atomicDec (fifo m).opncnt = 0

section Names

variable {fifo fifo' : Fifos} {name : List UInt8} {m : Nat} {r : Int}

theorem carries_iff {j : Nat} : Carries fifo j name ↔
    (str name).take RTF_NAMELEN = (str (fifo j).name).take RTF_NAMELEN :=
  strncmp_eq_zero _ _ _

/-- Only the string in the buffer matters. -/
theorem carries_congr {j : Nat} (h : str (fifo' j).name = str (fifo j).name) :
    Carries fifo' j name ↔ Carries fifo j name := by
  rw [carries_iff, carries_iff, h]

theorem take_ne_nil {cs : List UInt8} (h : cs ≠ []) : cs.take RTF_NAMELEN ≠ [] := by
  cases cs with
  | nil => exact absurd rfl h
  | cons c cs => exact fun hn => nomatch hn

/-- A minor that carries a nonempty name has one. -/
theorem Carries.named {j : Nat} (h : Carries fifo j name) (hn : str name ≠ []) :
    str (fifo j).name ≠ [] := by
  intro he
  rw [carries_iff, he] at h
  exact take_ne_nil hn h

/-! ## The two searches -/

/-- The slot found is free, and the name has not been met up to it. -/
theorem freeSlot_some {n minor : Nat} (h : freeSlot fifo name n minor = some m) :
    minor ≤ m ∧ m < minor + n ∧ Free fifo m ∧
      ∀ i, minor ≤ i → i ≤ m → ¬ Carries fifo i name := by
  induction n generalizing minor with
  | zero => exact nomatch h
  | succ n ih =>
    unfold freeSlot at h
    by_cases hc : strncmp RTF_NAMELEN name (fifo minor).name = 0
    · rw [if_pos hc] at h
      exact nomatch h
    · rw [if_neg hc] at h
      by_cases hf : (fifo minor).opncnt = 0 ∧ (fifo minor).name.headD 0 = 0
      · rw [if_pos hf] at h
        cases h
        refine ⟨Nat.le_refl _, Nat.lt_add_of_pos_right (Nat.succ_pos n), hf, ?_⟩
        intro i h1 h2
        rw [Nat.le_antisymm h2 h1]
        exact hc
      · rw [if_neg hf] at h
        obtain ⟨h1, h2, h3, h4⟩ := ih h
        refine ⟨by omega, by omega, h3, ?_⟩
        intro i hi him
        by_cases hm : i = minor
        · rw [hm]
          exact hc
        · exact h4 i (by omega) him

/-- Where nothing is found, a minor with the name is met before any free one. -/
theorem freeSlot_none {n minor : Nat} (h : freeSlot fifo name n minor = none) :
    (∀ i, minor ≤ i → i < minor + n → ¬ Free fifo i) ∨
      ∃ k, minor ≤ k ∧ k < minor + n ∧ Carries fifo k name ∧
        ∀ i, minor ≤ i → i < k → ¬ Free fifo i := by
  induction n generalizing minor with
  | zero => exact Or.inl fun i h1 h2 => absurd h2 (Nat.not_lt.mpr h1)
  | succ n ih =>
    unfold freeSlot at h
    by_cases hc : strncmp RTF_NAMELEN name (fifo minor).name = 0
    · exact Or.inr ⟨minor, Nat.le_refl _, by omega, hc,
        fun i h1 h2 => absurd h2 (Nat.not_lt.mpr h1)⟩
    · rw [if_neg hc] at h
      by_cases hf : (fifo minor).opncnt = 0 ∧ (fifo minor).name.headD 0 = 0
      · rw [if_pos hf] at h
        exact nomatch h
      · rw [if_neg hf] at h
        have hstep : ∀ i, minor ≤ i → (minor + 1 ≤ i → ¬ Free fifo i) → ¬ Free fifo i := by
          intro i hi hr
          by_cases hm : i = minor
          · rw [hm]
            exact hf
          · exact hr (by omega)
        rcases ih h with hall | ⟨k, h1, h2, h3, h4⟩
        · exact Or.inl fun i hi hin => hstep i hi fun hi' => hall i hi' (by omega)
        · exact Or.inr ⟨k, by omega, by omega, h3,
            fun i hi hik => hstep i hi fun hi' => h4 i hi' hik⟩

/-- A search that meets the name before any free minor finds nothing. -/
theorem freeSlot_of_carries {j n minor : Nat} (h1 : minor ≤ j)
    (hc : Carries fifo j name) (hf : ∀ i, minor ≤ i → i < j → ¬ Free fifo i) :
    freeSlot fifo name n minor = none := by
  cases hs : freeSlot fifo name n minor with
  | none => rfl
  | some m =>
    obtain ⟨hm, -, hfree, hno⟩ := freeSlot_some hs
    by_cases hj : j ≤ m
    · exact absurd hc (hno j h1 hj)
    · exact absurd hfree (hf m hm (by omega))

/-- The minor that `rtf_getfifobyname` comes to first. -/
theorem openNamed_first {n minor : Nat} (h1 : minor ≤ m) (h2 : m < minor + n)
    (hopen : (fifo m).opncnt ≠ 0) (hc : Carries fifo m name)
    (hno : ∀ i, minor ≤ i → i < m → ¬ Carries fifo i name) :
    openNamed fifo name n minor = some m := by
  induction n generalizing minor with
  | zero => exact absurd h2 (Nat.not_lt.mpr h1)
  | succ n ih =>
    unfold openNamed
    by_cases hm : minor = m
    · rw [hm, if_pos ⟨hopen, hc⟩]
    · rw [if_neg fun h => hno minor (Nat.le_refl _) (by omega) h.2]
      exact ih (by omega) (by omega) fun i hi him => hno i (by omega) him

/-! ## What each call does -/

/-- `rtf_create` of a free minor. -/
theorem rtfCreate_free {got : Bool} (hm : m < MAX_FIFOS) (h0 : (fifo m).opncnt = 0) :
    rtfCreate fifo m got =
      if got then (fifo.setOpncnt m 1, 0) else (fifo, -ENOMEM) := by
  unfold rtfCreate
  rw [if_neg (Nat.not_le.mpr hm), if_pos h0]
  cases got with
  | true => rfl
  | false =>
    show ((fifo.setOpncnt m 1).setOpncnt m 0, -ENOMEM) = (fifo, -ENOMEM)
    have hsame : (fifo.setOpncnt m 1).setOpncnt m 0 = fifo := by
      unfold Fifos.setOpncnt
      rw [Function.update_self, Function.update_idem]
      refine (Function.update_eq_self_iff).mpr ?_
      rw [← h0]
    rw [hsame]

/-- **THE OUTCOMES OF A CREATION BY NAME**: nothing changes, or the memory is short
    and a free minor is left without a name, or the first free minor gets it. -/
theorem rtfNamedCreate_cases {got : Bool} (h : rtfNamedCreate fifo name got = (fifo', r)) :
    (fifo' = fifo ∧ r < 0) ∨
    ∃ m, m < MAX_FIFOS ∧ strlen name ≤ RTF_NAMELEN ∧ Free fifo m ∧
      (∀ i, i ≤ m → ¬ Carries fifo i name) ∧ (∀ j, j ≠ m → fifo' j = fifo j) ∧
      ((got = false ∧ r = -ENOMEM ∧ str (fifo' m).name = []) ∨
        (got = true ∧ r = m ∧ (fifo' m).opncnt = 1 ∧ str (fifo' m).name = str name)) := by
  unfold rtfNamedCreate at h
  by_cases hlen : strlen name > RTF_NAMELEN
  · rw [if_pos hlen] at h
    cases h
    exact Or.inl ⟨rfl, by decide⟩
  · rw [if_neg hlen] at h
    cases hs : freeSlot fifo name MAX_FIFOS 0 with
    | none =>
      rw [hs] at h
      cases h
      exact Or.inl ⟨rfl, by decide⟩
    | some m =>
      obtain ⟨-, hm, hfree, hno⟩ := freeSlot_some hs
      rw [Nat.zero_add] at hm
      right
      refine ⟨m, hm, Nat.not_lt.mp hlen, hfree, fun i hi => hno i (Nat.zero_le i) hi, ?_⟩
      rw [hs] at h
      let named := fifo.setName m (strncpy (fifo m).name name (RTF_NAMELEN + 1))
      have hnamed : named m =
          ⟨(fifo m).opncnt, strncpy (fifo m).name name (RTF_NAMELEN + 1)⟩ :=
        Function.update_self _ _ _
      have hopen : (named m).opncnt = 0 := by
        rw [hnamed]
        exact hfree.1
      have hothers : ∀ j, j ≠ m → named j = fifo j :=
        fun j hj => Function.update_of_ne hj _ _
      change (match rtfCreate named m got with
        | (fifo, err) =>
          if err < 0 then (fifo.setName m (clear (fifo m).name), err)
          else (fifo, (m : Int))) = (fifo', r) at h
      rw [rtfCreate_free hm hopen] at h
      cases got with
      | false =>
        cases h
        refine ⟨fun j hj => ?_, Or.inl ⟨rfl, rfl, ?_⟩⟩
        · exact (Function.update_of_ne hj _ _).trans (hothers j hj)
        · unfold Fifos.setName
          rw [Function.update_self]
          exact str_clear _
      | true =>
        cases h
        refine ⟨fun j hj => ?_, Or.inr ⟨rfl, rfl, ?_, ?_⟩⟩
        · exact (Function.update_of_ne hj _ _).trans (hothers j hj)
        · unfold Fifos.setOpncnt
          rw [Function.update_self]
        · unfold Fifos.setOpncnt
          rw [Function.update_self, hnamed]
          exact str_strncpy (Nat.lt_succ_of_le (Nat.not_lt.mp hlen))

/-- `rtf_create` keeps all names, and the counts of the other minors. -/
theorem rtfCreate_frame {minor : Nat} {got : Bool}
    (h : rtfCreate fifo minor got = (fifo', r)) (j : Nat) :
    (fifo' j).name = (fifo j).name ∧ (j ≠ minor → fifo' j = fifo j) ∧
      ((fifo j).opncnt ≠ 0 → j = minor →
        (fifo' j).opncnt = atomicInc (fifo j).opncnt ∨ fifo' j = fifo j) := by
  by_cases hm : minor ≥ MAX_FIFOS
  · unfold rtfCreate at h
    rw [if_pos hm] at h
    cases h
    exact ⟨rfl, fun _ => rfl, fun _ _ => Or.inr rfl⟩
  · have hset : ∀ n, ((fifo.setOpncnt minor n) j).name = (fifo j).name ∧
        (j ≠ minor → (fifo.setOpncnt minor n) j = fifo j) := by
      intro n
      unfold Fifos.setOpncnt
      by_cases hj : j = minor
      · rw [hj, Function.update_self]
        exact ⟨rfl, fun hne => absurd rfl hne⟩
      · rw [Function.update_of_ne hj]
        exact ⟨rfl, fun _ => rfl⟩
    by_cases h0 : (fifo minor).opncnt = 0
    · rw [rtfCreate_free (Nat.not_le.mp hm) h0] at h
      cases got with
      | false =>
        cases h
        exact ⟨rfl, fun _ => rfl, fun _ _ => Or.inr rfl⟩
      | true =>
        cases h
        exact ⟨(hset 1).1, (hset 1).2, fun hne he => absurd (he ▸ h0) hne⟩
    · unfold rtfCreate at h
      rw [if_neg hm, if_neg h0] at h
      cases h
      refine ⟨(hset _).1, (hset _).2, fun _ he => Or.inl ?_⟩
      rw [he]
      unfold Fifos.setOpncnt
      rw [Function.update_self]

/-- `rtf_destroy` takes at most the name of its minor, and with the last open. -/
theorem rtfDestroy_frame {minor : Nat} (h : rtfDestroy fifo minor = (fifo', r)) (j : Nat) :
    (j ≠ minor → fifo' j = fifo j) ∧
    (fifo' j = fifo j ∨ (atomicDec (fifo j).opncnt = 0 ∧ str (fifo' j).name = []) ∨
      (atomicDec (fifo j).opncnt ≠ 0 ∧ (fifo' j).name = (fifo j).name ∧
        (fifo' j).opncnt = atomicDec (fifo j).opncnt)) := by
  unfold rtfDestroy at h
  by_cases hm : minor ≥ MAX_FIFOS
  · rw [if_pos hm] at h
    cases h
    exact ⟨fun _ => rfl, Or.inl rfl⟩
  rw [if_neg hm] at h
  by_cases h0 : (fifo minor).opncnt = 0
  · rw [if_pos h0] at h
    cases h
    exact ⟨fun _ => rfl, Or.inl rfl⟩
  rw [if_neg h0] at h
  by_cases hd : atomicDec (fifo minor).opncnt = 0
  · dsimp only at h
    rw [if_pos hd] at h
    cases h
    by_cases hj : j = minor
    · rw [hj]
      refine ⟨fun hne => absurd rfl hne, Or.inr (Or.inl ⟨hd, ?_⟩)⟩
      unfold Fifos.setName
      rw [Function.update_self]
      exact str_clear _
    · have hsame : ∀ (n : Int) name, ((fifo.setOpncnt minor n).setName minor name) j =
          fifo j := by
        intro n name
        unfold Fifos.setName Fifos.setOpncnt
        rw [Function.update_of_ne hj, Function.update_of_ne hj]
      exact ⟨fun _ => hsame _ _, Or.inl (hsame _ _)⟩
  · dsimp only at h
    rw [if_neg hd] at h
    cases h
    unfold Fifos.setOpncnt
    by_cases hj : j = minor
    · rw [hj, Function.update_self]
      exact ⟨fun hne => absurd rfl hne, Or.inr (Or.inr ⟨hd, rfl, rfl⟩)⟩
    · rw [Function.update_of_ne hj]
      exact ⟨fun _ => rfl, Or.inl rfl⟩

/-! ## Uniqueness -/

/-- Names that are kept or taken away stay unique. -/
theorem Unique.of_names (hu : Unique fifo)
    (h : ∀ j, str (fifo' j).name = str (fifo j).name ∨ str (fifo' j).name = []) :
    Unique fifo' := by
  intro i j name hi hj hn hci hcj
  have hkept : ∀ k, Carries fifo' k name → Carries fifo k name := by
    intro k hk
    rcases h k with he | he
    · exact (carries_congr he).mp hk
    · exact absurd he (hk.named hn)
  exact hu i j name hi hj hn (hkept i hci) (hkept j hcj)

/-- A new name, that no other minor carries. -/
theorem Unique.insert (hu : Unique fifo) (hothers : ∀ j, j ≠ m → fifo' j = fifo j)
    (hname : str (fifo' m).name = str name)
    (hno : ∀ j, j ≠ m → j < MAX_FIFOS → ¬ Carries fifo j name) : Unique fifo' := by
  have hnew : ∀ j name', j ≠ m → j < MAX_FIFOS → Carries fifo' m name' →
      ¬ Carries fifo' j name' := by
    intro j name' hj hlt hcm hcj
    refine hno j hj hlt ?_
    rw [carries_iff] at hcm hcj ⊢
    rw [← hothers j hj, ← hcj, hcm, hname]
  intro i j name' hi hj hn hci hcj
  by_cases him : i = m
  · by_cases hjm : j = m
    · rw [him, hjm]
    · rw [him] at hci
      exact absurd hcj (hnew j name' hjm hj hci)
  · by_cases hjm : j = m
    · rw [hjm] at hcj
      exact absurd hci (hnew i name' him hi hcj)
    · rw [Carries, hothers i him] at hci
      rw [Carries, hothers j hjm] at hcj
      exact hu i j name' hi hj hn hci hcj

/-- **A CLEAR CALL KEEPS THE NAMES UNIQUE.** -/
theorem Unique.step {a : Action} (hu : Unique fifo) (hc : Clear fifo a)
    (h : step fifo a = some (fifo', r)) : Unique fifo' := by
  cases a with
  | namedCreate name got =>
    rcases rtfNamedCreate_cases (Option.some.inj h) with
      ⟨rfl, -⟩ | ⟨m, hm, hlen, hfree, hno, hothers, hout⟩
    · exact hu
    · rcases hout with ⟨-, -, hname⟩ | ⟨-, -, -, hname⟩
      · refine hu.of_names fun j => ?_
        by_cases hj : j = m
        · rw [hj]
          exact Or.inr hname
        · rw [hothers j hj]
          exact Or.inl rfl
      · refine hu.insert hothers hname fun j hj hlt => ?_
        have hn : str name ≠ [] := by
          intro he
          refine hno m (Nat.le_refl m) (carries_iff.mpr ?_)
          rw [he, headD_eq_zero.mp hfree.2]
        by_cases hle : j ≤ m
        · exact hno j hle
        · exact hc hn hlen m j (Nat.not_le.mp hle) hlt hfree
  | create minor got =>
    refine hu.of_names fun j => Or.inl ?_
    rw [(rtfCreate_frame (Option.some.inj h) j).1]
  | destroy minor =>
    refine hu.of_names fun j => ?_
    rcases (rtfDestroy_frame (Option.some.inj h) j).2 with
      hsame | ⟨-, hname⟩ | ⟨-, hname, -⟩
    · rw [hsame]
      exact Or.inl rfl
    · exact Or.inr hname
    · rw [hname]
      exact Or.inl rfl

/-- The name `a`. -/
def nameA : List UInt8 := [97, 0]

/-- The name `b`. -/
def nameB : List UInt8 := [98, 0]

/-- The table after the calls. -/
def after (fifo : Fifos) : List Action → Fifos
  | [] => fifo
  | a :: as =>
    match step fifo a with
    | none => fifo
    | some (fifo', _) => after fifo' as

theorem unique_start : Unique Fifos.start :=
  fun _ _ _ _ _ hn hc _ => absurd rfl (hc.named hn)

/-- **ONLY A CLEAR CREATION KEEPS THE NAMES UNIQUE**, when it has its memory. -/
theorem unique_iff_clear (hu : Unique fifo)
    (h : step fifo (.namedCreate name true) = some (fifo', r)) :
    Unique fifo' ↔ Clear fifo (.namedCreate name true) := by
  constructor
  · intro hu' hn hlen i j hij hj hfree hcj
    rcases rtfNamedCreate_cases (Option.some.inj h) with
      ⟨-, hr⟩ | ⟨m, hm, -, hfm, hno, hothers, hout⟩
    · have hnone : freeSlot fifo name MAX_FIFOS 0 = none := by
        cases hs : freeSlot fifo name MAX_FIFOS 0 with
        | none => rfl
        | some m =>
          obtain ⟨-, hm, hfm, -⟩ := freeSlot_some hs
          have hret := congrArg Prod.snd (Option.some.inj h)
          have hopen : ((fifo.setName m
              (strncpy (fifo m).name name (RTF_NAMELEN + 1))) m).opncnt = 0 := by
            unfold Fifos.setName
            rw [Function.update_self]
            exact hfm.1
          unfold rtfNamedCreate at hret
          rw [if_neg (Nat.not_lt.mpr hlen), hs] at hret
          dsimp only at hret
          rw [rtfCreate_free (by omega) hopen] at hret
          have hrm : (m : Int) = r := hret
          omega
      -- the scan has stopped at the name, or found no slot
      rcases freeSlot_none hnone with hall | ⟨k, -, hk, hck, hbefore⟩
      · exact hall i (Nat.zero_le i) (by omega) hfree
      · have hki : k = j := hu k j name (by omega) hj hn hck hcj
        exact hbefore i (Nat.zero_le i) (by omega) hfree
    · rcases hout with ⟨hf, -⟩ | ⟨-, -, -, hname⟩
      · exact nomatch hf
      -- the new fifo would be a second one of that name
      · have hmj : m ≠ j := fun he => hno m (Nat.le_refl m) (he ▸ hcj)
        refine hmj (hu' m j name hm hj hn ?_ ?_)
        · rw [carries_iff, hname]
        · rw [Carries, hothers j hmj.symm]
          exact hcj
  · intro hc
    exact hu.step hc h

/-- No minor has the name. -/
theorem clear_of_unknown {name : List UInt8} {got : Bool}
    (h : ∀ j < MAX_FIFOS, ¬ Carries fifo j name) :
    Clear fifo (.namedCreate name got) :=
  fun _ _ _ j _ hj _ => h j hj

instance (fifo : Fifos) (minor : Nat) (name : List UInt8) :
    Decidable (Carries fifo minor name) :=
  inferInstanceAs (Decidable (_ = _))

/-- The fifo below that of the name `b` has been destroyed. -/
def freedBelow : Fifos :=
  after Fifos.start [.namedCreate nameA true, .namedCreate nameB true, .destroy 0]

theorem unique_freedBelow : Unique freedBelow := by
  have hA : Clear Fifos.start (.namedCreate nameA true) :=
    clear_of_unknown (by decide +kernel)
  have hB : Clear (after Fifos.start [.namedCreate nameA true]) (.namedCreate nameB true) :=
    clear_of_unknown (by decide +kernel)
  exact ((unique_start.step hA rfl).step hB rfl).step (a := .destroy 0) trivial rfl

/-- Above the free slot is the name `b`: another may be given, but `b` is given
    twice. -/
theorem unique_iff_clear_freed : Unique (rtfNamedCreate freedBelow nameA true).1 ∧
      ¬ Unique (rtfNamedCreate freedBelow nameB true).1 := by
  constructor
  · exact (@unique_iff_clear _ _ nameA _ unique_freedBelow rfl).mpr
      (clear_of_unknown (by decide +kernel))
  · intro hu
    refine (@unique_iff_clear _ _ nameB _ unique_freedBelow rfl).mp hu
      (by decide) (by decide) 0 1 (by decide) (by decide)
      ⟨by decide, by decide⟩ ?_
    decide

/-! ## A name in use, and a name given -/

/-- **A NAME IN USE IS REFUSED.** -/
theorem rtfNamedCreate_in_use {got : Bool} {j : Nat}
    (hc : Clear fifo (.namedCreate name got)) (hj : j < MAX_FIFOS)
    (hcj : Carries fifo j name) :
    ∃ r, r < 0 ∧ rtfNamedCreate fifo name got = (fifo, r) := by
  unfold rtfNamedCreate
  by_cases hlen : strlen name > RTF_NAMELEN
  · rw [if_pos hlen]
    exact ⟨-EINVAL, by decide, rfl⟩
  rw [if_neg hlen]
  have hnone : freeSlot fifo name MAX_FIFOS 0 = none := by
    by_cases hn : str name = []
    · cases hs : freeSlot fifo name MAX_FIFOS 0 with
      | none => rfl
      | some m =>
        -- a free minor carries the empty name
        obtain ⟨-, -, hfree, hno⟩ := freeSlot_some hs
        refine absurd (carries_iff.mpr ?_) (hno m (Nat.zero_le m) (Nat.le_refl m))
        rw [hn, headD_eq_zero.mp hfree.2]
    · refine freeSlot_of_carries (Nat.zero_le j) hcj ?_
      intro i _ hij hfree
      exact hc hn (Nat.not_lt.mp hlen) i j hij hj hfree hcj
  rw [hnone]
  exact ⟨-EBUSY, by decide, rfl⟩

/-- The minor is open under the name. -/
def Holds (fifo : Fifos) (m : Nat) (name : List UInt8) : Prop :=
  (fifo m).opncnt ≠ 0 ∧ str (fifo m).name = str name

/-- A clear call other than the last destroy leaves an open minor its name. -/
theorem Holds.step {a : Action} (hh : Holds fifo m name) (hn : str name ≠ [])
    (hc : Clear fifo a) (hd : ¬ Destroys fifo m a)
    (h : step fifo a = some (fifo', r)) : Holds fifo' m name := by
  obtain ⟨hopen, hname⟩ := hh
  cases a with
  | namedCreate name' got =>
    rcases rtfNamedCreate_cases (Option.some.inj h) with
      ⟨rfl, -⟩ | ⟨k, -, -, hfree, -, hothers, -⟩
    · exact ⟨hopen, hname⟩
    · have hmk : m ≠ k := fun he => hopen (he ▸ hfree.1)
      rw [Holds, hothers m hmk]
      exact ⟨hopen, hname⟩
  | create minor got =>
    obtain ⟨hkept, hothers, hcount⟩ := rtfCreate_frame (Option.some.inj h) m
    refine ⟨?_, by rw [hkept, hname]⟩
    by_cases hm : m = minor
    · rcases hcount hopen hm with hinc | hsame
      · rw [hinc, hm]
        refine hc ?_
        rw [← hm, hname]
        exact hn
      · rw [hsame]
        exact hopen
    · rw [hothers hm]
      exact hopen
  | destroy minor =>
    obtain ⟨hothers, hout⟩ := rtfDestroy_frame (Option.some.inj h) m
    by_cases hm : m = minor
    · rcases hout with hsame | ⟨h0, -⟩ | ⟨h0, hkept, hdec⟩
      · rw [Holds, hsame]
        exact ⟨hopen, hname⟩
      · exact absurd ⟨by rw [hm], h0⟩ hd
      · rw [Holds, hkept, hdec]
        exact ⟨h0, hname⟩
    · rw [Holds, hothers hm]
      exact ⟨hopen, hname⟩

/-- **A NAME THAT IS HELD IS FOUND.** -/
theorem Holds.found (hh : Holds fifo m name) (hu : Unique fifo) (hm : m < MAX_FIFOS)
    (hn : str name ≠ []) (hlen : strlen name ≤ RTF_NAMELEN) :
    rtfGetfifobyname fifo name = m := by
  have hc : Carries fifo m name := by
    rw [carries_iff, hh.2]
  have hfound : openNamed fifo name MAX_FIFOS 0 = some m := by
    refine openNamed_first (Nat.zero_le m) (by omega) hh.1 hc ?_
    intro i _ him hci
    have heq : i = m := hu i m name (by omega) hm hn hci hc
    omega
  unfold rtfGetfifobyname
  rw [if_neg (Nat.not_lt.mpr hlen), hfound]

/-- **NAMED FIFOS ARE UNIQUE AND FOUND**, in every run of clear calls. -/
theorem named_fifos_unique (hrun : Reach step Clear Fifos.start fifo) : Unique fifo ∧
    (∀ name got j, Clear fifo (.namedCreate name got) → j < MAX_FIFOS →
      Carries fifo j name → ∃ r, r < 0 ∧ rtfNamedCreate fifo name got = (fifo, r)) ∧
    (∀ name got (m : Nat) fifo' fifo'', Clear fifo (.namedCreate name got) →
      rtfNamedCreate fifo name got = (fifo', (m : Int)) →
      Reach step (fun t a => Clear t a ∧ ¬ Destroys t m a) fifo' fifo'' →
        rtfGetfifobyname fifo'' name = m) := by
  have hu : Unique fifo :=
    hrun.invariant unique_start fun _ _ _ _ hu hc h => hu.step hc h
  refine ⟨hu, fun name got j hc hj hcj => rtfNamedCreate_in_use hc hj hcj, ?_⟩
  intro name got m fifo' fifo'' hc hcall hlater
  have hstep : step fifo (.namedCreate name got) = some (fifo', (m : Int)) :=
    congrArg some hcall
  rcases rtfNamedCreate_cases hcall with
    ⟨-, hr⟩ | ⟨k, hk, hlen, hfree, hno, -, hout⟩
  · omega
  rcases hout with ⟨-, hr, -⟩ | ⟨-, hr, hopen, hname⟩
  · rw [ENOMEM] at hr
    omega
  · have hkm : k = m := by omega
    subst hkm
    have hn : str name ≠ [] := by
      intro he
      refine hno k (Nat.le_refl k) (carries_iff.mpr ?_)
      rw [he, headD_eq_zero.mp hfree.2]
    have hheld : Holds fifo' k name :=
      ⟨by rw [hopen]; decide, hname⟩
    -- nobody destroys the fifo, so it keeps its name
    have hboth := hlater.invariant (I := fun t => Unique t ∧ Holds t k name)
      ⟨hu.step hc hstep, hheld⟩
      fun _ _ _ _ hi hP h => ⟨hi.1.step hP.1 h, hi.2.step hn hP.1 hP.2 h⟩
    exact hboth.2.found hboth.1 hk hn hlen

end Names

theorem reach_after (fifo : Fifos) (as : List Action) :
    Reach step (fun _ _ => True) fifo (after fifo as) := by
  induction as generalizing fifo with
  | nil => exact Reach.refl fifo
  | cons a as ih =>
    have hstep : ∃ fifo' r, step fifo a = some (fifo', r) := by
      cases a <;> exact ⟨_, _, rfl⟩
    obtain ⟨fifo', r, h⟩ := hstep
    unfold after
    rw [h]
    exact Relation.ReflTransGen.head ⟨a, r, trivial, h⟩ (ih fifo')

/-- Of two fifos created by name the second is opened once more and the first
    destroyed; the second is found. -/
theorem named_fifos_unique_two : rtfGetfifobyname (after Fifos.start [.namedCreate nameA true,
      .namedCreate nameB true, .create 1 true, .destroy 0]) nameB = 1 := by
  have hA : Clear Fifos.start (.namedCreate nameA true) :=
    clear_of_unknown (by decide +kernel)
  have hB : Clear (after Fifos.start [.namedCreate nameA true]) (.namedCreate nameB true) :=
    clear_of_unknown (by decide +kernel)
  have hall := named_fifos_unique
    ((Reach.refl Fifos.start).tail (a := .namedCreate nameA true) hA rfl)
  have hother : ¬ Destroys (after Fifos.start [.namedCreate nameA true,
      .namedCreate nameB true, .create 1 true]) 1 (.destroy 0) :=
    fun hd => nomatch hd.1
  refine hall.2.2 nameB true 1 _ _ hB rfl (((Reach.refl _).tail
    (a := .create 1 true) ⟨fun _ => ?_, fun hd => nomatch hd.1⟩ rfl).tail
      (a := .destroy 0) ⟨trivial, hother⟩ rfl)
  decide

/-- **TWO MINORS UNDER ONE NAME**: the fifo that was below has been destroyed, and
    the search stops at its slot. -/
theorem duplicate_name : ∃ fifo fifo', Reach step (fun _ _ => True) Fifos.start fifo ∧
      Carries fifo 1 nameB ∧ (fifo 1).opncnt = 1 ∧
      rtfNamedCreate fifo nameB true = (fifo', 0) ∧
      Carries fifo' 0 nameB ∧ Carries fifo' 1 nameB ∧ ¬ Unique fifo' ∧
      rtfGetfifobyname fifo' nameB = 0 := by
  let fifo := freedBelow
  let fifo' := (rtfNamedCreate fifo nameB true).1
  have h0 : Carries fifo' 0 nameB := by
    show strncmp RTF_NAMELEN nameB (fifo' 0).name = 0
    decide
  have h1 : Carries fifo' 1 nameB := by
    show strncmp RTF_NAMELEN nameB (fifo' 1).name = 0
    decide
  refine ⟨fifo, fifo', reach_after _ _, ?_, by decide, rfl, h0, h1, ?_, by decide⟩
  · show strncmp RTF_NAMELEN nameB (fifo 1).name = 0
    decide
  · intro hu
    have heq : 0 = 1 := hu 0 1 nameB (by decide) (by decide) (by decide) h0 h1
    exact absurd heq (by decide)

end RtaiFifoNames
