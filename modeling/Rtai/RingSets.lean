import Rtai.Rings

/-! # The elements of a family of rings

    `OnRings k on` forgets in which ring an element stands, and where: the rings
    together have the elements with `on`, each once.  This is enough to say that
    an element is reached from a head, and `Linked` says it of the pointers
    alone. -/

namespace RtaiRings

variable {α H : Type} {k : Links (Node α H)} {on on' : α → Prop} {x : α}

/-- The elements of some rings are those of a set. -/
def OnRings (k : Links (Node α H)) (on : α → Prop) : Prop :=
  ∃ L, Rings k L ∧ ∀ a, (∃ h, a ∈ L h) ↔ on a

/-- The element is reached from a head along `next`. -/
def Linked (k : Links (Node α H)) (a : α) : Prop :=
  ∃ h, Relation.ReflTransGen (fun m n => k.next m = n) (.head h) (.elem a)

/-- **WHAT IS REACHED IS WHAT STANDS IN A RING.** -/
theorem OnRings.linked_iff (h : OnRings k on) {a : α} : Linked k a ↔ on a := by
  obtain ⟨L, R, hmem⟩ := h
  rw [← hmem]
  constructor
  · rintro ⟨h₀, hreach⟩
    -- every node reached is the rest of the ring of `h₀`
    have hrest : ∀ n, Relation.ReflTransGen (fun m n => k.next m = n)
        (.head h₀) n → ∃ l₁ l₂, L h₀ = l₁ ++ l₂ ∧ n = firstOf l₂ (.head h₀) := by
      intro n hn
      induction hn with
      | refl => exact ⟨L h₀, [], (List.append_nil _).symm, rfl⟩
      | tail _ hstep ih =>
        obtain ⟨l₁, l₂, hL, he⟩ := ih
        subst hstep
        rw [he]
        cases l₂ with
        | nil => exact ⟨[], L h₀, rfl, R.next_head h₀⟩
        | cons b l =>
          exact ⟨l₁ ++ [b], l, by rw [hL, List.append_assoc, List.singleton_append],
            (R.elem_links hL).1⟩
    obtain ⟨l₁, l₂, hL, he⟩ := hrest _ hreach
    refine ⟨h₀, ?_⟩
    rw [hL]
    cases l₂ with
    | nil => exact nomatch he
    | cons b l =>
      cases he
      exact List.mem_append_right _ (List.mem_cons_self ..)
  · rintro ⟨h₀, ha⟩
    refine ⟨h₀, ?_⟩
    have hall : ∀ l₁ l₂ : List α, L h₀ = l₁ ++ l₂ →
        Relation.ReflTransGen (fun m n => k.next m = n) (.head h₀)
          (firstOf l₂ (.head h₀)) := by
      intro l₁
      induction l₁ using List.reverseRecOn with
      | nil =>
        intro l₂ hL
        refine Relation.ReflTransGen.single ?_
        rw [R.next_head, hL]
        rfl
      | append_singleton l₁ b ih =>
        intro l₂ hL
        rw [List.append_assoc] at hL
        exact (ih (b :: l₂) hL).tail (R.elem_links hL).1
    obtain ⟨l₁, l₂, hL⟩ := List.append_of_mem ha
    exact hall l₁ (a :: l₂) hL

theorem OnRings.same (h : OnRings k on) (hon : ∀ a, on' a ↔ on a) : OnRings k on' := by
  obtain ⟨L, R, hmem⟩ := h
  exact ⟨L, R, fun a => (hmem a).trans (hon a).symm⟩

/-- The node is a head or stands in a ring. -/
def InRings (on : α → Prop) : Node α H → Prop
  | .head _ => True
  | .elem a => on a

/-- Such a node is what is left of a ring behind some of its elements. -/
theorem InRings.place {L : H → List α} (hmem : ∀ a, (∃ h, a ∈ L h) ↔ on a)
    {n : Node α H} (hn : InRings on n) :
    ∃ h l₁ l₂, L h = l₁ ++ l₂ ∧ n = firstOf l₂ (.head h) := by
  cases n with
  | head h => exact ⟨h, L h, [], (List.append_nil _).symm, rfl⟩
  | elem a =>
    obtain ⟨h, ha⟩ := (hmem a).mpr hn
    obtain ⟨l₁, l₂, hL⟩ := List.append_of_mem ha
    exact ⟨h, l₁, a :: l₂, hL, rfl⟩

theorem inRings_firstOf {L : H → List α} (hmem : ∀ a, (∃ h, a ∈ L h) ↔ on a) {h : H}
    {l₁ l₂ : List α} (hL : L h = l₁ ++ l₂) :
    InRings on (firstOf l₂ (.head h) : Node α H) := by
  cases l₂ with
  | nil => exact trivial
  | cons b l =>
    refine (hmem b).mp ⟨h, ?_⟩
    rw [hL]
    exact List.mem_append_right _ (List.mem_cons_self ..)

/-- A walk that starts in the rings ends in them. -/
theorem OnRings.walk (h : OnRings k on) {stop : Node α H → Option Bool} {fuel : Nat}
    {n p : Node α H} (hn : InRings on n)
    (hw : RtaiRings.walk stop k.next fuel n = some p) : InRings on p := by
  obtain ⟨L, R, hmem⟩ := h
  obtain ⟨h₀, l₁, l₂, hL, rfl⟩ := hn.place hmem
  obtain ⟨m₁, m₂, hL', rfl⟩ := R.walk_mem hL hw
  exact inRings_firstOf hmem hL'

theorem OnRings.next (h : OnRings k on) {n : Node α H} (hn : InRings on n) :
    InRings on (k.next n) := by
  obtain ⟨L, R, hmem⟩ := h
  obtain ⟨h₀, l₁, l₂, hL, rfl⟩ := hn.place hmem
  cases l₂ with
  | nil =>
    rw [firstOf_nil, R.next_head]
    exact inRings_firstOf hmem (show L h₀ = [] ++ L h₀ from rfl)
  | cons b l =>
    rw [firstOf_cons, (R.elem_links hL).1]
    have hL' : L h₀ = (l₁ ++ [b]) ++ l := by
      rw [hL, List.append_assoc, List.singleton_append]
    exact inRings_firstOf hmem hL'

variable [DecidableEq α] [DecidableEq H]

theorem OnRings.unlink (h : OnRings k on) (hx : on x) (hon : ∀ a, on' a ↔ on a ∧ a ≠ x) :
    OnRings (k.unlink (.elem x)) on' := by
  obtain ⟨L, R, hmem⟩ := h
  obtain ⟨h₀, hin⟩ := (hmem x).mpr hx
  refine ⟨_, R.unlink_erase hin, fun a => ?_⟩
  rw [hon, ← hmem]
  constructor
  · rintro ⟨h', ha⟩
    by_cases he : h' = h₀
    · rw [he, Function.update_self, (R.nodup h₀).mem_erase_iff] at ha
      exact ⟨⟨h₀, ha.2⟩, ha.1⟩
    · rw [Function.update_of_ne he] at ha
      refine ⟨⟨h', ha⟩, ?_⟩
      rintro rfl
      exact he (R.apart h' h₀ a ha hin)
  · rintro ⟨⟨h', ha⟩, hne⟩
    refine ⟨h', ?_⟩
    by_cases he : h' = h₀
    · rw [he, Function.update_self, (R.nodup h₀).mem_erase_iff]
      exact ⟨hne, he ▸ ha⟩
    · rw [Function.update_of_ne he]
      exact ha

theorem OnRings.insert (h : OnRings k on) (hx : ¬ on x) {p : Node α H}
    (hp : InRings on p) (hon : ∀ a, on' a ↔ on a ∨ a = x) :
    OnRings (k.insertBefore (.elem x) p) on' := by
  obtain ⟨L, R, hmem⟩ := h
  have hout : ∀ h', x ∉ L h' := fun h' hin => hx ((hmem x).mp ⟨h', hin⟩)
  obtain ⟨h₀, l₁, l₂, hL, rfl⟩ := hp.place hmem
  refine ⟨_, R.insert hL hout, fun a => ?_⟩
  rw [hon, ← hmem]
  constructor
  · rintro ⟨h', ha⟩
    by_cases he : h' = h₀
    · rw [he, Function.update_self, List.mem_append, List.mem_cons] at ha
      rcases ha with ha | rfl | ha
      · exact Or.inl ⟨h₀, hL ▸ List.mem_append_left _ ha⟩
      · exact Or.inr rfl
      · exact Or.inl ⟨h₀, hL ▸ List.mem_append_right _ ha⟩
    · rw [Function.update_of_ne he] at ha
      exact Or.inl ⟨h', ha⟩
  · rintro (⟨h', ha⟩ | rfl)
    · refine ⟨h', ?_⟩
      by_cases he : h' = h₀
      · rw [he, hL, List.mem_append] at ha
        rw [he, Function.update_self, List.mem_append, List.mem_cons]
        exact ha.imp_right Or.inr
      · rw [Function.update_of_ne he]
        exact ha
    · refine ⟨h₀, ?_⟩
      rw [Function.update_self]
      exact List.mem_append_right _ (List.mem_cons_self ..)

end RtaiRings
