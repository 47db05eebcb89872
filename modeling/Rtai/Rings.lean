import Mathlib

/-! # Intrusive doubly linked rings

    The memory of a set of link nodes is a pair of maps `next`, `prev`.  Some
    nodes are HEADS (anchors of a ring, never moved), the others are ELEMENTS,
    each embedded in an object of type `α`.  `Rings k L` says that every head
    `h` anchors a well formed ring whose elements are, in order, the list
    `L h`, and that no element stands in two places.

    The two pointer operations of such lists are `insertBefore` and `unlink`.
    `Rings.insert` and `Rings.unlink` say what they do to the lists; both need
    to know where the element is, and nothing is said when it is not there:
    the pointers of an unlinked element are arbitrary. -/

namespace RtaiRings

/-- A link node: the anchor of a ring or the node embedded in an object. -/
inductive Node (α H : Type) where
  | head (h : H)
  | elem (a : α)
  deriving DecidableEq

/-- The two link fields of every node. -/
structure Links (N : Type) where
  next : N → N
  prev : N → N

section Pointers

variable {N : Type} [decN : DecidableEq N]

/-- Every node linked to itself: no ring has an element. -/
def Links.empty : Links N where
  next := id
  prev := id

/-- `p->prev = (x->prev = p->prev)->next = x; x->next = p`. -/
def Links.insertBefore (k : Links N) (x p : N) : Links N where
  next := Function.update (Function.update k.next (k.prev p) x) x p
  prev := Function.update (Function.update k.prev x (k.prev p)) p x

/-- `x->prev->next = x->next; x->next->prev = x->prev`. -/
def Links.unlink (k : Links N) (x : N) : Links N where
  next := Function.update k.next (k.prev x) (k.next x)
  prev := Function.update k.prev (k.next x) (k.prev x)

/-- `x->prev = x->next = x`. -/
def Links.selfLink (k : Links N) (x : N) : Links N where
  next := Function.update k.next x x
  prev := Function.update k.prev x x

variable {k : Links N} {x p n : N}

theorem selfLink_next_of_ne (h : n ≠ x) : (k.selfLink x).next n = k.next n :=
  Function.update_of_ne h ..

theorem selfLink_prev_of_ne (h : n ≠ x) : (k.selfLink x).prev n = k.prev n :=
  Function.update_of_ne h ..

theorem insertBefore_next_of_ne (h1 : n ≠ x) (h2 : n ≠ k.prev p) :
    (k.insertBefore x p).next n = k.next n :=
  (Function.update_of_ne h1 ..).trans (Function.update_of_ne h2 ..)

theorem insertBefore_next_self : (k.insertBefore x p).next x = p :=
  Function.update_self ..

theorem insertBefore_next_prev (h : k.prev p ≠ x) : (k.insertBefore x p).next (k.prev p) = x :=
  (Function.update_of_ne h ..).trans (Function.update_self ..)

theorem insertBefore_prev_of_ne (h1 : n ≠ x) (h2 : n ≠ p) :
    (k.insertBefore x p).prev n = k.prev n :=
  (Function.update_of_ne h2 ..).trans (Function.update_of_ne h1 ..)

theorem insertBefore_prev_self (h : x ≠ p) : (k.insertBefore x p).prev x = k.prev p :=
  (Function.update_of_ne h ..).trans (Function.update_self ..)

theorem insertBefore_prev_before : (k.insertBefore x p).prev p = x :=
  Function.update_self ..

theorem unlink_next_of_ne (h : n ≠ k.prev x) : (k.unlink x).next n = k.next n :=
  Function.update_of_ne h ..

theorem unlink_next_prev : (k.unlink x).next (k.prev x) = k.next x :=
  Function.update_self ..

theorem unlink_prev_of_ne (h : n ≠ k.next x) : (k.unlink x).prev n = k.prev n :=
  Function.update_of_ne h ..

theorem unlink_prev_next : (k.unlink x).prev (k.next x) = k.prev x :=
  Function.update_self ..

end Pointers

variable {α H : Type}

theorem head_ne_elem (h : H) (a : α) : (.head h : Node α H) ≠ .elem a := nofun

theorem elem_ne_head (a : α) (h : H) : (.elem a : Node α H) ≠ .head h := nofun

/-- The links lead from `x` through `l` to `y`, and back. -/
def Chain (k : Links (Node α H)) : Node α H → List α → Node α H → Prop
  | x, [], y => k.next x = y ∧ k.prev y = x
  | x, a :: l, y =>
    k.next x = .elem a ∧ k.prev (.elem a) = x ∧ Chain k (.elem a) l y

/-- The node after `x` in `x, l, y`. -/
def firstOf (l : List α) (y : Node α H) : Node α H :=
  match l with
  | [] => y
  | a :: _ => .elem a

/-- The node before `y` in `x, l, y`. -/
def lastOf : Node α H → List α → Node α H
  | x, [] => x
  | _, a :: l => lastOf (.elem a) l

@[simp] theorem firstOf_nil (y : Node α H) : firstOf [] y = y := rfl

@[simp] theorem firstOf_cons (a : α) (l : List α) (y : Node α H) :
    firstOf (a :: l) y = .elem a := rfl

theorem Chain.next_eq {k : Links (Node α H)} {x y : Node α H} {l : List α}
    (h : Chain k x l y) : k.next x = firstOf l y := by
  cases l with
  | nil => exact h.1
  | cons a l => exact h.1

theorem Chain.prev_eq {k : Links (Node α H)} {y : Node α H} {l : List α} :
    ∀ {x : Node α H}, Chain k x l y → k.prev y = lastOf x l := by
  induction l with
  | nil => intro x h; exact h.2
  | cons a l ih => intro x h; exact ih h.2.2

/-- A chain through `l₁ ++ a :: l₂` is a chain to `a` and one from `a`. -/
theorem chain_append {k : Links (Node α H)} {y : Node α H} {a : α}
    {l₂ : List α} (l₁ : List α) :
    ∀ {x : Node α H}, Chain k x (l₁ ++ a :: l₂) y ↔
      Chain k x l₁ (.elem a) ∧ Chain k (.elem a) l₂ y := by
  induction l₁ with
  | nil =>
    intro x
    constructor
    · intro h; exact ⟨⟨h.1, h.2.1⟩, h.2.2⟩
    · intro h; exact ⟨h.1.1, h.1.2, h.2⟩
  | cons b l ih =>
    intro x
    constructor
    · intro h
      obtain ⟨h1, h2⟩ := ih.mp h.2.2
      exact ⟨⟨h.1, h.2.1, h1⟩, h2⟩
    · intro h
      exact ⟨h.1.1, h.1.2.1, ih.mpr ⟨h.1.2.2, h.2⟩⟩

/-- The first part of a chain ends where the second begins. -/
theorem chain_split {k : Links (Node α H)} {x y : Node α H}
    {l₁ l₂ : List α} (h : Chain k x (l₁ ++ l₂) y) :
    Chain k x l₁ (firstOf l₂ y) := by
  cases l₂ with
  | nil => rw [List.append_nil] at h; exact h
  | cons a l => exact ((chain_append l₁).mp h).1

theorem lastOf_mem (l : List α) :
    ∀ x : Node α H, lastOf x l = x ∨ ∃ a ∈ l, lastOf x l = .elem a := by
  induction l with
  | nil => intro x; exact Or.inl rfl
  | cons a l ih =>
    intro x
    rcases ih (.elem a) with h | ⟨b, hb, h⟩
    · exact Or.inr ⟨a, List.mem_cons_self .., h⟩
    · exact Or.inr ⟨b, List.mem_cons_of_mem _ hb, h⟩

/-- A chain only reads `next` at its start and elements, and `prev` at its
    elements and end. -/
theorem Chain.congr {k k' : Links (Node α H)} {y : Node α H} {l : List α} :
    ∀ {x : Node α H}, Chain k x l y → (k'.next x = k.next x) →
      (∀ a ∈ l, k'.next (.elem a) = k.next (.elem a)) →
      (∀ a ∈ l, k'.prev (.elem a) = k.prev (.elem a)) →
      k'.prev y = k.prev y → Chain k' x l y := by
  induction l with
  | nil =>
    intro x h hx _ _ hy
    exact ⟨hx.trans h.1, hy.trans h.2⟩
  | cons a l ih =>
    intro x h hx hn hp hy
    refine ⟨hx.trans h.1, (hp a (List.mem_cons_self ..)).trans h.2.1, ?_⟩
    exact ih h.2.2 (hn a (List.mem_cons_self ..))
      (fun b hb => hn b (List.mem_cons_of_mem _ hb))
      (fun b hb => hp b (List.mem_cons_of_mem _ hb)) hy

/-- Only the link between the last node of a chain and its end is moved: the
    chain now ends in `w`. -/
theorem Chain.retarget {k k' : Links (Node α H)} {v w : Node α H} {l : List α} :
    ∀ {x : Node α H}, Chain k x l v → (x ≠ lastOf x l → k'.next x = k.next x) →
      (∀ a ∈ l, Node.elem a ≠ lastOf x l → k'.next (.elem a) = k.next (.elem a)) →
      (∀ a ∈ l, k'.prev (.elem a) = k.prev (.elem a)) →
      k'.next (lastOf x l) = w → k'.prev w = lastOf x l →
      (∀ a ∈ l, x ≠ .elem a) → l.Nodup → Chain k' x l w := by
  induction l with
  | nil =>
    intro x _ _ _ _ hw hw' _ _
    exact ⟨hw, hw'⟩
  | cons a l ih =>
    intro x h hx hn hp hw hw' hne hnd
    have hxa : x ≠ lastOf (.elem a) l := by
      rcases lastOf_mem l (.elem a : Node α H) with heq | ⟨b, hb, heq⟩
      · rw [heq]; exact hne a (List.mem_cons_self ..)
      · rw [heq]; exact hne b (List.mem_cons_of_mem _ hb)
    have hnd' := List.nodup_cons.mp hnd
    refine ⟨(hx hxa).trans h.1, (hp a (List.mem_cons_self ..)).trans h.2.1, ?_⟩
    refine ih h.2.2 (hn a (List.mem_cons_self ..))
      (fun b hb => hn b (List.mem_cons_of_mem _ hb))
      (fun b hb => hp b (List.mem_cons_of_mem _ hb)) hw hw' ?_ hnd'.2
    intro b hb heq
    exact hnd'.1 (Node.elem.inj heq ▸ hb)

/-- The links determine a chain that ends at a head. -/
theorem Chain.unique {k : Links (Node α H)} {h : H} {l : List α} :
    ∀ {x : Node α H} {l' : List α}, Chain k x l (.head h) →
      Chain k x l' (.head h) → l = l' := by
  induction l with
  | nil =>
    intro x l' hc hc'
    cases l' with
    | nil => rfl
    | cons b l' => exact absurd (hc.1.symm.trans hc'.1) (head_ne_elem h b)
  | cons a l ih =>
    intro x l' hc hc'
    cases l' with
    | nil => exact absurd (hc.1.symm.trans hc'.1) (elem_ne_head a h)
    | cons b l' =>
      have hab : a = b := Node.elem.inj (hc.1.symm.trans hc'.1)
      subst hab
      rw [ih hc.2.2 hc'.2.2]

/-- A chain that ends at a head passes no element twice. -/
theorem Chain.nodup {k : Links (Node α H)} {h : H} {l : List α} :
    ∀ {x : Node α H}, Chain k x l (.head h) → l.Nodup := by
  induction l with
  | nil => exact fun _ => List.nodup_nil
  | cons a l ih =>
    intro x hc
    refine List.nodup_cons.mpr ⟨fun ha => ?_, ih hc.2.2⟩
    obtain ⟨l₁, l₂, rfl⟩ := List.append_of_mem ha
    -- the way on from `a` is the same both times
    have htail := ((chain_append l₁).mp hc.2.2).2
    have hlen := congrArg List.length (hc.2.2.unique htail)
    rw [List.length_append, List.length_cons] at hlen
    omega

/-! ## Families of rings -/

/-- Every head anchors a ring, `L h` lists its elements, and no element is
    linked twice. -/
structure Rings (k : Links (Node α H)) (L : H → List α) : Prop where
  chain : ∀ h, Chain k (.head h) (L h) (.head h)
  nodup : ∀ h, (L h).Nodup
  apart : ∀ h h' a, a ∈ L h → a ∈ L h' → h = h'

/-- Self linked heads anchor empty rings. -/
theorem Rings.empty [DecidableEq (Node α H)] :
    Rings (Links.empty : Links (Node α H)) (fun _ => []) where
  chain := fun _ => ⟨rfl, rfl⟩
  nodup := fun _ => List.nodup_nil
  apart := fun _ _ _ h _ => absurd h (List.not_mem_nil)

theorem Rings.next_head {k : Links (Node α H)} {L : H → List α}
    (R : Rings k L) (h : H) : k.next (.head h) = firstOf (L h) (.head h) :=
  (R.chain h).next_eq

/-- The link fields of an element of a ring. -/
theorem Rings.elem_links {k : Links (Node α H)} {L : H → List α}
    (R : Rings k L) {h : H} {l₁ l₂ : List α} {a : α}
    (hL : L h = l₁ ++ a :: l₂) :
    k.next (.elem a) = firstOf l₂ (.head h) ∧ k.prev (.elem a) = lastOf (.head h) l₁ := by
  have hc := R.chain h
  rw [hL] at hc
  obtain ⟨h1, h2⟩ := (chain_append l₁).mp hc
  exact ⟨h2.next_eq, h1.prev_eq⟩

/-- The node `p` before which an element is linked is the head of the ring or
    the first of the elements behind. -/
theorem firstOf_cases (l : List α) (h : H) :
    firstOf l (.head h) = (.head h : Node α H) ∨
      ∃ b ∈ l, firstOf l (.head h) = (.elem b : Node α H) := by
  cases l with
  | nil => exact Or.inl rfl
  | cons b l => exact Or.inr ⟨b, List.mem_cons_self .., rfl⟩

theorem elem_ne_firstOf {l : List α} {h : H} {a : α} (ha : a ∉ l) :
    (.elem a : Node α H) ≠ firstOf l (.head h) := by
  rcases firstOf_cases l h with e | ⟨b, hb, e⟩
  · rw [e]; exact elem_ne_head a h
  · rw [e]; intro hc; exact ha (Node.elem.inj hc ▸ hb)

theorem head_ne_firstOf {l : List α} {h h' : H} (hne : h' ≠ h) :
    (.head h' : Node α H) ≠ firstOf l (.head h) := by
  rcases firstOf_cases l h with e | ⟨b, hb, e⟩
  · rw [e]; exact fun hc => hne (Node.head.inj hc)
  · rw [e]; exact head_ne_elem h' b

theorem elem_ne_lastOf {l : List α} {h : H} {a : α} (ha : a ∉ l) :
    (.elem a : Node α H) ≠ lastOf (.head h) l := by
  rcases lastOf_mem l (.head h : Node α H) with e | ⟨b, hb, e⟩
  · rw [e]; exact elem_ne_head a h
  · rw [e]; intro hc; exact ha (Node.elem.inj hc ▸ hb)

theorem head_ne_lastOf {l : List α} {h h' : H} (hne : h' ≠ h) :
    (.head h' : Node α H) ≠ lastOf (.head h) l := by
  rcases lastOf_mem l (.head h : Node α H) with e | ⟨b, hb, e⟩
  · rw [e]; exact fun hc => hne (Node.head.inj hc)
  · rw [e]; exact head_ne_elem h' b

variable [decA : DecidableEq α] [decH : DecidableEq H]

omit decA in
/-- The family after `L h` has been replaced by a list with the same further
    elements only. -/
theorem Rings.replace {k k' : Links (Node α H)} {L : H → List α}
    (R : Rings k L) (h : H) (l : List α)
    (hother : ∀ h', h' ≠ h → Chain k' (.head h') (L h') (.head h'))
    (hchain : Chain k' (.head h) l (.head h)) (hnd : l.Nodup)
    (hapart : ∀ h' a, a ∈ l → a ∈ L h' → h' = h) :
    Rings k' (Function.update L h l) where
  chain := by
    intro h'
    by_cases heq : h' = h
    · subst heq; rw [Function.update_self]; exact hchain
    · rw [Function.update_of_ne heq]; exact hother h' heq
  nodup := by
    intro h'
    by_cases heq : h' = h
    · subst heq; rw [Function.update_self]; exact hnd
    · rw [Function.update_of_ne heq]; exact R.nodup h'
  apart := by
    intro h₁ h₂ a h1 h2
    by_cases e1 : h₁ = h <;> by_cases e2 : h₂ = h
    · rw [e1, e2]
    · subst e1
      rw [Function.update_self] at h1
      rw [Function.update_of_ne e2] at h2
      exact absurd (hapart h₂ a h1 h2) e2
    · subst e2
      rw [Function.update_self] at h2
      rw [Function.update_of_ne e1] at h1
      exact absurd (hapart h₁ a h2 h1) e1
    · rw [Function.update_of_ne e1] at h1
      rw [Function.update_of_ne e2] at h2
      exact R.apart h₁ h₂ a h1 h2

/-- Linking an unlinked element before a node of the ring of `h`. -/
theorem Rings.insert {k : Links (Node α H)} {L : H → List α}
    (R : Rings k L) {h : H} {l₁ l₂ : List α} {x : α}
    (hL : L h = l₁ ++ l₂) (hx : ∀ h', x ∉ L h') :
    Rings (k.insertBefore (.elem x) (firstOf l₂ (.head h)))
      (Function.update L h (l₁ ++ x :: l₂)) := by
  have hnd : (l₁ ++ l₂).Nodup := hL ▸ R.nodup h
  have hnda := List.nodup_append.mp hnd
  have hxl : x ∉ l₁ ++ l₂ := hL ▸ hx h
  have hx1 : x ∉ l₁ := fun hm => hxl (List.mem_append_left _ hm)
  have hx2 : x ∉ l₂ := fun hm => hxl (List.mem_append_right _ hm)
  have hring : Chain k (.head h) (l₁ ++ l₂) (.head h) := hL ▸ R.chain h
  have hc1 : Chain k (.head h) l₁ (firstOf l₂ (.head h)) := chain_split hring
  have hprev : k.prev (firstOf l₂ (.head h)) = lastOf (.head h) l₁ := hc1.prev_eq
  have hne_elem : ∀ a : α, a ≠ x → (.elem a : Node α H) ≠ .elem x :=
    fun a hax hc => hax (Node.elem.inj hc)
  refine R.replace h _ ?_ ?_ ?_ ?_
  · -- the other rings do not share a node with this one
    intro h' hne
    have hmem : ∀ a ∈ L h', a ≠ x ∧ a ∉ l₁ ∧ a ∉ l₂ := by
      intro a ha
      refine ⟨fun hc => hx h' (hc ▸ ha), ?_, ?_⟩
      · intro hm
        exact hne (R.apart h' h a ha (hL ▸ List.mem_append_left _ hm))
      · intro hm
        exact hne (R.apart h' h a ha (hL ▸ List.mem_append_right _ hm))
    refine (R.chain h').congr ?_ ?_ ?_ ?_
    · exact insertBefore_next_of_ne (head_ne_elem h' x) (hprev ▸ head_ne_lastOf hne)
    · intro a ha
      exact insertBefore_next_of_ne (hne_elem a (hmem a ha).1)
        (hprev ▸ elem_ne_lastOf (hmem a ha).2.1)
    · intro a ha
      exact insertBefore_prev_of_ne (hne_elem a (hmem a ha).1)
        (elem_ne_firstOf (hmem a ha).2.2)
    · exact insertBefore_prev_of_ne (head_ne_elem h' x) (head_ne_firstOf hne)
  · rw [chain_append]
    constructor
    · -- up to `x` the chain only has its last link moved
      refine hc1.retarget ?_ ?_ ?_ ?_ ?_ (fun a _ => head_ne_elem h a) hnda.1
      · intro hne
        exact insertBefore_next_of_ne (head_ne_elem h x) (hprev ▸ hne)
      · intro a ha hne
        refine insertBefore_next_of_ne (hne_elem a ?_) (hprev ▸ hne)
        intro hc; exact hx1 (hc ▸ ha)
      · intro a ha
        refine insertBefore_prev_of_ne (hne_elem a ?_)
          (elem_ne_firstOf (fun hm => hnda.2.2 a ha a hm rfl))
        intro hc; exact hx1 (hc ▸ ha)
      · rw [← hprev]
        exact insertBefore_next_prev (hprev ▸ (elem_ne_lastOf hx1).symm)
      · rw [← hprev]
        exact insertBefore_prev_self (elem_ne_firstOf hx2)
    · cases l₂ with
      | nil => exact ⟨insertBefore_next_self, insertBefore_prev_before⟩
      | cons b l =>
        have hc2 : Chain k (.elem b) l (.head h) :=
          ((chain_append l₁).mp hring).2
        have hbl : b ∉ l := (List.nodup_cons.mp hnda.2.1).1
        have hl1 : ∀ a ∈ b :: l, a ≠ x ∧ a ∉ l₁ := fun a ha =>
          ⟨fun hc => hx2 (hc ▸ ha), fun hm => hnda.2.2 a hm a ha rfl⟩
        refine ⟨insertBefore_next_self, insertBefore_prev_before, hc2.congr ?_ ?_ ?_ ?_⟩
        · have hb := hl1 b (List.mem_cons_self ..)
          exact insertBefore_next_of_ne (hne_elem b hb.1) (hprev ▸ elem_ne_lastOf hb.2)
        · intro a ha
          have ha' := hl1 a (List.mem_cons_of_mem _ ha)
          exact insertBefore_next_of_ne (hne_elem a ha'.1) (hprev ▸ elem_ne_lastOf ha'.2)
        · intro a ha
          refine insertBefore_prev_of_ne (hne_elem a (hl1 a (List.mem_cons_of_mem _ ha)).1) ?_
          intro hc
          exact hbl (Node.elem.inj hc ▸ ha)
        · exact insertBefore_prev_of_ne (head_ne_elem h x) (head_ne_elem h b)
  · rw [List.nodup_middle, List.nodup_cons]
    exact ⟨hxl, hnd⟩
  · intro h' a ha ha'
    rw [List.mem_append, List.mem_cons] at ha
    rcases ha with h1 | rfl | h2
    · exact R.apart h' h a ha' (hL ▸ List.mem_append_left _ h1)
    · exact absurd ha' (hx h')
    · exact R.apart h' h a ha' (hL ▸ List.mem_append_right _ h2)

/-- Unlinking an element of the ring of `h`. -/
theorem Rings.unlink {k : Links (Node α H)} {L : H → List α}
    (R : Rings k L) {h : H} {l₁ l₂ : List α} {x : α}
    (hL : L h = l₁ ++ x :: l₂) :
    Rings (k.unlink (.elem x)) (Function.update L h (l₁ ++ l₂)) := by
  have hnd : (l₁ ++ x :: l₂).Nodup := hL ▸ R.nodup h
  rw [List.nodup_middle, List.nodup_cons] at hnd
  have hnda := List.nodup_append.mp hnd.2
  obtain ⟨hnext, hprev⟩ := R.elem_links hL
  have hring : Chain k (.head h) (l₁ ++ x :: l₂) (.head h) := hL ▸ R.chain h
  obtain ⟨hc1, hc2⟩ := (chain_append l₁).mp hring
  refine R.replace h _ ?_ ?_ hnd.2 ?_
  · -- the other rings do not share a node with this one
    intro h' hne
    have hmem : ∀ a ∈ L h', a ∉ l₁ ∧ a ∉ l₂ := by
      intro a ha
      constructor
      · intro hm
        exact hne (R.apart h' h a ha (hL ▸ List.mem_append_left _ hm))
      · intro hm
        exact hne (R.apart h' h a ha
          (hL ▸ List.mem_append_right _ (List.mem_cons_of_mem _ hm)))
    refine (R.chain h').congr ?_ ?_ ?_ ?_
    · exact unlink_next_of_ne (hprev ▸ head_ne_lastOf hne)
    · intro a ha
      exact unlink_next_of_ne (hprev ▸ elem_ne_lastOf (hmem a ha).1)
    · intro a ha
      exact unlink_prev_of_ne (hnext ▸ elem_ne_firstOf (hmem a ha).2)
    · exact unlink_prev_of_ne (hnext ▸ head_ne_firstOf hne)
  · -- the chain to `x` now ends at the node after `x`
    have hjoin : Chain (k.unlink (.elem x)) (.head h) l₁ (firstOf l₂ (.head h)) := by
      refine hc1.retarget ?_ ?_ ?_ ?_ ?_ (fun a _ => head_ne_elem h a) hnda.1
      · intro hne
        exact unlink_next_of_ne (hprev ▸ hne)
      · intro a _ hne
        exact unlink_next_of_ne (hprev ▸ hne)
      · intro a ha
        exact unlink_prev_of_ne (hnext ▸ elem_ne_firstOf (fun hm => hnda.2.2 a ha a hm rfl))
      · rw [← hprev, ← hnext]; exact unlink_next_prev
      · rw [← hprev, ← hnext]; exact unlink_prev_next
    cases l₂ with
    | nil => rw [List.append_nil]; exact hjoin
    | cons b l =>
      have hbl : b ∉ l := (List.nodup_cons.mp hnda.2.1).1
      have hl1 : ∀ a ∈ b :: l, a ∉ l₁ :=
        fun a ha hm => hnda.2.2 a hm a ha rfl
      rw [chain_append]
      refine ⟨hjoin, hc2.2.2.congr ?_ ?_ ?_ ?_⟩
      · exact unlink_next_of_ne (hprev ▸ elem_ne_lastOf (hl1 b (List.mem_cons_self ..)))
      · intro a ha
        exact unlink_next_of_ne (hprev ▸ elem_ne_lastOf (hl1 a (List.mem_cons_of_mem _ ha)))
      · intro a ha
        refine unlink_prev_of_ne (hnext ▸ ?_)
        intro hc
        exact hbl (Node.elem.inj hc ▸ ha)
      · exact unlink_prev_of_ne (hnext ▸ head_ne_elem h b)
  · intro h' a ha ha'
    refine R.apart h' h a ha' (hL ▸ ?_)
    rcases List.mem_append.mp ha with h1 | h2
    · exact List.mem_append_left _ h1
    · exact List.mem_append_right _ (List.mem_cons_of_mem _ h2)

/-- Dropping the front of the ring of `h`: the head is linked to the node
    where the rest begins. -/
theorem Rings.cut {k : Links (Node α H)} {L : H → List α}
    (R : Rings k L) {h : H} {l₁ l₂ : List α} (hL : L h = l₁ ++ l₂) :
    Rings
      { next := Function.update k.next (.head h) (firstOf l₂ (.head h))
        prev := Function.update k.prev (firstOf l₂ (.head h)) (.head h) }
      (Function.update L h l₂) := by
  have hnd : (l₁ ++ l₂).Nodup := hL ▸ R.nodup h
  have hring : Chain k (.head h) (l₁ ++ l₂) (.head h) := hL ▸ R.chain h
  refine R.replace h _ ?_ ?_ (List.nodup_append.mp hnd).2.1 ?_
  · -- the other rings do not share a node with this one
    intro h' hne
    have hmem : ∀ a ∈ L h', a ∉ l₂ := fun a ha hm =>
      hne (R.apart h' h a ha (hL ▸ List.mem_append_right _ hm))
    refine (R.chain h').congr ?_ ?_ ?_ ?_
    · exact Function.update_of_ne (fun hc => hne (Node.head.inj hc)) _ k.next
    · intro a _
      exact Function.update_of_ne (elem_ne_head a h) (firstOf l₂ (.head h)) k.next
    · intro a ha
      exact Function.update_of_ne (elem_ne_firstOf (hmem a ha)) _ k.prev
    · exact Function.update_of_ne (head_ne_firstOf hne) _ k.prev
  · cases l₂ with
    | nil => exact ⟨Function.update_self .., Function.update_self ..⟩
    | cons b l =>
      have hc : Chain k (.elem b) l (.head h) :=
        ((chain_append l₁).mp hring).2
      have hbl : b ∉ l :=
        (List.nodup_cons.mp (List.nodup_append.mp hnd).2.1).1
      refine ⟨Function.update_self .., Function.update_self .., hc.congr ?_ ?_ ?_ ?_⟩
      · exact Function.update_of_ne (elem_ne_head b h) (.elem b) k.next
      · intro a _
        exact Function.update_of_ne (elem_ne_head a h) (.elem b) k.next
      · intro a ha
        refine Function.update_of_ne ?_ ..
        intro hc
        exact hbl (Node.elem.inj hc ▸ ha)
      · exact Function.update_of_ne (head_ne_elem h b) (.head h) k.prev
  · intro h' a ha ha'
    exact R.apart h' h a ha' (hL ▸ List.mem_append_right _ ha)

/-- Self linking an unlinked element. -/
theorem Rings.selfLink {k : Links (Node α H)} {L : H → List α}
    (R : Rings k L) {x : α} (hx : ∀ h, x ∉ L h) :
    Rings (k.selfLink (.elem x)) L where
  chain := by
    intro h
    have hne : ∀ a ∈ L h, (.elem a : Node α H) ≠ .elem x :=
      fun a ha hc => hx h (Node.elem.inj hc ▸ ha)
    refine (R.chain h).congr ?_ ?_ ?_ ?_
    · exact selfLink_next_of_ne (head_ne_elem h x)
    · exact fun a ha => selfLink_next_of_ne (hne a ha)
    · exact fun a ha => selfLink_prev_of_ne (hne a ha)
    · exact selfLink_prev_of_ne (head_ne_elem h x)
  nodup := R.nodup
  apart := R.apart

/-- Unlinking a self linked node changes nothing. -/
theorem unlink_selfLink {N : Type} [DecidableEq N] (k : Links N) (x : N) :
    (k.selfLink x).unlink x = k.selfLink x := by
  unfold Links.unlink Links.selfLink
  dsimp only
  rw [Function.update_self, Function.update_self, Function.update_idem, Function.update_idem]

/-- `Rings.unlink` for an element whose place is not spelled out. -/
theorem Rings.unlink_erase {k : Links (Node α H)} {L : H → List α}
    (R : Rings k L) {h : H} {x : α} (hx : x ∈ L h) :
    Rings (k.unlink (.elem x)) (Function.update L h ((L h).erase x)) := by
  obtain ⟨l₁, l₂, hL⟩ := List.append_of_mem hx
  have hnd : (l₁ ++ x :: l₂).Nodup := hL ▸ R.nodup h
  rw [List.nodup_middle, List.nodup_cons] at hnd
  have hx1 : x ∉ l₁ := fun hm => hnd.1 (List.mem_append_left _ hm)
  rw [hL, List.erase_append_right _ hx1, List.erase_cons_head]
  exact R.unlink hL

/-! ## A single ring -/

/-- A list as a family of one ring. -/
theorem update_unit {α : Type} (l l' : List α) :
    Function.update (fun _ : Unit => l) () l' = fun _ => l' := by
  funext u
  exact Function.update_self ..

section Single

omit [DecidableEq H]

variable {k : Links (Node α Unit)} {l₁ l₂ : List α} {x : α}

theorem Rings.insert_single (R : Rings k fun _ => l₁ ++ l₂) (hx : x ∉ l₁ ++ l₂) :
    Rings (k.insertBefore (.elem x) (firstOf l₂ (.head ()))) fun _ => l₁ ++ x :: l₂ := by
  have h := R.insert (h := ()) rfl fun _ => hx
  rw [update_unit] at h
  exact h

theorem Rings.unlink_single (R : Rings k fun _ => l₁ ++ x :: l₂) :
    Rings (k.unlink (.elem x)) fun _ => l₁ ++ l₂ := by
  have h := R.unlink (h := ()) (x := x) rfl
  rw [update_unit] at h
  exact h

end Single

/-! ## Walking along a ring -/

/-- Follow `next` from a node to the first one where `stop` holds.  `stop`
    is undefined (`none`) where looking at the node would read through a bad
    pointer; a walk that has not stopped when the fuel is spent has come back
    to a node it had passed, and never stops. -/
def walk {N : Type} (stop : N → Option Bool) (next : N → N) : Nat → N → Option N
  | 0, _ => none
  | fuel + 1, x =>
    match stop x with
    | none => none
    | some true => some x
    | some false => walk stop next fuel (next x)

theorem walk_stop {N : Type} {stop : N → Option Bool} {next : N → N} :
    ∀ {fuel : Nat} {x p : N}, walk stop next fuel x = some p → stop p = some true := by
  intro fuel
  induction fuel with
  | zero => intro x p h; exact nomatch h
  | succ fuel ih =>
    intro x p h
    unfold walk at h
    cases hs : stop x with
    | none => rw [hs] at h; exact nomatch h
    | some b =>
      rw [hs] at h
      cases b with
      | true => rw [← Option.some.inj h]; exact hs
      | false => exact ih h

omit decA decH in
/-- **A walk along a ring ends** when it stops at the head at the latest and has
    fuel for the elements before it. -/
theorem Rings.walk_ends {k : Links (Node α H)} {L : H → List α}
    (R : Rings k L) {h : H} {stop : Node α H → Option Bool}
    (hstop : stop (.head h) = some true) (hdef : ∀ a, stop (.elem a) ≠ none) :
    ∀ {fuel : Nat} {l₁ l₂ : List α}, L h = l₁ ++ l₂ → l₂.length < fuel →
      ∃ p, walk stop k.next fuel (firstOf l₂ (.head h)) = some p := by
  intro fuel
  induction fuel with
  | zero => intro l₁ l₂ _ hlt; exact absurd hlt (Nat.not_lt_zero _)
  | succ fuel ih =>
    intro l₁ l₂ hL hlt
    cases l₂ with
    | nil =>
      refine ⟨.head h, ?_⟩
      unfold walk
      rw [firstOf_nil, hstop]
    | cons a l =>
      unfold walk
      rw [firstOf_cons]
      cases hs : stop (.elem a) with
      | none => exact absurd hs (hdef a)
      | some b =>
        cases b with
        | true => exact ⟨.elem a, rfl⟩
        | false =>
          have hL' : L h = (l₁ ++ [a]) ++ l := by simp [hL]
          show ∃ p, walk stop k.next fuel (k.next (.elem a)) = some p
          rw [(R.elem_links hL).1]
          exact ih hL' (Nat.lt_of_succ_lt_succ hlt)

omit decA decH in
/-- A walk that starts in a ring stays in it. -/
theorem Rings.walk_mem {k : Links (Node α H)} {L : H → List α}
    (R : Rings k L) {h : H} {stop : Node α H → Option Bool} :
    ∀ {fuel : Nat} {l₁ l₂ : List α} {p : Node α H}, L h = l₁ ++ l₂ →
      walk stop k.next fuel (firstOf l₂ (.head h)) = some p →
      ∃ m₁ m₂, L h = m₁ ++ m₂ ∧ p = firstOf m₂ (.head h) := by
  intro fuel
  induction fuel with
  | zero => intro l₁ l₂ p _ hw; exact nomatch hw
  | succ fuel ih =>
    intro l₁ l₂ p hL hw
    unfold walk at hw
    cases hs : stop (firstOf l₂ (.head h)) with
    | none => rw [hs] at hw; exact nomatch hw
    | some b =>
      rw [hs] at hw
      cases b with
      | true => exact ⟨l₁, l₂, hL, (Option.some.inj hw).symm⟩
      | false =>
        cases l₂ with
        | nil =>
          rw [firstOf_nil] at hw
          change walk stop k.next fuel (k.next (.head h)) = some p at hw
          rw [R.next_head] at hw
          have h0 : L h = [] ++ L h := rfl
          exact ih h0 hw
        | cons a l =>
          rw [firstOf_cons] at hw
          change walk stop k.next fuel (k.next (.elem a)) = some p at hw
          rw [(R.elem_links hL).1] at hw
          have h0 : L h = (l₁ ++ [a]) ++ l := by simp [hL]
          exact ih h0 hw

omit decA decH in
/-- A walk that stops at the head at the latest passes the elements where
    `stop` does not hold. -/
theorem Rings.walk_split {k : Links (Node α H)} {L : H → List α}
    (R : Rings k L) {h : H} {stop : Node α H → Option Bool}
    (hstop : stop (.head h) = some true) :
    ∀ {fuel : Nat} {l₀ l : List α} {p : Node α H}, L h = l₀ ++ l →
      walk stop k.next fuel (firstOf l (.head h)) = some p →
      ∃ m₁ m₂, l = m₁ ++ m₂ ∧ p = firstOf m₂ (.head h) ∧
        (∀ a ∈ m₁, stop (.elem a) = some false) ∧
        (∀ b ∈ m₂.head?, stop (.elem b) = some true) := by
  intro fuel
  induction fuel with
  | zero => intro l₀ l p _ hw; exact nomatch hw
  | succ fuel ih =>
    intro l₀ l p hL hw
    cases l with
    | nil =>
      unfold walk at hw
      rw [firstOf_nil, hstop] at hw
      exact ⟨[], [], rfl, (Option.some.inj hw).symm, by simp, by simp⟩
    | cons a l =>
      unfold walk at hw
      rw [firstOf_cons] at hw
      cases hs : stop (.elem a) with
      | none => rw [hs] at hw; exact nomatch hw
      | some b =>
        rw [hs] at hw
        cases b with
        | true =>
          refine ⟨[], a :: l, rfl, (Option.some.inj hw).symm, by simp, ?_⟩
          intro b hb
          rw [← Option.some.inj hb]
          exact hs
        | false =>
          change walk stop k.next fuel (k.next (.elem a)) = some p at hw
          rw [(R.elem_links hL).1] at hw
          have h0 : L h = (l₀ ++ [a]) ++ l := by simp [hL]
          obtain ⟨m₁, m₂, hl, hp, h1, h2⟩ := ih h0 hw
          refine ⟨a :: m₁, m₂, by rw [hl]; rfl, hp, ?_, h2⟩
          intro b hb
          rcases List.mem_cons.mp hb with rfl | hb
          · exact hs
          · exact h1 b hb

omit decA decH in
/-- A walk passes the elements where `stop` does not hold and ends behind them
    where it holds. -/
theorem Rings.walk_first {k : Links (Node α H)} {L : H → List α}
    (R : Rings k L) {h : H} {stop : Node α H → Option Bool} {m₂ : List α}
    (hstop : stop (firstOf m₂ (.head h)) = some true) :
    ∀ {fuel : Nat} {l₀ m₁ : List α}, L h = l₀ ++ (m₁ ++ m₂) →
      (∀ a ∈ m₁, stop (.elem a) = some false) → m₁.length < fuel →
      walk stop k.next fuel (firstOf (m₁ ++ m₂) (.head h)) = some (firstOf m₂ (.head h)) := by
  intro fuel
  induction fuel with
  | zero => intro l₀ m₁ _ _ hlt; exact absurd hlt (Nat.not_lt_zero _)
  | succ fuel ih =>
    intro l₀ m₁ hL hpass hlt
    cases m₁ with
    | nil =>
      unfold walk
      rw [List.nil_append, hstop]
    | cons a m =>
      have ha := hpass a List.mem_cons_self
      unfold walk
      rw [List.cons_append, firstOf_cons, ha]
      show walk stop k.next fuel (k.next (.elem a)) = _
      rw [(R.elem_links hL).1]
      have hL' : L h = (l₀ ++ [a]) ++ (m ++ m₂) := by simp [hL]
      exact ih hL' (fun b hb => hpass b (List.mem_cons_of_mem _ hb))
        (Nat.lt_of_succ_lt_succ hlt)

omit decA decH in
/-- A walk in a ring none of whose nodes stops it does not end. -/
theorem Rings.walk_never {k : Links (Node α H)} {L : H → List α}
    (R : Rings k L) {h : H} {stop : Node α H → Option Bool}
    (hhead : stop (.head h) ≠ some true)
    (helem : ∀ a ∈ L h, stop (.elem a) ≠ some true) {fuel : Nat}
    {l₁ l₂ : List α} (hL : L h = l₁ ++ l₂) :
    walk stop k.next fuel (firstOf l₂ (.head h)) = none := by
  cases hw : walk stop k.next fuel (firstOf l₂ (.head h)) with
  | none => rfl
  | some p =>
    obtain ⟨m₁, m₂, hm, rfl⟩ := R.walk_mem hL hw
    have hp := walk_stop hw
    cases m₂ with
    | nil => exact absurd hp hhead
    | cons a m =>
      refine absurd hp (helem a ?_)
      rw [hm]
      exact List.mem_append_right _ List.mem_cons_self

omit decA in
/-- Where a test first holds in a list. -/
theorem exists_first (p : α → Bool) (l : List α) :
    ∃ m₁ m₂, l = m₁ ++ m₂ ∧ (∀ a ∈ m₁, p a = false) ∧ ∀ b ∈ m₂.head?, p b = true := by
  induction l with
  | nil => exact ⟨[], [], rfl, nofun, nofun⟩
  | cons a l ih =>
    cases ha : p a with
    | true =>
      refine ⟨[], a :: l, rfl, nofun, ?_⟩
      intro b hb
      cases hb
      exact ha
    | false =>
      obtain ⟨m₁, m₂, rfl, h1, h2⟩ := ih
      refine ⟨a :: m₁, m₂, rfl, ?_, h2⟩
      intro b hb
      rcases List.mem_cons.mp hb with rfl | hb
      · exact ha
      · exact h1 b hb

end RtaiRings
