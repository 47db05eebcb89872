/-! # Insertion into search trees by a descent

    Binary trees with colours, as an intrusive red-black tree has them.  An
    insertion descends to a leaf, to the right of the nodes that a test holds of,
    and hangs the new node there; what it has last passed on the left is its
    successor in the in-order sequence. -/

namespace RtaiSearchTrees

/-- A tree; `red` is the colour of the node. -/
inductive Tree (α : Type) where
  | leaf
  | node (l : Tree α) (red : Bool) (x : α) (r : Tree α)

namespace Tree

variable {α : Type}

/-- The in-order sequence. -/
def inorder : Tree α → List α
  | .leaf => []
  | .node l _ x r => l.inorder ++ x :: r.inorder

/-- The last node that the descent has passed on its left. -/
def descend (right : α → Bool) : Tree α → Option α → Option α
  | .leaf, task => task
  | .node l _ x r, task =>
    if right x then r.descend right task else l.descend right (some x)

/-- A new node, red, where the descent ends. -/
def link (right : α → Bool) (new : α) : Tree α → Tree α
  | .leaf => .node .leaf true new .leaf
  | .node l red x r =>
    if right x then .node l red x (r.link right new)
    else .node (l.link right new) red x r

/-- On which side of the root the sequence is divided. -/
theorem inorder_cases {right : α → Bool} {l r m₁ m₂ : List α} {x : α}
    (h : l ++ x :: r = m₁ ++ m₂) (h1 : ∀ a ∈ m₁, right a = true)
    (h2 : ∀ b ∈ m₂, right b = false) :
    (right x = true ∧ ∃ m, m₁ = l ++ x :: m ∧ r = m ++ m₂) ∨
      (right x = false ∧ ∃ m, l = m₁ ++ m ∧ m₂ = m ++ x :: r) := by
  rcases List.append_eq_append_iff.mp h with ⟨m, hm₁, hm⟩ | ⟨m, hl, hm₂⟩
  · cases m with
    | nil =>
      rw [List.nil_append] at hm
      have hx : right x = false := h2 x (hm ▸ List.mem_cons_self)
      exact Or.inr ⟨hx, [], by rw [hm₁, List.append_nil, List.append_nil], hm.symm⟩
    | cons y m =>
      rw [List.cons_append, List.cons.injEq] at hm
      obtain ⟨rfl, hr⟩ := hm
      have hx : right x = true := by
        refine h1 x ?_
        rw [hm₁]
        exact List.mem_append_right _ List.mem_cons_self
      exact Or.inl ⟨hx, m, hm₁, hr⟩
  · have hx : right x = false := by
      refine h2 x ?_
      rw [hm₂]
      exact List.mem_append_right _ List.mem_cons_self
    exact Or.inr ⟨hx, m, hl, hm₂⟩

/-- **THE DESCENT FINDS THE SUCCESSOR**: the first of those that are not to the
    left of the new node. -/
theorem descend_eq {right : α → Bool} {t : Tree α} :
    ∀ {m₁ m₂ : List α} {task : Option α}, t.inorder = m₁ ++ m₂ →
      (∀ a ∈ m₁, right a = true) → (∀ b ∈ m₂, right b = false) →
      t.descend right task = m₂.head?.or task := by
  induction t with
  | leaf =>
    intro m₁ m₂ task h _ _
    obtain ⟨-, rfl⟩ := List.append_eq_nil_iff.mp h.symm
    rfl
  | node l red x r ihl ihr =>
    intro m₁ m₂ task h h1 h2
    unfold descend
    rcases inorder_cases h h1 h2 with ⟨hx, m, rfl, hr⟩ | ⟨hx, m, hl, rfl⟩
    · rw [if_pos hx]
      refine ihr hr (fun a ha => h1 a ?_) h2
      exact List.mem_append_right _ (List.mem_cons_of_mem _ ha)
    · rw [hx, if_neg Bool.false_ne_true]
      rw [ihl hl h1 fun b hb => h2 b (List.mem_append_left _ hb)]
      cases m <;> rfl

/-- **THE NEW NODE IS IN ITS PLACE.** -/
theorem inorder_link {right : α → Bool} {new : α} {t : Tree α} :
    ∀ {m₁ m₂ : List α}, t.inorder = m₁ ++ m₂ →
      (∀ a ∈ m₁, right a = true) → (∀ b ∈ m₂, right b = false) →
      (t.link right new).inorder = m₁ ++ new :: m₂ := by
  induction t with
  | leaf =>
    intro m₁ m₂ h _ _
    obtain ⟨rfl, rfl⟩ := List.append_eq_nil_iff.mp h.symm
    rfl
  | node l red x r ihl ihr =>
    intro m₁ m₂ h h1 h2
    unfold link
    rcases inorder_cases h h1 h2 with ⟨hx, m, rfl, hr⟩ | ⟨hx, m, hl, rfl⟩
    · rw [if_pos hx]
      have hlink := ihr hr (fun a ha => h1 a
        (List.mem_append_right _ (List.mem_cons_of_mem _ ha))) h2
      show l.inorder ++ x :: (r.link right new).inorder = _
      rw [hlink, List.append_assoc, List.cons_append]
    · rw [hx, if_neg Bool.false_ne_true]
      have hlink := ihl hl h1 fun b hb => h2 b (List.mem_append_left _ hb)
      show (l.link right new).inorder ++ x :: r.inorder = _
      rw [hlink, List.append_assoc, List.cons_append]

end Tree

end RtaiSearchTrees
