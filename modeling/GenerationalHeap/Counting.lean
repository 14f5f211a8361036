namespace GenerationalHeap

/-- A change that takes one of the counted elements out lowers the count. -/
theorem countP_modify_lt {α : Type} (p : α → Bool) (f : α → α) (l : List α) (i : Nat) {a : α}
    (hget : l[i]? = some a) (hp : p a = true) (hf : p (f a) = false) :
    (l.modify i f).countP p < l.countP p := by
  induction l generalizing i with
  | nil => simp at hget
  | cons x l ih =>
    cases i with
    | zero =>
      obtain rfl : x = a := by simpa using hget
      simp [hp, hf]
    | succ i =>
      have hrest := ih i (by simpa using hget)
      simp only [List.modify_succ_cons, List.countP_cons]
      omega

/-- A narrower test counts fewer elements as soon as one of them fails it. -/
theorem countP_lt_of_imp {α : Type} (p q : α → Bool) (l : List α) (a : α) (ha : a ∈ l)
    (himp : ∀ x ∈ l, p x = true → q x = true) (hp : p a = false) (hq : q a = true) :
    l.countP p < l.countP q := by
  obtain ⟨before, after, rfl⟩ := List.append_of_mem ha
  have hbefore : before.countP p ≤ before.countP q :=
    List.countP_mono_left fun x hx => himp x (by simp [hx])
  have hafter : after.countP p ≤ after.countP q :=
    List.countP_mono_left fun x hx => himp x (by simp [hx])
  rw [List.countP_append, List.countP_append, List.countP_cons_of_neg (by simp [hp]),
    List.countP_cons_of_pos hq]
  omega

end GenerationalHeap
