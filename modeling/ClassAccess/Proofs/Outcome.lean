import Mathlib.Data.List.Forall2

/-!
# Steps that may fail

A row of steps succeeds when each of them does:

* `exists_of_bind_ok` -- two steps after each other;
* `mapM_eq_ok_iff` -- **a step for each member of a list**;
* `mapM_transfer` -- other steps on the same list, one following the other;
* `Leaves`, `Keeps` -- what failing steps, and what all steps, do to a state; `Keeps.bind` --
  **steps after each other keep what each of them keeps**.
-/

namespace ClassAccess.Outcome

variable {ε α β γ : Type}

/-! ## 1. Steps on lists -/

theorem exists_of_bind_ok {x : Except ε α} {f : α → Except ε β} {b : β}
    (h : (x >>= f) = .ok b) : ∃ a, x = .ok a ∧ f a = .ok b := by
  cases x with
  | error e => cases h
  | ok a => exact ⟨a, rfl, h⟩

theorem exists_of_isOk {x : Except ε α} (h : x.isOk = true) : ∃ a, x = .ok a := by
  cases x with
  | error e => cases h
  | ok a => exact ⟨a, rfl⟩

theorem exists_of_map_ok {x : Except ε α} {f : α → β} {b : β} (h : f <$> x = .ok b) :
    ∃ a, x = .ok a ∧ f a = b := by
  cases x with
  | error e => cases h
  | ok a =>
      cases h
      exact ⟨a, rfl, rfl⟩

/-- Telling a fault in another way makes no step succeed. -/
theorem mapError_eq_ok_iff {ε' : Type} {f : ε → ε'} {x : Except ε α} {a : α} :
    x.mapError f = .ok a ↔ x = .ok a := by
  cases x <;> simp [Except.mapError]

theorem mapM_cons (f : α → Except ε β) (a : α) (l : List α) :
    (a :: l).mapM f = (do let b ← f a; let bs ← l.mapM f; return b :: bs) := List.mapM_cons

/-- **A step succeeds on all members of a list** when it gives, member by member, those of the list
    of values. -/
theorem mapM_eq_ok_iff {f : α → Except ε β} {l : List α} {bs : List β} :
    l.mapM f = .ok bs ↔ List.Forall₂ (fun a b => f a = .ok b) l bs := by
  induction l generalizing bs with
  | nil =>
      rw [List.mapM_nil, List.forall₂_nil_left_iff]
      exact ⟨fun h => by cases h; rfl, fun h => by rw [h]; rfl⟩
  | cons a l ih =>
      rw [mapM_cons]
      constructor
      · intro h
        obtain ⟨b, hb, h⟩ := exists_of_bind_ok h
        obtain ⟨rest, hrest, h⟩ := exists_of_bind_ok h
        cases h
        exact .cons hb (ih.1 hrest)
      · intro h
        cases h with
        | cons hb hrest =>
            rw [hb, ih.2 hrest]
            rfl

/-- A step that succeeds on each member of a list succeeds on the list, and what the values are
    looked at as is known member by member. -/
theorem exists_mapM_ok {f : α → Except ε β} {g : β → γ} {l : List α} {cs : List γ}
    (h : List.Forall₂ (fun a c => ∃ b, f a = .ok b ∧ g b = c) l cs) :
    ∃ bs, l.mapM f = .ok bs ∧ bs.map g = cs := by
  induction h with
  | nil => exact ⟨[], rfl, rfl⟩
  | cons hab _ ih =>
      obtain ⟨b, hb, rfl⟩ := hab
      obtain ⟨bs, hbs, rfl⟩ := ih
      refine ⟨b :: bs, ?_, rfl⟩
      rw [mapM_cons, hb, hbs]
      rfl

/-- Each member of a list has its partner in a list that goes along with it. -/
theorem exists_of_forall₂ {r : α → β → Prop} {l : List α} {bs : List β} (h : List.Forall₂ r l bs)
    {a : α} (ha : a ∈ l) : ∃ b ∈ bs, r a b := by
  induction h with
  | nil => cases ha
  | cons hab _ ih =>
      rcases List.mem_cons.1 ha with rfl | ha
      · exact ⟨_, List.mem_cons_self, hab⟩
      · obtain ⟨b, hb, hr⟩ := ih ha
        exact ⟨b, List.mem_cons_of_mem _ hb, hr⟩

theorem exists_of_forall₂_right {r : α → β → Prop} {l : List α} {bs : List β}
    (h : List.Forall₂ r l bs) {b : β} (hb : b ∈ bs) : ∃ a ∈ l, r a b :=
  exists_of_forall₂ (r := fun b a => r a b) h.flip hb

theorem forall₂_getElem? {r : α → β → Prop} {l : List α} {bs : List β} (h : List.Forall₂ r l bs)
    {k : Nat} {a : α} {b : β} (ha : l[k]? = some a) (hb : bs[k]? = some b) : r a b := by
  obtain ⟨hk, rfl⟩ := List.getElem?_eq_some_iff.1 ha
  obtain ⟨hk', rfl⟩ := List.getElem?_eq_some_iff.1 hb
  exact (List.forall₂_iff_get.1 h).2 k hk hk'

/-- Each place of a list has its partner at the same place. -/
theorem exists_getElem?_of_forall₂ {r : α → β → Prop} {l : List α} {bs : List β}
    (h : List.Forall₂ r l bs) {k : Nat} {b : β} (hb : bs[k]? = some b) :
    ∃ a, l[k]? = some a ∧ r a b := by
  obtain ⟨hk, -⟩ := List.getElem?_eq_some_iff.1 hb
  rw [← h.length_eq] at hk
  exact ⟨l[k], List.getElem?_eq_getElem hk, forall₂_getElem? h (List.getElem?_eq_getElem hk) hb⟩

/-- Partners are members of their lists. -/
theorem forall₂_mem {r : α → β → Prop} {l : List α} {bs : List β} (h : List.Forall₂ r l bs) :
    List.Forall₂ (fun a b => a ∈ l ∧ b ∈ bs ∧ r a b) l bs := by
  have hleft : List.Forall₂ (fun a b => a ∈ l ∧ r a b) l bs :=
    (List.forall₂_and_left _ _).2 ⟨fun _ ha => ha, h⟩
  have hboth : List.Forall₂ (fun b a => b ∈ bs ∧ a ∈ l ∧ r a b) bs l :=
    (List.forall₂_and_left _ _).2 ⟨fun _ hb => hb, hleft.flip⟩
  exact hboth.flip.imp fun _ _ ⟨hb, ha, hr⟩ => ⟨ha, hb, hr⟩

/-- Where each member is what its partner is looked at as, so is the list. -/
theorem map_eq_of_forall₂ {f : β → α} {l : List α} {bs : List β}
    (h : List.Forall₂ (fun a b => f b = a) l bs) : bs.map f = l := by
  induction h with
  | nil => rfl
  | cons hab _ ih => rw [List.map_cons, hab, ih]

/-- Partners for the members of a list make up a list. -/
theorem exists_forall₂ {r : α → β → Prop} {l : List α} (h : ∀ a ∈ l, ∃ b, r a b) :
    ∃ bs, List.Forall₂ r l bs := by
  induction l with
  | nil => exact ⟨[], .nil⟩
  | cons a l ih =>
      obtain ⟨b, hb⟩ := h a List.mem_cons_self
      obtain ⟨bs, hbs⟩ := ih fun a' ha' => h a' (List.mem_cons_of_mem _ ha')
      exact ⟨b :: bs, .cons hb hbs⟩

theorem forall₂_of_getElem? {r : α → β → Prop} {l : List α} {bs : List β}
    (hlen : l.length = bs.length)
    (h : ∀ (k : Nat) a b, l[k]? = some a → bs[k]? = some b → r a b) : List.Forall₂ r l bs := by
  refine List.forall₂_iff_get.2 ⟨hlen, fun k hk hk' => ?_⟩
  exact h k _ _ (List.getElem?_eq_getElem hk) (List.getElem?_eq_getElem hk')

/-- What a list has more than one that goes along with it does not matter. -/
theorem zipWith_append_left (f : α → β → γ) {l : List α} {bs : List β} (h : l.length = bs.length)
    (rest : List α) : List.zipWith f (l ++ rest) bs = List.zipWith f l bs := by
  have happend : List.zipWith f (l ++ rest) (bs ++ []) = _ := List.zipWith_append h
  rwa [List.append_nil, List.zipWith_nil_right, List.append_nil] at happend

theorem zipWith_append_right (f : α → β → γ) {l : List α} {bs : List β} (h : l.length = bs.length)
    (rest : List β) : List.zipWith f l (bs ++ rest) = List.zipWith f l bs := by
  have happend : List.zipWith f (l ++ []) (bs ++ rest) = _ := List.zipWith_append h
  rwa [List.append_nil, List.zipWith_nil_left, List.append_nil] at happend

/-- What is made of two lists that go along with each other, place by place. -/
theorem mem_flatten_zipWith {f : α → β → List γ} {l : List α} {bs : List β} {c : γ} :
    c ∈ (List.zipWith f l bs).flatten ↔
      ∃ (i : Nat) (a : α) (b : β), l[i]? = some a ∧ bs[i]? = some b ∧ c ∈ f a b := by
  rw [List.mem_flatten]
  constructor
  · rintro ⟨cs, hcs, hc⟩
    obtain ⟨i, hi⟩ := List.mem_iff_getElem?.1 hcs
    obtain ⟨a, b, ha, hb, rfl⟩ := List.getElem?_zipWith_eq_some.1 hi
    exact ⟨i, a, b, ha, hb, hc⟩
  · rintro ⟨i, a, b, ha, hb, hc⟩
    refine ⟨f a b, List.mem_iff_getElem?.2 ⟨i, ?_⟩, hc⟩
    exact List.getElem?_zipWith_eq_some.2 ⟨a, b, ha, hb, rfl⟩

/-- Steps that follow the steps on a list, one by one, succeed on it too. -/
theorem mapM_transfer {β' : Type} {f : α → Except ε β} {l : List α} {bs : List β}
    (f' : α → Except ε β') (q : β → β' → Prop) (h : l.mapM f = .ok bs)
    (hf : ∀ a ∈ l, ∀ b ∈ bs, f a = .ok b → ∃ b', f' a = .ok b' ∧ q b b') :
    ∃ bs', l.mapM f' = .ok bs' ∧ List.Forall₂ q bs bs' := by
  rw [mapM_eq_ok_iff] at h
  induction h with
  | nil => exact ⟨[], rfl, .nil⟩
  | cons hab _ ih =>
      obtain ⟨b', hb', hq⟩ := hf _ List.mem_cons_self _ List.mem_cons_self hab
      obtain ⟨bs', hbs', hqs⟩ := ih fun a ha b hb =>
        hf a (List.mem_cons_of_mem _ ha) b (List.mem_cons_of_mem _ hb)
      refine ⟨b' :: bs', ?_, .cons hq hqs⟩
      rw [mapM_cons, hb', hbs']
      rfl

/-! ## 2. Steps with a state -/

variable {σ : Type} {R : σ → σ → Prop}

/-- When the step fails, the states before and after it are related. -/
def Leaves (R : σ → σ → Prop) (step : EStateM ε σ α) : Prop :=
  ∀ s e t, step s = .error e t → R s t

/-- The states before and after the step are related, whether or not it fails. -/
def Keeps (R : σ → σ → Prop) (step : EStateM ε σ α) : Prop :=
  (∀ s a t, step s = .ok a t → R s t) ∧ Leaves R step

theorem bind_ok_iff {x : EStateM ε σ α} {f : α → EStateM ε σ β} {s t : σ} {b : β} :
    (x >>= f) s = .ok b t ↔ ∃ a u, x s = .ok a u ∧ f a u = .ok b t := by
  show EStateM.bind x f s = _ ↔ _
  unfold EStateM.bind
  cases hx : x s with
  | ok a u =>
      constructor
      · exact fun h => ⟨a, u, rfl, h⟩
      · rintro ⟨a, u, h, hf⟩
        cases h
        exact hf
  | error e u =>
      constructor
      · intro h
        cases h
      · rintro ⟨_, _, h, _⟩
        cases h

theorem bind_error_iff {x : EStateM ε σ α} {f : α → EStateM ε σ β} {s t : σ} {e : ε} :
    (x >>= f) s = .error e t ↔
      x s = .error e t ∨ ∃ a u, x s = .ok a u ∧ f a u = .error e t := by
  show EStateM.bind x f s = _ ↔ _
  unfold EStateM.bind
  cases hx : x s with
  | ok a u =>
      constructor
      · exact fun h => .inr ⟨a, u, rfl, h⟩
      · rintro (h | ⟨a, u, h, hf⟩)
        · cases h
        · cases h
          exact hf
  | error e' u =>
      constructor
      · intro h
        cases h
        exact .inl rfl
      · rintro (h | ⟨_, _, h, _⟩)
        · cases h
          rfl
        · cases h

theorem bind_of_ok {x : EStateM ε σ α} {f : α → EStateM ε σ β} {s t : σ} {a : α}
    (h : x s = .ok a t) : (x >>= f) s = f a t := by
  show EStateM.bind x f s = _
  unfold EStateM.bind
  rw [h]

theorem bind_of_error {x : EStateM ε σ α} {f : α → EStateM ε σ β} {s t : σ} {e : ε}
    (h : x s = .error e t) : (x >>= f) s = .error e t := by
  show EStateM.bind x f s = _
  unfold EStateM.bind
  rw [h]

theorem Keeps.mono {R' : σ → σ → Prop} {x : EStateM ε σ α} (h : Keeps R x)
    (hR : ∀ s t, R s t → R' s t) : Keeps R' x :=
  ⟨fun s a t ha => hR s t (h.1 s a t ha), fun s e t he => hR s t (h.2 s e t he)⟩

theorem keeps_pure (hrefl : ∀ s, R s s) (a : α) : Keeps R (pure a : EStateM ε σ α) :=
  ⟨fun s _ _ h => (by cases h; exact hrefl s), fun _ _ _ h => (by cases h)⟩

/-- **A step that keeps a relation, then one that does so when it fails.** -/
theorem Keeps.leaves_bind (htrans : ∀ s t u, R s t → R t u → R s u) {x : EStateM ε σ α}
    {f : α → EStateM ε σ β} (hx : Keeps R x) (hf : ∀ a, Leaves R (f a)) : Leaves R (x >>= f) := by
  intro s e t h
  rcases bind_error_iff.1 h with h | ⟨a, u, ha, h⟩
  · exact hx.2 s e t h
  · exact htrans s u t (hx.1 s a u ha) (hf a u e t h)

/-- **Steps after each other keep what each of them keeps.** -/
theorem Keeps.bind (htrans : ∀ s t u, R s t → R t u → R s u) {x : EStateM ε σ α}
    {f : α → EStateM ε σ β} (hx : Keeps R x) (hf : ∀ a, Keeps R (f a)) : Keeps R (x >>= f) := by
  refine ⟨fun s b t h => ?_, hx.leaves_bind htrans fun a => (hf a).2⟩
  obtain ⟨a, u, ha, h⟩ := bind_ok_iff.1 h
  exact htrans s u t (hx.1 s a u ha) ((hf a).1 u b t h)

end ClassAccess.Outcome
