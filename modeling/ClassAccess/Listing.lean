/-!
# Listings

A listing holds one value per key, with the keys in ascending order. Two listings with the same
values under the same keys are the same listing.

* `Listing.get?` -- the value under a key;
* `Listing.update` -- the listing with the value under one key made anew from the old one;
* `get?_update` -- what `get?` finds afterwards;
* `ext_get?` -- listings that agree under every key are equal.
-/

namespace ClassAccess

/-- Values under keys, the keys ascending. -/
structure Listing (κ ν : Type) [Ord κ] where
  entries : List (κ × ν) := []
  ascending : entries.Pairwise (fun a b => compare a.1 b.1 = .lt) := by exact .nil

namespace Listing

variable {κ ν : Type} [Ord κ]

instance : EmptyCollection (Listing κ ν) := ⟨{}⟩

instance : Inhabited (Listing κ ν) := ⟨∅⟩

instance [DecidableEq κ] [DecidableEq ν] : DecidableEq (Listing κ ν) := fun a b =>
  if h : a.entries = b.entries then isTrue (by cases a; cases b; simp_all)
  else isFalse (fun e => h (congrArg entries e))

/-- The number of keys. -/
def size (l : Listing κ ν) : Nat := l.entries.length

/-- Whether there are no keys. -/
def isEmpty (l : Listing κ ν) : Bool := l.entries.isEmpty

/-- The keys, ascending. -/
def keys (l : Listing κ ν) : List κ := l.entries.map Prod.fst

/-- The value under a key in a list of entries. -/
def find? (k : κ) : List (κ × ν) → Option ν
  | [] => none
  | (k', v) :: rest => if compare k k' = .eq then some v else find? k rest

/-- The value under a key. -/
def get? (l : Listing κ ν) (k : κ) : Option ν := find? k l.entries

/-- Entries in which the value under a key is made anew; a key that is missing gets its place. -/
def upsert (k : κ) (f : Option ν → ν) : List (κ × ν) → List (κ × ν)
  | [] => [(k, f none)]
  | (k', v) :: rest =>
    match compare k k' with
    | .lt => (k, f none) :: (k', v) :: rest
    | .eq => (k', f (some v)) :: rest
    | .gt => (k', v) :: upsert k f rest

theorem mem_upsert {k : κ} {f : Option ν → ν} {e : κ × ν} : ∀ {l : List (κ × ν)},
    e ∈ upsert k f l → e.1 = k ∨ ∃ e' ∈ l, e.1 = e'.1
  | [], h => by
    simp only [upsert, List.mem_singleton] at h
    exact .inl (by rw [h])
  | (k', v) :: rest, h => by
    unfold upsert at h
    split at h
    · rcases List.mem_cons.1 h with rfl | h
      · exact .inl rfl
      · exact .inr ⟨e, h, rfl⟩
    · rcases List.mem_cons.1 h with rfl | h
      · exact .inr ⟨(k', v), by simp, rfl⟩
      · exact .inr ⟨e, by simp [h], rfl⟩
    · rcases List.mem_cons.1 h with rfl | h
      · exact .inr ⟨(k', v), by simp, rfl⟩
      · rcases mem_upsert h with h | ⟨e', h, he⟩
        · exact .inl h
        · exact .inr ⟨e', by simp [h], he⟩

theorem pairwise_upsert [Std.TransOrd κ] (k : κ) (f : Option ν → ν) : ∀ {l : List (κ × ν)},
    l.Pairwise (fun a b => compare a.1 b.1 = .lt) →
      (upsert k f l).Pairwise (fun a b => compare a.1 b.1 = .lt)
  | [], _ => by simp [upsert]
  | (k', v) :: rest, h => by
    have htail := (List.pairwise_cons.1 h).2
    have hhead := (List.pairwise_cons.1 h).1
    unfold upsert
    split
    · rename_i hk
      refine List.pairwise_cons.2 ⟨fun e he => ?_, h⟩
      rcases List.mem_cons.1 he with rfl | he
      · exact hk
      · exact Std.TransCmp.lt_trans hk (hhead e he)
    · exact List.pairwise_cons.2 ⟨hhead, htail⟩
    · rename_i hk
      refine List.pairwise_cons.2 ⟨fun e he => ?_, pairwise_upsert k f htail⟩
      rcases mem_upsert he with he | ⟨e', he', heq⟩
      · show compare k' e.1 = .lt
        rw [he]
        exact Std.OrientedCmp.lt_of_gt hk
      · show compare k' e.1 = .lt
        rw [heq]
        exact hhead e' he'

/-- The listing in which the value under `k` is `f` of the old one. -/
def update [Std.TransOrd κ] (l : Listing κ ν) (k : κ) (f : Option ν → ν) : Listing κ ν :=
  ⟨upsert k f l.entries, pairwise_upsert k f l.ascending⟩

/-- The listing with a value under a key. -/
def insert [Std.TransOrd κ] (l : Listing κ ν) (k : κ) (v : ν) : Listing κ ν :=
  l.update k fun _ => v

/-- The listing of some entries; of two with one key the later one counts. -/
def ofList [Std.TransOrd κ] (entries : List (κ × ν)) : Listing κ ν :=
  entries.foldl (fun l e => l.insert e.1 e.2) ∅

/-! ## 1. Looking up -/

@[simp] theorem get?_empty (k : κ) : (∅ : Listing κ ν).get? k = none := rfl

theorem find?_upsert [Std.TransOrd κ] (k k' : κ) (f : Option ν → ν) : ∀ (l : List (κ × ν)),
    l.Pairwise (fun a b => compare a.1 b.1 = .lt) →
      find? k' (upsert k f l) = if compare k' k = .eq then some (f (find? k l)) else find? k' l
  | [], _ => by simp [upsert, find?]
  | (j, v) :: rest, h => by
    have hhead := (List.pairwise_cons.1 h).1
    have htail := (List.pairwise_cons.1 h).2
    have absent : ∀ (x : κ), (∀ e ∈ rest, compare x e.1 = .lt) → find? x rest = none := by
      clear h hhead htail
      intro x hx
      induction rest with
      | nil => rfl
      | cons e rest ih =>
        have h1 := hx e (by simp)
        simp only [find?, h1]
        exact ih fun e' he' => hx e' (by simp [he'])
    unfold upsert
    split
    · rename_i hk
      have hnone : find? k ((j, v) :: rest) = none := by
        simp only [find?, hk]
        exact absent k fun e he => Std.TransCmp.lt_trans hk (hhead e he)
      rw [hnone]
      rfl
    · rename_i hk
      by_cases hj : compare k' j = .eq
      · have : compare k' k = .eq := Std.TransCmp.eq_trans hj (Std.OrientedCmp.eq_symm hk)
        simp [find?, hj, hk, this]
      · have : compare k' k ≠ .eq := fun e => hj (Std.TransCmp.eq_trans e hk)
        simp [find?, hj, this]
    · rename_i hk
      have ih := find?_upsert k k' f rest htail
      have hkj : find? k ((j, v) :: rest) = find? k rest := by simp [find?, hk]
      rw [hkj]
      by_cases hj : compare k' j = .eq
      · have : compare k' k ≠ .eq := fun e => by
          have := Std.TransCmp.eq_trans (Std.OrientedCmp.eq_symm e) hj
          rw [this] at hk
          cases hk
        simp [find?, hj, this]
      · simp [find?, hj, ih]

/-- **After an update only the value under its key is new.** -/
theorem get?_update [Std.TransOrd κ] (l : Listing κ ν) (k k' : κ) (f : Option ν → ν) :
    (l.update k f).get? k' = if compare k' k = .eq then some (f (l.get? k)) else l.get? k' :=
  find?_upsert k k' f l.entries l.ascending

theorem get?_update_self [Std.TransOrd κ] (l : Listing κ ν) (k : κ) (f : Option ν → ν) :
    (l.update k f).get? k = some (f (l.get? k)) := by
  rw [get?_update, if_pos Std.ReflCmp.compare_self]

theorem get?_update_of_ne [Std.TransOrd κ] [Std.LawfulEqOrd κ] (l : Listing κ ν) {k k' : κ}
    (f : Option ν → ν) (h : k' ≠ k) : (l.update k f).get? k' = l.get? k' := by
  rw [get?_update, if_neg fun he => h (Std.LawfulEqCmp.eq_of_compare he)]

theorem mem_of_find? [Std.LawfulEqOrd κ] {k : κ} {v : ν} : ∀ {l : List (κ × ν)},
    find? k l = some v → (k, v) ∈ l
  | [], h => by simp [find?] at h
  | (k', v') :: rest, h => by
    unfold find? at h
    split at h
    · rename_i hk
      have hk' : k = k' := Std.LawfulEqCmp.eq_of_compare hk
      cases h
      simp [hk']
    · exact List.mem_cons_of_mem _ (mem_of_find? h)

theorem find?_of_mem [Std.TransOrd κ] {k : κ} {v : ν} : ∀ {l : List (κ × ν)},
    l.Pairwise (fun a b => compare a.1 b.1 = .lt) → (k, v) ∈ l → find? k l = some v
  | [], _, h => by simp at h
  | (k', v') :: rest, hp, h => by
    have hhead := (List.pairwise_cons.1 hp).1
    rcases List.mem_cons.1 h with h | h
    · cases h
      simp [find?]
    · have hgt : compare k' k = .lt := hhead _ h
      have hne : compare k k' ≠ .eq := fun e => by
        rw [Std.OrientedCmp.eq_symm e] at hgt
        cases hgt
      simp only [find?, hne, if_false]
      exact find?_of_mem (List.pairwise_cons.1 hp).2 h

/-- **A listing holds the values that `get?` finds.** -/
theorem mem_entries_iff [Std.TransOrd κ] [Std.LawfulEqOrd κ] {l : Listing κ ν} {k : κ} {v : ν} :
    (k, v) ∈ l.entries ↔ l.get? k = some v :=
  ⟨fun h => find?_of_mem l.ascending h, fun h => mem_of_find? h⟩

theorem find?_eq_none_of_lt {k : κ} : ∀ {l : List (κ × ν)},
    (∀ e ∈ l, compare k e.1 = .lt) → find? k l = none
  | [], _ => rfl
  | e :: rest, h => by
    simp only [find?, h e (by simp)]
    exact find?_eq_none_of_lt fun e' he' => h e' (by simp [he'])

theorem entries_ext [Std.TransOrd κ] [Std.LawfulEqOrd κ] : ∀ {l m : List (κ × ν)},
    l.Pairwise (fun a b => compare a.1 b.1 = .lt) →
    m.Pairwise (fun a b => compare a.1 b.1 = .lt) →
    (∀ k, find? k l = find? k m) → l = m
  | [], [], _, _, _ => rfl
  | [], (k, v) :: m, _, _, h => by simpa [find?] using h k
  | (k, v) :: l, [], _, _, h => by simpa [find?] using h k
  | (k, v) :: l, (k', v') :: m, hl, hm, h => by
    have hl' := List.pairwise_cons.1 hl
    have hm' := List.pairwise_cons.1 hm
    cases hk : compare k k' with
    | lt =>
      have hnone : find? k ((k', v') :: m) = none := by
        simp only [find?, hk]
        exact find?_eq_none_of_lt fun e he => Std.TransCmp.lt_trans hk (hm'.1 e he)
      have := h k
      rw [hnone] at this
      simp [find?] at this
    | gt =>
      have hk' : compare k' k = .lt := Std.OrientedCmp.lt_of_gt hk
      have hnone : find? k' ((k, v) :: l) = none := by
        simp only [find?, hk']
        exact find?_eq_none_of_lt fun e he => Std.TransCmp.lt_trans hk' (hl'.1 e he)
      have := h k'
      rw [hnone] at this
      simp [find?] at this
    | eq =>
      have heq : k = k' := Std.LawfulEqCmp.eq_of_compare hk
      subst heq
      have hv : v = v' := by simpa [find?] using h k
      subst hv
      refine congrArg _ (entries_ext hl'.2 hm'.2 fun x => ?_)
      by_cases hx : compare x k = .eq
      · have hx' : x = k := Std.LawfulEqCmp.eq_of_compare hx
        subst hx'
        rw [find?_eq_none_of_lt hl'.1, find?_eq_none_of_lt hm'.1]
      · simpa [find?, hx] using h x

/-- **Listings that agree under every key are equal.** -/
theorem ext_get? [Std.TransOrd κ] [Std.LawfulEqOrd κ] {l m : Listing κ ν}
    (h : ∀ k, l.get? k = m.get? k) : l = m := by
  have := entries_ext l.ascending m.ascending h
  cases l
  cases m
  simp_all

/-! ## 2. Selecting -/

/-- The values that `f` gives for those of a listing, under the same keys. -/
def filterMap {μ : Type} (f : ν → Option μ) (l : Listing κ ν) : Listing κ μ where
  entries := l.entries.filterMap fun e => (f e.2).map fun v => (e.1, v)
  ascending := by
    refine List.Pairwise.filterMap _ (fun a b h c hc d hd => ?_) l.ascending
    simp only [Option.map_eq_some_iff] at hc hd
    obtain ⟨v, _, rfl⟩ := hc
    obtain ⟨w, _, rfl⟩ := hd
    exact h

end Listing

end ClassAccess
