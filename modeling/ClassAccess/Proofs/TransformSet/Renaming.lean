import ClassAccess.Proofs.NameTable.FullyMapped
import ClassAccess.Proofs.TransformSet.Lookup

/-!
# Sets renamed by way of a second namespace

* `asked_rename_le_iff` -- **what a renamed set asks for is the join** of what comes to the class
  and the target;
* `same_rename_self` -- in its own namespace a renamed set asks for the same;
* `rename_rename_same`, `renameBetween_renameBetween` -- **the way does not matter**: a set that is
  renamed by way of a second namespace asks for the same as one that is renamed at once.
-/

namespace ClassAccess

namespace TransformSet

variable {s s' : TransformSet} {t : NameTable} {i j k : Nat} {name : String} {target : Target}
  {u : Transform}

/-! ## 1. Namespaces by their numbers -/

/-- A set is renamed as if its requests were met one by one. -/
theorem rename_eq_askEach (s : TransformSet) (t : NameTable) (i j : Nat) :
    s.rename t i j = askEach (t.className i j) (t.target i j) s.stored {} :=
  (askEach_stored (t.className i j) (t.target i j) s {}).symm

/-- **What a renamed set asks for is the join** of what comes to the class and the target. -/
theorem asked_rename_le_iff : (s.rename t i j).asked name target ≤ u ↔
    ∀ owner old, t.className i j owner = name ∧ t.target i j owner old = target →
      s.asked owner old ≤ u := by
  rw [rename_eq_askEach, asked_askEach_le_iff, asked_empty]
  simp only [Transform.none_le, true_and, Prod.forall]
  refine forall₂_congr fun owner old => ?_
  constructor
  · intro h hcomes
    by_cases hne : s.asked owner old = .none
    · rw [hne]
      exact Transform.none_le u
    · exact h _ (asked_mem_stored hne) hcomes
  · intro h transform hr hcomes
    rw [← asked_of_mem_stored hr]
    exact h hcomes

/-- Sets that ask for the same do so in other names. -/
theorem rename_same (h : s.same s' = true) : (s.rename t i j).same (s'.rename t i j) = true := by
  rw [same_iff] at h ⊢
  refine fun name target => Transform.eq_of_le_iff fun u => ?_
  rw [asked_rename_le_iff, asked_rename_le_iff]
  simp only [h]

/-- In its own namespace a renamed set asks for the same. -/
theorem same_rename_self (s : TransformSet) (t : NameTable) (i : Nat) :
    s.same (s.rename t i i) = true := by
  refine same_iff.2 fun name target => Transform.eq_of_le_iff fun u => ?_
  rw [asked_rename_le_iff]
  simp only [NameTable.className_self, NameTable.target_self]
  exact ⟨by rintro h _ _ ⟨rfl, rfl⟩; exact h, fun h => h name target ⟨rfl, rfl⟩⟩

/-- **By way of a second namespace a set is renamed as it is at once.** -/
theorem rename_rename_same (ht : t.WellFormed) (hfull : t.FullyMapped)
    (hs : ∀ owner target, s.asked owner target ≠ .none → t.SettledTarget i owner target)
    (hj : j < t.namespaces.length) (hk : k < t.namespaces.length) :
    ((s.rename t i j).rename t j k).same (s.rename t i k) = true := by
  refine same_iff.2 fun name target => Transform.eq_of_le_iff fun u => ?_
  have hway : ∀ owner old, s.asked owner old ≠ .none →
      t.className j k (t.className i j owner) = t.className i k owner ∧
        t.target j k (t.className i j owner) (t.target i j owner old) = t.target i k owner old :=
    fun owner old hne =>
      ⟨NameTable.className_className ht hfull (hs owner old hne).settled hj hk,
        NameTable.target_target ht hfull (hs owner old hne) hj hk⟩
  simp only [asked_rename_le_iff]
  constructor
  · intro h owner old hcomes
    by_cases hne : s.asked owner old = .none
    · rw [hne]
      exact Transform.none_le u
    · rw [← (hway owner old hne).1, ← (hway owner old hne).2] at hcomes
      exact h _ _ hcomes owner old ⟨rfl, rfl⟩
  · rintro h _ _ hcomes owner old ⟨rfl, rfl⟩
    by_cases hne : s.asked owner old = .none
    · rw [hne]
      exact Transform.none_le u
    · rw [(hway owner old hne).1, (hway owner old hne).2] at hcomes
      exact h owner old hcomes

/-! ## 2. Namespaces by their names -/

variable {a b c : String}

theorem lt_of_namespace? (h : t.namespace? a = some i) : i < t.namespaces.length :=
  (List.findIdx?_eq_some_iff_getElem.1 h).1

theorem namespace?_inj (ha : t.namespace? a = some i) (hb : t.namespace? b = some i) : a = b := by
  obtain ⟨_, hai, -⟩ := List.findIdx?_eq_some_iff_getElem.1 ha
  obtain ⟨_, hbi, -⟩ := List.findIdx?_eq_some_iff_getElem.1 hb
  exact (eq_of_beq hai).symm.trans (eq_of_beq hbi)

/-- What comes out between namespaces that the table has. -/
theorem renameBetween_eq (s : TransformSet) (ha : t.namespace? a = some i)
    (hb : t.namespace? b = some j) :
    s.renameBetween t a b = .ok (if i = j then s else s.rename t i j) := by
  unfold renameBetween space
  rw [ha, hb]
  change (if i = j then _ else _) = _
  split <;> rfl

/-- Between namespaces that the table has a set is renamed, as far as what it asks for goes. -/
theorem renameBetween_ok (s : TransformSet) (ha : t.namespace? a = some i)
    (hb : t.namespace? b = some j) :
    ∃ out, s.renameBetween t a b = .ok out ∧ out.same (s.rename t i j) = true := by
  refine ⟨_, renameBetween_eq s ha hb, ?_⟩
  split
  · rename_i h
    rw [← h]
    exact same_rename_self s t i
  · exact same_iff.2 fun _ _ => rfl

/-- **The way does not matter.** In the names of a fully mapped table, a set whose names the table
    knows, or mistakes for no others, is renamed by way of any second namespace as it is at once. -/
theorem renameBetween_renameBetween (ht : t.Built) (hfull : t.FullyMapped)
    (ha : t.namespace? a = some i) (hb : t.namespace? b = some j) (hc : t.namespace? c = some k)
    (hs : ∀ owner target, s.asked owner target ≠ .none → t.SettledTarget i owner target) :
    ∃ middle out direct, s.renameBetween t a b = .ok middle ∧
      middle.renameBetween t b c = .ok out ∧ s.renameBetween t a c = .ok direct ∧
        out.same direct = true := by
  obtain ⟨middle, hmiddle, hsame⟩ := renameBetween_ok s ha hb
  obtain ⟨out, hout, hsame'⟩ := renameBetween_ok middle hb hc
  obtain ⟨direct, hdirect, hsame''⟩ := renameBetween_ok s ha hc
  refine ⟨middle, out, direct, hmiddle, hout, hdirect, ?_⟩
  have hway := rename_rename_same ht.wellFormed hfull hs (lt_of_namespace? hb) (lt_of_namespace? hc)
  have hrename := rename_same (t := t) (i := j) (j := k) hsame
  rw [same_iff] at hsame' hsame'' hway hrename ⊢
  intro name target
  rw [hsame', hrename, hway, hsame'']

end TransformSet

/-! ## 3. A table with three namespaces -/

namespace NameTable

/-- A class with a field and a method, in three namespaces. -/
def threefold : NameTable where
  namespaces := ["short", "middle", "long"]
  classes := [{
    names := ["a", "m/A", "net/example/Foo"]
    fields := [["b", "f1", "count"]]
    methods := [⟨"(La;Ljava/lang/String;)V", ["c", "m1", "merge"]⟩] }]

theorem built_threefold : threefold.Built := by
  have h₀ := Built.ofNamespaces (show ofNamespaces ["short", "middle", "long"] = .ok _ from rfl)
  have h₁ := h₀.addClass (show addClass _ ["a", "m/A", "net/example/Foo"] = .ok (0, _) from rfl)
  have h₂ := h₁.addField (show addField _ 0 ["b", "f1", "count"] = .ok _ from rfl)
  exact h₂.addMethod
    (show addMethod _ 0 "(La;Ljava/lang/String;)V" ["c", "m1", "merge"] = .ok _ from rfl)

/-- A name that no namespace has. -/
theorem settled_of_forall {t : NameTable} {i : Nat} {name : String}
    (h : ∀ c ∈ t.classes, name ∉ c.names) : t.Settled i name := by
  intro _ j
  cases hc : t.classNamed? name j with
  | none => rfl
  | some c =>
      obtain ⟨hmem, hname, -⟩ := classNamed?_some hc
      exact absurd (List.mem_of_getElem? hname) (h c hmem)

theorem settled_string (i : Nat) : threefold.Settled i "java/lang/String" :=
  settled_of_forall (by decide)

theorem fullyMapped_threefold : threefold.FullyMapped where
  classes := by decide
  fields := by decide
  methods := by decide
  fieldsApart := by
    intro c hc
    cases List.mem_singleton.1 hc
    exact List.pairwise_singleton _ _
  methodsApart := by
    intro c hc
    cases List.mem_singleton.1 hc
    exact List.pairwise_singleton _ _
  descriptors := by
    intro c hc m hm
    cases List.mem_singleton.1 hc
    cases List.mem_singleton.1 hm
    have hnames : Descriptor.names "(La;Ljava/lang/String;)V" = ["a", "java/lang/String"] := by
      decide +kernel
    rw [hnames, List.forall_mem_cons, List.forall_mem_singleton]
    exact ⟨fun h => absurd h (by decide), settled_string 0⟩

end NameTable

namespace TransformSet

/-- Requests for the method, for the field and for one that the table does not have. -/
def threefoldRequests : TransformSet :=
  ((mergeAt {} "m/A" (.method ⟨"m1", "(Lm/A;Ljava/lang/String;)V"⟩)
    ⟨.publicAccess, .unchanged⟩).mergeAt "m/A" (.field "f1") ⟨.publicAccess, .remove⟩).mergeAt
    "m/A" (.field "x") ⟨.unchanged, .add⟩

theorem settled_threefoldRequests : ∀ owner target, threefoldRequests.asked owner target ≠ .none →
    NameTable.threefold.SettledTarget 1 owner target := by
  have howner : NameTable.threefold.Settled 1 "m/A" := fun h => absurd h (by decide)
  have hclass : ∀ c, NameTable.threefold.classNamed? "m/A" 1 = some c →
      c ∈ NameTable.threefold.classes := fun c hc => (NameTable.classNamed?_some hc).1
  refine forall_asked_mergeAt (forall_asked_mergeAt (forall_asked_mergeAt
    (fun owner target h => absurd (asked_empty owner target) h) ⟨howner, ?_, ?_⟩ _)
    ⟨howner, ?_⟩ _) ⟨howner, ?_⟩ _
  · have hnames : Descriptor.names "(Lm/A;Ljava/lang/String;)V" = ["m/A", "java/lang/String"] := by
      decide +kernel
    rw [hnames, List.forall_mem_cons, List.forall_mem_singleton]
    exact ⟨howner, NameTable.settled_string 1⟩
  · intro c hc hnone
    cases List.mem_singleton.1 (hclass c hc)
    exact absurd (by decide +kernel) (hnone _ List.mem_cons_self rfl)
  · intro c hc hnone
    cases List.mem_singleton.1 (hclass c hc)
    exact absurd rfl (hnone _ List.mem_cons_self)
  · intro c hc _ j f hf hname
    cases List.mem_singleton.1 (hclass c hc)
    cases List.mem_singleton.1 hf
    exact absurd (List.mem_of_getElem? hname) (by decide)

/-- The same requests in the names of the third namespace. -/
def threefoldRenamed : TransformSet :=
  ((mergeAt {} "net/example/Foo" (.method ⟨"merge", "(Lnet/example/Foo;Ljava/lang/String;)V"⟩)
    ⟨.publicAccess, .unchanged⟩).mergeAt "net/example/Foo" (.field "count")
    ⟨.publicAccess, .remove⟩).mergeAt "net/example/Foo" (.field "x") ⟨.unchanged, .add⟩

/-- From the second namespace to the third one by way of the first one. -/
theorem renameBetween_threefold :
    ∃ middle out,
      threefoldRequests.renameBetween NameTable.threefold "middle" "short" = .ok middle ∧
        middle.renameBetween NameTable.threefold "short" "long" = .ok out ∧
          threefoldRequests.renameBetween NameTable.threefold "middle" "long" =
            .ok threefoldRenamed ∧
          out.same threefoldRenamed = true ∧
          out.asked "net/example/Foo" (.field "count") = ⟨.publicAccess, .remove⟩ := by
  obtain ⟨middle, out, direct, hmiddle, hout, hdirect, hsame⟩ :=
    renameBetween_renameBetween NameTable.built_threefold NameTable.fullyMapped_threefold
      (show NameTable.threefold.namespace? "middle" = some 1 from rfl)
      (show NameTable.threefold.namespace? "short" = some 0 from rfl)
      (show NameTable.threefold.namespace? "long" = some 2 from rfl) settled_threefoldRequests
  have hrenamed : threefoldRequests.renameBetween NameTable.threefold "middle" "long" =
      .ok threefoldRenamed := by decide +kernel
  cases hdirect.symm.trans hrenamed
  refine ⟨middle, out, hmiddle, hout, hrenamed, hsame, ?_⟩
  rw [same_iff.1 hsame]
  decide +kernel

end TransformSet

end ClassAccess
