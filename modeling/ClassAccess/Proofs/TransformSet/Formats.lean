import ClassAccess.Proofs.TransformSet.Structured

/-!
# Transform sets in formats

What is read of a set that was written depends on the format. A format with tags takes a single name
for a tag if it is told as an exclamation mark and something behind it, and that is how the method
`!` of a class is told. The tag is no name when it is read again.

* `Format.ReadsBack` -- whether a set that is written is the set that is read again;
* `TransformSet.Untagged` -- whether no name of a set is taken for a tag;
* `kept_toTold` -- nothing is lost of a set that has no such name;
* `not_ofValue_kept` -- a class that has one is not read back;
* `readsBack_iff` -- **exactly which sets are read back**.
-/

namespace ClassAccess

open Told (tag?)

/-! ## 1. What is kept -/

theorem Transform.kept_toTold (t : Transform) : t.toTold.kept = t.toTold.value := rfl

namespace ClassTransforms

variable {c c' : ClassTransforms} {part : List String × Told} {m : Signature} {t : Transform}

/-- Whether the class has not one single method with an exclamation mark for a name. -/
def Untagged (c : ClassTransforms) : Prop := ∀ m, c.methods.keys = [m] → m.name ≠ "!"

/-- **The parts of a class**: a request under a name, or single fields or methods. -/
theorem mem_toldParts (h : part ∈ c.toldParts) : ∃ name, part.1 = [name] ∧
    ((∃ t : Transform, part.2 = t.toTold) ∨ part.2 = .record c.fieldsTold ∨
      part.2 = .record c.methodsTold) := by
  have hnamed : ∀ {name : String} {t : Transform}, part ∈ t.namedTold name →
      part = ([name], t.toTold) := by
    intro name t h
    unfold Transform.namedTold at h
    split at h
    · cases h
    · exact List.mem_singleton.1 h
  have hrecord : ∀ {name : String} {fields : List (List String × Told)},
      part ∈ namedRecord name fields → part = ([name], .record fields) := by
    intro name fields h
    unfold namedRecord at h
    split at h
    · cases h
    · exact List.mem_singleton.1 h
  simp only [toldParts, List.mem_append] at h
  rcases h with (((h | h) | h) | h) | h
  · exact ⟨_, congrArg Prod.fst (hnamed h), .inl ⟨_, congrArg Prod.snd (hnamed h)⟩⟩
  · exact ⟨_, congrArg Prod.fst (hnamed h), .inl ⟨_, congrArg Prod.snd (hnamed h)⟩⟩
  · exact ⟨_, congrArg Prod.fst (hnamed h), .inl ⟨_, congrArg Prod.snd (hnamed h)⟩⟩
  · exact ⟨_, congrArg Prod.fst (hrecord h), .inr (.inl (congrArg Prod.snd (hrecord h)))⟩
  · exact ⟨_, congrArg Prod.fst (hrecord h), .inr (.inr (congrArg Prod.snd (hrecord h)))⟩

theorem not_tag_toldParts (h : part ∈ c.toldParts) : ¬ (tag? part.1).isSome = true := by
  obtain ⟨name, hname, -⟩ := mem_toldParts h
  rw [hname, Told.tag?_singleton]
  exact Bool.false_ne_true

/-- A class without a name that is taken for a tag is kept. -/
theorem kept_toTold (h : c.Untagged) : c.toTold.kept = c.toTold.value := by
  refine Told.kept_record_eq_value (fun e he => not_tag_toldParts (he ▸ List.mem_singleton_self e))
    fun part hpart => ?_
  obtain ⟨-, -, ⟨t, ht⟩ | hfields | hmethods⟩ := mem_toldParts hpart
  · rw [ht, Transform.kept_toTold]
  · rw [hfields]
    refine Told.kept_record_eq_value (fun e he => ?_) fun e he => ?_
    · obtain ⟨f, -, rfl⟩ := List.mem_map.1 (he ▸ List.mem_singleton_self e)
      rw [Told.tag?_singleton]
      exact Bool.false_ne_true
    · obtain ⟨f, -, rfl⟩ := List.mem_map.1 he
      exact f.2.kept_toTold
  · rw [hmethods]
    refine Told.kept_record_eq_value (fun e he htag => ?_) fun e he => ?_
    · obtain ⟨f, hf, rfl⟩ := List.map_eq_singleton_iff.1 he
      have hkeys : c.methods.keys = [f.1] := by rw [Listing.keys, hf, List.map_singleton]
      exact h f.1 hkeys (Told.isSome_tag?_pair.1 htag).1
    · obtain ⟨f, -, rfl⟩ := List.mem_map.1 he
      exact f.2.kept_toTold

/-- **What is kept of a class**, part by part. -/
theorem kept_toTold_eq (c : ClassTransforms) : c.toTold.kept =
    .record (c.toldParts.map fun part => (String.join part.1, part.2.kept)) :=
  Told.asValue_record fun part hpart _ =>
    if_neg (not_tag_toldParts (hpart ▸ List.mem_singleton_self part))

/-- The names of the two parts of a request are no signatures. -/
theorem readPart_methods_toTold (c : ClassTransforms) (t : Transform) :
    readPart c ("methods", t.toTold.value) = .error (.missingDescriptor "access") := by
  obtain ⟨visibility, finality⟩ := t
  cases visibility <;> cases finality <;> rfl

/-- **A class with a name that is taken for a tag is not read back.** -/
theorem not_ofValue_kept (hkeys : c.methods.keys = [m]) (htag : (tag? m.pieces).isSome = true) :
    ofValue c.toTold.kept ≠ .ok c' := by
  intro hread
  obtain ⟨e, hentries, rfl⟩ := List.map_eq_singleton_iff.1 hkeys
  have hmethods : namedRecord "methods" c.methodsTold =
      [(["methods"], .record [(e.1.pieces, e.2.toTold)])] := by
    rw [methodsTold, hentries]
    rfl
  rw [kept_toTold_eq, toldParts, hmethods, List.map_append] at hread
  obtain ⟨parts, hparts, hread⟩ := Outcome.exists_of_bind_ok hread
  cases hparts
  obtain ⟨c₁, hfold, -⟩ := Outcome.exists_of_bind_ok hread
  rw [List.foldlM_append] at hfold
  obtain ⟨c₂, -, hlast⟩ := Outcome.exists_of_bind_ok hfold
  obtain ⟨c₃, hpart, -⟩ := Outcome.exists_of_bind_ok hlast
  have hlost : (Told.record [(e.1.pieces, e.2.toTold)]).kept = e.2.toTold.value := by
    rw [Told.kept_record htag, Transform.kept_toTold]
  have hmethods' : readPart c₂ ("methods", (Told.record [(e.1.pieces, e.2.toTold)]).kept) =
      .ok c₃ := hpart
  rw [hlost, readPart_methods_toTold] at hmethods'
  cases hmethods'

end ClassTransforms

namespace TransformSet

variable {s s' : TransformSet} {f : Format}

/-- **Whether no class of a set has a single method with an exclamation mark for a name.** -/
def Untagged (s : TransformSet) : Prop := ∀ e ∈ s.classes.entries, e.2.Untagged

theorem not_tag_toTold (s : TransformSet) {e : List String × Told}
    (h : s.classes.entries.map (fun e => ([e.1], e.2.toTold)) = [e]) :
    ¬ (tag? e.1).isSome = true := by
  obtain ⟨f, -, rfl⟩ := List.map_eq_singleton_iff.1 h
  rw [Told.tag?_singleton]
  exact Bool.false_ne_true

/-- A set without names that are taken for tags is kept. -/
theorem kept_toTold (h : s.Untagged) : s.toTold.kept = s.value := by
  refine Told.kept_record_eq_value (fun e he => s.not_tag_toTold he) fun e he => ?_
  obtain ⟨f, hf, rfl⟩ := List.mem_map.1 he
  exact ClassTransforms.kept_toTold (h f hf)

/-- What is read of what is kept of a set has been read class by class. -/
theorem exists_ofValue_kept (h : ofValue s.toTold.kept = .ok s') {e : String × ClassTransforms}
    (he : e ∈ s.classes.entries) : ∃ c', ClassTransforms.ofValue e.2.toTold.kept = .ok c' := by
  have hkept : s.toTold.kept = .record (s.classes.entries.map fun e =>
      (String.join [e.1], e.2.toTold.kept)) := by
    refine (Told.asValue_record fun e he _ => if_neg (s.not_tag_toTold he)).trans ?_
    rw [List.map_map]
    rfl
  rw [hkept] at h
  obtain ⟨es, hes, -⟩ := Outcome.exists_of_bind_ok h
  obtain ⟨e', -, hread⟩ := Outcome.exists_of_forall₂ (Outcome.mapM_eq_ok_iff.1 hes)
    (List.mem_map_of_mem he)
  obtain ⟨name, -, hread⟩ := Outcome.exists_of_bind_ok hread
  obtain ⟨c', hclass, -⟩ := Outcome.exists_of_bind_ok hread
  exact ⟨c', hclass⟩

/-- A set that is read back from what is kept has no names that are taken for tags. -/
theorem untagged_of_ofValue (hspelled : s.Spelled) (h : ofValue s.toTold.kept = .ok s') :
    s.Untagged := by
  intro e he m hkeys hname
  obtain ⟨c', hclass⟩ := exists_ofValue_kept h he
  have hdescriptor : m.descriptor ≠ "" := by
    intro hempty
    have hhead := (hspelled e he m (hkeys ▸ List.mem_singleton_self m)).2
    rw [hempty] at hhead
    cases hhead
  exact ClassTransforms.not_ofValue_kept hkeys
    (Told.isSome_tag?_pair.2 ⟨hname, hdescriptor⟩) hclass

end TransformSet

/-! ## 2. Formats -/

namespace Format

variable {f : Format} {s : TransformSet}

/-- **Whether a set is read back from a format**, entry for entry of what is stored: every class,
    also one without requests, and every member, also one that a request for nothing is stored
    for. -/
def ReadsBack (f : Format) (s : TransformSet) : Prop :=
  ∃ text value, f.write s.toTold = some text ∧ f.read text = some value ∧
    TransformSet.ofValue value = .ok s

theorem readsBack_iff_ofValue (h : f.Carries s.toTold) :
    f.ReadsBack s ↔ TransformSet.ofValue (f.form s.toTold) = .ok s := by
  obtain ⟨text, hwrite, hread⟩ := h
  constructor
  · intro hback
    obtain ⟨text', value, hwrite', hread', hvalue⟩ := hback
    cases hwrite.symm.trans hwrite'
    cases hread.symm.trans hread'
    exact hvalue
  · exact fun hvalue => ⟨text, _, hwrite, hread, hvalue⟩

end Format

namespace TransformSet

variable {s : TransformSet} {f : Format}

/-- **Exactly which sets are read back** from a format that carries them: those that are spelled,
    and, if the format has tags, have no name that is taken for one. What directives are read as is
    spelled. -/
theorem readsBack_iff (h : f.Carries s.toTold) :
    (f.ReadsBack s ↔ s.Spelled ∧ (f.tags = true → s.Untagged)) ∧
      ∀ text, (ofText text).Spelled := by
  refine ⟨(Format.readsBack_iff_ofValue h).trans ?_, spelled_ofText⟩
  cases htags : f.tags with
  | false =>
      rw [Format.form, htags, if_neg Bool.false_ne_true]
      exact ⟨fun hread => ⟨spelled_ofValue hread, nofun⟩, fun h => h.1.ofValue_value⟩
  | true =>
      rw [Format.form, htags, if_pos rfl]
      constructor
      · intro hread
        have hspelled := spelled_ofValue hread
        exact ⟨hspelled, fun _ => untagged_of_ofValue hspelled hread⟩
      · intro h
        rw [kept_toTold (h.2 rfl)]
        exact h.1.ofValue_value

/-- A request for a method. -/
def oneMethod : TransformSet := ofText "public A m(I)V\n"

/-- A request for a method with an exclamation mark for a name. -/
def oneMark : TransformSet := ofText "public A !(I)V\n"

/-- How the documents of these two sets are read. -/
def readDocument (text : String) : Option Value :=
  let request := .record [("access", .text "public"), ("modifier", .text "none")]
  if text = "A:\n  methods:\n    m(I)V:\n      access: public\n      modifier: none\n" then
    some (.record [("A", .record [("methods", .record [("m(I)V", request)])])])
  else if text = "A:\n  methods: !(I)V\n    access: public\n    modifier: none\n" then
    some (.record [("A", .record [("methods", request)])])
  else none

theorem carries_oneMethod : (Yaml.format readDocument).Carries oneMethod.toTold := by
  have htext : oneMethod.yaml =
      "A:\n  methods:\n    m(I)V:\n      access: public\n      modifier: none\n" := by
    decide +kernel
  exact ⟨_, congrArg some htext, rfl⟩

theorem carries_oneMark : (Yaml.format readDocument).Carries oneMark.toTold := by
  have htext : oneMark.yaml =
      "A:\n  methods: !(I)V\n    access: public\n    modifier: none\n" := by decide +kernel
  exact ⟨_, congrArg some htext, rfl⟩

theorem spelled_oneMark : oneMark.Spelled := spelled_ofText _

/-- The request for the method with the mark is not read back: its name is lost, and what is read
    instead are the parts of the request. -/
theorem readsBack_iff_oneMark : (Yaml.format readDocument).ReadsBack oneMethod ∧
    ¬ (Yaml.format readDocument).ReadsBack oneMark ∧
    ofValue oneMark.toTold.kept = .error (.missingDescriptor "access") := by
  obtain ⟨hmethod, htexts⟩ := readsBack_iff carries_oneMethod
  obtain ⟨hmark, -⟩ := readsBack_iff carries_oneMark
  refine ⟨hmethod.2 ⟨htexts _, fun _ e he m hm hname => ?_⟩, fun hback => ?_, rfl⟩
  · have hnames : ∀ e ∈ oneMethod.classes.entries, ∀ m ∈ e.2.methods.keys, m.name ≠ "!" := by
      decide +kernel
    exact hnames e he m (hm ▸ List.mem_singleton_self m) hname
  · have hentry : ∃ e ∈ oneMark.classes.entries, e.2.methods.keys = [⟨"!", "(I)V"⟩] := by
      decide +kernel
    obtain ⟨e, he, hkeys⟩ := hentry
    exact (hmark.1 hback).2 rfl e he _ hkeys rfl

/-- **Not all sets that are spelled are read back.** -/
theorem not_readsBack_of_spelled : ¬ ∀ (f : Format) (s : TransformSet), f.Carries s.toTold →
    (f.ReadsBack s ↔ s.Spelled) := by
  intro h
  have hback := (h _ _ carries_oneMark).2 spelled_oneMark
  rw [Format.readsBack_iff_ofValue carries_oneMark] at hback
  cases hback

end TransformSet

end ClassAccess
