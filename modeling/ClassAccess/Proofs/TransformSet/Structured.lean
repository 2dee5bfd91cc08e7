import ClassAccess.Proofs.Outcome
import ClassAccess.Proofs.Structured.Told
import ClassAccess.Proofs.TransformSet.Codec
import ClassAccess.Proofs.TransformSet.Lines
import ClassAccess.TransformSet.Structured

/-!
# Transform sets read back from structured values

In a structured value a method has one name, its signature as a text. So the signature has to be
found in that text again: its descriptor must start at the first parenthesis.

* `Signature.Spelled` -- whether it does; `TransformSet.Spelled` -- the same for every method that a
  set stores a request for;
* `Listing.ofList_entries`, `mem_entries_ofList` -- the entries of a listing make up the listing,
  and a listing has no other entries than it was made of;
* `Transform.ofValue_value`, `ClassTransforms.ofValue_value` -- a request and all the requests for a
  class are read back, with those for nothing;
* `spelled_ofValue` -- **what is read from a value is spelled**;
* `spelled_ofText` -- so is what is read from directives;
* `ofValue_value_iff` -- **exactly the sets that are spelled are read back**, entry for entry.
-/

namespace ClassAccess

/-! ## 1. Signatures -/

/-- Whether the text of a signature spells it: no parenthesis stands in front of the descriptor, and
    one stands at its start. -/
def Signature.Spelled (m : Signature) : Prop :=
  '(' ∉ m.name.toList ∧ m.descriptor.toList.head? = some '('

namespace Signature

/-- **A text that is cut at its first parenthesis spells what it is cut into.** -/
theorem spelled_span {text : List Char} (h : text.dropWhile (· ≠ '(') ≠ []) :
    Spelled ⟨String.ofList (text.takeWhile (· ≠ '(')),
      String.ofList (text.dropWhile (· ≠ '('))⟩ := by
  have hname : '(' ∉ text.takeWhile (· ≠ '(') := by
    intro hc
    simpa using List.mem_takeWhile_imp hc
  have hhead := List.head?_dropWhile_not (· ≠ '(') text
  refine ⟨by rwa [String.toList_ofList], ?_⟩
  rw [String.toList_ofList]
  cases hrest : text.dropWhile (· ≠ '(') with
  | nil => exact absurd hrest h
  | cons c rest =>
      rw [hrest] at hhead
      simpa using hhead

theorem join_pieces (m : Signature) : String.join m.pieces = m.text := by
  rw [pieces, String.join, List.foldl_cons, List.foldl_cons, List.foldl_nil, String.empty_append,
    text]

theorem ofText?_text {m : Signature} (h : m.Spelled) : ofText? m.text = some m := by
  have hspan := Target.span_append h.1 (.inr h.2)
  have hne : m.descriptor.toList ≠ [] := by
    intro hnil
    rw [Spelled, hnil] at h
    cases h.2
  unfold ofText?
  rw [text, String.toList_append, hspan]
  split
  · rename_i heq
    exact absurd (Prod.mk.inj heq).2 hne
  · rename_i heq
    obtain ⟨hname, hdescriptor⟩ := Prod.mk.inj heq
    rw [← hname, ← hdescriptor, String.ofList_toList, String.ofList_toList]

theorem spelled_of_ofText? {text : String} {m : Signature} (h : ofText? text = some m) :
    m.Spelled := by
  unfold ofText? at h
  rw [List.span_eq_takeWhile_dropWhile] at h
  split at h
  · cases h
  · rename_i hne heq
    obtain ⟨hname, hdescriptor⟩ := Prod.mk.inj heq
    cases h
    rw [← hname, ← hdescriptor]
    exact spelled_span fun hnil => hne (hdescriptor ▸ hnil)

end Signature

/-- A word for a method spells its signature. -/
theorem Target.spelled_of_ofWord {word : List Char} {m : Signature} (h : ofWord word = .method m) :
    m.Spelled := by
  unfold ofWord at h
  rw [List.span_eq_takeWhile_dropWhile] at h
  simp only at h
  split at h
  · split at h <;> cases h
  · rename_i hne
    split at h
    · cases h
    · cases h
      exact Signature.spelled_span fun hnil => hne (List.isEmpty_iff.2 hnil)

/-! ## 2. Listings -/

namespace Listing

variable {κ ν : Type} [Ord κ] [Std.TransOrd κ]

/-- A key behind all others gets the last place. -/
theorem upsert_of_lt {k : κ} (f : Option ν → ν) {l : List (κ × ν)}
    (h : ∀ e ∈ l, compare e.1 k = .lt) : upsert k f l = l ++ [(k, f none)] := by
  induction l with
  | nil => rfl
  | cons e l ih =>
      obtain ⟨he, hl⟩ := List.forall_mem_cons.1 h
      rw [upsert, Std.OrientedCmp.gt_of_lt he]
      simp only
      rw [ih hl, List.cons_append]

theorem entries_foldl_insert {entries : List (κ × ν)} {l : Listing κ ν}
    (h : (l.entries ++ entries).Pairwise fun a b => compare a.1 b.1 = .lt) :
    (entries.foldl (fun l e => l.insert e.1 e.2) l).entries = l.entries ++ entries := by
  induction entries generalizing l with
  | nil => exact (List.append_nil _).symm
  | cons e entries ih =>
      have hlt : ∀ e' ∈ l.entries, compare e'.1 e.1 = .lt := fun e' he' =>
        (List.pairwise_append.1 h).2.2 e' he' e List.mem_cons_self
      have hinsert : (l.insert e.1 e.2).entries = l.entries ++ [e] := upsert_of_lt _ hlt
      have happend : l.entries ++ e :: entries = (l.insert e.1 e.2).entries ++ entries := by
        rw [hinsert, List.append_assoc, List.singleton_append]
      rw [happend] at h ⊢
      exact ih h

/-- **The entries of a listing make up the listing.** -/
theorem ofList_entries (l : Listing κ ν) : ofList l.entries = l := by
  have hentries : (ofList l.entries).entries = l.entries := entries_foldl_insert l.ascending
  generalize ofList l.entries = l' at hentries
  cases l
  cases l'
  cases hentries
  rfl

/-- **A listing has no other entries than it is made of.** -/
theorem mem_entries_ofList [Std.LawfulEqOrd κ] {entries : List (κ × ν)} {e : κ × ν}
    (h : e ∈ (ofList entries).entries) : e ∈ entries := by
  obtain ⟨k, v⟩ := e
  have hfold : ∀ (entries : List (κ × ν)) (l : Listing κ ν),
      (k, v) ∈ (entries.foldl (fun l e => l.insert e.1 e.2) l).entries →
        (k, v) ∈ l.entries ∨ (k, v) ∈ entries := by
    intro entries
    induction entries with
    | nil => exact fun l he => .inl he
    | cons e' entries ih =>
        intro l he
        rcases ih (l.insert e'.1 e'.2) he with he | he
        · rw [mem_entries_iff, Listing.insert, get?_update] at he
          split at he
          · rename_i hk
            have heq : (k, v) = e' := Prod.ext (Std.LawfulEqCmp.eq_of_compare hk)
              (Option.some_inj.1 he).symm
            exact .inr (heq ▸ List.mem_cons_self)
          · exact .inl (mem_entries_iff.2 he)
        · exact .inr (List.mem_cons_of_mem _ he)
  exact (hfold entries ∅ h).resolve_left List.not_mem_nil

theorem exists_mem_of_mem_keys_ofList [Std.LawfulEqOrd κ] {entries : List (κ × ν)} {k : κ}
    (h : k ∈ (ofList entries).keys) : ∃ v, (k, v) ∈ entries := by
  obtain ⟨e, he, rfl⟩ := List.mem_map.1 h
  exact ⟨e.2, mem_entries_ofList he⟩

end Listing

/-! ## 3. Records -/

namespace LoadFault

variable {κ ν : Type} {key : String → Except LoadFault κ} {value : Value → Except LoadFault ν}

/-- **A record is read name by name**, and what was told of the entries of a row is read back, if
    the name and the value of every entry are. -/
theorem entries_record_map {l : List (κ × ν)} (name : κ → String) (told : ν → Value)
    (hkey : ∀ e ∈ l, key (name e.1) = .ok e.1) (hvalue : ∀ e ∈ l, value (told e.2) = .ok e.2) :
    entries key value (.record (l.map fun e => (name e.1, told e.2))) = .ok l := by
  rw [entries, Outcome.mapM_eq_ok_iff, List.forall₂_map_left_iff, List.forall₂_same]
  intro e he
  rw [hkey e he, hvalue e he]
  rfl

/-- What is read from a record has been read from one of its names and values. -/
theorem exists_of_mem_entries {v : Value} {es : List (κ × ν)} (h : entries key value v = .ok es)
    {e : κ × ν} (he : e ∈ es) :
    ∃ name v', key name = .ok e.1 ∧ value v' = .ok e.2 := by
  unfold entries at h
  split at h
  · obtain ⟨field, -, hfield⟩ :=
      Outcome.exists_of_forall₂_right (Outcome.mapM_eq_ok_iff.1 h) he
    obtain ⟨k, hk, hfield⟩ := Outcome.exists_of_bind_ok hfield
    obtain ⟨w, hw, hfield⟩ := Outcome.exists_of_bind_ok hfield
    cases hfield
    exact ⟨field.1, field.2, hk, hw⟩
  · cases h

end LoadFault

theorem Transform.ofValue_value (t : Transform) : ofValue t.toTold.value = .ok t := by
  obtain ⟨visibility, finality⟩ := t
  cases visibility <;> cases finality <;> rfl

/-! ## 4. One class -/

namespace ClassTransforms

/-- Whether the text of every method that a request is stored for spells it. -/
def Spelled (c : ClassTransforms) : Prop := ∀ m ∈ c.methods.keys, m.Spelled

variable {c c' : ClassTransforms}

/-- Reads one part of what is told. -/
def readTold (c : ClassTransforms) (part : List String × Told) : Except LoadFault ClassTransforms :=
  readPart c (String.join part.1, part.2.value)

/-- A part that was left out was for nothing, so it makes no difference. -/
theorem foldlM_namedTold {name : String} {t : Transform}
    (hread : readTold c ([name], t.toTold) = .ok c') (hnone : t = .none → c' = c) :
    (t.namedTold name).foldlM readTold c = .ok c' := by
  unfold Transform.namedTold
  split
  · rename_i h
    rw [hnone (Transform.isNone_iff.1 h)]
    rfl
  · rw [List.foldlM_cons, hread]
    rfl

theorem foldlM_namedRecord {name : String} {fields : List (List String × Told)}
    (hread : readTold c ([name], .record fields) = .ok c') (hempty : fields = [] → c' = c) :
    (namedRecord name fields).foldlM readTold c = .ok c' := by
  unfold namedRecord
  split
  · rename_i h
    rw [hempty (List.isEmpty_iff.1 h)]
    rfl
  · rw [List.foldlM_cons, hread]
    rfl

theorem foldlM_append_ok {parts parts' : List (List String × Told)} {c'' : ClassTransforms}
    (h : parts.foldlM readTold c = .ok c') (h' : parts'.foldlM readTold c' = .ok c'') :
    (parts ++ parts').foldlM readTold c = .ok c'' := by
  rw [List.foldlM_append, h]
  exact h'

/-- What is made of a request is made of the one that is read back. -/
theorem bind_ofValue_value (f : Transform → ClassTransforms) (t : Transform) :
    (Transform.ofValue t.toTold.value >>= fun t => Except.ok (f t)) = .ok (f t) := by
  rw [Transform.ofValue_value]
  rfl

/-- What is made of a row of requests is made of the row that is read back, if its keys are found in
    their names. -/
theorem bind_entries {κ : Type} [Ord κ] [Std.TransOrd κ] {key : String → Except LoadFault κ}
    {l : Listing κ Transform} (f : Listing κ Transform → ClassTransforms)
    (pieces : κ → List String) (h : ∀ k ∈ l.keys, key (String.join (pieces k)) = .ok k) :
    (LoadFault.entries key Transform.ofValue
        (Told.value (.record (l.entries.map fun e => (pieces e.1, e.2.toTold)))) >>= fun es =>
      Except.ok (f (Listing.ofList es))) = .ok (f l) := by
  rw [Told.value_record, List.map_map]
  have hread : LoadFault.entries key Transform.ofValue
      (.record (l.entries.map fun e => (String.join (pieces e.1), e.2.toTold.value))) =
        .ok l.entries :=
    LoadFault.entries_record_map (fun k => String.join (pieces k)) (fun t => t.toTold.value)
      (fun _ he => h _ (List.mem_map_of_mem he)) fun e _ => Transform.ofValue_value e.2
  refine (congrArg (· >>= _) hread).trans ?_
  show Except.ok (f (Listing.ofList l.entries)) = _
  rw [Listing.ofList_entries]

variable (c)

theorem readTold_class (t : Transform) :
    readTold c (["class"], t.toTold) = .ok { c with self := t } :=
  bind_ofValue_value (fun t => { c with self := t }) t

theorem readTold_allFields (t : Transform) :
    readTold c (["all_fields"], t.toTold) = .ok { c with allFields := t } :=
  bind_ofValue_value (fun t => { c with allFields := t }) t

theorem readTold_allMethods (t : Transform) :
    readTold c (["all_methods"], t.toTold) = .ok { c with allMethods := t } :=
  bind_ofValue_value (fun t => { c with allMethods := t }) t

theorem readTold_fields (l : Listing String Transform) :
    readTold c (["fields"], .record (l.entries.map fun e => ([e.1], e.2.toTold))) =
      .ok { c with fields := l } :=
  bind_entries (fun l => { c with fields := l }) (fun name => [name])
    fun name _ => congrArg Except.ok (Told.join_singleton name)

theorem readTold_methods {l : Listing Signature Transform} (h : ∀ m ∈ l.keys, m.Spelled) :
    readTold c (["methods"], .record (l.entries.map fun e => (e.1.pieces, e.2.toTold))) =
      .ok { c with methods := l } :=
  bind_entries (fun l => { c with methods := l }) Signature.pieces
    fun m hm => by rw [Signature.join_pieces, Signature.ofText?_text (h m hm)]

variable {c}

/-- **The requests for a class are read back**, if their methods are spelled. -/
theorem ofValue_value (h : c.Spelled) : ofValue c.toTold.value = .ok c := by
  have hempty : ∀ {κ : Type} [Ord κ] {l : Listing κ Transform} (pieces : κ → List String),
      l.entries.map (fun e => (pieces e.1, e.2.toTold)) = [] → l = ∅ := by
    intro κ _ l pieces hl
    cases l
    cases List.map_eq_nil_iff.1 hl
    rfl
  have hclass := foldlM_namedTold (readTold_class {} c.self) fun hnone => by rw [hnone]; rfl
  have hallFields := foldlM_namedTold (readTold_allFields { self := c.self } c.allFields)
    fun hnone => by rw [hnone]; rfl
  have hallMethods := foldlM_namedTold
    (readTold_allMethods { self := c.self, allFields := c.allFields } c.allMethods)
    fun hnone => by rw [hnone]; rfl
  have hfields := foldlM_namedRecord
    (readTold_fields
      { self := c.self, allFields := c.allFields, allMethods := c.allMethods } c.fields)
    fun hnil => by rw [hempty (fun name => [name]) hnil]
  have hmethods := foldlM_namedRecord (readTold_methods { c with methods := ∅ } h)
    fun hnil => by rw [hempty Signature.pieces hnil]
  have hparts : c.toldParts.foldlM readTold {} = .ok c := foldlM_append_ok (foldlM_append_ok
    (foldlM_append_ok (foldlM_append_ok hclass hallFields) hallMethods) hfields) hmethods
  rw [toTold, Told.value_record]
  show (List.foldlM readPart {} (List.map _ c.toldParts) >>= fun c' => .ok c') = _
  rw [List.foldlM_map]
  exact (congrArg (· >>= _) hparts).trans rfl

/-! ## 5. What is read is spelled -/

/-- What is made of something that was read is spelled, if it is so whatever was read. -/
theorem Spelled.of_bind {α : Type} {x : Except LoadFault α} {f : α → ClassTransforms}
    (hread : (x >>= fun a => Except.ok (f a)) = .ok c') (h : ∀ a, x = .ok a → (f a).Spelled) :
    c'.Spelled := by
  obtain ⟨a, ha, hread⟩ := Outcome.exists_of_bind_ok hread
  cases hread
  exact h a ha

/-- Only the part for single methods tells signatures, and each of them is found in a text. -/
theorem spelled_readPart (h : c.Spelled) {part : String × Value}
    (hread : readPart c part = .ok c') : c'.Spelled := by
  unfold readPart at hread
  split at hread
  · exact .of_bind hread fun _ _ => h
  split at hread
  · exact .of_bind hread fun _ _ => h
  split at hread
  · exact .of_bind hread fun _ _ => h
  split at hread
  · exact .of_bind hread fun _ _ => h
  split at hread
  · refine .of_bind hread fun es hes m hm => ?_
    obtain ⟨t, ht⟩ := Listing.exists_mem_of_mem_keys_ofList hm
    obtain ⟨text, -, hkey, -⟩ := LoadFault.exists_of_mem_entries hes ht
    split at hkey
    · rename_i hsignature
      cases hkey
      exact Signature.spelled_of_ofText? hsignature
    · cases hkey
  · cases hread
    exact h

theorem spelled_foldlM {parts : List (String × Value)} (h : c.Spelled)
    (hread : parts.foldlM readPart c = .ok c') : c'.Spelled := by
  induction parts generalizing c with
  | nil =>
      cases hread
      exact h
  | cons part parts ih =>
      rw [List.foldlM_cons] at hread
      obtain ⟨next, hpart, hrest⟩ := Outcome.exists_of_bind_ok hread
      exact ih (spelled_readPart h hpart) hrest

theorem spelled_ofValue {v : Value} (h : ofValue v = .ok c) : c.Spelled := by
  obtain ⟨parts, -, h⟩ := Outcome.exists_of_bind_ok h
  obtain ⟨next, hparts, h⟩ := Outcome.exists_of_bind_ok h
  have hnext : next.Spelled := spelled_foldlM (fun _ hm => absurd hm List.not_mem_nil) hparts
  split at h
  · cases h
  · cases h
    exact hnext

end ClassTransforms

namespace TransformSet

/-- **Whether the text of every method that a request is stored for spells it**, also of one that a
    request for nothing is stored for. -/
def Spelled (s : TransformSet) : Prop := ∀ e ∈ s.classes.entries, e.2.Spelled

variable {s : TransformSet}

/-- **What is read from a value is spelled.** -/
theorem spelled_ofValue {v : Value} (h : ofValue v = .ok s) : s.Spelled := by
  obtain ⟨es, hes, h⟩ := Outcome.exists_of_bind_ok h
  cases h
  intro e he
  obtain ⟨name, v', -, hclass⟩ :=
    LoadFault.exists_of_mem_entries hes (Listing.mem_entries_ofList he)
  exact ClassTransforms.spelled_ofValue hclass

/-- **A set that is spelled is read back.** -/
theorem Spelled.ofValue_value (h : s.Spelled) : ofValue s.value = .ok s := by
  have hread : LoadFault.entries .ok ClassTransforms.ofValue
      (.record (s.classes.entries.map fun e => (String.join [e.1], e.2.toTold.value))) =
        .ok s.classes.entries :=
    LoadFault.entries_record_map (fun name => String.join [name]) (fun c => c.toTold.value)
      (fun e _ => congrArg Except.ok (Told.join_singleton e.1))
      fun e he => ClassTransforms.ofValue_value (h e he)
  rw [value, toTold, Told.value_record, List.map_map]
  refine (congrArg (· >>= _) hread).trans ?_
  show Except.ok (TransformSet.mk (Listing.ofList s.classes.entries)) = _
  rw [Listing.ofList_entries]

/-- A line spells the method that its request is for. -/
theorem spelled_of_mem_lineRequests {line : List Char} {r : String × Target × Transform}
    (hr : r ∈ lineRequests line) {m : Signature} (hm : r.2.1 = .method m) : m.Spelled := by
  unfold lineRequests DirectiveLine.ofChars at hr
  split at hr
  · cases hr
  · cases List.mem_singleton.1 hr
    cases hm
  · cases List.mem_singleton.1 hr
    exact Target.spelled_of_ofWord hm
  · cases hr

/-- **What is read from directives is spelled.** -/
theorem spelled_ofText (text : String) : (ofText text).Spelled := by
  intro e he m hm
  rw [← get_of_mem_entries he, Listing.mem_keys_iff] at hm
  have hstored : (((ofText text).get e.1).stored? (.method m)).isSome = true := hm
  rw [ofText, readText_eq_askAll, isSome_stored?_askAll] at hstored
  rcases hstored with hnone | ⟨r, hr, -, htarget⟩
  · cases hnone
  · obtain ⟨line, -, hline⟩ := List.mem_flatMap.1 hr
    exact spelled_of_mem_lineRequests hline htarget

end TransformSet

end ClassAccess
