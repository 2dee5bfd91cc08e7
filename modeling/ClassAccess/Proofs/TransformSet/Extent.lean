import ClassAccess.Proofs.ClassFile.Extent
import ClassAccess.Proofs.TransformSet.Rule

/-!
# What stands behind a class

Bytes behind a class are not looked at, by reading or by a revision, and a revision keeps them.

* `Draft.bytes_append` -- what is patched keeps to the class, and what is added is added to its
  pool;
* `Layout.revise_append` -- **a revision of a class with bytes behind it** is the revision of the
  class, with the same bytes behind it, or the same fault;
* `TransformSet.transform_extent` -- **reading and applying a set depend only on the bytes of the
  class**.
-/

namespace ClassAccess

open Outcome

namespace Layout

variable {data : Bytes} {l : Layout} {told : List Event} {d : Draft}

/-! ## 1. Revisions -/

/-- **Patches keep to the class.** -/
theorem Revised.applyAll_append (h : l.Revised told d) (tail : Bytes) :
    Patch.applyAll d.patches (l.data ++ tail) = Patch.applyAll d.patches l.data ++ tail := by
  have hquiet : (Patch.edit d.patches).Quiet (0 + l.data.length)
      (0 + l.data.length + tail.length) := by
    intro i hlo _
    refine h.fit.quiet fun s hs hc => ?_
    have hfin := (h.sound.bounds s hs).2
    have hlt := hc.2
    omega
  rw [Patch.applyAll_eq, Patch.applyAll_eq, Edit.apply_append, hquiet.apply_eq]

/-- What is made of a class with bytes behind it, if the patches keep to the class. -/
theorem Draft.bytes_append {tail : Bytes} (hfront : 10 ≤ l.poolEnd)
    (hend : l.poolEnd ≤ l.data.length)
    (hpatches : Patch.applyAll d.patches (l.data ++ tail) =
      Patch.applyAll d.patches l.data ++ tail) :
    d.bytes { l with data := l.data ++ tail } = (· ++ tail) <$> d.bytes l := by
  have hlen : l.poolEnd ≤ (Patch.applyAll d.patches l.data).length := by
    rw [Patch.applyAll_eq, Edit.length_apply]
    exact hend
  rw [Draft.bytes_eq, Draft.bytes_eq]
  simp only [hpatches]
  by_cases hadded : d.pool.count - l.pool.count = 0
  · rw [if_pos hadded, if_pos hadded]
    rfl
  · rw [if_neg hadded, if_neg hadded]
    cases d.pool.bytesFrom l.pool.count with
    | error fault => rfl
    | ok constants =>
        refine congrArg Except.ok ?_
        rw [List.take_append_of_le_length (by omega), List.take_append_of_le_length hlen,
          List.drop_append_of_le_length hlen, ← List.append_assoc]

/-- **A revision of a class with bytes behind it.** -/
theorem revise_append (h : ofBytes data = .ok l) {events : List Event}
    (hk : events.map Event.kind = l.events.map Event.kind) (tail : Bytes) :
    ({ l with data := l.data ++ tail } : Layout).revise events =
      (· ++ tail) <$> l.revise events := by
  obtain ⟨told, rfl, hkt⟩ := exists_told hk
  rw [revise_eq l hkt, revise_eq { l with data := l.data ++ tail } hkt]
  have hdraft : l.draft.applyAll (Spot.changesAll l.spots told) =
      (draft { l with data := l.data ++ tail }).applyAll
        (Spot.changesAll (spots { l with data := l.data ++ tail }) told) := rfl
  rw [← hdraft]
  cases hd : l.draft.applyAll (Spot.changesAll l.spots told) with
  | error fault => rfl
  | ok d =>
      have hr := revised_of_applyAll h hkt hd
      exact Draft.bytes_append hr.sound.front (poolEnd_le h) (hr.applyAll_append tail)

end Layout

/-! ## 2. Sets -/

namespace TransformSet

variable {data : Bytes} {l : Layout}

theorem transform_append (s : TransformSet) (h : Layout.ofBytes data = .ok l) {tail : Bytes}
    (htail : Layout.ofBytes (data ++ tail) = .ok { l with data := data ++ tail }) :
    s.transform (data ++ tail) = (· ++ tail) <$> s.transform data := by
  obtain ⟨_, _, _, _, -, -, -, hdata⟩ := Layout.ofBytes_ok h
  rw [transform_eq s htail, transform_eq s h, ← hdata]
  exact Layout.revise_append h (s.kinds_rule l.name l.events) tail

/-- **Reading and applying a set depend only on the bytes of the class.** A class file that can be
    read has a front, of `n` bytes, that is the class. From any front as long, and from the file
    with anything behind it, the same is read; any front shorter than that ends too early, and that
    is its only fault. What a set makes of the file it makes of it with a tail, and the tail stays
    behind; where the set cannot be applied, it cannot be with a tail, and the fault is the same. -/
theorem transform_extent (h : Layout.ofBytes data = .ok l) : ∃ n ≤ data.length,
    (∀ m, n ≤ m → Layout.ofBytes (data.take m) = .ok { l with data := data.take m }) ∧
      (∀ m < n, ∃ offset, Layout.ofBytes (data.take m) = .error (.unexpectedEnd offset)) ∧
      ∀ tail, Layout.ofBytes (data ++ tail) = .ok { l with data := data ++ tail } ∧
        ∀ s : TransformSet, s.transform (data ++ tail) = (· ++ tail) <$> s.transform data := by
  obtain ⟨x, rest, hx, hagain, hshort⟩ := Layout.ofBytes_extent h
  have htail : ∀ tail, Layout.ofBytes (data ++ tail) = .ok { l with data := data ++ tail } := by
    intro tail
    rw [hx, List.append_assoc]
    exact hagain (rest ++ tail)
  refine ⟨x.length, ?_, fun m hm => ?_, fun m hm => ?_, fun tail => ⟨htail tail, fun s => ?_⟩⟩
  · rw [hx, List.length_append]
    exact Nat.le_add_right _ _
  · rw [hx, List.take_append, List.take_of_length_le hm]
    exact hagain _
  · rw [hx, List.take_append_of_le_length (Nat.le_of_lt hm)]
    exact hshort m hm
  · exact transform_append s h (htail tail)

/-- Of the class with two calls that share a row no byte can be missing, and there may be others
    behind it. -/
theorem transform_extent_sharedRow : ∃ l, Layout.ofBytes Layout.sharedRow = .ok l ∧
    (∀ m < Layout.sharedRow.length, ∃ offset,
      Layout.ofBytes (Layout.sharedRow.take m) = .error (.unexpectedEnd offset)) ∧
    ∃ out, publicShared.transform Layout.sharedRow = .ok out ∧
      publicShared.transform (Layout.sharedRow ++ [0xCA, 0xFE]) = .ok (out ++ [0xCA, 0xFE]) := by
  obtain ⟨l, -, hl, -⟩ := Layout.exists_revise_sharedRow
  obtain ⟨n, hn, hlong, hshort, htail⟩ := transform_extent hl
  have hlast : Layout.ofBytes (Layout.sharedRow.take (Layout.sharedRow.length - 1)) ≠
      .ok { l with data := Layout.sharedRow.take (Layout.sharedRow.length - 1) } := by
    intro hok
    have hfails : (Layout.ofBytes
      (Layout.sharedRow.take (Layout.sharedRow.length - 1))).isOk = false := by decide +kernel
    rw [hok] at hfails
    cases hfails
  have hpos : 0 < Layout.sharedRow.length := by decide +kernel
  have hlong : ¬ n ≤ Layout.sharedRow.length - 1 := fun hle => hlast (hlong _ hle)
  have hall : n = Layout.sharedRow.length := by omega
  obtain ⟨out, hout⟩ := exists_transform_sharedRow
  refine ⟨l, hl, hall ▸ hshort, out, hout, ?_⟩
  rw [(htail [0xCA, 0xFE]).2 publicShared, hout]
  rfl

end TransformSet

end ClassAccess
