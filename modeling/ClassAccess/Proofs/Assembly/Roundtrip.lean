import ClassAccess.Proofs.Assembly.Calls
import ClassAccess.Proofs.ClassFile.Rereading

/-!
# What was assembled is read back

A class is assembled by any sequence of requests, and written. Reading the file gives the events
that the requests tell, and nothing else.

* `attributeNames_ok` -- the names of attributes are added last, and lead where they are needed;
* `takes_preamble` -- what stands in front of the tables is read as the version and the pool;
* `Assembly.exists_ofBytes` -- the file can be read, and gives the parts that were declared;
* `Assembly.events_of_bytes` -- **the events of the file are those that its history tells**.

The proof follows the file from front to back: the pool as it is after the last names were added
has all that the tables say, since pools only grow.
-/

namespace ClassAccess.Assembly

open Outcome ConstantPool Interning Reading Instruction

variable {access : AccessFlags} {name : String} {superName : Option String} {h : History}
  {a : Assembly} {pool pool' : ConstantPool}

/-! ## 1. Names of attributes -/

theorem text_of_text? {index : UInt16} {value : String}
    (ht : pool.text? index = .ok (some value)) : pool.text index = .ok value := by
  unfold ConstantPool.text? at ht
  split at ht
  · cases ht
  · obtain ⟨v, hv, hsome⟩ := exists_of_map_ok ht
    cases hsome
    exact hv

/-- **The names of attributes are added last**, and lead where they are needed. -/
theorem attributeNames_ok {t : Tables} {names : AttributeNames} (hp : pool.Healthy)
    (hok : attributeNames t pool = .ok names pool') :
    Grown Constant.isPlain pool pool' ∧ names.Lead pool' t := by
  obtain ⟨code, pool₁, hcode, hok⟩ := bind_ok_iff.1 hok
  obtain ⟨innerClasses, pool₂, hinner, hok⟩ := bind_ok_iff.1 hok
  obtain ⟨bootstrapMethods, pool₃, hboot, hok⟩ := bind_ok_iff.1 hok
  cases hok
  have hgrown₁ := (keeps_text? _).1 _ _ _ hcode
  have hgrown₂ := (keeps_text? _).1 _ _ _ hinner
  have hgrown₃ := (keeps_text? _).1 _ _ _ hboot
  have hp₁ := hgrown₁.healthy hp
  have hp₂ := hgrown₂.healthy hp₁
  refine ⟨hgrown₁.trans (hgrown₂.trans hgrown₃), fun hany => ?_, fun hsome => ?_, fun hsome => ?_⟩
  · rw [if_pos hany] at hcode
    exact (hgrown₂.trans hgrown₃).within.text (text_of_text? (text?_ok hp hcode))
  · rw [hsome, if_neg Bool.false_ne_true] at hinner
    exact hgrown₃.within.text (text_of_text? (text?_ok hp₁ hinner))
  · rw [hsome, if_neg Bool.false_ne_true] at hboot
    exact text_of_text? (text?_ok hp₂ hboot)

/-! ## 2. The file -/

theorem bytes_ok {data : Bytes} (hdata : a.bytes = .ok data) :
    ∃ names pool constants rest, attributeNames a.tables a.pool = .ok names pool ∧
      pool.bytesFrom 1 = .ok constants ∧ tablesBytes names a.tables = .ok rest ∧
        data = BigEndian.bytes32 Layout.magic ++ (BigEndian.bytes16 a.tables.version.minor ++
          (BigEndian.bytes16 a.tables.version.major ++
            ((BigEndian.bytes16 pool.count.toUInt16 ++ constants) ++ rest))) := by
  unfold Assembly.bytes at hdata
  split at hdata
  · cases hdata
  · rename_i names pool hnames
    obtain ⟨constants, hconstants, hdata⟩ := exists_of_bind_ok hdata
    obtain ⟨rest, hrest, hdata⟩ := exists_of_bind_ok hdata
    cases hdata
    exact ⟨names, pool, constants, rest, hnames, hconstants, hrest, by
      simp only [List.append_assoc]⟩

/-- What stands in front of the tables. -/
theorem takes_preamble (version : Version) {constants : Bytes}
    (hgrown : Grown Constant.isEntry {} pool) (hconstants : pool.bytesFrom 1 = .ok constants) :
    Takes Layout.preamble (BigEndian.bytes32 Layout.magic ++
      (BigEndian.bytes16 version.minor ++ (BigEndian.bytes16 version.major ++
        (BigEndian.bytes16 pool.count.toUInt16 ++ constants)))) fun x =>
          x.1 = version ∧ x.2.1 = pool := by
  have hlaid := hgrown.laidOut laidOut_empty
  have hroom := (hgrown.healthy healthy_empty).bounded
  have hpool := ConstantPool.takes_reading hlaid hroom hconstants
  refine Takes.word32_bind ?_
  rw [if_neg (not_not_intro rfl)]
  refine Takes.word16_bind (Takes.word16_bind ?_)
  rw [← List.append_nil (BigEndian.bytes16 pool.count.toUInt16 ++ constants)]
  exact hpool.bind fun found hfound => Takes.offset_bind fun o => takes_pure ⟨rfl, hfound⟩

/-! ## 3. The events of the file -/

/-- What is expected of bodies goes on to hold. -/
theorem sound_mono {forms : Bytes → List Form} (hsound : h.Sound forms pool)
    (hp : pool.Within pool') : h.Sound forms pool' := by
  refine ⟨hsound.assembled, hsound.direct, fun body hbody operands hform => ?_⟩
  obtain ⟨bootstrap, name, descriptor, index, rest, row, handle, hr, hoperands, hrow, hhandle,
    harguments⟩ := hsound.dynamic body hbody operands hform
  refine ⟨bootstrap, name, descriptor, index, rest, row, handle, hr, hoperands, hrow, hhandle,
    fun i hi => ?_⟩
  obtain ⟨c, hc⟩ := harguments i hi
  exact ⟨c, hp.get hc⟩

/-- **The parts that were declared say the events of the history**, once their calls are looked
    up. -/
theorem events_of_parts {forms : Bytes → List Form} {parts : Parts} {data : Bytes} {poolEnd : Nat}
    (ha : Records access name superName h a) (hsound : h.Sound forms a.pool)
    (hparts : PartsOf access name superName h.declared forms parts) :
    ∃ methods, parts.methods.mapM (Layout.resolveMethod a.pool (parts.tables.flatMap Prod.snd)) =
        .ok methods ∧
      (Layout.make data a.pool poolEnd parts methods).events =
        h.events forms access name superName := by
  have htells : List.Forall₂ (fun q events => ∃ l,
      Layout.resolveMethod a.pool (parts.tables.flatMap Prod.snd) q = .ok l ∧ l.events = events)
      parts.methods (h.declared.methods.map (h.methodEvents forms)) := by
    rw [List.forall₂_map_right_iff]
    refine (forall₂_mem hparts.methods).flip.imp fun q m ⟨hm, _, hvalue, start, hcalls⟩ => ?_
    exact resolveMethod_of_parts ha hsound hparts.tables.bootstraps hm hvalue hcalls
  obtain ⟨methods, hmethods, hevents⟩ := exists_mapM_ok htells
  refine ⟨methods, hmethods, ?_⟩
  have hinner := map_eq_of_forall₂ hparts.tables.innerClasses
  simp only [Layout.events, Layout.make, History.events, hparts.header, ← hinner, ← hparts.fields,
    List.map_map, List.flatMap_def, hevents]
  rfl

/-- **The file that was written can be read**, and its events are those of the history. -/
theorem exists_ofBytes {data : Bytes} {forms : Bytes → List Form}
    (ha : Records access name superName h a) (hsound : h.Sound forms a.pool)
    (hdata : a.bytes = .ok data) :
    ∃ l, Layout.ofBytes data = .ok l ∧ l.events = h.events forms access name superName := by
  obtain ⟨names, pool, constants, rest, hnames, hconstants, hrest, rfl⟩ := bytes_ok hdata
  obtain ⟨hgrown, hlead⟩ := attributeNames_ok ha.healthy hnames
  have ha' : Records access name superName h ⟨pool, a.tables⟩ := ha.idle ⟨rfl, hgrown⟩
  have hforms : ∀ m ∈ h.declared.methods, ∀ b ∈ m.2,
      codeOf (forms b.code) = b.code ∧ Assembled 0 (forms b.code) := by
    rintro ⟨declaration, _⟩ hm b rfl
    exact hsound.assembled b ⟨declaration, hm⟩
  obtain ⟨⟨version, found, poolEnd⟩, hpreamble, hversion, hfound⟩ :=
    takes_preamble a.tables.version ha'.grown hconstants 0 rest
  simp only at hversion hfound
  subst hversion hfound
  obtain ⟨parts, hparts, hsays⟩ := takes_parts ha'.tabled hlead hforms hrest _ []
  rw [List.append_nil] at hparts
  obtain ⟨methods, hmethods, hevents⟩ :=
    events_of_parts ha' (sound_mono hsound hgrown.within) hsays
  refine ⟨_, Layout.ofBytes_of_parts ?_ hparts hmethods, hevents⟩
  simpa only [List.append_assoc] using hpreamble

/-- **What was assembled is read back.** A class that was assembled by any requests, some of which
    may have failed, is read from its file; the events of the file are those that the requests
    tell. -/
theorem events_of_bytes {empty : Assembly} {requests : List Request} {data : Bytes}
    {forms : Bytes → List Form} (hstart : start access name superName = .ok empty)
    (hrun : performAll requests empty = (h, a)) (hdata : a.bytes = .ok data)
    (hsound : h.Sound forms a.pool) :
    ∃ l, Layout.ofBytes data = .ok l ∧ l.events = h.events forms access name superName := by
  have ha := records_performAll requests (records_start hstart)
  rw [hrun, List.nil_append] at ha
  exact exists_ofBytes ha hsound hdata

/-- Requests for a class with one method, which calls itself, once directly and once by way of a
    bootstrap method. -/
def selfCalling : List Request :=
  [.methodReference ⟨"A", "m", "()V", false⟩,
    .methodHandle ⟨.invokeStatic, ⟨"A", "m", "()V", false⟩⟩, .methodType "()V",
    .addBootstrap 7 [8], .callSite 0 "m" "()V",
    .addMethod ⟨8, "m", "()V"⟩ (some ⟨0, 0, [0xB8, 0, 6, 0xBA, 0, 9, 0, 0, 0xB1]⟩)]

/-- The instructions of the method. -/
def selfCallingForms : List Form :=
  [.plain 0xB8 [0, 6], .plain 0xBA [0, 9, 0, 0], .plain 0xB1 []]

/-- The answers to the requests. -/
def selfCallingHistory : History := selfCalling.zip [6, 7, 8, 0, 9, 0]

theorem sound_selfCalling (hpool : pool.get 8 = .ok (.methodType 4)) :
    selfCallingHistory.Sound (fun _ => selfCallingForms) pool := by
  have hmethods : selfCallingHistory.declared.methods =
      [(⟨8, "m", "()V"⟩, some ⟨0, 0, [0xB8, 0, 6, 0xBA, 0, 9, 0, 0, 0xB1]⟩)] := rfl
  refine ⟨fun body hbody => ?_, fun body _ kind operands hform => ?_,
    fun body _ operands hform => ?_⟩
  · obtain ⟨declaration, hm⟩ := hbody
    rw [hmethods] at hm
    cases List.mem_singleton.1 hm
    have hstatic : operandCount? 0xB8 = some 2 := by decide
    have hdynamic : operandCount? 0xBA = some 4 := by decide
    have hreturn : operandCount? 0xB1 = some 0 := by decide
    exact ⟨rfl, .cons hstatic (.cons hdynamic (.cons hreturn .nil))⟩
  · have hoperands : operands = [0, 6] := by
      simp only [selfCallingForms, List.mem_cons, Form.plain.injEq, List.not_mem_nil,
        or_false] at hform
      rcases hform with ⟨-, rfl⟩ | ⟨hop, -⟩ | ⟨hop, -⟩
      · rfl
      · cases kind <;> cases hop
      · cases kind <;> cases hop
    exact ⟨_, 6, [], List.mem_cons_self, hoperands⟩
  · have hoperands : operands = [0, 9, 0, 0] := by
      simp only [selfCallingForms, List.mem_cons, Form.plain.injEq, List.not_mem_nil,
        or_false] at hform
      rcases hform with ⟨hop, -⟩ | ⟨-, rfl⟩ | ⟨hop, -⟩
      · cases hop
      · rfl
      · cases hop
    refine ⟨0, "m", "()V", 9, [0, 0], ⟨7, [8]⟩, ⟨.invokeStatic, ⟨"A", "m", "()V", false⟩⟩,
      by decide, hoperands, rfl, by decide, fun i hi => ?_⟩
    cases List.mem_singleton.1 hi
    exact ⟨_, hpool⟩

/-- The class of these requests is read back. -/
theorem events_of_bytes_selfCalling : ∃ empty a data l, start 1 "A" none = .ok empty ∧
    performAll selfCalling empty = (selfCallingHistory, a) ∧ a.bytes = .ok data ∧
      Layout.ofBytes data = .ok l ∧
        l.events = selfCallingHistory.events (fun _ => selfCallingForms) 1 "A" none := by
  have hrun : (do
      let empty ← start 1 "A" none
      let c ← (performAll selfCalling empty).2.pool.get 8
      let _ ← (performAll selfCalling empty).2.bytes
      return (c, (performAll selfCalling empty).1)) =
        .ok (.methodType 4, selfCallingHistory) := by decide +kernel
  obtain ⟨empty, hstart, hrun⟩ := exists_of_bind_ok hrun
  obtain ⟨c, hpool, hrun⟩ := exists_of_bind_ok hrun
  obtain ⟨data, hdata, hrun⟩ := exists_of_bind_ok hrun
  obtain ⟨rfl, hhistory⟩ := Prod.mk.inj (Except.ok.inj hrun)
  have hall : performAll selfCalling empty =
      (selfCallingHistory, (performAll selfCalling empty).2) := by rw [← hhistory]
  obtain ⟨l, hl, hevents⟩ := events_of_bytes hstart hall hdata (sound_selfCalling hpool)
  exact ⟨empty, _, data, l, hstart, hall, hdata, hl, hevents⟩

end ClassAccess.Assembly
