import Offside.Proofs.Execution.Scopes

/-!
# Reading fields

A dotted name starts at a variable and goes on from field to field.  It reads what is bound, so it
changes nothing as long as the fields are bound, whatever instances they lead through and however
often the same one (`Heap.Leads`).  The first field on the way that its instance lacks is bound to
the empty value, and the empty value has no fields.  So this field is the only one that the name
adds: either it is the last one, and the name gives the empty value, or the next one cannot be read.

The field that was added is not one of those that were passed before it, not even if the way comes
to its instance more than once: those were bound, and this one was not.  For that reason the name
takes the same way again, finds the new field bound, and ends as it did the first time
(`Run.execute_variable_settles`).

What a name does is settled by the fields that are bound: it goes on along them (`follow_of_leads`),
and where they lead to an instance without the next field, that field is bound
(`follow_of_leads_absent`).
-/

namespace Offside

/-! ## Fields that are bound -/

/-- Fields that are bound lead from a value to another one. -/
inductive Heap.Leads (heap : Heap) : Handle → List String → Handle → Prop
  | here (value : Handle) : Leads heap value [] value
  | field {value next target : Handle} {id : InstanceId} {name : String} {fields : List String}
      (hinstance : value.instance? = some id) (hbound : (heap.fields id).get? name = some next)
      (hrest : Leads heap next fields target) : Leads heap value (name :: fields) target

/-- A field of an instance that was not bound is bound to the empty value, behind the others, and
all else is as it was. -/
structure State.AddsField (before : State) (id : InstanceId) (field : String) (after : State) :
    Prop where
  absent : (before.heap.fields id).get? field = none
  added : (after.heap.fields id).entries = (before.heap.fields id).entries ++ [(field, .empty)]
  others : ∀ other, other ≠ id → after.heap.fields other = before.heap.fields other
  classes : ∀ other, after.heap.classOf? other = before.heap.classOf? other
  size : after.heap.instances.size = before.heap.instances.size
  made : after.heap.made = before.heap.made
  address : after.heap.address = before.heap.address
  scope : after.scope = before.scope
  output : after.output = before.output

/-- A name that is not bound yet is bound behind the others. -/
theorem Bindings.entries_set_of_get?_eq_none {α : Type} {bindings : Bindings α} {name : String}
    (h : bindings.get? name = none) (value : α) :
    (bindings.set name value).entries = bindings.entries ++ [(name, value)] := by
  obtain ⟨entries⟩ := bindings
  simp only [get?, set] at h ⊢
  induction entries with
  | nil => rfl
  | cons entry rest ih =>
      obtain ⟨bound, old⟩ := entry
      rw [find?] at h
      split at h
      · cases h
      · rename_i hne
        rw [replace, if_neg hne, ih h, List.cons_append]

/-- Binding a field of an instance that does not exist does nothing. -/
theorem Heap.setField_of_size_le {heap : Heap} {id : InstanceId}
    (h : heap.instances.size ≤ id) (name : String) (value : Handle) :
    heap.setField id name value = heap := by
  have hsame : heap.instances.modify id (fun target =>
      { target with fields := target.fields.set name value }) = heap.instances := by
    refine Array.ext_getElem? fun index => ?_
    rw [Array.getElem?_modify]
    split
    · rename_i heq
      rw [← heq, Array.getElem?_eq_none h, Option.map_none]
    · rfl
  rw [setField, hsame]

namespace State.AddsField

variable {before after : State} {id : InstanceId} {field : String}

/-- An instance that exists can be given the field that it lacks. -/
theorem of_absent (habsent : (before.heap.fields id).get? field = none)
    (hexists : id < before.heap.instances.size) :
    before.AddsField id field
      { before with heap := before.heap.setField id field .empty } where
  absent := habsent
  added := by
    rw [Heap.fields_setField _ _ _ _ hexists, if_pos rfl]
    exact Bindings.entries_set_of_get?_eq_none habsent .empty
  others other hother := by
    rw [Heap.fields_setField _ _ _ _ hexists, if_neg hother.symm]
  classes other := Heap.classOf?_setField _ _ _ _ _
  size := Array.size_modify
  made := rfl
  address := rfl
  scope := rfl
  output := rfl

theorem fields_eq (h : before.AddsField id field after) :
    after.heap.fields id = (before.heap.fields id).set field .empty :=
  congrArg Bindings.mk
    (h.added.trans (Bindings.entries_set_of_get?_eq_none h.absent .empty).symm)

theorem get?_new (h : before.AddsField id field after) :
    (after.heap.fields id).get? field = some .empty := by
  rw [h.fields_eq, Bindings.get?_set_self]

/-- What was bound is bound to the same value. -/
theorem get?_of_bound (h : before.AddsField id field after) {other : InstanceId} {name : String}
    {value : Handle} (hbound : (before.heap.fields other).get? name = some value) :
    (after.heap.fields other).get? name = some value := by
  by_cases hother : other = id
  · subst hother
    have hne : field ≠ name := by
      rintro rfl
      cases h.absent.symm.trans hbound
    rw [h.fields_eq, Bindings.get?_set_of_ne _ _ hne, hbound]
  · rw [h.others other hother, hbound]

end State.AddsField

namespace Run

variable {α : Type} {classes : Classes} {fuel : Nat} {state : State}

/-! ## Following fields -/

/-- The computation gives this value, or stops for this reason, and leaves this state. -/
def EndsIn (computation : Run α) (before : State) : Except Stop α → State → Prop
  | .ok value, after => computation before = .ok value after
  | .error reason, after => computation before = .error reason after

/-- The computation ends the same way from the state that it leaves, and leaves that state. -/
def Settles (computation : Run α) (before : State) (result : Except Stop α) (after : State) :
    Prop :=
  EndsIn computation before result after ∧ EndsIn computation after result after

/-- What reading these fields from the empty value comes to. -/
def emptyRead : List String → Except Stop Handle
  | [] => .ok .empty
  | next :: _ => .error (.fault (.fieldRead next))

/-- The one field that reading fields from a value may add: one that the instance lacks to which
bound fields lead.  The reading ends there, or at the next field. -/
def AddsMissing (value : Handle) (fields : List String) (before : State)
    (result : Except Stop Handle) (after : State) : Prop :=
  ∃ taken reached id field, before.heap.Leads value taken reached ∧
    reached.instance? = some id ∧ before.AddsField id field after ∧
    (fields = taken ++ [field] ∧ result = .ok .empty ∨
      ∃ next later, fields = taken ++ field :: next :: later ∧
        result = .error (.fault (.fieldRead next)))

/-- A value that is not an instance ends the reading, in whatever state. -/
theorem exists_follow_of_instance?_eq_none {value : Handle} (h : value.instance? = none)
    (field : String) (fields : List String) :
    ∃ reason, ∀ state, follow value (field :: fields) state = .error reason state := by
  cases value with
  | empty => exact ⟨.fault (.fieldRead field), fun _ => rfl⟩
  | returned inner => exact ⟨.strayReturn, fun _ => rfl⟩
  | holding object owning =>
      have hobject : object.instance? = none := h
      refine ⟨.fault (.fieldRead field), fun state => ?_⟩
      refine bind_eq_error_iff.mpr (.inr ⟨none, state, ?_, rfl⟩)
      exact congrArg (EStateM.Result.ok · state) hobject

/-- Behind a field that is bound the reading goes on from its value. -/
theorem follow_of_bound {value next : Handle} {id : InstanceId} {field : String}
    (hinstance : value.instance? = some id)
    (hbound : (state.heap.fields id).get? field = some next) (fields : List String) :
    follow value (field :: fields) state = follow next fields state := by
  rw [follow]
  simp only [bind, EStateM.bind, instanceOf?_of_instance? hinstance, readField, hbound]

/-- Behind a field that is not bound the reading goes on from the empty value. -/
theorem follow_of_absent {value : Handle} {id : InstanceId} {field : String}
    (hinstance : value.instance? = some id)
    (habsent : (state.heap.fields id).get? field = none) (fields : List String) :
    follow value (field :: fields) state =
      follow .empty fields { state with heap := state.heap.setField id field .empty } := by
  rw [follow]
  simp only [bind, EStateM.bind, instanceOf?_of_instance? hinstance, readField, habsent]

/-- The empty value has no fields, so it changes nothing to read on from it. -/
theorem endsIn_follow_empty (fields : List String) (state : State) :
    EndsIn (follow .empty fields) state (emptyRead fields) state := by
  cases fields <;> rfl

/-- A computation ends in one way. -/
theorem EndsIn.unique {computation : Run α} {before after other : State}
    {result given : Except Stop α} (h : EndsIn computation before result after)
    (hother : EndsIn computation before given other) : result = given ∧ after = other := by
  cases result <;> cases given <;> cases h.symm.trans hother <;> exact ⟨rfl, rfl⟩

theorem EndsIn.congr {computation other : Run α} {before between after : State}
    {result : Except Stop α} (h : EndsIn other between result after)
    (heq : computation before = other between) : EndsIn computation before result after := by
  cases result with
  | ok value => exact heq.trans h
  | error reason => exact heq.trans h

/-- One more bound field in front makes no difference to what is added. -/
theorem AddsMissing.cons {value next : Handle} {fields : List String} {id : InstanceId}
    {field : String} {result : Except Stop Handle} {after : State}
    (h : AddsMissing next fields state result after) (hinstance : value.instance? = some id)
    (hbound : (state.heap.fields id).get? field = some next) :
    AddsMissing value (field :: fields) state result after := by
  obtain ⟨taken, reached, target, missing, hleads, hreached, hadds, hends⟩ := h
  refine ⟨field :: taken, reached, target, missing, .field hinstance hbound hleads, hreached,
    hadds, ?_⟩
  rcases hends with ⟨hfields, hresult⟩ | ⟨last, later, hfields, hresult⟩
  · exact .inl ⟨congrArg (field :: ·) hfields, hresult⟩
  · exact .inr ⟨last, later, congrArg (field :: ·) hfields, hresult⟩

/-- Bound fields are followed to their value without a change to the state. -/
theorem follow_of_leads {value reached : Handle} {taken : List String}
    (h : state.heap.Leads value taken reached) (rest : List String) :
    follow value (taken ++ rest) state = follow reached rest state := by
  induction h with
  | here value => rfl
  | field hinstance hbound _ ih =>
      rw [List.cons_append, follow_of_bound hinstance hbound, ih]

/-- Where bound fields lead to an instance without the next field, this field is bound. -/
theorem follow_of_leads_absent {value reached : Handle} {taken : List String} {id : InstanceId}
    {field : String} (hleads : state.heap.Leads value taken reached)
    (hinstance : reached.instance? = some id)
    (habsent : (state.heap.fields id).get? field = none) (later : List String) :
    EndsIn (follow value (taken ++ field :: later)) state (emptyRead later)
      { state with heap := state.heap.setField id field .empty } :=
  (endsIn_follow_empty later _).congr
    ((follow_of_leads hleads _).trans (follow_of_absent hinstance habsent later))

/-- Reading fields changes nothing or adds the one that is missing, and then it comes to the same
again. -/
theorem follow_settles (value : Handle) (fields : List String) (state : State) :
    ∃ result after, Settles (follow value fields) state result after ∧
      (after = state ∨ AddsMissing value fields state result after) := by
  induction fields generalizing value with
  | nil => exact ⟨.ok value, state, ⟨rfl, rfl⟩, .inl rfl⟩
  | cons field fields ih =>
      cases hinstance : value.instance? with
      | none =>
          obtain ⟨reason, hstops⟩ := exists_follow_of_instance?_eq_none hinstance field fields
          exact ⟨.error reason, state, ⟨hstops state, hstops state⟩, .inl rfl⟩
      | some id =>
          cases hfield : (state.heap.fields id).get? field with
          | some next =>
              obtain ⟨result, after, ⟨hends, hagain⟩, hchange⟩ := ih next
              have hfirst := hends.congr (follow_of_bound hinstance hfield fields)
              rcases hchange with rfl | hadds
              · exact ⟨result, after, ⟨hfirst, hfirst⟩, .inl rfl⟩
              · -- the field passed here was bound before, so it is not the new one
                have hkept : (after.heap.fields id).get? field = some next := by
                  obtain ⟨_, _, _, _, _, _, hadded, _⟩ := hadds
                  exact hadded.get?_of_bound hfield
                have hsecond := hagain.congr (follow_of_bound hinstance hkept fields)
                exact ⟨result, after, ⟨hfirst, hsecond⟩, .inr (hadds.cons hinstance hfield)⟩
          | none =>
              have hfirst := follow_of_leads_absent (.here value) hinstance hfield fields
              obtain hlt | hle := Nat.lt_or_ge id state.heap.instances.size
              · have hadds := State.AddsField.of_absent hfield hlt
                have hsecond := (endsIn_follow_empty fields _).congr
                  (follow_of_bound hinstance hadds.get?_new fields)
                refine ⟨_, _, ⟨hfirst, hsecond⟩, .inr ?_⟩
                refine ⟨[], value, id, field, .here value, hinstance, hadds, ?_⟩
                cases fields with
                | nil => exact .inl ⟨rfl, rfl⟩
                | cons next later => exact .inr ⟨next, later, rfl, rfl⟩
              · -- an instance that does not exist is not given any fields
                rw [Heap.setField_of_size_le hle] at hfirst
                exact ⟨_, state, ⟨hfirst, hfirst⟩, .inl rfl⟩

/-! ## Dotted names -/

/-- A dotted name ends the same way when it is read again, and reading it again changes nothing.
The first time it changes nothing or adds one field, which the instance lacks to which the fields
before it lead, and which is bound to the empty value: if it is the last one, the name gives the
empty value, and if not, the next one cannot be read.  A name whose fields are all bound gives what
they lead to, and a name whose fields lead to an instance that lacks the next one does bind it. -/
theorem execute_variable_settles (classes : Classes) (fuel : Nat) (name : String)
    (fields : List String) (state : State) :
    ∃ result after,
      EndsIn (execute classes (fuel + 1) (.variable name fields)) state result after ∧
      EndsIn (execute classes (fuel + 1) (.variable name fields)) after result after ∧
      (after = state ∨ ∃ value, state.scope.get? name = some value ∧
        AddsMissing value fields state result after) ∧
      (∀ value target, state.scope.get? name = some value →
        state.heap.Leads value fields target → result = .ok target ∧ after = state) ∧
      ∀ value taken reached id field later, state.scope.get? name = some value →
        state.heap.Leads value taken reached → reached.instance? = some id →
        id < state.heap.instances.size → (state.heap.fields id).get? field = none →
        fields = taken ++ field :: later →
        state.AddsField id field after ∧ result = emptyRead later := by
  cases hname : state.scope.get? name with
  | none =>
      have hstops : lookup name fields state = .error (.fault (.unknownVariable name)) state := by
        rw [lookup, hname]
        rfl
      exact ⟨.error (.fault (.unknownVariable name)), state, hstops, hstops, .inl rfl,
        fun _ _ h => absurd h (by simp), fun _ _ _ _ _ _ h => absurd h (by simp)⟩
  | some value =>
      obtain ⟨result, after, ⟨hends, hagain⟩, hchange⟩ := follow_settles value fields state
      have hfirst : lookup name fields state = follow value fields state := by
        rw [lookup, hname]
      have hscope : after.scope = state.scope := by
        rcases hchange with rfl | ⟨_, _, _, _, _, _, hadds, _⟩
        · rfl
        · exact hadds.scope
      have hsecond : lookup name fields after = follow value fields after := by
        rw [lookup, hscope, hname]
      refine ⟨result, after, hends.congr hfirst, hagain.congr hsecond,
        hchange.imp_right fun h => ⟨value, rfl, h⟩, ?_, ?_⟩
      · intro other target hother hleads
        cases hother
        have hwhole := follow_of_leads hleads []
        rw [List.append_nil] at hwhole
        exact hends.unique hwhole
      · intro other taken reached id field later hother hleads hinstance hexists habsent hfields
        cases hother
        subst hfields
        obtain ⟨rfl, rfl⟩ := hends.unique (follow_of_leads_absent hleads hinstance habsent later)
        exact ⟨.of_absent habsent hexists, rfl⟩

/-- A variable that is bound to an instance with a field that leads back to it. -/
def sampleCycle : State :=
  ⟨(Heap.empty.create 0).2.setField 0 "f" (.share (.ofInstance 0)),
    Bindings.empty.set "x" (.own (.ofInstance 0)), ""⟩

/-- Behind fields that lead around a cycle a field is added, whether it is the last one or one
within the name.  Then the name has been settled. -/
theorem execute_variable_settles_sample :
    (∃ after, sampleCycle.AddsField 0 "g" after ∧
      EndsIn (execute .empty 1 (.variable "x" ["f", "f", "g"])) sampleCycle (.ok .empty) after ∧
      EndsIn (execute .empty 1 (.variable "x" ["f", "f", "g"])) after (.ok .empty) after) ∧
    ∃ after, sampleCycle.AddsField 0 "g" after ∧
      EndsIn (execute .empty 1 (.variable "x" ["f", "g", "f"])) sampleCycle
        (.error (.fault (.fieldRead "f"))) after ∧
      EndsIn (execute .empty 1 (.variable "x" ["f", "g", "f"])) after
        (.error (.fault (.fieldRead "f"))) after := by
  have hbound : (sampleCycle.heap.fields 0).get? "f" = some (.share (.ofInstance 0)) := by decide
  have habsent : (sampleCycle.heap.fields 0).get? "g" = none := by decide
  have hexists : 0 < sampleCycle.heap.instances.size := by decide
  constructor
  · obtain ⟨result, after, hends, hagain, -, -, hadds⟩ :=
      execute_variable_settles .empty 0 "x" ["f", "f", "g"] sampleCycle
    obtain ⟨hadded, rfl⟩ := hadds _ ["f", "f"] _ 0 "g" [] rfl
      (.field rfl hbound (.field rfl hbound (.here _))) rfl hexists habsent rfl
    exact ⟨after, hadded, hends, hagain⟩
  · obtain ⟨result, after, hends, hagain, -, -, hadds⟩ :=
      execute_variable_settles .empty 0 "x" ["f", "g", "f"] sampleCycle
    obtain ⟨hadded, rfl⟩ := hadds _ ["f"] _ 0 "g" ["f"] rfl
      (.field rfl hbound (.here _)) rfl hexists habsent rfl
    exact ⟨after, hadded, hends, hagain⟩

end Run

end Offside
