import Mathlib.Data.List.Basic
import Mathlib.Data.List.Forall2
import Offside.Heap

/-!
# Inheritance

A class inherits along its lineage: the class itself, its parent, the parent of that, and so on
(`Classes.Lineage`).  A class is younger than its parent, so the lineage goes down in number and
comes to an end.

A name means the first method of that name along the lineage, where the own methods of every
class stand in the order of their definition (`Classes.resolve_eq_find?`).  So a method that is
added to a class is met by the class and by those that inherit from it, and only if no method of
its name stands before it (`Classes.resolve_define_of_exposes`).

What holds of all lookups together is `Classes.ResolvesFirst`, and it holds whatever was defined
before (`Classes.resolvesFirst_defineAll`).
-/

namespace Offside.Classes

/-! ## Lineages -/

/-- The own methods of a class, in the order of their definition. -/
def ownMethods (classes : Classes) (id : ClassId) : List Method :=
  ((classes.get? id).map ClassRecord.methods).getD []

/-- The classes from one of them up through its parents. -/
inductive Lineage (classes : Classes) : ClassId → List ClassId → Prop
  | root {id : ClassId} {record : ClassRecord} (hrecord : classes.get? id = some record)
      (hparent : record.parent = none) : Lineage classes id [id]
  | child {id parent : ClassId} {record : ClassRecord} {lineage : List ClassId}
      (hrecord : classes.get? id = some record) (hparent : record.parent = some parent)
      (h : Lineage classes parent lineage) : Lineage classes id (id :: lineage)

/-- Whether this is a method of the name. -/
def named (name : String) (method : Method) : Bool :=
  method.name == name

/-- No class has a method of its own that has the name. -/
def Lacks (classes : Classes) (lineage : List ClassId) (name : String) : Prop :=
  ∀ cls ∈ lineage, ∀ method ∈ classes.ownMethods cls, method.name ≠ name

/-- The class is on the lineage, and neither it nor a class before it has a method of the name. -/
def Exposes (classes : Classes) (lineage : List ClassId) (owner : ClassId) (name : String) : Prop :=
  ∃ nearer farther, lineage = nearer ++ owner :: farther ∧
    classes.Lacks (nearer ++ [owner]) name

/-- Adds methods to classes, one after another. -/
def defineAll (classes : Classes) (definitions : List (ClassId × Method)) : Classes :=
  definitions.foldl (fun classes definition => classes.define definition.1 definition.2) classes

variable {classes : Classes} {id owner : ClassId} {lineage : List ClassId} {name : String}

theorem lt_count_of_get? {record : ClassRecord} (h : classes.get? id = some record) :
    id < classes.count :=
  (Array.getElem?_eq_some_iff.mp h).1

/-- Every class has a lineage. -/
theorem exists_lineage (hid : id < classes.count) : ∃ lineage, classes.Lineage id lineage := by
  -- a parent is older than its child, so there are only so many
  induction id using Nat.strongRecOn with
  | ind id ih =>
      have hrecord : classes.get? id = some classes.records[id] := Array.getElem?_eq_getElem hid
      cases hparent : classes.records[id].parent with
      | none => exact ⟨[id], .root hrecord hparent⟩
      | some parent =>
          have hlt : parent < id := classes.ordered id _ hrecord parent hparent
          obtain ⟨lineage, h⟩ := ih parent hlt (Nat.lt_trans hlt hid)
          exact ⟨id :: lineage, .child hrecord hparent h⟩

namespace Lineage

theorem lt_count_of_mem (h : classes.Lineage id lineage) : ∀ {cls}, cls ∈ lineage →
    cls < classes.count := by
  induction h with
  | root hrecord =>
      intro cls hcls
      rw [List.mem_singleton.mp hcls]
      exact lt_count_of_get? hrecord
  | child hrecord _ _ ih =>
      rintro cls (_ | ⟨_, hcls⟩)
      · exact lt_count_of_get? hrecord
      · exact ih hcls

/-- A class has one lineage only. -/
theorem unique {other : List ClassId} (h : classes.Lineage id lineage)
    (hother : classes.Lineage id other) : other = lineage := by
  induction h generalizing other with
  | root hrecord hparent =>
      cases hother with
      | root => rfl
      | child hrecord' hparent' =>
          cases hrecord.symm.trans hrecord'
          cases hparent.symm.trans hparent'
  | child hrecord hparent _ ih =>
      cases hother with
      | root hrecord' hparent' =>
          cases hrecord.symm.trans hrecord'
          cases hparent.symm.trans hparent'
      | child hrecord' hparent' h' =>
          cases hrecord.symm.trans hrecord'
          cases hparent.symm.trans hparent'
          rw [ih h']

/-- No class of a lineage is younger than the one that it starts with. -/
theorem le (h : classes.Lineage id lineage) : ∀ cls ∈ lineage, cls ≤ id := by
  induction h with
  | root => simp
  | @child id parent record lineage hrecord hparent _ ih =>
      have hlt : parent < id := classes.ordered id record hrecord parent hparent
      rintro cls (_ | ⟨_, hcls⟩)
      · exact Nat.le_refl id
      · exact Nat.le_of_lt (Nat.lt_of_le_of_lt (ih cls hcls) hlt)

/-- Along a lineage every class is older than those before it. -/
theorem pairwise (h : classes.Lineage id lineage) : lineage.Pairwise (· > ·) := by
  induction h with
  | root => exact List.pairwise_singleton _ _
  | @child id parent record lineage hrecord hparent hrest ih =>
      have hlt : parent < id := classes.ordered id record hrecord parent hparent
      exact .cons (fun cls hcls => Nat.lt_of_le_of_lt (hrest.le cls hcls) hlt) ih

end Lineage

/-! ## The first method of a name -/

theorem ownMethods_eq {record : ClassRecord} (h : classes.get? id = some record) :
    classes.ownMethods id = record.methods := by
  rw [ownMethods, h]
  rfl

/-- Along a lineage every class is asked for a method of its own. -/
theorem resolve_eq_findSome? (h : classes.Lineage id lineage) (name : String) :
    classes.resolve id name =
      lineage.findSome? fun cls => (classes.ownMethods cls).find? (named name) := by
  have hfirst {id : ClassId} {record : ClassRecord} (hrecord : classes.get? id = some record) :
      classes.resolve id name = ((classes.ownMethods id).find? (named name)).or
        (record.parent.bind fun parent => classes.resolve parent name) := by
    rw [resolve_eq, hrecord, ownMethods_eq hrecord]
    rfl
  induction h with
  | root hrecord hparent =>
      rw [hfirst hrecord, hparent, List.findSome?_singleton, Option.bind_none, Option.or_none]
  | child hrecord hparent _ ih =>
      rw [hfirst hrecord, hparent, Option.bind_some, ih, List.findSome?_cons]
      cases (classes.ownMethods _).find? (named name) <;> rfl

/-- A name means the first method of that name along the lineage. -/
theorem resolve_eq_find? (h : classes.Lineage id lineage) (name : String) :
    classes.resolve id name = (lineage.flatMap classes.ownMethods).find? (named name) := by
  rw [resolve_eq_findSome? h, List.find?_flatMap]

/-- No method of a name is found exactly if no class has one. -/
theorem find?_eq_none_iff (classes : Classes) (lineage : List ClassId) (name : String) :
    (lineage.flatMap classes.ownMethods).find? (named name) = none ↔
      classes.Lacks lineage name := by
  simp only [List.find?_eq_none, List.mem_flatMap, named, beq_iff_eq, Lacks]
  constructor
  · intro h cls hcls method hmethod
    exact h method ⟨cls, hcls, hmethod⟩
  · rintro h method ⟨cls, hcls, hmethod⟩
    exact h cls hcls method hmethod

/-- The class that is nearest hides those behind it. -/
theorem resolve_eq_some {nearer farther : List ClassId} {method : Method}
    (h : classes.Lineage id (nearer ++ owner :: farther)) (hnearer : classes.Lacks nearer name)
    (hmethod : (classes.ownMethods owner).find? (named name) = some method) :
    classes.resolve id name = some method := by
  rw [resolve_eq_find? h, List.flatMap_append, List.find?_append,
    (find?_eq_none_iff ..).mpr hnearer, Option.none_or, List.flatMap_cons, List.find?_append,
    hmethod, Option.some_or]

/-! ## Two class tables -/

section

variable {others : Classes} {related : Method → Method → Prop}
  (hname : ∀ method twin, related method twin → method.name = twin.name)
include hname

/-- The first methods of a name are related. -/
theorem find?_related {methods twins : List Method} (h : List.Forall₂ related methods twins)
    (name : String) :
    Option.Rel related (methods.find? fun method => method.name == name)
      (twins.find? fun method => method.name == name) := by
  induction h with
  | nil => exact .none
  | @cons method twin _ _ hmethod _ ih =>
      rw [List.find?_cons, List.find?_cons, ← hname method twin hmethod]
      cases method.name == name with
      | true => exact .some hmethod
      | false => exact ih

/-- In class tables of the same parents and related methods, a name means related methods. -/
theorem resolve_related
    (h : ∀ id, Option.Rel (fun record twin => record.parent = twin.parent ∧
      List.Forall₂ related record.methods twin.methods) (classes.get? id) (others.get? id))
    (id : ClassId) (name : String) :
    Option.Rel related (classes.resolve id name) (others.resolve id name) := by
  -- parents are older than their children
  induction id using Nat.strongRecOn with
  | ind id ih =>
      have hrecords := h id
      rw [resolve_eq, resolve_eq]
      cases hrecord : classes.get? id with
      | none =>
          rw [hrecord] at hrecords
          generalize others.get? id = two at hrecords ⊢
          cases hrecords
          exact .none
      | some record =>
          rw [hrecord] at hrecords
          generalize others.get? id = two at hrecords ⊢
          cases hrecords with
          | @some _ twin htwin =>
              obtain ⟨hparents, hmethods⟩ := htwin
              rw [Option.bind_some, Option.bind_some, ← hparents]
              have hown := find?_related hname hmethods name
              generalize record.methods.find? _ = one, twin.methods.find? _ = two at hown ⊢
              cases hown with
              | some hmethod => exact .some hmethod
              | none =>
                  cases hparent : record.parent with
                  | none => exact .none
                  | some parent =>
                      have hlt : parent < id := classes.ordered id record hrecord parent hparent
                      exact ih parent hlt

end

/-! ## Defining methods -/

section

variable {method : Method}

@[simp] theorem get?_define (classes : Classes) (owner id : ClassId) (method : Method) :
    (classes.define owner method).get? id =
      if owner = id then (classes.get? id).map fun record =>
        { record with methods := record.methods ++ [method] }
      else classes.get? id :=
  Array.getElem?_modify

@[simp] theorem count_define (classes : Classes) (owner : ClassId) (method : Method) :
    (classes.define owner method).count = classes.count :=
  Array.size_modify

/-- Defining a method changes no parent. -/
theorem map_parent_define (classes : Classes) (owner id : ClassId) (method : Method) :
    ((classes.define owner method).get? id).map ClassRecord.parent =
      (classes.get? id).map ClassRecord.parent := by
  rw [get?_define]
  split
  · rw [Option.map_map]
    rfl
  · rfl

/-- Defining a method changes no lineage. -/
theorem Lineage.define (h : classes.Lineage id lineage) (owner : ClassId) (method : Method) :
    (classes.define owner method).Lineage id lineage := by
  have hsame {id : ClassId} {record : ClassRecord} (hrecord : classes.get? id = some record) :
      ∃ after, (classes.define owner method).get? id = some after ∧
        after.parent = record.parent := by
    have hparent := classes.map_parent_define owner id method
    rw [hrecord, Option.map_some, Option.map_eq_some_iff] at hparent
    exact hparent
  induction h with
  | root hrecord hparent =>
      obtain ⟨after, hafter, hkept⟩ := hsame hrecord
      exact .root hafter (hkept.trans hparent)
  | child hrecord hparent _ ih =>
      obtain ⟨after, hafter, hkept⟩ := hsame hrecord
      exact .child hafter (hkept.trans hparent) ih

/-- A new method stands behind the others of its class. -/
theorem ownMethods_define_self (howner : owner < classes.count) (method : Method) :
    (classes.define owner method).ownMethods owner = classes.ownMethods owner ++ [method] := by
  have hrecord : classes.get? owner = some classes.records[owner] :=
    Array.getElem?_eq_getElem howner
  rw [ownMethods_eq hrecord, ownMethods, get?_define, if_pos rfl, hrecord]
  rfl

theorem ownMethods_define_of_ne (h : owner ≠ id) (method : Method) :
    (classes.define owner method).ownMethods id = classes.ownMethods id := by
  rw [ownMethods, get?_define, if_neg h]
  rfl

/-- Of a class, only its own definitions add to its own methods. -/
theorem ownMethods_defineAll (hid : id < classes.count) (definitions : List (ClassId × Method)) :
    (classes.defineAll definitions).ownMethods id =
      classes.ownMethods id ++ (definitions.filter (·.1 = id)).map Prod.snd := by
  induction definitions generalizing classes with
  | nil => simp [defineAll]
  | cons definition definitions ih =>
      obtain ⟨owner, method⟩ := definition
      have hlater : ((classes.define owner method).defineAll definitions).ownMethods id =
          (classes.define owner method).ownMethods id ++
            (definitions.filter (·.1 = id)).map Prod.snd :=
        ih (by rwa [count_define])
      rw [show classes.defineAll ((owner, method) :: definitions) =
        (classes.define owner method).defineAll definitions from rfl, hlater]
      by_cases howner : owner = id
      · subst howner
        simp [ownMethods_define_self hid]
      · simp [ownMethods_define_of_ne howner, howner]

theorem Lineage.defineAll (h : classes.Lineage id lineage)
    (definitions : List (ClassId × Method)) :
    (classes.defineAll definitions).Lineage id lineage := by
  induction definitions generalizing classes with
  | nil => exact h
  | cons definition definitions ih => exact ih (h.define definition.1 definition.2)

/-- A class that inherits from another has its new method behind all those that come before. -/
theorem flatMap_ownMethods_define {nearer farther : List ClassId}
    (h : classes.Lineage id (nearer ++ owner :: farther)) (method : Method) :
    (nearer ++ owner :: farther).flatMap (classes.define owner method).ownMethods =
      (nearer ++ [owner]).flatMap classes.ownMethods ++
        method :: farther.flatMap classes.ownMethods := by
  -- the lineage goes down in number, so the owner is met once
  have hapart := h.pairwise
  rw [List.pairwise_append, List.pairwise_cons] at hapart
  obtain ⟨-, ⟨hfarther, -⟩, hnearer⟩ := hapart
  have howner : owner < classes.count := h.lt_count_of_mem (by simp)
  have hbefore : nearer.flatMap (classes.define owner method).ownMethods =
      nearer.flatMap classes.ownMethods :=
    List.flatMap_congr fun cls hcls =>
      ownMethods_define_of_ne (Nat.ne_of_lt (hnearer cls hcls owner List.mem_cons_self)) method
  have hbehind : farther.flatMap (classes.define owner method).ownMethods =
      farther.flatMap classes.ownMethods :=
    List.flatMap_congr fun cls hcls =>
      ownMethods_define_of_ne (Nat.ne_of_gt (hfarther cls hcls)) method
  simp only [List.flatMap_append, List.flatMap_cons, List.flatMap_nil, hbefore, hbehind,
    ownMethods_define_self howner, List.append_assoc, List.append_nil, List.cons_append,
    List.nil_append]

/-- A new method is met if none of its name comes before it. -/
theorem resolve_define_of_exposes (h : classes.Lineage id lineage)
    (hexposes : classes.Exposes lineage owner name) (hname : method.name = name) :
    (classes.define owner method).resolve id name = some method := by
  obtain ⟨nearer, farther, rfl, hlacks⟩ := hexposes
  rw [resolve_eq_find? (h.define owner method), flatMap_ownMethods_define h, List.find?_append,
    (find?_eq_none_iff ..).mpr hlacks, Option.none_or, List.find?_cons]
  simp [named, hname]

/-- Otherwise the name means what it meant before. -/
theorem resolve_define_of_not (h : classes.Lineage id lineage)
    (hnot : ¬ (method.name = name ∧ classes.Exposes lineage owner name)) :
    (classes.define owner method).resolve id name = classes.resolve id name := by
  rw [resolve_eq_find? (h.define owner method), resolve_eq_find? h]
  by_cases howner : owner ∈ lineage
  · obtain ⟨nearer, farther, rfl⟩ := List.append_of_mem howner
    have hsplit : (nearer ++ owner :: farther).flatMap classes.ownMethods =
        (nearer ++ [owner]).flatMap classes.ownMethods ++ farther.flatMap classes.ownMethods := by
      rw [List.append_cons, List.flatMap_append]
    rw [flatMap_ownMethods_define h, hsplit, List.find?_append, List.find?_append]
    -- either the name is found before the new method, or the new method has another name
    cases hfront : ((nearer ++ [owner]).flatMap classes.ownMethods).find? (named name) with
    | some found => rw [Option.some_or, Option.some_or]
    | none =>
        have hlacks := (find?_eq_none_iff ..).mp hfront
        have hname : ¬ named name method = true := by
          intro hname
          exact hnot ⟨beq_iff_eq.mp hname, nearer, farther, rfl, hlacks⟩
        rw [List.find?_cons_of_neg hname]
  · rw [List.flatMap_congr fun cls hcls =>
      ownMethods_define_of_ne (ne_of_mem_of_not_mem hcls howner).symm method]

end

/-! ## All lookups -/

/-- What looking up methods of a class means, where this is its lineage. -/
structure ResolvesFirst (classes : Classes) (id : ClassId) (lineage : List ClassId) : Prop where
  /-- The parents of the class are followed to their end. -/
  follows : classes.Lineage id lineage
  /-- There is no other way to follow them. -/
  unique : ∀ other, classes.Lineage id other → other = lineage
  /-- No class is met twice. -/
  nodup : lineage.Nodup
  /-- A name means the first method of that name, or none. -/
  resolve_eq : ∀ name, classes.resolve id name =
    (lineage.flatMap classes.ownMethods).find? fun method => method.name == name
  /-- A new method is what its name means if the class of the method is on the lineage and no
  class up to it has a method of the name; nothing else changes. -/
  define : ∀ owner method name,
    (method.name = name ∧ classes.Exposes lineage owner name →
      (classes.define owner method).resolve id name = some method) ∧
    (¬ (method.name = name ∧ classes.Exposes lineage owner name) →
      (classes.define owner method).resolve id name = classes.resolve id name)
  /-- A class has a method for so many arguments if the one that the name means takes so many. -/
  hasMethod_iff : ∀ name arity, classes.hasMethod id name arity = true ↔
    ∃ method, classes.resolve id name = some method ∧ method.parameters.length = arity
  /-- The nearest method hides all behind it, whatever they take. -/
  hides : ∀ nearer owner farther name method, lineage = nearer ++ owner :: farther →
    classes.Lacks nearer name →
    (classes.ownMethods owner).find? (fun method => method.name == name) = some method →
    ∀ arity, classes.hasMethod id name arity = true ↔ method.parameters.length = arity
  /-- An instance has the methods of its class. -/
  instances : ∀ (heap : Heap) instanceId, heap.classOf? instanceId = some id → ∀ name arity,
    heap.hasMethod classes instanceId name arity = classes.hasMethod id name arity

theorem hasMethod_eq_true_iff (classes : Classes) (id : ClassId) (name : String) (arity : Nat) :
    classes.hasMethod id name arity = true ↔
      ∃ method, classes.resolve id name = some method ∧ method.parameters.length = arity := by
  unfold hasMethod
  cases classes.resolve id name <;> simp

theorem Lineage.resolvesFirst (h : classes.Lineage id lineage) :
    classes.ResolvesFirst id lineage where
  follows := h
  unique _ hother := h.unique hother
  nodup := h.pairwise.imp Nat.ne_of_gt
  resolve_eq := resolve_eq_find? h
  define _ _ _ := ⟨fun ⟨hname, hexposes⟩ => resolve_define_of_exposes h hexposes hname,
    resolve_define_of_not h⟩
  hasMethod_iff := classes.hasMethod_eq_true_iff id
  hides := by
    rintro nearer owner farther name method rfl hlacks hmethod arity
    rw [hasMethod_eq_true_iff, resolve_eq_some h hlacks hmethod]
    simp
  instances := by
    intro heap instanceId hclass name arity
    rw [Heap.hasMethod, hclass, Option.any_some]

/-- Whatever methods were defined in whatever order, a class has the lineage that it had, every
class on it has its new methods behind the old ones, and every name means the first method along
the lineage. -/
theorem resolvesFirst_defineAll (classes : Classes) (definitions : List (ClassId × Method))
    {id : ClassId} (hid : id < classes.count) :
    ∃ lineage, classes.Lineage id lineage ∧
      (∀ cls ∈ lineage, (classes.defineAll definitions).ownMethods cls =
        classes.ownMethods cls ++ (definitions.filter (·.1 = cls)).map Prod.snd) ∧
      (classes.defineAll definitions).ResolvesFirst id lineage := by
  obtain ⟨lineage, h⟩ := exists_lineage hid
  exact ⟨lineage, h, fun cls hcls => ownMethods_defineAll (h.lt_count_of_mem hcls) definitions,
    (h.defineAll definitions).resolvesFirst⟩

/-- A class and one that inherits from it. -/
def sampleHeirs : Classes :=
  (empty.declare "A" none).declare "B" (some 0)

/-- Methods of one name, of which the heir has two. -/
def sampleDefinitions : List (ClassId × Method) :=
  [(1, ⟨"f", [], .absent⟩), (0, ⟨"f", ["x"], .absent⟩), (1, ⟨"f", ["x"], .absent⟩)]

/-- The first method of the heir hides its second one and that of its parent. -/
theorem resolvesFirst_defineAll_sample :
    1 < sampleHeirs.count ∧
      (∃ lineage, sampleHeirs.Lineage 1 lineage ∧
        (∀ cls ∈ lineage, (sampleHeirs.defineAll sampleDefinitions).ownMethods cls =
          sampleHeirs.ownMethods cls ++ (sampleDefinitions.filter (·.1 = cls)).map Prod.snd) ∧
        (sampleHeirs.defineAll sampleDefinitions).ResolvesFirst 1 lineage) ∧
      ((sampleHeirs.defineAll sampleDefinitions).resolve 1 "f").map Method.parameters =
        some [] ∧
      (sampleHeirs.defineAll sampleDefinitions).hasMethod 1 "f" 1 = false ∧
      (sampleHeirs.defineAll sampleDefinitions).hasMethod 0 "f" 1 = true :=
  ⟨by decide, resolvesFirst_defineAll sampleHeirs sampleDefinitions (by decide), by decide +kernel,
    by decide +kernel, by decide +kernel⟩

end Offside.Classes
