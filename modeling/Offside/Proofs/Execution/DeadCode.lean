import Mathlib.Data.List.Forall2
import Offside.Proofs.Execution.Returning
import Offside.Proofs.Tree.Inheritance

/-!
# Code behind a return

A statement surely returns if it is a return, a conditional with two branches that surely return,
or a block with a statement in it that does (`Node.SurelyReturns`).  Running it gives a value on
its way out, unless it stops early (`Node.SurelyReturns.onlyReturns`), so what stands behind it in
a block never runs.

`Node.CutsTo` says that one tree is another in which what stands behind such a statement was left
out, in some block at any depth.  Both run alike.  The bodies of methods may be cut as well: if
one class table comes from another so (`Classes.CutsTo`), then all trees run alike with both of
them, because by induction on the fuel every call comes to the same (`execute_eq_of_cutsTo`).
-/

namespace Offside

/-! ## Sure returns -/

/-- A statement that gives a value on its way out, unless it stops early. -/
inductive Node.SurelyReturns : Node → Prop
  | giveBack (value : Node) : SurelyReturns (.giveBack value)
  | ifThenElse {condition consequent alternative : Node} (hconsequent : SurelyReturns consequent)
      (halternative : SurelyReturns alternative) :
      SurelyReturns (.ifThenElse condition consequent alternative)
  | block {statement : Node} {statements : List Node} (hmem : statement ∈ statements)
      (h : SurelyReturns statement) : SurelyReturns (.block statements)

namespace Run

variable {run : Node → Run Handle} {α : Type}

/-- Whenever the computation gives a value, the value is on its way out. -/
def OnlyReturns (computation : Run Handle) : Prop :=
  ∀ state, (∃ inner after, computation state = .ok (.returned inner) after) ∨
    ∃ reason after, computation state = .error reason after

theorem OnlyReturns.returned (value : Handle) : OnlyReturns (pure (.returned value)) :=
  fun state => .inl ⟨value, state, rfl⟩

theorem onlyReturns_stop (reason : Stop) : OnlyReturns (stop reason) :=
  fun state => .inr ⟨reason, state, rfl⟩

/-- What was done before does not matter. -/
theorem OnlyReturns.bind (first : Run α) {next : α → Run Handle}
    (hnext : ∀ value, OnlyReturns (next value)) : OnlyReturns (first >>= next) := by
  intro state
  change (∃ inner after, EStateM.bind first next state = .ok (.returned inner) after) ∨
    ∃ reason after, EStateM.bind first next state = .error reason after
  unfold EStateM.bind
  cases first state with
  | ok value between => exact hnext value between
  | error reason between => exact .inr ⟨reason, between, rfl⟩

/-- A block gets past a statement that only returns in no way. -/
theorem sequence_of_onlyReturns {node : Node} (h : OnlyReturns (run node)) (nodes : List Node) :
    sequence run (node :: nodes) = run node := by
  funext state
  change EStateM.bind (run node) _ state = run node state
  unfold EStateM.bind
  obtain ⟨inner, after, hresult⟩ | ⟨reason, after, hresult⟩ := h state
  · rw [hresult]
    rfl
  · rw [hresult]

/-- A block only returns if one of its statements does. -/
theorem onlyReturns_sequence {node : Node} {nodes : List Node} (hmem : node ∈ nodes)
    (h : OnlyReturns (run node)) : OnlyReturns (sequence run nodes) := by
  induction nodes with
  | nil => cases hmem
  | cons first nodes ih =>
      rcases List.mem_cons.mp hmem with rfl | hlater
      · rw [sequence_of_onlyReturns h]
        exact h
      · refine .bind _ fun value => ?_
        cases value with
        | returned inner => exact .returned inner
        | empty | holding => exact ih hlater

/-- What a block does depends on its end only through what the end does. -/
theorem sequence_append_congr {behind other : List Node}
    (h : sequence run behind = sequence run other) (front : List Node) :
    sequence run (front ++ behind) = sequence run (front ++ other) := by
  induction front with
  | nil => exact h
  | cons node front ih => rw [List.cons_append, List.cons_append, sequence, sequence, ih]

end Run

open Run

/-- A statement that surely returns only returns, with any fuel. -/
theorem Node.SurelyReturns.onlyReturns {node : Node} (h : node.SurelyReturns) (classes : Classes)
    (fuel : Nat) : OnlyReturns (execute classes fuel node) := by
  induction h generalizing fuel with
  | giveBack value =>
      cases fuel with
      | zero => exact onlyReturns_stop .outOfFuel
      | succ fuel => exact .bind _ fun given => .returned given
  | ifThenElse _ _ ihconsequent ihalternative =>
      cases fuel with
      | zero => exact onlyReturns_stop .outOfFuel
      | succ fuel =>
          refine .bind _ fun value => .bind _ fun answer => ?_
          cases answer with
          | true => exact ihconsequent fuel
          | false => exact ihalternative fuel
  | block hmem _ ih =>
      cases fuel with
      | zero => exact onlyReturns_stop .outOfFuel
      | succ fuel => exact onlyReturns_sequence hmem (ih fuel)

/-! ## Leaving out what does not run -/

/-- One tree is the other in which, in one block, all behind a statement that surely returns was
left out. -/
inductive Node.CutsTo : Node → Node → Prop
  | here {statement : Node} (front behind : List Node) (h : statement.SurelyReturns) :
      CutsTo (.block (front ++ [statement] ++ behind)) (.block (front ++ [statement]))
  | block {statement shorter : Node} (front behind : List Node) (h : CutsTo statement shorter) :
      CutsTo (.block (front ++ statement :: behind)) (.block (front ++ shorter :: behind))
  | body {inner shorter : Node} (h : CutsTo inner shorter) : CutsTo (.body inner) (.body shorter)
  | ifThen {consequent shorter : Node} (condition : Node) (h : CutsTo consequent shorter) :
      CutsTo (.ifThen condition consequent) (.ifThen condition shorter)
  | consequent {consequent shorter : Node} (condition alternative : Node)
      (h : CutsTo consequent shorter) :
      CutsTo (.ifThenElse condition consequent alternative)
        (.ifThenElse condition shorter alternative)
  | alternative {alternative shorter : Node} (condition consequent : Node)
      (h : CutsTo alternative shorter) :
      CutsTo (.ifThenElse condition consequent alternative)
        (.ifThenElse condition consequent shorter)

/-- A tree that was cut runs as before. -/
theorem Node.CutsTo.execute_eq {node shorter : Node} (h : node.CutsTo shorter) (classes : Classes)
    (fuel : Nat) : execute classes fuel node = execute classes fuel shorter := by
  induction h generalizing fuel with
  | here front behind h =>
      cases fuel with
      | zero => rfl
      | succ fuel =>
          show Run.sequence _ _ = Run.sequence _ _
          have hreturns := h.onlyReturns classes fuel
          rw [List.append_assoc]
          apply sequence_append_congr
          rw [List.singleton_append, sequence_of_onlyReturns hreturns,
            sequence_of_onlyReturns hreturns]
  | block front behind _ ih =>
      cases fuel with
      | zero => rfl
      | succ fuel =>
          show Run.sequence _ _ = Run.sequence _ _
          apply sequence_append_congr
          rw [Run.sequence, Run.sequence, ih fuel]
  | body _ ih =>
      cases fuel with
      | zero => rfl
      | succ fuel =>
          show finish _ _ = finish _ _
          rw [finish, finish, ih fuel]
  | ifThen condition _ ih | consequent condition alternative _ ih
  | alternative condition consequent _ ih =>
      cases fuel with
      | zero => rfl
      | succ fuel => rw [execute, execute, ih fuel]

/-- A method, as it was or with a body that was cut. -/
inductive Method.CutsTo : Method → Method → Prop
  | same (method : Method) : CutsTo method method
  | body (name : String) (parameters : List String) {body shorter : Node}
      (h : body.CutsTo shorter) : CutsTo ⟨name, parameters, body⟩ ⟨name, parameters, shorter⟩

/-- A class whose methods may have been cut. -/
structure ClassRecord.CutsTo (record other : ClassRecord) : Prop where
  name : record.name = other.name
  parent : record.parent = other.parent
  methods : List.Forall₂ Method.CutsTo record.methods other.methods

/-- A class table in which methods may have been cut. -/
def Classes.CutsTo (classes other : Classes) : Prop :=
  ∀ id, Option.Rel ClassRecord.CutsTo (classes.get? id) (other.get? id)

namespace Method.CutsTo

variable {method other : Method}

theorem name_eq (h : method.CutsTo other) : method.name = other.name := by
  cases h <;> rfl

theorem parameters_eq (h : method.CutsTo other) : method.parameters = other.parameters := by
  cases h <;> rfl

theorem execute_eq (h : method.CutsTo other) (classes : Classes) (fuel : Nat) :
    execute classes fuel method.body = execute classes fuel other.body := by
  cases h with
  | same => rfl
  | body _ _ h => exact h.execute_eq classes fuel

end Method.CutsTo

/-! ## Class tables -/

namespace Classes

theorem cutsTo_refl (classes : Classes) : classes.CutsTo classes := by
  intro id
  cases classes.get? id with
  | none => exact .none
  | some record => exact .some ⟨rfl, rfl, List.forall₂_same.mpr fun method _ => .same method⟩

namespace CutsTo

variable {classes other : Classes} (h : classes.CutsTo other)
include h

/-- A method may be cut before it is defined. -/
theorem define {method shorter : Method} (hmethod : method.CutsTo shorter) (owner : ClassId) :
    (classes.define owner method).CutsTo (other.define owner shorter) := by
  intro id
  rw [get?_define, get?_define]
  have hrecords := h id
  split
  · generalize classes.get? id = one, other.get? id = two at hrecords ⊢
    cases hrecords with
    | none => exact .none
    | some hrecord =>
        exact .some ⟨hrecord.name, hrecord.parent,
          List.rel_append hrecord.methods (.cons hmethod .nil)⟩
  · exact hrecords

theorem nameOf_eq : classes.nameOf = other.nameOf := by
  funext id
  have hrecords := h id
  unfold nameOf
  generalize classes.get? id = one, other.get? id = two at hrecords ⊢
  cases hrecords with
  | none => rfl
  | some hrecord => exact hrecord.name

/-- A name means the same method, which may have been cut. -/
theorem resolve (id : ClassId) (name : String) :
    Option.Rel Method.CutsTo (classes.resolve id name) (other.resolve id name) := by
  refine resolve_related (fun _ _ hmethod => hmethod.name_eq) (fun id => ?_) id name
  have hrecords := h id
  generalize classes.get? id = one, other.get? id = two at hrecords ⊢
  cases hrecords with
  | none => exact .none
  | some hrecord => exact .some ⟨hrecord.parent, hrecord.methods⟩

theorem hasMethod_eq (id : ClassId) (name : String) (arity : Nat) :
    classes.hasMethod id name arity = other.hasMethod id name arity := by
  have hmethods := h.resolve id name
  unfold hasMethod
  generalize classes.resolve id name = one, other.resolve id name = two at hmethods ⊢
  cases hmethods with
  | none => rfl
  | some hmethod => simp only [hmethod.parameters_eq]

theorem className_eq (heap : Heap) (id : InstanceId) :
    heap.className classes id = heap.className other id := by
  rw [Heap.className, Heap.className, h.nameOf_eq]

theorem canCall_eq (id : InstanceId) (name : String) (arity : Nat) :
    canCall classes id name arity = canCall other id name arity := by
  have hmethods (heap : Heap) :
      heap.hasMethod classes id name arity = heap.hasMethod other id name arity := by
    unfold Heap.hasMethod
    simp only [h.hasMethod_eq]
  funext state
  rw [canCall, canCall, hmethods]

theorem displayPlain_eq (object : Object) :
    displayPlain classes object = displayPlain other object := by
  cases object with
  | number | text | flag => rfl
  | ofClass id => rw [displayPlain, displayPlain, h.nameOf_eq]
  | ofInstance id =>
      have htext (heap : Heap) : anonymousText classes heap id = anonymousText other heap id := by
        rw [anonymousText, anonymousText, h.className_eq]
      funext state
      exact congrArg (EStateM.Result.ok · state) (htext state.heap)

theorem describeAny_eq (heap : Heap) (content : Option Object) :
    Object.describeAny classes heap content = Object.describeAny other heap content := by
  cases content with
  | none => rfl
  | some object =>
      cases object with
      | number | text | flag => rfl
      | ofClass id =>
          rw [Object.describeAny, Object.describeAny, Object.describe, Object.describe,
            h.nameOf_eq]
      | ofInstance id =>
          rw [Object.describeAny, Object.describeAny, Object.describe, Object.describe,
            h.className_eq]

theorem incomparable_eq {α : Type} (question : Question) (left right : Option Object) :
    (incomparable classes question left right : Run α) =
      incomparable other question left right := by
  funext state
  rw [incomparable, incomparable, h.describeAny_eq, h.describeAny_eq]

/-! ### Computations that call methods -/

variable {run : Node → Run Handle} (hcall : call classes run = call other run)
include hcall

theorem display_eq (fuel : Nat) (value : Handle) :
    display classes run fuel value = display other run fuel value := by
  induction fuel generalizing value with
  | zero =>
      rw [Run.display_eq, Run.display_eq]
      simp only [h.canCall_eq, h.displayPlain_eq]
  | succ fuel ih =>
      rw [Run.display_eq, Run.display_eq]
      simp only [h.canCall_eq, h.displayPlain_eq, hcall, ih]

theorem compare_eq (relation : Relation) (left right : Handle) :
    compare classes run relation left right = compare other run relation left right := by
  have hequal : equal classes run left right = equal other run left right := by
    simp only [equal, askClass, hcall, h.incomparable_eq]
  have hless : less classes run left right = less other run left right := by
    simp only [less, askClass, hcall, h.incomparable_eq]
  cases relation <;> simp only [Run.compare, hequal, hless]

theorem calculate_eq (operator : Arithmetic) (left right : Handle) :
    calculate classes run operator left right = calculate other run operator left right := by
  cases operator with
  | add => simp only [calculate, add, h.canCall_eq, hcall]
  | subtract | multiply | divide => rfl

theorem printLine_eq (fuel : Nat) (arguments : List Node) :
    printLine classes run fuel arguments = printLine other run fuel arguments := by
  have hmore (nodes : List Node) :
      printMore classes run fuel nodes = printMore other run fuel nodes := by
    induction nodes with
    | nil => rfl
    | cons node nodes ih => simp only [printMore_cons, h.display_eq hcall, ih]
  cases arguments with
  | nil => rfl
  | cons node nodes => simp only [printLine_cons, h.display_eq hcall, hmore]

theorem callMethod_eq (receiver : Node) (name : String) (arguments : List Node) :
    callMethod classes run receiver name arguments =
      callMethod other run receiver name arguments := by
  simp only [callMethod, h.canCall_eq, hcall]

theorem construct_eq (cls : ClassId) (arguments : List Node) :
    construct classes run cls arguments = construct other run cls arguments := by
  simp only [construct, h.canCall_eq, hcall]

omit hcall in
/-- With both class tables a call comes to the same, if bodies run as they did. -/
theorem call_eq (fuel : Nat) :
    call classes (execute classes fuel) = call other (execute classes fuel) := by
  funext receiver name values state
  have hmethods : Option.Rel Method.CutsTo (methodOf? classes state.heap receiver name)
      (methodOf? other state.heap receiver name) := by
    unfold methodOf?
    cases state.heap.classOf? receiver with
    | none => exact .none
    | some cls => exact h.resolve cls name
  unfold call
  rw [h.className_eq]
  generalize methodOf? classes state.heap receiver name = one,
    methodOf? other state.heap receiver name = two at hmethods ⊢
  cases hmethods with
  | none => rfl
  | some hmethod => simp only [hmethod.parameters_eq, hmethod.execute_eq classes fuel]

omit hcall in
/-- All trees run alike with both class tables. -/
theorem execute_eq (fuel : Nat) : execute classes fuel = execute other fuel := by
  induction fuel with
  | zero => rfl
  | succ fuel ih =>
      have hcall := h.call_eq fuel
      funext node
      rw [execute.eq_def, execute.eq_def]
      dsimp only
      rw [← ih]
      cases node with
      | arithmetic => simp only [h.calculate_eq hcall]
      | comparison => simp only [h.compare_eq hcall]
      | stringify => simp only [h.display_eq hcall]
      | call => exact h.callMethod_eq hcall ..
      | create => exact h.construct_eq hcall ..
      | print => simp only [h.printLine_eq hcall]
      | classDefinition => simp only [h.nameOf_eq]
      | connective word => cases word <;> rfl
      | _ => rfl

end CutsTo

end Classes

/-- Code behind a sure return is dead.  A statement that surely returns gives a value on its way
out or stops early, in every state.  What stands behind it may be left out, in a tree and in the
methods of all classes, at any depth: trees and programs run as before, from every state and with
any fuel. -/
theorem execute_eq_of_cutsTo :
    (∀ node : Node, node.SurelyReturns → ∀ classes fuel, OnlyReturns (execute classes fuel node)) ∧
      (∀ node shorter : Node, node.CutsTo shorter → ∀ classes fuel,
        execute classes fuel node = execute classes fuel shorter) ∧
      ∀ classes other : Classes, classes.CutsTo other → ∀ fuel,
        execute classes fuel = execute other fuel ∧
          executeProgram classes fuel = executeProgram other fuel := by
  refine ⟨fun node h => h.onlyReturns, fun node shorter h => h.execute_eq, ?_⟩
  intro classes other h fuel
  have hexecute := h.execute_eq fuel
  refine ⟨hexecute, ?_⟩
  funext program
  rw [executeProgram, executeProgram, hexecute]

/-- Two branches that return, with code behind the return of one of them. -/
def sampleBranches (behind : List Node) : Node :=
  .ifThenElse (.variable "x" []) (.giveBack (.variable "x" []))
    (.block ([] ++ [.giveBack .absent] ++ behind))

/-- A class with a method of one parameter. -/
def sampleBrancher (body : Node) : Classes :=
  (Classes.empty.declare "A" none).define 0 ⟨"f", ["x"], .body (.block [body])⟩

/-- A state to choose a branch in. -/
def sampleChoice (value : Bool) : State :=
  ⟨.empty, Bindings.empty.set "x" (.own (.flag (.made 0) value)), ""⟩

/-- Code behind a return inside of a conditional that surely returns. -/
theorem execute_eq_of_cutsTo_sample :
    (sampleBranches [.print []]).SurelyReturns ∧
      (∀ fuel, OnlyReturns (execute .empty fuel (sampleBranches [.print []]))) ∧
      (sampleBranches [.print []]).CutsTo (sampleBranches []) ∧
      (∀ fuel, execute .empty fuel (sampleBranches [.print []]) =
        execute .empty fuel (sampleBranches [])) ∧
      (sampleBrancher (sampleBranches [.print []])).CutsTo (sampleBrancher (sampleBranches [])) ∧
      (∀ fuel, execute (sampleBrancher (sampleBranches [.print []])) fuel =
        execute (sampleBrancher (sampleBranches [])) fuel) ∧
      execute .empty 4 (sampleBranches [.print []]) (sampleChoice true) =
        .ok (.returned (.own (.flag (.made 0) true))) (sampleChoice true) ∧
      execute .empty 4 (sampleBranches [.print []]) (sampleChoice false) =
        .ok (.returned .empty) (sampleChoice false) := by
  obtain ⟨hreturns, htrees, htables⟩ := execute_eq_of_cutsTo
  have hgiven (value : Node) : (Node.giveBack value).SurelyReturns := .giveBack value
  have hsure : (sampleBranches [.print []]).SurelyReturns :=
    .ifThenElse (hgiven _) (.block (List.mem_cons_self ..) (hgiven .absent))
  have hcut : (sampleBranches [.print []]).CutsTo (sampleBranches []) :=
    .alternative _ _ (.here [] [.print []] (hgiven .absent))
  have htable : (sampleBrancher (sampleBranches [.print []])).CutsTo
      (sampleBrancher (sampleBranches [])) :=
    (Classes.cutsTo_refl _).define (.body "f" ["x"] (.body (.block [] [] hcut))) 0
  exact ⟨hsure, hreturns _ hsure .empty, hcut, htrees _ _ hcut .empty, htable,
    fun fuel => (htables _ _ htable fuel).1, rfl, rfl⟩

end Offside
