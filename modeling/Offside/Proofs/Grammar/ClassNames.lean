import Mathlib.Logic.Relation
import Offside.Proofs.Grammar.Concatenation
import Offside.Proofs.Grammar.Interruption

/-!
# What class names mean in a text

Reading a source passes some tokens of it: all of them, or those before the token that is
refused.  The headers among these tokens settle everything about class names.  Every header
makes a class of its own, a name means the class of the last header before it, and what is
declared at the end is what the headers make known (`Program.classNames_of_read`).  This holds
of a source that is refused as it does of one that is read to its end.

Parents are looked up before the header of a class, so they are older than the class, and no
class is its own ancestor (`Classes.not_ancestor_self`).
-/

namespace Offside

/-! ## Ancestors -/

namespace Classes

variable {classes : Classes} {child ancestor : ClassId}

/-- The one class names the other as its parent. -/
def Inherits (classes : Classes) (child parent : ClassId) : Prop :=
  ∃ record, classes.get? child = some record ∧ record.parent = some parent

/-- The other class is met on the way from parent to parent. -/
def Ancestor (classes : Classes) (child ancestor : ClassId) : Prop :=
  Relation.TransGen classes.Inherits child ancestor

theorem Inherits.lt (h : classes.Inherits child ancestor) : ancestor < child := by
  obtain ⟨record, hrecord, hparent⟩ := h
  exact classes.ordered child record hrecord ancestor hparent

theorem Ancestor.lt (h : classes.Ancestor child ancestor) : ancestor < child := by
  induction h with
  | single hparent => exact hparent.lt
  | tail _ hparent ih => exact Nat.lt_trans hparent.lt ih

/-- No chain of parents leads back to where it began. -/
theorem not_ancestor_self (classes : Classes) (id : ClassId) : ¬ classes.Ancestor id id :=
  fun h => Nat.lt_irrefl id h.lt

end Classes

/-! ## Headers and what they make known -/

namespace Statement

variable {base : Known} {front tokens more : List Token} {made : List ClassRecord}

/-- A header is the header of a class with this name. -/
theorem headerName?_eq_some_iff {name : String} :
    headerName? tokens = some name ↔
      ∃ parent rest, tokens = headTokens name parent ++ rest ∧
        (parent = [] ∨ ∃ other, parent = [.symbol '(', .identifier other, .symbol ')']) := by
  constructor
  · intro h
    unfold headerName? at h
    split at h
    · cases h
      exact ⟨[], _, rfl, .inl rfl⟩
    · cases h
      exact ⟨_, _, rfl, .inr ⟨_, rfl⟩⟩
    · cases h
  · rintro ⟨parent, rest, rfl, rfl | ⟨other, rfl⟩⟩ <;> rfl

/-- Plain tokens complete no header. -/
theorem headerName?_append_of_isPlain (h : IsPlain more) (tokens : List Token) :
    headerName? (tokens ++ more) = headerName? tokens := by
  have hindent : Token.indent ∉ more := fun hmem => (h _ hmem).2.1 rfl
  refine Option.ext fun name => ?_
  simp only [headerName?_eq_some_iff]
  constructor
  · rintro ⟨parent, rest, heq, hparent⟩
    rw [List.append_eq_append_iff] at heq
    obtain ⟨middle, hhead, rfl⟩ | ⟨middle, rfl, -⟩ := heq
    · -- the header would end among the plain tokens, with the opening of a block
      obtain rfl | ⟨middle, last, rfl⟩ := middle.eq_nil_or_concat'
      · exact ⟨parent, [], by rw [hhead, List.append_nil, List.append_nil], hparent⟩
      · rw [headTokens, ← List.append_assoc] at hhead
        have hlast : Token.indent = last := by
          simpa [List.getLast?_cons] using congrArg List.getLast? hhead
        exact absurd (by simp [← hlast]) hindent
    · exact ⟨parent, middle, rfl, hparent⟩
  · rintro ⟨parent, rest, rfl, hparent⟩
    exact ⟨parent, rest ++ more, List.append_assoc _ _ _, hparent⟩

theorem headers_append_of_isPlain (h : IsPlain more) (tokens : List Token) :
    headers (tokens ++ more) = headers tokens := by
  induction tokens with
  | nil => exact h.announces.headers_eq
  | cons token tokens ih =>
      rw [List.cons_append, headers, headers, ih, ← List.cons_append,
        headerName?_append_of_isPlain h]

/-- What is known before an expression is known at every place in it. -/
theorem behind_append_of_derives {classes : Bindings ClassId} {phrase : Expression.Phrase}
    (h : Expression.Derives classes phrase tokens) (hpart : more <+: tokens) (base : Known)
    (front : List Token) : base.behind (front ++ more) = base.behind front := by
  have hplain : IsPlain more := fun token hmem => h.isPlain token (hpart.subset hmem)
  rw [Known.behind, headers_append_of_isPlain hplain]
  rfl

/-- A clause that is complete makes the classes that its headers announce. -/
theorem Resolves.announces {clause : Clause} (h : Resolves base front clause tokens made) :
    Announces tokens (made.map ClassRecord.name) := by
  have hmark (mark : Layout) : Announces [.layout mark] [] := announces_single (by simp)
  induction h with
  | simple h => exact h.isPlain.announces.append (hmark .newline)
  | ifThen hcondition hconsequent ih => exact (isPlain_condition hcondition).announces.append ih
  | ifThenElse hcondition hconsequent halternative ihconsequent ihalternative =>
      have hall := (((isPlain_condition hcondition).announces.append ihconsequent).append
        isPlain_otherwise.announces).append ihalternative
      simpa using hall
  | @classDefinition _ _ name _ _ _ _ _ hparent hmethods ih =>
      have hall := ((announces_headTokens hparent name).append ih).append (hmark .dedent)
      simpa using hall
  | suite h ih =>
      have hall := (((hmark .newline).append (hmark .indent)).append ih).append
        (hmark .dedent)
      simpa using hall
  | statementsEnd => exact announces_nil
  | statementsMore hfirst hothers ihfirst ihothers =>
      rw [List.map_append]
      exact ihfirst.append ihothers
  | @method _ name names _ _ _ h ih => exact (isPlain_methodHead name names).announces.append ih
  | methodsEnd => exact announces_nil
  | methodsMore hfirst hothers ihfirst ihothers =>
      rw [List.map_append]
      exact ihfirst.append ihothers

/-- So does one that is read in part. -/
theorem Starts.headers_eq {fragment : Fragment} (h : Starts base fragment front tokens made) :
    headers tokens = made.map ClassRecord.name := by
  induction h with
  | line fragment front h => exact h.announces.headers_eq
  | header front h => exact h.headers_unfinished
  | block fragment hhead h ih =>
      rw [hhead.announces.append (announces_single (by simp)), ih]
      rfl
  | branch hhead hconsequent h ih =>
      rw [hhead.announces.append hconsequent.announces, ih, List.map_append]
      rfl
  | classDefinition hparent hmethods h ih =>
      rw [(announces_headTokens hparent _).append hmethods.announces, ih]
      simp
  | first h ih => exact ih
  | later hfirst h ih => rw [hfirst.announces, ih, List.map_append]

end Statement

/-! ## Programs -/

namespace Program

open Statement (Known Resolves Starts headers)

variable {source : Nat} {classes : Classes} {names : Bindings ClassId} {tape : Tape}

/-- Reading passes these tokens, which resolve in place and make these classes.  They are all
the tokens of a source without fault, or else those before the token that is refused. -/
def Covers (source : Nat) (classes : Classes) (names : Bindings ClassId) (tape : Tape)
    (tokens : List Token) (made : List ClassRecord) : Prop :=
  (∃ nodes, (read source classes names tape).result = .ok (.block nodes) ∧
    tape.words = tokens ++ [.eof] ∧
    Resolves ⟨names, classes.count⟩ [] (.statements false nodes) tokens made) ∨
  ∃ refusal, Statement.program source tape ⟨classes, names, []⟩ =
      .error refusal (read source classes names tape).declared ∧
    (read source classes names tape).result = .error refusal.fault ∧
    tokens = tape.words.take refusal.reached ∧
    Starts ⟨names, classes.count⟩ .statements [] tokens made

theorem Covers.map_name {tokens : List Token} {made : List ClassRecord}
    (h : Covers source classes names tape tokens made) :
    made.map ClassRecord.name = headers tokens := by
  obtain ⟨nodes, -, -, hresolves⟩ | ⟨refusal, -, -, -, hstarts⟩ := h
  · exact hresolves.announces.headers_eq.symm
  · exact hstarts.headers_eq.symm

/-- Reading a text, with a fault in it or not, declares what the tokens that it passed make
known, and makes classes behind those that there were. -/
theorem covers_of_read (source : Nat) {text : String} (htape : Tape.ofString text = .ok tape)
    (hnames : ∀ name cls, names.get? name = some cls → cls < classes.count) :
    ∃ tokens made, Covers source classes names tape tokens made ∧
      Known.of (read source classes names tape).declared =
        (⟨names, classes.count⟩ : Known).behind tokens ∧
      (read source classes names tape).declared.classes.records.toList =
        classes.records.toList ++ made := by
  have hbase : (Known.of ⟨classes, names, []⟩).IsSound := hnames
  have hstart := Known.leads_of_isPlain .nil (.of ⟨classes, names, []⟩)
  cases hprogram : Statement.program source tape ⟨classes, names, []⟩ with
  | ok nodes after =>
      have hread : (read source classes names tape).result = .ok (.block nodes) :=
        result_eq_ok_iff.mpr ⟨nodes, after, hprogram, rfl⟩
      obtain ⟨tokens, made, -, hwords, hcomposes, hmade⟩ := composes_of_read htape hread
      exact ⟨tokens, made, .inl ⟨nodes, hread, hwords, hcomposes.resolves hnames hstart⟩,
        hcomposes.leads.behind_eq.symm, hmade⟩
  | error refusal after =>
      obtain ⟨tokens, made, stuck, hpass, hreached, hstarts, hbehind, hmade⟩ :=
        Statement.halts_of_program hbase (Tape.laid_of_ofString htape) hstart hprogram
      have hread : (read source classes names tape).result = .error refusal.fault ∧
          (read source classes names tape).declared = after := by
        unfold read
        rw [hprogram]
        exact ⟨rfl, rfl⟩
      have htokens : tokens = tape.words.take refusal.reached :=
        hreached ▸ hpass.eq_take htape
      rw [hread.2]
      exact ⟨tokens, made, .inr ⟨refusal, hread.2.symm ▸ hprogram, hread.1, htokens, hstarts⟩,
        hbehind.symm, hmade⟩

/-- Reading a text, with a fault in it or not, changes no class that there was before. -/
theorem get?_declared (source : Nat) {text : String} (htape : Tape.ofString text = .ok tape)
    (hnames : ∀ name cls, names.get? name = some cls → cls < classes.count) {id : ClassId}
    (hid : id < classes.count) :
    (read source classes names tape).declared.classes.get? id = classes.get? id := by
  obtain ⟨tokens, made, -, -, hmade⟩ := covers_of_read source htape hnames
  have hfront : id < classes.records.toList.length := classes.length_toList_records ▸ hid
  unfold Classes.get?
  rw [← Array.getElem?_toList, hmade, List.getElem?_append_left hfront, Array.getElem?_toList]

/-- Class names are resolved where they stand.  Every header that is passed makes a class of its
own, numbered behind all others; a call, a parent and the node of a definition mean the class of
the last header before them that gives the name, or what the name meant before the source; and
so do the names that are declared, whether the source is read to its end or refused.  No class
is its own ancestor. -/
theorem classNames_of_read (source : Nat) {text : String} (htape : Tape.ofString text = .ok tape)
    (hnames : ∀ name cls, names.get? name = some cls → cls < classes.count) :
    ∃ tokens made, Covers source classes names tape tokens made ∧
      Known.of (read source classes names tape).declared =
        (⟨names, classes.count⟩ : Known).behind tokens ∧
      (read source classes names tape).declared.classes.records.toList =
        classes.records.toList ++ made ∧
      made.map ClassRecord.name = headers tokens ∧
      (∀ front, Known.Overlays ⟨names, classes.count⟩ (headers front)
          ((⟨names, classes.count⟩ : Known).behind front).names ∧
        ((⟨names, classes.count⟩ : Known).behind front).count =
          classes.count + (headers front).length) ∧
      (∀ front tokens more phrase, Expression.Derives
          ((⟨names, classes.count⟩ : Known).behind front).names phrase tokens → more <+: tokens →
        (⟨names, classes.count⟩ : Known).behind (front ++ more) =
          (⟨names, classes.count⟩ : Known).behind front) ∧
      ∀ id, ¬ (read source classes names tape).declared.classes.Ancestor id id := by
  obtain ⟨tokens, made, hcovers, hknown, hmade⟩ := covers_of_read source htape hnames
  refine ⟨tokens, made, hcovers, hknown, hmade, hcovers.map_name, fun front => ?_,
    fun front tokens more phrase h hpart => ?_, Classes.not_ancestor_self _⟩
  · exact ⟨Known.overlays_behind _ front, Known.count_behind _ front⟩
  · exact Statement.behind_append_of_derives h hpart _ front

/-- A class that inherits from the one whose name it takes, and is refused in its second
method. -/
theorem classNames_of_read_sample :
    ∃ tape, Tape.ofString "class A(A):\n  def f():\n    return A()\n  def g(:\n" = .ok tape ∧
      ((read 0 (Classes.empty.declare "A" none) (Bindings.empty.set "A" 0)
          tape).declared.classes.records.toList.map fun record =>
            (record.name, record.parent, record.methods.map Method.name)) =
        [("A", none, []), ("A", some 0, ["f"])] ∧
      ∃ tokens made, Covers 0 (Classes.empty.declare "A" none) (Bindings.empty.set "A" 0) tape
          tokens made ∧
        Known.of (read 0 (Classes.empty.declare "A" none) (Bindings.empty.set "A" 0)
            tape).declared =
          (⟨Bindings.empty.set "A" 0, 1⟩ : Known).behind tokens ∧
        made.map ClassRecord.name = headers tokens := by
  have hread : ((Tape.ofString "class A(A):\n  def f():\n    return A()\n  def g(:\n").map
      fun tape => (read 0 (Classes.empty.declare "A" none) (Bindings.empty.set "A" 0)
        tape).declared.classes.records.toList.map fun record =>
          (record.name, record.parent, record.methods.map Method.name)) =
      .ok [("A", none, []), ("A", some 0, ["f"])] := by
    decide +kernel
  obtain ⟨tape, htape, hrecords⟩ := exists_of_map_eq_ok hread
  have hnames : ∀ name cls, (Bindings.empty.set "A" 0).get? name = some cls →
      cls < (Classes.empty.declare "A" none).count := by
    intro name cls h
    by_cases hname : "A" = name
    · rw [Bindings.get?_set, if_pos hname] at h
      cases h
      decide
    · rw [Bindings.get?_set_of_ne _ _ hname] at h
      cases h
  obtain ⟨tokens, made, hcovers, hknown, -, hmade, -⟩ := classNames_of_read 0 htape hnames
  exact ⟨tape, htape, hrecords, tokens, made, hcovers, hknown, hmade⟩

end Program

end Offside
