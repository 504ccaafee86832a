import Offside.Proofs.Grammar.Receiver

/-!
# The heads of methods in a text

The head of a method lists its parameters, and `methodHeads` finds the heads in a text.  A source
that is read defines the methods of these heads and no others, each with the parameters that its
head lists, but for a `self` in front of them (`Program.signatures_of_read`).

The order is another one: a class that is made inside a method comes behind the class of the
method, with all the methods that this one has, and so behind heads that follow it in the text.
`Defines tokens signatures` therefore is up to the order.  Like `Announces` it looks at whatever
comes behind the tokens, so that no head is cut in two where texts are put together.
-/

namespace Offside

/-! ## Signatures -/

/-- The name of a method and its parameters. -/
def Method.signature (method : Method) : String × List String :=
  (method.name, method.parameters)

/-- The methods of a class, by name and parameters. -/
def ClassRecord.signatures (record : ClassRecord) : List (String × List String) :=
  record.methods.map Method.signature

namespace Statement

/-! ## Heads -/

/-- The names that go on a list, up to the parenthesis behind it. -/
def namesBehind? : List Token → Option (List String)
  | .symbol ')' :: _ => some []
  | .symbol ',' :: .identifier name :: rest => (namesBehind? rest).map (name :: ·)
  | _ => none

/-- The names that are listed up to a parenthesis. -/
def namesListed? : List Token → Option (List String)
  | .symbol ')' :: _ => some []
  | .identifier name :: rest => (namesBehind? rest).map (name :: ·)
  | _ => none

/-- The head of a method that a list of tokens begins with, if it begins with a whole one: the
name, and the parameters as they are listed. -/
def methodHead? : List Token → Option (String × List String)
  | .keyword .defWord :: .identifier name :: .symbol '(' :: rest =>
    (namesListed? rest).map fun names => (name, names)
  | _ => none

/-- The heads of methods, in the order of the text. -/
def methodHeads : List Token → List (String × List String)
  | [] => []
  | token :: rest => (methodHead? (token :: rest)).toList ++ methodHeads rest

/-- What a head defines: a `self` in front of the parameters is none of them. -/
def headSignature (head : String × List String) : String × List String :=
  (head.1, withoutSelf head.2)

/-- The heads among the tokens define these methods, in some order, and no head begins among them
that ends behind them. -/
def Defines (tokens : List Token) (signatures : List (String × List String)) : Prop :=
  ∀ more, ((methodHeads (tokens ++ more)).map headSignature).Perm
    (signatures ++ (methodHeads more).map headSignature)

variable {tokens more rest : List Token} {token : Token} {name : String} {names : List String}
  {defined others : List (String × List String)}

theorem methodHead?_of_ne (h : token ≠ .keyword .defWord) :
    methodHead? (token :: tokens) = none := by
  unfold methodHead?
  split
  · next heq => exact absurd (List.cons.inj heq).1 h
  · rfl

theorem methodHeads_cons_of_ne (h : token ≠ .keyword .defWord) (rest : List Token) :
    methodHeads (token :: rest) = methodHeads rest := by
  rw [methodHeads, methodHead?_of_ne h]
  rfl

theorem methodHeads_append_of_not_mem (h : .keyword .defWord ∉ tokens) (more : List Token) :
    methodHeads (tokens ++ more) = methodHeads more := by
  induction tokens with
  | nil => rfl
  | cons token tokens ih =>
      obtain ⟨hfirst, hothers⟩ := not_or.mp (mt List.mem_cons.mpr h)
      exact (methodHeads_cons_of_ne (Ne.symm hfirst) _).trans (ih hothers)

theorem namesBehind?_eq (names : List String) (rest : List Token) :
    namesBehind? ((names.flatMap fun name => [.symbol ',', .identifier name]) ++
      .symbol ')' :: rest) = some names := by
  induction names with
  | nil => rfl
  | cons name names ih => exact congrArg (Option.map (name :: ·)) ih

theorem namesListed?_parameterTokens (names : List String) (rest : List Token) :
    namesListed? (parameterTokens names ++ .symbol ')' :: rest) = some names := by
  cases names with
  | nil => rfl
  | cons first others => exact congrArg (Option.map (first :: ·)) (namesBehind?_eq others rest)

@[simp] theorem methodHead?_methodHead (name : String) (names : List String) (rest : List Token) :
    methodHead? (methodHead name names ++ rest) = some (name, names) := by
  rw [methodHead, List.append_assoc]
  exact congrArg (Option.map fun names => (name, names)) (namesListed?_parameterTokens names rest)

/-- No other head begins inside of a head. -/
@[simp] theorem methodHeads_methodHead (name : String) (names : List String) (rest : List Token) :
    methodHeads (methodHead name names ++ rest) = (name, names) :: methodHeads rest := by
  have hhead := methodHead?_methodHead name names rest
  have hothers : .keyword .defWord ∉
      (.identifier name :: .symbol '(' :: parameterTokens names ++ [.symbol ')'] : List Token) := by
    simpa using not_mem_parameterTokens .defWord names
  have hrest := methodHeads_append_of_not_mem hothers rest
  rw [methodHead, List.cons_append, List.cons_append] at hhead ⊢
  rw [methodHeads, hhead]
  exact congrArg ((name, names) :: ·) hrest

/-! ## What heads define -/

theorem Defines.perm_methodHeads (h : Defines tokens defined) :
    ((methodHeads tokens).map headSignature).Perm defined := by
  have hnil := h []
  rwa [List.append_nil, methodHeads, List.map_nil, List.append_nil] at hnil

theorem Defines.append (h : Defines tokens defined) (hmore : Defines more others) :
    Defines (tokens ++ more) (defined ++ others) := by
  intro last
  rw [List.append_assoc, List.append_assoc]
  exact (h (more ++ last)).trans ((hmore last).append_left defined)

theorem Defines.of_perm (h : Defines tokens defined) (hperm : defined.Perm others) :
    Defines tokens others :=
  fun last => (h last).trans (hperm.append_right _)

theorem defines_of_not_mem (h : .keyword .defWord ∉ tokens) : Defines tokens [] := by
  intro last
  rw [methodHeads_append_of_not_mem h]
  exact .refl _

theorem defines_single (h : token ≠ .keyword .defWord) : Defines [token] [] :=
  defines_of_not_mem (by simpa using h.symm)

theorem defines_methodHead (name : String) (names : List String) :
    Defines (methodHead name names) [(name, withoutSelf names)] := by
  intro last
  rw [methodHeads_methodHead]
  exact .refl _

/-- The head of a conditional defines nothing. -/
theorem defines_condition {classes : Bindings ClassId} {condition : Node}
    (h : Expression.Derives classes (.operand .test condition) tokens) :
    Defines (.keyword .ifWord :: tokens ++ [.symbol ':']) [] :=
  defines_of_not_mem (by simpa using not_mem_of_derives h)

/-- Neither does the header of a class. -/
theorem Inherits.defines_headTokens {classes : Bindings ClassId} {parent : Option ClassId}
    (h : Inherits classes parent tokens) (name : String) : Defines (headTokens name tokens) [] :=
  defines_of_not_mem (by simpa [headTokens] using h.not_mem)

/-- The methods that a clause reads for a class that is open around it. -/
def Clause.signatures : Clause → List (String × List String)
  | .method definition => [definition.signature]
  | .methods definitions => definitions.map Method.signature
  | .statement .. | .statements .. | .suite .. => []

/-- The heads in a clause define its own methods and those of the classes that it makes. -/
theorem Composes.defines {known after : Known} {clause : Clause} {made : List ClassRecord}
    (h : Composes known clause tokens made after) :
    Defines tokens (clause.signatures ++ made.flatMap ClassRecord.signatures) := by
  have hmark (mark : Layout) : Defines [.layout mark] [] := defines_single (by simp)
  induction h with
  | simple h => exact (defines_of_not_mem h.not_mem).append (hmark .newline)
  | ifThen hcondition _ ih =>
      simpa [Clause.signatures] using (defines_condition hcondition).append ih
  | ifThenElse hcondition _ _ ihconsequent ihalternative =>
      have helse : Defines [.keyword .elseWord, .symbol ':'] [] := defines_of_not_mem (by simp)
      simpa [Clause.signatures] using
        ((defines_condition hcondition).append ihconsequent).append (helse.append ihalternative)
  | @classDefinition _ _ _ name _ _ _ _ _ hparent _ _ ih =>
      simpa [headTokens, Clause.signatures, ClassRecord.signatures] using
        (hparent.defines_headTokens name).append (ih.append (hmark .dedent))
  | suite _ _ ih =>
      simpa [Clause.signatures] using
        (hmark .newline).append ((hmark .indent).append (ih.append (hmark .dedent)))
  | statementsEnd | methodsEnd => exact defines_of_not_mem List.not_mem_nil
  | statementsMore _ _ ihfirst ihothers =>
      simpa [Clause.signatures] using ihfirst.append ihothers
  | @method _ _ name names _ _ _ _ ih =>
      have hcolon : Defines [.symbol ':'] [] := defines_single (by simp)
      simpa [methodHead, Clause.signatures, Method.signature] using
        (defines_methodHead name names).append (hcolon.append ih)
  | @methodsMore _ _ _ first others _ _ made madeAfter _ _ ihfirst ihothers =>
      -- the classes in the first method come behind the other methods of its own class
      refine (ihfirst.append ihothers).of_perm ?_
      simpa [Clause.signatures] using
        (List.perm_append_comm_assoc (made.flatMap ClassRecord.signatures)
          (others.map Method.signature) (madeAfter.flatMap ClassRecord.signatures))

end Statement

/-! ## Programs -/

namespace Program

open Statement (methodHeads headSignature)

variable {source : Nat} {classes : Classes} {names : Bindings ClassId} {tape : Tape}
  {nodes : List Node}

/-- A source that is read makes classes behind those that there were, with the methods that the
heads in it define, and no others. -/
theorem signatures_of_read {text : String} (htape : Tape.ofString text = .ok tape)
    (hread : (read source classes names tape).result = .ok (.block nodes)) :
    ∃ made, (read source classes names tape).declared.classes.records.toList =
        classes.records.toList ++ made ∧
      (made.flatMap ClassRecord.signatures).Perm
        ((methodHeads tape.words).map headSignature) := by
  obtain ⟨tokens, made, -, hwords, hcomposes, hmade⟩ := composes_of_read htape hread
  refine ⟨made, hmade, ?_⟩
  have hend : Statement.Defines [.eof] [] := Statement.defines_single (by simp)
  have hall := (hcomposes.defines.append hend).perm_methodHeads
  rw [← hwords, List.append_nil] at hall
  exact hall.symm

end Program

end Offside
