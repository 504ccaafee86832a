import Offside.Proofs.Grammar.Concatenation
import Offside.Proofs.Grammar.Resolution

/-!
# Naming the receiver

Every call binds the receiver, so a method need not name it.  `LeavesOutSelf tokens others` says
that `self` is left out in the heads of some methods, wherever it stands in front of parameters
that do not begin with `self` once more.  Such tokens compose as the very same clauses, with the
same methods in the same classes (`Composes.exchange`), so that both programs are refused, or both
are read, as trees of one shape (`Program.read_leavesOutSelf`).

A head stands in the tokens as one piece, but nothing in a list of tokens says where a piece ends.
The induction over a derivation therefore carries along what stands behind its tokens.  A clause
is split up at its heads: up to the next one there is no `def` (`SameMethods.of_append`), and a
head is known by the parenthesis that closes it (`SameMethods.of_head`).
-/

namespace Offside.Statement

open Expression (Derives dottedTokens)

/-! ## Heads of methods -/

/-- The tokens of the head of a method, without the colon. -/
def methodHead (name : String) (parameters : List String) : List Token :=
  .keyword .defWord :: .identifier name :: .symbol '(' :: parameterTokens parameters ++
    [.symbol ')']

/-- The second tokens are the first ones with `self` left out in the heads of some methods. -/
inductive LeavesOutSelf : List Token → List Token → Prop
  | nil : LeavesOutSelf [] []
  | keep (token : Token) {tokens others : List Token} (h : LeavesOutSelf tokens others) :
      LeavesOutSelf (token :: tokens) (token :: others)
  | drop (name : String) {parameters : List String} {tokens others : List Token}
      (hfirst : parameters.head? ≠ some selfName) (h : LeavesOutSelf tokens others) :
      LeavesOutSelf (methodHead name (selfName :: parameters) ++ tokens)
        (methodHead name parameters ++ others)

/-- The tokens differ in heads of methods only, and these have the same parameters. -/
inductive SameMethods : List Token → List Token → Prop
  | nil : SameMethods [] []
  | keep (token : Token) {tokens others : List Token} (h : SameMethods tokens others) :
      SameMethods (token :: tokens) (token :: others)
  | head (name : String) {parameters twins : List String} {tokens others : List Token}
      (hsame : withoutSelf parameters = withoutSelf twins) (h : SameMethods tokens others) :
      SameMethods (methodHead name parameters ++ tokens) (methodHead name twins ++ others)

variable {tokens others rest : List Token} {name : String} {parameters : List String}

theorem withoutSelf_eq_self (h : parameters.head? ≠ some selfName) :
    withoutSelf parameters = parameters := by
  cases parameters with
  | nil => rfl
  | cons first others => exact if_neg fun heq => h (congrArg some heq)

theorem LeavesOutSelf.sameMethods (h : LeavesOutSelf tokens others) :
    SameMethods tokens others := by
  induction h with
  | nil => exact .nil
  | keep token _ ih => exact .keep token ih
  | drop name hfirst _ ih =>
      refine .head name ?_ ih
      rw [withoutSelf_eq_self hfirst, withoutSelf, if_pos rfl]

/-- Whatever stands in front of tokens may be kept. -/
theorem LeavesOutSelf.keepAll (front : List Token) (h : LeavesOutSelf tokens others) :
    LeavesOutSelf (front ++ tokens) (front ++ others) := by
  induction front with
  | nil => exact h
  | cons token front ih => exact .keep token ih

theorem leavesOutSelf_refl (tokens : List Token) : LeavesOutSelf tokens tokens := by
  simpa using LeavesOutSelf.nil.keepAll tokens

theorem SameMethods.symm (h : SameMethods tokens others) : SameMethods others tokens := by
  induction h with
  | nil => exact .nil
  | keep token _ ih => exact .keep token ih
  | head name hsame _ ih => exact .head name hsame.symm ih

/-! ## Where heads begin and end -/

/-- Tokens that begin no method are kept. -/
theorem SameMethods.of_append {front : List Token} (hfront : .keyword .defWord ∉ front)
    (h : SameMethods (front ++ rest) others) :
    ∃ behind, others = front ++ behind ∧ SameMethods rest behind := by
  induction front generalizing others with
  | nil => exact ⟨others, rfl, h⟩
  | cons token front ih =>
      obtain ⟨htoken, hfront⟩ := not_or.mp (mt List.mem_cons.mpr hfront)
      generalize hall : token :: front ++ rest = all at h
      cases h with
      | nil => cases hall
      | keep _ h =>
          obtain ⟨rfl, rfl⟩ := List.cons.inj hall
          obtain ⟨behind, rfl, hbehind⟩ := ih hfront h
          exact ⟨behind, rfl, hbehind⟩
      | head name _ _ => exact absurd (List.cons.inj hall).1.symm htoken

theorem SameMethods.eq_nil (h : SameMethods [] others) : others = [] := by
  generalize hnil : [] = tokens at h
  cases h with
  | nil => rfl
  | keep | head => cases hnil

/-- The parenthesis behind parameters says where they end. -/
theorem eq_of_parameterTokens {twins : List String}
    (h : parameterTokens parameters ++ .symbol ')' :: tokens =
      parameterTokens twins ++ .symbol ')' :: others) : parameters = twins ∧ tokens = others := by
  have hmore (names more : List String)
      (h : (names.flatMap fun name => [.symbol ',', .identifier name]) ++ .symbol ')' :: tokens =
        (more.flatMap fun name => [.symbol ',', .identifier name]) ++ .symbol ')' :: others) :
      names = more ∧ tokens = others := by
    induction names generalizing more with
    | nil =>
        cases more with
        | nil => exact ⟨rfl, (List.cons.inj h).2⟩
        | cons => cases h
    | cons name names ih =>
        cases more with
        | nil => cases h
        | cons other more =>
            simp only [List.flatMap_cons, List.cons_append, List.nil_append, List.cons.injEq,
              Token.identifier.injEq, true_and] at h
            obtain ⟨rfl, h⟩ := h
            obtain ⟨rfl, rfl⟩ := ih more h
            exact ⟨rfl, rfl⟩
  cases parameters with
  | nil =>
      cases twins with
      | nil => exact ⟨rfl, (List.cons.inj h).2⟩
      | cons => cases h
  | cons first parameters =>
      cases twins with
      | nil => cases h
      | cons twin twins =>
          simp only [parameterTokens, List.cons_append, List.cons.injEq,
            Token.identifier.injEq] at h
          obtain ⟨rfl, h⟩ := h
          obtain ⟨rfl, rfl⟩ := hmore parameters twins h
          exact ⟨rfl, rfl⟩

theorem not_mem_parameterTokens (word : Keyword) (names : List String) :
    .keyword word ∉ parameterTokens names := by
  cases names <;> simp [parameterTokens]

/-- A head may be exchanged for one with the same parameters. -/
theorem SameMethods.of_head (h : SameMethods (methodHead name parameters ++ rest) others) :
    ∃ twins behind, others = methodHead name twins ++ behind ∧
      withoutSelf parameters = withoutSelf twins ∧ SameMethods rest behind := by
  generalize hall : methodHead name parameters ++ rest = all at h
  cases h with
  | nil => cases hall
  | @keep token tokens others h =>
      obtain ⟨rfl, rfl⟩ := List.cons.inj hall
      obtain ⟨behind, rfl, hbehind⟩ := h.of_append (by
        simpa using not_mem_parameterTokens .defWord parameters)
      exact ⟨parameters, behind, rfl, rfl, hbehind⟩
  | @head other names twins tokens _ hsame h =>
      simp only [methodHead, List.cons_append, List.append_assoc, List.cons.injEq,
        Token.identifier.injEq, true_and] at hall
      obtain ⟨rfl, hall⟩ := hall
      obtain ⟨rfl, rfl⟩ := eq_of_parameterTokens hall
      exact ⟨twins, _, rfl, hsame, h⟩

/-! ## Clauses without heads -/

/-- No method begins in an expression. -/
theorem not_mem_of_derives {classes : Bindings ClassId} {phrase : Expression.Phrase}
    (h : Derives classes phrase tokens) : .keyword .defWord ∉ tokens :=
  fun hmem => by simpa [Expression.IsInner] using h.isInner _ hmem

/-- Neither does one in a simple statement. -/
theorem Simple.not_mem {names : Bindings ClassId} {inMethod : Bool} {node : Node}
    (h : Simple names inMethod node tokens) : .keyword .defWord ∉ tokens := by
  cases h with
  | giveBack h | print _ h => simpa using not_mem_of_derives h
  | expression _ h => exact not_mem_of_derives h
  | assignment _ name fields h =>
      have hname : .keyword .defWord ∉ dottedTokens name fields := by simp [dottedTokens]
      simpa [hname] using not_mem_of_derives h

theorem Inherits.not_mem {names : Bindings ClassId} {parent : Option ClassId}
    (h : Inherits names parent tokens) : .keyword .defWord ∉ tokens := by
  cases h <;> simp

/-! ## Exchanging heads -/

variable {known after : Known} {clause : Clause} {made : List ClassRecord}

/-- Where the heads of methods are exchanged for others with the same parameters, the same clauses
derive, with the same methods in the same classes. -/
theorem Composes.exchange (h : Composes known clause tokens made after)
    (hsame : SameMethods (tokens ++ rest) others) :
    ∃ twins behind, others = twins ++ behind ∧ SameMethods rest behind ∧
      Composes known clause twins made after := by
  induction h generalizing rest others with
  | @simple _ _ _ tokens h =>
      have hfront : .keyword .defWord ∉ tokens ++ [.newline] := by simpa using h.not_mem
      obtain ⟨behind, rfl, hbehind⟩ := hsame.of_append hfront
      exact ⟨_, behind, rfl, hbehind, .simple h⟩
  | @ifThen _ _ _ _ _ tokens more _ hcondition _ ih =>
      have hall : SameMethods ((.keyword .ifWord :: tokens ++ [.symbol ':']) ++ (more ++ rest))
          others := by simpa using hsame
      obtain ⟨behind, rfl, hbehind⟩ :=
        hall.of_append (by simpa using not_mem_of_derives hcondition)
      obtain ⟨twins, last, rfl, hlast, hconsequent⟩ := ih hbehind
      exact ⟨_, last, by simp, hlast, .ifThen hcondition hconsequent⟩
  | @ifThenElse _ _ _ _ _ _ _ tokens more last _ _ hcondition _ _ ihconsequent ihalternative =>
      have hall : SameMethods ((.keyword .ifWord :: tokens ++ [.symbol ':']) ++ (more ++
          ([.keyword .elseWord, .symbol ':'] ++ (last ++ rest)))) others := by simpa using hsame
      obtain ⟨behind, rfl, hbehind⟩ :=
        hall.of_append (by simpa using not_mem_of_derives hcondition)
      obtain ⟨twins, middle, rfl, hmiddle, hconsequent⟩ := ihconsequent hbehind
      obtain ⟨final, rfl, hfinal⟩ := hmiddle.of_append (by simp)
      obtain ⟨copies, rear, rfl, hrear, halternative⟩ := ihalternative hfinal
      exact ⟨_, rear, by simp, hrear, .ifThenElse hcondition hconsequent halternative⟩
  | @classDefinition _ _ inMethod name _ header tokens methods _ hparent _ hsome ih =>
      have hall : SameMethods ((.keyword .classWord :: .identifier name :: header ++
          [.symbol ':', .newline, .indent]) ++ (tokens ++ ([.dedent] ++ rest))) others := by
        simpa using hsame
      obtain ⟨behind, rfl, hbehind⟩ := hall.of_append (by simpa using hparent.not_mem)
      obtain ⟨twins, closing, rfl, hclosing, hmethods⟩ := ih hbehind
      obtain ⟨last, rfl, hlast⟩ := hclosing.of_append (by simp)
      exact ⟨_, last, by simp, hlast, .classDefinition inMethod hparent hmethods hsome⟩
  | @suite _ _ _ _ tokens _ _ hsome ih =>
      have hall : SameMethods ([.newline, .indent] ++ (tokens ++ ([.dedent] ++ rest))) others := by
        simpa using hsame
      obtain ⟨behind, rfl, hbehind⟩ := hall.of_append (by simp)
      obtain ⟨twins, closing, rfl, hclosing, hstatements⟩ := ih hbehind
      obtain ⟨last, rfl, hlast⟩ := hclosing.of_append (by simp)
      exact ⟨_, last, by simp, hlast, .suite hstatements hsome⟩
  | statementsEnd known inMethod => exact ⟨[], others, rfl, hsame, .statementsEnd known inMethod⟩
  | statementsMore _ _ ihfirst ihothers =>
      rw [List.append_assoc] at hsame
      obtain ⟨twins, behind, rfl, hbehind, hfirst⟩ := ihfirst hsame
      obtain ⟨more, last, rfl, hlast, hothers⟩ := ihothers hbehind
      exact ⟨_, last, by simp, hlast, .statementsMore hfirst hothers⟩
  | @method _ _ name names _ tokens _ _ ih =>
      have hall : SameMethods (methodHead name names ++ ([.symbol ':'] ++ (tokens ++ rest)))
          others := by simpa [methodHead] using hsame
      obtain ⟨twins, behind, rfl, hparameters, hbehind⟩ := hall.of_head
      obtain ⟨opening, rfl, hopening⟩ := hbehind.of_append (by simp)
      obtain ⟨more, last, rfl, hlast, hblock⟩ := ih hopening
      rw [hparameters]
      exact ⟨_, last, by simp [methodHead], hlast, .method hblock⟩
  | methodsEnd known => exact ⟨[], others, rfl, hsame, .methodsEnd known⟩
  | methodsMore _ _ ihfirst ihothers =>
      rw [List.append_assoc] at hsame
      obtain ⟨twins, behind, rfl, hbehind, hfirst⟩ := ihfirst hsame
      obtain ⟨more, last, rfl, hlast, hothers⟩ := ihothers hbehind
      exact ⟨_, last, by simp, hlast, .methodsMore hfirst hothers⟩

end Offside.Statement

namespace Offside.Program

open Statement

variable {source whole : Nat} {classes others : Classes} {names : Bindings ClassId}
  {tape twin : Tape} {nodes : List Node}

/-- A source with other heads of the same parameters is read too, and the trees and the classes
of both have one shape. -/
theorem read_sameMethods {text : String} (htape : Tape.ofString text = .ok tape)
    (hscanned : twin.fault? = none)
    (hsame : SameMethods tape.words twin.words) (hclasses : classes.Mirrors others)
    (hread : (read source classes names tape).result = .ok (.block nodes)) :
    ∃ copies, (read whole others names twin).result = .ok (.block copies) ∧
      Node.MirrorsAll id copies nodes ∧
      (read source classes names tape).declared.classes.Mirrors
        (read whole others names twin).declared.classes := by
  obtain ⟨tokens, made, -, hwords, hcomposes, hmade⟩ := composes_of_read htape hread
  rw [hwords] at hsame
  obtain ⟨twins, behind, hall, hbehind, hexchanged⟩ := hcomposes.exchange hsame
  -- nothing stands behind the program but the end of the source
  have hend : SameMethods ([.eof] ++ []) behind := hbehind
  obtain ⟨last, rfl, hlast⟩ := hend.of_append (by simp)
  cases hlast.eq_nil
  have hstart : Matches id ⟨names, classes.count⟩ ⟨others, names, []⟩ := by
    rw [hclasses.count_eq]
    exact @Matches.refl ⟨others, names, []⟩
  obtain ⟨copies, hcopies, hmirrors, ⟨records, hrecords, hshapes⟩, -⟩ :=
    read_of_composes hexchanged hstart hscanned hall whole
  refine ⟨copies, hcopies, hmirrors, ?_⟩
  rw [Classes.Mirrors, hrecords, hmade, List.map_append, List.map_append, hshapes, hclasses]

/-- Where `self` is left out in heads of methods, the two sources are refused both, or both are
read, and their trees and classes have one shape. -/
theorem read_leavesOutSelf {text copy : String} (htape : Tape.ofString text = .ok tape)
    (htwin : Tape.ofString copy = .ok twin) (hscanned : tape.fault? = none)
    (hscanned' : twin.fault? = none) (hsame : LeavesOutSelf tape.words twin.words)
    (hclasses : classes.Mirrors others) :
    (∃ fault other, (read source classes names tape).result = .error fault ∧
        (read whole others names twin).result = .error other) ∨
      ∃ nodes copies, (read source classes names tape).result = .ok (.block nodes) ∧
        (read whole others names twin).result = .ok (.block copies) ∧
        Node.MirrorsAll id nodes copies ∧
        (read source classes names tape).declared.classes.Mirrors
          (read whole others names twin).declared.classes := by
  cases hread : (read source classes names tape).result with
  | ok tree =>
      obtain ⟨nodes, hnodes⟩ := exists_block (by rw [hread]; rfl)
      obtain ⟨copies, hcopies, hmirrors, hdeclared⟩ :=
        read_sameMethods htape hscanned' hsame.sameMethods hclasses hnodes
      exact .inr ⟨nodes, copies, hread.symm.trans hnodes, hcopies, hmirrors.symm, hdeclared⟩
  | error fault =>
      refine .inl ⟨fault, ?_⟩
      cases hcopy : (read whole others names twin).result with
      | error other => exact ⟨other, rfl, rfl⟩
      | ok tree =>
          obtain ⟨copies, hcopies⟩ := exists_block (by rw [hcopy]; rfl)
          obtain ⟨nodes, hnodes, -⟩ :=
            read_sameMethods htwin hscanned hsame.sameMethods.symm hclasses.symm hcopies
          cases hread.symm.trans hnodes

end Offside.Program
