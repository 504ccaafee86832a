import Offside.Proofs.Tree.Shape
import Offside.Proofs.Reading.Expression

/-!
# What derives is read

A tape on which tokens derive from a phrase, followed by a token that does not carry
the phrase on, is read to the end of the phrase.  The tree that is read mirrors the
tree of the derivation: the numbers of classes may differ by `rename`, and literals
have the origins of the tape.

`Phrase.Complete` says this for every kind of phrase, and `Derives.complete` proves it
by induction on the derivation.
-/

namespace Offside.Expression

open Tape

/-! ## Levels -/

section

variable {outer tape rest : Tape} {inner : Inner outer} {setting : Setting}

/-- A level reads what the next level begins and the level itself carries on. -/
theorem Level.reads_of_next {level : Level} (hlevel : level ≠ .primary)
    {h : tape.length ≤ outer.length} (hbegins : level.next.Begins tape.current)
    (hstops : level.Stops rest.current) {first whole : Node} {middle : Tape}
    {hmiddle : middle.length ≤ outer.length}
    (hfirst : Reads (level.next.read inner setting tape h) first middle)
    (hmore : Reads (joined level.joins (level.next.read inner setting) first middle hmiddle)
      whole rest) :
    Reads (level.read inner setting tape h) whole rest := by
  -- a level that joins nothing adds nothing to its operand
  have halone (hnone : ∀ token, level.joins token = none) : whole = first ∧ middle = rest := by
    rcases reads_joined.mp hmore with ⟨-, hwhole, hrest⟩ | ⟨operator, join, _, _, _, _, _, hjoin, -⟩
    · exact ⟨hwhole, hrest⟩
    · rw [hnone operator] at hjoin
      cases hjoin
  cases level with
  | test => exact (Level.reads_chain .test (.keyword .orWord) rfl).mpr ⟨_, _, _, hfirst, hmore⟩
  | conjunct =>
      exact (Level.reads_chain .conjunct (.keyword .andWord) rfl).mpr ⟨_, _, _, hfirst, hmore⟩
  | sum => exact (Level.reads_chain .sum (.symbol '+') rfl).mpr ⟨_, _, _, hfirst, hmore⟩
  | product => exact (Level.reads_chain .product (.symbol '*') rfl).mpr ⟨_, _, _, hfirst, hmore⟩
  | negated =>
      obtain ⟨rfl, rfl⟩ := halone fun _ => rfl
      -- what begins a comparison is not `not`
      refine reads_negated.mpr (.inl ⟨?_, hfirst⟩)
      intro hcurrent
      rw [hcurrent] at hbegins
      exact absurd hbegins (by simp [Level.Begins, Level.next, Level.rank])
  | comparison =>
      obtain ⟨rfl, rfl⟩ := halone fun _ => rfl
      exact reads_compared.mpr (.inl ⟨hfirst, hstops.relation_eq_none (Nat.le_refl _)⟩)
  | signed =>
      obtain ⟨rfl, rfl⟩ := halone fun _ => rfl
      -- what begins a primary operand is not a sign
      refine reads_signed.mpr (.inl ⟨?_, hfirst⟩)
      intro hcurrent
      rw [hcurrent] at hbegins
      exact absurd hbegins (by simp [Level.Begins, Level.next, Level.rank])
  | primary => exact absurd rfl hlevel

end

/-- Where an operand lies ahead, the current token may begin it. -/
theorem Derives.begins_current {classes : Bindings ClassId} {level : Level} {node : Node}
    {tokens : List Token} {tape rest : Tape} (h : Derives classes (.operand level node) tokens)
    (hpass : Passes tape tokens rest) : level.Begins tape.current := by
  obtain ⟨token, others, rfl, hbegins⟩ := h.begins
  rw [hpass.current_eq]
  exact hbegins

/-- What joins on behind an operand, or what follows, ends the operand. -/
theorem Derives.stops_of_tail {classes : Bindings ClassId} {level : Level} {left whole : Node}
    {tokens : List Token} {tape rest : Tape} (h : Derives classes (.tail level left whole) tokens)
    (hpass : Passes tape tokens rest) (hstops : level.Stops rest.current) :
    level.next.Stops tape.current := by
  cases h with
  | tailEnd =>
      obtain rfl := passes_nil.mp hpass
      exact hstops.next
  | tailMore hjoin =>
      rw [Passes.current_eq hpass]
      exact Level.stops_next_of_joins hjoin

/-- A comma ends an argument, and so does what ends all of them. -/
theorem Derives.stops_of_moreArguments {classes : Bindings ClassId} {nodes : List Node}
    {tokens : List Token} {tape rest : Tape} (h : Derives classes (.moreArguments nodes) tokens)
    (hpass : Passes tape tokens rest) (hstops : carriesOn? rest.current = none) :
    Level.test.Stops tape.current := by
  cases h with
  | moreArgumentsEnd =>
      obtain rfl := passes_nil.mp hpass
      exact Level.stops_of_carriesOn?_eq_none hstops
  | moreArgumentsMore =>
      rw [Passes.current_eq hpass]
      exact Level.stops_of_carriesOn?_eq_none rfl

/-- What carries an operand on, or what follows, ends that operand. -/
theorem CarriesOn.stops {classes : Bindings ClassId} {level : Level} {first whole : Node}
    {tokens : List Token} {tape rest : Tape} (h : CarriesOn classes level first whole tokens)
    (hpass : Passes tape tokens rest) (hstops : level.Stops rest.current) :
    Level.primary.Stops tape.current := by
  induction h generalizing rest with
  | primary =>
      obtain rfl := passes_nil.mp hpass
      exact hstops
  | chain hlevel hfirst hmore ih =>
      obtain ⟨middle, hpassFirst, hpassMore⟩ := passes_append.mp hpass
      exact ih hpassFirst (hmore.stops_of_tail hpassMore hstops)
  | comparison hleft hfound hright ih =>
      obtain ⟨middle, hpassLeft, hpassMore⟩ := passes_append.mp hpass
      exact ih hpassLeft (Passes.current_eq hpassMore ▸ Level.stops_sum_of_relation hfound)

/-! ## Trees that mirror each other -/

variable {classes : Bindings ClassId} {setting : Setting} {rename : ClassId → ClassId}

theorem mirrors_join {level : Level} {operator : Token} {join : Node → Node → Node}
    (hjoin : level.joins operator = some join) {left right leftCopy rightCopy : Node}
    (hleft : leftCopy.Mirrors rename left) (hright : rightCopy.Mirrors rename right) :
    (join leftCopy rightCopy).Mirrors rename (join left right) := by
  unfold Node.Mirrors at hleft hright ⊢
  rcases joins_cases hjoin with ⟨-, -, rfl⟩ | ⟨-, -, rfl⟩ | ⟨-, -, rfl⟩ | ⟨-, -, rfl⟩ |
    ⟨-, -, rfl⟩ | ⟨-, -, rfl⟩ <;> simp only [Node.shape, hleft, hright]

theorem mirrors_comparison {found : Relation} {left right leftCopy rightCopy : Node}
    (hleft : leftCopy.Mirrors rename left) (hright : rightCopy.Mirrors rename right) :
    (Node.comparison found leftCopy rightCopy).Mirrors rename (.comparison found left right) := by
  unfold Node.Mirrors at hleft hright ⊢
  simp only [Node.shape, hleft, hright]

theorem mirrors_literal (other : Origin) {origin : Origin} {token : Token} {node : Node}
    (h : literal? origin token = some node) :
    ∃ copy, literal? other token = some copy ∧ copy.Mirrors rename node := by
  unfold literal? at h ⊢
  split at h <;> cases h <;> exact ⟨_, rfl, rfl⟩

theorem mirrors_applied {name : String} {fields : List String} {values copies : List Node}
    {call : Node} (hclasses : ∀ name, setting.classes.get? name = (classes.get? name).map rename)
    (hcall : applied? classes name fields values = some call)
    (hcopies : Node.MirrorsAll rename copies values) :
    ∃ copy, applied? setting.classes name fields copies = some copy ∧
      copy.Mirrors rename call := by
  unfold applied? at hcall ⊢
  cases hfields : fields.getLast? with
  | some method =>
      simp only [hfields, Option.some.injEq] at hcall ⊢
      subst hcall
      exact ⟨_, rfl, by simp only [Node.Mirrors, Node.shape]; rw [hcopies]⟩
  | none =>
      simp only [hfields] at hcall ⊢
      split at hcall
      · rename_i hname
        split at hcall
        · rename_i operand
          cases hcall
          obtain ⟨copy, others, rfl, hcopy, hothers⟩ := hcopies.of_cons
          obtain rfl := hothers.eq_nil
          exact ⟨.stringify copy, by simp only [if_pos hname],
            by simp only [Node.Mirrors, Node.shape]; rw [hcopy]⟩
        · cases hcall
      · rename_i hname
        obtain ⟨cls, hcls, rfl⟩ := Option.map_eq_some_iff.mp hcall
        refine ⟨.create (rename cls) copies, ?_, ?_⟩
        · simp only [if_neg hname, hclasses, hcls, Option.map_some]
        · simp only [Node.Mirrors, Node.shape, id]
          rw [hcopies]

/-! ## Completeness -/

/-- Where the tokens of a phrase lie ahead, and what follows does not carry the phrase on,
its reader reads them and gives a tree that mirrors that of the phrase. -/
def Phrase.Complete (setting : Setting) (rename : ClassId → ClassId) :
    Phrase → List Token → Prop
  | operand level node, tokens => ∀ {outer tape rest : Tape} (h : tape.length ≤ outer.length),
      Passes tape tokens rest → level.Stops rest.current →
      ∃ copy, Reads (level.read (inside setting outer) setting tape h) copy rest ∧
        copy.Mirrors rename node
  | tail level left whole, tokens => ∀ {outer tape rest : Tape} (h : tape.length ≤ outer.length)
      {leftCopy : Node}, leftCopy.Mirrors rename left →
      Passes tape tokens rest → level.Stops rest.current →
      ∃ copy, Reads (joined level.joins (level.next.read (inside setting outer) setting) leftCopy
          tape h) copy rest ∧ copy.Mirrors rename whole
  | arguments nodes, tokens => ∀ {outer tape rest : Tape} (h : tape.length ≤ outer.length),
      Passes tape (.symbol '(' :: tokens ++ [.symbol ')']) rest →
      ∃ copies, Reads (Expression.arguments (inside setting outer) tape h) copies rest ∧
        Node.MirrorsAll rename copies nodes
  | moreArguments nodes, tokens => ∀ {outer tape rest : Tape} (h : tape.length ≤ outer.length),
      Passes tape tokens rest → carriesOn? rest.current = none → rest.current ≠ .symbol ',' →
      ∃ copies, Reads (Expression.moreArguments (inside setting outer) tape h) copies rest ∧
        Node.MirrorsAll rename copies nodes
  | calls receiver whole, tokens => ∀ {outer tape rest : Tape} (h : tape.length ≤ outer.length)
      {receiverCopy : Node}, receiverCopy.Mirrors rename receiver →
      Passes tape tokens rest → rest.current ≠ .symbol '.' →
      ∃ copy, Reads (moreCalls (inside setting outer) receiverCopy tape h) copy rest ∧
        copy.Mirrors rename whole

/-- A name that is called is read to the end of its calls. -/
theorem Phrase.Complete.reference {name : String} {fields : List String} {values : List Node}
    {call whole : Node} {tokens more : List Token}
    (hclasses : ∀ name, setting.classes.get? name = (classes.get? name).map rename)
    (hvalues : (arguments values).Complete setting rename tokens)
    (hcall : applied? classes name fields values = some call)
    (hmore : (calls call whole).Complete setting rename more) {outer named rest : Tape}
    (h : named.length ≤ outer.length)
    (hpass : Passes named (.symbol '(' :: tokens ++ .symbol ')' :: more) rest)
    (hpoint : rest.current ≠ .symbol '.') :
    ∃ copy, Reads (Expression.reference (inside setting outer) setting name fields named h) copy
      rest ∧ copy.Mirrors rename whole := by
  obtain ⟨called, hpassValues, hpassMore⟩ :=
    Passes.split (.symbol '(' :: tokens ++ [.symbol ')']) (by simpa using hpass)
  have hcalled := Nat.le_trans hpassValues.length_le h
  obtain ⟨copies, hreadValues, hcopies⟩ := hvalues h hpassValues
  obtain ⟨callCopy, hcallCopy, hcallMirror⟩ := mirrors_applied hclasses hcall hcopies
  obtain ⟨copy, hread, hmirror⟩ := hmore hcalled hcallMirror hpassMore hpoint
  exact ⟨copy, reads_reference.mpr (.inr ⟨copies, called, callCopy, hcalled, hreadValues,
    hcallCopy, hread⟩), hmirror⟩

/-- What derives is read. -/
theorem Derives.complete {phrase : Phrase} {tokens : List Token}
    (hclasses : ∀ name, setting.classes.get? name = (classes.get? name).map rename)
    (h : Derives classes phrase tokens) : phrase.Complete setting rename tokens := by
  induction h with
  | chain hlevel hfirst hmore ihfirst ihmore =>
      intro outer tape rest h hpass hstops
      obtain ⟨middle, hpassFirst, hpassMore⟩ := passes_append.mp hpass
      -- the operand ends where the tail of its level begins
      have hbegins := hfirst.begins_current hpassFirst
      obtain ⟨firstCopy, hreadFirst, hmirror⟩ :=
        ihfirst h hpassFirst (hmore.stops_of_tail hpassMore hstops)
      obtain ⟨copy, hread, hwhole⟩ :=
        ihmore (Nat.le_trans hpassFirst.length_le h) hmirror hpassMore hstops
      exact ⟨copy, Level.reads_of_next hlevel hbegins hstops hreadFirst hread, hwhole⟩
  | tailEnd level left =>
      intro outer tape rest h leftCopy hleft hpass hstops
      obtain rfl := passes_nil.mp hpass
      exact ⟨leftCopy, reads_joined.mpr (.inl ⟨hstops.joins_eq_none, rfl, rfl⟩), hleft⟩
  | @tailMore level operator join left right whole tokens more hjoin hright hmore ihright ihmore =>
      intro outer tape rest h leftCopy hleft hpass hstops
      obtain ⟨joinedOn, hpassRight, hpassMore⟩ := passes_append.mp hpass
      obtain ⟨behind, hoperator, hpassRight⟩ :=
        hpassRight.split [operator]
      have hbehind := Nat.le_trans hoperator.length_le h
      have hjoinedOn := Nat.le_trans hpassRight.length_le hbehind
      obtain ⟨rightCopy, hreadRight, hrightMirror⟩ :=
        ihright hbehind hpassRight (hmore.stops_of_tail hpassMore hstops)
      obtain ⟨copy, hread, hwhole⟩ :=
        ihmore hjoinedOn (mirrors_join hjoin hleft hrightMirror) hpassMore hstops
      exact ⟨copy, reads_joined.mpr (.inr ⟨operator, join, behind, rightCopy, joinedOn, hbehind,
        hjoinedOn, hjoin, hoperator, hreadRight, hread⟩), hwhole⟩
  | negation hoperand ih =>
      intro outer tape rest h hpass hstops
      obtain ⟨behind, hword, hpassOperand⟩ :=
        hpass.split [.keyword .notWord]
      have hbehind := Nat.le_trans hword.length_le h
      obtain ⟨copy, hread, hmirror⟩ := ih hbehind hpassOperand hstops
      exact ⟨.negation copy, reads_negated.mpr (.inr ⟨behind, copy, hbehind, hword, hread, rfl⟩),
        congrArg Node.negation hmirror⟩
  | @comparison operator found left right tokens more hleft hfound hright ihleft ihright =>
      intro outer tape rest h hpass hstops
      obtain ⟨behind, hpassLeft, hpassMore⟩ := passes_append.mp hpass
      obtain ⟨compared, hoperator, hpassRight⟩ := hpassMore.split [operator]
      have hcompared : compared.length ≤ outer.length :=
        calc compared.length
            ≤ behind.length := hoperator.length_le
          _ ≤ tape.length := hpassLeft.length_le
          _ ≤ outer.length := h
      obtain ⟨leftCopy, hreadLeft, hleftMirror⟩ := ihleft h hpassLeft
        (hoperator.current_eq ▸ Level.stops_sum_of_relation hfound)
      obtain ⟨rightCopy, hreadRight, hrightMirror⟩ :=
        ihright hcompared hpassRight (hstops.next)
      exact ⟨.comparison found leftCopy rightCopy, reads_compared.mpr (.inr ⟨leftCopy, rightCopy,
        operator, found, behind, compared, hcompared, hreadLeft, hfound, hoperator, hreadRight,
        rfl⟩), mirrors_comparison hleftMirror hrightMirror⟩
  | sign origin hoperand ih =>
      intro outer tape rest h hpass hstops
      obtain ⟨behind, hsign, hpassOperand⟩ := hpass.split [.symbol '-']
      have hbehind := Nat.le_trans hsign.length_le h
      obtain ⟨copy, hread, hmirror⟩ := ih hbehind hpassOperand hstops
      refine ⟨_, reads_signed.mpr (.inr ⟨behind, copy, hbehind, hsign, hread, rfl⟩), ?_⟩
      simp only [Node.Mirrors, Node.shape]
      rw [hmirror]
  | literal hliteral =>
      intro outer tape rest h hpass hstops
      obtain ⟨copy, hcopy, hmirror⟩ :=
        mirrors_literal (.literal setting.source tape.place.index) hliteral
      -- the literal takes its origin from the tape, not from the derivation
      rw [← hpass.current_eq] at hcopy hpass
      exact ⟨copy, (reads_primary_literal (h := h) hcopy).mpr ⟨hpass, rfl⟩, hmirror⟩
  | parenthesized hnode ih =>
      intro outer tape rest h hpass hstops
      obtain ⟨closed, hpassOpen, hclose⟩ := passes_append.mp hpass
      obtain ⟨opened, hopen, hpassNode⟩ := hpassOpen.split [.symbol '(']
      have hopened := Nat.lt_of_lt_of_le (reads_advance.mpr hopen).shorter h
      have hstopsNode : Level.test.Stops closed.current :=
        hclose.current_eq ▸ Level.stops_of_carriesOn?_eq_none rfl
      -- inside the parentheses the tape that bounds the reading is the one behind `(`
      obtain ⟨copy, hread, hmirror⟩ := ih (Nat.le_refl _) hpassNode hstopsNode
      exact ⟨copy, (reads_primary_parenthesis (h := h) hpass.current_eq).mpr
        ⟨opened, closed, hopened, hopen, reads_expression.mpr hread, hclose⟩, hmirror⟩
  | dotted name fields =>
      intro outer tape rest h hpass hstops
      refine ⟨.variable name fields, (reads_primary_name (h := h) hpass.current_eq).mpr
        ⟨name, fields, rest, Nat.le_trans hpass.length_le h, hpass, hstops.ne_symbol rfl, ?_⟩, rfl⟩
      exact reads_reference.mpr (.inl ⟨hstops.ne_symbol rfl, rfl, rfl⟩)
  | @application name fields values call whole tokens more hvalues hcall hmore ihvalues ihmore =>
      intro outer tape rest h hpass hstops
      rw [List.append_assoc, passes_append] at hpass
      obtain ⟨named, hname, hpass⟩ := hpass
      have hnamed := Nat.le_trans hname.length_le h
      obtain ⟨copy, hread, hmirror⟩ := Phrase.Complete.reference hclasses ihvalues hcall ihmore
        hnamed hpass (hstops.ne_symbol rfl)
      refine ⟨copy, (reads_primary_name (h := h) hname.current_eq).mpr
        ⟨name, fields, named, hnamed, hname, ?_, hread⟩, hmirror⟩
      rw [hpass.current_eq]
      decide
  | argumentsEnd =>
      intro outer tape rest h hpass
      obtain ⟨opened, hopen, hclose⟩ := hpass.split [.symbol '(']
      exact ⟨[], reads_arguments.mpr ⟨opened, hopen, .inl ⟨rfl, hclose⟩⟩, rfl⟩
  | @argumentsMore first others tokens more hfirst hothers ihfirst ihothers =>
      intro outer tape rest h hpass
      obtain ⟨closed, hpassOpen, hclose⟩ := passes_append.mp hpass
      obtain ⟨opened, hopen, hpassAll⟩ := hpassOpen.split [.symbol '(']
      obtain ⟨behind, hpassFirst, hpassOthers⟩ := passes_append.mp hpassAll
      have hopened := Nat.lt_of_lt_of_le (reads_advance.mpr hopen).shorter h
      have hbehind := Nat.le_trans hpassFirst.length_le (Nat.le_of_lt hopened)
      obtain ⟨firstCopy, hreadFirst, hmirror⟩ :=
        ihfirst (Nat.le_refl _) hpassFirst (hothers.stops_of_moreArguments hpassOthers
          (hclose.current_eq ▸ rfl))
      obtain ⟨copies, hreadOthers, hcopies⟩ := ihothers hbehind hpassOthers
        (hclose.current_eq ▸ rfl) (hclose.current_eq ▸ by decide)
      -- left to show: there are arguments at all, since no operand begins with `)`
      refine ⟨firstCopy :: copies, reads_arguments.mpr ⟨opened, hopen, .inr ⟨?_, closed, hopened,
        reads_someArguments.mpr ⟨firstCopy, copies, behind, hbehind,
          reads_expression.mpr hreadFirst, hreadOthers, rfl⟩, hclose⟩⟩, .cons hmirror hcopies⟩
      intro hcurrent
      have hbegins := hfirst.begins_current hpassFirst
      rw [hcurrent] at hbegins
      exact hbegins
  | moreArgumentsEnd =>
      intro outer tape rest h hpass hstops hcomma
      obtain rfl := passes_nil.mp hpass
      exact ⟨[], reads_moreArguments.mpr (.inl ⟨hcomma, rfl, rfl⟩), rfl⟩
  | @moreArgumentsMore first others tokens more hfirst hothers ihfirst ihothers =>
      intro outer tape rest h hpass hstops hcomma
      obtain ⟨behind, hpassComma, hpassOthers⟩ := passes_append.mp hpass
      obtain ⟨afterComma, hpassComma, hpassFirst⟩ :=
        hpassComma.split [.symbol ',']
      have hafterComma := Nat.lt_of_lt_of_le (reads_advance.mpr hpassComma).shorter h
      have hbehind := Nat.le_trans hpassFirst.length_le (Nat.le_of_lt hafterComma)
      obtain ⟨firstCopy, hreadFirst, hmirror⟩ :=
        ihfirst (Nat.le_refl _) hpassFirst (hothers.stops_of_moreArguments hpassOthers hstops)
      obtain ⟨copies, hreadOthers, hcopies⟩ := ihothers hbehind hpassOthers hstops hcomma
      exact ⟨firstCopy :: copies, reads_moreArguments.mpr (.inr ⟨firstCopy, copies, afterComma,
        behind, hafterComma, hbehind, hpassComma, reads_expression.mpr hreadFirst, hreadOthers,
        rfl⟩), .cons hmirror hcopies⟩
  | callsEnd receiver =>
      intro outer tape rest h receiverCopy hreceiver hpass hpoint
      obtain rfl := passes_nil.mp hpass
      exact ⟨receiverCopy, reads_moreCalls.mpr (.inl ⟨hpoint, rfl, rfl⟩), hreceiver⟩
  | @callsMore receiver whole method values tokens more hvalues hmore ihvalues ihmore =>
      intro outer tape rest h receiverCopy hreceiver hpass hpoint
      obtain ⟨named, hpassName, hpass⟩ :=
        hpass.split [.symbol '.', .identifier method]
      -- the arguments take both parentheses, the calls behind them what is left
      obtain ⟨called, hpassValues, hpassMore⟩ :=
        Passes.split (.symbol '(' :: tokens ++ [.symbol ')']) (by simpa using hpass)
      have hnamed := Nat.le_trans hpassName.length_le h
      have hcalled := Nat.le_trans hpassValues.length_le hnamed
      obtain ⟨copies, hreadValues, hcopies⟩ := ihvalues hnamed hpassValues
      have hcall : (Node.call receiverCopy method copies).Mirrors rename
          (.call receiver method values) := by
        simp only [Node.Mirrors, Node.shape]
        rw [hreceiver, hcopies]
      obtain ⟨copy, hread, hmirror⟩ := ihmore hcalled hcall hpassMore hpoint
      exact ⟨copy, reads_moreCalls.mpr (.inr ⟨method, copies, named, called, hnamed, hcalled,
        hpassName, hreadValues, hread⟩), hmirror⟩

/-! ## Whole expressions -/

variable (hclasses : ∀ name, setting.classes.get? name = (classes.get? name).map rename)
include hclasses

/-- What derives as an expression is read as one. -/
theorem Derives.reads {tape rest : Tape} {node : Node} {tokens : List Token}
    (h : Derives classes (.operand .test node) tokens) (hpass : Passes tape tokens rest)
    (hstops : Level.test.Stops rest.current) :
    ∃ copy, Reads (expression setting tape) copy rest ∧ copy.Mirrors rename node := by
  obtain ⟨copy, hread, hmirror⟩ := h.complete hclasses (Nat.le_refl _) hpass hstops
  exact ⟨copy, reads_expression.mpr hread, hmirror⟩

/-- What derives as arguments is read as expressions with commas between them. -/
theorem Derives.reads_expressions {tape rest : Tape} {first : Node} {others : List Node}
    {tokens : List Token} (h : Derives classes (.arguments (first :: others)) tokens)
    (hpass : Passes tape tokens rest) (hstops : carriesOn? rest.current = none)
    (hcomma : rest.current ≠ .symbol ',') :
    ∃ copies, Reads (expressions setting tape) copies rest ∧
      Node.MirrorsAll rename copies (first :: others) := by
  cases h with
  | argumentsMore hfirst hothers =>
      obtain ⟨behind, hpassFirst, hpassOthers⟩ := passes_append.mp hpass
      obtain ⟨copy, hread, hmirror⟩ := hfirst.reads hclasses hpassFirst
        (hothers.stops_of_moreArguments hpassOthers hstops)
      obtain ⟨copies, hreadOthers, hcopies⟩ :=
        hothers.complete hclasses hpassFirst.length_le hpassOthers hstops hcomma
      exact ⟨copy :: copies, Expression.reads_expressions.mpr ⟨copy, copies, behind, _, hread,
        hreadOthers, rfl⟩, .cons hmirror hcopies⟩

/-! ### What follows an operand

A reader that already holds the operand goes down the levels without it.  A level that
joins nothing shows up in the derivation with an empty tail. -/

section

variable {outer tape rest : Tape} {left leftCopy whole : Node} {tokens : List Token}

theorem CarriesOn.reads_product (h : tape.length ≤ outer.length)
    (hcarries : CarriesOn classes .product left whole tokens)
    (hleft : leftCopy.Mirrors rename left) (hpass : Passes tape tokens rest)
    (hstops : Level.product.Stops rest.current) :
    ∃ copy, Reads (productTail (inside setting outer) setting leftCopy tape h) copy rest ∧
      copy.Mirrors rename whole := by
  cases hcarries with
  | chain _ hsigned hmore =>
      -- neither a sign nor a primary operand stands between the operand and its factors
      cases hsigned with
      | chain _ hprimary hnone =>
          cases hprimary with
          | chain hlevel => exact absurd rfl hlevel
          | primary =>
              cases hnone with
              | tailEnd => exact hmore.complete hclasses h hleft hpass hstops
              | tailMore hjoin => cases hjoin

theorem CarriesOn.reads_sum (h : tape.length ≤ outer.length)
    (hcarries : CarriesOn classes .sum left whole tokens)
    (hleft : leftCopy.Mirrors rename left) (hpass : Passes tape tokens rest)
    (hstops : Level.sum.Stops rest.current) :
    ∃ copy, Reads (sumTail (inside setting outer) setting leftCopy tape h) copy rest ∧
      copy.Mirrors rename whole := by
  cases hcarries with
  | chain _ hfirst hmore =>
      obtain ⟨behind, hpassFirst, hpassMore⟩ := passes_append.mp hpass
      obtain ⟨firstCopy, hreadFirst, hfirstMirror⟩ := hfirst.reads_product hclasses h hleft
        hpassFirst (hmore.stops_of_tail hpassMore hstops)
      obtain ⟨copy, hread, hmirror⟩ := hmore.complete hclasses
        (Nat.le_trans hpassFirst.length_le h) hfirstMirror hpassMore hstops
      exact ⟨copy, reads_sumTail.mpr ⟨firstCopy, behind, _, hreadFirst, hread⟩, hmirror⟩

theorem CarriesOn.reads_comparison (h : tape.length ≤ outer.length)
    (hcarries : CarriesOn classes .comparison left whole tokens)
    (hleft : leftCopy.Mirrors rename left) (hpass : Passes tape tokens rest)
    (hstops : Level.comparison.Stops rest.current) :
    ∃ copy, Reads (comparisonTail (inside setting outer) setting leftCopy tape h) copy rest ∧
      copy.Mirrors rename whole := by
  cases hcarries with
  | chain _ hfirst hnone =>
      cases hnone with
      | tailEnd =>
          rw [List.append_nil] at hpass
          obtain ⟨copy, hread, hmirror⟩ := hfirst.reads_sum hclasses h hleft hpass hstops.next
          exact ⟨copy, reads_comparisonTail.mpr (.inl ⟨hread,
            hstops.relation_eq_none (Nat.le_refl _)⟩), hmirror⟩
      | tailMore hjoin => cases hjoin
  | @comparison operator found _ _ right tokens more hfirst hfound hright =>
      obtain ⟨behind, hpassFirst, hpassMore⟩ := passes_append.mp hpass
      obtain ⟨compared, hoperator, hpassRight⟩ := hpassMore.split [operator]
      have hcompared : compared.length ≤ outer.length :=
        calc compared.length
            ≤ behind.length := hoperator.length_le
          _ ≤ tape.length := hpassFirst.length_le
          _ ≤ outer.length := h
      obtain ⟨firstCopy, hreadFirst, hfirstMirror⟩ := hfirst.reads_sum hclasses h hleft
        hpassFirst (hoperator.current_eq ▸ Level.stops_sum_of_relation hfound)
      -- the right side has no operand in hand: it is a sum like any other
      obtain ⟨rightCopy, hreadRight, hrightMirror⟩ :=
        hright.complete hclasses hcompared hpassRight hstops.next
      exact ⟨_, reads_comparisonTail.mpr (.inr ⟨firstCopy, rightCopy, operator, found, behind,
        compared, hcompared, hreadFirst, hfound, hoperator, hreadRight, rfl⟩),
        mirrors_comparison hfirstMirror hrightMirror⟩

/-- What carries an operand on is read behind it. -/
theorem CarriesOn.reads (h : tape.length ≤ outer.length)
    (hcarries : CarriesOn classes .test left whole tokens) (hleft : leftCopy.Mirrors rename left)
    (hpass : Passes tape tokens rest) (hstops : Level.test.Stops rest.current) :
    ∃ copy, Reads (disjunctionTail (inside setting outer) setting leftCopy tape h) copy rest ∧
      copy.Mirrors rename whole := by
  cases hcarries with
  | chain _ hconjunct hmore =>
      cases hconjunct with
      | chain _ hnegated hmore' =>
          -- `not` would stand before the operand, so the negated level adds nothing
          cases hnegated with
          | chain _ hfirst hnone =>
              cases hnone with
              | tailEnd =>
                  rw [List.append_nil] at hpass
                  obtain ⟨behind, hpassConjunct, hpassMore⟩ := passes_append.mp hpass
                  obtain ⟨middle, hpassFirst, hpassMore'⟩ := passes_append.mp hpassConjunct
                  have hstopsBehind := hmore.stops_of_tail hpassMore hstops
                  have hmiddle := Nat.le_trans hpassFirst.length_le h
                  have hbehind := Nat.le_trans hpassMore'.length_le hmiddle
                  -- first the comparison, then what `and` adds, then what `or` adds
                  obtain ⟨compared, hread, hmirror⟩ := hfirst.reads_comparison hclasses h hleft
                    hpassFirst (hmore'.stops_of_tail hpassMore' hstopsBehind).next
                  obtain ⟨conjunct, hread', hmirror'⟩ :=
                    hmore'.complete hclasses hmiddle hmirror hpassMore' hstopsBehind
                  obtain ⟨copy, hread'', hmirror''⟩ :=
                    hmore.complete hclasses hbehind hmirror' hpassMore hstops
                  exact ⟨copy, reads_disjunctionTail.mpr ⟨compared, middle, conjunct, behind,
                    hmiddle, hbehind, hread, hread', hread''⟩, hmirror''⟩
              | tailMore hjoin => cases hjoin

end

/-- What derives as an expression and begins with a name is read on from that name. -/
theorem Derives.reads_continued {tape rest : Tape} {name : String} {node : Node}
    {tokens : List Token} (h : Derives classes (.operand .test node) (.identifier name :: tokens))
    (hpass : Passes tape (.identifier name :: tokens) rest)
    (hstops : Level.test.Stops rest.current) (hequals : rest.current ≠ .symbol '=') :
    ∃ fields named copy, Passes tape (dottedTokens name fields) named ∧
      named.current ≠ .symbol '.' ∧ named.current ≠ .symbol '=' ∧
      Reads (continued setting name fields named) copy rest ∧ copy.Mirrors rename node := by
  -- the name is the leftmost operand, alone or with a call, and the rest carries it on
  obtain ⟨first, before, more, htokens, hfirst, hcarries⟩ := h.leftmost
  rw [htokens] at hpass
  obtain ⟨behind, hpassFirst, hpassMore⟩ := passes_append.mp hpass
  have hbehind := hcarries.stops hpassMore hstops
  cases hfirst with
  | chain hlevel => exact absurd rfl hlevel
  | literal hliteral =>
      cases (List.cons.inj htokens).1
      cases hliteral
  | parenthesized => cases htokens
  | dotted found fields =>
      cases (List.cons.inj htokens).1
      have hname : (Node.variable name fields).Mirrors rename (.variable name fields) := rfl
      obtain ⟨copy, hread, hmirror⟩ :=
        hcarries.reads hclasses (Nat.le_refl _) hname hpassMore hstops
      refine ⟨fields, behind, copy, hpassFirst, hbehind.ne_symbol rfl, ?_,
        Expression.reads_continued.mpr ⟨_, behind, Nat.le_refl _,
          reads_reference.mpr (.inl ⟨hbehind.ne_symbol rfl, rfl, rfl⟩), hread⟩, hmirror⟩
      -- nothing that carries an operand on is `=`
      cases more with
      | nil => exact passes_nil.mp hpassMore ▸ hequals
      | cons token more =>
          rw [hpassMore.current_eq]
          rintro rfl
          exact hcarries.carriesOn? rfl
  | @application found fields values call _ valueTokens callTokens hvalues hcall hcalls =>
      cases (List.cons.inj htokens).1
      rw [List.append_assoc, passes_append] at hpassFirst
      obtain ⟨named, hname, hpassCall⟩ := hpassFirst
      obtain ⟨firstCopy, hreadFirst, hfirstMirror⟩ := Phrase.Complete.reference hclasses
        (hvalues.complete hclasses) hcall (hcalls.complete hclasses) (Nat.le_refl _) hpassCall
        (hbehind.ne_symbol rfl)
      obtain ⟨copy, hread, hmirror⟩ :=
        hcarries.reads hclasses hpassCall.length_le hfirstMirror hpassMore hstops
      refine ⟨fields, named, copy, hname, ?_, ?_, Expression.reads_continued.mpr
        ⟨firstCopy, behind, _, hreadFirst, hread⟩, hmirror⟩
      · rw [hpassCall.current_eq]
        decide
      · rw [hpassCall.current_eq]
        decide

end Offside.Expression
