import Offside.Proofs.Reading.Expression

/-!
# What is read derives

Whatever a reader of expressions reads off a tape derives from the phrase that the
reader stands for.  The readers take the reader of what stands in parentheses as a
parameter, and so do the lemmas: they assume of it what they show of the others.
`spans_of_expression` ties the knot by induction on the length of the tape.
-/

namespace Offside.Expression

open Tape

/-- The tokens between two tapes derive from a phrase. -/
def Spans (classes : Bindings ClassId) (tape : Tape) (phrase : Phrase) (rest : Tape) : Prop :=
  ∃ tokens, Passes tape tokens rest ∧ Derives classes phrase tokens

variable {setting : Setting}

section

variable {outer : Tape} {inner : Inner outer} {rest : Tape}
  (hinner : ∀ {tape rest : Tape} {h : tape.length < outer.length} {node : Node},
    Reads (inner tape h) node rest → Spans setting.classes tape (.operand .test node) rest)
include hinner

/-! ## Arguments and calls -/

theorem spans_of_moreArguments {tape : Tape} {h : tape.length ≤ outer.length} {nodes : List Node}
    (hread : Reads (moreArguments inner tape h) nodes rest) :
    Spans setting.classes tape (.moreArguments nodes) rest := by
  induction tape using shorter_induction generalizing nodes with
  | step tape ih =>
      rcases reads_moreArguments.mp hread with ⟨-, rfl, rfl⟩ |
        ⟨argument, others, afterComma, afterArgument, _, _, hcomma, hargument, hothers, rfl⟩
      · exact ⟨[], passes_nil.mpr rfl, .moreArgumentsEnd⟩
      -- both the comma and the argument shorten the tape
      · have hshorter := (reads_advance.mpr hcomma).shorter
        have hshorter' := hargument.shorter
        obtain ⟨tokens, hpass, hderives⟩ := hinner hargument
        obtain ⟨more, hpass', hderives'⟩ := ih afterArgument (by omega) hothers
        exact ⟨.symbol ',' :: tokens ++ more, hcomma.append (hpass.append hpass'),
          .moreArgumentsMore hderives hderives'⟩

theorem spans_of_arguments {tape : Tape} {h : tape.length ≤ outer.length} {nodes : List Node}
    (hread : Reads (arguments inner tape h) nodes rest) :
    ∃ tokens, Passes tape (.symbol '(' :: tokens ++ [.symbol ')']) rest ∧
      Derives setting.classes (.arguments nodes) tokens := by
  obtain ⟨opened, hopen, ⟨rfl, hclose⟩ | ⟨-, closed, _, hvalues, hclose⟩⟩ :=
    reads_arguments.mp hread
  · exact ⟨[], hopen.append hclose, .argumentsEnd⟩
  · obtain ⟨first, others, behind, _, hfirst, hothers, rfl⟩ := reads_someArguments.mp hvalues
    obtain ⟨tokens, hpass, hderives⟩ := hinner hfirst
    obtain ⟨more, hpass', hderives'⟩ := spans_of_moreArguments hinner hothers
    exact ⟨tokens ++ more, hopen.append ((hpass.append hpass').append hclose),
      .argumentsMore hderives hderives'⟩

theorem spans_of_moreCalls {tape : Tape} {h : tape.length ≤ outer.length} {receiver whole : Node}
    (hread : Reads (moreCalls inner receiver tape h) whole rest) :
    Spans setting.classes tape (.calls receiver whole) rest := by
  induction tape using shorter_induction generalizing receiver with
  | step tape ih =>
      rcases reads_moreCalls.mp hread with ⟨-, rfl, rfl⟩ |
        ⟨method, values, named, called, _, _, hname, hvalues, hcalls⟩
      · exact ⟨[], passes_nil.mpr rfl, .callsEnd whole⟩
      · have hlength := hname.length_eq
        have hshorter := hvalues.shorter
        simp only [List.length_cons] at hlength
        obtain ⟨tokens, hpass, hderives⟩ := spans_of_arguments hinner hvalues
        obtain ⟨more, hpass', hderives'⟩ := ih called (by omega) hcalls
        have hall := hname.append (hpass.append hpass')
        simp only [List.cons_append, List.append_assoc, List.nil_append] at hall
        exact ⟨_, by simpa using hall, .callsMore hderives hderives'⟩

/-- A name, behind which a reference was read. -/
theorem spans_of_reference {tape named : Tape} {h : named.length ≤ outer.length} {name : String}
    {fields : List String} {whole : Node} (hname : Passes tape (dottedTokens name fields) named)
    (hread : Reads (reference inner setting name fields named h) whole rest) :
    Spans setting.classes tape (.operand .primary whole) rest := by
  rcases reads_reference.mp hread with ⟨-, rfl, rfl⟩ |
    ⟨values, called, call, _, hvalues, hcall, hcalls⟩
  · exact ⟨_, hname, .dotted name fields⟩
  · obtain ⟨tokens, hpass, hderives⟩ := spans_of_arguments hinner hvalues
    obtain ⟨more, hpass', hderives'⟩ := spans_of_moreCalls hinner hcalls
    have hall := hname.append (hpass.append hpass')
    exact ⟨_, by simpa using hall, .application hderives hcall hderives'⟩

/-! ## Operands -/

theorem spans_of_primary {tape : Tape} {h : tape.length ≤ outer.length} {node : Node}
    (hread : Reads (primary inner setting tape h) node rest) :
    Spans setting.classes tape (.operand .primary node) rest := by
  -- a literal, a parenthesis or a name: nothing else is read
  cases hliteral : literal? (.literal setting.source tape.place.index) tape.current with
  | some value =>
      obtain ⟨hpass, rfl⟩ := (reads_primary_literal hliteral).mp hread
      exact ⟨_, hpass, .literal hliteral⟩
  | none =>
      by_cases hparenthesis : tape.current = .symbol '('
      · obtain ⟨opened, closed, _, hopen, hnode, hclose⟩ :=
          (reads_primary_parenthesis hparenthesis).mp hread
        obtain ⟨tokens, hpass, hderives⟩ := hinner hnode
        exact ⟨_, hopen.append (hpass.append hclose), .parenthesized hderives⟩
      · by_cases hname : ∃ name, tape.current = .identifier name
        · obtain ⟨first, hcurrent⟩ := hname
          obtain ⟨name, fields, named, _, hpass, -, hreference⟩ :=
            (reads_primary_name hcurrent).mp hread
          exact spans_of_reference hinner hpass hreference
        · exact absurd hread (not_reads_primary hliteral hparenthesis (not_exists.mp hname))

theorem spans_of_signed {tape : Tape} {h : tape.length ≤ outer.length} {node : Node}
    (hread : Reads (signed inner setting tape h) node rest) :
    Spans setting.classes tape (.operand .signed node) rest := by
  induction tape using shorter_induction generalizing node with
  | step tape ih =>
      rcases reads_signed.mp hread with ⟨-, hprimary⟩ |
        ⟨behind, operand, _, hsign, hoperand, rfl⟩
      · obtain ⟨tokens, hpass, hderives⟩ := spans_of_primary hinner hprimary
        exact ⟨tokens, hpass, hderives.of_next .signed nofun⟩
      · obtain ⟨tokens, hpass, hderives⟩ :=
          ih behind (reads_advance.mpr hsign).shorter hoperand
        exact ⟨_, hsign.append hpass, .sign _ hderives⟩

/-! ## Operators -/

omit hinner in
theorem spans_of_joined (level : Level)
    {operand : (tape : Tape) → tape.length ≤ outer.length → Reading Node tape.length}
    (hoperand : ∀ {tape rest : Tape} {h : tape.length ≤ outer.length} {node : Node},
      Reads (operand tape h) node rest →
        Spans setting.classes tape (.operand level.next node) rest)
    {tape : Tape} {h : tape.length ≤ outer.length} {left whole : Node}
    (hread : Reads (joined level.joins operand left tape h) whole rest) :
    Spans setting.classes tape (.tail level left whole) rest := by
  induction tape using shorter_induction generalizing left with
  | step tape ih =>
      rcases reads_joined.mp hread with ⟨-, rfl, rfl⟩ |
        ⟨operator, join, behind, right, joinedOn, _, _, hjoin, hoperator, hright, hwhole⟩
      · exact ⟨[], passes_nil.mpr rfl, .tailEnd level whole⟩
      · have hshorter := (reads_advance.mpr hoperator).shorter
        have hshorter' := hright.shorter
        obtain ⟨tokens, hpass, hderives⟩ := hoperand hright
        obtain ⟨more, hpass', hderives'⟩ := ih joinedOn (by omega) hwhole
        exact ⟨operator :: tokens ++ more, hoperator.append (hpass.append hpass'),
          .tailMore hjoin hderives hderives'⟩

omit hinner in
/-- A level that joins operands is sound if the next one is. -/
theorem spans_of_chain (level : Level) (operator : Token) {join : Node → Node → Node}
    (hlevel : level.joins operator = some join)
    (hnext : ∀ {tape rest : Tape} {h : tape.length ≤ outer.length} {node : Node},
      Reads (level.next.read inner setting tape h) node rest →
        Spans setting.classes tape (.operand level.next node) rest)
    {tape : Tape} {h : tape.length ≤ outer.length} {node : Node}
    (hread : Reads (level.read inner setting tape h) node rest) :
    Spans setting.classes tape (.operand level node) rest := by
  obtain ⟨first, behind, _, hfirst, hwhole⟩ := (Level.reads_chain level operator hlevel).mp hread
  obtain ⟨tokens, hpass, hderives⟩ := hnext hfirst
  obtain ⟨more, hpass', hderives'⟩ := spans_of_joined level hnext hwhole
  refine ⟨_, hpass.append hpass', .chain ?_ hderives hderives'⟩
  rintro rfl
  cases hlevel

theorem spans_of_product {tape : Tape} {h : tape.length ≤ outer.length} {node : Node}
    (hread : Reads (product inner setting tape h) node rest) :
    Spans setting.classes tape (.operand .product node) rest :=
  spans_of_chain .product (.symbol '*') rfl (spans_of_signed hinner) hread

theorem spans_of_sum {tape : Tape} {h : tape.length ≤ outer.length} {node : Node}
    (hread : Reads (sum inner setting tape h) node rest) :
    Spans setting.classes tape (.operand .sum node) rest :=
  spans_of_chain .sum (.symbol '+') rfl (spans_of_product hinner) hread

theorem spans_of_compared {tape : Tape} {h : tape.length ≤ outer.length} {node : Node}
    (hread : Reads (compared inner setting tape h) node rest) :
    Spans setting.classes tape (.operand .comparison node) rest := by
  rcases reads_compared.mp hread with ⟨hsum, -⟩ |
    ⟨left, right, operator, found, behind, compared, _, hleft, hfound, hoperator, hright, rfl⟩
  · obtain ⟨tokens, hpass, hderives⟩ := spans_of_sum hinner hsum
    exact ⟨tokens, hpass, hderives.of_next .comparison nofun⟩
  · obtain ⟨tokens, hpass, hderives⟩ := spans_of_sum hinner hleft
    obtain ⟨more, hpass', hderives'⟩ := spans_of_sum hinner hright
    exact ⟨_, hpass.append (hoperator.append hpass'), .comparison hderives hfound hderives'⟩

theorem spans_of_negated {tape : Tape} {h : tape.length ≤ outer.length} {node : Node}
    (hread : Reads (negated inner setting tape h) node rest) :
    Spans setting.classes tape (.operand .negated node) rest := by
  induction tape using shorter_induction generalizing node with
  | step tape ih =>
      rcases reads_negated.mp hread with ⟨-, hcompared⟩ |
        ⟨behind, operand, _, hword, hoperand, rfl⟩
      · obtain ⟨tokens, hpass, hderives⟩ := spans_of_compared hinner hcompared
        exact ⟨tokens, hpass, hderives.of_next .negated nofun⟩
      · obtain ⟨tokens, hpass, hderives⟩ :=
          ih behind (reads_advance.mpr hword).shorter hoperand
        exact ⟨_, hword.append hpass, .negation hderives⟩

theorem spans_of_conjunction {tape : Tape} {h : tape.length ≤ outer.length} {node : Node}
    (hread : Reads (conjunction inner setting tape h) node rest) :
    Spans setting.classes tape (.operand .conjunct node) rest :=
  spans_of_chain .conjunct (.keyword .andWord) rfl
    (spans_of_negated hinner) hread

theorem spans_of_disjunction {tape : Tape} {h : tape.length ≤ outer.length} {node : Node}
    (hread : Reads (disjunction inner setting tape h) node rest) :
    Spans setting.classes tape (.operand .test node) rest :=
  spans_of_chain .test (.keyword .orWord) rfl
    (spans_of_conjunction hinner) hread

end

/-! ## Whole expressions -/

/-- Whatever is read as an expression derives as one. -/
theorem spans_of_expression {tape rest : Tape} {node : Node}
    (hread : Reads (expression setting tape) node rest) :
    Spans setting.classes tape (.operand .test node) rest := by
  induction tape using shorter_induction generalizing rest node with
  | step tape ih =>
      rw [reads_expression] at hread
      -- what stands in parentheses is read off a shorter tape, of which the claim is known
      exact spans_of_disjunction (fun {shorter _ h _} hinner => ih shorter h hinner) hread

/-- Whatever is read as expressions with commas between them derives as arguments. -/
theorem spans_of_expressions {tape rest : Tape} {nodes : List Node}
    (hread : Reads (expressions setting tape) nodes rest) :
    Spans setting.classes tape (.arguments nodes) rest := by
  obtain ⟨first, others, behind, _, hfirst, hothers, rfl⟩ := reads_expressions.mp hread
  obtain ⟨tokens, hpass, hderives⟩ := spans_of_expression hfirst
  obtain ⟨more, hpass', hderives'⟩ := spans_of_moreArguments spans_of_expression hothers
  exact ⟨_, hpass.append hpass', .argumentsMore hderives hderives'⟩

/-! ### What follows an operand -/

section

variable {outer tape rest : Tape} {h : tape.length ≤ outer.length} {left whole : Node}

theorem carriesOn_of_productTail
    (hread : Reads (productTail (inside setting outer) setting left tape h) whole rest) :
    ∃ tokens, Passes tape tokens rest ∧
      CarriesOn setting.classes .product left whole tokens := by
  obtain ⟨tokens, hpass, hderives⟩ :=
    spans_of_joined .product (spans_of_signed spans_of_expression) hread
  -- the operand in hand is primary, and no sign stands before it
  have hprimary : CarriesOn setting.classes .primary left left [] := .primary left
  exact ⟨tokens, hpass, .chain (by decide) (hprimary.of_next .signed nofun) hderives⟩

theorem carriesOn_of_sumTail
    (hread : Reads (sumTail (inside setting outer) setting left tape h) whole rest) :
    ∃ tokens, Passes tape tokens rest ∧ CarriesOn setting.classes .sum left whole tokens := by
  obtain ⟨first, behind, _, hfirst, hwhole⟩ := reads_sumTail.mp hread
  obtain ⟨tokens, hpass, hcarries⟩ := carriesOn_of_productTail hfirst
  obtain ⟨more, hpass', hderives⟩ :=
    spans_of_joined .sum (spans_of_product spans_of_expression) hwhole
  exact ⟨_, hpass.append hpass', .chain (by decide) hcarries hderives⟩

theorem carriesOn_of_comparisonTail
    (hread : Reads (comparisonTail (inside setting outer) setting left tape h) whole rest) :
    ∃ tokens, Passes tape tokens rest ∧
      CarriesOn setting.classes .comparison left whole tokens := by
  rcases reads_comparisonTail.mp hread with ⟨hfirst, -⟩ |
    ⟨first, right, operator, found, behind, compared, _, hfirst, hfound, hoperator, hright, rfl⟩
  · obtain ⟨tokens, hpass, hcarries⟩ := carriesOn_of_sumTail hfirst
    exact ⟨tokens, hpass, hcarries.of_next .comparison nofun⟩
  · obtain ⟨tokens, hpass, hcarries⟩ := carriesOn_of_sumTail hfirst
    obtain ⟨more, hpass', hderives⟩ := spans_of_sum spans_of_expression hright
    exact ⟨_, hpass.append (hoperator.append hpass'), .comparison hcarries hfound hderives⟩

/-- What is read behind an operand carries it on. -/
theorem carriesOn_of_disjunctionTail
    (hread : Reads (disjunctionTail (inside setting outer) setting left tape h) whole rest) :
    ∃ tokens, Passes tape tokens rest ∧ CarriesOn setting.classes .test left whole tokens := by
  obtain ⟨compared, middle, conjunct, behind, _, _, hfirst, hconjunct, hwhole⟩ :=
    reads_disjunctionTail.mp hread
  obtain ⟨tokens, hpass, hcarries⟩ := carriesOn_of_comparisonTail hfirst
  obtain ⟨more, hpass', hderives⟩ :=
    spans_of_joined .conjunct (spans_of_negated spans_of_expression) hconjunct
  obtain ⟨last, hpass'', hderives'⟩ :=
    spans_of_joined .test (spans_of_conjunction spans_of_expression) hwhole
  -- what `and` adds closes the conjunct, which `or` then carries on
  have hconjunct : CarriesOn setting.classes .conjunct left conjunct (tokens ++ more) :=
    .chain (by decide) (hcarries.of_next .negated nofun) hderives
  exact ⟨_, (hpass.append hpass').append hpass'', .chain (by decide) hconjunct hderives'⟩

end

/-- A dotted name and what is read behind it derive as an expression. -/
theorem spans_of_continued {tape named rest : Tape} {name : String} {fields : List String}
    {node : Node} (hname : Passes tape (dottedTokens name fields) named)
    (hread : Reads (continued setting name fields named) node rest) :
    Spans setting.classes tape (.operand .test node) rest := by
  obtain ⟨first, behind, _, hfirst, hwhole⟩ := reads_continued.mp hread
  obtain ⟨tokens, hpass, hderives⟩ := spans_of_reference spans_of_expression hname hfirst
  obtain ⟨more, hpass', hcarries⟩ := carriesOn_of_disjunctionTail hwhole
  exact ⟨_, hpass.append hpass', hcarries.derives hderives⟩

end Offside.Expression
