import Offside.Grammar.Program
import Offside.Proofs.Execution.World
import Offside.Proofs.Grammar.Layout
import Offside.Proofs.Reading.Statement

/-!
# Where the literals of a tree come from

A token brings one object at most into the tree that is read: a literal brings its own, and a
sign the zero that it subtracts from.  The origin of the object is the place of the token, so a
tape has one object for every origin (`Tape.isInventory_literals`), and the literals of
whatever is read off it are among these objects (`Program.literalsIn_of_read`).

Every reader gets one lemma: if the tape that it starts from brings objects of a set only, then
the literals of what it reads are of that set, and so is what the rest of the tape brings.
-/

namespace Offside

namespace Tape

/-! ## What tokens bring -/

/-- The object that a token brings into a tree. -/
def brings? (origin : Origin) (token : Token) : Option Object :=
  if token = .symbol '-' then some (.number origin 0)
  else (Expression.literal? origin token).bind Node.literal?

/-- The objects that the tokens of a tape bring into a tree. -/
def literals (tape : Tape) (source : Nat) : Set Object :=
  {object | ∃ tokens rest, Passes tape tokens rest ∧
    brings? (.literal source rest.place.index) rest.current = some object}

variable {tape rest : Tape} {tokens : List Token} {source : Nat}

/-- A token brings an object that comes from where the token stands. -/
theorem origin?_of_brings? {origin : Origin} {token : Token} {object : Object}
    (h : brings? origin token = some object) : object.origin? = some origin := by
  unfold brings? at h
  split at h
  · cases h
    rfl
  · obtain ⟨node, hnode, hobject⟩ := Option.bind_eq_some_iff.mp h
    unfold Expression.literal? at hnode
    split at hnode <;> cases hnode <;> cases hobject <;> rfl

theorem mem_literals_of_current {object : Object}
    (h : brings? (.literal source tape.place.index) tape.current = some object) :
    object ∈ tape.literals source :=
  ⟨[], tape, .stay tape, h⟩

/-- What is still to come was to come before. -/
theorem Passes.literals_subset (h : Passes tape tokens rest) (source : Nat) :
    rest.literals source ⊆ tape.literals source := by
  rintro object ⟨more, last, hmore, hobject⟩
  exact ⟨tokens ++ more, last, h.append hmore, hobject⟩

/-- As many tokens lead to one tape. -/
theorem Passes.rest_eq {other : Tape} {others : List Token} (h : Passes tape tokens rest)
    (hother : Passes tape others other) (hlength : tokens.length = others.length) :
    rest = other := by
  induction h generalizing others with
  | stay =>
      obtain rfl := List.length_eq_zero_iff.mp hlength.symm
      exact passes_nil.mp hother
  | step token place h ih =>
      cases hother with
      | stay => cases hlength
      | step _ _ hother => exact ih hother (Nat.succ.inj hlength)

/-- The tokens of a tape stand in different places, so no two objects that they bring have one
origin. -/
theorem isInventory_literals (hcounted : tape.Counted) (source made : Nat) :
    IsInventory (tape.literals source) made := by
  refine ⟨?_, ?_⟩
  · rintro one ⟨tokens, rest, hrest, hone⟩ other ⟨others, last, hlast, hother⟩ origin horigin
      horigin'
    have hplace : Origin.literal source rest.place.index = .literal source last.place.index := by
      rw [origin?_of_brings? hone] at horigin
      rw [origin?_of_brings? hother] at horigin'
      exact Option.some.inj (horigin.trans horigin'.symm)
    have hindex : rest.place.index = last.place.index := by
      injection hplace
    rw [hrest.index_eq hcounted, hlast.index_eq hcounted] at hindex
    obtain rfl := hrest.rest_eq hlast (Nat.add_left_cancel hindex)
    exact Option.some.inj (hone.symm.trans hother)
  · rintro object ⟨tokens, rest, -, hobject⟩ serial horigin
    cases (origin?_of_brings? hobject).symm.trans horigin

/-- Whatever a tape brings comes from its source. -/
theorem origin?_of_mem_literals {object : Object} (h : object ∈ tape.literals source) :
    ∃ index, object.origin? = some (.literal source index) := by
  obtain ⟨tokens, rest, -, hobject⟩ := h
  exact ⟨_, origin?_of_brings? hobject⟩

end Tape

/-! ## Literals of nodes -/

namespace Node

variable {literals : Set Object} {left right operand : Node} {nodes : List Node}

/-- The literals of all nodes are among these. -/
def AllLiteralsIn (nodes : List Node) (literals : Set Object) : Prop :=
  ∀ node ∈ nodes, node.LiteralsIn literals

theorem AllLiteralsIn.cons (h : operand.LiteralsIn literals)
    (hnodes : AllLiteralsIn nodes literals) : AllLiteralsIn (operand :: nodes) literals :=
  List.forall_mem_cons.mpr ⟨h, hnodes⟩

theorem allLiteralsIn_nil (literals : Set Object) : AllLiteralsIn [] literals := by
  intro node hnode
  cases hnode

theorem allLiteralsIn_singleton (h : operand.LiteralsIn literals) :
    AllLiteralsIn [operand] literals :=
  .cons h (allLiteralsIn_nil literals)

theorem allLiteralsIn_pair (hleft : left.LiteralsIn literals) (hright : right.LiteralsIn literals) :
    AllLiteralsIn [left, right] literals :=
  .cons hleft (allLiteralsIn_singleton hright)

/-- A node without branches that is no literal has the literals of its operands. -/
theorem literalsIn_of_operands {node : Node} (hliteral : node.literal? = none)
    (hbranches : node.branches = []) (h : AllLiteralsIn node.operands literals) :
    node.LiteralsIn literals := by
  refine literalsIn_of_parts (fun object hobject => ?_) h fun part hpart => ?_
  · rw [hliteral] at hobject
    cases hobject
  · rw [hbranches] at hpart
    cases hpart

/-- A node that is no literal has the literals of its parts. -/
theorem literalsIn_of_branches {node : Node} (hliteral : node.literal? = none)
    (hoperands : AllLiteralsIn node.operands literals)
    (hbranches : AllLiteralsIn node.branches literals) : node.LiteralsIn literals := by
  refine literalsIn_of_parts (fun object hobject => ?_) hoperands hbranches
  rw [hliteral] at hobject
  cases hobject

end Node

/-! ## Expressions -/

namespace Expression

open Tape
open Node (AllLiteralsIn literalsIn_of_operands)

variable {setting : Setting} {literals : Set Object}

/-- A literal of the text has the object that its token brings. -/
theorem literalsIn_of_literal? {tape : Tape} {source : Nat} {node : Node}
    (h : literal? (.literal source tape.place.index) tape.current = some node)
    (htape : tape.literals source ⊆ literals) : node.LiteralsIn literals := by
  have hparts : node.operands = [] ∧ node.branches = [] := by
    unfold literal? at h
    split at h <;> cases h <;> exact ⟨rfl, rfl⟩
  have hsign : tape.current ≠ .symbol '-' := by
    intro heq
    rw [heq] at h
    cases h
  refine Node.literalsIn_of_parts (fun object hobject => htape (mem_literals_of_current ?_)) ?_ ?_
  · rw [brings?, if_neg hsign, h, Option.bind_some, hobject]
  · rw [hparts.1]
    exact Node.allLiteralsIn_nil literals
  · rw [hparts.2]
    exact Node.allLiteralsIn_nil literals

/-- A call has the literals of its arguments. -/
theorem literalsIn_of_applied? {classes : Bindings ClassId} {name : String} {fields : List String}
    {values : List Node} {call : Node} (h : applied? classes name fields values = some call)
    (hvalues : AllLiteralsIn values literals) : call.LiteralsIn literals := by
  unfold applied? at h
  split at h
  · cases h
    have hreceiver (fields : List String) : (Node.variable name fields).LiteralsIn literals :=
      literalsIn_of_operands rfl rfl (Node.allLiteralsIn_nil literals)
    exact literalsIn_of_operands rfl rfl (.cons (hreceiver _) hvalues)
  · split at h
    · split at h <;> cases h
      exact literalsIn_of_operands rfl rfl hvalues
    · obtain ⟨cls, -, rfl⟩ := Option.map_eq_some_iff.mp h
      exact literalsIn_of_operands rfl rfl hvalues

/-- What operators join has the literals of both operands. -/
theorem literalsIn_of_joins {level : Level} {token : Token} {join : Node → Node → Node}
    (h : level.joins token = some join) {left right : Node} (hleft : left.LiteralsIn literals)
    (hright : right.LiteralsIn literals) : (join left right).LiteralsIn literals := by
  rcases joins_cases h with ⟨-, -, rfl⟩ | ⟨-, -, rfl⟩ | ⟨-, -, rfl⟩ | ⟨-, -, rfl⟩ |
    ⟨-, -, rfl⟩ | ⟨-, -, rfl⟩ <;>
  exact literalsIn_of_operands rfl rfl (Node.allLiteralsIn_pair hleft hright)

section

variable {outer : Tape} {inner : Inner outer} {rest : Tape}
  (hinner : ∀ {tape rest : Tape} {h : tape.length < outer.length} {node : Node},
    tape.literals setting.source ⊆ literals → Reads (inner tape h) node rest →
      node.LiteralsIn literals ∧ rest.literals setting.source ⊆ literals)
include hinner

theorem literalsIn_of_moreArguments {tape : Tape} {h : tape.length ≤ outer.length}
    {nodes : List Node} (htape : tape.literals setting.source ⊆ literals)
    (hread : Reads (moreArguments inner tape h) nodes rest) :
    AllLiteralsIn nodes literals ∧ rest.literals setting.source ⊆ literals := by
  induction tape using shorter_induction generalizing nodes with
  | step tape ih =>
      rcases reads_moreArguments.mp hread with ⟨-, rfl, rfl⟩ |
        ⟨argument, others, afterComma, afterArgument, _, _, hcomma, hargument, hothers, rfl⟩
      · exact ⟨Node.allLiteralsIn_nil literals, htape⟩
      · have hshorter := (reads_advance.mpr hcomma).shorter
        have hshorter' := hargument.shorter
        obtain ⟨hfirst, hbehind⟩ := hinner ((hcomma.literals_subset _).trans htape) hargument
        obtain ⟨hrest, hlast⟩ := ih afterArgument (by omega) hbehind hothers
        exact ⟨.cons hfirst hrest, hlast⟩

theorem literalsIn_of_arguments {tape : Tape} {h : tape.length ≤ outer.length}
    {nodes : List Node} (htape : tape.literals setting.source ⊆ literals)
    (hread : Reads (arguments inner tape h) nodes rest) :
    AllLiteralsIn nodes literals ∧ rest.literals setting.source ⊆ literals := by
  obtain ⟨opened, hopen, ⟨rfl, hclose⟩ | ⟨-, closed, _, hvalues, hclose⟩⟩ :=
    reads_arguments.mp hread
  · exact ⟨Node.allLiteralsIn_nil literals,
      ((hopen.append hclose).literals_subset _).trans htape⟩
  · obtain ⟨first, others, behind, _, hfirst, hothers, rfl⟩ := reads_someArguments.mp hvalues
    obtain ⟨hnode, hbehind⟩ := hinner ((hopen.literals_subset _).trans htape) hfirst
    obtain ⟨hnodes, hclosed⟩ := literalsIn_of_moreArguments hinner hbehind hothers
    exact ⟨.cons hnode hnodes, (hclose.literals_subset _).trans hclosed⟩

theorem literalsIn_of_moreCalls {tape : Tape} {h : tape.length ≤ outer.length}
    {receiver whole : Node} (htape : tape.literals setting.source ⊆ literals)
    (hreceiver : receiver.LiteralsIn literals)
    (hread : Reads (moreCalls inner receiver tape h) whole rest) :
    whole.LiteralsIn literals ∧ rest.literals setting.source ⊆ literals := by
  induction tape using shorter_induction generalizing receiver with
  | step tape ih =>
      rcases reads_moreCalls.mp hread with ⟨-, rfl, rfl⟩ |
        ⟨method, values, named, called, _, _, hname, hvalues, hcalls⟩
      · exact ⟨hreceiver, htape⟩
      · have hlength := hname.length_eq
        have hshorter := hvalues.shorter
        simp only [List.length_cons] at hlength
        obtain ⟨hnodes, hcalled⟩ :=
          literalsIn_of_arguments hinner ((hname.literals_subset _).trans htape) hvalues
        have hcall : (Node.call receiver method values).LiteralsIn literals :=
          literalsIn_of_operands rfl rfl (.cons hreceiver hnodes)
        exact ih called (by omega) hcalled hcall hcalls

theorem literalsIn_of_reference {tape : Tape} {h : tape.length ≤ outer.length} {name : String}
    {fields : List String} {whole : Node} (htape : tape.literals setting.source ⊆ literals)
    (hread : Reads (reference inner setting name fields tape h) whole rest) :
    whole.LiteralsIn literals ∧ rest.literals setting.source ⊆ literals := by
  rcases reads_reference.mp hread with ⟨-, rfl, rfl⟩ |
    ⟨values, called, call, _, hvalues, hcall, hcalls⟩
  · exact ⟨literalsIn_of_operands rfl rfl (Node.allLiteralsIn_nil literals), htape⟩
  · obtain ⟨hnodes, hcalled⟩ := literalsIn_of_arguments hinner htape hvalues
    exact literalsIn_of_moreCalls hinner hcalled (literalsIn_of_applied? hcall hnodes) hcalls

theorem literalsIn_of_primary {tape : Tape} {h : tape.length ≤ outer.length} {node : Node}
    (htape : tape.literals setting.source ⊆ literals)
    (hread : Reads (primary inner setting tape h) node rest) :
    node.LiteralsIn literals ∧ rest.literals setting.source ⊆ literals := by
  cases hliteral : literal? (.literal setting.source tape.place.index) tape.current with
  | some value =>
      obtain ⟨hpass, rfl⟩ := (reads_primary_literal hliteral).mp hread
      exact ⟨literalsIn_of_literal? hliteral htape, (hpass.literals_subset _).trans htape⟩
  | none =>
      by_cases hparenthesis : tape.current = .symbol '('
      · obtain ⟨opened, closed, _, hopen, hnode, hclose⟩ :=
          (reads_primary_parenthesis hparenthesis).mp hread
        obtain ⟨hvalue, hclosed⟩ := hinner ((hopen.literals_subset _).trans htape) hnode
        exact ⟨hvalue, (hclose.literals_subset _).trans hclosed⟩
      · by_cases hname : ∃ name, tape.current = .identifier name
        · obtain ⟨first, hcurrent⟩ := hname
          obtain ⟨name, fields, named, _, hpass, -, hreference⟩ :=
            (reads_primary_name hcurrent).mp hread
          exact literalsIn_of_reference hinner ((hpass.literals_subset _).trans htape) hreference
        · exact absurd hread (not_reads_primary hliteral hparenthesis (not_exists.mp hname))

theorem literalsIn_of_signed {tape : Tape} {h : tape.length ≤ outer.length} {node : Node}
    (htape : tape.literals setting.source ⊆ literals)
    (hread : Reads (signed inner setting tape h) node rest) :
    node.LiteralsIn literals ∧ rest.literals setting.source ⊆ literals := by
  induction tape using shorter_induction generalizing node with
  | step tape ih =>
      rcases reads_signed.mp hread with ⟨-, hprimary⟩ |
        ⟨behind, operand, _, hsign, hoperand, rfl⟩
      · exact literalsIn_of_primary hinner htape hprimary
      · obtain ⟨hnode, hrest⟩ := ih behind (reads_advance.mpr hsign).shorter
          ((hsign.literals_subset _).trans htape) hoperand
        -- the zero that the sign subtracts from is the one that its token brings
        have hmem : Object.number (.literal setting.source tape.place.index) 0 ∈ literals :=
          htape (mem_literals_of_current (by rw [hsign.current_eq]; rfl))
        have hzero : (Node.number (.literal setting.source tape.place.index) 0).LiteralsIn
            literals := by
          refine Node.literalsIn_of_parts (fun object hobject => ?_)
            (Node.allLiteralsIn_nil literals) (Node.allLiteralsIn_nil literals)
          cases hobject
          exact hmem
        exact ⟨literalsIn_of_operands rfl rfl (Node.allLiteralsIn_pair hzero hnode), hrest⟩

omit hinner in
theorem literalsIn_of_joined (level : Level)
    {operand : (tape : Tape) → tape.length ≤ outer.length → Reading Node tape.length}
    (hoperand : ∀ {tape rest : Tape} {h : tape.length ≤ outer.length} {node : Node},
      tape.literals setting.source ⊆ literals → Reads (operand tape h) node rest →
        node.LiteralsIn literals ∧ rest.literals setting.source ⊆ literals)
    {tape : Tape} {h : tape.length ≤ outer.length} {left whole : Node}
    (htape : tape.literals setting.source ⊆ literals) (hleft : left.LiteralsIn literals)
    (hread : Reads (joined level.joins operand left tape h) whole rest) :
    whole.LiteralsIn literals ∧ rest.literals setting.source ⊆ literals := by
  induction tape using shorter_induction generalizing left with
  | step tape ih =>
      rcases reads_joined.mp hread with ⟨-, rfl, rfl⟩ |
        ⟨operator, join, behind, right, joinedOn, _, _, hjoin, hoperator, hright, hwhole⟩
      · exact ⟨hleft, htape⟩
      · have hshorter := (reads_advance.mpr hoperator).shorter
        have hshorter' := hright.shorter
        obtain ⟨hnode, hjoinedOn⟩ :=
          hoperand ((hoperator.literals_subset _).trans htape) hright
        exact ih joinedOn (by omega) hjoinedOn (literalsIn_of_joins hjoin hleft hnode) hwhole

omit hinner in
theorem literalsIn_of_chain (level : Level) (operator : Token) {join : Node → Node → Node}
    (hlevel : level.joins operator = some join)
    (hnext : ∀ {tape rest : Tape} {h : tape.length ≤ outer.length} {node : Node},
      tape.literals setting.source ⊆ literals →
      Reads (level.next.read inner setting tape h) node rest →
        node.LiteralsIn literals ∧ rest.literals setting.source ⊆ literals)
    {tape : Tape} {h : tape.length ≤ outer.length} {node : Node}
    (htape : tape.literals setting.source ⊆ literals)
    (hread : Reads (level.read inner setting tape h) node rest) :
    node.LiteralsIn literals ∧ rest.literals setting.source ⊆ literals := by
  obtain ⟨first, behind, _, hfirst, hwhole⟩ := (Level.reads_chain level operator hlevel).mp hread
  obtain ⟨hnode, hbehind⟩ := hnext htape hfirst
  exact literalsIn_of_joined level hnext hbehind hnode hwhole

theorem literalsIn_of_product {tape : Tape} {h : tape.length ≤ outer.length} {node : Node}
    (htape : tape.literals setting.source ⊆ literals)
    (hread : Reads (product inner setting tape h) node rest) :
    node.LiteralsIn literals ∧ rest.literals setting.source ⊆ literals :=
  literalsIn_of_chain .product (.symbol '*') rfl (literalsIn_of_signed hinner) htape hread

theorem literalsIn_of_sum {tape : Tape} {h : tape.length ≤ outer.length} {node : Node}
    (htape : tape.literals setting.source ⊆ literals)
    (hread : Reads (sum inner setting tape h) node rest) :
    node.LiteralsIn literals ∧ rest.literals setting.source ⊆ literals :=
  literalsIn_of_chain .sum (.symbol '+') rfl (literalsIn_of_product hinner) htape hread

theorem literalsIn_of_compared {tape : Tape} {h : tape.length ≤ outer.length} {node : Node}
    (htape : tape.literals setting.source ⊆ literals)
    (hread : Reads (compared inner setting tape h) node rest) :
    node.LiteralsIn literals ∧ rest.literals setting.source ⊆ literals := by
  rcases reads_compared.mp hread with ⟨hsum, -⟩ |
    ⟨left, right, operator, found, behind, compared, _, hleft, -, hoperator, hright, rfl⟩
  · exact literalsIn_of_sum hinner htape hsum
  · obtain ⟨hfirst, hbehind⟩ := literalsIn_of_sum hinner htape hleft
    obtain ⟨hsecond, hrest⟩ :=
      literalsIn_of_sum hinner ((hoperator.literals_subset _).trans hbehind) hright
    exact ⟨literalsIn_of_operands rfl rfl (Node.allLiteralsIn_pair hfirst hsecond), hrest⟩

theorem literalsIn_of_negated {tape : Tape} {h : tape.length ≤ outer.length} {node : Node}
    (htape : tape.literals setting.source ⊆ literals)
    (hread : Reads (negated inner setting tape h) node rest) :
    node.LiteralsIn literals ∧ rest.literals setting.source ⊆ literals := by
  induction tape using shorter_induction generalizing node with
  | step tape ih =>
      rcases reads_negated.mp hread with ⟨-, hcompared⟩ |
        ⟨behind, operand, _, hword, hoperand, rfl⟩
      · exact literalsIn_of_compared hinner htape hcompared
      · obtain ⟨hnode, hrest⟩ := ih behind (reads_advance.mpr hword).shorter
          ((hword.literals_subset _).trans htape) hoperand
        exact ⟨literalsIn_of_operands rfl rfl (Node.allLiteralsIn_singleton hnode), hrest⟩

theorem literalsIn_of_conjunction {tape : Tape} {h : tape.length ≤ outer.length} {node : Node}
    (htape : tape.literals setting.source ⊆ literals)
    (hread : Reads (conjunction inner setting tape h) node rest) :
    node.LiteralsIn literals ∧ rest.literals setting.source ⊆ literals :=
  literalsIn_of_chain .conjunct (.keyword .andWord) rfl (literalsIn_of_negated hinner) htape hread

theorem literalsIn_of_disjunction {tape : Tape} {h : tape.length ≤ outer.length} {node : Node}
    (htape : tape.literals setting.source ⊆ literals)
    (hread : Reads (disjunction inner setting tape h) node rest) :
    node.LiteralsIn literals ∧ rest.literals setting.source ⊆ literals :=
  literalsIn_of_chain .test (.keyword .orWord) rfl (literalsIn_of_conjunction hinner) htape hread

/-- What is read behind an operand adds the literals that it brings. -/
theorem literalsIn_of_disjunctionTail {tape : Tape} {h : tape.length ≤ outer.length}
    {left whole : Node} (htape : tape.literals setting.source ⊆ literals)
    (hleft : left.LiteralsIn literals)
    (hread : Reads (disjunctionTail inner setting left tape h) whole rest) :
    whole.LiteralsIn literals ∧ rest.literals setting.source ⊆ literals := by
  -- one tail after the other, from the tightest level to the loosest
  have hsum {left whole : Node} {rest : Tape} (hleft : left.LiteralsIn literals)
      (hread : Reads (sumTail inner setting left tape h) whole rest) :
      whole.LiteralsIn literals ∧ rest.literals setting.source ⊆ literals := by
    obtain ⟨first, behind, _, hfirst, hwhole⟩ := reads_sumTail.mp hread
    obtain ⟨hnode, hbehind⟩ :=
      literalsIn_of_joined .product (literalsIn_of_signed hinner) htape hleft hfirst
    exact literalsIn_of_joined .sum (literalsIn_of_product hinner) hbehind hnode hwhole
  have hcomparison {left whole : Node} {rest : Tape} (hleft : left.LiteralsIn literals)
      (hread : Reads (comparisonTail inner setting left tape h) whole rest) :
      whole.LiteralsIn literals ∧ rest.literals setting.source ⊆ literals := by
    rcases reads_comparisonTail.mp hread with ⟨hfirst, -⟩ |
      ⟨first, right, operator, found, behind, compared, _, hfirst, -, hoperator, hright, rfl⟩
    · exact hsum hleft hfirst
    · obtain ⟨hnode, hbehind⟩ := hsum hleft hfirst
      obtain ⟨hsecond, hrest⟩ :=
        literalsIn_of_sum hinner ((hoperator.literals_subset _).trans hbehind) hright
      exact ⟨literalsIn_of_operands rfl rfl (Node.allLiteralsIn_pair hnode hsecond), hrest⟩
  obtain ⟨compared, middle, conjunct, behind, _, _, hfirst, hconjunct, hwhole⟩ :=
    reads_disjunctionTail.mp hread
  obtain ⟨hnode, hmiddle⟩ := hcomparison hleft hfirst
  obtain ⟨hboth, hbehind⟩ :=
    literalsIn_of_joined .conjunct (literalsIn_of_negated hinner) hmiddle hnode hconjunct
  exact literalsIn_of_joined .test (literalsIn_of_conjunction hinner) hbehind hboth hwhole

end

/-- Whatever is read as an expression has the literals that the tape brings. -/
theorem literalsIn_of_expression {tape rest : Tape} {node : Node}
    (htape : tape.literals setting.source ⊆ literals)
    (hread : Reads (expression setting tape) node rest) :
    node.LiteralsIn literals ∧ rest.literals setting.source ⊆ literals := by
  induction tape using shorter_induction generalizing rest node with
  | step tape ih =>
      rw [reads_expression] at hread
      exact literalsIn_of_disjunction
        (fun {shorter _ h _} hshorter hinner => ih shorter h hshorter hinner) htape hread

theorem literalsIn_of_expressions {tape rest : Tape} {nodes : List Node}
    (htape : tape.literals setting.source ⊆ literals)
    (hread : Reads (expressions setting tape) nodes rest) :
    AllLiteralsIn nodes literals ∧ rest.literals setting.source ⊆ literals := by
  obtain ⟨first, others, behind, _, hfirst, hothers, rfl⟩ := reads_expressions.mp hread
  obtain ⟨hnode, hbehind⟩ := literalsIn_of_expression htape hfirst
  obtain ⟨hnodes, hrest⟩ := literalsIn_of_moreArguments literalsIn_of_expression hbehind hothers
  exact ⟨.cons hnode hnodes, hrest⟩

theorem literalsIn_of_continued {tape rest : Tape} {name : String} {fields : List String}
    {node : Node} (htape : tape.literals setting.source ⊆ literals)
    (hread : Reads (continued setting name fields tape) node rest) :
    node.LiteralsIn literals ∧ rest.literals setting.source ⊆ literals := by
  obtain ⟨first, behind, _, hfirst, hwhole⟩ := reads_continued.mp hread
  obtain ⟨hnode, hbehind⟩ := literalsIn_of_reference literalsIn_of_expression htape hfirst
  exact literalsIn_of_disjunctionTail literalsIn_of_expression hbehind hnode hwhole

end Expression

/-! ## Classes -/

namespace Classes

variable {classes : Classes} {literals : Set Object}

/-- A class without methods has no literals. -/
theorem LiteralsIn.declare (h : classes.LiteralsIn literals) (name : String)
    (parent : Option ClassId) : (classes.declare name parent).LiteralsIn literals := by
  intro id record hrecord method hmethod
  unfold get? Classes.declare at hrecord
  rw [Array.getElem?_push] at hrecord
  split at hrecord
  · cases hrecord
    cases hmethod
  · exact h id record hrecord method hmethod

theorem LiteralsIn.define (h : classes.LiteralsIn literals) (cls : ClassId) {method : Method}
    (hbody : method.body.LiteralsIn literals) :
    (classes.define cls method).LiteralsIn literals := by
  intro id record hrecord other hother
  unfold get? Classes.define at hrecord
  rw [Array.getElem?_modify] at hrecord
  split at hrecord
  · obtain ⟨old, hold, rfl⟩ := Option.map_eq_some_iff.mp hrecord
    obtain hearlier | hnew := List.mem_append.mp hother
    · exact h id old hold other hearlier
    · rw [List.mem_singleton.mp hnew]
      exact hbody
  · exact h id record hrecord other hother

theorem LiteralsIn.mono {more : Set Object} (h : classes.LiteralsIn literals)
    (hsubset : literals ⊆ more) : classes.LiteralsIn more :=
  fun id record hrecord method hmethod literal object hliteral hobject =>
    hsubset (h id record hrecord method hmethod literal object hliteral hobject)

end Classes

/-! ## Statements -/

namespace Statement

open Tape
open Node (AllLiteralsIn literalsIn_of_operands literalsIn_of_branches)
open Expression (literalsIn_of_expression literalsIn_of_expressions literalsIn_of_continued)

variable {source : Nat} {literals : Set Object} {before after : Declared} {tape rest : Tape}
  {inMethod : Bool} {node : Node}

/-- All literals that there are behind a reading: those of what was read, those of the methods
that are declared by then, and those that the tape is still to bring. -/
structure Holds (source : Nat) (literals : Set Object) (nodes : List Node) (rest : Tape)
    (after : Declared) : Prop where
  nodes : AllLiteralsIn nodes literals
  classes : after.classes.LiteralsIn literals
  rest : rest.literals source ⊆ literals

theorem Holds.first {others : List Node} (h : Holds source literals (node :: others) rest after) :
    node.LiteralsIn literals :=
  h.nodes node List.mem_cons_self

/-- An assignment has the literals of its value. -/
theorem literalsIn_assignment (name : String) (fields : List String) {value : Node}
    (h : value.LiteralsIn literals) : (assignment name fields value).LiteralsIn literals := by
  unfold assignment
  split
  · exact literalsIn_of_operands rfl rfl (Node.allLiteralsIn_singleton h)
  · have hobject (fields : List String) : (Node.variable name fields).LiteralsIn literals :=
      literalsIn_of_operands rfl rfl (Node.allLiteralsIn_nil literals)
    exact literalsIn_of_operands rfl rfl (Node.allLiteralsIn_pair (hobject _) h)

theorem literalsIn_of_simple (htape : tape.literals source ⊆ literals)
    (hread : Declares (simple source inMethod tape) before node rest after) :
    before = after ∧ node.LiteralsIn literals ∧ rest.literals source ⊆ literals := by
  by_cases hreturn : tape.current = .keyword .returnWord
  · obtain ⟨⟨-, behind, value, hword, hvalue, rfl⟩, hafter⟩ :=
      (declares_simple_return hreturn).mp hread
    obtain ⟨hnode, hrest⟩ :=
      literalsIn_of_expression ((hword.literals_subset _).trans htape) hvalue
    exact ⟨hafter, literalsIn_of_operands rfl rfl (Node.allLiteralsIn_singleton hnode), hrest⟩
  by_cases hprint : tape.current = .keyword .printWord
  · obtain ⟨behind, values, hword, hvalues, rfl⟩ := (declares_simple_print hprint).mp hread
    have hbehind := (hword.literals_subset source).trans htape
    obtain ⟨⟨-, rfl, rfl⟩ | ⟨-, hread⟩, hafter⟩ := declares_printed.mp hvalues
    · exact ⟨hafter, literalsIn_of_operands rfl rfl (Node.allLiteralsIn_nil literals), hbehind⟩
    · obtain ⟨hnodes, hrest⟩ := literalsIn_of_expressions hbehind hread
      exact ⟨hafter, literalsIn_of_operands rfl rfl hnodes, hrest⟩
  by_cases hname : ∃ name, tape.current = .identifier name
  · obtain ⟨first, hcurrent⟩ := hname
    obtain ⟨name, fields, named, hpass, -, hnode⟩ := (declares_simple_name hcurrent).mp hread
    have hnamed := (hpass.literals_subset source).trans htape
    obtain ⟨⟨behind, value, hequals, hvalue, rfl⟩ | ⟨-, hread⟩, hafter⟩ :=
      declares_namedTail.mp hnode
    · obtain ⟨hvalue, hrest⟩ :=
        literalsIn_of_expression ((hequals.literals_subset _).trans hnamed) hvalue
      exact ⟨hafter, literalsIn_assignment name fields hvalue, hrest⟩
    · exact ⟨hafter, literalsIn_of_continued hnamed hread⟩
  · obtain ⟨hread, hafter⟩ :=
      (declares_simple_expression hreturn hprint (not_exists.mp hname)).mp hread
    exact ⟨hafter, literalsIn_of_expression htape hread⟩

theorem holds_of_line (htape : tape.literals source ⊆ literals)
    (hbefore : before.classes.LiteralsIn literals)
    (hread : Declares (line source inMethod tape) before node rest after) :
    Holds source literals [node] rest after := by
  obtain ⟨ending, hsimple, hending⟩ := declares_line.mp hread
  obtain ⟨rfl, hnode, hrest⟩ := literalsIn_of_simple htape hsimple
  exact ⟨Node.allLiteralsIn_singleton hnode, hbefore, (hending.literals_subset _).trans hrest⟩

section

variable {outer : Tape} {inner : Inner outer}
  (hinner : ∀ {inMethod : Bool} {tape rest : Tape} {h : tape.length < outer.length}
    {before after : Declared} {node : Node}, tape.literals source ⊆ literals →
    before.classes.LiteralsIn literals → Declares (inner inMethod tape h) before node rest after →
    Holds source literals [node] rest after)
include hinner

theorem holds_of_statements {h : tape.length < outer.length} {nodes : List Node}
    (htape : tape.literals source ⊆ literals) (hbefore : before.classes.LiteralsIn literals)
    (hread : Declares (statements inner inMethod tape h) before nodes rest after) :
    Holds source literals nodes rest after := by
  induction tape using shorter_induction generalizing before nodes with
  | step tape ih =>
      rcases declares_statements.mp hread with ⟨-, rfl, rfl, rfl⟩ |
        ⟨-, -, first, others, behind, between, _, hfirst, hothers, rfl⟩
      · exact ⟨Node.allLiteralsIn_nil literals, hbefore, htape⟩
      · have hnode := hinner htape hbefore hfirst
        have hnodes := ih behind hfirst.shorter hnode.rest hnode.classes hothers
        exact ⟨.cons hnode.first hnodes.nodes, hnodes.classes, hnodes.rest⟩

theorem holds_of_suite {h : tape.length ≤ outer.length} (htape : tape.literals source ⊆ literals)
    (hbefore : before.classes.LiteralsIn literals)
    (hread : Declares (suite inner inMethod tape h) before node rest after) :
    Holds source literals [node] rest after := by
  obtain ⟨nodes, opened, closed, _, hopen, hnodes, hclose, rfl⟩ := declares_suite.mp hread
  have hblock :=
    holds_of_statements hinner ((hopen.literals_subset _).trans htape) hbefore hnodes
  have hnode : (Node.block nodes).LiteralsIn literals :=
    literalsIn_of_branches rfl (Node.allLiteralsIn_nil literals) hblock.nodes
  exact ⟨Node.allLiteralsIn_singleton hnode, hblock.classes,
    (hclose.literals_subset _).trans hblock.rest⟩

theorem holds_of_conditional {h : tape.length ≤ outer.length}
    (htape : tape.literals source ⊆ literals) (hbefore : before.classes.LiteralsIn literals)
    (hread : Declares (conditional source inner inMethod tape h) before node rest after) :
    Holds source literals [node] rest after := by
  obtain ⟨condition, consequent, opened, decided, began, behind, between, _, hopen, hcondition,
    hcolon, hconsequent, hread⟩ := declares_conditional.mp hread
  obtain ⟨hdecides, hdecided⟩ :=
    literalsIn_of_expression ((hopen.literals_subset _).trans htape) hcondition
  have hcondition := Node.allLiteralsIn_singleton hdecides
  have hthen :=
    holds_of_suite hinner ((hcolon.literals_subset _).trans hdecided) hbefore hconsequent
  rcases hread with ⟨-, rfl, rfl, rfl⟩ | ⟨alternative, otherwise, _, hword, halternative, rfl⟩
  · exact ⟨Node.allLiteralsIn_singleton (literalsIn_of_branches rfl hcondition hthen.nodes),
      hthen.classes, hthen.rest⟩
  · have helse := holds_of_suite hinner ((hword.literals_subset _).trans hthen.rest)
      hthen.classes halternative
    have hbranches := Node.allLiteralsIn_pair hthen.first helse.first
    exact ⟨Node.allLiteralsIn_singleton (literalsIn_of_branches rfl hcondition hbranches),
      helse.classes, helse.rest⟩

theorem holds_of_method {h : tape.length ≤ outer.length} {definition : Method}
    (htape : tape.literals source ⊆ literals) (hbefore : before.classes.LiteralsIn literals)
    (hread : Declares (method inner tape h) before definition rest after) :
    Holds source literals [definition.body] rest after := by
  obtain ⟨name, names, block, opened, _, hopen, hblock, rfl⟩ := declares_method.mp hread
  have hinside := holds_of_suite hinner ((hopen.literals_subset _).trans htape) hbefore hblock
  have hbody : (Node.body block).LiteralsIn literals :=
    literalsIn_of_branches rfl (Node.allLiteralsIn_nil literals) hinside.nodes
  exact ⟨Node.allLiteralsIn_singleton hbody, hinside.classes, hinside.rest⟩

theorem holds_of_methods {h : tape.length < outer.length} {cls : ClassId}
    (htape : tape.literals source ⊆ literals) (hbefore : before.classes.LiteralsIn literals)
    (hread : Declares (methods inner cls tape h) before () rest after) :
    Holds source literals [] rest after := by
  induction tape using shorter_induction generalizing before with
  | step tape ih =>
      rcases declares_methods.mp hread with ⟨-, rfl, rfl⟩ |
        ⟨-, first, behind, between, _, hfirst, hothers⟩
      · exact ⟨Node.allLiteralsIn_nil literals, hbefore, htape⟩
      · have hmethod := holds_of_method hinner htape hbefore hfirst
        exact ih behind hfirst.shorter hmethod.rest (hmethod.classes.define cls hmethod.first)
          hothers

theorem holds_of_classDefinition {h : tape.length ≤ outer.length}
    (htape : tape.literals source ⊆ literals) (hbefore : before.classes.LiteralsIn literals)
    (hread : Declares (classDefinition source inner tape h) before node rest after) :
    Holds source literals [node] rest after := by
  obtain ⟨name, parent, header, opened, closed, between, _, -, hopen, hmethods, hclose, rfl,
    rfl⟩ := declares_classDefinition.mp hread
  have hclass := holds_of_methods hinner ((hopen.literals_subset _).trans htape)
    (hbefore.declare name parent) hmethods
  have hnode : (Node.classDefinition before.classes.count).LiteralsIn literals :=
    literalsIn_of_operands rfl rfl (Node.allLiteralsIn_nil literals)
  exact ⟨Node.allLiteralsIn_singleton hnode, hclass.classes,
    (hclose.literals_subset _).trans hclass.rest⟩

end

/-- Whatever is read as a statement has the literals that the tape brings. -/
theorem holds_of_statement (htape : tape.literals source ⊆ literals)
    (hbefore : before.classes.LiteralsIn literals)
    (hread : Declares (statement source inMethod tape) before node rest after) :
    Holds source literals [node] rest after := by
  induction tape using shorter_induction generalizing inMethod before node rest after with
  | step tape ih =>
      have hinner {inMethod : Bool} {shorter rest : Tape} {h : shorter.length < tape.length}
          {before after : Declared} {node : Node} (hshorter : shorter.literals source ⊆ literals)
          (hbefore : before.classes.LiteralsIn literals)
          (hread : Declares (within source tape inMethod shorter h) before node rest after) :
          Holds source literals [node] rest after :=
        ih shorter h hshorter hbefore hread
      by_cases hclass : tape.current = .keyword .classWord
      · exact holds_of_classDefinition hinner htape hbefore
          ((declares_statement_class hclass).mp hread)
      by_cases hif : tape.current = .keyword .ifWord
      · exact holds_of_conditional hinner htape hbefore ((declares_statement_if hif).mp hread)
      · exact holds_of_line htape hbefore ((declares_statement_line hclass hif).mp hread)

theorem holds_of_program {nodes : List Node} (htape : tape.literals source ⊆ literals)
    (hbefore : before.classes.LiteralsIn literals)
    (hread : program source tape before = .ok nodes after) :
    AllLiteralsIn nodes literals ∧ after.classes.LiteralsIn literals := by
  induction tape using shorter_induction generalizing before nodes with
  | step tape ih =>
      rcases program_eq_ok_iff.mp hread with ⟨-, rfl, rfl⟩ |
        ⟨-, first, others, behind, between, hfirst, hothers, rfl⟩
      · exact ⟨Node.allLiteralsIn_nil literals, hbefore⟩
      · have hnode := holds_of_statement htape hbefore hfirst
        obtain ⟨hnodes, hclasses⟩ := ih behind hfirst.shorter hnode.rest hnode.classes hothers
        exact ⟨.cons hnode.first hnodes, hclasses⟩

end Statement

/-! ## Programs -/

/-- The literals of a program that is read, and those of the methods that there are then, are
those of earlier methods or brought by the tokens of the text. -/
theorem Program.literalsIn_of_read {source : Nat} {classes : Classes} {names : Bindings ClassId}
    {tape : Tape} {tree : Node} {literals : Set Object} (hclasses : classes.LiteralsIn literals)
    (hread : (read source classes names tape).result = .ok tree) :
    tree.LiteralsIn (literals ∪ tape.literals source) ∧
      (read source classes names tape).declared.classes.LiteralsIn
        (literals ∪ tape.literals source) := by
  unfold read at hread ⊢
  split at hread
  · rename_i nodes declared hprogram
    cases hread
    obtain ⟨hnodes, hdeclared⟩ := Statement.holds_of_program Set.subset_union_right
      (hclasses.mono Set.subset_union_left) hprogram
    have htree : (Node.block nodes).LiteralsIn (literals ∪ tape.literals source) :=
      Node.literalsIn_of_branches rfl (Node.allLiteralsIn_nil _) hnodes
    simpa only [hprogram] using And.intro htree hdeclared
  · cases hread

end Offside
