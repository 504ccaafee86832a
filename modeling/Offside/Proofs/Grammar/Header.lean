import Offside.Proofs.Grammar.Clause

/-!
# The headers of classes in a text

A class is known from its header on, to the end of the source: no block ends what its name
means.  So what is known at some place of a text depends on nothing but the headers before
that place, in the order of the text (`headers`, `Known.behind`), and a name means the class of
the last header that gives it (`overlays_behind`).

A header counts when it is complete, up to the opening of the body.  That is a matter of
several tokens, and a list of tokens could end in the midst of them.  `Announces tokens names`
says that it does not: whatever comes behind the tokens, they hold the headers of these names.
So the headers of a text are those of its parts (`Announces.append`).
-/

namespace Offside.Statement

/-- The name in the header that a list of tokens begins with, if it begins with a whole one. -/
def headerName? : List Token → Option String
  | .keyword .classWord :: .identifier name :: .symbol ':' :: .newline :: .indent :: _ =>
    some name
  | .keyword .classWord :: .identifier name :: .symbol '(' :: .identifier _ :: .symbol ')' ::
      .symbol ':' :: .newline :: .indent :: _ => some name
  | _ => none

/-- The names in the headers of classes, in the order of the text. -/
def headers : List Token → List String
  | [] => []
  | token :: rest => (headerName? (token :: rest)).toList ++ headers rest

/-- What is known behind some tokens. -/
def Known.behind (known : Known) (tokens : List Token) : Known :=
  (headers tokens).foldl Known.declare known

/-- No class and no block begins with the token, and no block ends with it. -/
def PlainToken (token : Token) : Prop :=
  token ≠ .keyword .classWord ∧ token ≠ .indent ∧ token ≠ .dedent

/-- No class and no block begins among the tokens, and no block ends. -/
def IsPlain (tokens : List Token) : Prop :=
  ∀ token ∈ tokens, PlainToken token

/-- The tokens hold the headers of these names, and no header begins among them that ends
behind them. -/
def Announces (tokens : List Token) (names : List String) : Prop :=
  ∀ more, headers (tokens ++ more) = names ++ headers more

variable {tokens more : List Token} {token : Token} {names others : List String}

/-! ## Tokens without headers -/

theorem headerName?_of_ne (h : token ≠ .keyword .classWord) :
    headerName? (token :: tokens) = none := by
  unfold headerName?
  split
  · next heq => exact absurd (List.cons.inj heq).1 h
  · next heq => exact absurd (List.cons.inj heq).1 h
  · rfl

theorem headers_cons_of_ne (h : token ≠ .keyword .classWord) (rest : List Token) :
    headers (token :: rest) = headers rest := by
  rw [headers, headerName?_of_ne h]
  rfl

theorem IsPlain.nil : IsPlain [] := by
  intro token hmem
  cases hmem

theorem IsPlain.append (h : IsPlain tokens) (hmore : IsPlain more) :
    IsPlain (tokens ++ more) := by
  intro token hmem
  exact (List.mem_append.mp hmem).elim (h token) (hmore token)

theorem isPlain_cons : IsPlain (token :: tokens) ↔ PlainToken token ∧ IsPlain tokens :=
  List.forall_mem_cons

@[simp] theorem plainToken_symbol (character : Char) : PlainToken (.symbol character) := by
  simp [PlainToken]

@[simp] theorem plainToken_identifier (name : String) : PlainToken (.identifier name) := by
  simp [PlainToken]

@[simp] theorem plainToken_keyword {word : Keyword} (h : word ≠ .classWord) :
    PlainToken (.keyword word) := by
  simp [PlainToken, h]

theorem IsPlain.symbol_cons (h : IsPlain tokens) (character : Char) :
    IsPlain (.symbol character :: tokens) :=
  isPlain_cons.mpr ⟨plainToken_symbol character, h⟩

theorem IsPlain.identifier_cons (h : IsPlain tokens) (name : String) :
    IsPlain (.identifier name :: tokens) :=
  isPlain_cons.mpr ⟨plainToken_identifier name, h⟩

theorem IsPlain.keyword_cons (h : IsPlain tokens) {word : Keyword} (hword : word ≠ .classWord) :
    IsPlain (.keyword word :: tokens) :=
  isPlain_cons.mpr ⟨plainToken_keyword hword, h⟩

/-! ## Announcements -/

theorem Announces.headers_eq (h : Announces tokens names) : headers tokens = names := by
  have hnil := h []
  rwa [List.append_nil, headers, List.append_nil] at hnil

theorem announces_nil : Announces [] [] := by
  intro more
  rfl

theorem Announces.append (h : Announces tokens names) (hmore : Announces more others) :
    Announces (tokens ++ more) (names ++ others) := by
  intro last
  rw [List.append_assoc, h, hmore, List.append_assoc]

theorem announces_single (h : token ≠ .keyword .classWord) : Announces [token] [] := by
  intro more
  exact headers_cons_of_ne h more

theorem IsPlain.announces (h : IsPlain tokens) : Announces tokens [] := by
  induction tokens with
  | nil => exact announces_nil
  | cons token tokens ih =>
      obtain ⟨hfirst, hrest⟩ := isPlain_cons.mp h
      exact (announces_single hfirst.1).append (ih hrest)

/-- The header of a class, up to the opening of its body. -/
def headTokens (name : String) (parent : List Token) : List Token :=
  .keyword .classWord :: .identifier name :: parent ++ [.symbol ':', .newline, .indent]

/-- The header of a class announces the name of the class. -/
theorem announces_headTokens {classes : Bindings ClassId} {parent : Option ClassId}
    {header : List Token} (h : Inherits classes parent header) (name : String) :
    Announces (headTokens name header) [name] := by
  intro more
  cases h with
  | root => simp [headTokens, headers, headerName?]
  | child h => simp [headTokens, headers, headerName?]

/-- A header that is not finished does not count. -/
theorem IsPlain.headers_unfinished (h : IsPlain tokens) :
    headers (.keyword .classWord :: tokens) = [] := by
  have hindent : Token.indent ∉ tokens := fun hmem => (h _ hmem).2.1 rfl
  rw [headers, h.announces.headers_eq, List.append_nil, headerName?.eq_def]
  split
  · next heq => exact absurd (by simp [(List.cons.inj heq).2]) hindent
  · next heq => exact absurd (by simp [(List.cons.inj heq).2]) hindent
  · rfl

/-! ## What names mean -/

namespace Known

variable {known after : Known}

/-- Names mean the classes of the last headers that give them, or what they meant before there
were these headers. -/
structure Overlays (known : Known) (headers : List String) (names : Bindings ClassId) : Prop where
  /-- The last header that gives a name wins; classes are numbered in the order of headers. -/
  last : ∀ before name later, headers = before ++ name :: later → name ∉ later →
    names.get? name = some (known.count + before.length)
  /-- A name that no header gives means what it meant before. -/
  other : ∀ name, name ∉ headers → names.get? name = known.names.get? name

theorem count_foldl_declare (known : Known) (names : List String) :
    (names.foldl declare known).count = known.count + names.length := by
  induction names generalizing known with
  | nil => rfl
  | cons name names ih =>
      rw [List.foldl_cons, ih, List.length_cons, Nat.add_comm names.length, ← Nat.add_assoc]
      rfl

theorem get?_foldl_declare_of_not_mem {name : String} (h : name ∉ names) :
    (names.foldl declare known).names.get? name = known.names.get? name := by
  induction names generalizing known with
  | nil => rfl
  | cons first names ih =>
      rw [List.mem_cons, not_or] at h
      rw [List.foldl_cons, ih h.2, declare, Bindings.get?_set_of_ne _ _ (Ne.symm h.1)]

theorem overlays_foldl_declare (known : Known) (names : List String) :
    Overlays known names (names.foldl declare known).names := by
  refine ⟨fun before name later hnames hlater => ?_, fun name => get?_foldl_declare_of_not_mem⟩
  rw [hnames, List.foldl_append, List.foldl_cons, get?_foldl_declare_of_not_mem hlater, declare,
    Bindings.get?_set_self, count_foldl_declare]

theorem count_behind (known : Known) (tokens : List Token) :
    (known.behind tokens).count = known.count + (headers tokens).length :=
  count_foldl_declare known (headers tokens)

/-- Behind some tokens a name means the class of the last header that gives it. -/
theorem overlays_behind (known : Known) (tokens : List Token) :
    Overlays known (headers tokens) (known.behind tokens).names :=
  overlays_foldl_declare known (headers tokens)

/-- Some tokens lead from what is known before them to what is known behind them, and none of
their headers ends behind them. -/
def Leads (known : Known) (tokens : List Token) (after : Known) : Prop :=
  ∃ names, Announces tokens names ∧ names.foldl declare known = after

theorem Leads.behind_eq (h : known.Leads tokens after) : known.behind tokens = after := by
  obtain ⟨names, hnames, rfl⟩ := h
  rw [behind, hnames.headers_eq]

theorem Leads.append {last : Known} (h : known.Leads tokens after)
    (hmore : after.Leads more last) : known.Leads (tokens ++ more) last := by
  obtain ⟨names, hnames, rfl⟩ := h
  obtain ⟨others, hothers, rfl⟩ := hmore
  exact ⟨_, hnames.append hothers, List.foldl_append⟩

theorem leads_of_isPlain (h : IsPlain tokens) (known : Known) : known.Leads tokens known :=
  ⟨[], h.announces, rfl⟩

theorem leads_single (h : token ≠ .keyword .classWord) (known : Known) :
    known.Leads [token] known :=
  ⟨[], announces_single h, rfl⟩

/-- The header of a class makes its name known. -/
theorem leads_headTokens {classes : Bindings ClassId} {parent : Option ClassId}
    {header : List Token} (h : Inherits classes parent header) (known : Known) (name : String) :
    known.Leads (headTokens name header) (known.declare name) :=
  ⟨[name], announces_headTokens h name, rfl⟩

end Known

end Offside.Statement
