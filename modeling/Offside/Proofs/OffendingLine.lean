import Offside.Proofs.Grammar.Offence
import Offside.Proofs.Rejection
import Offside.Proofs.Scanning.Occurrence

/-!
# The line that a message names

The message of a refusal names the line of the token where reading stops.  Mostly that token is
what the message is about.  Two causes are about a name instead that was passed before: a call that
means nothing is refused behind its arguments, so the message names the line of what follows them.
If a string literal there runs over several lines, this is not the line of the name.

`Culprit` says what a message is about, in terms of the occurrences of the text, and
`Session.Refuses.names_line` says when the line is the line of that.
-/

namespace Offside

/-! ## What is at fault -/

/-- Causes that are about the call of a name. -/
def SourceCause.isOfCall : SourceCause → Bool
  | notClass _ | wrongStrArity => true
  | unexpectedCharacter _ | overlongNumber | mismatch _ _ | unexpectedToken _ | unclosedBlock
  | returnOutsideMethod | undefinedBase _ => false

/-- Reading stops at `stuck`, behind other occurrences, and this one is what the cause is about:
the token itself, or the name that was called directly before it. -/
inductive Culprit (names : Bindings ClassId) (passed : List Occurrence) (stuck : Occurrence)
    (cause : SourceCause) : Occurrence → Prop
  | token (h : Refutes names (passed.map Occurrence.token) stuck.token cause) :
      Culprit names passed stuck cause stuck
  | call {earlier arguments : List Occurrence} {called : Occurrence} {name : String}
      (hpassed : passed = earlier ++ called :: arguments)
      (hname : called.token = .identifier name)
      (h : Miscalls names name (arguments.map Occurrence.token) cause) :
      Culprit names passed stuck cause called

variable {names : Bindings ClassId} {passed behind : List Occurrence} {stuck culprit : Occurrence}
  {cause : SourceCause}

theorem Miscalls.isOfCall {name : String} {arguments : List Token}
    (h : Miscalls names name arguments cause) : cause.isOfCall = true := by
  cases h with
  | notClass | wrongStrArity => rfl

/-- What is at fault is the token where reading stops, unless it is a call. -/
theorem Culprit.eq_or_isOfCall (h : Culprit names passed stuck cause culprit) :
    culprit = stuck ∨ cause.isOfCall = true := by
  cases h with
  | token h => exact .inl rfl
  | call hpassed hname h => exact .inr h.isOfCall

/-- What a refusal is about is one of the occurrences up to the one where reading stops. -/
theorem Offends.exists_culprit
    (h : Offends names (passed.map Occurrence.token) stuck.token cause) :
    ∃ culprit ∈ passed ++ [stuck], Culprit names passed stuck cause culprit := by
  cases h with
  | token h => exact ⟨stuck, by simp, .token h⟩
  | call hpassed h =>
      obtain ⟨earlier, calling, rfl, -, hcalling⟩ := List.map_eq_append_iff.mp hpassed
      obtain ⟨called, arguments, rfl, hname, rfl⟩ := List.map_eq_cons_iff.mp hcalling
      exact ⟨called, by simp, .call rfl hname h⟩

/-- What stands before the place of a token, and between it and a later one. -/
theorem Tokenizes.exists_between {text : List Char} {flaw : Option Flaw}
    (h : Tokenizes 0 true [] text (passed ++ stuck :: behind) flaw)
    (hculprit : culprit ∈ passed ++ [stuck]) :
    ∃ between, stuck.before = culprit.before ++ between := by
  rw [List.mem_append, List.mem_singleton] at hculprit
  obtain hpassed | rfl := hculprit
  · obtain ⟨between, hbetween⟩ :=
      (List.pairwise_append.mp h.ordered.1).2.2 culprit hpassed stuck (by simp)
    exact ⟨between, hbetween.symm⟩
  · exact ⟨[], (List.append_nil _).symm⟩

/-! ## The tokens of a tape as occurrences -/

namespace Tape

variable {tape rest : Tape} {tokens : List Token}

theorem Passes.exists_tokens (h : Passes tape tokens rest) :
    ∃ earlier, earlier.map Located.token = tokens ∧ tape.tokens = earlier ++ rest.tokens := by
  induction h with
  | stay => exact ⟨[], rfl, rfl⟩
  | step token place h ih =>
      obtain ⟨earlier, hearlier, htokens⟩ := ih
      exact ⟨⟨token, place.line⟩ :: earlier, congrArg _ hearlier, congrArg _ htokens⟩

/-- The occurrences that were passed, and the one that is the current token then. -/
theorem Passes.exists_occurrences {occurrences : List Occurrence} (h : Passes tape tokens rest)
    (htokens : tape.tokens = occurrences.map Occurrence.located) :
    ∃ passed stuck behind, occurrences = passed ++ stuck :: behind ∧
      passed.map Occurrence.token = tokens ∧ stuck.token = rest.current ∧
      lineBehind stuck.before = rest.place.line := by
  obtain ⟨earlier, rfl, hsplit⟩ := h.exists_tokens
  obtain ⟨later, hlater⟩ := rest.exists_tokens_eq_cons
  rw [htokens, hlater] at hsplit
  obtain ⟨passed, others, rfl, rfl, hothers⟩ := List.map_eq_append_iff.mp hsplit
  obtain ⟨stuck, behind, rfl, hstuck, -⟩ := List.map_eq_cons_iff.mp hothers
  refine ⟨passed, stuck, behind, rfl, ?_, congrArg Located.token hstuck,
    congrArg Located.line hstuck⟩
  rw [List.map_map]
  rfl

end Tape

/-! ## Where reading stops -/

namespace Session

variable {session : Session} {source : String} {fault : SourceFault}

/-- Reading the source comes to a refusal when this is declared. -/
def Breaks (session : Session) (source : String) (refusal : Tape.Refusal) (declared : Declared) :
    Prop :=
  ∃ tape, Tape.ofString source = .ok tape ∧
    Statement.program session.sources tape
      ⟨session.classes, session.globals.classes, []⟩ = .error refusal declared

/-- Reading the source gives this fault at one of its occurrences, and another one, or the same,
is at fault. -/
def StopsAt (session : Session) (source : String) (fault : SourceFault)
    (occurrences : List Occurrence) (stuck culprit : Occurrence) : Prop :=
  ∃ refusal declared passed behind, session.Breaks source refusal declared ∧
    refusal.fault = fault ∧ occurrences = passed ++ stuck :: behind ∧
    passed.length = refusal.reached ∧ Culprit declared.names passed stuck fault.cause culprit

theorem Refuses.breaks (h : session.Refuses source fault) :
    Tape.ofString source = .error fault ∨
      ∃ refusal declared, session.Breaks source refusal declared ∧ refusal.fault = fault := by
  obtain hread | ⟨program, hread, hresult⟩ := h
  · exact .inl (ofString_of_read_eq_error hread)
  · right
    obtain ⟨tape, htape, rfl⟩ := Program.exists_of_map_eq_ok hread
    unfold Program.read at hresult
    split at hresult
    · cases hresult
    · next refusal declared hprogram =>
        exact ⟨refusal, declared, ⟨tape, htape, hprogram⟩, Except.error.inj hresult⟩

/-- A source that is refused behind its first tokens is refused because of a flaw, or it stops at
one of its occurrences, on the line that the fault names. -/
theorem Breaks.stopsAt {refusal : Tape.Refusal} {declared : Declared}
    {occurrences : List Occurrence} {flaw : Option Flaw}
    (h : session.Breaks source refusal declared)
    (hscans : Tape.Scans (Tape.ofString source) (occurrences.map Occurrence.located)
      (flaw.map Flaw.fault)) :
    flaw.map Flaw.fault = some refusal.fault ∨
      ∃ passed stuck behind culprit, occurrences = passed ++ stuck :: behind ∧
        culprit ∈ passed ++ [stuck] ∧ refusal.fault.line = lineBehind stuck.before ∧
        session.StopsAt source refusal.fault occurrences stuck culprit := by
  obtain ⟨tape, htape, hprogram⟩ := h
  rw [htape] at hscans
  obtain ⟨htokens, hfault⟩ := hscans
  have hblames : Tape.Blames declared.names [] tape refusal :=
    Statement.blames_of_program hprogram
  obtain hbroken | ⟨tokens, rest, hpass, hoffends, hline, hreached⟩ := hblames
  · exact .inl (hfault.symm.trans hbroken)
  obtain ⟨passed, stuck, behind, hsplit, rfl, htoken, hstuck⟩ := hpass.exists_occurrences htokens
  rw [List.nil_append, ← htoken] at hoffends
  obtain ⟨culprit, hmem, hculprit⟩ := hoffends.exists_culprit
  -- the places of a tape count its tokens, so this is where reading says that it stopped
  obtain ⟨hcounted, hfirst⟩ := Tape.counted_of_layFrom htape rfl
  have hindex := hpass.index_eq hcounted
  rw [hfirst, Nat.zero_add, List.length_map] at hindex
  exact .inr ⟨passed, stuck, behind, culprit, hsplit, hmem, hline.trans hstuck.symm,
    refusal, declared, passed, behind, ⟨tape, htape, hprogram⟩, rfl, hsplit,
    (hreached.trans hindex).symm, hculprit⟩

/-- Every message of a refusal names a line.  For a flaw of the text it is the line of the flaw.
Otherwise it is the line of the token where reading stops, which is what is at fault unless a call
means nothing.  Where one does, the line is that of the name that is called exactly if no line feed
stands between the name and that token. -/
theorem Refuses.names_line (h : session.Refuses source fault) :
    fault.message = fault.cause.text ++ " (line " ++ toString fault.line ++ ")" ∧
      ∃ occurrences flaw, Tokenizes 0 true [] source.toList occurrences flaw ∧
        ((∃ before, flaw = some ⟨fault.cause, before⟩ ∧ fault.line = 1 + before.count '\n') ∨
          ∃ stuck culprit between, session.StopsAt source fault occurrences stuck culprit ∧
            (culprit = stuck ∨ fault.cause.isOfCall = true) ∧
            stuck.before = culprit.before ++ between ∧
            fault.line = 1 + stuck.before.count '\n' ∧
            (fault.line = 1 + culprit.before.count '\n' ↔ '\n' ∉ between)) := by
  obtain ⟨occurrences, flaw, htokenizes, hscans⟩ := Tape.scans_ofString source
  refine ⟨rfl, occurrences, flaw, htokenizes, ?_⟩
  have hflawed (hfault : flaw.map Flaw.fault = some fault) :
      ∃ before, flaw = some ⟨fault.cause, before⟩ ∧ fault.line = 1 + before.count '\n' := by
    obtain ⟨found, rfl, rfl⟩ := Option.map_eq_some_iff.mp hfault
    exact ⟨found.before, rfl, rfl⟩
  obtain htape | ⟨refusal, declared, hbreaks, rfl⟩ := h.breaks
  · rw [htape] at hscans
    exact .inl (hflawed hscans.2)
  obtain hfault | ⟨passed, stuck, behind, culprit, rfl, hmem, hline, hstops⟩ :=
    hbreaks.stopsAt hscans
  · exact .inl (hflawed hfault)
  obtain ⟨between, hbetween⟩ := htokenizes.exists_between hmem
  have ⟨_, _, _, _, _, _, _, _, hculprit⟩ := hstops
  refine .inr ⟨stuck, culprit, between, hstops, hculprit.eq_or_isOfCall, hbetween, hline, ?_⟩
  rw [hline, hbetween, lineBehind_append, lineBehind, Nat.add_eq_left, List.count_eq_zero]

/-- A session in which no name means a class. -/
def withoutClasses : Session :=
  ⟨.empty, .empty, .empty, 0⟩

/-- A call that means nothing, with an argument that runs over two lines. -/
def brokenCall : String :=
  "x = foo('a\nb')\n"

theorem refuses_brokenCall : withoutClasses.Refuses brokenCall ⟨.notClass "foo", 2⟩ := by
  have hread : ((withoutClasses.read brokenCall).map fun program =>
      program.result.map fun _ => ()) = .ok (.error ⟨.notClass "foo", 2⟩) := by
    decide +kernel
  obtain ⟨program, hprogram, hresult⟩ := Program.exists_of_map_eq_ok hread
  refine .inr ⟨program, hprogram, ?_⟩
  cases hfault : program.result with
  | error fault =>
      rw [hfault] at hresult
      exact congrArg _ (Except.error.inj hresult)
  | ok tree =>
      rw [hfault] at hresult
      cases hresult

theorem names_line_sample :
    withoutClasses.Refuses brokenCall ⟨.notClass "foo", 2⟩ ∧
      SourceFault.message ⟨.notClass "foo", 2⟩ =
        "'foo' is not a class" ++ " (line " ++ toString 2 ++ ")" ∧
      ∃ occurrences flaw, Tokenizes 0 true [] brokenCall.toList occurrences flaw ∧
        ((∃ before, flaw = some ⟨.notClass "foo", before⟩ ∧ 2 = 1 + before.count '\n') ∨
          ∃ stuck culprit between,
            withoutClasses.StopsAt brokenCall ⟨.notClass "foo", 2⟩ occurrences stuck culprit ∧
            (culprit = stuck ∨ (SourceCause.notClass "foo").isOfCall = true) ∧
            stuck.before = culprit.before ++ between ∧
            2 = 1 + stuck.before.count '\n' ∧
            (2 = 1 + culprit.before.count '\n' ↔ '\n' ∉ between)) :=
  ⟨refuses_brokenCall, refuses_brokenCall.names_line⟩

/-- The message names the second line, although the name that is called stands on the first. -/
theorem line_ne_of_brokenCall :
    withoutClasses.Refuses brokenCall ⟨.notClass "foo", 2⟩ ∧
      ∃ occurrences flaw, Tokenizes 0 true [] brokenCall.toList occurrences flaw ∧
        (∃ called ∈ occurrences, called.token = .identifier "foo") ∧
        ∀ called ∈ occurrences, called.token = .identifier "foo" →
          1 + called.before.count '\n' = 1 := by
  obtain ⟨occurrences, flaw, htokenizes, hscans⟩ := Tape.scans_ofString brokenCall
  have hfound : ((Tape.ofString brokenCall).map fun tape =>
      tape.tokens.filter fun located => located.token = .identifier "foo") =
      .ok [⟨.identifier "foo", 1⟩] := by
    decide +kernel
  obtain ⟨tape, htape, hcalled⟩ := Program.exists_of_map_eq_ok hfound
  rw [htape] at hscans
  rw [hscans.1, List.filter_map] at hcalled
  have hlines (called : Occurrence) (hmem : called ∈ occurrences)
      (hname : called.token = .identifier "foo") : called.located = ⟨.identifier "foo", 1⟩ := by
    rw [← List.mem_singleton, ← hcalled]
    exact List.mem_map_of_mem (List.mem_filter.mpr ⟨hmem, by simp [Occurrence.located, hname]⟩)
  refine ⟨refuses_brokenCall, occurrences, flaw, htokenizes, ?_, fun called hmem hname =>
    congrArg Located.line (hlines called hmem hname)⟩
  obtain ⟨called, honly, hlocated⟩ := List.map_eq_singleton_iff.mp hcalled
  obtain ⟨hmem, -⟩ := List.mem_filter.mp (honly ▸ List.mem_singleton_self called)
  exact ⟨called, hmem, congrArg Located.token hlocated⟩

end Session

end Offside
