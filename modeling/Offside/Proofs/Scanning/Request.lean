import Offside.Token.Cursor
import Offside.Proofs.Scanning.Order

/-!
# Requests to a cursor

A cursor is asked for the next token, for a token of some kind, or for both at once, in any
order, and also after it was refused.  `Cursor.after cursor requests` is the cursor that is
left.

`Cursor.Sound` is the invariant: the tokens loaded so far are in order, and the scanner is one
that may go on behind them unless the source has ended.  Every request keeps it
(`Sound.serve`), hence so does every run of requests.  `orderly_after` says what follows for
the stream, and that a cursor at the end of the source stays there.
-/

namespace Offside

/-- What a cursor can be asked for. -/
inductive Request
  /-- The next token. -/
  | next
  /-- The current token, if it is of a kind and, unless `wanted` is absent, has a payload. -/
  | expect (kind : Kind) (wanted : Option (Option Payload))
  /-- The next token, under the same condition. -/
  | expectNext (kind : Kind) (wanted : Option (Option Payload))
deriving DecidableEq, Repr

namespace Cursor

/-- The cursor that a request leaves, whether it is met or refused. -/
def serve (cursor : Cursor) : Request → Cursor
  | .next => cursor.next.2
  | .expect _ _ => cursor
  | .expectNext kind wanted => (cursor.expectNext kind wanted).2

/-- The cursor that some requests leave. -/
def after (cursor : Cursor) (requests : List Request) : Cursor :=
  requests.foldl serve cursor

/-- The tokens loaded so far, without their lines. -/
def words (cursor : Cursor) : List Token :=
  cursor.tokens.map Located.token

variable {cursor : Cursor} {scanner : Scanner}

theorem words_eq (cursor : Cursor) :
    cursor.words = cursor.passed.reverse.map Located.token ++
      cursor.current.token :: cursor.pending.map Located.token := by
  simp [words, tokens]

/-- The tokens loaded so far are in order, and the scanner may go on behind them or the source
has ended. -/
def Sound (cursor : Cursor) : Prop :=
  cursor.scanner.Fits cursor.words ∨
    (.eof ∈ cursor.words ∧ Regular cursor.words cursor.scanner.depth)

theorem Sound.regular (h : cursor.Sound) : Regular cursor.words cursor.scanner.depth := by
  rcases h with h | h
  · exact h.regular
  · exact h.2

/-- Where the current token is the end of the source, nothing is pending. -/
theorem Sound.pending_eq_nil (h : cursor.Sound) (hcurrent : cursor.current.token = .eof) :
    cursor.pending = [] := by
  have hchain := h.regular.adjoins
  rw [words_eq, hcurrent] at hchain
  exact List.map_eq_nil_iff.mp (Regular.eq_nil_of_eof hchain)

/-- A cursor that has to load may do so unless the current token is the end of the source. -/
theorem Sound.fits (h : cursor.Sound) (hpending : cursor.pending = [])
    (hcurrent : cursor.current.token ≠ .eof) : cursor.scanner.Fits cursor.words := by
  rcases h with h | ⟨hmem, hregular⟩
  · exact h
  · obtain ⟨before, hbefore, -⟩ := hregular.eq_concat_of_mem hmem
    rw [words_eq, hpending] at hbefore
    have hlast := (List.append_inj' hbefore rfl).2
    exact absurd (List.singleton_inj.mp hlast) hcurrent

/-! ## Loading -/

/-- The cursor on the last batch. -/
theorem sound_arriveLast {passed closing : List Located} {line : Nat}
    (hfits : scanner.Fits (passed.reverse.map Located.token))
    (hload : scanner.load = .last closing line) : (arriveLast passed closing line).Sound := by
  have hwords : (arriveLast passed closing line).words =
      passed.reverse.map Located.token ++ (closing.map Located.token ++ [.eof]) := by
    cases closing with
    | nil => simp [words_eq, arriveLast]
    | cons first more => simp [words_eq, arriveLast]
  have hdepth : (arriveLast passed closing line).scanner.depth = 0 := by
    cases closing <;> rfl
  refine .inr ⟨by simp [hwords], ?_⟩
  rw [hwords, hdepth]
  exact hfits.last hload

/-- The cursor on any other batch. -/
theorem sound_of_batch {passed more : List Located} {first : Located} {next : Scanner}
    (hfits : scanner.Fits (passed.reverse.map Located.token))
    (hload : scanner.load = .batch first more next) : Sound ⟨passed, first, more, next⟩ := by
  have hnext := hfits.batch hload
  rw [Sound, words_eq]
  exact .inl hnext

/-- The cursor on the first token of a text. -/
theorem sound_ofString {text : String} (h : ofString text = .ok cursor) : cursor.Sound := by
  unfold ofString ofScanner at h
  split at h
  · next hload =>
      cases h
      exact sound_of_batch (Scanner.Fits.ofString text) hload
  · next hload =>
      cases h
      exact sound_arriveLast (Scanner.Fits.ofString text) hload
  · cases h

/-! ## Requests -/

/-- Moving on keeps the order, also where the scanner meets a fault. -/
theorem Sound.next (h : cursor.Sound) : cursor.next.2.Sound := by
  unfold Cursor.next
  split
  · next upcoming later hpending =>
      -- the token was loaded before
      have hsame : words ⟨cursor.current :: cursor.passed, upcoming, later, cursor.scanner⟩ =
          cursor.words := by
        simp [words_eq, hpending]
      rw [Sound, hsame]
      exact h
  · next hpending =>
      split
      · exact h
      · next hcurrent =>
          have hfits := h.fits hpending hcurrent
          have hpassed : cursor.words =
              (cursor.current :: cursor.passed).reverse.map Located.token := by
            simp [words_eq, hpending]
          split
          · next hload => exact sound_of_batch (hpassed ▸ hfits) hload
          · next hload => exact sound_arriveLast (hpassed ▸ hfits) hload
          · next hload => exact .inl (hfits.fault hload)

theorem expectNext_snd (cursor : Cursor) (kind : Kind) (wanted : Option (Option Payload)) :
    (cursor.expectNext kind wanted).2 = cursor.next.2 := by
  unfold expectNext
  split
  · next heq => rw [heq]
  · next heq => rw [heq]

/-- A request keeps the order. -/
theorem Sound.serve (h : cursor.Sound) (request : Request) : (cursor.serve request).Sound := by
  cases request with
  | next => exact h.next
  | expect kind wanted => exact h
  | expectNext kind wanted =>
      rw [Cursor.serve, expectNext_snd]
      exact h.next

/-- Requests keep the order. -/
theorem Sound.after (h : cursor.Sound) (requests : List Request) :
    (cursor.after requests).Sound := by
  induction requests generalizing cursor with
  | nil => exact h
  | cons request requests ih => exact ih (h.serve request)

/-! ## The end of the source -/

/-- A cursor at the end of the source does not move on. -/
theorem Sound.next_eq (h : cursor.Sound) (hcurrent : cursor.current.token = .eof) :
    cursor.next = (.ok .eof, cursor) := by
  rw [Cursor.next, h.pending_eq_nil hcurrent]
  simp [hcurrent]

/-- A cursor at the end of the source stays there, whatever it is asked for. -/
theorem Sound.after_eq (h : cursor.Sound) (hcurrent : cursor.current.token = .eof)
    (requests : List Request) : cursor.after requests = cursor := by
  have hnext := congrArg Prod.snd (h.next_eq hcurrent)
  induction requests with
  | nil => rfl
  | cons request requests ih =>
      have hserve : cursor.serve request = cursor := by
        cases request with
        | next => exact hnext
        | expect kind wanted => rfl
        | expectNext kind wanted => exact (expectNext_snd cursor kind wanted).trans hnext
      rw [Cursor.after, List.foldl_cons, hserve]
      exact ih

/-- After any requests, met or refused, the tokens loaded so far are in order, and their
depth is the one that the scanner goes on with.  Once the current token is the end of the
source, it is the next one too, and it stays so whatever is asked for. -/
theorem orderly_after {text : String} (h : ofString text = .ok cursor)
    (requests : List Request) :
    Orderly (cursor.after requests).words (cursor.after requests).scanner.depth ∧
      ((cursor.after requests).current.token = .eof →
        ∀ later, (cursor.after (requests ++ later)).next = (.ok .eof, cursor.after requests)) := by
  have hsound := (sound_ofString h).after requests
  refine ⟨hsound.regular.orderly, fun hcurrent later => ?_⟩
  have hlater : cursor.after (requests ++ later) = cursor.after requests := by
    rw [after, List.foldl_append]
    exact hsound.after_eq hcurrent later
  rw [hlater]
  exact hsound.next_eq hcurrent

/-- Requests that go past a fault inside a block, and requests that go past the end of the
source. -/
theorem orderly_after_sample :
    (∃ cursor, ofString "if x:\n  $" = .ok cursor ∧
      Orderly (cursor.after [.next, .expect .number none, .next, .next, .next, .next,
        .expectNext .string none, .next]).words 1) ∧
    ∃ cursor, ofString "x" = .ok cursor ∧
      ∀ later, (cursor.after ([.next, .expect .number none, .next] ++ later)).next.1 =
        .ok .eof := by
  constructor
  · have h : ofString "if x:\n  $" =
        .ok ⟨[], ⟨.keyword .ifWord, 1⟩, [], ⟨" x:\n  $".toList, 1, 0, false⟩⟩ := by
      rfl
    exact ⟨_, h, (orderly_after h _).1⟩
  · have h : ofString "x" = .ok ⟨[], ⟨.identifier "x", 1⟩, [], ⟨[], 1, 0, false⟩⟩ := by
      rfl
    refine ⟨_, h, fun later => ?_⟩
    rw [(orderly_after h _).2 rfl later]

end Cursor

end Offside
