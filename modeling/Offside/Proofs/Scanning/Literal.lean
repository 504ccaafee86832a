import Offside.Token.StringLiteral

/-!
# What string literals stand for

`Body quote body content` says, without a word about reading, that these characters between
two quotes stand for this content: a backslash makes a pair with the character after it,
pairs are taken from left to right, and everything outside a pair stands for itself, the
quote excepted.

`read_eq_some_iff` says that reading finds exactly the bodies that a quote of the same kind
follows, and `exists_body_of_readFrom_eq_none` that a text without such a body is one body to
its end, or one and a backslash.

Every content has a body for either quote, where the quote and the backslash are escaped
and nothing else is (`body_escape`).
-/

namespace Offside.StringLiteral

/-- The characters between two quotes, and the content that they stand for. -/
inductive Body (quote : Char) : List Char → List Char → Prop
  | nil : Body quote [] []
  | plain {character : Char} {body content : List Char} (hquote : character ≠ quote)
      (hescape : character ≠ '\\') (h : Body quote body content) :
      Body quote (character :: body) (character :: content)
  | escaped (character : Char) {body content : List Char} (h : Body quote body content) :
      Body quote ('\\' :: character :: body) (unescape character :: content)

variable {quote : Char} {taken body content source rest : List Char} {breaks : Nat}
  {literal : Literal}

/-! ## Bodies are read -/

theorem count_lineFeed_cons (character : Char) (text : List Char) :
    (character :: text).count '\n' = lineBreak character + text.count '\n' := by
  rw [List.count_cons, lineBreak, Nat.add_comm]
  simp

theorem Body.readFrom_eq (hquote : quote ≠ '\\') (h : Body quote body content) :
    readFrom quote taken breaks (body ++ quote :: rest) =
      some ⟨taken.reverse ++ content, breaks + body.count '\n', rest⟩ := by
  induction h generalizing taken breaks with
  | nil =>
      rw [List.nil_append, readFrom.eq_def]
      simp
  | plain hplain hescape h ih =>
      rw [count_lineFeed_cons, List.cons_append, readFrom.eq_def]
      simp only [hplain, hescape, if_false]
      rw [ih]
      simp [Nat.add_assoc]
  | escaped character h ih =>
      rw [count_lineFeed_cons, count_lineFeed_cons, List.cons_append, List.cons_append,
        readFrom.eq_def]
      simp only [Ne.symm hquote, if_false, if_true]
      rw [ih]
      simp [lineBreak, Nat.add_assoc]

/-! ## What is read is a body -/

theorem exists_body_of_readFrom (h : readFrom quote taken breaks source = some literal) :
    ∃ body content, source = body ++ quote :: literal.rest ∧ Body quote body content ∧
      literal.text = taken.reverse ++ content ∧ literal.breaks = breaks + body.count '\n' := by
  fun_induction readFrom quote taken breaks source with
  | case1 => cases h
  | case2 taken breaks rest =>
      cases h
      exact ⟨[], [], rfl, .nil, (List.append_nil _).symm, rfl⟩
  | case3 => cases h
  | case4 taken breaks escaped after hquote ih =>
      obtain ⟨body, content, rfl, hbody, htext, hbreaks⟩ := ih h
      refine ⟨'\\' :: escaped :: body, _, rfl, .escaped escaped hbody, ?_, ?_⟩
      · simp [htext]
      · rw [hbreaks, count_lineFeed_cons, count_lineFeed_cons]
        simp [lineBreak, Nat.add_assoc]
  | case5 taken breaks character rest hquote hescape ih =>
      obtain ⟨body, content, rfl, hbody, htext, hbreaks⟩ := ih h
      refine ⟨character :: body, _, rfl, .plain hquote hescape hbody, ?_, ?_⟩
      · simp [htext]
      · rw [hbreaks, count_lineFeed_cons, Nat.add_assoc]

/-- Reading finds the body that a quote of the same kind follows. -/
theorem read_eq_some_iff (hquote : quote ≠ '\\') :
    read quote source = some literal ↔
      ∃ body, source = body ++ quote :: literal.rest ∧ Body quote body literal.text ∧
        literal.breaks = body.count '\n' := by
  constructor
  · intro h
    obtain ⟨body, content, hsource, hbody, htext, hbreaks⟩ := exists_body_of_readFrom h
    simp only [List.reverse_nil, List.nil_append] at htext
    exact ⟨body, hsource, htext ▸ hbody, by simpa using hbreaks⟩
  · intro h
    obtain ⟨body, rfl, hbody, hbreaks⟩ := h
    rw [read, hbody.readFrom_eq hquote, ← Nat.zero_add (body.count '\n'), ← hbreaks]
    simp

/-- A literal that is not closed is one body to the end of the text, or one and a
backslash. -/
theorem exists_body_of_readFrom_eq_none (h : readFrom quote taken breaks source = none) :
    ∃ body content, Body quote body content ∧ (source = body ∨ source = body ++ ['\\']) := by
  fun_induction readFrom quote taken breaks source with
  | case1 => exact ⟨[], [], .nil, .inl rfl⟩
  | case2 => cases h
  | case3 => exact ⟨[], [], .nil, .inr rfl⟩
  | case4 taken breaks escaped after hquote ih =>
      obtain ⟨body, content, hbody, hsource⟩ := ih h
      refine ⟨_, _, .escaped escaped hbody, ?_⟩
      rcases hsource with rfl | rfl
      · exact .inl rfl
      · exact .inr rfl
  | case5 taken breaks character rest hquote hescape ih =>
      obtain ⟨body, content, hbody, hsource⟩ := ih h
      refine ⟨_, _, .plain hquote hescape hbody, ?_⟩
      rcases hsource with rfl | rfl
      · exact .inl rfl
      · exact .inr rfl

/-! ## Writing a body -/

/-- How a character is written between quotes of a kind. -/
def escape (quote character : Char) : List Char :=
  if character = quote ∨ character = '\\' then ['\\', character] else [character]

/-- Escaping the quote and the backslash is enough. -/
theorem body_escape (hquote : quote = '\'' ∨ quote = '"') (content : List Char) :
    Body quote (content.flatMap (escape quote)) content := by
  induction content with
  | nil => exact .nil
  | cons character content ih =>
      rw [List.flatMap_cons, escape]
      split
      · next hescape =>
          have hself : unescape character = character := by
            rcases hescape with rfl | rfl
            · rcases hquote with rfl | rfl <;> rfl
            · rfl
          have hbody := Body.escaped character ih
          rwa [hself] at hbody
      · next hplain =>
          rw [not_or] at hplain
          exact .plain hplain.1 hplain.2 ih

end Offside.StringLiteral
