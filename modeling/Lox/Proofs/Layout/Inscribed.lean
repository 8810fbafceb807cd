import Lox.Proofs.Layout.Spacing

/-!
# Texts that write tokens

Program text is put together of pieces that write some tokens each. A piece must be followed by a
character that carries on no token and starts no comment; then pieces can be put one behind the other.
A token that nothing carries on may have any piece directly behind it.
-/
namespace Lox

/-- The text of the tokens of a kind, where all of them have the same one. -/
def Kind.spelling? (kind : Kind) : Option String :=
  ((Lexer.symbols.map fun entry => (entry.2, String.ofList entry.1)) ++
    Lexer.keywords.map fun entry => (entry.2, entry.1)).lookup kind

/-- A token that is written as the formatter writes it: numbers have a spelling of their own. -/
structure Token.Plain (t : Token) : Prop where
  lexical : t.Lexical
  number : t.kind = .number → t.lexeme = (t.literal.getD .nil).source

namespace Token
variable {t : Token}

/-- How the tokens of the lexical grammar are spelled. -/
theorem Lexical.spelled (h : t.Lexical) : t.kind.spelling? = some t.lexeme ∨ t.kind = .identifier ∨
    t.kind = .number ∨ t.kind = .string ∧ t.lexeme = (t.literal.getD .nil).source := by
  obtain ⟨kind, lexeme, literal, line⟩ := t
  unfold Lexical at h
  generalize hlexeme : lexeme.toList = chars, hfound : Except.ok (kind, literal) = found at h
  cases h with
  | symbol hmem =>
    have hall : Lexer.symbols.all (fun entry =>
        entry.2.spelling? == some (String.ofList entry.1)) = true := by decide
    cases hfound
    have hspelling := List.all_eq_true.mp hall _ hmem
    simp only [← hlexeme, String.ofList_toList] at hspelling
    exact .inl (by simpa using hspelling)
  | @keyword word kind hmem =>
    have hall : Lexer.keywords.all (fun entry => entry.2.spelling? == some entry.1) = true := by
      decide
    cases hfound
    obtain rfl : lexeme = word := String.toList_inj.mp hlexeme
    exact .inl (by simpa using List.all_eq_true.mp hall _ hmem)
  | identifier =>
    cases hfound
    exact .inr (.inl rfl)
  | string =>
    cases hfound
    refine .inr (.inr (.inr ⟨rfl, String.toList_inj.mp (hlexeme.trans ?_)⟩))
    simp [Atom.source]
  | number =>
    cases hfound
    exact .inr (.inr (.inl rfl))
  | tooGreat => cases hfound

theorem Lexical.kind_ne_eof (h : t.Lexical) : t.kind ≠ .eof := by
  intro heof
  have hspelled := h.spelled
  have hnone : Kind.eof.spelling? = none := rfl
  simp [heof, hnone] at hspelled

/-- A token of a kind that is spelled in one way only has that spelling. -/
theorem Lexical.lexeme_eq {text : String} (h : t.Lexical) (hs : t.kind.spelling? = some text) :
    t.lexeme = text := by
  rcases h.spelled with hspelling | hkind | hkind | ⟨hkind, -⟩
  · exact Option.some.inj (hspelling.symm.trans hs)
  all_goals
    rw [hkind] at hs
    cases hs

/-- A number or a string is written as its literal is. -/
theorem Plain.lexeme_eq_source (h : t.Plain) (hkind : t.kind ∈ [Kind.number, .string]) :
    t.lexeme = (t.literal.getD .nil).source := by
  rcases List.mem_pair.mp hkind with hnumber | hstring
  · exact h.number hnumber
  · rcases h.lexical.spelled with hspelling | hother | hother | ⟨-, hsource⟩
    · rw [hstring] at hspelling
      cases hspelling
    · exact absurd (hstring.symm.trans hother) nofun
    · exact absurd (hstring.symm.trans hother) nofun
    · exact hsource

end Token

namespace Lexer
variable {t : Token} {tokens others later : List Token} {c : Char} {gap text other behind : List Char}

/-- The characters that carry on no token and start no comment, and that stand behind pieces. -/
def delimiters : List Char :=
  [' ', '\n', '(', ')', ',', ';', '\x7d']

/-- What starts with a delimiter, if there is anything. -/
def Delimited (behind : List Char) : Prop :=
  ∀ d ∈ behind.head?, d ∈ delimiters

theorem parted_of_delimited (t : Token) (h : Delimited behind) : Parted t behind := by
  have hall : delimiters.all (fun d => d != '=' && !isWordPart d && d != '.' && d != '/') = true := by
    decide +kernel
  refine fun c _ => ⟨fun d hd => ?_, fun _ hslash => ?_⟩
  · have hd := List.all_eq_true.mp hall d (h d hd)
    simp only [Bool.and_eq_true, bne_iff_ne, ne_eq, Bool.not_eq_true'] at hd
    exact ⟨fun _ => hd.1.1.1, fun _ => ⟨hd.1.1.2, hd.1.2⟩⟩
  · exact absurd (h '/' hslash) (by decide)

/-- A piece of program text that writes `tokens`, with any space before them. -/
structure Inscribed (tokens : List Token) (text : List Char) : Prop where
  before : ∀ {later : List Token} {behind : List Char}, Delimited behind → Writes later behind →
    Writes (tokens ++ later) (text ++ behind)

theorem Writes.spaced (hgap : Spacing gap) (h : Writes tokens text) : Writes tokens (gap ++ text) := by
  cases h with
  | nil h => exact .nil (hgap.append h)
  | cons h hparted hrest =>
    rw [← List.append_assoc, ← List.append_assoc]
    exact .cons (hgap.append h) hparted hrest

namespace Inscribed

theorem nil : Inscribed [] [] :=
  ⟨fun _ h => h⟩

/-- A token by itself. -/
theorem token (t : Token) : Inscribed [t] t.lexeme.toList :=
  ⟨fun hdelimited h => .cons .nil (parted_of_delimited t hdelimited) h⟩

/-- A token with a piece directly behind it. -/
theorem glued (h : Inscribed tokens text) (hparted : ∀ behind, Parted t (text ++ behind)) :
    Inscribed (t :: tokens) (t.lexeme.toList ++ text) := by
  refine ⟨fun {later behind} hdelimited hlater => ?_⟩
  rw [List.append_assoc]
  exact .cons .nil (hparted behind) (h.before hdelimited hlater)

theorem spaced (h : Inscribed tokens text) (hgap : Spacing gap) : Inscribed tokens (gap ++ text) := by
  refine ⟨fun {later behind} hdelimited hlater => ?_⟩
  rw [List.append_assoc]
  exact (h.before hdelimited hlater).spaced hgap

theorem space (h : Inscribed tokens text) : Inscribed tokens (' ' :: text) :=
  h.spaced (.blank (by decide) .nil)

theorem feed (h : Inscribed tokens text) : Inscribed tokens ('\n' :: text) :=
  h.spaced (.blank (by decide) .nil)

/-- A piece behind another one. -/
theorem append (h : Inscribed tokens text) (hother : Inscribed others (c :: other))
    (hc : c ∈ delimiters := by decide) : Inscribed (tokens ++ others) (text ++ c :: other) := by
  refine ⟨fun {later behind} hdelimited hlater => ?_⟩
  have hstart : Delimited (c :: other ++ behind) := by
    rintro d ⟨⟩
    exact hc
  rw [List.append_assoc, List.append_assoc]
  exact h.before hstart (hother.before hdelimited hlater)

/-- A piece by itself. -/
theorem writes (h : Inscribed tokens text) : Writes tokens text := by
  have hwrites : Writes (tokens ++ []) (text ++ []) := h.before nofun (.nil .nil)
  rwa [List.append_nil, List.append_nil] at hwrites

end Inscribed

/-- Tokens take characters. -/
theorem Writes.ne_nil (h : Writes (t :: tokens) text) (ht : t.Lexical) : text ≠ [] := by
  obtain ⟨c, more, hlexeme⟩ := ht.exists_cons
  cases h with
  | cons => simp [hlexeme]

/-- What stands behind a token that is no part of a word and no slash neither makes a word nor a
comment of it, and it makes an operator only if it starts with an equals sign. -/
theorem parted_of_lexeme (hlexeme : t.lexeme.toList = [c]) (hword : isWordPart c = false)
    (hslash : c ≠ '/') (hequal : (double? c).isSome → behind.head? ≠ some '=') : Parted t behind := by
  intro d hd
  rw [hlexeme] at hd
  cases hd
  refine ⟨fun e he => ⟨fun hdouble => ?_, fun hpart => ?_⟩, fun heq => absurd heq hslash⟩
  · rintro rfl
    exact hequal hdouble he
  · exact absurd (hword.symm.trans hpart) nofun

/-- An equals sign starts no other tokens. -/
theorem Lexeme.kind_of_equal {more : List Char} {kind : Kind} {literal : Option Atom}
    (h : Lexeme ('=' :: more) (.ok (kind, literal))) : kind = .equal ∨ kind = .equalEqual := by
  have hfound := congrArg Span.found h.span_eq
  unfold span at hfound
  simp only [double?] at hfound
  split at hfound <;> cases hfound
  · exact .inr rfl
  · exact .inl rfl

/-- What writes a token of another kind starts with another character. -/
theorem Writes.head?_ne_equal (h : Writes (t :: tokens) text) (ht : t.Lexical)
    (hequal : t.kind ≠ .equal) (hequals : t.kind ≠ .equalEqual) :
    ∃ c more, text = c :: more ∧ c ≠ '=' := by
  cases h with
  | @cons _ _ gap text hgap hparted hrest =>
    cases hgap with
    | nil =>
      obtain ⟨c, more, hlexeme⟩ := ht.exists_cons
      refine ⟨c, more ++ text, by rw [hlexeme]; rfl, ?_⟩
      rintro rfl
      unfold Token.Lexical at ht
      rw [hlexeme] at ht
      exact ht.kind_of_equal.elim hequal hequals
    | @blank c gap hblank =>
      refine ⟨c, gap ++ t.lexeme.toList ++ text, rfl, ?_⟩
      rintro rfl
      exact absurd hblank (by decide)
    | comment => exact ⟨'/', _, rfl, by decide⟩

end Lexer
end Lox
