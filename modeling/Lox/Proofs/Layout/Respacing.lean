import Lox.Proofs.Layout.Spacing
import Lox.Proofs.Layout.Texts
import Lox.Proofs.Respelling.Relining

/-!
# The same lexemes with other space

A text that scans without an error may be written with any separators between its lexemes. The other
text delivers the same tokens and is read as the same trees and errors, apart from lines.
-/
namespace Lox

namespace Lexer

/-- Space that starts with a blank. -/
structure Separator (gap : List Char) : Prop where
  spacing : Spacing gap
  begins : gap.head?.any Text.isBlank = true

/-- What may stand behind a lexeme: other ones, each behind a separator, and space at the end. -/
inductive Continues : List String → List Char → Prop where
  | nil : Continues [] []
  | space {gap : List Char} (h : Separator gap) : Continues [] gap
  | cons {lexeme : String} {lexemes : List String} {gap text : List Char} (hgap : Separator gap)
    (h : Continues lexemes text) : Continues (lexeme :: lexemes) (gap ++ lexeme.toList ++ text)

/-- A text that consists of lexemes with separators between them, and perhaps space around them. -/
inductive Spread : List String → List Char → Prop where
  | nil {gap : List Char} (h : Spacing gap) : Spread [] gap
  | cons {lexeme : String} {lexemes : List String} {gap text : List Char} (hgap : Spacing gap)
    (h : Continues lexemes text) : Spread (lexeme :: lexemes) (gap ++ lexeme.toList ++ text)

section Writing
variable {c : Char} {text : List Char} {tokens : List Token}

/-- Blanks carry no token on. -/
theorem apart_of_isBlank (h : text.head?.all Text.isBlank = true) : Apart c text := by
  intro d hd
  have hblank : Text.isBlank d = true := by
    rw [Option.mem_def.mp hd] at h
    simpa using h
  have hne : ∀ other : Char, Text.isBlank other = false → d ≠ other := by
    rintro other hother rfl
    exact absurd (hblank.symm.trans hother) nofun
  exact ⟨fun _ => hne '=' (by decide), fun _ => ⟨isWordPart_of_isBlank hblank, hne '.' (by decide)⟩⟩

theorem parted_of_isBlank (t : Token) (h : text.head?.all Text.isBlank = true) : Parted t text := by
  refine fun c _ => ⟨apart_of_isBlank h, fun _ hslash => ?_⟩
  rw [hslash] at h
  exact absurd h (by decide)

theorem Separator.all_append {gap : List Char} (h : Separator gap) (text : List Char) :
    (gap ++ text).head?.all Text.isBlank = true := by
  cases gap with
  | nil => cases h.begins
  | cons d gap => simpa using h.begins

theorem Continues.writes {lexemes : List String} (h : Continues lexemes text)
    (hlexemes : lexemes = tokens.map (·.lexeme)) :
    Writes tokens text ∧ text.head?.all Text.isBlank = true := by
  induction h generalizing tokens with
  | nil =>
    obtain rfl := List.map_eq_nil_iff.mp hlexemes.symm
    exact ⟨.nil .nil, rfl⟩
  | @space gap hgap =>
    obtain rfl := List.map_eq_nil_iff.mp hlexemes.symm
    refine ⟨.nil hgap.spacing, ?_⟩
    simpa using hgap.all_append []
  | cons hgap _ ih =>
    obtain ⟨token, tokens, rfl, rfl, htokens⟩ := List.map_eq_cons_iff.mp hlexemes.symm
    obtain ⟨hwrites, hblank⟩ := ih htokens.symm
    refine ⟨.cons hgap.spacing (parted_of_isBlank token hblank) hwrites, ?_⟩
    rw [List.append_assoc]
    exact hgap.all_append _

theorem Spread.writes (h : Spread (tokens.map (·.lexeme)) text) : Writes tokens text := by
  generalize hlexemes : tokens.map (·.lexeme) = lexemes at h
  cases h with
  | nil hgap =>
    obtain rfl := List.map_eq_nil_iff.mp hlexemes
    exact .nil hgap
  | cons hgap hrest =>
    obtain ⟨token, tokens, rfl, rfl, htokens⟩ := List.map_eq_cons_iff.mp hlexemes
    obtain ⟨hwrites, hblank⟩ := hrest.writes htokens.symm
    exact .cons hgap (parted_of_isBlank token hblank) hwrites

end Writing

end Lexer

/-- The first text scans without an error, and the other one writes its lexemes in the same order with
any separators between them. -/
def Respaced (source other : String) : Prop :=
  ∃ tokens : List Token, (TokenStream.ofText source).pending = tokens.map .ok ∧
    Lexer.Spread (tokens.map (·.lexeme)) other.toList

namespace TokenStream
variable {s t : TokenStream}

/-- The statements that a stream hands out, without those that have failed. -/
def handedOut (depth : Nat) (s : TokenStream) : List (Stmt Unit) :=
  (s.statements depth).filterMap Except.toOption

/-- Streams that deliver the same tokens and errors, apart from lines. -/
def SameButLines (s t : TokenStream) : Prop :=
  t.reline (fun _ => 0) = s.reline fun _ => 0

/-- Streams of texts of which one is the other with other space, behind the same statements. -/
inductive Respaced : TokenStream → TokenStream → Prop where
  | text {source other : String} (h : Lox.Respaced source other) :
    Respaced (.ofText source) (.ofText other)
  | rest {s t : TokenStream} (h : Respaced s t) (depth : Nat) :
    Respaced (s.takeStatement depth).2 (t.takeStatement depth).2

namespace SameButLines

theorem taken (h : SameButLines s t) (depth count : Nat) :
    (t.taken depth count).map (relineItem fun _ => 0) =
      (s.taken depth count).map (relineItem fun _ => 0) := by
  rw [← taken_reline, ← taken_reline, h]

theorem takeStatement (h : SameButLines s t) (depth : Nat) :
    relineItem (fun _ => 0) (t.takeStatement depth).1 =
        relineItem (fun _ => 0) (s.takeStatement depth).1 ∧
      SameButLines (s.takeStatement depth).2 (t.takeStatement depth).2 := by
  obtain ⟨hs, hs'⟩ := takeStatement_reline (fun _ => 0) s depth
  obtain ⟨ht, ht'⟩ := takeStatement_reline (fun _ => 0) t depth
  refine ⟨by rw [← ht, ← hs, h], ?_⟩
  rw [SameButLines, ← ht', ← hs', h]

theorem remaining (h : SameButLines s t) : t.remaining = s.remaining := by
  have hlength := congrArg (fun u => u.pending.length) h
  simpa [reline, TokenStream.remaining] using hlength

end SameButLines

end TokenStream

section Reading
variable {source other : String} {s t : TokenStream}

/-- With other space the same tokens are scanned. -/
theorem Respaced.sameButLines (h : Respaced source other) :
    TokenStream.SameButLines (.ofText source) (.ofText other) := by
  obtain ⟨tokens, htokens, hspread⟩ := h
  have hlexical : ∀ t ∈ tokens, t.Lexical := fun t ht =>
    TokenStream.lexical_of_mem_ofText (htokens ▸ List.mem_map_of_mem ht)
  have hpending : (TokenStream.ofText other).pending.map (relineHead fun _ => 0) =
      (TokenStream.ofText source).pending.map (relineHead fun _ => 0) := by
    rw [htokens, List.map_map]
    exact hspread.writes.scan hlexical 1
  exact congrArg (TokenStream.mk · 0) hpending

theorem TokenStream.Respaced.genuine (h : s.Respaced t) : s.Genuine ∧ t.Genuine := by
  induction h with
  | text => exact ⟨genuine_ofText _, genuine_ofText _⟩
  | rest _ depth ih => exact ⟨ih.1.takeStatement depth, ih.2.takeStatement depth⟩

theorem TokenStream.Respaced.sameButLines (h : s.Respaced t) : s.SameButLines t := by
  induction h with
  | text h => exact h.sameButLines
  | rest _ depth ih => exact (ih.takeStatement depth).2

end Reading

theorem Stmt.formatProgram_respell_lines (line : Int → Int) (limit : Nat) (ss : List (Stmt Unit)) :
    Stmt.formatProgram limit (ss.map (Stmt.respell (.lines line) none)) =
      Stmt.formatProgram limit ss := by
  have hformat : Stmt.format limit ∘ Stmt.respell (.lines line) (none : Option Unit) =
      Stmt.format limit := funext fun s => s.format_respell_lines line limit none
  simp only [formatProgram, List.mapM_map, hformat]

end Lox
