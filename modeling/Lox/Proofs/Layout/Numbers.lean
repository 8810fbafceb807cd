import Lox.Proofs.Decimal.Signs
import Lox.Proofs.Decimal.Stripping
import Lox.Proofs.Layout.RoundTrip

/-!
# Number texts in program text

A finite double without a sign is written as a numeral of the lexical grammar without superfluous
zeros behind the point, and scanning this text gives one number token with the double as its literal.
A sign is written in front.
-/
namespace Lox
open Grammar Lexer

section Alone
variable {t : Token}

/-- A token alone on its line is a whole text. -/
theorem TokenStream.ofText_lexeme (ht : t.Lexical) (hline : '\n' ∉ t.lexeme.toList) :
    TokenStream.ofText t.lexeme = ⟨[.ok { t with line := 1 }], 1⟩ := by
  have hparted : Parted t [] := fun c _ => ⟨nofun, fun _ => nofun⟩
  obtain ⟨c, more, hskip, hspan⟩ := skip_lexeme ht hparted 1
  rw [List.append_nil] at hskip
  have hcount : t.lexeme.toList.count '\n' = 0 := List.count_eq_zero.mpr hline
  have hscan : scan ⟨1, t.lexeme.toList⟩ = ([.ok { t with line := 1 }], 1) := by
    rw [scan_of_token hskip, hspan]
    simp only [hcount, Nat.cast_zero, Int.add_zero]
    rw [scan_of_end (show skip 1 false [] = ⟨1, []⟩ from rfl)]
    simp only [Span.outcome, String.ofList_toList]
  have hstream : TokenStream.ofText t.lexeme =
      ⟨(scan ⟨1, t.lexeme.toList⟩).1, (scan ⟨1, t.lexeme.toList⟩).2⟩ := rfl
  rw [hstream, hscan]

end Alone

namespace Decimal
variable {x : Float}

theorem newline_not_mem_numeralText {whole digits : List Char}
    (hwhole : ∀ d ∈ whole, isDigit d = true) (hdigits : ∀ d ∈ digits, isDigit d = true) :
    '\n' ∉ numeralText whole digits := by
  intro hfeed
  unfold numeralText at hfeed
  split at hfeed
  · exact absurd (hwhole _ hfeed) (by decide)
  · simp only [List.mem_append, List.mem_cons] at hfeed
    rcases hfeed with hfeed | hfeed | hfeed
    · exact absurd (hwhole _ hfeed) (by decide)
    · exact absurd hfeed (by decide)
    · exact absurd (hdigits _ hfeed) (by decide)

/-- In program text a finite double without a sign is a numeral without superfluous zeros behind the
point, and the scanner finds one number token in it with the double as its literal. A sign comes in
front of the text of the opposite double. -/
theorem source_text_scanned (h : x.isFinite = true) :
    (isNegative x = false →
      (∃ whole fraction : List Char,
        Layout.source.text x = String.ofList (numeralText whole fraction) ∧ whole ≠ [] ∧
          (∀ c ∈ whole, isDigit c = true) ∧ (∀ c ∈ fraction, isDigit c = true) ∧
            fraction.getLast? ≠ some '0') ∧
        TokenStream.ofText (Layout.source.text x) =
          ⟨[.ok ⟨.number, Layout.source.text x, some (.number x), 1⟩], 1⟩) ∧
      (isNegative x = true → isNegative (-x) = false ∧ (-x).isFinite = true ∧
        Layout.source.text x = "-" ++ Layout.source.text (-x)) := by
  have hcode := codeOf_lt_infinityCode h
  constructor
  · intro hsign
    obtain ⟨hwhole, hdigits⟩ := isDigit_split_shortest (codeOf x)
    have htext := source_text_eq_numeralText hcode
    have hlexeme := lexeme_source hcode
    rw [← eq_ofCode h hsign] at htext hlexeme
    refine ⟨⟨_, _, htext, (digits_split_shortest _).1, hwhole, hdigits,
      getLast?_split_shortest _⟩, ?_⟩
    refine TokenStream.ofText_lexeme (t := ⟨.number, Layout.source.text x, some (.number x), 1⟩)
      hlexeme ?_
    rw [htext, String.toList_ofList]
    exact newline_not_mem_numeralText hwhole hdigits
  · intro hsign
    rw [neg_eq_ofCode h hsign]
    refine ⟨isNegative_ofCode _ hcode, isFinite_iff.mpr (unpack_ofCode hcode), ?_⟩
    obtain ⟨hnan, hinf⟩ := isFinite_iff.mp h
    rw [source_text_ofCode hcode]
    simp only [Layout.text, Layout.digits, Layout.source, hnan, hinf, hsign, Bool.false_eq_true,
      if_false, if_true]

theorem source_text_scanned_tenth :
    (TokenStream.ofText "0.1" = ⟨[.ok ⟨.number, "0.1", some (.number 0.1), 1⟩], 1⟩) ∧
      Layout.source.text (-1e16) = "-" ++ "10000000000000000" := by
  have htenth : Layout.source.text 0.1 = "0.1" := by decide +kernel
  have hgreat : Layout.source.text (-(-1e16)) = "10000000000000000" := by decide +kernel
  have hplain := (source_text_scanned (x := 0.1) (by decide +kernel)).1 (by decide +kernel)
  have hsigned := (source_text_scanned (x := -1e16) (by decide +kernel)).2 (by decide +kernel)
  exact ⟨htenth ▸ hplain.2, hgreat ▸ hsigned.2.2⟩

end Decimal

end Lox
