import Mathlib.Data.List.DropRight
import Lox.Text.Blank

/-!
# Texts without the blanks at their ends

Stripping takes blanks off a text and nothing else, so what is not blank tells when two texts that
begin alike are the same without the blanks at their ends.
-/
namespace Lox.Text
variable {text behind : List Char}

theorem stripLeft_append (h : stripLeft text ≠ []) :
    stripLeft (text ++ behind) = stripLeft text ++ behind := by
  have hleft : text.dropWhile isBlank ≠ [] := h
  rw [stripLeft, List.dropWhile_append, if_neg (mt List.isEmpty_iff.1 hleft)]
  rfl

theorem stripRight_append (h : stripRight behind ≠ []) :
    stripRight (text ++ behind) = text ++ stripRight behind := by
  have hreverse : behind.reverse.dropWhile isBlank ≠ [] := by
    intro hnil
    exact h (by rw [stripRight, hnil, List.reverse_nil])
  rw [stripRight, List.reverse_append, List.dropWhile_append, if_neg (mt List.isEmpty_iff.1 hreverse),
    List.reverse_append, List.reverse_reverse]
  rfl

/-- A text is its leading blanks, and the rest of it. -/
theorem exists_stripLeft (text : List Char) :
    ∃ blanks, (∀ c ∈ blanks, isBlank c) ∧ text = blanks ++ stripLeft text :=
  ⟨text.takeWhile isBlank, fun _ => List.mem_takeWhile_imp, List.takeWhile_append_dropWhile.symm⟩

/-- A text is what stands before its trailing blanks, and those. -/
theorem exists_stripRight (text : List Char) :
    ∃ blanks, (∀ c ∈ blanks, isBlank c) ∧ text = stripRight text ++ blanks := by
  obtain ⟨blanks, hblanks, htext⟩ := exists_stripLeft text.reverse
  refine ⟨blanks.reverse, fun c hc => hblanks c (List.mem_reverse.1 hc), ?_⟩
  calc text = (blanks ++ stripLeft text.reverse).reverse := by rw [← htext, List.reverse_reverse]
    _ = stripRight text ++ blanks.reverse := List.reverse_append

theorem stripRight_stripRight (text : List Char) :
    stripRight (stripRight text) = stripRight text := by
  rw [stripRight, stripRight, List.reverse_reverse, List.dropWhile_idempotent]

/-- What begins with no blank still does so without its trailing blanks. -/
theorem stripLeft_strip (text : List Char) : stripLeft (strip text) = strip text := by
  obtain ⟨blanks, -, htext⟩ := exists_stripRight (stripLeft text)
  cases hstrip : strip text with
  | nil => rfl
  | cons c rest =>
    have hc : ¬ isBlank c := by
      have hhead : (stripLeft text).head? = some c := by
        rw [htext]
        exact congrArg (fun kept => (kept ++ blanks).head?) hstrip
      have hkept := List.head?_dropWhile_not isBlank text
      rw [stripLeft] at hhead
      rw [hhead] at hkept
      simpa using hkept
    exact List.dropWhile_cons_of_neg hc

theorem strip_strip (text : List Char) : strip (strip text) = strip text :=
  calc strip (strip text) = stripRight (strip text) := congrArg stripRight (stripLeft_strip text)
    _ = strip text := stripRight_stripRight _

/-- Nothing but blanks is taken off. -/
theorem filter_strip (text : List Char) :
    (strip text).filter (!isBlank ·) = text.filter (!isBlank ·) := by
  have hnone : ∀ {blanks : List Char}, (∀ c ∈ blanks, isBlank c) →
      blanks.filter (!isBlank ·) = [] :=
    fun hblanks => List.filter_eq_nil_iff.2 fun c hc => by simp [hblanks c hc]
  obtain ⟨leading, hleading, htext⟩ := exists_stripLeft text
  obtain ⟨trailing, htrailing, hleft⟩ := exists_stripRight (stripLeft text)
  calc (strip text).filter (!isBlank ·)
      = (strip text).filter (!isBlank ·) ++ trailing.filter (!isBlank ·) := by
        rw [hnone htrailing, List.append_nil]
    _ = (stripLeft text).filter (!isBlank ·) := by
        rw [← List.filter_append]
        exact congrArg (List.filter (!isBlank ·)) hleft.symm
    _ = leading.filter (!isBlank ·) ++ (stripLeft text).filter (!isBlank ·) := by
        rw [hnone hleading, List.nil_append]
    _ = text.filter (!isBlank ·) := by rw [← List.filter_append, ← htext]

theorem stripRight_append_of_forall (h : ∀ c ∈ behind, isBlank c) :
    stripRight (text ++ behind) = stripRight text := by
  have hreverse : behind.reverse.dropWhile isBlank = [] :=
    List.dropWhile_eq_nil_iff.2 fun c hc => h c (List.mem_reverse.1 hc)
  rw [stripRight, List.reverse_append, List.dropWhile_append, hreverse]
  rfl

/-- What stands behind a text makes no difference exactly if it is blank. -/
theorem strip_append_eq_iff : strip (text ++ behind) = strip text ↔ ∀ c ∈ behind, isBlank c := by
  constructor
  · intro heq
    have hkept := congrArg (List.filter (!isBlank ·)) heq
    rw [filter_strip, filter_strip, List.filter_append, List.append_right_eq_self,
      List.filter_eq_nil_iff] at hkept
    exact fun c hc => by simpa using hkept c hc
  · intro hblank
    by_cases hleft : stripLeft text = []
    · have htext : ∀ c ∈ text, isBlank c := List.dropWhile_eq_nil_iff.1 hleft
      have hwhole : stripLeft (text ++ behind) = [] :=
        List.dropWhile_eq_nil_iff.2 (List.forall_mem_append.2 ⟨htext, hblank⟩)
      rw [strip, strip, hwhole, hleft]
    · rw [strip, strip, stripLeft_append hleft, stripRight_append_of_forall hblank]

end Lox.Text
