import Lox.Proofs.Grammar.Joining
import Lox.Proofs.Respelling.Mirrors

/-!
# Sessions on other lines

A session that is given the items of a text on other lines mirrors the session that is given the
items as they are, whatever is done to the table behind a statement.
-/
namespace Lox
open Outcome

theorem ParseError.respelled_reline (line : Int → Int) (e : ParseError) :
    e.diagnostic.Respelled (.lines line) (e.reline line).diagnostic := by
  cases e with
  | lexical e => exact .same _ _ (some e.line)
  | syntactic e => exact .same _ _ (some e.line)

theorem RuntimeError.Cause.respell_id (cause : RuntimeError.Cause) :
    cause.respell (fun name => name) = cause := by
  cases cause <;> rfl

/-- On other lines errors have the same stage and message. -/
theorem Diagnostic.Respelled.eq_of_lines {line : Int → Int} {d d' : Diagnostic}
    (h : d.Respelled (.lines line) d') : d' = { d with line := d.line.map line } := by
  cases h with
  | same => rfl
  | runtime cause n scope =>
    have hcause : cause.respell ((Respelling.lines line).declared scope) = cause := cause.respell_id
    rw [hcause]
    rfl

namespace TokenStream

theorem takeStatement_reline (line : Int → Int) (s : TokenStream) (depth : Nat) :
    ((s.reline line).takeStatement depth).1 = relineItem line (s.takeStatement depth).1 ∧
      ((s.reline line).takeStatement depth).2 = (s.takeStatement depth).2.reline line :=
  (lockstep_reline line).takeStatement (s := s) rfl depth

/-- On other lines the same is handed out on other lines. -/
theorem taken_reline (line : Int → Int) (s : TokenStream) (depth count : Nat) :
    (s.reline line).taken depth count = (s.taken depth count).map (relineItem line) := by
  induction count generalizing s with
  | zero => rfl
  | succ count ih =>
    obtain ⟨hitem, hrest⟩ := takeStatement_reline line s depth
    rw [taken, taken, hitem, hrest, ih]
    rfl

end TokenStream

namespace Mirror
variable {M : Mirror} {line : Int → Int} {limits : Limits}

/-- What a text hands out, and the same on other lines. -/
theorem items_reline (hlines : M.respelling = .lines line) (hforms : M.forms = .regular)
    {stream : TokenStream} (hs : stream.Genuine) (depth : Nat) (next : Site) :
    M.Items next (stream.takeStatement depth).1 (relineItem line (stream.takeStatement depth).1) := by
  cases htake : stream.takeStatement depth with
  | mk item rest =>
    cases item with
    | error e =>
      refine .error ?_
      rw [hlines]
      exact e.respelled_reline line
    | ok statement =>
      have hwithin := Grammar.takeStatement_within hs htake
      refine .ok ⟨stream, depth, by rw [htake]⟩ ⟨?_, ?_⟩ ?_
      · rw [hforms]
        exact hwithin.number_regular next
      · rw [hlines]
        exact Stmt.spelled_lines line _
      · rw [hlines]
        exact statement.number_respell_lines line none none next

/-- All that a text hands out, and the same on other lines. -/
theorem walks_reline (hlines : M.respelling = .lines line) (hforms : M.forms = .regular)
    {stream : TokenStream} (hs : stream.Genuine) (count : Nat) (next : Site) :
    M.Walks limits next (stream.taken limits.nesting count)
      ((stream.taken limits.nesting count).map (relineItem line)) := by
  induction count generalizing stream next with
  | zero => exact .nil next
  | succ count ih =>
    exact .cons (items_reline hlines hforms hs _ next) (ih (hs.takeStatement _) _)

end Mirror

end Lox
