import Lox.Proofs.Grammar.Language
import Lox.Proofs.Grammar.Regular
import Lox.Proofs.Scoping.Judging

/-!
# Resolving a statement

A statement that has been read can be resolved unless an error is made with one of its names, and
then the first error is reported. Otherwise the table of distances knows, for every reference, the
scope that it lexically belongs to, and only what stands outside of all functions is needed just
while the statement is executed.
-/
namespace Lox

mutual

/-- The sites of the references among the names in an expression are those of its references. -/
theorem Expr.sites_marks (p : Position) (around : Surroundings) :
    ∀ e : Expr Site, (e.marks p).filterMap Mark.site? = (e.visits around).map Visit.site
  | .literal _ => rfl
  | .grouping inner => inner.sites_marks p around
  | .unary _ operand => operand.sites_marks p around
  | .binary left _ right | .logical left _ right => by
    rw [Expr.marks, Expr.visits, List.filterMap_append, List.map_append, left.sites_marks p around,
      right.sites_marks p around]
  | .variable _ _ => rfl
  | .assignment _ _ value => by
    rw [Expr.marks, Expr.visits, List.filterMap_append, List.map_append, value.sites_marks p around]
    rfl
  | .call callee _ arguments => by
    rw [Expr.marks, Expr.visits, List.filterMap_append, List.map_append,
      callee.sites_marks p around, Expr.sites_allMarks p around arguments]
  | .foreign _ => rfl

theorem Expr.sites_allMarks (p : Position) (around : Surroundings) :
    ∀ es : List (Expr Site),
      (Expr.allMarks p es).filterMap Mark.site? = (Expr.allVisits around es).map Visit.site
  | [] => rfl
  | e :: es => by
    rw [Expr.allMarks, Expr.allVisits, List.filterMap_append, List.map_append,
      e.sites_marks p around, Expr.sites_allMarks p around es]

end

mutual

/-- The sites of the references among the names in a statement are those of its references. -/
theorem Stmt.sites_marks :
    ∀ (s : Stmt Site) (scopes : List LocalScope) (around : Surroundings),
      (s.marks scopes).filterMap Mark.site? = (s.visits around).map Visit.site
  | .expression value, scopes, around | .print value, scopes, around
  | .assert _ value, scopes, around | .return _ (some value), scopes, around =>
    value.sites_marks ⟨scopes, none⟩ around
  | .variable _ none, _, _ | .return _ none, _, _ | .endMarker, _, _ | .foreign _, _, _ => rfl
  | .variable _ (some initializer), _, _ => initializer.sites_marks _ _
  | .block _ body, _, _ => Stmt.sites_allMarks body _ _
  | .conditional condition yes none, scopes, around => by
    rw [Stmt.marks, Stmt.visits, List.filterMap_append, List.map_append,
      condition.sites_marks _ around, yes.sites_marks scopes around]
  | .conditional condition yes (some no), scopes, around => by
    rw [Stmt.marks, Stmt.visits, List.filterMap_append, List.filterMap_append, List.map_append,
      List.map_append, condition.sites_marks _ around, yes.sites_marks scopes around,
      no.sites_marks scopes (around.declare yes.declared), List.append_assoc]
  | .loop condition body, scopes, around => by
    rw [Stmt.marks, Stmt.visits, List.filterMap_append, List.map_append,
      condition.sites_marks _ around, body.sites_marks scopes around]
  | .function site _ params body, scopes, around => by
    have hparams : (params.map (⟨⟨.function site :: scopes, none⟩, .declaration, ·⟩)).filterMap
        Mark.site? = [] := by
      rw [List.filterMap_map]
      exact List.filterMap_eq_nil_iff.mpr fun _ _ => rfl
    rw [Stmt.marks, Stmt.visits, List.filterMap_append, List.filterMap_append, hparams,
      Stmt.sites_allMarks body _ (around.declare _ |>.inBody site params body)]
    rfl

theorem Stmt.sites_allMarks :
    ∀ (ss : List (Stmt Site)) (scopes : List LocalScope) (around : Surroundings),
      (Stmt.allMarks scopes ss).filterMap Mark.site? = (Stmt.allVisits around ss).map Visit.site
  | [], _, _ => rfl
  | s :: ss, scopes, around => by
    rw [Stmt.allMarks, Stmt.allVisits, List.filterMap_append, List.map_append,
      s.sites_marks scopes around, Stmt.sites_allMarks ss scopes (around.declare s.declared)]

end

namespace Mark
variable {before front back ms : List Mark} {m : Mark} {site : Site} {kind : ReferenceKind}

/-- What is recorded for a reference is kept at its site. -/
theorem site?_of_binding? {b : Binding} (h : m.binding? before = some b) :
    m.site? = some b.site := by
  unfold binding? at h
  split at h
  · cases h
  · rename_i site kind hrole
    obtain ⟨distance, -, rfl⟩ := Option.map_eq_some_iff.mp h
    rw [site?, hrole]

/-- What is recorded stands at the sites of references, in their order. -/
theorem sites_bindings_sublist (before ms : List Mark) :
    ((bindings before ms).map Binding.site).Sublist (ms.filterMap site?) := by
  induction ms generalizing before with
  | nil => exact List.nil_sublist _
  | cons m ms ih =>
    rw [bindings, gather_cons, List.map_append]
    cases hbinding : m.binding? before with
    | none =>
      refine (ih (before ++ [m])).trans ?_
      rw [← List.singleton_append, List.filterMap_append]
      exact List.sublist_append_right _ _
    | some b =>
      rw [List.filterMap_cons_some (site?_of_binding? hbinding)]
      exact (ih (before ++ [m])).cons_cons b.site

/-- A table with what has been recorded for some names knows the distance of each reference among
them, and knows nothing of a reference that has none. -/
theorem find?_record_bindings (hnodup : ((front ++ m :: back).filterMap site?).Nodup)
    (hrole : m.role = .reference site kind) {d : Distances} (hnew : d.find? site = none) :
    (d.record (bindings [] (front ++ m :: back))).find? site = m.distance? front := by
  have hsite : m.site? = some site := by rw [site?, hrole]
  have hsublist := sites_bindings_sublist [] (front ++ m :: back)
  have hbinding : m.binding? front = (m.distance? front).map fun distance =>
      ⟨site, kind, m.name, distance, m.position.inFunction⟩ := by
    rw [binding?, hrole]
  cases hdistance : m.distance? front with
  | some distance =>
    rw [hdistance] at hbinding
    have hmem : _ ∈ bindings [] (front ++ m :: back) := mem_gather_of_eq_some hbinding
    exact Distances.find?_record_of_mem (hnodup.sublist hsublist) hmem
  | none =>
    rw [hdistance] at hbinding
    rw [List.filterMap_append, List.filterMap_cons_some hsite] at hnodup
    rw [Distances.find?_record_of_forall_ne, hnew]
    -- Only what is recorded for another reference is left, and that has another site.
    intro b hb heq
    rw [bindings, gather_append, gather_cons, List.nil_append, hbinding] at hb
    have hother : site ∈ front.filterMap site? ∨ site ∈ back.filterMap site? := by
      rcases List.mem_append.mp hb with hfront | hback
      · exact .inl ((sites_bindings_sublist [] front).subset
          (List.mem_map.mpr ⟨b, hfront, heq⟩))
      · exact .inr ((sites_bindings_sublist (front ++ [m]) back).subset
          (List.mem_map.mpr ⟨b, hback, heq⟩))
    rw [List.nodup_middle, List.nodup_cons, List.mem_append] at hnodup
    exact hnodup.1 hother

end Mark

namespace Stmt

/-- Resolving the statement, whose sites are numbered from `next` on, computes its lexical scoping:
it fails just if an error is made with a name, and then with the first such error; otherwise it
finds the distances of the references to local names. -/
structure LexicallyResolved (root : Stmt Site) (depth : Nat) (next : Site) : Prop where
  fails_iff : (∃ failure, (root.resolve depth).1 = .error failure) ↔
    ∃ front m back, root.marks [] = front ++ m :: back ∧ m.offence? front ≠ none
  fails_first : ∀ failure, (root.resolve depth).1 = .error failure →
    ∃ front m back e, root.marks [] = front ++ m :: back ∧ m.offence? front = some e ∧
      (∀ earlier other later, front = earlier ++ other :: later → other.offence? earlier = none) ∧
      root.resolve depth = (.error (.error e), [])
  /-- Exactly the bound references outside of all functions are given back, in their order. -/
  gives_back : ∀ found, root.resolve depth = (.ok (), found) →
    transient found = gather
      (fun before m => if m.position.inFunction then none else m.binding? before) [] (root.marks [])
  /-- A table that knows nothing of the statement knows its references afterwards. -/
  records : ∀ found, root.resolve depth = (.ok (), found) →
    ∀ d : Distances, (∀ entry ∈ d.entries, entry.1 < next) →
      ∀ front m back site kind, root.marks [] = front ++ m :: back →
        m.role = .reference site kind → (d.record found).find? site = m.distance? front

/-- Resolving finds the first error, or else the bindings of all references. -/
theorem resolve_number_eq {σ : Type} {s : Stmt σ} {F : Forms σ} {ending : Prop} {scope : Option σ}
    {depth : Nat} (hfaults : ¬F.faults) (hs : s.Within F ending scope) (hheight : s.height ≤ depth)
    (next : Site) :
    (s.number next).1.resolve depth =
      match Mark.offences [] ((s.number next).1.marks []) with
      | e :: _ => (.error (.error e), [])
      | [] => (.ok (), Mark.bindings [] ((s.number next).1.marks [])) := by
  have hjudged := Resolver.Judges.statement hfaults depth hs hheight next [] .start (.start next)
  unfold resolve
  generalize Resolver.statement depth (s.number next).1 .start = r at hjudged
  cases hjudged with
  | error h => rw [h]
  | ok h hfound _ =>
    rw [h]
    simp only [hfound, Walk.start, List.append_nil, List.reverse_reverse]

/-- Of all bindings, those that stand outside of all functions. -/
theorem transient_bindings (ms : List Mark) :
    transient (Mark.bindings [] ms) =
      gather (fun before m => if m.position.inFunction then none else m.binding? before) [] ms := by
  have hfilter : ∀ before (m : Mark), (m.binding? before).filter (!·.inFunction) =
      if m.position.inFunction then none else m.binding? before := by
    intro before m
    unfold Mark.binding?
    split
    · simp
    · cases m.distance? before with
      | none => simp
      | some distance => cases m.position.inFunction <;> simp [Option.filter]
  rw [transient, Mark.bindings, filter_gather]
  exact congrArg (gather · [] ms) (funext fun before => funext fun m => hfilter before m)

section Resolving
variable {root : Stmt Site} {depth : Nat} {next : Site}

theorem lexicallyResolved_of_offence {e : ResolutionError} {later : List ResolutionError}
    (hoffences : Mark.offences [] (root.marks []) = e :: later)
    (hresolve : root.resolve depth = (.error (.error e), [])) :
    root.LexicallyResolved depth next := by
  obtain ⟨front, m, back, hsplit, hm, hnone⟩ := exists_of_gather_eq_cons hoffences
  have hfirst : ∀ earlier other later, front = earlier ++ other :: later →
      other.offence? earlier = none := gather_eq_nil_iff.mp hnone
  have hnever : ∀ found, root.resolve depth ≠ (.ok (), found) := by
    intro found hok
    rw [hresolve] at hok
    cases hok
  refine ⟨⟨fun _ => ⟨front, m, back, hsplit, ?_⟩, fun _ => ⟨_, congrArg Prod.fst hresolve⟩⟩,
    fun _ _ => ⟨front, m, back, e, hsplit, hm, hfirst, hresolve⟩,
    fun found hok => absurd hok (hnever found), fun found hok => absurd hok (hnever found)⟩
  rw [List.nil_append] at hm
  rw [hm]
  exact Option.some_ne_none e

theorem lexicallyResolved_of_no_offence (hoffences : Mark.offences [] (root.marks []) = [])
    (hresolve : root.resolve depth = (.ok (), Mark.bindings [] (root.marks [])))
    (hnodup : ((root.marks []).filterMap Mark.site?).Nodup)
    (hlower : ∀ site ∈ (root.marks []).filterMap Mark.site?, next ≤ site) :
    root.LexicallyResolved depth next := by
  have hnone : ∀ front m back, root.marks [] = front ++ m :: back → m.offence? front = none :=
    gather_eq_nil_iff.mp hoffences
  have hfound : ∀ found, root.resolve depth = (.ok (), found) →
      found = Mark.bindings [] (root.marks []) := by
    intro found hok
    rw [hresolve] at hok
    exact (Prod.mk.inj hok).2.symm
  have hnever : ∀ failure, (root.resolve depth).1 ≠ .error failure := by
    intro failure hfailure
    rw [hresolve] at hfailure
    cases hfailure
  refine ⟨⟨?_, ?_⟩, fun failure hfailure => absurd hfailure (hnever failure), ?_, ?_⟩
  · rintro ⟨failure, hfailure⟩
    exact absurd hfailure (hnever failure)
  · rintro ⟨front, m, back, hsplit, hoffence⟩
    exact absurd (hnone front m back hsplit) hoffence
  · intro found hok
    rw [hfound found hok, transient_bindings]
  · intro found hok d hd front m back site kind hsplit hrole
    have hmem : site ∈ (root.marks []).filterMap Mark.site? := by
      refine List.mem_filterMap.mpr ⟨m, by simp [hsplit], ?_⟩
      rw [Mark.site?, hrole]
    have hnew : d.find? site = none := by
      refine List.lookup_eq_none_iff.mpr fun entry hentry => ?_
      have hlt := Nat.lt_of_lt_of_le (hd entry hentry) (hlower site hmem)
      simpa using (Nat.ne_of_lt hlt).symm
    rw [hfound found hok]
    rw [hsplit] at hnodup ⊢
    exact Mark.find?_record_bindings hnodup hrole hnew

end Resolving

/-- Every statement that can be read, however its sites are numbered, is resolved lexically. -/
theorem resolved_lexically {input rest : TokenStream} {tree : Stmt Unit} {reading depth : Nat}
    (hinput : input.Genuine) (htake : input.takeStatement reading = (.ok tree, rest))
    (hheight : tree.height ≤ depth) (next : Site) :
    (tree.number next).1.LexicallyResolved depth next := by
  have hwithin : tree.Within .regular True none := Grammar.takeStatement_within hinput htake
  have hresolve := resolve_number_eq (fun h => h) hwithin hheight next
  cases hoffences : Mark.offences [] ((tree.number next).1.marks []) with
  | cons e later =>
    rw [hoffences] at hresolve
    exact lexicallyResolved_of_offence hoffences hresolve
  | nil =>
    rw [hoffences] at hresolve
    have hfresh := tree.fresh_number .outermost next
    have hsites := (tree.number next).1.sites_marks [] .outermost
    refine lexicallyResolved_of_no_offence hoffences hresolve (hsites ▸ hfresh.nodup) ?_
    rw [hsites]
    rintro site hsite
    obtain ⟨v, hv, rfl⟩ := List.mem_map.mp hsite
    exact hfresh.lower v hv

theorem resolved_lexically_of_shadowing :
    let a : Token := ⟨.identifier, "a", none, 1⟩
    let tree : Stmt Unit := .block () [.variable a none, .function () ⟨.identifier, "f", none, 1⟩ []
      [.expression (.assignment () a (.variable () a)), .variable a none]]
    (∃ rest, (TokenStream.ofText "{ var a; fun f() { a = a; var a; } }").takeStatement 20 =
      (.ok tree, rest)) ∧ tree.height ≤ 9 ∧ (tree.number 3).1.LexicallyResolved 9 3 := by
  intro a tree
  have htake : ((TokenStream.ofText "{ var a; fun f() { a = a; var a; } }").takeStatement 20).1 =
      .ok tree := rfl
  have hheight : tree.height ≤ 9 := by decide
  exact ⟨⟨_, Prod.ext htake rfl⟩, hheight,
    resolved_lexically (TokenStream.genuine_ofText _) (Prod.ext htake rfl) hheight 3⟩

end Stmt

end Lox
