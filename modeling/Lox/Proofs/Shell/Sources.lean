import Lox.Proofs.Shell.Typing
import Lox.Proofs.Text.Stripping

/-!
# The source that a shell makes of typed lines

The lines of one source are kept until they leave nothing open. The blanks around the first line are
taken off, and the empty lines behind it are passed over. What is left open is the same with and
without them, so the source ends with the line with which the typed text ends; but it is not the text
that was typed.
-/
namespace Lox

namespace Shell
variable {limits : Limits} {shell : Shell} {text kept first last : String} {rest : List String}

/-! ## The lines of one source -/

/-- The line breaks of further lines, and the lines. -/
def behind (rest : List String) : List Char :=
  rest.flatMap fun line => '\n' :: line.toList

@[simp] theorem behind_nil : behind [] = [] := rfl

@[simp] theorem behind_cons (line : String) (rest : List String) :
    behind (line :: rest) = '\n' :: line.toList ++ behind rest := by
  simp [behind]

theorem behind_append (rest more : List String) :
    behind (rest ++ more) = behind rest ++ behind more :=
  List.flatMap_append

/-- Lines are joined one after the other. -/
theorem intercalate_cons_cons (first line : String) (rest : List String) :
    "\n".intercalate (first :: line :: rest) =
      "\n".intercalate ((first ++ "\n" ++ line) :: rest) := rfl

theorem toList_intercalate (first : String) (rest : List String) :
    ("\n".intercalate (first :: rest)).toList = first.toList ++ behind rest := by
  induction rest generalizing first with
  | nil => simp [String.intercalate_singleton]
  | cons line rest ih =>
    rw [intercalate_cons_cons, ih]
    simp

/-- Every empty line is a line break too few. -/
theorem length_behind (rest : List String) :
    (behind rest).length = (behind (rest.filter (· ≠ ""))).length + rest.count "" := by
  induction rest with
  | nil => rfl
  | cons line rest ih =>
    by_cases hline : line = ""
    · subst hline
      simp only [behind_cons, List.length_append, ih]
      simp
      omega
    · simp [behind_cons, hline, ih]
      omega

/-- No empty line is passed over, and nothing else left out, if nothing is missing. -/
theorem behind_filter_iff {blanks : List Char} :
    behind (rest.filter (· ≠ "")) = blanks ++ behind rest ↔ "" ∉ rest ∧ blanks = [] := by
  constructor
  · intro heq
    have hlength := congrArg List.length heq
    rw [List.length_append, length_behind rest] at hlength
    have hcount : rest.count "" = 0 := by omega
    have hblanks : blanks.length = 0 := by omega
    exact ⟨List.count_eq_zero.1 hcount, List.length_eq_zero_iff.1 hblanks⟩
  · rintro ⟨hempty, rfl⟩
    have hfilter : rest.filter (· ≠ "") = rest := by
      refine List.filter_eq_self.2 fun line hline => ?_
      simpa using ne_of_mem_of_not_mem hline hempty
    rw [hfilter, List.nil_append]

/-- Blanks are taken off at the front of the first line and at the end of the last. -/
theorem strip_lines {text : List Char} {init : List String} (htext : Text.stripLeft text ≠ [])
    (hlast : Text.stripRight last.toList ≠ []) :
    Text.strip (text ++ behind (init ++ [last])) =
      Text.stripLeft text ++ behind init ++ '\n' :: Text.stripRight last.toList := by
  have hbehind : behind (init ++ [last]) = behind init ++ ['\n'] ++ last.toList := by
    simp [behind_append]
  rw [Text.strip, Text.stripLeft_append htext, hbehind, ← List.append_assoc,
    Text.stripRight_append hlast]
  simp

/-! ## What is kept of the lines -/

/-- Whether a line begins with one of the marks for which the blanks around it are kept. -/
def Marked (line : String) : Prop :=
  (Text.stripLeft line.toList).head? = some '!' ∨ (Text.stripLeft line.toList).head? = some '?'

instance (line : String) : Decidable (Marked line) := by
  unfold Marked
  infer_instance

/-- What is kept of the first line of a source. -/
def opened (first : String) : String :=
  if Marked first then first else String.ofList (Text.strip first.toList)

/-- What is kept of the lines of a source. -/
def source (first : String) (rest : List String) : String :=
  "\n".intercalate (opened first :: rest.filter (· ≠ ""))

/-- The sources that are run while lines are typed behind those that wait. -/
def sources (pending : String) : List String → List String
  | [] => []
  | line :: rest =>
    match action pending line with
    | .ignore => sources pending rest
    | .command _ => sources pending rest
    | .wait pending => sources pending rest
    | .run source => source :: sources "" rest

theorem action_first (hline : Text.strip first.toList ≠ [])
    (hcommand : command? (Text.strip first.toList) = none) :
    action "" first =
      if leavesOpen (opened first) then .wait (opened first ++ "\n") else .run (opened first) := by
  have hread : read false first = .source (opened first) := by
    by_cases hmarked : Marked first
    · have hempty : first ≠ "" := by
        rintro rfl
        exact hline rfl
      simp only [Marked] at hmarked
      simp [read, opened, Marked, hmarked, hempty]
    · simp only [Marked] at hmarked
      simp only [read, opened, Marked, hmarked, Bool.false_or, Bool.or_eq_true, decide_eq_true_eq,
        if_false, hcommand]
  simp [action, hread]

/-- Two texts, so far as it matters for what they leave open before further lines. -/
def Alike (text kept : String) : Prop :=
  ∀ tail, leavesOpenFrom .code 0 (text.toList ++ '\n' :: tail) =
    leavesOpenFrom .code 0 (kept.toList ++ '\n' :: tail)

namespace Alike

theorem leavesOpen_eq (h : Alike text kept) : leavesOpen text = leavesOpen kept := by
  have newline (text : List Char) :
      leavesOpenFrom .code 0 (text ++ ['\n']) = leavesOpenFrom .code 0 text := by
    obtain ⟨region, balance, htail⟩ := exists_leavesOpenFrom_append .code 0 text
    rw [htail _ (by simp), leavesOpenFrom_blanks (by simp [Text.isBlank_newline]),
      ← htail [] (by simp), List.append_nil]
  rw [leavesOpen, leavesOpen, ← newline, h, newline]

protected theorem line (h : Alike text kept) (line : String) :
    Alike (text ++ "\n" ++ line) (kept ++ "\n" ++ line) := by
  intro tail
  simpa using h (line.toList ++ '\n' :: tail)

theorem empty (h : Alike text kept) : Alike (text ++ "\n" ++ "") kept := by
  intro tail
  obtain ⟨region, balance, hkept⟩ := exists_leavesOpenFrom_append .code 0 kept.toList
  calc leavesOpenFrom .code 0 ((text ++ "\n" ++ "").toList ++ '\n' :: tail)
      = leavesOpenFrom .code 0 (text.toList ++ '\n' :: '\n' :: tail) := by simp
    _ = leavesOpenFrom .code 0 (kept.toList ++ '\n' :: '\n' :: tail) := h _
    _ = leavesOpenFrom region balance (['\n'] ++ '\n' :: tail) := hkept _ (by simp)
    _ = leavesOpenFrom region balance ('\n' :: tail) :=
      leavesOpenFrom_blanks_newline (by simp [Text.isBlank_newline])
    _ = leavesOpenFrom .code 0 (kept.toList ++ '\n' :: tail) := (hkept _ (by simp)).symm

/-- The blanks around the first line leave nothing open. -/
theorem opened (first : String) : Alike first (opened first) := by
  intro tail
  rw [Shell.opened]
  split
  · rfl
  · obtain ⟨blanks, hblanks, hsplit⟩ := Text.exists_stripRight (Text.stripLeft first.toList)
    obtain ⟨region, balance, hstrip⟩ :=
      exists_leavesOpenFrom_append .code 0 (Text.strip first.toList)
    calc leavesOpenFrom .code 0 (first.toList ++ '\n' :: tail)
        = leavesOpenFrom .code 0 (Text.stripLeft first.toList ++ '\n' :: tail) :=
          (leavesOpenFrom_stripLeft first.toList).symm
      _ = leavesOpenFrom .code 0 (Text.strip first.toList ++ (blanks ++ '\n' :: tail)) := by
          rw [← List.append_assoc]
          exact congrArg (fun text => leavesOpenFrom .code 0 (text ++ '\n' :: tail)) hsplit
      _ = leavesOpenFrom region balance (blanks ++ '\n' :: tail) := by
          refine hstrip _ ?_
          cases blanks with
          | nil => simp
          | cons c rest =>
            rintro hslash
            cases Option.some.inj hslash
            cases hblanks '/' (List.mem_cons_self ..)
      _ = leavesOpenFrom region balance ('\n' :: tail) := leavesOpenFrom_blanks_newline hblanks
      _ = leavesOpenFrom .code 0 (Text.strip first.toList ++ '\n' :: tail) :=
          (hstrip _ (by simp)).symm
      _ = _ := by rw [String.toList_ofList]

end Alike

/-- Lines that make one source where no other line waits: the first is neither blank nor a command,
and all of them together leave nothing open, but no fewer do. -/
structure OneSource (first : String) (rest : List String) : Prop where
  filled : Text.strip first.toList ≠ []
  plain : command? (Text.strip first.toList) = none
  unfinished : ∀ count < rest.length, leavesOpen ("\n".intercalate (first :: rest.take count))
  finished : leavesOpen ("\n".intercalate (first :: rest)) = false

/-- Behind lines that wait, all lines that leave something open wait too, and the one that closes it
is run with them. -/
theorem sources_behind (limits : Limits) (halike : Alike text kept) (init : List String)
    (hopen : ∀ count ≤ init.length, leavesOpen ("\n".intercalate (text :: init.take count)))
    (hclosed : leavesOpen ("\n".intercalate (text :: (init ++ [last]))) = false) :
    sources (kept ++ "\n") (init ++ [last]) =
      ["\n".intercalate (kept :: (init ++ [last]).filter (· ≠ ""))] ∧
    ∀ shell : Shell, shell.pending = kept ++ "\n" → shell.typed limits (init ++ [last]) =
      (run limits shell.session
        ("\n".intercalate (kept :: (init ++ [last]).filter (· ≠ "")))).map fun ran =>
          (List.replicate init.length (false, "") ++ [(false, ran.1)], ran.2) := by
  have hwaiting (kept : String) : kept ++ "\n" ≠ "" := by simp
  induction init generalizing text kept with
  | nil =>
    have hline : last ≠ "" := by
      rintro rfl
      have hempty : leavesOpen (text ++ "\n" ++ "") = false := hclosed
      rw [halike.empty.leavesOpen_eq, ← halike.leavesOpen_eq] at hempty
      have hbefore : leavesOpen text := hopen 0 (Nat.le_refl 0)
      rw [hempty] at hbefore
      cases hbefore
    have hrun : action (kept ++ "\n") last = .run (kept ++ "\n" ++ last) := by
      have hsource : leavesOpen (kept ++ "\n" ++ last) = false := by
        rw [← (halike.line last).leavesOpen_eq]
        exact hclosed
      rw [action_line (hwaiting kept) hline, hsource]
      rfl
    have hkept : (([] ++ [last]).filter (· ≠ "")) = [last] := by simp [hline]
    rw [hkept]
    refine ⟨?_, fun shell hshell => ?_⟩
    · rw [List.nil_append, sources, hrun]
      rfl
    · exact typed_run (hshell ▸ hrun)
  | cons line init ih =>
    have hlater (count : Nat) (hcount : count ≤ init.length) :
        leavesOpen ("\n".intercalate ((text ++ "\n" ++ line) :: init.take count)) :=
      hopen (count + 1) (Nat.succ_le_succ hcount)
    by_cases hline : line = ""
    · subst hline
      obtain ⟨hsources, htyped⟩ := ih halike.empty hlater hclosed
      have hignore := action_empty (hwaiting kept)
      refine ⟨?_, fun shell hshell => ?_⟩
      · rw [List.cons_append, sources, hignore]
        simpa using hsources
      · have henter : shell.enter limits "" = some (false, "", shell) := by
          rw [enter, hshell, hignore]
        rw [List.cons_append, typed_cons henter, htyped shell hshell, Option.map_map]
        simp [List.replicate_succ, Function.comp_def]
    · obtain ⟨hsources, htyped⟩ := ih (halike.line line) hlater hclosed
      have hwait : action (kept ++ "\n") line = .wait (kept ++ "\n" ++ line ++ "\n") := by
        rw [action_line (hwaiting kept) hline, if_pos]
        rw [← (halike.line line).leavesOpen_eq]
        exact hlater 0 (Nat.zero_le _)
      refine ⟨?_, fun shell hshell => ?_⟩
      · rw [List.cons_append, sources, hwait]
        simpa [hline] using hsources
      · have henter : shell.enter limits line =
            some (false, "", { shell with pending := kept ++ "\n" ++ line ++ "\n" }) := by
          rw [enter, hshell, hwait]
        rw [List.cons_append, typed_cons henter, htyped _ rfl, Option.map_map]
        simp [hline, List.replicate_succ, Function.comp_def]

namespace OneSource

/-- The line that closes everything is no blank one. -/
theorem stripRight_last {init : List String} (h : OneSource first (init ++ [last])) :
    Text.stripRight last.toList ≠ [] := by
  intro hnil
  obtain ⟨blanks, hblanks, hlast⟩ := Text.exists_stripRight last.toList
  rw [hnil, List.nil_append] at hlast
  obtain ⟨region, balance, hstate⟩ :=
    exists_leavesOpenFrom_append .code 0 ("\n".intercalate (first :: init)).toList
  have hbefore : leavesOpen ("\n".intercalate (first :: init)) := by
    have hinit := h.unfinished init.length (by simp)
    rwa [List.take_left] at hinit
  have hafter : leavesOpenFrom region balance ('\n' :: last.toList) = false := by
    rw [← hstate _ (by simp)]
    have hfinished := h.finished
    rw [leavesOpen, toList_intercalate, behind_append, ← List.append_assoc, ← toList_intercalate]
      at hfinished
    simpa [behind] using hfinished
  rw [leavesOpenFrom_blanks, ← hstate [] (by simp), List.append_nil] at hafter
  · exact absurd hbefore (by rw [leavesOpen, hafter]; decide)
  · rw [hlast]
    exact List.forall_mem_cons.2 ⟨Text.isBlank_newline, hblanks⟩

/-- What is kept of the first line, apart from its leading blanks, and the blanks that are taken off
its end. -/
theorem exists_blanks (h : OneSource first rest) :
    ∃ blanks, Text.stripLeft first.toList = Text.stripLeft (opened first).toList ++ blanks ∧
      Text.stripLeft (opened first).toList ≠ [] ∧
      (blanks = [] ↔ Marked first ∨ Text.stripRight first.toList = first.toList) := by
  have hleft : Text.stripLeft first.toList ≠ [] := by
    intro hnil
    exact h.filled (by rw [Text.strip, hnil]; rfl)
  by_cases hmarked : Marked first
  · refine ⟨[], ?_, ?_, by simp [hmarked]⟩
    · rw [opened, if_pos hmarked, List.append_nil]
    · rwa [opened, if_pos hmarked]
  · obtain ⟨blanks, -, hsplit⟩ := Text.exists_stripRight (Text.stripLeft first.toList)
    obtain ⟨lead, -, hlead⟩ := Text.exists_stripLeft first.toList
    have hopened : Text.stripLeft (opened first).toList = Text.strip first.toList := by
      rw [opened, if_neg hmarked, String.toList_ofList, Text.stripLeft_strip]
    refine ⟨blanks, ?_, ?_, ?_⟩
    · rw [hopened]
      exact hsplit
    · rw [hopened]
      exact h.filled
    · have hright : Text.stripRight first.toList = lead ++ Text.strip first.toList := by
        have hkept : Text.stripRight (Text.stripLeft first.toList) ≠ [] := h.filled
        exact (congrArg Text.stripRight hlead).trans (Text.stripRight_append hkept)
      have hfirst : first.toList = lead ++ Text.strip first.toList ++ blanks := by
        rw [List.append_assoc]
        exact hlead.trans (congrArg (lead ++ ·) hsplit)
      rw [hright]
      constructor
      · rintro rfl
        exact .inr (by simpa using hfirst.symm)
      · rintro (hmark | heq)
        · exact absurd hmark hmarked
        · have hblanks := heq.trans hfirst
          simpa using hblanks

/-- The source is the typed text, up to blanks at the ends of both, exactly if no line behind the
first is empty, and no blanks are taken off the end of a first line that has others behind it. -/
theorem strip_source_iff (h : OneSource first rest) :
    Text.strip (source first rest).toList =
        Text.strip ("\n".intercalate (first :: rest)).toList ↔
      "" ∉ rest ∧
        (rest = [] ∨ Marked first ∨ Text.stripRight first.toList = first.toList) := by
  obtain rfl | ⟨init, last, hrest⟩ := List.eq_nil_or_concat rest
  · have hstrip : Text.strip (opened first).toList = Text.strip first.toList := by
      rw [opened]
      split
      · rfl
      · rw [String.toList_ofList, Text.strip_strip]
    simpa [source] using hstrip
  · rw [List.concat_eq_append] at hrest
    subst hrest
    obtain ⟨blanks, hfirst, hopened, hblanks⟩ := h.exists_blanks
    have hlast := h.stripRight_last
    have hline : last ≠ "" := by
      rintro rfl
      exact hlast rfl
    have hfilter : (init ++ [last]).filter (· ≠ "") = init.filter (· ≠ "") ++ [last] := by
      simp [hline]
    have hkept : Text.stripLeft first.toList ≠ [] := by
      rw [hfirst]
      exact List.append_ne_nil_of_left_ne_nil hopened blanks
    rw [source, hfilter, toList_intercalate, toList_intercalate, strip_lines hopened hlast,
      strip_lines hkept hlast, hfirst, ← hblanks, List.append_left_inj, List.append_assoc,
      List.append_right_inj, behind_filter_iff]
    simp [hline.symm, and_comm]

end OneSource

/-- A shell where no line waits runs what it has kept of the lines of one source, when the last of
them has been typed; until then it writes nothing. What it has kept is the text that was typed, up to
blanks at the ends, exactly if no line behind the first is empty, and no blanks have been taken off
the end of a first line that has others behind it. -/
theorem typed_oneSource (hnone : shell.pending = "") (h : OneSource first rest) :
    sources shell.pending (first :: rest) = [source first rest] ∧
    (shell.typed limits (first :: rest) =
      (run limits shell.session (source first rest)).map fun ran =>
        (List.replicate rest.length (false, "") ++ [(false, ran.1)], ran.2)) ∧
    (Text.strip (source first rest).toList =
        Text.strip ("\n".intercalate (first :: rest)).toList ↔
      "" ∉ rest ∧
        (rest = [] ∨ Marked first ∨ Text.stripRight first.toList = first.toList)) := by
  have haction := action_first h.filled h.plain
  rw [← and_assoc]
  refine ⟨?_, h.strip_source_iff⟩
  rw [hnone]
  obtain rfl | ⟨init, last, hrest⟩ := List.eq_nil_or_concat rest
  · have hclosed : leavesOpen (opened first) = false := by
      rw [← (Alike.opened first).leavesOpen_eq]
      exact h.finished
    rw [hclosed] at haction
    refine ⟨?_, typed_run (hnone ▸ haction)⟩
    rw [sources, haction]
    rfl
  · rw [List.concat_eq_append] at hrest
    subst hrest
    have hopen : leavesOpen (opened first) := by
      rw [← (Alike.opened first).leavesOpen_eq]
      exact h.unfinished 0 (by simp)
    rw [hopen] at haction
    have hunfinished (count : Nat) (hcount : count ≤ init.length) :
        leavesOpen ("\n".intercalate (first :: init.take count)) := by
      have hlines := h.unfinished count (by simp; omega)
      rwa [List.take_append_of_le_length hcount] at hlines
    obtain ⟨hsources, htyped⟩ :=
      sources_behind limits (Alike.opened first) init hunfinished h.finished
    have henter : shell.enter limits first =
        some (false, "", { shell with pending := opened first ++ "\n" }) := by
      rw [enter, hnone, haction]
      rfl
    refine ⟨?_, ?_⟩
    · rw [sources, haction]
      exact hsources
    · rw [typed_cons henter, htyped _ rfl, Option.map_map, source]
      simp [List.replicate_succ, Function.comp_def]

/-- The lines of a string with an empty line in it. -/
theorem oneSource_string : OneSource "print \"a" ["", "b\";"] where
  filled := by decide +kernel
  plain := by decide +kernel
  unfinished := by decide +kernel
  finished := by decide +kernel

theorem typed_oneSource_string :
    ∃ shell : Shell, shell.pending = "" ∧ OneSource "print \"a" ["", "b\";"] ∧
      sources shell.pending ["print \"a", "", "b\";"] = [source "print \"a" ["", "b\";"]] ∧
      (shell.typed .standard ["print \"a", "", "b\";"] =
        (run .standard shell.session (source "print \"a" ["", "b\";"])).map fun ran =>
          ([(false, ""), (false, ""), (false, ran.1)], ran.2)) ∧
      (Text.strip (source "print \"a" ["", "b\";"]).toList =
          Text.strip ("\n".intercalate ["print \"a", "", "b\";"]).toList ↔
        "" ∉ ["", "b\";"] ∧ (["", "b\";"] = [] ∨ Marked "print \"a" ∨
          Text.stripRight "print \"a".toList = "print \"a".toList)) := by
  obtain ⟨shell, hnone⟩ : ∃ shell : Shell, shell.pending = "" :=
    ⟨⟨⟨.interactive, Session.terminalPath, .initial fun _ => 0, 0, [], .initial false, []⟩, ""⟩, rfl⟩
  exact ⟨shell, hnone, oneSource_string, typed_oneSource hnone oneSource_string⟩

/-- Not every source is the text that was typed: from a string with an empty line in it, the line
break of that line is missing. -/
theorem sources_string_changed :
    OneSource "print \"a" ["", "b\";"] ∧
      sources "" ["print \"a", "", "b\";"] = ["print \"a\nb\";"] ∧
      Text.strip "print \"a\nb\";".toList ≠
        Text.strip ("\n".intercalate ["print \"a", "", "b\";"]).toList :=
  ⟨oneSource_string, by decide +kernel, by decide +kernel⟩

end Shell

end Lox
