import Lox.CommandLine
import Lox.Proofs.Input.LineCalls
import Lox.Proofs.Preservation.Report
import Lox.Proofs.Soundness.Progress

/-!
# What happens at the prompt

At the prompt, commands and the data of running commands come from the same input.  A dialogue is what
this amounts to: one turn after the other, each with the line that is run, the lines that its calls of
`readLine` take, the lines that it prints, and its report.  The turns use up the lines of the input in
order, and what the command writes is what the turns write.
-/

namespace Lox

/-- The lines of a text, each with its end.  The last one may have none. -/
def Text.inLines : List Char → List (List Char)
  | [] => []
  | c :: cs =>
    if c = '\n' then [c] :: inLines cs
    else
      match inLines cs with
      | [] => [[c]]
      | line :: lines => (c :: line) :: lines

theorem Text.inLines_eq {text line rest : List Char} (h : Session.splitLine text = (line, rest))
    (hline : line ≠ []) : inLines text = line :: inLines rest := by
  induction text generalizing line with
  | nil => cases h; exact absurd rfl hline
  | cons c cs ih =>
      unfold Session.splitLine at h
      rw [inLines]
      by_cases hc : c = '\n'
      · rw [if_pos hc] at h ⊢
        cases h
        rfl
      · rw [if_neg hc] at h ⊢
        cases hsplit : Session.splitLine cs with
        | mk inner rest' =>
            rw [hsplit] at h
            cases h
            cases inner with
            | nil =>
                have hnil : cs = [] ∧ rest = [] := by
                  cases cs with
                  | nil => cases hsplit; exact ⟨rfl, rfl⟩
                  | cons d ds =>
                      unfold Session.splitLine at hsplit
                      split at hsplit <;> cases hsplit
                obtain ⟨rfl, rfl⟩ := hnil
                rfl
            | cons d inner => rw [ih hsplit (List.cons_ne_nil d inner)]

theorem Session.splitLine_nil {text rest : List Char} (h : splitLine text = ([], rest)) :
    text = [] ∧ rest = [] := by
  cases text with
  | nil => cases h; exact ⟨rfl, rfl⟩
  | cons c cs =>
      unfold splitLine at h
      split at h <;> cases h

theorem Session.splitLine_append (text : List Char) :
    (splitLine text).1 ++ (splitLine text).2 = text := by
  induction text with
  | nil => rfl
  | cons c cs ih =>
      unfold splitLine
      split
      · rfl
      · exact congrArg (c :: ·) ih

theorem CutOff.length_le {text rest : List Char} {lines : List (List Char)}
    (h : CutOff text lines rest) : rest.length ≤ text.length := by
  induction h with
  | nil => exact Nat.le_refl _
  | @cons text line rest lines rest' hsplit _ ih =>
      have happend := Session.splitLine_append text
      rw [hsplit] at happend
      rw [← happend, List.length_append]
      exact Nat.le_trans ih (Nat.le_add_left _ _)

/-- Lines that are cut off a text are the first ones of its lines, but for those that are empty. -/
theorem CutOff.inLines {text rest : List Char} {lines : List (List Char)}
    (h : CutOff text lines rest) :
    Text.inLines text = lines.filter (· ≠ []) ++ Text.inLines rest := by
  induction h with
  | nil => rfl
  | @cons text line rest lines rest' hsplit _ ih =>
      by_cases hline : line = []
      · subst hline
        obtain ⟨rfl, rfl⟩ := Session.splitLine_nil hsplit
        simpa using ih
      · rw [Text.inLines_eq hsplit hline, ih]
        simp [hline]

theorem Session.run_ne_fault {fuel : Nat} {code : String} {s s' : Session} {e : RuntimeError} :
    Session.run fuel code s ≠ .error (.fault e) s' := by
  unfold Session.run
  by_cases hnone : (compile code s.nextNode).problems = []
  · rw [Eval.runProgram_accepted hnone]
    exact (Eval.ends_caught _ _).2 e s'
  · rw [Eval.runProgram_rejected hnone]
    nofun

namespace CommandLine

/-- A line that is run at the prompt, and what comes of it. -/
structure Turn where
  line : List Char
  /-- The lines that the calls of `readLine` take during the run. -/
  data : List (List Char)
  /-- The lines that the run prints. -/
  printed : List String
  report : Report

namespace Turn

/-- The lines of the input that a turn uses up.  At the end of the input there is none for
`readLine`. -/
def used (t : Turn) : List (List Char) :=
  t.line :: t.data.filter (· ≠ [])

/-- What a turn writes to standard output. -/
def shown (t : Turn) : String :=
  promptText ++ transcript t.printed

/-- The lines that a turn writes to standard error. -/
def told (options : Options) (t : Turn) : List String :=
  linesBefore options (String.ofList t.line) ++ linesAfter options t.report

theorem told_of_quiet {options : Options} (h : options.debug = false) (t : Turn) :
    t.told options = t.report.lines := by
  unfold told linesBefore linesAfter
  rw [h]
  rfl

end Turn

/-- The turns that lead from one session to another, in which the input is used up.  Each turn takes a
line and runs it, once, in the session that the turn before it left. -/
inductive Dialogue (fuel : Nat) : Session → List Turn → Session → Prop where
  | ended : s.input = [] → Dialogue fuel s [] s
  | turn {s s₁ s₂ last line report turns} : (s.write promptText).takeLine = (line, s₁) → line ≠ [] →
      Session.run fuel (String.ofList line) s₁ = .ok report s₂ → Dialogue fuel s₂ turns last →
      Dialogue fuel s
        (⟨line, s₁.taken fuel (String.ofList line), s₂.output.toList, report⟩ :: turns) last

variable {fuel : Nat} {s last : Session} {turns : List Turn}

theorem Dialogue.inLines (h : Dialogue fuel s turns last) :
    Text.inLines s.input = turns.flatMap Turn.used := by
  induction h with
  | ended hinput =>
      rw [hinput]
      rfl
  | @turn s s₁ s₂ last line report turns htake hline hrun _ ih =>
      have hsplit : Session.splitLine s.input = (line, s₁.input) := by
        cases htake
        rfl
      have htaken := (Session.takes_run fuel (String.ofList line) s₁).inLines
      rw [hrun] at htaken
      have hrest : Text.inLines s₁.input = _ ++ Text.inLines s₂.input := htaken
      rw [Text.inLines_eq hsplit hline, hrest, ih]
      rfl

/-! ## Sessions at the prompt -/

/-- A session at the prompt has no functions of the host.  If calls can be counted at all, it holds
together. -/
structure AtPrompt (counted : Prop) (s : Session) : Prop where
  hosts : s.HostsWithin .noRuns
  alike : counted → ∃ w, Session.Alike (.exact True) w s s

namespace AtPrompt

variable {counted : Prop} {code : String} {s s' : Session}

theorem start {limits : Limits} (hlimits : counted → limits.calls ≠ .blank) (input : List Char)
    (readings : Nat → Float) : AtPrompt counted (Session.start limits input readings) where
  hosts := Session.hostsWithin_start limits input readings
  alike hcounted := ⟨.start, alike_start fun _ => hlimits hcounted⟩

theorem takeLine (h : AtPrompt counted s) {line : List Char} {s₁ : Session}
    (htake : (s.write promptText).takeLine = (line, s₁)) : AtPrompt counted s₁ := by
  cases htake
  refine ⟨h.hosts, fun hcounted => ?_⟩
  obtain ⟨w, hs⟩ := h.alike hcounted
  exact ⟨w, { hs with written := rfl, input := rfl }⟩

/-- A run leaves a session in which the next line can be run, and has written what it printed. -/
theorem run (h : AtPrompt counted s) {report : Report}
    (hrun : Session.run fuel code s = .ok report s') :
    AtPrompt counted s' ∧ s'.written = s.written ++ transcript s'.output.toList := by
  refine ⟨⟨?_, fun hcounted => ?_⟩, ((Session.run_reports hrun).alone h.hosts).2.2⟩
  · by_cases hnone : (compile code s.nextNode).problems = []
    · have hprints := ((Eval.allUphold .noRuns Session.Prints fuel).execAll Session.globals
        (compile code s.nextNode).statements).upholds (s.ready code) h.hosts
      obtain ⟨s₁, ⟨hstatements, -, rfl⟩ | ⟨e, hstatements, -, rfl⟩⟩ := Eval.runProgram_inv hnone hrun
      · rw [hstatements] at hprints
        exact hprints.1
      · rw [hstatements] at hprints
        exact hprints.1
    · unfold Session.run at hrun
      rw [Eval.runProgram_rejected hnone] at hrun
      cases hrun
      exact h.hosts
  · obtain ⟨w, hs⟩ := h.alike hcounted
    have htake : (Step.run code).take fuel s = .ok (.report report) s' := by
      change (Answer.report <$> Session.run fuel code) s = _
      rw [map_eq_pure_bind, eval_bind_ok hrun]
      rfl
    have hfollows : (Step.run code).Follows (.honest True) fun _ => False := .run
    obtain ⟨w', -, hs', -⟩ :=
      hs.done nofun (Likeness.exact_obeys True) (fun h => h.accepted) hfollows htake
    exact ⟨w', hs'⟩

/-- If calls can be counted, nothing but a lack of steps breaks off a run. -/
theorem outOfFuel (h : AtPrompt counted s) (hcounted : counted) {cause : Interrupt}
    (hrun : Session.run fuel code s = .error cause s') : cause = .outOfFuel := by
  obtain ⟨w, hs⟩ := h.alike hcounted
  have hout : Lox.Outcome (.exact True) True (fun _ => Report.Related (RuntimeError.Alike (.exact True))) w.reset
      (Session.run fuel code s) (Session.run fuel code s) :=
    outcome_runProgram code (evaluatesAlike_same fuel).execAll hs (Nat.add_zero _).symm
      (Likeness.exact True).number_refl fun h => .program h
  have hunstuck := hout.unstuck
  rw [hrun] at hunstuck
  obtain hends | ⟨_, hfuel⟩ := hunstuck
  · cases hends with
    | fault _ => exact absurd hrun Session.run_ne_fault
    | host hstrict => exact absurd trivial hstrict
  · cases hfuel
    rfl

end AtPrompt

/-! ## The prompt -/

theorem Dialogue.written (h : Dialogue fuel s turns last) {counted : Prop}
    (hs : AtPrompt counted s) :
    last.written = s.written ++ String.join (turns.map Turn.shown) := by
  induction h with
  | ended => exact (String.append_empty).symm
  | @turn s s₁ s₂ last line report turns htake hline hrun _ ih =>
      obtain ⟨hs₂, hwritten⟩ := (hs.takeLine htake).run hrun
      have htaken : s₁.written = s.written ++ promptText := by
        cases htake
        rfl
      rw [ih hs₂, hwritten, htaken, List.map_cons, String.join_cons]
      simp only [Turn.shown, String.append_assoc]

theorem length_input_lt {line : List Char} {s₁ s₂ : Session} {code : String} {report : Report}
    (htake : (s.write promptText).takeLine = (line, s₁)) (hline : line ≠ [])
    (hrun : Session.run fuel code s₁ = .ok report s₂) : s₂.input.length < s.input.length := by
  have happend : line ++ s₁.input = s.input := by
    have happend := Session.splitLine_append s.input
    cases htake
    exact happend
  have htaken := Session.takes_run fuel code s₁
  unfold Eval.Takes at htaken
  rw [hrun] at htaken
  have hleft : s₂.input.length ≤ s₁.input.length := htaken.length_le
  have hpositive : 0 < line.length := List.length_pos_iff.mpr hline
  rw [← happend, List.length_append]
  omega

/-- If no run is broken off, the prompt goes on to the end of the input. -/
theorem prompt_dialogue {counted : Prop} {options : Options} {n : Nat} {lines : List String}
    (hs : AtPrompt counted s) (hn : s.input.length ≤ n)
    (hends : ∀ cause stdout stderr,
      prompt fuel options n s lines = .failed (.interrupted cause) stdout stderr →
        counted ∧ cause ≠ .outOfFuel) :
    ∃ turns last, Dialogue fuel s turns last ∧
      prompt fuel options n s lines =
        .exited exitOk ((last.write promptText).write "\n").written
          (Text.unlines (lines ++ turns.flatMap (Turn.told options))) := by
  -- Each turn takes a line, so `n` bounds the turns that are left.
  induction n generalizing s lines with
  | zero =>
      have hinput : s.input = [] := List.length_eq_zero_iff.mp (Nat.le_zero.mp hn)
      refine ⟨[], s, .ended hinput, ?_⟩
      simp only [prompt, List.flatMap_nil, List.append_nil]
  | succ n ih =>
      cases htake : (s.write promptText).takeLine with
      | mk line s₁ =>
          unfold prompt at hends ⊢
          rw [htake] at hends ⊢
          cases line with
          | nil =>
              have hsplit : Session.splitLine s.input = ([], s₁.input) :=
                congrArg (fun taken => (taken.1, taken.2.input)) htake
              have hwritten : s₁.written = (s.write promptText).written :=
                congrArg (fun taken => taken.2.written) htake.symm
              refine ⟨[], s, .ended (Session.splitLine_nil hsplit).1, ?_⟩
              simp only [List.flatMap_nil, List.append_nil, Session.write, hwritten]
          | cons c cs =>
              have hline : c :: cs ≠ [] := List.cons_ne_nil c cs
              simp only at hends ⊢
              cases hrun : Session.run fuel (String.ofList (c :: cs)) s₁ with
              | ok report s₂ =>
                  rw [hrun] at hends
                  have hless := length_input_lt htake hline hrun
                  obtain ⟨turns, last, hdialogue, hprompt⟩ :=
                    ih ((hs.takeLine htake).run hrun).1 (by omega) hends
                  refine ⟨_, last, .turn htake hline hrun hdialogue, hprompt.trans ?_⟩
                  simp only [List.flatMap_cons, Turn.told, List.append_assoc]
              | error cause s₂ =>
                  rw [hrun] at hends
                  obtain ⟨hcounted, hcause⟩ := hends _ _ _ rfl
                  exact absurd ((hs.takeLine htake).outOfFuel hcounted hrun) hcause

variable {machine : Option Nat} {readings : Nat → Float} {words : List String}
  {read : String → Except ReadError ByteArray} {input : List Char} {options : Options}

/-- Provided that every run ends, the prompt uses up its input: each line of it is either run, exactly
once, or it is the data of one call of `readLine` in the run that is going on.  The command then exits
well, whatever errors there were.

A limit that no depth can be compared with breaks off every run that calls something, so runs end under
such a limit only if they do not. -/
theorem run_prompts (hwords : parse words = .ok (.start options)) (hscript : options.script = none)
    (hends : ∀ stdout stderr, run fuel machine readings words read input ≠
      .failed (.interrupted .outOfFuel) stdout stderr)
    (hblank : options.maxCallDepth = .blank → ∀ cause stdout stderr,
      run fuel machine readings words read input ≠ .failed (.interrupted cause) stdout stderr) :
    ∃ turns last,
      Dialogue fuel (Session.start ⟨options.maxCallDepth, machine⟩ input readings) turns last ∧
        Text.inLines input = turns.flatMap Turn.used ∧
          run fuel machine readings words read input =
            .exited exitOk (String.join (turns.map Turn.shown) ++ "> \n")
              (Text.unlines (turns.flatMap (Turn.told options))) ∧
            (options.debug = false → ∀ t ∈ turns, t.told options = t.report.lines) := by
  have hrun : run fuel machine readings words read input =
      prompt fuel options input.length
        (Session.start ⟨options.maxCallDepth, machine⟩ input readings) [] := by
    unfold run start
    rw [hwords]
    simp only [hscript]
  have hlimits : options.maxCallDepth ≠ .blank →
      (Limits.mk options.maxCallDepth machine).calls ≠ .blank := fun h => h
  have hs := AtPrompt.start hlimits input readings
  rw [hrun] at hends hblank ⊢
  obtain ⟨turns, last, hdialogue, hprompt⟩ :=
    prompt_dialogue hs (Nat.le_refl _) fun cause stdout stderr hfailed => by
      refine ⟨fun h => hblank h _ _ _ hfailed, ?_⟩
      rintro rfl
      exact hends _ _ hfailed
  refine ⟨turns, last, hdialogue, hdialogue.inLines, ?_, fun h t _ => t.told_of_quiet h⟩
  refine hprompt.trans ?_
  rw [List.nil_append]
  change Outcome.exited exitOk (last.written ++ promptText ++ "\n") _ = _
  rw [hdialogue.written hs, String.append_assoc]
  rfl

/-- Lines that fail in all ways, a line that reads two others, and a last line without an end, which reads
at the end of the input. -/
def conversation : String :=
  "fun pair(a, b) \x7b return b + a; \x7d
print pair(readLine(), readLine());
world
hello 
print @;
print pair(nil);
var n = readLine(); print n; print n == \"\";"

theorem run_prompts_conversation :
    parse [] = .ok (.start {}) ∧ ∃ turns last,
      Dialogue 40 (Session.start {} conversation.toList fun _ => 0) turns last ∧
        Text.inLines conversation.toList = turns.flatMap Turn.used ∧
          run 40 none (fun _ => 0) [] (fun _ => .error .missing) conversation.toList =
            .exited exitOk (String.join (turns.map Turn.shown) ++ "> \n")
              (Text.unlines (turns.flatMap (Turn.told {}))) ∧
            String.join (turns.map Turn.shown) ++ "> \n" =
              "> > hello world\n> > > \ntrue\n> \n" := by
  have hwords : parse [] = .ok (.start {}) := rfl
  have hshown :
      (match run 40 none (fun _ => 0) [] (fun _ => .error .missing) conversation.toList with
      | .exited _ stdout _ => some stdout
      | _ => none) = some "> > hello world\n> > > \ntrue\n> \n" := by
    set_option maxRecDepth 3000 in
    rw [show conversation = String.ofList _ from rfl, String.toList_ofList]
    decide +kernel
  have hexits : ∀ cause stdout stderr,
      run 40 none (fun _ => 0) [] (fun _ => .error .missing) conversation.toList ≠
        .failed (.interrupted cause) stdout stderr := by
    intro cause stdout stderr h
    rw [h] at hshown
    cases hshown
  obtain ⟨turns, last, hdialogue, hlines, hrun, -⟩ := run_prompts hwords rfl (hexits _) nofun
  rw [hrun] at hshown
  exact ⟨hwords, turns, last, hdialogue, hlines, hrun, Option.some.inj hshown⟩

end CommandLine

end Lox
