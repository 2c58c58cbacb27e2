import Lox.Host.Catalogue
import Lox.Proofs.Preservation.Upheld

/-!
# What a run leaves behind

The report of a run, its flags and its output are about that run and nothing else, unless a host function
runs another program in the meantime: that one begins with new flags and a new output, and the first run
goes on with what it left.  The report itself and the flag for faults are right even then.
-/

namespace Lox

def transcript (lines : List String) : String :=
  String.join (lines.map (· ++ "\n"))

theorem append_transcript_nil (written : String) : written ++ transcript [] = written := by
  have hnil : transcript [] = "" := rfl
  rw [hnil, String.append_empty]

theorem transcript_append (lines lines' : List String) :
    transcript (lines ++ lines') = transcript lines ++ transcript lines' := by
  unfold transcript
  rw [List.map_append, String.join_append]

/-! ## Output -/

theorem Session.output_printLine (s : Session) (line : String) :
    (s.printLine line).output.toList = s.output.toList ++ [line] :=
  Array.toList_push

theorem Session.written_printLine (s : Session) (line : String) :
    (s.printLine line).written = s.written ++ transcript [line] := by
  change s.written ++ line ++ "\n" = s.written ++ transcript [line]
  rw [String.append_assoc]
  rfl

/-- Later lines are added to the output, and the flag for static errors stays as it is. -/
def Session.Prints (s s' : Session) : Prop :=
  s'.hadStaticError = s.hadStaticError ∧ ∃ more, s'.output.toList = s.output.toList ++ more ∧
    s'.written = s.written ++ transcript more

instance : Upheld .noRuns Session.Prints where
  refl _ := ⟨rfl, [], (List.append_nil _).symm, (append_transcript_nil _).symm⟩
  trans := by
    rintro s s' s'' ⟨hflag, more, houtput, hwritten⟩ ⟨hflag', more', houtput', hwritten'⟩
    refine ⟨hflag'.trans hflag, more ++ more', ?_, ?_⟩
    · rw [houtput', houtput, List.append_assoc]
    · rw [hwritten', hwritten, transcript_append, String.append_assoc]
  store s _ _ _ _ := ⟨rfl, [], (List.append_nil _).symm, (append_transcript_nil _).symm⟩
  exchange s _ _ _ _ := ⟨rfl, [], (List.append_nil _).symm, (append_transcript_nil _).symm⟩
  number _ s _ := ⟨rfl, [], (List.append_nil _).symm, (append_transcript_nil _).symm⟩
  print s line := ⟨rfl, [line], s.output_printLine line, s.written_printLine line⟩
  call h := h
  begin h := h.elim
  read h := h.elim
  flag h := h.elim

/-- Lines are added to the output, or it was begun anew and holds the last lines that were written. -/
def Session.Trails (s s' : Session) : Prop :=
  (∃ more, s'.output.toList = s.output.toList ++ more ∧
    s'.written = s.written ++ transcript more) ∨
  ∃ earlier, s'.written = s.written ++ earlier ++ transcript s'.output.toList

namespace Session.Trails

variable {s s' s'' : Session}

theorem of_same (houtput : s'.output = s.output) (hwritten : s'.written = s.written) : s.Trails s' := by
  refine .inl ⟨[], ?_, ?_⟩
  · rw [houtput, List.append_nil]
  · rw [hwritten, append_transcript_nil]

theorem trans (h : s.Trails s') (h' : s'.Trails s'') : s.Trails s'' := by
  obtain ⟨more, houtput, hwritten⟩ | ⟨earlier, hwritten⟩ := h
  · obtain ⟨more', houtput', hwritten'⟩ | ⟨earlier, hwritten'⟩ := h'
    · refine .inl ⟨more ++ more', ?_, ?_⟩
      · rw [houtput', houtput, List.append_assoc]
      · rw [hwritten', hwritten, transcript_append, String.append_assoc]
    · refine .inr ⟨transcript more ++ earlier, ?_⟩
      rw [hwritten', hwritten]
      simp only [String.append_assoc]
  · obtain ⟨more, houtput, hwritten'⟩ | ⟨later, hwritten'⟩ := h'
    · refine .inr ⟨earlier, ?_⟩
      rw [hwritten', hwritten, houtput, transcript_append, ← String.append_assoc]
    · refine .inr ⟨earlier ++ transcript s'.output.toList ++ later, ?_⟩
      rw [hwritten', hwritten]
      simp only [String.append_assoc]

end Session.Trails

instance : Upheld .all Session.Trails where
  refl _ := .of_same rfl rfl
  trans := .trans
  store _ _ _ _ _ := .of_same rfl rfl
  exchange _ _ _ _ _ := .of_same rfl rfl
  number _ _ _ := .of_same rfl rfl
  print s line := .inl ⟨[line], s.output_printLine line, s.written_printLine line⟩
  call h := h
  begin _ s := .inr ⟨"", by
    change s.written = s.written ++ "" ++ transcript []
    rw [append_transcript_nil, String.append_empty]⟩
  read _ _ _ := .of_same rfl rfl
  flag _ _ _ _ := .of_same rfl rfl

/-! ## Reports -/

/-- The report of a run that began in one session and ended in another. -/
structure Reported (fuel : Nat) (code : String) (s : Session) (report : Report) (s' : Session) :
    Prop where
  /-- A program is rejected if and only if it has static errors. -/
  rejected : (∃ problems, report = .rejected problems) ↔ (compile code s.nextNode).problems ≠ []
  /-- Faults are those of the program's own statements. -/
  failed : ∀ e, report = .failed e ↔ (compile code s.nextNode).problems = [] ∧
    ∃ s₁, Eval.execAll fuel Session.globals (compile code s.nextNode).statements (s.ready code) =
      .error (.fault e) s₁
  faultFlag : s'.hadRuntimeError = true ↔ ∃ e, report = .failed e
  staticFlag : (compile code s.nextNode).problems ≠ [] → s'.hadStaticError = true
  /-- The output is what was written last. -/
  output : ∃ earlier, s'.written = s.written ++ earlier ++ transcript s'.output.toList
  /-- Without programs that host functions run, the flag for static errors is right and the output is
  everything that was written. -/
  alone : s.HostsWithin .noRuns →
    (s'.hadStaticError = true ↔ (compile code s.nextNode).problems ≠ []) ∧
      (report.lines = [] ↔ s'.hadStaticError = false ∧ s'.hadRuntimeError = false) ∧
        s'.written = s.written ++ transcript s'.output.toList

section

variable {fuel : Nat} {code : String} {s s' : Session} {report : Report}

theorem reported_rejected (hsome : (compile code s.nextNode).problems ≠ [])
    (h : Session.run fuel code s = .ok report s') : Reported fuel code s report s' := by
  unfold Session.run at h
  rw [Eval.runProgram_rejected hsome] at h
  cases h
  have hwritten : s.written = s.written ++ transcript [] := (append_transcript_nil _).symm
  have hearlier : s.written = s.written ++ "" ++ transcript [] := by
    rw [append_transcript_nil, String.append_empty]
  constructor
  · exact ⟨fun _ => hsome, fun _ => ⟨_, rfl⟩⟩
  · exact fun e => ⟨nofun, fun h => absurd h.1 hsome⟩
  · exact ⟨fun hflag => absurd hflag Bool.false_ne_true, fun ⟨_, hreport⟩ => (nomatch hreport)⟩
  · exact fun _ => rfl
  · exact ⟨"", hearlier⟩
  · refine fun _ => ⟨⟨fun _ => hsome, fun _ => rfl⟩, ⟨fun hnone => ?_, nofun⟩, hwritten⟩
    exact absurd (List.map_eq_nil_iff.mp hnone) hsome

theorem Session.Trails.output (h : (s.ready code).Trails s') :
    ∃ earlier, s'.written = s.written ++ earlier ++ transcript s'.output.toList := by
  obtain ⟨more, houtput, hwritten⟩ | later := h
  · refine ⟨"", ?_⟩
    rw [hwritten, houtput, String.append_empty]
    rfl
  · exact later

theorem Session.Prints.output (h : (s.ready code).Prints s') :
    s'.hadStaticError = false ∧ s'.written = s.written ++ transcript s'.output.toList := by
  obtain ⟨hflag, more, houtput, hwritten⟩ := h
  refine ⟨hflag, ?_⟩
  rw [hwritten, houtput]
  rfl

theorem reported_accepted (hnone : (compile code s.nextNode).problems = [])
    (h : Session.run fuel code s = .ok report s') : Reported fuel code s report s' := by
  have hsome : ¬ (compile code s.nextNode).problems ≠ [] := fun hsome => hsome hnone
  have htrails := ((Eval.allUphold .all Session.Trails fuel).execAll Session.globals
    (compile code s.nextNode).statements).always (s.ready code)
  have hprints := ((Eval.allUphold .noRuns Session.Prints fuel).execAll Session.globals
    (compile code s.nextNode).statements).upholds (s.ready code)
  obtain ⟨s₁, ⟨hrun, rfl, rfl⟩ | ⟨e, hrun, rfl, rfl⟩⟩ := Eval.runProgram_inv hnone h
  · rw [hrun] at htrails hprints
    constructor
    · exact ⟨fun ⟨_, hreport⟩ => (nomatch hreport), fun h => absurd h hsome⟩
    · exact fun e => ⟨nofun, fun ⟨_, _, hfault⟩ => nomatch hrun.symm.trans hfault⟩
    · exact ⟨nofun, fun ⟨_, hreport⟩ => nomatch hreport⟩
    · exact fun h => absurd h hsome
    · exact htrails.output
    · intro hs
      obtain ⟨hflag, hwritten⟩ := (hprints hs).2.output
      refine ⟨⟨fun h => ?_, fun h => absurd h hsome⟩, ⟨fun _ => ⟨hflag, rfl⟩, fun _ => rfl⟩, hwritten⟩
      cases h.symm.trans hflag
  · rw [hrun] at htrails hprints
    constructor
    · exact ⟨fun ⟨_, hreport⟩ => (nomatch hreport), fun h => absurd h hsome⟩
    · intro e'
      refine ⟨fun hreport => ⟨hnone, s₁, ?_⟩, fun ⟨_, _, hfault⟩ => ?_⟩
      · cases hreport
        exact hrun
      · cases hrun.symm.trans hfault
        rfl
    · exact ⟨fun _ => ⟨e, rfl⟩, fun _ => rfl⟩
    · exact fun h => absurd h hsome
    · exact htrails.output
    · intro hs
      obtain ⟨hflag, hwritten⟩ := (hprints hs).2.output
      refine ⟨⟨fun h => ?_, fun h => absurd h hsome⟩, ⟨nofun, fun h => nomatch h.2⟩, hwritten⟩
      cases h.symm.trans hflag

theorem Session.run_reports (h : Session.run fuel code s = .ok report s') :
    Reported fuel code s report s' := by
  by_cases hnone : (compile code s.nextNode).problems = []
  · exact reported_accepted hnone h
  · exact reported_rejected hnone h

end

/-- A session in which `r` runs programs. -/
def reentrant : Session :=
  leftBy (Eval.setGlobal "r" Catalogue.reenter (.start {} [] fun _ => 0))

/-- A program that runs another one, which has a static error. -/
def interrupted : String :=
  "print \"a\"; r(\"@\"); print \"b\";"

theorem run_interrupted :
    ∃ s', Session.run 20 interrupted reentrant = .ok .finished s' ∧ s'.hadStaticError = true ∧
      s'.output.toList = ["b"] ∧ s'.written = transcript ["a", "b"] := by
  have hend : (match Session.run 20 interrupted reentrant with
      | .ok .finished s' => some (s'.hadStaticError, s'.output.toList, s'.written)
      | _ => none) = some (true, ["b"], transcript ["a", "b"]) := by decide +kernel
  split at hend
  · next s' hrun =>
      simp only [Option.some.injEq, Prod.mk.injEq] at hend
      exact ⟨s', hrun, hend⟩
  · cases hend

theorem Session.run_reports_interrupted :
    ∃ s', Session.run 20 interrupted reentrant = .ok .finished s' ∧
      Reported 20 interrupted reentrant .finished s' := by
  obtain ⟨s', hrun, -⟩ := run_interrupted
  exact ⟨s', hrun, Session.run_reports hrun⟩

/-- A program without any error that runs one with a static error is left with the flag of the other
program, and its first line is lost from the output. -/
theorem Session.run_misreports :
    (compile interrupted reentrant.nextNode).problems = [] ∧
      ∃ s', Session.run 20 interrupted reentrant = .ok .finished s' ∧ s'.hadStaticError = true ∧
        s'.output.toList = ["b"] ∧ s'.written = transcript ["a", "b"] :=
  ⟨by decide +kernel, run_interrupted⟩

end Lox
